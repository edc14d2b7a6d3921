import Mathlib.Data.UInt
import Mathlib.Algebra.Order.Ring.Nat

/-!
The wire format of protocol buffers, as far as varints and length-delimited values go. A
message on the wire is a sequence of fields, each a tag and a value; the number of a field and
the form of its value are both in the tag.
-/

set_option autoImplicit false

namespace TransmissionPlatform.ProtoWire

/-- Base 128, least significant group first; every byte but the last has its high bit set. -/
def varint (n : Nat) : List UInt8 :=
  if n < 128 then [UInt8.ofNat n] else UInt8.ofNat (n % 128 + 128) :: varint (n / 128)
termination_by n
decreasing_by omega

def readVarint : List UInt8 → Option (Nat × List UInt8)
  | [] => none
  | b :: bs =>
    if b.toNat < 128 then some (b.toNat,bs)
    else (readVarint bs).map fun r => (b.toNat - 128 + 128 * r.1,r.2)

theorem varint_ne_nil (n : Nat) : varint n ≠ [] := by
  rw [varint]
  split <;> exact List.cons_ne_nil _ _

theorem readVarint_varint (n : Nat) (rest : List UInt8) :
    readVarint (varint n ++ rest) = some (n,rest) := by
  induction n using Nat.strongRecOn with
  | ind n ih =>
    rw [varint]
    split
    · rename_i hlt
      have hn : (UInt8.ofNat n).toNat = n := by
        rw [UInt8.toNat_ofNat', Nat.mod_eq_of_lt (by omega)]
      simp only [List.cons_append, List.nil_append, readVarint, hn, hlt, if_true]
    · rename_i hge
      have hb : (UInt8.ofNat (n % 128 + 128)).toNat = n % 128 + 128 := by
        rw [UInt8.toNat_ofNat', Nat.mod_eq_of_lt (by omega)]
      have hdiv : n / 128 < n := Nat.div_lt_self (by omega) (by decide)
      have hlarge : ¬ n % 128 + 128 < 128 := by omega
      have hvalue : n % 128 + 128 - 128 + 128 * (n / 128) = n := by omega
      simp only [List.cons_append, readVarint, hb, hlarge, if_false, ih _ hdiv, Option.map_some,
        hvalue]

theorem readVarint_lt {text rest : List UInt8} {n : Nat} (h : readVarint text = some (n,rest)) :
    rest.length < text.length := by
  induction text generalizing n rest with
  | nil => cases h
  | cons b text ih =>
    unfold readVarint at h
    split at h
    · cases h
      exact Nat.lt_succ_self _
    · obtain ⟨r,hr,heq⟩ := Option.map_eq_some_iff.mp h
      cases heq
      exact Nat.lt_succ_of_lt (ih hr)

theorem readVarint_keeps {text rest : List UInt8} {n : Nat} (more : List UInt8)
    (h : readVarint text = some (n,rest)) : readVarint (text ++ more) = some (n,rest ++ more) := by
  induction text generalizing n rest with
  | nil => cases h
  | cons b text ih =>
    rw [List.cons_append]
    unfold readVarint at h ⊢
    split at h
    · rename_i hlast
      cases h
      rw [if_pos hlast]
    · rename_i hmore
      obtain ⟨r,hr,heq⟩ := Option.map_eq_some_iff.mp h
      cases heq
      rw [if_neg hmore, ih hr]
      rfl

inductive Value where
  | varint (n : Nat)
  | bytes (bs : List UInt8)
  deriving DecidableEq, Repr

structure Field where
  number : Nat
  value : Value
  deriving DecidableEq, Repr

def Field.write : Field → List UInt8
  | ⟨number,.varint n⟩ => varint (number * 8) ++ varint n
  | ⟨number,.bytes bs⟩ => varint (number * 8 + 2) ++ (varint bs.length ++ bs)

def readField (bs : List UInt8) : Option (Field × List UInt8) := do
  let tag ← readVarint bs
  let value ← readVarint tag.2
  if tag.1 % 8 = 0 then some (⟨tag.1 / 8,.varint value.1⟩,value.2)
  else if tag.1 % 8 = 2 ∧ value.1 ≤ value.2.length then
    some (⟨tag.1 / 8,.bytes (value.2.take value.1)⟩,value.2.drop value.1)
  else none

theorem readField_write (field : Field) (rest : List UInt8) :
    readField (field.write ++ rest) = some (field,rest) := by
  obtain ⟨number,value⟩ := field
  cases value with
  | varint n => simp [readField, Field.write, readVarint_varint]
  | bytes bs =>
    have hform : (number * 8 + 2) % 8 = 2 := by omega
    have hnumber : (number * 8 + 2) / 8 = number := by omega
    simp [readField, Field.write, readVarint_varint, hform, hnumber]

theorem write_length_pos (field : Field) : 0 < field.write.length := by
  obtain ⟨number,value⟩ := field
  cases value <;> simp [Field.write, List.length_pos_iff, varint_ne_nil]

def readFields : Nat → List UInt8 → Option (List Field)
  | _, [] => some []
  | 0, _ :: _ => none
  | fuel + 1, bs => do
    let field ← readField bs
    let fields ← readFields fuel field.2
    some (field.1 :: fields)

/-- A field takes at least one byte, so the length of the text is fuel enough. -/
def read (bs : List UInt8) : Option (List Field) := readFields bs.length bs

def write (fields : List Field) : List UInt8 := fields.flatMap Field.write

theorem readFields_write {fuel : Nat} (fields : List Field) (h : (write fields).length ≤ fuel) :
    readFields fuel (write fields) = some fields := by
  induction fields generalizing fuel with
  | nil => cases fuel <;> rfl
  | cons field fields ih =>
    have hwrite : write (field :: fields) = field.write ++ write fields := rfl
    have hpos := write_length_pos field
    rw [hwrite, List.length_append] at h
    cases fuel with
    | zero => omega
    | succ fuel =>
      have hread := readField_write field (write fields)
      have hrest : readFields fuel (write fields) = some fields := ih (by omega)
      rw [hwrite]
      cases hbs : field.write ++ write fields with
      | nil =>
        rw [(List.append_eq_nil_iff.mp hbs).1] at hpos
        exact absurd hpos (Nat.lt_irrefl 0)
      | cons b bs =>
        rw [hbs] at hread
        simp only [readFields, hread, Option.bind_eq_bind, Option.bind_some, hrest]

theorem read_write (fields : List Field) : read (write fields) = some fields :=
  readFields_write fields (Nat.le_refl _)

/-- Fields with their default value are not written. -/
def bytesField (number : Nat) (bs : List UInt8) : List Field :=
  if bs = [] then [] else [⟨number,.bytes bs⟩]

def varintField (number n : Nat) : List Field :=
  if n = 0 then [] else [⟨number,.varint n⟩]

end TransmissionPlatform.ProtoWire
