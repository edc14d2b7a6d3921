import Mathlib.Algebra.BigOperators.Group.List.Basic
import Mathlib.Algebra.Order.BigOperators.Group.List
import Mathlib.Algebra.Order.Group.Int
import Mathlib.Algebra.Ring.Int.Defs
import Mathlib.Data.List.Induction
import Mathlib.Logic.Function.Basic

/-!
`base_shm.h`: a segment of shared memory with a name, and its mapping. A segment lives on when its
name is removed. Its bytes are seen as a value of `M`, and `zero` is the value of zero bytes.
-/

set_option autoImplicit false

namespace TransmissionPlatform.Shm

structure Segment (M : Type) where
  size : Int64
  memory : M

/-- The shared memory of the system: what the names lead to, and the segments that were made. -/
structure System (M : Type) where
  names : String → Option Nat := fun _ => none
  segments : List (Segment M) := []

namespace System
variable {M : Type} (sys : System M)

def createOnly (zero : M) (name : String) : Option (Nat × System M) :=
  match sys.names name with
  | some _ => none
  | none =>
    let id := sys.segments.length
    some (id,{ names := Function.update sys.names name (some id)
               segments := sys.segments ++ [⟨0,zero⟩] })

def truncate (id : Nat) (length : Int64) : Option (System M) :=
  if length < 0 then none
  else some { sys with segments := sys.segments.modify id fun s => { s with size := length } }

/-- The size of a `mapped_region` over a whole segment. Nothing cannot be mapped. -/
def mapSize (id : Nat) : Option UInt64 :=
  match sys.segments[id]? with
  | none => none
  | some s => if s.size = 0 then none else some s.size.toUInt64

def remove (name : String) : Bool × System M :=
  ((sys.names name).isSome,{ sys with names := Function.update sys.names name none })

def memory (id : Nat) : Option M := (sys.segments[id]?).map Segment.memory

def size (id : Nat) : Option Int64 := (sys.segments[id]?).map Segment.size

def store (id : Nat) (m : M) : System M :=
  { sys with segments := sys.segments.modify id fun s => { s with memory := m } }

variable {sys}

@[simp] theorem names_store (id : Nat) (m : M) : (sys.store id m).names = sys.names := rfl

theorem memory_store {id : Nat} {m₀ : M} (there : sys.memory id = some m₀) (m : M) :
    (sys.store id m).memory id = some m := by
  simp only [memory, Option.map_eq_some_iff] at there
  obtain ⟨s,hs,-⟩ := there
  simp [memory, store, hs]

theorem size_truncate {t : System M} {id : Nat} {n length : Int64} (there : sys.size id = some n)
    (h : sys.truncate id length = some t) : t.size id = some length := by
  simp only [size, Option.map_eq_some_iff] at there
  obtain ⟨s,hs,-⟩ := there
  simp only [truncate] at h
  split at h <;> cases h
  simp [size, hs]

end System

/-- A handle: the segment, its name and the size of the mapping. -/
structure BaseShm where
  name : String
  shm_ : Nat
  shm_map_ : UInt64
  deriving DecidableEq, Repr

namespace BaseShm
variable {M : Type}

/-- `BaseShm(name)`. -/
def openByName (name : String) (sys : System M) : Option BaseShm := do
  let id ← sys.names name
  let size ← sys.mapSize id
  return { name := name, shm_ := id, shm_map_ := size }

/-- `BaseShm(name, length)`, and the system behind it. An exception after `create_only` leaves the
name behind. -/
def create (zero : M) (name : String) (length : Int64) (sys : System M) :
    Option BaseShm × System M :=
  match sys.createOnly zero name with
  | none => (none,sys)
  | some (id,sys) =>
    match sys.truncate id length with
    | none => (none,sys)
    | some sys =>
      match sys.mapSize id with
      | none => (none,sys)
      | some size => (some { name := name, shm_ := id, shm_map_ := size },sys.store id zero)

/-- `~BaseShm`. -/
def destroy (b : BaseShm) (sys : System M) : System M := (sys.remove b.name).2

/-- `Truncate`, which may throw. -/
def truncate (b : BaseShm) (length : Int64) (sys : System M) : Option (System M) :=
  sys.truncate b.shm_ (b.shm_map_ + length.toUInt64).toInt64

def deleteShm (b : BaseShm) (sys : System M) : Bool × System M := sys.remove b.name

def getName (b : BaseShm) : String := b.name

def getAddress (b : BaseShm) : Nat := b.shm_

def size (b : BaseShm) : UInt64 := b.shm_map_

structure Created (zero : M) (n : Int64) (b : BaseShm) (sys : System M) : Prop where
  mapped : b.shm_map_ = n.toUInt64
  positive : 0 < n
  named : sys.names b.name = some b.shm_
  size : sys.size b.shm_ = some n
  memory : sys.memory b.shm_ = some zero

theorem created {zero : M} {name : String} {n : Int64} {sys t : System M} {b : BaseShm}
    (made : create zero name n sys = (some b,t)) : b.name = name ∧ Created zero n b t := by
  simp only [create, System.createOnly] at made
  cases hname : sys.names name with
  | some id => simp [hname] at made
  | none =>
    by_cases hneg : n < 0
    · simp [hname, System.truncate, hneg] at made
    by_cases hzero : n = 0
    · simp [hname, System.truncate, System.mapSize, hzero] at made
    simp only [hname, System.truncate, hneg, if_false, System.mapSize] at made
    simp [hzero] at made
    obtain ⟨rfl,rfl⟩ := made
    refine ⟨rfl,rfl,?_,by simp,?_,?_⟩
    · rw [Int64.lt_iff_toInt_lt] at hneg ⊢
      have hne : n.toInt ≠ 0 := fun h => hzero (Int64.toInt_inj.mp h)
      simp only [Int64.toInt_zero] at hneg ⊢
      omega
    · simp [System.size, System.store]
    · simp [System.memory, System.store]

/-- One call of `Truncate` after another. One that throws leaves the segment as it is. -/
def truncates (b : BaseShm) (lengths : List Int64) (sys : System M) : System M :=
  lengths.foldl (fun sys length => (b.truncate length sys).getD sys) sys

theorem truncates_snoc (b : BaseShm) (ls : List Int64) (l : Int64) (sys : System M) :
    b.truncates (ls ++ [l]) sys = (b.truncate l (b.truncates ls sys)).getD (b.truncates ls sys) := by
  simp [truncates]

section Truncate
variable {zero : M} {n : Int64} {b : BaseShm} {sys : System M}

theorem truncate_eq (new : Created zero n b sys) (l : Int64) (t : System M) :
    b.truncate l t = t.truncate b.shm_ (n + l) := by
  simp [truncate, new.mapped]

theorem size_truncates (new : Created zero n b sys) (ls : List Int64) :
    ∃ s, (b.truncates ls sys).size b.shm_ = some s := by
  induction ls using List.reverseRecOn with
  | nil => exact ⟨n,new.size⟩
  | append_singleton ls l ih =>
    obtain ⟨s,hs⟩ := ih
    rw [truncates_snoc]
    cases ht : b.truncate l (b.truncates ls sys) with
    | none => exact ⟨s,hs⟩
    | some t => exact ⟨_,System.size_truncate hs ht⟩

theorem size_truncates_snoc (new : Created zero n b sys) (ls : List Int64) {l : Int64}
    (hl : 0 ≤ l) (fits : n.toInt + l.toInt < 2 ^ 63) :
    (b.truncates (ls ++ [l]) sys).size b.shm_ = some (n + l) := by
  have hn := Int64.lt_iff_toInt_lt.mp new.positive
  have hl' := Int64.le_iff_toInt_le.mp hl
  simp only [Int64.toInt_zero] at hn hl'
  have hsum : (n + l).toInt = n.toInt + l.toInt := by
    rw [Int64.toInt_add]
    exact Int.bmod_eq_of_le (by omega) (by omega)
  have hpos : ¬n + l < 0 := by
    rw [Int64.lt_iff_toInt_lt, hsum, Int64.toInt_zero]
    omega
  obtain ⟨s,hs⟩ := size_truncates new ls
  obtain ⟨t,ht⟩ : ∃ t, b.truncate l (b.truncates ls sys) = some t := by
    simp [truncate_eq new, System.truncate, hpos]
  rw [truncates_snoc, ht]
  exact System.size_truncate hs (truncate_eq new l _ ▸ ht)

/-- After the calls the segment has its first size and the lengths, none of them made it smaller,
and `Size()` reports it. -/
structure Grows (b : BaseShm) (n : Int64) (ls : List Int64) (sys : System M) : Prop where
  total : ∃ s, (b.truncates ls sys).size b.shm_ = some s ∧
    s.toInt = n.toInt + (ls.map Int64.toInt).sum
  mono : ∀ k s t, (b.truncates (ls.take k) sys).size b.shm_ = some s →
    (b.truncates (ls.take (k + 1)) sys).size b.shm_ = some t → s ≤ t
  reported : (b.truncates ls sys).size b.shm_ = some b.size.toInt64

theorem size_truncates_zero (new : Created zero n b sys) {ls : List Int64} (h : ∀ l ∈ ls, l = 0) :
    (b.truncates ls sys).size b.shm_ = some n := by
  cases ls using List.reverseRecOn with
  | nil => exact new.size
  | append_singleton ls l =>
    obtain rfl : l = 0 := h l (by simp)
    have fits : n.toInt + (0 : Int64).toInt < 2 ^ 63 := by simpa using n.toInt_lt
    simpa using size_truncates_snoc new ls (Int64.le_refl 0) fits

end Truncate

/-- `Truncate` grows the segment as it should when nothing is added. Each call starts from the size
of the mapping, which stays, so that the last length replaces those before it. -/
theorem truncates_grow_iff {zero : M} {name : String} {n : Int64} {sys t : System M} {b : BaseShm}
    (made : create zero name n sys = (some b,t)) {ls : List Int64} (hls : ∀ l ∈ ls, 0 ≤ l) :
    (Grows b n ls t ↔ ∀ l ∈ ls, l = 0) ∧
      ∀ l, 0 ≤ l → n.toInt + l.toInt < 2 ^ 63 →
        (b.truncates (ls ++ [l]) t).size b.shm_ = some (n + l) := by
  have new := (created made).2
  refine ⟨⟨?_,?_⟩,fun l => size_truncates_snoc new ls⟩
  · intro grows l hl
    obtain ⟨s,hs,total⟩ := grows.total
    have hsn : s = n := by
      have reported := hs.symm.trans grows.reported
      simpa [size, new.mapped] using reported
    have hsum : (ls.map Int64.toInt).sum = 0 := by
      rw [hsn] at total
      omega
    have hnonneg : ∀ x ∈ ls.map Int64.toInt, 0 ≤ x := by
      intro x hx
      obtain ⟨l,hl,rfl⟩ := List.mem_map.mp hx
      simpa [Int64.le_iff_toInt_le] using hls l hl
    have hzero := List.all_zero_of_le_zero_le_of_sum_eq_zero hnonneg hsum
      (List.mem_map_of_mem hl)
    exact Int64.toInt_inj.mp (by simpa using hzero)
  · intro h
    have htake : ∀ k, ∀ l ∈ ls.take k, l = 0 := fun k l hl => h l (List.mem_of_mem_take hl)
    refine ⟨⟨n,size_truncates_zero new h,?_⟩,?_,?_⟩
    · have hsum : (ls.map Int64.toInt).sum = 0 := by
        refine List.sum_eq_zero fun x hx => ?_
        obtain ⟨l,hl,rfl⟩ := List.mem_map.mp hx
        simp [h l hl]
      omega
    · intro k s u hs hu
      rw [size_truncates_zero new (htake k)] at hs
      rw [size_truncates_zero new (htake (k + 1))] at hu
      cases hs
      cases hu
      exact Int64.le_refl _
    · rw [size_truncates_zero new h]
      simp [size, new.mapped]

theorem truncates_grow_iff_nothing :
    ∃ b t, create () "seckey" 16 {} = (some b,t) ∧ Grows b 16 [0,0] t := by
  obtain ⟨t,made⟩ : ∃ t, create () "seckey" 16 {} =
      (some { name := "seckey", shm_ := 0, shm_map_ := 16 },t) := ⟨_,rfl⟩
  exact ⟨_,t,made,(truncates_grow_iff made (by simp)).1.mpr (by simp)⟩

theorem truncates_shrink :
    ∃ b t, create () "seckey" 1 {} = (some b,t) ∧ ¬Grows b 1 [2,1] t := by
  refine ⟨{ name := "seckey", shm_ := 0, shm_map_ := 1 },_,rfl,fun grows => ?_⟩
  exact absurd (grows.mono 1 3 2 (by decide) (by decide)) (by decide)

end BaseShm

end TransmissionPlatform.Shm
