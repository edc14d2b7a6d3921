import Mathlib.Data.UInt
import Mathlib.Algebra.Order.Ring.Nat

/-!
Base64: three bytes are four digits of six bits each, and the end of the text is padded to four
characters. The text can be broken into lines of 64 characters, each ended by a newline, which
is 48 bytes a line.
-/

set_option autoImplicit false

namespace TransmissionPlatform.Base64

def pad : UInt8 := 61

def newline : UInt8 := 10

def digit (i : Nat) : UInt8 :=
  if i < 26 then UInt8.ofNat (65 + i)
  else if i < 52 then UInt8.ofNat (97 + (i - 26))
  else if i < 62 then UInt8.ofNat (48 + (i - 52))
  else if i = 62 then 43
  else 47

def value (c : UInt8) : Option Nat :=
  if 65 ≤ c ∧ c ≤ 90 then some (c.toNat - 65)
  else if 97 ≤ c ∧ c ≤ 122 then some (c.toNat - 97 + 26)
  else if 48 ≤ c ∧ c ≤ 57 then some (c.toNat - 48 + 52)
  else if c = 43 then some 62
  else if c = 47 then some 63
  else none

theorem value_digit {i : Nat} (hi : i < 64) : value (digit i) = some i := by
  revert i
  decide

theorem digit_ne {i : Nat} (hi : i < 64) : digit i ≠ pad ∧ digit i ≠ newline := by
  revert i
  decide

def group (a b c : UInt8) : Nat := a.toNat * 65536 + b.toNat * 256 + c.toNat

def encode : List UInt8 → List UInt8
  | a :: b :: c :: rest =>
    let n := group a b c
    digit (n / 262144) :: digit (n / 4096 % 64) :: digit (n / 64 % 64) :: digit (n % 64) ::
      encode rest
  | [a,b] =>
    let n := group a b 0
    [digit (n / 262144),digit (n / 4096 % 64),digit (n / 64 % 64),pad]
  | [a] =>
    let n := group a 0 0
    [digit (n / 262144),digit (n / 4096 % 64),pad,pad]
  | [] => []

def decode : List UInt8 → Option (List UInt8)
  | [] => some []
  | p :: q :: r :: s :: rest => do
    let p ← value p
    let q ← value q
    if s = pad ∧ rest = [] then
      if r = pad then some [UInt8.ofNat (p * 4 + q / 16)]
      else
        let r ← value r
        some [UInt8.ofNat (p * 4 + q / 16),UInt8.ofNat (q % 16 * 16 + r / 4)]
    else
      let r ← value r
      let s ← value s
      let rest ← decode rest
      some (UInt8.ofNat (p * 4 + q / 16) :: UInt8.ofNat (q % 16 * 16 + r / 4) ::
        UInt8.ofNat (r % 4 * 64 + s) :: rest)
  | _ => none

theorem ofNat_eq {n : Nat} {a : UInt8} (h : n = a.toNat) : UInt8.ofNat n = a := by
  rw [h, UInt8.ofNat_toNat]

theorem decode_encode (x : List UInt8) : decode (encode x) = some x := by
  fun_induction encode x with
  | case1 a b c rest n ih =>
    have ha := a.toNat_lt
    have hb := b.toNat_lt
    have hc := c.toNat_lt
    have hn : n = a.toNat * 65536 + b.toNat * 256 + c.toNat := rfl
    have hlast := (digit_ne (Nat.mod_lt n (by decide : 0 < 64))).1
    simp only [decode, value_digit (show n / 262144 < 64 by omega),
      value_digit (Nat.mod_lt _ (by decide : 0 < 64)), hlast, false_and, if_false, ih,
      Option.bind_eq_bind, Option.bind_some]
    rw [ofNat_eq (show _ = a.toNat by omega), ofNat_eq (show _ = b.toNat by omega),
      ofNat_eq (show _ = c.toNat by omega)]
  | case2 a b n =>
    have ha := a.toNat_lt
    have hb := b.toNat_lt
    have hn : n = a.toNat * 65536 + b.toNat * 256 + 0 := rfl
    have hthird := (digit_ne (Nat.mod_lt (n / 64) (by decide : 0 < 64))).1
    simp only [decode, value_digit (show n / 262144 < 64 by omega),
      value_digit (Nat.mod_lt _ (by decide : 0 < 64)), hthird, and_self, if_true, if_false,
      Option.bind_eq_bind, Option.bind_some]
    rw [ofNat_eq (show _ = a.toNat by omega), ofNat_eq (show _ = b.toNat by omega)]
  | case3 a n =>
    have ha := a.toNat_lt
    have hn : n = a.toNat * 65536 + 0 * 256 + 0 := rfl
    simp only [decode, value_digit (show n / 262144 < 64 by omega),
      value_digit (Nat.mod_lt _ (by decide : 0 < 64)), and_self, if_true,
      Option.bind_eq_bind, Option.bind_some]
    rw [ofNat_eq (show _ = a.toNat by omega)]
  | case4 => rfl

theorem decode_length_le (s : List UInt8) :
    ∀ x, decode s = some x → x.length ≤ s.length / 4 * 3 := by
  fun_induction decode s with
  | case1 =>
    rintro x ⟨⟩
    exact Nat.le_refl 0
  | case2 p q r s rest ih =>
    intro x hx
    simp only [Option.bind_eq_bind, Option.bind_eq_some_iff] at hx
    obtain ⟨p',-,q',-,hx⟩ := hx
    split at hx
    · split at hx
      · cases hx
        simp only [List.length_cons, List.length_nil]
        omega
      · obtain ⟨r',-,hx⟩ := Option.bind_eq_some_iff.mp hx
        cases hx
        simp only [List.length_cons, List.length_nil]
        omega
    · simp only [Option.bind_eq_some_iff] at hx
      obtain ⟨r',-,s',-,x',hx',hx⟩ := hx
      cases hx
      have hle := ih x' hx'
      simp only [List.length_cons]
      omega
  | case3 =>
    rintro x ⟨⟩

theorem encode_length (x : List UInt8) : (encode x).length = 4 * ((x.length + 2) / 3) := by
  fun_induction encode x with
  | case1 a b c rest n ih =>
    simp only [List.length_cons, ih]
    omega
  | case2 a b n => simp
  | case3 a n => simp
  | case4 => rfl

theorem encode_append (x y : List UInt8) (h : 3 ∣ x.length) :
    encode (x ++ y) = encode x ++ encode y := by
  fun_induction encode x with
  | case1 a b c rest n ih =>
    have hrest : 3 ∣ rest.length := by
      simp only [List.length_cons] at h
      omega
    simp only [List.cons_append, encode, ih hrest]
    rfl
  | case2 a b n => exact absurd h (by decide : ¬ 3 ∣ 2)
  | case3 a n => exact absurd h (by decide : ¬ 3 ∣ 1)
  | case4 => rfl

theorem newline_not_mem_encode (x : List UInt8) : newline ∉ encode x := by
  have hdigit : ∀ i < 64, newline ≠ digit i := fun i hi => (digit_ne hi).2.symm
  have hpad : newline ≠ pad := by decide
  fun_induction encode x with
  | case1 a b c rest n ih =>
    have ha := a.toNat_lt
    have hb := b.toNat_lt
    have hc := c.toNat_lt
    have hn : n = a.toNat * 65536 + b.toNat * 256 + c.toNat := rfl
    simp [ih, hdigit (n / 262144) (by omega), hdigit _ (Nat.mod_lt _ (by decide : 0 < 64))]
  | case2 a b n =>
    have ha := a.toNat_lt
    have hb := b.toNat_lt
    have hn : n = a.toNat * 65536 + b.toNat * 256 + 0 := rfl
    simp [hpad, hdigit (n / 262144) (by omega), hdigit _ (Nat.mod_lt _ (by decide : 0 < 64))]
  | case3 a n =>
    have ha := a.toNat_lt
    have hn : n = a.toNat * 65536 + 0 * 256 + 0 := rfl
    simp [hpad, hdigit (n / 262144) (by omega), hdigit _ (Nat.mod_lt _ (by decide : 0 < 64))]
  | case4 => simp

def encodeLines (x : List UInt8) : List UInt8 :=
  if x = [] then [] else encode (x.take 48) ++ newline :: encodeLines (x.drop 48)
termination_by x.length
decreasing_by
  have hpos := List.length_pos_iff.mpr ‹_›
  rw [List.length_drop]
  omega

def joined (s : List UInt8) : List UInt8 := s.filter (· ≠ newline)

theorem joined_encode (x : List UInt8) : joined (encode x) = encode x := by
  rw [joined, List.filter_eq_self]
  intro c hc
  simp only [ne_eq, decide_not, Bool.not_eq_true', decide_eq_false_iff_not]
  rintro rfl
  exact newline_not_mem_encode x hc

theorem encodeLines_nil : encodeLines [] = [] := by
  rw [encodeLines]
  rfl

theorem encodeLines_cons {x : List UInt8} (h : x ≠ []) :
    encodeLines x = encode (x.take 48) ++ newline :: encodeLines (x.drop 48) := by
  rw [encodeLines, if_neg h]

theorem encode_take_drop (x : List UInt8) :
    encode (x.take 48) ++ encode (x.drop 48) = encode x := by
  obtain hle | hlt := le_or_gt x.length 48
  · rw [List.take_of_length_le hle, List.drop_eq_nil_of_le hle]
    exact List.append_nil _
  · have hlen : (x.take 48).length = 48 := List.length_take_of_le (Nat.le_of_lt hlt)
    rw [← encode_append _ _ (by rw [hlen]; decide), List.take_append_drop]

theorem joined_encodeLines (x : List UInt8) : joined (encodeLines x) = encode x := by
  fun_induction encodeLines x with
  | case1 => rfl
  | case2 x h ih =>
    have happ : joined (encode (x.take 48) ++ newline :: encodeLines (x.drop 48)) =
        joined (encode (x.take 48)) ++ joined (encodeLines (x.drop 48)) := by
      simp [joined]
    rw [happ, joined_encode, ih, encode_take_drop]

theorem encodeLines_length (x : List UInt8) :
    (encodeLines x).length = 4 * ((x.length + 2) / 3) + (x.length + 47) / 48 := by
  fun_induction encodeLines x with
  | case1 => rfl
  | case2 x h ih =>
    have hpos := List.length_pos_iff.mpr h
    simp only [List.length_append, List.length_cons, encode_length, ih, List.length_take,
      List.length_drop]
    omega

theorem encodeLines_eq_snoc {x : List UInt8} (h : x ≠ []) :
    encodeLines x = (encodeLines x).dropLast ++ [newline] := by
  fun_induction encodeLines x with
  | case1 => exact absurd rfl h
  | case2 x h' ih =>
    by_cases hrest : x.drop 48 = []
    · simp [hrest, encodeLines_nil]
    · have hne : encodeLines (x.drop 48) ≠ [] := by
        rw [encodeLines_cons hrest]
        simp
      rw [List.dropLast_append_of_ne_nil (List.cons_ne_nil _ _), List.dropLast_cons_of_ne_nil hne,
        List.append_assoc, List.cons_append, ← ih hrest]

theorem joined_dropLast {x : List UInt8} (h : x ≠ []) :
    joined (encodeLines x).dropLast = encode x := by
  have hjoined := joined_encodeLines x
  rw [encodeLines_eq_snoc h] at hjoined
  simpa [joined] using hjoined

theorem dropLast_eq_snoc {x : List UInt8} (h : x ≠ []) :
    ∃ init c, (encodeLines x).dropLast = init ++ [c] ∧ c ≠ newline := by
  fun_induction encodeLines x with
  | case1 => exact absurd rfl h
  | case2 x h' ih =>
    by_cases hrest : x.drop 48 = []
    · have hne : encode (x.take 48) ≠ [] := by
        have hlen := encode_length (x.take 48)
        have hpos := List.length_pos_iff.mpr h'
        rw [List.length_take] at hlen
        refine List.ne_nil_of_length_pos ?_
        omega
      refine ⟨(encode (x.take 48)).dropLast,(encode (x.take 48)).getLast hne,?_,
        fun hnew => newline_not_mem_encode (x.take 48) ?_⟩
      · rw [hrest, encodeLines_nil, List.dropLast_concat]
        exact (List.dropLast_append_getLast hne).symm
      · exact hnew ▸ List.getLast_mem hne
    · obtain ⟨init,c,hlast,hc⟩ := ih hrest
      have hne : encodeLines (x.drop 48) ≠ [] := by
        rw [encodeLines_cons hrest]
        simp
      refine ⟨encode (x.take 48) ++ newline :: init,c,?_,hc⟩
      rw [List.dropLast_append_of_ne_nil (List.cons_ne_nil _ _), List.dropLast_cons_of_ne_nil hne,
        hlast]
      simp

end TransmissionPlatform.Base64
