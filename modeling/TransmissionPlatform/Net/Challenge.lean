import TransmissionPlatform.Net.Validation

/-!
What a response to the handshake tells about the challenge. `Scramble` exchanges the two
halves of each byte under masks; a challenge is determined by its response as far as the masks
reach.
-/

set_option autoImplicit false

namespace TransmissionPlatform.Net
open LittleEndian

def highNibbles : BitVec 64 := 0xF0F0F0F0F0F0F0
def lowNibbles : BitVec 64 := 0x0F0F0F0F0F0F0F

/-- The middle of `Scramble`, between its two xors. -/
def swapNibbles (out : BitVec 64) : BitVec 64 :=
  (out &&& highNibbles) >>> 4 ||| (out &&& lowNibbles) <<< 4

theorem toBitVec_scramble (x : UInt64) : (scramble x).toBitVec =
    swapNibbles (x.toBitVec ^^^ 0xDEADBEEFC0DECAFE) ^^^ 0xC0DEFACE12345678 := rfl

theorem getLsbD_highNibbles (i : Nat) :
    highNibbles.getLsbD i = decide (i < 56 ∧ 4 ≤ i % 8) := by
  by_cases hi : i < 64
  · revert i
    decide
  · rw [BitVec.getLsbD_of_ge _ _ (by omega)]
    simp; omega

theorem getLsbD_lowNibbles (i : Nat) :
    lowNibbles.getLsbD i = decide (i < 56 ∧ i % 8 < 4) := by
  by_cases hi : i < 64
  · revert i
    decide
  · rw [BitVec.getLsbD_of_ge _ _ (by omega)]
    simp; omega

def partner (i : Nat) : Nat := if i % 8 < 4 then i + 4 else i - 4

theorem partner_lt {i : Nat} (hi : i < 56) : partner i < 56 := by
  unfold partner
  split <;> omega

theorem partner_partner (i : Nat) : partner (partner i) = i := by
  unfold partner
  split <;> split <;> omega

theorem getLsbD_swapNibbles (out : BitVec 64) (i : Nat) :
    (swapNibbles out).getLsbD i = (decide (i < 56) && out.getLsbD (partner i)) := by
  unfold swapNibbles
  simp only [BitVec.getLsbD_or, BitVec.getLsbD_ushiftRight, BitVec.getLsbD_shiftLeft,
    BitVec.getLsbD_and, getLsbD_highNibbles, getLsbD_lowNibbles]
  by_cases hlow : i % 8 < 4
  · have hfrom : 4 + i < 56 ∧ 4 ≤ (4 + i) % 8 ↔ i < 56 := by omega
    have hlost : i < 4 ∨ ¬ (i - 4) % 8 < 4 := by omega
    have hpartner : partner i = 4 + i := by rw [partner, if_pos hlow, Nat.add_comm]
    obtain hlt | hlost := hlost
    · simp [hfrom, hpartner, hlt, Bool.and_comm]
    · simp [hfrom, hpartner, hlost, Bool.and_comm]
  · have hlost : ¬ 4 ≤ (4 + i) % 8 := by omega
    have hfrom : i - 4 < 56 ∧ (i - 4) % 8 < 4 ↔ i < 56 + 4 := by omega
    have hle : ¬ i < 4 := by omega
    have hpartner : partner i = i - 4 := by rw [partner, if_neg hlow]
    by_cases hi : i < 56
    · have hlt : i < 64 ∧ i < 56 + 4 := by omega
      simp [hlost, hfrom, hle, hpartner, hi, hlt]
    · have hge : ¬ i < 56 + 4 := by omega
      simp [hlost, hfrom, hle, hi, hge]

/-- The masks are seven bytes wide, so the swap forgets the eighth. -/
theorem swapNibbles_eq_iff (a b : BitVec 64) :
    swapNibbles a = swapNibbles b ↔ ∀ i < 56, a.getLsbD i = b.getLsbD i := by
  constructor
  · intro h i hi
    have hbit := congrArg (fun w => w.getLsbD (partner i)) h
    simpa [getLsbD_swapNibbles, partner_lt hi, partner_partner] using hbit
  · intro h
    refine BitVec.eq_of_getLsbD_eq fun i _ => ?_
    rw [getLsbD_swapNibbles, getLsbD_swapNibbles]
    by_cases hi : i < 56
    · rw [h _ (partner_lt hi)]
    · simp [hi]

theorem scramble_eq_iff (x y : UInt64) :
    scramble x = scramble y ↔ x.toNat % 2 ^ 56 = y.toNat % 2 ^ 56 := by
  rw [← UInt64.toBitVec_inj, toBitVec_scramble, toBitVec_scramble, BitVec.xor_left_inj,
    swapNibbles_eq_iff]
  simp only [BitVec.getLsbD_xor, Bool.xor_left_inj]
  constructor
  · intro h
    refine Nat.eq_of_testBit_eq fun i => ?_
    rw [Nat.testBit_mod_two_pow, Nat.testBit_mod_two_pow]
    by_cases hi : i < 56
    · rw [show x.toNat.testBit i = y.toNat.testBit i from h i hi]
    · simp [hi]
  · intro h i hi
    have hbit := congrArg (Nat.testBit · i) h
    simp only [Nat.testBit_mod_two_pow, hi, decide_true, Bool.true_and] at hbit
    exact hbit

section Responses
variable {T : Type} [EnumId T]

def Validates (s : Io T) (response : List UInt8) : Prop :=
  (s.onRead .validation response).acts = s.acts ++ [.onClientValidated,.asyncRead .header]

def Rejects (s : Io T) (response : List UInt8) : Prop :=
  (s.onRead .validation response).acts = s.acts ++ [.close]

variable {me : Nat} {now : UInt64} {s : Io T} {response : List UInt8}

theorem rejects_of_ne (hside : s.conn.ServerSide me now)
    (hresponse : toUInt64 response ≠ scramble now) : Rejects s response := by
  simp [Rejects, Io.onRead, Io.validationRead, hside.owner, hside.handshakeCheck, hresponse,
    Io.close]

theorem scramble_of_validates (hside : s.conn.ServerSide me now) (h : Validates s response) :
    toUInt64 response = scramble now := by
  by_contra hne
  have heq := h.symm.trans (rejects_of_ne hside hne)
  simp at heq

end Responses

/-- The response to one challenge is not a response to the other, unless they are the same:
for the numbers, and for the handlers of any two server sides. -/
def FitsOne (T : Type) [EnumId T] (x y : UInt64) : Prop :=
  (scramble x = scramble y → x = y) ∧
  (x ≠ y → ∀ (me you : Nat) (s t : Io T), s.conn.ServerSide me x → t.conn.ServerSide you y →
    ∀ response, response.length = 8 → Validates s response → Rejects t response)

theorem fitsOne_iff (T : Type) [EnumId T] (x y : UInt64) :
    FitsOne T x y ↔ x = y ∨ x.toNat % 2 ^ 56 ≠ y.toNat % 2 ^ 56 := by
  constructor
  · rintro ⟨hinj,-⟩
    by_cases hmod : x.toNat % 2 ^ 56 = y.toNat % 2 ^ 56
    · exact .inl (hinj ((scramble_eq_iff x y).mpr hmod))
    · exact .inr hmod
  · intro h
    have hinj : scramble x = scramble y → x = y := by
      intro heq
      exact h.resolve_right fun hne => hne ((scramble_eq_iff x y).mp heq)
    refine ⟨hinj,?_⟩
    intro hne me you s t hs ht response _ hvalid
    have hresponse := scramble_of_validates hs hvalid
    exact rejects_of_ne ht fun heq => hne (hinj (hresponse.symm.trans heq))

theorem fitsOne_not : ¬ ∀ x y : UInt64, FitsOne NetMsgType x y := by
  intro h
  have hinj := (h 1700000000000000000 1772057594037927936).1
  exact absurd (hinj (by decide)) (by decide)

end TransmissionPlatform.Net
