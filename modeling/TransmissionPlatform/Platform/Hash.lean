import TransmissionPlatform.Lib.StepSystem
import TransmissionPlatform.Platform.World

/-!
`mine_hash.hpp`. The object keeps an algorithm by its type; `Final` goes by the length of the
digest from there on, writes the hexadecimal digits into a buffer with room for one NUL, and
starts the context anew.
-/

set_option autoImplicit false

namespace TransmissionPlatform.Platform
open PosixPath StepSystem

inductive HashType where
  | kSHA256Type | kSHA384Type | kSHA512Type
  deriving DecidableEq, Repr

inductive Md where
  | sha256 | sha384 | sha512
  deriving DecidableEq, Repr

def HashType.md : HashType → Md
  | .kSHA256Type => .sha256
  | .kSHA384Type => .sha384
  | .kSHA512Type => .sha512

def kSHA256Len : Nat := 32
def kSHA384Len : Nat := 48
def kSHA512Len : Nat := 64

def Md.digestLength : Md → Nat
  | .sha256 => 32
  | .sha384 => 48
  | .sha512 => 64

/-- The digest functions of OpenSSL over contexts of type `C`. -/
structure Evp (C : Type) where
  ctxNew : C
  digestInit : Md → C → C
  digestUpdate : C → List UInt8 → C
  /-- The context it leaves, and the bytes it writes. -/
  digestFinal : C → C × List UInt8

/-- Updates are streaming, and the digest has its length. -/
structure Evp.Spec {C : Type} (evp : Evp C) (digest : Md → List UInt8 → List UInt8) : Prop where
  final : ∀ (md : Md) (c : C) (chunks : List (List UInt8)),
    (evp.digestFinal (chunks.foldl evp.digestUpdate (evp.digestInit md c))).2 =
      digest md chunks.flatten
  length : ∀ (md : Md) (datas : List UInt8), (digest md datas).length = md.digestLength

structure Hash (C : Type) where
  hash_type_ : HashType
  md_ctx_ : C

/-- `std::sprintf(&result_arr[at], "%02x", b)`: two digits and a NUL. Undefined when they do not
fit. -/
def sprintf02x (result_arr : List UInt8) (at_ : Nat) (b : UInt8) : Option (List UInt8) :=
  if at_ + 3 ≤ result_arr.length then
    some (result_arr.take at_ ++ [hexDigit (b / 16),hexDigit (b % 16),0] ++
      result_arr.drop (at_ + 3))
  else none

/-- The loop of `FinalImpl` from `i` on, over the bytes that are left. -/
def sprintfLoop : List UInt8 → Nat → List UInt8 → Option (List UInt8)
  | [], _, result_arr => some result_arr
  | b :: bs, i, result_arr => do
    let result_arr ← sprintf02x result_arr (i * 2) b
    sprintfLoop bs (i + 1) result_arr

namespace Hash
variable {C : Type} (evp : Evp C)

def init (h : Hash C) : Hash C :=
  match h.hash_type_ with
  | .kSHA256Type => { h with md_ctx_ := evp.digestInit .sha256 h.md_ctx_ }
  | .kSHA384Type => { h with md_ctx_ := evp.digestInit .sha384 h.md_ctx_ }
  | .kSHA512Type => { h with md_ctx_ := evp.digestInit .sha512 h.md_ctx_ }

def new (type : HashType) : Hash C := init evp ⟨type,evp.ctxNew⟩

def update (datas : List UInt8) (h : Hash C) : Hash C :=
  { h with md_ctx_ := evp.digestUpdate h.md_ctx_ datas }

/-- The part of `FinalImpl` after the context was started again. -/
def hexString (len l : Nat) (datas : List UInt8) : Option (List UInt8) := do
  let result_arr ← sprintfLoop (datas.take l) 0 (List.replicate (len * 2 + 1) 0)
  -- the NUL that the last `sprintf` wrote is counted
  some (result_arr.take (l * 2 + 1))

/-- `switch (len)`: which algorithm the context is started with again. -/
def mdOfLength : Nat → Option Md
  | 32 => some .sha256
  | 48 => some .sha384
  | 64 => some .sha512
  | _ => none

/-- `FinalImpl<len>` on an empty string. Undefined when the digest is longer than `len`. -/
def finalImpl (len : Nat) (h : Hash C) : Option (List UInt8 × Hash C) :=
  let written := evp.digestFinal h.md_ctx_
  let l := written.2.length
  if len < l then none
  else
    let datas := written.2 ++ List.replicate (len - l) 0
    match mdOfLength len with
    | none => some ([],{ h with md_ctx_ := written.1 })
    | some md => (hexString len l datas).map fun s =>
      (s,{ h with md_ctx_ := evp.digestInit md written.1 })

def final (h : Hash C) : Option (List UInt8 × Hash C) :=
  match h.hash_type_ with
  | .kSHA256Type => finalImpl evp kSHA256Len h
  | .kSHA384Type => finalImpl evp kSHA384Len h
  | .kSHA512Type => finalImpl evp kSHA512Len h

def hex (datas : List UInt8) : List UInt8 :=
  datas.flatMap fun b => [hexDigit (b / 16),hexDigit (b % 16)]

theorem hex_length (datas : List UInt8) : (hex datas).length = datas.length * 2 := by
  induction datas with
  | nil => rfl
  | cons b bs ih =>
    simp only [hex, List.flatMap_cons, List.length_append, List.length_cons] at ih ⊢
    simp only [ih, List.length_nil]
    omega

theorem sprintf02x_next {done : List UInt8} {i : Nat} (hdone : done.length = i * 2) (n : Nat)
    (b : UInt8) : sprintf02x (done ++ List.replicate (n + 3) 0) (i * 2) b =
      some (done ++ hex [b] ++ List.replicate (n + 1) 0) := by
  have htake : (done ++ List.replicate (n + 3) 0).take (i * 2) = done := List.take_left' hdone
  have hdrop : (done ++ List.replicate (n + 3) (0 : UInt8)).drop (i * 2 + 3) =
      List.replicate n 0 := by
    rw [List.drop_append, hdone, List.drop_eq_nil_of_le (by omega)]
    simp
  have hfits : i * 2 + 3 ≤ (done ++ List.replicate (n + 3) (0 : UInt8)).length := by
    simp [hdone]
  simp only [sprintf02x, hfits, if_true, htake, hdrop]
  simp [hex, List.replicate_succ]

theorem sprintfLoop_eq (bs : List UInt8) {done : List UInt8} {i : Nat}
    (hdone : done.length = i * 2) (n : Nat) :
    sprintfLoop bs i (done ++ List.replicate (bs.length * 2 + n + 1) 0) =
      some (done ++ hex bs ++ List.replicate (n + 1) 0) := by
  induction bs generalizing done i with
  | nil => simp [sprintfLoop, hex]
  | cons b bs ih =>
    have hroom : (b :: bs).length * 2 + n + 1 = (bs.length * 2 + n) + 3 := by
      simp only [List.length_cons]
      omega
    have hnext : (done ++ hex [b]).length = (i + 1) * 2 := by
      rw [List.length_append, hdone, hex_length, List.length_singleton]
      omega
    rw [hroom, sprintfLoop, sprintf02x_next hdone, Option.bind_eq_bind, Option.bind_some,
      ih hnext]
    simp [hex]

theorem hexString_eq (datas : List UInt8) :
    hexString datas.length datas.length datas = some (hex datas ++ [0]) := by
  have hempty : ([] : List UInt8).length = 0 * 2 := rfl
  have hloop := sprintfLoop_eq datas hempty 0
  simp only [List.nil_append, Nat.add_zero] at hloop
  rw [hexString, List.take_length, hloop]
  simp [hex_length]

section Digest
variable {evp} {digest : Md → List UInt8 → List UInt8} (hevp : evp.Spec digest)

theorem init_eq (h : Hash C) : init evp h =
    { h with md_ctx_ := evp.digestInit h.hash_type_.md h.md_ctx_ } := by
  unfold init
  cases htype : h.hash_type_ <;> rfl

def Holds (evp : Evp C) (type : HashType) (chunks : List (List UInt8)) (h : Hash C) : Prop :=
  ∃ c, h = ⟨type,chunks.foldl evp.digestUpdate (evp.digestInit type.md c)⟩

theorem final_finalImpl (h : Hash C) :
    final evp h = finalImpl evp h.hash_type_.md.digestLength h := by
  unfold final
  cases htype : h.hash_type_ <;> rfl

theorem mdOfLength_digestLength (md : Md) : mdOfLength md.digestLength = some md := by
  cases md <;> rfl

include hevp in
theorem final_eq {type : HashType} {chunks : List (List UInt8)} {h : Hash C}
    (hh : Holds evp type chunks h) :
    ∃ t, final evp h = some (hex (digest type.md chunks.flatten) ++ [0],t) ∧
      Holds evp type [] t := by
  obtain ⟨c,rfl⟩ := hh
  have hdigest := hevp.final type.md c chunks
  have hlength := hevp.length type.md chunks.flatten
  refine ⟨⟨type,evp.digestInit type.md (evp.digestFinal
    (chunks.foldl evp.digestUpdate (evp.digestInit type.md c))).1⟩,?_,_,rfl⟩
  have hhex := hexString_eq (digest type.md chunks.flatten)
  rw [hlength] at hhex
  rw [final_finalImpl]
  simp [finalImpl, hdigest, hlength, mdOfLength_digestLength, hhex]

inductive Call where
  | update (datas : List UInt8)
  | final
  deriving DecidableEq, Repr

def step (evp : Evp C) (h : Hash C) : Call → Option (Hash C)
  | .update datas => some (update evp datas h)
  | .final => (final evp h).map Prod.snd

def pending (calls : List Call) : List (List UInt8) :=
  calls.foldl (fun chunks call =>
    match call with
    | .update datas => chunks ++ [datas]
    | .final => []) []

theorem pending_snoc (calls : List Call) (call : Call) :
    pending (calls ++ [call]) =
      match call with
      | .update datas => pending calls ++ [datas]
      | .final => [] := by
  simp only [pending, List.foldl_append, List.foldl_cons, List.foldl_nil]

theorem holds_new (type : HashType) : Holds evp type [] (new evp type) := by
  refine ⟨evp.ctxNew,?_⟩
  rw [new, init_eq]
  rfl

include hevp in
theorem holds_step {type : HashType} {calls : List Call} {h : Hash C}
    (hh : Holds evp type (pending calls) h) (call : Call) :
    ∃ t, step evp h call = some t ∧ Holds evp type (pending (calls ++ [call])) t := by
  rw [pending_snoc]
  cases call with
  | update datas =>
    obtain ⟨c,rfl⟩ := hh
    refine ⟨_,rfl,c,?_⟩
    simp [update]
  | final =>
    obtain ⟨t,ht,hnew⟩ := final_eq hevp hh
    exact ⟨t,by simp [step, ht],hnew⟩

include hevp in
theorem holds_exec (type : HashType) (calls : List Call) :
    ∃ h, exec (step evp) (new evp type) calls = some h ∧ Holds evp type (pending calls) h := by
  induction calls using List.reverseRecOn with
  | nil => exact ⟨_,rfl,holds_new type⟩
  | append_singleton calls call ih =>
    obtain ⟨h,hrun,hh⟩ := ih
    obtain ⟨t,hstep,ht⟩ := holds_step hevp hh call
    exact ⟨t,exec_snoc.mpr ⟨h,hrun,hstep⟩,ht⟩

/-- Each `Final` of the sequence returns what `text` makes of the digest of the chunks since the
one before, and leaves the object as it is after its construction. -/
def Finals (evp : Evp C) (digest : Md → List UInt8 → List UInt8)
    (text : List UInt8 → List UInt8) (type : HashType) (calls : List Call) : Prop :=
  ∀ done rest, calls = done ++ .final :: rest →
    ∃ h t, exec (step evp) (new evp type) done = some h ∧
      final evp h = some (text (digest type.md (pending done).flatten),t) ∧ Holds evp type [] t

include hevp in
theorem finals_nul (type : HashType) (calls : List Call) :
    Finals evp digest (fun datas => hex datas ++ [0]) type calls := by
  intro done rest _
  obtain ⟨h,hrun,hh⟩ := holds_exec hevp type done
  obtain ⟨t,hfinal,ht⟩ := final_eq hevp hh
  exact ⟨h,t,hrun,hfinal,ht⟩

include hevp in
theorem not_mem_of_finals {type : HashType} {calls : List Call}
    (h : Finals evp digest hex type calls) : .final ∉ calls := by
  intro hmem
  obtain ⟨done,rest,rfl⟩ := List.append_of_mem hmem
  obtain ⟨s,t,hs,hfinal,-⟩ := h done rest rfl
  obtain ⟨s',t',hs',hfinal',-⟩ := finals_nul hevp type _ done rest rfl
  cases hs.symm.trans hs'
  have htext := congrArg (fun r => r.map fun p => p.1.length) (hfinal.symm.trans hfinal')
  simp at htext

end Digest

/-- A `Final` returns the digits of the digest and one character more, so none of them returns
the digits. -/
theorem finals_iff {evp : Evp C} {digest : Md → List UInt8 → List UInt8}
    (hevp : evp.Spec digest) (type : HashType) (calls : List Call) :
    Finals evp digest (fun datas => hex datas ++ [0]) type calls ∧
      (Finals evp digest hex type calls ↔ .final ∉ calls) := by
  refine ⟨finals_nul hevp type calls,not_mem_of_finals hevp,?_⟩
  intro h done rest hcalls
  exact absurd (hcalls ▸ List.mem_append_right done List.mem_cons_self) h

theorem final_hashFinal {K : Type} {libs : Libraries K} {evp : Evp C}
    {digest : Md → List UInt8 → List UInt8} (hevp : evp.Spec digest)
    (hlibs : libs.sha384 = digest .sha384) (datas : List UInt8) :
    ∃ t, final evp (update evp datas (new evp .kSHA384Type)) = some (hashFinal libs datas,t) := by
  obtain ⟨h,hrun,hh⟩ := holds_exec hevp .kSHA384Type [.update datas]
  cases hrun
  obtain ⟨t,hfinal,-⟩ := final_eq hevp hh
  refine ⟨t,?_⟩
  rw [hfinal, hashFinal, hlibs]
  simp [pending, hex, HashType.md]

def emptyDigest : List UInt8 :=
  [0xe3,0xb0,0xc4,0x42,0x98,0xfc,0x1c,0x14,0x9a,0xfb,0xf4,0xc8,0x99,0x6f,0xb9,0x24,
   0x27,0xae,0x41,0xe4,0x64,0x9b,0x93,0x4c,0xa4,0x95,0x99,0x1b,0x78,0x52,0xb8,0x55]

def abcDigest : List UInt8 :=
  [0xba,0x78,0x16,0xbf,0x8f,0x01,0xcf,0xea,0x41,0x41,0x40,0xde,0x5d,0xae,0x22,0x23,
   0xb0,0x03,0x61,0xa3,0x96,0x17,0x7a,0x9c,0xb4,0x10,0xff,0x61,0xf2,0x00,0x15,0xad]

/-- The SHA-256 digests of no bytes and of `abc`, and zeros for all else. -/
def sampleDigest (md : Md) (datas : List UInt8) : List UInt8 :=
  if md = .sha256 ∧ datas = [] then emptyDigest
  else if md = .sha256 ∧ datas = ascii "abc" then abcDigest
  else List.replicate md.digestLength 0

def sampleEvp : Evp (Md × List UInt8) where
  ctxNew := (.sha256,[])
  digestInit md _ := (md,[])
  digestUpdate c datas := (c.1,c.2 ++ datas)
  digestFinal c := (c,sampleDigest c.1 c.2)

theorem sampleEvp_foldl (chunks : List (List UInt8)) (c : Md × List UInt8) :
    chunks.foldl sampleEvp.digestUpdate c = (c.1,c.2 ++ chunks.flatten) := by
  induction chunks generalizing c with
  | nil => simp
  | cons datas chunks ih =>
    rw [List.foldl_cons, ih]
    simp [sampleEvp]

theorem sampleEvp_spec : sampleEvp.Spec sampleDigest where
  final md c chunks := by
    rw [sampleEvp_foldl]
    rfl
  length md datas := by
    unfold sampleDigest
    split
    · rename_i h
      rw [h.1]
      rfl
    · split
      · rename_i h
        rw [h.1]
        rfl
      · exact List.length_replicate

theorem finals_iff_abc :
    let calls : List Call := [.update (ascii "ab"),.update (ascii "c"),.final]
    Finals sampleEvp sampleDigest (fun datas => hex datas ++ [0]) .kSHA256Type calls ∧
      ¬ Finals sampleEvp sampleDigest hex .kSHA256Type calls := by
  intro calls
  obtain ⟨hnul,hiff⟩ := finals_iff sampleEvp_spec .kSHA256Type calls
  refine ⟨hnul,fun h => ?_⟩
  exact absurd (hiff.mp h) (by simp [calls])

theorem final_nul : ¬ ∀ (type : HashType) (calls : List Call),
    Finals sampleEvp sampleDigest hex type calls := by
  intro h
  have hno := not_mem_of_finals sampleEvp_spec (h .kSHA256Type [.final])
  exact hno (List.mem_singleton_self _)

end Hash

end TransmissionPlatform.Platform
