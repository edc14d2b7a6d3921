import TransmissionPlatform.Platform.Agreement

/-!
Where the AES key comes from. `GetAESRandStr` makes an engine from the second of the clock at
each call, and takes a value of `std::rand` for each character; nothing seeds `std::rand`, and
its position is carried from call to call.
-/

set_option autoImplicit false

namespace TransmissionPlatform.Platform
open Net Program

/-- The generators of the C++ library, over engines of type `E`. -/
structure Generators (E : Type) where
  /-- The sequence of `std::rand` in a process that never calls `srand`. -/
  rand : Nat → Nat
  engine : Nat → E
  /-- `unsigned_distribution(random_engine)`: the value, and the engine it leaves. -/
  draw : E → Nat × E

namespace Generators
variable {E : Type} (gen : Generators E)

def drawn : E → Nat → Nat
  | e, 0 => (gen.draw e).1
  | e, i + 1 => drawn (gen.draw e).2 i

/-- What a call in second `now` gets, when `std::rand` was called `rands` times before. -/
def random (now rands : Nat) : Random where
  rand i := gen.rand (rands + i)
  draw := gen.drawn (gen.engine now)

def keyChar (flag value : Nat) : UInt8 :=
  match flag with
  | 0 => UInt8.ofNat (value % 10 + 48)
  | 1 => UInt8.ofNat (value % 26 + 97)
  | 2 => UInt8.ofNat (value % 26 + 65)
  | _ => specialChars.getD (value % specialChars.length) 0

/-- The loop of `GetAESRandStr`, with the calls of `std::rand` it leaves behind. -/
def getAESRandStr : Nat → E → Nat → List UInt8 × Nat
  | 0, _, rands => ([],rands)
  | n + 1, e, rands =>
    let c := keyChar (gen.rand rands % 4) (gen.draw e).1
    let rest := getAESRandStr n (gen.draw e).2 (rands + 1)
    (c :: rest.1,rest.2)

theorem getAESRandStr_map (random : Random) (n : Nat) : Platform.getAESRandStr random n =
    (List.range n).map fun i => keyChar (random.rand i % 4) (random.draw i) := rfl

theorem getAESRandStr_eq (n : Nat) (e : E) (rands : Nat) : gen.getAESRandStr n e rands =
    (Platform.getAESRandStr ⟨fun i => gen.rand (rands + i),gen.drawn e⟩ n,rands + n) := by
  induction n generalizing e rands with
  | zero => rfl
  | succ n ih =>
    have hturns : ∀ i, gen.rand (rands + 1 + i) = gen.rand (rands + (i + 1)) := by
      intro i
      rw [Nat.add_assoc, Nat.add_comm 1 i]
    simp only [getAESRandStr, ih, getAESRandStr_map, List.range_succ_eq_map, List.map_cons,
      List.map_map, hturns, Prod.mk.injEq]
    exact ⟨rfl,by omega⟩

end Generators

structure Process where
  world : World
  rands : Nat := 0
  keys : List (Nat × List UInt8) := []

/-- A request that `SeckeyAgree` is called with in some second, or anything that happens to the
world apart from that. -/
inductive ProcessStep where
  | request (now client : Nat) (msg : Message NetMsgType)
  | elsewhere (world : World)

namespace Server
variable {K : Type} (sv : Server K) {E : Type} (gen : Generators E)

def DrawsKey (msg : Message NetMsgType) (w : World) : Prop :=
  sv.statFails (sv.keyName msg) = false ∧ sv.present (sv.keyName msg) w = false ∧
    sv.checked msg (sv.myRSA (sv.keyName msg) (sv.written msg w)) = .ok true

instance (msg : Message NetMsgType) (w : World) : Decidable (sv.DrawsKey msg w) :=
  inferInstanceAs (Decidable (_ ∧ _ ∧ _))

theorem seckeyAgree_of_not_drawsKey {msg : Message NetMsgType} {w : World}
    (h : ¬ sv.DrawsKey msg w) (random random' : Random) (client : Nat) :
    sv.seckeyAgree random client msg w = sv.seckeyAgree random' client msg w := by
  cases hstat : sv.statFails (sv.keyName msg) with
  | true => rw [sv.seckeyAgree_statFails hstat, sv.seckeyAgree_statFails hstat]
  | false =>
    cases hpresent : sv.present (sv.keyName msg) w with
    | true => rw [sv.seckeyAgree_present hstat hpresent, sv.seckeyAgree_present hstat hpresent]
    | false =>
      cases hchecked : sv.checked msg (sv.myRSA (sv.keyName msg) (sv.written msg w)) with
      | error e =>
        rw [sv.seckeyAgree_thrown hstat hpresent hchecked,
          sv.seckeyAgree_thrown hstat hpresent hchecked]
      | ok good =>
        cases good with
        | false =>
          rw [sv.seckeyAgree_badSign hstat hpresent hchecked,
            sv.seckeyAgree_badSign hstat hpresent hchecked]
        | true => exact absurd ⟨hstat,hpresent,hchecked⟩ h

def processStep (p : Process) : ProcessStep → Process
  | .elsewhere world => { p with world := world }
  | .request now client msg =>
    let world := final (sv.seckeyAgree (gen.random now p.rands) client msg p.world)
    if sv.DrawsKey msg p.world then
      let drawn := gen.getAESRandStr kLen16 (gen.engine now) p.rands
      { world := world, rands := drawn.2, keys := p.keys ++ [(now,drawn.1)] }
    else { p with world := world }

def processRun (w : World) (steps : List ProcessStep) : Process :=
  steps.foldl (sv.processStep gen) { world := w }

def keyAt (now k : Nat) : List UInt8 :=
  (gen.getAESRandStr kLen16 (gen.engine now) (k * kLen16)).1

structure Foreseen (p : Process) : Prop where
  rands : p.rands = p.keys.length * kLen16
  keys : ∀ k now key, p.keys[k]? = some (now,key) → key = keyAt gen now k

variable {sv gen}

theorem keys_of_drawsKey {p : Process} {now client : Nat} {msg : Message NetMsgType}
    (h : sv.DrawsKey msg p.world) : (sv.processStep gen p (.request now client msg)).keys =
      p.keys ++ [(now,(gen.getAESRandStr kLen16 (gen.engine now) p.rands).1)] := by
  simp only [processStep, if_pos h]

theorem foreseen_step {p : Process} (hp : Foreseen gen p) (step : ProcessStep) :
    Foreseen gen (sv.processStep gen p step) := by
  cases step with
  | elsewhere world => exact ⟨hp.rands,hp.keys⟩
  | request now client msg =>
    simp only [processStep]
    split
    · constructor
      · rw [gen.getAESRandStr_eq]
        simp only [List.length_append, List.length_singleton, hp.rands, Nat.succ_mul]
      · intro k now' key hkey
        obtain hlt | rfl | hgt := Nat.lt_trichotomy k p.keys.length
        · rw [List.getElem?_append_left hlt] at hkey
          exact hp.keys k now' key hkey
        · rw [List.getElem?_concat_length] at hkey
          cases hkey
          rw [keyAt, ← hp.rands]
        · rw [List.getElem?_eq_none (by simp; omega)] at hkey
          cases hkey
    · exact ⟨hp.rands,hp.keys⟩

theorem foreseen_run (w : World) (steps : List ProcessStep) :
    Foreseen gen (sv.processRun gen w steps) := by
  have hstart : Foreseen gen { world := w } := by
    refine ⟨rfl,?_⟩
    rintro k now key ⟨⟩
  unfold processRun
  generalize ({ world := w } : Process) = p at hstart
  induction steps generalizing p with
  | nil => exact hstart
  | cons step steps ih => exact ih _ (foreseen_step hstart step)

end Server

/-- There are two runs of a process in which the same call happens in the same second and
returns different keys. -/
def Undetermined (K : Type) {E : Type} (gen : Generators E) (now k : Nat) : Prop :=
  ∃ (sv sv' : Server K) (w w' : World) (steps steps' : List ProcessStep) (key key' : List UInt8),
    (sv.processRun gen w steps).keys[k]? = some (now,key) ∧
    (sv'.processRun gen w' steps').keys[k]? = some (now,key') ∧ key ≠ key'

theorem same_key {K E : Type} {gen : Generators E} {now k : Nat} {sv sv' : Server K}
    {w w' : World} {steps steps' : List ProcessStep} {key key' : List UInt8}
    (h : (sv.processRun gen w steps).keys[k]? = some (now,key))
    (h' : (sv'.processRun gen w' steps').keys[k]? = some (now,key')) : key = key' := by
  have hkey := (Server.foreseen_run w steps).keys k now key h
  have hkey' := (Server.foreseen_run w' steps').keys k now key' h'
  rw [hkey, hkey']

/-- No key of any process is more than its second and its number. -/
theorem not_undetermined (K : Type) {E : Type} (gen : Generators E) (now k : Nat) :
    ¬ Undetermined K gen now k := by
  rintro ⟨sv,sv',w,w',steps,steps',key,key',h,h',hne⟩
  exact hne (same_key h h')

def register (now : Nat) : List ProcessStep :=
  [.elsewhere emptyStore,.request now ownRequest.client ownRequest.msg]

theorem oneKey_drawsKey : oneKey.DrawsKey ownRequest.msg emptyStore := by
  obtain ⟨hstat,habsent,hgood,-⟩ := Server.accepted_iff.mp oneKey_accepts
  exact ⟨hstat,habsent,hgood⟩

theorem keys_register {E : Type} (gen : Generators E) (p : Process) (now : Nat) :
    ∃ key, ((register now).foldl (oneKey.processStep gen) p).keys = p.keys ++ [(now,key)] := by
  refine ⟨(gen.getAESRandStr kLen16 (gen.engine now) p.rands).1,?_⟩
  rw [register, List.foldl_cons, List.foldl_cons, List.foldl_nil]
  exact Server.keys_of_drawsKey (p := { p with world := emptyStore }) oneKey_drawsKey

theorem exists_keyAt {E : Type} (gen : Generators E) (now k : Nat) :
    ∃ steps, (oneKey.processRun gen emptyStore steps).keys[k]? =
      some (now,Server.keyAt gen now k) := by
  have hcalls : ∃ steps, (oneKey.processRun gen emptyStore steps).keys.length = k := by
    induction k with
    | zero => exact ⟨[],rfl⟩
    | succ k ih =>
      obtain ⟨steps,hsteps⟩ := ih
      obtain ⟨key,hkey⟩ := keys_register gen (oneKey.processRun gen emptyStore steps) now
      refine ⟨steps ++ register now,?_⟩
      rw [Server.processRun, List.foldl_append]
      exact (congrArg List.length hkey).trans (by simp [hsteps])
  obtain ⟨steps,hsteps⟩ := hcalls
  obtain ⟨key,hkey⟩ := keys_register gen (oneKey.processRun gen emptyStore steps) now
  have hrun : (oneKey.processRun gen emptyStore (steps ++ register now)).keys[k]? =
      some (now,key) := by
    rw [Server.processRun, List.foldl_append]
    refine (congrArg (·[k]?) hkey).trans ?_
    rw [← hsteps]
    exact List.getElem?_concat_length
  refine ⟨steps ++ register now,?_⟩
  rw [hrun, (Server.foreseen_run _ _).keys k now key hrun]

theorem key_replayed : ¬ ∀ now k : Nat,
    Undetermined (List UInt8) (⟨id,id,fun e => (e,e + 1)⟩ : Generators Nat) now k := by
  intro h
  obtain ⟨sv,sv',w,w',steps,steps',key,key',hrun,hrun',hne⟩ := h 1700000000 0
  exact hne (same_key hrun hrun')

end TransmissionPlatform.Platform
