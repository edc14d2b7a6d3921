import Mathlib.Tactic.Common

/-!
Rules for running programs of `EStateM`: a state, and errors that leave the state as it is
when they are thrown. A run is split at the end of its first part. A program can be run over
a record of what it did, beside its state.
-/

set_option autoImplicit false

namespace TransmissionPlatform.Program

variable {ε σ α β : Type} {x : EStateM ε σ α} {f : α → EStateM ε σ β} {s t u : σ}

theorem bind_ok {a : α} (h : x s = .ok a t) : (x >>= f) s = f a t := by
  simp only [bind, EStateM.bind, h]

theorem bind_error {e : ε} (h : x s = .error e t) : (x >>= f) s = .error e t := by
  simp only [bind, EStateM.bind, h]

@[simp] theorem get_run (s : σ) : (get : EStateM ε σ σ) s = .ok s s := rfl

@[simp] theorem modify_run (g : σ → σ) (s : σ) :
    (modify g : EStateM ε σ PUnit) s = .ok ⟨⟩ (g s) := rfl

@[simp] theorem ofExcept_ok_run (a : α) (s : σ) :
    (MonadExcept.ofExcept (.ok a) : EStateM ε σ α) s = .ok a s := rfl

def final : EStateM.Result ε σ α → σ
  | .ok _ t => t
  | .error _ t => t

def returned : EStateM.Result ε σ α → Option α
  | .ok a _ => some a
  | .error _ _ => none

section Records
variable {κ : Type} {l : List κ}

def withRecord (r : EStateM.Result ε σ α) (l : List κ) : EStateM.Result ε (σ × List κ) α :=
  match r with
  | .ok a t => .ok a (t,l)
  | .error e t => .error e (t,l)

def lift (x : EStateM ε σ α) : EStateM ε (σ × List κ) α := fun s => withRecord (x s.1) s.2

def record (entry : κ) : EStateM ε (σ × List κ) Unit := modify fun s => (s.1,s.2 ++ [entry])

@[simp] theorem final_withRecord (r : EStateM.Result ε σ α) :
    final (withRecord r l) = (final r,l) := by cases r <;> rfl

@[simp] theorem returned_withRecord (r : EStateM.Result ε σ α) :
    returned (withRecord r l) = returned r := by cases r <;> rfl

theorem lift_ok {a : α} (h : x s = .ok a t) : lift x (s,l) = .ok a (t,l) := by
  simp only [lift, h, withRecord]

theorem lift_error {e : ε} (h : x s = .error e t) : lift x (s,l) = .error e (t,l) := by
  simp only [lift, h, withRecord]

theorem record_run (entry : κ) (s : σ) :
    (record entry : EStateM ε (σ × List κ) Unit) (s,l) = .ok () (s,l ++ [entry]) := rfl

theorem lift_bind (x : EStateM ε σ α) (f : α → EStateM ε σ β) (s : σ) :
    (lift x >>= fun a => lift (f a)) (s,l) = lift (x >>= f) (s,l) := by
  cases h : x s with
  | ok a t => rw [bind_ok (lift_ok h), lift, lift, bind_ok h]
  | error e t => rw [bind_error (lift_error h), lift_error (bind_error h)]

end Records

section Respects
variable {R : σ → σ → Prop}

inductive Agree (R : σ → σ → Prop) : EStateM.Result ε σ α → EStateM.Result ε σ α → Prop where
  | ok (a : α) {s t : σ} (after : R s t) : Agree R (.ok a s) (.ok a t)
  | error (e : ε) {s t : σ} (after : R s t) : Agree R (.error e s) (.error e t)

/-- From states that agree the program does the same, and they agree again after it. -/
def Respects (R : σ → σ → Prop) (x : EStateM ε σ α) : Prop := ∀ s t, R s t → Agree R (x s) (x t)

theorem respects_pure (a : α) : Respects R (pure a : EStateM ε σ α) := fun _ _ h => .ok a h

theorem respects_ofExcept (r : Except ε α) :
    Respects R (MonadExcept.ofExcept r : EStateM ε σ α) := by
  intro s t h
  cases r with
  | ok a => exact .ok a h
  | error e => exact .error e h

theorem respects_modify {g : σ → σ} (hg : ∀ s t, R s t → R (g s) (g t)) :
    Respects R (modify g : EStateM ε σ PUnit) := by
  intro s t h
  rw [modify_run, modify_run]
  exact .ok _ (hg s t h)

theorem respects_bind (hx : Respects R x) (hf : ∀ a, Respects R (f a)) : Respects R (x >>= f) := by
  intro s t h
  have hrun := hx s t h
  cases hs : x s with
  | ok a s' =>
    rw [hs] at hrun
    cases ht : x t with
    | error e t' => rw [ht] at hrun; cases hrun
    | ok b t' =>
      rw [ht] at hrun
      cases hrun with
      | ok a after =>
        rw [bind_ok hs, bind_ok ht]
        exact hf a s' t' after
  | error e s' =>
    rw [hs] at hrun
    cases ht : x t with
    | ok b t' => rw [ht] at hrun; cases hrun
    | error e' t' =>
      rw [ht] at hrun
      cases hrun with
      | error e after =>
        rw [bind_error hs, bind_error ht]
        exact .error e after

theorem respects_get {g : σ → α} {f : α → EStateM ε σ β} (hg : ∀ s t, R s t → g s = g t)
    (hf : ∀ a, Respects R (f a)) :
    Respects R (get >>= fun s => f (g s) : EStateM ε σ β) := by
  intro s t h
  rw [bind_ok (get_run s), bind_ok (get_run t), hg s t h]
  exact hf (g t) s t h

end Respects

end TransmissionPlatform.Program
