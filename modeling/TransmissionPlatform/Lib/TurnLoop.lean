import Mathlib.Order.Basic

/-!
A parser that works through a text in turns. A turn reads from the front of what is left and
changes a state; the loop ends with the text, or where a turn ends it.
-/

set_option autoImplicit false

namespace TransmissionPlatform.TurnLoop

inductive Turn (α σ : Type) where
  | next (s : σ) (rest : List α)
  | stop (s : σ)
  | fail

inductive Ending (σ : Type) where
  | done (s : σ)
  | stopped (s : σ)
  | failed
  deriving DecidableEq

structure Parser (α σ : Type) where
  turn : σ → List α → Turn α σ
  progress : ∀ {s s' : σ} {text rest : List α}, turn s text = .next s' rest →
    rest.length < text.length

namespace Parser
variable {α σ : Type} (p : Parser α σ)

def loop : Nat → σ → List α → Ending σ
  | _, s, [] => .done s
  | 0, _, _ :: _ => .failed
  | fuel + 1, s, a :: text =>
    match p.turn s (a :: text) with
    | .next s' rest => loop fuel s' rest
    | .stop s' => .stopped s'
    | .fail => .failed

/-- Each turn takes something off, so the length of the text is fuel enough. -/
def run (s : σ) (text : List α) : Ending σ := p.loop text.length s text

variable {p} {s s' s'' : σ} {text rest : List α}

theorem loop_fuel {fuel : Nat} (h : text.length ≤ fuel) : p.loop fuel s text = p.run s text := by
  induction fuel using Nat.strongRecOn generalizing s text with
  | ind fuel ih =>
    cases text with
    | nil => cases fuel <;> rfl
    | cons a text =>
      cases fuel with
      | zero => simp at h
      | succ fuel =>
        simp only [run, List.length_cons, loop]
        cases hturn : p.turn s (a :: text) with
        | stop s' => rfl
        | fail => rfl
        | next s' rest =>
          have hlt := p.progress hturn
          simp only [List.length_cons] at h hlt
          have hleft : p.loop fuel s' rest = p.run s' rest := ih fuel (by omega) (by omega)
          have hright : p.loop text.length s' rest = p.run s' rest := ih _ (by omega) (by omega)
          exact hleft.trans hright.symm

@[simp] theorem run_nil (s : σ) : p.run s [] = .done s := rfl

theorem run_next (h : p.turn s text = .next s' rest) : p.run s text = p.run s' rest := by
  have hlt := p.progress h
  cases text with
  | nil => simp at hlt
  | cons a text =>
    simp only [List.length_cons] at hlt
    simp only [run, List.length_cons, loop, h]
    exact loop_fuel (by omega)

theorem run_stop (hne : text ≠ []) (h : p.turn s text = .stop s') : p.run s text = .stopped s' := by
  cases text with
  | nil => exact absurd rfl hne
  | cons a text => simp only [run, List.length_cons, loop, h]

theorem run_fail (hne : text ≠ []) (h : p.turn s text = .fail) : p.run s text = .failed := by
  cases text with
  | nil => exact absurd rfl hne
  | cons a text => simp only [run, List.length_cons, loop, h]

/-- The induction over the turns of a loop that uses up its text. -/
theorem run_induction {I : σ → List α → Prop} (nil : I s' [])
    (next : ∀ s text t rest, p.turn s text = .next t rest → p.run t rest = .done s' → I t rest →
      I s text)
    (h : p.run s text = .done s') : I s text := by
  induction hn : text.length using Nat.strongRecOn generalizing s text with
  | ind n ih =>
    cases text with
    | nil =>
      cases h
      exact nil
    | cons a text =>
      cases hturn : p.turn s (a :: text) with
      | stop t =>
        rw [run_stop (List.cons_ne_nil _ _) hturn] at h
        cases h
      | fail =>
        rw [run_fail (List.cons_ne_nil _ _) hturn] at h
        cases h
      | next t rest =>
        rw [run_next hturn] at h
        exact next s _ t rest hturn h (ih _ (hn ▸ p.progress hturn) h rfl)

/-- The parser gets over this text, whatever follows it. -/
def Passes (p : Parser α σ) (s : σ) (text : List α) (s' : σ) : Prop :=
  ∀ rest, p.run s (text ++ rest) = p.run s' rest

theorem passes_nil (s : σ) : p.Passes s [] s := fun _ => rfl

theorem passes_turn (h : ∀ rest, p.turn s (text ++ rest) = .next s' rest) :
    p.Passes s text s' := fun rest => run_next (h rest)

theorem Passes.append {text' : List α} (h : p.Passes s text s') (h' : p.Passes s' text' s'') :
    p.Passes s (text ++ text') s'' := by
  intro rest
  rw [List.append_assoc, h, h']

theorem passes_flatMap {ι : Type} (write : ι → List α) (read : σ → ι → σ) (is : List ι)
    (h : ∀ s, ∀ i ∈ is, p.Passes s (write i) (read s i)) (s : σ) :
    p.Passes s (is.flatMap write) (is.foldl read s) := by
  induction is generalizing s with
  | nil => exact passes_nil s
  | cons i is ih =>
    have hrest := ih (fun s j hj => h s j (List.mem_cons_of_mem i hj)) (read s i)
    exact (h s i List.mem_cons_self).append hrest

def Local (p : Parser α σ) : Prop :=
  ∀ s text t rest more, p.turn s text = .next t rest → p.turn s (text ++ more) = .next t (rest ++ more)

theorem passes_of_done (hlocal : p.Local) (h : p.run s text = .done s') : p.Passes s text s' := by
  intro more
  refine run_induction (I := fun s text => p.run s (text ++ more) = p.run s' more) rfl ?_ h
  intro s text t rest hturn _ ih
  rw [run_next (hlocal s text t rest more hturn), ih]

end Parser

end TransmissionPlatform.TurnLoop
