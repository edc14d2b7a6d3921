import Mathlib.Data.List.Induction

/-!
Runs of a system given by a partial step function. An action that is not enabled
has no successor; a run is the list of the actions taken. The rules below say once
how a fact about one step becomes a fact about every run.
-/

set_option autoImplicit false

namespace TransmissionPlatform.StepSystem

variable {σ α τ β : Type*} {step : σ → α → Option σ}

/-- Take the actions one after another; `none` as soon as one of them is not enabled. -/
def exec (step : σ → α → Option σ) : σ → List α → Option σ
  | s, [] => some s
  | s, a :: as => (step s a).bind fun t => exec step t as

@[simp] theorem exec_nil (s : σ) : exec step s [] = some s := rfl

@[simp] theorem exec_cons (s : σ) (a : α) (as : List α) :
    exec step s (a :: as) = (step s a).bind fun t => exec step t as := rfl

theorem exec_append (s : σ) (as bs : List α) :
    exec step s (as ++ bs) = (exec step s as).bind fun t => exec step t bs := by
  induction as generalizing s with
  | nil => rfl
  | cons a as ih => simp [ih, Option.bind_assoc]

theorem exec_snoc {s u : σ} {as : List α} {a : α} :
    exec step s (as ++ [a]) = some u ↔ ∃ t, exec step s as = some t ∧ step t a = some u := by
  simp [exec_append, Option.bind_eq_some_iff]

theorem exists_exec {P : σ → Prop} {s : σ} {as : List α}
    (enabled : (exec step s as).isSome = true) (all : ∀ t, exec step s as = some t → P t) :
    ∃ t, exec step s as = some t ∧ P t := by
  obtain ⟨t,run⟩ := Option.isSome_iff_exists.mp enabled
  exact ⟨t,run,all t run⟩

/-- Every step of the run meets a condition on the state it is taken in. -/
def Meets (step : σ → α → Option σ) (C : σ → α → Prop) : σ → List α → Prop
  | _, [] => True
  | s, a :: as => C s a ∧ ∀ t, step s a = some t → Meets step C t as

@[simp] theorem meets_nil (C : σ → α → Prop) (s : σ) : Meets step C s [] := trivial

@[simp] theorem meets_cons {C : σ → α → Prop} {s : σ} {a : α} {as : List α} :
    Meets step C s (a :: as) ↔ C s a ∧ ∀ t, step s a = some t → Meets step C t as := Iff.rfl

instance decidableMeets {C : σ → α → Prop} [∀ s a, Decidable (C s a)] :
    ∀ (s : σ) (as : List α), Decidable (Meets step C s as)
  | _, [] => isTrue trivial
  | s, a :: as =>
    have : Decidable (∀ t, step s a = some t → Meets step C t as) :=
      match step s a with
      | none => isTrue (by simp)
      | some t => @decidable_of_iff _ (Meets step C t as) (by simp) (decidableMeets t as)
    inferInstanceAs (Decidable (C s a ∧ ∀ t, step s a = some t → Meets step C t as))

theorem meets_append {C : σ → α → Prop} {s : σ} {as bs : List α} :
    Meets step C s (as ++ bs) ↔
      Meets step C s as ∧ ∀ t, exec step s as = some t → Meets step C t bs := by
  induction as generalizing s with
  | nil => simp
  | cons a as ih =>
    simp only [List.cons_append, meets_cons, ih, exec_cons, and_assoc]
    refine and_congr_right fun _ => ?_
    cases hs : step s a with
    | none => simp
    | some t => simp

theorem meets_snoc {C : σ → α → Prop} {s : σ} {as : List α} {a : α}
    (h : Meets step C s (as ++ [a])) {t : σ} (ht : exec step s as = some t) : C t a :=
  ((meets_append.mp h).2 t ht).1

theorem meets_of_append {C : σ → α → Prop} {s : σ} {as bs : List α}
    (h : Meets step C s (as ++ bs)) : Meets step C s as := (meets_append.mp h).1

theorem meets_iff {C : σ → α → Prop} {s : σ} {as : List α} :
    Meets step C s as ↔ ∀ bs a t, bs ++ [a] <+: as → exec step s bs = some t → C t a := by
  constructor
  · rintro meets bs a t ⟨cs,rfl⟩ run
    exact meets_snoc (meets_of_append meets) run
  · intro h
    induction as generalizing s with
    | nil => trivial
    | cons a as ih =>
      refine ⟨h [] a s (by simp) rfl,fun t hstep => ih fun bs b u hbs run => ?_⟩
      exact h (a :: bs) b u (List.cons_prefix_cons.mpr ⟨rfl,hbs⟩) (by simp [hstep, run])

theorem meets_true (s : σ) (as : List α) : Meets step (fun _ _ => True) s as :=
  meets_iff.mpr fun _ _ _ _ _ => trivial

theorem Meets.append {C : σ → α → Prop} {s t : σ} {as bs : List α} (meets : Meets step C s as)
    (run : exec step s as = some t) (more : Meets step C t bs) : Meets step C s (as ++ bs) := by
  refine meets_append.mpr ⟨meets,fun u hu => ?_⟩
  obtain rfl : t = u := Option.some.inj (run.symm.trans hu)
  exact more

theorem Meets.imp {C D : σ → α → Prop} (himp : ∀ t a, C t a → D t a) {s : σ} {as : List α}
    (meets : Meets step C s as) : Meets step D s as :=
  meets_iff.mpr fun bs a t hbs run => himp t a (meets_iff.mp meets bs a t hbs run)

theorem Meets.all {P : α → Prop} {s t : σ} {as : List α}
    (meets : Meets step (fun _ a => P a) s as) (run : exec step s as = some t) : ∀ a ∈ as, P a := by
  induction as generalizing s with
  | nil => nofun
  | cons a as ih =>
    obtain ⟨u,hu,hrun⟩ := Option.bind_eq_some_iff.mp run
    exact List.forall_mem_cons.mpr ⟨meets.1,ih (meets.2 u hu) hrun⟩

/-- The run rule. An invariant of the state and of the actions so far holds after every
run whose steps meet the condition, if it holds at the start and such a step keeps it. What is
known of every state reached is known of the state before the step. -/
theorem exec_reached {C : σ → α → Prop} {I : List α → σ → Prop} {s : σ}
    (start : I [] s)
    (next : ∀ as t a u, exec step s as = some t → I as t → C t a → step t a = some u →
      I (as ++ [a]) u)
    {as : List α} {t : σ} (meets : Meets step C s as) (run : exec step s as = some t) :
    I as t := by
  induction as using List.reverseRecOn generalizing t with
  | nil =>
    simp only [exec_nil, Option.some.injEq] at run
    exact run ▸ start
  | append_singleton as a ih =>
    obtain ⟨u, hu, hstep⟩ := exec_snoc.mp run
    exact next as u a t hu (ih (meets_of_append meets) hu) (meets_snoc meets hu) hstep

theorem exec_induction {C : σ → α → Prop} {I : List α → σ → Prop} {s : σ}
    (start : I [] s)
    (next : ∀ as t a u, I as t → C t a → step t a = some u → I (as ++ [a]) u)
    {as : List α} {t : σ} (meets : Meets step C s as) (run : exec step s as = some t) :
    I as t :=
  exec_reached start (fun as t a u _ => next as t a u) meets run

theorem exec_history {I : List α → σ → Prop} {s : σ} (start : I [] s)
    (next : ∀ as t a u, I as t → step t a = some u → I (as ++ [a]) u)
    {as : List α} {t : σ} (run : exec step s as = some t) : I as t :=
  exec_induction start (fun as t a u h _ hs => next as t a u h hs) (meets_true s as) run

theorem exec_invariant {I : σ → Prop} (next : ∀ t a u, I t → step t a = some u → I u)
    {s t : σ} {as : List α} (start : I s) (run : exec step s as = some t) : I t :=
  exec_history (I := fun _ u => I u) start (fun _ t a u h hs => next t a u h hs) run

/-- When a step keeps a fact exactly under a condition, the fact holds all along a run exactly when
all steps of the run meet the condition. -/
theorem reached_iff_meets {C : σ → α → Prop} {I : σ → Prop} {s u : σ} {as : List α} (start : I s)
    (next : ∀ t a u, I t → step t a = some u → (I u ↔ C t a)) (run : exec step s as = some u) :
    (∀ bs t, bs <+: as → exec step s bs = some t → I t) ↔ Meets step C s as := by
  constructor
  · intro reached
    rw [meets_iff]
    rintro bs a t ⟨cs,rfl⟩ ht
    rw [exec_append, Option.bind_eq_some_iff] at run
    obtain ⟨v,hv,-⟩ := run
    obtain ⟨t',ht',hstep⟩ := exec_snoc.mp hv
    obtain rfl : t = t' := Option.some.inj (ht.symm.trans ht')
    have before : I t := reached bs t ((List.prefix_append bs [a]).trans (List.prefix_append _ cs)) ht
    exact (next t a v before hstep).mp (reached _ v (List.prefix_append _ cs) hv)
  · rintro meets bs t ⟨cs,rfl⟩ ht
    exact exec_induction (I := fun _ => I) start (fun _ t a u ht hc hstep => (next t a u ht hstep).mpr hc)
      (meets_of_append meets) ht

/-- A part of the system that moves only with its own actions makes, in every run of the
whole, the run of its own actions. -/
theorem exec_project {step' : τ → β → Option τ} (view : σ → τ) (own : α → Option β)
    (moves : ∀ s a t b, own a = some b → step s a = some t →
      step' (view s) b = some (view t))
    (stays : ∀ s a t, own a = none → step s a = some t → view t = view s)
    {s t : σ} {as : List α} (run : exec step s as = some t) :
    exec step' (view s) (as.filterMap own) = some (view t) := by
  refine exec_history (I := fun as t =>
    exec step' (view s) (as.filterMap own) = some (view t)) rfl ?_ run
  intro as t a u ih hstep
  cases ho : own a with
  | none => simpa [ho, stays t a u ho hstep] using ih
  | some b =>
    simp only [List.filterMap_append, List.filterMap_cons, ho, List.filterMap_nil]
    exact exec_snoc.mpr ⟨view t,ih,moves t a u b ho hstep⟩

/-- The simulation rule. If every step of one system is matched by steps of another, so that a
relation between the two is kept, every run of the first is matched by a run of the second. The
relation may speak of the actions taken on both sides. -/
theorem exec_simulate {C : σ → α → Prop} {step' : τ → β → Option τ} {C' : τ → β → Prop}
    {I : List α → List β → σ → τ → Prop} {s : σ} {t : τ} (start : I [] [] s t)
    (next : ∀ as bs u v a u', exec step s as = some u → I as bs u v → C u a → step u a = some u' →
      ∃ more v', Meets step' C' v more ∧ exec step' v more = some v' ∧
        I (as ++ [a]) (bs ++ more) u' v')
    {as : List α} {u : σ} (meets : Meets step C s as) (run : exec step s as = some u) :
    ∃ bs v, Meets step' C' t bs ∧ exec step' t bs = some v ∧ I as bs u v := by
  refine exec_reached (I := fun as u =>
    ∃ bs v, Meets step' C' t bs ∧ exec step' t bs = some v ∧ I as bs u v) ⟨[],t,trivial,rfl,start⟩ ?_
    meets run
  rintro as u a u' hrun ⟨bs,v,hmeets,hexec,hrel⟩ hc hstep
  obtain ⟨more,v',hmeets',hexec',hrel'⟩ := next as bs u v a u' hrun hrel hc hstep
  refine ⟨bs ++ more,v',hmeets.append hexec hmeets',?_,hrel'⟩
  rw [exec_append, hexec]
  exact hexec'

/-- The progress rule. A system whose runs are bounded and that can go on as long as it is not
done has a run in which it gets done. -/
theorem exec_reaches {C : σ → α → Prop} {Done : σ → Prop} {s : σ} (bound : ℕ)
    (progress : ∀ as t, Meets step C s as → exec step s as = some t →
      Done t ∨ ∃ a, C t a ∧ (step t a).isSome = true)
    (bounded : ∀ as t, Meets step C s as → exec step s as = some t → as.length ≤ bound) :
    ∃ as t, Meets step C s as ∧ exec step s as = some t ∧ Done t := by
  -- a run that is done, or one of any length
  have extend : ∀ n, ∃ as t, Meets step C s as ∧ exec step s as = some t ∧
      (Done t ∨ as.length = n) := by
    intro n
    induction n with
    | zero => exact ⟨[],s,trivial,rfl,.inr rfl⟩
    | succ n ih =>
      obtain ⟨as,t,meets,run,hdone | hlen⟩ := ih
      · exact ⟨as,t,meets,run,.inl hdone⟩
      · obtain hdone | ⟨a,ha,henabled⟩ := progress as t meets run
        · exact ⟨as,t,meets,run,.inl hdone⟩
        · obtain ⟨u,hu⟩ := Option.isSome_iff_exists.mp henabled
          exact ⟨as ++ [a],u,meets.append run ⟨ha,fun _ _ => trivial⟩,exec_snoc.mpr ⟨t,run,hu⟩,
            .inr (by simp [hlen])⟩
  obtain ⟨as,t,meets,run,hdone | hlen⟩ := extend (bound + 1)
  · exact ⟨as,t,meets,run,hdone⟩
  · have := bounded as t meets run
    omega

end TransmissionPlatform.StepSystem
