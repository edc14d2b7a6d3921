import TransmissionPlatform.Lib.StepSystem
import Mathlib.Logic.Function.Basic

/-!
`net_tsqueue.hpp`. A push holds `muxQueue` from the insertion to its notification, which it gives
under `muxBlocking`. `wait` tests the queue under the first and goes to sleep under the second
lock, with none of them in between.
-/

set_option autoImplicit false

namespace TransmissionPlatform.Thread
open StepSystem

/-- Where the consumer is in `wait`. -/
inductive Consumer where
  | outside
  | testing
  | locking
  | entering
  | parked
  | woken
  | leaving
  deriving DecidableEq, Repr

namespace Consumer

def between : Consumer → Bool
  | locking | entering => true
  | _ => false

def notified : Consumer → Consumer
  | parked => woken
  | c => c

end Consumer

inductive Producer where
  | outside
  | inserted
  | notifying
  deriving DecidableEq, Repr

def Producer.pending : Producer → Bool
  | outside => false
  | _ => true

inductive Party (n : Nat) where
  | consumer
  | producer (i : Fin n)
  deriving DecidableEq, Repr

structure TSQueue (A : Type) (n : Nat) where
  deqQueue : List A := []
  /-- The producer that has `muxQueue`. The consumer gives it back in the same step. -/
  muxQueue : Option (Fin n) := none
  muxBlocking : Option (Party n) := none
  consumer : Consumer := .outside
  producers : Fin n → Producer := fun _ => .outside

namespace TSQueue
variable {A : Type} {n : Nat}

inductive Event (A : Type) (n : Nat) where
  | pushBack (i : Fin n) (item : A)
  | pushFront (i : Fin n) (item : A)
  | producer (i : Fin n)
  | popFront
  | wait
  | consumer
  | spurious

section Functions
variable (p : TSQueue A n)

def setProducer (i : Fin n) (w : Producer) : TSQueue A n :=
  { p with producers := Function.update p.producers i w }

/-- `push_back` and `push_front` up to the insertion. -/
def insert (i : Fin n) (deqQueue : List A) : Option (TSQueue A n) :=
  if p.muxQueue = none ∧ p.producers i = .outside then
    some { p.setProducer i .inserted with muxQueue := some i, deqQueue := deqQueue }
  else none

/-- A push from one place to the next, behind its insertion. -/
def push (i : Fin n) : Option (TSQueue A n) :=
  match p.producers i with
  | .outside => none
  | .inserted =>
    if p.muxBlocking = none then
      some { p.setProducer i .notifying with muxBlocking := some (.producer i) }
    else none
  | .notifying =>
    some { p.setProducer i .outside with
             consumer := p.consumer.notified, muxBlocking := none, muxQueue := none }

/-- `wait` from one place to the next. -/
def waitStep : Option (TSQueue A n) :=
  match p.consumer with
  | .outside | .parked => none
  | .testing =>
    if p.muxQueue = none then
      some { p with consumer := if p.deqQueue.isEmpty then .locking else .outside }
    else none
  | .locking =>
    if p.muxBlocking = none then
      some { p with consumer := .entering, muxBlocking := some .consumer }
    else none
  | .entering => some { p with consumer := .parked, muxBlocking := none }
  | .woken =>
    if p.muxBlocking = none then
      some { p with consumer := .leaving, muxBlocking := some .consumer }
    else none
  | .leaving => some { p with consumer := .testing, muxBlocking := none }

def step : Event A n → Option (TSQueue A n)
  | .pushBack i item => p.insert i (p.deqQueue ++ [item])
  | .pushFront i item => p.insert i (item :: p.deqQueue)
  | .producer i => p.push i
  | .popFront =>
    if p.consumer = .outside ∧ p.muxQueue = none ∧ p.deqQueue ≠ [] then
      some { p with deqQueue := p.deqQueue.tail }
    else none
  | .wait => if p.consumer = .outside then some { p with consumer := .testing } else none
  | .consumer => p.waitStep
  | .spurious => if p.consumer = .parked then some { p with consumer := .woken } else none

end Functions

inductive Moves (p : TSQueue A n) : Event A n → TSQueue A n → Prop where
  | insert {ev : Event A n} {i : Fin n} {deqQueue : List A} (free : p.muxQueue = none)
      (more : deqQueue ≠ []) :
      Moves p ev { p.setProducer i .inserted with muxQueue := some i, deqQueue := deqQueue }
  | lock {i : Fin n} (inserted : p.producers i = .inserted) (free : p.muxBlocking = none) :
      Moves p (.producer i) { p.setProducer i .notifying with muxBlocking := some (.producer i) }
  | notify {i : Fin n} (notifying : p.producers i = .notifying) :
      Moves p (.producer i)
        { p.setProducer i .outside with
            consumer := p.consumer.notified, muxBlocking := none, muxQueue := none }
  | pop (outside : p.consumer = .outside) (free : p.muxQueue = none) :
      Moves p .popFront { p with deqQueue := p.deqQueue.tail }
  | findEmpty (testing : p.consumer = .testing) (free : p.muxQueue = none)
      (empty : p.deqQueue = []) : Moves p .consumer { p with consumer := .locking }
  | sleep {c : Consumer} {lock : Option (Party n)} (awake : p.consumer.between = true) :
      Moves p .consumer { p with consumer := c, muxBlocking := lock }
  | stay {ev : Event A n} {c : Consumer} {lock : Option (Party n)} (awake : c.between = false)
      (up : c ≠ .parked) : Moves p ev { p with consumer := c, muxBlocking := lock }

theorem moves_step {p q : TSQueue A n} {ev : Event A n} (h : p.step ev = some q) :
    Moves p ev q := by
  cases ev with
  | pushBack i item | pushFront i item =>
    simp only [step, insert] at h
    split at h <;> cases h
    rename_i free
    exact .insert free.1 (by simp)
  | producer i =>
    simp only [step, push] at h
    cases hw : p.producers i with
    | outside =>
      simp only [hw] at h
      cases h
    | inserted =>
      simp only [hw] at h
      split at h <;> cases h
      exact .lock hw ‹_›
    | notifying =>
      simp only [hw] at h
      cases h
      exact .notify hw
  | popFront =>
    simp only [step] at h
    split at h <;> cases h
    rename_i ready
    exact .pop ready.1 ready.2.1
  | wait =>
    simp only [step] at h
    split at h <;> cases h
    exact .stay rfl (by simp)
  | consumer =>
    simp only [step, waitStep] at h
    cases hc : p.consumer with
    | outside | parked =>
      simp only [hc] at h
      cases h
    | testing =>
      simp only [hc] at h
      split at h <;> cases h
      split
      · exact .findEmpty hc ‹_› (List.isEmpty_iff.mp ‹_›)
      · exact .stay rfl (by simp)
    | locking =>
      simp only [hc] at h
      split at h <;> cases h
      exact .sleep (by rw [hc]; rfl)
    | entering =>
      simp only [hc] at h
      cases h
      exact .sleep (by rw [hc]; rfl)
    | woken =>
      simp only [hc] at h
      split at h <;> cases h
      exact .stay rfl (by simp)
    | leaving =>
      simp only [hc] at h
      cases h
      exact .stay rfl (by simp)
  | spurious =>
    simp only [step] at h
    split at h <;> cases h
    exact .stay rfl (by simp)

/-- A producer with its notification before it has `muxQueue`, and its item is still there. -/
structure Inv (p : TSQueue A n) : Prop where
  holder : ∀ i, (p.producers i).pending = true → p.muxQueue = some i
  filled : p.muxQueue ≠ none → p.deqQueue ≠ []

theorem inv_start (items : List A) : Inv ({ deqQueue := items } : TSQueue A n) :=
  ⟨by simp [Producer.pending],by simp⟩

theorem holder_update {producers : Fin n → Producer} {lock lock' : Option (Fin n)} {i : Fin n}
    {w : Producer} (holder : ∀ j, (producers j).pending = true → lock = some j)
    (hw : w.pending = true → lock' = some i) (hothers : ∀ j, j ≠ i → lock = some j → lock' = some j)
    (j : Fin n) (hj : (Function.update producers i w j).pending = true) : lock' = some j := by
  by_cases hji : j = i
  · subst hji
    exact hw (by simpa using hj)
  · rw [Function.update_of_ne hji] at hj
    exact hothers j hji (holder j hj)

theorem inv_moves {p q : TSQueue A n} {ev : Event A n} (m : Moves p ev q) (inv : Inv p) :
    Inv q := by
  cases m with
  | insert free more =>
    refine ⟨holder_update inv.holder (fun _ => rfl) ?_,fun _ => more⟩
    simp [free]
  | @lock i inserted free =>
    have hmine := inv.holder i (by rw [inserted]; rfl)
    exact ⟨holder_update inv.holder (fun _ => hmine) fun _ _ hj => hj,inv.filled⟩
  | @notify i notifying =>
    have hmine := inv.holder i (by rw [notifying]; rfl)
    refine ⟨holder_update inv.holder (fun hw => by cases hw) ?_,fun h => absurd rfl h⟩
    intro j hji hj
    rw [hmine] at hj
    exact absurd (Option.some.inj hj).symm hji
  | pop outside free => exact ⟨inv.holder,fun h => absurd free h⟩
  | findEmpty | sleep | stay => exact ⟨inv.holder,inv.filled⟩

theorem inv_exec {items : List A} {as : List (Event A n)} {p : TSQueue A n}
    (run : exec step { deqQueue := items } as = some p) : Inv p :=
  exec_invariant (fun _ _ _ inv hstep => inv_moves (moves_step hstep) inv) (inv_start items) run

/-- The consumer sleeps, the queue has an item, and nobody has a notification left for it. -/
def Lost (p : TSQueue A n) : Prop :=
  p.deqQueue ≠ [] ∧ p.consumer = .parked ∧ ∀ i, (p.producers i).pending = false

instance [DecidableEq A] (p : TSQueue A n) : Decidable p.Lost := by
  unfold Lost
  infer_instance

/-- A producer that notifies does not find the consumer between its test and its sleep. -/
def Hears (p : TSQueue A n) : Event A n → Prop
  | .producer i => p.producers i = .notifying → p.consumer.between = false
  | _ => True

instance (p : TSQueue A n) : ∀ ev, Decidable (Hears p ev)
  | .producer i =>
    inferInstanceAs (Decidable (p.producers i = .notifying → p.consumer.between = false))
  | .pushBack _ _ | .pushFront _ _ | .popFront | .wait | .consumer | .spurious => isTrue trivial

def Heard (p : TSQueue A n) : Prop :=
  p.deqQueue ≠ [] → p.consumer.between = true ∨ p.consumer = .parked →
    ∃ i, (p.producers i).pending = true

theorem heard_moves {p q : TSQueue A n} {ev : Event A n} (m : Moves p ev q) (hc : Hears p ev)
    (hp : p.Heard) : q.Heard := by
  cases m with
  | @insert _ i deqQueue free more => exact fun _ _ => ⟨i,by simp [setProducer, Producer.pending]⟩
  | @lock i inserted free => exact fun _ _ => ⟨i,by simp [setProducer, Producer.pending]⟩
  | notify notifying =>
    intro hq hdown
    have hawake := hc notifying
    cases hcons : p.consumer <;> simp_all [Consumer.between, Consumer.notified]
  | pop outside free =>
    intro hq hdown
    simp [outside, Consumer.between] at hdown
  | findEmpty testing free empty => exact fun hq => absurd empty hq
  | sleep awake => exact fun hq _ => hp hq (.inl awake)
  | stay awake up =>
    intro hq hdown
    simp [awake, up] at hdown

theorem parks {p : TSQueue A n} (free : p.muxBlocking = none) (asleep : p.consumer.between = true) :
    ∃ k q, exec step p (List.replicate k .consumer) = some q ∧ q.consumer = .parked ∧
      q.deqQueue = p.deqQueue ∧ q.producers = p.producers := by
  cases hcons : p.consumer with
  | locking =>
    exact ⟨2,{ p with consumer := .parked },by simp [List.replicate, step, waitStep, hcons, free],
      rfl,rfl,rfl⟩
  | entering =>
    exact ⟨1,{ p with consumer := .parked },by simp [List.replicate, step, waitStep, hcons, free],
      rfl,rfl,rfl⟩
  | _ => simp [hcons, Consumer.between] at asleep

theorem lost_of_unheard {p : TSQueue A n} (inv : Inv p) {i : Fin n}
    (notifying : p.producers i = .notifying) (asleep : p.consumer.between = true) :
    ∃ k q, exec step p (.producer i :: List.replicate k .consumer) = some q ∧ q.Lost := by
  have hmine := inv.holder i (by rw [notifying]; rfl)
  let t : TSQueue A n := { p.setProducer i .outside with
    consumer := p.consumer.notified, muxBlocking := none, muxQueue := none }
  have notifies : p.step (.producer i) = some t := by simp [step, push, notifying, t]
  have still : t.consumer.between = true := by
    cases hcons : p.consumer <;> simp_all [Consumer.between, Consumer.notified, t]
  obtain ⟨k,q,run,parked,items,producers⟩ := parks (p := t) rfl still
  refine ⟨k,q,by rw [exec_cons, notifies]; exact run,?_,parked,?_⟩
  · rw [items]
    exact inv.filled (by simp [hmine])
  · intro j
    have done := (inv_moves (.notify notifying) inv).holder j
    rw [producers]
    by_contra hpending
    simpa using done (by simpa [t] using hpending)

/-- No wake-up is lost in a run in which every `notify_one` finds the consumer elsewhere than
between its test and its sleep. One that finds it there is lost when the consumer goes on. -/
theorem not_lost {items : List A} {as : List (Event A n)} {p : TSQueue A n}
    (run : exec step { deqQueue := items } as = some p) :
    (Meets step Hears { deqQueue := items } as → ¬p.Lost) ∧
      ∀ i, ¬Hears p (.producer i) → ∃ k q,
        exec step { deqQueue := items } (as ++ .producer i :: List.replicate k .consumer) = some q ∧
          q.Lost := by
  constructor
  · rintro meets ⟨more,parked,silent⟩
    have heard : p.Heard := by
      refine exec_induction (I := fun _ (p : TSQueue A n) => p.Heard) ?_ ?_ meets run
      · intro _ hdown
        simp [Consumer.between] at hdown
      · exact fun _ _ _ _ hp hc hstep => heard_moves (moves_step hstep) hc hp
    obtain ⟨i,pending⟩ := heard more (.inr parked)
    rw [silent i] at pending
    cases pending
  · intro i hnot
    simp only [Hears, Classical.not_imp, Bool.not_eq_false] at hnot
    obtain ⟨k,q,hq,lost⟩ := lost_of_unheard (inv_exec run) hnot.1 hnot.2
    exact ⟨k,q,by rw [exec_append, run]; exact hq,lost⟩

theorem not_lost_two :
    let as : List (Event String 2) :=
      [.wait,.consumer,.consumer,.consumer,.pushBack 0 "a",.producer 0,.producer 0,.consumer,
        .pushFront 1 "b",.consumer,.producer 1]
    ∃ p, exec step { deqQueue := [] } as = some p ∧ ¬p.Lost :=
  exists_exec (by decide) fun _ run => (not_lost run).1 (by decide)

theorem wakeUp_lost :
    ∃ p, exec step ({ deqQueue := [] } : TSQueue String 1)
      [.wait,.consumer,.pushBack 0 "a",.producer 0,.producer 0,.consumer,.consumer] = some p ∧
        p.Lost :=
  ⟨_,rfl,by decide⟩

end TSQueue

end TransmissionPlatform.Thread
