import TransmissionPlatform.Lib.StepSystem
import Mathlib.Data.List.Perm.Basic
import Mathlib.Logic.Function.Basic

/-!
`ThreadPool.hpp`. A worker tests the queue and goes to sleep under one lock, and `Put` adds a
task and notifies under the same lock. `Stop` writes `running_` and notifies without it.
-/

set_option autoImplicit false

namespace TransmissionPlatform.Thread
open StepSystem

/-- Where a thread is in `ThreadFunc`. -/
inductive Worker (A : Type) where
  | outer
  | locking
  | testing
  | entering
  | parked
  /-- In `wait`, notified or awake by itself, and without the lock yet. -/
  | woken
  /-- Behind the inner loop, with the lock, before the second test of `running_`. -/
  | leaving
  /-- Behind that test, with the lock. -/
  | taking
  | busy (task : A)
  | returned
  deriving DecidableEq, Repr

namespace Worker
variable {A : Type}

def holdsLock : Worker A → Bool
  | testing | entering | leaving | taking => true
  | _ => false

def isParked : Worker A → Bool
  | parked => true
  | _ => false

def waits : Worker A → Bool
  | entering | parked => true
  | _ => false

def notified : Worker A → Worker A
  | parked => woken
  | w => w

end Worker

/-- Where the call of `Stop` is. It joins the threads one after another. -/
inductive StopPoint where
  | notCalled
  | written
  | joining (k : Nat)
  deriving DecidableEq, Repr

def StopPoint.hasNotified : StopPoint → Bool
  | joining _ => true
  | _ => false

structure ThreadPool (A : Type) (n : Nat) where
  threads_ : Fin n → Worker A := fun _ => .outer
  lock_ : Option (Fin n) := none
  tasks_ : List A := []
  running_ : Bool := true
  stop : StopPoint := .notCalled
  taken : List (Fin n × A) := []

namespace ThreadPool
variable {A : Type} {n : Nat}

/-- `wakes` is the thread that `notify_one` finds in `wait`, if there is one. -/
inductive Event (A : Type) (n : Nat) where
  | put (task : A) (wakes : Option (Fin n))
  | worker (i : Fin n)
  | spurious (i : Fin n)
  | stop

section Functions
variable (p : ThreadPool A n)

def setThread (i : Fin n) (w : Worker A) : ThreadPool A n :=
  { p with threads_ := Function.update p.threads_ i w }

/-- `Put`. The lock is held all the time. -/
def put (task : A) (wakes : Option (Fin n)) : Option (ThreadPool A n) :=
  if p.lock_ = none then
    let p := { p with tasks_ := p.tasks_ ++ [task] }
    match wakes with
    | some i => if (p.threads_ i).isParked then some (p.setThread i .woken) else none
    | none => if ∀ i, (p.threads_ i).isParked = false then some p else none
  else none

/-- `ThreadFunc` from one place to the next. `tasks_.back()` is undefined without a task. -/
def threadFunc (i : Fin n) : Option (ThreadPool A n) :=
  match p.threads_ i with
  | .outer => some (p.setThread i (if p.running_ then .locking else .returned))
  | .locking | .woken =>
    if p.lock_ = none then some { p.setThread i .testing with lock_ := some i } else none
  | .testing => some (p.setThread i (if p.tasks_.isEmpty && p.running_ then .entering else .leaving))
  | .entering => some { p.setThread i .parked with lock_ := none }
  | .parked => none
  | .leaving =>
    if p.running_ then some (p.setThread i .taking)
    else some { p.setThread i .returned with lock_ := none }
  | .taking =>
    match p.tasks_.getLast? with
    | none => none
    | some task =>
      some { p.setThread i (.busy task) with
               lock_ := none, tasks_ := p.tasks_.dropLast, taken := p.taken ++ [(i,task)] }
  | .busy _ => some (p.setThread i .outer)
  | .returned => none

def stopStep : Option (ThreadPool A n) :=
  match p.stop with
  | .notCalled => if p.running_ then some { p with running_ := false, stop := .written } else some p
  | .written => some { p with threads_ := fun i => (p.threads_ i).notified, stop := .joining 0 }
  | .joining k =>
    if h : k < n then
      match p.threads_ ⟨k,h⟩ with
      | .returned => some { p with stop := .joining (k + 1) }
      | _ => none
    else none

def step : Event A n → Option (ThreadPool A n)
  | .put task wakes => p.put task wakes
  | .worker i => p.threadFunc i
  | .spurious i => if (p.threads_ i).isParked then some (p.setThread i .woken) else none
  | .stop => p.stopStep

end Functions

def puts (as : List (Event A n)) : List A :=
  as.filterMap fun
    | .put task _ => some task
    | _ => none

inductive Moves (p : ThreadPool A n) : Event A n → ThreadPool A n → Prop where
  | put {task : A} {i : Fin n} (free : p.lock_ = none) (parked : p.threads_ i = .parked) :
      Moves p (.put task (some i))
        ({ p with tasks_ := p.tasks_ ++ [task] }.setThread i .woken)
  | putUnheard {task : A} (free : p.lock_ = none) (awake : ∀ i, (p.threads_ i).isParked = false) :
      Moves p (.put task none) { p with tasks_ := p.tasks_ ++ [task] }
  | enter {i : Fin n} (outer : p.threads_ i = .outer) (running : p.running_ = true) :
      Moves p (.worker i) (p.setThread i .locking)
  | quit {i : Fin n} (outer : p.threads_ i = .outer) (stopped : p.running_ = false) :
      Moves p (.worker i) (p.setThread i .returned)
  | lock {i : Fin n} (waiting : p.threads_ i = .locking ∨ p.threads_ i = .woken)
      (free : p.lock_ = none) :
      Moves p (.worker i) { p.setThread i .testing with lock_ := some i }
  | findEmpty {i : Fin n} (testing : p.threads_ i = .testing) (empty : p.tasks_ = [])
      (running : p.running_ = true) : Moves p (.worker i) (p.setThread i .entering)
  | pass {i : Fin n} (testing : p.threads_ i = .testing)
      (found : p.tasks_ ≠ [] ∨ p.running_ = false) : Moves p (.worker i) (p.setThread i .leaving)
  | park {i : Fin n} (entering : p.threads_ i = .entering) :
      Moves p (.worker i) { p.setThread i .parked with lock_ := none }
  | goOn {i : Fin n} (leaving : p.threads_ i = .leaving) (running : p.running_ = true) :
      Moves p (.worker i) (p.setThread i .taking)
  | take {i : Fin n} {task : A} (taking : p.threads_ i = .taking)
      (last : p.tasks_ = p.tasks_.dropLast ++ [task]) :
      Moves p (.worker i)
        { p.setThread i (.busy task) with
            lock_ := none, tasks_ := p.tasks_.dropLast, taken := p.taken ++ [(i,task)] }
  | giveUp {i : Fin n} (leaving : p.threads_ i = .leaving) (stopped : p.running_ = false) :
      Moves p (.worker i) { p.setThread i .returned with lock_ := none }
  | finish {i : Fin n} {task : A} (busy : p.threads_ i = .busy task) :
      Moves p (.worker i) (p.setThread i .outer)
  | spurious {i : Fin n} (parked : p.threads_ i = .parked) :
      Moves p (.spurious i) (p.setThread i .woken)
  | stopWrite (fresh : p.stop = .notCalled) (running : p.running_ = true) :
      Moves p .stop { p with running_ := false, stop := .written }
  | stopNothing (fresh : p.stop = .notCalled) (stopped : p.running_ = false) : Moves p .stop p
  | stopNotify (written : p.stop = .written) :
      Moves p .stop { p with threads_ := fun i => (p.threads_ i).notified, stop := .joining 0 }
  | stopJoin {i : Fin n} (joining : p.stop = .joining i) (returned : p.threads_ i = .returned) :
      Moves p .stop { p with stop := .joining (i + 1) }

theorem eq_parked {w : Worker A} (h : w.isParked = true) : w = .parked := by
  cases w with
  | parked => rfl
  | _ => cases h

theorem moves_step {p q : ThreadPool A n} {ev : Event A n} (h : p.step ev = some q) :
    Moves p ev q := by
  cases ev with
  | put task wakes =>
    simp only [step, put] at h
    split at h
    · rename_i free
      cases wakes with
      | some i =>
        simp only at h
        split at h <;> cases h
        exact .put free (eq_parked ‹_›)
      | none =>
        simp only at h
        split at h <;> cases h
        exact .putUnheard free ‹_›
    · cases h
  | worker i =>
    simp only [step, threadFunc] at h
    cases hw : p.threads_ i with
    | outer =>
      simp only [hw] at h
      cases hrun : p.running_ with
      | true =>
        simp only [hrun, if_true] at h
        cases h
        exact .enter hw hrun
      | false =>
        simp only [hrun, Bool.false_eq_true, if_false] at h
        cases h
        exact .quit hw hrun
    | locking =>
      simp only [hw] at h
      split at h <;> cases h
      exact .lock (.inl hw) ‹_›
    | testing =>
      simp only [hw] at h
      split at h <;> cases h
      · rename_i hempty
        simp only [Bool.and_eq_true, List.isEmpty_iff] at hempty
        exact .findEmpty hw hempty.1 hempty.2
      · rename_i hfound
        refine .pass hw ?_
        by_cases hempty : p.tasks_ = []
        · simpa [hempty] using hfound
        · exact .inl hempty
    | entering =>
      simp only [hw] at h
      cases h
      exact .park hw
    | parked =>
      simp only [hw] at h
      cases h
    | woken =>
      simp only [hw] at h
      split at h <;> cases h
      exact .lock (.inr hw) ‹_›
    | leaving =>
      simp only [hw] at h
      split at h <;> cases h
      · exact .goOn hw ‹_›
      · exact .giveUp hw (Bool.not_eq_true _ ▸ ‹_›)
    | taking =>
      simp only [hw] at h
      cases hlast : p.tasks_.getLast? with
      | none =>
        rw [hlast] at h
        cases h
      | some task =>
        rw [hlast] at h
        cases h
        exact .take hw (List.dropLast_append_getLast? task hlast).symm
    | busy task =>
      simp only [hw] at h
      cases h
      exact .finish hw
    | returned =>
      simp only [hw] at h
      cases h
  | spurious i =>
    simp only [step] at h
    split at h <;> cases h
    exact .spurious (eq_parked ‹_›)
  | stop =>
    simp only [step, stopStep] at h
    split at h
    · rename_i fresh
      split at h <;> cases h
      · exact .stopWrite fresh ‹_›
      · exact .stopNothing fresh (Bool.not_eq_true _ ▸ ‹_›)
    · cases h
      exact .stopNotify ‹_›
    · rename_i k joining
      split at h
      · rename_i hk
        split at h <;> cases h
        exact .stopJoin (i := ⟨k,hk⟩) joining ‹_›
      · cases h

@[simp] theorem holdsLock_notified (w : Worker A) : w.notified.holdsLock = w.holdsLock := by
  cases w <;> rfl

@[simp] theorem isParked_notified (w : Worker A) : w.notified.isParked = false := by
  cases w <;> rfl

theorem notified_eq {w v : Worker A} (hv : v ≠ .woken) (h : w.notified = v) : w = v := by
  cases w with
  | parked => exact absurd h.symm hv
  | _ => exact h

/-- What a thread knows of the queue and of `running_` from its tests on the way to a place. -/
def Seen (tasks : List A) (running : Bool) : Worker A → Prop
  | .entering => tasks = []
  | .leaving => tasks ≠ [] ∨ running = false
  | .taking => tasks ≠ []
  | .returned => running = false
  | _ => True

theorem Seen.of_free {tasks : List A} {running : Bool} {w : Worker A} (h : Seen tasks running w)
    (hfree : w.holdsLock = false) (tasks' : List A) : Seen tasks' running w := by
  cases w with
  | entering | leaving | taking => cases hfree
  | returned => exact h
  | _ => trivial

theorem Seen.stopped {tasks : List A} {running : Bool} {w : Worker A} (h : Seen tasks running w) :
    Seen tasks false w := by
  cases w with
  | entering | taking => exact h
  | leaving => exact .inr rfl
  | returned => rfl
  | _ => trivial

theorem Seen.notified {tasks : List A} {running : Bool} {w : Worker A} (h : Seen tasks running w) :
    Seen tasks running w.notified := by
  cases w with
  | parked => trivial
  | _ => exact h

/-- Who has the lock is at one of the places behind it, everybody's tests still hold, and while
there is a task somebody is awake. -/
structure Inv (p : ThreadPool A n) : Prop where
  holder : ∀ i, (p.threads_ i).holdsLock = true ↔ p.lock_ = some i
  seen : ∀ i, Seen p.tasks_ p.running_ (p.threads_ i)
  awake : p.tasks_ ≠ [] → ∃ i, (p.threads_ i).isParked = false

section Inv
variable {p q : ThreadPool A n} (inv : Inv p)
include inv

theorem Inv.free {i : Fin n} (h : p.lock_ ≠ some i) : (p.threads_ i).holdsLock = false :=
  Bool.eq_false_iff.mpr fun hheld => h ((inv.holder i).mp hheld)

/-- The rule for a thread that gets to another place, with the lock and the tasks after that. -/
theorem Inv.update {i : Fin n} {w : Worker A} {lock : Option (Fin n)} {tasks : List A}
    {taken : List (Fin n × A)} (hlock : w.holdsLock = true ↔ lock = some i)
    (hothers : ∀ j, j ≠ i → (lock = some j ↔ p.lock_ = some j))
    (hseen : ∀ j, j ≠ i → Seen tasks p.running_ (p.threads_ j)) (hw : Seen tasks p.running_ w)
    (hparked : w = .parked → tasks = []) :
    Inv { p with threads_ := Function.update p.threads_ i w
                 lock_ := lock, tasks_ := tasks, taken := taken } := by
  refine ⟨?_,?_,fun htasks => ⟨i,?_⟩⟩
  · intro j
    by_cases hj : j = i
    · subst hj
      simpa using hlock
    · simpa [Function.update_of_ne hj, hothers j hj] using inv.holder j
  · intro j
    by_cases hj : j = i
    · subst hj
      simpa using hw
    · simpa [Function.update_of_ne hj] using hseen j hj
  · simp only [Function.update_self]
    cases hsleeps : w.isParked with
    | false => rfl
    | true => exact absurd (hparked (eq_parked hsleeps)) htasks

theorem Inv.setThread {i : Fin n} {w : Worker A} (hlock : w.holdsLock = (p.threads_ i).holdsLock)
    (hw : Seen p.tasks_ p.running_ w) (hparked : w ≠ .parked) : Inv (p.setThread i w) :=
  inv.update (hlock ▸ inv.holder i) (fun _ _ => Iff.rfl) (fun j _ => inv.seen j) hw
    fun h => absurd h hparked

theorem Inv.unlock {i : Fin n} {w : Worker A} {tasks : List A} {taken : List (Fin n × A)}
    (hheld : (p.threads_ i).holdsLock = true) (hlock : w.holdsLock = false)
    (hw : Seen tasks p.running_ w) (hparked : w = .parked → tasks = []) :
    Inv { p.setThread i w with lock_ := none, tasks_ := tasks, taken := taken } := by
  have hmine : p.lock_ = some i := (inv.holder i).mp hheld
  have hothers : ∀ j, j ≠ i → p.lock_ ≠ some j := by
    rintro j hj hheld'
    exact hj (Option.some.inj (hheld'.symm.trans hmine))
  exact inv.update (by simp [hlock]) (fun j hj => by simp [hothers j hj])
    (fun j hj => (inv.seen j).of_free (inv.free (hothers j hj)) tasks) hw hparked

theorem inv_moves {ev : Event A n} (hn : 0 < n) (m : Moves p ev q) : Inv q := by
  -- while the lock is free nobody depends on the queue
  have nobody : p.lock_ = none → ∀ j tasks, Seen tasks p.running_ (p.threads_ j) :=
    fun free j => (inv.seen j).of_free (inv.free (by simp [free]))
  cases m with
  | @put task i free parked =>
    exact inv.update (by simp [free, Worker.holdsLock]) (fun _ _ => Iff.rfl)
      (fun j _ => nobody free j _) trivial (by simp)
  | @putUnheard task free awake =>
    exact ⟨inv.holder,fun j => nobody free j _,fun _ => ⟨⟨0,hn⟩,awake _⟩⟩
  | enter outer running => exact inv.setThread (by rw [outer]; rfl) trivial (by simp)
  | quit outer stopped => exact inv.setThread (by rw [outer]; rfl) stopped (by simp)
  | @lock i waiting free =>
    refine inv.update (by simp [Worker.holdsLock]) ?_ (fun j _ => inv.seen j) trivial (by simp)
    intro j hj
    simp [free, Ne.symm hj]
  | findEmpty testing empty running =>
    exact inv.setThread (by rw [testing]; rfl) empty (by simp)
  | pass testing found => exact inv.setThread (by rw [testing]; rfl) found (by simp)
  | @park i entering =>
    have hempty := inv.seen i
    rw [entering] at hempty
    exact inv.unlock (by rw [entering]; rfl) rfl trivial fun _ => hempty
  | @goOn i leaving running =>
    have hfound := inv.seen i
    rw [leaving] at hfound
    exact inv.setThread (by rw [leaving]; rfl) (hfound.resolve_right (by simp [running])) (by simp)
  | take taking last => exact inv.unlock (by rw [taking]; rfl) rfl trivial (by simp)
  | giveUp leaving stopped => exact inv.unlock (by rw [leaving]; rfl) rfl stopped (by simp)
  | finish busy => exact inv.setThread (by rw [busy]; rfl) trivial (by simp)
  | spurious parked => exact inv.setThread (by rw [parked]; rfl) trivial (by simp)
  | stopWrite fresh running => exact ⟨inv.holder,fun i => (inv.seen i).stopped,inv.awake⟩
  | stopNothing fresh stopped => exact inv
  | stopNotify written =>
    exact ⟨fun i => by simpa using inv.holder i,fun i => (inv.seen i).notified,
      fun _ => ⟨⟨0,hn⟩,isParked_notified _⟩⟩
  | stopJoin joining returned => exact ⟨inv.holder,inv.seen,inv.awake⟩

end Inv

theorem inv_start : Inv ({} : ThreadPool A n) :=
  ⟨by simp [Worker.holdsLock],fun _ => trivial,by simp⟩

theorem inv_exec (hn : 0 < n) {as : List (Event A n)} {p : ThreadPool A n}
    (run : exec step {} as = some p) : Inv p :=
  exec_invariant (fun _ _ _ inv hstep => inv_moves inv hn (moves_step hstep)) inv_start run

@[simp] theorem puts_snoc (as : List (Event A n)) (ev : Event A n) :
    puts (as ++ [ev]) = puts as ++ puts [ev] := by
  simp [puts]

theorem tasks_moves {p q : ThreadPool A n} {ev : Event A n} (m : Moves p ev q) :
    (p.tasks_ ++ p.taken.map Prod.snd ++ puts [ev]).Perm (q.tasks_ ++ q.taken.map Prod.snd) := by
  cases m with
  | put free parked | putUnheard free awake =>
    simp only [puts, setThread, List.filterMap_cons, List.filterMap_nil, List.append_assoc]
    exact List.perm_append_comm.append_left _
  | @take i task taking last =>
    simp only [puts, List.filterMap_cons, List.filterMap_nil, List.append_nil, List.map_append,
      List.map_cons, List.map_nil]
    rw [last, List.dropLast_concat, List.append_assoc]
    exact List.perm_append_comm.append_left _
  | _ => simp [puts, setThread]

theorem tasks_exec {as : List (Event A n)} {p : ThreadPool A n}
    (run : exec step {} as = some p) :
    (puts as).Perm (p.tasks_ ++ p.taken.map Prod.snd) := by
  refine exec_history (I := fun as p => (puts as).Perm (p.tasks_ ++ p.taken.map Prod.snd))
    (List.Perm.refl _) ?_ run
  intro as p ev q ih hstep
  rw [puts_snoc]
  exact (ih.append_right _).trans (tasks_moves (moves_step hstep))

/-- Every task that was put is in the queue or was taken, each as often as it was put; and while
one is in the queue, some thread is awake. -/
theorem keeps_tasks (hn : 0 < n) {as : List (Event A n)} {p : ThreadPool A n}
    (run : exec step {} as = some p) :
    (puts as).Perm (p.tasks_ ++ p.taken.map Prod.snd) ∧
      (p.tasks_ ≠ [] → ∃ i, (p.threads_ i).isParked = false) :=
  ⟨tasks_exec run,(inv_exec hn run).awake⟩

theorem keeps_tasks_three :
    let as : List (Event String 2) :=
      [.worker 0,.worker 0,.worker 0,.worker 0,.put "a" (some 0),.put "b" none,.worker 1,.worker 1,
        .worker 1,.worker 1,.worker 1,.put "c" none]
    ∃ p, exec step {} as = some p ∧
      (puts as).Perm (p.tasks_ ++ p.taken.map Prod.snd) ∧
        (p.tasks_ ≠ [] → ∃ i, (p.threads_ i).isParked = false) :=
  exists_exec (by decide) fun _ run => keeps_tasks (by decide) run

section Enabled
variable {p : ThreadPool A n} (inv : Inv p)
include inv

theorem Inv.holder_enabled {i : Fin n} (hheld : (p.threads_ i).holdsLock = true) :
    ∃ q, p.step (.worker i) = some q := by
  cases hw : p.threads_ i with
  | taking =>
    have htasks := inv.seen i
    rw [hw] at htasks
    have hlast := List.getLast?_eq_some_getLast htasks
    simp [step, threadFunc, hw, hlast]
  | leaving => cases hrun : p.running_ <;> simp [step, threadFunc, hw, hrun]
  | testing | entering => simp [step, threadFunc, hw]
  | _ => simp [hw, Worker.holdsLock] at hheld

theorem Inv.waiting_enabled {i : Fin n} (hw : p.threads_ i = .locking ∨ p.threads_ i = .woken) :
    ∃ i q, p.step (.worker i) = some q := by
  cases hlock : p.lock_ with
  | none => exact ⟨i,by rcases hw with hw | hw <;> simp [step, threadFunc, hw, hlock]⟩
  | some j => exact ⟨j,inv.holder_enabled ((inv.holder j).mpr hlock)⟩

theorem worker_enabled (hrunning : p.running_ = true) (htasks : p.tasks_ ≠ []) :
    ∃ i q, p.step (.worker i) = some q := by
  obtain ⟨i,hawake⟩ := inv.awake htasks
  cases hw : p.threads_ i with
  | outer | busy => exact ⟨i,by simp [step, threadFunc, hw]⟩
  | locking => exact inv.waiting_enabled (.inl hw)
  | woken => exact inv.waiting_enabled (.inr hw)
  | testing | entering | leaving | taking => exact ⟨i,inv.holder_enabled (by rw [hw]; rfl)⟩
  | parked => simp [hw, Worker.isParked] at hawake
  | returned =>
    have hstopped := inv.seen i
    rw [hw, hrunning] at hstopped
    cases hstopped

end Enabled

/-- `Stop` has written `running_` and notified, and a worker sleeps all the same. -/
def Stranded (p : ThreadPool A n) : Prop :=
  p.running_ = false ∧ p.stop.hasNotified = true ∧ ∃ i, (p.threads_ i).isParked = true

instance (p : ThreadPool A n) : Decidable p.Stranded := by
  unfold Stranded
  infer_instance

/-- When `Stop` notifies, no worker is between its test and its `wait`. -/
def NotifiesAll (p : ThreadPool A n) : Event A n → Prop
  | .stop => p.stop = .written → ∀ i, p.threads_ i ≠ .entering
  | _ => True

instance [DecidableEq A] (p : ThreadPool A n) : ∀ ev, Decidable (NotifiesAll p ev)
  | .stop => inferInstanceAs (Decidable (p.stop = .written → ∀ i, p.threads_ i ≠ .entering))
  | .put _ _ | .worker _ | .spurious _ => isTrue trivial

theorem stopped_moves {p q : ThreadPool A n} {ev : Event A n} (m : Moves p ev q)
    (hp : p.stop ≠ .notCalled → p.running_ = false) :
    q.stop ≠ .notCalled → q.running_ = false := by
  cases m with
  | stopWrite fresh running => exact fun _ => rfl
  | stopNotify written => exact fun _ => hp (by simp [written])
  | stopJoin joining returned => exact fun _ => hp (by simp [joining])
  | _ => exact hp

theorem stopped_exec {tasks : List A} {as : List (Event A n)} {p : ThreadPool A n}
    (run : exec step { tasks_ := tasks } as = some p) :
    p.stop ≠ .notCalled → p.running_ = false :=
  exec_invariant (I := fun p : ThreadPool A n => p.stop ≠ .notCalled → p.running_ = false)
    (fun _ _ _ hp hstep => stopped_moves (moves_step hstep) hp) (fun h => absurd rfl h) run

def Settled (p : ThreadPool A n) : Prop :=
  p.stop.hasNotified = true → ∀ i, (p.threads_ i).waits = false

theorem Settled.update {p : ThreadPool A n} (hp : p.Settled) {i : Fin n} {w : Worker A}
    (hw : w.waits = false) {lock : Option (Fin n)} {tasks : List A} {taken : List (Fin n × A)} :
    Settled { p with threads_ := Function.update p.threads_ i w
                     lock_ := lock, tasks_ := tasks, taken := taken } := by
  intro hnotified j
  by_cases hj : j = i
  · subst hj
    simpa using hw
  · simpa [Function.update_of_ne hj] using hp hnotified j

theorem waits_notified {w : Worker A} (hw : w ≠ .entering) : w.notified.waits = false := by
  cases w with
  | entering => exact absurd rfl hw
  | _ => rfl

theorem settled_moves {p q : ThreadPool A n} {ev : Event A n} (m : Moves p ev q)
    (hstopped : p.stop ≠ .notCalled → p.running_ = false) (hc : NotifiesAll p ev)
    (hp : p.Settled) : q.Settled := by
  cases m with
  | findEmpty testing empty running =>
    intro hnotified
    have stopped := hstopped fun h => by simp [setThread, h, StopPoint.hasNotified] at hnotified
    rw [running] at stopped
    cases stopped
  | @park i entering =>
    intro hnotified
    have hi := hp hnotified i
    rw [entering] at hi
    cases hi
  | putUnheard free awake => exact hp
  | stopWrite fresh running => exact fun hnotified => by cases hnotified
  | stopNothing fresh stopped => exact hp
  | stopNotify written => exact fun _ i => waits_notified (hc written i)
  | stopJoin joining returned => exact fun _ => hp (by rw [joining]; rfl)
  | quit | enter | lock | pass | goOn | take | giveUp | finish | spurious | put =>
    exact hp.update rfl

theorem strands {p : ThreadPool A n} {i : Fin n} (written : p.stop = .written)
    (entering : p.threads_ i = .entering) (stopped : p.running_ = false) :
    ∃ q, exec step p [.stop,.worker i] = some q ∧ q.Stranded := by
  let q : ThreadPool A n := { p with threads_ := fun i => (p.threads_ i).notified
                                     stop := .joining 0 }
  have notifies : p.step .stop = some q := by simp [step, stopStep, written, q]
  have parks : q.step (.worker i) = some { q.setThread i .parked with lock_ := none } := by
    simp [step, threadFunc, q, entering, Worker.notified]
  refine ⟨{ q.setThread i .parked with lock_ := none },?_,stopped,rfl,i,?_⟩
  · rw [exec_cons, notifies, Option.bind_some, exec_cons, parks, Option.bind_some, exec_nil]
  · simp [setThread, Worker.isParked]

/-- `Stop` strands nobody in a run in which its `notify_all` finds no worker between its test and
its `wait`. A worker that it finds there is stranded after its next step. -/
theorem not_stranded {tasks : List A} {as : List (Event A n)} {p : ThreadPool A n}
    (run : exec step { tasks_ := tasks } as = some p) :
    (Meets step NotifiesAll { tasks_ := tasks } as → ¬p.Stranded) ∧
      (¬NotifiesAll p .stop →
        ∃ i q, exec step { tasks_ := tasks } (as ++ [.stop,.worker i]) = some q ∧ q.Stranded) := by
  constructor
  · rintro meets ⟨-,hnotified,i,hparked⟩
    have settled : p.Settled := by
      refine exec_reached (I := fun _ (p : ThreadPool A n) => p.Settled) ?_ ?_ meets run
      · exact fun h => by cases h
      · exact fun _ _ _ _ reached hp hc hstep =>
          settled_moves (moves_step hstep) (stopped_exec reached) hc hp
    have hi := settled hnotified i
    rw [eq_parked hparked] at hi
    cases hi
  · intro hnot
    simp only [NotifiesAll, not_forall, not_not] at hnot
    obtain ⟨written,i,entering⟩ := hnot
    obtain ⟨q,hq,stranded⟩ := strands written entering (stopped_exec run (by simp [written]))
    exact ⟨i,q,by rw [exec_append, run]; exact hq,stranded⟩

theorem not_stranded_sleeping :
    let as : List (Event String 2) :=
      [.worker 0,.worker 0,.worker 0,.worker 0,.stop,.worker 1,.stop,.worker 0,.worker 0,.worker 0]
    ∃ p, exec step { tasks_ := [] } as = some p ∧ ¬p.Stranded :=
  exists_exec (by decide) fun _ run => (not_stranded run).1 (by decide)

theorem stop_strands :
    ∃ p, exec step ({ tasks_ := [] } : ThreadPool String 1)
      [.worker 0,.worker 0,.worker 0,.stop,.stop,.worker 0] = some p ∧ p.Stranded :=
  ⟨_,rfl,by decide⟩

end ThreadPool

end TransmissionPlatform.Thread
