import TransmissionPlatform.Thread.ThreadPool
import Mathlib.Algebra.Order.BigOperators.Group.Finset
import Mathlib.Data.Fintype.Fin

/-!
The end of a `ThreadPool`. `Stop` writes `running_` without the lock, so a thread behind its test
still takes a task after that, and no other thread does. If the `notify_all` reaches everybody, the
threads return and the joins come to an end.
-/

set_option autoImplicit false

namespace TransmissionPlatform.Thread
open StepSystem

def Worker.left {A : Type} : Worker A → Nat
  | .entering => 5
  | .parked => 4
  | .locking | .woken | .taking => 3
  | .testing | .busy _ => 2
  | .outer | .leaving => 1
  | .returned => 0

def StopPoint.left (n : Nat) : StopPoint → Nat
  | .notCalled => n + 2
  | .written => n + 1
  | .joining k => n - k

namespace ThreadPool
variable {A : Type} {n : Nat}

def left (p : ThreadPool A n) : Nat := ∑ i, (p.threads_ i).left + p.stop.left n

/-- A step of a thread or of `Stop`, whose `notify_all` reaches everybody. -/
def Closing (p : ThreadPool A n) (ev : Event A n) : Prop :=
  (match ev with
    | .worker _ | .stop => True
    | .put _ _ | .spurious _ => False) ∧ NotifiesAll p ev

def Stopped (p : ThreadPool A n) : Prop :=
  p.stop = .joining n ∧ ∀ i, p.threads_ i = .returned

def Waits (p q : ThreadPool A n) : Prop :=
  q.taken = p.taken ∧ ∀ i, q.threads_ i = .taking ↔ p.threads_ i = .taking

def Takes (p q : ThreadPool A n) : Prop :=
  ∃ i task, p.threads_ i = .taking ∧ q.taken = p.taken ++ [(i,task)] ∧ ∀ j, q.threads_ j ≠ .taking

/-- The tasks that stay are those of `p`, without the last one if a thread is behind its test. -/
def Leaves (p q : ThreadPool A n) : Prop :=
  ((∀ i, p.threads_ i ≠ .taking) ∧ q.taken = p.taken ∧ q.tasks_ = p.tasks_) ∨
    ∃ i task, p.threads_ i = .taking ∧ q.taken = p.taken ++ [(i,task)] ∧
      p.tasks_ = q.tasks_ ++ [task]

section Moves
variable {p q : ThreadPool A n} {ev : Event A n}

theorem stopped_keeps (m : Moves p ev q) (hstopped : p.running_ = false)
    (hcalled : p.stop ≠ .notCalled) : q.running_ = false ∧ q.stop ≠ .notCalled := by
  cases m with
  | stopWrite fresh running => exact absurd fresh hcalled
  | stopNotify written => exact ⟨hstopped,by simp⟩
  | stopJoin joining returned => exact ⟨hstopped,by simp⟩
  | _ => exact ⟨hstopped,hcalled⟩

theorem taking_update {i : Fin n} {w : Worker A} (hi : p.threads_ i ≠ .taking) (hw : w ≠ .taking)
    (j : Fin n) : Function.update p.threads_ i w j = .taking ↔ p.threads_ j = .taking := by
  by_cases hj : j = i
  · subst hj
    simp [hi, hw]
  · rw [Function.update_of_ne hj]

/-- The lock lets one thread be behind the test, so nobody is when it has taken its task. -/
theorem takes_moves (inv : 0 < n → Inv p) (m : Moves p ev q) (hstopped : p.running_ = false) :
    Waits p q ∨ Takes p q := by
  cases m with
  | @take i task taking last =>
    have inv : Inv p := inv (Nat.zero_lt_of_lt i.isLt)
    refine .inr ⟨i,task,taking,rfl,fun j => ?_⟩
    by_cases hj : j = i
    · subst hj
      simp [setThread]
    · simp only [setThread, Function.update_of_ne hj]
      intro hj'
      have hlock : p.lock_ = some i := (inv.holder i).mp (by rw [taking]; rfl)
      have hlock' : p.lock_ = some j := (inv.holder j).mp (by rw [hj']; rfl)
      exact hj (Option.some.inj (hlock'.symm.trans hlock))
  | enter outer running | findEmpty testing empty running | goOn leaving running =>
    rw [running] at hstopped
    cases hstopped
  | put free parked | spurious parked =>
    exact .inl ⟨rfl,taking_update (by simp [parked]) (by simp)⟩
  | quit outer stopped => exact .inl ⟨rfl,taking_update (by simp [outer]) (by simp)⟩
  | lock waiting free =>
    exact .inl ⟨rfl,taking_update (by rcases waiting with h | h <;> simp [h]) (by simp)⟩
  | pass testing found => exact .inl ⟨rfl,taking_update (by simp [testing]) (by simp)⟩
  | park entering => exact .inl ⟨rfl,taking_update (by simp [entering]) (by simp)⟩
  | giveUp leaving stopped => exact .inl ⟨rfl,taking_update (by simp [leaving]) (by simp)⟩
  | finish busy => exact .inl ⟨rfl,taking_update (by simp [busy]) (by simp)⟩
  | putUnheard free awake | stopWrite fresh running | stopNothing fresh stopped
  | stopJoin joining returned => exact .inl ⟨rfl,fun _ => Iff.rfl⟩
  | stopNotify written =>
    refine .inl ⟨rfl,fun j => ⟨notified_eq (by simp),fun hj => ?_⟩⟩
    simp [hj, Worker.notified]

theorem takes_step {r : ThreadPool A n} (h : Waits p q ∨ Takes p q) (hnext : Waits q r ∨ Takes q r) :
    Waits p r ∨ Takes p r := by
  obtain ⟨hsame,hplaces⟩ | ⟨i,task,hi,htaken,hnobody⟩ := h
  · obtain ⟨hsame',hplaces'⟩ | ⟨i,task,hi,htaken,hnobody⟩ := hnext
    · exact .inl ⟨hsame'.trans hsame,fun j => (hplaces' j).trans (hplaces j)⟩
    · exact .inr ⟨i,task,(hplaces i).mp hi,hsame ▸ htaken,hnobody⟩
  · obtain ⟨hsame',hplaces'⟩ | ⟨j,-,hj,-⟩ := hnext
    · exact .inr ⟨i,task,hi,hsame'.trans htaken,fun j => (hplaces' j).not.mpr (hnobody j)⟩
    · exact absurd hj (hnobody j)

theorem sum_update_lt {i : Fin n} {w : Worker A} (h : w.left < (p.threads_ i).left) :
    ∑ j, (Function.update p.threads_ i w j).left < ∑ j, (p.threads_ j).left := by
  refine Finset.sum_lt_sum (fun j _ => ?_) ⟨i,Finset.mem_univ i,?_⟩
  · by_cases hj : j = i
    · subst hj
      rw [Function.update_self]
      exact Nat.le_of_lt h
    · rw [Function.update_of_ne hj]
  · rwa [Function.update_self]

theorem left_update {i : Fin n} {w v : Worker A} {lock : Option (Fin n)} {tasks : List A}
    {taken : List (Fin n × A)} (hv : p.threads_ i = v) (h : w.left < v.left) :
    left { p with threads_ := Function.update p.threads_ i w
                  lock_ := lock, tasks_ := tasks, taken := taken } < p.left :=
  Nat.add_lt_add_right (sum_update_lt (hv ▸ h)) _

theorem left_notified (w : Worker A) : w.notified.left ≤ w.left := by
  cases w with
  | parked => exact Nat.le_succ 3
  | _ => exact Nat.le_refl _

theorem left_moves (m : Moves p ev q) (hstopped : p.running_ = false)
    (hcalled : p.stop ≠ .notCalled) (hc : Closing p ev) : q.left < p.left := by
  cases m with
  | put free parked => exact hc.1.elim
  | putUnheard free awake => exact hc.1.elim
  | spurious parked => exact hc.1.elim
  | enter outer running | findEmpty testing empty running | goOn leaving running =>
    rw [running] at hstopped
    cases hstopped
  | stopWrite fresh running => exact absurd fresh hcalled
  | stopNothing fresh stopped => exact absurd fresh hcalled
  | quit outer stopped => exact left_update outer (Nat.lt_succ_self 0)
  | @lock i waiting free =>
    obtain waiting | waiting := waiting
    · exact left_update waiting (Nat.lt_succ_self 2)
    · exact left_update waiting (Nat.lt_succ_self 2)
  | pass testing found => exact left_update testing (Nat.lt_succ_self 1)
  | park entering => exact left_update entering (Nat.lt_succ_self 4)
  | take taking last => exact left_update taking (Nat.lt_succ_self 2)
  | giveUp leaving stopped => exact left_update leaving (Nat.lt_succ_self 0)
  | finish busy => exact left_update busy (Nat.lt_succ_self 1)
  | stopNotify written =>
    refine Nat.add_lt_add_of_le_of_lt (Finset.sum_le_sum fun i _ => left_notified _) ?_
    rw [written]
    exact Nat.lt_succ_self n
  | @stopJoin i joining returned =>
    refine Nat.add_lt_add_left ?_ _
    have hi := i.isLt
    simp only [joining, StopPoint.left]
    omega

theorem backs_moves (m : Moves p ev q) (hc : Closing p ev) :
    q.taken.map Prod.snd ++ q.tasks_.reverse = p.taken.map Prod.snd ++ p.tasks_.reverse := by
  cases m with
  | put free parked => exact hc.1.elim
  | putUnheard free awake => exact hc.1.elim
  | @take i task taking last =>
    conv_rhs => rw [last]
    simp
  | _ => rfl

theorem joins_moves (m : Moves p ev q) (hp : ∀ k, p.stop = .joining k → k ≤ n) :
    ∀ k, q.stop = .joining k → k ≤ n := by
  intro k hk
  cases m with
  | stopWrite fresh running => cases hk
  | stopNotify written =>
    cases hk
    exact Nat.zero_le n
  | @stopJoin i joining returned =>
    cases hk
    exact i.isLt
  | _ => exact hp k hk

end Moves

section Runs
variable {as : List (Event A n)} {p : ThreadPool A n}

theorem settled_exec (meets : Meets step NotifiesAll {} as)
    (run : exec step {} as = some p) : p.Settled := by
  refine exec_reached (I := fun _ (p : ThreadPool A n) => p.Settled) ?_ ?_ meets run
  · exact fun h => by cases h
  · exact fun _ _ _ _ reached hp hc hstep =>
      settled_moves (moves_step hstep) (stopped_exec reached) hc hp

theorem joins_exec (run : exec step {} as = some p) : ∀ k, p.stop = .joining k → k ≤ n :=
  exec_invariant (I := fun p : ThreadPool A n => ∀ k, p.stop = .joining k → k ≤ n)
    (fun _ _ _ hp hstep => joins_moves (moves_step hstep) hp) (fun _ h => by cases h) run

/-- Until all is done a thread or `Stop` can go on. -/
theorem closing_enabled (meets : Meets step NotifiesAll {} as) (run : exec step {} as = some p)
    (hcalled : p.stop ≠ .notCalled) :
    p.Stopped ∨ ∃ ev, Closing p ev ∧ (p.step ev).isSome = true := by
  have hstopped : p.running_ = false := stopped_exec run hcalled
  have worker : ∀ i, (p.step (.worker i)).isSome = true →
      p.Stopped ∨ ∃ ev, Closing p ev ∧ (p.step ev).isSome = true :=
    fun i h => .inr ⟨.worker i,⟨trivial,trivial⟩,h⟩
  cases hstop : p.stop with
  | notCalled => exact absurd hstop hcalled
  | written =>
    by_cases hentering : ∃ i, p.threads_ i = .entering
    · obtain ⟨i,hi⟩ := hentering
      exact worker i (by simp [step, threadFunc, hi])
    · rw [not_exists] at hentering
      exact .inr ⟨.stop,⟨trivial,fun _ => hentering⟩,by simp [step, stopStep, hstop]⟩
  | joining k =>
    by_cases hall : ∀ i, p.threads_ i = .returned
    · obtain hlt | heq := Nat.lt_or_eq_of_le (joins_exec run k hstop)
      · refine .inr ⟨.stop,⟨trivial,fun hwritten => ?_⟩,?_⟩
        · rw [hstop] at hwritten
          cases hwritten
        · simp [step, stopStep, hstop, hlt, hall]
      · exact .inl ⟨by rw [hstop, heq],hall⟩
    · rw [not_forall] at hall
      obtain ⟨i,hi⟩ := hall
      have inv : Inv p := inv_exec (Nat.zero_lt_of_lt i.isLt) run
      have waiting : p.threads_ i = .locking ∨ p.threads_ i = .woken →
          p.Stopped ∨ ∃ ev, Closing p ev ∧ (p.step ev).isSome = true := by
        intro hw
        obtain ⟨j,q,hq⟩ := inv.waiting_enabled hw
        exact worker j (by simp [hq])
      cases hw : p.threads_ i with
      | returned => exact absurd hw hi
      | locking => exact waiting (.inl hw)
      | woken => exact waiting (.inr hw)
      | parked =>
        have hawake := settled_exec meets run (by rw [hstop]; rfl) i
        rw [hw] at hawake
        cases hawake
      | testing | entering | leaving | taking =>
        obtain ⟨q,hq⟩ := inv.holder_enabled (i := i) (by rw [hw]; rfl)
        exact worker i (by simp [hq])
      | outer | busy => exact worker i (by simp [step, threadFunc, hw])

theorem takes_exec (run : exec step {} as = some p) (hcalled : p.stop ≠ .notCalled)
    {more : List (Event A n)} {q : ThreadPool A n} (hmore : exec step p more = some q) :
    q.running_ = false ∧ q.stop ≠ .notCalled ∧ (Waits p q ∨ Takes p q) := by
  refine exec_reached (I := fun _ q => q.running_ = false ∧ q.stop ≠ .notCalled ∧
    (Waits p q ∨ Takes p q)) ?_ ?_ (meets_true p more) hmore
  · exact ⟨stopped_exec run hcalled,hcalled,.inl ⟨rfl,fun _ => Iff.rfl⟩⟩
  · rintro more q ev r reached ⟨hstopped,hq,htakes⟩ - hstep
    have m := moves_step hstep
    have inv : 0 < n → Inv q := fun hn => inv_exec hn (by rw [exec_append, run]; exact reached)
    obtain ⟨hstopped',hr⟩ := stopped_keeps m hstopped hq
    exact ⟨hstopped',hr,takes_step htakes (takes_moves inv m hstopped)⟩

theorem closing_exec (meets : Meets step NotifiesAll {} as) (run : exec step {} as = some p)
    (hcalled : p.stop ≠ .notCalled) {more : List (Event A n)} {q : ThreadPool A n}
    (closing : Meets step Closing p more) (hmore : exec step p more = some q) :
    Meets step NotifiesAll {} (as ++ more) ∧ exec step {} (as ++ more) = some q ∧
      q.stop ≠ .notCalled ∧ more.length + q.left ≤ p.left ∧
        q.taken.map Prod.snd ++ q.tasks_.reverse = p.taken.map Prod.snd ++ p.tasks_.reverse := by
  refine exec_induction (I := fun more q => Meets step NotifiesAll {} (as ++ more) ∧
    exec step {} (as ++ more) = some q ∧ q.stop ≠ .notCalled ∧ more.length + q.left ≤ p.left ∧
      q.taken.map Prod.snd ++ q.tasks_.reverse = p.taken.map Prod.snd ++ p.tasks_.reverse)
    ?_ ?_ closing hmore
  · exact ⟨by rwa [List.append_nil],by rwa [List.append_nil],hcalled,by simp,rfl⟩
  · rintro more q ev r ⟨hmeets,hrun,hq,hleft,htasks⟩ hev hstep
    have m := moves_step hstep
    have hstopped : q.running_ = false := stopped_exec hrun hq
    have hlt := left_moves m hstopped hq hev
    rw [← List.append_assoc]
    refine ⟨hmeets.append hrun ⟨hev.2,fun _ _ => trivial⟩,exec_snoc.mpr ⟨q,hrun,hstep⟩,
      (stopped_keeps m hstopped hq).2,?_,(backs_moves m hev).trans htasks⟩
    rw [List.length_append, List.length_singleton]
    omega

theorem leaves_of_stopped {q : ThreadPool A n} (h : Waits p q ∨ Takes p q) (hdone : q.Stopped)
    (hbacks : q.taken.map Prod.snd ++ q.tasks_.reverse = p.taken.map Prod.snd ++ p.tasks_.reverse) :
    Leaves p q := by
  obtain ⟨hsame,hplaces⟩ | ⟨i,task,hi,htaken,-⟩ := h
  · refine .inl ⟨fun i hi => ?_,hsame,?_⟩
    · have hreturned := (hplaces i).mpr hi
      rw [hdone.2 i] at hreturned
      cases hreturned
    · rw [hsame] at hbacks
      exact List.reverse_injective (List.append_cancel_left hbacks)
  · refine .inr ⟨i,task,hi,htaken,?_⟩
    rw [htaken, List.map_append, List.append_assoc] at hbacks
    have hreverse := List.append_cancel_left hbacks
    rw [← List.reverse_reverse p.tasks_, ← hreverse]
    simp

/-- After `Stop` has written `running_` at most one more task is taken, by the thread that is behind
its test of it then, whatever happens. If the `notify_all` reaches everybody, `Stop` comes to an
end: the threads and `Stop` can take a bounded number of steps, and have none left only when all
threads have returned and were joined; the other tasks stay where they are. -/
theorem stop_completes (meets : Meets step NotifiesAll {} as) (run : exec step {} as = some p)
    (hcalled : p.stop ≠ .notCalled) :
    (∀ more q, exec step p more = some q → q.running_ = false ∧
      (q.taken = p.taken ∨
        ∃ i task, p.threads_ i = .taking ∧ q.taken = p.taken ++ [(i,task)])) ∧
    (∀ more q, Meets step Closing p more → exec step p more = some q →
      more.length ≤ p.left ∧
        ((∀ ev, Closing q ev → q.step ev = none) → q.Stopped ∧ Leaves p q)) ∧
    ∃ more q, Meets step Closing p more ∧ exec step p more = some q ∧ q.Stopped ∧ Leaves p q := by
  have progress : ∀ more q, Meets step Closing p more → exec step p more = some q →
      q.Stopped ∨ ∃ ev, Closing q ev ∧ (q.step ev).isSome = true := by
    intro more q closing hmore
    obtain ⟨hmeets,hrun,hq,-,-⟩ := closing_exec meets run hcalled closing hmore
    exact closing_enabled hmeets hrun hq
  have bounded : ∀ more q, Meets step Closing p more → exec step p more = some q →
      more.length ≤ p.left := by
    intro more q closing hmore
    have := (closing_exec meets run hcalled closing hmore).2.2.2.1
    omega
  have leaves : ∀ more q, Meets step Closing p more → exec step p more = some q → q.Stopped →
      Leaves p q := by
    intro more q closing hmore hdone
    exact leaves_of_stopped (takes_exec run hcalled hmore).2.2 hdone
      (closing_exec meets run hcalled closing hmore).2.2.2.2
  refine ⟨?_,?_,?_⟩
  · intro more q hmore
    obtain ⟨hstopped,-,⟨hsame,-⟩ | ⟨i,task,hi,htaken,-⟩⟩ := takes_exec run hcalled hmore
    · exact ⟨hstopped,.inl hsame⟩
    · exact ⟨hstopped,.inr ⟨i,task,hi,htaken⟩⟩
  · refine fun more q closing hmore => ⟨bounded more q closing hmore,fun hstuck => ?_⟩
    obtain hdone | ⟨ev,hev,henabled⟩ := progress more q closing hmore
    · exact ⟨hdone,leaves more q closing hmore hdone⟩
    · rw [hstuck ev hev] at henabled
      cases henabled
  · obtain ⟨more,q,closing,hmore,hdone⟩ := exec_reaches p.left progress bounded
    exact ⟨more,q,closing,hmore,hdone,leaves more q closing hmore hdone⟩

end Runs

/-- `Stop` is called when one thread is behind its test with two tasks in the queue, and the other
one is busy. -/
theorem stop_completes_behind :
    ∃ p : ThreadPool String 2, exec step {} [.put "c" none,.worker 1,.worker 1,.worker 1,.worker 1,
      .worker 1,.worker 0,.worker 0,.worker 0,.worker 0,.put "a" (some 0),.put "b" none,.worker 0,
      .worker 0,.worker 0,.stop] = some p ∧ p.taken = [(1,"c")] ∧ p.tasks_ = ["a","b"] ∧
      ∃ more q, exec step p more = some q ∧ q.Stopped ∧ q.taken = [(1,"c"),(0,"b")] ∧
        q.tasks_ = ["a"] := by
  have hrun : (exec step ({} : ThreadPool String 2) [.put "c" none,.worker 1,.worker 1,.worker 1,
      .worker 1,.worker 1,.worker 0,.worker 0,.worker 0,.worker 0,.put "a" (some 0),.put "b" none,
      .worker 0,.worker 0,.worker 0,.stop]).map
        (fun p => (p.taken,p.tasks_,p.stop,p.threads_ 0,p.threads_ 1)) =
          some ([(1,"c")],["a","b"],.written,.taking,.busy "c") := by decide
  obtain ⟨p,run,hp⟩ := Option.map_eq_some_iff.mp hrun
  simp only [Prod.mk.injEq] at hp
  obtain ⟨htaken,htasks,hstop,hfirst,hsecond⟩ := hp
  obtain ⟨-,-,more,q,-,hmore,hdone,hq⟩ := stop_completes (by decide) run (by rw [hstop]; decide)
  obtain ⟨hnobody,-⟩ | ⟨i,task,hi,htook,hleft⟩ := hq
  · exact absurd hfirst (hnobody 0)
  · obtain rfl : i = 0 := by
      match i with
      | 0 => rfl
      | 1 =>
        rw [hsecond] at hi
        cases hi
    rw [htasks] at hleft
    have hlast : ["a"] = q.tasks_ ∧ ["b"] = [task] := List.append_inj' hleft rfl
    rw [htaken, ← List.singleton_inj.mp hlast.2] at htook
    exact ⟨p,run,htaken,htasks,more,q,hmore,hdone,htook,hlast.1.symm⟩

end ThreadPool

end TransmissionPlatform.Thread
