import TransmissionPlatform.Platform.Answers

/-!
The loop of `main`, which calls `Update(1)` for ever, beside the workers. Once the network is
quiet the process comes to the end of its work: every message that a connection has pushed is
dispatched, and every request for a key is answered.
-/

set_option autoImplicit false

namespace TransmissionPlatform.Platform
open Net StepSystem

/-- The steps that the thread in `Update` still takes for what it has begun, beside 13 for each
message in the queue: five of its own, and eight of a worker. -/
def consumerRank (queue : Nat) : Consumer NetMsgType → Nat
  | .idle => 3
  | .waiting _ => 5
  | .testing n nMessageCount => if nMessageCount < n ∧ 0 < queue then 2 else 4
  | .popping _ _ => 1
  | .dispatching _ _ _ => 13

/-- Nothing is left to do: all messages that came were dispatched, and all requests answered. -/
structure Drained (h : Host NetMsgType) : Prop where
  settled : Settled h
  queue : h.net.qMessagesIn = []
  dispatched : ∀ c, h.requests c = pushes (h.net.acts c)

namespace Server
variable {K : Type}

/-- A step of the process itself that does something: one of the workers, or of the thread that
calls `Update`. It does not wait for a message, and calls `Update` for a message that is there. -/
def advances (s : Service K) : ServiceEvent → Bool
  | .host (.update n bWait) => decide (0 < n) && !bWait && !s.host.net.qMessagesIn.isEmpty
  | .host .consumer =>
    match s.host.net.consumer with
    | .waiting _ => !s.host.net.qMessagesIn.isEmpty
    | _ => true
  | .host _ => false
  | _ => true

def load (s : Service K) : Nat :=
  rank s + 13 * s.host.net.qMessagesIn.length +
    consumerRank s.host.net.qMessagesIn.length s.host.net.consumer

variable {sv : Server K} {start s s' : Service K} {es : List ServiceEvent} {ev : ServiceEvent}

theorem length_onMessage (h : Host NetMsgType) : h.onMessage.length ≤ 1 := by
  obtain ⟨c,msg,-,htask⟩ | ⟨hnone,-⟩ := h.onMessage_cases
  · rw [htask, List.length_singleton]
  · rw [hnone]
    exact Nat.zero_le 1

theorem onMessage_nil {h : Host NetMsgType} (hhand : h.net.consumer.inHand = []) :
    h.onMessage = [] := by
  obtain ⟨c,msg,hone,-⟩ | ⟨hnone,-⟩ := h.onMessage_cases
  · rw [hhand] at hone
    cases hone
  · exact hnone

theorem load_consume {net : ServerInterface NetMsgType} {q : List (Net.Task NetMsgType)}
    (hconsume : s.host.net.consume = some net) (hq : q = s.host.queued ++ s.host.onMessage)
    (hadvance : advances s (.host .consumer) = true) :
    load { s with host := { s.host with net := net, queued := q } } < load s := by
  have hmsgs := length_onMessage s.host
  simp only [advances] at hadvance
  simp only [ServerInterface.consume] at hconsume
  have hquiet : s.host.net.consumer.inHand = [] → q = s.host.queued := fun hhand => by
    rw [hq, onMessage_nil hhand, List.append_nil]
  split at hconsume
  · cases hconsume
  · rename_i n hc
    have hrank := hquiet (by rw [hc]; rfl)
    rw [hc] at hadvance
    simp only [Bool.not_eq_true'] at hadvance
    simp only [hadvance, Bool.false_eq_true, if_false, Option.some.injEq] at hconsume
    subst hconsume
    simp only [load, rank, hrank, hc, consumerRank]
    split <;> omega
  · rename_i n k hc
    have hrank := hquiet (by rw [hc]; rfl)
    split at hconsume
    · rename_i hcond
      cases hconsume
      have hpos : 0 < s.host.net.qMessagesIn.length := by
        rw [List.length_pos_iff]
        rintro hnil
        simp [hnil] at hcond
      simp only [load, rank, hrank, hc, consumerRank, hcond.1, hpos, and_self, if_true]
      omega
    · rename_i hcond
      cases hconsume
      have hnot : ¬(k < n ∧ 0 < s.host.net.qMessagesIn.length) := by
        rintro ⟨hk,hpos⟩
        refine hcond ⟨hk,?_⟩
        cases hqueue : s.host.net.qMessagesIn with
        | nil => simp [hqueue] at hpos
        | cons msg rest => rfl
      simp only [load, rank, hrank, hc, consumerRank, hnot, if_false]
      omega
  · rename_i n k hc
    have hrank := hquiet (by rw [hc]; rfl)
    split at hconsume
    · cases hconsume
    · rename_i msg rest hqueue
      cases hconsume
      simp only [load, rank, hrank, hc, hqueue, consumerRank, List.length_cons]
      omega
  · rename_i n k msg hc
    cases hconsume
    simp only [load, rank, hq, hc, consumerRank, List.length_append]
    split <;> omega

theorem load_step (hs : ServiceInv sv start es s) (hev : advances s ev = true)
    (h : sv.serviceStep s ev = some s') :
    load s' < load s ∧ s'.host.net.acts = s.host.net.acts := by
  have worker : ofWorkers ev = true → load s' < load s ∧ s'.host.net.acts = s.host.net.acts := by
    intro hworker
    obtain ⟨hrank,hnet⟩ := rank_step hs hworker h
    refine ⟨?_,by rw [hnet]⟩
    simp only [load, hnet]
    omega
  cases ev with
  | start random => exact worker rfl
  | work i => exact worker rfl
  | finish i => exact worker rfl
  | host hev' =>
    obtain ⟨hev'',host,heq,-,moves,rfl⟩ | ⟨_,_,_,heq,_⟩ | ⟨_,heq,_⟩ | ⟨_,heq,_⟩ := serviceStep_cases h
    · cases heq
      cases moves with
      | @update n bWait net step =>
        simp only [advances, Bool.and_eq_true, decide_eq_true_eq, Bool.not_eq_true'] at hev
        obtain ⟨⟨hpos,rfl⟩,hqueue⟩ := hev
        simp only [ServerInterface.step] at step
        split at step
        · rename_i hidle
          cases step
          refine ⟨?_,rfl⟩
          have hlength : 0 < s.host.net.qMessagesIn.length := by
            rw [List.length_pos_iff]
            rintro hnil
            simp [hnil] at hqueue
          simp [load, rank, hidle, consumerRank, hpos, hlength]
        · cases step
      | consumer step => exact ⟨load_consume step rfl hev,(consume_conns step).2⟩
      | called calls =>
        cases hev' <;> first | cases hev | cases calls
      | accept approved => cases hev
      | io completion step => cases hev
      | task head step => cases hev
      | workerStart head => cases hev
      | workerSend task first => cases hev
      | workerEnd => cases hev
    · cases heq
    · cases heq
    · cases heq

theorem drained_idle (hs : ServiceInv sv start es s) (hqueue : s.host.net.qMessagesIn = [])
    (hhand : s.host.net.consumer.inHand = []) (htasks : s.host.tasks = []) : Drained s.host := by
  refine ⟨hs.accounted.settled htasks,hqueue,fun c => ?_⟩
  have hattr := hs.replies.dispatch.attributed c
  rw [hqueue, hhand, List.append_nil, List.append_nil] at hattr
  exact hattr

theorem host_enabled {hev : HostEvent NetMsgType} (hlive : s.ended = false)
    (net : ofWorker hev = false) (henabled : (s.host.step hev).isSome = true) :
    (sv.serviceStep s (.host hev)).isSome = true := by
  simp [serviceStep, hlive, net, henabled]

theorem advance_enabled (hs : ServiceInv sv start es s) (hlive : s.ended = false)
    (hopen : ¬Drained s.host) :
    ∃ ev, advances s ev = true ∧ (sv.serviceStep s ev).isSome = true := by
  have hdispatch := hs.replies.dispatch
  -- the consumer has nothing to do: then the workers do
  have workers : s.host.net.qMessagesIn = [] → s.host.net.consumer.inHand = [] →
      ∃ ev, advances s ev = true ∧ (sv.serviceStep s ev).isSome = true := by
    intro hqueue hhand
    have htasks : s.host.tasks ≠ [] := fun htasks => hopen (drained_idle hs hqueue hhand htasks)
    obtain ⟨ev,hev,henabled⟩ := worker_enabled hs hlive htasks
    refine ⟨ev,?_,henabled⟩
    cases ev with
    | host hev' => cases hev
    | _ => rfl
  have consumer : (∀ n, s.host.net.consumer ≠ .waiting n) → s.host.net.consume.isSome = true →
      ∃ ev, advances s ev = true ∧ (sv.serviceStep s ev).isSome = true := by
    intro hwait henabled
    refine ⟨.host .consumer,?_,host_enabled hlive rfl ?_⟩
    · unfold advances
      cases hc : s.host.net.consumer with
      | waiting n => exact absurd hc (hwait n)
      | _ => rfl
    · simpa [Host.step, ServerInterface.step] using henabled
  cases hc : s.host.net.consumer with
  | idle =>
    cases hqueue : s.host.net.qMessagesIn with
    | nil => exact workers hqueue (by rw [hc]; rfl)
    | cons msg rest =>
      refine ⟨.host (.update 1 false),by simp [advances, hqueue],host_enabled hlive rfl ?_⟩
      simp [Host.step, ServerInterface.step, hc]
  | waiting n =>
    cases hqueue : s.host.net.qMessagesIn with
    | nil => exact workers hqueue (by rw [hc]; rfl)
    | cons msg rest =>
      refine ⟨.host .consumer,by simp [advances, hc, hqueue],host_enabled hlive rfl ?_⟩
      simp [Host.step, ServerInterface.step, ServerInterface.consume, hc, hqueue]
  | testing n k =>
    refine consumer (by simp [hc]) ?_
    simp only [ServerInterface.consume, hc]
    split <;> rfl
  | popping n k =>
    refine consumer (by simp [hc]) ?_
    cases hqueue : s.host.net.qMessagesIn with
    | nil => exact absurd hqueue (hdispatch.nonempty n k hc)
    | cons msg rest => simp [ServerInterface.consume, hc, hqueue]
  | dispatching n k msg =>
    refine consumer (by simp [hc]) ?_
    simp [ServerInterface.consume, hc]

theorem advances_bounded {now : Nat → UInt64} {w : World}
    (run : exec sv.serviceStep (.start now w) es = some s) {more : List ServiceEvent}
    {t : Service K} (meets : Meets sv.serviceStep (fun s ev => advances s ev = true) s more)
    (hmore : exec sv.serviceStep s more = some t) :
    exec sv.serviceStep (.start now w) (es ++ more) = some t ∧
    more.length + load t ≤ load s ∧ t.host.net.acts = s.host.net.acts := by
  refine exec_induction (I := fun more t =>
    exec sv.serviceStep (.start now w) (es ++ more) = some t ∧
    more.length + load t ≤ load s ∧ t.host.net.acts = s.host.net.acts) ?_ ?_ meets hmore
  · exact ⟨by rw [List.append_nil, run],by simp,rfl⟩
  · rintro more t ev u ⟨hreached,hload,hacts⟩ hev hstep
    obtain ⟨hlt,hkeep⟩ := load_step (serviceInv_run hreached) hev hstep
    refine ⟨?_,?_,hkeep.trans hacts⟩
    · rw [← List.append_assoc]
      exact exec_snoc.mpr ⟨t,hreached,hstep⟩
    · rw [List.length_append, List.length_singleton]
      omega

/-- From every state of the server the loop of `main` and the workers can take a bounded number of
steps without the network. When they have none left, every message that the connections have
pushed was dispatched and every request for a key was answered, unless an exception has ended the
process; and they get there. -/
theorem server_drains {now : Nat → UInt64} {w : World}
    (run : exec sv.serviceStep (.start now w) es = some s) :
    (∀ more t, Meets sv.serviceStep (fun s ev => advances s ev = true) s more →
      exec sv.serviceStep s more = some t →
      more.length ≤ load s ∧ t.host.net.acts = s.host.net.acts ∧
      ((∀ ev, advances t ev = true → sv.serviceStep t ev = none) →
        t.ended = true ∨ Drained t.host)) ∧
    ∃ more t, Meets sv.serviceStep (fun s ev => advances s ev = true) s more ∧
      exec sv.serviceStep s more = some t ∧ (t.ended = true ∨ Drained t.host) := by
  have progress : ∀ more t, Meets sv.serviceStep (fun s ev => advances s ev = true) s more →
      exec sv.serviceStep s more = some t → (t.ended = true ∨ Drained t.host) ∨
        ∃ ev, advances t ev = true ∧ (sv.serviceStep t ev).isSome = true := by
    intro more t meets hmore
    have ht := serviceInv_run (advances_bounded run meets hmore).1
    by_cases hdrained : Drained t.host
    · exact .inl (.inr hdrained)
    · cases hlive : t.ended with
      | true => exact .inl (.inl rfl)
      | false => exact .inr (advance_enabled ht hlive hdrained)
  have bounded : ∀ more t, Meets sv.serviceStep (fun s ev => advances s ev = true) s more →
      exec sv.serviceStep s more = some t → more.length ≤ load s := by
    intro more t meets hmore
    have := (advances_bounded run meets hmore).2.1
    omega
  refine ⟨?_,exec_reaches (load s) progress bounded⟩
  refine fun more t meets hmore =>
    ⟨bounded more t meets hmore,(advances_bounded run meets hmore).2.2,fun hstuck => ?_⟩
  obtain hdone | ⟨ev,hev,henabled⟩ := progress more t meets hmore
  · exact hdone
  · rw [hstuck ev hev] at henabled
    cases henabled

theorem server_drains_oneClient :
    ∃ s, exec oneKey.serviceStep (.start (fun _ => 5) emptyStore) (requestSteps.take 4) = some s ∧
      ∃ more t, exec oneKey.serviceStep s more = some t ∧ (t.ended = true ∨ Drained t.host) := by
  have hrun : (exec oneKey.serviceStep (.start (fun _ => 5) emptyStore)
      (requestSteps.take 4)).isSome = true := by decide +kernel
  obtain ⟨s,run⟩ := Option.isSome_iff_exists.mp hrun
  obtain ⟨-,more,t,-,hmore,hdone⟩ := server_drains run
  exact ⟨s,run,more,t,hmore,hdone⟩

end Server

end TransmissionPlatform.Platform
