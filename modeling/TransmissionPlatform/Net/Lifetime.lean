import TransmissionPlatform.Net.Host

/-!
How long a connection lives. Its callbacks hold the raw `this`, so some reference has to be
there while one is still to run; the one that is there from the start is the entry of the
container, which a broadcast takes out as soon as the socket is closed.
-/

set_option autoImplicit false

namespace TransmissionPlatform.Net
open StepSystem

variable {T : Type}

theorem items_consume {s t : ServerInterface T} (ht : s.consume = some t) :
    ∀ item ∈ t.items, item ∈ s.items := by
  have queued : ∀ item ∈ s.qMessagesIn, item ∈ s.items := fun _ => List.mem_append_right _
  simp only [ServerInterface.consume] at ht
  split at ht
  · cases ht
  · cases ht
    split
    · exact fun _ => id
    · exact queued
  · split at ht <;> cases ht
    · exact queued
    · exact queued
  · split at ht
    · cases ht
    · rename_i msg rest hq
      cases ht
      rw [hq] at queued
      exact queued
  · cases ht
    exact queued

variable [EnumId T]

theorem items_update {s t : ServerInterface T} {n : Nat} {bWait : Bool}
    (ht : s.step (.update n bWait) = some t) :
    t.conns = s.conns ∧ ∀ item ∈ t.items, item ∈ s.items := by
  simp only [ServerInterface.step] at ht
  split at ht
  · rename_i hidle
    cases ht
    refine ⟨rfl,?_⟩
    cases bWait <;> simp [ServerInterface.items, Consumer.inHand, hidle]
  · cases ht

theorem isOpen_step {me : Nat} {now : UInt64} {s t : Io T} {ev : Event T}
    (hside : s.conn.ServerSide me now) (ht : s.step ev = some t) (hopen : t.conn.isOpen = true) :
    s.conn.isOpen = true := by
  have same : t.incoming.isOpen = s.incoming.isOpen ∨ t.incoming.isOpen = false := by
    obtain ⟨op,-,next,new,-,h⟩ | ⟨op,-,h⟩ | h | h := incoming_step hside ht
    · exact .inl (by rw [h])
    · exact .inr (by rw [h])
    · exact .inl (by rw [h])
    · exact .inr (by rw [h])
  obtain h | h := same
  · exact h.symm.trans hopen
  · exact absurd (h.symm.trans hopen) (by simp)

theorem outstanding_of_completion {me : Nat} {now : UInt64} {s t : Io T} {ev : Event T}
    (hside : s.conn.ServerSide me now) (hev : ev.isTask = false) (ht : s.step ev = some t) :
    0 < s.conn.reads.length + s.conn.writes.length := by
  have read : ∀ op ∈ s.conn.reads, 0 < s.conn.reads.length + s.conn.writes.length :=
    fun op hm => Nat.add_pos_left (List.length_pos_of_mem hm) _
  have write : ∀ op ∈ s.conn.writes, 0 < s.conn.reads.length + s.conn.writes.length :=
    fun op hm => Nat.add_pos_right _ (List.length_pos_of_mem hm)
  obtain ⟨op,bytes,-,hm,-⟩ | ⟨op,-,hm,-⟩ | ⟨-,hm,-⟩ | ⟨op,-,-,hm,-⟩ | ⟨op,-,hm,-⟩ |
    ⟨msg,rfl,-⟩ | ⟨rfl,-⟩ := step_cases hside.connecting ht
  · exact read op hm
  · exact read op hm
  · exact write _ hm
  · exact write op hm
  · exact write op hm
  · cases hev
  · cases hev

structure IoFrame (c : Nat) (s t : ServerInterface T) : Prop where
  others : ∀ c', c' ≠ c → t.conns c' = s.conns c'
  opens : ∀ c', (t.conns c').isOpen = true → (s.conns c').isOpen = true
  items : ∀ item ∈ t.items, item ∈ s.items ∨ item.remote = some c

theorem ioFrame_step {s t : ServerInterface T} {c : Nat} {ev : Event T} (hs : DispatchInv s)
    (ht : s.step (.io c ev) = some t) : IoFrame c s t := by
  obtain ⟨io,hio,rfl⟩ := Option.map_eq_some_iff.mp ht
  obtain ⟨now,hside⟩ := hs.conns c
  obtain ⟨new,hqueue,-,hremote⟩ := pushes_step hside hio
  refine ⟨fun c' hc => by simp [Function.update_of_ne hc],?_,?_⟩
  · intro c' hopen
    by_cases hc : c' = c
    · subst hc
      simp only [Function.update_self] at hopen
      exact isOpen_step hside hio hopen
    · simpa [Function.update_of_ne hc] using hopen
  · intro item hitem
    simp only [ServerInterface.items, hqueue, ← List.append_assoc] at hitem
    exact (List.mem_append.mp hitem).imp id (hremote item)

namespace Host

def Referenced (h : Host T) (c : Nat) : Prop :=
  (∃ item ∈ h.net.items, item.remote = some c) ∨ ∃ t ∈ h.tasks, t.client = c

/-- A broadcast takes out idle connections only, and `Send` is called for connections that
are in the container. -/
def KeepsHeld (h : Host T) : HostEvent T → Prop
  | .workerSend i _ => ∀ t ∈ h.running[i]?, some t.client ∈ h.deqConnections
  | .send c _ => some c ∈ h.deqConnections
  | .messageAllClients _ _ => ∀ client ∈ h.deqConnections,
      client.any h.isOpen = true ∨ ∀ c ∈ client, h.pending c = 0
  | _ => True

instance decidableKeepsHeld (h : Host T) : ∀ ev, Decidable (h.KeepsHeld ev)
  | .workerSend i _ =>
    inferInstanceAs (Decidable (∀ t ∈ h.running[i]?, some t.client ∈ h.deqConnections))
  | .send c _ => inferInstanceAs (Decidable (some c ∈ h.deqConnections))
  | .messageAllClients _ _ => inferInstanceAs (Decidable (∀ client ∈ h.deqConnections,
      client.any h.isOpen = true ∨ ∀ c ∈ client, h.pending c = 0))
  | .accept _ | .io _ _ | .task | .update _ _ | .consumer | .workerStart | .workerEnd _ |
    .disconnect _ | .messageClient _ _ => isTrue trivial

structure LifeInv (h : Host T) : Prop where
  dispatch : DispatchInv h.net
  held : ∀ c, 0 < h.pending c → some c ∈ h.deqConnections
  opened : ∀ c, h.Referenced c → h.isOpen c = true → some c ∈ h.deqConnections

section Steps
variable {h : Host T}

omit [EnumId T]

theorem owners_pos {c : Nat} : 0 < h.owners c ↔ some c ∈ h.deqConnections ∨ h.Referenced c := by
  have hitems : 0 < h.net.items.countP (·.remote = some c) ↔
      ∃ item ∈ h.net.items, item.remote = some c := by simp [List.countP_pos_iff]
  have htasks : 0 < h.tasks.countP (·.client = c) ↔
      ∃ t ∈ h.tasks, t.client = c := by
    simp only [List.countP_pos_iff, decide_eq_true_eq]
  rw [Referenced, ← hitems, ← htasks, ← List.count_pos_iff, owners, ServerInterface.items]
  omega

theorem pending_pos_of_posted {c : Nat} {p : Posted T} (hp : p ∈ h.posted) (hc : p.client = c) :
    0 < h.pending c := by
  have hpos : 0 < h.posted.countP (·.client = c) :=
    List.countP_pos_iff.mpr ⟨p,hp,decide_eq_true hc⟩
  unfold pending
  omega

theorem LifeInv.of_owners (hs : h.LifeInv) {c : Nat} (howned : 0 < h.owners c)
    (hopen : h.isOpen c = true) : some c ∈ h.deqConnections :=
  (owners_pos.mp howned).elim id fun hr => hs.opened c hr hopen

theorem called_held (hs : h.LifeInv) {ev : HostEvent T} {r : Clients T} (hcond : h.KeepsHeld ev)
    (hr : h.called ev = some r) :
    (∀ p ∈ r.calls.flatMap h.posts, some p.client ∈ r.deqConnections) ∧
    ∀ c, some c ∈ h.deqConnections → h.isOpen c = true ∨ 0 < h.pending c →
      some c ∈ r.deqConnections := by
  have heffects := callEffects_called hr
  have keeps : ∀ c, some c ∈ h.deqConnections → h.isOpen c = true ∨ 0 < h.pending c →
      some c ∈ r.deqConnections := by
    intro c hc hkeep
    obtain hin | ⟨⟨msg,pIgnoreClient,rfl⟩,hclosed⟩ := heffects.keeps c hc
    · exact hin
    · obtain hopen | hidle := hcond (some c) hc
      · exact absurd (hclosed.symm.trans hopen) (by simp)
      · obtain hopen | hpos := hkeep
        · exact absurd (hclosed.symm.trans hopen) (by simp)
        · exact absurd (hidle c rfl) (Nat.ne_of_gt hpos)
  refine ⟨fun p hp => ?_,keeps⟩
  cases p with
  | send c msg =>
    obtain rfl | ⟨rfl,howned,hopen⟩ | ⟨pIgnoreClient,-,hclient,hopen,-⟩ := heffects.sends c msg hp
    · obtain hin | ⟨⟨_,_,hev⟩,-⟩ := heffects.keeps c hcond
      · exact hin
      · cases hev
    · exact keeps c (hs.of_owners howned hopen) (.inl hopen)
    · exact keeps c hclient (.inl hopen)
  | close c =>
    obtain ⟨howned,hopen⟩ := heffects.closes c hp
    exact keeps c (hs.of_owners howned hopen) (.inl hopen)

theorem LifeInv.frame (hs : h.LifeInv) {h' : Host T} (hdispatch : DispatchInv h'.net)
    (hconns : h'.net.conns = h.net.conns) (hposted : h'.posted = h.posted)
    (hdeq : h'.deqConnections = h.deqConnections)
    (hitems : ∀ item ∈ h'.net.items, item ∈ h.net.items)
    (htasks : ∀ t ∈ h'.tasks, h.Referenced t.client) : h'.LifeInv := by
  refine ⟨hdispatch,fun c hc => ?_,fun c hr hopen => ?_⟩
  · rw [hdeq]
    refine hs.held c ?_
    simpa only [pending, hconns, hposted] using hc
  · rw [hdeq]
    have hopen' : h.isOpen c = true := by
      rw [isOpen, ← hconns]
      exact hopen
    obtain ⟨item,hitem,hremote⟩ | ⟨t,ht,rfl⟩ := hr
    · exact hs.opened c (.inl ⟨item,hitems item hitem,hremote⟩) hopen'
    · exact hs.opened _ (htasks t ht) hopen'

theorem referenced_task [EnumId T] {h' : Host T} {ev : HostEvent T} (m : h.Moves ev h') :
    ∀ t ∈ h'.tasks, h.Referenced t.client := by
  intro t ht
  obtain hold | hnew := tasks_moves m t ht
  · exact .inr hold
  · exact .inl (items_onMessage hnew)

end Steps

variable {h h' : Host T}

theorem lifeInv_io {c : Nat} {ev : Event T} {net : ServerInterface T} {posted : List (Posted T)}
    (hs : h.LifeInv) (hpending : 0 < h.pending c) (step : h.net.step (.io c ev) = some net)
    (hposted : posted <:+ h.posted) : LifeInv { h with net := net, posted := posted } := by
  have hframe := ioFrame_step hs.dispatch step
  refine ⟨dispatchInv_io hs.dispatch step,fun c' hc' => ?_,fun c' hr hopen => ?_⟩
  · by_cases hc : c' = c
    · rw [hc]
      exact hs.held c hpending
    · refine hs.held c' ?_
      have hle : posted.countP (·.client = c') ≤ h.posted.countP (·.client = c') :=
        hposted.sublist.countP_le
      simp only [pending, hframe.others c' hc] at hc' ⊢
      omega
  · obtain ⟨item,hitem,hremote⟩ | htask := hr
    · obtain hold | hnew := hframe.items item hitem
      · exact hs.opened c' (.inl ⟨item,hold,hremote⟩) (hframe.opens c' hopen)
      · have hc : c = c' := Option.some.inj (hnew.symm.trans hremote)
        rw [← hc]
        exact hs.held c hpending
    · exact hs.opened c' (.inr htask) (hframe.opens c' hopen)

omit [EnumId T] in
theorem lifeInv_accept (hs : h.LifeInv) : LifeInv (h.accept true) := by
  have hsame : ∀ c, c ≠ h.accepted → (h.accept true).net.conns c = h.net.conns c := fun c hc => by
    simp [accept, ServerInterface.connectToClient, Function.update_of_ne hc]
  have hqueue : (h.accept true).net.items = h.net.items := by
    have hgreeted := greeted_connectToClient h.nIDCounter
      (⟨h.net.conns h.accepted,h.net.qMessagesIn,h.net.acts h.accepted⟩ : Io T)
    simp only [accept, if_true, ServerInterface.items, ServerInterface.connectToClient,
      hgreeted.queue]
  have hnew : some h.accepted ∈ (h.accept true).deqConnections := by simp [accept]
  have hold : ∀ c, some c ∈ h.deqConnections → some c ∈ (h.accept true).deqConnections :=
    fun c hc => List.mem_append_left _ hc
  refine ⟨dispatchInv_connectToClient hs.dispatch _ _,fun c hc => ?_,fun c hr hopen => ?_⟩
  · by_cases heq : c = h.accepted
    · rw [heq]
      exact hnew
    · refine hold c (hs.held c ?_)
      have hposted : (h.accept true).posted = h.posted := rfl
      simpa only [pending, hsame c heq, hposted] using hc
  · by_cases heq : c = h.accepted
    · rw [heq]
      exact hnew
    · refine hold c (hs.opened c ?_ ?_)
      · unfold Referenced at hr
        rw [hqueue] at hr
        exact hr
      · rw [isOpen, ← hsame c heq]
        exact hopen

theorem lifeInv_moves {ev : HostEvent T} (hs : h.LifeInv) (hcond : h.KeepsHeld ev)
    (m : h.Moves ev h') : h'.LifeInv := by
  have htasks := referenced_task m
  cases m with
  | accept approved =>
    cases approved with
    | true => exact lifeInv_accept hs
    | false => exact ⟨hs.dispatch,hs.held,hs.opened⟩
  | @io c ev net completion step =>
    obtain ⟨io,hio,-⟩ := Option.map_eq_some_iff.mp step
    obtain ⟨now,hside⟩ := hs.dispatch.conns c
    have hout := outstanding_of_completion hside completion hio
    have hpending : 0 < h.pending c := Nat.add_pos_left hout _
    exact lifeInv_io hs hpending step (List.suffix_refl _)
  | @task p rest net head step =>
    have hp : p ∈ h.posted := by
      rw [head]
      exact List.mem_cons_self
    have hrest : rest <:+ h.posted := by
      rw [head]
      exact List.suffix_cons p rest
    exact lifeInv_io hs (pending_pos_of_posted hp rfl) step hrest
  | update step =>
    obtain ⟨hconns,hitems⟩ := items_update step
    exact hs.frame (dispatchInv_update hs.dispatch step) hconns rfl rfl hitems htasks
  | consumer step =>
    exact hs.frame (dispatchInv_consume hs.dispatch step) (consume_conns step).1 rfl rfl
      (items_consume step) htasks
  | workerStart head => exact hs.frame hs.dispatch rfl rfl rfl (fun _ => id) htasks
  | @workerSend i msg t task first =>
    refine ⟨hs.dispatch,fun c hc => ?_,fun c hr hopen => ?_⟩
    · by_cases heq : t.client = c
      · rw [← heq]
        exact hcond t task
      · refine hs.held c ?_
        simpa [pending, List.countP_append, List.countP_cons, Posted.client, heq] using hc
    · obtain hitem | ⟨t',ht',rfl⟩ := hr
      · exact hs.opened c (.inl hitem) hopen
      · exact hs.opened _ (htasks t' ht') hopen
  | workerEnd => exact hs.frame hs.dispatch rfl rfl rfl (fun _ => id) htasks
  | @called ev r calls =>
    obtain ⟨hposts,hkeeps⟩ := called_held hs hcond calls
    refine ⟨hs.dispatch,fun c hc => ?_,fun c hr hopen => ?_⟩
    · by_cases hnew : ∃ p ∈ r.calls.flatMap h.posts, p.client = c
      · obtain ⟨p,hp,rfl⟩ := hnew
        exact hposts p hp
      · have hzero : (r.calls.flatMap h.posts).countP (·.client = c) = 0 := by
          rw [List.countP_eq_zero]
          intro p hp hpc
          exact hnew ⟨p,hp,of_decide_eq_true hpc⟩
        have hpos : 0 < h.pending c := by
          simpa only [pending, after, List.countP_append, hzero, Nat.add_zero] using hc
        exact hkeeps c (hs.held c hpos) (.inr hpos)
    · exact hkeeps c (hs.opened c hr hopen) (.inl hopen)

theorem lifeInv_start (now : Nat → UInt64) : (start now : Host T).LifeInv := by
  refine ⟨dispatchInv_hostStart now,fun c hc => ?_,fun c hr _ => ?_⟩
  · simp [pending, start, Connection.new] at hc
  · simp [Referenced, start, tasks, ServerInterface.items, Consumer.inHand] at hr

/-- In every run in which a broadcast takes out only idle connections and `Send` is called
only for connections in the container, a connection with a callback pending is owned. -/
theorem owned_while_pending {now : Nat → UInt64} {as : List (HostEvent T)}
    (meets : Meets step KeepsHeld (start now) as) (run : exec step (start now) as = some h) :
    ∀ c, 0 < h.pending c → 0 < h.owners c := by
  have hinv : h.LifeInv :=
    exec_induction (I := fun _ h => h.LifeInv) (lifeInv_start now)
      (fun _ _ _ _ hs hcond hstep => lifeInv_moves hs hcond (moves_step _ hstep)) meets run
  exact fun c hc => owners_pos.mpr (.inl (hinv.held c hc))

theorem owned_while_pending_idle :
    ∃ h : Host NetMsgType, exec step (start fun _ => 5) [.accept true,
      .io 0 (.writeDone .validation),
      .io 0 (.readDone .validation (LittleEndian.ofUInt64 (scramble 5))),
      .io 0 (.readFailed .header), .messageAllClients .empty none] = some h ∧
      h.deqConnections = [] ∧ ∀ c, 0 < h.pending c → 0 < h.owners c := by
  refine exists_exec (by decide) fun h run => ⟨?_,?_⟩
  · cases run
    decide
  · exact owned_while_pending (by decide) run

/-- The client sends nothing and goes while its challenge is still being written: the read
fails and closes the socket, and the broadcast drops the only reference. -/
theorem pending_not_owned :
    ∃ h : Host NetMsgType, exec step (start fun _ => 5) [.accept true,
      .io 0 (.readFailed .validation), .messageAllClients .empty none] = some h ∧
      0 < h.pending 0 ∧ h.owners 0 = 0 := by
  refine exists_exec (by decide) fun h run => ?_
  cases run
  decide

end Host

end TransmissionPlatform.Net
