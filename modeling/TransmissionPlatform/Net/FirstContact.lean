import TransmissionPlatform.Net.Host

/-!
What a client is sent before it has answered the challenge. A connection is in the container
from the start of its handshake on, and `MessageClient` and `MessageAllClients` only ask
whether its socket is open. A worker answers a client that was validated.
-/

set_option autoImplicit false

namespace TransmissionPlatform.Net
open StepSystem

variable {T : Type}

/-- No message is handed to the socket before the client is validated. -/
def UnwrittenBefore (acts : List (Act T)) : Prop :=
  ∀ pre post, acts = pre ++ post → .onClientValidated ∉ pre → messageBuffers pre = []

/-- The client has not answered: nothing was accepted from it, and no message for it is
queued, outstanding or written. -/
structure Unanswered (s : Io T) : Prop where
  outgoing : s.outgoing = ⟨[],[],[]⟩
  reads : ∀ op ∈ s.conn.reads, op = .validation
  accepted : s.acts.filter (·.accepts) = []

structure FirstContact (s : Io T) : Prop where
  unanswered : .onClientValidated ∉ s.acts → Unanswered s
  unwritten : UnwrittenBefore s.acts

theorem UnwrittenBefore.extend {acts new : List (Act T)} (h : UnwrittenBefore acts)
    (hnew : .onClientValidated ∉ acts → messageBuffers new = []) :
    UnwrittenBefore (acts ++ new) := by
  intro pre post heq hpre
  obtain ⟨mid,hmid,hsplit⟩ | ⟨mid,hmid,-⟩ := List.append_eq_append_iff.mp heq
  · have hacts : .onClientValidated ∉ acts := fun hm =>
      hpre (hmid ▸ List.mem_append_left mid hm)
    have hbuffers := hnew hacts
    rw [hsplit, messageBuffers_append, List.append_eq_nil_iff] at hbuffers
    rw [hmid, messageBuffers_append, h acts [] (List.append_nil acts).symm hacts, hbuffers.1]
    rfl
  · exact h pre mid hmid hpre

theorem Unanswered.pushes_eq_nil {s : Io T} (h : Unanswered s) : pushes s.acts = [] := by
  rw [← pushes_filter, h.accepted]
  rfl

theorem firstContact_connectToClient {s : Io T} (uid : UInt32) (hs : FirstContact s) :
    FirstContact (s.connectToClient uid) := by
  obtain heq | heq := Io.connectToClient_cases uid s
  · rw [heq]
    exact hs
  · have hgreeted := greeted_connectToClient uid s
    refine ⟨fun hnot => ?_,?_⟩
    · have hold := hs.unanswered fun hm => hnot (by simp [heq, hm])
      refine ⟨hgreeted.outgoing.trans hold.outgoing,?_,?_⟩
      · intro op hop
        exact (hgreeted.reads op hop).elim (hold.reads op) id
      · simpa [heq, Act.accepts] using hold.accepted
    · rw [heq]
      exact hs.unwritten.extend fun _ => rfl

variable [EnumId T]

section Steps
variable {me : Nat} {now : UInt64} {s t : Io T} {ev : Event T}

theorem unanswered_incoming (hside : s.conn.ServerSide me now) (hs : Unanswered s)
    (ht : s.step ev = some t) (hnot : .onClientValidated ∉ t.acts) :
    (∀ op ∈ t.conn.reads, op = .validation) ∧ t.acts.filter (·.accepts) = [] := by
  have ended : ∀ op, ∀ op' ∈ s.conn.reads.erase op, op' = .validation :=
    fun op op' hm => hs.reads op' (List.mem_of_mem_erase hm)
  have hsame : ∀ i : Incoming T, t.incoming = i → (∀ op ∈ i.reads, op = .validation) →
      i.accepted = [] → (∀ op ∈ t.conn.reads, op = .validation) ∧
        t.acts.filter (·.accepts) = [] := by
    rintro i rfl hreads haccepted
    exact ⟨hreads,haccepted⟩
  obtain ⟨op,hm,next,new,hnew,h⟩ | ⟨op,-,h⟩ | h | h := incoming_step hside ht
  · obtain ⟨-,rfl⟩ | ⟨hop,-⟩ := hnew
    · have hmem : Act.onClientValidated ∈ t.incoming.accepted := by simp [h]
      exact absurd (List.mem_filter.mp hmem).1 hnot
    · exact absurd (hs.reads op hm) hop
  · exact hsame _ h (ended op) hs.accepted
  · exact hsame _ h hs.reads hs.accepted
  · exact hsame _ h hs.reads hs.accepted

/-- A `Send` task is all that can start a message write on a connection that has none. -/
theorem unanswered_outgoing (hs : Unanswered s) (hsend : ∀ msg, ev ≠ .sendTask msg)
    (ht : s.step ev = some t) : t.outgoing = ⟨[],[],[]⟩ := by
  have idle : ∀ op, op.isMessage = true → op ∉ s.conn.writes := by
    intro op hop hm
    have hwrites : s.conn.messageWrites = [] := congrArg Outgoing.writes hs.outgoing
    have hmem := mem_messageWrites hm hop
    rw [hwrites] at hmem
    cases hmem
  obtain ⟨ho,-,-⟩ | ⟨msg,hev,-⟩ | ⟨op,hop,hm,-,-⟩ | ⟨op,hop,hm,-,-⟩ := outgoing_step ht
  · exact ho.trans hs.outgoing
  · exact absurd hev (hsend msg)
  · exact absurd hm (idle op hop)
  · exact absurd hm (idle op hop)

theorem firstContact_step (hside : s.conn.ServerSide me now) (hs : FirstContact s)
    (hsend : ∀ msg, ev = .sendTask msg → .onClientValidated ∈ s.acts)
    (ht : s.step ev = some t) : FirstContact t := by
  obtain ⟨new,hnew⟩ := acts_step ht
  by_cases hv : .onClientValidated ∈ s.acts
  · refine ⟨fun hnot => absurd (hnew ▸ List.mem_append_left new hv) hnot,?_⟩
    rw [← hnew]
    exact hs.unwritten.extend fun hnot => absurd hv hnot
  · have hold := hs.unanswered hv
    have hout := unanswered_outgoing hold (fun msg hev => hv (hsend msg hev)) ht
    refine ⟨fun hnot => ?_,?_⟩
    · obtain ⟨hreads,haccepted⟩ := unanswered_incoming hside hold ht hnot
      exact ⟨hout,hreads,haccepted⟩
    · have hbuffers : messageBuffers t.acts = [] := congrArg Outgoing.buffers hout
      rw [← hnew, messageBuffers_append, List.append_eq_nil_iff] at hbuffers
      rw [← hnew]
      exact hs.unwritten.extend fun _ => hbuffers.2

end Steps

namespace Host

def Validated (h : Host T) (c : Nat) : Prop := .onClientValidated ∈ h.net.acts c

def OnlyValidated (h : Host T) : HostEvent T → Prop
  | .send c _ => h.Validated c
  | .messageClient c _ => h.isOpen c = true → h.Validated c
  | .messageAllClients _ pIgnoreClient => ∀ client ∈ h.deqConnections, client ≠ pIgnoreClient →
      ∀ c ∈ client, h.isOpen c = true → h.Validated c
  | _ => True

instance decidableOnlyValidated [DecidableEq T] (h : Host T) : ∀ ev, Decidable (h.OnlyValidated ev)
  | .send c _ => inferInstanceAs (Decidable (.onClientValidated ∈ h.net.acts c))
  | .messageClient c _ =>
    inferInstanceAs (Decidable (h.isOpen c = true → .onClientValidated ∈ h.net.acts c))
  | .messageAllClients _ pIgnoreClient => inferInstanceAs (Decidable (∀ client ∈ h.deqConnections,
      client ≠ pIgnoreClient → ∀ c ∈ client, h.isOpen c = true → .onClientValidated ∈ h.net.acts c))
  | .accept _ | .io _ _ | .task | .update _ _ | .consumer | .workerStart | .workerSend _ _ |
    .workerEnd _ | .disconnect _ => isTrue trivial

structure ContactInv (h : Host T) : Prop where
  dispatch : DispatchInv h.net
  conns : ∀ c, FirstContact (h.net.view c)
  posted : ∀ c msg, .send c msg ∈ h.posted → h.Validated c
  tasks : ∀ t ∈ h.tasks, h.Validated t.client

section Steps
variable {h h' : Host T}

omit [EnumId T] in
theorem ContactInv.of_item (hs : h.ContactInv) {item : OwnedMessage T} {c : Nat}
    (hitem : item ∈ h.net.items) (hremote : item.remote = some c) : h.Validated c := by
  by_contra hnot
  have hpushes : pushes (h.net.acts c) = [] := ((hs.conns c).unanswered hnot).pushes_eq_nil
  have hmem : item ∈ OwnedMessage.ofConn c (h.net.dispatched ++ h.net.items) :=
    List.mem_filter.mpr ⟨List.mem_append_right _ hitem,decide_eq_true hremote⟩
  rw [ServerInterface.items, ← List.append_assoc, hs.dispatch.attributed c, hpushes] at hmem
  cases hmem

omit [EnumId T] in
theorem called_validated {ev : HostEvent T} {r : Clients T} (hcond : h.OnlyValidated ev)
    (hr : h.called ev = some r) {c : Nat} {msg : Message T}
    (hp : .send c msg ∈ r.calls.flatMap h.posts) : h.Validated c := by
  obtain rfl | ⟨rfl,-,hopen⟩ | ⟨pIgnoreClient,rfl,hclient,hopen,hne⟩ :=
    (callEffects_called hr).sends c msg hp
  · exact hcond
  · exact hcond hopen
  · exact hcond (some c) hclient hne c rfl hopen

theorem ContactInv.of_task (hs : h.ContactInv) {ev : HostEvent T} (m : h.Moves ev h') :
    ∀ t ∈ h'.tasks, h.Validated t.client := by
  intro t ht
  obtain ⟨t',ht',hclient⟩ | hnew := tasks_moves m t ht
  · exact hclient ▸ hs.tasks t' ht'
  · obtain ⟨item,hitem,hremote⟩ := items_onMessage hnew
    exact hs.of_item hitem hremote

theorem acts_moves {ev : HostEvent T} (m : h.Moves ev h') (c : Nat) :
    h.net.acts c <+: h'.net.acts c := by
  have same : ∀ {net : ServerInterface T}, net.view c = h.net.view c →
      h.net.acts c <+: net.acts c := by
    intro net heq
    have hacts : net.acts c = h.net.acts c := congrArg Io.acts heq
    rw [hacts]
  have io : ∀ {c' : Nat} {own : Event T} {net : ServerInterface T},
      h.net.step (.io c' own) = some net → h.net.acts c <+: net.acts c := by
    intro c' own net step
    obtain ⟨hown,hothers⟩ := view_io step
    by_cases hc : c = c'
    · subst hc
      exact acts_step hown
    · exact same (hothers c hc)
  cases m with
  | accept approved =>
    cases approved with
    | false => exact List.prefix_refl _
    | true =>
      obtain ⟨hnew,hothers⟩ := view_connectToClient h.net h.accepted h.nIDCounter
      by_cases hc : c = h.accepted
      · subst hc
        have hacts : (h.accept true).net.acts h.accepted =
            ((h.net.view h.accepted).connectToClient h.nIDCounter).acts := congrArg Io.acts hnew
        rw [hacts]
        obtain heq | heq := Io.connectToClient_cases h.nIDCounter (h.net.view h.accepted) <;>
          rw [heq]
        · exact List.prefix_refl _
        · exact List.prefix_append _ _
      · exact same (hothers c hc)
  | io completion step => exact io step
  | task head step => exact io step
  | update step => exact same (view_update step c)
  | consumer step => exact same (view_consume step c)
  | workerStart head => exact List.prefix_refl _
  | workerSend task first => exact List.prefix_refl _
  | workerEnd => exact List.prefix_refl _
  | called calls => exact List.prefix_refl _

theorem contactInv_io {c : Nat} {ev : Event T} {net : ServerInterface T} {posted : List (Posted T)}
    (hs : h.ContactInv) (m : ∀ c, h.net.acts c <+: net.acts c)
    (hsend : ∀ msg, ev = .sendTask msg → h.Validated c)
    (step : h.net.step (.io c ev) = some net) (hposted : posted <:+ h.posted) :
    ContactInv { h with net := net, posted := posted } := by
  obtain ⟨now,hside⟩ := hs.dispatch.conns c
  obtain ⟨hown,hothers⟩ := view_io step
  refine ⟨dispatchInv_io hs.dispatch step,fun c' => ?_,?_,?_⟩
  · by_cases hc : c' = c
    · subst hc
      exact firstContact_step (s := h.net.view c') hside (hs.conns c') hsend hown
    · have hsame := hs.conns c'
      rwa [← hothers c' hc] at hsame
  · exact fun c' msg hp => (m c').subset (hs.posted c' msg (hposted.subset hp))
  · exact fun t ht => (m t.client).subset (hs.tasks t ht)

omit [EnumId T] in
theorem ContactInv.frame (hs : h.ContactInv) (hdispatch : DispatchInv h'.net)
    (hview : ∀ c, h'.net.view c = h.net.view c)
    (hposted : ∀ c msg, .send c msg ∈ h'.posted → h.Validated c)
    (htasks : ∀ t ∈ h'.tasks, h.Validated t.client) : h'.ContactInv := by
  have hacts : ∀ c, h'.net.acts c = h.net.acts c := fun c => congrArg Io.acts (hview c)
  refine ⟨hdispatch,fun c => ?_,fun c msg hp => ?_,fun t ht => ?_⟩
  · rw [hview]
    exact hs.conns c
  · rw [Validated, hacts]
    exact hposted c msg hp
  · rw [Validated, hacts]
    exact htasks t ht

theorem contactInv_moves {ev : HostEvent T} (hs : h.ContactInv) (hcond : h.OnlyValidated ev)
    (m : h.Moves ev h') : h'.ContactInv := by
  have hacts := acts_moves m
  have htasks := hs.of_task m
  cases m with
  | accept approved =>
    cases approved with
    | false => exact ⟨hs.dispatch,hs.conns,hs.posted,hs.tasks⟩
    | true =>
      obtain ⟨hnew,hothers⟩ := view_connectToClient h.net h.accepted h.nIDCounter
      refine ⟨dispatchInv_connectToClient hs.dispatch _ _,fun c => ?_,?_,?_⟩
      · by_cases hc : c = h.accepted
        · subst hc
          have hcontact := firstContact_connectToClient h.nIDCounter (hs.conns h.accepted)
          rwa [← hnew] at hcontact
        · have hsame := hs.conns c
          rwa [← hothers c hc] at hsame
      · exact fun c msg hp => (hacts c).subset (hs.posted c msg hp)
      · exact fun t ht => (hacts t.client).subset (hs.tasks t ht)
  | io completion step =>
    refine contactInv_io hs hacts ?_ step (List.suffix_refl _)
    rintro msg rfl
    cases completion
  | @task p rest net head step =>
    have hrest : rest <:+ h.posted := by
      rw [head]
      exact List.suffix_cons p rest
    refine contactInv_io hs hacts ?_ step hrest
    intro msg hev
    cases p with
    | close c => cases hev
    | send c msg' =>
      refine hs.posted c msg' ?_
      rw [head]
      exact List.mem_cons_self
  | update step =>
    exact hs.frame (dispatchInv_update hs.dispatch step) (view_update step) hs.posted hs.tasks
  | consumer step =>
    exact hs.frame (dispatchInv_consume hs.dispatch step) (view_consume step) hs.posted htasks
  | workerStart head => exact hs.frame hs.dispatch (fun _ => rfl) hs.posted htasks
  | @workerSend i msg t task first =>
    refine hs.frame hs.dispatch (fun _ => rfl) ?_ htasks
    intro c msg' hp
    obtain hp | hp := List.mem_append.mp hp
    · exact hs.posted c msg' hp
    · cases List.mem_singleton.mp hp
      exact hs.tasks t (List.mem_append_left _ (List.mem_of_getElem? task))
  | workerEnd => exact hs.frame hs.dispatch (fun _ => rfl) hs.posted htasks
  | called calls =>
    refine hs.frame hs.dispatch (fun _ => rfl) ?_ htasks
    intro c msg hp
    obtain hp | hp := List.mem_append.mp hp
    · exact hs.posted c msg hp
    · exact called_validated hcond calls hp

theorem contactInv_start (now : Nat → UInt64) : (start now : Host T).ContactInv := by
  refine ⟨dispatchInv_hostStart now,fun c => ⟨fun _ => ⟨rfl,?_,rfl⟩,?_⟩,?_,?_⟩
  · intro op hop
    cases hop
  · intro pre post heq _
    rw [(List.append_eq_nil_iff.mp heq.symm).1]
    rfl
  · intro c msg hp
    cases hp
  · intro t ht
    cases ht

/-- In every run in which `MessageClient`, `MessageAllClients` and `Send` are used for
validated clients only, no client is written a message before it is validated. -/
theorem unwritten_before_validation {now : Nat → UInt64} {as : List (HostEvent T)}
    (meets : Meets step OnlyValidated (start now) as) (run : exec step (start now) as = some h) :
    ∀ c, UnwrittenBefore (h.net.acts c) := by
  have hinv : h.ContactInv :=
    exec_induction (I := fun _ h => h.ContactInv) (contactInv_start now)
      (fun _ _ _ _ hs hcond hstep => contactInv_moves hs hcond (moves_step _ hstep)) meets run
  exact fun c => (hinv.conns c).unwritten

theorem unwritten_before_validation_answered :
    ∃ h : Host NetMsgType, exec step (start fun _ => 5) [.accept true,
      .io 0 (.readDone .validation (LittleEndian.ofUInt64 (scramble 5))),
      .messageAllClients .empty none, .task] = some h ∧
      messageBuffers (h.net.acts 0) = [[0,0,0,0,0,0,0,0]] ∧
      ∀ c, UnwrittenBefore (h.net.acts c) := by
  refine exists_exec (by decide) fun h run => ⟨?_,?_⟩
  · cases run
    decide
  · exact unwritten_before_validation (by decide) run

/-- A client connects and has not answered yet; the broadcast writes to it. -/
theorem written_before_validation :
    ∃ h : Host NetMsgType, exec step (start fun _ => 5) [.accept true,
      .messageAllClients .empty none, .task] = some h ∧
      ¬ UnwrittenBefore (h.net.acts 0) := by
  refine exists_exec (by decide) fun h run => ?_
  cases run
  intro hun
  have hnil := hun _ [] (List.append_nil _).symm (by decide)
  revert hnil
  decide

end Steps

end Host

end TransmissionPlatform.Net
