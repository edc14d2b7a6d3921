import TransmissionPlatform.Net.Validation

/-!
`ServerInterface` from its connections to `OnMessage`: the io thread runs the events of all
connections, which push to one queue, and one consumer thread calls `Update`. The loop of
`Update` tests the queue and pops from it in two sections, so every other event may come in
between.
-/

set_option autoImplicit false

namespace TransmissionPlatform.Net
open StepSystem

/-- The consumer thread in `Update(n)`, with its `nMessageCount`. -/
inductive Consumer (T : Type) where
  | idle
  | waiting (n : Nat)
  | testing (n nMessageCount : Nat)
  | popping (n nMessageCount : Nat)
  | dispatching (n nMessageCount : Nat) (msg : OwnedMessage T)

structure Call (T : Type) where
  bound : Nat
  messages : List (OwnedMessage T) := []

structure ServerInterface (T : Type) where
  conns : Nat → Connection T
  qMessagesIn : List (OwnedMessage T) := []
  consumer : Consumer T := .idle
  calls : List (Call T) := []
  acts : Nat → List (Act T) := fun _ => []

inductive ServerEvent (T : Type) where
  | io (c : Nat) (ev : Event T)
  | update (n : Nat) (bWait : Bool)
  | consumer

namespace ServerInterface
variable {T : Type} [EnumId T]

def onMessage (msg : OwnedMessage T) : List (Call T) → List (Call T)
  | [] => []
  | call :: calls => { call with messages := call.messages ++ [msg] } :: calls

/-- The next step of the consumer; `none` in `popping` is a `pop_front` on an empty queue. -/
def consume (s : ServerInterface T) : Option (ServerInterface T) :=
  match s.consumer with
  | .idle => none
  | .waiting n => some (if s.qMessagesIn.isEmpty then s else { s with consumer := .testing n 0 })
  | .testing n nMessageCount =>
    if nMessageCount < n ∧ !s.qMessagesIn.isEmpty then
      some { s with consumer := .popping n nMessageCount }
    else some { s with consumer := .idle }
  | .popping n nMessageCount =>
    match s.qMessagesIn with
    | [] => none
    | msg :: rest =>
      some { s with qMessagesIn := rest, consumer := .dispatching n nMessageCount msg }
  | .dispatching n nMessageCount msg =>
    some { s with consumer := .testing n (nMessageCount + 1), calls := onMessage msg s.calls }

def step (s : ServerInterface T) : ServerEvent T → Option (ServerInterface T)
  | .io c ev =>
    ((⟨s.conns c,s.qMessagesIn,s.acts c⟩ : Io T).step ev).map fun io =>
      { s with conns := Function.update s.conns c io.conn
               qMessagesIn := io.qMessagesIn
               acts := Function.update s.acts c io.acts }
  | .update n bWait =>
    match s.consumer with
    | .idle =>
      some { s with consumer := if bWait then .waiting n else .testing n 0
                    calls := ⟨n,[]⟩ :: s.calls }
    | _ => none
  | .consumer => s.consume

end ServerInterface

variable {T : Type}

def ServerInterface.dispatched (s : ServerInterface T) : List (OwnedMessage T) :=
  s.calls.reverse.flatMap Call.messages

def Consumer.inHand : Consumer T → List (OwnedMessage T)
  | .dispatching _ _ msg => [msg]
  | _ => []

def OwnedMessage.ofConn (c : Nat) (msgs : List (OwnedMessage T)) : List (OwnedMessage T) :=
  msgs.filter fun m => m.remote = some c

def ServerEvent.own? (c : Nat) : ServerEvent T → Option (Event T)
  | .io c' ev => if c' = c then some ev else none
  | _ => none

inductive CallState : Consumer T → List (Call T) → Prop where
  | idle {calls : List (Call T)} : CallState .idle calls
  | waiting {n : Nat} {calls : List (Call T)} : CallState (.waiting n) (⟨n,[]⟩ :: calls)
  | testing {call : Call T} {calls : List (Call T)} :
      call.messages.length ≤ call.bound →
      CallState (.testing call.bound call.messages.length) (call :: calls)
  | popping {call : Call T} {calls : List (Call T)} :
      call.messages.length < call.bound →
      CallState (.popping call.bound call.messages.length) (call :: calls)
  | dispatching {call : Call T} {calls : List (Call T)} {msg : OwnedMessage T} :
      call.messages.length < call.bound →
      CallState (.dispatching call.bound call.messages.length msg) (call :: calls)

structure DispatchInv (s : ServerInterface T) : Prop where
  conns : ∀ c, ∃ now, (s.conns c).ServerSide c now
  call : CallState s.consumer s.calls
  bounded : ∀ call ∈ s.calls, call.messages.length ≤ call.bound
  nonempty : ∀ n k, s.consumer = .popping n k → s.qMessagesIn ≠ []
  attributed : ∀ c, OwnedMessage.ofConn c (s.dispatched ++ s.consumer.inHand ++ s.qMessagesIn) =
    pushes (s.acts c)

@[simp] theorem ofConn_append (c : Nat) (xs ys : List (OwnedMessage T)) :
    OwnedMessage.ofConn c (xs ++ ys) = OwnedMessage.ofConn c xs ++ OwnedMessage.ofConn c ys :=
  List.filter_append ..

theorem pushes_filter (acts : List (Act T)) : pushes (acts.filter (·.accepts)) = pushes acts := by
  rw [pushes, List.filterMap_filter]
  refine List.filterMap_congr fun act _ => ?_
  cases act <;> rfl

variable [EnumId T]

theorem accepted_step {me : Nat} {now : UInt64} {s t : Io T} {ev : Event T}
    (hside : s.conn.ServerSide me now) (ht : s.step ev = some t) :
    ∃ new, t.incoming.accepted = s.incoming.accepted ++ new ∧
      ∀ item ∈ pushes new, item.remote = some me := by
  obtain ⟨op,-,next,new,hnew,h⟩ | ⟨op,-,h⟩ | h | h := incoming_step hside ht
  · refine ⟨new,congrArg Incoming.accepted h,?_⟩
    obtain ⟨-,rfl⟩ | ⟨-,msgs,rfl⟩ := hnew
    · simp [pushes]
    · simp [pushes, List.filterMap_map]
  · exact ⟨[],by simp [h],by simp [pushes]⟩
  · exact ⟨[],by simp [h],by simp [pushes]⟩
  · exact ⟨[],by simp [h],by simp [pushes]⟩

theorem pushes_step {me : Nat} {now : UInt64} {s t : Io T} {ev : Event T}
    (hside : s.conn.ServerSide me now) (ht : s.step ev = some t) :
    ∃ new, t.qMessagesIn = s.qMessagesIn ++ new ∧ pushes t.acts = pushes s.acts ++ new ∧
      ∀ item ∈ new, item.remote = some me := by
  have hs : s = (⟨s.conn,[],[]⟩ : Io T).under s.qMessagesIn s.acts := by simp [Io.under]
  rw [hs, step_under] at ht
  obtain ⟨u,hu,rfl⟩ := Option.map_eq_some_iff.mp ht
  have hlogged : QueueLogged [] u := queueLogged_step (s := ⟨s.conn,[],[]⟩) rfl hu
  refine ⟨pushes u.acts,?_,pushes_append _ _,?_⟩
  · simp only [Io.under]
    rw [hlogged, List.nil_append]
  · obtain ⟨new,hnew,hremote⟩ := accepted_step (s := ⟨s.conn,[],[]⟩) hside hu
    rw [← pushes_filter]
    change u.acts.filter (·.accepts) = [] ++ new at hnew
    rw [hnew]
    exact hremote

omit [EnumId T] in
theorem ofConn_of_remote {me c : Nat} {new : List (OwnedMessage T)}
    (h : ∀ item ∈ new, item.remote = some me) :
    OwnedMessage.ofConn c new = if c = me then new else [] := by
  by_cases hc : c = me
  · subst hc
    rw [if_pos rfl, OwnedMessage.ofConn, List.filter_eq_self]
    exact fun item hm => decide_eq_true (h item hm)
  · rw [if_neg hc, OwnedMessage.ofConn, List.filter_eq_nil_iff]
    intro item hm heq
    have := (h item hm).symm.trans (of_decide_eq_true heq)
    exact hc (Option.some.inj this).symm

theorem dispatchInv_io {s t : ServerInterface T} {c : Nat} {ev : Event T} (hs : DispatchInv s)
    (ht : s.step (.io c ev) = some t) : DispatchInv t := by
  obtain ⟨io,hio,rfl⟩ := Option.map_eq_some_iff.mp ht
  obtain ⟨now,hside⟩ := hs.conns c
  obtain ⟨new,hqueue,hacts,hremote⟩ := pushes_step hside hio
  refine ⟨?_,hs.call,hs.bounded,?_,?_⟩
  · intro c'
    by_cases hc : c' = c
    · subst hc
      exact ⟨now,by simpa using serverSide_step hside hio⟩
    · simpa [Function.update_of_ne hc] using hs.conns c'
  · intro n k hpop
    have := hs.nonempty n k hpop
    simp only [hqueue]
    simp [this]
  · intro c'
    have hattr := hs.attributed c'
    simp only [ofConn_append] at hattr
    change OwnedMessage.ofConn c' (s.dispatched ++ s.consumer.inHand ++ io.qMessagesIn) = _
    rw [hqueue]
    simp only [ofConn_append, ← List.append_assoc, hattr, ofConn_of_remote hremote]
    by_cases hc : c' = c
    · subst hc
      simp [hacts]
    · simp [hc]

theorem dispatchInv_update {s t : ServerInterface T} {n : Nat} {bWait : Bool}
    (hs : DispatchInv s) (ht : s.step (.update n bWait) = some t) : DispatchInv t := by
  simp only [ServerInterface.step] at ht
  split at ht
  · rename_i hidle
    cases ht
    have hnew : CallState (if bWait then .waiting n else .testing n 0) (⟨n,[]⟩ :: s.calls) := by
      cases bWait with
      | true => exact .waiting
      | false => exact @CallState.testing T ⟨n,[]⟩ s.calls (Nat.zero_le n)
    have hhand : (if bWait then (.waiting n : Consumer T) else .testing n 0).inHand =
        s.consumer.inHand := by
      rw [hidle]
      cases bWait <;> rfl
    refine ⟨hs.conns,hnew,?_,?_,?_⟩
    · exact List.forall_mem_cons.mpr ⟨Nat.zero_le n,hs.bounded⟩
    · intro n' k hpop
      cases bWait <;> cases hpop
    · intro c
      rw [← hs.attributed c]
      simp only [ServerInterface.dispatched, List.reverse_cons, List.flatMap_append,
        List.flatMap_cons, List.flatMap_nil, List.append_nil, hhand]
  · cases ht

omit [EnumId T] in
theorem dispatchInv_consume {s t : ServerInterface T} (hs : DispatchInv s)
    (ht : s.consume = some t) : DispatchInv t := by
  have hkeep := hs
  obtain ⟨hconns,hcall,hbounded,hnonempty,hattr⟩ := hs
  simp only [ServerInterface.consume] at ht
  generalize hcalls : s.calls = calls at hcall hbounded
  generalize hc : s.consumer = consumer at ht hcall hattr
  cases hcall with
  | idle => cases ht
  | @waiting n calls =>
    simp only at ht
    split at ht
    · cases ht
      exact hkeep
    · cases ht
      refine ⟨hconns,?_,?_,by simp,hattr⟩
      · simp only [hcalls]
        exact @CallState.testing T ⟨n,[]⟩ calls (Nat.zero_le n)
      · simpa only [hcalls] using hbounded
  | @testing call calls hle =>
    simp only at ht
    split at ht
    · rename_i hcond
      cases ht
      refine ⟨hconns,?_,?_,?_,hattr⟩
      · simp only [hcalls]
        exact .popping hcond.1
      · simpa only [hcalls] using hbounded
      · intro n k _ hnil
        have hempty : s.qMessagesIn = [] := hnil
        simp [hempty] at hcond
    · cases ht
      refine ⟨hconns,.idle,?_,by simp,hattr⟩
      simpa only [hcalls] using hbounded
  | @popping call calls hlt =>
    cases hq : s.qMessagesIn with
    | nil => simp [hq] at ht
    | cons msg rest =>
      simp only [hq, Option.some.injEq] at ht
      subst ht
      refine ⟨hconns,?_,?_,by simp,?_⟩
      · simp only [hcalls]
        exact .dispatching hlt
      · simpa only [hcalls] using hbounded
      · intro c
        rw [← hattr c, hq]
        simp [ServerInterface.dispatched, Consumer.inHand]
  | @dispatching call calls msg hlt =>
    simp only [Option.some.injEq] at ht
    subst ht
    have hcalls' : ServerInterface.onMessage msg s.calls =
        { call with messages := call.messages ++ [msg] } :: calls := by
      rw [hcalls]
      rfl
    have hlen : (call.messages ++ [msg]).length = call.messages.length + 1 := by simp
    refine ⟨hconns,?_,?_,by simp,?_⟩
    · simp only [hcalls', ← hlen]
      exact @CallState.testing T { call with messages := call.messages ++ [msg] } calls
        (hlen ▸ hlt)
    · simp only [hcalls']
      obtain ⟨-,hrest⟩ := List.forall_mem_cons.mp hbounded
      exact List.forall_mem_cons.mpr ⟨hlen ▸ hlt,hrest⟩
    · intro c
      rw [← hattr c]
      simp [ServerInterface.dispatched, ServerInterface.onMessage, hcalls, Consumer.inHand]

theorem dispatchInv_step {s t : ServerInterface T} {ev : ServerEvent T} (hs : DispatchInv s)
    (ht : s.step ev = some t) : DispatchInv t := by
  cases ev with
  | io c ev => exact dispatchInv_io hs ht
  | update n bWait => exact dispatchInv_update hs ht
  | consumer => exact dispatchInv_consume hs ht

/-- The server as one of its connections sees it, without the others. -/
def ServerInterface.view (c : Nat) (s : ServerInterface T) : Io T :=
  ⟨s.conns c,pushes (s.acts c),s.acts c⟩

omit [EnumId T] in
theorem consume_conns {s t : ServerInterface T} (ht : s.consume = some t) :
    t.conns = s.conns ∧ t.acts = s.acts := by
  simp only [ServerInterface.consume] at ht
  split at ht
  · cases ht
  · cases ht
    split <;> exact ⟨rfl,rfl⟩
  · split at ht <;> cases ht <;> exact ⟨rfl,rfl⟩
  · split at ht <;> cases ht
    exact ⟨rfl,rfl⟩
  · cases ht
    exact ⟨rfl,rfl⟩

/-- An event does the same when the queue holds only what the connection itself pushed. -/
theorem step_alone {conn : Connection T} {q : List (OwnedMessage T)} {acts : List (Act T)}
    {io : Io T} {ev : Event T} (h : (⟨conn,q,acts⟩ : Io T).step ev = some io) :
    (⟨conn,pushes acts,acts⟩ : Io T).step ev = some ⟨io.conn,pushes io.acts,io.acts⟩ := by
  have hbare : ∀ q', (⟨conn,q',acts⟩ : Io T).step ev =
      ((⟨conn,[],acts⟩ : Io T).step ev).map (·.under q' []) := by
    intro q'
    rw [← step_under]
    simp [Io.under]
  rw [hbare] at h
  obtain ⟨u,hu,rfl⟩ := Option.map_eq_some_iff.mp h
  have hstep : (⟨conn,pushes acts,acts⟩ : Io T).step ev = some (u.under (pushes acts) []) := by
    rw [hbare, hu]
    rfl
  have hstart : QueueLogged [] (⟨conn,pushes acts,acts⟩ : Io T) := rfl
  have hlogged : QueueLogged [] (u.under (pushes acts) []) := queueLogged_step hstart hstep
  simp only [QueueLogged, Io.under, List.nil_append] at hlogged
  rw [hstep]
  simp only [Io.under, hlogged, List.nil_append]

theorem view_io {s t : ServerInterface T} {c : Nat} {ev : Event T}
    (ht : s.step (.io c ev) = some t) :
    (s.view c).step ev = some (t.view c) ∧ ∀ c', c' ≠ c → t.view c' = s.view c' := by
  obtain ⟨io,hio,rfl⟩ := Option.map_eq_some_iff.mp ht
  refine ⟨?_,fun c' hc => ?_⟩
  · simpa [ServerInterface.view] using step_alone hio
  · simp [ServerInterface.view, Function.update_of_ne hc]

theorem view_update {s t : ServerInterface T} {n : Nat} {bWait : Bool}
    (ht : s.step (.update n bWait) = some t) (c : Nat) : t.view c = s.view c := by
  simp only [ServerInterface.step] at ht
  split at ht <;> cases ht
  rfl

omit [EnumId T] in
theorem view_consume {s t : ServerInterface T} (ht : s.consume = some t) (c : Nat) :
    t.view c = s.view c := by
  obtain ⟨hconns,hacts⟩ := consume_conns ht
  simp [ServerInterface.view, hconns, hacts]

theorem own_run {s t : ServerInterface T} {as : List (ServerEvent T)} (c : Nat)
    (run : exec ServerInterface.step s as = some t) :
    exec Io.step (s.view c) (as.filterMap (·.own? c)) = some (t.view c) := by
  refine exec_project (·.view c) (·.own? c) ?_ ?_ run
  · intro s ev t own hown ht
    cases ev with
    | io c' ev =>
      simp only [ServerEvent.own?] at hown
      split at hown
      · rename_i hc
        have hev : ev = own := Option.some.inj hown
        subst hc
        subst hev
        exact (view_io ht).1
      · cases hown
    | update n bWait => cases hown
    | consumer => cases hown
  · intro s ev t hown ht
    cases ev with
    | io c' ev =>
      have hc : c ≠ c' := by
        intro h
        simp [ServerEvent.own?, h] at hown
      exact (view_io ht).2 c hc
    | update n bWait => exact view_update ht c
    | consumer => exact view_consume ht c

structure ServerInterface.Ready (s : ServerInterface T) : Prop where
  conns : ∀ c, ∃ now, (s.conns c).ServerSide c now
  qMessagesIn : s.qMessagesIn = []
  consumer : s.consumer = .idle
  calls : s.calls = []
  acts : ∀ c, s.acts c = []

omit [EnumId T] in
theorem dispatchInv_start {s : ServerInterface T} (h : s.Ready) : DispatchInv s := by
  refine ⟨h.conns,h.consumer ▸ .idle,by simp [h.calls],by simp [h.consumer],fun c => ?_⟩
  simp [ServerInterface.dispatched, h.calls, h.consumer, Consumer.inHand, h.qMessagesIn, h.acts,
    OwnedMessage.ofConn, pushes]

/-- In every interleaving of the connections of a server with the calls of `Update`, no pop
finds the queue empty and no call dispatches more than its bound. What is dispatched for a
connection is a prefix of what its own events make it push when it runs alone. -/
theorem dispatched_inOrder {s₀ s : ServerInterface T} {as : List (ServerEvent T)} (h₀ : s₀.Ready)
    (run : exec ServerInterface.step s₀ as = some s) :
    (∀ n k, s.consumer = .popping n k → s.qMessagesIn ≠ []) ∧
    (∀ call ∈ s.calls, call.messages.length ≤ call.bound) ∧
    ∀ c, ∃ own, exec Io.step ⟨s₀.conns c,[],[]⟩ (as.filterMap (·.own? c)) = some own ∧
      OwnedMessage.ofConn c s.dispatched <+: own.qMessagesIn := by
  have hinv : DispatchInv s :=
    exec_invariant (fun _ _ _ => dispatchInv_step) (dispatchInv_start h₀) run
  refine ⟨hinv.nonempty,hinv.bounded,fun c => ⟨s.view c,?_,?_⟩⟩
  · have hown := own_run c run
    rwa [ServerInterface.view, h₀.acts c] at hown
  · have hattr := hinv.attributed c
    rw [List.append_assoc, ofConn_append] at hattr
    exact ⟨_,hattr⟩

theorem dispatched_inOrder_two :
    ∃ s : ServerInterface NetMsgType, exec ServerInterface.step
      { conns := fun c => { Connection.new c .kServer true 5 with reads := [.header] } }
      [.io 1 (.readDone .header [0,0,0,0,0,0,0,0]), .update 1 false, .consumer,
        .io 2 (.readDone .header [1,0,0,0,0,0,0,0]), .consumer, .consumer] = some s ∧
      (∀ call ∈ s.calls, call.messages.length ≤ call.bound) ∧
      s.dispatched = [⟨some 1,⟨⟨.kSeckeyAgree,0⟩,[]⟩⟩] := by
  refine exists_exec rfl fun s run => ⟨?_,?_⟩
  · exact (dispatched_inOrder ⟨fun c => ⟨5,rfl,rfl,rfl,rfl,rfl⟩,rfl,rfl,rfl,fun _ => rfl⟩ run).2.1
  · cases run
    rfl

end TransmissionPlatform.Net
