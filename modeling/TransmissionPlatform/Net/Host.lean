import TransmissionPlatform.Net.Clients
import TransmissionPlatform.Net.Dispatch
import TransmissionPlatform.Net.Sending

/-!
The server as a whole: the connections and `Update` of `ServerInterface`, the container of its
clients, the tasks that `asio::post` gives to the io_service, and the pool of workers that
`OnMessage` posts to. The io thread runs posted tasks in the order in which they were posted.
-/

set_option autoImplicit false

namespace TransmissionPlatform.Net
open StepSystem

/-- A task that a connection posts to the io_service. It captures `this` and owns nothing. -/
inductive Posted (T : Type) where
  | send (client : Nat) (msg : Message T)
  | close (client : Nat)

def Posted.client {T : Type} : Posted T → Nat
  | .send client _ | .close client => client

def Posted.event {T : Type} : Posted T → Event T
  | .send _ msg => .sendTask msg
  | .close _ => .closeTask

/-- `Server::Work` bound to a client and a copy of its message. `index` is the number of the
client's messages that came to `OnMessage` before. -/
structure Task (T : Type) where
  client : Nat
  msg : Message T
  index : Nat
  replied : Bool := false

structure Sent (T : Type) where
  client : Nat
  msg : Message T
  reply : Option Nat := none

structure Host (T : Type) where
  net : ServerInterface T
  deqConnections : List ConnectionPtr := []
  accepted : Nat := 0
  nIDCounter : UInt32 := 10000
  posted : List (Posted T) := []
  queued : List (Task T) := []
  running : List (Task T) := []
  sent : List (Sent T) := []

inductive HostEvent (T : Type) where
  | accept (approved : Bool)
  | io (c : Nat) (ev : Event T)
  | task
  | update (n : Nat) (bWait : Bool)
  | consumer
  | workerStart
  | workerSend (i : Nat) (msg : Message T)
  | workerEnd (i : Nat)
  | send (client : Nat) (msg : Message T)
  | disconnect (client : Nat)
  | messageClient (client : Nat) (msg : Message T)
  | messageAllClients (msg : Message T) (pIgnoreClient : ConnectionPtr)

def ServerInterface.connectToClient {T : Type} (c : Nat) (uid : UInt32) (s : ServerInterface T) :
    ServerInterface T :=
  let io := (⟨s.conns c,s.qMessagesIn,s.acts c⟩ : Io T).connectToClient uid
  { s with conns := Function.update s.conns c io.conn
           qMessagesIn := io.qMessagesIn
           acts := Function.update s.acts c io.acts }

namespace Host

section Functions
variable {T : Type} (h : Host T)

def workers : Nat := 4

/-- Before the first connection. `now c` is what the constructor of connection `c` will read
from the clock. -/
def start [EnumId T] (now : Nat → UInt64) : Host T :=
  { net := { conns := fun c => .new c .kServer true (now c) } }

def isOpen (c : Nat) : Bool := (h.net.conns c).isOpen

def tasks : List (Task T) := h.running ++ h.queued

/-- The references to a connection: in the container, in the queue or in the hands of
`Update`, and in the tasks of the pool. -/
def owners (c : Nat) : Nat :=
  h.deqConnections.count (some c) +
    (h.net.consumer.inHand ++ h.net.qMessagesIn).countP (·.remote = some c) +
    h.tasks.countP (·.client = c)

/-- The callbacks of a connection that are still to run. -/
def pending (c : Nat) : Nat :=
  (h.net.conns c).reads.length + (h.net.conns c).writes.length + h.posted.countP (·.client = c)

def accept (approved : Bool) : Host T :=
  if approved then
    { h with accepted := h.accepted + 1
             deqConnections := h.deqConnections ++ [some h.accepted]
             net := h.net.connectToClient h.accepted h.nIDCounter
             nIDCounter := h.nIDCounter + 1 }
  else { h with accepted := h.accepted + 1 }

def onMessage : List (Task T) :=
  match h.net.consumer with
  | .dispatching _ _ item =>
    match item.remote with
    | none => []
    | some c => [⟨c,item.msg,(OwnedMessage.ofConn c h.net.dispatched).length,false⟩]
  | _ => []

/-- What a call posts. `OnClientDisconnect` is `client->Disconnect()`. -/
def posts : ClientCall T → List (Posted T)
  | .send c msg => [.send c msg]
  | .onClientDisconnect none => []
  | .onClientDisconnect (some c) => if h.isOpen c then [.close c] else []

def sends : ClientCall T → List (Sent T)
  | .send c msg => [⟨c,msg,none⟩]
  | .onClientDisconnect _ => []

def isNullCall : ClientCall T → Bool
  | .onClientDisconnect none => true
  | _ => false

/-- The calls that a function of the server makes for its clients, and the container it
leaves. Who calls it for a client has a reference to that client. -/
def called : HostEvent T → Option (Clients T)
  | .send c msg => if 0 < h.owners c then some ⟨h.deqConnections,[.send c msg]⟩ else none
  | .disconnect c =>
    if 0 < h.owners c then some ⟨h.deqConnections,[.onClientDisconnect (some c)]⟩ else none
  | .messageClient c msg =>
    if 0 < h.owners c then some (Clients.messageClient h.isOpen (some c) msg ⟨h.deqConnections,[]⟩)
    else none
  | .messageAllClients msg pIgnoreClient =>
    some (Clients.messageAllClients h.isOpen msg pIgnoreClient ⟨h.deqConnections,[]⟩)
  | _ => none

def after (r : Clients T) : Host T :=
  { h with posted := h.posted ++ r.calls.flatMap h.posts
           sent := h.sent ++ r.calls.flatMap sends
           deqConnections := r.deqConnections }

end Functions

/-- What a called function does: whom it sends to, which sockets it has closed, and which
entries stay in the container. -/
structure CallEffects {T : Type} (h : Host T) (ev : HostEvent T) (r : Clients T) : Prop where
  sends : ∀ c msg, .send c msg ∈ r.calls.flatMap h.posts →
    ev = .send c msg ∨
    (ev = .messageClient c msg ∧ 0 < h.owners c ∧ h.isOpen c = true) ∨
    ∃ pIgnoreClient, ev = .messageAllClients msg pIgnoreClient ∧ some c ∈ h.deqConnections ∧
      h.isOpen c = true ∧ some c ≠ pIgnoreClient
  closes : ∀ c, .close c ∈ r.calls.flatMap h.posts → 0 < h.owners c ∧ h.isOpen c = true
  keeps : ∀ c, some c ∈ h.deqConnections →
    some c ∈ r.deqConnections ∨ (∃ msg pIgnoreClient, ev = .messageAllClients msg pIgnoreClient) ∧
      h.isOpen c = false

section Calls
variable {T : Type} {h : Host T}

theorem send_mem_posts {c : Nat} {msg : Message T} {calls : List (ClientCall T)}
    (hp : .send c msg ∈ calls.flatMap h.posts) : .send c msg ∈ calls := by
  obtain ⟨call,hcall,hp⟩ := List.mem_flatMap.mp hp
  cases call with
  | send c' msg' =>
    cases List.mem_singleton.mp hp
    exact hcall
  | onClientDisconnect client =>
    cases client with
    | none => cases hp
    | some c' =>
      simp only [posts] at hp
      split at hp
      · cases List.mem_singleton.mp hp
      · cases hp

theorem close_mem_posts {c : Nat} {calls : List (ClientCall T)}
    (hp : .close c ∈ calls.flatMap h.posts) :
    .onClientDisconnect (some c) ∈ calls ∧ h.isOpen c = true := by
  obtain ⟨call,hcall,hp⟩ := List.mem_flatMap.mp hp
  cases call with
  | send c' msg' => cases List.mem_singleton.mp hp
  | onClientDisconnect client =>
    cases client with
    | none => cases hp
    | some c' =>
      simp only [posts] at hp
      split at hp
      · rename_i hopen
        cases List.mem_singleton.mp hp
        exact ⟨hcall,hopen⟩
      · cases hp

theorem callEffects_messageClient (c : Nat) (msg : Message T) (howned : 0 < h.owners c) :
    CallEffects h (.messageClient c msg)
      (Clients.messageClient h.isOpen (some c) msg ⟨h.deqConnections,[]⟩) := by
  cases hopen : h.isOpen c with
  | true =>
    rw [Clients.messageClient_open h.isOpen hopen]
    refine ⟨fun c' msg' hp => ?_,fun c' hp => ?_,fun c' hc => .inl hc⟩
    · cases List.mem_singleton.mp (send_mem_posts hp)
      exact .inr (.inl ⟨rfl,howned,hopen⟩)
    · cases List.mem_singleton.mp (close_mem_posts hp).1
  | false =>
    rw [Clients.messageClient_closed h.isOpen hopen]
    refine ⟨fun c' msg' hp => ?_,fun c' hp => ?_,fun c' hc => ?_⟩
    · cases List.mem_singleton.mp (send_mem_posts hp)
    · obtain ⟨hcall,hopen'⟩ := close_mem_posts hp
      cases List.mem_singleton.mp hcall
      exact absurd (hopen.symm.trans hopen') (by simp)
    · exact .inl (List.mem_filter.mpr ⟨hc,by simp⟩)

theorem callEffects_messageAllClients (msg : Message T) (pIgnoreClient : ConnectionPtr) :
    CallEffects h (.messageAllClients msg pIgnoreClient)
      (Clients.messageAllClients h.isOpen msg pIgnoreClient ⟨h.deqConnections,[]⟩) := by
  refine ⟨fun c msg' hp => ?_,fun c hp => ?_,fun c hc => ?_⟩
  · obtain ⟨c',hcall,hclient,hopen,hne⟩ | ⟨client,-,hcall,-⟩ :=
      Clients.mem_messageAllClients_calls h.isOpen (send_mem_posts hp)
    · cases hcall
      exact .inr (.inr ⟨pIgnoreClient,rfl,hclient,hopen,hne⟩)
    · cases hcall
  · obtain ⟨hcall,hopen⟩ := close_mem_posts hp
    obtain ⟨c',hcall,-⟩ | ⟨client,-,hcall,hclosed⟩ :=
      Clients.mem_messageAllClients_calls h.isOpen hcall
    · cases hcall
    · cases hcall
      exact absurd (hclosed.symm.trans hopen) (by simp)
  · rw [Clients.messageAllClients_deqConnections]
    cases hopen : h.isOpen c with
    | true => exact .inl (List.mem_filter.mpr ⟨hc,hopen⟩)
    | false => exact .inr ⟨⟨msg,pIgnoreClient,rfl⟩,rfl⟩

theorem callEffects_called {ev : HostEvent T} {r : Clients T} (hr : h.called ev = some r) :
    h.CallEffects ev r := by
  cases ev with
  | send c msg =>
    simp only [called] at hr
    split at hr <;> cases hr
    refine ⟨fun c' msg' hp => ?_,fun c' hp => ?_,fun _ hc => .inl hc⟩
    · cases List.mem_singleton.mp (send_mem_posts hp)
      exact .inl rfl
    · cases List.mem_singleton.mp (close_mem_posts hp).1
  | disconnect c =>
    simp only [called] at hr
    split at hr <;> cases hr
    rename_i howned
    refine ⟨fun c' msg' hp => ?_,fun c' hp => ?_,fun _ hc => .inl hc⟩
    · cases List.mem_singleton.mp (send_mem_posts hp)
    · obtain ⟨hcall,hopen⟩ := close_mem_posts hp
      cases List.mem_singleton.mp hcall
      exact ⟨howned,hopen⟩
  | messageClient c msg =>
    simp only [called] at hr
    split at hr <;> cases hr
    rename_i howned
    exact callEffects_messageClient c msg howned
  | messageAllClients msg pIgnoreClient =>
    cases hr
    exact callEffects_messageAllClients msg pIgnoreClient
  | _ => cases hr

end Calls

section Steps
variable {T : Type} [EnumId T] (h : Host T)

/-- `none` when the step is not possible, or goes through a null pointer. -/
def step : HostEvent T → Option (Host T)
  | .accept approved => some (h.accept approved)
  | .io c ev =>
    if ev.isTask then none else (h.net.step (.io c ev)).map fun net => { h with net := net }
  | .task =>
    match h.posted with
    | [] => none
    | p :: rest =>
      (h.net.step (.io p.client p.event)).map fun net => { h with net := net, posted := rest }
  | .update n bWait => (h.net.step (.update n bWait)).map fun net => { h with net := net }
  | .consumer =>
    (h.net.step .consumer).map fun net => { h with net := net, queued := h.queued ++ h.onMessage }
  | .workerStart =>
    match h.queued with
    | [] => none
    | t :: rest =>
      if h.running.length < workers then some { h with queued := rest, running := h.running ++ [t] }
      else none
  | .workerSend i msg =>
    match h.running[i]? with
    | none => none
    | some t =>
      if t.replied then none
      else
        some { h with running := h.running.set i { t with replied := true }
                      posted := h.posted ++ [.send t.client msg]
                      sent := h.sent ++ [⟨t.client,msg,some t.index⟩] }
  | .workerEnd i =>
    if i < h.running.length then some { h with running := h.running.eraseIdx i } else none
  | ev =>
    match h.called ev with
    | none => none
    | some r => if r.calls.any isNullCall then none else some (h.after r)

/-- What a step can do, said once. -/
inductive Moves (h : Host T) : HostEvent T → Host T → Prop where
  | accept (approved : Bool) : Moves h (.accept approved) (h.accept approved)
  | io {c : Nat} {ev : Event T} {net : ServerInterface T} (completion : ev.isTask = false)
      (step : h.net.step (.io c ev) = some net) : Moves h (.io c ev) { h with net := net }
  | task {p : Posted T} {rest : List (Posted T)} {net : ServerInterface T}
      (head : h.posted = p :: rest) (step : h.net.step (.io p.client p.event) = some net) :
      Moves h .task { h with net := net, posted := rest }
  | update {n : Nat} {bWait : Bool} {net : ServerInterface T}
      (step : h.net.step (.update n bWait) = some net) :
      Moves h (.update n bWait) { h with net := net }
  | consumer {net : ServerInterface T} (step : h.net.consume = some net) :
      Moves h .consumer { h with net := net, queued := h.queued ++ h.onMessage }
  | workerStart {t : Task T} {rest : List (Task T)} (head : h.queued = t :: rest) :
      Moves h .workerStart { h with queued := rest, running := h.running ++ [t] }
  | workerSend {i : Nat} {msg : Message T} {t : Task T} (task : h.running[i]? = some t)
      (first : t.replied = false) :
      Moves h (.workerSend i msg)
        { h with running := h.running.set i { t with replied := true }
                 posted := h.posted ++ [.send t.client msg]
                 sent := h.sent ++ [⟨t.client,msg,some t.index⟩] }
  | workerEnd {i : Nat} :
      Moves h (.workerEnd i) { h with running := h.running.eraseIdx i }
  | called {ev : HostEvent T} {r : Clients T} (calls : h.called ev = some r) :
      Moves h ev (h.after r)

theorem moves_step {h' : Host T} {ev : HostEvent T} (ht : h.step ev = some h') :
    Moves h ev h' := by
  have hcalled : ∀ ev, (match h.called ev with
      | none => none
      | some r => if r.calls.any isNullCall then none else some (h.after r)) = some h' →
      Moves h ev h' := by
    intro ev ht
    split at ht
    · cases ht
    · split at ht
      · cases ht
      · cases ht
        exact .called ‹_›
  cases ev with
  | accept approved =>
    cases ht
    exact .accept approved
  | io c ev =>
    simp only [step] at ht
    split at ht
    · cases ht
    · rename_i completion
      obtain ⟨net,hnet,rfl⟩ := Option.map_eq_some_iff.mp ht
      exact .io (Bool.not_eq_true _ ▸ completion) hnet
  | task =>
    simp only [step] at ht
    split at ht
    · cases ht
    · rename_i p rest head
      obtain ⟨net,hnet,rfl⟩ := Option.map_eq_some_iff.mp ht
      exact .task head hnet
  | update n bWait =>
    obtain ⟨net,hnet,rfl⟩ := Option.map_eq_some_iff.mp ht
    exact .update hnet
  | consumer =>
    obtain ⟨net,hnet,rfl⟩ := Option.map_eq_some_iff.mp ht
    exact .consumer hnet
  | workerStart =>
    simp only [step] at ht
    split at ht
    · cases ht
    · rename_i t rest head
      split at ht
      · cases ht
        exact .workerStart head
      · cases ht
  | workerSend i msg =>
    simp only [step] at ht
    split at ht
    · cases ht
    · rename_i t task
      split at ht
      · cases ht
      · rename_i first
        cases ht
        exact .workerSend task (Bool.not_eq_true _ ▸ first)
  | workerEnd i =>
    simp only [step] at ht
    split at ht <;> cases ht
    exact .workerEnd
  | send c msg => exact hcalled _ ht
  | disconnect c => exact hcalled _ ht
  | messageClient c msg => exact hcalled _ ht
  | messageAllClients msg pIgnoreClient => exact hcalled _ ht

end Steps

end Host

section Connections
variable {T : Type}

theorem Io.connectToClient_cases (uid : UInt32) (s : Io T) :
    s.connectToClient uid = s ∨
    s.connectToClient uid =
      { s with
          conn := { s.conn with id := uid, writes := s.conn.writes ++ [.validation]
                                reads := s.conn.reads ++ [.validation] }
          acts := s.acts ++ [.asyncWrite .validation (LittleEndian.ofUInt64 s.conn.nHandshakeOut),
                             .asyncRead .validation] } := by
  unfold Io.connectToClient
  cases s.conn.nOwnerType with
  | kClient => exact .inl rfl
  | kServer =>
    cases s.conn.isOpen with
    | false => exact .inl rfl
    | true =>
      right
      simp [Io.writeValidation, Io.readValidation, Io.asyncWrite, Io.asyncRead]

structure Greeted (s t : Io T) : Prop where
  side : ∀ me now, s.conn.ServerSide me now → t.conn.ServerSide me now
  queue : t.qMessagesIn = s.qMessagesIn
  pushed : pushes t.acts = pushes s.acts
  outgoing : t.outgoing = s.outgoing
  validated : .onClientValidated ∈ t.acts → .onClientValidated ∈ s.acts
  reads : ∀ op ∈ t.conn.reads, op ∈ s.conn.reads ∨ op = .validation

theorem greeted_connectToClient (uid : UInt32) (s : Io T) : Greeted s (s.connectToClient uid) := by
  obtain heq | heq := Io.connectToClient_cases uid s
  · rw [heq]
    exact ⟨fun _ _ => id,rfl,rfl,rfl,id,fun op => .inl⟩
  · rw [heq]
    refine ⟨?_,rfl,?_,?_,?_,?_⟩
    · intro me now hside
      exact ⟨hside.self_eq,hside.owner,hside.connecting,hside.handshakeOut,hside.handshakeCheck⟩
    · simp [pushes]
    · simp [Io.outgoing, Connection.messageWrites, messageBuffers, handed, WriteOp.isMessage]
    · simp
    · simp

def ServerInterface.items (s : ServerInterface T) : List (OwnedMessage T) :=
  s.consumer.inHand ++ s.qMessagesIn

theorem items_onMessage {h : Host T} {t : Task T} (ht : t ∈ h.onMessage) :
    ∃ item ∈ h.net.items, item.remote = some t.client := by
  unfold Host.onMessage at ht
  split at ht
  · rename_i n k item hc
    split at ht
    · cases ht
    · rename_i c hremote
      obtain rfl := List.mem_singleton.mp ht
      exact ⟨item,by simp [ServerInterface.items, hc, Consumer.inHand],hremote⟩
  · cases ht

theorem tasks_moves [EnumId T] {h h' : Host T} {ev : HostEvent T} (m : h.Moves ev h') :
    ∀ t ∈ h'.tasks, (∃ t' ∈ h.tasks, t'.client = t.client) ∨ t ∈ h.onMessage := by
  have old : ∀ t ∈ h.tasks, (∃ t' ∈ h.tasks, t'.client = t.client) ∨ t ∈ h.onMessage :=
    fun t ht => .inl ⟨t,ht,rfl⟩
  cases m with
  | accept approved => cases approved <;> exact old
  | io completion step => exact old
  | task head step => exact old
  | update step => exact old
  | consumer step =>
    intro t ht
    simp only [Host.tasks, ← List.append_assoc] at ht
    exact (List.mem_append.mp ht).elim (old t) .inr
  | @workerStart t rest head =>
    have hsame : h.running ++ [t] ++ rest = h.tasks := by simp [Host.tasks, head]
    simpa only [Host.tasks, hsame] using old
  | @workerSend i msg t task first =>
    intro t' ht'
    obtain ht' | ht' := List.mem_append.mp ht'
    · obtain hmem | rfl := List.mem_or_eq_of_mem_set ht'
      · exact old t' (List.mem_append_left _ hmem)
      · exact .inl ⟨t,List.mem_append_left _ (List.mem_of_getElem? task),rfl⟩
    · exact old t' (List.mem_append_right _ ht')
  | workerEnd =>
    intro t ht
    refine old t ?_
    obtain ht | ht := List.mem_append.mp ht
    · exact List.mem_append_left _ (List.mem_of_mem_eraseIdx ht)
    · exact List.mem_append_right _ ht
  | called calls => exact old

theorem view_connectToClient (s : ServerInterface T) (c : Nat) (uid : UInt32) :
    (s.connectToClient c uid).view c = (s.view c).connectToClient uid ∧
      ∀ c', c' ≠ c → (s.connectToClient c uid).view c' = s.view c' := by
  refine ⟨?_,fun c' hc => ?_⟩
  · have hpushed := (greeted_connectToClient uid
      (⟨s.conns c,s.qMessagesIn,s.acts c⟩ : Io T)).pushed
    simp only [ServerInterface.view, ServerInterface.connectToClient, Function.update_self,
      hpushed]
    cases howner : (s.conns c).nOwnerType with
    | kClient => simp [Io.connectToClient, howner]
    | kServer =>
      cases hopen : (s.conns c).isOpen <;>
        simp [Io.connectToClient, howner, hopen, Io.writeValidation, Io.readValidation,
          Io.asyncWrite, Io.asyncRead]
  · simp [ServerInterface.view, ServerInterface.connectToClient, Function.update_of_ne hc]

theorem dispatchInv_connectToClient {s : ServerInterface T} (hs : DispatchInv s) (c : Nat)
    (uid : UInt32) : DispatchInv (s.connectToClient c uid) := by
  have hgreeted := greeted_connectToClient uid (⟨s.conns c,s.qMessagesIn,s.acts c⟩ : Io T)
  refine ⟨?_,hs.call,hs.bounded,?_,?_⟩
  · intro c'
    obtain ⟨now,hside⟩ := hs.conns c'
    by_cases hc : c' = c
    · subst hc
      exact ⟨now,by simpa [ServerInterface.connectToClient] using hgreeted.side _ _ hside⟩
    · exact ⟨now,by simpa [ServerInterface.connectToClient, Function.update_of_ne hc] using hside⟩
  · intro n k hpop
    simpa [ServerInterface.connectToClient, hgreeted.queue] using hs.nonempty n k hpop
  · intro c'
    have hattr := hs.attributed c'
    have hsame : pushes ((s.connectToClient c uid).acts c') = pushes (s.acts c') := by
      by_cases hc : c' = c
      · subst hc
        simpa [ServerInterface.connectToClient] using hgreeted.pushed
      · simp [ServerInterface.connectToClient, Function.update_of_ne hc]
    rw [hsame, ← hattr]
    simp only [ServerInterface.connectToClient, ServerInterface.dispatched, hgreeted.queue]

variable [EnumId T]

theorem dispatchInv_moves {h h' : Host T} {ev : HostEvent T} (hs : DispatchInv h.net)
    (m : h.Moves ev h') : DispatchInv h'.net := by
  cases m with
  | accept approved =>
    cases approved with
    | true => exact dispatchInv_connectToClient hs _ _
    | false => exact hs
  | io completion step => exact dispatchInv_io hs step
  | task head step => exact dispatchInv_io hs step
  | update step => exact dispatchInv_update hs step
  | consumer step => exact dispatchInv_consume hs step
  | workerStart head => exact hs
  | workerSend task first => exact hs
  | workerEnd => exact hs
  | called calls => exact hs

theorem dispatchInv_hostStart (now : Nat → UInt64) : DispatchInv (Host.start now : Host T).net :=
  dispatchInv_start ⟨fun c => ⟨now c,rfl,rfl,rfl,rfl,rfl⟩,rfl,rfl,rfl,fun _ => rfl⟩

end Connections

end TransmissionPlatform.Net
