import TransmissionPlatform.Lib.Program
import TransmissionPlatform.Net.Host

/-!
The accept loop of `ServerInterface`. A handler of `async_accept` is called once; the server
accepts on because the last statement of the handler calls `async_accept` again. An exception
that leaves the handler ends `io_service::run`, and the thread with it.
-/

set_option autoImplicit false

namespace TransmissionPlatform.Net
open StepSystem

/-- What a handler of `async_accept` is called with: an error code, or a socket whose peer may
be gone by then, and the answer that `OnClientConnect` gives for it. -/
inductive AcceptOutcome where
  | error
  | accepted (peerPresent approved : Bool)
  deriving DecidableEq, Repr

def AcceptOutcome.peerGone : AcceptOutcome → Bool
  | .error => false
  | .accepted peerPresent _ => !peerPresent

def AcceptOutcome.hostEvent {T : Type} : AcceptOutcome → Option (HostEvent T)
  | .error => none
  | .accepted _ approved => some (.accept approved)

inductive SystemError where
  | notConnected
  deriving DecidableEq, Repr

structure Acceptor (T : Type) where
  host : Host T
  attempts : Nat := 0
  sockets : List Nat := []
  connected : List Nat := []
  /-- The `async_accept` operations whose handler has not been called. -/
  outstanding : Nat := 0

namespace Acceptor
variable {T : Type}

section Functions

abbrev Handler (T : Type) := EStateM SystemError (Acceptor T)

def waitForClientConnection : Handler T Unit :=
  modify fun s => { s with outstanding := s.outstanding + 1 }

def remoteEndpoint (peerPresent : Bool) : Handler T Unit :=
  if peerPresent then pure () else throw .notConnected

def makeConnection : Handler T Nat := do
  let s ← get
  set { s with host := { s.host with accepted := s.host.accepted + 1 }
               sockets := s.sockets ++ [s.attempts - 1] }
  return s.host.accepted

def pushBack (newconn : Nat) : Handler T Unit :=
  modify fun s =>
    { s with host := { s.host with deqConnections := s.host.deqConnections ++ [some newconn] } }

/-- `m_deqConnections.back()->ConnectToClient(this, nIDCounter++)`. -/
def connectBack : Handler T Unit :=
  modify fun s =>
    match s.host.deqConnections.getLast? with
    | some (some c) =>
      { s with host := { s.host with net := s.host.net.connectToClient c s.host.nIDCounter
                                     nIDCounter := s.host.nIDCounter + 1 }
               connected := s.connected ++ [c] }
    | _ => s

/-- The handler that `WaitForClientConnection` passes to `async_accept`. -/
def acceptHandler : AcceptOutcome → Handler T Unit
  | .error => waitForClientConnection
  | .accepted peerPresent approved => do
    -- the line of the log is written first, and asks the socket for its peer
    remoteEndpoint peerPresent
    let newconn ← makeConnection
    if approved then
      pushBack newconn
      connectBack
    waitForClientConnection

def attempt (outcome : AcceptOutcome) : Handler T Unit := do
  modify fun s => { s with attempts := s.attempts + 1, outstanding := s.outstanding - 1 }
  acceptHandler outcome

def serve (outcomes : List AcceptOutcome) : Handler T Unit := do
  waitForClientConnection
  outcomes.forM attempt

def idle [EnumId T] (now : Nat → UInt64) : Acceptor T := { host := .start now }

variable (s : Acceptor T)

def appendedFor (i : Nat) : Nat :=
  s.host.deqConnections.countP fun client => client.bind (s.sockets[·]?) = some i

def connectedFor (i : Nat) : Nat :=
  s.connected.countP fun c => s.sockets[c]? = some i

end Functions

def due (done : List AcceptOutcome) (i : Nat) : Nat :=
  if done[i]? = some (.accepted true true) then 1 else 0

/-- The server accepts on, and every approved socket has its connection. -/
structure Serving (done : List AcceptOutcome) (s : Acceptor T) : Prop where
  outstanding : s.outstanding = 1
  appended : ∀ i, s.appendedFor i = due done i
  connected : ∀ i, s.connectedFor i = due done i

/-- No handler of the sequence is left by an exception, and after each of them the server
accepts on. -/
def Survives [EnumId T] (now : Nat → UInt64) (outcomes : List AcceptOutcome) : Prop :=
  ∀ done rest, outcomes = done ++ rest →
    ∃ s : Acceptor T, serve done (idle now) = .ok () s ∧ Serving done s

section Handlers
variable (s : Acceptor T)

theorem attempt_error : attempt .error s =
    .ok () { s with attempts := s.attempts + 1, outstanding := s.outstanding - 1 + 1 } := rfl

theorem attempt_peerGone (approved : Bool) : attempt (.accepted false approved) s =
    .error .notConnected
      { s with attempts := s.attempts + 1, outstanding := s.outstanding - 1 } := rfl

theorem attempt_accepted (approved : Bool) : attempt (.accepted true approved) s =
    .ok () { s with host := s.host.accept approved
                    attempts := s.attempts + 1
                    sockets := s.sockets ++ [s.attempts]
                    connected :=
                      if approved then s.connected ++ [s.host.accepted] else s.connected
                    outstanding := s.outstanding - 1 + 1 } := by
  cases approved with
  | false => rfl
  | true =>
    simp [attempt, acceptHandler, remoteEndpoint, makeConnection, pushBack, connectBack]
    rfl

end Handlers

section Runs

structure Inv (done : List AcceptOutcome) (s : Acceptor T) : Prop extends Serving done s where
  attempts : s.attempts = done.length
  sockets : s.sockets.length = s.host.accepted
  entries : ∀ client ∈ s.host.deqConnections, ∃ c, client = some c ∧ c < s.host.accepted
  calls : ∀ c ∈ s.connected, c < s.host.accepted

theorem due_snoc (done : List AcceptOutcome) (outcome : AcceptOutcome) (i : Nat) :
    due (done ++ [outcome]) i =
      due done i + if i = done.length ∧ outcome = .accepted true true then 1 else 0 := by
  unfold due
  obtain hlt | rfl | hgt := Nat.lt_trichotomy i done.length
  · rw [List.getElem?_append_left hlt]
    simp [Nat.ne_of_lt hlt]
  · simp
  · rw [List.getElem?_eq_none (by simp; omega), List.getElem?_eq_none (Nat.le_of_lt hgt)]
    simp [Nat.ne_of_gt hgt]

section Step
variable {done : List AcceptOutcome} {s : Acceptor T} (inv : Inv done s)
include inv

theorem socket_append {c : Nat} (hc : c < s.host.accepted) (n : Nat) :
    (s.sockets ++ [n])[c]? = s.sockets[c]? :=
  List.getElem?_append_left (inv.sockets ▸ hc)

theorem socket_last (n : Nat) : (s.sockets ++ [n])[s.host.accepted]? = some n := by
  rw [← inv.sockets]
  exact List.getElem?_concat_length

theorem appendedFor_append (n i : Nat) :
    s.host.deqConnections.countP (fun client => client.bind ((s.sockets ++ [n])[·]?) = some i) =
      s.appendedFor i := by
  refine List.countP_congr fun client hclient => ?_
  obtain ⟨c,rfl,hc⟩ := inv.entries client hclient
  simp only [Option.bind_some, socket_append inv hc]

theorem connectedFor_append (n i : Nat) :
    s.connected.countP (fun c => (s.sockets ++ [n])[c]? = some i) = s.connectedFor i := by
  refine List.countP_congr fun c hc => ?_
  simp only [socket_append inv (inv.calls c hc)]

theorem inv_error : ∃ t, attempt .error s = .ok () t ∧ Inv (done ++ [.error]) t := by
  have hsame : ∀ i, due (done ++ [.error]) i = due done i := by
    intro i
    simp [due_snoc]
  refine ⟨_,attempt_error s,⟨?_,fun i => ?_,fun i => ?_⟩,?_,inv.sockets,inv.entries,inv.calls⟩
  · simp [inv.outstanding]
  · rw [hsame]
    exact inv.appended i
  · rw [hsame]
    exact inv.connected i
  · simp [inv.attempts]

theorem inv_denied : ∃ t, attempt (.accepted true false) s = .ok () t ∧
    Inv (done ++ [.accepted true false]) t := by
  have hsame : ∀ i, due (done ++ [.accepted true false]) i = due done i := by
    intro i
    simp [due_snoc]
  refine ⟨_,attempt_accepted s false,⟨?_,fun i => ?_,fun i => ?_⟩,?_,?_,?_,?_⟩
  · simp [inv.outstanding]
  · rw [hsame, ← inv.appended]
    exact appendedFor_append inv s.attempts i
  · rw [hsame, ← inv.connected]
    exact connectedFor_append inv s.attempts i
  · simp [inv.attempts]
  · simp [inv.sockets, Host.accept]
  · intro client hclient
    obtain ⟨c,rfl,hc⟩ := inv.entries client hclient
    exact ⟨c,rfl,Nat.lt_succ_of_lt hc⟩
  · intro c hc
    exact Nat.lt_succ_of_lt (inv.calls c hc)

theorem inv_approved : ∃ t, attempt (.accepted true true) s = .ok () t ∧
    Inv (done ++ [.accepted true true]) t := by
  have hlast : (s.sockets ++ [done.length])[s.host.accepted]? = some done.length :=
    socket_last inv done.length
  refine ⟨_,attempt_accepted s true,⟨?_,fun i => ?_,fun i => ?_⟩,?_,?_,?_,?_⟩
  · simp [inv.outstanding]
  · have happended := appendedFor_append inv s.attempts i
    simp only [appendedFor, Host.accept, if_true, List.countP_append, due_snoc]
    rw [happended, inv.appended]
    simp [inv.attempts, hlast, eq_comm]
  · have hconnected := connectedFor_append inv s.attempts i
    simp only [connectedFor, if_true, List.countP_append, due_snoc]
    rw [hconnected, inv.connected]
    simp [inv.attempts, hlast, eq_comm]
  · simp [inv.attempts]
  · simp [inv.sockets, Host.accept]
  · intro client hclient
    obtain hclient | hclient := List.mem_append.mp hclient
    · obtain ⟨c,rfl,hc⟩ := inv.entries client hclient
      exact ⟨c,rfl,Nat.lt_succ_of_lt hc⟩
    · exact ⟨s.host.accepted,List.mem_singleton.mp hclient,Nat.lt_succ_self _⟩
  · intro c hc
    obtain hc | hc := List.mem_append.mp hc
    · exact Nat.lt_succ_of_lt (inv.calls c hc)
    · obtain rfl := List.mem_singleton.mp hc
      exact Nat.lt_succ_self s.host.accepted

theorem inv_attempt {outcome : AcceptOutcome} (h : outcome.peerGone = false) :
    ∃ t, attempt outcome s = .ok () t ∧ Inv (done ++ [outcome]) t := by
  cases outcome with
  | error => exact inv_error inv
  | accepted peerPresent approved =>
    cases peerPresent with
    | false => cases h
    | true =>
      cases approved with
      | false => exact inv_denied inv
      | true => exact inv_approved inv

end Step

theorem serve_snoc (done : List AcceptOutcome) (outcome : AcceptOutcome) :
    (serve (done ++ [outcome]) : Handler T Unit) =
      (serve done >>= fun _ => attempt outcome) := by
  simp [serve, List.forM_append]

variable [EnumId T] {now : Nat → UInt64}

theorem inv_serve {done : List AcceptOutcome} (h : ∀ outcome ∈ done, outcome.peerGone = false) :
    ∃ s : Acceptor T, serve done (idle now) = .ok () s ∧ Inv done s := by
  induction done using List.reverseRecOn with
  | nil =>
    refine ⟨_,rfl,⟨rfl,fun i => rfl,fun i => rfl⟩,rfl,rfl,?_,?_⟩
    · intro client hclient
      cases hclient
    · intro c hc
      cases hc
  | append_singleton done outcome ih =>
    obtain ⟨s,hs,inv⟩ := ih fun o ho => h o (List.mem_append_left _ ho)
    obtain ⟨t,ht,inv'⟩ := inv_attempt inv (h outcome (by simp))
    refine ⟨t,?_,inv'⟩
    rw [serve_snoc, Program.bind_ok hs, ht]

end Runs

theorem exec_of_serve [EnumId T] {now : Nat → UInt64} {done : List AcceptOutcome}
    {s : Acceptor T} (hs : serve done (idle now) = .ok () s) :
    exec Host.step (.start now) (done.filterMap AcceptOutcome.hostEvent) = some s.host := by
  induction done using List.reverseRecOn generalizing s with
  | nil =>
    cases hs
    rfl
  | append_singleton done outcome ih =>
    rw [serve_snoc] at hs
    cases hdone : (serve done : Handler T Unit) (idle now) with
    | error e t =>
      rw [Program.bind_error hdone] at hs
      cases hs
    | ok u t =>
      rw [Program.bind_ok hdone] at hs
      rw [List.filterMap_append, exec_append, ih hdone]
      cases outcome with
      | error =>
        cases hs
        rfl
      | accepted peerPresent approved =>
        cases peerPresent with
        | false => cases hs
        | true =>
          rw [attempt_accepted] at hs
          cases hs
          rfl

/-- The first handler whose peer is gone ends the loop, and no other one does. -/
theorem survives_iff [EnumId T] (now : Nat → UInt64) (outcomes : List AcceptOutcome) :
    Survives (T := T) now outcomes ↔ ∀ outcome ∈ outcomes, outcome.peerGone = false := by
  constructor
  · intro h outcome hmem
    obtain ⟨done,rest,rfl⟩ := List.append_of_mem hmem
    obtain ⟨s,hs,-⟩ := h done (outcome :: rest) rfl
    obtain ⟨t,ht,-⟩ := h (done ++ [outcome]) rest (by simp)
    rw [serve_snoc, Program.bind_ok hs] at ht
    cases outcome with
    | error => rfl
    | accepted peerPresent approved =>
      cases peerPresent with
      | true => rfl
      | false =>
        rw [attempt_peerGone] at ht
        cases ht
  · intro h done rest hdone
    have hpresent : ∀ outcome ∈ done, outcome.peerGone = false := by
      intro outcome hmem
      exact h outcome (hdone ▸ List.mem_append_left rest hmem)
    have hserve : ∃ s : Acceptor T, serve done (idle now) = .ok () s ∧ Inv done s :=
      inv_serve hpresent
    obtain ⟨s,hs,inv⟩ := hserve
    exact ⟨s,hs,inv.toServing⟩

theorem survives_not : ¬ ∀ (now : Nat → UInt64) (outcomes : List AcceptOutcome),
    Survives (T := NetMsgType) now outcomes := by
  intro h
  obtain ⟨s,hs,-⟩ := h 0 [.accepted false true] [.accepted false true] [] rfl
  cases hs

end Acceptor

end TransmissionPlatform.Net
