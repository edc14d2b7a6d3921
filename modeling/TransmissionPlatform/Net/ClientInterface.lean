import TransmissionPlatform.Net.ClientHandshake

/-!
`ClientInterface` with its `m_service` and the threads that run it. `Connect` starts a thread for
each connection, and `Disconnect` stops the service for good: nothing restarts it.
-/

set_option autoImplicit false

namespace TransmissionPlatform.Net
open StepSystem

/-- A thread of `Connect`: before its call of `run()`, in it, or behind it. -/
inductive IoThread where
  | starting | running | returned
  deriving DecidableEq, Repr

inductive Caller where
  | outside
  | assigning
  | joining
  deriving DecidableEq, Repr

structure ClientInterface (T : Type) where
  /-- `m_service` is in the stopped state. -/
  stopped : Bool := false
  m_connection : Option (Io T) := none
  m_qMessagesIn : List (OwnedMessage T) := []
  posted : List (Event T) := []
  /-- How many handlers and tasks of deleted connections `m_service` still has. -/
  leftover : Nat := 0
  thrIOService : Option IoThread := none
  newThread : Option IoThread := none
  caller : Caller := .outside

inductive Which where
  | thrIOService | newThread
  deriving DecidableEq, Repr

inductive InterfaceEvent (T : Type) where
  /-- `Connect`; whether the host is resolved. -/
  | connect (resolved : Bool)
  | assigned
  | disconnect
  | joined
  | send (msg : Message T)
  | run (w : Which)
  | handler (ev : Event T)
  | task
  | leftover
  /-- The thread finds no work: the service is stopped, and `run()` returns. -/
  | dry (w : Which)
  | leave (w : Which)
  deriving DecidableEq, Repr

def InterfaceEvent.stops {T : Type} : InterfaceEvent T → Bool
  | .disconnect | .dry _ => true
  | _ => false

def InterfaceEvent.isTurn {T : Type} : InterfaceEvent T → Bool
  | .handler _ | .task | .leftover => true
  | _ => false

def Io.outstanding {T : Type} (io : Io T) : Nat :=
  (if io.conn.connecting then 1 else 0) + io.conn.reads.length + io.conn.writes.length

namespace ClientInterface
variable {T : Type}

section Functions
variable (s : ClientInterface T)

def isOpen : Bool :=
  match s.m_connection with
  | some io => io.conn.isOpen
  | none => false

def isConnect : Bool :=
  match s.m_connection with
  | some io => io.conn.connectionFlag
  | none => false

def thread : Which → Option IoThread
  | .thrIOService => s.thrIOService
  | .newThread => s.newThread

def setThread (w : Which) (t : IoThread) : ClientInterface T :=
  match w with
  | .thrIOService => { s with thrIOService := some t }
  | .newThread => { s with newThread := some t }

def work : Nat := (s.m_connection.elim 0 Io.outstanding) + s.posted.length + s.leftover

/-- The connection object is deleted. Its operations and tasks stay with the service. -/
def dropConnection : ClientInterface T :=
  match s.m_connection with
  | none => s
  | some io =>
    { s with m_connection := none, m_qMessagesIn := io.qMessagesIn, posted := []
             leftover := s.leftover + io.outstanding + s.posted.length }

/-- `Connect` up to the assignment of the new thread. -/
def connect [EnumId T] (resolved : Bool) : ClientInterface T :=
  if resolved then
    let s := s.dropConnection
    { s with m_connection := some (Io.connectToServer ⟨.new 0 .kClient false 0,s.m_qMessagesIn,[]⟩)
             newThread := some .starting, caller := .assigning }
  else s

/-- `Disconnect` up to the join. -/
def disconnect : ClientInterface T :=
  { s with posted := if s.isOpen then s.posted ++ [.closeTask] else s.posted
           stopped := true, caller := .joining }

def finished : Bool :=
  match s.thrIOService with
  | none | some .returned => true
  | _ => false

def serves : Bool :=
  !s.stopped && (s.thrIOService == some .running || s.newThread == some .running)

def turn [EnumId T] (ev : Event T) : Option (ClientInterface T) :=
  match s.m_connection with
  | none => none
  | some io => (io.step ev).map fun io => { s with m_connection := some io }

end Functions

def step [EnumId T] (s : ClientInterface T) : InterfaceEvent T → Option (ClientInterface T)
  | .connect resolved => if s.caller = .outside then some (s.connect resolved) else none
  | .assigned =>
    if s.caller = .assigning ∧ s.finished then
      some { s with thrIOService := s.newThread, newThread := none, caller := .outside }
    else none
  | .disconnect => if s.caller = .outside then some s.disconnect else none
  | .joined =>
    if s.caller = .joining ∧ s.finished then
      some { s.dropConnection with thrIOService := none, caller := .outside }
    else none
  | .send msg =>
    if s.caller = .outside then
      some (if s.isOpen then { s with posted := s.posted ++ [.sendTask msg] } else s)
    else none
  | .run w =>
    if s.thread w = some .starting then
      some (s.setThread w (if s.stopped then .returned else .running))
    else none
  | .handler ev => if s.serves ∧ ev.isTask = false then s.turn ev else none
  | .task =>
    match s.posted with
    | [] => none
    | ev :: rest => if s.serves then turn { s with posted := rest } ev else none
  | .leftover =>
    if s.serves ∧ 0 < s.leftover then some { s with leftover := s.leftover - 1 } else none
  | .dry w =>
    if s.stopped = false ∧ s.thread w = some .running ∧ s.work = 0 then
      some { s.setThread w .returned with stopped := true }
    else none
  | .leave w =>
    if s.stopped ∧ s.thread w = some .running then some (s.setThread w .returned) else none

@[simp] theorem stopped_setThread (s : ClientInterface T) (w : Which) (t : IoThread) :
    (s.setThread w t).stopped = s.stopped := by
  cases w <;> rfl

@[simp] theorem stopped_dropConnection (s : ClientInterface T) :
    s.dropConnection.stopped = s.stopped := by
  unfold dropConnection
  split <;> rfl

variable [EnumId T] {s t : ClientInterface T}

theorem stopped_turn {ev : Event T} (ht : s.turn ev = some t) : t.stopped = s.stopped := by
  simp only [turn] at ht
  split at ht
  · cases ht
  · obtain ⟨io,-,rfl⟩ := Option.map_eq_some_iff.mp ht
    rfl

theorem stopped_step {ev : InterfaceEvent T} (ht : s.step ev = some t) :
    t.stopped = (s.stopped || ev.stops) := by
  cases ev with
  | connect resolved =>
    simp only [step] at ht
    split at ht <;> cases ht
    cases resolved <;> simp [connect, InterfaceEvent.stops]
  | assigned | run | leave | joined | leftover =>
    simp only [step] at ht
    split at ht <;> cases ht
    simp [InterfaceEvent.stops]
  | send msg =>
    simp only [step] at ht
    split at ht <;> cases ht
    split <;> simp [InterfaceEvent.stops]
  | disconnect =>
    simp only [step] at ht
    split at ht <;> cases ht
    simp [disconnect, InterfaceEvent.stops]
  | handler ev =>
    simp only [step] at ht
    split at ht
    · simp [stopped_turn ht, InterfaceEvent.stops]
    · cases ht
  | task =>
    simp only [step] at ht
    split at ht
    · cases ht
    · split at ht
      · simp [stopped_turn ht, InterfaceEvent.stops]
      · cases ht
  | dry w =>
    simp only [step] at ht
    split at ht <;> cases ht
    simp [InterfaceEvent.stops]

theorem not_stopped_of_turn {ev : InterfaceEvent T} (hturn : ev.isTurn = true)
    (ht : s.step ev = some t) : s.stopped = false := by
  have serves : s.serves = true := by
    cases ev with
    | handler ev =>
      simp only [step] at ht
      split at ht
      · rename_i h
        exact h.1
      · cases ht
    | task =>
      simp only [step] at ht
      split at ht
      · cases ht
      · split at ht
        · assumption
        · cases ht
    | leftover =>
      simp only [step] at ht
      split at ht
      · rename_i h
        exact h.1
      · cases ht
    | _ => cases hturn
  simp only [ClientInterface.serves, Bool.and_eq_true, Bool.not_eq_true'] at serves
  exact serves.1

theorem stopped_exec {as : List (InterfaceEvent T)} (run : exec step {} as = some s) :
    s.stopped = as.any InterfaceEvent.stops := by
  refine exec_history (I := fun as s => s.stopped = as.any InterfaceEvent.stops) rfl ?_ run
  intro as s ev t ih hstep
  rw [stopped_step hstep, ih, List.any_append, List.any_cons, List.any_nil, Bool.or_false]

theorem no_turn_when_stopped {as : List (InterfaceEvent T)} (hstopped : s.stopped = true)
    (run : exec step s as = some t) : ∀ ev ∈ as, ev.isTurn = false := by
  have main : t.stopped = true ∧ ∀ ev ∈ as, ev.isTurn = false := by
    refine exec_history (I := fun as t => t.stopped = true ∧ ∀ ev ∈ as, ev.isTurn = false)
      ⟨hstopped,by simp⟩ ?_ run
    rintro as t ev u ⟨ht,hturns⟩ hstep
    refine ⟨by simp [stopped_step hstep, ht],?_⟩
    intro ev' hev'
    obtain hold | hnew := List.mem_append.mp hev'
    · exact hturns ev' hold
    · obtain rfl := List.mem_singleton.mp hnew
      cases hturn : ev'.isTurn with
      | false => rfl
      | true => exact absurd (not_stopped_of_turn hturn hstep) (by simp [ht])
  exact main.2

/-- Every thread of `Connect` finds the service running exactly when no `Disconnect` and no `run()`
without work came before it. After one of these no handler runs, of whichever connection. -/
theorem reconnects_iff {as : List (InterfaceEvent T)} (run : exec step {} as = some s) :
    ((∀ bs w t, bs ++ [.run w] <+: as → exec step {} bs = some t → t.stopped = false) ↔
      ∀ bs w, bs ++ [.run w] <+: as → ∀ ev ∈ bs, ev.stops = false) ∧
    ∀ bs cs, as = bs ++ cs → (∃ ev ∈ bs, ev.stops = true) → ∀ ev ∈ cs, ev.isTurn = false := by
  have goes : ∀ bs cs, as = bs ++ cs →
      ∃ t, exec step {} bs = some t ∧ exec step t cs = some s := by
    rintro bs cs rfl
    rw [exec_append, Option.bind_eq_some_iff] at run
    exact run
  refine ⟨⟨?_,?_⟩,?_⟩
  · rintro h bs w hbs ev hev
    obtain ⟨cs,rfl⟩ := hbs
    obtain ⟨t,ht,-⟩ := goes bs ([.run w] ++ cs) (List.append_assoc ..)
    have hstopped := h bs w t (List.prefix_append _ _) ht
    rw [stopped_exec ht, List.any_eq_false] at hstopped
    exact Bool.not_eq_true _ ▸ hstopped ev hev
  · rintro h bs w t hbs ht
    rw [stopped_exec ht, List.any_eq_false]
    intro ev hev
    simp [h bs w hbs ev hev]
  · rintro bs cs rfl ⟨ev,hev,hstops⟩
    obtain ⟨t,ht,hs⟩ := goes bs cs rfl
    have hstopped : t.stopped = true := by
      rw [stopped_exec ht]
      exact List.any_eq_true.mpr ⟨ev,hev,hstops⟩
    exact no_turn_when_stopped hstopped hs

theorem reconnects_iff_failed :
    let as : List (InterfaceEvent NetMsgType) :=
      [.connect true,.assigned,.run .thrIOService,.handler .connectFailed,.connect true,
        .run .newThread]
    ∃ s, exec step {} as = some s ∧
      ∀ bs w t, bs ++ [.run w] <+: as → exec step {} bs = some t → t.stopped = false := by
  intro as
  have running : ∀ ev ∈ as, ev.stops = false := by decide
  refine exists_exec (by decide) fun s run => ?_
  refine (reconnects_iff run).1.mpr fun bs w hbs ev hev => ?_
  exact running ev (hbs.subset (List.mem_append_left _ hev))

theorem reconnect_stopped :
    ∃ s t, exec step ({} : ClientInterface NetMsgType) [.connect true,.assigned,.run .thrIOService,
        .disconnect,.leave .thrIOService,.joined,.connect true,.assigned] = some s ∧
      s.step (.run .thrIOService) = some t ∧ s.stopped = true :=
  ⟨_,_,rfl,rfl,rfl⟩

end ClientInterface

section IsConnect
variable {T : Type}

/-- The socket is closed only before the connection is established, and it is still open when it
is. -/
def TruthKept (s : Io T) : Event T → Prop
  | .connectDone => s.conn.isOpen = true
  | .readFailed _ | .writeFailed _ | .closeTask => s.conn.connectionFlag = false
  | _ => True

instance (s : Io T) : ∀ ev, Decidable (TruthKept s ev)
  | .connectDone => inferInstanceAs (Decidable (s.conn.isOpen = true))
  | .readFailed _ | .writeFailed _ | .closeTask =>
    inferInstanceAs (Decidable (s.conn.connectionFlag = false))
  | .connectFailed | .readDone _ _ | .writeDone _ | .sendTask _ => isTrue trivial

variable [EnumId T] {s t : Io T}

structure Truthful (s : Io T) : Prop where
  owner : s.conn.nOwnerType = .kClient
  flag : s.conn.connectionFlag = true → s.conn.isOpen = true

omit [EnumId T] in
theorem truthful_close (howner : s.conn.nOwnerType = .kClient) :
    Truthful s.close ↔ s.conn.connectionFlag = false := by
  constructor
  · intro h
    cases hflag : s.conn.connectionFlag with
    | false => rfl
    | true => exact absurd (h.flag hflag) (by simp [Io.close])
  · intro h
    exact ⟨howner,fun hflag => absurd (h.symm.trans hflag) (by simp)⟩

theorem truthful_step {ev : Event T} (hs : Truthful s) (ht : s.step ev = some t) :
    Truthful t ↔ TruthKept s ev := by
  have same : (ev.isCallback = true ∨ ∃ msg, ev = .sendTask msg) → ev ≠ .connectDone →
      Truthful t := by
    intro hev hne
    obtain ⟨howner,hopen⟩ := client_keeps hs.owner hev ht
    exact ⟨howner,by rw [(keeps_step hne ht).flag, hopen]; exact hs.flag⟩
  cases ev with
  | connectDone =>
    simp only [Io.step] at ht
    split at ht <;> cases ht
    exact ⟨fun h => h.flag rfl,fun h => ⟨hs.owner,fun _ => h⟩⟩
  | connectFailed =>
    simp only [Io.step] at ht
    split at ht <;> cases ht
    exact ⟨fun _ => trivial,fun _ => ⟨hs.owner,hs.flag⟩⟩
  | readDone | writeDone => exact ⟨fun _ => trivial,fun _ => same (.inl rfl) (by simp)⟩
  | sendTask msg => exact ⟨fun _ => trivial,fun _ => same (.inr ⟨msg,rfl⟩) (by simp)⟩
  | readFailed op =>
    simp only [Io.step] at ht
    split at ht <;> cases ht
    exact truthful_close (s := s.endRead op) hs.owner
  | writeFailed op =>
    simp only [Io.step] at ht
    split at ht <;> cases ht
    exact truthful_close (s := s.endWrite op) hs.owner
  | closeTask =>
    cases ht
    exact truthful_close hs.owner

theorem flag_exec {start : Io T} {evs : List (Event T)} (hstart : start.conn.connectionFlag = false)
    (run : exec Io.step start evs = some t) (hflag : t.conn.connectionFlag = true) :
    .connectDone ∈ evs := by
  refine exec_history (I := fun evs t => t.conn.connectionFlag = true → .connectDone ∈ evs)
    (fun h => absurd (hstart.symm.trans h) (by simp)) ?_ run hflag
  intro evs s ev t ih hstep hflag
  by_cases hev : ev = .connectDone
  · simp [hev]
  · rw [(keeps_step hev hstep).flag] at hflag
    exact List.mem_append_left _ (ih hflag)

/-- `IsConnect` tells the truth all along a run exactly when no read or write of an established
connection fails, `Disconnect` closes none, and the connect ends on an open socket. -/
theorem isConnect_iff {self : Nat} {qIn : List (OwnedMessage T)} {evs : List (Event T)}
    (run : exec Io.step (Client.connect self qIn).io evs = some t) :
    (∀ bs u, bs <+: evs → exec Io.step (Client.connect self qIn).io bs = some u →
      ∀ c : ClientInterface T, c.m_connection = some u → c.isConnect = true →
        .connectDone ∈ bs ∧ u.conn.isOpen = true) ↔
      Meets Io.step TruthKept (Client.connect self qIn).io evs := by
  have start : Truthful (Client.connect self qIn : Client T).io :=
    ⟨rfl,fun h => by cases h⟩
  rw [← reached_iff_meets start (fun _ _ _ hs hstep => truthful_step hs hstep) run]
  constructor
  · intro truth bs u hbs hu
    have howner : u.conn.nOwnerType = .kClient :=
      exec_invariant (I := fun s : Io T => s.conn.nOwnerType = .kClient)
        (fun _ _ _ h hstep => (fixed_step hstep).1.trans h) rfl hu
    refine ⟨howner,fun hflag => ?_⟩
    exact (truth bs u hbs hu { m_connection := some u } rfl hflag).2
  · intro truth bs u hbs hu c hc hconnect
    have hflag : u.conn.connectionFlag = true := by
      simpa [ClientInterface.isConnect, hc] using hconnect
    exact ⟨flag_exec rfl hu hflag,(truth bs u hbs hu).flag hflag⟩

theorem isConnect_iff_handshake :
    let evs : List (Event NetMsgType) := [.connectDone,
      .readDone .validation (LittleEndian.ofUInt64 5),.writeDone .validation,
      .readDone .header (MessageHeader.bytes ⟨NetMsgType.kFailed,0⟩)]
    ∃ t, exec Io.step (Client.connect 1 []).io evs = some t ∧
      ∀ c : ClientInterface NetMsgType, c.m_connection = some t → c.isConnect = true →
        t.conn.isOpen = true := by
  intro evs
  refine exists_exec (by decide) fun t run c hc hconnect => ?_
  exact ((isConnect_iff run).mpr (by decide) evs t (List.prefix_refl _) run c hc hconnect).2

/-- The server goes after the connect, and the read of its challenge fails. -/
theorem isConnect_lies :
    ∃ t : Io NetMsgType, exec Io.step (Client.connect 1 []).io [.connectDone,
        .readFailed .validation] = some t ∧
      ClientInterface.isConnect { m_connection := some t } = true ∧ t.conn.isOpen = false :=
  ⟨_,rfl,rfl,rfl⟩

end IsConnect

end TransmissionPlatform.Net
