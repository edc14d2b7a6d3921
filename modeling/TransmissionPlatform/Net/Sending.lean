import TransmissionPlatform.Net.Connection

/-!
The writing half of a connection: `Send`, `WriteHeader`, `WriteBody`. The only guard
against overlapping writes is that a `Send` task starts one only when the queue was
empty. `WriteState` lists the situations this leaves, and every event keeps to them.
-/

set_option autoImplicit false

namespace TransmissionPlatform.Net
open StepSystem

variable {T : Type}

def Connection.messageWrites (c : Connection T) : List WriteOp := c.writes.filter (·.isMessage)

/-- The buffers handed to the socket, in order, each with the write it belongs to. -/
def handed (acts : List (Act T)) : List (WriteOp × List UInt8) :=
  acts.filterMap fun
    | .asyncWrite op buffer => some (op,buffer)
    | _ => none

def messageBuffers (acts : List (Act T)) : List (List UInt8) :=
  ((handed acts).filter (·.1.isMessage)).map Prod.snd

def emitted (acts : List (Act T)) : List UInt8 := (messageBuffers acts).flatten

def frames [EnumId T] (msgs : List (Message T)) : List UInt8 := msgs.flatMap Message.frame

/-- The messages of the `Send` tasks that ran, in the order in which they ran. -/
def sentTasks (evs : List (Event T)) : List (Message T) :=
  evs.filterMap fun
    | .sendTask msg => some msg
    | _ => none

def Event.failsMessageWrite : Event T → Bool
  | .writeFailed op => op.isMessage
  | _ => false

def writeFailed (evs : List (Event T)) : Bool := evs.any (·.failsMessageWrite)

@[simp] theorem handed_append (xs ys : List (Act T)) :
    handed (xs ++ ys) = handed xs ++ handed ys := List.filterMap_append

@[simp] theorem messageBuffers_append (xs ys : List (Act T)) :
    messageBuffers (xs ++ ys) = messageBuffers xs ++ messageBuffers ys := by
  simp [messageBuffers]

@[simp] theorem frames_append [EnumId T] (xs ys : List (Message T)) :
    frames (xs ++ ys) = frames xs ++ frames ys := List.flatMap_append

@[simp] theorem sentTasks_append (xs ys : List (Event T)) :
    sentTasks (xs ++ ys) = sentTasks xs ++ sentTasks ys := List.filterMap_append

@[simp] theorem writeFailed_append (xs ys : List (Event T)) :
    writeFailed (xs ++ ys) = (writeFailed xs || writeFailed ys) := List.any_append

structure Outgoing (T : Type) where
  queue : List (Message T)
  writes : List WriteOp
  buffers : List (List UInt8)

def Io.outgoing (s : Io T) : Outgoing T :=
  ⟨s.conn.qMessagesOut,s.conn.messageWrites,messageBuffers s.acts⟩

namespace Io
variable (s : Io T)

@[simp] theorem outgoing_close : s.close.outgoing = s.outgoing := by
  simp [outgoing, close, messageBuffers, handed, Connection.messageWrites]

@[simp] theorem outgoing_asyncRead (op : ReadOp) : (s.asyncRead op).outgoing = s.outgoing := by
  simp [outgoing, asyncRead, messageBuffers, handed, Connection.messageWrites]

@[simp] theorem outgoing_writeValidation : s.writeValidation.outgoing = s.outgoing := by
  simp [outgoing, writeValidation, asyncWrite, messageBuffers, handed,
    Connection.messageWrites, WriteOp.isMessage]

@[simp] theorem outgoing_addToIncomingMessageQueue :
    s.addToIncomingMessageQueue.outgoing = s.outgoing := by
  simp only [addToIncomingMessageQueue, readHeader, outgoing_asyncRead]
  simp [outgoing, messageBuffers, handed]

@[simp] theorem outgoing_headerRead : s.headerRead.outgoing = s.outgoing := by
  simp only [headerRead]
  split
  · simp only [readBody, outgoing_asyncRead]
    rfl
  · exact s.outgoing_addToIncomingMessageQueue

@[simp] theorem outgoing_validationRead : s.validationRead.outgoing = s.outgoing := by
  simp only [validationRead]
  split
  · split
    · simp only [readHeader, outgoing_asyncRead]
      simp [outgoing, messageBuffers, handed]
    · exact s.outgoing_close
  · simp only [outgoing_writeValidation]
    rfl

@[simp] theorem outgoing_onRead [EnumId T] (op : ReadOp) (bytes : List UInt8) :
    (s.onRead op bytes).outgoing = s.outgoing := by
  cases op with
  | validation => exact outgoing_validationRead _
  | header => exact outgoing_headerRead _
  | body size => exact outgoing_addToIncomingMessageQueue _

theorem outgoing_endWrite (op : WriteOp) :
    (s.endWrite op).outgoing = { s.outgoing with writes := s.outgoing.writes.erase op } := by
  simp [outgoing, endWrite, Connection.messageWrites, List.erase_filter]

theorem outgoing_asyncWrite {op : WriteOp} (h : op.isMessage = true) (buffer : List UInt8) :
    (s.asyncWrite op buffer).outgoing =
      { s.outgoing with writes := s.outgoing.writes ++ [op]
                        buffers := s.outgoing.buffers ++ [buffer] } := by
  simp [outgoing, asyncWrite, Connection.messageWrites, messageBuffers, handed, h]

end Io

theorem mem_messageWrites {c : Connection T} {op : WriteOp} (hm : op ∈ c.writes)
    (hop : op.isMessage = true) : op ∈ c.messageWrites := List.mem_filter.mpr ⟨hm,hop⟩

theorem Connection.HandshakeDone.messageWrites {c : Connection T} (h : c.HandshakeDone) :
    c.messageWrites = c.writes := by
  refine List.filter_eq_self.mpr fun op hm => ?_
  cases op with
  | validation => exact absurd hm h.2.2
  | header => rfl
  | body => rfl

theorem outgoing_endWrite_validation (s : Io T) :
    (s.endWrite .validation).outgoing = s.outgoing := by
  have h : WriteOp.validation ∉ s.outgoing.writes := by
    simp [Io.outgoing, Connection.messageWrites, WriteOp.isMessage]
  rw [Io.outgoing_endWrite, List.erase_of_not_mem h]

variable [EnumId T]

/-- What the writing half can be in, given the messages already written and taken off the
queue and whether a message write has failed. A write is outstanding exactly for the head
of the queue; after a failure the queue keeps its head and nothing is outstanding. -/
inductive WriteState (done : List (Message T)) : Bool → Outgoing T → Prop where
  | idle {buffers : List (List UInt8)} : buffers.flatten = frames done →
      WriteState done false ⟨[],[],buffers⟩
  | header {buffers : List (List UInt8)} (msg : Message T) (rest : List (Message T)) :
      buffers.flatten = frames done ++ msg.header.bytes →
      WriteState done false ⟨msg :: rest,[.header],buffers⟩
  | body {buffers : List (List UInt8)} (msg : Message T) (rest : List (Message T)) :
      buffers.flatten = frames done ++ msg.frame →
      WriteState done false ⟨msg :: rest,[.body],buffers⟩
  | failed {buffers : List (List UInt8)} (msg : Message T) (rest : List (Message T)) :
      buffers.flatten <+: frames done ++ msg.frame →
      WriteState done true ⟨msg :: rest,[],buffers⟩

def WriteInv (evs : List (Event T)) (s : Io T) : Prop :=
  ∃ done, sentTasks evs = done ++ s.conn.qMessagesOut ∧
    WriteState done (writeFailed evs) s.outgoing

theorem WriteState.pushBack {done : List (Message T)} {failed : Bool} {queue : List (Message T)}
    {writes : List WriteOp} {buffers : List (List UInt8)} (msg : Message T) (hq : queue ≠ [])
    (h : WriteState done failed ⟨queue,writes,buffers⟩) :
    WriteState done failed ⟨queue ++ [msg],writes,buffers⟩ := by
  cases h with
  | idle => exact absurd rfl hq
  | header m rest hb => exact .header m (rest ++ [msg]) hb
  | body m rest hb => exact .body m (rest ++ [msg]) hb
  | failed m rest hb => exact .failed m (rest ++ [msg]) hb

theorem writeHeader_writeState {s t : Io T} {done : List (Message T)} {msg : Message T}
    {rest : List (Message T)} {buffers : List (List UInt8)}
    (hs : s.outgoing = ⟨msg :: rest,[],buffers⟩) (hb : buffers.flatten = frames done)
    (ht : s.writeHeader = some t) :
    t.conn.qMessagesOut = s.conn.qMessagesOut ∧ WriteState done false t.outgoing := by
  have hq : s.conn.qMessagesOut = msg :: rest := congrArg Outgoing.queue hs
  simp only [Io.writeHeader, hq, List.head?_cons, Option.map_some, Option.some.injEq] at ht
  subst ht
  refine ⟨rfl,?_⟩
  rw [Io.outgoing_asyncWrite s rfl, hs]
  exact .header msg rest (by simp [hb])

theorem popAndContinue_writeState {s t : Io T} {done : List (Message T)} {msg : Message T}
    {rest : List (Message T)} {buffers : List (List UInt8)}
    (hs : s.outgoing = ⟨msg :: rest,[],buffers⟩)
    (hb : buffers.flatten = frames done ++ msg.frame) (ht : s.popAndContinue = some t) :
    t.conn.qMessagesOut = rest ∧ WriteState (done ++ [msg]) false t.outgoing := by
  have hq : s.conn.qMessagesOut = msg :: rest := congrArg Outgoing.queue hs
  have hdone : buffers.flatten = frames (done ++ [msg]) := by simp [hb, frames]
  have ho : ({ s with conn := { s.conn with qMessagesOut := rest } } : Io T).outgoing =
      ⟨rest,[],buffers⟩ := by
    change { s.outgoing with queue := rest } = _
    rw [hs]
  simp only [Io.popAndContinue, hq] at ht
  cases rest with
  | nil =>
    simp only [List.isEmpty_nil, if_true, Option.some.injEq] at ht
    subst ht
    exact ⟨rfl,ho ▸ .idle hdone⟩
  | cons next rest =>
    simp only [List.isEmpty_cons, Bool.false_eq_true, if_false] at ht
    exact writeHeader_writeState ho hdone ht

theorem writeInv_same {evs : List (Event T)} {s t : Io T} {ev : Event T}
    (hs : WriteInv evs s) (ho : t.outgoing = s.outgoing)
    (hsent : sentTasks [ev] = []) (hfail : writeFailed [ev] = false) :
    WriteInv (evs ++ [ev]) t := by
  obtain ⟨done,hsplit,hstate⟩ := hs
  have hq : t.conn.qMessagesOut = s.conn.qMessagesOut := congrArg Outgoing.queue ho
  exact ⟨done,by simp [hsplit,hsent,hq],by simpa [hfail,ho] using hstate⟩

theorem WriteState.of_queue_nil {done : List (Message T)} {failed : Bool} {o : Outgoing T}
    (h : WriteState done failed o) (hq : o.queue = []) :
    failed = false ∧ o.writes = [] ∧ o.buffers.flatten = frames done := by
  cases h with
  | idle hb => exact ⟨rfl,rfl,hb⟩
  | _ => simp at hq

theorem writeInv_sendTask {evs : List (Event T)} {s t : Io T} {msg : Message T}
    (hs : WriteInv evs s) (ht : s.sendTask msg = some t) :
    WriteInv (evs ++ [.sendTask msg]) t := by
  obtain ⟨done,hsplit,hstate⟩ := hs
  have hfail : writeFailed (evs ++ [.sendTask msg]) = writeFailed evs := by
    simp [writeFailed, Event.failsMessageWrite]
  have hsent : sentTasks (evs ++ [.sendTask msg]) = done ++ (s.conn.qMessagesOut ++ [msg]) := by
    rw [sentTasks_append, hsplit, List.append_assoc]
    rfl
  cases hq : s.conn.qMessagesOut with
  | nil =>
    -- nothing is queued, so nothing is outstanding and nothing failed: the task writes
    simp only [Io.sendTask, hq, List.isEmpty_nil, Bool.not_true, Bool.false_eq_true, if_false,
      List.nil_append] at ht
    obtain ⟨hf,hw,hb⟩ := hstate.of_queue_nil hq
    have ho : ({ s with conn := { s.conn with qMessagesOut := [msg] } } : Io T).outgoing =
        ⟨[msg],[],messageBuffers s.acts⟩ := by
      change { s.outgoing with queue := [msg] } = _
      rw [← hw]; rfl
    obtain ⟨hqt,hst⟩ := writeHeader_writeState ho hb ht
    exact ⟨done,by rw [hsent, hqt, hq]; rfl,by rw [hfail, hf]; exact hst⟩
  | cons m rest =>
    simp only [Io.sendTask, hq, List.isEmpty_cons, Bool.not_false, if_true,
      Option.some.injEq] at ht
    subst ht
    refine ⟨done,by rw [hsent, hq],?_⟩
    have hold : WriteState done (writeFailed evs)
        ⟨m :: rest,s.conn.messageWrites,messageBuffers s.acts⟩ := hq ▸ hstate
    rw [hfail]
    exact hold.pushBack msg (by simp)

theorem WriteState.of_header_mem {done : List (Message T)} {failed : Bool} {o : Outgoing T}
    (h : WriteState done failed o) (hm : .header ∈ o.writes) :
    failed = false ∧ ∃ msg rest, o = ⟨msg :: rest,[.header],o.buffers⟩ ∧
      o.buffers.flatten = frames done ++ msg.header.bytes := by
  cases h with
  | header msg rest hb => exact ⟨rfl,msg,rest,rfl,hb⟩
  | _ => simp at hm

theorem WriteState.of_body_mem {done : List (Message T)} {failed : Bool} {o : Outgoing T}
    (h : WriteState done failed o) (hm : .body ∈ o.writes) :
    failed = false ∧ ∃ msg rest, o = ⟨msg :: rest,[.body],o.buffers⟩ ∧
      o.buffers.flatten = frames done ++ msg.frame := by
  cases h with
  | body msg rest hb => exact ⟨rfl,msg,rest,rfl,hb⟩
  | _ => simp at hm

theorem outgoing_onWrite_validation {s t : Io T} (ht : s.onWrite .validation = some t) :
    t.outgoing = s.outgoing := by
  simp only [Io.onWrite] at ht
  split at ht <;> cases ht
  · exact s.outgoing_asyncRead .header
  · rfl

theorem writeInv_headerDone {evs : List (Event T)} {s t : Io T} (hs : WriteInv evs s)
    (hm : .header ∈ s.conn.writes) (ht : (s.endWrite .header).onWrite .header = some t) :
    WriteInv (evs ++ [.writeDone .header]) t := by
  obtain ⟨done,hsplit,hstate⟩ := hs
  obtain ⟨hfail,msg,rest,ho,hb⟩ := hstate.of_header_mem (mem_messageWrites hm rfl)
  have hq : s.conn.qMessagesOut = msg :: rest := congrArg Outgoing.queue ho
  have he : (s.endWrite .header).outgoing = ⟨msg :: rest,[],s.outgoing.buffers⟩ := by
    rw [Io.outgoing_endWrite, ho]; rfl
  have hqe : (s.endWrite .header).conn.qMessagesOut = msg :: rest := hq
  have hfail' : writeFailed (evs ++ [.writeDone .header]) = false := by
    rw [writeFailed_append, hfail]; rfl
  have hsent : sentTasks (evs ++ [.writeDone .header]) = done ++ (msg :: rest) := by
    rw [sentTasks_append, hsplit, hq]
    exact List.append_nil _
  simp only [Io.onWrite, hqe, List.head?_cons, Option.bind_eq_bind, Option.bind_some] at ht
  split at ht
  · simp only [Io.writeBody, hqe, List.head?_cons, Option.map_some, Option.some.injEq] at ht
    subst ht
    refine ⟨done,hsent.trans (by rw [← hqe]; rfl),?_⟩
    rw [hfail', Io.outgoing_asyncWrite _ rfl, he]
    exact .body msg rest (by simp [hb, Message.frame])
  · rename_i hbody
    have hnil : msg.body = [] := by simpa using hbody
    have hframe : msg.header.bytes = msg.frame := by simp [Message.frame, hnil]
    obtain ⟨hqt,hst⟩ := popAndContinue_writeState he (hframe ▸ hb) ht
    exact ⟨done ++ [msg],by rw [hsent, hqt]; simp,hfail' ▸ hst⟩

theorem writeInv_bodyDone {evs : List (Event T)} {s t : Io T} (hs : WriteInv evs s)
    (hm : .body ∈ s.conn.writes) (ht : (s.endWrite .body).onWrite .body = some t) :
    WriteInv (evs ++ [.writeDone .body]) t := by
  obtain ⟨done,hsplit,hstate⟩ := hs
  obtain ⟨hfail,msg,rest,ho,hb⟩ := hstate.of_body_mem (mem_messageWrites hm rfl)
  have he : (s.endWrite .body).outgoing = ⟨msg :: rest,[],s.outgoing.buffers⟩ := by
    rw [Io.outgoing_endWrite, ho]; rfl
  have hq : s.conn.qMessagesOut = msg :: rest := congrArg Outgoing.queue ho
  obtain ⟨hqt,hst⟩ := popAndContinue_writeState he hb ht
  have hfail' : writeFailed (evs ++ [.writeDone .body]) = false := by
    rw [writeFailed_append, hfail]; rfl
  refine ⟨done ++ [msg],?_,hfail' ▸ hst⟩
  rw [sentTasks_append, hsplit, hq, hqt]
  simp [sentTasks]

/-- A failed message write leaves its message at the head of the queue, with nothing
outstanding: no later `Send` task finds the queue empty. -/
theorem writeInv_writeFailed {evs : List (Event T)} {s : Io T} {op : WriteOp}
    (hs : WriteInv evs s) (hm : op ∈ s.conn.writes) :
    WriteInv (evs ++ [.writeFailed op]) (s.endWrite op).close := by
  obtain ⟨done,hsplit,hstate⟩ := hs
  have hsent : sentTasks (evs ++ [.writeFailed op]) =
      done ++ (s.endWrite op).close.conn.qMessagesOut := by
    rw [sentTasks_append, hsplit]
    exact List.append_nil _
  refine ⟨done,hsent,?_⟩
  rw [writeFailed_append, Io.outgoing_close]
  cases op with
  | validation =>
    rw [outgoing_endWrite_validation]
    simpa [writeFailed, Event.failsMessageWrite, WriteOp.isMessage] using hstate
  | header =>
    obtain ⟨hfail,msg,rest,ho,hb⟩ := hstate.of_header_mem (mem_messageWrites hm rfl)
    have hpre : s.outgoing.buffers.flatten <+: frames done ++ msg.frame := by
      simp [hb, Message.frame]
    rw [Io.outgoing_endWrite, ho, hfail]
    exact .failed msg rest hpre
  | body =>
    obtain ⟨hfail,msg,rest,ho,hb⟩ := hstate.of_body_mem (mem_messageWrites hm rfl)
    rw [Io.outgoing_endWrite, ho, hfail]
    exact .failed msg rest (hb ▸ List.prefix_refl _)

/-- All that an event can do to the writing half. Everything but a `Send` task and the end
of a message write leaves it alone. -/
theorem outgoing_step {s t : Io T} {ev : Event T} (ht : s.step ev = some t) :
    (t.outgoing = s.outgoing ∧ sentTasks [ev] = [] ∧ writeFailed [ev] = false) ∨
    (∃ msg, ev = .sendTask msg ∧ s.sendTask msg = some t) ∨
    (∃ op, op.isMessage = true ∧ op ∈ s.conn.writes ∧ ev = .writeDone op ∧
      (s.endWrite op).onWrite op = some t) ∨
    (∃ op, op.isMessage = true ∧ op ∈ s.conn.writes ∧ ev = .writeFailed op ∧
      t = (s.endWrite op).close) := by
  cases ev with
  | connectDone =>
    simp only [Io.step] at ht
    split at ht <;> cases ht
    exact .inl ⟨Io.outgoing_asyncRead _ _,rfl,rfl⟩
  | connectFailed =>
    simp only [Io.step] at ht
    split at ht <;> cases ht
    exact .inl ⟨rfl,rfl,rfl⟩
  | readDone op bytes =>
    simp only [Io.step] at ht
    split at ht <;> cases ht
    exact .inl ⟨Io.outgoing_onRead _ op bytes,rfl,rfl⟩
  | readFailed op =>
    simp only [Io.step] at ht
    split at ht <;> cases ht
    exact .inl ⟨Io.outgoing_close _,rfl,rfl⟩
  | writeDone op =>
    simp only [Io.step] at ht
    split at ht
    · rename_i hm
      cases op with
      | validation =>
        have ho := (outgoing_onWrite_validation ht).trans (outgoing_endWrite_validation s)
        exact .inl ⟨ho,rfl,rfl⟩
      | header => exact .inr (.inr (.inl ⟨.header,rfl,hm,rfl,ht⟩))
      | body => exact .inr (.inr (.inl ⟨.body,rfl,hm,rfl,ht⟩))
    · cases ht
  | writeFailed op =>
    simp only [Io.step] at ht
    split at ht <;> cases ht
    rename_i hm
    cases op with
    | validation =>
      have ho := (Io.outgoing_close _).trans (outgoing_endWrite_validation s)
      exact .inl ⟨ho,rfl,rfl⟩
    | header => exact .inr (.inr (.inr ⟨.header,rfl,hm,rfl,rfl⟩))
    | body => exact .inr (.inr (.inr ⟨.body,rfl,hm,rfl,rfl⟩))
  | sendTask msg => exact .inr (.inl ⟨msg,rfl,ht⟩)
  | closeTask =>
    cases ht
    exact .inl ⟨s.outgoing_close,rfl,rfl⟩

theorem writeInv_step {evs : List (Event T)} {s t : Io T} {ev : Event T}
    (hs : WriteInv evs s) (ht : s.step ev = some t) : WriteInv (evs ++ [ev]) t := by
  obtain ⟨ho,hsent,hfail⟩ | ⟨msg,rfl,htask⟩ | ⟨op,hop,hm,rfl,hdone⟩ | ⟨op,-,hm,rfl,rfl⟩ :=
    outgoing_step ht
  · exact writeInv_same hs ho hsent hfail
  · exact writeInv_sendTask hs htask
  · cases op with
    | validation => cases hop
    | header => exact writeInv_headerDone hs hm hdone
    | body => exact writeInv_bodyDone hs hm hdone
  · exact writeInv_writeFailed hs hm

theorem writeInv_start {s : Io T} (h : Started s) : WriteInv [] s := by
  have idle : ∀ self owner isOpen now,
      (⟨Connection.new self owner isOpen now,[],[]⟩ : Io T).outgoing = ⟨[],[],[]⟩ := by
    intro self owner isOpen now
    cases owner <;> rfl
  have hstate : WriteState ([] : List (Message T)) (writeFailed ([] : List (Event T)))
      ⟨[],[],[]⟩ := .idle rfl
  cases h with
  | server self isOpen now uid qIn =>
    cases isOpen with
    | false => exact ⟨[],rfl,hstate⟩
    | true =>
      refine ⟨[],rfl,?_⟩
      simp only [Io.connectToClient, Connection.new, if_true, Io.readValidation,
        Io.outgoing_asyncRead, Io.outgoing_writeValidation]
      exact hstate
  | client self qIn => exact ⟨[],rfl,hstate⟩

theorem writeInv_run {s₀ s : Io T} {evs : List (Event T)} (h₀ : Started s₀)
    (run : exec Io.step s₀ evs = some s) : WriteInv evs s :=
  exec_history (I := WriteInv) (writeInv_start h₀) (fun _ _ _ _ => writeInv_step) run

/-- The writing half after a failed message write: something is queued and nothing is
outstanding. -/
def Stuck (buffers : List (List UInt8)) (s : Io T) : Prop :=
  s.outgoing.writes = [] ∧ s.conn.qMessagesOut ≠ [] ∧ s.outgoing.buffers = buffers

theorem stuck_step {buffers : List (List UInt8)} {s t : Io T} {ev : Event T}
    (hs : Stuck buffers s) (ht : s.step ev = some t) : Stuck buffers t := by
  obtain ⟨hw,hq,hb⟩ := hs
  have none : ∀ op, op.isMessage = true → op ∉ s.conn.writes := by
    intro op hop hm
    have := mem_messageWrites hm hop
    rw [show s.conn.messageWrites = [] from hw] at this
    cases this
  obtain ⟨ho,-,-⟩ | ⟨msg,rfl,htask⟩ | ⟨op,hop,hm,-,-⟩ | ⟨op,hop,hm,-,-⟩ := outgoing_step ht
  · have hqt : t.conn.qMessagesOut = s.conn.qMessagesOut := congrArg Outgoing.queue ho
    exact ⟨by rw [ho, hw],by rwa [hqt],by rw [ho, hb]⟩
  · obtain ⟨m,rest,hcons⟩ := List.exists_cons_of_ne_nil hq
    simp only [Io.sendTask, hcons, List.isEmpty_cons, Bool.not_false, if_true,
      Option.some.injEq] at htask
    subst htask
    exact ⟨hw,by simp,hb⟩
  · exact absurd hm (none op hop)
  · exact absurd hm (none op hop)

theorem stuck_run {s t : Io T} {done : List (Message T)} {evs : List (Event T)}
    (h : WriteState done true s.outgoing) (run : exec Io.step s evs = some t) :
    t.outgoing.buffers = s.outgoing.buffers := by
  have hs : Stuck s.outgoing.buffers s := by
    unfold Stuck
    generalize ho : s.outgoing = o at h
    have hq : s.conn.qMessagesOut = o.queue := congrArg Outgoing.queue ho
    cases h with
    | failed msg rest hb => exact ⟨rfl,by simp [hq],rfl⟩
  exact (exec_invariant (I := Stuck s.outgoing.buffers) (fun _ _ _ => stuck_step) hs run).2.2

theorem handshakeDone_step {s t : Io T} {ev : Event T} (hd : s.conn.HandshakeDone)
    (ht : s.step ev = some t) :
    t.conn.HandshakeDone ∧
      ∃ new, handed t.acts = handed s.acts ++ new ∧ ∀ b ∈ new, b.1.isMessage = true := by
  obtain ⟨hc,hr,hw⟩ := hd
  have unread : ∀ op : ReadOp, ReadOp.validation ∉ s.conn.reads.erase op :=
    fun op hm => hr (List.mem_of_mem_erase hm)
  have unwritten : ∀ op : WriteOp, WriteOp.validation ∉ s.conn.writes.erase op :=
    fun op hm => hw (List.mem_of_mem_erase hm)
  have writesOnly : ∀ u : Io T, u.conn.HandshakeDone → handed u.acts = handed s.acts →
      MessageWritesOnly u t → t.conn.HandshakeDone ∧
        ∃ new, handed t.acts = handed s.acts ++ new ∧ ∀ b ∈ new, b.1.isMessage = true := by
    rintro u ⟨huc,hur,huw⟩ hacts ⟨queue,new,hall,rfl⟩
    have hnew : handed (new.map fun b => Act.asyncWrite (T := T) b.1 b.2) = new := by
      simp [handed, List.filterMap_map]
    refine ⟨⟨huc,hur,?_⟩,new,by rw [handed_append, hnew, hacts],hall⟩
    simp only [List.mem_append, List.mem_map, not_or, not_exists, not_and]
    refine ⟨huw,fun b hb hop => ?_⟩
    have := hall b hb
    rw [hop] at this
    cases this
  obtain ⟨op,bytes,rfl,hm,-,rfl⟩ | ⟨op,rfl,hm,rfl⟩ | ⟨rfl,hm,-⟩ | ⟨op,hop,rfl,hm,ht⟩ |
    ⟨op,rfl,hm,rfl⟩ | ⟨msg,rfl,ht⟩ | ⟨rfl,rfl⟩ := step_cases hc ht
  · have hop : op ≠ .validation := fun h => hr (h ▸ hm)
    obtain ⟨msg,h | h⟩ := onRead_cases (s.endRead op) hop bytes <;> rw [h]
    · refine ⟨⟨hc,?_,hw⟩,[],by simp [Io.readBody, Io.asyncRead, Io.endRead, handed],by simp⟩
      simpa [Io.readBody, Io.asyncRead, Io.endRead] using unread op
    · refine ⟨⟨hc,?_,hw⟩,[],?_,by simp⟩
      · simpa [Io.addToIncomingMessageQueue, Io.readHeader, Io.asyncRead, Io.endRead] using unread op
      · simp [Io.addToIncomingMessageQueue, Io.readHeader, Io.asyncRead, Io.endRead, handed]
  · exact ⟨⟨hc,unread op,hw⟩,[],by simp [Io.close, Io.endRead, handed],by simp⟩
  · exact absurd hm hw
  · exact writesOnly (s.endWrite op) ⟨hc,hr,unwritten op⟩ rfl (messageWritesOnly_onWrite hop ht)
  · exact ⟨⟨hc,hr,unwritten op⟩,[],by simp [Io.close, Io.endWrite, handed],by simp⟩
  · exact writesOnly s ⟨hc,hr,hw⟩ rfl (messageWritesOnly_sendTask ht)
  · exact ⟨⟨hc,hr,hw⟩,[],by simp [Io.close, handed],by simp⟩

theorem handshakeDone_run {s t : Io T} {evs : List (Event T)} (hd : s.conn.HandshakeDone)
    (run : exec Io.step s evs = some t) :
    t.conn.HandshakeDone ∧
      ∃ new, handed t.acts = handed s.acts ++ new ∧ ∀ b ∈ new, b.1.isMessage = true := by
  refine exec_invariant (I := fun u => u.conn.HandshakeDone ∧ ∃ new,
    handed u.acts = handed s.acts ++ new ∧ ∀ b ∈ new, b.1.isMessage = true) ?_
    ⟨hd,[],by simp,by simp⟩ run
  rintro u ev v ⟨hu,new,hnew,hall⟩ hstep
  obtain ⟨hv,more,hmore,hall'⟩ := handshakeDone_step hu hstep
  refine ⟨hv,new ++ more,by rw [hmore, hnew, List.append_assoc],?_⟩
  intro b hb
  exact (List.mem_append.mp hb).elim (hall b) (hall' b)

theorem WriteState.counts {done : List (Message T)} {failed : Bool} {o : Outgoing T}
    (h : WriteState done failed o) :
    o.writes.length ≤ 1 ∧ (o.writes.length = 1 ↔ o.queue ≠ [] ∧ failed = false) := by
  cases h <;> simp

theorem WriteState.inOrder {done : List (Message T)} {failed : Bool} {o : Outgoing T}
    (h : WriteState done failed o) : o.buffers.flatten <+: frames (done ++ o.queue) := by
  have whole : ∀ (msg : Message T) (rest : List (Message T)),
      frames done ++ msg.frame <+: frames (done ++ msg :: rest) := by
    intro msg rest
    simp only [frames_append, List.prefix_append_right_inj]
    exact List.prefix_append _ _
  cases h with
  | idle hb => simp [hb]
  | header msg rest hb =>
    refine List.IsPrefix.trans ?_ (whole msg rest)
    rw [hb, List.prefix_append_right_inj]
    exact List.prefix_append _ _
  | body msg rest hb => exact hb ▸ whole msg rest
  | failed msg rest hb => exact hb.trans (whole msg rest)

/-- No callback reads the front of an empty queue: in every run, `Send` tasks and the
handlers of outstanding writes are defined. -/
theorem writes_defined {s₀ s : Io T} {evs : List (Event T)} (h₀ : Started s₀)
    (run : exec Io.step s₀ evs = some s) :
    (∀ msg, (s.step (.sendTask msg)).isSome = true) ∧
      ∀ op ∈ s.conn.writes, (s.step (.writeDone op)).isSome = true := by
  have front : ∀ (u : Io T) (msg : Message T) (rest : List (Message T)),
      u.conn.qMessagesOut = msg :: rest → u.writeHeader.isSome = true := by
    intro u msg rest hq
    simp [Io.writeHeader, hq]
  have pop : ∀ (u : Io T) (msg : Message T) (rest : List (Message T)),
      u.conn.qMessagesOut = msg :: rest → u.popAndContinue.isSome = true := by
    intro u msg rest hq
    simp only [Io.popAndContinue, hq]
    cases rest with
    | nil => rfl
    | cons next rest => exact front _ next rest rfl
  obtain ⟨done,-,hstate⟩ := writeInv_run h₀ run
  constructor
  · intro msg
    simp only [Io.step, Io.sendTask]
    split
    · rfl
    · cases hq : s.conn.qMessagesOut with
      | nil => exact front _ msg [] (by simp)
      | cons m rest => exact front _ m (rest ++ [msg]) (by simp)
  · intro op hm
    simp only [Io.step, hm, if_true]
    cases op with
    | validation =>
      simp only [Io.onWrite]
      split <;> rfl
    | header =>
      obtain ⟨-,msg,rest,ho,-⟩ := hstate.of_header_mem (mem_messageWrites hm rfl)
      have hq : (s.endWrite .header).conn.qMessagesOut = msg :: rest := congrArg Outgoing.queue ho
      simp only [Io.onWrite, hq, List.head?_cons, Option.bind_eq_bind, Option.bind_some]
      split
      · simp [Io.writeBody, hq]
      · exact pop _ msg rest hq
    | body =>
      obtain ⟨-,msg,rest,ho,-⟩ := hstate.of_body_mem (mem_messageWrites hm rfl)
      exact pop _ msg rest (congrArg Outgoing.queue ho)

theorem emitted_of_queue_nil {s₀ s : Io T} {evs : List (Event T)} (h₀ : Started s₀)
    (run : exec Io.step s₀ evs = some s) (written : s.conn.qMessagesOut = []) :
    emitted s.acts = frames (sentTasks evs) := by
  obtain ⟨done,hsent,hstate⟩ := writeInv_run h₀ run
  rw [hsent, written, List.append_nil]
  exact (hstate.of_queue_nil written).2.2

/-- Message writes never overlap and never go on after a failure, in any run of a
connection: one is outstanding exactly while something is queued and none has failed, and
what they hand to the socket is a prefix of the frames of the messages sent, in the order
of their `Send` tasks. From the end of the handshake on, they are all that is handed out. -/
theorem messageWrites_ordered {s₀ s : Io T} {evs : List (Event T)} (h₀ : Started s₀)
    (run : exec Io.step s₀ evs = some s) :
    s.conn.messageWrites.length ≤ 1 ∧
    (s.conn.messageWrites.length = 1 ↔ s.conn.qMessagesOut ≠ [] ∧ writeFailed evs = false) ∧
    emitted s.acts <+: frames (sentTasks evs) ∧
    (s.conn.HandshakeDone → s.conn.writes = s.conn.messageWrites ∧
      ∀ evs' t, exec Io.step s evs' = some t →
        ∃ new, handed t.acts = handed s.acts ++ new ∧ (∀ b ∈ new, b.1.isMessage = true) ∧
          (writeFailed evs = true → new = [])) := by
  obtain ⟨done,hsent,hstate⟩ := writeInv_run h₀ run
  refine ⟨hstate.counts.1,hstate.counts.2,?_,?_⟩
  · rw [hsent]
    exact hstate.inOrder
  · intro hd
    refine ⟨hd.messageWrites.symm,?_⟩
    intro evs' t run'
    obtain ⟨-,new,hnew,hall⟩ := handshakeDone_run hd run'
    refine ⟨new,hnew,hall,?_⟩
    intro hfail
    -- every new buffer is a message buffer, and a failed connection hands out none
    have hsame : messageBuffers t.acts = messageBuffers s.acts := stuck_run (hfail ▸ hstate) run'
    have hfilter : new.filter (·.1.isMessage) = new := List.filter_eq_self.mpr hall
    simpa [messageBuffers, hnew, hfilter] using hsame

theorem messageWrites_ordered_headerFailed :
    ∃ s, exec Io.step (Io.connectToClient 10000 ⟨.new 1 .kServer true 0,[],[]⟩)
      [.writeDone .validation, .readDone .validation (LittleEndian.ofUInt64 (scramble 0)),
        .sendTask (⟨⟨NetMsgType.kFailed,1⟩,[7]⟩), .sendTask .empty, .writeDone .header,
        .writeDone .body, .writeFailed .header] = some s ∧
      s.conn.messageWrites.length ≤ 1 ∧
      emitted s.acts <+: frames [⟨⟨NetMsgType.kFailed,1⟩,[7]⟩, .empty] := by
  refine exists_exec rfl fun s run => ?_
  obtain ⟨hone,-,hbytes,-⟩ := messageWrites_ordered (.server 1 true 0 10000 []) run
  exact ⟨hone,hbytes⟩

end TransmissionPlatform.Net
