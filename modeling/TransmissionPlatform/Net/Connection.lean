import TransmissionPlatform.Lib.StepSystem
import TransmissionPlatform.Net.Message

/-!
`net_connection.hpp`: one end of a connection as the io thread runs it. Every method
and every completion handler is a function on the connection, on the incoming queue it
refers to and on the list of what it did to the outside. The asynchronous operations that
asio holds are part of the state, so an order or an outcome of completions is a list of
events.
-/

set_option autoImplicit false

namespace TransmissionPlatform.Net
open LittleEndian

inductive Owner where
  | kServer | kClient
  deriving DecidableEq, Repr

/-- An `async_read` that was started and whose handler has not run yet. -/
inductive ReadOp where
  | validation
  | header
  | body (size : Nat)
  deriving DecidableEq, Repr

def ReadOp.length : ReadOp → Nat
  | .validation => 8
  | .header => MessageHeader.sizeOf
  | .body size => size

inductive WriteOp where
  | validation | header | body
  deriving DecidableEq, Repr

structure Connection (T : Type) where
  self : Nat
  nOwnerType : Owner
  isOpen : Bool
  /-- An `async_connect` is outstanding. -/
  connecting : Bool := false
  reads : List ReadOp := []
  writes : List WriteOp := []
  qMessagesOut : List (Message T) := []
  msgTemporaryIn : Message T
  nHandshakeOut : UInt64 := 0
  nHandshakeIn : UInt64 := 0
  nHandshakeCheck : UInt64 := 0
  connectionFlag : Bool := false
  id : UInt32 := 0
  deriving DecidableEq, Repr

def scramble (nInput : UInt64) : UInt64 :=
  let out := nInput ^^^ 0xDEADBEEFC0DECAFE
  let out := (out &&& 0xF0F0F0F0F0F0F0) >>> 4 ||| (out &&& 0x0F0F0F0F0F0F0F) <<< 4
  out ^^^ 0xC0DEFACE12345678

/-- The constructor; `now` is the clock reading a server side takes for its challenge. -/
def Connection.new {T : Type} [EnumId T] (self : Nat) (parent : Owner) (isOpen : Bool)
    (now : UInt64) : Connection T :=
  match parent with
  | .kServer => { self := self, nOwnerType := .kServer, isOpen := isOpen
                  msgTemporaryIn := .empty, nHandshakeOut := now
                  nHandshakeCheck := scramble now }
  | .kClient => { self := self, nOwnerType := .kClient, isOpen := isOpen
                  msgTemporaryIn := .empty }

/-- A server side names itself, `shared_from_this()`; a client side leaves `nullptr`. -/
def Connection.owned {T : Type} (c : Connection T) (msg : Message T) : OwnedMessage T :=
  match c.nOwnerType with
  | .kServer => ⟨some c.self,msg⟩
  | .kClient => ⟨none,msg⟩

/-- What a method or a handler does outside its own connection, in program order. -/
inductive Act (T : Type) where
  | asyncConnect
  | asyncRead (op : ReadOp)
  | asyncWrite (op : WriteOp) (buffer : List UInt8)
  | close
  | onClientValidated
  | pushBack (item : OwnedMessage T)
  deriving DecidableEq, Repr

structure Io (T : Type) where
  conn : Connection T
  /-- The queue that `m_qMessagesIn` refers to. -/
  qMessagesIn : List (OwnedMessage T) := []
  acts : List (Act T) := []
  deriving DecidableEq, Repr

namespace Io
variable {T : Type}

def close (s : Io T) : Io T :=
  { s with conn := { s.conn with isOpen := false }, acts := s.acts ++ [.close] }

def asyncRead (op : ReadOp) (s : Io T) : Io T :=
  { s with conn := { s.conn with reads := s.conn.reads ++ [op] }
           acts := s.acts ++ [.asyncRead op] }

def asyncWrite (op : WriteOp) (buffer : List UInt8) (s : Io T) : Io T :=
  { s with conn := { s.conn with writes := s.conn.writes ++ [op] }
           acts := s.acts ++ [.asyncWrite op buffer] }

def readHeader (s : Io T) : Io T := s.asyncRead .header

def readBody (s : Io T) : Io T := s.asyncRead (.body s.conn.msgTemporaryIn.body.length)

def readValidation (s : Io T) : Io T := s.asyncRead .validation

def writeValidation (s : Io T) : Io T :=
  s.asyncWrite .validation (ofUInt64 s.conn.nHandshakeOut)

/-- Undefined when the queue is empty: it sends `m_qMessagesOut.front()`. -/
def writeHeader [EnumId T] (s : Io T) : Option (Io T) :=
  s.conn.qMessagesOut.head?.map fun msg => s.asyncWrite .header msg.header.bytes

def writeBody (s : Io T) : Option (Io T) :=
  s.conn.qMessagesOut.head?.map fun msg => s.asyncWrite .body msg.body

def connectToClient (uid : UInt32) (s : Io T) : Io T :=
  match s.conn.nOwnerType with
  | .kServer =>
    if s.conn.isOpen then
      let s := { s with conn := { s.conn with id := uid } }
      s.writeValidation.readValidation
    else s
  | .kClient => s

/-- `ConnectToServer`. `async_connect` opens the socket before it returns. -/
def connectToServer (s : Io T) : Io T :=
  match s.conn.nOwnerType with
  | .kClient =>
    { s with conn := { s.conn with isOpen := true, connecting := true }
             acts := s.acts ++ [.asyncConnect] }
  | .kServer => s

def addToIncomingMessageQueue (s : Io T) : Io T :=
  let item := s.conn.owned s.conn.msgTemporaryIn
  readHeader { s with qMessagesIn := s.qMessagesIn ++ [item]
                      acts := s.acts ++ [.pushBack item] }

def resize (n : Nat) (body : List UInt8) : List UInt8 :=
  body.take n ++ List.replicate (n - body.length) 0

/-- The handler of `ReadHeader`. -/
def headerRead (s : Io T) : Io T :=
  let msg := s.conn.msgTemporaryIn
  if 0 < msg.header.size then
    let msg := { msg with body := resize msg.header.size.toNat msg.body }
    readBody { s with conn := { s.conn with msgTemporaryIn := msg } }
  else s.addToIncomingMessageQueue

/-- The handler of `ReadValidation`. -/
def validationRead (s : Io T) : Io T :=
  match s.conn.nOwnerType with
  | .kServer =>
    if s.conn.nHandshakeIn = s.conn.nHandshakeCheck then
      readHeader { s with acts := s.acts ++ [.onClientValidated] }
    else s.close
  | .kClient =>
    writeValidation { s with conn := { s.conn with nHandshakeOut := scramble s.conn.nHandshakeIn } }

/-- A read completed: its bytes are in the object it was started on, and its handler runs. -/
def onRead [EnumId T] (op : ReadOp) (bytes : List UInt8) (s : Io T) : Io T :=
  let msg := s.conn.msgTemporaryIn
  match op with
  | .validation =>
    validationRead { s with conn := { s.conn with nHandshakeIn := toUInt64 bytes } }
  | .header =>
    let msg := { msg with header := MessageHeader.ofBytes bytes }
    headerRead { s with conn := { s.conn with msgTemporaryIn := msg } }
  | .body size =>
    let msg := { msg with body := bytes ++ msg.body.drop size }
    addToIncomingMessageQueue { s with conn := { s.conn with msgTemporaryIn := msg } }

/-- `m_qMessagesOut.pop_front()`, then `WriteHeader()` if a message is left. -/
def popAndContinue [EnumId T] (s : Io T) : Option (Io T) :=
  match s.conn.qMessagesOut with
  | [] => none
  | _ :: rest =>
    let s := { s with conn := { s.conn with qMessagesOut := rest } }
    if rest.isEmpty then some s else s.writeHeader

def onWrite [EnumId T] (op : WriteOp) (s : Io T) : Option (Io T) :=
  match op with
  | .validation =>
    match s.conn.nOwnerType with
    | .kClient => some s.readHeader
    | .kServer => some s
  | .header => do
    let msg ← s.conn.qMessagesOut.head?
    if 0 < msg.body.length then s.writeBody else s.popAndContinue
  | .body => s.popAndContinue

/-- The task that `Send` posts. -/
def sendTask [EnumId T] (msg : Message T) (s : Io T) : Option (Io T) :=
  let bWritingMessage := !s.conn.qMessagesOut.isEmpty
  let s := { s with conn := { s.conn with qMessagesOut := s.conn.qMessagesOut ++ [msg] } }
  if bWritingMessage then some s else s.writeHeader

/-- The handler of `async_connect` when it succeeded. -/
def connected (s : Io T) : Io T :=
  readValidation { s with conn := { s.conn with connectionFlag := true } }

def endRead (op : ReadOp) (s : Io T) : Io T :=
  { s with conn := { s.conn with reads := s.conn.reads.erase op } }

def endWrite (op : WriteOp) (s : Io T) : Io T :=
  { s with conn := { s.conn with writes := s.conn.writes.erase op } }

end Io

/-- One turn of the io thread on a connection: the completion of an outstanding operation,
a posted `Send` task, or the task that `Disconnect` posts. -/
inductive Event (T : Type) where
  | connectDone
  | connectFailed
  | readDone (op : ReadOp) (bytes : List UInt8)
  | readFailed (op : ReadOp)
  | writeDone (op : WriteOp)
  | writeFailed (op : WriteOp)
  | sendTask (msg : Message T)
  | closeTask
  deriving DecidableEq, Repr

def Event.isTask {T : Type} : Event T → Bool
  | .sendTask _ => true
  | .closeTask => true
  | _ => false

/-- `none` when the operation is not outstanding (or the handler would be undefined). What a
failed read left in its buffer is not modelled: nothing reads it afterwards. -/
def Io.step {T : Type} [EnumId T] (s : Io T) : Event T → Option (Io T)
  | .connectDone =>
    if s.conn.connecting then
      some (connected { s with conn := { s.conn with connecting := false } })
    else none
  | .connectFailed =>
    if s.conn.connecting then some { s with conn := { s.conn with connecting := false } } else none
  | .readDone op bytes =>
    if op ∈ s.conn.reads ∧ bytes.length = op.length then some ((s.endRead op).onRead op bytes)
    else none
  | .readFailed op => if op ∈ s.conn.reads then some (s.endRead op).close else none
  | .writeDone op => if op ∈ s.conn.writes then (s.endWrite op).onWrite op else none
  | .writeFailed op => if op ∈ s.conn.writes then some (s.endWrite op).close else none
  | .sendTask msg => s.sendTask msg
  | .closeTask => some s.close

/-- A connection right after `ConnectToClient` or `ConnectToServer` returned, before any
handler has run. -/
inductive Started {T : Type} [EnumId T] : Io T → Prop where
  | server (self : Nat) (isOpen : Bool) (now : UInt64) (uid : UInt32)
      (qIn : List (OwnedMessage T)) :
      Started (Io.connectToClient uid ⟨.new self .kServer isOpen now,qIn,[]⟩)
  | client (self : Nat) (qIn : List (OwnedMessage T)) :
      Started (Io.connectToServer ⟨.new self .kClient false 0,qIn,[]⟩)

def Connection.HandshakeDone {T : Type} (c : Connection T) : Prop :=
  c.connecting = false ∧ .validation ∉ c.reads ∧ .validation ∉ c.writes

instance {T : Type} (c : Connection T) : Decidable c.HandshakeDone :=
  inferInstanceAs (Decidable (c.connecting = false ∧ .validation ∉ c.reads ∧
    .validation ∉ c.writes))

/-! What the handlers can do, said once: the proofs about runs use these and no bodies. -/

variable {T : Type}

def WriteOp.isMessage : WriteOp → Bool
  | .validation => false
  | .header | .body => true

def MessageWritesOnly (s t : Io T) : Prop :=
  ∃ (queue : List (Message T)) (new : List (WriteOp × List UInt8)),
    (∀ b ∈ new, b.1.isMessage = true) ∧
    t = { s with conn := { s.conn with qMessagesOut := queue
                                       writes := s.conn.writes ++ new.map Prod.fst }
                 acts := s.acts ++ new.map fun b => Act.asyncWrite b.1 b.2 }

theorem messageWritesOnly_asyncWrite {s : Io T} {op : WriteOp} (h : op.isMessage = true)
    (queue : List (Message T)) (buffer : List UInt8) :
    MessageWritesOnly s
      (Io.asyncWrite op buffer { s with conn := { s.conn with qMessagesOut := queue } }) :=
  ⟨queue,[(op,buffer)],by simp [h],rfl⟩

theorem messageWritesOnly_queue (s : Io T) (queue : List (Message T)) :
    MessageWritesOnly s { s with conn := { s.conn with qMessagesOut := queue } } :=
  ⟨queue,[],by simp,by simp⟩

variable [EnumId T]

theorem messageWritesOnly_writeHeader {s t : Io T} {queue : List (Message T)}
    (ht : Io.writeHeader { s with conn := { s.conn with qMessagesOut := queue } } = some t) :
    MessageWritesOnly s t := by
  obtain ⟨msg,-,rfl⟩ := Option.map_eq_some_iff.mp ht
  exact messageWritesOnly_asyncWrite rfl queue _

theorem messageWritesOnly_popAndContinue {s t : Io T} (ht : s.popAndContinue = some t) :
    MessageWritesOnly s t := by
  simp only [Io.popAndContinue] at ht
  split at ht
  · cases ht
  · split at ht
    · cases ht
      exact messageWritesOnly_queue s _
    · exact messageWritesOnly_writeHeader ht

theorem messageWritesOnly_onWrite {s t : Io T} {op : WriteOp} (h : op.isMessage = true)
    (ht : s.onWrite op = some t) : MessageWritesOnly s t := by
  cases op with
  | validation => cases h
  | header =>
    obtain ⟨msg,-,ht⟩ := Option.bind_eq_some_iff.mp ht
    split at ht
    · obtain ⟨msg,-,rfl⟩ := Option.map_eq_some_iff.mp ht
      exact messageWritesOnly_asyncWrite rfl s.conn.qMessagesOut _
    · exact messageWritesOnly_popAndContinue ht
  | body => exact messageWritesOnly_popAndContinue ht

theorem messageWritesOnly_sendTask {s t : Io T} {msg : Message T}
    (ht : s.sendTask msg = some t) : MessageWritesOnly s t := by
  simp only [Io.sendTask] at ht
  split at ht
  · cases ht
    exact messageWritesOnly_queue s _
  · exact messageWritesOnly_writeHeader ht

/-- The read of a header or of a body either starts the read of the body, or pushes the
message it assembled and starts the read of the next header. -/
theorem onRead_cases (s : Io T) {op : ReadOp} (h : op ≠ .validation) (bytes : List UInt8) :
    ∃ msg,
      s.onRead op bytes =
        Io.readBody { s with conn := { s.conn with msgTemporaryIn := msg } } ∨
      s.onRead op bytes =
        Io.addToIncomingMessageQueue { s with conn := { s.conn with msgTemporaryIn := msg } } := by
  cases op with
  | validation => exact absurd rfl h
  | header =>
    simp only [Io.onRead, Io.headerRead]
    split
    · exact ⟨_,.inl rfl⟩
    · exact ⟨_,.inr rfl⟩
  | body size => exact ⟨_,.inr rfl⟩

/-- An event of a connection that does not connect: a read ends, or a validation write does,
or messages are written, or the socket is closed. -/
theorem step_cases {s t : Io T} {ev : Event T} (hc : s.conn.connecting = false)
    (ht : s.step ev = some t) :
    (∃ op bytes, ev = .readDone op bytes ∧ op ∈ s.conn.reads ∧ bytes.length = op.length ∧
      t = (s.endRead op).onRead op bytes) ∨
    (∃ op, ev = .readFailed op ∧ op ∈ s.conn.reads ∧ t = (s.endRead op).close) ∨
    (ev = .writeDone .validation ∧ .validation ∈ s.conn.writes ∧
      (s.endWrite .validation).onWrite .validation = some t) ∨
    (∃ op, op.isMessage = true ∧ ev = .writeDone op ∧ op ∈ s.conn.writes ∧
      (s.endWrite op).onWrite op = some t) ∨
    (∃ op, ev = .writeFailed op ∧ op ∈ s.conn.writes ∧ t = (s.endWrite op).close) ∨
    (∃ msg, ev = .sendTask msg ∧ s.sendTask msg = some t) ∨
    (ev = .closeTask ∧ t = s.close) := by
  cases ev with
  | connectDone => simp [Io.step, hc] at ht
  | connectFailed => simp [Io.step, hc] at ht
  | readDone op bytes =>
    simp only [Io.step] at ht
    split at ht <;> cases ht
    rename_i hm
    exact .inl ⟨op,bytes,rfl,hm.1,hm.2,rfl⟩
  | readFailed op =>
    simp only [Io.step] at ht
    split at ht <;> cases ht
    rename_i hm
    exact .inr (.inl ⟨op,rfl,hm,rfl⟩)
  | writeDone op =>
    simp only [Io.step] at ht
    split at ht
    · rename_i hm
      cases op with
      | validation => exact .inr (.inr (.inl ⟨rfl,hm,ht⟩))
      | header => exact .inr (.inr (.inr (.inl ⟨.header,rfl,rfl,hm,ht⟩)))
      | body => exact .inr (.inr (.inr (.inl ⟨.body,rfl,rfl,hm,ht⟩)))
    · cases ht
  | writeFailed op =>
    simp only [Io.step] at ht
    split at ht <;> cases ht
    rename_i hm
    exact .inr (.inr (.inr (.inr (.inl ⟨op,rfl,hm,rfl⟩))))
  | sendTask msg => exact .inr (.inr (.inr (.inr (.inr (.inl ⟨msg,rfl,ht⟩)))))
  | closeTask =>
    cases ht
    exact .inr (.inr (.inr (.inr (.inr (.inr ⟨rfl,rfl⟩)))))

structure Keeps (s t : Io T) : Prop where
  owner : t.conn.nOwnerType = s.conn.nOwnerType
  id : t.conn.id = s.conn.id
  flag : t.conn.connectionFlag = s.conn.connectionFlag

omit [EnumId T] in
theorem MessageWritesOnly.keeps {s t : Io T} (w : MessageWritesOnly s t) : Keeps s t := by
  obtain ⟨queue,new,-,rfl⟩ := w
  exact ⟨rfl,rfl,rfl⟩

theorem keeps_onRead (s : Io T) (op : ReadOp) (bytes : List UInt8) : Keeps s (s.onRead op bytes) := by
  cases op with
  | validation =>
    simp only [Io.onRead, Io.validationRead]
    split
    · split <;> exact ⟨rfl,rfl,rfl⟩
    · exact ⟨rfl,rfl,rfl⟩
  | header =>
    simp only [Io.onRead, Io.headerRead]
    split <;> exact ⟨rfl,rfl,rfl⟩
  | body size => exact ⟨rfl,rfl,rfl⟩

theorem keeps_onWrite {s t : Io T} {op : WriteOp} (ht : s.onWrite op = some t) : Keeps s t := by
  cases op with
  | validation =>
    simp only [Io.onWrite] at ht
    split at ht <;> cases ht <;> exact ⟨rfl,rfl,rfl⟩
  | header | body => exact (messageWritesOnly_onWrite rfl ht).keeps

theorem keeps_step {s t : Io T} {ev : Event T} (hev : ev ≠ .connectDone)
    (ht : s.step ev = some t) : Keeps s t := by
  cases ev with
  | connectDone => exact absurd rfl hev
  | connectFailed | readFailed | writeFailed =>
    simp only [Io.step] at ht
    split at ht <;> cases ht
    exact ⟨rfl,rfl,rfl⟩
  | readDone op bytes =>
    simp only [Io.step] at ht
    split at ht <;> cases ht
    have h := keeps_onRead (s.endRead op) op bytes
    exact ⟨h.owner,h.id,h.flag⟩
  | writeDone op =>
    simp only [Io.step] at ht
    split at ht
    · have h := keeps_onWrite ht
      exact ⟨h.owner,h.id,h.flag⟩
    · cases ht
  | sendTask msg => exact (messageWritesOnly_sendTask ht).keeps
  | closeTask =>
    cases ht
    exact ⟨rfl,rfl,rfl⟩

theorem fixed_step {s t : Io T} {ev : Event T} (ht : s.step ev = some t) :
    t.conn.nOwnerType = s.conn.nOwnerType ∧ t.conn.id = s.conn.id := by
  by_cases hev : ev = .connectDone
  · subst hev
    simp only [Io.step] at ht
    split at ht <;> cases ht
    exact ⟨rfl,rfl⟩
  · have h := keeps_step hev ht
    exact ⟨h.owner,h.id⟩

def pushes (acts : List (Act T)) : List (OwnedMessage T) :=
  acts.filterMap fun
    | .pushBack item => some item
    | _ => none

omit [EnumId T] in
@[simp] theorem pushes_append (xs ys : List (Act T)) : pushes (xs ++ ys) = pushes xs ++ pushes ys :=
  List.filterMap_append

def QueueLogged (qIn : List (OwnedMessage T)) (s : Io T) : Prop :=
  s.qMessagesIn = qIn ++ pushes s.acts

section QueueLogged
variable {qIn : List (OwnedMessage T)} {s t : Io T}

omit [EnumId T] in
theorem queueLogged_act {act : Act T} (h : QueueLogged qIn s) (hact : pushes [act] = [])
    (c : Connection T) : QueueLogged qIn { s with conn := c, acts := s.acts ++ [act] } := by
  simp only [QueueLogged, pushes_append, hact, List.append_nil]
  exact h

omit [EnumId T] in
theorem queueLogged_addToIncomingMessageQueue (h : QueueLogged qIn s) :
    QueueLogged qIn s.addToIncomingMessageQueue := by
  unfold QueueLogged at h
  simp [QueueLogged, Io.addToIncomingMessageQueue, Io.readHeader, Io.asyncRead, pushes, h]

theorem queueLogged_onRead (h : QueueLogged qIn s) (op : ReadOp) (bytes : List UInt8) :
    QueueLogged qIn (s.onRead op bytes) := by
  cases op with
  | validation =>
    simp only [Io.onRead, Io.validationRead]
    split
    · split
      · exact queueLogged_act (s := { s with acts := _ }) (queueLogged_act h rfl s.conn) rfl _
      · exact queueLogged_act h rfl _
    · exact queueLogged_act h rfl _
  | header =>
    simp only [Io.onRead, Io.headerRead]
    split
    · exact queueLogged_act h rfl _
    · exact queueLogged_addToIncomingMessageQueue h
  | body size => exact queueLogged_addToIncomingMessageQueue h

omit [EnumId T] in
theorem queueLogged_messageWrites (h : QueueLogged qIn s) (w : MessageWritesOnly s t) :
    QueueLogged qIn t := by
  obtain ⟨queue,new,-,rfl⟩ := w
  have hnew : pushes (new.map fun b => Act.asyncWrite (T := T) b.1 b.2) = [] := by
    simp [pushes, List.filterMap_map]
  simp only [QueueLogged, pushes_append, hnew, List.append_nil]
  exact h

theorem queueLogged_step {ev : Event T} (h : QueueLogged qIn s) (ht : s.step ev = some t) :
    QueueLogged qIn t := by
  cases ev with
  | connectDone =>
    simp only [Io.step] at ht
    split at ht <;> cases ht
    exact queueLogged_act h rfl _
  | connectFailed =>
    simp only [Io.step] at ht
    split at ht <;> cases ht
    exact h
  | readDone op bytes =>
    simp only [Io.step] at ht
    split at ht <;> cases ht
    exact queueLogged_onRead (s := s.endRead op) h op bytes
  | readFailed op =>
    simp only [Io.step] at ht
    split at ht <;> cases ht
    exact queueLogged_act h rfl _
  | writeDone op =>
    simp only [Io.step] at ht
    split at ht
    · cases op with
      | validation =>
        simp only [Io.onWrite] at ht
        split at ht <;> cases ht
        · exact queueLogged_act h rfl _
        · exact h
      | header => exact queueLogged_messageWrites (s := s.endWrite _) h (messageWritesOnly_onWrite rfl ht)
      | body => exact queueLogged_messageWrites (s := s.endWrite _) h (messageWritesOnly_onWrite rfl ht)
    · cases ht
  | writeFailed op =>
    simp only [Io.step] at ht
    split at ht <;> cases ht
    exact queueLogged_act h rfl _
  | sendTask msg => exact queueLogged_messageWrites h (messageWritesOnly_sendTask ht)
  | closeTask =>
    cases ht
    exact queueLogged_act h rfl _

end QueueLogged

/-! A connection never looks at the incoming queue or at what it did before: with more in
front of these, it does the same. -/

def Io.under (q : List (OwnedMessage T)) (acts : List (Act T)) (s : Io T) : Io T :=
  { s with qMessagesIn := q ++ s.qMessagesIn, acts := acts ++ s.acts }

section Under
variable (q : List (OwnedMessage T)) (acts : List (Act T)) (s : Io T)

omit [EnumId T] in
theorem asyncWrite_under (op : WriteOp) (buffer : List UInt8) :
    (s.under q acts).asyncWrite op buffer = (s.asyncWrite op buffer).under q acts := by
  simp [Io.under, Io.asyncWrite]

theorem onRead_under (op : ReadOp) (bytes : List UInt8) :
    (s.under q acts).onRead op bytes = (s.onRead op bytes).under q acts := by
  cases op with
  | validation =>
    cases howner : s.conn.nOwnerType with
    | kServer =>
      by_cases hcheck : toUInt64 bytes = s.conn.nHandshakeCheck
      · simp [Io.onRead, Io.validationRead, Io.under, howner, hcheck, Io.readHeader, Io.asyncRead]
      · simp [Io.onRead, Io.validationRead, Io.under, howner, hcheck, Io.close]
    | kClient =>
      simp [Io.onRead, Io.validationRead, Io.under, howner, Io.writeValidation, Io.asyncWrite]
  | header =>
    by_cases hpos : 0 < (MessageHeader.ofBytes bytes : MessageHeader T).size
    · simp [Io.onRead, Io.headerRead, Io.under, hpos, Io.readBody, Io.asyncRead]
    · simp [Io.onRead, Io.headerRead, Io.under, hpos, Io.addToIncomingMessageQueue, Io.readHeader,
        Io.asyncRead]
  | body size =>
    simp [Io.onRead, Io.under, Io.addToIncomingMessageQueue, Io.readHeader, Io.asyncRead]

theorem writeHeader_under :
    (s.under q acts).writeHeader = s.writeHeader.map (·.under q acts) := by
  simp only [Io.writeHeader, Option.map_map]
  exact Option.map_congr fun msg _ => asyncWrite_under q acts s _ _

theorem popAndContinue_under :
    (s.under q acts).popAndContinue = s.popAndContinue.map (·.under q acts) := by
  cases hq : s.conn.qMessagesOut with
  | nil => simp [Io.popAndContinue, Io.under, hq]
  | cons msg rest =>
    cases rest with
    | nil => simp [Io.popAndContinue, Io.under, hq]
    | cons next rest =>
      have h := writeHeader_under q acts
        { s with conn := { s.conn with qMessagesOut := next :: rest } }
      simpa [Io.popAndContinue, Io.under, hq] using h

theorem onWrite_under (op : WriteOp) :
    (s.under q acts).onWrite op = (s.onWrite op).map (·.under q acts) := by
  cases op with
  | validation =>
    cases howner : s.conn.nOwnerType <;>
      simp [Io.onWrite, Io.under, howner, Io.readHeader, Io.asyncRead]
  | header =>
    cases hq : s.conn.qMessagesOut.head? with
    | none => simp [Io.onWrite, Io.under, hq]
    | some msg =>
      by_cases hbody : 0 < msg.body.length
      · simp [Io.onWrite, Io.under, hq, hbody, Io.writeBody, Io.asyncWrite]
      · have h := popAndContinue_under q acts s
        simpa [Io.onWrite, Io.under, hq, hbody] using h
  | body => exact popAndContinue_under q acts s

theorem sendTask_under (msg : Message T) :
    (s.under q acts).sendTask msg = (s.sendTask msg).map (·.under q acts) := by
  cases hq : s.conn.qMessagesOut with
  | nil =>
    have h := writeHeader_under q acts { s with conn := { s.conn with qMessagesOut := [msg] } }
    simpa [Io.sendTask, Io.under, hq] using h
  | cons m rest => simp [Io.sendTask, Io.under, hq]

theorem step_under (ev : Event T) :
    (s.under q acts).step ev = (s.step ev).map (·.under q acts) := by
  cases ev with
  | connectDone =>
    by_cases h : s.conn.connecting = true
    · simp [Io.step, Io.under, h, Io.connected, Io.readValidation, Io.asyncRead]
    · simp [Io.step, Io.under, h]
  | connectFailed =>
    by_cases h : s.conn.connecting = true <;> simp [Io.step, Io.under, h]
  | readDone op bytes =>
    change (if op ∈ s.conn.reads ∧ bytes.length = op.length then
      some (((s.endRead op).under q acts).onRead op bytes) else none) = _
    rw [onRead_under, Io.step]
    split <;> rfl
  | readFailed op =>
    by_cases h : op ∈ s.conn.reads <;> simp [Io.step, Io.under, h, Io.endRead, Io.close]
  | writeDone op =>
    change (if op ∈ s.conn.writes then ((s.endWrite op).under q acts).onWrite op else none) = _
    rw [onWrite_under, Io.step]
    split <;> rfl
  | writeFailed op =>
    by_cases h : op ∈ s.conn.writes <;> simp [Io.step, Io.under, h, Io.endWrite, Io.close]
  | sendTask msg => exact sendTask_under q acts s msg
  | closeTask => simp [Io.step, Io.under, Io.close]

end Under

theorem acts_step {s t : Io T} {ev : Event T} (ht : s.step ev = some t) : s.acts <+: t.acts := by
  have hs : s = (⟨s.conn,[],[]⟩ : Io T).under s.qMessagesIn s.acts := by simp [Io.under]
  rw [hs, step_under] at ht
  obtain ⟨u,-,rfl⟩ := Option.map_eq_some_iff.mp ht
  exact List.prefix_append _ _

end TransmissionPlatform.Net
