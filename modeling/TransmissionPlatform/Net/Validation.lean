import TransmissionPlatform.Net.Connection

/-!
The reading half of a server side: `ReadValidation`, then `ReadHeader` and `ReadBody`.
Each callback starts the next read or none, so the read that is outstanding tells how far
the client got. `ReadState` lists the situations, and every event keeps to them.
-/

set_option autoImplicit false

namespace TransmissionPlatform.Net
open LittleEndian StepSystem

variable {T : Type}

def Act.isOnClientValidated : Act T → Bool
  | .onClientValidated => true
  | _ => false

def Act.accepts : Act T → Bool
  | .onClientValidated => true
  | .pushBack _ => true
  | _ => false

def readsStarted (acts : List (Act T)) : List ReadOp :=
  acts.filterMap fun
    | .asyncRead op => some op
    | _ => none

def Event.bytesRead : Event T → List UInt8
  | .readDone _ bytes => bytes
  | _ => []

def Event.endsRead : Event T → Bool
  | .readDone _ _ => true
  | .readFailed _ => true
  | _ => false

theorem Event.bytesRead_eq_nil {ev : Event T} (h : ev.endsRead = false) : ev.bytesRead = [] := by
  cases ev with
  | readDone op bytes => cases h
  | _ => rfl

def received (evs : List (Event T)) : List UInt8 := evs.flatMap Event.bytesRead

@[simp] theorem received_snoc (evs : List (Event T)) (ev : Event T) :
    received (evs ++ [ev]) = received evs ++ ev.bytesRead := by
  simp [received]

structure Incoming (T : Type) where
  reads : List ReadOp
  isOpen : Bool
  accepted : List (Act T)
  started : List ReadOp

def Io.incoming (s : Io T) : Incoming T :=
  ⟨s.conn.reads,s.conn.isOpen,s.acts.filter (·.accepts),readsStarted s.acts⟩

/-- What the constructor and `ConnectToClient` fix for the life of a server side. -/
structure Connection.ServerSide (me : Nat) (now : UInt64) (c : Connection T) : Prop where
  self_eq : c.self = me
  owner : c.nOwnerType = .kServer
  connecting : c.connecting = false
  handshakeOut : c.nHandshakeOut = now
  handshakeCheck : c.nHandshakeCheck = scramble now

def Accepted (self : Nat) (check : UInt64) (recv : List UInt8) (acts : List (Act T)) : Prop :=
  recv.take 8 = ofUInt64 check ∧
    ∃ msgs : List (Message T), acts = .onClientValidated :: msgs.map fun m => .pushBack ⟨some self,m⟩

inductive ReadState (self : Nat) (check : UInt64) (recv : List UInt8) : Incoming T → Prop where
  | waiting {isOpen : Bool} {started : List ReadOp} : recv = [] →
      ReadState self check recv ⟨[.validation],isOpen,[],started⟩
  | reading {op : ReadOp} {isOpen : Bool} {acts : List (Act T)} {started : List ReadOp} :
      op ≠ .validation → Accepted self check recv acts →
      ReadState self check recv ⟨[op],isOpen,acts,started⟩
  | shut {acts : List (Act T)} {started : List ReadOp} :
      (acts = [] ∨ Accepted self check recv acts) → ReadState self check recv ⟨[],false,acts,started⟩

theorem Accepted.more {self : Nat} {check : UInt64} {recv more : List UInt8} {acts : List (Act T)}
    (h : Accepted self check recv acts) : Accepted self check (recv ++ more) acts := by
  obtain ⟨hrecv,msgs,hacts⟩ := h
  have hlen : 8 ≤ recv.length := by
    have := congrArg List.length hrecv
    rw [List.length_take, ofUInt64_length] at this
    omega
  exact ⟨by rw [List.take_append_of_le_length hlen, hrecv],msgs,hacts⟩

theorem Accepted.push {self : Nat} {check : UInt64} {recv : List UInt8} {acts : List (Act T)}
    (h : Accepted self check recv acts) (msg : Message T) :
    Accepted self check recv (acts ++ [.pushBack ⟨some self,msg⟩]) := by
  obtain ⟨hrecv,msgs,rfl⟩ := h
  exact ⟨hrecv,msgs ++ [msg],by simp⟩

theorem ReadState.close {self : Nat} {check : UInt64} {recv : List UInt8} {i : Incoming T}
    (h : ReadState self check recv i) : ReadState self check recv { i with isOpen := false } := by
  cases h with
  | waiting hrecv => exact .waiting hrecv
  | reading hop hacts => exact .reading hop hacts
  | shut hacts => exact .shut hacts

theorem ReadState.fail {self : Nat} {check : UInt64} {recv : List UInt8} {i : Incoming T}
    {op : ReadOp} (h : ReadState self check recv i) (hm : op ∈ i.reads) :
    i.reads.erase op = [] ∧
      ReadState self check recv { i with reads := i.reads.erase op, isOpen := false } := by
  cases h with
  | waiting hrecv =>
    obtain rfl := List.mem_singleton.mp hm
    exact ⟨rfl,.shut (.inl rfl)⟩
  | reading hop hacts =>
    obtain rfl := List.mem_singleton.mp hm
    simp only [List.erase_cons_head]
    exact ⟨trivial,.shut (.inr hacts)⟩
  | shut hacts => cases hm

section Frame
variable {self : Nat} {now : UInt64} {s t : Io T}

structure ReadsUntouched (s t : Io T) : Prop where
  incoming : t.incoming = s.incoming ∨ t.incoming = { s.incoming with isOpen := false }
  temporary : t.conn.msgTemporaryIn = s.conn.msgTemporaryIn
  queue : t.qMessagesIn = s.qMessagesIn

theorem ReadsUntouched.reads (h : ReadsUntouched s t) : t.conn.reads = s.conn.reads := by
  obtain hin | hin := h.incoming <;> exact congrArg Incoming.reads hin

theorem readsUntouched_messageWrites (w : MessageWritesOnly s t) : ReadsUntouched s t := by
  obtain ⟨queue,new,-,rfl⟩ := w
  refine ⟨.inl ?_,rfl,rfl⟩
  simp [Io.incoming, readsStarted, List.filterMap_map, List.filter_map, Function.comp_def,
    Act.accepts]

theorem incoming_close : s.close.incoming = { s.incoming with isOpen := false } := by
  simp [Io.incoming, Io.close, Act.accepts, readsStarted]

theorem serverSide_cases [EnumId T] (hside : s.conn.ServerSide self now) {ev : Event T}
    (ht : s.step ev = some t) :
    (∃ op bytes, ev = .readDone op bytes ∧ op ∈ s.conn.reads ∧ bytes.length = op.length ∧
      t = (s.endRead op).onRead op bytes) ∨
    (∃ op, ev = .readFailed op ∧ op ∈ s.conn.reads ∧ t = (s.endRead op).close) ∨
    (ev.endsRead = false ∧ ReadsUntouched s t) := by
  obtain h | h | ⟨rfl,-,ht⟩ | ⟨op,hop,rfl,-,ht⟩ | ⟨op,rfl,-,rfl⟩ | ⟨msg,rfl,ht⟩ | ⟨rfl,rfl⟩ :=
    step_cases hside.connecting ht
  · exact .inl h
  · exact .inr (.inl h)
  · simp only [Io.onWrite, Io.endWrite, hside.owner, Option.some.injEq] at ht
    subst ht
    exact .inr (.inr ⟨rfl,.inl (by simp [Io.incoming]),rfl,rfl⟩)
  · have h := readsUntouched_messageWrites (messageWritesOnly_onWrite hop ht)
    exact .inr (.inr ⟨rfl,h.incoming,h.temporary,h.queue⟩)
  · exact .inr (.inr ⟨rfl,.inr incoming_close,rfl,rfl⟩)
  · exact .inr (.inr ⟨rfl,readsUntouched_messageWrites (messageWritesOnly_sendTask ht)⟩)
  · exact .inr (.inr ⟨rfl,.inr incoming_close,rfl,rfl⟩)

theorem Connection.ServerSide.endRead (hside : s.conn.ServerSide self now) (op : ReadOp) :
    (s.endRead op).conn.ServerSide self now :=
  ⟨hside.self_eq,hside.owner,hside.connecting,hside.handshakeOut,hside.handshakeCheck⟩

theorem incoming_onRead_validation [EnumId T] (hside : s.conn.ServerSide self now)
    {bytes : List UInt8} (hlen : bytes.length = 8) :
    (bytes = ofUInt64 (scramble now) ∧
      (s.onRead .validation bytes).incoming =
        { s.incoming with reads := s.incoming.reads ++ [.header]
                          accepted := s.incoming.accepted ++ [.onClientValidated]
                          started := s.incoming.started ++ [.header] }) ∨
    (bytes ≠ ofUInt64 (scramble now) ∧
      (s.onRead .validation bytes).incoming = { s.incoming with isOpen := false }) := by
  simp only [Io.onRead, Io.validationRead, hside.owner, hside.handshakeCheck]
  by_cases heq : toUInt64 bytes = scramble now
  · left
    refine ⟨by rw [← heq, ofUInt64_toUInt64 hlen],?_⟩
    simp [heq, Io.incoming, Io.readHeader, Io.asyncRead, Act.accepts, readsStarted]
  · right
    refine ⟨fun h => heq (by rw [h, toUInt64_ofUInt64]),?_⟩
    simp only [heq, if_false]
    exact incoming_close

theorem incoming_onRead [EnumId T] (hside : s.conn.ServerSide self now) {op : ReadOp}
    (hop : op ≠ .validation) (bytes : List UInt8) :
    ∃ next, next ≠ .validation ∧ ∃ msgs : List (Message T), msgs.length ≤ 1 ∧
      (s.onRead op bytes).incoming =
        { s.incoming with
            reads := s.incoming.reads ++ [next]
            accepted := s.incoming.accepted ++ msgs.map fun m => .pushBack ⟨some self,m⟩
            started := s.incoming.started ++ [next] } := by
  obtain ⟨msg,h | h⟩ := onRead_cases s hop bytes
  · refine ⟨.body msg.body.length,by simp,[],by simp,?_⟩
    simp [h, Io.incoming, Io.readBody, Io.asyncRead, Act.accepts, readsStarted]
  · refine ⟨.header,by simp,[msg],by simp,?_⟩
    simp [h, Io.incoming, Io.addToIncomingMessageQueue, Io.readHeader, Io.asyncRead, Act.accepts,
      readsStarted, Connection.owned, hside.owner, hside.self_eq]

theorem incoming_step [EnumId T] (hside : s.conn.ServerSide self now) {ev : Event T}
    (ht : s.step ev = some t) :
    (∃ op ∈ s.conn.reads, ∃ next new,
      (op = .validation ∧ new = [.onClientValidated] ∨
        op ≠ .validation ∧ ∃ msgs : List (Message T),
          new = msgs.map fun m => .pushBack ⟨some self,m⟩) ∧
      t.incoming = { s.incoming with reads := s.incoming.reads.erase op ++ [next]
                                     accepted := s.incoming.accepted ++ new
                                     started := s.incoming.started ++ [next] }) ∨
    (∃ op ∈ s.conn.reads,
      t.incoming = { s.incoming with reads := s.incoming.reads.erase op, isOpen := false }) ∨
    t.incoming = s.incoming ∨ t.incoming = { s.incoming with isOpen := false } := by
  obtain ⟨op,bytes,-,hm,hlen,rfl⟩ | ⟨op,-,hm,rfl⟩ | ⟨-,hsame⟩ := serverSide_cases hside ht
  · by_cases hop : op = .validation
    · subst hop
      obtain ⟨-,h⟩ | ⟨-,h⟩ := incoming_onRead_validation (hside.endRead .validation) hlen
      · exact .inl ⟨.validation,hm,.header,_,.inl ⟨rfl,rfl⟩,h⟩
      · exact .inr (.inl ⟨.validation,hm,h⟩)
    · obtain ⟨next,-,msgs,-,h⟩ := incoming_onRead (hside.endRead op) hop bytes
      exact .inl ⟨op,hm,next,_,.inr ⟨hop,msgs,rfl⟩,h⟩
  · exact .inr (.inl ⟨op,hm,incoming_close⟩)
  · exact .inr (.inr hsame.incoming)

theorem serverSide_step [EnumId T] (hside : s.conn.ServerSide self now) {ev : Event T}
    (ht : s.step ev = some t) : t.conn.ServerSide self now := by
  have writes : ∀ u : Io T, u.conn.ServerSide self now → MessageWritesOnly u t →
      t.conn.ServerSide self now := by
    rintro u hu ⟨queue,new,-,rfl⟩
    exact ⟨hu.self_eq,hu.owner,hu.connecting,hu.handshakeOut,hu.handshakeCheck⟩
  obtain ⟨hself,howner,hconn,hout,hcheck⟩ := hside
  obtain ⟨op,bytes,-,-,-,rfl⟩ | ⟨op,-,-,rfl⟩ | ⟨-,-,ht⟩ | ⟨op,hop,-,-,ht⟩ | ⟨op,-,-,rfl⟩ |
    ⟨msg,-,ht⟩ | ⟨-,rfl⟩ := step_cases hconn ht
  · by_cases hop : op = .validation
    · subst hop
      simp only [Io.onRead, Io.validationRead, Io.endRead, howner, hcheck]
      split
      · exact ⟨hself,rfl,hconn,hout,rfl⟩
      · exact ⟨hself,rfl,hconn,hout,rfl⟩
    · obtain ⟨msg,h | h⟩ := onRead_cases (s.endRead op) hop bytes <;> rw [h]
      · exact ⟨hself,howner,hconn,hout,hcheck⟩
      · exact ⟨hself,howner,hconn,hout,hcheck⟩
  · exact ⟨hself,howner,hconn,hout,hcheck⟩
  · simp only [Io.onWrite, Io.endWrite, howner, Option.some.injEq] at ht
    subst ht
    exact ⟨hself,rfl,hconn,hout,hcheck⟩
  · exact writes (s.endWrite op) ⟨hself,howner,hconn,hout,hcheck⟩ (messageWritesOnly_onWrite hop ht)
  · exact ⟨hself,howner,hconn,hout,hcheck⟩
  · exact writes s ⟨hself,howner,hconn,hout,hcheck⟩ (messageWritesOnly_sendTask ht)
  · exact ⟨hself,howner,hconn,hout,hcheck⟩

end Frame

variable [EnumId T]

def ReadInv (self : Nat) (now : UInt64) (evs : List (Event T)) (s : Io T) : Prop :=
  s.conn.ServerSide self now ∧ ReadState self (scramble now) (received evs) s.incoming

section Runs
variable {self : Nat} {now : UInt64} {evs : List (Event T)} {s t : Io T}

theorem readInv_readDone (hs : ReadInv self now evs s) {op : ReadOp} (hm : op ∈ s.conn.reads)
    {bytes : List UInt8} (hlen : bytes.length = op.length) :
    ReadState self (scramble now) (received evs ++ bytes)
      ((s.endRead op).onRead op bytes).incoming := by
  obtain ⟨hside,hstate⟩ := hs
  have hside' := hside.endRead op
  have hread : op ∈ s.incoming.reads := hm
  have hin : (s.endRead op).incoming = { s.incoming with reads := s.incoming.reads.erase op } := rfl
  generalize s.incoming = i at hstate hread hin
  cases hstate with
  | waiting hrecv =>
    obtain rfl := List.mem_singleton.mp hread
    rw [hrecv, List.nil_append]
    obtain ⟨hbytes,h⟩ | ⟨-,h⟩ := incoming_onRead_validation hside' hlen
    · have htake : bytes.take 8 = ofUInt64 (scramble now) := by
        rw [← hbytes]
        exact List.take_of_length_le (Nat.le_of_eq hlen)
      rw [h, hin]
      exact .reading (by simp) ⟨htake,[],rfl⟩
    · rw [h, hin]
      exact .shut (.inl rfl)
  | reading hop hacts =>
    obtain rfl := List.mem_singleton.mp hread
    obtain ⟨next,hnext,msgs,hone,h⟩ := incoming_onRead hside' hop bytes
    rw [h, hin, List.erase_cons_head]
    refine .reading hnext ?_
    match msgs, hone with
    | [], _ => simpa using hacts.more
    | [msg], _ => exact hacts.more.push msg
  | shut hacts => cases hread

theorem readInv_step {ev : Event T} (hs : ReadInv self now evs s) (ht : s.step ev = some t) :
    ReadInv self now (evs ++ [ev]) t := by
  refine ⟨serverSide_step hs.1 ht,?_⟩
  rw [received_snoc]
  obtain ⟨op,bytes,rfl,hm,hlen,rfl⟩ | ⟨op,rfl,hm,rfl⟩ | ⟨hev,hsame⟩ := serverSide_cases hs.1 ht
  · exact readInv_readDone hs hm hlen
  · rw [incoming_close]
    simp only [Event.bytesRead, List.append_nil]
    exact (hs.2.fail (i := s.incoming) hm).2
  · rw [Event.bytesRead_eq_nil hev, List.append_nil]
    obtain hin | hin := hsame.incoming <;> rw [hin]
    · exact hs.2
    · exact hs.2.close

theorem readInv_start (self : Nat) (isOpen : Bool) (now : UInt64) (uid : UInt32)
    (qIn : List (OwnedMessage T)) :
    ReadInv self now [] (Io.connectToClient uid ⟨.new self .kServer isOpen now,qIn,[]⟩) := by
  cases isOpen with
  | false => exact ⟨⟨rfl,rfl,rfl,rfl,rfl⟩,.shut (.inl rfl)⟩
  | true => exact ⟨⟨rfl,rfl,rfl,rfl,rfl⟩,.waiting rfl⟩

theorem shut_step {ev : Event T} (hs : ReadInv self now evs s) (hreads : s.conn.reads = [])
    (hopen : s.conn.isOpen = false) (ht : s.step ev = some t) :
    t.conn.reads = [] ∧ t.conn.isOpen = false ∧ readsStarted t.acts = readsStarted s.acts := by
  obtain ⟨op,bytes,-,hm,-,-⟩ | ⟨op,-,hm,-⟩ | ⟨-,hsame⟩ := serverSide_cases hs.1 ht
  · rw [hreads] at hm
    cases hm
  · rw [hreads] at hm
    cases hm
  · refine ⟨hsame.reads.trans hreads,?_,?_⟩
    · obtain hin | hin := hsame.incoming
      · exact (congrArg Incoming.isOpen hin).trans hopen
      · exact congrArg Incoming.isOpen hin
    · obtain hin | hin := hsame.incoming <;> exact congrArg Incoming.started hin

theorem readInv_run {isOpen : Bool} {uid : UInt32} {qIn : List (OwnedMessage T)}
    (run : exec Io.step (Io.connectToClient uid ⟨.new self .kServer isOpen now,qIn,[]⟩) evs =
      some s) : ReadInv self now evs s :=
  exec_history (I := ReadInv self now) (readInv_start self isOpen now uid qIn)
    (fun _ _ _ _ => readInv_step) run

def Event.Rejects (now : UInt64) : Event T → Prop
  | .readFailed _ => True
  | .readDone .validation bytes => bytes ≠ ofUInt64 (scramble now)
  | _ => False

theorem rejected_step {ev : Event T} (hs : ReadInv self now evs s) (hev : ev.Rejects now)
    (ht : s.step ev = some t) :
    t.conn.reads = [] ∧ t.conn.isOpen = false ∧ readsStarted t.acts = readsStarted s.acts := by
  obtain ⟨op,bytes,rfl,hm,hlen,rfl⟩ | ⟨op,rfl,hm,rfl⟩ | ⟨hnot,-⟩ := serverSide_cases hs.1 ht
  · have hop : op = .validation := by
      cases op with
      | validation => rfl
      | header => exact hev.elim
      | body size => exact hev.elim
    subst hop
    have hside := hs.1.endRead .validation
    obtain ⟨hbytes,-⟩ | ⟨-,h⟩ := incoming_onRead_validation hside hlen
    · exact absurd hbytes hev
    · have hreads : s.conn.reads.erase .validation = [] := (hs.2.fail (i := s.incoming) hm).1
      exact ⟨(congrArg Incoming.reads h).trans hreads,congrArg Incoming.isOpen h,
        congrArg Incoming.started h⟩
  · have hreads : s.conn.reads.erase op = [] := (hs.2.fail (i := s.incoming) hm).1
    exact ⟨hreads,rfl,by simp [Io.close, Io.endRead, readsStarted]⟩
  · cases ev with
    | readDone op bytes => cases hnot
    | readFailed op => cases hnot
    | _ => exact hev.elim

theorem rejected_run {pre post : List (Event T)} {ev : Event T} {u : Io T}
    (hu : ReadInv self now pre u) (hev : ev.Rejects now)
    (run : exec Io.step u (ev :: post) = some s) :
    s.conn.reads = [] ∧ s.conn.isOpen = false ∧ readsStarted s.acts = readsStarted u.acts := by
  obtain ⟨v,hv,hpost⟩ := Option.bind_eq_some_iff.mp run
  have hrej := rejected_step hu hev hv
  have hinv : ReadInv self now (pre ++ [ev]) v := readInv_step hu hv
  refine (exec_history (I := fun more w => ReadInv self now (pre ++ [ev] ++ more) w ∧
    w.conn.reads = [] ∧ w.conn.isOpen = false ∧ readsStarted w.acts = readsStarted u.acts)
    ⟨by simpa using hinv,hrej⟩ ?_ hpost).2
  rintro more w a x ⟨hw,hreads,hopen,hstarted⟩ hstep
  obtain ⟨hreads',hopen',hstarted'⟩ := shut_step hw hreads hopen hstep
  exact ⟨by simpa using readInv_step hw hstep,hreads',hopen',hstarted'.trans hstarted⟩

end Runs

omit [EnumId T] in
theorem ReadState.accepted {self : Nat} {check : UInt64} {recv : List UInt8} {i : Incoming T}
    (h : ReadState self check recv i) : i.accepted = [] ∨ Accepted self check recv i.accepted := by
  cases h with
  | waiting hrecv => exact .inl rfl
  | reading hop hacts => exact .inr hacts
  | shut hacts => exact hacts

omit [EnumId T] in
theorem accepted_order {self : Nat} {check : UInt64} {recv : List UInt8} {acts : List (Act T)}
    (h : acts.filter (·.accepts) = [] ∨ Accepted self check recv (acts.filter (·.accepts))) :
    acts.countP (·.isOnClientValidated) ≤ 1 ∧
      ∀ pre item post, acts = pre ++ .pushBack item :: post →
        item.remote = some self ∧ .onClientValidated ∈ pre := by
  have hcount : acts.countP (·.isOnClientValidated) =
      (acts.filter (·.accepts)).countP (·.isOnClientValidated) := by
    rw [List.countP_filter]
    refine List.countP_congr fun a _ => ?_
    cases a <;> simp [Act.isOnClientValidated, Act.accepts]
  obtain hnone | ⟨-,msgs,hacts⟩ := h
  · constructor
    · rw [hcount, hnone]
      exact Nat.zero_le 1
    · rintro pre item post rfl
      have hmem : Act.pushBack item ∈ (pre ++ .pushBack item :: post).filter (·.accepts) := by
        simp [Act.accepts]
      rw [hnone] at hmem
      cases hmem
  · constructor
    · have hmsgs : (msgs.map fun m => Act.pushBack ⟨some self,m⟩).countP
          (·.isOnClientValidated) = 0 := by
        simp [List.countP_eq_zero, Act.isOnClientValidated]
      rw [hcount, hacts, List.countP_cons, hmsgs]
      exact Nat.le_refl 1
    · rintro pre item post rfl
      rw [List.filter_append, List.filter_cons_of_pos rfl] at hacts
      cases hpre : pre.filter (·.accepts) with
      | nil =>
        rw [hpre] at hacts
        cases hacts
      | cons a rest =>
        rw [hpre, List.cons_append, List.cons.injEq] at hacts
        obtain ⟨rfl,hrest⟩ := hacts
        have hfirst : Act.onClientValidated ∈ pre.filter (·.accepts) := by simp [hpre]
        have hmem : Act.pushBack item ∈ msgs.map fun m => Act.pushBack ⟨some self,m⟩ := by
          rw [← hrest]
          simp
        obtain ⟨m,-,hm⟩ := List.mem_map.mp hmem
        cases hm
        exact ⟨rfl,(List.mem_filter.mp hfirst).1⟩

/-- A server side accepts nothing from a client that has not answered its challenge, in any
run. At most one read is outstanding and the client is validated at most once, on the right
answer; every message pushed names this connection and comes after that. A wrong answer or a
failed read ends the reading for good. -/
theorem accepted_after_validation {self : Nat} {isOpen : Bool} {now : UInt64} {uid : UInt32}
    {qIn : List (OwnedMessage T)} {evs : List (Event T)} {s : Io T}
    (run : exec Io.step (Io.connectToClient uid ⟨.new self .kServer isOpen now,qIn,[]⟩) evs =
      some s) :
    s.conn.reads.length ≤ 1 ∧
    s.acts.countP (·.isOnClientValidated) ≤ 1 ∧
    s.qMessagesIn = qIn ++ pushes s.acts ∧
    (∀ pre item post, s.acts = pre ++ .pushBack item :: post →
      item.remote = some self ∧ .onClientValidated ∈ pre) ∧
    (.onClientValidated ∈ s.acts →
      (received evs).take 8 = ofUInt64 (scramble s.conn.nHandshakeOut)) ∧
    ∀ pre ev post u, evs = pre ++ ev :: post →
      exec Io.step (Io.connectToClient uid ⟨.new self .kServer isOpen now,qIn,[]⟩) pre = some u →
      ev.Rejects u.conn.nHandshakeOut →
      s.conn.reads = [] ∧ s.conn.isOpen = false ∧ readsStarted s.acts = readsStarted u.acts := by
  obtain ⟨hside,hstate⟩ := readInv_run run
  have hlogged : QueueLogged qIn s := by
    refine exec_invariant (I := QueueLogged qIn) (fun _ _ _ => queueLogged_step) ?_ run
    cases isOpen <;> exact (List.append_nil qIn).symm
  have hone : s.incoming.reads.length ≤ 1 := by
    generalize s.incoming = i at hstate
    cases hstate <;> simp
  have haccepted := hstate.accepted
  have horder := accepted_order haccepted
  refine ⟨hone,horder.1,hlogged,horder.2,?_,?_⟩
  · intro hmem
    have hin : Act.onClientValidated ∈ s.incoming.accepted := List.mem_filter.mpr ⟨hmem,rfl⟩
    obtain hnone | hacc := haccepted
    · rw [hnone] at hin
      cases hin
    · rw [hside.handshakeOut]
      exact hacc.1
  · rintro pre ev post u rfl hu hev
    have hinv := readInv_run hu
    rw [hinv.1.handshakeOut] at hev
    rw [exec_append, hu] at run
    exact rejected_run hinv hev run

theorem accepted_after_validation_oneMessage :
    ∃ s : Io NetMsgType, exec Io.step (Io.connectToClient 10000 ⟨.new 1 .kServer true 5,[],[]⟩)
      [.writeDone .validation, .readDone .validation (ofUInt64 (scramble 5)),
        .readDone .header (MessageHeader.bytes ⟨NetMsgType.kSeckeyAgree,1⟩),
        .readDone (.body 1) [7], .readFailed .header] = some s ∧
      s.qMessagesIn = pushes s.acts ∧ s.acts.countP (·.isOnClientValidated) ≤ 1 := by
  refine exists_exec rfl fun s run => ?_
  obtain ⟨-,hcount,hqueue,-⟩ := accepted_after_validation run
  exact ⟨hqueue,hcount⟩

end TransmissionPlatform.Net
