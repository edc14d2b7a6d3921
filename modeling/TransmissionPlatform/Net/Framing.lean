import TransmissionPlatform.Net.Sending
import TransmissionPlatform.Net.Validation

/-!
From the frames that one connection writes to the messages that its peer pushes. The peer
assembles every message in one member, and its loop sets the body of that member only when
the header announces one. So an empty message is pushed with the body of the last message
that had one: `delivered` says which messages arrive.
-/

set_option autoImplicit false

namespace TransmissionPlatform.Net
open StepSystem

variable {T : Type}

/-- The messages that the read loop pushes for the messages sent, from a member
`m_msgTemporaryIn` whose body is `stale`. -/
def delivered (stale : List UInt8) : List (Message T) → List (Message T)
  | [] => []
  | m :: ms =>
    let body := if m.body = [] then stale else m.body
    ⟨m.header,body⟩ :: delivered body ms

def leftOver (stale : List UInt8) : List (Message T) → List UInt8
  | [] => stale
  | m :: ms => leftOver (if m.body = [] then stale else m.body) ms

theorem delivered_append (stale : List UInt8) (xs ys : List (Message T)) :
    delivered stale (xs ++ ys) = delivered stale xs ++ delivered (leftOver stale xs) ys := by
  induction xs generalizing stale with
  | nil => rfl
  | cons m xs ih => simp only [List.cons_append, delivered, leftOver, ih]

theorem leftOver_append (stale : List UInt8) (xs ys : List (Message T)) :
    leftOver stale (xs ++ ys) = leftOver (leftOver stale xs) ys := by
  induction xs generalizing stale with
  | nil => rfl
  | cons m xs ih => simp only [List.cons_append, leftOver, ih]

/-- The header arrives, and the body if there is one. -/
def Message.ArrivesAs (m arrived : Message T) : Prop :=
  arrived.header = m.header ∧ (m.body ≠ [] → arrived = m)

theorem delivered_arrives (stale : List UInt8) (msgs : List (Message T)) (k : Nat) :
    Option.Rel Message.ArrivesAs msgs[k]? (delivered stale msgs)[k]? := by
  induction msgs generalizing stale k with
  | nil => exact .none
  | cons m msgs ih =>
    cases k with
    | zero => exact .some ⟨rfl,fun hbody => by simp [hbody]⟩
    | succ k => exact ih _ k

theorem sent_of_delivered {stale : List UInt8} {msgs : List (Message T)} {k : Nat}
    {arrived : Message T} (h : (delivered stale msgs)[k]? = some arrived) :
    ∃ m, msgs[k]? = some m ∧ m.ArrivesAs arrived := by
  have harrives := delivered_arrives stale msgs k
  generalize msgs[k]? = m at harrives ⊢
  rw [h] at harrives
  cases harrives with
  | some harrives => exact ⟨_,rfl,harrives⟩

theorem delivered_of_sent {msgs : List (Message T)} {k : Nat} {m : Message T}
    (h : msgs[k]? = some m) (stale : List UInt8) :
    ∃ arrived, (delivered stale msgs)[k]? = some arrived ∧ m.ArrivesAs arrived := by
  have harrives := delivered_arrives stale msgs k
  generalize (delivered stale msgs)[k]? = arrived at harrives ⊢
  rw [h] at harrives
  cases harrives with
  | some harrives => exact ⟨_,rfl,harrives⟩

/-- No message without a body comes after one with a body. -/
def EmptyFirst (msgs : List (Message T)) : Prop :=
  msgs.Pairwise fun earlier later => later.body = [] → earlier.body = []

instance (msgs : List (Message T)) : Decidable (EmptyFirst msgs) :=
  inferInstanceAs (Decidable (List.Pairwise _ msgs))

/-- What arrives is what was sent exactly when no stale body is ever pushed. -/
theorem delivered_eq_iff (stale : List UInt8) (msgs : List (Message T)) :
    delivered stale msgs = msgs ↔
      EmptyFirst msgs ∧ (stale ≠ [] → ∀ m ∈ msgs, m.body ≠ []) := by
  induction msgs generalizing stale with
  | nil => simp [delivered, EmptyFirst]
  | cons m msgs ih =>
    obtain ⟨header,body⟩ := m
    simp only [delivered, List.cons.injEq, Message.mk.injEq, true_and]
    by_cases hbody : body = []
    · subst hbody
      simp only [if_true, ih, EmptyFirst, List.pairwise_cons, List.forall_mem_cons]
      constructor
      · rintro ⟨rfl,hfirst,-⟩
        exact ⟨⟨fun _ _ _ => trivial,hfirst⟩,fun h => absurd rfl h⟩
      · rintro ⟨⟨-,hfirst⟩,hstale⟩
        by_cases hs : stale = []
        · exact ⟨hs,hfirst,fun h => absurd hs h⟩
        · exact absurd rfl (hstale hs).1
    · simp only [hbody, if_false, true_and, ih, EmptyFirst, List.pairwise_cons,
        List.forall_mem_cons]
      constructor
      · rintro ⟨hfirst,hall⟩
        exact ⟨⟨fun m hm hempty => absurd hempty (hall hbody m hm),hfirst⟩,
          fun _ => ⟨hbody,hall hbody⟩⟩
      · rintro ⟨⟨hlater,hfirst⟩,-⟩
        exact ⟨hfirst,fun _ m hm hempty => hlater m hm hempty⟩

section Frames
variable [EnumId T]

@[simp] theorem frames_nil : frames ([] : List (Message T)) = [] := rfl

@[simp] theorem frames_cons (m : Message T) (ms : List (Message T)) :
    frames (m :: ms) = m.header.bytes ++ m.body ++ frames ms := rfl

def Partial (T : Type) [EnumId T] (bytes : List UInt8) : Prop :=
  bytes = [] ∨ ∃ header : MessageHeader T, 0 < header.size ∧ bytes = header.bytes

theorem header_append_inj {h h' : MessageHeader T} {xs ys : List UInt8}
    (heq : h.bytes ++ xs = h'.bytes ++ ys) : h = h' ∧ xs = ys := by
  obtain ⟨hbytes,hrest⟩ := List.append_inj heq (by simp)
  have := congrArg (MessageHeader.ofBytes (T := T)) hbytes
  rw [MessageHeader.ofBytes_bytes, MessageHeader.ofBytes_bytes] at this
  exact ⟨this,hrest⟩

theorem frames_unique {done msgs : List (Message T)} {rest : List UInt8}
    (hdone : ∀ m ∈ done, m.Announced) (hmsgs : ∀ m ∈ msgs, m.Announced)
    (hrest : Partial T rest) (h : frames done ++ rest = frames msgs) :
    done = msgs ∧ rest = [] := by
  induction done generalizing msgs with
  | nil =>
    rw [frames_nil, List.nil_append] at h
    cases msgs with
    | nil => exact ⟨rfl,h⟩
    | cons m msgs =>
      exfalso
      rw [frames_cons, List.append_assoc] at h
      obtain rfl | ⟨header,hpos,rfl⟩ := hrest
      · have := congrArg List.length h
        simp only [List.length_nil, List.length_append, MessageHeader.bytes_length,
          MessageHeader.sizeOf] at this
        omega
      · rw [← List.append_nil header.bytes] at h
        obtain ⟨rfl,hbody⟩ := header_append_inj h
        obtain ⟨hnil,-⟩ := List.append_eq_nil_iff.mp hbody.symm
        have hsize : m.header.size.toNat = m.body.length := (List.forall_mem_cons.mp hmsgs).1
        rw [hnil, List.length_nil] at hsize
        have : 0 < m.header.size.toNat := UInt32.lt_iff_toNat_lt.mp hpos
        omega
  | cons d done ih =>
    obtain ⟨hd,hdone⟩ := List.forall_mem_cons.mp hdone
    rw [frames_cons, List.append_assoc, List.append_assoc] at h
    cases msgs with
    | nil =>
      have := congrArg List.length h
      simp [MessageHeader.sizeOf] at this
    | cons m msgs =>
      obtain ⟨hm,hmsgs⟩ := List.forall_mem_cons.mp hmsgs
      rw [frames_cons, List.append_assoc] at h
      obtain ⟨hheader,h⟩ := header_append_inj h
      have hlen : d.body.length = m.body.length := by
        unfold Message.Announced at hd hm
        rw [← hd, ← hm, hheader]
      obtain ⟨hbody,h⟩ := List.append_inj h hlen
      obtain ⟨rfl,hnil⟩ := ih hdone hmsgs h
      obtain ⟨header,body⟩ := d
      obtain ⟨header',body'⟩ := m
      cases hheader
      cases hbody
      exact ⟨rfl,hnil⟩

end Frames

@[simp] theorem resize_length (n : Nat) (body : List UInt8) : (Io.resize n body).length = n := by
  simp only [Io.resize, List.length_append, List.length_take, List.length_replicate]
  omega

variable [EnumId T]

/-- The read loop, given the messages whose frames it has read in full. -/
inductive LoopState (done : List (Message T)) : List UInt8 → List ReadOp → Message T → Prop where
  | header {temporary : Message T} : temporary.body = leftOver [] done →
      LoopState done (frames done) [.header] temporary
  | body {temporary : Message T} : 0 < temporary.header.size →
      temporary.body.length = temporary.header.size.toNat →
      LoopState done (frames done ++ temporary.header.bytes) [.body temporary.body.length] temporary
  | shut {bytes rest : List UInt8} {temporary : Message T} : Partial T rest →
      bytes = frames done ++ rest → LoopState done bytes [] temporary

theorem LoopState.partial {done : List (Message T)} {bytes : List UInt8} {reads : List ReadOp}
    {temporary : Message T} (h : LoopState done bytes reads temporary) :
    ∃ rest, Partial T rest ∧ bytes = frames done ++ rest := by
  cases h with
  | header hbody => exact ⟨[],.inl rfl,(List.append_nil _).symm⟩
  | body hpos hlen => exact ⟨_,.inr ⟨_,hpos,rfl⟩,rfl⟩
  | shut hrest hbytes => exact ⟨_,hrest,hbytes⟩

theorem LoopState.fail {done : List (Message T)} {bytes : List UInt8} {reads : List ReadOp}
    {temporary : Message T} {op : ReadOp} (h : LoopState done bytes reads temporary)
    (hm : op ∈ reads) : LoopState done bytes (reads.erase op) temporary := by
  obtain ⟨rest,hrest,hbytes⟩ := h.partial
  have hnone : reads.erase op = [] := by
    cases h with
    | header hbody =>
      obtain rfl := List.mem_singleton.mp hm
      rfl
    | body hpos hlen =>
      obtain rfl := List.mem_singleton.mp hm
      simp
    | shut hrest hbytes => cases hm
  rw [hnone]
  exact .shut hrest hbytes

theorem loopState_readDone {s : Io T} {done : List (Message T)} {bytes more : List UInt8}
    {op : ReadOp} (hs : LoopState done bytes s.conn.reads s.conn.msgTemporaryIn)
    (hm : op ∈ s.conn.reads) (hlen : more.length = op.length) :
    ∃ new, (∀ m ∈ new, m.Announced) ∧
      ((s.endRead op).onRead op more).qMessagesIn =
        s.qMessagesIn ++ (delivered (leftOver [] done) new).map s.conn.owned ∧
      LoopState (done ++ new) (bytes ++ more) ((s.endRead op).onRead op more).conn.reads
        ((s.endRead op).onRead op more).conn.msgTemporaryIn := by
  generalize hreads : s.conn.reads = reads at hs hm
  generalize htemp : s.conn.msgTemporaryIn = temporary at hs
  cases hs with
  | header hbody =>
    obtain rfl := List.mem_singleton.mp hm
    have hbytes : (MessageHeader.ofBytes more : MessageHeader T).bytes = more :=
      MessageHeader.bytes_ofBytes hlen
    generalize hheader : (MessageHeader.ofBytes more : MessageHeader T) = header at hbytes
    by_cases hpos : 0 < header.size
    · refine ⟨[],by simp,?_,?_⟩
      · simp [Io.onRead, Io.headerRead, Io.endRead, Io.readBody, Io.asyncRead, hheader, hpos,
          delivered]
      · have hread : LoopState done (frames done ++ header.bytes)
            [.body (Io.resize header.size.toNat temporary.body).length]
            ⟨header,Io.resize header.size.toNat temporary.body⟩ :=
          @LoopState.body T _ done ⟨header,Io.resize header.size.toNat temporary.body⟩ hpos
            (resize_length _ _)
        rw [hbytes] at hread
        simpa [Io.onRead, Io.headerRead, Io.endRead, hreads, htemp, hheader, hpos, Io.readBody,
          Io.asyncRead] using hread
    · have hzero : header.size.toNat = 0 := by
        rw [UInt32.lt_iff_toNat_lt] at hpos
        exact Nat.eq_zero_of_not_pos hpos
      have hnext : LoopState (done ++ [⟨header,[]⟩]) (frames (done ++ [⟨header,[]⟩])) [.header]
          ⟨header,temporary.body⟩ := .header (by simp [leftOver_append, leftOver, hbody])
      refine ⟨[⟨header,[]⟩],by simp [Message.Announced, hzero],?_,?_⟩
      · simp [Io.onRead, Io.headerRead, Io.endRead, Io.addToIncomingMessageQueue, Io.readHeader,
          Io.asyncRead, Connection.owned, hheader, hpos, htemp, hbody, delivered]
      · simpa [Io.onRead, Io.headerRead, Io.endRead, Io.addToIncomingMessageQueue, Io.readHeader,
          Io.asyncRead, hreads, htemp, hheader, hpos, hbytes] using hnext
  | body hpos hsize =>
    obtain rfl := List.mem_singleton.mp hm
    have hmore : more.length = temporary.header.size.toNat := hlen.trans hsize
    have hne : more ≠ [] := by
      rintro rfl
      rw [UInt32.lt_iff_toNat_lt] at hpos
      exact absurd hmore (Nat.ne_of_lt hpos)
    have hnext : LoopState (done ++ [⟨temporary.header,more⟩])
        (frames (done ++ [⟨temporary.header,more⟩])) [.header] ⟨temporary.header,more⟩ :=
      .header (by simp [leftOver_append, leftOver, hne])
    refine ⟨[⟨temporary.header,more⟩],by simp [Message.Announced, hmore],?_,?_⟩
    · simp [Io.onRead, Io.endRead, Io.addToIncomingMessageQueue, Io.readHeader, Io.asyncRead,
        Connection.owned, htemp, hne, delivered]
    · simpa [Io.onRead, Io.endRead, Io.addToIncomingMessageQueue, Io.readHeader, Io.asyncRead,
        hreads, htemp] using hnext
  | shut hrest hbytes => cases hm

def Connection.LoopOnly (c : Connection T) : Prop :=
  c.connecting = false ∧ (c.nOwnerType = .kServer ∨ .validation ∉ c.writes)

structure Connection.LoopStarts (c : Connection T) : Prop where
  loopOnly : c.LoopOnly
  reads : c.reads = [.header]
  fresh : c.msgTemporaryIn.body = []

def LoopInv (owned : Message T → OwnedMessage T) (qIn : List (OwnedMessage T))
    (bytes : List UInt8) (s : Io T) : Prop :=
  s.conn.LoopOnly ∧ s.conn.owned = owned ∧
    ∃ done, (∀ m ∈ done, m.Announced) ∧ s.qMessagesIn = qIn ++ (delivered [] done).map owned ∧
      LoopState done bytes s.conn.reads s.conn.msgTemporaryIn

section Loop
variable {owned : Message T → OwnedMessage T} {qIn : List (OwnedMessage T)}
  {bytes : List UInt8} {s t : Io T}

theorem loopInv_start (h : s.conn.LoopStarts) : LoopInv s.conn.owned s.qMessagesIn [] s := by
  have hloop : LoopState [] (frames []) [.header] s.conn.msgTemporaryIn := .header h.fresh
  exact ⟨h.loopOnly,rfl,[],by simp,by simp [delivered],h.reads ▸ hloop⟩

theorem loopInv_messageWrites (hs : LoopInv owned qIn bytes s) (w : MessageWritesOnly s t) :
    LoopInv owned qIn bytes t := by
  obtain ⟨⟨hconn,hwrites⟩,hrest⟩ := hs
  obtain ⟨queue,new,hnew,rfl⟩ := w
  refine ⟨⟨hconn,hwrites.imp_right ?_⟩,hrest⟩
  intro hnone hm
  obtain hm | hm := List.mem_append.mp hm
  · exact hnone hm
  · obtain ⟨b,hb,hop⟩ := List.mem_map.mp hm
    have := hnew b hb
    rw [hop] at this
    cases this

theorem LoopState.not_validation {done : List (Message T)} {reads : List ReadOp}
    {temporary : Message T} {op : ReadOp} (h : LoopState done bytes reads temporary)
    (hm : op ∈ reads) : op ≠ .validation := by
  cases h with
  | header hbody =>
    obtain rfl := List.mem_singleton.mp hm
    simp
  | body hpos hlen =>
    obtain rfl := List.mem_singleton.mp hm
    simp
  | shut hrest hbytes => cases hm

theorem loopInv_step {ev : Event T} (hs : LoopInv owned qIn bytes s) (ht : s.step ev = some t) :
    LoopInv owned qIn (bytes ++ ev.bytesRead) t := by
  obtain ⟨⟨hconn,hwrites⟩,howned,done,hann,hqueue,hstate⟩ := hs
  have unwritten : ∀ op, s.conn.nOwnerType = .kServer ∨ .validation ∉ s.conn.writes.erase op :=
    fun op => hwrites.imp_right fun h hm => h (List.mem_of_mem_erase hm)
  have ended : ∀ op, LoopInv owned qIn bytes (s.endWrite op) :=
    fun op => ⟨⟨hconn,unwritten op⟩,howned,done,hann,hqueue,hstate⟩
  obtain ⟨op,more,rfl,hm,hlen,rfl⟩ | ⟨op,rfl,hm,rfl⟩ | ⟨rfl,hm,ht⟩ | ⟨op,hop,rfl,hm,ht⟩ |
    ⟨op,rfl,hm,rfl⟩ | ⟨msg,rfl,ht⟩ | ⟨rfl,rfl⟩ := step_cases hconn ht
  · obtain ⟨new,hnew,hpush,hnext⟩ := loopState_readDone hstate hm hlen
    have hkeep : ((s.endRead op).onRead op more).conn.LoopOnly ∧
        ((s.endRead op).onRead op more).conn.owned = s.conn.owned := by
      obtain ⟨msg,h | h⟩ := onRead_cases (s.endRead op) (hstate.not_validation hm) more <;> rw [h]
      · exact ⟨⟨hconn,hwrites⟩,rfl⟩
      · exact ⟨⟨hconn,hwrites⟩,rfl⟩
    refine ⟨hkeep.1,hkeep.2.trans howned,done ++ new,?_,?_,hnext⟩
    · exact fun m hm => (List.mem_append.mp hm).elim (hann m) (hnew m)
    · rw [hpush, hqueue, howned, delivered_append, List.map_append, List.append_assoc]
  · have hfail := hstate.fail hm
    simp only [Event.bytesRead, List.append_nil]
    exact ⟨⟨hconn,hwrites⟩,howned,done,hann,hqueue,hfail⟩
  · have howner := hwrites.resolve_right fun h => h hm
    have hsame : s.endWrite .validation = t := by
      simpa [Io.onWrite, Io.endWrite, howner] using ht
    simpa [Event.bytesRead, hsame] using ended .validation
  · simpa [Event.bytesRead] using
      loopInv_messageWrites (ended op) (messageWritesOnly_onWrite hop ht)
  · simp only [Event.bytesRead, List.append_nil]
    exact ⟨⟨hconn,unwritten op⟩,howned,done,hann,hqueue,hstate⟩
  · simpa [Event.bytesRead] using loopInv_messageWrites
      ⟨⟨hconn,hwrites⟩,howned,done,hann,hqueue,hstate⟩ (messageWritesOnly_sendTask ht)
  · simp only [Event.bytesRead, List.append_nil]
    exact ⟨⟨hconn,hwrites⟩,howned,done,hann,hqueue,hstate⟩

theorem loopInv_run {evs : List (Event T)} (hs : LoopInv owned qIn bytes s)
    (run : exec Io.step s evs = some t) : LoopInv owned qIn (bytes ++ received evs) t := by
  refine exec_history (I := fun evs u => LoopInv owned qIn (bytes ++ received evs) u) ?_ ?_ run
  · simpa [received] using hs
  · intro evs u ev v hu hstep
    rw [received_snoc, ← List.append_assoc]
    exact loopInv_step hu hstep

/-- When the loop has read the frames of some messages and nothing else, it has pushed what
these messages arrive as. -/
theorem LoopInv.delivered {msgs : List (Message T)} (hs : LoopInv owned qIn (frames msgs) s)
    (hmsgs : ∀ m ∈ msgs, m.Announced) :
    s.qMessagesIn = qIn ++ (delivered [] msgs).map owned := by
  obtain ⟨-,-,done,hann,hqueue,hstate⟩ := hs
  obtain ⟨rest,hrest,hbytes⟩ := hstate.partial
  obtain ⟨rfl,-⟩ := frames_unique hann hmsgs hrest hbytes.symm
  exact hqueue

omit [EnumId T] in
theorem owned_injective (c : Connection T) : Function.Injective c.owned := by
  intro m m' h
  simp only [Connection.owned] at h
  split at h <;> exact congrArg OwnedMessage.msg h

end Loop

def readEvents (msgs : List (Message T)) : List (Event T) :=
  msgs.flatMap fun m =>
    .readDone .header m.header.bytes ::
      if m.body = [] then [] else [.readDone (.body m.body.length) m.body]

theorem received_readEvents (msgs : List (Message T)) :
    received (readEvents msgs) = frames msgs := by
  induction msgs with
  | nil => rfl
  | cons m msgs ih =>
    have hcons : received (readEvents (m :: msgs)) =
        m.header.bytes ++ m.body ++ received (readEvents msgs) := by
      by_cases hbody : m.body = [] <;> simp [readEvents, received, Event.bytesRead, hbody]
    rw [hcons, ih, frames_cons]

theorem readEvents_enabled {s : Io T} {msgs : List (Message T)} (hreads : s.conn.reads = [.header])
    (hmsgs : ∀ m ∈ msgs, m.Announced) :
    ∃ t, exec Io.step s (readEvents msgs) = some t ∧ t.conn.reads = [.header] := by
  induction msgs generalizing s with
  | nil => exact ⟨s,rfl,hreads⟩
  | cons m msgs ih =>
    obtain ⟨hm,hmsgs⟩ := List.forall_mem_cons.mp hmsgs
    have hsplit : readEvents (m :: msgs) = readEvents [m] ++ readEvents msgs := by
      simp [readEvents]
    have hone : ∃ u, exec Io.step s (readEvents [m]) = some u ∧ u.conn.reads = [.header] := by
      unfold Message.Announced at hm
      by_cases hbody : m.body = []
      · have hpos : ¬ 0 < m.header.size := by
          rw [UInt32.lt_iff_toNat_lt, hm, hbody]
          exact Nat.lt_irrefl 0
        simp [readEvents, hbody, Io.step, hreads, ReadOp.length, Io.onRead, Io.headerRead, hpos,
          Io.endRead, Io.addToIncomingMessageQueue, Io.readHeader, Io.asyncRead]
      · have hpos : 0 < m.header.size := by
          rw [UInt32.lt_iff_toNat_lt, hm]
          exact List.length_pos_iff.mpr hbody
        simp [readEvents, hbody, Io.step, hreads, ReadOp.length, Io.onRead, Io.headerRead, hpos,
          Io.endRead, Io.addToIncomingMessageQueue, Io.readHeader, Io.asyncRead, Io.readBody, hm]
    obtain ⟨u,hu,hureads⟩ := hone
    obtain ⟨t,ht,htreads⟩ := ih hureads hmsgs
    exact ⟨t,by rw [hsplit, exec_append, hu, Option.bind_some, ht],htreads⟩

/-- The messages that one connection has written arrive, on a peer that starts to read, as
they were sent exactly when none without a body was sent after one with a body. The peer can
read the whole stream, and this holds however its reads mix with its other events. -/
theorem roundTrip_iff_emptyFirst {s₀ s r : Io T} {evs : List (Event T)} (h₀ : Started s₀)
    (run : exec Io.step s₀ evs = some s) (written : s.conn.qMessagesOut = [])
    (announced : ∀ m ∈ sentTasks evs, m.Announced) (hr : r.conn.LoopStarts) :
    (∃ evs' t, exec Io.step r evs' = some t ∧ received evs' = emitted s.acts) ∧
    ∀ evs' t, exec Io.step r evs' = some t → received evs' = emitted s.acts →
      (t.qMessagesIn = r.qMessagesIn ++ (sentTasks evs).map r.conn.owned ↔
        EmptyFirst (sentTasks evs)) := by
  rw [emitted_of_queue_nil h₀ run written]
  constructor
  · obtain ⟨t,ht,-⟩ := readEvents_enabled hr.reads announced
    exact ⟨_,t,ht,received_readEvents _⟩
  · intro evs' t run' hread
    have hinv := loopInv_run (loopInv_start hr) run'
    rw [List.nil_append, hread] at hinv
    rw [hinv.delivered announced, List.append_cancel_left_eq,
      (owned_injective r.conn).list_map.eq_iff, delivered_eq_iff]
    simp

theorem roundTrip_iff_emptyFirst_threeReplies :
    ∃ s : Io NetMsgType, exec Io.step
        (Io.connectToClient 10000 ⟨.new 1 .kServer true 5,[],[]⟩)
        [.sendTask ⟨⟨.kFailed,0⟩,[]⟩, .sendTask ⟨⟨.kSeckeyAgree,3⟩,[7,8,9]⟩, .writeDone .header,
          .sendTask ⟨⟨.kSeckeyAgree,2⟩,[1,2]⟩, .writeDone .header, .writeDone .body,
          .writeDone .header, .writeDone .body] = some s ∧
      ∃ r : Io NetMsgType, exec Io.step (Io.connectToServer ⟨.new 2 .kClient false 0,[],[]⟩)
          [.connectDone, .readDone .validation (LittleEndian.ofUInt64 5), .writeDone .validation] =
          some r ∧
        ∃ evs t, exec Io.step r evs = some t ∧ received evs = emitted s.acts ∧
          t.qMessagesIn = [⟨none,⟨⟨.kFailed,0⟩,[]⟩⟩, ⟨none,⟨⟨.kSeckeyAgree,3⟩,[7,8,9]⟩⟩,
            ⟨none,⟨⟨.kSeckeyAgree,2⟩,[1,2]⟩⟩] := by
  refine exists_exec rfl fun s run => exists_exec rfl fun r run' => ?_
  have written : s.conn.qMessagesOut = [] := by
    cases run
    rfl
  have announced : ∀ m ∈ [(⟨⟨.kFailed,0⟩,[]⟩ : Message NetMsgType),⟨⟨.kSeckeyAgree,3⟩,[7,8,9]⟩,
      ⟨⟨.kSeckeyAgree,2⟩,[1,2]⟩], m.Announced := by
    simp [Message.Announced]
  have hr : r.conn.LoopStarts := by
    cases run'
    exact ⟨⟨rfl,.inr (by decide)⟩,rfl,rfl⟩
  obtain ⟨⟨evs,t,hread,hbytes⟩,harrive⟩ := roundTrip_iff_emptyFirst
    (.server 1 true 5 10000 []) run written announced hr
  refine ⟨evs,t,hread,hbytes,?_⟩
  rw [(harrive evs t hread hbytes).mpr (by decide)]
  cases run'
  rfl

/-- After a reply with a body, the empty `kFailed` message arrives with the body of the reply. -/
theorem roundTrip_staleBody :
    ∃ s : Io NetMsgType, exec Io.step
        (Io.connectToClient 10000 ⟨.new 1 .kServer true 5,[],[]⟩)
        [.sendTask ⟨⟨.kSeckeyAgree,1⟩,[7]⟩, .sendTask ⟨⟨.kFailed,0⟩,[]⟩, .writeDone .header,
          .writeDone .body, .writeDone .header] = some s ∧
      s.conn.qMessagesOut = [] ∧
      ∃ r : Io NetMsgType, exec Io.step (Io.connectToServer ⟨.new 2 .kClient false 0,[],[]⟩)
          [.connectDone, .readDone .validation (LittleEndian.ofUInt64 5), .writeDone .validation] =
          some r ∧
        ∃ evs t, exec Io.step r evs = some t ∧ received evs = emitted s.acts ∧
          t.qMessagesIn = [⟨none,⟨⟨.kSeckeyAgree,1⟩,[7]⟩⟩, ⟨none,⟨⟨.kFailed,0⟩,[7]⟩⟩] ∧
          t.qMessagesIn ≠ [⟨none,⟨⟨.kSeckeyAgree,1⟩,[7]⟩⟩, ⟨none,⟨⟨.kFailed,0⟩,[]⟩⟩] := by
  refine ⟨_,rfl,rfl,_,rfl,[.readDone .header [0,0,0,0,1,0,0,0], .readDone (.body 1) [7],
    .readDone .header [3,0,0,0,0,0,0,0]],_,rfl,?_⟩
  decide

end TransmissionPlatform.Net
