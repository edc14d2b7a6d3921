import TransmissionPlatform.Net.ClientHandshake

/-!
The two ends of one connection. What an end hands to its socket reaches the other end in
that order, in pieces of any size: a read of the peer completes as soon as enough of these
bytes are there, whether or not the write that handed them over has completed. Nothing else
passes between the two, and each side takes its turns in any order.
-/

set_option autoImplicit false

namespace TransmissionPlatform.Net
open LittleEndian StepSystem

variable {T : Type}

def Io.stream (s : Io T) : List UInt8 := ((handed s.acts).map Prod.snd).flatten

structure Link (T : Type) where
  client : Io T
  server : Io T
  /-- What each end has read of the stream of the other. -/
  readByClient : List UInt8 := []
  readByServer : List UInt8 := []
  deriving DecidableEq, Repr

inductive LinkAct (T : Type) where
  | client (ev : Event T)
  | server (ev : Event T)
  deriving DecidableEq, Repr

def LinkAct.client? : LinkAct T → Option (Event T)
  | .client ev => some ev
  | .server _ => none

def LinkAct.server? : LinkAct T → Option (Event T)
  | .client _ => none
  | .server ev => some ev

def LinkAct.event : LinkAct T → Event T
  | .client ev => ev
  | .server ev => ev

def clientEvents (as : List (LinkAct T)) : List (Event T) := as.filterMap LinkAct.client?

def serverEvents (as : List (LinkAct T)) : List (Event T) := as.filterMap LinkAct.server?

/-- The client has written its response, or the write of it has failed. -/
def Io.Responded (s : Io T) : Prop := s.conn.HandshakeDone ∧ handed s.acts ≠ []

instance (s : Io T) : Decidable s.Responded :=
  inferInstanceAs (Decidable (s.conn.HandshakeDone ∧ handed s.acts ≠ []))

/-- No message is sent before the handshake allows it: by the client when it has responded, by
the server when it has validated the client. The messages are well formed. -/
def InTurn (s : Link T) : LinkAct T → Prop
  | .client (.sendTask msg) => msg.Announced ∧ s.client.Responded
  | .server (.sendTask msg) => msg.Announced ∧ .onClientValidated ∈ s.server.acts
  | _ => True

instance [DecidableEq T] (s : Link T) : ∀ act, Decidable (InTurn s act)
  | .client (.sendTask msg) => inferInstanceAs (Decidable (msg.Announced ∧ s.client.Responded))
  | .server (.sendTask msg) =>
    inferInstanceAs (Decidable (msg.Announced ∧ .onClientValidated ∈ s.server.acts))
  | .client .connectDone | .client .connectFailed | .client (.readDone _ _)
  | .client (.readFailed _) | .client (.writeDone _) | .client (.writeFailed _)
  | .client .closeTask | .server .connectDone | .server .connectFailed
  | .server (.readDone _ _) | .server (.readFailed _) | .server (.writeDone _)
  | .server (.writeFailed _) | .server .closeTask => isTrue trivial

theorem clientEvents_client (as : List (LinkAct T)) (ev : Event T) :
    clientEvents (as ++ [.client ev]) = clientEvents as ++ [ev] := List.filterMap_append

theorem clientEvents_server (as : List (LinkAct T)) (ev : Event T) :
    clientEvents (as ++ [.server ev]) = clientEvents as :=
  List.filterMap_append.trans (List.append_nil _)

theorem serverEvents_client (as : List (LinkAct T)) (ev : Event T) :
    serverEvents (as ++ [.client ev]) = serverEvents as :=
  List.filterMap_append.trans (List.append_nil _)

theorem serverEvents_server (as : List (LinkAct T)) (ev : Event T) :
    serverEvents (as ++ [.server ev]) = serverEvents as ++ [ev] := List.filterMap_append

variable [EnumId T]

def Link.start (self me : Nat) (now : UInt64) (uid : UInt32) (qIn qSrv : List (OwnedMessage T)) :
    Link T where
  client := Io.connectToServer ⟨.new self .kClient false 0,qIn,[]⟩
  server := Io.connectToClient uid ⟨.new me .kServer true now,qSrv,[]⟩

def Link.step (s : Link T) : LinkAct T → Option (Link T)
  | .client ev =>
    if s.readByClient ++ ev.bytesRead <+: s.server.stream then
      (s.client.step ev).map fun io =>
        { s with client := io, readByClient := s.readByClient ++ ev.bytesRead }
    else none
  | .server ev =>
    if s.readByServer ++ ev.bytesRead <+: s.client.stream then
      (s.server.step ev).map fun io =>
        { s with server := io, readByServer := s.readByServer ++ ev.bytesRead }
    else none

/-! What each end does in a run is a run of that end alone. -/

theorem stream_step {s t : Io T} {ev : Event T} (ht : s.step ev = some t) :
    s.stream <+: t.stream := by
  obtain ⟨more,hmore⟩ := acts_step ht
  simp only [Io.stream, ← hmore, handed_append, List.map_append, List.flatten_append]
  exact List.prefix_append _ _

theorem link_step {s t : Link T} {act : LinkAct T} (ht : s.step act = some t) :
    (∃ ev io, act = .client ev ∧ s.client.step ev = some io ∧
      s.readByClient ++ ev.bytesRead <+: s.server.stream ∧
      t = { s with client := io, readByClient := s.readByClient ++ ev.bytesRead }) ∨
    (∃ ev io, act = .server ev ∧ s.server.step ev = some io ∧
      s.readByServer ++ ev.bytesRead <+: s.client.stream ∧
      t = { s with server := io, readByServer := s.readByServer ++ ev.bytesRead }) := by
  cases act with
  | client ev =>
    simp only [Link.step] at ht
    split at ht
    · obtain ⟨io,hio,rfl⟩ := Option.map_eq_some_iff.mp ht
      exact .inl ⟨ev,io,rfl,hio,‹_›,rfl⟩
    · cases ht
  | server ev =>
    simp only [Link.step] at ht
    split at ht
    · obtain ⟨io,hio,rfl⟩ := Option.map_eq_some_iff.mp ht
      exact .inr ⟨ev,io,rfl,hio,‹_›,rfl⟩
    · cases ht

structure LinkRun (start : Link T) (as : List (LinkAct T)) (s : Link T) : Prop where
  client : exec Io.step start.client (clientEvents as) = some s.client
  server : exec Io.step start.server (serverEvents as) = some s.server
  received_client : s.readByClient = received (clientEvents as)
  received_server : s.readByServer = received (serverEvents as)
  fromServer : s.readByClient <+: s.server.stream
  fromClient : s.readByServer <+: s.client.stream

theorem linkRun_step {start s t : Link T} {as : List (LinkAct T)} {act : LinkAct T}
    (hs : LinkRun start as s) (ht : s.step act = some t) : LinkRun start (as ++ [act]) t := by
  obtain ⟨hclient,hserver,hrc,hrs,hfs,hfc⟩ := hs
  obtain ⟨ev,io,rfl,hio,hread,rfl⟩ | ⟨ev,io,rfl,hio,hread,rfl⟩ := link_step ht
  · have hc := clientEvents_client as ev
    have hv := serverEvents_client as ev
    refine ⟨hc ▸ exec_snoc.mpr ⟨_,hclient,hio⟩,hv ▸ hserver,?_,hv ▸ hrs,hread,?_⟩
    · rw [hc, received_snoc, hrc]
    · exact hfc.trans (stream_step hio)
  · have hc := clientEvents_server as ev
    have hv := serverEvents_server as ev
    refine ⟨hc ▸ hclient,hv ▸ exec_snoc.mpr ⟨_,hserver,hio⟩,hc ▸ hrc,?_,?_,hread⟩
    · rw [hv, received_snoc, hrs]
    · exact hfs.trans (stream_step hio)

/-! The client, whatever fails: until it has responded nothing but the handshake happens. -/

/-- All that the handshake of a client depends on and does. -/
structure Greeting (T : Type) where
  connecting : Bool
  reads : List ReadOp
  writes : List WriteOp
  handed : List (WriteOp × List UInt8)
  body : List UInt8
  queue : List (OwnedMessage T)

def Io.greeting (s : Io T) : Greeting T :=
  ⟨s.conn.connecting,s.conn.reads,s.conn.writes,handed s.acts,s.conn.msgTemporaryIn.body,
    s.qMessagesIn⟩

/-- A client that has not responded, given the bytes it has read. -/
inductive Greets (qIn : List (OwnedMessage T)) : List UInt8 → Greeting T → Prop where
  | connecting : Greets qIn [] ⟨true,[],[],[],[],qIn⟩
  | waiting : Greets qIn [] ⟨false,[.validation],[],[],[],qIn⟩
  | answering (challenge : List UInt8) : challenge.length = 8 →
      Greets qIn challenge ⟨false,[],[.validation],[(.validation,response challenge)],[],qIn⟩
  | lost : Greets qIn [] ⟨false,[],[],[],[],qIn⟩

/-- A client that has responded: only messages are written, and the loop reads. -/
structure Talks (qIn : List (OwnedMessage T)) (recv : List UInt8) (s : Io T) : Prop where
  done : s.conn.HandshakeDone
  stream : ∃ challenge bytes new, challenge.length = 8 ∧ recv = challenge ++ bytes ∧
    handed s.acts = (.validation,response challenge) :: new ∧ (∀ b ∈ new, b.1.isMessage = true) ∧
    LoopInv (fun m => ⟨none,m⟩) qIn bytes s

section Client
variable {qIn : List (OwnedMessage T)} {recv : List UInt8} {s t : Io T} {ev : Event T}

omit [EnumId T] in
@[simp] theorem greeting_close (s : Io T) : s.close.greeting = s.greeting := by
  simp [Io.greeting, Io.close, handed]

omit [EnumId T] in
theorem owned_client {c : Connection T} (howner : c.nOwnerType = .kClient) :
    c.owned = fun m => ⟨none,m⟩ := by
  funext m
  simp [Connection.owned, howner]

theorem greets_connecting (hg : s.greeting = ⟨true,[],[],[],[],qIn⟩)
    (hev : ∀ msg, ev ≠ .sendTask msg) (ht : s.step ev = some t) :
    Greets qIn ev.bytesRead t.greeting := by
  simp only [Io.greeting, Greeting.mk.injEq] at hg
  obtain ⟨hconn,hreads,hwrites,hhanded,hbody,hqueue⟩ := hg
  cases ev with
  | connectDone =>
    simp only [Io.step, hconn, if_true, Option.some.injEq] at ht
    subst ht
    have hg : (Io.connected { s with conn := { s.conn with connecting := false } }).greeting =
        ⟨false,[.validation],[],[],[],qIn⟩ := by
      simpa [Io.greeting, Io.connected, Io.readValidation, Io.asyncRead, hreads, hwrites, hbody,
        hqueue, handed] using hhanded
    exact hg ▸ .waiting
  | connectFailed =>
    simp only [Io.step, hconn, if_true, Option.some.injEq] at ht
    subst ht
    have hg : ({ s with conn := { s.conn with connecting := false } } : Io T).greeting =
        ⟨false,[],[],[],[],qIn⟩ := by
      simp [Io.greeting, hreads, hwrites, hbody, hqueue, hhanded]
    exact hg ▸ .lost
  | readDone op bytes | readFailed op => simp [Io.step, hreads] at ht
  | writeDone op | writeFailed op => simp [Io.step, hwrites] at ht
  | sendTask msg => exact absurd rfl (hev msg)
  | closeTask =>
    cases ht
    have hg : s.close.greeting = ⟨true,[],[],[],[],qIn⟩ := by
      simp [Io.greeting, Io.close, handed_append, hconn, hreads, hwrites, hbody, hqueue, hhanded]
      rfl
    exact hg ▸ .connecting

theorem greets_waiting (howner : s.conn.nOwnerType = .kClient)
    (hg : s.greeting = ⟨false,[.validation],[],[],[],qIn⟩) (hev : ∀ msg, ev ≠ .sendTask msg)
    (ht : s.step ev = some t) : Greets qIn ev.bytesRead t.greeting := by
  have hsame := hg
  simp only [Io.greeting, Greeting.mk.injEq] at hg
  obtain ⟨hconn,hreads,hwrites,hhanded,hbody,hqueue⟩ := hg
  obtain ⟨op,bytes,rfl,hm,hlen,rfl⟩ | ⟨op,rfl,hm,rfl⟩ | ⟨rfl,hm,-⟩ | ⟨op,-,-,hm,-⟩ |
    ⟨op,-,hm,-⟩ | ⟨msg,rfl,-⟩ | ⟨rfl,rfl⟩ := step_cases hconn ht
  · rw [hreads] at hm
    obtain rfl := List.mem_singleton.mp hm
    have hg : ((s.endRead .validation).onRead .validation bytes).greeting =
        ⟨false,[],[.validation],[(.validation,response bytes)],[],qIn⟩ := by
      simp [Io.greeting, Io.onRead, Io.validationRead, Io.endRead, howner, Io.writeValidation,
        Io.asyncWrite, hconn, hreads, hwrites, hbody, hqueue, hhanded, response]
      rfl
    exact hg ▸ .answering bytes hlen
  · rw [hreads] at hm
    obtain rfl := List.mem_singleton.mp hm
    have hg : (s.endRead .validation).close.greeting = ⟨false,[],[],[],[],qIn⟩ := by
      rw [greeting_close]
      simp [Io.greeting, Io.endRead, hconn, hreads, hwrites, hbody, hqueue, hhanded]
    exact hg ▸ .lost
  · simp [hwrites] at hm
  · simp [hwrites] at hm
  · simp [hwrites] at hm
  · exact absurd rfl (hev msg)
  · rw [greeting_close, hsame]
    exact .waiting

theorem talks_responded {challenge : List UInt8} (howner : s.conn.nOwnerType = .kClient)
    (hlen : challenge.length = 8)
    (hg : s.greeting = ⟨false,[],[],[(.validation,response challenge)],[],qIn⟩) :
    Talks qIn challenge s.readHeader ∧ Talks qIn challenge s := by
  simp only [Io.greeting, Greeting.mk.injEq] at hg
  obtain ⟨hconn,hreads,hwrites,hhanded,hbody,hqueue⟩ := hg
  have hnone : ∀ b ∈ ([] : List (WriteOp × List UInt8)), b.1.isMessage = true := by simp
  have hloop : s.conn.LoopOnly := ⟨hconn,.inr (by simp [hwrites])⟩
  have hstart : s.readHeader.conn.LoopStarts :=
    ⟨hloop,by simp [Io.readHeader, Io.asyncRead, hreads],hbody⟩
  constructor
  · refine ⟨⟨hconn,?_,by simp [Io.readHeader, Io.asyncRead, hwrites]⟩,
      challenge,[],[],hlen,(List.append_nil _).symm,?_,hnone,?_⟩
    · simp [Io.readHeader, Io.asyncRead, hreads]
    · simpa [Io.readHeader, Io.asyncRead, handed] using hhanded
    · have howned : s.readHeader.conn.owned = fun m => ⟨none,m⟩ := owned_client howner
      have hinv := loopInv_start hstart
      rw [howned] at hinv
      exact hqueue ▸ hinv
  · refine ⟨⟨hconn,by simp [hreads],by simp [hwrites]⟩,challenge,[],[],hlen,
      (List.append_nil _).symm,hhanded,hnone,hloop,owned_client howner,[],by simp,?_,?_⟩
    · simp [delivered, hqueue]
    · rw [hreads]
      exact .shut (.inl rfl) rfl

theorem greets_answering {challenge : List UInt8} (howner : s.conn.nOwnerType = .kClient)
    (hlen : challenge.length = 8)
    (hg : s.greeting = ⟨false,[],[.validation],[(.validation,response challenge)],[],qIn⟩)
    (hev : ∀ msg, ev ≠ .sendTask msg) (ht : s.step ev = some t) :
    ev.bytesRead = [] ∧ (t.greeting = s.greeting ∨ Talks qIn challenge t) := by
  have hsame := hg
  simp only [Io.greeting, Greeting.mk.injEq] at hg
  obtain ⟨hconn,hreads,hwrites,hhanded,hbody,hqueue⟩ := hg
  have hended : (s.endWrite .validation).greeting =
      ⟨false,[],[],[(.validation,response challenge)],[],qIn⟩ := by
    simp [Io.greeting, Io.endWrite, hconn, hreads, hwrites, hbody, hqueue, hhanded]
  obtain ⟨op,bytes,rfl,hm,-,-⟩ | ⟨op,rfl,hm,-⟩ | ⟨rfl,hm,ht⟩ | ⟨op,hop,rfl,hm,ht⟩ |
    ⟨op,rfl,hm,rfl⟩ | ⟨msg,rfl,-⟩ | ⟨rfl,rfl⟩ := step_cases hconn ht
  · simp [hreads] at hm
  · simp [hreads] at hm
  · have hread : (s.endWrite .validation).readHeader = t := by
      simpa [Io.onWrite, Io.endWrite, howner] using ht
    exact ⟨rfl,.inr (hread ▸ (talks_responded (s := s.endWrite .validation) howner hlen hended).1)⟩
  · rw [hwrites] at hm
    obtain rfl := List.mem_singleton.mp hm
    cases hop
  · rw [hwrites] at hm
    obtain rfl := List.mem_singleton.mp hm
    exact ⟨rfl,.inr (talks_responded (s := (s.endWrite .validation).close) howner hlen
      ((greeting_close _).trans hended)).2⟩
  · exact absurd rfl (hev msg)
  · exact ⟨rfl,.inl (greeting_close s)⟩

theorem talks_step (h : Talks qIn recv s) (ht : s.step ev = some t) :
    Talks qIn (recv ++ ev.bytesRead) t := by
  obtain ⟨hdone,challenge,bytes,new,hlen,rfl,hhanded,hnew,hloop⟩ := h
  obtain ⟨hdone',more,hmore,hall⟩ := handshakeDone_step hdone ht
  refine ⟨hdone',challenge,bytes ++ ev.bytesRead,new ++ more,hlen,List.append_assoc _ _ _,
    by rw [hmore, hhanded, List.cons_append],?_,loopInv_step hloop ht⟩
  exact fun b hb => (List.mem_append.mp hb).elim (hnew b) (hall b)

theorem greets_step (howner : s.conn.nOwnerType = .kClient) (h : Greets qIn recv s.greeting)
    (hev : ∀ msg, ev = .sendTask msg → s.Responded) (ht : s.step ev = some t) :
    Greets qIn (recv ++ ev.bytesRead) t.greeting ∨ Talks qIn (recv ++ ev.bytesRead) t := by
  generalize hg : s.greeting = g at h
  have hhanded : handed s.acts = g.handed := congrArg Greeting.handed hg
  have hwrites : s.conn.writes = g.writes := congrArg Greeting.writes hg
  have hnot : ∀ msg, ev ≠ .sendTask msg := by
    intro msg hmsg
    obtain ⟨⟨-,-,hw⟩,hne⟩ := hev msg hmsg
    cases h with
    | answering => simp [hwrites] at hw
    | _ => exact hne hhanded
  cases h with
  | connecting => exact .inl (greets_connecting hg hnot ht)
  | waiting => exact .inl (greets_waiting howner hg hnot ht)
  | answering challenge hlen =>
    obtain ⟨hread,hsame | htalks⟩ := greets_answering howner hlen hg hnot ht
    · rw [hread, List.append_nil, hsame, hg]
      exact .inl (.answering recv hlen)
    · rw [hread, List.append_nil]
      exact .inr htalks
  | lost =>
    have hsame := hg
    simp only [Io.greeting, Greeting.mk.injEq] at hg
    obtain ⟨hconn,hreads,-⟩ := hg
    obtain ⟨op,bytes,-,hm,-⟩ | ⟨op,-,hm,-⟩ | ⟨-,hm,-⟩ | ⟨op,-,-,hm,-⟩ | ⟨op,-,hm,-⟩ |
      ⟨msg,rfl,-⟩ | ⟨rfl,rfl⟩ := step_cases hconn ht
    · simp [hreads] at hm
    · simp [hreads] at hm
    · simp [hwrites] at hm
    · simp [hwrites] at hm
    · simp [hwrites] at hm
    · exact absurd rfl (hnot msg)
    · rw [greeting_close, hsame]
      exact .inl .lost

end Client

/-! The server side: its challenge is the first thing it writes. -/

section Server
variable {me : Nat} {now : UInt64} {uid : UInt32} {qSrv : List (OwnedMessage T)}
  {evs : List (Event T)} {s t : Io T} {ev : Event T}

theorem handed_server (hside : s.conn.ServerSide me now) (ht : s.step ev = some t) :
    ∃ new, handed t.acts = handed s.acts ++ new ∧ ∀ b ∈ new, b.1.isMessage = true := by
  have same : ∀ u : Io T, handed u.acts = handed s.acts → ∃ new,
      handed u.acts = handed s.acts ++ new ∧ ∀ b ∈ new, b.1.isMessage = true :=
    fun u hu => ⟨[],by rw [hu, List.append_nil],by simp⟩
  have writes : ∀ u : Io T, u.acts = s.acts → MessageWritesOnly u t → ∃ new,
      handed t.acts = handed s.acts ++ new ∧ ∀ b ∈ new, b.1.isMessage = true := by
    rintro u hu ⟨queue,new,hall,rfl⟩
    have hnew : handed (new.map fun b => Act.asyncWrite (T := T) b.1 b.2) = new := by
      simp [handed, List.filterMap_map]
    exact ⟨new,by rw [handed_append, hnew, hu],hall⟩
  obtain ⟨op,bytes,-,-,-,rfl⟩ | ⟨op,-,-,rfl⟩ | ⟨-,-,ht⟩ | ⟨op,hop,-,-,ht⟩ | ⟨op,-,-,rfl⟩ |
    ⟨msg,-,ht⟩ | ⟨-,rfl⟩ := step_cases hside.connecting ht
  · refine same _ ?_
    by_cases hop : op = .validation
    · subst hop
      simp only [Io.onRead, Io.validationRead, Io.endRead, hside.owner]
      split
      · simp [Io.readHeader, Io.asyncRead, handed]
      · simp [Io.close, handed]
    · obtain ⟨msg,h | h⟩ := onRead_cases (s.endRead op) hop bytes <;> rw [h]
      · simp [Io.readBody, Io.asyncRead, Io.endRead, handed]
      · simp [Io.addToIncomingMessageQueue, Io.readHeader, Io.asyncRead, Io.endRead, handed]
  · exact same _ (by simp [Io.close, Io.endRead, handed])
  · have hsame : s.endWrite .validation = t := by
      simpa [Io.onWrite, Io.endWrite, hside.owner] using ht
    exact hsame ▸ same _ rfl
  · exact writes (s.endWrite op) rfl (messageWritesOnly_onWrite hop ht)
  · exact same _ (by simp [Io.close, Io.endWrite, handed])
  · exact writes s rfl (messageWritesOnly_sendTask ht)
  · exact same _ (by simp [Io.close, handed])

omit [EnumId T] in
theorem stream_eq {first : WriteOp × List UInt8} {new : List (WriteOp × List UInt8)}
    (h : handed s.acts = first :: new) (hfirst : first.1.isMessage = false)
    (hnew : ∀ b ∈ new, b.1.isMessage = true) : s.stream = first.2 ++ emitted s.acts :=
  stream_of_handed (s := ⟨s,[],[]⟩) h hfirst hnew

theorem stream_server
    (run : exec Io.step (Io.connectToClient uid ⟨.new me .kServer true now,qSrv,[]⟩) evs = some s) :
    s.stream = ofUInt64 now ++ emitted s.acts := by
  have hhanded : ∃ new, handed s.acts = (.validation,ofUInt64 now) :: new ∧
      ∀ b ∈ new, b.1.isMessage = true := by
    refine exec_reached (I := fun _ u => ∃ new, handed u.acts = (.validation,ofUInt64 now) :: new ∧
      ∀ b ∈ new, b.1.isMessage = true) ⟨[],rfl,by simp⟩ ?_ (meets_true _ evs) run
    rintro evs u ev v hreached ⟨new,hu,hall⟩ - hstep
    obtain ⟨more,hv,hall'⟩ := handed_server (readInv_run hreached).1 hstep
    refine ⟨new ++ more,by rw [hv, hu, List.cons_append],?_⟩
    exact fun b hb => (List.mem_append.mp hb).elim (hall b) (hall' b)
  obtain ⟨new,h,hnew⟩ := hhanded
  exact stream_eq h rfl hnew

theorem unread_server
    (run : exec Io.step (Io.connectToClient uid ⟨.new me .kServer true now,qSrv,[]⟩) evs = some s) :
    (received evs = [] → .onClientValidated ∉ s.acts ∧ s.qMessagesIn = qSrv) ∧
      (received evs ≠ [] → 8 ≤ (received evs).length) := by
  constructor
  · intro hnone
    have hlogged : QueueLogged qSrv s := by
      refine exec_invariant (I := QueueLogged qSrv) (fun _ _ _ => queueLogged_step) ?_ run
      exact (List.append_nil qSrv).symm
    have haccepted : s.acts.filter (·.accepts) = [] := by
      obtain hempty | ⟨hrecv,-⟩ := (readInv_run run).2.accepted
      · exact hempty
      · have := congrArg List.length hrecv
        simp [hnone] at this
    have hpushes : pushes s.acts = [] := by
      refine List.filterMap_eq_nil_iff.mpr fun act hact => ?_
      have := List.filter_eq_nil_iff.mp haccepted act hact
      cases act <;> simp [Act.accepts] at this ⊢
    refine ⟨fun hmem => List.filter_eq_nil_iff.mp haccepted _ hmem rfl,?_⟩
    rw [hlogged, hpushes, List.append_nil]
  · refine exec_reached (I := fun evs _ => received evs ≠ [] → 8 ≤ (received evs).length)
      (fun h => absurd rfl h) ?_ (meets_true _ evs) run
    intro evs u ev v hreached ih _ hstep hne
    rw [received_snoc] at hne ⊢
    by_cases hbefore : received evs = []
    · have hside := (readInv_run hreached).1
      have hanswered := answered_run hreached
      obtain ⟨op,bytes,rfl,hm,hlen,-⟩ | ⟨op,rfl,-,-⟩ | ⟨hev,-⟩ := serverSide_cases hside hstep
      · rw [hbefore] at hanswered
        cases hanswered with
        | waiting _ hreads =>
          rw [hreads] at hm
          obtain rfl := List.mem_singleton.mp hm
          rw [hbefore, List.nil_append]
          exact Nat.le_of_eq hlen.symm
        | reading hrecv =>
          have := congrArg List.length hrecv
          simp only [List.length_nil, List.length_append, ofUInt64_length] at this
          omega
        | ended hreads =>
          rw [hreads] at hm
          cases hm
      · exact absurd (by simp [hbefore, Event.bytesRead]) hne
      · exact absurd (by rw [hbefore, Event.bytesRead_eq_nil hev]; rfl) hne
    · exact (ih hbefore).trans (by simp)

theorem answers_right {rest : List UInt8}
    (run : exec Io.step (Io.connectToClient uid ⟨.new me .kServer true now,qSrv,[]⟩) evs = some s)
    (hrecv : received evs <+: ofUInt64 (scramble now) ++ rest) :
    (received evs = [] ∧ .onClientValidated ∉ s.acts ∧ s.qMessagesIn = qSrv) ∨
    ∃ bytes, received evs = ofUInt64 (scramble now) ++ bytes ∧ bytes <+: rest ∧
      .onClientValidated ∈ s.acts ∧ LoopInv (fun m => ⟨some me,m⟩) qSrv bytes s := by
  obtain ⟨hunread,hwhole⟩ := unread_server run
  by_cases hnone : received evs = []
  · exact .inl ⟨hnone,hunread hnone⟩
  · right
    cases answered_run run with
    | waiting h => exact absurd h hnone
    | reading h hmem hloop =>
      rw [h, List.prefix_append_right_inj] at hrecv
      exact ⟨_,h,hrecv,hmem,hloop⟩
    | ended hreads hwrong =>
      obtain ⟨more,hmore⟩ := hrecv
      have htake : (received evs ++ more).take 8 = (received evs).take 8 :=
        List.take_append_of_le_length (hwhole hnone)
      rw [← htake, hmore] at hwrong
      exact absurd (List.take_left' (by simp)) hwrong

end Server

/-! What arrives, given how much of the frames of the peer was read. -/

theorem frames_isPrefix {done msgs : List (Message T)} {rest : List UInt8}
    (hdone : ∀ m ∈ done, m.Announced) (hmsgs : ∀ m ∈ msgs, m.Announced)
    (h : frames done ++ rest <+: frames msgs) : done <+: msgs := by
  induction done generalizing msgs with
  | nil => exact List.nil_prefix
  | cons d done ih =>
    obtain ⟨hd,hdone⟩ := List.forall_mem_cons.mp hdone
    obtain ⟨more,h⟩ := h
    rw [frames_cons, List.append_assoc, List.append_assoc, List.append_assoc] at h
    cases msgs with
    | nil =>
      have := congrArg List.length h
      simp [MessageHeader.sizeOf] at this
    | cons m msgs =>
      obtain ⟨hm,hlater⟩ := List.forall_mem_cons.mp hmsgs
      rw [frames_cons, List.append_assoc] at h
      obtain ⟨hheader,hrest⟩ := header_append_inj h
      have hlen : d.body.length = m.body.length := by
        unfold Message.Announced at hd hm
        rw [← hd, ← hm, hheader]
      obtain ⟨hbody,hrest⟩ := List.append_inj hrest hlen
      rw [← List.append_assoc] at hrest
      have hsame : d = m := congrArg₂ Message.mk hheader hbody
      exact List.cons_prefix_cons.mpr ⟨hsame,ih hdone hlater ⟨more,hrest⟩⟩

theorem emitted_isPrefix {s₀ s : Io T} {evs : List (Event T)} (h₀ : Started s₀)
    (run : exec Io.step s₀ evs = some s) : emitted s.acts <+: frames (sentTasks evs) := by
  obtain ⟨done,hsent,hstate⟩ := writeInv_run h₀ run
  rw [hsent]
  exact hstate.inOrder

def InOrder (owned : Message T → OwnedMessage T) (q : List (OwnedMessage T))
    (sent : List (Message T)) (queue : List (OwnedMessage T)) : Prop :=
  ∃ ms, ms <+: sent ∧ queue = q ++ (delivered [] ms).map owned ∧
    (EmptyFirst sent → delivered [] ms = ms)

omit [EnumId T] in
theorem delivered_isPrefix {ms sent : List (Message T)} (hpre : ms <+: sent)
    (hfirst : EmptyFirst sent) : delivered [] ms = ms :=
  (delivered_eq_iff [] ms).mpr ⟨hfirst.sublist hpre.sublist,fun h => absurd rfl h⟩

omit [EnumId T] in
theorem inOrder_none (owned : Message T → OwnedMessage T) (q : List (OwnedMessage T))
    (sent : List (Message T)) : InOrder owned q sent q :=
  ⟨[],List.nil_prefix,by simp [delivered],fun _ => rfl⟩

omit [EnumId T] in
theorem InOrder.mono {owned : Message T → OwnedMessage T} {q : List (OwnedMessage T)}
    {sent sent' : List (Message T)} {queue : List (OwnedMessage T)} (h : InOrder owned q sent queue)
    (hpre : sent <+: sent') : InOrder owned q sent' queue := by
  obtain ⟨ms,hms,hqueue,-⟩ := h
  exact ⟨ms,hms.trans hpre,hqueue,delivered_isPrefix (hms.trans hpre)⟩

omit [EnumId T] in
theorem delivered_take (stale : List UInt8) (n : Nat) (ms : List (Message T)) :
    delivered stale (ms.take n) = (delivered stale ms).take n := by
  induction ms generalizing stale n with
  | nil => simp [delivered]
  | cons m ms ih =>
    cases n with
    | zero => rfl
    | succ n => simp [delivered, ih]

omit [EnumId T] in
theorem delivered_length (stale : List UInt8) (ms : List (Message T)) :
    (delivered stale ms).length = ms.length := by
  induction ms generalizing stale with
  | nil => rfl
  | cons m ms ih => exact congrArg (· + 1) (ih _)

omit [EnumId T] in
theorem InOrder.front {owned : Message T → OwnedMessage T} {sent : List (Message T)}
    {queue front : List (OwnedMessage T)} (h : InOrder owned [] sent queue) (hpre : front <+: queue) :
    InOrder owned [] sent front := by
  obtain ⟨ms,hms,rfl,-⟩ := h
  have htake := (List.take_prefix front.length ms).trans hms
  refine ⟨ms.take front.length,htake,?_,delivered_isPrefix htake⟩
  rw [delivered_take, List.map_take]
  exact List.prefix_iff_eq_take.mp hpre

theorem LoopInv.inOrder {owned : Message T → OwnedMessage T} {q : List (OwnedMessage T)}
    {bytes : List UInt8} {s : Io T} {sent : List (Message T)} (hs : LoopInv owned q bytes s)
    (hsent : ∀ m ∈ sent, m.Announced) (hpre : bytes <+: frames sent) :
    InOrder owned q sent s.qMessagesIn := by
  obtain ⟨-,-,done,hann,hqueue,hstate⟩ := hs
  obtain ⟨rest,-,hbytes⟩ := hstate.partial
  have hfirst := frames_isPrefix hann hsent (hbytes ▸ hpre)
  exact ⟨done,hfirst,hqueue,delivered_isPrefix hfirst⟩

/-! Both ends together. -/

structure LinkInv (qIn : List (OwnedMessage T)) (start : Link T) (as : List (LinkAct T))
    (s : Link T) : Prop where
  run : LinkRun start as s
  owner : s.client.conn.nOwnerType = .kClient
  client : Greets qIn s.readByClient s.client.greeting ∨ Talks qIn s.readByClient s.client
  sentByClient : ∀ m ∈ sentTasks (clientEvents as), m.Announced
  sentByServer : ∀ m ∈ sentTasks (serverEvents as), m.Announced
  unsent : .onClientValidated ∉ s.server.acts → sentTasks (serverEvents as) = []

omit [EnumId T] in
theorem announced_inTurn {s : Link T} {act : LinkAct T} (h : InTurn s act) :
    ∀ m ∈ sentTasks [act.event], m.Announced := by
  intro m hm
  cases act with
  | client ev | server ev =>
    cases ev with
    | sendTask msg =>
      obtain rfl : m = msg := by simpa [sentTasks, LinkAct.event] using hm
      exact h.1
    | _ => simp [sentTasks, LinkAct.event] at hm

theorem linkInv_step {qIn : List (OwnedMessage T)} {start s t : Link T} {as : List (LinkAct T)}
    {act : LinkAct T} (hs : LinkInv qIn start as s) (hact : InTurn s act)
    (ht : s.step act = some t) : LinkInv qIn start (as ++ [act]) t := by
  obtain ⟨hrun,howner,hclient,hsc,hss,hunsent⟩ := hs
  have hann := announced_inTurn hact
  have hrun' := linkRun_step hrun ht
  obtain ⟨ev,io,rfl,hio,-,rfl⟩ | ⟨ev,io,rfl,hio,-,rfl⟩ := link_step ht
  · have hc := clientEvents_client as ev
    have hv := serverEvents_client as ev
    have hsends : ∀ msg, ev = .sendTask msg → s.client.Responded := by
      rintro msg rfl
      exact hact.2
    refine ⟨hrun',(fixed_step hio).1.trans howner,?_,?_,hv ▸ hss,hv ▸ hunsent⟩
    · obtain h | h := hclient
      · exact greets_step howner h hsends hio
      · exact .inr (talks_step h hio)
    · rw [hc, sentTasks_append]
      exact List.forall_mem_append.mpr ⟨hsc,hann⟩
  · have hc := clientEvents_server as ev
    have hv := serverEvents_server as ev
    refine ⟨hrun',howner,hclient,hc ▸ hsc,?_,?_⟩
    · rw [hv, sentTasks_append]
      exact List.forall_mem_append.mpr ⟨hss,hann⟩
    · intro hnot
      have hbefore : .onClientValidated ∉ s.server.acts :=
        fun hmem => hnot ((acts_step hio).subset hmem)
      rw [hv, sentTasks_append, hunsent hbefore, List.nil_append]
      cases ev with
      | sendTask msg => exact absurd hact.2 hbefore
      | _ => rfl

section Link
variable {self me : Nat} {now : UInt64} {uid : UInt32} {qIn qSrv : List (OwnedMessage T)}
  {as : List (LinkAct T)} {s : Link T}

theorem linkInv_run
    (meets : Meets Link.step InTurn (Link.start self me now uid qIn qSrv) as)
    (run : exec Link.step (Link.start self me now uid qIn qSrv) as = some s) :
    LinkInv qIn (Link.start self me now uid qIn qSrv) as s := by
  refine exec_induction (I := LinkInv qIn (Link.start self me now uid qIn qSrv)) ?_
    (fun _ _ _ _ => linkInv_step) meets run
  exact ⟨⟨rfl,rfl,rfl,rfl,List.nil_prefix,List.nil_prefix⟩,rfl,.inl .connecting,by simp [clientEvents, sentTasks],
    by simp [serverEvents, sentTasks],fun _ => rfl⟩

/-- The client has read nothing and written nothing; or it read the challenge of this server
side, its stream starts with the answer to it, and it is read by the loop unless the answer is
still being written. -/
theorem LinkInv.clientSide (h : LinkInv qIn (Link.start self me now uid qIn qSrv) as s) :
    (s.readByClient = [] ∧ s.client.stream = [] ∧ s.client.qMessagesIn = qIn ∧
      s.client.conn.writes = []) ∨
    ∃ bytes, s.readByClient = ofUInt64 now ++ bytes ∧ bytes <+: emitted s.server.acts ∧
      s.client.stream = ofUInt64 (scramble now) ++ emitted s.client.acts ∧
      ((bytes = [] ∧ s.client.qMessagesIn = qIn ∧ s.client.conn.writes = [.validation]) ∨
        (s.client.conn.HandshakeDone ∧ LoopInv (fun m => ⟨none,m⟩) qIn bytes s.client)) := by
  have hread := h.run.fromServer
  rw [stream_server h.run.server] at hread
  -- the first eight bytes that a client reads are the challenge
  have hchallenge : ∀ challenge bytes, challenge.length = 8 → s.readByClient = challenge ++ bytes →
      challenge = ofUInt64 now ∧ bytes <+: emitted s.server.acts := by
    intro challenge bytes hlen hrecv
    obtain ⟨more,hmore⟩ := hread
    rw [hrecv, List.append_assoc] at hmore
    obtain ⟨rfl,hrest⟩ := List.append_inj hmore (by simp [hlen])
    exact ⟨rfl,more,hrest⟩
  have hanswer : response (ofUInt64 now) = ofUInt64 (scramble now) := by
    rw [response, toUInt64_ofUInt64]
  obtain hgreets | ⟨hdone,challenge,bytes,new,hlen,hrecv,hhanded,hnew,hloop⟩ := h.client
  · generalize hg : s.client.greeting = g at hgreets
    generalize hr : s.readByClient = recv at hgreets
    have hstream : s.client.stream = (g.handed.map Prod.snd).flatten := by rw [← hg]; rfl
    have hqueue : s.client.qMessagesIn = g.queue := congrArg Greeting.queue hg
    have hwrites : s.client.conn.writes = g.writes := congrArg Greeting.writes hg
    cases hgreets with
    | answering challenge hlen =>
      obtain ⟨rfl,-⟩ := hchallenge _ [] hlen (by rw [hr, List.append_nil])
      have hhanded : handed s.client.acts = [(.validation,response (ofUInt64 now))] :=
        congrArg Greeting.handed hg
      refine .inr ⟨[],(List.append_nil _).symm,List.nil_prefix,?_,.inl ⟨rfl,hqueue,hwrites⟩⟩
      rw [stream_eq hhanded rfl (by simp), hanswer]
    | _ => exact .inl ⟨rfl,hstream,hqueue,hwrites⟩
  · obtain ⟨rfl,hbytes⟩ := hchallenge challenge bytes hlen hrecv
    exact .inr ⟨bytes,hrecv,hbytes,by rw [stream_eq hhanded rfl hnew, hanswer],.inr ⟨hdone,hloop⟩⟩

theorem LinkInv.serverSide (h : LinkInv qIn (Link.start self me now uid qIn qSrv) as s) :
    (s.readByServer = [] ∧ .onClientValidated ∉ s.server.acts ∧ s.server.qMessagesIn = qSrv) ∨
    ∃ bytes, s.readByServer = ofUInt64 (scramble now) ++ bytes ∧
      bytes <+: emitted s.client.acts ∧ .onClientValidated ∈ s.server.acts ∧
      LoopInv (fun m => ⟨some me,m⟩) qSrv bytes s.server := by
  have hread := h.run.fromClient
  have hpre : s.readByServer <+: ofUInt64 (scramble now) ++ emitted s.client.acts := by
    obtain ⟨-,hstream,-⟩ | ⟨-,-,-,hstream,-⟩ := h.clientSide
    · rw [hstream, List.prefix_nil] at hread
      exact hread ▸ List.nil_prefix
    · exact hstream ▸ hread
  rw [h.run.received_server] at hpre ⊢
  exact answers_right h.run.server hpre

theorem LinkInv.unresponded (h : LinkInv qIn (Link.start self me now uid qIn qSrv) as s)
    (hread : s.readByClient = []) : ¬s.client.Responded := by
  rintro ⟨-,hhanded⟩
  obtain hgreets | ⟨-,challenge,bytes,-,hlen,hrecv,-⟩ := h.client
  · rw [hread] at hgreets
    generalize hg : s.client.greeting = g at hgreets
    have hnone : handed s.client.acts = g.handed := congrArg Greeting.handed hg
    cases hgreets with
    | answering _ hlen => cases hlen
    | _ => exact hhanded hnone
  · have := congrArg List.length (hread.symm.trans hrecv)
    simp [hlen] at this
    omega

/-- The only answer that a server side can read is the right one. -/
theorem LinkInv.answer {t : Link T} {bytes : List UInt8}
    (h : LinkInv qIn (Link.start self me now uid qIn qSrv) as s)
    (ht : s.step (.server (.readDone .validation bytes)) = some t) :
    bytes = ofUInt64 (scramble now) ∧ .onClientValidated ∈ t.server.acts := by
  have h' : LinkInv qIn _ (as ++ [.server (.readDone .validation bytes)]) t :=
    linkInv_step h trivial ht
  obtain ⟨ev,io,hact,-,-,-⟩ | ⟨ev,io,hact,hio,-,rfl⟩ := link_step ht
  · cases hact
  cases hact
  obtain ⟨hm,hlen⟩ : .validation ∈ s.server.conn.reads ∧ bytes.length = 8 := by
    by_contra hnot
    simp [Io.step, show ¬ (_ ∧ bytes.length = ReadOp.length .validation) from hnot] at hio
  have hnone : s.readByServer = [] := by
    obtain ⟨hnone,-⟩ | ⟨read,-,-,-,-,-,done,-,-,hstate⟩ := h.serverSide
    · exact hnone
    · exact absurd rfl (hstate.not_validation hm)
  obtain ⟨hempty,-⟩ | ⟨more,hrecv,-,hmem,-⟩ := h'.serverSide
  · have := congrArg List.length hempty
    simp [hnone, Event.bytesRead, hlen] at this
  · simp only [hnone, Event.bytesRead, List.nil_append] at hrecv
    obtain ⟨hbytes,-⟩ := List.append_inj ((List.append_nil bytes).trans hrecv) (by simp [hlen])
    exact ⟨hbytes,hmem⟩

theorem LinkInv.inOrder (h : LinkInv qIn (Link.start self me now uid qIn qSrv) as s) :
    InOrder (fun m => ⟨some me,m⟩) qSrv (sentTasks (clientEvents as)) s.server.qMessagesIn ∧
    InOrder (fun m => ⟨none,m⟩) qIn (sentTasks (serverEvents as)) s.client.qMessagesIn ∧
    (.onClientValidated ∉ s.server.acts →
      s.server.qMessagesIn = qSrv ∧ s.client.qMessagesIn = qIn) := by
  have hfromClient := emitted_isPrefix (.client self qIn) h.run.client
  have hfromServer := emitted_isPrefix (.server me true now uid qSrv) h.run.server
  have hclient : InOrder (fun m => ⟨none,m⟩) qIn (sentTasks (serverEvents as))
      s.client.qMessagesIn := by
    obtain ⟨-,-,hqueue,-⟩ | ⟨bytes,-,hpre,-,⟨-,hqueue,-⟩ | ⟨-,hloop⟩⟩ := h.clientSide
    · exact hqueue ▸ inOrder_none _ _ _
    · exact hqueue ▸ inOrder_none _ _ _
    · exact hloop.inOrder h.sentByServer (hpre.trans hfromServer)
  refine ⟨?_,hclient,fun hnot => ⟨?_,?_⟩⟩
  · obtain ⟨-,-,hqueue⟩ | ⟨bytes,-,hpre,-,hloop⟩ := h.serverSide
    · exact hqueue ▸ inOrder_none _ _ _
    · exact hloop.inOrder h.sentByClient (hpre.trans hfromClient)
  · obtain ⟨-,-,hqueue⟩ | ⟨-,-,-,hmem,-⟩ := h.serverSide
    · exact hqueue
    · exact absurd hmem hnot
  · obtain ⟨ms,hms,hqueue,-⟩ := hclient
    rw [h.unsent hnot, List.prefix_nil] at hms
    simpa [hms, delivered] using hqueue

/-- Whatever fails, at whatever point, and however the bytes are cut into reads: while the ends
send in their turn, each end has received the first messages the other one sent, each once and
in the order of the sends. Before its peer has passed the handshake an end has received none. -/
theorem link_inOrder
    (meets : Meets Link.step InTurn (Link.start self me now uid qIn qSrv) as)
    (run : exec Link.step (Link.start self me now uid qIn qSrv) as = some s) :
    InOrder (fun m => ⟨some me,m⟩) qSrv (sentTasks (clientEvents as)) s.server.qMessagesIn ∧
    InOrder (fun m => ⟨none,m⟩) qIn (sentTasks (serverEvents as)) s.client.qMessagesIn ∧
    (.onClientValidated ∉ s.server.acts →
      s.server.qMessagesIn = qSrv ∧ s.client.qMessagesIn = qIn) :=
  (linkInv_run meets run).inOrder

theorem link_inOrder_headerFailed :
    ∃ s, exec Link.step (Link.start 2 1 5 10000 [] [])
      [.client .connectDone, .client (.readDone .validation (ofUInt64 5)),
        .server (.readDone .validation (ofUInt64 (scramble 5))), .client (.writeDone .validation),
        .client (.sendTask ⟨⟨NetMsgType.kSeckeyAgree,1⟩,[7]⟩),
        .server (.readDone .header [0,0,0,0,1,0,0,0]), .client (.writeDone .header),
        .server (.readDone (.body 1) [7]), .server (.readFailed .header)] = some s ∧
      InOrder (fun m => ⟨some 1,m⟩) [] [⟨⟨NetMsgType.kSeckeyAgree,1⟩,[7]⟩] s.server.qMessagesIn := by
  refine exists_exec (by decide) fun s run => ?_
  exact (link_inOrder (by decide) run).1

/-- The two ends agree on the handshake in every run: the server side never rejects its client,
it validates the client exactly when it has read an answer, and by then the client has read the
challenge of this very connection. No two writes of an end are ever on the wire together. -/
theorem link_agrees
    (meets : Meets Link.step InTurn (Link.start self me now uid qIn qSrv) as)
    (run : exec Link.step (Link.start self me now uid qIn qSrv) as = some s) :
    (.onClientValidated ∈ s.server.acts ↔ s.readByServer ≠ []) ∧
    (.onClientValidated ∈ s.server.acts → s.readByClient.take 8 = ofUInt64 now ∧
      s.readByServer.take 8 = ofUInt64 (scramble now)) ∧
    (∀ bytes t, s.step (.server (.readDone .validation bytes)) = some t →
      bytes = ofUInt64 (scramble now) ∧ .onClientValidated ∈ t.server.acts) ∧
    s.client.conn.writes.length ≤ 1 ∧ s.server.conn.messageWrites.length ≤ 1 ∧
    (s.server.conn.messageWrites ≠ [] → s.readByClient.take 8 = ofUInt64 now) := by
  have h := linkInv_run meets run
  have hread : .onClientValidated ∈ s.server.acts → s.readByClient.take 8 = ofUInt64 now ∧
      s.readByServer.take 8 = ofUInt64 (scramble now) := by
    intro hmem
    obtain ⟨-,hnot,-⟩ | ⟨bytes,hrecv,-,-,-⟩ := h.serverSide
    · exact absurd hmem hnot
    · obtain ⟨-,hstream,-⟩ | ⟨more,hchallenge,-⟩ := h.clientSide
      · have hempty := h.run.fromClient
        rw [hstream, List.prefix_nil, hrecv] at hempty
        have := congrArg List.length hempty
        simp at this
      · rw [hchallenge, hrecv]
        exact ⟨List.take_left' (by simp),List.take_left' (by simp)⟩
  refine ⟨⟨fun hmem hempty => ?_,fun hne => ?_⟩,hread,?_,?_,?_,fun hwrites => (hread ?_).1⟩
  · have := congrArg List.length (hread hmem).2
    simp [hempty] at this
  · obtain ⟨hempty,-⟩ | ⟨-,-,-,hmem,-⟩ := h.serverSide
    · exact absurd hempty hne
    · exact hmem
  · exact fun bytes t ht => h.answer ht
  · obtain ⟨-,-,-,hwrites⟩ | ⟨-,-,-,-,⟨-,-,hwrites⟩ | ⟨hdone,-⟩⟩ := h.clientSide
    · simp [hwrites]
    · simp [hwrites]
    · obtain ⟨done,-,hstate⟩ := writeInv_run (.client self qIn) h.run.client
      exact hdone.messageWrites ▸ hstate.counts.1
  · obtain ⟨done,-,hstate⟩ := writeInv_run (.server me true now uid qSrv) h.run.server
    exact hstate.counts.1
  · by_contra hnot
    obtain ⟨done,hsent,hstate⟩ := writeInv_run (.server me true now uid qSrv) h.run.server
    rw [h.unsent hnot] at hsent
    exact hwrites (hstate.of_queue_nil (List.append_eq_nil_iff.mp hsent.symm).2).2.1

theorem link_agrees_early :
    ∃ s : Link NetMsgType, exec Link.step (Link.start 2 1 5 10000 [] [])
      [.client .connectDone, .client (.readDone .validation (ofUInt64 5)),
        .server (.readDone .validation (ofUInt64 (scramble 5)))] = some s ∧
      (.onClientValidated ∈ s.server.acts ↔ s.readByServer ≠ []) := by
  refine exists_exec (by decide) fun s run => ?_
  exact (link_agrees (by decide) run).1

end Link

end TransmissionPlatform.Net
