import TransmissionPlatform.Net.Framing

/-!
`ClientInterface` with its connection: the application posts `Send` tasks, which run on the
io thread between the callbacks of the handshake. Nothing makes a task wait for the
handshake, so a task may start to write before the response is written. `Orderly` says when
none does.
-/

set_option autoImplicit false

namespace TransmissionPlatform.Net
open LittleEndian StepSystem

structure Client (T : Type) where
  io : Io T
  posted : List (Message T) := []
  events : List (Event T) := []
  deriving DecidableEq, Repr

def Event.isCallback {T : Type} : Event T → Bool
  | .connectDone => true
  | .readDone _ _ => true
  | .writeDone _ => true
  | _ => false

/-- One call of `ClientInterface::Send`, or one turn of the io thread without an error. -/
inductive ClientAct (T : Type) where
  | send (msg : Message T)
  | runTask
  | callback (ev : Event T)
  deriving DecidableEq, Repr

section Client
variable {T : Type} [EnumId T]

def Client.connect (self : Nat) (qIn : List (OwnedMessage T)) : Client T :=
  { io := Io.connectToServer ⟨.new self .kClient false 0,qIn,[]⟩ }

def Client.turn (s : Client T) (ev : Event T) : Option (Client T) :=
  (s.io.step ev).map fun io => { s with io := io, events := s.events ++ [ev] }

/-- `Send` posts its task when `IsOpen()`; posted tasks run in the order of their posting. -/
def Client.step (s : Client T) : ClientAct T → Option (Client T)
  | .send msg => some (if s.io.conn.isOpen then { s with posted := s.posted ++ [msg] } else s)
  | .runTask =>
    match s.posted with
    | [] => none
    | msg :: rest => Client.turn { s with posted := rest } (.sendTask msg)
  | .callback ev => if ev.isCallback then s.turn ev else none

end Client

variable {T : Type}

def ClientAct.sent? : ClientAct T → Option (Message T)
  | .send msg => some msg
  | _ => none

def sends (as : List (ClientAct T)) : List (Message T) := as.filterMap ClientAct.sent?

def Event.challenge? : Event T → Option (List UInt8)
  | .readDone .validation bytes => some bytes
  | _ => none

def ClientAct.challenge? : ClientAct T → Option (List UInt8)
  | .callback ev => ev.challenge?
  | _ => none

def challenges (as : List (ClientAct T)) : List (List UInt8) := as.filterMap ClientAct.challenge?

def Client.stream (s : Client T) : List UInt8 := ((handed s.io.acts).map Prod.snd).flatten

def response (challenge : List UInt8) : List UInt8 := ofUInt64 (scramble (toUInt64 challenge))

/-- No `Send` task runs before the response is written. -/
def Orderly (s : Client T) : ClientAct T → Prop
  | .runTask => s.io.conn.HandshakeDone
  | _ => True

instance (s : Client T) : ∀ act, Decidable (Orderly s act)
  | .runTask => inferInstanceAs (Decidable s.io.conn.HandshakeDone)
  | .send _ | .callback _ => isTrue trivial

/-- The handshake of a client whose tasks wait for it, given the challenges read. -/
inductive ClientPhase : List (List UInt8) → Io T → Prop where
  | connecting {s : Io T} : s.conn.connecting = true → s.conn.reads = [] → s.conn.writes = [] →
      handed s.acts = [] → ClientPhase [] s
  | waiting {s : Io T} : s.conn.connecting = false → s.conn.reads = [.validation] →
      s.conn.writes = [] → handed s.acts = [] → ClientPhase [] s
  | answering {s : Io T} {challenge : List UInt8} : s.conn.connecting = false →
      s.conn.reads = [] → s.conn.writes = [.validation] →
      handed s.acts = [(.validation,response challenge)] → ClientPhase [challenge] s
  | done {s : Io T} {challenge : List UInt8} {new : List (WriteOp × List UInt8)} :
      s.conn.HandshakeDone → handed s.acts = (.validation,response challenge) :: new →
      (∀ b ∈ new, b.1.isMessage = true) → ClientPhase [challenge] s

variable [EnumId T]

structure ClientInv (start : Io T) (as : List (ClientAct T)) (s : Client T) : Prop where
  run : exec Io.step start s.events = some s.io
  sent : sentTasks s.events ++ s.posted = sends as
  noFailure : writeFailed s.events = false
  owner : s.io.conn.nOwnerType = .kClient
  isOpen : s.io.conn.isOpen = true
  phase : ClientPhase (challenges as) s.io

section Step
variable {s t : Io T} {ev : Event T}

theorem client_keeps (howner : s.conn.nOwnerType = .kClient)
    (hev : ev.isCallback = true ∨ ∃ msg, ev = .sendTask msg) (ht : s.step ev = some t) :
    t.conn.nOwnerType = .kClient ∧ t.conn.isOpen = s.conn.isOpen := by
  have writes : ∀ u : Io T, u.conn = { s.conn with writes := u.conn.writes } →
      MessageWritesOnly u t → t.conn.nOwnerType = .kClient ∧ t.conn.isOpen = s.conn.isOpen := by
    rintro u hu ⟨queue,new,-,rfl⟩
    rw [hu]
    exact ⟨howner,rfl⟩
  obtain hev | ⟨msg,rfl⟩ := hev
  · cases ev with
    | connectDone =>
      simp only [Io.step] at ht
      split at ht <;> cases ht
      exact ⟨howner,rfl⟩
    | readDone op bytes =>
      simp only [Io.step] at ht
      split at ht <;> cases ht
      by_cases hop : op = .validation
      · subst hop
        simp only [Io.onRead, Io.validationRead, Io.endRead, howner]
        exact ⟨rfl,rfl⟩
      · obtain ⟨msg,h | h⟩ := onRead_cases (s.endRead op) hop bytes <;> rw [h]
        · exact ⟨howner,rfl⟩
        · exact ⟨howner,rfl⟩
    | writeDone op =>
      simp only [Io.step] at ht
      split at ht
      · cases op with
        | validation =>
          simp only [Io.onWrite, Io.endWrite, howner, Option.some.injEq] at ht
          subst ht
          exact ⟨rfl,rfl⟩
        | header => exact writes (s.endWrite .header) rfl (messageWritesOnly_onWrite rfl ht)
        | body => exact writes (s.endWrite .body) rfl (messageWritesOnly_onWrite rfl ht)
      · cases ht
    | _ => cases hev
  · exact writes s rfl (messageWritesOnly_sendTask ht)

theorem clientPhase_step {cs : List (List UInt8)} (h : ClientPhase cs s)
    (howner : s.conn.nOwnerType = .kClient)
    (hev : ev.isCallback = true ∨ ((∃ msg, ev = .sendTask msg) ∧ s.conn.HandshakeDone))
    (ht : s.step ev = some t) : ClientPhase (cs ++ ev.challenge?.toList) t := by
  cases h with
  | connecting hconn hreads hwrites hhanded =>
    cases ev with
    | connectDone =>
      simp only [Io.step, hconn, if_true, Option.some.injEq] at ht
      subst ht
      exact .waiting rfl (by simp [Io.connected, Io.readValidation, Io.asyncRead, hreads]) hwrites
        (by simpa [Io.connected, Io.readValidation, Io.asyncRead, handed] using hhanded)
    | readDone op bytes => simp [Io.step, hreads] at ht
    | writeDone op => simp [Io.step, hwrites] at ht
    | sendTask msg =>
      obtain hev | ⟨-,hdone,-⟩ := hev
      · cases hev
      · rw [hconn] at hdone
        cases hdone
    | _ => simp [Event.isCallback] at hev
  | waiting hconn hreads hwrites hhanded =>
    cases ev with
    | connectDone => simp [Io.step, hconn] at ht
    | readDone op bytes =>
      simp only [Io.step] at ht
      split at ht <;> cases ht
      rename_i hm
      rw [hreads] at hm
      obtain rfl := List.mem_singleton.mp hm.1
      simp only [Io.onRead, Io.validationRead, Io.endRead, howner]
      refine .answering hconn ?_ ?_ ?_
      · simp [Io.writeValidation, Io.asyncWrite, hreads]
      · simp [Io.writeValidation, Io.asyncWrite, hwrites]
      · simp [Io.writeValidation, Io.asyncWrite, hhanded, handed_append, response]
        rfl
    | writeDone op => simp [Io.step, hwrites] at ht
    | sendTask msg =>
      obtain hev | ⟨-,-,hdone,-⟩ := hev
      · cases hev
      · simp [hreads] at hdone
    | _ => simp [Event.isCallback] at hev
  | answering hconn hreads hwrites hhanded =>
    cases ev with
    | connectDone => simp [Io.step, hconn] at ht
    | readDone op bytes => simp [Io.step, hreads] at ht
    | writeDone op =>
      simp only [Io.step] at ht
      split at ht
      · rename_i hm
        rw [hwrites] at hm
        obtain rfl := List.mem_singleton.mp hm
        simp only [Io.onWrite, Io.endWrite, howner, Option.some.injEq] at ht
        subst ht
        have hnone : ∀ b ∈ ([] : List (WriteOp × List UInt8)), b.1.isMessage = true := by simp
        refine .done ⟨hconn,?_,?_⟩ ?_ hnone
        · simp [Io.readHeader, Io.asyncRead, hreads]
        · simp [Io.readHeader, Io.asyncRead, hwrites]
        · simpa [Io.readHeader, Io.asyncRead, handed] using hhanded
      · cases ht
    | sendTask msg =>
      obtain hev | ⟨-,-,-,hdone⟩ := hev
      · cases hev
      · simp [hwrites] at hdone
    | _ => simp [Event.isCallback] at hev
  | done hdone hhanded hnew =>
    obtain ⟨hdone',more,hmore,hall⟩ := handshakeDone_step hdone ht
    have hno : ev.challenge? = none := by
      cases ev with
      | readDone op bytes =>
        cases op with
        | validation => simp [Io.step, hdone.2.1] at ht
        | header => rfl
        | body size => rfl
      | _ => rfl
    rw [hno, Option.toList_none, List.append_nil]
    refine .done hdone' (by rw [hmore, hhanded, List.cons_append]) ?_
    exact fun b hb => (List.mem_append.mp hb).elim (hnew b) (hall b)

end Step

theorem client_turn {s t : Client T} {ev : Event T} (ht : s.turn ev = some t) :
    ∃ io, s.io.step ev = some io ∧ t = { s with io := io, events := s.events ++ [ev] } := by
  obtain ⟨io,hio,rfl⟩ := Option.map_eq_some_iff.mp ht
  exact ⟨io,hio,rfl⟩

omit [EnumId T] in
theorem sentTasks_callback {ev : Event T} (h : ev.isCallback = true) :
    sentTasks [ev] = [] ∧ writeFailed [ev] = false := by
  cases ev <;> simp [Event.isCallback] at h <;> exact ⟨rfl,rfl⟩

theorem clientInv_step {start : Io T} {as : List (ClientAct T)} {s t : Client T}
    {act : ClientAct T} (hs : ClientInv start as s) (hact : Orderly s act)
    (ht : s.step act = some t) : ClientInv start (as ++ [act]) t := by
  obtain ⟨hrun,hsent,hfail,howner,hopen,hphase⟩ := hs
  have hsends : sends (as ++ [act]) = sends as ++ act.sent?.toList := by
    rw [sends, List.filterMap_append]
    cases h : act.sent? <;> simp [h, sends]
  have hchallenges : challenges (as ++ [act]) = challenges as ++ act.challenge?.toList := by
    rw [challenges, List.filterMap_append]
    cases h : act.challenge? <;> simp [h, challenges]
  cases act with
  | send msg =>
    simp only [Client.step, hopen, if_true, Option.some.injEq] at ht
    subst ht
    have hsends' : sends (as ++ [.send msg]) = sends as ++ [msg] := hsends
    have hchallenges' : challenges (as ++ [.send msg]) = challenges as := by
      rw [hchallenges]
      exact List.append_nil _
    refine ⟨hrun,?_,hfail,howner,hopen,hchallenges' ▸ hphase⟩
    rw [hsends', ← hsent, List.append_assoc]
  | runTask =>
    have hsame : sends (as ++ [.runTask]) = sends as := by
      rw [hsends]
      exact List.append_nil _
    have hchallenges' : challenges (as ++ [.runTask]) = challenges as := by
      rw [hchallenges]
      exact List.append_nil _
    simp only [Client.step] at ht
    split at ht
    · cases ht
    · rename_i msg rest hposted
      obtain ⟨io,hio,rfl⟩ := client_turn ht
      obtain ⟨hkowner,hkopen⟩ := client_keeps howner (.inr ⟨msg,rfl⟩) hio
      have hnext := clientPhase_step hphase howner (.inr ⟨⟨msg,rfl⟩,hact⟩) hio
      refine ⟨exec_snoc.mpr ⟨s.io,hrun,hio⟩,?_,?_,hkowner,hkopen.trans hopen,?_⟩
      · rw [sentTasks_append, hsame, ← hsent, hposted, List.append_assoc]
        rfl
      · rw [writeFailed_append, hfail]
        rfl
      · rw [hchallenges']
        simpa [Event.challenge?] using hnext
  | callback ev =>
    have hsame : sends (as ++ [.callback ev]) = sends as := by
      rw [hsends]
      exact List.append_nil _
    simp only [Client.step] at ht
    split at ht
    · rename_i hev
      obtain ⟨io,hio,rfl⟩ := client_turn ht
      obtain ⟨hkowner,hkopen⟩ := client_keeps howner (.inl hev) hio
      obtain ⟨hnotask,hnofail⟩ := sentTasks_callback hev
      refine ⟨exec_snoc.mpr ⟨s.io,hrun,hio⟩,?_,?_,hkowner,hkopen.trans hopen,?_⟩
      · rw [sentTasks_append, hnotask, List.append_nil, hsame, hsent]
      · rw [writeFailed_append, hfail, hnofail]
        rfl
      · rw [hchallenges]
        exact clientPhase_step hphase howner (.inl hev) hio
    · cases ht

theorem clientInv_run {self : Nat} {qIn : List (OwnedMessage T)} {as : List (ClientAct T)}
    {s : Client T} (meets : Meets Client.step Orderly (Client.connect self qIn) as)
    (run : exec Client.step (Client.connect self qIn) as = some s) :
    ClientInv (Client.connect self qIn).io as s := by
  refine exec_induction (I := ClientInv (Client.connect self qIn).io) ?_
    (fun _ _ _ _ => clientInv_step) meets run
  exact ⟨rfl,rfl,rfl,rfl,rfl,.connecting rfl rfl rfl rfl⟩

/-- The server side, given the bytes it has read: the client owes its answer, or gave the
right one and is read by the loop, or nothing more is read of it. -/
inductive Answered (me : Nat) (now : UInt64) (qIn : List (OwnedMessage T)) (recv : List UInt8)
    (s : Io T) : Prop where
  | waiting : recv = [] → s.conn.reads = [.validation] → s.conn.msgTemporaryIn.body = [] →
      s.qMessagesIn = qIn → Answered me now qIn recv s
  | reading {bytes : List UInt8} : recv = ofUInt64 (scramble now) ++ bytes →
      .onClientValidated ∈ s.acts → LoopInv (fun m => ⟨some me,m⟩) qIn bytes s →
      Answered me now qIn recv s
  | ended : s.conn.reads = [] → recv.take 8 ≠ ofUInt64 (scramble now) → Answered me now qIn recv s

section Server
variable {me : Nat} {now : UInt64} {qIn : List (OwnedMessage T)} {recv : List UInt8} {s t : Io T}

theorem answered_validation (hside : s.conn.ServerSide me now)
    (hbody : s.conn.msgTemporaryIn.body = []) (hqueue : s.qMessagesIn = qIn)
    (hreads : s.conn.reads = []) {bytes : List UInt8} (hlen : bytes.length = 8) :
    Answered me now qIn bytes (s.onRead .validation bytes) := by
  have htake : bytes.take 8 = bytes := List.take_of_length_le (Nat.le_of_eq hlen)
  by_cases heq : toUInt64 bytes = scramble now
  · have hread : s.onRead .validation bytes = Io.readHeader { s with
        conn := { s.conn with nHandshakeIn := toUInt64 bytes }
        acts := s.acts ++ [.onClientValidated] } := by
      simp [Io.onRead, Io.validationRead, hside.owner, hside.handshakeCheck, heq]
    have hstarts : (s.onRead .validation bytes).conn.LoopStarts := by
      rw [hread]
      refine ⟨⟨hside.connecting,.inl hside.owner⟩,?_,hbody⟩
      simp [Io.readHeader, Io.asyncRead, hreads]
    have howned : (s.onRead .validation bytes).conn.owned = fun m => ⟨some me,m⟩ := by
      funext m
      simp [hread, Connection.owned, Io.readHeader, Io.asyncRead, hside.owner, hside.self_eq]
    have hloop := loopInv_start hstarts
    rw [howned] at hloop
    have hq : (s.onRead .validation bytes).qMessagesIn = qIn := by
      rw [hread]
      exact hqueue
    refine .reading ?_ ?_ (hq ▸ hloop)
    · rw [List.append_nil, ← heq, ofUInt64_toUInt64 hlen]
    · simp [hread, Io.readHeader, Io.asyncRead]
  · have hread : s.onRead .validation bytes =
        Io.close { s with conn := { s.conn with nHandshakeIn := toUInt64 bytes } } := by
      simp [Io.onRead, Io.validationRead, hside.owner, hside.handshakeCheck, heq]
    refine .ended (by rw [hread]; exact hreads) ?_
    rw [htake]
    intro h
    exact heq (by rw [h, toUInt64_ofUInt64])

theorem answered_step {ev : Event T} (hside : s.conn.ServerSide me now)
    (hs : Answered me now qIn recv s) (ht : s.step ev = some t) :
    Answered me now qIn (recv ++ ev.bytesRead) t := by
  cases hs with
  | reading hrecv hmem hloop =>
    refine .reading ?_ ((acts_step ht).subset hmem) (loopInv_step hloop ht)
    rw [hrecv, List.append_assoc]
  | waiting hrecv hreads hbody hqueue =>
    subst hrecv
    have hnone : ([] : List UInt8).take 8 ≠ ofUInt64 (scramble now) := by
      intro h
      have := congrArg List.length h
      simp at this
    obtain ⟨op,bytes,rfl,hm,hlen,rfl⟩ | ⟨op,rfl,hm,rfl⟩ | ⟨hev,hsame⟩ := serverSide_cases hside ht
    · rw [hreads] at hm
      obtain rfl := List.mem_singleton.mp hm
      have hside' := hside.endRead .validation
      exact answered_validation hside' hbody hqueue (by simp [Io.endRead, hreads]) hlen
    · rw [hreads] at hm
      obtain rfl := List.mem_singleton.mp hm
      exact .ended (by simp [Io.close, Io.endRead, hreads]) hnone
    · rw [Event.bytesRead_eq_nil hev]
      exact .waiting rfl (hsame.reads.trans hreads) (hsame.temporary ▸ hbody)
        (hsame.queue.trans hqueue)
  | ended hreads hwrong =>
    obtain ⟨op,bytes,-,hm,-,-⟩ | ⟨op,-,hm,-⟩ | ⟨hev,hsame⟩ := serverSide_cases hside ht
    · rw [hreads] at hm
      cases hm
    · rw [hreads] at hm
      cases hm
    · rw [Event.bytesRead_eq_nil hev, List.append_nil]
      exact .ended (hsame.reads.trans hreads) hwrong

theorem answered_run {uid : UInt32} {evs : List (Event T)}
    (run : exec Io.step (Io.connectToClient uid ⟨.new me .kServer true now,qIn,[]⟩) evs = some s) :
    Answered me now qIn (received evs) s := by
  refine exec_reached (I := fun evs u => Answered me now qIn (received evs) u)
    (.waiting rfl rfl rfl rfl) ?_ (meets_true _ evs) run
  intro evs u ev v reached hu _ hstep
  rw [received_snoc]
  exact answered_step (readInv_run reached).1 hu hstep

/-- A server side that has read the right answer, and what was written behind it, has validated
its client and reads on in the loop. -/
theorem answered_right {bytes : List UInt8}
    (hs : Answered me now qIn (ofUInt64 (scramble now) ++ bytes) s) :
    .onClientValidated ∈ s.acts ∧ LoopInv (fun m => ⟨some me,m⟩) qIn bytes s := by
  cases hs with
  | waiting hrecv hreads hbody hqueue =>
    have := congrArg List.length hrecv
    simp at this
  | reading hrecv hmem hloop =>
    rw [← List.append_cancel_left hrecv] at hloop
    exact ⟨hmem,hloop⟩
  | ended hreads hwrong => exact absurd (List.take_left' (by simp)) hwrong

end Server

theorem answered_enabled {me : Nat} {now : UInt64} {uid : UInt32} {qIn : List (OwnedMessage T)}
    {msgs : List (Message T)} (hmsgs : ∀ m ∈ msgs, m.Announced) :
    ∃ evs t, exec Io.step (Io.connectToClient uid ⟨.new me .kServer true now,qIn,[]⟩) evs =
      some t ∧ received evs = ofUInt64 (scramble now) ++ frames msgs := by
  have hfirst : ∃ u, Io.step (Io.connectToClient uid ⟨.new me .kServer true now,qIn,[]⟩)
      (.readDone .validation (ofUInt64 (scramble now))) = some u ∧ u.conn.reads = [.header] := by
    simp [Io.step, Io.connectToClient, Connection.new, Io.writeValidation, Io.asyncWrite,
      Io.readValidation, Io.asyncRead, ReadOp.length, Io.onRead, Io.validationRead, Io.endRead,
      Io.readHeader]
  obtain ⟨u,hu,hreads⟩ := hfirst
  obtain ⟨t,ht,-⟩ := readEvents_enabled hreads hmsgs
  refine ⟨.readDone .validation (ofUInt64 (scramble now)) :: readEvents msgs,t,?_,?_⟩
  · rw [exec_cons, hu, Option.bind_some, ht]
  · have hbytes : received (readEvents msgs) = frames msgs := received_readEvents msgs
    rw [← hbytes]
    simp [received, Event.bytesRead]

omit [EnumId T] in
theorem stream_of_handed {s : Client T} {first : WriteOp × List UInt8}
    {new : List (WriteOp × List UInt8)} (h : handed s.io.acts = first :: new)
    (hfirst : first.1.isMessage = false) (hnew : ∀ b ∈ new, b.1.isMessage = true) :
    s.stream = first.2 ++ emitted s.io.acts := by
  have hfilter : new.filter (·.1.isMessage) = new := List.filter_eq_self.mpr hnew
  simp [Client.stream, emitted, messageBuffers, h, hfirst, hfilter]

section Client
variable {start : Io T} {as : List (ClientAct T)} {s : Client T}

theorem ClientInv.stream_eq (h : ClientInv start as s) :
    (challenges as = [] → s.stream = []) ∧
      ∀ challenge ∈ challenges as, s.stream = response challenge ++ emitted s.io.acts := by
  have hphase := h.phase
  generalize challenges as = cs at hphase
  cases hphase with
  | connecting _ _ _ hhanded => simp [Client.stream, hhanded]
  | waiting _ _ _ hhanded => simp [Client.stream, hhanded]
  | answering _ _ _ hhanded =>
    simp only [List.cons_ne_nil, false_implies, List.mem_singleton, forall_eq, true_and]
    exact stream_of_handed hhanded rfl (by simp)
  | done _ hhanded hnew =>
    simp only [List.cons_ne_nil, false_implies, List.mem_singleton, forall_eq, true_and]
    exact stream_of_handed hhanded rfl hnew

theorem ClientInv.writes (h : ClientInv start as s) (hstart : Started start) :
    s.io.conn.writes.length ≤ 1 ∧
      (s.io.conn.writes = [] → challenges as ≠ [] →
        s.io.conn.HandshakeDone ∧ s.io.conn.qMessagesOut = []) := by
  obtain ⟨done,-,hstate⟩ := writeInv_run hstart h.run
  have hphase := h.phase
  generalize challenges as = cs at hphase
  cases hphase with
  | connecting _ _ hwrites _ => simp [hwrites]
  | waiting _ _ hwrites _ => simp [hwrites]
  | answering _ _ hwrites _ => simp [hwrites]
  | done hdone _ _ =>
    obtain ⟨hone,hiff⟩ := hstate.counts
    have hmessages : s.io.outgoing.writes = s.io.conn.writes := hdone.messageWrites
    rw [hmessages] at hone hiff
    refine ⟨hone,fun hnone _ => ⟨hdone,?_⟩⟩
    by_contra hqueue
    have := hiff.mpr ⟨hqueue,h.noFailure⟩
    rw [hnone] at this
    cases this

/-- Some callback or task can run, in order, as long as something is left to write. -/
theorem ClientInv.progress (h : ClientInv start as s) (hstart : Started start)
    (hread : challenges as ≠ []) (hleft : s.posted ≠ [] ∨ s.io.conn.writes ≠ []) :
    ∃ act, act.sent? = none ∧ Orderly s act ∧ (s.step act).isSome = true := by
  obtain ⟨htask,hwrite⟩ := writes_defined hstart h.run
  cases hwrites : s.io.conn.writes with
  | nil =>
    have hposted : s.posted ≠ [] := hleft.resolve_right fun hne => hne hwrites
    obtain ⟨msg,rest,hcons⟩ := List.exists_cons_of_ne_nil hposted
    refine ⟨.runTask,rfl,((h.writes hstart).2 hwrites hread).1,?_⟩
    simpa [Client.step, hcons, Client.turn] using htask msg
  | cons op rest =>
    refine ⟨.callback (.writeDone op),rfl,trivial,?_⟩
    have := hwrite op (by simp [hwrites])
    simpa [Client.step, Event.isCallback, Client.turn] using this

theorem ClientInv.emitted (h : ClientInv start as s) (hstart : Started start) :
    emitted s.io.acts <+: frames (sends as) ∧
      (s.posted = [] → s.io.conn.qMessagesOut = [] → emitted s.io.acts = frames (sends as)) := by
  obtain ⟨done,htasks,hstate⟩ := writeInv_run hstart h.run
  constructor
  · rw [← h.sent, frames_append, htasks]
    exact hstate.inOrder.trans (List.prefix_append _ _)
  · intro hposted hqueue
    rw [emitted_of_queue_nil hstart h.run hqueue, ← h.sent, hposted, List.append_nil]

end Client

/-- While no `Send` task runs before the response is written, a client writes the response
and then the frames of the messages in the order of the calls, one write at a time, and
never gets stuck. A server side with that challenge that reads this stream validates the
client. It can read the stream of well-formed messages to its end, and pushes then what was
sent unless an empty body comes after one that is not. -/
theorem stream_of_orderly {self : Nat} {qIn : List (OwnedMessage T)} {as : List (ClientAct T)}
    {s : Client T} (meets : Meets Client.step Orderly (Client.connect self qIn) as)
    (run : exec Client.step (Client.connect self qIn) as = some s) :
    s.io.conn.writes.length ≤ 1 ∧
    (challenges as = [] → s.stream = []) ∧
    ∀ challenge ∈ challenges as,
      s.stream <+: response challenge ++ frames (sends as) ∧
      (s.posted ≠ [] ∨ s.io.conn.writes ≠ [] →
        ∃ act, act.sent? = none ∧ Orderly s act ∧ (s.step act).isSome = true) ∧
      (s.posted = [] → s.io.conn.writes = [] →
        s.stream = response challenge ++ frames (sends as) ∧
        ∀ me now uid qSrv, challenge = ofUInt64 now →
          (∀ evs t, exec Io.step (Io.connectToClient uid ⟨.new me .kServer true now,qSrv,[]⟩) evs =
            some t → received evs = s.stream → .onClientValidated ∈ t.acts) ∧
          ((∀ m ∈ sends as, m.Announced) →
            (∃ evs t, exec Io.step (Io.connectToClient uid ⟨.new me .kServer true now,qSrv,[]⟩)
              evs = some t ∧ received evs = s.stream) ∧
            ∀ evs t, exec Io.step (Io.connectToClient uid ⟨.new me .kServer true now,qSrv,[]⟩)
              evs = some t → received evs = s.stream →
              (t.qMessagesIn = qSrv ++ (sends as).map (fun m => ⟨some me,m⟩) ↔
                EmptyFirst (sends as)))) := by
  have hstart : Started (Client.connect self qIn).io := .client self qIn
  have hinv := clientInv_run meets run
  obtain ⟨hnone,hstream⟩ := hinv.stream_eq
  obtain ⟨hone,hidle⟩ := hinv.writes hstart
  obtain ⟨hpre,hall⟩ := hinv.emitted hstart
  refine ⟨hone,hnone,fun challenge hc => ?_⟩
  have hread : challenges as ≠ [] := List.ne_nil_of_mem hc
  rw [hstream challenge hc]
  refine ⟨(List.prefix_append_right_inj _).mpr hpre,hinv.progress hstart hread,?_⟩
  intro hposted hwrites
  rw [hall hposted (hidle hwrites hread).2]
  refine ⟨rfl,?_⟩
  rintro me now uid qSrv rfl
  rw [response, toUInt64_ofUInt64]
  have right : ∀ {evs t},
      exec Io.step (Io.connectToClient uid ⟨.new me .kServer true now,qSrv,[]⟩) evs = some t →
      received evs = ofUInt64 (scramble now) ++ frames (sends as) →
      .onClientValidated ∈ t.acts ∧
        LoopInv (fun m => ⟨some me,m⟩) qSrv (frames (sends as)) t := by
    intro evs t hrun hrecv
    have hanswered := answered_run hrun
    rw [hrecv] at hanswered
    exact answered_right hanswered
  refine ⟨fun evs t hrun hrecv => (right hrun hrecv).1,fun hann => ⟨answered_enabled hann,?_⟩⟩
  intro evs t hrun hrecv
  have hinj : Function.Injective fun m : Message T => (⟨some me,m⟩ : OwnedMessage T) :=
    fun m m' h => congrArg OwnedMessage.msg h
  rw [(right hrun hrecv).2.delivered hann, List.append_cancel_left_eq, hinj.list_map.eq_iff,
    delivered_eq_iff]
  exact and_iff_left fun h => absurd rfl h

theorem stream_of_orderly_oneMessage :
    ∃ s, exec Client.step (Client.connect 2 [])
      [.send ⟨⟨NetMsgType.kSeckeyAgree,1⟩,[7]⟩, .callback .connectDone,
        .callback (.readDone .validation (ofUInt64 5)), .callback (.writeDone .validation),
        .runTask, .callback (.writeDone .header), .callback (.writeDone .body)] = some s ∧
      s.stream = response (ofUInt64 5) ++ [0,0,0,0,1,0,0,0,7] ∧
      ∃ evs t, exec Io.step (Io.connectToClient 10000 ⟨.new 1 .kServer true 5,[],[]⟩) evs = some t ∧
        .onClientValidated ∈ t.acts ∧
        t.qMessagesIn = [⟨some 1,⟨⟨NetMsgType.kSeckeyAgree,1⟩,[7]⟩⟩] := by
  refine exists_exec rfl fun s run => ?_
  have hposted : s.posted = [] := by
    cases run
    rfl
  have hwrites : s.io.conn.writes = [] := by
    cases run
    rfl
  obtain ⟨-,-,hstream⟩ := stream_of_orderly (by decide) run
  obtain ⟨hwritten,hserver⟩ := (hstream (ofUInt64 5) (by decide)).2.2 hposted hwrites
  obtain ⟨hvalidates,hreads⟩ := hserver 1 5 10000 [] rfl
  obtain ⟨⟨evs,t,hrun,hrecv⟩,hqueue⟩ := hreads (by decide)
  exact ⟨hwritten,evs,t,hrun,hvalidates evs t hrun hrecv,(hqueue evs t hrun hrecv).mpr (by decide)⟩

/-- The task of a message sent early runs before the challenge is read: the header goes out
first, and the server side takes it for the answer and closes. -/
theorem stream_headerFirst :
    ∃ s, exec Client.step (Client.connect 2 [])
      [.send ⟨⟨NetMsgType.kSeckeyAgree,1⟩,[7]⟩, .callback .connectDone, .runTask,
        .callback (.readDone .validation (ofUInt64 5)), .callback (.writeDone .header),
        .callback (.writeDone .validation), .callback (.writeDone .body)] = some s ∧
      s.stream = [0,0,0,0,1,0,0,0] ++ response (ofUInt64 5) ++ [7] ∧
      ¬ s.stream <+: response (ofUInt64 5) ++ [0,0,0,0,1,0,0,0,7] ∧
      ∃ t : Io NetMsgType, exec Io.step (Io.connectToClient 10000 ⟨.new 1 .kServer true 5,[],[]⟩)
        [.readDone .validation (s.stream.take 8)] = some t ∧
        .onClientValidated ∉ t.acts ∧ t.conn.isOpen = false := by
  refine ⟨_,rfl,by decide,by decide,_,rfl,by decide,rfl⟩

end TransmissionPlatform.Net
