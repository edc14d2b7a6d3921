import TransmissionPlatform.Net.Link

/-!
A link on which nothing fails gets done. Every completion moves at least one byte of what
the ends hand over, so the completions are bounded by the frames sent; and as long as
something has not arrived, one of the ends can go on.
-/

set_option autoImplicit false

namespace TransmissionPlatform.Net
open LittleEndian StepSystem

variable {T : Type}

def Event.goesOn : Event T → Bool
  | .connectFailed | .readFailed _ | .writeFailed _ | .closeTask => false
  | _ => true

def Adds (s t : Io T) : Prop :=
  ∃ new : List (WriteOp × List UInt8), (∀ b ∈ new, b.2 ≠ []) ∧
    handed t.acts = handed s.acts ++ new ∧
    t.conn.writes = s.conn.writes ++ new.map Prod.fst ∧
    t.conn.connecting = s.conn.connecting

theorem adds_none {s t : Io T} (hacts : handed t.acts = handed s.acts)
    (hwrites : t.conn.writes = s.conn.writes) (hconn : t.conn.connecting = s.conn.connecting) :
    Adds s t :=
  ⟨[],by simp,by simp [hacts],by simp [hwrites],hconn⟩

theorem adds_asyncWrite (s : Io T) (op : WriteOp) {buffer : List UInt8} (h : buffer ≠ []) :
    Adds s (s.asyncWrite op buffer) :=
  ⟨[(op,buffer)],by simpa using h,by simp [Io.asyncWrite, handed],rfl,rfl⟩

theorem ne_nil_of_length {xs : List UInt8} {n : Nat} (h : xs.length = n + 1) : xs ≠ [] := by
  rintro rfl
  cases h

section Adds
variable [EnumId T] {s t : Io T}

theorem adds_writeHeader {queue : List (Message T)}
    (ht : Io.writeHeader { s with conn := { s.conn with qMessagesOut := queue } } = some t) :
    Adds s t := by
  obtain ⟨msg,-,rfl⟩ := Option.map_eq_some_iff.mp ht
  exact adds_asyncWrite { s with conn := { s.conn with qMessagesOut := queue } } .header
    (ne_nil_of_length msg.header.bytes_length)

theorem adds_popAndContinue (ht : s.popAndContinue = some t) : Adds s t := by
  simp only [Io.popAndContinue] at ht
  split at ht
  · cases ht
  · split at ht
    · cases ht
      exact adds_none rfl rfl rfl
    · exact adds_writeHeader ht

theorem adds_onWrite {op : WriteOp} (ht : s.onWrite op = some t) : Adds s t := by
  cases op with
  | validation =>
    simp only [Io.onWrite] at ht
    split at ht <;> cases ht
    · exact adds_none (by simp [Io.readHeader, Io.asyncRead, handed]) rfl rfl
    · exact adds_none rfl rfl rfl
  | header =>
    obtain ⟨msg,hmsg,ht⟩ := Option.bind_eq_some_iff.mp ht
    split at ht
    · rename_i hpos
      simp only [Io.writeBody, hmsg, Option.map_some, Option.some.injEq] at ht
      subst ht
      exact adds_asyncWrite s .body (List.ne_nil_of_length_pos hpos)
    · exact adds_popAndContinue ht
  | body => exact adds_popAndContinue ht

theorem adds_sendTask {msg : Message T} (ht : s.sendTask msg = some t) : Adds s t := by
  simp only [Io.sendTask] at ht
  split at ht
  · cases ht
    exact adds_none rfl rfl rfl
  · exact adds_writeHeader ht

theorem adds_onRead (s : Io T) (op : ReadOp) (bytes : List UInt8) :
    Adds s (s.onRead op bytes) := by
  by_cases hop : op = .validation
  · subst hop
    simp only [Io.onRead, Io.validationRead]
    split
    · split
      · exact adds_none (by simp [Io.readHeader, Io.asyncRead, handed]) rfl rfl
      · exact adds_none (by simp [Io.close, handed]) rfl rfl
    · exact adds_asyncWrite _ .validation (ne_nil_of_length (ofUInt64_length _))
  · obtain ⟨msg,h | h⟩ := onRead_cases s hop bytes <;> rw [h]
    · exact adds_none (by simp [Io.readBody, Io.asyncRead, handed]) rfl rfl
    · exact adds_none (by simp [Io.addToIncomingMessageQueue, Io.readHeader, Io.asyncRead, handed])
        rfl rfl

end Adds

/-! One end: each completion is paid for by a byte. -/

def Connection.ReadsSome (c : Connection T) : Prop := ∀ op ∈ c.reads, 0 < op.length

structure Paid [EnumId T] (evs : List (Event T)) (s : Io T) : Prop where
  reads : s.conn.ReadsSome
  filled : ∀ b ∈ handed s.acts, b.2 ≠ []
  count : evs.countP (·.isCallback) + s.conn.writes.length + s.conn.connecting.toNat ≤
    1 + (received evs).length + (handed s.acts).length

section Paid
variable [EnumId T] {s t : Io T} {evs : List (Event T)} {ev : Event T}

omit [EnumId T] in
theorem readsSome_append {c : Connection T} {next : ReadOp} (h : c.ReadsSome)
    (hnext : 0 < next.length) : ({ c with reads := c.reads ++ [next] } : Connection T).ReadsSome := by
  intro op hop
  obtain hop | hop := List.mem_append.mp hop
  · exact h op hop
  · exact List.mem_singleton.mp hop ▸ hnext

theorem readsSome_onRead {s : Io T} (h : s.conn.ReadsSome) (op : ReadOp) (bytes : List UInt8) :
    (s.onRead op bytes).conn.ReadsSome := by
  have hheader : 0 < ReadOp.header.length := by decide
  cases op with
  | validation =>
    simp only [Io.onRead, Io.validationRead]
    split
    · split
      · exact readsSome_append h hheader
      · exact h
    · exact h
  | header =>
    simp only [Io.onRead, Io.headerRead]
    split
    · refine readsSome_append h ?_
      rename_i hpos
      rw [ReadOp.length, resize_length]
      exact UInt32.lt_iff_toNat_lt.mp hpos
    · exact readsSome_append h hheader
  | body size => exact readsSome_append h hheader

omit [EnumId T] in
theorem readsSome_writes (h : s.conn.ReadsSome) (w : MessageWritesOnly s t) : t.conn.ReadsSome := by
  obtain ⟨queue,new,-,rfl⟩ := w
  exact h

theorem readsSome_onWrite {op : WriteOp} (h : s.conn.ReadsSome) (ht : s.onWrite op = some t) :
    t.conn.ReadsSome := by
  cases op with
  | validation =>
    simp only [Io.onWrite] at ht
    split at ht <;> cases ht
    · exact readsSome_append h (by decide)
    · exact h
  | header | body => exact readsSome_writes h (messageWritesOnly_onWrite rfl ht)

theorem paid_step (hs : Paid evs s) (ht : s.step ev = some t) : Paid (evs ++ [ev]) t := by
  obtain ⟨hsome,hfilled,hcount⟩ := hs
  have erased : ∀ op, (s.endRead op).conn.ReadsSome :=
    fun op o ho => hsome o (List.mem_of_mem_erase ho)
  -- what completes is paid for, and then writes are started
  have adds : ∀ u : Io T, handed u.acts = handed s.acts →
      u.conn.connecting = s.conn.connecting → t.conn.ReadsSome → Adds u t →
      [ev].countP (·.isCallback) + u.conn.writes.length ≤
        s.conn.writes.length + ev.bytesRead.length →
      Paid (evs ++ [ev]) t := by
    rintro u hu huconn htsome ⟨new,hnew,hhanded,hwrites,hconn⟩ hle
    refine ⟨htsome,?_,?_⟩
    · rw [hhanded, hu]
      exact List.forall_mem_append.mpr ⟨hfilled,hnew⟩
    · rw [received_snoc, hhanded, hwrites, hconn, hu, huconn, List.countP_append]
      simp only [List.length_append, List.length_map]
      omega
  have close : ∀ u : Io T, Adds u u.close :=
    fun u => adds_none (by simp [Io.close, handed]) rfl rfl
  cases ev with
  | connectDone =>
    simp only [Io.step] at ht
    split at ht <;> cases ht
    rename_i hconn
    refine ⟨readsSome_append hsome (by decide),?_,?_⟩
    · simpa [Io.connected, Io.readValidation, Io.asyncRead, handed] using hfilled
    · have hone : ([.connectDone] : List (Event T)).countP (·.isCallback) = 1 := rfl
      have hhanded : handed (Io.connected { s with
          conn := { s.conn with connecting := false } }).acts = handed s.acts := by
        simp [Io.connected, Io.readValidation, Io.asyncRead, handed]
      rw [hconn, Bool.toNat_true] at hcount
      rw [hhanded, received_snoc, List.countP_append, hone]
      simp only [Io.connected, Io.readValidation, Io.asyncRead, Event.bytesRead, List.append_nil,
        Bool.toNat_false]
      omega
  | connectFailed =>
    simp only [Io.step] at ht
    split at ht <;> cases ht
    refine ⟨hsome,hfilled,?_⟩
    have hnone : ([.connectFailed] : List (Event T)).countP (·.isCallback) = 0 := rfl
    rw [received_snoc, List.countP_append, hnone]
    simp only [Event.bytesRead, List.append_nil, Bool.toNat_false]
    omega
  | readDone op bytes =>
    simp only [Io.step] at ht
    split at ht <;> cases ht
    rename_i hm
    refine adds (s.endRead op) rfl rfl (readsSome_onRead (erased op) op bytes)
      (adds_onRead _ op bytes) ?_
    have hone : ([.readDone op bytes] : List (Event T)).countP (·.isCallback) = 1 := rfl
    have hpos := hsome op hm.1
    simp only [hone, Io.endRead, Event.bytesRead, hm.2]
    omega
  | readFailed op =>
    simp only [Io.step] at ht
    split at ht <;> cases ht
    exact adds (s.endRead op) rfl rfl (erased op) (close _) (by simp [Event.isCallback, Io.endRead])
  | writeDone op =>
    simp only [Io.step] at ht
    split at ht
    · rename_i hm
      refine adds (s.endWrite op) rfl rfl (readsSome_onWrite (s := s.endWrite op) hsome ht)
        (adds_onWrite ht) ?_
      have hone : ([.writeDone op] : List (Event T)).countP (·.isCallback) = 1 := rfl
      have hlen := List.length_erase_of_mem hm
      have hpos := List.length_pos_of_mem hm
      simp only [hone, Io.endWrite, hlen]
      omega
    · cases ht
  | writeFailed op =>
    simp only [Io.step] at ht
    split at ht <;> cases ht
    refine adds (s.endWrite op) rfl rfl hsome (close _) ?_
    simpa [Event.isCallback, Event.bytesRead, Io.endWrite] using List.length_erase_le
  | sendTask msg =>
    exact adds s rfl rfl (readsSome_writes hsome (messageWritesOnly_sendTask ht)) (adds_sendTask ht)
      (by simp [Event.isCallback])
  | closeTask =>
    cases ht
    exact adds s rfl rfl hsome (close s) (by simp [Event.isCallback])

theorem length_le_flatten {bs : List (WriteOp × List UInt8)} (h : ∀ b ∈ bs, b.2 ≠ []) :
    bs.length ≤ (bs.map Prod.snd).flatten.length := by
  induction bs with
  | nil => exact Nat.le_refl 0
  | cons b bs ih =>
    obtain ⟨hb,hbs⟩ := List.forall_mem_cons.mp h
    have hpos := List.length_pos_iff.mpr hb
    have := ih hbs
    simp only [List.map_cons, List.flatten_cons, List.length_append, List.length_cons]
    omega

theorem callbacks_le {s₀ s : Io T} (h₀ : Started s₀) (run : exec Io.step s₀ evs = some s) :
    evs.countP (·.isCallback) ≤ 1 + (received evs).length + s.stream.length := by
  have start : Paid [] s₀ := by
    cases h₀ with
    | server self isOpen now uid qIn =>
      cases isOpen with
      | false => exact ⟨by simp [Connection.ReadsSome, Io.connectToClient, Connection.new],
          by simp [Io.connectToClient, Connection.new, handed],Nat.zero_le _⟩
      | true =>
        refine ⟨readsSome_append (by simp [Connection.ReadsSome, Connection.new,
          Io.writeValidation, Io.asyncWrite]) (by decide),?_,?_⟩
        · simp [Io.connectToClient, Connection.new, Io.writeValidation, Io.readValidation,
            Io.asyncRead, Io.asyncWrite, handed]
          exact ne_nil_of_length (ofUInt64_length _)
        · simp [Io.connectToClient, Connection.new, Io.writeValidation, Io.readValidation,
            Io.asyncRead, Io.asyncWrite, handed]
    | client self qIn => exact ⟨by simp [Connection.ReadsSome, Io.connectToServer, Connection.new],
        by simp [Io.connectToServer, Connection.new, handed],Nat.le_refl 1⟩
  obtain ⟨-,hfilled,hcount⟩ := exec_history (I := Paid) start (fun _ _ _ _ => paid_step) run
  have := length_le_flatten hfilled
  unfold Io.stream
  omega

end Paid

/-! Both ends, when nothing fails. -/

/-- The socket is open, and the end waits for something or owes the answer of a client. -/
def Io.Live (s : Io T) : Prop :=
  s.conn.isOpen = true ∧ (s.conn.connecting = true ∨ s.conn.reads ≠ [] ∨
    (s.conn.nOwnerType = .kClient ∧ .validation ∈ s.conn.writes))

section Live
variable [EnumId T] {s t : Io T} {ev : Event T}

omit [EnumId T] in
theorem live_writes (h : s.Live) (w : MessageWritesOnly s t) : t.Live := by
  obtain ⟨queue,new,-,rfl⟩ := w
  refine ⟨h.1,h.2.imp_right (Or.imp_right fun ⟨howner,hm⟩ => ⟨howner,?_⟩)⟩
  exact List.mem_append_left _ hm

omit [EnumId T] in
theorem live_endWrite {op : WriteOp} (h : s.Live) (hop : op.isMessage = true) :
    (s.endWrite op).Live := by
  refine ⟨h.1,h.2.imp_right (Or.imp_right fun ⟨howner,hm⟩ => ⟨howner,?_⟩)⟩
  refine (List.mem_erase_of_ne ?_).mpr hm
  rintro rfl
  cases hop

theorem live_step (h : s.Live) (hev : ev.goesOn = true)
    (hright : ∀ bytes, ev = .readDone .validation bytes → s.conn.nOwnerType = .kServer →
      toUInt64 bytes = s.conn.nHandshakeCheck)
    (ht : s.step ev = some t) : t.Live := by
  obtain ⟨hopen,hlive⟩ := h
  cases ev with
  | connectDone =>
    simp only [Io.step] at ht
    split at ht <;> cases ht
    exact ⟨hopen,.inr (.inl (by simp [Io.connected, Io.readValidation, Io.asyncRead]))⟩
  | readDone op bytes =>
    simp only [Io.step] at ht
    split at ht <;> cases ht
    by_cases hop : op = .validation
    · subst hop
      cases howner : s.conn.nOwnerType with
      | kServer =>
        simp only [Io.onRead, Io.validationRead, Io.endRead, howner, hright bytes rfl howner, if_true]
        exact ⟨hopen,.inr (.inl (by simp [Io.readHeader, Io.asyncRead]))⟩
      | kClient =>
        simp only [Io.onRead, Io.validationRead, Io.endRead, howner]
        exact ⟨hopen,.inr (.inr ⟨rfl,by simp [Io.writeValidation, Io.asyncWrite]⟩)⟩
    · obtain ⟨msg,h | h⟩ := onRead_cases (s.endRead op) hop bytes <;> rw [h]
      · exact ⟨hopen,.inr (.inl (by simp [Io.readBody, Io.asyncRead]))⟩
      · exact ⟨hopen,.inr (.inl (by
          simp [Io.addToIncomingMessageQueue, Io.readHeader, Io.asyncRead]))⟩
  | writeDone op =>
    simp only [Io.step] at ht
    split at ht
    · cases op with
      | validation =>
        cases howner : s.conn.nOwnerType with
        | kServer =>
          simp only [Io.onWrite, Io.endWrite, howner, Option.some.injEq] at ht
          subst ht
          obtain hconn | hreads | ⟨hclient,-⟩ := hlive
          · exact ⟨hopen,.inl hconn⟩
          · exact ⟨hopen,.inr (.inl hreads)⟩
          · rw [howner] at hclient
            cases hclient
        | kClient =>
          simp only [Io.onWrite, Io.endWrite, howner, Option.some.injEq] at ht
          subst ht
          exact ⟨hopen,.inr (.inl (by simp [Io.readHeader, Io.asyncRead]))⟩
      | header | body =>
        exact live_writes (live_endWrite ⟨hopen,hlive⟩ rfl) (messageWritesOnly_onWrite rfl ht)
    · cases ht
  | sendTask msg => exact live_writes ⟨hopen,hlive⟩ (messageWritesOnly_sendTask ht)
  | _ => cases hev

end Live

/-- The ends send in their turn, nothing fails and nobody disconnects. -/
def Undisturbed (s : Link T) (act : LinkAct T) : Prop := InTurn s act ∧ act.event.goesOn = true

instance [DecidableEq T] (s : Link T) (act : LinkAct T) : Decidable (Undisturbed s act) :=
  inferInstanceAs (Decidable (InTurn s act ∧ act.event.goesOn = true))

variable [EnumId T]

def Link.Idle (s : Link T) : Prop := ∀ act, act.event.isCallback = true → s.step act = none

structure LinkLive (qIn : List (OwnedMessage T)) (start : Link T) (as : List (LinkAct T))
    (s : Link T) : Prop where
  inv : LinkInv qIn start as s
  client : s.client.Live
  server : s.server.Live
  clientWrites : writeFailed (clientEvents as) = false
  serverWrites : writeFailed (serverEvents as) = false

section Link
variable {self me : Nat} {now : UInt64} {uid : UInt32} {qIn qSrv : List (OwnedMessage T)}
  {as : List (LinkAct T)} {s t : Link T} {act : LinkAct T}

omit [EnumId T] in
theorem goesOn_writeFailed {ev : Event T} (h : ev.goesOn = true) : writeFailed [ev] = false := by
  cases ev with
  | writeFailed op => cases h
  | _ => rfl

theorem linkLive_step (hs : LinkLive qIn (Link.start self me now uid qIn qSrv) as s)
    (hact : Undisturbed s act) (ht : s.step act = some t) :
    LinkLive qIn (Link.start self me now uid qIn qSrv) (as ++ [act]) t := by
  obtain ⟨hinv,hclient,hserver,hcw,hsw⟩ := hs
  obtain ⟨hturn,hon⟩ := hact
  have hinv' := linkInv_step hinv hturn ht
  have hnofail := goesOn_writeFailed hon
  obtain ⟨ev,io,rfl,hio,-,rfl⟩ | ⟨ev,io,rfl,hio,-,rfl⟩ := link_step ht
  · have hc := clientEvents_client as ev
    have hv := serverEvents_client as ev
    refine ⟨hinv',live_step hclient hon ?_ hio,hserver,?_,hv ▸ hsw⟩
    · intro bytes _ howner
      rw [hinv.owner] at howner
      cases howner
    · rw [hc, writeFailed_append, hcw]
      exact hnofail
  · have hc := clientEvents_server as ev
    have hv := serverEvents_server as ev
    refine ⟨hinv',hclient,live_step hserver hon ?_ hio,hc ▸ hcw,?_⟩
    · rintro bytes rfl -
      have run : exec Io.step (Io.connectToClient uid ⟨.new me .kServer true now,qSrv,[]⟩)
        (serverEvents as) = some s.server := hinv.run.server
      rw [(hinv.answer ht).1, toUInt64_ofUInt64, (readInv_run run).1.handshakeCheck]
    · rw [hv, writeFailed_append, hsw]
      exact hnofail

theorem linkLive_run
    (meets : Meets Link.step Undisturbed (Link.start self me now uid qIn qSrv) as)
    (run : exec Link.step (Link.start self me now uid qIn qSrv) as = some s) :
    LinkLive qIn (Link.start self me now uid qIn qSrv) as s := by
  refine exec_induction (I := LinkLive qIn (Link.start self me now uid qIn qSrv)) ?_
    (fun _ _ _ _ => linkLive_step) meets run
  refine ⟨linkInv_run (meets_nil _ _) rfl,⟨rfl,.inl rfl⟩,⟨rfl,.inr (.inl ?_)⟩,rfl,rfl⟩
  simp [Link.start, Io.connectToClient, Connection.new, Io.writeValidation, Io.readValidation,
    Io.asyncRead, Io.asyncWrite]

/-- An end whose loop waits for bytes that were sent has received everything, or can go on. -/
theorem loop_progress {owned : Message T → OwnedMessage T} {q : List (OwnedMessage T)}
    {bytes : List UInt8} {s : Io T} {sent : List (Message T)} (hs : LoopInv owned q bytes s)
    (hreads : s.conn.reads ≠ []) (hsent : ∀ m ∈ sent, m.Announced) (hpre : bytes <+: frames sent) :
    s.qMessagesIn = q ++ (delivered [] sent).map owned ∨
      ∃ op ∈ s.conn.reads, ∃ more, more.length = op.length ∧ bytes ++ more <+: frames sent := by
  obtain ⟨-,-,done,hann,hqueue,hstate⟩ := hs
  obtain ⟨rest,-,hbytes⟩ := hstate.partial
  obtain ⟨tail,rfl⟩ := frames_isPrefix hann hsent (hbytes ▸ hpre)
  generalize s.conn.reads = reads at hstate hreads
  cases hstate with
  | header hbody =>
    cases tail with
    | nil => exact .inl (by simpa using hqueue)
    | cons m tail =>
      refine .inr ⟨.header,by simp,m.header.bytes,m.header.bytes_length,?_⟩
      simp [List.append_assoc]
  | body hpos hlen =>
    rw [frames_append, List.prefix_append_right_inj] at hpre
    cases tail with
    | nil =>
      have := hpre.length_le
      simp [MessageHeader.sizeOf] at this
    | cons m tail =>
      obtain ⟨more,hmore⟩ := hpre
      rw [frames_cons, List.append_assoc] at hmore
      obtain ⟨hheader,-⟩ := header_append_inj hmore
      have hm : m.Announced := hsent m (by simp)
      refine .inr ⟨_,List.mem_singleton_self _,m.body,?_,?_⟩
      · rw [ReadOp.length, hlen, hheader, hm]
      · rw [frames_append, frames_cons, hheader, List.append_assoc, List.append_assoc]
        exact ⟨frames tail,by simp⟩
  | shut _ _ => exact absurd rfl hreads

theorem Link.Idle.client (hidle : s.Idle) {ev : Event T} (hev : ev.isCallback = true)
    (hread : s.readByClient ++ ev.bytesRead <+: s.server.stream) : s.client.step ev = none := by
  have hstep := hidle (.client ev) hev
  simpa only [Link.step, hread, if_true, Option.map_eq_none_iff] using hstep

theorem Link.Idle.server (hidle : s.Idle) {ev : Event T} (hev : ev.isCallback = true)
    (hread : s.readByServer ++ ev.bytesRead <+: s.client.stream) : s.server.step ev = none := by
  have hstep := hidle (.server ev) hev
  simpa only [Link.step, hread, if_true, Option.map_eq_none_iff] using hstep

theorem written_of_idle {s₀ io : Io T} {evs : List (Event T)} (h₀ : Started s₀)
    (run : exec Io.step s₀ evs = some io) (hfail : writeFailed evs = false)
    (hidle : ∀ op, io.step (.writeDone op) = none) :
    io.conn.writes = [] ∧ io.conn.qMessagesOut = [] ∧
      emitted io.acts = frames (sentTasks evs) := by
  obtain ⟨-,hdefined⟩ := writes_defined h₀ run
  have hwrites : io.conn.writes = [] := by
    refine List.eq_nil_iff_forall_not_mem.mpr fun op hop => ?_
    have := hdefined op hop
    simp [hidle op] at this
  have hqueue : io.conn.qMessagesOut = [] := by
    obtain ⟨done,-,hstate⟩ := writeInv_run h₀ run
    by_contra hne
    have hone := hstate.counts.2.mpr ⟨hne,hfail⟩
    have hnone : io.outgoing.writes = [] := by
      simp [Io.outgoing, Connection.messageWrites, hwrites]
    simp [hnone] at hone
  exact ⟨hwrites,hqueue,emitted_of_queue_nil h₀ run hqueue⟩

/-- What is reached when no operation of the link can complete any more. -/
structure Completed (qIn qSrv : List (OwnedMessage T)) (me : Nat) (as : List (LinkAct T))
    (s : Link T) : Prop where
  validated : .onClientValidated ∈ s.server.acts
  responded : s.client.Responded
  clientWritten : s.client.conn.qMessagesOut = []
  serverWritten : s.server.conn.qMessagesOut = []
  serverQueue : s.server.qMessagesIn =
    qSrv ++ (delivered [] (sentTasks (clientEvents as))).map fun m => ⟨some me,m⟩
  clientQueue : s.client.qMessagesIn =
    qIn ++ (delivered [] (sentTasks (serverEvents as))).map fun m => ⟨none,m⟩
  clientOpen : s.client.conn.isOpen = true
  serverOpen : s.server.conn.isOpen = true

theorem readDone_ne_none {io : Io T} {op : ReadOp} {bytes : List UInt8} (hm : op ∈ io.conn.reads)
    (hlen : bytes.length = op.length) : io.step (.readDone op bytes) ≠ none := by
  simp [Io.step, hm, hlen]

theorem client_completed (hidle : s.Idle)
    (h : LinkLive qIn (Link.start self me now uid qIn qSrv) as s)
    (hwrites : s.client.conn.writes = [])
    (hsent : emitted s.server.acts = frames (sentTasks (serverEvents as))) :
    s.client.Responded ∧ s.client.stream = ofUInt64 (scramble now) ++ emitted s.client.acts ∧
      s.client.qMessagesIn =
        qIn ++ (delivered [] (sentTasks (serverEvents as))).map fun m => ⟨none,m⟩ := by
  have hread : s.readByClient ++ [] <+: s.server.stream := by
    simpa using h.inv.run.fromServer
  have hstream : s.server.stream = ofUInt64 now ++ emitted s.server.acts :=
    stream_server h.inv.run.server
  have hconn : s.client.conn.connecting = false := by
    have hstep : s.client.step .connectDone = none := hidle.client rfl hread
    by_contra hne
    simp [Io.step, Bool.eq_true_of_not_eq_false hne] at hstep
  have hreads : s.client.conn.reads ≠ [] := by
    obtain hc | hr | ⟨-,hw⟩ := h.client.2
    · rw [hconn] at hc
      cases hc
    · exact hr
    · simp [hwrites] at hw
  obtain ⟨hnone,-⟩ | ⟨bytes,hrecv,hpre,hclient,⟨-,-,hanswer⟩ | ⟨hdone,hloop⟩⟩ := h.inv.clientSide
  · -- the challenge has not been read: it is there, and the read of it outstanding
    exfalso
    obtain hgreets | ⟨-,challenge,bytes,-,hlen,hrecv,-⟩ := h.inv.client
    · generalize hg : s.client.greeting = g at hgreets
      have hgreads : s.client.conn.reads = g.reads := congrArg Greeting.reads hg
      rw [hnone] at hgreets
      cases hgreets with
      | connecting =>
        have : s.client.conn.connecting = true := congrArg Greeting.connecting hg
        rw [hconn] at this
        cases this
      | waiting =>
        have henabled : s.client.step (.readDone .validation (ofUInt64 now)) ≠ none :=
          readDone_ne_none (by simp [hgreads]) (ofUInt64_length now)
        refine henabled (hidle.client rfl ?_)
        rw [hnone, hstream]
        exact List.prefix_append _ _
      | answering _ hlen => cases hlen
      | lost => exact hreads hgreads
    · have := congrArg List.length (hnone.symm.trans hrecv)
      simp [hlen] at this
      omega
  · rw [hwrites] at hanswer
    cases hanswer
  · refine ⟨⟨hdone,?_⟩,hclient,?_⟩
    · intro hhanded
      have := congrArg List.length hclient
      simp [Io.stream, hhanded] at this
      omega
    · obtain hqueue | ⟨op,hop,more,hlen,hmore⟩ :=
        loop_progress hloop hreads h.inv.sentByServer (hsent ▸ hpre)
      · exact hqueue
      · refine absurd (hidle.client rfl ?_) (readDone_ne_none hop hlen)
        rw [hrecv, hstream, hsent, Event.bytesRead, List.append_assoc, List.prefix_append_right_inj]
        exact hmore

theorem server_completed (hidle : s.Idle)
    (h : LinkLive qIn (Link.start self me now uid qIn qSrv) as s)
    (hstream : s.client.stream = ofUInt64 (scramble now) ++ emitted s.client.acts)
    (hsent : emitted s.client.acts = frames (sentTasks (clientEvents as))) :
    .onClientValidated ∈ s.server.acts ∧ s.server.qMessagesIn =
      qSrv ++ (delivered [] (sentTasks (clientEvents as))).map fun m => ⟨some me,m⟩ := by
  have run : exec Io.step (Io.connectToClient uid ⟨.new me .kServer true now,qSrv,[]⟩)
    (serverEvents as) = some s.server := h.inv.run.server
  have hside := (readInv_run run).1
  have hreads : s.server.conn.reads ≠ [] := by
    obtain hc | hr | ⟨howner,-⟩ := h.server.2
    · rw [hside.connecting] at hc
      cases hc
    · exact hr
    · rw [hside.owner] at howner
      cases howner
  obtain ⟨hnone,-⟩ | ⟨bytes,hrecv,hpre,hmem,hloop⟩ := h.inv.serverSide
  · exfalso
    have hanswered := answered_run run
    rw [← h.inv.run.received_server, hnone] at hanswered
    cases hanswered with
    | waiting _ hwaits =>
      have henabled : s.server.step (.readDone .validation (ofUInt64 (scramble now))) ≠ none :=
        readDone_ne_none (by simp [hwaits]) (ofUInt64_length _)
      refine henabled (hidle.server rfl ?_)
      rw [hnone, hstream]
      exact List.prefix_append _ _
    | reading hrecv =>
      have := congrArg List.length hrecv
      simp only [List.length_nil, List.length_append, ofUInt64_length] at this
      omega
    | ended hended => exact hreads hended
  · refine ⟨hmem,?_⟩
    obtain hqueue | ⟨op,hop,more,hlen,hmore⟩ :=
      loop_progress hloop hreads h.inv.sentByClient (hsent ▸ hpre)
    · exact hqueue
    · refine absurd (hidle.server rfl ?_) (readDone_ne_none hop hlen)
      rw [hrecv, hstream, hsent, Event.bytesRead, List.append_assoc, List.prefix_append_right_inj]
      exact hmore

theorem completed_of_idle (hidle : s.Idle)
    (h : LinkLive qIn (Link.start self me now uid qIn qSrv) as s) :
    Completed qIn qSrv me as s := by
  have hread : s.readByClient ++ [] <+: s.server.stream := by
    simpa using h.inv.run.fromServer
  have hread' : s.readByServer ++ [] <+: s.client.stream := by
    simpa using h.inv.run.fromClient
  obtain ⟨hwc,hqc,hec⟩ := written_of_idle (.client self qIn) h.inv.run.client h.clientWrites
    fun _ => hidle.client rfl hread
  obtain ⟨-,hqs,hes⟩ := written_of_idle (.server me true now uid qSrv) h.inv.run.server
    h.serverWrites fun _ => hidle.server rfl hread'
  obtain ⟨hresponded,hstream,hclientQueue⟩ := client_completed hidle h hwc hes
  obtain ⟨hvalidated,hserverQueue⟩ := server_completed hidle h hstream hec
  exact ⟨hvalidated,hresponded,hqc,hqs,hserverQueue,hclientQueue,h.client.1,h.server.1⟩

/-! The completions are bounded by what was sent. -/

omit [EnumId T] in
theorem countP_events (as : List (LinkAct T)) :
    as.countP (·.event.isCallback) =
      (clientEvents as).countP (·.isCallback) + (serverEvents as).countP (·.isCallback) := by
  induction as with
  | nil => rfl
  | cons act as ih =>
    cases act with
    | client ev =>
      simp only [clientEvents, serverEvents, List.countP_cons, List.filterMap_cons, LinkAct.event,
        LinkAct.client?, LinkAct.server?] at ih ⊢
      omega
    | server ev =>
      simp only [clientEvents, serverEvents, List.countP_cons, List.filterMap_cons, LinkAct.event,
        LinkAct.client?, LinkAct.server?] at ih ⊢
      omega

def bytesSent (as : List (LinkAct T)) : Nat :=
  (frames (sentTasks (clientEvents as))).length + (frames (sentTasks (serverEvents as))).length

theorem callbacks_bounded (h : LinkInv qIn (Link.start self me now uid qIn qSrv) as s) :
    as.countP (·.event.isCallback) ≤ 34 + 2 * bytesSent as := by
  have hc := callbacks_le (.client self qIn) h.run.client
  have hs := callbacks_le (.server me true now uid qSrv) h.run.server
  rw [← h.run.received_client] at hc
  rw [← h.run.received_server] at hs
  have hemitc := (emitted_isPrefix (.client self qIn) h.run.client).length_le
  have hemits := (emitted_isPrefix (.server me true now uid qSrv) h.run.server).length_le
  have hreadc := h.run.fromServer.length_le
  have hreads := h.run.fromClient.length_le
  have hstreams : s.server.stream.length = 8 + (emitted s.server.acts).length := by
    rw [stream_server h.run.server, List.length_append, ofUInt64_length]
  have hstreamc : s.client.stream.length ≤ 8 + (emitted s.client.acts).length := by
    obtain ⟨-,hstream,-⟩ | ⟨-,-,-,hstream,-⟩ := h.clientSide
    · simp [hstream]
    · rw [hstream, List.length_append, ofUInt64_length]
  rw [countP_events, bytesSent]
  omega

omit [EnumId T] in
theorem sentTasks_more (as : List (LinkAct T)) {more : List (LinkAct T)}
    (hmore : ∀ act ∈ more, act.event.isCallback = true) :
    sentTasks (clientEvents (as ++ more)) = sentTasks (clientEvents as) ∧
      sentTasks (serverEvents (as ++ more)) = sentTasks (serverEvents as) := by
  have none : ∀ evs : List (Event T), (∀ ev ∈ evs, ev.isCallback = true) → sentTasks evs = [] := by
    intro evs hevs
    refine List.filterMap_eq_nil_iff.mpr fun ev hev => ?_
    have := hevs ev hev
    cases ev <;> first | rfl | cases this
  have hclient : ∀ ev ∈ clientEvents more, ev.isCallback = true := by
    intro ev hev
    obtain ⟨act,hact,hown⟩ := List.mem_filterMap.mp hev
    cases act with
    | client e =>
      cases hown
      exact hmore _ hact
    | server e => cases hown
  have hserver : ∀ ev ∈ serverEvents more, ev.isCallback = true := by
    intro ev hev
    obtain ⟨act,hact,hown⟩ := List.mem_filterMap.mp hev
    cases act with
    | client e => cases hown
    | server e =>
      cases hown
      exact hmore _ hact
  constructor
  · rw [clientEvents, List.filterMap_append, sentTasks_append]
    exact (congrArg _ (none _ hclient)).trans (List.append_nil _)
  · rw [serverEvents, List.filterMap_append, sentTasks_append]
    exact (congrArg _ (none _ hserver)).trans (List.append_nil _)

omit [EnumId T] in
theorem undisturbed_callback (h : act.event.isCallback = true) : Undisturbed s act := by
  cases act with
  | client ev | server ev => cases ev <;> first | exact ⟨trivial,rfl⟩ | cases h

/-- When nothing fails, the link gets done. In every run the completions are bounded by the
bytes of the messages sent, whatever their order; from every state reached some completions lead
to a state where no more can happen; and in every such state all that was sent has arrived. -/
theorem link_completes
    (meets : Meets Link.step Undisturbed (Link.start self me now uid qIn qSrv) as)
    (run : exec Link.step (Link.start self me now uid qIn qSrv) as = some s) :
    as.countP (·.event.isCallback) ≤ 34 + 2 * bytesSent as ∧
    (s.Idle → Completed qIn qSrv me as s) ∧
    ∃ more t, (∀ act ∈ more, act.event.isCallback = true) ∧ exec Link.step s more = some t ∧
      t.Idle ∧ Completed qIn qSrv me as t := by
  have h := linkLive_run meets run
  refine ⟨callbacks_bounded h.inv,fun hidle => completed_of_idle hidle h,?_⟩
  -- what follows from running only completions from here on
  have goOn : ∀ more t, Meets Link.step (fun _ act => act.event.isCallback = true) s more →
      exec Link.step s more = some t → (∀ act ∈ more, act.event.isCallback = true) ∧
        LinkLive qIn (Link.start self me now uid qIn qSrv) (as ++ more) t := by
    intro more t hmeets hrun
    refine ⟨hmeets.all hrun,linkLive_run (meets.append run ?_)
      (by rw [exec_append, run, Option.bind_some, hrun])⟩
    exact hmeets.imp fun _ _ => undisturbed_callback
  have hreach : ∃ more t, Meets Link.step (fun _ act => act.event.isCallback = true) s more ∧
      exec Link.step s more = some t ∧ t.Idle := by
    refine exec_reaches (34 + 2 * bytesSent as) ?_ ?_
    · intro more t _ _
      by_cases hidle : t.Idle
      · exact .inl hidle
      · right
        simp only [Link.Idle, not_forall] at hidle
        obtain ⟨act,hact,hne⟩ := hidle
        exact ⟨act,hact,Option.isSome_iff_ne_none.mpr hne⟩
    · intro more t hmeets hrun
      obtain ⟨hall,hlive⟩ := goOn more t hmeets hrun
      have hcount := callbacks_bounded hlive.inv
      obtain ⟨hc,hs⟩ := sentTasks_more as hall
      have hlen : more.countP (·.event.isCallback) = more.length :=
        List.countP_eq_length.mpr hall
      rw [List.countP_append, hlen, bytesSent, hc, hs] at hcount
      rw [bytesSent]
      omega
  obtain ⟨more,t,hmeets,hrun,hidle⟩ := hreach
  obtain ⟨hall,hlive⟩ := goOn more t hmeets hrun
  have hdone := completed_of_idle hidle hlive
  obtain ⟨hc,hs⟩ := sentTasks_more as hall
  exact ⟨more,t,hall,hrun,hidle,hdone.validated,hdone.responded,hdone.clientWritten,
    hdone.serverWritten,hc ▸ hdone.serverQueue,hs ▸ hdone.clientQueue,hdone.clientOpen,
    hdone.serverOpen⟩

theorem link_completes_oneMessage :
    ∃ s, exec Link.step (Link.start 2 1 5 10000 [] [])
      [.client .connectDone, .client (.readDone .validation (ofUInt64 5)),
        .client (.writeDone .validation),
        .client (.sendTask ⟨⟨NetMsgType.kSeckeyAgree,1⟩,[7]⟩)] = some s ∧
      ∃ more t, exec Link.step s more = some t ∧ t.Idle ∧
        t.server.qMessagesIn = [⟨some 1,⟨⟨NetMsgType.kSeckeyAgree,1⟩,[7]⟩⟩] := by
  refine exists_exec (by decide) fun s run => ?_
  obtain ⟨-,-,more,t,-,hrun,hidle,hdone⟩ := link_completes (by decide) run
  exact ⟨more,t,hrun,hidle,hdone.serverQueue⟩

end Link

end TransmissionPlatform.Net
