import TransmissionPlatform.Net.Lifetime

/-!
What `m_deqConnections` holds over the life of a server. The ids that clients are known by come
from a counter of 32 bits, and a connection may stay for longer than the counter needs to get
around.
-/

set_option autoImplicit false

namespace TransmissionPlatform.Net
open StepSystem

variable {T : Type} [EnumId T]

theorem conns_io {s t : ServerInterface T} {c : Nat} {ev : Event T}
    (ht : s.step (.io c ev) = some t) : ∀ c', (t.conns c').id = (s.conns c').id := by
  obtain ⟨io,hio,rfl⟩ := Option.map_eq_some_iff.mp ht
  intro c'
  by_cases hc : c' = c
  · subst hc
    simpa using (fixed_step hio).2
  · simp [Function.update_of_ne hc]

namespace Host

omit [EnumId T] in
theorem called_sublist {h : Host T} {ev : HostEvent T} {r : Clients T} (hr : h.called ev = some r) :
    r.deqConnections.Sublist h.deqConnections := by
  cases ev with
  | send c msg | disconnect c =>
    simp only [called] at hr
    split at hr <;> cases hr
    exact List.Sublist.refl _
  | messageClient c msg =>
    simp only [called] at hr
    split at hr <;> cases hr
    cases hopen : h.isOpen c with
    | true =>
      rw [Clients.messageClient_open h.isOpen hopen]
    | false =>
      rw [Clients.messageClient_closed h.isOpen hopen]
      exact List.filter_sublist
  | messageAllClients msg pIgnoreClient =>
    cases hr
    rw [Clients.messageAllClients_deqConnections]
    exact List.filter_sublist
  | _ => cases hr

section Definitions
omit [EnumId T]

def accepts (as : List (HostEvent T)) : List Bool :=
  as.filterMap fun
    | .accept approved => some approved
    | _ => none

def approvedSince (as : List (HostEvent T)) (c : Nat) : Nat := ((accepts as).drop c).count true

def getID (h : Host T) (c : Nat) : UInt32 := (h.net.conns c).id

structure WellFormed (h : Host T) : Prop where
  noNull : none ∉ h.deqConnections
  once : h.deqConnections.Nodup
  ids : ∀ c d, some c ∈ h.deqConnections → some d ∈ h.deqConnections → h.getID c = h.getID d →
    c = d

/-- No connection in the container has the id that the next one gets. -/
def FreshID (h : Host T) : HostEvent T → Prop
  | .accept true => ∀ c, some c ∈ h.deqConnections → h.getID c ≠ h.nIDCounter
  | _ => True

theorem freshID_of_ne {h : Host T} {ev : HostEvent T} (hev : ev ≠ .accept true) : h.FreshID ev := by
  unfold FreshID
  split
  · exact absurd rfl hev
  · trivial

end Definitions

structure Known (now : Nat → UInt64) (h : Host T) : Prop where
  dispatch : DispatchInv h.net
  conns : ∀ c, h.accepted ≤ c → h.net.conns c = .new c .kServer true (now c)
  entries : ∀ p ∈ h.deqConnections, ∃ c, p = some c ∧ c < h.accepted
  refs : ∀ c, h.Referenced c → c < h.accepted
  posted : ∀ p ∈ h.posted, p.client < h.accepted

section Known
variable {now : Nat → UInt64} {h h' : Host T}

theorem known_start : (start now : Host T).Known now := by
  refine ⟨dispatchInv_hostStart now,fun _ _ => rfl,by simp [start],?_,by simp [start]⟩
  intro c hr
  simp [Referenced, start, tasks, ServerInterface.items, Consumer.inHand] at hr

theorem Known.accepted_of_mem (hs : h.Known now) {c : Nat} (hc : some c ∈ h.deqConnections) :
    c < h.accepted := by
  obtain ⟨c',heq,hlt⟩ := hs.entries _ hc
  cases heq
  exact hlt

theorem Known.owned (hs : h.Known now) {c : Nat} (howned : 0 < h.owners c) : c < h.accepted :=
  (owners_pos.mp howned).elim hs.accepted_of_mem (hs.refs c)

theorem known_io {c : Nat} {ev : Event T} {net : ServerInterface T} {posted : List (Posted T)}
    (hs : h.Known now) (hc : c < h.accepted) (step : h.net.step (.io c ev) = some net)
    (hposted : ∀ p ∈ posted, p ∈ h.posted) :
    Known now { h with net := net, posted := posted } := by
  have hframe := ioFrame_step hs.dispatch step
  refine ⟨dispatchInv_io hs.dispatch step,?_,hs.entries,?_,fun p hp => hs.posted p (hposted p hp)⟩
  · intro c' hc'
    have hle : h.accepted ≤ c' := hc'
    exact (hframe.others c' (by omega)).trans (hs.conns c' hle)
  · rintro c' (⟨item,hitem,hremote⟩ | htask)
    · obtain hold | hnew := hframe.items item hitem
      · exact hs.refs c' (.inl ⟨item,hold,hremote⟩)
      · cases hnew.symm.trans hremote
        exact hc
    · exact hs.refs c' (.inr htask)

theorem Known.frame (hs : h.Known now) (hdispatch : DispatchInv h'.net)
    (haccepted : h'.accepted = h.accepted) (hconns : h'.net.conns = h.net.conns)
    (hdeq : h'.deqConnections.Sublist h.deqConnections)
    (hitems : ∀ item ∈ h'.net.items, item ∈ h.net.items)
    (htasks : ∀ t ∈ h'.tasks, h.Referenced t.client)
    (hposted : ∀ p ∈ h'.posted, p.client < h.accepted) : h'.Known now := by
  refine ⟨hdispatch,?_,?_,?_,?_⟩ <;> rw [haccepted]
  · rw [hconns]
    exact hs.conns
  · exact fun p hp => hs.entries p (hdeq.subset hp)
  · rintro c (⟨item,hitem,hremote⟩ | ⟨t,ht,rfl⟩)
    · exact hs.refs c (.inl ⟨item,hitems item hitem,hremote⟩)
    · exact hs.refs _ (htasks t ht)
  · exact hposted

theorem known_accept (hs : h.Known now) : (h.accept true).Known now := by
  have hgreeted := greeted_connectToClient h.nIDCounter
    (⟨h.net.conns h.accepted,h.net.qMessagesIn,h.net.acts h.accepted⟩ : Io T)
  have hitems : (h.accept true).net.items = h.net.items := by
    simp only [accept, if_true, ServerInterface.items, ServerInterface.connectToClient,
      hgreeted.queue]
  refine ⟨dispatchInv_connectToClient hs.dispatch _ _,?_,?_,?_,?_⟩
  · intro c hc
    have hlt : h.accepted < c := hc
    have hsame : (h.accept true).net.conns c = h.net.conns c := by
      simp [accept, ServerInterface.connectToClient, Function.update_of_ne (Nat.ne_of_gt hlt)]
    exact hsame.trans (hs.conns c (Nat.le_of_lt hlt))
  · intro p hp
    obtain hold | hnew := List.mem_append.mp hp
    · obtain ⟨c,rfl,hlt⟩ := hs.entries p hold
      exact ⟨c,rfl,Nat.lt_succ_of_lt hlt⟩
    · exact ⟨h.accepted,List.mem_singleton.mp hnew,Nat.lt_succ_self _⟩
  · intro c hr
    unfold Referenced at hr
    rw [hitems] at hr
    exact Nat.lt_succ_of_lt (hs.refs c hr)
  · exact fun p hp => Nat.lt_succ_of_lt (hs.posted p hp)

theorem known_called {ev : HostEvent T} {r : Clients T} (hs : h.Known now)
    (hr : h.called ev = some r) : ∀ p ∈ r.calls.flatMap h.posts, p.client < h.accepted := by
  have heffects := callEffects_called hr
  intro p hp
  cases p with
  | send c msg =>
    obtain rfl | ⟨-,howned,-⟩ | ⟨pIgnoreClient,-,hclient,-⟩ := heffects.sends c msg hp
    · simp only [called] at hr
      split at hr
      · exact hs.owned ‹_›
      · cases hr
    · exact hs.owned howned
    · exact hs.accepted_of_mem hclient
  | close c => exact hs.owned (heffects.closes c hp).1

theorem known_moves {ev : HostEvent T} (hs : h.Known now) (m : h.Moves ev h') : h'.Known now := by
  have htasks := referenced_task m
  have same := List.Sublist.refl h.deqConnections
  cases m with
  | accept approved =>
    cases approved with
    | true => exact known_accept hs
    | false =>
      exact ⟨hs.dispatch,fun c hc => hs.conns c (Nat.le_of_succ_le hc),
        fun p hp => (hs.entries p hp).imp fun _ hc => ⟨hc.1,Nat.lt_succ_of_lt hc.2⟩,
        fun c hr => Nat.lt_succ_of_lt (hs.refs c hr),fun p hp => Nat.lt_succ_of_lt (hs.posted p hp)⟩
  | @io c ev net completion step =>
    have hc : c < h.accepted := by
      by_contra hle
      obtain ⟨io,hio,-⟩ := Option.map_eq_some_iff.mp step
      obtain ⟨now',hside⟩ := hs.dispatch.conns c
      have hout := outstanding_of_completion hside completion hio
      simp [hs.conns c (Nat.le_of_not_lt hle), Connection.new] at hout
    exact known_io hs hc step fun _ => id
  | @task p rest net head step =>
    have hp : p ∈ h.posted := by simp [head]
    exact known_io hs (hs.posted p hp) step fun q hq => by simp [head, hq]
  | update step =>
    obtain ⟨hconns,hitems⟩ := items_update step
    exact hs.frame (dispatchInv_update hs.dispatch step) rfl hconns same hitems htasks hs.posted
  | consumer step =>
    exact hs.frame (dispatchInv_consume hs.dispatch step) rfl (consume_conns step).1 same
      (items_consume step) htasks hs.posted
  | workerStart head => exact hs.frame hs.dispatch rfl rfl same (fun _ => id) htasks hs.posted
  | @workerSend i msg t task first =>
    refine hs.frame hs.dispatch rfl rfl same (fun _ => id) htasks fun p hp => ?_
    obtain hold | hnew := List.mem_append.mp hp
    · exact hs.posted p hold
    · obtain rfl := List.mem_singleton.mp hnew
      exact hs.refs _ (.inr ⟨t,List.mem_append_left _ (List.mem_of_getElem? task),rfl⟩)
  | workerEnd => exact hs.frame hs.dispatch rfl rfl same (fun _ => id) htasks hs.posted
  | @called ev r calls =>
    refine hs.frame hs.dispatch rfl rfl (called_sublist calls) (fun _ => id) htasks fun p hp => ?_
    exact (List.mem_append.mp hp).elim (hs.posted p) (known_called hs calls p)

theorem known_exec {as : List (HostEvent T)} (run : exec step (start now) as = some h) :
    h.Known now :=
  exec_invariant (fun _ _ _ hs hstep => known_moves hs (moves_step _ hstep)) known_start run

theorem getID_accept (hs : h.Known now) : (h.accept true).getID h.accepted = h.nIDCounter ∧
    ∀ c, c < h.accepted → (h.accept true).getID c = h.getID c := by
  have hnew := hs.conns h.accepted (Nat.le_refl _)
  refine ⟨?_,fun c hc => ?_⟩
  · simp [getID, accept, ServerInterface.connectToClient, hnew, Connection.new, Io.connectToClient,
      Io.writeValidation, Io.readValidation, Io.asyncWrite, Io.asyncRead]
  · simp [getID, accept, ServerInterface.connectToClient, Function.update_of_ne (Nat.ne_of_lt hc)]

theorem frame_moves {ev : HostEvent T} (m : h.Moves ev h') (hev : ev ≠ .accept true) :
    h'.deqConnections.Sublist h.deqConnections ∧ h'.nIDCounter = h.nIDCounter ∧
      ∀ c, h'.getID c = h.getID c := by
  have same := List.Sublist.refl h.deqConnections
  cases m with
  | accept approved =>
    cases approved with
    | true => exact absurd rfl hev
    | false => exact ⟨same,rfl,fun _ => rfl⟩
  | io completion step => exact ⟨same,rfl,conns_io step⟩
  | task head step => exact ⟨same,rfl,conns_io step⟩
  | update step => exact ⟨same,rfl,fun c => by simp [getID, (items_update step).1]⟩
  | consumer step => exact ⟨same,rfl,fun c => by simp [getID, (consume_conns step).1]⟩
  | workerStart | workerSend | workerEnd => exact ⟨same,rfl,fun _ => rfl⟩
  | called calls => exact ⟨called_sublist calls,rfl,fun _ => rfl⟩

theorem once_accept (hs : h.Known now) (once : h.deqConnections.Nodup) :
    (h.accept true).deqConnections.Nodup := by
  simp only [accept, if_true, List.nodup_append, once, List.nodup_singleton, true_and]
  rintro p hp q hq rfl
  obtain rfl := List.mem_singleton.mp hq
  exact Nat.lt_irrefl _ (hs.accepted_of_mem hp)

theorem once_exec {as : List (HostEvent T)} (run : exec step (start now) as = some h) :
    h.deqConnections.Nodup := by
  refine exec_reached (I := fun _ (h : Host T) => h.deqConnections.Nodup) (by simp [start]) ?_
    (meets_true _ as) run
  intro bs t ev u reached once _ hstep
  by_cases hev : ev = .accept true
  · subst hev
    cases hstep
    exact once_accept (known_exec reached) once
  · exact once.sublist (frame_moves (moves_step _ hstep) hev).1

theorem wellFormed_accept (hs : h.Known now) (hw : h.WellFormed) :
    (h.accept true).WellFormed ↔ h.FreshID (.accept true) := by
  obtain ⟨hnew,hold⟩ := getID_accept hs
  have hlt : ∀ c, some c ∈ h.deqConnections → c < h.accepted := fun _ => hs.accepted_of_mem
  have hmem : ∀ c, some c ∈ (h.accept true).deqConnections ↔
      some c ∈ h.deqConnections ∨ c = h.accepted := by
    simp [accept]
  constructor
  · intro hw' c hc heq
    have hsame := hw'.ids c h.accepted ((hmem c).mpr (.inl hc)) ((hmem _).mpr (.inr rfl))
      (by rw [hold c (hlt c hc), hnew, heq])
    exact Nat.lt_irrefl _ (hsame ▸ hlt c hc)
  · intro fresh
    refine ⟨by simp [accept, hw.noNull],once_accept hs hw.once,?_⟩
    intro c d hc hd hids
    obtain hc | rfl := (hmem c).mp hc <;> obtain hd | rfl := (hmem d).mp hd
    · rw [hold c (hlt c hc), hold d (hlt d hd)] at hids
      exact hw.ids c d hc hd hids
    · rw [hold c (hlt c hc), hnew] at hids
      exact absurd hids (fresh c hc)
    · rw [hold d (hlt d hd), hnew] at hids
      exact absurd hids.symm (fresh d hd)
    · rfl

theorem wellFormed_step {ev : HostEvent T} (hs : h.Known now) (hw : h.WellFormed)
    (hstep : h.step ev = some h') : h'.WellFormed ↔ h.FreshID ev := by
  by_cases hev : ev = .accept true
  · subst hev
    cases hstep
    exact wellFormed_accept hs hw
  · obtain ⟨hsub,-,hids⟩ := frame_moves (moves_step _ hstep) hev
    refine ⟨fun _ => freshID_of_ne hev,
      fun _ => ⟨fun h => hw.noNull (hsub.subset h),hw.once.sublist hsub,?_⟩⟩
    intro c d hc hd heq
    rw [hids, hids] at heq
    exact hw.ids c d (hsub.subset hc) (hsub.subset hd) heq

structure Numbered (as : List (HostEvent T)) (h : Host T) : Prop where
  accepted : h.accepted = (accepts as).length
  counter : h.nIDCounter = 10000 + UInt32.ofNat ((accepts as).count true)
  ids : ∀ c, some c ∈ h.deqConnections →
    h.getID c = 10000 + UInt32.ofNat (((accepts as).take c).count true)

omit [EnumId T] in
theorem accepts_snoc (as : List (HostEvent T)) (ev : HostEvent T) :
    accepts (as ++ [ev]) = accepts as ++ accepts [ev] := by
  simp [accepts]

theorem numbered_accept {as : List (HostEvent T)} (hs : h.Known now) (hn : Numbered as h)
    (approved : Bool) : Numbered (as ++ [.accept approved]) (h.accept approved) := by
  have hsnoc : accepts (as ++ [.accept approved]) = accepts as ++ [approved] := accepts_snoc ..
  have hold : ∀ c, some c ∈ h.deqConnections →
      ((accepts as ++ [approved]).take c).count true = ((accepts as).take c).count true := by
    intro c hc
    have hlt : c < (accepts as).length := hn.accepted ▸ hs.accepted_of_mem hc
    rw [List.take_append_of_le_length (Nat.le_of_lt hlt)]
  cases approved with
  | false => exact ⟨by simp [hsnoc, accept, hn.accepted],by simp [hsnoc, accept, hn.counter],
      fun c hc => by rw [hsnoc, hold c hc]; exact hn.ids c hc⟩
  | true =>
    obtain ⟨hnew,hothers⟩ := getID_accept hs
    refine ⟨by simp [hsnoc, accept, hn.accepted],?_,?_⟩
    · simp [hsnoc, accept, hn.counter, UInt32.ofNat_add, UInt32.add_assoc]
    · intro c hc
      rw [hsnoc]
      obtain hc | hc := List.mem_append.mp hc
      · rw [hold c hc, hothers c (hs.accepted_of_mem hc)]
        exact hn.ids c hc
      · cases List.mem_singleton.mp hc
        rw [hnew, hn.counter, hn.accepted, List.take_left]

theorem numbered_frame {as : List (HostEvent T)} {ev : HostEvent T} (hn : Numbered as h)
    (m : h.Moves ev h') (hev : accepts [ev] = []) : Numbered (as ++ [ev]) h' := by
  have hsame : accepts (as ++ [ev]) = accepts as := by rw [accepts_snoc, hev, List.append_nil]
  obtain ⟨hsub,hcounter,hids⟩ := frame_moves m (by rintro rfl; cases hev)
  refine ⟨?_,by rw [hsame, hcounter, hn.counter],fun c hc => ?_⟩
  · rw [hsame, ← hn.accepted]
    cases m with
    | accept approved => cases hev
    | _ => rfl
  · rw [hsame, hids]
    exact hn.ids c (hsub.subset hc)

theorem numbered_exec {as : List (HostEvent T)} (run : exec step (start now) as = some h) :
    Numbered as h := by
  refine exec_reached (I := fun as (h : Host T) => Numbered as h) ⟨rfl,rfl,by simp [start]⟩ ?_
    (meets_true _ as) run
  intro bs t ev u reached hn _ hstep
  obtain ⟨approved,rfl⟩ | hev : (∃ approved, ev = .accept approved) ∨ accepts [ev] = [] := by
    cases ev <;> simp [accepts]
  · cases hstep
    exact numbered_accept (known_exec reached) hn approved
  · exact numbered_frame hn (moves_step _ hstep) hev

theorem id_eq_iff (outcomes : List Bool) (c : Nat) :
    (10000 : UInt32) + UInt32.ofNat ((outcomes.take c).count true) =
        10000 + UInt32.ofNat (outcomes.count true) ↔
      2 ^ 32 ∣ (outcomes.drop c).count true := by
  have hsum : outcomes.count true = (outcomes.take c).count true + (outcomes.drop c).count true := by
    rw [← List.count_append, List.take_append_drop]
  rw [UInt32.add_right_inj, ← UInt32.toNat_inj, UInt32.toNat_ofNat', UInt32.toNat_ofNat', hsum]
  omega

/-- The container is well formed all along a run exactly when no client is approved a multiple of
2^32 approvals after one that is still there. Null entries and double ones never occur. -/
theorem wellFormed_iff {as : List (HostEvent T)} (run : exec step (start now) as = some h) :
    (none ∉ h.deqConnections ∧ h.deqConnections.Nodup) ∧
    ((∀ bs t, bs <+: as → exec step (start now) bs = some t → t.WellFormed) ↔
      ∀ bs t, bs ++ [.accept true] <+: as → exec step (start now) bs = some t →
        ∀ c, some c ∈ t.deqConnections → ¬2 ^ 32 ∣ approvedSince bs c) := by
  have known : ∀ {bs t}, exec step (start now : Host T) bs = some t → t.Known now := known_exec
  refine ⟨⟨fun hnull => ?_,once_exec run⟩,?_⟩
  · obtain ⟨c,heq,-⟩ := (known run).entries _ hnull
    cases heq
  have atStart : (start now : Host T).Known now ∧ (start now : Host T).WellFormed :=
    ⟨known_start,by simp [start],by simp [start],by simp [start]⟩
  have reached := reached_iff_meets (C := FreshID) (I := fun h : Host T =>
    h.Known now ∧ h.WellFormed) atStart ?_ run
  · have fresh : ∀ bs t, exec step (start now : Host T) bs = some t →
        (t.FreshID (.accept true) ↔
          ∀ c, some c ∈ t.deqConnections → ¬2 ^ 32 ∣ approvedSince bs c) := by
      intro bs t ht
      have hn := numbered_exec ht
      refine forall₂_congr fun c hc => not_congr ?_
      rw [hn.ids c hc, hn.counter]
      exact id_eq_iff _ c
    rw [meets_iff] at reached
    constructor
    · intro hall bs t hbs ht
      refine (fresh bs t ht).mp (reached.mp (fun bs t hbs ht => ?_) bs _ t hbs ht)
      exact ⟨known ht,hall bs t hbs ht⟩
    · intro hall bs t hbs ht
      refine (reached.mpr (fun bs ev t hbs ht => ?_) bs t hbs ht).2
      by_cases hev : ev = .accept true
      · subst hev
        exact (fresh bs t ht).mpr (hall bs t hbs ht)
      · exact freshID_of_ne hev
  · rintro t ev u ⟨hs,hw⟩ hstep
    have m := known_moves hs (moves_step _ hstep)
    exact ⟨fun h => (wellFormed_step hs hw hstep).mp h.2,
      fun h => ⟨m,(wellFormed_step hs hw hstep).mpr h⟩⟩

theorem wellFormed_iff_two :
    ∃ h : Host NetMsgType, exec step (start fun _ => 5) [.accept true,.accept true] = some h ∧
      h.WellFormed := by
  refine exists_exec (by decide) fun h run => ?_
  refine (wellFormed_iff run).2.mpr (fun bs t hbs ht c hc => ?_) _ h (List.prefix_refl _) run
  rcases bs with _ | ⟨ev,_ | ⟨ev',bs⟩⟩
  · cases ht
    cases hc
  · obtain rfl : ev = .accept true := by simpa using hbs
    cases ht
    obtain rfl : c = 0 := by simpa [accept, start] using hc
    decide
  · simpa using hbs.length_le

omit [EnumId T] in
theorem accepts_replicate (n : Nat) :
    accepts (List.replicate n (.accept true : HostEvent T)) = List.replicate n true := by
  simp [accepts]

theorem approved_run (now : Nat → UInt64) (n : Nat) :
    ∃ h : Host T, exec step (start now) (List.replicate n (.accept true)) = some h ∧
      h.deqConnections = (List.range n).map some := by
  induction n with
  | zero => exact ⟨_,rfl,rfl⟩
  | succ n ih =>
    obtain ⟨h,run,hdeq⟩ := ih
    have haccepted : h.accepted = n := by
      rw [(numbered_exec run).accepted, accepts_replicate, List.length_replicate]
    refine ⟨h.accept true,?_,?_⟩
    · rw [List.replicate_succ']
      exact exec_snoc.mpr ⟨h,run,rfl⟩
    · simp [accept, hdeq, haccepted, List.range_succ]

theorem wellFormed_wraps :
    ∃ h : Host NetMsgType,
      exec step (start fun _ => 5) (List.replicate (2 ^ 32 + 1) (.accept true)) = some h ∧
        ¬h.WellFormed := by
  obtain ⟨h,run,hdeq⟩ := approved_run (T := NetMsgType) (fun _ => 5) (2 ^ 32 + 1)
  refine ⟨h,run,fun wellFormed => ?_⟩
  have there : ∀ c, c < 2 ^ 32 + 1 → some c ∈ h.deqConnections := by
    intro c hc
    rw [hdeq]
    exact List.mem_map_of_mem (List.mem_range.mpr hc)
  have ids : ∀ c, c < 2 ^ 32 + 1 → h.getID c = 10000 + UInt32.ofNat c := by
    intro c hc
    rw [(numbered_exec run).ids c (there c hc), accepts_replicate, List.take_replicate,
      List.count_replicate_self, Nat.min_eq_left (Nat.le_of_lt hc)]
  have hsame : h.getID 0 = h.getID (2 ^ 32) := by
    rw [ids 0 (by decide), ids (2 ^ 32) (by decide)]
    decide
  have heq := wellFormed.ids 0 (2 ^ 32) (there 0 (by decide)) (there (2 ^ 32) (by decide)) hsame
  exact absurd heq (by decide)

end Known

end Host

end TransmissionPlatform.Net
