import TransmissionPlatform.Platform.Deployment
import TransmissionPlatform.Platform.MainLoop
import Mathlib.Algebra.Order.BigOperators.Group.Finset

/-!
The whole system when nothing fails and the clients send no more. The operations on the
connections complete, the posted tasks run, the loop of `main` and the workers do what there is
to do; all this comes to an end, and by then every client has what it asked for.
-/

set_option autoImplicit false

namespace TransmissionPlatform.Platform
open Net ProtoClass StepSystem

namespace DeploymentEvent

def goesOn (e : DeploymentEvent) : Bool := e.peers?.all (·.goesOn)

def completes (c : Nat) (e : DeploymentEvent) : Bool := e.peers?.any (·.completes c)

def isTask : DeploymentEvent → Bool
  | .server (.host .task) => true
  | _ => false

def ofProcess : DeploymentEvent → Bool
  | .client _ _ | .server (.host (.io _ _)) | .server (.host .task) => false
  | .server _ => true

end DeploymentEvent

namespace Deployment
variable {K : Type}

/-- As in the program, and nothing fails. -/
def Calm (s : Deployment K) (e : DeploymentEvent) : Prop := s.Allowed e ∧ e.goesOn = true

instance (s : Deployment K) (e : DeploymentEvent) : Decidable (s.Calm e) :=
  inferInstanceAs (Decidable (s.Allowed e ∧ e.goesOn = true))

/-- A step that needs nobody from outside: no new connection, and no new message of a client. -/
def proceeds (s : Deployment K) : DeploymentEvent → Bool
  | .client c ev => decide (c < s.server.host.accepted) && ev.isCallback
  | .server (.host (.io c ev)) => decide (c < s.server.host.accepted) && ev.isCallback
  | .server (.host .task) => true
  | .server ev => Server.advances s.server ev

end Deployment

def pushed (h : Host NetMsgType) : Nat :=
  ∑ c ∈ Finset.range h.accepted, (pushes (h.net.acts c)).length

namespace Server
variable {K : Type} {sv : Server K} {s t u : Deployment K} {e : DeploymentEvent}

structure Proceeded (s : Deployment K) (more : List DeploymentEvent) (t : Deployment K) : Prop where
  accepted : t.server.host.accepted = s.server.host.accepted
  silent : ∀ c, sentByClient c more = []
  length : more.length ≤
    (∑ c ∈ Finset.range s.server.host.accepted, more.countP (·.completes c)) +
      more.countP (·.isTask) + more.countP (·.ofProcess)
  load : load t.server + more.countP (·.ofProcess) + 13 * pushed s.server.host ≤
    load s.server + 13 * pushed t.server.host
  posted : t.server.host.posted.length + more.countP (·.isTask) ≤
    s.server.host.posted.length + more.countP (·.ofProcess)
  sent : ∃ new, t.server.host.sent = s.server.host.sent ++ new ∧
    new.length ≤ more.countP (·.ofProcess)

theorem sentByClient_append (c : Nat) (xs ys : List DeploymentEvent) :
    sentByClient c (xs ++ ys) = sentByClient c xs ++ sentByClient c ys := by
  simp only [sentByClient, sentBy, List.filterMap_append, sentTasks_append]

theorem proceeded_nil (s : Deployment K) : Proceeded s [] s :=
  ⟨rfl,fun _ => rfl,Nat.zero_le _,Nat.le_refl _,Nat.le_refl _,
    [],(List.append_nil _).symm,Nat.le_refl _⟩

theorem Proceeded.append {xs ys : List DeploymentEvent} (h : Proceeded s xs t)
    (h' : Proceeded t ys u) : Proceeded s (xs ++ ys) u := by
  obtain ⟨new,hnew,hlength⟩ := h.sent
  obtain ⟨new',hnew',hlength'⟩ := h'.sent
  have hsum : ∑ c ∈ Finset.range s.server.host.accepted, (xs ++ ys).countP (·.completes c) =
      (∑ c ∈ Finset.range s.server.host.accepted, xs.countP (·.completes c)) +
        ∑ c ∈ Finset.range s.server.host.accepted, ys.countP (·.completes c) := by
    rw [← Finset.sum_add_distrib]
    exact Finset.sum_congr rfl fun c _ => List.countP_append
  have hxs := h.length
  have hys := h'.length
  have hload := h.load
  have hload' := h'.load
  have hposted := h.posted
  have hposted' := h'.posted
  rw [h.accepted] at hys
  refine ⟨h'.accepted.trans h.accepted,fun c => ?_,?_,?_,?_,new ++ new',?_,?_⟩
  · rw [sentByClient_append, h.silent, h'.silent, List.append_nil]
  · rw [hsum, List.length_append, List.countP_append, List.countP_append]
    omega
  · rw [List.countP_append]
    omega
  · rw [List.countP_append, List.countP_append]
    omega
  · rw [hnew', hnew, List.append_assoc]
  · rw [List.length_append, List.countP_append]
    omega

theorem completes_sum {c n : Nat} (hc : c < n) (h : e.completes c = true) :
    1 ≤ ∑ c ∈ Finset.range n, [e].countP (·.completes c) := by
  have hone : [e].countP (·.completes c) = 1 := by simp [h]
  rw [← hone]
  exact Finset.single_le_sum (f := fun c => [e].countP (·.completes c))
    (fun _ _ => Nat.zero_le _) (Finset.mem_range.mpr hc)

theorem sentByClient_server (c : Nat) (ev : ServiceEvent) : sentByClient c [.server ev] = [] := by
  unfold sentByClient
  cases hnetwork : Server.network ev <;> simp [DeploymentEvent.peers?, hnetwork, sentBy,
    PeersEvent.client?, sentTasks]

theorem consumerRank_more (q more : Nat) (consumer : Consumer NetMsgType) :
    consumerRank (q + more) consumer ≤ consumerRank q consumer := by
  cases consumer with
  | testing n k =>
    simp only [consumerRank]
    split <;> split <;> omega
  | _ => exact Nat.le_refl _

theorem load_turn {s : Service K} {c : Nat} {ev : Event NetMsgType}
    {net : ServerInterface NetMsgType} (posted : List (Posted NetMsgType))
    (hs : DispatchInv s.host.net) (hc : c < s.host.accepted)
    (step : s.host.net.step (.io c ev) = some net) :
    load { s with host := { s.host with net := net, posted := posted } } + 13 * pushed s.host ≤
      load s + 13 * pushed { s.host with net := net, posted := posted } := by
  obtain ⟨io,hio,rfl⟩ := Option.map_eq_some_iff.mp step
  obtain ⟨now,hside⟩ := hs.conns c
  obtain ⟨new,hqueue,hacts,-⟩ := pushes_step hside hio
  change pushes io.acts = pushes (s.host.net.acts c) ++ new at hacts
  have hmem := Finset.mem_range.mpr hc
  have hpushed : ∑ c' ∈ Finset.range s.host.accepted,
      (pushes (Function.update s.host.net.acts c io.acts c')).length =
      (∑ c' ∈ Finset.range s.host.accepted, (pushes (s.host.net.acts c')).length) + new.length := by
    rw [← Finset.add_sum_erase _ _ hmem, ← Finset.add_sum_erase _ _ hmem, Function.update_self, hacts,
      List.length_append]
    have hothers : ∑ c' ∈ (Finset.range s.host.accepted).erase c,
        (pushes (Function.update s.host.net.acts c io.acts c')).length =
        ∑ c' ∈ (Finset.range s.host.accepted).erase c, (pushes (s.host.net.acts c')).length :=
      Finset.sum_congr rfl fun c' hc' => by rw [Function.update_of_ne (Finset.ne_of_mem_erase hc')]
    rw [hothers]
    omega
  have hrank := consumerRank_more s.host.net.qMessagesIn.length new.length s.host.net.consumer
  simp only [pushed, load, rank, hpushed, hqueue, List.length_append]
  omega

theorem posts_advance {s s' : Service K} {ev : ServiceEvent} (hev : advances s ev = true)
    (h : sv.serviceStep s ev = some s') :
    s'.host.accepted = s.host.accepted ∧ s'.host.posted.length ≤ s.host.posted.length + 1 ∧
      ∃ new, s'.host.sent = s.host.sent ++ new ∧ new.length ≤ 1 := by
  obtain ⟨-,hhost⟩ | ⟨hev',hstep,hkind⟩ := hostStep_service h
  · rw [hhost]
    exact ⟨rfl,Nat.le_succ _,[],(List.append_nil _).symm,Nat.zero_le _⟩
  · have hnetwork : ofWorker hev' = false → ev = .host hev' := by
      intro hworker
      rw [hworker] at hkind
      cases ev <;> first | exact congrArg _ (Option.some.inj hkind) | cases hkind
    have moves := Host.moves_step s.host hstep
    generalize s'.host = host at moves
    cases moves with
    | workerSend task first => exact ⟨rfl,by simp,[_],rfl,Nat.le_refl 1⟩
    | update step | consumer step | workerStart head | workerEnd =>
      exact ⟨rfl,Nat.le_succ _,[],(List.append_nil _).symm,Nat.zero_le _⟩
    | accept approved | io completion step | task head step =>
      rw [hnetwork rfl] at hev
      cases hev
    | called calls =>
      cases hev' <;> first | (rw [hnetwork rfl] at hev; cases hev) | cases calls

theorem proceeded_client {c : Nat} {ev : Event NetMsgType} (hc : c < t.server.host.accepted)
    (hev : ev.isCallback = true) (hserver : u.server = t.server) :
    Proceeded t [.client c ev] u := by
  have hsum := completes_sum (e := .client c ev) hc (by
    simp [DeploymentEvent.completes, DeploymentEvent.peers?, PeersEvent.completes, hev])
  refine ⟨by rw [hserver],fun c' => ?_,?_,by simp [hserver, DeploymentEvent.ofProcess],
    by simp [hserver, DeploymentEvent.ofProcess, DeploymentEvent.isTask],[],by simp [hserver],
    Nat.zero_le _⟩
  · by_cases hc' : c = c' <;> cases ev <;>
      simp_all [sentByClient, sentBy, DeploymentEvent.peers?, PeersEvent.client?, sentTasks,
        Event.isCallback]
  · simpa [DeploymentEvent.ofProcess, DeploymentEvent.isTask] using hsum

theorem proceeded_io {c : Nat} {ev : Event NetMsgType} {net : ServerInterface NetMsgType}
    (hs : DispatchInv t.server.host.net) (hc : c < t.server.host.accepted)
    (hev : ev.isCallback = true) (step : t.server.host.net.step (.io c ev) = some net)
    (hserver : u.server = { t.server with host := { t.server.host with net := net } }) :
    Proceeded t [.server (.host (.io c ev))] u := by
  have hsum := completes_sum (e := .server (.host (.io c ev))) hc (by
    simp [DeploymentEvent.completes, DeploymentEvent.peers?, network, PeersEvent.completes, hev])
  have hload := load_turn t.server.host.posted hs hc step
  refine ⟨by rw [hserver],fun c' => sentByClient_server c' _,?_,?_,
    by simp [hserver, DeploymentEvent.ofProcess, DeploymentEvent.isTask],[],by simp [hserver],
    Nat.zero_le _⟩
  · simpa [DeploymentEvent.ofProcess, DeploymentEvent.isTask] using hsum
  · rw [hserver]
    exact hload

theorem proceeded_task {p : Posted NetMsgType} {rest : List (Posted NetMsgType)}
    {net : ServerInterface NetMsgType} (hs : DispatchInv t.server.host.net)
    (head : t.server.host.posted = p :: rest) (hp : p.client < t.server.host.accepted)
    (step : t.server.host.net.step (.io p.client p.event) = some net)
    (hserver : u.server =
      { t.server with host := { t.server.host with net := net, posted := rest } }) :
    Proceeded t [.server (.host .task)] u := by
  have hload := load_turn rest hs hp step
  refine ⟨by rw [hserver],fun c' => sentByClient_server c' _,
    by simp [DeploymentEvent.ofProcess, DeploymentEvent.isTask],?_,
    by simp [hserver, head, DeploymentEvent.ofProcess, DeploymentEvent.isTask],[],by simp [hserver],
    Nat.zero_le _⟩
  rw [hserver]
  exact hload

theorem proceeded_advance {start : Service K} {es : List ServiceEvent} {ev : ServiceEvent}
    (hs : ServiceInv sv start es t.server) (hev : advances t.server ev = true)
    (h : sv.serviceStep t.server ev = some u.server) : Proceeded t [.server ev] u := by
  obtain ⟨hload,hacts⟩ := load_step hs hev h
  obtain ⟨haccepted,hposted,new,hnew,hlength⟩ := posts_advance hev h
  have hkind : (DeploymentEvent.server ev).ofProcess = true ∧
      (DeploymentEvent.server ev).isTask = false := by
    cases ev with
    | host hev' => cases hev' <;> first | exact ⟨rfl,rfl⟩ | cases hev
    | _ => exact ⟨rfl,rfl⟩
  have hpushed : pushed u.server.host = pushed t.server.host := by
    rw [pushed, pushed, haccepted, hacts]
  refine ⟨haccepted,fun c => sentByClient_server c ev,by simp [hkind],?_,by simpa [hkind] using hposted,
    new,hnew,by simpa [hkind] using hlength⟩
  simp only [List.countP_singleton, hkind, if_true, hpushed]
  omega

theorem network_advance {s : Service K} {ev : ServiceEvent} (hev : advances s ev = true) :
    ∀ hev ∈ network ev, (∃ n bWait, hev = .update n bWait) ∨ hev = .consumer := by
  intro hev' hmem
  cases ev with
  | host hev =>
    cases Option.mem_some.mp hmem
    cases hev' with
    | update n bWait => exact .inl ⟨n,bWait,rfl⟩
    | consumer => exact .inr rfl
    | _ => cases hev
  | _ => cases hmem

theorem reads_advance {ev : ServiceEvent} (hev : advances t.server ev = true) :
    t.reads ev = some t.readByServer := by
  have hnetwork := network_advance hev
  unfold Deployment.reads
  split
  · rename_i hev' heq
    obtain ⟨n,bWait,rfl⟩ | rfl := hnetwork hev' heq <;> rfl
  · rfl

theorem proceeds_cases (h : t.proceeds e = true) :
    (∃ c ev, c < t.server.host.accepted ∧ ev.isCallback = true ∧ e = .client c ev) ∨
    (∃ c ev, c < t.server.host.accepted ∧ ev.isCallback = true ∧
      e = .server (.host (.io c ev))) ∨
    e = .server (.host .task) ∨ ∃ ev, e = .server ev ∧ advances t.server ev = true := by
  cases e with
  | client c ev =>
    simp only [Deployment.proceeds, Bool.and_eq_true, decide_eq_true_eq] at h
    exact .inl ⟨c,ev,h.1,h.2,rfl⟩
  | server ev =>
    cases ev with
    | host hev =>
      cases hev with
      | io c ev =>
        simp only [Deployment.proceeds, Bool.and_eq_true, decide_eq_true_eq] at h
        exact .inr (.inl ⟨c,ev,h.1,h.2,rfl⟩)
      | task => exact .inr (.inr (.inl rfl))
      | _ => exact .inr (.inr (.inr ⟨_,rfl,h⟩))
    | _ => exact .inr (.inr (.inr ⟨_,rfl,h⟩))

theorem calm_proceeds (h : t.proceeds e = true) : t.Calm e := by
  obtain ⟨c,ev,-,hev,rfl⟩ | ⟨c,ev,-,hev,rfl⟩ | rfl | ⟨ev,rfl,hev⟩ := proceeds_cases h
  · have hcallback : Undisturbed (t.peers.link c) (.client ev) := undisturbed_callback hev
    exact hcallback
  · have hcallback : Undisturbed (t.peers.link c) (.server ev) := undisturbed_callback hev
    exact ⟨fun hev' hmem => by cases Option.mem_some.mp hmem; rfl,hcallback.2⟩
  · exact ⟨fun hev' hmem => by cases Option.mem_some.mp hmem; rfl,rfl⟩
  · have hnetwork := network_advance hev
    constructor
    · intro hev' hmem
      obtain ⟨n,bWait,rfl⟩ | rfl := hnetwork hev' hmem <;> rfl
    · show ((network ev).map PeersEvent.host).all (·.goesOn) = true
      cases heq : network ev with
      | none => rfl
      | some hev' => obtain ⟨n,bWait,rfl⟩ | rfl := hnetwork hev' heq <;> rfl

section Runs
variable {now : Nat → UInt64} {w : World} {es more : List DeploymentEvent}

theorem proceeded_step (hs : DeploymentInv sv now w es t) (hev : t.proceeds e = true)
    (h : sv.deploymentStep t e = some u) : Proceeded t [e] u := by
  have hservice := serviceInv_run hs.server
  have hdispatch := hservice.replies.dispatch
  -- what a step of the network does to the host
  have moves : ∀ hev, ofWorker hev = false → sv.serviceStep t.server (.host hev) = some u.server →
      ∃ host, t.server.host.Moves hev host ∧ u.server = { t.server with host := host } := by
    intro hev hnet hstep
    obtain ⟨hev',host,heq,-,hmoves,hu⟩ | ⟨_,_,_,heq,_⟩ | ⟨_,heq,_⟩ | ⟨_,heq,_⟩ :=
      serviceStep_cases hstep <;> cases heq
    exact ⟨host,hmoves,hu⟩
  have step : ∀ ev, e = .server ev → sv.serviceStep t.server ev = some u.server := by
    rintro ev rfl
    obtain ⟨ev',server,read,heq,-,hserver,rfl⟩ | ⟨c,ev',heq,-⟩ := deployment_cases h
    · cases heq
      exact hserver
    · cases heq
  obtain ⟨c,ev,hc,hcallback,rfl⟩ | ⟨c,ev,hc,hcallback,rfl⟩ | rfl | ⟨ev,rfl,hadvance⟩ :=
    proceeds_cases hev
  · obtain ⟨ev',server,read,heq,-⟩ | ⟨c',ev',-,-,hserver⟩ := deployment_cases h
    · cases heq
    · exact proceeded_client hc hcallback hserver
  · obtain ⟨host,hmoves,hu⟩ := moves _ rfl (step _ rfl)
    cases hmoves with
    | io completion hstep => exact proceeded_io hdispatch hc hcallback hstep hu
    | called calls => cases calls
  · obtain ⟨host,hmoves,hu⟩ := moves _ rfl (step _ rfl)
    cases hmoves with
    | task head hstep =>
      obtain ⟨bs,hmeets,hrun,-⟩ := hs.peers
      have hp := (Peers.peersInv_run hmeets hrun).known.posted _ (head ▸ List.mem_cons_self)
      exact proceeded_task hdispatch head hp hstep hu
    | called calls => cases calls
  · exact proceeded_advance hservice hadvance (step ev rfl)

theorem proceeded_run (hsize : ∀ info, (sv.libs.serializeAsString info).length < 2 ^ 32)
    (meets : Meets sv.deploymentStep Deployment.Calm (.start now w) es)
    (run : exec sv.deploymentStep (.start now w) es = some s)
    (hmeets : Meets sv.deploymentStep (fun s e => s.proceeds e = true) s more)
    (hmore : exec sv.deploymentStep s more = some t) :
    Meets sv.deploymentStep Deployment.Calm (.start now w) (es ++ more) ∧
    exec sv.deploymentStep (.start now w) (es ++ more) = some t ∧ Proceeded s more t := by
  refine exec_induction (I := fun more t =>
    Meets sv.deploymentStep Deployment.Calm (.start now w) (es ++ more) ∧
    exec sv.deploymentStep (.start now w) (es ++ more) = some t ∧ Proceeded s more t) ?_ ?_ hmeets hmore
  · rw [List.append_nil]
    exact ⟨meets,run,proceeded_nil s⟩
  · rintro more t e u ⟨hmeets,hreached,hso⟩ he hstep
    have ht := deploymentInv_run hsize (hmeets.imp fun _ _ => And.left) hreached
    rw [← List.append_assoc]
    exact ⟨hmeets.append hreached ⟨calm_proceeds he,fun _ _ => trivial⟩,
      exec_snoc.mpr ⟨t,hreached,hstep⟩,hso.append (proceeded_step ht he hstep)⟩

theorem frames_sublist {xs ys : List (Message NetMsgType)} (h : xs.Sublist ys) :
    (frames xs).length ≤ (frames ys).length := (h.flatMap Message.frame).length_le

theorem frames_le {ms : List (Message NetMsgType)} (h : ∀ m ∈ ms, m.Announced) :
    (frames ms).length ≤ (8 + 2 ^ 32) * ms.length := by
  induction ms with
  | nil => exact Nat.le_refl 0
  | cons m ms ih =>
    obtain ⟨hm,hms⟩ := List.forall_mem_cons.mp h
    have hrest := ih hms
    have hbody : m.body.length < 2 ^ 32 := hm ▸ m.header.size.toNat_lt
    simp only [frames_cons, List.length_append, List.length_cons, MessageHeader.bytes_length,
      MessageHeader.sizeOf]
    omega

def movesLeft (es : List DeploymentEvent) (s : Deployment K) : Nat :=
  load s.server + 13 * ∑ c ∈ Finset.range s.server.host.accepted, (sentByClient c es).length

/-- What the system can still do after the run `es`: its own moves, a task for each of their sends
and for each that is posted, and the completions on each connection for the bytes that may go
over it. -/
def workLeft (es : List DeploymentEvent) (s : Deployment K) : Nat :=
  (∑ c ∈ Finset.range s.server.host.accepted, (34 + 2 * ((frames (sentByClient c es)).length +
      ((frames (s.server.host.sent.map Sent.msg)).length + (8 + 2 ^ 32) * movesLeft es s)))) +
    (s.server.host.posted.length + movesLeft es s) + movesLeft es s

theorem countP_completes (c : Nat) {bs : List (PeersEvent NetMsgType)}
    (hsame : (bs.filter fun e => !byWorker e) = es.filterMap DeploymentEvent.peers?) :
    es.countP (·.completes c) ≤ bs.countP (·.completes c) := by
  have hcount : es.countP (·.completes c) =
      (es.filterMap DeploymentEvent.peers?).countP (·.completes c) := by
    rw [List.countP_filterMap]
    refine List.countP_congr fun e _ => ?_
    unfold DeploymentEvent.completes
    cases e.peers? <;> rfl
  rw [hcount, ← hsame]
  exact List.filter_sublist.countP_le

theorem proceeded_le (hsize : ∀ info, (sv.libs.serializeAsString info).length < 2 ^ 32)
    (ht : DeploymentInv sv now w (es ++ more) t) (h : Proceeded s more t) :
    more.length ≤ workLeft es s := by
  obtain ⟨bs,hmeets,hrun,hsame⟩ := ht.peers
  have hpeers := Peers.peersInv_run hmeets hrun
  have hsent : ∀ c, sentBy c bs = sentByClient c es := by
    intro c
    rw [← sentBy_network, hsame]
    exact (sentByClient_append c es more).trans (by rw [h.silent, List.append_nil])
  have hmoves : more.countP (·.ofProcess) ≤ movesLeft es s := by
    have hpushed : pushed t.server.host ≤
        ∑ c ∈ Finset.range s.server.host.accepted, (sentByClient c es).length := by
      rw [pushed, h.accepted]
      exact Finset.sum_le_sum fun c _ => hsent c ▸ hpeers.pushes_le c
    have hload := h.load
    unfold movesLeft
    omega
  have hbytes : (frames (t.server.host.sent.map Sent.msg)).length ≤
      (frames (s.server.host.sent.map Sent.msg)).length + (8 + 2 ^ 32) * movesLeft es s := by
    obtain ⟨new,hnew,hlength⟩ := h.sent
    have hannounced := ht.attended.announced (serviceInv_run ht.server) hsize
    have hle : (frames (new.map Sent.msg)).length ≤ (8 + 2 ^ 32) * (new.map Sent.msg).length := by
      refine frames_le fun m hm => ?_
      obtain ⟨x,hx,rfl⟩ := List.mem_map.mp hm
      exact hannounced x (hnew ▸ List.mem_append_right _ hx)
    rw [List.length_map] at hle
    rw [hnew, List.map_append, frames_append, List.length_append]
    omega
  have hlinks : ∑ c ∈ Finset.range s.server.host.accepted, more.countP (·.completes c) ≤
      ∑ c ∈ Finset.range s.server.host.accepted, (34 + 2 * ((frames (sentByClient c es)).length +
        ((frames (s.server.host.sent.map Sent.msg)).length + (8 + 2 ^ 32) * movesLeft es s))) := by
    refine Finset.sum_le_sum fun c hc => ?_
    have hcount := countP_completes c hsame
    have hlink := hpeers.completions_le (h.accepted ▸ Finset.mem_range.mp hc)
    have hpart : (frames ((t.server.host.sentTo c).map Sent.msg)).length ≤
        (frames (t.server.host.sent.map Sent.msg)).length :=
      frames_sublist (List.filter_sublist.map _)
    rw [List.countP_append] at hcount
    rw [hsent] at hlink
    change _ ≤ 34 + 2 * (_ + (frames ((t.server.host.sentTo c).map Sent.msg)).length) at hlink
    omega
  have hlength := h.length
  have hposted := h.posted
  unfold workLeft
  omega

/-- What client `c` has received are answers to its requests for a key, exactly one to each. -/
def Served (sv : Server K) (start : Service K) (es : List DeploymentEvent) (c : Nat)
    (s : Deployment K) : Prop :=
  ∃ answers : List (Nat × Message NetMsgType),
    (s.clients c).qMessagesIn = (delivered [] (answers.map Prod.snd)).map (fun m => ⟨none,m⟩) ∧
    (answers.map Prod.fst).Nodup ∧
    (∀ x ∈ answers, AnswersRequest sv (sv.past start (es.filterMap DeploymentEvent.server?))
      (sentByClient c es) x) ∧
    ∀ k m, (sentByClient c es)[k]? = some m → m.header.id = .kSeckeyAgree →
      k ∈ answers.map Prod.fst

theorem served_of_drained (hs : DeploymentInv sv now w es s) (hcalm : ∀ e ∈ es, e.goesOn = true)
    (hdrained : Drained s.server.host) (hposted : s.server.host.posted = []) {c : Nat}
    (hidle : c < s.server.host.accepted → (s.peers.link c).Idle) :
    Served sv (.start now w) es c s := by
  obtain ⟨bs,hmeets,hrun,hsame⟩ := hs.peers
  have hall : ∀ e ∈ bs, e.goesOn = true := by
    intro e he
    cases hworker : byWorker e with
    | true =>
      cases e with
      | client c ev => cases hworker
      | host ev => cases ev <;> first | rfl | cases hworker
    | false =>
      have hmem : e ∈ bs.filter fun e => !byWorker e := List.mem_filter.mpr ⟨he,by simp [hworker]⟩
      rw [hsame] at hmem
      obtain ⟨e',he',hown⟩ := List.mem_filterMap.mp hmem
      have hon := hcalm e' he'
      rw [DeploymentEvent.goesOn, hown] at hon
      exact hon
  obtain ⟨hpushes,hqueue⟩ := (Peers.peersInv_run hmeets hrun).arrived hall hposted hidle
  have hsent : sentBy c bs = sentByClient c es := by
    rw [← sentBy_network, hsame]
    rfl
  obtain ⟨honce,hanswers⟩ := hs.answers (List.prefix_refl (s.server.host.sentTo c))
  refine ⟨(s.server.host.sentTo c).map fun x => (x.reply.getD 0,x.msg),?_,?_,?_,?_⟩
  · rw [List.map_map]
    exact hqueue
  · rw [List.map_map]
    exact honce
  · intro y hy
    obtain ⟨x,hx,rfl⟩ := List.mem_map.mp hy
    exact hanswers x hx
  · intro k m hm hid
    rw [List.map_map]
    obtain ⟨arrived,hgot,harrives⟩ := delivered_of_sent hm []
    refine (hs.repliesTo c).subst (motive := fun replies => k ∈ replies)
      (hdrained.settled.2 c k arrived ?_ (harrives.1 ▸ hid))
    rw [hdrained.dispatched, show pushes (s.server.host.net.acts c) = _ from hpushes, hsent,
      List.getElem?_map, hgot]
    rfl

theorem served_of_stuck (hs : DeploymentInv sv now w es s) (hcalm : ∀ e ∈ es, e.goesOn = true)
    (stuck : ∀ e, s.proceeds e = true → sv.deploymentStep s e = none) :
    s.server.ended = true ∨ ∀ c, Served sv (.start now w) es c s := by
  have service : ∀ {ev}, s.proceeds (.server ev) = true → (s.reads ev).isSome = true →
      (sv.serviceStep s.server ev).isSome = true → False := by
    intro ev hproceeds hread hstep
    obtain ⟨read,hread⟩ := Option.isSome_iff_exists.mp hread
    obtain ⟨server,hstep⟩ := Option.isSome_iff_exists.mp hstep
    have hnone := stuck _ hproceeds
    simp [deploymentStep, hread, hstep] at hnone
  cases hlive : s.server.ended with
  | true => exact .inl rfl
  | false =>
    refine .inr fun c => served_of_drained hs hcalm ?_ ?_ fun hc => ?_
    · by_contra hopen
      obtain ⟨ev,hev,henabled⟩ := advance_enabled (serviceInv_run hs.server) hlive hopen
      have hproceeds : s.proceeds (.server ev) = true := by
        cases ev with
        | host hev' => cases hev' <;> first | exact hev | cases hev
        | _ => exact hev
      exact service hproceeds (by rw [reads_advance hev]; rfl) henabled
    · by_contra hposted
      have hproceeds : s.proceeds (.server (.host .task)) = true := rfl
      exact service hproceeds rfl (host_enabled hlive rfl (Peers.task_enabled hposted))
    · intro act hact
      by_contra hne
      obtain ⟨l,hl⟩ := Option.ne_none_iff_exists'.mp hne
      cases act with
      | client ev =>
        have hproceeds : s.proceeds (.client c ev) = true := by
          simp only [Deployment.proceeds, Bool.and_eq_true, decide_eq_true_eq]
          exact ⟨hc,hact⟩
        obtain ⟨p,hp⟩ := Option.isSome_iff_exists.mp (Peers.client_enabled hl)
        have hnone := stuck _ hproceeds
        simp [deploymentStep, hp] at hnone
      | server ev =>
        have hproceeds : s.proceeds (.server (.host (.io c ev))) = true := by
          simp only [Deployment.proceeds, Bool.and_eq_true, decide_eq_true_eq]
          exact ⟨hc,hact⟩
        have htask : ev.isTask = false := by cases ev <;> first | rfl | cases hact
        obtain ⟨hread,hstep⟩ := Peers.server_enabled htask hl
        exact service hproceeds hread (host_enabled hlive rfl hstep)

/-- Any number of clients, whose requests are on their way. When nothing fails and nobody sends
anything more, the system takes a bounded number of steps, in whatever order. When it can take
none, every client has got exactly one answer to each of its requests for a key, unless an
exception has ended the process; and it gets there. -/
theorem clients_served (hsize : ∀ info, (sv.libs.serializeAsString info).length < 2 ^ 32)
    (meets : Meets sv.deploymentStep Deployment.Calm (.start now w) es)
    (run : exec sv.deploymentStep (.start now w) es = some s) :
    (∀ more t, Meets sv.deploymentStep (fun s e => s.proceeds e = true) s more →
      exec sv.deploymentStep s more = some t → more.length ≤ workLeft es s ∧
      ((∀ e, t.proceeds e = true → sv.deploymentStep t e = none) →
        t.server.ended = true ∨ ∀ c, Served sv (.start now w) (es ++ more) c t)) ∧
    ∃ more t, Meets sv.deploymentStep (fun s e => s.proceeds e = true) s more ∧
      exec sv.deploymentStep s more = some t ∧
      (t.server.ended = true ∨ ∀ c, Served sv (.start now w) (es ++ more) c t) := by
  have served : ∀ more t, Meets sv.deploymentStep (fun s e => s.proceeds e = true) s more →
      exec sv.deploymentStep s more = some t →
      (∀ e, t.proceeds e = true → sv.deploymentStep t e = none) →
        t.server.ended = true ∨ ∀ c, Served sv (.start now w) (es ++ more) c t := by
    intro more t hmeets hmore stuck
    obtain ⟨hcalm,hreached,-⟩ := proceeded_run hsize meets run hmeets hmore
    exact served_of_stuck (deploymentInv_run hsize (hcalm.imp fun _ _ => And.left) hreached)
      ((hcalm.imp fun _ _ => And.right).all hreached) stuck
  have bounded : ∀ more t, Meets sv.deploymentStep (fun s e => s.proceeds e = true) s more →
      exec sv.deploymentStep s more = some t → more.length ≤ workLeft es s := by
    intro more t hmeets hmore
    obtain ⟨hcalm,hreached,hso⟩ := proceeded_run hsize meets run hmeets hmore
    exact proceeded_le hsize (deploymentInv_run hsize (hcalm.imp fun _ _ => And.left) hreached) hso
  have progress : ∀ more t, Meets sv.deploymentStep (fun s e => s.proceeds e = true) s more →
      exec sv.deploymentStep s more = some t →
      (∀ e, t.proceeds e = true → sv.deploymentStep t e = none) ∨
        ∃ e, t.proceeds e = true ∧ (sv.deploymentStep t e).isSome = true := by
    intro more t _ _
    by_cases hgo : ∃ e, t.proceeds e = true ∧ (sv.deploymentStep t e).isSome = true
    · exact .inr hgo
    · refine .inl fun e he => ?_
      by_contra hne
      exact hgo ⟨e,he,Option.isSome_iff_ne_none.mpr hne⟩
  refine ⟨fun more t hmeets hmore => ⟨bounded more t hmeets hmore,served more t hmeets hmore⟩,?_⟩
  obtain ⟨more,t,hmeets,hmore,stuck⟩ := exec_reaches (workLeft es s) progress bounded
  exact ⟨more,t,hmeets,hmore,served more t hmeets hmore stuck⟩

theorem clients_served_taken :
    ∃ s, exec oneKeyPb.deploymentStep (.start (fun _ => 5) takenStore) (takenSteps.take 5) = some s ∧
      ∃ more t, exec oneKeyPb.deploymentStep s more = some t ∧
        (t.server.ended = true ∨
          Served oneKeyPb (.start (fun _ => 5) takenStore) (takenSteps.take 5 ++ more) 0 t) := by
  have hrun : (exec oneKeyPb.deploymentStep (.start (fun _ => 5) takenStore)
      (takenSteps.take 5)).isSome = true := by decide +kernel
  have hmeets : Meets oneKeyPb.deploymentStep Deployment.Calm (.start (fun _ => 5) takenStore)
      (takenSteps.take 5) := by decide +kernel
  obtain ⟨s,run⟩ := Option.isSome_iff_exists.mp hrun
  obtain ⟨-,more,t,-,hmore,hdone⟩ :=
    clients_served (serializeAsString_lt wire_lawful _ _ _) hmeets run
  exact ⟨s,run,more,t,hmore,hdone.imp_right fun hserved => hserved 0⟩

end Runs

end Server

end TransmissionPlatform.Platform
