import TransmissionPlatform.Net.Peers
import TransmissionPlatform.Platform.KeyDelivery
import TransmissionPlatform.Platform.Refinement

/-!
The server at work among its clients: the network, the queues, `Update`, the workers over the files
they share, and a client at the other end of each connection. A run of all of it is a run of the
host among its peers, in which only the workers send.
-/

set_option autoImplicit false

namespace TransmissionPlatform.Platform
open Net ProtoClass StepSystem

structure Deployment (K : Type) where
  server : Service K
  clients : Nat → Io NetMsgType
  readByClient : Nat → List UInt8 := fun _ => []
  readByServer : Nat → List UInt8 := fun _ => []

inductive DeploymentEvent where
  | server (ev : ServiceEvent)
  | client (c : Nat) (ev : Event NetMsgType)

/-- The calls in the program: `OnClientConnect` approves every client, only `Work` sends, and
nobody calls `Disconnect` or one of the functions that may do so. -/
def ofProgram {T : Type} : HostEvent T → Bool
  | .accept approved => approved
  | .send _ _ | .disconnect _ | .messageClient _ _ | .messageAllClients _ _ => false
  | _ => true

def DeploymentEvent.peers? : DeploymentEvent → Option (PeersEvent NetMsgType)
  | .server ev => (Server.network ev).map .host
  | .client c ev => some (.client c ev)

namespace Deployment
variable {K : Type}

def peers (s : Deployment K) : Peers NetMsgType :=
  ⟨s.server.host,s.clients,s.readByClient,s.readByServer⟩

def start (now : Nat → UInt64) (w : World) : Deployment K where
  server := .start now w
  clients := (Peers.start now).clients

def reads (s : Deployment K) (ev : ServiceEvent) : Option (Nat → List UInt8) :=
  match Server.network ev with
  | some hev => serverReads s.clients s.readByServer hev
  | none => some s.readByServer

def Allowed (s : Deployment K) : DeploymentEvent → Prop
  | .server ev => ∀ hev ∈ Server.network ev, ofProgram hev = true
  | .client c ev => InTurn (s.peers.link c) (.client ev)

instance (s : Deployment K) : ∀ ev, Decidable (s.Allowed ev)
  | .server ev => inferInstanceAs (Decidable (∀ hev ∈ Server.network ev, ofProgram hev = true))
  | .client c ev => inferInstanceAs (Decidable (InTurn (s.peers.link c) (.client ev)))

end Deployment

namespace Server
variable {K : Type} (sv : Server K)

def deploymentStep (s : Deployment K) : DeploymentEvent → Option (Deployment K)
  | .server ev =>
    (s.reads ev).bind fun read =>
      (sv.serviceStep s.server ev).map fun server => { s with server := server, readByServer := read }
  | .client c ev =>
    (s.peers.step (.client c ev)).map fun p =>
      { s with clients := p.clients, readByClient := p.readByClient }

structure Attended (h : Host NetMsgType) : Prop where
  held : ∀ c, c < h.accepted → some c ∈ h.deqConnections
  answers : ∀ x ∈ h.sent, x.reply ≠ none

theorem attended_moves {h h' : Host NetMsgType} {ev : HostEvent NetMsgType} (hs : Attended h)
    (hev : ofProgram ev = true) (m : h.Moves ev h') : Attended h' := by
  cases m with
  | accept approved =>
    cases approved with
    | false => cases hev
    | true =>
      refine ⟨fun c hc => ?_,hs.answers⟩
      obtain hlt | rfl := Nat.lt_succ_iff_lt_or_eq.mp hc
      · exact List.mem_append_left _ (hs.held c hlt)
      · exact List.mem_append_right _ (List.mem_singleton_self _)
  | called calls =>
    cases ev with
    | send _ _ | disconnect _ | messageClient _ _ | messageAllClients _ _ => cases hev
    | _ => cases calls
  | workerSend task first =>
    refine ⟨hs.held,fun x hx => ?_⟩
    obtain hx | hx := List.mem_append.mp hx
    · exact hs.answers x hx
    · obtain rfl := List.mem_singleton.mp hx
      exact Option.some_ne_none _
  | _ => exact ⟨hs.held,hs.answers⟩

theorem AnswersWith.announced {sv : Server K} {past : Past K} {m msg : Message NetMsgType}
    (hsize : ∀ info, (sv.libs.serializeAsString info).length < 2 ^ 32)
    (h : AnswersWith sv past m msg) : msg.Announced := by
  obtain rfl | ⟨_,_,_,aes_seckey,-,-,-,-,-,rfl⟩ := h
  · rfl
  · exact reply_announced (hsize _)

theorem allowed_host {now : Nat → UInt64} {p : Peers NetMsgType} {hev : HostEvent NetMsgType}
    {host : Host NetMsgType} (hprogram : ofProgram hev = true) (hknown : p.host.Known now)
    (hattended : Attended p.host) (hstep : p.host.step hev = some host)
    (hsent : ∀ x ∈ host.sent, x.msg.Announced) : p.Allowed (.host hev) := by
  cases hev with
  | accept approved =>
    cases approved with
    | false => cases hprogram
    | true => exact ⟨nofun,nofun,trivial,trivial⟩
  | workerSend i msg =>
    cases Host.moves_step p.host hstep with
    | called calls => cases calls
    | workerSend task first =>
      refine ⟨nofun,fun msg' hmsg => ?_,trivial,fun t ht => ?_⟩
      · cases hmsg
        exact hsent _ (List.mem_append_right _ (List.mem_singleton_self _))
      · exact hattended.held _ (hknown.refs _
          (.inr ⟨t,List.mem_append_left _ (List.mem_of_getElem? ht),rfl⟩))
  | send _ _ | disconnect _ | messageClient _ _ | messageAllClients _ _ => cases hprogram
  | _ => exact ⟨nofun,nofun,trivial,trivial⟩

def DeploymentEvent.server? : DeploymentEvent → Option ServiceEvent
  | .server ev => some ev
  | .client _ _ => none

def byWorker : PeersEvent NetMsgType → Bool
  | .host ev => ofWorker ev
  | .client _ _ => false

structure DeploymentInv (sv : Server K) (now : Nat → UInt64) (w : World)
    (es : List DeploymentEvent) (s : Deployment K) : Prop where
  server : exec sv.serviceStep (.start now w) (es.filterMap DeploymentEvent.server?) = some s.server
  attended : Attended s.server.host
  peers : ∃ bs, Meets Peers.step Peers.Allowed (.start now) bs ∧
    exec Peers.step (.start now) bs = some s.peers ∧
    (bs.filter fun e => !byWorker e) = es.filterMap DeploymentEvent.peers?

section Steps
variable {sv : Server K} {now : Nat → UInt64} {w : World} {es : List DeploymentEvent}
  {s s' : Deployment K} {e : DeploymentEvent}

theorem deployment_cases (h : sv.deploymentStep s e = some s') :
    (∃ ev server read, e = .server ev ∧ s.reads ev = some read ∧
      sv.serviceStep s.server ev = some server ∧
      s' = { s with server := server, readByServer := read }) ∨
    (∃ c ev, e = .client c ev ∧ s.peers.step (.client c ev) = some s'.peers ∧
      s'.server = s.server) := by
  cases e with
  | server ev =>
    simp only [deploymentStep, Option.bind_eq_some_iff, Option.map_eq_some_iff] at h
    obtain ⟨read,hread,server,hserver,rfl⟩ := h
    exact .inl ⟨ev,server,read,rfl,hread,hserver,rfl⟩
  | client c ev =>
    obtain ⟨p,hp,rfl⟩ := Option.map_eq_some_iff.mp h
    refine .inr ⟨c,ev,rfl,?_,rfl⟩
    have hsame : p.host = s.server.host ∧ p.readByServer = s.readByServer := by
      simp only [Peers.step] at hp
      split at hp
      · obtain ⟨io,-,rfl⟩ := Option.map_eq_some_iff.mp hp
        exact ⟨rfl,rfl⟩
      · cases hp
    obtain ⟨host,clients,readByClient,readByServer⟩ := p
    obtain ⟨rfl,rfl⟩ := hsame
    exact hp

theorem Attended.announced {start : Service K} {es : List ServiceEvent} {s : Service K}
    (hattended : Attended s.host) (hs : ServiceInv sv start es s)
    (hsize : ∀ info, (sv.libs.serializeAsString info).length < 2 ^ 32) :
    ∀ x ∈ s.host.sent, x.msg.Announced := by
  intro x hx
  obtain ⟨k,hk⟩ := Option.ne_none_iff_exists'.mp (hattended.answers x hx)
  obtain ⟨m,-,-,hanswer⟩ := hs.sound x hx k hk
  exact hanswer.announced hsize

theorem peers_step {bs m : List (PeersEvent NetMsgType)} {p p' : Peers NetMsgType}
    (meets : Meets Peers.step Peers.Allowed (.start now) bs)
    (run : exec Peers.step (.start now) bs = some p)
    (hmeets : Meets Peers.step Peers.Allowed p m) (hrun : exec Peers.step p m = some p')
    (hsame : (bs.filter fun e => !byWorker e) = es.filterMap DeploymentEvent.peers?)
    (hmore : (m.filter fun e => !byWorker e) = e.peers?.toList) :
    ∃ bs, Meets Peers.step Peers.Allowed (.start now) bs ∧
      exec Peers.step (.start now) bs = some p' ∧
      (bs.filter fun e => !byWorker e) = (es ++ [e]).filterMap DeploymentEvent.peers? := by
  refine ⟨bs ++ m,meets.append run hmeets,?_,?_⟩
  · rw [exec_append, run, Option.bind_some, hrun]
  · rw [List.filter_append, hsame, hmore, List.filterMap_append, List.filterMap_cons]
    cases e.peers? <;> rfl

theorem deploymentInv_step (hsize : ∀ info, (sv.libs.serializeAsString info).length < 2 ^ 32)
    (hs : DeploymentInv sv now w es s) (hcond : s.Allowed e) (h : sv.deploymentStep s e = some s') :
    DeploymentInv sv now w (es ++ [e]) s' := by
  obtain ⟨bs,meets,run,hsame⟩ := hs.peers
  obtain ⟨ev,server,read,rfl,hread,hserver,rfl⟩ | ⟨c,ev,rfl,hpeers,hserver⟩ := deployment_cases h
  · have hrun' : exec sv.serviceStep (.start now w)
        ((es ++ [DeploymentEvent.server ev]).filterMap DeploymentEvent.server?) = some server := by
      rw [List.filterMap_append]
      exact exec_snoc.mpr ⟨s.server,hs.server,hserver⟩
    obtain ⟨hnone,hhost⟩ | ⟨hev,hstep,hkind⟩ := hostStep_service hserver
    · simp only [Deployment.reads, hnone] at hread
      cases hread
      refine ⟨hrun',hhost ▸ hs.attended,?_⟩
      refine peers_step meets run (m := []) trivial ?_ hsame ?_
      · simp [Deployment.peers, hhost]
      · simp [DeploymentEvent.peers?, hnone]
    · have hprogram : ofProgram hev = true := by
        split at hkind
        · cases hev <;> first | rfl | contradiction
        · exact hcond hev hkind
      have hattended := attended_moves hs.attended hprogram (Host.moves_step _ hstep)
      have hpeers : s.peers.step (.host hev) =
          some ⟨server.host,s.clients,s.readByClient,read⟩ := by
        have hreads : serverReads s.clients s.readByServer hev = some read := by
          unfold Deployment.reads at hread
          split at hkind
          · rw [hkind] at hread
            cases hev <;> first | exact hread | contradiction
          · rw [hkind] at hread
            exact hread
        simp [Peers.step, Deployment.peers, hreads, hstep]
      refine ⟨hrun',hattended,?_⟩
      refine peers_step meets run (m := [.host hev]) ?_ (by simp [hpeers]; rfl) hsame ?_
      · have hannounced := hattended.announced (serviceInv_run hrun') hsize
        exact meets_cons.mpr ⟨allowed_host hprogram (Peers.peersInv_run meets run).known hs.attended
          hstep hannounced,fun _ _ => trivial⟩
      · split at hkind <;> rename_i hworker <;> simp [byWorker, hworker, DeploymentEvent.peers?, hkind]
  · refine ⟨?_,hserver ▸ hs.attended,?_⟩
    · rw [List.filterMap_append, hserver]
      exact (congrArg _ (List.append_nil _)).trans hs.server
    · exact peers_step meets run (m := [.client c ev]) (meets_cons.mpr ⟨hcond,fun _ _ => trivial⟩)
        (by simp [hpeers]) hsame rfl

theorem deploymentInv_run (hsize : ∀ info, (sv.libs.serializeAsString info).length < 2 ^ 32)
    (meets : Meets sv.deploymentStep Deployment.Allowed (.start now w) es)
    (run : exec sv.deploymentStep (.start now w) es = some s) : DeploymentInv sv now w es s := by
  refine exec_induction (I := DeploymentInv sv now w) ?_
    (fun _ _ _ _ => deploymentInv_step hsize) meets run
  refine ⟨rfl,⟨fun c hc => ?_,fun x hx => ?_⟩,[],meets_nil _ _,rfl,rfl⟩
  · cases hc
  · cases hx

end Steps

def sentByClient (c : Nat) (es : List DeploymentEvent) : List (Message NetMsgType) :=
  sentBy c (es.filterMap DeploymentEvent.peers?)

theorem sentBy_network (c : Nat) (bs : List (PeersEvent NetMsgType)) :
    sentBy c (bs.filter fun e => !byWorker e) = sentBy c bs := by
  unfold sentBy
  rw [List.filterMap_filter]
  refine congrArg sentTasks (List.filterMap_congr fun e _ => ?_)
  cases e with
  | client c' ev => rfl
  | host ev => cases ofWorker ev <;> simp [byWorker, PeersEvent.client?]

theorem delivered_getElem? {ms sent : List (Message NetMsgType)} {k : Nat}
    {m : Message NetMsgType} (hpre : ms <+: sent) (h : (delivered [] ms)[k]? = some m) :
    (delivered [] sent)[k]? = some m := by
  obtain ⟨more,rfl⟩ := hpre
  rw [delivered_append]
  exact getElem?_of_isPrefix (List.prefix_append _ _) h

/-- The message `x.2` answers the one of number `x.1` among those that a client sent, a request for
a key, as it arrived: as it was sent if it has a body. -/
def AnswersRequest (sv : Server K) (past : Past K)
    (sent : List (Message NetMsgType)) (x : Nat × Message NetMsgType) : Prop :=
  ∃ m arrived, sent[x.1]? = some m ∧ (delivered [] sent)[x.1]? = some arrived ∧
    m.ArrivesAs arrived ∧ m.header.id = .kSeckeyAgree ∧ AnswersWith sv past arrived x.2

section Runs
variable {sv : Server K} {now : Nat → UInt64} {w : World} {es : List DeploymentEvent}
  {s : Deployment K}

theorem DeploymentInv.repliesTo (hs : DeploymentInv sv now w es s) (c : Nat) :
    s.server.host.repliesTo c = (s.server.host.sentTo c).map fun x => x.reply.getD 0 := by
  rw [Host.repliesTo, ← List.filterMap_eq_map]
  refine List.filterMap_congr fun x hx => ?_
  obtain ⟨k,hk⟩ := Option.ne_none_iff_exists'.mp (hs.attended.answers x (List.mem_filter.mp hx).1)
  rw [Function.comp_apply, hk]
  rfl

theorem DeploymentInv.answers (hs : DeploymentInv sv now w es s) {c : Nat}
    {arrived : List (Sent NetMsgType)} (harrived : arrived <+: s.server.host.sentTo c) :
    (arrived.map fun x => x.reply.getD 0).Nodup ∧
    ∀ x ∈ arrived, AnswersRequest sv
      (sv.past (.start now w) (es.filterMap DeploymentEvent.server?)) (sentByClient c es)
      (x.reply.getD 0,x.msg) := by
  have hservice := serviceInv_run hs.server
  have honce : (s.server.host.repliesTo c).Nodup :=
    (hservice.replies.request.once c).of_append_left
  rw [hs.repliesTo] at honce
  refine ⟨honce.sublist (harrived.sublist.map _),fun x hx => ?_⟩
  obtain ⟨hmem,hclient⟩ := List.mem_filter.mp (harrived.subset hx)
  obtain rfl : x.client = c := of_decide_eq_true hclient
  obtain ⟨k,hk⟩ := Option.ne_none_iff_exists'.mp (hs.attended.answers x hmem)
  obtain ⟨m,hm,hid,hanswer⟩ := hservice.sound x hmem k hk
  obtain ⟨bs,hmeets,hrun,hsame⟩ := hs.peers
  obtain ⟨⟨done,hdone,hrequests,-⟩,-⟩ := (Peers.peersInv_run hmeets hrun).inOrder x.client
  rw [← sentBy_network, hsame] at hdone
  rw [show s.server.host.requests x.client = _ from hrequests, List.nil_append,
    List.getElem?_map, Option.map_eq_some_iff] at hm
  obtain ⟨m',hm',heq⟩ := hm
  cases heq
  have hgot : (delivered [] (sentByClient x.client es))[k]? = some m :=
    delivered_getElem? hdone hm'
  obtain ⟨request,hsent,harrives⟩ := sent_of_delivered hgot
  rw [AnswersRequest, hk, Option.getD_some]
  exact ⟨request,m,hsent,hgot,harrives,harrives.1 ▸ hid,hanswer⟩

theorem serializeAsString_lt {F : Type} {pb : Protobuf F} (hpb : pb.Lawful)
    (libs : Libraries K) (request : Generated RequestProto) (left : List UInt8 → RespondProto)
    (info : RespondInfo) :
    ((libs.ofGenerated request (generated pb (RespondProto.cls pb) left)).serializeAsString
      info).length < 2 ^ 32 := by
  show ((RespondProto.cls pb).serializeAsString pb ⟨(RespondMsg.ofInfo info).msg_,[]⟩).length < _
  unfold Class.serializeAsString
  split
  · rw [Class.internalSerialize_length hpb (RespondProto.lawful hpb)]
    omega
  · decide

/-- Any number of clients, whatever fails and however their io threads, the one of the server, the
thread of `main` and the workers interleave: what a client receives arrives from answers to
requests for a key that this client has sent, no two of them to the same request. -/
theorem clients_answered (hsize : ∀ info, (sv.libs.serializeAsString info).length < 2 ^ 32)
    (meets : Meets sv.deploymentStep Deployment.Allowed (.start now w) es)
    (run : exec sv.deploymentStep (.start now w) es = some s) (c : Nat) :
    ∃ answers : List (Nat × Message NetMsgType),
      (s.clients c).qMessagesIn = (delivered [] (answers.map Prod.snd)).map (fun m => ⟨none,m⟩) ∧
      (answers.map Prod.fst).Nodup ∧
      ∀ x ∈ answers, AnswersRequest sv
        (sv.past (.start now w) (es.filterMap DeploymentEvent.server?)) (sentByClient c es) x := by
  have hs := deploymentInv_run hsize meets run
  obtain ⟨bs,hmeets,hrun,-⟩ := hs.peers
  obtain ⟨-,⟨ms,hms,hqueue,-⟩,-⟩ := (Peers.peersInv_run hmeets hrun).inOrder c
  -- the sends whose messages have arrived
  obtain ⟨arrived,harrived,rfl⟩ : ∃ xs, xs <+: s.server.host.sentTo c ∧ ms = xs.map Sent.msg :=
    ⟨_,List.take_prefix ms.length _,by rw [List.map_take]; exact List.prefix_iff_eq_take.mp hms⟩
  obtain ⟨honce,hanswers⟩ := hs.answers harrived
  refine ⟨arrived.map fun x => (x.reply.getD 0,x.msg),?_,?_,?_⟩
  · rw [List.map_map]
    exact hqueue
  · rw [List.map_map]
    exact honce
  · intro y hy
    obtain ⟨x,hx,rfl⟩ := List.mem_map.mp hy
    exact hanswers x hx

def takenRequest : Message NetMsgType := ⟨⟨.kSeckeyAgree,1⟩,[7]⟩

def takenStore : World := oneKeyPb.ofstream (oneKeyPb.keyName takenRequest) [1] emptyStore

def takenSteps : List DeploymentEvent :=
  [.client 0 .connectDone, .server (.host (.accept true)),
    .client 0 (.readDone .validation (LittleEndian.ofUInt64 5)), .client 0 (.writeDone .validation),
    .client 0 (.sendTask takenRequest),
    .server (.host (.io 0 (.readDone .validation (LittleEndian.ofUInt64 (scramble 5))))),
    .server (.host (.io 0 (.readDone .header [0,0,0,0,1,0,0,0]))), .client 0 (.writeDone .header),
    .server (.host (.io 0 (.readDone (.body 1) [7]))), .server (.host (.update 1 true)),
    .server (.host .consumer), .server (.host .consumer), .server (.host .consumer),
    .server (.host .consumer), .server (.start ownRequest.random), .server (.work 0),
    .server (.work 0), .server (.work 0), .server (.host .task)]

theorem clients_answered_taken :
    ∃ s, exec oneKeyPb.deploymentStep (.start (fun _ => 5) takenStore)
      (takenSteps ++ [.client 0 (.readDone .header [3,0,0,0,0,0,0,0])]) = some s ∧
      (s.clients 0).qMessagesIn = [⟨none,failedMsg⟩] ∧
      ∃ answers : List (Nat × Message NetMsgType), (answers.map Prod.fst).Nodup ∧
        (s.clients 0).qMessagesIn = (delivered [] (answers.map Prod.snd)).map (fun m => ⟨none,m⟩) := by
  have hmeets : Meets oneKeyPb.deploymentStep Deployment.Allowed (.start (fun _ => 5) takenStore)
      (takenSteps ++ [.client 0 (.readDone .header [3,0,0,0,0,0,0,0])]) := by decide +kernel
  have hrun : (exec oneKeyPb.deploymentStep (.start (fun _ => 5) takenStore)
      (takenSteps ++ [.client 0 (.readDone .header [3,0,0,0,0,0,0,0])])).map
        (fun s => (s.clients 0).qMessagesIn.map fun m => (m.remote,m.msg)) =
      some [(none,failedMsg)] := by decide +kernel
  obtain ⟨s,run,hqueue⟩ := Option.map_eq_some_iff.mp hrun
  obtain ⟨⟨remote,msg⟩,hone,hlast⟩ := List.map_eq_singleton_iff.mp hqueue
  cases hlast
  obtain ⟨answers,hanswers,honce,-⟩ :=
    clients_answered (serializeAsString_lt wire_lawful _ _ _) hmeets run 0
  exact ⟨s,run,hone,answers,honce,hanswers⟩

end Runs

end Server

end TransmissionPlatform.Platform
