import TransmissionPlatform.Platform.Agreement
import TransmissionPlatform.Platform.Answers

/-!
The whole server against its two parts. A run of the server is a run of the network and its
queues, and on the files it is a run of the pool alone: what the clients, the network and the
sends do in between does not matter to a call. So what the pool keeps for the requests of its
calls, the server keeps for the requests of its clients.
-/

set_option autoImplicit false

namespace TransmissionPlatform.Platform
open PosixPath Net Program StepSystem

def Alike (w v : World) : Prop := v.files = w.files ∧ v.loggers = w.loggers

namespace Server
variable {K : Type} (sv : Server K)

section Alike
variable {sv} {w v : World}

theorem present_alike (h : Alike w v) (path : List UInt8) :
    sv.present path w = sv.present path v := by
  unfold present
  rw [h.1]

theorem myRSA_alike (path : List UInt8) (w v : World) (h : Alike w v) :
    sv.myRSA path w = sv.myRSA path v := by
  unfold myRSA
  rw [h.1]

theorem ofstream_alike (path data : List UInt8) (w v : World) (h : Alike w v) :
    Alike (sv.ofstream path data w) (sv.ofstream path data v) := by
  unfold ofstream
  cases sv.fileAt path with
  | none => exact h
  | some loc => exact ⟨congrArg (Function.update · loc (some data)) h.1,h.2⟩

theorem remove_alike (path : List UInt8) (w v : World) (h : Alike w v) :
    Alike (sv.remove path w) (sv.remove path v) := by
  unfold remove
  cases sv.tree.resolve path with
  | none => exact h
  | some loc => exact ⟨congrArg (Function.update · loc none) h.1,h.2⟩

theorem append_alike (loc : Location) (text : List UInt8) (h : Alike w v) :
    Alike (append loc text w) (append loc text v) := by
  refine ⟨?_,h.2⟩
  simp only [append, h.1]

theorem respects_exists (path : List UInt8) : Respects Alike (sv.exists_ path) := by
  intro w v h
  unfold exists_
  split
  · exact .error _ h
  · rw [present_alike h]
    exact .ok _ h

theorem respects_logWarn (text : String) : Respects Alike (sv.logWarn text) := by
  intro w v h
  unfold logWarn
  rw [h.2]
  cases sv.fileAt logPath with
  | none => exact .error _ h
  | some loc =>
    simp only
    split
    · exact .error _ (append_alike loc [] h)
    · exact .ok () ⟨(append_alike loc text.toUTF8.toList h).1,rfl⟩

theorem respects_send (client : Nat) (msg : Message NetMsgType) :
    Respects Alike (send client msg) :=
  respects_modify fun _ _ h => h

theorem respects_checkSign (name data sign_data : List UInt8) :
    Respects Alike (sv.checkSign name data sign_data) :=
  respects_get (f := fun rsa => MonadExcept.ofExcept (verify sv.libs rsa data sign_data))
    (myRSA_alike name) fun _ => respects_ofExcept _

theorem respects_respond (random : Random) (client : Nat) (info : RequestInfo)
    (name : List UInt8) : Respects Alike (sv.respond random client info name) := by
  refine respects_get (f := fun rsa => do
    let aes_seckey ← MonadExcept.ofExcept (encryptPubKey sv.libs rsa (getAESRandStr random kLen16))
    send client (reply (sv.libs.serializeAsString
      { client_id := info.client_id, server_id := sv.server_id_, data := aes_seckey
        seckey_id := 12 }))
    return true) (myRSA_alike name) fun rsa => ?_
  refine respects_bind (respects_ofExcept _) fun aes_seckey => ?_
  exact respects_bind (respects_send client _) fun _ => respects_pure true

theorem respects_callStep (sv : Server K) (r : Request) (phase : Phase K) :
    Respects Alike (sv.callStep r phase) := by
  cases phase with
  | started =>
    refine respects_bind (respects_exists _) fun taken => ?_
    cases taken <;> exact respects_pure _
  | nameTaken => exact respects_bind (respects_logWarn _) fun _ => respects_pure _
  | nameFree =>
    exact respects_bind (respects_modify (ofstream_alike _ _)) fun _ => respects_pure _
  | fileWritten =>
    refine respects_get (f := fun rsa => do
      if !(← sv.checkSign (sv.keyName r.msg) (hashFinal sv.libs (sv.request r.msg).data)
          (sv.request r.msg).sign) then
        return Phase.badSign
      return Phase.goodSign rsa) (myRSA_alike (sv.keyName r.msg)) fun rsa => ?_
    refine respects_bind (respects_checkSign _ _ _) fun good => ?_
    cases good <;> exact respects_pure _
  | badSign => exact respects_bind (respects_logWarn _) fun _ => respects_pure _
  | logged => exact respects_bind (respects_modify (remove_alike _)) fun _ => respects_pure _
  | goodSign verified =>
    refine respects_get (f := fun rsa => do
      let _ ← sv.respond r.random r.client (sv.request r.msg) (sv.keyName r.msg)
      return Phase.accepted verified rsa) (myRSA_alike (sv.keyName r.msg)) fun rsa => ?_
    exact respects_bind (respects_respond _ _ _ _) fun _ => respects_pure _
  | _ => exact respects_pure _

theorem advance_alike (sv : Server K) (r : Request) (phase : Phase K) (h : Alike w v) :
    (sv.advance r phase v).1 = (sv.advance r phase w).1 ∧
      Alike (sv.advance r phase w).2 (sv.advance r phase v).2 := by
  have hrun := respects_callStep sv r phase w v h
  cases hw : sv.callStep r phase w with
  | ok a w' =>
    cases hv : sv.callStep r phase v with
    | ok b v' =>
      rw [hw, hv] at hrun
      rw [advance_ok hw, advance_ok hv]
      cases hrun with
      | ok a after => exact ⟨rfl,after⟩
    | error e v' =>
      rw [hw, hv] at hrun
      cases hrun
  | error e w' =>
    cases hv : sv.callStep r phase v with
    | ok b v' =>
      rw [hw, hv] at hrun
      cases hrun
    | error e' v' =>
      rw [hw, hv] at hrun
      rw [advance_error hw, advance_error hv]
      cases hrun with
      | error e after => exact ⟨rfl,after⟩

end Alike

section Open
variable {h : Host NetMsgType}

def key (t : Net.Task NetMsgType) : Nat × Nat := (t.client,t.index)

theorem mem_repliesTo {x : Sent NetMsgType} {k : Nat} (hx : x ∈ h.sent) (hk : x.reply = some k) :
    k ∈ h.repliesTo x.client :=
  List.mem_filterMap.mpr ⟨x,List.mem_filter.mpr ⟨hx,by simp⟩,hk⟩

theorem mem_open {t : Net.Task NetMsgType} {tasks : List (Net.Task NetMsgType)} (ht : t ∈ tasks)
    (hopen : t.replied = false) : t.index ∈ Host.openRequests t.client tasks :=
  List.mem_map.mpr ⟨t,List.mem_filter.mpr ⟨ht,by simp [hopen]⟩,rfl⟩

theorem open_unanswered (hs : h.RequestInv) {t : Net.Task NetMsgType} (ht : t ∈ h.tasks)
    (hopen : t.replied = false) : t.index ∉ h.repliesTo t.client :=
  fun hreply => (List.nodup_append.mp (hs.once t.client)).2.2 _ hreply _ (mem_open ht hopen) rfl

theorem open_unique (hs : h.RequestInv) {i j : Nat} {t u : Net.Task NetMsgType}
    (ht : h.tasks[i]? = some t) (hu : h.tasks[j]? = some u) (hopen : t.replied = false)
    (hopen' : u.replied = false) (hkey : key t = key u) : i = j := by
  have hnodup : (Host.openRequests t.client h.tasks).Nodup := (hs.once t.client).of_append_right
  rw [Host.openRequests, List.Nodup, List.pairwise_map, List.pairwise_filter] at hnodup
  obtain ⟨hclient,hindex⟩ := Prod.mk.inj hkey
  obtain ⟨hi,rfl⟩ := List.getElem?_eq_some_iff.mp ht
  obtain ⟨hj,rfl⟩ := List.getElem?_eq_some_iff.mp hu
  have hpair := List.pairwise_iff_getElem.mp hnodup
  obtain hlt | heq | hgt := Nat.lt_trichotomy i j
  · exact absurd hindex (hpair i j hi hj hlt (by simp [hopen]) (by simp [hopen', hclient]))
  · exact heq
  · exact absurd hindex.symm (hpair j i hj hi hgt (by simp [hopen', hclient]) (by simp [hopen]))

theorem running_tasks {i : Nat} {t : Net.Task NetMsgType} (ht : h.running[i]? = some t) :
    h.tasks[i]? = some t := by
  obtain ⟨hlt,-⟩ := List.getElem?_eq_some_iff.mp ht
  rw [Host.tasks, List.getElem?_append_left hlt, ht]

end Open

/-- What the client of a call was sent for it. -/
inductive AnswerOf (sv : Server K) (call : Call K) (msg : Message NetMsgType) : Prop where
  | failed (phase : call.phase = .rejected) (failed : msg = failedMsg) : AnswerOf sv call msg
  | granted {verified encrypted : Option K} {aes_seckey : List UInt8}
      (phase : call.phase = .accepted verified encrypted)
      (encrypts : encryptPubKey sv.libs encrypted (getAESRandStr call.request.random kLen16) =
        .ok aes_seckey)
      (granted : msg = reply (sv.libs.serializeAsString (sv.respondInfo call.request.msg aes_seckey))) :
      AnswerOf sv call msg

/-- A run of the pool beside the server: the same files, and a call for each request that a worker
has taken. `origin` tells whose request, and which one of that client, a call is for. -/
structure Mirrors (sv : Server K) (s : Service K) (origin : List (Nat × Nat)) (p : Pool K) :
    Prop where
  alike : Alike s.world p.world
  origins : origin.length = p.calls.length
  once : origin.Nodup
  requested : ∀ (j c k : Nat) (call : Call K), origin[j]? = some (c,k) →
    p.calls[j]? = some call →
    call.request.client = c ∧ (s.host.requests c)[k]? = some ⟨some c,call.request.msg⟩
  atWork : ∀ (i : Nat) (t : Net.Task NetMsgType) (random : Random) (phase : Phase K),
    s.host.running[i]? = some t → s.workers[i]? = some (.agreeing random phase) →
    ∃ j : Nat, origin[j]? = some (key t) ∧ p.calls[j]? = some ⟨.ofTask random t,phase⟩
  placed : ∀ (j c k : Nat) (call : Call K), origin[j]? = some (c,k) → p.calls[j]? = some call →
    (call.phase.rank = 0 ∧ call.phase.isThrown = false ∧ k ∈ s.host.repliesTo c) ∨
    ∃ (i : Nat) (t : Net.Task NetMsgType) (random : Random), s.host.running[i]? = some t ∧
      s.workers[i]? = some (.agreeing random call.phase) ∧ key t = (c,k) ∧ t.replied = false
  answers : ∀ x ∈ s.host.sent, ∀ k, x.reply = some k →
    ∃ (j : Nat) (call : Call K), origin[j]? = some (x.client,k) ∧ p.calls[j]? = some call ∧
      AnswerOf sv call x.msg

section Mirrors
variable {sv} {start s : Service K} {es : List ServiceEvent} {origin : List (Nat × Nat)}
  {p : Pool K}

theorem Mirrors.origin_of (hm : Mirrors sv s origin p) {j : Nat} {call : Call K}
    (h : p.calls[j]? = some call) : ∃ c k, origin[j]? = some (c,k) := by
  obtain ⟨hlt,-⟩ := List.getElem?_eq_some_iff.mp h
  exact ⟨_,_,List.getElem?_eq_getElem (hm.origins ▸ hlt)⟩

theorem Mirrors.not_ended (hm : Mirrors sv s origin p) (hlive : s.ended = false) :
    p.ended = false := by
  rw [Pool.ended, List.any_eq_false]
  intro call hcall hthrown
  obtain ⟨j,hj⟩ := List.getElem?_of_mem hcall
  obtain ⟨c,k,horigin⟩ := hm.origin_of hj
  obtain ⟨-,hnot,-⟩ | ⟨i,t,random,-,hplace,-⟩ := hm.placed j c k call horigin hj
  · rw [hnot] at hthrown
    cases hthrown
  · rw [Service.ended, List.any_eq_false] at hlive
    exact hlive _ (List.mem_of_getElem? hplace) hthrown

theorem Mirrors.busy_le (hm : Mirrors sv s origin p) : p.busy ≤ s.host.running.length := by
  have hbusy : p.busy = ((origin.zip p.calls).filter fun x => x.2.phase.running).length := by
    have hsnd : (origin.zip p.calls).map Prod.snd = p.calls := List.map_snd_zip hm.origins.ge
    rw [Pool.busy, ← hsnd, List.countP_map, List.countP_eq_length_filter, hsnd]
    rfl
  have hsub : ((origin.zip p.calls).filter fun x => x.2.phase.running).map Prod.fst ⊆
      s.host.running.map key := by
    intro x hx
    obtain ⟨⟨⟨c,k⟩,call⟩,hmem,rfl⟩ := List.mem_map.mp hx
    obtain ⟨hzip,hrun⟩ := List.mem_filter.mp hmem
    obtain ⟨j,hj⟩ := List.getElem?_of_mem hzip
    obtain ⟨horigin,hcall⟩ := List.getElem?_zip_eq_some.mp hj
    obtain ⟨hrank,-,-⟩ | ⟨i,t,random,htask,-,hkey,-⟩ := hm.placed j c k call horigin hcall
    · exact absurd hrank (Nat.ne_of_gt (rank_pos hrun))
    · exact List.mem_map.mpr ⟨t,List.mem_of_getElem? htask,hkey⟩
  have hnodup : (((origin.zip p.calls).filter fun x => x.2.phase.running).map Prod.fst).Nodup := by
    refine List.Nodup.sublist (List.filter_sublist.map _) ?_
    rw [List.map_fst_zip hm.origins.le]
    exact hm.once
  have hle := (hnodup.subperm hsub).length_le
  simp only [List.length_map] at hle
  rwa [hbusy]

theorem getElem?_snoc_pair {A B : Type} {l : List A} {m : List B} {a a' : A} {b b' : B} {j : Nat}
    (hlen : l.length = m.length) (h : (l ++ [a])[j]? = some a') (h' : (m ++ [b])[j]? = some b') :
    (l[j]? = some a' ∧ m[j]? = some b') ∨ (j = l.length ∧ a' = a ∧ b' = b) := by
  obtain hlt | hge := Nat.lt_or_ge j l.length
  · rw [List.getElem?_append_left hlt] at h
    rw [List.getElem?_append_left (hlen ▸ hlt)] at h'
    exact .inl ⟨h,h'⟩
  · obtain ⟨hlt,-⟩ := List.getElem?_eq_some_iff.mp h
    rw [List.length_append, List.length_singleton] at hlt
    obtain rfl : j = l.length := by omega
    rw [List.getElem?_concat_length] at h
    rw [hlen, List.getElem?_concat_length] at h'
    exact .inr ⟨rfl,(Option.some.inj h).symm,(Option.some.inj h').symm⟩

theorem mirrors_host {hev : HostEvent NetMsgType} {host : Host NetMsgType}
    (hm : Mirrors sv s origin p) (hdispatch : DispatchInv s.host.net) (net : ofWorker hev = false)
    (moves : s.host.Moves hev host) : Mirrors sv { s with host := host } origin p := by
  obtain ⟨hrunning,-,⟨new,hsent,hnone⟩⟩ := untouched_moves moves net
  have hreplies := repliesTo_append rfl hsent hnone
  refine ⟨hm.alike,hm.origins,hm.once,?_,?_,?_,?_⟩
  · intro j c k call horigin hcall
    obtain ⟨hclient,hrequest⟩ := hm.requested j c k call horigin hcall
    exact ⟨hclient,getElem?_of_isPrefix (requests_grow hdispatch moves c) hrequest⟩
  · intro i t random phase htask hplace
    rw [hrunning] at htask
    exact hm.atWork i t random phase htask hplace
  · intro j c k call horigin hcall
    simp only [hrunning, hreplies]
    exact hm.placed j c k call horigin hcall
  · intro x hx k hk
    simp only [hsent] at hx
    obtain hx | hx := List.mem_append.mp hx
    · exact hm.answers x hx k hk
    · rw [hnone x hx] at hk
      cases hk

theorem Mirrors.fresh (hm : Mirrors sv s origin p) (hs : s.host.RequestInv)
    {t : Net.Task NetMsgType} {rest : List (Net.Task NetMsgType)} (head : s.host.queued = t :: rest)
    (hopen : t.replied = false) : key t ∉ origin := by
  have htask : s.host.tasks[s.host.running.length]? = some t := by
    rw [Host.tasks, List.getElem?_append_right (Nat.le_refl _), Nat.sub_self, head]
    rfl
  intro hmem
  obtain ⟨j,horigin⟩ := List.getElem?_of_mem hmem
  obtain ⟨hlt,-⟩ := List.getElem?_eq_some_iff.mp horigin
  obtain ⟨call,hcall⟩ : ∃ call, p.calls[j]? = some call :=
    ⟨_,List.getElem?_eq_getElem (hm.origins ▸ hlt)⟩
  obtain ⟨-,-,hreply⟩ | ⟨i,u,random,hu,-,hkey,hopen'⟩ := hm.placed j _ _ call horigin hcall
  · exact open_unanswered hs (List.mem_of_getElem? htask) hopen hreply
  · obtain rfl := open_unique hs (running_tasks hu) htask hopen' hopen hkey
    obtain ⟨hlt,-⟩ := List.getElem?_eq_some_iff.mp hu
    exact Nat.lt_irrefl _ hlt

section Start
variable {t : Net.Task NetMsgType} {rest : List (Net.Task NetMsgType)} {random : Random}
  (hm : Mirrors sv s origin p) (aligned : s.workers.length = s.host.running.length)
include hm aligned

theorem mirrors_startOther :
    Mirrors sv { s with host := { s.host with queued := rest, running := s.host.running ++ [t] }
                        workers := s.workers ++ [.other random] } origin p := by
  refine ⟨hm.alike,hm.origins,hm.once,hm.requested,?_,?_,hm.answers⟩
  · intro i u random' phase htask hplace
    obtain ⟨htask,hplace⟩ | ⟨-,-,hother⟩ := getElem?_snoc_pair aligned.symm htask hplace
    · exact hm.atWork i u random' phase htask hplace
    · cases hother
  · intro j c k call horigin hcall
    obtain hdone | ⟨i,u,random',htask,hplace,hu⟩ := hm.placed j c k call horigin hcall
    · exact .inl hdone
    · exact .inr ⟨i,u,random',getElem?_of_isPrefix (List.prefix_append _ _) htask,
        getElem?_of_isPrefix (List.prefix_append _ _) hplace,hu⟩

theorem mirrors_startAgree (hs : s.host.RequestInv) (head : s.host.queued = t :: rest)
    (hopen : t.replied = false) (agree : t.msg.header.id = .kSeckeyAgree) :
    Mirrors sv { s with host := { s.host with queued := rest, running := s.host.running ++ [t] }
                        workers := s.workers ++ [.agreeing random .started] }
      (origin ++ [key t]) ⟨p.world,p.calls ++ [⟨.ofTask random t,.started⟩]⟩ := by
  have hfresh := hm.fresh hs head hopen
  have htask : t ∈ s.host.tasks := by
    rw [Host.tasks, head]
    exact List.mem_append_right _ List.mem_cons_self
  refine ⟨hm.alike,by simp [hm.origins],?_,?_,?_,?_,?_⟩
  · exact List.nodup_append_comm.mp (List.nodup_cons.mpr ⟨hfresh,hm.once⟩)
  · intro j c k call horigin hcall
    obtain ⟨horigin,hcall⟩ | ⟨-,hkey,rfl⟩ := getElem?_snoc_pair hm.origins horigin hcall
    · exact hm.requested j c k call horigin hcall
    · cases hkey
      exact ⟨rfl,by rw [ofTask_msg agree]; exact hs.requested t htask⟩
  · intro i u random' phase htask hplace
    obtain ⟨htask,hplace⟩ | ⟨-,rfl,hbegun⟩ := getElem?_snoc_pair aligned.symm htask hplace
    · obtain ⟨j,horigin,hcall⟩ := hm.atWork i u random' phase htask hplace
      exact ⟨j,getElem?_of_isPrefix (List.prefix_append _ _) horigin,
        getElem?_of_isPrefix (List.prefix_append _ _) hcall⟩
    · cases hbegun
      refine ⟨origin.length,List.getElem?_concat_length,?_⟩
      rw [hm.origins]
      exact List.getElem?_concat_length
  · intro j c k call horigin hcall
    obtain ⟨horigin,hcall⟩ | ⟨-,hkey,rfl⟩ := getElem?_snoc_pair hm.origins horigin hcall
    · obtain hdone | ⟨i,u,random',htask,hplace,hu⟩ := hm.placed j c k call horigin hcall
      · exact .inl hdone
      · exact .inr ⟨i,u,random',getElem?_of_isPrefix (List.prefix_append _ _) htask,
          getElem?_of_isPrefix (List.prefix_append _ _) hplace,hu⟩
    · refine .inr ⟨s.host.running.length,t,random,List.getElem?_concat_length,?_,hkey.symm,hopen⟩
      rw [← aligned]
      exact List.getElem?_concat_length
  · intro x hx k hk
    obtain ⟨j,call,horigin,hcall,hanswer⟩ := hm.answers x hx k hk
    exact ⟨j,call,getElem?_of_isPrefix (List.prefix_append _ _) horigin,
      getElem?_of_isPrefix (List.prefix_append _ _) hcall,hanswer⟩

end Start

theorem getElem?_set_pair {A B : Type} {l : List A} {m : List B} {a a' : A} {b b' : B} {i j : Nat}
    (h : (l.set i a)[j]? = some a') (h' : (m.set i b)[j]? = some b') :
    (j = i ∧ a' = a ∧ b' = b) ∨ (j ≠ i ∧ l[j]? = some a' ∧ m[j]? = some b') := by
  obtain ⟨rfl,rfl⟩ | ⟨hne,h⟩ := getElem?_set_cases h
  · obtain ⟨-,rfl⟩ | ⟨hne,-⟩ := getElem?_set_cases h'
    · exact .inl ⟨rfl,rfl,rfl⟩
    · exact absurd rfl hne
  · obtain ⟨rfl,-⟩ | ⟨-,h'⟩ := getElem?_set_cases h'
    · exact absurd rfl hne
    · exact .inr ⟨hne,h,h'⟩

theorem getElem?_set_self_of {A : Type} {l : List A} {a b : A} {i : Nat} (h : l[i]? = some a) :
    (l.set i b)[i]? = some b := by
  obtain ⟨hlt,-⟩ := List.getElem?_eq_some_iff.mp h
  exact List.getElem?_set_self hlt

theorem repliesTo_mono {h h' : Host NetMsgType} {new : List (Sent NetMsgType)}
    (hsent : h'.sent = h.sent ++ new) {c k : Nat} (hk : k ∈ h.repliesTo c) : k ∈ h'.repliesTo c := by
  obtain ⟨x,hx,hreply⟩ := List.mem_filterMap.mp hk
  obtain ⟨hx,hc⟩ := List.mem_filter.mp hx
  refine List.mem_filterMap.mpr ⟨x,List.mem_filter.mpr ⟨?_,hc⟩,hreply⟩
  rw [hsent]
  exact List.mem_append_left _ hx

structure AtCall (s : Service K) (origin : List (Nat × Nat)) (p : Pool K) (i j : Nat)
    (t : Net.Task NetMsgType) (random : Random) (phase : Phase K) : Prop where
  task : s.host.running[i]? = some t
  place : s.workers[i]? = some (.agreeing random phase)
  origin : origin[j]? = some (key t)
  call : p.calls[j]? = some ⟨.ofTask random t,phase⟩
  unanswered : t.replied = false

section Worker
variable {i j : Nat} {t : Net.Task NetMsgType} {random : Random} {phase : Phase K}

theorem AtCall.answered_ne (hat : AtCall s origin p i j t random phase) (hs : s.host.RequestInv)
    {j' c k : Nat} (horigin : origin[j']? = some (c,k)) (hreply : k ∈ s.host.repliesTo c) :
    j' ≠ j := by
  rintro rfl
  cases hat.origin.symm.trans horigin
  exact open_unanswered hs (List.mem_of_getElem? (running_tasks hat.task)) hat.unanswered hreply

theorem AtCall.others_ne (hat : AtCall s origin p i j t random phase) (hs : ServiceInv sv start es s)
    {i' j' : Nat} {u : Net.Task NetMsgType} {random' : Random} {phase' : Phase K} (hne : i' ≠ i)
    (hu : s.host.running[i']? = some u) (hplace : s.workers[i']? = some (.agreeing random' phase'))
    (horigin : origin[j']? = some (key u))
    (hcall : p.calls[j']? = some ⟨.ofTask random' u,phase'⟩) : j' ≠ j := by
  rintro rfl
  have hkey : key u = key t := Option.some.inj (horigin.symm.trans hat.origin)
  have hphase : phase' = phase := congrArg Call.phase (Option.some.inj (hcall.symm.trans hat.call))
  have hopen : u.replied = false := by
    cases hs.workers i t _ hat.task hat.place with
    | agreeing _ _ replied _ =>
      cases hs.workers i' u _ hu hplace with
      | agreeing _ _ replied' _ => rw [replied', hphase, ← replied, hat.unanswered]
  exact hne (open_unique hs.replies.request (running_tasks hu) (running_tasks hat.task) hopen
    hat.unanswered hkey)

theorem AtCall.others_at (hat : AtCall s origin p i j t random phase) (hm : Mirrors sv s origin p)
    (hs : ServiceInv sv start es s) {i' : Nat} {u : Net.Task NetMsgType} {random' : Random}
    {phase' : Phase K} (hne : i' ≠ i) (hu : s.host.running[i']? = some u)
    (hplace : s.workers[i']? = some (.agreeing random' phase')) (call : Call K) :
    ∃ j' : Nat, origin[j']? = some (key u) ∧
      (p.calls.set j call)[j']? = some ⟨.ofTask random' u,phase'⟩ := by
  obtain ⟨j',horigin,hcall⟩ := hm.atWork i' u random' phase' hu hplace
  refine ⟨j',horigin,?_⟩
  rw [List.getElem?_set_ne (hat.others_ne hs hne hu hplace horigin hcall).symm]
  exact hcall

theorem AtCall.others_placed (hat : AtCall s origin p i j t random phase)
    (hm : Mirrors sv s origin p) {j' c k : Nat} {call : Call K} (hne : j' ≠ j)
    (horigin : origin[j']? = some (c,k)) (hcall : p.calls[j']? = some call) :
    (call.phase.rank = 0 ∧ call.phase.isThrown = false ∧ k ∈ s.host.repliesTo c) ∨
    ∃ (i' : Nat) (u : Net.Task NetMsgType) (random' : Random), i' ≠ i ∧
      s.host.running[i']? = some u ∧ s.workers[i']? = some (.agreeing random' call.phase) ∧
      key u = (c,k) ∧ u.replied = false := by
  obtain hdone | ⟨i',u,random',hu,hplace,hkey,hopen⟩ := hm.placed j' c k call horigin hcall
  · exact .inl hdone
  · refine .inr ⟨i',u,random',?_,hu,hplace,hkey,hopen⟩
    rintro rfl
    obtain rfl : t = u := Option.some.inj (hat.task.symm.trans hu)
    obtain ⟨hlt,hj⟩ := List.getElem?_eq_some_iff.mp hat.origin
    obtain ⟨hlt',hj'⟩ := List.getElem?_eq_some_iff.mp horigin
    exact hne ((hm.once.getElem_inj_iff).mp (hj'.trans (hkey.symm.trans hj.symm)))

theorem AtCall.others_requested (hat : AtCall s origin p i j t random phase)
    (hm : Mirrors sv s origin p) {phase' : Phase K} (j' c k : Nat) (call : Call K)
    (horigin : origin[j']? = some (c,k))
    (hcall : (p.calls.set j ⟨.ofTask random t,phase'⟩)[j']? = some call) :
    call.request.client = c ∧ (s.host.requests c)[k]? = some ⟨some c,call.request.msg⟩ := by
  obtain ⟨rfl,rfl⟩ | ⟨-,hcall⟩ := getElem?_set_cases hcall
  · exact hm.requested j' c k ⟨.ofTask random t,phase⟩ horigin hat.call
  · exact hm.requested j' c k call horigin hcall

theorem AtCall.others_answers (hat : AtCall s origin p i j t random phase)
    (hm : Mirrors sv s origin p) (hs : s.host.RequestInv) {x : Sent NetMsgType}
    (hx : x ∈ s.host.sent) {k : Nat} (hk : x.reply = some k) (call' : Call K) :
    ∃ (j' : Nat) (call : Call K), origin[j']? = some (x.client,k) ∧
      (p.calls.set j call')[j']? = some call ∧ AnswerOf sv call x.msg := by
  obtain ⟨j',call,horigin,hcall,hanswer⟩ := hm.answers x hx k hk
  have hne := hat.answered_ne hs horigin (mem_repliesTo hx hk)
  exact ⟨j',call,horigin,by rw [List.getElem?_set_ne hne.symm]; exact hcall,hanswer⟩

theorem mirrors_move (hat : AtCall s origin p i j t random phase) (hm : Mirrors sv s origin p)
    (hs : ServiceInv sv start es s) {phase' : Phase K} {w v : World} (alike : Alike w v) :
    Mirrors sv { s with world := w, workers := s.workers.set i (.agreeing random phase') } origin
      ⟨v,p.calls.set j ⟨.ofTask random t,phase'⟩⟩ := by
  refine ⟨alike,by simp [hm.origins],hm.once,hat.others_requested hm,?_,?_,fun x hx k hk =>
    hat.others_answers hm hs.replies.request hx hk _⟩
  · intro i' u random' phase'' hu hplace
    obtain ⟨rfl,hbecome⟩ | ⟨hne,hplace⟩ := getElem?_set_cases hplace
    · cases hbecome
      obtain rfl : t = u := Option.some.inj (hat.task.symm.trans hu)
      exact ⟨j,hat.origin,getElem?_set_self_of hat.call⟩
    · exact hat.others_at hm hs hne hu hplace _
  · intro j' c k call horigin hcall
    obtain ⟨rfl,rfl⟩ | ⟨hne,hcall⟩ := getElem?_set_cases hcall
    · have hkey : key t = (c,k) := Option.some.inj (hat.origin.symm.trans horigin)
      exact .inr ⟨i,t,random,hat.task,getElem?_set_self_of hat.place,hkey,hat.unanswered⟩
    · obtain hdone | ⟨i',u,random',hne',hu,hplace,hkey⟩ := hat.others_placed hm hne horigin hcall
      · exact .inl hdone
      · exact .inr ⟨i',u,random',hu,by rw [List.getElem?_set_ne hne'.symm]; exact hplace,hkey⟩

theorem mirrors_answer (hat : AtCall s origin p i j t random phase) (hm : Mirrors sv s origin p)
    (hs : ServiceInv sv start es s) {phase' : Phase K} {place' : Working K} {w v : World}
    {msg : Message NetMsgType} (alike : Alike w v)
    (place : place' = .returned ∨ place' = .agreeing random phase')
    (answer : AnswerOf sv ⟨.ofTask random t,phase'⟩ msg) (posted : List (Posted NetMsgType)) :
    Mirrors sv ⟨{ s.host with running := s.host.running.set i { t with replied := true }
                              posted := posted
                              sent := s.host.sent ++ [⟨t.client,msg,some t.index⟩] },
        w,s.workers.set i place'⟩ origin
      ⟨v,p.calls.set j ⟨.ofTask random t,phase'⟩⟩ := by
  have hdone : phase'.rank = 0 ∧ phase'.isThrown = false := by
    cases answer with
    | failed phase failed =>
      cases phase
      exact ⟨rfl,rfl⟩
    | granted phase encrypts granted =>
      cases phase
      exact ⟨rfl,rfl⟩
  refine ⟨alike,by simp [hm.origins],hm.once,hat.others_requested hm,?_,?_,?_⟩
  · intro i' u random' phase'' hu hplace
    obtain ⟨rfl,rfl,hbecome⟩ | ⟨hne,hu,hplace⟩ := getElem?_set_pair hu hplace
    · obtain rfl | rfl := place
      · cases hbecome
      · cases hbecome
        exact ⟨j,hat.origin,getElem?_set_self_of hat.call⟩
    · exact hat.others_at hm hs hne hu hplace _
  · intro j' c k call horigin hcall
    obtain ⟨rfl,rfl⟩ | ⟨hne,hcall⟩ := getElem?_set_cases hcall
    · cases hat.origin.symm.trans horigin
      exact .inl ⟨hdone.1,hdone.2,mem_repliesTo (x := ⟨t.client,msg,some t.index⟩)
        (List.mem_append_right _ (List.mem_singleton_self _)) rfl⟩
    · obtain ⟨hrank,hnot,hreply⟩ | ⟨i',u,random',hne',hu,hplace,hkey⟩ :=
        hat.others_placed hm hne horigin hcall
      · exact .inl ⟨hrank,hnot,repliesTo_mono rfl hreply⟩
      · refine .inr ⟨i',u,random',?_,?_,hkey⟩
        · rw [List.getElem?_set_ne hne'.symm]
          exact hu
        · rw [List.getElem?_set_ne hne'.symm]
          exact hplace
  · intro x hx k hk
    obtain hx | hx := List.mem_append.mp hx
    · exact hat.others_answers hm hs.replies.request hx hk _
    · obtain rfl := List.mem_singleton.mp hx
      cases hk
      exact ⟨j,_,hat.origin,getElem?_set_self_of hat.call,answer⟩

end Worker

theorem mirrors_leave {i : Nat} {t : Net.Task NetMsgType} {place : Working K}
    (hm : Mirrors sv s origin p) (htask : s.host.running[i]? = some t)
    (hplace : s.workers[i]? = some place)
    (hdone : ∀ random phase, place = .agreeing random phase → t.replied = true) :
    Mirrors sv { s with workers := s.workers.set i .returned } origin p := by
  refine ⟨hm.alike,hm.origins,hm.once,hm.requested,?_,?_,hm.answers⟩
  · intro i' u random phase hu hplace'
    obtain ⟨-,hat⟩ | ⟨-,hplace'⟩ := getElem?_set_cases hplace'
    · cases hat
    · exact hm.atWork i' u random phase hu hplace'
  · intro j c k call horigin hcall
    obtain hdone' | ⟨i',u,random,hu,hplace',hkey,hopen⟩ := hm.placed j c k call horigin hcall
    · exact .inl hdone'
    · refine .inr ⟨i',u,random,hu,?_,hkey,hopen⟩
      have hne : i ≠ i' := by
        rintro rfl
        obtain rfl : t = u := Option.some.inj (htask.symm.trans hu)
        rw [hdone random call.phase (Option.some.inj (hplace.symm.trans hplace'))] at hopen
        cases hopen
      rw [List.getElem?_set_ne hne]
      exact hplace'

theorem getElem?_eraseIdx_of_ne {A : Type} {l : List A} {i j : Nat} {a : A} (h : l[j]? = some a)
    (hne : j ≠ i) : (l.eraseIdx i)[if j < i then j else j - 1]? = some a := by
  split
  · rename_i hlt
    rwa [List.getElem?_eraseIdx_of_lt hlt]
  · rename_i hge
    rw [List.getElem?_eraseIdx_of_ge (by omega), Nat.sub_add_cancel (by omega)]
    exact h

theorem mirrors_finish {i : Nat} (hm : Mirrors sv s origin p)
    (hreturned : s.workers[i]? = some .returned) :
    Mirrors sv { s with host := { s.host with running := s.host.running.eraseIdx i }
                        workers := s.workers.eraseIdx i } origin p := by
  refine ⟨hm.alike,hm.origins,hm.once,hm.requested,?_,?_,hm.answers⟩
  · intro i' u random phase hu hplace'
    rw [List.getElem?_eraseIdx] at hu hplace'
    split at hu <;> exact hm.atWork _ u random phase hu (by simpa [*] using hplace')
  · intro j c k call horigin hcall
    obtain hdone | ⟨i',u,random,hu,hplace',hkey⟩ := hm.placed j c k call horigin hcall
    · exact .inl hdone
    · have hne : i' ≠ i := by
        rintro rfl
        rw [hreturned] at hplace'
        cases hplace'
      exact .inr ⟨_,u,random,getElem?_eraseIdx_of_ne hu hne,getElem?_eraseIdx_of_ne hplace' hne,hkey⟩

/-- A write of a key file in this step creates the file, and not the log file. -/
def serviceCreates (sv : Server K) (s : Service K) : ServiceEvent → Bool
  | .work i =>
    match s.host.running[i]?, s.workers[i]? with
    | some t, some (.agreeing _ .nameFree) =>
      match sv.fileAt (sv.keyName t.msg) with
      | none => false
      | some loc => (s.world.files loc).isNone && sv.fileAt logPath != some loc
    | _, _ => true
  | _ => true

theorem creates_atCall {i j : Nat} {t : Net.Task NetMsgType} {random : Random} {phase : Phase K}
    (hat : AtCall s origin p i j t random phase) (hm : Mirrors sv s origin p) :
    sv.creates p (.step j) = sv.serviceCreates s (.work i) := by
  simp only [creates, serviceCreates, hat.call, hat.task, hat.place]
  cases phase with
  | nameFree =>
    rw [hm.alike.1]
    rfl
  | _ => rfl

theorem poolStep_running (sv : Server K) {j : Nat} {r : Request} {phase : Phase K} (hlive : p.ended = false)
    (hcall : p.calls[j]? = some ⟨r,phase⟩) (running : phase.running = true) :
    sv.poolStep p (.step j) = some ⟨(sv.advance r phase p.world).2,
      p.calls.set j ⟨r,(sv.advance r phase p.world).1⟩⟩ := by
  simp [poolStep, hcall, hlive, running]

theorem pool_begins (r : Request) (hlive : p.ended = false) (hfree : p.busy < Pool.workers) :
    exec sv.poolStep p [.post r,.start p.calls.length] =
      some ⟨p.world,p.calls ++ [⟨r,.started⟩]⟩ := by
  have hcall : (p.calls ++ [(⟨r,.queued⟩ : Call K)])[p.calls.length]? = some ⟨r,.queued⟩ :=
    List.getElem?_concat_length
  have hset : (p.calls ++ [(⟨r,.queued⟩ : Call K)]).set p.calls.length ⟨r,.started⟩ =
      p.calls ++ [⟨r,.started⟩] := by simp
  have hlive' : Pool.ended { p with calls := p.calls ++ [⟨r,.queued⟩] } = false := by
    rw [Pool.ended, List.any_append]
    exact Bool.or_eq_false_iff.mpr ⟨hlive,rfl⟩
  have hfree' : Pool.busy { p with calls := p.calls ++ [⟨r,.queued⟩] } < Pool.workers := by
    rw [Pool.busy] at hfree ⊢
    simpa [Phase.running] using hfree
  simp only [exec_cons, exec_nil, poolStep, hlive, Bool.false_eq_true, if_false, Option.bind_some,
    hcall, hlive', Nat.not_le.mpr hfree', or_self, hset]

section Step
variable {s' : Service K} {i : Nat}

theorem mirrors_work (hm : Mirrors sv s origin p) (hs : ServiceInv sv start es s)
    (hlive : s.ended = false) (h : sv.workerStep s i = some s') :
    ∃ ps p', exec sv.poolStep p ps = some p' ∧ Mirrors sv s' origin p' ∧
      (sv.serviceCreates s (.work i) = true →
        Meets sv.poolStep (fun p e => sv.creates p e = true) p ps) := by
  obtain ⟨t,place,place',w,htask,hplace,hstep,hcase⟩ := workerStep_cases h
  have hworker := hs.workers i t place htask hplace
  have hother : ∀ random, place = .other random → t.msg.header.id ≠ .kSeckeyAgree := by
    rintro random rfl
    cases hworker with
    | other other _ => exact other
  cases workMoves_step sv hother hstep with
  | other random =>
    rw [List.drop_length] at hcase
    obtain ⟨-,rfl⟩ | ⟨c,msg,more,hdrop,-⟩ := hcase
    · exact ⟨[],p,rfl,mirrors_leave hm htask hplace (by simp),fun _ => trivial⟩
    · cases hdrop
  | accepted random verified encrypted =>
    rw [List.drop_length] at hcase
    obtain ⟨-,rfl⟩ | ⟨c,msg,more,hdrop,-⟩ := hcase
    · refine ⟨[],p,rfl,mirrors_leave hm htask hplace fun random' phase hphase => ?_,fun _ => trivial⟩
      cases hworker with
      | agreeing agree begun replied good => exact replied
    · cases hdrop
  | failed random =>
    rw [List.drop_left] at hcase
    obtain ⟨hnone,-⟩ | ⟨c,msg,more,hdrop,hopen,rfl⟩ := hcase
    · cases hnone
    · cases hdrop
      obtain ⟨j,horigin,hcall⟩ := hm.atWork i t random .rejected htask hplace
      have hat : AtCall s origin p i j t random .rejected := ⟨htask,hplace,horigin,hcall,hopen⟩
      have hsame : p.calls.set j ⟨.ofTask random t,.rejected⟩ = p.calls := by
        obtain ⟨hlt,heq⟩ := List.getElem?_eq_some_iff.mp hcall
        rw [← heq]
        exact List.set_getElem_self hlt
      have hfailed : AnswerOf sv ⟨.ofTask random t,.rejected⟩ failedMsg := .failed rfl rfl
      have hmirrors := mirrors_answer hat hm hs
        (w := { s.world with sent := s.world.sent ++ [(t.client,failedMsg)] }) hm.alike (.inl rfl)
        hfailed (s.host.posted ++ [.send t.client failedMsg])
      rw [hsame] at hmirrors
      exact ⟨[],p,rfl,hmirrors,fun _ => trivial⟩
  | @agree random phase phase' w' running sends =>
    obtain ⟨j,horigin,hcall⟩ := hm.atWork i t random phase htask hplace
    have hopen : t.replied = false := by
      cases hworker with
      | agreeing agree begun replied good =>
        rw [replied]
        cases phase <;> first | rfl | simp [Phase.running] at running
    have hat : AtCall s origin p i j t random phase := ⟨htask,hplace,horigin,hcall,hopen⟩
    -- the pool takes the same step
    rw [sv.workStep_running running] at hstep
    obtain ⟨hplace',hworld⟩ := Prod.mk.inj (Option.some.inj hstep)
    have hphase : (sv.advance (.ofTask random t) phase s.world).1 = phase' := by
      injection hplace'
    obtain ⟨hsame,halike⟩ := advance_alike sv (.ofTask random t) phase hm.alike
    rw [hphase] at hsame
    rw [hworld] at halike
    have hpool := poolStep_running sv (hm.not_ended hlive) hcall running
    rw [hsame] at hpool
    refine ⟨[.step j],_,by rw [exec_cons, hpool]; rfl,?_,fun hcreates => ?_⟩
    · cases sends with
      | none same lower open_ good =>
        rw [same, List.drop_length] at hcase
        obtain ⟨-,rfl⟩ | ⟨c,msg,more,hdrop,-⟩ := hcase
        · exact mirrors_move hat hm hs halike
        · cases hdrop
      | reply encrypted sent =>
        rw [sent, List.drop_left] at hcase
        obtain ⟨hnone,-⟩ | ⟨c,msg,more,hdrop,-,rfl⟩ := hcase
        · cases hnone
        · cases hdrop
          exact mirrors_answer hat hm hs halike (.inr rfl) (.granted rfl encrypted rfl) _
    · exact meets_cons.mpr ⟨(creates_atCall hat hm).trans hcreates,fun _ _ => trivial⟩

theorem mirrors_step {ev : ServiceEvent} (hm : Mirrors sv s origin p) (hs : ServiceInv sv start es s)
    (h : sv.serviceStep s ev = some s') :
    ∃ ps origin' p', exec sv.poolStep p ps = some p' ∧ Mirrors sv s' origin' p' ∧
      (sv.serviceCreates s ev = true →
        Meets sv.poolStep (fun p e => sv.creates p e = true) p ps) := by
  have hlive : s.ended = false := by
    cases hended : s.ended with
    | false => rfl
    | true => simp [serviceStep, hended] at h
  obtain ⟨hev,host,-,net,moves,rfl⟩ | ⟨random,t,rest,-,head,hfree,rfl⟩ |
    ⟨i,rfl,hwork⟩ | ⟨i,-,hreturned,rfl⟩ := serviceStep_cases h
  · exact ⟨[],origin,p,rfl,mirrors_host hm hs.replies.dispatch net moves,fun _ => trivial⟩
  · unfold beginWork
    split
    · rename_i agree
      have hopen : t.replied = false := hs.queued t (by rw [head]; exact List.mem_cons_self)
      have hbusy : p.busy < Pool.workers := Nat.lt_of_le_of_lt hm.busy_le hfree
      refine ⟨_,_,_,pool_begins (.ofTask random t) (hm.not_ended hlive) hbusy,
        mirrors_startAgree hm hs.aligned hs.replies.request head hopen agree,fun _ => ?_⟩
      exact meets_cons.mpr ⟨rfl,fun _ _ => meets_cons.mpr ⟨rfl,fun _ _ => trivial⟩⟩
    · exact ⟨[],origin,p,rfl,mirrors_startOther hm hs.aligned,fun _ => trivial⟩
  · obtain ⟨ps,p',hrun,hmirrors,hcreates⟩ := mirrors_work hm hs hlive hwork
    exact ⟨ps,origin,p',hrun,hmirrors,hcreates⟩
  · exact ⟨[],origin,p,rfl,mirrors_finish hm hreturned,fun _ => trivial⟩

end Step

theorem mirrors_start (now : Nat → UInt64) (w : World) :
    Mirrors sv (.start now w) [] (⟨w,[]⟩ : Pool K) := by
  refine ⟨⟨rfl,rfl⟩,rfl,List.nodup_nil,?_,?_,?_,?_⟩
  · intro j c k call horigin
    cases horigin
  · intro i t random phase htask
    cases htask
  · intro j c k call horigin
    cases horigin
  · intro x hx
    cases hx

end Mirrors

def network : ServiceEvent → Option (HostEvent NetMsgType)
  | .host ev => some ev
  | _ => none

/-- A step of the server is at most one step of the host: the one of the network, or one that a
worker brings about. -/
theorem hostStep_service {sv : Server K} {s s' : Service K} {ev : ServiceEvent}
    (h : sv.serviceStep s ev = some s') :
    (network ev = none ∧ s'.host = s.host) ∨
    ∃ hev, s.host.step hev = some s'.host ∧
      (if ofWorker hev then network ev = none else network ev = some hev) := by
  unfold serviceStep at h
  split at h
  · cases h
  · cases ev with
    | host hev =>
      simp only at h
      split at h
      · cases h
      · rename_i net
        obtain ⟨host,hhost,rfl⟩ := Option.map_eq_some_iff.mp h
        exact .inr ⟨hev,hhost,by rw [if_neg net]; rfl⟩
    | start random =>
      simp only at h
      split at h
      · cases h
      · obtain ⟨host,hhost,rfl⟩ := Option.map_eq_some_iff.mp h
        exact .inr ⟨.workerStart,hhost,rfl⟩
    | work i =>
      simp only [workerStep] at h
      split at h
      · split at h
        · cases h
        · split at h
          · cases h
            exact .inl ⟨rfl,rfl⟩
          · rename_i msg more hsent
            obtain ⟨host,hhost,rfl⟩ := Option.map_eq_some_iff.mp h
            exact .inr ⟨.workerSend i msg,hhost,rfl⟩
      · cases h
    | finish i =>
      simp only at h
      split at h
      · obtain ⟨host,hhost,rfl⟩ := Option.map_eq_some_iff.mp h
        exact .inr ⟨.workerEnd i,hhost,rfl⟩
      · cases h

section Runs
variable {sv : Server K} {now : Nat → UInt64} {w : World} {es : List ServiceEvent} {s : Service K}

theorem mirrors_run (C : Service K → ServiceEvent → Prop) (C' : Pool K → PoolEvent → Prop)
    (hC : ∀ s ev p ps, C s ev → (sv.serviceCreates s ev = true →
      Meets sv.poolStep (fun p e => sv.creates p e = true) p ps) → Meets sv.poolStep C' p ps)
    (meets : Meets sv.serviceStep C (.start now w) es)
    (run : exec sv.serviceStep (.start now w) es = some s) :
    ∃ ps p, Meets sv.poolStep C' ⟨w,[]⟩ ps ∧ exec sv.poolStep ⟨w,[]⟩ ps = some p ∧
      ∃ origin, Mirrors sv s origin p := by
  refine exec_simulate (I := fun _ _ s p => ∃ origin, Mirrors sv s origin p)
    ⟨[],mirrors_start now w⟩ ?_ meets run
  rintro es ps s p ev s' hrun ⟨origin,hm⟩ hc hstep
  obtain ⟨more,origin',p',hexec,hm',hcreates⟩ := mirrors_step hm (serviceInv_run hrun) hstep
  exact ⟨more,p',hC s ev p more hc hcreates,hexec,origin',hm'⟩

/-- Beside every run of the server there is one of the pool. -/
theorem pool_beside (run : exec sv.serviceStep (.start now w) es = some s) :
    ∃ ps p origin, exec sv.poolStep ⟨w,[]⟩ ps = some p ∧ Mirrors sv s origin p := by
  obtain ⟨ps,p,-,hrun,origin,hm⟩ := mirrors_run (fun _ _ => True) (fun _ _ => True)
    (fun _ _ _ _ _ _ => meets_true _ _) (meets_true _ es) run
  exact ⟨ps,p,origin,hrun,hm⟩

/-- Every run of the whole server is a run of the network and its queues, with the same steps of
the network in the same order, and beside it there is a run of the pool alone, with the same key
files, in which every request at a worker is a call at the same place, and every answer that was
sent is the outcome of the call for its request. -/
theorem service_refines (run : exec sv.serviceStep (.start now w) es = some s) :
    (∃ hs, exec Host.step (.start now) hs = some s.host ∧
      (hs.filter fun ev => !ofWorker ev) = es.filterMap network) ∧
    ∃ ps p origin, exec sv.poolStep ⟨w,[]⟩ ps = some p ∧ Mirrors sv s origin p := by
  constructor
  · have hhost : ∃ hs h, Meets Host.step (fun _ _ => True) (.start now) hs ∧
        exec Host.step (.start now) hs = some h ∧ h = s.host ∧
        (hs.filter fun ev => !ofWorker ev) = es.filterMap network := by
      refine exec_simulate (I := fun es hs s h => h = s.host ∧
        (hs.filter fun ev => !ofWorker ev) = es.filterMap network) ⟨rfl,rfl⟩ ?_
        (meets_true (Service.start now w) es) run
      rintro es hs s h ev s' - ⟨rfl,hnet⟩ - hstep
      obtain ⟨hnone,hsame⟩ | ⟨hev,hhost,hkind⟩ := hostStep_service hstep
      · refine ⟨[],s.host,meets_true _ _,rfl,hsame.symm,?_⟩
        rw [List.append_nil, hnet, List.filterMap_append, List.filterMap_cons, hnone]
        exact (List.append_nil _).symm
      · refine ⟨[hev],s'.host,meets_true _ _,by simp [hhost],rfl,?_⟩
        rw [List.filter_append, List.filterMap_append, hnet, List.filterMap_cons]
        split at hkind <;> rename_i hworker <;> simp [hkind, hworker]
    obtain ⟨hs,-,-,hrun,rfl,hnet⟩ := hhost
    exact ⟨hs,hrun,hnet⟩
  · exact pool_beside run

theorem service_refines_oneClient :
    ∃ s, exec oneKey.serviceStep (.start (fun _ => 5) emptyStore)
      (requestSteps ++ [.work 0,.work 0,.work 0,.work 0]) = some s ∧
      ∃ ps p origin, exec oneKey.poolStep ⟨emptyStore,[]⟩ ps = some p ∧
        Mirrors oneKey s origin p := by
  have hrun : (exec oneKey.serviceStep (.start (fun _ => 5) emptyStore)
      (requestSteps ++ [.work 0,.work 0,.work 0,.work 0])).isSome = true := by decide +kernel
  obtain ⟨s,run⟩ := Option.isSome_iff_exists.mp hrun
  exact ⟨s,run,(service_refines run).2⟩

/-- The message grants the request `m`: the key file of its name holds its data, its signature
verified under the key in this data, and the message carries an AES key under the same key. -/
def Grants (sv : Server K) (w : World) (m msg : Message NetMsgType) : Prop :=
  ∃ (loc : Location) (random : Random) (aes_seckey : List UInt8),
    sv.fileAt (sv.keyName m) = some loc ∧ w.files loc = some (sv.request m).data ∧
    sv.checked m (sv.libs.pem_read_bio_RSAPublicKey (sv.request m).data) = .ok true ∧
    encryptPubKey sv.libs (sv.libs.pem_read_bio_RSAPublicKey (sv.request m).data)
      (getAESRandStr random kLen16) = .ok aes_seckey ∧
    msg = reply (sv.libs.serializeAsString (sv.respondInfo m aes_seckey))

theorem grants_accepted {p : Pool K} (inv : sv.Registered p) (alike : Alike s.world p.world) {j : Nat}
    {call : Call K} (hcall : p.calls[j]? = some call) {msg : Message NetMsgType}
    (h : AnswerOf sv call msg) :
    msg = failedMsg ∨ (call.phase.isAccepted = true ∧ sv.Grants s.world call.request.msg msg) := by
  obtain ⟨r,phase⟩ := call
  cases h with
  | failed _ failed => exact .inl failed
  | granted hphase encrypts granted =>
    cases hphase
    obtain ⟨loc,hloc,-,hdata⟩ := inv.content j _ hcall rfl
    obtain ⟨hverified,good,hencrypted⟩ := inv.keys j _ hcall
    rw [alike.1] at hdata
    rw [hencrypted, hverified] at encrypts
    rw [hverified] at good
    exact .inr ⟨rfl,loc,r.random,_,hloc,hdata,good,encrypts,granted⟩

theorem granted_apart {origin : List (Nat × Nat)} {p : Pool K} (inv : sv.Registered p)
    (hm : Mirrors sv s origin p) {x y : Sent NetMsgType} (hx : x ∈ s.host.sent)
    (hy : y ∈ s.host.sent) {k l : Nat} {m m' : Message NetMsgType} (hk : x.reply = some k)
    (hl : y.reply = some l) (hreq : (s.host.requests x.client)[k]? = some ⟨some x.client,m⟩)
    (hreq' : (s.host.requests y.client)[l]? = some ⟨some y.client,m'⟩)
    (hgranted : x.msg ≠ failedMsg) (hgranted' : y.msg ≠ failedMsg)
    (hid : (sv.request m).client_id = (sv.request m').client_id) : x.client = y.client ∧ k = l := by
  obtain ⟨i,call,horigin,hcall,hanswer⟩ := hm.answers x hx k hk
  obtain ⟨j,call',horigin',hcall',hanswer'⟩ := hm.answers y hy l hl
  obtain ⟨-,hrequest⟩ := hm.requested i _ _ call horigin hcall
  obtain ⟨-,hrequest'⟩ := hm.requested j _ _ call' horigin' hcall'
  cases hreq.symm.trans hrequest
  cases hreq'.symm.trans hrequest'
  obtain hfailed | ⟨haccepted,-⟩ := grants_accepted inv hm.alike hcall hanswer
  · exact absurd hfailed hgranted
  · obtain hfailed | ⟨haccepted',-⟩ := grants_accepted inv hm.alike hcall' hanswer'
    · exact absurd hfailed hgranted'
    · -- two accepted calls of one name are the same call
      have hsame : i = j := by
        refine inv.apart i j call call' hcall hcall' (holdsFile_of_isAccepted haccepted)
          (holdsFile_of_isAccepted haccepted') ?_
        rw [keyName, keyName, hid]
      subst hsame
      exact Prod.mk.inj (Option.some.inj (horigin.symm.trans horigin'))

/-- As long as every write of a key file creates the file, whatever the network and the other
clients do: an answer turns its request down or grants it for the key in the request's own data,
and the key file holds this data ever after; and no two requests with one client id are granted. -/
theorem grants_kept
    (meets : Meets sv.serviceStep (fun s ev => sv.serviceCreates s ev = true) (.start now w) es)
    (run : exec sv.serviceStep (.start now w) es = some s) :
    (∀ x ∈ s.host.sent, ∀ k, x.reply = some k →
      ∃ m, (s.host.requests x.client)[k]? = some ⟨some x.client,m⟩ ∧
        (x.msg = failedMsg ∨ sv.Grants s.world m x.msg)) ∧
    ∀ x ∈ s.host.sent, ∀ y ∈ s.host.sent, ∀ k l m m', x.reply = some k → y.reply = some l →
      (s.host.requests x.client)[k]? = some ⟨some x.client,m⟩ →
      (s.host.requests y.client)[l]? = some ⟨some y.client,m'⟩ →
      x.msg ≠ failedMsg → y.msg ≠ failedMsg →
      (sv.request m).client_id = (sv.request m').client_id → x.client = y.client ∧ k = l := by
  obtain ⟨ps,p,hmeets,hrun,origin,hm⟩ := mirrors_run
    (fun s ev => sv.serviceCreates s ev = true) (fun p e => sv.creates p e = true)
    (fun _ _ _ _ hc h => h hc) meets run
  have inv := registered_run hmeets hrun
  refine ⟨fun x hx k hk => ?_,fun x hx y hy k l m m' hk hl hreq hreq' hgranted hgranted' hid =>
    granted_apart inv hm hx hy hk hl hreq hreq' hgranted hgranted' hid⟩
  obtain ⟨j,call,horigin,hcall,hanswer⟩ := hm.answers x hx k hk
  obtain ⟨-,hrequest⟩ := hm.requested j _ _ call horigin hcall
  exact ⟨_,hrequest,(grants_accepted inv hm.alike hcall hanswer).imp_right And.right⟩

theorem grants_kept_oneClient :
    ∃ s, exec oneKey.serviceStep (.start (fun _ => 5) emptyStore)
      (requestSteps ++ [.work 0,.work 0,.work 0,.work 0]) = some s ∧
      ∃ msg, s.host.sent = [⟨0,msg,some 0⟩] ∧ oneKey.Grants s.world ownRequest.msg msg := by
  have hmeets : Meets oneKey.serviceStep (fun s ev => oneKey.serviceCreates s ev = true)
      (.start (fun _ => 5) emptyStore) (requestSteps ++ [.work 0,.work 0,.work 0,.work 0]) := by
    decide +kernel
  have hrun : (exec oneKey.serviceStep (.start (fun _ => 5) emptyStore)
      (requestSteps ++ [.work 0,.work 0,.work 0,.work 0])).map
        (fun s => (s.host.sent.map fun x => (x.client,x.reply,x.msg.header.id),s.host.requests 0)) =
      some ([(0,some 0,.kSeckeyAgree)],[⟨some 0,ownRequest.msg⟩]) := by decide +kernel
  obtain ⟨s,run,hs⟩ := Option.map_eq_some_iff.mp hrun
  obtain ⟨hsent,hrequests⟩ := Prod.mk.inj hs
  obtain ⟨⟨c,msg,r⟩,hx,hlast⟩ := List.map_eq_singleton_iff.mp hsent
  obtain ⟨rfl,hlast⟩ := Prod.mk.inj hlast
  obtain ⟨rfl,hkind⟩ := Prod.mk.inj hlast
  obtain ⟨m,hm,hanswer⟩ := (grants_kept hmeets run).1 _ (by rw [hx]; exact List.mem_singleton_self _)
    0 rfl
  rw [hrequests] at hm
  cases hm
  refine ⟨s,run,msg,hx,hanswer.resolve_left fun hfailed => ?_⟩
  rw [hfailed] at hkind
  exact absurd hkind (by decide)

end Runs

end Server

end TransmissionPlatform.Platform
