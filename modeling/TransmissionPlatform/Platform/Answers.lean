import TransmissionPlatform.Platform.Registration
import TransmissionPlatform.Platform.Service

/-!
What the clients of the whole server get for their requests, in every interleaving of the
network with the workers: a request for a key is answered once, and no other message is; an
answer that grants a key was given for a signature that verified.
-/

set_option autoImplicit false

namespace TransmissionPlatform.Platform
open PosixPath Net Program StepSystem

section Host
variable {h h' : Host NetMsgType}

def Accounted (h : Host NetMsgType) : Prop :=
  ∀ c k m, (h.requests c)[k]? = some ⟨some c,m⟩ → m.header.id = .kSeckeyAgree →
    k ∈ h.repliesTo c ∨ ∃ t ∈ h.tasks, t.client = c ∧ t.index = k ∧ t.replied = false

def Settled (h : Host NetMsgType) : Prop :=
  h.tasks = [] ∧ ∀ c k m, (h.requests c)[k]? = some ⟨some c,m⟩ → m.header.id = .kSeckeyAgree →
    k ∈ h.repliesTo c

theorem Accounted.settled (hs : Accounted h) (hidle : h.tasks = []) : Settled h := by
  refine ⟨hidle,fun c k m hk hid => ?_⟩
  obtain hreply | ⟨t,ht,-⟩ := hs c k m hk hid
  · exact hreply
  · rw [hidle] at ht
    cases ht

def Sound (answers : Message NetMsgType → Message NetMsgType → Prop) (h : Host NetMsgType) :
    Prop :=
  ∀ x ∈ h.sent, ∀ k, x.reply = some k → ∃ m, (h.requests x.client)[k]? = some ⟨some x.client,m⟩ ∧
    m.header.id = .kSeckeyAgree ∧ answers m x.msg

theorem Sound.mono {answers answers' : Message NetMsgType → Message NetMsgType → Prop}
    (hs : Sound answers h)
    (hmono : ∀ m msg, answers m msg → answers' m msg) : Sound answers' h := by
  intro x hx k hk
  obtain ⟨m,hm,hid,hanswer⟩ := hs x hx k hk
  exact ⟨m,hm,hid,hmono m x.msg hanswer⟩

structure Untouched (h h' : Host NetMsgType) : Prop where
  running : h'.running = h.running
  queued : ∃ new, h'.queued = h.queued ++ new ∧ ∀ t ∈ new, t.replied = false
  sent : ∃ new, h'.sent = h.sent ++ new ∧ ∀ x ∈ new, x.reply = none

theorem untouched_moves {ev : HostEvent NetMsgType} (m : h.Moves ev h')
    (hev : ofWorker ev = false) : Untouched h h' := by
  have hnone : ∃ new : List (Sent NetMsgType), h.sent = h.sent ++ new ∧ ∀ x ∈ new, x.reply = none :=
    ⟨[],(List.append_nil _).symm,by simp⟩
  have hsame : ∃ new, h.queued = h.queued ++ new ∧ ∀ t ∈ new, t.replied = false :=
    ⟨[],(List.append_nil _).symm,by simp⟩
  cases m with
  | accept approved => cases approved <;> exact ⟨rfl,hsame,hnone⟩
  | io completion step => exact ⟨rfl,hsame,hnone⟩
  | task head step => exact ⟨rfl,hsame,hnone⟩
  | update step => exact ⟨rfl,hsame,hnone⟩
  | consumer step =>
    refine ⟨rfl,⟨h.onMessage,rfl,fun t ht => ?_⟩,hnone⟩
    obtain ⟨c,msg,-,htask⟩ | ⟨hempty,-⟩ := h.onMessage_cases
    · rw [htask] at ht
      obtain rfl := List.mem_singleton.mp ht
      rfl
    · rw [hempty] at ht
      cases ht
  | workerStart head => cases hev
  | workerSend task first => cases hev
  | workerEnd => cases hev
  | called calls => exact ⟨rfl,hsame,_,rfl,Host.reply_sends⟩

theorem repliesTo_append {sent new : List (Sent NetMsgType)} (hsent : h.sent = sent)
    (hsent' : h'.sent = sent ++ new) (hnew : ∀ x ∈ new, x.reply = none) (c : Nat) :
    h'.repliesTo c = h.repliesTo c := by
  simp only [Host.repliesTo, Host.sentTo, hsent, hsent', List.filter_append,
    List.filterMap_append, List.append_right_eq_self, List.filterMap_eq_nil_iff]
  exact fun x hx => hnew x (List.mem_filter.mp hx).1

theorem requests_grow {ev : HostEvent NetMsgType} (hdispatch : DispatchInv h.net)
    (m : h.Moves ev h') (c : Nat) : h.requests c <+: h'.requests c := by
  obtain hkeep | ⟨c',msg,-,-,hbring⟩ | ⟨i,t,hanswer⟩ := Host.requests_moves hdispatch m
  · rw [hkeep.requests]
  · rw [hbring.requests]
    exact List.prefix_append _ _
  · rw [hanswer.requests]

theorem getElem?_of_isPrefix {α : Type} {xs ys : List α} {k : Nat} {a : α} (hpre : xs <+: ys)
    (h : xs[k]? = some a) : ys[k]? = some a := by
  obtain ⟨more,rfl⟩ := hpre
  obtain ⟨hlt,-⟩ := List.getElem?_eq_some_iff.mp h
  rwa [List.getElem?_append_left hlt]

theorem accounted_untouched {ev : HostEvent NetMsgType} (hs : Accounted h)
    (hdispatch : DispatchInv h.net) (m : h.Moves ev h') (hev : ofWorker ev = false) :
    Accounted h' := by
  obtain ⟨hrunning,⟨new,hqueued,-⟩,⟨sent,hsent,hnone⟩⟩ := untouched_moves m hev
  have hreplies := repliesTo_append rfl hsent hnone
  have htasks : ∀ t ∈ h.tasks, t ∈ h'.tasks := by
    intro t ht
    rw [Host.tasks, hrunning, hqueued, ← List.append_assoc]
    exact List.mem_append_left _ ht
  have old : ∀ c k msg, (h.requests c)[k]? = some ⟨some c,msg⟩ → msg.header.id = .kSeckeyAgree →
      k ∈ h'.repliesTo c ∨ ∃ t ∈ h'.tasks, t.client = c ∧ t.index = k ∧ t.replied = false := by
    intro c k msg hk hid
    rw [hreplies]
    obtain hreply | ⟨t,ht,hopen⟩ := hs c k msg hk hid
    · exact .inl hreply
    · exact .inr ⟨t,htasks t ht,hopen⟩
  intro c k msg hk hid
  obtain hkeep | ⟨c',msg',-,-,hbring⟩ | ⟨i,t,hanswer⟩ := Host.requests_moves hdispatch m
  · rw [hkeep.requests] at hk
    exact old c k msg hk hid
  · rw [hbring.requests] at hk
    by_cases hlt : k < (h.requests c).length
    · rw [List.getElem?_append_left hlt] at hk
      exact old c k msg hk hid
    · -- the request that this step brings
      right
      rw [List.getElem?_append_right (Nat.le_of_not_lt hlt)] at hk
      split at hk
      · rename_i hc
        subst hc
        obtain ⟨hlen,-⟩ := List.getElem?_eq_some_iff.mp hk
        rw [hbring.tasks]
        refine ⟨_,List.mem_append_right _ (List.mem_singleton_self _),rfl,?_,rfl⟩
        simp only [List.length_singleton] at hlen
        change (h.requests c').length = k
        omega
      · simp at hk
  · have hlen := congrArg List.length (hanswer.replies t.client)
    rw [hreplies] at hlen
    simp at hlen

theorem sound_untouched {answers : Message NetMsgType → Message NetMsgType → Prop}
    {ev : HostEvent NetMsgType} (hs : Sound answers h) (hdispatch : DispatchInv h.net)
    (m : h.Moves ev h') (hev : ofWorker ev = false) : Sound answers h' := by
  obtain ⟨-,-,⟨sent,hsent,hnone⟩⟩ := untouched_moves m hev
  intro x hx k hk
  rw [hsent] at hx
  obtain hx | hx := List.mem_append.mp hx
  · obtain ⟨msg,hmsg,hid,hanswer⟩ := hs x hx k hk
    exact ⟨msg,getElem?_of_isPrefix (requests_grow hdispatch m _) hmsg,hid,hanswer⟩
  · rw [hnone x hx] at hk
    cases hk

theorem accounted_start (hs : Accounted h) {t : Net.Task NetMsgType}
    {rest : List (Net.Task NetMsgType)} (head : h.queued = t :: rest) :
    Accounted { h with queued := rest, running := h.running ++ [t] } := by
  have htasks : Host.tasks { h with queued := rest, running := h.running ++ [t] } = h.tasks := by
    simp [Host.tasks, head]
  intro c k m hk hid
  rw [htasks]
  exact hs c k m hk hid

theorem accounted_send (hs : Accounted h) {i : Nat} {t : Net.Task NetMsgType}
    {msg : Message NetMsgType} (task : h.running[i]? = some t) (posted : List (Posted NetMsgType)) :
    Accounted { h with running := h.running.set i { t with replied := true }
                       posted := posted
                       sent := h.sent ++ [⟨t.client,msg,some t.index⟩] } := by
  intro c k m hk hid
  obtain hreply | ⟨t',ht',hc,hidx,hopen⟩ := hs c k m hk hid
  · left
    simp only [Host.repliesTo, Host.sentTo, List.filter_append, List.filterMap_append]
    exact List.mem_append_left _ hreply
  · obtain hrun | hqueue := List.mem_append.mp ht'
    · obtain ⟨j,hj⟩ := List.getElem?_of_mem hrun
      by_cases hji : j = i
      · -- the task that is answered
        subst hji
        obtain rfl : t = t' := Option.some.inj (task.symm.trans hj)
        left
        simp only [Host.repliesTo, Host.sentTo, List.filter_append, List.filterMap_append]
        refine List.mem_append_right _ ?_
        simp [hc, hidx]
      · right
        refine ⟨t',List.mem_append_left _ ?_,hc,hidx,hopen⟩
        refine List.mem_of_getElem? (i := j) ?_
        rwa [List.getElem?_set_ne (Ne.symm hji)]
    · exact .inr ⟨t',List.mem_append_right _ hqueue,hc,hidx,hopen⟩

theorem accounted_finish (hs : Accounted h) (hrequest : h.RequestInv) {i : Nat}
    {t : Net.Task NetMsgType} (task : h.running[i]? = some t)
    (replied : t.replied = decide (t.msg.header.id = .kSeckeyAgree)) :
    Accounted { h with running := h.running.eraseIdx i } := by
  intro c k m hk hid
  obtain hreply | ⟨t',ht',hc,hidx,hopen⟩ := hs c k m hk hid
  · exact .inl hreply
  · right
    obtain hrun | hqueue := List.mem_append.mp ht'
    · obtain ⟨j,hj⟩ := List.getElem?_of_mem hrun
      have hji : j ≠ i := by
        rintro rfl
        obtain rfl : t = t' := Option.some.inj (task.symm.trans hj)
        have hmsg := hrequest.requested t ht'
        have hk' : (h.requests c)[k]? = some ⟨some c,m⟩ := hk
        rw [hc, hidx, hk'] at hmsg
        obtain rfl : m = t.msg := by simpa using hmsg
        simp [hid, hopen] at replied
      refine ⟨t',List.mem_append_left _ ?_,hc,hidx,hopen⟩
      obtain hlt | hgt := Nat.lt_or_gt_of_ne hji
      · refine List.mem_of_getElem? (i := j) ?_
        rwa [List.getElem?_eraseIdx_of_lt hlt]
      · refine List.mem_of_getElem? (i := j - 1) ?_
        rw [List.getElem?_eraseIdx_of_ge (by omega)]
        rwa [Nat.sub_add_cancel (by omega)]
    · exact ⟨t',List.mem_append_right _ hqueue,hc,hidx,hopen⟩

theorem sound_send {answers : Message NetMsgType → Message NetMsgType → Prop} (hs : Sound answers h)
    (hrequest : h.RequestInv) {i : Nat} {t : Net.Task NetMsgType} {msg : Message NetMsgType}
    (task : h.running[i]? = some t) (agree : t.msg.header.id = .kSeckeyAgree)
    (hanswer : answers t.msg msg) (posted : List (Posted NetMsgType)) :
    Sound answers { h with running := h.running.set i { t with replied := true }
                           posted := posted
                           sent := h.sent ++ [⟨t.client,msg,some t.index⟩] } := by
  intro x hx k hk
  obtain hx | hx := List.mem_append.mp hx
  · exact hs x hx k hk
  · obtain rfl := List.mem_singleton.mp hx
    cases hk
    have hmem : t ∈ h.tasks := List.mem_append_left _ (List.mem_of_getElem? task)
    exact ⟨t.msg,hrequest.requested t hmem,agree,hanswer⟩

end Host

namespace Server
variable {K : Type} {sv : Server K}

theorem serviceStep_cases {s s' : Service K} {ev : ServiceEvent}
    (h : sv.serviceStep s ev = some s') :
    (∃ hev host, ev = .host hev ∧ ofWorker hev = false ∧ s.host.Moves hev host ∧
      s' = { s with host := host }) ∨
    (∃ random t rest, ev = .start random ∧ s.host.queued = t :: rest ∧
      s.host.running.length < Host.workers ∧
      s' = { s with
        host := { s.host with queued := rest, running := s.host.running ++ [t] }
        workers := s.workers ++ [beginWork random t] }) ∨
    (∃ i, ev = .work i ∧ sv.workerStep s i = some s') ∨
    (∃ i, ev = .finish i ∧ s.workers[i]? = some .returned ∧
      s' = { s with host := { s.host with running := s.host.running.eraseIdx i }
                    workers := s.workers.eraseIdx i }) := by
  unfold serviceStep at h
  split at h
  · cases h
  · cases ev with
    | host hev =>
      simp only at h
      split at h
      · cases h
      · rename_i hworker
        obtain ⟨host,hhost,rfl⟩ := Option.map_eq_some_iff.mp h
        exact .inl ⟨hev,host,rfl,Bool.not_eq_true _ ▸ hworker,Host.moves_step s.host hhost,rfl⟩
    | start random =>
      simp only at h
      split at h
      · cases h
      · rename_i t rest head
        obtain ⟨host,hhost,rfl⟩ := Option.map_eq_some_iff.mp h
        simp only [Host.step, head] at hhost
        split at hhost
        · rename_i hfree
          cases hhost
          exact .inr (.inl ⟨random,t,rest,rfl,head,hfree,rfl⟩)
        · cases hhost
    | work i => exact .inr (.inr (.inl ⟨i,rfl,h⟩))
    | finish i =>
      simp only at h
      split at h
      · rename_i hreturned
        obtain ⟨host,hhost,rfl⟩ := Option.map_eq_some_iff.mp h
        simp only [Host.step] at hhost
        split at hhost <;> cases hhost
        exact .inr (.inr (.inr ⟨i,rfl,hreturned,rfl⟩))
      · cases h

theorem workerStep_cases {s s' : Service K} {i : Nat} (h : sv.workerStep s i = some s') :
    ∃ t place place' w, s.host.running[i]? = some t ∧ s.workers[i]? = some place ∧
      sv.workStep t place s.world = some (place',w) ∧
      ((w.sent.drop s.world.sent.length = [] ∧
        s' = { s with world := w, workers := s.workers.set i place' }) ∨
      ∃ c msg more, w.sent.drop s.world.sent.length = (c,msg) :: more ∧ t.replied = false ∧
        s' = ⟨{ s.host with running := s.host.running.set i { t with replied := true }
                            posted := s.host.posted ++ [.send t.client msg]
                            sent := s.host.sent ++ [⟨t.client,msg,some t.index⟩] },
          w,s.workers.set i place'⟩) := by
  unfold workerStep at h
  split at h
  · rename_i t place htask hplace
    split at h
    · cases h
    · rename_i place' w hstep
      refine ⟨t,place,place',w,htask,hplace,hstep,?_⟩
      split at h
      · rename_i hquiet
        cases h
        exact .inl ⟨hquiet,rfl⟩
      · rename_i c msg more hsent
        obtain ⟨host,hhost,rfl⟩ := Option.map_eq_some_iff.mp h
        simp only [Host.step, htask] at hhost
        split at hhost
        · cases hhost
        · rename_i hopen
          cases hhost
          exact .inr ⟨c,msg,more,hsent,Bool.not_eq_true _ ▸ hopen,rfl⟩
  · cases h

/-- The key object that was made from the file of a name at some moment of a run. -/
def Loaded (sv : Server K) (start : Service K) (es : List ServiceEvent) (name : List UInt8)
    (key : Option K) : Prop :=
  ∃ pre s, pre <+: es ∧ exec sv.serviceStep start pre = some s ∧ sv.myRSA name s.world = key

/-- What a run has loaded, and what its workers have drawn at their start. -/
def past (sv : Server K) (start : Service K) (es : List ServiceEvent) : Past K where
  loaded := sv.Loaded start es
  drawn random := .start random ∈ es

theorem past_more (start : Service K) (es : List ServiceEvent) (ev : ServiceEvent) :
    (sv.past start es).Grows (sv.past start (es ++ [ev])) := by
  constructor
  · rintro name key ⟨pre,s,hpre,hrun,hkey⟩
    exact ⟨pre,s,hpre.trans (List.prefix_append _ _),hrun,hkey⟩
  · exact fun _ => List.mem_append_left _

structure ServiceInv (sv : Server K) (start : Service K) (es : List ServiceEvent)
    (s : Service K) : Prop where
  replies : s.host.ReplyInv
  aligned : s.workers.length = s.host.running.length
  workers : ∀ (i : Nat) (t : Net.Task NetMsgType) (place : Working K),
    s.host.running[i]? = some t → s.workers[i]? = some place →
    WorkerAt sv (sv.past start es) t place
  queued : ∀ t ∈ s.host.queued, t.replied = false
  accounted : Accounted s.host
  sound : Sound (AnswersWith sv (sv.past start es)) s.host

theorem workerAt_begin {past : Past K} {t : Net.Task NetMsgType} (hopen : t.replied = false)
    {random : Random} (drawn : past.drawn random) : WorkerAt sv past t (beginWork random t) := by
  unfold beginWork
  split
  · rename_i hid
    exact .agreeing hid (Nat.le_refl 5) hopen drawn (by simp)
  · rename_i hid
    exact .other hid hopen

theorem replyInv_moves {h h' : Host NetMsgType} {ev : HostEvent NetMsgType} (hs : h.ReplyInv)
    (m : h.Moves ev h') : h'.ReplyInv :=
  ⟨dispatchInv_moves hs.dispatch m,Host.sendsInOrder_moves hs.sends m,
    Host.requestInv_moves hs.dispatch hs.request m⟩

section Steps
variable {start s s' : Service K} {es : List ServiceEvent} {ev : ServiceEvent}

theorem serviceInv_host {hev : HostEvent NetMsgType} {host : Host NetMsgType}
    (hs : ServiceInv sv start es s) (ev : ServiceEvent) (net : ofWorker hev = false)
    (moves : s.host.Moves hev host) :
    ServiceInv sv start (es ++ [ev]) { s with host := host } := by
  obtain ⟨hrunning,⟨new,hqueued,hopen⟩,-⟩ := untouched_moves moves net
  refine ⟨replyInv_moves hs.replies moves,hs.aligned.trans (by rw [hrunning]),?_,?_,
    accounted_untouched hs.accounted hs.replies.dispatch moves net,
    (sound_untouched hs.sound hs.replies.dispatch moves net).mono fun _ _ h =>
      h.mono (past_more start es ev)⟩
  · intro i t place htask hplace
    rw [hrunning] at htask
    exact (hs.workers i t place htask hplace).mono (past_more start es ev)
  · intro t ht
    rw [hqueued] at ht
    exact (List.mem_append.mp ht).elim (hs.queued t) (hopen t)

theorem serviceInv_start {random : Random} {t : Net.Task NetMsgType}
    {rest : List (Net.Task NetMsgType)} (hs : ServiceInv sv start es s)
    (head : s.host.queued = t :: rest) :
    ServiceInv sv start (es ++ [.start random])
      { s with host := { s.host with queued := rest, running := s.host.running ++ [t] }
               workers := s.workers ++ [beginWork random t] } := by
  have hopen : ∀ t' ∈ t :: rest, t'.replied = false := fun t' ht' => hs.queued t' (head ▸ ht')
  refine ⟨replyInv_moves hs.replies (.workerStart head),by simp [hs.aligned],?_,
    fun t' ht' => hopen t' (List.mem_cons_of_mem _ ht'),accounted_start hs.accounted head,
    Sound.mono (h := { s.host with queued := rest, running := s.host.running ++ [t] })
      (fun x hx k hk => hs.sound x hx k hk) fun _ _ h => h.mono (past_more start es (.start random))⟩
  intro i t' place htask hplace
  obtain hlt | hge := Nat.lt_or_ge i s.host.running.length
  · rw [List.getElem?_append_left hlt] at htask
    rw [List.getElem?_append_left (hs.aligned ▸ hlt)] at hplace
    exact (hs.workers i t' place htask hplace).mono (past_more start es (.start random))
  · rw [List.getElem?_append_right hge] at htask
    rw [List.getElem?_append_right (hs.aligned ▸ hge), hs.aligned] at hplace
    obtain ⟨-,rfl⟩ := List.getElem?_eq_some_iff.mp htask
    obtain ⟨hlen,rfl⟩ := List.getElem?_eq_some_iff.mp hplace
    simp only [List.length_singleton, Nat.lt_one_iff] at hlen
    simp only [hlen, List.getElem_cons_zero]
    exact workerAt_begin (hopen t List.mem_cons_self)
      (List.mem_append_right _ (List.mem_singleton_self _))

theorem serviceInv_work {i : Nat} (hrun : exec sv.serviceStep start es = some s)
    (hs : ServiceInv sv start es s) (ev : ServiceEvent) (h : sv.workerStep s i = some s') :
    ServiceInv sv start (es ++ [ev]) s' := by
  obtain ⟨t,place,place',w,htask,hplace,hstep,hcase⟩ := workerStep_cases h
  have hnow : ∀ name, (sv.past start (es ++ [ev])).loaded name (sv.myRSA name s.world) :=
    fun name => ⟨es,s,List.prefix_append _ _,hrun,rfl⟩
  have others : ∀ {running : List (Net.Task NetMsgType)} {workers : List (Working K)}
      {t' : Net.Task NetMsgType}, running = s.host.running.set i t' →
      workers = s.workers.set i place' → WorkerAt sv (sv.past start (es ++ [ev])) t' place' →
      ∀ (j : Nat) (u : Net.Task NetMsgType) (p : Working K), running[j]? = some u →
        workers[j]? = some p → WorkerAt sv (sv.past start (es ++ [ev])) u p := by
    rintro running workers t' rfl rfl hat j u p hu hp
    obtain ⟨rfl,rfl⟩ | ⟨hne,hu⟩ := getElem?_set_cases hu
    · obtain ⟨-,rfl⟩ | ⟨hne,-⟩ := getElem?_set_cases hp
      · exact hat
      · exact absurd rfl hne
    · obtain ⟨rfl,-⟩ | ⟨-,hp⟩ := getElem?_set_cases hp
      · exact absurd rfl hne
      · exact (hs.workers j u p hu hp).mono (past_more start es ev)
  have hsound : Sound (AnswersWith sv (sv.past start (es ++ [ev]))) s.host :=
    hs.sound.mono fun _ _ h => h.mono (past_more start es ev)
  obtain ⟨hsent,hat⟩ | ⟨msg,hsent,hopen,hid,hanswer,hat⟩ :=
    workerAt_step (hs.workers i t place htask hplace) (past_more start es ev) hnow hstep
  · obtain ⟨-,rfl⟩ | ⟨c,msg,more,hdrop,-,-⟩ := hcase
    · have hsame : s.host.running.set i t = s.host.running := by
        obtain ⟨hlt,rfl⟩ := List.getElem?_eq_some_iff.mp htask
        exact List.set_getElem_self hlt
      exact ⟨hs.replies,by simp [hs.aligned],others hsame.symm rfl hat,hs.queued,hs.accounted,hsound⟩
    · rw [hsent, List.drop_length] at hdrop
      cases hdrop
  · rw [hsent, List.drop_left] at hcase
    obtain ⟨hnone,-⟩ | ⟨c,msg',more,hmsg,hfirst,rfl⟩ := hcase
    · cases hnone
    · cases hmsg
      exact ⟨replyInv_moves hs.replies (.workerSend htask hfirst),by simp [hs.aligned],
        others rfl rfl hat,hs.queued,accounted_send hs.accounted htask _,
        sound_send hsound hs.replies.request htask hid hanswer _⟩

theorem serviceInv_finish {i : Nat} (hs : ServiceInv sv start es s) (ev : ServiceEvent)
    (hreturned : s.workers[i]? = some .returned) :
    ServiceInv sv start (es ++ [ev])
      { s with host := { s.host with running := s.host.running.eraseIdx i }
               workers := s.workers.eraseIdx i } := by
  obtain ⟨hlt,-⟩ := List.getElem?_eq_some_iff.mp hreturned
  obtain ⟨t,htask⟩ : ∃ t, s.host.running[i]? = some t :=
    ⟨_,List.getElem?_eq_getElem (hs.aligned ▸ hlt)⟩
  have hreplied : t.replied = decide (t.msg.header.id = .kSeckeyAgree) := by
    cases hs.workers i _ _ htask hreturned with
    | returned replied => exact replied
  refine ⟨replyInv_moves hs.replies .workerEnd,?_,?_,hs.queued,
    accounted_finish hs.accounted hs.replies.request htask hreplied,
    Sound.mono (h := { s.host with running := s.host.running.eraseIdx i })
      (fun x hx k hk => hs.sound x hx k hk) fun _ _ h => h.mono (past_more start es ev)⟩
  · simp only [List.length_eraseIdx, hs.aligned]
  · intro j t place ht hplace
    rw [List.getElem?_eraseIdx] at ht hplace
    split at ht <;> exact (hs.workers _ t place ht (by simpa [*] using hplace)).mono (past_more start es ev)

theorem serviceInv_step (hrun : exec sv.serviceStep start es = some s)
    (hs : ServiceInv sv start es s) (h : sv.serviceStep s ev = some s') :
    ServiceInv sv start (es ++ [ev]) s' := by
  obtain ⟨hev,host,-,net,moves,rfl⟩ | ⟨random,t,rest,rfl,head,-,rfl⟩ | ⟨i,-,h⟩ | ⟨i,-,hreturned,rfl⟩ :=
    serviceStep_cases h
  · exact serviceInv_host hs ev net moves
  · exact serviceInv_start hs head
  · exact serviceInv_work hrun hs ev h
  · exact serviceInv_finish hs ev hreturned

end Steps

theorem serviceInv_run {now : Nat → UInt64} {w : World} {es : List ServiceEvent} {s : Service K}
    (run : exec sv.serviceStep (.start now w) es = some s) :
    ServiceInv sv (.start now w) es s := by
  refine exec_reached (I := ServiceInv sv (.start now w)) ?_
    (fun es s ev s' hrun hs _ h => serviceInv_step hrun hs h) (meets_true _ es) run
  refine ⟨Host.replyInv_start now,rfl,?_,?_,?_,?_⟩
  · intro i t place htask
    simp [Service.start, Host.start] at htask
  · intro t ht
    cases ht
  · intro c k m hk
    simp [Service.start, Host.start, Host.requests, ServerInterface.dispatched, OwnedMessage.ofConn]
      at hk
  · intro x hx
    cases hx

/-- Every answer that a worker has sent, in any interleaving, answers a request for a key that
came from the client it is sent to. It turns the request down, or the signature of the request
verified under a key that was in its key file, and it carries a fresh AES key under a key that
was in that file. -/
theorem answers_sound {now : Nat → UInt64} {w : World} {es : List ServiceEvent} {s : Service K}
    (run : exec sv.serviceStep (.start now w) es = some s) :
    ∀ x ∈ s.host.sent, ∀ k, x.reply = some k →
      ∃ m, (s.host.requests x.client)[k]? = some ⟨some x.client,m⟩ ∧
        m.header.id = .kSeckeyAgree ∧
        AnswersWith sv (sv.past (.start now w) es) m x.msg :=
  (serviceInv_run run).sound

def requestSteps : List ServiceEvent :=
  [.host (.accept true), .host (.io 0 (.readDone .validation (LittleEndian.ofUInt64 (scramble 5)))),
    .host (.io 0 (.readDone .header [0,0,0,0,179,1,0,0])),
    .host (.io 0 (.readDone (.body 435) ownRequest.body)), .host (.update 1 true), .host .consumer,
    .host .consumer, .host .consumer, .host .consumer, .start ownRequest.random]

theorem answers_sound_oneClient :
    ∃ s, exec oneKey.serviceStep (.start (fun _ => 5) emptyStore)
      (requestSteps ++ [.work 0,.work 0,.work 0,.work 0]) = some s ∧
      ∃ msg, s.host.sent = [⟨0,msg,some 0⟩] ∧
        AnswersWith oneKey (oneKey.past (.start (fun _ => 5) emptyStore)
          (requestSteps ++ [.work 0,.work 0,.work 0,.work 0])) ownRequest.msg msg := by
  have hrun : (exec oneKey.serviceStep (.start (fun _ => 5) emptyStore)
      (requestSteps ++ [.work 0,.work 0,.work 0,.work 0])).map
        (fun s => (s.host.sent.map fun x => (x.client,x.reply),s.host.requests 0)) =
      some ([(0,some 0)],[⟨some 0,ownRequest.msg⟩]) := by decide +kernel
  obtain ⟨s,run,hs⟩ := Option.map_eq_some_iff.mp hrun
  obtain ⟨hsent,hrequests⟩ := Prod.mk.inj hs
  obtain ⟨⟨c,msg,r⟩,hx,hlast⟩ := List.map_eq_singleton_iff.mp hsent
  cases hlast
  obtain ⟨m,hm,-,hanswer⟩ := answers_sound run _ (by rw [hx]; exact List.mem_singleton_self _)
    0 rfl
  rw [hrequests] at hm
  cases hm
  exact ⟨s,run,msg,hx,hanswer⟩

def rank (s : Service K) : Nat :=
  (s.workers.map Working.rank).sum + 8 * s.host.queued.length

def ofWorkers : ServiceEvent → Bool
  | .host _ => false
  | _ => true

section Drain
variable {start s s' : Service K} {es : List ServiceEvent} {ev : ServiceEvent}

theorem sum_set_lt {places : List (Working K)} {i : Nat} {place place' : Working K}
    (h : places[i]? = some place) (hlt : place'.rank < place.rank) :
    ((places.set i place').map Working.rank).sum < (places.map Working.rank).sum := by
  obtain ⟨hi,rfl⟩ := List.getElem?_eq_some_iff.mp h
  obtain ⟨xs,ys,hold,-,hnew⟩ : ∃ xs ys, places = xs ++ places[i] :: ys ∧ xs.length = i ∧
      places.set i place' = xs ++ place' :: ys := List.exists_of_set hi
  have hsum := congrArg (fun l => (l.map Working.rank).sum) hold
  simp only [List.map_append, List.map_cons, List.sum_append, List.sum_cons] at hsum
  rw [hnew, hsum]
  simp only [List.map_append, List.map_cons, List.sum_append, List.sum_cons]
  omega

theorem sum_eraseIdx_lt {places : List (Working K)} {i : Nat}
    (h : places[i]? = some (.returned : Working K)) :
    ((places.eraseIdx i).map Working.rank).sum < (places.map Working.rank).sum := by
  obtain ⟨hi,hreturned⟩ := List.getElem?_eq_some_iff.mp h
  have hold := List.take_append_drop i places
  rw [List.drop_eq_getElem_cons hi, hreturned] at hold
  have hsum := congrArg (fun l => (l.map Working.rank).sum) hold
  simp only [List.map_append, List.map_cons, List.sum_append, List.sum_cons, Working.rank] at hsum
  rw [List.eraseIdx_eq_take_drop_succ]
  simp only [List.map_append, List.sum_append]
  omega

theorem rank_workStep {past : Past K} {t : Net.Task NetMsgType}
    {place place' : Working K} {w w' : World} (hat : WorkerAt sv past t place)
    (h : sv.workStep t place w = some (place',w')) : place'.rank < place.rank := by
  have hother : ∀ random, place = .other random → t.msg.header.id ≠ .kSeckeyAgree := by
    rintro random rfl
    cases hat with
    | other other _ => exact other
  cases workMoves_step sv hother h with
  | failed random => exact Nat.lt_succ_self 1
  | accepted random verified encrypted => exact Nat.lt_succ_self 1
  | other random => exact Nat.lt_succ_self 1
  | agree running sends =>
    cases sends with
    | none same lower open_ good => exact Nat.add_lt_add_right lower 2
    | reply encrypted sent => exact Nat.lt_succ_self 2

theorem rank_begin (random : Random) (t : Net.Task NetMsgType) :
    (beginWork random t : Working K).rank ≤ 7 := by
  unfold beginWork
  split
  · exact Nat.le_refl 7
  · exact Nat.le_add_left 2 5

theorem rank_step (hs : ServiceInv sv start es s) (hev : ofWorkers ev = true)
    (h : sv.serviceStep s ev = some s') : rank s' < rank s ∧ s'.host.net = s.host.net := by
  obtain ⟨hev',host,rfl,-,-,-⟩ | ⟨random,t,rest,-,head,-,rfl⟩ | ⟨i,-,h⟩ | ⟨i,-,hreturned,rfl⟩ :=
    serviceStep_cases h
  · cases hev
  · refine ⟨?_,rfl⟩
    have := rank_begin (K := K) random t
    simp only [rank, head, List.map_append, List.map_singleton, List.sum_append, List.sum_singleton,
      List.length_cons]
    omega
  · obtain ⟨t,place,place',w,htask,hplace,hstep,hcase⟩ := workerStep_cases h
    have hlt := sum_set_lt hplace (rank_workStep (hs.workers i t place htask hplace) hstep)
    obtain ⟨-,rfl⟩ | ⟨c,msg,more,-,-,rfl⟩ := hcase
    · exact ⟨Nat.add_lt_add_right hlt _,rfl⟩
    · exact ⟨Nat.add_lt_add_right hlt _,rfl⟩
  · exact ⟨Nat.add_lt_add_right (sum_eraseIdx_lt hreturned) _,rfl⟩

/-- A worker with a task can go on: nothing makes it wait. -/
theorem workerStep_isSome (hs : ServiceInv sv start es s) {i : Nat} {t : Net.Task NetMsgType}
    {place : Working K} (htask : s.host.running[i]? = some t) (hplace : s.workers[i]? = some place)
    (henabled : (sv.workStep t place s.world).isSome = true) :
    (sv.workerStep s i).isSome = true := by
  obtain ⟨⟨place',w⟩,hstep⟩ := Option.isSome_iff_exists.mp henabled
  simp only [workerStep, htask, hplace, hstep]
  -- what the keys are is of no matter here
  have hat : WorkerAt sv ⟨fun _ _ => True,fun _ => True⟩ t place :=
    (hs.workers i t place htask hplace).mono ⟨fun _ _ _ => trivial,fun _ _ => trivial⟩
  obtain ⟨hsent,-⟩ | ⟨msg,hsent,hopen,-,-,-⟩ :=
    workerAt_step hat ⟨fun _ _ h => h,fun _ h => h⟩ (fun _ => trivial) hstep
  · simp [hsent]
  · simp [hsent, Host.step, htask, hopen]

theorem workStep_isSome {past : Past K} {t : Net.Task NetMsgType}
    {place : Working K} (hat : WorkerAt sv past t place) (hlive : place.isThrown = false)
    (w : World) : place = .returned ∨ (sv.workStep t place w).isSome = true := by
  cases hat with
  | returned replied => exact .inl rfl
  | other other open_ =>
    right
    rw [workStep, sv.work_other other]
    rfl
  | @agreeing random phase agree begun replied drawn good =>
    right
    cases phase with
    | queued => simp [Phase.rank] at begun
    | thrown e => cases hlive
    | _ => rfl

theorem worker_enabled (hs : ServiceInv sv start es s) (hlive : s.ended = false)
    (htasks : s.host.tasks ≠ []) :
    ∃ ev, ofWorkers ev = true ∧ (sv.serviceStep s ev).isSome = true := by
  cases hrunning : s.host.running with
  | nil =>
    -- all workers are free, and one takes the first task
    obtain ⟨t,rest,head⟩ : ∃ t rest, s.host.queued = t :: rest := by
      refine List.exists_cons_of_ne_nil fun hnil => htasks ?_
      rw [Host.tasks, hrunning, hnil, List.append_nil]
    refine ⟨.start ⟨fun _ => 0,fun _ => 0⟩,rfl,?_⟩
    simp [serviceStep, hlive, head, Host.step, hrunning, Host.workers]
  | cons t rest =>
    have htask : s.host.running[0]? = some t := by rw [hrunning, List.getElem?_cons_zero]
    obtain ⟨place,hplace⟩ : ∃ place, s.workers[0]? = some place := by
      refine ⟨_,List.getElem?_eq_getElem (?_ : 0 < s.workers.length)⟩
      rw [hs.aligned, hrunning]
      exact Nat.succ_pos _
    have hnot : place.isThrown = false := by
      simp only [Service.ended, List.any_eq_false] at hlive
      exact Bool.not_eq_true _ ▸ hlive place (List.mem_of_getElem? hplace)
    obtain rfl | henabled := workStep_isSome (hs.workers 0 t place htask hplace) hnot s.world
    · refine ⟨.finish 0,rfl,?_⟩
      simp [serviceStep, hlive, hplace, Host.step, hrunning]
    · refine ⟨.work 0,rfl,?_⟩
      simp only [serviceStep, hlive, Bool.false_eq_true, if_false]
      exact workerStep_isSome hs htask hplace henabled

theorem workers_bounded {now : Nat → UInt64} {w : World}
    (run : exec sv.serviceStep (.start now w) es = some s) {more : List ServiceEvent}
    {t : Service K} (meets : Meets sv.serviceStep (fun _ ev => ofWorkers ev = true) s more)
    (hmore : exec sv.serviceStep s more = some t) :
    exec sv.serviceStep (.start now w) (es ++ more) = some t ∧
    more.length + rank t ≤ rank s ∧ t.host.net = s.host.net := by
  refine exec_induction (I := fun more t =>
    exec sv.serviceStep (.start now w) (es ++ more) = some t ∧
    more.length + rank t ≤ rank s ∧ t.host.net = s.host.net) ?_ ?_ meets hmore
  · exact ⟨by rw [List.append_nil, run],by simp,rfl⟩
  · rintro more t ev u ⟨hreached,hrank,hnet⟩ hev hstep
    obtain ⟨hlt,hkeep⟩ := rank_step (serviceInv_run hreached) hev hstep
    refine ⟨?_,?_,hkeep.trans hnet⟩
    · rw [← List.append_assoc]
      exact exec_snoc.mpr ⟨t,hreached,hstep⟩
    · rw [List.length_append, List.length_singleton]
      omega

end Drain

/-- In every interleaving no request for a key is answered twice, and none is lost: it has been
answered or has a task that will. From every state the workers alone can take a bounded number
of steps, and when they have no step left every request has been answered, unless an exception
has ended the process. -/
theorem requests_answered {now : Nat → UInt64} {w : World} {es : List ServiceEvent} {s : Service K}
    (run : exec sv.serviceStep (.start now w) es = some s) :
    (∀ c, (s.host.repliesTo c).Nodup) ∧ Accounted s.host ∧
    (∀ more t, Meets sv.serviceStep (fun _ ev => ofWorkers ev = true) s more →
      exec sv.serviceStep s more = some t → more.length ≤ rank s ∧
      ((∀ ev, ofWorkers ev = true → sv.serviceStep t ev = none) →
        t.ended = true ∨ Settled t.host)) ∧
    ∃ more t, Meets sv.serviceStep (fun _ ev => ofWorkers ev = true) s more ∧
      exec sv.serviceStep s more = some t ∧ t.host.net = s.host.net ∧
      (t.ended = true ∨ Settled t.host) := by
  have hinv := serviceInv_run run
  have progress : ∀ more t, Meets sv.serviceStep (fun _ ev => ofWorkers ev = true) s more →
      exec sv.serviceStep s more = some t → (t.ended = true ∨ Settled t.host) ∨
        ∃ ev, ofWorkers ev = true ∧ (sv.serviceStep t ev).isSome = true := by
    intro more t meets hmore
    have ht := serviceInv_run (workers_bounded run meets hmore).1
    by_cases hidle : t.host.tasks = []
    · exact .inl (.inr (ht.accounted.settled hidle))
    · cases hlive : t.ended with
      | true => exact .inl (.inl rfl)
      | false => exact .inr (worker_enabled ht hlive hidle)
  have bounded : ∀ more t, Meets sv.serviceStep (fun _ ev => ofWorkers ev = true) s more →
      exec sv.serviceStep s more = some t → more.length ≤ rank s := by
    intro more t meets hmore
    have := (workers_bounded run meets hmore).2.1
    omega
  refine ⟨fun c => (hinv.replies.request.once c).of_append_left,hinv.accounted,?_,?_⟩
  · refine fun more t meets hmore => ⟨bounded more t meets hmore,fun hstuck => ?_⟩
    obtain hdone | ⟨ev,hev,henabled⟩ := progress more t meets hmore
    · exact hdone
    · rw [hstuck ev hev] at henabled
      cases henabled
  · obtain ⟨more,t,meets,hmore,hdone⟩ := exec_reaches (rank s) progress bounded
    exact ⟨more,t,meets,hmore,(workers_bounded run meets hmore).2.2,hdone⟩

theorem requests_answered_oneClient :
    ∃ s, exec oneKey.serviceStep (.start (fun _ => 5) emptyStore) requestSteps = some s ∧
      ∃ more t, exec oneKey.serviceStep s more = some t ∧ (t.ended = true ∨ Settled t.host) := by
  have hrun : (exec oneKey.serviceStep (.start (fun _ => 5) emptyStore) requestSteps).isSome =
      true := by decide +kernel
  obtain ⟨s,run⟩ := Option.isSome_iff_exists.mp hrun
  obtain ⟨-,-,-,more,t,-,hmore,-,hdone⟩ := requests_answered run
  exact ⟨s,run,more,t,hmore,hdone⟩

end Server

end TransmissionPlatform.Platform
