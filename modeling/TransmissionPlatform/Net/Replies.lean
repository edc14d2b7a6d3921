import TransmissionPlatform.Net.Host

/-!
The replies of the pool. A request becomes a task that one of the four workers runs; its reply
is posted to the io thread, which queues it behind what was sent before. So replies are written
in the order in which the workers send them, whatever the order of the requests.
-/

set_option autoImplicit false

namespace TransmissionPlatform.Net
open StepSystem

variable {T : Type}

theorem dispatched_consume {s t : ServerInterface T} (hs : DispatchInv s)
    (ht : s.consume = some t) : t.dispatched = s.dispatched ++ s.consumer.inHand := by
  have hcall := hs.call
  simp only [ServerInterface.consume] at ht
  split at ht
  · cases ht
  · rename_i n hc
    cases ht
    split <;> simp [hc, ServerInterface.dispatched, Consumer.inHand]
  · rename_i n k hc
    split at ht <;> cases ht <;> simp [hc, ServerInterface.dispatched, Consumer.inHand]
  · rename_i n k hc
    split at ht <;> cases ht
    simp [hc, ServerInterface.dispatched, Consumer.inHand]
  · rename_i n k msg hc
    cases ht
    rw [hc] at hcall
    generalize hcalls : s.calls = calls at hcall
    cases hcall with
    | dispatching hlt =>
      simp [hc, ServerInterface.dispatched, ServerInterface.onMessage, Consumer.inHand, hcalls]

theorem dispatched_update [EnumId T] {s t : ServerInterface T} {n : Nat} {bWait : Bool}
    (ht : s.step (.update n bWait) = some t) : t.dispatched = s.dispatched := by
  simp only [ServerInterface.step] at ht
  split at ht <;> cases ht
  simp [ServerInterface.dispatched]

theorem dispatched_io [EnumId T] {s t : ServerInterface T} {c : Nat} {ev : Event T}
    (ht : s.step (.io c ev) = some t) : t.dispatched = s.dispatched := by
  obtain ⟨io,-,rfl⟩ := Option.map_eq_some_iff.mp ht
  rfl

def Posted.toSend (c : Nat) : Posted T → Option (Message T)
  | .send client msg => if client = c then some msg else none
  | .close _ => none

namespace Host

section Functions
variable (h : Host T)

def sentTo (c : Nat) : List (Sent T) := h.sent.filter (·.client = c)

def repliesTo (c : Nat) : List Nat := (h.sentTo c).filterMap Sent.reply

def requests (c : Nat) : List (OwnedMessage T) := OwnedMessage.ofConn c h.net.dispatched

def openRequests (c : Nat) (tasks : List (Task T)) : List Nat :=
  (tasks.filter fun t => t.client = c ∧ t.replied = false).map Task.index

end Functions

/-- A request of the client comes to `OnMessage` when all earlier ones were answered. -/
def Waits (c : Nat) (h : Host T) : HostEvent T → Prop
  | .consumer => ∀ t ∈ h.onMessage, t.client = c → (h.repliesTo c).length = t.index
  | _ => True

instance decidableWaits (c : Nat) (h : Host T) : ∀ ev, Decidable (Waits c h ev)
  | .consumer => inferInstanceAs (Decidable
      (∀ t ∈ h.onMessage, t.client = c → (h.repliesTo c).length = t.index))
  | .accept _ | .io _ _ | .task | .update _ _ | .workerStart | .workerSend _ _ | .workerEnd _ =>
    isTrue trivial
  | .send _ _ | .disconnect _ | .messageClient _ _ | .messageAllClients _ _ => isTrue trivial

@[simp] theorem openRequests_append (c : Nat) (xs ys : List (Task T)) :
    openRequests c (xs ++ ys) = openRequests c xs ++ openRequests c ys := by
  simp [openRequests]

theorem openRequests_new (c c' k : Nat) (msg : Message T) :
    openRequests c [⟨c',msg,k,false⟩] = if c' = c then [k] else [] := by
  by_cases hc : c' = c <;> simp [openRequests, hc]

theorem openRequests_sublist {c : Nat} {xs ys : List (Task T)} (hsub : xs.Sublist ys) :
    (openRequests c xs).Sublist (openRequests c ys) := (hsub.filter _).map _

theorem mem_openRequests {c k : Nat} {tasks : List (Task T)} (hk : k ∈ openRequests c tasks) :
    ∃ t ∈ tasks, t.client = c ∧ t.index = k := by
  obtain ⟨t,ht,rfl⟩ := List.mem_map.mp hk
  obtain ⟨hmem,hcond⟩ := List.mem_filter.mp ht
  exact ⟨t,hmem,(of_decide_eq_true hcond).1,rfl⟩

theorem openRequests_reply {running : List (Task T)} {i : Nat} {t : Task T}
    (task : running[i]? = some t) (first : t.replied = false) (c : Nat) :
    ∃ before after,
      openRequests c running = before ++ (if t.client = c then [t.index] else []) ++ after ∧
      openRequests c (running.set i { t with replied := true }) = before ++ after := by
  obtain ⟨hi,rfl⟩ := List.getElem?_eq_some_iff.mp task
  obtain ⟨xs,ys,hold,-,hnew⟩ : ∃ xs ys, running = xs ++ running[i] :: ys ∧ xs.length = i ∧
      running.set i { running[i] with replied := true } =
        xs ++ { running[i] with replied := true } :: ys := List.exists_of_set hi
  refine ⟨openRequests c xs,openRequests c ys,?_,?_⟩
  · conv_lhs => rw [hold]
    by_cases hc : running[i].client = c <;> simp [openRequests, hc, first]
  · rw [hnew]
    simp [openRequests]

theorem toSend_posts (h : Host T) (c : Nat) (calls : List (ClientCall T)) :
    (calls.flatMap h.posts).filterMap (·.toSend c) =
      ((calls.flatMap sends).filter (·.client = c)).map Sent.msg := by
  induction calls with
  | nil => rfl
  | cons call calls ih =>
    simp only [List.flatMap_cons, List.filterMap_append, List.filter_append, List.map_append, ih]
    congr 1
    cases call with
    | send client msg => by_cases hc : client = c <;> simp [posts, sends, Posted.toSend, hc]
    | onClientDisconnect client =>
      cases client with
      | none => rfl
      | some client =>
        simp only [posts, sends]
        split <;> rfl

theorem reply_sends {calls : List (ClientCall T)} :
    ∀ sent ∈ calls.flatMap sends, sent.reply = none := by
  intro sent hsent
  obtain ⟨call,-,hcall⟩ := List.mem_flatMap.mp hsent
  cases call with
  | send client msg =>
    cases List.mem_singleton.mp hcall
    rfl
  | onClientDisconnect client => cases hcall

theorem onMessage_cases (h : Host T) :
    (∃ c msg, h.net.consumer.inHand = [⟨some c,msg⟩] ∧
      h.onMessage = [⟨c,msg,(h.requests c).length,false⟩]) ∨
    (h.onMessage = [] ∧ ∀ c, OwnedMessage.ofConn c h.net.consumer.inHand = []) := by
  unfold onMessage
  split
  · rename_i n k item hc
    obtain ⟨remote,msg⟩ := item
    cases remote with
    | none => exact .inr ⟨rfl,fun c => by simp [hc, Consumer.inHand, OwnedMessage.ofConn]⟩
    | some c => exact .inl ⟨c,msg,by simp [hc, Consumer.inHand],rfl⟩
  · rename_i hc
    refine .inr ⟨rfl,fun c => ?_⟩
    cases hconsumer : h.net.consumer with
    | dispatching n k msg => exact absurd hconsumer (hc n k msg)
    | _ => rfl

theorem writeInv_of_outgoing [EnumId T] {evs : List (Event T)} {s t : Io T} (hs : WriteInv evs s)
    (ho : t.outgoing = s.outgoing) : WriteInv evs t := by
  obtain ⟨done,hsplit,hstate⟩ := hs
  have hq : t.conn.qMessagesOut = s.conn.qMessagesOut := congrArg Outgoing.queue ho
  exact ⟨done,hq ▸ hsplit,ho ▸ hstate⟩

/-- The `Send` tasks of a connection ran in the order of the calls, and the rest is posted in
that order. -/
def SendsInOrder [EnumId T] (h : Host T) : Prop :=
  ∀ c, ∃ evs, WriteInv evs (h.net.view c) ∧
    sentTasks evs ++ h.posted.filterMap (·.toSend c) = (h.sentTo c).map Sent.msg

section Sends
variable [EnumId T] {h h' : Host T}

theorem SendsInOrder.grow (hs : h.SendsInOrder) (hview : ∀ c, h'.net.view c = h.net.view c)
    (new : Nat → List (Message T))
    (hposted : ∀ c, h'.posted.filterMap (·.toSend c) = h.posted.filterMap (·.toSend c) ++ new c)
    (hsent : ∀ c, (h'.sentTo c).map Sent.msg = (h.sentTo c).map Sent.msg ++ new c) :
    h'.SendsInOrder := by
  intro c
  obtain ⟨evs,hinv,heq⟩ := hs c
  exact ⟨evs,hview c ▸ hinv,by rw [hposted, hsent, ← heq, List.append_assoc]⟩

theorem SendsInOrder.same (hs : h.SendsInOrder) (hview : ∀ c, h'.net.view c = h.net.view c)
    (hposted : h'.posted = h.posted) (hsent : h'.sent = h.sent) : h'.SendsInOrder :=
  hs.grow hview (fun _ => []) (by simp [hposted]) (by simp [sentTo, hsent])

theorem SendsInOrder.io (hs : h.SendsInOrder) {c : Nat} {ev : Event T} {net : ServerInterface T}
    {posted : List (Posted T)} (step : h.net.step (.io c ev) = some net)
    (hposted : ∀ c', h.posted.filterMap (·.toSend c') =
      (if c' = c then sentTasks [ev] else []) ++ posted.filterMap (·.toSend c')) :
    SendsInOrder { h with net := net, posted := posted } := by
  intro c'
  obtain ⟨hown,hothers⟩ := view_io step
  obtain ⟨evs,hinv,heq⟩ := hs c'
  by_cases hc : c' = c
  · subst hc
    refine ⟨evs ++ [ev],writeInv_step hinv hown,?_⟩
    rw [sentTasks_append, List.append_assoc]
    rwa [hposted, if_pos rfl] at heq
  · refine ⟨evs,?_,?_⟩
    · simpa only [hothers c' hc] using hinv
    · rwa [hposted, if_neg hc, List.nil_append] at heq

theorem sendsInOrder_moves {ev : HostEvent T} (hs : h.SendsInOrder) (m : h.Moves ev h') :
    h'.SendsInOrder := by
  cases m with
  | accept approved =>
    cases approved with
    | false => exact hs
    | true =>
      intro c
      obtain ⟨hnew,hothers⟩ := view_connectToClient h.net h.accepted h.nIDCounter
      obtain ⟨evs,hinv,heq⟩ := hs c
      refine ⟨evs,?_,heq⟩
      by_cases hc : c = h.accepted
      · subst hc
        have hout := (greeted_connectToClient h.nIDCounter (h.net.view h.accepted)).outgoing
        refine writeInv_of_outgoing hinv ?_
        rwa [← hnew] at hout
      · have hview : (h.accept true).net.view c = h.net.view c := hothers c hc
        rwa [hview]
  | @io c ev net completion step =>
    refine hs.io step fun c' => ?_
    have hnone : sentTasks [ev] = [] := by
      cases ev with
      | sendTask msg => cases completion
      | _ => rfl
    simp [hnone]
  | @task p rest net head step =>
    refine hs.io step fun c' => ?_
    rw [head]
    cases p with
    | close c => simp [Posted.toSend, Posted.event, sentTasks]
    | send c msg =>
      by_cases hc : c' = c
      · simp [Posted.toSend, Posted.event, Posted.client, sentTasks, hc]
      · simp [Posted.toSend, Posted.client, hc, Ne.symm hc]
  | update step => exact hs.same (view_update step) rfl rfl
  | consumer step => exact hs.same (view_consume step) rfl rfl
  | workerStart head => exact hs.same (fun _ => rfl) rfl rfl
  | @workerSend i msg t task first =>
    refine hs.grow (fun _ => rfl) (fun c => if t.client = c then [msg] else []) ?_ ?_
    · intro c
      by_cases hc : t.client = c <;> simp [Posted.toSend, hc]
    · intro c
      by_cases hc : t.client = c <;> simp [sentTo, hc]
  | workerEnd => exact hs.same (fun _ => rfl) rfl rfl
  | @called ev r calls =>
    refine hs.grow (fun _ => rfl)
      (fun c => (r.calls.flatMap h.posts).filterMap (·.toSend c)) ?_ ?_
    · intro c
      simp [after]
    · intro c
      simp [toSend_posts, sentTo, after]

theorem sendsInOrder_start (now : Nat → UInt64) : (start now : Host T).SendsInOrder :=
  fun _ => ⟨[],⟨[],rfl,.idle rfl⟩,rfl⟩

end Sends

structure KeepsRequests (h h' : Host T) : Prop where
  requests : ∀ c, h'.requests c = h.requests c
  replies : ∀ c, h'.repliesTo c = h.repliesTo c
  tasks : h'.tasks.Sublist h.tasks

structure BringsRequest (c : Nat) (msg : Message T) (h h' : Host T) : Prop where
  requests : ∀ c', h'.requests c' = h.requests c' ++ if c = c' then [⟨some c,msg⟩] else []
  replies : ∀ c', h'.repliesTo c' = h.repliesTo c'
  tasks : h'.tasks = h.tasks ++ [⟨c,msg,(h.requests c).length,false⟩]

structure AnswersRequest (i : Nat) (t : Task T) (h h' : Host T) : Prop where
  task : h.tasks[i]? = some t
  first : t.replied = false
  requests : ∀ c, h'.requests c = h.requests c
  replies : ∀ c, h'.repliesTo c = h.repliesTo c ++ if t.client = c then [t.index] else []
  tasks : h'.tasks = h.tasks.set i { t with replied := true }

section Requests
variable [EnumId T] {h h' : Host T}

theorem requests_moves {ev : HostEvent T} (hs : DispatchInv h.net) (m : h.Moves ev h') :
    h.KeepsRequests h' ∨
    (∃ c msg, ev = .consumer ∧ h.onMessage = [⟨c,msg,(h.requests c).length,false⟩] ∧
      BringsRequest c msg h h') ∨
    ∃ i t, AnswersRequest i t h h' := by
  have net : ∀ {net : ServerInterface T} {posted : List (Posted T)},
      net.dispatched = h.net.dispatched →
      h.KeepsRequests { h with net := net, posted := posted } :=
    fun hd => ⟨fun c => by simp only [requests, hd],fun _ => rfl,List.Sublist.refl _⟩
  cases m with
  | accept approved =>
    left
    cases approved <;> exact ⟨fun _ => rfl,fun _ => rfl,List.Sublist.refl _⟩
  | io completion step => exact .inl (net (dispatched_io step))
  | task head step => exact .inl (net (dispatched_io step))
  | update step => exact .inl (net (dispatched_update step))
  | consumer step =>
    have hd := dispatched_consume hs step
    obtain ⟨c,msg,hhand,htask⟩ | ⟨hnone,hhand⟩ := h.onMessage_cases
    · refine .inr (.inl ⟨c,msg,rfl,htask,fun c' => ?_,fun _ => rfl,?_⟩)
      · simp only [requests, hd, ofConn_append, hhand]
        by_cases hc : c = c' <;> simp [OwnedMessage.ofConn, hc]
      · simp [tasks, htask]
    · refine .inl ⟨fun c => ?_,fun _ => rfl,?_⟩
      · simp only [requests, hd, ofConn_append, hhand, List.append_nil]
      · simp [tasks, hnone]
  | workerStart head =>
    refine .inl ⟨fun _ => rfl,fun _ => rfl,?_⟩
    simp [tasks, head]
  | @workerSend i msg t task first =>
    obtain ⟨hi,-⟩ := List.getElem?_eq_some_iff.mp task
    refine .inr (.inr ⟨i,t,?_,first,fun _ => rfl,fun c => ?_,?_⟩)
    · rw [tasks, List.getElem?_append_left hi, task]
    · by_cases hc : t.client = c <;> simp [repliesTo, sentTo, hc]
    · simp only [tasks, List.set_append_left i _ hi]
  | workerEnd =>
    refine .inl ⟨fun _ => rfl,fun _ => rfl,?_⟩
    exact (List.eraseIdx_sublist ..).append (List.Sublist.refl _)
  | @called ev r calls =>
    refine .inl ⟨fun _ => rfl,fun c => ?_,List.Sublist.refl _⟩
    simp only [repliesTo, sentTo, after, List.filter_append, List.filterMap_append,
      List.append_right_eq_self, List.filterMap_eq_nil_iff]
    exact fun sent hsent => reply_sends sent (List.mem_filter.mp hsent).1

end Requests

/-- The replies and the open tasks of a client are for different requests of it, and a task
holds the request that it is numbered after. -/
structure RequestInv (h : Host T) : Prop where
  once : ∀ c, (h.repliesTo c ++ openRequests c h.tasks).Nodup
  known : ∀ c, ∀ k ∈ h.repliesTo c, k < (h.requests c).length
  requested : ∀ t ∈ h.tasks, (h.requests t.client)[t.index]? = some ⟨some t.client,t.msg⟩

section Inv
variable {h h' : Host T}

theorem RequestInv.index_lt (hs : h.RequestInv) {t : Task T} (ht : t ∈ h.tasks) :
    t.index < (h.requests t.client).length := by
  obtain ⟨hlt,-⟩ := List.getElem?_eq_some_iff.mp (hs.requested t ht)
  exact hlt

theorem RequestInv.lt (hs : h.RequestInv) {c k : Nat}
    (hk : k ∈ h.repliesTo c ++ openRequests c h.tasks) : k < (h.requests c).length := by
  obtain hk | hk := List.mem_append.mp hk
  · exact hs.known c k hk
  · obtain ⟨t,ht,rfl,rfl⟩ := mem_openRequests hk
    exact hs.index_lt ht

theorem RequestInv.keep (hs : h.RequestInv) (m : h.KeepsRequests h') : h'.RequestInv := by
  refine ⟨fun c => ?_,fun c k hk => ?_,fun t ht => ?_⟩
  · rw [m.replies]
    exact (hs.once c).sublist ((List.Sublist.refl _).append (openRequests_sublist m.tasks))
  · rw [m.requests]
    rw [m.replies] at hk
    exact hs.known c k hk
  · rw [m.requests]
    exact hs.requested t (m.tasks.subset ht)

theorem RequestInv.bring (hs : h.RequestInv) {c : Nat} {msg : Message T}
    (m : BringsRequest c msg h h') : h'.RequestInv := by
  have longer : ∀ c', h.requests c' <+: h'.requests c' := by
    intro c'
    rw [m.requests]
    exact List.prefix_append _ _
  refine ⟨fun c' => ?_,fun c' k hk => ?_,fun t ht => ?_⟩
  · rw [m.replies, m.tasks, openRequests_append, openRequests_new, ← List.append_assoc]
    by_cases hc : c = c'
    · subst hc
      have hfresh : (h.requests c).length ∉ h.repliesTo c ++ openRequests c h.tasks :=
        fun hmem => Nat.lt_irrefl _ (hs.lt hmem)
      rw [if_pos rfl]
      exact List.nodup_append_comm.mp (List.nodup_cons.mpr ⟨hfresh,hs.once c⟩)
    · rw [if_neg hc, List.append_nil]
      exact hs.once c'
  · rw [m.replies] at hk
    exact Nat.lt_of_lt_of_le (hs.known c' k hk) (longer c').length_le
  · rw [m.tasks] at ht
    obtain ht | ht := List.mem_append.mp ht
    · obtain ⟨more,hmore⟩ := longer t.client
      rw [← hmore, List.getElem?_append_left (hs.index_lt ht)]
      exact hs.requested t ht
    · obtain rfl := List.mem_singleton.mp ht
      rw [m.requests, if_pos rfl]
      exact List.getElem?_concat_length

theorem RequestInv.answer (hs : h.RequestInv) {i : Nat} {t : Task T}
    (m : AnswersRequest i t h h') : h'.RequestInv := by
  have ht : t ∈ h.tasks := List.mem_of_getElem? m.task
  refine ⟨fun c => ?_,fun c k hk => ?_,fun t' ht' => ?_⟩
  · obtain ⟨before,after,hold,hnew⟩ := openRequests_reply m.task m.first c
    have honce := hs.once c
    rw [hold] at honce
    rw [m.replies, m.tasks, hnew]
    refine (List.Perm.nodup_iff ?_).mpr honce
    rw [List.append_assoc, List.append_assoc before]
    exact (List.perm_append_comm_assoc ..).append_left _
  · rw [m.requests]
    rw [m.replies] at hk
    obtain hk | hk := List.mem_append.mp hk
    · exact hs.known c k hk
    · split at hk
      · rename_i hc
        obtain rfl := List.mem_singleton.mp hk
        exact hc ▸ hs.index_lt ht
      · cases hk
  · rw [m.requests]
    rw [m.tasks] at ht'
    obtain hmem | rfl := List.mem_or_eq_of_mem_set ht'
    · exact hs.requested t' hmem
    · exact hs.requested t ht

def InTurn (c : Nat) (h : Host T) : Prop :=
  h.repliesTo c = List.range (h.repliesTo c).length ∧
    (openRequests c h.tasks = [] ∨ openRequests c h.tasks = [(h.repliesTo c).length])

theorem InTurn.keep {c : Nat} (hs : h.InTurn c) (m : h.KeepsRequests h') : h'.InTurn c := by
  obtain ⟨hrange,hopen⟩ := hs
  have hsub := openRequests_sublist (c := c) m.tasks
  refine ⟨by rw [m.replies]; exact hrange,?_⟩
  rw [m.replies]
  obtain hnil | hone := hopen
  · rw [hnil] at hsub
    exact .inl (List.sublist_nil.mp hsub)
  · rw [hone] at hsub
    exact List.sublist_singleton.mp hsub

theorem InTurn.bring {c c' : Nat} {msg : Message T} (hs : h.InTurn c) (hinv : h.RequestInv)
    (m : BringsRequest c' msg h h')
    (hwait : c' = c → (h.repliesTo c).length = (h.requests c).length) : h'.InTurn c := by
  obtain ⟨hrange,hopen⟩ := hs
  refine ⟨by rw [m.replies]; exact hrange,?_⟩
  rw [m.replies, m.tasks, openRequests_append, openRequests_new]
  by_cases hc : c' = c
  · subst hc
    have hlen := hwait rfl
    obtain hnil | hone := hopen
    · right
      rw [hnil, if_pos rfl, hlen]
      rfl
    · -- the open request would be one that has not come yet
      have hlt := hinv.lt (c := c') (k := (h.repliesTo c').length) (by simp [hone])
      exact absurd hlen (Nat.ne_of_lt hlt)
  · rw [if_neg hc, List.append_nil]
    exact hopen

theorem InTurn.answer {c i : Nat} {t : Task T} (hs : h.InTurn c) (m : AnswersRequest i t h h') :
    h'.InTurn c := by
  obtain ⟨hrange,hopen⟩ := hs
  obtain ⟨before,after,hold,hnew⟩ := openRequests_reply m.task m.first c
  unfold InTurn
  rw [m.replies, m.tasks, hnew]
  by_cases hc : t.client = c
  · rw [if_pos hc] at hold ⊢
    rw [hold] at hopen
    obtain hnil | hone := hopen
    · simp at hnil
    · -- the task that replies is the only open one
      have hlen := congrArg List.length hone
      simp only [List.length_append, List.length_cons, List.length_nil] at hlen
      obtain rfl : before = [] := List.length_eq_zero_iff.mp (by omega)
      obtain rfl : after = [] := List.length_eq_zero_iff.mp (by omega)
      have hnext : t.index = (h.repliesTo c).length := by simpa using hone
      refine ⟨?_,.inl rfl⟩
      rw [hnext, List.length_append, List.length_singleton, List.range_succ, ← hrange]
  · rw [if_neg hc, List.append_nil] at hold ⊢
    rw [hold] at hopen
    exact ⟨hrange,hopen⟩

end Inv

section Runs
variable [EnumId T] {h h' : Host T}

theorem requestInv_moves {ev : HostEvent T} (hdispatch : DispatchInv h.net) (hs : h.RequestInv)
    (m : h.Moves ev h') : h'.RequestInv := by
  obtain hkeep | ⟨c,msg,-,-,hbring⟩ | ⟨i,t,hanswer⟩ := requests_moves hdispatch m
  · exact hs.keep hkeep
  · exact hs.bring hbring
  · exact hs.answer hanswer

theorem inTurn_moves {c : Nat} {ev : HostEvent T} (hdispatch : DispatchInv h.net)
    (hinv : h.RequestInv) (hs : h.InTurn c) (hwait : Waits c h ev) (m : h.Moves ev h') :
    h'.InTurn c := by
  obtain hkeep | ⟨c',msg,rfl,htask,hbring⟩ | ⟨i,t,hanswer⟩ := requests_moves hdispatch m
  · exact hs.keep hkeep
  · refine hs.bring hinv hbring fun hc => ?_
    subst hc
    exact hwait _ (by rw [htask]; exact List.mem_singleton_self _) rfl
  · exact hs.answer hanswer

theorem requestInv_start (now : Nat → UInt64) : (start now : Host T).RequestInv := by
  refine ⟨fun c => List.nodup_nil,fun c k hk => ?_,fun t ht => ?_⟩
  · cases hk
  · cases ht

structure ReplyInv (h : Host T) : Prop where
  dispatch : DispatchInv h.net
  sends : h.SendsInOrder
  request : h.RequestInv

theorem replyInv_step {ev : HostEvent T} (hs : h.ReplyInv) (ht : h.step ev = some h') :
    h'.ReplyInv := by
  have m := moves_step h ht
  exact ⟨dispatchInv_moves hs.dispatch m,sendsInOrder_moves hs.sends m,
    requestInv_moves hs.dispatch hs.request m⟩

theorem replyInv_start (now : Nat → UInt64) : (start now : Host T).ReplyInv :=
  ⟨dispatchInv_hostStart now,sendsInOrder_start now,requestInv_start now⟩

theorem replyInv_exec {now : Nat → UInt64} {as : List (HostEvent T)}
    (run : exec step (start now) as = some h) : h.ReplyInv :=
  exec_invariant (fun _ _ _ => replyInv_step) (replyInv_start now) run

theorem inTurn_run {now : Nat → UInt64} {as : List (HostEvent T)} {c : Nat}
    (meets : Meets step (Waits c) (start now) as) (run : exec step (start now) as = some h) :
    h.InTurn c := by
  refine exec_reached (I := fun _ h => h.InTurn c) ⟨rfl,.inl rfl⟩ ?_ meets run
  intro as h ev h' reached hturn hwait hstep
  have hinv := replyInv_exec reached
  exact inTurn_moves hinv.dispatch hinv.request hturn hwait (moves_step h hstep)

/-- In every interleaving of the workers with the io thread, the frames written to a client
are those of the messages sent to it, in the order of the calls of `Send`. The replies among
them answer different requests of the client, and they follow its requests when it has one
open at a time. -/
theorem replies_inOrder {now : Nat → UInt64} {as : List (HostEvent T)}
    (run : exec step (start now) as = some h) (c : Nat) :
    emitted (h.net.acts c) <+: frames ((h.sentTo c).map Sent.msg) ∧
    h.requests c <+: pushes (h.net.acts c) ∧
    (∀ t ∈ h.tasks, t.client = c → (h.requests c)[t.index]? = some ⟨some c,t.msg⟩) ∧
    (h.repliesTo c).Nodup ∧ (∀ k ∈ h.repliesTo c, k < (h.requests c).length) ∧
    (Meets step (Waits c) (start now) as →
      h.repliesTo c = List.range (h.repliesTo c).length) := by
  have hinv := replyInv_exec run
  refine ⟨?_,?_,?_,(hinv.request.once c).of_append_left,hinv.request.known c,
    fun meets => (inTurn_run meets run).1⟩
  · obtain ⟨evs,⟨done,hsplit,hstate⟩,hsent⟩ := hinv.sends c
    rw [← hsent, frames_append, hsplit]
    exact hstate.inOrder.trans (List.prefix_append _ _)
  · have hattr := hinv.dispatch.attributed c
    rw [List.append_assoc, ofConn_append] at hattr
    exact ⟨_,hattr⟩
  · rintro t ht rfl
    exact hinv.request.requested t ht

end Runs

theorem replies_inOrder_waiting :
    ∃ h : Host NetMsgType, exec step (start fun _ => 5) [.accept true,
      .io 0 (.readDone .validation (LittleEndian.ofUInt64 (scramble 5))),
      .io 0 (.readDone .header [0,0,0,0,0,0,0,0]), .update 2 true, .consumer, .consumer,
      .consumer, .consumer, .workerStart, .workerSend 0 ⟨⟨.kFailed,0⟩,[]⟩, .workerEnd 0, .task,
      .io 0 (.writeDone .validation), .io 0 (.writeDone .header),
      .io 0 (.readDone .header [0,0,0,0,0,0,0,0]), .consumer, .consumer, .consumer,
      .workerStart, .workerSend 0 ⟨⟨.kFailed,0⟩,[]⟩, .task] = some h ∧
      h.repliesTo 0 = List.range 2 := by
  refine exists_exec (by decide) fun h run => ?_
  have hturn := (replies_inOrder run 0).2.2.2.2.2 (by decide)
  have hlen : (h.repliesTo 0).length = 2 := by
    cases run
    rfl
  rwa [hlen] at hturn

/-- A client whose two requests came to `OnMessage` before a worker replied to one: the
second worker is faster, and its reply is written first, whatever the two are. -/
theorem replies_overtake :
    ∃ h : Host NetMsgType, exec step (start fun _ => 5) [.accept true,
      .io 0 (.readDone .validation (LittleEndian.ofUInt64 (scramble 5))),
      .io 0 (.readDone .header [0,0,0,0,0,0,0,0]), .io 0 (.readDone .header [0,0,0,0,0,0,0,0]),
      .update 2 false, .consumer, .consumer, .consumer, .consumer, .consumer, .consumer,
      .workerStart, .workerStart] = some h ∧
    ∀ first second : Message NetMsgType, ∃ h',
      exec step h [.workerSend 1 second, .workerSend 0 first, .task, .task] = some h' ∧
      (h'.net.conns 0).qMessagesOut = [second,first] ∧
      h'.repliesTo 0 = [1,0] ∧ h'.repliesTo 0 ≠ List.range 2 := by
  have hne : [1,0] ≠ List.range 2 := by decide
  exact ⟨_,rfl,fun first second => ⟨_,rfl,rfl,rfl,hne⟩⟩

end Host

end TransmissionPlatform.Net
