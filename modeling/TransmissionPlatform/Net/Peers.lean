import TransmissionPlatform.Net.Completion
import TransmissionPlatform.Net.Container
import TransmissionPlatform.Net.FirstContact
import TransmissionPlatform.Net.Replies

/-!
The server among its clients: at the other end of each connection that it accepts there is a
client, and the two exchange bytes as the ends of one link do. All connections run on the one
io thread of the server, whose tasks wait in one queue; still each of them is a link.
-/

set_option autoImplicit false

namespace TransmissionPlatform.Net
open LittleEndian StepSystem

variable {T : Type}

/-- The host, and the client at the other end of each connection: of the first one accepted, the
second one, and so on. -/
structure Peers (T : Type) where
  host : Host T
  clients : Nat → Io T
  readByClient : Nat → List UInt8 := fun _ => []
  readByServer : Nat → List UInt8 := fun _ => []

inductive PeersEvent (T : Type) where
  | host (ev : HostEvent T)
  | client (c : Nat) (ev : Event T)

def serverReads (clients : Nat → Io T) (read : Nat → List UInt8) :
    HostEvent T → Option (Nat → List UInt8)
  | .io c ev =>
    if read c ++ ev.bytesRead <+: (clients c).stream then
      some (Function.update read c (read c ++ ev.bytesRead))
    else none
  | _ => some read

def HostEvent.message? : HostEvent T → Option (Message T)
  | .workerSend _ msg | .send _ msg | .messageClient _ msg | .messageAllClients msg _ => some msg
  | _ => none

def HostEvent.goesOn : HostEvent T → Bool
  | .io _ ev => ev.goesOn
  | .disconnect _ | .messageClient _ _ | .messageAllClients _ _ => false
  | _ => true

namespace PeersEvent

def goesOn : PeersEvent T → Bool
  | .host ev => ev.goesOn
  | .client _ ev => ev.goesOn

def client? (c : Nat) : PeersEvent T → Option (Event T)
  | .client c' ev => if c' = c then some ev else none
  | .host _ => none

def completes (c : Nat) : PeersEvent T → Bool
  | .client c' ev => c' = c && ev.isCallback
  | .host (.io c' ev) => c' = c && ev.isCallback
  | .host _ => false

end PeersEvent

def sentBy (c : Nat) (es : List (PeersEvent T)) : List (Message T) :=
  sentTasks (es.filterMap (·.client? c))

theorem sentBy_snoc (c : Nat) (es : List (PeersEvent T)) (e : PeersEvent T) :
    sentBy c (es ++ [e]) = sentBy c es ++ sentTasks (e.client? c).toList := by
  rw [sentBy, List.filterMap_append, sentTasks_append, List.filterMap_cons]
  cases e.client? c <;> rfl

namespace Peers

def link (s : Peers T) (c : Nat) : Link T :=
  ⟨s.clients c,s.host.net.view c,s.readByClient c,s.readByServer c⟩

variable [EnumId T]

def start (now : Nat → UInt64) : Peers T where
  host := .start now
  clients c := Io.connectToServer ⟨.new c .kClient false 0,[],[]⟩

def step (s : Peers T) : PeersEvent T → Option (Peers T)
  | .host ev =>
    (serverReads s.clients s.readByServer ev).bind fun read =>
      (s.host.step ev).map fun host => { s with host := host, readByServer := read }
  | .client c ev =>
    if s.readByClient c ++ ev.bytesRead <+: (s.host.net.view c).stream then
      ((s.clients c).step ev).map fun io =>
        { s with clients := Function.update s.clients c io
                 readByClient :=
                   Function.update s.readByClient c (s.readByClient c ++ ev.bytesRead) }
    else none

/-- The server approves every client and sends to validated ones, a client sends when it has
responded, and what they send is well formed. No connection is destroyed under its callbacks. -/
def Allowed (s : Peers T) : PeersEvent T → Prop
  | .host ev => ev ≠ .accept false ∧ (∀ msg ∈ ev.message?, msg.Announced) ∧
      s.host.OnlyValidated ev ∧ s.host.KeepsHeld ev
  | .client c ev => InTurn (s.link c) (.client ev)

instance [DecidableEq T] (s : Peers T) : ∀ ev, Decidable (s.Allowed ev)
  | .host ev =>
    have : Decidable (ev ≠ .accept false) :=
      match ev with
      | .accept false => isFalse fun h => h rfl
      | .accept true | .io _ _ | .task | .update _ _ | .consumer | .workerStart | .workerSend _ _ |
        .workerEnd _ | .send _ _ | .disconnect _ | .messageClient _ _ | .messageAllClients _ _ =>
        isTrue fun h => nomatch h
    inferInstanceAs (Decidable (ev ≠ .accept false ∧ (∀ msg ∈ ev.message?, msg.Announced) ∧
      s.host.OnlyValidated ev ∧ s.host.KeepsHeld ev))
  | .client c ev => inferInstanceAs (Decidable (InTurn (s.link c) (.client ev)))

end Peers

structure Host.PostsOnly (h : Host T) (ev : HostEvent T) (h' : Host T) : Prop where
  noTurn : ∀ c own, ev ≠ .io c own
  view : ∀ c, h'.net.view c = h.net.view c
  accepted : h'.accepted = h.accepted
  grows : ∃ new, h'.posted = h.posted ++ new ∧
    (∀ c, (h'.sentTo c).map Sent.msg = (h.sentTo c).map Sent.msg ++ new.filterMap (·.toSend c)) ∧
    (ev.goesOn = true → ∀ c, .close c ∉ new)
  sent : ∀ x ∈ h'.sent, x ∈ h.sent ∨ ev.message? = some x.msg

theorem Host.PostsOnly.quiet {h h' : Host T} {ev : HostEvent T}
    (noTurn : ∀ c own, ev ≠ .io c own) (view : ∀ c, h'.net.view c = h.net.view c) (accepted : h'.accepted = h.accepted)
    (posted : h'.posted = h.posted) (sent : h'.sent = h.sent) : h.PostsOnly ev h' :=
  ⟨noTurn,view,accepted,⟨[],by simp [posted],by simp [Host.sentTo, sent],by simp⟩,
    fun _ hx => .inl (sent ▸ hx)⟩

theorem Host.postsOnly_called {h : Host T} {ev : HostEvent T} {r : Clients T}
    (calls : h.called ev = some r) : h.PostsOnly ev (h.after r) := by
  refine ⟨?_,fun _ => rfl,rfl,⟨_,rfl,fun c => ?_,?_⟩,?_⟩
  · rintro c own rfl
    cases calls
  · rw [toSend_posts]
    simp [Host.sentTo, Host.after]
  · intro hev c hc
    cases ev with
    | send c' msg =>
      simp only [Host.called] at calls
      split at calls <;> cases calls
      cases List.mem_singleton.mp hc
    | disconnect c' | messageClient c' msg | messageAllClients msg p => cases hev
    | _ => cases calls
  · intro x hx
    obtain hx | hx := List.mem_append.mp hx
    · exact .inl hx
    · right
      obtain ⟨call,hcall,hx⟩ := List.mem_flatMap.mp hx
      cases call with
      | onClientDisconnect client => cases hx
      | send c msg =>
        obtain rfl := List.mem_singleton.mp hx
        have hpost : .send c msg ∈ r.calls.flatMap h.posts :=
          List.mem_flatMap.mpr ⟨_,hcall,List.mem_singleton_self _⟩
        obtain rfl | ⟨rfl,-⟩ | ⟨p,rfl,-⟩ := (callEffects_called calls).sends c msg hpost <;> rfl

section Steps
variable [EnumId T] {h h' : Host T} {ev : HostEvent T}

/-- A step accepts a client, is the turn of one connection, or only posts. -/
theorem Host.turn_moves (m : h.Moves ev h') :
    (∃ approved, ev = .accept approved ∧ h' = h.accept approved) ∨
    (∃ c own net, ev = .io c own ∧ own.isTask = false ∧ h.net.step (.io c own) = some net ∧
      h' = { h with net := net }) ∨
    (∃ p rest net, ev = .task ∧ h.posted = p :: rest ∧
      h.net.step (.io p.client p.event) = some net ∧
      h' = { h with net := net, posted := rest }) ∨
    h.PostsOnly ev h' := by
  cases m with
  | accept approved => exact .inl ⟨approved,rfl,rfl⟩
  | io completion step => exact .inr (.inl ⟨_,_,_,rfl,completion,step,rfl⟩)
  | task head step => exact .inr (.inr (.inl ⟨_,_,_,rfl,head,step,rfl⟩))
  | update step => exact .inr (.inr (.inr (.quiet nofun (view_update step) rfl rfl rfl)))
  | consumer step => exact .inr (.inr (.inr (.quiet nofun (view_consume step) rfl rfl rfl)))
  | workerStart head => exact .inr (.inr (.inr (.quiet nofun (fun _ => rfl) rfl rfl rfl)))
  | workerEnd => exact .inr (.inr (.inr (.quiet nofun (fun _ => rfl) rfl rfl rfl)))
  | @workerSend i msg t task first =>
    refine .inr (.inr (.inr ⟨nofun,fun _ => rfl,rfl,⟨_,rfl,fun c => ?_,by simp⟩,fun x hx => ?_⟩))
    · by_cases hc : t.client = c <;> simp [Host.sentTo, Posted.toSend, hc]
    · refine (List.mem_append.mp hx).imp_right fun hx => ?_
      obtain rfl := List.mem_singleton.mp hx
      rfl
  | called calls => exact .inr (.inr (.inr (Host.postsOnly_called calls)))

end Steps

theorem serverReads_cases {clients : Nat → Io T} {read read' : Nat → List UInt8} {ev : HostEvent T}
    (h : serverReads clients read ev = some read') :
    (∃ c own, ev = .io c own ∧ read c ++ own.bytesRead <+: (clients c).stream ∧
      read' = Function.update read c (read c ++ own.bytesRead)) ∨
    ((∀ c own, ev ≠ .io c own) ∧ read' = read) := by
  cases ev with
  | io c own =>
    simp only [serverReads] at h
    split at h <;> cases h
    exact .inl ⟨c,own,rfl,‹_›,rfl⟩
  | _ =>
    cases h
    exact .inr ⟨nofun,rfl⟩

theorem toSend_none {posted : List (Posted T)} {c : Nat} (h : ∀ p ∈ posted, p.client ≠ c) :
    posted.filterMap (·.toSend c) = [] := by
  refine List.filterMap_eq_nil_iff.mpr fun p hp => ?_
  cases p with
  | send client msg => exact if_neg (h _ hp)
  | close client => rfl

theorem completes_host {ev : HostEvent T} (h : ∀ c own, ev ≠ .io c own) (c : Nat) :
    (PeersEvent.host ev).completes c = false := by
  cases ev with
  | io c own => exact absurd rfl (h c own)
  | _ => rfl

variable [EnumId T]

/-- What the run `es` is for connection `c` alone: the run `as` of a link. -/
structure Linked (now : Nat → UInt64) (es : List (PeersEvent T)) (c : Nat) (uid : UInt32)
    (as : List (LinkAct T)) (l : Link T) : Prop where
  meets : Meets Link.step InTurn (Link.start c c (now c) uid [] []) as
  run : exec Link.step (Link.start c c (now c) uid [] []) as = some l
  client : clientEvents as = es.filterMap (·.client? c)
  calm : (∀ e ∈ es, e.goesOn = true) → ∀ act ∈ as, act.event.goesOn = true
  completions : as.countP (·.event.isCallback) = es.countP (·.completes c)

section Linked
variable {now : Nat → UInt64} {es : List (PeersEvent T)} {c : Nat} {uid : UInt32}
  {as : List (LinkAct T)} {l l' : Link T} {e : PeersEvent T}

theorem Linked.inv (h : Linked now es c uid as l) :
    LinkInv [] (Link.start c c (now c) uid [] []) as l := linkInv_run h.meets h.run

theorem Linked.live (h : Linked now es c uid as l) (hcalm : ∀ e ∈ es, e.goesOn = true) :
    LinkLive [] (Link.start c c (now c) uid [] []) as l := by
  refine linkLive_run (meets_iff.mpr fun bs a t hbs run => ?_) h.run
  exact ⟨meets_iff.mp h.meets bs a t hbs run,
    h.calm hcalm a (hbs.subset (List.mem_append_right _ (List.mem_singleton_self a)))⟩

theorem Linked.turn {a : LinkAct T} (h : Linked now es c uid as l) (hstep : l.step a = some l')
    (hturn : InTurn l a) (hclient : a.client? = e.client? c)
    (hcalm : (∀ e' ∈ es ++ [e], e'.goesOn = true) → a.event.goesOn = true)
    (hcompletes : a.event.isCallback = e.completes c) :
    Linked now (es ++ [e]) c uid (as ++ [a]) l' := by
  refine ⟨h.meets.append h.run ⟨hturn,fun _ _ => trivial⟩,exec_snoc.mpr ⟨l,h.run,hstep⟩,?_,?_,?_⟩
  · rw [clientEvents, List.filterMap_append, List.filterMap_append, ← h.client]
    simp [clientEvents, List.filterMap_cons, hclient]
  · intro hall act' hact'
    obtain hold | hnew := List.mem_append.mp hact'
    · exact h.calm (fun e' he' => hall e' (List.mem_append_left _ he')) act' hold
    · obtain rfl := List.mem_singleton.mp hnew
      exact hcalm hall
  · rw [List.countP_append, List.countP_append, h.completions]
    simp [hcompletes]

theorem Linked.skip (h : Linked now es c uid as l) (hclient : e.client? c = none)
    (hcompletes : e.completes c = false) : Linked now (es ++ [e]) c uid as l := by
  refine ⟨h.meets,h.run,?_,fun hall => h.calm fun e' he' => hall e' (List.mem_append_left _ he'),?_⟩
  · rw [List.filterMap_append, h.client]
    simp [hclient]
  · rw [List.countP_append, h.completions]
    simp [hcompletes]

end Linked

namespace Peers

def SendsOf (h : Host T) (c : Nat) (as : List (LinkAct T)) : Prop :=
  sentTasks (serverEvents as) ++ h.posted.filterMap (·.toSend c) = (h.sentTo c).map Sent.msg

def IsLink (now : Nat → UInt64) (es : List (PeersEvent T)) (s : Peers T) (c : Nat) : Prop :=
  ∃ uid as, Linked now es c uid as (s.link c) ∧ SendsOf s.host c as

structure Waits (now : Nat → UInt64) (es : List (PeersEvent T)) (s : Peers T) (c : Nat) : Prop where
  view : s.host.net.view c = ⟨.new c .kServer true (now c),[],[]⟩
  readByServer : s.readByServer c = []
  readByClient : s.readByClient c = []
  unsent : s.host.sentTo c = []
  silent : sentBy c es = []
  client : ∀ uid, ∃ as, serverEvents as = [] ∧ Linked now es c uid as
    ⟨s.clients c,(Link.start c c (now c) uid [] [] : Link T).server,s.readByClient c,[]⟩

structure PeersInv (now : Nat → UInt64) (es : List (PeersEvent T)) (s : Peers T) : Prop where
  known : s.host.Known now
  contact : s.host.ContactInv
  announced : ∀ x ∈ s.host.sent, x.msg.Announced
  noCloses : (∀ e ∈ es, e.goesOn = true) → ∀ c, .close c ∉ s.host.posted
  links : ∀ c, c < s.host.accepted → IsLink now es s c
  waits : ∀ c, s.host.accepted ≤ c → Waits now es s c

section Steps
variable {now : Nat → UInt64} {es : List (PeersEvent T)} {s s' : Peers T} {e : PeersEvent T}

theorem IsLink.skip {c : Nat} (h : IsLink now es s c) (hlink : s'.link c = s.link c)
    (hposted : s'.host.posted = s.host.posted) (hsent : s'.host.sent = s.host.sent)
    (hclient : e.client? c = none) (hcompletes : e.completes c = false) :
    IsLink now (es ++ [e]) s' c := by
  obtain ⟨uid,as,hlinked,hsends⟩ := h
  refine ⟨uid,as,hlink ▸ hlinked.skip hclient hcompletes,?_⟩
  simpa only [SendsOf, Host.sentTo, hposted, hsent] using hsends

theorem Waits.skip {c : Nat} (h : Waits now es s c) (hlink : s'.link c = s.link c)
    (hsent : s'.host.sentTo c = s.host.sentTo c) (hclient : e.client? c = none)
    (hcompletes : e.completes c = false) : Waits now (es ++ [e]) s' c := by
  simp only [link, Link.mk.injEq] at hlink
  obtain ⟨hclients,hview,hread,hread'⟩ := hlink
  refine ⟨hview.trans h.view,hread'.trans h.readByServer,hread.trans h.readByClient,
    hsent.trans h.unsent,?_,fun uid => ?_⟩
  · rw [sentBy_snoc, h.silent, hclient]
    rfl
  obtain ⟨as,hserver,hlinked⟩ := h.client uid
  refine ⟨as,hserver,?_⟩
  rw [hclients, hread]
  exact hlinked.skip hclient hcompletes

theorem peersInv_client {c : Nat} {ev : Event T} (hs : PeersInv now es s)
    (hturn : InTurn (s.link c) (.client ev)) (h : s.step (.client c ev) = some s') :
    PeersInv now (es ++ [.client c ev]) s' := by
  simp only [step] at h
  split at h
  · rename_i hread
    obtain ⟨io,hio,rfl⟩ := Option.map_eq_some_iff.mp h
    have other : ∀ c', c' ≠ c → (PeersEvent.client c ev).client? c' = none ∧
        (PeersEvent.client c ev).completes c' = false := by
      intro c' hc
      simp [PeersEvent.client?, PeersEvent.completes, hc.symm]
    have unchanged : ∀ c', c' ≠ c → link { s with
        clients := Function.update s.clients c io
        readByClient := Function.update s.readByClient c (s.readByClient c ++ ev.bytesRead) } c' =
        s.link c' := by
      intro c' hc
      simp [link, Function.update_of_ne hc]
    have hcalm : (∀ e ∈ es ++ [PeersEvent.client c ev], e.goesOn = true) → ev.goesOn = true :=
      fun hall => hall (.client c ev) (by simp)
    refine ⟨hs.known,hs.contact,hs.announced,
      fun hall => hs.noCloses fun e he => hall e (List.mem_append_left _ he),fun c' hc' => ?_,
      fun c' hc' => ?_⟩
    · by_cases hc : c' = c
      · subst hc
        obtain ⟨uid,as,hlinked,hsends⟩ := hs.links c' hc'
        refine ⟨uid,as ++ [.client ev],hlinked.turn (a := .client ev) ?_ hturn ?_ hcalm ?_,?_⟩
        · simp [Link.step, link, hread, hio]
        · simp [LinkAct.client?, PeersEvent.client?]
        · simp [LinkAct.event, PeersEvent.completes]
        · simpa [SendsOf, serverEvents, List.filterMap_cons, LinkAct.server?] using hsends
      · exact (hs.links c' hc').skip (unchanged c' hc) rfl rfl (other c' hc).1 (other c' hc).2
    · by_cases hc : c' = c
      · subst hc
        have hw := hs.waits c' hc'
        have hnone : s.readByClient c' ++ ev.bytesRead = [] := by
          rw [hw.view] at hread
          exact List.prefix_nil.mp hread
        obtain ⟨hempty,hbytes⟩ := List.append_eq_nil_iff.mp hnone
        refine ⟨hw.view,hw.readByServer,by simp [hempty, hbytes],hw.unsent,?_,fun uid => ?_⟩
        · obtain ⟨as,-,hlinked⟩ := hw.client 0
          have hsilent := hlinked.inv.unresponded hempty
          have hnot : sentTasks [ev] = [] := by
            cases ev with
            | sendTask msg => exact absurd hturn.2 hsilent
            | _ => rfl
          rw [sentBy_snoc, hw.silent]
          simpa [PeersEvent.client?] using hnot
        obtain ⟨as,hserver,hlinked⟩ := hw.client uid
        refine ⟨as ++ [.client ev],?_,hlinked.turn (a := .client ev) ?_ ?_ ?_ hcalm ?_⟩
        · simpa [serverEvents, LinkAct.server?] using hserver
        · simp [Link.step, hnone, hio]
        · cases ev <;> exact hturn
        · simp [LinkAct.client?, PeersEvent.client?]
        · simp [LinkAct.event, PeersEvent.completes]
      · exact (hs.waits c' hc').skip (unchanged c' hc) rfl (other c' hc).1 (other c' hc).2
  · cases h

theorem peersInv_turn {c : Nat} {own : Event T} {ev : HostEvent T} {net : ServerInterface T}
    {posted : List (Posted T)} {read : Nat → List UInt8} (hs : PeersInv now es s)
    (hknown : Host.Known now { s.host with net := net, posted := posted })
    (hcontact : Host.ContactInv { s.host with net := net, posted := posted })
    (hc : c < s.host.accepted) (step : s.host.net.step (.io c own) = some net)
    (hturn : InTurn (s.link c) (.server own))
    (hbytes : s.readByServer c ++ own.bytesRead <+: (s.clients c).stream)
    (hread : read = Function.update s.readByServer c (s.readByServer c ++ own.bytesRead))
    (hsuffix : posted <:+ s.host.posted)
    (hposted : ∀ c', s.host.posted.filterMap (·.toSend c') =
      (if c' = c then sentTasks [own] else []) ++ posted.filterMap (·.toSend c'))
    (hcalm : (∀ e ∈ es ++ [PeersEvent.host ev], e.goesOn = true) → own.goesOn = true)
    (hcompletes : ∀ c', (PeersEvent.host ev).completes c' = (decide (c' = c) && own.isCallback)) :
    PeersInv now (es ++ [.host ev])
      { s with host := { s.host with net := net, posted := posted }, readByServer := read } := by
  subst hread
  obtain ⟨hown,hothers⟩ := view_io step
  have unchanged : ∀ c', c' ≠ c → link { s with
      host := { s.host with net := net, posted := posted }
      readByServer := Function.update s.readByServer c (s.readByServer c ++ own.bytesRead) } c' =
      s.link c' := by
    intro c' hne
    simp [link, Function.update_of_ne hne, hothers c' hne]
  refine ⟨hknown,hcontact,hs.announced,fun hall c' hmem => ?_,fun c' hc' => ?_,fun c' hc' => ?_⟩
  · exact hs.noCloses (fun e he => hall e (List.mem_append_left _ he)) c' (hsuffix.subset hmem)
  · obtain ⟨uid,as,hlinked,hsends⟩ := hs.links c' hc'
    by_cases hne : c' = c
    · subst hne
      refine ⟨uid,as ++ [.server own],hlinked.turn (a := .server own) ?_ hturn rfl hcalm
        (by simp [hcompletes, LinkAct.event]),?_⟩
      · simp [Link.step, link, hbytes, hown]
      · rw [SendsOf, hposted, if_pos rfl, ← List.append_assoc] at hsends
        simpa [SendsOf, serverEvents, LinkAct.server?, Host.sentTo] using hsends
    · refine ⟨uid,as,unchanged c' hne ▸ hlinked.skip rfl (by simp [hcompletes, hne]),?_⟩
      rw [SendsOf, hposted, if_neg hne, List.nil_append] at hsends
      exact hsends
  · have hne : c' ≠ c := by
      rintro rfl
      exact Nat.lt_irrefl _ (Nat.lt_of_lt_of_le hc hc')
    exact (hs.waits c' hc').skip (unchanged c' hne) rfl rfl (by simp [hcompletes, hne])

theorem peersInv_posts {ev : HostEvent T} {host : Host T} (hs : PeersInv now es s)
    (hknown : host.Known now) (hcontact : host.ContactInv) (m : s.host.PostsOnly ev host)
    (hmsg : ∀ msg ∈ ev.message?, msg.Announced) :
    PeersInv now (es ++ [.host ev]) { s with host := host } := by
  have hcompletes := completes_host m.noTurn
  obtain ⟨new,hposted,hsent,hcloses⟩ := m.grows
  have hlink : ∀ c, link { s with host := host } c = s.link c := fun c => by simp [link, m.view c]
  refine ⟨hknown,hcontact,fun x hx => ?_,fun hall c hmem => ?_,fun c hc => ?_,fun c hc => ?_⟩
  · exact (m.sent x hx).elim (hs.announced x) (hmsg x.msg)
  · rw [hposted] at hmem
    obtain hold | hnew := List.mem_append.mp hmem
    · exact hs.noCloses (fun e he => hall e (List.mem_append_left _ he)) c hold
    · exact hcloses (hall (.host ev) (by simp)) c hnew
  · obtain ⟨uid,as,hlinked,hsends⟩ := hs.links c (m.accepted ▸ hc)
    refine ⟨uid,as,hlink c ▸ hlinked.skip rfl (hcompletes c),?_⟩
    rw [SendsOf, hsent, ← hsends, hposted, List.filterMap_append, List.append_assoc]
  · have hw := hs.waits c (m.accepted ▸ hc)
    refine hw.skip (hlink c) ?_ rfl (hcompletes c)
    -- nothing is posted for a client that was not accepted
    have hnone : new.filterMap (·.toSend c) = [] := toSend_none fun p hp =>
      Nat.ne_of_lt (Nat.lt_of_lt_of_le (hknown.posted p (hposted ▸ List.mem_append_right _ hp)) hc)
    have hmap := hsent c
    rw [hw.unsent, hnone] at hmap
    rw [hw.unsent]
    exact List.map_eq_nil_iff.mp hmap

theorem peersInv_accept (hs : PeersInv now es s) (hknown : (s.host.accept true).Known now)
    (hcontact : (s.host.accept true).ContactInv) :
    PeersInv now (es ++ [.host (.accept true)]) { s with host := s.host.accept true } := by
  obtain ⟨hnew,hothers⟩ := view_connectToClient s.host.net s.host.accepted s.host.nIDCounter
  have hw := hs.waits s.host.accepted (Nat.le_refl _)
  have unchanged : ∀ c, c ≠ s.host.accepted →
      link { s with host := s.host.accept true } c = s.link c := by
    intro c hne
    simp [link, Host.accept, hothers c hne]
  refine ⟨hknown,hcontact,hs.announced,fun hall c hmem => ?_,fun c hc => ?_,fun c hc => ?_⟩
  · exact hs.noCloses (fun e he => hall e (List.mem_append_left _ he)) c hmem
  · obtain hlt | rfl := Nat.lt_succ_iff_lt_or_eq.mp hc
    · exact (hs.links c hlt).skip (unchanged c (Nat.ne_of_lt hlt)) rfl rfl rfl rfl
    · obtain ⟨as,hserver,hlinked⟩ := hw.client s.host.nIDCounter
      refine ⟨s.host.nIDCounter,as,?_,?_⟩
      · have hlink : link { s with host := s.host.accept true } s.host.accepted =
            ⟨s.clients s.host.accepted,(Link.start s.host.accepted s.host.accepted
              (now s.host.accepted) s.host.nIDCounter [] [] : Link T).server,
              s.readByClient s.host.accepted,[]⟩ := by
          simp [link, Host.accept, hnew, hw.view, hw.readByServer, Link.start]
        exact hlink ▸ hlinked.skip rfl rfl
      · have hposted := toSend_none fun p hp => Nat.ne_of_lt (hs.known.posted p hp)
        show sentTasks (serverEvents as) ++ s.host.posted.filterMap (·.toSend s.host.accepted) =
          (s.host.sentTo s.host.accepted).map Sent.msg
        rw [hserver, hposted, hw.unsent]
        rfl
  · have hne : c ≠ s.host.accepted := fun heq => Nat.lt_irrefl c (Nat.lt_of_succ_le (heq ▸ hc))
    exact (hs.waits c (Nat.le_of_succ_le hc)).skip (unchanged c hne) rfl rfl rfl

theorem peersInv_host {ev : HostEvent T} (hs : PeersInv now es s) (hcond : s.Allowed (.host ev))
    (h : s.step (.host ev) = some s') : PeersInv now (es ++ [.host ev]) s' := by
  obtain ⟨happroved,hmsg,hvalidated,-⟩ := hcond
  simp only [step, Option.bind_eq_some_iff, Option.map_eq_some_iff] at h
  obtain ⟨read,hread,host,hhost,rfl⟩ := h
  have m := Host.moves_step s.host hhost
  have hknown := Host.known_moves hs.known m
  have hcontact := Host.contactInv_moves hs.contact hvalidated m
  obtain ⟨approved,rfl,rfl⟩ | ⟨c,own,net,rfl,htask,hstep,rfl⟩ | ⟨p,rest,net,rfl,head,hstep,rfl⟩ |
    hposts := Host.turn_moves m
  · cases hread
    cases approved with
    | false => exact absurd rfl happroved
    | true => exact peersInv_accept hs hknown hcontact
  · obtain ⟨c',own',heq,hbytes,rfl⟩ | ⟨hnot,-⟩ := serverReads_cases hread
    · cases heq
      have hc : c < s.host.accepted := by
        by_contra hle
        obtain ⟨now',hside⟩ := hs.known.dispatch.conns c
        have hout := outstanding_of_completion (s := s.host.net.view c) hside htask (view_io hstep).1
        rw [(hs.waits c (Nat.le_of_not_lt hle)).view] at hout
        cases hout
      refine peersInv_turn hs hknown hcontact hc hstep ?_ hbytes rfl (List.suffix_refl _) ?_
        (fun hall => hall (.host (.io c own)) (by simp)) ?_
      · cases own with
        | sendTask msg => cases htask
        | _ => trivial
      · intro c'
        have hnone : sentTasks [own] = [] := by
          cases own <;> first | rfl | cases htask
        simp [hnone]
      · exact fun c' => by simp [PeersEvent.completes, eq_comm]
    · exact absurd rfl (hnot c own)
  · obtain ⟨c',own',heq,-⟩ | ⟨-,rfl⟩ := serverReads_cases hread
    · cases heq
    · have hp : p ∈ s.host.posted := head ▸ List.mem_cons_self
      have hc := hs.known.posted p hp
      obtain ⟨uid,as,hlinked,hsends⟩ := hs.links p.client hc
      have hbytes : p.event.bytesRead = [] := by cases p <;> rfl
      refine peersInv_turn hs hknown hcontact hc hstep ?_ ?_ ?_ (head ▸ List.suffix_cons p rest) ?_ ?_ ?_
      · cases p with
        | close client => trivial
        | send client msg =>
          refine ⟨?_,hs.contact.posted client msg hp⟩
          have hmem : msg ∈ (s.host.sentTo client).map Sent.msg :=
            hsends ▸ List.mem_append_right _ (List.mem_filterMap.mpr ⟨_,hp,if_pos rfl⟩)
          obtain ⟨x,hx,rfl⟩ := List.mem_map.mp hmem
          exact hs.announced x (List.mem_filter.mp hx).1
      · rw [hbytes, List.append_nil]
        exact hlinked.inv.run.fromClient
      · rw [hbytes, List.append_nil, Function.update_eq_self]
      · intro c'
        rw [head]
        cases p with
        | close client => simp [Posted.toSend, Posted.event, sentTasks]
        | send client msg =>
          by_cases hc' : client = c'
          · subst hc'
            simp [Posted.toSend, Posted.event, Posted.client, sentTasks]
          · simp [Posted.toSend, Posted.client, hc', Ne.symm hc']
      · intro hall
        cases p with
        | send client msg => rfl
        | close client =>
          exact absurd hp (hs.noCloses (fun e he => hall e (List.mem_append_left _ he)) client)
      · intro c'
        have hnone : p.event.isCallback = false := by cases p <;> rfl
        rw [hnone, Bool.and_false]
        rfl
  · obtain ⟨c,own,heq,-⟩ | ⟨-,rfl⟩ := serverReads_cases hread
    · exact absurd heq (hposts.noTurn c own)
    · exact peersInv_posts hs hknown hcontact hposts hmsg

theorem peersInv_step (hs : PeersInv now es s) (hcond : s.Allowed e) (h : s.step e = some s') :
    PeersInv now (es ++ [e]) s' := by
  cases e with
  | host ev => exact peersInv_host hs hcond h
  | client c ev => exact peersInv_client hs hcond h

theorem peersInv_start : PeersInv now [] (start now : Peers T) := by
  refine ⟨Host.known_start,Host.contactInv_start now,fun x hx => ?_,fun _ c hc => ?_,
    fun c hc => ?_,fun c _ => ⟨rfl,rfl,rfl,rfl,rfl,fun uid => ⟨[],rfl,?_⟩⟩⟩
  · cases hx
  · cases hc
  · cases hc
  · exact ⟨meets_nil _ _,rfl,rfl,by simp,rfl⟩

theorem peersInv_run (meets : Meets step Allowed (start now) es)
    (run : exec step (start now) es = some s) : PeersInv now es s :=
  exec_induction (I := PeersInv now) peersInv_start (fun _ _ _ _ => peersInv_step) meets run

theorem PeersInv.inOrder (hs : PeersInv now es s) (c : Nat) :
    InOrder (fun m => ⟨some c,m⟩) [] (sentBy c es) (s.host.requests c) ∧
    InOrder (fun m => ⟨none,m⟩) [] ((s.host.sentTo c).map Sent.msg) (s.clients c).qMessagesIn ∧
    (¬s.host.Validated c → s.host.requests c = [] ∧ (s.clients c).qMessagesIn = []) := by
  have hrequests : s.host.requests c <+: pushes (s.host.net.acts c) := by
    rw [← hs.known.dispatch.attributed c, List.append_assoc, ofConn_append]
    exact List.prefix_append _ _
  obtain hc | hc := Nat.lt_or_ge c s.host.accepted
  · obtain ⟨uid,as,hlinked,hsends⟩ := hs.links c hc
    obtain ⟨hserver,hclient,hnot⟩ := hlinked.inv.inOrder
    rw [hlinked.client] at hserver
    refine ⟨hserver.front hrequests,hclient.mono (hsends ▸ List.prefix_append _ _),fun h => ?_⟩
    obtain ⟨hpushes,hqueue⟩ := hnot h
    have hempty : pushes (s.host.net.acts c) = [] := hpushes
    rw [hempty] at hrequests
    exact ⟨List.prefix_nil.mp hrequests,hqueue⟩
  · have hw := hs.waits c hc
    obtain ⟨as,hnone,hlinked⟩ := hw.client 0
    obtain ⟨-,⟨ms,hms,hqueue,-⟩,-⟩ := hlinked.inv.inOrder
    have hacts : s.host.net.acts c = [] := congrArg Io.acts hw.view
    have hempty : s.host.requests c = [] := by
      rw [hacts] at hrequests
      exact List.prefix_nil.mp hrequests
    have hqueue' : (s.clients c).qMessagesIn = [] := by
      rw [hnone] at hms
      rw [List.prefix_nil.mp hms] at hqueue
      exact hqueue
    exact ⟨hempty ▸ inOrder_none _ _ _,hqueue' ▸ inOrder_none _ _ _,fun _ => ⟨hempty,hqueue'⟩⟩

/-- Any number of clients, every interleaving of their io threads with the one of the server, of
its queues and its workers, any cutting of the bytes into reads and any failures: what comes to
`OnMessage` for a client are the first messages that this client sent, and what a client receives
are the first messages that were sent to it, each once and in the order of the sends. Nothing
passes between the server and a client that it has not validated. -/
theorem peers_inOrder (meets : Meets step Allowed (start now) es)
    (run : exec step (start now) es = some s) (c : Nat) :
    InOrder (fun m => ⟨some c,m⟩) [] (sentBy c es) (s.host.requests c) ∧
    InOrder (fun m => ⟨none,m⟩) [] ((s.host.sentTo c).map Sent.msg) (s.clients c).qMessagesIn ∧
    (¬s.host.Validated c → s.host.requests c = [] ∧ (s.clients c).qMessagesIn = []) :=
  (peersInv_run meets run).inOrder c

theorem peers_inOrder_second :
    ∃ s : Peers NetMsgType, exec step (start fun _ => 5) [.client 1 .connectDone,
      .host (.accept true), .host (.accept true),
      .client 1 (.readDone .validation (ofUInt64 5)), .client 1 (.writeDone .validation),
      .client 1 (.sendTask ⟨⟨.kSeckeyAgree,1⟩,[7]⟩),
      .host (.io 1 (.readDone .validation (ofUInt64 (scramble 5)))),
      .host (.io 1 (.readDone .header [0,0,0,0,1,0,0,0])), .client 1 (.writeDone .header),
      .host (.io 1 (.readDone (.body 1) [7])),
      .host (.update 1 false), .host .consumer, .host .consumer, .host .consumer,
      .host .workerStart, .host (.workerSend 0 ⟨⟨.kFailed,0⟩,[]⟩), .host .task,
      .client 1 (.readDone .header [3,0,0,0,0,0,0,0])] = some s ∧
      s.host.requests 1 = [⟨some 1,⟨⟨.kSeckeyAgree,1⟩,[7]⟩⟩] ∧
      InOrder (fun m => ⟨none,m⟩) [] ((s.host.sentTo 1).map Sent.msg) (s.clients 1).qMessagesIn := by
  refine exists_exec (by decide) fun s run => ⟨?_,(peers_inOrder (by decide) run 1).2.1⟩
  cases run
  decide

end Steps

section Calm
variable {now : Nat → UInt64} {es : List (PeersEvent T)} {s : Peers T}

theorem io_enabled {net : ServerInterface T} {c : Nat} {ev : Event T}
    (h : ((net.view c).step ev).isSome = true) : (net.step (.io c ev)).isSome = true := by
  have hbare : ∀ q, (⟨net.conns c,q,net.acts c⟩ : Io T).step ev =
      ((⟨net.conns c,[],net.acts c⟩ : Io T).step ev).map (·.under q []) := by
    intro q
    rw [← step_under]
    simp [Io.under]
  rw [ServerInterface.view, hbare, Option.isSome_map] at h
  rw [ServerInterface.step, Option.isSome_map, hbare, Option.isSome_map, h]

theorem task_enabled {h : Host T} (hposted : h.posted ≠ []) : (h.step .task).isSome = true := by
  obtain ⟨p,rest,head⟩ := List.exists_cons_of_ne_nil hposted
  simp only [Host.step, head, ServerInterface.step, Option.isSome_map]
  cases p with
  | close client => rfl
  | send client msg =>
    simp only [Posted.event, Io.step, Io.sendTask]
    split
    · rfl
    · cases hq : (h.net.conns client).qMessagesOut <;> simp [Io.writeHeader, Posted.client, hq]

theorem client_enabled {c : Nat} {ev : Event T} {l : Link T}
    (h : (s.link c).step (.client ev) = some l) : (s.step (.client c ev)).isSome = true := by
  obtain ⟨ev',io,heq,hio,hread,-⟩ | ⟨ev',io,heq,-⟩ := link_step h
  · cases heq
    have hclient : (s.clients c).step ev = some io := hio
    have hbytes : s.readByClient c ++ ev.bytesRead <+: (s.host.net.view c).stream := hread
    simp [step, hbytes, hclient]
  · cases heq

theorem server_enabled {c : Nat} {ev : Event T} {l : Link T} (hev : ev.isTask = false)
    (h : (s.link c).step (.server ev) = some l) :
    (serverReads s.clients s.readByServer (.io c ev)).isSome = true ∧
      (s.host.step (.io c ev)).isSome = true := by
  obtain ⟨ev',io,heq,-⟩ | ⟨ev',io,heq,hio,hread,-⟩ := link_step h
  · cases heq
  · cases heq
    have hbytes : s.readByServer c ++ ev.bytesRead <+: (s.clients c).stream := hread
    refine ⟨by simp [serverReads, hbytes],?_⟩
    simpa [Host.step, hev] using io_enabled (Option.isSome_of_eq_some hio)

theorem PeersInv.pushes_le (hs : PeersInv now es s) (c : Nat) :
    (pushes (s.host.net.acts c)).length ≤ (sentBy c es).length := by
  obtain hc | hc := Nat.lt_or_ge c s.host.accepted
  · obtain ⟨uid,as,hlinked,-⟩ := hs.links c hc
    obtain ⟨⟨ms,hms,hqueue,-⟩,-⟩ := hlinked.inv.inOrder
    have hpushes : pushes (s.host.net.acts c) = (delivered [] ms).map fun m => ⟨some c,m⟩ := hqueue
    rw [hpushes, List.length_map, delivered_length, sentBy, ← hlinked.client]
    exact hms.length_le
  · have hnone : s.host.net.acts c = [] := congrArg Io.acts (hs.waits c hc).view
    rw [hnone]
    exact Nat.zero_le _

theorem PeersInv.completions_le (hs : PeersInv now es s) {c : Nat} (hc : c < s.host.accepted) :
    es.countP (·.completes c) ≤ 34 + 2 * ((frames (sentBy c es)).length +
      (frames ((s.host.sentTo c).map Sent.msg)).length) := by
  obtain ⟨uid,as,hlinked,hsends⟩ := hs.links c hc
  have hcount := callbacks_bounded hlinked.inv
  rw [hlinked.completions, bytesSent, hlinked.client] at hcount
  have hframes := congrArg (fun ms => (frames ms).length) hsends
  simp only [frames_append, List.length_append] at hframes
  rw [sentBy]
  omega

/-- When nothing is posted and no operation on the connection can complete, all that was sent over
it has arrived. -/
theorem PeersInv.arrived (hs : PeersInv now es s) (hcalm : ∀ e ∈ es, e.goesOn = true)
    (hposted : s.host.posted = []) {c : Nat} (hidle : c < s.host.accepted → (s.link c).Idle) :
    pushes (s.host.net.acts c) = (delivered [] (sentBy c es)).map (fun m => ⟨some c,m⟩) ∧
    (s.clients c).qMessagesIn =
      (delivered [] ((s.host.sentTo c).map Sent.msg)).map fun m => ⟨none,m⟩ := by
  obtain hc | hc := Nat.lt_or_ge c s.host.accepted
  · obtain ⟨uid,as,hlinked,hsends⟩ := hs.links c hc
    have hdone := completed_of_idle (hidle hc) (hlinked.live hcalm)
    rw [SendsOf, hposted, List.filterMap_nil, List.append_nil] at hsends
    refine ⟨?_,hsends ▸ hdone.clientQueue⟩
    rw [sentBy, ← hlinked.client]
    exact hdone.serverQueue
  · have hw := hs.waits c hc
    obtain ⟨-,⟨ms,hms,hqueue,-⟩,-⟩ := hs.inOrder c
    have hnone : s.host.net.acts c = [] := congrArg Io.acts hw.view
    rw [hw.unsent] at hms ⊢
    rw [List.prefix_nil.mp hms] at hqueue
    exact ⟨by rw [hnone, hw.silent]; rfl,hqueue⟩

end Calm

end Peers

end TransmissionPlatform.Net
