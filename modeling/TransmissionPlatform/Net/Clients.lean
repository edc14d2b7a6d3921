import TransmissionPlatform.Net.Message
import Mathlib.Data.List.Basic
import Mathlib.Data.List.Nodup

/-!
`m_deqConnections` of `ServerInterface` and the two functions that send to its clients. An
entry is a shared pointer and may be null, so what an erase-remove takes out depends on the
pointer it compares with at that moment.
-/

set_option autoImplicit false

namespace TransmissionPlatform.Net

/-- A `std::shared_ptr` to a connection: which object, or `nullptr`. -/
abbrev ConnectionPtr := Option Nat

inductive ClientCall (T : Type) where
  | send (client : Nat) (msg : Message T)
  | onClientDisconnect (client : ConnectionPtr)
  deriving DecidableEq, Repr

structure Clients (T : Type) where
  deqConnections : List ConnectionPtr
  calls : List (ClientCall T) := []
  deriving DecidableEq, Repr

/-- `erase(remove(begin(), end(), value), end())`. -/
def eraseRemove (value : ConnectionPtr) (conns : List ConnectionPtr) : List ConnectionPtr :=
  conns.filter (· ≠ value)

namespace Clients
variable {T : Type} (isOpen : Nat → Bool)

/-- `MessageClient`. The test is `client && client->IsOpen()`. -/
def messageClient (client : ConnectionPtr) (msg : Message T) (s : Clients T) : Clients T :=
  match client.filter isOpen with
  | some c => { s with calls := s.calls ++ [.send c msg] }
  | none =>
    let calls := s.calls ++ [.onClientDisconnect client]
    -- `client.reset()` comes before the removal
    let client : ConnectionPtr := none
    ⟨eraseRemove client s.deqConnections,calls⟩

/-- The turn of the loop of `MessageAllClients` for one entry: what it leaves there, and the
calls it makes. -/
def messageEntry (msg : Message T) (pIgnoreClient client : ConnectionPtr) :
    ConnectionPtr × List (ClientCall T) :=
  match client.filter isOpen with
  | some c => (client,if client ≠ pIgnoreClient then [.send c msg] else [])
  | none => (none,[.onClientDisconnect client])

def messageAllClients (msg : Message T) (pIgnoreClient : ConnectionPtr) (s : Clients T) :
    Clients T :=
  let turns := s.deqConnections.map (messageEntry isOpen msg pIgnoreClient)
  let bInvalidClientExists := s.deqConnections.any fun client => !client.any isOpen
  let conns := turns.map Prod.fst
  { deqConnections := if bInvalidClientExists then eraseRemove none conns else conns
    calls := s.calls ++ turns.flatMap Prod.snd }

theorem eraseRemove_none (conns : List Nat) :
    eraseRemove none (conns.map some) = conns.map some := by
  rw [eraseRemove, List.filter_eq_self]
  simp

theorem messageClient_open {client : Nat} (h : isOpen client = true) (msg : Message T)
    (s : Clients T) :
    s.messageClient isOpen (some client) msg =
      { s with calls := s.calls ++ [.send client msg] } := by
  simp [messageClient, Option.filter_some, h]

theorem messageClient_closed {client : Nat} (h : isOpen client = false) (msg : Message T)
    (s : Clients T) :
    s.messageClient isOpen (some client) msg =
      ⟨eraseRemove none s.deqConnections,s.calls ++ [.onClientDisconnect (some client)]⟩ := by
  simp [messageClient, Option.filter_some, h]

def SentOrEvicted (client : Nat) (msg : Message T) (conns : List Nat) (s t : Clients T) : Prop :=
  if isOpen client then t = { s with calls := s.calls ++ [.send client msg] }
  else t = ⟨(conns.filter (· ≠ client)).map some,s.calls ++ [.onClientDisconnect (some client)]⟩

theorem filter_map_some_eq_iff (conns : List Nat) (client : Nat) :
    conns.map some = (conns.filter (· ≠ client)).map some ↔ client ∉ conns := by
  rw [(Option.some_injective Nat).list_map.eq_iff, eq_comm, List.filter_eq_self]
  simp only [ne_eq, decide_not, Bool.not_eq_true', decide_eq_false_iff_not]
  constructor
  · intro h hm
    exact h client hm rfl
  · intro h c hc heq
    exact h (heq ▸ hc)

/-- A dead client stays in the container: the pointer is reset before it is searched for. -/
theorem messageClient_evicts_iff (client : Nat) (msg : Message T) (conns : List Nat)
    (calls : List (ClientCall T)) :
    SentOrEvicted isOpen client msg conns ⟨conns.map some,calls⟩
      (messageClient isOpen (some client) msg ⟨conns.map some,calls⟩) ↔
      isOpen client = true ∨ client ∉ conns := by
  cases h : isOpen client with
  | true => simp [SentOrEvicted, h, messageClient_open isOpen h]
  | false =>
    rw [messageClient_closed isOpen h, eraseRemove_none]
    simp only [SentOrEvicted, h, Bool.false_eq_true, if_false, false_or, Clients.mk.injEq,
      and_true, filter_map_some_eq_iff]

theorem messageClient_keepsDead :
    ¬ ∀ (isOpen : Nat → Bool) (client : Nat) (msg : Message NetMsgType) (conns : List Nat),
      conns.Nodup → SentOrEvicted isOpen client msg conns ⟨conns.map some,[]⟩
        (messageClient isOpen (some client) msg ⟨conns.map some,[]⟩) := by
  intro h
  have hevicted := h (· != 1) 1 .empty [1,2] (by decide)
  revert hevicted
  unfold SentOrEvicted
  decide

theorem messageEntry_fst (msg : Message T) (pIgnoreClient client : ConnectionPtr) :
    (messageEntry isOpen msg pIgnoreClient client).1 = client.filter isOpen := by
  unfold messageEntry
  cases hf : client.filter isOpen with
  | none => rfl
  | some c => exact (Option.filter_eq_some_iff.mp hf).1

theorem eraseRemove_filtered (conns : List ConnectionPtr) :
    eraseRemove none (conns.map fun client => client.filter isOpen) =
      conns.filter (·.any isOpen) := by
  induction conns with
  | nil => rfl
  | cons client rest ih =>
    simp only [eraseRemove, List.map_cons, List.filter_cons] at ih ⊢
    cases client with
    | none => simpa using ih
    | some c => cases h : isOpen c <;> simpa [Option.filter_some, h] using ih

theorem messageAllClients_deqConnections (msg : Message T) (pIgnoreClient : ConnectionPtr)
    (s : Clients T) : (s.messageAllClients isOpen msg pIgnoreClient).deqConnections =
      s.deqConnections.filter (·.any isOpen) := by
  have hconns : (s.deqConnections.map (messageEntry isOpen msg pIgnoreClient)).map Prod.fst =
      s.deqConnections.map fun client => client.filter isOpen := by
    rw [List.map_map]
    exact List.map_congr_left fun client _ => messageEntry_fst isOpen msg pIgnoreClient client
  simp only [messageAllClients, hconns]
  split
  · exact eraseRemove_filtered isOpen s.deqConnections
  · rename_i hvalid
    have hall : ∀ client ∈ s.deqConnections, client.any isOpen = true := by
      simpa using hvalid
    rw [← eraseRemove_filtered, eraseRemove, eq_comm, List.filter_eq_self]
    intro p hp
    obtain ⟨client,hclient,rfl⟩ := List.mem_map.mp hp
    obtain ⟨c,rfl,hc⟩ := (Option.any_eq_true _ _).mp (hall client hclient)
    simp [Option.filter_some, hc]

theorem mem_messageAllClients_calls {msg : Message T} {pIgnoreClient : ConnectionPtr}
    {conns : List ConnectionPtr} {call : ClientCall T}
    (hcall : call ∈ (messageAllClients isOpen msg pIgnoreClient ⟨conns,[]⟩).calls) :
    (∃ c, call = .send c msg ∧ some c ∈ conns ∧ isOpen c = true ∧ some c ≠ pIgnoreClient) ∨
    ∃ client ∈ conns, call = .onClientDisconnect client ∧ client.any isOpen = false := by
  simp only [messageAllClients, List.nil_append, List.flatMap_map] at hcall
  obtain ⟨client,hclient,hcall⟩ := List.mem_flatMap.mp hcall
  unfold messageEntry at hcall
  cases hf : client.filter isOpen with
  | none =>
    rw [hf] at hcall
    refine .inr ⟨client,hclient,List.mem_singleton.mp hcall,?_⟩
    cases client with
    | none => rfl
    | some c => simpa [Option.filter_some] using hf
  | some c =>
    rw [hf] at hcall
    obtain ⟨rfl,hopen⟩ := Option.filter_eq_some_iff.mp hf
    dsimp only at hcall
    split at hcall
    · rename_i hne
      exact .inl ⟨c,List.mem_singleton.mp hcall,hclient,hopen,hne⟩
    · cases hcall

def callEntry : ClientCall T → ConnectionPtr
  | .send c _ => some c
  | .onClientDisconnect client => client

theorem messageEntry_calls (msg : Message T) (pIgnoreClient : ConnectionPtr) (c : Nat) :
    (messageEntry isOpen msg pIgnoreClient (some c)).2 =
      if isOpen c = true then (if some c ≠ pIgnoreClient then [.send c msg] else [])
      else [.onClientDisconnect (some c)] := by
  cases h : isOpen c <;> simp [messageEntry, Option.filter_some, h]

theorem callEntry_of_mem {msg : Message T} {pIgnoreClient : ConnectionPtr} {c : Nat}
    {call : ClientCall T} (hcall : call ∈ (messageEntry isOpen msg pIgnoreClient (some c)).2) :
    callEntry call = some c := by
  rw [messageEntry_calls] at hcall
  split at hcall
  · split at hcall
    · cases List.mem_singleton.mp hcall
      rfl
    · cases hcall
  · cases List.mem_singleton.mp hcall
    rfl

theorem messageEntry_calls_nodup (msg : Message T) (pIgnoreClient : ConnectionPtr) (c : Nat) :
    (messageEntry isOpen msg pIgnoreClient (some c)).2.Nodup := by
  rw [messageEntry_calls]
  split
  · split
    · exact List.nodup_singleton _
    · exact List.nodup_nil
  · exact List.nodup_singleton _

section Broadcast
variable {msg : Message T} {pIgnoreClient : ConnectionPtr} {conns : List Nat}

theorem mem_broadcast_calls {call : ClientCall T} :
    call ∈ (messageAllClients isOpen msg pIgnoreClient ⟨conns.map some,[]⟩).calls ↔
      ∃ c ∈ conns, call ∈ (messageEntry isOpen msg pIgnoreClient (some c)).2 := by
  simp [messageAllClients]

theorem broadcast_calls_nodup (nodup : conns.Nodup) :
    (messageAllClients isOpen msg pIgnoreClient ⟨conns.map some,[]⟩).calls.Nodup := by
  simp only [messageAllClients, List.nil_append, List.map_map, List.flatMap_map]
  refine List.nodup_flatMap.mpr ⟨fun c _ => messageEntry_calls_nodup isOpen msg pIgnoreClient c,?_⟩
  refine nodup.imp fun {c d} hne call hc hd => hne ?_
  exact Option.some.inj ((callEntry_of_mem isOpen hc).symm.trans (callEntry_of_mem isOpen hd))

theorem send_mem_broadcast {c : Nat} {msg' : Message T} :
    .send c msg' ∈ (messageAllClients isOpen msg pIgnoreClient ⟨conns.map some,[]⟩).calls ↔
      msg' = msg ∧ c ∈ conns ∧ isOpen c = true ∧ some c ≠ pIgnoreClient := by
  rw [mem_broadcast_calls]
  constructor
  · rintro ⟨d,hd,hcall⟩
    cases callEntry_of_mem isOpen hcall
    rw [messageEntry_calls] at hcall
    split at hcall
    · rename_i hopen
      split at hcall
      · rename_i hne
        cases List.mem_singleton.mp hcall
        exact ⟨rfl,hd,hopen,hne⟩
      · cases hcall
    · cases List.mem_singleton.mp hcall
  · rintro ⟨rfl,hc,hopen,hne⟩
    refine ⟨c,hc,?_⟩
    rw [messageEntry_calls, if_pos hopen, if_pos hne]
    exact List.mem_singleton_self _

theorem disconnect_mem_broadcast {client : ConnectionPtr} :
    .onClientDisconnect client ∈
        (messageAllClients isOpen msg pIgnoreClient ⟨conns.map some,[]⟩).calls ↔
      ∃ c ∈ conns, client = some c ∧ isOpen c = false := by
  rw [mem_broadcast_calls]
  constructor
  · rintro ⟨c,hc,hcall⟩
    cases callEntry_of_mem isOpen hcall
    rw [messageEntry_calls] at hcall
    split at hcall
    · split at hcall
      · cases List.mem_singleton.mp hcall
      · cases hcall
    · rename_i hclosed
      exact ⟨c,hc,rfl,Bool.eq_false_iff.mpr hclosed⟩
  · rintro ⟨c,hc,rfl,hclosed⟩
    refine ⟨c,hc,?_⟩
    rw [messageEntry_calls, if_neg (by simp [hclosed])]
    exact List.mem_singleton_self _

theorem map_some_filter_open :
    (conns.map some).filter (·.any isOpen) = (conns.filter isOpen).map some := by
  rw [List.filter_map]
  rfl

/-- The broadcast sends to the open clients but the ignored one, reports the closed ones, each
once, and keeps the open ones in their order. -/
theorem messageAllClients_exact [DecidableEq T] (isOpen : Nat → Bool) (msg : Message T)
    (pIgnoreClient : ConnectionPtr) {conns : List Nat} (nodup : conns.Nodup) :
    let r := messageAllClients isOpen msg pIgnoreClient ⟨conns.map some,[]⟩
    (∀ c msg', r.calls.count (.send c msg') =
      if msg' = msg ∧ c ∈ conns ∧ isOpen c = true ∧ some c ≠ pIgnoreClient then 1 else 0) ∧
    (∀ client, r.calls.count (.onClientDisconnect client) =
      if ∃ c ∈ conns, client = some c ∧ isOpen c = false then 1 else 0) ∧
    r.deqConnections = (conns.filter isOpen).map some := by
  refine ⟨fun c msg' => ?_,fun client => ?_,?_⟩
  · rw [(broadcast_calls_nodup isOpen nodup).count]
    exact if_congr (send_mem_broadcast isOpen) rfl rfl
  · rw [(broadcast_calls_nodup isOpen nodup).count]
    exact if_congr (disconnect_mem_broadcast isOpen) rfl rfl
  · rw [messageAllClients_deqConnections, map_some_filter_open]

theorem messageAllClients_exact_three :
    let msg : Message NetMsgType := .empty
    let r := messageAllClients (· != 1) msg (some 2) ⟨[1,2,3].map some,[]⟩
    r.calls.count (.send 3 msg) = 1 ∧ r.calls.count (.onClientDisconnect (some 1)) = 1 ∧
      r.deqConnections = [some 2,some 3] := by
  have nodup : [1,2,3].Nodup := by decide
  obtain ⟨hsends,hdisconnects,hconns⟩ :=
    messageAllClients_exact (· != 1) (.empty : Message NetMsgType) (some 2) nodup
  exact ⟨hsends 3 .empty,hdisconnects (some 1),hconns⟩

end Broadcast

end Clients

end TransmissionPlatform.Net
