import TransmissionPlatform.Net.Sending

/-!
The body of a message as a stack of values of different sizes, and what the size in its header
tells the peer.
-/

set_option autoImplicit false

namespace TransmissionPlatform.Net
open StepSystem

variable {T : Type}

/-- An `operator<<` with the object bytes, or an `operator>>` into an object of `n` bytes. -/
inductive StackOp where
  | push (data : List UInt8)
  | pop (n : Nat)
  deriving DecidableEq, Repr

/-- The values that are still on the stack, the last one first, and those that were popped. -/
structure Values where
  stack : List (List UInt8) := []
  popped : List (List UInt8) := []
  deriving DecidableEq, Repr

/-- The discipline of the callers: a pop is into an object of the size of the last value. -/
def Values.step (v : Values) : StackOp → Option Values
  | .push data => some { v with stack := data :: v.stack }
  | .pop n =>
    match v.stack with
    | [] => none
    | data :: rest =>
      if data.length = n then some { stack := rest, popped := v.popped ++ [data] } else none

namespace Message

def step (s : Message T × List (List UInt8)) : StackOp → Option (Message T × List (List UInt8))
  | .push data => some (s.1.push data,s.2)
  | .pop n => (s.1.pop n).map fun r => (r.2,s.2 ++ [r.1])

theorem pop_append {msg : Message T} {below data : List UInt8} (h : msg.body = below ++ data) :
    msg.pop data.length = some (data,
      { header := { msg.header with size := UInt32.ofNat below.length }, body := below }) := by
  simp [pop, h]

structure Stacked (msg : Message T) (ops : List StackOp) (v : Values) (now : Message T) : Prop where
  body : now.body = msg.body ++ v.stack.reverse.flatten
  id : now.header.id = msg.header.id
  size : ops ≠ [] → now.header.size.toNat = now.body.length % 2 ^ 32

theorem stacked_step {msg now : Message T} {ops : List StackOp} {v w : Values} {op : StackOp}
    (stacked : Stacked msg ops v now) (hstep : v.step op = some w) :
    ∃ next, step (now,v.popped) op = some (next,w.popped) ∧ Stacked msg (ops ++ [op]) w next := by
  cases op with
  | push data =>
    cases hstep
    refine ⟨now.push data,rfl,?_,stacked.id,fun _ => UInt32.toNat_ofNat'⟩
    simp [push, stacked.body]
  | pop n =>
    simp only [Values.step] at hstep
    split at hstep
    · cases hstep
    · rename_i data rest hstack
      split at hstep <;> cases hstep
      rename_i hn
      have hbody : now.body = (msg.body ++ rest.reverse.flatten) ++ data := by
        simp [stacked.body, hstack]
      have hpop := pop_append hbody
      rw [hn] at hpop
      exact ⟨_,congrArg (Option.map _) hpop,⟨rfl,stacked.id,fun _ => UInt32.toNat_ofNat'⟩⟩

/-- A body is a typed stack: as long as every pop has the size of the last value still there, each
returns exactly its bytes, and the first body stays under them. -/
theorem typed_stack (msg : Message T) {ops : List StackOp} {v : Values}
    (typed : exec Values.step {} ops = some v) :
    ∃ now, exec step (msg,[]) ops = some (now,v.popped) ∧
      now.body = msg.body ++ v.stack.reverse.flatten ∧ (v.stack = [] → now.body = msg.body) ∧
      now.header.id = msg.header.id ∧
      (ops ≠ [] → now.header.size.toNat = now.body.length % 2 ^ 32) := by
  obtain ⟨now,run,stacked⟩ : ∃ now, exec step (msg,[]) ops = some (now,v.popped) ∧
      Stacked msg ops v now := by
    refine exec_history (I := fun ops v => ∃ now, exec step (msg,[]) ops = some (now,v.popped) ∧
      Stacked msg ops v now) ⟨msg,rfl,by simp,rfl,fun h => absurd rfl h⟩ ?_ typed
    rintro ops v op w ⟨now,run,stacked⟩ hstep
    obtain ⟨next,hnext,stacked⟩ := stacked_step stacked hstep
    exact ⟨next,exec_snoc.mpr ⟨_,run,hnext⟩,stacked⟩
  exact ⟨now,run,stacked.body,fun h => by simp [stacked.body, h],stacked.id,stacked.size⟩

theorem typed_stack_two :
    let ops : List StackOp := [.push [1,2,3,4],.push [5,6],.pop 2]
    ∃ now, exec step ((⟨⟨NetMsgType.kFailed,0⟩,[9]⟩ : Message NetMsgType),[]) ops =
        some (now,[[5,6]]) ∧ now.body = [9,1,2,3,4] := by
  intro ops
  have typed : exec Values.step {} ops = some ⟨[[1,2,3,4]],[[5,6]]⟩ := rfl
  obtain ⟨now,run,body,-⟩ := typed_stack (⟨⟨NetMsgType.kFailed,0⟩,[9]⟩ : Message NetMsgType) typed
  exact ⟨now,run,body⟩

def built (id : T) (datas : List (List UInt8)) : Message T :=
  datas.foldl push ⟨⟨id,0⟩,[]⟩

theorem built_body (id : T) (datas : List (List UInt8)) :
    (built id datas).body = datas.flatten ∧
      (built id datas).header.size = UInt32.ofNat datas.flatten.length := by
  induction datas using List.reverseRecOn with
  | nil => exact ⟨rfl,rfl⟩
  | append_singleton datas data ih =>
    have hlast : built id (datas ++ [data]) = (built id datas).push data := by simp [built]
    have hbody : ((built id datas).push data).body = (datas ++ [data]).flatten := by
      simp [push, ih.1]
    rw [hlast]
    exact ⟨hbody,by rw [← hbody]; rfl⟩

theorem built_announced_iff (id : T) (datas : List (List UInt8)) :
    (built id datas).Announced ↔ (datas.map List.length).sum < 2 ^ 32 := by
  obtain ⟨hbody,hsize⟩ := built_body id datas
  rw [Announced, hbody, hsize, UInt32.toNat_ofNat', List.length_flatten]
  exact Nat.mod_eq_iff_lt (by decide)

end Message

def bodiesSent (acts : List (Act T)) : List UInt8 :=
  (((handed acts).filter (·.1 = .body)).map Prod.snd).flatten

theorem handed_asyncWrite (s : Io T) (op : WriteOp) (buffer : List UInt8) :
    handed (s.asyncWrite op buffer).acts = handed s.acts ++ [(op,buffer)] := by
  simp [Io.asyncWrite, handed]

variable [EnumId T]

theorem header_onWrite {s : Io T} {msg : Message T} {rest : List (Message T)}
    (queue : s.conn.qMessagesOut = msg :: rest) :
    ∃ u new, s.onWrite .header = some u ∧ u.acts = s.acts ++ new ∧ bodiesSent new = msg.body := by
  by_cases hbody : 0 < msg.body.length
  · exact ⟨s.asyncWrite .body msg.body,[.asyncWrite .body msg.body],
      by simp [Io.onWrite, Io.writeBody, queue, hbody],rfl,by simp [bodiesSent, handed]⟩
  · have hempty : msg.body = [] := List.length_eq_zero_iff.mp (Nat.eq_zero_of_not_pos hbody)
    let popped : Io T := { s with conn := { s.conn with qMessagesOut := rest } }
    cases rest with
    | nil =>
      exact ⟨popped,[],by simp [Io.onWrite, Io.popAndContinue, queue, hempty, popped],
        by simp [popped],by simp [bodiesSent, handed, hempty]⟩
    | cons next rest =>
      exact ⟨popped.asyncWrite .header next.header.bytes,[.asyncWrite .header next.header.bytes],
        by simp [Io.onWrite, Io.popAndContinue, Io.writeHeader, queue, hempty, popped],rfl,
        by simp [bodiesSent, handed, hempty]⟩

theorem writeHeader_then {s : Io T} {msg : Message T} {rest : List (Message T)}
    (queue : s.conn.qMessagesOut = msg :: rest) :
    ∃ t u new, s.writeHeader = some t ∧
      handed t.acts = handed s.acts ++ [(.header,msg.header.bytes)] ∧
      t.step (.writeDone .header) = some u ∧ u.acts = t.acts ++ new ∧ bodiesSent new = msg.body := by
  let t := s.asyncWrite .header msg.header.bytes
  have same : (t.endWrite .header).conn.qMessagesOut = msg :: rest := queue
  obtain ⟨u,new,hu,hacts,hsent⟩ := header_onWrite same
  refine ⟨t,u,new,by simp [Io.writeHeader, queue, t],handed_asyncWrite s _ _,?_,hacts,hsent⟩
  have outstanding : WriteOp.header ∈ t.conn.writes := by simp [t, Io.asyncWrite]
  simp only [Io.step, outstanding, if_true, hu]

/-- The size in the header that `WriteHeader` sends is the number of bytes that `WriteBody` sends
exactly when fewer than 2^32 bytes were pushed. -/
theorem sizeSent_iff (id : T) (datas : List (List UInt8)) {s : Io T} {rest : List (Message T)}
    (queue : s.conn.qMessagesOut = Message.built id datas :: rest) :
    ∃ t u new header, s.writeHeader = some t ∧
      handed t.acts = handed s.acts ++ [(.header,MessageHeader.bytes (T := T) header)] ∧
      t.step (.writeDone .header) = some u ∧ u.acts = t.acts ++ new ∧
      (header.size.toNat = (bodiesSent new).length ↔ (datas.map List.length).sum < 2 ^ 32) := by
  obtain ⟨t,u,new,hwrite,hhanded,hstep,hacts,hsent⟩ := writeHeader_then queue
  refine ⟨t,u,new,_,hwrite,hhanded,hstep,hacts,?_⟩
  rw [hsent]
  exact Message.built_announced_iff id datas

theorem sizeSent_iff_three :
    let s : Io NetMsgType := ⟨{ Connection.new 1 .kClient true 0 with
      qMessagesOut := [Message.built .kFailed [[1],[2,3]]] },[],[]⟩
    ∃ t u new header, s.writeHeader = some t ∧
      handed t.acts = [(.header,MessageHeader.bytes (T := NetMsgType) header)] ∧
      t.step (.writeDone .header) = some u ∧ u.acts = t.acts ++ new ∧
      header.size.toNat = (bodiesSent new).length := by
  intro s
  have queue : s.conn.qMessagesOut = [Message.built .kFailed [[1],[2,3]]] := rfl
  obtain ⟨t,u,new,header,hwrite,hhanded,hstep,hacts,hsize⟩ := sizeSent_iff _ _ queue
  exact ⟨t,u,new,header,hwrite,hhanded,hstep,hacts,hsize.mpr (by decide)⟩

theorem sizeSent_wraps :
    let data : List UInt8 := List.replicate (2 ^ 32) 0
    let s : Io NetMsgType := ⟨{ Connection.new 1 .kClient true 0 with
      qMessagesOut := [Message.built .kFailed [data]] },[],[]⟩
    ∃ t u new header, s.writeHeader = some t ∧
      handed t.acts = [(.header,MessageHeader.bytes (T := NetMsgType) header)] ∧
      t.step (.writeDone .header) = some u ∧ u.acts = t.acts ++ new ∧
      header.size.toNat ≠ (bodiesSent new).length := by
  intro data s
  have queue : s.conn.qMessagesOut = [Message.built .kFailed [data]] := rfl
  obtain ⟨t,u,new,hwrite,hhanded,hstep,hacts,hsent⟩ := writeHeader_then queue
  refine ⟨t,u,new,_,hwrite,hhanded,hstep,hacts,?_⟩
  rw [hsent]
  intro announced
  have hlength : ([data].map List.length).sum = 2 ^ 32 := by
    rw [List.map_singleton, List.sum_singleton, List.length_replicate]
  have hlt := (Message.built_announced_iff _ _).mp announced
  rw [hlength] at hlt
  exact Nat.lt_irrefl _ hlt

end TransmissionPlatform.Net
