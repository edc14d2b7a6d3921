import TransmissionPlatform.Lib.ProtoClass
import TransmissionPlatform.Platform.Encoding

/-!
`Message.pb.cc`: the classes that `msg.h` encodes with and decodes to. What one of them writes
is read by the parser of that class as the message merged, wherever it stands in a text.
-/

set_option autoImplicit false

namespace TransmissionPlatform.Platform
open Net ProtoClass TurnLoop

variable {F : Type}

namespace RequestProto
variable (pb : Protobuf F)

/-- The switch in `RequestMsg::_InternalParse`. -/
def switch (tag : UInt32) : Option (Reader (RequestProto → RequestProto)) :=
  match (tag >>> 3).toNat with
  | 1 =>
    if tag.toUInt8 = 10 then
      some (pb.inlineGreedyStringParser.map fun str m => { m with client_id := str })
    else none
  | 2 =>
    if tag.toUInt8 = 18 then
      some (pb.inlineGreedyStringParser.map fun str m => { m with server_id := str })
    else none
  | 3 =>
    if tag.toUInt8 = 26 then
      some (pb.inlineGreedyStringParser.map fun str m => { m with sign := str })
    else none
  | 4 =>
    if tag.toUInt8 = 34 then
      some (pb.inlineGreedyStringParser.map fun str m => { m with data := str })
    else none
  | _ => none

def cls : Class RequestProto where
  switch := switch pb
  serialize m := pb.bytesField 1 m.client_id ++ pb.bytesField 2 m.server_id ++
    pb.bytesField 3 m.sign ++ pb.bytesField 4 m.data
  byteSize m := pb.bytesFieldSize m.client_id + pb.bytesFieldSize m.server_id +
    pb.bytesFieldSize m.sign + pb.bytesFieldSize m.data
  merge m src :=
    { client_id := mergeBytes m.client_id src.client_id
      server_id := mergeBytes m.server_id src.server_id
      sign := mergeBytes m.sign src.sign
      data := mergeBytes m.data src.data }
  empty := { client_id := [], server_id := [], sign := [], data := [] }

variable {pb}

theorem lawful (hpb : pb.Lawful) : (cls pb).Lawful pb := by
  have length : ∀ m, ((cls pb).serialize m).length = (cls pb).byteSize m := by
    intro m
    simp only [cls, List.length_append]
    rw [Protobuf.bytesField_length 1 (by decide) (by decide) hpb,
      Protobuf.bytesField_length 2 (by decide) (by decide) hpb,
      Protobuf.bytesField_length 3 (by decide) (by decide) hpb,
      Protobuf.bytesField_length 4 (by decide) (by decide) hpb]
  refine ⟨?_,length,?_⟩
  · intro m us src hsize
    have hclient := Protobuf.length_le_bytesFieldSize hpb src.client_id
    have hserver := Protobuf.length_le_bytesFieldSize hpb src.server_id
    have hsign := Protobuf.length_le_bytesFieldSize hpb src.sign
    have hdata := Protobuf.length_le_bytesFieldSize hpb src.data
    rw [length] at hsize
    simp only [cls] at hsize
    have client := Class.passes_bytesField (cls pb) hpb 1 (by decide) (by decide)
      RequestProto.client_id (fun str m => { m with client_id := str }) rfl (fun _ => rfl)
      (by omega : src.client_id.length < sizeLimit)
    have server := Class.passes_bytesField (cls pb) hpb 2 (by decide) (by decide)
      RequestProto.server_id (fun str m => { m with server_id := str }) rfl (fun _ => rfl)
      (by omega : src.server_id.length < sizeLimit)
    have sign := Class.passes_bytesField (cls pb) hpb 3 (by decide) (by decide)
      RequestProto.sign (fun str m => { m with sign := str }) rfl (fun _ => rfl)
      (by omega : src.sign.length < sizeLimit)
    have data := Class.passes_bytesField (cls pb) hpb 4 (by decide) (by decide)
      RequestProto.data (fun str m => { m with data := str }) rfl (fun _ => rfl)
      (by omega : src.data.length < sizeLimit)
    exact (((client m us).append (server _ us)).append (sign _ us)).append (data _ us)
  · rintro ⟨client_id,server_id,sign,data⟩
    simp [cls]

end RequestProto

namespace RespondProto
variable (pb : Protobuf F)

/-- The switch in `RespondMsg::_InternalParse`. -/
def switch (tag : UInt32) : Option (Reader (RespondProto → RespondProto)) :=
  match (tag >>> 3).toNat with
  | 1 =>
    if tag.toUInt8 = 8 then
      some (pb.readVarint32.map fun n m => { m with seckey_id := n })
    else none
  | 2 =>
    if tag.toUInt8 = 18 then
      some (pb.inlineGreedyStringParser.map fun str m => { m with client_id := str })
    else none
  | 3 =>
    if tag.toUInt8 = 26 then
      some (pb.inlineGreedyStringParser.map fun str m => { m with server_id := str })
    else none
  | 4 =>
    if tag.toUInt8 = 34 then
      some (pb.inlineGreedyStringParser.map fun str m => { m with data := str })
    else none
  | _ => none

def cls : Class RespondProto where
  switch := switch pb
  serialize m := pb.uint32Field 1 m.seckey_id ++ pb.bytesField 2 m.client_id ++
    pb.bytesField 3 m.server_id ++ pb.bytesField 4 m.data
  byteSize m := pb.bytesFieldSize m.client_id + pb.bytesFieldSize m.server_id +
    pb.bytesFieldSize m.data + pb.uint32FieldSize m.seckey_id
  merge m src :=
    { client_id := mergeBytes m.client_id src.client_id
      server_id := mergeBytes m.server_id src.server_id
      data := mergeBytes m.data src.data
      seckey_id := mergeUInt32 m.seckey_id src.seckey_id }
  empty := { client_id := [], server_id := [], data := [], seckey_id := 0 }

variable {pb}

theorem lawful (hpb : pb.Lawful) : (cls pb).Lawful pb := by
  have length : ∀ m, ((cls pb).serialize m).length = (cls pb).byteSize m := by
    intro m
    simp only [cls, List.length_append]
    rw [Protobuf.uint32Field_length 1 (by decide) (by decide) hpb,
      Protobuf.bytesField_length 2 (by decide) (by decide) hpb,
      Protobuf.bytesField_length 3 (by decide) (by decide) hpb,
      Protobuf.bytesField_length 4 (by decide) (by decide) hpb]
    omega
  refine ⟨?_,length,?_⟩
  · intro m us src hsize
    have hclient := Protobuf.length_le_bytesFieldSize hpb src.client_id
    have hserver := Protobuf.length_le_bytesFieldSize hpb src.server_id
    have hdata := Protobuf.length_le_bytesFieldSize hpb src.data
    rw [length] at hsize
    simp only [cls] at hsize
    have seckey := Class.passes_uint32Field (cls pb) hpb 1 (by decide) (by decide)
      RespondProto.seckey_id (fun n m => { m with seckey_id := n }) rfl (fun _ => rfl) src.seckey_id
    have client := Class.passes_bytesField (cls pb) hpb 2 (by decide) (by decide)
      RespondProto.client_id (fun str m => { m with client_id := str }) rfl (fun _ => rfl)
      (by omega : src.client_id.length < sizeLimit)
    have server := Class.passes_bytesField (cls pb) hpb 3 (by decide) (by decide)
      RespondProto.server_id (fun str m => { m with server_id := str }) rfl (fun _ => rfl)
      (by omega : src.server_id.length < sizeLimit)
    have data := Class.passes_bytesField (cls pb) hpb 4 (by decide) (by decide)
      RespondProto.data (fun str m => { m with data := str }) rfl (fun _ => rfl)
      (by omega : src.data.length < sizeLimit)
    exact (((seckey m us).append (client _ us)).append (server _ us)).append (data _ us)
  · rintro ⟨seckey_id,client_id,server_id,data⟩
    simp [cls]

end RespondProto

/-- Both classes keep what is written with them. -/
theorem messages_kept {pb : Protobuf F} (hpb : pb.Lawful) :
    Class.Keeps pb (RequestProto.cls pb) ∧ Class.Keeps pb (RespondProto.cls pb) :=
  ⟨Class.keeps_of_lawful hpb (RequestProto.lawful hpb),
    Class.keeps_of_lawful hpb (RespondProto.lawful hpb)⟩

def newerReply : ProtoMessage RespondProto ProtoWire.Field :=
  ⟨{ seckey_id := 12, client_id := [99], data := [7] },[⟨9,.varint 5⟩]⟩

theorem newerReply_writable : Class.Writable wire (RespondProto.cls wire) newerReply := by
  refine ⟨?_,fun u hu => ?_⟩
  · simp [newerReply, Class.byteSizeLong, RespondProto.cls, Protobuf.bytesFieldSize,
      Protobuf.uint32FieldSize, wire, ProtoWire.write, ProtoWire.Field.write, varint_short, sizeLimit]
  · rw [List.mem_singleton.mp hu]
    have hread : (wire.unknownFieldParse 72).read [5] = some (⟨9,.varint 5⟩,[]) := rfl
    exact ⟨rfl,by decide,(wire_lawful.unknown_read hread).2⟩

theorem messages_kept_newerReply :
    (RespondProto.cls wire).parseFromString wire (fun _ => ⟨default,[]⟩)
      ((RespondProto.cls wire).serializeAsString wire newerReply) = (true,newerReply) :=
  (messages_kept wire_lawful).2.parses _ _ newerReply_writable

/-- A text that one of the classes accepts, whoever wrote it, is one of fields, none of which is
lost. It acts on messages, and its message can be written and read again. -/
theorem texts_accepted {pb : Protobuf F} (hpb : pb.Lawful) :
    (∀ left text m, (RequestProto.cls pb).parseFromString pb left text = (true,m) →
      Class.Accepted pb (RequestProto.cls pb) left text m) ∧
    (∀ left text m, (RespondProto.cls pb).parseFromString pb left text = (true,m) →
      Class.Accepted pb (RespondProto.cls pb) left text m) :=
  ⟨fun _ _ _ => Class.accepted_of_parse hpb (RequestProto.lawful hpb),
    fun _ _ _ => Class.accepted_of_parse hpb (RespondProto.lawful hpb)⟩

theorem texts_accepted_newerReply :
    Class.Accepted wire (RespondProto.cls wire) (fun _ => ⟨default,[]⟩)
      [8,12,18,1,99,34,1,7,72,5] newerReply :=
  (texts_accepted wire_lawful).2 _ _ _ (by decide +kernel)

/-- A class as `msg.h` uses it: no message that it makes has unknown fields to write, and none
are looked at. -/
def generated {P : Type} (pb : Protobuf F) (cls : Class P) (left : List UInt8 → P) :
    Generated P where
  serializeAsString m := cls.serializeAsString pb ⟨m,[]⟩
  parseFromString text :=
    let r := cls.parseFromString pb (fun text => ⟨left text,[]⟩) text
    (r.1,r.2.fields)

def RequestInfo.merge (m src : RequestInfo) : RequestInfo where
  client_id := mergeBytes m.client_id src.client_id
  server_id := mergeBytes m.server_id src.server_id
  data := mergeBytes m.data src.data
  sign := mergeBytes m.sign src.sign

def Ignored (pb : Protobuf F) (tail : List UInt8) : Prop :=
  tail = [] ∨ ∃ tag value, pb.readTag.read tail = some (tag,value) ∧ Class.EndsParse tag

section Texts
variable {pb : Protobuf F} {left : List UInt8 → RequestProto}

theorem mod_of_endsParse {tag : UInt32} (h : Class.EndsParse tag) :
    tag = 0 ∨ tag.toNat % 8 = 4 := by
  obtain h | h := h
  · exact .inl h
  · right
    have hnat := congrArg UInt32.toNat h
    rw [UInt32.toNat_and] at hnat
    have hmod : tag.toNat &&& (7 : UInt32).toNat = tag.toNat % 8 :=
      Nat.and_two_pow_sub_one_eq_mod tag.toNat 3
    rw [hmod] at hnat
    exact hnat

theorem RequestProto.switch_endsParse {tag : UInt32} (h : Class.EndsParse tag) :
    RequestProto.switch pb tag = none := by
  have low : ∀ c : UInt8, c.toNat % 8 = 2 → tag.toUInt8 ≠ c := by
    rintro c hc rfl
    rw [UInt32.toNat_toUInt8] at hc
    obtain rfl | hmod := mod_of_endsParse h
    · exact absurd hc (by decide)
    · omega
  unfold RequestProto.switch
  split
  · exact if_neg (low 10 rfl)
  · exact if_neg (low 18 rfl)
  · exact if_neg (low 26 rfl)
  · exact if_neg (low 34 rfl)
  · rfl

theorem parse_ignored {tail : List UInt8} (h : Ignored pb tail) (m : ProtoMessage RequestProto F) :
    (RequestProto.cls pb).internalParse pb m tail = .done m ∨
    (RequestProto.cls pb).internalParse pb m tail = .stopped m := by
  obtain rfl | ⟨tag,value,hread,hends⟩ := h
  · exact .inl rfl
  · right
    refine Parser.run_stop ?_ ?_
    · rintro rfl
      exact absurd (pb.readTag_lt hread) (Nat.not_lt_zero _)
    · have hswitch : (RequestProto.cls pb).switch tag = none := RequestProto.switch_endsParse hends
      change (RequestProto.cls pb).turn pb m tail = _
      simp only [Class.turn, hread, hswitch, Class.handleUnusual, if_pos hends]

theorem foldl_mergeFrom (infos : List RequestInfo) (m : RequestInfo) :
    (infos.map fun info => (⟨(RequestMsg.ofInfo info).msg_,[]⟩ : ProtoMessage RequestProto F)).foldl
        (RequestProto.cls pb).mergeFrom ⟨(RequestMsg.ofInfo m).msg_,[]⟩ =
      ⟨(RequestMsg.ofInfo (infos.foldl RequestInfo.merge m)).msg_,[]⟩ := by
  induction infos generalizing m with
  | nil => rfl
  | cons info infos ih => exact ih (m.merge info)

/-- From requests that were encoded one behind the other the server reads the merged request.
What the parser refuses behind them, by a tag 0 or the end of a group, does not matter: its result
is not looked at. -/
theorem parseMsgImpl_infos (hpb : pb.Lawful) {K : Type} {sv : Server K} {libs : Libraries K}
    {respond : Generated RespondProto}
    (hlibs : sv.libs = libs.ofGenerated (generated pb (RequestProto.cls pb) left) respond)
    (infos : List RequestInfo) (hsize : ∀ info ∈ infos, (RequestProto.cls pb).byteSizeLong pb
      ⟨(RequestMsg.ofInfo info).msg_,[]⟩ < sizeLimit)
    {tail : List UInt8} (htail : Ignored pb tail) (header : MessageHeader NetMsgType) :
    let text := infos.flatMap (encodeRequest (generated pb (RequestProto.cls pb) left)) ++ tail
    let info := infos.foldl RequestInfo.merge ⟨⟨[],[],[]⟩,[]⟩
    sv.parseMsgImpl ⟨header,text.reverse⟩ = .ok (info,pubkeyFileName info.client_id) := by
  intro text info
  have hwritable : ∀ src ∈ infos.map fun info => (⟨(RequestMsg.ofInfo info).msg_,[]⟩ :
      ProtoMessage RequestProto F), Class.Writable pb (RequestProto.cls pb) src := by
    intro src hsrc
    obtain ⟨info,hinfo,rfl⟩ := List.mem_map.mp hsrc
    exact ⟨hsize info hinfo,by simp⟩
  have hparse := Class.parse_messages hpb (RequestProto.lawful hpb) hwritable
    (RequestProto.cls pb).clear tail
  rw [List.flatMap_map] at hparse
  have hmerged : (RequestProto.cls pb).internalParse pb (RequestProto.cls pb).clear text =
      (RequestProto.cls pb).internalParse pb ⟨(RequestMsg.ofInfo info).msg_,[]⟩ tail :=
    hparse.trans (congrArg (fun m => (RequestProto.cls pb).internalParse pb m tail)
      (foldl_mergeFrom infos ⟨⟨[],[],[]⟩,[]⟩))
  have hdecode : decodeRequest (generated pb (RequestProto.cls pb) left) text = info := by
    simp only [decodeRequest, RequestFactory.createMsg, RequestMsg.ofEncStr, RequestMsg.decodeMsg,
      Msg.parse, generated, Class.parseFromString, hmerged]
    obtain h | h := parse_ignored htail ⟨(RequestMsg.ofInfo info).msg_,[]⟩ <;> rw [h] <;> rfl
  rw [Server.parseMsgImpl_eq, Server.keyName, Server.request, hlibs]
  simp only [List.reverse_reverse, Libraries.ofGenerated, hdecode]

end Texts

theorem parseMsgImpl_infos_two :
    let text := [⟨⟨[99],[],[1]⟩,[2]⟩,⟨⟨[100],[],[]⟩,[]⟩].flatMap
      (encodeRequest (generated wire (RequestProto.cls wire) fun _ => {}))
    let sv : Server (List UInt8) := oneKey.withLibs <| oneKey.libs.ofGenerated
      (generated wire (RequestProto.cls wire) fun _ => {})
      (generated wire (RespondProto.cls wire) fun _ => {})
    sv.parseMsgImpl ⟨⟨.kSeckeyAgree,0⟩,(text ++ [0,255]).reverse⟩ =
      .ok (⟨⟨[100],[],[1]⟩,[2]⟩,pubkeyFileName [100]) := by
  intro text sv
  have hsize : ∀ info ∈ [(⟨⟨[99],[],[1]⟩,[2]⟩ : RequestInfo),⟨⟨[100],[],[]⟩,[]⟩],
      (RequestProto.cls wire).byteSizeLong wire ⟨(RequestMsg.ofInfo info).msg_,[]⟩ < sizeLimit := by
    simp [Class.byteSizeLong, RequestProto.cls, Protobuf.bytesFieldSize, RequestMsg.ofInfo, wire,
      varint_short, sizeLimit]
  have htail : Ignored wire [0,255] := .inr ⟨0,[255],rfl,.inl rfl⟩
  have hlibs : sv.libs = oneKey.libs.ofGenerated
    (generated wire (RequestProto.cls wire) fun _ => default)
    (generated wire (RespondProto.cls wire) fun _ => default) := rfl
  exact parseMsgImpl_infos wire_lawful hlibs _ hsize htail _

end TransmissionPlatform.Platform
