import TransmissionPlatform.Lib.ProtoWire
import TransmissionPlatform.Platform.Agreement

/-!
`msg.h` and `factory.h`: how a request or a reply becomes a string, and the way of that string
through the body of a message, which is a stack. The classes that protoc generates are a
parameter.
-/

set_option autoImplicit false

namespace TransmissionPlatform.Platform
open Net

structure RequestProto where
  client_id : List UInt8 := []
  server_id : List UInt8 := []
  sign : List UInt8 := []
  data : List UInt8 := []
  deriving DecidableEq, Repr, Inhabited

structure RespondProto where
  seckey_id : UInt32 := 0
  client_id : List UInt8 := []
  server_id : List UInt8 := []
  data : List UInt8 := []
  deriving DecidableEq, Repr, Inhabited

/-- What `proto_info::RequestMsg` and `proto_info::RespondMsg` inherit from the library. -/
structure Generated (P : Type) where
  serializeAsString : P → List UInt8
  parseFromString : List UInt8 → Bool × P

/-- A message of 2 GiB or more cannot be serialized. -/
def Generated.RoundTrips {P : Type} (cls : Generated P) : Prop :=
  ∀ m, (cls.serializeAsString m).length < 2 ^ 31 →
    cls.parseFromString (cls.serializeAsString m) = (true,m)

-- msg.h

/-- An object of `RequestMsg` or `RespondMsg`: made of a string to be decoded, or of an info to
be encoded. -/
structure Msg (P : Type) where
  enc_str_ : List UInt8
  msg_ : P

namespace Msg
variable {P : Type}

def encodeMsg (cls : Generated P) (m : Msg P) : List UInt8 := cls.serializeAsString m.msg_

/-- The first statement of `DecodeMsg`. The result of the parser is not looked at. -/
def parse (cls : Generated P) (m : Msg P) : Msg P :=
  { m with msg_ := (cls.parseFromString m.enc_str_).2 }

theorem parse_encoded {cls : Generated P} (hcls : cls.RoundTrips) {m : Msg P}
    (h : (m.encodeMsg cls).length < 2 ^ 31) (msg_ : P) :
    ((⟨m.encodeMsg cls,msg_⟩ : Msg P).parse cls).msg_ = m.msg_ := by
  simp only [parse, encodeMsg, hcls m.msg_ h]

end Msg

namespace RequestMsg

/-- `InitMessage(std::string_view)` of a new object. -/
def ofEncStr (enc_str : List UInt8) : Msg RequestProto := ⟨enc_str,{}⟩

/-- `InitMessage(const RequestInfo*)` of a new object. -/
def ofInfo (info : RequestInfo) : Msg RequestProto :=
  ⟨[],{ client_id := info.client_id, server_id := info.server_id
        sign := info.sign, data := info.data }⟩

def decodeMsg (cls : Generated RequestProto) (m : Msg RequestProto) : RequestInfo :=
  let m := m.parse cls
  { client_id := m.msg_.client_id, server_id := m.msg_.server_id, data := m.msg_.data
    sign := m.msg_.sign }

end RequestMsg

namespace RespondMsg

def ofEncStr (enc : List UInt8) : Msg RespondProto := ⟨enc,{}⟩

/-- The id is an `int32_t` here and a `uint32_t` in the generated class. -/
def ofInfo (info : RespondInfo) : Msg RespondProto :=
  ⟨[],{ seckey_id := info.seckey_id.toUInt32, client_id := info.client_id
        server_id := info.server_id, data := info.data }⟩

def decodeMsg (cls : Generated RespondProto) (m : Msg RespondProto) : RespondInfo :=
  let m := m.parse cls
  { client_id := m.msg_.client_id, server_id := m.msg_.server_id, data := m.msg_.data
    seckey_id := m.msg_.seckey_id.toInt32 }

end RespondMsg

-- factory.h

/-- `RequestFactory` and `RespondFactory`. Which constructor it was is the `flag_`. -/
inductive Factory (I : Type) where
  | enc (enc_str_ : List UInt8)
  | info (info_ : I)

def RequestFactory.createMsg : Factory RequestInfo → Msg RequestProto
  | .info info_ => RequestMsg.ofInfo info_
  | .enc enc_str_ => RequestMsg.ofEncStr enc_str_

def RespondFactory.createMsg : Factory RespondInfo → Msg RespondProto
  | .info info_ => RespondMsg.ofInfo info_
  | .enc enc_str_ => RespondMsg.ofEncStr enc_str_

def encodeRequest (cls : Generated RequestProto) (info : RequestInfo) : List UInt8 :=
  (RequestFactory.createMsg (.info info)).encodeMsg cls

def encodeRespond (cls : Generated RespondProto) (info : RespondInfo) : List UInt8 :=
  (RespondFactory.createMsg (.info info)).encodeMsg cls

def decodeRequest (cls : Generated RequestProto) (enc : List UInt8) : RequestInfo :=
  RequestMsg.decodeMsg cls (RequestFactory.createMsg (.enc enc))

def decodeRespond (cls : Generated RespondProto) (enc : List UInt8) : RespondInfo :=
  RespondMsg.decodeMsg cls (RespondFactory.createMsg (.enc enc))

theorem decodeRequest_encodeRequest {cls : Generated RequestProto} (hcls : cls.RoundTrips)
    {info : RequestInfo} (h : (encodeRequest cls info).length < 2 ^ 31) :
    decodeRequest cls (encodeRequest cls info) = info := by
  have hparse := Msg.parse_encoded hcls h {}
  simp only [decodeRequest, encodeRequest, RequestFactory.createMsg, RequestMsg.ofEncStr,
    RequestMsg.decodeMsg] at hparse ⊢
  rw [hparse]
  rfl

theorem decodeRespond_encodeRespond {cls : Generated RespondProto} (hcls : cls.RoundTrips)
    {info : RespondInfo} (h : (encodeRespond cls info).length < 2 ^ 31) :
    decodeRespond cls (encodeRespond cls info) = info := by
  have hparse := Msg.parse_encoded hcls h {}
  simp only [decodeRespond, encodeRespond, RespondFactory.createMsg, RespondMsg.ofEncStr,
    RespondMsg.decodeMsg] at hparse ⊢
  rw [hparse]
  rfl

section Stack
variable {T : Type}

/-- The loop of `SeckeyAgree` that pushes a string from its last character to its first. -/
def pushChars (str : List UInt8) (msg : Message T) : Message T :=
  str.reverse.foldl (fun msg_out c => msg_out.push [c]) msg

/-- The loop of `ParseMsgImpl`: the string, and what is left of the message. -/
def popLoop : Nat → List UInt8 → Message T → Option (List UInt8 × Message T)
  | 0, net_str, msg => some (net_str,msg)
  | n + 1, net_str, msg => do
    let r ← msg.pop 1
    popLoop n (net_str ++ r.1) r.2

theorem reply_eq_pushChars (respond_str : List UInt8) :
    reply respond_str = pushChars respond_str ⟨⟨.kSeckeyAgree,0⟩,[]⟩ := rfl

theorem popChars_eq_popLoop (n : Nat) (net_str : List UInt8) (msg : Message T) :
    (popLoop n net_str msg).map Prod.fst = (popChars n msg).map (net_str ++ ·) := by
  induction n generalizing net_str msg with
  | zero => simp [popLoop, popChars]
  | succ n ih =>
    cases hpop : msg.pop 1 with
    | none => simp [popLoop, popChars, hpop]
    | some r =>
      simp only [popLoop, popChars, hpop, Option.bind_eq_bind, Option.bind_some, ih]
      cases popChars n r.2 with
      | none => rfl
      | some str => simp

theorem pop_snoc (header : MessageHeader T) (body : List UInt8) (c : UInt8) :
    Message.pop ⟨header,body ++ [c]⟩ 1 =
      some ([c],⟨{ header with size := UInt32.ofNat body.length },body⟩) := by
  simp [Message.pop]

theorem popLoop_body (header : MessageHeader T) (body net_str : List UInt8)
    (hsize : body = [] → header.size = 0) :
    popLoop body.length net_str ⟨header,body⟩ =
      some (net_str ++ body.reverse,⟨{ header with size := 0 },[]⟩) := by
  induction body using List.reverseRecOn generalizing header net_str with
  | nil =>
    obtain ⟨id,size⟩ := header
    obtain rfl : size = 0 := hsize rfl
    simp [popLoop]
  | append_singleton body c ih =>
    have hrest := ih { header with size := UInt32.ofNat body.length } (net_str ++ [c]) (by
      rintro rfl
      rfl)
    rw [List.length_append, List.length_singleton, popLoop, pop_snoc]
    simp only [Option.bind_eq_bind, Option.bind_some, hrest]
    simp

theorem popLoop_pushChars (id : T) (str : List UInt8) :
    popLoop (pushChars str ⟨⟨id,0⟩,[]⟩).size [] (pushChars str ⟨⟨id,0⟩,[]⟩) =
      some (str,⟨⟨id,0⟩,[]⟩) := by
  have hbody : (pushChars str ⟨⟨id,0⟩,[]⟩).body = str.reverse := Server.push_body str.reverse _
  have hid : (pushChars str ⟨⟨id,0⟩,[]⟩).header.id = id := push_id str.reverse _
  have hempty : str = [] → (pushChars str ⟨⟨id,0⟩,[]⟩).header.size = 0 := by
    rintro rfl
    rfl
  generalize pushChars str ⟨⟨id,0⟩,[]⟩ = pushed at hbody hid hempty
  obtain ⟨header,body⟩ := pushed
  obtain rfl : body = str.reverse := hbody
  obtain rfl : header.id = id := hid
  have hpop := popLoop_body header str.reverse [] fun h => hempty (List.reverse_eq_nil_iff.mp h)
  rw [List.reverse_reverse] at hpop
  exact hpop

end Stack

def Libraries.ofGenerated {K : Type} (libs : Libraries K) (request : Generated RequestProto)
    (respond : Generated RespondProto) : Libraries K :=
  { libs with
    parseFromString := fun enc => ((request.parseFromString enc).1,decodeRequest request enc)
    serializeAsString := encodeRespond respond }

/-- What `ParseMsgImpl` makes of a request that was pushed as `SeckeyAgree` pushes a reply. -/
theorem parseMsgImpl_pushChars {K : Type} {sv : Server K} {libs : Libraries K}
    {request : Generated RequestProto} {respond : Generated RespondProto}
    (hlibs : sv.libs = libs.ofGenerated request respond) (hrequest : request.RoundTrips)
    {info : RequestInfo} (h : (encodeRequest request info).length < 2 ^ 31) (id : NetMsgType) :
    sv.parseMsgImpl (pushChars (encodeRequest request info) ⟨⟨id,0⟩,[]⟩) =
      .ok (info,pubkeyFileName info.client_id) := by
  have hpop := congrArg (Option.map Prod.fst) (popLoop_pushChars id (encodeRequest request info))
  rw [popChars_eq_popLoop] at hpop
  simp only [List.nil_append, Option.map_id', Option.map_some] at hpop
  simp only [Server.parseMsgImpl, hpop, hlibs, Libraries.ofGenerated,
    decodeRequest_encodeRequest hrequest h]
  rfl

/-- An info is sent as a string that the other side takes out of the message unharmed. -/
structure Survives {T I : Type} (encode : I → List UInt8) (decode : List UInt8 → I) (id : T)
    (info : I) : Prop where
  popped : let msg : Message T := pushChars (encode info) ⟨⟨id,0⟩,[]⟩
    popLoop msg.size [] msg = some (encode info,⟨⟨id,0⟩,[]⟩)
  decoded : decode (encode info) = info

/-- Requests and replies survive the encoding and the way through a message. -/
theorem infos_survive {T : Type} {request : Generated RequestProto}
    {respond : Generated RespondProto} (hrequest : request.RoundTrips)
    (hrespond : respond.RoundTrips) (id : T) :
    (∀ info, (encodeRequest request info).length < 2 ^ 31 →
      Survives (encodeRequest request) (decodeRequest request) id info) ∧
    (∀ info, (encodeRespond respond info).length < 2 ^ 31 →
      Survives (encodeRespond respond) (decodeRespond respond) id info) := by
  constructor
  · intro info h
    exact ⟨popLoop_pushChars id _,decodeRequest_encodeRequest hrequest h⟩
  · intro info h
    exact ⟨popLoop_pushChars id _,decodeRespond_encodeRespond hrespond h⟩

section Wire
open ProtoWire

def RequestProto.fields (m : RequestProto) : List Field :=
  bytesField 1 m.client_id ++ bytesField 2 m.server_id ++ bytesField 3 m.sign ++
    bytesField 4 m.data

/-- A turn of the loop of `RequestMsg::_InternalParse`. An unknown field is passed over. -/
def RequestProto.merge (m : RequestProto) : Field → RequestProto
  | ⟨1,.bytes bs⟩ => { m with client_id := bs }
  | ⟨2,.bytes bs⟩ => { m with server_id := bs }
  | ⟨3,.bytes bs⟩ => { m with sign := bs }
  | ⟨4,.bytes bs⟩ => { m with data := bs }
  | _ => m

def RespondProto.fields (m : RespondProto) : List Field :=
  varintField 1 m.seckey_id.toNat ++ bytesField 2 m.client_id ++ bytesField 3 m.server_id ++
    bytesField 4 m.data

def RespondProto.merge (m : RespondProto) : Field → RespondProto
  | ⟨1,.varint n⟩ => { m with seckey_id := UInt32.ofNat n }
  | ⟨2,.bytes bs⟩ => { m with client_id := bs }
  | ⟨3,.bytes bs⟩ => { m with server_id := bs }
  | ⟨4,.bytes bs⟩ => { m with data := bs }
  | _ => m

def onWire {P : Type} [Inhabited P] (fields : P → List Field) (merge : P → Field → P) :
    Generated P where
  serializeAsString m := write (fields m)
  parseFromString bs :=
    match read bs with
    | none => (false,default)
    | some fs => (true,fs.foldl merge default)

theorem onWire_roundTrips {P : Type} [Inhabited P] {fields : P → List Field}
    {merge : P → Field → P} (h : ∀ m, (fields m).foldl merge default = m) :
    (onWire fields merge).RoundTrips := by
  intro m _
  simp only [onWire, read_write, h]

theorem foldl_bytesField {P : Type} {merge : P → Field → P} {number : Nat}
    (set : List UInt8 → P) (hset : ∀ bs, merge (set []) ⟨number,.bytes bs⟩ = set bs)
    (bs : List UInt8) : (bytesField number bs).foldl merge (set []) = set bs := by
  unfold bytesField
  split
  · rename_i hnil
    rw [hnil]
    rfl
  · exact hset bs

theorem RequestProto.foldl_fields (m : RequestProto) : m.fields.foldl merge default = m := by
  obtain ⟨client_id,server_id,sign,data⟩ := m
  have hclient : (bytesField 1 client_id).foldl merge default = ⟨client_id,[],[],[]⟩ :=
    foldl_bytesField (fun bs => (⟨bs,[],[],[]⟩ : RequestProto)) (fun _ => rfl) client_id
  have hserver : (bytesField 2 server_id).foldl merge ⟨client_id,[],[],[]⟩ =
      ⟨client_id,server_id,[],[]⟩ :=
    foldl_bytesField (fun bs => (⟨client_id,bs,[],[]⟩ : RequestProto)) (fun _ => rfl) server_id
  have hsign : (bytesField 3 sign).foldl merge ⟨client_id,server_id,[],[]⟩ =
      ⟨client_id,server_id,sign,[]⟩ :=
    foldl_bytesField (fun bs => (⟨client_id,server_id,bs,[]⟩ : RequestProto)) (fun _ => rfl) sign
  have hdata : (bytesField 4 data).foldl merge ⟨client_id,server_id,sign,[]⟩ =
      ⟨client_id,server_id,sign,data⟩ :=
    foldl_bytesField (fun bs => (⟨client_id,server_id,sign,bs⟩ : RequestProto)) (fun _ => rfl) data
  simp only [fields, List.foldl_append, hclient, hserver, hsign, hdata]

theorem RespondProto.foldl_fields (m : RespondProto) : m.fields.foldl merge default = m := by
  obtain ⟨seckey_id,client_id,server_id,data⟩ := m
  have hid : (varintField 1 seckey_id.toNat).foldl merge default = ⟨seckey_id,[],[],[]⟩ := by
    unfold varintField
    split
    · rename_i hzero
      rw [show seckey_id = 0 from UInt32.toNat_inj.mp hzero]
      rfl
    · change merge default ⟨1,.varint seckey_id.toNat⟩ = ⟨seckey_id,[],[],[]⟩
      simp only [merge, UInt32.ofNat_toNat]
      rfl
  have hclient : (bytesField 2 client_id).foldl merge ⟨seckey_id,[],[],[]⟩ =
      ⟨seckey_id,client_id,[],[]⟩ :=
    foldl_bytesField (fun bs => (⟨seckey_id,bs,[],[]⟩ : RespondProto)) (fun _ => rfl) client_id
  have hserver : (bytesField 3 server_id).foldl merge ⟨seckey_id,client_id,[],[]⟩ =
      ⟨seckey_id,client_id,server_id,[]⟩ :=
    foldl_bytesField (fun bs => (⟨seckey_id,client_id,bs,[]⟩ : RespondProto)) (fun _ => rfl) server_id
  have hdata : (bytesField 4 data).foldl merge ⟨seckey_id,client_id,server_id,[]⟩ =
      ⟨seckey_id,client_id,server_id,data⟩ :=
    foldl_bytesField (fun bs => (⟨seckey_id,client_id,server_id,bs⟩ : RespondProto)) (fun _ => rfl) data
  simp only [fields, List.foldl_append, hid, hclient, hserver, hdata]

def requestOnWire : Generated RequestProto := onWire RequestProto.fields RequestProto.merge

def respondOnWire : Generated RespondProto := onWire RespondProto.fields RespondProto.merge

theorem requestOnWire_roundTrips : requestOnWire.RoundTrips :=
  onWire_roundTrips RequestProto.foldl_fields

theorem respondOnWire_roundTrips : respondOnWire.RoundTrips :=
  onWire_roundTrips RespondProto.foldl_fields

def shortReply : RespondInfo := { client_id := [99], server_id := [], data := [], seckey_id := -1 }

theorem encode_shortReply :
    encodeRespond respondOnWire shortReply = [8,255,255,255,255,15,18,1,99] := by
  have hproto : RespondFactory.createMsg (.info shortReply) =
      ⟨[],⟨4294967295,[99],[],[]⟩⟩ := rfl
  simp [encodeRespond, hproto, Msg.encodeMsg, respondOnWire, onWire, RespondProto.fields, write,
    bytesField, varintField, Field.write, varint]

theorem infos_survive_onWire : Survives (encodeRespond respondOnWire) (decodeRespond respondOnWire)
    NetMsgType.kSeckeyAgree shortReply := by
  have hlength : (encodeRespond respondOnWire shortReply).length < 2 ^ 31 := by
    rw [encode_shortReply]
    decide
  exact (infos_survive requestOnWire_roundTrips respondOnWire_roundTrips
    NetMsgType.kSeckeyAgree).2 shortReply hlength

end Wire

end TransmissionPlatform.Platform
