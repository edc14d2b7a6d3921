import TransmissionPlatform.Platform.Agreement
import TransmissionPlatform.Platform.Answers
import TransmissionPlatform.Platform.MessagePb
import TransmissionPlatform.Platform.MyRSA

/-!
The way of an AES key to a client: drawn by a worker, encrypted, put into a reply, encoded, pushed
into a message and sent; and what the client that pops, decodes and decrypts it gets.
-/

set_option autoImplicit false

namespace TransmissionPlatform.Platform
open Net ProtoClass StepSystem

theorem reply_announced {text : List UInt8} (h : text.length < 2 ^ 32) : (reply text).Announced := by
  unfold reply
  cases hrev : text.reverse using List.reverseRecOn with
  | nil => rfl
  | append_singleton bs c =>
    have hlen := congrArg List.length hrev
    rw [List.length_reverse, List.length_append, List.length_singleton] at hlen
    rw [List.foldl_append]
    refine Message.announced_push _ _ ?_
    rw [Server.push_body, List.length_append, List.length_append]
    simp only [List.length_singleton, List.length_nil]
    omega

variable {K P F : Type}

/-- What the client makes of the message that grants its request `m` a key. -/
structure Delivers (sv : Server K) (libs : RsaLibraries K P) (respond : Generated RespondProto)
    (m : Message NetMsgType) (key : List UInt8) (encrypted : Option K) (data : List UInt8)
    (msg : Message NetMsgType) : Prop where
  announced : msg.Announced
  popped : ∃ text, popLoop msg.size [] msg = some (text,⟨⟨.kSeckeyAgree,0⟩,[]⟩) ∧
    decodeRespond respond text = sv.respondInfo m data
  opened : ∀ (rsa : MyRSA K P) (n : Nat) (cipher buffer : List UInt8), rsa.pub_key = encrypted →
    rsa.only_pubkey_ = false → Base64Bio.Fits n → rsa.Decrypts libs n key cipher buffer →
    rsa.decryptPriKey libs data true = .ok buffer ∧ key <+: buffer

section Delivery
variable {sv : Server K} {libs : RsaLibraries K P} {pb : Protobuf F}
  {request : Generated RequestProto} {left : List UInt8 → RespondProto}

theorem opened_of_encrypted {encrypted : Option K} {key data : List UInt8}
    (hencrypt : encryptPubKey libs.toLibraries encrypted key = .ok data) (rsa : MyRSA K P) {n : Nat}
    {cipher buffer : List UInt8} (hpub : rsa.pub_key = encrypted) (hpair : rsa.only_pubkey_ = false)
    (hbase64 : MyRSA.Base64Keeps libs n) (h : rsa.Decrypts libs n key cipher buffer) :
    rsa.decryptPriKey libs data true = .ok buffer := by
  have hround := MyRSA.decryptPriKey_encryptPubKey h (fun _ : true = true => hbase64)
  rw [MyRSA.encryptPubKey_base64, hpub, hencrypt, hpair] at hround
  exact hround

theorem delivers_reply {bio : Base64Bio} (hbio : bio.Spec)
    (hbase64 : libs.toLibraries = libs.toLibraries.ofBio bio) (hpb : pb.Lawful)
    (hlibs : sv.libs = libs.toLibraries.ofGenerated request (generated pb (RespondProto.cls pb) left))
    {m : Message NetMsgType} {encrypted : Option K} {key data : List UInt8}
    (hencrypt : encryptPubKey sv.libs encrypted key = .ok data)
    (hsize : (RespondProto.cls pb).byteSizeLong pb
      ⟨(RespondMsg.ofInfo (sv.respondInfo m data)).msg_,[]⟩ < sizeLimit) :
    Delivers sv libs (generated pb (RespondProto.cls pb) left) m key encrypted data
      (reply (sv.libs.serializeAsString (sv.respondInfo m data))) := by
  have hwritable : Class.Writable pb (RespondProto.cls pb)
      ⟨(RespondMsg.ofInfo (sv.respondInfo m data)).msg_,[]⟩ := ⟨hsize,by simp⟩
  have htext : sv.libs.serializeAsString (sv.respondInfo m data) =
      (RespondProto.cls pb).serializeAsString pb
        ⟨(RespondMsg.ofInfo (sv.respondInfo m data)).msg_,[]⟩ := by
    rw [hlibs]
    rfl
  have hlen : (sv.libs.serializeAsString (sv.respondInfo m data)).length < sizeLimit := by
    rw [htext, Class.serializeAsString_eq hsize,
      Class.internalSerialize_length hpb (RespondProto.lawful hpb)]
    exact hsize
  have hparse := Class.parse_serialize hpb (RespondProto.lawful hpb) hwritable
    fun text => ⟨left text,[]⟩
  refine ⟨reply_announced (Nat.lt_trans hlen (by decide)),⟨_,popLoop_pushChars _ _,?_⟩,?_⟩
  · rw [htext]
    simp only [decodeRespond, RespondFactory.createMsg, RespondMsg.ofEncStr, RespondMsg.decodeMsg,
      Msg.parse, generated, hparse]
    rfl
  · intro rsa n cipher buffer hpub hpair hfits h
    have hkeeps := MyRSA.base64Keeps_of_fits hbio hbase64 hfits.lt hfits
    rw [hlibs] at hencrypt
    exact ⟨opened_of_encrypted hencrypt rsa hpub hpair hkeeps h,h.start⟩

end Delivery

/-- Whatever the clients send and however the workers interleave: an answer turns its request
down, or the client it is sent to gets out of it a key of 16 printable characters that a worker
drew, if it has the private key to the public key that the file of its name held when the key was
encrypted. -/
theorem keys_delivered {sv : Server K} {libs : RsaLibraries K P} {bio : Base64Bio} (hbio : bio.Spec)
    (hbase64 : libs.toLibraries = libs.toLibraries.ofBio bio) {pb : Protobuf F} (hpb : pb.Lawful)
    {request : Generated RequestProto} {left : List UInt8 → RespondProto}
    (hlibs : sv.libs = libs.toLibraries.ofGenerated request (generated pb (RespondProto.cls pb) left))
    {now : Nat → UInt64} {w : World} {es : List ServiceEvent} {s : Service K}
    (run : exec sv.serviceStep (.start now w) es = some s) :
    ∀ x ∈ s.host.sent, ∀ k, x.reply = some k → x.msg = failedMsg ∨
      ∃ (m : Message NetMsgType) (verified encrypted : Option K) (random : Random)
        (data : List UInt8), (s.host.requests x.client)[k]? = some ⟨some x.client,m⟩ ∧
        sv.Loaded (.start now w) es (sv.keyName m) verified ∧ sv.checked m verified = .ok true ∧
        sv.Loaded (.start now w) es (sv.keyName m) encrypted ∧ .start random ∈ es ∧
        let key := getAESRandStr random kLen16
        key.length = 16 ∧ (∀ b ∈ key, IsKeyChar b) ∧
        encryptPubKey sv.libs encrypted key = .ok data ∧
        ((RespondProto.cls pb).byteSizeLong pb
            ⟨(RespondMsg.ofInfo (sv.respondInfo m data)).msg_,[]⟩ < sizeLimit →
          Delivers sv libs (generated pb (RespondProto.cls pb) left) m key encrypted data x.msg) := by
  intro x hx k hk
  obtain ⟨m,hm,-,hfailed | ⟨verified,encrypted,random,data,hverified,hgood,hencrypted,hdrawn,hkey,
    hmsg⟩⟩ := (Server.serviceInv_run run).sound x hx k hk
  · exact .inl hfailed
  · right
    refine ⟨m,verified,encrypted,random,data,hm,hverified,hgood,hencrypted,hdrawn,
      getAESRandStr_length random kLen16,getAESRandStr_keyChar random kLen16,hkey,fun hsize => ?_⟩
    rw [hmsg]
    exact delivers_reply hbio hbase64 hpb hlibs hkey hsize

def oneKeyRsa : RsaLibraries (List UInt8) Unit :=
  { oneKey.libs with
    rsa_verify_sha256 := fun _ _ _ => none
    rsa_verify_sha512 := fun _ _ _ => none
    rsa_private_decrypt := fun _ cipher =>
      if cipher = ownCipher then some (16,List.replicate 16 48 ++ List.replicate 112 0)
      else some (-1,List.replicate 128 0)
    rsa_sign := fun _ _ _ => none }

def oneKeyPb : Server (List UInt8) :=
  oneKey.withLibs <| oneKeyRsa.toLibraries.ofGenerated
    (generated wire (RequestProto.cls wire) fun _ => {})
    (generated wire (RespondProto.cls wire) fun _ => {})

def ownRsa (k : List UInt8) : MyRSA (List UInt8) Unit := ⟨some k,some (),false⟩

theorem decrypts_own (k : List UInt8) :
    (ownRsa k).Decrypts oneKeyRsa 128 (getAESRandStr ownRequest.random kLen16) ownCipher
      (List.replicate 16 48 ++ List.replicate 112 0) := by
  have hkey : getAESRandStr ownRequest.random kLen16 = List.replicate 16 48 := by decide +kernel
  rw [hkey]
  constructor
  · rfl
  · rfl
  · rfl
  · exact List.prefix_append _ _
  · rfl

theorem keys_delivered_oneClient :
    ∃ s, exec oneKeyPb.serviceStep (.start (fun _ => 5) emptyStore)
      (Server.requestSteps ++ [.work 0,.work 0,.work 0,.work 0]) = some s ∧
      ∃ (msg left : Message NetMsgType) (text : List UInt8) (info : RespondInfo),
        s.host.sent = [⟨0,msg,some 0⟩] ∧ popLoop msg.size [] msg = some (text,left) ∧
        decodeRespond (generated wire (RespondProto.cls wire) fun _ => {}) text = info ∧
        (ownRsa ownKey).decryptPriKey oneKeyRsa info.data true =
          .ok (List.replicate 16 48 ++ List.replicate 112 0) := by
  have hrun : (exec oneKeyPb.serviceStep (.start (fun _ => 5) emptyStore)
      (Server.requestSteps ++ [.work 0,.work 0,.work 0,.work 0])).map
        (fun s => (s.host.sent.map fun x => (x.client,x.msg.header.id,x.reply),s.host.requests 0)) =
      some ([(0,.kSeckeyAgree,some 0)],[⟨some 0,ownRequest.msg⟩]) := by decide +kernel
  obtain ⟨s,run,hs⟩ := Option.map_eq_some_iff.mp hrun
  obtain ⟨hsent,hrequests⟩ := Prod.mk.inj hs
  obtain ⟨⟨c,msg,r⟩,hx,hlast⟩ := List.map_eq_singleton_iff.mp hsent
  obtain ⟨rfl,hlast⟩ := Prod.mk.inj hlast
  obtain ⟨hid,rfl⟩ := Prod.mk.inj hlast
  have hlibs : oneKeyPb.libs = oneKeyRsa.toLibraries.ofGenerated
    (generated wire (RequestProto.cls wire) fun _ => {})
    (generated wire (RespondProto.cls wire) fun _ => {}) := rfl
  have hbase64 : oneKeyRsa.toLibraries = oneKeyRsa.toLibraries.ofBio Base64Bio.lineBio := rfl
  obtain hfailed | ⟨m,verified,encrypted,random,data,hm,-,-,-,hdrawn,-,-,hkey,hdelivers⟩ :=
    keys_delivered Base64Bio.lineBio_spec hbase64 wire_lawful hlibs run _
      (by rw [hx]; exact List.mem_singleton_self _) 0 rfl
  · rw [hfailed] at hid
    cases hid
  · rw [hrequests] at hm
    cases hm
    obtain rfl : random = ownRequest.random := by
      simpa [Server.requestSteps] using hdrawn
    cases encrypted with
    | none => cases hkey
    | some k =>
      have htext : toBase64 oneKeyPb.libs ownCipher = .ok data := hkey
      have hsmall : (toBase64 oneKeyPb.libs ownCipher).toOption.all (fun data =>
          decide ((RespondProto.cls wire).byteSizeLong wire
            ⟨(RespondMsg.ofInfo (oneKeyPb.respondInfo ownRequest.msg data)).msg_,[]⟩ < sizeLimit)) =
          true := by decide +kernel
      rw [htext] at hsmall
      obtain ⟨-,⟨text,hpopped,hdecoded⟩,hopened⟩ := hdelivers (of_decide_eq_true hsmall)
      refine ⟨s,run,msg,_,text,_,hx,hpopped,hdecoded,?_⟩
      exact (hopened (ownRsa k) 128 _ _ rfl rfl (by decide) (decrypts_own k)).1

end TransmissionPlatform.Platform
