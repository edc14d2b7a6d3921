import TransmissionPlatform.Platform.Base64

/-!
`Server::SeckeyAgree` for requests that are processed one at a time. The key file is written
before the signature is checked, and only one of the ways out of the function removes it.
-/

set_option autoImplicit false

namespace TransmissionPlatform.Platform
open PosixPath Net Program

/-- The loop `msg >> c; net_str += c;` over `n` turns. -/
def popChars {T : Type} : Nat → Message T → Option (List UInt8)
  | 0, _ => some []
  | n + 1, msg => do
    let (c,msg) ← msg.pop 1
    let net_str ← popChars n msg
    pure (c ++ net_str)

theorem popChars_eq {T : Type} (header : MessageHeader T) (body : List UInt8) :
    popChars body.length ⟨header,body⟩ = some body.reverse := by
  generalize hn : body.length = n
  induction n generalizing header body with
  | zero => simp [popChars, List.length_eq_zero_iff.mp hn]
  | succ n ih =>
    have htake : (body.take n).length = n := by
      rw [List.length_take, hn]
      exact Nat.min_eq_left (Nat.le_succ n)
    have hdrop : (body.drop n).length = 1 := by
      rw [List.length_drop, hn]
      exact Nat.add_sub_cancel_left n 1
    obtain ⟨c,hc⟩ := List.length_eq_one_iff.mp hdrop
    have hbody : body = body.take n ++ [c] := by rw [← hc, List.take_append_drop]
    have hpop : Message.pop (⟨header,body⟩ : Message T) 1 =
        some ([c],⟨{ header with size := UInt32.ofNat (body.take n).length },body.take n⟩) := by
      simp [Message.pop, hn, hc]
    rw [popChars, hpop]
    simp only [Option.bind_eq_bind, Option.bind_some, ih _ _ htake]
    conv_rhs => rw [hbody]
    simp

/-- The values that `std::rand()` and the distribution return to one call. -/
structure Random where
  rand : Nat → Nat
  draw : Nat → Nat

def specialChars : List UInt8 :=
  [126,96,64,35,36,37,94,38,42,40,41,95,43,61,45,123,125,91,93,59,39,58]

def getAESRandStr (random : Random) (len : Nat) : List UInt8 :=
  (List.range len).map fun i =>
    match random.rand i % 4 with
    | 0 => UInt8.ofNat (random.draw i % 10 + 48)
    | 1 => UInt8.ofNat (random.draw i % 26 + 97)
    | 2 => UInt8.ofNat (random.draw i % 26 + 65)
    | _ => specialChars.getD (random.draw i % specialChars.length) 0

def kLen16 : Nat := 16

/-- `msg_out` after the loop that pushes the characters from the last to the first. -/
def reply (respond_str : List UInt8) : Message NetMsgType :=
  respond_str.reverse.foldl (fun msg_out c => msg_out.push [c]) ⟨⟨.kSeckeyAgree,0⟩,[]⟩

namespace Server
variable {K : Type} (sv : Server K)

/-- `ParseMsgImpl`. What `ParseFromString` returns is not looked at. -/
def parseMsgImpl (msg : Message NetMsgType) : Except Failure (RequestInfo × List UInt8) :=
  match popChars msg.size msg with
  | none => throw .undefined
  | some net_str =>
    let request_info := (sv.libs.parseFromString net_str).2
    pure (request_info,pubkeyFileName request_info.client_id)

def checkSign (pubkey_file_name data sign_data : List UInt8) : Action Bool := do
  let rsa := sv.myRSA pubkey_file_name (← get)
  MonadExcept.ofExcept (verify sv.libs rsa data sign_data)

/-- The part of `SeckeyAgree` after the signature check. -/
def respond (random : Random) (client : Nat) (request_info : RequestInfo)
    (client_id_pubkey_file_name : List UInt8) : Action Bool := do
  let aes_key := getAESRandStr random kLen16
  let rsa := sv.myRSA client_id_pubkey_file_name (← get)
  let aes_seckey ← MonadExcept.ofExcept (encryptPubKey sv.libs rsa aes_key)
  let respond_info : RespondInfo :=
    { client_id := request_info.client_id, server_id := sv.server_id_, data := aes_seckey
      seckey_id := 12 }
  send client (reply (sv.libs.serializeAsString respond_info))
  return true

def seckeyAgree (random : Random) (client : Nat) (msg : Message NetMsgType) : Action Bool := do
  let (request_info,client_id_pubkey_file_name) ← MonadExcept.ofExcept (sv.parseMsgImpl msg)
  if ← sv.exists_ client_id_pubkey_file_name then
    sv.logWarn "签名校验失败, 已经有同名密钥"
    return false
  modify (sv.ofstream client_id_pubkey_file_name request_info.data)
  let h := hashFinal sv.libs request_info.data
  if !(← sv.checkSign client_id_pubkey_file_name h request_info.sign) then
    sv.logWarn "签名校验失败"
    modify (sv.remove client_id_pubkey_file_name)
    return false
  sv.respond random client request_info client_id_pubkey_file_name

def request (msg : Message NetMsgType) : RequestInfo :=
  (sv.libs.parseFromString msg.body.reverse).2

def keyName (msg : Message NetMsgType) : List UInt8 := pubkeyFileName (sv.request msg).client_id

theorem parseMsgImpl_eq (msg : Message NetMsgType) :
    sv.parseMsgImpl msg = .ok (sv.request msg,sv.keyName msg) := by
  obtain ⟨header,body⟩ := msg
  simp only [parseMsgImpl, Message.size, popChars_eq]
  rfl

def written (msg : Message NetMsgType) (w : World) : World :=
  sv.ofstream (sv.keyName msg) (sv.request msg).data w

theorem loggable_written (msg : Message NetMsgType) (w : World) :
    sv.Loggable (sv.written msg w) ↔ sv.Loggable w :=
  sv.loggable_congr (sv.ofstream_loggers _ _ w)

def checked (msg : Message NetMsgType) (key : Option K) : Except Failure Bool :=
  verify sv.libs key (hashFinal sv.libs (sv.request msg).data) (sv.request msg).sign

section Exits
variable {random : Random} {client : Nat} {msg : Message NetMsgType} {w : World}

theorem checkSign_run (msg : Message NetMsgType) :
    sv.checkSign (sv.keyName msg) (hashFinal sv.libs (sv.request msg).data) (sv.request msg).sign w =
      (MonadExcept.ofExcept (sv.checked msg (sv.myRSA (sv.keyName msg) w)) : Action Bool) w := rfl

theorem respond_error {info : RequestInfo} {name : List UInt8} {e : Failure}
    (h : encryptPubKey sv.libs (sv.myRSA name w) (getAESRandStr random kLen16) = .error e) :
    sv.respond random client info name w = .error e w := by
  rw [respond, bind_ok (get_run w), h]
  rfl

theorem respond_ok {info : RequestInfo} {name aes_seckey : List UInt8}
    (h : encryptPubKey sv.libs (sv.myRSA name w) (getAESRandStr random kLen16) = .ok aes_seckey) :
    sv.respond random client info name w = .ok true { w with
      sent := w.sent ++ [(client,reply (sv.libs.serializeAsString
        { client_id := info.client_id, server_id := sv.server_id_, data := aes_seckey
          seckey_id := 12 }))] } := by
  rw [respond, bind_ok (get_run w), h]
  rfl

theorem seckeyAgree_statFails (hstat : sv.statFails (sv.keyName msg) = true) :
    sv.seckeyAgree random client msg w = .error .filesystem_error w := by
  rw [seckeyAgree, parseMsgImpl_eq, bind_ok (ofExcept_ok_run _ w)]
  exact bind_error (exists_error hstat)

variable (hstat : sv.statFails (sv.keyName msg) = false)
include hstat

theorem seckeyAgree_present (hpresent : sv.present (sv.keyName msg) w = true) :
    sv.seckeyAgree random client msg w =
      (do sv.logWarn "签名校验失败, 已经有同名密钥"; return false : Action Bool) w := by
  have hexists : sv.exists_ (sv.keyName msg) w = .ok true w := by rw [exists_ok hstat, hpresent]
  rw [seckeyAgree, parseMsgImpl_eq, bind_ok (ofExcept_ok_run _ w)]
  exact bind_ok hexists

variable (habsent : sv.present (sv.keyName msg) w = false)
include habsent

theorem seckeyAgree_absent :
    sv.seckeyAgree random client msg w =
      (do
        if !(← sv.checkSign (sv.keyName msg) (hashFinal sv.libs (sv.request msg).data)
            (sv.request msg).sign) then
          sv.logWarn "签名校验失败"
          modify (sv.remove (sv.keyName msg))
          return false
        sv.respond random client (sv.request msg) (sv.keyName msg) : Action Bool)
      (sv.written msg w) := by
  have hexists : sv.exists_ (sv.keyName msg) w = .ok false w := by rw [exists_ok hstat, habsent]
  rw [seckeyAgree, parseMsgImpl_eq, bind_ok (ofExcept_ok_run _ w)]
  refine (bind_ok hexists).trans ?_
  exact bind_ok (modify_run _ _)

theorem seckeyAgree_thrown {e : Failure}
    (hthrown : sv.checked msg (sv.myRSA (sv.keyName msg) (sv.written msg w)) = .error e) :
    sv.seckeyAgree random client msg w = .error e (sv.written msg w) := by
  have hcheck := sv.checkSign_run msg (w := sv.written msg w)
  rw [hthrown] at hcheck
  rw [sv.seckeyAgree_absent hstat habsent]
  exact bind_error hcheck

theorem seckeyAgree_badSign
    (hbad : sv.checked msg (sv.myRSA (sv.keyName msg) (sv.written msg w)) = .ok false) :
    sv.seckeyAgree random client msg w =
      (do
        sv.logWarn "签名校验失败"
        modify (sv.remove (sv.keyName msg))
        return false : Action Bool) (sv.written msg w) := by
  have hcheck := sv.checkSign_run msg (w := sv.written msg w)
  rw [hbad] at hcheck
  rw [sv.seckeyAgree_absent hstat habsent]
  exact bind_ok hcheck

theorem seckeyAgree_goodSign
    (hgood : sv.checked msg (sv.myRSA (sv.keyName msg) (sv.written msg w)) = .ok true) :
    sv.seckeyAgree random client msg w =
      sv.respond random client (sv.request msg) (sv.keyName msg) (sv.written msg w) := by
  have hcheck := sv.checkSign_run msg (w := sv.written msg w)
  rw [hgood] at hcheck
  rw [sv.seckeyAgree_absent hstat habsent]
  exact bind_ok hcheck

end Exits

/-- What SeckeyAgree has left of the key store, with the key file at `loc`. -/
def Atomic (loc : Location) (data : List UInt8) (w : World) : EStateM.Result Failure World Bool → Prop
  | .ok true w' => w.files loc = none ∧ w'.files = Function.update w.files loc (some data)
  | .ok false w' => sv.OffLog w w'
  | .error _ w' => sv.OffLog w w'

def Concludes (random : Random) (msg : Message NetMsgType) (key : Option K) (logs : Prop) : Prop :=
  match sv.checked msg key with
  | .error _ => False
  | .ok false => logs
  | .ok true => (encryptPubKey sv.libs key (getAESRandStr random kLen16)).isOk = true

section KeyFile
variable {sv} {random : Random} {client : Nat} {msg : Message NetMsgType} {w : World}
  {loc log : Location}

theorem offLog_leftover (hnone : w.files loc = none) (hfile : sv.fileAt (sv.keyName msg) = some loc)
    (hlog : sv.fileAt logPath = some log) {w' : World} (h : sv.OffLog (sv.written msg w) w') :
    sv.OffLog w w' ↔ loc = log := by
  have hwritten : (sv.written msg w).files =
      Function.update w.files loc (some (sv.request msg).data) := by
    rw [written, ofstream_of_fileAt hfile]
  constructor
  · intro hsame
    by_contra hne
    have hoff : sv.fileAt logPath ≠ some loc := by
      rw [hlog]
      simpa using Ne.symm hne
    have hleft := h loc hoff
    rw [hsame loc hoff, hnone, hwritten, Function.update_self] at hleft
    simp at hleft
  · rintro rfl l hl
    rw [h l hl, hwritten]
    refine Function.update_of_ne ?_ _ _
    rintro rfl
    exact hl hlog

theorem atomic_present (hstat : sv.statFails (sv.keyName msg) = false)
    (hpresent : sv.present (sv.keyName msg) w = true) (data : List UInt8) :
    sv.Atomic loc data w (sv.seckeyAgree random client msg w) := by
  rw [sv.seckeyAgree_present hstat hpresent]
  by_cases hloggable : sv.Loggable w
  · obtain ⟨w',hrun,hoff,-⟩ := logWarn_ok "签名校验失败, 已经有同名密钥" hloggable
    rw [bind_ok hrun]
    exact hoff
  · obtain ⟨w',hrun,hoff⟩ := logWarn_error "签名校验失败, 已经有同名密钥" hloggable
    rw [bind_error hrun]
    exact hoff

theorem atomic_thrown (hnone : w.files loc = none) (hfile : sv.fileAt (sv.keyName msg) = some loc)
    (hlog : sv.fileAt logPath = some log) (e : Failure) {w' : World}
    (h : sv.OffLog (sv.written msg w) w') :
    sv.Atomic loc (sv.request msg).data w (.error e w') ↔ loc = log :=
  offLog_leftover hnone hfile hlog h

theorem offLog_removed (habsent : sv.present (sv.keyName msg) w = false) {w' : World}
    (h : sv.OffLog (sv.written msg w) w') : sv.OffLog w (sv.remove (sv.keyName msg) w') := by
  intro l hl
  cases hloc : sv.tree.resolve (sv.keyName msg) with
  | none =>
    have hfile : sv.fileAt (sv.keyName msg) = none := by
      rw [fileAt, hloc]
      rfl
    have hwritten : sv.written msg w = w := by rw [written, ofstream, hfile]
    rw [remove, hloc, h l hl, hwritten]
  | some loc =>
    obtain ⟨hnone,hfile⟩ := absent_of_resolve hloc habsent
    have hremoved : (sv.remove (sv.keyName msg) w').files = Function.update w'.files loc none := by
      rw [remove_of_resolve hloc]
    rw [hremoved]
    by_cases heq : l = loc
    · rw [heq, Function.update_self, hnone]
    · rw [Function.update_of_ne heq, h l hl, written, ofstream_of_fileAt hfile]
      exact Function.update_of_ne heq _ _

theorem atomic_badSign (hstat : sv.statFails (sv.keyName msg) = false)
    (habsent : sv.present (sv.keyName msg) w = false) (hnone : w.files loc = none)
    (hfile : sv.fileAt (sv.keyName msg) = some loc) (hlog : sv.fileAt logPath = some log)
    (hbad : sv.checked msg (sv.myRSA (sv.keyName msg) (sv.written msg w)) = .ok false) :
    sv.Atomic loc (sv.request msg).data w (sv.seckeyAgree random client msg w) ↔
      loc = log ∨ sv.Loggable w := by
  rw [sv.seckeyAgree_badSign hstat habsent hbad, ← sv.loggable_written msg]
  by_cases hloggable : sv.Loggable (sv.written msg w)
  · obtain ⟨w',hrun,hoff,-⟩ := logWarn_ok "签名校验失败" hloggable
    rw [bind_ok hrun]
    exact iff_of_true (offLog_removed habsent hoff) (Or.inr hloggable)
  · obtain ⟨w',hrun,hoff⟩ := logWarn_error "签名校验失败" hloggable
    rw [bind_error hrun, atomic_thrown hnone hfile hlog .spdlog_ex hoff]
    exact (or_iff_left hloggable).symm

/-- One request is all or nothing unless it gets past the exists check and an exception
leaves the function after the write of its file, which stays then. -/
theorem seckeyAgree_atomic_iff (sv : Server K) (random : Random) (client : Nat)
    (msg : Message NetMsgType) (w : World) (hstat : sv.statFails (sv.keyName msg) = false)
    (hloc : sv.tree.resolve (sv.keyName msg) = some loc) (hlog : sv.fileAt logPath = some log) :
    sv.Atomic loc (sv.request msg).data w (sv.seckeyAgree random client msg w) ↔
      sv.present (sv.keyName msg) w = true ∨ loc = log ∨
        sv.Concludes random msg (sv.libs.pem_read_bio_RSAPublicKey (sv.request msg).data)
          (sv.Loggable w) := by
  cases hpresent : sv.present (sv.keyName msg) w with
  | true => exact iff_of_true (atomic_present hstat hpresent _) (Or.inl rfl)
  | false =>
    obtain ⟨hnone,hfile⟩ := absent_of_resolve hloc hpresent
    have hkey : sv.myRSA (sv.keyName msg) (sv.written msg w) =
        sv.libs.pem_read_bio_RSAPublicKey (sv.request msg).data := myRSA_ofstream hfile _
    have hthrown : ∀ e, sv.Atomic loc (sv.request msg).data w (.error e (sv.written msg w)) ↔
        loc = log := fun e => atomic_thrown hnone hfile hlog e fun _ _ => rfl
    simp only [Bool.false_eq_true, false_or, Concludes]
    cases hchecked : sv.checked msg (sv.libs.pem_read_bio_RSAPublicKey (sv.request msg).data) with
    | error e =>
      rw [sv.seckeyAgree_thrown hstat hpresent (hkey ▸ hchecked), hthrown]
      simp
    | ok good =>
      cases good with
      | false => exact atomic_badSign hstat hpresent hnone hfile hlog (hkey ▸ hchecked)
      | true =>
        rw [sv.seckeyAgree_goodSign hstat hpresent (hkey ▸ hchecked)]
        cases hencrypt : encryptPubKey sv.libs
          (sv.libs.pem_read_bio_RSAPublicKey (sv.request msg).data)
          (getAESRandStr random kLen16) with
        | error e =>
          rw [sv.respond_error (hkey ▸ hencrypt), hthrown]
          simp [Except.isOk, Except.toBool]
        | ok aes_seckey =>
          rw [sv.respond_ok (hkey ▸ hencrypt)]
          refine iff_of_true ⟨hnone,?_⟩ (Or.inr rfl)
          rw [written, ofstream_of_fileAt hfile]

end KeyFile

end Server

/-- The public key file of the server in the repository, whose private key signs the request. -/
def ownKey : List UInt8 :=
  ascii "-----BEGIN RSA PUBLIC KEY-----\n" ++
  ascii "MIGIAoGBAL4BDR1XKy4ITaabHlpaQmw8Q01Xtl/o6vjekmC+nJbJyHsefNSfjTuN\n" ++
  ascii "907xBEib1R+mvmHKSfDY+ACiN/bbosVNKSnEe0qA/ogVSjnuWx3nqRE9X9LTh5um\n" ++
  ascii "5UUsnvpwzGrhtcvFSNykU1tSqJfMNZ+holgLFajaF0xnvEENrkk3AgIwOQ==\n" ++
  ascii "-----END RSA PUBLIC KEY-----\n"

def ownSign : List UInt8 :=
  ascii "XrdgWjlcBOgKbad7Zk9mhxU4kbtogsOnCG86tVEI8WKG2/bgezImNz12TLq9pSjJ\n" ++
  ascii "TiHWagAVdGszDwb5zJIzqD1Mo00BCnaqkXT9kPNv+ZA+y95Rabw58qbVutFLhV3d\n" ++
  ascii "Rm+55i/ZYUoS3P1pqBu6BHufAZIhaxyjVQ6184aV8r8=\n"

def signBytes : List UInt8 :=
  [94,183,96,90,57,92,4,232,10,109,167,123,102,79,102,135,21,56,145,187,104,130,195,167,8,111,58,
   181,81,8,241,98,134,219,246,224,123,50,38,55,61,118,76,186,189,165,40,201,78,33,214,106,0,21,116,
   107,51,15,6,249,204,146,51,168,61,76,163,77,1,10,118,170,145,116,253,144,243,111,249,144,62,203,
   222,81,105,188,57,242,166,213,186,209,75,133,93,221,70,111,185,230,47,217,97,74,18,220,253,105,
   168,27,186,4,123,159,1,146,33,107,28,163,85,14,181,243,134,149,242,191]

/-- A ciphertext of the key of sixteen zeros. -/
def ownCipher : List UInt8 :=
  [93,203,81,167,80,91,183,9,254,81,85,51,255,71,218,146,116,215,81,39,229,103,93,253,188,54,19,121,
   26,171,171,13,75,120,34,195,197,212,207,229,57,154,169,244,218,0,184,221,247,74,214,194,134,161,
   28,5,81,98,233,214,128,26,108,35,170,52,10,90,248,0,126,176,208,131,231,52,59,76,147,93,76,32,
   203,76,74,52,177,9,217,14,153,32,42,95,41,70,103,120,209,174,180,73,149,60,93,200,142,233,100,51,
   53,225,214,47,149,38,90,32,253,81,9,8,200,193,69,72,231,194]

def ownInfo : RequestInfo :=
  { client_id := ascii "c", server_id := [], data := ownKey, sign := ownSign }

def ownMsg : Message NetMsgType := ⟨⟨.kSeckeyAgree,435⟩,
  (ascii "\n\x01c" ++ [26,175,1] ++ ownSign ++ [34,251,1] ++ ownKey).reverse⟩

def ownDigest : List UInt8 :=
  ascii "5547b525898c05e76509bfb906603c620fd2f58aaa55e6dc" ++
  ascii "975af5c6aadf0ac46a867ae5d100201f6edcbed195e3b4ce" ++ [0]

/-- The libraries on requests like this one, with a key object shown as the text it was read from.
Encryption pads with random bytes, so one ciphertext stands for all. -/
def sample (parse : List UInt8 → RequestInfo) : Server (List UInt8) where
  libs :=
    { parseFromString := fun wire => (true,parse wire)
      serializeAsString := fun info => [8,12,18,1] ++ info.client_id ++ [26,3] ++ info.server_id ++
        [34,175,1] ++ info.data
      pem_read_bio_RSAPublicKey := some
      rsa_verify := fun key text sign => key.map fun k =>
        if k = ownKey ∧ text = ownDigest ∧ sign = signBytes then 1 else 0
      rsa_public_encrypt := fun key _ => key.map fun _ => (128,ownCipher)
      sha384 := fun text => if text = ownKey then
          [85,71,181,37,137,140,5,231,101,9,191,185,6,96,60,98,15,210,245,138,170,85,230,220,151,90,
           245,198,170,223,10,196,106,134,122,229,209,0,32,31,110,220,190,209,149,227,180,206]
        else
          [133,67,229,132,184,98,217,200,34,181,32,148,74,225,241,20,0,155,109,1,80,62,1,176,251,
           250,184,7,253,205,36,244,166,65,0,60,233,46,244,1,223,214,247,28,50,189,98,137]
      bio_read := Base64Bio.lineBio.readText
      bio_write := Base64Bio.lineBio.writeText }
  tree := ⟨[ascii "srv"],fun loc => decide (loc.length ≤ 2)⟩
  statFails := fun _ => false
  server_id_ := ascii "Num"
  log_dir := rfl

def oneKey : Server (List UInt8) := sample fun _ => ownInfo

def emptyStore : World := { files := fun _ => none }

namespace Server

def undecodable : Server Unit where
  libs :=
    { parseFromString := fun _ => (true,{ client_id := ascii "c", server_id := [], data := []
                                          sign := ascii "!" })
      serializeAsString := fun _ => []
      pem_read_bio_RSAPublicKey := fun _ => none
      rsa_verify := fun _ _ _ => none
      rsa_public_encrypt := fun _ _ => none
      sha384 := fun _ => [56,176,96,167,81,172,150,56,76,217,50,126,177,177,227,106,33,253,183,17,
        20,190,7,67,76,12,199,191,99,246,225,218,39,78,222,191,231,111,101,251,213,26,210,241,72,
        152,185,91]
      bio_read := fun text => (-1,List.replicate text.length 0)
      bio_write := fun _ => [] }
  tree := ⟨[ascii "srv"],fun loc => decide (loc.length ≤ 2)⟩
  statFails := fun _ => false
  server_id_ := ascii "Num"
  log_dir := rfl

def undecodableMsg : Message NetMsgType := ⟨⟨.kSeckeyAgree,6⟩,[33,1,26,99,1,10]⟩

def keyLocation : Location := [ascii "srv",seckeyDir,ascii "c_pubkey.pem"]

def logLocation : Location := [ascii "srv",ascii "log",ascii "server"]

theorem seckeyAgree_atomic_iff_granted :
    oneKey.Atomic keyLocation (oneKey.request ownMsg).data emptyStore
      (oneKey.seckeyAgree ⟨fun _ => 0,fun _ => 0⟩ 0 ownMsg emptyStore) ∧
    ¬ undecodable.Atomic keyLocation (undecodable.request undecodableMsg).data emptyStore
      (undecodable.seckeyAgree ⟨fun _ => 0,fun _ => 0⟩ 0 undecodableMsg emptyStore) := by
  have hlog : oneKey.fileAt logPath = some logLocation := by decide
  have hlog' : undecodable.fileAt logPath = some logLocation := by decide
  have hloc : oneKey.tree.resolve (oneKey.keyName ownMsg) = some keyLocation := by decide +kernel
  have hloc' : undecodable.tree.resolve (undecodable.keyName undecodableMsg) = some keyLocation := by
    decide +kernel
  constructor
  · have hkey : oneKey.libs.pem_read_bio_RSAPublicKey (oneKey.request ownMsg).data = some ownKey :=
      rfl
    have hchecked : oneKey.checked ownMsg (some ownKey) = .ok true := by decide +kernel
    have hencrypt : (encryptPubKey oneKey.libs (some ownKey)
        (getAESRandStr ⟨fun _ => 0,fun _ => 0⟩ kLen16)).isOk = true := by decide +kernel
    have hstat : oneKey.statFails (oneKey.keyName ownMsg) = false := rfl
    rw [seckeyAgree_atomic_iff oneKey ⟨fun _ => 0,fun _ => 0⟩ 0 ownMsg emptyStore hstat hloc hlog,
      hkey]
    right
    right
    unfold Concludes
    rw [hchecked]
    exact hencrypt
  · intro hatomic
    obtain hpresent | hsame | hconcludes :=
      (seckeyAgree_atomic_iff undecodable _ 0 undecodableMsg emptyStore rfl hloc' hlog').mp hatomic
    · exact absurd hpresent (by decide +kernel)
    · exact absurd hsame (by decide)
    · exact hconcludes

/-- The signature that cannot be decoded makes `resize` throw, and the key file stays. -/
theorem seckeyAgree_leavesFile :
    ∃ (sv : Server Unit) (random : Random) (msg : Message NetMsgType) (w : World)
      (loc log : Location), sv.statFails (sv.keyName msg) = false ∧
      sv.tree.resolve (sv.keyName msg) = some loc ∧ sv.fileAt logPath = some log ∧
      (∀ text, (sv.libs.bio_read text).1 = -1) ∧
      ¬ sv.Atomic loc (sv.request msg).data w (sv.seckeyAgree random 0 msg w) := by
  refine ⟨undecodable,⟨fun _ => 0,fun _ => 0⟩,undecodableMsg,⟨fun _ => none,[],[]⟩,keyLocation,
    logLocation,rfl,by decide,by decide,fun _ => rfl,?_⟩
  rw [undecodable.seckeyAgree_thrown rfl (by decide) (e := .length_error) rfl]
  intro hatomic
  have hleft := hatomic keyLocation (by decide)
  revert hleft
  decide

end Server

end TransmissionPlatform.Platform
