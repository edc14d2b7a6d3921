import TransmissionPlatform.Platform.Registration
import Mathlib.Data.List.GetD

/-!
What an accepted request has gone through, and what a request that is turned down has left
behind: the ways out of `SeckeyAgree` put together for one call alone.
-/

set_option autoImplicit false

namespace TransmissionPlatform.Platform
open PosixPath Net Program

def IsKeyChar (b : UInt8) : Prop :=
  (48 ≤ b ∧ b ≤ 57) ∨ (97 ≤ b ∧ b ≤ 122) ∨ (65 ≤ b ∧ b ≤ 90) ∨ b ∈ specialChars

theorem getAESRandStr_length (random : Random) (len : Nat) :
    (getAESRandStr random len).length = len := by
  simp [getAESRandStr]

theorem ofNat_range (lo hi : Nat) {n : Nat} (hhi : hi < UInt8.size) (h : lo ≤ n ∧ n ≤ hi) :
    UInt8.ofNat lo ≤ UInt8.ofNat n ∧ UInt8.ofNat n ≤ UInt8.ofNat hi := by
  have hn : n < UInt8.size := Nat.lt_of_le_of_lt h.2 hhi
  have hlo : lo < UInt8.size := Nat.lt_of_le_of_lt h.1 hn
  simp only [UInt8.le_iff_toNat_le, UInt8.toNat_ofNat_of_lt' hlo, UInt8.toNat_ofNat_of_lt' hn,
    UInt8.toNat_ofNat_of_lt' hhi]
  exact h

theorem getAESRandStr_keyChar (random : Random) (len : Nat) :
    ∀ b ∈ getAESRandStr random len, IsKeyChar b := by
  intro b hb
  obtain ⟨i,-,rfl⟩ := List.mem_map.mp hb
  unfold IsKeyChar
  split
  · have hmod := Nat.mod_lt (random.draw i) (show 0 < 10 by decide)
    exact .inl (ofNat_range 48 57 (by decide) (by omega))
  · have hmod := Nat.mod_lt (random.draw i) (show 0 < 26 by decide)
    exact .inr (.inl (ofNat_range 97 122 (by decide) (by omega)))
  · have hmod := Nat.mod_lt (random.draw i) (show 0 < 26 by decide)
    exact .inr (.inr (.inl (ofNat_range 65 90 (by decide) (by omega))))
  · have hmod := Nat.mod_lt (random.draw i) (show 0 < specialChars.length by decide)
    refine .inr (.inr (.inr ?_))
    rw [List.getD_eq_getElem _ _ hmod]
    exact List.getElem_mem hmod

namespace Server
variable {K : Type} (sv : Server K)

def respondInfo (msg : Message NetMsgType) (aes_seckey : List UInt8) : RespondInfo :=
  { client_id := (sv.request msg).client_id, server_id := sv.server_id_, data := aes_seckey
    seckey_id := 12 }

def agreed (client : Nat) (msg : Message NetMsgType) (aes_seckey : List UInt8) (w : World) : World :=
  { sv.written msg w with
    sent := w.sent ++ [(client,reply (sv.libs.serializeAsString (sv.respondInfo msg aes_seckey)))] }

section Results
variable {sv} {random : Random} {client : Nat} {msg : Message NetMsgType} {w w' : World}

theorem respond_written {aes_seckey : List UInt8}
    (h : encryptPubKey sv.libs (sv.myRSA (sv.keyName msg) (sv.written msg w))
      (getAESRandStr random kLen16) = .ok aes_seckey) :
    sv.respond random client (sv.request msg) (sv.keyName msg) (sv.written msg w) =
      .ok true (sv.agreed client msg aes_seckey w) := by
  rw [sv.respond_ok h, agreed, written, ofstream_sent]
  rfl

theorem seckeyAgree_present_ne (hstat : sv.statFails (sv.keyName msg) = false)
    (hpresent : sv.present (sv.keyName msg) w = true) :
    sv.seckeyAgree random client msg w ≠ .ok true w' := by
  rw [sv.seckeyAgree_present hstat hpresent]
  cases hlog : sv.logWarn "签名校验失败, 已经有同名密钥" w with
  | error e v =>
    rw [bind_error hlog]
    simp
  | ok u v =>
    rw [bind_ok hlog]
    simp [pure, EStateM.pure]

theorem seckeyAgree_badSign_ne (hstat : sv.statFails (sv.keyName msg) = false)
    (habsent : sv.present (sv.keyName msg) w = false)
    (hbad : sv.checked msg (sv.myRSA (sv.keyName msg) (sv.written msg w)) = .ok false) :
    sv.seckeyAgree random client msg w ≠ .ok true w' := by
  rw [sv.seckeyAgree_badSign hstat habsent hbad]
  cases hlog : sv.logWarn "签名校验失败" (sv.written msg w) with
  | error e v =>
    rw [bind_error hlog]
    simp
  | ok u v =>
    rw [bind_ok hlog, bind_ok (modify_run _ _)]
    simp [pure, EStateM.pure]

/-- A request is accepted exactly if its file is new, its signature checks and the AES key
can be encrypted; then it has done this to the world. -/
theorem seckeyAgree_accepted_iff : sv.seckeyAgree random client msg w = .ok true w' ↔
    sv.statFails (sv.keyName msg) = false ∧ sv.present (sv.keyName msg) w = false ∧
    sv.checked msg (sv.myRSA (sv.keyName msg) (sv.written msg w)) = .ok true ∧
    ∃ aes_seckey, encryptPubKey sv.libs (sv.myRSA (sv.keyName msg) (sv.written msg w))
      (getAESRandStr random kLen16) = .ok aes_seckey ∧ w' = sv.agreed client msg aes_seckey w := by
  constructor
  · intro h
    cases hstat : sv.statFails (sv.keyName msg) with
    | true =>
      rw [sv.seckeyAgree_statFails hstat] at h
      cases h
    | false =>
      cases hpresent : sv.present (sv.keyName msg) w with
      | true => exact absurd h (seckeyAgree_present_ne hstat hpresent)
      | false =>
        cases hchecked : sv.checked msg (sv.myRSA (sv.keyName msg) (sv.written msg w)) with
        | error e =>
          rw [sv.seckeyAgree_thrown hstat hpresent hchecked] at h
          cases h
        | ok good =>
          cases good with
          | false => exact absurd h (seckeyAgree_badSign_ne hstat hpresent hchecked)
          | true =>
            rw [sv.seckeyAgree_goodSign hstat hpresent hchecked] at h
            cases hencrypt : encryptPubKey sv.libs
              (sv.myRSA (sv.keyName msg) (sv.written msg w)) (getAESRandStr random kLen16) with
            | error e =>
              rw [sv.respond_error hencrypt] at h
              cases h
            | ok aes_seckey =>
              rw [respond_written hencrypt] at h
              cases h
              exact ⟨rfl,rfl,rfl,aes_seckey,rfl,rfl⟩
  · rintro ⟨hstat,habsent,hgood,aes_seckey,hencrypt,rfl⟩
    rw [sv.seckeyAgree_goodSign hstat habsent hgood, respond_written hencrypt]

def Accepted (sv : Server K) (random : Random) (client : Nat) (msg : Message NetMsgType)
    (w : World) : Prop := ∃ w', sv.seckeyAgree random client msg w = .ok true w'

theorem accepted_iff : sv.Accepted random client msg w ↔
    sv.statFails (sv.keyName msg) = false ∧ sv.present (sv.keyName msg) w = false ∧
    sv.checked msg (sv.myRSA (sv.keyName msg) (sv.written msg w)) = .ok true ∧
    (encryptPubKey sv.libs (sv.myRSA (sv.keyName msg) (sv.written msg w))
      (getAESRandStr random kLen16)).isOk = true := by
  constructor
  · rintro ⟨w',h⟩
    obtain ⟨hstat,habsent,hgood,aes_seckey,hencrypt,-⟩ := seckeyAgree_accepted_iff.mp h
    exact ⟨hstat,habsent,hgood,by rw [hencrypt]; rfl⟩
  · rintro ⟨hstat,habsent,hgood,hencrypt⟩
    cases haes : encryptPubKey sv.libs (sv.myRSA (sv.keyName msg) (sv.written msg w))
      (getAESRandStr random kLen16) with
    | error e =>
      rw [haes] at hencrypt
      cases hencrypt
    | ok aes_seckey =>
      exact ⟨_,seckeyAgree_accepted_iff.mpr ⟨hstat,habsent,hgood,aes_seckey,haes,rfl⟩⟩

instance (sv : Server K) (random : Random) (client : Nat) (msg : Message NetMsgType) (w : World) :
    Decidable (sv.Accepted random client msg w) := decidable_of_iff' _ accepted_iff

def TurnedDown (sv : Server K) (random : Random) (client : Nat) (msg : Message NetMsgType)
    (w : World) : Prop :=
  ∃ w', sv.seckeyAgree random client msg w = .ok false w' ∧ sv.OffLog w w' ∧ w'.sent = w.sent

theorem turnedDown_present (hstat : sv.statFails (sv.keyName msg) = false)
    (hpresent : sv.present (sv.keyName msg) w = true) :
    sv.TurnedDown random client msg w ↔ sv.Loggable w := by
  have hrun : sv.seckeyAgree random client msg w = _ := sv.seckeyAgree_present hstat hpresent
  unfold TurnedDown
  rw [hrun]
  by_cases hloggable : sv.Loggable w
  · obtain ⟨w',hlog,hoff,-,hsent⟩ := logWarn_ok "签名校验失败, 已经有同名密钥" hloggable
    rw [bind_ok hlog]
    exact iff_of_true ⟨w',rfl,hoff,hsent⟩ hloggable
  · obtain ⟨w',hlog,-⟩ := logWarn_error "签名校验失败, 已经有同名密钥" hloggable
    rw [bind_error hlog]
    exact iff_of_false (by simp) hloggable

theorem turnedDown_badSign (hstat : sv.statFails (sv.keyName msg) = false)
    (habsent : sv.present (sv.keyName msg) w = false)
    (hbad : sv.checked msg (sv.myRSA (sv.keyName msg) (sv.written msg w)) = .ok false) :
    sv.TurnedDown random client msg w ↔ sv.Loggable w := by
  unfold TurnedDown
  rw [sv.seckeyAgree_badSign hstat habsent hbad, ← sv.loggable_written msg]
  by_cases hloggable : sv.Loggable (sv.written msg w)
  · obtain ⟨w',hlog,hoff,-,hsent⟩ := logWarn_ok "签名校验失败" hloggable
    rw [bind_ok hlog]
    refine iff_of_true ⟨sv.remove (sv.keyName msg) w',rfl,offLog_removed habsent hoff,?_⟩ hloggable
    rw [remove_sent, hsent]
    exact sv.ofstream_sent _ _ w
  · obtain ⟨w',hlog,-⟩ := logWarn_error "签名校验失败" hloggable
    rw [bind_error hlog]
    exact iff_of_false (by simp) hloggable

theorem turnedDown_iff : sv.TurnedDown random client msg w ↔
    sv.statFails (sv.keyName msg) = false ∧ sv.Loggable w ∧
      (sv.present (sv.keyName msg) w = true ∨
        sv.checked msg (sv.myRSA (sv.keyName msg) (sv.written msg w)) = .ok false) := by
  cases hstat : sv.statFails (sv.keyName msg) with
  | true =>
    rw [TurnedDown, sv.seckeyAgree_statFails hstat]
    simp
  | false =>
    cases hpresent : sv.present (sv.keyName msg) w with
    | true => simp [turnedDown_present hstat hpresent]
    | false =>
      cases hchecked : sv.checked msg (sv.myRSA (sv.keyName msg) (sv.written msg w)) with
      | error e =>
        rw [TurnedDown, sv.seckeyAgree_thrown hstat hpresent hchecked]
        simp
      | ok good =>
        cases good with
        | false => simp [turnedDown_badSign hstat hpresent hchecked]
        | true =>
          rw [TurnedDown, sv.seckeyAgree_goodSign hstat hpresent hchecked]
          cases hencrypt : encryptPubKey sv.libs
            (sv.myRSA (sv.keyName msg) (sv.written msg w)) (getAESRandStr random kLen16) with
          | error e => simp [sv.respond_error hencrypt]
          | ok aes_seckey => simp [respond_written hencrypt]

end Results

/-- What is documented of `RSA_verify`, and that it does not accept under an empty key. -/
structure VerifySpec (libs : Libraries K) : Prop where
  flags : ∀ key datas sign flag, libs.rsa_verify key datas sign = some flag →
    flag = 1 ∨ flag = 0 ∨ flag = -1
  filled : ∀ datas sign, libs.rsa_verify none datas sign ≠ some 1

/-- An agreement with the client: its key file, the signature under the key in that file, and
the reply with the AES key encrypted for it. -/
structure Agreement (parseRespond : List UInt8 → Bool × RespondInfo) (client : Nat)
    (msg : Message NetMsgType) (w w' : World) (loc : Location) (key : K)
    (aes_key aes_seckey : List UInt8) (msg_out : Message NetMsgType) : Prop where
  keyFile : sv.fileAt (sv.keyName msg) = some loc
  absent : w.files loc = none
  files : w'.files = Function.update w.files loc (some (sv.request msg).data)
  parsed : sv.libs.pem_read_bio_RSAPublicKey (sv.request msg).data = some key
  signature : ∃ sign, fromBase64 sv.libs (sv.request msg).sign = .ok sign ∧
    sv.libs.rsa_verify (some key) (hashFinal sv.libs (sv.request msg).data) sign = some 1
  length : aes_key.length = 16
  chars : ∀ b ∈ aes_key, IsKeyChar b
  encrypted : ∃ flag cipher, sv.libs.rsa_public_encrypt (some key) aes_key = some (flag,cipher) ∧
    flag ≠ -1 ∧ toBase64 sv.libs cipher = .ok aes_seckey
  sent : w'.sent = w.sent ++ [(client,msg_out)]
  id : msg_out.header.id = .kSeckeyAgree
  decoded : ∃ net_str, popChars msg_out.size msg_out = some net_str ∧
    parseRespond net_str = (true,{ client_id := (sv.request msg).client_id
                                   server_id := sv.server_id_, data := aes_seckey
                                   seckey_id := 12 })

section Soundness
variable {sv} {random : Random} {client : Nat} {msg : Message NetMsgType} {w w' : World}

theorem verify_accepts {libs : Libraries K} (hverify : VerifySpec libs) {key : Option K}
    {datas sign_datas : List UInt8} (h : verify libs key datas sign_datas = .ok true) :
    ∃ sign, fromBase64 libs sign_datas = .ok sign ∧ libs.rsa_verify key datas sign = some 1 := by
  unfold verify at h
  cases hsign : fromBase64 libs sign_datas with
  | error e =>
    rw [hsign] at h
    cases h
  | ok sign =>
    simp only [hsign, bind, Except.bind] at h
    refine ⟨sign,rfl,?_⟩
    cases hflag : libs.rsa_verify key datas sign with
    | none =>
      rw [hflag] at h
      cases h
    | some flag =>
      rw [hflag] at h
      obtain rfl | rfl | rfl := hverify.flags _ _ _ _ hflag
      · rfl
      · cases h
      · cases h

theorem encryptPubKey_ok {libs : Libraries K} {key : Option K} {datas text : List UInt8}
    (h : encryptPubKey libs key datas = .ok text) :
    ∃ flag cipher, libs.rsa_public_encrypt key datas = some (flag,cipher) ∧ flag ≠ -1 ∧
      toBase64 libs cipher = .ok text := by
  unfold encryptPubKey at h
  split at h
  · cases h
  · rename_i flag cipher hcall
    split at h
    · cases h
    · rename_i hflag
      exact ⟨flag,cipher,hcall,hflag,h⟩

theorem checked_key (hverify : VerifySpec sv.libs)
    (habsent : sv.present (sv.keyName msg) w = false)
    (hgood : sv.checked msg (sv.myRSA (sv.keyName msg) (sv.written msg w)) = .ok true) :
    ∃ loc key, sv.fileAt (sv.keyName msg) = some loc ∧ w.files loc = none ∧
      sv.libs.pem_read_bio_RSAPublicKey (sv.request msg).data = some key ∧
      sv.myRSA (sv.keyName msg) (sv.written msg w) = some key := by
  cases hkey : sv.myRSA (sv.keyName msg) (sv.written msg w) with
  | none =>
    rw [hkey] at hgood
    obtain ⟨sign,-,haccepts⟩ := verify_accepts hverify hgood
    exact absurd haccepts (hverify.filled _ _)
  | some key =>
    cases hloc : sv.tree.resolve (sv.keyName msg) with
    | none => simp [myRSA, hloc] at hkey
    | some loc =>
      obtain ⟨hnone,hfile⟩ := absent_of_resolve hloc habsent
      have hparsed : sv.myRSA (sv.keyName msg) (sv.written msg w) =
          sv.libs.pem_read_bio_RSAPublicKey (sv.request msg).data := myRSA_ofstream hfile _
      exact ⟨loc,key,hfile,hnone,hparsed.symm.trans hkey,rfl⟩

theorem push_body {T : Type} (bs : List UInt8) (msg : Message T) :
    (bs.foldl (fun msg_out c => msg_out.push [c]) msg).body = msg.body ++ bs := by
  induction bs generalizing msg with
  | nil => simp
  | cons b bs ih =>
    rw [List.foldl_cons, ih, Message.push, List.append_assoc]
    rfl

theorem popChars_reply (respond_str : List UInt8) :
    popChars (reply respond_str).size (reply respond_str) = some respond_str := by
  have hbody : (reply respond_str).body = respond_str.reverse := push_body _ _
  have hpop := popChars_eq (reply respond_str).header (reply respond_str).body
  rw [hbody, List.reverse_reverse] at hpop
  rw [Message.size, hbody]
  rw [← hbody] at hpop ⊢
  exact hpop

theorem seckeyAgree_sound (hverify : VerifySpec sv.libs)
    (parseRespond : List UInt8 → Bool × RespondInfo)
    (hparse : ∀ data, parseRespond (sv.libs.serializeAsString (sv.respondInfo msg data)) =
      (true,sv.respondInfo msg data))
    (h : sv.seckeyAgree random client msg w = .ok true w') :
    ∃ loc key aes_key aes_seckey msg_out,
      sv.Agreement parseRespond client msg w w' loc key aes_key aes_seckey msg_out := by
  obtain ⟨-,habsent,hgood,aes_seckey,hencrypt,rfl⟩ := seckeyAgree_accepted_iff.mp h
  obtain ⟨loc,key,hfile,hnone,hparsed,hkey⟩ := checked_key hverify habsent hgood
  rw [hkey] at hgood hencrypt
  have hfiles : (sv.agreed client msg aes_seckey w).files =
      Function.update w.files loc (some (sv.request msg).data) := by
    rw [agreed, written, ofstream_of_fileAt hfile]
  exact ⟨loc,key,getAESRandStr random kLen16,aes_seckey,_,
    { keyFile := hfile
      absent := hnone
      files := hfiles
      parsed := hparsed
      signature := verify_accepts hverify hgood
      length := getAESRandStr_length random kLen16
      chars := getAESRandStr_keyChar random kLen16
      encrypted := encryptPubKey_ok hencrypt
      sent := rfl
      id := reply_id _
      decoded := ⟨_,popChars_reply _,hparse aes_seckey⟩ }⟩

theorem accepted_of_newFile (hverify : VerifySpec sv.libs) {msg' : Message NetMsgType}
    (client' : Nat) (hsign : (sv.request msg').sign = (sv.request msg).sign)
    (hdata : (sv.request msg').data = (sv.request msg).data)
    (hstat : sv.statFails (sv.keyName msg') = false)
    (habsent : sv.present (sv.keyName msg') w = false)
    (hfile : (sv.fileAt (sv.keyName msg')).isSome = true)
    (h : sv.Accepted random client msg w) : sv.Accepted random client' msg' w := by
  obtain ⟨-,hold,hgood,hencrypt⟩ := accepted_iff.mp h
  obtain ⟨-,key,-,-,hparsed,hkey⟩ := checked_key hverify hold hgood
  obtain ⟨loc,hloc⟩ := Option.isSome_iff_exists.mp hfile
  have hkey' : sv.myRSA (sv.keyName msg') (sv.written msg' w) = some key := by
    rw [written, myRSA_ofstream hloc, hdata, hparsed]
  have hgood' : sv.checked msg' (some key) = .ok true := by
    rw [checked, hsign, hdata, ← checked, ← hkey]
    exact hgood
  refine accepted_iff.mpr ⟨hstat,habsent,?_,?_⟩
  · rw [hkey', hgood']
  · rw [hkey', ← hkey, hencrypt]

/-- The signature speaks of the data alone: in the store where a request was accepted, any
request with its signature and its data is accepted as soon as it has a file of its own to
make. That the id of the client is the same is enough; the id of the server is not looked at. -/
theorem seckeyAgree_accepts_iff_newFile (hverify : VerifySpec sv.libs)
    {msg' : Message NetMsgType} (client' : Nat)
    (hsign : (sv.request msg').sign = (sv.request msg).sign)
    (hdata : (sv.request msg').data = (sv.request msg).data)
    (h : sv.Accepted random client msg w) :
    (sv.Accepted random client' msg' w ↔
      sv.statFails (sv.keyName msg') = false ∧ sv.present (sv.keyName msg') w = false ∧
        (sv.fileAt (sv.keyName msg')).isSome = true) ∧
    ((sv.request msg').client_id = (sv.request msg).client_id →
      sv.Accepted random client' msg' w) := by
  have accepts := accepted_of_newFile hverify client' hsign hdata (h := h)
  obtain ⟨hstat,habsent,hgood,-⟩ := accepted_iff.mp h
  obtain ⟨_,_,hfile,-⟩ := checked_key hverify habsent hgood
  refine ⟨⟨?_,fun h' => accepts h'.1 h'.2.1 h'.2.2⟩,?_⟩
  · intro h'
    obtain ⟨hstat',habsent',hgood',-⟩ := accepted_iff.mp h'
    obtain ⟨_,_,hfile',-⟩ := checked_key hverify habsent' hgood'
    exact ⟨hstat',habsent',by rw [hfile']; rfl⟩
  · intro hid
    have hname : sv.keyName msg' = sv.keyName msg := by rw [keyName, hid, ← keyName]
    exact accepts (hname ▸ hstat) (hname ▸ habsent) (by rw [hname, hfile]; rfl)

end Soundness

/-- `ParseFromString` reports failure on the body. -/
def Malformed (msg : Message NetMsgType) : Prop :=
  (sv.libs.parseFromString msg.body.reverse).1 = false

/-- What the parser reports has no part in it: a malformed request is turned down exactly if
the fields that were read would be, and the logger comes back. -/
theorem malformed_turnedDown_iff (random : Random) (client : Nat) (msg : Message NetMsgType)
    (w : World) : (sv.Malformed msg → sv.TurnedDown random client msg w) ↔
      (sv.Malformed msg → sv.statFails (sv.keyName msg) = false ∧ sv.Loggable w ∧
        (sv.present (sv.keyName msg) w = true ∨
          sv.checked msg (sv.myRSA (sv.keyName msg) (sv.written msg w)) = .ok false)) :=
  imp_congr_right fun _ => turnedDown_iff

end Server

theorem verifySpec_sample (parse : List UInt8 → RequestInfo) :
    Server.VerifySpec (sample parse).libs := by
  constructor
  · intro key datas sign flag h
    obtain ⟨k,-,rfl⟩ := Option.map_eq_some_iff.mp h
    split
    · exact .inl rfl
    · exact .inr (.inl rfl)
  · intro datas sign h
    cases h

theorem oneKey_accepts : oneKey.Accepted ownRequest.random 0 ownRequest.msg emptyStore := by
  decide +kernel

def parseReply (wire : List UInt8) : Bool × RespondInfo :=
  (true,{ client_id := ascii "c", server_id := ascii "Num", data := wire.drop 13, seckey_id := 12 })

theorem seckeyAgree_sound_own : ∃ w' loc msg_out,
    oneKey.seckeyAgree ownRequest.random 0 ownRequest.msg emptyStore = .ok true w' ∧
    w'.files = Function.update emptyStore.files loc (some ownKey) ∧ w'.sent = [(0,msg_out)] := by
  obtain ⟨w',hrun⟩ := oneKey_accepts
  have hparse : ∀ data, parseReply (oneKey.libs.serializeAsString
      (oneKey.respondInfo ownRequest.msg data)) = (true,oneKey.respondInfo ownRequest.msg data) :=
    fun _ => rfl
  obtain ⟨loc,key,aes_key,aes_seckey,msg_out,hagreed⟩ :=
    Server.seckeyAgree_sound (verifySpec_sample _) parseReply hparse hrun
  exact ⟨w',loc,msg_out,hrun,hagreed.files,hagreed.sent⟩

/-- The request with another id of the client, or with an id of the server. -/
def relabelled (client_id : UInt8) (server_id : List UInt8) : Message NetMsgType :=
  let body := ([10,1,client_id] ++ server_id ++ [26,175,1] ++ ownSign ++ [34,251,1] ++
    ownKey).reverse
  ⟨⟨.kSeckeyAgree,UInt32.ofNat body.length⟩,body⟩

def labelled : Server (List UInt8) :=
  sample fun wire => { ownInfo with client_id := [wire.getD 2 0]
                                    server_id := if wire.getD 3 0 = 18 then [wire.getD 5 0] else [] }

theorem relabelled_wire (client_id : UInt8) (server_id : List UInt8) :
    (relabelled client_id server_id).body.reverse =
      10 :: 1 :: client_id :: (server_id ++ [26,175,1] ++ ownSign ++ [34,251,1] ++ ownKey) :=
  List.reverse_reverse _

theorem labelled_clientId (client_id : UInt8) (server_id : List UInt8) :
    (labelled.request (relabelled client_id server_id)).client_id = [client_id] := by
  rw [Server.request, relabelled_wire]
  rfl

theorem labelled_sign (msg : Message NetMsgType) : (labelled.request msg).sign = ownSign := rfl

theorem labelled_data (msg : Message NetMsgType) : (labelled.request msg).data = ownKey := rfl

theorem labelled_accepts :
    labelled.Accepted ownRequest.random 0 (relabelled 99 []) emptyStore := by
  decide +kernel

theorem seckeyAgree_accepts_iff_newFile_server :
    labelled.Accepted ownRequest.random 1 (relabelled 99 [18,1,88]) emptyStore := by
  have hsign := labelled_sign (relabelled 99 [18,1,88])
  have hdata := labelled_data (relabelled 99 [18,1,88])
  have hid := (labelled_clientId 99 [18,1,88]).trans (labelled_clientId 99 []).symm
  exact (Server.seckeyAgree_accepts_iff_newFile (verifySpec_sample _) 1 hsign hdata
    labelled_accepts).2 hid

/-- The signature of one request serves for another client, and for another server. -/
theorem seckeyAgree_accepts_relabelled :
    ∃ (sv : Server (List UInt8)) (random : Random) (w : World)
      (msg msg₁ msg₂ : Message NetMsgType),
      (sv.Accepted random 0 msg w ∧ sv.Accepted random 0 msg₁ w ∧ sv.Accepted random 0 msg₂ w) ∧
      ((sv.request msg₁).sign = (sv.request msg).sign ∧
        (sv.request msg₁).data = (sv.request msg).data ∧
        (sv.request msg₁).client_id ≠ (sv.request msg).client_id) ∧
      (sv.request msg₂).sign = (sv.request msg).sign ∧
      (sv.request msg₂).data = (sv.request msg).data ∧
      (sv.request msg₂).client_id = (sv.request msg).client_id ∧
      (sv.request msg₂).server_id ≠ (sv.request msg).server_id := by
  have hsign : ∀ msg msg', (labelled.request msg').sign = (labelled.request msg).sign :=
    fun _ _ => rfl
  have hdata : ∀ msg msg', (labelled.request msg').data = (labelled.request msg).data :=
    fun _ _ => rfl
  have accepts : ∀ c s, labelled.present (pubkeyFileName [c]) emptyStore = false →
      (labelled.fileAt (pubkeyFileName [c])).isSome = true →
      labelled.Accepted ownRequest.random 0 (relabelled c s) emptyStore := by
    intro c s habsent hfile
    have hname : labelled.keyName (relabelled c s) = pubkeyFileName [c] := by
      rw [Server.keyName, labelled_clientId]
    rw [← hname] at habsent hfile
    exact Server.accepted_of_newFile (verifySpec_sample _) 0 (hsign _ _) (hdata _ _) rfl
      habsent hfile labelled_accepts
  refine ⟨labelled,ownRequest.random,emptyStore,relabelled 99 [],relabelled 100 [],
    relabelled 99 [18,1,88],
    ⟨labelled_accepts,accepts 100 [] (by decide) (by decide),
      accepts 99 [18,1,88] (by decide) (by decide)⟩,
    ⟨hsign _ _,hdata _ _,?_⟩,hsign _ _,hdata _ _,?_,?_⟩
  · rw [labelled_clientId, labelled_clientId]
    decide
  · rw [labelled_clientId, labelled_clientId]
  · have hlabel : (labelled.request (relabelled 99 [18,1,88])).server_id = [88] := by
      rw [Server.request, relabelled_wire]
      rfl
    have hnone : (labelled.request (relabelled 99 [])).server_id = [] := by
      rw [Server.request, relabelled_wire]
      rfl
    rw [hlabel, hnone]
    decide

/-- A parser that meets a tag without a value behind the four fields: it fails, and has read
them. -/
def truncated : Server (List UInt8) :=
  oneKey.withLibs { oneKey.libs with parseFromString := fun wire =>
                                       (wire.getLast? ≠ some 40,ownInfo) }

def truncatedMsg : Message NetMsgType := ⟨⟨.kSeckeyAgree,436⟩,40 :: ownRequest.body⟩

theorem malformed_accepted :
    ∃ (sv : Server (List UInt8)) (random : Random) (msg : Message NetMsgType) (w : World),
      sv.Malformed msg ∧ sv.Loggable w ∧ ¬ sv.TurnedDown random 0 msg w ∧
      sv.Accepted random 0 msg w := by
  have haccepted : truncated.Accepted ownRequest.random 0 truncatedMsg emptyStore := by
    decide +kernel
  refine ⟨truncated,ownRequest.random,truncatedMsg,emptyStore,?_,by decide,?_,haccepted⟩
  · unfold Server.Malformed
    decide +kernel
  · obtain ⟨w',hrun⟩ := haccepted
    rintro ⟨w'',hrun',-⟩
    rw [hrun] at hrun'
    cases hrun'

end TransmissionPlatform.Platform
