import TransmissionPlatform.Platform.SeckeyAgree

/-!
`SeckeyAgree` with a record of its RSA calls and of the key objects they are made on. The
constructor of `MyRSA` keeps to itself that it has not loaded a key.
-/

set_option autoImplicit false

namespace TransmissionPlatform.Platform
open PosixPath Net Program

/-- A call on a key object, which is `none` as long as nothing was read into it. `load` shows
the object after `PEM_read_bio_RSAPublicKey`. -/
inductive RsaCall (K : Type) where
  | load (key : Option K)
  | verify (key : Option K)
  | size (key : Option K)
  | publicEncrypt (key : Option K)

namespace RsaCall
variable {K : Type}

def key : RsaCall K → Option K
  | load key | verify key | size key | publicEncrypt key => key

def isOperation : RsaCall K → Bool
  | load _ => false
  | _ => true

end RsaCall

abbrev Recorded (K : Type) := EStateM Failure (World × List (RsaCall K))

def verifyImpl {K : Type} (libs : Libraries K) (pub_key : Option K)
    (datas sign_datas : List UInt8) : Except Failure Bool :=
  match libs.rsa_verify pub_key datas sign_datas with
  | none => throw .undefined
  | some flag => if flag = -1 then throw .runtime_error else pure (flag ≠ 0)

theorem verify_eq {K : Type} (libs : Libraries K) (pub_key : Option K)
    (datas sign_datas : List UInt8) : verify libs pub_key datas sign_datas =
      fromBase64 libs sign_datas >>= verifyImpl libs pub_key datas := rfl

namespace Server
variable {K : Type} (sv : Server K)

def recordedMyRSA (path : List UInt8) : Recorded K (Option K) := do
  let rsa := sv.myRSA path (← get).1
  record (.load rsa)
  return rsa

def recordedCheckSign (pubkey_file_name data sign_data : List UInt8) : Recorded K Bool := do
  let rsa ← sv.recordedMyRSA pubkey_file_name
  let sign ← lift (MonadExcept.ofExcept (fromBase64 sv.libs sign_data))
  record (.verify rsa)
  lift (MonadExcept.ofExcept (verifyImpl sv.libs rsa data sign))

def recordedRespond (random : Random) (client : Nat) (request_info : RequestInfo)
    (client_id_pubkey_file_name : List UInt8) : Recorded K Bool := do
  let aes_key := getAESRandStr random kLen16
  let rsa ← sv.recordedMyRSA client_id_pubkey_file_name
  record (.size rsa)
  record (.publicEncrypt rsa)
  let aes_seckey ← lift (MonadExcept.ofExcept (encryptPubKey sv.libs rsa aes_key))
  let respond_info : RespondInfo :=
    { client_id := request_info.client_id, server_id := sv.server_id_, data := aes_seckey
      seckey_id := 12 }
  lift (send client (reply (sv.libs.serializeAsString respond_info)))
  return true

def recordedSeckeyAgree (random : Random) (client : Nat) (msg : Message NetMsgType) :
    Recorded K Bool := do
  let (request_info,client_id_pubkey_file_name) ← lift (MonadExcept.ofExcept (sv.parseMsgImpl msg))
  if ← lift (sv.exists_ client_id_pubkey_file_name) then
    lift (sv.logWarn "签名校验失败, 已经有同名密钥")
    return false
  lift (modify (sv.ofstream client_id_pubkey_file_name request_info.data))
  let h := hashFinal sv.libs request_info.data
  if !(← sv.recordedCheckSign client_id_pubkey_file_name h request_info.sign) then
    lift (sv.logWarn "签名校验失败")
    lift (modify (sv.remove client_id_pubkey_file_name))
    return false
  sv.recordedRespond random client request_info client_id_pubkey_file_name

def checkCalls (msg : Message NetMsgType) (key : Option K) : List (RsaCall K) :=
  .load key :: if (fromBase64 sv.libs (sv.request msg).sign).isOk then [.verify key] else []

def respondCalls (key : Option K) : List (RsaCall K) := [.load key,.size key,.publicEncrypt key]

def rsaCalls (msg : Message NetMsgType) (w : World) : List (RsaCall K) :=
  if sv.statFails (sv.keyName msg) || sv.present (sv.keyName msg) w then []
  else
    let key := sv.myRSA (sv.keyName msg) (sv.written msg w)
    sv.checkCalls msg key ++ if sv.checked msg key = .ok true then respondCalls key else []

section Runs
variable {sv} {random : Random} {client : Nat} {msg : Message NetMsgType} {w : World}
  {l : List (RsaCall K)}

theorem recordedCheckSign_run (sv : Server K) (msg : Message NetMsgType) (w : World) (l : List (RsaCall K)) :
    sv.recordedCheckSign (sv.keyName msg) (hashFinal sv.libs (sv.request msg).data)
      (sv.request msg).sign (w,l) =
      withRecord ((MonadExcept.ofExcept (sv.checked msg (sv.myRSA (sv.keyName msg) w)) :
        Action Bool) w) (l ++ sv.checkCalls msg (sv.myRSA (sv.keyName msg) w)) := by
  have hload : sv.recordedMyRSA (sv.keyName msg) (w,l) =
      .ok (sv.myRSA (sv.keyName msg) w) (w,l ++ [.load (sv.myRSA (sv.keyName msg) w)]) := rfl
  refine (bind_ok hload).trans ?_
  rw [checked, verify_eq, checkCalls]
  cases hsign : fromBase64 sv.libs (sv.request msg).sign with
  | error e => rfl
  | ok sign =>
    refine (bind_ok (lift_ok (ofExcept_ok_run sign w))).trans ?_
    refine (bind_ok (record_run _ w)).trans ?_
    rw [List.append_assoc]
    rfl

theorem recordedRespond_run (info : RequestInfo) (name : List UInt8) (w : World)
    (l : List (RsaCall K)) : sv.recordedRespond random client info name (w,l) =
      withRecord (sv.respond random client info name w)
        (l ++ respondCalls (sv.myRSA name w)) := by
  have hload : sv.recordedMyRSA name (w,l) =
      .ok (sv.myRSA name w) (w,l ++ [.load (sv.myRSA name w)]) := rfl
  refine (bind_ok hload).trans ?_
  refine (bind_ok (record_run _ w)).trans ?_
  refine (bind_ok (record_run _ w)).trans ?_
  simp only [List.append_assoc, List.singleton_append]
  cases hencrypt : encryptPubKey sv.libs (sv.myRSA name w) (getAESRandStr random kLen16) with
  | error e =>
    rw [sv.respond_error hencrypt]
    rfl
  | ok aes_seckey =>
    rw [sv.respond_ok hencrypt]
    rfl

theorem rsaCalls_early (h : (sv.statFails (sv.keyName msg) || sv.present (sv.keyName msg) w) = true) :
    sv.rsaCalls msg w = [] := if_pos h

theorem rsaCalls_rejected (hstat : sv.statFails (sv.keyName msg) = false)
    (habsent : sv.present (sv.keyName msg) w = false)
    (h : sv.checked msg (sv.myRSA (sv.keyName msg) (sv.written msg w)) ≠ .ok true) :
    sv.rsaCalls msg w = sv.checkCalls msg (sv.myRSA (sv.keyName msg) (sv.written msg w)) := by
  simp [rsaCalls, hstat, habsent, h]

theorem rsaCalls_goodSign (hstat : sv.statFails (sv.keyName msg) = false)
    (habsent : sv.present (sv.keyName msg) w = false)
    (h : sv.checked msg (sv.myRSA (sv.keyName msg) (sv.written msg w)) = .ok true) :
    sv.rsaCalls msg w = sv.checkCalls msg (sv.myRSA (sv.keyName msg) (sv.written msg w)) ++
      respondCalls (sv.myRSA (sv.keyName msg) (sv.written msg w)) := by
  simp [rsaCalls, hstat, habsent, h]

/-- With its record the function does what it does without, and the record shows these
calls. -/
theorem recordedSeckeyAgree_run (sv : Server K) (random : Random) (client : Nat)
    (msg : Message NetMsgType) (w : World) (l : List (RsaCall K)) :
    sv.recordedSeckeyAgree random client msg (w,l) =
      withRecord (sv.seckeyAgree random client msg w) (l ++ sv.rsaCalls msg w) := by
  have hparse : (lift (MonadExcept.ofExcept (sv.parseMsgImpl msg)) :
      Recorded K (RequestInfo × List UInt8)) (w,l) = .ok (sv.request msg,sv.keyName msg) (w,l) := by
    rw [parseMsgImpl_eq]
    rfl
  refine (bind_ok hparse).trans ?_
  cases hstat : sv.statFails (sv.keyName msg) with
  | true =>
    rw [sv.seckeyAgree_statFails hstat, rsaCalls_early (by rw [hstat]; rfl), List.append_nil]
    exact bind_error (lift_error (exists_error hstat))
  | false =>
    have hexists := lift_ok (l := l) (exists_ok (w := w) hstat)
    refine (bind_ok hexists).trans ?_
    cases hpresent : sv.present (sv.keyName msg) w with
    | true =>
      have hearly : sv.rsaCalls msg w = [] := rsaCalls_early (by rw [hpresent, Bool.or_true])
      rw [sv.seckeyAgree_present hstat hpresent, hearly, List.append_nil]
      exact lift_bind (sv.logWarn "签名校验失败, 已经有同名密钥") (fun _ => pure false) w
    | false =>
      refine (bind_ok (lift_ok (modify_run _ w))).trans ?_
      have hcheck := sv.recordedCheckSign_run msg (sv.written msg w) l
      cases hchecked : sv.checked msg (sv.myRSA (sv.keyName msg) (sv.written msg w)) with
      | error e =>
        rw [hchecked] at hcheck
        rw [sv.seckeyAgree_thrown hstat hpresent hchecked,
          rsaCalls_rejected hstat hpresent (by simp [hchecked])]
        exact bind_error hcheck
      | ok good =>
        rw [hchecked] at hcheck
        refine (bind_ok hcheck).trans ?_
        cases good with
        | false =>
          rw [sv.seckeyAgree_badSign hstat hpresent hchecked,
            rsaCalls_rejected hstat hpresent (by simp [hchecked])]
          refine Eq.trans ?_ (lift_bind (sv.logWarn "签名校验失败")
            (fun _ => do modify (sv.remove (sv.keyName msg)); return false) _)
          rfl
        | true =>
          rw [sv.seckeyAgree_goodSign hstat hpresent hchecked,
            rsaCalls_goodSign hstat hpresent hchecked, ← List.append_assoc]
          exact recordedRespond_run _ _ _ _

theorem key_of_mem_rsaCalls (hstat : sv.statFails (sv.keyName msg) = false)
    (habsent : sv.present (sv.keyName msg) w = false) :
    ∀ call ∈ sv.rsaCalls msg w, call.key = sv.myRSA (sv.keyName msg) (sv.written msg w) := by
  have check : ∀ key, ∀ call ∈ sv.checkCalls msg key, call.key = key := by
    intro key call hcall
    unfold checkCalls at hcall
    obtain rfl | hcall := List.mem_cons.mp hcall
    · rfl
    · split at hcall
      · rw [List.mem_singleton.mp hcall]
        rfl
      · cases hcall
  have respond : ∀ key : Option K, ∀ call ∈ respondCalls key, call.key = key := by
    intro key call hcall
    simp only [respondCalls, List.mem_cons, List.not_mem_nil, or_false] at hcall
    obtain rfl | rfl | rfl := hcall <;> rfl
  by_cases hgood : sv.checked msg (sv.myRSA (sv.keyName msg) (sv.written msg w)) = .ok true
  · rw [rsaCalls_goodSign hstat habsent hgood]
    intro call hcall
    exact (List.mem_append.mp hcall).elim (check _ call) (respond _ call)
  · rw [rsaCalls_rejected hstat habsent hgood]
    exact check _

theorem checkCalls_subset (hstat : sv.statFails (sv.keyName msg) = false)
    (habsent : sv.present (sv.keyName msg) w = false) :
    ∀ call ∈ sv.checkCalls msg (sv.myRSA (sv.keyName msg) (sv.written msg w)),
      call ∈ sv.rsaCalls msg w := by
  intro call hcall
  by_cases hgood : sv.checked msg (sv.myRSA (sv.keyName msg) (sv.written msg w)) = .ok true
  · rw [rsaCalls_goodSign hstat habsent hgood]
    exact List.mem_append_left _ hcall
  · rwa [rsaCalls_rejected hstat habsent hgood]

end Runs

/-- Every operation has a key that was loaded, and a load that fails ends in false before any
operation. -/
def LoadedKeys (r : EStateM.Result Failure (World × List (RsaCall K)) Bool) : Prop :=
  (∀ call ∈ (final r).2, call.isOperation = true → call.key.isSome = true) ∧
  ∀ call ∈ (final r).2, call.isOperation = false → call.key = none →
    returned r = some false ∧ ∀ other ∈ (final r).2, other.isOperation = false

section LoadedKeys
variable {sv} {random : Random} {client : Nat} {msg : Message NetMsgType} {w : World}

theorem loadedKeys_run : LoadedKeys (sv.recordedSeckeyAgree random client msg (w,[])) ↔
    (∀ call ∈ sv.rsaCalls msg w, call.isOperation = true → call.key.isSome = true) ∧
    ∀ call ∈ sv.rsaCalls msg w, call.isOperation = false → call.key = none →
      returned (sv.seckeyAgree random client msg w) = some false ∧
        ∀ other ∈ sv.rsaCalls msg w, other.isOperation = false := by
  unfold LoadedKeys
  rw [recordedSeckeyAgree_run, final_withRecord, returned_withRecord, List.nil_append]

theorem loadedKeys_early
    (h : (sv.statFails (sv.keyName msg) || sv.present (sv.keyName msg) w) = true) :
    LoadedKeys (sv.recordedSeckeyAgree random client msg (w,[])) := by
  rw [loadedKeys_run, rsaCalls_early h]
  simp

theorem loadedKeys_of_key (hstat : sv.statFails (sv.keyName msg) = false)
    (habsent : sv.present (sv.keyName msg) w = false)
    (hkey : (sv.myRSA (sv.keyName msg) (sv.written msg w)).isSome = true) :
    LoadedKeys (sv.recordedSeckeyAgree random client msg (w,[])) := by
  have hsame := key_of_mem_rsaCalls hstat habsent
  refine loadedKeys_run.mpr ⟨fun call hcall _ => by rw [hsame call hcall, hkey],?_⟩
  intro call hcall _ hnone
  rw [← hsame call hcall, hnone] at hkey
  cases hkey

theorem not_loadedKeys_of_empty (hstat : sv.statFails (sv.keyName msg) = false)
    (habsent : sv.present (sv.keyName msg) w = false)
    (hkey : sv.myRSA (sv.keyName msg) (sv.written msg w) = none) :
    ¬ LoadedKeys (sv.recordedSeckeyAgree random client msg (w,[])) := by
  intro hloaded
  have hcheck := checkCalls_subset hstat habsent
  rw [hkey] at hcheck
  obtain ⟨hfalse,hnoOp⟩ :=
    (loadedKeys_run.mp hloaded).2 (.load none) (hcheck _ List.mem_cons_self) rfl rfl
  cases hsign : fromBase64 sv.libs (sv.request msg).sign with
  | error e =>
    have hthrown : sv.checked msg (sv.myRSA (sv.keyName msg) (sv.written msg w)) = .error e := by
      rw [checked, verify_eq, hsign]
      rfl
    rw [sv.seckeyAgree_thrown hstat habsent hthrown] at hfalse
    cases hfalse
  | ok sign =>
    have hverify : RsaCall.verify none ∈ sv.checkCalls msg none := by
      simp [checkCalls, hsign, Except.isOk, Except.toBool]
    have hop := hnoOp _ (hcheck _ hverify)
    cases hop

theorem newKey_isSome_iff (habsent : sv.present (sv.keyName msg) w = false) :
    (sv.myRSA (sv.keyName msg) (sv.written msg w)).isSome = true ↔
      (sv.fileAt (sv.keyName msg)).isSome = true ∧
        (sv.libs.pem_read_bio_RSAPublicKey (sv.request msg).data).isSome = true := by
  cases hloc : sv.tree.resolve (sv.keyName msg) with
  | none => simp [myRSA, fileAt, hloc]
  | some loc =>
    obtain ⟨-,hfile⟩ := absent_of_resolve hloc habsent
    rw [written, myRSA_ofstream hfile, hfile]
    simp

end LoadedKeys

/-- A key file that is new in the request has to hold a public key: where it does not, the
empty object goes on to the check of the signature. -/
theorem loadedKeys_iff_pem (random : Random) (client : Nat) (msg : Message NetMsgType)
    (w : World) : LoadedKeys (sv.recordedSeckeyAgree random client msg (w,[])) ↔
      sv.statFails (sv.keyName msg) = true ∨ sv.present (sv.keyName msg) w = true ∨
        ((sv.fileAt (sv.keyName msg)).isSome = true ∧
          (sv.libs.pem_read_bio_RSAPublicKey (sv.request msg).data).isSome = true) := by
  cases hstat : sv.statFails (sv.keyName msg) with
  | true => exact iff_of_true (loadedKeys_early (by rw [hstat]; rfl)) (.inl rfl)
  | false =>
    cases hpresent : sv.present (sv.keyName msg) w with
    | true =>
      exact iff_of_true (loadedKeys_early (by rw [hpresent, Bool.or_true])) (.inr (.inl rfl))
    | false =>
      simp only [Bool.false_eq_true, false_or, ← newKey_isSome_iff hpresent]
      cases hkey : sv.myRSA (sv.keyName msg) (sv.written msg w) with
      | none => exact iff_of_false (not_loadedKeys_of_empty hstat hpresent hkey) (by simp)
      | some key =>
        exact iff_of_true (loadedKeys_of_key hstat hpresent (by rw [hkey]; rfl)) rfl

def notPem : Server Unit :=
  undecodable.withLibs { undecodable.libs with
    parseFromString := fun _ => (true,{ client_id := ascii "c", server_id := [], data := []
                                        sign := ascii "AAAA\n" })
    bio_read := fun text => (3,List.replicate text.length 0) }

def notPemMsg : Message NetMsgType :=
  ⟨⟨.kSeckeyAgree,10⟩,[10,65,65,65,65,5,26,99,1,10]⟩

theorem loadedKeys_notPem :
    ∃ (sv : Server Unit) (random : Random) (msg : Message NetMsgType) (w : World),
      RsaCall.verify none ∈ (final (sv.recordedSeckeyAgree random 0 msg (w,[]))).2 ∧
      ¬ LoadedKeys (sv.recordedSeckeyAgree random 0 msg (w,[])) := by
  have hcall : RsaCall.verify none ∈ (final (notPem.recordedSeckeyAgree ⟨fun _ => 0,fun _ => 0⟩ 0
      notPemMsg (⟨fun _ => none,[],[]⟩,[]))).2 := by
    rw [recordedSeckeyAgree_run, final_withRecord]
    exact List.mem_cons_of_mem _ List.mem_cons_self
  refine ⟨notPem,_,notPemMsg,_,hcall,?_⟩
  rintro ⟨hops,-⟩
  have hsome := hops _ hcall rfl
  cases hsome

end Server

end TransmissionPlatform.Platform
