import TransmissionPlatform.Platform.Base64

/-!
The operations of `mine_rsa.hpp` for an object with both keys. Each allocates a buffer of
`RSA_size` bytes and looks at the number that OpenSSL returns in its own way.
-/

set_option autoImplicit false

namespace TransmissionPlatform.Platform
open Net

inductive SignType where
  | kSHA256Type | kSHA384Type | kSHA512Type
  deriving DecidableEq, Repr

/-- What a call of `RSA_sign` returns, and what it leaves in `*siglen` and in the buffer of
`RSA_size` bytes. A length that is not set is `none`. -/
structure Signed where
  flag : Int
  siglen : Option Nat
  sigret : List UInt8

/-- The functions that the platform itself does not call. `P` is what a private key file
parses to. -/
structure RsaLibraries (K P : Type) extends Libraries K where
  rsa_verify_sha256 : Option K → List UInt8 → List UInt8 → Option Int
  rsa_verify_sha512 : Option K → List UInt8 → List UInt8 → Option Int
  /-- `RSA_private_decrypt` with PKCS1 padding: its result, and the buffer of `RSA_size` bytes. -/
  rsa_private_decrypt : Option P → List UInt8 → Option (Int × List UInt8)
  rsa_sign : SignType → Option P → List UInt8 → Option Signed

structure MyRSA (K P : Type) where
  pub_key : Option K
  pri_key : Option P
  only_pubkey_ : Bool := false

namespace MyRSA
variable {K P : Type} (libs : RsaLibraries K P) (rsa : MyRSA K P)

def encryptPubKey (datas : List UInt8) (to_base64 : Bool) : Except Failure (List UInt8) :=
  match libs.rsa_public_encrypt rsa.pub_key datas with
  | none => throw .undefined
  | some (flag, result) =>
    if flag = -1 then throw .runtime_error
    else if to_base64 then toBase64 libs.toLibraries result
    else pure result

/-- `DecryptPriKey`. The result is the buffer as it was allocated. -/
def decryptPriKey (datas : List UInt8) (from_base64 : Bool) : Except Failure (List UInt8) :=
  if rsa.only_pubkey_ then throw .runtime_error
  else do
    let temp ← (if from_base64 then fromBase64 libs.toLibraries datas else pure datas)
    match libs.rsa_private_decrypt rsa.pri_key temp with
    | none => throw .undefined
    | some (flag, result) => if flag = -1 then throw .runtime_error else pure result

def sign (datas : List UInt8) (type : SignType) (to_base64 : Bool) :
    Except Failure (List UInt8) :=
  if rsa.only_pubkey_ then throw .runtime_error
  else
    match libs.rsa_sign type rsa.pri_key datas with
    | none => throw .undefined
    | some signed =>
      if signed.flag = -1 then throw .runtime_error
      else
        -- `out_len` starts as 0
        let result := Io.resize (signed.siglen.getD 0) signed.sigret
        if to_base64 then toBase64 libs.toLibraries result else pure result

/-- `RSA_verify` with the digest of the type. -/
def rsaVerify (type : SignType) (datas sign_datas : List UInt8) : Option Int :=
  match type with
  | .kSHA256Type => libs.rsa_verify_sha256 rsa.pub_key datas sign_datas
  | .kSHA384Type => libs.rsa_verify rsa.pub_key datas sign_datas
  | .kSHA512Type => libs.rsa_verify_sha512 rsa.pub_key datas sign_datas

def verifyImpl (datas sign_datas : List UInt8) (type : SignType) : Except Failure Bool :=
  match rsa.rsaVerify libs type datas sign_datas with
  | none => throw .undefined
  | some flag => if flag = -1 then throw .runtime_error else pure (flag ≠ 0)

def verify (datas sign_datas : List UInt8) (type : SignType) (from_base64 : Bool) :
    Except Failure Bool := do
  if from_base64 then
    rsa.verifyImpl libs datas (← fromBase64 libs.toLibraries sign_datas) type
  else rsa.verifyImpl libs datas sign_datas type

theorem verify_sha384 (datas sign_datas : List UInt8) :
    rsa.verify libs datas sign_datas .kSHA384Type true =
      Platform.verify libs.toLibraries rsa.pub_key datas sign_datas := rfl

theorem encryptPubKey_base64 (datas : List UInt8) :
    rsa.encryptPubKey libs datas true =
      Platform.encryptPubKey libs.toLibraries rsa.pub_key datas := rfl

/-- OpenSSL on a plaintext and a pair of keys of `n` bytes: the ciphertext fills its buffer,
and decrypting it leaves the plaintext at the start of another. -/
structure Decrypts (n : Nat) (plain cipher buffer : List UInt8) : Prop where
  encrypted : libs.rsa_public_encrypt rsa.pub_key plain = some ((n : Int),cipher)
  full : cipher.length = n
  decrypted : libs.rsa_private_decrypt rsa.pri_key cipher = some ((plain.length : Int),buffer)
  start : plain <+: buffer
  allocated : buffer.length = n

def Base64Keeps (n : Nat) : Prop :=
  ∀ s : List UInt8, s.length = n →
    (toBase64 libs.toLibraries s >>= fromBase64 libs.toLibraries) = .ok s

theorem base64Keeps_of_fits {libs : RsaLibraries K P} {bio : Base64Bio} (hbio : bio.Spec)
    (hlibs : libs.toLibraries = libs.toLibraries.ofBio bio) {n : Nat} (hn : n < 2 ^ 31)
    (hfits : Base64Bio.Fits n) : Base64Keeps libs n := by
  rintro s rfl
  rw [hlibs, toBase64_ofBio, funext (fromBase64_ofBio libs.toLibraries bio)]
  exact (Base64Bio.roundTrips_iff hbio hn).mpr hfits

section Decryption
variable {libs} {rsa} {n : Nat} {plain cipher buffer : List UInt8}

theorem natCast_ne_neg_one (k : Nat) : (k : Int) ≠ -1 := by omega

theorem encryptPubKey_of_decrypts (h : rsa.Decrypts libs n plain cipher buffer)
    (to_base64 : Bool) :
    rsa.encryptPubKey libs plain to_base64 =
      if to_base64 then toBase64 libs.toLibraries cipher else .ok cipher := by
  simp only [encryptPubKey, h.encrypted, natCast_ne_neg_one, if_false]
  rfl

theorem decryptPriKey_of_decrypts (h : rsa.Decrypts libs n plain cipher buffer)
    {from_base64 : Bool} {datas : List UInt8}
    (hdatas : (if from_base64 then fromBase64 libs.toLibraries datas else .ok datas) = .ok cipher) :
    rsa.decryptPriKey libs datas from_base64 =
      if rsa.only_pubkey_ then .error .runtime_error else .ok buffer := by
  have htemp : (if from_base64 then fromBase64 libs.toLibraries datas else pure datas) =
      (.ok cipher : Except Failure (List UInt8)) := hdatas
  unfold decryptPriKey
  cases rsa.only_pubkey_ with
  | true => rfl
  | false =>
    simp only [Bool.false_eq_true, if_false, htemp, bind, Except.bind, h.decrypted,
      natCast_ne_neg_one]
    rfl

/-- What comes back is the whole buffer, whatever length OpenSSL returned. -/
theorem decryptPriKey_encryptPubKey (h : rsa.Decrypts libs n plain cipher buffer)
    {to_base64 : Bool} (hbase64 : to_base64 = true → Base64Keeps libs n) :
    (rsa.encryptPubKey libs plain to_base64 >>= (rsa.decryptPriKey libs · to_base64)) =
      if rsa.only_pubkey_ then .error .runtime_error else .ok buffer := by
  rw [encryptPubKey_of_decrypts h]
  cases to_base64 with
  | false => exact decryptPriKey_of_decrypts h rfl
  | true =>
    have hkept := hbase64 rfl cipher h.full
    cases hto : toBase64 libs.toLibraries cipher with
    | error e =>
      rw [hto] at hkept
      cases hkept
    | ok text =>
      rw [hto] at hkept
      exact decryptPriKey_of_decrypts h hkept

end Decryption

/-- Decryption never undoes encryption: a plaintext has at least 11 bytes less than the key,
and what comes back has as many as the key. -/
theorem decryptPriKey_encryptPubKey_ne {n : Nat} {plain cipher buffer : List UInt8}
    (hlen : plain.length + 11 ≤ n) (h : rsa.Decrypts libs n plain cipher buffer)
    (to_base64 : Bool) (hbase64 : to_base64 = true → Base64Keeps libs n) :
    (rsa.encryptPubKey libs plain to_base64 >>= (rsa.decryptPriKey libs · to_base64)) ≠
      .ok plain := by
  rw [decryptPriKey_encryptPubKey h hbase64]
  cases rsa.only_pubkey_ with
  | true => simp
  | false =>
    intro heq
    have hsame : buffer = plain := Except.ok.inj heq
    have hallocated := h.allocated
    rw [hsame] at hallocated
    omega

def kilobit : RsaLibraries Unit Unit where
  parseFromString := fun _ => (false,⟨⟨[],[],[]⟩,[]⟩)
  serializeAsString := fun _ => []
  pem_read_bio_RSAPublicKey := fun _ => some ()
  rsa_verify := fun _ _ s => some (if s = List.replicate 128 7 then 1 else 0)
  rsa_public_encrypt := fun _ plain =>
    some (if plain.length + 11 ≤ 128 then (128,plain ++ List.replicate (128 - plain.length) 255)
      else (-1,List.replicate 128 0))
  sha384 := fun _ => []
  bio_read := Base64Bio.lineBio.readText
  bio_write := Base64Bio.lineBio.writeText
  rsa_verify_sha256 := fun _ _ s => some (if s = List.replicate 128 7 then 1 else 0)
  rsa_verify_sha512 := fun _ _ s => some (if s = List.replicate 128 7 then 1 else 0)
  rsa_private_decrypt := fun _ cipher =>
    let plain := cipher.takeWhile (· ≠ 255)
    some (plain.length,plain ++ List.replicate (128 - plain.length) 0)
  rsa_sign := fun _ _ datas =>
    some (if datas.length + 19 + 11 ≤ 128 then ⟨1,some 128,List.replicate 128 7⟩
      else ⟨0,none,List.replicate 128 0⟩)

def keyPair : MyRSA Unit Unit := ⟨some (),some (),false⟩

def hi : List UInt8 := [104,105]

theorem decrypts_hi : keyPair.Decrypts kilobit 128 hi (hi ++ List.replicate 126 255)
    (hi ++ List.replicate 126 0) := by
  constructor
  · rfl
  · rfl
  · rfl
  · exact List.prefix_append _ _
  · rfl

theorem decryptPriKey_encryptPubKey_ne_hi :
    (keyPair.encryptPubKey kilobit hi false >>= (keyPair.decryptPriKey kilobit · false)) ≠
      .ok hi :=
  decryptPriKey_encryptPubKey_ne kilobit keyPair (by decide) decrypts_hi false
    (fun h => absurd h (by decide))

theorem decryptPriKey_encryptPubKey_padded :
    ∃ (libs : RsaLibraries Unit Unit) (rsa : MyRSA Unit Unit) (n : Nat)
      (plain cipher buffer : List UInt8), plain.length + 11 ≤ n ∧ rsa.only_pubkey_ = false ∧
      rsa.Decrypts libs n plain cipher buffer ∧
      (rsa.encryptPubKey libs plain false >>= (rsa.decryptPriKey libs · false)) =
        .ok (plain ++ List.replicate 126 0) ∧
      plain ++ List.replicate 126 0 ≠ plain :=
  ⟨kilobit,keyPair,128,hi,_,_,by decide,rfl,decrypts_hi,rfl,by decide⟩

/-- OpenSSL on some data and a matching pair of keys of `n` bytes. -/
inductive Signs (n : Nat) (type : SignType) (datas : List UInt8) : Prop where
  | signed (s : List UInt8) (call : libs.rsa_sign type rsa.pri_key datas = some ⟨1,some n,s⟩)
      (length : s.length = n) (accepted : rsa.rsaVerify libs type datas s = some 1)
  | failed (sigret : List UInt8) (call : libs.rsa_sign type rsa.pri_key datas = some ⟨0,none,sigret⟩)

section Signatures
variable {libs} {rsa} {n : Nat} {type : SignType} {datas : List UInt8}

theorem resize_full (s : List UInt8) : Io.resize s.length s = s := by
  simp [Io.resize]

theorem sign_of_signed {s : List UInt8} (hpair : rsa.only_pubkey_ = false)
    (call : libs.rsa_sign type rsa.pri_key datas = some ⟨1,some n,s⟩) (length : s.length = n)
    (to_base64 : Bool) : rsa.sign libs datas type to_base64 =
      if to_base64 then toBase64 libs.toLibraries s else .ok s := by
  subst length
  simp only [sign, hpair, call, Bool.false_eq_true, if_false, Option.getD_some, resize_full]
  rfl

/-- A failed signature is taken for one of no bytes: only -1 counts as an error. -/
theorem sign_of_failed {sigret : List UInt8} (hpair : rsa.only_pubkey_ = false)
    (call : libs.rsa_sign type rsa.pri_key datas = some ⟨0,none,sigret⟩) (to_base64 : Bool) :
    rsa.sign libs datas type to_base64 =
      if to_base64 then toBase64 libs.toLibraries [] else .ok [] := by
  have hresize : Io.resize 0 sigret = [] := by simp [Io.resize]
  simp only [sign, hpair, call, Bool.false_eq_true, if_false, Option.getD_none, hresize]
  rfl

theorem sign_of_only_pubkey (h : rsa.only_pubkey_ = true) (to_base64 : Bool) :
    rsa.sign libs datas type to_base64 = .error .runtime_error := by
  simp only [sign, h]
  rfl

theorem verifyImpl_eq {sign_datas : List UInt8} {flag : Int}
    (h : rsa.rsaVerify libs type datas sign_datas = some flag) (hflag : flag ≠ -1) :
    rsa.verifyImpl libs datas sign_datas type = .ok (flag ≠ 0) := by
  simp only [verifyImpl, h, hflag, if_false]
  rfl

theorem sign_verifies (hpair : rsa.only_pubkey_ = false) {s : List UInt8}
    (call : libs.rsa_sign type rsa.pri_key datas = some ⟨1,some n,s⟩) (length : s.length = n)
    (accepted : rsa.rsaVerify libs type datas s = some 1) {to_base64 : Bool}
    (hbase64 : to_base64 = true → Base64Keeps libs n) :
    ∃ s, rsa.sign libs datas type to_base64 = .ok s ∧
      rsa.verify libs datas s type to_base64 = .ok true := by
  have hgood : rsa.verifyImpl libs datas s type = .ok true := verifyImpl_eq accepted (by decide)
  rw [sign_of_signed hpair call length]
  cases to_base64 with
  | false => exact ⟨s,rfl,hgood⟩
  | true =>
    have hkept := hbase64 rfl s length
    cases hto : toBase64 libs.toLibraries s with
    | error e =>
      rw [hto] at hkept
      cases hkept
    | ok text =>
      rw [hto] at hkept
      have hfrom : fromBase64 libs.toLibraries text = .ok s := hkept
      refine ⟨text,rfl,?_⟩
      rw [verify, if_pos rfl, hfrom]
      exact hgood

theorem toBase64_ne_runtime_error (s : List UInt8) :
    toBase64 libs.toLibraries s ≠ .error .runtime_error := by
  unfold toBase64
  split
  · rintro ⟨⟩
  · rintro ⟨⟩

theorem sign_lost {bio : Base64Bio} (hbio : bio.Spec)
    (hlibs : libs.toLibraries = libs.toLibraries.ofBio bio) {s : List UInt8} (hn : 0 < n)
    (hint : n < 2 ^ 31) (length : s.length = n) (hfits : ¬ Base64Bio.Fits n)
    (hlength : ∀ s : List UInt8, s.length ≠ n → rsa.rsaVerify libs type datas s = some 0) :
    ∀ text, toBase64 libs.toLibraries s = .ok text →
      rsa.verify libs datas text type true ≠ .ok true := by
  intro text htext hverify
  subst length
  have hlost := (Base64Bio.comesBack hbio (List.ne_nil_of_length_pos hn) hint).2 hfits
  rw [hlibs, toBase64_ofBio] at htext
  rw [verify, if_pos rfl, hlibs, fromBase64_ofBio] at hverify
  cases hread : bio.fromBase64 text with
  | error e =>
    rw [hread] at hverify
    cases hverify
  | ok r =>
    have hround : (bio.toBase64 s >>= bio.fromBase64) = .ok r := by
      simp only [htext, hread, bind, Except.bind]
    have hshort : r.length < s.length := hlost r hround
    have hbad : rsa.verifyImpl libs datas r type = .ok false :=
      verifyImpl_eq (hlength r (Nat.ne_of_lt hshort)) (by decide)
    rw [hread] at hverify
    have hgood : rsa.verifyImpl libs datas r type = .ok true := hverify
    rw [hbad] at hgood
    cases hgood

theorem sign_fails (hn : 0 < n) (hpair : rsa.only_pubkey_ = false) {sigret : List UInt8}
    (call : libs.rsa_sign type rsa.pri_key datas = some ⟨0,none,sigret⟩)
    (hlength : ∀ s : List UInt8, s.length ≠ n → rsa.rsaVerify libs type datas s = some 0)
    {to_base64 : Bool} (hempty : libs.bio_write [] = []) :
    ¬ (rsa.sign libs datas type to_base64 = .error .runtime_error ∨
      ∃ s, rsa.sign libs datas type to_base64 = .ok s ∧
        rsa.verify libs datas s type to_base64 = .ok true) := by
  rw [sign_of_failed hpair call]
  cases to_base64 with
  | false =>
    have hbad : rsa.verifyImpl libs datas [] type = .ok false :=
      verifyImpl_eq (hlength [] (Nat.ne_of_lt hn)) (by decide)
    rintro (hthrown | ⟨s,hs,hverify⟩)
    · cases hthrown
    · cases hs
      change rsa.verifyImpl libs datas [] type = .ok true at hverify
      rw [hbad] at hverify
      cases hverify
  | true =>
    -- no text comes out, and its length less one is no length
    have hthrows : toBase64 libs.toLibraries [] = .error .logic_error := by
      rw [toBase64, hempty]
      rfl
    rw [if_pos rfl, hthrows]
    simp

/-- Sign is as good as the call of `RSA_sign`, whose failure is neither reported nor a signature
that verifies; and as base64, which does not bring back a signature of every length. -/
theorem sign_verifies_iff {bio : Base64Bio} (hbio : bio.Spec)
    (hlibs : libs.toLibraries = libs.toLibraries.ofBio bio) (hn : 0 < n) (hint : n < 2 ^ 31)
    (hsigns : rsa.Signs libs n type datas)
    (hlength : ∀ s : List UInt8, s.length ≠ n → rsa.rsaVerify libs type datas s = some 0)
    (to_base64 : Bool) :
    (rsa.sign libs datas type to_base64 = .error .runtime_error ∨
      ∃ s, rsa.sign libs datas type to_base64 = .ok s ∧
        rsa.verify libs datas s type to_base64 = .ok true) ↔
      rsa.only_pubkey_ = true ∨
        (∃ signed, libs.rsa_sign type rsa.pri_key datas = some signed ∧ signed.flag = 1) ∧
          (to_base64 = true → Base64Bio.Fits n) := by
  have hempty : libs.bio_write [] = [] := by
    rw [hlibs]
    simp [Libraries.ofBio, Libraries.withBio, Base64Bio.writeText, Base64Bio.bioWrite,
      hbio.encodes, Base64.encodeLines_nil]
  cases hpair : rsa.only_pubkey_ with
  | true => exact iff_of_true (.inl (sign_of_only_pubkey hpair to_base64)) (.inl rfl)
  | false =>
    cases hsigns with
    | signed s call length accepted =>
      by_cases hfits : to_base64 = true → Base64Bio.Fits n
      · have hbase64 : to_base64 = true → Base64Keeps libs n :=
          fun h => base64Keeps_of_fits hbio hlibs hint (hfits h)
        exact iff_of_true (.inr (sign_verifies hpair call length accepted hbase64))
          (.inr ⟨⟨_,call,rfl⟩,hfits⟩)
      · refine iff_of_false ?_ fun h => hfits (h.resolve_left Bool.false_ne_true).2
        obtain ⟨rfl,hlost⟩ := Classical.not_imp.mp hfits
        rw [sign_of_signed hpair call length, if_pos rfl]
        rintro (hthrown | ⟨text,htext,hverify⟩)
        · exact toBase64_ne_runtime_error s hthrown
        · exact sign_lost hbio hlibs hn hint length hlost hlength text htext hverify
    | failed sigret call =>
      refine iff_of_false (sign_fails hn hpair call hlength hempty) ?_
      rintro (hpub | ⟨⟨signed,hcall,hflag⟩,-⟩)
      · cases hpub
      · rw [call] at hcall
        rw [← Option.some.inj hcall] at hflag
        cases hflag

end Signatures

theorem kilobit_length (type : SignType) (datas : List UInt8) :
    ∀ s : List UInt8, s.length ≠ 128 → keyPair.rsaVerify kilobit type datas s = some 0 := by
  intro s hlength
  have hne : s ≠ List.replicate 128 7 := by
    rintro rfl
    exact hlength List.length_replicate
  have hflag : (if s = List.replicate 128 7 then (1 : Int) else 0) = 0 := if_neg hne
  cases type <;> exact congrArg some hflag

theorem sign_verifies_iff_hi : ∃ s, keyPair.sign kilobit hi .kSHA384Type true = .ok s ∧
    keyPair.verify kilobit hi s .kSHA384Type true = .ok true := by
  have call : kilobit.rsa_sign .kSHA384Type keyPair.pri_key hi =
      some ⟨1,some 128,List.replicate 128 7⟩ := rfl
  have hsigns : keyPair.Signs kilobit 128 .kSHA384Type hi := .signed _ call rfl rfl
  have hlibs : kilobit.toLibraries = kilobit.toLibraries.ofBio Base64Bio.lineBio := rfl
  have hint : 128 < 2 ^ 31 := by omega
  have hiff := sign_verifies_iff Base64Bio.lineBio_spec hlibs (by decide) hint hsigns
    (kilobit_length _ _) true
  obtain hthrown | h := hiff.mpr (.inr ⟨⟨_,rfl,rfl⟩,fun _ => by decide⟩)
  · rw [sign_of_signed rfl call List.length_replicate] at hthrown
    exact absurd hthrown (toBase64_ne_runtime_error _)
  · exact h

theorem sign_returnsNothing :
    ∃ (libs : RsaLibraries Unit Unit) (rsa : MyRSA Unit Unit) (n : Nat) (type : SignType)
      (datas : List UInt8), rsa.Signs libs n type datas ∧
      (∀ s : List UInt8, s.length ≠ n → rsa.rsaVerify libs type datas s = some 0) ∧
      rsa.sign libs datas type false = .ok [] ∧
      rsa.verify libs datas [] type false = .ok false := by
  have hfails : keyPair.Signs kilobit 128 .kSHA384Type (List.replicate 99 0) := .failed _ rfl
  exact ⟨kilobit,keyPair,128,.kSHA384Type,_,hfails,kilobit_length _ _,rfl,rfl⟩

end MyRSA

end TransmissionPlatform.Platform
