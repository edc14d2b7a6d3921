import TransmissionPlatform.Lib.Handles
import TransmissionPlatform.Platform.MyRSA

/-!
`mine_rsa.hpp` with the handles that a `MyRSA` object holds. Whether it has a private key is
asked of `only_pubkey_`, which the constructor sets and no load changes.
-/

set_option autoImplicit false

namespace TransmissionPlatform.Platform
open Net Handles Program

structure RSA (K P : Type) where
  pub : Option K := none
  pri : Option P := none

/-- The function that a handle was obtained from. The PEM readers of OpenSSL may put another
one in the place of the one they are given. -/
inductive Origin where
  | rsa_new | rsaPublicKey_dup | rsaPrivateKey_dup | pem_read
  deriving DecidableEq, Repr

structure RsaCell (K P : Type) where
  origin : Origin
  rsa : RSA K P

abbrev RsaHeap (K P : Type) := Heap (RsaCell K P)

/-- What a PEM reader does with the handle it is given. Without a key it returns null. -/
inductive PemRead (V : Type) where
  | filled (key : V)
  /-- The handle is freed, and one of the reader's own is in its place. -/
  | exchanged (key : V)
  | failed
  | cleared

def PemRead.key {V : Type} : PemRead V → Option V
  | .filled key | .exchanged key => some key
  | .failed | .cleared => none

structure KeyLibraries (K P : Type) extends RsaLibraries K P where
  readRSAPublicKey : List UInt8 → PemRead K
  readRSAPrivateKey : List UInt8 → PemRead P
  /-- What an empty RSA object holds after `RSA_generate_key_ex` for this many bits. -/
  rsa_generate_key_ex : Int → RSA K P
  rsaPublicKey_dup : RSA K P → Option (RSA K P)
  rsaPrivateKey_dup : RSA K P → Option (RSA K P)
  /-- The paths that `BIO_new_file` opens for writing. -/
  writable : List UInt8 → Bool
  pem_write_bio_RSAPublicKey : Option K → Option (List UInt8)
  pem_write_bio_RSAPrivateKey : Option P → Option (List UInt8)

/-- The files that can be opened for reading, with their text. -/
abbrev Disk := List UInt8 → Option (List UInt8)

/-- How a function ends that does not return, with the text of a `std::runtime_error`. -/
inductive Thrown where
  | runtime_error (what : String)
  | other (e : Failure)

def Thrown.failure : Thrown → Failure
  | .runtime_error _ => .runtime_error
  | .other e => e

structure RSAImpl where
  pub_key_ptr_ : Option Nat := none
  pri_key_ptr_ : Option Nat := none

structure MyRSAObject where
  impl_ : RSAImpl := {}
  only_pubkey_ : Bool := false

abbrev KeyState (K P : Type) := RsaHeap K P × MyRSAObject

abbrev KeyAction (K P : Type) := EStateM Thrown (KeyState K P)

def kKeyBitsLen : Int := 1024

def onlyPubkey : Thrown := .runtime_error "只有公钥"

inductive Constructor where
  | generate (n : Int)
  | pair (disk : Disk) (pub_key_path pri_key_path : List UInt8)
  | pub (disk : Disk) (pub_key_path : List UInt8)

structure InitCall where
  disk : Disk
  pub_key_path : List UInt8
  pri_key_path : List UInt8

section Functions
variable {K P : Type} (libs : KeyLibraries K P)

def readPub (disk : Disk) (file_name : List UInt8) : PemRead K :=
  match disk file_name with
  | none => .failed
  | some text => libs.readRSAPublicKey text

def readPri (disk : Disk) (file_name : List UInt8) : PemRead P :=
  match disk file_name with
  | none => .failed
  | some text => libs.readRSAPrivateKey text

/-- `RSA_new` and a PEM reader on its handle: the pointer that is left, and whether the reader
returned one. -/
def loadKey {V : Type} (put : V → RSA K P) (read : PemRead V) (h : RsaHeap K P) :
    RsaHeap K P × Option Nat × Bool :=
  let ptr := h.fresh
  let h := h.alloc ⟨.rsa_new,{}⟩
  match read with
  | .filled key => (h.write ptr ⟨.rsa_new,put key⟩,some ptr,true)
  | .exchanged key => ((h.free (some ptr)).alloc ⟨.pem_read,put key⟩,some h.fresh,true)
  | .failed => (h,some ptr,false)
  | .cleared => (h.free (some ptr),none,false)

def initPubImpl (disk : Disk) (file_name : List UInt8) : KeyAction K P Unit := fun s =>
  let (h,ptr,read) := loadKey (fun key => { pub := some key }) (readPub libs disk file_name) s.1
  let s := (h,{ s.2 with impl_ := { s.2.impl_ with pub_key_ptr_ := ptr } })
  if read then .ok () s else .error (.runtime_error "bio读取公钥时出错") s

def initPriImpl (disk : Disk) (file_name : List UInt8) : KeyAction K P Unit := fun s =>
  let (h,ptr,read) := loadKey (fun key => { pri := some key }) (readPri libs disk file_name) s.1
  let s := (h,{ s.2 with impl_ := { s.2.impl_ with pri_key_ptr_ := ptr } })
  if read then .ok () s else .error (.runtime_error "bio读取私钥时出错") s

/-- `if (!ptr) { RSA_free(ptr); ptr = nullptr; }` -/
def freeNull (h : RsaHeap K P) (ptr : Option Nat) : RsaHeap K P × Option Nat :=
  if ptr.isNone then (h.free ptr,none) else (h,ptr)

def clear (s : KeyState K P) : KeyState K P :=
  let (h,pub_key_ptr_) := freeNull s.1 s.2.impl_.pub_key_ptr_
  let (h,pri_key_ptr_) := freeNull h s.2.impl_.pri_key_ptr_
  (h,{ s.2 with impl_ := ⟨pub_key_ptr_,pri_key_ptr_⟩ })

def init (call : InitCall) : KeyAction K P Unit := do
  modify clear
  initPubImpl libs call.disk call.pub_key_path
  initPriImpl libs call.disk call.pri_key_path

/-- `RSAPublicKey_dup` and `RSAPrivateKey_dup`, which may return null. -/
def dup (origin : Origin) (copy : Option (RSA K P)) (h : RsaHeap K P) : RsaHeap K P × Option Nat :=
  match copy with
  | none => (h,none)
  | some rsa => (h.alloc ⟨origin,rsa⟩,some h.fresh)

/-- A constructor keeps a failed load to itself. -/
def construct (c : Constructor) (h : RsaHeap K P) : KeyState K P :=
  match c with
  | .generate n =>
    let rsa_ptr := h.fresh
    let rsa := libs.rsa_generate_key_ex (kKeyBitsLen * n)
    let h := h.alloc ⟨.rsa_new,rsa⟩
    let (h,pub_key_ptr_) := dup .rsaPublicKey_dup (libs.rsaPublicKey_dup rsa) h
    let (h,pri_key_ptr_) := dup .rsaPrivateKey_dup (libs.rsaPrivateKey_dup rsa) h
    (h.free (some rsa_ptr),⟨⟨pub_key_ptr_,pri_key_ptr_⟩,false⟩)
  | .pair disk pub_key_path pri_key_path =>
    final (init libs ⟨disk,pub_key_path,pri_key_path⟩ (h,{}))
  | .pub disk pub_key_path =>
    final (initPubImpl libs disk pub_key_path (h,{ only_pubkey_ := true }))

def destroy (s : KeyState K P) : RsaHeap K P :=
  let (h,_) := freeNull s.1 s.2.impl_.pub_key_ptr_
  (freeNull h s.2.impl_.pri_key_ptr_).1

end Functions

namespace KeyState
variable {K P : Type}

def pointee (h : RsaHeap K P) (ptr : Option Nat) : RSA K P :=
  match ptr.bind (h.cells[·]?) with
  | none => {}
  | some cell => cell.rsa

def privateKey (s : KeyState K P) : Option P := (pointee s.1 s.2.impl_.pri_key_ptr_).pri

/-- The object with the keys in the place of the handles. -/
def myRSA (s : KeyState K P) : MyRSA K P where
  pub_key := (pointee s.1 s.2.impl_.pub_key_ptr_).pub
  pri_key := s.privateKey
  only_pubkey_ := s.2.only_pubkey_

section Operations
variable (libs : KeyLibraries K P) (s : KeyState K P)

/-- `SaveRSAKey`: the files it writes. What the PEM writers return is not looked at. -/
def saveRSAKey (pub_key_path pri_key_path : List UInt8) :
    Except Thrown (List (List UInt8 × List UInt8)) :=
  if s.2.only_pubkey_ then throw onlyPubkey
  else
    match libs.pem_write_bio_RSAPublicKey s.myRSA.pub_key,
      libs.pem_write_bio_RSAPrivateKey s.myRSA.pri_key with
    | some pub_text, some pri_text =>
      pure ([(pub_key_path,pub_text),(pri_key_path,pri_text)].filter fun file =>
        libs.writable file.1)
    | _, _ => throw (.other .undefined)

def decryptPriKey (datas : List UInt8) (from_base64 : Bool) : Except Thrown (List UInt8) :=
  if s.2.only_pubkey_ then throw onlyPubkey
  else do
    let temp ← (if from_base64 then fromBase64 libs.toLibraries datas else pure datas).mapError .other
    match libs.rsa_private_decrypt s.myRSA.pri_key temp with
    | none => throw (.other .undefined)
    | some (flag,result) =>
      if flag = -1 then throw (.runtime_error "私钥解密时出错") else pure result

def sign (datas : List UInt8) (type : SignType) (to_base64 : Bool) :
    Except Thrown (List UInt8) :=
  if s.2.only_pubkey_ then throw onlyPubkey
  else
    match libs.rsa_sign type s.myRSA.pri_key datas with
    | none => throw (.other .undefined)
    | some signed =>
      if signed.flag = -1 then throw (.runtime_error "签名时出错")
      else
        let result := Io.resize (signed.siglen.getD 0) signed.sigret
        if to_base64 then (toBase64 libs.toLibraries result).mapError .other else pure result

theorem mapError_other {α : Type} (x : Except Failure α) :
    (x.mapError Thrown.other).mapError Thrown.failure = x := by
  cases x <;> rfl

theorem sign_myRSA (datas : List UInt8) (type : SignType) (to_base64 : Bool) :
    (s.sign libs datas type to_base64).mapError Thrown.failure =
      s.myRSA.sign libs.toRsaLibraries datas type to_base64 := by
  have honly : s.myRSA.only_pubkey_ = s.2.only_pubkey_ := rfl
  simp only [sign, MyRSA.sign, honly]
  cases s.2.only_pubkey_ with
  | true => rfl
  | false =>
    simp only [Bool.false_eq_true, if_false]
    cases libs.rsa_sign type s.myRSA.pri_key datas with
    | none => rfl
    | some signed =>
      by_cases hflag : signed.flag = -1
      · simp only [hflag, if_true]
        rfl
      · simp only [hflag, if_false]
        cases to_base64 with
        | true => exact mapError_other _
        | false => rfl

theorem decryptPriKey_myRSA (datas : List UInt8) (from_base64 : Bool) :
    (s.decryptPriKey libs datas from_base64).mapError Thrown.failure =
      s.myRSA.decryptPriKey libs.toRsaLibraries datas from_base64 := by
  have honly : s.myRSA.only_pubkey_ = s.2.only_pubkey_ := rfl
  simp only [decryptPriKey, MyRSA.decryptPriKey, honly]
  cases s.2.only_pubkey_ with
  | true => rfl
  | false =>
    simp only [Bool.false_eq_true, if_false]
    cases (if from_base64 then fromBase64 libs.toLibraries datas else pure datas) with
    | error e => rfl
    | ok temp =>
      simp only [Except.mapError, bind, Except.bind]
      cases libs.rsa_private_decrypt s.myRSA.pri_key temp with
      | none => rfl
      | some outcome =>
        by_cases hflag : outcome.1 = -1
        · simp only [hflag, if_true]
          rfl
        · simp only [hflag, if_false]
          rfl

end Operations

end KeyState

section Loads
open KeyState
variable {K P : Type}

theorem pointee_grows {h h' : RsaHeap K P} {ptr : Option Nat} (hgrows : h.cells <+: h'.cells)
    (hrange : ∀ i, ptr = some i → i < h.fresh) : pointee h' ptr = pointee h ptr := by
  cases ptr with
  | none => rfl
  | some i =>
    have hcell : h'.cells[i]? = h.cells[i]? := by
      obtain ⟨cells,hcells⟩ := hgrows
      rw [← hcells, List.getElem?_append_left (hrange i rfl)]
    simp only [pointee, Option.bind_some, hcell]

theorem pointee_alloc (h : RsaHeap K P) (cell : RsaCell K P) :
    pointee (h.alloc cell) (some h.fresh) = cell.rsa := by
  simp only [pointee, Option.bind_some, Heap.cells_alloc_fresh]

theorem cells_alloc (h : RsaHeap K P) (cell : RsaCell K P) :
    h.cells <+: (h.alloc cell).cells := List.prefix_append _ _

structure Loaded {V : Type} (put : V → RSA K P) (read : PemRead V) (h h' : RsaHeap K P)
    (ptr : Option Nat) : Prop where
  grows : h.cells <+: h'.cells
  range : ∀ i, ptr = some i → i < h'.fresh
  pointee : pointee h' ptr = (read.key.map put).getD {}

theorem loaded_loadKey {V : Type} (put : V → RSA K P) (read : PemRead V) (h : RsaHeap K P) :
    Loaded put read h (loadKey put read h).1 (loadKey put read h).2.1 := by
  cases read with
  | filled key =>
    simp only [loadKey, Heap.write_alloc]
    exact ⟨cells_alloc h _,by simp,pointee_alloc h _⟩
  | exchanged key =>
    simp only [loadKey]
    refine ⟨(cells_alloc h _).trans (cells_alloc ((h.alloc _).free (some h.fresh)) _),by simp,?_⟩
    exact pointee_alloc ((h.alloc _).free (some h.fresh)) _
  | failed => exact ⟨cells_alloc h _,by simp [loadKey],pointee_alloc h _⟩
  | cleared => exact ⟨cells_alloc h _,by simp [loadKey],rfl⟩

theorem loadKey_read {V : Type} (put : V → RSA K P) (read : PemRead V) (h : RsaHeap K P) :
    (loadKey put read h).2.2 = read.key.isSome := by
  cases read <;> rfl

variable (libs : KeyLibraries K P)

def loadedPub (disk : Disk) (file_name : List UInt8) (s : KeyState K P) : KeyState K P :=
  final (initPubImpl libs disk file_name s)

def loadedPri (disk : Disk) (file_name : List UInt8) (s : KeyState K P) : KeyState K P :=
  final (initPriImpl libs disk file_name s)

theorem freeNull_eq (h : RsaHeap K P) (ptr : Option Nat) : freeNull h ptr = (h,ptr) := by
  cases ptr <;> rfl

/-- The tests are the wrong way round, and nothing is freed. -/
theorem clear_eq (s : KeyState K P) : clear s = s := by
  simp only [clear, freeNull_eq]

theorem destroy_eq (s : KeyState K P) : destroy s = s.1 := by
  simp only [destroy, freeNull_eq]

/-- The private key is only loaded after a public one. -/
theorem init_final (call : InitCall) (s : KeyState K P) :
    final (init libs call s) =
      if (readPub libs call.disk call.pub_key_path).key.isSome then
        loadedPri libs call.disk call.pri_key_path (loadedPub libs call.disk call.pub_key_path s)
      else loadedPub libs call.disk call.pub_key_path s := by
  have hclear : (modify clear : KeyAction K P PUnit) s = .ok ⟨⟩ s := by
    rw [modify_run, clear_eq]
  rw [init, bind_ok hclear, ← loadKey_read (fun key => ({ pub := some key } : RSA K P)) _ s.1]
  cases hread : (loadKey (fun key => ({ pub := some key } : RSA K P))
      (readPub libs call.disk call.pub_key_path) s.1).2.2 with
  | true =>
    have hpub : initPubImpl libs call.disk call.pub_key_path s =
        .ok () (loadedPub libs call.disk call.pub_key_path s) := by
      simp only [loadedPub, initPubImpl, hread, if_true]
      rfl
    rw [bind_ok hpub]
    rfl
  | false =>
    have hpub : initPubImpl libs call.disk call.pub_key_path s =
        .error (.runtime_error "bio读取公钥时出错") (loadedPub libs call.disk call.pub_key_path s) := by
      simp only [loadedPub, initPubImpl, hread, Bool.false_eq_true, if_false]
      rfl
    rw [bind_error hpub]
    rfl

theorem loadedPub_eq (disk : Disk) (file_name : List UInt8) (s : KeyState K P) :
    loadedPub libs disk file_name s =
      let r := loadKey (fun key => ({ pub := some key } : RSA K P)) (readPub libs disk file_name) s.1
      (r.1,{ s.2 with impl_ := { s.2.impl_ with pub_key_ptr_ := r.2.1 } }) := by
  simp only [loadedPub, initPubImpl]
  split <;> rfl

theorem loadedPri_eq (disk : Disk) (file_name : List UInt8) (s : KeyState K P) :
    loadedPri libs disk file_name s =
      let r := loadKey (fun key => ({ pri := some key } : RSA K P)) (readPri libs disk file_name) s.1
      (r.1,{ s.2 with impl_ := { s.2.impl_ with pri_key_ptr_ := r.2.1 } }) := by
  simp only [loadedPri, initPriImpl]
  split <;> rfl

end Loads

namespace KeyState
variable {K P : Type} (libs : KeyLibraries K P)

def InRange (s : KeyState K P) : Prop := ∀ i, s.2.impl_.pri_key_ptr_ = some i → i < s.1.fresh

theorem fresh_mono {h h' : RsaHeap K P} (hgrows : h.cells <+: h'.cells) : h.fresh ≤ h'.fresh :=
  hgrows.length_le

theorem loadedPub_private {s : KeyState K P} (hs : InRange s) (disk : Disk) (file_name : List UInt8) :
    InRange (loadedPub libs disk file_name s) ∧
      privateKey (loadedPub libs disk file_name s) = privateKey s := by
  have hloaded := loaded_loadKey (fun key => ({ pub := some key } : RSA K P))
    (readPub libs disk file_name) s.1
  rw [loadedPub_eq]
  refine ⟨fun i hi => (hs i hi).trans_le (fresh_mono hloaded.grows),?_⟩
  exact congrArg RSA.pri (pointee_grows hloaded.grows hs)

theorem loadedPri_private (s : KeyState K P) (disk : Disk) (file_name : List UInt8) :
    InRange (loadedPri libs disk file_name s) ∧
      privateKey (loadedPri libs disk file_name s) = (readPri libs disk file_name).key := by
  have hloaded := loaded_loadKey (fun key => ({ pri := some key } : RSA K P))
    (readPri libs disk file_name) s.1
  rw [loadedPri_eq]
  refine ⟨hloaded.range,?_⟩
  refine (congrArg RSA.pri hloaded.pointee).trans ?_
  cases (readPri libs disk file_name).key <;> rfl

end KeyState

def InitCall.attempt {K P : Type} (libs : KeyLibraries K P) (call : InitCall) : Option Bool :=
  if (readPub libs call.disk call.pub_key_path).key.isSome then
    some (readPri libs call.disk call.pri_key_path).key.isSome
  else none

def Constructor.attempt {K P : Type} (libs : KeyLibraries K P) : Constructor → Option Bool
  | .generate n =>
    some ((libs.rsaPrivateKey_dup (libs.rsa_generate_key_ex (kKeyBitsLen * n))).bind RSA.pri).isSome
  | .pair disk pub_key_path pri_key_path => InitCall.attempt libs ⟨disk,pub_key_path,pri_key_path⟩
  | .pub .. => none

def Constructor.isPub : Constructor → Bool
  | .pub .. => true
  | _ => false

namespace KeyState
variable {K P : Type} (libs : KeyLibraries K P)

theorem init_private {s : KeyState K P} (hs : InRange s) (call : InitCall) :
    InRange (final (init libs call s)) ∧
      (privateKey (final (init libs call s))).isSome =
        (call.attempt libs).getD (privateKey s).isSome := by
  obtain ⟨hrange,hkept⟩ := loadedPub_private libs hs call.disk call.pub_key_path
  obtain ⟨hrange',hread⟩ := loadedPri_private libs
    (loadedPub libs call.disk call.pub_key_path s) call.disk call.pri_key_path
  rw [init_final, InitCall.attempt]
  by_cases hpub : (readPub libs call.disk call.pub_key_path).key.isSome = true
  · simp only [hpub, if_true]
    exact ⟨hrange',congrArg Option.isSome hread⟩
  · simp only [hpub, Bool.false_eq_true, if_false]
    exact ⟨hrange,congrArg Option.isSome hkept⟩

theorem inRange_new (h : RsaHeap K P) (only_pubkey_ : Bool) :
    InRange (h,{ only_pubkey_ := only_pubkey_ }) := by
  rintro i ⟨⟩

theorem construct_private (c : Constructor) (h : RsaHeap K P) :
    InRange (construct libs c h) ∧
      (privateKey (construct libs c h)).isSome = (c.attempt libs).getD false := by
  cases c with
  | generate n =>
    simp only [construct, Constructor.attempt, Option.getD_some]
    cases libs.rsaPrivateKey_dup (libs.rsa_generate_key_ex (kKeyBitsLen * n)) with
    | none => exact ⟨by rintro i ⟨⟩,rfl⟩
    | some copy =>
      refine ⟨?_,?_⟩
      · rintro i ⟨⟩
        simp [dup]
      · exact congrArg (fun rsa => (RSA.pri rsa).isSome) (pointee_alloc _ _)
  | pair disk pub_key_path pri_key_path => exact init_private libs (inRange_new h false) _
  | pub disk pub_key_path =>
    obtain ⟨hrange,hkept⟩ := loadedPub_private libs (inRange_new h true) disk pub_key_path
    exact ⟨hrange,congrArg Option.isSome hkept⟩

def afterInits (s : KeyState K P) (calls : List InitCall) : KeyState K P :=
  calls.foldl (fun s call => final (init libs call s)) s

def attempts (c : Constructor) (calls : List InitCall) : List Bool :=
  (c.attempt libs :: calls.map (·.attempt libs)).filterMap id

theorem afterInits_private (c : Constructor) (calls : List InitCall) (h : RsaHeap K P) :
    InRange (afterInits libs (construct libs c h) calls) ∧
      (privateKey (afterInits libs (construct libs c h) calls)).isSome =
        (attempts libs c calls).getLast?.getD false := by
  induction calls using List.reverseRecOn with
  | nil =>
    obtain ⟨hrange,hkey⟩ := construct_private libs c h
    refine ⟨hrange,hkey.trans ?_⟩
    cases hattempt : c.attempt libs <;> simp [attempts, hattempt]
  | append_singleton calls call ih =>
    obtain ⟨hrange,hkey⟩ := init_private libs ih.1 call
    simp only [afterInits, List.foldl_append, List.foldl_cons, List.foldl_nil] at hkey hrange ih ⊢
    refine ⟨hrange,hkey.trans ?_⟩
    rw [ih.2]
    have hsplit : attempts libs c (calls ++ [call]) =
        attempts libs c calls ++ (call.attempt libs).toList := by
      simp only [attempts, List.map_append, List.map_cons, List.map_nil, ← List.cons_append,
        List.filterMap_append]
      cases call.attempt libs <;> rfl
    rw [hsplit, List.getLast?_append]
    cases call.attempt libs <;> rfl

theorem loadedPub_only_pubkey (disk : Disk) (file_name : List UInt8) (s : KeyState K P) :
    (loadedPub libs disk file_name s).2.only_pubkey_ = s.2.only_pubkey_ := by
  rw [loadedPub_eq]

theorem init_only_pubkey (call : InitCall) (s : KeyState K P) :
    (final (init libs call s)).2.only_pubkey_ = s.2.only_pubkey_ := by
  rw [init_final]
  split
  · rw [loadedPri_eq]
    exact loadedPub_only_pubkey libs _ _ s
  · exact loadedPub_only_pubkey libs _ _ s

theorem afterInits_only_pubkey (c : Constructor) (calls : List InitCall) (h : RsaHeap K P) :
    (afterInits libs (construct libs c h) calls).2.only_pubkey_ = c.isPub := by
  induction calls using List.reverseRecOn with
  | nil =>
    cases c with
    | generate n => rfl
    | pair disk pub_key_path pri_key_path => exact init_only_pubkey libs _ _
    | pub disk pub_key_path => exact loadedPub_only_pubkey libs _ _ _
  | append_singleton calls call ih =>
    simp only [afterInits, List.foldl_append, List.foldl_cons, List.foldl_nil] at ih ⊢
    rw [init_only_pubkey, ih]

/-- The three operations on the private key are refused if and only if there is none. -/
structure RefusesExactly (s : KeyState K P) : Prop where
  sign : ∀ datas type to_base64,
    s.sign libs datas type to_base64 = .error onlyPubkey ↔ privateKey s = none
  decryptPriKey : ∀ datas from_base64,
    s.decryptPriKey libs datas from_base64 = .error onlyPubkey ↔ privateKey s = none
  saveRSAKey : ∀ pub_key_path pri_key_path,
    s.saveRSAKey libs pub_key_path pri_key_path = .error onlyPubkey ↔ privateKey s = none

section Refusals
variable {libs} {s : KeyState K P}

theorem mapError_other_ne {α : Type} (x : Except Failure α) :
    x.mapError .other ≠ .error onlyPubkey := by
  cases x <;> simp [Except.mapError, onlyPubkey]

theorem throw_ne {α : Type} {e : Thrown} (he : e ≠ onlyPubkey) :
    (throw e : Except Thrown α) ≠ .error onlyPubkey :=
  fun heq => he (Except.error.inj heq)

theorem pure_ne {α : Type} (a : α) : (pure a : Except Thrown α) ≠ .error onlyPubkey := by
  rintro ⟨⟩

theorem sign_refused {datas : List UInt8} {type : SignType} {to_base64 : Bool} :
    s.sign libs datas type to_base64 = .error onlyPubkey ↔ s.2.only_pubkey_ = true := by
  rw [sign]
  cases s.2.only_pubkey_ with
  | true => exact iff_of_true rfl rfl
  | false =>
    refine iff_of_false ?_ Bool.false_ne_true
    simp only [Bool.false_eq_true, if_false]
    split
    · exact throw_ne (by simp [onlyPubkey])
    · split
      · exact throw_ne (by simp [onlyPubkey])
      · split
        · exact mapError_other_ne _
        · exact pure_ne _

theorem decryptPriKey_refused {datas : List UInt8} {from_base64 : Bool} :
    s.decryptPriKey libs datas from_base64 = .error onlyPubkey ↔ s.2.only_pubkey_ = true := by
  rw [decryptPriKey]
  cases s.2.only_pubkey_ with
  | true => exact iff_of_true rfl rfl
  | false =>
    refine iff_of_false ?_ Bool.false_ne_true
    simp only [Bool.false_eq_true, if_false]
    cases (if from_base64 then fromBase64 libs.toLibraries datas else pure datas) with
    | error e => simp [bind, Except.bind, Except.mapError, onlyPubkey]
    | ok temp =>
      simp only [Except.mapError, bind, Except.bind]
      split
      · exact throw_ne (by simp [onlyPubkey])
      · split
        · exact throw_ne (by simp [onlyPubkey])
        · exact pure_ne _

theorem saveRSAKey_refused {pub_key_path pri_key_path : List UInt8} :
    s.saveRSAKey libs pub_key_path pri_key_path = .error onlyPubkey ↔
      s.2.only_pubkey_ = true := by
  rw [saveRSAKey]
  cases s.2.only_pubkey_ with
  | true => exact iff_of_true rfl rfl
  | false =>
    refine iff_of_false ?_ Bool.false_ne_true
    simp only [Bool.false_eq_true, if_false]
    split
    · exact pure_ne _
    · exact throw_ne (by simp [onlyPubkey])

theorem refusesExactly_iff :
    s.RefusesExactly libs ↔ (s.2.only_pubkey_ = true ↔ privateKey s = none) := by
  constructor
  · intro hrefuses
    exact saveRSAKey_refused.symm.trans (hrefuses.saveRSAKey [] [])
  · intro hflag
    exact ⟨fun _ _ _ => sign_refused.trans hflag,fun _ _ => decryptPriKey_refused.trans hflag,
      fun _ _ => saveRSAKey_refused.trans hflag⟩

end Refusals

/-- The refusals are right as long as the last load of a private key that was tried has gone
as the constructor has it: none tried or a failure for one public key, a success otherwise. -/
theorem refuses_iff (c : Constructor) (calls : List InitCall) (h : RsaHeap K P) :
    (afterInits libs (construct libs c h) calls).RefusesExactly libs ↔
      ((attempts libs c calls).getLast? = some true ↔ c.isPub = false) := by
  have hkey := (afterInits_private libs c calls h).2
  rw [refusesExactly_iff, afterInits_only_pubkey]
  cases hlast : (attempts libs c calls).getLast? with
  | none =>
    rw [hlast] at hkey
    cases c.isPub <;> simpa using hkey
  | some good =>
    rw [hlast] at hkey
    cases good <;> cases c.isPub <;> simpa [← Option.isSome_iff_ne_none] using hkey

def anyKey : KeyLibraries Unit Unit where
  toRsaLibraries := MyRSA.kilobit
  readRSAPublicKey := fun _ => .filled ()
  readRSAPrivateKey := fun _ => .exchanged ()
  rsa_generate_key_ex := fun _ => ⟨some (),some ()⟩
  rsaPublicKey_dup := some
  rsaPrivateKey_dup := some
  writable := fun _ => true
  pem_write_bio_RSAPublicKey := fun _ => some []
  pem_write_bio_RSAPrivateKey := fun _ => some []

def pubDisk : Disk := fun path => if path = [1] then some [] else none

/-- With the file of the private key missing, nothing is refused; and an object that was made
of a public key goes on refusing when a pair of keys has been loaded. -/
theorem refuses_not :
    ∃ libs : KeyLibraries Unit Unit,
      (∃ (disk : Disk) (pub_key_path pri_key_path : List UInt8),
        ¬ (afterInits libs (construct libs (.pair disk pub_key_path pri_key_path) {}) []).RefusesExactly
          libs) ∧
      ∃ (disk : Disk) (pub_key_path : List UInt8) (call : InitCall),
        ¬ (afterInits libs (construct libs (.pub disk pub_key_path) {}) [call]).RefusesExactly libs := by
  refine ⟨anyKey,⟨pubDisk,[1],[2],?_⟩,⟨pubDisk,[1],⟨fun _ => some [],[1],[2]⟩,?_⟩⟩
  · rw [refusesExactly_iff]
    decide
  · rw [refusesExactly_iff]
    decide

end KeyState

end TransmissionPlatform.Platform
