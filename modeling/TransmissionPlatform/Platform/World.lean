import TransmissionPlatform.Lib.Program
import TransmissionPlatform.Net.Connection
import TransmissionPlatform.Platform.KeyStore
import Mathlib.Logic.Function.Basic

/-!
What `Server.cc` works on and with: the files, the logger registry of spdlog and the calls of
`Send` are the state; OpenSSL and protobuf are the functions of `Libraries`. The operations
of `mine_rsa.hpp`, `mine_hash.hpp` and `mine_base64.hpp` are translated over these.
-/

set_option autoImplicit false

namespace TransmissionPlatform.Platform
open PosixPath Net

structure Info where
  client_id : List UInt8
  server_id : List UInt8
  data : List UInt8

structure RequestInfo extends Info where
  sign : List UInt8

structure RespondInfo extends Info where
  seckey_id : Int32

/-- The code that is not in the repository. `K` is what a public key file parses to; a key
object that no file was loaded into is `none`. An RSA function may fail to come back from
such an object, which is `none` as a result. -/
structure Libraries (K : Type) where
  /-- `ParseFromString` of `proto_info::RequestMsg`: its result, and the fields it leaves. -/
  parseFromString : List UInt8 → Bool × RequestInfo
  serializeAsString : RespondInfo → List UInt8
  pem_read_bio_RSAPublicKey : List UInt8 → Option K
  rsa_verify : Option K → List UInt8 → List UInt8 → Option Int
  /-- `RSA_public_encrypt` with PKCS1 padding: its result, and the buffer of `RSA_size` bytes. -/
  rsa_public_encrypt : Option K → List UInt8 → Option (Int × List UInt8)
  sha384 : List UInt8 → List UInt8
  /-- `BIO_read` from a base64 BIO over the text: its result, and the buffer, which is as long
  as the text. -/
  bio_read : List UInt8 → Int × List UInt8
  /-- What a base64 BIO has written to its memory BIO after the flush. -/
  bio_write : List UInt8 → List UInt8

/-- How a function ends that does not return: with an exception, or not at all. -/
inductive Failure where
  | runtime_error | length_error | logic_error | filesystem_error | spdlog_ex | undefined
  deriving DecidableEq, Repr

structure World where
  files : Location → Option (List UInt8)
  loggers : List String := []
  sent : List (Nat × Message NetMsgType) := []

abbrev Action := EStateM Failure World

structure Server (K : Type) where
  libs : Libraries K
  tree : Tree
  /-- The paths that `stat` refuses, for another reason than that nothing is there: a name
  that is too long, a directory that may not be searched. -/
  statFails : List UInt8 → Bool
  server_id_ : List UInt8
  /-- spdlog makes the directory of the log where it is missing. -/
  log_dir : tree.isDir (tree.cwd ++ [ascii "log"]) = true

def Server.withLibs {K : Type} (sv : Server K) (libs : Libraries K) : Server K :=
  { sv with libs := libs }

-- mine_base64.hpp, mine_hash.hpp and mine_rsa.hpp

variable {K : Type} (libs : Libraries K)

/-- `ToBase64`. The last newline is dropped; without any output the text has no data. -/
def toBase64 (datas : List UInt8) : Except Failure (List UInt8) :=
  match libs.bio_write datas with
  | [] => throw .logic_error
  | b :: bs => pure (b :: bs).dropLast

/-- `FromBase64`. A negative length is above `max_size()` once it is a `size_t`. -/
def fromBase64 (datas : List UInt8) : Except Failure (List UInt8) :=
  match libs.bio_read datas with
  | (true_len, result) =>
    if true_len < 0 then throw .length_error else pure (Io.resize true_len.toNat result)

def hexDigit (n : UInt8) : UInt8 := if n < 10 then 48 + n else 87 + n

/-- `Hash::Final` for `kSHA384Type` after one `Update`: hexadecimal digits and a NUL byte. -/
def hashFinal (datas : List UInt8) : List UInt8 :=
  ((libs.sha384 datas).flatMap fun b => [hexDigit (b / 16), hexDigit (b % 16)]) ++ [0]

/-- `MyRSA::Verify` with `kSHA384Type`. -/
def verify (pub_key : Option K) (datas sign_datas : List UInt8) : Except Failure Bool := do
  let sign ← fromBase64 libs sign_datas
  match libs.rsa_verify pub_key datas sign with
  | none => throw .undefined
  | some flag => if flag = -1 then throw .runtime_error else pure (flag ≠ 0)

def encryptPubKey (pub_key : Option K) (datas : List UInt8) : Except Failure (List UInt8) :=
  match libs.rsa_public_encrypt pub_key datas with
  | none => throw .undefined
  | some (flag, result) => if flag = -1 then throw .runtime_error else toBase64 libs result

namespace Server
variable (sv : Server K)

def present (path : List UInt8) (w : World) : Bool :=
  match sv.tree.resolve path with
  | none => false
  | some loc => (w.files loc).isSome || sv.tree.isDir loc

def exists_ (path : List UInt8) : Action Bool := fun w =>
  if sv.statFails path then .error .filesystem_error w else .ok (sv.present path w) w

/-- The file that opening the path for writing opens or creates. -/
def fileAt (path : List UInt8) : Option Location :=
  (sv.tree.resolve path).filter fun loc => !sv.tree.isDir loc

/-- `std::ofstream`, one insertion, `close()`. A file that cannot be opened stays unwritten. -/
def ofstream (path data : List UInt8) (w : World) : World :=
  match sv.fileAt path with
  | none => w
  | some loc => { w with files := Function.update w.files loc (some data) }

def remove (path : List UInt8) (w : World) : World :=
  match sv.tree.resolve path with
  | none => w
  | some loc => { w with files := Function.update w.files loc none }

/-- `MyRSA(pub_key_path)`: the constructor reports a failure and keeps the empty object. -/
def myRSA (path : List UInt8) (w : World) : Option K :=
  match sv.tree.resolve path with
  | none => none
  | some loc => (w.files loc).bind sv.libs.pem_read_bio_RSAPublicKey

def logPath : List UInt8 := ascii "log/server"

/-- A sink on the file appends to it, and creates it if need be. -/
def append (loc : Location) (text : List UInt8) (w : World) : World :=
  { w with files := Function.update w.files loc (some ((w.files loc).getD [] ++ text)) }

/-- `spdlog::basic_logger_mt("SeckeyAgree logger", "log/server")` and one `warn`. The sink
opens its file before the registry refuses a name it has. -/
def logWarn (text : String) : Action Unit := fun w =>
  match sv.fileAt logPath with
  | none => .error .spdlog_ex w
  | some loc =>
    if "SeckeyAgree logger" ∈ w.loggers then .error .spdlog_ex (append loc [] w)
    else
      .ok () { append loc text.toUTF8.toList w with loggers := "SeckeyAgree logger" :: w.loggers }

/-- The call of the logger comes back. -/
def Loggable (w : World) : Prop :=
  (sv.fileAt logPath).isSome ∧ "SeckeyAgree logger" ∉ w.loggers

instance (w : World) : Decidable (sv.Loggable w) :=
  inferInstanceAs (Decidable ((sv.fileAt logPath).isSome ∧ "SeckeyAgree logger" ∉ w.loggers))

def OffLog (w w' : World) : Prop := ∀ loc, sv.fileAt logPath ≠ some loc → w'.files loc = w.files loc

@[simp] theorem ofstream_loggers (path data : List UInt8) (w : World) :
    (sv.ofstream path data w).loggers = w.loggers := by
  unfold ofstream
  split <;> rfl

@[simp] theorem ofstream_sent (path data : List UInt8) (w : World) :
    (sv.ofstream path data w).sent = w.sent := by
  unfold ofstream
  split <;> rfl

@[simp] theorem remove_loggers (path : List UInt8) (w : World) :
    (sv.remove path w).loggers = w.loggers := by
  unfold remove
  split <;> rfl

@[simp] theorem remove_sent (path : List UInt8) (w : World) :
    (sv.remove path w).sent = w.sent := by
  unfold remove
  split <;> rfl

theorem loggable_congr {w w' : World} (h : w'.loggers = w.loggers) :
    sv.Loggable w' ↔ sv.Loggable w := by
  rw [Loggable, Loggable, h]

section Paths
variable {sv} {path : List UInt8} {loc : Location} {w : World}

theorem exists_error (h : sv.statFails path = true) :
    sv.exists_ path w = .error .filesystem_error w := by
  rw [exists_, if_pos h]

theorem exists_ok (h : sv.statFails path = false) :
    sv.exists_ path w = .ok (sv.present path w) w := by
  rw [exists_, h]
  rfl

theorem ofstream_of_fileAt (h : sv.fileAt path = some loc) (data : List UInt8) :
    sv.ofstream path data w = { w with files := Function.update w.files loc (some data) } := by
  rw [ofstream, h]

theorem remove_of_resolve (h : sv.tree.resolve path = some loc) :
    sv.remove path w = { w with files := Function.update w.files loc none } := by
  rw [remove, h]

theorem myRSA_of_resolve (h : sv.tree.resolve path = some loc) :
    sv.myRSA path w = (w.files loc).bind sv.libs.pem_read_bio_RSAPublicKey := by
  rw [myRSA, h]

theorem resolve_of_fileAt (h : sv.fileAt path = some loc) : sv.tree.resolve path = some loc :=
  (Option.filter_eq_some_iff.mp h).1

theorem absent_of_resolve (hloc : sv.tree.resolve path = some loc)
    (habsent : sv.present path w = false) : w.files loc = none ∧ sv.fileAt path = some loc := by
  simp only [present, hloc, Bool.or_eq_false_iff] at habsent
  refine ⟨by simpa using habsent.1,?_⟩
  rw [fileAt, hloc, Option.filter_some, habsent.2]
  rfl

theorem myRSA_ofstream (h : sv.fileAt path = some loc) (data : List UInt8) :
    sv.myRSA path (sv.ofstream path data w) = sv.libs.pem_read_bio_RSAPublicKey data := by
  rw [myRSA_of_resolve (resolve_of_fileAt h), ofstream_of_fileAt h]
  simp

end Paths

section Logging
variable {sv} {w : World}

theorem offLog_append {log : Location} (h : sv.fileAt logPath = some log) (text : List UInt8) :
    sv.OffLog w (append log text w) := by
  intro loc hloc
  refine Function.update_of_ne ?_ _ _
  rintro rfl
  exact hloc h

theorem logWarn_ok (text : String) (h : sv.Loggable w) : ∃ w', sv.logWarn text w = .ok () w' ∧
    sv.OffLog w w' ∧ "SeckeyAgree logger" ∈ w'.loggers ∧ w'.sent = w.sent := by
  obtain ⟨log,hlog⟩ := Option.isSome_iff_exists.mp h.1
  have hrun : sv.logWarn text w = .ok () { append log text.toUTF8.toList w with
      loggers := "SeckeyAgree logger" :: w.loggers } := by
    rw [logWarn, hlog]
    exact if_neg h.2
  exact ⟨_,hrun,offLog_append hlog text.toUTF8.toList,List.mem_cons_self,rfl⟩

theorem logWarn_error (text : String) (h : ¬ sv.Loggable w) :
    ∃ w', sv.logWarn text w = .error .spdlog_ex w' ∧ sv.OffLog w w' := by
  cases hlog : sv.fileAt logPath with
  | none =>
    refine ⟨w,?_,fun _ _ => rfl⟩
    rw [logWarn, hlog]
  | some log =>
    have hregistered : "SeckeyAgree logger" ∈ w.loggers := by
      by_contra hfree
      exact h ⟨by rw [hlog]; rfl,hfree⟩
    refine ⟨_,?_,offLog_append hlog []⟩
    rw [logWarn, hlog]
    exact if_pos hregistered

end Logging

end Server

def send (client : Nat) (msg : Message NetMsgType) : Action Unit :=
  modify fun w => { w with sent := w.sent ++ [(client,msg)] }

end TransmissionPlatform.Platform
