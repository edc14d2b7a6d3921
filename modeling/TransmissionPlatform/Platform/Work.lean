import TransmissionPlatform.Lib.StepSystem
import TransmissionPlatform.Platform.SeckeyAgree

/-!
`Server::Work` on the messages of one process. An exception that leaves it leaves a task of
the thread pool and ends the process. The logger of a rejection stays registered, so a
second rejection does not come to its answer.
-/

set_option autoImplicit false

namespace TransmissionPlatform.Platform
open PosixPath Net Program StepSystem

def failedMsg : Message NetMsgType := ⟨⟨.kFailed,0⟩,[]⟩

/-- A message of the kind `kSeckeyAgree`, with the values its call of `GetAESRandStr` meets. -/
structure Request where
  client : Nat
  random : Random
  size : UInt32
  body : List UInt8

def Request.msg (r : Request) : Message NetMsgType := ⟨⟨.kSeckeyAgree,r.size⟩,r.body⟩

theorem push_id {T : Type} (bs : List UInt8) (msg : Message T) :
    (bs.foldl (fun msg_out c => msg_out.push [c]) msg).header.id = msg.header.id := by
  induction bs generalizing msg with
  | nil => rfl
  | cons b bs ih => exact ih (msg.push [b])

theorem reply_id (respond_str : List UInt8) : (reply respond_str).header.id = .kSeckeyAgree :=
  push_id _ _

namespace Server
variable {K : Type} (sv : Server K)

/-- `SeckeyVerify` parses the message and does nothing with it. -/
def seckeyVerify (msg : Message NetMsgType) : Action Bool := do
  let _ ← MonadExcept.ofExcept (sv.parseMsgImpl msg)
  return true

def seckeyLogout (msg : Message NetMsgType) : Action Bool := do
  let _ ← MonadExcept.ofExcept (sv.parseMsgImpl msg)
  return true

def work (random : Random) (client : Nat) (msg : Message NetMsgType) : Action Unit := do
  if msg.header.id = .kSeckeyAgree then
    if !(← sv.seckeyAgree random client msg) then
      send client failedMsg
  else if msg.header.id = .kSeckeyVerify then
    if !(← sv.seckeyVerify msg) then
      send client failedMsg
  else if msg.header.id = .kSeckeyLogout then
    if !(← sv.seckeyLogout msg) then
      send client failedMsg

/-- One message in the process; `none` when the process has ended. -/
def process (w : World) (r : Request) : Option World :=
  match sv.work r.random r.client r.msg w with
  | .ok _ w' => some w'
  | .error _ _ => none

/-- No exception, and one message to the client that tells how SeckeyAgree ended. -/
def Answered (w : World) (r : Request) : Prop :=
  ∃ accepted w' w'' msg, sv.seckeyAgree r.random r.client r.msg w = .ok accepted w' ∧
    sv.work r.random r.client r.msg w = .ok () w'' ∧ w''.sent = w.sent ++ [(r.client,msg)] ∧
    msg.header.id = if accepted then .kSeckeyAgree else .kFailed

def Rejected (w : World) (r : Request) : Prop :=
  sv.present (sv.keyName r.msg) w = true ∨
    sv.checked r.msg (sv.myRSA (sv.keyName r.msg) (sv.written r.msg w)) = .ok false

instance (w : World) (r : Request) : Decidable (sv.Rejected w r) :=
  inferInstanceAs (Decidable (sv.present (sv.keyName r.msg) w = true ∨
    sv.checked r.msg (sv.myRSA (sv.keyName r.msg) (sv.written r.msg w)) = .ok false))

def Regular (w : World) (r : Request) : Prop :=
  sv.statFails (sv.keyName r.msg) = false ∧ (sv.present (sv.keyName r.msg) w = true ∨
    sv.Concludes r.random r.msg (sv.myRSA (sv.keyName r.msg) (sv.written r.msg w)) True)

section Outcomes
variable {sv} {w w' : World} {r : Request}

theorem work_run (w : World) (r : Request) :
    sv.work r.random r.client r.msg w =
      (do
        if !(← sv.seckeyAgree r.random r.client r.msg) then
          send r.client failedMsg : Action Unit) w := by
  have hid : r.msg.header.id = .kSeckeyAgree := rfl
  rw [work, if_pos hid]

theorem work_accepted (h : sv.seckeyAgree r.random r.client r.msg w = .ok true w') :
    sv.work r.random r.client r.msg w = .ok () w' := by
  rw [work_run, bind_ok h]
  rfl

theorem work_rejected (h : sv.seckeyAgree r.random r.client r.msg w = .ok false w') :
    sv.work r.random r.client r.msg w =
      .ok () { w' with sent := w'.sent ++ [(r.client,failedMsg)] } := by
  rw [work_run, bind_ok h]
  rfl

theorem rejected_run (hregular : sv.Regular w r) (hrejected : sv.Rejected w r)
    (hloggable : sv.Loggable w) : ∃ w', sv.seckeyAgree r.random r.client r.msg w = .ok false w' ∧
      ¬ sv.Loggable w' ∧ w'.sent = w.sent := by
  obtain ⟨hstat,-⟩ := hregular
  cases hpresent : sv.present (sv.keyName r.msg) w with
  | true =>
    obtain ⟨w',hrun,-,hregistered,hsent⟩ := logWarn_ok "签名校验失败, 已经有同名密钥" hloggable
    refine ⟨w',?_,fun h => h.2 hregistered,hsent⟩
    rw [sv.seckeyAgree_present hstat hpresent]
    exact bind_ok hrun
  | false =>
    have hbad := hrejected.resolve_left (by simp [hpresent])
    obtain ⟨w',hrun,-,hregistered,hsent⟩ :=
      logWarn_ok "签名校验失败" ((sv.loggable_written r.msg w).mpr hloggable)
    refine ⟨sv.remove (sv.keyName r.msg) w',?_,?_,?_⟩
    · rw [sv.seckeyAgree_badSign hstat hpresent hbad]
      exact bind_ok hrun
    · intro h
      exact ((sv.loggable_congr (sv.remove_loggers _ w')).mp h).2 hregistered
    · rw [remove_sent, hsent]
      exact sv.ofstream_sent _ _ w

theorem accepted_run (hregular : sv.Regular w r) (haccepted : ¬ sv.Rejected w r) :
    ∃ w' msg, sv.seckeyAgree r.random r.client r.msg w = .ok true w' ∧ w'.loggers = w.loggers ∧
      w'.sent = w.sent ++ [(r.client,msg)] ∧ msg.header.id = .kSeckeyAgree := by
  obtain ⟨hstat,hconcludes⟩ := hregular
  obtain ⟨habsent,hgood⟩ := not_or.mp haccepted
  replace hconcludes := hconcludes.resolve_left habsent
  replace habsent := Bool.not_eq_true _ ▸ habsent
  unfold Concludes at hconcludes
  cases hchecked : sv.checked r.msg (sv.myRSA (sv.keyName r.msg) (sv.written r.msg w)) with
  | error e => simp [hchecked] at hconcludes
  | ok good =>
    cases good with
    | false => exact absurd hchecked hgood
    | true =>
      cases hencrypt : encryptPubKey sv.libs (sv.myRSA (sv.keyName r.msg) (sv.written r.msg w))
        (getAESRandStr r.random kLen16) with
      | error e => simp [hchecked, hencrypt, Except.isOk, Except.toBool] at hconcludes
      | ok aes_seckey =>
        have hrun : sv.seckeyAgree r.random r.client r.msg w = _ :=
          (sv.seckeyAgree_goodSign hstat habsent hchecked).trans (sv.respond_ok hencrypt)
        have hsent := congrArg (· ++ [(r.client,reply (sv.libs.serializeAsString
          { client_id := (sv.request r.msg).client_id, server_id := sv.server_id_
            data := aes_seckey, seckey_id := 12 }))])
          (sv.ofstream_sent (sv.keyName r.msg) (sv.request r.msg).data w)
        exact ⟨_,_,hrun,sv.ofstream_loggers _ _ w,hsent,reply_id _⟩

theorem thrown_run (h : ¬ (sv.Regular w r ∧ (sv.Rejected w r → sv.Loggable w))) :
    ∃ e w', sv.seckeyAgree r.random r.client r.msg w = .error e w' := by
  cases hstat : sv.statFails (sv.keyName r.msg) with
  | true => exact ⟨_,_,sv.seckeyAgree_statFails hstat⟩
  | false =>
    cases hpresent : sv.present (sv.keyName r.msg) w with
    | true =>
      have hfull : ¬ sv.Loggable w := fun hl => h ⟨⟨hstat,Or.inl hpresent⟩,fun _ => hl⟩
      obtain ⟨w',hrun,-⟩ := logWarn_error "签名校验失败, 已经有同名密钥" hfull
      exact ⟨_,w',(sv.seckeyAgree_present hstat hpresent).trans (bind_error hrun)⟩
    | false =>
      cases hchecked : sv.checked r.msg (sv.myRSA (sv.keyName r.msg) (sv.written r.msg w)) with
      | error e => exact ⟨e,_,sv.seckeyAgree_thrown hstat hpresent hchecked⟩
      | ok good =>
        cases good with
        | false =>
          have hfull : ¬ sv.Loggable (sv.written r.msg w) := by
            rw [loggable_written]
            refine fun hl => h ⟨⟨hstat,Or.inr ?_⟩,fun _ => hl⟩
            simp [Concludes, hchecked]
          obtain ⟨w',hrun,-⟩ := logWarn_error "签名校验失败" hfull
          exact ⟨_,w',(sv.seckeyAgree_badSign hstat hpresent hchecked).trans (bind_error hrun)⟩
        | true =>
          cases hencrypt : encryptPubKey sv.libs
            (sv.myRSA (sv.keyName r.msg) (sv.written r.msg w)) (getAESRandStr r.random kLen16) with
          | error e =>
            exact ⟨e,_,(sv.seckeyAgree_goodSign hstat hpresent hchecked).trans
              (sv.respond_error hencrypt)⟩
          | ok aes_seckey =>
            refine absurd ⟨⟨hstat,Or.inr ?_⟩,?_⟩ h
            · simp [Concludes, hchecked, hencrypt, Except.isOk, Except.toBool]
            · rintro (hp | hbad)
              · simp [hpresent] at hp
              · simp [hchecked] at hbad

theorem answered_iff (w : World) (r : Request) :
    sv.Answered w r ↔ sv.Regular w r ∧ (sv.Rejected w r → sv.Loggable w) := by
  constructor
  · rintro ⟨accepted,w',-,-,hrun,-⟩
    by_contra h
    obtain ⟨e,w'',herror⟩ := thrown_run h
    rw [hrun] at herror
    simp at herror
  · rintro ⟨hregular,hlogs⟩
    by_cases hrejected : sv.Rejected w r
    · obtain ⟨w',hrun,-,hsent⟩ := rejected_run hregular hrejected (hlogs hrejected)
      refine ⟨false,w',_,failedMsg,hrun,work_rejected hrun,?_,rfl⟩
      rw [hsent]
    · obtain ⟨w',msg,hrun,-,hsent,hid⟩ := accepted_run hregular hrejected
      exact ⟨true,w',w',msg,hrun,work_accepted hrun,hsent,hid⟩

end Outcomes

def rejections : World → List Request → Nat
  | _, [] => 0
  | w, r :: rs =>
    (if sv.Rejected w r then 1 else 0) +
      match sv.process w r with
      | none => 0
      | some w' => rejections w' rs

section Sequences
variable {sv} {w w' : World} {r : Request}

theorem process_rejected (hregular : sv.Regular w r) (hrejected : sv.Rejected w r)
    (hloggable : sv.Loggable w) : ∃ w', sv.process w r = some w' ∧ ¬ sv.Loggable w' := by
  obtain ⟨w',hrun,hfull,-⟩ := rejected_run hregular hrejected hloggable
  refine ⟨{ w' with sent := w'.sent ++ [(r.client,failedMsg)] },?_,hfull⟩
  rw [process, work_rejected hrun]

theorem process_accepted (hregular : sv.Regular w r) (haccepted : ¬ sv.Rejected w r) :
    ∃ w', sv.process w r = some w' ∧ (sv.Loggable w' ↔ sv.Loggable w) := by
  obtain ⟨w',msg,hrun,hloggers,-⟩ := accepted_run hregular haccepted
  refine ⟨w',?_,sv.loggable_congr hloggers⟩
  rw [process, work_accepted hrun]

/-- Every message of a sequence is answered exactly if the library calls throw nothing and
at most one request is turned down, none if the logger is not there to be created. -/
theorem answered_iff_oneRejection (sv : Server K) (w : World) (reqs : List Request) :
    Meets sv.process sv.Answered w reqs ↔ Meets sv.process sv.Regular w reqs ∧
      sv.rejections w reqs ≤ if sv.Loggable w then 1 else 0 := by
  induction reqs generalizing w with
  | nil => simp [rejections]
  | cons r rs ih =>
    rw [meets_cons, meets_cons, answered_iff, rejections]
    by_cases hregular : sv.Regular w r
    · by_cases hrejected : sv.Rejected w r
      · by_cases hloggable : sv.Loggable w
        · obtain ⟨w',hprocess,hfull⟩ := process_rejected hregular hrejected hloggable
          simp [hregular, hrejected, hloggable, hprocess, ih w', hfull]
        · simp [hregular, hrejected, hloggable]
      · obtain ⟨w',hprocess,hsame⟩ := process_accepted hregular hrejected
        simp [hregular, hrejected, hprocess, ih w', hsame]
    · simp [hregular]

end Sequences

/-- The same name twice, from a fresh registry: the first request is answered with kFailed,
the exception of the second ends the process. -/
theorem answered_oneRejection_sameName :
    ∃ (sv : Server Unit) (w : World) (r : Request), sv.Loggable w ∧ w.loggers = [] ∧
      sv.Answered w r ∧ ¬ Meets sv.process sv.Answered w [r,r] := by
  let r : Request := ⟨0,⟨fun _ => 0,fun _ => 0⟩,6,undecodableMsg.body⟩
  let w : World := { files := fun loc => if loc = keyLocation then some [1] else none }
  have hregular : undecodable.Regular w r := ⟨rfl,Or.inl (by decide)⟩
  have hanswered : undecodable.Answered w r := answered_iff w r |>.mpr ⟨hregular,fun _ => by decide⟩
  refine ⟨undecodable,w,r,by decide,rfl,hanswered,?_⟩
  rintro ⟨-,hnext⟩
  obtain ⟨hsecond,-⟩ := hnext _ rfl
  obtain ⟨-,hlogs⟩ := (answered_iff _ r).mp hsecond
  have hloggable := hlogs (Or.inl (by decide))
  revert hloggable
  decide

end Server

end TransmissionPlatform.Platform
