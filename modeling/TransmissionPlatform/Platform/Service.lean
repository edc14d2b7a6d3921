import TransmissionPlatform.Net.Replies
import TransmissionPlatform.Platform.Pool

/-!
The server as one system: the network with its clients and its queues, and the four workers of
the pool, each with one message in `Server::Work`, over the files and the logger that all of
them share. A call of `SeckeyAgree` takes its file operations one at a time, and what `Work`
sends goes to the connection at once. An exception that leaves `Work` ends the process.
-/

set_option autoImplicit false

namespace TransmissionPlatform.Platform
open PosixPath Net Program StepSystem

def Phase.rank {K : Type} : Phase K → Nat
  | .queued => 6
  | .started => 5
  | .nameFree => 4
  | .fileWritten => 3
  | .badSign => 2
  | .nameTaken | .logged | .goodSign _ => 1
  | .rejected | .accepted _ _ | .thrown _ => 0

inductive Working (K : Type) where
  | agreeing (random : Random) (phase : Phase K)
  | other (random : Random)
  | returned
  | thrown (e : Failure)

def Working.isThrown {K : Type} : Working K → Bool
  | .agreeing _ phase => phase.isThrown
  | .thrown _ => true
  | _ => false

/-- The request of a task, with the values that its call of `GetAESRandStr` will meet. -/
def Request.ofTask (random : Random) (t : Net.Task NetMsgType) : Request :=
  ⟨t.client,random,t.msg.header.size,t.msg.body⟩

theorem ofTask_msg {t : Net.Task NetMsgType} (h : t.msg.header.id = .kSeckeyAgree) (random : Random) :
    (Request.ofTask random t).msg = t.msg := by
  obtain ⟨client,⟨⟨id,size⟩,body⟩,index,replied⟩ := t
  cases h
  rfl

def Working.rank {K : Type} : Working K → Nat
  | .agreeing _ phase => phase.rank + 2
  | .other _ => 2
  | .returned => 1
  | .thrown _ => 0

structure Service (K : Type) where
  host : Host NetMsgType
  world : World
  workers : List (Working K) := []

namespace Service
variable {K : Type}

def ended (s : Service K) : Bool := s.workers.any (·.isThrown)

def start (now : Nat → UInt64) (w : World) : Service K := { host := .start now, world := w }

end Service

/-- A step of the network, or of the workers: one takes a task, takes its next step in `Work`,
or is done with its task. -/
inductive ServiceEvent where
  | host (ev : HostEvent NetMsgType)
  | start (random : Random)
  | work (i : Nat)
  | finish (i : Nat)

def ofWorker {T : Type} : HostEvent T → Bool
  | .workerStart | .workerSend _ _ | .workerEnd _ => true
  | _ => false

namespace Server
variable {K : Type} (sv : Server K)

def beginWork (random : Random) (t : Net.Task NetMsgType) : Working K :=
  if t.msg.header.id = .kSeckeyAgree then .agreeing random .started else .other random

def workStep (t : Net.Task NetMsgType) : Working K → World → Option (Working K × World)
  | .agreeing _ .rejected, w =>
    match send t.client failedMsg w with
    | .ok _ w' => some (.returned,w')
    | .error e w' => some (.thrown e,w')
  | .agreeing _ (.accepted _ _), w => some (.returned,w)
  | .agreeing random phase, w =>
    if phase.running then
      let (phase',w') := sv.advance (.ofTask random t) phase w
      some (.agreeing random phase',w')
    else none
  | .other random, w =>
    match sv.work random t.client t.msg w with
    | .ok _ w' => some (.returned,w')
    | .error e w' => some (.thrown e,w')
  | .returned, _ => none
  | .thrown _, _ => none

/-- A worker's step in the server: what it adds to the record of sends, the connection gets. -/
def workerStep (s : Service K) (i : Nat) : Option (Service K) :=
  match s.host.running[i]?, s.workers[i]? with
  | some t, some place =>
    match sv.workStep t place s.world with
    | none => none
    | some (place',w) =>
      match w.sent.drop s.world.sent.length with
      | [] => some { s with world := w, workers := s.workers.set i place' }
      | (_,msg) :: _ =>
        (s.host.step (.workerSend i msg)).map fun host =>
          ⟨host,w,s.workers.set i place'⟩
  | _, _ => none

def serviceStep (s : Service K) (ev : ServiceEvent) : Option (Service K) :=
  if s.ended then none
  else
    match ev with
    | .host ev =>
      if ofWorker ev then none else (s.host.step ev).map fun host => { s with host := host }
    | .start random =>
      match s.host.queued with
      | [] => none
      | t :: _ =>
        (s.host.step .workerStart).map fun host =>
          { s with host := host, workers := s.workers ++ [beginWork random t] }
    | .work i => sv.workerStep s i
    | .finish i =>
      match s.workers[i]? with
      | some .returned =>
        (s.host.step (.workerEnd i)).map fun host =>
          { s with host := host, workers := s.workers.eraseIdx i }
      | _ => none

theorem logWarn_sent (text : String) (w : World) : (final (sv.logWarn text w)).sent = w.sent := by
  unfold logWarn
  split
  · rfl
  · split <;> rfl

/-- A step of a call sends nothing, or it is the last one of an accepted call and sends the
reply, for the key that the key file holds now. -/
inductive Sends (sv : Server K) (r : Request) (w : World) : Phase K → Phase K → World → Prop where
  | none {phase phase' : Phase K} {w' : World} (same : w'.sent = w.sent)
      (lower : phase'.rank < phase.rank) (open_ : phase'.isAccepted = false)
      (good : ∀ verified, phase' = .goodSign verified →
        verified = sv.myRSA (sv.keyName r.msg) w ∧ sv.checked r.msg verified = .ok true) :
      Sends sv r w phase phase' w'
  | reply {verified : Option K} {aes_seckey : List UInt8} {w' : World}
      (encrypted : encryptPubKey sv.libs (sv.myRSA (sv.keyName r.msg) w)
        (getAESRandStr r.random kLen16) = .ok aes_seckey)
      (sent : w'.sent = w.sent ++ [(r.client,reply (sv.libs.serializeAsString
        { client_id := (sv.request r.msg).client_id, server_id := sv.server_id_
          data := aes_seckey, seckey_id := 12 }))]) :
      Sends sv r w (.goodSign verified) (.accepted verified (sv.myRSA (sv.keyName r.msg) w)) w'

section Sends
variable {sv} {r : Request} {w w' : World} {phase phase' : Phase K}

theorem rank_pos (running : phase.running = true) : 0 < phase.rank := by
  cases phase <;> first | exact Nat.succ_pos _ | simp [Phase.running] at running

theorem sends_thrown {e : Failure} (running : phase.running = true)
    (h : sv.callStep r phase w = .error e w') (same : w'.sent = w.sent) :
    Sends sv r w phase (sv.advance r phase w).1 (sv.advance r phase w).2 := by
  rw [advance_error h]
  exact .none same (rank_pos running) rfl (by simp)

theorem sends_logWarn {text : String} (running : phase.running = true)
    (lower : phase'.rank < phase.rank)
    (h : sv.callStep r phase w =
      match sv.logWarn text w with
      | .error e w' => .error e w'
      | .ok _ w' => .ok phase' w')
    (open_ : phase'.isAccepted = false) (notGood : ∀ verified, phase' ≠ .goodSign verified) :
    Sends sv r w phase (sv.advance r phase w).1 (sv.advance r phase w).2 := by
  have hsent := logWarn_sent sv text w
  cases hlog : sv.logWarn text w with
  | error e w' =>
    rw [hlog] at hsent h
    exact sends_thrown running h hsent
  | ok u w' =>
    rw [hlog] at hsent h
    rw [advance_ok h]
    exact .none hsent lower open_ fun verified hv => absurd hv (notGood verified)

theorem sends_advance (running : phase.running = true) :
    Sends sv r w phase (sv.advance r phase w).1 (sv.advance r phase w).2 := by
  cases phase with
  | queued => simp [Phase.running] at running
  | rejected => simp [Phase.running] at running
  | accepted verified encrypted => simp [Phase.running] at running
  | thrown e => simp [Phase.running] at running
  | started =>
    cases hstat : sv.statFails (sv.keyName r.msg) with
    | true => exact sends_thrown running (bind_error (exists_error hstat)) rfl
    | false =>
      rw [advance_ok (sv.callStep_started r w hstat)]
      cases sv.present (sv.keyName r.msg) w with
      | true => exact .none rfl (by simp [Phase.rank]) rfl (by simp)
      | false => exact .none rfl (by simp [Phase.rank]) rfl (by simp)
  | nameTaken => exact sends_logWarn running (by simp [Phase.rank]) (sv.callStep_nameTaken r w) rfl (by simp)
  | nameFree =>
    rw [advance_ok (sv.callStep_nameFree r w)]
    exact .none (sv.ofstream_sent _ _ w) (by simp [Phase.rank]) rfl (by simp)
  | fileWritten =>
    have hstep := sv.callStep_fileWritten r w
    cases hchecked : sv.checked r.msg (sv.myRSA (sv.keyName r.msg) w) with
    | error e =>
      rw [hchecked] at hstep
      exact sends_thrown running hstep rfl
    | ok good =>
      rw [hchecked] at hstep
      cases good with
      | false =>
        rw [advance_ok hstep]
        exact .none rfl (by simp [Phase.rank]) rfl (by simp)
      | true =>
        rw [advance_ok hstep]
        refine .none rfl (by simp [Phase.rank]) rfl fun verified hv => ?_
        cases hv
        exact ⟨rfl,hchecked⟩
  | badSign => exact sends_logWarn running (by simp [Phase.rank]) (sv.callStep_badSign r w) rfl (by simp)
  | logged =>
    rw [advance_ok (sv.callStep_logged r w)]
    exact .none (sv.remove_sent _ w) (by simp [Phase.rank]) rfl (by simp)
  | goodSign verified =>
    have hstep := sv.callStep_goodSign r w verified
    cases hencrypt : encryptPubKey sv.libs (sv.myRSA (sv.keyName r.msg) w)
      (getAESRandStr r.random kLen16) with
    | error e =>
      rw [sv.respond_error hencrypt] at hstep
      exact sends_thrown running hstep rfl
    | ok aes_seckey =>
      rw [sv.respond_ok hencrypt] at hstep
      rw [advance_ok hstep]
      exact .reply hencrypt rfl

end Sends

theorem work_other {random : Random} {client : Nat} {msg : Message NetMsgType}
    (h : msg.header.id ≠ .kSeckeyAgree) (w : World) : sv.work random client msg w = .ok () w := by
  have parsed : (MonadExcept.ofExcept (sv.parseMsgImpl msg) : Action _) w =
      .ok (sv.request msg,sv.keyName msg) w := by
    rw [parseMsgImpl_eq]
    rfl
  have hverify : sv.seckeyVerify msg w = .ok true w := bind_ok parsed
  have hlogout : sv.seckeyLogout msg w = .ok true w := bind_ok parsed
  rw [work, if_neg h]
  split
  · exact bind_ok hverify
  · split
    · exact bind_ok hlogout
    · rfl

inductive WorkMoves (sv : Server K) (t : Net.Task NetMsgType) (w : World) :
    Working K → Working K → World → Prop where
  | failed (random : Random) : WorkMoves sv t w (.agreeing random .rejected) .returned
      { w with sent := w.sent ++ [(t.client,failedMsg)] }
  | accepted (random : Random) (verified encrypted : Option K) :
      WorkMoves sv t w (.agreeing random (.accepted verified encrypted)) .returned w
  | agree {random : Random} {phase phase' : Phase K} {w' : World} (running : phase.running = true)
      (sends : Sends sv (.ofTask random t) w phase phase' w') :
      WorkMoves sv t w (.agreeing random phase) (.agreeing random phase') w'
  | other (random : Random) : WorkMoves sv t w (.other random) .returned w

theorem workStep_running {t : Net.Task NetMsgType} {random : Random} {phase : Phase K}
    (running : phase.running = true) (w : World) :
    sv.workStep t (.agreeing random phase) w =
      some (.agreeing random (sv.advance (.ofTask random t) phase w).1,
        (sv.advance (.ofTask random t) phase w).2) := by
  cases phase <;> first | rfl | simp [Phase.running] at running

theorem workMoves_step {t : Net.Task NetMsgType} {place place' : Working K} {w w' : World}
    (hother : ∀ random, place = .other random → t.msg.header.id ≠ .kSeckeyAgree)
    (h : sv.workStep t place w = some (place',w')) : WorkMoves sv t w place place' w' := by
  cases place with
  | returned => cases h
  | thrown e => cases h
  | other random =>
    rw [workStep, sv.work_other (hother random rfl)] at h
    cases h
    exact .other random
  | agreeing random phase =>
    cases hrun : phase.running with
    | true =>
      rw [sv.workStep_running hrun] at h
      cases h
      exact .agree hrun (sends_advance hrun)
    | false =>
      cases phase with
      | rejected =>
        cases h
        exact .failed random
      | accepted verified encrypted =>
        cases h
        exact .accepted random verified encrypted
      | queued | thrown e => simp [workStep, Phase.running] at h
      | _ => simp [Phase.running] at hrun

/-- What a worker can refer to: the key objects that were loaded from the file of a name, and the
outcomes of the generator. -/
structure Past (K : Type) where
  loaded : List UInt8 → Option K → Prop
  drawn : Random → Prop

structure Past.Grows (past past' : Past K) : Prop where
  loaded : ∀ name key, past.loaded name key → past'.loaded name key
  drawn : ∀ random, past.drawn random → past'.drawn random

/-- A worker that has begun with a task and what it knows, and whether it has replied. -/
inductive WorkerAt (sv : Server K) (past : Past K)
    (t : Net.Task NetMsgType) : Working K → Prop where
  | agreeing {random : Random} {phase : Phase K} (agree : t.msg.header.id = .kSeckeyAgree)
      (begun : phase.rank ≤ 5) (replied : t.replied = phase.isAccepted)
      (drawn : past.drawn random)
      (good : ∀ verified, phase = .goodSign verified →
        past.loaded (sv.keyName t.msg) verified ∧ sv.checked t.msg verified = .ok true) :
      WorkerAt sv past t (.agreeing random phase)
  | other {random : Random} (other : t.msg.header.id ≠ .kSeckeyAgree) (open_ : t.replied = false) :
      WorkerAt sv past t (.other random)
  | returned (replied : t.replied = decide (t.msg.header.id = .kSeckeyAgree)) :
      WorkerAt sv past t .returned

/-- The message answers the request `m`: it turns it down, or its signature verified and the
message carries a key that was drawn, encrypted under one in the file of the request's name. -/
def AnswersWith (sv : Server K) (past : Past K) (m msg : Message NetMsgType) : Prop :=
  msg = failedMsg ∨ ∃ (verified encrypted : Option K) (random : Random) (aes_seckey : List UInt8),
    past.loaded (sv.keyName m) verified ∧ sv.checked m verified = .ok true ∧
    past.loaded (sv.keyName m) encrypted ∧ past.drawn random ∧
    encryptPubKey sv.libs encrypted (getAESRandStr random kLen16) = .ok aes_seckey ∧
    msg = reply (sv.libs.serializeAsString
      { client_id := (sv.request m).client_id, server_id := sv.server_id_, data := aes_seckey
        seckey_id := 12 })

theorem WorkerAt.mono {sv : Server K} {past past' : Past K} {t : Net.Task NetMsgType}
    {place : Working K} (h : WorkerAt sv past t place) (hmono : past.Grows past') :
    WorkerAt sv past' t place := by
  cases h with
  | agreeing agree begun replied drawn good =>
    exact .agreeing agree begun replied (hmono.drawn _ drawn) fun verified hv =>
      ⟨hmono.loaded _ _ (good verified hv).1,(good verified hv).2⟩
  | other other open_ => exact .other other open_
  | returned replied => exact .returned replied

theorem AnswersWith.mono {sv : Server K} {past past' : Past K} {m msg : Message NetMsgType}
    (h : AnswersWith sv past m msg) (hmono : past.Grows past') : AnswersWith sv past' m msg := by
  obtain h | ⟨verified,encrypted,random,aes,hverified,hgood,hencrypted,hdrawn,hkey,hmsg⟩ := h
  · exact .inl h
  · exact .inr ⟨verified,encrypted,random,aes,hmono.loaded _ _ hverified,hgood,
      hmono.loaded _ _ hencrypted,hmono.drawn _ hdrawn,hkey,hmsg⟩

/-- A step of a worker: it goes on without sending, or it sends the one answer to its task. -/
theorem workerAt_step {sv : Server K} {past past' : Past K} {t : Net.Task NetMsgType}
    {place place' : Working K} {w w' : World} (hat : WorkerAt sv past t place)
    (hmono : past.Grows past') (hnow : ∀ name, past'.loaded name (sv.myRSA name w))
    (h : sv.workStep t place w = some (place',w')) :
    (w'.sent = w.sent ∧ WorkerAt sv past' t place') ∨
    (∃ msg, w'.sent = w.sent ++ [(t.client,msg)] ∧ t.replied = false ∧
      t.msg.header.id = .kSeckeyAgree ∧ AnswersWith sv past' t.msg msg ∧
      WorkerAt sv past' { t with replied := true } place') := by
  have hother : ∀ random, place = .other random → t.msg.header.id ≠ .kSeckeyAgree := by
    rintro random rfl
    cases hat with
    | other other _ => exact other
  cases workMoves_step sv hother h with
  | failed random =>
    cases hat with
    | agreeing agree begun replied drawn good =>
      exact .inr ⟨failedMsg,rfl,replied,agree,.inl rfl,.returned (by simp [agree])⟩
  | accepted random verified encrypted =>
    cases hat with
    | agreeing agree begun replied drawn good =>
      exact .inl ⟨rfl,.returned (by simp [agree, replied, Phase.isAccepted])⟩
  | other random =>
    cases hat with
    | other other open_ => exact .inl ⟨rfl,.returned (by simp [other, open_])⟩
  | @agree random phase phase' w' running sends =>
    cases hat with
    | agreeing agree begun replied drawn good =>
      have hdrawn := hmono.drawn _ drawn
      have hmsg := ofTask_msg agree random
      have hopen : t.replied = false := by
        rw [replied]
        cases phase <;> first | rfl | simp [Phase.running] at running
      cases sends with
      | none same lower open_ good' =>
        refine .inl ⟨same,.agreeing agree (by omega) (by rw [hopen, open_]) hdrawn
          fun verified hv => ?_⟩
        obtain ⟨rfl,hgood⟩ := good' verified hv
        rw [hmsg] at hgood ⊢
        exact ⟨hnow _,hgood⟩
      | @reply verified aes_seckey w' encrypted sent =>
        obtain ⟨hloaded,hgood⟩ := good verified rfl
        rw [hmsg] at encrypted sent
        refine .inr ⟨_,sent,hopen,agree,.inr ⟨verified,_,random,aes_seckey,
          hmono.loaded _ _ hloaded,hgood,hnow _,hdrawn,encrypted,rfl⟩,
          .agreeing agree (Nat.zero_le 5) rfl hdrawn (by simp)⟩

end Server

end TransmissionPlatform.Platform
