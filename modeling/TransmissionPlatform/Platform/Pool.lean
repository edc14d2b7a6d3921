import TransmissionPlatform.Platform.Work

/-!
`SeckeyAgree` on the four workers of the thread pool. A call takes its file operations one
at a time, and the other calls may come in between. A call that meets no other takes the
steps of the function.
-/

set_option autoImplicit false

namespace TransmissionPlatform.Platform
open PosixPath Net Program StepSystem

/-- Where a call stands, named after what it did last. `goodSign` and `accepted` keep the key
object of the check, and `accepted` that of the encryption. -/
inductive Phase (K : Type) where
  | queued
  | started
  | nameTaken
  | nameFree
  | fileWritten
  | badSign
  | logged
  | goodSign (verified : Option K)
  | rejected
  | accepted (verified encrypted : Option K)
  | thrown (e : Failure)
  deriving DecidableEq

namespace Phase
variable {K : Type}

def running : Phase K → Bool
  | queued | rejected | accepted _ _ | thrown _ => false
  | _ => true

def isAccepted : Phase K → Bool
  | accepted _ _ => true
  | _ => false

def isThrown : Phase K → Bool
  | thrown _ => true
  | _ => false

def holdsFile : Phase K → Bool
  | fileWritten | badSign | logged | goodSign _ | accepted _ _ => true
  | _ => false

def encryptionKey : Phase K → Option (Option K)
  | accepted _ encrypted => some encrypted
  | _ => none

def hasKey : Phase K → Bool
  | goodSign _ | accepted _ _ => true
  | _ => false

end Phase

structure Call (K : Type) where
  request : Request
  phase : Phase K

structure Pool (K : Type) where
  world : World
  calls : List (Call K) := []

namespace Pool
variable {K : Type}

def workers : Nat := 4

def ended (p : Pool K) : Bool := p.calls.any fun c => c.phase.isThrown

def busy (p : Pool K) : Nat := p.calls.countP fun c => c.phase.running

end Pool

/-- A message is posted to the pool, a worker takes a call, or a call takes its next step. -/
inductive PoolEvent where
  | post (r : Request)
  | start (i : Nat)
  | step (i : Nat)

namespace Server
variable {K : Type} (sv : Server K)

def callStep (r : Request) : Phase K → Action (Phase K)
  | .started => do
    if ← sv.exists_ (sv.keyName r.msg) then
      return .nameTaken
    return .nameFree
  | .nameTaken => do
    sv.logWarn "签名校验失败, 已经有同名密钥"
    return .rejected
  | .nameFree => do
    modify (sv.written r.msg)
    return .fileWritten
  | .fileWritten => do
    let rsa := sv.myRSA (sv.keyName r.msg) (← get)
    if !(← sv.checkSign (sv.keyName r.msg) (hashFinal sv.libs (sv.request r.msg).data)
        (sv.request r.msg).sign) then
      return .badSign
    return .goodSign rsa
  | .badSign => do
    sv.logWarn "签名校验失败"
    return .logged
  | .logged => do
    modify (sv.remove (sv.keyName r.msg))
    return .rejected
  | .goodSign verified => do
    let rsa := sv.myRSA (sv.keyName r.msg) (← get)
    let _ ← sv.respond r.random r.client (sv.request r.msg) (sv.keyName r.msg)
    return .accepted verified rsa
  | phase => return phase

def advance (r : Request) (phase : Phase K) (w : World) : Phase K × World :=
  match sv.callStep r phase w with
  | .ok phase' w' => (phase',w')
  | .error e w' => (.thrown e,w')

def poolStep (p : Pool K) : PoolEvent → Option (Pool K)
  | .post r => if p.ended then none else some { p with calls := p.calls ++ [⟨r,.queued⟩] }
  | .start i =>
    match p.calls[i]? with
    | some ⟨r,.queued⟩ =>
      if p.ended ∨ Pool.workers ≤ p.busy then none
      else some { p with calls := p.calls.set i ⟨r,.started⟩ }
    | _ => none
  | .step i =>
    match p.calls[i]? with
    | none => none
    | some c =>
      if p.ended ∨ c.phase.running = false then none
      else
        let (phase,w) := sv.advance c.request c.phase p.world
        some ⟨w,p.calls.set i ⟨c.request,phase⟩⟩

def alone (r : Request) : Nat → Phase K → Action (Phase K)
  | 0, phase => pure phase
  | n + 1, phase => do alone r n (← sv.callStep r phase)

section Alone
variable (r : Request) (w : World) {n : Nat} {phase phase' : Phase K} {w' : World}

theorem callStep_started (hstat : sv.statFails (sv.keyName r.msg) = false) :
    sv.callStep r .started w =
      .ok (if sv.present (sv.keyName r.msg) w then .nameTaken else .nameFree) w := by
  refine (bind_ok (exists_ok hstat)).trans ?_
  split <;> rfl

theorem callStep_nameTaken : sv.callStep r .nameTaken w =
    match sv.logWarn "签名校验失败, 已经有同名密钥" w with
    | .error e w' => .error e w'
    | .ok _ w' => .ok .rejected w' := by
  cases hlog : sv.logWarn "签名校验失败, 已经有同名密钥" w with
  | error e w' => exact bind_error hlog
  | ok u w' => exact bind_ok hlog

theorem callStep_nameFree : sv.callStep r .nameFree w = .ok .fileWritten (sv.written r.msg w) := rfl

theorem callStep_fileWritten : sv.callStep r .fileWritten w =
    match sv.checked r.msg (sv.myRSA (sv.keyName r.msg) w) with
    | .error e => .error e w
    | .ok false => .ok .badSign w
    | .ok true => .ok (.goodSign (sv.myRSA (sv.keyName r.msg) w)) w := by
  have hcheck := sv.checkSign_run r.msg (w := w)
  refine (bind_ok (get_run w)).trans ?_
  cases hchecked : sv.checked r.msg (sv.myRSA (sv.keyName r.msg) w) with
  | error e =>
    rw [hchecked] at hcheck
    exact bind_error hcheck
  | ok good =>
    rw [hchecked] at hcheck
    refine (bind_ok hcheck).trans ?_
    cases good <;> rfl

theorem callStep_badSign : sv.callStep r .badSign w =
    match sv.logWarn "签名校验失败" w with
    | .error e w' => .error e w'
    | .ok _ w' => .ok .logged w' := by
  cases hlog : sv.logWarn "签名校验失败" w with
  | error e w' => exact bind_error hlog
  | ok u w' => exact bind_ok hlog

theorem callStep_logged :
    sv.callStep r .logged w = .ok .rejected (sv.remove (sv.keyName r.msg) w) := rfl

theorem callStep_goodSign (verified : Option K) : sv.callStep r (.goodSign verified) w =
    match sv.respond r.random r.client (sv.request r.msg) (sv.keyName r.msg) w with
    | .error e w' => .error e w'
    | .ok _ w' => .ok (.accepted verified (sv.myRSA (sv.keyName r.msg) w)) w' := by
  refine (bind_ok (get_run w)).trans ?_
  cases hrespond : sv.respond r.random r.client (sv.request r.msg) (sv.keyName r.msg) w with
  | error e w' => exact bind_error hrespond
  | ok u w' => exact bind_ok hrespond

theorem callStep_done (h : phase.running = false) : sv.callStep r phase w = .ok phase w := by
  cases phase <;> first | rfl | simp [Phase.running] at h

variable {sv} {r} {w}

theorem alone_ok (h : sv.callStep r phase w = .ok phase' w') :
    sv.alone r (n + 1) phase w = sv.alone r n phase' w' := bind_ok h

theorem alone_error {e : Failure} (h : sv.callStep r phase w = .error e w') :
    sv.alone r (n + 1) phase w = .error e w' := bind_error h

theorem alone_done (h : phase.running = false) : sv.alone r n phase w = .ok phase w := by
  induction n with
  | zero => rfl
  | succ n ih => rw [alone_ok (sv.callStep_done r w h), ih]

theorem alone_eq_seckeyAgree (sv : Server K) (r : Request) (w : World) :
    (do return (← sv.alone r 5 .started).isAccepted : Action Bool) w =
      sv.seckeyAgree r.random r.client r.msg w := by
  cases hstat : sv.statFails (sv.keyName r.msg) with
  | true =>
    rw [sv.seckeyAgree_statFails hstat]
    exact bind_error (alone_error (bind_error (exists_error hstat)))
  | false =>
    have hstarted := sv.callStep_started r w hstat
    cases hpresent : sv.present (sv.keyName r.msg) w with
    | true =>
      rw [hpresent, if_pos rfl] at hstarted
      have hstep := sv.callStep_nameTaken r w
      rw [sv.seckeyAgree_present hstat hpresent]
      cases hlog : sv.logWarn "签名校验失败, 已经有同名密钥" w with
      | error e w' =>
        rw [hlog] at hstep
        rw [bind_error hlog]
        refine bind_error ?_
        rw [alone_ok hstarted, alone_error hstep]
      | ok u w' =>
        rw [hlog] at hstep
        rw [bind_ok hlog]
        have halone : sv.alone r 5 .started w = .ok .rejected w' := by
          rw [alone_ok hstarted, alone_ok hstep, alone_done rfl]
        exact bind_ok halone
    | false =>
      rw [hpresent, if_neg Bool.false_ne_true] at hstarted
      have hwritten : sv.alone r 5 .started w = sv.alone r 3 .fileWritten (sv.written r.msg w) := by
        rw [alone_ok hstarted, alone_ok (sv.callStep_nameFree r w)]
      have hcheck := sv.callStep_fileWritten r (sv.written r.msg w)
      cases hchecked : sv.checked r.msg (sv.myRSA (sv.keyName r.msg) (sv.written r.msg w)) with
      | error e =>
        rw [hchecked] at hcheck
        rw [sv.seckeyAgree_thrown hstat hpresent hchecked]
        refine bind_error ?_
        rw [hwritten, alone_error hcheck]
      | ok good =>
        rw [hchecked] at hcheck
        cases good with
        | false =>
          have hstep := sv.callStep_badSign r (sv.written r.msg w)
          rw [sv.seckeyAgree_badSign hstat hpresent hchecked]
          cases hlog : sv.logWarn "签名校验失败" (sv.written r.msg w) with
          | error e w' =>
            rw [hlog] at hstep
            rw [bind_error hlog]
            refine bind_error ?_
            rw [hwritten, alone_ok hcheck, alone_error hstep]
          | ok u w' =>
            rw [hlog] at hstep
            rw [bind_ok hlog]
            have halone : sv.alone r 5 .started w =
                .ok .rejected (sv.remove (sv.keyName r.msg) w') := by
              rw [hwritten, alone_ok hcheck, alone_ok hstep, alone_ok (sv.callStep_logged r w'),
                alone_done rfl]
            exact bind_ok halone
        | true =>
          have hstep := sv.callStep_goodSign r (sv.written r.msg w)
            (sv.myRSA (sv.keyName r.msg) (sv.written r.msg w))
          rw [sv.seckeyAgree_goodSign hstat hpresent hchecked]
          cases hencrypt : encryptPubKey sv.libs
            (sv.myRSA (sv.keyName r.msg) (sv.written r.msg w)) (getAESRandStr r.random kLen16) with
          | error e =>
            rw [sv.respond_error hencrypt] at hstep ⊢
            refine bind_error ?_
            rw [hwritten, alone_ok hcheck, alone_error hstep]
          | ok aes_seckey =>
            rw [sv.respond_ok hencrypt] at hstep ⊢
            have hgood := hwritten.trans (alone_ok hcheck)
            exact bind_ok (hgood.trans ((alone_ok hstep).trans (alone_done rfl)))

end Alone

inductive Moves (sv : Server K) (r : Request) (w : World) : Phase K → Phase K → World → Prop where
  | aside {phase phase' : Phase K} {w' : World} (holds : phase'.holdsFile = true → phase.holdsFile = true)
      (hasKey : phase'.hasKey = false) (off : sv.OffLog w w') : Moves sv r w phase phase' w'
  | write : Moves sv r w .nameFree .fileWritten (sv.written r.msg w)
  | verify (good : sv.checked r.msg (sv.myRSA (sv.keyName r.msg) w) = .ok true) :
      Moves sv r w .fileWritten (.goodSign (sv.myRSA (sv.keyName r.msg) w)) w
  | encrypt {verified : Option K} {w' : World} (same : w'.files = w.files) :
      Moves sv r w (.goodSign verified) (.accepted verified (sv.myRSA (sv.keyName r.msg) w)) w'
  | remove : Moves sv r w .logged .rejected (sv.remove (sv.keyName r.msg) w)

section Steps
variable {sv} {r : Request} {w w' : World} {phase phase' : Phase K}

theorem advance_ok (h : sv.callStep r phase w = .ok phase' w') :
    sv.advance r phase w = (phase',w') := by
  rw [advance, h]

theorem advance_error {e : Failure} (h : sv.callStep r phase w = .error e w') :
    sv.advance r phase w = (.thrown e,w') := by
  rw [advance, h]

theorem offLog_refl (w : World) : sv.OffLog w w := fun _ _ => rfl

theorem logWarn_offLog (sv : Server K) (text : String) (w : World) : sv.OffLog w (final (sv.logWarn text w)) := by
  by_cases hloggable : sv.Loggable w
  · obtain ⟨w',hrun,hoff,-⟩ := logWarn_ok text hloggable
    rw [hrun]
    exact hoff
  · obtain ⟨w',hrun,hoff⟩ := logWarn_error text hloggable
    rw [hrun]
    exact hoff

theorem moves_thrown {e : Failure} (h : sv.callStep r phase w = .error e w') (off : sv.OffLog w w') :
    Moves sv r w phase (sv.advance r phase w).1 (sv.advance r phase w).2 := by
  rw [advance_error h]
  exact .aside (by simp [Phase.holdsFile]) rfl off

theorem moves_logWarn {text : String}
    (h : sv.callStep r phase w =
      match sv.logWarn text w with
      | .error e w' => .error e w'
      | .ok _ w' => .ok phase' w')
    (holds : phase'.holdsFile = true → phase.holdsFile = true) (hasKey : phase'.hasKey = false) :
    Moves sv r w phase (sv.advance r phase w).1 (sv.advance r phase w).2 := by
  have hoff := logWarn_offLog sv text w
  cases hlog : sv.logWarn text w with
  | error e w' =>
    rw [hlog] at hoff h
    exact moves_thrown h hoff
  | ok u w' =>
    rw [hlog] at hoff h
    rw [advance_ok h]
    exact .aside holds hasKey hoff

/-- Every step of a running call is one of these. -/
theorem moves_advance (running : phase.running = true) :
    Moves sv r w phase (sv.advance r phase w).1 (sv.advance r phase w).2 := by
  cases phase with
  | queued => simp [Phase.running] at running
  | rejected => simp [Phase.running] at running
  | accepted verified encrypted => simp [Phase.running] at running
  | thrown e => simp [Phase.running] at running
  | started =>
    cases hstat : sv.statFails (sv.keyName r.msg) with
    | true => exact moves_thrown (bind_error (exists_error hstat)) (offLog_refl w)
    | false =>
      rw [advance_ok (sv.callStep_started r w hstat)]
      cases sv.present (sv.keyName r.msg) w with
      | true => exact .aside id rfl (offLog_refl w)
      | false => exact .aside id rfl (offLog_refl w)
  | nameTaken => exact moves_logWarn (sv.callStep_nameTaken r w) id rfl
  | nameFree =>
    rw [advance_ok (sv.callStep_nameFree r w)]
    exact .write
  | fileWritten =>
    have hstep := sv.callStep_fileWritten r w
    cases hchecked : sv.checked r.msg (sv.myRSA (sv.keyName r.msg) w) with
    | error e =>
      rw [hchecked] at hstep
      exact moves_thrown hstep (offLog_refl w)
    | ok good =>
      rw [hchecked] at hstep
      cases good with
      | false =>
        rw [advance_ok hstep]
        exact .aside id rfl (offLog_refl w)
      | true =>
        rw [advance_ok hstep]
        exact .verify hchecked
  | badSign => exact moves_logWarn (sv.callStep_badSign r w) id rfl
  | logged =>
    rw [advance_ok (sv.callStep_logged r w)]
    exact .remove
  | goodSign verified =>
    have hstep := sv.callStep_goodSign r w verified
    cases hencrypt : encryptPubKey sv.libs (sv.myRSA (sv.keyName r.msg) w)
      (getAESRandStr r.random kLen16) with
    | error e =>
      rw [sv.respond_error hencrypt] at hstep
      exact moves_thrown hstep (offLog_refl w)
    | ok aes_seckey =>
      rw [sv.respond_ok hencrypt] at hstep
      rw [advance_ok hstep]
      exact .encrypt rfl

end Steps

section PoolSteps
variable {sv} {p q : Pool K} {i : Nat} {r : Request}

theorem poolStep_post (h : sv.poolStep p (.post r) = some q) :
    q = { p with calls := p.calls ++ [⟨r,.queued⟩] } := by
  rw [poolStep] at h
  split at h
  · cases h
  · exact (Option.some.inj h).symm

theorem poolStep_start (h : sv.poolStep p (.start i) = some q) :
    ∃ r, p.calls[i]? = some ⟨r,.queued⟩ ∧ q = { p with calls := p.calls.set i ⟨r,.started⟩ } := by
  rw [poolStep] at h
  split at h
  · rename_i r hcall
    split at h
    · cases h
    · exact ⟨r,hcall,(Option.some.inj h).symm⟩
  · cases h

theorem poolStep_step (h : sv.poolStep p (.step i) = some q) :
    ∃ r phase phase' w', p.calls[i]? = some ⟨r,phase⟩ ∧ phase.running = true ∧
      Moves sv r p.world phase phase' w' ∧ q = ⟨w',p.calls.set i ⟨r,phase'⟩⟩ := by
  rw [poolStep] at h
  split at h
  · cases h
  · rename_i c hcall
    split at h
    · cases h
    · rename_i hrun
      have running : c.phase.running = true := by
        cases hr : c.phase.running with
        | true => rfl
        | false => exact absurd (Or.inr hr) hrun
      exact ⟨c.request,c.phase,_,_,hcall,running,moves_advance running,(Option.some.inj h).symm⟩

end PoolSteps

end Server

end TransmissionPlatform.Platform
