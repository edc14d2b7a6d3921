import TransmissionPlatform.Platform.Refinement
import Mathlib.Data.Finset.Card

/-!
The requests that are turned down. A call logs a refusal before it answers, and it creates the
logger for it, under one name: the second refusal in the life of the process throws. So the
server turns down one request at most, whoever sends it, and every further one that it would have
to turn down is the end of the process.
-/

set_option autoImplicit false

namespace TransmissionPlatform.Platform
open PosixPath Net Program StepSystem

def Phase.refuses {K : Type} : Phase K → Bool
  | logged | rejected => true
  | _ => false

namespace Server
variable {K : Type} {sv : Server K}

inductive Logs (phase : Phase K) (w : World) (phase' : Phase K) (w' : World) : Prop where
  | aside (keeps : phase'.refuses = true → phase.refuses = true) (same : w'.loggers = w.loggers) :
      Logs phase w phase' w'
  | refuse (free : "SeckeyAgree logger" ∉ w.loggers)
      (taken : "SeckeyAgree logger" ∈ w'.loggers) : Logs phase w phase' w'

section Logs
variable {r : Request} {w w' : World} {phase phase' : Phase K}

theorem logs_thrown {e : Failure} (h : sv.callStep r phase w = .error e w')
    (same : w'.loggers = w.loggers) :
    Logs phase w (sv.advance r phase w).1 (sv.advance r phase w).2 := by
  rw [advance_error h]
  exact .aside (by simp [Phase.refuses]) same

theorem logs_logWarn {text : String}
    (h : sv.callStep r phase w =
      match sv.logWarn text w with
      | .error e w' => .error e w'
      | .ok _ w' => .ok phase' w') :
    Logs phase w (sv.advance r phase w).1 (sv.advance r phase w).2 := by
  cases hlog : sv.fileAt logPath with
  | none =>
    have hrun : sv.logWarn text w = .error .spdlog_ex w := by rw [logWarn, hlog]
    rw [hrun] at h
    exact logs_thrown h rfl
  | some log =>
    by_cases htaken : "SeckeyAgree logger" ∈ w.loggers
    · have hrun : sv.logWarn text w = .error .spdlog_ex (append log [] w) := by
        rw [logWarn, hlog]
        exact if_pos htaken
      rw [hrun] at h
      exact logs_thrown h rfl
    · obtain ⟨w',hrun,-,hname,-⟩ := logWarn_ok text ⟨by rw [hlog]; rfl,htaken⟩
      rw [hrun] at h
      rw [advance_ok h]
      exact .refuse htaken hname

theorem logs_advance (running : phase.running = true) :
    Logs phase w (sv.advance r phase w).1 (sv.advance r phase w).2 := by
  cases phase with
  | queued => simp [Phase.running] at running
  | rejected => simp [Phase.running] at running
  | accepted verified encrypted => simp [Phase.running] at running
  | thrown e => simp [Phase.running] at running
  | started =>
    cases hstat : sv.statFails (sv.keyName r.msg) with
    | true => exact logs_thrown (bind_error (exists_error hstat)) rfl
    | false =>
      rw [advance_ok (sv.callStep_started r w hstat)]
      cases sv.present (sv.keyName r.msg) w with
      | true => exact .aside id rfl
      | false => exact .aside id rfl
  | nameTaken => exact logs_logWarn (sv.callStep_nameTaken r w)
  | nameFree =>
    rw [advance_ok (sv.callStep_nameFree r w)]
    exact .aside id (sv.ofstream_loggers _ _ w)
  | fileWritten =>
    have hstep := sv.callStep_fileWritten r w
    cases hchecked : sv.checked r.msg (sv.myRSA (sv.keyName r.msg) w) with
    | error e =>
      rw [hchecked] at hstep
      exact logs_thrown hstep rfl
    | ok good =>
      rw [hchecked] at hstep
      cases good with
      | false =>
        rw [advance_ok hstep]
        exact .aside id rfl
      | true =>
        rw [advance_ok hstep]
        exact .aside id rfl
  | badSign => exact logs_logWarn (sv.callStep_badSign r w)
  | logged =>
    rw [advance_ok (sv.callStep_logged r w)]
    exact .aside id (sv.remove_loggers _ w)
  | goodSign verified =>
    have hstep := sv.callStep_goodSign r w verified
    cases hencrypt : encryptPubKey sv.libs (sv.myRSA (sv.keyName r.msg) w)
      (getAESRandStr r.random kLen16) with
    | error e =>
      rw [sv.respond_error hencrypt] at hstep
      exact logs_thrown hstep rfl
    | ok aes_seckey =>
      rw [sv.respond_ok hencrypt] at hstep
      rw [advance_ok hstep]
      exact .aside id rfl

end Logs

/-- One call at most has logged a refusal, and the name of the logger is taken since. -/
structure Refused (p : Pool K) : Prop where
  once : ∀ (i j : Nat) (c d : Call K), p.calls[i]? = some c → p.calls[j]? = some d →
    c.phase.refuses = true → d.phase.refuses = true → i = j
  taken : ∀ (i : Nat) (c : Call K), p.calls[i]? = some c → c.phase.refuses = true →
    "SeckeyAgree logger" ∈ p.world.loggers

section Pool
variable {p q : Pool K} {i : Nat} {r : Request}

theorem poolStep_advance (h : sv.poolStep p (.step i) = some q) :
    ∃ r phase, p.calls[i]? = some ⟨r,phase⟩ ∧ phase.running = true ∧
      q = ⟨(sv.advance r phase p.world).2,p.calls.set i ⟨r,(sv.advance r phase p.world).1⟩⟩ := by
  rw [poolStep] at h
  split at h
  · cases h
  · rename_i c hcall
    split at h
    · cases h
    · rename_i hrun
      rw [not_or, Bool.not_eq_false] at hrun
      exact ⟨c.request,c.phase,hcall,hrun.2,(Option.some.inj h).symm⟩

theorem getElem?_concat_cases {A : Type} {l : List A} {a b : A} {j : Nat}
    (h : (l ++ [a])[j]? = some b) : l[j]? = some b ∨ b = a := by
  obtain hlt | hge := Nat.lt_or_ge j l.length
  · exact .inl (by rwa [List.getElem?_append_left hlt] at h)
  · rw [List.getElem?_append_right hge] at h
    exact .inr (List.mem_singleton.mp (List.mem_of_getElem? h))

theorem Refused.mono (inv : Refused p) (same : q.world.loggers = p.world.loggers)
    (old : ∀ (j : Nat) (d : Call K), q.calls[j]? = some d → d.phase.refuses = true →
      ∃ d', p.calls[j]? = some d' ∧ d'.phase.refuses = true) : Refused q := by
  constructor
  · intro i j c d hi hj hc hd
    obtain ⟨c',hi',hc'⟩ := old i c hi hc
    obtain ⟨d',hj',hd'⟩ := old j d hj hd
    exact inv.once i j c' d' hi' hj' hc' hd'
  · intro i c hi hc
    obtain ⟨c',hi',hc'⟩ := old i c hi hc
    rw [same]
    exact inv.taken i c' hi' hc'

theorem refused_post (inv : Refused p) (h : sv.poolStep p (.post r) = some q) : Refused q := by
  obtain rfl := poolStep_post h
  refine inv.mono rfl fun j d hj hd => ?_
  obtain hj | rfl := getElem?_concat_cases hj
  · exact ⟨d,hj,hd⟩
  · cases hd

theorem refused_start (inv : Refused p) (h : sv.poolStep p (.start i) = some q) : Refused q := by
  obtain ⟨r,-,rfl⟩ := poolStep_start h
  refine inv.mono rfl fun j d hj hd => ?_
  obtain ⟨-,rfl⟩ | ⟨-,hj⟩ := getElem?_set_cases hj
  · cases hd
  · exact ⟨d,hj,hd⟩

theorem refused_step (inv : Refused p) (h : sv.poolStep p (.step i) = some q) : Refused q := by
  obtain ⟨r,phase,hcall,running,rfl⟩ := poolStep_advance h
  have hlogs : Logs phase p.world (sv.advance r phase p.world).1 (sv.advance r phase p.world).2 :=
    logs_advance running
  cases hlogs with
  | aside keeps same =>
    refine inv.mono same fun j d hj hd => ?_
    obtain ⟨rfl,rfl⟩ | ⟨-,hj⟩ := getElem?_set_cases hj
    · exact ⟨⟨r,phase⟩,hcall,keeps hd⟩
    · exact ⟨d,hj,hd⟩
  | refuse free taken =>
    -- the name was free, so no other call has logged a refusal
    have only : ∀ (j : Nat) (d : Call K),
        (p.calls.set i ⟨r,(sv.advance r phase p.world).1⟩)[j]? = some d →
        d.phase.refuses = true → j = i := by
      intro j d hj hd
      obtain ⟨rfl,-⟩ | ⟨-,hj⟩ := getElem?_set_cases hj
      · rfl
      · exact absurd (inv.taken j d hj hd) free
    refine ⟨fun j k c d hj hk hc hd => ?_,fun _ _ _ _ => taken⟩
    exact (only j c hj hc).trans (only k d hk hd).symm

theorem refused_run {w : World} {es : List PoolEvent}
    (run : exec sv.poolStep ⟨w,[]⟩ es = some p) : Refused p := by
  refine exec_invariant (fun t e u inv hstep => ?_) (by constructor <;> simp) run
  cases e with
  | post r => exact refused_post inv hstep
  | start i => exact refused_start inv hstep
  | step i => exact refused_step inv hstep

end Pool

def refusal (x : Sent NetMsgType) : Bool := x.reply.isSome && x.msg.header.id == .kFailed

def idOf (sv : Server K) (h : Host NetMsgType) (q : Nat × Nat) : Option (List UInt8) :=
  (h.requests q.1)[q.2]?.map fun o => (sv.request o.msg).client_id

theorem refusal_iff {x : Sent NetMsgType} :
    refusal x = true ↔ (∃ k, x.reply = some k) ∧ x.msg.header.id = .kFailed := by
  simp [refusal, Option.isSome_iff_exists]

theorem card_le_image_succ {A B : Type} [DecidableEq B] {asked : Finset A} (f : A → B)
    (odd : A → Prop) (once : ∀ a ∈ asked, ∀ b ∈ asked, odd a → odd b → a = b)
    (inj : ∀ a ∈ asked, ∀ b ∈ asked, ¬ odd a → ¬ odd b → f a = f b → a = b) :
    asked.card ≤ (asked.image f).card + 1 := by
  classical
  have hodd : (asked.filter odd).card ≤ 1 := by
    refine Finset.card_le_one.mpr fun a ha b hb => ?_
    rw [Finset.mem_filter] at ha hb
    exact once a ha.1 b hb.1 ha.2 hb.2
  have heven : (asked.filter fun a => ¬ odd a).card ≤ (asked.image f).card := by
    refine Finset.card_le_card_of_injOn f (fun a ha => ?_) fun a ha b hb hab => ?_
    · exact Finset.mem_image_of_mem f (Finset.mem_filter.mp ha).1
    · rw [Finset.mem_coe, Finset.mem_filter] at ha hb
      exact inj a ha.1 b hb.1 ha.2 hb.2 hab
  have hsplit := Finset.card_filter_add_card_filter_not (s := asked) odd
  omega

section Answers
variable {s : Service K} {origin : List (Nat × Nat)} {p : Pool K} {x y : Sent NetMsgType} {k l : Nat}

theorem AnswerOf.refuses {call : Call K} (h : AnswerOf sv call x.msg)
    (hfailed : x.msg.header.id = .kFailed) : call.phase.refuses = true := by
  cases h with
  | failed phase _ =>
    rw [phase]
    rfl
  | granted _ _ granted =>
    rw [granted, reply_id] at hfailed
    cases hfailed

/-- Two refusals are answers to one request. -/
theorem refusal_once (inv : Refused p) (hm : Mirrors sv s origin p) (hx : x ∈ s.host.sent)
    (hy : y ∈ s.host.sent) (hk : x.reply = some k) (hl : y.reply = some l)
    (hfailed : x.msg.header.id = .kFailed) (hfailed' : y.msg.header.id = .kFailed) :
    x.client = y.client ∧ k = l := by
  obtain ⟨i,call,horigin,hcall,hanswer⟩ := hm.answers x hx k hk
  obtain ⟨j,call',horigin',hcall',hanswer'⟩ := hm.answers y hy l hl
  obtain rfl := inv.once i j call call' hcall hcall' (hanswer.refuses hfailed)
    (hanswer'.refuses hfailed')
  exact Prod.mk.inj (Option.some.inj (horigin.symm.trans horigin'))

theorem refusals_le (inv : Refused p) (hm : Mirrors sv s origin p)
    (answered : ∀ c, (s.host.repliesTo c).Nodup) : s.host.sent.countP refusal ≤ 1 := by
  rw [List.countP_eq_length_filter]
  cases hrefusals : s.host.sent.filter refusal with
  | nil => exact Nat.zero_le 1
  | cons x rest =>
    cases rest with
    | nil => exact Nat.le_refl 1
    | cons y rest =>
      exfalso
      have hpair : [x,y].Sublist (s.host.sent.filter refusal) := by
        rw [hrefusals]
        exact List.sublist_append_left [x,y] rest
      have hsub := hpair.trans List.filter_sublist
      have hx := List.mem_filter.mp (hpair.subset List.mem_cons_self)
      have hy := List.mem_filter.mp (hpair.subset (List.mem_cons_of_mem x List.mem_cons_self))
      obtain ⟨⟨k,hk⟩,hfailed⟩ := refusal_iff.mp hx.2
      obtain ⟨⟨l,hl⟩,hfailed'⟩ := refusal_iff.mp hy.2
      obtain ⟨hclient,rfl⟩ := refusal_once inv hm hx.1 hy.1 hk hl hfailed hfailed'
      -- the request would be answered twice
      have htwice : [k,k].Sublist (s.host.repliesTo x.client) := by
        have hreplies := (hsub.filter (·.client = x.client)).filterMap Sent.reply
        rw [Host.repliesTo, Host.sentTo]
        simpa [hclient, hk, hl] using hreplies
      exact absurd ((answered x.client).sublist htwice) (by simp)

theorem answered_le (inv : Refused p) (reg : sv.Registered p) (hm : Mirrors sv s origin p)
    (asked : Finset (Nat × Nat)) (answered : ∀ q ∈ asked, q.2 ∈ s.host.repliesTo q.1) :
    asked.card ≤ (asked.image (sv.idOf s.host)).card + 1 := by
  have answer : ∀ q ∈ asked, ∃ x ∈ s.host.sent, x.client = q.1 ∧ x.reply = some q.2 := by
    intro q hq
    obtain ⟨x,hx,hreply⟩ := List.mem_filterMap.mp (answered q hq)
    obtain ⟨hx,hclient⟩ := List.mem_filter.mp hx
    exact ⟨x,hx,of_decide_eq_true hclient,hreply⟩
  refine card_le_image_succ (sv.idOf s.host) (fun q => ∃ x ∈ s.host.sent, x.client = q.1 ∧
    x.reply = some q.2 ∧ x.msg.header.id = .kFailed) ?_ ?_
  · rintro ⟨c,k⟩ - ⟨c',l⟩ - ⟨x,hx,rfl,hk,hfailed⟩ ⟨y,hy,rfl,hl,hfailed'⟩
    obtain ⟨hclient,rfl⟩ := refusal_once inv hm hx hy hk hl hfailed hfailed'
    exact Prod.ext hclient rfl
  · rintro ⟨c,k⟩ hq ⟨c',l⟩ hq' hgranted hgranted' hid
    obtain ⟨x,hx,rfl,hk⟩ := answer _ hq
    obtain ⟨y,hy,rfl,hl⟩ := answer _ hq'
    obtain ⟨i,call,horigin,hcall,-⟩ := hm.answers x hx k hk
    obtain ⟨j,call',horigin',hcall',-⟩ := hm.answers y hy l hl
    obtain ⟨-,hrequest⟩ := hm.requested i _ _ call horigin hcall
    obtain ⟨-,hrequest'⟩ := hm.requested j _ _ call' horigin' hcall'
    simp only [idOf, hrequest, hrequest', Option.map_some, Option.some.injEq] at hid
    obtain ⟨hclient,rfl⟩ := granted_apart reg hm hx hy hk hl hrequest hrequest'
      (fun h => hgranted ⟨x,hx,rfl,hk,by rw [h]; rfl⟩)
      (fun h => hgranted' ⟨y,hy,rfl,hl,by rw [h]; rfl⟩) hid
    exact Prod.ext hclient rfl

end Answers

def Asked (h : Host NetMsgType) (q : Nat × Nat) : Prop :=
  ∃ m, (h.requests q.1)[q.2]? = some ⟨some q.1,m⟩ ∧ m.header.id = .kSeckeyAgree

/-- In every interleaving the whole server turns down one request at most. As long as every write
of a key file creates the file, the requests that have been answered, or any of them, are one more
at most than the client ids they name; and when the workers have no step left, so are all that
have come in, unless an exception has ended the process. -/
theorem refused_once {now : Nat → UInt64} {w : World} {es : List ServiceEvent} {s : Service K}
    (run : exec sv.serviceStep (.start now w) es = some s) :
    s.host.sent.countP refusal ≤ 1 ∧
    (Meets sv.serviceStep (fun s ev => sv.serviceCreates s ev = true) (.start now w) es →
      (∀ asked : Finset (Nat × Nat), (∀ q ∈ asked, q.2 ∈ s.host.repliesTo q.1) →
        asked.card ≤ (asked.image (sv.idOf s.host)).card + 1) ∧
      ((∀ ev, ofWorkers ev = true → sv.serviceStep s ev = none) → s.ended = true ∨
        ∀ asked : Finset (Nat × Nat), (∀ q ∈ asked, Asked s.host q) →
          asked.card ≤ (asked.image (sv.idOf s.host)).card + 1)) := by
  have hinv := serviceInv_run run
  constructor
  · obtain ⟨ps,p,origin,hrun,hm⟩ := pool_beside run
    exact refusals_le (refused_run hrun) hm fun c =>
      (hinv.replies.request.once c).of_append_left
  · intro meets
    obtain ⟨ps,p,hmeets,hrun,origin,hm⟩ := mirrors_run
      (fun s ev => sv.serviceCreates s ev = true) (fun p e => sv.creates p e = true)
      (fun _ _ _ _ hc h => h hc) meets run
    have bounded := answered_le (refused_run hrun) (registered_run hmeets hrun) hm
    refine ⟨bounded,fun hstuck => ?_⟩
    cases hlive : s.ended with
    | true => exact .inl rfl
    | false =>
      -- the workers have no step left, so every request has been answered
      have hsettled : Settled s.host := by
        refine hinv.accounted.settled ?_
        by_contra htasks
        obtain ⟨ev,hev,henabled⟩ := worker_enabled hinv hlive htasks
        rw [hstuck ev hev] at henabled
        cases henabled
      refine .inr fun asked hasked => bounded asked fun q hq => ?_
      obtain ⟨m,hrequest,hid⟩ := hasked q hq
      exact hsettled.2 q.1 q.2 m hrequest hid

def againSteps : List ServiceEvent :=
  [.host (.io 0 (.readDone .header [0,0,0,0,179,1,0,0])),
    .host (.io 0 (.readDone (.body 435) ownRequest.body)), .host .consumer, .host (.update 1 true),
    .host .consumer, .host .consumer, .host .consumer, .host .consumer, .start ownRequest.random]

def thirdSteps : List ServiceEvent :=
  requestSteps ++ [.work 0,.work 0,.work 0,.work 0] ++ againSteps ++ [.work 1,.work 1,.work 1] ++
    againSteps ++ [.work 2,.work 2]

theorem refused_once_third :
    ∃ s, exec oneKey.serviceStep (.start (fun _ => 5) emptyStore) thirdSteps = some s ∧
      s.host.repliesTo 0 = [0,1] ∧ s.ended = true ∧ s.host.sent.countP refusal ≤ 1 ∧
      ({(0,0),(0,1)} : Finset (Nat × Nat)).card ≤
        (({(0,0),(0,1)} : Finset (Nat × Nat)).image (oneKey.idOf s.host)).card + 1 := by
  have hmeets : Meets oneKey.serviceStep (fun s ev => oneKey.serviceCreates s ev = true)
      (.start (fun _ => 5) emptyStore) thirdSteps := by decide +kernel
  have hrun : (exec oneKey.serviceStep (.start (fun _ => 5) emptyStore) thirdSteps).map
      (fun s => (s.host.repliesTo 0,s.ended)) = some ([0,1],true) := by decide +kernel
  obtain ⟨s,run,hs⟩ := Option.map_eq_some_iff.mp hrun
  obtain ⟨hreplies,hended⟩ := Prod.mk.inj hs
  obtain ⟨hrefused,hbounded⟩ := refused_once run
  refine ⟨s,run,hreplies,hended,hrefused,(hbounded hmeets).1 _ fun q hq => ?_⟩
  rw [Finset.mem_insert, Finset.mem_singleton] at hq
  obtain rfl | rfl := hq <;> simp [hreplies]

end Server

end TransmissionPlatform.Platform
