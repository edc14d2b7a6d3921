import TransmissionPlatform.Platform.Refusals

/-!
One process after another on the same directory. A process ends with an exception or is killed,
in the middle of whatever its workers do; the next one finds the files, and nothing else. A key
file that is there when a process starts stays as it is in every process from then on, and no
request for it is granted again. So do the keys of the server itself, which `main` makes where one
of them is missing, though the id of a client may lead to their files. What changes with every
process are its log, `log/server`, and the files of the day that `main` reports an exception to.
-/

set_option autoImplicit false

namespace TransmissionPlatform.Platform
open PosixPath Net Program StepSystem

def Phase.barred {K : Type} : Phase K → Bool
  | queued | started | nameTaken | rejected | thrown _ => true
  | _ => false

namespace Server
variable {K : Type} {sv : Server K}

/-- The file holds the data, and no call for its name gets past the test for it. -/
structure Taken (sv : Server K) (loc : Location) (data : List UInt8) (p : Pool K) : Prop where
  content : p.world.files loc = some data
  barred : ∀ (i : Nat) (c : Call K), p.calls[i]? = some c →
    sv.tree.resolve (sv.keyName c.request.msg) = some loc → c.phase.barred = true

section Taken
variable {loc : Location} {data : List UInt8} {r : Request} {w : World} {phase : Phase K}
  {p q : Pool K} {i : Nat}

theorem ofstream_elsewhere {path text : List UInt8} (hne : sv.fileAt path ≠ some loc) :
    (sv.ofstream path text w).files loc = w.files loc := by
  unfold ofstream
  cases hfile : sv.fileAt path with
  | none => rfl
  | some loc' => exact Function.update_of_ne (fun h => hne (hfile.trans (congrArg some h.symm))) _ _

theorem remove_elsewhere {path : List UInt8} (hne : sv.tree.resolve path ≠ some loc) :
    (sv.remove path w).files loc = w.files loc := by
  unfold remove
  cases hfile : sv.tree.resolve path with
  | none => rfl
  | some loc' => exact Function.update_of_ne (fun h => hne (hfile.trans (congrArg some h.symm))) _ _

theorem moves_elsewhere {phase' : Phase K} {w' : World} (hlog : sv.fileAt logPath ≠ some loc)
    (hne : sv.tree.resolve (sv.keyName r.msg) ≠ some loc) (moves : Moves sv r w phase phase' w') :
    w'.files loc = w.files loc := by
  cases moves with
  | aside holds hasKey off => exact off loc hlog
  | write => exact ofstream_elsewhere fun h => hne (resolve_of_fileAt h)
  | verify good => rfl
  | encrypt same => rw [same]
  | remove => exact remove_elsewhere hne

theorem advance_barred (hlog : sv.fileAt logPath ≠ some loc) (hdata : w.files loc = some data)
    (hname : sv.tree.resolve (sv.keyName r.msg) = some loc) (hbarred : phase.barred = true)
    (running : phase.running = true) :
    (sv.advance r phase w).2.files loc = some data ∧ (sv.advance r phase w).1.barred = true := by
  cases phase with
  | started =>
    cases hstat : sv.statFails (sv.keyName r.msg) with
    | true =>
      rw [advance_error (bind_error (exists_error hstat))]
      exact ⟨hdata,rfl⟩
    | false =>
      have hpresent : sv.present (sv.keyName r.msg) w = true := by
        simp [present, hname, hdata]
      rw [advance_ok (sv.callStep_started r w hstat), hpresent]
      exact ⟨hdata,rfl⟩
  | nameTaken =>
    have hoff := logWarn_offLog sv "签名校验失败, 已经有同名密钥" w loc hlog
    have hstep := sv.callStep_nameTaken r w
    cases hrun : sv.logWarn "签名校验失败, 已经有同名密钥" w with
    | error e w' =>
      rw [hrun] at hoff hstep
      rw [advance_error hstep]
      exact ⟨hoff.trans hdata,rfl⟩
    | ok u w' =>
      rw [hrun] at hoff hstep
      rw [advance_ok hstep]
      exact ⟨hoff.trans hdata,rfl⟩
  | queued => cases running
  | rejected => cases running
  | thrown e => cases running
  | _ => cases hbarred

theorem taken_post (inv : sv.Taken loc data p) (h : sv.poolStep p (.post r) = some q) :
    sv.Taken loc data q := by
  obtain rfl := poolStep_post h
  refine ⟨inv.content,fun j c hj hname => ?_⟩
  obtain hj | rfl := getElem?_concat_cases hj
  · exact inv.barred j c hj hname
  · rfl

theorem taken_start (inv : sv.Taken loc data p) (h : sv.poolStep p (.start i) = some q) :
    sv.Taken loc data q := by
  obtain ⟨r,hcall,rfl⟩ := poolStep_start h
  refine ⟨inv.content,fun j c hj hname => ?_⟩
  obtain ⟨-,rfl⟩ | ⟨-,hj⟩ := getElem?_set_cases hj
  · rfl
  · exact inv.barred j c hj hname

theorem taken_step (hlog : sv.fileAt logPath ≠ some loc) (inv : sv.Taken loc data p)
    (h : sv.poolStep p (.step i) = some q) : sv.Taken loc data q := by
  obtain ⟨r,phase,hcall,running,rfl⟩ := poolStep_advance h
  by_cases hname : sv.tree.resolve (sv.keyName r.msg) = some loc
  · obtain ⟨hdata,hbarred⟩ := advance_barred (w := p.world) hlog inv.content hname
      (inv.barred i ⟨r,phase⟩ hcall hname) running
    refine ⟨hdata,fun j c hj hname' => ?_⟩
    obtain ⟨-,rfl⟩ | ⟨-,hj⟩ := getElem?_set_cases hj
    · exact hbarred
    · exact inv.barred j c hj hname'
  · refine ⟨(moves_elsewhere hlog hname (moves_advance running)).trans inv.content,
      fun j c hj hname' => ?_⟩
    obtain ⟨-,rfl⟩ | ⟨-,hj⟩ := getElem?_set_cases hj
    · exact absurd hname' hname
    · exact inv.barred j c hj hname'

theorem taken_run {es : List PoolEvent} (hlog : sv.fileAt logPath ≠ some loc)
    (hdata : w.files loc = some data) (run : exec sv.poolStep ⟨w,[]⟩ es = some p) :
    sv.Taken loc data p := by
  refine exec_invariant (fun t e u inv hstep => ?_) ⟨hdata,by simp⟩ run
  cases e with
  | post r => exact taken_post inv hstep
  | start i => exact taken_start inv hstep
  | step i => exact taken_step hlog inv hstep

/-- Every answer to a request whose key file the file would be turns the request down. -/
def Refuses (sv : Server K) (loc : Location) (s : Service K) : Prop :=
  ∀ x ∈ s.host.sent, ∀ k m, x.reply = some k →
    (s.host.requests x.client)[k]? = some ⟨some x.client,m⟩ →
    sv.tree.resolve (sv.keyName m) = some loc → x.msg = failedMsg

/-- In a whole server the file stays as well, and requests for it are turned down. -/
theorem taken_service {now : Nat → UInt64} {es : List ServiceEvent} {s : Service K}
    (hlog : sv.fileAt logPath ≠ some loc) (hdata : w.files loc = some data)
    (run : exec sv.serviceStep (.start now w) es = some s) :
    s.world.files loc = some data ∧ sv.Refuses loc s := by
  obtain ⟨ps,p,origin,hrun,hm⟩ := pool_beside run
  have inv := taken_run hlog hdata hrun
  refine ⟨by rw [← hm.alike.1]; exact inv.content,fun x hx k m hk hrequest hname => ?_⟩
  obtain ⟨j,call,horigin,hcall,hanswer⟩ := hm.answers x hx k hk
  obtain ⟨-,hrequest'⟩ := hm.requested j _ _ call horigin hcall
  cases hrequest.symm.trans hrequest'
  have hbarred := inv.barred j call hcall hname
  cases hanswer with
  | failed _ failed => exact failed
  | granted phase _ _ =>
    rw [phase] at hbarred
    cases hbarred

end Taken

def pubKeyPath : List UInt8 := ascii "server_pubkey.pem"

def priKeyPath : List UInt8 := ascii "server_prikey.pem"

/-- A date, as the daily sink of spdlog puts it into the name of its file. -/
structure Day where
  year : Nat
  month : Nat
  day : Nat
  deriving DecidableEq, Repr

/-- `{:0width}`. -/
def padded (width n : Nat) : List UInt8 :=
  ((Nat.toDigits 10 n).leftpad width '0').map fun c => UInt8.ofNat c.toNat

def Day.text (d : Day) : List UInt8 :=
  ascii "_" ++ padded 4 d.year ++ ascii "-" ++ padded 2 d.month ++ ascii "-" ++ padded 2 d.day

/-- The file of `daily_logger_mt("int main logger", "log/int_main")` on a day. -/
def mainLogPath (d : Day) : List UInt8 := ascii "log/int_main" ++ d.text

section Main
variable (sv : Server K)

/-- 只要一个密钥不存在就重新生成. -/
def keysMissing : Action Bool := do
  if ← sv.exists_ pubKeyPath then
    return !(← sv.exists_ priKeyPath)
  return true

/-- `SaveRSAKey` on the two files as far as it has come. A file without a text was not opened. -/
def saved (pub pri : Option (List UInt8)) (w : World) : World :=
  let w := pub.elim w fun text => sv.ofstream pubKeyPath text w
  pri.elim w fun text => sv.ofstream priKeyPath text w

def keyPair (pub pri : Option (List UInt8)) : Action Unit := do
  if ← sv.keysMissing then
    modify (sv.saved pub pri)

/-- One process, until it ends or is killed: what it puts into the files of the server's own keys
if it comes to that, its clock, the steps of its server, and what the handlers of `main` report. -/
structure Life where
  -- any texts, so that a process that is killed while it writes them is one of these
  pub : Option (List UInt8)
  pri : Option (List UInt8)
  now : Nat → UInt64
  events : List ServiceEvent
  -- nothing, if no exception ends the process; around midnight the sink goes on to another file
  report : List (Day × List UInt8)

/-- What the process finds: the files, an empty registry, and nothing sent. -/
def restarted (w : World) : World := { files := w.files }

def live (w : World) (life : Life) : Option (Service K) :=
  match sv.keyPair life.pub life.pri (restarted w) with
  | .ok _ w' => exec sv.serviceStep (.start life.now w') life.events
  | .error _ _ => none

/-- What the daily sink does on a day. Without the file it throws, and nothing is reported. -/
def logMain (d : Day) (text : List UInt8) (w : World) : World :=
  match sv.fileAt (mainLogPath d) with
  | none => w
  | some loc => append loc text w

def reported (report : List (Day × List UInt8)) (w : World) : World :=
  report.foldl (fun w r => sv.logMain r.1 r.2 w) w

/-- The server is gone when the handlers run. -/
def lifeStep (w : World) (life : Life) : Option World :=
  match sv.keyPair life.pub life.pri (restarted w) with
  | .ok _ _ => (sv.live w life).map fun s => sv.reported life.report s.world
  | .error _ w' => some (sv.reported life.report w')

end Main

section Bootstrap
variable {w : World} {pub pri : Option (List UInt8)}

def HasPair (sv : Server K) (w : World) : Prop :=
  sv.present pubKeyPath w = true ∧ sv.present priKeyPath w = true

theorem keyPair_cases (sv : Server K) (pub pri : Option (List UInt8)) (w : World) :
    sv.keyPair pub pri w = .error .filesystem_error w ∨
    (sv.HasPair w ∧ sv.keyPair pub pri w = .ok () w) ∨
    (¬ sv.HasPair w ∧ sv.keyPair pub pri w = .ok () (sv.saved pub pri w)) := by
  have branch : ∀ missing, sv.keysMissing w = .ok missing w →
      sv.keyPair pub pri w = .ok () (if missing then sv.saved pub pri w else w) := by
    intro missing h
    refine (bind_ok h).trans ?_
    cases missing <;> rfl
  cases hpub : sv.statFails pubKeyPath with
  | true => exact .inl (bind_error (bind_error (exists_error hpub)))
  | false =>
    have hfirst := exists_ok (w := w) hpub
    cases hthere : sv.present pubKeyPath w with
    | false =>
      rw [hthere] at hfirst
      exact .inr (.inr ⟨fun h => by simp [HasPair, hthere] at h,branch true (bind_ok hfirst)⟩)
    | true =>
      rw [hthere] at hfirst
      cases hpri : sv.statFails priKeyPath with
      | true => exact .inl (bind_error ((bind_ok hfirst).trans (bind_error (exists_error hpri))))
      | false =>
        have hmissing : sv.keysMissing w = .ok (!sv.present priKeyPath w) w :=
          (bind_ok hfirst).trans (bind_ok (exists_ok hpri))
        have hkeys := branch _ hmissing
        cases hthere' : sv.present priKeyPath w with
        | true =>
          rw [hthere'] at hkeys
          exact .inr (.inl ⟨⟨hthere,hthere'⟩,hkeys⟩)
        | false =>
          rw [hthere'] at hkeys
          exact .inr (.inr ⟨fun h => by simp [HasPair, hthere'] at h,hkeys⟩)

theorem keyPair_error {e : Failure} {w' : World} (h : sv.keyPair pub pri w = .error e w') :
    w' = w := by
  obtain hfailed | ⟨-,hok⟩ | ⟨-,hok⟩ := sv.keyPair_cases pub pri w
  · rw [hfailed] at h
    cases h
    rfl
  · rw [hok] at h
    cases h
  · rw [hok] at h
    cases h

theorem fileAt_inLog {name : List UInt8} {loc : Location} (hname : Plain name)
    (h : sv.fileAt (ascii "log" ++ slash :: name) = some loc) :
    loc = sv.tree.cwd ++ [ascii "log",name] := by
  have hdir : Ordinary (ascii "log") := by constructor <;> decide
  have hloc := resolve_of_fileAt h
  rw [resolve_entry sv.tree hdir hname sv.log_dir (by decide)] at hloc
  split at hloc
  · exact (Option.some.inj hloc).symm
  · cases hloc

theorem fileAt_logPath {loc : Location} (h : sv.fileAt logPath = some loc) :
    loc = sv.tree.cwd ++ [ascii "log",ascii "server"] :=
  fileAt_inLog (by decide) h

theorem not_mem_padded {width n : Nat} {b : UInt8} (hb : b.toNat < 48) : b ∉ padded width n := by
  intro h
  obtain ⟨c,hc,rfl⟩ := List.mem_map.mp h
  have hdigit : c.isDigit = true := by
    obtain hc | hc := List.mem_append.mp hc
    · obtain ⟨-,rfl⟩ := List.mem_replicate.mp hc
      rfl
    · exact Nat.isDigit_of_mem_toDigits (by decide) (by decide) hc
  obtain ⟨hlow,hhigh⟩ := Char.isDigit_iff_toNat.mp hdigit
  have hlow : 48 ≤ c.toNat := hlow
  have hhigh : c.toNat ≤ 57 := hhigh
  have hbyte : (UInt8.ofNat c.toNat).toNat = c.toNat :=
    UInt8.toNat_ofNat_of_lt (Nat.lt_of_le_of_lt hhigh (by decide))
  omega

theorem plain_int_main (d : Day) : Plain (ascii "int_main" ++ d.text) := by
  have hno : ∀ b : UInt8, b.toNat < 48 → b ∉ ascii "int_main" → b ∉ ascii "_" → b ∉ ascii "-" →
      b ∉ ascii "int_main" ++ d.text := by
    intro b hb hname hline hdash
    simp only [Day.text, List.mem_append, not_or]
    exact ⟨hname,⟨⟨⟨⟨hline,not_mem_padded hb⟩,hdash⟩,not_mem_padded hb⟩,hdash⟩,not_mem_padded hb⟩
  have hlen : 3 ≤ (ascii "int_main" ++ d.text).length :=
    Nat.le_trans (by decide : 3 ≤ (ascii "int_main").length) (by simp)
  refine ⟨?_,?_,?_,hno slash (by decide) (by decide) (by decide) (by decide),
    hno 0 (by decide) (by decide) (by decide) (by decide)⟩
  · exact fun h => absurd (h ▸ hlen) (by decide)
  · exact fun h => absurd (h ▸ hlen) (by decide)
  · exact fun h => absurd (h ▸ hlen) (by decide)

theorem fileAt_mainLogPath {d : Day} {loc : Location} (h : sv.fileAt (mainLogPath d) = some loc) :
    loc = sv.tree.cwd ++ [ascii "log",ascii "int_main" ++ d.text] :=
  fileAt_inLog (plain_int_main d) h

theorem ordinary_pubKeyPath : Ordinary pubKeyPath := by
  constructor <;> decide

theorem ordinary_priKeyPath : Ordinary priKeyPath := by
  constructor <;> decide

theorem fileAt_entry {name : List UInt8} {loc : Location} (hname : Ordinary name)
    (h : sv.fileAt name = some loc) : loc = sv.tree.cwd ++ [name] :=
  Option.some.inj ((resolve_of_fileAt h).symm.trans (resolve_name sv.tree hname))

theorem logPath_ne_entry (sv : Server K) (name : List UInt8) :
    sv.fileAt logPath ≠ some (sv.tree.cwd ++ [name]) := by
  intro h
  have := congrArg List.length (fileAt_logPath h)
  simp at this

theorem mainLogPath_ne_entry (sv : Server K) (name : List UInt8) (d : Day) :
    sv.fileAt (mainLogPath d) ≠ some (sv.tree.cwd ++ [name]) := by
  intro h
  have := congrArg List.length (fileAt_mainLogPath h)
  simp at this

theorem reported_elsewhere {loc : Location} (hmain : ∀ d, sv.fileAt (mainLogPath d) ≠ some loc)
    (report : List (Day × List UInt8)) (w : World) :
    (sv.reported report w).files loc = w.files loc := by
  induction report generalizing w with
  | nil => rfl
  | cons r report ih =>
    refine (ih (sv.logMain r.1 r.2 w)).trans ?_
    unfold logMain
    cases hfile : sv.fileAt (mainLogPath r.1) with
    | none => rfl
    | some loc' =>
      refine Function.update_of_ne ?_ _ _
      rintro rfl
      exact hmain r.1 hfile

theorem present_reported {name : List UInt8} (hname : Ordinary name)
    (report : List (Day × List UInt8)) (w : World) :
    sv.present name (sv.reported report w) = sv.present name w := by
  simp only [present, resolve_name sv.tree hname,
    reported_elsewhere (fun d => mainLogPath_ne_entry sv name d)]

theorem present_service {name : List UInt8} {now : Nat → UInt64} {es : List ServiceEvent}
    {s : Service K} (hname : Ordinary name) (h : sv.present name w = true)
    (run : exec sv.serviceStep (.start now w) es = some s) : sv.present name s.world = true := by
  simp only [present, resolve_name sv.tree hname, Bool.or_eq_true] at h ⊢
  refine h.imp_left fun hsome => ?_
  obtain ⟨data,hdata⟩ := Option.isSome_iff_exists.mp hsome
  rw [(taken_service (logPath_ne_entry sv name) hdata run).1]
  rfl

theorem hasPair_service {now : Nat → UInt64} {es : List ServiceEvent} {s : Service K}
    (h : sv.HasPair w) (run : exec sv.serviceStep (.start now w) es = some s) :
    sv.HasPair s.world :=
  ⟨present_service ordinary_pubKeyPath h.1 run,present_service ordinary_priKeyPath h.2 run⟩

end Bootstrap

/-- The file holds the data, and it is no business of `main`. -/
structure Kept (sv : Server K) (loc : Location) (data : List UInt8) (w : World) : Prop where
  content : w.files loc = some data
  settled : (sv.fileAt pubKeyPath ≠ some loc ∧ sv.fileAt priKeyPath ≠ some loc) ∨ sv.HasPair w

section Kept
variable {loc : Location} {data : List UInt8} {w v w' : World} {life : Life} {s : Service K}

theorem saved_elsewhere (hpub : sv.fileAt pubKeyPath ≠ some loc)
    (hpri : sv.fileAt priKeyPath ≠ some loc) (pub pri : Option (List UInt8)) (w : World) :
    (sv.saved pub pri w).files loc = w.files loc := by
  cases pub <;> cases pri <;> simp [saved, ofstream_elsewhere hpub, ofstream_elsewhere hpri]

theorem kept_keyPair {pub pri : Option (List UInt8)} (h : sv.Kept loc data w)
    (hrun : sv.keyPair pub pri (restarted w) = .ok () w') : sv.Kept loc data w' := by
  obtain hfailed | ⟨-,hsame⟩ | ⟨hmissing,hsaved⟩ := sv.keyPair_cases pub pri (restarted w)
  · rw [hfailed] at hrun
    cases hrun
  · rw [hsame] at hrun
    cases hrun
    exact ⟨h.content,h.settled⟩
  · rw [hsaved] at hrun
    cases hrun
    obtain ⟨hpub,hpri⟩ | hpair := h.settled
    · exact ⟨(saved_elsewhere hpub hpri pub pri _).trans h.content,.inl ⟨hpub,hpri⟩⟩
    · exact absurd hpair hmissing

theorem live_cases (h : sv.live w life = some s) :
    ∃ w', sv.keyPair life.pub life.pri (restarted w) = .ok () w' ∧
      exec sv.serviceStep (.start life.now w') life.events = some s := by
  unfold live at h
  split at h
  · rename_i w' hkeys
    exact ⟨w',hkeys,h⟩
  · cases h

theorem kept_service {now : Nat → UInt64} {es : List ServiceEvent}
    (hlog : sv.fileAt logPath ≠ some loc) (h : sv.Kept loc data w)
    (run : exec sv.serviceStep (.start now w) es = some s) : sv.Kept loc data s.world :=
  ⟨(taken_service hlog h.content run).1,h.settled.imp_right fun hpair => hasPair_service hpair run⟩

theorem kept_live (hlog : sv.fileAt logPath ≠ some loc) (h : sv.Kept loc data w)
    (hlive : sv.live w life = some s) : sv.Kept loc data s.world := by
  obtain ⟨w',hkeys,run⟩ := live_cases hlive
  exact kept_service hlog (kept_keyPair h hkeys) run

theorem kept_reported (hmain : ∀ d, sv.fileAt (mainLogPath d) ≠ some loc) (h : sv.Kept loc data w)
    (report : List (Day × List UInt8)) : sv.Kept loc data (sv.reported report w) := by
  refine ⟨(reported_elsewhere hmain report w).trans h.content,h.settled.imp_right fun hpair => ?_⟩
  exact ⟨(present_reported ordinary_pubKeyPath report w).trans hpair.1,
    (present_reported ordinary_priKeyPath report w).trans hpair.2⟩

theorem kept_lifeStep (hlog : sv.fileAt logPath ≠ some loc)
    (hmain : ∀ d, sv.fileAt (mainLogPath d) ≠ some loc) (h : sv.Kept loc data w)
    (hstep : sv.lifeStep w life = some v) : sv.Kept loc data v := by
  unfold lifeStep at hstep
  split at hstep
  · obtain ⟨s,hlive,rfl⟩ := Option.map_eq_some_iff.mp hstep
    exact kept_reported hmain (kept_live hlog h hlive) life.report
  · rename_i e w' hfailed
    cases hstep
    rw [keyPair_error hfailed]
    exact kept_reported hmain (w := restarted w) ⟨h.content,h.settled⟩ life.report

theorem kept_lives {lives : List Life} (hlog : sv.fileAt logPath ≠ some loc)
    (hmain : ∀ d, sv.fileAt (mainLogPath d) ≠ some loc) (h : sv.Kept loc data w)
    (run : exec sv.lifeStep w lives = some v) : sv.Kept loc data v :=
  exec_invariant (fun _ _ _ => kept_lifeStep hlog hmain) h run

theorem kept_refuses (hlog : sv.fileAt logPath ≠ some loc) (h : sv.Kept loc data w)
    (hlive : sv.live w life = some s) : sv.Refuses loc s := by
  obtain ⟨w',hkeys,run⟩ := live_cases hlive
  exact (taken_service hlog (kept_keyPair h hkeys).content run).2

/-- A file that is neither a log nor, as long as one of them is missing, of the server's own
keys outlives every process: through any number of restarts, whatever each process was doing when
it ended, it keeps its data, and no process grants a request whose key file it would be. -/
theorem files_outlive {lives : List Life} (hlog : sv.fileAt logPath ≠ some loc)
    (hmain : ∀ d, sv.fileAt (mainLogPath d) ≠ some loc) (hdata : w.files loc = some data)
    (hsettled : (sv.fileAt pubKeyPath ≠ some loc ∧ sv.fileAt priKeyPath ≠ some loc) ∨ sv.HasPair w)
    (run : exec sv.lifeStep w lives = some v) :
    v.files loc = some data ∧
    ∀ life s, sv.live v life = some s → s.world.files loc = some data ∧
      ∀ x ∈ s.host.sent, ∀ k m, x.reply = some k →
        (s.host.requests x.client)[k]? = some ⟨some x.client,m⟩ →
        sv.tree.resolve (sv.keyName m) = some loc → x.msg = failedMsg := by
  have hkept := kept_lives hlog hmain ⟨hdata,hsettled⟩ run
  exact ⟨hkept.content,fun life s hlive =>
    ⟨(kept_live hlog hkept hlive).content,kept_refuses hlog hkept hlive⟩⟩

def rooted : Server (List UInt8) :=
  { oneKey with
    tree := ⟨[ascii "srv"],fun loc => decide (loc ∈ [[],[ascii "srv"],
      [ascii "srv",ascii "seckey"],[ascii "srv",ascii "log"]])⟩
    log_dir := by decide }

def oneRequest (steps : Nat) : Life :=
  ⟨some (ascii "pub"),some (ascii "pri"),fun _ => 5,requestSteps ++ List.replicate steps (.work 0),[]⟩

def portTaken : Life :=
  ⟨none,none,fun _ => 5,[],[(⟨2024,5,17⟩,ascii "bind: Address already in use")]⟩

def clientFile : Location := [ascii "srv",ascii "seckey",ascii "c_pubkey.pem"]

theorem files_outlive_granted :
    ∃ s v, rooted.live emptyStore (oneRequest 4) = some s ∧
      exec rooted.lifeStep s.world [portTaken,oneRequest 3] = some v ∧
      v.files clientFile = some ownKey ∧
      ∃ t x, rooted.live v (oneRequest 3) = some t ∧ x ∈ t.host.sent ∧ x.reply = some 0 ∧
        x.msg = failedMsg := by
  have hrun : ((rooted.live emptyStore (oneRequest 4)).bind fun s =>
      (exec rooted.lifeStep s.world [portTaken,oneRequest 3]).bind fun v =>
        (rooted.live v (oneRequest 3)).map fun t => (s.world.files clientFile,
          t.host.sent.map fun x => (x.client,x.reply),t.host.requests 0)) =
      some (some ownKey,[(0,some 0)],[⟨some 0,ownRequest.msg⟩]) := by decide +kernel
  obtain ⟨s,first,hnext⟩ := Option.bind_eq_some_iff.mp hrun
  obtain ⟨v,run,hlast⟩ := Option.bind_eq_some_iff.mp hnext
  obtain ⟨t,hlive,ht⟩ := Option.map_eq_some_iff.mp hlast
  obtain ⟨hdata,ht⟩ := Prod.mk.inj ht
  obtain ⟨hsent,hrequests⟩ := Prod.mk.inj ht
  have hmain : ∀ d, rooted.fileAt (mainLogPath d) ≠ some clientFile := by
    intro d h
    have hlast := fileAt_mainLogPath h
    simp only [clientFile, rooted, List.cons_append, List.nil_append, List.cons.injEq] at hlast
    exact absurd hlast.2.1 (by decide)
  obtain ⟨hkept,hlater⟩ := files_outlive (by decide +kernel) hmain hdata
    (.inl ⟨by decide +kernel,by decide +kernel⟩) run
  obtain ⟨⟨c,msg,r⟩,hx,hlast⟩ := List.map_eq_singleton_iff.mp hsent
  cases hlast
  have hmem : ⟨0,msg,some 0⟩ ∈ t.host.sent := by rw [hx]; exact List.mem_singleton_self _
  refine ⟨s,v,first,run,hkept,t,⟨0,msg,some 0⟩,hlive,hmem,rfl,?_⟩
  exact (hlater _ t hlive).2 _ hmem 0 ownRequest.msg rfl (by rw [hrequests]; rfl)
    (by decide +kernel)

theorem file_of_present {path : List UInt8} (hfile : sv.fileAt path = some loc)
    (h : sv.present path w = true) : ∃ text, w.files loc = some text := by
  obtain ⟨hloc,hdir⟩ := Option.filter_eq_some_iff.mp hfile
  rw [Bool.not_eq_true'] at hdir
  rw [present, hloc] at h
  simp only [hdir, Bool.or_false] at h
  exact Option.isSome_iff_exists.mp h

theorem present_of_file {path text : List UInt8} (hfile : sv.fileAt path = some loc)
    (h : w.files loc = some text) : sv.present path w = true := by
  rw [present, resolve_of_fileAt hfile]
  simp [h]

section Pair
variable {a b : Location} {text text' : List UInt8}

theorem pair_keyPair (hpub : sv.fileAt pubKeyPath = some a) (hpri : sv.fileAt priKeyPath = some b)
    (hrun : sv.keyPair (some text) (some text') (restarted w) = .ok () w') :
    sv.HasPair w' ∧ ∃ x y, w'.files a = some x ∧ w'.files b = some y ∧
      (sv.HasPair w → w.files a = some x ∧ w.files b = some y) ∧
      (¬ sv.HasPair w → x = text ∧ y = text') := by
  obtain hfailed | ⟨hpair,hsame⟩ | ⟨hmissing,hsaved⟩ :=
    sv.keyPair_cases (some text) (some text') (restarted w)
  · rw [hfailed] at hrun
    cases hrun
  · rw [hsame] at hrun
    cases hrun
    obtain ⟨x,hx⟩ := file_of_present hpub hpair.1
    obtain ⟨y,hy⟩ := file_of_present hpri hpair.2
    exact ⟨hpair,x,y,hx,hy,fun _ => ⟨hx,hy⟩,fun hnot => absurd hpair hnot⟩
  · rw [hsaved] at hrun
    cases hrun
    -- the second file is written last, and it is another one
    have hne : sv.fileAt priKeyPath ≠ some a := by
      rw [hpri, fileAt_entry ordinary_pubKeyPath hpub, fileAt_entry ordinary_priKeyPath hpri, ne_eq,
        Option.some.injEq, List.append_cancel_left_eq]
      decide
    have ha : (sv.saved (some text) (some text') (restarted w)).files a = some text := by
      simp only [saved, Option.elim_some]
      rw [ofstream_elsewhere hne, ofstream_of_fileAt hpub]
      exact Function.update_self ..
    have hb : (sv.saved (some text) (some text') (restarted w)).files b = some text' := by
      simp only [saved, Option.elim_some]
      rw [ofstream_of_fileAt hpri]
      exact Function.update_self ..
    exact ⟨⟨present_of_file hpub ha,present_of_file hpri hb⟩,text,text',ha,hb,
      fun hpair => absurd hpair hmissing,fun _ => ⟨rfl,rfl⟩⟩

/-- Once a process has made its server the key pair stays: in that process and in all that follow
the two files hold what they held before it, or if one was missing the texts that it has written,
complete or not, and no client gets its own key into their place. -/
theorem pair_outlives {lives : List Life} (hpub : sv.fileAt pubKeyPath = some a)
    (hpri : sv.fileAt priKeyPath = some b) (htext : life.pub = some text)
    (htext' : life.pri = some text') (first : sv.live w life = some s)
    (run : exec sv.lifeStep w (life :: lives) = some v) :
    ∃ x y, (sv.HasPair w → w.files a = some x ∧ w.files b = some y) ∧
      (¬ sv.HasPair w → x = text ∧ y = text') ∧
      v.files a = some x ∧ v.files b = some y ∧ sv.Refuses a s ∧ sv.Refuses b s ∧
      ∀ later t, sv.live v later = some t → t.world.files a = some x ∧ t.world.files b = some y ∧
        sv.Refuses a t ∧ sv.Refuses b t := by
  have hlog : sv.fileAt logPath ≠ some a :=
    fileAt_entry ordinary_pubKeyPath hpub ▸ logPath_ne_entry sv _
  have hlog' : sv.fileAt logPath ≠ some b :=
    fileAt_entry ordinary_priKeyPath hpri ▸ logPath_ne_entry sv _
  have hmain : ∀ d, sv.fileAt (mainLogPath d) ≠ some a :=
    fileAt_entry ordinary_pubKeyPath hpub ▸ mainLogPath_ne_entry sv _
  have hmain' : ∀ d, sv.fileAt (mainLogPath d) ≠ some b :=
    fileAt_entry ordinary_priKeyPath hpri ▸ mainLogPath_ne_entry sv _
  obtain ⟨w',hkeys,hserved⟩ := live_cases first
  rw [htext, htext'] at hkeys
  obtain ⟨hpair,x,y,hx,hy,hold,hnew⟩ := pair_keyPair hpub hpri hkeys
  have hkept := kept_service hlog ⟨hx,.inr hpair⟩ hserved
  have hkept' := kept_service hlog' ⟨hy,.inr hpair⟩ hserved
  obtain ⟨u,hu,run⟩ := Option.bind_eq_some_iff.mp run
  obtain rfl : sv.reported life.report s.world = u := by
    rw [lifeStep, htext, htext', hkeys, first] at hu
    exact Option.some.inj hu
  have hlast := kept_lives hlog hmain (kept_reported hmain hkept life.report) run
  have hlast' := kept_lives hlog' hmain' (kept_reported hmain' hkept' life.report) run
  refine ⟨x,y,hold,hnew,hlast.content,hlast'.content,(taken_service hlog hx hserved).2,
    (taken_service hlog' hy hserved).2,fun later t hlater => ?_⟩
  exact ⟨(kept_live hlog hlast hlater).content,(kept_live hlog' hlast' hlater).content,
    kept_refuses hlog hlast hlater,kept_refuses hlog' hlast' hlater⟩

end Pair

end Kept

def escaping : Server (List UInt8) :=
  rooted.withLibs (sample fun _ => { ownInfo with client_id := ascii "../server" }).libs

theorem pair_outlives_escaping :
    escaping.tree.resolve (escaping.keyName ownRequest.msg) =
      escaping.fileAt pubKeyPath ∧
    ∃ s v, escaping.live emptyStore (oneRequest 3) = some s ∧
      exec escaping.lifeStep emptyStore [oneRequest 3,portTaken,oneRequest 3] = some v ∧
      v.files [ascii "srv",pubKeyPath] = some (ascii "pub") ∧
      v.files [ascii "srv",priKeyPath] = some (ascii "pri") ∧
      ∃ x ∈ s.host.sent, x.reply = some 0 ∧ x.msg = failedMsg := by
  have hname : escaping.tree.resolve (escaping.keyName ownRequest.msg) =
      some [ascii "srv",pubKeyPath] := by decide +kernel
  have hpub : escaping.fileAt pubKeyPath = some [ascii "srv",pubKeyPath] := by decide +kernel
  have hpri : escaping.fileAt priKeyPath = some [ascii "srv",priKeyPath] := by decide +kernel
  have hmissing : ¬ escaping.HasPair emptyStore := by
    intro hpair
    have hnone : escaping.present pubKeyPath emptyStore = false := by decide +kernel
    exact Bool.false_ne_true (hnone.symm.trans hpair.1)
  have hrun : ((escaping.live emptyStore (oneRequest 3)).bind fun s =>
      (exec escaping.lifeStep emptyStore [oneRequest 3,portTaken,oneRequest 3]).map fun _ =>
        (s.host.sent.map fun x => (x.client,x.reply),s.host.requests 0)) =
      some ([(0,some 0)],[⟨some 0,ownRequest.msg⟩]) := by decide +kernel
  obtain ⟨s,first,hnext⟩ := Option.bind_eq_some_iff.mp hrun
  obtain ⟨v,run,hs⟩ := Option.map_eq_some_iff.mp hnext
  obtain ⟨hsent,hrequests⟩ := Prod.mk.inj hs
  obtain ⟨x,y,-,hnew,hx,hy,hrefuses,-,-⟩ := pair_outlives hpub hpri rfl rfl first run
  obtain ⟨rfl,rfl⟩ := hnew hmissing
  obtain ⟨⟨c,msg,r⟩,hlast,hsame⟩ := List.map_eq_singleton_iff.mp hsent
  cases hsame
  have hmem : ⟨0,msg,some 0⟩ ∈ s.host.sent := by rw [hlast]; exact List.mem_singleton_self _
  refine ⟨hname.trans hpub.symm,s,v,first,run,hx,hy,⟨0,msg,some 0⟩,hmem,rfl,?_⟩
  exact hrefuses _ hmem 0 ownRequest.msg rfl (by rw [hrequests]; rfl) hname

end Server

end TransmissionPlatform.Platform
