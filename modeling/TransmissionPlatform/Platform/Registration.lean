import TransmissionPlatform.Platform.Pool

/-!
The key files of the calls in the pool. A run in which every write creates its file keeps
each key file with the call that wrote it; the exists check does not see to that, since
another call may write between the check and the write.
-/

set_option autoImplicit false

namespace TransmissionPlatform.Platform
open PosixPath Net Program StepSystem

namespace Server
variable {K : Type} (sv : Server K)

/-- A write in this step creates its file, and not the log file. -/
def creates (p : Pool K) : PoolEvent → Bool
  | .step i =>
    match p.calls[i]? with
    | some ⟨r,.nameFree⟩ =>
      match sv.fileAt (sv.keyName r.msg) with
      | none => false
      | some loc => (p.world.files loc).isNone && sv.fileAt logPath != some loc
    | _ => true
  | _ => true

/-- The key objects of a call are the key in its own data, under which its signature holds. -/
def KeyOf (r : Request) : Phase K → Prop
  | .goodSign verified => verified = sv.libs.pem_read_bio_RSAPublicKey (sv.request r.msg).data ∧
      sv.checked r.msg verified = .ok true
  | .accepted verified encrypted =>
    verified = sv.libs.pem_read_bio_RSAPublicKey (sv.request r.msg).data ∧
      sv.checked r.msg verified = .ok true ∧ encrypted = verified
  | _ => True

/-- Every key file on disk has the data of its call, and no other call's. -/
structure Registered (p : Pool K) : Prop where
  content : ∀ (i : Nat) (c : Call K), p.calls[i]? = some c → c.phase.holdsFile = true →
    ∃ loc, sv.fileAt (sv.keyName c.request.msg) = some loc ∧ sv.fileAt logPath ≠ some loc ∧
      p.world.files loc = some (sv.request c.request.msg).data
  apart : ∀ (i j : Nat) (c d : Call K), p.calls[i]? = some c → p.calls[j]? = some d →
    c.phase.holdsFile = true → d.phase.holdsFile = true →
    sv.fileAt (sv.keyName c.request.msg) = sv.fileAt (sv.keyName d.request.msg) → i = j
  keys : ∀ (i : Nat) (c : Call K), p.calls[i]? = some c → sv.KeyOf c.request c.phase

theorem getElem?_set_cases {α : Type} {l : List α} {i j : Nat} {a b : α}
    (h : (l.set i a)[j]? = some b) : (j = i ∧ b = a) ∨ (j ≠ i ∧ l[j]? = some b) := by
  by_cases heq : j = i
  · subst heq
    obtain ⟨hlt,hb⟩ := List.getElem?_eq_some_iff.mp h
    exact Or.inl ⟨rfl,by simpa using hb.symm⟩
  · rw [List.getElem?_set_ne (Ne.symm heq)] at h
    exact Or.inr ⟨heq,h⟩

section Invariant
variable {sv} {p q : Pool K}

theorem keyOf_of_hasKey {r : Request} {phase : Phase K} (h : phase.hasKey = false) :
    sv.KeyOf r phase := by
  cases phase <;> trivial

theorem Registered.frame (inv : sv.Registered p)
    (holders : ∀ (j : Nat) (c : Call K), q.calls[j]? = some c → c.phase.holdsFile = true →
      ∃ d, p.calls[j]? = some d ∧ d.phase.holdsFile = true ∧ d.request = c.request)
    (files : ∀ (j : Nat) (c : Call K) (loc : Location), q.calls[j]? = some c →
      c.phase.holdsFile = true → sv.fileAt (sv.keyName c.request.msg) = some loc →
      sv.fileAt logPath ≠ some loc → q.world.files loc = p.world.files loc)
    (keys : ∀ (j : Nat) (c : Call K), q.calls[j]? = some c → sv.KeyOf c.request c.phase) :
    sv.Registered q := by
  constructor
  · intro j c hcall hholds
    obtain ⟨d,hd,hholds',hrequest⟩ := holders j c hcall hholds
    obtain ⟨loc,hloc,hoff,hdata⟩ := inv.content j d hd hholds'
    rw [hrequest] at hloc hdata
    refine ⟨loc,hloc,hoff,?_⟩
    rw [files j c loc hcall hholds hloc hoff, hdata]
  · intro j k c d hj hk hholds hholds' hsame
    obtain ⟨c',hj',hc,hrequest⟩ := holders j c hj hholds
    obtain ⟨d',hk',hd,hrequest'⟩ := holders k d hk hholds'
    rw [← hrequest, ← hrequest'] at hsame
    exact inv.apart j k c' d' hj' hk' hc hd hsame
  · exact keys

theorem holders_set {i : Nat} {r : Request} {phase phase' : Phase K}
    (hcall : p.calls[i]? = some ⟨r,phase⟩)
    (holds : phase'.holdsFile = true → phase.holdsFile = true) (j : Nat) (c : Call K)
    (h : (p.calls.set i ⟨r,phase'⟩)[j]? = some c) (hc : c.phase.holdsFile = true) :
    ∃ d, p.calls[j]? = some d ∧ d.phase.holdsFile = true ∧ d.request = c.request := by
  obtain ⟨rfl,rfl⟩ | ⟨-,hd⟩ := getElem?_set_cases h
  · exact ⟨_,hcall,holds hc,rfl⟩
  · exact ⟨c,hd,hc,rfl⟩

theorem keys_set (inv : sv.Registered p) {i : Nat} {r : Request} {phase' : Phase K}
    (key : sv.KeyOf r phase') (j : Nat) (c : Call K)
    (h : (p.calls.set i ⟨r,phase'⟩)[j]? = some c) : sv.KeyOf c.request c.phase := by
  obtain ⟨rfl,rfl⟩ | ⟨-,hd⟩ := getElem?_set_cases h
  · exact key
  · exact inv.keys j c hd

theorem registered_post (inv : sv.Registered p) {r : Request}
    (h : sv.poolStep p (.post r) = some q) : sv.Registered q := by
  obtain rfl := poolStep_post h
  have hold : ∀ (j : Nat) (c : Call K), (p.calls ++ [⟨r,.queued⟩])[j]? = some c →
      p.calls[j]? = some c ∨ c = ⟨r,.queued⟩ := by
    intro j c hj
    obtain hlt | hge := Nat.lt_or_ge j p.calls.length
    · rw [List.getElem?_append_left hlt] at hj
      exact Or.inl hj
    · rw [List.getElem?_append_right hge] at hj
      exact Or.inr (List.mem_singleton.mp (List.mem_of_getElem? hj))
  refine inv.frame ?_ (fun _ _ _ _ _ _ _ => rfl) ?_
  · intro j c hj hc
    obtain hj | rfl := hold j c hj
    · exact ⟨c,hj,hc,rfl⟩
    · simp [Phase.holdsFile] at hc
  · intro j c hj
    obtain hj | rfl := hold j c hj
    · exact inv.keys j c hj
    · trivial

theorem registered_start (inv : sv.Registered p) {i : Nat}
    (h : sv.poolStep p (.start i) = some q) : sv.Registered q := by
  obtain ⟨r,hcall,rfl⟩ := poolStep_start h
  exact inv.frame (holders_set hcall (by simp [Phase.holdsFile])) (fun _ _ _ _ _ _ _ => rfl)
    (keys_set inv trivial)

theorem creates_write {i : Nat} {r : Request} (hcall : p.calls[i]? = some ⟨r,.nameFree⟩)
    (h : sv.creates p (.step i) = true) : ∃ loc, sv.fileAt (sv.keyName r.msg) = some loc ∧
      p.world.files loc = none ∧ sv.fileAt logPath ≠ some loc := by
  simp only [creates, hcall] at h
  cases hfile : sv.fileAt (sv.keyName r.msg) with
  | none => simp [hfile] at h
  | some loc =>
    simp only [hfile, Bool.and_eq_true, Option.isNone_iff_eq_none, bne_iff_ne] at h
    exact ⟨loc,rfl,h.1,h.2⟩

/-- The write makes its call a holder: the file was not there, so it is no other holder's. -/
theorem registered_write (inv : sv.Registered p) {i : Nat} {r : Request}
    (hcall : p.calls[i]? = some ⟨r,.nameFree⟩) (h : sv.creates p (.step i) = true) :
    sv.Registered ⟨sv.written r.msg p.world,p.calls.set i ⟨r,.fileWritten⟩⟩ := by
  obtain ⟨loc,hloc,hnone,hoff⟩ := creates_write hcall h
  have hfiles : (sv.written r.msg p.world).files =
      Function.update p.world.files loc (some (sv.request r.msg).data) := by
    rw [written, ofstream_of_fileAt hloc]
  have hother : ∀ (j : Nat) (c : Call K) (l : Location), p.calls[j]? = some c →
      c.phase.holdsFile = true → sv.fileAt (sv.keyName c.request.msg) = some l → l ≠ loc := by
    rintro j c l hj hc hl rfl
    obtain ⟨l',hl',-,hdata⟩ := inv.content j c hj hc
    rw [hl, Option.some.injEq] at hl'
    rw [← hl', hnone] at hdata
    cases hdata
  constructor
  · intro j c hj hc
    obtain ⟨rfl,rfl⟩ | ⟨-,hd⟩ := getElem?_set_cases hj
    · exact ⟨loc,hloc,hoff,by simp [hfiles]⟩
    · obtain ⟨l,hl,hlog,hdata⟩ := inv.content j c hd hc
      refine ⟨l,hl,hlog,?_⟩
      simp only [hfiles, Function.update_of_ne (hother j c l hd hc hl)]
      exact hdata
  · intro j k c d hj hk hc hd hsame
    obtain ⟨rfl,rfl⟩ | ⟨hne,hj'⟩ := getElem?_set_cases hj
    · obtain ⟨rfl,-⟩ | ⟨-,hk'⟩ := getElem?_set_cases hk
      · rfl
      · exact absurd rfl (hother k d loc hk' hd (hsame.symm.trans hloc))
    · obtain ⟨rfl,rfl⟩ | ⟨-,hk'⟩ := getElem?_set_cases hk
      · exact absurd rfl (hother j c loc hj' hc (hsame.trans hloc))
      · exact inv.apart j k c d hj' hk' hc hd hsame
  · exact keys_set inv trivial

/-- The removal takes the file of its own call, which no other call holds. -/
theorem registered_remove (inv : sv.Registered p) {i : Nat} {r : Request}
    (hcall : p.calls[i]? = some ⟨r,.logged⟩) :
    sv.Registered ⟨sv.remove (sv.keyName r.msg) p.world,p.calls.set i ⟨r,.rejected⟩⟩ := by
  obtain ⟨loc,hloc,-⟩ := inv.content i _ hcall rfl
  have hfiles : (sv.remove (sv.keyName r.msg) p.world).files =
      Function.update p.world.files loc none := by
    rw [remove_of_resolve (resolve_of_fileAt hloc)]
  refine inv.frame (holders_set hcall (by simp [Phase.holdsFile])) ?_ (keys_set inv trivial)
  intro j c l hj hc hl _
  obtain ⟨rfl,rfl⟩ | ⟨hne,hd⟩ := getElem?_set_cases hj
  · simp [Phase.holdsFile] at hc
  · have hdistinct : l ≠ loc := by
      rintro rfl
      exact hne (inv.apart j i c _ hd hcall hc rfl (hl.trans hloc.symm))
    simp only [hfiles, Function.update_of_ne hdistinct]

theorem Registered.loaded (inv : sv.Registered p) {i : Nat} {c : Call K}
    (hcall : p.calls[i]? = some c) (hc : c.phase.holdsFile = true) :
    sv.myRSA (sv.keyName c.request.msg) p.world =
      sv.libs.pem_read_bio_RSAPublicKey (sv.request c.request.msg).data := by
  obtain ⟨loc,hloc,-,hdata⟩ := inv.content i c hcall hc
  rw [myRSA_of_resolve (resolve_of_fileAt hloc), hdata]
  rfl

theorem registered_step (inv : sv.Registered p) {i : Nat} (h : sv.creates p (.step i) = true)
    (hstep : sv.poolStep p (.step i) = some q) : sv.Registered q := by
  obtain ⟨r,phase,phase',w',hcall,-,hmoves,rfl⟩ := poolStep_step hstep
  cases hmoves with
  | aside holds hasKey off =>
    exact inv.frame (holders_set hcall holds) (fun _ _ loc _ _ _ hoff => off loc hoff)
      (keys_set inv (keyOf_of_hasKey hasKey))
  | write => exact registered_write inv hcall h
  | verify good =>
    have hloaded := inv.loaded hcall rfl
    exact inv.frame (holders_set hcall fun _ => rfl) (fun _ _ _ _ _ _ _ => rfl)
      (keys_set inv ⟨hloaded,good⟩)
  | encrypt same =>
    obtain ⟨hverified,good⟩ := inv.keys i _ hcall
    have hloaded := inv.loaded hcall rfl
    exact inv.frame (holders_set hcall fun _ => rfl) (fun _ _ loc _ _ _ _ => congrFun same loc)
      (keys_set inv ⟨hverified,good,hloaded.trans hverified.symm⟩)
  | remove => exact registered_remove inv hcall

theorem registered_run {w : World} {es : List PoolEvent}
    (meets : Meets sv.poolStep (fun p e => sv.creates p e = true) ⟨w,[]⟩ es)
    (run : exec sv.poolStep ⟨w,[]⟩ es = some p) : sv.Registered p := by
  refine exec_induction (I := fun _ p => sv.Registered p) ?_ ?_ meets run
  · constructor <;> simp
  · intro _ t e u inv hcreates hstep
    cases e with
    | post r => exact registered_post inv hstep
    | start i => exact registered_start inv hstep
    | step i => exact registered_step inv hcreates hstep

theorem accepted_stays {i : Nat} {c : Call K} (accepted : c.phase.isAccepted = true)
    {es : List PoolEvent} (hcall : p.calls[i]? = some c)
    (run : exec sv.poolStep p es = some q) : q.calls[i]? = some c := by
  refine exec_invariant (I := fun p => p.calls[i]? = some c) ?_ hcall run
  intro t e u ht hstep
  have kept : ∀ (j : Nat) (d : Call K), t.calls[j]? = some d → d.phase.isAccepted = false →
      ∀ d', (t.calls.set j d')[i]? = some c := by
    intro j d hj hd d'
    have hne : j ≠ i := by
      rintro rfl
      rw [ht, Option.some.injEq] at hj
      rw [hj, hd] at accepted
      cases accepted
    rw [List.getElem?_set_ne hne]
    exact ht
  cases e with
  | post r =>
    obtain rfl := poolStep_post hstep
    obtain ⟨hlt,-⟩ := List.getElem?_eq_some_iff.mp ht
    exact (List.getElem?_append_left hlt).trans ht
  | start j =>
    obtain ⟨r,hj,rfl⟩ := poolStep_start hstep
    exact kept j _ hj rfl _
  | step j =>
    obtain ⟨r,phase,phase',w',hj,running,-,rfl⟩ := poolStep_step hstep
    refine kept j _ hj ?_ _
    cases phase <;> first | rfl | simp [Phase.running] at running

theorem holdsFile_of_isAccepted {phase : Phase K} (h : phase.isAccepted = true) :
    phase.holdsFile = true := by
  cases phase <;> first | rfl | simp [Phase.isAccepted] at h

/-- As long as every write creates its file: one call at most returns true for a client id,
and from then on its key file stays as it wrote it. -/
theorem registered_once (sv : Server K) (w : World) (es later : List PoolEvent) (p q : Pool K)
    (meets : Meets sv.poolStep (fun p e => sv.creates p e = true) ⟨w,[]⟩ (es ++ later))
    (run : exec sv.poolStep ⟨w,[]⟩ es = some p) (run' : exec sv.poolStep p later = some q) :
    (∀ (i j : Nat) (c d : Call K), p.calls[i]? = some c → p.calls[j]? = some d →
      c.phase.isAccepted = true → d.phase.isAccepted = true →
      (sv.request c.request.msg).client_id = (sv.request d.request.msg).client_id → i = j) ∧
    ∀ (i : Nat) (c : Call K), p.calls[i]? = some c → c.phase.isAccepted = true →
      ∃ loc, sv.fileAt (sv.keyName c.request.msg) = some loc ∧
        p.world.files loc = some (sv.request c.request.msg).data ∧
        q.world.files loc = some (sv.request c.request.msg).data := by
  have inv := registered_run (meets_of_append meets) run
  have inv' : sv.Registered q := by
    refine registered_run meets ?_
    rw [exec_append, run]
    exact run'
  constructor
  · intro i j c d hi hj hc hd hid
    refine inv.apart i j c d hi hj (holdsFile_of_isAccepted hc) (holdsFile_of_isAccepted hd) ?_
    rw [keyName, keyName, hid]
  · intro i c hi hc
    obtain ⟨loc,hloc,-,hdata⟩ := inv.content i c hi (holdsFile_of_isAccepted hc)
    obtain ⟨loc',hloc',-,hdata'⟩ :=
      inv'.content i c (accepted_stays hc hi run') (holdsFile_of_isAccepted hc)
    rw [hloc, Option.some.injEq] at hloc'
    exact ⟨loc,hloc,hdata,hloc' ▸ hdata'⟩

/-- As long as every write creates its file: a call that returns true has encrypted the AES
key for the key in its own data, the one that its signature was checked with. -/
theorem encrypted_for_verified (sv : Server K) (w : World) (es : List PoolEvent) (p : Pool K)
    (meets : Meets sv.poolStep (fun p e => sv.creates p e = true) ⟨w,[]⟩ es)
    (run : exec sv.poolStep ⟨w,[]⟩ es = some p) (i : Nat) (r : Request)
    (verified encrypted : Option K) (hcall : p.calls[i]? = some ⟨r,.accepted verified encrypted⟩) :
    verified = sv.libs.pem_read_bio_RSAPublicKey (sv.request r.msg).data ∧
      sv.checked r.msg verified = .ok true ∧
      encrypted = sv.libs.pem_read_bio_RSAPublicKey (sv.request r.msg).data := by
  obtain ⟨hverified,good,hencrypted⟩ := (registered_run meets run).keys i _ hcall
  exact ⟨hverified,good,hencrypted.trans hverified⟩

end Invariant

end Server

def otherKey : List UInt8 :=
  ascii "-----BEGIN RSA PUBLIC KEY-----\n" ++
  ascii "MIGIAoGBANVdB0VsJggjXA8hFfThTFvAEkf5taoZbTSjvdkruKZbkSu6m7GgJXDb\n" ++
  ascii "sRcMDdKiHz0x8SSxzLBqeD+N89wVKuHomWci7xjshep/E5LcftyuhydrYk+ms8ty\n" ++
  ascii "vRv3RHWV81T/eNGGa9O+MqoNONE74ysdUgdAfZEgMpR3ISjm6gbdAgIwOQ==\n" ++
  ascii "-----END RSA PUBLIC KEY-----\n"

def otherInfo : RequestInfo :=
  { client_id := ascii "c", server_id := [], data := otherKey, sign := ascii "AAAA\n" }

def ownRequest : Request := ⟨0,⟨fun _ => 0,fun _ => 0⟩,435,ownMsg.body⟩

def otherRequest : Request := ⟨1,⟨fun _ => 0,fun _ => 0⟩,264,
  (ascii "\n\x01c" ++ [26,5] ++ ascii "AAAA\n" ++ [34,251,1] ++ otherKey).reverse⟩

def twoKeys : Server (List UInt8) :=
  sample fun wire => if wire.getD 4 0 = 5 then otherInfo else ownInfo

def ownSteps : List PoolEvent := [.post ownRequest,.start 0,.step 0,.step 0,.step 0,.step 0]

def laterSteps : List PoolEvent := [.post ownRequest,.start 1,.step 1,.step 1]

theorem creates_ownSteps : Meets oneKey.poolStep (fun p e => oneKey.creates p e = true)
    ⟨emptyStore,[]⟩ (ownSteps ++ laterSteps) := by
  decide +kernel

theorem call_of_map {A B : Type} {l : List A} {f : A → B} {bs : List B} {i : Nat} {b : B}
    (h : l.map f = bs) (hb : bs[i]? = some b) : ∃ c, l[i]? = some c ∧ f c = b := by
  subst h
  rw [List.getElem?_map] at hb
  exact Option.map_eq_some_iff.mp hb

theorem registered_once_taken :
    ∃ p q c loc, exec oneKey.poolStep ⟨emptyStore,[]⟩ ownSteps = some p ∧
      exec oneKey.poolStep p laterSteps = some q ∧ p.calls[0]? = some c ∧
      c.phase.isAccepted = true ∧
      p.world.files loc = some (oneKey.request c.request.msg).data ∧
      q.world.files loc = some (oneKey.request c.request.msg).data := by
  have hrun : (exec oneKey.poolStep ⟨emptyStore,[]⟩ ownSteps).bind (fun p =>
      (exec oneKey.poolStep p laterSteps).map fun _ => p.calls.map fun c => c.phase.isAccepted) =
      some [true] := by decide +kernel
  obtain ⟨p,run,hnext⟩ := Option.bind_eq_some_iff.mp hrun
  obtain ⟨q,run',hp⟩ := Option.map_eq_some_iff.mp hnext
  obtain ⟨c,hcall,hc⟩ := call_of_map (i := 0) hp rfl
  obtain ⟨loc,-,hdata,hdata'⟩ :=
    (Server.registered_once oneKey emptyStore ownSteps laterSteps p q creates_ownSteps run
      run').2 0 c hcall hc
  exact ⟨p,q,c,loc,run,run',hcall,hc,hdata,hdata'⟩

/-- Both calls have asked for the file before either writes it. -/
theorem registered_once_race :
    ∃ (es : List PoolEvent) (p : Pool (List UInt8)),
      exec oneKey.poolStep ⟨emptyStore,[]⟩ es = some p ∧
      ∃ (i j : Nat) (c d : Call (List UInt8)), i ≠ j ∧ p.calls[i]? = some c ∧ p.calls[j]? = some d ∧
        c.phase.isAccepted = true ∧ d.phase.isAccepted = true ∧
        (oneKey.request c.request.msg).client_id = (oneKey.request d.request.msg).client_id := by
  have hrun : (exec oneKey.poolStep ⟨emptyStore,[]⟩ [.post ownRequest,.post ownRequest,.start 0,
      .start 1,.step 0,.step 1,.step 0,.step 1,.step 0,.step 1,.step 0,.step 1]).map
        (fun p => p.calls.map fun c =>
          (c.phase.isAccepted,(oneKey.request c.request.msg).client_id)) =
      some [(true,ascii "c"),(true,ascii "c")] := by decide +kernel
  obtain ⟨p,run,hp⟩ := Option.map_eq_some_iff.mp hrun
  obtain ⟨c,hcall,hc⟩ := call_of_map (i := 0) hp rfl
  obtain ⟨d,hcall',hd⟩ := call_of_map (i := 1) hp rfl
  obtain ⟨hc,hcid⟩ := Prod.mk.inj hc
  obtain ⟨hd,hdid⟩ := Prod.mk.inj hd
  exact ⟨_,p,run,0,1,c,d,Nat.zero_ne_one,hcall,hcall',hc,hd,hcid.trans hdid.symm⟩

theorem encrypted_for_verified_alone :
    ∃ p r verified encrypted, exec oneKey.poolStep ⟨emptyStore,[]⟩ ownSteps = some p ∧
      p.calls[0]? = some ⟨r,.accepted verified encrypted⟩ ∧
      encrypted = some (oneKey.request r.msg).data := by
  have hrun : (exec oneKey.poolStep ⟨emptyStore,[]⟩ ownSteps).map
      (fun p => p.calls.map fun c => c.phase.isAccepted) = some [true] := by decide +kernel
  obtain ⟨p,run,hp⟩ := Option.map_eq_some_iff.mp hrun
  obtain ⟨⟨r,phase⟩,hcall,hc⟩ := call_of_map (i := 0) hp rfl
  cases phase with
  | accepted verified encrypted =>
    obtain ⟨-,-,hencrypted⟩ := Server.encrypted_for_verified oneKey emptyStore ownSteps p
      (meets_of_append creates_ownSteps) run 0 r verified encrypted hcall
    exact ⟨p,r,verified,encrypted,run,hcall,hencrypted⟩
  | _ => cases hc

/-- The second call overwrites the key file after the signature of the first was checked. -/
theorem encrypted_for_other :
    ∃ (es : List PoolEvent) (p : Pool (List UInt8)),
      exec twoKeys.poolStep ⟨emptyStore,[]⟩ es = some p ∧
      ∃ r verified encrypted, p.calls[0]? = some ⟨r,.accepted verified encrypted⟩ ∧
        encrypted ≠ twoKeys.libs.pem_read_bio_RSAPublicKey (twoKeys.request r.msg).data := by
  have hrun : (exec twoKeys.poolStep ⟨emptyStore,[]⟩ [.post ownRequest,.post otherRequest,.start 0,
      .start 1,.step 0,.step 1,.step 0,.step 0,.step 1,.step 0]).map (fun p => p.calls.map fun c =>
        c.phase.encryptionKey.any
          (· != twoKeys.libs.pem_read_bio_RSAPublicKey (twoKeys.request c.request.msg).data)) =
      some [true,false] := by decide +kernel
  obtain ⟨p,run,hp⟩ := Option.map_eq_some_iff.mp hrun
  obtain ⟨⟨r,phase⟩,hcall,hc⟩ := call_of_map (i := 0) hp rfl
  cases phase with
  | accepted verified encrypted =>
    exact ⟨_,p,run,r,verified,encrypted,hcall,bne_iff_ne.mp hc⟩
  | _ => cases hc

end TransmissionPlatform.Platform
