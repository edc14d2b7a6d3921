import TransmissionPlatform.Lib.StepSystem
import TransmissionPlatform.Platform.RsaKeys
import TransmissionPlatform.Platform.KeyUse
import TransmissionPlatform.Platform.Work

/-!
The handles of all `MyRSA` objects of a process. `Init` and the destructor free a pointer that
is null and leave any other, so what they drop is lost.
-/

set_option autoImplicit false

namespace TransmissionPlatform.Platform
open Net Handles Program StepSystem KeyState

namespace MyRSAObject

def pointers (o : MyRSAObject) : List Nat :=
  o.impl_.pub_key_ptr_.toList ++ o.impl_.pri_key_ptr_.toList

def overwritten {K P : Type} (libs : KeyLibraries K P) (call : InitCall) (o : MyRSAObject) :
    List Nat :=
  o.impl_.pub_key_ptr_.toList ++
    if (readPub libs call.disk call.pub_key_path).key.isSome then o.impl_.pri_key_ptr_.toList else []

end MyRSAObject

section Objects
variable {K P : Type} {h : RsaHeap K P} {held lost rest : List Nat}

theorem accounts_loadKey {V : Type} (put : V → RSA K P) (read : PemRead V)
    (acc : h.Accounts held lost) :
    (loadKey put read h).1.Accounts ((loadKey put read h).2.1.toList ++ held) lost := by
  cases read with
  | filled key =>
    simp only [loadKey, Heap.write_alloc]
    exact acc.alloc _
  | exchanged key => exact (acc.alloc (⟨.rsa_new,{}⟩ : RsaCell K P)).free.alloc ⟨.pem_read,put key⟩
  | failed => exact acc.alloc _
  | cleared => exact (acc.alloc _).free

theorem accounts_dup (origin : Origin) (copy : Option (RSA K P)) (acc : h.Accounts held lost) :
    (dup origin copy h).1.Accounts ((dup origin copy h).2.toList ++ held) lost := by
  cases copy with
  | none => exact acc
  | some rsa => exact acc.alloc _

variable (libs : KeyLibraries K P) {o : MyRSAObject}

theorem accounts_loadedPub (disk : Disk) (file_name : List UInt8)
    (acc : h.Accounts (o.pointers ++ rest) lost) :
    (loadedPub libs disk file_name (h,o)).1.Accounts
      ((loadedPub libs disk file_name (h,o)).2.pointers ++ rest)
      (o.impl_.pub_key_ptr_.toList ++ lost) := by
  rw [loadedPub_eq]
  refine (accounts_loadKey _ _ acc).congr ?_
  simp only [MyRSAObject.pointers, List.append_assoc]
  refine List.Perm.append_left _ ?_
  rw [← List.append_assoc, ← List.append_assoc _ rest lost]
  exact List.perm_append_comm_assoc _ _ _

theorem accounts_loadedPri (disk : Disk) (file_name : List UInt8)
    (acc : h.Accounts (o.pointers ++ rest) lost) :
    (loadedPri libs disk file_name (h,o)).1.Accounts
      ((loadedPri libs disk file_name (h,o)).2.pointers ++ rest)
      (o.impl_.pri_key_ptr_.toList ++ lost) := by
  rw [loadedPri_eq]
  refine (accounts_loadKey _ _ acc).congr ?_
  simp only [MyRSAObject.pointers, List.append_assoc]
  refine (List.perm_append_comm_assoc _ _ _).trans ?_
  refine (List.Perm.append_left _ (List.Perm.append_left _ ?_))
  exact List.perm_append_comm_assoc _ _ _

theorem loadedPub_pri_key_ptr (disk : Disk) (file_name : List UInt8) (s : KeyState K P) :
    (loadedPub libs disk file_name s).2.impl_.pri_key_ptr_ = s.2.impl_.pri_key_ptr_ := by
  rw [loadedPub_eq]

theorem accounts_init (call : InitCall) (acc : h.Accounts (o.pointers ++ rest) lost) :
    (final (init libs call (h,o))).1.Accounts
      ((final (init libs call (h,o))).2.pointers ++ rest) (o.overwritten libs call ++ lost) := by
  have hpub := accounts_loadedPub libs call.disk call.pub_key_path acc
  rw [init_final, MyRSAObject.overwritten]
  by_cases hread : (readPub libs call.disk call.pub_key_path).key.isSome = true
  · have hpri := accounts_loadedPri libs call.disk call.pri_key_path hpub
    rw [loadedPub_pri_key_ptr] at hpri
    simp only [hread, if_true]
    refine hpri.congr (List.Perm.append_left _ ?_)
    rw [List.append_assoc]
    exact List.perm_append_comm_assoc _ _ _
  · simp only [hread, Bool.false_eq_true, if_false, List.append_nil]
    exact hpub

theorem accounts_construct (c : Constructor) (acc : h.Accounts rest lost) :
    (construct libs c h).1.Accounts ((construct libs c h).2.pointers ++ rest) lost := by
  cases c with
  | generate n =>
    let rsa := libs.rsa_generate_key_ex (kKeyBitsLen * n)
    have hpub := accounts_dup .rsaPublicKey_dup (libs.rsaPublicKey_dup rsa)
      (acc.alloc ⟨.rsa_new,rsa⟩)
    have hpri := accounts_dup .rsaPrivateKey_dup (libs.rsaPrivateKey_dup rsa) hpub
    refine Heap.Accounts.free (hpri.congr (List.Perm.append_right _ ?_))
    refine ((List.perm_append_comm.append_right rest).cons _).trans ?_
    refine List.perm_middle.symm.trans ?_
    rw [List.append_assoc]
    exact List.Perm.refl _
  | pair disk pub_key_path pri_key_path =>
    have hinit := accounts_init libs ⟨disk,pub_key_path,pri_key_path⟩ (o := {}) acc
    have hnothing : MyRSAObject.overwritten libs ⟨disk,pub_key_path,pri_key_path⟩ {} = [] := by
      simp [MyRSAObject.overwritten]
    rw [hnothing] at hinit
    exact hinit
  | pub disk pub_key_path =>
    exact accounts_loadedPub libs disk pub_key_path (o := { only_pubkey_ := true }) acc

theorem accounts_destroy (acc : h.Accounts (o.pointers ++ rest) lost) :
    (destroy (h,o)).Accounts rest (o.pointers ++ lost) := by
  rw [destroy_eq]
  exact acc.drop

/-! No operation changes what an old handle refers to. -/

theorem cells_loadedPub (disk : Disk) (file_name : List UInt8) (s : KeyState K P) :
    s.1.cells <+: (loadedPub libs disk file_name s).1.cells := by
  rw [loadedPub_eq]
  exact (loaded_loadKey _ _ _).grows

theorem cells_init (call : InitCall) (s : KeyState K P) :
    s.1.cells <+: (final (init libs call s)).1.cells := by
  have hpub := cells_loadedPub libs call.disk call.pub_key_path s
  rw [init_final]
  split
  · rw [loadedPri_eq]
    exact hpub.trans (loaded_loadKey _ _ _).grows
  · exact hpub

theorem cells_dup (origin : Origin) (copy : Option (RSA K P)) (h : RsaHeap K P) :
    h.cells <+: (dup origin copy h).1.cells := by
  cases copy with
  | none => exact List.prefix_refl _
  | some rsa => exact cells_alloc h _

theorem cells_construct (c : Constructor) (h : RsaHeap K P) :
    h.cells <+: (construct libs c h).1.cells := by
  cases c with
  | generate n => exact (cells_alloc h _).trans ((cells_dup _ _ _).trans (cells_dup _ _ _))
  | pair disk pub_key_path pri_key_path => exact cells_init libs _ (h,{})
  | pub disk pub_key_path => exact cells_loadedPub libs disk pub_key_path (h,{ only_pubkey_ := true })

end Objects

/-- The objects in the order of their construction; one that is destroyed is `none`. -/
structure RsaSystem (K P : Type) where
  heap : RsaHeap K P := {}
  objects : List (Option MyRSAObject) := []

inductive KeyOp where
  | construct (c : Constructor)
  | init (i : Nat) (call : InitCall)
  | destroy (i : Nat)

namespace RsaSystem
variable {K P : Type} (libs : KeyLibraries K P)

def step (s : RsaSystem K P) : KeyOp → Option (RsaSystem K P)
  | .construct c =>
    let t := construct libs c s.heap
    some ⟨t.1,s.objects ++ [some t.2]⟩
  | .init i call =>
    match s.objects[i]? with
    | some (some o) =>
      let t := final (init libs call (s.heap,o))
      some ⟨t.1,s.objects.set i (some t.2)⟩
    | _ => none
  | .destroy i =>
    match s.objects[i]? with
    | some (some o) => some ⟨destroy (s.heap,o),s.objects.set i none⟩
    | _ => none

def slot : Option MyRSAObject → List Nat
  | none => []
  | some o => o.pointers

def held (s : RsaSystem K P) : List Nat := s.objects.flatMap slot

/-- A handle that a PEM reader has put in the place of another; the others come from `RSA_new`,
`RSAPublicKey_dup` and `RSAPrivateKey_dup`. -/
def Foreign (h : RsaHeap K P) (i : Nat) : Prop := (h.cells[i]?).map RsaCell.origin = some .pem_read

/-- Each handle that was obtained from one of the three functions is held and was not freed, or
is not held any more and was freed once. -/
def Released (s : RsaSystem K P) : Prop :=
  ∀ i, i < s.heap.fresh → ¬ Foreign s.heap i →
    s.heap.freed.count i = if i ∈ s.held then 0 else 1

def drops (s : RsaSystem K P) : KeyOp → List Nat
  | .construct _ => []
  | .init i call => ((s.objects[i]?).bind id).elim [] (·.overwritten libs call)
  | .destroy i => ((s.objects[i]?).bind id).elim [] (·.pointers)

/-- The pointers that the step drops are null, or a PEM reader has put them there. -/
def Clean (s : RsaSystem K P) (op : KeyOp) : Prop := ∀ i ∈ s.drops libs op, Foreign s.heap i

section Steps
variable {libs} {s t : RsaSystem K P} {lost : List Nat}

theorem held_set {i : Nat} {o : MyRSAObject} (hi : s.objects[i]? = some (some o))
    (o' : Option MyRSAObject) :
    s.held.Perm (o.pointers ++ (s.objects.eraseIdx i).flatMap slot) ∧
      ((s.objects.set i o').flatMap slot).Perm
        (slot o' ++ (s.objects.eraseIdx i).flatMap slot) := by
  obtain ⟨hlt,hget⟩ := List.getElem?_eq_some_iff.mp hi
  have hold := (List.getElem_cons_eraseIdx_perm hlt).flatMap_right slot
  rw [hget, List.flatMap_cons] at hold
  have hnew := (List.set_perm_cons_eraseIdx hlt o').flatMap_right slot
  rw [List.flatMap_cons] at hnew
  exact ⟨hold.symm,hnew⟩

/-- What a step drops is lost, and nothing else. -/
theorem accounts_step {op : KeyOp} (acc : s.heap.Accounts s.held lost)
    (hstep : s.step libs op = some t) :
    t.heap.Accounts t.held (s.drops libs op ++ lost) ∧ s.heap.cells <+: t.heap.cells := by
  cases op with
  | construct c =>
    cases hstep
    refine ⟨(accounts_construct libs c acc).congr ?_,cells_construct libs c s.heap⟩
    simp only [held, List.flatMap_append, List.flatMap_cons, List.flatMap_nil, List.append_nil]
    exact List.perm_append_comm.append_right _
  | init i call =>
    simp only [step] at hstep
    split at hstep <;> cases hstep
    rename_i o hi
    obtain ⟨hold,hnew⟩ := held_set hi (some (final (init libs call (s.heap,o))).2)
    have hinit := accounts_init libs call (acc.congr (hold.symm.append_right lost))
    simp only [drops, hi]
    exact ⟨hinit.congr (hnew.append_right _),cells_init libs call (s.heap,o)⟩
  | destroy i =>
    simp only [step] at hstep
    split at hstep <;> cases hstep
    rename_i o hi
    obtain ⟨hold,hnew⟩ := held_set hi none
    have hdestroyed := accounts_destroy (acc.congr (hold.symm.append_right lost))
    simp only [drops, hi]
    refine ⟨hdestroyed.congr (hnew.append_right _),?_⟩
    rw [destroy_eq]

theorem foreign_grows {h h' : RsaHeap K P} (hgrows : h.cells <+: h'.cells) {i : Nat}
    (hi : i < h.fresh) : Foreign h' i ↔ Foreign h i := by
  obtain ⟨cells,hcells⟩ := hgrows
  rw [Foreign, Foreign, ← hcells, List.getElem?_append_left hi]

theorem drops_subset (op : KeyOp) : ∀ p ∈ s.drops libs op, p ∈ s.held := by
  have slots : ∀ (i : Nat) (f : MyRSAObject → List Nat), (∀ o, ∀ p ∈ f o, p ∈ o.pointers) →
      ∀ p ∈ ((s.objects[i]?).bind id).elim [] f, p ∈ s.held := by
    intro i f hf p hp
    cases hi : s.objects[i]? with
    | none => simp [hi] at hp
    | some o =>
      cases o with
      | none => simp [hi] at hp
      | some o =>
        simp only [hi] at hp
        exact List.mem_flatMap.mpr ⟨some o,List.mem_of_getElem? hi,hf o p hp⟩
  cases op with
  | construct c => simp [drops]
  | init i call =>
    refine slots i _ fun o p hp => ?_
    simp only [MyRSAObject.overwritten, List.mem_append] at hp
    refine List.mem_append.mpr (hp.imp_right fun hpri => ?_)
    split at hpri
    · exact hpri
    · cases hpri
  | destroy i => exact slots i _ fun _ _ hp => hp

theorem lost_exec {ops : List KeyOp} (acc : s.heap.Accounts s.held lost)
    (run : exec (step libs) s ops = some t) :
    ∃ lost', t.heap.Accounts t.held lost' ∧
      ((∀ i ∈ lost', Foreign t.heap i) ↔
        (∀ i ∈ lost, Foreign s.heap i) ∧ Meets (step libs) (Clean libs) s ops) := by
  induction ops generalizing s lost with
  | nil =>
    cases run
    exact ⟨lost,acc,by simp⟩
  | cons op ops ih =>
    obtain ⟨u,hstep,htail⟩ := Option.bind_eq_some_iff.mp run
    obtain ⟨hacc,hgrows⟩ := accounts_step acc hstep
    obtain ⟨lost',hlost',hiff⟩ := ih hacc htail
    have hdropped : ∀ i ∈ s.drops libs op ++ lost, i < s.heap.fresh := by
      intro i hi
      obtain hdrop | hlost := List.mem_append.mp hi
      · exact acc.held_lt_fresh (drops_subset op i hdrop)
      · exact acc.lt_fresh hlost
    refine ⟨lost',hlost',hiff.trans ?_⟩
    have hsame : (∀ i ∈ s.drops libs op ++ lost, Foreign u.heap i) ↔
        s.Clean libs op ∧ ∀ i ∈ lost, Foreign s.heap i := by
      refine (forall₂_congr fun i hi => foreign_grows hgrows (hdropped i hi)).trans ?_
      exact List.forall_mem_append
    simp only [hsame, meets_cons, hstep, Option.some.injEq, forall_eq']
    tauto

theorem released_iff_lost (acc : s.heap.Accounts s.held lost) :
    s.Released ↔ ∀ i ∈ lost, Foreign s.heap i := by
  constructor
  · intro hreleased i hi
    by_contra hown
    exact (acc.freed_iff (acc.lt_fresh hi)).mp (hreleased i (acc.lt_fresh hi) hown) hi
  · intro hforeign i hi hown
    exact (acc.freed_iff hi).mpr fun hlost => hown (hforeign i hlost)

theorem released_exec {ops : List KeyOp} (run : exec (step libs) {} ops = some s) :
    s.Released ↔ Meets (step libs) (Clean libs) {} ops := by
  obtain ⟨lost,hlost,hiff⟩ := lost_exec Heap.accounts_empty run
  rw [released_iff_lost hlost, hiff]
  simp

end Steps

end RsaSystem

/-- A server, and what its reader of public keys does with the handles. -/
structure KeyServer (K P : Type) extends Server K where
  keys : KeyLibraries K P
  reads : ∀ text, libs.pem_read_bio_RSAPublicKey text = (keys.readRSAPublicKey text).key

namespace KeyServer
variable {K P : Type} (sv : KeyServer K P)

def disk (w : World) : Disk := fun path => (sv.tree.resolve path).bind w.files

def useKey (h : RsaHeap K P) (disk : Disk) (pub_key_path : List UInt8) : RsaHeap K P :=
  destroy (construct sv.keys (.pub disk pub_key_path) h)

/-- The handles after one request: it makes an object for each load in its record, the second
when the first is gone, and the key file stays as it was written until then. -/
def seckeyAgreeHandles (h : RsaHeap K P) (w : World) (r : Request) : RsaHeap K P :=
  (final (sv.recordedSeckeyAgree r.random r.client r.msg (w,[]))).2.foldl
    (fun h call =>
      if call.isOperation then h
      else sv.useKey h (sv.disk (sv.written r.msg w)) (sv.keyName r.msg)) h

def serve (h : RsaHeap K P) (reqs : List (World × Request)) : RsaHeap K P :=
  reqs.foldl (fun h r => sv.seckeyAgreeHandles h r.1 r.2) h

/-- The request does not come to the signature check, or the PEM reader refuses its key with
the handle freed and the pointer null. -/
def Spares (w : World) (r : Request) : Prop :=
  (sv.statFails (sv.keyName r.msg) || sv.present (sv.keyName r.msg) w) = true ∨
    readPub sv.keys (sv.disk (sv.written r.msg w)) (sv.keyName r.msg) = .cleared

section Requests
variable {sv} {h : RsaHeap K P} {held lost : List Nat} {w : World} {r : Request}

theorem construct_pub (libs : KeyLibraries K P) (disk : Disk) (path : List UInt8) (h : RsaHeap K P) :
    construct libs (.pub disk path) h = loadedPub libs disk path (h,{ only_pubkey_ := true }) := rfl

theorem construct_pub_key (h : RsaHeap K P) (path : List UInt8) (w : World) :
    (myRSA (construct sv.keys (.pub (sv.disk w) path) h)).pub_key = sv.myRSA path w := by
  have hloaded := loaded_loadKey (fun key => ({ pub := some key } : RSA K P))
    (readPub sv.keys (sv.disk w) path) h
  have hread : (readPub sv.keys (sv.disk w) path).key = sv.myRSA path w := by
    simp only [readPub, disk, Server.myRSA]
    cases sv.tree.resolve path with
    | none => rfl
    | some loc =>
      cases hfile : w.files loc with
      | none => simp [hfile, PemRead.key]
      | some text => simp [hfile, sv.reads]
  rw [construct_pub, myRSA, loadedPub_eq, ← hread]
  refine (congrArg RSA.pub hloaded.pointee).trans ?_
  cases (readPub sv.keys (sv.disk w) path).key <;> rfl

theorem loadKey_null {V : Type} (put : V → RSA K P) (read : PemRead V) (h : RsaHeap K P) :
    (loadKey put read h).2.1 = none ↔ read = .cleared := by
  cases read <;> simp [loadKey]

theorem accounts_useKey (disk : Disk) (path : List UInt8) (acc : h.Accounts held lost) :
    ∃ more, (sv.useKey h disk path).Accounts held (more ++ lost) ∧
      (more = [] ↔ readPub sv.keys disk path = .cleared) := by
  have hbuilt := accounts_construct sv.keys (.pub disk path) acc
  rw [construct_pub] at hbuilt
  have hgone : (sv.useKey h disk path).Accounts held
      ((loadedPub sv.keys disk path (h,{ only_pubkey_ := true })).2.pointers ++ lost) :=
    accounts_destroy hbuilt
  refine ⟨_,hgone,?_⟩
  rw [← loadKey_null (fun key => ({ pub := some key } : RSA K P)) _ h, loadedPub_eq]
  simp [MyRSAObject.pointers]

theorem operations_iff (sv : Server K) (msg : Message NetMsgType) (w : World) :
    (∀ call ∈ sv.rsaCalls msg w, call.isOperation = true) ↔
      (sv.statFails (sv.keyName msg) || sv.present (sv.keyName msg) w) = true := by
  cases hearly : sv.statFails (sv.keyName msg) || sv.present (sv.keyName msg) w with
  | true => simp [Server.rsaCalls_early hearly]
  | false => simp [Server.rsaCalls, hearly, Server.checkCalls, RsaCall.isOperation]

theorem accounts_request (w : World) (r : Request) (acc : h.Accounts held lost) :
    ∃ more, (sv.seckeyAgreeHandles h w r).Accounts held (more ++ lost) ∧
      (more = [] ↔ sv.Spares w r) := by
  have hrecord : (final (sv.recordedSeckeyAgree r.random r.client r.msg (w,[]))).2 =
      sv.rsaCalls r.msg w := by
    rw [Server.recordedSeckeyAgree_run, final_withRecord, List.nil_append]
  have hcall : ∀ h lost (call : RsaCall K), Heap.Accounts h held lost →
      ∃ more, Heap.Accounts (if call.isOperation then h
        else sv.useKey h (sv.disk (sv.written r.msg w)) (sv.keyName r.msg)) held (more ++ lost) ∧
        (more = [] ↔ call.isOperation = true ∨
          readPub sv.keys (sv.disk (sv.written r.msg w)) (sv.keyName r.msg) = .cleared) := by
    intro h lost call acc
    cases call.isOperation with
    | true => exact ⟨[],acc,by simp⟩
    | false => simpa using accounts_useKey _ _ acc
  obtain ⟨more,hmore,hiff⟩ := acc.foldl hcall (sv.rsaCalls r.msg w)
  rw [seckeyAgreeHandles, hrecord]
  refine ⟨more,hmore,hiff.trans ?_⟩
  rw [Spares, ← operations_iff]
  by_cases hcleared : readPub sv.keys (sv.disk (sv.written r.msg w)) (sv.keyName r.msg) = .cleared
  · simp [hcleared]
  · simp [hcleared]

theorem live_serve (acc : h.Accounts held lost) (reqs : List (World × Request)) :
    (sv.serve h reqs).live.length = h.live.length ↔ ∀ r ∈ reqs, sv.Spares r.1 r.2 := by
  have hrequest : ∀ h lost (r : World × Request), Heap.Accounts h held lost →
      ∃ more, Heap.Accounts (sv.seckeyAgreeHandles h r.1 r.2) held (more ++ lost) ∧
        (more = [] ↔ sv.Spares r.1 r.2) := fun _ _ r acc => accounts_request r.1 r.2 acc
  obtain ⟨more,hmore,hiff⟩ := acc.foldl hrequest reqs
  have hbefore := acc.live_length
  have hafter : (sv.serve h reqs).live.length = held.length + (more ++ lost).length :=
    hmore.live_length
  rw [hbefore, hafter, ← hiff, List.length_append, ← List.length_eq_zero_iff]
  omega

end Requests

/-- The handles are released as long as `Init` and the destructors meet null pointers only, but
for what PEM readers have put there; and requests leave as many live handles as there were if
none of them makes an object that comes to hold one. -/
theorem released_iff (sv : KeyServer K P) {ops : List KeyOp} {s : RsaSystem K P}
    (run : exec (RsaSystem.step sv.keys) {} ops = some s) :
    (s.Released ↔ Meets (RsaSystem.step sv.keys) (RsaSystem.Clean sv.keys) {} ops) ∧
      ∀ reqs : List (World × Request),
        (sv.serve s.heap reqs).live.length = s.heap.live.length ↔ ∀ r ∈ reqs, sv.Spares r.1 r.2 := by
  obtain ⟨lost,hlost,-⟩ := RsaSystem.lost_exec Heap.accounts_empty run
  exact ⟨RsaSystem.released_exec run,live_serve hlost⟩

def noKeys : KeyServer Unit Unit where
  toServer := Server.undecodable
  keys := { anyKey with readRSAPublicKey := fun _ => .failed }
  reads := fun _ => rfl

def twoObjects : List KeyOp := [.construct (.generate 1),.construct (.pub pubDisk [2]),.destroy 0]

theorem released_iff_twoObjects :
    ∃ s, exec (RsaSystem.step noKeys.keys) {} twoObjects = some s ∧
      (s.Released ↔ Meets (RsaSystem.step noKeys.keys) (RsaSystem.Clean noKeys.keys) {} twoObjects) ∧
      ∀ reqs : List (World × Request),
        (noKeys.serve s.heap reqs).live.length = s.heap.live.length ↔
          ∀ r ∈ reqs, noKeys.Spares r.1 r.2 :=
  exists_exec rfl fun _ run => noKeys.released_iff run

theorem released_not :
    ∃ (sv : KeyServer Unit Unit) (ops : List KeyOp) (s : RsaSystem Unit Unit)
      (reqs : List (World × Request)), exec (RsaSystem.step sv.keys) {} ops = some s ∧ ¬ s.Released ∧
        (sv.serve s.heap reqs).live.length ≠ s.heap.live.length := by
  refine ⟨noKeys,[.construct (.pub pubDisk [1]),.destroy 0],_,
    [(⟨fun _ => none,[],[]⟩,⟨0,⟨fun _ => 0,fun _ => 0⟩,6,Server.undecodableMsg.body⟩)],rfl,?_,?_⟩
  · intro hreleased
    have hcount := hreleased 0 (by decide) (by unfold RsaSystem.Foreign; decide)
    revert hcount
    decide
  · decide

end KeyServer

end TransmissionPlatform.Platform
