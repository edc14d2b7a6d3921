import TransmissionPlatform.Lib.StepSystem
import TransmissionPlatform.Shm.BaseShm

/-!
`seckey_shm.hpp`: a table of `T` in shared memory. The elements are in the segment, their number is
in the handle.
-/

set_option autoImplicit false

namespace TransmissionPlatform.Shm
open StepSystem

structure SeckeyShm extends BaseShm where
  num_node_ : Nat := 0
  deriving DecidableEq, Repr

namespace SeckeyShm
variable {T : Type} {max_node_num : Nat}

/-- The constructor. `sizeof` is that of the array, `zero` the element of zero bytes. -/
def create (zero : T) (sizeof : UInt64) (name : String) (sys : System (Vector T max_node_num)) :
    Option SeckeyShm × System (Vector T max_node_num) :=
  match BaseShm.create (Vector.replicate max_node_num zero) name sizeof.toInt64 sys with
  | (none,sys) => (none,sys)
  | (some b,sys) => (some { toBaseShm := b },sys)

def maxNodeNum (_ : SeckeyShm) (_ : System (Vector T max_node_num)) : Nat := max_node_num

def reset (s : SeckeyShm) : SeckeyShm := { s with num_node_ := 0 }

/-- The loop of `Find` from cell `i` on, with `k` cells before it. There is no cell behind the
array. -/
def findLoop (found : T → Bool) (arr : Vector T max_node_num) : Nat → Nat → Option (Option Nat)
  | 0, _ => some none
  | k + 1, i =>
    match arr[i]? with
    | none => none
    | some x => if found x then some (some i) else findLoop found arr k (i + 1)

/-- `Find` with a predicate. A pointer into the array is given by its index. -/
def findWith (handle : T → T → Bool) (target : T) (s : SeckeyShm)
    (sys : System (Vector T max_node_num)) : Option (Option Nat) :=
  match sys.memory s.getAddress with
  | none => none
  | some arr => findLoop (handle target) arr s.num_node_ 0

def find [BEq T] (target : T) (s : SeckeyShm) (sys : System (Vector T max_node_num)) :
    Option (Option Nat) :=
  findWith (fun x y => x == y) target s sys

def write (target : T) (s : SeckeyShm) (sys : System (Vector T max_node_num)) :
    Option (Bool × SeckeyShm × System (Vector T max_node_num)) :=
  match sys.memory s.getAddress with
  | none => none
  | some arr =>
    if s.num_node_ ≠ max_node_num then
      if h : s.num_node_ < max_node_num then
        some (true,{ s with num_node_ := s.num_node_ + 1 },
          sys.store s.getAddress (arr.set s.num_node_ target))
      else none
    else some (false,s,sys)

inductive Call (T : Type) where
  | write (target : T)
  | reset
  | find (target : T)
  | findWith (handle : T → T → Bool) (target : T)

/-- One call on a handle. It has no outcome when it leaves the array. -/
def step [BEq T] (s : SeckeyShm × System (Vector T max_node_num)) :
    Call T → Option (SeckeyShm × System (Vector T max_node_num))
  | .write target => (write target s.1 s.2).map Prod.snd
  | .reset => some (s.1.reset,s.2)
  | .find target => (find target s.1 s.2).map fun _ => s
  | .findWith handle target => (findWith handle target s.1 s.2).map fun _ => s

def append (max : Nat) (l : List T) : Call T → List T
  | .write target => if l.length = max then l else l ++ [target]
  | .reset => []
  | .find _ | .findWith _ _ => l

def written (max : Nat) (calls : List (Call T)) : List T := calls.foldl (append max) []

/-- `Find` over these elements: a pointer to the earliest match, if there is one. -/
structure Earliest (arr : Vector T max_node_num) (l : List T) (found : T → Bool)
    (r : Option Nat) : Prop where
  index : r = l.findIdx? found
  element : (r.bind fun i => arr[i]?) = l.find? found

structure Holds (l : List T) (s : SeckeyShm) (sys : System (Vector T max_node_num))
    (arr : Vector T max_node_num) : Prop where
  seen : sys.memory s.getAddress = some arr
  bounded : s.num_node_ ≤ max_node_num
  cells : arr.toList.take s.num_node_ = l

section Holds
variable {l : List T} {s : SeckeyShm} {sys : System (Vector T max_node_num)}
  {arr : Vector T max_node_num}

theorem Holds.length (holds : Holds l s sys arr) : l.length = s.num_node_ := by
  rw [← holds.cells]
  simpa using holds.bounded

theorem findLoop_eq (found : T → Bool) (arr : Vector T max_node_num) {k i : Nat}
    (h : i + k ≤ max_node_num) :
    findLoop found arr k i =
      some ((((arr.toList.drop i).take k).findIdx? found).map fun j => j + i) := by
  induction k generalizing i with
  | zero => simp [findLoop]
  | succ k ih =>
    have hi : i < arr.toList.length := by simpa using (by omega : i < max_node_num)
    have hcell : arr[i]? = some arr.toList[i] := by simp
    rw [List.drop_eq_getElem_cons hi, List.take_succ_cons, List.findIdx?_cons]
    simp only [findLoop, hcell]
    split
    · simp
    · rw [ih (by omega)]
      simp [Function.comp_def, Nat.add_comm, Nat.add_left_comm]

theorem Holds.cell (holds : Holds l s sys arr) {i : Nat} (hi : i < l.length) :
    arr[i]? = l[i]? := by
  have hlength := holds.length
  have hbounded := holds.bounded
  rw [← holds.cells, List.getElem?_take_of_lt (by omega)]
  simp

theorem Holds.findWith (holds : Holds l s sys arr) (handle : T → T → Bool) (target : T) :
    ∃ r, findWith handle target s sys = some r ∧ Earliest arr l (handle target) r := by
  have hloop := findLoop_eq (handle target) arr (i := 0) (by simpa using holds.bounded)
  simp only [List.drop_zero, holds.cells, Nat.add_zero, Option.map_id'] at hloop
  refine ⟨_,by simp only [SeckeyShm.findWith, holds.seen]; exact hloop,rfl,?_⟩
  rw [List.find?_eq_bind_findIdx?_getElem?]
  cases hr : l.findIdx? (handle target) with
  | none => rfl
  | some i => exact holds.cell (List.findIdx?_eq_some_iff_getElem.mp hr).1

theorem Holds.write (holds : Holds l s sys arr) (target : T) :
    (l.length = max_node_num → write target s sys = some (false,s,sys)) ∧
      (l.length ≠ max_node_num → ∃ t u arr', write target s sys = some (true,t,u) ∧
        t.toBaseShm = s.toBaseShm ∧ u.names = sys.names ∧ Holds (l ++ [target]) t u arr') := by
  rw [holds.length]
  constructor
  · intro full
    simp [SeckeyShm.write, holds.seen, full]
  · intro room
    have hlt : s.num_node_ < max_node_num := Nat.lt_of_le_of_ne holds.bounded room
    refine ⟨{ s with num_node_ := s.num_node_ + 1 },
      sys.store s.getAddress (arr.set s.num_node_ target),arr.set s.num_node_ target,?_,rfl,rfl,
      System.memory_store holds.seen _,hlt,?_⟩
    · simp only [SeckeyShm.write, holds.seen, ne_eq, room, not_false_eq_true, if_true, hlt, dif_pos]
    · have hlength : s.num_node_ < arr.toList.length := by simpa using hlt
      simp only [Vector.toList_set, List.take_add_one, List.take_set_of_le (Nat.le_refl _),
        holds.cells, List.getElem?_set_self hlength, Option.toList_some]

end Holds

theorem holds_created {zero : T} {sizeof : UInt64} {name : String}
    {sys t : System (Vector T max_node_num)} {s : SeckeyShm}
    (made : create zero sizeof name sys = (some s,t)) :
    s.name = name ∧ t.names s.name = some s.shm_ ∧ ∃ arr, Holds [] s t arr := by
  simp only [create] at made
  cases hb : BaseShm.create (Vector.replicate max_node_num zero) name sizeof.toInt64 sys with
  | mk b u =>
    rw [hb] at made
    cases b with
    | none => simp at made
    | some b =>
      simp only [Prod.mk.injEq, Option.some.injEq] at made
      obtain ⟨rfl,rfl⟩ := made
      obtain ⟨hname,new⟩ := BaseShm.created hb
      exact ⟨hname,new.named,_,new.memory,Nat.zero_le _,rfl⟩

theorem written_snoc (max : Nat) (calls : List (Call T)) (c : Call T) :
    written max (calls ++ [c]) = append max (written max calls) c := by
  simp [written]

section Run
variable [BEq T] {s : SeckeyShm} {sys : System (Vector T max_node_num)}
  {arr : Vector T max_node_num}

/-- Each call does to the table what it does to the list, and leaves the names alone. -/
theorem holds_step {l : List T} (holds : Holds l s sys arr) (c : Call T) :
    ∃ t u arr', step (s,sys) c = some (t,u) ∧ t.toBaseShm = s.toBaseShm ∧ u.names = sys.names ∧
      Holds (append max_node_num l c) t u arr' := by
  cases c with
  | write target =>
    obtain ⟨full,room⟩ := holds.write target
    by_cases hl : l.length = max_node_num
    · exact ⟨s,sys,arr,by simp [step, full hl],rfl,rfl,by simpa [append, hl] using holds⟩
    · obtain ⟨t,u,arr',hw,hbase,hnames,next⟩ := room hl
      exact ⟨t,u,arr',by simp [step, hw],hbase,hnames,by simpa [append, hl] using next⟩
  | reset => exact ⟨s.reset,sys,arr,rfl,rfl,rfl,holds.seen,Nat.zero_le _,rfl⟩
  | find target =>
    obtain ⟨r,hr,-⟩ := holds.findWith (fun x y => x == y) target
    exact ⟨s,sys,arr,by simp [step, find, hr],rfl,rfl,holds⟩
  | findWith handle target =>
    obtain ⟨r,hr,-⟩ := holds.findWith handle target
    exact ⟨s,sys,arr,by simp [step, hr],rfl,rfl,holds⟩

theorem holds_exec (start : Holds [] s sys arr) (calls : List (Call T)) :
    ∃ t u arr', exec step (s,sys) calls = some (t,u) ∧ t.toBaseShm = s.toBaseShm ∧
      u.names = sys.names ∧ Holds (written max_node_num calls) t u arr' := by
  induction calls using List.reverseRecOn with
  | nil => exact ⟨s,sys,arr,rfl,rfl,rfl,start⟩
  | append_singleton calls c ih =>
    obtain ⟨t,u,arr',run,hbase,hnames,holds⟩ := ih
    obtain ⟨t',u',arr'',hstep,hbase',hnames',next⟩ := holds_step holds c
    refine ⟨t',u',arr'',exec_snoc.mpr ⟨_,run,hstep⟩,hbase'.trans hbase,hnames'.trans hnames,?_⟩
    rw [written_snoc]
    exact next

end Run

/-- After any calls on a new handle the table is the list of what was written since the last
`Reset`: it is bounded, `Write` turns down when it is full, and `Find` gives the earliest match. -/
theorem bounded_table [BEq T] {zero : T} {sizeof : UInt64} {name : String}
    {sys t : System (Vector T max_node_num)} {s : SeckeyShm}
    (made : create zero sizeof name sys = (some s,t)) (calls : List (Call T)) :
    ∃ s' t' arr, exec step (s,t) calls = some (s',t') ∧ s'.num_node_ ≤ max_node_num ∧
      t'.memory s'.getAddress = some arr ∧
      (∀ target, ∃ b u, write target s' t' = some (b,u) ∧
        (b = false ↔ (written max_node_num calls).length = max_node_num) ∧
        (b = false → u = (s',t'))) ∧
      (∀ target, ∃ r, find target s' t' = some r ∧
        Earliest arr (written max_node_num calls) (fun x => target == x) r) ∧
      ∀ handle target, ∃ r, findWith handle target s' t' = some r ∧
        Earliest arr (written max_node_num calls) (handle target) r := by
  obtain ⟨-,-,arr,start⟩ := holds_created made
  obtain ⟨s',t',arr',run,-,-,holds⟩ := holds_exec start calls
  refine ⟨s',t',arr',run,holds.bounded,holds.seen,?_,
    fun target => holds.findWith (fun x y => x == y) target,holds.findWith⟩
  intro target
  obtain ⟨full,room⟩ := holds.write target
  by_cases hl : (written max_node_num calls).length = max_node_num
  · exact ⟨false,(s',t'),full hl,by simp [hl],fun _ => rfl⟩
  · obtain ⟨u,v,-,hw,-⟩ := room hl
    exact ⟨true,(u,v),hw,by simp [hl],by simp⟩

end SeckeyShm

structure ShmNodeSeckey where
  status : Bool := false
  seckey_id : UInt32 := 0
  client_id : Vector UInt8 12 := .replicate 12 0
  server_id : Vector UInt8 12 := .replicate 12 0
  seckey : Vector UInt8 129 := .replicate 129 0

instance : BEq ShmNodeSeckey where
  beq x y := x.seckey_id == y.seckey_id

namespace SeckeyShm
variable {T : Type} {max_node_num : Nat}

theorem bounded_table_sameId :
    ∃ s t, create ({} : ShmNodeSeckey) 328 "seckey" ({} : System (Vector ShmNodeSeckey 2)) =
        (some s,t) ∧
      ∃ s' t' arr, exec step (s,t) [.write { seckey_id := 5 },
          .write { seckey_id := 5, status := true }] = some (s',t') ∧
        (∃ u, write { seckey_id := 6 } s' t' = some (false,u)) ∧
        find { seckey_id := 5 } s' t' = some (some 0) ∧
        t'.memory s'.getAddress = some arr ∧ arr[0]? = some { seckey_id := 5 } := by
  obtain ⟨s,t,made⟩ : ∃ s t, create ({} : ShmNodeSeckey) 328 "seckey"
      ({} : System (Vector ShmNodeSeckey 2)) = (some s,t) := ⟨_,_,rfl⟩
  obtain ⟨s',t',arr,run,-,seen,hwrite,hfind,-⟩ := bounded_table made
    [.write { seckey_id := 5 },.write { seckey_id := 5, status := true }]
  obtain ⟨b,u,hb,hfull,-⟩ := hwrite { seckey_id := 6 }
  obtain ⟨r,hr,earliest⟩ := hfind { seckey_id := 5 }
  obtain rfl : b = false := hfull.mpr rfl
  obtain rfl : r = some 0 := earliest.index
  exact ⟨s,t,made,s',t',arr,run,⟨u,hb⟩,hr,seen,earliest.element⟩

/-- A second handle is made under the name, and its `Find` has each of the elements. -/
def Agrees [BEq T] (zero : T) (sizeof : UInt64) (name : String) (l : List T)
    (sys : System (Vector T max_node_num)) : Prop :=
  ∃ s t arr, create zero sizeof name sys = (some s,t) ∧ t.memory s.getAddress = some arr ∧
    ∀ x ∈ l, ∃ i y, find x s t = some (some i) ∧ arr[i]? = some y ∧ (x == y) = true

theorem create_taken {zero : T} {sizeof : UInt64} {name : String} {id : Nat}
    {sys : System (Vector T max_node_num)} (taken : sys.names name = some id) :
    create zero sizeof name sys = (none,sys) := by
  simp [create, BaseShm.create, System.createOnly, taken]

/-- The second handle is never made: the only constructor creates the segment anew. -/
theorem not_agrees [BEq T] {zero : T} {sizeof : UInt64} {name : String}
    {sys t : System (Vector T max_node_num)} {s : SeckeyShm}
    (made : create zero sizeof name sys = (some s,t)) (targets : List T) :
    ∃ s' t', exec step (s,t) (targets.map .write) = some (s',t') ∧
      ¬Agrees zero sizeof name (written max_node_num (targets.map .write)) t' := by
  obtain ⟨rfl,named,arr,start⟩ := holds_created made
  obtain ⟨s',t',-,run,-,hnames,-⟩ := holds_exec start (targets.map .write)
  refine ⟨s',t',run,?_⟩
  rintro ⟨u,v,-,second,-⟩
  rw [create_taken (hnames ▸ named)] at second
  cases second

theorem not_agrees_written :
    ∃ s t, create (0 : UInt32) 8 "seckey" ({} : System (Vector UInt32 2)) = (some s,t) ∧
      ∃ s' t', exec step (s,t) ([7,9,11].map .write) = some (s',t') ∧
        ¬Agrees (0 : UInt32) 8 "seckey" [7,9] t' := by
  have made : ∃ t, create (0 : UInt32) 8 "seckey" ({} : System (Vector UInt32 2)) =
      (some { name := "seckey", shm_ := 0, shm_map_ := 8 },t) := ⟨_,rfl⟩
  obtain ⟨t,made⟩ := made
  exact ⟨_,t,made,not_agrees made [7,9,11]⟩

theorem second_fails :
    ∃ s t s' t', create (0 : UInt32) 8 "seckey" ({} : System (Vector UInt32 2)) = (some s,t) ∧
      exec step (s,t) [.write 7] = some (s',t') ∧
        ¬Agrees (0 : UInt32) 8 "seckey" [7] t' := by
  refine ⟨{ name := "seckey", shm_ := 0, shm_map_ := 8 },_,_,_,rfl,rfl,?_⟩
  rintro ⟨u,v,-,second,-⟩
  cases second

end SeckeyShm

end TransmissionPlatform.Shm
