import TransmissionPlatform.Shm.SeckeyShm

/-!
The shared memory of one system with any number of handles, which processes make, use and destroy
in any order and under any names: tables, and handles that were opened by name. What is written
is written through tables.
-/

set_option autoImplicit false

namespace TransmissionPlatform.Shm
open StepSystem

namespace System
variable {M : Type} {sys t u : System M}

structure Extends (sys t : System M) : Prop where
  length : sys.segments.length ≤ t.segments.length
  segments : ∀ id < sys.segments.length, t.segments[id]? = sys.segments[id]?
  names : ∀ name, ∀ id < sys.segments.length, t.names name = some id ↔ sys.names name = some id

theorem extends_refl (sys : System M) : Extends sys sys :=
  ⟨Nat.le_refl _,fun _ _ => rfl,fun _ _ _ => Iff.rfl⟩

theorem Extends.modify (hext : Extends sys t) {id : Nat} (hid : sys.segments.length ≤ id)
    (f : Segment M → Segment M) :
    Extends sys { t with segments := t.segments.modify id f } := by
  refine ⟨by simpa using hext.length,fun id' hid' => ?_,hext.names⟩
  have hne : id ≠ id' := by omega
  simp only [List.getElem?_modify_ne f t.segments hne]
  exact hext.segments id' hid'

theorem truncate_some {id : Nat} {length : Int64} (h : sys.truncate id length = some t) :
    ¬length < 0 ∧
      t = { sys with segments := sys.segments.modify id fun s => { s with size := length } } := by
  unfold truncate at h
  split at h
  · cases h
  · rename_i hlength
    exact ⟨hlength,(Option.some.inj h).symm⟩

theorem createOnly_some {zero : M} {name : String} {id : Nat}
    (h : sys.createOnly zero name = some (id,t)) :
    id = sys.segments.length ∧ Extends sys t := by
  unfold createOnly at h
  split at h
  · cases h
  · rename_i free
    cases h
    refine ⟨rfl,by simp,fun id hid => List.getElem?_append_left hid,fun name' id hid => ?_⟩
    by_cases heq : name' = name
    · subst heq
      simp only [Function.update_self, Option.some.injEq, free, reduceCtorEq, iff_false]
      omega
    · simp [Function.update_of_ne heq]

end System

namespace BaseShm
variable {M : Type} {zero : M} {name : String} {n : Int64} {sys t : System M} {made : Option BaseShm}

theorem extends_create (h : create zero name n sys = (made,t)) :
    System.Extends sys t ∧ ∀ b, made = some b → b.shm_ = sys.segments.length := by
  unfold create at h
  split at h
  · cases h
    exact ⟨System.extends_refl sys,by simp⟩
  · rename_i id u hcreate
    obtain ⟨rfl,hext⟩ := System.createOnly_some hcreate
    split at h
    · cases h
      exact ⟨hext,by simp⟩
    · rename_i v htruncate
      obtain ⟨-,rfl⟩ := System.truncate_some htruncate
      have hext' := hext.modify (Nat.le_refl _) fun s => { s with size := n }
      split at h
      · cases h
        exact ⟨hext',by simp⟩
      · cases h
        refine ⟨hext'.modify (Nat.le_refl _) _,fun b hb => ?_⟩
        cases hb
        rfl

theorem openByName_some {b : BaseShm} (h : openByName name sys = some b) :
    b.name = name ∧ sys.names name = some b.shm_ ∧ b.shm_ < sys.segments.length ∧
      ∃ size, sys.size b.shm_ = some size ∧ b.shm_map_ = size.toUInt64 := by
  simp only [openByName, bind, Option.bind_eq_some_iff, pure, Option.some.injEq] at h
  obtain ⟨id,hname,size,hmap,rfl⟩ := h
  unfold System.mapSize at hmap
  split at hmap
  · cases hmap
  · rename_i s hs
    split at hmap
    · cases hmap
    · cases hmap
      obtain ⟨hlt,-⟩ := List.getElem?_eq_some_iff.mp hs
      exact ⟨rfl,hname,hlt,s.size,by simp [System.size, hs],rfl⟩

end BaseShm

namespace SeckeyShm
variable {T : Type} {max_node_num : Nat} {zero : T} {sizeof : UInt64} {name : String}
  {sys t u : System (Vector T max_node_num)} {s s' : SeckeyShm}

theorem extends_create {made : Option SeckeyShm} (h : create zero sizeof name sys = (made,t)) :
    System.Extends sys t ∧ ∀ s, made = some s → s.shm_ = sys.segments.length ∧
      s.shm_map_ = sizeof.toInt64.toUInt64 ∧ t.size s.shm_ = some sizeof.toInt64 ∧ 0 < sizeof.toInt64 := by
  unfold create at h
  split at h
  · rename_i v hcreate
    cases h
    exact ⟨(BaseShm.extends_create hcreate).1,by simp⟩
  · rename_i b v hcreate
    cases h
    obtain ⟨hext,hfresh⟩ := BaseShm.extends_create hcreate
    obtain ⟨-,new⟩ := BaseShm.created hcreate
    refine ⟨hext,fun s hs => ?_⟩
    cases hs
    exact ⟨hfresh b rfl,new.mapped,new.size,new.positive⟩

structure Touches (s : SeckeyShm) (sys u : System (Vector T max_node_num)) : Prop where
  names : u.names = sys.names
  length : u.segments.length = sys.segments.length
  sizes : ∀ id, u.size id = sys.size id
  memory : ∀ id, id ≠ s.shm_ → u.memory id = sys.memory id

theorem touches_store (s : SeckeyShm) (sys : System (Vector T max_node_num))
    (arr : Vector T max_node_num) : Touches s sys (sys.store s.getAddress arr) := by
  refine ⟨rfl,by simp [System.store],fun id => ?_,fun id hid => ?_⟩
  · by_cases heq : s.getAddress = id
    · subst heq
      simp only [System.size, System.store, List.getElem?_modify_eq]
      cases sys.segments[s.getAddress]? <;> rfl
    · simp [System.size, System.store, List.getElem?_modify_ne _ _ heq]
  · have hne : s.getAddress ≠ id := fun heq => hid heq.symm
    simp [System.memory, System.store, List.getElem?_modify_ne _ _ hne]

theorem touches_step [BEq T] {c : Call T} (h : step (s,sys) c = some (s',u)) :
    Touches s sys u ∧ s'.toBaseShm = s.toBaseShm := by
  have none_ : Touches s sys sys := ⟨rfl,rfl,fun _ => rfl,fun _ _ => rfl⟩
  cases c with
  | write target =>
    obtain ⟨⟨b,r⟩,hwrite,heq⟩ := Option.map_eq_some_iff.mp h
    cases heq
    unfold write at hwrite
    split at hwrite
    · cases hwrite
    · split at hwrite
      · split at hwrite
        · cases hwrite
          exact ⟨touches_store s sys _,rfl⟩
        · cases hwrite
      · cases hwrite
        exact ⟨none_,rfl⟩
  | reset =>
    cases h
    exact ⟨none_,rfl⟩
  | find target =>
    obtain ⟨r,-,heq⟩ := Option.map_eq_some_iff.mp h
    cases heq
    exact ⟨none_,rfl⟩
  | findWith handle target =>
    obtain ⟨r,-,heq⟩ := Option.map_eq_some_iff.mp h
    cases heq
    exact ⟨none_,rfl⟩

theorem Holds.congr {l : List T} {arr : Vector T max_node_num} (holds : Holds l s sys arr)
    (hmemory : u.memory s.shm_ = sys.memory s.shm_) : Holds l s u arr :=
  ⟨hmemory.trans holds.seen,holds.bounded,holds.cells⟩

end SeckeyShm

inductive Handle where
  | opened (b : BaseShm)
  | table (s : SeckeyShm)
  deriving DecidableEq, Repr

def Handle.base : Handle → BaseShm
  | .opened b => b
  | .table s => s.toBaseShm

structure Tables (T : Type) (max_node_num : Nat) where
  sys : System (Vector T max_node_num)
  handles : List (Handle × Bool) := []

inductive TablesEvent (T : Type) where
  | create (name : String)
  | openByName (name : String)
  | call (i : Nat) (c : SeckeyShm.Call T)
  | truncate (i : Nat) (length : Int64)
  | deleteShm (i : Nat)
  | destroy (i : Nat)

namespace Tables
variable {T : Type} {max_node_num : Nat}

def handle (st : Tables T max_node_num) (i : Nat) : Option Handle :=
  match st.handles[i]? with
  | some (h,true) => some h
  | _ => none

/-- `Truncate`. The array in a segment that is too small for it now is what `cut` leaves of it. -/
def truncate (sizeof : UInt64) (cut : Int64 → Vector T max_node_num → Vector T max_node_num)
    (b : BaseShm) (length : Int64) (sys : System (Vector T max_node_num)) :
    System (Vector T max_node_num) :=
  match b.truncate length sys with
  | none => sys
  | some sys =>
    { sys with segments := sys.segments.modify b.shm_ fun s =>
        if s.size < sizeof.toInt64 then { s with memory := cut s.size s.memory } else s }

/-- A step with a handle that is alive. A constructor or a `Truncate` that throws makes no handle,
and leaves what it has done so far. `zero`, `sizeof` and `cut` are the layout of the array. -/
def step [BEq T] (zero : T) (sizeof : UInt64)
    (cut : Int64 → Vector T max_node_num → Vector T max_node_num) (st : Tables T max_node_num) :
    TablesEvent T → Option (Tables T max_node_num)
  | .create name =>
    match SeckeyShm.create zero sizeof name st.sys with
    | (none,sys) => some { st with sys := sys }
    | (some s,sys) => some ⟨sys,st.handles ++ [(.table s,true)]⟩
  | .openByName name =>
    match BaseShm.openByName name st.sys with
    | none => some st
    | some b => some { st with handles := st.handles ++ [(.opened b,true)] }
  | .call i c =>
    match st.handle i with
    | some (.table s) =>
      (SeckeyShm.step (s,st.sys) c).map fun r => ⟨r.2,st.handles.set i (.table r.1,true)⟩
    | _ => none
  | .truncate i length =>
    match st.handle i with
    | none => none
    | some h => some { st with sys := truncate sizeof cut h.base length st.sys }
  | .deleteShm i =>
    match st.handle i with
    | none => none
    | some h => some { st with sys := (h.base.deleteShm st.sys).2 }
  | .destroy i =>
    match st.handle i with
    | none => none
    | some h => some ⟨h.base.destroy st.sys,st.handles.set i (h,false)⟩

def callsOn (i : Nat) (es : List (TablesEvent T)) : List (SeckeyShm.Call T) :=
  es.filterMap fun e =>
    match e with
    | .call j c => if j = i then some c else none
    | _ => none

def Extending : TablesEvent T → Prop
  | .truncate _ length => 0 ≤ length
  | _ => True

instance : DecidablePred (Extending : TablesEvent T → Prop)
  | .truncate _ length => inferInstanceAs (Decidable (0 ≤ length))
  | .create _ | .openByName _ | .call _ _ | .deleteShm _ | .destroy _ => isTrue trivial

def removes : TablesEvent T → Option Nat
  | .deleteShm i | .destroy i => some i
  | _ => none

structure TableOk (sizeof : UInt64) (calls : List (SeckeyShm.Call T)) (s : SeckeyShm)
    (sys : System (Vector T max_node_num)) : Prop where
  holds : ∃ arr, SeckeyShm.Holds (SeckeyShm.written max_node_num calls) s sys arr
  mapped : s.shm_map_ = sizeof.toInt64.toUInt64
  room : ∃ size, sys.size s.shm_ = some size ∧ 0 < sizeof.toInt64 ∧ sizeof.toInt64 ≤ size

theorem TableOk.congr {sizeof : UInt64} {calls : List (SeckeyShm.Call T)} {s : SeckeyShm}
    {sys u : System (Vector T max_node_num)} (ok : TableOk sizeof calls s sys)
    (memory : u.memory s.shm_ = sys.memory s.shm_) (size : u.size s.shm_ = sys.size s.shm_) :
    TableOk sizeof calls s u := by
  obtain ⟨arr,holds⟩ := ok.holds
  exact ⟨⟨arr,holds.congr memory⟩,ok.mapped,by rw [size]; exact ok.room⟩

/-- The tables hold what their own calls have written, and no two of them share a segment. -/
structure TablesInv (sizeof : UInt64) (es : List (TablesEvent T)) (st : Tables T max_node_num) :
    Prop where
  known : ∀ (i : Nat) (h : Handle) (live : Bool), st.handles[i]? = some (h,live) →
    h.base.shm_ < st.sys.segments.length
  tables : ∀ (i : Nat) (s : SeckeyShm) (live : Bool), st.handles[i]? = some (.table s,live) →
    TableOk sizeof (callsOn i es) s st.sys
  apart : ∀ (i j : Nat) (s : SeckeyShm) (h : Handle) (live live' : Bool),
    st.handles[i]? = some (.table s,live) → st.handles[j]? = some (h,live') →
    h.base.shm_ = s.shm_ →
    sizeof.toInt64 ≤ h.base.shm_map_.toInt64 ∧ ∀ s', h = .table s' → i = j
  past : ∀ i, st.handles.length ≤ i → callsOn i es = []

section Steps
variable {sizeof : UInt64} {es : List (TablesEvent T)} {st st' : Tables T max_node_num}

theorem callsOn_snoc (i : Nat) (es : List (TablesEvent T)) (e : TablesEvent T) :
    callsOn i (es ++ [e]) = callsOn i es ++ callsOn i [e] := by
  simp [callsOn]

theorem snoc_cases {A : Type} {l : List A} {a b : A} {j : Nat} (h : (l ++ [a])[j]? = some b) :
    l[j]? = some b ∨ (j = l.length ∧ b = a) := by
  obtain hlt | hge := Nat.lt_or_ge j l.length
  · rw [List.getElem?_append_left hlt] at h
    exact .inl h
  · obtain ⟨hlt,-⟩ := List.getElem?_eq_some_iff.mp h
    rw [List.length_append, List.length_singleton] at hlt
    obtain rfl : j = l.length := by omega
    rw [List.getElem?_concat_length] at h
    exact .inr ⟨rfl,(Option.some.inj h).symm⟩

theorem set_cases {A : Type} {l : List A} {a b : A} {i j : Nat} (h : (l.set i a)[j]? = some b) :
    (j = i ∧ b = a) ∨ (j ≠ i ∧ l[j]? = some b) := by
  by_cases heq : j = i
  · subst heq
    obtain ⟨hlt,hb⟩ := List.getElem?_eq_some_iff.mp h
    exact .inl ⟨rfl,by simpa using hb.symm⟩
  · rw [List.getElem?_set_ne (Ne.symm heq)] at h
    exact .inr ⟨heq,h⟩

theorem TablesInv.carry (inv : TablesInv sizeof es st) {e : TablesEvent T}
    (quiet : ∀ i, callsOn i [e] = []) (length : st.sys.segments.length ≤ st'.sys.segments.length)
    (same : st'.handles.length = st.handles.length)
    (handles : ∀ (i : Nat) (h : Handle) (live : Bool), st'.handles[i]? = some (h,live) →
      ∃ live, st.handles[i]? = some (h,live))
    (segments : ∀ (i : Nat) (s : SeckeyShm) (live : Bool), st.handles[i]? = some (.table s,live) →
      st'.sys.memory s.shm_ = st.sys.memory s.shm_ ∧
        (st'.sys.size s.shm_ = st.sys.size s.shm_ ∨
          ∃ size, st'.sys.size s.shm_ = some size ∧ sizeof.toInt64 ≤ size)) :
    TablesInv sizeof (es ++ [e]) st' := by
  have calls : ∀ i, callsOn i (es ++ [e]) = callsOn i es := by
    intro i
    rw [callsOn_snoc, quiet i, List.append_nil]
  refine ⟨?_,?_,?_,?_⟩
  · intro i h live hi
    obtain ⟨live',hi⟩ := handles i h live hi
    exact Nat.lt_of_lt_of_le (inv.known i h live' hi) length
  · intro i s live hi
    obtain ⟨live',hi⟩ := handles i _ live hi
    have ok := inv.tables i s live' hi
    obtain ⟨arr,holds⟩ := ok.holds
    obtain ⟨hmemory,hroom⟩ := segments i s live' hi
    rw [calls]
    refine ⟨⟨arr,holds.congr hmemory⟩,ok.mapped,?_⟩
    obtain ⟨size₀,hsize,hpos,hle⟩ := ok.room
    obtain heq | ⟨size',hsize',hle'⟩ := hroom
    · exact ⟨size₀,heq.trans hsize,hpos,hle⟩
    · exact ⟨size',hsize',hpos,hle'⟩
  · intro i j s h live live' hi hj hshare
    obtain ⟨_,hi⟩ := handles i _ live hi
    obtain ⟨_,hj⟩ := handles j h live' hj
    exact inv.apart i j s h _ _ hi hj hshare
  · intro i hi
    rw [calls]
    exact inv.past i (same ▸ hi)

theorem memory_extends {M : Type} {sys t : System M} (hext : System.Extends sys t) {id : Nat}
    (hid : id < sys.segments.length) : t.memory id = sys.memory id ∧ t.size id = sys.size id := by
  simp only [System.memory, System.size, hext.segments id hid, and_self]

theorem TablesInv.extend (inv : TablesInv sizeof es st) {e : TablesEvent T}
    (quiet : ∀ i, callsOn i [e] = []) {sys : System (Vector T max_node_num)}
    (hext : System.Extends st.sys sys) :
    TablesInv sizeof (es ++ [e]) { st with sys := sys } :=
  inv.carry quiet hext.length rfl (fun _ _ live hi => ⟨live,hi⟩) fun i _ live hi =>
    have same := memory_extends hext (inv.known i _ live hi)
    ⟨same.1,.inl same.2⟩

theorem TablesInv.pushTable (inv : TablesInv sizeof es st) {s : SeckeyShm}
    (known : s.shm_ < st.sys.segments.length)
    (fresh : ∀ (i : Nat) (h : Handle) (live : Bool), st.handles[i]? = some (h,live) →
      h.base.shm_ ≠ s.shm_)
    (ok : TableOk sizeof [] s st.sys) :
    TablesInv sizeof es { st with handles := st.handles ++ [(.table s,true)] } := by
  refine ⟨?_,?_,?_,?_⟩
  · intro i h live hi
    obtain hi | ⟨-,heq⟩ := snoc_cases hi
    · exact inv.known i h live hi
    · cases heq
      exact known
  · intro i s' live hi
    obtain hi | ⟨rfl,heq⟩ := snoc_cases hi
    · exact inv.tables i s' live hi
    · cases heq
      rw [inv.past _ (Nat.le_refl _)]
      exact ok
  · intro i j s' h live live' hi hj hshare
    obtain hi | ⟨rfl,heq⟩ := snoc_cases hi
    · obtain hj | ⟨-,heq⟩ := snoc_cases hj
      · exact inv.apart i j s' h live live' hi hj hshare
      · cases heq
        exact absurd hshare.symm (fresh i _ live hi)
    · cases heq
      obtain hj | ⟨rfl,heq⟩ := snoc_cases hj
      · exact absurd hshare (fresh j h live' hj)
      · cases heq
        refine ⟨?_,fun _ _ => rfl⟩
        simp [Handle.base, ok.mapped]
  · intro i hi
    exact inv.past i (by simp at hi; omega)

theorem TablesInv.pushOpened (inv : TablesInv sizeof es st) {b : BaseShm}
    (known : b.shm_ < st.sys.segments.length)
    (above : ∀ (i : Nat) (s : SeckeyShm) (live : Bool), st.handles[i]? = some (.table s,live) →
      s.shm_ = b.shm_ → sizeof.toInt64 ≤ b.shm_map_.toInt64) :
    TablesInv sizeof es { st with handles := st.handles ++ [(.opened b,true)] } := by
  refine ⟨?_,?_,?_,?_⟩
  · intro i h live hi
    obtain hi | ⟨-,heq⟩ := snoc_cases hi
    · exact inv.known i h live hi
    · cases heq
      exact known
  · intro i s live hi
    obtain hi | ⟨-,heq⟩ := snoc_cases hi
    · exact inv.tables i s live hi
    · cases heq
  · intro i j s h live live' hi hj hshare
    obtain hi | ⟨-,heq⟩ := snoc_cases hi
    · obtain hj | ⟨-,heq⟩ := snoc_cases hj
      · exact inv.apart i j s h live live' hi hj hshare
      · cases heq
        exact ⟨above i s live hi hshare.symm,by simp⟩
    · cases heq
  · intro i hi
    exact inv.past i (by simp at hi; omega)

theorem TablesInv.call [BEq T] (inv : TablesInv sizeof es st) {i : Nat} {s s' : SeckeyShm}
    {c : SeckeyShm.Call T} {sys : System (Vector T max_node_num)}
    (hi : st.handles[i]? = some (.table s,true))
    (hcall : SeckeyShm.step (s,st.sys) c = some (s',sys)) :
    TablesInv sizeof (es ++ [.call i c]) ⟨sys,st.handles.set i (.table s',true)⟩ := by
  obtain ⟨touches,hbase⟩ := SeckeyShm.touches_step hcall
  have ok := inv.tables i s true hi
  -- the handle is the one it was, but for the number of its elements
  have before : ∀ (j : Nat) (h : Handle) (live : Bool),
      (st.handles.set i (.table s',true))[j]? = some (h,live) →
      ∃ h₀, st.handles[j]? = some (h₀,live) ∧ h₀.base = h.base ∧
        (∀ s, h = .table s → ∃ s₀, h₀ = .table s₀) ∧ (j ≠ i → h₀ = h) := by
    intro j h live hj
    obtain ⟨rfl,heq⟩ | ⟨-,hj⟩ := set_cases hj
    · cases heq
      exact ⟨_,hi,hbase.symm,fun _ _ => ⟨s,rfl⟩,fun hne => absurd rfl hne⟩
    · exact ⟨h,hj,rfl,fun s hs => ⟨s,hs⟩,fun _ => rfl⟩
  refine ⟨?_,?_,?_,?_⟩
  · intro j h live hj
    obtain ⟨h₀,hj,hsame,-⟩ := before j h live hj
    rw [← hsame, touches.length]
    exact inv.known j h₀ live hj
  · intro j u live hj
    obtain ⟨rfl,heq⟩ | ⟨hne,hj⟩ := set_cases hj
    · cases heq
      obtain ⟨arr,holds⟩ := ok.holds
      obtain ⟨t,sys',arr',hstep,-,-,next⟩ := SeckeyShm.holds_step holds c
      cases hcall.symm.trans hstep
      have hcalls : callsOn j (es ++ [.call j c]) = callsOn j es ++ [c] := by
        simp [callsOn]
      rw [hcalls]
      refine ⟨⟨arr',?_⟩,?_,?_⟩
      · rw [SeckeyShm.written_snoc]
        exact next
      · rw [hbase]
        exact ok.mapped
      · rw [hbase, touches.sizes]
        exact ok.room
    · have hcalls : callsOn j (es ++ [.call i c]) = callsOn j es := by
        simp [callsOn, Ne.symm hne]
      have hother : u.shm_ ≠ s.shm_ := fun hshare =>
        hne ((inv.apart j i u (.table s) live true hj hi hshare.symm).2 s rfl)
      rw [hcalls]
      exact (inv.tables j u live hj).congr (touches.memory _ hother) (touches.sizes _)
  · intro j k u h live live' hj hk hshare
    obtain ⟨h₀,hj,hsame,htable,-⟩ := before j _ live hj
    obtain ⟨u₀,rfl⟩ := htable u rfl
    obtain ⟨h₁,hk,hsame',htable',-⟩ := before k h live' hk
    have hshare' : h₁.base.shm_ = u₀.shm_ := by
      rw [hsame', hshare]
      exact (congrArg BaseShm.shm_ hsame).symm
    obtain ⟨habove,hone⟩ := inv.apart j k u₀ h₁ live live' hj hk hshare'
    refine ⟨hsame' ▸ habove,fun v hv => ?_⟩
    obtain ⟨v₀,hv₀⟩ := htable' v hv
    exact hone v₀ hv₀
  · intro j hj
    have hne : j ≠ i := by
      rintro rfl
      obtain ⟨hlt,-⟩ := List.getElem?_eq_some_iff.mp hi
      simp at hj
      omega
    have hcalls : callsOn j (es ++ [.call i c]) = callsOn j es := by
      simp [callsOn, Ne.symm hne]
    rw [hcalls]
    exact inv.past j (by simpa using hj)

theorem handle_some {i : Nat} {h : Handle} (hi : st.handle i = some h) :
    st.handles[i]? = some (h,true) := by
  unfold handle at hi
  split at hi
  · rename_i h' hget
    cases hi
    exact hget
  · cases hi

theorem le_add_of_not_neg {a b : Int64} (ha : 0 ≤ a) (hb : 0 ≤ b) (h : ¬a + b < 0) : a ≤ a + b := by
  have := a.toInt_lt
  have := b.toInt_lt
  simp only [Int64.le_iff_toInt_le, Int64.lt_iff_toInt_lt, Int64.toInt_add, Int64.toInt_zero] at *
  have hcases : (a.toInt + b.toInt).bmod (2 ^ 64) = a.toInt + b.toInt ∨
      (a.toInt + b.toInt).bmod (2 ^ 64) = a.toInt + b.toInt - 2 ^ 64 := by
    rw [Int.bmod_def]
    omega
  omega

/-- `Truncate` with a length that is not negative, through any handle, leaves each table within its
segment. -/
theorem TablesInv.truncate (inv : TablesInv sizeof es st)
    {cut : Int64 → Vector T max_node_num → Vector T max_node_num} {i : Nat} {h : Handle}
    {length : Int64} (hi : st.handles[i]? = some (h,true)) (hlength : 0 ≤ length) :
    TablesInv sizeof (es ++ [.truncate i length])
      { st with sys := truncate sizeof cut h.base length st.sys } := by
  unfold Tables.truncate
  cases htruncate : h.base.truncate length st.sys with
  | none => exact inv.extend (fun _ => rfl) (System.extends_refl st.sys)
  | some sys =>
    obtain ⟨hroom,rfl⟩ := System.truncate_some htruncate
    refine inv.carry (fun _ => rfl) (by simp) rfl (fun _ _ live hj => ⟨live,hj⟩) fun j s live hj => ?_
    by_cases heq : h.base.shm_ = s.shm_
    · obtain ⟨habove,-⟩ := inv.apart j i s h live true hj hi heq
      obtain ⟨size,hsize,hpos,-⟩ := (inv.tables j s live hj).room
      obtain ⟨seg,hseg,-⟩ := Option.map_eq_some_iff.mp hsize
      have hle : sizeof.toInt64 ≤ (h.base.shm_map_ + length.toUInt64).toInt64 := by
        simp only [UInt64.toInt64_add, Int64.toInt64_toUInt64] at hroom ⊢
        have hmap : 0 ≤ h.base.shm_map_.toInt64 := Int64.le_trans (Int64.le_of_lt hpos) habove
        exact Int64.le_trans habove (le_add_of_not_neg hmap hlength hroom)
      generalize (h.base.shm_map_ + length.toUInt64).toInt64 = size' at hle ⊢
      have hfits : ¬size' < sizeof.toInt64 := Int64.not_lt.mpr hle
      refine ⟨?_,.inr ⟨size',?_,hle⟩⟩
      · simp [System.memory, heq, hseg, hfits]
      · simp [System.size, heq, hseg, hfits]
    · simp [System.memory, System.size, List.getElem?_modify_ne _ _ heq]

theorem TablesInv.remove (inv : TablesInv sizeof es st) {e : TablesEvent T}
    (quiet : ∀ i, callsOn i [e] = []) (name : String) {handles : List (Handle × Bool)}
    (same : handles.length = st.handles.length)
    (old : ∀ (i : Nat) (h : Handle) (live : Bool), handles[i]? = some (h,live) →
      ∃ live, st.handles[i]? = some (h,live)) :
    TablesInv sizeof (es ++ [e]) ⟨(st.sys.remove name).2,handles⟩ :=
  inv.carry quiet (Nat.le_refl _) same old fun _ _ _ _ => ⟨rfl,.inl rfl⟩

theorem destroyed_old {i : Nat} {h : Handle} (hi : st.handles[i]? = some (h,true)) (j : Nat)
    (h' : Handle) (live : Bool) (hj : (st.handles.set i (h,false))[j]? = some (h',live)) :
    ∃ live, st.handles[j]? = some (h',live) := by
  obtain ⟨rfl,heq⟩ | ⟨-,hj⟩ := set_cases hj
  · cases heq
    exact ⟨true,hi⟩
  · exact ⟨live,hj⟩

theorem tablesInv_create [BEq T] (inv : TablesInv sizeof es st) {zero : T}
    {cut : Int64 → Vector T max_node_num → Vector T max_node_num} {name : String}
    (hstep : step zero sizeof cut st (.create name) = some st') :
    TablesInv sizeof (es ++ [.create name]) st' := by
  simp only [step] at hstep
  split at hstep
  · rename_i sys hcreate
    cases hstep
    exact inv.extend (fun _ => rfl) (SeckeyShm.extends_create hcreate).1
  · rename_i s sys hcreate
    cases hstep
    obtain ⟨hext,hnew⟩ := SeckeyShm.extends_create hcreate
    obtain ⟨hfresh,hmapped,hsize,hpos⟩ := hnew s rfl
    obtain ⟨-,-,arr,holds⟩ := SeckeyShm.holds_created hcreate
    have hlt : s.shm_ < sys.segments.length := by
      obtain ⟨seg,hseg,-⟩ := Option.map_eq_some_iff.mp hsize
      exact (List.getElem?_eq_some_iff.mp hseg).1
    refine (inv.extend (fun _ => rfl) hext).pushTable hlt ?_
      ⟨⟨arr,holds⟩,hmapped,sizeof.toInt64,hsize,hpos,Int64.le_refl _⟩
    intro i h live hi
    have := inv.known i h live hi
    omega

theorem tablesInv_open (inv : TablesInv sizeof es st) {name : String} {b : BaseShm}
    (hopen : BaseShm.openByName name st.sys = some b) :
    TablesInv sizeof (es ++ [.openByName name])
      { st with handles := st.handles ++ [(.opened b,true)] } := by
  obtain ⟨-,-,hlt,size,hsize,hmap⟩ := BaseShm.openByName_some hopen
  refine (inv.extend (fun _ => rfl) (System.extends_refl st.sys)).pushOpened hlt ?_
  intro i s live hi hshare
  obtain ⟨size',hsize',-,hle⟩ := (inv.tables i s live hi).room
  rw [hshare, hsize] at hsize'
  cases hsize'
  simpa [hmap] using hle

theorem tablesInv_step [BEq T] (inv : TablesInv sizeof es st) {zero : T}
    {cut : Int64 → Vector T max_node_num → Vector T max_node_num} {e : TablesEvent T}
    (hextending : Extending e) (hstep : step zero sizeof cut st e = some st') :
    TablesInv sizeof (es ++ [e]) st' := by
  cases e with
  | create name => exact tablesInv_create inv hstep
  | openByName name =>
    simp only [step] at hstep
    split at hstep
    · cases hstep
      exact inv.extend (fun _ => rfl) (System.extends_refl st.sys)
    · rename_i b hopen
      cases hstep
      exact tablesInv_open inv hopen
  | call i c =>
    simp only [step] at hstep
    split at hstep
    · rename_i s hi
      obtain ⟨⟨s',sys⟩,hcall,rfl⟩ := Option.map_eq_some_iff.mp hstep
      exact inv.call (handle_some hi) hcall
    · cases hstep
  | truncate i length =>
    simp only [step] at hstep
    split at hstep
    · cases hstep
    · rename_i h hi
      cases hstep
      exact inv.truncate (handle_some hi) hextending
  | deleteShm i =>
    simp only [step] at hstep
    split at hstep
    · cases hstep
    · cases hstep
      exact inv.remove (fun _ => rfl) _ rfl fun _ _ live hj => ⟨live,hj⟩
  | destroy i =>
    simp only [step] at hstep
    split at hstep
    · cases hstep
    · rename_i h hi
      cases hstep
      exact inv.remove (fun _ => rfl) _ (by simp) (destroyed_old (handle_some hi))

theorem tablesInv_run [BEq T] {zero : T}
    {cut : Int64 → Vector T max_node_num → Vector T max_node_num}
    {sys : System (Vector T max_node_num)} (hextending : ∀ e ∈ es, Extending e)
    (run : exec (step zero sizeof cut) ⟨sys,[]⟩ es = some st) : TablesInv sizeof es st := by
  refine exec_induction (C := fun _ e => Extending e) (I := TablesInv sizeof) ?_
    (fun es st e st' inv hextending hstep => tablesInv_step inv hextending hstep)
    (meets_iff.mpr fun _ e _ hes _ => hextending e (hes.subset (by simp))) run
  refine ⟨?_,?_,?_,fun _ _ => rfl⟩
  · intro i h live hi
    cases hi
  · intro i s live hi
    cases hi
  · intro i j s h live live' hi
    cases hi

/-- Whatever is made, opened, extended, deleted or destroyed in between: a table holds what was
written through its own handle since its last `Reset`, no other table has its segment, the segment
is as large as the array at least, and each call of a handle that is alive comes back. -/
theorem tables_isolated [BEq T] {zero : T}
    {cut : Int64 → Vector T max_node_num → Vector T max_node_num}
    {sys : System (Vector T max_node_num)} (hextending : ∀ e ∈ es, Extending e)
    (run : exec (step zero sizeof cut) ⟨sys,[]⟩ es = some st) {i : Nat} {s : SeckeyShm} {live : Bool}
    (hi : st.handles[i]? = some (.table s,live)) :
    (∃ arr, SeckeyShm.Holds (SeckeyShm.written max_node_num (callsOn i es)) s st.sys arr ∧
      ∀ target, ∃ r, SeckeyShm.find target s st.sys = some r ∧ SeckeyShm.Earliest arr
        (SeckeyShm.written max_node_num (callsOn i es)) (fun x => target == x) r) ∧
    (∃ size, st.sys.size s.shm_ = some size ∧ sizeof.toInt64 ≤ size) ∧
    (∀ j s' live', st.handles[j]? = some (.table s',live') → s'.shm_ = s.shm_ → j = i) ∧
    (live = true → ∀ c, (step zero sizeof cut st (.call i c)).isSome = true) := by
  have inv := tablesInv_run hextending run
  have ok := inv.tables i s live hi
  obtain ⟨arr,holds⟩ := ok.holds
  obtain ⟨size,hsize,-,hle⟩ := ok.room
  refine ⟨⟨arr,holds,fun target => holds.findWith (fun x y => x == y) target⟩,⟨size,hsize,hle⟩,
    fun j s' live' hj hshare => ?_,?_⟩
  · exact ((inv.apart i j s (.table s') live live' hi hj hshare).2 s' rfl).symm
  · rintro rfl c
    obtain ⟨t,u,arr',hcall,-⟩ := SeckeyShm.holds_step holds c
    simp [step, handle, hi, hcall]

end Steps

def cutWords (size : Int64) (arr : Vector UInt32 2) : Vector UInt32 2 :=
  .ofFn fun i => if 4 * (i.val + 1) ≤ size.toInt.toNat then arr[i] else 0

theorem tables_isolated_sameName :
    ∃ st s, exec (step (0 : UInt32) 8 cutWords) (⟨{},[]⟩ : Tables UInt32 2) [.create "seckey",
        .call 0 (.write 7),.truncate 0 16,.deleteShm 0,.create "seckey",.call 1 (.write 9),
        .truncate 0 0] = some st ∧
      st.handles[0]? = some (.table s,true) ∧ SeckeyShm.find 7 s st.sys = some (some 0) ∧
      SeckeyShm.find 9 s st.sys = some none := by
  obtain ⟨st,s,run,hi⟩ : ∃ st s, exec (step (0 : UInt32) 8 cutWords) (⟨{},[]⟩ : Tables UInt32 2)
      [.create "seckey",.call 0 (.write 7),.truncate 0 16,.deleteShm 0,.create "seckey",
        .call 1 (.write 9),.truncate 0 0] = some st ∧ st.handles[0]? = some (.table s,true) :=
    ⟨_,_,rfl,rfl⟩
  obtain ⟨⟨arr,-,hfind⟩,-,-,-⟩ := tables_isolated (by decide) run hi
  obtain ⟨r,hr,hearliest⟩ := hfind 7
  obtain ⟨r',hr',hearliest'⟩ := hfind 9
  obtain rfl : r = some 0 := hearliest.index
  obtain rfl : r' = none := hearliest'.index
  exact ⟨st,s,run,hi,hr,hr'⟩

-- a negative length cuts the array, and what was written is not found any more
example : ((exec (step (0 : UInt32) 8 cutWords) (⟨{},[]⟩ : Tables UInt32 2) [.create "seckey",
    .call 0 (.write 7),.call 0 (.write 9),.truncate 0 (-4)]).map fun st =>
      (SeckeyShm.find 9 ⟨⟨"seckey",0,8⟩,2⟩ st.sys,st.sys.size 0)) = some (some none,some 4) := by
  rfl

section Names
variable [BEq T] {zero : T} {sizeof : UInt64}
  {cut : Int64 → Vector T max_node_num → Vector T max_node_num}
  {sys₀ : System (Vector T max_node_num)}
  {es post : List (TablesEvent T)} {st st' : Tables T max_node_num} {e : TablesEvent T}

/-- The handle `i` was made under the name by the event before `post`. -/
def MadeBefore (zero : T) (sizeof : UInt64)
    (cut : Int64 → Vector T max_node_num → Vector T max_node_num)
    (sys₀ : System (Vector T max_node_num)) (es : List (TablesEvent T)) (i : Nat) (name : String) (post : List (TablesEvent T)) : Prop :=
  ∃ pre e st₀ st₁, es = pre ++ e :: post ∧ (e = .create name ∨ e = .openByName name) ∧
    exec (step zero sizeof cut) ⟨sys₀,[]⟩ pre = some st₀ ∧ step zero sizeof cut st₀ e = some st₁ ∧
    st₀.handles.length = i ∧ st₁.handles.length = i + 1

/-- None of these events has deleted or destroyed a handle of the name. -/
def Intact (st : Tables T max_node_num) (name : String) (post : List (TablesEvent T)) : Prop :=
  ∀ e ∈ post, ∀ (j : Nat) (h : Handle) (live : Bool), removes e = some j →
    st.handles[j]? = some (h,live) → h.base.name ≠ name

theorem MadeBefore.snoc {i : Nat} {name : String}
    (h : MadeBefore zero sizeof cut sys₀ es i name post) (e : TablesEvent T) :
    MadeBefore zero sizeof cut sys₀ (es ++ [e]) i name (post ++ [e]) := by
  obtain ⟨pre,e',st₀,st₁,rfl,hmade⟩ := h
  exact ⟨pre,e',st₀,st₁,by simp,hmade⟩

structure NameStep (e : TablesEvent T) (st st' : Tables T max_node_num) : Prop where
  handles : ∀ (i : Nat) (h : Handle) (live : Bool), st'.handles[i]? = some (h,live) →
    (∃ h₀ live₀, st.handles[i]? = some (h₀,live₀) ∧ h₀.base = h.base) ∨
    (i = st.handles.length ∧ st'.handles.length = st.handles.length + 1 ∧
      (e = .create h.base.name ∨ e = .openByName h.base.name) ∧
      st'.sys.names h.base.name = some h.base.shm_ ∧ h.base.shm_ < st'.sys.segments.length)
  segments : st.sys.segments.length ≤ st'.sys.segments.length
  kept : st.handles.length ≤ st'.handles.length
  names : ∀ name, ∀ id < st.sys.segments.length, (st'.sys.names name = some id ↔
    st.sys.names name = some id ∧ ∀ (j : Nat) (h : Handle) (live : Bool), removes e = some j →
      st.handles[j]? = some (h,live) → h.base.name ≠ name)
  removed : ∀ j, removes e = some j → j < st.handles.length

omit [BEq T] in
theorem truncate_keeps (sizeof : UInt64)
    (cut : Int64 → Vector T max_node_num → Vector T max_node_num) (b : BaseShm) (length : Int64)
    (sys : System (Vector T max_node_num)) :
    (truncate sizeof cut b length sys).segments.length = sys.segments.length ∧
      (truncate sizeof cut b length sys).names = sys.names := by
  unfold truncate
  cases htruncate : b.truncate length sys with
  | none => exact ⟨rfl,rfl⟩
  | some t =>
    obtain ⟨-,rfl⟩ := System.truncate_some htruncate
    exact ⟨by simp,rfl⟩

omit [BEq T] in
theorem nameStep_quiet (hquiet : removes e = none) {sys : System (Vector T max_node_num)}
    (hlength : st.sys.segments.length ≤ sys.segments.length)
    (hnames : ∀ name, ∀ id < st.sys.segments.length,
      sys.names name = some id ↔ st.sys.names name = some id) :
    NameStep e st { st with sys := sys } := by
  refine ⟨fun i h live hi => .inl ⟨h,live,hi,rfl⟩,hlength,Nat.le_refl _,fun name id hid => ?_,?_⟩
  · rw [hnames name id hid]
    simp [hquiet]
  · simp [hquiet]

omit [BEq T] in
theorem nameStep_new (hquiet : removes e = none) {sys : System (Vector T max_node_num)} {h : Handle}
    (hlength : st.sys.segments.length ≤ sys.segments.length)
    (hnames : ∀ name, ∀ id < st.sys.segments.length,
      sys.names name = some id ↔ st.sys.names name = some id)
    (hmade : e = .create h.base.name ∨ e = .openByName h.base.name)
    (hlead : sys.names h.base.name = some h.base.shm_) (hknown : h.base.shm_ < sys.segments.length) :
    NameStep e st ⟨sys,st.handles ++ [(h,true)]⟩ := by
  refine ⟨fun i h' live hi => ?_,hlength,by simp,fun name id hid => ?_,?_⟩
  · obtain hi | ⟨rfl,heq⟩ := snoc_cases hi
    · exact .inl ⟨h',live,hi,rfl⟩
    · cases heq
      exact .inr ⟨rfl,by simp,hmade,hlead,hknown⟩
  · rw [hnames name id hid]
    simp [hquiet]
  · simp [hquiet]

omit [BEq T] in
theorem nameStep_remove {i : Nat} {h : Handle} (hremoves : removes e = some i)
    (hi : st.handles[i]? = some (h,true)) {handles : List (Handle × Bool)}
    (same : handles.length = st.handles.length)
    (old : ∀ (j : Nat) (h : Handle) (live : Bool), handles[j]? = some (h,live) →
      ∃ live, st.handles[j]? = some (h,live)) :
    NameStep e st ⟨(st.sys.remove h.base.name).2,handles⟩ := by
  refine ⟨fun j h' live hj => ?_,Nat.le_refl _,same.ge,fun name id hid => ?_,fun j hj => ?_⟩
  · obtain ⟨live₀,hj⟩ := old j h' live hj
    exact .inl ⟨h',live₀,hj,rfl⟩
  · by_cases heq : name = h.base.name
    · refine iff_of_false ?_ fun hkept => hkept.2 i h true hremoves hi heq.symm
      simp [System.remove, heq]
    · simp only [System.remove, Function.update_of_ne heq]
      refine ⟨fun hname => ⟨hname,fun j h' live hj hj' => ?_⟩,And.left⟩
      cases hremoves.symm.trans hj
      cases hi.symm.trans hj'
      exact Ne.symm heq
  · cases hremoves.symm.trans hj
    exact (List.getElem?_eq_some_iff.mp hi).1

theorem nameStep_step (hstep : step zero sizeof cut st e = some st') : NameStep e st st' := by
  cases e with
  | create name =>
    simp only [step] at hstep
    split at hstep
    · rename_i sys hcreate
      cases hstep
      obtain ⟨hext,-⟩ := SeckeyShm.extends_create hcreate
      exact nameStep_quiet rfl hext.length hext.names
    · rename_i s sys hcreate
      cases hstep
      obtain ⟨hext,hnew⟩ := SeckeyShm.extends_create hcreate
      obtain ⟨rfl,hlead,-⟩ := SeckeyShm.holds_created hcreate
      obtain ⟨-,-,hsize,-⟩ := hnew s rfl
      obtain ⟨seg,hseg,-⟩ := Option.map_eq_some_iff.mp hsize
      exact nameStep_new rfl hext.length hext.names (.inl rfl) hlead
        (List.getElem?_eq_some_iff.mp hseg).1
  | openByName name =>
    simp only [step] at hstep
    split at hstep
    · cases hstep
      exact nameStep_quiet rfl (Nat.le_refl _) fun _ _ _ => Iff.rfl
    · rename_i b hopen
      cases hstep
      obtain ⟨rfl,hlead,hlt,-⟩ := BaseShm.openByName_some hopen
      exact nameStep_new rfl (Nat.le_refl _) (fun _ _ _ => Iff.rfl) (.inr rfl) hlead hlt
  | call i c =>
    simp only [step] at hstep
    split at hstep
    · rename_i s hi
      obtain ⟨⟨s',sys⟩,hcall,rfl⟩ := Option.map_eq_some_iff.mp hstep
      obtain ⟨touches,hbase⟩ := SeckeyShm.touches_step hcall
      refine ⟨fun j h live hj => ?_,touches.length.ge,by simp,fun name id _ => ?_,by simp [removes]⟩
      · obtain ⟨rfl,heq⟩ | ⟨-,hj⟩ := set_cases hj
        · cases heq
          exact .inl ⟨_,true,handle_some hi,hbase.symm⟩
        · exact .inl ⟨h,live,hj,rfl⟩
      · simp [touches.names, removes]
    · cases hstep
  | truncate i length =>
    simp only [step] at hstep
    split at hstep
    · cases hstep
    · rename_i h hi
      cases hstep
      obtain ⟨hlength,hnames⟩ := truncate_keeps sizeof cut h.base length st.sys
      exact nameStep_quiet rfl hlength.ge fun name _ _ => by rw [hnames]
  | deleteShm i =>
    simp only [step] at hstep
    split at hstep
    · cases hstep
    · rename_i h hi
      cases hstep
      exact nameStep_remove rfl (handle_some hi) rfl fun _ _ live hj => ⟨live,hj⟩
  | destroy i =>
    simp only [step] at hstep
    split at hstep
    · cases hstep
    · rename_i h hi
      cases hstep
      exact nameStep_remove rfl (handle_some hi) (by simp) (destroyed_old (handle_some hi))

omit [BEq T] in
theorem intact_step (hstep : NameStep e st st') {name : String} {events : List (TablesEvent T)}
    (past : ∀ e ∈ events, ∀ j, removes e = some j → j < st.handles.length) :
    Intact st' name events ↔ Intact st name events := by
  constructor
  · intro intact e' he' j h live hj hget
    obtain ⟨h',live',hget',hbase⟩ : ∃ h' live', st'.handles[j]? = some (h',live') ∧
        h'.base = h.base := by
      have hlt : j < st'.handles.length := Nat.lt_of_lt_of_le (past e' he' j hj) hstep.kept
      obtain ⟨h₀,live₀,hget₀,hbase⟩ | ⟨rfl,-⟩ :=
        hstep.handles j _ _ (List.getElem?_eq_getElem hlt)
      · cases hget.symm.trans hget₀
        exact ⟨_,_,List.getElem?_eq_getElem hlt,hbase.symm⟩
      · exact absurd (past e' he' _ hj) (Nat.lt_irrefl _)
    exact hbase ▸ intact e' he' j h' live' hj hget'
  · intro intact e' he' j h live hj hget
    obtain ⟨h₀,live₀,hget₀,hbase⟩ | ⟨rfl,-⟩ := hstep.handles j h live hget
    · exact hbase ▸ intact e' he' j h₀ live₀ hj hget₀
    · exact absurd (past e' he' _ hj) (Nat.lt_irrefl _)

structure NamesInv (zero : T) (sizeof : UInt64)
    (cut : Int64 → Vector T max_node_num → Vector T max_node_num)
    (sys₀ : System (Vector T max_node_num)) (es : List (TablesEvent T))
    (st : Tables T max_node_num) : Prop where
  known : ∀ (i : Nat) (h : Handle) (live : Bool), st.handles[i]? = some (h,live) →
    h.base.shm_ < st.sys.segments.length
  past : ∀ e ∈ es, ∀ j, removes e = some j → j < st.handles.length
  leads : ∀ (i : Nat) (h : Handle) (live : Bool), st.handles[i]? = some (h,live) →
    ∃ post, MadeBefore zero sizeof cut sys₀ es i h.base.name post ∧
      (st.sys.names h.base.name = some h.base.shm_ ↔ Intact st h.base.name post)

theorem MadeBefore.mem {i : Nat} {name : String} (h : MadeBefore zero sizeof cut sys₀ es i name post) :
    ∀ e ∈ post, e ∈ es := by
  obtain ⟨pre,e',st₀,st₁,rfl,-⟩ := h
  exact fun e he => List.mem_append_right _ (List.mem_cons_of_mem _ he)

theorem namesInv_step (run : exec (step zero sizeof cut) ⟨sys₀,[]⟩ es = some st)
    (inv : NamesInv zero sizeof cut sys₀ es st) (hstep : step zero sizeof cut st e = some st') :
    NamesInv zero sizeof cut sys₀ (es ++ [e]) st' := by
  have hname := nameStep_step hstep
  have past : ∀ e' ∈ es ++ [e], ∀ j, removes e' = some j → j < st.handles.length := by
    intro e' he' j hj
    obtain he' | he' := List.mem_append.mp he'
    · exact inv.past e' he' j hj
    · cases List.mem_singleton.mp he'
      exact hname.removed j hj
  have known : ∀ (i : Nat) (h : Handle) (live : Bool), st'.handles[i]? = some (h,live) →
      h.base.shm_ < st'.sys.segments.length := by
    intro i h live hi
    obtain ⟨h₀,live₀,hi₀,hbase⟩ | ⟨-,-,-,-,hknown⟩ := hname.handles i h live hi
    · exact hbase ▸ Nat.lt_of_lt_of_le (inv.known i h₀ live₀ hi₀) hname.segments
    · exact hknown
  refine ⟨known,fun e' he' j hj => Nat.lt_of_lt_of_le (past e' he' j hj) hname.kept,?_⟩
  intro i h live hi
  obtain ⟨h₀,live₀,hi₀,hbase⟩ | ⟨rfl,hlength,hmade,hlead,-⟩ := hname.handles i h live hi
  · obtain ⟨post,made,hiff⟩ := inv.leads i h₀ live₀ hi₀
    have hknown := inv.known i h₀ live₀ hi₀
    rw [hbase] at made hiff hknown
    have hpost : ∀ e' ∈ post ++ [e], ∀ j, removes e' = some j → j < st.handles.length := by
      intro e' he'
      refine past e' ?_
      obtain he' | he' := List.mem_append.mp he'
      · exact List.mem_append_left _ (made.mem e' he')
      · exact List.mem_append_right _ he'
    refine ⟨post ++ [e],made.snoc e,?_⟩
    rw [hname.names _ _ hknown, hiff, intact_step hname hpost, Intact, Intact,
      List.forall_mem_append, List.forall_mem_singleton]
  · exact ⟨[],⟨es,e,st,st',rfl,hmade,run,hstep,rfl,hlength⟩,
      iff_of_true hlead fun e' he' => by cases he'⟩

/-- The name of a handle leads to its segment exactly as long as no handle of this name, an older
one, a newer one or itself, has been deleted or destroyed since it was made. -/
theorem name_leads (run : exec (step zero sizeof cut) ⟨sys₀,[]⟩ es = some st) {i : Nat} {h : Handle}
    {live : Bool} (hi : st.handles[i]? = some (h,live)) :
    ∃ post, MadeBefore zero sizeof cut sys₀ es i h.base.name post ∧
      (st.sys.names h.base.name = some h.base.shm_ ↔ Intact st h.base.name post) := by
  have inv : NamesInv zero sizeof cut sys₀ es st := by
    refine exec_reached (I := NamesInv zero sizeof cut sys₀) ⟨?_,by simp,?_⟩
      (fun es st e st' hrun inv _ hstep => namesInv_step hrun inv hstep) (meets_true _ es) run
    · intro i h live hi
      cases hi
    · intro i h live hi
      cases hi
  exact inv.leads i h live hi

theorem name_leads_stale :
    let es : List (TablesEvent UInt32) :=
      [.create "seckey",.truncate 0 (-4),.deleteShm 0,.create "seckey",.destroy 0]
    ∃ st h post, exec (step (0 : UInt32) 8 cutWords) (⟨{},[]⟩ : Tables UInt32 2) es = some st ∧
      st.handles[1]? = some (h,true) ∧
      MadeBefore (0 : UInt32) 8 cutWords ({} : System (Vector UInt32 2)) es 1 h.base.name post ∧
      ¬Intact st h.base.name post := by
  intro es
  obtain ⟨st,h,run,hi,hgone⟩ : ∃ st h, exec (step (0 : UInt32) 8 cutWords)
      (⟨{},[]⟩ : Tables UInt32 2) es = some st ∧ st.handles[1]? = some (h,true) ∧
      st.sys.names h.base.name = none := ⟨_,_,rfl,rfl,rfl⟩
  obtain ⟨post,made,hiff⟩ := name_leads run hi
  refine ⟨st,h,post,run,hi,made,fun intact => ?_⟩
  have hlead := hiff.mpr intact
  rw [hgone] at hlead
  cases hlead

end Names

end Tables

end TransmissionPlatform.Shm
