import Mathlib.Data.List.Basic
import Mathlib.Data.UInt

/-!
What a path denotes for a POSIX system call: the string ends at the first NUL byte, its
components are looked up one after another from the working directory (or from the root),
and all but the last must be directories. A component and a path can be too long for the system.
Directory trees have no symbolic links.
-/

set_option autoImplicit false

namespace TransmissionPlatform.PosixPath

def ascii (s : String) : List UInt8 := s.toList.map fun c => UInt8.ofNat c.toNat

def slash : UInt8 := 47

def dot : List UInt8 := [46]

def dotdot : List UInt8 := [46,46]

abbrev Location := List (List UInt8)

structure Tree where
  cwd : Location
  isDir : Location → Bool

/-- Where a component leads to from a directory. -/
def enter (here : Location) (name : List UInt8) : Location :=
  if name = [] ∨ name = dot then here
  else if name = dotdot then here.dropLast
  else here ++ [name]

def nameMax : Nat := 255

/-- `PATH_MAX`, which counts the NUL byte. -/
def pathMax : Nat := 4096

def walk (isDir : Location → Bool) : Location → List (List UInt8) → Option Location
  | here, [] => some here
  | here, [name] => if name.length ≤ nameMax then some (enter here name) else none
  | here, name :: next :: names =>
    if name.length ≤ nameMax ∧ isDir (enter here name) = true then
      walk isDir (enter here name) (next :: names)
    else none

/-- The string that a C function reads. -/
def cString (bs : List UInt8) : List UInt8 := bs.takeWhile (· ≠ 0)

def Tree.resolve (t : Tree) (path : List UInt8) : Option Location :=
  match cString path with
  | [] => none
  | b :: bs =>
    if (b :: bs).length < pathMax then
      walk t.isDir (if b = slash then [] else t.cwd) ((b :: bs).splitOn slash)
    else none

@[simp] theorem cString_nil : cString [] = [] := rfl

theorem cString_append {xs : List UInt8} (h : (0 : UInt8) ∉ xs) (ys : List UInt8) :
    cString (xs ++ ys) = xs ++ cString ys := by
  refine List.takeWhile_append_of_pos fun b hb => ?_
  simp only [ne_eq, decide_eq_true_eq]
  exact fun h0 => h (h0 ▸ hb)

theorem cString_of_not_mem {bs : List UInt8} (h : (0 : UInt8) ∉ bs) : cString bs = bs := by
  simpa using cString_append h []

theorem cString_zero (xs ys zs : List UInt8) : cString (xs ++ 0 :: ys) = cString (xs ++ 0 :: zs) := by
  induction xs with
  | nil => simp [cString]
  | cons x xs ih =>
    simp only [cString, List.cons_append, List.takeWhile_cons] at ih ⊢
    split
    · rw [ih]
    · rfl

theorem walk_cons (isDir : Location → Bool) (here : Location) (name : List UInt8)
    {names : List (List UInt8)} (h : names ≠ []) :
    walk isDir here (name :: names) =
      if name.length ≤ nameMax ∧ isDir (enter here name) = true then
        walk isDir (enter here name) names
      else none := by
  cases names with
  | nil => exact absurd rfl h
  | cons next names => rfl

theorem walk_empty (isDir : Location → Bool) (here : Location) {xs ys : List (List UInt8)}
    (hx : xs ≠ []) (hy : ys ≠ []) :
    walk isDir here (xs ++ [] :: ys) = walk isDir here (xs ++ ys) := by
  induction xs generalizing here with
  | nil => exact absurd rfl hx
  | cons x xs ih =>
    cases xs with
    | nil =>
      simp only [List.cons_append, List.nil_append]
      have hstay : enter (enter here x) [] = enter here x := by simp [enter]
      rw [walk_cons isDir here x (by simp), walk_cons isDir here x hy, walk_cons isDir _ [] hy,
        hstay]
      split
      · rename_i hgood
        rw [if_pos ⟨Nat.zero_le _,hgood.2⟩]
      · rfl
    | cons x' xs =>
      have hcons : ∀ zs, walk isDir here (x :: x' :: xs ++ zs) =
          if x.length ≤ nameMax ∧ isDir (enter here x) = true then
            walk isDir (enter here x) (x' :: xs ++ zs)
          else none :=
        fun zs => walk_cons isDir here x (by simp)
      rw [hcons, hcons, ih _ (by simp)]

theorem cString_length_le (bs : List UInt8) : (cString bs).length ≤ bs.length :=
  (List.takeWhile_prefix _).length_le

theorem resolve_doubleSlash (t : Tree) {xs : List UInt8} (h : (0 : UInt8) ∉ xs)
    (ys : List UInt8) (hlen : xs.length + ys.length + 2 < pathMax) :
    t.resolve (xs ++ slash :: slash :: ys) = t.resolve (xs ++ slash :: ys) := by
  have hslash : ∀ zs, cString (xs ++ slash :: zs) = xs ++ slash :: cString zs := by
    intro zs
    rw [cString_append h, cString, List.takeWhile_cons_of_pos (by decide)]
    rfl
  have hcs : cString (slash :: ys) = slash :: cString ys := by
    rw [cString, List.takeWhile_cons_of_pos (by decide)]
    rfl
  have hsplit : (xs ++ slash :: slash :: cString ys).splitOn slash =
      xs.splitOn slash ++ [] :: (cString ys).splitOn slash := by
    have hone : (slash :: cString ys).splitOn slash = [] :: (cString ys).splitOn slash :=
      List.splitOn_append_cons_self [] (cString ys)
    rw [List.splitOn_append_cons_self, hone]
  have hsplit' := List.splitOn_append_cons_self (a := slash) xs (cString ys)
  have hle := cString_length_le ys
  have hlong : (xs ++ slash :: slash :: cString ys).length < pathMax := by
    simp only [List.length_append, List.length_cons]
    omega
  have hshort : (xs ++ slash :: cString ys).length < pathMax := by
    simp only [List.length_append, List.length_cons]
    omega
  rw [Tree.resolve, Tree.resolve, hslash, hslash, hcs]
  cases xs with
  | nil =>
    simp only [List.nil_append] at hsplit hsplit' hlong hshort ⊢
    rw [if_pos hlong, if_pos hshort, hsplit, hsplit', walk_empty t.isDir _ (by simp) (by simp)]
  | cons x xs =>
    simp only [List.cons_append] at hsplit hsplit' hlong hshort ⊢
    rw [if_pos hlong, if_pos hshort, hsplit, hsplit', walk_empty t.isDir _ (by simp) (by simp)]

/-- A name that is looked up in the directory where it is used. -/
structure Plain (name : List UInt8) : Prop where
  ne_nil : name ≠ []
  ne_dot : name ≠ dot
  ne_dotdot : name ≠ dotdot
  no_slash : slash ∉ name
  no_zero : (0 : UInt8) ∉ name

instance (name : List UInt8) : Decidable (Plain name) :=
  decidable_of_iff
    (name ≠ [] ∧ name ≠ dot ∧ name ≠ dotdot ∧ slash ∉ name ∧ (0 : UInt8) ∉ name)
    ⟨fun ⟨h,h',h'',hs,hz⟩ => ⟨h,h',h'',hs,hz⟩,fun ⟨h,h',h'',hs,hz⟩ => ⟨h,h',h'',hs,hz⟩⟩

theorem Plain.enter {name : List UInt8} (h : Plain name) (here : Location) :
    enter here name = here ++ [name] := by
  rw [PosixPath.enter, if_neg, if_neg h.ne_dotdot]
  rintro (hnil | hdot)
  · exact h.ne_nil hnil
  · exact h.ne_dot hdot

/-- One that the system has room for. -/
structure Ordinary (name : List UInt8) : Prop extends Plain name where
  short : name.length ≤ nameMax

theorem resolve_name (t : Tree) {name : List UInt8} (h : Ordinary name) :
    t.resolve name = some (t.cwd ++ [name]) := by
  have hshort := h.short
  have hpath : name.length < pathMax := by
    unfold nameMax at hshort
    unfold pathMax
    omega
  obtain ⟨b,bs,rfl⟩ := List.exists_cons_of_ne_nil h.ne_nil
  have hb : b ≠ slash := fun hb => h.no_slash (by simp [hb])
  rw [Tree.resolve, cString_of_not_mem h.no_zero]
  simp only [hb, if_false]
  rw [if_pos hpath, List.splitOn_eq_singleton h.no_slash, walk, if_pos hshort, h.enter]

theorem resolve_inside (t : Tree) {dir : List UInt8} (h : Ordinary dir) (path : List UInt8)
    (hlen : dir.length + path.length + 1 < pathMax) :
    t.resolve (dir ++ slash :: path) =
      if t.isDir (t.cwd ++ [dir]) then
        walk t.isDir (t.cwd ++ [dir]) ((cString path).splitOn slash)
      else none := by
  have hcs : cString (dir ++ slash :: path) = dir ++ slash :: cString path := by
    rw [cString_append h.no_zero, cString, List.takeWhile_cons_of_pos (by decide)]
    rfl
  have hpath : (dir ++ slash :: cString path).length < pathMax := by
    have := cString_length_le path
    simp only [List.length_append, List.length_cons]
    omega
  have hshort := h.short
  obtain ⟨b,bs,rfl⟩ := List.exists_cons_of_ne_nil h.ne_nil
  have hb : b ≠ slash := fun hb => h.no_slash (by simp [hb])
  have hsplit := List.splitOn_append_cons_self (a := slash) (b :: bs) (cString path)
  rw [List.splitOn_eq_singleton h.no_slash] at hsplit
  simp only [List.cons_append, List.nil_append] at hcs hsplit hpath
  rw [Tree.resolve, List.cons_append, hcs]
  simp only [hb, if_false]
  rw [if_pos hpath, hsplit, walk_cons _ _ _ (List.splitOn_ne_nil _ _), h.enter]
  simp only [hshort, true_and]

theorem resolve_tooLong (t : Tree) {path : List UInt8} (h : pathMax ≤ (cString path).length) :
    t.resolve path = none := by
  unfold Tree.resolve
  split
  · rfl
  · rename_i b bs heq
    rw [heq] at h
    rw [if_neg (Nat.not_lt.mpr h)]

theorem resolve_entry (t : Tree) {dir name : List UInt8} (hdir : Ordinary dir) (hname : Plain name)
    (h : t.isDir (t.cwd ++ [dir]) = true) (hlen : dir.length + nameMax + 1 < pathMax) :
    t.resolve (dir ++ slash :: name) =
      if name.length ≤ nameMax then some (t.cwd ++ [dir,name]) else none := by
  obtain hpath | hpath := Nat.lt_or_ge (dir.length + name.length + 1) pathMax
  · rw [resolve_inside t hdir name hpath, if_pos h, cString_of_not_mem hname.no_zero,
      List.splitOn_eq_singleton hname.no_slash, walk, hname.enter]
    simp
  · have hcs : cString (dir ++ slash :: name) = dir ++ slash :: name :=
      cString_of_not_mem fun hm => (List.mem_append.mp hm).elim hdir.no_zero fun hm =>
        (List.mem_cons.mp hm).elim (by decide) hname.no_zero
    rw [if_neg (by omega)]
    refine resolve_tooLong t ?_
    rw [hcs, List.length_append, List.length_cons]
    omega

end TransmissionPlatform.PosixPath
