import Mathlib.Data.List.Perm.Basic

/-!
Handles to objects of a library, in the order in which they were obtained. What a program owes
is kept by a balance: each handle was freed once, or is held at one place, or got lost.
-/

set_option autoImplicit false

namespace TransmissionPlatform.Handles

/-- What the handles refer to, and the handles that were freed, each as often as it was. -/
structure Heap (R : Type*) where
  cells : List R := []
  freed : List Nat := []

namespace Heap
variable {R : Type*} (h : Heap R)

def fresh : Nat := h.cells.length

def alloc (r : R) : Heap R := { h with cells := h.cells ++ [r] }

def write (i : Nat) (r : R) : Heap R := { h with cells := h.cells.set i r }

def free : Option Nat → Heap R
  | none => h
  | some i => { h with freed := h.freed ++ [i] }

def live : List Nat := (List.range h.fresh).filter (· ∉ h.freed)

@[simp] theorem fresh_alloc (r : R) : (h.alloc r).fresh = h.fresh + 1 := by
  simp [fresh, alloc]

@[simp] theorem fresh_free (p : Option Nat) : (h.free p).fresh = h.fresh := by
  cases p <;> rfl

theorem cells_alloc_fresh (r : R) : (h.alloc r).cells[h.fresh]? = some r := by
  simp [alloc, fresh]

theorem write_alloc (r r' : R) : (h.alloc r).write h.fresh r' = h.alloc r' := by
  simp [alloc, write, fresh, List.set_append_right]

/-- The handles that are held, and those that got lost: with the freed ones they are all. -/
def Accounts (held lost : List Nat) : Prop :=
  (h.freed ++ (held ++ lost)).Perm (List.range h.fresh)

variable {h} {held lost : List Nat} {i : Nat}

theorem accounts_empty : Accounts ({} : Heap R) [] [] := List.Perm.refl _

namespace Accounts

theorem congr {held' lost' : List Nat} (acc : h.Accounts held lost)
    (hperm : (held' ++ lost').Perm (held ++ lost)) : h.Accounts held' lost' :=
  (hperm.append_left _).trans acc

theorem alloc (acc : h.Accounts held lost) (r : R) :
    (h.alloc r).Accounts (h.fresh :: held) lost := by
  rw [Accounts, fresh_alloc, List.range_succ]
  calc
    List.Perm (h.freed ++ (h.fresh :: (held ++ lost))) (h.fresh :: (h.freed ++ (held ++ lost))) :=
      List.perm_middle
    List.Perm _ (h.freed ++ (held ++ lost) ++ [h.fresh]) := (List.perm_append_singleton _ _).symm
    List.Perm _ (List.range h.fresh ++ [h.fresh]) := acc.append_right _

theorem free (acc : h.Accounts (i :: held) lost) : (h.free (some i)).Accounts held lost := by
  rw [Accounts, fresh_free]
  have hsplit : h.freed ++ [i] ++ (held ++ lost) = h.freed ++ (i :: held ++ lost) := by simp
  exact hsplit ▸ acc

theorem drop {dropped : List Nat} (acc : h.Accounts (dropped ++ held) lost) :
    h.Accounts held (dropped ++ lost) := by
  refine acc.congr ?_
  simp only [← List.append_assoc]
  exact List.perm_append_comm.append_right _

theorem count (acc : h.Accounts held lost) (hi : i < h.fresh) :
    h.freed.count i + (held.count i + lost.count i) = 1 := by
  rw [← List.count_append, ← List.count_append, acc.count_eq,
    List.count_range, if_pos hi]

theorem lt_fresh (acc : h.Accounts held lost) (hi : i ∈ lost) : i < h.fresh :=
  List.mem_range.mp (acc.subset (List.mem_append_right _ (List.mem_append_right _ hi)))

theorem held_lt_fresh (acc : h.Accounts held lost) (hi : i ∈ held) : i < h.fresh :=
  List.mem_range.mp (acc.subset (List.mem_append_right _ (List.mem_append_left _ hi)))

theorem freed_iff (acc : h.Accounts held lost) (hi : i < h.fresh) :
    h.freed.count i = (if i ∈ held then 0 else 1) ↔ i ∉ lost := by
  have hcount := acc.count hi
  have hlost := List.count_pos_iff (a := i) (l := lost)
  by_cases hheld : i ∈ held
  · have hpos := List.count_pos_iff.mpr hheld
    simp only [hheld, if_true, ← hlost]
    omega
  · have hzero : held.count i = 0 := List.count_eq_zero_of_not_mem hheld
    simp only [hheld, if_false, ← hlost]
    omega

theorem live (acc : h.Accounts held lost) : h.live.Perm (held ++ lost) := by
  have hnodup : (h.freed ++ (held ++ lost)).Nodup := acc.nodup_iff.mpr List.nodup_range
  have hdisjoint := (List.nodup_append.mp hnodup).2.2
  have hfreed : h.freed.filter (· ∉ h.freed) = [] := by simp
  have howed : (held ++ lost).filter (· ∉ h.freed) = held ++ lost :=
    List.filter_eq_self.mpr fun i hi => by simpa using fun hfreed => hdisjoint i hfreed i hi rfl
  have hfilter := acc.symm.filter (· ∉ h.freed)
  rwa [List.filter_append, hfreed, howed, List.nil_append] at hfilter

theorem live_length (acc : h.Accounts held lost) : h.live.length = held.length + lost.length := by
  rw [acc.live.length_eq, List.length_append]

/-- Steps one after another that leave what is held: together they lose nothing if and only if
none of them does. -/
theorem foldl {β : Type*} {f : Heap R → β → Heap R} {spares : β → Prop}
    (step : ∀ h lost b, Accounts h held lost →
      ∃ more, Accounts (f h b) held (more ++ lost) ∧ (more = [] ↔ spares b))
    (acc : h.Accounts held lost) (bs : List β) :
    ∃ more, Accounts (bs.foldl f h) held (more ++ lost) ∧ (more = [] ↔ ∀ b ∈ bs, spares b) := by
  induction bs generalizing h lost with
  | nil => exact ⟨[],acc,by simp⟩
  | cons b bs ih =>
    obtain ⟨more,hmore,hiff⟩ := step h lost b acc
    obtain ⟨more',hmore',hiff'⟩ := ih hmore
    refine ⟨more' ++ more,by rwa [List.append_assoc],?_⟩
    rw [List.append_eq_nil_iff, hiff, hiff', List.forall_mem_cons, and_comm]

end Accounts

end Heap

end TransmissionPlatform.Handles
