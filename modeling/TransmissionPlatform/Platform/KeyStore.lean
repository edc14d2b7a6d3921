import TransmissionPlatform.Lib.PosixPath

/-!
The names of the key files. `ParseMsgImpl` puts the client id as it came off the wire
between a directory and a suffix, and every file operation of `SeckeyAgree` uses the result.
-/

set_option autoImplicit false

namespace TransmissionPlatform.Platform
open PosixPath

/-- `client_id_pubkey_file_name`. -/
def pubkeyFileName (client_id : List UInt8) : List UInt8 :=
  ascii "seckey/" ++ (client_id ++ ascii "_pubkey.pem")

def seckeyDir : List UInt8 := ascii "seckey"

theorem pubkeyFileName_eq (client_id : List UInt8) :
    pubkeyFileName client_id = seckeyDir ++ slash :: (client_id ++ ascii "_pubkey.pem") := rfl

/-- An id without a slash and without a NUL byte. -/
def PlainId (client_id : List UInt8) : Prop := slash ∉ client_id ∧ (0 : UInt8) ∉ client_id

instance (client_id : List UInt8) : Decidable (PlainId client_id) :=
  inferInstanceAs (Decidable (slash ∉ client_id ∧ (0 : UInt8) ∉ client_id))

theorem ordinary_seckeyDir : Ordinary seckeyDir := by
  constructor <;> decide

theorem plain_fileName {client_id : List UInt8} (h : PlainId client_id) :
    Plain (client_id ++ ascii "_pubkey.pem") := by
  have hlen : 11 ≤ (client_id ++ ascii "_pubkey.pem").length := by
    rw [List.length_append]
    exact Nat.le_add_left 11 _
  have hlong : ∀ name : List UInt8, name.length ≤ 2 → client_id ++ ascii "_pubkey.pem" ≠ name := by
    rintro name hname rfl
    omega
  refine ⟨hlong _ (by decide),hlong _ (by decide),hlong _ (by decide),?_,?_⟩
  · exact fun hm => (List.mem_append.mp hm).elim h.1 (by decide)
  · exact fun hm => (List.mem_append.mp hm).elim h.2 (by decide)

theorem resolve_pubkeyFileName (t : Tree) (hdir : t.isDir (t.cwd ++ [seckeyDir]) = true)
    {client_id : List UInt8} (h : PlainId client_id) :
    t.resolve (pubkeyFileName client_id) =
      if client_id.length ≤ 244 then
        some (t.cwd ++ [seckeyDir,client_id ++ ascii "_pubkey.pem"])
      else none := by
  have hroom : (client_id ++ ascii "_pubkey.pem").length ≤ nameMax ↔ client_id.length ≤ 244 := by
    rw [List.length_append]
    exact Nat.add_le_add_iff_right (n := 11)
  rw [pubkeyFileName_eq, resolve_entry t ordinary_seckeyDir (plain_fileName h) hdir (by decide)]
  simp only [hroom]

/-- An id that is not plain is not the only one for its file: what follows a NUL byte does
not matter, and a slash may be doubled. -/
theorem exists_alias (t : Tree) {client_id : List UInt8} (h : ¬ PlainId client_id)
    (hlen : client_id.length ≤ 4076) :
    ∃ other, other ≠ client_id ∧
      t.resolve (pubkeyFileName other) = t.resolve (pubkeyFileName client_id) := by
  by_cases hzero : (0 : UInt8) ∈ client_id
  · obtain ⟨xs,ys,rfl⟩ := List.append_of_mem hzero
    refine ⟨xs ++ 0 :: 0 :: ys,?_,?_⟩
    · intro heq
      have := congrArg List.length heq
      simp at this
    · have hcut := cString_zero (ascii "seckey/" ++ xs) (0 :: ys ++ ascii "_pubkey.pem")
        (ys ++ ascii "_pubkey.pem")
      simp only [List.append_assoc, List.cons_append] at hcut
      simp only [Tree.resolve, pubkeyFileName, List.append_assoc, List.cons_append, hcut]
  · have hslash : slash ∈ client_id := by
      by_contra hs
      exact h ⟨hs,hzero⟩
    obtain ⟨xs,ys,rfl⟩ := List.append_of_mem hslash
    refine ⟨xs ++ slash :: slash :: ys,?_,?_⟩
    · intro heq
      have := congrArg List.length heq
      simp at this
    · have hxs : (0 : UInt8) ∉ ascii "seckey/" ++ xs := by
        intro hm
        obtain hm | hm := List.mem_append.mp hm
        · revert hm
          decide
        · exact hzero (List.mem_append_left _ hm)
      have hroom : (ascii "seckey/" ++ xs).length + (ys ++ ascii "_pubkey.pem").length + 2 <
          pathMax := by
        have hsizes : (ascii "seckey/").length = 7 ∧ (ascii "_pubkey.pem").length = 11 := by decide
        simp only [List.length_append, List.length_cons, hsizes] at hlen ⊢
        unfold pathMax
        omega
      have hdouble := resolve_doubleSlash t hxs (ys ++ ascii "_pubkey.pem") hroom
      simpa only [pubkeyFileName, List.append_assoc, List.cons_append] using hdouble

/-- A plain id of at most 244 bytes names a file directly inside `seckey/`, a different one
for each. A longer one names no file, and no id with a slash or a NUL byte has a file of its
own. -/
theorem pubkeyFile_of_plainId (t : Tree) (hdir : t.isDir (t.cwd ++ [seckeyDir]) = true) :
    (∀ client_id, PlainId client_id → client_id.length ≤ 244 →
      t.resolve (pubkeyFileName client_id) =
        some (t.cwd ++ [seckeyDir,client_id ++ ascii "_pubkey.pem"])) ∧
    (∀ client_id other, PlainId client_id → PlainId other → client_id.length ≤ 244 →
      other.length ≤ 244 → client_id ≠ other →
      t.resolve (pubkeyFileName client_id) ≠ t.resolve (pubkeyFileName other)) ∧
    (∀ client_id, PlainId client_id → 244 < client_id.length →
      t.resolve (pubkeyFileName client_id) = none) ∧
    ∀ client_id, ¬ PlainId client_id → client_id.length ≤ 4076 → ∃ other, other ≠ client_id ∧
      t.resolve (pubkeyFileName other) = t.resolve (pubkeyFileName client_id) := by
  have inside : ∀ client_id, PlainId client_id → client_id.length ≤ 244 →
      t.resolve (pubkeyFileName client_id) =
        some (t.cwd ++ [seckeyDir,client_id ++ ascii "_pubkey.pem"]) := by
    intro client_id h hlen
    rw [resolve_pubkeyFileName t hdir h, if_pos hlen]
  refine ⟨inside,?_,?_,fun client_id h hlen => exists_alias t h hlen⟩
  · intro client_id other h h' hlen hlen' hne heq
    rw [inside client_id h hlen, inside other h' hlen', Option.some.injEq] at heq
    simp only [List.append_cancel_left_eq, List.cons.injEq, and_true, true_and,
      List.append_cancel_right_eq] at heq
    exact hne heq
  · intro client_id h hlen
    rw [resolve_pubkeyFileName t hdir h, if_neg (Nat.not_le.mpr hlen)]

theorem pubkeyFile_of_plainId_alice :
    ∃ t : Tree, t.resolve (pubkeyFileName (ascii "alice")) =
        some [ascii "srv", seckeyDir, ascii "alice_pubkey.pem"] ∧
      t.resolve (pubkeyFileName (ascii "alice")) ≠ t.resolve (pubkeyFileName (ascii "bob")) ∧
      t.resolve (pubkeyFileName (List.replicate 245 97)) = none ∧
      ∃ other, other ≠ ascii "../x" ∧
        t.resolve (pubkeyFileName other) = t.resolve (pubkeyFileName (ascii "../x")) := by
  obtain ⟨inside,distinct,tooLong,shared⟩ :=
    pubkeyFile_of_plainId ⟨[ascii "srv"],fun l => decide (l.length ≤ 2)⟩ rfl
  have hplain : PlainId (List.replicate 245 97) :=
    ⟨fun h => absurd (List.eq_of_mem_replicate h) (by decide),
      fun h => absurd (List.eq_of_mem_replicate h) (by decide)⟩
  exact ⟨_,inside (ascii "alice") (by decide) (by decide),
    distinct (ascii "alice") (ascii "bob") (by decide) (by decide) (by decide) (by decide)
      (by decide),
    tooLong _ hplain (by rw [List.length_replicate]; decide),
    shared (ascii "../x") (by decide) (by decide)⟩

theorem pubkeyFile_escapes :
    ∃ t : Tree, t.isDir (t.cwd ++ [seckeyDir]) = true ∧
      t.resolve (pubkeyFileName (ascii "../x")) = some (t.cwd ++ [ascii "x_pubkey.pem"]) ∧
      (∀ name, t.resolve (pubkeyFileName (ascii "../x")) ≠ some (t.cwd ++ [seckeyDir,name])) ∧
      t.resolve (pubkeyFileName (ascii "./a")) = t.resolve (pubkeyFileName (ascii "a")) ∧
      t.resolve (pubkeyFileName (ascii "a" ++ [0,1])) =
        t.resolve (pubkeyFileName (ascii "a" ++ [0,2])) := by
  have houtside : Tree.resolve ⟨[ascii "srv"],fun l => decide (l.length ≤ 2)⟩
      (pubkeyFileName (ascii "../x")) = some [ascii "srv", ascii "x_pubkey.pem"] := by decide
  refine ⟨⟨[ascii "srv"],fun l => decide (l.length ≤ 2)⟩,rfl,houtside,?_,by decide,by decide⟩
  intro name h
  rw [houtside, Option.some.injEq] at h
  simpa using congrArg List.length h

end TransmissionPlatform.Platform
