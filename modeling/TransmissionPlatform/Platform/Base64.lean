import TransmissionPlatform.Lib.Base64
import TransmissionPlatform.Platform.World

/-!
`mine_base64.hpp` with the sizes as the code passes them on. The BIO of OpenSSL is a parameter:
what it writes for some bytes, and what can be read from it over a text.
-/

set_option autoImplicit false

namespace TransmissionPlatform.Platform
open Net Base64

/-- A base64 BIO over a memory BIO, without `BIO_FLAGS_BASE64_NO_NL`. -/
structure Base64Bio where
  /-- What is in the memory BIO after one write and the flush. -/
  encoded : List UInt8 → List UInt8
  /-- All that can be read over a text in the memory BIO; `none` when `BIO_read` returns -1. -/
  decoded : List UInt8 → Option (List UInt8)

namespace Base64Bio
variable (bio : Base64Bio)

/-- A `size_t` as the `int` that the functions of the BIO take. -/
def toInt (n : Nat) : Int := (n : Int).bmod (2 ^ 32)

def bioWrite (datas : List UInt8) (inl : Int) : List UInt8 := datas.take inl.toNat

def bioRead (mem result : List UInt8) (outl : Int) : Int × List UInt8 :=
  if outl ≤ 0 then (0,result)
  else
    match bio.decoded mem with
    | none => (-1,result)
    | some bytes =>
      let got := bytes.take outl.toNat
      (got.length,got ++ result.drop got.length)

def maxSize : Nat := 2 ^ 63 - 1

/-- `result.resize(true_len)`. The length is converted to a `size_t`. -/
def resize (true_len : Int) (result : List UInt8) : Except Failure (List UInt8) :=
  let n := (true_len % 2 ^ 64).toNat
  if maxSize < n then throw .length_error else pure (Io.resize n result)

def writeText (datas : List UInt8) : List UInt8 :=
  bio.encoded (bioWrite datas (toInt datas.length))

/-- `ToBase64`. A memory BIO that nothing was written to has no data. -/
def toBase64 (datas : List UInt8) : Except Failure (List UInt8) :=
  match bio.writeText datas with
  | [] => throw .logic_error
  | b :: bs => pure ((b :: bs).take ((b :: bs).length - 1))

def readText (datas : List UInt8) : Int × List UInt8 :=
  let mem := bioWrite datas (toInt datas.length)
  let result : List UInt8 := List.replicate datas.length 0
  bio.bioRead mem result (toInt result.length)

def fromBase64 (datas : List UInt8) : Except Failure (List UInt8) :=
  resize (bio.readText datas).1 (bio.readText datas).2

def blockSize : Nat := 1024

/-- How far a `BIO_read` over a memory BIO gets in a text. It reads on until there is a whole
block, and a memory BIO that is empty asks it to come back for the rest of one; only a text of no
more than one block is taken as it is. -/
def taken (s : List UInt8) : List UInt8 :=
  if s.length ≤ blockSize then s else s.take (s.length / blockSize * blockSize)

/-- What the BIO is documented to do. -/
structure Spec : Prop where
  encodes : ∀ x, bio.encoded x = encodeLines x
  noLonger : ∀ s bytes, bio.decoded s = some bytes → bytes.length ≤ s.length
  /-- A first line that is not ended is not decoded. -/
  oneLine : ∀ s, newline ∉ s → bio.decoded s = none ∨ bio.decoded s = some []
  /-- After a first line of digits the line ends do not count. Of the text that is taken the
  digits are decoded in fours, and the last ones may be kept back. -/
  lines : ∀ line rest first bytes, line ≠ [] → line.length ≤ 64 → newline ∉ line →
    decode line = some first → decode (joined (line ++ rest)) = some bytes →
    ∃ part, bio.decoded (line ++ newline :: rest) = some part ∧ part <+: bytes ∧
      part.length ≤ (joined (taken (line ++ newline :: rest))).length / 4 * 3 ∧
      (taken (line ++ newline :: rest) = line ++ newline :: rest → part = bytes)

/-- The length of the text of `n` bytes, its last newline cut off. -/
def textLength (n : Nat) : Nat := 4 * ((n + 2) / 3) + (n + 47) / 48 - 1

/-- So many bytes come back from their text: it has two lines at least, an `int` holds its length,
and it is one block at most or whole blocks. -/
def Fits (n : Nat) : Prop :=
  48 < n ∧ textLength n < 2 ^ 31 ∧ (textLength n ≤ blockSize ∨ blockSize ∣ textLength n)

instance (n : Nat) : Decidable (Fits n) :=
  inferInstanceAs (Decidable (48 < n ∧ textLength n < 2 ^ 31 ∧
    (textLength n ≤ blockSize ∨ blockSize ∣ textLength n)))

theorem Fits.lt {n : Nat} (h : Fits n) : n < 2 ^ 31 := by
  obtain ⟨-,hlen,-⟩ := h
  unfold textLength at hlen
  omega

def RoundTrips (x : List UInt8) : Prop := (bio.toBase64 x >>= bio.fromBase64) = .ok x

def Returns (s : List UInt8) : Prop := ∃ r, bio.fromBase64 s = .ok r ∧ r.length ≤ s.length

theorem toInt_of_lt {n : Nat} (h : n < 2 ^ 31) : toInt n = n :=
  Int.bmod_eq_of_le (by omega) (by omega)

theorem toInt_of_ge {n : Nat} (h : 2 ^ 31 ≤ n) (hn : n < 2 ^ 32) : toInt n ≤ 0 := by
  unfold toInt
  rw [Int.bmod_def]
  split <;> omega

theorem toInt_lt (n : Nat) : toInt n < 2 ^ 31 := Int.bmod_lt (by decide)

theorem bioWrite_all {datas : List UInt8} (h : datas.length < 2 ^ 31) :
    bioWrite datas (toInt datas.length) = datas := by
  rw [toInt_of_lt h, bioWrite, Int.toNat_natCast, List.take_length]

theorem resize_eq {true_len : Int} (hge : -1 ≤ true_len) (hlt : true_len < 2 ^ 31)
    (result : List UInt8) : resize true_len result =
      if true_len < 0 then throw .length_error else pure (Io.resize true_len.toNat result) := by
  unfold resize maxSize
  split
  · rename_i hneg
    have hsize : (true_len % 2 ^ 64).toNat = 2 ^ 64 - 1 := by omega
    rw [hsize, if_pos (by decide)]
  · rename_i hnonneg
    have hsize : (true_len % 2 ^ 64).toNat = true_len.toNat := by omega
    rw [hsize, if_neg (by omega)]

theorem readText_bounds (datas : List UInt8) :
    -1 ≤ (bio.readText datas).1 ∧ (bio.readText datas).1 < 2 ^ 31 := by
  have hlt := toInt_lt datas.length
  simp only [readText, bioRead, List.length_replicate]
  split
  · simp
  · split
    · simp
    · simp only [List.length_take]
      omega

theorem resize_natCast {n : Nat} (h : n < 2 ^ 31) (result : List UInt8) :
    resize n result = .ok (Io.resize n result) := by
  have hmod : ((n : Int) % 2 ^ 64).toNat = n := by omega
  have hle : ¬ maxSize < n := by
    unfold maxSize
    omega
  simp only [resize, hmod, hle, if_false]
  rfl

section Reading
variable {bio} {s : List UInt8}

theorem fromBase64_nothing (h : toInt s.length ≤ 0) : bio.fromBase64 s = .ok [] := by
  have hresize := resize_natCast (n := 0) (by decide) (List.replicate s.length 0)
  simp only [Int.natCast_zero] at hresize
  simp only [fromBase64, readText, bioRead, List.length_replicate, h, if_true, hresize]
  simp [Io.resize]

theorem fromBase64_none (h : 0 < toInt s.length)
    (hnone : bio.decoded (bioWrite s (toInt s.length)) = none) :
    bio.fromBase64 s = .error .length_error := by
  simp only [fromBase64, readText, bioRead, List.length_replicate, Int.not_le.mpr h, if_false, hnone]
  rfl

theorem fromBase64_some {bytes : List UInt8} (h : 0 < toInt s.length)
    (hsome : bio.decoded (bioWrite s (toInt s.length)) = some bytes) :
    bio.fromBase64 s = .ok (bytes.take (toInt s.length).toNat) := by
  have hlt := toInt_lt s.length
  have hgot : (bytes.take (toInt s.length).toNat).length < 2 ^ 31 := by
    rw [List.length_take]
    omega
  simp only [fromBase64, readText, bioRead, List.length_replicate, Int.not_le.mpr h, if_false, hsome,
    resize_natCast hgot]
  simp [Io.resize]

theorem returns_iff (hbio : bio.Spec) : bio.Returns s ↔
    (0 < toInt s.length → bio.decoded (bioWrite s (toInt s.length)) ≠ none) := by
  constructor
  · rintro ⟨r,hr,-⟩ hpos hnone
    rw [fromBase64_none hpos hnone] at hr
    cases hr
  · intro h
    by_cases hpos : 0 < toInt s.length
    · obtain ⟨bytes,hsome⟩ := Option.ne_none_iff_exists'.mp (h hpos)
      refine ⟨_,fromBase64_some hpos hsome,?_⟩
      have hle := hbio.noLonger _ _ hsome
      rw [bioWrite, List.length_take] at hle
      rw [List.length_take]
      omega
    · exact ⟨[],fromBase64_nothing (Int.not_lt.mp hpos),Nat.zero_le _⟩

end Reading

section Taken
variable {x : List UInt8}

theorem text_length (x : List UInt8) : (encodeLines x).dropLast.length = textLength x.length := by
  rw [List.length_dropLast, encodeLines_length, textLength]

theorem taken_eq_iff (s : List UInt8) :
    taken s = s ↔ s.length ≤ blockSize ∨ blockSize ∣ s.length := by
  unfold taken
  split
  · rename_i hle
    exact iff_of_true rfl (.inl hle)
  · rename_i hgt
    rw [List.take_eq_self_iff, or_iff_right hgt, Nat.dvd_iff_div_mul_eq]
    have := Nat.div_mul_le_self s.length blockSize
    omega

theorem taken_digits (hx : x ≠ []) (hnot : taken (encodeLines x).dropLast ≠ (encodeLines x).dropLast) :
    (joined (taken (encodeLines x).dropLast)).length < (encode x).length := by
  obtain ⟨init,c,htext,hc⟩ := dropLast_eq_snoc hx
  have hinit : taken (encodeLines x).dropLast <+: init := by
    have hpre : taken (encodeLines x).dropLast <+: init ++ [c] := by
      rw [← htext, taken]
      split
      · exact List.prefix_rfl
      · exact List.take_prefix _ _
    refine (List.prefix_concat_iff.mp hpre).resolve_left fun heq => hnot ?_
    rw [heq, htext]
  have hle : (joined (taken (encodeLines x).dropLast)).length ≤ (joined init).length :=
    (hinit.sublist.filter (· ≠ newline)).length_le
  have hlast : joined (init ++ [c]) = joined init ++ [c] := by
    simp [joined, hc]
  rw [← joined_dropLast hx]
  refine Nat.lt_of_le_of_lt hle ?_
  rw [htext, hlast, List.length_append]
  exact Nat.lt_succ_self _

end Taken

section RoundTrip
variable {bio} (hbio : bio.Spec) {x : List UInt8}
include hbio

theorem toBase64_nil : bio.toBase64 [] = .error .logic_error := by
  simp only [toBase64, writeText, bioWrite, List.take_nil, hbio.encodes, encodeLines_nil]
  rfl

theorem toBase64_ok (hx : x ≠ []) (hlen : x.length < 2 ^ 31) :
    bio.toBase64 x = .ok (encodeLines x).dropLast := by
  simp only [toBase64, writeText, bioWrite_all hlen, hbio.encodes]
  cases hlines : encodeLines x with
  | nil =>
    rw [encodeLines_cons hx] at hlines
    exact absurd hlines (by simp)
  | cons b bs =>
    rw [List.dropLast_eq_take]
    rfl

theorem short_lost (hx : x ≠ []) (hlen : x.length ≤ 48) {r : List UInt8}
    (hr : (bio.toBase64 x >>= bio.fromBase64) = .ok r) : r = [] := by
  have hline : (encodeLines x).dropLast = encode x := by
    rw [encodeLines_cons hx, List.take_of_length_le hlen, List.drop_eq_nil_of_le hlen,
      encodeLines_nil, List.dropLast_concat]
  have htext : (encode x).length < 2 ^ 31 := by
    rw [encode_length]
    omega
  have hpos : 0 < toInt (encode x).length := by
    have := List.length_pos_iff.mpr hx
    rw [toInt_of_lt htext, encode_length]
    omega
  have hread : bio.decoded (bioWrite (encode x) (toInt (encode x).length)) = none ∨
      bio.decoded (bioWrite (encode x) (toInt (encode x).length)) = some [] := by
    rw [bioWrite_all htext]
    exact hbio.oneLine _ (newline_not_mem_encode x)
  have hto := toBase64_ok hbio hx (by omega : x.length < 2 ^ 31)
  rw [hline] at hto
  simp only [hto, bind, Except.bind] at hr
  obtain hnone | hsome := hread
  · rw [fromBase64_none hpos hnone] at hr
    cases hr
  · rw [fromBase64_some hpos hsome, List.take_nil] at hr
    exact (Except.ok.inj hr).symm

theorem decoded_text (hlen : 48 < x.length) :
    ∃ part, bio.decoded (encodeLines x).dropLast = some part ∧
      part.length ≤ (joined (taken (encodeLines x).dropLast)).length / 4 * 3 ∧
      (taken (encodeLines x).dropLast = (encodeLines x).dropLast → part = x) := by
  have hx : x ≠ [] := List.ne_nil_of_length_pos (by omega)
  have hrest : x.drop 48 ≠ [] := by
    rw [ne_eq, List.drop_eq_nil_iff]
    omega
  have hne : encodeLines (x.drop 48) ≠ [] := by
    rw [encodeLines_cons hrest]
    simp
  have hfirst : (x.take 48).length = 48 := List.length_take_of_le (Nat.le_of_lt hlen)
  have htext : (encodeLines x).dropLast =
      encode (x.take 48) ++ newline :: (encodeLines (x.drop 48)).dropLast := by
    rw [encodeLines_cons hx, List.dropLast_append_of_ne_nil (List.cons_ne_nil _ _),
      List.dropLast_cons_of_ne_nil hne]
  have hjoined : joined (encode (x.take 48) ++ (encodeLines (x.drop 48)).dropLast) = encode x := by
    have hsplit := joined_dropLast hx
    rw [htext] at hsplit
    simpa [joined] using hsplit
  have hline : (encode (x.take 48)).length = 64 := by rw [encode_length, hfirst]
  rw [htext]
  obtain ⟨part,hpart,-,hdigits,hwhole⟩ := hbio.lines (encode (x.take 48))
    (encodeLines (x.drop 48)).dropLast (x.take 48) x (List.ne_nil_of_length_pos (by omega))
    (Nat.le_of_eq hline) (newline_not_mem_encode _) (decode_encode _)
    (by rw [hjoined, decode_encode])
  exact ⟨part,hpart,hdigits,hwhole⟩

theorem comesBack (hx : x ≠ []) (hlen : x.length < 2 ^ 31) :
    (Fits x.length → (bio.toBase64 x >>= bio.fromBase64) = .ok x) ∧
    (¬ Fits x.length → ∀ r, (bio.toBase64 x >>= bio.fromBase64) = .ok r →
      r.length < x.length) := by
  have hpos := List.length_pos_iff.mpr hx
  obtain hlong | hshort := Nat.lt_or_ge 48 x.length
  swap
  · refine ⟨fun hfits => absurd hfits.1 (Nat.not_lt.mpr hshort),fun _ r hr => ?_⟩
    rw [short_lost hbio hx hshort hr]
    exact hpos
  obtain ⟨part,hpart,hdigits,hwhole⟩ := decoded_text hbio hlong
  have htext := text_length x
  have hvalue : textLength x.length = 4 * ((x.length + 2) / 3) + (x.length + 47) / 48 - 1 := rfl
  simp only [toBase64_ok hbio hx hlen, bind, Except.bind]
  obtain hsmall | hlarge := Nat.lt_or_ge (textLength x.length) (2 ^ 31)
  swap
  · -- the length of the text is no positive `int`
    refine ⟨fun hfits => absurd hfits.2.1 (Nat.not_lt.mpr hlarge),fun _ r hr => ?_⟩
    rw [fromBase64_nothing (by rw [htext]; exact toInt_of_ge hlarge (by omega))] at hr
    obtain rfl := Except.ok.inj hr
    exact hpos
  · have hread : bio.fromBase64 (encodeLines x).dropLast = .ok (part.take (textLength x.length)) := by
      have hint : toInt (encodeLines x).dropLast.length = textLength x.length := by
        rw [htext, toInt_of_lt hsmall]
      have hwrite : bioWrite (encodeLines x).dropLast (toInt (encodeLines x).dropLast.length) =
          (encodeLines x).dropLast := bioWrite_all (by rw [htext]; exact hsmall)
      rw [fromBase64_some (by rw [hint]; omega) (by rw [hwrite, hpart]), hint, Int.toNat_natCast]
    rw [hread]
    constructor
    · intro hfits
      have htaken := (taken_eq_iff (encodeLines x).dropLast).mpr (by rw [htext]; exact hfits.2.2)
      rw [hwhole htaken, List.take_of_length_le (by omega)]
    · intro hnot r hr
      have hpartial : taken (encodeLines x).dropLast ≠ (encodeLines x).dropLast := fun htaken =>
        hnot ⟨hlong,hsmall,by rw [← htext]; exact (taken_eq_iff _).mp htaken⟩
      have hfewer := taken_digits hx hpartial
      rw [encode_length] at hfewer
      obtain rfl := Except.ok.inj hr
      rw [List.length_take]
      omega

theorem roundTrips_iff (hlen : x.length < 2 ^ 31) : bio.RoundTrips x ↔ Fits x.length := by
  by_cases hx : x = []
  · subst hx
    refine iff_of_false ?_ (by decide)
    rw [RoundTrips, toBase64_nil hbio]
    rintro ⟨⟩
  · obtain ⟨hkept,hlost⟩ := comesBack hbio hx hlen
    refine ⟨fun h => ?_,hkept⟩
    by_contra hnot
    exact Nat.lt_irrefl _ (hlost hnot x h)

end RoundTrip

/-- Text of two lines or more comes back, as far as an `int` counts it and whole blocks go; and
what is read is returned unless the BIO has nothing to read. -/
theorem base64_iff {bio : Base64Bio} (hbio : bio.Spec) :
    (∀ x, x.length < 2 ^ 31 → (bio.RoundTrips x ↔ Fits x.length)) ∧
    ∀ s, bio.Returns s ↔
      (0 < toInt s.length → bio.decoded (bioWrite s (toInt s.length)) ≠ none) :=
  ⟨fun _ hx => roundTrips_iff hbio hx,fun _ => returns_iff hbio⟩

/-- A BIO that reads nothing without a line end, and otherwise the digits of all lines, or of a
longer text whole lines of what is taken. -/
def lineBio : Base64Bio where
  encoded := encodeLines
  decoded s :=
    if newline ∈ s then
      match decode (joined s) with
      | none => some []
      | some bytes =>
        if taken s = s then some bytes
        else some (bytes.take ((joined (taken s)).length / 64 * 48))
    else none

theorem lineBio_spec : lineBio.Spec where
  encodes _ := rfl
  noLonger s bytes h := by
    simp only [lineBio] at h
    split at h
    · split at h
      · cases h
        exact Nat.zero_le _
      · rename_i x hd
        have hdigits := decode_length_le _ _ hd
        have hjoined : (joined s).length ≤ s.length := List.length_filter_le _ _
        have hle : x.length ≤ s.length := by omega
        split at h
        · cases h
          exact hle
        · cases h
          rw [List.length_take]
          exact Nat.le_trans (Nat.min_le_right _ _) hle
    · cases h
  oneLine s h := .inl (if_neg h)
  lines line rest first bytes _ _ _ _ h := by
    have hjoined : joined (line ++ newline :: rest) = joined (line ++ rest) := by simp [joined]
    have hmem : newline ∈ line ++ newline :: rest := by simp
    simp only [lineBio, if_pos hmem, hjoined, h]
    split
    · rename_i hwhole
      refine ⟨bytes,rfl,List.prefix_rfl,?_,fun _ => rfl⟩
      rw [hwhole, hjoined]
      exact decode_length_le _ _ h
    · rename_i hpartial
      refine ⟨_,rfl,List.take_prefix _ _,?_,fun hwhole => absurd hwhole hpartial⟩
      rw [List.length_take]
      omega

def shortText : List UInt8 := [97,71,107,61]

theorem toInt_shortText : toInt shortText.length = 4 := toInt_of_lt (by decide)

theorem decoded_shortText :
    lineBio.decoded (bioWrite shortText (toInt shortText.length)) = none := by
  rw [toInt_shortText]
  decide

theorem base64_iff_texts : lineBio.RoundTrips (List.replicate 128 7) ∧
    ¬ lineBio.RoundTrips (List.replicate 768 7) ∧ ¬ lineBio.Returns shortText := by
  obtain ⟨htrip,hreturns⟩ := base64_iff lineBio_spec
  refine ⟨(htrip _ ?_).mpr ?_,fun h => ?_,fun h => ?_⟩
  · rw [List.length_replicate]
    decide
  · rw [List.length_replicate]
    decide
  · have hfits := (htrip _ (by rw [List.length_replicate]; decide)).mp h
    rw [List.length_replicate] at hfits
    exact absurd hfits (by decide)
  · exact (hreturns shortText).mp h (by rw [toInt_shortText]; decide) decoded_shortText

theorem base64_notTotal : ¬ ∀ bio : Base64Bio, bio.Spec →
    (∀ x, x.length < 2 ^ 31 → bio.RoundTrips x) ∧ ∀ s, bio.Returns s := by
  intro h
  obtain ⟨r,hr,-⟩ := (h lineBio lineBio_spec).2 shortText
  rw [fromBase64_none (by rw [toInt_shortText]; decide) decoded_shortText] at hr
  cases hr

end Base64Bio

section OverBio
variable {K : Type} (libs : Libraries K)

def Libraries.withBio (write : List UInt8 → List UInt8) (read : List UInt8 → Int × List UInt8) :
    Libraries K :=
  { libs with bio_write := write, bio_read := read }

theorem toBase64_withBio (write : List UInt8 → List UInt8)
    (read : List UInt8 → Int × List UInt8) (datas : List UInt8) :
    toBase64 (libs.withBio write read) datas =
      match write datas with
      | [] => .error .logic_error
      | b :: bs => .ok (b :: bs).dropLast := rfl

theorem fromBase64_withBio (write : List UInt8 → List UInt8)
    {read : List UInt8 → Int × List UInt8} {datas : List UInt8} (hge : -1 ≤ (read datas).1)
    (hlt : (read datas).1 < 2 ^ 31) : fromBase64 (libs.withBio write read) datas =
      Base64Bio.resize (read datas).1 (read datas).2 := by
  rw [Base64Bio.resize_eq hge hlt]
  rfl

variable (bio : Base64Bio)

/-- The parameters of the server that this BIO is. -/
def Libraries.ofBio : Libraries K := libs.withBio bio.writeText bio.readText

theorem toBase64_ofBio (datas : List UInt8) :
    toBase64 (libs.ofBio bio) datas = bio.toBase64 datas := by
  rw [Libraries.ofBio, toBase64_withBio, Base64Bio.toBase64]
  cases bio.writeText datas with
  | nil => rfl
  | cons b bs =>
    simp only [List.dropLast_eq_take]
    rfl

theorem fromBase64_ofBio (datas : List UInt8) :
    fromBase64 (libs.ofBio bio) datas = bio.fromBase64 datas := by
  obtain ⟨hge,hlt⟩ := Base64Bio.readText_bounds bio datas
  rw [Libraries.ofBio, fromBase64_withBio libs bio.writeText hge hlt, Base64Bio.fromBase64]

end OverBio

end TransmissionPlatform.Platform
