import TransmissionPlatform.Lib.ProtoWire
import TransmissionPlatform.Lib.TurnLoop

/-!
The classes that protoc generates, over the functions of libprotobuf that they call. A class
brings its switch over the tags, what it writes of its own fields, and how it merges them; the
parser, the unknown fields and what a class inherits are the same for all of them.
-/

set_option autoImplicit false

namespace TransmissionPlatform.ProtoClass
open TurnLoop

/-- Reads from the front of a text; a pointer that comes back null, or behind the end, is `none`. -/
structure Reader (α : Type) where
  read : List UInt8 → Option (α × List UInt8)
  shrinks : ∀ {text rest : List UInt8} {a : α}, read text = some (a,rest) →
    rest.length ≤ text.length
  keeps : ∀ {text rest : List UInt8} {a : α} (more : List UInt8), read text = some (a,rest) →
    read (text ++ more) = some (a,rest ++ more)

namespace Reader
variable {α β : Type}

def map (r : Reader α) (f : α → β) : Reader β where
  read text := (r.read text).map fun x => (f x.1,x.2)
  shrinks h := by
    obtain ⟨x,hx,heq⟩ := Option.map_eq_some_iff.mp h
    cases heq
    exact r.shrinks hx
  keeps more h := by
    obtain ⟨x,hx,heq⟩ := Option.map_eq_some_iff.mp h
    cases heq
    rw [r.keeps more hx]
    rfl

def filterMap (r : Reader α) (f : α → Option β) : Reader β where
  read text := (r.read text).bind fun x => (f x.1).map fun b => (b,x.2)
  shrinks h := by
    obtain ⟨x,hx,heq⟩ := Option.bind_eq_some_iff.mp h
    obtain ⟨b,-,heq⟩ := Option.map_eq_some_iff.mp heq
    cases heq
    exact r.shrinks hx
  keeps more h := by
    obtain ⟨x,hx,heq⟩ := Option.bind_eq_some_iff.mp h
    obtain ⟨b,hb,heq⟩ := Option.map_eq_some_iff.mp heq
    cases heq
    simp only [r.keeps more hx, Option.bind_some, hb, Option.map_some]

def bind (r : Reader α) (next : α → Reader β) : Reader β where
  read text := (r.read text).bind fun x => (next x.1).read x.2
  shrinks h := by
    obtain ⟨x,hx,hnext⟩ := Option.bind_eq_some_iff.mp h
    exact Nat.le_trans ((next x.1).shrinks hnext) (r.shrinks hx)
  keeps more h := by
    obtain ⟨x,hx,hnext⟩ := Option.bind_eq_some_iff.mp h
    simp only [r.keeps more hx, Option.bind_some, (next x.1).keeps more hnext]

end Reader

/-- The functions of libprotobuf that the generated code calls. `F` is a field of an
`UnknownFieldSet`. -/
structure Protobuf (F : Type) where
  /-- When the pointer comes back null the tag is 0. -/
  readTag : Reader UInt32
  readVarint32 : Reader UInt32
  inlineGreedyStringParser : Reader (List UInt8)
  /-- `UnknownFieldParse` for a tag: the field that it adds to the set. -/
  unknownFieldParse : UInt32 → Reader F
  writeUInt32ToArray : Nat → UInt32 → List UInt8
  writeBytesMaybeAliased : Nat → List UInt8 → List UInt8
  serializeUnknownFields : List F → List UInt8
  uInt32SizePlusOne : UInt32 → Nat
  bytesSize : List UInt8 → Nat
  computeUnknownFieldsSize : List F → Nat
  /-- The number of an unknown field and the form of its value, as in its tag. -/
  tagOf : F → UInt32
  readTag_lt : ∀ {text rest : List UInt8} {tag : UInt32}, readTag.read text = some (tag,rest) →
    rest.length < text.length

/-- The parser refuses a string whose size leaves no 16 bytes below `INT_MAX`. -/
def sizeLimit : Nat := 2 ^ 31 - 17

namespace Protobuf
variable {F : Type} (pb : Protobuf F)

def Readable (u : F) : Prop :=
  ∀ rest, ∃ value, pb.readTag.read (pb.serializeUnknownFields [u] ++ rest) = some (pb.tagOf u,value) ∧
    (pb.unknownFieldParse (pb.tagOf u)).read value = some (u,rest)

/-- What libprotobuf documents of these functions; tags with a number below 16 take one byte. -/
structure Lawful : Prop where
  bytes : ∀ number str rest, 0 < number → number < 16 → str.length < sizeLimit → ∃ value,
    pb.readTag.read (pb.writeBytesMaybeAliased number str ++ rest) =
      some (UInt32.ofNat (number * 8 + 2),value) ∧
    pb.inlineGreedyStringParser.read value = some (str,rest)
  varint : ∀ number n rest, 0 < number → number < 16 → ∃ value,
    pb.readTag.read (pb.writeUInt32ToArray number n ++ rest) = some (UInt32.ofNat (number * 8),value) ∧
    pb.readVarint32.read value = some (n,rest)
  bytes_length : ∀ number str, 0 < number → number < 16 →
    (pb.writeBytesMaybeAliased number str).length = 1 + pb.bytesSize str
  bytes_size : ∀ str, str.length ≤ pb.bytesSize str
  varint_length : ∀ number n, 0 < number → number < 16 →
    (pb.writeUInt32ToArray number n).length = pb.uInt32SizePlusOne n
  unknown_nil : pb.serializeUnknownFields [] = []
  unknown_cons : ∀ u us, pb.serializeUnknownFields (u :: us) =
    pb.serializeUnknownFields [u] ++ pb.serializeUnknownFields us
  unknown_length : ∀ us, (pb.serializeUnknownFields us).length = pb.computeUnknownFieldsSize us
  unknown_read : ∀ {tag text u rest}, (pb.unknownFieldParse tag).read text = some (u,rest) →
    pb.tagOf u = tag ∧ pb.Readable u

/-! What a class does with a field that may have its default value, which is not written. -/

def bytesField (number : Nat) (str : List UInt8) : List UInt8 :=
  if str.isEmpty then [] else pb.writeBytesMaybeAliased number str

def bytesFieldSize (str : List UInt8) : Nat := if str.isEmpty then 0 else 1 + pb.bytesSize str

def uint32Field (number : Nat) (n : UInt32) : List UInt8 :=
  if n ≠ 0 then pb.writeUInt32ToArray number n else []

def uint32FieldSize (n : UInt32) : Nat := if n ≠ 0 then pb.uInt32SizePlusOne n else 0

section Fields
variable {pb} (number : Nat) (h0 : 0 < number) (h16 : number < 16)
include h0 h16

theorem bytesField_length (hpb : pb.Lawful) (str : List UInt8) :
    (pb.bytesField number str).length = pb.bytesFieldSize str := by
  unfold bytesField bytesFieldSize
  split
  · rfl
  · exact hpb.bytes_length number str h0 h16

theorem uint32Field_length (hpb : pb.Lawful) (n : UInt32) :
    (pb.uint32Field number n).length = pb.uint32FieldSize n := by
  unfold uint32Field uint32FieldSize
  split
  · exact hpb.varint_length number n h0 h16
  · rfl

end Fields

theorem length_le_bytesFieldSize {pb : Protobuf F} (hpb : pb.Lawful) (str : List UInt8) :
    str.length ≤ pb.bytesFieldSize str := by
  unfold bytesFieldSize
  split
  · rename_i hempty
    rw [List.isEmpty_iff.mp hempty]
    exact Nat.le_refl 0
  · have := hpb.bytes_size str
    omega

end Protobuf

def mergeBytes (old src : List UInt8) : List UInt8 := if src.isEmpty then old else src

def mergeUInt32 (old src : UInt32) : UInt32 := if src ≠ 0 then src else old

@[simp] theorem mergeBytes_nil (src : List UInt8) : mergeBytes [] src = src := by
  cases src <;> rfl

@[simp] theorem mergeUInt32_zero (src : UInt32) : mergeUInt32 0 src = src := by
  by_cases h : src = 0 <;> simp [mergeUInt32, h]

structure ProtoMessage (P F : Type) where
  fields : P
  unknown_fields : List F := []
  deriving DecidableEq, Repr

/-- The part of a generated class that is its own. -/
structure Class (P : Type) where
  /-- The case of a tag and what it does to the fields; otherwise the tag is unusual. -/
  switch : UInt32 → Option (Reader (P → P))
  serialize : P → List UInt8
  byteSize : P → Nat
  merge : P → P → P
  empty : P

namespace Class
variable {P F : Type} (pb : Protobuf F) (cls : Class P)

/-- A tag that ends the parser: no field, or the end of a group. -/
def EndsParse (tag : UInt32) : Prop := tag = 0 ∨ tag &&& 7 = 4

instance (tag : UInt32) : Decidable (EndsParse tag) := inferInstanceAs (Decidable (_ ∨ _))

def handleUnusual (m : ProtoMessage P F) (tag : UInt32) (ptr : List UInt8) :
    Turn UInt8 (ProtoMessage P F) :=
  if EndsParse tag then .stop m
  else
    match (pb.unknownFieldParse tag).read ptr with
    | none => .fail
    | some (u,rest) => .next { m with unknown_fields := m.unknown_fields ++ [u] } rest

/-- A turn of the loop in `_InternalParse`. -/
def turn (m : ProtoMessage P F) (text : List UInt8) : Turn UInt8 (ProtoMessage P F) :=
  match pb.readTag.read text with
  | none => .fail
  | some (tag,ptr) =>
    match cls.switch tag with
    | none => handleUnusual pb m tag ptr
    | some case =>
      match case.read ptr with
      | none => .fail
      | some (set,rest) => .next { m with fields := set m.fields } rest

inductive Item (m : ProtoMessage P F) (text : List UInt8) :
    ProtoMessage P F → List UInt8 → Prop where
  | known {tag : UInt32} {ptr rest : List UInt8} {case : Reader (P → P)} {set : P → P}
      (tagged : pb.readTag.read text = some (tag,ptr)) (usual : cls.switch tag = some case)
      (value : case.read ptr = some (set,rest)) :
      Item m text { m with fields := set m.fields } rest
  | unknown {tag : UInt32} {ptr rest : List UInt8} {u : F}
      (tagged : pb.readTag.read text = some (tag,ptr)) (unusual : cls.switch tag = none)
      (goesOn : ¬ EndsParse tag) (value : (pb.unknownFieldParse tag).read ptr = some (u,rest)) :
      Item m text { m with unknown_fields := m.unknown_fields ++ [u] } rest

section Item
variable {pb} {cls} {m m' : ProtoMessage P F} {text rest : List UInt8}

theorem item_of_turn (h : cls.turn pb m text = .next m' rest) : Item pb cls m text m' rest := by
  unfold turn at h
  split at h
  · cases h
  · rename_i tag ptr tagged
    split at h
    · rename_i unusual
      unfold handleUnusual at h
      split at h
      · cases h
      · rename_i goesOn
        split at h
        · cases h
        · rename_i u rest value
          cases h
          exact .unknown tagged unusual goesOn value
    · rename_i case usual
      split at h
      · cases h
      · rename_i set rest value
        cases h
        exact .known tagged usual value

theorem turn_of_item (h : Item pb cls m text m' rest) : cls.turn pb m text = .next m' rest := by
  cases h with
  | known tagged usual value => simp only [turn, tagged, usual, value]
  | unknown tagged unusual goesOn value =>
    simp only [turn, tagged, unusual, handleUnusual, if_neg goesOn, value]

theorem Item.shrinks (h : Item pb cls m text m' rest) : rest.length < text.length := by
  cases h with
  | @known tag ptr rest case set tagged usual value =>
    have hlt := pb.readTag_lt tagged
    have hle := case.shrinks value
    omega
  | @unknown tag ptr rest u tagged unusual goesOn value =>
    have hlt := pb.readTag_lt tagged
    have hle := (pb.unknownFieldParse tag).shrinks value
    omega

theorem Item.keeps (more : List UInt8) (h : Item pb cls m text m' rest) :
    Item pb cls m (text ++ more) m' (rest ++ more) := by
  cases h with
  | @known tag ptr rest case set tagged usual value =>
    exact .known (pb.readTag.keeps more tagged) usual (case.keeps more value)
  | @unknown tag ptr rest u tagged unusual goesOn value =>
    exact .unknown (pb.readTag.keeps more tagged) unusual goesOn
      ((pb.unknownFieldParse tag).keeps more value)

end Item

/-- The fields of a text, one behind the other: what those that the class knows set, and those
that it does not know. -/
inductive Fields : List UInt8 → List (P → P) → List F → Prop where
  | nil : Fields [] [] []
  | known {tag : UInt32} {text ptr rest : List UInt8} {case : Reader (P → P)} {set : P → P}
      {sets : List (P → P)} {us : List F} (tagged : pb.readTag.read text = some (tag,ptr))
      (usual : cls.switch tag = some case) (value : case.read ptr = some (set,rest)) :
      Fields rest sets us → Fields text (set :: sets) us
  | unknown {tag : UInt32} {text ptr rest : List UInt8} {u : F} {sets : List (P → P)} {us : List F}
      (tagged : pb.readTag.read text = some (tag,ptr)) (unusual : cls.switch tag = none)
      (goesOn : ¬ EndsParse tag) (value : (pb.unknownFieldParse tag).read ptr = some (u,rest)) :
      Fields rest sets us → Fields text sets (u :: us)

def applied (sets : List (P → P)) (us : List F) (m : ProtoMessage P F) : ProtoMessage P F :=
  ⟨sets.foldl (fun fields set => set fields) m.fields,m.unknown_fields ++ us⟩

def parser : Parser UInt8 (ProtoMessage P F) where
  turn := cls.turn pb
  progress h := (item_of_turn h).shrinks

theorem parser_local : (cls.parser pb).Local := fun _ _ _ _ more h =>
  turn_of_item ((item_of_turn h).keeps more)

/-- `_InternalParse`. What it leaves when it fails is not said: it may have read on behind the
end of the text. -/
def internalParse (m : ProtoMessage P F) (text : List UInt8) : Ending (ProtoMessage P F) :=
  (cls.parser pb).run m text

def internalSerialize (m : ProtoMessage P F) : List UInt8 :=
  cls.serialize m.fields ++
    if m.unknown_fields.isEmpty then [] else pb.serializeUnknownFields m.unknown_fields

def byteSizeLong (m : ProtoMessage P F) : Nat :=
  cls.byteSize m.fields +
    if m.unknown_fields.isEmpty then 0 else pb.computeUnknownFieldsSize m.unknown_fields

def mergeFrom (m src : ProtoMessage P F) : ProtoMessage P F :=
  ⟨cls.merge m.fields src.fields,m.unknown_fields ++ src.unknown_fields⟩

def clear : ProtoMessage P F := ⟨cls.empty,[]⟩

def copyFrom (src : ProtoMessage P F) : ProtoMessage P F := cls.mergeFrom cls.clear src

def serializeAsString (m : ProtoMessage P F) : List UInt8 :=
  if cls.byteSizeLong pb m < 2 ^ 31 then cls.internalSerialize pb m else []

/-- `ParseFromString`, which every class inherits; `left` is what a parser leaves that failed. -/
def parseFromString (left : List UInt8 → ProtoMessage P F) (text : List UInt8) :
    Bool × ProtoMessage P F :=
  match cls.internalParse pb cls.clear text with
  | .done m => (true,m)
  | .stopped m => (false,m)
  | .failed => (false,left text)

structure Lawful : Prop where
  merges : ∀ (m : P) (us : List F) (src : P), (cls.serialize src).length < sizeLimit →
    (cls.parser pb).Passes ⟨m,us⟩ (cls.serialize src) ⟨cls.merge m src,us⟩
  length : ∀ m, (cls.serialize m).length = cls.byteSize m
  merge_empty : ∀ m, cls.merge cls.empty m = m

structure Foreign (u : F) : Prop where
  unusual : cls.switch (pb.tagOf u) = none
  goesOn : ¬ EndsParse (pb.tagOf u)
  readable : pb.Readable u

theorem passes_bytesField {pb : Protobuf F} (cls : Class P) (hpb : pb.Lawful) (number : Nat)
    (h0 : 0 < number) (h16 : number < 16) (get : P → List UInt8) (set : List UInt8 → P → P)
    (usual : cls.switch (UInt32.ofNat (number * 8 + 2)) = some (pb.inlineGreedyStringParser.map set))
    (hset : ∀ m, set (get m) m = m) {str : List UInt8} (hlen : str.length < sizeLimit) (m : P)
    (us : List F) : (cls.parser pb).Passes ⟨m,us⟩ (pb.bytesField number str)
      ⟨set (mergeBytes (get m) str) m,us⟩ := by
  unfold Protobuf.bytesField mergeBytes
  split
  · rw [hset]
    exact Parser.passes_nil _
  · refine Parser.passes_turn fun rest => turn_of_item ?_
    obtain ⟨value,tagged,hvalue⟩ := hpb.bytes number str rest h0 h16 hlen
    exact .known tagged usual (by simp only [Reader.map, hvalue, Option.map_some])

theorem passes_uint32Field {pb : Protobuf F} (cls : Class P) (hpb : pb.Lawful) (number : Nat)
    (h0 : 0 < number) (h16 : number < 16) (get : P → UInt32) (set : UInt32 → P → P)
    (usual : cls.switch (UInt32.ofNat (number * 8)) = some (pb.readVarint32.map set))
    (hset : ∀ m, set (get m) m = m) (n : UInt32) (m : P) (us : List F) :
    (cls.parser pb).Passes ⟨m,us⟩ (pb.uint32Field number n)
      ⟨set (mergeUInt32 (get m) n) m,us⟩ := by
  unfold Protobuf.uint32Field mergeUInt32
  split
  · refine Parser.passes_turn fun rest => turn_of_item ?_
    obtain ⟨value,tagged,hvalue⟩ := hpb.varint number n rest h0 h16
    exact .known tagged usual (by simp only [Reader.map, hvalue, Option.map_some])
  · rw [hset]
    exact Parser.passes_nil _

section Laws
variable {pb} {cls} {m src : ProtoMessage P F} {text : List UInt8}

theorem internalSerialize_eq (hpb : pb.Lawful) (m : ProtoMessage P F) :
    cls.internalSerialize pb m = cls.serialize m.fields ++ pb.serializeUnknownFields m.unknown_fields := by
  unfold internalSerialize
  split
  · rename_i hempty
    rw [List.isEmpty_iff.mp hempty, hpb.unknown_nil]
  · rfl

/-- `ByteSizeLong` foretells what `_InternalSerialize` writes. -/
theorem internalSerialize_length (hpb : pb.Lawful) (hcls : cls.Lawful pb) (m : ProtoMessage P F) :
    (cls.internalSerialize pb m).length = cls.byteSizeLong pb m := by
  rw [internalSerialize, byteSizeLong, List.length_append, hcls.length]
  split
  · rfl
  · rw [hpb.unknown_length]

theorem passes_unknown (hpb : pb.Lawful) {us : List F} (hus : ∀ u ∈ us, cls.Foreign pb u)
    (m : ProtoMessage P F) : (cls.parser pb).Passes m (pb.serializeUnknownFields us)
      { m with unknown_fields := m.unknown_fields ++ us } := by
  induction us generalizing m with
  | nil =>
    rw [hpb.unknown_nil, List.append_nil]
    exact Parser.passes_nil m
  | cons u us ih =>
    obtain ⟨unusual,goesOn,readable⟩ := hus u List.mem_cons_self
    have hone : (cls.parser pb).Passes m (pb.serializeUnknownFields [u])
        { m with unknown_fields := m.unknown_fields ++ [u] } := by
      refine Parser.passes_turn fun rest => turn_of_item ?_
      obtain ⟨value,tagged,hvalue⟩ := readable rest
      exact .unknown tagged unusual goesOn hvalue
    have hrest := ih (fun v hv => hus v (List.mem_cons_of_mem u hv))
      { m with unknown_fields := m.unknown_fields ++ [u] }
    rw [hpb.unknown_cons]
    simpa using hone.append hrest

/-- What a message is written as is read, wherever it stands, as that message merged. -/
theorem passes_serialize (hpb : pb.Lawful) (hcls : cls.Lawful pb)
    (hsize : cls.byteSizeLong pb src < sizeLimit)
    (hforeign : ∀ u ∈ src.unknown_fields, cls.Foreign pb u) (m : ProtoMessage P F) :
    (cls.parser pb).Passes m (cls.internalSerialize pb src) (cls.mergeFrom m src) := by
  have hlen := internalSerialize_length hpb hcls src
  rw [internalSerialize_eq hpb] at hlen ⊢
  rw [List.length_append] at hlen
  exact (hcls.merges m.fields m.unknown_fields src.fields (by omega)).append
    (passes_unknown hpb hforeign _)

theorem copyFrom_eq (hcls : cls.Lawful pb) (src : ProtoMessage P F) : cls.copyFrom src = src := by
  rw [copyFrom, mergeFrom, clear, hcls.merge_empty, List.nil_append]

/-- An accepted text is one of fields. -/
theorem fields_of_parse (h : cls.internalParse pb m text = .done src) :
    ∃ sets us, Fields pb cls text sets us := by
  refine Parser.run_induction (I := fun _ text => ∃ sets us, Fields pb cls text sets us)
    ⟨[],[],.nil⟩ ?_ h
  rintro s text t rest hturn - ⟨sets,us,hrest⟩
  cases item_of_turn hturn with
  | known tagged usual value => exact ⟨_,us,.known tagged usual value hrest⟩
  | unknown tagged unusual goesOn value =>
    exact ⟨sets,_,.unknown tagged unusual goesOn value hrest⟩

theorem Fields.parse {sets : List (P → P)} {us : List F} (h : Fields pb cls text sets us)
    (m : ProtoMessage P F) : cls.internalParse pb m text = .done (applied sets us m) := by
  induction h generalizing m with
  | nil => rw [applied, List.append_nil]; rfl
  | @known tag text ptr rest case set sets us tagged usual value _ ih =>
    have hrest := ih { m with fields := set m.fields }
    exact (Parser.run_next (turn_of_item (.known tagged usual value))).trans hrest
  | @unknown tag text ptr rest u sets us tagged unusual goesOn value _ ih =>
    have hrest := ih { m with unknown_fields := m.unknown_fields ++ [u] }
    have hsame : applied sets us { m with unknown_fields := m.unknown_fields ++ [u] } =
        applied sets (u :: us) m := by
      rw [applied, applied, List.append_assoc, List.singleton_append]
    rw [← hsame, ← hrest]
    exact Parser.run_next (turn_of_item (.unknown tagged unusual goesOn value))

theorem Fields.foreign {sets : List (P → P)} {us : List F} (hpb : pb.Lawful)
    (h : Fields pb cls text sets us) : ∀ u ∈ us, cls.Foreign pb u := by
  induction h with
  | nil => simp
  | known _ _ _ _ ih => exact ih
  | unknown tagged unusual goesOn value _ ih =>
    obtain ⟨rfl,readable⟩ := hpb.unknown_read value
    exact List.forall_mem_cons.mpr ⟨⟨unusual,goesOn,readable⟩,ih⟩

structure Writable (pb : Protobuf F) (cls : Class P) (m : ProtoMessage P F) : Prop where
  size : cls.byteSizeLong pb m < sizeLimit
  foreign : ∀ u ∈ m.unknown_fields, cls.Foreign pb u

theorem serializeAsString_eq (h : cls.byteSizeLong pb m < sizeLimit) :
    cls.serializeAsString pb m = cls.internalSerialize pb m := by
  have hlt : cls.byteSizeLong pb m < 2 ^ 31 := Nat.lt_trans h (by decide)
  rw [serializeAsString, if_pos hlt]

theorem parse_messages (hpb : pb.Lawful) (hcls : cls.Lawful pb) {ms : List (ProtoMessage P F)}
    (hms : ∀ src ∈ ms, Writable pb cls src) (m : ProtoMessage P F) (rest : List UInt8) :
    cls.internalParse pb m (ms.flatMap (cls.serializeAsString pb) ++ rest) =
      cls.internalParse pb (ms.foldl cls.mergeFrom m) rest := by
  refine Parser.passes_flatMap (p := cls.parser pb) _ _ ms (fun m src hsrc => ?_) m rest
  obtain ⟨hsize,hforeign⟩ := hms src hsrc
  rw [serializeAsString_eq hsize]
  exact passes_serialize hpb hcls hsize hforeign m

theorem parse_serialize (hpb : pb.Lawful) (hcls : cls.Lawful pb) (hm : Writable pb cls m)
    (left : List UInt8 → ProtoMessage P F) :
    cls.parseFromString pb left (cls.serializeAsString pb m) = (true,m) := by
  have hone : ∀ src ∈ [m], Writable pb cls src := by simpa using hm
  have hparse := parse_messages hpb hcls hone cls.clear []
  have hclear : cls.mergeFrom cls.clear m = m := copyFrom_eq hcls m
  rw [List.flatMap_singleton, List.append_nil, List.foldl_cons, List.foldl_nil, hclear] at hparse
  rw [parseFromString, hparse]
  rfl

structure Keeps (pb : Protobuf F) (cls : Class P) : Prop where
  length : ∀ m : ProtoMessage P F, (cls.internalSerialize pb m).length = cls.byteSizeLong pb m
  parses : ∀ (left : List UInt8 → ProtoMessage P F) (m : ProtoMessage P F), Writable pb cls m →
    cls.parseFromString pb left (cls.serializeAsString pb m) = (true,m)
  merges : ∀ (ms : List (ProtoMessage P F)) (m : ProtoMessage P F) (rest : List UInt8),
    (∀ src ∈ ms, Writable pb cls src) →
    cls.internalParse pb m (ms.flatMap (cls.serializeAsString pb) ++ rest) =
      cls.internalParse pb (ms.foldl cls.mergeFrom m) rest
  copies : ∀ m : ProtoMessage P F, cls.copyFrom m = m

theorem keeps_of_lawful (hpb : pb.Lawful) (hcls : cls.Lawful pb) : Keeps pb cls :=
  ⟨internalSerialize_length hpb hcls,fun left _ hm => parse_serialize hpb hcls hm left,
    fun _ m rest hms => parse_messages hpb hcls hms m rest,copyFrom_eq hcls⟩

theorem parseFromString_done {left : List UInt8 → ProtoMessage P F}
    (h : cls.parseFromString pb left text = (true,m)) :
    cls.internalParse pb cls.clear text = .done m := by
  unfold parseFromString at h
  split at h
  · rename_i hdone
    cases h
    exact hdone
  · cases h
  · cases h

/-- What an accepted text is good for. -/
structure Accepted (pb : Protobuf F) (cls : Class P) (left : List UInt8 → ProtoMessage P F)
    (text : List UInt8) (m : ProtoMessage P F) : Prop where
  /-- The text is one of fields, all those that the class does not know are kept, and the text
  does the same to any message and lets the parser go on. -/
  acts : ∃ sets, Fields pb cls text sets m.unknown_fields ∧
    m = applied sets m.unknown_fields cls.clear ∧
    ∀ (m' : ProtoMessage P F) (rest : List UInt8), cls.internalParse pb m' (text ++ rest) =
      cls.internalParse pb (applied sets m.unknown_fields m') rest
  foreign : ∀ u ∈ m.unknown_fields, cls.Foreign pb u
  again : cls.byteSizeLong pb m < sizeLimit →
    cls.parseFromString pb left (cls.serializeAsString pb m) = (true,m)

theorem accepted_of_parse (hpb : pb.Lawful) (hcls : cls.Lawful pb)
    {left : List UInt8 → ProtoMessage P F} (h : cls.parseFromString pb left text = (true,m)) :
    Accepted pb cls left text m := by
  have hdone := parseFromString_done h
  obtain ⟨sets,us,hfields⟩ := fields_of_parse hdone
  obtain rfl : applied sets us cls.clear = m := by
    have hclear := hfields.parse cls.clear
    rw [hdone] at hclear
    injection hclear with hsame
    exact hsame.symm
  have hforeign := hfields.foreign hpb
  exact ⟨⟨sets,hfields,rfl,
      fun m' rest => Parser.passes_of_done (parser_local pb cls) (hfields.parse m') rest⟩,
    hforeign,fun hsize => parse_serialize hpb hcls ⟨hsize,hforeign⟩ left⟩

end Laws

end Class

open ProtoWire

namespace Reader
variable {α : Type}

def varint : Reader Nat where
  read := readVarint
  shrinks h := Nat.le_of_lt (readVarint_lt h)
  keeps more h := readVarint_keeps more h

def take (n : Nat) : Reader (List UInt8) where
  read text := if n ≤ text.length then some (text.take n,text.drop n) else none
  shrinks h := by
    obtain ⟨-,heq⟩ := Option.ite_none_right_eq_some.mp h
    cases heq
    rw [List.length_drop]
    exact Nat.sub_le _ _
  keeps more h := by
    obtain ⟨hle,heq⟩ := Option.ite_none_right_eq_some.mp h
    cases heq
    rw [if_pos (by rw [List.length_append]; omega), List.take_append_of_le_length hle,
      List.drop_append_of_le_length hle]

def none : Reader α where
  read _ := .none
  shrinks h := by cases h
  keeps more h := by cases h

def below (bound : Nat) : Reader Nat := varint.filterMap fun n => if n < bound then some n else .none

def string : Reader (List UInt8) := (below sizeLimit).bind take

variable {bound n : Nat} {text rest str : List UInt8}

theorem below_read (h : n < bound) (rest : List UInt8) :
    (below bound).read (ProtoWire.varint n ++ rest) = some (n,rest) := by
  simp only [below, filterMap, varint, readVarint_varint, Option.bind_some, if_pos h, Option.map_some]

theorem below_spec (h : (below bound).read text = some (n,rest)) :
    rest.length < text.length ∧ n < bound := by
  obtain ⟨⟨n,rest⟩,hx,heq⟩ := Option.bind_eq_some_iff.mp h
  obtain ⟨m,hm,heq⟩ := Option.map_eq_some_iff.mp heq
  obtain ⟨hlt,hsame⟩ := Option.ite_none_right_eq_some.mp hm
  cases hsame
  cases heq
  exact ⟨readVarint_lt hx,hlt⟩

theorem string_read (h : str.length < sizeLimit) (rest : List UInt8) :
    string.read (ProtoWire.varint str.length ++ (str ++ rest)) = some (str,rest) := by
  have hle : str.length ≤ (str ++ rest).length := by rw [List.length_append]; exact Nat.le_add_right _ _
  simp only [string, bind, below_read h, Option.bind_some, take, if_pos hle, List.take_left,
    List.drop_left]

theorem string_spec (h : string.read text = some (str,rest)) : str.length < sizeLimit := by
  obtain ⟨⟨n,ptr⟩,hx,hnext⟩ := Option.bind_eq_some_iff.mp h
  obtain ⟨hle,heq⟩ := Option.ite_none_right_eq_some.mp hnext
  cases heq
  rw [List.length_take]
  exact Nat.lt_of_le_of_lt (Nat.min_le_left _ _) (below_spec hx).2

end Reader

def wire : Protobuf Field where
  readTag := (Reader.below (2 ^ 32)).map UInt32.ofNat
  readVarint32 := (Reader.below (2 ^ 64)).map UInt32.ofNat
  inlineGreedyStringParser := Reader.string
  unknownFieldParse tag :=
    if tag.toNat % 8 = 0 then (Reader.below (2 ^ 64)).map fun n => ⟨tag.toNat / 8,.varint n⟩
    else if tag.toNat % 8 = 2 then Reader.string.map fun bs => ⟨tag.toNat / 8,.bytes bs⟩
    else Reader.none
  writeUInt32ToArray number n := Field.write ⟨number,.varint n.toNat⟩
  writeBytesMaybeAliased number str := Field.write ⟨number,.bytes str⟩
  serializeUnknownFields := write
  uInt32SizePlusOne n := 1 + (varint n.toNat).length
  bytesSize str := (varint str.length).length + str.length
  computeUnknownFieldsSize us := (write us).length
  tagOf
    | ⟨number,.varint _⟩ => UInt32.ofNat (number * 8)
    | ⟨number,.bytes _⟩ => UInt32.ofNat (number * 8 + 2)
  readTag_lt h := by
    obtain ⟨x,hx,heq⟩ := Option.map_eq_some_iff.mp h
    cases heq
    exact (Reader.below_spec hx).1

theorem wire_tag {n : Nat} (h : n < 2 ^ 32) (rest : List UInt8) :
    wire.readTag.read (varint n ++ rest) = some (UInt32.ofNat n,rest) := by
  simp only [wire, Reader.map, Reader.below_read h, Option.map_some]

theorem varint_short {n : Nat} (h : n < 128) : (varint n).length = 1 := by
  rw [varint, if_pos h]
  rfl

theorem wire_unknown {tag : UInt32} {text rest : List UInt8} {u : Field}
    (h : (wire.unknownFieldParse tag).read text = some (u,rest)) :
    wire.tagOf u = tag ∧ wire.Readable u := by
  have hlt := tag.toNat_lt
  have htag : ∀ form, tag.toNat % 8 = form → UInt32.ofNat (tag.toNat / 8 * 8 + form) = tag := by
    intro form hform
    rw [← hform, Nat.div_add_mod', UInt32.ofNat_toNat]
  by_cases hvarint : tag.toNat % 8 = 0
  · simp only [wire, if_pos hvarint] at h
    obtain ⟨⟨n,ptr⟩,hx,heq⟩ := Option.map_eq_some_iff.mp h
    cases heq
    have hsame : UInt32.ofNat (tag.toNat / 8 * 8) = tag := htag 0 hvarint
    refine ⟨hsame,fun more => ⟨varint n ++ more,?_,?_⟩⟩
    · have hwrite : wire.serializeUnknownFields [⟨tag.toNat / 8,.varint n⟩] ++ more =
          varint (tag.toNat / 8 * 8) ++ (varint n ++ more) := by
        simp [wire, write, Field.write]
      rw [hwrite, wire_tag (by omega)]
      rfl
    · have hof : wire.tagOf ⟨tag.toNat / 8,.varint n⟩ = tag := hsame
      rw [hof]
      simp only [wire, if_pos hvarint, Reader.map, Reader.below_read (Reader.below_spec hx).2,
        Option.map_some]
  · by_cases hbytes : tag.toNat % 8 = 2
    · simp only [wire, if_neg hvarint, if_pos hbytes] at h
      obtain ⟨⟨str,ptr⟩,hx,heq⟩ := Option.map_eq_some_iff.mp h
      cases heq
      have hsame : UInt32.ofNat (tag.toNat / 8 * 8 + 2) = tag := htag 2 hbytes
      refine ⟨hsame,fun more => ⟨varint str.length ++ (str ++ more),?_,?_⟩⟩
      · have hwrite : wire.serializeUnknownFields [⟨tag.toNat / 8,.bytes str⟩] ++ more =
            varint (tag.toNat / 8 * 8 + 2) ++ (varint str.length ++ (str ++ more)) := by
          simp [wire, write, Field.write]
        rw [hwrite, wire_tag (by omega)]
        rfl
      · have hof : wire.tagOf ⟨tag.toNat / 8,.bytes str⟩ = tag := hsame
        rw [hof]
        simp only [wire, if_neg hvarint, if_pos hbytes, Reader.map,
          Reader.string_read (Reader.string_spec hx), Option.map_some]
    · simp only [wire, if_neg hvarint, if_neg hbytes] at h
      cases h

theorem wire_lawful : wire.Lawful where
  bytes number str rest h0 h16 hstr := by
    refine ⟨varint str.length ++ (str ++ rest),?_,Reader.string_read hstr rest⟩
    have hwrite : wire.writeBytesMaybeAliased number str ++ rest =
        varint (number * 8 + 2) ++ (varint str.length ++ (str ++ rest)) := by
      simp [wire, Field.write]
    rw [hwrite, wire_tag (by omega)]
  varint number n rest h0 h16 := by
    have hn : n.toNat < 2 ^ 64 := Nat.lt_trans n.toNat_lt (by decide)
    refine ⟨varint n.toNat ++ rest,?_,?_⟩
    · have hwrite : wire.writeUInt32ToArray number n ++ rest =
          varint (number * 8) ++ (varint n.toNat ++ rest) := by
        simp [wire, Field.write]
      rw [hwrite, wire_tag (by omega)]
    · simp only [wire, Reader.map, Reader.below_read hn, Option.map_some, UInt32.ofNat_toNat]
  bytes_length number str h0 h16 := by
    simp only [wire, Field.write, List.length_append, varint_short (by omega : number * 8 + 2 < 128)]
  bytes_size str := Nat.le_add_left _ _
  varint_length number n h0 h16 := by
    simp only [wire, Field.write, List.length_append, varint_short (by omega : number * 8 < 128)]
  unknown_nil := rfl
  unknown_cons u us := by simp [wire, write]
  unknown_length us := rfl
  unknown_read := wire_unknown

end TransmissionPlatform.ProtoClass
