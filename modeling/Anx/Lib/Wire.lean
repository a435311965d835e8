import Anx.Lib.Varint

/-!
# Messages in the protobuf wire format

How the reflection of the C++ library writes a message and merges bytes into one,
for any message type: a message is the concatenation of its records, a record is a
tag and a value, and the parser takes one record after the other.

- `Kind`: how one value of a field is written and read, with the law that reading
  gives what was written; `Kind.unsigned`, `Kind.string`, `Kind.message` and so on.
- `Field`: what one field of a message writes, and how a record of it changes a
  message; `Field.singular`, `Field.packed`, `Field.repeated`, `Field.submessage`.
- `Format`: a message type as the list of its fields; `serialize`, `mergeFrom`.
- `Reads`: bytes that are whole records, with what they make of a message.
  `mergeFrom_serialize`: **merging what was serialized is merging the messages**,
  field by field.
-/

namespace Anx.Lib.Wire

open Anx.Lib

variable {α β : Type}

/-! ## Fields that the message does not have -/

/-- `n` bytes are passed over. -/
def skipBytes (n : Nat) (bs : Bytes) : Option Bytes :=
  if n ≤ bs.length then some (bs.drop n) else none

/-- `FieldParser` on a field that is not kept; `group` passes over the fields of a
group up to its end tag. -/
def skipValue (group : Nat → Nat → Bytes → Option Bytes) (depth tag : Nat) (bs : Bytes) :
    Option Bytes :=
  if tag / 8 = 0 then none
  else
    match tag % 8 with
    | 0 => (readVarint 64 9 bs).map Prod.snd
    | 1 => skipBytes 8 bs
    | 2 => (readDelimited bs).map Prod.snd
    | 3 =>
      match depth with
      | 0 => none
      | depth + 1 => group depth (tag + 1) bs
    | 5 => skipBytes 4 bs
    | _ => none

/-- `ParseGroup` over unknown fields: up to the tag `stop`. A field has at least one
byte. -/
def skipGroup : Nat → Nat → Nat → Bytes → Option Bytes
  | 0, _, _, _ => none
  | k + 1, depth, stop, bs =>
    (readTag bs).bind fun p =>
      if p.1 = 0 ∨ p.1 % 8 = 4 then if p.1 = stop then some p.2 else none
      else (skipValue (skipGroup k) depth p.1 p.2).bind (skipGroup k depth stop)

/-- `UnknownFieldParse`. -/
def skipField (depth tag : Nat) (bs : Bytes) : Option Bytes :=
  skipValue (skipGroup bs.length) depth tag bs

/-! ## Kinds of values -/

/-- A kind of value: how a value is written, and how one is read with `depth` levels
of messages to spare. What is read may be a normal form of what was written. -/
structure Kind (β : Type) where
  wireType : Nat
  write : β → Bytes
  read : Nat → Bytes → Option (β × Bytes)
  /-- The levels of messages in a value. -/
  depth : Nat
  norm : β → β
  wireType_mem : wireType ∈ [0, 1, 2, 5]
  write_ne_nil : ∀ v, write v ≠ []
  read_write : ∀ d v rest, depth ≤ d → (write v).length ≤ maxSize →
    read d (write v ++ rest) = some (norm v, rest)

theorem writeVarint_ne_nil (n : Nat) : writeVarint n ≠ [] := by
  by_cases h : n < 128
  · rw [writeVarint, writeVarintIn_small h]
    exact List.cons_ne_nil _ _
  · rw [writeVarint, writeVarintIn_large h]
    exact List.cons_ne_nil _ _

theorem writeDelimited_ne_nil (value : Bytes) : writeDelimited value ≠ [] :=
  List.append_ne_nil_of_left_ne_nil (writeVarint_ne_nil _) _

namespace Kind

/-- `uint32` and `uint64`. -/
def unsigned (w : Nat) (hw : 7 ≤ w ∧ w ≤ 64) : Kind (BitVec w) where
  wireType := 0
  write v := writeVarint v.toNat
  read _ bs := (readVarint w 9 bs).map fun p => (BitVec.ofNat w p.1, p.2)
  depth := 0
  norm := id
  wireType_mem := by decide
  write_ne_nil _ := writeVarint_ne_nil _
  read_write d v rest _ _ := by
    have hlt : v.toNat < 128 ^ (9 + 1) := by
      calc v.toNat < 2 ^ w := v.isLt
        _ ≤ 2 ^ 64 := Nat.pow_le_pow_right (by omega) hw.2
        _ ≤ 128 ^ (9 + 1) := by decide
    rw [readVarint_writeVarint rest hw.1 (by omega) hlt, Option.map_some,
      Nat.mod_eq_of_lt v.isLt, BitVec.ofNat_toNat, BitVec.setWidth_eq]
    rfl

/-- `int32`: written with its sign in 64 bits, read in 32. -/
def int32 : Kind (BitVec 32) where
  wireType := 0
  write v := writeVarint (v.signExtend 64).toNat
  read _ bs := (readVarint 32 9 bs).map fun p => (BitVec.ofNat 32 p.1, p.2)
  depth := 0
  norm := id
  wireType_mem := by decide
  write_ne_nil _ := writeVarint_ne_nil _
  read_write d v rest _ _ := by
    have hlt : (v.signExtend 64).toNat < 128 ^ (9 + 1) :=
      Nat.lt_of_lt_of_le (v.signExtend 64).isLt (by decide)
    have hback : BitVec.ofNat 32 ((v.signExtend 64).toNat % 2 ^ 32) = v := by
      apply BitVec.eq_of_toNat_eq
      rw [BitVec.toNat_ofNat, Nat.mod_mod, BitVec.toNat_signExtend]
      split <;> simp <;> omega
    rw [readVarint_writeVarint rest (by omega) (by omega) hlt, Option.map_some, hback]
    rfl

/-- `bool`. -/
def bool : Kind Bool where
  wireType := 0
  write v := writeVarint v.toNat
  read _ bs := (readVarint 64 9 bs).map fun p => (decide (p.1 ≠ 0), p.2)
  depth := 0
  norm := id
  wireType_mem := by decide
  write_ne_nil _ := writeVarint_ne_nil _
  read_write d v rest _ _ := by
    have hlt : v.toNat < 2 := v.toNat_lt
    rw [readVarint_writeVarint rest (by omega) (by omega) (by omega), Option.map_some,
      Nat.mod_eq_of_lt (by omega)]
    cases v <;> rfl

/-- `double`, as its 64 bits. -/
def double : Kind (BitVec 64) where
  wireType := 1
  write v := writeLittle 8 v.toNat
  read _ bs := (readLittle 8 bs).map fun p => (BitVec.ofNat 64 p.1, p.2)
  depth := 0
  norm := id
  wireType_mem := by decide
  write_ne_nil _ := List.cons_ne_nil _ _
  read_write d v rest _ _ := by
    rw [readLittle_writeLittle rest (Nat.lt_of_lt_of_le v.isLt (by decide)), Option.map_some,
      BitVec.ofNat_toNat, BitVec.setWidth_eq]
    rfl

/-- `bytes`. -/
def bytes : Kind Bytes where
  wireType := 2
  write := writeDelimited
  read _ := readDelimited
  depth := 0
  norm := id
  wireType_mem := by decide
  write_ne_nil := writeDelimited_ne_nil
  read_write _ v rest _ h :=
    readDelimited_writeDelimited rest (Nat.le_trans (length_le_writeDelimited v) h)

/-- `string`: the parser refuses what is not UTF-8. -/
def string : Kind String where
  wireType := 2
  write v := writeDelimited v.toUTF8.data.toList
  read _ bs := (readDelimited bs).bind fun p =>
    (String.fromUTF8? ⟨p.1.toArray⟩).map fun v => (v, p.2)
  depth := 0
  norm := id
  wireType_mem := by decide
  write_ne_nil _ := writeDelimited_ne_nil _
  read_write _ v rest _ h := by
    have hutf8 : String.fromUTF8? v.toByteArray = some v := dif_pos v.isValidUTF8
    rw [readDelimited_writeDelimited rest (Nat.le_trans (length_le_writeDelimited _) h),
      Option.bind_some]
    show (String.fromUTF8? v.toByteArray).map _ = _
    rw [hutf8]
    rfl

end Kind

/-! ## Fields of a message -/

/-- The tag of field `number` with a value of wire type `wireType`. -/
def tag (number wireType : Nat) : Nat := number * 8 + wireType

/-- What is done with the value behind a tag, if the field takes its wire type. -/
abbrev Reader (α : Type) := Nat → Option (α → Bytes → Option (α × Bytes))

/-- `bs` is records of the field `number`, which take the message from `m` to the last one. -/
inductive Records (number : Nat) (read : Reader α) : α → Bytes → α → Prop where
  | nil (m : α) : Records number read m [] m
  | cons {m m' m'' : α} {wireType : Nat} {f : α → Bytes → Option (α × Bytes)} {value bs : Bytes}
      (hwire : wireType ∈ [0, 1, 2, 5]) (htakes : read wireType = some f)
      (hread : ∀ rest, f m (value ++ rest) = some (m', rest))
      (htail : Records number read m' bs m'') :
      Records number read m (writeVarint (tag number wireType) ++ (value ++ bs)) m''

/-- A field of a message: its records in the bytes of a message, what one record does to
a message that is being parsed, and what all records of `m'` do to it. -/
structure Field (α : Type) where
  number : Nat
  write : α → Bytes
  read : Nat → Reader α
  depth : Nat
  merge : α → α → α
  number_mem : 0 < number ∧ number < 2 ^ 29
  records : ∀ d m m', depth ≤ d → (write m').length ≤ maxSize →
    Records number (read d) m (write m') (merge m m')

theorem Records.append {number : Nat} {read : Reader α} {m m' m'' : α} {bs bs' : Bytes}
    (h : Records number read m bs m') (h' : Records number read m' bs' m'') :
    Records number read m (bs ++ bs') m'' := by
  induction h with
  | nil m => exact h'
  | cons hwire htakes hread _ ih =>
    rw [List.append_assoc, List.append_assoc]
    exact .cons hwire htakes hread (ih h')

theorem Records.single {number wireType : Nat} {read : Reader α} {m m' : α}
    {f : α → Bytes → Option (α × Bytes)} {value : Bytes} (hwire : wireType ∈ [0, 1, 2, 5])
    (htakes : read wireType = some f) (hread : ∀ rest, f m (value ++ rest) = some (m', rest)) :
    Records number read m (writeVarint (tag number wireType) ++ value) m' := by
  have h : Records number read m (writeVarint (tag number wireType) ++ (value ++ [])) m' :=
    .cons hwire htakes hread (.nil m')
  rw [List.append_nil] at h
  exact h

theorem length_writeLittle (k n : Nat) : (writeLittle k n).length = k := by
  induction k generalizing n with
  | zero => rfl
  | succ k ih => exact congrArg (· + 1) (ih _)

namespace Field

/-- A field with one value, which is not written when it is `isDefault`. -/
def singular (number : Nat) (kind : Kind β) (isDefault : β → Bool) (get : α → β)
    (set : α → β → α) (hnumber : 0 < number ∧ number < 2 ^ 29) : Field α where
  number := number
  write m := if isDefault (get m) then []
    else writeVarint (tag number kind.wireType) ++ kind.write (get m)
  read d wireType := if wireType = kind.wireType then
      some fun m bs => (kind.read d bs).map fun p => (set m p.1, p.2)
    else none
  depth := kind.depth
  merge m m' := if isDefault (get m') then m else set m (kind.norm (get m'))
  number_mem := hnumber
  records d m m' hd hsize := by
    split at hsize
    · next hdefault =>
      rw [if_pos hdefault, if_pos hdefault]
      exact .nil m
    · next hdefault =>
      rw [if_neg hdefault, if_neg hdefault]
      rw [List.length_append] at hsize
      refine .single kind.wireType_mem (if_pos rfl) fun rest => ?_
      rw [kind.read_write d _ rest hd (by omega)]
      rfl

/-- A repeated field with one record for each value. -/
def repeated (number : Nat) (kind : Kind β) (get : α → List β) (set : α → List β → α)
    (hget : ∀ m vs, get (set m vs) = vs) (hset : ∀ m vs vs', set (set m vs) vs' = set m vs')
    (hself : ∀ m, set m (get m) = m) (hnumber : 0 < number ∧ number < 2 ^ 29) : Field α where
  number := number
  write m := (get m).flatMap fun v => writeVarint (tag number kind.wireType) ++ kind.write v
  read d wireType := if wireType = kind.wireType then
      some fun m bs => (kind.read d bs).map fun p => (set m (get m ++ [p.1]), p.2)
    else none
  depth := kind.depth
  merge m m' := set m (get m ++ (get m').map kind.norm)
  number_mem := hnumber
  records d m m' hd hsize := by
    -- the values that were read so far are at the end of the field of `m`
    generalize get m' = vs at hsize ⊢
    induction vs generalizing m with
    | nil =>
      rw [List.map_nil, List.append_nil, hself]
      exact .nil m
    | cons v vs ih =>
      rw [List.flatMap_cons, List.length_append, List.length_append] at hsize
      have htail := ih (set m (get m ++ [kind.norm v])) (by omega)
      rw [hget, hset, List.append_assoc] at htail
      refine .append (.single kind.wireType_mem (if_pos rfl) fun rest => ?_) htail
      rw [kind.read_write d _ rest hd (by omega)]
      rfl

end Field

/-- Values one after the other, up to the end of `bs`; a value has at least one byte. -/
def readAll (read : Bytes → Option (β × Bytes)) : Nat → Bytes → Option (List β)
  | _, [] => some []
  | 0, _ :: _ => none
  | k + 1, byte :: bs =>
    (read (byte :: bs)).bind fun p => (readAll read k p.2).map (p.1 :: ·)

theorem readAll_flatMap {kind : Kind β} {d k : Nat} {vs : List β} (hd : kind.depth ≤ d)
    (hk : (vs.flatMap kind.write).length ≤ k) (hsize : (vs.flatMap kind.write).length ≤ maxSize) :
    readAll (kind.read d) k (vs.flatMap kind.write) = some (vs.map kind.norm) := by
  induction vs generalizing k with
  | nil => cases k <;> rfl
  | cons v vs ih =>
    rw [List.flatMap_cons, List.length_append] at hk hsize
    have hpos : 0 < (kind.write v).length := List.length_pos_iff.mpr (kind.write_ne_nil v)
    obtain ⟨k, rfl⟩ : ∃ k', k = k' + 1 := ⟨k - 1, by omega⟩
    have hread := kind.read_write d v (vs.flatMap kind.write) hd (by omega)
    obtain ⟨byte, bs, hbs⟩ := List.exists_cons_of_ne_nil
      (List.append_ne_nil_of_left_ne_nil (kind.write_ne_nil v) (vs.flatMap kind.write))
    rw [List.flatMap_cons, hbs, readAll, ← hbs, hread, Option.bind_some,
      ih (by omega) (by omega)]
    rfl

namespace Field

/-- A repeated field of numbers: written as one record that holds them all; records
with one number are read too. -/
def packed (number : Nat) (kind : Kind β) (get : α → List β) (set : α → List β → α)
    (hnumber : 0 < number ∧ number < 2 ^ 29) : Field α where
  number := number
  write m := if (get m).isEmpty then []
    else writeVarint (tag number 2) ++ writeDelimited ((get m).flatMap kind.write)
  read d wireType :=
    if wireType = 2 then
      some fun m bs => (readDelimited bs).bind fun p =>
        (readAll (kind.read d) p.1.length p.1).map fun vs => (set m (get m ++ vs), p.2)
    else if wireType = kind.wireType then
      some fun m bs => (kind.read d bs).map fun p => (set m (get m ++ [p.1]), p.2)
    else none
  depth := kind.depth
  merge m m' := if (get m').isEmpty then m else set m (get m ++ (get m').map kind.norm)
  number_mem := hnumber
  records d m m' hd hsize := by
    split at hsize
    · next hempty =>
      rw [if_pos hempty, if_pos hempty]
      exact .nil m
    · next hempty =>
      rw [if_neg hempty, if_neg hempty]
      rw [List.length_append] at hsize
      have hvalues : ((get m').flatMap kind.write).length ≤ maxSize :=
        Nat.le_trans (length_le_writeDelimited _) (by omega)
      refine .single (by decide) (if_pos rfl) fun rest => ?_
      rw [readDelimited_writeDelimited rest hvalues, Option.bind_some,
        readAll_flatMap hd (Nat.le_refl _) hvalues]
      rfl

end Field

/-! ## Message types -/

/-- A message type: its empty message and its fields, by number. -/
structure Format (α : Type) where
  default : α
  fields : List (Field α)
  sorted : (fields.map Field.number).Pairwise (· < ·)

namespace Format

/-- `_InternalSerialize`. -/
def serialize (F : Format α) (m : α) : Bytes := F.fields.flatMap fun f => f.write m

/-- `SerializeToString`: a message of more than `INT_MAX` bytes is given up, and the
string is left empty. -/
def serializeToString (F : Format α) (m : α) : Bytes :=
  if (F.serialize m).length ≤ 2 ^ 31 - 1 then F.serialize m else []

/-- `MergeFrom`: field by field. -/
def merge (F : Format α) (m m' : α) : α := F.fields.foldl (fun m f => f.merge m m') m

/-- The levels of messages in a message. -/
def depth (F : Format α) : Nat := (F.fields.map Field.depth).foldr max 0

/-- `_InternalParseAndMergeField`: a field that the message does not have, or that does
not take the wire type, is unknown. -/
def step (F : Format α) (d : Nat) (m : α) (tag : Nat) (bs : Bytes) : Option (α × Bytes) :=
  match (F.fields.find? fun f => f.number == tag / 8).bind fun f => f.read d (tag % 8) with
  | some read => read m bs
  | none => (skipField d tag bs).map fun rest => (m, rest)

/-- `_InternalParse` up to the limit: at a limit, neither a zero tag nor an end of
group may stand. -/
def mergeIn (F : Format α) (d : Nat) : Nat → α → Bytes → Option α
  | _, m, [] => some m
  | 0, _, _ :: _ => none
  | k + 1, m, byte :: bs =>
    (readTag (byte :: bs)).bind fun p =>
      if p.1 = 0 ∨ p.1 % 8 = 4 then none
      else (F.step d m p.1 p.2).bind fun q => mergeIn F d k q.1 q.2

/-- `_InternalParse` on the bytes of a message; a record has at least one byte. -/
def mergeFrom (F : Format α) (d : Nat) (m : α) (bs : Bytes) : Option α :=
  F.mergeIn d bs.length m bs

/-- `ParseFromString`: into an empty message, with the default recursion limit. -/
def parse (F : Format α) (bs : Bytes) : Option α := F.mergeFrom 100 F.default bs

/-- `bs` is whole records, which take the message from `m` to the last one. -/
inductive Reads (F : Format α) (d : Nat) : α → Bytes → α → Prop where
  | nil (m : α) : Reads F d m [] m
  | record {m m' m'' : α} {tag : Nat} {value bs : Bytes} (htag : tag < 2 ^ 32)
      (hfield : ¬ (tag = 0 ∨ tag % 8 = 4))
      (hstep : ∀ rest, F.step d m tag (value ++ rest) = some (m', rest))
      (htail : Reads F d m' bs m'') : Reads F d m (writeVarint tag ++ (value ++ bs)) m''

variable {F : Format α} {d : Nat}

theorem Reads.append {m m' m'' : α} {bs bs' : Bytes} (h : F.Reads d m bs m')
    (h' : F.Reads d m' bs' m'') : F.Reads d m (bs ++ bs') m'' := by
  induction h with
  | nil m => exact h'
  | record htag hfield hstep _ ih =>
    rw [List.append_assoc, List.append_assoc]
    exact .record htag hfield hstep (ih h')

/-- The parser reads whole records. -/
theorem Reads.mergeIn {m m' : α} {bs : Bytes} (h : F.Reads d m bs m') {k : Nat}
    (hk : bs.length ≤ k) : F.mergeIn d k m bs = some m' := by
  induction h generalizing k with
  | nil m => cases k <;> rfl
  | @record m _ _ tag value bs htag hfield hstep _ ih =>
    obtain ⟨byte, rest, hbs⟩ := List.exists_cons_of_ne_nil
      (List.append_ne_nil_of_left_ne_nil (writeVarint_ne_nil tag) (value ++ bs))
    have hpos : 0 < (writeVarint tag).length := List.length_pos_iff.mpr (writeVarint_ne_nil tag)
    rw [List.length_append, List.length_append] at hk
    obtain ⟨k, rfl⟩ : ∃ k', k = k' + 1 := ⟨k - 1, by omega⟩
    rw [hbs, Format.mergeIn, ← hbs, readTag_writeVarint _ htag, Option.bind_some,
      if_neg hfield, hstep, Option.bind_some]
    exact ih (by omega)

theorem Reads.mergeFrom {m m' : α} {bs : Bytes} (h : F.Reads d m bs m') :
    F.mergeFrom d m bs = some m' :=
  h.mergeIn (Nat.le_refl _)

theorem find?_number {fs : List (Field α)} (hsorted : (fs.map Field.number).Pairwise (· < ·))
    {f : Field α} (hf : f ∈ fs) : (fs.find? fun g => g.number == f.number) = some f := by
  induction fs with
  | nil => exact absurd hf List.not_mem_nil
  | cons g fs ih =>
    rw [List.map_cons, List.pairwise_cons] at hsorted
    rcases List.mem_cons.mp hf with rfl | hmem
    · exact List.find?_cons_of_pos (beq_self_eq_true _)
    · have hlt : g.number < f.number := hsorted.1 _ (List.mem_map_of_mem hmem)
      rw [List.find?_cons_of_neg (by simp; omega)]
      exact ih hsorted.2 hmem

/-- The records of a field are records of the message. -/
theorem reads_of_records {f : Field α} (hf : f ∈ F.fields) {m m' : α} {bs : Bytes}
    (h : Records f.number (f.read d) m bs m') : F.Reads d m bs m' := by
  induction h with
  | nil m => exact .nil m
  | @cons _ _ _ wireType g _ _ hwire htakes hread _ ih =>
    have hnumber := f.number_mem
    have hwire' : wireType = 0 ∨ wireType = 1 ∨ wireType = 2 ∨ wireType = 5 := by
      simpa using hwire
    have hdiv : tag f.number wireType / 8 = f.number := by
      rw [tag]
      omega
    have hmod : tag f.number wireType % 8 = wireType := by
      rw [tag]
      omega
    refine .record ?_ ?_ (fun rest => ?_) ih
    · rw [tag]
      omega
    · rw [tag]
      omega
    · rw [step, hdiv, hmod, find?_number F.sorted hf, Option.bind_some, htakes]
      exact hread rest

theorem depth_le_of_mem {f : Field α} (hf : f ∈ F.fields) : f.depth ≤ F.depth := by
  rw [depth]
  generalize F.fields = fs at hf
  induction fs with
  | nil => exact absurd hf List.not_mem_nil
  | cons g fs ih =>
    rw [List.map_cons, List.foldr_cons]
    rcases List.mem_cons.mp hf with rfl | hmem
    · exact Nat.le_max_left _ _
    · exact Nat.le_trans (ih hmem) (Nat.le_max_right _ _)

/-- The records of some fields, one field after the other. -/
theorem reads_fields {fs : List (Field α)} (hfs : ∀ f ∈ fs, f ∈ F.fields) (hd : F.depth ≤ d)
    {m' : α} (hsize : (fs.flatMap fun f => f.write m').length ≤ maxSize) (m : α) :
    F.Reads d m (fs.flatMap fun f => f.write m') (fs.foldl (fun m f => f.merge m m') m) := by
  induction fs generalizing m with
  | nil => exact .nil m
  | cons f fs ih =>
    have hf := hfs f List.mem_cons_self
    rw [List.flatMap_cons, List.length_append] at hsize
    rw [List.flatMap_cons, List.foldl_cons]
    refine .append (reads_of_records hf (f.records d m m' ?_ (by omega))) ?_
    · exact Nat.le_trans (depth_le_of_mem hf) hd
    · exact ih (fun g hg => hfs g (List.mem_cons_of_mem _ hg)) (by omega) _

/-- **Merging what was serialized from a message is merging the message.** -/
theorem mergeFrom_serialize (F : Format α) {d : Nat} (hd : F.depth ≤ d) (m : α) {m' : α}
    (hsize : (F.serialize m').length ≤ maxSize) :
    F.mergeFrom d m (F.serialize m') = some (F.merge m m') :=
  (reads_fields (fun _ hf => hf) hd hsize m).mergeFrom

/-- What was serialized parses to the message, up to the normal forms of its values. -/
theorem parse_serializeToString (F : Format α) (hd : F.depth ≤ 100) {m : α}
    (hsize : (F.serialize m).length ≤ maxSize) :
    F.parse (F.serializeToString m) = some (F.merge F.default m) := by
  have hmax : maxSize ≤ 2 ^ 31 - 1 := by decide
  rw [serializeToString, if_pos (Nat.le_trans hsize hmax)]
  exact F.mergeFrom_serialize hd F.default hsize

/-- A message whose fields all take at most `n` bytes. -/
theorem length_serialize_le {F : Format α} {m : α} {n : Nat}
    (h : ∀ f ∈ F.fields, (f.write m).length ≤ n) :
    (F.serialize m).length ≤ F.fields.length * n := by
  rw [serialize]
  generalize F.fields = fs at h ⊢
  induction fs with
  | nil => exact Nat.zero_le _
  | cons f fs ih =>
    rw [List.flatMap_cons, List.length_append, List.length_cons, Nat.succ_mul, Nat.add_comm]
    exact Nat.add_le_add (ih fun g hg => h g (List.mem_cons_of_mem _ hg)) (h f List.mem_cons_self)

end Format

/-! ## Messages in messages -/

/-- `ParseMessage`: a message behind its size, one level below. -/
def readMessage (F : Format β) (d : Nat) (v : β) (bs : Bytes) : Option (β × Bytes) :=
  (readDelimited bs).bind fun p =>
    match d with
    | 0 => none
    | d + 1 => (F.mergeFrom d v p.1).map fun v' => (v', p.2)

theorem readMessage_serialize (F : Format β) {d : Nat} (hd : F.depth + 1 ≤ d) (v : β) {v' : β}
    (rest : Bytes) (hsize : (writeDelimited (F.serialize v')).length ≤ maxSize) :
    readMessage F d v (writeDelimited (F.serialize v') ++ rest) = some (F.merge v v', rest) := by
  have hlen := Nat.le_trans (length_le_writeDelimited _) hsize
  obtain ⟨d, rfl⟩ : ∃ d', d = d' + 1 := ⟨d - 1, by omega⟩
  rw [readMessage, readDelimited_writeDelimited rest hlen, Option.bind_some]
  show (F.mergeFrom d v (F.serialize v')).map _ = _
  rw [F.mergeFrom_serialize (by omega) v hlen]
  rfl

/-- The elements of a repeated field of messages. -/
def Kind.message (F : Format β) : Kind β where
  wireType := 2
  write v := writeDelimited (F.serialize v)
  read d bs := readMessage F d F.default bs
  depth := F.depth + 1
  norm v := F.merge F.default v
  wireType_mem := by decide
  write_ne_nil _ := writeDelimited_ne_nil _
  read_write _ _ rest hd hsize := readMessage_serialize F hd F.default rest hsize

/-- A field with a message, which may be absent; a record is merged into the message
that is there. -/
def Field.submessage (number : Nat) (F : Format β) (get : α → Option β) (set : α → β → α)
    (hnumber : 0 < number ∧ number < 2 ^ 29) : Field α where
  number := number
  write m := (get m).elim [] fun v =>
    writeVarint (tag number 2) ++ writeDelimited (F.serialize v)
  read d wireType := if wireType = 2 then
      some fun m bs => (readMessage F d ((get m).getD F.default) bs).map fun p => (set m p.1, p.2)
    else none
  depth := F.depth + 1
  merge m m' := (get m').elim m fun v => set m (F.merge ((get m).getD F.default) v)
  number_mem := hnumber
  records d m m' hd hsize := by
    cases hv : get m' with
    | none => exact .nil m
    | some v =>
      rw [hv, Option.elim_some, List.length_append] at hsize
      rw [Option.elim_some]
      refine .single (by decide) (if_pos rfl) fun rest => ?_
      rw [readMessage_serialize F hd _ rest (by omega)]
      rfl

end Anx.Lib.Wire
