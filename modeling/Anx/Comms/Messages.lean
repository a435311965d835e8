import Anx.Lib.Lines
import Anx.Lib.Wire

/-!
# The messages between the app and the robot's software

The message types of api_docs/anx that the native code sends and receives, each with
its `Format`: the fields of the `.proto` file with their numbers, in the wire format
of the C++ library. A field that is not set has the default of proto3. Every format
has its `parse_…` lemma: what the peer reads when the message is sent.

- common.proto: `StdResponse`, `Payload`, `PayloadArray`, `Vector3`, `Quaternion`;
- model.proto: `TensorMeta`, `ModelMeta`;
- assets.proto: `ImuData` with its `Filtered` and `Raw`;
- `Result`: what the operations behind the RPC layer return; `Result.toStdResponse`.
-/

namespace Anx.Comms.Messages

open Anx.Lib Anx.Lib.Wire

/-! ## common.proto -/

/-- `StdResponse`. -/
structure StdResponse where
  success : Bool
  message : String
deriving DecidableEq, Repr

def StdResponse.format : Format StdResponse where
  default := ⟨false, ""⟩
  fields :=
    [.singular 1 .bool (fun b => !b) success (fun m v => { m with success := v }) (by decide),
      .singular 2 .string (fun v => v.isEmpty) message (fun m v => { m with message := v })
        (by decide)]
  sorted := by decide

/-- `Payload`. -/
structure Payload where
  payload : Bytes
deriving DecidableEq, Repr

def Payload.format : Format Payload where
  default := ⟨[]⟩
  fields := [.singular 1 .bytes List.isEmpty payload (fun m v => { m with payload := v })
    (by decide)]
  sorted := by decide

/-- `PayloadArray`. -/
structure PayloadArray where
  payloads : List Bytes
deriving DecidableEq, Repr

def PayloadArray.format : Format PayloadArray where
  default := ⟨[]⟩
  fields := [.repeated 1 .bytes payloads (fun m v => { m with payloads := v })
    (fun _ _ => rfl) (fun _ _ _ => rfl) (fun _ => rfl) (by decide)]
  sorted := by decide

/-- A `double` is not written when it `== 0.0`, which negative zero is. -/
def isZero (x : BitVec 64) : Bool := x == 0 || x == 0x8000000000000000

/-- The `double` that is read where `x` was sent. -/
def plusZero (x : BitVec 64) : BitVec 64 := if isZero x then 0 else x

/-- `Vector3`. -/
structure Vector3 where
  x : BitVec 64
  y : BitVec 64
  z : BitVec 64
deriving DecidableEq, Repr

def Vector3.format : Format Vector3 where
  default := ⟨0, 0, 0⟩
  fields :=
    [.singular 1 .double isZero x (fun m v => { m with x := v }) (by decide),
      .singular 2 .double isZero y (fun m v => { m with y := v }) (by decide),
      .singular 3 .double isZero z (fun m v => { m with z := v }) (by decide)]
  sorted := by decide

/-- `Quaternion`. -/
structure Quaternion where
  x : BitVec 64
  y : BitVec 64
  z : BitVec 64
  w : BitVec 64
deriving DecidableEq, Repr

def Quaternion.format : Format Quaternion where
  default := ⟨0, 0, 0, 0⟩
  fields :=
    [.singular 1 .double isZero x (fun m v => { m with x := v }) (by decide),
      .singular 2 .double isZero y (fun m v => { m with y := v }) (by decide),
      .singular 3 .double isZero z (fun m v => { m with z := v }) (by decide),
      .singular 4 .double isZero w (fun m v => { m with w := v }) (by decide)]
  sorted := by decide

/-! ## model.proto -/

/-- `TensorMeta`. -/
structure TensorMeta where
  dims : List (BitVec 32)
  dtype : BitVec 32
deriving DecidableEq, Repr

def TensorMeta.format : Format TensorMeta where
  default := ⟨[], 0⟩
  fields :=
    [.packed 1 .int32 dims (fun m v => { m with dims := v }) (by decide),
      .singular 2 (.unsigned 32 (by decide)) (fun v => v == 0) dtype
        (fun m v => { m with dtype := v }) (by decide)]
  sorted := by decide

/-- `ModelMeta`. -/
structure ModelMeta where
  input_tensors : List TensorMeta
  output_tensors : List TensorMeta
deriving DecidableEq, Repr

def ModelMeta.format : Format ModelMeta where
  default := ⟨[], []⟩
  fields :=
    [.repeated 1 (.message TensorMeta.format) input_tensors
        (fun m v => { m with input_tensors := v }) (fun _ _ => rfl) (fun _ _ _ => rfl)
        (fun _ => rfl) (by decide),
      .repeated 2 (.message TensorMeta.format) output_tensors
        (fun m v => { m with output_tensors := v }) (fun _ _ => rfl) (fun _ _ _ => rfl)
        (fun _ => rfl) (by decide)]
  sorted := by decide

/-! ## assets.proto -/

/-- `ImuData.Filtered`. -/
structure Filtered where
  acceleration : Option Vector3
  angular_velocity : Option Vector3
  orientation : Option Quaternion
deriving DecidableEq, Repr

def Filtered.format : Format Filtered where
  default := ⟨none, none, none⟩
  fields :=
    [.submessage 1 Vector3.format acceleration (fun m v => { m with acceleration := some v })
        (by decide),
      .submessage 2 Vector3.format angular_velocity
        (fun m v => { m with angular_velocity := some v }) (by decide),
      .submessage 3 Quaternion.format orientation (fun m v => { m with orientation := some v })
        (by decide)]
  sorted := by decide

/-- `ImuData.Raw`. -/
structure Raw where
  acceleration : Option Vector3
  angular_velocity : Option Vector3
  magnetic_field_in_micro_tesla : Option Vector3
deriving DecidableEq, Repr

def Raw.format : Format Raw where
  default := ⟨none, none, none⟩
  fields :=
    [.submessage 1 Vector3.format acceleration (fun m v => { m with acceleration := some v })
        (by decide),
      .submessage 2 Vector3.format angular_velocity
        (fun m v => { m with angular_velocity := some v }) (by decide),
      .submessage 3 Vector3.format magnetic_field_in_micro_tesla
        (fun m v => { m with magnetic_field_in_micro_tesla := some v }) (by decide)]
  sorted := by decide

/-- `ImuData`. -/
structure ImuData where
  filtered : Option Filtered
  raw : Option Raw
deriving DecidableEq, Repr

def ImuData.format : Format ImuData where
  default := ⟨none, none⟩
  fields :=
    [.submessage 1 Filtered.format filtered (fun m v => { m with filtered := some v }) (by decide),
      .submessage 2 Raw.format raw (fun m v => { m with raw := some v }) (by decide)]
  sorted := by decide

/-! ## What is read back -/

/-- Merging into the empty message gives the message back. -/
def Exact {α : Type} (F : Format α) : Prop := ∀ m, F.merge F.default m = m

theorem StdResponse.exact : Exact StdResponse.format := by
  rintro ⟨success, message⟩
  show (if message.isEmpty then _ else _) = _
  by_cases hmessage : message.isEmpty
  · rw [if_pos hmessage, String.isEmpty_iff.mp hmessage]
    cases success <;> rfl
  · rw [if_neg hmessage]
    cases success <;> rfl

theorem Payload.exact : Exact Payload.format := by
  rintro ⟨payload⟩
  cases payload <;> rfl

theorem PayloadArray.exact : Exact PayloadArray.format := by
  rintro ⟨payloads⟩
  show PayloadArray.mk ([] ++ payloads.map id) = _
  rw [List.nil_append, List.map_id]

theorem TensorMeta.exact : Exact TensorMeta.format := by
  rintro ⟨dims, dtype⟩
  have hdims : (if dims.isEmpty then (⟨[], 0⟩ : TensorMeta) else ⟨[] ++ dims.map id, 0⟩) =
      ⟨dims, 0⟩ := by
    cases dims with
    | nil => rfl
    | cons dim dims => rw [List.map_id]; rfl
  show (if dtype == 0 then _ else { (if dims.isEmpty then _ else _ : TensorMeta) with
    dtype := dtype }) = _
  by_cases hdtype : dtype == 0
  · rw [if_pos hdtype, eq_of_beq hdtype]
    exact hdims
  · rw [if_neg hdtype]
    exact congrArg (fun m : TensorMeta => { m with dtype := dtype }) hdims

theorem ModelMeta.exact : Exact ModelMeta.format := by
  rintro ⟨input_tensors, output_tensors⟩
  have hnorm : (Kind.message TensorMeta.format).norm = id := funext TensorMeta.exact
  show ModelMeta.mk ([] ++ input_tensors.map (Kind.message TensorMeta.format).norm)
    ([] ++ output_tensors.map (Kind.message TensorMeta.format).norm) = _
  rw [hnorm, List.map_id, List.map_id]
  rfl

/-- An exact message is read as it was sent. -/
theorem Exact.parse {α : Type} {F : Format α} (hF : Exact F) (hdepth : F.depth ≤ 100) {m : α}
    (hsize : (F.serialize m).length ≤ maxSize) : F.parse (F.serializeToString m) = some m := by
  rw [F.parse_serializeToString hdepth hsize, hF]

/-! ### Numbers -/

/-- The numbers of a vector as they are read. -/
def Vector3.plusZero (v : Vector3) : Vector3 :=
  ⟨Messages.plusZero v.x, Messages.plusZero v.y, Messages.plusZero v.z⟩

@[inherit_doc Vector3.plusZero]
def Quaternion.plusZero (v : Quaternion) : Quaternion :=
  ⟨Messages.plusZero v.x, Messages.plusZero v.y, Messages.plusZero v.z, Messages.plusZero v.w⟩

@[inherit_doc Vector3.plusZero]
def Filtered.plusZero (m : Filtered) : Filtered where
  acceleration := m.acceleration.map Vector3.plusZero
  angular_velocity := m.angular_velocity.map Vector3.plusZero
  orientation := m.orientation.map Quaternion.plusZero

@[inherit_doc Vector3.plusZero]
def Raw.plusZero (m : Raw) : Raw where
  acceleration := m.acceleration.map Vector3.plusZero
  angular_velocity := m.angular_velocity.map Vector3.plusZero
  magnetic_field_in_micro_tesla := m.magnetic_field_in_micro_tesla.map Vector3.plusZero

@[inherit_doc Vector3.plusZero]
def ImuData.plusZero (m : ImuData) : ImuData where
  filtered := m.filtered.map Filtered.plusZero
  raw := m.raw.map Raw.plusZero

theorem Vector3.merge_default (v : Vector3) :
    Vector3.format.merge Vector3.format.default v = v.plusZero := by
  obtain ⟨x, y, z⟩ := v
  -- each number is set, or it is a zero and stays at zero
  simp only [Vector3.format, Format.merge, Field.singular, Kind.double, List.foldl,
    Vector3.plusZero, Messages.plusZero]
  cases isZero x <;> cases isZero y <;> cases isZero z <;> rfl

theorem Quaternion.merge_default (v : Quaternion) :
    Quaternion.format.merge Quaternion.format.default v = v.plusZero := by
  obtain ⟨x, y, z, w⟩ := v
  simp only [Quaternion.format, Format.merge, Field.singular, Kind.double, List.foldl,
    Quaternion.plusZero, Messages.plusZero]
  cases isZero x <;> cases isZero y <;> cases isZero z <;> cases isZero w <;> rfl

theorem Filtered.merge_default (m : Filtered) :
    Filtered.format.merge Filtered.format.default m = m.plusZero := by
  obtain ⟨acceleration, angular_velocity, orientation⟩ := m
  simp only [Filtered.format, Format.merge, Field.submessage, List.foldl, Filtered.plusZero]
  cases acceleration <;> cases angular_velocity <;> cases orientation <;>
    simp only [Option.map_none, Option.map_some, Option.getD_none, ← Vector3.merge_default,
      ← Quaternion.merge_default] <;> rfl

theorem Raw.merge_default (m : Raw) : Raw.format.merge Raw.format.default m = m.plusZero := by
  obtain ⟨acceleration, angular_velocity, magnetic_field⟩ := m
  simp only [Raw.format, Format.merge, Field.submessage, List.foldl, Raw.plusZero]
  cases acceleration <;> cases angular_velocity <;> cases magnetic_field <;>
    simp only [Option.map_none, Option.map_some, Option.getD_none, ← Vector3.merge_default] <;> rfl

theorem ImuData.merge_default (m : ImuData) :
    ImuData.format.merge ImuData.format.default m = m.plusZero := by
  obtain ⟨filtered, raw⟩ := m
  simp only [ImuData.format, Format.merge, Field.submessage, List.foldl, ImuData.plusZero]
  cases filtered <;> cases raw <;>
    simp only [Option.map_none, Option.map_some, Option.getD_none, ← Filtered.merge_default,
      ← Raw.merge_default] <;> rfl

/-! ### Sizes -/

theorem length_double {α : Type} {number : Nat} {isDefault : BitVec 64 → Bool}
    {get : α → BitVec 64} {set : α → BitVec 64 → α} {hnumber : 0 < number ∧ number < 2 ^ 29}
    (m : α) : ((Field.singular number .double isDefault get set hnumber).write m).length ≤ 18 := by
  show (if _ then _ else _ : Bytes).length ≤ 18
  split
  · exact Nat.zero_le _
  · rw [List.length_append]
    exact Nat.add_le_add (writeVarint_length _) (length_writeLittle 8 _).le

theorem length_submessage {α β : Type} {number : Nat} {F : Format β} {get : α → Option β}
    {set : α → β → α} {hnumber : 0 < number ∧ number < 2 ^ 29} {n : Nat}
    (h : ∀ v, (F.serialize v).length ≤ n) (m : α) :
    ((Field.submessage number F get set hnumber).write m).length ≤ n + 20 := by
  show ((get m).elim [] fun v =>
    writeVarint (tag number 2) ++ writeDelimited (F.serialize v)).length ≤ n + 20
  cases get m with
  | none => exact Nat.zero_le _
  | some v =>
    have htag := writeVarint_length (tag number 2)
    have hsize := writeVarint_length (F.serialize v).length
    have hv := h v
    rw [Option.elim_some, writeDelimited, List.length_append, List.length_append]
    omega

theorem Vector3.length_le (v : Vector3) : (Vector3.format.serialize v).length ≤ 54 :=
  Format.length_serialize_le (n := 18) (by simp [Vector3.format, length_double])

theorem Quaternion.length_le (v : Quaternion) : (Quaternion.format.serialize v).length ≤ 72 :=
  Format.length_serialize_le (n := 18) (by simp [Quaternion.format, length_double])

theorem Filtered.length_le (m : Filtered) : (Filtered.format.serialize m).length ≤ 276 :=
  Format.length_serialize_le (n := 92) (by
    simp only [Filtered.format, List.forall_mem_cons]
    exact ⟨(length_submessage Vector3.length_le m).trans (by omega),
      (length_submessage Vector3.length_le m).trans (by omega),
      length_submessage Quaternion.length_le m, fun f hf => absurd hf List.not_mem_nil⟩)

theorem Raw.length_le (m : Raw) : (Raw.format.serialize m).length ≤ 222 :=
  Format.length_serialize_le (n := 74) (by
    simp only [Raw.format, List.forall_mem_cons]
    exact ⟨length_submessage Vector3.length_le m, length_submessage Vector3.length_le m,
      length_submessage Vector3.length_le m, fun f hf => absurd hf List.not_mem_nil⟩)

theorem ImuData.length_le (m : ImuData) : (ImuData.format.serialize m).length ≤ 592 :=
  Format.length_serialize_le (n := 296) (by
    simp only [ImuData.format, List.forall_mem_cons]
    exact ⟨length_submessage Filtered.length_le m,
      (length_submessage Raw.length_le m).trans (by omega), fun f hf => absurd hf List.not_mem_nil⟩)

/-- **An `ImuData` message always arrives**, with its zeros made positive. -/
theorem ImuData.parse (m : ImuData) :
    ImuData.format.parse (ImuData.format.serializeToString m) = some m.plusZero := by
  have hsize : (ImuData.format.serialize m).length ≤ maxSize :=
    m.length_le.trans (by decide)
  rw [ImuData.format.parse_serializeToString (by decide) hsize, ImuData.merge_default]

end Anx.Comms.Messages

namespace Anx.Comms

open Anx.Lib

/-! ## Results -/

/-- A `Result` (Result.kt); the message is empty by default. -/
structure Result where
  success : Bool
  message : Text := []
deriving DecidableEq

/-- `toStdResponse`: both fields are copied. -/
def Result.toStdResponse (r : Result) : Messages.StdResponse := ⟨r.success, .ofList r.message⟩

end Anx.Comms
