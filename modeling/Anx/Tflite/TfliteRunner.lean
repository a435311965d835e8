import Mathlib.Data.List.Forall2
import Anx.Lib.RepSocket

/-!
# The TensorFlow Lite runner

`TfliteRunner` (tflite_runner.h, tflite_runner.cpp) owns one interpreter and
caches pointers to its input and output tensors. Pointers to tensors are indices
here. TensorFlow Lite itself is the parameter `TensorFlowLite`: a library whose
results depend only on its arguments. Where the source dereferences a null
interpreter or reads past the string of a payload, the model has no result
(`none`). The string has a null byte behind its last one, which can be read.

- `TfliteRunner.LoadModel`, `memcpyInputs`, `InvokeModel`, `outputs`: what the
  server's branches do with a runner.
- `Covers`, `Readable`: payloads that have the bytes of their tensors, without and
  with that null byte; `copies`: what the copying of payloads reads;
- `Runs`: the runner holds an interpreter of the given model with its tensors
  allocated; `Loaded`: that, or the allocation failed. `loadModel_runs`,
  `loadModel_unallocated`, `Runs.invoke` and `Loaded.invoke` carry the two.
-/

namespace Anx.Tflite

open Anx.Lib

universe u

/-- `TfliteRunner::DelegateType`. -/
inductive DelegateType where
  | CPU
  | GPU
  | DSP
deriving DecidableEq

/-- The fields of a `TfLiteTensor` that the server reads. -/
structure TfLiteTensor where
  dims : List Int
  type : Nat
  bytes : Nat
deriving DecidableEq

/-- The part of the TensorFlow Lite C API that the runner uses, over models `M`. -/
structure TensorFlowLite (M : Type u) where
  /-- `TfLiteModelCreate` and `TfLiteInterpreterCreate`; `none` is the null interpreter. -/
  interpreterCreate : Bytes → DelegateType → Option M
  /-- `TfLiteInterpreterAllocateTensors` returns `kTfLiteOk`. -/
  allocateTensors : M → Bool
  inputTensors : M → List TfLiteTensor
  outputTensors : M → List TfLiteTensor
  /-- `TfLiteInterpreterInvoke`: from the contents of the input tensors, the
  contents of output tensor `i`. -/
  invoke : M → List Bytes → Nat → Bytes

/-- A library for the models that copy one tensor of bytes: a model file is the
single byte that tells the tensor's size. -/
def TensorFlowLite.copying : TensorFlowLite Nat where
  interpreterCreate model_bytes _ :=
    match model_bytes with
    | [size] => some size.toNat
    | _ => none
  allocateTensors _ := true
  inputTensors size := [⟨[size], 3, size⟩]
  outputTensors size := [⟨[size], 3, size⟩]
  invoke _ inputs i := inputs.getD i []

/-- `TfliteRunner::TensorMeta`. -/
structure TensorMeta where
  dims : List Int
  dtype : Nat
deriving DecidableEq

/-- The meta data of a tensor (tflite_runner.cpp:84–88, 97–101). -/
def TfLiteTensor.meta (tensor : TfLiteTensor) : TensorMeta := ⟨tensor.dims, tensor.type⟩

/-- `TfliteRunner::ModelMeta`. -/
structure ModelMeta where
  valid : Bool
  input_tensors : List TensorMeta
  output_tensors : List TensorMeta
deriving DecidableEq

/-- An interpreter with the contents of its tensors. -/
structure Interpreter (M : Type u) where
  model : M
  allocated : Bool
  inputData : List Bytes
  outputData : Nat → Bytes

/-- `TfliteRunner`: its interpreter (`none`: `nullptr`) and the tensors it cached. -/
structure TfliteRunner (M : Type u) where
  interpreter_ : Option (Interpreter M)
  input_tensors_ : List Nat
  output_tensors_ : List Nat

namespace TfliteRunner

variable {M : Type u}

/-- `TfliteRunner::TfliteRunner` (tflite_runner.cpp:7–16). -/
def new : TfliteRunner M := ⟨none, [], []⟩

section Operations

variable (lite : TensorFlowLite M)

/-- `TfliteRunner::LoadModel` (tflite_runner.cpp:31–106) on a new runner; `none`
when the interpreter is null, which `AllocateTensors` would dereference. -/
def LoadModel (r : TfliteRunner M) (model_bytes : Bytes) (delegateType : DelegateType) :
    Option (ModelMeta × TfliteRunner M) :=
  match lite.interpreterCreate model_bytes delegateType with
  | none => none
  | some model =>
    if lite.allocateTensors model then
      let inputs := lite.inputTensors model
      let outputs := lite.outputTensors model
      some (⟨true, inputs.map TfLiteTensor.meta, outputs.map TfLiteTensor.meta⟩,
        { interpreter_ := some ⟨model, true, inputs.map fun t => List.replicate t.bytes 0,
            fun i => List.replicate ((outputs[i]?.map TfLiteTensor.bytes).getD 0) 0⟩
          input_tensors_ := r.input_tensors_ ++ List.range inputs.length
          output_tensors_ := r.output_tensors_ ++ List.range outputs.length })
    else
      some (⟨false, [], []⟩,
        { r with interpreter_ := some ⟨model, false, [], fun _ => []⟩ })

/-- `std::string::data()`: the bytes that can be read there. -/
def data (payload : Bytes) : Bytes := payload ++ [0]

/-- The `memcpy` of a payload into an input tensor (tflite_runner_rpc_server.cpp:127–130):
`tensor->bytes` bytes are read, whatever the payload's size. -/
def memcpyInput (it : Interpreter M) (tensor : Nat) (payload : Bytes) : Option (Interpreter M) :=
  match (lite.inputTensors it.model)[tensor]? with
  | none => none
  | some t =>
    if t.bytes ≤ (data payload).length then
      some { it with inputData := it.inputData.set tensor ((data payload).take t.bytes) }
    else
      none

/-- The loop over the payloads (tflite_runner_rpc_server.cpp:125–131). -/
def memcpyInputs : Interpreter M → List Nat → List Bytes → Option (Interpreter M)
  | it, tensor :: tensors, payload :: payloads =>
    (memcpyInput lite it tensor payload).bind fun it' => memcpyInputs it' tensors payloads
  | it, _, _ => some it

/-- `TfliteRunner::InvokeModel` (tflite_runner.cpp:108–110). The status of
`TfLiteInterpreterInvoke` is ignored; without allocated tensors it is an error
and nothing changes. -/
def InvokeModel (it : Interpreter M) : Interpreter M :=
  if it.allocated then { it with outputData := lite.invoke it.model it.inputData } else it

end Operations

/-- The payloads of the reply (tflite_runner_rpc_server.cpp:138–143). -/
def outputs (it : Interpreter M) (output_tensors : List Nat) : List Bytes :=
  output_tensors.map it.outputData

/-! ## A runner with a model loaded -/

section Runs

variable {lite : TensorFlowLite M}

/-- Payload `payloads[i]` is at least as long as the `i`-th of `tensors`. -/
def Covers (tensors : List TfLiteTensor) (payloads : List Bytes) : Prop :=
  List.Forall₂ (fun t p => t.bytes ≤ p.length) tensors payloads

instance (tensors : List TfLiteTensor) (payloads : List Bytes) :
    Decidable (Covers tensors payloads) :=
  inferInstanceAs (Decidable (List.Forall₂ _ tensors payloads))

/-- The string of payload `payloads[i]`, with the null byte behind it, is at least as long as
the `i`-th of `tensors`. -/
def Readable (tensors : List TfLiteTensor) (payloads : List Bytes) : Prop :=
  List.Forall₂ (fun t p => t.bytes ≤ (data p).length) tensors payloads

/-- What the input tensors hold after payloads that cover them were copied in. -/
def inputContents (tensors : List TfLiteTensor) (payloads : List Bytes) : List Bytes :=
  List.zipWith (fun t p => p.take t.bytes) tensors payloads

/-- What the input tensors hold after the strings of `payloads` were copied in. -/
def stringContents (tensors : List TfLiteTensor) (payloads : List Bytes) : List Bytes :=
  List.zipWith (fun t p => (data p).take t.bytes) tensors payloads

theorem Covers.readable {tensors : List TfLiteTensor} {payloads : List Bytes}
    (h : Covers tensors payloads) : Readable tensors payloads := by
  refine List.Forall₂.imp (fun t p htp => ?_) h
  rw [data, List.length_append]
  exact Nat.le_add_right_of_le htp

/-- The null byte is not copied from payloads that cover the tensors. -/
theorem Covers.contents {tensors : List TfLiteTensor} {payloads : List Bytes}
    (h : Covers tensors payloads) : stringContents tensors payloads =
      inputContents tensors payloads := by
  induction h with
  | nil => rfl
  | cons htp hcov ih =>
    rw [stringContents, inputContents, List.zipWith_cons_cons, List.zipWith_cons_cons, data,
      List.take_append_of_le_length htp]
    exact congrArg _ ih

/-- The runner holds an interpreter of `m` with its tensors allocated and cached. -/
structure Runs (lite : TensorFlowLite M) (m : M) (r : TfliteRunner M) : Prop where
  interpreter : ∃ it, r.interpreter_ = some it ∧ it.model = m ∧ it.allocated = true ∧
    it.inputData.length = (lite.inputTensors m).length
  inputs : r.input_tensors_ = List.range (lite.inputTensors m).length
  outputs : r.output_tensors_ = List.range (lite.outputTensors m).length

/-- The runner's interpreter has no tensors: allocation failed. -/
structure Unallocated (r : TfliteRunner M) : Prop where
  interpreter : ∃ it, r.interpreter_ = some it ∧ it.allocated = false
  inputs : r.input_tensors_ = []
  outputs : r.output_tensors_ = []

/-- Loading a model whose tensors allocate. -/
theorem loadModel_runs {bytes : Bytes} {d : DelegateType} {m : M}
    (hcreate : lite.interpreterCreate bytes d = some m) (halloc : lite.allocateTensors m = true) :
    ∃ r, LoadModel lite new bytes d = some
        (⟨true, (lite.inputTensors m).map TfLiteTensor.meta,
          (lite.outputTensors m).map TfLiteTensor.meta⟩, r) ∧ r.Runs lite m := by
  rw [LoadModel, hcreate]
  dsimp only
  rw [if_pos halloc]
  exact ⟨_, rfl, ⟨_, rfl, rfl, rfl, List.length_map _⟩, List.nil_append _, List.nil_append _⟩

/-- Loading a model whose tensors do not allocate. -/
theorem loadModel_unallocated {bytes : Bytes} {d : DelegateType} {m : M}
    (hcreate : lite.interpreterCreate bytes d = some m) (halloc : lite.allocateTensors m ≠ true) :
    ∃ r : TfliteRunner M, LoadModel lite new bytes d = some (⟨false, [], []⟩, r) ∧
      r.Unallocated := by
  rw [LoadModel, hcreate]
  dsimp only
  rw [if_neg halloc]
  exact ⟨_, rfl, ⟨_, rfl, rfl⟩, rfl, rfl⟩

/-- Copying into an input tensor that exists. -/
theorem memcpyInput_eq {it : Interpreter M} {k : Nat} {t : TfLiteTensor} {p : Bytes}
    (ht : (lite.inputTensors it.model)[k]? = some t) :
    memcpyInput lite it k p =
      if t.bytes ≤ (data p).length then
        some { it with inputData := it.inputData.set k ((data p).take t.bytes) }
      else none := by
  rw [memcpyInput, ht]

/-- The tensors from `k` on, split at `k`. -/
private theorem tensors_from {tensors ts : List TfLiteTensor} {k : Nat} {t : TfLiteTensor}
    (h : tensors.drop k = t :: ts) :
    tensors[k]? = some t ∧ tensors.drop (k + 1) = ts ∧ k < tensors.length ∧
      List.range' k (tensors.length - k) =
        k :: List.range' (k + 1) (tensors.length - (k + 1)) := by
  have h0 : (tensors.drop k)[0]? = some t := by rw [h]; rfl
  have hk : tensors[k]? = some t := by simpa using h0
  have hlt : k < tensors.length := (List.getElem?_eq_some_iff.mp hk).1
  refine ⟨hk, ?_, hlt, ?_⟩
  · rw [← List.tail_drop, h]
    rfl
  · rw [show tensors.length - k = (tensors.length - (k + 1)) + 1 by omega, List.range'_succ]

/-- Copying from tensor `k` on keeps the tensors before `k` and fills the others. -/
theorem memcpyInputs_from (payloads : List Bytes) (it : Interpreter M) (k : Nat)
    (hlen : it.inputData.length = (lite.inputTensors it.model).length)
    (hread : Readable ((lite.inputTensors it.model).drop k) payloads) :
    memcpyInputs lite it (List.range' k ((lite.inputTensors it.model).length - k)) payloads =
      some { it with
        inputData := it.inputData.take k ++
          stringContents ((lite.inputTensors it.model).drop k) payloads } := by
  -- tensor `k` is the next one to be filled
  induction payloads generalizing it k with
  | nil =>
    have hnil : (lite.inputTensors it.model).drop k = [] := List.forall₂_nil_right_iff.mp hread
    have hk : (lite.inputTensors it.model).length ≤ k := List.drop_eq_nil_iff.mp hnil
    rw [Nat.sub_eq_zero_of_le hk, hnil, List.take_of_length_le (hlen ▸ hk)]
    simp [memcpyInputs, stringContents]
  | cons p ps ih =>
    obtain ⟨t, ts, htp, hread', hdrop⟩ := List.forall₂_cons_right_iff.mp hread
    obtain ⟨hk, hdrop', hlt, hrange⟩ := tensors_from hdrop
    rw [hrange, memcpyInputs, memcpyInput_eq hk, if_pos htp, Option.bind_some]
    have hstep := ih { it with inputData := it.inputData.set k ((data p).take t.bytes) } (k + 1)
      (by simpa using hlen) (by rw [hdrop']; exact hread')
    rw [hstep, hdrop, hdrop']
    -- the tensor that was just filled is the last one before `k + 1`
    have htake : (it.inputData.set k ((data p).take t.bytes)).take (k + 1) =
        it.inputData.take k ++ [(data p).take t.bytes] := by
      rw [List.take_set, List.take_add_one, List.getElem?_eq_getElem (hlen ▸ hlt)]
      rw [List.set_append_right _ _ (List.length_take_le _ _)]
      simp [Nat.min_eq_left (Nat.le_of_lt (hlen ▸ hlt))]
    simp [htake, stringContents]

/-- If as many payloads as tensors are copied without overrun, their strings are long enough. -/
theorem readable_of_memcpyInputs (payloads : List Bytes) (it it' : Interpreter M) (k : Nat)
    (hlen : payloads.length = (lite.inputTensors it.model).length - k)
    (h : memcpyInputs lite it (List.range' k ((lite.inputTensors it.model).length - k)) payloads =
      some it') :
    Readable ((lite.inputTensors it.model).drop k) payloads := by
  induction payloads generalizing it k with
  | nil =>
    have hk : (lite.inputTensors it.model).length ≤ k := Nat.le_of_sub_eq_zero hlen.symm
    rw [List.drop_eq_nil_iff.mpr hk]
    exact .nil
  | cons p ps ih =>
    have hlt : k < (lite.inputTensors it.model).length := by
      simp only [List.length_cons] at hlen
      omega
    obtain ⟨t, ts, hdrop⟩ := List.exists_cons_of_length_pos
      (l := (lite.inputTensors it.model).drop k) (by rw [List.length_drop]; omega)
    obtain ⟨hk, hdrop', -, hrange⟩ := tensors_from hdrop
    rw [hrange, memcpyInputs, memcpyInput_eq hk] at h
    by_cases htp : t.bytes ≤ (data p).length
    · rw [if_pos htp, Option.bind_some] at h
      rw [hdrop, ← hdrop']
      refine .cons htp
        (ih { it with inputData := it.inputData.set k ((data p).take t.bytes) } (k + 1) ?_ h)
      simp only [List.length_cons] at hlen
      show ps.length = (lite.inputTensors it.model).length - (k + 1)
      omega
    · -- a string that is too short ends the copying
      rw [if_neg htp] at h
      cases h

/-- The input tensors that the runner has cached pointers to. -/
def inputs (lite : TensorFlowLite M) (r : TfliteRunner M) : List TfLiteTensor :=
  match r.interpreter_ with
  | none => []
  | some it => r.input_tensors_.filterMap fun i => (lite.inputTensors it.model)[i]?

/-- The runner is as some `LoadModel` left it, up to the contents of its tensors. -/
def Loaded (lite : TensorFlowLite M) (r : TfliteRunner M) : Prop :=
  (∃ m, r.Runs lite m) ∨ r.Unallocated

private theorem filterMap_range_getElem? {α : Type} (l : List α) :
    (List.range l.length).filterMap (fun i => l[i]?) = l := by
  induction l with
  | nil => rfl
  | cons a l ih =>
    rw [List.length_cons, List.range_succ_eq_map, List.filterMap_cons_some (by rfl),
      List.filterMap_map]
    exact congrArg _ ih

theorem Runs.inputs_eq {m : M} {r : TfliteRunner M} (h : r.Runs lite m) :
    r.inputs lite = lite.inputTensors m := by
  obtain ⟨it, hit, rfl, -, -⟩ := h.interpreter
  simp only [TfliteRunner.inputs, hit, h.inputs]
  exact filterMap_range_getElem? _

theorem Unallocated.inputs_eq {r : TfliteRunner M} (h : r.Unallocated) : r.inputs lite = [] := by
  obtain ⟨it, hit, -⟩ := h.interpreter
  simp only [TfliteRunner.inputs, hit, h.inputs, List.filterMap_nil]

/-- The outputs of model `m` on `payloads`, one for each output tensor, in order. -/
def modelOutputs (lite : TensorFlowLite M) (m : M) (payloads : List Bytes) : List Bytes :=
  (List.range (lite.outputTensors m).length).map
    (lite.invoke m (inputContents (lite.inputTensors m) payloads))

/-- Invoking a runner of `m` on payloads whose strings its input tensors can be read from. -/
theorem Runs.invoke_readable {m : M} {r : TfliteRunner M} (h : r.Runs lite m)
    {payloads : List Bytes} (hread : Readable (lite.inputTensors m) payloads) :
    ∃ it it', r.interpreter_ = some it ∧
      memcpyInputs lite it r.input_tensors_ payloads = some it' ∧
      Runs lite m { r with interpreter_ := some (InvokeModel lite it') } ∧
      TfliteRunner.outputs (InvokeModel lite it') r.output_tensors_ =
        (List.range (lite.outputTensors m).length).map
          (lite.invoke m (stringContents (lite.inputTensors m) payloads)) := by
  obtain ⟨it, hit, rfl, halloc, hlen⟩ := h.interpreter
  have hcopy := memcpyInputs_from payloads it 0 hlen hread
  rw [Nat.sub_zero, ← List.range_eq_range', ← h.inputs, List.take_zero, List.nil_append,
    List.drop_zero] at hcopy
  have hdata : (stringContents (lite.inputTensors it.model) payloads).length =
      (lite.inputTensors it.model).length := by
    have := List.Forall₂.length_eq hread
    simp [stringContents, ← this]
  refine ⟨it, _, hit, hcopy, ⟨?_, h.inputs, h.outputs⟩, ?_⟩
  · refine ⟨_, rfl, ?_⟩
    simp [InvokeModel, halloc, hdata]
  · simp [TfliteRunner.outputs, InvokeModel, halloc, h.outputs]

/-- Invoking a runner of `m` on payloads that cover its input tensors. -/
theorem Runs.invoke {m : M} {r : TfliteRunner M} (h : r.Runs lite m) {payloads : List Bytes}
    (hcov : Covers (lite.inputTensors m) payloads) :
    ∃ it it', r.interpreter_ = some it ∧
      memcpyInputs lite it r.input_tensors_ payloads = some it' ∧
      Runs lite m { r with interpreter_ := some (InvokeModel lite it') } ∧
      TfliteRunner.outputs (InvokeModel lite it') r.output_tensors_ =
        modelOutputs lite m payloads := by
  obtain ⟨it, it', hit, hcopy, hruns, houtputs⟩ := h.invoke_readable hcov.readable
  exact ⟨it, it', hit, hcopy, hruns, by rw [houtputs, modelOutputs, hcov.contents]⟩

/-- As many payloads as cached tensors, copied without overrun, have strings long enough. -/
theorem Loaded.readable {r : TfliteRunner M} (h : r.Loaded lite) {payloads : List Bytes}
    {it it' : Interpreter M} (hit : r.interpreter_ = some it)
    (hcount : payloads.length = r.input_tensors_.length)
    (hcopy : memcpyInputs lite it r.input_tensors_ payloads = some it') :
    Readable (r.inputs lite) payloads := by
  rcases h with ⟨m, hm⟩ | hun
  · obtain ⟨it₀, hit₀, rfl, -, -⟩ := hm.interpreter
    cases hit.symm.trans hit₀
    rw [hm.inputs, List.length_range] at hcount
    rw [hm.inputs, List.range_eq_range'] at hcopy
    rw [hm.inputs_eq]
    exact readable_of_memcpyInputs payloads it it' 0 hcount hcopy
  · rw [hun.inputs] at hcount
    rw [hun.inputs_eq, List.eq_nil_of_length_eq_zero hcount]
    exact .nil

theorem Loaded.inputs_length {r : TfliteRunner M} (h : r.Loaded lite) :
    (r.inputs lite).length = r.input_tensors_.length := by
  rcases h with ⟨m, hm⟩ | hun
  · rw [hm.inputs_eq, hm.inputs, List.length_range]
  · rw [hun.inputs_eq, hun.inputs]
    rfl

/-- Invoking a loaded runner on payloads whose strings are long enough for its cached tensors. -/
theorem Loaded.invoke {r : TfliteRunner M} (h : r.Loaded lite) {payloads : List Bytes}
    (hread : Readable (r.inputs lite) payloads) :
    ∃ it it', r.interpreter_ = some it ∧
      memcpyInputs lite it r.input_tensors_ payloads = some it' ∧
      Loaded lite { r with interpreter_ := some (InvokeModel lite it') } := by
  rcases h with ⟨m, hm⟩ | hun
  · obtain ⟨it, it', hit, hcopy, hruns, -⟩ := hm.invoke_readable (hm.inputs_eq ▸ hread)
    exact ⟨it, it', hit, hcopy, .inl ⟨m, hruns⟩⟩
  · obtain ⟨it, hit, halloc⟩ := hun.interpreter
    refine ⟨it, it, hit, by simp [memcpyInputs, hun.inputs],
      .inr ⟨⟨it, ?_, halloc⟩, hun.inputs, hun.outputs⟩⟩
    simp [InvokeModel, halloc]

/-! ### What is read -/

/-- A `memcpy` from a payload: the bytes that it reads, and the size of the payload. -/
structure Copy where
  bytes : Nat
  size : Nat
deriving DecidableEq

/-- The copies that the loop over the payloads makes. -/
def copies (tensors : List TfLiteTensor) (payloads : List Bytes) : List Copy :=
  (tensors.zip payloads).map fun tp => ⟨tp.1.bytes, tp.2.length⟩

/-- Payloads cover their tensors exactly if no copy reads past the end of a payload. -/
theorem covers_iff_copies {tensors : List TfLiteTensor} {payloads : List Bytes}
    (hlen : tensors.length = payloads.length) :
    Covers tensors payloads ↔ ∀ c ∈ copies tensors payloads, c.bytes ≤ c.size := by
  rw [Covers, List.forall₂_iff_zip, copies, List.forall_mem_map]
  exact ⟨fun h tp htp => h.2 htp, fun h => ⟨hlen, fun hab => h _ hab⟩⟩

end Runs

end TfliteRunner

end Anx.Tflite
