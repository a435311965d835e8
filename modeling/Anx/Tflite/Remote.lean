import Anx.Comms.Messages
import Anx.Tflite.Session

/-!
# Calls of the TensorFlow Lite server, in bytes

The clients and the server of a runner exchange protobuf messages: here the server runs
with the real parser, its replies are serialized, and a client reads them.

- `Reply.bytes`: a part of a reply as it is sent; `Protobuf.wire`: the parser of the
  wire format, with an arbitrary result on bytes that are no message;
- `Call`, `Call.request`, `Call.read`: a client's call, the request it is sent as and
  what the client reads in the reply;
- `conversation`: the abstract machine on calls;
- `calls_answered`: **whatever the order in which requests arrive and iterations run,
  clients read the replies of the abstract machine**, and all of them once the server
  had as many iterations as calls.
-/

namespace Anx.Tflite

open Anx.Lib Anx.Lib.Wire Anx.Comms

variable {M : Type}

/-! ## The messages of the server -/

/-- `set_dtype` and `add_dims` (tflite_runner_rpc_server.cpp:85–92, 95–102). -/
def TensorMeta.toMessage (tensor : TensorMeta) : Messages.TensorMeta :=
  ⟨tensor.dims.map (BitVec.ofInt 32), BitVec.ofNat 32 tensor.dtype⟩

/-- The dims and the dtype that a client reads. -/
def TensorMeta.ofMessage (tensor : Messages.TensorMeta) : TensorMeta :=
  ⟨tensor.dims.map BitVec.toInt, tensor.dtype.toNat⟩

/-- A part of a reply as it is sent. -/
def Reply.bytes : Reply → Bytes
  | .stdResponse success message =>
    Messages.StdResponse.format.serializeToString ⟨success, message⟩
  | .modelMeta input_tensors output_tensors => Messages.ModelMeta.format.serializeToString
      ⟨input_tensors.map TensorMeta.toMessage, output_tensors.map TensorMeta.toMessage⟩
  | .payloadArray payloads => Messages.PayloadArray.format.serializeToString ⟨payloads⟩

/-- The frames of the replies that the server has sent. -/
def Server.frames (s : Server M) : List (List Bytes) :=
  s.socket_.replies.map (List.map Reply.bytes)

/-- `ParseFromString`; what it leaves in a message that does not parse is `malformed`. -/
def Protobuf.wire (malformed : Protobuf) : Protobuf where
  payload bs := ((Messages.Payload.format.parse bs).map Messages.Payload.payload).getD
    (malformed.payload bs)
  payloadArray bs :=
    ((Messages.PayloadArray.format.parse bs).map Messages.PayloadArray.payloads).getD
      (malformed.payloadArray bs)

/-! ## The clients -/

/-- A call of a client. -/
inductive Call where
  | loadModel (model_bytes : Bytes)
  | invokeModel (payloads : List Bytes)
  | unloadModel
deriving DecidableEq

/-- The request that a call is sent as (api_docs/anx/README.md:38–42). `UnloadModel` has
the second frame that the server receives, though the API lists none. -/
def Call.request : Call → Request
  | .loadModel model_bytes =>
    ⟨LOAD_MODEL_RPC, [Messages.Payload.format.serializeToString ⟨model_bytes⟩]⟩
  | .invokeModel payloads =>
    ⟨INVOKE_MODEL_RPC, [Messages.PayloadArray.format.serializeToString ⟨payloads⟩]⟩
  | .unloadModel => ⟨UNLOAD_MODEL_RPC, [[]]⟩

def readStdResponse (frame : Bytes) : Option Reply :=
  (Messages.StdResponse.format.parse frame).map fun m => .stdResponse m.success m.message

def readModelMeta (frame : Bytes) : Option Reply :=
  (Messages.ModelMeta.format.parse frame).map fun m =>
    .modelMeta (m.input_tensors.map TensorMeta.ofMessage)
      (m.output_tensors.map TensorMeta.ofMessage)

def readPayloadArray (frame : Bytes) : Option Reply :=
  (Messages.PayloadArray.format.parse frame).map fun m => .payloadArray m.payloads

/-- What a client reads in the frames of the reply to its call. -/
def Call.read : Call → List Bytes → Option (List Reply)
  | .loadModel _, [res, model_meta] =>
    (readStdResponse res).bind fun res => (readModelMeta model_meta).map fun m => [res, m]
  | .invokeModel _, [payloads] => (readPayloadArray payloads).map fun p => [p]
  | .unloadModel, [res] => (readStdResponse res).map fun res => [res]
  | _, _ => none

/-- The message of a call is of a size that the parser takes. -/
def Call.Fits : Call → Prop
  | .loadModel model_bytes => (Messages.Payload.format.serialize ⟨model_bytes⟩).length ≤ maxSize
  | .invokeModel payloads => (Messages.PayloadArray.format.serialize ⟨payloads⟩).length ≤ maxSize
  | .unloadModel => True

instance : (c : Call) → Decidable c.Fits
  | .loadModel _ => inferInstanceAs (Decidable (_ ≤ maxSize))
  | .invokeModel _ => inferInstanceAs (Decidable (_ ≤ maxSize))
  | .unloadModel => inferInstanceAs (Decidable True)

/-- The message that a part of a reply is sent as is of a size that the parser takes. -/
def Reply.Fits : Reply → Prop
  | .stdResponse success message =>
    (Messages.StdResponse.format.serialize ⟨success, message⟩).length ≤ maxSize
  | .modelMeta input_tensors output_tensors =>
    (Messages.ModelMeta.format.serialize ⟨input_tensors.map TensorMeta.toMessage,
      output_tensors.map TensorMeta.toMessage⟩).length ≤ maxSize
  | .payloadArray payloads => (Messages.PayloadArray.format.serialize ⟨payloads⟩).length ≤ maxSize

instance : (part : Reply) → Decidable part.Fits
  | .stdResponse _ _ => inferInstanceAs (Decidable (_ ≤ maxSize))
  | .modelMeta _ _ => inferInstanceAs (Decidable (_ ≤ maxSize))
  | .payloadArray _ => inferInstanceAs (Decidable (_ ≤ maxSize))

/-! ## The abstract machine on calls -/

section

variable (lite : TensorFlowLite M) (delegate_ : DelegateType)

/-- What a call asks for; a file that is no model has no meaning. -/
def Call.command : Call → Option (Command M)
  | .loadModel model_bytes => (lite.interpreterCreate model_bytes delegate_).map .loadModel
  | .invokeModel payloads => some (.invokeModel payloads)
  | .unloadModel => some .unloadModel

/-- The abstract machine on a list of calls. -/
def conversation : Option M → List Call → Option (Option M × List (List Reply))
  | loaded, [] => some (loaded, [])
  | loaded, c :: cs =>
    ((c.command lite delegate_).bind (Command.answer lite loaded)).bind fun next =>
      (conversation next.1 cs).map fun last => (last.1, next.2 :: last.2)

/-- The library describes the tensors of its models in C: the dims are `int`s and the
type is a small enumeration. -/
def TensorFlowLite.Described : Prop :=
  ∀ model_bytes m, lite.interpreterCreate model_bytes delegate_ = some m →
    ∀ t ∈ lite.inputTensors m ++ lite.outputTensors m,
      (∀ dim ∈ t.dims, -2 ^ 31 ≤ dim ∧ dim < 2 ^ 31) ∧ t.type < 2 ^ 32

end

variable {lite : TensorFlowLite M} {malformed : Protobuf} {delegate_ : DelegateType}

/-! ## Requests -/

theorem payload_wire {model_bytes : Bytes} (h : (Call.loadModel model_bytes).Fits) :
    (Protobuf.wire malformed).payload
      (Messages.Payload.format.serializeToString ⟨model_bytes⟩) = model_bytes := by
  show ((Messages.Payload.format.parse _).map _).getD _ = _
  rw [Messages.Payload.exact.parse (by decide) h]
  rfl

theorem payloadArray_wire {payloads : List Bytes} (h : (Call.invokeModel payloads).Fits) :
    (Protobuf.wire malformed).payloadArray
      (Messages.PayloadArray.format.serializeToString ⟨payloads⟩) = payloads := by
  show ((Messages.PayloadArray.format.parse _).map _).getD _ = _
  rw [Messages.PayloadArray.exact.parse (by decide) h]
  rfl

/-- The server takes a request for the call that it was sent for. -/
theorem command_request {c : Call} (h : c.Fits) :
    command lite (.wire malformed) delegate_ c.request = c.command lite delegate_ := by
  cases c with
  | loadModel model_bytes =>
    rw [Call.request, command, if_pos rfl, payload_wire h]
    rfl
  | invokeModel payloads =>
    rw [Call.request, command, if_neg Server.load_ne_invoke.symm, if_pos rfl, payloadArray_wire h]
    rfl
  | unloadModel =>
    rw [Call.request, command, if_neg Server.load_ne_unload.symm,
      if_neg Server.invoke_ne_unload.symm, if_pos rfl]
    rfl

/-- The abstract machine of the server, on the requests that calls are sent as. -/
theorem session_requests {cs : List Call} (h : ∀ c ∈ cs, c.Fits) (loaded : Option M) :
    session lite (.wire malformed) delegate_ loaded (cs.map Call.request) =
      conversation lite delegate_ loaded cs := by
  induction cs generalizing loaded with
  | nil => rfl
  | cons c cs ih =>
    have htail : ∀ loaded, session lite (.wire malformed) delegate_ loaded
        (cs.map Call.request) = conversation lite delegate_ loaded cs :=
      ih fun c' hc' => h c' (List.mem_cons_of_mem _ hc')
    rw [List.map_cons, session, conversation, answer, command_request (h c List.mem_cons_self)]
    exact congrArg _ (funext fun next => congrArg _ (htail next.1))

/-! ## Replies -/

/-- A tensor as C describes it. -/
def TensorMeta.Described (tensor : TensorMeta) : Prop :=
  (∀ dim ∈ tensor.dims, -2 ^ 31 ≤ dim ∧ dim < 2 ^ 31) ∧ tensor.dtype < 2 ^ 32

theorem ofMessage_toMessage {tensor : TensorMeta} (h : tensor.Described) :
    TensorMeta.ofMessage tensor.toMessage = tensor := by
  have hdims : (tensor.dims.map (BitVec.ofInt 32)).map BitVec.toInt = tensor.dims := by
    rw [List.map_map]
    have hmap : ∀ dim ∈ tensor.dims, (BitVec.ofInt 32 dim).toInt = dim := fun dim hdim =>
      BitVec.toInt_ofInt_eq_self (by omega) (h.1 dim hdim).1 (h.1 dim hdim).2
    exact (List.map_congr_left hmap).trans (List.map_id' _)
  have hdtype : (BitVec.ofNat 32 tensor.dtype).toNat = tensor.dtype := by
    rw [BitVec.toNat_ofNat, Nat.mod_eq_of_lt h.2]
  show TensorMeta.mk ((tensor.dims.map (BitVec.ofInt 32)).map BitVec.toInt)
    (BitVec.ofNat 32 tensor.dtype).toNat = tensor
  rw [hdims, hdtype]

theorem ofMessages_toMessages {tensors : List TensorMeta} (h : ∀ t ∈ tensors, t.Described) :
    (tensors.map TensorMeta.toMessage).map TensorMeta.ofMessage = tensors := by
  rw [List.map_map]
  exact (List.map_congr_left fun t ht => ofMessage_toMessage (h t ht)).trans (List.map_id' _)

theorem readStdResponse_bytes {success : Bool} {message : String}
    (h : (Reply.stdResponse success message).Fits) :
    readStdResponse (Reply.stdResponse success message).bytes =
      some (.stdResponse success message) := by
  rw [readStdResponse, Reply.bytes, Messages.StdResponse.exact.parse (by decide) h]
  rfl

theorem readPayloadArray_bytes {payloads : List Bytes} (h : (Reply.payloadArray payloads).Fits) :
    readPayloadArray (Reply.payloadArray payloads).bytes = some (.payloadArray payloads) := by
  rw [readPayloadArray, Reply.bytes, Messages.PayloadArray.exact.parse (by decide) h]
  rfl

theorem readModelMeta_bytes {input_tensors output_tensors : List TensorMeta}
    (h : (Reply.modelMeta input_tensors output_tensors).Fits)
    (hinput : ∀ t ∈ input_tensors, t.Described) (houtput : ∀ t ∈ output_tensors, t.Described) :
    readModelMeta (Reply.modelMeta input_tensors output_tensors).bytes =
      some (.modelMeta input_tensors output_tensors) := by
  rw [readModelMeta, Reply.bytes, Messages.ModelMeta.exact.parse (by decide) h, Option.map_some,
    ofMessages_toMessages hinput, ofMessages_toMessages houtput]

/-- A client reads the reply of the abstract machine to its call. -/
theorem read_answer (hlite : lite.Described delegate_) {c : Call} {loaded last : Option M}
    {reply : List Reply}
    (h : (c.command lite delegate_).bind (Command.answer lite loaded) = some (last, reply))
    (hfits : ∀ part ∈ reply, part.Fits) : c.read (reply.map Reply.bytes) = some reply := by
  cases c with
  | loadModel model_bytes =>
    rw [Call.command, Option.bind_map, Option.bind_eq_some_iff] at h
    obtain ⟨m, hcreate, ha⟩ := h
    simp only [Function.comp_apply, Command.answer, Option.ite_none_right_eq_some,
      Option.some.injEq, Prod.mk.injEq] at ha
    obtain ⟨-, -, rfl⟩ := ha
    have hdescribed := hlite model_bytes m hcreate
    have hmodel : readModelMeta (modelMeta lite m).bytes = some (modelMeta lite m) := by
      refine readModelMeta_bytes (hfits _ (by simp [modelMeta])) ?_ ?_
      · rintro _ ht
        obtain ⟨t, hmem, rfl⟩ := List.mem_map.mp ht
        exact hdescribed t (List.mem_append_left _ hmem)
      · rintro _ ht
        obtain ⟨t, hmem, rfl⟩ := List.mem_map.mp ht
        exact hdescribed t (List.mem_append_right _ hmem)
    rw [List.map_cons, List.map_cons, List.map_nil, Call.read,
      readStdResponse_bytes (hfits _ List.mem_cons_self), Option.bind_some, hmodel]
    rfl
  | invokeModel payloads =>
    rw [Call.command, Option.bind_some, Command.answer, Option.bind_eq_some_iff] at h
    obtain ⟨m, -, ha⟩ := h
    simp only [Option.ite_none_right_eq_some, Option.some.injEq, Prod.mk.injEq] at ha
    obtain ⟨-, -, rfl⟩ := ha
    rw [List.map_cons, List.map_nil, Call.read, readPayloadArray_bytes (hfits _ List.mem_cons_self)]
    rfl
  | unloadModel =>
    rw [Call.command, Option.bind_some, Command.answer, Option.some.injEq, Prod.mk.injEq] at h
    obtain ⟨-, rfl⟩ := h
    rw [List.map_cons, List.map_nil, Call.read, readStdResponse_bytes (hfits _ List.mem_cons_self)]
    rfl

/-- Clients read the replies of the abstract machine to their calls. -/
theorem read_conversation (hlite : lite.Described delegate_) {cs : List Call}
    {loaded last : Option M} {replies : List (List Reply)}
    (h : conversation lite delegate_ loaded cs = some (last, replies))
    (hfits : ∀ reply ∈ replies, ∀ part ∈ reply, part.Fits) :
    List.zipWith Call.read cs (replies.map (List.map Reply.bytes)) = replies.map some := by
  induction cs generalizing loaded replies with
  | nil =>
    cases h
    rfl
  | cons c cs ih =>
    rw [conversation, Option.bind_eq_some_iff] at h
    obtain ⟨⟨next, reply⟩, ha, h⟩ := h
    rw [Option.map_eq_some_iff] at h
    obtain ⟨⟨last', replies'⟩, htail, heq⟩ := h
    cases heq
    rw [List.map_cons, List.zipWith_cons_cons,
      read_answer hlite ha (hfits _ List.mem_cons_self),
      ih htail fun reply' hmem => hfits reply' (List.mem_cons_of_mem _ hmem)]
    rfl

/-! ## Whole runs -/

namespace Process

theorem requests_append (as bs : List Action) :
    requests (as ++ bs) = requests as ++ requests bs := by
  induction as with
  | nil => rfl
  | cons a as ih =>
    cases a with
    | deliver r => exact congrArg (r :: ·) ih
    | stop => exact ih
    | iterate => exact ih

/-- The abstract machine on the first calls gives the first replies. -/
theorem conversation_take {calls : List Call} (hcalls : ∀ c ∈ calls, c.Fits)
    {loaded last last' : Option M} {replies replies' : List (List Reply)} {k : Nat}
    (h : conversation lite delegate_ loaded calls = some (last, replies))
    (h' : conversation lite delegate_ loaded (calls.take k) = some (last', replies')) :
    replies' = replies.take replies'.length := by
  have happend : session lite (.wire .short) delegate_ loaded
      ((calls.take k).map Call.request ++ (calls.drop k).map Call.request) =
        some (last, replies) := by
    rw [← List.map_append, List.take_append_drop, session_requests hcalls]
    exact h
  rw [session_append, session_requests fun c hc => hcalls c (List.mem_of_mem_take hc), h',
    Option.bind_some, Option.map_eq_some_iff] at happend
  obtain ⟨rest, -, heq⟩ := happend
  cases heq
  exact (List.take_left).symm

/-- While the requests that arrived are calls, the clients read the replies of the abstract
machine to the calls that were received. -/
theorem refines_reads (hlite : lite.Described delegate_) {calls : List Call}
    (hcalls : ∀ c ∈ calls, c.Fits) {last : Option M} {replies : List (List Reply)}
    (hconv : conversation lite delegate_ none calls = some (last, replies))
    (hfits : ∀ reply ∈ replies, ∀ part ∈ reply, part.Fits) {s : Server M}
    (hs : s.Refines lite (.wire malformed) delegate_)
    (hdel : s.socket_.delivered <+: calls.map Call.request) :
    List.zipWith Call.read calls s.frames = (replies.take s.frames.length).map some := by
  obtain ⟨loaded, hsession, -⟩ := hs.answers
  -- the requests received so far are the first calls
  have hreceived : s.socket_.received <+: calls.map Call.request := by
    refine List.IsPrefix.trans ?_ hdel
    rw [hs.order]
    exact List.prefix_append _ _
  have htake : s.socket_.received = (calls.take s.socket_.received.length).map Call.request := by
    rw [List.map_take]
    exact List.prefix_iff_eq_take.mp hreceived
  have hfirst : ∀ c ∈ calls.take s.socket_.received.length, c.Fits :=
    fun c hc => hcalls c (List.mem_of_mem_take hc)
  rw [htake, session_requests hfirst] at hsession
  have hreplies := conversation_take hcalls hconv hsession
  have hlen : s.socket_.replies.length = s.socket_.received.length :=
    (RepSocket.not_owing_iff _).mp hs.settled.1
  have hframes : s.frames.length = s.socket_.replies.length := List.length_map _
  have hread := read_conversation hlite hsession fun reply hmem =>
    hfits reply (List.mem_of_mem_take (hreplies ▸ hmem))
  -- the calls that were not received yet have no frames
  have hzip : List.zipWith Call.read calls s.frames =
      List.zipWith Call.read (calls.take s.socket_.received.length) s.frames := by
    have hcount : (calls.take s.socket_.received.length).length = s.frames.length := by
      rw [hframes, hlen, htake, List.length_map, List.length_take, List.length_take]
      omega
    have happend : List.zipWith Call.read
        (calls.take s.socket_.received.length ++ calls.drop s.socket_.received.length)
          (s.frames ++ []) =
        List.zipWith Call.read (calls.take s.socket_.received.length) s.frames ++
          List.zipWith Call.read (calls.drop s.socket_.received.length) [] :=
      List.zipWith_append hcount
    rw [List.take_append_drop, List.append_nil, List.zipWith_nil_right, List.append_nil] at happend
    exact happend
  rw [hzip, hframes, ← hreplies]
  exact hread

/-- **Clients read the replies of the abstract machine**: in every run of the server whose
requests are calls, at every moment what is read is the first replies to the calls in their
order, and it is all of them when the server had as many iterations more as calls. -/
theorem calls_answered (lite : TensorFlowLite M) (malformed : Protobuf)
    (delegate_ : DelegateType) (hlite : lite.Described delegate_) (calls : List Call)
    (hcalls : ∀ c ∈ calls, c.Fits) {last : Option M} {replies : List (List Reply)}
    (hconv : conversation lite delegate_ none calls = some (last, replies))
    (hfits : ∀ reply ∈ replies, ∀ part ∈ reply, part.Fits) (as : List Action)
    (hrequests : requests as = calls.map Call.request) (hstop : Action.stop ∉ as) :
    (∀ as', as' <+: as → ∃ s,
      (machine lite (.wire malformed) delegate_).exec (.loop .init) as' = some (.loop s) ∧
      List.zipWith Call.read calls s.frames = (replies.take s.frames.length).map some) ∧
    (∀ n, calls.length ≤ n → ∃ s,
      (machine lite (.wire malformed) delegate_).exec (.loop .init)
        (as ++ List.replicate n .iterate) = some (.loop s) ∧
      List.zipWith Call.read calls s.frames = replies.map some) := by
  have hsession : ∀ as', as' <+: as →
      session lite (.wire malformed) delegate_ none (requests as') ≠ none := by
    rintro as' ⟨bs, rfl⟩
    rw [requests_append] at hrequests
    have hall : session lite (.wire malformed) delegate_ none (requests as' ++ requests bs) ≠
        none := by
      rw [hrequests, session_requests hcalls, hconv]
      exact Option.some_ne_none _
    exact session_of_append hall
  have hrun : ∀ as', as' <+: as → ∃ s,
      (machine lite (.wire malformed) delegate_).exec (.loop .init) as' = some (.loop s) ∧
      s.Refines lite (.wire malformed) delegate_ ∧ s.is_running_ = true ∧
      s.socket_.delivered = requests as' := fun as' has' =>
    refines_exec as' refines_init (hsession as' has') rfl fun hmem => hstop (has'.subset hmem)
  have hdelivered : ∀ as', as' <+: as → requests as' <+: calls.map Call.request := by
    rintro as' ⟨bs, rfl⟩
    rw [← hrequests, requests_append]
    exact List.prefix_append _ _
  refine ⟨fun as' has' => ?_, fun n hn => ?_⟩
  · obtain ⟨s, hexec, hs, -, hdel⟩ := hrun as' has'
    exact ⟨s, hexec, refines_reads hlite hcalls hconv hfits hs (hdel ▸ hdelivered as' has')⟩
  · have has : as <+: as := List.prefix_refl as
    obtain ⟨s, hexec, hs, hrunning, hdel⟩ := hrun as has
    obtain ⟨t, hexec', ht, htdel, hinbox⟩ :=
      refines_iterations n hs (hdel ▸ hsession as has) hrunning
    have hdel' : t.socket_.delivered = calls.map Call.request := by rw [htdel, hdel, hrequests]
    refine ⟨t, Machine.exec_append _ |>.mpr ⟨_, hexec, hexec'⟩, ?_⟩
    rw [refines_reads hlite hcalls hconv hfits ht (hdel' ▸ List.prefix_refl _)]
    -- nothing is left in the inbox, so there are as many replies as calls
    have hlen : s.socket_.inbox.length ≤ n := by
      have hle : s.socket_.delivered.length = calls.length := by
        rw [hdel, hrequests, List.length_map]
      rw [hs.order, List.length_append] at hle
      omega
    have hframes : t.frames.length = calls.length := by
      have horder := ht.order
      rw [hinbox, List.drop_eq_nil_of_le hlen, List.append_nil, hdel'] at horder
      rw [Server.frames, List.length_map, (RepSocket.not_owing_iff _).mp ht.settled.1, ← horder,
        List.length_map]
    have hreplies : replies.length ≤ calls.length := by
      have hread := congrArg List.length (read_conversation hlite hconv hfits)
      simp only [List.length_zipWith, List.length_map] at hread
      omega
    rw [hframes, List.take_of_length_le hreplies]

theorem copying_described : TensorFlowLite.copying.Described .CPU := by
  rintro model_bytes m hcreate t ht
  obtain ⟨size, rfl, rfl⟩ : ∃ size : UInt8, model_bytes = [size] ∧ size.toNat = m := by
    cases model_bytes with
    | nil => cases hcreate
    | cons size rest =>
      cases rest with
      | nil => exact ⟨size, rfl, Option.some.inj hcreate⟩
      | cons _ _ => cases hcreate
  have hsize : size.toNat < 256 := size.toNat_lt
  have htensor : t = ⟨[(size.toNat : Int)], 3, size.toNat⟩ := by
    simpa [TensorFlowLite.copying] using ht
  subst htensor
  have hdtype : 3 < 2 ^ 32 := by decide
  refine ⟨fun dim hdim => ?_, hdtype⟩
  rw [List.mem_singleton.mp hdim]
  omega

/-- Three calls of a model that copies two bytes; the last two requests arrive together. -/
theorem calls_answered_copying :
    ∃ s : Server Nat, (machine .copying (.wire .short) .CPU).exec (.loop .init)
        ([.deliver (Call.loadModel [2]).request, .iterate,
          .deliver (Call.invokeModel [[7, 8]]).request, .deliver Call.unloadModel.request] ++
          List.replicate 3 .iterate) = some (.loop s) ∧
      List.zipWith Call.read [.loadModel [2], .invokeModel [[7, 8]], .unloadModel] s.frames =
        [some [.stdResponse true "", .modelMeta [⟨[2], 3⟩] [⟨[2], 3⟩]],
          some [.payloadArray [[7, 8]]], some [.stdResponse true ""]] := by
  have hconv : conversation .copying .CPU none
      [.loadModel [2], .invokeModel [[7, 8]], .unloadModel] =
        some (none, [[.stdResponse true "", .modelMeta [⟨[2], 3⟩] [⟨[2], 3⟩]],
          [.payloadArray [[7, 8]]], [.stdResponse true ""]]) := by decide
  exact (calls_answered .copying .short .CPU copying_described _ (by decide) hconv (by decide) _
    (by decide) (by decide)).2 3 (by decide)

end Process

end Anx.Tflite
