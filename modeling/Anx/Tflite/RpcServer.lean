import Anx.Lib.Effect
import Anx.Lib.Machine
import Anx.Comms.Framing
import Anx.Tflite.TfliteRunner

/-!
# The TensorFlow Lite RPC server

`TfLiteRunnerRpcServer::Loop` (tflite_runner_rpc_server.cpp:32–187) over a REP
socket and a vector of runners. The branches are written in the order and with
the control flow of the source: socket calls throw, the outer `catch` goes back
to the loop head, `InvokeModel` has a `catch` of its own, and what the source
leaves undefined (element 0 of an empty vector, a null interpreter, a copy past
the end of a payload's string) is undefined. What is copied is recorded.

- `Server.body`: one iteration; `Server.machine`: the loop among its clients.
  The iteration looks at the socket's inbox only in its poll, so requests that
  arrive while it runs are the same as requests that arrive after it.
- `Iterated`: everything one iteration can do, one constructor for each way
  through the loop body; `body_iterated` says that an iteration does one of these.

Protobuf parsing is the parameter `Protobuf`, of which nothing is assumed; replies
are the messages before serialization.
-/

namespace Anx.Tflite

open Anx.Lib Anx.Comms

/-- The RPC names (tflite_runner_rpc_server.h:19–21). -/
def LOAD_MODEL_RPC : Bytes := ascii "LoadModel"
@[inherit_doc LOAD_MODEL_RPC] def INVOKE_MODEL_RPC : Bytes := ascii "InvokeModel"
@[inherit_doc LOAD_MODEL_RPC] def UNLOAD_MODEL_RPC : Bytes := ascii "UnloadModel"

/-- `ParseFromString` for the two request messages; a failed parse is not
checked, so these are total. -/
structure Protobuf where
  payload : Bytes → Bytes
  payloadArray : Bytes → List Bytes

/-- The fields number 1 of a message whose fields are bytes shorter than 128. -/
def shortFields : Nat → Bytes → List Bytes
  | fuel + 1, 0x0A :: length :: rest =>
    rest.take length.toNat :: shortFields fuel (rest.drop length.toNat)
  | _, _ => []

/-- The parser on messages whose fields are bytes shorter than 128; a field that is
not repeated has its last value. -/
def Protobuf.short : Protobuf where
  payload message := (shortFields message.length message).getLastD []
  payloadArray message := shortFields message.length message

/-- The parts of replies, before serialization. -/
inductive Reply where
  | stdResponse (success : Bool) (message : String)
  | modelMeta (input_tensors output_tensors : List TensorMeta)
  | payloadArray (payloads : List Bytes)
deriving DecidableEq

/-- `TfLiteRunnerRpcServer`: its socket, its runners and its running flag. -/
structure Server (M : Type) where
  socket_ : RepSocket Reply
  tflite_runners_ : List (TfliteRunner M)
  is_running_ : Bool
  /-- What the frames received so far were read as. -/
  trace : Trace
  /-- The copies from payloads made so far. -/
  copies : List TfliteRunner.Copy

namespace Server

variable {M : Type}

/-- After the constructor and `Start`. -/
def init : Server M := ⟨.init, [], true, .empty, []⟩

/-! ## Socket and vector operations -/

/-- `socket_.recv(&msg)`. -/
def recv : Prog (Server M) Frame := fun s =>
  match s.socket_.recv with
  | .got f _ socket => .ok f { s with socket_ := socket }
  | .illegal => .throw s
  | .wait => .hang s

/-- `socket_.send(msg, flags)`; `more` for `zmq::send_flags::sndmore`. -/
def send (part : Reply) (more : Bool) : Prog (Server M) Unit := fun s =>
  match s.socket_.send part more with
  | some socket => .ok () { s with socket_ := socket }
  | none => .throw s

/-- `tflite_runners_[0]`. -/
def runner : Prog (Server M) (TfliteRunner M) := fun s =>
  match s.tflite_runners_ with
  | [] => .undef s
  | r :: _ => .ok r s

/-- Runner 0 changes in place. -/
def setRunner (r : TfliteRunner M) : Prog (Server M) Unit :=
  Prog.modify fun s => { s with tflite_runners_ := s.tflite_runners_.set 0 r }

/-- The result of an operation on a runner, if it is defined. -/
def defined {α : Type} : Option α → Prog (Server M) α
  | some a => pure a
  | none => Prog.undef

/-- A payload frame was received for the RPC name `name`. -/
def call (name payload : Frame) : Prog (Server M) Unit :=
  Prog.modify fun s =>
    { s with trace := { s.trace with calls := s.trace.calls ++ [⟨name, some payload⟩] } }

/-- Copies from payloads were made. -/
def copied (copies : List TfliteRunner.Copy) : Prog (Server M) Unit :=
  Prog.modify fun s => { s with copies := s.copies ++ copies }

/-- A frame is taken as an RPC name. -/
def name (req : Frame) : Prog (Server M) Unit :=
  Prog.modify fun s => { s with trace := { s.trace with names := s.trace.names ++ [req] } }

/-- `UnloadModel` (tflite_runner_rpc_server.cpp:189–193): `pop_back` until empty. -/
def UnloadModel : Prog (Server M) Unit :=
  Prog.modify fun s => { s with tflite_runners_ := [] }

/-! ## The branches of the loop -/

section Branches

variable (lite : TensorFlowLite M) (pb : Protobuf) (delegate_ : DelegateType)

/-- The LoadModel branch (lines 60–108). -/
def loadModel (req : Frame) : Prog (Server M) Unit := do
  let data_msg ← recv
  call req data_msg
  UnloadModel
  Prog.modify fun s => { s with tflite_runners_ := s.tflite_runners_ ++ [.new] }
  let r ← runner
  let (model_meta, r') ← defined (r.LoadModel lite (pb.payload data_msg.bytes) delegate_)
  setRunner r'
  -- success, whatever `model_meta.valid` says
  send (.stdResponse true "") true
  send (.modelMeta model_meta.input_tensors model_meta.output_tensors) false

/-- The body of the `try` of the InvokeModel branch (lines 112–147). A count that
differs is logged and the loop continues. -/
def invokeModelTry (req : Frame) : Prog (Server M) Unit := do
  let data_msg ← recv
  call req data_msg
  let payloads := pb.payloadArray data_msg.bytes
  let r ← runner
  if payloads.length ≠ r.input_tensors_.length then
    pure ()
  else do
    let it ← defined r.interpreter_
    let it ← defined (TfliteRunner.memcpyInputs lite it r.input_tensors_ payloads)
    copied (TfliteRunner.copies (r.inputs lite) payloads)
    let it := TfliteRunner.InvokeModel lite it
    setRunner { r with interpreter_ := some it }
    send (.payloadArray (TfliteRunner.outputs it r.output_tensors_)) false

/-- The InvokeModel branch (lines 110–152). -/
def invokeModel (req : Frame) : Prog (Server M) Unit :=
  Prog.tryCatch (invokeModelTry lite pb req) (pure ())

/-- The UnloadModel branch (lines 154–166). -/
def unloadModel (req : Frame) : Prog (Server M) Unit := do
  let data_msg ← recv
  call req data_msg
  UnloadModel
  send (.stdResponse true "") false

/-- Any other name (lines 168–181). `ss.str(res_str)` assigns to the stream
instead of reading it, so the message of the reply is empty. -/
def unknownRpc : Prog (Server M) Unit :=
  send (.stdResponse false "") false

/-- The choice of the branch by the received name. -/
def dispatch (req : Frame) : Prog (Server M) Unit :=
  if req.bytes = LOAD_MODEL_RPC then loadModel lite pb delegate_ req
  else if req.bytes = INVOKE_MODEL_RPC then invokeModel lite pb req
  else if req.bytes = UNLOAD_MODEL_RPC then unloadModel req
  else unknownRpc

/-- The body of the outer `try` (lines 36–182). -/
def bodyTry : Prog (Server M) Unit := do
  let s ← Prog.get
  if s.socket_.pollin then do
    let req ← recv
    name req
    dispatch lite pb delegate_ req
  else
    pure ()

/-- One iteration of the loop (lines 35–185). -/
def body : Prog (Server M) Unit :=
  Prog.tryCatch (bodyTry lite pb delegate_) (pure ())

end Branches

/-! ## What an iteration does -/

/-- The server once `f` was received as an RPC name. -/
def took (s : Server M) (f : Frame) (socket : RepSocket Reply) : Server M :=
  { s with socket_ := socket, trace := { s.trace with names := s.trace.names ++ [f] } }

/-- The server once `g` was received as the payload of `f`. -/
def called (s : Server M) (f g : Frame) (socket : RepSocket Reply) : Server M :=
  { s with
    socket_ := socket
    trace := { s.trace with calls := s.trace.calls ++ [⟨f, some g⟩] } }

/-- The server once the copies were made. -/
def afterCopies (s : Server M) (copies : List TfliteRunner.Copy) : Server M :=
  { s with copies := s.copies ++ copies }

/-- The server with other runners. -/
def withRunners (s : Server M) (rs : List (TfliteRunner M)) : Server M :=
  { s with tflite_runners_ := rs }

/-- `t` is `s` after sending the reply `parts` was attempted: if a reply was owed,
it is complete; otherwise the socket refused it and nothing changed. -/
inductive Settled (s : Server M) (parts : List Reply) : Server M → Prop where
  | replied (socket : RepSocket Reply) (owing : s.socket_.Owing)
      (hreplied : s.socket_.Replied parts socket) : Settled s parts { s with socket_ := socket }
  | refused (hidle : ¬ s.socket_.Owing) : Settled s parts s

/-- A frame `f` is taken as an RPC name, with `rest` of its request to come. -/
structure Takes (s : Server M) (f : Frame) (rest : List Bytes) (socket : RepSocket Reply) :
    Prop where
  upcoming : s.socket_.upcoming = f.bytes :: rest
  received : s.socket_.Received f rest socket

/-- A frame `f` is taken as an RPC name and `g`, the next one of its request, as its payload. -/
structure TakesCall (s : Server M) (f g : Frame) (rest : List Bytes)
    (between socket : RepSocket Reply) : Prop where
  upcoming : s.socket_.upcoming = f.bytes :: g.bytes :: rest
  received : s.socket_.Received f (g.bytes :: rest) between
  payload : between.Received g rest socket

/-- The names of the RPCs that receive a payload. -/
def rpcNames : List Bytes := [LOAD_MODEL_RPC, INVOKE_MODEL_RPC, UNLOAD_MODEL_RPC]

section Iterated

variable (lite : TensorFlowLite M) (pb : Protobuf) (delegate_ : DelegateType)

/-- What an iteration from the loop head `s` can do. -/
inductive Iterated (s : Server M) : Outcome (Server M) Unit → Prop where
  /-- Nothing was there to receive. -/
  | idle (h : s.socket_.upcoming = []) : Iterated s (.ok () s)
  /-- A known name was the last frame of its request: receiving the payload throws. -/
  | noPayload (f : Frame) (socket : RepSocket Reply) (hname : f.bytes ∈ rpcNames)
      (htakes : s.Takes f [] socket) : Iterated s (.ok () (s.took f socket))
  | unknown (f : Frame) (rest : List Bytes) (socket : RepSocket Reply) (t : Server M)
      (hname : f.bytes ∉ rpcNames) (htakes : s.Takes f rest socket)
      (hsettled : (s.took f socket).Settled [.stdResponse false ""] t) : Iterated s (.ok () t)
  | loadModel (f g : Frame) (rest : List Bytes) (between socket : RepSocket Reply)
      (model_meta : ModelMeta) (r : TfliteRunner M) (t : Server M)
      (hname : f.bytes = LOAD_MODEL_RPC) (htakes : s.TakesCall f g rest between socket)
      (hload : TfliteRunner.LoadModel lite .new (pb.payload g.bytes) delegate_ =
        some (model_meta, r))
      (hsettled : (((s.took f between).called f g socket).withRunners [r]).Settled
        [.stdResponse true "", .modelMeta model_meta.input_tensors model_meta.output_tensors] t) :
      Iterated s (.ok () t)
  /-- The interpreter is null. -/
  | loadNull (f g : Frame) (rest : List Bytes) (between socket : RepSocket Reply)
      (hname : f.bytes = LOAD_MODEL_RPC) (htakes : s.TakesCall f g rest between socket)
      (hload : TfliteRunner.LoadModel lite .new (pb.payload g.bytes) delegate_ = none) :
      Iterated s (.undef (((s.took f between).called f g socket).withRunners [.new]))
  | invokeModel (f g : Frame) (rest : List Bytes) (between socket : RepSocket Reply)
      (r : TfliteRunner M) (rs : List (TfliteRunner M)) (it it' : Interpreter M) (t : Server M)
      (hname : f.bytes = INVOKE_MODEL_RPC) (htakes : s.TakesCall f g rest between socket)
      (hrunners : s.tflite_runners_ = r :: rs)
      (hcount : (pb.payloadArray g.bytes).length = r.input_tensors_.length)
      (hit : r.interpreter_ = some it)
      (hcopy : TfliteRunner.memcpyInputs lite it r.input_tensors_ (pb.payloadArray g.bytes) =
        some it')
      (hsettled : ((((s.took f between).called f g socket).afterCopies
          (TfliteRunner.copies (r.inputs lite) (pb.payloadArray g.bytes))).withRunners
          ({ r with interpreter_ := some (TfliteRunner.InvokeModel lite it') } :: rs)).Settled
        [.payloadArray (TfliteRunner.outputs (TfliteRunner.InvokeModel lite it') r.output_tensors_)]
        t) : Iterated s (.ok () t)
  /-- The number of tensors differs: no reply is sent. -/
  | invokeCount (f g : Frame) (rest : List Bytes) (between socket : RepSocket Reply)
      (r : TfliteRunner M) (rs : List (TfliteRunner M))
      (hname : f.bytes = INVOKE_MODEL_RPC) (htakes : s.TakesCall f g rest between socket)
      (hrunners : s.tflite_runners_ = r :: rs)
      (hcount : (pb.payloadArray g.bytes).length ≠ r.input_tensors_.length) :
      Iterated s (.ok () ((s.took f between).called f g socket))
  /-- There is no runner. -/
  | invokeNoRunner (f g : Frame) (rest : List Bytes) (between socket : RepSocket Reply)
      (hname : f.bytes = INVOKE_MODEL_RPC) (htakes : s.TakesCall f g rest between socket)
      (hrunners : s.tflite_runners_ = []) :
      Iterated s (.undef ((s.took f between).called f g socket))
  /-- The string of a payload is shorter than its tensor (or the interpreter is null). -/
  | invokeOverrun (f g : Frame) (rest : List Bytes) (between socket : RepSocket Reply)
      (r : TfliteRunner M) (rs : List (TfliteRunner M))
      (hname : f.bytes = INVOKE_MODEL_RPC) (htakes : s.TakesCall f g rest between socket)
      (hrunners : s.tflite_runners_ = r :: rs)
      (hcount : (pb.payloadArray g.bytes).length = r.input_tensors_.length)
      (hcopy : ∀ it, r.interpreter_ = some it →
        TfliteRunner.memcpyInputs lite it r.input_tensors_ (pb.payloadArray g.bytes) = none) :
      Iterated s (.undef ((s.took f between).called f g socket))
  | unloadModel (f g : Frame) (rest : List Bytes) (between socket : RepSocket Reply) (t : Server M)
      (hname : f.bytes = UNLOAD_MODEL_RPC) (htakes : s.TakesCall f g rest between socket)
      (hsettled : (((s.took f between).called f g socket).withRunners []).Settled
        [.stdResponse true ""] t) : Iterated s (.ok () t)

end Iterated

/-- Replying does not touch the running flag. -/
theorem Settled.is_running {s t : Server M} {parts : List Reply} (h : s.Settled parts t) :
    t.is_running_ = s.is_running_ := by
  cases h <;> rfl

/-- Only the destructor clears the running flag. -/
theorem Iterated.is_running {lite : TensorFlowLite M} {pb : Protobuf} {delegate_ : DelegateType}
    {s t : Server M} (h : Iterated lite pb delegate_ s (.ok () t)) :
    t.is_running_ = s.is_running_ := by
  cases h with
  | idle h => rfl
  | noPayload f socket hname htakes => rfl
  | unknown f rest socket _ hname htakes hsettled => exact hsettled.is_running
  | loadModel f g rest between socket model_meta r _ hname htakes hload hsettled =>
    exact hsettled.is_running
  | invokeModel f g rest between socket r rs it it' _ hname htakes hrunners hcount hit hcopy
      hsettled => exact hsettled.is_running
  | invokeCount f g rest between socket r rs hname htakes hrunners hcount => rfl
  | unloadModel f g rest between socket _ hname htakes hsettled => exact hsettled.is_running

/-! ### The calls of the branches -/

theorem recv_throw {s : Server M} (h : s.socket_.Owing) : recv s = .throw s := by
  rw [recv, RepSocket.recv_illegal_iff.mpr h]

theorem recv_ok {s : Server M} {b : Bytes} {rest : List Bytes}
    (h : s.socket_.upcoming = b :: rest) :
    ∃ f socket, recv s = .ok f { s with socket_ := socket } ∧ f.bytes = b ∧
      s.socket_.Received f rest socket := by
  obtain ⟨f, socket, hrecv, hb, hrec⟩ := RepSocket.recv_spec h
  exact ⟨f, socket, by rw [recv, hrecv], hb, hrec⟩

theorem runner_ok {s : Server M} {r : TfliteRunner M} {rs : List (TfliteRunner M)}
    (h : s.tflite_runners_ = r :: rs) : runner s = .ok r s := by
  rw [runner, h]

theorem setRunner_ok {s : Server M} {r : TfliteRunner M} {rs : List (TfliteRunner M)}
    (h : s.tflite_runners_ = r :: rs) (r' : TfliteRunner M) :
    setRunner r' s = .ok () (s.withRunners (r' :: rs)) := by
  rw [setRunner, Prog.modify_apply, h]
  rfl

/-- One attempt to send `parts`, seen from the `catch` around it. -/
def Attempts (s : Server M) (parts : List Reply) (o : Outcome (Server M) Unit) : Prop :=
  ∃ t, s.Settled parts t ∧ (o = .ok () t ∨ o = .throw t)

theorem send_attempts (s : Server M) (part : Reply) : s.Attempts [part] (send part false s) := by
  by_cases h : s.socket_.Owing
  · obtain ⟨socket, hsend, hrep⟩ := RepSocket.send_spec h part
    exact ⟨_, .replied socket h hrep, .inl (by rw [send, hsend])⟩
  · exact ⟨s, .refused h, .inr (by rw [send, RepSocket.send_illegal h])⟩

/-- A reply of two parts. -/
theorem send_two_attempts (s : Server M) (part part' : Reply) :
    s.Attempts [part, part'] ((send part true >>= fun _ => send part' false) s) := by
  by_cases h : s.socket_.Owing
  · obtain ⟨socket, hsend, howing, hrep⟩ := RepSocket.send_more_spec h part
    have hfirst : send part true s = .ok () { s with socket_ := socket } := by rw [send, hsend]
    rw [Prog.bind_ok hfirst]
    obtain ⟨socket', hsend', hrep'⟩ := RepSocket.send_spec howing part'
    exact ⟨_, .replied socket' h (hrep _ _ hrep'), .inl (by rw [send, hsend'])⟩
  · refine ⟨s, .refused h, .inr (Prog.bind_throw ?_)⟩
    rw [send, RepSocket.send_illegal h]

/-! ### The branches -/

section Body

variable {lite : TensorFlowLite M} {pb : Protobuf} {delegate_ : DelegateType}
  {s : Server M} {f : Frame} {socket : RepSocket Reply}

/-- Without a payload frame, every branch that receives one throws before it does
anything else. -/
theorem payload_throw (h : s.socket_.Owing) (k : Frame → Prog (Server M) Unit) :
    (recv >>= fun data_msg => call f data_msg >>= fun _ => k data_msg) s = .throw s :=
  Prog.bind_throw (recv_throw h)

/-- A branch that receives a payload goes on with the next frame of the request. -/
theorem payload_ok {b : Bytes} {rest : List Bytes} (h : s.socket_.upcoming = b :: rest) :
    ∃ g socket', g.bytes = b ∧ s.socket_.Received g rest socket' ∧
      ∀ k : Frame → Prog (Server M) Unit,
        (recv >>= fun data_msg => call f data_msg >>= fun _ => k data_msg) s =
          k g (s.called f g socket') := by
  obtain ⟨g, socket', hrecv, hb, hrec⟩ := recv_ok h
  exact ⟨g, socket', hb, hrec, fun k => Prog.bind_ok hrecv⟩

/-- The dispatched branch, once the name `f` of a request was received. -/
theorem dispatch_throw (hname : f.bytes ∈ rpcNames) (h : s.socket_.Owing) :
    Prog.tryCatch (dispatch lite pb delegate_ f) (pure ()) s = .ok () s := by
  have hload : loadModel lite pb delegate_ f s = .throw s := payload_throw h _
  have hinvoke : invokeModel lite pb f s = .ok () s := Prog.tryCatch_throw (payload_throw h _)
  have hunload : unloadModel f s = .throw s := payload_throw h _
  -- InvokeModel catches the exception itself, the other two leave it to the loop
  unfold dispatch
  split
  · exact Prog.tryCatch_throw hload
  · split
    · exact Prog.tryCatch_ok hinvoke
    · split
      · exact Prog.tryCatch_throw hunload
      · simp_all [rpcNames]

/-- What the outer `catch` makes of an attempt to reply. -/
theorem Attempts.caught {x : Prog (Server M) Unit} {parts : List Reply} {v : Server M}
    (h : v.Attempts parts (x s)) :
    ∃ t, v.Settled parts t ∧ Prog.tryCatch x (pure ()) s = .ok () t := by
  obtain ⟨t, ht, hok | hthrow⟩ := h
  · exact ⟨t, ht, Prog.tryCatch_ok hok⟩
  · exact ⟨t, ht, Prog.tryCatch_throw hthrow⟩

theorem load_ne_invoke : LOAD_MODEL_RPC ≠ INVOKE_MODEL_RPC := by decide

theorem load_ne_unload : LOAD_MODEL_RPC ≠ UNLOAD_MODEL_RPC := by decide

theorem invoke_ne_unload : INVOKE_MODEL_RPC ≠ UNLOAD_MODEL_RPC := by decide

theorem dispatch_load (h : f.bytes = LOAD_MODEL_RPC) :
    dispatch lite pb delegate_ f = loadModel lite pb delegate_ f := by
  rw [dispatch, if_pos h]

theorem dispatch_invoke (h : f.bytes = INVOKE_MODEL_RPC) :
    dispatch lite pb delegate_ f = invokeModel lite pb f := by
  rw [dispatch, h, if_neg load_ne_invoke.symm, if_pos rfl]

theorem dispatch_unload (h : f.bytes = UNLOAD_MODEL_RPC) :
    dispatch lite pb delegate_ f = unloadModel f := by
  rw [dispatch, h, if_neg load_ne_unload.symm, if_neg invoke_ne_unload.symm, if_pos rfl]

theorem dispatch_unknown (h : f.bytes ∉ rpcNames) :
    dispatch lite pb delegate_ f = unknownRpc := by
  simp only [rpcNames, List.mem_cons, List.not_mem_nil, or_false, not_or] at h
  rw [dispatch, if_neg h.1, if_neg h.2.1, if_neg h.2.2]

/-- An iteration that finds a frame dispatches on it. -/
theorem body_take {b : Bytes} {rest : List Bytes} (h : s.socket_.upcoming = b :: rest) :
    ∃ f socket, f.bytes = b ∧ s.socket_.Received f rest socket ∧
      body lite pb delegate_ s =
        Prog.tryCatch (dispatch lite pb delegate_ f) (pure ()) (s.took f socket) := by
  obtain ⟨f, socket, hrecv, hb, hrec⟩ := recv_ok h
  have hp : s.socket_.pollin = true := s.socket_.pollin_iff.mpr (by simp [h])
  have hbody : bodyTry lite pb delegate_ s = dispatch lite pb delegate_ f (s.took f socket) := by
    rw [bodyTry, Prog.bind_ok (Prog.get_apply s), if_pos hp, Prog.bind_ok hrecv]
    rfl
  refine ⟨f, socket, hb, hrec, ?_⟩
  rw [body, Prog.tryCatch, hbody]
  rfl

/-- The `LoadModel` branch, with a payload. -/
theorem loadModel_iterated {p : Bytes} {rest : List Bytes}
    (hup : s.socket_.upcoming = f.bytes :: p :: rest) (hname : f.bytes = LOAD_MODEL_RPC)
    (hrec : s.socket_.Received f (p :: rest) socket) :
    Iterated lite pb delegate_ s
      (Prog.tryCatch (dispatch lite pb delegate_ f) (pure ()) (s.took f socket)) := by
  obtain ⟨g, socket', rfl, hrec', hk⟩ :=
    payload_ok (s := s.took f socket) (f := f) (hrec.upcoming (List.cons_ne_nil _ _))
  have htakes : s.TakesCall f g rest socket socket' := ⟨hup, hrec, hrec'⟩
  rw [dispatch_load hname]
  match hload : TfliteRunner.LoadModel lite .new (pb.payload g.bytes) delegate_ with
  | none =>
    have hundef : loadModel lite pb delegate_ f (s.took f socket) =
        .undef (((s.took f socket).called f g socket').withRunners [.new]) := by
      rw [loadModel, hk]
      refine (Prog.bind_ok rfl).trans ((Prog.bind_ok rfl).trans ((Prog.bind_ok rfl).trans ?_))
      exact Prog.bind_undef (by rw [hload]; rfl)
    rw [Prog.tryCatch_undef hundef]
    exact .loadNull f g rest socket socket' hname htakes hload
  | some (model_meta, r) =>
    let v := ((s.took f socket).called f g socket').withRunners [r]
    have hbranch : loadModel lite pb delegate_ f (s.took f socket) =
        (send (.stdResponse true "") true >>= fun _ => send
          (.modelMeta model_meta.input_tensors model_meta.output_tensors) false) v := by
      rw [loadModel, hk]
      refine (Prog.bind_ok rfl).trans ((Prog.bind_ok rfl).trans ((Prog.bind_ok rfl).trans ?_))
      exact (Prog.bind_ok (by rw [hload]; rfl)).trans (Prog.bind_ok rfl)
    obtain ⟨t, ht, hcaught⟩ := Attempts.caught (hbranch ▸ v.send_two_attempts _ _)
    rw [hcaught]
    exact .loadModel f g rest socket socket' model_meta r t hname htakes hload ht

/-- The `UnloadModel` branch, with a payload. -/
theorem unloadModel_iterated {p : Bytes} {rest : List Bytes}
    (hup : s.socket_.upcoming = f.bytes :: p :: rest) (hname : f.bytes = UNLOAD_MODEL_RPC)
    (hrec : s.socket_.Received f (p :: rest) socket) :
    Iterated lite pb delegate_ s
      (Prog.tryCatch (dispatch lite pb delegate_ f) (pure ()) (s.took f socket)) := by
  obtain ⟨g, socket', rfl, hrec', hk⟩ :=
    payload_ok (s := s.took f socket) (f := f) (hrec.upcoming (List.cons_ne_nil _ _))
  let v := ((s.took f socket).called f g socket').withRunners []
  have hbranch : unloadModel f (s.took f socket) = send (.stdResponse true "") false v := by
    rw [unloadModel, hk]
    exact Prog.bind_ok rfl
  obtain ⟨t, ht, hcaught⟩ := Attempts.caught (hbranch ▸ v.send_attempts _)
  rw [dispatch_unload hname, hcaught]
  exact .unloadModel f g rest socket socket' t hname ⟨hup, hrec, hrec'⟩ ht

/-! The ways through the `try` of the InvokeModel branch. In state `u` the payload frame `g`
is received, which leaves the server in state `v`. -/

section Invoke

variable {u v : Server M} {g : Frame} {r : TfliteRunner M} {rs : List (TfliteRunner M)}
  (hk : ∀ k : Frame → Prog (Server M) Unit,
    (recv >>= fun data_msg => call f data_msg >>= fun _ => k data_msg) u = k g v)

include hk

/-- Element 0 of the empty vector. -/
theorem invokeModelTry_noRunner (h : v.tflite_runners_ = []) :
    invokeModelTry lite pb f u = .undef v := by
  have hrunner : runner v = .undef v := by rw [runner, h]
  rw [invokeModelTry, hk]
  exact Prog.bind_undef hrunner

/-- The `continue` after a count that differs. -/
theorem invokeModelTry_count (h : v.tflite_runners_ = r :: rs)
    (hcount : (pb.payloadArray g.bytes).length ≠ r.input_tensors_.length) :
    invokeModelTry lite pb f u = .ok () v := by
  rw [invokeModelTry, hk]
  refine (Prog.bind_ok (runner_ok h)).trans ?_
  rw [if_pos hcount]
  rfl

/-- A null interpreter, or a copy past the end of a string. -/
theorem invokeModelTry_overrun (h : v.tflite_runners_ = r :: rs)
    (hcount : (pb.payloadArray g.bytes).length = r.input_tensors_.length)
    (hcopy : ∀ it, r.interpreter_ = some it →
      TfliteRunner.memcpyInputs lite it r.input_tensors_ (pb.payloadArray g.bytes) = none) :
    invokeModelTry lite pb f u = .undef v := by
  rw [invokeModelTry, hk]
  refine (Prog.bind_ok (runner_ok h)).trans ?_
  rw [if_neg (not_not_intro hcount)]
  cases hit : r.interpreter_ with
  | none => exact Prog.bind_undef rfl
  | some it => exact (Prog.bind_ok rfl).trans (Prog.bind_undef (by rw [hcopy it hit]; rfl))

/-- The model is invoked, and its outputs are sent. -/
theorem invokeModelTry_sends (h : v.tflite_runners_ = r :: rs)
    (hcount : (pb.payloadArray g.bytes).length = r.input_tensors_.length) {it it' : Interpreter M}
    (hit : r.interpreter_ = some it)
    (hcopy : TfliteRunner.memcpyInputs lite it r.input_tensors_ (pb.payloadArray g.bytes) =
      some it') :
    invokeModelTry lite pb f u =
      send (.payloadArray (TfliteRunner.outputs (TfliteRunner.InvokeModel lite it')
        r.output_tensors_)) false
        ((v.afterCopies (TfliteRunner.copies (r.inputs lite) (pb.payloadArray g.bytes))).withRunners
          ({ r with interpreter_ := some (TfliteRunner.InvokeModel lite it') } :: rs)) := by
  rw [invokeModelTry, hk]
  refine (Prog.bind_ok (runner_ok h)).trans ?_
  rw [if_neg (not_not_intro hcount), hit]
  refine (Prog.bind_ok rfl).trans ((Prog.bind_ok (by rw [hcopy]; rfl)).trans ?_)
  have hrunners : (v.afterCopies (TfliteRunner.copies (r.inputs lite)
      (pb.payloadArray g.bytes))).tflite_runners_ = r :: rs := h
  exact (Prog.bind_ok rfl).trans (Prog.bind_ok (setRunner_ok hrunners _))

end Invoke

/-- The `InvokeModel` branch, with a payload. -/
theorem invokeModel_iterated {p : Bytes} {rest : List Bytes}
    (hup : s.socket_.upcoming = f.bytes :: p :: rest) (hname : f.bytes = INVOKE_MODEL_RPC)
    (hrec : s.socket_.Received f (p :: rest) socket) :
    Iterated lite pb delegate_ s
      (Prog.tryCatch (dispatch lite pb delegate_ f) (pure ()) (s.took f socket)) := by
  obtain ⟨g, socket', rfl, hrec', hk⟩ :=
    payload_ok (s := s.took f socket) (f := f) (hrec.upcoming (List.cons_ne_nil _ _))
  have htakes : s.TakesCall f g rest socket socket' := ⟨hup, hrec, hrec'⟩
  rw [dispatch_invoke hname, invokeModel]
  cases hrunners : s.tflite_runners_ with
  | nil =>
    rw [Prog.tryCatch_undef (Prog.tryCatch_undef (invokeModelTry_noRunner hk hrunners))]
    exact .invokeNoRunner f g rest socket socket' hname htakes hrunners
  | cons r rs =>
    by_cases hcount : (pb.payloadArray g.bytes).length = r.input_tensors_.length
    · cases hcopy : r.interpreter_.bind fun it =>
          TfliteRunner.memcpyInputs lite it r.input_tensors_ (pb.payloadArray g.bytes) with
      | none =>
        have hnone := Option.bind_eq_none_iff.mp hcopy
        rw [Prog.tryCatch_undef
          (Prog.tryCatch_undef (invokeModelTry_overrun hk hrunners hcount hnone))]
        exact .invokeOverrun f g rest socket socket' r rs hname htakes hrunners hcount hnone
      | some it' =>
        obtain ⟨it, hit, hit'⟩ := Option.bind_eq_some_iff.mp hcopy
        have hsends := invokeModelTry_sends hk hrunners hcount hit hit'
        -- the inner catch leaves nothing for the outer one
        obtain ⟨t, ht, hcaught⟩ := Attempts.caught (hsends ▸ send_attempts _ _)
        rw [Prog.tryCatch_ok hcaught]
        exact .invokeModel f g rest socket socket' r rs it it' t hname htakes hrunners hcount hit
          hit' ht
    · rw [Prog.tryCatch_ok (Prog.tryCatch_ok (invokeModelTry_count hk hrunners hcount))]
      exact .invokeCount f g rest socket socket' r rs hname htakes hrunners hcount

/-- **One iteration does one of the things `Iterated` lists.** -/
theorem body_iterated (s : Server M) :
    Iterated lite pb delegate_ s (body lite pb delegate_ s) := by
  cases hup : s.socket_.upcoming with
  | nil =>
    have hp : s.socket_.pollin = false := by simp [RepSocket.pollin, hup]
    have hbody : bodyTry lite pb delegate_ s = .ok () s := by
      rw [bodyTry, Prog.bind_ok (Prog.get_apply s), hp]
      rfl
    rw [body, Prog.tryCatch_ok hbody]
    exact .idle hup
  | cons b rest =>
    obtain ⟨f, socket, rfl, hrec, hbody⟩ := body_take hup
    rw [hbody]
    by_cases hname : f.bytes ∈ rpcNames
    · cases rest with
      | nil =>
        rw [dispatch_throw hname (hrec.owing.mpr rfl)]
        exact .noPayload f socket hname ⟨hup, hrec⟩
      | cons p rest =>
        simp only [rpcNames, List.mem_cons, List.not_mem_nil, or_false] at hname
        rcases hname with hload | hinvoke | hunload
        · exact loadModel_iterated hup hload hrec
        · exact invokeModel_iterated hup hinvoke hrec
        · exact unloadModel_iterated hup hunload hrec
    · rw [dispatch_unknown hname]
      obtain ⟨t, ht, hcaught⟩ := Attempts.caught ((s.took f socket).send_attempts _)
      rw [unknownRpc, hcaught]
      exact .unknown f rest socket t hname ⟨hup, hrec⟩ ht

end Body

end Server

/-- The process: at the loop head, waiting in a call for ever, or gone from state
`s` into undefined behaviour. -/
inductive Process (M : Type) where
  | loop (s : Server M)
  | blocked (s : Server M)
  | undefined (s : Server M)

/-- What can happen next. -/
inductive Action where
  /-- A client's request arrives. -/
  | deliver (r : Request)
  /-- The destructor clears `is_running_`. -/
  | stop
  /-- The server runs one iteration. -/
  | iterate
deriving DecidableEq

namespace Process

variable {M : Type}

/-- The server, in its last known state. -/
def server : Process M → Server M
  | .loop s | .blocked s | .undefined s => s

/-- Where an iteration leaves the process. -/
def ofOutcome : Outcome (Server M) Unit → Process M
  | .ok _ s => .loop s
  | .throw s => .undefined s  -- no exception leaves the outer catch
  | .hang s => .blocked s
  | .undef s => .undefined s

/-- The server among its clients. -/
def machine (lite : TensorFlowLite M) (pb : Protobuf) (delegate_ : DelegateType) :
    Machine (Process M) Action where
  step
    | .loop s, .deliver r => some (.loop { s with socket_ := s.socket_.deliver r })
    | .loop s, .stop => some (.loop { s with is_running_ := false })
    | .loop s, .iterate =>
      if s.is_running_ then some (ofOutcome (Server.body lite pb delegate_ s)) else none
    | .blocked s, .deliver r => some (.blocked { s with socket_ := s.socket_.deliver r })
    | _, _ => none

/-- At the loop head there are as many complete replies as completely received
requests, and the socket can receive. -/
def OneReply : Process M → Prop
  | .loop s => s.socket_.replies.length = s.socket_.received.length ∧ s.socket_.recv ≠ .illegal
  | _ => False

variable {lite : TensorFlowLite M} {pb : Protobuf} {delegate_ : DelegateType}

/-- What a step of the process can be. -/
theorem step_cases {p q : Process M} {a : Action}
    (h : (machine lite pb delegate_).step p a = some q) :
    (∃ s r, p = .loop s ∧ a = .deliver r ∧ q = .loop { s with socket_ := s.socket_.deliver r }) ∨
    (∃ s, p = .loop s ∧ a = .stop ∧ q = .loop { s with is_running_ := false }) ∨
    (∃ s o, p = .loop s ∧ a = .iterate ∧ q = ofOutcome o ∧ Server.Iterated lite pb delegate_ s o) ∨
    (∃ s r, p = .blocked s ∧ a = .deliver r ∧
      q = .blocked { s with socket_ := s.socket_.deliver r }) := by
  cases p with
  | loop s =>
    cases a with
    | deliver r => exact .inl ⟨s, r, rfl, rfl, (Option.some.inj h).symm⟩
    | stop => exact .inr (.inl ⟨s, rfl, rfl, (Option.some.inj h).symm⟩)
    | iterate =>
      simp only [machine, Option.ite_none_right_eq_some, Option.some.injEq] at h
      exact .inr (.inr (.inl ⟨s, _, rfl, rfl, h.2.symm, s.body_iterated⟩))
  | blocked s =>
    cases a with
    | deliver r => exact .inr (.inr (.inr ⟨s, r, rfl, rfl, (Option.some.inj h).symm⟩))
    | stop => cases h
    | iterate => cases h
  | undefined s => cases a <;> cases h

end Process

end Anx.Tflite
