import Anx.Tflite.RpcServer

/-!
# Sessions of the TensorFlow Lite server

What the server is for: clients load a model, invoke it and unload it. The abstract
machine has an optional loaded model as its state.

- `Command.answer`: one step of the abstract machine, defined where the command makes
  sense: a model whose tensors allocate, payloads that cover the inputs of the model
  that is loaded;
- `session`: the abstract machine on a list of requests;
- `Server.Refines`: the server has answered the requests it received as the abstract
  machine does, and its runner vector holds the abstract machine's model and nothing
  else;
- `refines_iterated`: an iteration of the loop is one step of the abstract machine;
- `session_refines`: **in every run whose requests form a session the server refines
  the abstract machine**, and answers all requests if it is left to run.
-/

namespace Anx.Tflite

open Anx.Lib Anx.Comms

variable {M : Type}

/-! ## The abstract machine -/

/-- What a client asks for. -/
inductive Command (M : Type) where
  | loadModel (m : M)
  | invokeModel (payloads : List Bytes)
  | unloadModel

section

variable (lite : TensorFlowLite M) (pb : Protobuf) (delegate_ : DelegateType)

/-- The command in a request of two frames. -/
def command : Request → Option (Command M)
  | ⟨name, [payload]⟩ =>
    if name = LOAD_MODEL_RPC then
      (lite.interpreterCreate (pb.payload payload) delegate_).map .loadModel
    else if name = INVOKE_MODEL_RPC then some (.invokeModel (pb.payloadArray payload))
    else if name = UNLOAD_MODEL_RPC then some .unloadModel
    else none
  | _ => none

/-- The meta data of a model: dims and dtype of every input and output tensor, in order. -/
def modelMeta (m : M) : Reply :=
  .modelMeta ((lite.inputTensors m).map TfLiteTensor.meta)
    ((lite.outputTensors m).map TfLiteTensor.meta)

/-- The abstract machine: the model loaded after a command and the reply to it. -/
def Command.answer (loaded : Option M) : Command M → Option (Option M × List Reply)
  | .loadModel m =>
    if lite.allocateTensors m then some (some m, [.stdResponse true "", modelMeta lite m]) else none
  | .invokeModel payloads => loaded.bind fun m =>
    if TfliteRunner.Covers (lite.inputTensors m) payloads then
      some (some m, [.payloadArray (TfliteRunner.modelOutputs lite m payloads)])
    else none
  | .unloadModel => some (none, [.stdResponse true ""])

/-- The abstract machine's step on a request. -/
def answer (loaded : Option M) (r : Request) : Option (Option M × List Reply) :=
  (command lite pb delegate_ r).bind (Command.answer lite loaded)

/-- The abstract machine on a list of requests: the model loaded at the end and the
replies; `none` when the requests do not form a session. -/
def session : Option M → List Request → Option (Option M × List (List Reply))
  | loaded, [] => some (loaded, [])
  | loaded, r :: rs =>
    (answer lite pb delegate_ loaded r).bind fun next =>
      (session next.1 rs).map fun last => (last.1, next.2 :: last.2)

/-- The runner vector holds the runner of the loaded model. -/
def Holds : Option M → List (TfliteRunner M) → Prop
  | none, runners => runners = []
  | some m, runners => ∃ r, runners = [r] ∧ r.Runs lite m

/-- The server has answered what it received as the abstract machine does. -/
structure Server.Refines (s : Server M) : Prop where
  /-- No request is half received or unanswered. -/
  settled : ¬ s.socket_.Owing ∧ s.socket_.nextIndex = 0
  answers : ∃ loaded,
    session lite pb delegate_ none s.socket_.received = some (loaded, s.socket_.replies) ∧
      Holds lite loaded s.tflite_runners_
  /-- Requests are received in the order of their arrival. -/
  order : s.socket_.delivered = s.socket_.received ++ s.socket_.inbox
  /-- No runner is ever copied to grow the vector. -/
  atMostOne : s.tflite_runners_.length ≤ 1

end

variable {lite : TensorFlowLite M} {pb : Protobuf} {delegate_ : DelegateType}

theorem Holds.length_le {loaded : Option M} {runners : List (TfliteRunner M)}
    (h : Holds lite loaded runners) : runners.length ≤ 1 := by
  cases loaded with
  | none => simp [show runners = [] from h]
  | some m =>
    obtain ⟨r, rfl, -⟩ := h
    exact Nat.le_refl 1

/-- The sessions that continue a session. -/
theorem session_append {loaded : Option M} (rs rs' : List Request) :
    session lite pb delegate_ loaded (rs ++ rs') =
      (session lite pb delegate_ loaded rs).bind fun next =>
        (session lite pb delegate_ next.1 rs').map fun last => (last.1, next.2 ++ last.2) := by
  induction rs generalizing loaded with
  | nil => simp [session]
  | cons r rs ih =>
    rw [List.cons_append, session, session]
    cases answer lite pb delegate_ loaded r with
    | none => rfl
    | some next =>
      rw [Option.bind_some, Option.bind_some, ih]
      cases session lite pb delegate_ next.1 rs with
      | none => rfl
      | some next' => cases h : session lite pb delegate_ next'.1 rs' <;> simp [h]

/-- One more request. -/
theorem session_concat {loaded loaded' next : Option M} {rs : List Request} {r : Request}
    {replies : List (List Reply)} {reply : List Reply}
    (h : session lite pb delegate_ loaded rs = some (loaded', replies))
    (ha : answer lite pb delegate_ loaded' r = some (next, reply)) :
    session lite pb delegate_ loaded (rs ++ [r]) = some (next, replies ++ [reply]) := by
  simp [session_append, h, session, ha]

/-- The start of a session is a session, and it answers its next request. -/
theorem answer_of_session {loaded : Option M} {rs rs' : List Request} {r : Request}
    (h : session lite pb delegate_ loaded (rs ++ r :: rs') ≠ none) {loaded' : Option M}
    {replies : List (List Reply)}
    (hrs : session lite pb delegate_ loaded rs = some (loaded', replies)) :
    ∃ next reply, answer lite pb delegate_ loaded' r = some (next, reply) := by
  rw [session_append, hrs, Option.bind_some, session] at h
  cases ha : answer lite pb delegate_ loaded' r with
  | none => simp [ha] at h
  | some next => exact ⟨next.1, next.2, rfl⟩

/-- Only requests of two frames with a known name are answered. -/
theorem frames_of_answer {loaded : Option M} {r : Request} {next : Option M × List Reply}
    (h : answer lite pb delegate_ loaded r = some next) :
    ∃ p, r.frames = [r.head, p] ∧ r.head ∈ Server.rpcNames := by
  obtain ⟨name, tail⟩ := r
  match tail with
  | [] => cases h
  | [p] =>
    refine ⟨p, rfl, ?_⟩
    by_contra hn
    simp only [Server.rpcNames, List.mem_cons, List.not_mem_nil, or_false, not_or] at hn
    rw [answer, command, if_neg hn.1, if_neg hn.2.1, if_neg hn.2.2] at h
    cases h
  | _ :: _ :: _ => cases h

/-- What the abstract machine does on `LoadModel`. -/
theorem answer_load {loaded : Option M} {p : Bytes} {next : Option M × List Reply}
    (h : answer lite pb delegate_ loaded ⟨LOAD_MODEL_RPC, [p]⟩ = some next) :
    ∃ m, lite.interpreterCreate (pb.payload p) delegate_ = some m ∧
      lite.allocateTensors m = true ∧
      next = (some m, [.stdResponse true "", modelMeta lite m]) := by
  rw [answer, command, if_pos rfl, Option.bind_map, Option.bind_eq_some_iff] at h
  obtain ⟨m, hcreate, ha⟩ := h
  simp only [Function.comp_apply, Command.answer, Option.ite_none_right_eq_some,
    Option.some.injEq] at ha
  exact ⟨m, hcreate, ha.1, ha.2.symm⟩

/-- What the abstract machine does on `InvokeModel`. -/
theorem answer_invoke {loaded : Option M} {p : Bytes} {next : Option M × List Reply}
    (h : answer lite pb delegate_ loaded ⟨INVOKE_MODEL_RPC, [p]⟩ = some next) :
    ∃ m, loaded = some m ∧ TfliteRunner.Covers (lite.inputTensors m) (pb.payloadArray p) ∧
      next = (some m, [.payloadArray (TfliteRunner.modelOutputs lite m (pb.payloadArray p))]) := by
  rw [answer, command, if_neg Server.load_ne_invoke.symm, if_pos rfl, Option.bind_some,
    Command.answer, Option.bind_eq_some_iff] at h
  obtain ⟨m, hm, ha⟩ := h
  simp only [Option.ite_none_right_eq_some, Option.some.injEq] at ha
  exact ⟨m, hm, ha.1, ha.2.symm⟩

/-- What the abstract machine does on `UnloadModel`. -/
theorem answer_unload {loaded : Option M} {p : Bytes} :
    answer lite pb delegate_ loaded ⟨UNLOAD_MODEL_RPC, [p]⟩ =
      some (none, [.stdResponse true ""]) := by
  rw [answer, command, if_neg Server.load_ne_unload.symm, if_neg Server.invoke_ne_unload.symm,
    if_pos rfl, Option.bind_some]
  rfl

/-! ## One iteration -/

namespace Server

variable {s t v : Server M} {f g : Frame} {between socket : RepSocket Reply} {loaded : Option M}

/-- Before a frame is taken up the next request is at the head of the inbox, and the
abstract machine has an answer to it. -/
theorem Refines.next (h : s.Refines lite pb delegate_)
    (hwf : session lite pb delegate_ none s.socket_.delivered ≠ none)
    (hsession : session lite pb delegate_ none s.socket_.received =
      some (loaded, s.socket_.replies))
    {b : Bytes} {rest : List Bytes} (hup : s.socket_.upcoming = b :: rest) :
    ∃ p rs last reply, rest = [p] ∧ b ∈ rpcNames ∧ s.socket_.inbox = ⟨b, [p]⟩ :: rs ∧
      answer lite pb delegate_ loaded ⟨b, [p]⟩ = some (last, reply) := by
  obtain ⟨-, r, rs, hinbox, hframes⟩ := RepSocket.boundary hup h.settled.2
  rw [h.order, hinbox] at hwf
  obtain ⟨last, reply, ha⟩ := answer_of_session hwf hsession
  obtain ⟨p, hp, hknown⟩ := frames_of_answer ha
  obtain ⟨name, tail⟩ := r
  rw [hp] at hframes
  cases hframes
  cases hp
  exact ⟨p, rs, last, reply, rfl, hknown, hinbox, ha⟩

/-- A `LoadModel` request that is taken up loads the model of the abstract machine. -/
theorem Refines.next_load (h : s.Refines lite pb delegate_)
    (hwf : session lite pb delegate_ none s.socket_.delivered ≠ none)
    (hsession : session lite pb delegate_ none s.socket_.received =
      some (loaded, s.socket_.replies))
    {rest : List Bytes} (htakes : s.TakesCall f g rest between socket)
    (hname : f.bytes = LOAD_MODEL_RPC) :
    ∃ m r rs, rest = [] ∧ s.socket_.inbox = ⟨f.bytes, [g.bytes]⟩ :: rs ∧
      TfliteRunner.LoadModel lite .new (pb.payload g.bytes) delegate_ =
        some (⟨true, (lite.inputTensors m).map TfLiteTensor.meta,
          (lite.outputTensors m).map TfLiteTensor.meta⟩, r) ∧ r.Runs lite m ∧
      answer lite pb delegate_ loaded ⟨f.bytes, [g.bytes]⟩ =
        some (some m, [.stdResponse true "", modelMeta lite m]) := by
  obtain ⟨p, rs, last, reply, hrest, -, hinbox, ha⟩ := h.next hwf hsession htakes.upcoming
  cases hrest
  obtain ⟨m, hcreate, halloc, hnext⟩ := answer_load (hname ▸ ha)
  obtain ⟨r, hload, hruns⟩ := TfliteRunner.loadModel_runs hcreate halloc
  exact ⟨m, r, rs, rfl, hinbox, hload, hruns, ha.trans (congrArg some hnext)⟩

/-- An `InvokeModel` request that is taken up finds the runner of the loaded model, and
payloads that cover its inputs. -/
theorem Refines.next_invoke (h : s.Refines lite pb delegate_)
    (hwf : session lite pb delegate_ none s.socket_.delivered ≠ none)
    (hsession : session lite pb delegate_ none s.socket_.received =
      some (loaded, s.socket_.replies)) (hholds : Holds lite loaded s.tflite_runners_)
    {rest : List Bytes} (htakes : s.TakesCall f g rest between socket)
    (hname : f.bytes = INVOKE_MODEL_RPC) :
    ∃ m r rs, rest = [] ∧ s.socket_.inbox = ⟨f.bytes, [g.bytes]⟩ :: rs ∧
      s.tflite_runners_ = [r] ∧ r.Runs lite m ∧
      TfliteRunner.Covers (lite.inputTensors m) (pb.payloadArray g.bytes) ∧
      answer lite pb delegate_ loaded ⟨f.bytes, [g.bytes]⟩ = some (some m,
        [.payloadArray (TfliteRunner.modelOutputs lite m (pb.payloadArray g.bytes))]) := by
  obtain ⟨p, rs, last, reply, hrest, -, hinbox, ha⟩ := h.next hwf hsession htakes.upcoming
  cases hrest
  obtain ⟨m, hloaded, hcov, hnext⟩ := answer_invoke (hname ▸ ha)
  obtain ⟨r, hr, hruns⟩ : Holds lite (some m) s.tflite_runners_ := hloaded ▸ hholds
  exact ⟨m, r, rs, rfl, hinbox, hr, hruns, hcov, ha.trans (congrArg some hnext)⟩

/-- Sending the abstract machine's answer after the request was received. -/
theorem Refines.settled_answer (h : s.Refines lite pb delegate_)
    (hsession : session lite pb delegate_ none s.socket_.received =
      some (loaded, s.socket_.replies))
    (htakes : s.TakesCall f g [] between socket) {r : Request} {rs : List Request}
    (hinbox : s.socket_.inbox = r :: rs) {last : Option M} {reply : List Reply}
    (ha : answer lite pb delegate_ loaded r = some (last, reply)) (hv : v.socket_ = socket)
    (hholds : Holds lite last v.tflite_runners_) (hsettled : v.Settled reply t) :
    t.Refines lite pb delegate_ ∧ t.socket_.delivered = s.socket_.delivered ∧
      t.socket_.inbox = rs := by
  have howing : socket.Owing := htakes.payload.owing.mpr rfl
  subst hv
  cases hsettled with
  | refused hidle => exact absurd howing hidle
  | replied socket' _ hrep =>
    have h0 := h.settled.2
    have hbetween : between.nextIndex ≠ 0 := by
      rw [htakes.received.next (List.cons_ne_nil _ _)]
      exact Nat.succ_ne_zero _
    have hin : socket'.inbox = rs := by
      rw [hrep.inbox, htakes.payload.inbox, if_neg hbetween, htakes.received.inbox, if_pos h0,
        hinbox, List.tail_cons]
    have hdelivered : socket'.delivered = s.socket_.delivered := by
      rw [hrep.delivered, htakes.payload.delivered, htakes.received.delivered]
    have horder : socket'.delivered = socket'.received ++ socket'.inbox :=
      RepSocket.delivered_of_boundary hrep.idle hrep.next
    -- what was delivered is the same, and the inbox is shorter by `r`
    have hreceived : socket'.received = s.socket_.received ++ [r] := by
      rw [hdelivered, h.order, hinbox, hin, List.append_cons] at horder
      exact (List.append_cancel_right horder).symm
    have hreplies : socket'.replies = s.socket_.replies ++ [reply] := by
      rw [hrep.replies, htakes.payload.parts, List.nil_append]
      simp only [RepSocket.replies, htakes.payload.served, htakes.received.served]
    refine ⟨⟨⟨hrep.idle, hrep.next⟩, ⟨last, ?_, hholds⟩, horder, hholds.length_le⟩, hdelivered, hin⟩
    show session lite pb delegate_ none socket'.received = some (last, socket'.replies)
    rw [hreceived, hreplies]
    exact session_concat hsession ha

/-- A request that arrives waits for its turn. -/
theorem Refines.deliver (h : s.Refines lite pb delegate_) (r : Request) :
    Refines lite pb delegate_ { s with socket_ := s.socket_.deliver r } where
  settled := h.settled
  answers := h.answers
  order := by
    rw [RepSocket.delivered_deliver, h.order, List.append_assoc]
    rfl
  atMostOne := h.atMostOne

/-- **One iteration is one step of the abstract machine**: it takes the next request
off the inbox, if there is one, and answers it as the abstract machine does. -/
theorem refines_iterated {o : Outcome (Server M) Unit} (h : s.Refines lite pb delegate_)
    (hwf : session lite pb delegate_ none s.socket_.delivered ≠ none)
    (hit : Iterated lite pb delegate_ s o) :
    ∃ t, o = .ok () t ∧ t.Refines lite pb delegate_ ∧
      t.socket_.delivered = s.socket_.delivered ∧ t.socket_.inbox = s.socket_.inbox.tail := by
  obtain ⟨loaded, hsession, hholds⟩ := h.answers
  -- the ways that a session rules out contradict the answer of the abstract machine
  cases hit with
  | idle hup =>
    rw [RepSocket.inbox_of_upcoming_nil h.settled.1 hup]
    exact ⟨s, rfl, h, rfl, RepSocket.inbox_of_upcoming_nil h.settled.1 hup⟩
  -- a request of a session has its payload frame, and its name is known
  | noPayload f socket hname htakes =>
    obtain ⟨p, _, _, _, ⟨⟩, -⟩ := h.next hwf hsession htakes.upcoming
  | unknown f rest socket t hname htakes hsettled =>
    obtain ⟨p, _, _, _, -, hknown, -⟩ := h.next hwf hsession htakes.upcoming
    exact absurd hknown hname
  | loadModel f g rest between socket model_meta r t hname htakes hload hsettled =>
    obtain ⟨m, r', rs, rfl, hinbox, hload', hruns, ha⟩ :=
      h.next_load hwf hsession htakes hname
    cases hload.symm.trans hload'
    rw [hinbox]
    exact ⟨t, rfl, h.settled_answer hsession htakes hinbox ha rfl ⟨r, rfl, hruns⟩ hsettled⟩
  | loadNull f g rest between socket hname htakes hload =>
    obtain ⟨m, r', rs, -, -, hload', -⟩ := h.next_load hwf hsession htakes hname
    cases hload.symm.trans hload'
  | invokeModel f g rest between socket r rs it it' t hname htakes hrunners hcount hit hcopy
      hsettled =>
    obtain ⟨m, r', reqs, rfl, hinbox, hr', hruns, hcov, ha⟩ :=
      h.next_invoke hwf hsession hholds htakes hname
    cases hrunners.symm.trans hr'
    obtain ⟨it₀, it₀', hit₀, hcopy₀, hruns', houtputs⟩ := hruns.invoke hcov
    cases hit.symm.trans hit₀
    cases hcopy.symm.trans hcopy₀
    rw [houtputs] at hsettled
    rw [hinbox]
    exact ⟨t, rfl, h.settled_answer hsession htakes hinbox ha rfl ⟨_, rfl, hruns'⟩ hsettled⟩
  | invokeCount f g rest between socket r rs hname htakes hrunners hcount =>
    obtain ⟨m, r', reqs, -, -, hr', hruns, hcov, -⟩ :=
      h.next_invoke hwf hsession hholds htakes hname
    cases hrunners.symm.trans hr'
    rw [hruns.inputs, List.length_range] at hcount
    exact absurd (List.Forall₂.length_eq hcov).symm hcount
  | invokeNoRunner f g rest between socket hname htakes hrunners =>
    obtain ⟨m, r', reqs, -, -, hr', -⟩ := h.next_invoke hwf hsession hholds htakes hname
    cases hrunners.symm.trans hr'
  | invokeOverrun f g rest between socket r rs hname htakes hrunners hcount hcopy =>
    obtain ⟨m, r', reqs, -, -, hr', hruns, hcov, -⟩ :=
      h.next_invoke hwf hsession hholds htakes hname
    cases hrunners.symm.trans hr'
    obtain ⟨it, it', hit, hcopy', -⟩ := hruns.invoke hcov
    cases (hcopy it hit).symm.trans hcopy'
  | unloadModel f g rest between socket t hname htakes hsettled =>
    obtain ⟨p, reqs, last, reply, hrest, -, hinbox, ha⟩ := h.next hwf hsession htakes.upcoming
    cases hrest
    rw [hinbox]
    rw [hname] at ha hinbox
    cases answer_unload.symm.trans ha
    have hempty : Holds lite none [] := rfl
    exact ⟨t, rfl, h.settled_answer hsession htakes hinbox ha rfl hempty hsettled⟩

end Server

/-! ## Whole runs -/

/-- The requests that a run delivers, in order. -/
def requests : List Action → List Request
  | [] => []
  | .deliver r :: as => r :: requests as
  | .stop :: as | .iterate :: as => requests as

namespace Process

/-- The process is at its loop head and its server refines the abstract machine. -/
def Refines (lite : TensorFlowLite M) (pb : Protobuf) (delegate_ : DelegateType) :
    Process M → Prop
  | .loop s => s.Refines lite pb delegate_
  | _ => False

theorem session_of_append {loaded : Option M} {rs rs' : List Request}
    (h : session lite pb delegate_ loaded (rs ++ rs') ≠ none) :
    session lite pb delegate_ loaded rs ≠ none := by
  intro hnone
  rw [session_append, hnone] at h
  exact h rfl

/-- From any state that refines the abstract machine, a run that continues the
session refines it throughout. -/
theorem refines_run {s : Server M} (as : List Action) (h : s.Refines lite pb delegate_)
    (hwf : session lite pb delegate_ none (s.socket_.delivered ++ requests as) ≠ none) :
    (machine lite pb delegate_).Always (Refines lite pb delegate_) (.loop s) as := by
  -- what is delivered and what the rest of the run delivers is the same throughout
  induction as generalizing s with
  | nil => exact h
  | cons a as ih =>
    refine ⟨h, fun q hq => ?_⟩
    obtain ⟨s', r, hs, rfl, rfl⟩ | ⟨s', hs, rfl, rfl⟩ | ⟨s', o, hs, rfl, rfl, hit⟩ |
      ⟨s', r, hs, rfl, rfl⟩ := step_cases hq
    · cases hs
      refine ih (h.deliver r) ?_
      rw [RepSocket.delivered_deliver, List.append_assoc]
      exact hwf
    · cases hs
      exact ih ⟨h.settled, h.answers, h.order, h.atMostOne⟩ hwf
    · cases hs
      obtain ⟨t, rfl, ht, hdel, -⟩ := Server.refines_iterated h (session_of_append hwf) hit
      exact ih ht (hdel ▸ hwf)
    · cases hs

theorem refines_init : (Server.init : Server M).Refines lite pb delegate_ :=
  ⟨⟨id, rfl⟩, ⟨none, rfl, rfl⟩, rfl, Nat.zero_le 1⟩

/-- **An iteration answers the next request**, if one is waiting, and comes back to the
loop head. -/
theorem refines_iterate {s : Server M} (h : s.Refines lite pb delegate_)
    (hwf : session lite pb delegate_ none s.socket_.delivered ≠ none)
    (hrunning : s.is_running_ = true) :
    ∃ t, (machine lite pb delegate_).step (.loop s) .iterate = some (.loop t) ∧
      t.Refines lite pb delegate_ ∧ t.is_running_ = true ∧
      t.socket_.delivered = s.socket_.delivered ∧ t.socket_.inbox = s.socket_.inbox.tail := by
  have hbody : Server.Iterated lite pb delegate_ s (Server.body lite pb delegate_ s) :=
    s.body_iterated
  obtain ⟨t, ho, ht, hdel, hinbox⟩ := Server.refines_iterated h hwf hbody
  rw [ho] at hbody
  refine ⟨t, ?_, ht, hbody.is_running.trans hrunning, hdel, hinbox⟩
  simp only [machine, hrunning, if_true, ho]
  rfl

/-- A run without `stop` that continues the session comes to its end at the loop head. -/
theorem refines_exec {s : Server M} (as : List Action) (h : s.Refines lite pb delegate_)
    (hwf : session lite pb delegate_ none (s.socket_.delivered ++ requests as) ≠ none)
    (hrunning : s.is_running_ = true) (hstop : Action.stop ∉ as) :
    ∃ t, (machine lite pb delegate_).exec (.loop s) as = some (.loop t) ∧
      t.Refines lite pb delegate_ ∧ t.is_running_ = true ∧
      t.socket_.delivered = s.socket_.delivered ++ requests as := by
  induction as generalizing s with
  | nil => exact ⟨s, rfl, h, hrunning, (List.append_nil _).symm⟩
  | cons a as ih =>
    obtain ⟨ha, has⟩ := not_or.mp (List.mem_cons.not.mp hstop)
    cases a with
    | deliver r =>
      obtain ⟨t, hrun, ht, hr, hdel⟩ := ih (h.deliver r)
        (by rw [RepSocket.delivered_deliver, List.append_assoc]; exact hwf) hrunning has
      refine ⟨t, hrun, ht, hr, ?_⟩
      rw [hdel, RepSocket.delivered_deliver, List.append_assoc]
      rfl
    | stop => exact absurd rfl ha
    | iterate =>
      obtain ⟨u, hstep, hu, hur, hudel, -⟩ := refines_iterate h (session_of_append hwf) hrunning
      obtain ⟨t, hrun, ht, hr, hdel⟩ := ih hu (hudel ▸ hwf) hur has
      exact ⟨t, Machine.exec_cons _ |>.mpr ⟨_, hstep, hrun⟩, ht, hr,
        hdel.trans (by rw [hudel]; rfl)⟩

/-- Iterations work through the inbox. -/
theorem refines_iterations {s : Server M} (n : Nat) (h : s.Refines lite pb delegate_)
    (hwf : session lite pb delegate_ none s.socket_.delivered ≠ none)
    (hrunning : s.is_running_ = true) :
    ∃ t, (machine lite pb delegate_).exec (.loop s) (List.replicate n .iterate) = some (.loop t) ∧
      t.Refines lite pb delegate_ ∧ t.socket_.delivered = s.socket_.delivered ∧
      t.socket_.inbox = s.socket_.inbox.drop n := by
  induction n generalizing s with
  | zero => exact ⟨s, rfl, h, rfl, rfl⟩
  | succ n ih =>
    obtain ⟨u, hstep, hu, hur, hudel, hinbox⟩ := refines_iterate h hwf hrunning
    obtain ⟨t, hrun, ht, hdel, htinbox⟩ := ih hu (hudel ▸ hwf) hur
    refine ⟨t, Machine.exec_cons _ |>.mpr ⟨_, hstep, hrun⟩, ht, hdel.trans hudel, ?_⟩
    rw [htinbox, hinbox, List.drop_tail]

/-- **The server refines the abstract machine**: in every run whose requests form a
session, at every loop head the replies are those of the abstract machine to the
requests received so far, the runner vector holds its model, and at most one runner.
While the server is not stopped, as many iterations as requests answer all of them. -/
theorem session_refines (lite : TensorFlowLite M) (pb : Protobuf) (delegate_ : DelegateType)
    (as : List Action) (hsession : session lite pb delegate_ none (requests as) ≠ none) :
    (machine lite pb delegate_).Always (Refines lite pb delegate_) (.loop .init) as ∧
    (Action.stop ∉ as → ∀ n, (requests as).length ≤ n → ∃ s loaded,
      (machine lite pb delegate_).exec (.loop .init) (as ++ List.replicate n .iterate) =
        some (.loop s) ∧
      session lite pb delegate_ none (requests as) = some (loaded, s.socket_.replies)) := by
  refine ⟨refines_run as refines_init hsession, fun hstop n hn => ?_⟩
  obtain ⟨s, hrun, hs, hrunning, hdel⟩ := refines_exec as refines_init hsession rfl hstop
  have hdel' : s.socket_.delivered = requests as := hdel
  obtain ⟨t, hrun', ht, htdel, hinbox⟩ := refines_iterations n hs (hdel' ▸ hsession) hrunning
  obtain ⟨loaded, hanswers, -⟩ := ht.answers
  refine ⟨t, loaded, Machine.exec_append _ |>.mpr ⟨_, hrun, hrun'⟩, ?_⟩
  -- nothing is left in the inbox, so all requests were received
  have hlen : s.socket_.inbox.length ≤ n := by
    rw [← hdel', hs.order, List.length_append] at hn
    omega
  have hreceived : requests as = t.socket_.received := by
    rw [← hdel', ← htdel, ht.order, hinbox, List.drop_eq_nil_of_le hlen, List.append_nil]
  rw [hreceived]
  exact hanswers

/-- A session of all three requests over a model that copies two bytes, with two of the
requests arriving together. -/
theorem session_refines_copying :
    session .copying .short .CPU none
      [⟨LOAD_MODEL_RPC, [[0x0A, 1, 2]]⟩, ⟨INVOKE_MODEL_RPC, [[0x0A, 2, 7, 8]]⟩,
        ⟨UNLOAD_MODEL_RPC, [[]]⟩] ≠ none ∧
    (machine .copying .short .CPU).Always (Refines .copying .short .CPU) (.loop .init)
      [.deliver ⟨LOAD_MODEL_RPC, [[0x0A, 1, 2]]⟩, .deliver ⟨INVOKE_MODEL_RPC, [[0x0A, 2, 7, 8]]⟩,
        .iterate, .iterate, .deliver ⟨UNLOAD_MODEL_RPC, [[]]⟩, .iterate] :=
  ⟨by decide, (session_refines .copying .short .CPU _ (by decide)).1⟩

end Process

end Anx.Tflite
