import Anx.Tflite.RpcServer

/-!
# One reply per request of the TensorFlow Lite server

`Process.OneReply` says that at the loop head the server has sent as many complete
replies as it has completely received requests, so that its socket can receive.

- `Answerable`: the condition on one iteration, in terms of the frames it is about
  to receive and of the runner it finds;
- `Process.loadedRunners_step`: every runner of the vector is as `LoadModel` left it,
  whatever the clients send;
- `Server.settled_iterated_iff`: an iteration from a settled loop head settles
  exactly when it is answerable, one case for each way through the loop body;
- `Process.loop_oneReply_iff`: **the server answers every request of a run exactly when
  all iterations of the run are answerable**.
-/

namespace Anx.Tflite

open Anx.Lib Anx.Comms

variable {M : Type}

section

variable (lite : TensorFlowLite M) (pb : Protobuf) (delegate_ : DelegateType)

/-- What an iteration that takes up the frames `name :: rest` needs in order to
leave no reply owed: a payload frame for every known name, a model that can be
interpreted, and for `InvokeModel` a loaded model and payloads whose strings, with the
null byte behind them, fill its input tensors. (When their number differs no reply is
sent, so none may be owed: there must be a surplus frame.) -/
def Answerable (s : Server M) (name : Bytes) (rest : List Bytes) : Prop :=
  if name = LOAD_MODEL_RPC then
    ∃ p rest', rest = p :: rest' ∧
      (lite.interpreterCreate (pb.payload p) delegate_).isSome
  else if name = INVOKE_MODEL_RPC then
    ∃ p rest' r rs, rest = p :: rest' ∧ s.tflite_runners_ = r :: rs ∧
      if (pb.payloadArray p).length = r.input_tensors_.length then
        TfliteRunner.Readable (r.inputs lite) (pb.payloadArray p)
      else
        rest' ≠ []
  else if name = UNLOAD_MODEL_RPC then
    rest ≠ []
  else
    True

/-- The condition on one step of the process. -/
def Process.Answerable : Process M → Action → Prop
  | .loop s, .iterate =>
    match s.socket_.upcoming with
    | [] => True
    | name :: rest => Tflite.Answerable lite pb delegate_ s name rest
  | _, _ => True

end

section

variable {lite : TensorFlowLite M} {pb : Protobuf} {delegate_ : DelegateType}

/-! ## The runners -/

/-- Every runner is as some `LoadModel` left it. -/
def Server.LoadedRunners (lite : TensorFlowLite M) (s : Server M) : Prop :=
  ∀ r ∈ s.tflite_runners_, r.Loaded lite

theorem TfliteRunner.loadModel_loaded {bytes : Bytes} {model_meta : ModelMeta} {r : TfliteRunner M}
    (h : TfliteRunner.LoadModel lite .new bytes delegate_ = some (model_meta, r)) :
    r.Loaded lite := by
  match hcreate : lite.interpreterCreate bytes delegate_ with
  | none => simp [TfliteRunner.LoadModel, hcreate] at h
  | some m =>
    by_cases halloc : lite.allocateTensors m = true
    · obtain ⟨r', hr', hruns⟩ := TfliteRunner.loadModel_runs hcreate halloc
      cases h.symm.trans hr'
      exact .inl ⟨m, hruns⟩
    · obtain ⟨r', hr', hun⟩ := TfliteRunner.loadModel_unallocated hcreate halloc
      cases h.symm.trans hr'
      exact .inr hun

/-- `LoadModel` on a new runner is defined exactly when there is an interpreter. -/
theorem TfliteRunner.loadModel_eq_none_iff {bytes : Bytes} :
    TfliteRunner.LoadModel lite .new bytes delegate_ = none ↔
      lite.interpreterCreate bytes delegate_ = none := by
  cases hcreate : lite.interpreterCreate bytes delegate_ with
  | none => simp [TfliteRunner.LoadModel, hcreate]
  | some m =>
    simp only [TfliteRunner.LoadModel, hcreate, reduceCtorEq, iff_false]
    split <;> simp

namespace Server

variable {s t v : Server M} {parts : List Reply}

theorem Settled.runners (h : v.Settled parts t) : t.tflite_runners_ = v.tflite_runners_ := by
  cases h <;> rfl

theorem Settled.not_owing (h : v.Settled parts t) : ¬ t.socket_.Owing := by
  cases h with
  | replied socket howing hreplied => exact hreplied.idle
  | refused hidle => exact hidle

/-- An iteration keeps the runners loaded. -/
theorem Iterated.loadedRunners (hs : s.LoadedRunners lite)
    (h : Iterated lite pb delegate_ s (.ok () t)) : t.LoadedRunners lite := by
  cases h with
  | idle hup => exact hs
  | noPayload f socket hname htakes => exact hs
  | unknown f rest socket _ hname htakes hsettled => exact fun r hr => hs r (hsettled.runners ▸ hr)
  | loadModel f g rest between socket model_meta r _ hname htakes hload hsettled =>
    intro r' hr'
    rw [hsettled.runners] at hr'
    rw [List.mem_singleton.mp hr']
    exact TfliteRunner.loadModel_loaded hload
  | invokeModel f g rest between socket r rs it it' _ hname htakes hrunners hcount hit hcopy
      hsettled =>
    intro r' hr'
    rw [hsettled.runners] at hr'
    have hloaded : r.Loaded lite := hs r (hrunners ▸ List.mem_cons_self)
    rcases List.mem_cons.mp hr' with rfl | hrest
    · -- invoking changes the contents of the tensors only
      obtain ⟨it₀, it₀', hit₀, hcopy₀, hinv⟩ :=
        hloaded.invoke (hloaded.readable hit hcount hcopy)
      cases hit.symm.trans hit₀
      cases hcopy.symm.trans hcopy₀
      exact hinv
    · exact hs r' (hrunners ▸ List.mem_cons_of_mem _ hrest)
  | invokeCount f g rest between socket r rs hname htakes hrunners hcount => exact hs
  | unloadModel f g rest between socket _ hname htakes hsettled =>
    intro r hr
    rw [hsettled.runners] at hr
    cases hr

/-! ## One iteration -/

/-- The iteration came back to the loop head with no reply owed. -/
def SettledOutcome : Outcome (Server M) Unit → Prop
  | .ok _ t => ¬ t.socket_.Owing
  | _ => False

theorem answerable_iterate {name : Bytes} {rest : List Bytes}
    (h : s.socket_.upcoming = name :: rest) :
    (Process.loop s).Answerable lite pb delegate_ .iterate ↔
      Answerable lite pb delegate_ s name rest := by
  simp only [Process.Answerable, h]

theorem answerable_load {p : Bytes} {rest : List Bytes} :
    Answerable lite pb delegate_ s LOAD_MODEL_RPC (p :: rest) ↔
      (lite.interpreterCreate (pb.payload p) delegate_).isSome := by
  rw [Answerable, if_pos rfl]
  constructor
  · rintro ⟨_, _, ⟨⟩, h⟩
    exact h
  · exact fun h => ⟨p, rest, rfl, h⟩

theorem answerable_invoke {p : Bytes} {rest : List Bytes} {r : TfliteRunner M}
    {rs : List (TfliteRunner M)} (hrunners : s.tflite_runners_ = r :: rs) :
    Answerable lite pb delegate_ s INVOKE_MODEL_RPC (p :: rest) ↔
      if (pb.payloadArray p).length = r.input_tensors_.length then
        TfliteRunner.Readable (r.inputs lite) (pb.payloadArray p)
      else rest ≠ [] := by
  rw [Answerable, if_neg load_ne_invoke.symm, if_pos rfl]
  constructor
  · rintro ⟨_, _, _, _, ⟨⟩, hr, h⟩
    cases hrunners.symm.trans hr
    exact h
  · exact fun h => ⟨p, rest, r, rs, rfl, hrunners, h⟩

theorem answerable_unload {rest : List Bytes} :
    Answerable lite pb delegate_ s UNLOAD_MODEL_RPC rest ↔ rest ≠ [] := by
  rw [Answerable, if_neg load_ne_unload.symm, if_neg invoke_ne_unload.symm, if_pos rfl]

theorem answerable_unknown {name : Bytes} {rest : List Bytes} (h : name ∉ rpcNames) :
    Answerable lite pb delegate_ s name rest := by
  simp only [rpcNames, List.mem_cons, List.not_mem_nil, or_false, not_or] at h
  rw [Answerable, if_neg h.1, if_neg h.2.1, if_neg h.2.2]
  trivial

/-- No known name is answerable without a payload frame. -/
theorem not_answerable_nil {name : Bytes} (h : name ∈ rpcNames) :
    ¬ Answerable lite pb delegate_ s name [] := by
  intro ha
  simp only [rpcNames, List.mem_cons, List.not_mem_nil, or_false] at h
  rcases h with rfl | rfl | rfl
  · rw [Answerable, if_pos rfl] at ha
    obtain ⟨_, _, ⟨⟩, -⟩ := ha
  · rw [Answerable, if_neg load_ne_invoke.symm, if_pos rfl] at ha
    obtain ⟨_, _, _, _, ⟨⟩, -⟩ := ha
  · exact answerable_unload.mp ha rfl

/-- **One iteration**: from a settled loop head the server comes back settled
exactly when the frames it takes up are answerable. -/
theorem settled_iterated_iff {o : Outcome (Server M) Unit} (hs : s.LoadedRunners lite)
    (hidle : ¬ s.socket_.Owing) (h : Iterated lite pb delegate_ s o) :
    SettledOutcome o ↔ (Process.loop s).Answerable lite pb delegate_ .iterate := by
  cases h with
  | idle hup =>
    simp only [Process.Answerable, hup]
    exact ⟨fun _ => trivial, fun _ => hidle⟩
  | noPayload f socket hname htakes =>
    rw [answerable_iterate htakes.upcoming]
    exact ⟨fun hset => absurd (htakes.received.owing.mpr rfl) hset,
      fun ha => absurd ha (not_answerable_nil hname)⟩
  | unknown f rest socket t hname htakes hsettled =>
    rw [answerable_iterate htakes.upcoming]
    exact ⟨fun _ => answerable_unknown hname, fun _ => hsettled.not_owing⟩
  | loadModel f g rest between socket model_meta r t hname htakes hload hsettled =>
    rw [answerable_iterate htakes.upcoming, hname]
    refine ⟨fun _ => answerable_load.mpr ?_, fun _ => hsettled.not_owing⟩
    rw [Option.isSome_iff_ne_none, Ne, ← TfliteRunner.loadModel_eq_none_iff, hload]
    exact Option.some_ne_none _
  | loadNull f g rest between socket hname htakes hload =>
    rw [answerable_iterate htakes.upcoming, hname]
    refine ⟨False.elim, fun ha => ?_⟩
    rw [answerable_load, TfliteRunner.loadModel_eq_none_iff.mp hload] at ha
    cases ha
  | invokeModel f g rest between socket r rs it it' t hname htakes hrunners hcount hit hcopy
      hsettled =>
    rw [answerable_iterate htakes.upcoming, hname, answerable_invoke hrunners, if_pos hcount]
    have hloaded : r.Loaded lite := hs r (hrunners ▸ List.mem_cons_self)
    exact ⟨fun _ => hloaded.readable hit hcount hcopy, fun _ => hsettled.not_owing⟩
  | invokeCount f g rest between socket r rs hname htakes hrunners hcount =>
    rw [answerable_iterate htakes.upcoming, hname, answerable_invoke hrunners, if_neg hcount]
    -- no reply is sent, so none may be owed: the payload is not the last frame
    exact not_congr htakes.payload.owing
  | invokeNoRunner f g rest between socket hname htakes hrunners =>
    rw [answerable_iterate htakes.upcoming, hname]
    refine ⟨False.elim, fun ha => ?_⟩
    rw [Answerable, if_neg load_ne_invoke.symm, if_pos rfl] at ha
    obtain ⟨_, _, _, _, -, hr, -⟩ := ha
    cases hrunners.symm.trans hr
  | invokeOverrun f g rest between socket r rs hname htakes hrunners hcount hcopy =>
    rw [answerable_iterate htakes.upcoming, hname, answerable_invoke hrunners, if_pos hcount]
    have hloaded : r.Loaded lite := hs r (hrunners ▸ List.mem_cons_self)
    refine ⟨False.elim, fun hread => ?_⟩
    obtain ⟨it, it', hit, hcopy', -⟩ := hloaded.invoke hread
    cases (hcopy it hit).symm.trans hcopy'
  | unloadModel f g rest between socket t hname htakes hsettled =>
    rw [answerable_iterate htakes.upcoming, hname, answerable_unload]
    exact ⟨fun _ => List.cons_ne_nil _ _, fun _ => hsettled.not_owing⟩

end Server

/-! ## Whole runs -/

namespace Process

/-- The runners of a live process are loaded. -/
def LoadedRunners (lite : TensorFlowLite M) : Process M → Prop
  | .loop s => s.LoadedRunners lite
  | _ => True

theorem loadedRunners_step (p : Process M) (a : Action) (q : Process M)
    (hp : p.LoadedRunners lite) (h : (machine lite pb delegate_).step p a = some q) :
    q.LoadedRunners lite := by
  obtain ⟨s, r, rfl, rfl, rfl⟩ | ⟨s, rfl, rfl, rfl⟩ | ⟨s, o, rfl, rfl, rfl, hit⟩ |
    ⟨s, r, rfl, rfl, rfl⟩ := step_cases h
  · exact hp
  · exact hp
  · cases o with
    | ok u t => exact hit.loadedRunners hp
    | throw t => trivial
    | hang t => trivial
    | undef t => trivial
  · trivial

theorem oneReply_loop_iff {s : Server M} : (Process.loop s).OneReply ↔ ¬ s.socket_.Owing :=
  RepSocket.settled_iff

theorem oneReply_ofOutcome_iff {o : Outcome (Server M) Unit} :
    (ofOutcome o).OneReply ↔ Server.SettledOutcome o := by
  cases o with
  | ok u t => exact oneReply_loop_iff
  | throw t => exact Iff.rfl
  | hang t => exact Iff.rfl
  | undef t => exact Iff.rfl

theorem oneReply_step (p : Process M) (a : Action) (q : Process M)
    (hloaded : p.LoadedRunners lite) (hp : p.OneReply)
    (h : (machine lite pb delegate_).step p a = some q) :
    q.OneReply ↔ p.Answerable lite pb delegate_ a := by
  obtain ⟨s, r, rfl, rfl, rfl⟩ | ⟨s, rfl, rfl, rfl⟩ | ⟨s, o, rfl, rfl, rfl, hit⟩ |
    ⟨s, r, rfl, rfl, rfl⟩ := step_cases h
  · have hidle : ¬ s.socket_.Owing := oneReply_loop_iff.mp hp
    exact ⟨fun _ => trivial, fun _ => oneReply_loop_iff.mpr hidle⟩
  · exact ⟨fun _ => trivial, fun _ => hp⟩
  · exact oneReply_ofOutcome_iff.trans
      (Server.settled_iterated_iff hloaded (oneReply_loop_iff.mp hp) hit)
  · exact hp.elim

/-- **Exactly when the TensorFlow Lite server answers every request**: a run keeps
`OneReply` at every loop head if and only if all its iterations are answerable. -/
theorem loop_oneReply_iff (lite : TensorFlowLite M) (pb : Protobuf) (delegate_ : DelegateType)
    (as : List Action) :
    (machine lite pb delegate_).Always OneReply (.loop .init) as ↔
      (machine lite pb delegate_).Guarded (Answerable lite pb delegate_) (.loop .init) as :=
  Machine.always_iff_guarded loadedRunners_step oneReply_step as
    (fun _ hr => (nomatch hr)) (oneReply_loop_iff.mpr id)

/-- The documented request `UnloadModel`, of one frame, is received and never answered. -/
theorem loop_oneReply_fails :
    ¬ ∀ as : List Action, (machine .copying .short .CPU).Always OneReply (.loop .init) as := by
  intro h
  have hrun := h [.deliver ⟨UNLOAD_MODEL_RPC, []⟩, .iterate]
  have hlast : OneReply _ := (hrun.2 _ rfl).2 _ rfl
  exact absurd hlast.1 (by decide)

end Process

end

end Anx.Tflite
