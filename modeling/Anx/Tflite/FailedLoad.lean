import Anx.Tflite.OneReply

/-!
# A model load that fails

`LoadModel` says in the field `valid` of what it returns whether the tensors could be
allocated. The loop does not look at it: it replies success, and keeps the runner, which has
an interpreter without tensors.

- `Server.invoked`: the interpreter that the InvokeModel branch invokes;
- `ReportsFailure`: a reply to `LoadModel` tells whether the load was valid, and what is
  invoked has its tensors;
- `Allocates`: the condition on one iteration, in terms of the model and of the runner;
- `Process.reportsFailure_iff`: **failed loads are reported and not invoked exactly if all
  iterations meet it.**
-/

namespace Anx.Tflite

open Anx.Lib Anx.Comms

variable {M : Type}

section

variable (lite : TensorFlowLite M) (pb : Protobuf) (delegate_ : DelegateType)

/-- The interpreter that the InvokeModel branch invokes for the message `p`, if it comes to
that. -/
def Server.invoked (s : Server M) (p : Bytes) : Option (Interpreter M) :=
  s.tflite_runners_.head?.bind fun r =>
    if (pb.payloadArray p).length = r.input_tensors_.length then
      r.interpreter_.bind fun it =>
        TfliteRunner.memcpyInputs lite it r.input_tensors_ (pb.payloadArray p)
    else none

/-- An iteration does right by failed loads. -/
structure Server.ReportsFailure (s : Server M) : Prop where
  /-- The reply to `LoadModel`, if one is sent, is a success exactly if the load was valid. -/
  reports : ∀ p rest, s.socket_.upcoming = LOAD_MODEL_RPC :: p :: rest →
    ∀ model_meta r, TfliteRunner.LoadModel lite .new (pb.payload p) delegate_ =
      some (model_meta, r) → ∀ t, s.body lite pb delegate_ = .ok () t →
    ∀ success message parts,
      t.socket_.replies = s.socket_.replies ++ [.stdResponse success message :: parts] →
      success = model_meta.valid
  /-- No interpreter is invoked whose tensors are not allocated. -/
  invokes : ∀ p rest, s.socket_.upcoming = INVOKE_MODEL_RPC :: p :: rest →
    ∀ it, s.invoked lite pb p = some it → it.allocated = true

/-- The tensors of a model that is loaded can be allocated, and a runner whose tensors are
not is not invoked with no payloads. -/
structure Server.Allocates (s : Server M) : Prop where
  load : ∀ p, s.socket_.upcoming = [LOAD_MODEL_RPC, p] →
    ∀ m, lite.interpreterCreate (pb.payload p) delegate_ = some m → lite.allocateTensors m = true
  invoke : ∀ p rest, s.socket_.upcoming = INVOKE_MODEL_RPC :: p :: rest →
    ∀ r, s.tflite_runners_.head? = some r → r.Unallocated → pb.payloadArray p ≠ []

@[inherit_doc Server.ReportsFailure] def Process.ReportsFailure : Process M → Action → Prop
  | .loop s, .iterate => s.ReportsFailure lite pb delegate_
  | _, _ => True

@[inherit_doc Server.Allocates] def Process.Allocates : Process M → Action → Prop
  | .loop s, .iterate => s.Allocates lite pb delegate_
  | _, _ => True

end

variable {lite : TensorFlowLite M} {pb : Protobuf} {delegate_ : DelegateType}

namespace TfliteRunner

/-- A load is valid exactly if the tensors are allocated. -/
theorem loadModel_valid {bytes : Bytes} {m : M} {model_meta : ModelMeta} {r : TfliteRunner M}
    (hcreate : lite.interpreterCreate bytes delegate_ = some m)
    (hload : LoadModel lite .new bytes delegate_ = some (model_meta, r)) :
    model_meta.valid = lite.allocateTensors m := by
  by_cases halloc : lite.allocateTensors m = true
  · obtain ⟨r', hr', -⟩ := loadModel_runs hcreate halloc
    cases hload.symm.trans hr'
    exact halloc.symm
  · obtain ⟨r', hr', -⟩ := loadModel_unallocated hcreate halloc
    cases hload.symm.trans hr'
    exact (Bool.eq_false_of_not_eq_true halloc).symm

/-- Copying payloads allocates nothing. -/
theorem memcpyInputs_allocated {it it' : Interpreter M} {tensors : List Nat}
    {payloads : List Bytes} (h : memcpyInputs lite it tensors payloads = some it') :
    it'.allocated = it.allocated := by
  induction payloads generalizing it tensors with
  | nil =>
    cases tensors <;> cases h <;> rfl
  | cons p payloads ih =>
    cases tensors with
    | nil =>
      cases h
      rfl
    | cons k tensors =>
      obtain ⟨it₁, hcopy, hrest⟩ := Option.bind_eq_some_iff.mp h
      refine (ih hrest).trans ?_
      rw [memcpyInput] at hcopy
      split at hcopy
      · cases hcopy
      · split at hcopy
        · cases hcopy
          rfl
        · cases hcopy

end TfliteRunner

namespace Server

variable {s : Server M}

/-! ## LoadModel -/

/-- An iteration in which `LoadModel` returns replies and keeps the runner. -/
theorem Iterated.of_load {o : Outcome (Server M) Unit} {p : Bytes} {rest : List Bytes}
    {model_meta : ModelMeta} {r : TfliteRunner M} (h : Iterated lite pb delegate_ s o)
    (hup : s.socket_.upcoming = LOAD_MODEL_RPC :: p :: rest)
    (hload : TfliteRunner.LoadModel lite .new (pb.payload p) delegate_ = some (model_meta, r)) :
    ∃ f g between socket t, s.TakesCall f g rest between socket ∧ o = .ok () t ∧
      (((s.took f between).called f g socket).withRunners [r]).Settled [.stdResponse true "",
        .modelMeta model_meta.input_tensors model_meta.output_tensors] t := by
  -- the name tells which way was taken
  have hload_name : ∀ {name : Bytes} {rest' : List Bytes},
      s.socket_.upcoming = name :: rest' → name = LOAD_MODEL_RPC :=
    fun hup' => (List.cons.inj (hup'.symm.trans hup)).1
  have hinvoke : ∀ {f g : Frame} {rest' : List Bytes} {between socket : RepSocket Reply},
      f.bytes = INVOKE_MODEL_RPC → ¬ s.TakesCall f g rest' between socket :=
    fun hname htakes => load_ne_invoke ((hload_name htakes.upcoming).symm.trans hname)
  cases h with
  | idle hup' => cases hup'.symm.trans hup
  | noPayload f socket hname htakes =>
    exact nomatch (List.cons.inj (htakes.upcoming.symm.trans hup)).2
  | unknown f rest' socket t hname htakes hsettled =>
    exact absurd (by simp [hload_name htakes.upcoming, rpcNames]) hname
  | loadModel f g rest' between socket model_meta' r' t hname htakes hload' hsettled =>
    obtain ⟨rfl, rfl⟩ := List.cons.inj (List.cons.inj (htakes.upcoming.symm.trans hup)).2
    cases hload.symm.trans hload'
    exact ⟨f, g, between, socket, t, htakes, rfl, hsettled⟩
  | loadNull f g rest' between socket hname htakes hnull =>
    obtain ⟨rfl, rfl⟩ := List.cons.inj (List.cons.inj (htakes.upcoming.symm.trans hup)).2
    cases hload.symm.trans hnull
  | invokeModel f g rest' between socket r' rs it it' t hname htakes =>
    exact absurd htakes (hinvoke hname)
  | invokeCount f g rest' between socket r' rs hname htakes => exact absurd htakes (hinvoke hname)
  | invokeNoRunner f g rest' between socket hname htakes => exact absurd htakes (hinvoke hname)
  | invokeOverrun f g rest' between socket r' rs hname htakes =>
    exact absurd htakes (hinvoke hname)
  | unloadModel f g rest' between socket t hname htakes =>
    exact absurd ((hload_name htakes.upcoming).symm.trans hname) load_ne_unload

/-- The replies after `LoadModel` returned: one more, unless the request has more frames. -/
theorem load_replies {p : Bytes} {rest : List Bytes} {model_meta : ModelMeta} {r : TfliteRunner M}
    (hup : s.socket_.upcoming = LOAD_MODEL_RPC :: p :: rest)
    (hload : TfliteRunner.LoadModel lite .new (pb.payload p) delegate_ = some (model_meta, r)) :
    ∃ t, s.body lite pb delegate_ = .ok () t ∧ t.socket_.replies =
      if rest = [] then s.socket_.replies ++ [[.stdResponse true "",
        .modelMeta model_meta.input_tensors model_meta.output_tensors]]
      else s.socket_.replies := by
  obtain ⟨f, g, between, socket, t, htakes, hbody, hsettled⟩ :=
    Iterated.of_load s.body_iterated hup hload
  have hserved : socket.replies = s.socket_.replies := by
    rw [RepSocket.replies, htakes.payload.served, htakes.received.served]
    rfl
  refine ⟨t, hbody, ?_⟩
  cases hsettled with
  | replied socket' howing hreplied =>
    rw [if_pos (htakes.payload.owing.mp howing), hreplied.replies]
    show socket.replies ++ [socket.parts ++ _] = _
    rw [hserved, htakes.payload.parts, List.nil_append]
  | refused hidle =>
    rw [if_neg fun hrest => hidle (htakes.payload.owing.mpr hrest)]
    exact hserved

/-- `LoadModel` reports a failure exactly if the tensors of the model are allocated. -/
theorem reports_iff :
    (∀ p rest, s.socket_.upcoming = LOAD_MODEL_RPC :: p :: rest →
      ∀ model_meta r, TfliteRunner.LoadModel lite .new (pb.payload p) delegate_ =
        some (model_meta, r) → ∀ t, s.body lite pb delegate_ = .ok () t →
      ∀ success message parts,
        t.socket_.replies = s.socket_.replies ++ [.stdResponse success message :: parts] →
        success = model_meta.valid) ↔
    ∀ p, s.socket_.upcoming = [LOAD_MODEL_RPC, p] →
      ∀ m, lite.interpreterCreate (pb.payload p) delegate_ = some m →
        lite.allocateTensors m = true := by
  constructor
  · intro h p hup m hcreate
    obtain ⟨⟨model_meta, r⟩, hload⟩ := Option.ne_none_iff_exists'.mp fun hnone =>
      Option.some_ne_none m (hcreate.symm.trans (TfliteRunner.loadModel_eq_none_iff.mp hnone))
    obtain ⟨t, hbody, hreplies⟩ := load_replies hup hload
    rw [← TfliteRunner.loadModel_valid hcreate hload]
    exact (h p [] hup model_meta r hload t hbody true "" _ hreplies).symm
  · intro h p rest hup model_meta r hload t hbody success message parts hsent
    obtain ⟨t', hbody', hreplies⟩ := load_replies hup hload
    cases hbody.symm.trans hbody'
    by_cases hrest : rest = []
    · subst hrest
      rw [if_pos rfl] at hreplies
      obtain ⟨m, hcreate⟩ := Option.ne_none_iff_exists'.mp fun hnone =>
        Option.some_ne_none _ (hload.symm.trans (TfliteRunner.loadModel_eq_none_iff.mpr hnone))
      rw [TfliteRunner.loadModel_valid hcreate hload, h p hup m hcreate]
      have hreply := List.append_cancel_left (hsent.symm.trans hreplies)
      cases hreply
      rfl
    · -- no reply is sent while frames of the request are to come
      rw [if_neg hrest] at hreplies
      exact absurd (hsent.symm.trans hreplies) (by simp)

/-! ## InvokeModel -/

section

variable {u v : Server M} {f g : Frame}
  (hk : ∀ k : Frame → Prog (Server M) Unit,
    (recv >>= fun data_msg => call f data_msg >>= fun _ => k data_msg) u = k g v)

include hk

/-- The branch invokes the interpreter `invoked`, and replies with its outputs. -/
theorem invokeModelTry_of_invoked {it : Interpreter M} (h : v.invoked lite pb g.bytes = some it) :
    ∃ r rs, v.tflite_runners_ = r :: rs ∧ invokeModelTry lite pb f u =
      send (.payloadArray (TfliteRunner.outputs (TfliteRunner.InvokeModel lite it)
        r.output_tensors_)) false
        ((v.afterCopies (TfliteRunner.copies (r.inputs lite) (pb.payloadArray g.bytes))).withRunners
          ({ r with interpreter_ := some (TfliteRunner.InvokeModel lite it) } :: rs)) := by
  obtain ⟨r, hr, h⟩ := Option.bind_eq_some_iff.mp h
  obtain ⟨rs, hrunners⟩ := List.head?_eq_some_iff.mp hr
  obtain ⟨hcount, h⟩ := Option.ite_none_right_eq_some.mp h
  obtain ⟨it₀, hit, hcopy⟩ := Option.bind_eq_some_iff.mp h
  exact ⟨r, rs, hrunners, invokeModelTry_sends hk hrunners hcount hit hcopy⟩

/-- Otherwise it ends before that. -/
theorem invokeModelTry_of_invoked_none (h : v.invoked lite pb g.bytes = none) :
    invokeModelTry lite pb f u = .ok () v ∨ invokeModelTry lite pb f u = .undef v := by
  cases hrunners : v.tflite_runners_ with
  | nil => exact .inr (invokeModelTry_noRunner hk hrunners)
  | cons r rs =>
    by_cases hcount : (pb.payloadArray g.bytes).length = r.input_tensors_.length
    · rw [invoked, hrunners, List.head?_cons, Option.bind_some, if_pos hcount] at h
      exact .inr (invokeModelTry_overrun hk hrunners hcount (Option.bind_eq_none_iff.mp h))
    · exact .inl (invokeModelTry_count hk hrunners hcount)

end

/-- The branch invokes an interpreter without tensors exactly if it is asked to with no
payloads. -/
theorem invoked_allocated_iff (hs : s.LoadedRunners lite) (p : Bytes) :
    (∀ it, s.invoked lite pb p = some it → it.allocated = true) ↔
      ∀ r, s.tflite_runners_.head? = some r → r.Unallocated → pb.payloadArray p ≠ [] := by
  rw [invoked]
  cases hrunners : s.tflite_runners_ with
  | nil => exact iff_of_true (fun it h => (nomatch h)) fun r h => (nomatch h)
  | cons r rs =>
    simp only [List.head?_cons, Option.bind_some, Option.some_inj, forall_eq']
    rcases hs r (hrunners ▸ List.mem_cons_self) with ⟨m, hm⟩ | hun
    · obtain ⟨it, hit, -, halloc, -⟩ := hm.interpreter
      refine iff_of_true (fun it' h => ?_) fun hun => ?_
      · obtain ⟨-, h⟩ := Option.ite_none_right_eq_some.mp h
        rw [hit, Option.bind_some] at h
        rw [TfliteRunner.memcpyInputs_allocated h, halloc]
      · obtain ⟨it', hit', hnot⟩ := hun.interpreter
        cases hit.symm.trans hit'
        exact absurd (halloc.symm.trans hnot) (by decide)
    · obtain ⟨it, hit, hnot⟩ := hun.interpreter
      rw [hun.inputs, hit]
      constructor
      · rintro h - hnil
        have halloc := h it (by rw [hnil]; rfl)
        exact absurd (halloc.symm.trans hnot) (by decide)
      · intro h it' hinv
        obtain ⟨hlen, -⟩ := Option.ite_none_right_eq_some.mp hinv
        exact absurd (List.eq_nil_of_length_eq_zero hlen) (h hun)

/-- **One iteration** does right by failed loads exactly if it meets the condition. -/
theorem reportsFailure_iff_allocates (hs : s.LoadedRunners lite) :
    s.ReportsFailure lite pb delegate_ ↔ s.Allocates lite pb delegate_ := by
  constructor
  · rintro ⟨hreports, hinvokes⟩
    exact ⟨reports_iff.mp hreports, fun p rest hup =>
      (invoked_allocated_iff hs p).mp (hinvokes p rest hup)⟩
  · rintro ⟨hload, hinvoke⟩
    exact ⟨reports_iff.mpr hload, fun p rest hup =>
      (invoked_allocated_iff hs p).mpr (hinvoke p rest hup)⟩

end Server

namespace Process

/-- **Exactly when failed loads are reported and not invoked**, over all requests and runs:
the tensors of each model that a reply is sent for can be allocated, and a runner whose
tensors are not allocated is not asked to invoke with no payloads. -/
theorem reportsFailure_iff (lite : TensorFlowLite M) (pb : Protobuf) (delegate_ : DelegateType)
    (as : List Action) :
    (machine lite pb delegate_).Guarded (ReportsFailure lite pb delegate_) (.loop .init) as ↔
      (machine lite pb delegate_).Guarded (Allocates lite pb delegate_) (.loop .init) as := by
  refine Machine.guarded_congr loadedRunners_step ?_ as (fun _ hr => (nomatch hr))
  intro p a q hloaded hstep
  obtain ⟨s, r, rfl, rfl, -⟩ | ⟨s, rfl, rfl, -⟩ | ⟨s, o, rfl, rfl, -, -⟩ | ⟨s, r, rfl, rfl, -⟩ :=
    step_cases hstep
  · exact Iff.rfl
  · exact Iff.rfl
  · exact Server.reportsFailure_iff_allocates hloaded
  · exact Iff.rfl

end Process

/-- The models that copy one tensor of bytes, which must not be empty. -/
def TensorFlowLite.copyingSome : TensorFlowLite Nat :=
  { TensorFlowLite.copying with allocateTensors := fun size => size ≠ 0 }

namespace Process

/-- A model whose tensor is empty is not loaded, and reported as a success. -/
theorem not_reportsFailure :
    ¬ ∀ as : List Action, (machine .copyingSome .short .CPU).Guarded
      (ReportsFailure .copyingSome .short .CPU) (.loop .init) as := by
  intro h
  have hrun := h [.deliver ⟨LOAD_MODEL_RPC, [[0x0A, 1, 0]]⟩, .iterate]
  have hreports := ((hrun _ rfl).2 _ rfl).1.reports
  exact absurd (hreports _ [] rfl _ _ rfl _ rfl true "" _ rfl) (by decide)

end Process

end Anx.Tflite
