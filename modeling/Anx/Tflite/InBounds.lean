import Anx.Tflite.OneReply

/-!
# What the InvokeModel branch accesses

The branch takes runner 0 without asking whether there is one, and copies into each input
tensor as many bytes as the tensor has, whatever the size of the payload. What is beyond
the vector or beyond the string of a payload is undefined in `RpcServer`; the null byte that
ends the string can be read, but is not of the payload.

- `InBounds`: the branch, when an iteration takes it, makes no such access;
- `Fits`: there is a runner, and payloads that are copied cover its input tensors;
- `Server.inBounds_iff_fits`: the one is the other, by the ways through the loop body;
- `Process.inBounds_iff`: **a run stays in bounds exactly if all payloads fit.**
-/

namespace Anx.Tflite

open Anx.Lib Anx.Comms

variable {M : Type}

section

variable (lite : TensorFlowLite M) (pb : Protobuf) (delegate_ : DelegateType)

/-- An iteration that takes the InvokeModel branch comes to its end, without an access to
what does not exist, and none of its copies reads past the end of a payload. -/
def Server.InBounds (s : Server M) : Prop :=
  ∀ rest, s.socket_.upcoming = INVOKE_MODEL_RPC :: rest →
    ∃ t made, s.body lite pb delegate_ = .ok () t ∧ t.copies = s.copies ++ made ∧
      ∀ c ∈ made, c.bytes ≤ c.size

/-- There is a runner for a request `InvokeModel`; if it has as many payloads as the runner
has input tensors, each of them has at least the bytes of its tensor. -/
def Server.Fits (s : Server M) : Prop :=
  ∀ p rest, s.socket_.upcoming = INVOKE_MODEL_RPC :: p :: rest →
    ∃ r rs, s.tflite_runners_ = r :: rs ∧
      ((pb.payloadArray p).length = r.input_tensors_.length →
        TfliteRunner.Covers (r.inputs lite) (pb.payloadArray p))

@[inherit_doc Server.InBounds] def Process.InBounds : Process M → Action → Prop
  | .loop s, .iterate => s.InBounds lite pb delegate_
  | _, _ => True

@[inherit_doc Server.Fits] def Process.Fits : Process M → Action → Prop
  | .loop s, .iterate => s.Fits lite pb
  | _, _ => True

end

variable {lite : TensorFlowLite M} {pb : Protobuf} {delegate_ : DelegateType}

namespace Server

variable {s : Server M}

/-- Iterations that do not take the branch are in bounds, and so is what they take up. -/
theorem inBounds_iff_of_ne {name : Bytes} {rest : List Bytes}
    (hup : s.socket_.upcoming = name :: rest) (hname : name ≠ INVOKE_MODEL_RPC) :
    s.InBounds lite pb delegate_ ↔ s.Fits lite pb := by
  refine iff_of_true (fun rest' hup' => ?_) fun p rest' hup' => ?_
  · exact absurd (List.cons.inj (hup.symm.trans hup')).1 hname
  · exact absurd (List.cons.inj (hup.symm.trans hup')).1 hname

/-- What an iteration with the payload `p` needs. -/
theorem fits_iff {p : Bytes} {rest : List Bytes} {r : TfliteRunner M} {rs : List (TfliteRunner M)}
    (hup : s.socket_.upcoming = INVOKE_MODEL_RPC :: p :: rest)
    (hrunners : s.tflite_runners_ = r :: rs) :
    s.Fits lite pb ↔ ((pb.payloadArray p).length = r.input_tensors_.length →
      TfliteRunner.Covers (r.inputs lite) (pb.payloadArray p)) := by
  constructor
  · intro h
    obtain ⟨r', rs', hrunners', hcov⟩ := h p rest hup
    cases hrunners.symm.trans hrunners'
    exact hcov
  · intro h p' rest' hup'
    obtain ⟨rfl, rfl⟩ := List.cons.inj (List.cons.inj (hup.symm.trans hup')).2
    exact ⟨r, rs, hrunners, h⟩

theorem Settled.copies {v t : Server M} {parts : List Reply} (h : v.Settled parts t) :
    t.copies = v.copies := by
  cases h <;> rfl

/-- An iteration that copies nothing. -/
theorem inBounds_of_ok {t : Server M} (h : s.body lite pb delegate_ = .ok () t)
    (hcopies : t.copies = s.copies) : s.InBounds lite pb delegate_ :=
  fun _ _ => ⟨t, [], h, by rw [hcopies, List.append_nil], fun c hc => nomatch hc⟩

/-- An iteration that makes the copies `made`. -/
theorem inBounds_iff_of_ok {t : Server M} {rest : List Bytes} {made : List TfliteRunner.Copy}
    (hup : s.socket_.upcoming = INVOKE_MODEL_RPC :: rest)
    (h : s.body lite pb delegate_ = .ok () t) (hcopies : t.copies = s.copies ++ made) :
    s.InBounds lite pb delegate_ ↔ ∀ c ∈ made, c.bytes ≤ c.size := by
  constructor
  · intro hin
    obtain ⟨t', made', hok, hcopies', hall⟩ := hin rest hup
    cases h.symm.trans hok
    cases List.append_cancel_left (hcopies.symm.trans hcopies')
    exact hall
  · exact fun hall _ _ => ⟨t, made, h, hcopies, hall⟩

theorem undef_not_inBounds {t : Server M} {rest : List Bytes}
    (hup : s.socket_.upcoming = INVOKE_MODEL_RPC :: rest)
    (h : s.body lite pb delegate_ = .undef t) : ¬ s.InBounds lite pb delegate_ := by
  intro hin
  obtain ⟨t', made, hok, -⟩ := hin rest hup
  cases h.symm.trans hok

/-- **One iteration** stays in bounds exactly if what it takes up fits. -/
theorem inBounds_iff_fits (hs : s.LoadedRunners lite) :
    s.InBounds lite pb delegate_ ↔ s.Fits lite pb := by
  have hit : Iterated lite pb delegate_ s (s.body lite pb delegate_) := s.body_iterated
  generalize hbody : s.body lite pb delegate_ = o at hit
  cases hit with
  | idle hup =>
    refine iff_of_true (inBounds_of_ok hbody rfl) fun p rest hup' => ?_
    rw [hup] at hup'
    cases hup'
  | noPayload f socket hname htakes =>
    refine iff_of_true (inBounds_of_ok hbody rfl) fun p rest hup => ?_
    -- the name is the last frame
    exact nomatch (List.cons.inj (htakes.upcoming.symm.trans hup)).2
  | unknown f rest socket t hname htakes hsettled =>
    refine inBounds_iff_of_ne htakes.upcoming ?_
    rintro hinvoke
    exact hname (by simp [hinvoke, rpcNames])
  | loadModel f g rest between socket model_meta r t hname htakes hload hsettled =>
    exact inBounds_iff_of_ne htakes.upcoming (hname ▸ load_ne_invoke)
  | loadNull f g rest between socket hname htakes hload =>
    exact inBounds_iff_of_ne htakes.upcoming (hname ▸ load_ne_invoke)
  | invokeModel f g rest between socket r rs it it' t hname htakes hrunners hcount hit hcopy
      hsettled =>
    have hloaded : r.Loaded lite := hs r (hrunners ▸ List.mem_cons_self)
    have hlen : (r.inputs lite).length = (pb.payloadArray g.bytes).length := by
      rw [hloaded.inputs_length, hcount]
    -- the loop has read what its tensors have, be it of the payloads or not
    rw [fits_iff (hname ▸ htakes.upcoming) hrunners, TfliteRunner.covers_iff_copies hlen,
      inBounds_iff_of_ok (hname ▸ htakes.upcoming) hbody hsettled.copies]
    exact ⟨fun hall _ => hall, fun hall => hall hcount⟩
  | invokeCount f g rest between socket r rs hname htakes hrunners hcount =>
    -- nothing is copied
    rw [fits_iff (hname ▸ htakes.upcoming) hrunners]
    exact iff_of_true (inBounds_of_ok hbody rfl) fun heq => absurd heq hcount
  | invokeNoRunner f g rest between socket hname htakes hrunners =>
    refine iff_of_false (undef_not_inBounds (hname ▸ htakes.upcoming) hbody) fun hfits => ?_
    obtain ⟨r, rs, hsome, -⟩ := hfits _ _ (hname ▸ htakes.upcoming)
    cases hrunners.symm.trans hsome
  | invokeOverrun f g rest between socket r rs hname htakes hrunners hcount hcopy =>
    have hloaded : r.Loaded lite := hs r (hrunners ▸ List.mem_cons_self)
    rw [fits_iff (hname ▸ htakes.upcoming) hrunners]
    refine iff_of_false (undef_not_inBounds (hname ▸ htakes.upcoming) hbody) fun hcov => ?_
    have hread : TfliteRunner.Readable (r.inputs lite) (pb.payloadArray g.bytes) :=
      (hcov hcount).readable
    obtain ⟨it, it', hit, hcopy', -⟩ := hloaded.invoke hread
    cases (hcopy it hit).symm.trans hcopy'
  | unloadModel f g rest between socket t hname htakes hsettled =>
    exact inBounds_iff_of_ne htakes.upcoming (hname ▸ invoke_ne_unload.symm)

end Server

namespace Process

/-- **Exactly when InvokeModel stays in bounds**, over all requests and runs: each request
that takes the branch finds a runner, and payloads that cover its input tensors if they are
as many. -/
theorem inBounds_iff (lite : TensorFlowLite M) (pb : Protobuf) (delegate_ : DelegateType)
    (as : List Action) :
    (machine lite pb delegate_).Guarded (InBounds lite pb delegate_) (.loop .init) as ↔
      (machine lite pb delegate_).Guarded (Fits lite pb) (.loop .init) as := by
  refine Machine.guarded_congr loadedRunners_step ?_ as (fun _ hr => (nomatch hr))
  intro p a q hloaded hstep
  obtain ⟨s, r, rfl, rfl, -⟩ | ⟨s, rfl, rfl, -⟩ | ⟨s, o, rfl, rfl, -, -⟩ | ⟨s, r, rfl, rfl, -⟩ :=
    step_cases hstep
  · exact Iff.rfl
  · exact Iff.rfl
  · exact Server.inBounds_iff_fits hloaded
  · exact Iff.rfl

/-- A payload of one byte for a tensor of two is read past its end. -/
theorem not_inBounds : ¬ ∀ as : List Action, (machine .copying .short .CPU).Guarded
    (InBounds .copying .short .CPU) (.loop .init) as := by
  intro h
  -- the model of a tensor of two bytes, and one payload of one byte
  have hrun := h [.deliver ⟨LOAD_MODEL_RPC, [[0x0A, 1, 2]]⟩, .iterate,
    .deliver ⟨INVOKE_MODEL_RPC, [[0x0A, 1, 7]]⟩, .iterate]
  have hin := ((((hrun _ rfl).2 _ rfl).2 _ rfl).2 _ rfl).1
  obtain ⟨t, made, hok, hcopies, hall⟩ := hin _ rfl
  cases hok
  have hmade : [⟨2, 1⟩] = made := hcopies
  exact absurd (hall ⟨2, 1⟩ (hmade ▸ List.mem_singleton.mpr rfl)) (by decide)

end Process

end Anx.Tflite
