import Anx.Comms.DeviceRpcHandler
import Anx.Tflite.RpcServer

/-!
# Framing of requests in both servers

Neither loop reads the remaining frames of a request after the payload, and the
TensorFlow Lite server does not read a payload for an unknown name. So a request
with surplus frames moves the read position of the server into the request, and
the surplus frames are taken as the name and payload of another RPC.

- `RpcThread.Short`, `Process.Short`: the bounds on the number of frames under
  which this cannot happen;
- `RpcThread.framed_step`, `Process.framed_step`: under them a step keeps the reading
  aligned and every loop head at a request boundary (in the device server up to one
  last frame, which its loop drops);
- `requestFraming`: **names are first frames and payloads second frames, in every run
  of either server whose requests are short**.
-/

namespace Anx.Comms

open Anx.Lib Anx.Tflite

universe u

/-! ## The device server -/

namespace RpcThread

variable {W : Type u} {charset : Bytes → String} {rpcs : List (Rpc W)}

/-- At most three frames: a third one is dropped, a fourth would make it a name. -/
def Short (r : Request) : Prop := r.frames.length ≤ 3

/-- What the thread has read is well framed. -/
def WellFramed (t : RpcThread W) : Prop := t.trace.WellFramed t.rpcServer.delivered

/-- The step delivers no long request. -/
def DeliversShort (_ : RpcThread W) : Action W → Prop
  | .deliver r => Short r
  | _ => True

/-- The invariant of the loop head. -/
structure Framed (t : RpcThread W) : Prop where
  aligned : Aligned Short t.rpcServer t.trace
  boundary : t.rpcServer.nextIndex = 0 ∨ t.rpcServer.upcoming.length ≤ 1

/-- Nothing is upcoming after the last frame of a request. -/
theorem framed_received {t : RpcThread W} {f : Frame} {socket : RepSocket Reply}
    (h : t.Framed) (hrec : t.rpcServer.Received f [] socket) :
    Framed { t with rpcServer := socket } where
  aligned := h.aligned.received hrec
  boundary := .inl (RepSocket.nextIndex_of_owing (hrec.owing.mpr rfl))

theorem framed_sendResponse {t : RpcThread W} (h : t.Framed) (payload : Reply) :
    Framed { t with rpcServer := (Server.sendResponse t.rpcServer payload).2 } := by
  by_cases howing : t.rpcServer.Owing
  · obtain ⟨socket, hsend, hrep⟩ := RepSocket.send_spec howing payload
    have hsocket : (Server.sendResponse t.rpcServer payload).2 = socket := by
      rw [Server.sendResponse, hsend]
    rw [hsocket]
    exact ⟨h.aligned.replied hrep, .inl hrep.next⟩
  · have hsame : (Server.sendResponse t.rpcServer payload).2 = t.rpcServer := by
      rw [Server.sendResponse, RepSocket.send_illegal howing]
    rw [hsame]
    exact h

theorem framed_handleRpc {t : RpcThread W} (h : t.Framed) (rpc : Option (Rpc W)) (data : Bytes) :
    (handleRpc t rpc data).Framed := by
  unfold handleRpc
  split
  · exact framed_sendResponse h _
  · split
    · next reply w _ =>
      have hsent := framed_sendResponse h (.reply reply)
      exact ⟨hsent.aligned, hsent.boundary⟩
    · exact ⟨h.aligned, h.boundary⟩

/-- Two frames received at a loop head are the first two of a short request. -/
theorem framed_lookedUp {t : RpcThread W} {f g : Frame} {rest : List Bytes}
    {socket socket' : RepSocket Reply} (h : t.Framed)
    (hup : t.rpcServer.upcoming = f.bytes :: g.bytes :: rest)
    (hrec : t.rpcServer.Received f (g.bytes :: rest) socket)
    (hrec' : socket.Received g rest socket') (found : Bool) :
    (t.lookedUp socket' f g found).Framed := by
  have h0 : t.rpcServer.nextIndex = 0 := by
    rcases h.boundary with h0 | hlen
    · exact h0
    · rw [hup] at hlen
      simp at hlen
  refine ⟨h.aligned.lookup hup h0 hrec hrec' found, ?_⟩
  obtain ⟨-, r, rs, hinbox, hframes⟩ := RepSocket.boundary hup h0
  have hshort : rest.length ≤ 1 := by
    have := h.aligned.inbox r (hinbox ▸ List.mem_cons_self)
    rw [Short, hframes, List.length_cons, List.length_cons] at this
    omega
  by_cases hrest : rest = []
  · exact .inl (RepSocket.nextIndex_of_owing (hrec'.owing.mpr hrest))
  · refine .inr ?_
    show socket'.upcoming.length ≤ 1
    rw [hrec'.upcoming hrest]
    exact hshort

theorem framed_iterate {t : RpcThread W} (h : t.Framed) : (iterate charset rpcs t).Framed := by
  cases hi : t.interrupt with
  | true =>
    rw [iterate_interrupted hi]
    exact ⟨h.aligned, h.boundary⟩
  | false =>
    match hup : t.rpcServer.upcoming with
    | [] =>
      rw [iterate_idle hi hup]
      exact h
    | [name] =>
      obtain ⟨f, socket, hit, hrec⟩ := iterate_single charset rpcs hi hup
      rw [hit]
      exact framed_received h hrec
    | name :: payload :: rest =>
      obtain ⟨f, socket, g, socket', rfl, rfl, hrec, hrec', hit⟩ :=
        iterate_call charset rpcs hi hup
      rw [hit]
      exact framed_handleRpc (framed_lookedUp h hup hrec hrec' _) _ _

theorem framed_step (t : RpcThread W) (a : Action W) (u : RpcThread W) (h : t.Framed)
    (hshort : t.DeliversShort a) (hstep : (machine charset rpcs).step t a = some u) :
    u.Framed := by
  cases a with
  | deliver r =>
    cases hstep
    refine ⟨h.aligned.deliver hshort, ?_⟩
    by_cases h0 : t.rpcServer.nextIndex = 0
    · exact .inl h0
    · rw [RepSocket.deliver_upcoming h0]
      exact h.boundary
  | interrupt =>
    cases hstep
    exact ⟨h.aligned, h.boundary⟩
  | world w =>
    cases hstep
    exact ⟨h.aligned, h.boundary⟩
  | iterate =>
    simp only [machine, Option.ite_none_right_eq_some, Option.some.injEq] at hstep
    obtain ⟨-, rfl⟩ := hstep
    exact framed_iterate h

/-- What keeps the reading framed is an invariant of runs that deliver short requests. -/
theorem wellFramed_run (charset : Bytes → String) (rpcs : List (Rpc W)) (w : W)
    (as : List (Action W)) (h : (machine charset rpcs).Guarded DeliversShort (init w) as) :
    (machine charset rpcs).Always WellFramed (init w) as :=
  (Machine.always_of_guarded framed_step ⟨.init, .inl rfl⟩ h).mono fun _ ht => ht.aligned.framed

end RpcThread

end Anx.Comms

/-! ## The TensorFlow Lite server -/

namespace Anx.Tflite

open Anx.Lib Anx.Comms

variable {M : Type} {lite : TensorFlowLite M} {pb : Protobuf} {delegate_ : DelegateType}

/-- A known name comes with at most a payload, an unknown one alone. -/
def Server.Short (r : Request) : Prop :=
  (r.head ∈ rpcNames → r.tail.length ≤ 1) ∧ (r.head ∉ rpcNames → r.tail = [])

/-- The invariant of the loop head. -/
structure Server.Framed (s : Server M) : Prop where
  aligned : Aligned Short s.socket_ s.trace
  boundary : s.socket_.nextIndex = 0

namespace Server

variable {s t : Server M} {f g : Frame} {rest : List Bytes} {between socket : RepSocket Reply}

theorem Framed.settled (h : s.Framed) {parts : List Reply} (hs : s.Settled parts t) :
    t.Framed := by
  cases hs with
  | replied socket howing hrep => exact ⟨h.aligned.replied hrep, hrep.next⟩
  | refused hidle => exact h

theorem Framed.withRunners (h : s.Framed) (rs : List (TfliteRunner M)) :
    (s.withRunners rs).Framed := ⟨h.aligned, h.boundary⟩

theorem Framed.afterCopies (h : s.Framed) (copies : List TfliteRunner.Copy) :
    (s.afterCopies copies).Framed := ⟨h.aligned, h.boundary⟩

/-- Taking the only frame of a request as a name. -/
theorem Framed.took (h : s.Framed) (htakes : s.Takes f [] socket) : (s.took f socket).Framed where
  aligned := h.aligned.took htakes.upcoming h.boundary htakes.received
  boundary := RepSocket.nextIndex_of_owing (htakes.received.owing.mpr rfl)

/-- Taking a known name and its payload. -/
theorem Framed.called (h : s.Framed) (hname : f.bytes ∈ rpcNames)
    (htakes : s.TakesCall f g rest between socket) :
    ((s.took f between).called f g socket).Framed where
  aligned := h.aligned.calls htakes.upcoming h.boundary htakes.received htakes.payload
  boundary := by
    obtain ⟨-, ⟨head, tail⟩, rs, hinbox, hframes⟩ :=
      RepSocket.boundary htakes.upcoming h.boundary
    cases hframes
    have hrest : rest = [] := by
      have := (h.aligned.inbox _ (hinbox ▸ List.mem_cons_self)).1 hname
      simpa using this
    exact RepSocket.nextIndex_of_owing (htakes.payload.owing.mpr hrest)

/-- An unknown name is the only frame of a short request. -/
theorem Framed.unknown (h : s.Framed) (hname : f.bytes ∉ rpcNames)
    (htakes : s.Takes f rest socket) : (s.took f socket).Framed := by
  obtain ⟨-, ⟨head, tail⟩, rs, hinbox, hframes⟩ := RepSocket.boundary htakes.upcoming h.boundary
  cases hframes
  cases (h.aligned.inbox _ (hinbox ▸ List.mem_cons_self)).2 hname
  exact h.took htakes

/-- The state an iteration ends in, however it ends. -/
def final : Outcome (Server M) Unit → Server M
  | .ok _ t | .throw t | .hang t | .undef t => t

/-- **One iteration** keeps the reading framed, one case for each way through the
loop body. -/
theorem Iterated.framed {o : Outcome (Server M) Unit} (h : s.Framed)
    (hit : Iterated lite pb delegate_ s o) : (final o).Framed := by
  have hload : LOAD_MODEL_RPC ∈ rpcNames := by simp [rpcNames]
  have hinvoke : INVOKE_MODEL_RPC ∈ rpcNames := by simp [rpcNames]
  have hunload : UNLOAD_MODEL_RPC ∈ rpcNames := by simp [rpcNames]
  cases hit with
  | idle hup => exact h
  | noPayload f socket hname htakes => exact h.took htakes
  | unknown f rest socket t hname htakes hsettled => exact (h.unknown hname htakes).settled hsettled
  | loadModel f g rest between socket model_meta r t hname htakes hok hsettled =>
    exact ((h.called (hname ▸ hload) htakes).withRunners _).settled hsettled
  | loadNull f g rest between socket hname htakes hnull =>
    exact (h.called (hname ▸ hload) htakes).withRunners _
  | invokeModel f g rest between socket r rs it it' t hname htakes hrunners hcount hit hcopy
      hsettled =>
    exact (((h.called (hname ▸ hinvoke) htakes).afterCopies _).withRunners _).settled hsettled
  | invokeCount f g rest between socket r rs hname htakes hrunners hcount =>
    exact h.called (hname ▸ hinvoke) htakes
  | invokeNoRunner f g rest between socket hname htakes hrunners =>
    exact h.called (hname ▸ hinvoke) htakes
  | invokeOverrun f g rest between socket r rs hname htakes hrunners hcount hcopy =>
    exact h.called (hname ▸ hinvoke) htakes
  | unloadModel f g rest between socket t hname htakes hsettled =>
    exact ((h.called (hname ▸ hunload) htakes).withRunners _).settled hsettled

end Server

namespace Process

/-- What the process has read, up to undefined behaviour if it ran into it, is
well framed. -/
def WellFramed (p : Process M) : Prop := p.server.trace.WellFramed p.server.socket_.delivered

/-- The step delivers no long request. -/
def DeliversShort (_ : Process M) : Action → Prop
  | .deliver r => Server.Short r
  | _ => True

theorem server_ofOutcome (o : Outcome (Server M) Unit) : (ofOutcome o).server = Server.final o := by
  cases o <;> rfl

theorem framed_step (p : Process M) (a : Action) (q : Process M) (h : p.server.Framed)
    (hshort : p.DeliversShort a) (hstep : (machine lite pb delegate_).step p a = some q) :
    q.server.Framed := by
  obtain ⟨s, r, rfl, rfl, rfl⟩ | ⟨s, rfl, rfl, rfl⟩ | ⟨s, o, rfl, rfl, rfl, hit⟩ |
    ⟨s, r, rfl, rfl, rfl⟩ := step_cases hstep
  · exact ⟨h.aligned.deliver hshort, h.boundary⟩
  · exact ⟨h.aligned, h.boundary⟩
  · rw [server_ofOutcome]
    exact hit.framed h
  · exact ⟨h.aligned.deliver hshort, h.boundary⟩

theorem wellFramed_run (lite : TensorFlowLite M) (pb : Protobuf) (delegate_ : DelegateType)
    (as : List Action)
    (h : (machine lite pb delegate_).Guarded DeliversShort (.loop .init) as) :
    (machine lite pb delegate_).Always WellFramed (.loop .init) as :=
  (Machine.always_of_guarded framed_step (P := fun p => p.server.Framed) ⟨.init, rfl⟩ h).mono
    fun _ hp => hp.aligned.framed

end Process

end Anx.Tflite

/-! ## Both servers -/

namespace Anx.Comms

open Anx.Lib Anx.Tflite

/-- **Request framing**: in every run of either server whose requests are short,
every name is frame 0 of a request, every payload is frame 1 of the request its
name is from, and one request makes at most one call. -/
theorem requestFraming {W M : Type} (charset : Bytes → String) (rpcs : List (Rpc W)) (w : W)
    (as : List (RpcThread.Action W)) (lite : TensorFlowLite M) (pb : Protobuf)
    (delegate_ : DelegateType) (bs : List Tflite.Action) :
    ((RpcThread.machine charset rpcs).Guarded RpcThread.DeliversShort (.init w) as →
      (RpcThread.machine charset rpcs).Always RpcThread.WellFramed (.init w) as) ∧
    ((Process.machine lite pb delegate_).Guarded Process.DeliversShort (.loop .init) bs →
      (Process.machine lite pb delegate_).Always Process.WellFramed (.loop .init) bs) := by
  constructor
  · intro h
    exact RpcThread.wellFramed_run charset rpcs w as h
  · intro h
    exact Process.wellFramed_run lite pb delegate_ bs h

/-- Documented requests of two frames are read as they are meant. -/
theorem requestFraming_documented :
    (RpcThread.machine RpcThread.asciiCharset [RpcThread.reboot]).Always RpcThread.WellFramed
      (.init ()) [.deliver ⟨ascii "Reboot", [[]]⟩, .iterate] ∧
    (Process.machine .copying .short .CPU).Always Process.WellFramed (.loop .init)
      [.deliver ⟨UNLOAD_MODEL_RPC, [[]]⟩, .iterate] := by
  obtain ⟨hdevice, htflite⟩ := requestFraming RpcThread.asciiCharset [RpcThread.reboot] ()
    [.deliver ⟨ascii "Reboot", [[]]⟩, .iterate] .copying .short .CPU
    [.deliver ⟨UNLOAD_MODEL_RPC, [[]]⟩, .iterate]
  constructor
  · exact hdevice fun _ _ => ⟨(by decide : 2 ≤ 3), fun _ _ => ⟨trivial, trivial⟩⟩
  · exact htflite fun _ _ => ⟨⟨by decide, by decide⟩, fun _ _ => ⟨trivial, trivial⟩⟩

/-- The third frame of a request of four frames is looked up as a name by the device
server, and the payload of an unknown name by the TensorFlow Lite server. -/
theorem requestFraming_fails :
    (¬ ∀ as : List (RpcThread.Action Unit),
      (RpcThread.machine RpcThread.asciiCharset [RpcThread.reboot]).Always RpcThread.WellFramed
        (.init ()) as) ∧
    ¬ ∀ as : List Tflite.Action,
      (Process.machine .copying .short .CPU).Always Process.WellFramed (.loop .init) as := by
  constructor
  · intro h
    have hrun := h [.deliver ⟨ascii "Reboot", [[], ascii "Reboot", []]⟩, .iterate, .iterate]
    have hlast : RpcThread.WellFramed _ := ((hrun.2 _ rfl).2 _ rfl).2 _ rfl
    exact absurd (hlast.name ⟨ascii "Reboot", 0, 2⟩ (by decide)).1 (by decide)
  · intro h
    have hrun := h [.deliver ⟨ascii "GetAssetState", [UNLOAD_MODEL_RPC]⟩, .iterate, .iterate]
    have hlast : Process.WellFramed _ := ((hrun.2 _ rfl).2 _ rfl).2 _ rfl
    exact absurd (hlast.name ⟨UNLOAD_MODEL_RPC, 0, 1⟩ (by decide)).1 (by decide)

end Anx.Comms
