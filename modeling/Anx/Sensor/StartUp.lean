import Anx.Sensor.DeviceImu

/-!
# Requests while the service starts

`EndlessService.startAnxService` starts the RPC thread before it makes the looper thread
of the IMU, and the looper thread assigns `handler` when it runs. `sendMsg` drops a
message without a word as long as `imuThread` or `handler` is null.

- `MainPc`, `LooperPc`, `RpcPc`: where the three threads are;
- `Service`, `machine`: their steps, in any interleaving; every read of a field is a step;
- `InOrder`: the messages of answered requests are enqueued, all, once and in order;
- `Assigned`: a read of `imuThread` or `handler` finds the field assigned;
- `Complete`: the invariant, that nothing has been dropped;
- `inOrder_of_guarded`: **no accepted request is lost** in a run whose reads all find the
  fields assigned.
-/

namespace Anx.Sensor.StartUp

open Anx.Lib

/-- Where `startAnxService` is: before `deviceRpcHandler.init`, before `imuThread` is
assigned in `assetManager.init`, before the thread is started, or at its end. -/
inductive MainPc where
  | rpcInit
  | newThread
  | startThread
  | done
deriving DecidableEq

/-- Where `ImuThread.run` is: not started, before `handler` is assigned, or in the loop. -/
inductive LooperPc where
  | new
  | prepare
  | assign
  | loop
deriving DecidableEq

/-- Where `sendMsg` is: at `imuThread?`, at `handler?`, at `handler?` for the message
itself, or at `sendMessage`. -/
inductive SendPc where
  | imuThread
  | handler
  | obtainMessage
  | sendMessage
deriving DecidableEq

/-- Where the RPC thread is: not started, waiting for a request, or sending a message of
one, with others to follow. -/
inductive RpcPc where
  | new
  | idle
  | sendMsg (r : Request) (msg : Msg) (rest : List Msg) (pc : SendPc)
deriving DecidableEq

/-- The threads, the two fields, the messages that have been enqueued and the requests
that have been answered with success, which all are. -/
structure Service where
  main : MainPc
  looper : LooperPc
  rpc : RpcPc
  imuThread : Bool
  handler : Bool
  enqueued : List Msg
  answered : List Request
deriving DecidableEq

inductive Action where
  | main
  | looper
  | receive (r : Request)
  | rpc
deriving DecidableEq

/-- After a message that was sent or dropped: the next one, or the answer. -/
def Service.next (s : Service) (r : Request) : List Msg → Service
  | [] => { s with rpc := .idle, answered := s.answered ++ [r] }
  | msg :: rest => { s with rpc := .sendMsg r msg rest .imuThread }

/-- The steps of the threads. -/
def machine : Machine Service Action where
  step s
    | .main =>
      match s.main with
      | .rpcInit => some { s with main := .newThread, rpc := .idle }
      | .newThread => some { s with main := .startThread, imuThread := true }
      | .startThread => some { s with main := .done, looper := .prepare }
      | .done => none
    | .looper =>
      match s.looper with
      | .new => none
      | .prepare => some { s with looper := .assign }
      | .assign => some { s with looper := .loop, handler := true }
      | .loop => none
    | .receive r =>
      match s.rpc, r.messages with
      | .idle, msg :: rest => some { s with rpc := .sendMsg r msg rest .imuThread }
      | _, _ => none
    | .rpc =>
      match s.rpc with
      -- a field that is null: the message is dropped
      | .sendMsg r msg rest .imuThread =>
        if s.imuThread then some { s with rpc := .sendMsg r msg rest .handler }
        else some (s.next r rest)
      | .sendMsg r msg rest .handler =>
        if s.handler then some { s with rpc := .sendMsg r msg rest .obtainMessage }
        else some (s.next r rest)
      | .sendMsg r msg rest .obtainMessage =>
        if s.handler then some { s with rpc := .sendMsg r msg rest .sendMessage }
        else some (s.next r rest)
      | .sendMsg r msg rest .sendMessage =>
        some ({ s with enqueued := s.enqueued ++ [msg] }.next r rest)
      | _ => none

namespace Service

/-- Before `startAnxService`. -/
def init : Service := ⟨.rpcInit, .new, .new, false, false, [], []⟩

/-- The messages of the request that is being served. -/
def current (s : Service) : List Msg :=
  match s.rpc with
  | .sendMsg r _ _ _ => r.messages
  | _ => []

/-- The messages of the answered requests are enqueued, each once and in order, and
after them at most the first ones of the request that is being served. -/
structure InOrder (s : Service) : Prop where
  complete : s.answered.flatMap Request.messages <+: s.enqueued
  nothingElse : s.enqueued <+: s.answered.flatMap Request.messages ++ s.current

instance (s : Service) : Decidable s.InOrder :=
  decidable_of_iff (_ ∧ _) ⟨fun h => ⟨h.1, h.2⟩, fun h => ⟨h.complete, h.nothingElse⟩⟩

/-- What the RPC thread finds at its next step, if that reads a field. -/
def read (s : Service) : Bool :=
  match s.rpc with
  | .sendMsg _ _ _ .imuThread => s.imuThread
  | .sendMsg _ _ _ .handler => s.handler
  | .sendMsg _ _ _ .obtainMessage => s.handler
  | _ => true

/-- A read of a field finds it assigned. -/
def Assigned (s : Service) (a : Action) : Prop := a = .rpc → s.read = true

instance (s : Service) (a : Action) : Decidable (s.Assigned a) := inferInstanceAs (Decidable (_ → _))

/-- What is still to be sent of the request that is being served. -/
def todo (s : Service) : List Msg :=
  match s.rpc with
  | .sendMsg _ msg rest _ => msg :: rest
  | _ => []

/-- Nothing has been dropped: the first messages of the current request are sent and the
others are not, and all those of the requests before it are. -/
structure Complete (s : Service) : Prop where
  sent : ∃ sent, s.current = sent ++ s.todo ∧
    s.enqueued = s.answered.flatMap Request.messages ++ sent
  started : s.main = .rpcInit → s.rpc = .new

theorem complete_init : init.Complete := ⟨⟨[], rfl, rfl⟩, fun _ => rfl⟩

theorem Complete.inOrder {s : Service} (h : s.Complete) : s.InOrder := by
  obtain ⟨sent, hcurrent, henqueued⟩ := h.sent
  constructor
  · rw [henqueued]
    exact List.prefix_append _ _
  · rw [henqueued, hcurrent, ← List.append_assoc]
    exact List.prefix_append _ _

/-- The RPC thread runs only after `deviceRpcHandler.init`. -/
theorem Complete.main_ne {s : Service} (h : s.Complete) (hrpc : s.rpc ≠ .new) :
    s.main ≠ .rpcInit :=
  fun hmain => hrpc (h.started hmain)

/-- A message that is enqueued is one that was to be sent. -/
theorem Complete.sendMessage {s : Service} {r : Request} {msg : Msg} {rest : List Msg} {pc : SendPc}
    (h : s.Complete) (hrpc : s.rpc = .sendMsg r msg rest pc) :
    ({ s with enqueued := s.enqueued ++ [msg] }.next r rest).Complete := by
  have hmain : s.main ≠ .rpcInit := h.main_ne (by simp [hrpc])
  obtain ⟨sent, hcurrent, henqueued⟩ := h.sent
  simp only [current, todo, hrpc] at hcurrent
  cases rest with
  | nil =>
    -- the last message: the request is answered, and all its messages are enqueued
    refine ⟨⟨[], rfl, ?_⟩, fun hinit => absurd hinit hmain⟩
    show s.enqueued ++ [msg] = (s.answered ++ [r]).flatMap Request.messages ++ []
    rw [henqueued, List.flatMap_append, List.flatMap_singleton, hcurrent, List.append_nil,
      List.append_assoc]
  | cons msg' rest =>
    refine ⟨⟨sent ++ [msg], ?_, ?_⟩, fun hinit => absurd hinit hmain⟩
    · show r.messages = (sent ++ [msg]) ++ msg' :: rest
      rw [hcurrent, List.append_assoc, List.singleton_append]
    · show s.enqueued ++ [msg] = _
      rw [henqueued, List.append_assoc]
      rfl

/-- Going on in `sendMsg` sends and drops nothing. -/
theorem Complete.goOn {s : Service} {r : Request} {msg : Msg} {rest : List Msg} {pc : SendPc}
    (h : s.Complete) (hrpc : s.rpc = .sendMsg r msg rest pc) (pc' : SendPc) :
    Complete { s with rpc := .sendMsg r msg rest pc' } := by
  have hmain : s.main ≠ .rpcInit := h.main_ne (by simp [hrpc])
  obtain ⟨sent, hcurrent, henqueued⟩ := h.sent
  simp only [current, todo, hrpc] at hcurrent
  exact ⟨⟨sent, hcurrent, henqueued⟩, fun hinit => absurd hinit hmain⟩

/-- A step of the RPC thread that finds the field it reads assigned goes on in `sendMsg`,
or enqueues the message. -/
theorem rpc_cases {s t : Service} (hread : s.read = true) (hstep : machine.step s .rpc = some t) :
    ∃ r msg rest pc, s.rpc = .sendMsg r msg rest pc ∧
      ((∃ pc', t = { s with rpc := .sendMsg r msg rest pc' }) ∨
        t = { s with enqueued := s.enqueued ++ [msg] }.next r rest) := by
  cases hrpc : s.rpc with
  | new => simp [machine, hrpc] at hstep
  | idle => simp [machine, hrpc] at hstep
  | sendMsg r msg rest pc =>
    refine ⟨r, msg, rest, pc, rfl, ?_⟩
    rw [read, hrpc] at hread
    cases pc with
    | sendMessage =>
      simp only [machine, hrpc, Option.some_inj] at hstep
      exact .inr hstep.symm
    | imuThread | handler | obtainMessage =>
      simp only [machine, hrpc] at hstep
      rw [if_pos hread, Option.some_inj] at hstep
      exact .inl ⟨_, hstep.symm⟩

/-- **A step drops nothing** if it finds the fields assigned. -/
theorem complete_step {s t : Service} {a : Action} (h : s.Complete) (hassigned : s.Assigned a)
    (hstep : machine.step s a = some t) : t.Complete := by
  cases a with
  | main =>
    simp only [machine] at hstep
    split at hstep
    · next hmain =>
      -- the RPC thread starts: nothing is sent yet
      cases hstep
      obtain ⟨sent, hcurrent, henqueued⟩ := h.sent
      simp only [current, todo, h.started hmain] at hcurrent
      exact ⟨⟨sent, hcurrent, henqueued⟩, fun hinit => by cases hinit⟩
    · cases hstep
      exact ⟨h.sent, fun hinit => by cases hinit⟩
    · cases hstep
      exact ⟨h.sent, fun hinit => by cases hinit⟩
    · cases hstep
  | looper =>
    simp only [machine] at hstep
    split at hstep
    · cases hstep
    · cases hstep
      exact ⟨h.sent, h.started⟩
    · cases hstep
      exact ⟨h.sent, h.started⟩
    · cases hstep
  | receive r =>
    simp only [machine] at hstep
    split at hstep
    · next msg rest hrpc hmsgs =>
      cases hstep
      have hmain : s.main ≠ .rpcInit := h.main_ne (by simp [hrpc])
      obtain ⟨sent, hcurrent, henqueued⟩ := h.sent
      simp only [current, todo, hrpc, List.append_nil] at hcurrent
      subst hcurrent
      exact ⟨⟨[], hmsgs, henqueued⟩, fun hinit => absurd hinit hmain⟩
    · cases hstep
  | rpc =>
    obtain ⟨r, msg, rest, pc, hrpc, ⟨pc', rfl⟩ | rfl⟩ := rpc_cases (hassigned rfl) hstep
    · exact h.goOn hrpc pc'
    · exact h.sendMessage hrpc

/-- **No accepted request is lost** in any run whose reads find the fields assigned. -/
theorem inOrder_of_guarded (as : List Action) (h : machine.Guarded Assigned init as) :
    machine.Always InOrder init as :=
  (Machine.always_of_guarded (fun _ _ _ hs hG hstep => complete_step hs hG hstep)
    complete_init h).mono fun _ hs => hs.inOrder

/-- A start and a stop after the looper thread has assigned `handler`. -/
theorem inOrder_of_guarded_assigned : machine.Always InOrder init
    ([.main, .main, .main, .looper, .looper, .receive (.start 10)] ++ List.replicate 8 .rpc ++
      [.receive .stop, .rpc, .rpc, .looper, .rpc, .rpc]) :=
  inOrder_of_guarded _ (by decide)

/-- A stop that is served before `assetManager.init` is answered and lost. -/
theorem inOrder_of_guarded_fails : ¬ ∀ as, machine.Always InOrder init as := by
  intro h
  have hrun := h [.main, .receive .stop, .rpc]
  have hlast : InOrder _ := ((hrun.2 _ rfl).2 _ rfl).2 _ rfl
  exact absurd hlast (by decide)

end Service

end Anx.Sensor.StartUp
