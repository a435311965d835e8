import Mathlib.Data.List.Basic
import Anx.Lib.Machine

/-!
# The lifecycle of the service

`EndlessService` keeps the flag `isRunning`; the thread that serves the device RPC endpoint
is kept by the singleton `DeviceRpcHandler`. The intents and `containerStop` run on the main
thread; a restart calls `stopAnxService` on a thread of its own, three seconds after its
reply.

- `DeviceRpcHandler`: the field `rpcThread` and all threads ever made, with `init` in two
  steps and `destroy` in several;
- `Service`, `machine`: the main thread, the threads of the restarts and the RPC threads, in
  any interleaving;
- `Agrees`: flag and thread agree, and a start leaves the endpoint served;
- `InTurn`: the order of the calls that keeps them so;
- `Inv`: what holds between the steps;
- `agrees_of_guarded`: **flag and thread agree** whenever nothing is under way, in every run
  whose steps are in turn.
-/

namespace Anx.Daemon

open Anx.Lib

inductive ThreadPc where
  | new
  | running
  | terminated
deriving DecidableEq

/-- An `RpcThread`. -/
structure RpcThread where
  pc : ThreadPc
  interrupt : Bool
deriving DecidableEq

/-- Where `DeviceRpcHandler.destroy` is: at `rpcThread?.interrupt`, at `rpcThread?.join`, in
the join of a thread, or at `rpcThread = null`. -/
inductive DestroyPc where
  | interrupt
  | join
  | wait (id : Nat)
  | clear
deriving DecidableEq

/-- The field, and all threads ever made, by number. -/
structure DeviceRpcHandler where
  rpcThread : Option Nat
  threads : List RpcThread
deriving DecidableEq

namespace DeviceRpcHandler

/-- `rpcThread = RpcThread()`. -/
def createThread (h : DeviceRpcHandler) : DeviceRpcHandler :=
  ⟨some h.threads.length, h.threads ++ [⟨.new, false⟩]⟩

def modifyThread (h : DeviceRpcHandler) (id : Nat) (f : RpcThread → RpcThread) :
    DeviceRpcHandler :=
  { h with threads := h.threads.modify id f }

/-- `rpcThread?.start()`. -/
def startThread (h : DeviceRpcHandler) : DeviceRpcHandler :=
  match h.rpcThread with
  | some id => h.modifyThread id fun t => { t with pc := .running }
  | none => h

/-- `Thread.isAlive`. -/
def isAlive (h : DeviceRpcHandler) (id : Nat) : Bool :=
  h.threads[id]?.any (·.pc = .running)

/-- A step of `destroy`, with where it is then. -/
def destroy (h : DeviceRpcHandler) : DestroyPc → Option (DeviceRpcHandler × Option DestroyPc)
  | .interrupt =>
    match h.rpcThread with
    | some id => some (h.modifyThread id fun t => { t with interrupt := true }, some .join)
    | none => some (h, some .join)
  | .join =>
    match h.rpcThread with
    | some id => some (h, some (.wait id))
    | none => some (h, some .clear)
  | .wait id => if h.isAlive id then none else some (h, some .clear)
  | .clear => some ({ h with rpcThread := none }, none)

end DeviceRpcHandler

/-- Where the main thread is: waiting, in `startAnxService` before `rpcThread` is assigned or
the thread is started, before `doRestartProcedure`, or in `destroy`. -/
inductive MainPc where
  | idle
  | createThread
  | startThread
  | doRestartProcedure
  | destroy (pc : DestroyPc)
deriving DecidableEq

/-- Where the thread of a restart is: in its sleep, in `destroy`, or past
`restartProcedure`. -/
inductive RestartPc where
  | sleep
  | destroy (pc : DestroyPc)
  | done
deriving DecidableEq

/-- The calls of `destroy` under way on the main thread. -/
def MainPc.destroys : MainPc → List DestroyPc
  | .destroy pc => [pc]
  | _ => []

/-- The call of `destroy` under way in a restart. -/
def RestartPc.destroys : RestartPc → List DestroyPc
  | .destroy pc => [pc]
  | _ => []

/-- The service, the handler, the main thread and the threads of the restarts. -/
structure Service where
  isRunning : Bool
  handler : DeviceRpcHandler
  main : MainPc
  restartProcedure : Bool
  restarts : List RestartPc
deriving DecidableEq

inductive Action where
  | startService
  | stopService
  | containerStop
  | main
  | restartAnxService (id : Nat)
  | restart (i : Nat)
  | loopEnd (id : Nat)
  | exception (id : Nat)
deriving DecidableEq

namespace Service

def init : Service := ⟨false, ⟨none, []⟩, .idle, false, []⟩

/-- All calls of `destroy` under way. -/
def destroys (s : Service) : List DestroyPc :=
  s.main.destroys ++ s.restarts.flatMap RestartPc.destroys

end Service

/-- Intents, clicks and requests, and the steps of all threads. -/
def machine : Machine Service Action where
  step s
    | .startService =>
      if s.main = .idle then
        if s.isRunning then some s
        else some { s with isRunning := true, main := .createThread }
      else none
    -- `stopAnxService`
    | .stopService =>
      if s.main = .idle then
        some { s with isRunning := false, main := .destroy .interrupt }
      else none
    | .containerStop =>
      if s.main = .idle then some { s with main := .destroy .interrupt } else none
    | .main =>
      match s.main with
      | .idle => none
      | .createThread =>
        some { s with handler := s.handler.createThread, main := .startThread }
      | .startThread =>
        some { s with handler := s.handler.startThread, main := .doRestartProcedure }
      | .doRestartProcedure => some { s with restartProcedure := true, main := .idle }
      | .destroy pc => do
        let (handler, next) ← s.handler.destroy pc
        return { s with handler := handler, main := next.elim .idle .destroy }
    -- the request is served by an RPC thread
    | .restartAnxService id =>
      if s.handler.isAlive id then some { s with restarts := s.restarts ++ [.sleep] } else none
    | .restart i =>
      match s.restarts[i]? with
      | some .sleep =>
        if s.restartProcedure then
          some { s with isRunning := false, restarts := s.restarts.set i (.destroy .interrupt) }
        else some { s with restarts := s.restarts.set i .done }
      | some (.destroy pc) => do
        let (handler, next) ← s.handler.destroy pc
        return { s with
          handler := handler
          restarts := s.restarts.set i (next.elim .done .destroy) }
      | _ => none
    -- the loop of an RPC thread sees `interrupt`
    | .loopEnd id => do
      let t ← s.handler.threads[id]?
      if t.pc = .running ∧ t.interrupt = true then
        return { s with handler := s.handler.modifyThread id fun t => { t with pc := .terminated } }
      else none
    -- an exception in `RpcThread.run`, which ends the thread
    | .exception id =>
      if s.handler.isAlive id then
        some { s with handler := s.handler.modifyThread id fun t => { t with pc := .terminated } }
      else none

namespace Service

/-- An RPC thread that has been started and not been told to end. -/
def Serving (s : Service) (id : Nat) : Prop :=
  ∃ t, s.handler.threads[id]? = some t ∧ t.pc = .running ∧ t.interrupt = false

/-- No intent, no click and no restart is being handled. -/
def Quiescent (s : Service) : Prop := s.main = .idle ∧ s.destroys = []

/-- The steps of `ACTION_START_SERVICE`. -/
def startRun (s : Service) : List Action :=
  if s.isRunning then [.startService] else [.startService, .main, .main, .main]

/-- Flag and thread agree: the service is running when and only when the field refers to a
thread that serves; no other thread is alive; a start leaves the endpoint served. The second
part matters since two RPC threads would bind the same endpoint, and since a thread that the
field has lost can no longer be told to end. -/
structure Agrees (s : Service) : Prop where
  running : s.isRunning = true ↔ ∃ id, s.handler.rpcThread = some id ∧ s.Serving id
  alone : ∀ id, s.handler.isAlive id = true → s.handler.rpcThread = some id
  served : ∃ s', machine.exec s s.startRun = some s' ∧ s'.main = .idle ∧
    ∃ id, s'.handler.rpcThread = some id ∧ s'.Serving id

/-- `containerStop` comes when the service is not running; a start makes its thread when no
`destroy` is under way; a restart begins to stop the service when no start is under way; no
exception ends an RPC thread.

Each part keeps off one defect: `containerStop` ends the thread and leaves the flag; a
`destroy` that ends late sets a field to null that a start has set in the meantime; an
exception ends the thread behind the back of the flag. All of it is said of the state before
the step. -/
def InTurn (s : Service) : Action → Prop
  | .containerStop => s.isRunning = false
  | .main => s.main = .createThread → s.destroys = []
  | .restart i => s.restarts[i]? = some .sleep → s.restartProcedure = true →
    s.main ≠ .createThread ∧ s.main ≠ .startThread
  | .exception _ => False
  | _ => True

instance (s : Service) (a : Action) : Decidable (s.InTurn a) :=
  match a with
  | .containerStop => inferInstanceAs (Decidable (_ = _))
  | .main => inferInstanceAs (Decidable (_ → _))
  | .restart _ => inferInstanceAs (Decidable (_ → _ → _))
  | .exception _ => inferInstanceAs (Decidable False)
  | .startService | .stopService | .restartAnxService _ | .loopEnd _ =>
    inferInstanceAs (Decidable True)

end Service

/-! ## The handler -/

namespace DeviceRpcHandler

variable {h h' : DeviceRpcHandler}

theorem modifyThread_lookup (h : DeviceRpcHandler) (id j : Nat) (f : RpcThread → RpcThread) :
    (h.modifyThread id f).threads[j]? =
      h.threads[j]?.map fun t => if id = j then f t else t := by
  unfold modifyThread
  rw [List.getElem?_modify]
  rfl

/-- The field refers to a thread, which has been started unless a start is under way, and
every other thread has ended or never begun. The handler knows nothing of the service: that a
start is under way is the parameter. -/
structure Inv (h : DeviceRpcHandler) (starting : Prop) : Prop where
  current : ∀ id, h.rpcThread = some id → ∃ t, h.threads[id]? = some t ∧
    (t.pc = .new ↔ starting)
  alone : ∀ (id : Nat) (t : RpcThread), h.threads[id]? = some t → t.pc = .running →
    h.rpcThread = some id

/-- The field refers to a thread that has not been told to end. -/
def Active (h : DeviceRpcHandler) : Prop :=
  ∃ id t, h.rpcThread = some id ∧ h.threads[id]? = some t ∧ t.interrupt = false ∧
    t.pc ≠ .terminated

/-- The thread that the field refers to has ended. -/
def Ended (h : DeviceRpcHandler) : Prop :=
  ∀ (id : Nat) (t : RpcThread), h.rpcThread = some id → h.threads[id]? = some t →
    t.pc = .terminated

/-- What `destroy` has brought about: it waits for the thread that the field refers to, if
any, and that one has ended afterwards. Several calls may be under way, each at its own place;
`rpcThread?.interrupt` and `rpcThread?.join` read the field anew, so nothing is known before
the join. -/
def DestroyOk (h : DeviceRpcHandler) : DestroyPc → Prop
  | .wait id => ∀ j, h.rpcThread = some j → j = id
  | .clear => h.Ended
  | _ => True

/-- What a step may do while `destroy` is under way elsewhere: the field may be set to null
but never to another thread, and no thread that has ended comes back. It is what makes
`DestroyOk` stable (`Keeps.destroyOk`), so that calls under way need not know of each other. -/
structure Keeps (h h' : DeviceRpcHandler) : Prop where
  current : ∀ id, h'.rpcThread = some id → h.rpcThread = some id
  ended : ∀ (id : Nat) (t' : RpcThread), h'.threads[id]? = some t' →
    ∃ t, h.threads[id]? = some t ∧ (t.pc = .terminated → t'.pc = .terminated)

theorem Keeps.destroyOk (hk : h.Keeps h') {pc : DestroyPc} (hok : h.DestroyOk pc) :
    h'.DestroyOk pc := by
  cases pc with
  | interrupt => trivial
  | join => trivial
  | wait id => exact fun j hj => hok j (hk.current j hj)
  | clear =>
    intro id t' hid ht'
    obtain ⟨t, ht, hend⟩ := hk.ended id t' ht'
    exact hend (hok id t (hk.current id hid) ht)

theorem modifyThread_keeps {id : Nat} {f : RpcThread → RpcThread}
    (hf : ∀ t, t.pc = .terminated → (f t).pc = .terminated) :
    h.Keeps (h.modifyThread id f) := by
  refine ⟨fun _ hj => hj, ?_⟩
  intro j t' ht'
  rw [modifyThread_lookup] at ht'
  obtain ⟨t, ht, rfl⟩ := Option.map_eq_some_iff.mp ht'
  refine ⟨t, ht, fun hend => ?_⟩
  split
  · exact hf t hend
  · exact hend

/-- A change of a thread that neither starts nor revives it. -/
theorem modifyThread_inv {starting : Prop} {id : Nat} {f : RpcThread → RpcThread}
    (hI : h.Inv starting) (hnew : ∀ t, h.threads[id]? = some t → ((f t).pc = .new ↔ t.pc = .new))
    (hrunning : ∀ t, (f t).pc = .running → t.pc = .running) :
    (h.modifyThread id f).Inv starting := by
  constructor
  · intro j hj
    obtain ⟨t, ht, hstarting⟩ := hI.current j hj
    refine ⟨_, by rw [modifyThread_lookup, ht]; rfl, ?_⟩
    split
    · next hij =>
      subst hij
      exact (hnew t ht).trans hstarting
    · exact hstarting
  · intro j t' ht' hpc
    rw [modifyThread_lookup] at ht'
    obtain ⟨t, ht, rfl⟩ := Option.map_eq_some_iff.mp ht'
    refine hI.alone j t ht ?_
    split at hpc
    · exact hrunning t hpc
    · exact hpc

/-- **One step of `destroy`** keeps what is known, brings about what the next one needs, and
leaves no thread behind. -/
theorem destroy_spec {pc : DestroyPc} {next : Option DestroyPc} (hI : h.Inv False)
    (hok : h.DestroyOk pc) (hstep : h.destroy pc = some (h', next)) :
    h'.Inv False ∧ h.Keeps h' ∧ (∀ pc', next = some pc' → h'.DestroyOk pc') ∧
      (next = none → h'.rpcThread = none) := by
  have hrefl : h.Keeps h := ⟨fun _ hj => hj, fun id t ht => ⟨t, ht, fun hend => hend⟩⟩
  cases pc with
  | interrupt =>
    cases hcurrent : h.rpcThread with
    | none =>
      simp only [destroy, hcurrent] at hstep
      cases hstep
      refine ⟨hI, hrefl, ?_, by simp⟩
      rintro pc' ⟨⟩
      trivial
    | some id =>
      simp only [destroy, hcurrent] at hstep
      cases hstep
      refine ⟨modifyThread_inv hI (fun _ _ => Iff.rfl) (fun _ hpc => hpc),
        modifyThread_keeps fun _ hend => hend, ?_, by simp⟩
      rintro pc' ⟨⟩
      trivial
  | join =>
    cases hcurrent : h.rpcThread with
    | none =>
      simp only [destroy, hcurrent] at hstep
      cases hstep
      refine ⟨hI, hrefl, ?_, by simp⟩
      rintro pc' ⟨⟩ id t hid
      rw [hcurrent] at hid
      cases hid
    | some id =>
      simp only [destroy, hcurrent] at hstep
      cases hstep
      refine ⟨hI, hrefl, ?_, by simp⟩
      rintro pc' ⟨⟩ j hj
      rw [hcurrent] at hj
      exact (Option.some.inj hj).symm
  | wait id =>
    by_cases halive : h.isAlive id = true
    · simp [destroy, halive] at hstep
    · simp only [destroy, if_neg halive] at hstep
      cases hstep
      refine ⟨hI, hrefl, ?_, by simp⟩
      rintro pc' ⟨⟩ j t hj ht
      obtain ⟨u, hu, hnew⟩ := hI.current j hj
      rw [ht] at hu
      cases hu
      have hrunning : t.pc ≠ .running := by
        intro hpc
        rw [hok j hj] at ht
        exact halive (by simp [isAlive, ht, hpc])
      cases hpc : t.pc with
      | new => exact (hnew.mp hpc).elim
      | running => exact absurd hpc hrunning
      | terminated => rfl
  | clear =>
    unfold destroy at hstep
    cases hstep
    refine ⟨⟨by simp, ?_⟩, ⟨by simp, hrefl.ended⟩, by simp, by simp⟩
    -- the thread that the field referred to has ended
    intro id t ht hpc
    have hend := hok id t (hI.alone id t ht hpc) ht
    rw [hpc] at hend
    cases hend

theorem createThread_inv (hI : h.Inv False) (hnone : h.rpcThread = none) :
    h.createThread.Inv True ∧ h.createThread.Active := by
  have hlookup : h.createThread.threads[h.threads.length]? = some ⟨.new, false⟩ :=
    List.getElem?_concat_length
  refine ⟨⟨?_, ?_⟩, ⟨h.threads.length, _, rfl, hlookup, rfl, by simp⟩⟩
  · rintro id ⟨⟩
    exact ⟨_, hlookup, by simp⟩
  · intro id t ht hpc
    have ht : (h.threads ++ [⟨.new, false⟩])[id]? = some t := ht
    rw [List.getElem?_append] at ht
    split at ht
    · rw [hI.alone id t ht hpc] at hnone
      cases hnone
    · obtain ⟨hlt, hnew⟩ := List.getElem?_eq_some_iff.mp ht
      rw [List.getElem_singleton] at hnew
      rw [← hnew] at hpc
      cases hpc

theorem startThread_inv (hI : h.Inv True) (ha : h.Active) :
    h.startThread.Inv False ∧ h.startThread.Active := by
  obtain ⟨id, t, hid, ht, hinterrupt, -⟩ := ha
  have hstart : h.startThread = h.modifyThread id fun t => { t with pc := .running } := by
    rw [startThread, hid]
  have hlookup : h.startThread.threads[id]? = some { t with pc := .running } := by
    rw [hstart, modifyThread_lookup, ht]
    simp
  have hcurrent : h.startThread.rpcThread = some id := by rw [hstart]; exact hid
  refine ⟨⟨?_, ?_⟩, id, _, hcurrent, hlookup, hinterrupt, by simp⟩
  · intro j hj
    rw [hcurrent] at hj
    cases hj
    exact ⟨_, hlookup, by simp⟩
  · intro j u hu hpc
    rw [hcurrent]
    by_cases hij : id = j
    · rw [hij]
    · rw [hstart, modifyThread_lookup] at hu
      obtain ⟨v, hv, rfl⟩ := Option.map_eq_some_iff.mp hu
      rw [if_neg hij] at hpc
      rw [← hid]
      exact hI.alone j v hv hpc

/-- The end of a thread that has been told to end. -/
theorem loopEnd_spec {starting : Prop} {id : Nat} {t : RpcThread} (hI : h.Inv starting)
    (ht : h.threads[id]? = some t) (hpc : t.pc = .running) (hinterrupt : t.interrupt = true) :
    (h.modifyThread id fun t => { t with pc := .terminated }).Inv starting ∧
      h.Keeps (h.modifyThread id fun t => { t with pc := .terminated }) ∧
      (h.Active → (h.modifyThread id fun t => { t with pc := .terminated }).Active) := by
  refine ⟨modifyThread_inv hI ?_ (by simp), modifyThread_keeps fun _ _ => rfl, ?_⟩
  · intro u hu
    rw [ht] at hu
    cases hu
    simp [hpc]
  · rintro ⟨j, u, hj, hu, hnot, hend⟩
    have hij : id ≠ j := by
      rintro rfl
      rw [ht] at hu
      cases hu
      rw [hinterrupt] at hnot
      cases hnot
    exact ⟨j, u, hj, by rw [modifyThread_lookup, hu]; simp [hij], hnot, hend⟩

end DeviceRpcHandler

/-! ## Steps -/

namespace Service

variable {s s' : Service} {a : Action}

/-- What a step does, by the action, with what the state before it must look like. The
invariant is proved of these cases and never of `machine` itself. -/
inductive Step (s : Service) : Action → Service → Prop where
  | start (hmain : s.main = .idle) (hrunning : s.isRunning = false) :
      Step s .startService { s with isRunning := true, main := .createThread }
  | startAgain (hrunning : s.isRunning = true) : Step s .startService s
  | stop (hmain : s.main = .idle) :
      Step s .stopService { s with isRunning := false, main := .destroy .interrupt }
  | containerStop (hmain : s.main = .idle) :
      Step s .containerStop { s with main := .destroy .interrupt }
  | createThread (hmain : s.main = .createThread) :
      Step s .main { s with handler := s.handler.createThread, main := .startThread }
  | startThread (hmain : s.main = .startThread) :
      Step s .main { s with handler := s.handler.startThread, main := .doRestartProcedure }
  | doRestartProcedure (hmain : s.main = .doRestartProcedure) :
      Step s .main { s with restartProcedure := true, main := .idle }
  | destroy {pc : DestroyPc} {handler : DeviceRpcHandler} {next : Option DestroyPc}
      (hmain : s.main = .destroy pc) (hstep : s.handler.destroy pc = some (handler, next)) :
      Step s .main { s with handler := handler, main := next.elim .idle .destroy }
  | request {id : Nat} :
      Step s (.restartAnxService id) { s with restarts := s.restarts ++ [.sleep] }
  | noProcedure {i : Nat} (hi : s.restarts[i]? = some .sleep) :
      Step s (.restart i) { s with restarts := s.restarts.set i .done }
  | invoke {i : Nat} (hi : s.restarts[i]? = some .sleep) (hproc : s.restartProcedure = true) :
      Step s (.restart i)
        { s with isRunning := false, restarts := s.restarts.set i (.destroy .interrupt) }
  | restart {i : Nat} {pc : DestroyPc} {handler : DeviceRpcHandler} {next : Option DestroyPc}
      (hi : s.restarts[i]? = some (.destroy pc))
      (hstep : s.handler.destroy pc = some (handler, next)) :
      Step s (.restart i)
        { s with handler := handler, restarts := s.restarts.set i (next.elim .done .destroy) }
  | loopEnd {id : Nat} {t : RpcThread} (ht : s.handler.threads[id]? = some t)
      (hpc : t.pc = .running) (hinterrupt : t.interrupt = true) :
      Step s (.loopEnd id)
        { s with handler := s.handler.modifyThread id fun t => { t with pc := .terminated } }
  | exception {id : Nat} :
      Step s (.exception id)
        { s with handler := s.handler.modifyThread id fun t => { t with pc := .terminated } }

theorem step_cases (h : machine.step s a = some s') : s.Step a s' := by
  cases a with
  | startService =>
    obtain ⟨hmain, h⟩ := Option.ite_none_right_eq_some.mp h
    cases hrunning : s.isRunning with
    | true =>
      rw [hrunning] at h
      cases h
      exact .startAgain hrunning
    | false =>
      rw [hrunning] at h
      cases h
      exact .start hmain hrunning
  | stopService =>
    obtain ⟨hmain, h⟩ := Option.ite_none_right_eq_some.mp h
    cases h
    exact .stop hmain
  | containerStop =>
    obtain ⟨hmain, h⟩ := Option.ite_none_right_eq_some.mp h
    cases h
    exact .containerStop hmain
  | main =>
    cases hmain : s.main with
    | idle => simp [machine, hmain] at h
    | createThread =>
      simp only [machine, hmain] at h
      cases h
      exact .createThread hmain
    | startThread =>
      simp only [machine, hmain] at h
      cases h
      exact .startThread hmain
    | doRestartProcedure =>
      simp only [machine, hmain] at h
      cases h
      exact .doRestartProcedure hmain
    | destroy pc =>
      simp only [machine, hmain] at h
      obtain ⟨⟨handler, next⟩, hstep, h⟩ := Option.bind_eq_some_iff.mp h
      cases h
      exact .destroy hmain hstep
  | restartAnxService id =>
    obtain ⟨-, h⟩ := Option.ite_none_right_eq_some.mp h
    cases h
    exact .request
  | restart i =>
    simp only [machine] at h
    split at h
    · next hi =>
      split at h
      · next hproc =>
        cases h
        exact .invoke hi hproc
      · cases h
        exact .noProcedure hi
    · next pc hi =>
      obtain ⟨⟨handler, next⟩, hstep, h⟩ := Option.bind_eq_some_iff.mp h
      cases h
      exact .restart hi hstep
    · cases h
  | loopEnd id =>
    obtain ⟨t, ht, h⟩ := Option.bind_eq_some_iff.mp h
    obtain ⟨⟨hpc, hinterrupt⟩, h⟩ := Option.ite_none_right_eq_some.mp h
    cases h
    exact .loopEnd ht hpc hinterrupt
  | exception id =>
    obtain ⟨-, h⟩ := Option.ite_none_right_eq_some.mp h
    cases h
    exact .exception

/-! ## The invariant -/

/-- What holds between the steps. A start that has not made its thread yet counts as not
running for the handler.

Flag and thread cannot agree at every moment: `destroy` ends the thread some steps after the
flag is cleared. The invariant keeps the debt instead: a service that is not running has no
thread, or a call of `destroy` that is going to clear the field; one that is running has its
thread and no such call. When nothing is under way the debt is paid, and this is `Agrees`
(`agrees_of_inv`). -/
structure Inv (s : Service) : Prop where
  handler : s.handler.Inv (s.main = .startThread)
  starting : s.main = .createThread ∨ s.main = .startThread → s.isRunning = true
  -- `destroys` may hold several calls; the last one to end clears the field
  stopped : s.isRunning = false ∨ s.main = .createThread →
    s.handler.rpcThread = none ∨ ∃ pc, pc ∈ s.destroys
  running : s.isRunning = true → s.main ≠ .createThread →
    (∀ pc, pc ∉ s.destroys) ∧ s.handler.Active
  destroys : ∀ pc ∈ s.destroys, s.handler.DestroyOk pc

theorem mem_destroys {pc : DestroyPc} :
    pc ∈ s.destroys ↔ s.main = .destroy pc ∨ .destroy pc ∈ s.restarts := by
  have hmain : ∀ m : MainPc, pc ∈ m.destroys ↔ m = .destroy pc := by
    intro m
    cases m <;> simp [MainPc.destroys, eq_comm]
  have hrestart : ∀ r : RestartPc, pc ∈ r.destroys ↔ r = .destroy pc := by
    intro r
    cases r <;> simp [RestartPc.destroys, eq_comm]
  unfold destroys
  rw [List.mem_append, hmain, List.mem_flatMap]
  refine or_congr_right ?_
  constructor
  · rintro ⟨r, hr, hpc⟩
    exact (hrestart r).mp hpc ▸ hr
  · exact fun hr => ⟨_, hr, (hrestart _).mpr rfl⟩

/-- A thread that is not in `destroy` may do something else. -/
theorem mem_set_of_ne {pc : DestroyPc} {i : Nat} {r r' : RestartPc} (hi : s.restarts[i]? = some r)
    (hne : r ≠ .destroy pc) (hpc : .destroy pc ∈ s.restarts) :
    .destroy pc ∈ s.restarts.set i r' := by
  obtain ⟨j, hj⟩ := List.mem_iff_getElem?.mp hpc
  refine List.mem_iff_getElem?.mpr ⟨j, ?_⟩
  have hij : i ≠ j := by
    rintro rfl
    rw [hi] at hj
    exact hne (Option.some.inj hj)
  rw [List.getElem?_set_ne hij, hj]

theorem init_inv : init.Inv := by
  constructor <;> simp [init, destroys, MainPc.destroys]
  constructor <;> simp

/-- Between the calls, and while a call of `destroy` is under way, no start is. -/
theorem inv_handler_false (hI : s.Inv) (h : s.main ≠ .startThread) : s.handler.Inv False := by
  have hI := hI.handler
  rwa [eq_false h] at hI

/-- While a call of `destroy` is under way, the service is not running, or has not made its
thread yet. -/
theorem stopped_of_mem (hI : s.Inv) {pc : DestroyPc} (hpc : pc ∈ s.destroys) :
    (s.isRunning = false ∨ s.main = .createThread) ∧ s.main ≠ .startThread := by
  have hstopped : s.isRunning = false ∨ s.main = .createThread := by
    by_contra hnot
    rw [not_or] at hnot
    exact (hI.running (by simpa using hnot.1) hnot.2).1 pc hpc
  refine ⟨hstopped, fun hmain => ?_⟩
  have hrunning := hI.starting (.inr hmain)
  simp [hrunning, hmain] at hstopped

/-- The start of the service: calls of `destroy` on the restart threads go on beside it. -/
theorem inv_start (hI : s.Inv) (hmain : s.main = .idle) (hrunning : s.isRunning = false) :
    Inv { s with isRunning := true, main := .createThread } := by
  refine ⟨by simpa using inv_handler_false hI (by simp [hmain]), by simp, ?_, by simp, ?_⟩
  · intro _
    simpa [mem_destroys, hmain] using hI.stopped (.inl hrunning)
  · intro pc hpc
    rw [mem_destroys] at hpc
    exact hI.destroys pc (mem_destroys.mpr (.inr (by simpa using hpc)))

/-- A call of `destroy` begins on the main thread, while the service is not running. -/
theorem inv_beginDestroy (hI : s.Inv) (hmain : s.main = .idle) :
    Inv { s with isRunning := false, main := .destroy .interrupt } := by
  refine ⟨by simpa using inv_handler_false hI (by simp [hmain]), by simp, ?_, by simp, ?_⟩
  · exact fun _ => .inr ⟨.interrupt, by simp [mem_destroys]⟩
  · intro pc hpc
    rw [mem_destroys] at hpc
    obtain ⟨⟨⟩⟩ | hpc := hpc
    · trivial
    · exact hI.destroys pc (mem_destroys.mpr (.inr hpc))

/-- The thread is made while no call of `destroy` is under way: the last one has set the
field to null, so that no other thread runs. -/
theorem inv_createThread (hI : s.Inv) (hmain : s.main = .createThread) (hnil : s.destroys = []) :
    Inv { s with handler := s.handler.createThread, main := .startThread } := by
  have hnone : s.handler.rpcThread = none := by
    obtain hnone | ⟨pc, hpc⟩ := hI.stopped (.inr hmain)
    · exact hnone
    · rw [hnil] at hpc
      cases hpc
  have hnot : ∀ pc, .destroy pc ∉ s.restarts := fun pc hpc => by
    have hmem : pc ∈ s.destroys := mem_destroys.mpr (.inr hpc)
    rw [hnil] at hmem
    cases hmem
  obtain ⟨hinv, hactive⟩ :=
    DeviceRpcHandler.createThread_inv (inv_handler_false hI (by simp [hmain])) hnone
  have hrunning := hI.starting (.inl hmain)
  refine ⟨by simpa using hinv, fun _ => hrunning, by simp [hrunning], ?_, ?_⟩
  · exact fun _ _ => ⟨by simp [mem_destroys, hnot], hactive⟩
  · simp [mem_destroys, hnot]

theorem inv_startThread (hI : s.Inv) (hmain : s.main = .startThread) :
    Inv { s with handler := s.handler.startThread, main := .doRestartProcedure } := by
  have hrunning := hI.starting (.inr hmain)
  obtain ⟨hnil, hactive⟩ := hI.running hrunning (by simp [hmain])
  have hinv : s.handler.Inv True := by
    have hinv := hI.handler
    rwa [eq_true hmain] at hinv
  obtain ⟨hinv', hactive'⟩ := DeviceRpcHandler.startThread_inv hinv hactive
  simp only [mem_destroys, not_or] at hnil
  refine ⟨by simpa using hinv', by simp, by simp [hrunning], ?_, ?_⟩
  · exact fun _ _ => ⟨by simp [mem_destroys, hnil], hactive'⟩
  · simp [mem_destroys, hnil]

theorem inv_doRestartProcedure (hI : s.Inv) (hmain : s.main = .doRestartProcedure) :
    Inv { s with restartProcedure := true, main := .idle } := by
  refine ⟨by simpa using inv_handler_false hI (by simp [hmain]), by simp, ?_, ?_, ?_⟩
  · simpa [mem_destroys, hmain] using hI.stopped
  · simpa [mem_destroys, hmain] using hI.running
  · intro pc hpc
    rw [mem_destroys] at hpc
    exact hI.destroys pc (mem_destroys.mpr (.inr (by simpa using hpc)))

/-- A step of `destroy` on the main thread. The other calls keep what they rely on, since
the handler only gets further (`Keeps`). -/
theorem inv_destroy {pc : DestroyPc} {handler : DeviceRpcHandler} {next : Option DestroyPc}
    (hI : s.Inv) (hmain : s.main = .destroy pc)
    (hstep : s.handler.destroy pc = some (handler, next)) :
    Inv { s with handler := handler, main := next.elim .idle .destroy } := by
  have hmem : pc ∈ s.destroys := mem_destroys.mpr (.inl hmain)
  have hrunning : s.isRunning = false := by
    simpa [hmain] using (stopped_of_mem hI hmem).1
  have hothers : ∀ q, .destroy q ∈ s.restarts → s.handler.DestroyOk q := fun q hq =>
    hI.destroys q (mem_destroys.mpr (.inr hq))
  obtain ⟨hinv, hkeeps, hnext, hlast⟩ := DeviceRpcHandler.destroy_spec
    (inv_handler_false hI (by simp [hmain])) (hI.destroys pc hmem) hstep
  cases next with
  | none =>
    refine ⟨by simpa using hinv, by simp, fun _ => .inl (hlast rfl), by simp [hrunning], ?_⟩
    intro q hq
    rw [mem_destroys] at hq
    exact hkeeps.destroyOk (hothers q (by simpa using hq))
  | some pc' =>
    refine ⟨by simpa using hinv, by simp, ?_, by simp [hrunning], ?_⟩
    · exact fun _ => .inr ⟨pc', by simp [mem_destroys]⟩
    · intro q hq
      rw [mem_destroys] at hq
      obtain ⟨⟨⟩⟩ | hq := hq
      · exact hnext pc' rfl
      · exact hkeeps.destroyOk (hothers q hq)

/-- Nothing changes for the handler while the calls of `destroy` under way stay the same. -/
theorem inv_restarts {restarts : List RestartPc} (hI : s.Inv)
    (hsame : ∀ pc, .destroy pc ∈ restarts ↔ .destroy pc ∈ s.restarts) :
    Inv { s with restarts := restarts } := by
  have hdestroys : ∀ pc, pc ∈ destroys { s with restarts := restarts } ↔ pc ∈ s.destroys := by
    intro pc
    rw [mem_destroys, mem_destroys, hsame]
  refine ⟨hI.handler, hI.starting, ?_, ?_, ?_⟩
  · simpa only [hdestroys] using hI.stopped
  · simpa only [hdestroys] using hI.running
  · simpa only [hdestroys] using hI.destroys

/-- A restart thread calls the procedure, which begins with `destroy`: only once the start
that set the procedure is over. -/
theorem inv_invoke {i : Nat} (hI : s.Inv) (hi : s.restarts[i]? = some .sleep)
    (hcreate : s.main ≠ .createThread) (hstart : s.main ≠ .startThread) :
    Inv { s with isRunning := false, restarts := s.restarts.set i (.destroy .interrupt) } := by
  have hlt : i < s.restarts.length := (List.getElem?_eq_some_iff.mp hi).1
  refine ⟨by simpa [hstart] using inv_handler_false hI hstart, by simp [hcreate, hstart], ?_,
    by simp, ?_⟩
  · refine fun _ => .inr ⟨.interrupt, ?_⟩
    rw [mem_destroys]
    exact .inr (List.mem_set hlt _)
  · intro pc hpc
    rw [mem_destroys] at hpc
    obtain hpc | hpc := hpc
    · exact hI.destroys pc (mem_destroys.mpr (.inl hpc))
    · obtain hpc | ⟨⟨⟩⟩ := List.mem_or_eq_of_mem_set hpc
      · exact hI.destroys pc (mem_destroys.mpr (.inr hpc))
      · trivial

/-- A step of `destroy` on a restart thread. -/
theorem inv_restart {i : Nat} {pc : DestroyPc} {handler : DeviceRpcHandler}
    {next : Option DestroyPc} (hI : s.Inv) (hi : s.restarts[i]? = some (.destroy pc))
    (hstep : s.handler.destroy pc = some (handler, next)) :
    Inv { s with handler := handler, restarts := s.restarts.set i (next.elim .done .destroy) } := by
  have hmem : pc ∈ s.destroys := mem_destroys.mpr (.inr (List.mem_of_getElem? hi))
  obtain ⟨hstop, hstart⟩ := stopped_of_mem hI hmem
  obtain ⟨hinv, hkeeps, hnext, hlast⟩ := DeviceRpcHandler.destroy_spec
    (inv_handler_false hI hstart) (hI.destroys pc hmem) hstep
  have hlt : i < s.restarts.length := (List.getElem?_eq_some_iff.mp hi).1
  refine ⟨by simpa [hstart] using hinv, hI.starting, ?_, ?_, ?_⟩
  · intro _
    cases next with
    | none => exact .inl (hlast rfl)
    | some pc' =>
      refine .inr ⟨pc', ?_⟩
      rw [mem_destroys]
      exact .inr (List.mem_set hlt _)
  · intro hrunning hcreate
    exact absurd hstop (by simp [show s.isRunning = true from hrunning,
      show s.main ≠ .createThread from hcreate])
  · intro q hq
    rw [mem_destroys] at hq
    obtain hq | hq := hq
    · exact hkeeps.destroyOk (hI.destroys q (mem_destroys.mpr (.inl hq)))
    · obtain hq | hq := List.mem_or_eq_of_mem_set hq
      · exact hkeeps.destroyOk (hI.destroys q (mem_destroys.mpr (.inr hq)))
      · cases next with
        | none => cases hq
        | some pc' =>
          cases hq
          exact hnext _ rfl

/-- A thread that was told to end leaves the loop: it is not the one that serves. -/
theorem inv_loopEnd {id : Nat} {t : RpcThread} (hI : s.Inv) (ht : s.handler.threads[id]? = some t)
    (hpc : t.pc = .running) (hinterrupt : t.interrupt = true) :
    Inv { s with handler := s.handler.modifyThread id fun t => { t with pc := .terminated } } := by
  obtain ⟨hinv, hkeeps, hactive⟩ := DeviceRpcHandler.loopEnd_spec hI.handler ht hpc hinterrupt
  refine ⟨hinv, hI.starting, hI.stopped, ?_, ?_⟩
  · exact fun hrunning hmain => (hI.running hrunning hmain).imp_right hactive
  · exact fun pc hpc => hkeeps.destroyOk (hI.destroys pc hpc)

/-- Every step in turn keeps the invariant, by the action. -/
theorem inv_step (hI : s.Inv) (hG : s.InTurn a) (h : machine.step s a = some s') : s'.Inv := by
  cases step_cases h with
  | start hmain hrunning => exact inv_start hI hmain hrunning
  | startAgain => exact hI
  | stop hmain => exact inv_beginDestroy hI hmain
  | containerStop hmain =>
    -- this call does not clear the flag, which is clear already
    have hrunning : s.isRunning = false := hG
    have hbegin := inv_beginDestroy hI hmain
    rwa [← hrunning] at hbegin
  | createThread hmain => exact inv_createThread hI hmain (hG hmain)
  | startThread hmain => exact inv_startThread hI hmain
  | doRestartProcedure hmain => exact inv_doRestartProcedure hI hmain
  | destroy hmain hstep => exact inv_destroy hI hmain hstep
  | request => exact inv_restarts hI (by simp)
  | noProcedure hi =>
    refine inv_restarts hI fun pc => ⟨fun hpc => ?_, mem_set_of_ne hi (by simp)⟩
    exact (List.mem_or_eq_of_mem_set hpc).resolve_right (by simp)
  | invoke hi hproc =>
    obtain ⟨hcreate, hstart⟩ := hG hi hproc
    exact inv_invoke hI hi hcreate hstart
  | restart hi hstep => exact inv_restart hI hi hstep
  | loopEnd ht hpc hinterrupt => exact inv_loopEnd hI ht hpc hinterrupt
  | exception => exact hG.elim

/-! ## Agreement -/

/-- A start on its own makes a thread that serves. -/
theorem startRun_of_stopped (hmain : s.main = .idle) (hrunning : s.isRunning = false) :
    ∃ s', machine.exec s s.startRun = some s' ∧ s'.main = .idle ∧
      ∃ id, s'.handler.rpcThread = some id ∧ s'.Serving id := by
  have hrun : s.startRun = [.startService, .main, .main, .main] := by
    simp [startRun, hrunning]
  refine ⟨{ s with
    isRunning := true
    handler := s.handler.createThread.startThread
    main := .idle
    restartProcedure := true }, ?_, rfl, s.handler.threads.length, ?_, ⟨.running, false⟩, ?_,
    rfl, rfl⟩
  · rw [hrun]
    simp [Machine.exec, machine, hmain, hrunning]
  · rfl
  · show (s.handler.createThread.modifyThread s.handler.threads.length _).threads[_]? = _
    rw [DeviceRpcHandler.modifyThread_lookup]
    simp [DeviceRpcHandler.createThread]

/-- **Flag and thread agree** when nothing is under way. -/
theorem agrees_of_inv (hI : s.Inv) (hq : s.Quiescent) : s.Agrees := by
  obtain ⟨hmain, hnil⟩ := hq
  have hactive : s.isRunning = true → ∃ id, s.handler.rpcThread = some id ∧ s.Serving id := by
    intro hrunning
    obtain ⟨id, t, hid, ht, hinterrupt, hend⟩ := (hI.running hrunning (by simp [hmain])).2
    obtain ⟨u, hu, hnew⟩ := hI.handler.current id hid
    rw [ht] at hu
    cases hu
    refine ⟨id, hid, t, ht, ?_, hinterrupt⟩
    cases hpc : t.pc with
    | new => exact absurd (hnew.mp hpc) (by simp [hmain])
    | running => rfl
    | terminated => exact absurd hpc hend
  refine ⟨⟨hactive, ?_⟩, ?_, ?_⟩
  · rintro ⟨id, hid, -⟩
    by_contra hrunning
    obtain hnone | ⟨pc, hpc⟩ := hI.stopped (.inl (by simpa using hrunning))
    · rw [hnone] at hid
      cases hid
    · rw [hnil] at hpc
      cases hpc
  · intro id halive
    unfold DeviceRpcHandler.isAlive at halive
    cases ht : s.handler.threads[id]? with
    | none => simp [ht] at halive
    | some t => exact hI.handler.alone id t ht (by simpa [ht] using halive)
  · cases hrunning : s.isRunning with
    | true =>
      have hrun : s.startRun = [.startService] := by simp [startRun, hrunning]
      refine ⟨s, ?_, hmain, hactive hrunning⟩
      rw [hrun]
      simp [Machine.exec, machine, hmain, hrunning]
    | false => exact startRun_of_stopped hmain hrunning

/-- **The service and its thread** agree whenever nothing is under way, in every run whose
steps are in turn. -/
theorem agrees_of_guarded (as : List Action) (h : machine.Guarded InTurn init as) :
    machine.Always (fun s => s.Quiescent → s.Agrees) init as :=
  (Machine.always_of_guarded (fun _ _ _ hI hG hstep => inv_step hI hG hstep) init_inv h).mono
    fun _ hI hq => agrees_of_inv hI hq

/-- A start, a restart in its turn, and a stop. -/
theorem agrees_of_guarded_restart : machine.Always (fun s => s.Quiescent → s.Agrees) init
    [.startService, .main, .main, .main, .restartAnxService 0, .restart 0, .restart 0, .restart 0,
      .loopEnd 0, .restart 0, .restart 0, .startService, .main, .main, .main, .stopService] :=
  agrees_of_guarded _ (by decide)

/-- `containerStop` while the service runs: the flag stays, and the thread is gone. -/
theorem not_always_agrees :
    ¬ ∀ as, machine.Always (fun s => s.Quiescent → s.Agrees) init as := by
  intro h
  have hrun : machine.exec init [.startService, .main, .main, .main, .containerStop, .main, .main,
      .loopEnd 0, .main, .main] =
      some ⟨true, ⟨none, [⟨.terminated, true⟩]⟩, .idle, true, []⟩ := rfl
  have hagrees := (Machine.Always.of_append (h (_ ++ [])) hrun).head ⟨rfl, rfl⟩
  obtain ⟨id, hid, -⟩ := hagrees.running.mp rfl
  cases hid

end Service

end Anx.Daemon
