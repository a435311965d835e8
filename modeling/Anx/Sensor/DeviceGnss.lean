import Mathlib.Data.Prod.Lex
import Mathlib.Data.List.Basic
import Anx.Lib.Machine

/-!
# The GNSS threads

`DeviceGnss.start` makes an `NMEAMessageThread` and `stop` kills the one that
`nmeaMsgThread` refers to, through its `handler`. The thread assigns the handler only when
it runs; `kill` drops its message without a word as long as the handler is null.

- `NMEAMessageThread`, `DeviceGnss`, `machine`: the threads, their loopers and the requests,
  in any interleaving;
- `Settled`: a thread that has been told to end, or has ended;
- `Owned`: every started thread is the current one, or settled;
- `ThreadOwnership`: with what follows, that at most one thread stays bound to the address
  and that all threads end after a stop;
- `threadOwnership_iff`: **no thread is lost** exactly in the runs whose starts find no
  thread running and whose stops find the handler assigned.
-/

namespace Anx.Sensor.Gnss

open Anx.Lib

/-- `MSG_NMEA_DATA`, without the data, and `SIG_KILL_THREAD`. -/
inductive Msg where
  | nmeaData
  | killThread
deriving DecidableEq

/-- Where `NMEAMessageThread.run` is: not started, at `publisher.init`, at
`Looper.prepare`, at the assignment of `handler`, in `Looper.loop`, at `publisher.close`, or
at its end. -/
inductive ThreadPc where
  | new
  | publisher
  | prepare
  | assign
  | loop
  | close
  | terminated
deriving DecidableEq

/-- An `NMEAMessageThread` with the message queue of its looper. -/
structure NMEAMessageThread where
  pc : ThreadPc
  handler : Bool
  queue : List Msg
  quitting : Bool
deriving DecidableEq

namespace NMEAMessageThread

/-- A thread that has not been started. -/
def new : NMEAMessageThread := ⟨.new, false, [], false⟩

/-- `handler?.sendMsg`. A looper that is quitting takes no more messages. -/
def sendMsg (t : NMEAMessageThread) (msg : Msg) : NMEAMessageThread :=
  if t.handler = true ∧ t.quitting = false then { t with queue := t.queue ++ [msg] } else t

/-- The next step of `run`. -/
def run (t : NMEAMessageThread) : Option NMEAMessageThread :=
  match t.pc, t.queue with
  | .new, _ => none
  | .publisher, _ => some { t with pc := .prepare }
  | .prepare, _ => some { t with pc := .assign }
  | .assign, _ => some { t with pc := .loop, handler := true }
  | .loop, .nmeaData :: queue => some { t with queue := queue }
  -- `quitSafely`: the messages that are already there are still handled
  | .loop, .killThread :: queue => some { t with queue := queue, quitting := true }
  | .loop, [] => if t.quitting then some { t with pc := .close } else none
  | .close, _ => some { t with pc := .terminated }
  | .terminated, _ => none

/-- An exception in `run`, which it catches. -/
def throw (t : NMEAMessageThread) : Option NMEAMessageThread :=
  if t.pc = .new ∨ t.pc = .terminated then none else some { t with pc := .terminated }

end NMEAMessageThread

/-- Where the thread that handles the requests is: waiting for one, at
`nmeaMsgThread?.start`, in `kill` of a thread, or at `nmeaMsgThread = null`, where `dropped`
says whether `kill` has found no handler. -/
inductive RpcPc where
  | idle
  | start
  | kill (id : Nat)
  | clear (dropped : Bool)
deriving DecidableEq

inductive Request where
  | startDeviceGnss
  | stopDeviceGnss
deriving DecidableEq

/-- All threads ever made, by number, the field that refers to the current one, the
handling of requests, and the thread to which `onNmeaMessage` is about to send. -/
structure DeviceGnss where
  threads : List NMEAMessageThread
  nmeaMsgThread : Option Nat
  rpc : RpcPc
  listener : Option Nat
deriving DecidableEq

inductive Action where
  | receive (r : Request)
  | rpc
  | run (id : Nat)
  | throw (id : Nat)
  | onNmeaMessage
  | publishNMEAData
deriving DecidableEq

namespace DeviceGnss

def init : DeviceGnss := ⟨[], none, .idle, none⟩

/-- The state with another thread `id`. -/
def setThread (s : DeviceGnss) (id : Nat) (t : NMEAMessageThread) : DeviceGnss :=
  { s with threads := s.threads.set id t }

end DeviceGnss

/-- The requests, one after another, the threads and the listener on the main thread. -/
def machine : Machine DeviceGnss Action where
  step s
    | .receive .startDeviceGnss =>
      if s.rpc = .idle then some { s with
        threads := s.threads ++ [.new]
        nmeaMsgThread := some s.threads.length
        rpc := .start }
      else none
    | .receive .stopDeviceGnss =>
      if s.rpc = .idle then
        match s.nmeaMsgThread with
        | some id => some { s with rpc := .kill id }
        | none => some { s with rpc := .clear false }
      else none
    | .rpc =>
      match s.rpc with
      | .idle => none
      | .start => do
        let id ← s.nmeaMsgThread
        let t ← s.threads[id]?
        return { s.setThread id { t with pc := .publisher } with rpc := .idle }
      | .kill id => do
        let t ← s.threads[id]?
        return { s.setThread id (t.sendMsg .killThread) with rpc := .clear (!t.handler) }
      | .clear _ => some { s with nmeaMsgThread := none, rpc := .idle }
    | .run id => do
      let t ← s.threads[id]?
      return s.setThread id (← t.run)
    | .throw id => do
      let t ← s.threads[id]?
      return s.setThread id (← t.throw)
    | .onNmeaMessage => do
      let id ← s.nmeaMsgThread
      return { s with listener := some id }
    | .publishNMEAData => do
      let id ← s.listener
      let t ← s.threads[id]?
      return { s.setThread id (t.sendMsg .nmeaData) with listener := none }

/-! ## Threads -/

namespace NMEAMessageThread

variable {t t' : NMEAMessageThread}

/-- The looper has a `SIG_KILL_THREAD` message, or has handled one. -/
def Killed (t : NMEAMessageThread) : Prop := .killThread ∈ t.queue ∨ t.quitting = true

/-- The thread has been told to end, or has ended. -/
def Settled (t : NMEAMessageThread) : Prop := t.Killed ∨ t.pc = .terminated

/-- The publisher is bound to the address. -/
def Bound (t : NMEAMessageThread) : Prop :=
  t.pc ≠ .new ∧ t.pc ≠ .publisher ∧ t.pc ≠ .terminated

/-- The handler is assigned before the loop, and a looper quits before its thread ends. -/
structure Wf (t : NMEAMessageThread) : Prop where
  assigned : t.handler = true → t.pc = .loop ∨ t.pc = .close ∨ t.pc = .terminated
  loop : t.pc = .loop ∨ t.pc = .close → t.handler = true
  null : t.handler = false → ¬ t.Killed
  close : t.pc = .close → t.quitting = true

theorem new_wf : new.Wf := by
  constructor <;> simp [new, Killed]

/-- What the thread itself and the listener do, by the action. -/
inductive Op (id : Nat) (t : NMEAMessageThread) : Action → NMEAMessageThread → Prop where
  | run {t' : NMEAMessageThread} (h : t.run = some t') : Op id t (.run id) t'
  | throw {t' : NMEAMessageThread} (h : t.throw = some t') : Op id t (.throw id) t'
  | publish : Op id t .publishNMEAData (t.sendMsg .nmeaData)

/-- None of these tells a thread to end, or revives one. -/
structure Follows (t t' : NMEAMessageThread) : Prop where
  wf : t.Wf → t'.Wf
  killed : t'.Killed ↔ t.Killed
  new : t'.pc = .new ↔ t.pc = .new
  terminated : t.pc = .terminated → t'.pc = .terminated

theorem run_follows (h : t.run = some t') : t.Follows t' := by
  unfold run at h
  split at h
  all_goals first
    | cases h
      constructor <;> grind [Killed, Wf]
    | (split at h <;> cases h)
      constructor <;> grind [Killed, Wf]
    | cases h

theorem throw_follows (h : t.throw = some t') : t.Follows t' := by
  unfold throw at h
  split at h
  · cases h
  · cases h
    constructor <;> grind [Killed, Wf]

theorem sendMsg_nmeaData_follows : t.Follows (t.sendMsg .nmeaData) := by
  unfold sendMsg
  split
  · constructor <;> grind [Killed, Wf]
  · constructor <;> grind [Killed, Wf]

theorem Op.follows {id : Nat} {a : Action} (h : Op id t a t') : t.Follows t' := by
  cases h with
  | run h => exact run_follows h
  | throw h => exact throw_follows h
  | publish => exact sendMsg_nmeaData_follows

/-- `kill` reaches a thread whose handler is assigned. -/
theorem sendMsg_killThread (hwf : t.Wf) :
    (t.sendMsg .killThread).Wf ∧
      ((t.sendMsg .killThread).Killed ↔ t.Killed ∨ t.handler = true) ∧
      (t.sendMsg .killThread).pc = t.pc := by
  unfold sendMsg
  split
  · refine ⟨?_, ?_, rfl⟩
    · constructor <;> grind [Killed, Wf]
    · grind [Killed]
  · refine ⟨hwf, ?_, rfl⟩
    grind [Killed]

theorem Follows.settled (h : t.Follows t') (hs : t.Settled) : t'.Settled :=
  hs.imp h.killed.mpr h.terminated

end NMEAMessageThread

namespace DeviceGnss

variable {s s' : DeviceGnss} {a : Action}

theorem setThread_lookup {id : Nat} {t t' : NMEAMessageThread} (h : s.threads[id]? = some t)
    (j : Nat) :
    (s.setThread id t').threads[j]? = if id = j then some t' else s.threads[j]? := by
  have hlt : id < s.threads.length := (List.getElem?_eq_some_iff.mp h).1
  unfold setThread
  rw [List.getElem?_set, if_pos hlt]

/-! ## Steps -/

/-- What `stopDeviceGnss` does first. -/
def killPc (s : DeviceGnss) : RpcPc :=
  match s.nmeaMsgThread with
  | some id => .kill id
  | none => .clear false

/-- What a step does, by the action. -/
inductive Step (s : DeviceGnss) : Action → DeviceGnss → Prop where
  | thread {id : Nat} {t t' : NMEAMessageThread} {a : Action} {l : Option Nat}
      (hid : s.threads[id]? = some t) (hop : t.Op id a t') :
      Step s a { s.setThread id t' with listener := l }
  | listen {id : Nat} : Step s .onNmeaMessage { s with listener := some id }
  | start (hrpc : s.rpc = .idle) :
      Step s (.receive .startDeviceGnss) { s with
        threads := s.threads ++ [.new]
        nmeaMsgThread := some s.threads.length
        rpc := .start }
  | stop (hrpc : s.rpc = .idle) :
      Step s (.receive .stopDeviceGnss) { s with rpc := s.killPc }
  | started {id : Nat} {t : NMEAMessageThread} (hrpc : s.rpc = .start)
      (hcurrent : s.nmeaMsgThread = some id) (hid : s.threads[id]? = some t) :
      Step s .rpc { s.setThread id { t with pc := .publisher } with rpc := .idle }
  | kill {id : Nat} {t : NMEAMessageThread} (hrpc : s.rpc = .kill id)
      (hid : s.threads[id]? = some t) :
      Step s .rpc { s.setThread id (t.sendMsg .killThread) with rpc := .clear (!t.handler) }
  | clear {dropped : Bool} (hrpc : s.rpc = .clear dropped) :
      Step s .rpc { s with nmeaMsgThread := none, rpc := .idle }

theorem step_cases (h : machine.step s a = some s') : s.Step a s' := by
  cases a with
  | receive r =>
    cases r with
    | startDeviceGnss =>
      obtain ⟨hrpc, h⟩ := Option.ite_none_right_eq_some.mp h
      cases h
      exact .start hrpc
    | stopDeviceGnss =>
      obtain ⟨hrpc, h⟩ := Option.ite_none_right_eq_some.mp h
      have hs' : s' = { s with rpc := s.killPc } := by
        unfold killPc
        cases hcurrent : s.nmeaMsgThread with
        | none => rw [hcurrent] at h; cases h; rfl
        | some id => rw [hcurrent] at h; cases h; rfl
      rw [hs']
      exact .stop hrpc
  | rpc =>
    cases hrpc : s.rpc with
    | idle => simp [machine, hrpc] at h
    | start =>
      simp only [machine, hrpc] at h
      obtain ⟨id, hcurrent, h⟩ := Option.bind_eq_some_iff.mp h
      obtain ⟨t, hid, h⟩ := Option.bind_eq_some_iff.mp h
      cases h
      exact .started hrpc hcurrent hid
    | kill id =>
      simp only [machine, hrpc] at h
      obtain ⟨t, hid, h⟩ := Option.bind_eq_some_iff.mp h
      cases h
      exact .kill hrpc hid
    | clear dropped =>
      simp only [machine, hrpc] at h
      cases h
      exact .clear hrpc
  | run id =>
    obtain ⟨t, hid, h⟩ := Option.bind_eq_some_iff.mp h
    obtain ⟨t', ht', h⟩ := Option.bind_eq_some_iff.mp h
    cases h
    exact .thread hid (.run ht')
  | throw id =>
    obtain ⟨t, hid, h⟩ := Option.bind_eq_some_iff.mp h
    obtain ⟨t', ht', h⟩ := Option.bind_eq_some_iff.mp h
    cases h
    exact .thread hid (.throw ht')
  | onNmeaMessage =>
    obtain ⟨id, -, h⟩ := Option.bind_eq_some_iff.mp h
    cases h
    exact .listen
  | publishNMEAData =>
    obtain ⟨id, -, h⟩ := Option.bind_eq_some_iff.mp h
    obtain ⟨t, hid, h⟩ := Option.bind_eq_some_iff.mp h
    cases h
    exact .thread hid .publish

/-- What is known between the steps: the current thread has been started unless a start is
under way, and has been told to end only if a stop is about to let go of it. -/
structure Inv (s : DeviceGnss) : Prop where
  wf : ∀ (id : Nat) (t : NMEAMessageThread), s.threads[id]? = some t → t.Wf
  current : ∀ id, s.nmeaMsgThread = some id → ∃ t, s.threads[id]? = some t ∧
    (t.pc = .new ↔ s.rpc = .start) ∧ (t.Killed ↔ s.rpc = .clear false)
  kill : ∀ id, s.rpc = .kill id → s.nmeaMsgThread = some id

theorem init_inv : init.Inv := by
  constructor <;> simp [init]

/-- The invariant after a step that changes one thread. -/
theorem inv_setThread {id : Nat} {t t' : NMEAMessageThread} {rpc : RpcPc} {l : Option Nat}
    (hI : s.Inv) (hid : s.threads[id]? = some t) (hwf : t'.Wf)
    (hcurrent : s.nmeaMsgThread = some id →
      (t'.pc = .new ↔ rpc = .start) ∧ (t'.Killed ↔ rpc = .clear false))
    (hother : ∀ j u, j ≠ id → s.nmeaMsgThread = some j → s.threads[j]? = some u →
      (u.pc = .new ↔ rpc = .start) ∧ (u.Killed ↔ rpc = .clear false))
    (hkill : ∀ j, rpc = .kill j → s.nmeaMsgThread = some j) :
    ({ s.setThread id t' with rpc := rpc, listener := l } : DeviceGnss).Inv := by
  refine ⟨?_, ?_, hkill⟩
  · intro j u hu
    have hu : (s.setThread id t').threads[j]? = some u := hu
    rw [setThread_lookup hid] at hu
    split at hu
    · cases hu
      exact hwf
    · exact hI.wf j u hu
  · intro j hj
    have hj : s.nmeaMsgThread = some j := hj
    show ∃ u, (s.setThread id t').threads[j]? = some u ∧ _
    rw [setThread_lookup hid]
    by_cases hij : id = j
    · subst hij
      exact ⟨t', if_pos rfl, hcurrent hj⟩
    · obtain ⟨u, hu, -⟩ := hI.current j hj
      exact ⟨u, by rw [if_neg hij, hu], hother j u (Ne.symm hij) hj hu⟩

theorem inv_step (hI : s.Inv) (h : machine.step s a = some s') : s'.Inv := by
  cases step_cases h with
  | @thread id t t' _ l hid hop =>
    have hfollows := hop.follows
    refine inv_setThread hI hid (hfollows.wf (hI.wf id t hid)) ?_ ?_ hI.kill
    · intro hcurrent
      obtain ⟨u, hu, hnew, hkilled⟩ := hI.current id hcurrent
      rw [hid] at hu
      cases hu
      exact ⟨hfollows.new.trans hnew, hfollows.killed.trans hkilled⟩
    · intro j u hj hcurrent hu
      obtain ⟨v, hv, hcurrent⟩ := hI.current j hcurrent
      rw [hu] at hv
      cases hv
      exact hcurrent
  | listen => exact ⟨hI.wf, hI.current, hI.kill⟩
  | start hrpc =>
    refine ⟨?_, ?_, by simp⟩
    · intro j u hu
      rw [List.getElem?_append] at hu
      split at hu
      · exact hI.wf j u hu
      · obtain ⟨-, rfl⟩ := List.getElem?_eq_some_iff.mp hu
        rw [List.getElem_singleton]
        exact NMEAMessageThread.new_wf
    · rintro j ⟨⟩
      exact ⟨.new, by simp, by simp [NMEAMessageThread.new],
        by simp [NMEAMessageThread.new, NMEAMessageThread.Killed]⟩
  | stop hrpc =>
    refine ⟨hI.wf, ?_, ?_⟩
    · intro j hj
      obtain ⟨u, hu, hnew, hkilled⟩ := hI.current j hj
      refine ⟨u, hu, ?_, ?_⟩
      · simp [hnew, hrpc, killPc, show s.nmeaMsgThread = some j from hj]
      · simp [hkilled, hrpc, killPc, show s.nmeaMsgThread = some j from hj]
    · intro j hj
      unfold killPc at hj
      split at hj <;> grind
  | @started id t hrpc hcurrent hid =>
    obtain ⟨u, hu, hnew, hkilled⟩ := hI.current id hcurrent
    rw [hid] at hu
    cases hu
    have hpc := hnew.mpr hrpc
    refine inv_setThread hI hid ?_ ?_ ?_ (by simp)
    · have hwf := hI.wf id t hid
      constructor <;> grind [NMEAMessageThread.Wf, NMEAMessageThread.Killed]
    · have hnot : ¬ t.Killed := by simp [hkilled, hrpc]
      exact fun _ => ⟨by simp, iff_of_false hnot (by simp)⟩
    · intro j u hj hcurrent'
      rw [hcurrent] at hcurrent'
      cases hcurrent'
      exact absurd rfl hj
  | @kill id t hrpc hid =>
    have hcurrent := hI.kill id hrpc
    obtain ⟨u, hu, hnew, hkilled⟩ := hI.current id hcurrent
    rw [hid] at hu
    cases hu
    obtain ⟨hwf, hkilled', hpc⟩ := NMEAMessageThread.sendMsg_killThread (hI.wf id t hid)
    refine inv_setThread hI hid hwf ?_ ?_ (by simp)
    · intro _
      rw [hpc, hkilled', hnew, hkilled, hrpc]
      simp
    · intro j u hj hcurrent'
      rw [hcurrent] at hcurrent'
      cases hcurrent'
      exact absurd rfl hj
  | clear hrpc => exact ⟨hI.wf, by simp, by simp⟩

/-! ## Ownership -/

/-- Every thread that has been started is the current one, or has been told to end, or has
ended. -/
def Owned (s : DeviceGnss) : Prop :=
  ∀ (id : Nat) (t : NMEAMessageThread), s.threads[id]? = some t → t.pc ≠ .new →
    s.nmeaMsgThread = some id ∨ t.Settled

/-- There is no current thread, or it has ended. -/
def NoneRunning (s : DeviceGnss) : Prop :=
  ∀ id ∈ s.nmeaMsgThread, ∀ t ∈ s.threads[id]?, t.pc = .terminated

/-- A start finds no thread running; the field is set to null after `kill` has found the
handler assigned, or when no thread is running. -/
def InTime (s : DeviceGnss) (a : Action) : Prop :=
  (a = .receive .startDeviceGnss → s.NoneRunning) ∧
    (a = .rpc → s.rpc = .clear true → s.NoneRunning)

theorem init_owned : init.Owned := by
  intro id t h
  simp [init] at h

/-- Ownership after a step that changes one thread. -/
theorem owned_setThread {id : Nat} {t t' : NMEAMessageThread} {rpc : RpcPc} {l : Option Nat}
    (ho : s.Owned) (hid : s.threads[id]? = some t) (hnew : t'.pc ≠ .new → t.pc ≠ .new ∨
      s.nmeaMsgThread = some id) (hsettled : t.Settled → t'.Settled) :
    ({ s.setThread id t' with rpc := rpc, listener := l } : DeviceGnss).Owned := by
  intro j u hu hpc
  have hu : (s.setThread id t').threads[j]? = some u := hu
  rw [setThread_lookup hid] at hu
  split at hu
  · next hij =>
    cases hu
    subst hij
    obtain hpc | hcurrent := hnew hpc
    · exact (ho id t hid hpc).imp_right hsettled
    · exact .inl hcurrent
  · exact ho j u hu hpc

/-- **One step** keeps the ownership exactly when it is in time. -/
theorem owned_step_iff (hI : s.Inv) (ho : s.Owned) (h : machine.step s a = some s') :
    s'.Owned ↔ s.InTime a := by
  cases step_cases h with
  | @thread id t t' _ l hid hop =>
    refine iff_of_true ?_ ?_
    · exact owned_setThread ho hid (fun hpc => .inl (hop.follows.new.not.mp hpc))
        hop.follows.settled
    · cases hop <;> simp [InTime]
  | listen => exact iff_of_true ho (by simp [InTime])
  | start hrpc =>
    simp only [InTime, true_implies, reduceCtorEq, false_implies, and_true]
    constructor
    · intro ho' id hid t ht
      obtain ⟨u, hu, hnew, hkilled⟩ := hI.current id hid
      rw [ht] at hu
      cases hu
      have hlt : id < s.threads.length := (List.getElem?_eq_some_iff.mp ht).1
      have hpc : t.pc ≠ .new := by simp [hnew, hrpc]
      obtain hcurrent | hsettled := ho' id t (by rw [List.getElem?_append_left hlt]; exact ht) hpc
      · -- the field refers to the new thread
        exact absurd (Option.some.inj hcurrent) (Nat.ne_of_gt hlt)
      · exact hsettled.resolve_left (by simp [hkilled, hrpc])
    · intro hnone id t ht hpc
      rw [List.getElem?_append] at ht
      split at ht
      · obtain hcurrent | hsettled := ho id t ht hpc
        · exact .inr (.inr (hnone id hcurrent t ht))
        · exact .inr hsettled
      · -- the new thread has not been started
        obtain ⟨hlt, hnew⟩ := List.getElem?_eq_some_iff.mp ht
        rw [List.getElem_singleton] at hnew
        exact absurd (hnew ▸ rfl) hpc
  | stop hrpc => exact iff_of_true ho (by simp [InTime])
  | @started id t hrpc hcurrent hid =>
    refine iff_of_true ?_ (by simp [InTime, hrpc])
    obtain ⟨u, hu, hnew, -⟩ := hI.current id hcurrent
    rw [hid] at hu
    cases hu
    refine owned_setThread ho hid (fun _ => .inr hcurrent) fun hsettled => ?_
    have hpc : t.pc = .new := hnew.mpr hrpc
    exact .inl (hsettled.resolve_right (by simp [hpc]))
  | @kill id t hrpc hid =>
    obtain ⟨-, hkilled, hpc⟩ := NMEAMessageThread.sendMsg_killThread (hI.wf id t hid)
    refine iff_of_true ?_ (by simp [InTime, hrpc])
    refine owned_setThread ho hid (fun hpc' => .inl (hpc ▸ hpc')) fun hsettled => ?_
    exact hsettled.imp (fun hk => hkilled.mpr (.inl hk)) fun hend => hpc.trans hend
  | @clear dropped hrpc =>
    simp only [InTime, reduceCtorEq, false_implies, true_implies, true_and, hrpc,
      RpcPc.clear.injEq]
    constructor
    · rintro ho' rfl id hid t ht
      obtain ⟨u, hu, hnew, hkilled⟩ := hI.current id hid
      rw [ht] at hu
      cases hu
      have hsettled := (ho' id t ht (by simp [hnew, hrpc])).resolve_left (by simp)
      exact hsettled.resolve_left (by simp [hkilled, hrpc])
    · intro hnone id t ht hpc
      obtain hcurrent | hsettled := ho id t ht hpc
      · obtain ⟨u, hu, -, hkilled⟩ := hI.current id hcurrent
        rw [show s.threads[id]? = some t from ht] at hu
        cases hu
        cases dropped with
        | true => exact .inr (.inr (hnone rfl id hcurrent t ht))
        | false => exact .inr (.inl (hkilled.mpr hrpc))
      · exact .inr hsettled

/-! ## The end of a thread -/

end DeviceGnss

namespace NMEAMessageThread

variable {t t' : NMEAMessageThread}

/-- The messages that a killed thread handles until it quits, and then until it ends. -/
def measure (t : NMEAMessageThread) : ℕ ×ₗ ℕ :=
  if t.quitting then toLex (0, t.queue.length + if t.pc = .close then 1 else 2)
  else toLex (t.queue.idxOf .killThread + 1, 0)

/-- Each step of a killed thread takes it closer to its end. -/
theorem run_measure (hwf : t.Wf) (hkilled : t.Killed) (h : t.run = some t') :
    t'.pc = .terminated ∨ t'.measure < t.measure := by
  have hhandler : t.handler = true := by
    by_contra hnull
    exact hwf.null (by simpa using hnull) hkilled
  unfold run at h
  split at h
  · cases h
  · grind [Wf]
  · grind [Wf]
  · grind [Wf]
  · next queue hpc hqueue =>
    cases h
    refine .inr ?_
    by_cases hquit : t.quitting = true
    · simp [measure, hquit, hpc, hqueue, Prod.Lex.toLex_lt_toLex]
    · simp [measure, hquit, hqueue, Prod.Lex.toLex_lt_toLex]
  · next queue hpc hqueue =>
    cases h
    refine .inr ?_
    by_cases hquit : t.quitting = true
    · simp [measure, hquit, hpc, hqueue, Prod.Lex.toLex_lt_toLex]
    · simp [measure, hquit, Prod.Lex.toLex_lt_toLex]
  · next hpc hqueue =>
    split at h
    · next hquit =>
      cases h
      exact .inr (by simp [measure, hquit, hpc, hqueue, Prod.Lex.toLex_lt_toLex])
    · cases h
  · cases h
    exact .inl rfl
  · cases h

/-- Messages that come later do not hold up a killed thread. -/
theorem sendMsg_measure (msg : Msg) (hkilled : t.Killed) :
    (t.sendMsg msg).measure = t.measure ∧ (t.sendMsg msg).Killed := by
  unfold sendMsg
  split
  · next h =>
    have hmem : .killThread ∈ t.queue := hkilled.resolve_right (by simp [h.2])
    refine ⟨?_, .inl (List.mem_append_left _ hmem)⟩
    simp [measure, h.2, List.idxOf_append_of_mem hmem]
  · exact ⟨rfl, hkilled⟩

end NMEAMessageThread

namespace DeviceGnss

variable {s s' : DeviceGnss} {a : Action}

/-- Thread `id` has ended. -/
def Terminated (id : Nat) (s : DeviceGnss) : Prop :=
  ∃ t, s.threads[id]? = some t ∧ t.pc = .terminated

/-- Thread `id` ends in every infinite run from here in which it takes its steps. -/
def Terminates (id : Nat) (s : DeviceGnss) : Prop :=
  ∀ r : machine.Run, r.state 0 = s → r.FairTo (· = .run id) (Terminated id) →
    ∃ n, Terminated id (r.state n)

/-- Thread `id` has been told to end. -/
def KilledThread (id : Nat) (s : DeviceGnss) : Prop :=
  ∃ t, s.threads[id]? = some t ∧ t.Killed

def measure (id : Nat) (s : DeviceGnss) : ℕ ×ₗ ℕ :=
  s.threads[id]?.elim (toLex (0, 0)) NMEAMessageThread.measure

/-- A killed thread gets closer to its end by its own steps, and loses nothing by others. -/
theorem measure_step {id : Nat} (hI : s.Inv) (hkilled : s.KilledThread id)
    (h : machine.step s a = some s') :
    Terminated id s' ∨ s'.KilledThread id ∧ measure id s' ≤ measure id s ∧
      (a = .run id → measure id s' < measure id s) := by
  obtain ⟨t, ht, hk⟩ := hkilled
  -- a step that leaves the thread as it is
  have hsame : s'.threads[id]? = s.threads[id]? → a ≠ .run id →
      Terminated id s' ∨ s'.KilledThread id ∧ measure id s' ≤ measure id s ∧
        (a = .run id → measure id s' < measure id s) := by
    intro hlookup ha
    refine .inr ⟨⟨t, hlookup.trans ht, hk⟩, ?_, fun hrun => absurd hrun ha⟩
    rw [measure, hlookup]
    exact le_refl _
  -- a message to the thread
  have hsend : ∀ msg, s'.threads[id]? = some (t.sendMsg msg) → a ≠ .run id →
      Terminated id s' ∨ s'.KilledThread id ∧ measure id s' ≤ measure id s ∧
        (a = .run id → measure id s' < measure id s) := by
    intro msg hlookup ha
    obtain ⟨hmeasure, hk'⟩ := NMEAMessageThread.sendMsg_measure msg hk
    refine .inr ⟨⟨_, hlookup, hk'⟩, ?_, fun hrun => absurd hrun ha⟩
    rw [measure, measure, hlookup, ht, Option.elim_some, Option.elim_some, hmeasure]
  cases step_cases h with
  | @thread j u u' _ l hj hop =>
    have hlookup : (s.setThread j u').threads[id]? = _ := setThread_lookup hj id
    by_cases hij : j = id
    · subst hij
      rw [ht] at hj
      cases hj
      rw [if_pos rfl] at hlookup
      cases hop with
      | run hrun =>
        obtain hend | hlt := NMEAMessageThread.run_measure (hI.wf j t ht) hk hrun
        · exact .inl ⟨_, hlookup, hend⟩
        · have hlt' : measure j { s.setThread j u' with listener := l } < measure j s := by
            rw [measure, measure, hlookup, ht]
            exact hlt
          have hk' := (NMEAMessageThread.run_follows hrun).killed.mpr hk
          exact .inr ⟨⟨_, hlookup, hk'⟩, le_of_lt hlt', fun _ => hlt'⟩
      | throw hthrow =>
        refine .inl ⟨_, hlookup, ?_⟩
        unfold NMEAMessageThread.throw at hthrow
        split at hthrow <;> cases hthrow
        rfl
      | publish => exact hsend .nmeaData hlookup (by simp)
    · rw [if_neg hij] at hlookup
      refine hsame hlookup ?_
      rintro rfl
      cases hop
      exact hij rfl
  | listen => exact hsame rfl (by simp)
  | start =>
    refine hsame ?_ (by simp)
    rw [List.getElem?_append_left (List.getElem?_eq_some_iff.mp ht).1]
  | stop => exact hsame rfl (by simp)
  | @started j u hrpc hcurrent hj =>
    refine hsame ?_ (by simp)
    show (s.setThread j _).threads[id]? = _
    rw [setThread_lookup hj, if_neg]
    rintro rfl
    obtain ⟨v, hv, -, hkilled⟩ := hI.current j hcurrent
    rw [ht] at hv
    cases hv
    simp [hrpc, hk] at hkilled
  | @kill j u hrpc hj =>
    have hlookup : (s.setThread j (u.sendMsg .killThread)).threads[id]? = _ :=
      setThread_lookup hj id
    by_cases hij : j = id
    · subst hij
      rw [ht] at hj
      cases hj
      exact hsend .killThread (hlookup.trans (if_pos rfl)) (by simp)
    · exact hsame (hlookup.trans (if_neg hij)) (by simp)
  | clear => exact hsame rfl (by simp)

/-- **A settled thread ends**, whatever else happens. -/
theorem terminates_of_settled {id : Nat} {t : NMEAMessageThread} (hI : s.Inv)
    (ht : s.threads[id]? = some t) (hsettled : t.Settled) : Terminates id s := by
  rintro r rfl hfair
  obtain hk | hend := hsettled
  · refine Machine.Run.eventually (I := fun s => s.Inv ∧ s.KilledThread id) (μ := measure id)
      ?_ ⟨hI, t, ht, hk⟩ hfair
    rintro s a s' ⟨hI, hk⟩ - h
    obtain hend | ⟨hk', hle, hlt⟩ := measure_step hI hk h
    · exact .inl hend
    · exact .inr ⟨⟨inv_step hI h, hk'⟩, hle, hlt⟩
  · exact ⟨0, t, ht, hend⟩

/-! ## All that ownership is for -/

/-- No thread is lost: at most one stays bound to the address, and after a stop none is
left running for ever. -/
structure ThreadOwnership (s : DeviceGnss) : Prop where
  owned : s.Owned
  bound : ∀ (i j : Nat) (t u : NMEAMessageThread), s.threads[i]? = some t →
    s.threads[j]? = some u → t.Bound → u.Bound → ¬ t.Settled → ¬ u.Settled → i = j
  stopped : s.rpc = .idle → s.nmeaMsgThread = none →
    ∀ (id : Nat) (t : NMEAMessageThread), s.threads[id]? = some t → t.pc ≠ .new →
      Terminates id s

theorem threadOwnership_of_owned (hI : s.Inv) (ho : s.Owned) : s.ThreadOwnership := by
  refine ⟨ho, ?_, ?_⟩
  · intro i j t u ht hu htb hub hts hus
    have hi := (ho i t ht htb.1).resolve_right hts
    have hj := (ho j u hu hub.1).resolve_right hus
    exact Option.some.inj (hi.symm.trans hj)
  · intro _ hnone id t ht hpc
    obtain hcurrent | hsettled := ho id t ht hpc
    · rw [hnone] at hcurrent
      cases hcurrent
    · exact terminates_of_settled hI ht hsettled

/-- **No thread is lost** in a run exactly when every start finds no thread running, and
every stop lets go of a thread whose handler it has found assigned, or of none that runs. -/
theorem threadOwnership_iff (as : List Action) :
    machine.Always ThreadOwnership init as ↔ machine.Guarded InTime init as := by
  refine Machine.always_iff_guarded (I := Inv) (fun s a s' hI h => inv_step hI h) ?_ as
    init_inv (threadOwnership_of_owned init_inv init_owned)
  intro s a s' hI ho h
  rw [← owned_step_iff hI ho.owned h]
  exact ⟨fun ho' => ho'.owned, threadOwnership_of_owned (inv_step hI h)⟩

/-- A second start while the thread of the first one runs: nothing refers to that thread any
more, and it has not been told to end. -/
theorem not_always_threadOwnership : ¬ ∀ as, machine.Always ThreadOwnership init as := by
  intro h
  have hrun : machine.exec init [.receive .startDeviceGnss, .rpc, .receive .startDeviceGnss] =
      some ⟨[⟨.publisher, false, [], false⟩, .new], some 1, .start, none⟩ := rfl
  have howned := (Machine.Always.of_append (h (_ ++ [])) hrun).head.owned
  obtain hcurrent | hkilled | hend := howned 0 _ rfl (by decide)
  · cases hcurrent
  · exact absurd hkilled (by simp [NMEAMessageThread.Killed])
  · cases hend

end DeviceGnss

end Anx.Sensor.Gnss
