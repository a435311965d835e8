import Anx.Lib.Machine
import Anx.Sensor.Imu

/-!
# Requests to the IMU and their messages

`DeviceImu` (DeviceImu.kt) turns the requests `StartDeviceImu` and `StopDeviceImu` into
messages, which the looper thread handles in order with the native functions.

- `Request.messages`, `handleMessage`: the two sides of the queue;
- `Looper`, `machine`: requests and handling in any interleaving;
- `Safe`: nothing has ended the process, and after a handled stop no publisher runs;
- `Alternates`: starts and stops take turns;
- `handleAll_begin`, `alternates_of_handleAll`: the messages of requests that take turns
  are handled without fault, and of no others;
- `safe_iff`: **every run is safe exactly for the requests that take turns**, beginning
  with a start.
-/

namespace Anx.Sensor

open Anx.Lib

/-- A request of the RPC layer, which accepts all of them. -/
inductive Request where
  | start (fps : Int)
  | stop
deriving DecidableEq, Repr

/-- A message to the looper: `MSG_CREATE_IMU`, `MSG_START_IMU`, `MSG_STOP_IMU`. -/
inductive Msg where
  | create (fps : Int)
  | start
  | stop
deriving DecidableEq, Repr

/-- The messages that `DeviceImu.start` and `DeviceImu.stop` send. -/
def Request.messages : Request → List Msg
  | .start fps => [.create fps, .start]
  | .stop => [.stop]

/-- `handleMessage`. -/
def handleMessage (n : Native) : Msg → Except Fault Native
  | .create fps => n.initImu fps
  | .start => n.startImu
  | .stop => n.stopImu

/-- The looper thread: what is queued, what it has handled, and whether the process has
ended. -/
structure Looper where
  queue : List Msg
  handled : List Msg
  native : Native
  fault : Option Fault

namespace Looper

inductive Action where
  | request (r : Request)
  | handle

/-- Requests arrive and messages are handled, until the process ends. -/
def machine : Machine Looper Action where
  step s
    | .request r =>
      if s.fault = none then some { s with queue := s.queue ++ r.messages } else none
    | .handle =>
      match s.fault, s.queue with
      | none, msg :: queue =>
        match handleMessage s.native msg with
        | .ok native => some ⟨queue, s.handled ++ [msg], native, none⟩
        -- a fault ends the process, with the message neither handled nor queued
        | .error fault => some { s with queue := queue, fault := some fault }
      | _, _ => none

def init : Looper := ⟨[], [], .init, none⟩

/-- The requests of a run. -/
def requests (as : List Action) : List Request :=
  as.filterMap fun
    | .request r => some r
    | .handle => none

/-- The process goes on, and after a handled stop no publisher thread runs. -/
structure Safe (s : Looper) : Prop where
  fault : s.fault = none
  stopped : s.handled.getLast? = some .stop → s.native.publishers = []

/-- Starts and stops take turns; the flag is set when a stop is next. -/
def Alternates : Bool → List Request → Prop
  | _, [] => True
  | false, .start _ :: rs => Alternates true rs
  | true, .stop :: rs => Alternates false rs
  | _, _ => False

instance decidableAlternates : (turn : Bool) → (rs : List Request) → Decidable (Alternates turn rs)
  | false, [] | true, [] => isTrue trivial
  | false, .start _ :: rs => decidableAlternates true rs
  | true, .stop :: rs => decidableAlternates false rs
  | false, .stop :: _ | true, .start _ :: _ => isFalse id

/-- The frame rates that are offered are in this range. -/
def FpsInRange (rs : List Request) : Prop := ∀ fps, .start fps ∈ rs → 1 ≤ fps ∧ fps ≤ 1000

/-- The messages in order, up to a fault. -/
def handleAll (n : Native) (msgs : List Msg) : Except Fault Native := msgs.foldlM handleMessage n

/-- No publisher runs, or one that the next stop joins. -/
def Ready (n : Native) : Bool → Prop
  | false => n.Idle
  | true => n.Publishing

theorem handleAll_cons {n n' : Native} {msg : Msg} (h : handleMessage n msg = .ok n')
    (msgs : List Msg) : handleAll n (msg :: msgs) = handleAll n' msgs := by
  rw [handleAll, List.foldlM_cons, h]
  rfl

theorem handleAll_error {n : Native} {msg : Msg} {fault : Fault}
    (h : handleMessage n msg = .error fault) (msgs : List Msg) :
    handleAll n (msg :: msgs) = .error fault := by
  rw [handleAll, List.foldlM_cons, h]
  rfl

/-- **What a request does** to the native side when it is its turn. -/
theorem handle_start {n : Native} {fps : Int} (hfps : 1 ≤ fps ∧ fps ≤ 1000) (h : n.Idle) :
    ∃ n₁ n₂, handleMessage n (.create fps) = .ok n₁ ∧ handleMessage n₁ .start = .ok n₂ ∧
      n₂.Publishing := by
  obtain ⟨n₁, hcreate, hcreated⟩ := Native.initImu_idle hfps h
  obtain ⟨n₂, hstart, hpublishing⟩ := Native.startImu_created hcreated
  exact ⟨n₁, n₂, hcreate, hstart, hpublishing⟩

/-- The messages of requests that take turns are handled without fault, as far as they
have come. -/
theorem handleAll_begin {rs : List Request} (hfps : FpsInRange rs) {turn : Bool}
    (halt : Alternates turn rs) {n : Native} (hn : Ready n turn) {msgs : List Msg}
    (hmsgs : msgs <+: rs.flatMap Request.messages) :
    ∃ n', handleAll n msgs = .ok n' ∧ (msgs.getLast? = some .stop → n'.publishers = []) := by
  induction rs generalizing turn n msgs with
  | nil =>
    rw [List.flatMap_nil, List.prefix_nil] at hmsgs
    subst hmsgs
    exact ⟨n, rfl, fun h => by cases h⟩
  | cons r rs ih =>
    have hrest : FpsInRange rs := fun fps h => hfps fps (List.mem_cons_of_mem _ h)
    rw [List.flatMap_cons] at hmsgs
    cases turn <;> cases r
    case false.start fps =>
      obtain ⟨n₁, n₂, hcreate, hstart, hpublishing⟩ := handle_start (hfps fps List.mem_cons_self) hn
      -- the messages end before the create, before the start, or after both
      rcases List.prefix_cons_iff.mp hmsgs with rfl | ⟨msgs₁, rfl, hmsgs₁⟩
      · exact ⟨n, rfl, fun h => by cases h⟩
      · rw [handleAll_cons hcreate]
        rcases List.prefix_cons_iff.mp hmsgs₁ with rfl | ⟨msgs₂, rfl, hmsgs₂⟩
        · exact ⟨n₁, rfl, fun h => by cases h⟩
        · rw [handleAll_cons hstart]
          obtain ⟨n', hall, hstopped⟩ := ih hrest halt hpublishing hmsgs₂
          refine ⟨n', hall, fun h => hstopped ?_⟩
          cases msgs₂ with
          | nil => cases h
          | cons msg msgs₂ => simpa using h
    case false.stop => exact halt.elim
    case true.start fps => exact halt.elim
    case true.stop =>
      obtain ⟨n₁, hstop, hidle⟩ := Native.stopImu_publishing hn
      rcases List.prefix_cons_iff.mp hmsgs with rfl | ⟨msgs₁, rfl, hmsgs₁⟩
      · exact ⟨n, rfl, fun h => by cases h⟩
      · have hstop' : handleMessage n .stop = .ok n₁ := hstop
        rw [handleAll_cons hstop']
        obtain ⟨n', hall, hstopped⟩ := ih hrest halt hidle hmsgs₁
        refine ⟨n', hall, fun h => ?_⟩
        cases msgs₁ with
        | nil =>
          -- the stop was the last message
          cases hall
          exact hidle.publishers
        | cons msg msgs₁ => exact hstopped (by simpa using h)

/-- Only requests that take turns are handled without fault. -/
theorem alternates_of_handleAll {rs : List Request} (hfps : FpsInRange rs) {turn : Bool}
    {n n' : Native} (hn : Ready n turn)
    (h : handleAll n (rs.flatMap Request.messages) = .ok n') : Alternates turn rs := by
  induction rs generalizing turn n with
  | nil => cases turn <;> trivial
  | cons r rs ih =>
    have hrest : FpsInRange rs := fun fps h => hfps fps (List.mem_cons_of_mem _ h)
    cases turn <;> cases r
    case false.start fps =>
      obtain ⟨n₁, n₂, hcreate, hstart, hpublishing⟩ := handle_start (hfps fps List.mem_cons_self) hn
      refine ih hrest (show Ready n₂ true from hpublishing) ?_
      rwa [List.flatMap_cons, Request.messages, List.cons_append, handleAll_cons hcreate,
        List.cons_append, handleAll_cons hstart] at h
    -- out of turn, the first message of the request is a fault
    case false.stop =>
      obtain ⟨fault, hstop⟩ := Native.stopImu_idle hn
      rw [List.flatMap_cons, Request.messages, List.cons_append,
        handleAll_error (show handleMessage n .stop = _ from hstop)] at h
      cases h
    case true.start fps =>
      have hcreate := Native.initImu_publishing (hfps fps List.mem_cons_self) hn
      rw [List.flatMap_cons, Request.messages, List.cons_append,
        handleAll_error (show handleMessage n (.create fps) = _ from hcreate)] at h
      cases h
    case true.stop =>
      obtain ⟨n₁, hstop, hidle⟩ := Native.stopImu_publishing hn
      refine ih hrest (show Ready n₁ false from hidle) ?_
      rwa [List.flatMap_cons, Request.messages, List.cons_append,
        handleAll_cons (show handleMessage n .stop = _ from hstop)] at h

/-! ## Runs -/

/-- What has been handled and what is queued are the messages of the requests so far. -/
structure Accounted (rs : List Request) (s : Looper) : Prop where
  fault : s.fault = none
  messages : s.handled ++ s.queue = rs.flatMap Request.messages
  native : handleAll .init s.handled = .ok s.native

theorem accounted_init : Accounted [] init := ⟨rfl, rfl, rfl⟩

/-- What is accounted for is safe if the requests take turns. -/
theorem Accounted.safe {rs : List Request} (hfps : FpsInRange rs) (halt : Alternates false rs)
    {s : Looper} (h : Accounted rs s) : s.Safe := by
  obtain ⟨n, hall, hstopped⟩ := handleAll_begin hfps halt Native.init_idle ⟨s.queue, h.messages⟩
  rw [h.native, Except.ok.injEq] at hall
  exact ⟨h.fault, fun hlast => hall ▸ hstopped hlast⟩

/-- A request adds its messages. -/
theorem Accounted.request {rs : List Request} {s t : Looper} (h : Accounted rs s) {r : Request}
    (hstep : machine.step s (.request r) = some t) : Accounted (rs ++ [r]) t := by
  have hreq : machine.step s (.request r) = some { s with queue := s.queue ++ r.messages } :=
    if_pos h.fault
  rw [hreq, Option.some_inj] at hstep
  subst hstep
  refine ⟨h.fault, ?_, h.native⟩
  rw [← List.append_assoc, h.messages, List.flatMap_append, List.flatMap_singleton]

/-- **What handling does**: it takes the next message. -/
theorem step_handle {s t : Looper} (hstep : machine.step s .handle = some t) :
    s.fault = none ∧ ∃ msg queue, s.queue = msg :: queue ∧
      ((∃ native, handleMessage s.native msg = .ok native ∧
        t = ⟨queue, s.handled ++ [msg], native, none⟩) ∨
      ∃ fault, handleMessage s.native msg = .error fault ∧
        t = { s with queue := queue, fault := some fault }) := by
  simp only [machine] at hstep
  split at hstep
  · next msg queue hfault hqueue =>
    refine ⟨hfault, msg, queue, hqueue, ?_⟩
    split at hstep
    · next native hnative => exact .inl ⟨native, hnative, (Option.some.inj hstep).symm⟩
    · next fault hfail => exact .inr ⟨fault, hfail, (Option.some.inj hstep).symm⟩
  · cases hstep

/-- Handling stays accounted for if the requests take turns. -/
theorem Accounted.handle {rs : List Request} (hfps : FpsInRange rs) (halt : Alternates false rs)
    {s t : Looper} (h : Accounted rs s) (hstep : machine.step s .handle = some t) :
    Accounted rs t := by
  obtain ⟨-, msg, queue, hqueue, hcase⟩ := step_handle hstep
  have hmsgs : (s.handled ++ [msg]) ++ queue = rs.flatMap Request.messages := by
    rw [List.append_assoc, List.singleton_append, ← hqueue, h.messages]
  -- what is handled by now is the beginning of the messages, also with `msg`
  obtain ⟨n, hall, -⟩ := handleAll_begin hfps halt Native.init_idle ⟨queue, hmsgs⟩
  have hnext : handleAll .init (s.handled ++ [msg]) = handleMessage s.native msg := by
    rw [handleAll, List.foldlM_append]
    show (handleAll .init s.handled).bind (fun n => [msg].foldlM handleMessage n) = _
    rw [h.native]
    exact bind_pure _
  rcases hcase with ⟨native, hnative, rfl⟩ | ⟨fault, hfail, rfl⟩
  · exact ⟨rfl, hmsgs, hnext.trans hnative⟩
  · rw [hnext, hfail] at hall
    cases hall

theorem alternates_append {turn : Bool} {rs rs' : List Request}
    (h : Alternates turn (rs ++ rs')) : Alternates turn rs := by
  induction rs generalizing turn with
  | nil => cases turn <;> trivial
  | cons r rs ih =>
    cases turn <;> cases r
    case false.start => exact ih h
    case false.stop => exact h.elim
    case true.start => exact h.elim
    case true.stop => exact ih h

/-- Runs of requests that take turns are safe. -/
theorem always_safe {rs : List Request} {s : Looper} (h : Accounted rs s) (as : List Action)
    (hfps : FpsInRange (rs ++ requests as)) (halt : Alternates false (rs ++ requests as)) :
    machine.Always Safe s as := by
  have hfps' : FpsInRange rs := fun fps hmem => hfps fps (List.mem_append_left _ hmem)
  have hsafe : s.Safe := h.safe hfps' (alternates_append halt)
  induction as generalizing rs s with
  | nil => exact hsafe
  | cons a as ih =>
    refine ⟨hsafe, fun t ht => ?_⟩
    cases a with
    | request r =>
      have hreq : rs ++ requests (.request r :: as) = (rs ++ [r]) ++ requests as := by
        rw [List.append_assoc]
        rfl
      rw [hreq] at hfps halt
      have hnext := h.request ht
      have hfps'' : FpsInRange (rs ++ [r]) := fun fps hmem => hfps fps (List.mem_append_left _ hmem)
      exact ih hnext hfps halt hfps'' (hnext.safe hfps'' (alternates_append halt))
    | handle =>
      have hnext := h.handle hfps' (alternates_append halt) ht
      exact ih hnext hfps halt hfps' (hnext.safe hfps' (alternates_append halt))

/-- Requests are all accepted. -/
theorem exec_requests (rs : List Request) {s : Looper} (h : s.fault = none) :
    machine.exec s (rs.map .request) =
      some { s with queue := s.queue ++ rs.flatMap Request.messages } := by
  induction rs generalizing s with
  | nil => simp
  | cons r rs ih =>
    rw [List.map_cons, Machine.exec_cons]
    refine ⟨{ s with queue := s.queue ++ r.messages }, if_pos h, ?_⟩
    have hrest := ih (s := { s with queue := s.queue ++ r.messages }) h
    rwa [List.append_assoc, ← List.flatMap_cons] at hrest

/-- If the run that handles all messages is safe, they are handled without fault. -/
theorem handleAll_of_always {queue : List Msg} {s : Looper} (hqueue : s.queue = queue)
    (h : s.fault = none)
    (hrun : machine.Always Safe s (List.replicate queue.length .handle)) :
    ∃ n, handleAll s.native queue = .ok n := by
  induction queue generalizing s with
  | nil => exact ⟨s.native, rfl⟩
  | cons msg queue ih =>
    cases hmsg : handleMessage s.native msg with
    | ok native =>
      have hstep : machine.step s .handle = some ⟨queue, s.handled ++ [msg], native, none⟩ := by
        simp only [machine, h, hqueue, hmsg]
      rw [handleAll_cons hmsg]
      exact ih rfl rfl (hrun.2 _ hstep)
    | error fault =>
      have hstep : machine.step s .handle =
          some { s with queue := queue, fault := some fault } := by
        simp only [machine, h, hqueue, hmsg]
      have hsafe := (hrun.2 _ hstep).head.fault
      cases hsafe

/-- **The life cycle is safe** in every run exactly when starts and stops take turns,
beginning with a start. -/
theorem safe_iff (rs : List Request) (hfps : FpsInRange rs) :
    (∀ as, requests as = rs → machine.Always Safe init as) ↔ Alternates false rs := by
  constructor
  · intro h
    -- the run that first accepts all requests and then handles all messages
    have hrequests : requests (rs.map Action.request ++
        List.replicate (rs.flatMap Request.messages).length Action.handle) = rs := by
      simp [requests, List.filterMap_append, List.filterMap_map]
    have hrun := (h _ hrequests).of_append (exec_requests rs rfl)
    obtain ⟨n, hall⟩ := handleAll_of_always rfl rfl hrun
    exact alternates_of_handleAll hfps (show Ready .init false from Native.init_idle) hall
  · rintro halt as rfl
    exact always_safe accounted_init as hfps halt

/-- Two starts with a stop after each, the second start requested before the first stop
is handled. -/
theorem safe_iff_twice : machine.Always Safe init
    [.request (.start 10), .handle, .handle, .request .stop, .request (.start 60), .handle,
      .handle, .handle, .request .stop, .handle] := by
  have hfps : FpsInRange [.start 10, .stop, .start 60, .stop] := by
    intro fps h
    simp only [List.mem_cons, Request.start.injEq, reduceCtorEq, List.not_mem_nil, or_false,
      false_or] at h
    omega
  exact (safe_iff _ hfps).mpr (by decide) _ rfl

/-- A stop before any start dereferences the null pointer. -/
theorem safe_iff_fails : ¬ ∀ rs, FpsInRange rs → ∀ as, requests as = rs →
    machine.Always Safe init as := by
  intro h
  have hrun := h [.stop] (fun fps hmem => by simp at hmem) [.request .stop, .handle] rfl
  have hfault := ((hrun.2 _ rfl).2 _ rfl).fault
  cases hfault

end Looper

end Anx.Sensor
