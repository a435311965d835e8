import Anx.Lib.Lines
import Anx.Lib.Owner
import Anx.Sensor.DeviceImu

/-!
# Who the ipc paths belong to

The native side keeps the `Imu` and the two TfLite servers in global `unique_ptr`s and
listens on one ipc path for each of them. Assigning to such a variable makes the new
object, which takes the path, and destroys the old one after it, which unlinks the path.

- `Process`: the globals, and the socket that each path stands for;
- `initImu`, `initAll`, `startAll`: the native functions, `none` when the process ends;
- `App`, `machine`: the requests to the IMU with the messages they queue, and the calls
  for the TfLite servers, in any interleaving;
- `Named`: every path stands for the socket of the object that has been made for it;
- `Owned`: the invariant of all runs;
- `named_iff`: **the paths stay named exactly if every owner gets one object only.**
-/

namespace Anx.Comms.Endpoints

open Anx.Lib Anx.Sensor

/-- `getRootNamedPipe`. -/
def getRootNamedPipe (filesDir : Text) : Text := "ipc://".toList ++ (filesDir ++ "/ipc".toList)

/-- `getNamedPipeAddress`. -/
def getNamedPipeAddress (filesDir name : Text) : Text :=
  getRootNamedPipe filesDir ++ ("/".toList ++ name)

/-- The address that `DeviceImu` passes to `initImu`. -/
def imuAddress (filesDir : Text) : Text := getNamedPipeAddress filesDir "device_imu".toList

/-- A bound socket, which is destroyed with its context: its address and its number. -/
abbrev Socket := Bound Text Nat

/-- A `TfLiteRunnerRpcServer`: its socket, and whether `server_thread_` holds the thread
of `Loop`, which ends when `is_running_` is reset. -/
structure TfLiteRunnerRpcServer where
  socket_ : Socket
  server_thread_ : Bool
  is_running_ : Bool
deriving DecidableEq, Repr

/-- The globals of `sensord.cpp` and `tflite_runner_jni.cpp`, and what the paths stand
for. The publisher belongs to the `Imu`. -/
structure Process where
  native : Native
  publisher : Option Socket
  tflite_cpu_rpc_server : Option TfLiteRunnerRpcServer
  tflite_gpu_rpc_server : Option TfLiteRunnerRpcServer
  paths : Text → Option Nat
  sockets : Nat

namespace TfLiteRunnerRpcServer

/-- The constructor, with the number of the socket that it binds. -/
def new (address : Text) (socket : Nat) : TfLiteRunnerRpcServer := ⟨⟨address, socket⟩, false, false⟩

/-- The destructor joins the thread: through a null pointer when there is none. -/
def delete : Option TfLiteRunnerRpcServer → Option Unit
  | some server => if server.server_thread_ then some () else none
  | none => some ()

/-- `Start`: a second thread would destroy the first one unjoined. -/
def start : Option TfLiteRunnerRpcServer → Option TfLiteRunnerRpcServer
  | some server =>
    if server.server_thread_ then none
    else some { server with is_running_ := true, server_thread_ := true }
  | none => none

end TfLiteRunnerRpcServer

namespace Process

/-- At the start of the process nobody listens. -/
def init : Process := ⟨.init, none, none, none, fun _ => none, 0⟩

/-- `initImu`: the publisher of the new `Imu` binds before the old one is destroyed. -/
def initImu (fps : Int) (address : Text) (p : Process) : Option Process := do
  let native ← (p.native.initImu fps).toOption
  let publisher : Socket := ⟨address, p.sockets⟩
  return { p with
    native := native
    publisher := some publisher
    paths := Bound.replace p.paths p.publisher publisher
    sockets := p.sockets + 1 }

/-- `startImu` and `stopImu` leave the sockets alone. -/
def runImu (f : Native → Except Fault Native) (p : Process) : Option Process := do
  let native ← (f p.native).toOption
  return { p with native := native }

/-- `initAll`: two assignments, each of which makes the new server first. -/
def initAll (root_address : Text) (p : Process) : Option Process := do
  let cpu := TfLiteRunnerRpcServer.new (root_address ++ "/cpu".toList) p.sockets
  TfLiteRunnerRpcServer.delete p.tflite_cpu_rpc_server
  let paths := Bound.replace p.paths (p.tflite_cpu_rpc_server.map (·.socket_)) cpu.socket_
  let gpu := TfLiteRunnerRpcServer.new (root_address ++ "/gpu".toList) (p.sockets + 1)
  TfLiteRunnerRpcServer.delete p.tflite_gpu_rpc_server
  return { p with
    tflite_cpu_rpc_server := some cpu
    tflite_gpu_rpc_server := some gpu
    paths := Bound.replace paths (p.tflite_gpu_rpc_server.map (·.socket_)) gpu.socket_
    sockets := p.sockets + 2 }

/-- `startAll`. -/
def startAll (p : Process) : Option Process := do
  let cpu ← TfLiteRunnerRpcServer.start p.tflite_cpu_rpc_server
  let gpu ← TfLiteRunnerRpcServer.start p.tflite_gpu_rpc_server
  return { p with tflite_cpu_rpc_server := some cpu, tflite_gpu_rpc_server := some gpu }

end Process

/-- The process and the messages to its looper thread. -/
structure App where
  queue : List Msg
  process : Process

inductive Action where
  | request (r : Sensor.Request)
  | handle
  | initAll
  | startAll
deriving DecidableEq, Repr

/-- `handleMessage`, with the address that it passes on. -/
def handleMessage (filesDir : Text) (p : Process) : Msg → Option Process
  | .create fps => p.initImu fps (imuAddress filesDir)
  | .start => p.runImu Native.startImu
  | .stop => p.runImu Native.stopImu

/-- Requests arrive, messages are handled and servers are made, until the process ends. -/
def machine (filesDir : Text) : Machine App Action where
  step s
    | .request r => some { s with queue := s.queue ++ r.messages }
    | .handle =>
      match s.queue with
      | msg :: queue => (handleMessage filesDir s.process msg).map fun p => ⟨queue, p⟩
      | [] => none
    | .initAll =>
      (s.process.initAll (getRootNamedPipe filesDir)).map fun p => { s with process := p }
    | .startAll => s.process.startAll.map fun p => { s with process := p }

def init : App := ⟨[], .init⟩

/-- The requests of a run. -/
def requests (as : List Action) : List Sensor.Request :=
  as.filterMap fun
    | .request r => some r
    | _ => none

/-- Every path stands for the socket of the object that has been made for it. -/
structure Named (filesDir : Text) (p : Process) : Prop where
  device_imu : ∀ s ∈ p.publisher, p.paths (imuAddress filesDir) = some s.id
  cpu : ∀ server ∈ p.tflite_cpu_rpc_server,
    p.paths (getRootNamedPipe filesDir ++ "/cpu".toList) = some server.socket_.id
  gpu : ∀ server ∈ p.tflite_gpu_rpc_server,
    p.paths (getRootNamedPipe filesDir ++ "/gpu".toList) = some server.socket_.id

/-- A step makes an object only for an owner that has none. -/
def FirstMade (s : App) : Action → Prop
  | .handle =>
    match s.queue with
    | .create _ :: _ => s.process.native.device_imu = none
    | _ => True
  | .initAll => s.process.tflite_cpu_rpc_server = none ∧ s.process.tflite_gpu_rpc_server = none
  | _ => True

instance (s : App) : (a : Action) → Decidable (FirstMade s a)
  | .request _ | .startAll => isTrue trivial
  | .initAll => inferInstanceAs (Decidable (_ ∧ _))
  | .handle =>
    match h : s.queue with
    | .create _ :: _ => decidable_of_iff (s.process.native.device_imu = none) (by rw [FirstMade, h])
    | [] | .start :: _ | .stop :: _ => isTrue (by rw [FirstMade, h]; trivial)

/-- The owners have what they have been given: an `Imu` with a publisher, or none; both
servers, or none; all on their own addresses. -/
structure Owned (filesDir : Text) (p : Process) : Prop where
  imu : p.native.device_imu = none ↔ p.publisher = none
  servers : p.tflite_cpu_rpc_server = none ↔ p.tflite_gpu_rpc_server = none
  imuName : ∀ s ∈ p.publisher, s.name = imuAddress filesDir
  cpuName : ∀ server ∈ p.tflite_cpu_rpc_server,
    server.socket_.name = getRootNamedPipe filesDir ++ "/cpu".toList
  gpuName : ∀ server ∈ p.tflite_gpu_rpc_server,
    server.socket_.name = getRootNamedPipe filesDir ++ "/gpu".toList

variable {filesDir : Text}

/-! ## Addresses -/

/-- The last parts of the addresses tell them apart. -/
theorem address_ne {root x y : Text} (h : x ≠ y) : root ++ x ≠ root ++ y :=
  fun heq => h (List.append_cancel_left heq)

theorem imu_ne_cpu : imuAddress filesDir ≠ getRootNamedPipe filesDir ++ "/cpu".toList :=
  address_ne (by decide)

theorem imu_ne_gpu : imuAddress filesDir ≠ getRootNamedPipe filesDir ++ "/gpu".toList :=
  address_ne (by decide)

theorem cpu_ne_gpu : getRootNamedPipe filesDir ++ "/cpu".toList ≠
    getRootNamedPipe filesDir ++ "/gpu".toList :=
  address_ne (by decide)

/-! ## What the native functions do -/

/-- **What `initImu` does**, if the process goes on. -/
theorem initImu_spec {fps : Int} {address : Text} {p t : Process}
    (h : p.initImu fps address = some t) :
    t.native.device_imu ≠ none ∧ t = { p with
      native := t.native
      publisher := some ⟨address, p.sockets⟩
      paths := Bound.replace p.paths p.publisher ⟨address, p.sockets⟩
      sockets := p.sockets + 1 } := by
  cases hnative : p.native.initImu fps with
  | error fault =>
    rw [Process.initImu, hnative] at h
    cases h
  | ok native =>
    rw [Process.initImu, hnative] at h
    cases h
    refine ⟨?_, rfl⟩
    rw [Native.initImu] at hnative
    cases hnew : Native.newImu fps with
    | error fault =>
      rw [hnew] at hnative
      cases hnative
    | ok imu =>
      rw [hnew] at hnative
      cases hdelete : Native.deleteImu p.native.device_imu with
      | error fault =>
        rw [hdelete] at hnative
        cases hnative
      | ok =>
        rw [hdelete] at hnative
        cases hnative
        exact Option.some_ne_none imu

/-- Starting and stopping need an `Imu`, and leave one. -/
theorem native_some {f : Native → Except Fault Native}
    (hf : f = Native.startImu ∨ f = Native.stopImu) {n n' : Native} (h : f n = .ok n') :
    n.device_imu ≠ none ∧ n'.device_imu ≠ none := by
  cases himu : n.device_imu with
  | none =>
    rcases hf with rfl | rfl
    · rw [Native.startImu, himu] at h
      cases h
    · rw [Native.stopImu, himu] at h
      cases h
  | some imu =>
    refine ⟨Option.some_ne_none imu, ?_⟩
    rcases hf with rfl | rfl
    · simp only [Native.startImu, himu] at h
      split at h
      · cases h
      · cases hdelete : Native.deleteThread imu.publisher_thread with
        | error fault =>
          rw [hdelete] at h
          cases h
        | ok =>
          rw [hdelete] at h
          cases h
          exact Option.some_ne_none _
    · simp only [Native.stopImu, himu] at h
      split at h
      · cases h
      · cases h
      · cases h
        exact Option.some_ne_none _

theorem runImu_spec {f : Native → Except Fault Native}
    (hf : f = Native.startImu ∨ f = Native.stopImu) {p t : Process} (h : p.runImu f = some t) :
    p.native.device_imu ≠ none ∧ t.native.device_imu ≠ none ∧
      t = { p with native := t.native } := by
  cases hnative : f p.native with
  | error fault =>
    rw [Process.runImu, hnative] at h
    cases h
  | ok native =>
    rw [Process.runImu, hnative] at h
    cases h
    obtain ⟨hbefore, hafter⟩ := native_some hf hnative
    exact ⟨hbefore, hafter, rfl⟩

/-- **What `initAll` does**, if the process goes on. -/
theorem initAll_spec {root : Text} {p t : Process} (h : p.initAll root = some t) :
    t = { p with
      tflite_cpu_rpc_server := some (.new (root ++ "/cpu".toList) p.sockets)
      tflite_gpu_rpc_server := some (.new (root ++ "/gpu".toList) (p.sockets + 1))
      paths := Bound.replace
        (Bound.replace p.paths (p.tflite_cpu_rpc_server.map (·.socket_))
          ⟨root ++ "/cpu".toList, p.sockets⟩)
        (p.tflite_gpu_rpc_server.map (·.socket_)) ⟨root ++ "/gpu".toList, p.sockets + 1⟩
      sockets := p.sockets + 2 } := by
  simp only [Process.initAll, Option.bind_eq_bind, Option.bind_eq_some_iff] at h
  obtain ⟨-, -, -, -, h⟩ := h
  exact (Option.some.inj h).symm

/-- A server that has been started is the same server. -/
theorem start_spec {o : Option TfLiteRunnerRpcServer} {server : TfLiteRunnerRpcServer}
    (h : TfLiteRunnerRpcServer.start o = some server) :
    ∃ old, o = some old ∧ server.socket_ = old.socket_ := by
  cases o with
  | none => cases h
  | some old =>
    rw [TfLiteRunnerRpcServer.start] at h
    split at h
    · cases h
    · cases h
      exact ⟨old, rfl, rfl⟩

/-- **What `startAll` does**, if the process goes on. -/
theorem startAll_spec {p t : Process} (h : p.startAll = some t) :
    ∃ cpu gpu cpu' gpu', p.tflite_cpu_rpc_server = some cpu ∧
      p.tflite_gpu_rpc_server = some gpu ∧ cpu'.socket_ = cpu.socket_ ∧
      gpu'.socket_ = gpu.socket_ ∧
      t = { p with tflite_cpu_rpc_server := some cpu', tflite_gpu_rpc_server := some gpu' } := by
  simp only [Process.startAll, Option.bind_eq_bind, Option.bind_eq_some_iff] at h
  obtain ⟨cpu', hcpu, gpu', hgpu, h⟩ := h
  obtain ⟨cpu, hcpu, hcpuSocket⟩ := start_spec hcpu
  obtain ⟨gpu, hgpu, hgpuSocket⟩ := start_spec hgpu
  exact ⟨cpu, gpu, cpu', gpu', hcpu, hgpu, hcpuSocket, hgpuSocket, (Option.some.inj h).symm⟩

/-! ## Steps -/

/-- A new object keeps its path if the owner had none: an old one has the same path. -/
theorem names_replace_own {paths : Text → Option Nat} {old : Option Socket} {address : Text}
    (hname : ∀ s ∈ old, s.name = address) (socket : Nat) :
    Bound.replace paths old ⟨address, socket⟩ address = some socket ↔ old = none := by
  show Bound.Names (Bound.replace paths old ⟨address, socket⟩) ⟨address, socket⟩ ↔ _
  rw [Bound.names_replace_iff]
  cases old with
  | none => exact ⟨fun _ => rfl, fun _ _ h => (nomatch h)⟩
  | some s => exact ⟨fun h => absurd (hname s rfl) (h s rfl), fun h => by cases h⟩

/-- The path of one owner is not touched when another one gets a new object. -/
theorem replace_other {paths : Text → Option Nat} {old : Option Socket} {address other : Text}
    (hne : other ≠ address) (hname : ∀ s ∈ old, s.name = address) (socket : Nat) :
    Bound.replace paths old ⟨address, socket⟩ other = paths other := by
  refine Bound.replace_of_ne hne fun s hs => ?_
  rw [hname s hs]
  exact hne

theorem socket_name {o : Option TfLiteRunnerRpcServer} {address : Text}
    (h : ∀ server ∈ o, server.socket_.name = address) :
    ∀ s ∈ o.map (·.socket_), s.name = address := by
  intro s hs
  obtain ⟨server, hserver, rfl⟩ := Option.mem_map.mp hs
  exact h server hserver

theorem owned_initImu {p t : Process} {fps : Int} (h : Owned filesDir p)
    (hstep : p.initImu fps (imuAddress filesDir) = some t) : Owned filesDir t := by
  obtain ⟨himu, ht⟩ := initImu_spec hstep
  rw [ht]
  refine ⟨⟨fun hnone => absurd hnone himu, fun hnone => by cases hnone⟩, h.servers, ?_, h.cpuName,
    h.gpuName⟩
  rintro s ⟨⟩
  rfl

theorem named_initImu {p t : Process} {fps : Int} (h : Owned filesDir p) (hp : Named filesDir p)
    (hstep : p.initImu fps (imuAddress filesDir) = some t) :
    Named filesDir t ↔ p.native.device_imu = none := by
  obtain ⟨-, ht⟩ := initImu_spec hstep
  have hown : Bound.replace p.paths p.publisher ⟨imuAddress filesDir, p.sockets⟩
      (imuAddress filesDir) = some p.sockets ↔ p.publisher = none :=
    names_replace_own h.imuName p.sockets
  rw [ht, h.imu, ← hown]
  constructor
  · intro hnamed
    exact hnamed.device_imu _ rfl
  · intro hpath
    refine ⟨?_, fun server hserver => ?_, fun server hserver => ?_⟩
    · rintro s ⟨⟩
      exact hpath
    · rw [← hp.cpu server hserver]
      exact replace_other imu_ne_cpu.symm h.imuName _
    · rw [← hp.gpu server hserver]
      exact replace_other imu_ne_gpu.symm h.imuName _

theorem owned_initAll {p t : Process} (h : Owned filesDir p)
    (hstep : p.initAll (getRootNamedPipe filesDir) = some t) : Owned filesDir t := by
  rw [initAll_spec hstep]
  refine ⟨h.imu, ⟨fun hnone => (nomatch hnone), fun hnone => (nomatch hnone)⟩, h.imuName, ?_, ?_⟩
  · rintro server ⟨⟩
    rfl
  · rintro server ⟨⟩
    rfl

theorem named_initAll {p t : Process} (h : Owned filesDir p) (hp : Named filesDir p)
    (hstep : p.initAll (getRootNamedPipe filesDir) = some t) :
    Named filesDir t ↔ p.tflite_cpu_rpc_server = none ∧ p.tflite_gpu_rpc_server = none := by
  have hcpu := socket_name h.cpuName
  have hgpu := socket_name h.gpuName
  have ht := initAll_spec hstep
  constructor
  · intro hnamed
    -- the path of the second server is touched last
    have hpath : t.paths (getRootNamedPipe filesDir ++ "/gpu".toList) = some (p.sockets + 1) := by
      refine hnamed.gpu (.new (getRootNamedPipe filesDir ++ "/gpu".toList) (p.sockets + 1)) ?_
      rw [ht]
      rfl
    rw [ht] at hpath
    have hnone := Option.map_eq_none_iff.mp ((names_replace_own hgpu _).mp hpath)
    exact ⟨h.servers.mpr hnone, hnone⟩
  · rintro ⟨hcpuNone, hgpuNone⟩
    rw [ht]
    refine ⟨fun s hs => ?_, ?_, ?_⟩
    · rw [← hp.device_imu s hs]
      exact (replace_other imu_ne_gpu hgpu _).trans (replace_other imu_ne_cpu hcpu _)
    · rintro server ⟨⟩
      refine (replace_other cpu_ne_gpu hgpu _).trans ?_
      exact (names_replace_own hcpu _).mpr (Option.map_eq_none_iff.mpr hcpuNone)
    · rintro server ⟨⟩
      exact (names_replace_own hgpu _).mpr (Option.map_eq_none_iff.mpr hgpuNone)

theorem owned_runImu {f : Native → Except Fault Native}
    (hf : f = Native.startImu ∨ f = Native.stopImu) {p t : Process} (h : Owned filesDir p)
    (hstep : p.runImu f = some t) : Owned filesDir t := by
  obtain ⟨hbefore, hafter, ht⟩ := runImu_spec hf hstep
  have hpublisher : p.publisher ≠ none := fun hnone => hbefore (h.imu.mpr hnone)
  rw [ht]
  exact ⟨⟨fun hnone => absurd hnone hafter, fun hnone => absurd hnone hpublisher⟩, h.servers,
    h.imuName, h.cpuName, h.gpuName⟩

theorem named_runImu {f : Native → Except Fault Native}
    (hf : f = Native.startImu ∨ f = Native.stopImu) {p t : Process} (hp : Named filesDir p)
    (hstep : p.runImu f = some t) : Named filesDir t := by
  obtain ⟨-, -, ht⟩ := runImu_spec hf hstep
  rw [ht]
  exact ⟨hp.device_imu, hp.cpu, hp.gpu⟩

theorem owned_startAll {p t : Process} (h : Owned filesDir p) (hstep : p.startAll = some t) :
    Owned filesDir t := by
  obtain ⟨cpu, gpu, cpu', gpu', hcpu, hgpu, hcpuSocket, hgpuSocket, rfl⟩ := startAll_spec hstep
  refine ⟨h.imu, ⟨fun hnone => (nomatch hnone), fun hnone => (nomatch hnone)⟩, h.imuName, ?_, ?_⟩
  · rintro server ⟨⟩
    rw [hcpuSocket]
    exact h.cpuName cpu hcpu
  · rintro server ⟨⟩
    rw [hgpuSocket]
    exact h.gpuName gpu hgpu

theorem named_startAll {p t : Process} (hp : Named filesDir p) (hstep : p.startAll = some t) :
    Named filesDir t := by
  obtain ⟨cpu, gpu, cpu', gpu', hcpu, hgpu, hcpuSocket, hgpuSocket, rfl⟩ := startAll_spec hstep
  refine ⟨hp.device_imu, ?_, ?_⟩
  · rintro server ⟨⟩
    rw [hcpuSocket]
    exact hp.cpu cpu hcpu
  · rintro server ⟨⟩
    rw [hgpuSocket]
    exact hp.gpu gpu hgpu

/-- **What a step does**: it queues messages, or runs one of the native functions. -/
theorem step_cases {s t : App} {a : Action} (hstep : (machine filesDir).step s a = some t) :
    (∃ r, a = .request r ∧ t = { s with queue := s.queue ++ r.messages }) ∨
    (∃ msg queue, a = .handle ∧ s.queue = msg :: queue ∧
      handleMessage filesDir s.process msg = some t.process) ∨
    (a = .initAll ∧ s.process.initAll (getRootNamedPipe filesDir) = some t.process) ∨
    (a = .startAll ∧ s.process.startAll = some t.process) := by
  cases a with
  | request r => exact .inl ⟨r, rfl, (Option.some.inj hstep).symm⟩
  | handle =>
    simp only [machine] at hstep
    split at hstep
    · next msg queue hqueue =>
      obtain ⟨p, hp, rfl⟩ := Option.map_eq_some_iff.mp hstep
      exact .inr (.inl ⟨msg, queue, rfl, hqueue, hp⟩)
    · cases hstep
  | initAll =>
    obtain ⟨p, hp, rfl⟩ := Option.map_eq_some_iff.mp hstep
    exact .inr (.inr (.inl ⟨rfl, hp⟩))
  | startAll =>
    obtain ⟨p, hp, rfl⟩ := Option.map_eq_some_iff.mp hstep
    exact .inr (.inr (.inr ⟨rfl, hp⟩))

/-- The owners keep what they have been given. -/
theorem owned_step {s t : App} {a : Action} (h : Owned filesDir s.process)
    (hstep : (machine filesDir).step s a = some t) : Owned filesDir t.process := by
  rcases step_cases hstep with ⟨r, -, rfl⟩ | ⟨msg, queue, -, -, hmsg⟩ | ⟨-, hinit⟩ | ⟨-, hstart⟩
  · exact h
  · cases msg with
    | create fps => exact owned_initImu h hmsg
    | start => exact owned_runImu (.inl rfl) h hmsg
    | stop => exact owned_runImu (.inr rfl) h hmsg
  · exact owned_initAll h hinit
  · exact owned_startAll h hstart

/-- **One step** keeps the paths named exactly if it makes an object only for an owner
that has none. -/
theorem named_step {s t : App} {a : Action} (h : Owned filesDir s.process)
    (hs : Named filesDir s.process) (hstep : (machine filesDir).step s a = some t) :
    Named filesDir t.process ↔ FirstMade s a := by
  rcases step_cases hstep with ⟨r, rfl, rfl⟩ | ⟨msg, queue, rfl, hqueue, hmsg⟩ | ⟨rfl, hinit⟩ |
    ⟨rfl, hstart⟩
  · exact ⟨fun _ => trivial, fun _ => hs⟩
  · rw [FirstMade, hqueue]
    cases msg with
    | create fps => exact named_initImu h hs hmsg
    | start => exact ⟨fun _ => trivial, fun _ => named_runImu (.inl rfl) hs hmsg⟩
    | stop => exact ⟨fun _ => trivial, fun _ => named_runImu (.inr rfl) hs hmsg⟩
  · exact named_initAll h hs hinit
  · exact ⟨fun _ => trivial, fun _ => named_startAll hs hstart⟩

/-! ## Runs -/

theorem owned_init : Owned filesDir init.process :=
  ⟨⟨fun _ => rfl, fun _ => rfl⟩, ⟨fun _ => rfl, fun _ => rfl⟩, fun _ h => (nomatch h),
    fun _ h => (nomatch h), fun _ h => (nomatch h)⟩

theorem named_init : Named filesDir init.process :=
  ⟨fun _ h => (nomatch h), fun _ h => (nomatch h), fun _ h => (nomatch h)⟩

/-- **The paths stay named** throughout a run exactly if no object replaces another one. -/
theorem named_iff (filesDir : Text) (as : List Action) :
    (machine filesDir).Always (fun s => Named filesDir s.process) init as ↔
      (machine filesDir).Guarded FirstMade init as :=
  Machine.always_iff_guarded (fun _ _ _ h hstep => owned_step h hstep)
    (fun _ _ _ h hs hstep => named_step h hs hstep) as owned_init named_init

/-- The first start, and the first servers. -/
example : (machine []).Guarded FirstMade init
    [.initAll, .startAll, .request (.start 10), .handle, .handle, .request .stop, .handle] := by
  decide

/-- The second servers take the paths of the first ones, and lose them. -/
example : ¬ (machine []).Guarded FirstMade init [.initAll, .startAll, .initAll, .startAll] := by
  decide

/-- After the second of two starts, with a stop between them, the path of the IMU is gone. -/
theorem not_named : ¬ ∀ (filesDir : Text) (as : List Action),
    Looper.Alternates false (requests as) →
      (machine filesDir).Always (fun s => Named filesDir s.process) init as := by
  intro h
  have hrun := h [] [.request (.start 10), .handle, .handle, .request .stop, .handle,
    .request (.start 10), .handle] (by decide)
  have hstopped := (((((hrun.2 _ rfl).2 _ rfl).2 _ rfl).2 _ rfl).2 _ rfl)
  have hnamed := ((hstopped.2 _ rfl).2 _ rfl).device_imu _ rfl
  exact absurd hnamed (by decide)

end Anx.Comms.Endpoints
