import Mathlib.Data.List.Basic

/-!
# The native IMU

`sensord.cpp` owns one `Imu` (imu.cpp) through the global `device_imu_`; an `Imu` owns its
publisher thread. What the sensors deliver and what is published is left out; what the
lifetime of the objects and of the threads depends on is there.

- `Fault`: what ends the process;
- `StdThread`, `Imu`, `Native`: the objects and the running threads;
- `initImu`, `startImu`, `stopImu`: the native functions;
- `Idle`, `Publishing`: before a start and after it, with what each function does in
  them.
-/

namespace Anx.Sensor

/-- What ends the process: a null pointer, `std::terminate`, an exception that nobody
catches, a division by zero. -/
inductive Fault where
  | nullImu
  | nullThread
  | notJoinable
  | terminate
  | divideByZero
deriving DecidableEq, Repr

/-- A `std::thread`; it is joinable as long as it stands for a thread. -/
structure StdThread where
  id : Option Nat
deriving DecidableEq, Repr

/-- An `Imu`. -/
structure Imu where
  is_running : Bool
  fps : Nat
  publisher_thread : Option StdThread
deriving DecidableEq, Repr

/-- The global variable and the publisher threads that run. -/
structure Native where
  device_imu : Option Imu
  publishers : List Nat
  nextId : Nat
deriving DecidableEq, Repr

namespace Native

/-- At the start of the process. -/
def init : Native := ⟨none, [], 0⟩

/-- `~unique_ptr<thread>`: the destructor of a joinable thread terminates. -/
def deleteThread : Option StdThread → Except Fault Unit
  | some ⟨some _⟩ => .error .terminate
  | _ => .ok ()

/-- `~unique_ptr<Imu>`. -/
def deleteImu : Option Imu → Except Fault Unit
  | some imu => deleteThread imu.publisher_thread
  | none => .ok ()

/-- `Imu::Imu`, with the constructor of its `Rate`. The frame rate is a `uint16_t`. -/
def newImu (fps : Int) : Except Fault Imu :=
  let fps := (fps % 65536).toNat
  if fps = 0 then .error .divideByZero
  else .ok { is_running := false, fps := fps, publisher_thread := none }

/-- `initImu`: the new object is made before the old one is destroyed. -/
def initImu (fps : Int) (n : Native) : Except Fault Native := do
  let imu ← newImu fps
  deleteImu n.device_imu
  return { n with device_imu := some imu }

/-- `startImu`: the new thread is made before the old one is destroyed. -/
def startImu (n : Native) : Except Fault Native :=
  match n.device_imu with
  | none => .error .nullImu
  | some imu =>
    -- `1000000 / fps_`
    if imu.fps = 0 then .error .divideByZero
    else do
      let publisher : StdThread := ⟨some n.nextId⟩
      deleteThread imu.publisher_thread
      return {
        device_imu := some { imu with is_running := true, publisher_thread := some publisher }
        publishers := n.nextId :: n.publishers
        nextId := n.nextId + 1 }

/-- `stopImu`: the join returns when the loop of the thread has seen `is_running`. -/
def stopImu (n : Native) : Except Fault Native :=
  match n.device_imu with
  | none => .error .nullImu
  | some imu =>
    match imu.publisher_thread with
    | none => .error .nullThread
    | some ⟨none⟩ => .error .notJoinable
    | some ⟨some id⟩ => .ok { n with
        device_imu := some { imu with is_running := false, publisher_thread := some ⟨none⟩ }
        publishers := n.publishers.erase id }

/-- No thread runs: before the first start, or after a stop. -/
structure Idle (n : Native) : Prop where
  publishers : n.publishers = []
  joined : ∀ imu ∈ n.device_imu, imu.publisher_thread = some ⟨none⟩

/-- The `Imu` has been made, and nothing else. -/
structure Created (n : Native) : Prop where
  publishers : n.publishers = []
  device_imu : ∃ fps, fps ≠ 0 ∧ n.device_imu =
    some { is_running := false, fps := fps, publisher_thread := none }

/-- The thread of the `Imu` runs, and no other one. -/
structure Publishing (n : Native) : Prop where
  device_imu : ∃ imu id, n.device_imu = some imu ∧ imu.publisher_thread = some ⟨some id⟩ ∧
    n.publishers = [id]

theorem init_idle : init.Idle := ⟨rfl, fun _ h => (nomatch h)⟩

variable {n : Native}

theorem newImu_ok {fps : Int} (h : 1 ≤ fps ∧ fps ≤ 1000) : newImu fps = .ok
    { is_running := false, fps := fps.toNat, publisher_thread := none } := by
  have hmod : fps % 65536 = fps := Int.emod_eq_of_lt (by omega) (by omega)
  have hne : fps.toNat ≠ 0 := by omega
  simp only [newImu, hmod, if_neg hne]

/-- A new `Imu` replaces one without running thread. -/
theorem initImu_idle {fps : Int} (hfps : 1 ≤ fps ∧ fps ≤ 1000) (h : n.Idle) :
    ∃ n', n.initImu fps = .ok n' ∧ n'.Created := by
  have hdelete : deleteImu n.device_imu = .ok () := by
    cases himu : n.device_imu with
    | none => rfl
    | some imu =>
      rw [deleteImu, h.joined imu himu]
      rfl
  refine ⟨{ n with device_imu := some ⟨false, fps.toNat, none⟩ }, ?_, h.publishers, fps.toNat, ?_,
    rfl⟩
  · rw [initImu, newImu_ok hfps, hdelete]
    rfl
  · omega

/-- A new `Imu` cannot replace one whose thread runs. -/
theorem initImu_publishing {fps : Int} (hfps : 1 ≤ fps ∧ fps ≤ 1000) (h : n.Publishing) :
    n.initImu fps = .error .terminate := by
  obtain ⟨imu, id, himu, hthread, -⟩ := h.device_imu
  rw [initImu, newImu_ok hfps, himu, deleteImu, hthread]
  rfl

theorem startImu_created (h : n.Created) : ∃ n', n.startImu = .ok n' ∧ n'.Publishing := by
  obtain ⟨fps, hfps, himu⟩ := h.device_imu
  have hstart : n.startImu = .ok {
      device_imu := some ⟨true, fps, some ⟨some n.nextId⟩⟩
      publishers := n.nextId :: n.publishers
      nextId := n.nextId + 1 } := by
    rw [startImu, himu]
    exact if_neg hfps
  refine ⟨_, hstart, ⟨_, n.nextId, rfl, rfl, ?_⟩⟩
  rw [h.publishers]

theorem stopImu_publishing (h : n.Publishing) : ∃ n', n.stopImu = .ok n' ∧ n'.Idle := by
  obtain ⟨imu, id, himu, hthread, hpublishers⟩ := h.device_imu
  refine ⟨{ n with
    device_imu := some { imu with is_running := false, publisher_thread := some ⟨none⟩ }
    publishers := n.publishers.erase id }, ?_, ?_, ?_⟩
  · rw [stopImu, himu]
    simp only [hthread]
  · simp [hpublishers]
  · rintro imu' ⟨⟩
    rfl

/-- There is nothing to stop. -/
theorem stopImu_idle (h : n.Idle) : ∃ fault, n.stopImu = .error fault := by
  cases himu : n.device_imu with
  | none => exact ⟨.nullImu, by rw [stopImu, himu]⟩
  | some imu =>
    refine ⟨.notJoinable, ?_⟩
    rw [stopImu, himu]
    simp only [h.joined imu himu]

end Native

end Anx.Sensor
