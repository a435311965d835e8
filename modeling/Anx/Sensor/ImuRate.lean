import Anx.Comms.Messages
import Anx.Lib.Pace
import Anx.Sensor.DeviceImu
import Anx.Sensor.Rate

/-!
# The rate of the IMU

The `fps` of a request `StartDeviceImu` is a `uint32`. `DeviceImu.start` answers every request
with success. The value goes on as a Kotlin `Int` and a `jint` to the `uint16_t` parameter of
`Imu::Imu`, whose `Rate` divides by it, as `Imu::start` does.

- `getFps`, `DeviceImu.start`: the value in the message to the looper;
- `newRate`, `RatedImu.new`, `RatedImu.start`: the native side with its divisions;
  `newImu_eq`: it is that of `Native.newImu`, with the `Rate`;
- `NativeRate.limiter`, `NativeRate.law`, `publishes_paced`: the loop of the publisher is
  throttled by its cycle time;
- `Honoured`: the value arrives, nothing divides by zero, and the cycle time is positive;
- `honoured_iff`: **the rates from 1 to 1000 are honoured**, and no others.
-/

namespace Anx.Sensor

open Anx.Lib Anx.Comms

/-! ## The way of the value -/

/-- The getter of the `uint32` field: an `Int` with the same bits. -/
def getFps (fps : UInt32) : Int32 := fps.toInt32

/-- `DeviceImu.start`: the result, and the messages to the looper. -/
def DeviceImu.start (options : Option UInt32) : Result × List Msg :=
  match options with
  | none => ({ success := false, message := "Null options specified".toList }, [])
  | some fps => ({ success := true }, Request.messages (.start (getFps fps).toInt))

/-- The parameter of `Imu::Imu`: the `jint` modulo `2 ^ 16`. -/
def toUint16 (fps : Int) : UInt16 := .ofInt fps

/-- `Rate::Rate` at a clock reading; it divides 1000 by the rate. -/
def newRate (hz : UInt16) (now : UInt64) : Except Fault NativeRate :=
  if hz = 0 then .error .divideByZero else .ok (.new hz now)

/-- An `Imu`, as far as the rate goes. -/
structure RatedImu where
  fps_ : UInt16
  rate_ : NativeRate
deriving DecidableEq, Repr

namespace RatedImu

/-- `Imu::Imu`. -/
def new (fps : UInt16) (now : UInt64) : Except Fault RatedImu := do
  let rate_ ← newRate fps now
  return ⟨fps, rate_⟩

/-- `Imu::start`: the delay for the sensors, in microseconds. -/
def start (imu : RatedImu) : Except Fault Int32 :=
  if imu.fps_ = 0 then .error .divideByZero else .ok (.ofNat (1000000 / imu.fps_.toNat))

end RatedImu

/-- The rates that `getDeviceImuSelect` offers. -/
def getAvailableFps : List Nat := [1, 2, 5, 10, 15, 25, 30, 60, 75, 100, 125, 150, 200]

/-! ## The native side -/

theorem toNat_toUint16 (fps : Int) : (toUint16 fps).toNat = (fps % 65536).toNat := by
  show (UInt16.ofNat (fps % 2 ^ 16).toNat).toNat = _
  rw [UInt16.toNat_ofNat']
  omega

/-- **The value that arrives** is that of the request modulo `2 ^ 16`. -/
theorem value_arrives (fps : UInt32) : (getFps fps).toInt % 65536 = (fps.toNat : Int) % 65536 := by
  have hint : (getFps fps).toInt = (fps.toNat : Int).bmod (2 ^ 32) :=
    BitVec.toInt_eq_toNat_bmod fps.toBitVec
  rw [hint, Int.bmod]
  split <;> omega

/-- The `Imu` of the life cycle is this one without its `Rate`. -/
theorem newImu_eq (fps : Int) (now : UInt64) : Native.newImu fps =
    (RatedImu.new (toUint16 fps) now).map fun imu =>
      { is_running := false, fps := imu.fps_.toNat, publisher_thread := none } := by
  unfold Native.newImu RatedImu.new newRate
  rw [← toNat_toUint16]
  by_cases hzero : toUint16 fps = 0
  · have hnat : (toUint16 fps).toNat = 0 := congrArg UInt16.toNat hzero
    rw [if_pos hzero]
    simp only [hnat]
    rfl
  · have hnat : (toUint16 fps).toNat ≠ 0 := fun h => hzero (UInt16.toNat_inj.mp h)
    rw [if_neg hzero]
    simp only [if_neg hnat]
    rfl

theorem deleteImu_error {imu : Option Imu} {fault : Fault}
    (h : Native.deleteImu imu = .error fault) : fault = .terminate := by
  rcases imu with _ | ⟨_, _, _ | ⟨_ | _⟩⟩ <;> cases h
  rfl

/-- **Handling a start divides by zero** exactly for the multiples of `2 ^ 16`, whatever the
native side has done before. -/
theorem handleAll_divideByZero_iff (fps : UInt32) (n : Native) :
    Looper.handleAll n (DeviceImu.start (some fps)).2 = .error .divideByZero ↔
      fps.toNat % 65536 = 0 := by
  have hvalue : ((getFps fps).toInt % 65536).toNat = fps.toNat % 65536 := by
    rw [value_arrives]
    omega
  show Looper.handleAll n [.create (getFps fps).toInt, .start] = _ ↔ _
  rw [← hvalue]
  by_cases hzero : ((getFps fps).toInt % 65536).toNat = 0
  · refine iff_of_true (Looper.handleAll_error ?_ _) hzero
    show n.initImu (getFps fps).toInt = _
    rw [Native.initImu, Native.newImu, if_pos hzero]
    rfl
  · refine iff_of_false ?_ hzero
    have hnew : Native.newImu (getFps fps).toInt = .ok ⟨false, _, none⟩ := if_neg hzero
    cases hdelete : Native.deleteImu n.device_imu with
    | error fault =>
      -- the old object could not be destroyed
      have hcreate : handleMessage n (.create (getFps fps).toInt) = .error fault := by
        show n.initImu (getFps fps).toInt = _
        rw [Native.initImu, hnew, hdelete]
        rfl
      rw [Looper.handleAll_error hcreate, deleteImu_error hdelete]
      intro h
      cases h
    | ok =>
      have hcreate : handleMessage n (.create (getFps fps).toInt) =
          .ok { n with device_imu := some ⟨false, ((getFps fps).toInt % 65536).toNat, none⟩ } := by
        show n.initImu (getFps fps).toInt = _
        rw [Native.initImu, hnew, hdelete]
        rfl
      rw [Looper.handleAll_cons hcreate]
      show (if ((getFps fps).toInt % 65536).toNat = 0 then Except.error Fault.divideByZero else _)
        >>= _ ≠ _
      rw [if_neg hzero]
      intro h
      cases h

namespace NativeRate

/-- The limiter on the clock of the system, in milliseconds. -/
def limiter : Limiter NativeRate UInt64 where
  stamp r := r.start_.toNat
  time now := now.toNat
  sleep := NativeRate.sleep

theorem sleep_for_toNat (d : UInt64) :
    sleep_for d = if d.toNat < 2 ^ 63 then d.toNat else 0 := by
  rw [sleep_for, toInt_toInt64, Int.bmod]
  have hlt := d.toNat_lt
  split <;> split <;> omega

/-- A call that the clock has not gone back for: it blocks up to the end of the cycle, and
the next cycle starts there, as far as the clock goes. -/
theorem sleep_waits {r : NativeRate} {now : UInt64} (hcycle : r.expected_cycle_time_.toNat ≤ 1000)
    (hle : r.start_.toNat ≤ now.toNat) :
    r.start_.toNat + r.expected_cycle_time_.toNat ≤ now.toNat + (r.sleep now).2 ∧
      (now.toNat + (r.sleep now).2 < 2 ^ 64 →
        (r.sleep now).1.start_.toNat = r.start_.toNat + r.expected_cycle_time_.toNat) := by
  have hstart := r.start_.toNat_lt
  have hnow := now.toNat_lt
  have hearly : ¬ now < r.start_ := mt UInt64.lt_iff_toNat_lt.mp (by omega)
  unfold sleep
  simp only [if_neg hearly]
  have hend : (r.start_ + r.expected_cycle_time_).toNat =
      (r.start_.toNat + r.expected_cycle_time_.toNat) % 2 ^ 64 := UInt64.toNat_add _ _
  have hduration : (r.start_ + r.expected_cycle_time_ - now).toNat =
      (2 ^ 64 - now.toNat + (r.start_ + r.expected_cycle_time_).toNat) % 2 ^ 64 :=
    UInt64.toNat_sub _ _
  by_cases hzero : r.start_ + r.expected_cycle_time_ - now ≤ 0
  · -- an unsigned duration is not positive only at the very end of the cycle
    have hzero' := UInt64.le_iff_toNat_le.mp hzero
    have hz : (0 : UInt64).toNat = 0 := rfl
    rw [hz, hduration] at hzero'
    have hexact : now.toNat = r.start_.toNat + r.expected_cycle_time_.toNat := by omega
    simp only [if_pos hzero]
    split <;> dsimp only <;> omega
  · have hpos : (r.start_ + r.expected_cycle_time_ - now).toNat ≠ 0 := fun h =>
      hzero (UInt64.le_iff_toNat_le.mpr h.le)
    simp only [if_neg hzero, sleep_for_toNat]
    split <;> omega

/-- **The native limiter** starts one cycle after the other, however late it is. -/
theorem law {T : Nat} (hT : T ≤ 1000) :
    limiter.Law T (fun r => r.expected_cycle_time_.toNat = T) (Round.Follows T) where
  waits := by
    rintro r now rfl hle
    have hwaits := (sleep_waits hT (Int.ofNat_le.mp hle)).1
    show (r.start_.toNat : Int) + _ ≤ now.toNat + _
    exact_mod_cast hwaits
  next := by
    rintro r c c' rfl hle hback hread
    have hlt := c'.now.toNat_lt
    have hle : (r.start_.toNat : Int) ≤ c.now.toNat := hle
    have hback : (c.now.toNat : Int) + ((r.sleep c.now).2 : Nat) ≤ c.back := hback
    have hread : c.back ≤ (c'.now.toNat : Int) := hread
    obtain ⟨hwaits, hnext⟩ := sleep_waits hT (Int.ofNat_le.mp hle)
    have hstart := hnext (by omega)
    refine ⟨?_, ?_, hread, ?_⟩
    · show (r.sleep c.now).1.expected_cycle_time_.toNat = _
      rw [sleep_cycle]
    · show ((r.sleep c.now).1.start_.toNat : Int) ≤ c.back
      omega
    · show (r.start_.toNat : Int) + _ ≤ ((r.sleep c.now).1.start_.toNat : Int)
      omega

end NativeRate

/-! ## Requests -/

/-- What is promised of a request: its value arrives, neither division is by zero, and the
publisher has a positive cycle time. -/
structure Honoured (fps : UInt32) (now : UInt64) : Prop where
  value : (toUint16 (getFps fps).toInt).toNat = fps.toNat
  started : ∃ imu delay, RatedImu.new (toUint16 (getFps fps).toInt) now = .ok imu ∧
    imu.start = .ok delay ∧ 0 < imu.rate_.expected_cycle_time_

/-- A request that is answered with success is honoured. -/
def RateHonoured (fps : UInt32) (now : UInt64) : Prop :=
  (DeviceImu.start (some fps)).1.success = true → Honoured fps now

theorem toNat_cycle {hz : UInt16} {now : UInt64} :
    (NativeRate.new hz now).expected_cycle_time_.toNat = 1000 / hz.toNat := by
  have hle : 1000 / hz.toNat ≤ 1000 := Nat.div_le_self 1000 hz.toNat
  show (UInt64.ofNat (1000 / hz.toNat)).toNat = _
  rw [UInt64.toNat_ofNat', Nat.mod_eq_of_lt (by omega)]

theorem cycle_pos_iff {hz : UInt16} {now : UInt64} :
    0 < (NativeRate.new hz now).expected_cycle_time_ ↔ 1 ≤ hz.toNat ∧ hz.toNat ≤ 1000 := by
  rw [UInt64.lt_iff_toNat_lt, toNat_cycle]
  show 0 < 1000 / hz.toNat ↔ _
  exact Nat.div_pos_iff

theorem honoured_of_le {fps : UInt32} {now : UInt64} (h : 1 ≤ fps.toNat ∧ fps.toNat ≤ 1000) :
    Honoured fps now := by
  have hvalue : (toUint16 (getFps fps).toInt).toNat = fps.toNat := by
    rw [toNat_toUint16, value_arrives]
    omega
  have hne : toUint16 (getFps fps).toInt ≠ 0 := fun hzero => by
    rw [hzero] at hvalue
    have hz : (0 : UInt16).toNat = 0 := rfl
    omega
  refine ⟨hvalue, ⟨toUint16 (getFps fps).toInt, .new (toUint16 (getFps fps).toInt) now⟩, _, ?_,
    if_neg hne, ?_⟩
  · rw [RatedImu.new, newRate, if_neg hne]
    rfl
  · rwa [cycle_pos_iff, hvalue]

/-- The rates that are offered are honoured. -/
theorem honoured_of_available {fps : Nat} (h : fps ∈ getAvailableFps) (now : UInt64) :
    Honoured (.ofNat fps) now := by
  have hrange : ∀ fps ∈ getAvailableFps, 1 ≤ fps ∧ fps ≤ 1000 := by decide
  obtain ⟨hone, hle⟩ := hrange fps h
  refine honoured_of_le ?_
  rw [UInt32.toNat_ofNat', Nat.mod_eq_of_lt (by omega)]
  exact ⟨hone, hle⟩

/-- **The publisher of an honoured request is throttled**: the `k`-th call of its limiter
does not return before the end of `k` cycles. -/
theorem Honoured.paced {fps : UInt32} {now : UInt64} (h : Honoured fps now) {imu : RatedImu}
    (himu : RatedImu.new (toUint16 (getFps fps).toInt) now = .ok imu)
    {calls : List (Limiter.Call UInt64)} {t : NativeRate × Int}
    (hrun : NativeRate.limiter.machine.exec (imu.rate_, now.toNat) calls = some t) {k : Nat}
    (hk : k < calls.length) :
    0 < 1000 / fps.toNat ∧
      (now.toNat : Int) + (k + 1) * (1000 / fps.toNat : Nat) ≤ calls[k].back := by
  obtain ⟨imu', delay, himu', -, hpos⟩ := h.started
  rw [himu, Except.ok.injEq] at himu'
  subst himu'
  have hrate : imu.rate_ = .new (toUint16 (getFps fps).toInt) now := by
    rw [RatedImu.new, newRate] at himu
    split at himu <;> cases himu
    rfl
  have hcycle : imu.rate_.expected_cycle_time_.toNat = 1000 / fps.toNat := by
    rw [hrate, toNat_cycle, h.value]
  have hback := (NativeRate.law (Nat.div_le_self 1000 fps.toNat)).back_le hcycle
    (show (imu.rate_.start_.toNat : Int) ≤ now.toNat by rw [hrate]; exact le_rfl) hrun hk
  have hstamp : NativeRate.limiter.stamp imu.rate_ = now.toNat := by
    rw [hrate]
    rfl
  rw [hstamp] at hback
  refine ⟨?_, hback⟩
  rw [← hcycle]
  exact UInt64.lt_iff_toNat_lt.mp hpos

/-- The publisher of a rate beyond 1000 does not sleep. -/
theorem sleep_unthrottled {r : NativeRate} {now : UInt64}
    (hcycle : r.expected_cycle_time_.toNat = 0) (hle : r.start_.toNat ≤ now.toNat)
    (hnow : now.toNat < 2 ^ 63) : (r.sleep now).2 = 0 := by
  have hearly : ¬ now < r.start_ := mt UInt64.lt_iff_toNat_lt.mp (by omega)
  have hend : (r.start_ + r.expected_cycle_time_).toNat = r.start_.toNat := by
    rw [UInt64.toNat_add]
    omega
  have hduration : sleep_for (r.start_ + r.expected_cycle_time_ - now) = 0 := by
    rw [sleep_for_sub (by omega) hnow]
    omega
  unfold NativeRate.sleep
  simp only [if_neg hearly]
  split
  · split <;> rfl
  · exact hduration

/-- **A request is honoured** exactly if its rate is from 1 to 1000. -/
theorem rateHonoured_iff (fps : UInt32) (now : UInt64) :
    RateHonoured fps now ↔ 1 ≤ fps.toNat ∧ fps.toNat ≤ 1000 := by
  constructor
  · intro h
    obtain ⟨hvalue, imu, delay, himu, -, hpos⟩ := h rfl
    rw [RatedImu.new, newRate] at himu
    split at himu
    · cases himu
    · cases himu
      rwa [cycle_pos_iff, hvalue] at hpos
  · exact fun h _ => honoured_of_le h

/-- A request without `fps` divides by zero. -/
theorem not_rateHonoured : ¬∀ fps now, RateHonoured fps now := by
  intro h
  obtain ⟨imu, delay, himu, -⟩ := (h 0 0 rfl).started
  cases himu

end Anx.Sensor
