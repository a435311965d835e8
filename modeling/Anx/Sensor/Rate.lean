import Anx.Lib.Machine
import Mathlib.Algebra.Group.Int.Defs
import Mathlib.Algebra.Group.Nat.Defs

/-!
# The two rate limiters

`rate.cpp` is a port of `Rate.kt` from `Long` to `uint64_t`. Both take the time once a
call and sleep for the rest of the cycle; a cycle that is over starts the next one at its
end, and a cycle that is over by more than another one starts the next one now.

- `NativeRate.sleep`, `KotlinRate.sleep`: one call at a clock reading, with the time it
  blocks for;
- `SameState`: both limiters have the same start stamp and cycle;
- `NativeRate.sleep_spec`, `KotlinRate.sleep_spec`: both calls in terms of the numbers;
- `sleep_agrees_iff`: **the limiters agree exactly up to the end of a second cycle**: the
  native one never resets its start stamp, since its unsigned duration is never negative;
- `lockstep`: over a whole run of calls.
-/

namespace Anx.Sensor

open Anx.Lib

/-- `Rate` of rate.h; all fields are `uint64_t`. -/
structure NativeRate where
  start_ : UInt64
  expected_cycle_time_ : UInt64
  actual_cycle_time_ : UInt64
deriving DecidableEq, Repr

/-- `Rate` of Rate.kt; the cycle time is an `Int`, the others are `Long`. -/
structure KotlinRate where
  _start : Int64
  _expected_cycle_time : Int32
  actual_cycle_time : Int64
deriving DecidableEq, Repr

/-- `std::this_thread::sleep_for`, in milliseconds: the count of a duration is signed, and
one that is not positive does not block. -/
def sleep_for (duration : UInt64) : Nat := duration.toInt64.toInt.toNat

namespace NativeRate

/-- `Rate::Rate` at a clock reading. -/
def new (hz : UInt16) (now : UInt64) : NativeRate :=
  { start_ := now, expected_cycle_time_ := .ofNat (1000 / hz.toNat), actual_cycle_time_ := 0 }

/-- `Rate::sleep` at the clock reading `actual_end`: the limiter after the call and the
time it blocks for. -/
def sleep (r : NativeRate) (actual_end : UInt64) : NativeRate × Nat :=
  let end_ := if actual_end < r.start_ then actual_end + r.expected_cycle_time_
    else r.start_ + r.expected_cycle_time_
  let sleep_duration := end_ - actual_end
  let r' : NativeRate :=
    { r with start_ := end_, actual_cycle_time_ := actual_end - r.start_ }
  if sleep_duration ≤ 0 then
    if actual_end > end_ + r.expected_cycle_time_ then ({ r' with start_ := actual_end }, 0)
    else (r', 0)
  else (r', sleep_for sleep_duration)

end NativeRate

namespace KotlinRate

/-- The constructor at a clock reading. -/
def new (hz : Int32) (now : Int64) : KotlinRate :=
  { _start := now, _expected_cycle_time := 1000 / hz, actual_cycle_time := 0 }

/-- `Rate.sleep` at the clock reading `actualEnd`: the limiter after the call and the time
it blocks for. -/
def sleep (r : KotlinRate) (actualEnd : Int64) : KotlinRate × Nat :=
  let end_ := if actualEnd < r._start then actualEnd + r._expected_cycle_time.toInt64
    else r._start + r._expected_cycle_time.toInt64
  let sleepDuration := end_ - actualEnd
  let r' : KotlinRate :=
    { r with _start := end_, actual_cycle_time := actualEnd - r._start }
  if sleepDuration ≤ 0 then
    if actualEnd > end_ + r._expected_cycle_time.toInt64 then
      ({ r' with _start := actualEnd }, 0)
    else (r', 0)
  else (r', sleepDuration.toInt.toNat)

end KotlinRate

/-! ## The calls in terms of the numbers -/

/-- A number far from the bounds of a `Long` does not wrap. -/
theorem bmod_of_small {x : Int} (h : -(2 ^ 63) ≤ x ∧ x < 2 ^ 63) : x.bmod (2 ^ 64) = x := by
  refine Int.bmod_eq_of_le ?_ ?_ <;> omega

theorem toInt_toInt64 (x : UInt64) : x.toInt64.toInt = (x.toNat : Int).bmod (2 ^ 64) :=
  BitVec.toInt_eq_toNat_bmod x.toBitVec

/-- A difference that wraps is negative once it is signed. -/
theorem toInt_sub {a b : UInt64} (ha : a.toNat < 2 ^ 63) (hb : b.toNat < 2 ^ 63) :
    (a - b).toInt64.toInt = (a.toNat : Int) - b.toNat := by
  have h : (a - b).toInt64 = a.toInt64 - b.toInt64 := rfl
  rw [h, Int64.toInt_sub, toInt_toInt64, toInt_toInt64,
    bmod_of_small (x := (a.toNat : Int)) (by omega),
    bmod_of_small (x := (b.toNat : Int)) (by omega),
    bmod_of_small (by omega)]

/-- An unsigned difference is not positive only if there is none. -/
theorem sub_le_zero_iff {a b : UInt64} : a - b ≤ 0 ↔ a = b := by
  constructor
  · intro h
    have hzero := UInt64.le_iff_toNat_le.mp h
    rw [UInt64.toNat_sub] at hzero
    have ha := a.toNat_lt
    have hb := b.toNat_lt
    exact UInt64.toNat_inj.mp (by simp at hzero; omega)
  · rintro rfl
    rw [UInt64.sub_self]
    exact UInt64.le_refl 0

/-- A difference that wraps does not block. -/
theorem sleep_for_sub {a b : UInt64} (ha : a.toNat < 2 ^ 63) (hb : b.toNat < 2 ^ 63) :
    sleep_for (a - b) = a.toNat - b.toNat := by
  rw [sleep_for, toInt_sub ha hb]
  omega

/-- The end of the cycle, which starts anew at a clock reading before its start. -/
theorem NativeRate.toNat_end {r : NativeRate}
    (hsum : r.start_.toNat + r.expected_cycle_time_.toNat < 2 ^ 63) (now : UInt64) :
    (if now < r.start_ then now + r.expected_cycle_time_
      else r.start_ + r.expected_cycle_time_).toNat =
      (if now.toNat < r.start_.toNat then now.toNat else r.start_.toNat) +
        r.expected_cycle_time_.toNat := by
  simp only [UInt64.lt_iff_toNat_lt]
  split <;> rw [UInt64.toNat_add] <;> omega

/-- The native limiter sleeps for the rest of the cycle, and the next cycle starts at its
end, however late it is. -/
theorem NativeRate.sleep_spec {r : NativeRate} {now : UInt64}
    (hsum : r.start_.toNat + r.expected_cycle_time_.toNat < 2 ^ 63) (hnow : now.toNat < 2 ^ 63) :
    (r.sleep now).1.start_.toNat =
        (if now.toNat < r.start_.toNat then now.toNat else r.start_.toNat) +
          r.expected_cycle_time_.toNat ∧
      (r.sleep now).2 =
        (if now.toNat < r.start_.toNat then now.toNat else r.start_.toNat) +
          r.expected_cycle_time_.toNat - now.toNat := by
  have hend := toNat_end hsum now
  unfold sleep
  generalize (if now < r.start_ then now + r.expected_cycle_time_
      else r.start_ + r.expected_cycle_time_) = end_ at hend
  have hbound : end_.toNat < 2 ^ 63 := by
    rw [hend]
    split <;> omega
  rw [← hend]
  by_cases hzero : end_ - now ≤ 0
  · -- an unsigned duration is not positive only at the very end of the cycle
    have heq := sub_le_zero_iff.mp hzero
    have hno : ¬ (now > end_ + r.expected_cycle_time_) := by
      intro h
      have h := UInt64.lt_iff_toNat_lt.mp h
      rw [UInt64.toNat_add, heq] at h
      omega
    simp only [if_pos hzero, if_neg hno]
    exact ⟨trivial, by rw [heq, Nat.sub_self]⟩
  · simp only [if_neg hzero]
    exact ⟨trivial, sleep_for_sub hbound hnow⟩

/-- The Kotlin limiter also starts a cycle now when the last one is over by another. -/
theorem KotlinRate.sleep_spec {r : KotlinRate} {now : Int64}
    (hstart : 0 ≤ r._start.toInt ∧ r._start.toInt < 2 ^ 62)
    (hcycle : 0 ≤ r._expected_cycle_time.toInt ∧ r._expected_cycle_time.toInt ≤ 1000)
    (hnow : 0 ≤ now.toInt ∧ now.toInt < 2 ^ 62) :
    (r.sleep now).1._start.toInt =
        (if now.toInt < r._start.toInt then now.toInt + r._expected_cycle_time.toInt
          else if now.toInt > r._start.toInt + 2 * r._expected_cycle_time.toInt then now.toInt
          else r._start.toInt + r._expected_cycle_time.toInt) ∧
      ((r.sleep now).2 : Int) =
        ((if now.toInt < r._start.toInt then now.toInt else r._start.toInt) +
          r._expected_cycle_time.toInt - now.toInt).toNat := by
  have hend : (if now < r._start then now + r._expected_cycle_time.toInt64
      else r._start + r._expected_cycle_time.toInt64).toInt =
      (if now.toInt < r._start.toInt then now.toInt else r._start.toInt) +
        r._expected_cycle_time.toInt := by
    simp only [Int64.lt_iff_toInt_lt]
    split <;> rw [Int64.toInt_add, Int32.toInt_toInt64] <;> exact bmod_of_small (by omega)
  unfold sleep
  generalize (if now < r._start then now + r._expected_cycle_time.toInt64
      else r._start + r._expected_cycle_time.toInt64) = end_ at hend
  have hbound : 0 ≤ end_.toInt ∧ end_.toInt < 2 ^ 62 + 1000 := by
    rw [hend]
    split <;> omega
  have hduration : (end_ - now).toInt = end_.toInt - now.toInt := by
    rw [Int64.toInt_sub, bmod_of_small (by omega)]
  have hover : (end_ + r._expected_cycle_time.toInt64).toInt =
      end_.toInt + r._expected_cycle_time.toInt := by
    rw [Int64.toInt_add, Int32.toInt_toInt64, bmod_of_small (by omega)]
  simp only [Int64.le_iff_toInt_le, Int64.lt_iff_toInt_lt, gt_iff_lt, hduration, hover,
    Int64.toInt_zero]
  split at hend
  · next hearly =>
    -- the clock has gone back, so that the cycle starts now
    split
    · have hno : ¬ (end_.toInt + r._expected_cycle_time.toInt < now.toInt) := by omega
      simp only [if_neg hno]
      omega
    · dsimp only
      omega
  · next hlate =>
    split
    · split <;> dsimp only <;> omega
    · dsimp only
      omega

/-! ## Both limiters -/

/-- Both limiters have the same start stamp and the same cycle. -/
structure SameState (n : NativeRate) (k : KotlinRate) : Prop where
  start : (n.start_.toNat : Int) = k._start.toInt
  cycle : (n.expected_cycle_time_.toNat : Int) = k._expected_cycle_time.toInt

/-- One call of each at the clock reading `now` leaves the same start stamp, and blocks for
the same time. -/
def SleepAgrees (n : NativeRate) (k : KotlinRate) (now : Nat) : Prop :=
  SameState (n.sleep (.ofNat now)).1 (k.sleep (.ofNat now)).1 ∧
    (n.sleep (.ofNat now)).2 = (k.sleep (.ofNat now)).2

/-- The cycle of the Kotlin limiter. -/
theorem KotlinRate.toInt_cycle {hz : Nat} (hhz : 1 ≤ hz ∧ hz ≤ 65535) (start : Int64) :
    (new (.ofNat hz) start)._expected_cycle_time.toInt = (1000 / hz : Nat) := by
  have hne : (1000 : Int32) ≠ Int32.minValue := by decide
  have hthousand : (1000 : Int32).toInt = 1000 := by decide
  show (1000 / Int32.ofNat hz).toInt = _
  rw [Int32.toInt_div_of_ne_left _ _ hne, hthousand, Int32.toInt_ofNat_of_lt (by omega)]
  exact (Int.ofNat_tdiv 1000 hz).symm

/-- Two limiters made at the same time for the same rate. -/
theorem new_sameState {hz now : Nat} (hhz : 1 ≤ hz ∧ hz ≤ 65535) (hnow : now < 2 ^ 62) :
    SameState (.new (.ofNat hz) (.ofNat now)) (.new (.ofNat hz) (.ofNat now)) := by
  constructor
  · show ((UInt64.ofNat now).toNat : Int) = (Int64.ofNat now).toInt
    rw [Int64.toInt_ofNat_of_lt (by omega), UInt64.toNat_ofNat']
    omega
  · have hle : 1000 / hz ≤ 1000 := Nat.div_le_self 1000 hz
    have hhz' : (UInt16.ofNat hz).toNat = hz := by
      rw [UInt16.toNat_ofNat']
      omega
    rw [KotlinRate.toInt_cycle hhz]
    show ((UInt64.ofNat (1000 / (UInt16.ofNat hz).toNat)).toNat : Int) = _
    rw [hhz', UInt64.toNat_ofNat', Nat.mod_eq_of_lt (by omega)]

/-- The clock reading `now` comes before the end of a second cycle. -/
def NativeRate.InTime (n : NativeRate) (now : Nat) : Prop :=
  now ≤ n.start_.toNat + 2 * n.expected_cycle_time_.toNat

theorem NativeRate.sleep_cycle (n : NativeRate) (now : UInt64) :
    (n.sleep now).1.expected_cycle_time_ = n.expected_cycle_time_ := by
  unfold NativeRate.sleep
  dsimp only
  (repeat' split) <;> rfl

theorem KotlinRate.sleep_cycle (k : KotlinRate) (now : Int64) :
    (k.sleep now).1._expected_cycle_time = k._expected_cycle_time := by
  unfold KotlinRate.sleep
  dsimp only
  (repeat' split) <;> rfl

/-- **One call of both limiters** agrees exactly when it comes before the end of a second
cycle. -/
theorem sleep_agrees {now : Nat} {n : NativeRate} {k : KotlinRate}
    (hcycle : n.expected_cycle_time_.toNat ≤ 1000) (hsame : SameState n k)
    (hstart : n.start_.toNat < 2 ^ 62) (hnow : now < 2 ^ 62) :
    SleepAgrees n k now ↔ n.InTime now := by
  have hstamp : k._start.toInt = n.start_.toNat := hsame.start.symm
  have hT : k._expected_cycle_time.toInt = n.expected_cycle_time_.toNat := hsame.cycle.symm
  have hn : (UInt64.ofNat now).toNat = now := by
    rw [UInt64.toNat_ofNat']
    omega
  have hk : (Int64.ofNat now).toInt = now := Int64.toInt_ofNat_of_lt (by omega)
  have hnbound : (UInt64.ofNat now).toNat < 2 ^ 62 := by omega
  have hkbound : 0 ≤ (Int64.ofNat now).toInt ∧ (Int64.ofNat now).toInt < 2 ^ 62 := by omega
  obtain ⟨hnstart, hnblock⟩ := NativeRate.sleep_spec (r := n) (by omega)
    (Nat.lt_trans hnbound (by decide))
  obtain ⟨hkstart, hkblock⟩ := KotlinRate.sleep_spec (r := k) (by omega) (by omega) hkbound
  rw [hn] at hnstart hnblock
  rw [hk, hstamp, hT] at hkstart hkblock
  have hblock : (n.sleep (.ofNat now)).2 = (k.sleep (.ofNat now)).2 := by
    split at hnblock <;> split at hkblock <;> omega
  unfold SleepAgrees NativeRate.InTime
  constructor
  · rintro ⟨⟨hstart', -⟩, -⟩
    split at hnstart <;> split at hkstart <;> (try split at hkstart) <;> omega
  · intro hintime
    refine ⟨⟨?_, ?_⟩, hblock⟩
    · split at hnstart <;> split at hkstart <;> (try split at hkstart) <;> omega
    · rw [NativeRate.sleep_cycle, KotlinRate.sleep_cycle]
      exact hsame.cycle

/-! ## Runs -/

/-- The native limiter, called at one clock reading after another. -/
def nativeMachine : Machine NativeRate Nat where
  step n now := some (n.sleep (.ofNat now)).1

/-- The Kotlin limiter, called at one clock reading after another. -/
def kotlinMachine : Machine KotlinRate Nat where
  step k now := some (k.sleep (.ofNat now)).1

/-- **Lockstep**: as long as every call comes before the end of a second cycle, both
limiters go through the same states. -/
theorem lockstep {n n' : NativeRate} {k : KotlinRate} {calls : List Nat}
    (hcycle : n.expected_cycle_time_.toNat ≤ 1000) (hsame : SameState n k)
    (hcalls : nativeMachine.Guarded
      (fun n now => now < 2 ^ 62 ∧ n.start_.toNat < 2 ^ 62 ∧ n.InTime now) n calls)
    (hrun : nativeMachine.exec n calls = some n') :
    ∃ k', kotlinMachine.exec k calls = some k' ∧ SameState n' k' := by
  have hstep : ∀ n k now n', (n.expected_cycle_time_.toNat ≤ 1000 ∧ SameState n k) →
      (now < 2 ^ 62 ∧ n.start_.toNat < 2 ^ 62 ∧ n.InTime now) →
      nativeMachine.step n now = some n' →
      ∃ k', kotlinMachine.step k now = some k' ∧
        n'.expected_cycle_time_.toNat ≤ 1000 ∧ SameState n' k' := by
    rintro n k now n' ⟨hcycle, hsame⟩ ⟨hnow, hstart, hintime⟩ ⟨⟩
    refine ⟨_, rfl, ?_, ((sleep_agrees hcycle hsame hstart hnow).mpr hintime).1⟩
    rw [NativeRate.sleep_cycle]
    exact hcycle
  obtain ⟨k', hk', -, hsame'⟩ := Machine.exec_simulates hstep ⟨hcycle, hsame⟩ hcalls hrun
  exact ⟨k', hk', hsame'⟩

/-! ## The cycle of a rate -/

/-- **When the limiters agree**, for the cycle of any rate. -/
theorem sleep_agrees_iff {hz now : Nat} {n : NativeRate} {k : KotlinRate}
    (hcycle : n.expected_cycle_time_.toNat = 1000 / hz)
    (hsame : SameState n k) (hstart : n.start_.toNat < 2 ^ 62) (hnow : now < 2 ^ 62) :
    SleepAgrees n k now ↔ now ≤ n.start_.toNat + 2 * (1000 / hz) := by
  have hle : 1000 / hz ≤ 1000 := Nat.div_le_self 1000 hz
  rw [sleep_agrees (by omega) hsame hstart hnow, NativeRate.InTime, hcycle]

/-- At 10 Hz, in the second cycle. -/
theorem sleep_agrees_iff_second : SleepAgrees ⟨1000, 100, 0⟩ ⟨1000, 100, 0⟩ 1150 :=
  (sleep_agrees_iff (n := ⟨1000, 100, 0⟩) (k := ⟨1000, 100, 0⟩) (show 100 = 1000 / 10 by decide)
    ⟨by decide, by decide⟩ (by decide) (by decide)).mpr (by decide)

/-- At 10 Hz, half a second late: the native limiter does not reset its start stamp. -/
theorem not_sleep_agrees : ¬ ∀ hz now (n : NativeRate) (k : KotlinRate), 1 ≤ hz ∧ hz ≤ 65535 →
    n.expected_cycle_time_.toNat = 1000 / hz → SameState n k → n.start_.toNat < 2 ^ 62 →
    now < 2 ^ 62 → SleepAgrees n k now := by
  intro h
  have hagrees := h 10 1500 ⟨1000, 100, 0⟩ ⟨1000, 100, 0⟩ (by decide) (by decide)
    ⟨by decide, by decide⟩ (by decide) (by decide)
  exact absurd hagrees.1.start (by decide)

end Anx.Sensor
