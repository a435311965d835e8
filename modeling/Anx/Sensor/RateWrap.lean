import Anx.Sensor.Rate

/-!
# The unsigned duration of the native limiter

`Rate::sleep` subtracts `uint64_t` values and compares the difference with zero, so that a
cycle that is over gives a duration close to 2^64, which is handed to `sleep_for`. The
count of `std::chrono::milliseconds` is signed: it comes out negative again.

- `NativeRate.handed`: the count that `sleep_for` gets, if it is called;
- `NativeRate.handed_eq`: the count is what is left of the cycle, late or not;
- `NativeRate.handed_le`: **no call sleeps for more than a cycle**, and the next cycle
  starts no more than a cycle ahead of the clock;
- `NativeRate.guarded_handed`: the same of every call of a run.
-/

namespace Anx.Sensor

open Anx.Lib

namespace NativeRate

/-- The count of milliseconds that `Rate::sleep` hands to `std::this_thread::sleep_for` at
the clock reading `actual_end`; `none` when it returns before. -/
def handed (r : NativeRate) (actual_end : UInt64) : Option Int64 :=
  let end_ := if actual_end < r.start_ then actual_end + r.expected_cycle_time_
    else r.start_ + r.expected_cycle_time_
  let sleep_duration := end_ - actual_end
  if sleep_duration ≤ 0 then none else some sleep_duration.toInt64

/-- A call blocks for the count that it hands over, if that is positive. -/
theorem sleep_blocks (r : NativeRate) (now : UInt64) :
    (r.sleep now).2 = ((r.handed now).elim 0 Int64.toInt).toNat := by
  unfold sleep handed
  generalize (if now < r.start_ then now + r.expected_cycle_time_
      else r.start_ + r.expected_cycle_time_) = end_
  by_cases hzero : end_ - now ≤ 0
  · simp only [if_pos hzero]
    split <;> rfl
  · simp only [if_neg hzero]
    rfl

/-- What is left of the cycle. -/
def rest (r : NativeRate) (now : UInt64) : Int :=
  (if now.toNat < r.start_.toNat then now.toNat else r.start_.toNat : Nat) +
    r.expected_cycle_time_.toNat - now.toNat

section

variable {r : NativeRate} {now : UInt64}

theorem rest_le : r.rest now ≤ r.expected_cycle_time_.toNat := by
  unfold rest
  split <;> omega

/-- Nothing is left of a cycle that was overrun. -/
theorem rest_le_zero (hover : r.start_.toNat + r.expected_cycle_time_.toNat ≤ now.toNat) :
    r.rest now ≤ 0 := by
  unfold rest
  split <;> omega

/-- The count is what is left of the cycle, also when the difference wraps. -/
theorem handed_eq (hsum : r.start_.toNat + r.expected_cycle_time_.toNat < 2 ^ 63)
    (hnow : now.toNat < 2 ^ 63) {count : Int64} (h : r.handed now = some count) :
    count.toInt = r.rest now := by
  have hend := toNat_end hsum now
  unfold handed at h
  unfold rest
  generalize (if now < r.start_ then now + r.expected_cycle_time_
      else r.start_ + r.expected_cycle_time_) = end_ at hend h
  have hbound : end_.toNat < 2 ^ 63 := by
    rw [hend]
    split <;> omega
  dsimp only at h
  split at h
  · cases h
  · cases h
    rw [toInt_sub hbound hnow, hend, Int.natCast_add]

/-- **A late call never blocks**: for a cycle that ends before 2^63 and a clock reading
before it, the count handed to `sleep_for` is at most the cycle, it is not positive when the
cycle was overrun, and the next cycle starts at most one cycle after the clock reading. -/
theorem handed_le (hsum : r.start_.toNat + r.expected_cycle_time_.toNat < 2 ^ 63)
    (hnow : now.toNat < 2 ^ 63) :
    (∀ count, r.handed now = some count → count.toInt ≤ r.expected_cycle_time_.toNat ∧
      (r.start_.toNat + r.expected_cycle_time_.toNat ≤ now.toNat → count.toInt ≤ 0)) ∧
    (r.sleep now).1.start_.toNat ≤ now.toNat + r.expected_cycle_time_.toNat := by
  refine ⟨fun count h => ?_, ?_⟩
  · rw [handed_eq hsum hnow h]
    exact ⟨rest_le, rest_le_zero⟩
  · rw [(sleep_spec hsum hnow).1]
    split <;> omega

/-- At 10 Hz, half a second late: the difference wraps, and the count is negative. -/
theorem handed_le_late : (⟨1000, 100, 0⟩ : NativeRate).handed 1500 = some (-400) ∧
    (-400 : Int64).toInt ≤ 0 :=
  have hcount : (⟨1000, 100, 0⟩ : NativeRate).handed 1500 = some (-400) := by decide
  ⟨hcount, ((@handed_le ⟨1000, 100, 0⟩ 1500 (by decide) (by decide)).1 _ hcount).2 (by decide)⟩

end

/-! ## Runs -/

/-- A call that keeps to the cycle. -/
def KeepsCycle (r : NativeRate) (now : Nat) : Prop :=
  (r.sleep (.ofNat now)).2 ≤ r.expected_cycle_time_.toNat ∧
    (r.sleep (.ofNat now)).1.start_.toNat ≤ now + r.expected_cycle_time_.toNat

theorem keepsCycle {r : NativeRate} {now : Nat}
    (hsum : r.start_.toNat + r.expected_cycle_time_.toNat < 2 ^ 63) (hnow : now < 2 ^ 63) :
    r.KeepsCycle now := by
  have htoNat : (UInt64.ofNat now).toNat = now := by
    rw [UInt64.toNat_ofNat']
    omega
  have hlt : (UInt64.ofNat now).toNat < 2 ^ 63 := by omega
  obtain ⟨hstart, hblock⟩ := sleep_spec hsum hlt
  rw [htoNat] at hstart hblock
  have hmin : (if now < r.start_.toNat then now else r.start_.toNat) ≤ now := by
    split <;> omega
  unfold KeepsCycle
  omega

/-- **Every call of a run keeps to the cycle**, on any clock that stays two cycles below
2^63, even if it goes back and forth. -/
theorem guarded_handed {r : NativeRate} {calls : List Nat}
    (hsum : r.start_.toNat + r.expected_cycle_time_.toNat < 2 ^ 63)
    (hcalls : ∀ now ∈ calls, now + 2 * r.expected_cycle_time_.toNat < 2 ^ 63) :
    nativeMachine.Guarded KeepsCycle r calls := by
  induction calls generalizing r with
  | nil => trivial
  | cons now calls ih =>
    rintro t ⟨⟩
    have hnow := hcalls now List.mem_cons_self
    have hkeeps : r.KeepsCycle now := keepsCycle hsum (by omega)
    have hcycle := congrArg UInt64.toNat (sleep_cycle r (.ofNat now))
    have hstart := hkeeps.2
    refine ⟨hkeeps, ih (by omega) fun now' hnow' => ?_⟩
    rw [hcycle]
    exact hcalls now' (List.mem_cons_of_mem _ hnow')

end NativeRate

end Anx.Sensor
