import Anx.Lib.Pace
import Anx.Sensor.Rate

/-!
# Runs of the Kotlin limiter

Calls of `Rate.sleep` in a row, on a clock that does not go back: each reading is not before
the return of the last call, and `Thread.sleep` blocks for its time at least.

- `KotlinRate.sleep_waits`: one call, for all values of the clock; `KotlinRate.law`: so that
  the limiter catches up with the clock;
- `WithinCycle`, `start_of_onTime`: calls within their cycles do not drift;
- `returns_spread`: **returns are spread over the cycles**, also after a stall; so that a
  window of time has few of them.
-/

namespace Anx.Sensor

open Anx.Lib

namespace KotlinRate

/-- The limiter on the clock of the system, in milliseconds. -/
def limiter : Limiter KotlinRate Int64 where
  stamp r := r._start.toInt
  time := Int64.toInt
  sleep := KotlinRate.sleep

/-- The rest of the cycle, also when its end wraps. -/
theorem toInt_duration {r : KotlinRate} {now : Int64}
    (hcycle : 0 ≤ r._expected_cycle_time.toInt ∧ r._expected_cycle_time.toInt ≤ 1000)
    (hle : r._start.toInt ≤ now.toInt) : (r._start + r._expected_cycle_time.toInt64 - now).toInt =
      if now.toInt - (r._start.toInt + r._expected_cycle_time.toInt) ≤ 2 ^ 63 then
        r._start.toInt + r._expected_cycle_time.toInt - now.toInt
      else r._start.toInt + r._expected_cycle_time.toInt - now.toInt + 2 ^ 64 := by
  have hstart := r._start.le_toInt
  have hnow := now.toInt_lt
  rw [Int64.toInt_sub, Int64.toInt_add, Int32.toInt_toInt64, Int.bmod_sub_bmod]
  split
  · exact bmod_of_small (by omega)
  · rw [Int.bmod]
    split <;> omega

/-- The end of the cycle, if the clock can be read then. -/
theorem toInt_end {r : KotlinRate}
    (hcycle : 0 ≤ r._expected_cycle_time.toInt ∧ r._expected_cycle_time.toInt ≤ 1000)
    (hlt : r._start.toInt + r._expected_cycle_time.toInt < 2 ^ 63) :
    (r._start + r._expected_cycle_time.toInt64).toInt =
      r._start.toInt + r._expected_cycle_time.toInt := by
  have hstart := r._start.le_toInt
  rw [Int64.toInt_add, Int32.toInt_toInt64]
  exact bmod_of_small (by omega)

/-- A call that the clock has not gone back for: it blocks up to the end of the cycle. If the
clock can still be read then, the next cycle starts there at the earliest, at the return at the
latest, and no more than a cycle before the clock reading. -/
theorem sleep_waits {r : KotlinRate} {now : Int64}
    (hcycle : 0 ≤ r._expected_cycle_time.toInt ∧ r._expected_cycle_time.toInt ≤ 1000)
    (hle : r._start.toInt ≤ now.toInt) :
    r._start.toInt + r._expected_cycle_time.toInt ≤ now.toInt + (r.sleep now).2 ∧
      (now.toInt + (r.sleep now).2 < 2 ^ 63 →
        r._start.toInt + r._expected_cycle_time.toInt ≤ (r.sleep now).1._start.toInt ∧
        now.toInt - r._expected_cycle_time.toInt ≤ (r.sleep now).1._start.toInt ∧
        (r.sleep now).1._start.toInt ≤ now.toInt + (r.sleep now).2) := by
  have hnow := now.toInt_lt
  have hearly : ¬ now < r._start := mt Int64.lt_iff_toInt_lt.mp (by omega)
  have hend := toInt_end hcycle
  have hduration := toInt_duration hcycle hle
  unfold sleep
  simp only [if_neg hearly]
  generalize r._start + r._expected_cycle_time.toInt64 = end_ at hend hduration
  have hlower := end_.le_toInt
  have hzero : end_ - now ≤ 0 ↔ (end_ - now).toInt ≤ 0 := Int64.le_iff_toInt_le
  by_cases hlate : end_ - now ≤ 0
  · -- the end of the cycle is over, and that of the next one may be
    have hover := hzero.mp hlate
    simp only [if_pos hlate, gt_iff_lt, Int64.lt_iff_toInt_lt]
    have hsecond : end_.toInt + r._expected_cycle_time.toInt < 2 ^ 63 →
        (end_ + r._expected_cycle_time.toInt64).toInt =
          end_.toInt + r._expected_cycle_time.toInt := by
      intro hlt
      rw [Int64.toInt_add, Int32.toInt_toInt64]
      exact bmod_of_small (by omega)
    split at hduration <;> split <;> dsimp only <;> omega
  · -- it sleeps up to the end of the cycle, or until after the last time of the clock
    have hpos := mt hzero.mpr hlate
    simp only [if_neg hlate]
    split at hduration <;> omega

/-- **The Kotlin limiter** catches up with the clock. -/
theorem law {T : Nat} (hT : T ≤ 1000) :
    limiter.Law T (fun r => r._expected_cycle_time.toInt = T) (Round.CatchesUp T) where
  waits r now hcycle hle := by
    have hwaits := (sleep_waits (by omega) hle).1
    rwa [hcycle] at hwaits
  next r c c' hcycle hle hback hread := by
    dsimp only [limiter, Limiter.round] at hle hback hread ⊢
    have hlt := c'.now.toInt_lt
    obtain ⟨hstart, hlate, hreturn⟩ := (sleep_waits (by omega) hle).2 (by omega)
    rw [hcycle] at hstart hlate
    refine ⟨?_, hreturn.trans hback, ⟨hread, ?_⟩, ?_⟩
    · rw [sleep_cycle, hcycle]
    · dsimp only
      exact hstart
    · dsimp only
      exact hlate

/-- The call comes within its cycle. -/
def WithinCycle (s : KotlinRate × Int) (c : Limiter.Call Int64) : Prop :=
  c.now.toInt ≤ s.1._start.toInt + s.1._expected_cycle_time.toInt

/-- A call within its cycle: the next one starts at its end. -/
theorem sleep_onTime {r : KotlinRate} {now : Int64}
    (hcycle : 0 ≤ r._expected_cycle_time.toInt ∧ r._expected_cycle_time.toInt ≤ 1000)
    (hle : r._start.toInt ≤ now.toInt)
    (hin : now.toInt ≤ r._start.toInt + r._expected_cycle_time.toInt) :
    (r.sleep now).1._start = r._start + r._expected_cycle_time.toInt64 := by
  have hnow := now.toInt_lt
  have hearly : ¬ now < r._start := mt Int64.lt_iff_toInt_lt.mp (by omega)
  unfold sleep
  simp only [if_neg hearly]
  by_cases hlate : r._start + r._expected_cycle_time.toInt64 - now ≤ 0
  · -- the call comes at the very end of the cycle
    have hzero : (r._start + r._expected_cycle_time.toInt64 - now).toInt ≤ 0 :=
      Int64.le_iff_toInt_le.mp hlate
    rw [toInt_duration hcycle hle] at hzero
    have hexact : now = r._start + r._expected_cycle_time.toInt64 := by
      refine Int64.toInt_inj.mp ?_
      rw [toInt_end hcycle] <;> split at hzero <;> omega
    simp only [if_pos hlate]
    split
    · exact hexact
    · rfl
  · simp only [if_neg hlate]

/-- **Calls within their cycles do not drift**. -/
theorem start_of_onTime {T : Nat} (hT : T ≤ 1000) {r : KotlinRate}
    (hcycle : r._expected_cycle_time.toInt = T) {last : Int} (hlast : r._start.toInt ≤ last)
    {calls : List (Limiter.Call Int64)} {s : KotlinRate × Int}
    (hrun : limiter.machine.exec (r, last) calls = some s)
    (hcalls : limiter.machine.Guarded WithinCycle (r, last) calls) :
    s.1._start = r._start + .ofNat (calls.length * T) := by
  induction calls generalizing r last with
  | nil =>
    cases hrun
    show r._start = r._start + .ofNat (0 * T)
    rw [Nat.zero_mul]
    exact (Int64.add_zero _).symm
  | cons c calls ih =>
    obtain ⟨u, hstep, hrest⟩ := limiter.machine.exec_cons.mp hrun
    obtain ⟨hin, hguard⟩ := hcalls u hstep
    obtain ⟨hnow, hback, rfl⟩ := Limiter.step_eq_some hstep
    have hle : r._start.toInt ≤ c.now.toInt := hlast.trans hnow
    have hnext := sleep_onTime (by omega) hle hin
    have hcycle' : (r.sleep c.now).1._expected_cycle_time.toInt = T := by rw [sleep_cycle, hcycle]
    have hreturn : (r.sleep c.now).1._start.toInt ≤ c.back := by
      have hwaits := (sleep_waits (by omega) hle).1
      have hback : c.now.toInt + ((r.sleep c.now).2 : Nat) ≤ c.back := hback
      have hwrap : (r._start + r._expected_cycle_time.toInt64).toInt ≤
          r._start.toInt + r._expected_cycle_time.toInt := by
        have hstart := r._start.le_toInt
        rw [Int64.toInt_add, Int32.toInt_toInt64, Int.bmod]
        split <;> omega
      rw [hnext]
      omega
    have hstep : r._expected_cycle_time.toInt64 = .ofNat T := by
      refine Int64.toInt_inj.mp ?_
      rw [Int32.toInt_toInt64, hcycle, Int64.toInt_ofNat_of_lt (by omega)]
    rw [ih hcycle' hreturn hrest hguard]
    show (r.sleep c.now).1._start + _ = r._start + .ofNat ((calls.length + 1) * T)
    rw [hnext, hstep, Int64.add_assoc, ← Int64.ofNat_add, Nat.succ_mul, Nat.add_comm T]

end KotlinRate

/-- **The Kotlin limiter over whole runs**: two returns are apart by a cycle for each call from
one to the other, but for two of them; a window of time has no more returns than that allows;
and the stamps do not drift as long as every call comes within its cycle. -/
theorem returns_spread (hz : Nat) (hhz : 1 ≤ hz ∧ hz ≤ 1000) (start : Int64)
    (calls : List (Limiter.Call Int64)) (s : KotlinRate × Int)
    (hrun : KotlinRate.limiter.machine.exec (.new (.ofNat hz) start, start.toInt) calls = some s) :
    (∀ (i j : Nat) (hij : i < j) (hj : j < calls.length),
      calls[i].back + ((j : Int) - i - 2) * (1000 / hz : Nat) ≤ calls[j].back) ∧
    (∀ (a : Int) (W : Nat) (I : Finset Nat),
      (∀ k ∈ I, ∃ hk : k < calls.length, a ≤ calls[k].back ∧ calls[k].back ≤ a + W) →
      I.card ≤ W / (1000 / hz) + 3) ∧
    (KotlinRate.limiter.machine.Guarded KotlinRate.WithinCycle
      (.new (.ofNat hz) start, start.toInt) calls →
      s.1._start = start + .ofNat (calls.length * (1000 / hz))) := by
  have hT : 1000 / hz ≤ 1000 := Nat.div_le_self 1000 hz
  have hpos : 0 < 1000 / hz := Nat.div_pos hhz.2 hhz.1
  have hcycle := KotlinRate.toInt_cycle ⟨hhz.1, hhz.2.trans (by decide)⟩ start
  have hstamp : KotlinRate.limiter.stamp (.new (.ofNat hz) start) ≤ start.toInt := le_rfl
  refine ⟨fun i j hij hj => ?_, fun a W I hI => ?_, fun hcalls => ?_⟩
  · exact (KotlinRate.law hT).spread hcycle hstamp hrun hij hj
  · exact (KotlinRate.law hT).card_le hpos hcycle hstamp hrun hI
  · exact KotlinRate.start_of_onTime hT hcycle hstamp hrun hcalls

/-- At 10 Hz, two calls on time, one after a stall and another one at once. -/
theorem returns_spread_stall : ∃ s, KotlinRate.limiter.machine.exec (.new (.ofNat 10) 1000, 1000)
      [⟨1040, 1100⟩, ⟨1130, 1200⟩, ⟨5000, 5000⟩, ⟨5001, 5100⟩] = some s ∧
    (1100 : Int) + ((3 : Nat) - (0 : Nat) - 2) * (1000 / 10 : Nat) ≤ 5100 :=
  have hrun : KotlinRate.limiter.machine.exec (.new (.ofNat 10) 1000, (1000 : Int64).toInt)
      [⟨1040, 1100⟩, ⟨1130, 1200⟩, ⟨5000, 5000⟩, ⟨5001, 5100⟩] = some (⟨5100, 100, 1⟩, 5100) := by
    decide
  ⟨_, hrun, (returns_spread 10 (by decide) 1000 _ _ hrun).1 0 3 (by decide) (by decide)⟩

end Anx.Sensor
