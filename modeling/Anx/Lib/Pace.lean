import Anx.Lib.Machine
import Mathlib.Algebra.Ring.Int.Defs
import Mathlib.Data.Finset.Max
import Mathlib.Data.List.Chain
import Mathlib.Order.Interval.Finset.Nat

/-!
# Pacing

A rate limiter is called in rounds. It keeps a stamp at which the current cycle starts, reads
the clock and does not return before the end of the cycle.

- `Round`: the stamp before a call, the clock reading and the time of the return;
- `Waits`, `Follows`, `CatchesUp`: what a limiter does in a round, and from one to the next;
- `start_le`, `back_le`: **stamps and returns advance** by a cycle a round;
- `spread`: **returns are spread** over the cycles, but for two of them, when the limiter
  does not fall behind the clock;
- `card_le`: so that **a window holds few returns**;
- `Limiter`, `Limiter.machine`: a limiter that is called again and again, on a clock that does
  not go back; `Limiter.rounds`, `Limiter.isChain_rounds`: its rounds.
-/

namespace Anx.Lib

/-- A call of a rate limiter: the start of the cycle, the clock reading and the return. -/
structure Round where
  start : Int
  reading : Int
  back : Int
deriving DecidableEq, Repr

namespace Round

variable (T : Nat)

/-- The call does not return before the end of the cycle. -/
structure Waits (c : Round) : Prop where
  reading : c.reading ≤ c.back
  start : c.start + T ≤ c.back

/-- The clock does not go back, and the next cycle starts after the end of this one. -/
structure Follows (c c' : Round) : Prop where
  reading : c.back ≤ c'.reading
  start : c.start + T ≤ c'.start

/-- The next cycle starts no more than a cycle before the clock reading. -/
structure CatchesUp (c c' : Round) : Prop extends Follows T c c' where
  late : c.reading - T ≤ c'.start

variable {T} {cs : List Round}

/-- **Stamps advance** by a cycle a round. -/
theorem start_le (h : cs.IsChain (Follows T)) {i k : Nat} (hk : i + k < cs.length) :
    cs[i].start + k * T ≤ cs[i + k].start := by
  induction k with
  | zero => simp
  | succ k ih =>
    have hlast := ih (by omega)
    have hstep := (List.isChain_iff_getElem.mp h (i + k) hk).start
    have hmul : ((k + 1 : Nat) : Int) * T = k * T + T := by
      rw [Nat.cast_succ, add_mul, one_mul]
    show cs[i].start + ((k + 1 : Nat) : Int) * T ≤ cs[i + k + 1].start
    omega

/-- **Returns advance** by a cycle a round. -/
theorem back_le (h : cs.IsChain (Follows T)) (hwaits : ∀ c ∈ cs, c.Waits T) {i k : Nat}
    (hk : i + k < cs.length) : cs[i].start + (k + 1) * T ≤ cs[i + k].back := by
  have hstart := start_le h hk
  have hback := (hwaits cs[i + k] (List.getElem_mem hk)).start
  have hmul : ((k : Int) + 1) * T = k * T + T := by rw [add_mul, one_mul]
  omega

/-- **Returns are spread** over all but two of the cycles, after a stall of any length. -/
theorem spread (h : cs.IsChain (CatchesUp T)) (hwaits : ∀ c ∈ cs, c.Waits T) {i j : Nat}
    (hij : i < j) (hj : j < cs.length) :
    cs[i].back + ((j : Int) - i - 2) * T ≤ cs[j].back := by
  have hnext := (List.isChain_iff_getElem.mp h i (by omega)).reading
  obtain ⟨k, rfl⟩ := Nat.exists_eq_add_of_lt hij
  cases k with
  | zero =>
    -- the next return may be as little as the clock lets it
    have hback := (hwaits cs[i + 1] (List.getElem_mem hj)).reading
    have hmul : (((i + 0 + 1 : Nat) : Int) - i - 2) * T = -T := by
      rw [show ((i + 0 + 1 : Nat) : Int) - i - 2 = -1 by omega, neg_one_mul]
    show cs[i].back + (((i + 0 + 1 : Nat) : Int) - i - 2) * T ≤ cs[i + 1].back
    omega
  | succ k =>
    -- the round after the next has caught up with the return
    have hlate := (List.isChain_iff_getElem.mp h (i + 1) (by omega)).late
    have hback := back_le (h.imp fun _ _ h => h.toFollows) hwaits (i := i + 1 + 1) (k := k)
      (by omega)
    have hindex : i + (k + 1) + 1 = i + 1 + 1 + k := by omega
    have hmul : ((k : Int) + 1) * T = k * T + T := by rw [add_mul, one_mul]
    have hfactor : ((i + (k + 1) + 1 : Nat) : Int) - i - 2 = k := by omega
    simp only [hindex] at hfactor ⊢
    rw [hfactor]
    omega

/-- **A window holds few returns**. -/
theorem card_le (hT : 0 < T) (h : cs.IsChain (CatchesUp T)) (hwaits : ∀ c ∈ cs, c.Waits T)
    {a : Int} {W : Nat} {I : Finset Nat}
    (hI : ∀ k ∈ I, ∃ hk : k < cs.length, a ≤ cs[k].back ∧ cs[k].back ≤ a + W) :
    I.card ≤ W / T + 3 := by
  rcases I.eq_empty_or_nonempty with rfl | hne
  · exact Nat.zero_le _
  -- the returns in the window lie between the first and the last of them
  have hcard : I.card ≤ I.max' hne + 1 - I.min' hne := by
    rw [← Nat.card_Icc]
    exact Finset.card_le_card fun k hk => Finset.mem_Icc.mpr ⟨I.min'_le k hk, I.le_max' k hk⟩
  obtain ⟨hi, hmin, -⟩ := hI _ (I.min'_mem hne)
  obtain ⟨hj, -, hmax⟩ := hI _ (I.max'_mem hne)
  generalize I.min' hne = i at hcard hi hmin
  generalize I.max' hne = j at hcard hj hmax
  by_cases hij : i < j
  · have hspread := spread h hwaits hij hj
    have hle : ((j : Int) - i - 2) * T ≤ W := by omega
    have hdiv : (j : Int) - i - 2 ≤ W / T :=
      Int.le_ediv_of_mul_le (Int.natCast_pos.mpr hT) hle
    rw [← Int.natCast_ediv] at hdiv
    omega
  · have hthree : I.card ≤ 3 := by omega
    exact hthree.trans (Nat.le_add_left 3 _)

end Round

/-! ## Limiters -/

universe u v

/-- A limiter: the stamp of its state, the time of a clock value, and one call at a clock
value, with the time that it blocks for at least. -/
structure Limiter (R : Type u) (V : Type v) where
  stamp : R → Int
  time : V → Int
  sleep : R → V → R × Nat

namespace Limiter

variable {R : Type u} {V : Type v} (L : Limiter R V)

/-- A call: the clock value that it reads, and the time of its return. -/
structure Call (V : Type v) where
  now : V
  back : Int
deriving DecidableEq, Repr

/-- Calls in a row. The state has the time of the last return with it. -/
def machine : Machine (R × Int) (Call V) where
  step s c :=
    if s.2 ≤ L.time c.now ∧ L.time c.now + (L.sleep s.1 c.now).2 ≤ c.back then
      some ((L.sleep s.1 c.now).1, c.back)
    else none

/-- The round of a call. -/
def round (r : R) (c : Call V) : Round := ⟨L.stamp r, L.time c.now, c.back⟩

/-- The rounds of calls in a row. -/
def rounds : R → List (Call V) → List Round
  | _, [] => []
  | r, c :: cs => L.round r c :: rounds (L.sleep r c.now).1 cs

variable {L}

theorem map_back_rounds {r : R} {cs : List (Call V)} :
    (L.rounds r cs).map Round.back = cs.map Call.back := by
  induction cs generalizing r with
  | nil => rfl
  | cons c cs ih => exact congrArg (c.back :: ·) ih

@[simp] theorem length_rounds {r : R} {cs : List (Call V)} :
    (L.rounds r cs).length = cs.length := by
  rw [← List.length_map Round.back, map_back_rounds, List.length_map]

theorem back_rounds {r : R} {cs : List (Call V)} {i : Nat} (hround : i < (L.rounds r cs).length)
    (hi : i < cs.length) : (L.rounds r cs)[i].back = cs[i].back := by
  have hmap : (L.rounds r cs).map Round.back = cs.map Call.back := map_back_rounds
  have hget := congrArg (fun l => l[i]?) hmap
  simpa [List.getElem?_map, List.getElem?_eq_getElem hround, List.getElem?_eq_getElem hi] using hget

theorem step_eq_some {s t : R × Int} {c : Call V} (h : L.machine.step s c = some t) :
    s.2 ≤ L.time c.now ∧ L.time c.now + (L.sleep s.1 c.now).2 ≤ c.back ∧
      t = ((L.sleep s.1 c.now).1, c.back) := by
  simp only [machine] at h
  split at h
  · next hcall => exact ⟨hcall.1, hcall.2, (Option.some.inj h).symm⟩
  · cases h

variable (L) in
/-- What the calls of a limiter keep to: a call waits, and when the clock can still be read
after it, its round and the next one are related. -/
structure Law (T : Nat) (Inv : R → Prop) (Q : Round → Round → Prop) : Prop where
  waits : ∀ r now, Inv r → L.stamp r ≤ L.time now →
    L.stamp r + T ≤ L.time now + (L.sleep r now).2
  next : ∀ r c c', Inv r → L.stamp r ≤ L.time c.now →
    L.time c.now + (L.sleep r c.now).2 ≤ c.back → c.back ≤ L.time c'.now →
    Inv (L.sleep r c.now).1 ∧ L.stamp (L.sleep r c.now).1 ≤ c.back ∧
      Q (L.round r c) (L.round (L.sleep r c.now).1 c')

variable {T : Nat} {Inv : R → Prop} {Q : Round → Round → Prop}

/-- **The rounds of a run** wait, and one is related to the next. -/
theorem Law.rounds (law : L.Law T Inv Q) {r : R} {last : Int} {cs : List (Call V)} {t : R × Int}
    (hr : Inv r) (hstamp : L.stamp r ≤ last) (hrun : L.machine.exec (r, last) cs = some t) :
    (L.rounds r cs).IsChain Q ∧ ∀ c ∈ L.rounds r cs, c.Waits T := by
  induction cs generalizing r last with
  | nil => exact ⟨.nil, fun c hc => nomatch hc⟩
  | cons c cs ih =>
    obtain ⟨u, hstep, hrest⟩ := L.machine.exec_cons.mp hrun
    obtain ⟨hnow, hback, rfl⟩ := step_eq_some hstep
    have hread : L.stamp r ≤ L.time c.now := hstamp.trans hnow
    have hwaits : (L.round r c).Waits T := by
      have hcycle := law.waits r c.now hr hread
      refine ⟨?_, hcycle.trans hback⟩
      show L.time c.now ≤ c.back
      omega
    cases cs with
    | nil => exact ⟨.singleton _, fun c' hc' => by rwa [List.mem_singleton.mp hc']⟩
    | cons c' cs =>
      obtain ⟨u, hstep', -⟩ := L.machine.exec_cons.mp hrest
      obtain ⟨hr', hstamp', hQ⟩ := law.next r c c' hr hread hback (step_eq_some hstep').1
      obtain ⟨hchain, hall⟩ := ih hr' hstamp' hrest
      exact ⟨.cons_cons hQ hchain, List.forall_mem_cons.mpr ⟨hwaits, hall⟩⟩

/-! ## Runs -/

variable {r : R} {last : Int} {cs : List (Call V)} {t : R × Int}

/-- **Returns advance** by a cycle a call. -/
theorem Law.back_le (law : L.Law T Inv (Round.Follows T)) (hr : Inv r) (hstamp : L.stamp r ≤ last)
    (hrun : L.machine.exec (r, last) cs = some t) {k : Nat} (hk : k < cs.length) :
    L.stamp r + (k + 1) * T ≤ cs[k].back := by
  obtain ⟨hchain, hwaits⟩ := law.rounds hr hstamp hrun
  have hback := Round.back_le hchain hwaits (i := 0) (k := k) (by simpa using hk)
  cases cs with
  | nil => cases hk
  | cons c cs =>
    simp only [Nat.zero_add] at hback
    rwa [back_rounds _ hk] at hback

/-- **Returns are spread** over all but two of the cycles. -/
theorem Law.spread (law : L.Law T Inv (Round.CatchesUp T)) (hr : Inv r)
    (hstamp : L.stamp r ≤ last) (hrun : L.machine.exec (r, last) cs = some t) {i j : Nat}
    (hij : i < j) (hj : j < cs.length) :
    cs[i].back + ((j : Int) - i - 2) * T ≤ cs[j].back := by
  obtain ⟨hchain, hwaits⟩ := law.rounds hr hstamp hrun
  have hspread := Round.spread hchain hwaits hij (by rwa [length_rounds])
  rwa [back_rounds _ (hij.trans hj), back_rounds _ hj] at hspread

/-- **A window holds few returns**. -/
theorem Law.card_le (law : L.Law T Inv (Round.CatchesUp T)) (hT : 0 < T) (hr : Inv r)
    (hstamp : L.stamp r ≤ last) (hrun : L.machine.exec (r, last) cs = some t) {a : Int} {W : Nat}
    {I : Finset Nat}
    (hI : ∀ k ∈ I, ∃ hk : k < cs.length, a ≤ cs[k].back ∧ cs[k].back ≤ a + W) :
    I.card ≤ W / T + 3 := by
  obtain ⟨hchain, hwaits⟩ := law.rounds hr hstamp hrun
  refine Round.card_le (a := a) hT hchain hwaits fun k hk => ?_
  obtain ⟨hlt, hwindow⟩ := hI k hk
  have hround : k < (L.rounds r cs).length := by rwa [length_rounds]
  refine ⟨hround, ?_⟩
  rwa [back_rounds hround hlt]

end Limiter

end Anx.Lib
