import Mathlib.Data.List.Induction
import Mathlib.Data.List.Nodup
import Mathlib.Logic.Function.Basic
import Anx.Lib.Machine

/-!
# Registers that one thread writes and another one samples

Two threads share registers without a lock; a single load or store of a register is
atomic, and nothing else is. The writer takes one event after the other and makes its
assignments; the sampler loads all registers, one by one, and hands the sample on. Both
work in any interleaving.

- `writeAll`, `after`: what assignments and events make of the registers when nobody
  interferes;
- `Shared`, `machine`: the two threads step by step;
- `data_eq`: at every moment a register is as the events so far left it, or, while the
  writer is at the last event, as the ones before;
- `sample_mem`: **every value of a sample was in its register after the sample before
  was handed on**, so that no register is ever seen to go back.
-/

namespace Anx.Lib.Registers

open Function

universe u v w

variable {ι : Type u} {V : Type v} {E : Type w} [DecidableEq ι]

/-- The registers after assignments. -/
def writeAll (data : ι → V) (assignments : List (ι × V)) : ι → V :=
  assignments.foldl (fun data p => update data p.1 p.2) data

/-- The registers after events. -/
def after (assign : E → List (ι × V)) (data : ι → V) (events : List E) : ι → V :=
  events.foldl (fun data e => writeAll data (assign e)) data

theorem writeAll_append (data : ι → V) (as bs : List (ι × V)) :
    writeAll data (as ++ bs) = writeAll (writeAll data as) bs :=
  List.foldl_append

/-- What is not assigned stays. -/
theorem writeAll_of_notMem {data : ι → V} {as : List (ι × V)} {i : ι}
    (h : i ∉ as.map Prod.fst) : writeAll data as i = data i := by
  induction as generalizing data with
  | nil => rfl
  | cons p as ih =>
    rw [List.map_cons, List.mem_cons, not_or] at h
    show writeAll (update data p.1 p.2) as i = data i
    rw [ih h.2, update_of_ne h.1]

/-- Registers that are assigned a function of their name. -/
theorem writeAll_map {data : ι → V} {is : List ι} (f : ι → V) {i : ι} (h : i ∈ is) :
    writeAll data (is.map fun j => (j, f j)) i = f i := by
  induction is generalizing data with
  | nil => exact absurd h List.not_mem_nil
  | cons j is ih =>
    show writeAll (update data j (f j)) (is.map fun j => (j, f j)) i = f i
    by_cases hi : i ∈ is
    · exact ih hi
    · have hij : i = j := (List.mem_cons.mp h).resolve_right hi
      have hmem : i ∉ (is.map fun j => (j, f j)).map Prod.fst := by simpa using hi
      rw [writeAll_of_notMem hmem, hij, update_self]

theorem after_append (assign : E → List (ι × V)) (data : ι → V) (es es' : List E) :
    after assign data (es ++ es') = after assign (after assign data es) es' :=
  List.foldl_append

/-! ## The two threads -/

/-- The registers, what the writer has still to assign and the sampler still to load, the
sample so far and the samples that were handed on. -/
structure Shared (ι : Type u) (V : Type v) where
  data : ι → V
  pending : List (ι × V)
  next : List ι
  loaded : ι → V
  sent : List (ι → V)

inductive Action (E : Type w) where
  /-- The writer takes an event. -/
  | event (e : E)
  /-- The writer makes its next assignment. -/
  | store
  /-- The sampler loads the next register. -/
  | load
  /-- The sampler hands its sample on. -/
  | send

section

variable (assign : E → List (ι × V)) (slots : List ι)

def step (s : Shared ι V) : Action E → Option (Shared ι V)
  | .event e => if s.pending.isEmpty then some { s with pending := assign e } else none
  | .store =>
    match s.pending with
    | [] => none
    | p :: rest => some { s with data := update s.data p.1 p.2, pending := rest }
  | .load =>
    match s.next with
    | [] => none
    | i :: rest => some { s with loaded := update s.loaded i (s.data i), next := rest }
  | .send =>
    if s.next.isEmpty then some { s with sent := s.sent ++ [s.loaded], next := slots } else none

def machine : Machine (Shared ι V) (Action E) := ⟨step assign slots⟩

/-- Before the first event, with the sampler at its first register. -/
def init (data : ι → V) : Shared ι V := ⟨data, [], slots, data, []⟩

end

/-- The events that the writer took. -/
def events : List (Action E) → List E
  | [] => []
  | .event e :: as => e :: events as
  | .store :: as | .load :: as | .send :: as => events as

theorem events_append (as bs : List (Action E)) : events (as ++ bs) = events as ++ events bs := by
  induction as with
  | nil => rfl
  | cons a as ih =>
    cases a with
    | event e => exact congrArg (e :: ·) ih
    | store => exact ih
    | load => exact ih
    | send => exact ih

variable {assign : E → List (ι × V)} {slots : List ι}

theorem step_event {s t : Shared ι V} {e : E}
    (h : (machine assign slots).step s (.event e) = some t) :
    s.pending = [] ∧ t = { s with pending := assign e } := by
  obtain ⟨hempty, ht⟩ := Option.ite_none_right_eq_some.mp h
  exact ⟨List.isEmpty_iff.mp hempty, (Option.some.inj ht).symm⟩

theorem step_store {s t : Shared ι V}
    (h : (machine assign slots).step s .store = some t) :
    ∃ p rest, s.pending = p :: rest ∧
      t = { s with data := update s.data p.1 p.2, pending := rest } := by
  obtain ⟨data, pending, next, loaded, sent⟩ := s
  cases pending with
  | nil => cases h
  | cons p rest => exact ⟨p, rest, rfl, (Option.some.inj h).symm⟩

theorem step_load {s t : Shared ι V}
    (h : (machine assign slots).step s .load = some t) :
    ∃ i rest, s.next = i :: rest ∧
      t = { s with loaded := update s.loaded i (s.data i), next := rest } := by
  obtain ⟨data, pending, next, loaded, sent⟩ := s
  cases next with
  | nil => cases h
  | cons i rest => exact ⟨i, rest, rfl, (Option.some.inj h).symm⟩

theorem step_send {s t : Shared ι V}
    (h : (machine assign slots).step s .send = some t) :
    s.next = [] ∧ t = { s with sent := s.sent ++ [s.loaded], next := slots } := by
  obtain ⟨hempty, ht⟩ := Option.ite_none_right_eq_some.mp h
  exact ⟨List.isEmpty_iff.mp hempty, (Option.some.inj ht).symm⟩

/-! ## The writer -/

/-- The writer has made the assignments `done` of its last event, and the registers are
as these and the events before left them. -/
inductive Written (assign : E → List (ι × V)) (data : ι → V) (s : Shared ι V) :
    List E → Prop where
  | nothing (hpending : s.pending = []) (hdata : s.data = data) : Written assign data s []
  | last (es : List E) (e : E) (done : List (ι × V)) (hassign : assign e = done ++ s.pending)
      (hdata : s.data = writeAll (after assign data es) done) :
      Written assign data s (es ++ [e])

/-- With nothing left to assign, the registers are as the events left them. -/
theorem Written.data_eq {data : ι → V} {s : Shared ι V} {es : List E}
    (h : Written assign data s es) (hpending : s.pending = []) :
    s.data = after assign data es := by
  cases h with
  | nothing _ hdata => exact hdata
  | last es e done hassign hdata =>
    rw [hpending, List.append_nil] at hassign
    rw [hdata, after_append, ← hassign]
    rfl

/-- The sampler does not touch the registers. -/
theorem Written.of_eq {data : ι → V} {s t : Shared ι V} {es : List E}
    (h : Written assign data s es) (hdata : t.data = s.data) (hpending : t.pending = s.pending) :
    Written assign data t es := by
  cases h with
  | nothing hnil hinit => exact .nothing (hpending.trans hnil) (hdata.trans hinit)
  | last es e done hassign hdone => exact .last es e done (hpending ▸ hassign) (hdata.trans hdone)

theorem Written.store {data : ι → V} {s : Shared ι V} {es : List E} {p : ι × V}
    {rest : List (ι × V)} (h : Written assign data s es) (hpending : s.pending = p :: rest) :
    Written assign data { s with data := update s.data p.1 p.2, pending := rest } es := by
  cases h with
  | nothing hnil _ =>
    rw [hnil] at hpending
    cases hpending
  | last es e done hassign hdata =>
    refine .last es e (done ++ [p]) ?_ ?_
    · rw [hassign, hpending, List.append_assoc]
      rfl
    · rw [writeAll_append, ← hdata]
      rfl

theorem written_run {data : ι → V} {as : List (Action E)} {s : Shared ι V}
    (h : (machine assign slots).exec (init slots data) as = some s) :
    Written assign data s (events as) := by
  induction as using List.reverseRecOn generalizing s with
  | nil =>
    cases h
    exact .nothing rfl rfl
  | append_singleton as a ih =>
    obtain ⟨u, hu, h⟩ := Machine.exec_append _ |>.mp h
    obtain ⟨t, hstep, ht⟩ := Machine.exec_cons _ |>.mp h
    cases ht
    have hw := ih hu
    rw [events_append]
    cases a with
    | event e =>
      obtain ⟨hpending, rfl⟩ := step_event hstep
      exact .last _ e [] rfl (hw.data_eq hpending)
    | store =>
      obtain ⟨p, rest, hpending, rfl⟩ := step_store hstep
      rw [show events [Action.store (E := E)] = [] from rfl, List.append_nil]
      exact hw.store hpending
    | load =>
      obtain ⟨i, rest, -, rfl⟩ := step_load hstep
      rw [show events [Action.load (E := E)] = [] from rfl, List.append_nil]
      exact hw.of_eq rfl rfl
    | send =>
      obtain ⟨-, rfl⟩ := step_send hstep
      rw [show events [Action.send (E := E)] = [] from rfl, List.append_nil]
      exact hw.of_eq rfl rfl

/-- **A register is as the events left it**; while the writer is at the last event, it may
still be as the events before left it. -/
theorem data_eq (hnodup : ∀ e, ((assign e).map Prod.fst).Nodup) {data : ι → V}
    {as : List (Action E)} {s : Shared ι V}
    (h : (machine assign slots).exec (init slots data) as = some s) (i : ι) :
    ∃ es, (es = events as ∨ es = (events as).dropLast ∧ s.pending ≠ []) ∧
      s.data i = after assign data es i := by
  have hw := written_run h
  by_cases hpending : s.pending = []
  · exact ⟨_, .inl rfl, congrFun (hw.data_eq hpending) i⟩
  generalize events as = taken at hw ⊢
  cases hw with
  | nothing hnil _ => exact absurd hnil hpending
  | last es e done hassign hdata =>
    by_cases hi : i ∈ done.map Prod.fst
    · refine ⟨_, .inl rfl, ?_⟩
      have hdisjoint := hnodup e
      rw [hassign, List.map_append, List.nodup_append'] at hdisjoint
      have hnotMem : i ∉ s.pending.map Prod.fst := fun hmem => hdisjoint.2.2 hi hmem
      rw [hdata, after_append]
      show _ = writeAll (after assign data es) (assign e) i
      rw [hassign, writeAll_append, writeAll_of_notMem hnotMem]
    · refine ⟨es, .inr ⟨?_, hpending⟩, ?_⟩
      · rw [List.dropLast_concat]
      · rw [hdata, writeAll_of_notMem hi]

/-! ## The sampler -/

/-- At some moment of the run, after `k` samples were handed on and no more, register `i`
held `v`. -/
def Held (assign : E → List (ι × V)) (slots : List ι) (data : ι → V) (as : List (Action E))
    (k : Nat) (i : ι) (v : V) : Prop :=
  ∃ bs u, bs <+: as ∧ (machine assign slots).exec (init slots data) bs = some u ∧
    u.sent.length = k ∧ u.data i = v

theorem Held.append {data : ι → V} {as : List (Action E)} {k : Nat} {i : ι} {v : V}
    (h : Held assign slots data as k i v) (bs : List (Action E)) :
    Held assign slots data (as ++ bs) k i v := by
  obtain ⟨cs, u, hcs, hu, hk, hv⟩ := h
  exact ⟨cs, u, hcs.trans (List.prefix_append _ _), hu, hk, hv⟩

/-- What the samples of a run are made of. -/
structure Sampled (assign : E → List (ι × V)) (slots : List ι) (data : ι → V)
    (as : List (Action E)) (s : Shared ι V) : Prop where
  /-- The registers that were loaded for the next sample. -/
  loading : ∃ done, slots = done ++ s.next ∧
    ∀ i ∈ done, Held assign slots data as s.sent.length i (s.loaded i)
  sent : ∀ k sample, s.sent[k]? = some sample →
    ∀ i ∈ slots, Held assign slots data as k i (sample i)

/-- The writer does not touch the samples. -/
theorem Sampled.of_eq {data : ι → V} {as bs : List (Action E)} {s t : Shared ι V}
    (h : Sampled assign slots data as s) (hnext : t.next = s.next)
    (hloaded : t.loaded = s.loaded) (hsent : t.sent = s.sent) :
    Sampled assign slots data (as ++ bs) t := by
  obtain ⟨⟨done, hdone, hheld⟩, hall⟩ := h
  refine ⟨⟨done, hnext ▸ hdone, fun i hi => ?_⟩, fun k sample hk i hi => ?_⟩
  · rw [hloaded, hsent]
    exact (hheld i hi).append bs
  · rw [hsent] at hk
    exact (hall k sample hk i hi).append bs

theorem sampled_run {data : ι → V} {as : List (Action E)} {s : Shared ι V}
    (h : (machine assign slots).exec (init slots data) as = some s) :
    Sampled assign slots data as s := by
  induction as using List.reverseRecOn generalizing s with
  | nil =>
    cases h
    exact ⟨⟨[], rfl, fun _ hi => absurd hi List.not_mem_nil⟩, fun k sample hk => by cases hk⟩
  | append_singleton as a ih =>
    obtain ⟨u, hu, h⟩ := Machine.exec_append _ |>.mp h
    obtain ⟨t, hstep, ht⟩ := Machine.exec_cons _ |>.mp h
    cases ht
    have hs := ih hu
    cases a with
    | event e =>
      obtain ⟨-, rfl⟩ := step_event hstep
      exact hs.of_eq rfl rfl rfl
    | store =>
      obtain ⟨p, rest, -, rfl⟩ := step_store hstep
      exact hs.of_eq rfl rfl rfl
    | load =>
      obtain ⟨i, rest, hnext, rfl⟩ := step_load hstep
      obtain ⟨⟨done, hdone, hheld⟩, hall⟩ := hs
      refine ⟨⟨done ++ [i], ?_, fun j hj => ?_⟩, fun k sample hk j hj => ?_⟩
      · rw [hdone, hnext, List.append_assoc]
        rfl
      · -- the register that is loaded now holds its value now
        by_cases hji : j = i
        · subst hji
          refine ⟨as, u, List.prefix_append _ _, hu, rfl, ?_⟩
          exact (update_self j (u.data j) u.loaded).symm
        · have hmem : j ∈ done := by simpa [hji] using hj
          show Held assign slots data _ _ j (update u.loaded i (u.data i) j)
          rw [update_of_ne hji]
          exact (hheld j hmem).append _
      · exact (hall k sample hk j hj).append _
    | send =>
      obtain ⟨hnext, rfl⟩ := step_send hstep
      obtain ⟨⟨done, hdone, hheld⟩, hall⟩ := hs
      rw [hnext, List.append_nil] at hdone
      refine ⟨⟨[], rfl, fun _ hi => absurd hi List.not_mem_nil⟩, fun k sample hk j hj => ?_⟩
      have hk' : (u.sent ++ [u.loaded])[k]? = some sample := hk
      rcases Nat.lt_or_ge k u.sent.length with hlt | hge
      · rw [List.getElem?_append_left hlt] at hk'
        exact (hall k sample hk' j hj).append _
      · rw [List.getElem?_append_right hge, List.getElem?_singleton] at hk'
        obtain ⟨hzero, hsample⟩ := Option.ite_none_right_eq_some.mp hk'
        have hlen : k = u.sent.length := by omega
        rw [hlen, ← Option.some.inj hsample]
        exact (hheld j (hdone ▸ hj)).append _

/-- **Every value of a sample was in its register after the sample before was handed on.** -/
theorem sample_mem {data : ι → V} {as : List (Action E)} {s : Shared ι V}
    (h : (machine assign slots).exec (init slots data) as = some s) {k : Nat} {sample : ι → V}
    (hk : s.sent[k]? = some sample) {i : ι} (hi : i ∈ slots) :
    Held assign slots data as k i (sample i) :=
  (sampled_run h).sent k sample hk i hi

end Anx.Lib.Registers
