import Mathlib.Data.List.DropRight
import Mathlib.Data.List.Infix

/-!
# The parts of a growing list

A list is cut at every separator; empty parts at its end do not count. When the list is
continued, the new parts come from the last part and the continuation, as long as no
empty part has been dropped at the seam.

- `parts`: what stands between the separators;
- `Unfinished`, `EndsEmpty`: lists that end within a part, and behind an empty one;
- `parts_unfinished`, `parts_finished`: **the parts of a continued list** in both
  cases;
- `weight`: the length of all parts together, which tells a list of parts from one that
  has lost some.
-/

namespace Anx.Lib

universe u

variable {α : Type u} [DecidableEq α] {sep : α}

/-- What stands between the separators, without empty parts at the end. -/
def parts (sep : α) (s : List α) : List (List α) := (s.splitOn sep).rdropWhile (· = [])

/-- The list ends within a part. -/
def Unfinished (sep : α) (s : List α) : Prop := ∃ x ∈ s.getLast?, x ≠ sep

/-- The list ends with the separator behind an empty part. -/
def EndsEmpty (sep : α) (s : List α) : Prop := s = [sep] ∨ [sep, sep] <:+ s

instance (s : List α) : Decidable (Unfinished sep s) :=
  match h : s.getLast? with
  | none => isFalse (by simp [Unfinished, h])
  | some x => decidable_of_iff (x ≠ sep) (by simp [Unfinished, h])

instance (s : List α) : Decidable (EndsEmpty sep s) := inferInstanceAs (Decidable (_ ∨ _))

@[simp] theorem parts_nil : parts sep [] = [] := by simp [parts, List.rdropWhile]

/-- Removing from the end reaches the first list when nothing of the second one stays. -/
theorem rdropWhile_append {β : Type u} (p : β → Bool) (l₁ l₂ : List β) :
    (l₁ ++ l₂).rdropWhile p =
      if l₂.rdropWhile p = [] then l₁.rdropWhile p else l₁ ++ l₂.rdropWhile p := by
  induction l₂ using List.reverseRecOn with
  | nil => simp
  | append_singleton l x ih =>
    rw [← List.append_assoc]
    by_cases hx : p x = true
    · rw [List.rdropWhile_concat_pos _ _ _ hx, List.rdropWhile_concat_pos _ _ _ hx, ih]
    · rw [List.rdropWhile_concat_neg _ _ _ hx, List.rdropWhile_concat_neg _ _ _ hx,
        if_neg (by simp), List.append_assoc]

/-- A list of separators has no parts. -/
theorem parts_eq_nil_iff {s : List α} : parts sep s = [] ↔ ∀ x ∈ s, x = sep := by
  rw [parts, List.rdropWhile_eq_nil_iff]
  induction s with
  | nil => simp
  | cons x s ih =>
    rw [List.splitOn_cons_eq_if_modifyHead]
    by_cases hx : x = sep
    · simpa [hx] using ih
    · obtain ⟨first, rest, hfirst⟩ := List.exists_cons_of_ne_nil (List.splitOn_ne_nil sep s)
      simp [hx, hfirst]

/-- The parts before and behind a separator. -/
theorem parts_append_sep (v c : List α) : parts sep (v ++ sep :: c) =
    if parts sep c = [] then parts sep v else v.splitOn sep ++ parts sep c := by
  rw [parts, List.splitOn_append_cons_self, rdropWhile_append]
  rfl

/-- A list without separator is its only part. -/
theorem parts_of_not_mem {w : List α} (hw : w ≠ []) (hsep : sep ∉ w) : parts sep w = [w] := by
  rw [parts, List.splitOn_eq_singleton hsep, List.rdropWhile_singleton]
  simp [hw]

/-- The first part is continued. -/
theorem parts_append_of_not_mem {w : List α} (hw : w ≠ []) (hsep : sep ∉ w) (c : List α) :
    parts sep (w ++ c) = match parts sep c with
      | [] => [w]
      | first :: rest => (w ++ first) :: rest := by
  by_cases hc : sep ∈ c
  · obtain ⟨before, after, rfl, hbefore⟩ := List.eq_append_cons_of_mem hc
    have hnot : sep ∉ w ++ before := by simp [hsep, hbefore]
    have hwne : w ++ before ≠ [] := by simp [hw]
    rw [← List.append_assoc, parts_append_sep, parts_append_sep,
      List.splitOn_eq_singleton hnot, List.splitOn_eq_singleton hbefore,
      parts_of_not_mem hwne hnot]
    by_cases hafter : parts sep after = []
    · by_cases hb : before = []
      · simp [hafter, hb]
      · simp [hafter, parts_of_not_mem hb hbefore]
    · simp [hafter]
  · by_cases hne : c = []
    · simp [hne, parts_of_not_mem hw hsep]
    · rw [parts_of_not_mem hne hc, parts_of_not_mem (by simp [hw]) (by simp [hsep, hc])]

/-- The last part of a list that ends within it. -/
theorem splitOn_unfinished {u : List α} (h : Unfinished sep u) :
    ∃ before w, w ≠ [] ∧ sep ∉ w ∧ u.splitOn sep = before ++ [w] ∧
      ∀ c, parts sep (u ++ c) = before ++ parts sep (w ++ c) := by
  obtain ⟨x, hx, hne⟩ := h
  by_cases hsep : sep ∈ u
  · -- the last part is what stands behind the last separator
    obtain ⟨v, w, rfl, hw⟩ : ∃ v w, u = v ++ sep :: w ∧ sep ∉ w := by
      obtain ⟨after, before, hrev, hafter⟩ := List.eq_append_cons_of_mem (List.mem_reverse.mpr hsep)
      refine ⟨before.reverse, after.reverse, ?_, by simpa using hafter⟩
      rw [← List.reverse_reverse u, hrev]
      simp
    have hwne : w ≠ [] := by
      rintro rfl
      simp [hne.symm] at hx
    refine ⟨v.splitOn sep, w, hwne, hw, ?_, fun c => ?_⟩
    · rw [List.splitOn_append_cons_self, List.splitOn_eq_singleton hw]
    · have hstart : parts sep (w ++ c) ≠ [] := by
        rw [parts_append_of_not_mem hwne hw]
        split <;> simp
      rw [List.append_assoc, List.cons_append, parts_append_sep, if_neg hstart]
  · have hune : u ≠ [] := by
      rintro rfl
      cases hx
    exact ⟨[], u, hune, hsep, List.splitOn_eq_singleton hsep, fun c => rfl⟩

/-- **A list that ends within a part**: the continuation continues that part. -/
theorem parts_unfinished {u : List α} (h : Unfinished sep u) :
    ∃ before w, w ≠ [] ∧ sep ∉ w ∧ parts sep u = before ++ [w] ∧
      ∀ c, parts sep (u ++ c) = before ++ parts sep (w ++ c) := by
  obtain ⟨before, w, hw, hsep, -, hcont⟩ := splitOn_unfinished h
  refine ⟨before, w, hw, hsep, ?_, hcont⟩
  simpa [parts_of_not_mem hw hsep] using hcont []

/-- The parts that do not count are the empty ones at the end. -/
theorem splitOn_eq_parts_append (s : List α) :
    ∃ k, s.splitOn sep = parts sep s ++ List.replicate k [] ∧ (k = 0 ↔ Unfinished sep s) := by
  obtain ⟨k, hk⟩ : ∃ k, (s.splitOn sep).rtakeWhile (· = []) = List.replicate k [] :=
    ⟨_, List.eq_replicate_of_mem fun part hp => by simpa using List.mem_rtakeWhile_imp hp⟩
  have hsplit : s.splitOn sep = parts sep s ++ List.replicate k [] := by
    rw [← hk]
    exact List.rdropWhile_append_rtakeWhile.symm
  refine ⟨k, hsplit, ?_, ?_⟩
  · rintro rfl
    by_contra hfinished
    -- behind a separator there is an empty part
    have hlast : ∃ before, s.splitOn sep = before ++ [[]] := by
      rcases List.eq_nil_or_concat s with rfl | ⟨v, x, rfl⟩
      · exact ⟨[], rfl⟩
      · have hx : x = sep := by
          by_contra hx
          exact hfinished ⟨x, by simp, hx⟩
        refine ⟨v.splitOn sep, ?_⟩
        rw [hx, List.concat_eq_append, List.splitOn_append_cons_self]
        rfl
    obtain ⟨before, hbefore⟩ := hlast
    rw [List.replicate_zero, List.append_nil] at hsplit
    rw [parts, hbefore, List.rdropWhile_concat_pos _ _ _ (by simp)] at hsplit
    have hlen := congrArg List.length hsplit
    have hle := (List.rdropWhile_prefix (fun part : List α => decide (part = [])) before).length_le
    simp at hlen
    omega
  · intro hunfinished
    obtain ⟨before, w, hw, -, hlast, -⟩ := splitOn_unfinished hunfinished
    by_contra hne
    have hmem : ([] : List α) = w := by
      obtain ⟨n, rfl⟩ := Nat.exists_eq_succ_of_ne_zero hne
      rw [hlast, List.replicate_succ', ← List.append_assoc] at hsplit
      simpa using (List.append_inj_right' hsplit rfl).symm
    exact hw hmem.symm

/-- **A list that ends behind a separator**: the empty parts that have been dropped there
come back with a further part. -/
theorem parts_finished {u : List α} (h : ¬ Unfinished sep u) (c : List α) :
    ∃ k, parts sep (u ++ c) = parts sep u ++ List.replicate k [] ++ parts sep c ∧
      (k = 0 ↔ (EndsEmpty sep u → ∀ x ∈ c, x = sep)) := by
  rcases List.eq_nil_or_concat u with rfl | ⟨v, x, rfl⟩
  · exact ⟨0, by simp, by simp [EndsEmpty]⟩
  · have hx : x = sep := by
      by_contra hx
      exact h ⟨x, by simp, hx⟩
    rw [hx, List.concat_eq_append]
    have hu : parts sep (v ++ [sep]) = parts sep v := by
      rw [parts_append_sep, if_pos parts_nil]
    have huc : parts sep (v ++ [sep] ++ c) =
        if parts sep c = [] then parts sep v else v.splitOn sep ++ parts sep c := by
      rw [List.append_assoc, List.singleton_append, parts_append_sep]
    rw [hu, huc]
    by_cases hc : parts sep c = []
    · exact ⟨0, by simp [hc], fun _ _ => parts_eq_nil_iff.mp hc, fun _ => rfl⟩
    · obtain ⟨k, hk, hzero⟩ : ∃ k, v.splitOn sep = parts sep v ++ List.replicate k [] ∧
          (k = 0 ↔ Unfinished sep v) := splitOn_eq_parts_append v
      refine ⟨k, by rw [if_neg hc, hk], ?_⟩
      have hends : EndsEmpty sep (v ++ [sep]) ↔ ¬ Unfinished sep v := by
        rcases List.eq_nil_or_concat v with rfl | ⟨v', y, rfl⟩
        · simp [EndsEmpty, Unfinished]
        · rw [List.concat_eq_append]
          have hsuffix : [sep, sep] <:+ v' ++ [y] ++ [sep] ↔ y = sep := by
            rw [List.append_assoc, List.singleton_append]
            constructor
            · rintro ⟨t, ht⟩
              exact (List.cons.inj (List.append_inj_right' ht rfl)).1.symm
            · rintro rfl
              exact List.suffix_append _ _
          have hne : v' ++ [y] ++ [sep] ≠ [sep] :=
            fun heq => by simpa using congrArg List.length heq
          rw [EndsEmpty, hsuffix, or_iff_right hne]
          simp [Unfinished]
      rw [hzero, hends, ← parts_eq_nil_iff]
      constructor
      · exact fun hv hnot => absurd hv hnot
      · intro himp
        by_contra hv
        exact hc (himp hv)

/-! ## Weights -/

/-- The length of all parts, each with the separator behind it. -/
def weight : List (List α) → Nat
  | [] => 0
  | part :: ps => part.length + 1 + weight ps

omit [DecidableEq α] in
@[simp] theorem weight_nil : weight ([] : List (List α)) = 0 := rfl

omit [DecidableEq α] in
@[simp] theorem weight_cons (part : List α) (ps : List (List α)) :
    weight (part :: ps) = part.length + 1 + weight ps := rfl

omit [DecidableEq α] in
@[simp] theorem weight_append (ps qs : List (List α)) :
    weight (ps ++ qs) = weight ps + weight qs := by
  induction ps with
  | nil => simp
  | cons part ps ih =>
    rw [List.cons_append, weight_cons, weight_cons, ih]
    omega

omit [DecidableEq α] in
theorem weight_replicate (k : Nat) : weight (List.replicate k ([] : List α)) = k := by
  induction k with
  | zero => rfl
  | succ k ih =>
    rw [List.replicate_succ, weight_cons, ih, List.length_nil]
    omega

omit [DecidableEq α] in
theorem weight_suffix {ps qs : List (List α)} (h : ps <:+ qs) : weight ps ≤ weight qs := by
  obtain ⟨removed, rfl⟩ := h
  rw [weight_append]
  omega

omit [DecidableEq α] in
/-- Every part counts. -/
theorem weight_suffix_lt {ps qs : List (List α)} (h : ps <:+ qs) (hlen : ps.length < qs.length) :
    weight ps < weight qs := by
  obtain ⟨removed, rfl⟩ := h
  cases removed with
  | nil => simp at hlen
  | cons part removed =>
    rw [List.cons_append, weight_cons, weight_append]
    omega

/-- What a continuation adds does not depend on the part that it continues. -/
theorem weight_append_of_not_mem {w : List α} (hw : w ≠ []) (hsep : sep ∉ w) (c : List α) :
    weight (parts sep (w ++ c)) =
      w.length + weight (parts sep c) + if parts sep c = [] then 1 else 0 := by
  rw [parts_append_of_not_mem hw hsep]
  cases hc : parts sep c with
  | nil => simp
  | cons first rest =>
    simp
    omega

omit [DecidableEq α] in
/-- No list ends both within a part and behind one. -/
theorem not_endsEmpty {u : List α} (h : Unfinished sep u) : ¬ EndsEmpty sep u := by
  obtain ⟨x, hx, hne⟩ := h
  rintro (rfl | ⟨v, rfl⟩)
  · simp at hx
    exact hne hx.symm
  · simp at hx
    exact hne hx.symm

omit [DecidableEq α] in
/-- Further separators leave an empty part at the end. -/
theorem EndsEmpty.append {u c : List α} (h : EndsEmpty sep u) (hc : ∀ x ∈ c, x = sep) :
    EndsEmpty sep (u ++ c) := by
  induction c generalizing u with
  | nil => rwa [List.append_nil]
  | cons x c ih =>
    obtain ⟨rfl, hrest⟩ := List.forall_mem_cons.mp hc
    rw [List.append_cons]
    refine ih (.inr ?_) hrest
    rcases h with rfl | ⟨v, rfl⟩
    · exact List.suffix_rfl
    · exact ⟨v ++ [x], by simp⟩

/-- A continued list has no less parts. -/
theorem length_parts_append (u c : List α) :
    (parts sep u).length ≤ (parts sep (u ++ c)).length := by
  by_cases h : Unfinished sep u
  · obtain ⟨before, w, hw, hsep, hu, hcont⟩ := parts_unfinished h
    rw [hu, hcont, parts_append_of_not_mem hw hsep]
    cases parts sep c <;> simp
  · obtain ⟨k, hk, -⟩ := parts_finished h c
    rw [hk, List.length_append, List.length_append]
    omega

end Anx.Lib
