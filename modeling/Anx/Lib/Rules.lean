import Mathlib.Data.List.Induction
import Mathlib.Data.List.Nodup
import Mathlib.Logic.Function.Basic

/-!
# Rules for the keys of a store

A rule makes the value of one key from the values of other keys, which have no rule, and from
the value that the key has. Rules are applied one after another, in some order, and some of
them several times.

- `Rules`, `Rules.apply`, `Rules.applyAll`: rules, and how they are applied;
- `Rules.Settled`: applying the rule a second time changes nothing more;
- `Rules.applyAll_key`, `Rules.applyAll_of_ne`: the values afterwards, if the rules are settled;
- `Rules.applyAll_congr_iff`: **neither the order nor repetitions matter** exactly if every
  rule is settled.
-/

namespace Anx.Lib

universe u v w

/-- A rule for each index: its key, and the value that the key gets. Different rules have
different keys, and no rule looks at the key of another one. -/
structure Rules (ι : Type u) (κ : Type v) (ν : Type w) where
  key : ι → κ
  value : ι → (κ → ν) → ν
  key_injective : Function.Injective key
  value_local : ∀ i s t, (∀ k, (∀ j, j ≠ i → key j ≠ k) → s k = t k) → value i s = value i t

namespace Rules

variable {ι : Type u} {κ : Type v} {ν : Type w} [DecidableEq κ] (r : Rules ι κ ν)

/-- The store after a rule. -/
def apply (s : κ → ν) (i : ι) : κ → ν := Function.update s (r.key i) (r.value i s)

/-- The store after several rules. -/
def applyAll (s : κ → ν) (is : List ι) : κ → ν := is.foldl r.apply s

/-- Applying the rule a second time changes nothing more. -/
def Settled (s : κ → ν) (i : ι) : Prop := r.value i (r.apply s i) = r.value i s

variable {r} {s t : κ → ν} {i j : ι}

@[simp] theorem applyAll_nil : r.applyAll s [] = s := rfl

@[simp] theorem applyAll_append (is js : List ι) :
    r.applyAll s (is ++ js) = r.applyAll (r.applyAll s is) js := List.foldl_append

theorem applyAll_concat (is : List ι) :
    r.applyAll s (is ++ [i]) = r.apply (r.applyAll s is) i := by
  rw [applyAll_append]
  rfl

@[simp] theorem apply_key : r.apply s i (r.key i) = r.value i s := Function.update_self _ _ _

theorem apply_of_ne {k : κ} (h : r.key i ≠ k) : r.apply s i k = s k :=
  Function.update_of_ne (Ne.symm h) _ _

theorem settled_iff : r.Settled s i ↔ r.apply (r.apply s i) i = r.apply s i := by
  constructor
  · intro h
    funext k
    by_cases hk : r.key i = k
    · rw [← hk, apply_key, apply_key, h]
    · exact apply_of_ne hk
  · intro h
    have hkey := congrFun h (r.key i)
    rwa [apply_key, apply_key] at hkey

/-- Keys of other rules do not matter. -/
theorem value_congr (hother : ∀ k, (∀ j, r.key j ≠ k) → s k = t k)
    (hown : s (r.key i) = t (r.key i)) : r.value i s = r.value i t := by
  refine r.value_local i s t fun k hk => ?_
  by_cases hi : r.key i = k
  · exact hi ▸ hown
  · refine hother k fun j hj => ?_
    by_cases hji : j = i
    · exact hi (hji ▸ hj)
    · exact hk j hji hj

/-- Keys without an applied rule stay as they are. -/
theorem applyAll_of_ne {is : List ι} {k : κ} (h : ∀ i ∈ is, r.key i ≠ k) :
    r.applyAll s is k = s k := by
  induction is using List.reverseRecOn with
  | nil => rfl
  | append_singleton is i ih =>
    rw [applyAll_concat, apply_of_ne (h i (by simp))]
    exact ih fun j hj => h j (List.mem_append_left _ hj)

/-- **A key with a settled rule** gets what the rule makes of the store at first, whatever
other rules are applied, and how often; with other rules it does so if it is applied once. -/
theorem applyAll_key {is : List ι} (h : r.Settled s i ∨ is.Nodup) (hi : i ∈ is) :
    r.applyAll s is (r.key i) = r.value i s := by
  induction is using List.reverseRecOn with
  | nil => exact absurd hi List.not_mem_nil
  | append_singleton is j ih =>
    rw [← List.concat_eq_append, List.nodup_concat] at h
    rw [applyAll_concat]
    by_cases hji : j = i
    · subst hji
      rw [apply_key]
      by_cases hmem : j ∈ is
      · -- the rule has been applied before
        have hsettled : r.Settled s j := h.resolve_right fun hnodup => hnodup.1 hmem
        have hown : r.applyAll s is (r.key j) = r.apply s j (r.key j) := by
          rw [ih (.inl hsettled) hmem, apply_key]
        refine (value_congr (fun k hk => ?_) hown).trans hsettled
        rw [applyAll_of_ne fun i _ => hk i, apply_of_ne (hk j)]
      · refine value_congr (fun k hk => applyAll_of_ne fun i _ => hk i) ?_
        refine applyAll_of_ne fun i hi' heq => hmem ?_
        exact r.key_injective heq ▸ hi'
    · rw [apply_of_ne fun heq => hji (r.key_injective heq)]
      refine ih (h.imp_right And.right) ((List.mem_append.mp hi).resolve_right fun hlast => ?_)
      exact hji (List.mem_singleton.mp hlast).symm

/-- **Neither the order nor repetitions matter** exactly if every rule is settled. -/
theorem applyAll_congr_iff : (∀ is js : List ι, (∀ i, i ∈ is ↔ i ∈ js) →
    r.applyAll s is = r.applyAll s js) ↔ ∀ i, r.Settled s i := by
  constructor
  · intro h i
    refine settled_iff.mpr (h [i, i] [i] fun j => by simp)
  · intro hsettled is js hmem
    funext k
    by_cases hk : ∃ i ∈ is, r.key i = k
    · obtain ⟨i, hi, rfl⟩ := hk
      rw [applyAll_key (.inl (hsettled i)) hi, applyAll_key (.inl (hsettled i)) ((hmem i).mp hi)]
    · have hne : ∀ i ∈ is, r.key i ≠ k := fun i hi heq => hk ⟨i, hi, heq⟩
      rw [applyAll_of_ne hne, applyAll_of_ne fun i hi => hne i ((hmem i).mpr hi)]

end Rules

end Anx.Lib
