import Mathlib.Data.Set.Insert
import Mathlib.Order.Bounds.Basic

/-!
# Closing a set under a relation, round by round

A loop holds the elements that it has seen and, among them, the frontier: those whose
successors it has not looked at. A round sees the successors of the frontier; what is new
is the next frontier.

- `Closed`: the sets that have the roots and the successors of their elements;
- `Frontier`: the invariant of the loop; `start`, `round`;
- `Frontier.isLeast`: with an empty frontier **the seen elements are the least closed set**;
  `isLeast_union`: the least closed sets of two sets.
-/

namespace Anx.Lib

variable {α : Type*} {r : α → α → Prop} {first seen new : Set α}

/-- The set has the roots, and the successors of its elements. -/
structure Frontier.Closed (r : α → α → Prop) (first S : Set α) : Prop where
  roots : first ⊆ S
  next : ∀ a ∈ S, ∀ b, r a b → b ∈ S

/-- What a loop has seen, and the frontier. -/
structure Frontier (r : α → α → Prop) (first seen new : Set α) : Prop where
  roots : first ⊆ seen
  /-- What is seen belongs to every closed set. -/
  needed : ∀ S, Frontier.Closed r first S → seen ⊆ S
  /-- The successors of what is not in the frontier are seen. -/
  done : ∀ a ∈ seen, a ∉ new → ∀ b, r a b → b ∈ seen
  frontier : new ⊆ seen

namespace Frontier

theorem start : Frontier r first first first where
  roots := fun _ ha => ha
  needed := fun _ hS => hS.roots
  done := fun _ ha hnot => absurd ha hnot
  frontier := fun _ ha => ha

/-- One round of the loop. -/
theorem round {seen' new' : Set α} (h : Frontier r first seen new)
    (hseen : ∀ b, b ∈ seen' ↔ b ∈ seen ∨ ∃ a ∈ new, r a b)
    (hnew : ∀ b, b ∈ new' ↔ b ∈ seen' ∧ b ∉ seen) : Frontier r first seen' new' where
  roots := fun a ha => (hseen a).mpr (.inl (h.roots ha))
  needed := by
    intro S hS b hb
    rcases (hseen b).mp hb with hb | ⟨a, ha, hab⟩
    · exact h.needed S hS hb
    · exact hS.next a (h.needed S hS (h.frontier ha)) b hab
  done := by
    intro a ha hnot b hab
    -- what is not in the new frontier was seen before: its successors were, or are seen now
    have hold : a ∈ seen := by
      by_contra hne
      exact hnot ((hnew a).mpr ⟨ha, hne⟩)
    by_cases hfront : a ∈ new
    · exact (hseen b).mpr (.inr ⟨a, hfront, hab⟩)
    · exact (hseen b).mpr (.inl (h.done a hold hfront b hab))
  frontier := fun a ha => ((hnew a).mp ha).1

/-- **The least closed set** is what is seen when the frontier is empty. -/
theorem isLeast (h : Frontier r first seen new) (hempty : ∀ a, a ∉ new) :
    IsLeast {S | Closed r first S} seen :=
  ⟨⟨h.roots, fun a ha b hab => h.done a ha (hempty a) b hab⟩, fun S hS => h.needed S hS⟩

/-- The least closed sets of two sets make the one of both. -/
theorem isLeast_union {first' S S' : Set α} (h : IsLeast {S | Closed r first S} S)
    (h' : IsLeast {S | Closed r first' S} S') :
    IsLeast {S | Closed r (first ∪ first') S} (S ∪ S') := by
  refine ⟨⟨Set.union_subset_union h.1.roots h'.1.roots, ?_⟩, fun T hT => ?_⟩
  · rintro a (ha | ha) b hab
    · exact .inl (h.1.next a ha b hab)
    · exact .inr (h'.1.next a ha b hab)
  · have hfirst : Closed r first T := ⟨fun a ha => hT.roots (.inl ha), hT.next⟩
    have hfirst' : Closed r first' T := ⟨fun a ha => hT.roots (.inr ha), hT.next⟩
    exact Set.union_subset (h.2 hfirst) (h'.2 hfirst')

end Frontier

end Anx.Lib
