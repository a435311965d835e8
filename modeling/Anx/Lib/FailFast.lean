import Mathlib.Data.List.Chain

/-!
# Loops that end at the first failure

A loop goes through items and changes a state; it ends at the first pass that fails.

- `Pass`: an item, the state before it and what came of it;
- `failFast`: the loop: its passes, the state at its end, and whether it went through;
- `Passes`: the passes are for items from the first on, each starts where the one before it
  ended, and only the last one may have failed;
- `failFast_passes`: **the passes of the loop** are like this, and
  `failFast_completed_iff`, `failFast_items`: it goes through exactly if no pass fails.
-/

namespace Anx.Lib

universe u v w

variable {σ : Type u} {α : Type v} {β : Type w}

/-- A pass of a loop. -/
structure Pass (σ : Type u) (α : Type v) (β : Type w) where
  item : α
  start : σ
  result : β

/-- The loop over `items`. -/
def failFast (step : σ → α → β × σ) (ok : β → Bool) :
    σ → List α → List (Pass σ α β) × σ × Bool
  | s, [] => ([], s, true)
  | s, item :: items =>
    let r := step s item
    if ok r.1 then
      let rest := failFast step ok r.2 items
      (⟨item, s, r.1⟩ :: rest.1, rest.2)
    else ([⟨item, s, r.1⟩], r.2, false)

/-- What the passes of such a loop are. -/
structure Passes (step : σ → α → β × σ) (ok : β → Bool) (s : σ) (items : List α)
    (passes : List (Pass σ α β)) : Prop where
  order : passes.map Pass.item <+: items
  first : ∀ r ∈ passes.head?, r.start = s
  linked : passes.IsChain fun r r' => r'.start = (step r.start r.item).2
  result : ∀ r ∈ passes, r.result = (step r.start r.item).1
  succeeded : ∀ r ∈ passes.dropLast, ok r.result = true

variable {step : σ → α → β × σ} {ok : β → Bool} {s : σ} {item : α} {items : List α}

theorem failFast_cons_of_ok (h : ok (step s item).1 = true) :
    failFast step ok s (item :: items) =
      (⟨item, s, (step s item).1⟩ :: (failFast step ok (step s item).2 items).1,
        (failFast step ok (step s item).2 items).2) := by
  rw [failFast, if_pos h]

theorem failFast_cons_of_fails (h : ok (step s item).1 = false) :
    failFast step ok s (item :: items) =
      ([⟨item, s, (step s item).1⟩], (step s item).2, false) := by
  rw [failFast, if_neg (by simp [h])]

variable (step ok)

/-- **The passes of the loop**. -/
theorem failFast_passes (s : σ) (items : List α) :
    Passes step ok s items (failFast step ok s items).1 := by
  induction items generalizing s with
  | nil => exact ⟨List.nil_prefix, by simp [failFast], .nil, by simp [failFast], by simp [failFast]⟩
  | cons item items ih =>
    cases hok : ok (step s item).1 with
    | false =>
      rw [failFast_cons_of_fails hok]
      refine ⟨List.prefix_append [item] items, fun r hr => ?_, .singleton _, fun r hr => ?_,
        by simp⟩
      · cases hr
        rfl
      · cases List.mem_singleton.mp hr
        rfl
    | true =>
      obtain ⟨horder, hfirst, hlinked, hresult, hsucceeded⟩ := ih (step s item).2
      rw [failFast_cons_of_ok hok]
      refine ⟨?_, fun r hr => ?_, ?_, ?_, fun r hr => ?_⟩
      · rw [List.map_cons]
        exact List.cons_prefix_cons.mpr ⟨rfl, horder⟩
      · cases hr
        rfl
      · exact List.isChain_cons.mpr ⟨hfirst, hlinked⟩
      · exact List.forall_mem_cons.mpr ⟨rfl, hresult⟩
      · cases hrest : (failFast step ok (step s item).2 items).1 with
        | nil =>
          rw [hrest] at hr
          cases hr
        | cons r' rest =>
          rw [hrest, List.dropLast_cons_cons] at hr
          rcases List.mem_cons.mp hr with rfl | hr
          · exact hok
          · rw [hrest] at hsucceeded
            exact hsucceeded r hr

/-- **It goes through** exactly if no pass fails. -/
theorem failFast_completed_iff (s : σ) (items : List α) :
    (failFast step ok s items).2.2 = true ↔
      ∀ r ∈ (failFast step ok s items).1, ok r.result = true := by
  induction items generalizing s with
  | nil => simp [failFast]
  | cons item items ih =>
    cases hok : ok (step s item).1 with
    | false =>
      rw [failFast_cons_of_fails hok]
      simp [hok]
    | true =>
      rw [failFast_cons_of_ok hok, List.forall_mem_cons]
      exact (ih (step s item).2).trans (and_iff_right hok).symm

/-- Then there is a pass for every item. -/
theorem failFast_items (s : σ) (items : List α) (h : (failFast step ok s items).2.2 = true) :
    (failFast step ok s items).1.map Pass.item = items := by
  induction items generalizing s with
  | nil => rfl
  | cons item items ih =>
    cases hok : ok (step s item).1 with
    | false =>
      rw [failFast_cons_of_fails hok] at h
      cases h
    | true =>
      rw [failFast_cons_of_ok hok] at h ⊢
      rw [List.map_cons, ih _ h]

end Anx.Lib
