import Mathlib.Data.List.Infix

/-!
# Adding what is not found

A program goes through items and adds an entry for each one that a test does not find among
the entries. The test need not find the entry that has been added for the item.

- `ensure`: the entries after it;
- `Shown`: an item is found among the entries, or in the entry that is added for it;
- `ensure_eq_self_iff`: **nothing is added** exactly if all items are found;
- `ensure_ensure_of_shown`, `shown_of_ensure_ensure`: doing it twice is doing it once if all
  items are shown, and only then unless an item is found in the entry for another one.
-/

namespace Anx.Lib

universe u v

variable {α : Type u} {β : Type v} (found : α → β → Bool) (make : α → β)

/-- The entries after one item. -/
def ensureOne (entries : List β) (item : α) : List β :=
  if entries.any (found item) then entries else entries ++ [make item]

/-- The entries after all items. -/
def ensure (entries : List β) (items : List α) : List β :=
  items.foldl (ensureOne found make) entries

/-- The item is found, or will be. -/
def Shown (entries : List β) (item : α) : Prop :=
  entries.any (found item) = true ∨ found item (make item) = true

instance (entries : List β) (item : α) : Decidable (Shown found make entries item) :=
  inferInstanceAs (Decidable (_ ∨ _))

variable {found make} {entries : List β} {items : List α} {item : α}

@[simp] theorem ensure_nil : ensure found make entries [] = entries := rfl

@[simp] theorem ensure_cons : ensure found make entries (item :: items) =
    ensure found make (ensureOne found make entries item) items := rfl

@[simp] theorem ensure_append (items' : List α) : ensure found make entries (items ++ items') =
    ensure found make (ensure found make entries items) items' := List.foldl_append

theorem any_mono {entries' : List β} {p : β → Bool} (h : entries <+: entries')
    (hany : entries.any p = true) : entries'.any p = true := by
  obtain ⟨e, he, hp⟩ := List.any_eq_true.mp hany
  exact List.any_eq_true.mpr ⟨e, h.subset he, hp⟩

theorem prefix_ensureOne : entries <+: ensureOne found make entries item := by
  unfold ensureOne
  split
  · exact List.prefix_rfl
  · exact List.prefix_append _ _

/-- Entries stay where they are. -/
theorem prefix_ensure : entries <+: ensure found make entries items := by
  induction items generalizing entries with
  | nil => exact List.prefix_rfl
  | cons item items ih => exact prefix_ensureOne.trans ih

/-- An entry was there before, or has been added for an item. -/
theorem mem_ensure {e : β} (h : e ∈ ensure found make entries items) :
    e ∈ entries ∨ ∃ item ∈ items, e = make item := by
  induction items generalizing entries with
  | nil => exact .inl h
  | cons item items ih =>
    rcases ih h with h | ⟨item', hitem', rfl⟩
    · rw [ensureOne] at h
      split at h
      · exact .inl h
      · rcases List.mem_append.mp h with h | h
        · exact .inl h
        · exact .inr ⟨item, List.mem_cons_self, List.mem_singleton.mp h⟩
    · exact .inr ⟨item', List.mem_cons_of_mem _ hitem', rfl⟩

/-- Every item is found, or its entry is there. -/
theorem found_or_mem_ensure (h : item ∈ items) :
    (ensure found make entries items).any (found item) = true ∨
      make item ∈ ensure found make entries items := by
  induction items generalizing entries with
  | nil => cases h
  | cons item' items ih =>
    rcases List.mem_cons.mp h with rfl | h
    · have hlater : ensureOne found make entries item <+:
          ensure found make entries (item :: items) := prefix_ensure
      by_cases hany : entries.any (found item) = true
      · exact .inl (any_mono (prefix_ensureOne.trans hlater) hany)
      · refine .inr (hlater.subset ?_)
        rw [ensureOne, if_neg hany]
        exact List.mem_append_right _ (List.mem_singleton_self _)
    · exact ih h

theorem ensureOne_eq_self_iff :
    ensureOne found make entries item = entries ↔ entries.any (found item) = true := by
  unfold ensureOne
  split
  · next h => exact iff_of_true rfl h
  · next h => exact iff_of_false (by simp) h

/-- **Nothing is added** exactly if all items are found. -/
theorem ensure_eq_self_iff :
    ensure found make entries items = entries ↔
      ∀ item ∈ items, entries.any (found item) = true := by
  induction items generalizing entries with
  | nil => simp
  | cons item items ih =>
    rw [ensure_cons, List.forall_mem_cons]
    constructor
    · intro h
      -- what is there at the end was there from the start
      have hone : ensureOne found make entries item = entries := by
        have hlater : ensureOne found make entries item <+: entries := by
          have hprefix : ensureOne found make entries item <+:
              ensure found make (ensureOne found make entries item) items := prefix_ensure
          rwa [h] at hprefix
        exact hlater.eq_of_length_le prefix_ensureOne.length_le
      rw [hone] at h
      exact ⟨ensureOne_eq_self_iff.mp hone, ih.mp h⟩
    · rintro ⟨hone, hitems⟩
      rw [ensureOne_eq_self_iff.mpr hone]
      exact ih.mpr hitems

/-- Twice is once, if all items are shown. -/
theorem ensure_ensure_of_shown (h : ∀ item ∈ items, Shown found make entries item) :
    ensure found make (ensure found make entries items) items =
      ensure found make entries items := by
  refine ensure_eq_self_iff.mpr fun item hitem => ?_
  rcases h item hitem with hany | hown
  · exact any_mono prefix_ensure hany
  · rcases found_or_mem_ensure hitem with hany | hmem
    · exact hany
    · exact List.any_eq_true.mpr ⟨_, hmem, hown⟩

/-- And only then, if no entry stands in for another one. -/
theorem shown_of_ensure_ensure
    (hstand : ∀ item ∈ items, ∀ item' ∈ items, found item (make item') = true →
      found item (make item) = true)
    (h : ensure found make (ensure found make entries items) items =
      ensure found make entries items) :
    ∀ item ∈ items, Shown found make entries item := by
  intro item hitem
  obtain ⟨e, he, hfound⟩ := List.any_eq_true.mp (ensure_eq_self_iff.mp h item hitem)
  rcases mem_ensure he with he | ⟨item', hitem', rfl⟩
  · exact .inl (List.any_eq_true.mpr ⟨e, he, hfound⟩)
  · exact .inr (hstand item hitem item' hitem' hfound)

end Anx.Lib
