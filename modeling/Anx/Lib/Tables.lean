import Mathlib.Data.List.Count
import Mathlib.Data.List.Nodup
import Mathlib.Logic.Relation

/-!
# Tables that several owners share

A table has entries at places. An owner has a root and what stands on it, inside; some places
are shared with other owners, and at some it does as it likes.

- `Area`: the places of an owner;
- `Change`: what an owner does to a table: it adds an entry where there is none; a strict one
  adds entries inside only on its root, and takes its root away only when nothing stands on it;
- `Grows`: the entries that a test shows stay in their order, and shared ones are added to them,
  each place once;
- `Change.grows`, `Change.count_le`, `Change.based`: **what changes keep**: entries elsewhere,
  that no place gets a second entry, and that nothing stands inside without a root.
-/

namespace Anx.Lib

universe u v

/-- The places of an owner, who may be one to keep what is inside on the root. -/
structure Area (κ : Type v) where
  strict : Prop
  root : κ
  inside : κ → Prop
  shared : κ → Prop
  free : κ → Prop

namespace Area

variable {κ : Type v}

/-- The owner may do something at the place that is not shared. -/
def Owns (area : Area κ) (k : κ) : Prop := k = area.root ∨ area.inside k ∨ area.free k

/-- The root stands alone, and nothing else stands inside. -/
structure Sound (area : Area κ) : Prop where
  root : ¬ area.inside area.root ∧ ¬ area.shared area.root ∧ ¬ area.free area.root
  inside : ∀ k, area.inside k → ¬ area.shared k ∧ ¬ area.free k

end Area

variable {β : Type u} {κ : Type v} (key : β → κ)

/-- What the owner of an area does to a table. -/
inductive Change (area : Area κ) : List β → List β → Prop
  | root {t : List β} (e : β) (hkey : key e = area.root) (hnew : key e ∉ t.map key) :
    Change area t (t ++ [e])
  | inside {t : List β} (e : β) (hkey : area.inside (key e))
    (hroot : area.strict → area.root ∈ t.map key) (hnew : key e ∉ t.map key) :
    Change area t (t ++ [e])
  | shared {t : List β} (e : β) (hkey : area.shared (key e)) (hnew : key e ∉ t.map key) :
    Change area t (t ++ [e])
  | free {t : List β} (e : β) (hkey : area.free (key e)) : Change area t (t ++ [e])
  | gone {l r : List β} (e : β) (hkey : area.inside (key e) ∨ area.free (key e)) :
    Change area (l ++ e :: r) (l ++ r)
  | rootGone {l r : List β} (e : β) (hkey : key e = area.root)
    (hlast : area.strict → ∀ e' ∈ l ++ r, ¬ area.inside (key e')) :
    Change area (l ++ e :: r) (l ++ r)

/-- One after the other. -/
def Changes (area : Area κ) : List β → List β → Prop := Relation.ReflTransGen (Change key area)

/-- The entries that a test shows stay, and shared ones come after them. -/
def Grows (shared : κ → Prop) (q : κ → Bool) (t t' : List β) : Prop :=
  ∃ added, t'.filter (q ∘ key) = t.filter (q ∘ key) ++ added ∧ (added.map key).Nodup ∧
    ∀ e ∈ added, shared (key e) ∧ key e ∉ t.map key

/-- What stands inside has a root. -/
def Based (area : Area κ) (t : List β) : Prop :=
  (∃ e ∈ t, area.inside (key e)) → area.root ∈ t.map key

variable {key} {area : Area κ} {shared : κ → Prop} {q : κ → Bool} {t t' t'' : List β}

/-! ## Entries elsewhere -/

theorem Grows.refl (shared : κ → Prop) (q : κ → Bool) (t : List β) : Grows key shared q t t :=
  ⟨[], by simp, by simp, by simp⟩

theorem Grows.trans (h : Grows key shared q t t') (h' : Grows key shared q t' t'') :
    Grows key shared q t t'' := by
  obtain ⟨added, hfilter, hnodup, hadded⟩ := h
  obtain ⟨added', hfilter', hnodup', hadded'⟩ := h'
  -- what is shown stays in the table
  have hstays : ∀ e ∈ t.filter (q ∘ key) ++ added, e ∈ t' := fun e he =>
    List.mem_of_mem_filter (hfilter ▸ he : e ∈ t'.filter (q ∘ key))
  refine ⟨added ++ added', by rw [hfilter', hfilter, List.append_assoc], ?_, ?_⟩
  · rw [List.map_append, List.nodup_append]
    refine ⟨hnodup, hnodup', fun k hk k' hk' heq => ?_⟩
    obtain ⟨e, he, rfl⟩ := List.mem_map.mp hk
    obtain ⟨e', he', rfl⟩ := List.mem_map.mp hk'
    exact (hadded' e' he').2
      (heq ▸ List.mem_map_of_mem (hstays e (List.mem_append_right _ he)))
  · intro e he
    rcases List.mem_append.mp he with he | he
    · exact hadded e he
    · refine ⟨(hadded' e he).1, fun hmem => (hadded' e he).2 ?_⟩
      obtain ⟨e', he', heq⟩ := List.mem_map.mp hmem
      -- the test shows the place, and so the entry that was there
      have hshown : e ∈ t''.filter (q ∘ key) := by
        rw [hfilter']
        exact List.mem_append_right _ he
      have hq : q (key e') := by
        rw [heq]
        exact (List.mem_filter.mp hshown).2
      rw [← heq]
      exact List.mem_map_of_mem
        (hstays e' (List.mem_append_left _ (List.mem_filter.mpr ⟨he', hq⟩)))

/-- An entry where there is none. -/
theorem grows_add {e : β} (hkey : q (key e) = true → shared (key e)) (hnew : key e ∉ t.map key) :
    Grows key shared q t (t ++ [e]) := by
  cases hq : q (key e) with
  | false => exact ⟨[], by simp [hq], by simp, by simp⟩
  | true =>
    refine ⟨[e], by simp [hq], by simp, fun e' he' => ?_⟩
    obtain rfl := List.mem_singleton.mp he'
    exact ⟨hkey hq, hnew⟩

theorem grows_remove {l r : List β} {e : β} (hq : q (key e) = false) :
    Grows key shared q (l ++ e :: r) (l ++ r) :=
  ⟨[], by simp [hq], by simp, by simp⟩

/-- **Entries elsewhere stay**, and only shared ones are added to them. -/
theorem Change.grows (hq : ∀ k, area.Owns k → q k = false) (h : Change key area t t') :
    Grows key area.shared q t t' := by
  have hown : ∀ e, area.Owns (key e) → q (key e) = true → area.shared (key e) := fun e he hshown =>
    absurd hshown (by rw [hq _ he]; exact Bool.false_ne_true)
  cases h with
  | root e hkey hnew => exact grows_add (hown e (.inl hkey)) hnew
  | inside e hkey _ hnew => exact grows_add (hown e (.inr (.inl hkey))) hnew
  | shared e hkey hnew => exact grows_add (fun _ => hkey) hnew
  | free e hkey => exact ⟨[], by simp [hq _ (.inr (.inr hkey))], by simp, by simp⟩
  | gone e hkey => exact grows_remove (hq _ (.inr hkey))
  | rootGone e hkey => exact grows_remove (hq _ (.inl hkey))

theorem Changes.grows (hq : ∀ k, area.Owns k → q k = false) (h : Changes key area t t') :
    Grows key area.shared q t t' := by
  induction h with
  | refl => exact .refl _ _ _
  | tail _ hstep ih => exact ih.trans (hstep.grows hq)

/-! ## One entry at a place -/

section

variable [BEq κ] [LawfulBEq κ] {k : κ}

/-- **No place gets a second entry**, but those at which the owner does as it likes. -/
theorem Change.count_le (hk : ¬ area.free k) (h : Change key area t t') :
    (t'.map key).count k ≤ max 1 ((t.map key).count k) := by
  have hadd : ∀ {t : List β} (e : β), key e ∉ t.map key →
      ((t ++ [e]).map key).count k ≤ max 1 ((t.map key).count k) := by
    intro t e hnew
    rw [List.map_append, List.count_append, List.map_singleton, List.count_singleton]
    split
    · next heq =>
      rw [beq_iff_eq] at heq
      rw [← heq, List.count_eq_zero.mpr hnew]
      exact Nat.le_max_left _ _
    · exact Nat.le_max_right _ _
  have hremove : ∀ {l r : List β} (e : β),
      ((l ++ r).map key).count k ≤ max 1 (((l ++ e :: r).map key).count k) := by
    intro l r e
    refine Nat.le_trans ?_ (Nat.le_max_right _ _)
    exact ((List.Sublist.refl l).append (List.sublist_cons_self e r)).map key |>.count_le k
  cases h with
  | root e _ hnew => exact hadd e hnew
  | inside e _ _ hnew => exact hadd e hnew
  | shared e _ hnew => exact hadd e hnew
  | free e hkey =>
    have hne : key e ≠ k := fun heq => hk (heq ▸ hkey)
    rw [List.map_append, List.count_append, List.map_singleton, List.count_singleton,
      if_neg (by simpa using hne)]
    exact Nat.le_max_right _ _
  | gone e _ => exact hremove e
  | rootGone e _ _ => exact hremove e

theorem Changes.count_le (hk : ¬ area.free k) (h : Changes key area t t') :
    (t'.map key).count k ≤ max 1 ((t.map key).count k) := by
  induction h with
  | refl => exact Nat.le_max_right _ _
  | tail _ hstep ih =>
    have hle := hstep.count_le hk
    omega

end

/-! ## The root -/

/-- **Nothing stands inside without a root.** -/
theorem Change.based (hstrict : area.strict) (hsound : area.Sound) (hbased : Based key area t)
    (h : Change key area t t') : Based key area t' := by
  -- an entry that does not stand inside
  have hadd : ∀ {t : List β} (e : β), ¬ area.inside (key e) → Based key area t →
      Based key area (t ++ [e]) := by
    rintro t e hkey hbased ⟨e', he', hinside⟩
    rcases List.mem_append.mp he' with he' | he'
    · rw [List.map_append]
      exact List.mem_append_left _ (hbased ⟨e', he', hinside⟩)
    · obtain rfl := List.mem_singleton.mp he'
      exact absurd hinside hkey
  cases h with
  | root e hkey _ =>
    intro _
    rw [← hkey]
    exact List.mem_map_of_mem (List.mem_append_right _ (List.mem_singleton_self e))
  | inside e _ hroot _ =>
    intro _
    rw [List.map_append]
    exact List.mem_append_left _ (hroot hstrict)
  | shared e hkey _ => exact hadd e (fun hinside => (hsound.inside _ hinside).1 hkey) hbased
  | free e hkey => exact hadd e (fun hinside => (hsound.inside _ hinside).2 hkey) hbased
  | @gone l r e hkey =>
    rintro ⟨e', he', hinside⟩
    have hsub : l ++ r ⊆ l ++ e :: r :=
      ((List.Sublist.refl l).append (List.sublist_cons_self e r)).subset
    obtain ⟨e'', he'', hroot⟩ := List.mem_map.mp (hbased ⟨e', hsub he', hinside⟩)
    -- the root is not the entry that goes
    rcases List.mem_append.mp he'' with hl | hr
    · exact List.mem_map.mpr ⟨e'', List.mem_append_left _ hl, hroot⟩
    · rcases List.mem_cons.mp hr with rfl | hr
      · rw [hroot] at hkey
        exact absurd hkey (not_or.mpr ⟨hsound.root.1, hsound.root.2.2⟩)
      · exact List.mem_map.mpr ⟨e'', List.mem_append_right _ hr, hroot⟩
  | rootGone e _ hlast =>
    rintro ⟨e', he', hinside⟩
    exact absurd hinside (hlast hstrict e' he')

theorem Changes.based (hstrict : area.strict) (hsound : area.Sound) (hbased : Based key area t)
    (h : Changes key area t t') : Based key area t' := by
  induction h with
  | refl => exact hbased
  | tail _ hstep ih => exact hstep.based hstrict hsound ih

/-- Tables with the same entries there. -/
theorem Based.congr (hq : ∀ k, q k = true ↔ k = area.root ∨ area.inside k)
    (h : t'.filter (q ∘ key) = t.filter (q ∘ key)) (hbased : Based key area t) :
    Based key area t' := by
  have hmem : ∀ e, q (key e) = true → (e ∈ t' ↔ e ∈ t) := by
    intro e he
    have hiff : e ∈ t'.filter (q ∘ key) ↔ e ∈ t.filter (q ∘ key) := by rw [h]
    rw [List.mem_filter, List.mem_filter] at hiff
    exact ⟨fun h => (hiff.mp ⟨h, he⟩).1, fun h => (hiff.mpr ⟨h, he⟩).1⟩
  rintro ⟨e, he, hinside⟩
  obtain ⟨e', he', hroot⟩ := List.mem_map.mp
    (hbased ⟨e, (hmem e ((hq _).mpr (.inr hinside))).mp he, hinside⟩)
  exact List.mem_map.mpr ⟨e', (hmem e' ((hq _).mpr (.inl hroot))).mpr he', hroot⟩

end Anx.Lib
