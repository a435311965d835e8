import Mathlib.Data.List.Nodup

/-!
# Entries with keys

A table has one entry for a key. Entries are put into it, each in the place of the one that
has its key, or at the end.

- `upsert`, `upsertAll`: one entry, and several;
- `current`: the entry that stands where one stood;
- `upsertAll_eq`: **the table afterwards**: the entries before, replaced, and the new ones;
- `mem_upsertAll_iff`, `nodup_upsertAll`, `filter_upsertAll`: its entries and keys, and what
  stays.
-/

namespace Anx.Lib

universe u v

variable {α : Type u} {κ : Type v} [DecidableEq κ] (key : α → κ)

/-- The table with an entry. -/
def upsert (table : List α) (a : α) : List α :=
  if table.any (fun e => key e = key a) then table.map fun e => if key e = key a then a else e
  else table ++ [a]

/-- The table with several entries. -/
def upsertAll (table : List α) (as : List α) : List α := as.foldl (upsert key) table

/-- What is in the place of an entry. -/
def current (as : List α) (e : α) : α := (as.find? fun a => key a = key e).getD e

/-- The entries that are new. -/
def fresh (table : List α) (as : List α) : List α := as.filter fun a => key a ∉ table.map key

variable {key} {table as : List α} {a e : α}

theorem any_key_iff : (table.any fun e => key e = key a) = true ↔ key a ∈ table.map key := by
  simp [List.any_eq_true, List.mem_map]

theorem key_current (as : List α) (e : α) : key (current key as e) = key e := by
  rw [current]
  cases h : as.find? fun a => key a = key e with
  | none => rfl
  | some a =>
    have hkey := List.find?_some h
    exact of_decide_eq_true hkey

theorem current_of_not_mem (h : key e ∉ as.map key) : current key as e = e := by
  rw [current, List.find?_eq_none.mpr]
  · rfl
  · intro a ha heq
    exact h (of_decide_eq_true heq ▸ List.mem_map_of_mem ha)

theorem current_cons_of_eq (h : key e = key a) : current key (a :: as) e = a := by
  rw [current, List.find?_cons_of_pos (by simpa using h.symm)]
  rfl

theorem current_cons_of_ne (h : key e ≠ key a) : current key (a :: as) e = current key as e := by
  rw [current, List.find?_cons_of_neg (by simpa using Ne.symm h), current]

/-- The entry for a key, when there is one for each. -/
theorem current_of_mem (hnodup : (as.map key).Nodup) (ha : a ∈ as) (h : key e = key a) :
    current key as e = a := by
  induction as with
  | nil => cases ha
  | cons a' as ih =>
    obtain ⟨hnew, hnodup⟩ := List.nodup_cons.mp hnodup
    rcases List.mem_cons.mp ha with rfl | ha
    · exact current_cons_of_eq h
    · rw [current_cons_of_ne]
      · exact ih hnodup ha
      · intro heq
        exact hnew ((heq.symm.trans h) ▸ List.mem_map_of_mem ha)

theorem map_key_upsert (table : List α) (a : α) :
    (upsert key table a).map key =
      if key a ∈ table.map key then table.map key else table.map key ++ [key a] := by
  rw [upsert]
  by_cases h : key a ∈ table.map key
  · rw [if_pos (any_key_iff.mpr h), if_pos h, List.map_map]
    refine List.map_congr_left fun e _ => ?_
    rw [Function.comp_apply]
    split
    · next heq => exact heq.symm
    · rfl
  · rw [if_neg (fun hany => h (any_key_iff.mp hany)), if_neg h, List.map_append, List.map_singleton]

/-- **The table afterwards**. -/
theorem upsertAll_eq (hnodup : (as.map key).Nodup) (table : List α) :
    upsertAll key table as = table.map (current key as) ++ fresh key table as := by
  induction as generalizing table with
  | nil =>
    have hself : current key ([] : List α) = id := rfl
    rw [hself, List.map_id]
    exact (List.append_nil table).symm
  | cons a as ih =>
    obtain ⟨hnew, hnodup⟩ := List.nodup_cons.mp hnodup
    have hother : ∀ a' ∈ as, key a' ≠ key a := fun a' ha' heq =>
      hnew (heq ▸ List.mem_map_of_mem ha')
    have hself : current key as a = a := current_of_not_mem hnew
    have hnext : upsertAll key table (a :: as) = upsertAll key (upsert key table a) as := rfl
    have hkeys : (upsert key table a).map key = _ := map_key_upsert table a
    rw [hnext, ih hnodup]
    by_cases h : key a ∈ table.map key
    · -- it is put in the place of another
      rw [if_pos h] at hkeys
      rw [fresh, fresh, hkeys, List.filter_cons_of_neg (by simpa using h), upsert,
        if_pos (any_key_iff.mpr h), List.map_map]
      congr 1
      refine List.map_congr_left fun e _ => ?_
      rw [Function.comp_apply]
      split
      · next heq => rw [hself, current_cons_of_eq heq]
      · next hne => rw [current_cons_of_ne hne]
    · -- or at the end
      rw [if_neg h] at hkeys
      have htable : ∀ e ∈ table, current key as e = current key (a :: as) e := by
        intro e he
        have hne : key e ≠ key a := fun heq => h (heq ▸ List.mem_map_of_mem he)
        exact (current_cons_of_ne hne).symm
      have hfresh : as.filter (fun a' => key a' ∉ table.map key ++ [key a]) =
          as.filter fun a' => key a' ∉ table.map key := by
        refine List.filter_congr fun a' ha' => ?_
        simp [hother a' ha']
      rw [fresh, fresh, hkeys, hfresh, List.filter_cons_of_pos (by simpa using h), upsert,
        if_neg fun hany => h (any_key_iff.mp hany), List.map_append, List.map_singleton, hself,
        List.map_congr_left htable, List.append_assoc]
      rfl

/-- **The entries afterwards**: the ones put in, and those with other keys. -/
theorem mem_upsertAll_iff (hnodup : (as.map key).Nodup) :
    e ∈ upsertAll key table as ↔ e ∈ as ∨ e ∈ table ∧ key e ∉ as.map key := by
  rw [upsertAll_eq hnodup, List.mem_append, fresh, List.mem_filter, decide_eq_true_eq]
  constructor
  · rintro (he | ⟨he, -⟩)
    · obtain ⟨e', he', rfl⟩ := List.mem_map.mp he
      by_cases hmem : key e' ∈ as.map key
      · obtain ⟨a, ha, hkey⟩ := List.mem_map.mp hmem
        exact .inl (current_of_mem hnodup ha hkey.symm ▸ ha)
      · rw [current_of_not_mem hmem]
        exact .inr ⟨he', hmem⟩
    · exact .inl he
  · rintro (he | ⟨he, hkey⟩)
    · by_cases hmem : key e ∈ table.map key
      · obtain ⟨e', he', hkey⟩ := List.mem_map.mp hmem
        exact .inl (List.mem_map.mpr ⟨e', he', current_of_mem hnodup he hkey⟩)
      · exact .inr ⟨he, hmem⟩
    · exact .inl (List.mem_map.mpr ⟨e, he, current_of_not_mem hkey⟩)

theorem nodup_upsertAll (hnodup : (as.map key).Nodup) (h : (table.map key).Nodup) :
    ((upsertAll key table as).map key).Nodup := by
  have hkeys : (table.map (current key as)).map key = table.map key := by
    rw [List.map_map]
    exact List.map_congr_left fun e _ => key_current as e
  rw [upsertAll_eq hnodup, List.map_append, hkeys, List.nodup_append]
  refine ⟨h, hnodup.sublist (List.filter_sublist.map key), fun k hk k' hk' heq => ?_⟩
  obtain ⟨a, ha, rfl⟩ := List.mem_map.mp hk'
  obtain ⟨-, hnew⟩ := List.mem_filter.mp ha
  exact of_decide_eq_true hnew (heq ▸ hk)

/-- What has other keys stays as it is. -/
theorem filter_upsertAll (hnodup : (as.map key).Nodup) (p : κ → Bool)
    (hp : ∀ a ∈ as, p (key a) = false) :
    (upsertAll key table as).filter (fun e => p (key e)) = table.filter fun e => p (key e) := by
  have hfresh : (fresh key table as).filter (fun e => p (key e)) = [] := by
    refine List.filter_eq_nil_iff.mpr fun a ha => ?_
    rw [hp a (List.mem_of_mem_filter ha)]
    exact Bool.false_ne_true
  rw [upsertAll_eq hnodup, List.filter_append, hfresh, List.append_nil, List.filter_map]
  have hsame : table.filter ((fun e => p (key e)) ∘ current key as) =
      table.filter fun e => p (key e) :=
    List.filter_congr fun e _ => congrArg p (key_current as e)
  rw [hsame]
  refine (List.map_congr_left fun e he => ?_).trans (List.map_id _)
  refine current_of_not_mem fun hmem => ?_
  obtain ⟨a, ha, hkey⟩ := List.mem_map.mp hmem
  have hfalse := hp a ha
  rw [hkey, (List.mem_filter.mp he).2] at hfalse
  cases hfalse

/-- Nothing is new when all keys are known. -/
theorem upsertAll_of_subset (hnodup : (as.map key).Nodup)
    (h : ∀ a ∈ as, key a ∈ table.map key) :
    upsertAll key table as = table.map (current key as) := by
  have hfresh : fresh key table as = [] :=
    List.filter_eq_nil_iff.mpr fun a ha => by simpa using h a ha
  rw [upsertAll_eq hnodup, hfresh, List.append_nil]

end Anx.Lib
