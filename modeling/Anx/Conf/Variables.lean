import Anx.Conf.ParamsRead

/-!
# The variables that the command line assigns

Each assignment of `params_read` appends the name to the list of options `OPTLST`, so that
a file that assigns `OPTLST` itself gets another value than it says.

- `addOption`: one name, appended unless the list has it (or is empty);
- `foldl_addOption_eq_iff`: when appending names changes nothing;
- `Vars.assignAll_get`, `Vars.assignAll_optlst_assigned`: **what assigning the entries of
  a file leaves in the variables**, for the others and for `OPTLST`.
-/

namespace Anx.Conf

open Anx.Lib ParamUtils Anx.Conf.Cli

/-- What `OPTLST` becomes when `name` is added to it. -/
def addOption (optlst name : Text) : Text :=
  if optlst = [] ∨ (' ' :: (name ++ [' '])) <:+: optlst then optlst else optlst ++ name ++ [' ']

theorem prefix_addOption (optlst name : Text) : optlst <+: addOption optlst name := by
  rw [addOption]
  split
  · exact List.prefix_rfl
  · rw [List.append_assoc]
    exact List.prefix_append _ _

theorem prefix_foldl_addOption (names : List Text) (optlst : Text) :
    optlst <+: names.foldl addOption optlst := by
  induction names generalizing optlst with
  | nil => exact List.prefix_rfl
  | cons name names ih => exact (prefix_addOption optlst name).trans (ih _)

/-- Adding names changes nothing exactly when the list is empty or has them all. -/
theorem foldl_addOption_eq_iff (names : List Text) (optlst : Text) :
    names.foldl addOption optlst = optlst ↔
      optlst = [] ∨ ∀ name ∈ names, (' ' :: (name ++ [' '])) <:+: optlst := by
  induction names generalizing optlst with
  | nil => simp
  | cons name names ih =>
    rw [List.foldl_cons]
    by_cases hlisted : optlst = [] ∨ (' ' :: (name ++ [' '])) <:+: optlst
    · rw [addOption, if_pos hlisted, ih]
      rcases hlisted with rfl | hin
      · simp
      · simp [hin]
    · -- a name is appended, and nothing is taken away after that
      have hlonger : optlst.length < (names.foldl addOption (addOption optlst name)).length := by
        have hle := (prefix_foldl_addOption names (addOption optlst name)).length_le
        rw [addOption, if_neg hlisted] at hle ⊢
        simp only [List.length_append, List.length_singleton] at hle
        omega
      rw [not_or] at hlisted
      constructor
      · intro heq
        rw [heq] at hlonger
        exact absurd hlonger (Nat.lt_irrefl _)
      · rintro (hnil | hall)
        · exact absurd hnil hlisted.1
        · exact absurd (hall name List.mem_cons_self) hlisted.2

/-- Added names bring no character that the keys do not have. -/
theorem foldl_addOption_mem {names : List Text} (h : ∀ name ∈ names, IsKey name) {optlst : Text}
    {c : Char} (hc : c ∈ names.foldl addOption optlst) (hkey : isKeyChar c = false)
    (hblank : c ≠ ' ') : c ∈ optlst := by
  induction names generalizing optlst with
  | nil => exact hc
  | cons name names ih =>
    have hmem := ih (fun n hn => h n (List.mem_cons_of_mem _ hn)) hc
    rw [addOption] at hmem
    split at hmem
    · exact hmem
    · simp only [List.mem_append, List.mem_singleton] at hmem
      rcases hmem with (hmem | hmem) | hmem
      · exact hmem
      · exact absurd rfl ((h name List.mem_cons_self).ne hmem hkey)
      · exact absurd hmem hblank

namespace Cli.Vars

variable {vars : Vars}

/-- `OPTLST` always has a value. -/
def HasOptlst (vars : Vars) (optlst : Text) : Prop := vars.env[OPTLST]? = some optlst

theorem addOption_env (vars : Vars) (name : Text) {optlst : Text} (h : vars.HasOptlst optlst) :
    (vars.addOption name).HasOptlst (Conf.addOption optlst name) := by
  have hget : (vars.env[OPTLST]?).getD [] = optlst := by rw [h, Option.getD_some]
  rw [Vars.addOption, Conf.addOption, hget]
  split
  · exact h
  · rw [HasOptlst, Std.ExtTreeMap.getElem?_insert_self]

/-- Only `OPTLST` is changed. -/
theorem addOption_get (vars : Vars) (name : Text) {key : Text} (hopt : key ≠ OPTLST) :
    (vars.addOption name).env[key]? = vars.env[key]? := by
  rw [Vars.addOption]
  split
  · rfl
  · rw [Std.ExtTreeMap.getElem?_insert, if_neg]
    simpa using Ne.symm hopt

theorem addOption_assigned (vars : Vars) (name : Text) :
    (vars.addOption name).assigned = vars.assigned := by
  rw [Vars.addOption]
  split <;> rfl

/-- `OPTLST` after an assignment to `key`. -/
theorem assign_env {key val before : Text}
    (h : Vars.HasOptlst ⟨vars.env.insert key val, key :: vars.assigned⟩ before) :
    (vars.assign key val).HasOptlst (Conf.addOption before key) :=
  addOption_env _ key h

/-- The other variables after an assignment to `key'`. -/
theorem assign_get (vars : Vars) (key' val : Text) {key : Text} (hopt : key ≠ OPTLST) :
    (vars.assign key' val).env[key]? = if key = key' then some val else vars.env[key]? := by
  rw [assign, addOption_get _ _ hopt, Std.ExtTreeMap.getElem?_insert]
  by_cases hkey : key = key'
  · rw [if_pos hkey, if_pos (Std.compare_eq_iff_eq.mpr hkey.symm)]
  · rw [if_neg hkey, if_neg fun heq => hkey (Std.compare_eq_iff_eq.mp heq).symm]

theorem assign_hasOptlst {optlst : Text} (h : vars.HasOptlst optlst) {key : Text}
    (hkey : key ≠ OPTLST) (val : Text) :
    Vars.HasOptlst ⟨vars.env.insert key val, key :: vars.assigned⟩ optlst := by
  rw [HasOptlst, Std.ExtTreeMap.getElem?_insert, if_neg (by simpa using hkey)]
  exact h

theorem assign_hasOptlst_self (val : Text) :
    Vars.HasOptlst ⟨vars.env.insert OPTLST val, OPTLST :: vars.assigned⟩ val :=
  Std.ExtTreeMap.getElem?_insert_self

/-- The assignments of a file, none of which is cut. -/
def assignAll (vars : Vars) (entries : List (Text × Text)) : Vars :=
  entries.foldl (fun vars entry => vars.assign entry.1 entry.2) vars

theorem lookup_single (entry : Text × Text) (key : Text) :
    [entry].lookup key = if key = entry.1 then some entry.2 else none := by
  obtain ⟨k, value⟩ := entry
  simp [List.lookup_singleton]

/-- Of a key and later ones, the later ones count. -/
theorem lookup_reverse_cons (entry : Text × Text) (entries : List (Text × Text)) (key : Text) :
    (entry :: entries).reverse.lookup key =
      (entries.reverse.lookup key).or (if key = entry.1 then some entry.2 else none) := by
  rw [List.reverse_cons, List.lookup_append, lookup_single]

/-- **A variable other than `OPTLST`** after assignments: the last one counts. -/
theorem assignAll_get (vars : Vars) (entries : List (Text × Text)) {key : Text}
    (hopt : key ≠ OPTLST) :
    (vars.assignAll entries).env[key]? = (entries.reverse.lookup key).or vars.env[key]? := by
  induction entries generalizing vars with
  | nil => rfl
  | cons entry entries ih =>
    refine (ih (vars.assign entry.1 entry.2)).trans ?_
    rw [assign_get vars entry.1 entry.2 hopt, lookup_reverse_cons, Option.or_assoc]
    by_cases hkey : key = entry.1
    · rw [if_pos hkey, if_pos hkey, Option.some_or]
    · rw [if_neg hkey, if_neg hkey, Option.none_or]

/-- A key is looked up exactly if it is there. -/
theorem lookup_eq_none_iff_not_mem {values : List (Text × Text)} {key : Text} :
    values.lookup key = none ↔ key ∉ values.map Prod.fst := by
  rw [List.lookup_eq_none_iff, List.mem_map]
  constructor
  · rintro h ⟨value, hvalue, rfl⟩
    simpa using h value hvalue
  · intro h value hvalue
    rw [bne_iff_ne]
    rintro rfl
    exact h ⟨value, hvalue, rfl⟩

/-- The last assignment of a key, and those after it. -/
theorem exists_last {values : List (Text × Text)} {key value : Text}
    (h : values.reverse.lookup key = some value) :
    ∃ pre post, values = pre ++ (key, value) :: post ∧ key ∉ post.map Prod.fst := by
  obtain ⟨after, before, hsplit, hafter⟩ := List.lookup_eq_some_iff.mp h
  refine ⟨before.reverse, after.reverse, ?_, ?_⟩
  · rw [← List.reverse_reverse values, hsplit]
    simp
  · rw [List.map_reverse, List.mem_reverse, List.mem_map]
    rintro ⟨entry, hentry, heq⟩
    simpa [heq] using hafter entry hentry

/-- A variable that is assigned once has that value. -/
theorem assignAll_value {entries : List (Text × Text)} (hnodup : (entries.map Prod.fst).Nodup)
    {key val : Text} (hmem : (key, val) ∈ entries) (hopt : key ≠ OPTLST) :
    (vars.assignAll entries).env[key]? = some val := by
  obtain ⟨pre, post, rfl⟩ := List.append_of_mem hmem
  rw [List.map_append, List.map_cons, List.nodup_append, List.nodup_cons] at hnodup
  have hpost : post.reverse.lookup key = none := by
    rw [lookup_eq_none_iff_not_mem, List.map_reverse, List.mem_reverse]
    exact hnodup.2.1.1
  rw [assignAll_get _ _ hopt, List.reverse_append, List.lookup_append, lookup_reverse_cons, hpost,
    if_pos rfl]
  rfl

/-- `OPTLST` when it is not assigned. -/
theorem assignAll_optlst {optlst : Text} (h : vars.HasOptlst optlst)
    {entries : List (Text × Text)} (hopt : OPTLST ∉ entries.map Prod.fst) :
    (vars.assignAll entries).HasOptlst ((entries.map Prod.fst).foldl Conf.addOption optlst) := by
  induction entries generalizing vars optlst with
  | nil => exact h
  | cons entry entries ih =>
    simp only [List.map_cons, List.mem_cons, not_or] at hopt
    exact ih (assign_env (assign_hasOptlst h (Ne.symm hopt.1) entry.2)) hopt.2

/-- **What `OPTLST` becomes** when it is assigned: its last value with the names that it
does not list, from its own on. -/
theorem assignAll_optlst_assigned {entries pre post : List (Text × Text)} {val : Text}
    (hentries : entries = pre ++ (OPTLST, val) :: post) (hpost : OPTLST ∉ post.map Prod.fst) :
    (vars.assignAll entries).HasOptlst
      ((OPTLST :: post.map Prod.fst).foldl Conf.addOption val) := by
  rw [hentries, assignAll, List.foldl_append, List.foldl_cons]
  exact assignAll_optlst (assign_env (assign_hasOptlst_self val)) hpost

/-- The assigned variables. -/
theorem assignAll_assigned (vars : Vars) (entries : List (Text × Text)) {key : Text} :
    key ∈ (vars.assignAll entries).assigned ↔ key ∈ entries.map Prod.fst ∨ key ∈ vars.assigned := by
  induction entries generalizing vars with
  | nil => simp [assignAll]
  | cons entry entries ih =>
    have hstep : (vars.assign entry.1 entry.2).assigned = entry.1 :: vars.assigned :=
      addOption_assigned _ _
    refine (ih _).trans ?_
    rw [hstep]
    simp only [List.map_cons, List.mem_cons]
    tauto

end Cli.Vars

end Anx.Conf
