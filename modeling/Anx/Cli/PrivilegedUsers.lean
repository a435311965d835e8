import Anx.Cli.Aid

/-!
# Privileged users and their groups

A user is only ever put into a group without members: the command for the other groups looks
for a plus sign. So a group has the first user that is meant for it, or the members that it
had before.

- `HaveGroups`: what the function is for: all pairs are in the file, the Android groups too, and
  the other groups are left alone;
- `foldl_fill`, `configure_configure`: the first pair counts, and further runs change nothing;
- `Fits`: the pairs and the groups with which all goes well;
- `haveGroups_iff`: **after any number of runs the users have their groups exactly if these
  fit**.
-/

namespace Anx.Cli.Aid

open Anx.Lib

/-! ## What the function is for -/

/-- The Android groups, by name. -/
def aidNames : List Text := android_groups.map (column 1)

/-- The line is for a group that is neither an Android group nor named in a pair. -/
def IsOther (pairs : List Pair) (line : Text) : Bool :=
  column 1 line ∉ aidNames && column 1 line ∉ pairs.map Pair.group

/-- The lines of `/etc/group` after the function. -/
structure HaveGroups (pairs : List Pair) (before after : List Text) : Prop where
  members : ∀ p ∈ pairs, ∀ line ∈ after, column 1 line = p.group →
    ((column 4 line).splitOn ',').count p.user = 1
  aids : ∀ aid ∈ android_groups, ∃ members,
    after.filter (fun line => column 1 line = column 1 aid) =
      [column 1 aid ++ ":x:".toList ++ column 2 aid ++ ':' :: members]
  others : after.filter (IsOther pairs) = before.filter (IsOther pairs)

/-- A file with one line for a name. -/
structure GroupFile where
  groups : List Group
  nodup : (groups.map Group.name).Nodup

def GroupFile.lines (file : GroupFile) : List Text := file.groups.map Group.line

/-- The function, several times. -/
def Shell.runs (sh : Shell) (pairs : List Pair) (n : Nat) (files : Files) : Files :=
  (sh.do_configure (PRIVILEGED_USERS pairs))^[n] files

/-- The pairs fit the groups. -/
structure Fits (pairs : List Pair) (groups : List Group) : Prop where
  /-- Without pairs nothing is done. -/
  aids : pairs = [] → ∀ aid ∈ aids, ∃ g ∈ groups, g.name = aid.name ∧ g.id = aid.id
  /-- In a group without members, as all Android groups are, the first pair that selects it is
  for the same user. -/
  first : ∀ p ∈ pairs, ∀ g, g ∈ Aid.aids ∨ g ∈ groups ∧ g.name ∉ Aid.aids.map Group.name →
    g.name = p.group → g.members = [] →
      (pairs.find? fun q => q.selects g).map Pair.user = some p.user
  /-- In a group with members, the user is one of them. -/
  full : ∀ p ∈ pairs, ∀ g ∈ groups, g.name ∉ Aid.aids.map Group.name → g.name = p.group →
    g.members ≠ [] → g.members.count p.user = 1
  /-- No pair selects another group without members. -/
  others : ∀ g ∈ groups, g.name ∉ Aid.aids.map Group.name → g.name ∉ pairs.map Pair.group →
    g.members = [] → ∀ p ∈ pairs, ¬ p.selects g

/-! ## All pairs -/

variable {pairs : List Pair} {g : Group}

@[simp] theorem Group.fill_name (g : Group) (p : Pair) : (g.fill p).name = g.name := by
  unfold Group.fill
  split
  · rfl
  · rfl

@[simp] theorem Group.fill_id (g : Group) (p : Pair) : (g.fill p).id = g.id := by
  unfold Group.fill
  split
  · rfl
  · rfl

theorem foldl_fill_name (pairs : List Pair) (g : Group) :
    (pairs.foldl Group.fill g).name = g.name := by
  induction pairs generalizing g with
  | nil => rfl
  | cons p pairs ih => exact (ih _).trans (g.fill_name p)

theorem foldl_fill_id (pairs : List Pair) (g : Group) :
    (pairs.foldl Group.fill g).id = g.id := by
  induction pairs generalizing g with
  | nil => rfl
  | cons p pairs ih => exact (ih _).trans (g.fill_id p)

/-- Members stay. -/
theorem foldl_fill_of_full (h : g.members ≠ []) : pairs.foldl Group.fill g = g := by
  induction pairs with
  | nil => rfl
  | cons p pairs ih =>
    have hfull : g.fill p = g := if_neg fun hboth => h hboth.2
    rw [List.foldl_cons, hfull, ih]

/-- **The first pair** that selects a group counts. -/
theorem foldl_fill (pairs : List Pair) (h : g.members = []) :
    (pairs.foldl Group.fill g).members =
      ((pairs.find? fun p => p.selects g).map fun p => [p.user]).getD [] := by
  induction pairs with
  | nil => exact h
  | cons p pairs ih =>
    by_cases hselects : p.selects g
    · have hfilled : (g.fill p).members = [p.user] := by
        rw [Group.fill, if_pos ⟨hselects, h⟩]
      rw [List.foldl_cons, foldl_fill_of_full (by simp [hfilled]), hfilled,
        List.find?_cons_of_pos (by simpa using hselects)]
      rfl
    · have hsame : g.fill p = g := if_neg fun hboth => hselects hboth.1
      rw [List.foldl_cons, hsame, ih, List.find?_cons_of_neg (by simpa using hselects)]

theorem foldl_fill_of_not_selects (h : ∀ p ∈ pairs, ¬ p.selects g) :
    pairs.foldl Group.fill g = g := by
  induction pairs with
  | nil => rfl
  | cons p pairs ih =>
    obtain ⟨hp, hpairs⟩ := List.forall_mem_cons.mp h
    have hsame : g.fill p = g := if_neg fun hboth => hp hboth.1
    rw [List.foldl_cons, hsame, ih hpairs]

/-- A group without members that is selected gets one. -/
theorem foldl_fill_ne_nil {p : Pair} (hp : p ∈ pairs) (hselects : p.selects g)
    (h : g.members = []) : (pairs.foldl Group.fill g).members ≠ [] := by
  rw [foldl_fill pairs h]
  cases hfind : pairs.find? fun q => q.selects g with
  | none => exact absurd hselects (by simpa using List.find?_eq_none.mp hfind p hp)
  | some q => exact List.cons_ne_nil _ _

/-- The pairs a second time change nothing. -/
theorem foldl_fill_idem (pairs : List Pair) (g : Group) :
    pairs.foldl Group.fill (pairs.foldl Group.fill g) = pairs.foldl Group.fill g := by
  by_cases hfull : g.members = []
  · by_cases hany : ∀ p ∈ pairs, ¬ p.selects g
    · rw [foldl_fill_of_not_selects hany, foldl_fill_of_not_selects hany]
    · push Not at hany
      obtain ⟨p, hp, hselects⟩ := hany
      exact foldl_fill_of_full (foldl_fill_ne_nil hp hselects hfull)
  · rw [foldl_fill_of_full hfull, foldl_fill_of_full hfull]

/-! ## All runs -/

theorem configure_eq (hne : pairs ≠ []) (groups : List Group) : configure pairs groups =
    (upsertAll Group.name groups aids).map fun g => pairs.foldl Group.fill g := if_neg hne

/-- **A second run** changes nothing. -/
theorem configure_configure (pairs : List Pair) (groups : List Group) :
    configure pairs (configure pairs groups) = configure pairs groups := by
  by_cases hnil : pairs = []
  · rw [configure, if_pos hnil]
  have hknown : ∀ aid ∈ aids, aid.name ∈ (configure pairs groups).map Group.name := by
    intro aid haid
    rw [configure_eq hnil, List.map_map]
    exact List.mem_map.mpr ⟨aid, (mem_upsertAll_iff aids_nodup).mpr (.inl haid),
      foldl_fill_name pairs aid⟩
  rw [configure_eq hnil (configure pairs groups), upsertAll_of_subset aids_nodup hknown,
    configure_eq hnil, List.map_map, List.map_map]
  refine List.map_congr_left fun g hg => ?_
  rw [Function.comp_apply, Function.comp_apply]
  have hname := foldl_fill_name pairs g
  rcases (mem_upsertAll_iff aids_nodup).mp hg with haid | ⟨-, hother⟩
  · rw [current_of_mem aids_nodup haid hname]
  · rw [current_of_not_mem (hname ▸ hother), foldl_fill_idem]

theorem runs_group (sh : Shell) (pairs : List Pair) (groups : List Group) (files : Files)
    (n : Nat) : (sh.runs pairs (n + 1) { files with group := groups.map Group.line }).group =
      (configure pairs groups).map Group.line := by
  induction n with
  | zero => exact do_configure_group sh pairs _ rfl
  | succ n ih =>
    rw [Shell.runs, Function.iterate_succ_apply']
    exact (do_configure_group sh pairs _ ih).trans (by rw [configure_configure])

/-! ## Groups and their lines -/

theorem column_name (g : Group) : column 1 g.line = g.name := by
  rw [column, g.columns]
  rfl

theorem column_members (g : Group) : column 4 g.line = g.memberText := by
  rw [column, g.columns]
  rfl

/-- A user among the members that the line shows. -/
theorem count_members (g : Group) {user : Text} (huser : user ≠ []) :
    ((column 4 g.line).splitOn ',').count user = g.members.count user := by
  rw [column_members]
  by_cases hnil : g.members = []
  · rw [g.memberText_eq_nil_iff.mpr hnil, hnil]
    exact List.count_eq_zero.mpr (by simpa using huser)
  · rw [Group.memberText, List.splitOn_intercalate ',' (fun member hm =>
      (g.members_ok member hm).not_mem (by decide)) hnil]

/-- The only line for a name. -/
theorem filter_name {groups : List Group} (hnodup : (groups.map Group.name).Nodup)
    (hg : g ∈ groups) : (groups.map Group.line).filter (fun line => column 1 line = g.name) =
      [g.line] := by
  induction groups with
  | nil => cases hg
  | cons g' groups ih =>
    obtain ⟨hnew, hnodup⟩ := List.nodup_cons.mp hnodup
    rw [List.map_cons]
    rcases List.mem_cons.mp hg with rfl | hg
    · rw [List.filter_cons_of_pos (by simp [column_name])]
      congr 1
      refine List.filter_eq_nil_iff.mpr fun line hline heq => hnew ?_
      obtain ⟨g', hg', rfl⟩ := List.mem_map.mp hline
      rw [column_name, decide_eq_true_iff] at heq
      exact heq ▸ List.mem_map_of_mem hg'
    · have hne : g'.name ≠ g.name := fun heq => hnew (heq ▸ List.mem_map_of_mem hg)
      rw [List.filter_cons_of_neg (by simpa [column_name] using hne)]
      exact ih hnodup hg

theorem name_mem_aidNames : g.name ∈ aidNames ↔ g.name ∈ aids.map Group.name := by
  rw [aidNames, aids_name]

/-- The line shows the name and the number. -/
theorem line_eq_iff {aid : Group} : (∃ members, g.line =
    aid.name ++ ":x:".toList ++ aid.id ++ ':' :: members) ↔ g.name = aid.name ∧ g.id = aid.id := by
  have htext (members : Text) : aid.name ++ ":x:".toList ++ aid.id ++ ':' :: members =
      aid.name ++ ':' :: 'x' :: ':' :: (aid.id ++ ':' :: members) := by simp
  constructor
  · rintro ⟨members, hline⟩
    rw [htext, g.line_eq] at hline
    rcases eq_or_after_of_append_cons (aid.name_ok.not_mem (by decide)) hline with
      ⟨hname, hrest⟩ | ⟨q, hname, -⟩
    · rcases eq_or_after_of_append_cons aid.colon_not_mem_id
        (List.cons_eq_cons.mp (List.cons_eq_cons.mp hrest).2).2 with ⟨hid, -⟩ | ⟨q, hid, -⟩
      · exact ⟨hname, hid⟩
      · exact absurd (hid ▸ List.mem_append_right _ List.mem_cons_self) g.colon_not_mem_id
    · exact absurd (hname ▸ List.mem_append_right _ List.mem_cons_self)
        (g.name_ok.not_mem (by decide))
  · rintro ⟨hname, hid⟩
    exact ⟨g.memberText, by rw [htext, ← hname, ← hid, g.line_eq]⟩

/-- The groups of Android are there, as far as names and numbers go. -/
theorem aids_iff {groups : List Group} (hnodup : (groups.map Group.name).Nodup) :
    (∀ aid ∈ android_groups, ∃ members,
      (groups.map Group.line).filter (fun line => column 1 line = column 1 aid) =
        [column 1 aid ++ ":x:".toList ++ column 2 aid ++ ':' :: members]) ↔
      ∀ aid ∈ aids, ∃ g ∈ groups, g.name = aid.name ∧ g.id = aid.id := by
  rw [← aids_text, List.forall_mem_map]
  refine forall₂_congr fun aid _ => ?_
  obtain ⟨hname, hid⟩ := column_aidText aid
  rw [hname, hid]
  constructor
  · rintro ⟨members, hlines⟩
    have hmem := hlines ▸ List.mem_singleton_self _
    obtain ⟨g, hg, hline⟩ := List.mem_map.mp (List.mem_of_mem_filter hmem)
    exact ⟨g, hg, line_eq_iff.mp ⟨members, hline⟩⟩
  · rintro ⟨g, hg, hsame⟩
    obtain ⟨members, hline⟩ := line_eq_iff.mpr hsame
    exact ⟨members, by rw [← hsame.1, filter_name hnodup hg, hline, hsame.1]⟩

/-- A line is changed exactly if the group has no members and is selected. -/
theorem line_foldl_fill_iff : (pairs.foldl Group.fill g).line = g.line ↔
    (g.members = [] → ∀ p ∈ pairs, ¬ p.selects g) := by
  constructor
  · intro h hnil p hp hselects
    have hmembers := congrArg (column 4) h
    rw [column_members, column_members, g.memberText_eq_nil_iff.mpr hnil,
      Group.memberText_eq_nil_iff] at hmembers
    exact foldl_fill_ne_nil hp hselects hnil hmembers
  · intro h
    by_cases hnil : g.members = []
    · rw [foldl_fill_of_not_selects (h hnil)]
    · rw [foldl_fill_of_full hnil]

/-- The other lines stay as they are exactly if no pair selects their groups. -/
theorem others_iff (hne : pairs ≠ []) (groups : List Group) :
    ((configure pairs groups).map Group.line).filter (IsOther pairs) =
        (groups.map Group.line).filter (IsOther pairs) ↔
      ∀ g ∈ groups, g.name ∉ aids.map Group.name → g.name ∉ pairs.map Pair.group →
        g.members = [] → ∀ p ∈ pairs, ¬ p.selects g := by
  have hother : ∀ g : Group, (IsOther pairs ∘ Group.line) g =
      (g.name ∉ aidNames && g.name ∉ pairs.map Pair.group : Bool) := by
    intro g
    rw [Function.comp_apply, IsOther, column_name]
  have hfilled : ∀ g : Group, ((IsOther pairs ∘ Group.line) ∘ fun g => pairs.foldl Group.fill g) g =
      (g.name ∉ aidNames && g.name ∉ pairs.map Pair.group : Bool) := by
    intro g
    rw [Function.comp_apply, hother, foldl_fill_name]
  have haids : ∀ aid ∈ aids,
      (aid.name ∉ aidNames && aid.name ∉ pairs.map Pair.group : Bool) = false := by
    intro aid haid
    simp [name_mem_aidNames, List.mem_map_of_mem haid]
  rw [configure_eq hne, List.filter_map, List.filter_map, List.filter_map,
    List.filter_congr fun g _ => hfilled g, List.filter_congr fun g _ => hother g,
    filter_upsertAll aids_nodup
      (fun name => (name ∉ aidNames && name ∉ pairs.map Pair.group : Bool)) haids,
    List.map_map, List.map_inj_left]
  refine forall_congr' fun g => ?_
  rw [List.mem_filter, Function.comp_apply, line_foldl_fill_iff, Bool.and_eq_true,
    decide_eq_true_iff, decide_eq_true_iff, name_mem_aidNames, and_imp, and_imp]

/-- A pair is in the file exactly if the group has the user from before, or from the first
pair that selects it. -/
theorem count_foldl_fill (pairs : List Pair) (g : Group) (user : Text) :
    (pairs.foldl Group.fill g).members.count user = 1 ↔
      (g.members = [] → (pairs.find? fun q => q.selects g).map Pair.user = some user) ∧
        (g.members ≠ [] → g.members.count user = 1) := by
  by_cases hnil : g.members = []
  · rw [foldl_fill pairs hnil, and_iff_left fun hne => absurd hnil hne]
    cases hfind : pairs.find? fun q => q.selects g with
    | none => simp [hnil]
    | some q => simp [hnil, List.count_singleton]
  · rw [foldl_fill_of_full hnil]
    simp [hnil]

theorem mem_configure (hne : pairs ≠ []) (groups : List Group) :
    g ∈ configure pairs groups ↔ ∃ g', (g' ∈ aids ∨ g' ∈ groups ∧ g'.name ∉ aids.map Group.name) ∧
      pairs.foldl Group.fill g' = g := by
  rw [configure_eq hne, List.mem_map]
  exact exists_congr fun g' => and_congr_left' (mem_upsertAll_iff aids_nodup)

theorem nodup_configure (pairs : List Pair) (file : GroupFile) :
    ((configure pairs file.groups).map Group.name).Nodup := by
  by_cases hnil : pairs = []
  · rw [configure, if_pos hnil]
    exact file.nodup
  · rw [configure_eq hnil, List.map_map]
    have hnames : (Group.name ∘ fun g => pairs.foldl Group.fill g) = Group.name :=
      funext (foldl_fill_name pairs)
    rw [hnames]
    exact nodup_upsertAll aids_nodup file.nodup

/-- One run. -/
theorem haveGroups_configure_iff (pairs : List Pair) (file : GroupFile) :
    HaveGroups pairs file.lines ((configure pairs file.groups).map Group.line) ↔
      Fits pairs file.groups := by
  by_cases hnil : pairs = []
  · subst hnil
    constructor
    · intro h
      exact ⟨fun _ => (aids_iff file.nodup).mp h.aids, by simp, by simp, by simp⟩
    · intro h
      exact ⟨by simp, (aids_iff file.nodup).mpr (h.aids rfl), rfl⟩
  constructor
  · intro h
    have hcount : ∀ p ∈ pairs, ∀ g,
        g ∈ aids ∨ g ∈ file.groups ∧ g.name ∉ aids.map Group.name → g.name = p.group →
          (pairs.foldl Group.fill g).members.count p.user = 1 := by
      intro p hp g hg hname
      rw [← count_members _ p.user_ok.1]
      refine h.members p hp _ (List.mem_map_of_mem ((mem_configure hnil _).mpr ⟨g, hg, rfl⟩)) ?_
      rw [column_name, foldl_fill_name, hname]
    refine ⟨fun h => absurd h hnil, fun p hp g hg hname => ?_, fun p hp g hg hother hname => ?_,
      (others_iff hnil file.groups).mp h.others⟩
    · exact ((count_foldl_fill pairs g p.user).mp (hcount p hp g hg hname)).1
    · exact ((count_foldl_fill pairs g p.user).mp
        (hcount p hp g (.inr ⟨hg, hother⟩) hname)).2
  · intro h
    refine ⟨fun p hp line hline hname => ?_, (aids_iff (nodup_configure pairs file)).mpr ?_,
      (others_iff hnil file.groups).mpr h.others⟩
    · obtain ⟨g', hg', rfl⟩ := List.mem_map.mp hline
      obtain ⟨g, hg, rfl⟩ := (mem_configure hnil _).mp hg'
      rw [column_name, foldl_fill_name] at hname
      rw [count_members _ p.user_ok.1, count_foldl_fill]
      refine ⟨h.first p hp g hg hname, fun hfull => ?_⟩
      rcases hg with haid | ⟨hg, hother⟩
      · exact absurd (aids_empty g haid).1 hfull
      · exact h.full p hp g hg hother hname hfull
    · intro aid haid
      exact ⟨_, (mem_configure hnil _).mpr ⟨aid, .inl haid, rfl⟩, foldl_fill_name pairs aid,
        foldl_fill_id pairs aid⟩

/-- **After any number of runs** the users have their groups exactly if the pairs fit. -/
theorem haveGroups_iff (sh : Shell) (pairs : List Pair) (file : GroupFile) (files : Files) :
    (∀ n, HaveGroups pairs file.lines
      (sh.runs pairs (n + 1) { files with group := file.lines }).group) ↔
      Fits pairs file.groups := by
  rw [← haveGroups_configure_iff]
  constructor
  · intro h
    have hfirst := h 0
    rwa [GroupFile.lines, runs_group sh pairs file.groups files 0] at hfirst
  · intro h n
    rw [GroupFile.lines, runs_group sh pairs file.groups files n]
    exact h

/-- No pattern is left to the parameters. -/
def plainShell : Shell where
  grep := fun _ _ => false
  sed := fun _ _ line => line
  glob := fun word => [word]
  glob_plain := fun _ _ => rfl

/-- Two users who are to be put into the first Android group. -/
def android : Pair := ⟨"android".toList, "aid_system".toList, by decide, by decide⟩

def root : Pair := ⟨"root".toList, "aid_system".toList, by decide, by decide⟩

/-- Only the first of them is. -/
theorem not_haveGroups : ¬ ∀ (sh : Shell) pairs (file : GroupFile) (files : Files) n,
    HaveGroups pairs file.lines
      (sh.runs pairs (n + 1) { files with group := file.lines }).group := by
  intro h
  have hboth := h plainShell [android, root] ⟨[], .nil⟩ ⟨none, [], []⟩ 0
  rw [GroupFile.lines, runs_group] at hboth
  have hmem : "aid_system:1000".toList ∈ aids.map Group.aidText :=
    aids_text ▸ List.mem_map_of_mem List.mem_cons_self
  obtain ⟨aid, haid, htext⟩ := List.mem_map.mp hmem
  have hname : aid.name = "aid_system".toList := by
    rw [← (column_aidText aid).1, htext]
    decide
  have hline := hboth.members root (by simp) _ (List.mem_map_of_mem
    ((mem_configure (by simp) _).mpr ⟨aid, .inl haid, rfl⟩))
    (by rw [column_name, foldl_fill_name, hname]; rfl)
  rw [count_members _ root.user_ok.1, count_foldl_fill] at hline
  have hselects : android.selects aid := .inl (hname ▸ Sed.Alike.refl _)
  have hfirst := hline.1 (aids_empty aid haid).1
  rw [List.find?_cons_of_pos (by simpa using hselects)] at hfirst
  exact absurd (Option.some.inj hfirst) (by decide)

end Anx.Cli.Aid
