import Anx.Cli.AndroidGroups
import Anx.Cli.ComponentDepends
import Anx.Lib.Sed
import Anx.Lib.Upsert
import Anx.Lib.Words

/-!
# Users and groups of the system

`do_configure` of core/aid adds the groups of Android to `/etc/group`, each with its number
and without members, and then the privileged users to their groups. It edits the file with
`sed`, line by line.

- `do_configure`: the function, with `addAid` and `addUser` for the bodies of its loops;
- `Group`, `Pair`: well-formed lines and pairs;
- `Group.fill`, `configure`: what happens to groups;
- `do_configure_group`: **the function does this to the lines** of well-formed groups.
-/

namespace Anx.Cli.Aid

open Anx.Lib

/-! ## The function -/

/-- The files that the function edits. -/
structure Files where
  login_defs : Option (List Text)
  group : List Text
  passwd : List Text

/-- What the shell and its commands make of patterns that are not modelled. -/
structure Shell where
  grep : Text → Text → Bool
  sed : Text → Text → Text → Text
  glob : Text → List Text
  glob_plain : ∀ word, Plain word → glob word = [word]

namespace Shell

variable (sh : Shell)

/-- `UID_MIN` or `GID_MIN`, unless it is set. -/
def setMin (key : Text) (lines : List Text) : List Text :=
  if lines.any (Lib.grep sh.grep ("^ *".toList ++ key)) then lines
  else (lines ++ [key ++ " 5000".toList]).map fun line =>
    if key <+: line ∨ '#' :: key <+: line then key ++ " 5000".toList else line

/-- An Android group. -/
def addAid (files : Files) (aid : Text) : Files :=
  let xname := column 1 aid
  let xid := column 2 aid
  let entry := xname ++ ":x:".toList ++ xid ++ [':']
  let known := Lib.grep sh.grep ('^' :: xname ++ [':'])
  let group := files.group.map (Sed.replaceLine sh.sed (xname ++ [':']) entry)
  { files with
    group := if group.any known then group else group ++ [entry]
    passwd := if files.passwd.any known then files.passwd
      else files.passwd ++
        [xname ++ ":x:".toList ++ xid ++ ':' :: xid ++ "::/:/bin/false".toList] }

/-- A privileged user. -/
def addUser (group : List Text) (usr : Text) : List Text :=
  let uid := usr.takeWhile (· ≠ ':')
  let gid := usr.rtakeWhile (· ≠ ':')
  let group := group.map (Sed.appendTo sh.sed (gid ++ ":.*:[^:]+".toList) (',' :: uid))
  group.map (Sed.appendTo sh.sed (gid ++ ":.*:".toList) uid)

/-- The words of a variable. -/
def expand (text : Text) : List Text := (words text).flatMap sh.glob

/-- `do_configure`. -/
def do_configure (PRIVILEGED_USERS : Text) (files : Files) : Files :=
  let login_defs := sh.setMin "UID_MIN".toList (files.login_defs.getD [])
  let login_defs := sh.setMin "GID_MIN".toList login_defs
  let files := { files with login_defs := some login_defs }
  if PRIVILEGED_USERS = [] then files
  else
    let files := android_groups.foldl sh.addAid files
    { files with group := (sh.expand PRIVILEGED_USERS).foldl sh.addUser files.group }

end Shell

/-! ## Well-formed groups and pairs -/

/-- A group. -/
structure Group where
  name : Text
  id : Text
  members : List Text
  name_ok : IsAccount name
  id_ok : ∀ c ∈ id, c.isDigit = true
  members_ok : ∀ member ∈ members, IsAccount member

/-- The line of a group. -/
def Group.line (g : Group) : Text :=
  [':'].intercalate [g.name, ['x'], g.id, [','].intercalate g.members]

/-- A user and the group it is to be put into. -/
structure Pair where
  user : Text
  group : Text
  user_ok : IsAccount user
  group_ok : IsAccount group

/-- A pair as it is written. -/
def Pair.text (p : Pair) : Text := p.user ++ ':' :: p.group

/-- The setting. -/
def PRIVILEGED_USERS (pairs : List Pair) : Text := [' '].intercalate (pairs.map Pair.text)

/-- A line of `android_groups`, as a group without members. -/
def toAid (aid : Text) : Option Group :=
  if h : IsAccount (column 1 aid) ∧ ∀ c ∈ column 2 aid, c.isDigit = true then
    some ⟨column 1 aid, column 2 aid, [], h.1, h.2, by simp⟩
  else none

/-- The groups of Android. -/
def aids : List Group := android_groups.filterMap toAid

/-- The pattern of a pair selects the group: its name, or what follows it in the line. -/
def Pair.selects (p : Pair) (g : Group) : Prop :=
  Sed.Alike p.group g.name ∨ Sed.Alike p.group (g.name ++ [':', 'x'])

instance (p : Pair) (g : Group) : Decidable (p.selects g) := inferInstanceAs (Decidable (_ ∨ _))

/-- The user becomes the first member of the group. -/
def Group.fill (g : Group) (p : Pair) : Group :=
  if p.selects g ∧ g.members = [] then
    { g with
      members := [p.user]
      members_ok := fun _ h => List.mem_singleton.mp h ▸ p.user_ok }
  else g

/-- What is done to the groups. -/
def configure (pairs : List Pair) (groups : List Group) : List Group :=
  if pairs = [] then groups
  else (upsertAll Group.name groups aids).map fun g => pairs.foldl Group.fill g

/-! ## Lines -/

theorem IsAccount.not_mem {name : Text} (h : IsAccount name) {c : Char}
    (hc : isAccountChar c = false) : c ∉ name :=
  fun hmem => Bool.false_ne_true (hc.symm.trans (h.2 c hmem))

/-- A name has none of some marks that no name has. -/
theorem IsAccount.avoids {name marks : Text} (h : IsAccount name)
    (hmarks : ∀ c ∈ marks, isAccountChar c = false) : ∀ c ∈ name, c ∉ marks :=
  fun _ hc hmem => h.not_mem (hmarks _ hmem) hc

theorem IsAccount.isPlain {name : Text} (h : IsAccount name) : Sed.IsPlain name :=
  h.avoids (by decide)

theorem IsAccount.isReplacement {name : Text} (h : IsAccount name) : Sed.IsReplacement name :=
  h.avoids (by decide)

namespace Group

variable (g : Group)

/-- The last column of the line. -/
def memberText : Text := [','].intercalate g.members

theorem line_eq : g.line = g.name ++ ':' :: 'x' :: ':' :: (g.id ++ ':' :: g.memberText) := by
  simp [line, memberText, List.intercalate_cons_cons]

theorem colon_not_mem_id : ':' ∉ g.id := fun h => absurd (g.id_ok ':' h) (by decide)

theorem colon_not_mem_memberText : ':' ∉ g.memberText :=
  not_mem_intercalate (by decide) fun member hm => (g.members_ok member hm).not_mem (by decide)

theorem columns : g.line.splitOn ':' = [g.name, ['x'], g.id, g.memberText] := by
  refine List.splitOn_intercalate ':' (fun part hpart => ?_) (by simp)
  simp only [List.mem_cons, List.not_mem_nil, or_false] at hpart
  rcases hpart with rfl | rfl | rfl | rfl
  · exact g.name_ok.not_mem (by decide)
  · decide
  · exact g.colon_not_mem_id
  · exact g.colon_not_mem_memberText

theorem memberText_eq_nil_iff : g.memberText = [] ↔ g.members = [] := by
  refine ⟨fun h => by_contra fun hne => ?_, fun h => by rw [memberText, h]; rfl⟩
  exact intercalate_ne_nil hne (fun member hm => (g.members_ok member hm).1) h

/-- But for colons and commas, a line has only characters of names. -/
theorem not_mem_line {c : Char} (hc : isAccountChar c = false) (hmark : c ∉ [':', ',']) :
    c ∉ g.line := by
  have hx : c ≠ 'x' := by
    rintro rfl
    exact absurd hc (by decide)
  have hdigit : c.isDigit = false := by
    have halphanum := (Bool.or_eq_false_iff.mp hc).1
    exact (Bool.or_eq_false_iff.mp halphanum).2
  simp only [List.mem_cons, List.not_mem_nil, or_false, not_or] at hmark
  refine not_mem_intercalate (by simp [hmark]) fun part hpart => ?_
  simp only [List.mem_cons, List.not_mem_nil, or_false] at hpart
  rcases hpart with rfl | rfl | rfl | rfl
  · exact g.name_ok.not_mem hc
  · exact fun hmem => hx (List.mem_singleton.mp hmem)
  · exact fun hmem => Bool.false_ne_true (hdigit.symm.trans (g.id_ok c hmem))
  · exact not_mem_intercalate (by simp [hmark]) fun member hm => (g.members_ok member hm).not_mem hc

variable {g}

/-- The parts of the line that end at a colon. -/
theorem line_colon {q r : Text} (h : q ++ ':' :: r = g.line) :
    q = g.name ∨ q = g.name ++ [':', 'x'] ∨ q = g.name ++ ':' :: 'x' :: ':' :: g.id := by
  rw [line_eq] at h
  rcases eq_or_after_of_append_cons (g.name_ok.not_mem (by decide)) h with ⟨rfl, -⟩ | ⟨q₁, rfl, h₁⟩
  · exact .inl rfl
  rcases eq_or_after_of_append_cons (show ':' ∉ ['x'] by decide) h₁ with
    ⟨rfl, -⟩ | ⟨q₂, rfl, h₂⟩
  · exact .inr (.inl rfl)
  rcases eq_or_after_of_append_cons g.colon_not_mem_id h₂ with ⟨rfl, -⟩ | ⟨q₃, rfl, h₃⟩
  · exact .inr (.inr rfl)
  · exact absurd (h₃ ▸ List.mem_append_right q₃ List.mem_cons_self) g.colon_not_mem_memberText

/-- The line ends with a colon, and a text like the pattern stands before an earlier one. -/
theorem line_ends_iff {p : Pair} :
    (∃ q r, g.line = q ++ ':' :: (r ++ [':']) ∧ Sed.Alike p.group q) ↔
      p.selects g ∧ g.members = [] := by
  rw [← memberText_eq_nil_iff]
  constructor
  · rintro ⟨q, r, hline, hq⟩
    have hnil : g.memberText = [] := by
      by_contra hne
      obtain ⟨text, c, htext⟩ := (List.eq_nil_or_concat g.memberText).resolve_left hne
      rw [List.concat_eq_append] at htext
      have hends : (g.name ++ ':' :: 'x' :: ':' :: (g.id ++ ':' :: text)) ++ [c] =
          (q ++ ':' :: r) ++ [':'] := by
        rw [List.append_assoc q, List.cons_append, ← hline, line_eq, htext]
        simp
      obtain rfl : c = ':' := (List.cons_eq_cons.mp (List.append_inj' hends rfl).2).1
      exact g.colon_not_mem_memberText (htext ▸ List.mem_append_right _ (List.mem_singleton_self _))
    refine ⟨?_, hnil⟩
    rcases line_colon hline.symm with rfl | rfl | rfl
    · exact .inl hq
    · exact .inr hq
    · rw [line_eq, hnil] at hline
      simp at hline
  · rintro ⟨hq | hq, hnil⟩
    · exact ⟨g.name, 'x' :: ':' :: g.id, by rw [line_eq, hnil]; simp, hq⟩
    · exact ⟨g.name ++ [':', 'x'], g.id, by rw [line_eq, hnil]; simp, hq⟩

/-- The line starts with the name of its group. -/
theorem line_starts_iff {name : Text} (hname : ':' ∉ name) :
    (∃ s, g.line = name ++ ':' :: s) ↔ g.name = name := by
  constructor
  · rintro ⟨s, hline⟩
    rw [line_eq] at hline
    rcases eq_or_after_of_append_cons hname hline with ⟨heq, -⟩ | ⟨q, heq, -⟩
    · exact heq
    · exact absurd (heq ▸ List.mem_append_right name List.mem_cons_self)
        (g.name_ok.not_mem (by decide))
  · rintro rfl
    exact ⟨_, g.line_eq⟩

end Group

/-! ## The commands -/

variable (sh : Shell)

/-- A user is appended to the lines that end with a colon. -/
theorem appendTo_empty {pattern suffix : Text} (hpattern : IsAccount pattern)
    (hsuffix : IsAccount suffix) (line : Text) :
    Sed.appendTo sh.sed (pattern ++ ":.*:".toList) suffix line = line ++ suffix ∧
        (∃ q r, line = q ++ ':' :: (r ++ [':']) ∧ Sed.Alike pattern q) ∨
      Sed.appendTo sh.sed (pattern ++ ":.*:".toList) suffix line = line ∧
        ¬ ∃ q r, line = q ++ ':' :: (r ++ [':']) ∧ Sed.Alike pattern q := by
  have hparse := Sed.parse_plain hpattern.isPlain
    (show Sed.parse ":.*:".toList = some [.one (.lit ':'), .star .any, .one (.lit ':')] from rfl)
    (by decide)
  have hplain : ¬ ('|' ∈ pattern ++ ":.*:".toList ∨ ¬ Sed.IsReplacement suffix) := by
    have hbar := hpattern.isPlain.bar_not_mem
    simp [hbar, hsuffix.isReplacement]
  have hmatches : Sed.matchesAll ((pattern.map .ofChar).map .one ++
      [.one (.lit ':'), .star .any, .one (.lit ':')]) line = true ↔
        ∃ q r, line = q ++ ':' :: (r ++ [':']) ∧ Sed.Alike pattern q := by
    rw [Sed.matchesAll_plain]
    constructor
    · rintro ⟨q, s, rfl, hq, hs⟩
      obtain ⟨s₁, rfl, hs₁⟩ := Sed.matchesAll_lit.mp hs
      obtain ⟨r, s₂, rfl, hs₂⟩ := Sed.matchesAll_star_any.mp hs₁
      obtain ⟨s₃, rfl, hs₃⟩ := Sed.matchesAll_lit.mp hs₂
      obtain rfl : s₃ = [] := of_decide_eq_true hs₃
      exact ⟨q, r, rfl, hq⟩
    · rintro ⟨q, r, rfl, hq⟩
      refine ⟨q, _, rfl, hq, Sed.matchesAll_lit.mpr ⟨_, rfl, ?_⟩⟩
      exact Sed.matchesAll_star_any.mpr ⟨r, [':'], rfl, rfl⟩
  rw [Sed.appendTo, if_neg hplain, hparse]
  dsimp only
  split
  · next h => exact .inl ⟨rfl, hmatches.mp h⟩
  · next h => exact .inr ⟨rfl, fun hq => h (hmatches.mpr hq)⟩

/-- The other command finds nothing in lines without a plus sign. -/
theorem appendTo_plus {pattern suffix : Text} (hpattern : IsAccount pattern)
    (hsuffix : IsAccount suffix) {line : Text} (hplus : '+' ∉ line) :
    Sed.appendTo sh.sed (pattern ++ ":.*:[^:]+".toList) (',' :: suffix) line = line := by
  have hparse := Sed.parse_plain hpattern.isPlain
    (show Sed.parse ":.*:[^:]+".toList =
      some [.one (.lit ':'), .star .any, .one (.lit ':'), .except ':', .one (.lit '+')] from rfl)
    (by decide)
  have hplain : ¬ ('|' ∈ pattern ++ ":.*:[^:]+".toList ∨ ¬ Sed.IsReplacement (',' :: suffix)) := by
    have hbar := hpattern.isPlain.bar_not_mem
    have hcomma : Sed.IsReplacement (',' :: suffix) :=
      List.forall_mem_cons.mpr ⟨by decide, hsuffix.isReplacement⟩
    simp [hbar, hcomma]
  rw [Sed.appendTo, if_neg hplain, hparse]
  dsimp only
  exact if_neg fun h => hplus (Sed.mem_of_matchesAll (by simp) h)

/-- **A user is added** to the group that its pattern selects, if that has no members. -/
theorem addUser_line (p : Pair) (groups : List Group) :
    sh.addUser (groups.map Group.line) p.text = (groups.map fun g => g.fill p).map Group.line := by
  have huid : p.text.takeWhile (· ≠ ':') = p.user :=
    takeWhile_ne_append (p.user_ok.not_mem (by decide)) p.group
  have hgid : p.text.rtakeWhile (· ≠ ':') = p.group :=
    rtakeWhile_ne_append (p.group_ok.not_mem (by decide)) p.user
  rw [Shell.addUser, huid, hgid, List.map_map, List.map_map, List.map_map]
  refine List.map_congr_left fun g _ => ?_
  rw [Function.comp_apply, Function.comp_apply, Function.comp_apply,
    appendTo_plus sh p.group_ok p.user_ok (g.not_mem_line (by decide) (by decide)), Group.fill]
  rcases appendTo_empty sh p.group_ok p.user_ok g.line with ⟨hline, hends⟩ | ⟨hline, hends⟩
  · obtain ⟨hselects, hnil⟩ := Group.line_ends_iff.mp hends
    rw [hline, if_pos ⟨hselects, hnil⟩]
    simp [Group.line, hnil, List.intercalate_cons_cons]
  · rw [hline, if_neg fun h => hends (Group.line_ends_iff.mpr h)]

theorem IsAccount.literal {name : Text} (h : IsAccount name) (hdot : '.' ∉ name) :
    Literal (name ++ [':']) := by
  have hmarks : ∀ d ∈ ['\\', '.', '[', '*', '^', '$', '\n'],
      d ≠ '.' → isAccountChar d = false := by decide
  refine List.forall_mem_append.mpr ⟨fun c hc hmem => ?_, by decide⟩
  have hne : c ≠ '.' := fun heq => hdot (heq ▸ hc)
  exact h.not_mem (hmarks c hmem hne) hc

/-- The lines of the group of this name. -/
theorem known_iff {name : Text} (hname : IsAccount name) (hdot : '.' ∉ name) (g : Group) :
    Lib.grep sh.grep ('^' :: name ++ [':']) g.line = true ↔ g.name = name := by
  rw [List.cons_append, grep_start (hname.literal hdot),
    ← Group.line_starts_iff (hname.not_mem (by decide))]
  constructor
  · rintro ⟨s, hline⟩
    exact ⟨s, by rw [← hline, List.append_assoc]; rfl⟩
  · rintro ⟨s, hline⟩
    exact ⟨s, by rw [hline, List.append_assoc]; rfl⟩

/-- They are replaced. -/
theorem replaceLine_group {name entry : Text} (hname : IsAccount name) (hdot : '.' ∉ name)
    (hentry : Sed.IsReplacement entry) (g : Group) :
    Sed.replaceLine sh.sed (name ++ [':']) entry g.line =
      if g.name = name then entry else g.line := by
  have hparse := Sed.parse_plain hname.isPlain
    (show Sed.parse [':', '.', '*'] = some [.one (.lit ':'), .star .any] from rfl) (by decide)
  have hplain : ¬ ('|' ∈ name ++ [':'] ∨ ¬ Sed.IsReplacement entry) := by
    have hbar := hname.isPlain.bar_not_mem
    simp [hbar, hentry]
  have hmatches : Sed.matchesAll ((name.map .ofChar).map .one ++
      [.one (.lit ':'), .star .any]) g.line = true ↔ g.name = name := by
    rw [Sed.matchesAll_plain, ← Group.line_starts_iff (hname.not_mem (by decide))]
    constructor
    · rintro ⟨q, s, hline, hq, hs⟩
      obtain ⟨s', rfl, -⟩ := Sed.matchesAll_lit.mp hs
      exact ⟨s', hq.eq_of_no_dot hdot ▸ hline⟩
    · rintro ⟨s, hline⟩
      refine ⟨name, ':' :: s, hline, .refl name, Sed.matchesAll_lit.mpr ⟨s, rfl, ?_⟩⟩
      exact Sed.matchesAll_star_any.mpr ⟨s, [], (List.append_nil s).symm, rfl⟩
  rw [Sed.replaceLine, if_neg hplain, List.append_assoc, List.singleton_append, hparse]
  dsimp only
  exact if_congr hmatches rfl rfl

/-- A group as it is written in `android_groups`. -/
def Group.aidText (g : Group) : Text := g.name ++ ':' :: g.id

theorem column_aidText (aid : Group) :
    column 1 aid.aidText = aid.name ∧ column 2 aid.aidText = aid.id := by
  have hcolumns : aid.aidText.splitOn ':' = [aid.name, aid.id] := by
    have htext : aid.aidText = [':'].intercalate [aid.name, aid.id] := by
      simp [Group.aidText, List.intercalate_cons_cons]
    rw [htext]
    refine List.splitOn_intercalate ':' (List.forall_mem_cons.mpr ⟨?_, ?_⟩) (by simp)
    · exact aid.name_ok.not_mem (by decide)
    · exact fun part hpart => List.mem_singleton.mp hpart ▸ aid.colon_not_mem_id
  exact ⟨by rw [column, hcolumns]; rfl, by rw [column, hcolumns]; rfl⟩

/-- **An Android group** is put into the file. -/
theorem addAid_line (files : Files) {aid : Group} (hdot : '.' ∉ aid.name)
    (hempty : aid.members = []) {groups : List Group} (h : files.group = groups.map Group.line) :
    (sh.addAid files aid.aidText).group = (upsert Group.name groups aid).map Group.line := by
  obtain ⟨hname, hid⟩ := column_aidText aid
  have hentry : aid.name ++ ":x:".toList ++ aid.id ++ [':'] = aid.line := by
    simp [Group.line, hempty, List.intercalate_cons_cons]
  have hreplacement : Sed.IsReplacement aid.line := by
    have hmarks : ∀ d ∈ ['\\', '&', '|', '\n'], isAccountChar d = false ∧ d ∉ [':', ','] := by
      decide
    exact fun c hc hmem => aid.not_mem_line (hmarks c hmem).1 (hmarks c hmem).2 hc
  have hmapped : files.group.map (Sed.replaceLine sh.sed (aid.name ++ [':']) aid.line) =
      (groups.map fun g => if g.name = aid.name then aid else g).map Group.line := by
    rw [h, List.map_map, List.map_map]
    refine List.map_congr_left fun g _ => ?_
    rw [Function.comp_apply, replaceLine_group sh aid.name_ok hdot hreplacement,
      Function.comp_apply, apply_ite Group.line]
  rw [Shell.addAid, hname, hid, hentry]
  dsimp only
  rw [hmapped]
  by_cases hany : aid.name ∈ groups.map Group.name
  · rw [upsert, if_pos (any_key_iff.mpr hany), if_pos]
    obtain ⟨g, hg, heq⟩ := List.mem_map.mp hany
    refine List.any_eq_true.mpr ⟨aid.line, ?_, (known_iff sh aid.name_ok hdot aid).mpr rfl⟩
    exact List.mem_map_of_mem (List.mem_map.mpr ⟨g, hg, if_pos heq⟩)
  · -- the command has changed nothing
    have hself : (groups.map fun g => if g.name = aid.name then aid else g) = groups := by
      refine (List.map_congr_left fun g hg => ?_).trans (List.map_id groups)
      have hne : g.name ≠ aid.name := fun heq => hany (heq ▸ List.mem_map_of_mem hg)
      exact if_neg hne
    rw [upsert, if_neg fun h => hany (any_key_iff.mp h), hself, if_neg, List.map_append]
    · rfl
    · intro hknown
      obtain ⟨line, hline, hfound⟩ := List.any_eq_true.mp hknown
      obtain ⟨g, hg, rfl⟩ := List.mem_map.mp hline
      exact hany ((known_iff sh aid.name_ok hdot g).mp hfound ▸ List.mem_map_of_mem hg)

/-! ## The function, on groups -/

/-- The lines and the groups are the same. -/
theorem filterMap_toAid {lines : List Text} (h : ∀ aid ∈ lines, IsAid aid) :
    (lines.filterMap toAid).map Group.aidText = lines ∧
      (lines.filterMap toAid).map Group.name = lines.map (column 1) ∧
      ∀ aid ∈ lines.filterMap toAid, aid.members = [] ∧ '.' ∉ aid.name := by
  induction lines with
  | nil => exact ⟨rfl, rfl, by simp⟩
  | cons aid lines ih =>
    obtain ⟨⟨htext, hdot, hok⟩, hlines⟩ := List.forall_mem_cons.mp h
    obtain ⟨htexts, hnames, hall⟩ := ih hlines
    have hsome : toAid aid = some ⟨column 1 aid, column 2 aid, [], hok.1, hok.2, by simp⟩ :=
      dif_pos hok
    rw [List.filterMap_cons_some hsome, List.map_cons, List.map_cons, List.map_cons, htexts, hnames]
    refine ⟨?_, rfl, List.forall_mem_cons.mpr ⟨⟨rfl, hdot⟩, hall⟩⟩
    rw [Group.aidText, ← htext]

theorem aids_text : aids.map Group.aidText = android_groups := by
  unfold aids
  exact (filterMap_toAid android_groups_isAid.1).1

theorem aids_name : aids.map Group.name = android_groups.map (column 1) := by
  unfold aids
  exact (filterMap_toAid android_groups_isAid.1).2.1

theorem aids_empty : ∀ aid ∈ aids, aid.members = [] ∧ '.' ∉ aid.name := by
  unfold aids
  exact (filterMap_toAid android_groups_isAid.1).2.2

theorem aids_nodup : (aids.map Group.name).Nodup := by
  rw [aids_name]
  exact android_groups_isAid.2

theorem addAids_line {as : List Group} (has : ∀ aid ∈ as, aid.members = [] ∧ '.' ∉ aid.name)
    (files : Files) {groups : List Group} (h : files.group = groups.map Group.line) :
    ((as.map Group.aidText).foldl sh.addAid files).group =
      (upsertAll Group.name groups as).map Group.line := by
  induction as generalizing files groups with
  | nil => exact h
  | cons aid as ih =>
    obtain ⟨⟨hempty, hdot⟩, has⟩ := List.forall_mem_cons.mp has
    exact ih has _ (addAid_line sh files hdot hempty h)

theorem addUsers_line (pairs : List Pair) (groups : List Group) :
    (pairs.map Pair.text).foldl sh.addUser (groups.map Group.line) =
      (groups.map fun g => pairs.foldl Group.fill g).map Group.line := by
  induction pairs generalizing groups with
  | nil =>
    have hself : (groups.map fun g => [].foldl Group.fill g) = groups := List.map_id groups
    rw [hself]
    rfl
  | cons p pairs ih =>
    rw [List.map_cons, List.foldl_cons, addUser_line, ih, List.map_map, List.map_map, List.map_map]
    rfl

theorem Pair.text_plain (p : Pair) : Plain p.text :=
  List.forall_mem_append.mpr ⟨p.user_ok.avoids (by decide),
    List.forall_mem_cons.mpr ⟨by decide, p.group_ok.avoids (by decide)⟩⟩

theorem Pair.text_isWord (p : Pair) : IsWord p.text := by
  refine ⟨List.append_ne_nil_of_right_ne_nil _ (List.cons_ne_nil _ _), fun c hc => ?_⟩
  refine eq_false_of_ne_true fun hblank => p.text_plain c hc ?_
  simp only [isBlank, Bool.or_eq_true, decide_eq_true_eq] at hblank
  rcases hblank with (rfl | rfl) | rfl <;> decide

/-- The setting is read as the pairs in it. -/
theorem expand_pairs (pairs : List Pair) :
    sh.expand (PRIVILEGED_USERS pairs) = pairs.map Pair.text := by
  have hwords : words (PRIVILEGED_USERS pairs) = pairs.map Pair.text := by
    refine pieces_intercalate (by decide) fun word hword => ?_
    obtain ⟨p, -, rfl⟩ := List.mem_map.mp hword
    exact p.text_isWord
  have hglob : ∀ word ∈ pairs.map Pair.text, sh.glob word = [word] := by
    intro word hword
    obtain ⟨p, -, rfl⟩ := List.mem_map.mp hword
    exact sh.glob_plain _ p.text_plain
  rw [Shell.expand, hwords, List.flatMap_congr hglob, List.flatMap_singleton']

theorem PRIVILEGED_USERS_eq_nil_iff {pairs : List Pair} :
    PRIVILEGED_USERS pairs = [] ↔ pairs = [] := by
  refine ⟨fun h => by_contra fun hne => ?_, fun h => by rw [h]; rfl⟩
  refine intercalate_ne_nil (by simpa using hne) (fun word hword => ?_) h
  obtain ⟨p, -, rfl⟩ := List.mem_map.mp hword
  exact p.text_isWord.1

/-- **The function does this to the lines** of well-formed groups. -/
theorem do_configure_group (pairs : List Pair) (files : Files) {groups : List Group}
    (h : files.group = groups.map Group.line) :
    (sh.do_configure (PRIVILEGED_USERS pairs) files).group =
      (configure pairs groups).map Group.line := by
  obtain ⟨login_defs, group, passwd⟩ := files
  rw [Shell.do_configure, configure, expand_pairs, ← aids_text]
  dsimp only at h ⊢
  by_cases hnil : pairs = []
  · rw [if_pos (PRIVILEGED_USERS_eq_nil_iff.mpr hnil), if_pos hnil]
    exact h
  · rw [if_neg fun heq => hnil (PRIVILEGED_USERS_eq_nil_iff.mp heq), if_neg hnil]
    dsimp only
    rw [addAids_line sh aids_empty ⟨_, group, passwd⟩ h, addUsers_line]

end Anx.Cli.Aid
