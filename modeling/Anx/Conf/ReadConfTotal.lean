import Anx.Lib.Parts
import Anx.Conf.PrefStore

/-!
# Files that `readConf` reads

A profile comes from a repository or from an editor, so any text may stand in it. Each line
that is neither empty nor a comment is split at `=`, and the first two fields are taken.

- `Skips`, `Sets`, `HasValue`: a line without effect, a line for a key, and a line with two
  fields;
- `readConf_isSome_iff`: **reading does not throw exactly if all other lines have a value**;
- `Survives`: a line `KEY="value"` that no later one overrides; `getElem?_readConf`: what is
  returned for it;
- `Restores`: reading and restoring come to their end and return these lines;
- `restores_iff`: **they do so exactly if all lines have a value and none that survives has a
  `=` in its own.**
-/

namespace Anx.Conf

open Anx.Lib ParamUtils

/-- `restoreSettings`; `none` when it throws. -/
def PrefStore.restoreSettings {File : Type} (codec : Codec File) (s : PrefStore File) :
    Option (PrefStore File) :=
  (SETTINGS.restore codec s.settings s.cliConf).map fun settings => { s with settings }

namespace ParamUtils

/-! ## Lines -/

/-- An empty line or a comment. -/
def Skips (line : Text) : Prop := line.head? = some '#' ∨ line = []

instance (line : Text) : Decidable (Skips line) := inferInstanceAs (Decidable (_ ∨ _))

/-- The line is read for the key. -/
def Sets (key line : Text) : Prop := ¬ Skips line ∧ beforeEq line = key

/-- There is something other than `=` behind the first `=`. -/
def HasValue (line : Text) : Prop := ∃ c ∈ line.dropWhile (· ≠ '='), c ≠ '='

instance (line : Text) : Decidable (HasValue line) := inferInstanceAs (Decidable (∃ _ ∈ _, _))

/-- The first two fields of a line, if there are two. -/
theorem split_eq (line : Text) : (HasValue line ∧ ∃ value fields,
      split '=' line = beforeEq line :: value :: fields) ∨
    (¬ HasValue line ∧ (split '=' line).length < 2) := by
  by_cases heq : '=' ∈ line
  · obtain ⟨key, rest, rfl, hkey⟩ := List.eq_append_cons_of_mem heq
    have hall : ∀ c ∈ key, decide (c ≠ '=') = true :=
      fun c hc => decide_eq_true (ne_of_mem_of_not_mem hc hkey)
    have hbefore : beforeEq (key ++ '=' :: rest) = key := by
      rw [beforeEq, List.takeWhile_append_of_pos hall, List.takeWhile_cons_of_neg (by simp),
        List.append_nil]
    have hbehind : (key ++ '=' :: rest).dropWhile (· ≠ '=') = '=' :: rest := by
      rw [List.dropWhile_append_of_pos hall, List.dropWhile_cons_of_neg (by simp)]
    have hvalue : HasValue (key ++ '=' :: rest) ↔ parts '=' rest ≠ [] := by
      rw [HasValue, hbehind, Ne, parts_eq_nil_iff]
      simp
    have hsplit : split '=' (key ++ '=' :: rest) =
        if parts '=' rest = [] then parts '=' key else key :: parts '=' rest := by
      rw [split, if_pos heq]
      show parts '=' (key ++ '=' :: rest) = _
      rw [parts_append_sep, List.splitOn_eq_singleton hkey]
      rfl
    rw [hvalue, hsplit, hbefore]
    by_cases hrest : parts '=' rest = []
    · refine .inr ⟨not_not_intro hrest, ?_⟩
      rw [if_pos hrest]
      by_cases hempty : key = []
      · simp [hempty]
      · simp [parts_of_not_mem hempty hkey]
    · obtain ⟨value, fields, hfields⟩ := List.exists_cons_of_ne_nil hrest
      refine .inl ⟨hrest, value, fields, ?_⟩
      rw [if_neg hrest, hfields]
  · refine .inr ⟨?_, by simp [split, heq]⟩
    have hbehind : line.dropWhile (· ≠ '=') = [] := by
      rw [List.dropWhile_eq_nil_iff]
      exact fun c hc => decide_eq_true (ne_of_mem_of_not_mem hc heq)
    rw [HasValue, hbehind]
    simp

/-- **The loop body** throws exactly at a line without a value; it changes no other key than
that of the line. -/
theorem readLine_cases (map : ConfMap) (line : Text) :
    (Skips line ∧ readLine map line = some map) ∨
    (¬ Skips line ∧ HasValue line ∧ ∃ value, readLine map line =
      some (map.insert (beforeEq line) value)) ∨
    (¬ Skips line ∧ ¬ HasValue line ∧ readLine map line = none) := by
  by_cases hskip : Skips line
  · exact .inl ⟨hskip, if_pos hskip⟩
  · have hread : readLine map line =
        (readPair line).map fun pair => map.insert pair.1 pair.2 := if_neg hskip
    rw [hread, readPair]
    rcases split_eq line with ⟨hvalue, value, fields, hsplit⟩ | ⟨hvalue, hlen⟩
    · rw [hsplit]
      exact .inr (.inl ⟨hskip, hvalue, _, rfl⟩)
    · refine .inr (.inr ⟨hskip, hvalue, ?_⟩)
      -- one field or none
      rcases hsplit : split '=' line with _ | ⟨key, _ | ⟨value, fields⟩⟩
      · rfl
      · rfl
      · rw [hsplit, List.length_cons, List.length_cons] at hlen
        omega

/-! ## Files -/

theorem foldlM_isSome_iff (lines : List Text) (map : ConfMap) :
    (lines.foldlM readLine map).isSome ↔ ∀ line ∈ lines, Skips line ∨ HasValue line := by
  induction lines generalizing map with
  | nil => simp
  | cons line lines ih =>
    rw [List.foldlM_cons, List.forall_mem_cons]
    rcases readLine_cases map line with ⟨hskip, hread⟩ | ⟨hskip, hvalue, value, hread⟩ |
      ⟨hskip, hvalue, hread⟩
    · rw [hread]
      show (lines.foldlM readLine map).isSome ↔ _
      rw [ih, and_iff_right (Or.inl hskip)]
    · rw [hread]
      show (lines.foldlM readLine (map.insert (beforeEq line) value)).isSome ↔ _
      rw [ih, and_iff_right (Or.inr hvalue)]
    · rw [hread]
      exact iff_of_false (Bool.false_ne_true) fun h => h.1.elim hskip hvalue

/-- **Reading does not throw** exactly if each line is skipped or has a value. -/
theorem readConf_isSome_iff {file : Text} :
    (readConf file).isSome ↔ ∀ line ∈ readLines file, Skips line ∨ HasValue line :=
  foldlM_isSome_iff _ _

/-- Lines that do not set a key leave its value. -/
theorem getElem?_foldlM {lines : List Text} {map map' : ConfMap}
    (h : lines.foldlM readLine map = some map') {key : Text}
    (hother : ∀ line ∈ lines, ¬ Sets key line) : map'[key]? = map[key]? := by
  induction lines generalizing map with
  | nil =>
    cases h
    rfl
  | cons line lines ih =>
    obtain ⟨hline, hlines⟩ := List.forall_mem_cons.mp hother
    rw [List.foldlM_cons] at h
    obtain ⟨map₁, hread, hrest⟩ := Option.bind_eq_some_iff.mp h
    rw [ih hrest hlines]
    rcases readLine_cases map line with ⟨hskip, hread'⟩ | ⟨hskip, -, value, hread'⟩ |
      ⟨-, -, hread'⟩
    · cases hread.symm.trans hread'
      rfl
    · cases hread.symm.trans hread'
      have hne : beforeEq line ≠ key := fun heq => hline ⟨hskip, heq⟩
      rw [Std.ExtTreeMap.getElem?_insert, if_neg (by simpa using hne)]
    · cases hread.symm.trans hread'

/-- The file has the line `key="value"`, and no later line sets the key. -/
def Survives (file key value : Text) : Prop :=
  (IsKey key ∧ IsValue value) ∧ ∃ before after,
    readLines file = before ++ writePair key value :: after ∧ ∀ line ∈ after, ¬ Sets key line

/-- What is returned for a line that survives. -/
theorem getElem?_readConf {file key value : Text} {map : ConfMap}
    (h : readConf file = some map) (hline : Survives file key value) :
    map[key]? = some (beforeEq value) := by
  obtain ⟨⟨hkey, hvalue⟩, before, after, hlines, hafter⟩ := hline
  rw [readConf, hlines, List.foldlM_append] at h
  obtain ⟨map₁, -, h⟩ := Option.bind_eq_some_iff.mp h
  rw [List.foldlM_cons, readLine_writePair hkey hvalue] at h
  have hrest : after.foldlM readLine (map₁.insert key (beforeEq value)) = some map := h
  rw [getElem?_foldlM hrest hafter, Std.ExtTreeMap.getElem?_insert_self]

/-! ## Restoring -/

/-- Reading the file comes to its end and returns the lines that survive, and so does
restoring the settings or the current profile from it. -/
structure Restores (c : Context) (file : Text) : Prop where
  read : ∃ map, readConf file = some map ∧
    ∀ key value, Survives file key value → map[key]? = some value
  restoreSettings : ∀ s : PrefStore Text, s.cliConf = some file →
    (s.restoreSettings confFile).isSome
  restoreProperties : ∀ s : PrefStore Text, s.confs (s.getProfileName c) = some file →
    (s.restoreProperties confFile c).isSome

/-- Restoring a store from a file throws only in reading it. -/
theorem restore_isSome {file : Text} (h : (readConf file).isSome) (store : Store) (prefs : Prefs) :
    (store.restore confFile prefs (some file)).isSome := by
  show ((readConf file).map _).isSome
  rwa [Option.isSome_map]

/-- **Files that can be read and restored** are those in which each line is skipped or has
something other than `=` behind its first `=`, and the value of no line `KEY="value"` that is
not overridden has a `=`. -/
theorem restores_iff (c : Context) (file : Text) :
    Restores c file ↔ (∀ line ∈ readLines file, Skips line ∨ HasValue line) ∧
      ∀ key value, Survives file key value → '=' ∉ value := by
  constructor
  · rintro ⟨⟨map, hread, hget⟩, -, -⟩
    refine ⟨readConf_isSome_iff.mp (by rw [hread]; rfl), fun key value hline => ?_⟩
    have hsame := (getElem?_readConf hread hline).symm.trans (hget key value hline)
    exact beforeEq_eq_self_iff.mp (Option.some.inj hsame)
  · rintro ⟨hlines, hvalues⟩
    have hsome := readConf_isSome_iff.mpr hlines
    obtain ⟨map, hread⟩ := Option.isSome_iff_exists.mp hsome
    refine ⟨⟨map, hread, fun key value hline => ?_⟩, fun s hs => ?_, fun s hs => ?_⟩
    · rw [getElem?_readConf hread hline, beforeEq_eq_self_iff.mpr (hvalues key value hline)]
    · rw [PrefStore.restoreSettings, hs, Option.isSome_map]
      exact restore_isSome hsome _ _
    · rw [PrefStore.restoreProperties, hs, Option.isSome_map]
      exact restore_isSome hsome _ _

/-- A line without `=` makes reading throw. -/
theorem not_restores : ¬ ∀ (c : Context) (file : Text), Restores c file := by
  intro h
  obtain ⟨map, hread, -⟩ := (h PrefStore.phone "ARCH=\"arm\"\nlinux\n".toList).read
  have hsome : (readConf "ARCH=\"arm\"\nlinux\n".toList).isSome := by
    rw [hread]
    rfl
  exact absurd hsome (by decide)

end ParamUtils

end Anx.Conf
