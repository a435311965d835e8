import Anx.Conf.PrefStore

/-!
# The shell of the generated scripts

`getShell` (PrefStore.java:406–427) goes through the directories of the setting `path`. It
keeps what it tries: after a search without success that is the shell of the last directory,
and not the one of the system.

- `getPath`, `getShell`, `mainScript`: the functions;
- `whichShell`: the shell of the first directory that has one, or the one of the system;
- `findShell_eq`: the loop in terms of the first directory with a shell and the last one;
- `findsShell_iff`: **when `getShell` finds the shell**.
-/

namespace Anx.Conf.PrefStore

open Anx.Lib Store PropertiesStore

def pathKey : Text := "path".toList

/-- The shell of the system. -/
def systemShell : Text := "/system/bin/sh".toList

/-- The shell in a directory. -/
def shellIn (dir : Text) : Text := dir ++ "/sh".toList

/-- The directory has a shell. -/
def hasShell (fileExists : Text → Bool) (dir : Text) : Bool := fileExists (shellIn dir)

/-- `getBinDir`. -/
def getBinDir (envDir : Text) : Text := envDir ++ "/bin".toList

/-- The loop of `getShell`, with what `shell` is set to. -/
def findShell (fileExists : Text → Bool) (shell : Text) : List Text → Text
  | [] => shell
  | p :: path => if fileExists (shellIn p) then shellIn p else findShell fileExists (shellIn p) path

section

variable {File : Type} (c : Context) (envDir : Text) (fileExists : Text → Bool)

/-- `getPath`. -/
def getPath (s : PrefStore File) : Text :=
  let path := SETTINGS.get c [] s.settings pathKey
  if path = [] then getBinDir envDir else path

/-- The directories that `getShell` goes through. -/
def shellDirs (s : PrefStore File) : List Text := split ':' (s.getPath c envDir)

/-- `getShell`. -/
def getShell (s : PrefStore File) : Text :=
  findShell fileExists systemShell (s.shellDirs c envDir)

/-- What `makeMainScript` writes. -/
def mainScript (s : PrefStore File) : Text :=
  "#!".toList ++ s.getShell c envDir fileExists ++ '\n' ::
    ("PATH=".toList ++ s.getPath c envDir ++ ":$PATH\n".toList ++
      "ENV_DIR=\"".toList ++ envDir ++ "\"\n. \"$\x7bENV_DIR\x7d/cli.sh\"\n".toList)

/-! ## What is looked for -/

/-- The shell of the first directory that has one, or else the one of the system. -/
def whichShell (dirs : List Text) : Text :=
  match dirs.find? (hasShell fileExists) with
  | some dir => shellIn dir
  | none => systemShell

/-- The interpreter of a script: what its first line has after `#!`. -/
def interpreter (script : Text) : Text := (script.drop 2).takeWhile (· ≠ '\n')

/-- `getShell` returns the shell that is looked for, which is there if that of the system is. -/
structure FindsShell (s : PrefStore File) : Prop where
  shell : s.getShell c envDir fileExists = whichShell fileExists (s.shellDirs c envDir)
  present : fileExists systemShell = true → fileExists (s.getShell c envDir fileExists) = true

end

/-! ## What is found -/

section

variable {fileExists : Text → Bool}

/-- The loop ends at the first directory with a shell, or else after the last one. -/
theorem findShell_eq (shell : Text) (dirs : List Text) : findShell fileExists shell dirs =
    match dirs.find? (hasShell fileExists) with
    | some dir => shellIn dir
    | none => (dirs.getLast?.map shellIn).getD shell := by
  induction dirs generalizing shell with
  | nil => rfl
  | cons p dirs ih =>
    have hstep : findShell fileExists shell (p :: dirs) =
        if hasShell fileExists p then shellIn p else findShell fileExists (shellIn p) dirs := rfl
    rw [hstep]
    by_cases hp : hasShell fileExists p = true
    · rw [if_pos hp, List.find?_cons_of_pos hp]
    · rw [if_neg hp, ih, List.find?_cons_of_neg hp]
      cases dirs with
      | nil => rfl
      | cons q dirs => rfl

theorem shellIn_inj {dir dir' : Text} : shellIn dir = shellIn dir' ↔ dir = dir' :=
  List.append_left_inj _

/-- The system has its shell in `/system/bin`. -/
theorem systemShell_eq : systemShell = shellIn "/system/bin".toList := by decide

/-- The first directory with a shell. -/
theorem whichShell_present {dirs : List Text} (h : fileExists systemShell = true) :
    fileExists (whichShell fileExists dirs) = true := by
  unfold whichShell
  cases hfind : dirs.find? (hasShell fileExists) with
  | some dir =>
    have hdir : hasShell fileExists dir = true := List.find?_some hfind
    exact hdir
  | none => exact h

theorem findShell_eq_whichShell_iff {dirs : List Text} :
    findShell fileExists systemShell dirs = whichShell fileExists dirs ↔
      (∃ dir ∈ dirs, hasShell fileExists dir = true) ∨ dirs = [] ∨
        dirs.getLast? = some "/system/bin".toList := by
  rw [findShell_eq, whichShell, ← List.find?_isSome]
  cases hfind : dirs.find? (hasShell fileExists) with
  | some dir => simp
  | none =>
    cases hlast : dirs.getLast? with
    | none =>
      have hnil : dirs = [] := List.getLast?_eq_none_iff.mp hlast
      simp [hnil]
    | some last =>
      have hne : dirs ≠ [] := by
        rintro rfl
        cases hlast
      show shellIn last = systemShell ↔ _
      rw [systemShell_eq, shellIn_inj]
      simp [hne]

end

section

variable {File : Type} (c : Context) (envDir : Text) (fileExists : Text → Bool)
  (s : PrefStore File)

/-- **`getShell` finds the shell exactly if a directory has one**, there is no directory, or
the last one is that of the system. -/
theorem findsShell_iff : s.FindsShell c envDir fileExists ↔
    (∃ dir ∈ s.shellDirs c envDir, hasShell fileExists dir = true) ∨
      s.shellDirs c envDir = [] ∨
      (s.shellDirs c envDir).getLast? = some "/system/bin".toList := by
  rw [← findShell_eq_whichShell_iff]
  constructor
  · exact fun h => h.shell
  · intro h
    refine ⟨h, fun hsystem => ?_⟩
    rw [getShell, h]
    exact whichShell_present hsystem

variable {c envDir fileExists s}

/-- A setting that lists directories. -/
theorem shellDirs_of_list {dirs : List Text} (hne : dirs ≠ [])
    (hdirs : ∀ dir ∈ dirs, dir ≠ [] ∧ ':' ∉ dir)
    (hpath : SETTINGS.get c [] s.settings pathKey = [':'].intercalate dirs) :
    s.shellDirs c envDir = dirs := by
  have hnil : [':'].intercalate dirs ≠ [] := by
    cases dirs with
    | nil => exact absurd rfl hne
    | cons dir dirs =>
      obtain ⟨rest, hrest⟩ := prefix_intercalate [':'] dir dirs
      rw [← hrest]
      exact fun hempty => (hdirs dir List.mem_cons_self).1 (List.append_eq_nil_iff.mp hempty).1
  unfold shellDirs getPath
  rw [hpath]
  dsimp only
  rw [if_neg hnil]
  exact split_intercalate hne hdirs

/-- The main script is run by the shell. -/
theorem interpreter_mainScript (h : '\n' ∉ s.getShell c envDir fileExists) :
    interpreter (s.mainScript c envDir fileExists) = s.getShell c envDir fileExists :=
  takeWhile_ne_append h _

/-- The interpreter of the main script is there, if the shell of the system is. -/
theorem FindsShell.interpreter (h : s.FindsShell c envDir fileExists)
    (hline : '\n' ∉ s.getShell c envDir fileExists) (hsystem : fileExists systemShell = true) :
    fileExists (PrefStore.interpreter (s.mainScript c envDir fileExists)) = true := by
  rw [interpreter_mainScript hline]
  exact h.present hsystem

end

/-- Preferences with a list of directories. -/
def withPath (path : Text) : PrefStore Text := { edited with
  settings := (∅ : Prefs).insert pathKey (.string path) }

/-- Only the system has a shell, but that of the last directory is returned. -/
theorem not_findsShell : ¬ ∀ (c : Context) envDir fileExists (s : PrefStore Text),
    s.FindsShell c envDir fileExists := by
  intro h
  have hfound := (h phone "/data/anx".toList (· = systemShell)
    (withPath "/data/local/bin".toList)).shell
  have hpath : SETTINGS.get phone [] (withPath "/data/local/bin".toList).settings pathKey =
      "/data/local/bin".toList := by
    simp [withPath, SETTINGS, Store.get, Store.value, PrefValue.toText]
  rw [getShell, shellDirs, getPath, hpath] at hfound
  exact absurd hfound (by decide)

end Anx.Conf.PrefStore
