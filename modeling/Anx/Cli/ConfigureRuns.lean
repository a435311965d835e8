import Anx.Cli.ConfigureRules
import Anx.Cli.PrivilegedUsers

/-!
# Configuring again and again

`deploy -c` may be called any number of times, with any components. No component of core undoes
what another one has done, and a second run adds nothing to a file that it has made right.

- `Setup.Tidy`: the name of the user and four files are such that a component finds what it has
  added itself, and `localedef` keeps to its directory;
- `content_content`: **a second time changes nothing more**;
- `Reaches`: the calls run the `do_configure` of the component;
- `deploy_converges`: **what a container ends up with** depends only on which components were
  configured, not on the order of the calls and how many they were.
-/

namespace Anx.Cli.Configure

open Anx.Lib

/-! ## What a component finds again -/

namespace Setup

variable (c : Setup)

/-- A component that adds a line finds it afterwards: `grep` understands the name of the user,
`hosts` and `sudoers` have the pattern in them or end with a newline, and no `systemd` is left
or comes up in `nsswitch.conf`. What `localedef` makes is in its own directory. -/
structure Tidy (files : Files) : Prop where
  user_ne : c.USER_NAME ≠ []
  user_plain : Plain c.USER_NAME
  user_start : c.USER_NAME.head? ≠ some '-' ∧ c.USER_NAME.head? ≠ some '^'
  locale : c.DISTRIB = "slackware".toList → Sed.IsReplacement c.localeText
  hosts : c.contains "^127.0.0.1".toList (files "/etc/hosts".toList) = true ∨
    EndsLine ((files "/etc/hosts".toList).getD [])
  sudoers : c.contains c.sudo_str (files "/etc/sudoers".toList) = true ∨
    EndsLine ((files "/etc/sudoers".toList).getD [])
  nsswitch : ∀ content, files "/etc/nsswitch.conf".toList = some content →
    ∀ line ∈ content.splitOn '\n', ¬ "systemd".toList <:+: removeWord "systemd".toList 0 line
  localedef : c.LocaledefKeeps

variable {c} {files : Files} {old : Option Text} {path pattern text : Text}

theorem written_written : c.written path text (c.written path text old) =
    c.written path text old := by
  unfold written
  split <;> rfl

theorem linked_linked {target : Text} : c.linked target path (c.linked target path old) =
    c.linked target path old := by
  unfold linked
  split_ifs with hold hlink
  · rfl
  · -- nothing is there to link to
    simp only [Bool.or_eq_true, not_or, Option.not_isSome_iff_eq_none] at hlink
    rw [hlink.1]
  · rfl

/-- A line that `grep` finds is not added again. -/
theorem ensured_ensured {line : Text} (htext : text = line ++ ['\n']) (hline : '\n' ∉ line)
    (hfound : grep c.sh.grep pattern line = true)
    (hold : c.contains pattern old = true ∨ EndsLine (old.getD [])) :
    c.ensured pattern path text (c.ensured pattern path text old) =
      c.ensured pattern path text old := by
  by_cases hcontains : c.contains pattern old = true
  · have hself : c.ensured pattern path text old = old := if_pos hcontains
    rw [hself, hself]
  · have hadded : c.ensured pattern path text old = c.appended path text old := if_neg hcontains
    rw [hadded]
    by_cases hwrite : (old.isSome || c.hasDir (dirName path)) = true
    · have hcontent : c.appended path text old = some (old.getD [] ++ text) := if_pos hwrite
      rw [hcontent]
      refine if_pos ?_
      show (fileLines (old.getD [] ++ text)).any _ = true
      rw [htext, fileLines_append (hold.resolve_left hcontains) hline]
      simp [hfound]
    · have hself : c.appended path text old = old := if_neg hwrite
      rw [hself, hadded, hself]

/-! ### The lines of core/su -/

/-- Whether the line is one of those before which a line is added. -/
abbrev IsAuth (line : Text) : Prop := "auth".toList <+: line

theorem addAuth_of_isAuth {line : Text} (h : IsAuth line) : addAuth line = [suLine, line] :=
  if_pos h

theorem addAuth_of_not_isAuth {line : Text} (h : ¬ IsAuth line) : addAuth line = [line] :=
  if_neg h

theorem addToFirst_of_not_isAuth {line : Text} (h : ¬ IsAuth line) (lines : List Text) :
    addToFirst (line :: lines) = line :: addToFirst lines := by
  rw [addToFirst, if_neg h, addAuth_of_not_isAuth h]
  rfl

theorem mem_addAuth {line l : Text} (h : l ∈ addAuth line) : l = suLine ∨ l = line := by
  by_cases hauth : IsAuth line
  · rw [addAuth_of_isAuth hauth] at h
    simpa using h
  · rw [addAuth_of_not_isAuth hauth] at h
    exact .inr (List.mem_singleton.mp h)

theorem mem_addToFirst {lines : List Text} {l : Text} (h : l ∈ addToFirst lines) :
    l = suLine ∨ l ∈ lines := by
  induction lines with
  | nil => exact absurd h List.not_mem_nil
  | cons line lines ih =>
    rcases List.mem_append.mp h with hfirst | hrest
    · exact (mem_addAuth hfirst).imp_right fun heq => by simp [heq]
    · split at hrest
      · exact .inr (List.mem_cons_of_mem _ hrest)
      · exact (ih hrest).imp_right (List.mem_cons_of_mem _)

theorem mem_suEdit {lines : List Text} {l : Text} (h : l ∈ suEdit lines) :
    l = suLine ∨ l ∈ lines := by
  cases lines with
  | nil => exact absurd h List.not_mem_nil
  | cons line lines =>
    rcases List.mem_append.mp h with hfirst | hrest
    · exact (mem_addAuth hfirst).imp_right fun heq => by simp [heq]
    · exact (mem_addToFirst hrest).imp_right (List.mem_cons_of_mem _)

theorem addToFirst_eq {lines : List Text} :
    suLine ∈ addToFirst lines ∨ addToFirst lines = lines := by
  induction lines with
  | nil => exact .inr rfl
  | cons line lines ih =>
    by_cases hauth : IsAuth line
    · refine .inl (List.mem_append_left _ ?_)
      rw [addAuth_of_isAuth hauth]
      exact List.mem_cons_self
    · rw [addToFirst_of_not_isAuth hauth]
      exact ih.imp (List.mem_cons_of_mem _) (congrArg _)

/-- The line is added, or no line starts with `auth` and nothing changes. -/
theorem suEdit_eq {lines : List Text} : suLine ∈ suEdit lines ∨ suEdit lines = lines := by
  cases lines with
  | nil => exact .inr rfl
  | cons line lines =>
    by_cases hauth : IsAuth line
    · refine .inl (List.mem_append_left _ ?_)
      rw [addAuth_of_isAuth hauth]
      exact List.mem_cons_self
    · rw [suEdit, addAuth_of_not_isAuth hauth]
      exact addToFirst_eq.imp (List.mem_cons_of_mem _) (congrArg _)

theorem keepsEnd_suEdit : KeepsEnd suEdit := by
  have hempty : addAuth [] = [[]] := rfl
  have hrest : ∀ lines, addToFirst (lines ++ [[]]) = addToFirst lines ++ [[]] := by
    intro lines
    induction lines with
    | nil => rfl
    | cons line lines ih =>
      show addAuth line ++ _ = addAuth line ++ _ ++ [[]]
      rw [List.append_assoc]
      congr 1
      split
      · rfl
      · exact ih
  intro lines
  cases lines with
  | nil => rfl
  | cons line lines =>
    show addAuth line ++ addToFirst (lines ++ [[]]) = addAuth line ++ addToFirst lines ++ [[]]
    rw [hrest, List.append_assoc]

theorem grep_suLine : grep c.sh.grep suPattern suLine = true := rfl

/-- The line is not added again. -/
theorem withSu_withSu : c.withSu (c.withSu old) = c.withSu old := by
  by_cases hcontains : c.contains suPattern old = true
  · have hself : c.withSu old = old := if_pos hcontains
    rw [hself, hself]
  · have hedited : c.withSu old = old.map (editLines suEdit) := if_neg hcontains
    cases old with
    | none => rw [hedited]; exact hedited
    | some content =>
      have hcases : suLine ∈ suEdit (content.splitOn '\n') ∨ _ := suEdit_eq
      rcases hcases with hadded | hsame
      · rw [hedited, Option.map_some]
        refine if_pos ?_
        have hsplit : (editLines suEdit content).splitOn '\n' = suEdit (content.splitOn '\n') := by
          refine splitOn_editLines keepsEnd_suEdit (List.ne_nil_of_mem hadded) fun line hline => ?_
          rcases mem_suEdit hline with rfl | hmem
          · decide
          · exact newline_not_mem_of_mem_splitOn hmem
        refine List.any_eq_true.mpr ⟨suLine, ?_, grep_suLine⟩
        exact mem_fileLines_of_mem_splitOn (hsplit ▸ hadded) (by decide)
      · have hself : editLines suEdit content = content := by
          rw [editLines_eq keepsEnd_suEdit, hsame, List.intercalate_splitOn]
        have hcontent : c.withSu (some content) = some content := by
          rw [hedited, Option.map_some, hself]
        rw [hcontent, hcontent]

/-! ### The other files -/

/-- The rule of core/sudo is its own text, after the shell has split it. -/
theorem echo_sudo_str (h : c.Tidy files) :
    c.sh.echo (c.sh.expand c.sudo_str) = c.sudo_str ++ ['\n'] := by
  have hword : IsWord c.USER_NAME := by
    refine ⟨h.user_ne, fun ch hch => ?_⟩
    have hplain := h.user_plain ch hch
    simp only [List.mem_cons, not_or] at hplain
    simp [isBlank, hplain.1, hplain.2.1, hplain.2.2.1]
  have hwords : words c.sudo_str =
      [c.USER_NAME, "ALL=(ALL:ALL)".toList, "NOPASSWD:ALL".toList] := by
    show words (c.USER_NAME ++ ' ' :: ("ALL=(ALL:ALL)".toList ++ ' ' :: "NOPASSWD:ALL".toList)) = _
    rw [words_append_cons _ _ (by decide), words_append_cons _ _ (by decide),
      words_of_isWord hword, words_of_isWord (by decide), words_of_isWord (by decide)]
    rfl
  have hexpand : c.sh.expand c.sudo_str =
      [c.USER_NAME, "ALL=(ALL:ALL)".toList, "NOPASSWD:ALL".toList] := by
    rw [Aid.Shell.expand, hwords]
    simp only [List.flatMap_cons, List.flatMap_nil]
    rw [c.sh.glob_plain _ h.user_plain, c.sh.glob_plain _ (by decide),
      c.sh.glob_plain _ (by decide)]
    rfl
  rw [hexpand, c.sh.echo_eq]
  · rw [List.intercalate_cons_cons, List.intercalate_cons_cons, List.intercalate_singleton]
    simp [sudo_str]
  · refine List.forall_mem_cons.mpr ⟨fun hmem => ?_, by decide⟩
    exact h.user_plain '\\' hmem (by simp)
  · rintro a ha
    obtain rfl : c.USER_NAME = a := Option.some.inj ha
    exact h.user_start.1

/-- `grep` finds the rule with its own text. -/
theorem grep_sudo_str (h : c.Tidy files) : grep c.sh.grep c.sudo_str c.sudo_str = true := by
  have hself : ∀ p : Text, (∀ ch ∈ p, ch ∉ ['\\', '[', '*']) → StandsFor p p := by
    intro p hp
    induction p with
    | nil => exact .nil
    | cons ch p ih =>
      exact .one (hp ch List.mem_cons_self) (.inr rfl)
        (ih fun d hd => hp d (List.mem_cons_of_mem _ hd))
  have hname : StandsFor c.USER_NAME c.USER_NAME := by
    refine hself _ fun ch hch hmem => h.user_plain ch hch ?_
    revert hmem
    simp only [List.mem_cons, List.not_mem_nil, or_false]
    rintro (rfl | rfl | rfl) <;> simp
  obtain ⟨first, rest, hfirst⟩ := List.exists_cons_of_ne_nil h.user_ne
  have hhead : (c.USER_NAME ++ " ALL=(ALL:ALL) NOPASSWD:ALL".toList).head? = c.USER_NAME.head? := by
    rw [hfirst]
    rfl
  have hnewline : '\n' ∉ c.USER_NAME ++ " ALL=(ALL:ALL) NOPASSWD:ALL".toList := by
    intro hmem
    rcases List.mem_append.mp hmem with hmem | hmem
    · exact h.user_plain '\n' hmem (by simp)
    · exact absurd hmem (by decide)
  have hparse : parse " ALL=(ALL:ALL) NOPASSWD:ALL".toList =
      some ((" ALL=(ALL:ALL) NOPASSWD:ALL".toList.map .lit).map .one) := rfl
  exact hname.selected hparse (by decide) (by decide) (by decide) hnewline
    (hhead ▸ h.user_start.1) (hhead ▸ h.user_start.2) []

/-- A line of the locale is replaced. -/
theorem exportLang_eq (h : Sed.IsReplacement c.localeText) (line : Text) : c.exportLang line =
    if "export LANG=".toList <+: line then "export LANG=".toList ++ c.localeText else line := by
  have hname : Sed.IsReplacement "export LANG=".toList := by decide
  refine Sed.replaceLine_plain (by decide) (by decide) ?_ line
  exact fun ch hch => (List.mem_append.mp hch).elim (hname ch) (h ch)

/-- It is replaced by the same line again. -/
theorem withLocale_withLocale (h : c.Tidy files) :
    c.withLocale (c.withLocale old) = c.withLocale old := by
  unfold withLocale
  cases c.localeFile with
  | none => rfl
  | some path =>
    dsimp only
    split
    · next hslackware =>
      have hline := exportLang_eq (h.locale hslackware)
      cases old with
      | none => rfl
      | some content =>
        refine congrArg some (editLines_map_twice (hline []) fun line hmem => ?_)
        rw [hline line]
        split
        · refine ⟨fun hnewline => ?_, (hline _).trans (if_pos (List.prefix_append _ _))⟩
          rcases List.mem_append.mp hnewline with hnewline | hnewline
          · exact absurd hnewline (by decide)
          · exact h.locale hslackware '\n' hnewline (by simp)
        · next hstart =>
          exact ⟨newline_not_mem_of_mem_splitOn hmem, (hline _).trans (if_neg hstart)⟩
    · exact written_written

/-- **A second time changes nothing more.** -/
theorem content_content (h : c.Tidy files) (i : Target) :
    c.content files (c.content files (files (c.path i)) i) i =
      c.content files (files (c.path i)) i := by
  cases i with
  | hostname => exact written_written
  | hosts =>
    have hecho : c.sh.echo ["127.0.0.1 localhost".toList] =
        "127.0.0.1 localhost".toList ++ ['\n'] := c.sh.echo_eq _ (by decide) (by simp)
    exact ensured_ensured hecho (by decide) rfl h.hosts
  | locale => exact withLocale_withLocale h
  | mtab =>
    simp only [content]
    split
    · exact linked_linked
    · rfl
  | motd => rfl
  | resolv => exact written_written
  | nsswitch =>
    cases hold : files (c.path .nsswitch) with
    | none => rfl
    | some content =>
      refine congrArg some (editLines_map_twice rfl fun line hmem => ⟨fun hnewline => ?_, ?_⟩)
      · exact newline_not_mem_of_mem_splitOn hmem (removeWord_subset hnewline)
      · exact removeWord_of_not_infix (h.nsswitch content hold line hmem)
  | su => exact withSu_withSu
  | su_l => exact withSu_withSu
  | sudoers =>
    have hnewline : '\n' ∉ c.sudo_str := by
      intro hmem
      rcases List.mem_append.mp hmem with hmem | hmem
      · exact h.user_plain '\n' hmem (by simp)
      · exact absurd hmem (by decide)
    exact ensured_ensured (echo_sudo_str h) hnewline (grep_sudo_str h) h.sudoers
  | sudo_sh =>
    simp only [content]
    split
    · exact written_written
    · rfl
  | localtime =>
    simp only [content]
    split <;> rfl
  | timezone =>
    simp only [content]
    split
    · rfl
    · exact written_written
  | unchroot => exact written_written

theorem settled (h : c.Tidy files) (i : Target) : c.rules.Settled files i := by
  have hkey : c.rules.apply files i (c.path i) = c.content files (files (c.path i)) i :=
    Rules.apply_key
  show c.content (c.rules.apply files i) (c.rules.apply files i (c.path i)) i = _
  have hread : ∀ path, IsRead path → c.rules.apply files i path = files path :=
    fun path hread => Rules.apply_of_ne fun heq => by
      have hown : IsRead (c.rules.key i) := heq.symm ▸ hread
      exact (pathWith_other _ (localeFile_mem c) i).1 hown
  rw [hkey, content_congr i _ hread]
  exact content_content h i

end Setup

/-! ## Calls -/

section

variable {Dir : Type} {script : Dir → Option Component} {c : Setup}

/-- The calls run the `do_configure` of the component. -/
def Reaches (script : Dir → Option Component) (calls : List (Call Dir)) (component : Component) :
    Prop :=
  ∃ call ∈ calls, ∃ components, call.components script = some components ∧
    component ∈ components

theorem reaches_cons {call : Call Dir} {calls : List (Call Dir)} {components : List Component}
    (h : call.components script = some components) {component : Component} :
    Reaches script (call :: calls) component ↔
      component ∈ components ∨ Reaches script calls component := by
  simp only [Reaches, List.exists_mem_cons_iff, h, Option.some.injEq, exists_eq_left']

theorem not_reaches_nil {component : Component} : ¬ Reaches script [] component := by
  rintro ⟨call, hcall, -⟩
  exact List.not_mem_nil hcall

/-- The calls configure the components that they reach. -/
theorem deploy_eq {calls : List (Call Dir)} {files files' : Files}
    (h : c.deploy script calls files = some files') :
    ∃ components, files' = c.configureAll components files ∧
      ∀ component, component ∈ components ↔ Reaches script calls component := by
  induction calls generalizing files with
  | nil =>
    obtain rfl : files = files' := Option.some.inj h
    exact ⟨[], rfl, fun component => iff_of_false List.not_mem_nil not_reaches_nil⟩
  | cons call calls ih =>
    obtain ⟨files₁, hfiles₁, hrest⟩ := Option.bind_eq_some_iff.mp h
    obtain ⟨components, hcomponents, rfl⟩ := Option.map_eq_some_iff.mp hfiles₁
    obtain ⟨later, rfl, hlater⟩ := ih hrest
    refine ⟨components ++ later, List.foldl_append.symm, fun component => ?_⟩
    rw [List.mem_append, hlater, reaches_cons hcomponents]

/-- **What a container ends up with** depends only on the components that were configured: each
of their files is what the component makes of the files at first, whatever else is done and how
often, and no other file changes, up to the files that `localedef` makes. -/
theorem deploy_converges {files : Files} (htidy : c.Tidy files) {calls calls' : List (Call Dir)}
    {done done' : Files} (h : c.deploy script calls files = some done)
    (h' : c.deploy script calls' files = some done')
    (hsame : ∀ component, Reaches script calls component ↔ Reaches script calls' component) :
    (∀ path, ¬ c.Made path → done path = done' path) ∧
      (∀ component, Reaches script calls component → ∀ i ∈ component.targets,
        done (c.path i) = c.do_configure component files (c.path i)) ∧
      ∀ path, ¬ c.Made path → (∀ component, Reaches script calls component →
        ∀ i ∈ component.targets, c.path i ≠ path) → done path = files path := by
  obtain ⟨components, rfl, hcomponents⟩ := deploy_eq h
  obtain ⟨components', rfl, hcomponents'⟩ := deploy_eq h'
  have hdone := Setup.outside_configureAll htidy.localedef components files
  have hdone' := Setup.outside_configureAll htidy.localedef components' files
  refine ⟨fun path hmade => ?_, fun component hreached i hi => ?_, fun path hmade hpath => ?_⟩
  · have hrules : c.rules.applyAll files (components.flatMap Component.targets) =
        c.rules.applyAll files (components'.flatMap Component.targets) := by
      refine Rules.applyAll_congr_iff.mpr (Setup.settled htidy) _ _ fun i => ?_
      simp only [List.mem_flatMap, hcomponents, hcomponents', hsame]
    exact Setup.eq_of_outside (hdone.trans ((congrArg c.outside hrules).trans hdone'.symm)) hmade
  · have hmem : i ∈ components.flatMap Component.targets :=
      List.mem_flatMap.mpr ⟨component, (hcomponents component).mpr hreached, hi⟩
    have hnodup : component.targets.Nodup := by cases component <;> decide
    have hone := Setup.outside_do_configure htidy.localedef component files
    rw [Setup.eq_of_outside hdone (Setup.not_made_path i),
      Setup.eq_of_outside hone (Setup.not_made_path i)]
    exact (Rules.applyAll_key (.inl (Setup.settled htidy i)) hmem).trans
      (Rules.applyAll_key (.inr hnodup) hi).symm
  · rw [Setup.eq_of_outside hdone hmade]
    refine Rules.applyAll_of_ne fun i hi => ?_
    obtain ⟨component, hmem, hi⟩ := List.mem_flatMap.mp hi
    exact hpath component ((hcomponents component).mp hmem) i hi

/-- A shell without files to expand names to. -/
def plainShell : Shell where
  toShell := Aid.plainShell
  echo arguments := [' '].intercalate arguments ++ ['\n']
  echo_eq _ _ _ := rfl
  embed front value back := [front ++ value ++ back]
  embed_plain _ _ _ _ := rfl
  prettyName _ := []
  sedAll _ _ line := line

/-- A container with a user, and with a locale that `localedef` has to make. -/
def container : Setup where
  sh := plainShell
  host path := if path = "/proc/mounts".toList then some "proc /proc proc rw 0 0\n".toList else none
  getprop := none
  hasDir path := path ∈ ["/etc/".toList, "/etc/default/".toList, "/etc/pam.d/".toList]
  rootShell command files :=
    Function.update files "/usr/lib/locale/locale-archive".toList (some command)
  METHOD := "proot".toList
  CHROOT_DIR := "/data/local/mnt".toList
  DISTRIB := "debian".toList
  LOCALE := "en_US.UTF-8".toList
  LANG := []
  USER_NAME := "android".toList
  DNS := []
  PATH := "/system/bin".toList
  BOOTCLASSPATH := []
  ANDROID_DATA := "/data".toList
  EXTERNAL_STORAGE := "/sdcard".toList
  ANDROID_STORAGE := "/storage".toList

/-- Its files. -/
def rootfs : Files := fun path =>
  if path = "/etc/hosts".toList then some "::1 localhost\n".toList
  else if path = "/etc/pam.d/su".toList then some "auth required pam_wheel.so\n".toList
  else none

/-- Four components, without dependencies. -/
def coreTree : IncludeTree Component where
  dir name :=
    if name = "core/hosts".toList then some .hosts
    else if name = "core/locale".toList then some .locale
    else if name = "core/mnt".toList then some .mnt
    else if name = "core/su".toList then some .su
    else none
  conf _ := some ⟨none, none⟩
  names := []
  closed := by
    rintro c d f - hf w hw
    obtain rfl : (⟨none, none⟩ : Conf) = f := Option.some.inj hf
    exact absurd hw List.not_mem_nil

/-- `deploy -c` with names. -/
def deployCall (names : List Word) : Call Component where
  cli := ⟨coreTree, "debian".toList, "armhf".toList, "stable".toList, false, true, false, []⟩
  params_check _ := true
  names := names

def hostsWord : Word := ⟨"core/hosts".toList, by decide, by decide, by decide⟩

def localeWord : Word := ⟨"core/locale".toList, by decide, by decide, by decide⟩

def mntWord : Word := ⟨"core/mnt".toList, by decide, by decide, by decide⟩

def suWord : Word := ⟨"core/su".toList, by decide, by decide, by decide⟩

theorem container_localedefKeeps : container.LocaledefKeeps := by
  intro files path hpath
  have hcharmap : container.hasCharmap = true := by decide
  rw [Setup.localedef, if_pos hcharmap]
  refine Function.update_of_ne ?_ _ _
  rintro rfl
  exact hpath (by decide)

/-- The same four components, in two calls and in one. -/
def twoCalls : List (Call Component) :=
  [deployCall [localeWord, hostsWord], deployCall [suWord, mntWord, hostsWord]]

def oneCall : List (Call Component) := [deployCall [mntWord, hostsWord, localeWord, suWord]]

theorem deploy_converges_twice : ∃ done done',
    container.deploy some twoCalls rootfs = some done ∧
    container.deploy some oneCall rootfs = some done' ∧
    (∀ path, ¬ container.Made path → done path = done' path) ∧
    done "/etc/hosts".toList = some "::1 localhost\n127.0.0.1 localhost\n".toList ∧
    done "/etc/motd".toList = none := by
  have htidy : container.Tidy rootfs :=
    { user_ne := by decide
      user_plain := by decide
      user_start := by decide
      locale := fun h => absurd h (by decide)
      hosts := .inr (by decide)
      sudoers := .inr (by decide)
      nsswitch := fun content h => by
        have hnone : rootfs "/etc/nsswitch.conf".toList = none := rfl
        rw [hnone] at h
        cases h
      localedef := container_localedefKeeps }
  have hfirst : container.deploy some twoCalls rootfs =
      some (container.configureAll [.locale, .hosts, .su, .mnt, .hosts] rootfs) := rfl
  have hsecond : container.deploy some oneCall rootfs =
      some (container.configureAll [.mnt, .hosts, .locale, .su] rootfs) := rfl
  have hone : (deployCall [localeWord, hostsWord]).components some = some [.locale, .hosts] := rfl
  have hthen : (deployCall [suWord, mntWord, hostsWord]).components some =
      some [.su, .mnt, .hosts] := rfl
  have hall : (deployCall [mntWord, hostsWord, localeWord, suWord]).components some =
      some [.mnt, .hosts, .locale, .su] := rfl
  have hsame : ∀ component,
      Reaches some twoCalls component ↔ Reaches some oneCall component := by
    intro component
    rw [twoCalls, oneCall, reaches_cons hone, reaches_cons hthen, reaches_cons hall,
      or_iff_left not_reaches_nil, or_iff_left not_reaches_nil]
    cases component <;> decide
  obtain ⟨hequal, htargets, hothers⟩ := deploy_converges htidy hfirst hsecond hsame
  refine ⟨_, _, hfirst, hsecond, hequal, ?_, ?_⟩
  · have hreached : Reaches some twoCalls .hosts := (reaches_cons hone).mpr (.inl (by decide))
    exact (htargets .hosts hreached .hosts List.mem_cons_self).trans (by decide)
  · refine hothers _ (by decide) fun component hreached i hi => ?_
    have hcomponent : component ∈ [.mnt, .hosts, .locale, .su] :=
      ((reaches_cons hall).mp ((hsame component).mp hreached)).resolve_right not_reaches_nil
    clear hreached hfirst hsecond hsame hequal htargets hothers htidy
    revert hcomponent i
    cases component <;> decide

end

end Anx.Cli.Configure
