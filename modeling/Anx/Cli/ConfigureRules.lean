import Mathlib.Data.Fintype.Basic
import Anx.Cli.Configure
import Anx.Lib.Rules

/-!
# The files of the components

Every component of core that is modelled makes its files from what stood in them, and from
files that none of the components changes.

- `written`, `appended`, `linked`, `contains`, `ensured`: what a command makes of a file, and
  what `grep` finds in it;
- `Target`, `Setup.path`, `Setup.content`: the files that the components change, and what
  becomes of them;
- `Setup.rules`: a rule for each of them;
- `Setup.outside`: the files but those that `localedef` may make in the container;
- `outside_do_configure`, `outside_configureAll`: **the functions apply the rules** of their
  files, up to what `localedef` makes.
-/

namespace Anx.Cli.Configure

open Anx.Lib

/-! ## Single files -/

namespace Setup

variable (c : Setup)

/-- A file after `> path`. -/
def written (path text : Text) (old : Option Text) : Option Text :=
  if old.isSome || c.hasDir (dirName path) then some text else old

/-- A file after `>> path`. -/
def appended (path text : Text) (old : Option Text) : Option Text :=
  if old.isSome || c.hasDir (dirName path) then some (old.getD [] ++ text) else old

/-- A file after `ln -sf target path`. -/
def linked (target path : Text) (old : Option Text) : Option Text :=
  if old.isSome || c.hasDir (dirName path) then c.host target else old

/-- `grep` finds the pattern in the file. -/
def contains (pattern : Text) (old : Option Text) : Bool :=
  (fileLines (old.getD [])).any (grep c.sh.grep pattern)

/-- A file to which a line is added, unless `grep` finds the pattern in it. -/
def ensured (pattern path text : Text) (old : Option Text) : Option Text :=
  if c.contains pattern old then old else c.appended path text old

variable {c} {path pattern text target : Text} {files : Files}

theorem write_eq :
    c.write path text files = Function.update files path (c.written path text (files path)) := by
  unfold write canWrite written
  split
  · rfl
  · exact (Function.update_eq_self path files).symm

theorem append_eq :
    c.append path text files = Function.update files path (c.appended path text (files path)) := by
  unfold append canWrite appended
  split
  · rfl
  · exact (Function.update_eq_self path files).symm

theorem ln_eq :
    c.ln target path files = Function.update files path (c.linked target path (files path)) := by
  unfold ln canWrite linked
  split
  · rfl
  · exact (Function.update_eq_self path files).symm

/-- A file that is removed and written. -/
theorem write_rm : c.write path text (rm path files) =
    Function.update files path (c.written path text none) := by
  rw [write_eq, rm, Function.update_self, Function.update_idem]

/-- A line that is added if it is not there. -/
theorem ensure_eq : (if c.grepQuiet pattern path files then files else c.append path text files) =
    Function.update files path (c.ensured pattern path text (files path)) := by
  unfold ensured
  by_cases h : c.contains pattern (files path) = true
  · have hgrep : c.grepQuiet pattern path files = true := h
    rw [if_pos hgrep, if_pos h, Function.update_eq_self]
  · have hgrep : ¬ c.grepQuiet pattern path files = true := h
    rw [if_neg hgrep, if_neg h, append_eq]

end Setup

/-- `sed` does nothing to a file that is not there. -/
theorem sed_if_isSome (edit : List Text → List Text) (path : Text) (files : Files) :
    (if (files path).isSome then sed edit path files else files) = sed edit path files := by
  cases h : files path with
  | some content => rfl
  | none => rw [sed, h, Option.map_none, ← h, Function.update_eq_self, ite_self]

/-! ## The files -/

/-- The files that the components change. -/
inductive Target where
  | hostname
  | hosts
  | locale
  | mtab
  | motd
  | resolv
  | nsswitch
  | su
  | su_l
  | sudoers
  | sudo_sh
  | localtime
  | timezone
  | unchroot
deriving DecidableEq, Repr

namespace Target

instance : Fintype Target :=
  .ofList [hostname, hosts, locale, mtab, motd, resolv, nsswitch, su, su_l, sudoers, sudo_sh,
    localtime, timezone, unchroot] fun i => by cases i <;> decide

/-- The paths of the files, with that of the locale. -/
def pathWith (localeFile : Text) : Target → Text
  | hostname => "/etc/hostname".toList
  | hosts => "/etc/hosts".toList
  | locale => localeFile
  | mtab => "/etc/mtab".toList
  | motd => "/etc/motd".toList
  | resolv => "/etc/resolv.conf".toList
  | nsswitch => "/etc/nsswitch.conf".toList
  | su => "/etc/pam.d/su".toList
  | su_l => "/etc/pam.d/su-l".toList
  | sudoers => "/etc/sudoers".toList
  | sudo_sh => "/etc/profile.d/sudo.sh".toList
  | localtime => "/etc/localtime".toList
  | timezone => "/etc/timezone".toList
  | unchroot => "/sbin/unchroot".toList

end Target

/-- The files of a component. -/
def Component.targets : Component → List Target
  | hostname => [.hostname]
  | hosts => [.hosts]
  | locale => [.locale]
  | mnt => [.mtab]
  | motd => [.motd]
  | net => [.resolv, .nsswitch]
  | su => [.su, .su_l]
  | sudoers => [.sudoers, .sudo_sh]
  | timezone => [.localtime, .timezone]
  | unchroot => [.unchroot]

/-- The files of the locale, and a path that stands for none of them. -/
def localeFiles : List Text :=
  ["/etc/default/locale".toList, "/etc/locale.conf".toList, "/etc/sysconfig/i18n".toList,
    "/etc/profile.d/lang.sh".toList, []]

namespace Setup

variable (c : Setup)

/-- The path of a file; a distribution without a file of the locale has the empty one. -/
def path (i : Target) : Text := i.pathWith (c.localeFile.getD [])

/-- What core/su makes of a file. -/
def withSu (old : Option Text) : Option Text :=
  if c.contains suPattern old then old else old.map (editLines suEdit)

/-- What core/locale makes of its file. -/
def withLocale (old : Option Text) : Option Text :=
  match c.localeFile with
  | none => old
  | some path =>
    if c.DISTRIB = "slackware".toList then old.map (editLines (List.map c.exportLang))
    else c.written path (c.sh.echo ["LANG=".toList ++ c.localeText]) old

/-- What becomes of a file, with what stood in it. -/
def content (files : Files) (old : Option Text) (i : Target) : Option Text :=
  match i with
  | .hostname => c.written "/etc/hostname".toList (c.sh.echo ["localhost".toList]) old
  | .hosts => c.ensured "^127.0.0.1".toList "/etc/hosts".toList
      (c.sh.echo ["127.0.0.1 localhost".toList]) old
  | .locale => c.withLocale old
  | .mtab =>
    if c.METHOD = "proot".toList then c.linked "/proc/mounts".toList "/etc/mtab".toList old
    else c.written "/etc/mtab".toList c.mtabText none
  | .motd => c.written "/etc/motd".toList (c.motdText files) none
  | .resolv => c.written "/etc/resolv.conf".toList c.resolvText old
  | .nsswitch => old.map (editLines (List.map (removeWord "systemd".toList 0)))
  | .su => c.withSu old
  | .su_l => c.withSu old
  | .sudoers => c.ensured c.sudo_str "/etc/sudoers".toList (c.sh.echo (c.sh.expand c.sudo_str)) old
  | .sudo_sh =>
    if c.hasDir "/etc/profile.d/".toList then
      c.written "/etc/profile.d/sudo.sh".toList c.sudoText old
    else old
  | .localtime =>
    if c.timezoneName = [] then old
    else (files c.zoneinfo).bind fun content => c.written "/etc/localtime".toList content none
  | .timezone =>
    if c.timezoneName = [] then old
    else c.written "/etc/timezone".toList (c.sh.echo (c.sh.expand c.timezoneName)) old
  | .unchroot => c.written "/sbin/unchroot".toList c.unchrootText old

end Setup

/-! ## The rules -/

theorem localeFile_mem (c : Setup) : c.localeFile.getD [] ∈ localeFiles := by
  unfold Setup.localeFile
  split_ifs <;> decide

/-- Different files have different paths. -/
theorem pathWith_injective : ∀ localeFile ∈ localeFiles, ∀ i j : Target,
    i.pathWith localeFile = j.pathWith localeFile → i = j := by
  decide +kernel

/-- The files that are read besides. -/
def releaseFiles : List Text :=
  ["/etc/os-release".toList, "/etc/gentoo-release".toList, "/etc/fedora-release".toList,
    "/etc/redhat-release".toList, "/etc/centos-release".toList, "/etc/arch-release".toList,
    "/etc/debian_version".toList]

/-- Where `localedef` makes its files. -/
def localeDir : Text := "/usr/lib/locale/".toList

/-- What a component reads besides its own files. -/
def IsRead (path : Text) : Prop := path ∈ releaseFiles ∨ "/usr/share/zoneinfo/".toList <+: path

instance (path : Text) : Decidable (IsRead path) := inferInstanceAs (Decidable (_ ∨ _))

/-- No component changes what tells the name of the system or a time zone, or what `localedef`
makes. -/
theorem pathWith_other : ∀ localeFile ∈ localeFiles, ∀ i : Target,
    ¬ IsRead (i.pathWith localeFile) ∧ ¬ localeDir <+: i.pathWith localeFile := by
  decide +kernel

/-- Nor does `localedef` make what tells them. -/
theorem IsRead.not_localeDir {path : Text} (h : IsRead path) : ¬ localeDir <+: path := by
  rcases h with hrelease | hzone
  · have hall : ∀ path ∈ releaseFiles, ¬ localeDir <+: path := by decide
    exact hall path hrelease
  · intro hlocale
    have hboth := List.prefix_or_prefix_of_prefix hzone hlocale
    revert hboth
    decide

namespace Setup

variable {c : Setup}

theorem path_injective : Function.Injective c.path :=
  fun i j h => pathWith_injective _ (localeFile_mem c) i j h

theorem linux_version_congr {files files' : Files}
    (h : ∀ path ∈ releaseFiles, files path = files' path) :
    c.linux_version files = c.linux_version files' := by
  have hreleases : releases.findSome? files = releases.findSome? files' := by
    have hmem : ∀ path ∈ releases, path ∈ releaseFiles := by decide
    unfold releases at hmem ⊢
    simp only [List.forall_mem_cons] at hmem
    simp only [List.findSome?_cons, h _ hmem.1, h _ hmem.2.1, h _ hmem.2.2.1, h _ hmem.2.2.2.1]
    rfl
  unfold linux_version
  rw [hreleases, h "/etc/os-release".toList (by decide), h "/etc/arch-release".toList (by decide),
    h "/etc/debian_version".toList (by decide)]

/-- A file is made from what stood in it, and from what tells the name of the system and the
time zone. -/
theorem content_congr {files files' : Files} (i : Target) (old : Option Text)
    (h : ∀ path, IsRead path → files path = files' path) :
    c.content files old i = c.content files' old i := by
  cases i with
  | motd =>
    have hversion : c.linux_version files = c.linux_version files' :=
      linux_version_congr fun path hpath => h path (.inl hpath)
    simp only [content, motdText, hversion]
  | localtime =>
    have hzone : files c.zoneinfo = files' c.zoneinfo := h _ (.inr (List.prefix_append _ _))
    simp only [content, hzone]
  | hostname | hosts | locale | mtab | resolv | nsswitch | su | su_l | sudoers | sudo_sh
  | timezone | unchroot => rfl

/-- What the components make of their files. -/
def rules (c : Setup) : Rules Target Text (Option Text) where
  key := c.path
  value i files := c.content files (files (c.path i)) i
  key_injective := path_injective
  value_local i files files' h := by
    have hown : files (c.path i) = files' (c.path i) :=
      h _ fun j hji heq => hji (path_injective heq)
    rw [hown]
    refine content_congr i _ fun path hpath => h path fun j _ heq => ?_
    have hread : IsRead (c.path j) := heq.symm ▸ hpath
    exact (pathWith_other _ (localeFile_mem c) j).1 hread

theorem rules_apply (files : Files) (i : Target) : c.rules.apply files i =
    Function.update files (c.path i) (c.content files (files (c.path i)) i) := rfl

/-! ## The functions -/

theorem locale_eq (files : Files) :
    c.locale files = c.rules.apply (c.localedef files) .locale := by
  rw [rules_apply]
  show _ = Function.update (c.localedef files) (c.localeFile.getD [])
    (c.withLocale (c.localedef files (c.localeFile.getD [])))
  unfold locale withLocale
  dsimp only
  cases c.localeFile with
  | none => exact (Function.update_eq_self _ _).symm
  | some path =>
    dsimp only [Option.getD_some]
    split
    · rfl
    · exact write_eq

theorem mnt_eq (files : Files) : c.mnt files = c.rules.apply files .mtab := by
  rw [rules_apply]
  unfold mnt
  simp only [content]
  split
  · exact ln_eq
  · exact write_rm

theorem addSu_eq (files : Files) (item : Text) :
    c.addSu files item = Function.update files item (c.withSu (files item)) := by
  unfold withSu
  by_cases h : c.contains suPattern (files item) = true
  · have hgrep : c.grepQuiet suPattern item files = true := h
    rw [addSu, if_pos hgrep, ite_self, if_pos h, Function.update_eq_self]
  · have hgrep : ¬ c.grepQuiet suPattern item files = true := h
    rw [addSu, if_neg hgrep, sed_if_isSome, if_neg h]
    rfl

theorem net_eq (files : Files) :
    c.net files = c.rules.apply (c.rules.apply files .resolv) .nsswitch := by
  have hresolv : c.write "/etc/resolv.conf".toList c.resolvText files =
      c.rules.apply files .resolv := write_eq
  unfold net
  rw [hresolv]
  exact sed_if_isSome _ _ _

theorem sudoers_eq (files : Files) :
    c.sudoers files = c.rules.apply (c.rules.apply files .sudoers) .sudo_sh := by
  have hrule : (if c.grepQuiet c.sudo_str "/etc/sudoers".toList files then files
      else c.append "/etc/sudoers".toList (c.sh.echo (c.sh.expand c.sudo_str)) files) =
      c.rules.apply files .sudoers := ensure_eq
  unfold sudoers
  rw [hrule, rules_apply _ .sudo_sh]
  simp only [content]
  split
  · exact write_eq
  · exact (Function.update_eq_self _ _).symm

theorem timezone_eq (files : Files) :
    c.timezone files = c.rules.apply (c.rules.apply files .localtime) .timezone := by
  rw [rules_apply, rules_apply]
  unfold timezone
  simp only [content]
  split
  · rw [Function.update_eq_self, Function.update_eq_self]
  · have hne : c.zoneinfo ≠ "/etc/localtime".toList := by
      intro heq
      have hprefix : "/usr/share/zoneinfo/".toList <+: c.zoneinfo := List.prefix_append _ _
      rw [heq] at hprefix
      revert hprefix
      decide
    have hzone : rm "/etc/localtime".toList files c.zoneinfo = files c.zoneinfo :=
      Function.update_of_ne hne _ _
    rw [hzone, write_eq]
    cases files c.zoneinfo with
    | none => rfl
    | some content =>
      dsimp only
      rw [write_rm]
      rfl

/-! ## What `localedef` makes -/

/-- `localedef` may have made the file. -/
def Made (c : Setup) (path : Text) : Prop := c.hasCharmap = true ∧ localeDir <+: path

instance (path : Text) : Decidable (c.Made path) := inferInstanceAs (Decidable (_ ∧ _))

/-- The other files. -/
def outside (c : Setup) (files : Files) : Files := fun path =>
  if c.Made path then none else files path

/-- `localedef` makes files in its own directory only. -/
def LocaledefKeeps (c : Setup) : Prop :=
  ∀ files path, ¬ localeDir <+: path → c.localedef files path = files path

theorem eq_of_outside {files files' : Files} (h : c.outside files = c.outside files') {path : Text}
    (hpath : ¬ c.Made path) : files path = files' path := by
  have heq := congrFun h path
  rwa [outside, outside, if_neg hpath, if_neg hpath] at heq

theorem not_made_path (i : Target) : ¬ c.Made (c.path i) :=
  fun h => (pathWith_other _ (localeFile_mem c) i).2 h.2

theorem outside_localedef (h : c.LocaledefKeeps) (files : Files) :
    c.outside (c.localedef files) = c.outside files := by
  funext path
  by_cases hmade : c.Made path
  · rw [outside, outside, if_pos hmade, if_pos hmade]
  · rw [outside, outside, if_neg hmade, if_neg hmade]
    by_cases hcharmap : c.hasCharmap = true
    · exact h files path fun hdir => hmade ⟨hcharmap, hdir⟩
    · rw [localedef, if_neg hcharmap]

/-- A rule neither reads nor changes what `localedef` makes. -/
theorem outside_apply (files : Files) (i : Target) :
    c.outside (c.rules.apply files i) = c.rules.apply (c.outside files) i := by
  have hown : c.outside files (c.path i) = files (c.path i) := if_neg (not_made_path i)
  have hread : ∀ path, IsRead path → c.outside files path = files path :=
    fun path hread => if_neg fun hmade => hread.not_localeDir hmade.2
  rw [rules_apply, rules_apply, hown, content_congr i _ hread]
  funext path
  by_cases hpath : path = c.path i
  · subst hpath
    rw [outside, if_neg (not_made_path i), Function.update_self, Function.update_self]
  · rw [Function.update_of_ne hpath, outside, outside, Function.update_of_ne hpath]

theorem outside_applyAll (files : Files) (is : List Target) :
    c.outside (c.rules.applyAll files is) = c.rules.applyAll (c.outside files) is := by
  induction is generalizing files with
  | nil => rfl
  | cons i is ih => exact (ih _).trans (congrArg (c.rules.applyAll · is) (outside_apply files i))

/-- **A component applies the rules** of its files, up to what `localedef` makes. -/
theorem outside_do_configure (h : c.LocaledefKeeps) (component : Component) (files : Files) :
    c.outside (c.do_configure component files) =
      c.outside (c.rules.applyAll files component.targets) := by
  cases component with
  | locale =>
    show c.outside (c.locale files) = c.outside (c.rules.apply files .locale)
    rw [locale_eq, outside_apply, outside_localedef h, ← outside_apply]
  | hostname => exact congrArg _ write_eq
  | hosts => exact congrArg _ ensure_eq
  | mnt => exact congrArg _ (mnt_eq files)
  | motd => exact congrArg _ write_rm
  | net => exact congrArg _ (net_eq files)
  | su =>
    show c.outside (c.addSu (c.addSu files _) _) = _
    rw [addSu_eq, addSu_eq]
    rfl
  | sudoers => exact congrArg _ (sudoers_eq files)
  | timezone => exact congrArg _ (timezone_eq files)
  | unchroot => exact congrArg _ write_eq

/-- So do several components. -/
theorem outside_configureAll (h : c.LocaledefKeeps) (components : List Component) (files : Files) :
    c.outside (c.configureAll components files) =
      c.outside (c.rules.applyAll files (components.flatMap Component.targets)) := by
  induction components generalizing files with
  | nil => rfl
  | cons component components ih =>
    show c.outside (c.configureAll components (c.do_configure component files)) = _
    rw [ih, List.flatMap_cons, Rules.applyAll_append, outside_applyAll, outside_applyAll,
      outside_do_configure h]

end Setup

end Anx.Cli.Configure
