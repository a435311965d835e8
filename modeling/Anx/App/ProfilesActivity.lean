import Mathlib.Data.List.Sort
import Anx.Lib.Machine
import Anx.Conf.Profiles

/-!
# The list of profiles

`ProfilesActivity` shows the profiles that have a file, with those that dialogs have added,
and works on the files by what its list and its dialogs hold.

- `ConfigDir`: the files in the directory of the profiles; `getProfiles`, `renameConf`,
  `removeConf`: what works on them;
- `ProfilesActivity`, `Dialog`: the list with its checked position, and what a dialog has
  from the time it was opened;
- `Action`, `step`, `machine`: dialogs, pauses and what other screens save, in any order;
- `Works`: an action is for the profile; `Safe`: it hits no other profile;
- `renameConf_keeps_iff`, `removeConf_keeps_iff`, `safe_action_iff`: what one call, and one action,
  keeps;
- `profilesKept_iff`: **no profile is destroyed by the work on others exactly if all actions are
  safe.**
-/

namespace Anx.App

open Anx.Lib Anx.Conf

/-! ## Files -/

/-- The directory of the profiles: files by name. Names are without `/`. -/
abbrev ConfigDir (File : Type) := Std.ExtTreeMap Text File compare

/-- The file name of a profile. -/
def confName (name : Text) : Text := name ++ ".conf".toList

namespace ConfigDir

variable {File : Type} (dir : ConfigDir File)

/-- The file of a profile. -/
def conf (name : Text) : Option File := dir[confName name]?

/-- The name of a profile from that of a file, up to the last dot. -/
def profileOf (filename : Text) : Text :=
  if '.' ∈ filename then (filename.rdropWhile (· ≠ '.')).dropLast else filename

/-- `getProfiles`, in any order; `listed` is false when the directory is not listed. -/
def getProfiles (listed : Bool) : List Text :=
  if listed then dir.keys.map profileOf else []

/-- `renameConf`: a file of the new name is replaced. -/
def renameConf (oldName newName : Text) (done : Bool) : ConfigDir File :=
  match dir.conf oldName with
  | some f => if done then (dir.erase (confName oldName)).insert (confName newName) f else dir
  | none => dir

/-- `removeConf`. -/
def removeConf (name : Text) (done : Bool) : ConfigDir File :=
  if done then dir.erase (confName name) else dir

end ConfigDir

/-! ## Names -/

/-- The UTF-16 code units of a character. -/
def utf16 (c : Char) : List Nat :=
  if c.toNat < 0x10000 then [c.toNat]
  else [0xD800 + (c.toNat - 0x10000) / 0x400, 0xDC00 + (c.toNat - 0x10000) % 0x400]

/-- The first list is not after the second one. -/
def notAfter : List Nat → List Nat → Bool
  | [], _ => true
  | _ :: _, [] => false
  | x :: xs, y :: ys => x < y || (x = y && notAfter xs ys)

/-- `Collections.sort`. -/
def sort (names : List Text) : List Text :=
  names.insertionSort fun a b => notAfter (a.flatMap utf16) (b.flatMap utf16) = true

def isNameChar (c : Char) : Bool :=
  ('A' ≤ c && c ≤ 'Z') || ('a' ≤ c && c ≤ 'z') || ('0' ≤ c && c ≤ '9') || c = '_' || c = '-'

/-- `replaceAll("[^A-Za-z0-9_\\-]", "_")`. -/
def sanitize (text : Text) : Text := text.map fun c => if isNameChar c then c else '_'

/-! ## The activity -/

/-- An open dialog with what it keeps from its opening. What `delete` has shown is not kept
by the code; it says which profile the dialog is for. -/
inductive Dialog where
  | add
  | edit (pos : Nat) (profileOld : Text)
  | delete (pos : Nat) (shown : Text)
deriving DecidableEq, Repr

inductive Phase where
  | resumed
  | paused
  | crashed
deriving DecidableEq, Repr

/-- The activity, with the preferences and the files. -/
structure ProfilesActivity (File : Type) where
  settings : Prefs
  properties : Prefs
  cliConf : Option File
  config : ConfigDir File
  listItems : List Text
  /-- `none` when nothing is checked, or the position -1. -/
  checked : Option Nat
  dialogs : List Dialog
  phase : Phase

inductive Action where
  /-- A new activity, when the user comes back or turns the screen. -/
  | create
  | resume (listed : Bool)
  | pause (password : Text)
  | check (pos : Nat)
  | addDialog
  | editDialog
  | deleteDialog
  /-- The positive button of the dialog in front; `done` is what its call on files returns,
  as far as there is something to do. -/
  | ok (text : Text) (done : Bool)
  | cancel
  /-- Another screen saves the current profile. -/
  | dumpProperties (password : Text)
deriving DecidableEq, Repr

namespace ProfilesActivity

variable {File : Type} (codec : Codec File) (c : Context)

/-- The preferences and the files, for the functions of `PrefStore`. -/
def prefStore (s : ProfilesActivity File) : PrefStore File where
  settings := s.settings
  properties := s.properties
  cliConf := s.cliConf
  confs := s.config.conf

/-- What such a function has left, with the file of the current profile. -/
def withPrefStore (s : ProfilesActivity File) (t : PrefStore File) : ProfilesActivity File :=
  { s with
    settings := t.settings
    properties := t.properties
    cliConf := t.cliConf
    config := match t.confs (t.getProfileName c) with
      | some f => s.config.insert (confName (t.getProfileName c)) f
      | none => s.config }

/-- `getPosition`. -/
def getPosition (listItems : List Text) (key : Text) : Option Nat :=
  if key ∈ listItems then some (listItems.idxOf key) else none

/-- The checked position, with the profile that stands there. -/
def checkedItem (s : ProfilesActivity File) : Option (Nat × Text) :=
  s.checked.bind fun pos => s.listItems[pos]?.map fun profile => (pos, profile)

/-- The list without the item that is deleted. -/
def removeItem (s : ProfilesActivity File) (pos : Nat) : ProfilesActivity File :=
  let listItems := s.listItems.eraseIdx pos
  if listItems = [] then { s with listItems := [(c.string PrefStore.profileKey).getD []] }
  else if pos > listItems.length - 1 then
    { s with listItems, checked := some (listItems.length - 1) }
  else { s with listItems }

/-- The listeners of the positive buttons. -/
def confirm (s : ProfilesActivity File) : Dialog → Text → Bool → ProfilesActivity File
  | .add, text, _ =>
    if text = [] then s else { s with listItems := s.listItems ++ [sanitize text] }
  | .edit pos profileOld, text, done =>
    let profileNew := sanitize text
    if text = [] ∨ profileOld = profileNew then s
    else
      let s := { s with config := s.config.renameConf profileOld profileNew done }
      -- the list may have been read again since
      if pos < s.listItems.length then { s with listItems := s.listItems.set pos profileNew }
      else { s with phase := .crashed }
  | .delete pos _, _, done =>
    match s.listItems[pos]? with
    | none => { s with phase := .crashed }
    | some key =>
      let s := s.removeItem c pos
      { s with config := s.config.removeConf key done }

/-- What the user and the system do. -/
def step (s : ProfilesActivity File) : Action → Option (ProfilesActivity File)
  | .create =>
    if s.phase = .resumed then none
    else some { s with listItems := [], checked := none, dialogs := [], phase := .paused }
  | .resume listed =>
    if s.phase = .paused then
      let profile := s.prefStore.getProfileName c
      let profiles := sort (s.config.getProfiles listed)
      let listItems := if profiles = [] then [profile] else profiles
      some { s with listItems, checked := getPosition listItems profile, phase := .resumed }
    else none
  | .pause password =>
    if s.phase = .resumed then
      let s := match s.checkedItem with
        | some (_, profile) =>
          s.withPrefStore c (s.prefStore.changeProfile codec c password profile)
        | none => s
      some { s with phase := .paused }
    else none
  | .check pos =>
    if s.phase = .resumed ∧ s.dialogs = [] ∧ pos < s.listItems.length then
      some { s with checked := some pos }
    else none
  | .addDialog =>
    if s.phase = .resumed then some { s with dialogs := .add :: s.dialogs } else none
  | .editDialog =>
    if s.phase = .resumed then
      match s.checkedItem with
      | some (pos, profileOld) => some { s with dialogs := .edit pos profileOld :: s.dialogs }
      | none => some s
    else none
  | .deleteDialog =>
    if s.phase = .resumed then
      match s.checkedItem with
      | some (pos, shown) => some { s with dialogs := .delete pos shown :: s.dialogs }
      | none => some s
    else none
  | .ok text done =>
    match s.phase, s.dialogs with
    | .resumed, dialog :: dialogs => some ({ s with dialogs }.confirm c dialog text done)
    | _, _ => none
  | .cancel =>
    match s.phase, s.dialogs with
    | .resumed, _ :: dialogs => some { s with dialogs }
    | _, _ => none
  | .dumpProperties password =>
    if s.phase = .resumed then none
    else some (s.withPrefStore c (s.prefStore.dumpProperties codec c password))

/-- All runs. -/
def machine : Machine (ProfilesActivity File) Action := ⟨step codec c⟩

/-- The file of a profile. -/
def conf (s : ProfilesActivity File) (name : Text) : Option File := s.config.conf name

/-- The action deletes or renames the profile, or rewrites it while it is current. -/
def Works (name : Text) (s : ProfilesActivity File) : Action → Prop
  | .ok text _ =>
    match s.dialogs with
    | .edit _ profileOld :: _ => profileOld = name ∧ text ≠ [] ∧ profileOld ≠ sanitize text
    | .delete _ shown :: _ => shown = name
    | _ => False
  | .dumpProperties _ => s.prefStore.getProfileName c = name
  | _ => False

/-- A profile with a file is not renamed to one that has another file, and a dialog does not
delete another file than that of the profile it was opened for. -/
def Safe (s : ProfilesActivity File) : Action → Prop
  | .ok text done =>
    match s.dialogs with
    | .edit _ profileOld :: _ => done = true → text ≠ [] → profileOld ≠ sanitize text →
        ∀ f, s.conf profileOld = some f → ∀ f', s.conf (sanitize text) = some f' → f' = f
    | .delete pos shown :: _ => done = true →
        ∀ key ∈ s.listItems[pos]?, key ≠ shown → s.conf key = none
    | _ => True
  | _ => True

end ProfilesActivity

/-! ## What happens to a file -/

variable {File : Type}

theorem confName_inj {name name' : Text} : confName name = confName name' ↔ name = name' :=
  List.append_left_inj _

namespace ConfigDir

variable {dir : ConfigDir File}

theorem conf_insert (name name' : Text) (f : File) :
    conf (dir.insert (confName name) f) name' =
      if name' = name then some f else dir.conf name' := by
  rw [conf, Std.ExtTreeMap.getElem?_insert]
  by_cases h : name' = name
  · subst h
    simp
  · have hne : confName name ≠ confName name' := fun heq => h (confName_inj.mp heq).symm
    simp [h, hne, conf]

theorem conf_erase (name name' : Text) :
    conf (dir.erase (confName name)) name' = if name' = name then none else dir.conf name' := by
  rw [conf, Std.ExtTreeMap.getElem?_erase]
  by_cases h : name' = name
  · subst h
    simp
  · have hne : confName name ≠ confName name' := fun heq => h (confName_inj.mp heq).symm
    simp [h, hne, conf]

/-- Renaming moves the file. -/
theorem conf_renameConf {oldName : Text} {f : File} (hf : dir.conf oldName = some f)
    (newName name : Text) : (dir.renameConf oldName newName true).conf name =
      if name = newName then some f else if name = oldName then none else dir.conf name := by
  rw [renameConf, hf]
  show conf ((dir.erase (confName oldName)).insert (confName newName) f) name = _
  rw [conf_insert, conf_erase]

theorem renameConf_none {oldName : Text} (hf : dir.conf oldName = none) (newName : Text)
    (done : Bool) : dir.renameConf oldName newName done = dir := by
  rw [renameConf, hf]

theorem renameConf_failed (oldName newName : Text) :
    dir.renameConf oldName newName false = dir := by
  rw [renameConf]
  split <;> rfl

theorem conf_removeConf (name name' : Text) (done : Bool) : (dir.removeConf name done).conf name' =
    if done = true ∧ name' = name then none else dir.conf name' := by
  rw [removeConf]
  cases done with
  | false => simp
  | true => simp [conf_erase]

/-- Renaming destroys nothing exactly if there is no other file of the new name. -/
theorem renameConf_keeps_iff {oldName newName : Text} (hne : oldName ≠ newName) (done : Bool) :
    (done = true → ∀ f, dir.conf oldName = some f → ∀ f', dir.conf newName = some f' → f' = f) ↔
      ∀ name f, dir.conf name = some f → oldName ≠ name →
        (dir.renameConf oldName newName done).conf name = some f := by
  cases done with
  | false =>
    refine iff_of_true (fun h => absurd h Bool.false_ne_true) fun name f hf _ => ?_
    rwa [renameConf_failed]
  | true =>
    cases hold : dir.conf oldName with
    | none =>
      refine iff_of_true (fun _ _ h => (nomatch h)) fun name f hf _ => ?_
      rwa [renameConf_none hold]
    | some g =>
      constructor
      · intro h name f hf hname
        rw [conf_renameConf hold, if_neg hname.symm]
        by_cases hnew : name = newName
        · rw [if_pos hnew, ← h rfl g rfl f (hnew ▸ hf)]
        · rw [if_neg hnew, hf]
      · rintro h - _ ⟨⟩ f' hnew
        have hkept := h newName f' hnew hne
        rw [conf_renameConf hold, if_pos rfl] at hkept
        exact (Option.some.inj hkept).symm

/-- Removing destroys nothing but `shown` exactly if it removes no other file. -/
theorem removeConf_keeps_iff (key shown : Text) (done : Bool) :
    (done = true → key ≠ shown → dir.conf key = none) ↔
      ∀ name f, dir.conf name = some f → shown ≠ name →
        (dir.removeConf key done).conf name = some f := by
  constructor
  · intro h name f hf hname
    rw [conf_removeConf, if_neg, hf]
    rintro ⟨hdone, rfl⟩
    rw [h hdone hname.symm] at hf
    cases hf
  · intro h hdone hkey
    rw [Option.eq_none_iff_forall_ne_some]
    intro f hf
    have hkept := h key f hf hkey.symm
    rw [conf_removeConf, if_pos ⟨hdone, rfl⟩] at hkept
    cases hkept

end ConfigDir

namespace ProfilesActivity

variable {codec : Codec File} {c : Context} {s t : ProfilesActivity File}

/-- The functions of `PrefStore` change at most the file of the profile that is current
then. -/
theorem conf_withPrefStore_of_ne {store : PrefStore File} {name : Text}
    (h : store.getProfileName c ≠ name) : (s.withPrefStore c store).conf name = s.conf name := by
  show ConfigDir.conf (match store.confs (store.getProfileName c) with
    | some f => s.config.insert (confName (store.getProfileName c)) f
    | none => s.config) name = _
  split
  · rw [ConfigDir.conf_insert, if_neg h.symm]
    rfl
  · rfl

/-- A change of the profile keeps its file, if there is one. -/
theorem conf_changeProfile {name : Text} {f : File} (hf : s.conf name = some f)
    (password profile : Text) :
    (s.withPrefStore c (s.prefStore.changeProfile codec c password profile)).conf name =
      some f := by
  have hcurrent : (s.prefStore.changeProfile codec c password profile).getProfileName c = profile :=
    PrefStore.changeProfile_current _ _ _
  by_cases hname : profile = name
  · subst hname
    have hfile : (s.prefStore.changeProfile codec c password profile).confs profile = some f := by
      rw [(PrefStore.changeProfile_existing codec c password (by
        show s.conf profile ≠ none
        rw [hf]
        exact Option.some_ne_none f)).2]
      exact hf
    show ConfigDir.conf (match (s.prefStore.changeProfile codec c password profile).confs
        ((s.prefStore.changeProfile codec c password profile).getProfileName c) with
      | some f => s.config.insert (confName _) f
      | none => s.config) profile = _
    rw [hcurrent, hfile, ConfigDir.conf_insert, if_pos rfl]
  · rw [conf_withPrefStore_of_ne (by rwa [hcurrent]), hf]

theorem config_removeItem (pos : Nat) : (s.removeItem c pos).config = s.config := by
  simp only [removeItem]
  split
  · rfl
  · split <;> rfl

theorem conf_confirm_add (text : Text) (done : Bool) (name : Text) :
    (s.confirm c .add text done).conf name = s.conf name := by
  simp only [confirm]
  split <;> rfl

theorem conf_confirm_edit {pos : Nat} {profileOld text : Text} (htext : text ≠ [])
    (hne : profileOld ≠ sanitize text) (done : Bool) (name : Text) :
    (s.confirm c (.edit pos profileOld) text done).conf name =
      (s.config.renameConf profileOld (sanitize text) done).conf name := by
  simp only [confirm, if_neg (not_or.mpr ⟨htext, hne⟩)]
  split <;> rfl

theorem conf_confirm_delete (pos : Nat) (shown text : Text) (done : Bool) (name : Text) :
    (s.confirm c (.delete pos shown) text done).conf name =
      match s.listItems[pos]? with
      | none => s.conf name
      | some key => (s.config.removeConf key done).conf name := by
  simp only [confirm]
  cases s.listItems[pos]? with
  | none => rfl
  | some key =>
    show ((s.removeItem c pos).config.removeConf key done).conf name = _
    rw [config_removeItem]

/-! ## Runs -/

/-- Only the positive button of a dialog works on more than the current profile. -/
theorem conf_step {a : Action} (h : step codec c s a = some t)
    (hok : ∀ text done, a ≠ .ok text done) {name : Text} {f : File} (hf : s.conf name = some f)
    (hnot : ¬ Works c name s a) :
    t.conf name = some f := by
  cases a with
  | ok text done => exact absurd rfl (hok text done)
  | create | resume listed | check pos | addDialog =>
    simp only [step, Option.ite_none_left_eq_some, Option.ite_none_right_eq_some,
      Option.some_inj] at h
    obtain ⟨-, rfl⟩ := h
    exact hf
  | editDialog | deleteDialog =>
    simp only [step, Option.ite_none_right_eq_some] at h
    obtain ⟨-, h⟩ := h
    cases hitem : s.checkedItem with
    | none =>
      rw [hitem] at h
      cases h
      exact hf
    | some item =>
      rw [hitem] at h
      cases h
      exact hf
  | cancel =>
    simp only [step] at h
    split at h
    · cases h
      exact hf
    · cases h
  | pause password =>
    simp only [step, Option.ite_none_right_eq_some, Option.some_inj] at h
    obtain ⟨-, rfl⟩ := h
    cases hitem : s.checkedItem with
    | none => exact hf
    | some item => exact conf_changeProfile hf password item.2
  | dumpProperties password =>
    simp only [step, Option.ite_none_left_eq_some, Option.some_inj] at h
    obtain ⟨-, rfl⟩ := h
    have hcurrent : (s.prefStore.dumpProperties codec c password).getProfileName c ≠ name := hnot
    rw [conf_withPrefStore_of_ne hcurrent, hf]

theorem ok_step {text : Text} {done : Bool} (h : step codec c s (.ok text done) = some t) :
    ∃ dialog dialogs, s.dialogs = dialog :: dialogs ∧
      t = { s with dialogs }.confirm c dialog text done := by
  simp only [step] at h
  split at h
  · next dialog dialogs _ hdialogs => exact ⟨dialog, dialogs, hdialogs, (Option.some.inj h).symm⟩
  · cases h

/-- **Safe actions** are those that keep the files of all profiles they are not for. -/
theorem safe_action_iff {a : Action} (h : step codec c s a = some t) :
    Safe s a ↔ ∀ name f, s.conf name = some f → ¬ Works c name s a → t.conf name = some f := by
  by_cases hok : ∀ text done, a ≠ .ok text done
  · have hsafe : Safe s a := by
      cases a with
      | ok text done => exact absurd rfl (hok text done)
      | _ => trivial
    exact iff_of_true hsafe fun name f => conf_step h hok
  · simp only [not_forall, not_not] at hok
    obtain ⟨text, done, rfl⟩ := hok
    obtain ⟨dialog, dialogs, hdialogs, rfl⟩ := ok_step h
    cases dialog with
    | add =>
      simp only [Safe, hdialogs, conf_confirm_add]
      exact iff_of_true trivial fun name f hf _ => hf
    | edit pos profileOld =>
      simp only [Safe, Works, hdialogs]
      by_cases hsame : text = [] ∨ profileOld = sanitize text
      · -- there is nothing to rename
        refine iff_of_true (fun _ htext hne => absurd hsame (not_or.mpr ⟨htext, hne⟩)) ?_
        intro name f hf _
        simp only [confirm, if_pos hsame]
        exact hf
      · obtain ⟨htext, hne⟩ := not_or.mp hsame
        simp only [conf_confirm_edit htext hne, ne_eq, htext, hne, not_false_eq_true, and_true,
          forall_const]
        exact ConfigDir.renameConf_keeps_iff hne done
    | delete pos shown =>
      simp only [Safe, Works, hdialogs, conf_confirm_delete]
      cases s.listItems[pos]? with
      | none => exact iff_of_true (fun _ _ h => (nomatch h)) fun name f hf _ => hf
      | some key =>
        simp only [Option.mem_def, Option.some_inj, forall_eq']
        exact ConfigDir.removeConf_keeps_iff key shown done

/-- **Profiles are not destroyed** by the work on others, in any stretch of a run, exactly if
no profile is renamed to one that has another file, and no dialog deletes the file of another
profile than it was opened for. -/
theorem profilesKept_iff (codec : Codec File) (c : Context) (s : ProfilesActivity File)
    (as : List Action) :
    (machine codec c).Keeps conf (Works c) s as ↔ (machine codec c).Guarded Safe s as :=
  Machine.keeps_iff_guarded fun _ _ _ => safe_action_iff

/-- A new activity, with the profiles `a` and `b`. -/
def twoProfiles : ProfilesActivity Text where
  settings := ∅
  properties := ∅
  cliConf := none
  config := .ofList [("a.conf".toList, "ARCH=\"arm\"\n".toList),
    ("b.conf".toList, "ARCH=\"i386\"\n".toList)]
  listItems := []
  checked := none
  dialogs := []
  phase := .paused

/-- Renaming `a` to `b` replaces the file of `b`. -/
theorem not_profilesKept : ¬ ∀ (codec : Codec Text) (c : Context) (s : ProfilesActivity Text)
    (as : List Action), (machine codec c).Keeps conf (Works c) s as := by
  intro h
  have hfile : twoProfiles.conf "b".toList = some "ARCH=\"i386\"\n".toList := by decide
  obtain ⟨t, hrun, ht⟩ : ∃ t, (machine confFile PrefStore.phone).exec twoProfiles
      [.resume true, .check 0, .editDialog, .ok "b".toList true] = some t ∧
      t.conf "b".toList = some "ARCH=\"arm\"\n".toList := ⟨_, rfl, by decide⟩
  have hkept := h confFile PrefStore.phone twoProfiles _ [] _ [] twoProfiles t rfl rfl hrun
    "b".toList _ hfile ?_
  · rw [ht] at hkept
    exact absurd hkept (by decide)
  · -- the last action is for `a`, the others for no profile
    rintro _ ⟨⟩
    refine ⟨id, ?_⟩
    rintro _ ⟨⟩
    refine ⟨id, ?_⟩
    rintro _ ⟨⟩
    refine ⟨id, ?_⟩
    rintro _ -
    refine ⟨fun hworks => absurd hworks.1 (by decide), trivial⟩

end ProfilesActivity

end Anx.App
