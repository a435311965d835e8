import Mathlib.Logic.Function.Basic
import Anx.Conf.PropertiesStore

/-!
# Profiles in the preferences and in files

`PrefStore` (PrefStore.java:101–140, 510–632) keeps one profile in the preferences and
all of them in configuration files.

- `PrefStore`: the preferences and the files; profiles are known by name;
- `dumpProperties`, `restoreProperties`, `changeProfile`: what moves them;
- `isXserver`, `isFramebuffer`, `isXsdl`, `getMountsList`, `getXsdlDelay`: what reads them;
- `getAll_dump_restore`: **dumping and restoring the profile is the identity**, as far as
  `PROPERTIES.get` sees.
-/

namespace Anx.Conf

open Anx.Lib Store PropertiesStore

/-- The preferences of the app, the file of the settings and the files of the profiles. -/
structure PrefStore (File : Type) where
  settings : Prefs
  properties : Prefs
  cliConf : Option File
  confs : Text → Option File

namespace PrefStore

def profileKey : Text := "profile".toList

variable {File : Type} (codec : Codec File) (c : Context)

/-- `getProfileName`. -/
def getProfileName (s : PrefStore File) : Text := SETTINGS.get c [] s.settings profileKey

/-- `dumpSettings`. -/
def dumpSettings (s : PrefStore File) : PrefStore File :=
  { s with cliConf := some (SETTINGS.dump c [] codec s.settings) }

/-- `dumpProperties`. -/
def dumpProperties (password : Text) (s : PrefStore File) : PrefStore File :=
  let dumped := PROPERTIES.dump c password codec s.properties
  { s with confs := Function.update s.confs (s.getProfileName c) (some dumped) }

/-- `restoreProperties`; `none` when it throws. -/
def restoreProperties (s : PrefStore File) : Option (PrefStore File) :=
  let cleared := clear s.properties true
  (PROPERTIES.restore codec cleared (s.confs (s.getProfileName c))).map fun properties =>
    { s with properties }

/-- `changeProfile`. -/
def changeProfile (password profile : Text) (s : PrefStore File) : PrefStore File :=
  let s := { s with settings := SETTINGS.set s.settings profileKey profile }
  let s := s.dumpSettings codec c
  -- the preferences are emptied for a new profile only
  let confFile := s.getProfileName c
  if (s.confs confFile).isNone then
    let s := { s with properties := clear s.properties true }
    let dumped := PROPERTIES.dump c password codec s.properties
    { s with confs := Function.update s.confs confFile (some dumped) }
  else s

/-! ## Readers -/

def graphicsKey : Text := "graphics".toList
def x11SdlKey : Text := "x11_sdl".toList
def x11SdlDelayKey : Text := "x11_sdl_delay".toList

/-- `PROPERTIES.get(c, key)` of a parameter for which no password is generated. -/
def getProperty (s : PrefStore File) (key : Text) : Text := PROPERTIES.get c [] s.properties key

/-- `isXserver`. -/
def isXserver (s : PrefStore File) : Bool :=
  isTrue (s.getProperty c) isGuiKey && s.getProperty c graphicsKey = "x11".toList

/-- `isFramebuffer`. -/
def isFramebuffer (s : PrefStore File) : Bool :=
  isTrue (s.getProperty c) isGuiKey && s.getProperty c graphicsKey = "fb".toList

/-- `isXsdl`. -/
def isXsdl (s : PrefStore File) : Bool := isTrue (s.getProperty c) x11SdlKey

/-- `getMountsList`. -/
def getMountsList (s : PrefStore File) : List Text :=
  let str := s.getProperty c mountsKey
  if str = [] then [] else split ' ' str

/-- `Integer.parseInt` of an ASCII text; `none` when it throws. -/
def parseInt (s : Text) : Option Int :=
  let (sign, digits) : Int × Text := match s with
    | '-' :: digits => (-1, digits)
    | '+' :: digits => (1, digits)
    | digits => (1, digits)
  let n := sign * (digits.foldl (fun n d => 10 * n + (d.toNat - '0'.toNat)) 0 : Nat)
  if digits ≠ [] ∧ digits.all Char.isDigit ∧ -2147483648 ≤ n ∧ n ≤ 2147483647 then some n
  else none

/-- `getXsdlDelay`, in milliseconds: a text that is no number is replaced by the default
one; `none` when that is no number either. -/
def getXsdlDelay (s : PrefStore File) : Option (Int32 × PrefStore File) :=
  match parseInt (s.getProperty c x11SdlDelayKey) with
  | some deplayInt => some (Int32.ofInt deplayInt * 1000, s)
  | none =>
    let delay := (c.string x11SdlDelayKey).getD []
    (parseInt delay).map fun deplayInt =>
      (Int32.ofInt deplayInt * 1000,
        { s with properties := PROPERTIES.set s.properties x11SdlDelayKey delay })

variable {codec : Codec File} {c : Context}

/-! ## Dump and restore -/

/-- What is restored from a file of the properties. -/
theorem restoreProperties_dumpProperties {password : Text} {s : PrefStore File}
    (hcodec : codec.readConf (codec.writeConf (PROPERTIES.getAll c password s.properties)) =
      some (PROPERTIES.getAll c password s.properties)) :
    (s.dumpProperties codec c password).restoreProperties codec c =
      some { s.dumpProperties codec c password with
        properties := PROPERTIES.setAll ∅ (PROPERTIES.getAll c password s.properties) } := by
  have hfile : (s.dumpProperties codec c password).confs (s.getProfileName c) =
      some (codec.writeConf (PROPERTIES.getAll c password s.properties)) := Function.update_self _ _ _
  have hname : (s.dumpProperties codec c password).getProfileName c = s.getProfileName c := rfl
  rw [restoreProperties, hname, hfile, restore, hcodec]
  rfl

/-- **Dumping and restoring** leaves the properties as they are. -/
theorem getAll_dump_restore (codec : Codec File) (c : Context) (hoff : TogglesOff c)
    (s : PrefStore File) (hpassword : value c s.properties userPasswordKey ≠ [])
    (password password' password'' : Text)
    (hcodec : codec.readConf (codec.writeConf (PROPERTIES.getAll c password s.properties)) =
      some (PROPERTIES.getAll c password s.properties)) :
    ((s.dumpProperties codec c password).restoreProperties codec c).map
        (fun t => PROPERTIES.getAll c password' t.properties) =
      some (PROPERTIES.getAll c password'' s.properties) := by
  rw [restoreProperties_dumpProperties hcodec, Option.map_some,
    getAll_setAll_getAll hoff hpassword password', getAll_password hpassword password'']

/-- A screen of 1080 × 1920, the defaults of the switches and of the profile. -/
def phone : Context where
  string key := if key ∈ toggles then some falseText
    else if key = profileKey then some "linux".toList else none
  screenWidth := 1080
  screenHeight := 1920

/-- A profile with a mount point, an SSH server and a key that is no parameter. -/
def edited : PrefStore Text where
  settings := ∅
  properties := .ofList [(userPasswordKey, PrefValue.string "changeme".toList),
    (isMountsKey, .boolean true), (mountsKey, .string "/system".toList),
    (isSshKey, .string trueText), ("METHOD".toList, .string "chroot".toList)]
  cliConf := none
  confs := fun _ => none

theorem edited_plain : ∀ entry ∈ (PROPERTIES.getAll phone [] edited.properties).toList,
    (ParamUtils.IsKey entry.1 ∧ ParamUtils.IsValue entry.2) ∧ '=' ∉ entry.2 := by decide +kernel

theorem getAll_dump_restore_edited :
    ((edited.dumpProperties confFile phone []).restoreProperties confFile phone).map
        (fun t => PROPERTIES.getAll phone [] t.properties) =
      some (PROPERTIES.getAll phone [] edited.properties) := by
  have hwritable : ParamUtils.Writable (PROPERTIES.getAll phone [] edited.properties) :=
    ParamUtils.forall_entries_iff.mpr fun entry hentry => (edited_plain entry hentry).1
  have heq : ∀ key val : Text, (PROPERTIES.getAll phone [] edited.properties)[key]? = some val →
      '=' ∉ val := ParamUtils.forall_entries_iff.mpr fun entry hentry => (edited_plain entry hentry).2
  have hcodec := ParamUtils.readConf_writeConf hwritable
  rw [ParamUtils.map_beforeEq heq] at hcodec
  exact getAll_dump_restore confFile phone (by decide) edited (by decide) [] [] [] hcodec

end PrefStore

end Anx.Conf
