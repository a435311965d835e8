import Anx.Conf.ParamsParse

/-!
# The command `config`

`cli.sh config` works on the files of the profiles: it edits the one of `-p`, also with the
settings of another one (`-i`), or removes it (`-r`).

- `configWhich`, `Files`: where the profiles are;
- `paramsReadFile`, `paramsWriteFile`: `params_read` and `params_write` with the files they
  work on;
- `Command`, `config`: the command, from reading the profile on;
- `configUpdateFile_eq`: **without `-i`** it edits a file as `configUpdate` says.
-/

namespace Anx.Conf.Cli

open Anx.Lib ParamUtils

/-! ## Files -/

/-- Files by path. -/
abbrev Files := Text → Option Text

/-- `config_which` in a command substitution. -/
def configWhich (configDir confFile : Text) : Text :=
  let path :=
    if confFile = [] then []
    else if '/' ∈ confFile then confFile
    else configDir ++ '/' :: (confFile ++ ".conf".toList)
  path.rdropWhile (· = '\n')

/-- `${path##*/}`. -/
def fileName (path : Text) : Text := path.rtakeWhile (· ≠ '/')

/-- `basename "${path}" ".conf"`, of a path that does not end with `/`. -/
def profileName (path : Text) : Text :=
  let name := fileName path
  if ".conf".toList <:+ name ∧ name ≠ ".conf".toList then name.take (name.length - 5) else name

/-- The file that `params_write` makes of the lines that it writes. -/
def confText (conf date : Text) (entries : List (Text × Text)) : Text :=
  '#' :: ' ' :: (fileName conf ++ ' ' :: date) ++ '\n' :: profileText entries

/-! ## Variables -/

def CONFIG_DIR : Text := "CONFIG_DIR".toList
def CONF_FILE : Text := "CONF_FILE".toList
def PROFILE : Text := "PROFILE".toList
def OPTCMD : Text := "OPTCMD".toList

/-- The assignments of cli.sh:1088–1100 between reading the profile and the command. -/
def fixed : List (Text × Text) :=
  [("WITHOUT_CHECK", "false"), ("WITHOUT_DEPENDS", "false"), ("REVERSE_DEPENDS", "false"),
    ("EXCLUDE_COMPONENTS", ""), ("OPTCMD", "config")].map fun p => (p.1.toList, p.2.toList)

/-- The variables with those assigned that `OPTLST` does not list. -/
def Vars.setAll (vars : Vars) (entries : List (Text × Text)) : Vars :=
  { vars with env := entries.foldl (fun env entry => env.insert entry.1 entry.2) vars.env }

/-- cli.sh:1080–1084, the variables with which the profile is read. -/
def selectProfile (vars : Vars) (profile : Text) : Vars :=
  let conf := configWhich (lookup vars [] CONFIG_DIR) profile
  vars.setAll [(CONF_FILE, conf), (PROFILE, profileName conf), (OPTLST, [' '])]

/-! ## The functions of the command -/

/-- `params_read`: a file that does not exist is not read. -/
def paramsReadFile (sh : Bash) (frame : Locals) (files : Files) (vars : Vars) (conf : Text) :
    Option Vars :=
  match files conf with
  | none => some vars
  | some confFile => paramsReadIn sh (("conf_file".toList, conf) :: frame) vars confFile

/-- `params_write`, at the time `date`; without a path nothing is written. -/
def paramsWriteFile (sh : Bash) (files : Files) (date : Text) (vars : Vars) (optind : Nat)
    (conf : Text) : Option Files :=
  if conf = [] then some files
  else (paramsWrite sh vars optind).map fun entries =>
    Function.update files conf (some (confText conf date entries))

/-- `config_update`. -/
def configUpdateFile (sh : Bash) (files : Files) (date : Text) (vars : Vars)
    (source target : Text) (params : List Text) : Option Files := do
  let frame := [("source_conf".toList, source), ("target_conf".toList, target)]
  let vars ← paramsReadFile sh frame files vars source
  let (vars, optind) ← paramsParseIn sh frame vars params
  paramsWriteFile sh files date vars optind target

/-! ## The command -/

/-- The command `config` with its options, by what it does to files. -/
inductive Command where
  /-- `-p PROFILE config -r` -/
  | remove (profile : Text)
  /-- `-p PROFILE config [-i FILE] [PARAMETERS]`, at the time `date` -/
  | update (profile : Text) (file : Option Text) (params : List Text) (date : Text)
deriving DecidableEq

/-- The profile of the command. -/
def Command.profile : Command → Text
  | .remove profile => profile
  | .update profile _ _ _ => profile

/-- What the command leaves of the files, for the variables with which the script begins;
`none` where `eval` does more than to assign an ordinary variable. -/
def config (sh : Bash) (vars : Vars) (files : Files) (command : Command) : Option Files := do
  let vars := selectProfile vars command.profile
  let vars ← paramsReadFile sh [] files vars (lookup vars [] CONF_FILE)
  let vars := vars.setAll fixed
  -- the profile may have assigned it
  let conf := lookup vars [] CONF_FILE
  match command with
  | .remove _ => return Function.update files conf none
  | .update _ file params date =>
    -- without arguments the profiles are listed
    if file = none ∧ params = [] then return files
    let source := file.elim conf (configWhich (lookup vars [] CONFIG_DIR))
    configUpdateFile sh files date vars source conf params

/-! ## Editing in place -/

variable {sh : Bash} {conf : Text} {vars : Vars}

/-- **Editing a file in place** writes what `configUpdate` says. -/
theorem configUpdateFile_eq {files : Files} {confFile : Text} (hfile : files conf = some confFile)
    (hconf : conf ≠ []) (date : Text) (params : List Text) :
    configUpdateFile sh files date vars conf conf params =
      (configUpdate sh conf confFile params vars).map fun entries =>
        Function.update files conf (some (confText conf date entries)) := by
  have hread : paramsReadFile sh (inPlace conf) files vars conf =
      paramsReadVars sh conf vars confFile := by
    rw [paramsReadFile, hfile]
    rfl
  show Option.bind (paramsReadFile sh (inPlace conf) files vars conf) (fun vars =>
    Option.bind (paramsParseIn sh (inPlace conf) vars params) fun p =>
      paramsWriteFile sh files date p.1 p.2 conf) = _
  rw [hread, configUpdate]
  cases paramsReadVars sh conf vars confFile with
  | none => rfl
  | some vars =>
    show Option.bind (paramsParse sh conf vars params) _ =
      Option.map _ (Option.bind (paramsParse sh conf vars params) _)
    cases paramsParse sh conf vars params with
    | none => rfl
    | some p => exact if_neg hconf

end Anx.Conf.Cli
