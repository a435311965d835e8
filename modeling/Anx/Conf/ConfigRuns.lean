import Anx.Lib.Machine
import Anx.Conf.ConfigSpec
import Anx.Conf.PrefStore

/-!
# The profiles that the app and the command line share

The app saves the current profile to its file and renames and removes files, `config` edits,
imports and removes them, in any order.

- `Op`, `shared`: what happens to the files;
- `Confs`, `Confs.apply`: the settings of the profiles, and what becomes of them;
- `config_spec`, `step_represents`: one command, and one step;
- `exec_represents`: **the files hold the settings that the run makes**;
- `exec_again`: **an edit that is made twice is made once**;
- `restored_and_read`: **the app and the command line read these settings**.
-/

namespace Anx.Conf

open Anx.Lib ParamUtils Anx.Conf.Cli

/-! ## Files -/

/-- The file of a profile as the app names it. -/
def confPath (configDir profile : Text) : Text := configDir ++ '/' :: (profile ++ ".conf".toList)

/-- What happens to the files. -/
inductive Op where
  | config (command : Command)
  /-- `dumpProperties` and `changeProfile` write a map. -/
  | save (profile : Text) (map : ConfMap)
  /-- `renameConf`, when it is `done`. -/
  | rename (oldName newName : Text) (done : Bool)
  /-- `removeConf`, when it is `done`. -/
  | remove (profile : Text) (done : Bool)

/-- The app and the command line on the same files. -/
def shared (S : Script) : Machine Files Op where
  step files
    | .config command => config S.sh S.vars files command
    | .save profile map =>
      some (Function.update files (confPath S.configDir profile) (some (writeConf map)))
    | .rename oldName newName done =>
      let oldConf := confPath S.configDir oldName
      let newConf := confPath S.configDir newName
      some (if done ∧ (files oldConf).isSome then
        Function.update (Function.update files oldConf none) newConf (files oldConf) else files)
    | .remove profile done =>
      some (if done then Function.update files (confPath S.configDir profile) none else files)

/-! ## Settings -/

/-- The settings of the profiles, by path. -/
abbrev Confs := Text → Option Settings

/-- The settings of a profile, which may be missing. -/
def held (settings : Option Settings) : Settings := fun key => settings.bind fun s => s key

/-- What an edit makes: the parameters count before the source, the source before the target;
all values are expanded, and what is empty is gone. -/
def merged (S : Script) (params : List (Text × Text)) (source target : Settings) : Settings :=
  ((((Settings.ofEntries params).orElse source).orElse target).mapValues S.expand).compact

/-- What becomes of the settings. -/
def Confs.apply (S : Script) (confs : Confs) : Op → Confs
  | .config (.remove profile) => Function.update confs (configWhich S.configDir profile) none
  | .config (.update profile file params _) =>
    let conf := configWhich S.configDir profile
    let source := file.elim conf (configWhich S.configDir)
    if conf = [] ∨ file = none ∧ params = [] then confs
    else Function.update confs conf
      (some (merged S (options params) (held (confs source)) (held (confs conf))))
  | .save profile map =>
    Function.update confs (confPath S.configDir profile) (some fun key => map[key]?)
  | .rename oldName newName done =>
    let oldConf := confPath S.configDir oldName
    if done ∧ (confs oldConf).isSome then
      Function.update (Function.update confs oldConf none) (confPath S.configDir newName)
        (confs oldConf)
    else confs
  | .remove profile done =>
    if done then Function.update confs (confPath S.configDir profile) none else confs

/-- The files hold these settings. -/
def Represents (S : Script) (files : Files) (confs : Confs) : Prop :=
  ∀ path, Option.Rel (Holds S) (files path) (confs path)

/-- The operation makes plain settings only. -/
def Op.Plain (S : Script) : Op → Prop
  | .config (.update profile _ params date) => PlainParams S params ∧
      PlainLine S (.comment (' ' :: (fileName (configWhich S.configDir profile) ++ ' ' :: date)))
  | .save _ map => PlainEntries S map.toList
  | _ => True

variable {S : Script} {files : Files} {confs : Confs} {vars : Vars}
  {entries : List (Text × Text)}

/-- A file of the right settings is put, or a file is taken away. -/
theorem Represents.update (h : Represents S files confs) (path : Text) {file : Option Text}
    {settings : Option Settings} (hfile : Option.Rel (Holds S) file settings) :
    Represents S (Function.update files path file) (Function.update confs path settings) := by
  intro path'
  by_cases heq : path' = path
  · subst heq
    rw [Function.update_self, Function.update_self]
    exact hfile
  · rw [Function.update_of_ne heq, Function.update_of_ne heq]
    exact h path'

/-- Exactly the files that exist hold settings. -/
theorem Represents.isSome (h : Represents S files confs) (path : Text) :
    (files path).isSome = (confs path).isSome := by
  have hpath := h path
  revert hpath
  generalize files path = file
  generalize confs path = settings
  rintro (- | -) <;> rfl

/-- The file that holds the settings of a profile. -/
theorem Represents.file (h : Represents S files confs) {path : Text} {settings : Settings}
    (hpath : confs path = some settings) :
    ∃ file, files path = some file ∧ Holds S file settings := by
  have hrel := h path
  rw [hpath] at hrel
  cases hget : files path with
  | none =>
    rw [hget] at hrel
    cases hrel
  | some file =>
    rw [hget] at hrel
    cases hrel with
    | some hholds => exact ⟨file, rfl, hholds⟩

/-! ## The command -/

/-- The variables of the script itself are not assigned. -/
theorem lookup_assignAll (h : PlainEntries S entries) {key : Text} (hkey : key ∈ own)
    (hopt : key ≠ OPTLST) (vars : Vars) :
    lookup (vars.assignAll entries) [] key = lookup vars [] key := by
  have hnone : entries.reverse.lookup key = none :=
    Settings.ofEntries_eq_none_iff.mpr fun hmem => (h.names hmem).2.1 hkey
  rw [lookup, lookup, Vars.assignAll_get _ _ hopt, hnone, Option.none_or]

theorem lookup_setAll {key : Text} (h : key ∉ entries.map Prod.fst) (vars : Vars) :
    lookup (vars.setAll entries) [] key = lookup vars [] key := by
  rw [lookup, lookup, setAll_get h]

theorem selectProfile_conf (vars : Vars) (profile : Text) :
    lookup (selectProfile vars profile) [] CONF_FILE =
      configWhich (lookup vars [] CONFIG_DIR) profile := by
  have hprofile : compare PROFILE CONF_FILE ≠ .eq := by decide
  have hoptlst : compare OPTLST CONF_FILE ≠ .eq := by decide
  have hget : (selectProfile vars profile).env[CONF_FILE]? =
      some (configWhich (lookup vars [] CONFIG_DIR) profile) := by
    rw [selectProfile, Vars.setAll, List.foldl_cons, List.foldl_cons, List.foldl_cons,
      List.foldl_nil, Std.ExtTreeMap.getElem?_insert, if_neg hoptlst,
      Std.ExtTreeMap.getElem?_insert, if_neg hprofile, Std.ExtTreeMap.getElem?_insert_self]
  rw [lookup, hget]
  rfl

theorem selectProfile_dir (vars : Vars) (profile : Text) :
    lookup (selectProfile vars profile) [] CONFIG_DIR = lookup vars [] CONFIG_DIR :=
  lookup_setAll (show CONFIG_DIR ∉ [CONF_FILE, PROFILE, OPTLST] by decide) vars

theorem selectProfile_leaves (vars : Vars) (profile : Text) :
    Leaves (selectProfile vars profile) [] := by
  apply leaves_nil
  rw [Vars.HasOptlst, selectProfile, Vars.setAll, List.foldl_cons, List.foldl_cons,
    List.foldl_cons, List.foldl_nil, Std.ExtTreeMap.getElem?_insert_self]

theorem selectProfile_agrees (profile : Text) : S.Agrees (selectProfile S.vars profile) := by
  refine Script.agrees_self.setAll fun entry hentry => ?_
  have hown : ∀ key ∈ [CONF_FILE, PROFILE, OPTLST], key ∈ own := by decide
  exact hown entry.1 (List.mem_map_of_mem hentry)

/-- **Reading a profile**, which may be missing. -/
theorem paramsReadFile_spec (h : Represents S files confs) (hvars : S.Agrees vars)
    {frame : Locals} (hframe : S.Visible frame) (conf : Text) : ∃ entries,
    paramsReadFile S.sh frame files vars conf = some (vars.assignAll (S.expandAll entries)) ∧
      PlainEntries S entries ∧ Settings.ofEntries entries = held (confs conf) := by
  have hconf := h conf
  unfold paramsReadFile
  generalize files conf = file at hconf ⊢
  generalize confs conf = settings at hconf ⊢
  cases hconf with
  | none => exact ⟨[], rfl, fun _ hmem => absurd hmem List.not_mem_nil, rfl⟩
  | some hholds =>
    obtain ⟨lines, hlines, rfl, rfl⟩ := hholds
    exact ⟨assignments lines,
      paramsReadIn_content hlines hvars (hframe.cons (.inr (by decide))),
      plain_assignments hlines, rfl⟩

/-- What the edit has in the variables when it writes. -/
theorem configUpdateFile_variables (h : Represents S files confs) (hvars : S.Agrees vars)
    (hleaves : Leaves vars (S.expandAll entries)) (hentries : PlainEntries S entries)
    {params : List Text} (hparams : PlainParams S params) (date source target : Text) :
    ∃ all vars' optind, Leaves vars' (S.expandAll all) ∧ PlainEntries S all ∧
      Settings.ofEntries all = ((Settings.ofEntries (options params)).orElse
        (held (confs source))).orElse (.ofEntries entries) ∧
      configUpdateFile S.sh files date vars source target params =
        paramsWriteFile S.sh files date vars' optind target := by
  have hframe : S.Visible [("source_conf".toList, source), ("target_conf".toList, target)] :=
    (Script.visible_nil.cons (.inr (by decide))).cons (.inr (by decide))
  obtain ⟨read, hread, hplain, hheld⟩ := paramsReadFile_spec h hvars hframe source
  have hparse := parseAllIn_plain hparams (hvars.assignAll hplain.expandAll) hframe 1
  have hfirst := hleaves.assignAll hentries.expandAll hplain.expandAll
  have hsecond := hfirst.assignAll (hentries.expandAll.append hplain.expandAll)
    hparams.plain.expandAll
  refine ⟨entries ++ read ++ options params,
    (vars.assignAll (S.expandAll read)).assignAll (S.expandAll (options params)),
    1 + (options params).length, ?_,
    (hentries.append hplain).append hparams.plain, ?_, ?_⟩
  · rw [Script.expandAll_append, Script.expandAll_append]
    exact hsecond
  · rw [Settings.ofEntries_append, Settings.ofEntries_append, hheld]
    funext key
    exact Option.or_assoc.symm
  · rw [configUpdateFile, hread]
    show Option.bind (parseAllIn S.sh _ 1 (vars.assignAll (S.expandAll read)) params) _ = _
    rw [hparse]
    rfl

/-- A file of plain settings, as `params_write` writes it. -/
theorem confText_holds {conf date : Text}
    (htitle : PlainLine S (.comment (' ' :: (fileName conf ++ ' ' :: date))))
    (hentries : PlainEntries S entries) :
    Holds S (confText conf date entries) (.ofEntries entries) := by
  refine ⟨.comment (' ' :: (fileName conf ++ ' ' :: date)) :: entries.map fun entry =>
    .assign entry.1 entry.2, fun line hline => ?_, ?_, ?_⟩
  · rcases List.mem_cons.mp hline with rfl | hline
    · exact htitle
    · obtain ⟨entry, hentry, rfl⟩ := List.mem_map.mp hline
      exact hentries entry hentry
  · rw [content, List.map_cons, unlines_cons, List.map_map, confText, profileText]
    simp [ConfLine.text, Function.comp_def]
  · have hassign : (entries.map fun entry => ConfLine.assign entry.1 entry.2).filterMap
        ConfLine.assignment = entries := by
      rw [List.filterMap_map]
      exact List.filterMap_some
    exact congrArg Settings.ofEntries hassign.symm

/-- **The edit** merges, and writes the file of the target. -/
theorem configUpdateFile_spec (h : Represents S files confs) (hvars : S.Agrees vars)
    (hleaves : Leaves vars (S.expandAll entries)) (hentries : PlainEntries S entries)
    {params : List Text} (hparams : PlainParams S params) {target date : Text}
    (htitle : PlainLine S (.comment (' ' :: (fileName target ++ ' ' :: date)))) (source : Text) :
    ∃ files', configUpdateFile S.sh files date vars source target params = some files' ∧
      Represents S files' (if target = [] then confs else Function.update confs target
        (some (merged S (options params) (held (confs source)) (.ofEntries entries)))) := by
  obtain ⟨all, vars', optind, hleaves', hall, hsettings, hrun⟩ :=
    configUpdateFile_variables h hvars hleaves hentries hparams date source target
  rw [hrun, paramsWriteFile]
  by_cases hnil : target = []
  · rw [if_pos hnil, if_pos hnil]
    exact ⟨files, rfl, h⟩
  · obtain ⟨written, hwrite, hwritten, heq⟩ :=
      paramsWrite_settings hleaves' hall.expandAll optind
    rw [if_neg hnil, if_neg hnil, hwrite]
    have hholds := confText_holds htitle hwritten
    rw [heq, Script.expandAll, Settings.ofEntries_map, hsettings] at hholds
    exact ⟨_, rfl, h.update target (.some hholds)⟩

/-- **The command** does to the files what it does to the settings. -/
theorem config_spec (h : Represents S files confs) {command : Command}
    (hcommand : (Op.config command).Plain S) :
    ∃ files', config S.sh S.vars files command = some files' ∧
      Represents S files' (confs.apply S (.config command)) := by
  have hfixed : ∀ key ∈ [CONF_FILE, CONFIG_DIR], key ∉ fixed.map Prod.fst := by decide
  have howned : ∀ key ∈ [CONF_FILE, CONFIG_DIR], key ∈ own ∧ key ≠ OPTLST := by decide
  have hselect := selectProfile_agrees (S := S) command.profile
  obtain ⟨entries, hread, hentries, hheld⟩ := paramsReadFile_spec h hselect Script.visible_nil
    (lookup (selectProfile S.vars command.profile) [] CONF_FILE)
  have hleaves : Leaves (((selectProfile S.vars command.profile).assignAll
      (S.expandAll entries)).setAll fixed) (S.expandAll entries) :=
    ((selectProfile_leaves S.vars command.profile).assignAll (fun _ hmem => absurd hmem List.not_mem_nil)
      hentries.expandAll).setAll hentries.expandAll
  have hvars : S.Agrees (((selectProfile S.vars command.profile).assignAll
      (S.expandAll entries)).setAll fixed) :=
    (hselect.assignAll hentries.expandAll).setAll fun entry hentry =>
      List.mem_append_right _ (List.mem_map_of_mem hentry)
  -- neither the profile nor the script assigns where the files are
  have hlookup : ∀ key ∈ [CONF_FILE, CONFIG_DIR], lookup (((selectProfile S.vars
      command.profile).assignAll (S.expandAll entries)).setAll fixed) [] key =
        lookup (selectProfile S.vars command.profile) [] key := by
    intro key hkey
    rw [lookup_setAll (hfixed key hkey),
      lookup_assignAll hentries.expandAll (howned key hkey).1 (howned key hkey).2]
  have hconf := (hlookup CONF_FILE (by decide)).trans (selectProfile_conf S.vars command.profile)
  have hdir := (hlookup CONFIG_DIR (by decide)).trans (selectProfile_dir S.vars command.profile)
  rw [selectProfile_conf] at hheld
  rw [config, hread]
  dsimp only [Option.bind_eq_bind, Option.bind_some]
  rw [hconf, hdir]
  cases command with
  | remove profile => exact ⟨_, rfl, h.update _ .none⟩
  | update profile file params date =>
    obtain ⟨hparams, htitle⟩ := hcommand
    dsimp only
    rw [Confs.apply]
    by_cases hlist : file = none ∧ params = []
    · rw [if_pos hlist, if_pos (.inr hlist)]
      exact ⟨files, rfl, h⟩
    · obtain ⟨files', hfiles', hrep⟩ := configUpdateFile_spec h hvars hleaves hentries hparams
        htitle (file.elim (configWhich S.configDir profile) (configWhich S.configDir))
      rw [hheld] at hrep
      rw [if_neg hlist]
      refine ⟨files', hfiles', ?_⟩
      simp only [hlist, or_false]
      exact hrep

/-- **One step** does to the files what it does to the settings. -/
theorem step_represents (h : Represents S files confs) {op : Op} (hop : op.Plain S) :
    ∃ files', (shared S).step files op = some files' ∧ Represents S files' (confs.apply S op) := by
  cases op with
  | config command => exact config_spec h hop
  | save profile map =>
    refine ⟨_, rfl, h.update _ (.some ⟨map.toList.map fun entry => .assign entry.1 entry.2,
      fun line hline => ?_, ?_, ?_⟩)⟩
    · obtain ⟨entry, hentry, rfl⟩ := List.mem_map.mp hline
      exact hop entry hentry
    · rw [content, writeConf, List.map_map, Option.map_none, Option.getD_none, List.append_nil]
      rfl
    · have hassign : (map.toList.map fun entry => ConfLine.assign entry.1 entry.2).filterMap
          ConfLine.assignment = map.toList := by
        rw [List.filterMap_map]
        exact List.filterMap_some
      funext key
      rw [settingsOf, assignments, hassign, Settings.ofEntries_toList]
  | rename oldName newName done =>
    refine ⟨_, rfl, ?_⟩
    rw [Confs.apply, h.isSome]
    by_cases hdone : done = true ∧ (confs (confPath S.configDir oldName)).isSome = true
    · rw [if_pos hdone, if_pos hdone]
      exact (h.update _ .none).update _ (h _)
    · rw [if_neg hdone, if_neg hdone]
      exact h
  | remove profile done =>
    refine ⟨_, rfl, ?_⟩
    rw [Confs.apply]
    by_cases hdone : done = true
    · rw [if_pos hdone, if_pos hdone]
      exact h.update _ .none
    · rw [if_neg hdone, if_neg hdone]
      exact h

/-- **A run of the app and the command line** does to the files what it does to the settings. -/
theorem exec_represents (h : Represents S files confs) {ops : List Op}
    (hops : ∀ op ∈ ops, op.Plain S) : ∃ files', (shared S).exec files ops = some files' ∧
      Represents S files' (ops.foldl (Confs.apply S) confs) := by
  induction ops generalizing files confs with
  | nil => exact ⟨files, rfl, h⟩
  | cons op ops ih =>
    obtain ⟨hop, hrest⟩ := List.forall_mem_cons.mp hops
    obtain ⟨next, hstep, hnext⟩ := step_represents h hop
    obtain ⟨files', hrun, hrep⟩ := ih hnext hrest
    exact ⟨files', (Machine.exec_cons _).mpr ⟨next, hstep, hrun⟩, hrep⟩

theorem confPath_injective (configDir : Text) : Function.Injective (confPath configDir) :=
  fun _ _ h => List.append_cancel_right (List.cons.inj (List.append_cancel_left h)).2

/-- **What the app does** to its files in `dumpProperties` is a step. -/
theorem dumpProperties_step (c : Context) (password : Text) {s : PrefStore Text}
    (hfiles : ∀ profile, s.confs profile = files (confPath S.configDir profile)) :
    ∃ files', (shared S).step files
        (.save (s.getProfileName c) (PROPERTIES.getAll c password s.properties)) = some files' ∧
      ∀ profile, (s.dumpProperties confFile c password).confs profile =
        files' (confPath S.configDir profile) := by
  refine ⟨_, rfl, fun profile => ?_⟩
  rw [PrefStore.dumpProperties]
  dsimp only
  by_cases heq : profile = s.getProfileName c
  · rw [heq, Function.update_self, Function.update_self]
    rfl
  · rw [Function.update_of_ne heq, hfiles,
      Function.update_of_ne fun h => heq (confPath_injective S.configDir h)]

/-! ## Editing again -/

/-- An expanded value is not expanded again. -/
theorem expanded_again {value : Option Text} (h : ∀ v ∈ value, IsLiteral (S.expand v)) :
    (((value.map S.expand).filter (· ≠ [])).map S.expand).filter (· ≠ []) =
      (value.map S.expand).filter (· ≠ []) := by
  cases value with
  | none => rfl
  | some v =>
    have hself : S.expand (S.expand v) = S.expand v := Script.expand_literal (h v rfl)
    by_cases hempty : S.expand v = [] <;> simp [Option.filter_some, hempty, hself]

/-- What an edit has made is made again from it, also if it is the source of the edit. -/
theorem merged_again {params : List (Text × Text)} {source target source' : Settings}
    (htarget : ∀ key value, target key = some value → PlainSetting S key value)
    (hsource : source' = source ∨ source = target ∧ source' = merged S params source target) :
    merged S params source' (merged S params source target) = merged S params source target := by
  funext key
  have hself := expanded_again fun v hv => (htarget key v hv).expanded.1
  have hmerged : merged S params source target key =
      ((((Settings.ofEntries params key).or (source key)).or (target key)).map S.expand).filter
        (· ≠ []) := rfl
  show ((((Settings.ofEntries params key).or (source' key)).or
    (merged S params source target key)).map S.expand).filter (· ≠ []) = _
  cases hparam : Settings.ofEntries params key with
  | some value =>
    rw [hmerged, hparam]
    rfl
  | none =>
    rw [hparam, Option.none_or] at hmerged
    rw [Option.none_or]
    rcases hsource with rfl | ⟨rfl, rfl⟩
    · cases hvalue : source' key with
      | some value =>
        rw [hmerged, hvalue]
        rfl
      | none =>
        rw [hvalue, Option.none_or] at hmerged
        rw [Option.none_or, hmerged]
        exact hself
    · rw [Option.or_self] at hmerged
      rw [Option.or_self, hmerged]
      exact hself

/-- An edit that is made twice. -/
theorem apply_again (h : Represents S files confs) (profile : Text) (file : Option Text)
    (params : List Text) (date date' : Text) :
    (confs.apply S (.config (.update profile file params date))).apply S
        (.config (.update profile file params date')) =
      confs.apply S (.config (.update profile file params date)) := by
  have hplain : ∀ path key value, held (confs path) key = some value → PlainSetting S key value := by
    intro path key value hvalue
    cases hpath : confs path with
    | none =>
      rw [hpath] at hvalue
      cases hvalue
    | some settings =>
      rw [hpath] at hvalue
      obtain ⟨_, -, hholds⟩ := h.file hpath
      exact hholds.plain hvalue
  simp only [Confs.apply]
  by_cases hnil : configWhich S.configDir profile = [] ∨ file = none ∧ params = []
  · simp only [if_pos hnil]
  · simp only [if_neg hnil, Function.update_idem, Function.update_self]
    congr 2
    refine merged_again (hplain _) ?_
    by_cases hself : file.elim (configWhich S.configDir profile) (configWhich S.configDir) =
        configWhich S.configDir profile
    · rw [hself, Function.update_self]
      exact .inr ⟨rfl, rfl⟩
    · rw [Function.update_of_ne hself]
      exact .inl rfl

/-- **Making an edit twice** at any point of a run is making it once. -/
theorem exec_again (h : Represents S files confs) {before after : List Op}
    (hbefore : ∀ op ∈ before, op.Plain S) (hafter : ∀ op ∈ after, op.Plain S) {profile : Text}
    {file : Option Text} {params : List Text} {date date' : Text}
    (hedit : (Op.config (.update profile file params date)).Plain S)
    (hedit' : (Op.config (.update profile file params date')).Plain S) :
    ∃ once twice confs',
      (shared S).exec files (before ++ .config (.update profile file params date) :: after) =
        some once ∧
      (shared S).exec files (before ++ .config (.update profile file params date) ::
        .config (.update profile file params date') :: after) = some twice ∧
      Represents S once confs' ∧ Represents S twice confs' := by
  have hops : ∀ op ∈ before ++ .config (.update profile file params date) :: after, op.Plain S :=
    fun op hop => (List.mem_append.mp hop).elim (hbefore op)
      (List.forall_mem_cons.mpr ⟨hedit, hafter⟩ op)
  have hops' : ∀ op ∈ before ++ .config (.update profile file params date) ::
      .config (.update profile file params date') :: after, op.Plain S :=
    fun op hop => (List.mem_append.mp hop).elim (hbefore op)
      (List.forall_mem_cons.mpr ⟨hedit, List.forall_mem_cons.mpr ⟨hedit', hafter⟩⟩ op)
  obtain ⟨middle, -, hmiddle⟩ := exec_represents h hbefore
  obtain ⟨once, honce, hrep⟩ := exec_represents h hops
  obtain ⟨twice, htwice, hrep'⟩ := exec_represents h hops'
  refine ⟨once, twice, _, honce, htwice, hrep, ?_⟩
  rw [List.foldl_append, List.foldl_cons, List.foldl_cons, apply_again hmiddle] at hrep'
  rw [List.foldl_append, List.foldl_cons]
  exact hrep'

/-- A script that knows where the external storage is. -/
def storageScript : Script where
  sh := plainBash
  vars := ⟨(∅ : ConfMap).insert CONFIG_DIR "/env/config".toList
    |>.insert "EXTERNAL_STORAGE".toList "/sdcard".toList, []⟩
  used := ["EXTERNAL_STORAGE".toList]
  expands := plainBash_expands
  keepsPlain := plainBash_keepsPlain
  separate := by decide

/-- The value of `TARGET_PATH` that the app saves. -/
def imagePath : Text := Script.withVariable [] "EXTERNAL_STORAGE".toList "/linux.img".toList

/-- The app saves a profile. -/
def savedProfile : Op := .save "linux".toList
  (.ofList [("DISTRIB".toList, "debian".toList), ("TARGET_PATH".toList, imagePath)])

/-- `--arch=arm` is set on the command line. -/
def archEdit (date : Text) : Op :=
  .config (.update "linux".toList none ["--arch=arm".toList] date)

theorem savedProfile_plain : savedProfile.Plain storageScript := by
  have hnil : IsLiteral ([] : Text) := by decide
  have hback : IsLiteral "/linux.img".toList := by decide
  have hname : IsName "EXTERNAL_STORAGE".toList := by decide
  have hused : "EXTERNAL_STORAGE".toList ∈ storageScript.used := List.mem_singleton_self _
  have hexpand : storageScript.expand imagePath = "/sdcard/linux.img".toList := by
    rw [imagePath, Script.expand_withVariable hnil hback hname hused]
    rfl
  have hpath : PlainSetting storageScript "TARGET_PATH".toList imagePath := by
    refine ⟨by decide, by decide, rfl, by decide, by decide, ?_, ?_⟩
    · exact Script.steady_withVariable hnil hback hname hused
    · rw [hexpand]
      decide
  have hdistrib : PlainSetting storageScript "DISTRIB".toList "debian".toList :=
    plain_of_literal (by decide) (by decide) rfl (by decide) (by decide) (by decide)
  have hentries : (Std.ExtTreeMap.ofList [("DISTRIB".toList, "debian".toList),
      ("TARGET_PATH".toList, imagePath)] compare : ConfMap).toList =
        [("DISTRIB".toList, "debian".toList), ("TARGET_PATH".toList, imagePath)] := rfl
  show PlainEntries _ _
  rw [hentries]
  exact List.forall_mem_cons.mpr ⟨hdistrib, List.forall_mem_cons.mpr ⟨hpath, by simp⟩⟩

theorem archEdit_plain {date : Text} (hbreak : NoBreak date) (hslash : '\\' ∉ date)
    (hnul : '\x00' ∉ date) : (archEdit date).Plain storageScript := by
  have hoptions : options ["--arch=arm".toList] = [("ARCH".toList, "arm".toList)] := by decide
  have harch : PlainSetting storageScript "ARCH".toList "arm".toList :=
    plain_of_literal (by decide) (by decide) rfl (by decide) (by decide) (by decide)
  have hwords : NoPattern (writePair "ARCH".toList "arm".toList) ∧ [' '].intercalate
      (pieces isIFS (writePair "ARCH".toList "arm".toList)) =
        writePair "ARCH".toList "arm".toList := ⟨by unfold NoPattern; decide, by decide⟩
  have htitle : ∀ c ∈ " linux.conf ".toList, (c ≠ '\n' ∧ c ≠ '\r') ∧ c ≠ '\\' ∧ c ≠ '\x00' := by
    decide
  refine ⟨⟨by decide, ?_, ?_⟩, ?_⟩
  · rw [hoptions]
    exact List.forall_mem_cons.mpr ⟨harch, by simp⟩
  · rw [hoptions]
    exact List.forall_mem_cons.mpr ⟨hwords, by simp⟩
  · show NoBreak (" linux.conf ".toList ++ date) ∧ '\\' ∉ " linux.conf ".toList ++ date ∧
      '\x00' ∉ " linux.conf ".toList ++ date
    refine ⟨fun c hc => ?_, fun hc => ?_, fun hc => ?_⟩
    · exact (List.mem_append.mp hc).elim (fun h => (htitle c h).1) (hbreak c)
    · exact (List.mem_append.mp hc).elim (fun h => (htitle _ h).2.1 rfl) hslash
    · exact (List.mem_append.mp hc).elim (fun h => (htitle _ h).2.2 rfl) hnul

/-- The edit has the same effect an hour later. -/
theorem exec_again_edited : ∃ once twice confs',
    (shared storageScript).exec (fun _ => none)
      ([savedProfile] ++ archEdit "2023-04-01 10:00".toList :: []) = some once ∧
    (shared storageScript).exec (fun _ => none) ([savedProfile] ++
      archEdit "2023-04-01 10:00".toList :: archEdit "2023-04-01 11:00".toList :: []) =
        some twice ∧
    Represents storageScript once confs' ∧ Represents storageScript twice confs' :=
  exec_again (fun _ => .none) (List.forall_mem_cons.mpr ⟨savedProfile_plain, by simp⟩) (by simp)
    (archEdit_plain (by decide) (by decide) (by decide))
    (archEdit_plain (by decide) (by decide) (by decide))

/-! ## Reading -/

/-- A profile is known to the command line by the name that it has in the app. -/
theorem configWhich_profile {profile : Text} (hne : profile ≠ []) (hslash : '/' ∉ profile)
    (configDir : Text) : configWhich configDir profile = confPath configDir profile := by
  rw [configWhich, if_neg hne, if_neg hslash]
  have hlast : configDir ++ '/' :: (profile ++ ".conf".toList) =
      (configDir ++ '/' :: (profile ++ ".con".toList)) ++ ['f'] := by simp
  have hkept := List.rdropWhile_concat_neg (fun c : Char => decide (c = '\n'))
    (configDir ++ '/' :: (profile ++ ".con".toList)) 'f' (by decide)
  rw [hlast]
  exact hkept.trans hlast.symm

/-- **What both read** of a profile: the app restores the values of its parameters, and in the
script the variables have them expanded. -/
theorem Represents.read (h : Represents S files confs) {c : Context} {s : PrefStore Text}
    (hfiles : ∀ profile, s.confs profile = files (confPath S.configDir profile))
    (hne : s.getProfileName c ≠ []) (hslash : '/' ∉ s.getProfileName c) {settings : Settings}
    (hprofile : confs (configWhich S.configDir (s.getProfileName c)) = some settings) :
    ∃ s' vars', s.restoreProperties confFile c = some s' ∧
      paramsReadFile S.sh [] files (selectProfile S.vars (s.getProfileName c))
        (configWhich S.configDir (s.getProfileName c)) = some vars' ∧
      ∀ key value, settings key = some value → vars'.env[key]? = some (S.expand value) ∧
        ∀ param ∈ PropertiesStore.params, toUpperCase param = key →
          Store.value c s'.properties param = value := by
  obtain ⟨entries, hread, hentries, hheld⟩ := paramsReadFile_spec h
    (selectProfile_agrees (s.getProfileName c)) Script.visible_nil
    (configWhich S.configDir (s.getProfileName c))
  rw [hprofile] at hheld
  have hleaves := (selectProfile_leaves S.vars (s.getProfileName c)).assignAll
    (fun _ hmem => absurd hmem List.not_mem_nil) hentries.expandAll
  rw [List.nil_append] at hleaves
  -- the file that the app restores from
  obtain ⟨file, hfile, hholds⟩ := h.file hprofile
  obtain ⟨map, hmap, hget⟩ := hholds.readConf
  rw [configWhich_profile hne hslash] at hfile
  refine ⟨{ s with properties := PROPERTIES.setAll ∅ map }, _, ?_, hread,
    fun key value hvalue => ?_⟩
  · rw [PrefStore.restoreProperties, hfiles, hfile, Store.restore]
    show Option.map _ ((readConf file).map _) = _
    rw [hmap]
    rfl
  · have hsetting : Settings.ofEntries (S.expandAll entries) key = some (S.expand value) := by
      rw [Script.expandAll, Settings.ofEntries_map, hheld]
      show Option.map S.expand (settings key) = _
      rw [hvalue]
      rfl
    refine ⟨?_, ?_⟩
    · rw [hleaves.value key (List.mem_map_of_mem (Settings.mem_of_ofEntries hsetting)), hsetting]
    · rintro param hparam rfl
      have hparam' : param ∈ PROPERTIES.params := hparam
      rw [Store.value, Store.getElem?_setAll_param hparam' ((hget _).trans hvalue)]
      exact Store.toText_typed value

/-- **After every run**, both read what the run has made of the current profile. -/
theorem restored_and_read (h : Represents S files confs) {ops : List Op}
    (hops : ∀ op ∈ ops, op.Plain S) : ∃ files', (shared S).exec files ops = some files' ∧
      ∀ (c : Context) (s : PrefStore Text) (settings : Settings),
        (∀ profile, s.confs profile = files' (confPath S.configDir profile)) →
        s.getProfileName c ≠ [] → '/' ∉ s.getProfileName c →
        ops.foldl (Confs.apply S) confs (configWhich S.configDir (s.getProfileName c)) =
          some settings →
        ∃ s' vars', s.restoreProperties confFile c = some s' ∧
          paramsReadFile S.sh [] files' (selectProfile S.vars (s.getProfileName c))
            (configWhich S.configDir (s.getProfileName c)) = some vars' ∧
          ∀ key value, settings key = some value → vars'.env[key]? = some (S.expand value) ∧
            ∀ param ∈ PropertiesStore.params, toUpperCase param = key →
              Store.value c s'.properties param = value := by
  obtain ⟨files', hrun, hrep⟩ := exec_represents h hops
  exact ⟨files', hrun, fun c s settings hfiles hne hslash hprofile =>
    hrep.read hfiles hne hslash hprofile⟩

/-- The app on these files; the profile `linux` is current. -/
def appOn (files : Files) : PrefStore Text where
  settings := ∅
  properties := ∅
  cliConf := none
  confs profile := files (confPath storageScript.configDir profile)

/-- After the edit the app has the path as the script has expanded it. -/
theorem restored_and_read_edited : ∃ files' s' vars',
    (shared storageScript).exec (fun _ => none)
      [savedProfile, archEdit "2023-04-01 10:00".toList] = some files' ∧
      (appOn files').restoreProperties confFile PrefStore.phone = some s' ∧
      paramsReadFile plainBash [] files' (selectProfile storageScript.vars "linux".toList)
        "/env/config/linux.conf".toList = some vars' ∧
      vars'.env["TARGET_PATH".toList]? = some "/sdcard/linux.img".toList ∧
      Store.value PrefStore.phone s'.properties "target_path".toList =
        "/sdcard/linux.img".toList := by
  have hedit : (archEdit "2023-04-01 10:00".toList).Plain storageScript :=
    archEdit_plain (by decide) (by decide) (by decide)
  have hops : ∀ op ∈ [savedProfile, archEdit "2023-04-01 10:00".toList], op.Plain storageScript :=
    List.forall_mem_cons.mpr ⟨savedProfile_plain, List.forall_mem_cons.mpr ⟨hedit, by simp⟩⟩
  obtain ⟨files', hrun, hread⟩ := restored_and_read (fun _ => .none) hops
  obtain ⟨s', vars', hrestored, hvars, hvalues⟩ :=
    hread PrefStore.phone (appOn files') _ (fun _ => rfl) (show "linux".toList ≠ [] by decide)
      (show '/' ∉ "linux".toList by decide) rfl
  obtain ⟨hscript, happ⟩ := hvalues "TARGET_PATH".toList "/sdcard/linux.img".toList rfl
  exact ⟨files', s', vars', hrun, hrestored, hvars, hscript,
    happ "target_path".toList (by decide) (by decide)⟩

end Anx.Conf
