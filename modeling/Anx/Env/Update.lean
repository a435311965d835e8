import Anx.Env.Extract

/-!
# Updates of the environment

`updateEnv` extracts the assets and writes the version file at its end; `removeEnv` deletes
the environment. `MainActivity` updates only when the version file has another version.

- `App`: the assets, the paths and the texts that an installed app works with;
- `updateEnv`, `removeEnv`, `isLatestVersion`: the functions;
- `Complete`: all assets for the architecture are in the environment, as `sed` may have
  set their interpreter;
- `Safe`: the calls that keep a complete environment complete;
- `stamp_of_guarded`: **the version file is right**, in all runs of updates and removals
  that are stopped or fail anywhere, as long as no call is made on an asset file while
  `isLatestVersion` is true.
-/

namespace Anx.Env

open Anx.Lib

/-- An installed version of the app. `interpreter` is what `sed` makes of a script,
`applets` what `busybox` installs. -/
structure App where
  assets : Assets
  arch : Arch
  envDir : Path
  profile : Text
  version : Bytes
  mainScript : Bytes
  settings : Bytes
  properties : Bytes
  applets : List Text
  interpreter : Bytes → Bytes
  version_ne : version ≠ []

namespace App

variable (app : App)

/-- A path in the environment. -/
def env (names : List String) : Path := app.envDir ++ names.map String.toList

def binDir : Path := app.env ["bin"]

def webDir : Path := app.env ["web"]

def configDir : Path := app.env ["config"]

def versionFile : Path := app.env ["version"]

def mainScriptFile : Path := app.env ["bin", "linuxdeploy"]

def settingsConfFile : Path := app.env ["cli.conf"]

def propertiesConfFile : Path := app.configDir ++ [app.profile ++ ".conf".toList]

/-- The asset sets, in the order in which they are extracted. -/
def roots : List (Path × AssetTree) :=
  (app.envDir, app.assets.env) :: app.assets.binRoots app.binDir app.arch ++
    [(app.webDir, app.assets.web)]

/-- The scripts whose interpreter is set. -/
def scripts : List Path :=
  [app.env ["bin", "websocket.sh"], app.env ["web", "cgi-bin", "resize"],
    app.env ["web", "cgi-bin", "sync"], app.env ["web", "cgi-bin", "terminal"]]

/-! ## Update -/

/-- A text is written through a buffer, when the file is closed. -/
def writeFile (f : Path) (text : Bytes) : Java Bool := do
  if ← Java.create f then Java.write f text else pure false

/-- `setVersion`. -/
def setVersion : Java Bool := writeFile app.versionFile app.version

/-- `makeMainScript`. -/
def makeMainScript : Java Bool := writeFile app.mainScriptFile app.mainScript

/-- `busybox --install -s`: what is there stays. -/
def installApplets : List Text → Java Unit
  | [] => pure ()
  | name :: names => do
    let _ ← Java.createNew (app.binDir ++ [name])
    installApplets names

/-- `sed -i 's|^#!/.*|#!shell|'` for each of the scripts. -/
def setInterpreters : List Path → Java Unit
  | [] => pure ()
  | script :: paths => do
    let _ ← Java.rewrite script app.interpreter
    setInterpreters paths

/-- A file that is written unless it exists. -/
def dumpMissing (f : Path) (text : Bytes) : Java Unit := do
  if ← Java.exists_ f then pure () else
    let _ ← writeFile f text
    pure ()

/-- `updateEnv`, after the extraction. -/
def finishUpdate : Java Bool := do
  if ← app.makeMainScript then
    let _ ← Java.mkdir app.configDir
    let _ ← Java.mkdir (app.env ["tmp"])
    let _ ← Java.createNew (app.env [".nomedia"])
    app.installApplets app.applets
    app.setInterpreters app.scripts
    dumpMissing app.settingsConfFile app.settings
    dumpMissing app.propertiesConfFile app.properties
    app.setVersion
  else pure false

/-- `updateEnv`. -/
def updateEnv : Java Bool := do
  if ← extractRoots app.roots then app.finishUpdate else pure false

/-! ## Removal -/

/-- The loop over the names in a directory, with `clean` for the calls in it. -/
def cleanFiles (clean : Path → Java Unit) (path : Path) : List Text → Java Unit
  | [] => pure ()
  | name :: names => do
    if ← Java.isDirectory (path ++ [name]) then clean (path ++ [name]) else pure ()
    let _ ← Java.delete (path ++ [name])
    cleanFiles clean path names

/-- `cleanDirectory`, with at most `depth` directories inside each other. -/
def cleanDirectory : (depth : Nat) → Path → Java Unit
  | 0, _ => pure ()
  | depth + 1, path => do
    if ← Java.exists_ path then
      match ← Java.listFiles path with
      | none => pure ()
      | some names =>
        cleanFiles (cleanDirectory depth) path names
        let _ ← Java.delete path
        pure ()
    else pure ()

/-- `removeEnv`; no path of the files is longer than `depth`. -/
def removeEnv (depth : Nat) : Java Bool := do
  cleanDirectory (depth + 1) app.envDir
  pure true

/-! ## Runs -/

/-- The first line of a file. -/
def firstLine (bytes : Bytes) : Bytes := bytes.takeWhile fun b => b ≠ 10 ∧ b ≠ 13

/-- `isLatestVersion`. -/
def isLatestVersion (fs : Fs) : Bool :=
  match fs.get app.versionFile with
  | some (.file bytes) => firstLine bytes = app.version
  | _ => false

inductive Task where
  | updateEnv
  | removeEnv
deriving DecidableEq

end App

/-- The longest path. -/
def Fs.depth (fs : Fs) : Nat := (fs.entries.map fun e => e.1.length).foldr max 0

namespace App

variable (app : App)

/-- The code of a task that starts with these files. -/
def program : Task → Fs → Java Bool
  | .updateEnv, _ => app.updateEnv
  | .removeEnv, fs => app.removeEnv fs.depth

/-- Updates and removals, one at a time; any of them may be stopped. -/
def machine : Machine (Session java Bool) (SessionAction java Task) := sessions app.program

/-! ## The version file -/

/-- The command that sets the interpreter of a script. -/
def fixed (p : Path) (bytes : Bytes) : Bytes :=
  if p ∈ app.scripts then app.interpreter bytes else bytes

/-- All assets are there, scripts possibly with another interpreter. -/
def Complete (fs : Fs) : Prop :=
  ∀ p bytes, lastFile app.roots p = some bytes →
    ∃ n : Nat, fs.get p = some (.file ((app.fixed p)^[n] bytes))

/-- The version file is right. -/
def StampRight (fs : Fs) : Prop := app.isLatestVersion fs = true → app.Complete fs

/-- No asset is one of the files that the update writes itself. -/
def OwnFiles : Prop :=
  ∀ p ∈ [app.versionFile, app.mainScriptFile, app.settingsConfFile, app.propertiesConfFile],
    ∀ root ∈ app.roots, p ∉ root.2.root.paths root.1

/-- A call that may change an asset file is made only while `isLatestVersion` is false. -/
def BeforeStamp (o : Op) (fs : Fs) : Prop :=
  ∀ p, o.path = some p → lastFile app.roots p ≠ none → app.isLatestVersion fs = false

instance (o : Op) (fs : Fs) : Decidable (app.BeforeStamp o fs) :=
  match h : o.path with
  | none => isTrue fun p hp => by rw [h] at hp; cases hp
  | some p =>
    decidable_of_iff (lastFile app.roots p ≠ none → app.isLatestVersion fs = false)
      ⟨fun hG q hq => by rw [h] at hq; cases hq; exact hG, fun hG => hG p h⟩

instance (s : Session java Bool) (a : SessionAction java Task) :
    Decidable (SessionGuard app.BeforeStamp s a) :=
  inferInstance

/-- The version is written only to a complete environment, and by nothing else. -/
def StampsComplete (o : Op) (fs : Fs) : Prop :=
  match o with
  | .write p _ => p = app.versionFile → app.Complete fs
  | .rewrite p _ => p ≠ app.versionFile
  | _ => True

/-- A call that keeps a complete environment complete. -/
def Safe : Op → Prop
  | .delete p | .create p | .write p _ => lastFile app.roots p = none
  | .rewrite p f => p ∈ app.scripts ∧ f = app.interpreter
  | _ => True

variable {app : App} {fs : Fs}

theorem complete_congr {fs' : Fs}
    (h : ∀ p, lastFile app.roots p ≠ none → fs'.get p = fs.get p) (hc : app.Complete fs) :
    app.Complete fs' := by
  intro p bytes hp
  rw [h p (by simp [hp])]
  exact hc p bytes hp

theorem complete_perform {o : Op} (hsafe : app.Safe o) (c : Choice) (hc : app.Complete fs) :
    app.Complete (o.perform c fs).2 := by
  -- a call at a path without an asset
  have hother : ∀ p, o.path = some p → lastFile app.roots p = none →
      app.Complete (o.perform c fs).2 := by
    intro p hpath hnone
    refine complete_congr (fun q hq => Op.perform_get_of_ne hpath ?_ c fs) hc
    rintro rfl
    exact hq hnone
  cases o with
  | io | read | exists_ | isDirectory | listFiles => exact hc
  | delete p | create p | write p => exact hother p rfl hsafe
  | mkdir p | createNew p =>
    cases hlast : lastFile app.roots p with
    | none => exact hother p rfl hlast
    | some bytes =>
      -- something stands there
      obtain ⟨n, hget⟩ := hc p bytes hlast
      have hfails : ∀ ok parent : Bool, (ok && (fs.get p = none) && parent) = false := by
        simp [hget]
      simpa [Op.perform, hfails] using hc
  | rewrite p f =>
    obtain ⟨hscript, rfl⟩ := hsafe
    intro q bytes hq
    by_cases hqp : q = p
    · subst hqp
      obtain ⟨n, hget⟩ := hc q bytes hq
      simp only [Op.perform, hget]
      split
      · refine ⟨n + 1, ?_⟩
        rw [Function.iterate_succ_apply']
        simp [fixed, hscript]
      · exact ⟨n, hget⟩
    · rw [Op.perform_get_of_ne (o := .rewrite p app.interpreter) rfl hqp]
      exact hc q bytes hq

theorem isLatestVersion_congr {fs' : Fs} (h : fs'.get app.versionFile = fs.get app.versionFile) :
    app.isLatestVersion fs' = app.isLatestVersion fs := by
  unfold isLatestVersion
  rw [h]

/-- An empty file is no version. -/
theorem isLatestVersion_empty :
    app.isLatestVersion (fs.put app.versionFile (.file [])) = false := by
  simp [isLatestVersion, firstLine, app.version_ne.symm]

/-- A call at the version file: it is right when it was, or the call writes the version. -/
theorem stampRight_versionFile {o : Op} (hpath : o.path = some app.versionFile)
    (hJ : app.StampsComplete o fs) (hversion : lastFile app.roots app.versionFile = none)
    (c : Choice) (h : app.StampRight fs) : app.StampRight (o.perform c fs).2 := by
  intro hlatest
  cases o with
  | io | read | exists_ | isDirectory | listFiles => cases hpath
  | delete p =>
    cases hpath
    simp only [Op.perform] at hlatest ⊢
    split at hlatest
    · simp [isLatestVersion] at hlatest
    · next hfails =>
      rw [if_neg hfails]
      exact h hlatest
  | mkdir p =>
    cases hpath
    simp only [Op.perform] at hlatest ⊢
    split at hlatest
    · simp [isLatestVersion] at hlatest
    · next hfails =>
      rw [if_neg hfails]
      exact h hlatest
  | create p | createNew p =>
    cases hpath
    simp only [Op.perform] at hlatest ⊢
    split at hlatest
    · rw [isLatestVersion_empty] at hlatest
      cases hlatest
    · next hfails =>
      rw [if_neg hfails]
      exact h hlatest
  | write p bytes =>
    cases hpath
    exact complete_perform (o := .write app.versionFile bytes) hversion c (hJ rfl)
  | rewrite p f =>
    cases hpath
    exact absurd rfl hJ

/-- **One call** keeps the version file right. -/
theorem stampRight_perform {o : Op} (hJ : app.StampsComplete o fs) (hG : app.BeforeStamp o fs)
    (hversion : lastFile app.roots app.versionFile = none) (c : Choice) (h : app.StampRight fs) :
    app.StampRight (o.perform c fs).2 := by
  by_cases hpath : o.path = some app.versionFile
  · exact stampRight_versionFile hpath hJ hversion c h
  · have hsame := isLatestVersion_congr (Op.perform_get hpath c fs)
    intro hlatest
    rw [hsame] at hlatest
    refine complete_congr (fun p hp => Op.perform_get (fun hpath => ?_) c fs) (h hlatest)
    -- the call would be at an asset file
    rw [hG p hpath hp] at hlatest
    cases hlatest

/-! ## The update and the removal -/

/-- Before calls at the paths of the assets nothing is required. -/
theorem allows_stampsComplete (hown : app.OwnFiles) : Allows app.StampsComplete
    fun q => ∃ root ∈ app.roots, q ∈ root.2.root.paths root.1 := by
  intro o fs ho
  have hne : ∀ p, o.path = some p → p ≠ app.versionFile := by
    rintro p hp rfl
    obtain ⟨root, hroot, hmem⟩ := ho _ hp
    exact hown _ List.mem_cons_self root hroot hmem
  cases o with
  | write p bytes => exact fun heq => absurd heq (hne p rfl)
  | rewrite p f => exact hne p rfl
  | _ => trivial

theorem writeFile_safe {f : Path} {text : Bytes} (hf : lastFile app.roots f = none) :
    (writeFile f text).wp (fun o _ => app.Safe o) (fun _ _ => True) fs := by
  rw [writeFile, Code.wp_bind, Java.wp_create]
  refine ⟨hf, fun c => ?_⟩
  split
  · exact ⟨hf, fun _ => trivial⟩
  · trivial

theorem dumpMissing_safe {f : Path} {text : Bytes} (hf : lastFile app.roots f = none) :
    (dumpMissing f text).wp (fun o _ => app.Safe o) (fun _ _ => True) fs := by
  rw [dumpMissing, Code.wp_bind, Java.wp_exists]
  refine ⟨trivial, fun _ => ?_⟩
  split
  · trivial
  · rw [Code.wp_bind]
    exact writeFile_safe hf

theorem installApplets_safe (names : List Text) :
    (app.installApplets names).wp (fun o _ => app.Safe o) (fun _ _ => True) fs := by
  induction names generalizing fs with
  | nil => trivial
  | cons name names ih =>
    rw [installApplets, Code.wp_bind, Java.wp_createNew]
    exact ⟨trivial, fun _ => ih⟩

theorem setInterpreters_safe {paths : List Path} (h : ∀ p ∈ paths, p ∈ app.scripts) :
    (app.setInterpreters paths).wp (fun o _ => app.Safe o) (fun _ _ => True) fs := by
  induction paths generalizing fs with
  | nil => trivial
  | cons script paths ih =>
    rw [setInterpreters, Code.wp_bind, Java.wp_rewrite]
    exact ⟨⟨h script List.mem_cons_self, rfl⟩,
      fun _ => ih fun p hp => h p (List.mem_cons_of_mem _ hp)⟩

/-- What follows the extraction leaves the assets alone. -/
theorem finishUpdate_safe (hown : app.OwnFiles) :
    app.finishUpdate.wp (fun o _ => app.Safe o) (fun _ _ => True) fs := by
  have hfree : ∀ p ∈ [app.versionFile, app.mainScriptFile, app.settingsConfFile,
      app.propertiesConfFile], lastFile app.roots p = none :=
    fun p hp => lastFile_eq_none (hown p hp)
  refine Code.wp_seq (writeFile_safe (hfree _ (by simp))) fun ok fs => ?_
  split
  · refine Code.wp_perform_seq trivial fun _ fs => ?_
    refine Code.wp_perform_seq trivial fun _ fs => ?_
    refine Code.wp_perform_seq trivial fun _ fs => ?_
    refine Code.wp_seq (installApplets_safe _) fun _ fs => ?_
    refine Code.wp_seq (setInterpreters_safe fun _ h => h) fun _ fs => ?_
    refine Code.wp_seq (dumpMissing_safe (hfree _ (by simp))) fun _ fs => ?_
    refine Code.wp_seq (dumpMissing_safe (hfree _ (by simp))) fun _ fs => ?_
    exact writeFile_safe (hfree _ (by simp))
  · trivial

theorem versionFile_not_mem_scripts : app.versionFile ∉ app.scripts := by
  unfold versionFile scripts env
  simp only [List.mem_cons, List.not_mem_nil, or_false, List.append_cancel_left_eq, List.map_cons,
    List.map_nil, List.cons.injEq]
  decide

/-- **The update** writes the version only to a complete environment. -/
theorem updateEnv_stamps (hown : app.OwnFiles) :
    app.updateEnv.wp app.StampsComplete (fun _ _ => True) fs := by
  rw [updateEnv, Code.wp_bind]
  refine Code.wp_mono (fun _ _ h => h) ?_
    (extractRoots_spec app.roots fs (allows_stampsComplete hown))
  intro ok fs₁ h
  cases ok with
  | false => trivial
  | true =>
    have hcomplete : app.Complete fs₁ := fun p bytes hp => ⟨0, h.copied rfl p bytes hp⟩
    refine Code.wp_mono (fun _ _ h => h) (fun _ _ _ => trivial) (Code.wp_keeps ?_
      (fun o c fs hsafe hc => complete_perform hsafe c hc) (finishUpdate_safe hown) hcomplete)
    intro o fs hsafe hc
    cases o with
    | write p bytes => exact fun _ => hc
    | rewrite p f =>
      rintro rfl
      exact versionFile_not_mem_scripts hsafe.1
    | _ => trivial

theorem cleanFiles_stamps {clean : Path → Java Unit}
    (hclean : ∀ p fs, (clean p).wp app.StampsComplete (fun _ _ => True) fs) (path : Path)
    (names : List Text) :
    (cleanFiles clean path names).wp app.StampsComplete (fun _ _ => True) fs := by
  induction names generalizing fs with
  | nil => trivial
  | cons name names ih =>
    have hrest : ∀ fs, (Java.delete (path ++ [name]) >>= fun _ => cleanFiles clean path names).wp
        app.StampsComplete (fun _ _ => True) fs :=
      fun fs => Code.wp_perform_seq trivial fun _ fs => ih
    refine Code.wp_perform_seq trivial fun isDir fs => ?_
    dsimp only
    split
    · exact Code.wp_seq (hclean _ fs) fun _ fs => hrest fs
    · exact hrest fs

theorem cleanDirectory_stamps (depth : Nat) (path : Path) :
    (cleanDirectory depth path).wp app.StampsComplete (fun _ _ => True) fs := by
  induction depth generalizing path fs with
  | zero => trivial
  | succ depth ih =>
    refine Code.wp_perform_seq trivial fun found fs => ?_
    split
    · refine Code.wp_perform_seq trivial fun list fs => ?_
      split
      · trivial
      · refine Code.wp_seq (cleanFiles_stamps (fun p fs => ih p) path _) fun _ fs => ?_
        exact Code.wp_perform_seq trivial fun _ _ => trivial
    · trivial

/-- Every task writes the version only to a complete environment. -/
theorem program_stamps (hown : app.OwnFiles) (task : Task) :
    (app.program task fs).wp app.StampsComplete (fun _ _ => True) fs := by
  cases task with
  | updateEnv => exact updateEnv_stamps hown
  | removeEnv => exact Code.wp_seq (cleanDirectory_stamps _ _) fun _ _ => trivial

/-- **The version file is right** in every state of all runs in which no call is made on an
asset file while `isLatestVersion` is true. -/
theorem stamp_of_guarded (hown : app.OwnFiles) (hfs : app.StampRight fs)
    (as : List (SessionAction java Task))
    (h : app.machine.Guarded (SessionGuard app.BeforeStamp) ⟨fs, none⟩ as) :
    app.machine.Always (fun s => app.StampRight s.state) ⟨fs, none⟩ as := by
  have hversion : lastFile app.roots app.versionFile = none :=
    lastFile_eq_none (hown _ List.mem_cons_self)
  exact sessions_always (fun task fs => program_stamps hown task)
    (fun o c fs hJ hG hright => stampRight_perform hJ hG hversion c hright) hfs h

/-- One file in each asset set. -/
def small : App where
  assets :=
    let tree (name : Text) : AssetTree :=
      ⟨.dir (.cons name (.file [1]) .nil), ⟨List.not_mem_nil, trivial, trivial⟩⟩
    ⟨tree ['c'], tree ['b'], tree ['b'], tree ['b'], tree ['b'], tree ['b'], tree ['w']⟩
  arch := .unknown
  envDir := [['e']]
  profile := ['p']
  version := [49]
  mainScript := [0]
  settings := []
  properties := []
  applets := []
  interpreter := id
  version_ne := by decide

/-- The environment directory alone. -/
def noFiles : Fs := ⟨[([], .dir), ([['e']], .dir)]⟩

/-- An update without failures. -/
def fullUpdate : List (SessionAction java Task) :=
  .start .updateEnv :: List.replicate 46 (.call ⟨true, 1, []⟩) ++ [.stop]

/-- The first update. -/
theorem stamp_of_guarded_fullUpdate :
    small.machine.Always (fun s => small.StampRight s.state) ⟨noFiles, none⟩ fullUpdate :=
  stamp_of_guarded (show ∀ p ∈ _, ∀ root ∈ _, p ∉ _ by decide)
    (fun h => absurd h (by decide)) fullUpdate (by decide +kernel)

/-- A second update that is stopped after its first deletion: a file is missing, and the
version file says nothing about it. -/
theorem not_always_stampRight : ¬ ∀ (app : App) (fs : Fs) (as : List (SessionAction java Task)),
    app.OwnFiles → app.isLatestVersion fs = false →
    app.machine.Always (fun s => app.StampRight s.state) ⟨fs, none⟩ as := by
  intro h
  let as : List (SessionAction java Task) := fullUpdate ++
    (.start .updateEnv :: List.replicate 5 (.call ⟨true, 1, []⟩) ++ [.stop])
  have hrun : (small.machine.exec ⟨noFiles, none⟩ as).map (fun s =>
      (small.isLatestVersion s.state, s.state.get [['e'], ['c']])) = some (true, none) := rfl
  obtain ⟨s, hs, heq⟩ := Option.map_eq_some_iff.mp hrun
  obtain ⟨hlatest, hmissing⟩ := Prod.mk.inj heq
  have hright := (Machine.Always.of_append (h small noFiles (as ++ [])
    (show ∀ p ∈ _, ∀ root ∈ _, p ∉ _ by decide) (by decide)) hs).head
  obtain ⟨n, hget⟩ := hright hlatest [['e'], ['c']] [1] (by decide)
  rw [hmissing] at hget
  cases hget

end App

end Anx.Env
