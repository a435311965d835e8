import Anx.Lib.Machine
import Anx.Conf.PrefStore

/-!
# Isolation of profiles

The preferences hold one profile. `changeProfile` empties them for a profile without
configuration file; for one that has a file it leaves in them what is there, which is
what the profile before it has left.

- `Op`, `machine`: the calls that change profiles, in any order;
- `record`: what is recorded for a profile; `Isolated`: after a change the parameters are
  those recorded, and what goes to the file of the profile comes from there;
- `Same`, `Related`: preferences and states that no later call tells apart;
- `isolated_of_guarded`: **profiles are isolated in every run** that changes to profiles
  with a file only when the preferences already are as the file records.
-/

namespace Anx.Conf.PrefStore

open Anx.Lib Store PropertiesStore

/-- A call. -/
inductive Op where
  | changeProfile (password profile : Text)
  | set (key value : Text)
  | restoreProperties
  | dumpProperties (password : Text)

/-- The call does not change to another profile. -/
def Op.Keeps (profile : Text) : Op → Prop
  | .changeProfile _ profile' => profile' = profile
  | _ => True

section

variable {File : Type} (codec : Codec File) (c : Context)

/-- Calls on the preferences and files. -/
def machine : Machine (PrefStore File) Op where
  step s
    | .changeProfile password profile => some (s.changeProfile codec c password profile)
    | .set key value => some { s with properties := PROPERTIES.set s.properties key value }
    | .restoreProperties => s.restoreProperties codec c
    | .dumpProperties password => some (s.dumpProperties codec c password)

/-- What is recorded for a profile: its file, or the default values. -/
def record (s : PrefStore File) (profile : Text) : Option Prefs :=
  match s.confs profile with
  | none => some ∅
  | some f => (codec.readConf f).map (PROPERTIES.setAll ∅)

/-- No parameter tells the preferences apart. -/
def Alike (prefs prefs' : Prefs) : Prop :=
  ∀ password key, PROPERTIES.get c password prefs key = PROPERTIES.get c password prefs' key

/-- Nothing but the file of a profile, and what is recorded for it. -/
def alone (s : PrefStore File) (profile : Text) (prefs : Prefs) : PrefStore File where
  settings := ∅
  properties := prefs
  cliConf := none
  confs := Function.update (fun _ => none) profile (s.confs profile)

/-- A change of the profile in `s`, followed by the calls `post`, is isolated. -/
structure IsolatedAt (s : PrefStore File) (password profile : Text) (post : List Op) : Prop where
  /-- Every parameter has the value that is recorded for the profile. -/
  get : ∃ prefs, record codec s profile = some prefs ∧
    Alike c (s.changeProfile codec c password profile).properties prefs
  /-- As long as the profile is not left, its file becomes what it would become if there
  were nothing but what is recorded for it. -/
  file : s.getProfileName c ≠ profile → ∀ calls rest, post = calls ++ rest →
    (∀ op ∈ calls, op.Keeps profile) → ∀ prefs, record codec s profile = some prefs →
    ∀ t, (machine codec c).exec s (.changeProfile password profile :: calls) = some t →
      ∃ t', (machine codec c).exec (s.alone profile prefs)
        (.changeProfile password profile :: calls) = some t' ∧ t.confs profile = t'.confs profile

/-- Every change of the profile in a run is isolated. -/
def Isolated (s : PrefStore File) (ops : List Op) : Prop :=
  ∀ pre password profile post, ops = pre ++ .changeProfile password profile :: post →
    ∀ t, (machine codec c).exec s pre = some t → IsolatedAt codec c t password profile post

/-- No call tells the preferences apart: the parameters, the mount points that may be
hidden, and the other upper-case keys are the same. -/
structure Same (prefs prefs' : Prefs) : Prop where
  get : Alike c prefs prefs'
  mounts : value c prefs mountsKey = value c prefs' mountsKey
  extra : ∀ key, ParamUtils.IsKey key → toLowerCase key ∉ PROPERTIES.params →
    prefs[key]?.map PrefValue.toText = prefs'[key]?.map PrefValue.toText

/-- A profile with a file is changed to only when the preferences are as the file records:
as far as the parameters tell, and when another profile is left, as far as any later call
tells. -/
def Belongs (s : PrefStore File) : Op → Prop
  | .changeProfile _ profile => s.confs profile ≠ none → ∃ prefs,
      record codec s profile = some prefs ∧ Alike c s.properties prefs ∧
        (s.getProfileName c ≠ profile → Same c s.properties prefs)
  | _ => True

end

variable {File : Type} {codec : Codec File} {c : Context} {s t : PrefStore File}

/-! ## Preferences that are the same -/

theorem Same.refl (prefs : Prefs) : Same c prefs prefs := ⟨fun _ _ => rfl, rfl, fun _ _ _ => rfl⟩

/-- The same preferences give the same output. -/
theorem Same.getAll {prefs prefs' : Prefs} (h : Same c prefs prefs') (password : Text) :
    PROPERTIES.getAll c password prefs = PROPERTIES.getAll c password prefs' :=
  getAll_congr (fun key _ => h.get password key) h.extra

/-- Values that are the same are derived from the same. -/
theorem alike_of_value {prefs prefs' : Prefs}
    (hown : ∀ password, ∀ key ≠ mountsKey, key ≠ includeKey →
      PROPERTIES.get c password prefs key = PROPERTIES.get c password prefs' key)
    (hmounts : value c prefs mountsKey = value c prefs' mountsKey) :
    Alike c prefs prefs' := by
  have htoggle : ∀ toggle ∈ toggles, PropertiesStore.isTrue (value c prefs) toggle =
      PropertiesStore.isTrue (value c prefs') toggle := by
    have hne : ∀ toggle ∈ toggles, toggle ≠ mountsKey ∧ toggle ≠ includeKey := by decide
    intro toggle h
    have hget := hown [] toggle (hne toggle h).1 (hne toggle h).2
    rw [get_plain (toggle_plain h), get_plain (toggle_plain h)] at hget
    rw [PropertiesStore.isTrue, PropertiesStore.isTrue, hget]
  intro password key
  by_cases hkey : key = mountsKey
  · subst hkey
    rw [get_mounts, get_mounts, hmounts, htoggle isMountsKey (by decide)]
  · by_cases hkey' : key = includeKey
    · subst hkey'
      rw [get_include, get_include, htoggle isInitKey (by decide), htoggle isSshKey (by decide),
        htoggle isPulseKey (by decide), htoggle isGuiKey (by decide)]
    · exact hown password key hkey hkey'

/-- Storing a value keeps preferences the same. -/
theorem Same.insert {prefs prefs' : Prefs} (h : Same c prefs prefs') (key : Text)
    (val : PrefValue) : Same c (prefs.insert key val) (prefs'.insert key val) := by
  have hmounts : value c (prefs.insert key val) mountsKey =
      value c (prefs'.insert key val) mountsKey := by
    rw [value_insert, value_insert, h.mounts]
  refine ⟨alike_of_value (fun password key' hne hne' => ?_) hmounts, hmounts, ?_⟩
  · -- the stored value is the same in both, or the parameter does not see it
    by_cases hkey : key' = key
    · refine get_congr hne hne' ?_
      rw [value_insert, value_insert, if_pos hkey, if_pos hkey]
    · have hold : ∀ prefs'' : Prefs, PROPERTIES.get c password (prefs''.insert key val) key' =
          PROPERTIES.get c password prefs'' key' := fun prefs'' =>
        get_congr hne hne' ((value_insert prefs'' key key' val).trans (if_neg hkey))
      rw [hold, hold, h.get password key']
  · intro key' hkey' hparam
    rw [Std.ExtTreeMap.getElem?_insert, Std.ExtTreeMap.getElem?_insert]
    split
    · rfl
    · exact h.extra key' hkey' hparam

theorem Same.set {prefs prefs' : Prefs} (h : Same c prefs prefs') (key val : Text) :
    Same c (PROPERTIES.set prefs key val) (PROPERTIES.set prefs' key val) := by
  have hcalls : ∀ (calls : List (Text × Text)) (prefs prefs' : Prefs), Same c prefs prefs' →
      Same c (calls.foldl PROPERTIES.put prefs) (calls.foldl PROPERTIES.put prefs') := by
    intro calls
    induction calls with
    | nil => exact fun _ _ h => h
    | cons call calls ih => exact fun _ _ h => ih _ _ (h.insert call.1 _)
  exact (hcalls _ _ _ h).insert key _

/-! ## Related states -/

/-- The profile is current in both states, with the same file and the same preferences. -/
structure Related (c : Context) (profile : Text) (s s' : PrefStore File) : Prop where
  current : s.getProfileName c = profile
  current' : s'.getProfileName c = profile
  file : s.confs profile = s'.confs profile
  properties : Same c s.properties s'.properties

variable {profile password : Text}

/-- The name of the profile is what was set. -/
theorem getProfileName_set (prefs : Prefs) (profile : Text) :
    SETTINGS.get c [] (SETTINGS.set prefs profileKey profile) profileKey = profile := by
  show value c (prefs.insert profileKey (typed profile profile)) profileKey = profile
  rw [value_insert, if_pos rfl, toText_typed]

/-- **What a change of the profile does**: the preferences change only for a profile
without a file. -/
theorem changeProfile_eq (s : PrefStore File) (password profile : Text) :
    s.changeProfile codec c password profile =
      let t := { s with
        settings := SETTINGS.set s.settings profileKey profile
        cliConf := some (SETTINGS.dump c [] codec (SETTINGS.set s.settings profileKey profile)) }
      if s.confs profile = none then
        { t with
          properties := ∅
          confs := Function.update s.confs profile (some (PROPERTIES.dump c password codec ∅)) }
      else t := by
  have hclear : clear s.properties true = ∅ := rfl
  simp only [changeProfile, dumpSettings, getProfileName, getProfileName_set, hclear,
    Option.isNone_iff_eq_none]

theorem changeProfile_current (s : PrefStore File) (password profile : Text) :
    (s.changeProfile codec c password profile).getProfileName c = profile := by
  rw [changeProfile_eq]
  split <;> exact getProfileName_set _ _

theorem changeProfile_new (codec : Codec File) (c : Context) (password : Text)
    (h : s.confs profile = none) :
    (s.changeProfile codec c password profile).properties = ∅ ∧
      (s.changeProfile codec c password profile).confs profile =
        some (PROPERTIES.dump c password codec ∅) := by
  rw [changeProfile_eq, if_pos h]
  exact ⟨rfl, Function.update_self _ _ _⟩

theorem changeProfile_existing (codec : Codec File) (c : Context) (password : Text)
    (h : s.confs profile ≠ none) :
    (s.changeProfile codec c password profile).properties = s.properties ∧
      (s.changeProfile codec c password profile).confs profile = s.confs profile := by
  rw [changeProfile_eq, if_neg h]
  exact ⟨rfl, rfl⟩

/-- Changing to a profile relates states with the same file for it, if their preferences
are the same or there is no file. -/
theorem related_changeProfile (codec : Codec File) {s' : PrefStore File}
    (hfile : s.confs profile = s'.confs profile)
    (hsame : s.confs profile ≠ none → Same c s.properties s'.properties) (password : Text) :
    Related c profile (s.changeProfile codec c password profile)
      (s'.changeProfile codec c password profile) := by
  refine ⟨changeProfile_current _ _ _, changeProfile_current _ _ _, ?_, ?_⟩
  all_goals
    by_cases h : s.confs profile = none
    · obtain ⟨hprop, hconf⟩ := changeProfile_new codec c password h
      obtain ⟨hprop', hconf'⟩ := changeProfile_new codec c password (hfile ▸ h)
      simp only [hprop, hconf, hprop', hconf', Same.refl]
    · obtain ⟨hprop, hconf⟩ := changeProfile_existing codec c password h
      obtain ⟨hprop', hconf'⟩ := changeProfile_existing codec c password (hfile ▸ h)
      simp only [hprop, hconf, hprop', hconf', hfile, hsame h]

/-- **Related states stay related** under the calls that keep the profile. -/
theorem related_step {s' : PrefStore File} {op : Op} (h : Related c profile s s')
    (hop : op.Keeps profile) (hstep : (machine codec c).step s op = some t) :
    ∃ t', (machine codec c).step s' op = some t' ∧ Related c profile t t' := by
  cases op with
  | changeProfile password profile' =>
    obtain rfl : profile' = profile := hop
    cases hstep
    exact ⟨_, rfl, related_changeProfile codec h.file (fun _ => h.properties) password⟩
  | set key val =>
    cases hstep
    exact ⟨_, rfl, h.current, h.current', h.file, h.properties.set key val⟩
  | restoreProperties =>
    -- both restore from the same file into emptied preferences
    obtain ⟨prefs, hprefs, rfl⟩ := Option.map_eq_some_iff.mp hstep
    rw [h.current, h.file] at hprefs
    refine ⟨{ s' with properties := prefs }, ?_, h.current, h.current', h.file, Same.refl prefs⟩
    refine Option.map_eq_some_iff.mpr ⟨prefs, ?_, rfl⟩
    rw [h.current']
    exact hprefs
  | dumpProperties password =>
    cases hstep
    have hdump : PROPERTIES.dump c password codec s.properties =
        PROPERTIES.dump c password codec s'.properties :=
      congrArg codec.writeConf (h.properties.getAll password)
    refine ⟨_, rfl, h.current, h.current', ?_, h.properties⟩
    show Function.update s.confs (s.getProfileName c) _ profile =
      Function.update s'.confs (s'.getProfileName c) _ profile
    rw [h.current, h.current', Function.update_self, Function.update_self, hdump]

/-! ## Isolation -/

/-- What the readers of the preferences return depends on the parameters only. -/
theorem Alike.readers {prefs : Prefs} (h : Alike c s.properties prefs) :
    s.isXserver c = { s with properties := prefs }.isXserver c ∧
      s.isFramebuffer c = { s with properties := prefs }.isFramebuffer c ∧
      s.isXsdl c = { s with properties := prefs }.isXsdl c ∧
      s.getMountsList c = { s with properties := prefs }.getMountsList c ∧
      (s.getXsdlDelay c).map Prod.fst =
        ({ s with properties := prefs }.getXsdlDelay c).map Prod.fst := by
  have hget : s.getProperty c = { s with properties := prefs }.getProperty c := funext (h [])
  refine ⟨?_, ?_, ?_, ?_, ?_⟩
  · rw [isXserver, isXserver, hget]
  · rw [isFramebuffer, isFramebuffer, hget]
  · rw [isXsdl, isXsdl, hget]
  · rw [getMountsList, getMountsList, hget]
  · rw [getXsdlDelay, getXsdlDelay, hget]
    split <;> simp [Option.map_map, Function.comp_def]

/-- **Profiles are isolated** in every run in which the preferences belong to the profile
whenever it is changed to. -/
theorem isolated_of_guarded (codec : Codec File) (c : Context) (s : PrefStore File)
    (ops : List Op) (h : (machine codec c).Guarded (Belongs codec c) s ops) :
    Isolated codec c s ops := by
  rintro pre password profile post rfl t ht
  obtain ⟨hbelongs, -⟩ := h.of_append ht _ rfl
  constructor
  · by_cases hfile : t.confs profile = none
    · refine ⟨∅, by rw [record, hfile], ?_⟩
      rw [(changeProfile_new codec c password hfile).1]
      exact (Same.refl ∅).get
    · obtain ⟨prefs, hrecord, halike, -⟩ := hbelongs hfile
      refine ⟨prefs, hrecord, ?_⟩
      rwa [(changeProfile_existing codec c password hfile).1]
  · -- the run and the run from what is recorded stay related until the profile is left
    intro hother calls rest hpost hcalls prefs hrecord u hu
    have hsame : t.confs profile ≠ none → Same c t.properties prefs := by
      intro hfile
      obtain ⟨prefs', hrecord', -, hsame⟩ := hbelongs hfile
      rw [hrecord, Option.some_inj] at hrecord'
      exact hrecord' ▸ hsame hother
    have hfile : t.confs profile = (t.alone profile prefs).confs profile :=
      (Function.update_self profile (t.confs profile) fun _ => none).symm
    have hrelated := related_changeProfile codec hfile hsame password
    obtain ⟨v, hv, hrun⟩ := (machine codec c).exec_cons.mp hu
    cases hv
    obtain ⟨t', ht', hrel⟩ := Machine.exec_simulates (G := fun _ op => op.Keeps profile)
      (fun _ _ _ _ hR hG hs => related_step hR hG hs) hrelated
      (Machine.guarded_of_forall (fun op hop _ => hcalls op hop) _) hrun
    exact ⟨t', (machine codec c).exec_cons.mpr ⟨_, rfl, ht'⟩, hrel.file⟩

/-- The profile `linux` is current, `work` has a file. -/
def linux : PrefStore Text where
  settings := ∅
  properties := .ofList [(graphicsKey, PrefValue.string "x11".toList)]
  cliConf := none
  confs profile := if profile = "work".toList then some "GRAPHICS=\"vnc\"\n".toList else none

/-- A profile without a file is isolated from what was set before. -/
theorem isolated_of_guarded_new : Isolated confFile phone linux
    [.changeProfile [] "test".toList, .set graphicsKey "fb".toList, .dumpProperties []] :=
  isolated_of_guarded confFile phone linux _ fun _ _ =>
    ⟨fun hfile => absurd (by decide) hfile, fun _ _ => ⟨trivial, fun _ _ => ⟨trivial, trivial⟩⟩⟩

/-- After a change to the profile `work` the graphics are still those of `linux`. -/
theorem isolated_of_guarded_fails :
    ¬ ∀ (s : PrefStore Text) (ops : List Op), Isolated confFile phone s ops := by
  intro h
  have hread : confFile.readConf "GRAPHICS=\"vnc\"\n".toList =
      some (.ofList [("GRAPHICS".toList, "vnc".toList)]) := by decide
  have hrecord : record confFile linux "work".toList =
      some (PROPERTIES.setAll ∅ (.ofList [("GRAPHICS".toList, "vnc".toList)])) :=
    congrArg (Option.map (PROPERTIES.setAll ∅)) hread
  obtain ⟨prefs, hprefs, halike⟩ := (h linux [.changeProfile [] "work".toList] [] [] "work".toList []
    rfl linux rfl).get
  rw [hrecord, Option.some_inj] at hprefs
  subst hprefs
  have hget := halike [] graphicsKey
  rw [(changeProfile_existing confFile phone [] (by decide)).1, get_plain (by decide),
    get_plain (by decide)] at hget
  have hvalue : value phone (PROPERTIES.setAll ∅
      (.ofList [("GRAPHICS".toList, "vnc".toList)])) graphicsKey = "vnc".toList := by
    have hget : (.ofList [("GRAPHICS".toList, "vnc".toList)] : ConfMap)[toUpperCase graphicsKey]? =
        some "vnc".toList := by decide
    have hkey : graphicsKey ∈ PROPERTIES.params := by decide
    rw [value, getElem?_setAll_param hkey hget]
    rfl
  rw [hvalue] at hget
  exact absurd hget (by decide)

end Anx.Conf.PrefStore
