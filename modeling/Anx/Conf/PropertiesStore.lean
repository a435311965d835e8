import Anx.Conf.Store

/-!
# The stores of the app

`PropertiesStore` (PropertiesStore.java) keeps the parameters of a profile,
`SettingsStore` the settings of the app. The switches `is_init`, `is_ssh`, `is_pulse`,
`is_gui` and `is_mounts` are no parameters: they go to a file within `INCLUDE` and
`MOUNTS` and come back from there.

- `includes`, `fixOutputParam`, `fixInputParam`, `PROPERTIES`, `SETTINGS`: the stores;
- `fixOutputParam_get`: the nested `get` of a switch is its stored value;
- `isTrue_setAll_getAll`: the switches after taking in an output;
- `get_setAll_getAll`: **every parameter survives** output and input.
-/

namespace Anx.Conf

open Anx.Lib ParamUtils Store

namespace PropertiesStore

/-- The names of the parameters. -/
def params : List Text :=
  ["distrib", "arch", "suite", "source_path", "target_type", "target_path", "disk_size",
    "fs_type", "user_name", "user_password", "privileged_users", "locale", "dns",
    "net_trigger", "power_trigger", "init", "init_path", "init_level", "init_user",
    "init_async", "ssh_port", "ssh_args", "pulse_host", "pulse_port", "graphics",
    "vnc_display", "vnc_depth", "vnc_dpi", "vnc_width", "vnc_height", "vnc_args",
    "x11_display", "x11_host", "x11_sdl", "x11_sdl_delay", "fb_display", "fb_dev",
    "fb_input", "fb_args", "fb_refresh", "fb_freeze", "desktop", "mounts", "include"].map
      String.toList

/-! ## Names -/

def userPasswordKey : Text := "user_password".toList
def vncWidthKey : Text := "vnc_width".toList
def vncHeightKey : Text := "vnc_height".toList
def mountsKey : Text := "mounts".toList
def includeKey : Text := "include".toList

def isInitKey : Text := "is_init".toList
def isSshKey : Text := "is_ssh".toList
def isPulseKey : Text := "is_pulse".toList
def isGuiKey : Text := "is_gui".toList
def isMountsKey : Text := "is_mounts".toList

/-- The switches. -/
def toggles : List Text := [isInitKey, isSshKey, isPulseKey, isGuiKey, isMountsKey]

def bootstrap : Text := "bootstrap".toList
def init : Text := "init".toList
def ssh : Text := "extra/ssh".toList
def pulse : Text := "extra/pulse".toList
def graphics : Text := "graphics".toList
def desktop : Text := "desktop".toList

/-! ## The store -/

/-- The sorted set of included components. -/
def includes (isInit isSsh isPulse isGui : Bool) : List Text :=
  let includes := (∅ : Std.ExtTreeSet Text compare).insert bootstrap
  let includes := if isInit then includes.insert init else includes.erase init
  let includes := if isSsh then includes.insert ssh else includes.erase ssh
  let includes := if isPulse then includes.insert pulse else includes.erase pulse
  let includes :=
    if isGui then (includes.insert graphics).insert desktop
    else (includes.erase graphics).erase desktop
  includes.toList

/-- The parameter is `true`. -/
def isTrue (get : Text → Text) (key : Text) : Bool := get key = trueText

/-- `fixOutputParam` of `PropertiesStore`. -/
def fixOutputParam (c : Context) (password : Text) (get : Text → Text) (key value : Text) : Text :=
  if key = userPasswordKey then if value = [] then password else value
  else if key = vncWidthKey then
    if value = [] then (toString (max c.screenWidth c.screenHeight)).toList else value
  else if key = vncHeightKey then
    if value = [] then (toString (min c.screenWidth c.screenHeight)).toList else value
  else if key = mountsKey then if isTrue get isMountsKey then value else []
  else if key = includeKey then
    [' '].intercalate
      (includes (isTrue get isInitKey) (isTrue get isSshKey) (isTrue get isPulseKey)
        (isTrue get isGuiKey))
  else value

/-- `set(c, toggle, "true")` under a condition. -/
def enable (condition : Bool) (toggle : Text) : List (Text × Text) :=
  if condition then [(toggle, trueText)] else []

/-- `fixInputParam` of `PropertiesStore`. -/
def fixInputParam (key value : Text) : Text × List (Text × Text) :=
  let includes := split ' ' value
  let calls :=
    if key = mountsKey then enable (value ≠ []) isMountsKey
    else if key = includeKey then
      enable (init ∈ includes) isInitKey ++ enable (ssh ∈ includes) isSshKey ++
        enable (pulse ∈ includes) isPulseKey ++ enable (graphics ∈ includes) isGuiKey
    else []
  (value, calls)

theorem mem_enable {condition : Bool} {toggle : Text} {call : Text × Text} :
    call ∈ enable condition toggle ↔ condition = true ∧ call = (toggle, trueText) := by
  cases condition <;> simp [enable]

theorem includeKey_ne_mountsKey : includeKey ≠ mountsKey := by decide

/-- The components of `INCLUDE` that switch something on. -/
def components : List (Text × Text) :=
  [(init, isInitKey), (ssh, isSshKey), (pulse, isPulseKey), (graphics, isGuiKey)]

/-- What `fixInputParam` switches on. -/
theorem mem_calls_iff {key value : Text} {call : Text × Text} :
    call ∈ (fixInputParam key value).2 ↔
      (key = mountsKey ∧ value ≠ [] ∧ call = (isMountsKey, trueText)) ∨
      (key = includeKey ∧ ∃ component ∈ components,
        component.1 ∈ split ' ' value ∧ call = (component.2, trueText)) := by
  by_cases hmounts : key = mountsKey
  · subst hmounts
    simp [fixInputParam, mem_enable, Ne.symm includeKey_ne_mountsKey]
  · by_cases hinclude : key = includeKey
    · subst hinclude
      simp [fixInputParam, includeKey_ne_mountsKey, mem_enable, components]
    · simp [fixInputParam, hmounts, hinclude]

/-- `fixInputParam` only switches on. -/
theorem calls_toggle {key value : Text} {call : Text × Text}
    (h : call ∈ (fixInputParam key value).2) : call.1 ∈ toggles ∧ call.2 = trueText := by
  have hcomponents : ∀ component ∈ components, component.2 ∈ toggles := by decide
  rcases mem_calls_iff.mp h with ⟨-, -, rfl⟩ | ⟨-, component, hcomponent, -, rfl⟩
  · exact ⟨by decide, rfl⟩
  · exact ⟨hcomponents component hcomponent, rfl⟩

theorem calls_flat (key value : Text) : ∀ call ∈ (fixInputParam key value).2,
    (fixInputParam call.1 call.2).2 = [] := by
  intro call hcall
  have hne : ∀ toggle ∈ toggles, toggle ≠ mountsKey ∧ toggle ≠ includeKey := by decide
  obtain ⟨hmounts, hinclude⟩ := hne call.1 (calls_toggle hcall).1
  simp [fixInputParam, hmounts, hinclude]

theorem params_lower : ∀ key ∈ params, IsKey (toUpperCase key) ∧
    toLowerCase (toUpperCase key) = key ∧ ¬ IsKey key := by decide +kernel

end PropertiesStore

/-- The properties of the current profile. -/
def PROPERTIES : Store where
  params := PropertiesStore.params
  fixOutputParam := PropertiesStore.fixOutputParam
  fixInputParam := PropertiesStore.fixInputParam
  params_lower := PropertiesStore.params_lower
  calls_flat := PropertiesStore.calls_flat

/-- The settings of the app. -/
def SETTINGS : Store where
  params := ["chroot_dir", "profile"].map String.toList
  fixOutputParam := fun _ _ _ _ value => value
  fixInputParam := fun _ value => (value, [])
  params_lower := by decide
  calls_flat := fun _ _ _ h => (nomatch h)

namespace PropertiesStore

variable {c : Context} {password : Text}

/-! ## Output -/

theorem get_eq (prefs : Prefs) (key : Text) : PROPERTIES.get c password prefs key =
    fixOutputParam c password (value c prefs) key (value c prefs key) := rfl

theorem get_userPassword (prefs : Prefs) : PROPERTIES.get c password prefs userPasswordKey =
    if value c prefs userPasswordKey = [] then password else value c prefs userPasswordKey := rfl

theorem get_vncWidth (prefs : Prefs) : PROPERTIES.get c password prefs vncWidthKey =
    if value c prefs vncWidthKey = [] then (toString (max c.screenWidth c.screenHeight)).toList
    else value c prefs vncWidthKey := by
  rw [get_eq, fixOutputParam, if_neg (by decide), if_pos rfl]

theorem get_vncHeight (prefs : Prefs) : PROPERTIES.get c password prefs vncHeightKey =
    if value c prefs vncHeightKey = [] then (toString (min c.screenWidth c.screenHeight)).toList
    else value c prefs vncHeightKey := by
  rw [get_eq, fixOutputParam, if_neg (by decide), if_neg (by decide), if_pos rfl]

theorem get_mounts (prefs : Prefs) : PROPERTIES.get c password prefs mountsKey =
    if isTrue (value c prefs) isMountsKey then value c prefs mountsKey else [] := by
  rw [get_eq, fixOutputParam, if_neg (by decide), if_neg (by decide),
    if_neg (by decide), if_pos rfl]

theorem get_include (prefs : Prefs) : PROPERTIES.get c password prefs includeKey =
    [' '].intercalate (includes (isTrue (value c prefs) isInitKey) (isTrue (value c prefs) isSshKey)
      (isTrue (value c prefs) isPulseKey) (isTrue (value c prefs) isGuiKey)) := by
  rw [get_eq, fixOutputParam, if_neg (by decide), if_neg (by decide),
    if_neg (by decide), if_neg (by decide), if_pos rfl]

/-- The other parameters are derived from their own value only. -/
theorem get_congr {prefs prefs' : Prefs} {key : Text} (hmounts : key ≠ mountsKey)
    (hinclude : key ≠ includeKey) (hvalue : value c prefs key = value c prefs' key) :
    PROPERTIES.get c password prefs key = PROPERTIES.get c password prefs' key := by
  rw [get_eq, get_eq, fixOutputParam, fixOutputParam, hvalue]
  simp only [if_neg hmounts, if_neg hinclude]

/-- The parameters that are derived on output. -/
def derived : List Text := [userPasswordKey, vncWidthKey, vncHeightKey, mountsKey, includeKey]

theorem get_plain {key : Text} (h : key ∉ derived) (prefs : Prefs) :
    PROPERTIES.get c password prefs key = value c prefs key := by
  simp only [derived, List.mem_cons, List.not_mem_nil, or_false, not_or] at h
  obtain ⟨hpassword, hwidth, hheight, hmounts, hinclude⟩ := h
  rw [get_eq, fixOutputParam, if_neg hpassword, if_neg hwidth, if_neg hheight,
    if_neg hmounts, if_neg hinclude]

theorem toggle_plain {toggle : Text} (h : toggle ∈ toggles) : toggle ∉ derived := by
  have hall : ∀ toggle ∈ toggles, toggle ∉ derived := by decide
  exact hall toggle h

/-- The nested `get` of a switch is its stored value. -/
theorem fixOutputParam_get (prefs : Prefs) (key val : Text) :
    fixOutputParam c password (PROPERTIES.get c password prefs) key val =
      fixOutputParam c password (value c prefs) key val := by
  have htoggle : ∀ toggle ∈ toggles,
      isTrue (PROPERTIES.get c password prefs) toggle = isTrue (value c prefs) toggle := by
    intro toggle h
    rw [isTrue, isTrue, get_plain (toggle_plain h)]
  have hinit := htoggle isInitKey (by decide)
  have hssh := htoggle isSshKey (by decide)
  have hpulse := htoggle isPulseKey (by decide)
  have hgui := htoggle isGuiKey (by decide)
  have hmounts := htoggle isMountsKey (by decide)
  rw [fixOutputParam, fixOutputParam, hinit, hssh, hpulse, hgui, hmounts]

/-! ## Output and input -/

/-- The words of `INCLUDE` are the included components. -/
theorem mem_split_includes : ∀ isInit isSsh isPulse isGui : Bool,
    (init ∈ split ' ' ([' '].intercalate (includes isInit isSsh isPulse isGui)) ↔ isInit = true) ∧
    (ssh ∈ split ' ' ([' '].intercalate (includes isInit isSsh isPulse isGui)) ↔ isSsh = true) ∧
    (pulse ∈ split ' ' ([' '].intercalate (includes isInit isSsh isPulse isGui)) ↔
      isPulse = true) ∧
    (graphics ∈ split ' ' ([' '].intercalate (includes isInit isSsh isPulse isGui)) ↔
      isGui = true) := by decide +kernel

/-- A component is in the output when its switch is on. -/
theorem mem_split_include (prefs : Prefs) {component : Text × Text}
    (h : component ∈ components) :
    component.1 ∈ split ' ' (PROPERTIES.get c password prefs includeKey) ↔
      isTrue (value c prefs) component.2 = true := by
  obtain ⟨hinit, hssh, hpulse, hgui⟩ := mem_split_includes (isTrue (value c prefs) isInitKey)
    (isTrue (value c prefs) isSshKey) (isTrue (value c prefs) isPulseKey)
    (isTrue (value c prefs) isGuiKey)
  simp only [components, List.mem_cons, List.not_mem_nil, or_false] at h
  rw [get_include]
  rcases h with rfl | rfl | rfl | rfl
  · exact hinit
  · exact hssh
  · exact hpulse
  · exact hgui

/-- A parameter that has a default one in place of the empty value. -/
theorem get_filled {key default : Text}
    (hget : ∀ password prefs, PROPERTIES.get c password prefs key =
      if value c prefs key = [] then default else value c prefs key)
    (hdefault : default ≠ []) {prefs prefs' : Prefs} (password' : Text)
    (hvalue : value c prefs' key = PROPERTIES.get c password prefs key) :
    PROPERTIES.get c password' prefs' key = PROPERTIES.get c password prefs key := by
  have hne : PROPERTIES.get c password prefs key ≠ [] := by
    rw [hget]
    split
    · exact hdefault
    · assumption
  rw [hget password', hvalue, if_neg hne]

theorem toString_ne_nil (n : Int) : (toString n).toList ≠ [] := by
  cases n with
  | ofNat n =>
    show (Nat.repr n).toList ≠ []
    simp [Nat.repr]
  | negSucc n =>
    show ("-" ++ Nat.repr (n + 1)).toList ≠ []
    simp

/-- The names of the switches are neither parameters nor upper-case keys. -/
theorem toggle_other {toggle : Text} (h : toggle ∈ toggles) :
    toggle ∉ PROPERTIES.params ∧ ¬ IsKey toggle := by
  have hall : ∀ toggle ∈ toggles, toggle ∉ params ∧ ¬ IsKey toggle := by decide +kernel
  exact hall toggle h

/-- Taking in a map changes the switches only by calls. -/
theorem getElem?_setAll_toggle {toggle : Text} (h : toggle ∈ toggles) (prefs : Prefs)
    (source : ConfMap) : (PROPERTIES.setAll prefs source)[toggle]? =
      ((source.toList.flatMap PROPERTIES.calls).foldl PROPERTIES.put prefs)[toggle]? := by
  obtain ⟨hparam, hkey⟩ := toggle_other h
  apply getElem?_setAll_other
  rintro entry - change hedit rfl
  obtain ⟨hentry, hchange⟩ := edit_key hedit
  split at hchange
  · next hlower => exact hparam (hchange ▸ hlower)
  · exact hkey (hchange ▸ hentry)

/-- No switch is on by default. -/
def TogglesOff (c : Context) : Prop := ∀ toggle ∈ toggles, c.string toggle ≠ some trueText

instance (c : Context) : Decidable (TogglesOff c) :=
  inferInstanceAs (Decidable (∀ toggle ∈ toggles, c.string toggle ≠ some trueText))

/-- **The switches after an output is taken in**: those that it calls for. -/
theorem isTrue_setAll_getAll (hoff : TogglesOff c) {toggle : Text} (h : toggle ∈ toggles)
    (prefs : Prefs) :
    isTrue (value c (PROPERTIES.setAll ∅ (PROPERTIES.getAll c password prefs))) toggle = true ↔
      ∃ key ∈ params,
        (toggle, trueText) ∈ (fixInputParam key (PROPERTIES.get c password prefs key)).2 := by
  have hcalls := @mem_calls_getAll PROPERTIES c password prefs
  have htrue : ∀ call ∈ (PROPERTIES.getAll c password prefs).toList.flatMap PROPERTIES.calls,
      call.2 = trueText := by
    intro call hcall
    obtain ⟨key, -, hkey⟩ := hcalls.mp hcall
    exact (calls_toggle hkey).2
  rw [isTrue, decide_eq_true_eq, value, getElem?_setAll_toggle h]
  refine Iff.trans ?_ hcalls
  by_cases hmem : (toggle, trueText) ∈
      (PROPERTIES.getAll c password prefs).toList.flatMap PROPERTIES.calls
  · -- every call for the switch puts the same value
    rw [getElem?_put hmem fun call hcall _ => htrue call hcall]
    exact iff_of_true rfl hmem
  · have hkey : toggle ∉
        ((PROPERTIES.getAll c password prefs).toList.flatMap PROPERTIES.calls).map Prod.fst := by
      intro hkey
      obtain ⟨call, hcall, rfl⟩ := List.mem_map.mp hkey
      exact hmem (htrue call hcall ▸ hcall)
    -- no call: the preferences were cleared, and the default is not `true`
    rw [getElem?_put_other hkey, Std.ExtTreeMap.getElem?_empty, Option.map_none,
      Option.getD_none]
    refine iff_of_false ?_ hmem
    have hdefault := hoff toggle h
    cases hstring : c.string toggle with
    | none =>
      rw [Option.getD_none]
      decide
    | some val => rwa [hstring, ne_eq, Option.some_inj] at hdefault

/-- The switch of the mount points comes from `MOUNTS`. -/
theorem isMounts_setAll_getAll (hoff : TogglesOff c) (prefs : Prefs) :
    isTrue (value c (PROPERTIES.setAll ∅ (PROPERTIES.getAll c password prefs))) isMountsKey = true ↔
      PROPERTIES.get c password prefs mountsKey ≠ [] := by
  have hcomponents : ∀ component ∈ components, component.2 ≠ isMountsKey := by decide
  rw [isTrue_setAll_getAll hoff (by decide)]
  constructor
  · rintro ⟨key, -, hcall⟩
    rcases mem_calls_iff.mp hcall with ⟨rfl, hne, -⟩ | ⟨-, component, hcomponent, -, heq⟩
    · exact hne
    · exact absurd (congrArg Prod.fst heq).symm (hcomponents component hcomponent)
  · intro hne
    exact ⟨mountsKey, by decide +kernel, mem_calls_iff.mpr (.inl ⟨rfl, hne, rfl⟩)⟩

/-- The other switches come from `INCLUDE`, and are as they were. -/
theorem isTrue_component (hoff : TogglesOff c) (prefs : Prefs) {component : Text × Text}
    (h : component ∈ components) :
    isTrue (value c (PROPERTIES.setAll ∅ (PROPERTIES.getAll c password prefs))) component.2 =
      isTrue (value c prefs) component.2 := by
  have hcomponents : ∀ component ∈ components, component.2 ∈ toggles ∧ component.2 ≠ isMountsKey ∧
      ∀ component' ∈ components, component'.2 = component.2 → component' = component := by decide
  obtain ⟨htoggle, hmounts, hsame⟩ := hcomponents component h
  rw [Bool.eq_iff_iff, isTrue_setAll_getAll hoff htoggle, ← mem_split_include prefs h]
  constructor
  · rintro ⟨key, -, hcall⟩
    rcases mem_calls_iff.mp hcall with ⟨-, -, heq⟩ | ⟨rfl, component', hcomponent', hword, heq⟩
    · exact absurd (congrArg Prod.fst heq) hmounts
    · exact hsame component' hcomponent' (congrArg Prod.fst heq).symm ▸ hword
  · intro hword
    exact ⟨includeKey, by decide +kernel, mem_calls_iff.mpr (.inr ⟨rfl, component, h, hword, rfl⟩)⟩

/-- **Every parameter survives** output and input. -/
theorem get_setAll_getAll (hoff : TogglesOff c) {prefs : Prefs}
    (hpassword : value c prefs userPasswordKey ≠ []) (password' : Text) {key : Text}
    (hkey : key ∈ params) :
    PROPERTIES.get c password' (PROPERTIES.setAll ∅ (PROPERTIES.getAll c password prefs)) key =
      PROPERTIES.get c password prefs key := by
  have hvalue : value c (PROPERTIES.setAll ∅ (PROPERTIES.getAll c password prefs)) key =
      PROPERTIES.get c password prefs key := value_setAll_getAll hkey fun _ => rfl
  by_cases hderived : key ∈ derived
  · simp only [derived, List.mem_cons, List.not_mem_nil, or_false] at hderived
    rcases hderived with rfl | rfl | rfl | rfl | rfl
    · have hget : PROPERTIES.get c password prefs userPasswordKey ≠ [] := by
        rwa [get_userPassword, if_neg hpassword]
      rw [get_userPassword, hvalue, if_neg hget]
    · exact get_filled (fun _ => get_vncWidth) (toString_ne_nil _) password' hvalue
    · exact get_filled (fun _ => get_vncHeight) (toString_ne_nil _) password' hvalue
    · -- the switch is on again exactly when there is a mount point to show
      rw [get_mounts, hvalue]
      split
      · rfl
      · next hoff' =>
        rw [isMounts_setAll_getAll hoff, not_not] at hoff'
        exact hoff'.symm
    · -- recomputed from the switches, which are as they were
      have hsame : ∀ component ∈ components, isTrue (value c
          (PROPERTIES.setAll ∅ (PROPERTIES.getAll c password prefs))) component.2 =
          isTrue (value c prefs) component.2 := fun _ h => isTrue_component hoff prefs h
      have hinit := hsame (init, isInitKey) (by decide)
      have hssh := hsame (ssh, isSshKey) (by decide)
      have hpulse := hsame (pulse, isPulseKey) (by decide)
      have hgui := hsame (graphics, isGuiKey) (by decide)
      rw [get_include, get_include, hinit, hssh, hpulse, hgui]
  · rw [get_plain hderived, hvalue]

/-- Without a generated password the output is always the same. -/
theorem getAll_password {prefs : Prefs} (hpassword : value c prefs userPasswordKey ≠ [])
    (password' : Text) :
    PROPERTIES.getAll c password prefs = PROPERTIES.getAll c password' prefs := by
  refine getAll_congr (fun key _ => ?_) fun _ _ _ => rfl
  by_cases hkey : key = userPasswordKey
  · subst hkey
    rw [get_userPassword, get_userPassword, if_neg hpassword, if_neg hpassword]
  · rw [get_eq, get_eq, fixOutputParam, fixOutputParam, if_neg hkey, if_neg hkey]

/-- **The output survives** being taken in. -/
theorem getAll_setAll_getAll (hoff : TogglesOff c) {prefs : Prefs}
    (hpassword : value c prefs userPasswordKey ≠ []) (password' : Text) :
    PROPERTIES.getAll c password' (PROPERTIES.setAll ∅ (PROPERTIES.getAll c password prefs)) =
      PROPERTIES.getAll c password prefs := by
  refine getAll_congr (fun key hkey => get_setAll_getAll hoff hpassword password' hkey) ?_
  intro key hkey hparam
  have hget : (PROPERTIES.getAll c password prefs)[key]? = prefs[key]?.map PrefValue.toText :=
    getElem?_getAll_extra prefs hkey hparam
  cases hval : prefs[key]? with
  | some val =>
    rw [hval, Option.map_some] at hget
    rw [getElem?_setAll_extra hkey hparam hget]
    rfl
  | none =>
    rw [hval, Option.map_none] at hget
    rw [getElem?_setAll_none hkey hget, getElem?_put_other, Std.ExtTreeMap.getElem?_empty]
    -- calls only change switches
    intro hmem
    obtain ⟨call, hcall, rfl⟩ := List.mem_map.mp hmem
    obtain ⟨param, -, hcalls⟩ := (mem_calls_getAll prefs).mp hcall
    exact (toggle_other (calls_toggle hcalls).1).2 hkey

end PropertiesStore

end Anx.Conf
