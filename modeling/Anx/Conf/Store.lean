import Anx.Conf.ParamUtils

/-!
# Preference stores

`ParamUtils` (ParamUtils.java:61–158) keeps parameters in the shared preferences and
moves them to and from configuration files. Its subclasses say which parameters there
are and how some of them are derived from others.

- `Prefs`, `Context`, `Codec`: what a store works with;
- `Store`: a subclass; `get`, `getAll`, `set`, `setAll`, `clear`, `dump`, `restore`: its
  functions;
- `set_eq`: the nested calls of `set` are calls of `set`;
- `getElem?_getAll`, `getElem?_setAll_param`, `getElem?_setAll_extra`,
  `getElem?_setAll_other`: **what a store outputs and what it takes in**, key by key.
-/

namespace Anx.Conf

open Anx.Lib ParamUtils

/-- A value of the shared preferences. -/
inductive PrefValue where
  | boolean (b : Bool)
  | string (s : Text)
deriving DecidableEq

/-- `toString`. -/
def PrefValue.toText : PrefValue → Text
  | .boolean b => (toString b).toList
  | .string s => s

/-- Shared preferences. -/
abbrev Prefs := Std.ExtTreeMap Text PrefValue compare

/-- The string resources and the size of the screen. -/
structure Context where
  string : Text → Option Text
  screenWidth : Int
  screenHeight : Int

/-- How a map is written to a file and read back; reading may throw. -/
structure Codec (File : Type) where
  writeConf : ConfMap → File
  readConf : File → Option ConfMap

/-- The configuration files of the app. -/
def confFile : Codec Text := ⟨writeConf, readConf⟩

/-- `toUpperCase` of a name. -/
def toUpperCase (key : Text) : Text := key.map Char.toUpper

/-- `toLowerCase` of a name. -/
def toLowerCase (key : Text) : Text := key.map Char.toLower

/-- A subclass of `ParamUtils`. Its `fixOutputParam` gets the password that it may
generate and the values of all parameters; its `fixInputParam` returns the value to store
and the calls of `set` that it makes. -/
structure Store where
  params : List Text
  fixOutputParam : Context → Text → (Text → Text) → Text → Text → Text
  fixInputParam : Text → Text → Text × List (Text × Text)
  /-- Parameters have lower-case names. -/
  params_lower : ∀ key ∈ params, IsKey (toUpperCase key) ∧ toLowerCase (toUpperCase key) = key ∧
    ¬ IsKey key
  /-- A call that `fixInputParam` makes leads to no other one. -/
  calls_flat : ∀ key value, ∀ call ∈ (fixInputParam key value).2,
    (fixInputParam call.1 call.2).2 = []

namespace Store

/-- The stored value, or the default one. -/
def value (c : Context) (prefs : Prefs) (key : Text) : Text :=
  (prefs[key]?.map PrefValue.toText).getD ((c.string key).getD [])

/-- The text of a value that is set. -/
def trueText : Text := "true".toList

/-- The text of a value that is not set. -/
def falseText : Text := "false".toList

/-- A value as `putBoolean` or `putString` stores it. -/
def typed (value fixed : Text) : PrefValue :=
  if value = trueText ∨ value = falseText then .boolean (fixed = trueText) else .string fixed

variable (store : Store) (c : Context) (password : Text)

/-- `get(c, key)`. -/
def get (prefs : Prefs) (key : Text) : Text :=
  store.fixOutputParam c password (value c prefs) key (value c prefs key)

/-- The first loop of `get(c)`. -/
def getParams (prefs : Prefs) : ConfMap :=
  store.params.foldl
    (fun target key => target.insert (toUpperCase key) (store.get c password prefs key)) ∅

/-- The second loop of `get(c)`: other upper-case keys. -/
def addExtra (target : ConfMap) (entry : Text × PrefValue) : ConfMap :=
  if IsKey entry.1 ∧ ¬ entry.1 ∈ target then target.insert entry.1 entry.2.toText else target

/-- `get(c)`. -/
def getAll (prefs : Prefs) : ConfMap := prefs.toList.foldl addExtra (store.getParams c password prefs)

/-- A call of `set` in `fixInputParam`. -/
def put (prefs : Prefs) (call : Text × Text) : Prefs :=
  prefs.insert call.1 (typed call.2 (store.fixInputParam call.1 call.2).1)

/-- `set(c, key, value)`. -/
def set (prefs : Prefs) (key value : Text) : Prefs :=
  let (fixed, calls) := store.fixInputParam key value
  (calls.foldl store.put prefs).insert key (typed value fixed)

/-- The loop body of `set(c, source)`, on the preferences, which the calls of
`fixInputParam` change, and the changes that the editor has collected. -/
def setEntry (state : Prefs × List (Text × PrefValue)) (entry : Text × Text) :
    Prefs × List (Text × PrefValue) :=
  let (prefs, edits) := state
  let (key, value) := entry
  if IsKey key then
    let lowerKey := toLowerCase key
    if lowerKey ∈ store.params then
      let (fixed, calls) := store.fixInputParam lowerKey value
      (calls.foldl store.put prefs, edits ++ [(lowerKey, typed value fixed)])
    else (prefs, edits ++ [(key, .string value)])
  else state

/-- `set(c, source)`. -/
def setAll (prefs : Prefs) (source : ConfMap) : Prefs :=
  let (prefs, edits) := source.toList.foldl store.setEntry (prefs, [])
  prefs.insertMany edits

/-- `clear`. -/
def clear (prefs : Prefs) (all : Bool) : Prefs :=
  if all then ∅ else prefs.filter fun key _ => ¬ IsKey key

section

variable {File : Type} (codec : Codec File)

/-- `dump`: the file. -/
def dump (prefs : Prefs) : File := codec.writeConf (store.getAll c password prefs)

/-- `restore`, from a file that exists or not; `none` when it throws. -/
def restore (prefs : Prefs) : Option File → Option Prefs
  | none => some (clear prefs false)
  | some f => (codec.readConf f).map (store.setAll (clear prefs false))

end

variable {store : Store} {c : Context} {password : Text}

/-! ## Names -/

theorem toUpper_toLower {ch : Char} (h : isKeyChar ch = true) : ch.toLower.toUpper = ch := by
  have hall : ∀ n : Fin 128, isKeyChar (Char.ofNat n) = true →
      (Char.ofNat n).toLower.toUpper = Char.ofNat n := by decide
  have hlt : ch.toNat < 128 := by
    have hval : ch.toNat = ch.val.toNat := rfl
    simp only [isKeyChar, Bool.or_eq_true, Bool.and_eq_true, decide_eq_true_eq, Char.le_def,
      UInt32.le_iff_toNat_le] at h
    rcases h with (h | h) | h
    · have hz : ('Z' : Char).val.toNat = 90 := rfl
      omega
    · have hnine : ('9' : Char).val.toNat = 57 := rfl
      omega
    · subst h
      decide
  have hch := hall ⟨ch.toNat, hlt⟩
  simpa [h] using hch

theorem toUpperCase_toLowerCase {key : Text} (h : IsKey key) :
    toUpperCase (toLowerCase key) = key := by
  rw [toUpperCase, toLowerCase, List.map_map]
  refine (List.map_congr_left fun ch hch => ?_).trans (List.map_id _)
  exact toUpper_toLower (h.2 ch hch)

/-- An upper-case key is the name of a parameter exactly when its lower-case form is one. -/
theorem mem_upper_iff {key : Text} (h : IsKey key) :
    key ∈ store.params.map toUpperCase ↔ toLowerCase key ∈ store.params := by
  constructor
  · intro hmem
    obtain ⟨param, hparam, rfl⟩ := List.mem_map.mp hmem
    rwa [(store.params_lower param hparam).2.1]
  · intro hmem
    exact List.mem_map.mpr ⟨_, hmem, toUpperCase_toLowerCase h⟩

theorem isKey_of_mem_upper {key : Text} (h : key ∈ store.params.map toUpperCase) : IsKey key := by
  obtain ⟨param, hparam, rfl⟩ := List.mem_map.mp h
  exact (store.params_lower param hparam).1

/-! ## Output -/

theorem toText_typed (value : Text) : (typed value value).toText = value := by
  rw [typed]
  split
  · next h =>
    rcases h with rfl | rfl
    · rfl
    · rfl
  · rfl

theorem getElem?_getParams (prefs : Prefs) (key : Text) :
    (store.getParams c password prefs)[key]? =
      if key ∈ store.params.map toUpperCase then
        some (store.get c password prefs (toLowerCase key)) else none := by
  suffices h : ∀ (params : List Text) (target : ConfMap), (∀ k ∈ params, k ∈ store.params) →
      (params.foldl (fun target key =>
        target.insert (toUpperCase key) (store.get c password prefs key)) target)[key]? =
      if key ∈ params.map toUpperCase then some (store.get c password prefs (toLowerCase key))
      else target[key]? by
    exact (h store.params ∅ fun _ hk => hk).trans (by rw [Std.ExtTreeMap.getElem?_empty])
  -- the induction is on the parameters that are still to be put into `target`
  intro params
  induction params with
  | nil => exact fun _ _ => rfl
  | cons param params ih =>
    intro target hparams
    have hlower := (store.params_lower param (hparams param List.mem_cons_self)).2.1
    rw [List.foldl_cons, ih _ fun k hk => hparams k (List.mem_cons_of_mem _ hk), List.map_cons]
    by_cases hrest : key ∈ params.map toUpperCase
    · rw [if_pos hrest, if_pos (List.mem_cons_of_mem _ hrest)]
    · rw [if_neg hrest, Std.ExtTreeMap.getElem?_insert]
      by_cases hkey : key = toUpperCase param
      · subst hkey
        simp [hlower]
      · simp [hrest, hkey, Ne.symm hkey]

theorem getElem?_addExtra (entries : List (Text × PrefValue)) (target : ConfMap) (key : Text) :
    (entries.foldl addExtra target)[key]? =
      target[key]?.or (if IsKey key then (entries.lookup key).map PrefValue.toText else none) := by
  induction entries generalizing target with
  | nil => simp
  | cons entry entries ih =>
    obtain ⟨name, val⟩ := entry
    rw [List.foldl_cons, ih, addExtra, List.lookup_cons]
    by_cases hkey : key = name
    · subst hkey
      by_cases hname : IsKey key ∧ ¬ key ∈ target
      · rw [if_pos hname, Std.ExtTreeMap.getElem?_insert_self, if_pos hname.1]
        simp [Std.ExtTreeMap.getElem?_eq_none hname.2, hname.1]
      · rw [if_neg hname]
        by_cases hmem : key ∈ target
        · simp [Std.ExtTreeMap.getElem?_eq_some_getElem hmem]
        · have hnot : ¬ IsKey key := fun h => hname ⟨h, hmem⟩
          simp [hnot]
    · -- an entry with another key
      have hother : (if IsKey name ∧ ¬ name ∈ target then target.insert name val.toText
          else target)[key]? = target[key]? := by
        split
        · rw [Std.ExtTreeMap.getElem?_insert, if_neg (by simpa using Ne.symm hkey)]
        · rfl
      rw [hother, beq_false_of_ne hkey]

/-- The entries of the preferences. -/
theorem lookup_toList (prefs : Prefs) (key : Text) : prefs.toList.lookup key = prefs[key]? := by
  cases hlookup : prefs.toList.lookup key with
  | none =>
    rw [List.lookup_eq_none_iff] at hlookup
    cases hget : prefs[key]? with
    | none => rfl
    | some val =>
      have hmem := Std.ExtTreeMap.mem_toList_iff_getElem?_eq_some.mpr hget
      simpa using hlookup (key, val) hmem
  | some val =>
    obtain ⟨before, after, hlist, -⟩ := List.lookup_eq_some_iff.mp hlookup
    have hmem : (key, val) ∈ prefs.toList := by simp [hlist]
    exact (Std.ExtTreeMap.mem_toList_iff_getElem?_eq_some.mp hmem).symm

/-- **What a store outputs**: its parameters in upper case, and the other preferences
with upper-case keys. -/
theorem getElem?_getAll (prefs : Prefs) (key : Text) :
    (store.getAll c password prefs)[key]? =
      if key ∈ store.params.map toUpperCase then
        some (store.get c password prefs (toLowerCase key))
      else if IsKey key then prefs[key]?.map PrefValue.toText else none := by
  rw [getAll, getElem?_addExtra, getElem?_getParams, lookup_toList]
  split <;> simp

/-- Keys that are output are upper-case keys. -/
theorem isKey_of_getAll {prefs : Prefs} {key val : Text}
    (h : (store.getAll c password prefs)[key]? = some val) : IsKey key := by
  rw [getElem?_getAll] at h
  split at h
  · next hupper => exact isKey_of_mem_upper hupper
  · split at h
    · assumption
    · cases h

/-- The output is determined by the parameters and the other upper-case keys. -/
theorem getAll_congr {password' : Text} {prefs prefs' : Prefs}
    (hparams : ∀ key ∈ store.params,
      store.get c password prefs key = store.get c password' prefs' key)
    (hextra : ∀ key, IsKey key → toLowerCase key ∉ store.params →
      prefs[key]?.map PrefValue.toText = prefs'[key]?.map PrefValue.toText) :
    store.getAll c password prefs = store.getAll c password' prefs' := by
  apply Std.ExtTreeMap.ext_getElem?
  intro key
  rw [getElem?_getAll, getElem?_getAll]
  by_cases hkey : IsKey key
  · by_cases hparam : toLowerCase key ∈ store.params
    · rw [if_pos ((mem_upper_iff hkey).mpr hparam), if_pos ((mem_upper_iff hkey).mpr hparam),
        hparams _ hparam]
    · have hnot : key ∉ store.params.map toUpperCase := mt (mem_upper_iff hkey).mp hparam
      rw [if_neg hnot, if_neg hnot, if_pos hkey, if_pos hkey, hextra key hkey hparam]
  · have hnot : key ∉ store.params.map toUpperCase := mt isKey_of_mem_upper hkey
    rw [if_neg hnot, if_neg hnot, if_neg hkey, if_neg hkey]

/-- A parameter in the output. -/
theorem getElem?_getAll_param (prefs : Prefs) {key : Text} (hkey : key ∈ store.params) :
    (store.getAll c password prefs)[toUpperCase key]? = some (store.get c password prefs key) := by
  rw [getElem?_getAll, if_pos (List.mem_map_of_mem hkey), (store.params_lower key hkey).2.1]

/-- Another upper-case key in the output. -/
theorem getElem?_getAll_extra (prefs : Prefs) {key : Text} (hkey : IsKey key)
    (hparam : toLowerCase key ∉ store.params) :
    (store.getAll c password prefs)[key]? = prefs[key]?.map PrefValue.toText := by
  rw [getElem?_getAll, if_neg (mt (mem_upper_iff hkey).mp hparam), if_pos hkey]

/-! ## Input -/

/-- The nested calls of `set` are calls of `set`. -/
theorem set_eq (prefs : Prefs) (key value : Text) :
    store.set prefs key value =
      ((store.fixInputParam key value).2.foldl (fun prefs call => store.set prefs call.1 call.2)
        prefs).insert key (typed value (store.fixInputParam key value).1) := by
  have hput : ∀ call ∈ (store.fixInputParam key value).2, ∀ prefs,
      store.set prefs call.1 call.2 = store.put prefs call := by
    intro call hcall prefs
    show ((store.fixInputParam call.1 call.2).2.foldl store.put prefs).insert call.1 _ = _
    rw [store.calls_flat key value call hcall]
    rfl
  show ((store.fixInputParam key value).2.foldl store.put prefs).insert key _ = _
  rw [List.foldl_ext _ _ _ fun prefs call hcall => hput call hcall prefs]

theorem value_insert (prefs : Prefs) (key key' : Text) (val : PrefValue) :
    value c (prefs.insert key val) key' = if key' = key then val.toText else value c prefs key' := by
  rw [value, Std.ExtTreeMap.getElem?_insert]
  by_cases hkey : key' = key
  · subst hkey
    simp
  · simp [hkey, Ne.symm hkey, value]

/-- A parameter that is set, as it is read. -/
theorem value_set (prefs : Prefs) {key val : Text} (hfix : (store.fixInputParam key val).1 = val) :
    value c (store.set prefs key val) key = val := by
  unfold set
  rw [value_insert, if_pos rfl, hfix, toText_typed]

/-- Of the others, only those that setting it calls with are changed. -/
theorem getElem?_set_other (prefs : Prefs) {key val key' : Text} (hne : key' ≠ key) :
    (store.set prefs key val)[key']? =
      ((store.fixInputParam key val).2.foldl store.put prefs)[key']? := by
  unfold set
  rw [Std.ExtTreeMap.getElem?_insert, if_neg (by simpa using Ne.symm hne)]

/-- The change that the editor collects for an entry. -/
def edit (store : Store) (entry : Text × Text) : Option (Text × PrefValue) :=
  if IsKey entry.1 then
    if toLowerCase entry.1 ∈ store.params then
      some (toLowerCase entry.1,
        typed entry.2 (store.fixInputParam (toLowerCase entry.1) entry.2).1)
    else some (entry.1, .string entry.2)
  else none

/-- The calls of `set` for an entry. -/
def calls (store : Store) (entry : Text × Text) : List (Text × Text) :=
  if IsKey entry.1 ∧ toLowerCase entry.1 ∈ store.params then
    (store.fixInputParam (toLowerCase entry.1) entry.2).2
  else []

theorem setEntry_eq (state : Prefs × List (Text × PrefValue)) (entry : Text × Text) :
    store.setEntry state entry =
      ((store.calls entry).foldl store.put state.1, state.2 ++ (store.edit entry).toList) := by
  simp only [setEntry, calls, edit]
  by_cases hkey : IsKey entry.1
  · by_cases hparam : toLowerCase entry.1 ∈ store.params
    · simp [hkey, hparam]
    · simp [hkey, hparam]
  · simp [hkey]

/-- First all calls take effect, then the changes of the editor. -/
theorem setAll_eq (prefs : Prefs) (source : ConfMap) :
    store.setAll prefs source =
      ((source.toList.flatMap store.calls).foldl store.put prefs).insertMany
        (source.toList.filterMap store.edit) := by
  suffices h : ∀ (entries : List (Text × Text)) (state : Prefs × List (Text × PrefValue)),
      entries.foldl store.setEntry state =
        ((entries.flatMap store.calls).foldl store.put state.1,
          state.2 ++ entries.filterMap store.edit) by
    rw [setAll, h]
    rfl
  intro entries
  induction entries with
  | nil => simp
  | cons entry entries ih =>
    intro state
    rw [List.foldl_cons, ih, setEntry_eq, List.flatMap_cons, List.foldl_append,
      List.append_assoc]
    cases hedit : store.edit entry <;> simp [hedit]

/-- The key that an entry changes. -/
theorem edit_key {entry : Text × Text} {change : Text × PrefValue}
    (h : store.edit entry = some change) : IsKey entry.1 ∧
      change.1 = if toLowerCase entry.1 ∈ store.params then toLowerCase entry.1 else entry.1 := by
  rw [edit] at h
  split at h
  · next hkey =>
    split at h
    · next hparam =>
      cases h
      exact ⟨hkey, (if_pos hparam).symm⟩
    · next hparam =>
      cases h
      exact ⟨hkey, (if_neg hparam).symm⟩
  · cases h

/-- Entries with different keys change different keys. -/
theorem edit_key_inj {entry entry' : Text × Text} {change change' : Text × PrefValue}
    (h : store.edit entry = some change) (h' : store.edit entry' = some change')
    (heq : change.1 = change'.1) : entry.1 = entry'.1 := by
  obtain ⟨hkey, hchange⟩ := edit_key h
  obtain ⟨hkey', hchange'⟩ := edit_key h'
  rw [hchange, hchange'] at heq
  -- parameters are lower case and other keys upper case, so only like kinds can be equal
  split at heq
  · next hparam =>
    split at heq
    · rw [← toUpperCase_toLowerCase hkey, heq, toUpperCase_toLowerCase hkey']
    · exact absurd (heq ▸ hkey') (store.params_lower _ hparam).2.2
  · split at heq
    · next hparam' => exact absurd (heq ▸ hkey) (store.params_lower _ hparam').2.2
    · exact heq

theorem edits_distinct (source : ConfMap) : (source.toList.filterMap store.edit).Pairwise
    fun change change' => ¬ compare change.1 change'.1 = .eq := by
  rw [List.pairwise_filterMap]
  refine source.distinct_keys_toList.imp
    fun {entry entry'} hne change hedit change' hedit' heq => ?_
  have hkey := edit_key_inj hedit hedit' (Std.LawfulEqCmp.eq_of_compare heq)
  exact hne (hkey ▸ Std.ReflCmp.compare_self)

/-- **What a store takes in** for an entry of the source. -/
theorem getElem?_setAll {prefs : Prefs} {source : ConfMap} {key value : Text}
    (hget : source[key]? = some value) {change : Text × PrefValue}
    (hedit : store.edit (key, value) = some change) :
    (store.setAll prefs source)[change.1]? = some change.2 := by
  rw [setAll_eq]
  refine Std.ExtTreeMap.getElem?_insertMany_list_of_mem Std.ReflCmp.compare_self
    (edits_distinct source) (List.mem_filterMap.mpr ⟨(key, value), ?_, hedit⟩)
  exact Std.ExtTreeMap.mem_toList_iff_getElem?_eq_some.mpr hget

/-- A parameter of the source. -/
theorem getElem?_setAll_param {prefs : Prefs} {source : ConfMap} {key value : Text}
    (hkey : key ∈ store.params) (hget : source[toUpperCase key]? = some value) :
    (store.setAll prefs source)[key]? = some (typed value (store.fixInputParam key value).1) := by
  obtain ⟨hupper, hlower, -⟩ := store.params_lower key hkey
  have hedit : store.edit (toUpperCase key, value) =
      some (key, typed value (store.fixInputParam key value).1) := by
    rw [edit, if_pos hupper, hlower, if_pos hkey]
  exact getElem?_setAll hget hedit

/-- Another upper-case key of the source. -/
theorem getElem?_setAll_extra {prefs : Prefs} {source : ConfMap} {key value : Text}
    (hkey : IsKey key) (hparam : toLowerCase key ∉ store.params) (hget : source[key]? = some value) :
    (store.setAll prefs source)[key]? = some (.string value) := by
  have hedit : store.edit (key, value) = some (key, .string value) := by
    rw [edit, if_pos hkey, if_neg hparam]
  exact getElem?_setAll hget hedit

/-- A key that no entry of the source changes. -/
theorem getElem?_setAll_other {prefs : Prefs} {source : ConfMap} {key : Text}
    (hother : ∀ entry ∈ source.toList, ∀ change, store.edit entry = some change → change.1 ≠ key) :
    (store.setAll prefs source)[key]? =
      ((source.toList.flatMap store.calls).foldl store.put prefs)[key]? := by
  rw [setAll_eq, Std.ExtTreeMap.getElem?_insertMany_list_of_contains_eq_false]
  rw [List.contains_eq_mem, decide_eq_false_iff_not, List.mem_map]
  rintro ⟨change, hchange, hkey⟩
  obtain ⟨entry, hentry, hedit⟩ := List.mem_filterMap.mp hchange
  exact hother entry hentry change hedit hkey

/-- An upper-case key that the source does not have. -/
theorem getElem?_setAll_none {prefs : Prefs} {source : ConfMap} {key : Text} (hkey : IsKey key)
    (hget : source[key]? = none) : (store.setAll prefs source)[key]? =
      ((source.toList.flatMap store.calls).foldl store.put prefs)[key]? := by
  apply getElem?_setAll_other
  rintro entry hentry change hedit rfl
  obtain ⟨-, hchange⟩ := edit_key hedit
  split at hchange
  · next hparam => exact absurd (hchange ▸ hkey) (store.params_lower _ hparam).2.2
  · have hmem := Std.ExtTreeMap.mem_toList_iff_getElem?_eq_some.mp hentry
    rw [← hchange, hget] at hmem
    cases hmem

/-- A key that is not called with is not changed by calls. -/
theorem getElem?_put_other {calls : List (Text × Text)} {key : Text}
    (h : key ∉ calls.map Prod.fst) (prefs : Prefs) :
    (calls.foldl store.put prefs)[key]? = prefs[key]? := by
  induction calls generalizing prefs with
  | nil => rfl
  | cons call calls ih =>
    simp only [List.map_cons, List.mem_cons, not_or] at h
    rw [List.foldl_cons, ih h.2, put, Std.ExtTreeMap.getElem?_insert, if_neg]
    simpa using Ne.symm h.1

/-- A key that is called with one value has this value after the calls. -/
theorem getElem?_put {calls : List (Text × Text)} {key val : Text} (hmem : (key, val) ∈ calls)
    (hval : ∀ call ∈ calls, call.1 = key → call.2 = val) (prefs : Prefs) :
    (calls.foldl store.put prefs)[key]? = some (typed val (store.fixInputParam key val).1) := by
  induction calls generalizing prefs with
  | nil => cases hmem
  | cons call calls ih =>
    have hrest := fun c hc => hval c (List.mem_cons_of_mem _ hc)
    -- the last call with the key decides
    by_cases hlater : key ∈ calls.map Prod.fst
    · obtain ⟨call', hcall', rfl⟩ := List.mem_map.mp hlater
      have heq : call' = (call'.1, val) := Prod.ext rfl (hrest call' hcall' rfl)
      exact ih (heq ▸ hcall') hrest _
    · have hcall : (key, val) = call := by
        rcases List.mem_cons.mp hmem with h | h
        · exact h
        · exact absurd (List.mem_map_of_mem h) hlater
      subst hcall
      rw [List.foldl_cons, getElem?_put_other hlater, put, Std.ExtTreeMap.getElem?_insert_self]

/-- The calls for an output are those for its parameters. -/
theorem mem_calls_getAll (prefs : Prefs) {call : Text × Text} :
    call ∈ (store.getAll c password prefs).toList.flatMap store.calls ↔
      ∃ key ∈ store.params, call ∈ (store.fixInputParam key (store.get c password prefs key)).2 := by
  rw [List.mem_flatMap]
  constructor
  · rintro ⟨entry, hentry, hcall⟩
    rw [calls] at hcall
    split at hcall
    · next h =>
      have hget := Std.ExtTreeMap.mem_toList_iff_getElem?_eq_some.mp hentry
      rw [← toUpperCase_toLowerCase h.1, getElem?_getAll_param prefs h.2, Option.some_inj] at hget
      exact ⟨_, h.2, hget ▸ hcall⟩
    · cases hcall
  · rintro ⟨key, hkey, hcall⟩
    obtain ⟨hupper, hlower, -⟩ := store.params_lower key hkey
    refine ⟨(toUpperCase key, store.get c password prefs key), ?_, ?_⟩
    · exact Std.ExtTreeMap.mem_toList_iff_getElem?_eq_some.mpr (getElem?_getAll_param prefs hkey)
    · rw [calls, if_pos ⟨hupper, hlower.symm ▸ hkey⟩]
      simpa only [hlower] using hcall

/-- A parameter after its output is taken in. -/
theorem value_setAll_getAll {prefs prefs' : Prefs} {key : Text} (hkey : key ∈ store.params)
    (hfix : ∀ val, (store.fixInputParam key val).1 = val) :
    value c (store.setAll prefs' (store.getAll c password prefs)) key =
      store.get c password prefs key := by
  rw [value, getElem?_setAll_param hkey (getElem?_getAll_param prefs hkey), hfix, Option.map_some,
    toText_typed, Option.getD_some]

end Store

end Anx.Conf
