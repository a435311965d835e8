import Anx.Lib.Lines

/-!
# Configuration files of the app

`ParamUtils.readConf` and `ParamUtils.writeConf` (ParamUtils.java:27–59): a map from
names to values as a text of lines `NAME="value"`.

- `readConf`, `writeConf`: the two functions, on the contents of the file;
- `readConf_assignments`: what reading does with written lines: of a value it keeps
  what stands before the first `=`;
- `readConf_writeConf`: so writing and reading back cuts every value there;
- `readConf_writeConf_iff`: **the round trip holds exactly for the maps whose values
  have no `=`**.
-/

namespace Anx.Conf

open Anx.Lib

/-- A `TreeMap<String, String>`. -/
abbrev ConfMap := Std.ExtTreeMap Text Text compare

namespace ParamUtils

/-- The key and value of a line (ParamUtils.java:34–37): the first two fields at `=`,
the second one without its quotes. `none` where the array access is out of bounds. -/
def readPair (line : Text) : Option (Text × Text) :=
  match split '=' line with
  | key :: value :: _ => some (key, value.filter (· ≠ '"'))
  | _ => none

/-- The loop body of `readConf`. -/
def readLine (map : ConfMap) (line : Text) : Option ConfMap :=
  if line.head? = some '#' ∨ line = [] then some map
  else (readPair line).map fun pair => map.insert pair.1 pair.2

/-- `readConf` on the contents of a file; `none` when it throws. -/
def readConf (confFile : Text) : Option ConfMap :=
  (readLines confFile).foldlM readLine ∅

/-- The line of an entry (ParamUtils.java:52). -/
def writePair (key value : Text) : Text := key ++ '=' :: '"' :: (value ++ ['"'])

/-- `writeConf`: the contents of the file. -/
def writeConf (map : ConfMap) : Text :=
  unlines (map.toList.map fun entry => writePair entry.1 entry.2)

/-! ## Reading what was written -/

/-- A character of `[A-Z0-9_]`. -/
def isKeyChar (c : Char) : Bool := ('A' ≤ c && c ≤ 'Z') || ('0' ≤ c && c ≤ '9') || c = '_'

/-- A name that matches `[A-Z0-9_]+`. -/
def IsKey (key : Text) : Prop := key ≠ [] ∧ ∀ c ∈ key, isKeyChar c = true

instance (key : Text) : Decidable (IsKey key) := inferInstanceAs (Decidable (_ ∧ _))

/-- A value without double quote and line break. -/
def IsValue (value : Text) : Prop := '"' ∉ value ∧ NoBreak value

instance (value : Text) : Decidable (IsValue value) := inferInstanceAs (Decidable (_ ∧ _))

/-- What stands before the first `=`. -/
def beforeEq (value : Text) : Text := value.takeWhile (· ≠ '=')

theorem beforeEq_eq_self_iff {value : Text} : beforeEq value = value ↔ '=' ∉ value := by
  rw [beforeEq, List.takeWhile_eq_self_iff]
  constructor
  · intro h hmem
    simpa using h '=' hmem
  · intro h c hc
    simpa using ne_of_mem_of_not_mem hc h

/-- No character of a key is one that the file format uses. -/
theorem IsKey.ne {key : Text} (h : IsKey key) {c d : Char} (hc : c ∈ key)
    (hd : isKeyChar d = false) : c ≠ d := by
  rintro rfl
  exact absurd (h.2 c hc) (by simp [hd])

theorem IsKey.eq_not_mem {key : Text} (h : IsKey key) : '=' ∉ key :=
  fun hmem => h.ne hmem (d := '=') (by decide) rfl

theorem IsKey.noBreak {key : Text} (h : IsKey key) : NoBreak key :=
  fun _ hc => ⟨h.ne hc (by decide), h.ne hc (by decide)⟩

theorem writePair_noBreak {key value : Text} (hkey : IsKey key) (hvalue : IsValue value) :
    NoBreak (writePair key value) := by
  intro c hc
  simp only [writePair, List.mem_append, List.mem_cons, List.not_mem_nil, or_false] at hc
  rcases hc with hc | rfl | rfl | hc | rfl
  · exact hkey.noBreak c hc
  · decide
  · decide
  · exact hvalue.2 c hc
  · decide

/-- Of a written value the second field has the opening quote and what stands before
the first `=`, and the closing quote if there is no `=`. -/
theorem takeWhile_quoted (value : Text) :
    ('"' :: (value ++ ['"'])).takeWhile (· ≠ '=') =
      '"' :: (beforeEq value ++ if '=' ∈ value then [] else ['"']) := by
  rw [List.takeWhile_cons_of_pos (by decide), List.takeWhile_append]
  by_cases heq : '=' ∈ value
  · have hne : ¬ (value.takeWhile (· ≠ '=')).length = value.length := fun hlen =>
      beforeEq_eq_self_iff.mp ((List.takeWhile_prefix _).eq_of_length hlen) heq
    rw [if_neg hne, if_pos heq, List.append_nil, beforeEq]
  · have hself : value.takeWhile (· ≠ '=') = value := beforeEq_eq_self_iff.mpr heq
    rw [if_pos (congrArg List.length hself), if_neg heq, beforeEq, hself]
    rfl

theorem readPair_writePair {key value : Text} (hkey : IsKey key) (hvalue : IsValue value) :
    readPair (writePair key value) = some (key, beforeEq value) := by
  have hfield := takeWhile_quoted value
  obtain ⟨fields, hsplit⟩ := split_pair ('"' :: (value ++ ['"']))
    hkey.eq_not_mem (by rw [hfield]; exact List.cons_ne_nil _ _)
  have hclean : ∀ c ∈ beforeEq value, c ≠ '"' := fun c hc =>
    ne_of_mem_of_not_mem (List.takeWhile_subset _ hc) hvalue.1
  rw [readPair, writePair, hsplit, hfield]
  by_cases heq : '=' ∈ value <;> simpa [heq] using hclean

/-- Reading a written line adds its entry, cut at the first `=`. -/
theorem readLine_writePair {key value : Text} (hkey : IsKey key) (hvalue : IsValue value)
    (map : ConfMap) :
    readLine map (writePair key value) = some (map.insert key (beforeEq value)) := by
  obtain ⟨c, rest, rfl⟩ := List.exists_cons_of_ne_nil hkey.1
  have hhash : c ≠ '#' := hkey.ne List.mem_cons_self (by decide)
  rw [readLine, if_neg (by simp [writePair, hhash]), readPair_writePair hkey hvalue,
    Option.map_some]

/-- Reading written lines. -/
theorem readConf_assignments {entries : List (Text × Text)}
    (h : ∀ entry ∈ entries, IsKey entry.1 ∧ IsValue entry.2) (map : ConfMap) :
    (entries.map fun entry => writePair entry.1 entry.2).foldlM readLine map =
      some (map.insertMany (entries.map fun entry => (entry.1, beforeEq entry.2))) := by
  induction entries generalizing map with
  | nil => rfl
  | cons entry entries ih =>
    obtain ⟨hkey, hvalue⟩ := h entry List.mem_cons_self
    rw [List.map_cons, List.foldlM_cons, readLine_writePair hkey hvalue]
    show (entries.map _).foldlM readLine _ = _
    rw [ih (fun e he => h e (List.mem_cons_of_mem _ he)), List.map_cons,
      Std.ExtTreeMap.insertMany_cons]

/-- A map is what inserting its entries makes. -/
theorem insertMany_toList (map : ConfMap) : (∅ : ConfMap).insertMany map.toList = map := by
  apply Std.ExtTreeMap.ext_getElem?
  intro key
  cases hget : map[key]? with
  | none =>
    have hnot : (map.toList.map Prod.fst).contains key = false := by
      rw [Std.ExtTreeMap.map_fst_toList_eq_keys, List.contains_eq_mem]
      simpa using hget
    rw [Std.ExtTreeMap.getElem?_insertMany_list_of_contains_eq_false hnot,
      Std.ExtTreeMap.getElem?_empty]
  | some value =>
    exact Std.ExtTreeMap.getElem?_insertMany_list_of_mem Std.ReflCmp.compare_self
      map.distinct_keys_toList (Std.ExtTreeMap.mem_toList_iff_getElem?_eq_some.mpr hget)

/-- The keys and values are of the kind that the file format is made for. -/
def Writable (map : ConfMap) : Prop :=
  ∀ key value : Text, map[key]? = some value → IsKey key ∧ IsValue value

/-- What holds of all entries holds of the entries in their order. -/
theorem forall_entries_iff {map : ConfMap} {P : Text → Text → Prop} :
    (∀ key value : Text, map[key]? = some value → P key value) ↔
      ∀ entry ∈ map.toList, P entry.1 entry.2 := by
  constructor
  · intro h entry hentry
    exact h entry.1 entry.2 (Std.ExtTreeMap.mem_toList_iff_getElem?_eq_some.mp hentry)
  · intro h key value hget
    exact h (key, value) (Std.ExtTreeMap.mem_toList_iff_getElem?_eq_some.mpr hget)

/-- **Writing and reading back** cuts every value at its first `=`. -/
theorem readConf_writeConf {map : ConfMap} (h : Writable map) :
    readConf (writeConf map) = some (map.map fun _ value => beforeEq value) := by
  have hentries : ∀ entry ∈ map.toList, IsKey entry.1 ∧ IsValue entry.2 := forall_entries_iff.mp h
  have hlines : ∀ line ∈ map.toList.map fun entry => writePair entry.1 entry.2, NoBreak line := by
    intro line hline
    obtain ⟨entry, hentry, rfl⟩ := List.mem_map.mp hline
    exact writePair_noBreak (hentries entry hentry).1 (hentries entry hentry).2
  rw [readConf, writeConf, readLines_unlines hlines, readConf_assignments hentries,
    ← insertMany_toList (map.map fun _ value => beforeEq value), Std.ExtTreeMap.toList_map]

/-- Values without `=` are not cut. -/
theorem map_beforeEq {map : ConfMap}
    (h : ∀ key value : Text, map[key]? = some value → '=' ∉ value) :
    (map.map fun _ value => beforeEq value) = map := by
  apply Std.ExtTreeMap.ext_getElem?
  intro key
  rw [Std.ExtTreeMap.getElem?_map]
  cases hget : map[key]? with
  | none => rfl
  | some value => rw [Option.map_some, beforeEq_eq_self_iff.mpr (h key value hget)]

/-- **The round trip** of a map through its file holds exactly when no value has a `=`. -/
theorem readConf_writeConf_iff (map : ConfMap) (h : Writable map) :
    readConf (writeConf map) = some map ↔
      ∀ key value : Text, map[key]? = some value → '=' ∉ value := by
  rw [readConf_writeConf h, Option.some_inj]
  constructor
  · intro hmap key value hget
    have hcut : (map.map fun _ value => beforeEq value)[key]? = some (beforeEq value) := by
      rw [Std.ExtTreeMap.getElem?_map, hget, Option.map_some]
    rw [hmap, hget, Option.some_inj] at hcut
    exact beforeEq_eq_self_iff.mp hcut.symm
  · exact map_beforeEq

/-- Spaces, `#`, `$` and empty values survive the round trip. -/
theorem readConf_writeConf_plain :
    readConf (writeConf (.ofList [("DNS".toList, "8.8.8.8 # $1".toList), ("LOCALE".toList, [])])) =
      some (.ofList [("DNS".toList, "8.8.8.8 # $1".toList), ("LOCALE".toList, [])]) :=
  (readConf_writeConf_iff _ (forall_entries_iff.mpr (by decide))).mpr
    (forall_entries_iff.mpr (by decide))

/-- The value `a=b` is read back as `a`. -/
theorem readConf_writeConf_fails :
    ¬ ∀ map : ConfMap, Writable map → readConf (writeConf map) = some map := by
  intro h
  have hmap := h (.ofList [("MOUNTS".toList, "a=b".toList)]) (forall_entries_iff.mpr (by decide))
  exact absurd hmap (by decide)

end ParamUtils

end Anx.Conf
