import Anx.Conf.ReadConfTotal

/-!
# The index of a repository

`retrieveIndex` reads the index of a repository line by line. `PROFILE` starts a profile, the
other keys fill it in, and `SIZE` puts it into the list.

- `RepositoryProfile`, `IndexReader`: the objects, and the variables of the loop;
- `readLine`, `readIndex`, `onResponse`: a round of the loop, the loop, and the callback;
- `Accepts`: the lines that do not make it throw; `neverThrows_iff`: **it never throws exactly
  if all lines have a value and the first one starts a profile;**
- `Record`, `indexLines`: records as they stand in an index; `readIndex_indexLines`: **what is
  read of them** ends at a second `=`;
- `retrieveIndex_iff`: both conditions.
-/

namespace Anx.App

open Anx.Lib

/-- A profile of the list; a field is null until it is set. -/
structure RepositoryProfile where
  profile : Option Text := none
  description : Option Text := none
  type : Option Text := none
  size : Option Text := none
deriving DecidableEq

namespace RepositoryProfile

def setProfile (p : RepositoryProfile) (s : Text) : RepositoryProfile :=
  { p with profile := some s }

def setDescription (p : RepositoryProfile) (s : Text) : RepositoryProfile :=
  { p with description := some s }

def setType (p : RepositoryProfile) (s : Text) : RepositoryProfile := { p with type := some s }

def setSize (p : RepositoryProfile) (s : Text) : RepositoryProfile := { p with size := some s }

end RepositoryProfile

/-- The exceptions of the loop. -/
inductive Exception where
  | nullPointer
  | arrayIndexOutOfBounds
deriving DecidableEq

/-- The objects that have been made, the variable `repositoryProfile`, which refers to one of
them or is null, and the list `repositoryProfiles`, which may refer to one several times. -/
structure IndexReader where
  objects : List RepositoryProfile
  repositoryProfile : Option Nat
  repositoryProfiles : List Nat
deriving DecidableEq

namespace IndexReader

/-- At the start of the loop. -/
def start : IndexReader := ⟨[], none, []⟩

/-- The list as its objects are now. -/
def profiles (s : IndexReader) : List RepositoryProfile :=
  s.repositoryProfiles.filterMap fun i => s.objects[i]?

/-- `repositoryProfile = new RepositoryProfile()`. -/
def create (s : IndexReader) : IndexReader :=
  { s with objects := s.objects ++ [{}], repositoryProfile := some s.objects.length }

/-- `line.split("=")[1]`. -/
def field (line : Text) : Except Exception Text :=
  match (Lib.split '=' line)[1]? with
  | some value => .ok value
  | none => .error .arrayIndexOutOfBounds

/-- A setter is called with the field of a line, which is evaluated first. -/
def set (s : IndexReader) (setter : RepositoryProfile → Text → RepositoryProfile) (line : Text) :
    Except Exception IndexReader :=
  match field line with
  | .error e => .error e
  | .ok value =>
    match s.repositoryProfile with
    | none => .error .nullPointer
    | some i => .ok { s with objects := s.objects.modify i fun p => setter p value }

/-- `repositoryProfiles.add(repositoryProfile)`. -/
def add (s : IndexReader) : IndexReader :=
  { s with repositoryProfiles := s.repositoryProfiles ++ s.repositoryProfile.toList }

/-- A round of the loop. -/
def readLine (s : IndexReader) (line : Text) : Except Exception IndexReader :=
  if "PROFILE".toList <+: line then s.create.set .setProfile line
  else if "DESC".toList <+: line then s.set .setDescription line
  else if "TYPE".toList <+: line then s.set .setType line
  else if "SIZE".toList <+: line then (s.set .setSize line).map add
  else .ok s

/-- The loop. -/
def readIndex : IndexReader → List Text → Except Exception IndexReader
  | s, [] => .ok s
  | s, line :: lines =>
    match s.readLine line with
    | .error e => .error e
    | .ok s => readIndex s lines

end IndexReader

/-- How the callback ends: it shows the list, or that the index cannot be loaded, or it
throws. -/
inductive Loading where
  | shown (profiles : List RepositoryProfile)
  | onFailure
  | thrown (e : Exception)
deriving DecidableEq

/-- `onResponse`: these lines are read before the stream ends or an I/O error comes. -/
def onResponse (isSuccessful ioError : Bool) (lines : List Text) : Loading :=
  if isSuccessful then
    match IndexReader.start.readIndex lines with
    | .error e => .thrown e
    | .ok s => if ioError then .onFailure else .shown s.profiles
  else .onFailure

/-! ## What the index is for -/

/-- No exception but an I/O error, which is shown. -/
def NeverThrows (lines : List Text) : Prop :=
  ∀ isSuccessful ioError e, onResponse isSuccessful ioError lines ≠ .thrown e

/-- A record of an index. -/
structure Record where
  profile : Text
  description : Text
  type : Text
  size : Text

namespace Record

/-- The lines of a record. -/
def lines (r : Record) : List Text :=
  ["PROFILE".toList ++ '=' :: r.profile, "DESC".toList ++ '=' :: r.description,
    "TYPE".toList ++ '=' :: r.type, "SIZE".toList ++ '=' :: r.size]

/-- The profile of a record. -/
def toProfile (r : Record) : RepositoryProfile :=
  ⟨some r.profile, some r.description, some r.type, some r.size⟩

def values (r : Record) : List Text := [r.profile, r.description, r.type, r.size]

/-- The record with every value up to its first `=`. -/
def cut (r : Record) : Record :=
  ⟨r.profile.takeWhile (· ≠ '='), r.description.takeWhile (· ≠ '='), r.type.takeWhile (· ≠ '='),
    r.size.takeWhile (· ≠ '=')⟩

end Record

/-- The lines of an index. -/
def indexLines (rs : List Record) : List Text := rs.flatMap Record.lines

/-- The records are shown as they are. -/
def ReadBack (rs : List Record) : Prop :=
  onResponse true false (indexLines rs) = .shown (rs.map Record.toProfile)

/-- The line is for one of the fields. -/
def IsEntry (line : Text) : Prop :=
  "PROFILE".toList <+: line ∨ "DESC".toList <+: line ∨ "TYPE".toList <+: line ∨
    "SIZE".toList <+: line

instance (line : Text) : Decidable (IsEntry line) := inferInstanceAs (Decidable (_ ∨ _))

/-- Every line for a field has something other than `=` behind its first `=`, and the first one
starts a profile. -/
structure Accepts (lines : List Text) : Prop where
  value : ∀ line ∈ lines, IsEntry line → Conf.ParamUtils.HasValue line
  first : ∀ line ∈ lines.find? (IsEntry ·), "PROFILE".toList <+: line

open Conf.ParamUtils (HasValue split_eq)

namespace IndexReader

variable {s s' : IndexReader} {line : Text}

/-! ## Lines in any order -/

/-- A line has a field exactly if there is something other than `=` behind its first `=`. -/
theorem field_isOk_iff : (∃ value, field line = .ok value) ↔ HasValue line := by
  unfold field
  rcases split_eq line with ⟨hvalue, value, fields, hsplit⟩ | ⟨hnot, hlength⟩
  · rw [hsplit]
    exact iff_of_true ⟨value, rfl⟩ hvalue
  · rw [List.getElem?_eq_none (Nat.le_of_lt_succ hlength)]
    exact iff_of_false (by simp) hnot

/-- A setter succeeds on an object with the field of a line. -/
theorem set_isOk_iff {setter : RepositoryProfile → Text → RepositoryProfile} :
    (∃ s', s.set setter line = .ok s') ↔ HasValue line ∧ s.repositoryProfile.isSome = true := by
  rw [← field_isOk_iff, set]
  cases field line with
  | error e => simp
  | ok value => cases s.repositoryProfile <;> simp

theorem set_repositoryProfile {setter : RepositoryProfile → Text → RepositoryProfile}
    (h : s.set setter line = .ok s') : s'.repositoryProfile = s.repositoryProfile := by
  unfold set at h
  split at h
  · cases h
  · split at h
    · cases h
    · cases h
      rfl

/-- What a round does: it starts a profile, fills one in, or does nothing. -/
theorem readLine_cases (s : IndexReader) (line : Text) :
    ("PROFILE".toList <+: line ∧ s.readLine line = s.create.set .setProfile line) ∨
      (¬ "PROFILE".toList <+: line ∧ IsEntry line ∧ ∃ setter, s.readLine line = s.set setter line ∨
        s.readLine line = (s.set setter line).map add) ∨
      (¬ IsEntry line ∧ s.readLine line = .ok s) := by
  unfold readLine IsEntry
  by_cases hprofile : "PROFILE".toList <+: line
  · rw [if_pos hprofile]
    exact .inl ⟨hprofile, rfl⟩
  rw [if_neg hprofile]
  refine .inr ?_
  by_cases hdesc : "DESC".toList <+: line
  · rw [if_pos hdesc]
    exact .inl ⟨hprofile, .inr (.inl hdesc), _, .inl rfl⟩
  rw [if_neg hdesc]
  by_cases htype : "TYPE".toList <+: line
  · rw [if_pos htype]
    exact .inl ⟨hprofile, .inr (.inr (.inl htype)), _, .inl rfl⟩
  rw [if_neg htype]
  by_cases hsize : "SIZE".toList <+: line
  · rw [if_pos hsize]
    exact .inl ⟨hprofile, .inr (.inr (.inr hsize)), _, .inr rfl⟩
  rw [if_neg hsize]
  exact .inr ⟨by tauto, rfl⟩

theorem map_isOk_iff {r : Except Exception IndexReader} :
    (∃ s', r.map add = .ok s') ↔ ∃ s', r = .ok s' := by
  cases r <;> simp [Except.map]

/-- **One line** is read if it is for no field, or if it has a value and there is an object for
it, which it makes itself if it starts a profile. -/
theorem readLine_isOk_iff : (∃ s', s.readLine line = .ok s') ↔ (IsEntry line → HasValue line ∧
    ("PROFILE".toList <+: line ∨ s.repositoryProfile.isSome = true)) := by
  rcases readLine_cases s line with ⟨hprofile, hline⟩ | ⟨hprofile, hentry, setter, hline⟩ |
    ⟨hentry, hline⟩
  · have hentry : IsEntry line := .inl hprofile
    rw [hline, set_isOk_iff]
    exact ⟨fun h _ => ⟨h.1, .inl hprofile⟩, fun h => ⟨(h hentry).1, rfl⟩⟩
  · have hset : (∃ s', s.readLine line = .ok s') ↔ ∃ s', s.set setter line = .ok s' := by
      rcases hline with hline | hline
      · rw [hline]
      · rw [hline, map_isOk_iff]
    simp only [hset, set_isOk_iff, hprofile, hentry, false_or, true_imp_iff]
  · rw [hline]
    exact iff_of_true ⟨s, rfl⟩ fun h => absurd h hentry

/-- After a line for a field there is an object. -/
theorem readLine_repositoryProfile (h : s.readLine line = .ok s') :
    s'.repositoryProfile.isSome = true ↔ IsEntry line ∨ s.repositoryProfile.isSome = true := by
  have hok := readLine_isOk_iff.mp ⟨s', h⟩
  rcases readLine_cases s line with ⟨hprofile, hline⟩ | ⟨hprofile, hentry, setter, hline⟩ |
    ⟨hentry, hline⟩
  · rw [hline] at h
    rw [set_repositoryProfile h]
    exact iff_of_true rfl (.inl (.inl hprofile))
  · have hsome := (hok hentry).2.resolve_left hprofile
    refine iff_of_true ?_ (.inl hentry)
    rcases hline with hline | hline
    · rw [hline] at h
      rwa [set_repositoryProfile h]
    · rw [hline] at h
      cases hset : s.set setter line with
      | error e =>
        rw [hset] at h
        cases h
      | ok s'' =>
        rw [hset] at h
        cases h
        show s''.repositoryProfile.isSome = true
        rwa [set_repositoryProfile hset]
  · rw [hline] at h
    cases h
    exact (or_iff_right hentry).symm

/-- **All lines** are read if those for a field have a value, and the first one of them starts a
profile or there is an object already. -/
theorem readIndex_isOk_iff (lines : List Text) : (∃ s', s.readIndex lines = .ok s') ↔
    (∀ line ∈ lines, IsEntry line → HasValue line) ∧ (s.repositoryProfile.isSome = true ∨
      ∀ line ∈ lines.find? (IsEntry ·), "PROFILE".toList <+: line) := by
  induction lines generalizing s with
  | nil => exact iff_of_true ⟨s, rfl⟩ ⟨by simp, .inr (by simp)⟩
  | cons line lines ih =>
    have hstep : (∃ s', s.readIndex (line :: lines) = .ok s') ↔
        ∃ s', s.readLine line = .ok s' ∧ ∃ s'', s'.readIndex lines = .ok s'' := by
      rw [readIndex]
      cases s.readLine line <;> simp
    rw [hstep, List.forall_mem_cons]
    by_cases hentry : IsEntry line
    · rw [List.find?_cons_of_pos (by simpa using hentry)]
      constructor
      · rintro ⟨s', hline, hrest⟩
        obtain ⟨hvalue, hfirst⟩ := readLine_isOk_iff.mp ⟨s', hline⟩ hentry
        exact ⟨⟨fun _ => hvalue, (ih.mp hrest).1⟩, hfirst.symm.imp_right fun h => by simpa using h⟩
      · rintro ⟨⟨hvalue, hvalues⟩, hfirst⟩
        obtain ⟨s', hline⟩ := readLine_isOk_iff.mpr fun hentry =>
          ⟨hvalue hentry, hfirst.symm.imp_left fun h => h line rfl⟩
        have hsome := (readLine_repositoryProfile hline).mpr (.inl hentry)
        exact ⟨s', hline, ih.mpr ⟨hvalues, .inl hsome⟩⟩
    · rw [List.find?_cons_of_neg (by simpa using hentry)]
      have hline : s.readLine line = .ok s := by
        rcases readLine_cases s line with ⟨hprofile, -⟩ | ⟨-, h, -⟩ | ⟨-, hline⟩
        · exact absurd (.inl hprofile) hentry
        · exact absurd h hentry
        · exact hline
      rw [hline]
      simp only [Except.ok.injEq, exists_eq_left', ih, hentry, false_imp_iff, true_and]

end IndexReader

theorem neverThrows_iff (lines : List Text) : NeverThrows lines ↔ Accepts lines := by
  have hthrows : NeverThrows lines ↔ ∃ s', IndexReader.start.readIndex lines = .ok s' := by
    constructor
    · intro h
      cases hread : IndexReader.start.readIndex lines with
      | ok s' => exact ⟨s', rfl⟩
      | error e =>
        refine absurd ?_ (h true false e)
        simp [onResponse, hread]
    · rintro ⟨s', hread⟩ isSuccessful ioError e
      unfold onResponse
      rw [hread]
      cases isSuccessful <;> cases ioError <;> simp
  rw [hthrows, IndexReader.readIndex_isOk_iff]
  constructor
  · rintro ⟨hvalue, hfirst⟩
    exact ⟨hvalue, hfirst.resolve_left Bool.false_ne_true⟩
  · rintro ⟨hvalue, hfirst⟩
    exact ⟨hvalue, .inr hfirst⟩

/-! ## Records -/

/-- A value that is not lost. -/
def IsValue (value : Text) : Prop := ∃ c ∈ value, c ≠ '='

theorem hasValue_append {key : Text} (hkey : '=' ∉ key) (value : Text) :
    HasValue (key ++ '=' :: value) ↔ IsValue value := by
  have hall : ∀ c ∈ key, decide (c ≠ '=') = true :=
    fun c hc => decide_eq_true (ne_of_mem_of_not_mem hc hkey)
  rw [HasValue, List.dropWhile_append_of_pos hall, List.dropWhile_cons_of_neg (by simp), IsValue]
  simp

namespace IndexReader

variable {s : IndexReader}

/-- The field of a line with a value ends at the second `=`. -/
theorem field_append {key value : Text} (hkey : '=' ∉ key) (hvalue : IsValue value) :
    field (key ++ '=' :: value) = .ok (value.takeWhile (· ≠ '=')) := by
  rcases split_eq (key ++ '=' :: value) with ⟨-, found, fields, hsplit⟩ | ⟨hnot, -⟩
  · have hmem : '=' ∈ key ++ '=' :: value := by simp
    -- the fields are the first ones between the separators
    have hfields : Lib.split '=' (key ++ '=' :: value) <+: (key ++ '=' :: value).splitOn '=' := by
      rw [Lib.split, if_pos hmem]
      exact List.rdropWhile_prefix _ _
    obtain ⟨pieces, hpieces⟩ := splitOnP_eq_cons (· == '=') value
    have hall : (key ++ '=' :: value).splitOn '=' = key :: value.splitOnP (· == '=') := by
      rw [List.splitOn_eq_splitOnP]
      exact List.splitOnP_append_cons_of_forall_mem
        (fun c hc => by simpa using ne_of_mem_of_not_mem hc hkey) '=' (by simp) value
    rw [hsplit, hall, hpieces, List.cons_prefix_cons, List.cons_prefix_cons] at hfields
    have hfound : found = value.takeWhile (· ≠ '=') := by
      rw [hfields.2.1]
      congr 1
      funext c
      by_cases hc : c = '=' <;> simp [hc]
    rw [field, hsplit, hfound]
    rfl
  · exact absurd ((hasValue_append hkey value).mpr hvalue) hnot

/-- A profile is put into the list. -/
def put (s : IndexReader) (p : RepositoryProfile) : IndexReader :=
  ⟨s.objects ++ [p], some s.objects.length, s.repositoryProfiles ++ [s.objects.length]⟩

/-- A setter is called on the last object. -/
theorem set_last {setter : RepositoryProfile → Text → RepositoryProfile} {line value : Text}
    (h : field line = .ok value) (objects : List RepositoryProfile) (p : RepositoryProfile)
    (list : List Nat) :
    (⟨objects ++ [p], some objects.length, list⟩ : IndexReader).set setter line =
      .ok ⟨objects ++ [setter p value], some objects.length, list⟩ := by
  rw [set, h]
  simp [List.modify_eq_take_drop]

theorem readIndex_append (s : IndexReader) (lines lines' : List Text) :
    s.readIndex (lines ++ lines') =
      match s.readIndex lines with
      | .error e => .error e
      | .ok s => s.readIndex lines' := by
  induction lines generalizing s with
  | nil => rfl
  | cons line lines ih =>
    rw [List.cons_append, readIndex, readIndex]
    cases s.readLine line with
    | error e => rfl
    | ok s' => exact ih s'

/-- **What is read of a record.** -/
theorem readIndex_lines {r : Record} (hvalues : ∀ value ∈ r.values, IsValue value)
    (s : IndexReader) : s.readIndex r.lines = .ok (s.put r.cut.toProfile) := by
  simp only [Record.values, List.forall_mem_cons] at hvalues
  obtain ⟨hprofile, hdescription, htype, hsize, -⟩ := hvalues
  have hset : ∀ {key value : Text} (setter : RepositoryProfile → Text → RepositoryProfile),
      '=' ∉ key → IsValue value → ∀ p list,
        (⟨s.objects ++ [p], some s.objects.length, list⟩ : IndexReader).set setter
          (key ++ '=' :: value) =
            .ok ⟨s.objects ++ [setter p (value.takeWhile (· ≠ '='))], some s.objects.length,
              list⟩ :=
    fun setter hkey hvalue p list => set_last (field_append hkey hvalue) s.objects p list
  rw [Record.lines, readIndex, readLine, if_pos (List.prefix_append _ _), create,
    hset _ (by decide) hprofile]
  dsimp only
  rw [readIndex, readLine, if_neg (by simp), if_pos (List.prefix_append _ _),
    hset _ (by decide) hdescription]
  dsimp only
  rw [readIndex, readLine, if_neg (by simp), if_neg (by simp), if_pos (List.prefix_append _ _),
    hset _ (by decide) htype]
  dsimp only
  rw [readIndex, readLine, if_neg (by simp), if_neg (by simp), if_neg (by simp),
    if_pos (List.prefix_append _ _), hset _ (by decide) hsize]
  rfl

/-- The list refers to objects that there are. -/
def Listed (s : IndexReader) : Prop := ∀ i ∈ s.repositoryProfiles, i < s.objects.length

theorem listed_put (h : s.Listed) (p : RepositoryProfile) : (s.put p).Listed := by
  intro i hi
  rw [put, List.length_append, List.length_singleton]
  rcases List.mem_append.mp hi with hi | hi
  · exact Nat.lt_succ_of_lt (h i hi)
  · rw [List.mem_singleton.mp hi]
    exact Nat.lt_succ_self _

theorem profiles_put (h : s.Listed) (p : RepositoryProfile) :
    (s.put p).profiles = s.profiles ++ [p] := by
  rw [profiles, put, List.filterMap_append]
  congr 1
  · refine List.filterMap_congr fun i hi => ?_
    exact List.getElem?_append_left (h i hi)
  · simp

/-- **What is read of an index**: every value up to its first `=`. -/
theorem readIndex_indexLines {rs : List Record}
    (hvalues : ∀ r ∈ rs, ∀ value ∈ r.values, IsValue value) (h : s.Listed) :
    ∃ s', s.readIndex (indexLines rs) = .ok s' ∧
      s'.profiles = s.profiles ++ rs.map fun r => r.cut.toProfile := by
  induction rs generalizing s with
  | nil => exact ⟨s, rfl, by simp⟩
  | cons r rs ih =>
    obtain ⟨hr, hrs⟩ := List.forall_mem_cons.mp hvalues
    obtain ⟨s', hread, hprofiles⟩ := ih hrs (listed_put h r.cut.toProfile)
    refine ⟨s', ?_, ?_⟩
    · rw [indexLines, List.flatMap_cons, readIndex_append, readIndex_lines hr]
      exact hread
    · rw [hprofiles, profiles_put h, List.map_cons, List.append_assoc, List.singleton_append]

end IndexReader

/-- The lines of a record are for its fields. -/
theorem Record.mem_lines {r : Record} {value : Text} (h : value ∈ r.values) :
    ∃ key, '=' ∉ key ∧ IsEntry (key ++ '=' :: value) ∧ key ++ '=' :: value ∈ r.lines := by
  simp only [values, List.mem_cons, List.not_mem_nil, or_false] at h
  rcases h with rfl | rfl | rfl | rfl
  · exact ⟨"PROFILE".toList, by decide, .inl (List.prefix_append _ _), by simp [lines]⟩
  · exact ⟨"DESC".toList, by decide, .inr (.inl (List.prefix_append _ _)), by simp [lines]⟩
  · exact ⟨"TYPE".toList, by decide, .inr (.inr (.inl (List.prefix_append _ _))), by simp [lines]⟩
  · exact ⟨"SIZE".toList, by decide, .inr (.inr (.inr (List.prefix_append _ _))), by simp [lines]⟩

/-- An index of values without line breaks has these lines as a text. -/
theorem readLines_index {rs : List Record} (h : ∀ r ∈ rs, ∀ value ∈ r.values, NoBreak value) :
    readLines (unlines (indexLines rs)) = indexLines rs := by
  refine readLines_unlines fun line hline => ?_
  obtain ⟨r, hr, hline⟩ := List.mem_flatMap.mp hline
  have happend : ∀ {key value : Text}, NoBreak key → value ∈ r.values →
      NoBreak (key ++ '=' :: value) := by
    intro key value hkey hvalue
    exact List.forall_mem_append.mpr
      ⟨hkey, List.forall_mem_cons.mpr ⟨by decide, h r hr value hvalue⟩⟩
  simp only [Record.lines, List.mem_cons, List.not_mem_nil, or_false] at hline
  rcases hline with rfl | rfl | rfl | rfl
  · exact happend (by decide) (by simp [Record.values])
  · exact happend (by decide) (by simp [Record.values])
  · exact happend (by decide) (by simp [Record.values])
  · exact happend (by decide) (by simp [Record.values])

theorem Record.cut_eq_iff {r : Record} :
    r.cut.toProfile = r.toProfile ↔ ∀ value ∈ r.values, '=' ∉ value := by
  have htake : ∀ value : Text, value.takeWhile (· ≠ '=') = value ↔ '=' ∉ value := by
    intro value
    rw [List.takeWhile_eq_self_iff]
    exact ⟨fun h hmem => by simpa using h '=' hmem,
      fun h c hc => decide_eq_true (ne_of_mem_of_not_mem hc h)⟩
  simp only [Record.cut, Record.toProfile, RepositoryProfile.mk.injEq, Option.some.injEq, htake,
    Record.values, List.forall_mem_cons, List.not_mem_nil, false_imp_iff, implies_true, and_true]

/-- **Records are read back** exactly if none of their values is empty or has a `=` in it. -/
theorem readBack_iff (rs : List Record) :
    ReadBack rs ↔ ∀ r ∈ rs, ∀ value ∈ r.values, value ≠ [] ∧ '=' ∉ value := by
  have hlisted : IndexReader.start.Listed := by simp [IndexReader.Listed, IndexReader.start]
  have hread : (∀ r ∈ rs, ∀ value ∈ r.values, IsValue value) →
      onResponse true false (indexLines rs) = .shown (rs.map fun r => r.cut.toProfile) := by
    intro hvalues
    obtain ⟨s', hread, hprofiles⟩ := IndexReader.readIndex_indexLines hvalues hlisted
    rw [onResponse, if_pos rfl, hread]
    show Loading.shown s'.profiles = _
    rw [hprofiles]
    rfl
  constructor
  · intro h
    have hok : ∃ s', IndexReader.start.readIndex (indexLines rs) = .ok s' := by
      cases hresult : IndexReader.start.readIndex (indexLines rs) with
      | ok s' => exact ⟨s', rfl⟩
      | error e => simp [ReadBack, onResponse, hresult] at h
    have hvalues : ∀ r ∈ rs, ∀ value ∈ r.values, IsValue value := by
      intro r hr value hvalue
      obtain ⟨key, hkey, hentry, hmem⟩ := r.mem_lines hvalue
      have hline := (IndexReader.readIndex_isOk_iff _).mp hok
      exact (hasValue_append hkey value).mp
        (hline.1 _ (List.mem_flatMap.mpr ⟨r, hr, hmem⟩) hentry)
    rw [ReadBack, hread hvalues, Loading.shown.injEq, List.map_inj_left] at h
    intro r hr value hvalue
    refine ⟨?_, Record.cut_eq_iff.mp (h r hr) value hvalue⟩
    rintro rfl
    obtain ⟨c, hc, -⟩ := hvalues r hr [] hvalue
    cases hc
  · intro h
    have hvalues : ∀ r ∈ rs, ∀ value ∈ r.values, IsValue value := by
      intro r hr value hvalue
      obtain ⟨hne, hplain⟩ := h r hr value hvalue
      obtain ⟨c, hc⟩ := List.exists_mem_of_ne_nil value hne
      exact ⟨c, hc, ne_of_mem_of_not_mem hc hplain⟩
    rw [ReadBack, hread hvalues, Loading.shown.injEq, List.map_inj_left]
    exact fun r hr => Record.cut_eq_iff.mpr fun value hvalue => (h r hr value hvalue).2

/-- **The index is read as it should be**: nothing is thrown exactly if all lines are accepted,
and records are read back exactly if none of their values is empty or has a `=` in it. -/
theorem retrieveIndex_iff (lines : List Text) (rs : List Record) :
    (NeverThrows lines ↔ Accepts lines) ∧
      (ReadBack rs ↔ ∀ r ∈ rs, ∀ value ∈ r.values, value ≠ [] ∧ '=' ∉ value) :=
  ⟨neverThrows_iff lines, readBack_iff rs⟩

/-- A description without a profile is a null reference; a value with a `=` in it is cut. -/
theorem not_retrieveIndex : (¬ ∀ lines, NeverThrows lines) ∧ ¬ ∀ rs, ReadBack rs := by
  constructor
  · intro h
    exact h ["DESC=x".toList] true false .nullPointer (by decide)
  · intro h
    have hvalue := (readBack_iff _).mp (h [⟨['a'], "b=c".toList, ['d'], ['1']⟩]) _
      (List.mem_singleton_self _) "b=c".toList (by decide)
    exact hvalue.2 (by decide)

end Anx.App
