import Anx.Conf.Eval
import Anx.Conf.ReadersAgree

/-!
# A written parameter on the command line

`params_read` gets a parameter of a file that `writeConf` has written, as long as the other
lines of the file do no more than to assign their own variables, to whatever their values
expand to.

- `items_unlines`: `read` gets the lines of such a file one by one;
- `entryItem_eq`: of a line it may change the value, by its escapes, and nothing else;
- `Bash.Assigns`: the line of an entry only assigns a variable; `assigns_of_namesOnly`: so it
  does if its value has variables in it and nothing else that the shell acts on;
- `env_of_readEntries`: the lines of other entries keep a variable that was read;
- `paramsReadIn_writeConf`: **a literal value is read as it was written**.
-/

namespace Anx.Conf

open Anx.Lib ParamUtils

namespace Cli

/-! ## The lines -/

/-- A line that does not end with a backslash does not go on. -/
theorem continued_concat (line : Text) {c : Char} (hc : c ≠ '\\') :
    continued (line ++ [c]) = false := by
  unfold continued
  rw [List.rtakeWhile_concat_neg _ _ _ (by simpa using hc)]
  rfl

/-- The lines of a file whose lines do not go on. -/
theorem items_unlines {lines : List Text}
    (h : ∀ line ∈ lines, '\n' ∉ line ∧ continued line = false) :
    items [] (unlines lines) = lines.map marks := by
  induction lines with
  | nil => rfl
  | cons line lines ih =>
    obtain ⟨hnewline, hcontinued⟩ := h line List.mem_cons_self
    rw [unlines_cons, items_line [] line _ hnewline, hcontinued, if_neg Bool.false_ne_true,
      ih fun l hl => h l (List.mem_cons_of_mem _ hl)]
    rfl

theorem dropNul_unlines (lines : List Text) :
    dropNul (unlines lines) = unlines (lines.map dropNul) := by
  induction lines with
  | nil => rfl
  | cons line lines ih =>
    rw [List.map_cons, unlines_cons, unlines_cons, dropNul_append, dropNul_cons (by decide), ih]

theorem marks_append {front : Text} (h : '\\' ∉ front) (line : Text) :
    marks (front ++ line) = front.map (fun c => (c, false)) ++ marks line := by
  induction front with
  | nil => rfl
  | cons c front ih =>
    simp only [List.mem_cons, not_or] at h
    rw [List.cons_append, marks_cons (Ne.symm h.1), ih h.2]
    rfl

/-- The last character of a line stays, escaped or not. -/
theorem marks_concat (line : Text) {c : Char} (hc : c ≠ '\\') :
    ∃ before escaped, marks (line ++ [c]) = before ++ [(c, escaped)] := by
  fun_induction marks line with
  | case1 => exact ⟨[], false, marks_cons hc []⟩
  | case2 => exact ⟨[], true, rfl⟩
  | case3 d line ih =>
    obtain ⟨before, escaped, heq⟩ := ih
    refine ⟨(d, true) :: before, escaped, ?_⟩
    rw [List.cons_append, List.cons_append, marks, heq]
    rfl
  | case4 d line hlast hnext ih =>
    have hd : d ≠ '\\' := by
      rintro rfl
      cases line with
      | nil => exact hlast rfl rfl
      | cons e line => exact hnext e line rfl rfl
    obtain ⟨before, escaped, heq⟩ := ih
    refine ⟨(d, false) :: before, escaped, ?_⟩
    rw [List.cons_append, marks_cons hd, heq]
    rfl

/-- The item that is read of the line of an entry. -/
def entryItem (key value : Text) : Text := readItem (marks (dropNul (writePair key value)))

/-- **The item of an entry** is its line, with some of the characters of the value. -/
theorem entryItem_eq {key : Text} (hkey : IsKey key) (value : Text) :
    ∃ value', entryItem key value = writePair key value' := by
  have hfront : '\\' ∉ key ++ ['=', '"'] := by
    have hnot : '\\' ∉ key := fun h => hkey.ne h (d := '\\') (by decide) rfl
    simpa using hnot
  obtain ⟨before, escaped, heq⟩ := marks_concat (dropNul value) (c := '"') (by decide)
  have hline : writePair key (dropNul value) = (key ++ ['=', '"']) ++ (dropNul value ++ ['"']) := by
    simp [writePair]
  refine ⟨before.map Prod.fst, ?_⟩
  rw [entryItem, dropNul_writePair hkey, hline, marks_append hfront, heq,
    ← readItem_assignment hkey before escaped]
  simp

/-- A literal value is read as it is, up to its NUL characters. -/
theorem entryItem_literal {key value : Text} (hkey : IsName key) (hvalue : IsLiteral value)
    (hnul : '\x00' ∉ value) : entryItem key value = writePair key value := by
  rw [entryItem, dropNul_writePair hkey.1, dropNul_eq_self hnul,
    marks_plain (backslash_not_mem hkey hvalue), readItem_writePair hkey]

/-! ## The variables -/

/-- The line of an entry is one line, and `eval` assigns a variable and does no more, with
whatever variables there are to expand. -/
def Bash.Assigns (sh : Bash) (frame : Locals) (key value : Text) : Prop :=
  '\n' ∉ value ∧ ∀ vars, (readBodyIn sh frame vars (entryItem key value)).isSome

variable {sh : Bash} {frame : Locals} {vars vars' : Vars} {key value : Text}

/-- **A value with names** only assigns its variable. -/
theorem assigns_of_namesOnly (hsh : sh.Expands) (hkey : IsName key) (hlen : key.length ≤ 32)
    (hspecial : sh.special key = false) (hvalue : ParamUtils.IsValue value)
    (hplain : '\\' ∉ value ∧ '\x00' ∉ value) (hnames : NamesOnly value) :
    sh.Assigns frame key value := by
  refine ⟨fun hnewline => (hvalue.2 _ hnewline).1 rfl, fun vars => ?_⟩
  have hslash : '\\' ∉ writePair key value := by
    have hnot : '\\' ∉ key := fun h => hkey.1.ne h (d := '\\') (by decide) rfl
    simp [writePair, hnot, hplain.1]
  have hitem : entryItem key value = writePair key value := by
    rw [entryItem, dropNul_writePair hkey.1, dropNul_eq_self hplain.2, marks_plain hslash,
      readItem_writePair hkey]
  rw [hitem, readBodyIn_writePair hsh hkey hlen, Option.isSome_map,
    evalAssign_writePair (isVariable_of_name hkey hlen hspecial)]
  exact evalWord_isSome hnames

/-- What the loop body does with an item. -/
theorem readBodyIn_cases {item : Text} (h : readBodyIn sh frame vars item = some vars') :
    vars' = vars ∨ ∃ val, vars' = vars.assign (grepKey (echo sh.toShell item)) val := by
  unfold readBodyIn readBodyWith at h
  dsimp only at h
  split at h
  · cases h
    exact .inl rfl
  · obtain ⟨val, -, rfl⟩ := Option.map_eq_some_iff.mp h
    exact .inr ⟨val, rfl⟩

/-- The line of another entry. -/
theorem env_of_readBodyIn (hsh : sh.Expands) (h : vars.env[key]? = some value)
    (hopt : key ≠ OPTLST) {key' value' : Text} (hkey' : IsKey key') (hne : key ≠ key'.take 32)
    (hbody : readBodyIn sh frame vars (entryItem key' value') = some vars') :
    vars'.env[key]? = some value := by
  obtain ⟨value'', heq⟩ := entryItem_eq hkey' value'
  rcases readBodyIn_cases hbody with rfl | ⟨val, rfl⟩
  · exact h
  · rw [heq, grepKey_writePair hsh hkey', Vars.assign_get _ _ _ hopt, if_neg hne]
    exact h

/-- The loop over the lines of entries. -/
def readEntries (sh : Bash) (frame : Locals) (vars : Vars) (entries : List (Text × Text)) :
    Option Vars :=
  entries.foldlM (fun vars entry => readBodyIn sh frame vars (entryItem entry.1 entry.2)) vars

theorem readEntries_cons (vars : Vars) (entry : Text × Text) (entries : List (Text × Text)) :
    readEntries sh frame vars (entry :: entries) =
      (readBodyIn sh frame vars (entryItem entry.1 entry.2)).bind fun vars =>
        readEntries sh frame vars entries :=
  List.foldlM_cons

theorem readEntries_append (vars : Vars) (entries entries' : List (Text × Text)) :
    readEntries sh frame vars (entries ++ entries') =
      (readEntries sh frame vars entries).bind fun vars => readEntries sh frame vars entries' :=
  List.foldlM_append

/-- What the line of each entry keeps. -/
theorem readEntries_keeps {P : Vars → Prop} {entries : List (Text × Text)}
    (hassigns : ∀ entry ∈ entries, sh.Assigns frame entry.1 entry.2)
    (hbody : ∀ entry ∈ entries, ∀ vars vars', P vars →
      readBodyIn sh frame vars (entryItem entry.1 entry.2) = some vars' → P vars')
    (hvars : P vars) : ∃ vars', readEntries sh frame vars entries = some vars' ∧ P vars' := by
  induction entries generalizing vars with
  | nil => exact ⟨vars, rfl, hvars⟩
  | cons entry entries ih =>
    obtain ⟨next, hnext⟩ :=
      Option.isSome_iff_exists.mp ((hassigns entry List.mem_cons_self).2 vars)
    rw [readEntries_cons, hnext, Option.bind_some]
    exact ih (fun e he => hassigns e (List.mem_cons_of_mem _ he))
      (fun e he => hbody e (List.mem_cons_of_mem _ he))
      (hbody entry List.mem_cons_self vars next hvars hnext)

/-- **The lines of other entries** leave the variable as it was read. -/
theorem env_of_readEntries (hsh : sh.Expands) (h : vars.env[key]? = some value)
    (hopt : key ≠ OPTLST) (hshort : key.length < 32) {entries : List (Text × Text)}
    (hother : ∀ entry ∈ entries, IsKey entry.1 ∧ entry.1 ≠ key ∧ sh.Assigns frame entry.1 entry.2) :
    ∃ vars', readEntries sh frame vars entries = some vars' ∧ vars'.env[key]? = some value := by
  refine readEntries_keeps (P := fun vars => vars.env[key]? = some value)
    (fun entry hentry => (hother entry hentry).2.2) (fun entry hentry vars vars' hvars hbody => ?_) h
  obtain ⟨hkey', hne, -⟩ := hother entry hentry
  refine env_of_readBodyIn hsh hvars hopt hkey' ?_ hbody
  -- a longer key is cut to more characters than these
  intro heq
  have hlength := congrArg List.length heq
  rw [List.length_take] at hlength
  rw [List.take_of_length_le (by omega)] at heq
  exact hne heq.symm

/-! ## The file -/

variable {map : ConfMap}

/-- The loop goes over the entries of the map. -/
theorem paramsReadIn_entries (h : ∀ entry ∈ map.toList, IsKey entry.1 ∧ '\n' ∉ entry.2) :
    paramsReadIn sh frame vars (writeConf map) = readEntries sh frame vars map.toList := by
  have hlines : ∀ line ∈ (map.toList.map fun entry => writePair entry.1 entry.2).map dropNul,
      '\n' ∉ line ∧ continued line = false := by
    intro line hline
    obtain ⟨written, hwritten, rfl⟩ := List.mem_map.mp hline
    obtain ⟨entry, hentry, rfl⟩ := List.mem_map.mp hwritten
    obtain ⟨hkey, hnewline⟩ := h entry hentry
    constructor
    · have hnot : '\n' ∉ writePair entry.1 entry.2 := by
        have hnot' : '\n' ∉ entry.1 := fun hmem => hkey.ne hmem (d := '\n') (by decide) rfl
        simp [writePair, hnot', hnewline]
      exact fun hmem => hnot (List.mem_of_mem_filter hmem)
    · have hline : dropNul (writePair entry.1 entry.2) =
          (entry.1 ++ '=' :: '"' :: dropNul entry.2) ++ ['"'] := by
        rw [dropNul_writePair hkey]
        simp [writePair]
      rw [hline]
      exact continued_concat _ (by decide)
  have hitems : items [] (dropNul (writeConf map)) =
      map.toList.map fun entry => marks (dropNul (writePair entry.1 entry.2)) := by
    rw [writeConf, dropNul_unlines, items_unlines hlines, List.map_map, List.map_map]
    rfl
  rw [paramsReadIn, readAllWith, hitems, List.foldlM_map]
  rfl

/-- The entries of a map before and after one of them. -/
theorem toList_eq_append (hget : map[key]? = some value) :
    ∃ pre post, map.toList = pre ++ (key, value) :: post ∧
      ∀ entry ∈ pre ++ post, map[entry.1]? = some entry.2 ∧ entry.1 ≠ key := by
  obtain ⟨pre, post, hentries⟩ :=
    List.append_of_mem (Std.ExtTreeMap.mem_toList_iff_getElem?_eq_some.mpr hget)
  have hdistinct := map.distinct_keys_toList
  rw [hentries, List.pairwise_append, List.pairwise_cons] at hdistinct
  obtain ⟨-, ⟨hpost, -⟩, hpre⟩ := hdistinct
  refine ⟨pre, post, hentries, fun entry hentry => ⟨?_, ?_⟩⟩
  · rw [← Std.ExtTreeMap.mem_toList_iff_getElem?_eq_some, hentries]
    rcases List.mem_append.mp hentry with h | h
    · exact List.mem_append_left _ h
    · exact List.mem_append_right _ (List.mem_cons_of_mem _ h)
  · rintro rfl
    rcases List.mem_append.mp hentry with h | h
    · exact hpre entry h _ List.mem_cons_self Std.ReflCmp.compare_self
    · exact hpost entry h Std.ReflCmp.compare_self

/-- **A literal value is read as it was written**, when the other lines only assign their
own variables. -/
theorem paramsReadIn_writeConf (hsh : sh.Expands) (vars : Vars)
    (hkeys : ∀ key value : Text, map[key]? = some value → IsKey key) (hget : map[key]? = some value)
    (hkey : IsName key) (hshort : key.length < 32) (hopt : key ≠ OPTLST)
    (hspecial : sh.special key = false) (hvalue : IsLiteral value) (hnul : '\x00' ∉ value)
    (hothers : ∀ key' value' : Text, map[key']? = some value' → key' ≠ key →
      sh.Assigns frame key' value') :
    ∃ vars', paramsReadIn sh frame vars (writeConf map) = some vars' ∧
      vars'.env[key]? = some value := by
  have hlines : ∀ entry ∈ map.toList, IsKey entry.1 ∧ '\n' ∉ entry.2 := by
    intro entry hentry
    have hget' := Std.ExtTreeMap.mem_toList_iff_getElem?_eq_some.mp hentry
    refine ⟨hkeys _ _ hget', ?_⟩
    by_cases hne : entry.1 = key
    · rw [hne, hget, Option.some_inj] at hget'
      exact fun hnewline => (hvalue.1.2 _ (hget' ▸ hnewline)).1 rfl
    · exact (hothers _ _ hget' hne).1
  -- the lines before it, its own, and those after it
  obtain ⟨pre, post, hentries, hother⟩ := toList_eq_append hget
  have hassigns : ∀ entry ∈ pre ++ post, sh.Assigns frame entry.1 entry.2 := fun entry hentry =>
    hothers _ _ (hother entry hentry).1 (hother entry hentry).2
  obtain ⟨vars₁, hpre, -⟩ : ∃ vars₁, readEntries sh frame vars pre = some vars₁ ∧ True :=
    readEntries_keeps (P := fun _ => True)
      (fun entry hentry => hassigns entry (List.mem_append_left _ hentry))
      (fun _ _ _ _ _ _ => trivial) trivial
  have hle : key.length ≤ 32 := hshort.le
  have hbody : readBodyIn sh frame vars₁ (entryItem key value) = some (vars₁.assign key value) := by
    rw [entryItem_literal hkey hvalue hnul, readBodyIn_writePair hsh hkey hle,
      evalAssign_plain (isVariable_of_name hkey hle hspecial) hvalue]
    rfl
  have hown : (vars₁.assign key value).env[key]? = some value := by
    rw [Vars.assign_get _ _ _ hopt, if_pos rfl]
  obtain ⟨vars₂, hpost, hread⟩ := env_of_readEntries hsh hown hopt hshort fun entry hentry => by
    obtain ⟨hget', hne⟩ := hother entry (List.mem_append_right _ hentry)
    exact ⟨hkeys _ _ hget', hne, hassigns entry (List.mem_append_right _ hentry)⟩
  refine ⟨vars₂, ?_, hread⟩
  rw [paramsReadIn_entries hlines, hentries, readEntries_append, hpre, Option.bind_some,
    readEntries_cons, hbody, Option.bind_some, hpost]

end Cli

end Anx.Conf
