import Anx.Conf.ConfigCommand

/-!
# Settings, and the values that the script expands

- `Settings`: the settings of a profile, a map of names to values; those of entries;
- `Script`, `expand`: the script, and what it makes of a value;
- `Agrees`, `Visible`, `Steady`: values that it makes the same of whenever it reads them;
- `steady_literal`, `steady_withVariable`: **literal values, and values with a variable of the
  environment, are steady.**
-/

namespace Anx.Conf

open Anx.Lib ParamUtils Anx.Conf.Cli

/-- The settings of a profile. -/
abbrev Settings := Text → Option Text

namespace Settings

/-- The settings that entries make, of which the last one of a key counts. -/
def ofEntries (entries : List (Text × Text)) : Settings := fun key => entries.reverse.lookup key

/-- Settings, and others where there are none. -/
def orElse (s t : Settings) : Settings := fun key => (s key).or (t key)

/-- The settings that are not empty. -/
def compact (s : Settings) : Settings := fun key => (s key).filter (· ≠ [])

/-- Settings with changed values. -/
def mapValues (f : Text → Text) (s : Settings) : Settings := fun key => (s key).map f

theorem ofEntries_cons (entry : Text × Text) (entries : List (Text × Text)) (key : Text) :
    ofEntries (entry :: entries) key =
      (ofEntries entries key).or (if key = entry.1 then some entry.2 else none) :=
  Vars.lookup_reverse_cons entry entries key

theorem ofEntries_append (entries entries' : List (Text × Text)) :
    ofEntries (entries ++ entries') = (ofEntries entries').orElse (ofEntries entries) := by
  funext key
  rw [ofEntries, List.reverse_append, List.lookup_append]
  rfl

theorem ofEntries_eq_none_iff {entries : List (Text × Text)} {key : Text} :
    ofEntries entries key = none ↔ key ∉ entries.map Prod.fst := by
  rw [ofEntries, Vars.lookup_eq_none_iff_not_mem, List.map_reverse, List.mem_reverse]

theorem mem_of_ofEntries {entries : List (Text × Text)} {key value : Text}
    (h : ofEntries entries key = some value) : (key, value) ∈ entries := by
  obtain ⟨l, r, hsplit, -⟩ := List.lookup_eq_some_iff.mp h
  have hmem : (key, value) ∈ entries.reverse := hsplit ▸ List.mem_append_right l List.mem_cons_self
  exact List.mem_reverse.mp hmem

theorem ofEntries_map (f : Text → Text) (entries : List (Text × Text)) :
    ofEntries (entries.map fun entry => (entry.1, f entry.2)) = (ofEntries entries).mapValues f := by
  funext key
  rw [mapValues]
  induction entries with
  | nil => rfl
  | cons entry entries ih =>
    rw [List.map_cons, ofEntries_cons, ofEntries_cons, ih, Option.map_or]
    congr 1
    split <;> rfl

/-- The values of names, as far as they are not empty. -/
theorem ofEntries_filter_map (f : Text → Text) (names : List Text) (key : Text) :
    ofEntries ((names.map fun name => (name, f name)).filter fun pair => pair.2 ≠ []) key =
      if key ∈ names ∧ f key ≠ [] then some (f key) else none := by
  induction names with
  | nil => simp [ofEntries]
  | cons name names ih =>
    rw [List.map_cons]
    by_cases hempty : f name = []
    · rw [List.filter_cons_of_neg (by simpa using hempty), ih]
      refine if_congr (and_congr_left fun hkey => ?_) rfl rfl
      -- the name is not the key, whose value is not empty
      have hne : key ≠ name := fun heq => hkey (heq ▸ hempty)
      simp [hne]
    · rw [List.filter_cons_of_pos (by simpa using hempty), ofEntries_cons, ih]
      by_cases hkey : key = name
      · subst hkey
        by_cases hmem : key ∈ names <;> simp [hmem, hempty]
      · simp [hkey]

/-- Entries that are put into a map. -/
theorem getElem?_insertMany (entries : List (Text × Text)) (map : ConfMap) (key : Text) :
    (map.insertMany entries)[key]? = (ofEntries entries key).or map[key]? := by
  induction entries generalizing map with
  | nil => rfl
  | cons entry entries ih =>
    rw [Std.ExtTreeMap.insertMany_cons, ih, ofEntries_cons, Option.or_assoc,
      Std.ExtTreeMap.getElem?_insert]
    congr 1
    by_cases hkey : key = entry.1
    · rw [if_pos hkey, if_pos (Std.compare_eq_iff_eq.mpr hkey.symm), Option.some_or]
    · rw [if_neg hkey, if_neg fun heq => hkey (Std.compare_eq_iff_eq.mp heq).symm, Option.none_or]

/-- The entries of a map. -/
theorem ofEntries_toList (map : ConfMap) (key : Text) : ofEntries map.toList key = map[key]? := by
  have hget := getElem?_insertMany map.toList ∅ key
  rw [insertMany_toList, Std.ExtTreeMap.getElem?_empty, Option.or_none] at hget
  exact hget.symm

end Settings

namespace Cli

/-! ## The script -/

/-- The names with which the script itself works. -/
def own : List Text :=
  [OPTLST, OPTIND, CONFIG_DIR, CONF_FILE, PROFILE] ++ ["FLAG", "OPTARG"].map String.toList ++
    fixed.map Prod.fst

/-- The local variables of its functions. -/
def localNames : List Text :=
  ["item", "key", "val", "conf_file", "source_conf", "target_conf"].map String.toList

/-- The script: the shell, the variables with which it begins, and those of them that values
of settings may use. -/
structure Script where
  sh : Bash
  vars : Vars
  used : List Text
  expands : sh.Expands
  keepsPlain : sh.KeepsPlain
  separate : ∀ name ∈ used, name ∉ own ∧ name ∉ localNames

namespace Script

variable (S : Script)

/-- The directory of the profiles. -/
def configDir : Text := lookup S.vars [] CONFIG_DIR

/-- The value of a text between double quotes, at the beginning. -/
def expand (value : Text) : Text :=
  (evalWord S.sh S.vars [] false 0 ('"' :: (value ++ ['"']))).getD []

/-- The variables that values may use are as at the beginning. -/
def Agrees (vars : Vars) : Prop := ∀ name ∈ S.used, vars.env[name]? = S.vars.env[name]?

/-- None of them is hidden by a local variable. -/
def Visible (locals : Locals) : Prop := ∀ name ∈ S.used, name ∉ locals.map Prod.fst

/-- The value is expanded to the same throughout the script. -/
def Steady (value : Text) : Prop := ∀ vars locals, S.Agrees vars → S.Visible locals →
  evalWord S.sh vars locals false 0 ('"' :: (value ++ ['"'])) = some (S.expand value)

variable {S}

theorem visible_nil : S.Visible [] := fun _ _ h => absurd h List.not_mem_nil

theorem Visible.cons {name value : Text} {locals : Locals} (h : S.Visible locals)
    (hname : name ∈ own ∨ name ∈ localNames) : S.Visible ((name, value) :: locals) := by
  intro used hused hmem
  rcases List.mem_cons.mp hmem with rfl | hmem
  · exact hname.elim (S.separate _ hused).1 (S.separate _ hused).2
  · exact h used hused hmem

theorem expand_literal {value : Text} (h : IsLiteral value) : S.expand value = value := by
  rw [expand, evalWord_of_unquote (unquote_value h), Option.getD_some]

/-- **A literal value** is not expanded. -/
theorem steady_literal {value : Text} (h : IsLiteral value) : S.Steady value :=
  fun _ _ _ _ => by rw [evalWord_of_unquote (unquote_value h), expand_literal h]

/-- Characters that have been used are left out. -/
theorem evalWord_drop {sh : Bash} {vars : Vars} {locals : Locals} (quoted : Bool) (n : Nat)
    (text : Text) :
    evalWord sh vars locals quoted n text = evalWord sh vars locals quoted 0 (text.drop n) := by
  induction n generalizing text with
  | zero => rfl
  | succ n ih =>
    cases text with
    | nil => rw [List.drop_nil, evalWord, evalWord]
    | cons c text => rw [evalWord, ih, List.drop_succ_cons]

/-- A literal part of a value. -/
theorem evalWord_literal {sh : Bash} {vars : Vars} {locals : Locals} {front : Text}
    (h : IsLiteral front) (text : Text) : evalWord sh vars locals true 0 (front ++ text) =
      (evalWord sh vars locals true 0 text).map (front ++ ·) := by
  obtain ⟨⟨hquote, -⟩, hplain⟩ := h
  induction front with
  | nil =>
    rw [List.nil_append]
    exact Option.map_id'.symm
  | cons c front ih =>
    simp only [List.mem_cons, not_or] at hquote
    have hc := hplain c List.mem_cons_self
    simp only [List.mem_cons, List.not_mem_nil, or_false, not_or] at hc
    rw [List.cons_append, evalWord, if_neg (by simp [hc.1, hc.2.2]),
      ih (fun d hd => hplain d (List.mem_cons_of_mem _ hd)) hquote.2, Option.map_map]
    · rfl
    · exact fun heq => hquote.1 heq.symm
    · exact hc.2.1

/-- A text with `${NAME}` for a variable that values may use. -/
def withVariable (front name back : Text) : Text := front ++ '$' :: '{' :: (name ++ '}' :: back)

/-- **The variable** is replaced by the value that it has at the beginning. -/
theorem evalWord_withVariable {vars : Vars} {locals : Locals} (hvars : S.Agrees vars)
    (hlocals : S.Visible locals) {front name back : Text} (hfront : IsLiteral front)
    (hback : IsLiteral back) (hname : IsName name) (hused : name ∈ S.used) :
    evalWord S.sh vars locals false 0 ('"' :: (withVariable front name back ++ ['"'])) =
      some (front ++ (lookup S.vars [] name ++ back)) := by
  obtain ⟨c, rest, rfl⟩ := List.exists_cons_of_ne_nil hname.1.1
  have hchar : ∀ d, isKeyChar d = true → isNameChar d = true := by
    intro d hd
    simp only [isKeyChar, Bool.or_eq_true, Bool.and_eq_true, decide_eq_true_eq] at hd
    simp only [isNameChar, isNameStart, Bool.or_eq_true, Bool.and_eq_true, decide_eq_true_eq]
    rcases hd with (hupper | hdigit) | hunderscore
    · exact .inl (.inl (.inl hupper))
    · exact .inr hdigit
    · exact .inl (.inr hunderscore)
  have hstart : isNameStart c = true := by
    have hc := hname.1.2 c List.mem_cons_self
    have hdigit := hname.2 c rfl
    simp only [isKeyChar, Bool.or_eq_true, Bool.and_eq_true, decide_eq_true_eq] at hc
    simp only [isNameStart, Bool.or_eq_true, Bool.and_eq_true, decide_eq_true_eq]
    rcases hc with (hupper | hnumber) | hunderscore
    · exact .inl (.inl hupper)
    · exact absurd hnumber hdigit
    · exact .inr hunderscore
  have hinner : ((c :: rest) ++ '}' :: (back ++ ['"'])).takeWhile isNameChar = c :: rest := by
    rw [List.takeWhile_append_of_pos fun d hd => hchar d (hname.1.2 d hd),
      List.takeWhile_cons_of_neg (by decide), List.append_nil]
  have hend : ('{' :: ((c :: rest) ++ '}' :: (back ++ ['"'])))[(c :: rest).length + 1]? = some '}' := by
    rw [List.getElem?_cons_succ, List.getElem?_append_right (Nat.le_refl _), Nat.sub_self]
    rfl
  have hlookup : lookup vars locals (c :: rest) = lookup S.vars [] (c :: rest) := by
    rw [lookup, lookup, Vars.lookup_eq_none_iff_not_mem.mpr (hlocals _ hused), hvars _ hused]
    rfl
  have hdollar : dollar S.sh vars locals ('{' :: ((c :: rest) ++ '}' :: (back ++ ['"']))) =
      some (lookup S.vars [] (c :: rest), (c :: rest).length + 2) := by
    have hbrace : ('{' :: ((c :: rest) ++ '}' :: (back ++ ['"']))).takeWhile isNameChar = [] :=
      List.takeWhile_cons_of_neg (by decide)
    unfold dollar
    simp only [List.tail_cons, hbrace, hinner, hend, hlookup]
    rw [if_neg (by decide), if_pos ⟨rfl, by simpa using hstart, trivial⟩]
  have hdrop : ('{' :: ((c :: rest) ++ '}' :: (back ++ ['"']))).drop ((c :: rest).length + 2) =
      back ++ ['"'] := by
    rw [List.drop_succ_cons, ← List.drop_drop, List.drop_left]
    rfl
  have hshape : withVariable front (c :: rest) back ++ ['"'] =
      front ++ '$' :: '{' :: ((c :: rest) ++ '}' :: (back ++ ['"'])) := by
    simp [withVariable]
  have hquoted : evalWord S.sh vars locals true 0 (back ++ ['"']) = some back := by
    rw [evalWord_literal hback, evalWord, Bool.not_true, evalWord, if_neg Bool.false_ne_true,
      Option.map_some, List.append_nil]
  rw [hshape, evalWord, Bool.not_false, evalWord_literal hfront, evalWord, hdollar,
    Option.bind_some]
  dsimp only
  rw [evalWord_drop, hdrop, hquoted]
  rfl

theorem agrees_self : S.Agrees S.vars := fun _ _ => rfl

theorem expand_withVariable {front name back : Text} (hfront : IsLiteral front)
    (hback : IsLiteral back) (hname : IsName name) (hused : name ∈ S.used) :
    S.expand (withVariable front name back) = front ++ (lookup S.vars [] name ++ back) := by
  rw [expand, evalWord_withVariable agrees_self visible_nil hfront hback hname hused,
    Option.getD_some]

/-- **A value with a variable** that values may use. -/
theorem steady_withVariable {front name back : Text} (hfront : IsLiteral front)
    (hback : IsLiteral back) (hname : IsName name) (hused : name ∈ S.used) :
    S.Steady (withVariable front name back) := fun vars locals hvars hlocals => by
  rw [evalWord_withVariable hvars hlocals hfront hback hname hused,
    expand_withVariable hfront hback hname hused]

end Script

end Cli

end Anx.Conf
