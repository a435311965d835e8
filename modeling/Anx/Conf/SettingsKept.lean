import Anx.Conf.ConfigUpdate

/-!
# The settings that an edit keeps

`config_update` writes what is in the variables, for the keys that `OPTLST` lists. So a
setting stays as it is if its assignment gives the variable the value that stands in the
file, and the key is listed. A setting may have the name of a variable that the script itself
works with: then it has to have the value that the script leaves there.

- `optlstOf`, `Lists`: a list of names in `OPTLST`, and the names that it gets;
- `Evaluates`: the values that the assignments give; `kept_iff`: what is written of them;
- `Keeps`: every evaluation gives a value, and the last one for a key the value meant;
  `KeepsOwn`: what the settings `OPTLST` and `OPTIND` need;
- `keeps_literal`: lines without `$` are kept;
- `configUpdate_keeps_iff`: **the file keeps its settings exactly if the evaluations do**, and
  those of the script's own variables are what they need to be.
-/

namespace Anx.Conf.Cli

open Anx.Lib ParamUtils Vars

/-- The values that the assignments give. -/
def Evaluates (sh : Bash) : Vars → List Setting → List (Text × Text) → Prop
  | _, [], values => values = []
  | vars, s :: rest, values => ∃ value values', values = (s.key, value) :: values' ∧
      s.eval sh vars = some value ∧ Evaluates sh (vars.assign s.key value) rest values'

/-- The variables of the script itself that a setting may be named after: the list of keys,
and the counter of `params_parse`. -/
def ownNames : List Text := [OPTLST, OPTIND]

/-- Every evaluation gives a value, and the last one for a key gives the value that is
meant, apart from the script's own variables. -/
def Keeps (sh : Bash) : Vars → List Setting → Prop
  | _, [] => True
  | vars, s :: rest => ∃ value, s.eval sh vars = some value ∧
      (s.key ∉ ownNames → s.key ∉ rest.map Setting.key → value = s.value) ∧
      Keeps sh (vars.assign s.key value) rest

/-- The names that a value of `OPTLST` lists. -/
def listed (sh : Bash) (optlst : Text) : List Text := (pieces isIFS optlst).flatMap sh.glob

/-- The values that are meant, the last one of a key first. -/
def meant (entries params : List (Text × Text)) : List (Text × Text) :=
  (params.map fun param => (optionKey param, param.2)).reverse ++ entries

/-- What settings need of which one is for `OPTLST`: the value that is meant for it is the last
one that it gets, with the keys that are appended to it from there on. It lists, of all
variables that have a value, the keys and no others. -/
structure KeepsList (sh : Bash) (vars : Vars) (s : List Setting) (meant : List (Text × Text)) :
    Prop where
  value : ∀ pre post value, Evaluates sh vars s (pre ++ (OPTLST, value) :: post) →
    OPTLST ∉ post.map Prod.fst →
      (OPTLST :: post.map Prod.fst).foldl addOption value = valueIn meant OPTLST
  all : ∀ key, valueIn meant key ≠ [] → key ∈ listed sh (valueIn meant OPTLST)
  others : ∀ name ∈ listed sh (valueIn meant OPTLST), name ∉ s.map Setting.key →
    name ≠ OPTIND ∧ (vars.env[name]?).getD [] = []

/-- What settings of the script's own variables need: `OPTIND` counts the parameters, from one
on, and is only written if it is listed. -/
structure KeepsOwn (sh : Bash) (vars : Vars) (s : List Setting) (count : Nat)
    (meant : List (Text × Text)) : Prop where
  optind : OPTIND ∈ s.map Setting.key →
    (OPTLST ∈ s.map Setting.key → OPTIND ∈ listed sh (valueIn meant OPTLST)) →
      valueIn meant OPTIND = decimal (1 + count)
  optlst : OPTLST ∈ s.map Setting.key → KeepsList sh vars s meant

variable {sh : Bash} {conf : Text} {vars vars' : Vars}

/-! ## The list of options -/

/-- `OPTLST` with these names. -/
def optlstOf (names : List Text) : Text := ' ' :: names.flatMap (· ++ [' '])

/-- What begins with a blank is not found in a text without one. -/
theorem infix_append_iff {front : Text} (hfront : ' ' ∉ front) (l text : Text) :
    (' ' :: l) <:+: front ++ text ↔ (' ' :: l) <:+: text := by
  induction front with
  | nil => rfl
  | cons c front ih =>
    simp only [List.mem_cons, not_or] at hfront
    rw [List.cons_append, List.infix_cons_iff, List.cons_prefix_cons, ih hfront.2]
    simp [hfront.1]

/-- A name stands between two blanks only if it is listed. -/
theorem infix_optlstOf_iff {names : List Text} (hnames : ∀ name ∈ names, ' ' ∉ name) {key : Text}
    (hkey : ' ' ∉ key) : (' ' :: (key ++ [' '])) <:+: optlstOf names ↔ key ∈ names := by
  induction names with
  | nil =>
    simp only [List.not_mem_nil, iff_false]
    intro h
    have hlen := h.length_le
    simp [optlstOf] at hlen
  | cons name names ih =>
    obtain ⟨hname, hrest⟩ := List.forall_mem_cons.mp hnames
    have hsplit : optlstOf (name :: names) = ' ' :: (name ++ optlstOf names) := by simp [optlstOf]
    rw [hsplit, List.infix_cons_iff, List.mem_cons, ← ih hrest, infix_append_iff hname,
      List.cons_prefix_cons]
    refine or_congr_left ⟨?_, ?_⟩
    · -- both names end at the first blank
      rintro ⟨-, rest, heq⟩
      have htake := congrArg (List.takeWhile (· ≠ ' ')) heq
      rwa [List.append_assoc, List.singleton_append, takeWhile_ne_append hkey, optlstOf,
        takeWhile_ne_append hname] at htake
    · rintro rfl
      exact ⟨rfl, names.flatMap (· ++ [' ']), by simp [optlstOf]⟩

theorem blank_not_mem {key : Text} (hkey : IsName key) : ' ' ∉ key :=
  fun h => hkey.1.ne h (d := ' ') (by decide) rfl

/-- A name is appended unless it is listed. -/
theorem addOption_optlstOf {names : List Text} (hnames : ∀ name ∈ names, IsName name) {key : Text}
    (hkey : IsName key) : addOption (optlstOf names) key =
      optlstOf (if key ∈ names then names else names ++ [key]) := by
  have hlisted := infix_optlstOf_iff (fun name hname => blank_not_mem (hnames name hname))
    (blank_not_mem hkey)
  have hne : optlstOf names ≠ [] := List.cons_ne_nil _ _
  by_cases hmem : key ∈ names
  · rw [addOption, if_pos (.inr (hlisted.mpr hmem)), if_pos hmem]
  · have hnot := not_or.mpr ⟨hne, fun h => hmem (hlisted.mp h)⟩
    rw [addOption, if_neg hnot, if_neg hmem]
    simp [optlstOf]

/-- The names that a list has after further ones. -/
theorem foldl_addOption_optlstOf {names keys : List Text} (hnames : ∀ name ∈ names, IsName name)
    (hkeys : ∀ key ∈ keys, IsName key) : ∃ names', keys.foldl addOption (optlstOf names) =
      optlstOf names' ∧ ∀ key, key ∈ names' ↔ key ∈ names ∨ key ∈ keys := by
  induction keys generalizing names with
  | nil => exact ⟨names, rfl, by simp⟩
  | cons key keys ih =>
    obtain ⟨hkey, hrest⟩ := List.forall_mem_cons.mp hkeys
    rw [List.foldl_cons, addOption_optlstOf hnames hkey]
    split
    · next hmem =>
      obtain ⟨names', heq, hiff⟩ := ih hnames hrest
      refine ⟨names', heq, fun key' => ?_⟩
      rw [hiff, List.mem_cons]
      constructor
      · rintro (h | h)
        · exact .inl h
        · exact .inr (.inr h)
      · rintro (h | rfl | h)
        · exact .inl h
        · exact .inl hmem
        · exact .inr h
    · have hall : ∀ name ∈ names ++ [key], IsName name := by
        intro name hname
        rcases List.mem_append.mp hname with h | h
        · exact hnames name h
        · exact List.mem_singleton.mp h ▸ hkey
      obtain ⟨names', heq, hiff⟩ := ih hall hrest
      refine ⟨names', heq, fun key' => ?_⟩
      rw [hiff, List.mem_append, List.mem_singleton, List.mem_cons, or_assoc]

/-- `OPTLST` lists names of the profile, as after `OPTLST=" "` and after reading it. -/
structure Lists (vars : Vars) (keys names : List Text) : Prop where
  optlst : vars.HasOptlst (optlstOf names)
  name : ∀ name ∈ names, name ∈ keys

/-- The keys that `params_write` goes through are the listed names. -/
theorem writtenKeys_eq (hplain : sh.KeepsPlain) {names : List Text}
    (hnames : ∀ name ∈ names, IsName name) (hopt : vars.HasOptlst (optlstOf names)) :
    writtenKeys sh vars = names := by
  have hblank : ∀ name ∈ names, ∀ c ∈ name, isIFS c = false := by
    intro name hname c hc
    have hkey := (hnames name hname).1
    simp [isIFS, hkey.ne hc (show isKeyChar ' ' = false by decide),
      hkey.ne hc (show isKeyChar '\t' = false by decide),
      hkey.ne hc (show isKeyChar '\n' = false by decide)]
  have hpieces : pieces isIFS (optlstOf names) = names := by
    have hrest : pieces isIFS (names.flatMap (· ++ [' '])) = names := by
      clear hopt
      induction names with
      | nil => rfl
      | cons name names ih =>
        rw [List.flatMap_cons, List.append_assoc, List.singleton_append,
          pieces_append_cons _ _ (by decide),
          pieces_of_forall (hnames name List.mem_cons_self).1.1 (hblank name List.mem_cons_self),
          ih (fun n hn => hnames n (List.mem_cons_of_mem _ hn))
            (fun n hn => hblank n (List.mem_cons_of_mem _ hn))]
        rfl
    show pieces isIFS ([] ++ ' ' :: names.flatMap (· ++ [' '])) = names
    rw [pieces_append_cons _ _ (by decide), hrest]
    rfl
  have hglob : ∀ name ∈ names, sh.glob name = [name] := by
    intro name hname
    refine hplain name fun c hc => ?_
    have hkey := (hnames name hname).1
    simp [hkey.ne hc (show isKeyChar '*' = false by decide),
      hkey.ne hc (show isKeyChar '?' = false by decide),
      hkey.ne hc (show isKeyChar '[' = false by decide),
      hkey.ne hc (show isKeyChar '\\' = false by decide),
      hkey.ne hc (show isKeyChar '(' = false by decide),
      hkey.ne hc (show isKeyChar '{' = false by decide)]
  have hget : (vars.env[OPTLST]?).getD [] = optlstOf names := by
    rw [hopt, Option.getD_some]
  rw [writtenKeys, hget, hpieces]
  clear hpieces hget hopt
  induction names with
  | nil => rfl
  | cons name names ih =>
    rw [List.flatMap_cons, hglob name List.mem_cons_self,
      ih (fun n hn => hnames n (List.mem_cons_of_mem _ hn))
        (fun n hn => hblank n (List.mem_cons_of_mem _ hn))
        (fun n hn => hglob n (List.mem_cons_of_mem _ hn))]
    rfl

/-! ## The variables -/

theorem runAll_eq_some_iff {s : List Setting} : runAll sh vars s = some vars' ↔
    ∃ values, Evaluates sh vars s values ∧ vars' = vars.assignAll values := by
  induction s generalizing vars with
  | nil =>
    constructor
    · rintro ⟨⟩
      exact ⟨[], rfl, rfl⟩
    · rintro ⟨values, rfl, rfl⟩
      rfl
  | cons a s ih =>
    rw [runAll, Option.bind_eq_some_iff]
    constructor
    · rintro ⟨value, hvalue, hrest⟩
      obtain ⟨values, hvalues, rfl⟩ := ih.mp hrest
      exact ⟨(a.key, value) :: values, ⟨value, values, rfl, hvalue, hvalues⟩, rfl⟩
    · rintro ⟨-, ⟨value, values, rfl, hvalue, hvalues⟩, rfl⟩
      exact ⟨value, hvalue, ih.mpr ⟨values, hvalues, rfl⟩⟩

theorem Evaluates.keys {s : List Setting} {values : List (Text × Text)}
    (h : Evaluates sh vars s values) : values.map Prod.fst = s.map Setting.key := by
  induction s generalizing vars values with
  | nil =>
    subst h
    rfl
  | cons a s ih =>
    obtain ⟨value, values', rfl, -, hrest⟩ := h
    rw [List.map_cons, List.map_cons, ih hrest]

/-- Evaluations give no other values. -/
theorem Evaluates.unique {s : List Setting} {values values' : List (Text × Text)}
    (h : Evaluates sh vars s values) (h' : Evaluates sh vars s values') : values = values' := by
  induction s generalizing vars values values' with
  | nil => exact h.trans h'.symm
  | cons a s ih =>
    obtain ⟨value, rest, rfl, hvalue, hrest⟩ := h
    obtain ⟨value', rest', rfl, hvalue', hrest'⟩ := h'
    rw [hvalue, Option.some_inj] at hvalue'
    subst hvalue'
    rw [ih hrest hrest']

/-- **Settings are kept** exactly if the evaluations give, key by key, the values meant. -/
theorem keeps_iff {s : List Setting} : Keeps sh vars s ↔ ∃ values, Evaluates sh vars s values ∧
    ∀ key ∉ ownNames, values.reverse.lookup key =
      (s.map fun a => (a.key, a.value)).reverse.lookup key := by
  induction s generalizing vars with
  | nil =>
    refine ⟨fun _ => ⟨[], rfl, fun _ _ => rfl⟩, fun _ => trivial⟩
  | cons a s ih =>
    have hkeys : ∀ key, (s.map fun a => (a.key, a.value)).reverse.lookup key = none ↔
        key ∉ s.map Setting.key := by
      intro key
      rw [lookup_eq_none_iff_not_mem, List.map_reverse, List.mem_reverse, List.map_map]
      rfl
    constructor
    · rintro ⟨value, hvalue, hlast, hrest⟩
      obtain ⟨values, hvalues, hsame⟩ := ih.mp hrest
      refine ⟨(a.key, value) :: values, ⟨value, values, rfl, hvalue, hvalues⟩,
        fun key hown => ?_⟩
      rw [List.map_cons, lookup_reverse_cons, lookup_reverse_cons, hsame key hown]
      by_cases hkey : key = a.key
      · subst hkey
        by_cases hlater : a.key ∈ s.map Setting.key
        · -- the value is replaced by a later one
          obtain ⟨last, hlast⟩ := Option.ne_none_iff_exists'.mp fun h => (hkeys a.key).mp h hlater
          rw [hlast, Option.some_or, Option.some_or]
        · rw [hlast hown hlater]
      · rw [if_neg hkey, if_neg hkey]
    · rintro ⟨-, ⟨value, values, rfl, hvalue, hvalues⟩, hsame⟩
      have hnone : ∀ key, values.reverse.lookup key = none ↔ key ∉ s.map Setting.key := by
        intro key
        rw [lookup_eq_none_iff_not_mem, List.map_reverse, List.mem_reverse, hvalues.keys]
      refine ⟨value, hvalue, fun hown hlater => ?_, ih.mpr ⟨values, hvalues, fun key hown => ?_⟩⟩
      · have heq := hsame a.key hown
        rw [List.map_cons, lookup_reverse_cons, lookup_reverse_cons, (hnone a.key).mpr hlater,
          (hkeys a.key).mpr hlater] at heq
        simpa using heq
      · have heq := hsame key hown
        rw [List.map_cons, lookup_reverse_cons, lookup_reverse_cons] at heq
        by_cases hlater : key ∈ s.map Setting.key
        · -- both sides have a later value
          obtain ⟨last, hlast⟩ := Option.ne_none_iff_exists'.mp fun h => (hnone key).mp h hlater
          obtain ⟨last', hlast'⟩ := Option.ne_none_iff_exists'.mp fun h => (hkeys key).mp h hlater
          rw [hlast, hlast', Option.some_or, Option.some_or] at heq
          rw [hlast, hlast', heq]
        · rw [(hnone key).mpr hlater, (hkeys key).mpr hlater]

/-- Lines whose values are literal keep them, if their keys are variables. -/
theorem keeps_literal {entries : List (Text × Text)}
    (hkey : ∀ entry ∈ entries, isVariable sh.toShell entry.1 = true)
    (hvalue : ∀ entry ∈ entries, IsLiteral entry.2 ∧ '\x00' ∉ entry.2) :
    Keeps sh vars (entries.map (Setting.ofLine conf)) := by
  induction entries generalizing vars with
  | nil => trivial
  | cons entry entries ih =>
    obtain ⟨hvar, hkeys⟩ := List.forall_mem_cons.mp hkey
    obtain ⟨⟨hliteral, hnul⟩, hvalues⟩ := List.forall_mem_cons.mp hvalue
    have hdrop : dropNul entry.2 = entry.2 :=
      List.filter_eq_self.mpr fun c hc => decide_eq_true (ne_of_mem_of_not_mem hc hnul)
    refine ⟨entry.2, ?_, fun _ _ => rfl, ih hkeys hvalues⟩
    show evalAssign sh vars _ entry.1 (writePair entry.1 (dropNul entry.2)) = _
    rw [hdrop]
    exact evalAssign_plain hvar hliteral

/-! ## The written file -/

theorem valueIn_cons (entry : Text × Text) (entries : List (Text × Text)) (key : Text) :
    valueIn (entry :: entries) key = if key = entry.1 then entry.2 else valueIn entries key := by
  have hsplit : (entry :: entries).lookup key =
      (if key = entry.1 then some entry.2 else none).or (entries.lookup key) := by
    rw [← lookup_single, ← List.lookup_append]
    rfl
  rw [valueIn, hsplit]
  split <;> rfl

/-- A value that is not empty is written for each listed name. -/
theorem valueIn_filter_map (f : Text → Text) (names : List Text) (key : Text) :
    valueIn ((names.map fun name => (name, f name)).filter fun pair => pair.2 ≠ []) key =
      if key ∈ names then f key else [] := by
  induction names with
  | nil => rfl
  | cons name names ih =>
    rw [List.map_cons]
    by_cases hempty : f name = []
    · -- an absent value counts as the empty one
      rw [List.filter_cons_of_neg (by simpa using hempty), ih]
      by_cases hkey : key = name
      · simp [hkey, hempty]
      · simp [hkey]
    · rw [List.filter_cons_of_pos (by simpa using hempty)]
      by_cases hkey : key = name
      · rw [valueIn_cons, if_pos hkey, if_pos (hkey ▸ List.mem_cons_self), hkey]
      · rw [valueIn_cons, if_neg hkey, ih]
        simp [hkey]

/-- **What `params_write` writes**: the variables that are listed. -/
theorem paramsWrite_iff (sh : Bash) (vars : Vars) (optind : Nat) (P : (Text → Text) → Prop) :
    (∃ written, paramsWrite sh vars optind = some written ∧ P (valueIn written)) ↔
      (∀ key ∈ writtenKeys sh vars, IsName key) ∧
        P fun key => if key ∈ writtenKeys sh vars then
          lookup vars [(OPTIND, decimal optind)] key else [] := by
  unfold paramsWrite
  constructor
  · rintro ⟨written, hwritten, hP⟩
    obtain ⟨hnames, hwritten⟩ := Option.ite_none_right_eq_some.mp hwritten
    cases hwritten
    rw [funext (valueIn_filter_map _ _)] at hP
    exact ⟨hnames, hP⟩
  · rintro ⟨hnames, hP⟩
    refine ⟨_, if_pos hnames, ?_⟩
    rwa [funext (valueIn_filter_map _ _)]

/-- The edit makes all assignments and writes the variables. -/
theorem configUpdate_eq (hsh : sh.Expands) {entries params : List (Text × Text)}
    (hprofile : Profile entries) (hparams : Params params)
    (hoptind : ∀ param ∈ params, optionKey param ≠ OPTIND) :
    configUpdate sh conf (profileText entries) (params.map optionItem) vars =
      (runAll sh vars (settings sh conf entries params)).bind
        fun vars => paramsWrite sh vars (1 + params.length) := by
  rw [configUpdate, paramsReadVars_profile hsh hprofile.name hprofile.value, settings,
    runAll_append, Option.bind_assoc]
  show Option.bind _ _ = _
  congr 1
  funext vars
  show (paramsParse sh conf vars (params.map optionItem)).bind _ = _
  rw [paramsParse, parseAll_options hparams hoptind, Option.bind_map]
  rfl

/-- The value of a variable that `params_write` writes after the assignments. -/
def writtenValue (vars : Vars) (values : List (Text × Text)) (count : Nat) (key : Text) : Text :=
  lookup (vars.assignAll values) [(OPTIND, decimal (1 + count))] key

theorem writtenValue_optind (values : List (Text × Text)) (count : Nat) :
    writtenValue vars values count OPTIND = decimal (1 + count) := by
  rw [writtenValue, lookup, lookup_single, if_pos rfl]
  rfl

theorem writtenValue_optlst (values : List (Text × Text)) (count : Nat) :
    writtenValue vars values count OPTLST = ((vars.assignAll values).env[OPTLST]?).getD [] := by
  have hne : OPTLST ≠ OPTIND := by decide
  rw [writtenValue, lookup, lookup_single, if_neg hne, Option.none_or]

theorem writtenValue_eq {values : List (Text × Text)} (count : Nat) {key : Text}
    (hown : key ∉ ownNames) : writtenValue vars values count key =
      ((values.reverse.lookup key).or vars.env[key]?).getD [] := by
  simp only [ownNames, List.mem_cons, List.not_mem_nil, or_false, not_or] at hown
  rw [writtenValue, lookup, lookup_single, if_neg hown.2, Option.none_or,
    assignAll_get _ _ hown.1]

/-- The values of the assignments of an edit that keeps the settings: the variables that are
listed have the values that are meant, and no others are meant. -/
structure Writes (sh : Bash) (vars : Vars) (s : List Setting) (count : Nat)
    (meant values : List (Text × Text)) : Prop where
  evaluates : Evaluates sh vars s values
  names : ∀ key ∈ writtenKeys sh (vars.assignAll values), IsName key
  kept : ∀ key, (if key ∈ writtenKeys sh (vars.assignAll values) then
    writtenValue vars values count key else []) = valueIn meant key

/-- **An edit keeps the settings** exactly if its assignments give such values. -/
theorem kept_iff (hsh : sh.Expands) {entries params : List (Text × Text)}
    (hprofile : Profile entries) (hparams : Params params)
    (hoptind : ∀ param ∈ params, optionKey param ≠ OPTIND) :
    (∃ written, configUpdate sh conf (profileText entries) (params.map optionItem) vars =
      some written ∧ Kept entries params written) ↔
      ∃ values, Writes sh vars (settings sh conf entries params) params.length
        (meant entries params) values := by
  have hwrite := fun values => paramsWrite_iff sh (vars.assignAll values) (1 + params.length)
    fun f => ∀ key, f key = valueIn (meant entries params) key
  rw [configUpdate_eq hsh hprofile hparams hoptind]
  constructor
  · rintro ⟨written, hrun, hkept⟩
    obtain ⟨vars', hvars', hwritten⟩ := Option.bind_eq_some_iff.mp hrun
    obtain ⟨values, hvalues, rfl⟩ := runAll_eq_some_iff.mp hvars'
    obtain ⟨hnames, hkept⟩ := (hwrite values).mp ⟨written, hwritten, hkept⟩
    exact ⟨values, hvalues, hnames, hkept⟩
  · rintro ⟨values, hvalues, hnames, hkept⟩
    obtain ⟨written, hwritten, hkept⟩ := (hwrite values).mpr ⟨hnames, hkept⟩
    refine ⟨written, ?_, hkept⟩
    rw [runAll_eq_some_iff.mpr ⟨values, hvalues, rfl⟩, Option.bind_some, hwritten]

/-! ## Empty values -/

/-- Settings that are meant to be empty are. -/
theorem Evaluates.lookup_nil {s : List Setting} {values : List (Text × Text)}
    (h : Evaluates sh vars s values)
    (hnil : ∀ a ∈ s, a.value = [] → ∀ vars value, a.eval sh vars = some value → value = [])
    {key : Text} (hlast : (s.map fun a => (a.key, a.value)).reverse.lookup key = some []) :
    values.reverse.lookup key = some [] := by
  induction s generalizing vars values with
  | nil => cases hlast
  | cons a s ih =>
    obtain ⟨value, rest, rfl, hvalue, hrest⟩ := h
    obtain ⟨ha, hs⟩ := List.forall_mem_cons.mp hnil
    rw [List.map_cons, lookup_reverse_cons] at hlast
    rw [lookup_reverse_cons]
    cases hlater : (s.map fun a => (a.key, a.value)).reverse.lookup key with
    | some value' =>
      rw [hlater, Option.some_or] at hlast
      rw [ih hrest hs (hlater.trans hlast), Option.some_or]
    | none =>
      have hnone : rest.reverse.lookup key = none := by
        rw [lookup_eq_none_iff_not_mem, List.map_reverse, List.mem_reverse] at hlater ⊢
        rw [hrest.keys]
        rwa [List.map_map] at hlater
      rw [hlater, Option.none_or] at hlast
      obtain ⟨hkey, hempty⟩ := Option.ite_none_right_eq_some.mp hlast
      rw [hnone, Option.none_or, if_pos hkey, ha (Option.some.inj hempty) _ _ hvalue]

/-- `eval` of `KEY=""` assigns the empty value. -/
theorem evalAssign_nil {locals : Locals} {key value : Text}
    (h : evalAssign sh vars locals key (writePair key []) = some value) : value = [] := by
  have hvar : isVariable sh.toShell key = true := by
    by_contra hnot
    rw [evalAssign, if_neg fun hand => hnot hand.1] at h
    cases h
  rw [evalAssign_writePair hvar] at h
  cases h
  rfl

theorem optionSettings_pairs (n : Nat) (params : List (Text × Text)) :
    (optionSettings sh conf n params).map (fun a => (a.key, a.value)) =
      params.map fun param => (optionKey param, param.2) := by
  induction params generalizing n with
  | nil => rfl
  | cons param params ih =>
    rw [optionSettings, List.map_cons, ih, List.map_cons]

/-- The keys and the values meant. -/
theorem settings_pairs (sh : Bash) (conf : Text) (entries params : List (Text × Text)) :
    (settings sh conf entries params).map (fun a => (a.key, a.value)) =
      entries ++ params.map fun param => (optionKey param, param.2) := by
  rw [settings, List.map_append, optionSettings_pairs, List.map_map]
  exact congrArg (· ++ _) (List.map_id _)

/-- Of distinct keys, it does not matter which one comes first. -/
theorem lookup_reverse_of_nodup {entries : List (Text × Text)}
    (h : (entries.map Prod.fst).Nodup) (key : Text) :
    entries.reverse.lookup key = entries.lookup key := by
  induction entries with
  | nil => rfl
  | cons entry entries ih =>
    rw [List.map_cons, List.nodup_cons] at h
    have hsplit : (entry :: entries).lookup key =
        (if key = entry.1 then some entry.2 else none).or (entries.lookup key) := by
      rw [← lookup_single, ← List.lookup_append]
      rfl
    rw [lookup_reverse_cons, ih h.2, hsplit]
    by_cases heq : key = entry.1
    · rw [heq, lookup_eq_none_iff_not_mem.mpr h.1, if_pos rfl]
      rfl
    · rw [if_neg heq, Option.or_none, Option.none_or]

/-- `KEY=""` has no blanks and no pattern characters, so the shell passes it on as it is. -/
theorem echo_writePair_nil (hplain : sh.KeepsPlain) {key : Text} (hkey : IsKey key) :
    echo sh.toShell (writePair key []) = writePair key [] := by
  have hchars : ∀ c ∈ writePair key [], isKeyChar c = true ∨ c = '=' ∨ c = '"' := by
    intro c hc
    simp only [writePair, List.mem_append, List.mem_cons, List.nil_append, List.not_mem_nil,
      or_false] at hc
    rcases hc with hc | hc
    · exact .inl (hkey.2 c hc)
    · exact .inr (by tauto)
  have hpieces : pieces isIFS (writePair key []) = [writePair key []] := by
    refine pieces_of_forall (by simp [writePair]) fun c hc => ?_
    rcases hchars c hc with hc | rfl | rfl
    · by_contra hblank
      simp only [isIFS, Bool.or_eq_true, decide_eq_true_eq, Bool.not_eq_false] at hblank
      rcases hblank with (rfl | rfl) | rfl <;> exact absurd hc (by decide)
    · rfl
    · rfl
  have hpattern : NoPattern (writePair key []) := by
    intro c hc hmem
    simp only [List.mem_cons, List.not_mem_nil, or_false] at hmem
    rcases hchars c hc with hc | rfl | rfl
    · rcases hmem with rfl | rfl | rfl | rfl | rfl | rfl <;> exact absurd hc (by decide)
    · exact absurd hmem (by decide)
    · exact absurd hmem (by decide)
  refine echo_plain hplain hpattern ?_
  rw [hpieces]
  exact List.intercalate_singleton

theorem optionText_of_value_nil (hplain : sh.KeepsPlain) {params : List (Text × Text)}
    (hkeys : ∀ param ∈ params, IsKey (optionKey param)) (n : Nat) :
    ∀ a ∈ optionSettings sh conf n params, a.value = [] → a.text = writePair a.key [] := by
  induction params generalizing n with
  | nil => exact fun a ha => absurd ha List.not_mem_nil
  | cons param params ih =>
    obtain ⟨hkey, hrest⟩ := List.forall_mem_cons.mp hkeys
    refine List.forall_mem_cons.mpr ⟨fun hnil => ?_, ih hrest (n + 1)⟩
    have hnil : param.2 = [] := hnil
    show echo sh.toShell (writePair (optionKey param) param.2) = writePair (optionKey param) []
    rw [hnil]
    exact echo_writePair_nil hplain hkey

/-- The text of a setting that is meant to be empty. -/
theorem text_of_value_nil (hplain : sh.KeepsPlain) {entries params : List (Text × Text)}
    (hparams : Params params) :
    ∀ a ∈ settings sh conf entries params, a.value = [] → a.text = writePair a.key [] := by
  intro a ha hnil
  rcases List.mem_append.mp ha with ha | ha
  · obtain ⟨entry, -, rfl⟩ := List.mem_map.mp ha
    have hnil : entry.2 = [] := hnil
    show writePair entry.1 (dropNul entry.2) = writePair entry.1 []
    rw [hnil]
    rfl
  · exact optionText_of_value_nil hplain
      (fun param hparam => (hparams.name param hparam).2.2.1) 1 a ha hnil

/-! ## The settings that are kept -/

section

variable {entries params values : List (Text × Text)} {names : List Text}

theorem settings_keys : (settings sh conf entries params).map Setting.key =
    entries.map Prod.fst ++ params.map optionKey := by
  have hpairs := congrArg (List.map Prod.fst)
    (settings_pairs sh conf entries params)
  rw [List.map_append, List.map_map, List.map_map] at hpairs
  exact hpairs

/-- The values meant, as they are looked up in the file and the parameters. -/
theorem lookup_meant (hprofile : Profile entries) (key : Text) :
    ((settings sh conf entries params).map fun a => (a.key, a.value)).reverse.lookup key =
      (meant entries params).lookup key := by
  rw [settings_pairs, meant, List.reverse_append, List.lookup_append, List.lookup_append,
    lookup_reverse_of_nodup hprofile.distinct]

/-- The keys, and no other names, are meant to have a value. -/
theorem lookup_meant_eq_none_iff {key : Text} : (meant entries params).lookup key = none ↔
    key ∉ (settings sh conf entries params).map Setting.key := by
  rw [lookup_eq_none_iff_not_mem, meant, List.map_append, List.map_reverse, List.map_map,
    settings_keys, List.mem_append, List.mem_append, List.mem_reverse, or_comm]
  rfl

theorem valueIn_meant_of_not_mem {key : Text}
    (hkey : key ∉ (settings sh conf entries params).map Setting.key) :
    valueIn (meant entries params) key = [] := by
  rw [valueIn, lookup_meant_eq_none_iff.mpr hkey]
  rfl

theorem Evaluates.lookup_eq_none_iff {s : List Setting} (h : Evaluates sh vars s values)
    {key : Text} : values.reverse.lookup key = none ↔ key ∉ s.map Setting.key := by
  rw [lookup_eq_none_iff_not_mem, List.map_reverse, List.mem_reverse, h.keys]

theorem keys_isName (hprofile : Profile entries) (hparams : Params params) :
    ∀ key ∈ (settings sh conf entries params).map Setting.key, IsName key := by
  intro key hkey
  rw [settings_keys] at hkey
  rcases List.mem_append.mp hkey with hkey | hkey
  · obtain ⟨entry, hentry, rfl⟩ := List.mem_map.mp hkey
    exact (hprofile.name entry hentry).1
  · obtain ⟨param, hparam, rfl⟩ := List.mem_map.mp hkey
    exact (hparams.name param hparam).2.2

/-- The keys are listed, and no other names, unless the list itself is set. -/
theorem mem_writtenKeys (hplain : sh.KeepsPlain) (hprofile : Profile entries)
    (hparams : Params params) (hlists : Lists vars (entries.map Prod.fst) names)
    (hvalues : Evaluates sh vars (settings sh conf entries params) values)
    (hopt : OPTLST ∉ (settings sh conf entries params).map Setting.key) (key : Text) :
    key ∈ writtenKeys sh (vars.assignAll values) ↔
      key ∈ (settings sh conf entries params).map Setting.key := by
  have hisName : ∀ key ∈ (settings sh conf entries params).map Setting.key, IsName key :=
    keys_isName hprofile hparams
  have hfile : ∀ name ∈ names, name ∈ (settings sh conf entries params).map Setting.key := by
    intro name hname
    rw [settings_keys]
    exact List.mem_append_left _ (hlists.name name hname)
  rw [← hvalues.keys] at hisName hfile hopt ⊢
  obtain ⟨names', heq, hiff⟩ :=
    foldl_addOption_optlstOf (fun name hname => hisName name (hfile name hname)) hisName
  have hlisted : (vars.assignAll values).HasOptlst (optlstOf names') :=
    heq ▸ Vars.assignAll_optlst hlists.optlst hopt
  have hnames' : ∀ name ∈ names', IsName name := fun name hname =>
    hisName name (((hiff name).mp hname).elim (hfile name) id)
  rw [writtenKeys_eq hplain hnames' hlisted, hiff]
  exact ⟨fun h => h.elim (hfile key) id, .inr⟩

/-- The list at the end, when it is set. -/
theorem optlst_assigned (vars : Vars) {pre post : List (Text × Text)} {value : Text}
    (hsplit : values = pre ++ (OPTLST, value) :: post) (hpost : OPTLST ∉ post.map Prod.fst) :
    ((vars.assignAll values).env[OPTLST]?).getD [] =
      (OPTLST :: post.map Prod.fst).foldl addOption value := by
  have hopt : (vars.assignAll values).HasOptlst _ := assignAll_optlst_assigned hsplit hpost
  rw [hopt, Option.getD_some]

section

variable (hplain : sh.KeepsPlain) (hprofile : Profile entries) (hparams : Params params)
  (h : Writes sh vars (settings sh conf entries params) params.length (meant entries params) values)

include hplain hprofile hparams h

/-- A key that is not listed is meant to be empty, and has been set to that. -/
theorem Writes.lookup_nil {key : Text}
    (hkey : key ∈ (settings sh conf entries params).map Setting.key)
    (hnot : key ∉ writtenKeys sh (vars.assignAll values)) :
    values.reverse.lookup key = some [] ∧ (meant entries params).lookup key = some [] := by
  have hempty := h.kept key
  rw [if_neg hnot, valueIn] at hempty
  obtain ⟨value, hvalue⟩ :=
    Option.ne_none_iff_exists'.mp fun hnone => lookup_meant_eq_none_iff.mp hnone hkey
  rw [hvalue, Option.getD_some] at hempty
  subst hempty
  refine ⟨h.evaluates.lookup_nil (fun a ha hnil vars value heval => ?_)
    ((lookup_meant hprofile key).trans hvalue), hvalue⟩
  rw [Setting.eval, text_of_value_nil hplain hparams a ha hnil] at heval
  exact evalAssign_nil heval

/-- The evaluations give the values that are meant. -/
theorem Writes.keeps : Keeps sh vars (settings sh conf entries params) := by
  refine keeps_iff.mpr ⟨values, h.evaluates, fun key hown => ?_⟩
  rw [lookup_meant hprofile]
  by_cases hkey : key ∈ (settings sh conf entries params).map Setting.key
  · by_cases hlisted : key ∈ writtenKeys sh (vars.assignAll values)
    · have hwritten := h.kept key
      obtain ⟨value, hvalue⟩ := Option.ne_none_iff_exists'.mp
        fun hnone => h.evaluates.lookup_eq_none_iff.mp hnone hkey
      obtain ⟨value', hvalue'⟩ :=
        Option.ne_none_iff_exists'.mp fun hnone => lookup_meant_eq_none_iff.mp hnone hkey
      rw [if_pos hlisted, writtenValue_eq _ hown, valueIn, hvalue, hvalue', Option.some_or,
        Option.getD_some, Option.getD_some] at hwritten
      rw [hvalue, hvalue', hwritten]
    · obtain ⟨hvalue, hmeant⟩ := h.lookup_nil hplain hprofile hparams hkey hlisted
      rw [hvalue, hmeant]
  · rw [h.evaluates.lookup_eq_none_iff.mpr hkey, lookup_meant_eq_none_iff.mpr hkey]

/-- The list, if it is set, is what it is meant to be. -/
theorem Writes.optlst (hopt : OPTLST ∈ (settings sh conf entries params).map Setting.key) :
    ((vars.assignAll values).env[OPTLST]?).getD [] = valueIn (meant entries params) OPTLST := by
  by_cases hlisted : OPTLST ∈ writtenKeys sh (vars.assignAll values)
  · have hwritten := h.kept OPTLST
    rwa [if_pos hlisted, writtenValue_optlst] at hwritten
  · -- it does not list itself, so it was set to nothing, and no names are appended
    obtain ⟨hvalue, hmeant⟩ := h.lookup_nil hplain hprofile hparams hopt hlisted
    obtain ⟨pre, post, hsplit, hpost⟩ := exists_last hvalue
    rw [optlst_assigned vars hsplit hpost, (foldl_addOption_eq_iff _ _).mpr (.inl rfl), valueIn,
      hmeant]
    rfl

/-- What the script's own variables are meant to be is what it leaves there. -/
theorem Writes.keepsOwn (hlists : Lists vars (entries.map Prod.fst) names) :
    KeepsOwn sh vars (settings sh conf entries params) params.length (meant entries params) := by
  have hwritten : OPTLST ∈ (settings sh conf entries params).map Setting.key →
      writtenKeys sh (vars.assignAll values) =
        listed sh (valueIn (meant entries params) OPTLST) := fun hopt => by
    rw [← h.optlst hplain hprofile hparams hopt]
    rfl
  refine ⟨fun hmem hlisted => ?_, fun hopt =>
    ⟨?_, fun key hkey => ?_, fun name hname hnot => ?_⟩⟩
  · have hoptind : OPTIND ∈ writtenKeys sh (vars.assignAll values) := by
      by_cases hopt : OPTLST ∈ (settings sh conf entries params).map Setting.key
      · exact hwritten hopt ▸ hlisted hopt
      · exact (mem_writtenKeys hplain hprofile hparams hlists h.evaluates hopt _).mpr hmem
    have hvalue := h.kept OPTIND
    rw [if_pos hoptind, writtenValue_optind] at hvalue
    exact hvalue.symm
  · intro pre post value hvalues hpost
    obtain rfl := h.evaluates.unique hvalues
    rw [← optlst_assigned vars rfl hpost]
    exact h.optlst hplain hprofile hparams hopt
  · by_contra hlisted
    have hvalue := h.kept key
    rw [if_neg (hwritten hopt ▸ hlisted)] at hvalue
    exact hkey hvalue.symm
  · have hvalue := h.kept name
    rw [if_pos (hwritten hopt ▸ hname), valueIn_meant_of_not_mem hnot] at hvalue
    have hoptind : name ≠ OPTIND := by
      rintro rfl
      rw [writtenValue_optind] at hvalue
      exact Nat.toDigits_ne_nil hvalue
    have hown : name ∉ ownNames := by
      simp only [ownNames, List.mem_cons, List.not_mem_nil, or_false, not_or]
      exact ⟨fun heq => hnot (heq ▸ hopt), hoptind⟩
    rw [writtenValue_eq _ hown, h.evaluates.lookup_eq_none_iff.mpr hnot, Option.none_or] at hvalue
    exact ⟨hoptind, hvalue⟩

end

/-- What the list at the end has to do with the keys. -/
structure ListsKeys (sh : Bash) (vars : Vars) (s : List Setting) (count : Nat)
    (meant values : List (Text × Text)) : Prop where
  names : ∀ name ∈ writtenKeys sh (vars.assignAll values), IsName name
  all : ∀ key, valueIn meant key ≠ [] → key ∈ writtenKeys sh (vars.assignAll values)
  others : ∀ name ∈ writtenKeys sh (vars.assignAll values), name ∉ s.map Setting.key →
    name ∉ ownNames ∧ (vars.env[name]?).getD [] = []
  optind : OPTIND ∈ s.map Setting.key → OPTIND ∈ writtenKeys sh (vars.assignAll values) →
    valueIn meant OPTIND = decimal (1 + count)
  optlst : OPTLST ∈ s.map Setting.key →
    ((vars.assignAll values).env[OPTLST]?).getD [] = valueIn meant OPTLST

theorem listsKeys_of_keepsOwn (hplain : sh.KeepsPlain) (hprofile : Profile entries)
    (hparams : Params params) (hlists : Lists vars (entries.map Prod.fst) names)
    (hlisted : ∀ name ∈ listed sh (valueIn (meant entries params) OPTLST), IsName name)
    (hvalues : Evaluates sh vars (settings sh conf entries params) values)
    (hown : KeepsOwn sh vars (settings sh conf entries params) params.length
      (meant entries params)) :
    ListsKeys sh vars (settings sh conf entries params) params.length (meant entries params)
      values := by
  by_cases hopt : OPTLST ∈ (settings sh conf entries params).map Setting.key
  · obtain ⟨hvalue, hall, hothers⟩ := hown.optlst hopt
    have hlist : ((vars.assignAll values).env[OPTLST]?).getD [] =
        valueIn (meant entries params) OPTLST := by
      obtain ⟨value, hlast⟩ := Option.ne_none_iff_exists'.mp
        fun hnone => hvalues.lookup_eq_none_iff.mp hnone hopt
      obtain ⟨pre, post, hsplit, hpost⟩ := exists_last hlast
      rw [optlst_assigned vars hsplit hpost]
      exact hvalue pre post value (hsplit ▸ hvalues) hpost
    have hwritten : writtenKeys sh (vars.assignAll values) =
        listed sh (valueIn (meant entries params) OPTLST) := by
      rw [← hlist]
      rfl
    rw [← hwritten] at hlisted hall hothers
    refine ⟨hlisted, hall, fun name hname hnot => ?_, fun hmem hin => ?_, fun _ => hlist⟩
    · obtain ⟨hoptind, henv⟩ := hothers name hname hnot
      simp only [ownNames, List.mem_cons, List.not_mem_nil, or_false, not_or]
      exact ⟨⟨fun heq => hnot (heq ▸ hopt), hoptind⟩, henv⟩
    · exact hown.optind hmem fun _ => hwritten ▸ hin
  · have hmem := mem_writtenKeys hplain hprofile hparams hlists hvalues hopt
    refine ⟨fun name hname => ?_, fun key hkey => ?_, fun name hname hnot => ?_,
      fun hoptind _ => hown.optind hoptind fun h => absurd h hopt, fun h => absurd h hopt⟩
    · exact keys_isName hprofile hparams name ((hmem name).mp hname)
    · rw [hmem]
      by_contra hnot
      exact hkey (valueIn_meant_of_not_mem hnot)
    · exact absurd ((hmem name).mp hname) hnot

/-- Values that are meant are kept, if the list and the keys are in step. -/
theorem writes_of_listsKeys (hprofile : Profile entries)
    (hvalues : Evaluates sh vars (settings sh conf entries params) values)
    (hsame : ∀ key ∉ ownNames, values.reverse.lookup key = ((settings sh conf entries params).map
      fun a => (a.key, a.value)).reverse.lookup key)
    (h : ListsKeys sh vars (settings sh conf entries params) params.length
      (meant entries params) values) :
    Writes sh vars (settings sh conf entries params) params.length (meant entries params)
      values := by
  refine ⟨hvalues, h.names, fun key => ?_⟩
  by_cases hlisted : key ∈ writtenKeys sh (vars.assignAll values)
  · rw [if_pos hlisted]
    by_cases hkey : key ∈ (settings sh conf entries params).map Setting.key
    · by_cases hown : key ∈ ownNames
      · simp only [ownNames, List.mem_cons, List.not_mem_nil, or_false] at hown
        rcases hown with rfl | rfl
        · exact (writtenValue_optlst values _).trans (h.optlst hkey)
        · exact (writtenValue_optind values _).trans (h.optind hkey hlisted).symm
      · obtain ⟨value, hvalue⟩ :=
          Option.ne_none_iff_exists'.mp fun hnone => lookup_meant_eq_none_iff.mp hnone hkey
        rw [writtenValue_eq _ hown, hsame key hown, lookup_meant hprofile, valueIn, hvalue,
          Option.some_or]
    · -- another variable, without a value
      obtain ⟨hown, henv⟩ := h.others key hlisted hkey
      rw [writtenValue_eq _ hown, hvalues.lookup_eq_none_iff.mpr hkey, Option.none_or, henv,
        valueIn_meant_of_not_mem hkey]
  · rw [if_neg hlisted]
    by_contra hne
    exact hlisted (h.all key (Ne.symm hne))

/-- **Editing keeps the settings** exactly if each evaluation gives a value and the last one
for each key the value that is meant; for the script's own variables this is the value that
the script leaves there. -/
theorem configUpdate_keeps_iff (hsh : sh.Expands) (hplain : sh.KeepsPlain)
    (hprofile : Profile entries) (hparams : Params params)
    (hoptind : ∀ param ∈ params, optionKey param ≠ OPTIND)
    (hlists : Lists vars (entries.map Prod.fst) names)
    (hlisted : ∀ name ∈ listed sh (valueIn (meant entries params) OPTLST), IsName name) :
    (∃ written, configUpdate sh conf (profileText entries) (params.map optionItem) vars =
      some written ∧ Kept entries params written) ↔
      Keeps sh vars (settings sh conf entries params) ∧
        KeepsOwn sh vars (settings sh conf entries params) params.length
          (meant entries params) := by
  rw [kept_iff hsh hprofile hparams hoptind]
  constructor
  · rintro ⟨values, h⟩
    exact ⟨h.keeps hplain hprofile hparams, h.keepsOwn hplain hprofile hparams hlists⟩
  · rintro ⟨hkeeps, hown⟩
    obtain ⟨values, hvalues, hsame⟩ := keeps_iff.mp hkeeps
    exact ⟨values, writes_of_listsKeys hprofile hvalues hsame
      (listsKeys_of_keepsOwn hplain hprofile hparams hlists hlisted hvalues hown)⟩

end

/-- A shell in a directory without matching files, in which names are all that a `$` may
stand before. -/
def plainBash : Bash := { literalShell with expansion := fun _ _ _ => none }

theorem plainBash_expands : plainBash.Expands := literalShell_expands

theorem plainBash_keepsPlain : plainBash.KeepsPlain := fun _ _ => rfl

/-- The variables at the start: the list of options, and where the external storage is. -/
def storageVars : Vars :=
  ⟨(∅ : ConfMap).insert OPTLST [' '] |>.insert "EXTERNAL_STORAGE".toList "/sdcard".toList, []⟩

theorem storageVars_lists (keys : List Text) : Lists storageVars keys [] := by
  refine ⟨?_, by simp⟩
  rw [Vars.HasOptlst, storageVars, Std.ExtTreeMap.getElem?_insert, if_neg (by decide),
    Std.ExtTreeMap.getElem?_insert_self]
  rfl

/-- A profile with three settings, and two for the script's own variables: the list of all
names, and what the counter is after two parameters. -/
def debianArm : List (Text × Text) :=
  [("DISTRIB".toList, "debian".toList), ("ARCH".toList, "armhf".toList),
    ("OPTLST".toList, " DISTRIB ARCH OPTLST USER_NAME OPTIND LOCALE ".toList),
    ("USER_NAME".toList, "android".toList), ("OPTIND".toList, ['3'])]

/-- `--arch=arm64 --locale=C` are assigned, and the other settings stay. -/
theorem configUpdate_keeps_iff_arch :
    ∃ written, configUpdate plainBash "linux.conf".toList (profileText debianArm)
      ([("arch".toList, "arm64".toList), ("locale".toList, ['C'])].map optionItem) storageVars =
        some written ∧
      Kept debianArm [("arch".toList, "arm64".toList), ("locale".toList, ['C'])] written := by
  refine (configUpdate_keeps_iff plainBash_expands plainBash_keepsPlain
    ⟨by decide, by decide, by decide⟩ ⟨by decide, by decide⟩ (by decide)
    (storageVars_lists _) (by decide)).mpr ⟨?_, fun _ _ => rfl, fun _ => ⟨?_, ?_, by decide⟩⟩
  · -- the evaluations of the five lines and of the two parameters
    exact ⟨_, rfl, fun _ _ => rfl, _, rfl, fun _ h => absurd h (by decide), _, rfl,
      fun h => absurd h (by decide), _, rfl, fun _ _ => rfl, _, rfl, fun h => absurd h (by decide),
      _, rfl, fun _ _ => rfl, _, rfl, fun _ _ => rfl, trivial⟩
  · -- all names are listed, and none is appended
    intro pre post value hvalues hpost
    have hrun : Evaluates plainBash storageVars (settings plainBash "linux.conf".toList debianArm
        [("arch".toList, "arm64".toList), ("locale".toList, ['C'])])
        (debianArm ++ [("ARCH".toList, "arm64".toList), ("LOCALE".toList, ['C'])]) :=
      ⟨_, _, rfl, rfl, _, _, rfl, rfl, _, _, rfl, rfl, _, _, rfl, rfl, _, _, rfl, rfl, _, _, rfl, rfl,
        _, _, rfl, rfl, rfl⟩
    rw [← optlst_assigned storageVars rfl hpost, hvalues.unique hrun]
    rfl
  · intro key hkey
    have hmem : key ∈ (meant debianArm [("arch".toList, "arm64".toList),
        ("locale".toList, ['C'])]).map Prod.fst := by
      by_contra hnot
      rw [valueIn, lookup_eq_none_iff_not_mem.mpr hnot] at hkey
      exact hkey rfl
    clear hkey
    revert key
    decide

/-- The default of the target path is expanded, and not kept. -/
theorem configUpdate_not_kept : ¬ ∀ (sh : Bash), sh.Expands → sh.KeepsPlain →
    ∀ (conf : Text) (entries params : List (Text × Text)), Profile entries → Params params →
      (∀ key ∈ entries.map Prod.fst ++ params.map optionKey, key ≠ OPTLST ∧ key ≠ OPTIND) →
      ∀ (vars : Vars) (names : List Text), Lists vars (entries.map Prod.fst) names →
        ∃ written, configUpdate sh conf (profileText entries) (params.map optionItem) vars =
          some written ∧ Kept entries params written := by
  intro h
  have hprofile : Profile [("TARGET_PATH".toList, "${EXTERNAL_STORAGE}/linux.img".toList)] :=
    ⟨by decide, by decide, by decide⟩
  have hparams : Params [("arch".toList, "arm".toList)] := ⟨by decide, by decide⟩
  obtain ⟨values, hwrites⟩ := (kept_iff plainBash_expands hprofile hparams (by decide)).mp
    (h plainBash plainBash_expands plainBash_keepsPlain "linux.conf".toList _ _ hprofile hparams
      (by decide) storageVars [] (storageVars_lists _))
  -- the assignment finds where the external storage is
  obtain ⟨value, heval, hmeant, -⟩ := hwrites.keeps plainBash_keepsPlain hprofile hparams
  have hvalue : value = "/sdcard/linux.img".toList := (Option.some.inj heval).symm
  have hpath := hvalue.symm.trans (hmeant (by decide) (by decide))
  exact absurd hpath (by decide)

end Anx.Conf.Cli
