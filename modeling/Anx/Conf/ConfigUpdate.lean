import Anx.Conf.Eval
import Anx.Conf.Mounts

/-!
# Editing a profile on the command line

`config_update` (cli.sh:350–357) reads the file of a profile into variables, assigns the
parameters of the command line to them and writes the file again from the variables.

- `paramsReadVars`, `paramsParse`, `paramsWrite`, `configUpdate`: the functions, on one file;
- `Setting`, `runAll`: an assignment that is evaluated, and all of them in order;
- `Profile`, `Params`: the files and the parameters that it is made for;
- `paramsReadVars_profile`, `parseAll_options`: **reading and parsing** are the assignments
  of the lines and of the parameters.
-/

namespace Anx.Conf.Cli

open Anx.Lib ParamUtils

/-! ## Reading -/

/-- The variables of `config_update` when it edits a file in place. -/
def inPlace (conf : Text) : Locals := [("source_conf".toList, conf), ("target_conf".toList, conf)]

/-- The variables of `params_read` and of its caller. -/
def readFrame (conf : Text) : Locals := ("conf_file".toList, conf) :: inPlace conf

def readLocals (conf item key val : Text) : Locals :=
  [("item".toList, item), ("key".toList, key), ("val".toList, val)] ++ readFrame conf

/-- The loop body of `params_read`. -/
def readBody (sh : Bash) (conf : Text) : Vars → Text → Option Vars := readBodyIn sh (readFrame conf)

/-- `params_read`, on the contents of the file `conf`. -/
def paramsReadVars (sh : Bash) (conf : Text) : Vars → Text → Option Vars :=
  paramsReadIn sh (readFrame conf)

/-! ## Parameters -/

def OPTIND : Text := "OPTIND".toList

/-- A character of `[0-9a-z-]`. -/
def isOptionChar (c : Char) : Bool := ('0' ≤ c && c ≤ '9') || ('a' ≤ c && c ≤ 'z') || c = '-'

/-- The `y` command of `sed`, for one character: dashes and small letters are replaced. -/
def toKeyChar (c : Char) : Char :=
  if c = '-' then '_' else if 'a' ≤ c && c ≤ 'z' then c.toUpper else c

/-- `expr "${item}" : '--\([0-9a-z-]\{1,32\}=\{0,1\}\)'`. -/
def optionHead : Text → Text
  | '-' :: '-' :: rest =>
    let name := (rest.takeWhile isOptionChar).take 32
    if name ≠ [] ∧ (rest.drop name.length).head? = some '=' then name ++ ['='] else name
  -- a keyword of `expr`: the position of characters of the pattern in `:`
  | item => if item = "index".toList then ['0'] else []

/-- `expr "${item}" : '--[0-9a-z-]\{1,32\}=\(.*\)'` in a command substitution. -/
def optionValue (item : Text) : Text :=
  let head := optionHead item
  if '=' ∈ head then (item.drop (head.length + 2)).rdropWhile (· = '\n') else []

/-- The key and the value of an item. -/
def optionPair (item : Text) : Text × Text :=
  let key := (optionHead item).map toKeyChar
  if key ≠ [] ∧ '=' ∉ key then (key, "true".toList)
  -- `${key%*=}`: the only `=` of the key is at its end
  else (key.dropLast, optionValue item)

def decimal (n : Nat) : Text := Nat.toDigits 10 n

/-- The variables of the loop of `params_parse`, before those of the calling functions. -/
def optionLocals (item key val : Text) (n : Nat) : Locals :=
  [("item".toList, item), ("key".toList, key), ("val".toList, val), (OPTIND, decimal n)]

/-- The loop of `params_parse`, with `OPTIND`, in the variables `frame` of the calling
functions. The words of the assignment are split and expanded before `eval` joins them again. -/
def parseAllIn (sh : Bash) (frame : Locals) : Nat → Vars → List Text → Option (Vars × Nat)
  | n, vars, [] => some (vars, n)
  | n, vars, item :: items =>
    let key := (optionPair item).1
    let val := (optionPair item).2
    if key = [] then parseAllIn sh frame n vars items
    -- `let OPTIND=OPTIND+1` would count from the given value
    else if key = OPTIND then none
    else (evalAssign sh vars (optionLocals item key val n ++ frame) key
        (echo sh.toShell (writePair key val))).bind fun value =>
      parseAllIn sh frame (n + 1) (vars.assign key value) items

/-- `params_parse`. -/
def paramsParseIn (sh : Bash) (frame : Locals) : Vars → List Text → Option (Vars × Nat) :=
  parseAllIn sh frame 1

def parseLocals (conf item key val : Text) (n : Nat) : Locals :=
  optionLocals item key val n ++ inPlace conf

@[inherit_doc parseAllIn] def parseAll (sh : Bash) (conf : Text) :
    Nat → Vars → List Text → Option (Vars × Nat) :=
  parseAllIn sh (inPlace conf)

/-- `params_parse` in `config_update` of the file `conf`. -/
def paramsParse (sh : Bash) (conf : Text) : Vars → List Text → Option (Vars × Nat) :=
  parseAll sh conf 1

/-! ## Writing -/

/-- The keys that `params_write` goes through. -/
def writtenKeys (sh : Bash) (vars : Vars) : List Text :=
  (pieces isIFS ((vars.env[OPTLST]?).getD [])).flatMap sh.glob

/-- `params_write`: the keys and values of the lines `KEY="value"` that it writes after a
comment; `none` when `OPTLST` lists something that is no name. -/
def paramsWrite (sh : Bash) (vars : Vars) (optind : Nat) : Option (List (Text × Text)) :=
  if ∀ key ∈ writtenKeys sh vars, IsName key then
    some (((writtenKeys sh vars).map fun key =>
      (key, lookup vars [(OPTIND, decimal optind)] key)).filter fun pair => pair.2 ≠ [])
  else none

/-- `config_update` of a file. -/
def configUpdate (sh : Bash) (conf confFile : Text) (params : List Text) (vars : Vars) :
    Option (List (Text × Text)) := do
  let vars ← paramsReadVars sh conf vars confFile
  let (vars, optind) ← paramsParse sh conf vars params
  paramsWrite sh vars optind

/-! ## Files and parameters -/

/-- A value that needs no escapes, up to what a `$` in it does. -/
def IsSetting (value : Text) : Prop := IsValue value ∧ ∀ c ∈ value, c ∉ ['\\', '`']

instance (value : Text) : Decidable (IsSetting value) := inferInstanceAs (Decidable (_ ∧ _))

/-- The lines of a profile: names and values. -/
structure Profile (entries : List (Text × Text)) : Prop where
  name : ∀ entry ∈ entries, IsName entry.1 ∧ entry.1.length ≤ 32
  value : ∀ entry ∈ entries, IsSetting entry.2
  distinct : (entries.map Prod.fst).Nodup

/-- The file of a profile. -/
def profileText (entries : List (Text × Text)) : Text :=
  unlines (entries.map fun entry => writePair entry.1 entry.2)

/-- The key that a parameter `--name=value` is for. -/
def optionKey (param : Text × Text) : Text := param.1.map toKeyChar

/-- The parameter on the command line. -/
def optionItem (param : Text × Text) : Text := '-' :: '-' :: (param.1 ++ '=' :: param.2)

/-- The parameters: names of keys, and values. -/
structure Params (params : List (Text × Text)) : Prop where
  name : ∀ param ∈ params, param.1.length ≤ 32 ∧ (∀ c ∈ param.1, isOptionChar c = true) ∧
    IsName (optionKey param)
  value : ∀ param ∈ params, IsSetting param.2

/-- The value of a key in a list of entries, the first of which counts; absent is empty. -/
def valueIn (entries : List (Text × Text)) (key : Text) : Text := (entries.lookup key).getD []

/-- The written file has the given values of the named keys, and the other values that it
had. -/
def Kept (entries params written : List (Text × Text)) : Prop :=
  ∀ key, valueIn written key =
    valueIn ((params.map fun param => (optionKey param, param.2)).reverse ++ entries) key

/-! ## Assignments -/

/-- An assignment: the key, the value that is meant, the text that `eval` gets, and the
variables of the function that calls it. -/
structure Setting where
  key : Text
  value : Text
  text : Text
  locals : Locals

/-- The assignment of a line. -/
def Setting.ofLine (conf : Text) (entry : Text × Text) : Setting :=
  let item := writePair entry.1 (dropNul entry.2)
  { key := entry.1
    value := entry.2
    text := item
    locals := readLocals conf item entry.1 ('"' :: (dropNul entry.2 ++ ['"'])) }

/-- The assignments of parameters, counted from `n` on. -/
def optionSettings (sh : Bash) (conf : Text) : Nat → List (Text × Text) → List Setting
  | _, [] => []
  | n, param :: params =>
    { key := optionKey param
      value := param.2
      text := echo sh.toShell (writePair (optionKey param) param.2)
      locals := parseLocals conf (optionItem param) (optionKey param) param.2 n } ::
        optionSettings sh conf (n + 1) params

/-- All assignments of `config_update`. -/
def settings (sh : Bash) (conf : Text) (entries params : List (Text × Text)) : List Setting :=
  entries.map (Setting.ofLine conf) ++ optionSettings sh conf 1 params

def Setting.eval (sh : Bash) (vars : Vars) (s : Setting) : Option Text :=
  evalAssign sh vars s.locals s.key s.text

/-- The assignments, one after the other. -/
def runAll (sh : Bash) : Vars → List Setting → Option Vars
  | vars, [] => some vars
  | vars, s :: rest => (s.eval sh vars).bind fun value => runAll sh (vars.assign s.key value) rest

variable {sh : Bash} {conf : Text} {vars vars' : Vars}

/-- The loop of `params_parse` on one more parameter. -/
theorem parseAll_cons (n : Nat) (vars : Vars) (item : Text) (params : List Text) :
    parseAll sh conf n vars (item :: params) =
      if (optionPair item).1 = [] then parseAll sh conf n vars params
      else if (optionPair item).1 = OPTIND then none
      else (evalAssign sh vars (parseLocals conf item (optionPair item).1 (optionPair item).2 n)
          (optionPair item).1 (echo sh.toShell
            (writePair (optionPair item).1 (optionPair item).2))).bind fun value =>
        parseAll sh conf (n + 1) (vars.assign (optionPair item).1 value) params := rfl

theorem runAll_append (s s' : List Setting) :
    runAll sh vars (s ++ s') = (runAll sh vars s).bind fun vars => runAll sh vars s' := by
  induction s generalizing vars with
  | nil => rfl
  | cons a s ih =>
    rw [List.cons_append, runAll, runAll]
    cases a.eval sh vars with
    | none => rfl
    | some value => exact ih

/-! ## The lines -/

theorem isSetting_dropNul {value : Text} (h : IsSetting value) : IsSetting (dropNul value) := by
  obtain ⟨⟨hquote, hbreak⟩, hplain⟩ := h
  exact ⟨⟨fun hc => hquote (List.mem_of_mem_filter hc),
    fun c hc => hbreak c (List.mem_of_mem_filter hc)⟩,
    fun c hc => hplain c (List.mem_of_mem_filter hc)⟩

theorem backslash_not_mem_writePair {key value : Text} (hkey : IsName key)
    (hvalue : IsSetting value) :
    '\\' ∉ writePair key value := by
  have hk : '\\' ∉ key := fun h => hkey.1.ne h (d := '\\') (by decide) rfl
  have hv : '\\' ∉ value := fun h => hvalue.2 _ h (by decide)
  simp [writePair, hk, hv]

/-- The body of the loop on a line. -/
theorem readBody_line (hsh : sh.Expands) {key value : Text} (hkey : IsName key)
    (hlen : key.length ≤ 32) :
    readBody sh conf vars (writePair key (dropNul value)) =
      ((Setting.ofLine conf (key, value)).eval sh vars).map fun value => vars.assign key value := by
  rw [readBody, readBodyIn_writePair hsh hkey hlen]
  rfl

/-- **Reading a profile** is making the assignments of its lines. -/
theorem paramsReadVars_profile (hsh : sh.Expands) {entries : List (Text × Text)}
    (hname : ∀ entry ∈ entries, IsName entry.1 ∧ entry.1.length ≤ 32)
    (hvalue : ∀ entry ∈ entries, IsSetting entry.2) :
    paramsReadVars sh conf vars (profileText entries) =
      runAll sh vars (entries.map (Setting.ofLine conf)) := by
  have hitems : items [] (dropNul (profileText entries)) =
      entries.map fun entry => (writePair entry.1 (dropNul entry.2)).map fun c => (c, false) := by
    rw [profileText, dropNul_unlines, List.map_map, items_unlines, List.map_map]
    · refine List.map_congr_left fun entry hentry => ?_
      show marks (dropNul (writePair entry.1 entry.2)) = _
      rw [dropNul_writePair (hname entry hentry).1.1]
      exact marks_plain (backslash_not_mem_writePair (hname entry hentry).1
        (isSetting_dropNul (hvalue entry hentry)))
    · intro line hline
      obtain ⟨entry, hentry, rfl⟩ := List.mem_map.mp hline
      show '\n' ∉ dropNul (writePair entry.1 entry.2) ∧
        continued (dropNul (writePair entry.1 entry.2)) = false
      rw [dropNul_writePair (hname entry hentry).1.1]
      have hplain := isSetting_dropNul (hvalue entry hentry)
      refine ⟨fun hnewline => ?_, continued_plain
        (backslash_not_mem_writePair (hname entry hentry).1 hplain)⟩
      exact (writePair_noBreak (hname entry hentry).1.1 hplain.1 _ hnewline).1 rfl
  rw [paramsReadVars, paramsReadIn, readAllWith, hitems, List.foldlM_map]
  show entries.foldlM (fun vars entry => readBody sh conf vars (readItem
    ((writePair entry.1 (dropNul entry.2)).map fun c => (c, false)))) vars = _
  clear hitems
  induction entries generalizing vars with
  | nil => rfl
  | cons entry entries ih =>
    obtain ⟨hentry, hnames⟩ := List.forall_mem_cons.mp hname
    have hitem : readItem ((writePair entry.1 (dropNul entry.2)).map fun c => (c, false)) =
        writePair entry.1 (dropNul entry.2) := readItem_writePair hentry.1
    rw [List.foldlM_cons, hitem, readBody_line hsh hentry.1 hentry.2, List.map_cons, runAll]
    cases (Setting.ofLine conf entry).eval sh vars with
    | none => rfl
    | some value => exact ih hnames (List.forall_mem_cons.mp hvalue).2

/-! ## The parameters -/

/-- A text with single blanks between its words and without pattern characters is printed as
it is. -/
theorem echo_plain {sh : Shell} (hplain : sh.KeepsPlain) {text : Text} (hpattern : NoPattern text)
    (hblanks : [' '].intercalate (pieces isIFS text) = text) : echo sh text = text := by
  have hglob : ∀ word ∈ pieces isIFS text, sh.glob word = [word] := by
    intro word hword
    have hsplit : word ∈ text.splitOnP isIFS := List.mem_of_mem_filter hword
    exact hplain word fun c hc => hpattern c (of_mem_splitOnP hsplit c hc).1
  have hwords : (pieces isIFS text).flatMap sh.glob = pieces isIFS text := by
    rw [List.flatMap_congr hglob, List.flatMap_singleton']
  show [' '].intercalate ((pieces isIFS text).flatMap sh.glob) = text
  rw [hwords, hblanks]

/-- The key of an option without and with a value. -/
theorem optionHead_name {name rest : Text} (hlen : name.length ≤ 32)
    (hchars : ∀ c ∈ name, isOptionChar c = true) (hne : name ≠ [])
    (hrest : rest = [] ∨ rest.head? = some '=') :
    optionHead ('-' :: '-' :: (name ++ rest)) = name ++ rest.take 1 := by
  have hname : ((name ++ rest).takeWhile isOptionChar).take 32 = name := by
    rcases hrest with rfl | hrest
    · rw [List.append_nil, List.takeWhile_eq_self_iff.mpr hchars, List.take_of_length_le hlen]
    · obtain ⟨value, rfl⟩ := List.head?_eq_some_iff.mp hrest
      rw [List.takeWhile_append_of_pos hchars, List.takeWhile_cons_of_neg (by decide),
        List.append_nil, List.take_of_length_le hlen]
  rw [optionHead]
  simp only [hname, List.drop_left]
  rcases hrest with rfl | hrest
  · rw [if_neg (by simp), List.take_nil, List.append_nil]
  · obtain ⟨value, rfl⟩ := List.head?_eq_some_iff.mp hrest
    exact if_pos ⟨hne, rfl⟩

/-- An option with a value, of which a command substitution keeps no newline at the end. -/
theorem optionPair_value {name : Text} (hlen : name.length ≤ 32)
    (hchars : ∀ c ∈ name, isOptionChar c = true) (hne : name ≠ []) (value : Text) :
    optionPair ('-' :: '-' :: (name ++ '=' :: value)) =
      (name.map toKeyChar, value.rdropWhile (· = '\n')) := by
  have hhead : optionHead ('-' :: '-' :: (name ++ '=' :: value)) = name ++ ['='] :=
    optionHead_name hlen hchars hne (.inr rfl)
  have hvalue : optionValue ('-' :: '-' :: (name ++ '=' :: value)) =
      value.rdropWhile (· = '\n') := by
    rw [optionValue, hhead, if_pos (by simp), List.length_append, List.length_singleton]
    show ((name ++ '=' :: value).drop (name.length + 1)).rdropWhile (· = '\n') = _
    rw [← List.drop_drop, List.drop_left]
    rfl
  have hkey : (name ++ ['=']).map toKeyChar = name.map toKeyChar ++ ['='] := by
    rw [List.map_append]
    rfl
  rw [optionPair, hhead, hkey, hvalue, if_neg (by simp), List.dropLast_concat]

theorem optionPair_optionItem {param : Text × Text} (hlen : param.1.length ≤ 32)
    (hchars : ∀ c ∈ param.1, isOptionChar c = true) (hne : param.1 ≠ [])
    (hnewline : '\n' ∉ param.2) : optionPair (optionItem param) = (optionKey param, param.2) := by
  have hself : param.2.rdropWhile (· = '\n') = param.2 := by
    rw [List.rdropWhile_eq_self_iff]
    intro hvalue
    simpa using ne_of_mem_of_not_mem (List.getLast_mem hvalue) hnewline
  rw [optionItem, optionPair_value hlen hchars hne, hself, optionKey]

/-- **The parameters** are assignments. -/
theorem parseAll_options {params : List (Text × Text)} (h : Params params)
    (hown : ∀ param ∈ params, optionKey param ≠ OPTIND) (n : Nat) :
    parseAll sh conf n vars (params.map optionItem) =
      (runAll sh vars (optionSettings sh conf n params)).map
        fun vars => (vars, n + params.length) := by
  induction params generalizing n vars with
  | nil => rfl
  | cons param params ih =>
    obtain ⟨hname, hnames⟩ := List.forall_mem_cons.mp h.name
    obtain ⟨hvalue, hvalues⟩ := List.forall_mem_cons.mp h.value
    obtain ⟨howned, howns⟩ := List.forall_mem_cons.mp hown
    have hne : param.1 ≠ [] := by
      intro hnil
      exact hname.2.2.1.1 (by rw [optionKey, hnil, List.map_nil])
    have hpair := optionPair_optionItem hname.1 hname.2.1 hne fun hmem => (hvalue.1.2 _ hmem).1 rfl
    rw [List.map_cons, parseAll_cons, hpair, optionSettings, runAll]
    dsimp only
    rw [if_neg hname.2.2.1.1, if_neg howned]
    have hrest : ∀ vars, parseAll sh conf (n + 1) vars (params.map optionItem) =
        (runAll sh vars (optionSettings sh conf (n + 1) params)).map
          fun vars => (vars, n + 1 + params.length) :=
      fun _ => ih ⟨hnames, hvalues⟩ howns (n + 1)
    rw [Setting.eval]
    dsimp only
    generalize evalAssign sh vars _ _ _ = result
    cases result with
    | none => rfl
    | some value =>
      rw [Option.bind_some, Option.bind_some, hrest, List.length_cons]
      congr 1
      funext vars
      rw [Nat.add_assoc, Nat.add_comm 1]

end Anx.Conf.Cli
