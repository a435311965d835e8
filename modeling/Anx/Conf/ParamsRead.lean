import Mathlib.Data.List.Infix
import Anx.Conf.ParamUtils

/-!
# The configuration reader of the command line

`params_read` (cli.sh:257–273) reads the same files as `ParamUtils.readConf` with
`read`, `grep` and `eval`.

- `items`, `readItem`: `while read item`: lines end at a newline, a backslash joins a line
  to the next one, and an unterminated last line is not processed;
- `echo`, `grepKey`: `key=$(echo ${item} | grep -o '^[0-9A-Z_]\{1,32\}')`;
- `readBodyWith`, `readAllWith`: the loop, with what `eval ${key}="${val}"` assigns;
- `unquote`, `assign`: that value where there is nothing to expand, and the update of `OPTLST`;
- `items_line`, `items_eof`: how `read` goes through a file line by line;
- `body_comment`, `body_empty`, `body_assignment`: what the loop body does with the
  lines of a configuration file.

The environment of the shell is the parameter `Shell`: pathname expansion, and the
variables that have a meaning to the shell itself.
-/

namespace Anx.Conf

open Anx.Lib

namespace Cli

/-- What `params_read` depends on besides the file: the pathname expansion of a word,
and the variables whose assignment does more than to store a value (`IFS`, `PATH`,
read-only ones and so on). -/
structure Shell where
  glob : Text → List Text
  special : Text → Bool

/-- The part of a word before its first pattern character, which expansion keeps. -/
def literalPrefix (word : Text) : Text := word.takeWhile fun c => c ∉ ['*', '?', '[', '\\']

/-- Pathname expansion as documented: a word without a match stays, a file name that
matches starts with the literal part of the pattern; and no file name has a newline. -/
def Shell.Expands (sh : Shell) : Prop :=
  ∀ word, '\n' ∉ word → sh.glob word ≠ [] ∧
    ∀ name ∈ sh.glob word, literalPrefix word <+: name ∧ '\n' ∉ name

/-! ## The loop -/

/-- The characters that `read` does not ignore. -/
def dropNul (text : Text) : Text := text.filter (· ≠ '\x00')

/-- The texts for which `read` succeeds, of which `current` is read of the first one.
A character is marked when it was escaped. -/
def items (current : List (Char × Bool)) : Text → List (List (Char × Bool))
  | [] => []
  -- a line that is continued in the next one
  | '\\' :: '\n' :: rest => items current rest
  | '\\' :: c :: rest => items (current ++ [(c, true)]) rest
  | '\n' :: rest => current :: items [] rest
  | c :: rest => items (current ++ [(c, false)]) rest

/-- A blank that field splitting removes from both ends of what was read. -/
def isBlank (c : Char × Bool) : Bool := !c.2 && (c.1 = ' ' || c.1 = '\t')

/-- The value of `item`. -/
def readItem (chars : List (Char × Bool)) : Text :=
  ((chars.dropWhile isBlank).rdropWhile isBlank).map Prod.fst

/-- A separator of words. -/
def isIFS (c : Char) : Bool := c = ' ' || c = '\t' || c = '\n'

/-- `echo ${item}`, without the final newline. -/
def echo (sh : Shell) (item : Text) : Text :=
  [' '].intercalate (((item.splitOnP isIFS).filter (· ≠ [])).flatMap sh.glob)

/-- `grep -o '^[0-9A-Z_]\{1,32\}'` in a command substitution. -/
def grepKey (text : Text) : Text :=
  ['\n'].intercalate
    (((text.splitOn '\n').map fun line => (line.takeWhile ParamUtils.isKeyChar).take 32).filter
      (· ≠ []))

/-- `${item#${key}=}`. -/
def removeKey (key item : Text) : Text :=
  if (key ++ ['=']) <+: item then item.drop (key.length + 1) else item

/-- The value of a word after quote removal; `none` when the shell does more to it than
that (expansions, escapes, other commands). The flag is set between quotes. -/
def unquote : Bool → Text → Option Text
  | quoted, [] => if quoted then none else some []
  | quoted, '"' :: rest => unquote (!quoted) rest
  | true, c :: rest => if c ∈ ['\\', '$', '`'] then none else (unquote true rest).map (c :: ·)
  | false, c :: rest =>
    if ParamUtils.isKeyChar c || c = '=' then (unquote false rest).map (c :: ·) else none

/-- A name that can be assigned and is not special to the shell. -/
def isVariable (sh : Shell) (key : Text) : Bool :=
  key.all ParamUtils.isKeyChar && !(key.head?.any fun c => '0' ≤ c && c ≤ '9') && !sh.special key

/-- The name of the list of options. -/
def OPTLST : Text := "OPTLST".toList

/-- The variables: their values, and which of them `eval` has assigned. -/
structure Vars where
  env : ConfMap
  assigned : List Text

/-- Append `key` to `OPTLST`, unless it is there (or `OPTLST` is empty). -/
def Vars.addOption (vars : Vars) (key : Text) : Vars :=
  let optlst := (vars.env[OPTLST]?).getD []
  if optlst = [] ∨ (' ' :: (key ++ [' '])) <:+: optlst then vars
  else { vars with env := vars.env.insert OPTLST (optlst ++ key ++ [' ']) }

/-- An assignment and the update of `OPTLST` after it. -/
def Vars.assign (vars : Vars) (key val : Text) : Vars :=
  Vars.addOption ⟨vars.env.insert key val, key :: vars.assigned⟩ key

/-- The loop body, with the value that `eval ${key}="${val}"` assigns in these variables,
for the item, its key and `val`; `none` when `eval` does something else than to assign an
ordinary variable. -/
def readBodyWith (sh : Shell) (eval : Vars → Text → Text → Text → Option Text) (vars : Vars)
    (item : Text) : Option Vars :=
  let key := grepKey (echo sh item)
  let val := removeKey key item
  if key = [] then some vars
  else (eval vars item key val).map fun value => vars.assign key value

/-- The loop over the contents of a file. -/
def readAllWith (sh : Shell) (eval : Vars → Text → Text → Text → Option Text) (vars : Vars)
    (confFile : Text) : Option Vars :=
  (items [] (dropNul confFile)).foldlM
    (fun vars chars => readBodyWith sh eval vars (readItem chars)) vars

/-- The value that `eval` assigns where there is nothing to expand. -/
def evalLiteral (sh : Shell) (_ : Vars) (_ key val : Text) : Option Text :=
  if isVariable sh key then unquote false val else none

/-- The loop body, for values in which there is nothing to expand. -/
def body (sh : Shell) : Vars → Text → Option Vars := readBodyWith sh (evalLiteral sh)

/-- `params_read`, with `OPTLST` as it is before: the variables that were assigned, for values
in which there is nothing to expand. -/
def paramsRead (sh : Shell) (optlst : Text) (confFile : Text) : Option ConfMap :=
  (readAllWith sh (evalLiteral sh) ⟨.ofList [(OPTLST, optlst)], []⟩ confFile).map fun vars =>
    vars.env.filter fun key _ => key ∈ vars.assigned

/-! ## Reading lines -/

/-- The line ends with an odd number of backslashes, so that `read` goes on with the
next line. -/
def continued (line : Text) : Bool := (line.rtakeWhile (· = '\\')).length % 2 = 1

/-- The characters of a line after its escapes. -/
def marks : Text → List (Char × Bool)
  | [] => []
  | ['\\'] => []
  | '\\' :: c :: line => (c, true) :: marks line
  | c :: line => (c, false) :: marks line

/-- The number of backslashes at the end, one character further to the left. -/
theorem length_rtakeWhile_cons (c : Char) (line : Text) :
    ((c :: line).rtakeWhile (· = '\\')).length =
      if (line.rtakeWhile (· = '\\')).length = line.length then
        line.length + if c = '\\' then 1 else 0
      else (line.rtakeWhile (· = '\\')).length := by
  simp only [List.rtakeWhile, List.reverse_cons, List.length_reverse, List.takeWhile_append]
  split
  · by_cases hc : c = '\\' <;> simp [hc]
  · rfl

theorem length_rtakeWhile_le (line : Text) :
    (line.rtakeWhile (· = '\\')).length ≤ line.length := by
  simpa [List.rtakeWhile] using (List.takeWhile_prefix (· = '\\') (l := line.reverse)).length_le

theorem continued_escape (c : Char) (line : Text) :
    continued ('\\' :: c :: line) = continued line := by
  have hle := length_rtakeWhile_le line
  simp only [continued, length_rtakeWhile_cons]
  -- the escape counts only if the line has nothing but backslashes
  by_cases hall : (line.rtakeWhile (· = '\\')).length = line.length
  · by_cases hc : c = '\\'
    · have hparity : (line.length + 1 + 1) % 2 = line.length % 2 := by omega
      simp [hall, hc, hparity]
    · simp [hall, hc]
  · have hne : (line.rtakeWhile (· = '\\')).length ≠ line.length + 1 := by omega
    simp [hall, hne]

theorem continued_cons {c : Char} (hc : c ≠ '\\') (line : Text) :
    continued (c :: line) = continued line := by
  simp only [continued, length_rtakeWhile_cons, hc, if_false, Nat.add_zero]
  split
  · next hall => rw [hall]
  · rfl

theorem items_escape {c : Char} (hc : c ≠ '\n') (current : List (Char × Bool)) (rest : Text) :
    items current ('\\' :: c :: rest) = items (current ++ [(c, true)]) rest := by
  rw [items]
  exact hc

theorem items_char {c : Char} (hb : c ≠ '\\') (hn : c ≠ '\n') (current : List (Char × Bool))
    (rest : Text) : items current (c :: rest) = items (current ++ [(c, false)]) rest := by
  rw [items]
  · exact fun _ h => absurd h hb
  · exact fun _ _ h => absurd h hb
  · exact hn

/-- A line that ends with a newline. -/
theorem items_line (current : List (Char × Bool)) (line rest : Text) (h : '\n' ∉ line) :
    items current (line ++ '\n' :: rest) =
      if continued line then items (current ++ marks line) rest
      else (current ++ marks line) :: items [] rest := by
  fun_induction marks line generalizing current with
  | case1 => simp [items, continued]
  | case2 =>
    have hc : continued ['\\'] = true := by decide
    simp [items, hc]
  | case3 c line ih =>
    simp only [List.mem_cons, not_or] at h
    rw [List.cons_append, List.cons_append, items_escape (Ne.symm h.2.1), ih _ h.2.2,
      continued_escape, List.append_assoc, List.singleton_append]
  | case4 c line hlast hnext ih =>
    simp only [List.mem_cons, not_or] at h
    have hb : c ≠ '\\' := by
      rintro rfl
      cases line with
      | nil => exact hlast rfl rfl
      | cons d line => exact hnext d line rfl rfl
    rw [List.cons_append, items_char hb (Ne.symm h.1), ih _ h.2, continued_cons hb,
      List.append_assoc, List.singleton_append]

/-- What the file has after its last newline is not processed. -/
theorem items_eof (current : List (Char × Bool)) (line : Text) (h : '\n' ∉ line) :
    items current line = [] := by
  fun_induction items current line with
  | case1 => rfl
  | case2 current rest => simp at h
  | case3 current c rest hc ih => exact ih (by simp_all)
  | case4 current rest => simp at h
  | case5 current c rest _ _ _ ih => exact ih (by simp_all)

/-- A line without backslashes. -/
theorem marks_plain {line : Text} (h : '\\' ∉ line) :
    marks line = line.map fun c => (c, false) := by
  induction line with
  | nil => rfl
  | cons c line ih =>
    simp only [List.mem_cons, not_or] at h
    rw [marks, ih h.2, List.map_cons]
    · exact fun hc => absurd hc (Ne.symm h.1)
    · exact fun _ _ hc => absurd hc (Ne.symm h.1)

theorem marks_cons {c : Char} (h : c ≠ '\\') (line : Text) :
    marks (c :: line) = (c, false) :: marks line := by
  rw [marks]
  · exact fun hc => absurd hc h
  · exact fun _ _ hc => absurd hc h

/-! ## The loop body on the lines of a configuration file -/

variable {sh : Shell} {vars : Vars}

/-- What was read is kept from its first to its last character that is no blank. -/
theorem readItem_cons {c : Char × Bool} (hc : ¬ isBlank c) (line : List (Char × Bool)) :
    ∃ rest, readItem (c :: line) = c.1 :: rest := by
  obtain ⟨rest, hrest⟩ := rdropWhile_append_cons (p := isBlank) [] c line hc
  refine ⟨rest.map Prod.fst, ?_⟩
  rw [readItem, List.dropWhile_cons_of_neg hc]
  exact congrArg (List.map Prod.fst) hrest

/-- A line without blanks at its ends is read as it is. -/
theorem readItem_line {c d : Char × Bool} (hc : isBlank c = false) (hd : isBlank d = false)
    (line : List (Char × Bool)) :
    readItem (c :: (line ++ [d])) = c.1 :: (line.map Prod.fst ++ [d.1]) := by
  rw [readItem, List.dropWhile_cons_of_neg (by simp [hc]), ← List.cons_append,
    List.rdropWhile_concat_neg _ _ _ (by simp [hd])]
  simp

/-- **What `echo` prints** is one line that starts with the literal part of the first
word. -/
theorem echo_spec (hsh : sh.Expands) {c : Char} (item : Text) (hc : isIFS c = false) :
    '\n' ∉ echo sh (c :: item) ∧
      literalPrefix (c :: item.takeWhile fun c => !isIFS c) <+: echo sh (c :: item) := by
  obtain ⟨words, hwords⟩ := splitOnP_eq_cons isIFS (c :: item)
  rw [List.takeWhile_cons_of_pos (by simp [hc])] at hwords
  have hword : ∀ word ∈ (c :: item).splitOnP isIFS, '\n' ∉ word := fun word hw =>
    not_mem_of_mem_splitOnP (by decide) hw
  constructor
  · -- no file name has a newline, and `echo` puts blanks between them
    refine not_mem_intercalate (by decide) fun name hname => ?_
    obtain ⟨word, hw, hname⟩ := List.mem_flatMap.mp hname
    exact ((hsh word (hword word (List.mem_of_mem_filter hw))).2 name hname).2
  · rw [hwords] at hword
    obtain ⟨hne, hnames⟩ := hsh _ (hword _ List.mem_cons_self)
    obtain ⟨name, names, hexp⟩ := List.exists_cons_of_ne_nil hne
    rw [hexp] at hnames
    refine (hnames name List.mem_cons_self).1.trans ?_
    rw [echo, hwords, List.filter_cons_of_pos (by simp), List.flatMap_cons, hexp, List.cons_append]
    exact prefix_intercalate _ _ _

/-- The key of an item whose first word starts with the key and another character. -/
theorem grepKey_echo (hsh : sh.Expands) {c : Char} {item key rest : Text} {d : Char}
    (hc : isIFS c = false)
    (hstarts : literalPrefix (c :: item.takeWhile fun c => !isIFS c) = key ++ d :: rest)
    (hkey : ∀ c ∈ key, ParamUtils.isKeyChar c = true) (hd : ParamUtils.isKeyChar d = false) :
    grepKey (echo sh (c :: item)) = key.take 32 := by
  obtain ⟨hline, hstart⟩ := echo_spec hsh item hc
  rw [hstarts] at hstart
  obtain ⟨more, hmore⟩ := hstart
  have hsplit : (echo sh (c :: item)).splitOn '\n' = [echo sh (c :: item)] := by
    rw [List.splitOn_eq_splitOnP]
    exact List.splitOnP_eq_singleton fun x hx => by simpa using ne_of_mem_of_not_mem hx hline
  have hrun : (echo sh (c :: item)).takeWhile ParamUtils.isKeyChar = key := by
    rw [← hmore, List.append_assoc, List.takeWhile_append_of_pos hkey, List.cons_append,
      List.takeWhile_cons_of_neg (by simp [hd]), List.append_nil]
  rw [grepKey, hsplit, List.map_singleton, hrun]
  by_cases hnil : key.take 32 = []
  · simp [hnil]
  · simp [hnil]

/-- An item that starts with `#` has no key. -/
theorem readBodyWith_comment (hsh : sh.Expands)
    (eval : Vars → Text → Text → Text → Option Text) (item : Text) :
    readBodyWith sh eval vars ('#' :: item) = some vars := by
  have hkey : grepKey (echo sh ('#' :: item)) = ([] : Text).take 32 :=
    have hstarts : literalPrefix ('#' :: item.takeWhile fun c => !isIFS c) =
        [] ++ '#' :: literalPrefix (item.takeWhile fun c => !isIFS c) := by simp [literalPrefix]
    grepKey_echo hsh (by decide) hstarts (fun _ h => (nomatch h)) (by decide)
  rw [readBodyWith, hkey]
  rfl

theorem body_comment (hsh : sh.Expands) (item : Text) : body sh vars ('#' :: item) = some vars :=
  readBodyWith_comment hsh (evalLiteral sh) item

/-- An empty item has no key. -/
theorem body_empty : body sh vars [] = some vars := rfl

/-- A name that the shell can assign. -/
def IsName (key : Text) : Prop :=
  ParamUtils.IsKey key ∧ ∀ c ∈ key.head?, ¬ ('0' ≤ c ∧ c ≤ '9')

instance (key : Text) : Decidable (IsName key) :=
  @instDecidableAnd _ _ _ (Option.decidableForallMem key.head?)

/-- A value that needs no escapes in double quotes. -/
def IsLiteral (value : Text) : Prop :=
  ParamUtils.IsValue value ∧ ∀ c ∈ value, c ∉ ['\\', '$', '`']

instance (value : Text) : Decidable (IsLiteral value) := inferInstanceAs (Decidable (_ ∧ _))

/-- The value that `eval` assigns for a line `key="value"`: a key that `grep` has cut is
not removed from the line. -/
def evalValue (key value : Text) : Text :=
  if key.length ≤ 32 then value else key ++ '=' :: value

theorem unquote_quoted {value : Text} (h : IsLiteral value) (rest : Text) :
    unquote true (value ++ '"' :: rest) = (unquote false rest).map (value ++ ·) := by
  obtain ⟨⟨hquote, -⟩, hplain⟩ := h
  induction value with
  | nil => simp [unquote]
  | cons c value ih =>
    simp only [List.mem_cons, not_or] at hquote
    rw [List.cons_append, unquote, if_neg (hplain c List.mem_cons_self),
      ih (fun d hd => hplain d (List.mem_cons_of_mem _ hd)) hquote.2, Option.map_map]
    · rfl
    · exact fun h => absurd h (Ne.symm hquote.1)

/-- The quoted value alone. -/
theorem unquote_value {value : Text} (h : IsLiteral value) :
    unquote false ('"' :: (value ++ ['"'])) = some value := by
  rw [unquote, Bool.not_false, unquote_quoted h []]
  simp [unquote]

/-- The quoted value after the key. -/
theorem unquote_pair {key value : Text} (hkey : ∀ c ∈ key, ParamUtils.isKeyChar c = true)
    (h : IsLiteral value) : unquote false (ParamUtils.writePair key value) =
      some (key ++ '=' :: value) := by
  induction key with
  | nil =>
    rw [ParamUtils.writePair, List.nil_append, unquote, if_pos (by decide), unquote_value h]
    · rfl
    · exact fun h => absurd h (by decide)
  | cons c key ih =>
    have hc : ParamUtils.isKeyChar c = true := hkey c List.mem_cons_self
    rw [ParamUtils.writePair, List.cons_append, unquote, if_pos (by simp [hc])]
    · have hrest := ih fun d hd => hkey d (List.mem_cons_of_mem _ hd)
      rw [ParamUtils.writePair] at hrest
      rw [hrest]
      rfl
    · rintro rfl
      exact absurd hc (by decide)

/-- `${item#${key}=}` on a line with this key or with a longer one. -/
theorem removeKey_writePair {key value : Text} (hkey : ParamUtils.IsKey key) :
    removeKey (key.take 32) (ParamUtils.writePair key value) =
      if key.length ≤ 32 then '"' :: (value ++ ['"']) else ParamUtils.writePair key value := by
  rw [removeKey]
  by_cases hlen : key.length ≤ 32
  · rw [List.take_of_length_le hlen, if_pos hlen, ParamUtils.writePair, if_pos]
    · simp
    · exact ⟨'"' :: (value ++ ['"']), by simp⟩
  · rw [if_neg hlen, if_neg]
    -- the character after the cut key is one of the key
    rintro ⟨more, hmore⟩
    have h32 : (key.take 32).length = 32 := List.length_take_of_le (by omega)
    have hlt : 32 < key.length := by omega
    have hget := congrArg (fun text => text[32]?) hmore
    simp only [ParamUtils.writePair, List.append_assoc] at hget
    rw [List.getElem?_append_right (by omega), h32, List.getElem?_append_left hlt] at hget
    have hmem : '=' ∈ key := by
      rw [List.mem_iff_getElem?]
      exact ⟨32, hget.symm⟩
    exact hkey.eq_not_mem hmem

theorem isVariable_take {key : Text} (h : IsName key) :
    isVariable sh (key.take 32) = !sh.special (key.take 32) := by
  obtain ⟨c, rest, rfl⟩ := List.exists_cons_of_ne_nil h.1.1
  have hall : ((c :: rest).take 32).all ParamUtils.isKeyChar = true :=
    List.all_eq_true.mpr fun d hd => h.1.2 d (List.mem_of_mem_take hd)
  have hdigit : ((c :: rest).take 32).head?.any (fun c => '0' ≤ c && c ≤ '9') = false := by
    simpa using h.2 c rfl
  rw [isVariable, hall, hdigit]
  rfl

/-- The key of an assignment line, cut after 32 characters. -/
theorem grepKey_writePair (hsh : sh.Expands) {key : Text} (hkey : ParamUtils.IsKey key)
    (value : Text) :
    grepKey (echo sh (ParamUtils.writePair key value)) = key.take 32 := by
  obtain ⟨c, name, rfl⟩ := List.exists_cons_of_ne_nil hkey.1
  have hifs : ∀ d ∈ c :: name, isIFS d = false := fun d hd => by
    simp [isIFS, hkey.ne hd (show ParamUtils.isKeyChar ' ' = false by decide),
      hkey.ne hd (show ParamUtils.isKeyChar '\t' = false by decide),
      hkey.ne hd (show ParamUtils.isKeyChar '\n' = false by decide)]
  have hglob : ∀ d ∈ c :: name, decide (d ∉ ['*', '?', '[', '\\']) = true := fun d hd => by
    simp [hkey.ne hd (show ParamUtils.isKeyChar '*' = false by decide),
      hkey.ne hd (show ParamUtils.isKeyChar '?' = false by decide),
      hkey.ne hd (show ParamUtils.isKeyChar '[' = false by decide),
      hkey.ne hd (show ParamUtils.isKeyChar '\\' = false by decide)]
  have hword : c :: (name ++ '=' :: '"' :: (value ++ ['"'])).takeWhile (fun c => !isIFS c) =
      (c :: name) ++ '=' :: ('"' :: (value ++ ['"'])).takeWhile (fun c => !isIFS c) := by
    rw [List.takeWhile_append_of_pos fun d hd => by simp [hifs d (List.mem_cons_of_mem _ hd)],
      List.takeWhile_cons_of_pos (by decide), List.cons_append]
  have hstarts : literalPrefix
      (c :: (name ++ '=' :: '"' :: (value ++ ['"'])).takeWhile fun c => !isIFS c) =
      (c :: name) ++ '=' :: literalPrefix (('"' :: (value ++ ['"'])).takeWhile fun c => !isIFS c) := by
    rw [hword, literalPrefix, List.takeWhile_append_of_pos hglob,
      List.takeWhile_cons_of_pos (by decide)]
    rfl
  exact grepKey_echo hsh (hifs c List.mem_cons_self) hstarts hkey.2 (by decide)

/-- **An assignment line** assigns its key, cut after 32 characters. -/
theorem body_assignment (hsh : sh.Expands) {key value : Text} (hkey : IsName key)
    (hvalue : IsLiteral value) :
    body sh vars (ParamUtils.writePair key value) =
      if sh.special (key.take 32) then none
      else some (vars.assign (key.take 32) (evalValue key value)) := by
  have hgrep := grepKey_writePair hsh hkey.1 value
  have hne : key.take 32 ≠ [] := by simpa using hkey.1.1
  have hval : unquote false (removeKey (key.take 32) (ParamUtils.writePair key value)) =
      some (evalValue key value) := by
    rw [removeKey_writePair hkey.1, evalValue]
    split
    · exact unquote_value hvalue
    · exact unquote_pair hkey.1.2 hvalue
  rw [body, readBodyWith]
  simp only [hgrep, evalLiteral, hval, if_neg hne, isVariable_take hkey]
  cases sh.special (key.take 32) <;> rfl

end Cli

end Anx.Conf
