import Anx.Conf.ParamsRead

/-!
# What `eval` makes of an assignment

The command line assigns with `eval KEY="value"`, so that the shell expands what it finds
in the value. `ParamsRead` has the values in which there is nothing to expand; here are
all of them.

- `Bash`: the shell, with the forms of `$` that are not names;
- `lookup`, `dollar`: a variable, and what stands behind a `$`;
- `evalWord`, `evalAssign`: a word with its quotes, and a whole assignment;
- `readBodyIn`, `paramsReadIn`: `params_read` with it, for any variables of its callers;
- `evalWord_of_unquote`: the values of `unquote` are these;
- `evalAssign_plain`: **a value without `$` is assigned as it is**;
- `NamesOnly`, `evalWord_isSome`: a value in which only names stand behind `$` has a value in
  all variables;
- `readBodyIn_writePair`: the loop body on the line of an assignment.
-/

namespace Anx.Conf.Cli

open Anx.Lib

/-- The variables of a function, which hide those of the environment. -/
abbrev Locals := List (Text × Text)

/-- A shell, and what it makes of the forms behind a `$` that are not the name of a
variable, such as commands and `${NAME:-word}`: the text, and how many characters the form
has. `none` when it does more than to yield a text: it assigns variables, ends the shell
or is no form at all. -/
structure Bash extends Shell where
  expansion : Vars → Locals → Text → Option (Text × Nat)

def isNameStart (c : Char) : Bool := ('A' ≤ c && c ≤ 'Z') || ('a' ≤ c && c ≤ 'z') || c = '_'

def isNameChar (c : Char) : Bool := isNameStart c || ('0' ≤ c && c ≤ '9')

/-- `${name}`; a variable that is not set is empty. -/
def lookup (vars : Vars) (locals : Locals) (name : Text) : Text :=
  ((locals.lookup name).or vars.env[name]?).getD []

/-- The expansion of a `$` between double quotes, with the number of characters behind it
that belong to it. -/
def dollar (sh : Bash) (vars : Vars) (locals : Locals) (rest : Text) : Option (Text × Nat) :=
  let name := rest.takeWhile isNameChar
  let inner := rest.tail.takeWhile isNameChar
  if name.head?.any isNameStart then some (lookup vars locals name, name.length)
  else if rest.head? = some '{' ∧ inner.head?.any isNameStart ∧
      rest[inner.length + 1]? = some '}' then
    some (lookup vars locals inner, inner.length + 2)
  else if rest.head?.any (· ∈ "(\x7b[0123456789@*#?-$!".toList) then sh.expansion vars locals rest
  else some (['$'], 0)

/-- The value of a word, of which the next characters are already used; `none` when the
shell does more to it than to expand it between its quotes. -/
def evalWord (sh : Bash) (vars : Vars) (locals : Locals) : Bool → Nat → Text → Option Text
  | quoted, _, [] => if quoted then none else some []
  | quoted, n + 1, _ :: rest => evalWord sh vars locals quoted n rest
  | quoted, 0, '"' :: rest => evalWord sh vars locals (!quoted) 0 rest
  | true, 0, '$' :: rest =>
    (dollar sh vars locals rest).bind fun (value, n) =>
      (evalWord sh vars locals true n rest).map (value ++ ·)
  | true, 0, c :: rest =>
    if c ∈ ['\\', '`'] then none else (evalWord sh vars locals true 0 rest).map (c :: ·)
  | false, 0, c :: rest =>
    if ParamUtils.isKeyChar c || c = '=' then (evalWord sh vars locals false 0 rest).map (c :: ·)
    else none

/-- `eval` of a text: the value that it assigns to `key`. -/
def evalAssign (sh : Bash) (vars : Vars) (locals : Locals) (key text : Text) : Option Text :=
  if isVariable sh.toShell key ∧ key ++ ['='] <+: text then
    evalWord sh vars locals false 0 (text.drop (key.length + 1))
  else none

/-- `eval ${key}="${val}"` in `params_read`, in the variables `frame` of the calling functions. -/
def evalItem (sh : Bash) (frame : Locals) (vars : Vars) (item key val : Text) : Option Text :=
  evalAssign sh vars
    ([("item".toList, item), ("key".toList, key), ("val".toList, val)] ++ frame) key
    (key ++ '=' :: val)

/-- The loop body of `params_read`. -/
def readBodyIn (sh : Bash) (frame : Locals) : Vars → Text → Option Vars :=
  readBodyWith sh.toShell (evalItem sh frame)

/-- `params_read` on the contents of a file. -/
def paramsReadIn (sh : Bash) (frame : Locals) : Vars → Text → Option Vars :=
  readAllWith sh.toShell (evalItem sh frame)

variable {sh : Bash} {vars : Vars} {locals : Locals}

/-- A word that is only unquoted has the value that it has with expansions. -/
theorem evalWord_of_unquote {quoted : Bool} {text value : Text}
    (h : unquote quoted text = some value) :
    evalWord sh vars locals quoted 0 text = some value := by
  fun_induction unquote quoted text generalizing value with
  | case1 => cases h
  | case2 quoted hquoted =>
    rw [evalWord, if_neg hquoted]
    exact h
  | case3 quoted rest ih =>
    rw [evalWord]
    exact ih h
  | case4 => cases h
  | case5 c rest hquote hc ih =>
    obtain ⟨value', hrest, rfl⟩ := Option.map_eq_some_iff.mp h
    simp only [List.mem_cons, List.not_mem_nil, or_false, not_or] at hc
    rw [evalWord, if_neg (by simp [hc.1, hc.2.2]), ih hrest]
    · rfl
    · exact hquote
    · exact hc.2.1
  | case6 c rest hquote hc ih =>
    obtain ⟨value', hrest, rfl⟩ := Option.map_eq_some_iff.mp h
    rw [evalWord, if_pos hc, ih hrest]
    · rfl
    · exact hquote
  | case7 => cases h

/-- The value of an assignment stands behind the key. -/
theorem evalAssign_writePair {key : Text} (hkey : isVariable sh.toShell key = true) (value : Text) :
    evalAssign sh vars locals key (ParamUtils.writePair key value) =
      evalWord sh vars locals false 0 ('"' :: (value ++ ['"'])) := by
  have hpair : ParamUtils.writePair key value = (key ++ ['=']) ++ '"' :: (value ++ ['"']) := by
    simp [ParamUtils.writePair]
  have hlen : key.length + 1 = (key ++ ['=']).length := by simp
  rw [evalAssign, hpair, if_pos ⟨hkey, List.prefix_append _ _⟩, hlen, List.drop_left]

/-- **A value without `$`** is assigned as it is. -/
theorem evalAssign_plain {key value : Text} (hkey : isVariable sh.toShell key = true)
    (hvalue : IsLiteral value) :
    evalAssign sh vars locals key (ParamUtils.writePair key value) = some value := by
  rw [evalAssign_writePair hkey]
  exact evalWord_of_unquote (unquote_value hvalue)

/-! ## Values with names -/

/-- A shell that expands names only. -/
def namesBash : Bash := ⟨⟨fun word => [word], fun _ => false⟩, fun _ _ _ => none⟩

/-- In the value there are only names behind `$`, and nothing else between double quotes that
the shell would act on. -/
def NamesOnly (value : Text) : Prop :=
  (evalWord namesBash ⟨∅, []⟩ [] false 0 ('"' :: (value ++ ['"']))).isSome

instance (value : Text) : Decidable (NamesOnly value) := inferInstanceAs (Decidable (_ = true))

/-- A form that is a name, or no form at all, is one in all variables. -/
theorem dollar_isSome {rest value : Text} {n : Nat} {vars₀ : Vars} {locals₀ : Locals}
    (h : dollar namesBash vars₀ locals₀ rest = some (value, n)) :
    ∃ value', dollar sh vars locals rest = some (value', n) := by
  unfold dollar at h ⊢
  dsimp only at h ⊢
  split at h
  · next hname =>
    cases h
    exact ⟨_, if_pos hname⟩
  · next hname =>
    rw [if_neg hname]
    split at h
    · next hbraces =>
      cases h
      exact ⟨_, if_pos hbraces⟩
    · next hbraces =>
      rw [if_neg hbraces]
      split at h
      · cases h
      · next hother =>
        cases h
        exact ⟨_, if_neg hother⟩

/-- **Whether a text with names has a value** does not depend on the variables. -/
theorem evalWord_isSome {quoted : Bool} {n : Nat} {text : Text} {vars₀ : Vars} {locals₀ : Locals}
    (h : (evalWord namesBash vars₀ locals₀ quoted n text).isSome) :
    (evalWord sh vars locals quoted n text).isSome := by
  fun_induction evalWord namesBash vars₀ locals₀ quoted n text with
  | case1 => cases h
  | case2 n quoted hquoted =>
    rw [evalWord, if_neg hquoted]
    rfl
  | case3 quoted n c rest ih =>
    rw [evalWord]
    exact ih h
  | case4 quoted rest ih =>
    rw [evalWord]
    exact ih h
  | case5 rest ih =>
    obtain ⟨value, hvalue⟩ := Option.isSome_iff_exists.mp h
    obtain ⟨form, hform, hrest⟩ := Option.bind_eq_some_iff.mp hvalue
    obtain ⟨value', hform'⟩ : ∃ value', dollar sh vars locals rest = some (value', form.2) :=
      dollar_isSome hform
    obtain ⟨more, hmore, -⟩ := Option.map_eq_some_iff.mp hrest
    rw [evalWord, hform', Option.bind_some, Option.isSome_map]
    exact ih form.2 (by rw [hmore]; rfl)
  | case6 => cases h
  | case7 c rest hquote hdollar hc ih =>
    rw [Option.isSome_map] at h
    rw [evalWord, if_neg hc, Option.isSome_map]
    · exact ih h
    · exact hquote
    · exact hdollar
  | case8 c rest hquote hc ih =>
    rw [Option.isSome_map] at h
    rw [evalWord, if_pos hc, Option.isSome_map]
    · exact ih h
    · exact hquote
  | case9 => cases h

/-! ## The line of an assignment -/

theorem isVariable_of_name {key : Text} (hkey : IsName key) (hlen : key.length ≤ 32)
    (hspecial : sh.special key = false) : isVariable sh.toShell key = true := by
  have htake : isVariable sh.toShell (key.take 32) = !sh.special (key.take 32) :=
    isVariable_take hkey
  rwa [List.take_of_length_le hlen, hspecial] at htake

/-- **The loop body** on the line of an assignment. -/
theorem readBodyIn_writePair (hsh : sh.Expands) {key : Text} (hkey : IsName key)
    (hlen : key.length ≤ 32) (value : Text) (frame : Locals) :
    readBodyIn sh frame vars (ParamUtils.writePair key value) =
      (evalAssign sh vars ([("item".toList, ParamUtils.writePair key value), ("key".toList, key),
          ("val".toList, '"' :: (value ++ ['"']))] ++ frame) key
        (ParamUtils.writePair key value)).map fun value => vars.assign key value := by
  have hgrep := grepKey_writePair hsh hkey.1 value
  rw [List.take_of_length_le hlen] at hgrep
  have hremove := @removeKey_writePair key value hkey.1
  rw [List.take_of_length_le hlen, if_pos hlen] at hremove
  rw [readBodyIn, readBodyWith]
  simp only [hgrep, hremove, if_neg hkey.1.1]
  rfl

end Anx.Conf.Cli
