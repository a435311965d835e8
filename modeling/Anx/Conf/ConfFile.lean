import Mathlib.Data.List.Chain
import Anx.Conf.Variables

/-!
# Configuration files and their two readers

The app reads a configuration file with `ParamUtils.readConf`, the command line with
`params_read`. Both are made for files of comments, empty lines and lines `KEY="value"`.

- `ConfLine`, `content`, `WellFormed`: these files;
- `readConf_content`: **what the app reads**: every assignment, cut at the first `=`;
- `kept`, `loop_content`: **what the loop of the command line gets**: the assignments that
  are not joined to a comment and are ended by a newline;
- `kept_eq_iff`: when these are all assignments.
-/

namespace Anx.Conf

open Anx.Lib ParamUtils Anx.Conf.Cli

/-- A line of a configuration file. -/
inductive ConfLine where
  | comment (text : Text)
  | empty
  | assign (key value : Text)
deriving DecidableEq

namespace ConfLine

/-- The line as it stands in the file. -/
def text : ConfLine → Text
  | .comment text => '#' :: text
  | .empty => []
  | .assign key value => writePair key value

/-- The assignment of a line. -/
def assignment : ConfLine → Option (Text × Text)
  | .assign key value => some (key, value)
  | _ => none

/-- Comments have no line break; keys are names, values need no escapes. -/
def WellFormed : ConfLine → Prop
  | .comment text => NoBreak text
  | .empty => True
  | .assign key value => IsName key ∧ IsLiteral value

instance (line : ConfLine) : Decidable line.WellFormed :=
  match line with
  | .comment text => inferInstanceAs (Decidable (NoBreak text))
  | .empty => isTrue trivial
  | .assign key value => inferInstanceAs (Decidable (IsName key ∧ IsLiteral value))

end ConfLine

/-- A file: lines with their newlines, and possibly a last line without one. -/
def content (lines : List ConfLine) (last : Option ConfLine) : Text :=
  unlines (lines.map ConfLine.text) ++ (last.map ConfLine.text).getD []

/-- The assignments of a file, in order. -/
def assignments (lines : List ConfLine) : List (Text × Text) := lines.filterMap ConfLine.assignment

/-- Well-formed lines that assign distinct keys. -/
structure WellFormed (lines : List ConfLine) : Prop where
  line : ∀ line ∈ lines, line.WellFormed
  distinct : ((assignments lines).map Prod.fst).Nodup

theorem assignments_append (lines lines' : List ConfLine) :
    assignments (lines ++ lines') = assignments lines ++ assignments lines' :=
  List.filterMap_append

theorem WellFormed.lines {lines lines' : List ConfLine} (h : WellFormed (lines ++ lines')) :
    WellFormed lines := by
  refine ⟨fun line hline => h.line line (List.mem_append_left _ hline), ?_⟩
  have hdistinct := h.distinct
  rw [assignments_append, List.map_append, List.nodup_append] at hdistinct
  exact hdistinct.1

/-! ## The app -/

theorem ConfLine.text_noBreak {line : ConfLine} (h : line.WellFormed) : NoBreak line.text := by
  cases line with
  | comment text =>
    intro c hc
    rcases List.mem_cons.mp hc with rfl | hc
    · decide
    · exact h c hc
  | empty => exact fun c hc => (nomatch hc)
  | assign key value => exact writePair_noBreak h.1.1 h.2.1

/-- The lines that `readLine` of the app gets, up to empty ones. -/
theorem readConf_lines {lines : List ConfLine} (h : ∀ line ∈ lines, line.WellFormed)
    (map : ConfMap) : (lines.map ConfLine.text).foldlM readLine map =
      some (map.insertMany ((assignments lines).map fun entry => (entry.1, beforeEq entry.2))) := by
  induction lines generalizing map with
  | nil => rfl
  | cons line lines ih =>
    have hrest := ih fun l hl => h l (List.mem_cons_of_mem _ hl)
    cases line with
    | comment text => exact hrest map
    | empty => exact hrest map
    | assign key value =>
      obtain ⟨hkey, hvalue⟩ := h _ List.mem_cons_self
      have hline : readLine map (ConfLine.assign key value).text =
          some (map.insert key (beforeEq value)) := readLine_writePair hkey.1 hvalue.1 map
      have hentries :
          assignments (.assign key value :: lines) = (key, value) :: assignments lines :=
        rfl
      rw [List.map_cons, List.foldlM_cons, hline]
      show (lines.map ConfLine.text).foldlM readLine _ = _
      rw [hrest, hentries, List.map_cons, Std.ExtTreeMap.insertMany_cons]

/-- **What the app reads**: every assignment, its value cut at the first `=`. -/
theorem readConf_content {lines : List ConfLine} {last : Option ConfLine}
    (h : ∀ line ∈ lines ++ last.toList, line.WellFormed) :
    readConf (content lines last) = some ((∅ : ConfMap).insertMany
      ((assignments (lines ++ last.toList)).map fun entry => (entry.1, beforeEq entry.2))) := by
  have hbreak : ∀ text ∈ lines.map ConfLine.text, NoBreak text := by
    intro text ht
    obtain ⟨line, hline, rfl⟩ := List.mem_map.mp ht
    exact ConfLine.text_noBreak (h line (List.mem_append_left _ hline))
  rw [readConf, content, readLines_unlines_append hbreak]
  cases last with
  | none =>
    rw [Option.toList_none, List.append_nil]
    exact (congrArg _ (List.append_nil _)).trans
      (readConf_lines (fun l hl => h l (List.mem_append_left _ hl)) ∅)
  | some line =>
    have hwf : line.WellFormed := h line (by simp)
    rw [← readConf_lines h, List.map_append]
    by_cases hnil : line.text = []
    · -- an empty last line is not a line to the app, and would have no effect
      show List.foldlM readLine ∅ (_ ++ readLines line.text) =
        List.foldlM readLine ∅ (_ ++ [line.text])
      rw [hnil, List.foldlM_append, List.foldlM_append]
      rfl
    · show List.foldlM readLine ∅ (_ ++ readLines line.text) = _
      rw [readLines_last (ConfLine.text_noBreak hwf) hnil]
      rfl

/-! ## The command line -/

/-- The line without NUL characters. -/
def ConfLine.dropNul : ConfLine → ConfLine
  | .comment text => .comment (Cli.dropNul text)
  | .empty => .empty
  | .assign key value => .assign key (Cli.dropNul value)

/-- A comment that goes on in the next line. -/
def ConfLine.continues : ConfLine → Bool
  | .comment text => continued text
  | _ => false

/-- The assignments that `read` gets as lines of their own; the flag is set after a
comment that goes on. -/
def kept : Bool → List ConfLine → List (Text × Text)
  | _, [] => []
  | _, .comment text :: lines => kept (continued text) lines
  | _, .empty :: lines => kept false lines
  | true, .assign _ _ :: lines => kept false lines
  | false, .assign key value :: lines => (key, value) :: kept false lines

/-- The loop on assignment lines. -/
def evalAll (sh : Shell) (vars : Vars) (entries : List (Text × Text)) : Option Vars :=
  entries.foldlM (fun vars entry => body sh vars (writePair entry.1 entry.2)) vars

theorem ConfLine.wellFormed_dropNul {line : ConfLine} (h : line.WellFormed) :
    line.dropNul.WellFormed := by
  cases line with
  | comment text => exact fun c hc => h c (List.mem_of_mem_filter hc)
  | empty => trivial
  | assign key value =>
    obtain ⟨hname, ⟨hquote, hbreak⟩, hplain⟩ := h
    exact ⟨hname, ⟨fun hc => hquote (List.mem_of_mem_filter hc),
      fun c hc => hbreak c (List.mem_of_mem_filter hc)⟩,
      fun c hc => hplain c (List.mem_of_mem_filter hc)⟩

/-- Ignoring NUL characters in a file is ignoring them in its lines. -/
theorem dropNul_append (text text' : Text) :
    dropNul (text ++ text') = dropNul text ++ dropNul text' := List.filter_append _ _

theorem dropNul_cons {c : Char} (hc : c ≠ '\x00') (text : Text) :
    dropNul (c :: text) = c :: dropNul text := List.filter_cons_of_pos (by simpa using hc)

theorem dropNul_eq_self {text : Text} (h : '\x00' ∉ text) : dropNul text = text := by
  rw [dropNul, List.filter_eq_self]
  intro c hc
  simpa using ne_of_mem_of_not_mem hc h

theorem dropNul_writePair {key : Text} (hkey : IsKey key) (value : Text) :
    dropNul (writePair key value) = writePair key (dropNul value) := by
  have hnul : '\x00' ∉ key := fun hc => hkey.ne hc (d := '\x00') (by decide) rfl
  rw [writePair, writePair, dropNul_append, dropNul_eq_self hnul, dropNul_cons (by decide),
    dropNul_cons (by decide), dropNul_append]
  rfl

theorem dropNul_text {line : ConfLine} (h : line.WellFormed) :
    dropNul line.text = line.dropNul.text := by
  cases line with
  | comment text => exact dropNul_cons (by decide) text
  | empty => rfl
  | assign key value =>
    exact dropNul_writePair h.1.1 value

theorem dropNul_content {lines : List ConfLine} {last : Option ConfLine}
    (h : ∀ line ∈ lines ++ last.toList, line.WellFormed) :
    dropNul (content lines last) =
      content (lines.map ConfLine.dropNul) (last.map ConfLine.dropNul) := by
  rw [content, dropNul_append]
  congr 1
  · have hlines : ∀ line ∈ lines, line.WellFormed := fun l hl => h l (List.mem_append_left _ hl)
    clear h
    induction lines with
    | nil => rfl
    | cons line lines ih =>
      rw [List.map_cons, List.map_cons, List.map_cons, unlines_cons, unlines_cons,
        dropNul_append, dropNul_text (hlines line List.mem_cons_self), dropNul_cons (by decide),
        ih fun l hl => hlines l (List.mem_cons_of_mem _ hl)]
  · cases last with
    | none => rfl
    | some line => exact dropNul_text (h line (by simp))

theorem continued_plain {line : Text} (h : '\\' ∉ line) : continued line = false := by
  induction line with
  | nil => rfl
  | cons c line ih =>
    simp only [List.mem_cons, not_or] at h
    rw [continued_cons (Ne.symm h.1), ih h.2]

theorem backslash_not_mem {key value : Text} (hkey : IsName key) (hvalue : IsLiteral value) :
    '\\' ∉ writePair key value := by
  have hk : '\\' ∉ key := fun h => hkey.1.ne h (d := '\\') (by decide) rfl
  have hv : '\\' ∉ value := fun h => hvalue.2 _ h (by decide)
  simp [writePair, hk, hv]

/-- `read` leaves an assignment line as it is, up to the escapes in its value. -/
theorem readItem_assignment {key : Text} (hkey : IsKey key) (value : List (Char × Bool))
    (escaped : Bool) :
    readItem (key.map (fun c => (c, false)) ++ ('=', false) :: ('"', false) ::
      (value ++ [('"', escaped)])) = writePair key (value.map Prod.fst) := by
  obtain ⟨c, name, rfl⟩ := List.exists_cons_of_ne_nil hkey.1
  have hblank : isBlank (c, false) = false := by
    simp [isBlank, hkey.ne List.mem_cons_self (show isKeyChar ' ' = false by decide),
      hkey.ne List.mem_cons_self (show isKeyChar '\t' = false by decide)]
  have hquote : isBlank ('"', escaped) = false := by cases escaped <;> rfl
  have hline := readItem_line hblank hquote
    (name.map (fun c => (c, false)) ++ ('=', false) :: ('"', false) :: value)
  simpa [writePair, Function.comp_def] using hline

theorem readItem_writePair {key value : Text} (hkey : IsName key) :
    readItem ((writePair key value).map fun c => (c, false)) = writePair key value := by
  have hread := readItem_assignment hkey.1 (value.map fun c => (c, false)) false
  simpa [writePair, Function.comp_def] using hread

/-- What `read` has of a line when it begins the next one: nothing, or a comment. -/
def Joined (joined : Bool) (current : List (Char × Bool)) : Prop :=
  if joined then ∃ rest, current = ('#', false) :: rest else current = []

theorem Joined.append_comment {joined : Bool} {current : List (Char × Bool)}
    (h : Joined joined current) (text : List (Char × Bool)) :
    ∃ rest, current ++ ('#', false) :: text = ('#', false) :: rest := by
  cases joined with
  | false =>
    rw [show current = [] from h]
    exact ⟨text, rfl⟩
  | true =>
    obtain ⟨rest, rfl⟩ : ∃ rest, current = ('#', false) :: rest := h
    exact ⟨rest ++ ('#', false) :: text, rfl⟩

section Loop

variable {sh : Shell} (hsh : sh.Expands)

include hsh

/-- A read text that starts with a comment has no effect. -/
theorem body_joined (vars : Vars) (rest : List (Char × Bool)) :
    body sh vars (readItem (('#', false) :: rest)) = some vars := by
  obtain ⟨text, htext⟩ := readItem_cons (c := ('#', false)) (by decide) rest
  rw [htext]
  exact body_comment hsh text

theorem loop_content {lines : List ConfLine} (h : ∀ line ∈ lines, line.WellFormed) {tail : Text}
    (htail : '\n' ∉ tail) (joined : Bool) (current : List (Char × Bool))
    (hcur : Joined joined current) (vars : Vars) :
    (items current (unlines (lines.map ConfLine.text) ++ tail)).foldlM
        (fun vars chars => body sh vars (readItem chars)) vars =
      evalAll sh vars (kept joined lines) := by
  -- `current` is what `read` has of a line that goes on, by `Joined` a comment or nothing
  induction lines generalizing joined current vars with
  | nil =>
    have heof : items current tail = [] := items_eof current tail htail
    show (items current tail).foldlM _ vars = _
    rw [heof]
    rfl
  | cons line lines ih =>
    have hline : line.WellFormed := h line List.mem_cons_self
    have hrest := ih fun l hl => h l (List.mem_cons_of_mem _ hl)
    have hnl : '\n' ∉ line.text := fun hc => (ConfLine.text_noBreak hline _ hc).1 rfl
    rw [List.map_cons, unlines_cons, List.append_assoc, List.cons_append, items_line _ _ _ hnl]
    cases line with
    | comment text =>
      have hmarks : marks (ConfLine.comment text).text = ('#', false) :: marks text :=
        marks_cons (by decide) text
      have hcont : continued (ConfLine.comment text).text = continued text :=
        continued_cons (by decide) text
      obtain ⟨rest, hcurrent⟩ := hcur.append_comment (marks text)
      rw [hmarks, hcont, hcurrent]
      cases hc : continued text with
      | true =>
        -- nothing is processed before the next line is read
        rw [if_pos rfl, kept, hc]
        exact hrest true _ ⟨rest, rfl⟩ vars
      | false =>
        rw [if_neg Bool.false_ne_true, kept, hc, List.foldlM_cons, body_joined hsh]
        exact hrest false [] rfl vars
    | empty =>
      -- the empty line ends a comment that goes on
      have hbody : body sh vars (readItem current) = some vars := by
        cases joined with
        | false =>
          rw [show current = [] from hcur]
          exact body_empty
        | true =>
          obtain ⟨rest, rfl⟩ : ∃ rest, current = ('#', false) :: rest := hcur
          exact body_joined hsh vars rest
      show (if false = true then _ else _ : List _).foldlM _ vars = _
      rw [if_neg Bool.false_ne_true, kept, List.foldlM_cons]
      show ((body sh vars (readItem (current ++ []))).bind _ : Option Vars) = _
      rw [List.append_nil, hbody]
      exact hrest false [] rfl vars
    | assign key value =>
      obtain ⟨hname, hlit⟩ := hline
      have hplain : '\\' ∉ (ConfLine.assign key value).text := backslash_not_mem hname hlit
      rw [continued_plain hplain, marks_plain hplain, if_neg Bool.false_ne_true, List.foldlM_cons]
      cases joined with
      | false =>
        have hitem : readItem ((ConfLine.assign key value).text.map fun c => (c, false)) =
            writePair key value := readItem_writePair hname
        rw [show current = [] from hcur, List.nil_append, hitem, kept, evalAll, List.foldlM_cons]
        congr 1
        funext vars'
        exact hrest false [] rfl vars'
      | true =>
        -- the assignment has become a part of the comment
        obtain ⟨rest, rfl⟩ : ∃ rest, current = ('#', false) :: rest := hcur
        rw [List.cons_append, body_joined hsh, kept]
        exact hrest false [] rfl vars

end Loop

/-! ## Which assignments are kept -/

/-- An assignment is not joined to the line before it. -/
def ConfLine.Separate (before line : ConfLine) : Prop :=
  before.continues = true → line.assignment = none

instance (before line : ConfLine) : Decidable (before.Separate line) :=
  inferInstanceAs (Decidable (_ → _))

/-- What is kept are assignments of the lines. -/
theorem kept_sublist (joined : Bool) (lines : List ConfLine) :
    (kept joined lines).Sublist (assignments lines) := by
  induction lines generalizing joined with
  | nil => cases joined <;> exact List.Sublist.refl _
  | cons line lines ih =>
    cases line with
    | comment text =>
      rw [kept]
      exact ih (continued text)
    | empty => cases joined <;> exact ih false
    | assign key value =>
      cases joined with
      | false => exact (ih false).cons_cons (key, value)
      | true => exact (ih false).cons (key, value)

/-- All assignments are kept exactly when none is joined to the line before it. -/
theorem kept_eq_iff (joined : Bool) (lines : List ConfLine) :
    kept joined lines = assignments lines ↔
      (joined = true → ∀ line ∈ lines.head?, line.assignment = none) ∧
        lines.IsChain ConfLine.Separate := by
  induction lines generalizing joined with
  | nil => cases joined <;> simp [kept, assignments]
  | cons line lines ih =>
    rw [List.isChain_cons]
    cases line with
    | comment text =>
      have hstep : kept joined (.comment text :: lines) = kept (continued text) lines := by
        cases joined <;> rfl
      have hassign : assignments (.comment text :: lines) = assignments lines := rfl
      rw [hstep, hassign, ih]
      simp only [ConfLine.Separate, ConfLine.continues, ConfLine.assignment, List.head?_cons,
        Option.mem_def, Option.some.injEq, forall_eq', implies_true, true_and]
      tauto
    | empty =>
      have hstep : kept joined (.empty :: lines) = kept false lines := by cases joined <;> rfl
      have hassign : assignments (.empty :: lines) = assignments lines := rfl
      rw [hstep, hassign, ih]
      simp [ConfLine.Separate, ConfLine.continues, ConfLine.assignment]
    | assign key value =>
      have hassign : assignments (.assign key value :: lines) = (key, value) :: assignments lines :=
        rfl
      cases joined with
      | false =>
        rw [kept, hassign, List.cons.injEq, ih]
        simp [ConfLine.Separate, ConfLine.continues]
      | true =>
        -- what is joined is dropped, so an assignment is missing
        have hlonger : kept true (.assign key value :: lines) ≠ (key, value) :: assignments lines :=
          fun heq => by
            have hle := (kept_sublist false lines).length_le
            rw [kept] at heq
            rw [heq, List.length_cons] at hle
            omega
        simp [hassign, hlonger, ConfLine.assignment]

end Anx.Conf
