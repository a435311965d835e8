import Mathlib.Data.List.Forall2
import Mathlib.Data.List.Infix
import Anx.Lib.Lines

/-!
# Basic regular expressions

The patterns of `grep`, as POSIX describes them. Brackets, groups, intervals and back
references are left to a parameter.

- `Single`, `Piece`, `parse`: the parts of an expression;
- `matchesAt`, `grep`: an expression matches at a place of a line, or somewhere in it;
- `matchesAt_append`: expressions one after another;
- `grep_literal`: **a literal pattern** selects the lines that have it as a part;
- `grep_start`, `grep_below`, `grep_slashes`: a literal at the start of a line, with
  anything, with a slash or with only slashes after it;
- `StandsFor`, `StandsFor.selected`: some of the texts that an expression with dots and stars
  stands for, and the lines that have one of them in it.
-/

namespace Anx.Lib

/-- What stands for one character. -/
inductive Single where
  | any
  | lit (c : Char)
deriving DecidableEq, Repr

/-- A part of an expression. -/
inductive Piece where
  | one (a : Single)
  | star (a : Single)
  | lineEnd
deriving DecidableEq, Repr

namespace Single

def matchesChar : Single → Char → Bool
  | .any, _ => true
  | .lit a, c => c = a

/-- A character of an expression, without a backslash before it. -/
def ofChar (c : Char) : Single := if c = '.' then .any else .lit c

end Single

/-- The characters that a backslash makes literal. -/
def escapable : List Char := ['.', '*', '[', ']', '\\', '^', '$', '/']

/-- The parts of an expression; none if it has brackets, groups, intervals or back
references in it, or is not well formed. -/
def parse : Text → Option (List Piece)
  | [] => some []
  | ['$'] => some [.lineEnd]
  | '\\' :: c :: '*' :: p =>
    if c ∈ escapable then (parse p).map (.star (.lit c) :: ·) else none
  | '\\' :: c :: p => if c ∈ escapable then (parse p).map (.one (.lit c) :: ·) else none
  | '\\' :: [] => none
  | '[' :: _ => none
  | '*' :: _ => none
  | c :: '*' :: p => (parse p).map (.star (.ofChar c) :: ·)
  | c :: p => (parse p).map (.one (.ofChar c) :: ·)

/-- `rest` matches after some characters that `a` stands for. -/
def matchesStar (a : Single) (rest : Text → Bool) : Text → Bool
  | [] => rest []
  | c :: s => rest (c :: s) || a.matchesChar c && matchesStar a rest s

/-- The expression matches at the start of the text. -/
def matchesAt : List Piece → Text → Bool
  | [], _ => true
  | .one _ :: _, [] => false
  | .one a :: p, c :: s => a.matchesChar c && matchesAt p s
  | .star a :: p, s => matchesStar a (matchesAt p) s
  | .lineEnd :: p, s => s = [] && matchesAt p s

/-- `grep` selects the line. Patterns that `parse` does not know, several patterns, and
options in the place of a pattern are left to `other`. -/
def grep (other : Text → Text → Bool) (pattern line : Text) : Bool :=
  if '\n' ∈ pattern ∨ pattern.head? = some '-' then other pattern line
  else
    match pattern with
    | '^' :: p =>
      match parse p with
      | some pieces => matchesAt pieces line
      | none => other pattern line
    | p =>
      match parse p with
      | some pieces => line.tails.any fun s => matchesAt pieces s
      | none => other pattern line

/-! ## Matching -/

theorem matchesStar_iff {a : Single} {rest : Text → Bool} {s : Text} :
    matchesStar a rest s = true ↔
      ∃ s₁ s₂, s = s₁ ++ s₂ ∧ (∀ c ∈ s₁, a.matchesChar c = true) ∧ rest s₂ = true := by
  induction s with
  | nil =>
    constructor
    · exact fun h => ⟨[], [], rfl, by simp, h⟩
    · rintro ⟨s₁, s₂, heq, -, h⟩
      obtain ⟨rfl, rfl⟩ := List.append_eq_nil_iff.mp heq.symm
      exact h
  | cons c s ih =>
    rw [matchesStar, Bool.or_eq_true, Bool.and_eq_true, ih]
    constructor
    · rintro (h | ⟨hc, s₁, s₂, rfl, hs₁, h⟩)
      · exact ⟨[], c :: s, rfl, by simp, h⟩
      · exact ⟨c :: s₁, s₂, rfl, List.forall_mem_cons.mpr ⟨hc, hs₁⟩, h⟩
    · rintro ⟨s₁, s₂, heq, hs₁, h⟩
      cases s₁ with
      | nil => exact .inl (heq ▸ h)
      | cons d s₁ =>
        obtain ⟨rfl, rfl⟩ := List.cons_eq_cons.mp heq
        exact .inr ⟨hs₁ c List.mem_cons_self, s₁, s₂, rfl,
          fun e he => hs₁ e (List.mem_cons_of_mem _ he), h⟩

/-- Characters, and then the rest of the expression. -/
theorem matchesAt_append {as : List Single} {p : List Piece} {s : Text} :
    matchesAt (as.map .one ++ p) s = true ↔
      ∃ s₁ s₂, s = s₁ ++ s₂ ∧ List.Forall₂ (fun a c => a.matchesChar c = true) as s₁ ∧
        matchesAt p s₂ = true := by
  induction as generalizing s with
  | nil => simp
  | cons a as ih =>
    cases s with
    | nil =>
      simp only [List.map_cons, List.cons_append, matchesAt, Bool.false_eq_true, false_iff]
      rintro ⟨s₁, s₂, heq, hs₁, -⟩
      obtain ⟨rfl, -⟩ := List.append_eq_nil_iff.mp heq.symm
      cases hs₁
    | cons c s =>
      rw [List.map_cons, List.cons_append, matchesAt, Bool.and_eq_true, ih]
      constructor
      · rintro ⟨hc, s₁, s₂, rfl, hs₁, h⟩
        exact ⟨c :: s₁, s₂, rfl, .cons hc hs₁, h⟩
      · rintro ⟨s₁, s₂, heq, hs₁, h⟩
        cases hs₁ with
        | cons hc hs₁ =>
          obtain ⟨rfl, rfl⟩ := List.cons_eq_cons.mp heq
          exact ⟨hc, _, s₂, rfl, hs₁, h⟩

/-! ## Patterns without operators -/

/-- The pattern has no operator, but for an anchor at its start or its end. -/
def Ordinary (pattern : Text) : Prop := ∀ c ∈ pattern, c ∉ ['\\', '.', '[', '*']

instance (pattern : Text) : Decidable (Ordinary pattern) :=
  inferInstanceAs (Decidable (∀ c ∈ pattern, _))

/-- A character that is no operator, and not an anchor at the end. -/
theorem parse_cons {c : Char} {p : Text} (hbackslash : c ≠ '\\') (hbracket : c ≠ '[')
    (hstar : c ≠ '*') (hnext : p.head? ≠ some '*') (hend : c = '$' → p ≠ []) :
    parse (c :: p) = (parse p).map (.one (.ofChar c) :: ·) := by
  rw [parse]
  · exact fun hc => hend hc
  · exact fun _ _ hc => absurd hc hbackslash
  · exact fun _ _ hc => absurd hc hbackslash
  · exact fun hc => absurd hc hbackslash
  · exact fun hc => absurd hc hbracket
  · exact fun hc => absurd hc hstar
  · rintro p' rfl
    exact hnext rfl

/-- A character with a star. -/
theorem parse_cons_star {c : Char} {p : Text} (hbackslash : c ≠ '\\') (hbracket : c ≠ '[')
    (hstar : c ≠ '*') : parse (c :: '*' :: p) = (parse p).map (.star (.ofChar c) :: ·) := by
  rw [parse]
  · exact fun _ hc => absurd hc hbackslash
  · exact hbackslash
  · exact hbracket
  · exact hstar

theorem parse_ordinary {pattern : Text} (h : Ordinary pattern) {p : Text} {pieces : List Piece}
    (hp : parse p = some pieces) (hstar : p.head? ≠ some '*')
    (hend : p = [] → pattern.getLast? ≠ some '$') :
    parse (pattern ++ p) = some ((pattern.map .lit).map .one ++ pieces) := by
  induction pattern with
  | nil => exact hp
  | cons c pattern ih =>
    have hc := h c List.mem_cons_self
    simp only [List.mem_cons, List.not_mem_nil, or_false, not_or] at hc
    obtain ⟨hbackslash, hdot, hbracket, hstar'⟩ := hc
    have hend' : p = [] → pattern.getLast? ≠ some '$' := by
      intro hnil hlast
      refine hend hnil ?_
      rw [List.getLast?_cons, hlast]
      rfl
    have hrest := ih (fun d hd => h d (List.mem_cons_of_mem _ hd)) hend'
    have hnext : (pattern ++ p).head? ≠ some '*' := by
      cases pattern with
      | nil => exact hstar
      | cons d pattern =>
        intro hd
        obtain rfl : d = '*' := Option.some.inj hd
        exact h '*' (List.mem_cons_of_mem _ List.mem_cons_self) (by simp)
    have hlast : c = '$' → pattern ++ p ≠ [] := by
      rintro rfl hnil
      obtain ⟨rfl, rfl⟩ := List.append_eq_nil_iff.mp hnil
      exact hend rfl rfl
    rw [List.cons_append, parse_cons hbackslash hbracket hstar' hnext hlast, hrest,
      Single.ofChar, if_neg hdot]
    rfl

/-! ## Literal patterns -/

/-- The pattern has only characters that stand for themselves. -/
def Literal (pattern : Text) : Prop :=
  ∀ c ∈ pattern, c ∉ ['\\', '.', '[', '*', '^', '$', '\n']

instance (pattern : Text) : Decidable (Literal pattern) :=
  inferInstanceAs (Decidable (∀ c ∈ pattern, _))

theorem Literal.not_mem {pattern : Text} (h : Literal pattern) {c : Char}
    (hc : c ∈ ['\\', '.', '[', '*', '^', '$', '\n']) : c ∉ pattern :=
  fun hmem => h c hmem hc

theorem Literal.ordinary {pattern : Text} (h : Literal pattern) : Ordinary pattern :=
  fun c hc hop => h c hc (List.mem_append_left ['^', '$', '\n'] hop)

theorem Literal.getLast?_ne {pattern : Text} (h : Literal pattern) :
    pattern.getLast? ≠ some '$' :=
  fun hlast => h.not_mem (c := '$') (by simp) (List.mem_of_getLast? hlast)

theorem parse_literal {pattern : Text} (h : Literal pattern) {p : Text} {pieces : List Piece}
    (hp : parse p = some pieces) (hstar : p.head? ≠ some '*') :
    parse (pattern ++ p) = some ((pattern.map .lit).map .one ++ pieces) :=
  parse_ordinary h.ordinary hp hstar fun _ => h.getLast?_ne

theorem forall₂_lit {pattern s : Text} :
    List.Forall₂ (fun a c => Single.matchesChar a c = true) (pattern.map .lit) s ↔
      s = pattern := by
  induction pattern generalizing s with
  | nil => simp
  | cons a pattern ih =>
    cases s with
    | nil => simp
    | cons c s =>
      rw [List.map_cons, List.forall₂_cons, ih, List.cons_eq_cons]
      exact and_congr_left' decide_eq_true_iff

/-- A literal, and then the rest of the expression. -/
theorem matchesAt_literal {pattern : Text} {p : List Piece} {s : Text} :
    matchesAt ((pattern.map .lit).map .one ++ p) s = true ↔
      ∃ rest, s = pattern ++ rest ∧ matchesAt p rest = true := by
  rw [matchesAt_append]
  constructor
  · rintro ⟨s₁, rest, rfl, hs₁, h⟩
    exact ⟨rest, by rw [forall₂_lit.mp hs₁], h⟩
  · rintro ⟨rest, rfl, h⟩
    exact ⟨pattern, rest, rfl, forall₂_lit.mpr rfl, h⟩

theorem grep_of_parse {other : Text → Text → Bool} {pattern line : Text} {pieces : List Piece}
    (hnewline : '\n' ∉ pattern) (hoption : pattern.head? ≠ some '-')
    (hstart : pattern.head? ≠ some '^') (hparse : parse pattern = some pieces) :
    grep other pattern line = line.tails.any fun s => matchesAt pieces s := by
  unfold grep
  rw [if_neg (by simp [hnewline, hoption])]
  split
  · exact absurd rfl hstart
  · rw [hparse]

theorem grep_start_of_parse {other : Text → Text → Bool} {pattern line : Text}
    {pieces : List Piece} (hnewline : '\n' ∉ pattern) (hparse : parse pattern = some pieces) :
    grep other ('^' :: pattern) line = matchesAt pieces line := by
  unfold grep
  rw [if_neg (by simp [hnewline])]
  simp only [hparse]

/-- **A pattern without operators** selects the lines that have it as a part. -/
theorem grep_ordinary {other : Text → Text → Bool} {pattern line : Text} (h : Ordinary pattern)
    (hnewline : '\n' ∉ pattern) (hoption : pattern.head? ≠ some '-')
    (hstart : pattern.head? ≠ some '^') (hend : pattern.getLast? ≠ some '$') :
    grep other pattern line = true ↔ pattern <:+: line := by
  have hparse := parse_ordinary h (p := []) rfl (by simp) fun _ => hend
  rw [List.append_nil pattern] at hparse
  rw [grep_of_parse hnewline hoption hstart hparse, List.any_eq_true]
  constructor
  · rintro ⟨s, hs, hmatches⟩
    rw [matchesAt_literal] at hmatches
    obtain ⟨rest, rfl, -⟩ := hmatches
    exact (List.prefix_append _ _).isInfix.trans ((List.mem_tails _ _).mp hs).isInfix
  · rintro ⟨before, after, rfl⟩
    refine ⟨pattern ++ after, ?_, ?_⟩
    · rw [List.mem_tails, List.append_assoc]
      exact List.suffix_append _ _
    · rw [matchesAt_literal]
      exact ⟨after, rfl, rfl⟩

/-- **A literal pattern** selects the lines that have it as a part. -/
theorem grep_literal {other : Text → Text → Bool} {pattern line : Text} (h : Literal pattern)
    (hoption : pattern.head? ≠ some '-') : grep other pattern line = true ↔ pattern <:+: line :=
  grep_ordinary h.ordinary (h.not_mem (by simp)) hoption
    (fun hhead => h.not_mem (c := '^') (by simp) (List.mem_of_head? hhead)) h.getLast?_ne

/-- `^pattern`. -/
theorem grep_start {other : Text → Text → Bool} {pattern line : Text} (h : Literal pattern) :
    grep other ('^' :: pattern) line = true ↔ pattern <+: line := by
  have hparse := parse_literal h (p := []) rfl (by simp)
  rw [List.append_nil pattern] at hparse
  rw [grep_start_of_parse (h.not_mem (by simp)) hparse, matchesAt_literal]
  constructor
  · rintro ⟨rest, rfl, -⟩
    exact List.prefix_append _ _
  · rintro ⟨rest, rfl⟩
    exact ⟨rest, rfl, rfl⟩

/-- `^pattern/.*$`. -/
theorem grep_below {other : Text → Text → Bool} {pattern line : Text} (h : Literal pattern) :
    grep other ('^' :: pattern ++ ['/', '.', '*', '$']) line = true ↔
      pattern ++ ['/'] <+: line := by
  have hparse := parse_literal h
    (show parse ['/', '.', '*', '$'] = some [.one (.lit '/'), .star .any, .lineEnd] from rfl)
    (by simp)
  have hnewline : '\n' ∉ pattern ++ ['/', '.', '*', '$'] := by
    simpa using h.not_mem (c := '\n') (by simp)
  rw [List.cons_append, grep_start_of_parse hnewline hparse, matchesAt_literal]
  constructor
  · rintro ⟨rest, rfl, hrest⟩
    cases rest with
    | nil => cases hrest
    | cons c rest =>
      rw [matchesAt, Bool.and_eq_true] at hrest
      obtain rfl : c = '/' := of_decide_eq_true hrest.1
      exact ⟨rest, by simp⟩
  · rintro ⟨rest, rfl⟩
    refine ⟨'/' :: rest, by simp, ?_⟩
    rw [matchesAt, Bool.and_eq_true]
    refine ⟨rfl, ?_⟩
    rw [matchesAt, matchesStar_iff]
    exact ⟨rest, [], by simp, fun _ _ => rfl, rfl⟩

/-- `^pattern/*$`. -/
theorem grep_slashes {other : Text → Text → Bool} {pattern line : Text} (h : Literal pattern) :
    grep other ('^' :: pattern ++ ['/', '*', '$']) line = true ↔
      ∃ slashes, line = pattern ++ slashes ∧ ∀ c ∈ slashes, c = '/' := by
  have hparse := parse_literal h
    (show parse ['/', '*', '$'] = some [.star (.lit '/'), .lineEnd] from rfl) (by simp)
  have hnewline : '\n' ∉ pattern ++ ['/', '*', '$'] := by
    simpa using h.not_mem (c := '\n') (by simp)
  rw [List.cons_append, grep_start_of_parse hnewline hparse, matchesAt_literal]
  refine exists_congr fun slashes => and_congr_right' ?_
  rw [matchesAt, matchesStar_iff]
  constructor
  · rintro ⟨s₁, s₂, rfl, hs₁, hend⟩
    rw [matchesAt, Bool.and_eq_true, decide_eq_true_iff] at hend
    obtain ⟨rfl, -⟩ := hend
    rw [List.append_nil]
    exact fun c hc => of_decide_eq_true (hs₁ c hc)
  · exact fun hall => ⟨slashes, [], by simp, fun c hc => decide_eq_true (hall c hc), rfl⟩

/-! ## Texts that an expression stands for -/

/-- The expression has no backslashes and brackets and no star after another one, and
stands for the text. -/
inductive StandsFor : Text → Text → Prop where
  | nil : StandsFor [] []
  | one {c d : Char} {p s : Text} (hc : c ∉ ['\\', '[', '*']) (hd : c = '.' ∨ d = c)
      (h : StandsFor p s) : StandsFor (c :: p) (d :: s)
  | star {c : Char} {p ds s : Text} (hc : c ∉ ['\\', '[', '*']) (hds : ∀ d ∈ ds, c = '.' ∨ d = c)
      (h : StandsFor p s) : StandsFor (c :: '*' :: p) (ds ++ s)

theorem Single.matchesChar_ofChar {c d : Char} :
    (ofChar c).matchesChar d = true ↔ c = '.' ∨ d = c := by
  unfold ofChar
  split
  · next h => simp [matchesChar, h]
  · next h => simp [matchesChar, h]

namespace StandsFor

variable {p p' s s' : Text}

theorem head?_ne (h : StandsFor p s) : p.head? ≠ some '*' := by
  cases h with
  | nil => simp
  | one hc => exact fun hhead => hc (by simp [Option.some.inj hhead])
  | star hc => exact fun hhead => hc (by simp [Option.some.inj hhead])

theorem append (h : StandsFor p s) (h' : StandsFor p' s') : StandsFor (p ++ p') (s ++ s') := by
  induction h with
  | nil => exact h'
  | one hc hd _ ih => exact .one hc hd ih
  | star hc hds _ ih =>
    rw [List.append_assoc]
    exact .star hc hds ih

/-- The expression matches the text before what the rest of a pattern matches. -/
theorem parsed (h : StandsFor p s) {pieces : List Piece} (hp : parse p' = some pieces)
    (hne : p' ≠ []) (hstar : p'.head? ≠ some '*') :
    ∃ all, parse (p ++ p') = some all ∧
      ∀ s', matchesAt pieces s' = true → matchesAt all (s ++ s') = true := by
  induction h with
  | nil => exact ⟨pieces, hp, fun _ h => h⟩
  | @one c d p s hc hd h ih =>
    obtain ⟨all, hall, hmatches⟩ := ih
    simp only [List.mem_cons, List.not_mem_nil, or_false, not_or] at hc
    have hnext : (p ++ p').head? ≠ some '*' := by
      cases p with
      | nil => exact hstar
      | cons e p => exact h.head?_ne
    have hrest : p ++ p' ≠ [] := fun hnil => hne (List.append_eq_nil_iff.mp hnil).2
    refine ⟨.one (.ofChar c) :: all, ?_, fun s' hs' => ?_⟩
    · rw [List.cons_append, parse_cons hc.1 hc.2.1 hc.2.2 hnext fun _ => hrest, hall]
      rfl
    · rw [List.cons_append, matchesAt, Bool.and_eq_true]
      exact ⟨Single.matchesChar_ofChar.mpr hd, hmatches s' hs'⟩
  | @star c p ds s hc hds h ih =>
    obtain ⟨all, hall, hmatches⟩ := ih
    simp only [List.mem_cons, List.not_mem_nil, or_false, not_or] at hc
    refine ⟨.star (.ofChar c) :: all, ?_, fun s' hs' => ?_⟩
    · rw [List.cons_append, List.cons_append, parse_cons_star hc.1 hc.2.1 hc.2.2, hall]
      rfl
    · rw [List.append_assoc, matchesAt, matchesStar_iff]
      exact ⟨ds, s ++ s', rfl, fun d hd => Single.matchesChar_ofChar.mpr (hds d hd),
        hmatches s' hs'⟩

/-- A line that has such a text in it is selected. -/
theorem selected {other : Text → Text → Bool} (h : StandsFor p s) {pieces : List Piece}
    (hp : parse p' = some pieces) (hne : p' ≠ []) (hstar : p'.head? ≠ some '*')
    (hs' : matchesAt pieces s' = true) (hnewline : '\n' ∉ p ++ p')
    (hoption : (p ++ p').head? ≠ some '-') (hstart : (p ++ p').head? ≠ some '^')
    (before : Text) : grep other (p ++ p') (before ++ (s ++ s')) = true := by
  obtain ⟨all, hall, hmatches⟩ := h.parsed hp hne hstar
  rw [grep_of_parse hnewline hoption hstart hall, List.any_eq_true]
  exact ⟨s ++ s', (List.mem_tails _ _).mpr (List.suffix_append _ _), hmatches s' hs'⟩

end StandsFor

end Anx.Lib
