import Anx.Lib.Bre

/-!
# Substitutions of `sed`

Commands that match a whole line, with basic regular expressions as POSIX describes them: a
`+` stands for itself.

- `Part`, `parse`: the parts of an expression, with brackets for one excluded character;
- `matchesAll`: an expression matches a whole line;
- `appendTo`, `replaceLine`: the commands `s|^\(pattern\)$|\1suffix|` and `s|^pattern.*|line|`;
- `Alike`: a text and a pattern that is plain but for its dots;
- `parse_plain`, `matchesAll_plain`: **a plain start of an expression**;
- `matchesAll_star_any`, `matchesAll_lit`, `mem_of_matchesAll`: its other parts;
- `replaceLine_plain`: lines that start with a pattern without operators are replaced.
-/

namespace Anx.Lib.Sed

/-- A part of an expression. -/
inductive Part where
  | one (a : Single)
  | star (a : Single)
  | except (c : Char)
deriving DecidableEq, Repr

/-- The characters that have a meaning of their own in an expression. -/
def special : List Char := ['\\', '[', '*', '^', '$', '\n']

/-- The parts of an expression; none if it has something else in it than characters, stars
and brackets with one excluded character. -/
def parse : Text → Option (List Part)
  | [] => some []
  | '[' :: '^' :: c :: ']' :: p => (parse p).map (.except c :: ·)
  | c :: '*' :: p => if c ∈ special then none else (parse p).map (.star (.ofChar c) :: ·)
  | c :: p => if c ∈ special then none else (parse p).map (.one (.ofChar c) :: ·)

/-- The expression matches the whole text. -/
def matchesAll : List Part → Text → Bool
  | [], s => s = []
  | .one _ :: _, [] => false
  | .one a :: p, c :: s => a.matchesChar c && matchesAll p s
  | .star a :: p, s => matchesStar a (matchesAll p) s
  | .except _ :: _, [] => false
  | .except a :: p, c :: s => c ≠ a && matchesAll p s

/-- The text of a replacement stands for itself. -/
def IsReplacement (text : Text) : Prop := ∀ c ∈ text, c ∉ ['\\', '&', '|', '\n']

instance (text : Text) : Decidable (IsReplacement text) :=
  inferInstanceAs (Decidable (∀ c ∈ text, _))

/-- `s|^\(pattern\)$|\1suffix|`, for one line. Other patterns than those of `parse` and other
replacements are left to `other`. -/
def appendTo (other : Text → Text → Text → Text) (pattern suffix line : Text) : Text :=
  if '|' ∈ pattern ∨ ¬ IsReplacement suffix then other pattern suffix line
  else
    match parse pattern with
    | some parts => if matchesAll parts line then line ++ suffix else line
    | none => other pattern suffix line

/-- `s|^pattern.*|replacement|`, for one line: what matches goes on to its end. -/
def replaceLine (other : Text → Text → Text → Text) (pattern replacement line : Text) : Text :=
  if '|' ∈ pattern ∨ ¬ IsReplacement replacement then other pattern replacement line
  else
    match parse (pattern ++ ['.', '*']) with
    | some parts => if matchesAll parts line then replacement else line
    | none => other pattern replacement line

/-! ## Plain patterns -/

/-- No character has a meaning of its own, but for the dot. -/
def IsPlain (pattern : Text) : Prop := ∀ c ∈ pattern, c ∉ '|' :: special

instance (pattern : Text) : Decidable (IsPlain pattern) :=
  inferInstanceAs (Decidable (∀ c ∈ pattern, _))

/-- The text is the pattern, with some character for every dot. -/
def Alike (pattern text : Text) : Prop :=
  List.Forall₂ (fun p c => p = '.' ∨ p = c) pattern text

instance (pattern text : Text) : Decidable (Alike pattern text) :=
  inferInstanceAs (Decidable (List.Forall₂ _ _ _))

theorem Alike.refl (text : Text) : Alike text text := List.forall₂_same.mpr fun _ _ => .inr rfl

theorem Alike.eq_of_no_dot {pattern text : Text} (hdot : '.' ∉ pattern)
    (h : Alike pattern text) : text = pattern := by
  induction h with
  | nil => rfl
  | cons hc _ ih =>
    rw [List.mem_cons, not_or] at hdot
    rw [hc.resolve_left (Ne.symm hdot.1), ih hdot.2]

theorem IsPlain.bar_not_mem {pattern : Text} (h : IsPlain pattern) : '|' ∉ pattern :=
  fun hmem => h '|' hmem List.mem_cons_self

/-- **A plain start** is taken character by character. -/
theorem parse_plain {pattern : Text} (h : IsPlain pattern) {p : Text} {parts : List Part}
    (hp : parse p = some parts) (hstar : p.head? ≠ some '*') :
    parse (pattern ++ p) = some ((pattern.map .ofChar).map .one ++ parts) := by
  induction pattern with
  | nil => exact hp
  | cons c pattern ih =>
    obtain ⟨hc, hrest⟩ := List.forall_mem_cons.mp h
    have hspecial : c ∉ special := fun hmem => hc (List.mem_cons_of_mem _ hmem)
    have hbracket : c ≠ '[' := fun heq => hspecial (by simp [heq, special])
    have hnext : (pattern ++ p).head? ≠ some '*' := by
      cases pattern with
      | nil => exact hstar
      | cons d pattern =>
        intro hd
        obtain rfl : d = '*' := Option.some.inj hd
        exact hrest '*' List.mem_cons_self (by simp [special])
    have hstep : parse (c :: (pattern ++ p)) =
        (parse (pattern ++ p)).map (.one (.ofChar c) :: ·) := by
      generalize pattern ++ p = rest at hnext
      rw [parse]
      · exact if_neg hspecial
      · rintro - p' heq rfl
        exact hbracket heq
      · rintro p' rfl
        exact hnext rfl
    rw [List.cons_append, hstep, ih hrest]
    rfl

theorem matchesChar_ofChar {p c : Char} :
    (Single.ofChar p).matchesChar c = true ↔ p = '.' ∨ p = c := by
  unfold Single.ofChar
  split
  · next hdot => exact iff_of_true rfl (.inl hdot)
  · next hdot => 
    rw [Single.matchesChar, decide_eq_true_iff, or_iff_right hdot, eq_comm]

/-- And matches a text like it. -/
theorem matchesAll_plain {pattern : Text} {parts : List Part} {s : Text} :
    matchesAll ((pattern.map .ofChar).map .one ++ parts) s = true ↔
      ∃ s₁ s₂, s = s₁ ++ s₂ ∧ Alike pattern s₁ ∧ matchesAll parts s₂ = true := by
  induction pattern generalizing s with
  | nil =>
    constructor
    · exact fun h => ⟨[], s, rfl, .nil, h⟩
    · rintro ⟨s₁, s₂, rfl, hs₁, h⟩
      cases hs₁
      exact h
  | cons p pattern ih =>
    cases s with
    | nil =>
      refine iff_of_false Bool.false_ne_true ?_
      rintro ⟨s₁, s₂, heq, hs₁, -⟩
      obtain ⟨rfl, -⟩ := List.append_eq_nil_iff.mp heq.symm
      cases hs₁
    | cons c s =>
      rw [List.map_cons, List.map_cons, List.cons_append, matchesAll, Bool.and_eq_true,
        matchesChar_ofChar, ih]
      constructor
      · rintro ⟨hc, s₁, s₂, rfl, hs₁, h⟩
        exact ⟨c :: s₁, s₂, rfl, .cons hc hs₁, h⟩
      · rintro ⟨s₁, s₂, heq, hs₁, h⟩
        cases hs₁ with
        | cons hc hs₁ =>
          obtain ⟨rfl, rfl⟩ := List.cons_eq_cons.mp heq
          exact ⟨hc, _, s₂, rfl, hs₁, h⟩

/-- Anything, and then the rest of the expression. -/
theorem matchesAll_star_any {parts : List Part} {s : Text} :
    matchesAll (.star .any :: parts) s = true ↔
      ∃ s₁ s₂, s = s₁ ++ s₂ ∧ matchesAll parts s₂ = true := by
  rw [matchesAll, matchesStar_iff]
  exact exists₂_congr fun s₁ s₂ => and_congr_right' (and_iff_right fun _ _ => rfl)

/-- A character, and then the rest of the expression. -/
theorem matchesAll_lit {c : Char} {parts : List Part} {s : Text} :
    matchesAll (.one (.lit c) :: parts) s = true ↔
      ∃ s', s = c :: s' ∧ matchesAll parts s' = true := by
  cases s with
  | nil => simp [matchesAll]
  | cons d s =>
    rw [matchesAll, Bool.and_eq_true, Single.matchesChar, decide_eq_true_iff]
    constructor
    · rintro ⟨rfl, h⟩
      exact ⟨s, rfl, h⟩
    · rintro ⟨s', heq, h⟩
      obtain ⟨rfl, rfl⟩ := List.cons_eq_cons.mp heq
      exact ⟨rfl, h⟩

/-- What matches has the characters that the expression has. -/
theorem mem_of_matchesAll {c : Char} {parts : List Part} {s : Text}
    (hc : .one (.lit c) ∈ parts) (h : matchesAll parts s = true) : c ∈ s := by
  induction parts generalizing s with
  | nil => cases hc
  | cons part parts ih =>
    rcases List.mem_cons.mp hc with rfl | hlater
    · obtain ⟨s', rfl, -⟩ := matchesAll_lit.mp h
      exact List.mem_cons_self
    · cases part with
      | one a =>
        cases s with
        | nil => cases h
        | cons d s =>
          rw [matchesAll, Bool.and_eq_true] at h
          exact List.mem_cons_of_mem _ (ih hlater h.2)
      | star a =>
        rw [matchesAll, matchesStar_iff] at h
        obtain ⟨s₁, s₂, rfl, -, h⟩ := h
        exact List.mem_append_right _ (ih hlater h)
      | except a =>
        cases s with
        | nil => cases h
        | cons d s =>
          rw [matchesAll, Bool.and_eq_true] at h
          exact List.mem_cons_of_mem _ (ih hlater h.2)

/-- **A plain pattern without dots**: what starts with it is replaced. -/
theorem replaceLine_plain {other : Text → Text → Text → Text} {pattern replacement : Text}
    (hpattern : IsPlain pattern) (hdot : '.' ∉ pattern) (hreplacement : IsReplacement replacement)
    (line : Text) : replaceLine other pattern replacement line =
      if pattern <+: line then replacement else line := by
  have hparse := parse_plain hpattern (show parse ['.', '*'] = some [.star .any] from rfl)
    (by decide)
  have hbar : ¬ ('|' ∈ pattern ∨ ¬ IsReplacement replacement) :=
    not_or.mpr ⟨hpattern.bar_not_mem, not_not.mpr hreplacement⟩
  have hmatches : matchesAll ((pattern.map .ofChar).map .one ++ [.star .any]) line = true ↔
      pattern <+: line := by
    rw [matchesAll_plain]
    constructor
    · rintro ⟨s₁, s₂, rfl, hs₁, -⟩
      exact hs₁.eq_of_no_dot hdot ▸ List.prefix_append _ _
    · rintro ⟨s, rfl⟩
      refine ⟨pattern, s, rfl, .refl pattern, ?_⟩
      exact matchesAll_star_any.mpr ⟨s, [], (List.append_nil s).symm, rfl⟩
  rw [replaceLine, if_neg hbar, hparse]
  dsimp only
  exact if_congr hmatches rfl rfl

end Anx.Lib.Sed
