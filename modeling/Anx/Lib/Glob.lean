import Mathlib.Data.List.Infix
import Anx.Lib.Lines

/-!
# Shell patterns

The patterns of `case` and of the expansions that remove a prefix, as lists of tokens.

- `Tok`, `matchesPattern`: a text matches a pattern as a whole;
- `removeLongest`, `removeLongestEnd`: `${s##pattern}` and `${s%%pattern}`;
- `inside`: the pattern `*text*`, of which `matchesPattern_inside` says that it finds the
  text as a part of another;
- `removeLongest_star_lit`, `removeLongestEnd_lit_star`: what stands after the last and
  before the first of a character.
-/

namespace Anx.Lib

/-- What stands in a pattern: `*`, `?`, a character, or a bracket expression. -/
inductive Tok where
  | star
  | any
  | lit (c : Char)
  | bracket (not : Bool) (chars : List Char)
deriving DecidableEq, Repr

/-- The text matches the pattern. -/
def matchesPattern : List Tok → Text → Bool
  | [], s => s = []
  | .star :: p, s => s.tails.any fun t => matchesPattern p t
  | .any :: p, s =>
    match s with
    | [] => false
    | _ :: s => matchesPattern p s
  | .lit a :: p, s =>
    match s with
    | [] => false
    | c :: s => c = a && matchesPattern p s
  | .bracket not chars :: p, s =>
    match s with
    | [] => false
    | c :: s => (chars.contains c != not) && matchesPattern p s

/-- `${s##pattern}`: the text without the longest part at its start that matches. -/
def removeLongest (p : List Tok) (s : Text) : Text :=
  match (List.range (s.length + 1)).reverse.find? fun n => matchesPattern p (s.take n) with
  | some n => s.drop n
  | none => s

/-- `${s%%pattern}`: the text without the longest part at its end that matches. -/
def removeLongestEnd (p : List Tok) (s : Text) : Text :=
  match (List.range (s.length + 1)).find? fun n => matchesPattern p (s.drop n) with
  | some n => s.take n
  | none => s

/-- The pattern `*text*`. -/
def inside (text : Text) : List Tok := .star :: text.map .lit ++ [.star]

/-- A star matches what is left. -/
@[simp] theorem matchesPattern_star (s : Text) : matchesPattern [.star] s = true := by
  unfold matchesPattern
  rw [List.any_eq_true]
  exact ⟨[], (List.mem_tails _ _).mpr List.nil_suffix, rfl⟩

theorem matchesPattern_lits (text s : Text) :
    matchesPattern (text.map .lit ++ [.star]) s = true ↔ text <+: s := by
  induction text generalizing s with
  | nil => simp
  | cons a text ih =>
    cases s with
    | nil => simp [matchesPattern]
    | cons c s =>
      rw [List.cons_prefix_cons, ← ih s, List.map_cons, List.cons_append, matchesPattern,
        Bool.and_eq_true, decide_eq_true_iff, eq_comm]

/-- A pattern of characters matches only itself. -/
theorem matchesPattern_text (text s : Text) :
    matchesPattern (text.map .lit) s = true ↔ s = text := by
  induction text generalizing s with
  | nil => simp [matchesPattern]
  | cons a text ih =>
    cases s with
    | nil => simp [matchesPattern]
    | cons c s =>
      rw [List.map_cons, matchesPattern, Bool.and_eq_true, decide_eq_true_iff, ih,
        List.cons_eq_cons]

/-- `*text*` matches what has the text as a part. -/
theorem matchesPattern_inside (text s : Text) :
    matchesPattern (inside text) s = true ↔ text <:+: s := by
  unfold inside
  rw [List.cons_append, matchesPattern, List.any_eq_true]
  constructor
  · rintro ⟨t, ht, htext⟩
    exact ((matchesPattern_lits text t).mp htext).isInfix.trans ((List.mem_tails _ _).mp ht).isInfix
  · rintro ⟨before, after, rfl⟩
    refine ⟨text ++ after, ?_, (matchesPattern_lits _ _).mpr (List.prefix_append _ _)⟩
    rw [List.mem_tails, List.append_assoc]
    exact List.suffix_append _ _

/-- Nothing is left exactly when the whole text matches. -/
theorem removeLongest_eq_nil {p : List Tok} {s : Text} (hs : s ≠ []) :
    removeLongest p s = [] ↔ matchesPattern p s = true := by
  have hlength : 0 < s.length := List.length_pos_iff.mpr hs
  unfold removeLongest
  rw [List.range_succ, List.reverse_append, List.reverse_singleton, List.singleton_append,
    List.find?_cons, List.take_length]
  cases hmatches : matchesPattern p s with
  | true => simp
  | false =>
    simp only [Bool.false_eq_true, iff_false]
    split
    · next n hn =>
      -- a shorter part leaves something
      have hlt : n < s.length := by
        have hmem := List.mem_of_find?_eq_some hn
        simpa using hmem
      simpa using hlt
    · exact hs

/-! ## Removing a part -/

variable {p : List Tok} {s : Text}

/-- The last character of a text that matches `*c`. -/
theorem matchesPattern_star_lit (c : Char) (s : Text) :
    matchesPattern [.star, .lit c] s = true ↔ [c] <:+ s := by
  unfold matchesPattern
  rw [List.any_eq_true]
  constructor
  · rintro ⟨t, ht, hmatches⟩
    cases t with
    | nil => cases hmatches
    | cons d t =>
      simp only [matchesPattern, Bool.and_eq_true, decide_eq_true_eq] at hmatches
      obtain ⟨rfl, rfl⟩ := hmatches
      exact (List.mem_tails _ _).mp ht
  · intro h
    exact ⟨[c], (List.mem_tails _ _).mpr h, by simp [matchesPattern]⟩

/-- The first character of a text that matches `c*`. -/
theorem matchesPattern_lit_star (c : Char) (s : Text) :
    matchesPattern [.lit c, .star] s = true ↔ [c] <+: s := matchesPattern_lits [c] s

/-- The longest part at the start. -/
theorem removeLongest_append {a b : Text} (h : matchesPattern p a = true)
    (hlongest : ∀ t, t ≠ [] → t <+: b → matchesPattern p (a ++ t) = false) :
    removeLongest p (a ++ b) = b := by
  have hrange : (List.range ((a ++ b).length + 1)).reverse =
      ((List.range b.length).map (a.length + 1 + ·)).reverse ++
        a.length :: (List.range a.length).reverse := by
    rw [List.length_append, Nat.add_right_comm, List.range_add, List.reverse_append,
      List.range_succ, List.reverse_append]
    rfl
  have hnone : ((List.range b.length).map (a.length + 1 + ·)).reverse.find?
      (fun n => matchesPattern p ((a ++ b).take n)) = none := by
    rw [List.find?_eq_none]
    intro n hn
    obtain ⟨k, hk, rfl⟩ := List.mem_map.mp (List.mem_reverse.mp hn)
    have hk : k < b.length := List.mem_range.mp hk
    rw [Nat.add_assoc, Nat.add_comm 1, List.take_length_add_append]
    have hne : b.take (k + 1) ≠ [] := by
      rw [← List.length_pos_iff, List.length_take]
      omega
    rw [hlongest _ hne (List.take_prefix _ _)]
    exact Bool.false_ne_true
  unfold removeLongest
  rw [hrange, List.find?_append, hnone, Option.none_or, List.find?_cons_of_pos]
  · exact List.drop_left
  · rwa [List.take_left]

/-- Nothing at the start matches. -/
theorem removeLongest_eq_self (h : ∀ t, t <+: s → matchesPattern p t = false) :
    removeLongest p s = s := by
  have hnone : ∀ n ∈ (List.range (s.length + 1)).reverse,
      ¬ matchesPattern p (s.take n) = true := by
    intro n _
    rw [h _ (List.take_prefix n s)]
    exact Bool.false_ne_true
  unfold removeLongest
  rw [List.find?_eq_none.mpr hnone]

/-- The longest part at the end. -/
theorem removeLongestEnd_append {a b : Text} (h : matchesPattern p b = true)
    (hlongest : ∀ t, t ≠ [] → t <:+ a → matchesPattern p (t ++ b) = false) :
    removeLongestEnd p (a ++ b) = a := by
  have hrange : List.range ((a ++ b).length + 1) =
      List.range a.length ++ a.length :: (List.range b.length).map (a.length + 1 + ·) := by
    rw [List.length_append, Nat.add_right_comm, List.range_add, List.range_succ,
      List.append_assoc]
    rfl
  have hnone : (List.range a.length).find?
      (fun n => matchesPattern p ((a ++ b).drop n)) = none := by
    rw [List.find?_eq_none]
    intro n hn
    have hn : n < a.length := List.mem_range.mp hn
    have hne : a.drop n ≠ [] := by
      rw [← List.length_pos_iff, List.length_drop]
      omega
    rw [List.drop_append_of_le_length (Nat.le_of_lt hn), hlongest _ hne (List.drop_suffix _ _)]
    exact Bool.false_ne_true
  unfold removeLongestEnd
  rw [hrange, List.find?_append, hnone, Option.none_or, List.find?_cons_of_pos]
  · exact List.take_left
  · rwa [List.drop_left]

theorem removeLongestEnd_eq_self (h : ∀ t, t <:+ s → matchesPattern p t = false) :
    removeLongestEnd p s = s := by
  have hnone : ∀ n ∈ List.range (s.length + 1), ¬ matchesPattern p (s.drop n) = true := by
    intro n _
    rw [h _ (List.drop_suffix n s)]
    exact Bool.false_ne_true
  unfold removeLongestEnd
  rw [List.find?_eq_none.mpr hnone]

/-- `${s##*c}`: what stands after the last `c`. -/
theorem removeLongest_star_lit {c : Char} (before : Text) {after : Text} (h : c ∉ after) :
    removeLongest [.star, .lit c] (before ++ c :: after) = after := by
  have happend : before ++ c :: after = (before ++ [c]) ++ after := by simp
  rw [happend]
  apply removeLongest_append
  · exact (matchesPattern_star_lit c _).mpr (List.suffix_append _ _)
  · intro t hne ht
    rw [Bool.eq_false_iff, ne_eq, matchesPattern_star_lit]
    intro hlast
    -- the last character is one of `after`
    have hmem : [c] <:+ t := List.suffix_of_suffix_length_le hlast (List.suffix_append _ _)
      (List.length_pos_iff.mpr hne)
    exact h (ht.subset (hmem.subset List.mem_cons_self))

theorem removeLongest_star_lit_of_not_mem {c : Char} (h : c ∉ s) :
    removeLongest [.star, .lit c] s = s := by
  refine removeLongest_eq_self fun t ht => ?_
  rw [Bool.eq_false_iff, ne_eq, matchesPattern_star_lit]
  exact fun hlast => h (ht.subset (hlast.subset List.mem_cons_self))

/-- `${s%%c*}`: what stands before the first `c`. -/
theorem removeLongestEnd_lit_star {c : Char} {before : Text} (h : c ∉ before) (after : Text) :
    removeLongestEnd [.lit c, .star] (before ++ c :: after) = before := by
  apply removeLongestEnd_append
  · exact (matchesPattern_lit_star c _).mpr (List.prefix_append [c] after)
  · intro t hne ht
    rw [Bool.eq_false_iff, ne_eq, matchesPattern_lit_star]
    intro hfirst
    have hmem : [c] <+: t := List.prefix_of_prefix_length_le hfirst (List.prefix_append _ _)
      (List.length_pos_iff.mpr hne)
    exact h (ht.subset (hmem.subset List.mem_cons_self))

theorem removeLongestEnd_lit_star_of_not_mem {c : Char} (h : c ∉ s) :
    removeLongestEnd [.lit c, .star] s = s := by
  refine removeLongestEnd_eq_self fun t ht => ?_
  rw [Bool.eq_false_iff, ne_eq, matchesPattern_lit_star]
  exact fun hfirst => h (ht.subset (hfirst.subset List.mem_cons_self))

end Anx.Lib
