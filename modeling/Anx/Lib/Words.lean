import Mathlib.Data.List.Basic
import Mathlib.Data.List.Infix
import Anx.Lib.Lines

/-!
# Words and paths

- `pieces`: what stands between separators, without empty pieces;
- `words`, `field`: the words of a text between blanks, as the shell splits it, and a
  single one of them, as `awk` counts them;
- `uniq`: the lines without adjacent repetitions;
- `components`, `AtOrBelow`, `SamePath`: a path as the names in it; a path lies at or below
  another when that one's names come first in it.
-/

namespace Anx.Lib

/-! ## Pieces -/

/-- What stands between separators, without empty pieces. -/
def pieces (sep : Char → Bool) (text : Text) : List Text := (text.splitOnP sep).filter (· ≠ [])

variable {sep : Char → Bool}

@[simp] theorem pieces_nil : pieces sep [] = [] := rfl

/-- The pieces before a separator, and those after it. -/
theorem pieces_append_cons (before after : Text) {c : Char} (hc : sep c = true) :
    pieces sep (before ++ c :: after) = pieces sep before ++ pieces sep after := by
  unfold pieces
  rw [List.splitOnP_append_cons before after hc, List.filter_append]

/-- A text without separators is its only piece. -/
theorem pieces_of_forall {text : Text} (hne : text ≠ []) (h : ∀ c ∈ text, sep c = false) :
    pieces sep text = [text] := by
  unfold pieces
  rw [List.splitOnP_eq_singleton h]
  exact List.filter_cons_of_pos (by simpa using hne)

/-- Pieces that are joined by a separator are found again. -/
theorem pieces_intercalate {c : Char} (hc : sep c = true) {parts : List Text}
    (h : ∀ part ∈ parts, part ≠ [] ∧ ∀ d ∈ part, sep d = false) :
    pieces sep ([c].intercalate parts) = parts := by
  induction parts with
  | nil => rfl
  | cons part parts ih =>
    obtain ⟨hne, hpart⟩ := h part List.mem_cons_self
    have hrest := ih fun p hp => h p (List.mem_cons_of_mem _ hp)
    cases parts with
    | nil =>
      rw [List.intercalate_singleton]
      exact pieces_of_forall hne hpart
    | cons part' parts =>
      rw [List.intercalate_cons_cons, List.append_assoc, List.singleton_append,
        pieces_append_cons _ _ hc, hrest, pieces_of_forall hne hpart]
      rfl

/-- A piece is not empty and has no separator in it. -/
theorem of_mem_pieces {text part : Text} (h : part ∈ pieces sep text) :
    part ≠ [] ∧ ∀ c ∈ part, sep c = false := by
  obtain ⟨hpart, hne⟩ := List.mem_filter.mp h
  exact ⟨of_decide_eq_true hne, fun c hc => (of_mem_splitOnP hpart c hc).2⟩

/-! ## Words -/

def isBlank (c : Char) : Bool := c = ' ' || c = '\t' || c = '\n'

/-- The words of a text. -/
def words (text : Text) : List Text := pieces isBlank text

/-- A word: not empty, and without blanks. -/
def IsWord (text : Text) : Prop := text ≠ [] ∧ ∀ c ∈ text, isBlank c = false

instance (text : Text) : Decidable (IsWord text) :=
  inferInstanceAs (Decidable (_ ∧ ∀ c ∈ text, _))

theorem IsWord.blank_not_mem {w : Text} (h : IsWord w) : ' ' ∉ w := fun hmem =>
  Bool.false_ne_true ((h.2 ' ' hmem).symm.trans (by decide))

/-- `awk '{print $n}'`, for one line. -/
def field (n : Nat) (line : Text) : Text := ((words line)[n - 1]?).getD []

theorem words_of_isWord {w : Text} (h : IsWord w) : words w = [w] := pieces_of_forall h.1 h.2

theorem words_append_cons {c : Char} (before after : Text) (hc : isBlank c = true) :
    words (before ++ c :: after) = words before ++ words after :=
  pieces_append_cons before after hc

/-- The first word of a line. -/
theorem field_one {w : Text} (h : IsWord w) {c : Char} (hc : isBlank c = true) (rest : Text) :
    field 1 (w ++ c :: rest) = w := by
  unfold field
  rw [words_append_cons _ _ hc, words_of_isWord h]
  rfl

/-- The second word of a line. -/
theorem field_two {v w : Text} (hv : IsWord v) (hw : IsWord w) {c d : Char}
    (hc : isBlank c = true) (hd : isBlank d = true) (rest : Text) :
    field 2 (v ++ c :: (w ++ d :: rest)) = w := by
  unfold field
  rw [words_append_cons _ _ hc, words_append_cons _ _ hd, words_of_isWord hv, words_of_isWord hw]
  rfl

/-! ## Adjacent repetitions -/

/-- `uniq`. -/
def uniq : List Text → List Text
  | a :: b :: ls => if a = b then uniq (b :: ls) else a :: uniq (b :: ls)
  | ls => ls

theorem mem_uniq {ls : List Text} {l : Text} : l ∈ uniq ls ↔ l ∈ ls := by
  fun_induction uniq ls with
  | case1 b ls ih =>
    rw [ih]
    simp
  | case2 a b ls hab ih => simp only [List.mem_cons, ih]
  | case3 ls => rfl

/-! ## Paths -/

/-- The names in a path. -/
def components (path : Text) : List Text := pieces (· = '/') path

/-- The path lies at or below `dir`. -/
def AtOrBelow (dir path : Text) : Prop :=
  (dir.head? = some '/' ↔ path.head? = some '/') ∧ components dir <+: components path

/-- Both texts name the same path. -/
def SamePath (path path' : Text) : Prop :=
  (path.head? = some '/' ↔ path'.head? = some '/') ∧ components path = components path'

instance (dir path : Text) : Decidable (AtOrBelow dir path) :=
  inferInstanceAs (Decidable (_ ∧ _))

instance (path path' : Text) : Decidable (SamePath path path') :=
  inferInstanceAs (Decidable (_ ∧ _))

theorem AtOrBelow.trans {dir path path' : Text} (h : AtOrBelow dir path)
    (h' : AtOrBelow path path') : AtOrBelow dir path' :=
  ⟨h.1.trans h'.1, h.2.trans h'.2⟩

theorem components_append_slashes (dir : Text) {slashes : Text} (h : ∀ c ∈ slashes, c = '/') :
    components (dir ++ slashes) = components dir := by
  induction slashes generalizing dir with
  | nil => rw [List.append_nil]
  | cons c slashes ih =>
    obtain rfl := h c List.mem_cons_self
    unfold components at ih ⊢
    have hrest := ih [] fun d hd => h d (List.mem_cons_of_mem _ hd)
    rw [List.nil_append] at hrest
    rw [pieces_append_cons _ _ (by rfl), hrest, pieces_nil, List.append_nil]

end Anx.Lib
