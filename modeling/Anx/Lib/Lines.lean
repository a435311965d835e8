import Mathlib.Data.List.DropRight
import Mathlib.Data.List.TakeWhile

/-!
# Lines and fields of text

Text is a list of characters.

- `readLines`: the lines of a text, each ended by `\n`, `\r` or `\r\n`, the last one
  possibly by the end of the text (`java.io.BufferedReader.readLine`);
- `unlines`: lines, each followed by `\n`; `readLines_unlines` is the round trip;
- `split`: the fields of a line without its trailing empty ones
  (`java.lang.String.split` at a single character); `splitFirst`: two fields;
  `split_intercalate` is the round trip.
-/

namespace Anx.Lib

/-- A text. -/
abbrev Text := List Char

/-- A condition on the characters of a text is decided on the text, also where another
instance would go through all characters there are. -/
instance (priority := 10000) (p : Char → Prop) [DecidablePred p] (l : Text) :
    Decidable (∀ c ∈ l, p c) :=
  List.decidableBAll p l

/-- Equality of texts is decided character by character. -/
instance : LawfulBEq Text := inferInstance

/-- The first of some literals as a text, which takes no decoding. -/
theorem map_toList_cons {name : String} {text : Text} {names : List String} {texts : List Text}
    (hname : name = String.ofList text) (h : names.map String.toList = texts) :
    (name :: names).map String.toList = text :: texts := by
  rw [List.map_cons, h, hname, String.toList_ofList]

/-- The text has no line terminator. -/
def NoBreak (l : Text) : Prop := ∀ c ∈ l, c ≠ '\n' ∧ c ≠ '\r'

instance (l : Text) : Decidable (NoBreak l) :=
  inferInstanceAs (Decidable (∀ c ∈ l, c ≠ '\n' ∧ c ≠ '\r'))

/-- The lines of a text, of which `current` is already read of the first one. -/
def readLinesFrom (current : Text) : Text → List Text
  | [] => if current = [] then [] else [current]
  | '\r' :: '\n' :: rest => current :: readLinesFrom [] rest
  | '\r' :: rest => current :: readLinesFrom [] rest
  | '\n' :: rest => current :: readLinesFrom [] rest
  | c :: rest => readLinesFrom (current ++ [c]) rest

/-- The lines of a text. -/
def readLines (text : Text) : List Text := readLinesFrom [] text

/-- Lines, each followed by a newline. -/
def unlines (ls : List Text) : Text := ls.flatMap (· ++ ['\n'])

@[simp] theorem readLines_nil : readLines [] = [] := rfl

theorem readLinesFrom_append {l : Text} (h : NoBreak l) (current rest : Text) :
    readLinesFrom current (l ++ rest) = readLinesFrom (current ++ l) rest := by
  induction l generalizing current with
  | nil => simp
  | cons c l ih =>
    obtain ⟨hn, hr⟩ := h c List.mem_cons_self
    have hstep : readLinesFrom current (c :: (l ++ rest)) =
        readLinesFrom (current ++ [c]) (l ++ rest) := by
      rw [readLinesFrom]
      · exact fun _ hc => absurd hc hr
      · exact fun hc => absurd hc hr
      · exact fun hc => absurd hc hn
    rw [List.cons_append, hstep, ih fun d hd => h d (List.mem_cons_of_mem _ hd)]
    simp

/-- The first line of a text. -/
theorem readLines_newline {l : Text} (h : NoBreak l) (rest : Text) :
    readLines (l ++ '\n' :: rest) = l :: readLines rest := by
  rw [readLines, readLinesFrom_append h, List.nil_append, readLinesFrom]
  rfl

/-- The last line of a text may lack its newline. -/
theorem readLines_last {l : Text} (h : NoBreak l) (hne : l ≠ []) : readLines l = [l] := by
  have happ := readLinesFrom_append h [] []
  rw [List.append_nil, List.nil_append] at happ
  rw [readLines, happ, readLinesFrom, if_neg hne]

theorem unlines_cons (l : Text) (ls : List Text) :
    unlines (l :: ls) = l ++ '\n' :: unlines ls := by simp [unlines]

/-- Reading back lines, up to a last one that lacks its newline. -/
theorem readLines_unlines_append {ls : List Text} (h : ∀ l ∈ ls, NoBreak l)
    (rest : Text) : readLines (unlines ls ++ rest) = ls ++ readLines rest := by
  induction ls with
  | nil => rfl
  | cons l ls ih =>
    rw [unlines_cons, List.append_assoc, List.cons_append,
      readLines_newline (h l List.mem_cons_self), ih fun l' hl' => h l' (List.mem_cons_of_mem _ hl')]
    rfl

theorem readLines_unlines {ls : List Text} (h : ∀ l ∈ ls, NoBreak l) :
    readLines (unlines ls) = ls := by
  have happ := readLines_unlines_append h []
  rwa [List.append_nil, readLines_nil, List.append_nil] at happ

/-! ## Fields -/

/-- A separator in a text is the first one, or comes after it. -/
theorem eq_or_after_of_append_cons {α : Type*} {sep : α} {a b q r : List α} (ha : sep ∉ a)
    (h : q ++ sep :: r = a ++ sep :: b) :
    (q = a ∧ r = b) ∨ ∃ q', q = a ++ sep :: q' ∧ q' ++ sep :: r = b := by
  rcases List.append_eq_append_iff.mp h with ⟨t, rfl, ht⟩ | ⟨t, rfl, ht⟩
  · cases t with
    | nil => exact .inl ⟨(List.append_nil q).symm, (List.cons_eq_cons.mp ht).2⟩
    | cons c t =>
      obtain ⟨rfl, -⟩ := List.cons_eq_cons.mp ht
      exact absurd (List.mem_append_right q List.mem_cons_self) ha
  · cases t with
    | nil => exact .inl ⟨List.append_nil a, (List.cons_eq_cons.mp ht).2.symm⟩
    | cons c t =>
      obtain ⟨rfl, hb⟩ := List.cons_eq_cons.mp ht
      exact .inr ⟨t, rfl, hb.symm⟩

/-- The fields of `s` between the separators `sep`, without trailing empty ones; a
text without separator is its own only field. -/
def split (sep : Char) (s : Text) : List Text :=
  if sep ∈ s then (s.splitOn sep).rdropWhile (· = []) else [s]

/-- What stands before the first separator. -/
theorem takeWhile_ne_append {α : Type*} [DecidableEq α] {sep : α} {front : List α}
    (h : sep ∉ front) (rest : List α) : (front ++ sep :: rest).takeWhile (· ≠ sep) = front := by
  rw [List.takeWhile_append_of_pos fun c hc => by simpa using ne_of_mem_of_not_mem hc h,
    List.takeWhile_cons_of_neg (by simp), List.append_nil]

/-- What stands behind the last separator. -/
theorem rtakeWhile_ne_append {α : Type*} [DecidableEq α] {sep : α} {back : List α}
    (h : sep ∉ back) (front : List α) :
    (front ++ sep :: back).rtakeWhile (· ≠ sep) = back := by
  have hreverse : (front ++ sep :: back).reverse = back.reverse ++ sep :: front.reverse := by simp
  rw [List.rtakeWhile, hreverse, takeWhile_ne_append (by simpa using h), List.reverse_reverse]

/-- Removing trailing elements stops at an element that stays. -/
theorem rdropWhile_append_cons {α : Type*} {p : α → Bool} (l₁ : List α) (b : α) (l₂ : List α)
    (hb : ¬ p b) : ∃ l', (l₁ ++ b :: l₂).rdropWhile p = l₁ ++ b :: l' := by
  induction l₂ using List.reverseRecOn with
  | nil => exact ⟨[], List.rdropWhile_concat_neg p l₁ b hb⟩
  | append_singleton l x ih =>
    rw [← List.cons_append, ← List.append_assoc]
    by_cases hx : p x
    · obtain ⟨l', hl'⟩ := ih
      exact ⟨l', (List.rdropWhile_concat_pos p (l₁ ++ b :: l) x hx).trans hl'⟩
    · refine ⟨l ++ [x], (List.rdropWhile_concat_neg p (l₁ ++ b :: l) x hx).trans ?_⟩
      rw [List.append_assoc, List.cons_append]

/-- The first piece of a text is what stands before the first separator. -/
theorem splitOnP_eq_cons {α : Type*} (p : α → Bool) (s : List α) :
    ∃ pieces, s.splitOnP p = s.takeWhile (fun c => !p c) :: pieces := by
  induction s with
  | nil => exact ⟨[], rfl⟩
  | cons c s ih =>
    obtain ⟨pieces, hp⟩ := ih
    rw [List.splitOnP_cons_eq_if_modifyHead]
    by_cases hc : p c = true
    · exact ⟨s.splitOnP p, by simp [hc]⟩
    · exact ⟨pieces, by simp [hc, hp]⟩

/-- A piece of a text has characters of the text that are no separators. -/
theorem of_mem_splitOnP {α : Type*} {p : α → Bool} {s piece : List α} (h : piece ∈ s.splitOnP p) :
    ∀ c ∈ piece, c ∈ s ∧ p c = false := by
  induction s generalizing piece with
  | nil =>
    rw [List.splitOnP_nil, List.mem_singleton] at h
    simp [h]
  | cons d s ih =>
    have hrest : ∀ piece ∈ s.splitOnP p, ∀ c ∈ piece, c ∈ d :: s ∧ p c = false :=
      fun piece hpiece c hc => ⟨List.mem_cons_of_mem _ (ih hpiece c hc).1, (ih hpiece c hc).2⟩
    rw [List.splitOnP_cons_eq_if_modifyHead] at h
    split at h
    · rcases List.mem_cons.mp h with rfl | h
      · simp
      · exact hrest piece h
    · next hd =>
      obtain ⟨first, pieces, hfirst⟩ := List.exists_cons_of_ne_nil (List.splitOnP_ne_nil p s)
      rw [hfirst, List.modifyHead_cons] at h
      rcases List.mem_cons.mp h with rfl | h
      · exact List.forall_mem_cons.mpr
          ⟨⟨List.mem_cons_self, by simpa using hd⟩, hrest first (hfirst ▸ List.mem_cons_self)⟩
      · exact hrest piece (hfirst ▸ List.mem_cons_of_mem _ h)

/-- No piece of a text has a separator in it. -/
theorem not_mem_of_mem_splitOnP {α : Type*} {p : α → Bool} {sep : α} (hsep : p sep = true)
    {s piece : List α} (h : piece ∈ s.splitOnP p) : sep ∉ piece :=
  fun hmem => Bool.false_ne_true ((of_mem_splitOnP h sep hmem).2.symm.trans hsep)

/-- A key, a separator and a field that starts with another character. -/
theorem split_pair {sep : Char} {key : Text} (field : Text) (hkey : sep ∉ key)
    (hfield : field.takeWhile (· ≠ sep) ≠ []) :
    ∃ fields, split sep (key ++ sep :: field) = key :: field.takeWhile (· ≠ sep) :: fields := by
  obtain ⟨fields, hf⟩ : ∃ fields, field.splitOn sep = field.takeWhile (· ≠ sep) :: fields := by
    have hp : (fun c => !(c == sep)) = fun c => decide (c ≠ sep) := by
      funext c
      by_cases hc : c = sep <;> simp [hc]
    exact hp ▸ splitOnP_eq_cons (· == sep) field
  have hsplit : (key ++ sep :: field).splitOn sep = key :: field.splitOn sep := by
    rw [List.splitOn_eq_splitOnP]
    exact List.splitOnP_append_cons_of_forall_mem
      (fun c hc => by simpa using ne_of_mem_of_not_mem hc hkey) sep (by simp) field
  obtain ⟨rest, hrest⟩ := rdropWhile_append_cons (p := fun f => f = []) [key]
    (field.takeWhile (· ≠ sep)) fields (by simpa using hfield)
  refine ⟨rest, ?_⟩
  rw [split, if_pos (by simp), hsplit, hf]
  exact hrest

/-- `split(sep, 2)`: what stands before the first separator, and what stands after it. -/
def splitFirst (sep : Char) : Text → Text × Option Text
  | [] => ([], none)
  | c :: s => if c = sep then ([], some s) else (splitFirst sep s).map (c :: ·) id

theorem splitFirst_of_not_mem {sep : Char} {s : Text} (h : sep ∉ s) :
    splitFirst sep s = (s, none) := by
  induction s with
  | nil => rfl
  | cons c s ih =>
    simp only [List.mem_cons, not_or] at h
    rw [splitFirst, if_neg (Ne.symm h.1), ih h.2]
    rfl

theorem splitFirst_append_cons {sep : Char} {before : Text} (h : sep ∉ before) (after : Text) :
    splitFirst sep (before ++ sep :: after) = (before, some after) := by
  induction before with
  | nil => exact if_pos rfl
  | cons c before ih =>
    simp only [List.mem_cons, not_or] at h
    rw [List.cons_append, splitFirst, if_neg (Ne.symm h.1), ih h.2]
    rfl

/-! ## Joined texts -/

/-- A joined text starts with its first part. -/
theorem prefix_intercalate {α : Type*} (sep first : List α) (parts : List (List α)) :
    first <+: sep.intercalate (first :: parts) := by
  cases parts with
  | nil =>
    simp [List.intercalate_singleton]
  | cons part parts =>
    rw [List.intercalate_cons_cons, List.append_assoc]
    exact List.prefix_append _ _

/-- It is not empty if its parts are not. -/
theorem intercalate_ne_nil {sep : Char} {parts : List Text} (hne : parts ≠ [])
    (h : ∀ part ∈ parts, part ≠ []) : [sep].intercalate parts ≠ [] := by
  obtain ⟨part, parts, rfl⟩ := List.exists_cons_of_ne_nil hne
  intro hnil
  have hprefix := prefix_intercalate [sep] part parts
  rw [hnil, List.prefix_nil] at hprefix
  exact h part List.mem_cons_self hprefix

/-- A joined text has only what its parts and the separator have. -/
theorem not_mem_intercalate {α : Type*} {c : α} {sep : List α} (hsep : c ∉ sep)
    {parts : List (List α)} (h : ∀ part ∈ parts, c ∉ part) : c ∉ sep.intercalate parts := by
  induction parts with
  | nil => simp
  | cons part parts ih =>
    have hrest := ih fun p hp => h p (List.mem_cons_of_mem _ hp)
    cases parts with
    | nil => simpa using h part List.mem_cons_self
    | cons part' parts =>
      rw [List.intercalate_cons_cons]
      simp [h part List.mem_cons_self, hsep, hrest]

/-- Fields that are joined by the separator are found again. -/
theorem split_intercalate {sep : Char} {parts : List Text} (hne : parts ≠ [])
    (h : ∀ part ∈ parts, part ≠ [] ∧ sep ∉ part) :
    split sep ([sep].intercalate parts) = parts := by
  have hsplit : ([sep].intercalate parts).splitOn sep = parts :=
    List.splitOn_intercalate sep (fun part hpart => (h part hpart).2) hne
  unfold split
  split
  · -- no part is empty, so none is removed
    rw [hsplit, List.rdropWhile_eq_self_iff]
    intro hparts
    simpa using (h _ (List.getLast_mem hparts)).1
  · next hsep =>
    rw [List.splitOn_eq_splitOnP, List.splitOnP_eq_singleton fun c hc => by
      simpa using ne_of_mem_of_not_mem hc hsep] at hsplit
    exact hsplit

end Anx.Lib
