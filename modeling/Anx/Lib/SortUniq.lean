import Mathlib.Data.Char
import Mathlib.Data.List.DropRight
import Mathlib.Data.List.Induction
import Mathlib.Data.List.Lex
import Mathlib.Data.List.Sort
import Anx.Lib.Words

/-!
# Lists of words in shell variables

Scripts keep lists of words in variables, with blanks or newlines between them, and
work on them as lines.

- `trLines`: the lines of `echo "$text" | tr ' ' '\n'`; `substituted`: lines in `$( )`;
- `sortUniq`, `uniqUnique`: `sort | uniq` and `uniq -u`; `mem_uniqUnique`: the lines that
  are there once;
- `without`: the words of one text that are not in another one, with `sort` and `uniq` only;
  `mem_words_without`.
-/

namespace Anx.Lib

/-! ## Lines of a text -/

/-- The lines of `echo "$text" | tr ' ' '\n'`. -/
def trLines (text : Text) : List Text := text.splitOnP fun c => c = ' ' || c = '\n'

/-- Lines in a command substitution. -/
def substituted (ls : List Text) : Text := (unlines ls).rdropWhile (· = '\n')

theorem trLines_append (before after : Text) :
    trLines (before ++ ' ' :: after) = trLines before ++ trLines after :=
  List.splitOnP_append_cons before after rfl

/-- A text that starts with a separator, or is empty, has an empty line. -/
theorem nil_mem_trLines {text : Text}
    (h : ∀ c ∈ text.head?, c = ' ' ∨ c = '\n') : [] ∈ trLines text := by
  obtain ⟨rest, hrest⟩ := splitOnP_eq_cons (fun c => c = ' ' || c = '\n') text
  have hnil : text.takeWhile (fun c => !(c = ' ' || c = '\n' : Bool)) = [] := by
    cases text with
    | nil => rfl
    | cons c text =>
      have hc : (c = ' ' || c = '\n' : Bool) = true := by simpa using h c rfl
      exact List.takeWhile_cons_of_neg (by simp [hc])
  rw [hnil] at hrest
  rw [trLines, hrest]
  exact List.mem_cons_self

theorem splitOnP_congr {p q : Char → Bool} {text : Text} (h : ∀ c ∈ text, p c = q c) :
    text.splitOnP p = text.splitOnP q := by
  induction text with
  | nil => rfl
  | cons c text ih =>
    rw [List.splitOnP_cons_eq_if_modifyHead, List.splitOnP_cons_eq_if_modifyHead,
      h c List.mem_cons_self, ih fun d hd => h d (List.mem_cons_of_mem _ hd)]

/-- Without tabs the words are the lines that are not empty. -/
theorem mem_words_iff {text w : Text} (htab : '\t' ∉ text) :
    w ∈ words text ↔ w ∈ trLines text ∧ w ≠ [] := by
  have hsplit : text.splitOnP isBlank = trLines text := by
    refine splitOnP_congr fun c hc => ?_
    have hne : c ≠ '\t' := fun heq => htab (heq ▸ hc)
    simp [isBlank, hne]
  rw [words, pieces, hsplit, List.mem_filter, decide_eq_true_iff]

/-- A line without tabs is a word, or empty. -/
theorem words_of_mem_trLines {text l : Text} (htab : '\t' ∉ text) (h : l ∈ trLines text)
    (hne : l ≠ []) : words l = [l] := by
  refine words_of_isWord ⟨hne, fun c hc => ?_⟩
  obtain ⟨hmem, hsep⟩ := of_mem_splitOnP h c hc
  have htab' : c ≠ '\t' := fun heq => htab (heq ▸ hmem)
  simpa [isBlank, htab'] using hsep

/-- The words of lines that are words or empty. -/
theorem flatMap_words {ls : List Text} (h : ∀ l ∈ ls, l ≠ [] → words l = [l]) :
    ls.flatMap words = ls.filter (· ≠ []) := by
  induction ls with
  | nil => rfl
  | cons l ls ih =>
    rw [List.flatMap_cons, ih fun m hm => h m (List.mem_cons_of_mem _ hm)]
    by_cases hl : l = []
    · rw [List.filter_cons_of_neg (by simp [hl]), hl]
      rfl
    · rw [List.filter_cons_of_pos (by simp [hl]), h l List.mem_cons_self hl]
      rfl

theorem words_unlines (ls : List Text) : words (unlines ls) = ls.flatMap words := by
  induction ls with
  | nil => rfl
  | cons l ls ih =>
    have hcons : unlines (l :: ls) = l ++ '\n' :: unlines ls := by simp [unlines]
    rw [hcons, words_append_cons _ _ rfl, ih, List.flatMap_cons]

theorem words_rdropWhile (text : Text) : words (text.rdropWhile (· = '\n')) = words text := by
  induction text using List.reverseRecOn with
  | nil => rfl
  | append_singleton text c ih =>
    by_cases hc : c = '\n'
    · rw [List.rdropWhile_concat_pos _ _ _ (by simpa using hc), ih, words_append_cons _ _ (by
        rw [hc]; rfl)]
      exact (List.append_nil _).symm
    · rw [List.rdropWhile_concat_neg _ _ _ (by simpa using hc)]

/-- The words of lines stay in a command substitution. -/
theorem words_substituted (ls : List Text) : words (substituted ls) = ls.flatMap words := by
  rw [substituted, words_rdropWhile, words_unlines]

theorem tab_not_mem_substituted {ls : List Text} (h : ∀ l ∈ ls, '\t' ∉ l) :
    '\t' ∉ substituted ls := by
  intro hmem
  have hmem := (List.rdropWhile_prefix _ (unlines ls)).subset hmem
  obtain ⟨l, hl, hmem⟩ := List.mem_flatMap.mp hmem
  rcases List.mem_append.mp hmem with hmem | hmem
  · exact h l hl hmem
  · exact absurd (List.mem_singleton.mp hmem) (by decide)

/-! ## `sort` and `uniq` -/

/-- `sort | uniq`. -/
def sortUniq (ls : List Text) : List Text := uniq (ls.insertionSort (· ≤ ·))

/-- `uniq -u`, of the lines behind another one. -/
def uniqUniqueFrom (before : Option Text) : List Text → List Text
  | [] => []
  | l :: ls =>
    if before = some l ∨ ls.head? = some l then uniqUniqueFrom (some l) ls
    else l :: uniqUniqueFrom (some l) ls

/-- `uniq -u`. -/
def uniqUnique (ls : List Text) : List Text := uniqUniqueFrom none ls

theorem mem_sortUniq {ls : List Text} {l : Text} : l ∈ sortUniq ls ↔ l ∈ ls := by
  rw [sortUniq, mem_uniq, List.mem_insertionSort]

/-- Sorted lines without adjacent repetitions are in strict order. -/
theorem uniq_pairwise {ls : List Text} (h : ls.Pairwise (· ≤ ·)) : (uniq ls).Pairwise (· < ·) := by
  fun_induction uniq ls with
  | case1 b ls ih => exact ih (List.pairwise_cons.mp h).2
  | case2 a b ls hab ih =>
    obtain ⟨ha, hls⟩ := List.pairwise_cons.mp h
    refine List.pairwise_cons.mpr ⟨fun c hc => ?_, ih hls⟩
    have hlt : a < b := lt_of_le_of_ne (ha b List.mem_cons_self) hab
    rcases List.mem_cons.mp (mem_uniq.mp hc) with rfl | hc
    · exact hlt
    · exact lt_of_lt_of_le hlt ((List.pairwise_cons.mp hls).1 c hc)
  | case3 ls hls =>
    cases ls with
    | nil => exact List.Pairwise.nil
    | cons a ls =>
      cases ls with
      | nil => exact List.pairwise_singleton _ _
      | cons b ls => exact absurd rfl (hls a b ls)

theorem sortUniq_pairwise (ls : List Text) : (sortUniq ls).Pairwise (· < ·) :=
  uniq_pairwise (List.pairwise_insertionSort _ _)

theorem sortUniq_nodup (ls : List Text) : (sortUniq ls).Nodup :=
  (sortUniq_pairwise ls).imp fun h => ne_of_lt h

/-- The words of a text that has been sorted are its lines that are not empty. -/
theorem words_sortUniq {text : Text} (htab : '\t' ∉ text) :
    words (substituted (sortUniq (trLines text))) =
      (sortUniq (trLines text)).filter (· ≠ []) := by
  rw [words_substituted]
  exact flatMap_words fun l hl hne => words_of_mem_trLines htab (mem_sortUniq.mp hl) hne

theorem mem_words_sortUniq {text w : Text} (htab : '\t' ∉ text) :
    w ∈ words (substituted (sortUniq (trLines text))) ↔ w ∈ words text := by
  rw [words_sortUniq htab, List.mem_filter, mem_sortUniq, decide_eq_true_iff, mem_words_iff htab]

theorem words_sortUniq_nodup {text : Text} (htab : '\t' ∉ text) :
    (words (substituted (sortUniq (trLines text)))).Nodup := by
  rw [words_sortUniq htab]
  exact (sortUniq_nodup _).filter _

theorem tab_not_mem_sortUniq {text : Text} (htab : '\t' ∉ text) :
    '\t' ∉ substituted (sortUniq (trLines text)) :=
  tab_not_mem_substituted fun _ hl hmem =>
    htab (of_mem_splitOnP (mem_sortUniq.mp hl) '\t' hmem).1

/-- An empty line comes first, and is found again behind a command substitution. -/
theorem nil_mem_trLines_sortUniq {ls : List Text} (h : [] ∈ ls) :
    [] ∈ trLines (substituted (sortUniq ls)) := by
  have hmem : [] ∈ sortUniq ls := mem_sortUniq.mpr h
  refine nil_mem_trLines fun c hc => .inr ?_
  cases hls : sortUniq ls with
  | nil => exact absurd (hls ▸ hmem) List.not_mem_nil
  | cons l rest =>
    have hfirst : l = [] := by
      rw [hls] at hmem
      rcases List.mem_cons.mp hmem with heq | hmem
      · exact heq.symm
      · have hlt := (List.pairwise_cons.mp (hls ▸ sortUniq_pairwise ls)).1 [] hmem
        exact absurd hlt (List.not_lt_nil l)
    subst hfirst
    have hprefix : substituted (sortUniq ls) <+: '\n' :: unlines rest := by
      rw [hls]
      exact List.rdropWhile_prefix _ (unlines ([] :: rest))
    cases htext : substituted (sortUniq ls) with
    | nil =>
      rw [htext] at hc
      exact absurd hc (by simp)
    | cons d text =>
      rw [htext] at hc hprefix
      obtain ⟨rfl, -⟩ := List.cons_prefix_cons.mp hprefix
      exact (Option.mem_some_iff.mp hc).symm

/-- In sorted lines `uniq -u` finds what is there once. -/
theorem mem_uniqUniqueFrom {ls : List Text} (h : ls.Pairwise (· ≤ ·)) {before : Option Text}
    (hbefore : ∀ b ∈ before, ∀ l ∈ ls, b ≤ l) (l : Text) :
    l ∈ uniqUniqueFrom before ls ↔ ls.count l = 1 ∧ before ≠ some l := by
  induction ls generalizing before with
  | nil => simp [uniqUniqueFrom]
  | cons a ls ih =>
    obtain ⟨ha, hls⟩ := List.pairwise_cons.mp h
    have ih : l ∈ uniqUniqueFrom (some a) ls ↔ ls.count l = 1 ∧ some a ≠ some l :=
      ih hls fun b hb m hm => by
        cases Option.mem_some_iff.mp hb
        exact ha m hm
    rw [uniqUniqueFrom]
    by_cases hl : l = a
    · subst hl
      -- it is not found behind itself: it has to be found here
      have hnot : l ∉ uniqUniqueFrom (some l) ls := fun hmem => (ih.mp hmem).2 rfl
      have hhead : ls.head? = some l ↔ l ∈ ls := by
        constructor
        · exact List.mem_of_head?
        · intro hmem
          cases ls with
          | nil => exact absurd hmem List.not_mem_nil
          | cons b ls =>
            have hle : b ≤ l := by
              rcases List.mem_cons.mp hmem with rfl | hmem
              · exact le_refl _
              · exact (List.pairwise_cons.mp hls).1 l hmem
            exact congrArg some (le_antisymm hle (ha b List.mem_cons_self))
      have hcount : (l :: ls).count l = 1 ↔ l ∉ ls := by
        rw [List.count_cons_self, Nat.add_eq_right, List.count_eq_zero]
      rw [hcount, ← hhead]
      split
      · next hif =>
        refine ⟨fun hmem => absurd hmem hnot, fun hand => ?_⟩
        rcases hif with hif | hif
        · exact absurd hif hand.2
        · exact absurd hif hand.1
      · next hif =>
        obtain ⟨h₁, h₂⟩ := not_or.mp hif
        exact ⟨fun _ => ⟨h₂, h₁⟩, fun _ => List.mem_cons_self⟩
    · have hcount : (a :: ls).count l = ls.count l := List.count_cons_of_ne (Ne.symm hl)
      have hmem : l ∈ (if before = some a ∨ ls.head? = some a then uniqUniqueFrom (some a) ls
          else a :: uniqUniqueFrom (some a) ls) ↔ l ∈ uniqUniqueFrom (some a) ls := by
        split
        · rfl
        · exact ⟨fun hmem => (List.mem_cons.mp hmem).resolve_left hl, List.mem_cons_of_mem _⟩
      rw [hmem, ih, hcount]
      refine and_congr_right fun hone =>
        ⟨fun _ hb => ?_, fun _ heq => hl (Option.some.inj heq).symm⟩
      -- a line before that comes again has all lines between equal to it
      have hin : l ∈ ls := List.count_pos_iff.mp (by omega)
      exact hl (le_antisymm (hbefore l hb a List.mem_cons_self) (ha l hin))

theorem mem_uniqUnique {ls : List Text} (h : ls.Pairwise (· ≤ ·)) (l : Text) :
    l ∈ uniqUnique ls ↔ ls.count l = 1 := by
  rw [uniqUnique, mem_uniqUniqueFrom h (by simp) l]
  exact and_iff_left (by simp)

/-! ## Words that are not in another text -/

/-- `(echo "$a" | tr ' ' '\n' | sort | uniq; echo "$b" "$b" | tr ' ' '\n') | sort | uniq -u`,
with the newlines as blanks. -/
def without (a b : Text) : Text :=
  (uniqUnique ((sortUniq (trLines a) ++ trLines (b ++ ' ' :: b)).insertionSort (· ≤ ·))).flatMap
    (· ++ [' '])

theorem mem_without (a b l : Text) :
    l ∈ uniqUnique ((sortUniq (trLines a) ++ trLines (b ++ ' ' :: b)).insertionSort (· ≤ ·)) ↔
      l ∈ trLines a ∧ l ∉ trLines b := by
  have hsorted : l ∈ sortUniq (trLines a) ↔ l ∈ trLines a := mem_sortUniq
  rw [mem_uniqUnique (List.pairwise_insertionSort _ _), (List.perm_insertionSort _ _).count_eq,
    List.count_append, trLines_append, List.count_append, ← List.count_eq_zero, ← hsorted]
  by_cases hmem : l ∈ sortUniq (trLines a)
  · rw [List.count_eq_one_of_mem (sortUniq_nodup _) hmem]
    simp only [hmem, true_and]
    omega
  · rw [List.count_eq_zero.mpr hmem]
    simp only [hmem, false_and, iff_false]
    omega

/-- Nothing is left when all lines are in the other text. -/
theorem without_eq_nil_iff (a b : Text) :
    without a b = [] ↔ ∀ l ∈ trLines a, l ∈ trLines b := by
  rw [without, List.flatMap_eq_nil_iff]
  constructor
  · intro h l hl
    by_contra hnot
    exact absurd (h l ((mem_without a b l).mpr ⟨hl, hnot⟩)) (by simp)
  · intro h l hl
    obtain ⟨ha, hb⟩ := (mem_without a b l).mp hl
    exact absurd (h l ha) hb

theorem words_flatMap_blank (ls : List Text) :
    words (ls.flatMap (· ++ [' '])) = ls.flatMap words := by
  induction ls with
  | nil => rfl
  | cons l ls ih =>
    rw [List.flatMap_cons, List.append_assoc, List.singleton_append, words_append_cons _ _ rfl, ih,
      List.flatMap_cons]

theorem uniqUniqueFrom_sublist (before : Option Text) (ls : List Text) :
    (uniqUniqueFrom before ls).Sublist ls := by
  fun_induction uniqUniqueFrom before ls with
  | case1 => exact List.Sublist.refl _
  | case2 before l ls _ ih => exact ih.cons l
  | case3 before l ls _ ih => exact ih.cons_cons l

theorem words_without {a : Text} (ha : '\t' ∉ a) (b : Text) :
    words (without a b) = (uniqUnique ((sortUniq (trLines a) ++
      trLines (b ++ ' ' :: b)).insertionSort (· ≤ ·))).filter (· ≠ []) := by
  rw [without, words_flatMap_blank]
  exact flatMap_words fun l hl hne => words_of_mem_trLines ha ((mem_without a b l).mp hl).1 hne

/-- **The words of one text that are not in the other one.** -/
theorem mem_words_without {a b w : Text} (ha : '\t' ∉ a) (hb : '\t' ∉ b) :
    w ∈ words (without a b) ↔ w ∈ words a ∧ w ∉ words b := by
  rw [words_without ha, List.mem_filter, mem_without, decide_eq_true_iff, mem_words_iff ha,
    mem_words_iff hb]
  constructor
  · rintro ⟨⟨hla, hlb⟩, hne⟩
    exact ⟨⟨hla, hne⟩, fun hmem => hlb hmem.1⟩
  · rintro ⟨⟨hla, hne⟩, hnot⟩
    exact ⟨⟨hla, fun hlb => hnot ⟨hlb, hne⟩⟩, hne⟩

/-- Each of them is there once. -/
theorem words_without_nodup {a : Text} (ha : '\t' ∉ a) (b : Text) :
    (words (without a b)).Nodup := by
  rw [words_without ha]
  refine List.Nodup.filter _ (List.nodup_iff_count_le_one.mpr fun l => ?_)
  by_cases hl : l ∈ uniqUnique ((sortUniq (trLines a) ++
      trLines (b ++ ' ' :: b)).insertionSort (· ≤ ·))
  · have hone := (mem_uniqUnique (List.pairwise_insertionSort _ _) l).mp hl
    exact hone ▸ (uniqUniqueFrom_sublist _ _).count_le l
  · rw [List.count_eq_zero.mpr hl]
    exact Nat.zero_le 1

theorem tab_not_mem_without {a b : Text} (ha : '\t' ∉ a) : '\t' ∉ without a b := by
  intro hmem
  obtain ⟨l, hl, hmem⟩ := List.mem_flatMap.mp hmem
  rcases List.mem_append.mp hmem with hmem | hmem
  · exact ha (of_mem_splitOnP ((mem_without a b l).mp hl).1 '\t' hmem).1
  · exact absurd (List.mem_singleton.mp hmem) (by decide)

end Anx.Lib
