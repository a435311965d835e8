import Mathlib.Data.List.Infix
import Anx.Lib.Lines

/-!
# Files of lines

Files as `grep`, `sed` and `>>` see them: lines with a newline behind each of them, but for the
last line of some files.

- `EndsLine`, `fileLines`: a file that ends with a newline, and the lines of a file;
- `editLines`: a file whose lines are edited, as `sed -i` does it;
- `fileLines_append`: a line that is added to a file comes after its lines, **if the file is
  terminated**;
- `editLines_eq`, `splitOn_editLines`: what is edited, and the lines afterwards;
- `removeWord`, `removeWord_of_not_infix`: a text without the places where a word stands.
-/

namespace Anx.Lib

/-- The file ends with a newline, or is empty. -/
def EndsLine (content : Text) : Prop := content = [] ∨ content.getLast? = some '\n'

instance (content : Text) : Decidable (EndsLine content) :=
  inferInstanceAs (Decidable (_ ∨ _))

/-- The lines of a file. -/
def fileLines (content : Text) : List Text :=
  if EndsLine content then (content.splitOn '\n').dropLast else content.splitOn '\n'

/-- The file with its lines edited. A last line without a newline does not get one. -/
def editLines (edit : List Text → List Text) (content : Text) : Text :=
  if EndsLine content then unlines (edit (fileLines content))
  else ['\n'].intercalate (edit (fileLines content))

variable {content line : Text}

theorem EndsLine.append_line (content line : Text) :
    EndsLine (content ++ (line ++ ['\n'])) := .inr (by simp)

/-- Behind the last newline stands an empty text. -/
theorem splitOn_of_endsLine (h : EndsLine content) :
    content.splitOn '\n' = fileLines content ++ [[]] := by
  have hlast : ∃ front, content.splitOn '\n' = front ++ [[]] := by
    rcases h with rfl | hlast
    · exact ⟨[], rfl⟩
    · obtain ⟨front, rfl⟩ := List.getLast?_eq_some_iff.mp hlast
      exact ⟨front.splitOn '\n', List.splitOn_append_cons_self front []⟩
  obtain ⟨front, hfront⟩ := hlast
  rw [fileLines, if_pos h, hfront, List.dropLast_concat]

theorem fileLines_of_not_endsLine (h : ¬ EndsLine content) :
    fileLines content = content.splitOn '\n' := if_neg h

/-- A part between newlines is a line, if it is not empty. -/
theorem mem_fileLines_of_mem_splitOn (h : line ∈ content.splitOn '\n') (hne : line ≠ []) :
    line ∈ fileLines content := by
  by_cases hterminated : EndsLine content
  · rw [splitOn_of_endsLine hterminated] at h
    exact (List.mem_append.mp h).resolve_right fun hlast => hne (List.mem_singleton.mp hlast)
  · rwa [fileLines_of_not_endsLine hterminated]

theorem newline_not_mem_of_mem_splitOn (h : line ∈ content.splitOn '\n') : '\n' ∉ line := by
  rw [List.splitOn_eq_splitOnP] at h
  exact not_mem_of_mem_splitOnP (by simp) h

/-- **A line that is added** to a terminated file. -/
theorem fileLines_append (h : EndsLine content) (hline : '\n' ∉ line) :
    fileLines (content ++ (line ++ ['\n'])) = fileLines content ++ [line] := by
  have hsplit : (content ++ (line ++ ['\n'])).splitOn '\n' =
      fileLines content ++ [line] ++ [[]] := by
    have hlast : (line ++ ['\n']).splitOn '\n' = [line, []] := by
      rw [List.splitOn_append_cons_self_of_not_mem hline]
      rfl
    rcases h with rfl | hend
    · exact hlast
    · obtain ⟨front, rfl⟩ := List.getLast?_eq_some_iff.mp hend
      have hlines : fileLines (front ++ ['\n']) = front.splitOn '\n' := by
        rw [fileLines, if_pos (.inr hend), List.splitOn_append_cons_self]
        exact List.dropLast_concat
      rw [hlines, List.append_assoc, List.singleton_append, List.splitOn_append_cons_self, hlast]
      simp
  have hterminated := splitOn_of_endsLine (EndsLine.append_line content line)
  exact (List.append_cancel_right (hterminated.symm.trans hsplit))

/-- An edit that leaves an empty line at the end as it is. -/
def KeepsEnd (edit : List Text → List Text) : Prop :=
  ∀ lines, edit (lines ++ [[]]) = edit lines ++ [[]]

/-- The parts between newlines are edited. -/
theorem editLines_eq {edit : List Text → List Text} (hedit : KeepsEnd edit) (content : Text) :
    editLines edit content = ['\n'].intercalate (edit (content.splitOn '\n')) := by
  have hunlines : ∀ lines : List Text, unlines lines = ['\n'].intercalate (lines ++ [[]]) := by
    intro lines
    induction lines with
    | nil => rfl
    | cons line lines ih =>
      obtain ⟨next, rest, hnext⟩ : ∃ next rest, lines ++ [[]] = next :: rest :=
        List.exists_cons_of_ne_nil (by simp)
      rw [unlines_cons, ih, List.cons_append, hnext, List.intercalate_cons_cons]
      simp
  unfold editLines
  split
  · next h => rw [splitOn_of_endsLine h, hedit, hunlines]
  · next h => rw [fileLines_of_not_endsLine h]

/-- What stands between the newlines of the edited file. -/
theorem splitOn_editLines {edit : List Text → List Text} (hedit : KeepsEnd edit)
    (hne : edit (content.splitOn '\n') ≠ [])
    (hlines : ∀ line ∈ edit (content.splitOn '\n'), '\n' ∉ line) :
    (editLines edit content).splitOn '\n' = edit (content.splitOn '\n') := by
  rw [editLines_eq hedit]
  exact List.splitOn_intercalate '\n' hlines hne

theorem keepsEnd_map {f : Text → Text} (hf : f [] = []) : KeepsEnd (List.map f) := by
  intro lines
  rw [List.map_append, List.map_singleton, hf]

/-- An edit of single lines, made twice. -/
theorem editLines_map_twice {f : Text → Text} (hf : f [] = [])
    (hlines : ∀ line ∈ content.splitOn '\n', '\n' ∉ f line ∧ f (f line) = f line) :
    editLines (List.map f) (editLines (List.map f) content) = editLines (List.map f) content := by
  have hsplit : (editLines (List.map f) content).splitOn '\n' = (content.splitOn '\n').map f := by
    refine splitOn_editLines (keepsEnd_map hf) ?_ ?_
    · simp
    · intro line hline
      obtain ⟨line', hline', rfl⟩ := List.mem_map.mp hline
      exact (hlines line' hline').1
  rw [editLines_eq (keepsEnd_map hf), hsplit, editLines_eq (keepsEnd_map hf), List.map_map]
  congr 1
  exact List.map_congr_left fun line hline => (hlines line hline).2

/-! ## Removing a word -/

/-- `s/word//g`, for one line. The number counts the characters of the word that are left. -/
def removeWord (word : Text) : Nat → Text → Text
  | _, [] => []
  | n + 1, _ :: s => removeWord word n s
  | 0, c :: s =>
    if word <+: c :: s then removeWord word (word.length - 1) s else c :: removeWord word 0 s

theorem removeWord_subset {word : Text} {n : Nat} {s : Text} : removeWord word n s ⊆ s := by
  fun_induction removeWord word n s with
  | case1 n => exact List.Subset.refl _
  | case2 n c s ih => exact List.subset_cons_of_subset c ih
  | case3 c s _ ih => exact List.subset_cons_of_subset c ih
  | case4 c s _ ih => exact List.cons_subset_cons c ih

theorem removeWord_of_not_infix {word s : Text} (h : ¬ word <:+: s) : removeWord word 0 s = s := by
  induction s with
  | nil => rfl
  | cons c s ih =>
    have hstart : ¬ word <+: c :: s := fun hprefix => h hprefix.isInfix
    have hrest : ¬ word <:+: s := fun hpart => h (hpart.trans (List.suffix_cons c s).isInfix)
    rw [removeWord, if_neg hstart, ih hrest]

end Anx.Lib
