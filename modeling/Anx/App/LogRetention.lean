import Anx.App.Logger
import Mathlib.Data.List.DropRight

/-!
# How many lines the log keeps

`appendMessage` compares `maxLines` with the number of lines from before the unfinished last
one is taken back. A message that goes on with that line removes one line too many.

- `Message`, `appendMessages`: messages that arrive one after the other;
- `unlimited`: the same without a limit, which is what every high enough limit gives;
- `Retains`: after every message, the last lines of the unlimited log;
- `KeepsRoom`: a message that goes on with a line leaves less than `maxLines` lines;
- `appendMessages_length_le`: **the limit is never exceeded**;
- `retains_iff`: **the last lines are shown exactly if `KeepsRoom`.**
-/

namespace Anx.App

open Anx.Lib

/-- A message, with the preference and the clock when it arrives. -/
structure Message where
  timestamp : Bool
  getTimeStamp : Nat → JString
  text : JString

/-- The settings for a message. -/
def Message.settings (m : Message) (maxLines : Nat) : Settings :=
  ⟨m.timestamp, maxLines, m.getTimeStamp⟩

/-- `appendMessage`, for one message after the other. -/
def appendMessages (maxLines : Nat) (ms : List Message) (s : Logger) : Logger :=
  ms.foldl (fun s m => appendMessage (m.settings maxLines) m.text s) s

/-- The next message goes on with the last line. -/
def Logger.joins (s : Logger) : Bool := s.protocol.length > 0 && s.lastChar ≠ newline

theorem Logger.pos_of_joins {s : Logger} (h : s.joins = true) : 0 < s.protocol.length :=
  of_decide_eq_true (Bool.and_eq_true_iff.mp h).1

namespace Message

variable (m : Message)

/-- The lines as they are shown, from number `i` on. -/
def shown (i : Nat) (lines : List JString) : List JString :=
  lines.mapIdx fun k line => if m.timestamp then m.getTimeStamp (i + k) ++ line else line

/-- The text that is split. -/
def out (s : Logger) : JString := if s.joins then s.lastLine ++ m.text else m.text

/-- A message is appended, and nothing is removed but the line that it goes on with. -/
def appended (s : Logger) : Logger :=
  if m.text = [] then s
  else
    { protocol := (if s.joins then s.protocol.dropLast else s.protocol) ++
        m.shown 0 (split (m.out s))
      lastChar := (m.out s).getLastD newline
      lastLine := (split (m.out s)).getLastD s.lastLine }

end Message

/-- The log without a limit. -/
def unlimited (ms : List Message) (s : Logger) : Logger := ms.foldl (fun s m => m.appended s) s

/-- After every message, the last `maxLines` lines are there, or all of them. -/
def Retains (maxLines : Nat) (ms : List Message) (s : Logger) : Prop :=
  ∀ received, received <+: ms → (appendMessages maxLines received s).protocol =
    (unlimited received s).protocol.rtake maxLines

/-- The number of lines after `msg`, when the text `u` before it has made `n` lines. -/
def lineCount (u : JString) (n : Nat) (msg : JString) : Nat :=
  if Unfinished newline u then n + ((parts newline msg).length - 1)
  else n + (parts newline msg).length

/-- A message that goes on with a line leaves less than `maxLines` lines, when the text `u`
before has made `n` lines. -/
def KeepsRoom (maxLines : Nat) : JString → Nat → List JString → Prop
  | _, _, [] => True
  | u, n, msg :: msgs =>
    (Unfinished newline u → msg ≠ [] → lineCount u n msg < maxLines) ∧
      KeepsRoom maxLines (u ++ msg) (lineCount u n msg) msgs

instance decidableKeepsRoom (maxLines : Nat) :
    (u : JString) → (n : Nat) → (msgs : List JString) → Decidable (KeepsRoom maxLines u n msgs)
  | _, _, [] => isTrue trivial
  | u, n, msg :: msgs =>
    have : Decidable (KeepsRoom maxLines (u ++ msg) (lineCount u n msg) msgs) :=
      decidableKeepsRoom maxLines (u ++ msg) (lineCount u n msg) msgs
    inferInstanceAs (Decidable (_ ∧ _))

variable {maxLines n : Nat} {m : Message} {ms : List Message} {s : Logger} {u : JString}

/-! ## One message -/

@[simp] theorem Message.length_shown (i : Nat) (lines : List JString) :
    (m.shown i lines).length = lines.length := List.length_mapIdx

theorem Message.shown_cons (i : Nat) (line : JString) (lines : List JString) :
    m.shown i (line :: lines) =
      (if m.timestamp then m.getTimeStamp i ++ line else line) :: m.shown (i + 1) lines := by
  unfold shown
  rw [List.mapIdx_cons]
  simp only [Nat.add_zero, Nat.add_right_comm, Nat.add_assoc]

/-- The loop removes a line for each that is added beyond the limit, counted from `size`. -/
theorem addLines_protocol (size i : Nat) (lines : List JString) (s : Logger) :
    (addLines (m.settings maxLines) size i lines s).protocol =
      (s.protocol ++ m.shown i lines).drop
        (min lines.length (size + i + lines.length - maxLines)) := by
  induction lines generalizing i s with
  | nil => simp [addLines, Message.shown]
  | cons line lines ih =>
    rw [addLines, ih, Message.shown_cons, List.length_cons]
    by_cases hfull : maxLines ≤ size + i
    · -- the first line goes, and one for each of the others
      have hmax : ((size + i : Nat) : Int) ≥ (m.settings maxLines).maxLines :=
        Int.ofNat_le.mpr hfull
      have hrest : min lines.length (size + (i + 1) + lines.length - maxLines) = lines.length := by
        omega
      have hall : min (lines.length + 1) (size + i + (lines.length + 1) - maxLines) =
          1 + lines.length := by omega
      rw [if_pos hmax, hrest, hall, ← List.drop_one, ← List.drop_drop,
        ← List.drop_append_of_le_length (by simp), List.append_assoc]
      rfl
    · have hmax : ¬ ((size + i : Nat) : Int) ≥ (m.settings maxLines).maxLines :=
        fun h => hfull (Int.ofNat_le.mp h)
      have hsame : min lines.length (size + (i + 1) + lines.length - maxLines) =
          min (lines.length + 1) (size + i + (lines.length + 1) - maxLines) := by omega
      rw [if_neg hmax, hsame, List.append_assoc]
      rfl

/-- The number of lines that are removed at the front. -/
def Message.removed (m : Message) (maxLines : Nat) (s : Logger) : Nat :=
  min (split (m.out s)).length (s.protocol.length + (split (m.out s)).length - maxLines)

/-- **One message**: as without a limit, but for the lines that are removed. -/
theorem appendMessage_eq (hne : m.text ≠ []) (s : Logger) :
    appendMessage (m.settings maxLines) m.text s = { m.appended s with
      protocol := (m.appended s).protocol.drop (m.removed maxLines s) } := by
  have hlength : ¬ m.text.length = 0 := by simpa using hne
  have hprotocol := @addLines_protocol maxLines m s.protocol.length 0
    (split (m.out s)) { s with
      protocol := if s.joins then s.protocol.dropLast else s.protocol
      lastChar := (m.out s).getLastD newline }
  rw [appendMessage, if_neg hlength, Message.appended, if_neg hne]
  show addLines _ _ _ (split (m.out s)) _ = _
  exact (Logger.mk.injEq ..).mpr
    ⟨hprotocol, addLines_lastChar _ _ _ _, addLines_lastLine _ _ _ _⟩

/-- Without enough lines nothing is removed. -/
theorem appendMessage_of_room (hroom : s.protocol.length + (split (m.out s)).length ≤ maxLines) :
    appendMessage (m.settings maxLines) m.text s = m.appended s := by
  by_cases hne : m.text = []
  · rw [appendMessage, if_pos (by simp [hne]), Message.appended, if_pos hne]
  · have hnone : m.removed maxLines s = 0 := by
      rw [Message.removed]
      omega
    rw [appendMessage_eq hne, hnone, List.drop_zero]

/-- **Every high enough limit** gives the log without a limit. -/
theorem appendMessages_unlimited (ms : List Message) (s : Logger) :
    ∃ enough, ∀ maxLines, enough ≤ maxLines → appendMessages maxLines ms s = unlimited ms s := by
  induction ms generalizing s with
  | nil => exact ⟨0, fun _ _ => rfl⟩
  | cons m ms ih =>
    obtain ⟨enough, henough⟩ := ih (m.appended s)
    refine ⟨max (s.protocol.length + (split (m.out s)).length) enough, fun maxLines hmax => ?_⟩
    have hfirst := appendMessage_of_room (m := m) (le_trans (le_max_left _ _) hmax)
    show appendMessages maxLines ms (appendMessage (m.settings maxLines) m.text s) = _
    rw [hfirst]
    exact henough maxLines (le_trans (le_max_right _ _) hmax)

theorem length_appended (hne : m.text ≠ []) : (m.appended s).protocol.length =
    (if s.joins then s.protocol.length - 1 else s.protocol.length) +
      (split (m.out s)).length := by
  rw [Message.appended, if_neg hne, List.length_append, Message.length_shown]
  split
  · rw [List.length_dropLast]
  · rfl

/-- **The limit is never exceeded.** -/
theorem appendMessages_length_le (ms : List Message) (h : s.protocol.length ≤ maxLines) :
    (appendMessages maxLines ms s).protocol.length ≤ maxLines := by
  induction ms generalizing s with
  | nil => exact h
  | cons m ms ih =>
    refine ih ?_
    show (appendMessage (m.settings maxLines) m.text s).protocol.length ≤ maxLines
    by_cases hne : m.text = []
    · rwa [appendMessage, if_pos (by simp [hne])]
    · have hlength := length_appended (s := s) hne
      rw [appendMessage_eq hne, List.length_drop, Message.removed, hlength]
      split <;> omega

/-! ## The text that has been received -/

/-- The log without a limit goes with the text `u`, which makes `n` lines. -/
structure Received (s : Logger) (u : JString) (n : Nat) : Prop where
  length : s.protocol.length = n
  joins : s.joins = true ↔ Unfinished newline u
  lastLine : Unfinished newline u → s.lastLine ≠ [] ∧ newline ∉ s.lastLine

theorem received_nil (h : s.protocol = []) : Received s [] 0 :=
  ⟨by simp [h], by simp [Logger.joins, h, Unfinished], by simp [Unfinished]⟩

theorem Message.out_eq_append (m : Message) (s : Logger) : ∃ w, m.out s = w ++ m.text := by
  unfold out
  split
  · exact ⟨s.lastLine, rfl⟩
  · exact ⟨[], rfl⟩

/-- The number of lines of the text that is split. -/
theorem Received.length_split (h : Received s u n) (hne : m.text ≠ []) :
    (split (m.out s)).length =
      if Unfinished newline u then (parts newline m.text).length - 1 + 1
      else (parts newline m.text).length := by
  unfold Message.out
  by_cases hopen : Unfinished newline u
  · obtain ⟨hline, hnew⟩ := h.lastLine hopen
    rw [if_pos (h.joins.mpr hopen), if_pos hopen, split_eq_parts (by simp [hne]),
      parts_append_of_not_mem hline hnew]
    cases parts newline m.text <;> simp
  · rw [if_neg (mt h.joins.mp hopen), if_neg hopen, split_eq_parts hne]

/-- What one message does to the log without a limit. -/
theorem Received.append (h : Received s u n) (hne : m.text ≠ []) :
    Received (m.appended s) (u ++ m.text) (lineCount u n m.text) := by
  obtain ⟨w, hout⟩ := m.out_eq_append s
  have hlast : (m.out s).getLast? = m.text.getLast? := by
    rw [hout, getLast?_append_of_ne_nil hne]
  have hsplit : split (m.out s) = parts newline (m.out s) := split_eq_parts (by simp [hout, hne])
  refine ⟨?_, ?_, ?_⟩
  · rw [length_appended hne, h.length_split hne, lineCount, h.length]
    by_cases hopen : Unfinished newline u
    · have hjoins := h.joins.mpr hopen
      have hpos : 0 < n := h.length ▸ Logger.pos_of_joins hjoins
      rw [if_pos hjoins, if_pos hopen, if_pos hopen]
      omega
    · rw [if_neg (mt h.joins.mp hopen), if_neg hopen, if_neg hopen]
  · have hlastChar : (m.appended s).lastChar = m.text.getLast hne := by
      rw [Message.appended, if_neg hne]
      show (m.out s).getLastD newline = _
      rw [List.getLastD_eq_getLast?, hlast, List.getLast?_eq_some_getLast hne]
      rfl
    have hopen : Unfinished newline m.text ↔ m.text.getLast hne ≠ newline := by
      simp [Unfinished, List.getLast?_eq_some_getLast hne]
    rw [unfinished_append hne, Logger.joins, hlastChar, Bool.and_eq_true_iff,
      decide_eq_true_iff, decide_eq_true_iff, ← hopen, and_iff_right_iff_imp]
    -- within a line there is at least this one
    intro hopen
    have hout' : Unfinished newline (m.out s) := by rwa [hout, unfinished_append hne]
    obtain ⟨before, line, -, -, hparts, -⟩ := parts_unfinished hout'
    rw [length_appended hne, hsplit, hparts, List.length_append, List.length_singleton]
    omega
  · intro hopen
    rw [unfinished_append hne] at hopen
    have hopen' : Unfinished newline (m.out s) := by rwa [hout, unfinished_append hne]
    obtain ⟨before, line, hline, hnew, hparts, -⟩ := parts_unfinished hopen'
    rw [Message.appended, if_neg hne]
    show (split (m.out s)).getLastD _ ≠ [] ∧ newline ∉ (split (m.out s)).getLastD _
    rw [hsplit, hparts, List.getLastD_concat]
    exact ⟨hline, hnew⟩

/-! ## With and without a limit -/

/-- The limited log `s` has the last lines of the unlimited one. -/
structure Retained (maxLines : Nat) (s s' : Logger) : Prop where
  protocol : s.protocol = s'.protocol.rtake maxLines
  lastChar : s.lastChar = s'.lastChar
  lastLine : s.lastLine = s'.lastLine

section

variable {s' : Logger}

theorem Retained.length (h : Retained maxLines s s') :
    s.protocol.length = min s'.protocol.length maxLines := by
  rw [h.protocol, List.rtake, List.length_drop]
  omega

/-- As long as one line is kept, the next message goes on with the same one. -/
theorem Retained.joins (hmax : 1 ≤ maxLines) (h : Retained maxLines s s') : s.joins = s'.joins := by
  have hpos : 0 < s.protocol.length ↔ 0 < s'.protocol.length := by
    rw [h.length]
    omega
  rw [Logger.joins, Logger.joins, h.lastChar, decide_eq_decide.mpr hpos]

theorem Retained.out (hmax : 1 ≤ maxLines) (h : Retained maxLines s s') : m.out s = m.out s' := by
  rw [Message.out, Message.out, h.joins hmax, h.lastLine]

/-- What the limited log has after a message, in terms of the unlimited one. -/
theorem Retained.appended (hmax : 1 ≤ maxLines) (h : Retained maxLines s s') (hne : m.text ≠ []) :
    (m.appended s).protocol =
      (m.appended s').protocol.drop (s'.protocol.length - maxLines) := by
  rw [Message.appended, Message.appended, if_neg hne, if_neg hne, h.out hmax, h.joins hmax,
    h.protocol, List.rtake]
  dsimp only
  by_cases hjoins : s'.joins = true
  · -- the last line is not among those that are missing
    have hpos := Logger.pos_of_joins hjoins
    rw [if_pos hjoins, if_pos hjoins, List.drop_append_of_le_length,
      List.dropLast_drop_eq_drop_dropLast]
    rw [List.length_dropLast]
    omega
  · rw [if_neg hjoins, if_neg hjoins, List.drop_append_of_le_length (Nat.sub_le _ _)]

/-- **One message**: the last lines are there, unless it goes on with a line and there are
`maxLines` lines then; in that case one line is missing. -/
theorem Retained.append (hmax : 1 ≤ maxLines) (h : Retained maxLines s s')
    (hreceived : Received s' u n) (hne : m.text ≠ []) :
    ((Unfinished newline u → lineCount u n m.text < maxLines) →
        Retained maxLines (appendMessage (m.settings maxLines) m.text s) (m.appended s')) ∧
      (¬ (Unfinished newline u → lineCount u n m.text < maxLines) →
        (appendMessage (m.settings maxLines) m.text s).protocol.length + 1 = maxLines) := by
  have hcount := (hreceived.append hne).length
  have hlength := length_appended (s := s') hne
  have hsplit := hreceived.length_split hne
  have hremoved : m.removed maxLines s = min (split (m.out s')).length
      (min s'.protocol.length maxLines + (split (m.out s')).length - maxLines) := by
    rw [Message.removed, h.out hmax, h.length]
  -- the same lines are missing at the front
  have hkeeps : s'.protocol.length - maxLines + m.removed maxLines s =
      (m.appended s').protocol.length - maxLines → Retained maxLines
        (appendMessage (m.settings maxLines) m.text s) (m.appended s') := by
    intro hdrop
    rw [appendMessage_eq hne]
    refine ⟨?_, ?_, ?_⟩
    · show (m.appended s).protocol.drop _ = _
      rw [h.appended hmax hne, List.drop_drop, hdrop, List.rtake]
    · show (m.appended s).lastChar = _
      rw [Message.appended, Message.appended, if_neg hne, if_neg hne, h.out hmax]
    · show (m.appended s).lastLine = _
      rw [Message.appended, Message.appended, if_neg hne, if_neg hne, h.out hmax, h.lastLine]
  by_cases hopen : Unfinished newline u
  · have hjoins := hreceived.joins.mpr hopen
    have hpos := Logger.pos_of_joins hjoins
    rw [if_pos hjoins] at hlength
    rw [if_pos hopen] at hsplit
    constructor
    · intro hroom
      have hroom := hroom hopen
      exact hkeeps (by omega)
    · intro hfull
      have hfull : maxLines ≤ lineCount u n m.text := Nat.le_of_not_lt fun h => hfull fun _ => h
      rw [appendMessage_eq hne, h.appended hmax hne]
      simp only [List.length_drop]
      omega
  · rw [if_neg (mt hreceived.joins.mp hopen)] at hlength
    exact ⟨fun _ => hkeeps (by omega), fun hnot => absurd (fun h => absurd h hopen) hnot⟩

end

/-! ## All messages -/

/-- **All messages**, from states with the last lines in common. -/
theorem Retained.run_iff {s' : Logger} (hmax : 1 ≤ maxLines) (h : Retained maxLines s s')
    (hreceived : Received s' u n) :
    (∀ received, received <+: ms → (appendMessages maxLines received s).protocol =
      (unlimited received s').protocol.rtake maxLines) ↔
      KeepsRoom maxLines u n (ms.map Message.text) := by
  induction ms generalizing s s' u n with
  | nil =>
    refine iff_of_true (fun received hprefix => ?_) trivial
    rw [List.prefix_nil.mp hprefix]
    exact h.protocol
  | cons m ms ih =>
    have hcons : (∀ received, received <+: m :: ms → (appendMessages maxLines received s).protocol =
        (unlimited received s').protocol.rtake maxLines) ↔
        ∀ received, received <+: ms → (appendMessages maxLines received
          (appendMessage (m.settings maxLines) m.text s)).protocol =
            (unlimited received (m.appended s')).protocol.rtake maxLines := by
      constructor
      · intro hall received hprefix
        exact hall (m :: received) (List.cons_prefix_cons.mpr ⟨rfl, hprefix⟩)
      · intro hrest received hprefix
        rcases List.prefix_cons_iff.mp hprefix with rfl | ⟨received', rfl, hprefix'⟩
        · exact h.protocol
        · exact hrest received' hprefix'
    rw [hcons, List.map_cons, KeepsRoom]
    by_cases hne : m.text = []
    · -- nothing happens
      have hstep : appendMessage (m.settings maxLines) m.text s = s := by
        rw [appendMessage, if_pos (by simp [hne])]
      have hstep' : m.appended s' = s' := by rw [Message.appended, if_pos hne]
      have hcount : lineCount u n m.text = n := by simp [lineCount, hne]
      rw [hstep, hstep', hcount, hne, List.append_nil, ih h hreceived]
      exact (and_iff_right fun _ hnot => absurd rfl hnot).symm
    · obtain ⟨hroom, hfull⟩ := h.append hmax hreceived hne
      by_cases hkeeps : Unfinished newline u → lineCount u n m.text < maxLines
      · rw [ih (hroom hkeeps) (hreceived.append hne)]
        exact (and_iff_right fun hopen _ => hkeeps hopen).symm
      · refine iff_of_false (fun hall => ?_) fun hboth => hkeeps fun hopen => hboth.1 hopen hne
        -- a line is missing at once
        have hmissing := hfull hkeeps
        have hlast : (appendMessage (m.settings maxLines) m.text s).protocol =
            (m.appended s').protocol.rtake maxLines := hall [] List.nil_prefix
        rw [hlast, List.rtake, List.length_drop, (hreceived.append hne).length] at hmissing
        have hmany : ¬ lineCount u n m.text < maxLines := fun hlt => hkeeps fun _ => hlt
        omega

/-- **The last lines are shown**, after every message, exactly if no message that goes on with
a line leaves `maxLines` lines or more. -/
theorem retains_iff (hmax : 1 ≤ maxLines) (ms : List Message) (hs : s.protocol = []) :
    Retains maxLines ms s ↔ KeepsRoom maxLines [] 0 (ms.map Message.text) := by
  have hsame : Retained maxLines s s := ⟨by simp [hs], rfl, rfl⟩
  exact hsame.run_iff hmax (received_nil hs)

/-- `a\n`, `b`, `c\n`, `d\ne\n`: a line in two messages, and more lines than are shown. -/
theorem retains_three : Retains 3 [⟨false, fun _ => [], [97, 10]⟩, ⟨true, fun _ => [91], [98]⟩,
    ⟨false, fun _ => [], [99, 10]⟩, ⟨false, fun _ => [], [100, 10, 101, 10]⟩] ⟨[], 10, []⟩ :=
  (retains_iff (by decide) _ rfl).mpr (by decide)

/-- `a` and `b`, with one line to show: none is left. -/
theorem not_retains : ¬ ∀ (maxLines : Nat) (ms : List Message) (s : Logger), 1 ≤ maxLines →
    s.protocol = [] → Retains maxLines ms s := by
  intro h
  have hlines := h 1 [⟨false, fun _ => [], [97]⟩, ⟨false, fun _ => [], [98]⟩] ⟨[], 10, []⟩
    (by decide) rfl _ (List.prefix_refl _)
  exact absurd hlines (by decide)

end Anx.App
