import Anx.Lib.Parts

/-!
# The log view

`Logger.appendMessage` keeps the lines that the log view shows. Process output comes in
reads of any size, so that a line whose end has not been read is taken back and joined
with the next read.

- `Logger`, `appendMessage`: the static variables, and one read appended to them;
- `log`: the reads of a stream, one after the other;
- `Follows`, `Shows`, `Lags`: the state goes with what has been read, shows all its lines,
  or has lost some;
- `CutsWell`: no cut behind an empty line that more text follows, and room for one line
  more whenever a line is continued;
- `log_eq_iff`: **the lines do not depend on the cuts exactly if these are so.**
-/

namespace Anx.App

open Anx.Lib

/-- A Java string: its UTF-16 code units, so that a cut may part two surrogates. -/
abbrev JString := List UInt16

def newline : UInt16 := 10

/-- `split("\\n")`. -/
def split (s : JString) : List JString := if newline ∈ s then parts newline s else [s]

/-- The settings that the logger reads, and the time stamp of line `i` of a message. -/
structure Settings where
  timestamp : Bool
  maxLines : Int
  getTimeStamp : Nat → JString

/-- The static variables of `Logger`. -/
structure Logger where
  protocol : List JString
  lastChar : UInt16
  lastLine : JString
deriving DecidableEq, Repr

/-- The loop over the lines of a message, from line `i` on. -/
def addLines (c : Settings) (protocolSize : Nat) : Nat → List JString → Logger → Logger
  | _, [], s => s
  | i, line :: lines, s =>
    let shown := if c.timestamp then c.getTimeStamp i ++ line else line
    let protocol := s.protocol ++ [shown]
    addLines c protocolSize (i + 1) lines { s with
      lastLine := line
      protocol :=
        if ((protocolSize + i : Nat) : Int) ≥ c.maxLines then protocol.tail else protocol }

/-- `appendMessage`. -/
def appendMessage (c : Settings) (msg : JString) (s : Logger) : Logger :=
  if msg.length = 0 then s
  else
    let protocolSize := s.protocol.length
    -- the last line goes on
    let joined : Bool := protocolSize > 0 && s.lastChar ≠ newline
    let out := if joined then s.lastLine ++ msg else msg
    addLines c protocolSize 0 (split out) { s with
      protocol := if joined then s.protocol.dropLast else s.protocol
      lastChar := out.getLastD newline }

/-- `log`: the reads of a stream. -/
def log (c : Settings) (reads : List JString) (s : Logger) : Logger :=
  reads.foldl (fun s msg => appendMessage c msg s) s

/-- After `u` has been read, the cuts of the rest lose nothing: behind an empty line there
are only newlines to come, and a read that continues a line leaves less than `maxLines`
lines. -/
def CutsWell (maxLines : Int) : JString → List JString → Prop
  | _, [] => True
  | u, c :: cs =>
    (EndsEmpty newline u → ∀ x ∈ (c :: cs).flatten, x = newline) ∧
    (Unfinished newline u → ((parts newline (u ++ c)).length : Int) < maxLines) ∧
    CutsWell maxLines (u ++ c) cs

instance decidableCutsWell (maxLines : Int) :
    (u : JString) → (cs : List JString) → Decidable (CutsWell maxLines u cs)
  | _, [] => isTrue trivial
  | u, c :: cs =>
    have : Decidable (CutsWell maxLines (u ++ c) cs) := decidableCutsWell maxLines (u ++ c) cs
    inferInstanceAs (Decidable (_ ∧ _ ∧ _))

/-- The state goes with the text `u` that has been read: it has its last character and, if
`u` ends within a line, what is shown of that. -/
structure Follows (s : Logger) (u : JString) : Prop where
  empty : u = [] → s.protocol = []
  lastChar : ∀ x ∈ u.getLast?, s.lastChar = x
  lastLine : Unfinished newline u → s.protocol ≠ [] →
    s.protocol.getLast? = some s.lastLine ∧ s.lastLine ≠ [] ∧ newline ∉ s.lastLine

/-- All lines are shown. -/
structure Shows (s : Logger) (u : JString) : Prop extends Follows s u where
  protocol : s.protocol = parts newline u

/-- Less is shown than there is. -/
structure Lags (s : Logger) (u : JString) : Prop extends Follows s u where
  weight : weight s.protocol < weight (parts newline u)

variable {c : Settings} {s : Logger} {u msg : JString}

theorem split_eq_parts {s : JString} (hs : s ≠ []) : split s = parts newline s := by
  unfold split
  split
  · rfl
  · next hnot => rw [parts_of_not_mem hs hnot]

/-! ## The loop over the lines -/

/-- One round of the loop, without time stamps. -/
theorem addLines_cons (hoff : c.timestamp = false) (size i : Nat) (line : JString)
    (lines : List JString) (s : Logger) : addLines c size i (line :: lines) s =
      addLines c size (i + 1) lines { s with
        lastLine := line
        protocol := if ((size + i : Nat) : Int) ≥ c.maxLines then (s.protocol ++ [line]).tail
          else s.protocol ++ [line] } := by
  rw [addLines, hoff]
  rfl

/-- What the loop leaves is an end of all lines. -/
theorem addLines_suffix (hoff : c.timestamp = false) (size i : Nat) (lines : List JString)
    (s : Logger) : (addLines c size i lines s).protocol <:+ s.protocol ++ lines := by
  induction lines generalizing i s with
  | nil => simp [addLines]
  | cons line lines ih =>
    rw [addLines_cons hoff, List.append_cons s.protocol line lines]
    refine (ih _ _).trans ?_
    -- the first line may have gone
    split
    · obtain ⟨removed, hremoved⟩ := List.tail_suffix (s.protocol ++ [line])
      exact ⟨removed, by rw [← List.append_assoc, hremoved]⟩
    · exact List.suffix_rfl

@[simp] theorem addLines_lastChar (size i : Nat) (lines : List JString) (s : Logger) :
    (addLines c size i lines s).lastChar = s.lastChar := by
  induction lines generalizing i s with
  | nil => rfl
  | cons line lines ih =>
    rw [addLines]
    exact ih _ _

theorem addLines_lastLine (size i : Nat) (lines : List JString) (s : Logger) :
    (addLines c size i lines s).lastLine = lines.getLastD s.lastLine := by
  induction lines generalizing i s with
  | nil => rfl
  | cons line lines ih =>
    rw [addLines, ih, List.getLastD_cons]

/-- As long as there is room, all lines stay. -/
theorem addLines_room (hoff : c.timestamp = false) {size i : Nat} {lines : List JString}
    (hroom : ((size + i + lines.length : Nat) : Int) ≤ c.maxLines) (s : Logger) :
    (addLines c size i lines s).protocol = s.protocol ++ lines := by
  induction lines generalizing i s with
  | nil => simp [addLines]
  | cons line lines ih =>
    rw [List.length_cons] at hroom
    have hstay : ¬ (((size + i : Nat) : Int) ≥ c.maxLines) := by omega
    rw [addLines_cons hoff, if_neg hstay, ih (by omega), List.append_cons s.protocol line lines]

/-- Without room, the first lines go. -/
theorem addLines_full (hoff : c.timestamp = false) {size i : Nat} {lines : List JString}
    (hne : lines ≠ []) (hfull : c.maxLines < ((size + i + lines.length : Nat) : Int)) (s : Logger) :
    (addLines c size i lines s).protocol.length < (s.protocol ++ lines).length := by
  induction lines generalizing i s with
  | nil => exact absurd rfl hne
  | cons line lines ih =>
    rw [List.length_cons] at hfull
    rw [addLines_cons hoff, List.append_cons s.protocol line lines]
    split
    · -- the line that is removed does not come back
      refine Nat.lt_of_le_of_lt (addLines_suffix hoff _ _ _ _).length_le ?_
      simp
    · have hlines : lines ≠ [] := by
        rintro rfl
        rw [List.length_nil] at hfull
        omega
      exact ih hlines (i := i + 1) (by omega) _

/-! ## One read -/

theorem getLast?_append_of_ne_nil {w msg : JString} (hmsg : msg ≠ []) :
    (w ++ msg).getLast? = msg.getLast? := by
  rw [List.getLast?_append, List.getLast?_eq_some_getLast hmsg]
  rfl

theorem getLast?_of_suffix {l l' : List JString} (h : l <:+ l') (hne : l ≠ []) :
    l.getLast? = l'.getLast? := by
  obtain ⟨removed, rfl⟩ := h
  rw [List.getLast?_append, List.getLast?_eq_some_getLast hne]
  rfl

theorem unfinished_append (hmsg : msg ≠ []) (w : JString) :
    Unfinished newline (w ++ msg) ↔ Unfinished newline msg := by
  rw [Unfinished, getLast?_append_of_ne_nil hmsg]
  rfl

/-- A read is joined with the last line exactly if it goes on within a line that is
shown. -/
theorem Follows.joined (h : Follows s u) :
    (s.protocol.length > 0 && s.lastChar ≠ newline : Bool) = true ↔
      Unfinished newline u ∧ s.protocol ≠ [] := by
  by_cases hp : s.protocol = []
  · simp [hp]
  · have hu : u ≠ [] := fun hu => hp (h.empty hu)
    have hlast : s.lastChar = u.getLast hu := h.lastChar _ (List.getLast?_eq_some_getLast hu)
    simp [hp, hlast, Unfinished, List.getLast?_eq_some_getLast hu, List.length_pos_iff]

theorem appendMessage_joined (h : Follows s u) (hu : Unfinished newline u) (hp : s.protocol ≠ [])
    (hmsg : msg ≠ []) : appendMessage c msg s =
      addLines c s.protocol.length 0 (parts newline (s.lastLine ++ msg)) { s with
        protocol := s.protocol.dropLast
        lastChar := (s.lastLine ++ msg).getLastD newline } := by
  have hne : s.lastLine ++ msg ≠ [] := by simp [hmsg]
  rw [appendMessage, if_neg (by simpa using hmsg)]
  dsimp only
  rw [h.joined.mpr ⟨hu, hp⟩, if_pos rfl, if_pos rfl, split_eq_parts hne]

theorem appendMessage_apart (h : Follows s u) (hu : ¬ (Unfinished newline u ∧ s.protocol ≠ []))
    (hmsg : msg ≠ []) : appendMessage c msg s =
      addLines c s.protocol.length 0 (parts newline msg) { s with
        protocol := s.protocol
        lastChar := msg.getLastD newline } := by
  have hjoined : (s.protocol.length > 0 && s.lastChar ≠ newline : Bool) = false := by
    rw [← Bool.not_eq_true, h.joined]
    exact hu
  rw [appendMessage, if_neg (by simpa using hmsg)]
  dsimp only
  rw [hjoined, if_neg Bool.false_ne_true, if_neg Bool.false_ne_true, split_eq_parts hmsg]

/-- After a read, whether joined or not, the state goes with the text so far. -/
theorem follows_addLines (hoff : c.timestamp = false) (hmsg : msg ≠ []) (size : Nat)
    (w u : JString) (protocol : List JString) :
    Follows (addLines c size 0 (parts newline (w ++ msg)) { s with
      protocol := protocol
      lastChar := (w ++ msg).getLastD newline }) (u ++ msg) := by
  refine ⟨fun hnil => absurd hnil (by simp [hmsg]), fun x hx => ?_, fun hopen hne => ?_⟩
  · rw [getLast?_append_of_ne_nil hmsg, ← getLast?_append_of_ne_nil (w := w) hmsg] at hx
    rw [addLines_lastChar, List.getLastD_eq_getLast?, hx]
    rfl
  · -- the last line is the last one of the message
    rw [unfinished_append hmsg, ← unfinished_append hmsg w] at hopen
    obtain ⟨before, line, hline, hnew, hparts, -⟩ := parts_unfinished hopen
    have hsuffix := addLines_suffix hoff size 0 (parts newline (w ++ msg)) { s with
      protocol := protocol
      lastChar := (w ++ msg).getLastD newline }
    rw [addLines_lastLine]
    refine ⟨?_, ?_, ?_⟩
    · rw [getLast?_of_suffix hsuffix hne, hparts, List.getLastD_concat, ← List.append_assoc,
        List.getLast?_concat]
    · rw [hparts, List.getLastD_concat]
      exact hline
    · rw [hparts, List.getLastD_concat]
      exact hnew

theorem Follows.append (hoff : c.timestamp = false) (h : Follows s u) (hmsg : msg ≠ []) :
    Follows (appendMessage c msg s) (u ++ msg) := by
  by_cases hjoined : Unfinished newline u ∧ s.protocol ≠ []
  · rw [appendMessage_joined h hjoined.1 hjoined.2 hmsg]
    exact follows_addLines hoff hmsg _ _ _ _
  · rw [appendMessage_apart h hjoined hmsg]
    exact follows_addLines hoff hmsg _ [] _ _

/-- The cut before `msg` loses no empty line, and there is room for one line more if `msg`
continues a line. -/
structure KeepsLines (maxLines : Int) (u msg : JString) : Prop where
  empty : EndsEmpty newline u → ∀ x ∈ msg, x = newline
  room : Unfinished newline u → ((parts newline (u ++ msg)).length : Int) < maxLines

/-- **A read keeps all lines shown** exactly if the cut before it does; else some line is
lost. -/
theorem Shows.append (hoff : c.timestamp = false) (h : Shows s u) (hmsg : msg ≠ [])
    (hmax : ((parts newline (u ++ msg)).length : Int) ≤ c.maxLines) :
    (KeepsLines c.maxLines u msg → Shows (appendMessage c msg s) (u ++ msg)) ∧
      (¬ KeepsLines c.maxLines u msg → Lags (appendMessage c msg s) (u ++ msg)) := by
  have hfollows := h.toFollows.append hoff hmsg
  by_cases hopen : Unfinished newline u
  · obtain ⟨before, w, hw, hnew, hu, hcont⟩ := parts_unfinished hopen
    have hp : s.protocol ≠ [] := by simp [h.protocol, hu]
    have hlast : s.lastLine = w := by
      have hlast := (h.lastLine hopen hp).1
      rw [h.protocol, hu, List.getLast?_concat] at hlast
      exact (Option.some.inj hlast).symm
    have hlines : parts newline (w ++ msg) ≠ [] := by
      rw [parts_append_of_not_mem hw hnew]
      split <;> simp
    have happend := appendMessage_joined (c := c) h.toFollows hopen hp hmsg
    rw [hlast, h.protocol, hu, List.dropLast_concat, List.length_append, List.length_singleton]
      at happend
    rw [hcont, List.length_append] at hmax
    constructor
    · intro hkeeps
      refine ⟨hfollows, ?_⟩
      have hroom := hkeeps.room hopen
      rw [hcont, List.length_append] at hroom
      rw [happend, addLines_room hoff (by omega), hcont]
    · intro hnot
      have hfull : ¬ ((before.length + (parts newline (w ++ msg)).length : Nat) : Int) <
          c.maxLines := by
        refine fun hroom => hnot ⟨fun hempty => absurd hempty (not_endsEmpty hopen), fun _ => ?_⟩
        rwa [hcont, List.length_append]
      refine ⟨hfollows, ?_⟩
      rw [happend, hcont]
      exact weight_suffix_lt (addLines_suffix hoff _ _ _ _)
        (addLines_full hoff hlines (by omega) _)
  · obtain ⟨k, hk, hzero⟩ := parts_finished hopen msg
    have hprotocol : (appendMessage c msg s).protocol = parts newline u ++ parts newline msg := by
      rw [appendMessage_apart h.toFollows (fun hjoined => hopen hjoined.1) hmsg,
        addLines_room hoff, h.protocol]
      rw [hk, List.length_append, List.length_append] at hmax
      rw [h.protocol]
      omega
    constructor
    · intro hkeeps
      refine ⟨hfollows, ?_⟩
      rw [hprotocol, hk, hzero.mpr hkeeps.empty]
      simp
    · intro hnot
      have hpos : k ≠ 0 := fun hk => hnot ⟨hzero.mp hk, fun h => absurd h hopen⟩
      refine ⟨hfollows, ?_⟩
      rw [hprotocol, hk, weight_append, weight_append, weight_append, weight_replicate]
      omega

/-- What has been lost does not come back. -/
theorem Lags.append (hoff : c.timestamp = false) (h : Lags s u) (hmsg : msg ≠ []) :
    Lags (appendMessage c msg s) (u ++ msg) := by
  refine ⟨h.toFollows.append hoff hmsg, ?_⟩
  have hless := h.weight
  by_cases hjoined : Unfinished newline u ∧ s.protocol ≠ []
  · obtain ⟨hopen, hp⟩ := hjoined
    obtain ⟨before, w, hw, hnew, hu, hcont⟩ := parts_unfinished hopen
    obtain ⟨hlast, hline, hlineNew⟩ := h.lastLine hopen hp
    have hsplit : s.protocol.dropLast ++ [s.lastLine] = s.protocol :=
      List.dropLast_append_getLast? _ hlast
    -- both the shown line and the one that has been read grow by the same text
    have hle := weight_suffix (addLines_suffix hoff s.protocol.length 0
      (parts newline (s.lastLine ++ msg)) { s with
        protocol := s.protocol.dropLast
        lastChar := (s.lastLine ++ msg).getLastD newline })
    rw [appendMessage_joined h.toFollows hopen hp hmsg, hcont, weight_append,
      weight_append_of_not_mem hw hnew]
    rw [weight_append, weight_append_of_not_mem hline hlineNew] at hle
    dsimp only at hle
    rw [hu, ← hsplit, weight_append, weight_append, weight_cons, weight_cons, weight_nil] at hless
    omega
  · have hle := weight_suffix (addLines_suffix hoff s.protocol.length 0 (parts newline msg) { s with
        protocol := s.protocol
        lastChar := msg.getLastD newline })
    rw [weight_append] at hle
    dsimp only at hle
    rw [appendMessage_apart h.toFollows hjoined hmsg]
    by_cases hopen : Unfinished newline u
    · -- nothing is shown, so that the text before counts for nothing
      obtain ⟨before, w, hw, hnew, hu, hcont⟩ := parts_unfinished hopen
      have hp : Lib.weight s.protocol = 0 := by
        have hnil : s.protocol = [] := by
          by_contra hp
          exact hjoined ⟨hopen, hp⟩
        rw [hnil, weight_nil]
      have hlen := List.length_pos_iff.mpr hw
      rw [hcont, weight_append, weight_append_of_not_mem hw hnew]
      omega
    · obtain ⟨k, hk, -⟩ := parts_finished hopen msg
      rw [hk, weight_append, weight_append]
      omega

/-! ## All reads -/

theorem Lags.log (hoff : c.timestamp = false) {chunks : List JString} (h : Lags s u)
    (hne : ∀ chunk ∈ chunks, chunk ≠ []) : Lags (log c chunks s) (u ++ chunks.flatten) := by
  induction chunks generalizing s u with
  | nil => simpa [App.log] using h
  | cons chunk chunks ih =>
    obtain ⟨hchunk, hrest⟩ := List.forall_mem_cons.mp hne
    rw [List.flatten_cons, ← List.append_assoc]
    exact ih (h.append hoff hchunk) hrest

/-- **The cuts of the rest** decide whether all lines are shown at the end. -/
theorem Shows.log_iff (hoff : c.timestamp = false) {chunks : List JString} (h : Shows s u)
    (hne : ∀ chunk ∈ chunks, chunk ≠ [])
    (hmax : ((parts newline (u ++ chunks.flatten)).length : Int) ≤ c.maxLines) :
    (log c chunks s).protocol = parts newline (u ++ chunks.flatten) ↔
      CutsWell c.maxLines u chunks := by
  induction chunks generalizing s u with
  | nil =>
    rw [List.flatten_nil, List.append_nil]
    exact ⟨fun _ => trivial, fun _ => h.protocol⟩
  | cons chunk chunks ih =>
    obtain ⟨hchunk, hrest⟩ := List.forall_mem_cons.mp hne
    rw [List.flatten_cons, ← List.append_assoc] at hmax ⊢
    have hlen : (parts newline (u ++ chunk)).length ≤
        (parts newline (u ++ chunk ++ chunks.flatten)).length := length_parts_append _ _
    have hstep := h.append hoff hchunk (by omega)
    by_cases hkeeps : KeepsLines c.maxLines u chunk
    · -- the lines so far are shown, so that the rest decides
      refine (ih (hstep.1 hkeeps) hrest hmax).trans
        ⟨fun hcuts => ⟨?_, hkeeps.room, hcuts⟩, fun hcuts => hcuts.2.2⟩
      intro hempty x hx
      rw [List.flatten_cons, List.mem_append] at hx
      rcases hx with hx | hx
      · exact hkeeps.empty hempty x hx
      · cases chunks with
        | nil => simp at hx
        | cons chunk' chunks => exact hcuts.1 (hempty.append (hkeeps.empty hempty)) x hx
    · have hlags := (hstep.2 hkeeps).log hoff hrest
      constructor
      · intro heq
        have hless := hlags.weight
        rw [← heq] at hless
        exact absurd hless (Nat.lt_irrefl _)
      · rintro ⟨hempty, hroom, -⟩
        refine absurd ⟨fun h x hx => hempty h x ?_, hroom⟩ hkeeps
        rw [List.flatten_cons]
        exact List.mem_append_left _ hx

theorem shows_empty (hs : s.protocol = []) : Shows s [] :=
  ⟨⟨fun _ => hs, fun _ hx => (nomatch hx), fun ⟨_, hx, _⟩ => (nomatch hx)⟩, hs.trans parts_nil.symm⟩

/-- A text that is read at once is shown with all its lines. -/
theorem appendMessage_empty (hoff : c.timestamp = false) (hs : s.protocol = []) (text : JString)
    (hmax : ((parts newline text).length : Int) ≤ c.maxLines) :
    (appendMessage c text s).protocol = parts newline text := by
  by_cases htext : text = []
  · rw [htext, parts_nil]
    exact hs
  · have hstep := (shows_empty hs).append hoff htext (by rwa [List.nil_append])
    exact (hstep.1 ⟨by simp [EndsEmpty], by simp [Unfinished]⟩).protocol

/-- **The log view does not depend on the cuts**, time stamps off and with room for all
lines, exactly if no cut loses an empty line and no line that is continued fills the view. -/
theorem log_eq_iff {chunks : List JString} (hoff : c.timestamp = false) (hs : s.protocol = [])
    (hne : ∀ chunk ∈ chunks, chunk ≠ [])
    (hmax : ((parts newline chunks.flatten).length : Int) ≤ c.maxLines) :
    (log c chunks s).protocol = (appendMessage c chunks.flatten s).protocol ↔
      CutsWell c.maxLines [] chunks := by
  rw [appendMessage_empty hoff hs _ hmax]
  exact (shows_empty hs).log_iff hoff hne hmax

/-- `a\n`, `\nb`, `c`: an empty line, and a line in two reads. -/
theorem log_eq_iff_three :
    (log ⟨false, 4, fun _ => []⟩ [[97, 10], [10, 98], [99]] ⟨[], 10, []⟩).protocol =
      (appendMessage ⟨false, 4, fun _ => []⟩ [97, 10, 10, 98, 99] ⟨[], 10, []⟩).protocol :=
  have hwell : CutsWell 4 [] [[97, 10], [10, 98], [99]] := by decide
  (log_eq_iff rfl rfl (by decide) (by decide)).mpr hwell

/-- `a\n\n` and `b`: the empty line is lost. -/
theorem log_ne : ¬ ∀ (c : Settings) (s : Logger) (chunks : List JString), c.timestamp = false →
    s.protocol = [] → (∀ chunk ∈ chunks, chunk ≠ []) →
    ((parts newline chunks.flatten).length : Int) ≤ c.maxLines →
    (log c chunks s).protocol = (appendMessage c chunks.flatten s).protocol := by
  intro h
  have heq := h ⟨false, 10, fun _ => []⟩ ⟨[], 10, []⟩ [[97, 10, 10], [98]] rfl rfl (by decide)
    (by decide)
  exact absurd heq (by decide)

end Anx.App
