import Mathlib.Data.List.Dedup
import Anx.Lib.SortUniq

/-!
# What debootstrap reads in a `Packages` file

`functions` of debootstrap (bootstrap/debian/debootstrap) has two perl programs that read
the index of a mirror line by line: one prints the packages on which given packages
depend, the other one finds given packages.

- `splitCommas`, `dependency`: the names in the value of a `Depends` line;
- `GETDEPS`: `pkgdetails_perl GETDEPS`; `mem_GETDEPS_iff`: what it prints is what it prints
  for the single packages;
- `PKGS`, `realNames`: `pkgdetails_perl PKGS REAL`, and the names that `sed` takes from it;
  `mem_realNames_iff`: a name is found by itself.

A file is the list of its lines. `pkgdetails` on the phone is a program that does the same.
-/

namespace Anx.Bootstrap

open Anx.Lib

/-! ## Dependencies -/

/-- `\s` of perl. -/
def isSpace (c : Char) : Bool :=
  c = ' ' || c = '\t' || c = '\n' || c = '\x0b' || c = '\x0c' || c = '\r'

/-- The text behind `key`, when the line starts with it. -/
def behind (key : String) (line : Text) : Option Text :=
  if key.toList.isPrefixOf line then some (line.drop key.toList.length) else none

/-- The pieces behind a comma, without the blanks beside commas. -/
def piecesBehind : List Text → List Text
  | [] => []
  | [piece] => [piece.dropWhile isSpace]
  | piece :: pieces => (piece.dropWhile isSpace).rdropWhile isSpace :: piecesBehind pieces

/-- `split /\s*,\s*/`, which drops empty pieces at the end. -/
def splitCommas (value : Text) : List Text :=
  (match value.splitOn ',' with
    | piece :: next :: pieces => piece.rdropWhile isSpace :: piecesBehind (next :: pieces)
    | pieces => pieces).rdropWhile (· = [])

/-- The three substitutions on a dependency: the first alternative, without its version and
its architecture. -/
def dependency (d : Text) : Text :=
  let d := if '|' ∈ d then (d.takeWhile (· ≠ '|')).rdropWhile isSpace else d
  let bracket := d.dropWhile (· ≠ '(')
  let d :=
    if ')' ∈ bracket then
      (d.takeWhile (· ≠ '(')).rdropWhile isSpace ++
        (bracket.rtakeWhile (· ≠ ')')).dropWhile isSpace
    else d
  d.takeWhile (· ≠ ':')

/-- The state of the program for `GETDEPS`. -/
structure GetDeps where
  pkg : Text
  inside : Bool
  depends : List Text

/-- The lines that `grep` lets through. -/
def isDepsLine (line : Text) : Bool :=
  line.isEmpty || (behind "Package:" line).isSome || (behind "Depends:" line).isSome ||
    (behind "Pre-Depends:" line).isSome

/-- The names in a line of dependencies. -/
def dependencies (line : Text) : List Text :=
  (((behind "Depends: " line).or (behind "Pre-Depends: " line)).map splitCommas).getD [] |>.map
    dependency

/-- One line, where `names` is `%seen`. -/
def GetDeps.read (names : List Text) (s : GetDeps) (line : Text) : GetDeps :=
  match behind "Package: " line with
  | some pkg => { s with pkg := pkg }
  | none =>
    if line = [] then { s with inside := false }
    else
      let inside := s.inside || names.contains s.pkg
      { s with
        inside := inside
        depends := s.depends ++ if inside then dependencies line else [] }

/-- The state after all lines. -/
def GetDeps.run (names lines : List Text) : GetDeps :=
  (lines.filter isDepsLine).foldl (GetDeps.read names) ⟨[], false, []⟩

/-- The lines that `pkgdetails_perl GETDEPS` prints. -/
def GETDEPS (lines names : List Text) : List Text := sortUniq (GetDeps.run names lines).depends

/-- A run for some names, and the runs for single ones. -/
structure GetDeps.Splits (names : List Text) (s : GetDeps) (single : Text → GetDeps) : Prop where
  pkg : ∀ p, (single p).pkg = s.pkg
  inside : s.inside = true ↔ ∃ p ∈ names, (single p).inside = true
  depends : ∀ d, d ∈ s.depends ↔ ∃ p ∈ names, d ∈ (single p).depends

theorem GetDeps.Splits.read {names : List Text} {s : GetDeps} {single : Text → GetDeps}
    (h : Splits names s single) (line : Text) :
    Splits names (s.read names line) fun p => (single p).read [p] line := by
  unfold GetDeps.read
  cases behind "Package: " line with
  | some pkg => exact ⟨fun _ => rfl, h.inside, h.depends⟩
  | none =>
    dsimp only
    by_cases hline : line = []
    · simp only [if_pos hline]
      exact ⟨h.pkg, by simp, h.depends⟩
    · simp only [if_neg hline]
      have hinside : (s.inside || names.contains s.pkg) = true ↔
          ∃ p ∈ names, ((single p).inside || [p].contains (single p).pkg) = true := by
        rw [Bool.or_eq_true, h.inside, List.contains_iff_mem]
        constructor
        · rintro (⟨p, hp, hin⟩ | hmem)
          · exact ⟨p, hp, by simp [hin]⟩
          · exact ⟨s.pkg, hmem, by simp [h.pkg]⟩
        · rintro ⟨p, hp, hin⟩
          rw [Bool.or_eq_true, h.pkg, List.contains_iff_mem, List.mem_singleton] at hin
          rcases hin with hin | rfl
          · exact .inl ⟨p, hp, hin⟩
          · exact .inr hp
      refine ⟨h.pkg, hinside, fun d => ?_⟩
      have hite : ∀ b : Bool, (d ∈ if b = true then dependencies line else []) ↔
          b = true ∧ d ∈ dependencies line := by
        intro b
        cases b <;> simp
      simp only [List.mem_append, hite, h.depends]
      constructor
      · rintro (⟨p, hp, hd⟩ | ⟨hin, hd⟩)
        · exact ⟨p, hp, .inl hd⟩
        · obtain ⟨p, hp, hin⟩ := hinside.mp hin
          exact ⟨p, hp, .inr ⟨hin, hd⟩⟩
      · rintro ⟨p, hp, hd | ⟨hin, hd⟩⟩
        · exact .inl ⟨p, hp, hd⟩
        · exact .inr ⟨hinside.mpr ⟨p, hp, hin⟩, hd⟩

theorem GetDeps.run_splits (names lines : List Text) :
    Splits names (run names lines) fun p => run [p] lines := by
  unfold run
  induction lines.filter isDepsLine using List.reverseRecOn with
  | nil => exact ⟨fun _ => rfl, by simp, by simp⟩
  | append_singleton ls line ih =>
    simp only [List.foldl_concat]
    exact ih.read line

/-- **What the given packages depend on** is what the single ones depend on. -/
theorem mem_GETDEPS_iff {lines names : List Text} {d : Text} :
    d ∈ GETDEPS lines names ↔ ∃ p ∈ names, d ∈ GETDEPS lines [p] := by
  simp only [GETDEPS, mem_sortUniq]
  exact (GetDeps.run_splits names lines).depends d

theorem mem_of_mem_rtakeWhile {p : Char → Bool} {text : Text} {c : Char}
    (h : c ∈ text.rtakeWhile p) : c ∈ text :=
  (List.rtakeWhile_suffix p text).subset h

theorem mem_of_mem_rdropWhile {p : Char → Bool} {text : Text} {c : Char}
    (h : c ∈ text.rdropWhile p) : c ∈ text :=
  (List.rdropWhile_prefix p text).subset h

theorem mem_of_mem_dropWhile {p : Char → Bool} {text : Text} {c : Char}
    (h : c ∈ text.dropWhile p) : c ∈ text :=
  (List.dropWhile_suffix p).subset h

theorem mem_of_mem_takeWhile {p : Char → Bool} {text : Text} {c : Char}
    (h : c ∈ text.takeWhile p) : c ∈ text :=
  (List.takeWhile_prefix p).subset h

theorem mem_of_mem_piecesBehind {pieces : List Text} {piece : Text}
    (h : piece ∈ piecesBehind pieces) {c : Char} (hc : c ∈ piece) :
    ∃ piece' ∈ pieces, c ∈ piece' := by
  fun_induction piecesBehind pieces with
  | case1 => exact absurd h List.not_mem_nil
  | case2 last =>
    obtain rfl := List.mem_singleton.mp h
    exact ⟨last, List.mem_cons_self, mem_of_mem_dropWhile hc⟩
  | case3 first pieces _ ih =>
    rcases List.mem_cons.mp h with rfl | h
    · exact ⟨first, List.mem_cons_self, mem_of_mem_dropWhile (mem_of_mem_rdropWhile hc)⟩
    · obtain ⟨piece', hpiece', hc⟩ := ih h
      exact ⟨piece', List.mem_cons_of_mem _ hpiece', hc⟩

/-- The pieces of a value have its characters. -/
theorem mem_of_mem_splitCommas {value piece : Text} (h : piece ∈ splitCommas value) {c : Char}
    (hc : c ∈ piece) : c ∈ value := by
  have hpieces : ∃ piece' ∈ value.splitOn ',', c ∈ piece' := by
    have h := (List.rdropWhile_prefix _ _).subset h
    cases hsplit : value.splitOn ',' with
    | nil =>
      rw [hsplit] at h
      exact absurd h List.not_mem_nil
    | cons first pieces =>
      rw [hsplit] at h
      cases pieces with
      | nil => exact ⟨piece, h, hc⟩
      | cons next pieces =>
        rcases List.mem_cons.mp h with rfl | h
        · exact ⟨first, List.mem_cons_self, mem_of_mem_rdropWhile hc⟩
        · obtain ⟨piece', hpiece', hc⟩ := mem_of_mem_piecesBehind h hc
          exact ⟨piece', List.mem_cons_of_mem _ hpiece', hc⟩
  obtain ⟨piece', hpiece', hc⟩ := hpieces
  exact (of_mem_splitOnP hpiece' c hc).1

/-- So has the name in a dependency. -/
theorem mem_of_mem_dependency {d : Text} {c : Char} (h : c ∈ dependency d) : c ∈ d := by
  have hbracket := mem_of_mem_takeWhile h
  generalize halternative : (if '|' ∈ d then (d.takeWhile (· ≠ '|')).rdropWhile isSpace else d) = e
    at hbracket
  have he : c ∈ e := by
    split at hbracket
    · rcases List.mem_append.mp hbracket with hc | hc
      · exact mem_of_mem_takeWhile (mem_of_mem_rdropWhile hc)
      · exact mem_of_mem_dropWhile (mem_of_mem_rtakeWhile (mem_of_mem_dropWhile hc))
    · exact hbracket
  rw [← halternative] at he
  split at he
  · exact mem_of_mem_takeWhile (mem_of_mem_rdropWhile he)
  · exact he

theorem mem_of_mem_dependencies {line d : Text} (h : d ∈ dependencies line) {c : Char}
    (hc : c ∈ d) : c ∈ line := by
  have hbehind : ∀ key value, behind key line = some value → ∀ c ∈ value, c ∈ line := by
    intro key value hvalue c hc
    rw [behind] at hvalue
    split at hvalue
    · obtain rfl := Option.some.inj hvalue
      exact (List.drop_suffix _ _).subset hc
    · exact absurd hvalue (by simp)
  obtain ⟨piece, hpiece, rfl⟩ := List.mem_map.mp h
  have hc := mem_of_mem_dependency hc
  cases hdepends : behind "Depends: " line with
  | some value =>
    rw [hdepends] at hpiece
    exact hbehind _ value hdepends c (mem_of_mem_splitCommas hpiece hc)
  | none =>
    rw [hdepends] at hpiece
    cases hpre : behind "Pre-Depends: " line with
    | some value =>
      rw [hpre] at hpiece
      exact hbehind _ value hpre c (mem_of_mem_splitCommas hpiece hc)
    | none =>
      rw [hpre] at hpiece
      exact absurd hpiece List.not_mem_nil

/-- The names have characters of the file. -/
theorem mem_of_mem_GETDEPS {lines names : List Text} {d : Text} (h : d ∈ GETDEPS lines names)
    {c : Char} (hc : c ∈ d) : ∃ line ∈ lines, c ∈ line := by
  have hread : ∀ ls : List Text, ∀ d ∈ (ls.foldl (GetDeps.read names) ⟨[], false, []⟩).depends,
      ∃ line ∈ ls, d ∈ dependencies line := by
    intro ls
    induction ls using List.reverseRecOn with
    | nil => simp
    | append_singleton ls line ih =>
      intro d hd
      rw [List.foldl_concat] at hd
      have hcases : d ∈ (ls.foldl (GetDeps.read names) ⟨[], false, []⟩).depends ∨
          d ∈ dependencies line := by
        unfold GetDeps.read at hd
        split at hd
        · exact .inl hd
        · split at hd
          · exact .inl hd
          · rcases List.mem_append.mp hd with hd | hd
            · exact .inl hd
            · split at hd
              · exact .inr hd
              · exact absurd hd List.not_mem_nil
      rcases hcases with hd | hd
      · obtain ⟨line', hline', hd⟩ := ih d hd
        exact ⟨line', List.mem_append_left _ hline', hd⟩
      · exact ⟨line, List.mem_append_right _ List.mem_cons_self, hd⟩
  obtain ⟨line, hline, hd⟩ := hread _ d (mem_sortUniq.mp h)
  exact ⟨line, List.mem_of_mem_filter hline, mem_of_mem_dependencies hd hc⟩

example : GETDEPS (["Package: a", "Version: 1", "Depends: b (>= 2), c:any | d ,e", "",
    "Package: b", "Depends: f", ""].map String.toList) ["a".toList] =
      ["b".toList, "c".toList, "e".toList] := by decide +kernel

/-! ## Packages that are there -/

/-- `$f` of a line: what stands up to its first colon, in lower case. -/
def fieldName (line : Text) : Text := (line.takeWhile (· ≠ ':')).map Char.toLower

/-- `$v` of a line. -/
def fieldValue (line : Text) : Text := (line.dropWhile (· ≠ ':')).tail.dropWhile isSpace

/-- What the program knows of a stanza. -/
structure Stanza where
  pkg : Text
  ver : Text
  arc : Text
  fil : Text
  chk : Text
  siz : Text
  val : Option Text

def Stanza.init : Stanza := ⟨[], [], [], [], [], [], none⟩

/-- A field of a stanza; `chksumfield` is the name of the one with the checksum. -/
def Stanza.set (chksumfield : Text) (s : Stanza) (f v : Text) : Stanza :=
  let s := if f = "package".toList then { s with pkg := v } else s
  let s := if f = "version".toList then { s with ver := v } else s
  let s := if f = "architecture".toList then { s with arc := v } else s
  let s := if f = "filename".toList then { s with fil := v } else s
  let s := if f = chksumfield then { s with chk := v } else s
  let s := if f = "size".toList then { s with siz := v } else s
  if f = "package".toList then { s with val := some v } else s

/-- `sprintf "%s %s %s %s %s %s %s"`, for the mirror `REAL`. -/
def Stanza.output (s : Stanza) : Text :=
  [' '].intercalate [s.pkg, s.ver, s.arc, "REAL".toList, s.fil, s.chk, s.siz]

/-- The state of the program: `output` is `$output_val` with `$output`, and `outputs` is
`%outputs`. -/
structure Listing where
  stanza : Stanza
  prevpkg : Text
  output : Option (Text × Text)
  outputs : List (Text × Text)

/-- `emit_or_store_pkg`. -/
def Listing.store (s : Listing) : Listing :=
  { s with outputs := s.output.toList ++ s.outputs.filter fun o => s.output.all (·.1 ≠ o.1) }

/-- The lines that `grep` lets through. -/
def isFieldLine (line : Text) : Bool :=
  line.isEmpty || ["Architecture:", "Filename:", "MD5sum:", "Package:", "Priority:", "SHA256:",
    "Size:", "Version:", "Depends:", "Pre-Depends:"].any fun key => (behind key line).isSome

/-- One line, where the keys of `%expected` are `names`. -/
def Listing.read (chksumfield : Text) (names : List Text) (s : Listing) (line : Text) : Listing :=
  if ':' ∈ line then
    let s :=
      if fieldName line = "package".toList then
        let s :=
          if fieldValue line ≠ s.prevpkg then { s.store with prevpkg := fieldValue line } else s
        { s with output := none }
      else s
    { s with stanza := s.stanza.set chksumfield (fieldName line) (fieldValue line) }
  else if line = [] then
    { s with
      output := s.stanza.val.elim s.output fun v =>
        if v ∈ names then some (v, s.stanza.output) else s.output
      stanza := { s.stanza with val := none } }
  else s

/-- `%outputs` at the end. -/
def Listing.run (chksumfield : Text) (names lines : List Text) : Listing :=
  ((lines.filter isFieldLine).foldl (Listing.read chksumfield names) ⟨.init, [], none, []⟩).store

/-- The lines that `pkgdetails_perl PKGS REAL` prints: the packages that it has found, and
those that it has not. -/
def PKGS (chksumfield : Text) (lines names : List Text) : List Text :=
  let outputs := (Listing.run chksumfield names lines).outputs
  (outputs.map (·.2)).insertionSort (· ≤ ·) ++
    ((names.dedup.filter fun v => v ∉ outputs.map (·.1)).map (· ++ " -".toList))

/-- `sed -n 's/ .*REAL.*$//p'` on a line. -/
def sedReal (line : Text) : Option Text :=
  if "REAL".toList <:+: line.dropWhile (· ≠ ' ') then some (line.takeWhile (· ≠ ' ')) else none

/-- The names of the packages that are there. -/
def realNames (chksumfield : Text) (lines names : List Text) : List Text :=
  (PKGS chksumfield lines names).filterMap sedReal

variable {chksumfield : Text}

/-- A run for some names, and the run for one of them. -/
structure Listing.Selects (p : Text) (s single : Listing) : Prop where
  stanza : single.stanza = s.stanza
  prevpkg : single.prevpkg = s.prevpkg
  output : ∀ l, single.output = some (p, l) ↔ s.output = some (p, l)
  outputs : ∀ l, (p, l) ∈ single.outputs ↔ (p, l) ∈ s.outputs
  /-- In a stanza nothing waits to be stored. -/
  inside : s.stanza.val ≠ none → s.output = none

theorem Stanza.set_val {s : Stanza} {f : Text} (h : f ≠ "package".toList) (v : Text) :
    (s.set chksumfield f v).val = s.val := by
  unfold set
  rw [if_neg h, if_neg h]
  split_ifs <;> rfl

theorem Listing.mem_store {s : Listing} {p l : Text} :
    (p, l) ∈ s.store.outputs ↔
      s.output = some (p, l) ∨ (p, l) ∈ s.outputs ∧ ∀ l', s.output ≠ some (p, l') := by
  rw [store, List.mem_append, Option.mem_toList, List.mem_filter]
  refine or_congr Option.mem_def (and_congr_right fun _ => ?_)
  cases s.output with
  | none => simp
  | some o =>
    obtain ⟨v, l'⟩ := o
    simp only [Option.all_some, decide_eq_true_iff, ne_eq, Option.some.injEq, Prod.mk.injEq]
    exact ⟨fun hne _ heq => hne heq.1, fun hne heq => hne l' ⟨heq, rfl⟩⟩

theorem Listing.Selects.store {p : Text} {s single : Listing} (h : Selects p s single) :
    Selects p s.store single.store where
  stanza := h.stanza
  prevpkg := h.prevpkg
  output := h.output
  outputs := fun l => by
    rw [mem_store, mem_store, h.output, h.outputs]
    simp only [ne_eq, h.output]
  inside := h.inside

theorem Listing.Selects.read {names : List Text} {p : Text} (hp : p ∈ names) {s single : Listing}
    (h : Selects p s single) (line : Text) :
    Selects p (s.read chksumfield names line) (single.read chksumfield [p] line) := by
  unfold Listing.read
  by_cases hcolon : ':' ∈ line
  · simp only [if_pos hcolon]
    by_cases hpkg : fieldName line = "package".toList
    · simp only [if_pos hpkg, h.prevpkg]
      by_cases hprev : fieldValue line ≠ s.prevpkg
      · simp only [if_pos hprev]
        exact ⟨congrArg (Stanza.set _ · _ _) h.stanza, rfl, by simp, h.store.outputs, fun _ => rfl⟩
      · simp only [if_neg hprev]
        exact ⟨congrArg (Stanza.set _ · _ _) h.stanza, h.prevpkg, by simp, h.outputs, fun _ => rfl⟩
    · simp only [if_neg hpkg]
      exact ⟨congrArg (Stanza.set _ · _ _) h.stanza, h.prevpkg, h.output, h.outputs,
        fun hval => h.inside (Stanza.set_val hpkg _ ▸ hval)⟩
  · simp only [if_neg hcolon]
    by_cases hline : line = []
    · simp only [if_pos hline, h.stanza]
      refine ⟨rfl, h.prevpkg, fun l => ?_, h.outputs, fun hval => absurd rfl hval⟩
      have hinside := h.inside
      cases hv : s.stanza.val with
      | none => exact h.output l
      | some v =>
        dsimp only [Option.elim]
        by_cases hvp : v = p
        · rw [if_pos (by simp [hvp]), if_pos (hvp ▸ hp)]
        · -- the output of another package: nothing was waiting before it
          have hnone : s.output = none := hinside (by simp [hv])
          rw [if_neg (by simp [hvp]), h.output l, hnone]
          split
          · simp [hvp]
          · rfl
    · simp only [if_neg hline]
      exact h

theorem Listing.run_selects (names lines : List Text) {p : Text} (hp : p ∈ names) :
    Selects p (run chksumfield names lines) (run chksumfield [p] lines) := by
  unfold run
  refine Selects.store ?_
  induction lines.filter isFieldLine using List.reverseRecOn with
  | nil => exact ⟨rfl, rfl, fun _ => Iff.rfl, fun _ => Iff.rfl, fun _ => rfl⟩
  | append_singleton ls line ih =>
    simp only [List.foldl_concat]
    exact ih.read hp line

/-- What is stored is the output of a package that was looked for, and has a `Package` line. -/
structure Listing.Stored (names lines : List Text) (s : Listing) : Prop where
  val : ∀ v, s.stanza.val = some v → s.stanza.pkg = v ∧ v ∈ lines.map fieldValue
  output : ∀ o, s.output = some o →
    o.1 ∈ names ∧ o.1 ∈ lines.map fieldValue ∧ ∃ st : Stanza, st.pkg = o.1 ∧ o.2 = st.output
  outputs : ∀ o ∈ s.outputs,
    o.1 ∈ names ∧ o.1 ∈ lines.map fieldValue ∧ ∃ st : Stanza, st.pkg = o.1 ∧ o.2 = st.output

theorem Listing.Stored.store {names lines : List Text} {s : Listing} (h : Stored names lines s) :
    Stored names lines s.store where
  val := h.val
  output := h.output
  outputs := by
    intro o ho
    rcases List.mem_append.mp ho with ho | ho
    · exact h.output o (Option.mem_toList.mp ho)
    · exact h.outputs o (List.mem_of_mem_filter ho)

theorem Stanza.set_package (s : Stanza) (v : Text) :
    (s.set chksumfield "package".toList v).pkg = v ∧
      (s.set chksumfield "package".toList v).val = some v := by
  have hver : "package".toList ≠ "version".toList := by decide
  have harc : "package".toList ≠ "architecture".toList := by decide
  have hfil : "package".toList ≠ "filename".toList := by decide
  have hsiz : "package".toList ≠ "size".toList := by decide
  unfold set
  simp only [if_neg hver, if_neg harc, if_neg hfil, if_neg hsiz, if_true]
  split <;> exact ⟨rfl, trivial⟩

theorem Stanza.set_pkg {s : Stanza} {f : Text} (h : f ≠ "package".toList) (v : Text) :
    (s.set chksumfield f v).pkg = s.pkg := by
  unfold set
  rw [if_neg h, if_neg h]
  split_ifs <;> rfl

theorem Listing.Stored.read {names lines : List Text} {s : Listing} (h : Stored names lines s)
    {line : Text} (hline : line ∈ lines) :
    Stored names lines (s.read chksumfield names line) := by
  unfold Listing.read
  split
  · by_cases hpkg : fieldName line = "package".toList
    · have hval : ∀ v, some (fieldValue line) = some v →
          fieldValue line = v ∧ v ∈ lines.map fieldValue := by
        rintro v ⟨⟩
        exact ⟨rfl, List.mem_map_of_mem hline⟩
      simp only [if_pos hpkg]
      refine ⟨?_, by simp, ?_⟩
      · rw [hpkg, (Stanza.set_package _ _).1, (Stanza.set_package _ _).2]
        exact hval
      · split
        · exact h.store.outputs
        · exact h.outputs
    · simp only [if_neg hpkg]
      refine ⟨?_, h.output, h.outputs⟩
      rw [Stanza.set_pkg hpkg, Stanza.set_val hpkg]
      exact h.val
  · split
    · refine ⟨by simp, ?_, h.outputs⟩
      cases hv : s.stanza.val with
      | none => exact h.output
      | some v =>
        dsimp only [Option.elim]
        split
        · next hmem =>
          rintro o ⟨⟩
          exact ⟨hmem, (h.val v hv).2, s.stanza, (h.val v hv).1, rfl⟩
        · exact h.output
    · exact h

theorem Listing.run_stored (names lines : List Text) :
    Stored names lines (run chksumfield names lines) := by
  unfold run
  refine Stored.store ?_
  have hread : ∀ ls : List Text, (∀ line ∈ ls, line ∈ lines) → Stored names lines
      (ls.foldl (Listing.read chksumfield names) ⟨.init, [], none, []⟩) := by
    intro ls hls
    induction ls using List.reverseRecOn with
    | nil => exact ⟨by simp [Stanza.init], by simp, by simp⟩
    | append_singleton ls line ih =>
      rw [List.foldl_concat]
      exact (ih fun l hl => hls l (List.mem_append_left _ hl)).read
        (hls line (List.mem_append_right _ List.mem_cons_self))
  exact hread _ fun _ => List.mem_of_mem_filter

/-! ## Names in the output -/

/-- `sed` finds the name in the output of a package. -/
theorem sedReal_output (s : Stanza) (h : ' ' ∉ s.pkg) : sedReal s.output = some s.pkg := by
  have hfront : ∀ c ∈ s.pkg, decide (c ≠ ' ') = true := by
    intro c hc
    exact decide_eq_true fun heq => h (heq ▸ hc)
  have houtput : s.output = s.pkg ++ ' ' :: (s.ver ++ ' ' :: (s.arc ++ ' ' :: ("REAL".toList ++
      ' ' :: (s.fil ++ ' ' :: (s.chk ++ ' ' :: s.siz))))) := by
    simp [Stanza.output, List.intercalate]
  have hdrop : s.output.dropWhile (· ≠ ' ') = ' ' :: (s.ver ++ ' ' :: (s.arc ++ ' ' ::
      ("REAL".toList ++ ' ' :: (s.fil ++ ' ' :: (s.chk ++ ' ' :: s.siz))))) := by
    rw [houtput, List.dropWhile_append_of_pos hfront, List.dropWhile_cons_of_neg (by simp)]
  have htake : s.output.takeWhile (· ≠ ' ') = s.pkg := by
    rw [houtput, List.takeWhile_append_of_pos hfront, List.takeWhile_cons_of_neg (by simp),
      List.append_nil]
  have hreal : "REAL".toList <:+: s.output.dropWhile (· ≠ ' ') := by
    rw [hdrop]
    exact ⟨' ' :: (s.ver ++ ' ' :: (s.arc ++ [' '])),
      ' ' :: (s.fil ++ ' ' :: (s.chk ++ ' ' :: s.siz)), by simp⟩
  rw [sedReal, if_pos hreal, htake]

/-- It finds none in the line of a package that is not there. -/
theorem sedReal_missing {v : Text} (h : ' ' ∉ v) : sedReal (v ++ " -".toList) = none := by
  have hfront : ∀ c ∈ v, decide (c ≠ ' ') = true := fun c hc =>
    decide_eq_true fun heq => h (heq ▸ hc)
  have hdrop : (v ++ " -".toList).dropWhile (· ≠ ' ') = " -".toList := by
    rw [List.dropWhile_append_of_pos hfront]
    rfl
  rw [sedReal, hdrop, if_neg (by decide)]

/-- The file has the package. -/
def Has (chksumfield : Text) (lines : List Text) (p : Text) : Prop :=
  ∃ l, (p, l) ∈ (Listing.run chksumfield [p] lines).outputs

/-- **The names that are found** are those of the given packages that the file has. -/
theorem mem_realNames_iff {lines names : List Text} (hnames : ∀ v ∈ names, ' ' ∉ v) {p : Text} :
    p ∈ realNames chksumfield lines names ↔ p ∈ names ∧ Has chksumfield lines p := by
  have hstored : (Listing.run chksumfield names lines).Stored names lines :=
    Listing.run_stored names lines
  rw [realNames, List.mem_filterMap]
  constructor
  · rintro ⟨line, hline, hsed⟩
    rcases List.mem_append.mp hline with hline | hline
    · obtain ⟨⟨v, l⟩, ho, rfl⟩ := List.mem_map.mp ((List.mem_insertionSort _).mp hline)
      obtain ⟨hmem, -, st, hpkg, heq⟩ := hstored.outputs (v, l) ho
      rw [heq, sedReal_output st (hpkg ▸ hnames v hmem)] at hsed
      obtain rfl : v = p := hpkg.symm.trans (Option.some.inj hsed)
      exact ⟨hmem, l, ((Listing.run_selects names lines hmem).outputs l).mpr ho⟩
    · obtain ⟨v, hv, rfl⟩ := List.mem_map.mp hline
      rw [sedReal_missing (hnames v (List.mem_dedup.mp (List.mem_of_mem_filter hv)))] at hsed
      exact absurd hsed (by simp)
  · rintro ⟨hmem, l, hl⟩
    have ho := ((Listing.run_selects names lines hmem).outputs l).mp hl
    obtain ⟨-, -, st, hpkg, heq⟩ := hstored.outputs (p, l) ho
    refine ⟨l, List.mem_append_left _ ((List.mem_insertionSort _).mpr (List.mem_map_of_mem ho)), ?_⟩
    obtain rfl : l = st.output := heq
    rw [sedReal_output st (hpkg ▸ hnames p hmem), hpkg]

/-- A package that a file has is the value of one of its lines. -/
theorem Has.mem {lines : List Text} {p : Text} (h : Has chksumfield lines p) :
    p ∈ lines.map fieldValue := by
  obtain ⟨l, hl⟩ := h
  exact ((Listing.run_stored [p] lines).outputs (p, l) hl).2.1

end Anx.Bootstrap
