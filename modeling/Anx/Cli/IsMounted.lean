import Anx.Cli.UmountOrder

/-!
# Whether a path is mounted

`is_mounted` looks for the path, between blanks, in the lines of `/proc/mounts`. The path is
taken for a regular expression there.

- `Mount.Listed`: an entry as the kernel lists it, with a normalised mount point;
- `Container.ExactFor`: for every table of such entries, `is_mounted` succeeds exactly when the
  path, but for a slash at its end, is a mount point;
- `exactFor_of_ordinary`: it does for the paths without operators;
- `standIn`: a path that an expression with dots and stars also stands for;
- `exactFor_iff`: **with dots or stars it does not**, if the path can be a mount point at all.
-/

namespace Anx.Cli

open Anx.Lib

/-- The path is absolute and has no empty names, and none that stands for a directory
itself or for the one above it. -/
def Normalised (path : Text) : Prop :=
  Normal path ∧ ∀ name ∈ components path, name ≠ ['.'] ∧ name ≠ ['.', '.']

instance (path : Text) : Decidable (Normalised path) :=
  inferInstanceAs (Decidable (_ ∧ ∀ name ∈ components path, _))

/-- An entry with a normalised mount point. After it come the type and the options, which do
not begin with a slash, and two numbers. -/
def Mount.Listed (m : Mount) : Prop :=
  Normalised m.dir ∧ ∃ type options, IsWord type ∧ type.head? ≠ some '/' ∧
    IsWord options ∧ options.head? ≠ some '/' ∧
    m.options = type ++ ' ' :: (options ++ [' ', '0', ' ', '0'])

namespace Container

/-- Whatever is mounted, `is_mounted` finds the path exactly if it is a mount point. -/
def ExactFor (c : Container) (path : Text) : Prop :=
  ∀ table : List Mount, (∀ m ∈ table, m.Listed) →
    (is_mounted { c with mounts := table } path = true ↔ ∃ m ∈ table, m.dir = stripSlash path)

/-- No line matches. -/
def FindsNone (c : Container) (path : Text) : Prop :=
  ∀ m : Mount, m.Listed → c.grep (' ' :: stripSlash path ++ [' ']) m.line = false

/-- The path has no operators, or it can be no mount point and is not found either. -/
def ReadsAsIs (c : Container) (path : Text) : Prop :=
  Ordinary (stripSlash path) ∨ ¬ Normalised (stripSlash path) ∧ c.FindsNone path

end Container

/-! ## Lines -/

/-- A field that does not begin with a slash. -/
theorem infix_of_field {w rest text : Text} (hw : IsWord w) (hhead : w.head? ≠ some '/')
    (h : ' ' :: '/' :: text <:+: ' ' :: (w ++ rest)) : ' ' :: '/' :: text <:+: rest := by
  rcases List.infix_cons_iff.mp h with hfirst | hlater
  · obtain ⟨-, hfirst⟩ := List.cons_prefix_cons.mp hfirst
    cases w with
    | nil => exact absurd rfl hw.1
    | cons d w =>
      rw [List.cons_append] at hfirst
      exact absurd (congrArg some (List.cons_prefix_cons.mp hfirst).1.symm) hhead
  · exact infix_of_append hw.blank_not_mem hlater

/-- The fields after the mount point do not show an absolute path. -/
theorem Mount.Listed.not_infix_options {m : Mount} (h : m.Listed) {path : Text}
    (habsolute : path.head? = some '/') : ¬ ' ' :: path ++ [' '] <:+: ' ' :: m.options := by
  obtain ⟨-, type, options, htype, htype', hoptions, hoptions', heq⟩ := h
  obtain ⟨path, rfl⟩ := List.head?_eq_some_iff.mp habsolute
  intro hshown
  rw [heq] at hshown
  have hzero : IsWord ['0'] := by decide
  have hafterType := infix_of_field htype htype' hshown
  have hafterOptions : ' ' :: '/' :: (path ++ [' ']) <:+: ' ' :: (['0'] ++ [' ', '0']) :=
    infix_of_field hoptions hoptions' hafterType
  have hlast : ' ' :: '/' :: (path ++ [' ']) <:+: ' ' :: (['0'] ++ []) :=
    infix_of_field hzero (by decide) hafterOptions
  cases List.infix_nil.mp (infix_of_field hzero (by decide) hlast)

namespace Container

/-- What is shown without a backslash is shown as it is. -/
theorem eq_of_mangle_eq {dir path : Text} (h : mangle dir = path) (hpath : '\\' ∉ path) :
    dir = path := by
  refine (mangle_of_forall fun ch hch hmem => hpath ?_).symm.trans h
  rw [← h]
  refine List.mem_flatMap.mpr ⟨ch, hch, ?_⟩
  simp only [List.mem_cons, List.not_mem_nil, or_false] at hmem
  rcases hmem with rfl | rfl | rfl | rfl <;> decide

/-- A path without blanks and backslashes is shown as it is. -/
theorem mangle_of_noBlank {path : Text} (hblank : ∀ ch ∈ path, ch.isWhitespace = false)
    (hbackslash : '\\' ∉ path) : mangle path = path := by
  refine mangle_of_forall fun ch hch hmem => ?_
  have hch' := hblank ch hch
  simp only [List.mem_cons, List.not_mem_nil, or_false] at hmem
  rcases hmem with rfl | rfl | rfl | rfl
  · exact absurd hch' (by decide)
  · exact absurd hch' (by decide)
  · exact absurd hch' (by decide)
  · exact hbackslash hch

theorem mem_of_mem_stripSlash {path : Text} {ch : Char} (h : ch ∈ stripSlash path) :
    ch ∈ path := by
  unfold stripSlash at h
  split at h
  · exact List.mem_of_mem_dropLast h
  · exact h

theorem stripSlash_ne_nil {path : Text} (habsolute : path.head? = some '/')
    (hroot : path ≠ ['/']) : stripSlash path ≠ [] := by
  obtain ⟨rest, rfl⟩ := List.head?_eq_some_iff.mp habsolute
  cases rest with
  | nil => exact absurd rfl hroot
  | cons ch rest =>
    unfold stripSlash
    split <;> simp

/-! ## Paths without operators -/

section

variable {c : Container} {path : Text}

theorem is_mounted_eq_true (hne : path ≠ []) (table : List Mount) :
    is_mounted { c with mounts := table } path = true ↔
      ∃ m ∈ table, c.grep (' ' :: stripSlash path ++ [' ']) m.line = true := by
  unfold is_mounted
  rw [Bool.and_eq_true, List.any_eq_true, and_iff_right (by simpa using hne)]
  rfl

/-- Such a path is found exactly where it is listed. -/
theorem grep_line_iff (habsolute : (stripSlash path).head? = some '/')
    (hblank : ∀ ch ∈ stripSlash path, ch.isWhitespace = false)
    (hordinary : Ordinary (stripSlash path)) {m : Mount} (hm : m.Listed) :
    c.grep (' ' :: stripSlash path ++ [' ']) m.line = true ↔ m.dir = stripSlash path := by
  generalize stripSlash path = path at habsolute hblank hordinary
  have hnotMem {ch : Char} (hch : ch.isWhitespace = true) : ch ∉ path := fun hmem =>
    Bool.false_ne_true ((hblank ch hmem).symm.trans hch)
  have hbackslash : '\\' ∉ path := fun hmem => hordinary _ hmem (by decide)
  have hpattern : Ordinary (' ' :: path ++ [' ']) := List.forall_mem_append.mpr
    ⟨List.forall_mem_cons.mpr ⟨by decide, hordinary⟩, by decide⟩
  have hnewline : '\n' ∉ ' ' :: path ++ [' '] := by
    have hpath : '\n' ∉ path := hnotMem (by decide)
    simpa using hpath
  have hend : (' ' :: path ++ [' ']).getLast? ≠ some '$' := by
    rw [List.getLast?_concat]
    decide
  unfold grep
  rw [grep_ordinary hpattern hnewline (by simp) (by simp) hend,
    infix_line_iff (hnotMem (by decide)), or_iff_left (hm.not_infix_options habsolute)]
  constructor
  · exact fun h => eq_of_mangle_eq h hbackslash
  · rintro rfl
    exact mangle_of_noBlank hblank hbackslash

/-- **Without operators `is_mounted` is exact.** -/
theorem exactFor_of_ordinary (habsolute : path.head? = some '/') (hroot : path ≠ ['/'])
    (hblank : ∀ ch ∈ path, ch.isWhitespace = false) (h : Ordinary (stripSlash path)) :
    c.ExactFor path := by
  have hne := stripSlash_ne_nil habsolute hroot
  intro table htable
  rw [is_mounted_eq_true (by rintro rfl; cases habsolute)]
  refine exists_congr fun m => and_congr_right fun hm => ?_
  exact grep_line_iff ((head?_stripSlash hne).trans habsolute)
    (fun ch hch => hblank ch (mem_of_mem_stripSlash hch)) h (htable m hm)

end

/-! ## A path that an expression also stands for -/

/-- What stands in for a name: every character with a star once, and a letter for a dot. -/
def once (name : Text) : Text :=
  (name.filter (· ≠ '*')).map fun ch => if ch = '.' then 'a' else ch

/-- What stands in for a path. A name that is only a star belongs to the slash before it,
which is left out. -/
def standIn (path : Text) : Text :=
  '/' :: ['/'].intercalate (((components path).filter (· ≠ ['*'])).map once)

/-- The text has no brackets, backslashes and stars after stars. -/
def DotsAndStars (text : Text) : Prop := '[' ∉ text ∧ '\\' ∉ text ∧ ¬ ['*', '*'] <:+: text

theorem mem_once {name : Text} {ch : Char} (h : ch ∈ once name) :
    ch = 'a' ∨ ch ∈ name ∧ ch ≠ '.' ∧ ch ≠ '*' := by
  obtain ⟨d, hd, rfl⟩ := List.mem_map.mp h
  obtain ⟨hd, hstar⟩ := List.mem_filter.mp hd
  split
  · exact .inl rfl
  · next hdot => exact .inr ⟨hd, hdot, of_decide_eq_true hstar⟩

theorem DotsAndStars.tail {ch : Char} {text : Text} (h : DotsAndStars (ch :: text)) :
    DotsAndStars text :=
  ⟨fun hmem => h.1 (List.mem_cons_of_mem _ hmem),
    fun hmem => h.2.1 (List.mem_cons_of_mem _ hmem),
    fun hstars => h.2.2 (hstars.trans (List.suffix_cons _ _).isInfix)⟩

theorem DotsAndStars.head?_ne {text : Text} (h : DotsAndStars ('*' :: text)) :
    text.head? ≠ some '*' := by
  intro hhead
  obtain ⟨rest, rfl⟩ := List.head?_eq_some_iff.mp hhead
  exact h.2.2 ⟨[], rest, rfl⟩

theorem DotsAndStars.notMem {ch : Char} {text : Text} (h : DotsAndStars (ch :: text))
    (hstar : ch ≠ '*') : ch ∉ ['\\', '[', '*'] := by
  simp only [List.mem_cons, List.not_mem_nil, or_false, not_or]
  exact ⟨fun heq => h.2.1 (heq ▸ List.mem_cons_self), fun heq => h.1 (heq ▸ List.mem_cons_self),
    hstar⟩

theorem once_cons {ch : Char} (hstar : ch ≠ '*') (text : Text) :
    once (ch :: text) = (if ch = '.' then 'a' else ch) :: once text := by
  unfold once
  rw [List.filter_cons_of_pos (by simpa using hstar), List.map_cons]

theorem once_star (text : Text) : once ('*' :: text) = once text := by
  unfold once
  rw [List.filter_cons_of_neg (by simp)]

/-- An expression stands for its text with every character with a star once. -/
theorem standsFor_once {name : Text} (hhead : name.head? ≠ some '*') (h : DotsAndStars name) :
    StandsFor name (once name) := by
  induction hlength : name.length using Nat.strong_induction_on generalizing name with
  | _ n ih =>
    cases name with
    | nil => exact .nil
    | cons ch name =>
      have hstar : ch ≠ '*' := fun heq => hhead (congrArg some heq)
      have hstands : ch = '.' ∨ (if ch = '.' then 'a' else ch) = ch := by
        by_cases hdot : ch = '.'
        · exact .inl hdot
        · exact .inr (if_neg hdot)
      rw [List.length_cons] at hlength
      rw [once_cons hstar]
      by_cases hnext : name.head? = some '*'
      · -- the character has a star, and stands for itself once
        obtain ⟨rest, rfl⟩ := List.head?_eq_some_iff.mp hnext
        rw [List.length_cons] at hlength
        rw [once_star]
        have hrest := ih _ (by omega) h.tail.head?_ne h.tail.tail rfl
        refine @StandsFor.star ch rest [_] _ (h.notMem hstar) (fun d hd => ?_) hrest
        rw [List.mem_singleton.mp hd]
        exact hstands
      · exact .one (h.notMem hstar) hstands (ih _ (by omega) hnext h.tail rfl)

/-- What stands in for a name and the slash before it. -/
def image (name : Text) : Text := if name = ['*'] then [] else '/' :: once name

theorem standsFor_image {name : Text} (h : DotsAndStars name) :
    StandsFor ('/' :: name) (image name) := by
  unfold image
  by_cases hhead : name.head? = some '*'
  · obtain ⟨rest, rfl⟩ := List.head?_eq_some_iff.mp hhead
    split
    · next hstar =>
      obtain rfl : rest = [] := (List.cons_eq_cons.mp hstar).2
      exact @StandsFor.star '/' [] [] [] (by decide) (by simp) .nil
    · rw [once_star]
      exact @StandsFor.star '/' rest ['/'] _ (by decide) (by simp)
        (standsFor_once h.head?_ne h.tail)
  · rw [if_neg (by rintro rfl; exact hhead rfl)]
    exact .one (by decide) (.inr rfl) (standsFor_once hhead h)

theorem standsFor_images {names : List Text} (h : ∀ name ∈ names, DotsAndStars name) :
    StandsFor (names.flatMap ('/' :: ·)) (names.flatMap image) := by
  induction names with
  | nil => exact .nil
  | cons name names ih =>
    exact (standsFor_image (h name List.mem_cons_self)).append
      (ih fun other hother => h other (List.mem_cons_of_mem _ hother))

theorem slash_intercalate {names : List Text} (h : names ≠ []) :
    '/' :: ['/'].intercalate names = names.flatMap ('/' :: ·) := by
  induction names with
  | nil => exact absurd rfl h
  | cons name names ih =>
    cases names with
    | nil => rw [List.intercalate_singleton, List.flatMap_singleton]
    | cons name' names =>
      rw [List.intercalate_cons_cons, List.flatMap_cons, ← ih (List.cons_ne_nil _ _)]
      simp

theorem components_slash {names : List Text} (h : ∀ name ∈ names, name ≠ [] ∧ '/' ∉ name) :
    components ('/' :: ['/'].intercalate names) = names := by
  have hslash : pieces (· = '/') ([] ++ '/' :: ['/'].intercalate names) = names := by
    rw [pieces_append_cons [] _ (by simp), pieces_nil, List.nil_append]
    refine pieces_intercalate (by simp) fun name hname => ?_
    obtain ⟨hne, hslash⟩ := h name hname
    exact ⟨hne, fun d hd => decide_eq_false fun heq => hslash (heq ▸ hd)⟩
  exact hslash

theorem of_mem_components {path name : Text} (h : name ∈ components path) :
    name ≠ [] ∧ '/' ∉ name := by
  obtain ⟨hne, hsep⟩ := of_mem_pieces h
  exact ⟨hne, fun hslash => of_decide_eq_false (hsep '/' hslash) rfl⟩

theorem flatMap_image (names : List Text) :
    names.flatMap image = ((names.filter (· ≠ ['*'])).map once).flatMap ('/' :: ·) := by
  induction names with
  | nil => rfl
  | cons name names ih =>
    rw [List.flatMap_cons, ih, image]
    by_cases hstar : name = ['*']
    · rw [if_pos hstar, List.filter_cons_of_neg (by simpa using hstar)]
      rfl
    · rw [if_neg hstar, List.filter_cons_of_pos (by simpa using hstar), List.map_cons,
        List.flatMap_cons]

theorem DotsAndStars.of_infix {text part : Text} (h : DotsAndStars text) (hpart : part <:+: text) :
    DotsAndStars part :=
  ⟨fun hmem => h.1 (hpart.subset hmem), fun hmem => h.2.1 (hpart.subset hmem),
    fun hstars => h.2.2 (hstars.trans hpart)⟩

/-- The names of a path. -/
theorem DotsAndStars.of_mem {path name : Text} (h : DotsAndStars path) (hnormal : Normal path)
    (hname : name ∈ components path) : DotsAndStars name := by
  have hpath : path = (components path).flatMap ('/' :: ·) :=
    hnormal.trans (slash_intercalate (List.ne_nil_of_mem hname))
  have hslash : '/' :: name <:+: path := by
    obtain ⟨before, after, hsplit⟩ := List.append_of_mem hname
    rw [hpath, hsplit]
    exact ⟨before.flatMap ('/' :: ·), after.flatMap ('/' :: ·), by simp⟩
  exact (h.of_infix hslash).tail

theorem once_ne_nil {name : Text} (h : DotsAndStars name) (hne : name ≠ []) (hstar : name ≠ ['*']) :
    once name ≠ [] := by
  cases name with
  | nil => exact absurd rfl hne
  | cons ch name =>
    by_cases hch : ch = '*'
    · subst hch
      cases name with
      | nil => exact absurd rfl hstar
      | cons d name =>
        have hd : d ≠ '*' := fun heq => h.head?_ne (congrArg some heq)
        rw [once_star, once_cons hd]
        exact List.cons_ne_nil _ _
    · rw [once_cons hch]
      exact List.cons_ne_nil _ _

section

variable {path : Text} (hnormal : Normal path) (h : DotsAndStars path)
include hnormal h

theorem components_standIn :
    components (standIn path) = ((components path).filter (· ≠ ['*'])).map once := by
  refine components_slash fun name' hname' => ?_
  obtain ⟨name, hname, rfl⟩ := List.mem_map.mp hname'
  obtain ⟨hname, hstar⟩ := List.mem_filter.mp hname
  obtain ⟨hne, hslash⟩ := of_mem_components hname
  refine ⟨once_ne_nil (h.of_mem hnormal hname) hne (of_decide_eq_true hstar), fun hmem => ?_⟩
  rcases mem_once hmem with heq | ⟨hmem, -⟩
  · exact absurd heq (by decide)
  · exact hslash hmem

theorem standIn_normalised : Normalised (standIn path) := by
  unfold Normalised Normal
  rw [components_standIn hnormal h]
  refine ⟨rfl, fun name' hname' => ?_⟩
  obtain ⟨name, -, rfl⟩ := List.mem_map.mp hname'
  have hdot : '.' ∉ once name := by
    intro hmem
    rcases mem_once hmem with heq | ⟨-, hne, -⟩
    · exact absurd heq (by decide)
    · exact hne rfl
  exact ⟨fun heq => hdot (heq ▸ List.mem_cons_self), fun heq => hdot (heq ▸ List.mem_cons_self)⟩

/-- The path, as an expression, stands for its stand-in. -/
theorem standsFor_standIn (hroot : path ≠ ['/']) : StandsFor path (standIn path) := by
  have hne : components path ≠ [] := by
    intro hnil
    rw [Normal, hnil] at hnormal
    exact hroot hnormal
  have hpath : path = (components path).flatMap ('/' :: ·) := hnormal.trans (slash_intercalate hne)
  have hnames : ∀ name ∈ components path, DotsAndStars name := fun name => h.of_mem hnormal
  unfold standIn
  generalize components path = names at hne hpath hnames
  have hstands := standsFor_images hnames
  rw [hpath]
  by_cases hnil : (names.filter (· ≠ ['*'])).map once = []
  · -- every name is a star: the first one stands for its slash once, the others for nothing
    rw [hnil]
    cases names with
    | nil => exact absurd rfl hne
    | cons name names =>
      have hall : ∀ other ∈ name :: names, other = ['*'] := by
        simpa [List.filter_eq_nil_iff] using List.map_eq_nil_iff.mp hnil
      obtain rfl := hall name List.mem_cons_self
      have hrest : names.flatMap image = [] := List.flatMap_eq_nil_iff.mpr fun other hother => by
        rw [hall other (List.mem_cons_of_mem _ hother)]
        rfl
      have hstands' := standsFor_images fun other hother =>
        hnames other (List.mem_cons_of_mem _ hother)
      rw [hrest] at hstands'
      exact @StandsFor.star '/' _ ['/'] [] (by decide) (by simp) hstands'
  · rw [slash_intercalate hnil, ← flatMap_image]
    exact hstands

end

theorem mem_standIn {path : Text} (hnormal : Normal path) {ch : Char} (h : ch ∈ standIn path) :
    ch = '/' ∨ ch = 'a' ∨ ch ∈ path ∧ ch ≠ '.' ∧ ch ≠ '*' := by
  unfold standIn at h
  by_cases hnil : ((components path).filter (· ≠ ['*'])).map once = []
  · rw [hnil] at h
    exact .inl (List.mem_singleton.mp h)
  · rw [slash_intercalate hnil] at h
    obtain ⟨name', hname', hch⟩ := List.mem_flatMap.mp h
    obtain ⟨name, hname, rfl⟩ := List.mem_map.mp hname'
    rcases List.mem_cons.mp hch with rfl | hch
    · exact .inl rfl
    · refine .inr ((mem_once hch).imp_right fun ⟨hmem, hne⟩ => ⟨?_, hne⟩)
      have hcomponents := List.mem_of_mem_filter hname
      rw [hnormal, slash_intercalate (List.ne_nil_of_mem hcomponents)]
      exact List.mem_flatMap.mpr ⟨name, hcomponents, List.mem_cons_of_mem _ hmem⟩

/-! ## When the path is found exactly where it is mounted -/

/-- An entry for a mount point. -/
def entryAt (dir : Text) (hne : dir ≠ []) : Mount :=
  ⟨"overlay".toList, dir, "overlay rw 0 0".toList, by decide, hne⟩

theorem entryAt_listed {dir : Text} (hne : dir ≠ []) (h : Normalised dir) :
    (entryAt dir hne).Listed :=
  ⟨h, "overlay".toList, "rw".toList, by decide, by decide, by decide, by decide, rfl⟩

section

variable {c : Container} {path : Text}

/-- A line with a text that the path stands for is found. -/
theorem grep_line_of_standsFor {dir : Text} (hstands : StandsFor (stripSlash path) dir)
    (hnewline : '\n' ∉ stripSlash path) {m : Mount} (hdir : mangle m.dir = dir) :
    c.grep (' ' :: stripSlash path ++ [' ']) m.line = true := by
  have hblank : StandsFor (' ' :: stripSlash path) (' ' :: dir) :=
    .one (by decide) (.inr rfl) hstands
  have hline : m.line = mangle m.source ++ ((' ' :: dir) ++ ' ' :: m.options) := by
    rw [Mount.line, hdir]
    rfl
  have hparse : parse [' '] = some [.one (.lit ' ')] := rfl
  rw [hline]
  exact hblank.selected hparse (by simp) (by simp) rfl (by simpa using hnewline) (by simp)
    (by simp) _

/-- A path with dots or stars is also found where its stand-in is mounted. -/
theorem ordinary_of_exactFor (hroot : stripSlash path ≠ ['/'])
    (hblank : ∀ ch ∈ stripSlash path, ch.isWhitespace = false)
    (hnormalised : Normalised (stripSlash path)) (hops : DotsAndStars (stripSlash path))
    (h : c.ExactFor path) : Ordinary (stripSlash path) := by
  by_contra hnot
  have hne : path ≠ [] := by
    rintro rfl
    exact hnot fun ch hch => absurd hch List.not_mem_nil
  obtain ⟨ch, hch, hop⟩ : ∃ ch ∈ stripSlash path, ch ∈ ['\\', '.', '[', '*'] := by
    unfold Ordinary at hnot
    push Not at hnot
    exact hnot
  have hwhite : ∀ d ∈ standIn (stripSlash path), d.isWhitespace = false := by
    intro d hd
    rcases mem_standIn hnormalised.1 hd with rfl | rfl | ⟨hd, -⟩
    · rfl
    · rfl
    · exact hblank d hd
  have hbackslash : '\\' ∉ standIn (stripSlash path) := by
    intro hd
    rcases mem_standIn hnormalised.1 hd with heq | heq | ⟨hd, -⟩
    · exact absurd heq (by decide)
    · exact absurd heq (by decide)
    · exact hops.2.1 hd
  have hdiffers : standIn (stripSlash path) ≠ stripSlash path := by
    intro heq
    rcases mem_standIn hnormalised.1 (heq.symm ▸ hch) with rfl | rfl | ⟨-, hdot, hstar⟩
    · exact absurd hop (by decide)
    · exact absurd hop (by decide)
    · simp only [List.mem_cons, List.not_mem_nil, or_false] at hop
      rcases hop with rfl | rfl | rfl | rfl
      · exact hops.2.1 hch
      · exact hdot rfl
      · exact hops.1 hch
      · exact hstar rfl
  -- the stand-in alone is mounted
  have hlisted := entryAt_listed (List.cons_ne_nil _ _) (standIn_normalised hnormalised.1 hops)
  have hfound : c.grep (' ' :: stripSlash path ++ [' '])
      (entryAt (standIn (stripSlash path)) (List.cons_ne_nil _ _)).line = true :=
    grep_line_of_standsFor (standsFor_standIn hnormalised.1 hops hroot)
      (fun hmem => Bool.false_ne_true ((hblank _ hmem).symm.trans (by decide)))
      (mangle_of_noBlank hwhite hbackslash)
  obtain ⟨m, hm, hdir⟩ := (h [_] fun m hm => List.mem_singleton.mp hm ▸ hlisted).mp
    ((is_mounted_eq_true hne _).mpr ⟨_, List.mem_singleton_self _, hfound⟩)
  rw [List.mem_singleton.mp hm] at hdir
  exact hdiffers hdir

/-- A path that can be no mount point. -/
theorem exactFor_iff_findsNone (hne : path ≠ []) (h : ¬ Normalised (stripSlash path)) :
    c.ExactFor path ↔ c.FindsNone path := by
  have hnot {m : Mount} (hm : m.Listed) : m.dir ≠ stripSlash path := fun heq => h (heq ▸ hm.1)
  constructor
  · intro hexact m hm
    refine eq_false_of_ne_true fun hgrep => ?_
    obtain ⟨m', hm', hdir⟩ := (hexact [m] (by simpa using hm)).mp
      ((is_mounted_eq_true hne _).mpr ⟨m, List.mem_singleton_self _, hgrep⟩)
    rw [List.mem_singleton.mp hm'] at hdir
    exact hnot hm hdir
  · intro hnone table htable
    rw [is_mounted_eq_true hne]
    constructor
    · rintro ⟨m, hm, hgrep⟩
      exact absurd hgrep (by rw [hnone m (htable m hm)]; exact Bool.false_ne_true)
    · rintro ⟨m, hm, hdir⟩
      exact absurd hdir (hnot (htable m hm))

end

/-- **`is_mounted` is exact for a path without operators**, and for one that can be no mount
point if no line matches it. For a mount point with dots and stars, and no other operators,
these are the only ones. -/
theorem exactFor_iff (c : Container) {path : Text} (habsolute : path.head? = some '/')
    (hroot : path ≠ ['/']) (hblank : ∀ ch ∈ path, ch.isWhitespace = false) :
    (c.ReadsAsIs path → c.ExactFor path) ∧
      ((Normalised (stripSlash path) → DotsAndStars (stripSlash path)) →
        (c.ExactFor path ↔ c.ReadsAsIs path)) := by
  have hne : path ≠ [] := by
    rintro rfl
    cases habsolute
  have hreads : c.ReadsAsIs path → c.ExactFor path := by
    rintro (hordinary | ⟨hnot, hnone⟩)
    · exact exactFor_of_ordinary habsolute hroot hblank hordinary
    · exact (exactFor_iff_findsNone hne hnot).mpr hnone
  refine ⟨hreads, fun hops => ⟨fun h => ?_, hreads⟩⟩
  by_cases hnormalised : Normalised (stripSlash path)
  · left
    by_cases hstripped : stripSlash path = ['/']
    · rw [hstripped]
      decide
    · exact ordinary_of_exactFor hstripped
        (fun ch hch => hblank ch (mem_of_mem_stripSlash hch)) hnormalised (hops hnormalised) h
  · exact .inr ⟨hnormalised, (exactFor_iff_findsNone hne hnormalised).mp h⟩

/-- With a slash at its end, and with a dot. -/
theorem exactFor_iff_linux : beside.ExactFor "/mnt/linux/".toList ∧
    (beside.ExactFor "/data/com.anx".toList ↔ beside.ReadsAsIs "/data/com.anx".toList) :=
  ⟨(exactFor_iff beside (by decide) (by decide) (by decide)).1 (.inl (by decide)),
    (exactFor_iff beside (by decide) (by decide) (by decide)).2
      fun _ => ⟨by decide, by decide, by decide⟩⟩

/-- The dot of `/data/com.anx` matches the letter in the mount point `/data/comXanx`. -/
theorem not_exactFor : ¬ ∀ (c : Container) path, path.head? = some '/' → path ≠ ['/'] →
    (∀ ch ∈ path, ch.isWhitespace = false) → c.ExactFor path := by
  intro h
  have hexact := h beside "/data/com.anx".toList (by decide) (by decide) (by decide)
  have hlisted : (entryAt "/data/comXanx".toList (by decide)).Listed :=
    entryAt_listed _ (by decide)
  obtain ⟨m, hm, hdir⟩ := (hexact [entryAt "/data/comXanx".toList (by decide)]
    fun m hm => List.mem_singleton.mp hm ▸ hlisted).mp (by decide)
  rw [List.mem_singleton.mp hm] at hdir
  exact absurd hdir (by decide)

end Container

end Anx.Cli
