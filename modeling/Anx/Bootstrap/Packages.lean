import Anx.Bootstrap.ResolveDeps

/-!
# Packages files made of stanzas

A `Packages` file is a sequence of stanzas: the name of a package, its other fields, and
an empty line. The programs of debootstrap read it line by line, with what they remember
of the lines before.

- `Entry`, `Entry.lines`: a stanza;
- `run_entries`: the program for dependencies at the end of a file;
- `listing_entries`: so for the program that finds packages;
- `needs_iff`: **what a package needs, in stanzas**, for a mirror with such files.
-/

namespace Anx.Bootstrap

open Anx.Lib

/-- A stanza: a package and its other fields. -/
structure Entry where
  name : Text
  fields : List Text
  noSpace : ∀ c ∈ name, isSpace c = false
  fields_wf : ∀ f ∈ fields, f ≠ [] ∧ behind "Package: " f = none ∧
    fieldName f ≠ "package".toList

namespace Entry

/-- The lines of a stanza. -/
def lines (e : Entry) : List Text := ("Package: ".toList ++ e.name) :: e.fields ++ [[]]

/-- The names of what the package depends on. -/
def depends (e : Entry) : List Text := e.fields.flatMap dependencies

end Entry

/-! ## Dependencies -/

theorem behind_append (key : String) (value : Text) :
    behind key (key.toList ++ value) = some value := by
  rw [behind, if_pos (List.isPrefixOf_iff_prefix.mpr (List.prefix_append _ _)), List.drop_left]

theorem isSome_behind {key : String} {line : Text} :
    (behind key line).isSome = true ↔ key.toList <+: line := by
  rw [behind, ← List.isPrefixOf_iff_prefix]
  split
  · next hkey => simp [hkey]
  · next hkey => simp [hkey]

/-- The first line of a stanza is one that `grep` lets through. -/
theorem behind_package (name : Text) :
    (behind "Package:" ("Package: ".toList ++ name)).isSome = true := by
  have hkey : "Package:".toList <+: "Package: ".toList := by decide
  exact isSome_behind.mpr (hkey.trans (List.prefix_append _ _))

/-- A line that `grep` drops has no dependencies. -/
theorem dependencies_of_not_isDepsLine {line : Text} (h : isDepsLine line = false) :
    dependencies line = [] := by
  have hkey : ∀ key longer : String, key.toList <+: longer.toList →
      (behind key line).isSome = false → behind longer line = none := by
    intro key longer hshort hnone
    rw [← Option.not_isSome_iff_eq_none, isSome_behind]
    intro hlong
    exact Bool.eq_false_iff.mp hnone (isSome_behind.mpr (hshort.trans hlong))
  simp only [isDepsLine, Bool.or_eq_false_iff] at h
  obtain ⟨⟨⟨-, -⟩, hdepends⟩, hpre⟩ := h
  rw [dependencies, hkey "Depends:" "Depends: " (by decide) hdepends,
    hkey "Pre-Depends:" "Pre-Depends: " (by decide) hpre]
  rfl

/-- The fields of the package that is looked for, and those of another one. -/
theorem foldl_fields (p name : Text) {fields : List Text}
    (hfields : ∀ f ∈ fields, f ≠ [] ∧ behind "Package: " f = none) (inside : Bool)
    (depends : List Text) (hinside : inside = true → name = p) :
    ∃ inside', (fields.filter isDepsLine).foldl (GetDeps.read [p]) ⟨name, inside, depends⟩ =
      ⟨name, inside', depends ++ if name = p then fields.flatMap dependencies else []⟩ := by
  induction fields generalizing inside depends with
  | nil => exact ⟨inside, by simp⟩
  | cons f fields ih =>
    obtain ⟨hne, hbehind⟩ := hfields f List.mem_cons_self
    have ih := ih fun g hg => hfields g (List.mem_cons_of_mem _ hg)
    by_cases hkept : isDepsLine f = true
    · rw [List.filter_cons_of_pos hkept, List.foldl_cons]
      have hread : GetDeps.read [p] ⟨name, inside, depends⟩ f = ⟨name, decide (name = p),
          depends ++ if name = p then dependencies f else []⟩ := by
        have hin : (inside || [p].contains name) = decide (name = p) := by
          cases inside with
          | false => simp
          | true => simp [hinside rfl]
        unfold GetDeps.read
        rw [hbehind]
        dsimp only
        rw [if_neg hne, hin]
        simp only [decide_eq_true_iff]
      rw [hread]
      obtain ⟨inside', hrun⟩ := ih (decide (name = p))
        (depends ++ if name = p then dependencies f else []) of_decide_eq_true
      refine ⟨inside', hrun.trans ?_⟩
      split
      · rw [List.flatMap_cons, List.append_assoc]
      · rw [List.append_nil]
    · have hnone := dependencies_of_not_isDepsLine (Bool.eq_false_iff.mpr hkept)
      rw [List.filter_cons_of_neg hkept, List.flatMap_cons, hnone]
      exact ih inside depends hinside

/-- A stanza, read by the program for dependencies. -/
theorem foldl_entry (p : Text) (e : Entry) (pkg : Text) (depends : List Text) :
    (e.lines.filter isDepsLine).foldl (GetDeps.read [p]) ⟨pkg, false, depends⟩ =
      ⟨e.name, false, depends ++ if e.name = p then e.depends else []⟩ := by
  have hname : isDepsLine ("Package: ".toList ++ e.name) = true := by
    rw [isDepsLine, behind_package, Bool.or_true, Bool.true_or, Bool.true_or]
  have hread : GetDeps.read [p] ⟨pkg, false, depends⟩ ("Package: ".toList ++ e.name) =
      ⟨e.name, false, depends⟩ := by
    unfold GetDeps.read
    rw [behind_append]
  obtain ⟨inside, hfields⟩ := foldl_fields p e.name
    (fun f hf => ⟨(e.fields_wf f hf).1, (e.fields_wf f hf).2.1⟩) false depends (by simp)
  rw [Entry.lines, List.cons_append, List.filter_cons_of_pos hname, List.foldl_cons, hread,
    List.filter_append, List.foldl_append, hfields]
  rfl

/-- The program for dependencies, at the end of a file. -/
theorem run_entries (p : Text) (entries : List Entry) :
    (GetDeps.run [p] (entries.flatMap Entry.lines)).depends =
      entries.flatMap fun e => if e.name = p then e.depends else [] := by
  have hrun : ∀ (es : List Entry) (pkg : Text) (depends : List Text), ∃ pkg',
      ((es.flatMap Entry.lines).filter isDepsLine).foldl (GetDeps.read [p]) ⟨pkg, false, depends⟩ =
        ⟨pkg', false, depends ++ es.flatMap fun e => if e.name = p then e.depends else []⟩ := by
    intro es
    induction es with
    | nil => exact fun pkg depends => ⟨pkg, by simp⟩
    | cons e es ih =>
      intro pkg depends
      rw [List.flatMap_cons, List.filter_append, List.foldl_append, foldl_entry]
      obtain ⟨pkg', hrun⟩ := ih e.name (depends ++ if e.name = p then e.depends else [])
      exact ⟨pkg', by rw [hrun, List.flatMap_cons, List.append_assoc]⟩
  obtain ⟨pkg', hrun⟩ := hrun entries [] []
  rw [GetDeps.run, hrun]
  rfl

theorem mem_GETDEPS_entries {p d : Text} {entries : List Entry} :
    d ∈ GETDEPS (entries.flatMap Entry.lines) [p] ↔
      ∃ e ∈ entries, e.name = p ∧ d ∈ e.depends := by
  rw [GETDEPS, mem_sortUniq, run_entries, List.mem_flatMap]
  refine exists_congr fun e => and_congr_right fun _ => ?_
  split
  · next hname => simp [hname]
  · next hname => simp [hname]

/-! ## Packages that are there -/

variable (chksumfield : Text)

theorem Listing.exists_mem_store {s : Listing} {p : Text} :
    (∃ l, (p, l) ∈ s.store.outputs) ↔
      (∃ l, s.output = some (p, l)) ∨ ∃ l, (p, l) ∈ s.outputs := by
  simp only [mem_store]
  constructor
  · rintro ⟨l, hl | ⟨hl, -⟩⟩
    · exact .inl ⟨l, hl⟩
    · exact .inr ⟨l, hl⟩
  · rintro (⟨l, hl⟩ | ⟨l, hl⟩)
    · exact ⟨l, .inl hl⟩
    · by_cases houtput : ∃ l', s.output = some (p, l')
      · obtain ⟨l', hl'⟩ := houtput
        exact ⟨l', .inl hl'⟩
      · exact ⟨l, .inr ⟨hl, fun l' hl' => houtput ⟨l', hl'⟩⟩⟩

/-- The program between two stanzas: `found` says whether a stanza of the package has been
read, and what waits is of the last one. -/
structure Listing.Between (p : Text) (found : Prop) (s : Listing) : Prop where
  found : (∃ l, (p, l) ∈ s.store.outputs) ↔ found
  output : ∀ o, s.output = some o → s.prevpkg = p

/-- Inside a stanza: nothing waits. -/
structure Listing.Inside (p : Text) (found : Prop) (name : Text) (s : Listing) : Prop where
  found : name ≠ p → ((∃ l, (p, l) ∈ s.outputs) ↔ found)
  output : s.output = none
  prevpkg : s.prevpkg = name
  val : s.stanza.val = some name

theorem fieldName_package (name : Text) :
    fieldName ("Package: ".toList ++ name) = "package".toList := by
  have htake : ("Package: ".toList ++ name).takeWhile (· ≠ ':') = "Package".toList := rfl
  rw [fieldName, htake]
  decide

theorem fieldValue_package {name : Text} (h : ∀ c ∈ name, isSpace c = false) :
    fieldValue ("Package: ".toList ++ name) = name := by
  have hdrop : (("Package: ".toList ++ name).dropWhile (· ≠ ':')).tail = ' ' :: name := rfl
  rw [fieldValue, hdrop, List.dropWhile_cons_of_pos (by decide)]
  cases name with
  | nil => rfl
  | cons c name => exact List.dropWhile_cons_of_neg (by simp [h c List.mem_cons_self])

theorem Listing.Between.read_package {p : Text} {found : Prop} {s : Listing}
    (h : Between p found s) {name : Text} (hname : ∀ c ∈ name, isSpace c = false) :
    Inside p found name (s.read chksumfield [p] ("Package: ".toList ++ name)) := by
  have hcolon : ':' ∈ "Package: ".toList ++ name := List.mem_append_left _ (by decide)
  unfold Listing.read
  rw [if_pos hcolon, fieldName_package, fieldValue_package hname]
  dsimp only
  rw [if_pos rfl]
  by_cases hprev : name = s.prevpkg
  · rw [if_neg (not_not_intro hprev)]
    refine ⟨fun hne => ?_, rfl, hprev.symm, (Stanza.set_package _ _).2⟩
    -- what waits is of the same package, which is another one than the one looked for
    rw [← h.found, exists_mem_store]
    refine (or_iff_right ?_).symm
    rintro ⟨l, hl⟩
    exact hne (hprev.trans (h.output _ hl))
  · rw [if_pos hprev]
    exact ⟨fun _ => h.found, rfl, rfl, (Stanza.set_package _ _).2⟩

theorem Listing.Inside.read_field {p : Text} {found : Prop} {name : Text} {s : Listing}
    (h : Inside p found name s) {f : Text} (hne : f ≠ [])
    (hpkg : fieldName f ≠ "package".toList) :
    Inside p found name (s.read chksumfield [p] f) := by
  unfold Listing.read
  by_cases hcolon : ':' ∈ f
  · rw [if_pos hcolon]
    dsimp only
    rw [if_neg hpkg]
    exact ⟨h.found, h.output, h.prevpkg, (Stanza.set_val hpkg _).trans h.val⟩
  · rw [if_neg hcolon, if_neg hne]
    exact h

theorem Listing.Inside.read_end {p : Text} {found : Prop} {name : Text} {s : Listing}
    (h : Inside p found name s) :
    Between p (found ∨ name = p) (s.read chksumfield [p] []) := by
  unfold Listing.read
  rw [if_neg List.not_mem_nil, if_pos rfl, h.val, h.output]
  dsimp only [Option.elim]
  by_cases hname : name = p
  · rw [if_pos (by simp [hname])]
    refine ⟨?_, fun _ _ => h.prevpkg.trans hname⟩
    rw [exists_mem_store]
    exact iff_of_true (.inl ⟨_, by rw [hname]⟩) (.inr hname)
  · rw [if_neg (by simp [hname])]
    refine ⟨?_, fun o ho => absurd ho (by simp)⟩
    rw [exists_mem_store, or_iff_left hname, ← h.found hname]
    exact or_iff_right (by simp)

/-- A stanza, read by the program that finds packages. -/
theorem Listing.Between.read_entry {p : Text} {found : Prop} {s : Listing} (h : Between p found s)
    (e : Entry) :
    Between p (found ∨ e.name = p)
      ((e.lines.filter isFieldLine).foldl (Listing.read chksumfield [p]) s) := by
  have hfirst : isFieldLine ("Package: ".toList ++ e.name) = true := by
    rw [isFieldLine, Bool.or_eq_true, List.any_eq_true]
    exact .inr ⟨"Package:", by decide, behind_package e.name⟩
  have hfields : ∀ (fields : List Text) (s : Listing),
      (∀ f ∈ fields, f ≠ [] ∧ fieldName f ≠ "package".toList) → Inside p found e.name s →
      Inside p found e.name
        ((fields.filter isFieldLine).foldl (Listing.read chksumfield [p]) s) := by
    intro fields
    induction fields with
    | nil => exact fun s _ hs => hs
    | cons f fields ih =>
      intro s hwf hs
      obtain ⟨hne, hpkg⟩ := hwf f List.mem_cons_self
      have hrest : ∀ g ∈ fields, g ≠ [] ∧ fieldName g ≠ "package".toList :=
        fun g hg => hwf g (List.mem_cons_of_mem _ hg)
      rw [List.filter_cons]
      split
      · exact ih _ hrest (hs.read_field chksumfield hne hpkg)
      · exact ih s hrest hs
  have hinside := hfields e.fields _ (fun f hf => ⟨(e.fields_wf f hf).1, (e.fields_wf f hf).2.2⟩)
    (h.read_package chksumfield e.noSpace)
  rw [Entry.lines, List.cons_append, List.filter_cons_of_pos hfirst, List.foldl_cons,
    List.filter_append, List.foldl_append]
  exact hinside.read_end chksumfield

/-- The program finds the packages that have a stanza. -/
theorem has_entries_iff {p : Text} {entries : List Entry} :
    Has chksumfield (entries.flatMap Entry.lines) p ↔ ∃ e ∈ entries, e.name = p := by
  have hrun : ∀ (es : List Entry) (found : Prop) (s : Listing), Listing.Between p found s →
      Listing.Between p (found ∨ ∃ e ∈ es, e.name = p)
        (((es.flatMap Entry.lines).filter isFieldLine).foldl (Listing.read chksumfield [p]) s) := by
    intro es
    induction es with
    | nil =>
      intro found s hs
      simpa using hs
    | cons e es ih =>
      intro found s hs
      rw [List.flatMap_cons, List.filter_append, List.foldl_append]
      have hrest := ih _ _ (hs.read_entry chksumfield e)
      rw [or_assoc] at hrest
      simpa only [List.exists_mem_cons_iff] using hrest
  have hstart : Listing.Between p False ⟨.init, [], none, []⟩ :=
    ⟨by rw [Listing.exists_mem_store]; simp, fun o ho => absurd ho (by simp)⟩
  rw [Has, Listing.run, (hrun entries False _ hstart).found, false_or]

/-! ## Mirrors -/

/-- **What a package needs, in stanzas**: a name in a dependency of one of its stanzas, that is
not excluded, and has a stanza itself. -/
theorem needs_iff {m : Mirror} {indices : List (List Entry)}
    (h : m.files = indices.map fun entries => entries.flatMap Entry.lines) (p q : Text) :
    m.Needs p q ↔
      (∃ entries ∈ indices, ∃ e ∈ entries, e.name = p ∧ q ∈ e.depends.flatMap words) ∧
        q ∉ words m.EXCLUDE_DEPENDENCY ∧ ∃ entries ∈ indices, ∃ e ∈ entries, e.name = q := by
  have hdepends : m.DependsOn p q ↔
      ∃ entries ∈ indices, ∃ e ∈ entries, e.name = p ∧ q ∈ e.depends.flatMap words := by
    rw [Mirror.DependsOn, h]
    simp only [List.mem_map, exists_exists_and_eq_and, List.mem_flatMap, mem_GETDEPS_entries]
    refine exists_congr fun entries => and_congr_right fun _ => ?_
    constructor
    · rintro ⟨d, ⟨e, he, hname, hd⟩, hq⟩
      exact ⟨e, he, hname, d, hd, hq⟩
    · rintro ⟨e, he, hname, d, hd, hq⟩
      exact ⟨d, ⟨e, he, hname, hd⟩, hq⟩
  have hhas : m.HasPackage q ↔ ∃ entries ∈ indices, ∃ e ∈ entries, e.name = q := by
    rw [Mirror.HasPackage, h]
    simp only [List.mem_map, exists_exists_and_eq_and, has_entries_iff]
  rw [← hdepends, ← hhas]
  exact ⟨fun hn => ⟨hn.depends, hn.allowed, hn.has⟩, fun hn => ⟨hn.1, hn.2.1, hn.2.2⟩⟩

/-- The stanzas of `Mirror.sample`. -/
def sampleEntries : List (List Entry) :=
  [[⟨"a".toList, ["Depends: b (>= 2) | x, c", "Size: 1"].map String.toList, by decide, by decide⟩,
    ⟨"b".toList, ["Size: 1"].map String.toList, by decide, by decide⟩,
    ⟨"c".toList, ["Pre-Depends: a, e:any", "Size: 2"].map String.toList, by decide, by decide⟩,
    ⟨"d".toList, ["Depends: b, nowhere", "Size: 4"].map String.toList, by decide, by decide⟩], []]

theorem needs_iff_sample :
    Mirror.sample.Needs "a".toList "b".toList ↔
      (∃ entries ∈ sampleEntries, ∃ e ∈ entries, e.name = "a".toList ∧
        "b".toList ∈ e.depends.flatMap words) ∧
        "b".toList ∉ words Mirror.sample.EXCLUDE_DEPENDENCY ∧
          ∃ entries ∈ sampleEntries, ∃ e ∈ entries, e.name = "b".toList :=
  needs_iff (by decide +kernel) _ _

end Anx.Bootstrap
