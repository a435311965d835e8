import Anx.Bootstrap.Pkgdetails
import Anx.Lib.Frontier

/-!
# The packages of a Debian system

`resolve_deps` of debootstrap (bootstrap/debian/debootstrap/functions:1392–1426) adds to a
list of packages what they depend on, until nothing is new; `debootstrap` calls it for the
required packages and for those of the base system (lines 705–740), and downloads what
comes out.

- `Mirror`: the `Packages` files of the suites and components;
- `resolve_round`, `resolve_deps`: one round of the loop, and the loop;
- `finddebs`: `required` and `base` as they are downloaded;
- `Needs`: a package needs another one that the mirror has and that is not excluded as a
  dependency;
- `resolve_deps_spec`: **the loop ends, with the least set that has the given packages and
  what its members need**; `finddebs_isLeast` for both lists.

Texts have no tabs, and are such that `echo` prints them as they are.
-/

namespace Anx.Bootstrap

open Anx.Lib

/-- The files of the mirror, for each suite and component, and what goes with them. -/
structure Mirror where
  files : List (List Text)
  chksumfield : Text
  EXCLUDE_DEPENDENCY : Text
  tabs : ∀ file ∈ files, ∀ line ∈ file, '\t' ∉ line
  tab_not_mem : '\t' ∉ EXCLUDE_DEPENDENCY

/-- Lines of the program of each file, with a blank before those of a file. -/
def collected (outputs : List (List Text)) : Text :=
  outputs.flatMap fun out => ' ' :: substituted out

namespace Mirror

variable (m : Mirror)

/-- `$NEWPKGS`. -/
def newpkgs (PKGS : Text) : Text :=
  let NEWPKGS := collected (m.files.map (GETDEPS · (words PKGS)))
  if m.EXCLUDE_DEPENDENCY ≠ [] then without NEWPKGS m.EXCLUDE_DEPENDENCY else NEWPKGS

/-- `$REALPKGS`. -/
def realpkgs (PKGS : Text) : Text :=
  collected (m.files.map (realNames m.chksumfield · (words PKGS)))

/-- One round: `PKGS` and `ALLPKGS` at its end. -/
def resolve_round (PKGS ALLPKGS : Text) : Text × Text :=
  let PKGS := substituted (sortUniq (trLines (PKGS ++ ' ' :: m.newpkgs PKGS)))
  let PKGS := m.realpkgs PKGS
  let ALLPKGS2 := substituted (sortUniq (trLines (PKGS ++ ' ' :: ALLPKGS)))
  (without ALLPKGS2 ALLPKGS, ALLPKGS2)

/-- The loop, for at most so many tests of its condition. -/
def resolve_loop : Nat → Text → Text → Option Text
  | 0, _, _ => none
  | k + 1, PKGS, ALLPKGS =>
    if PKGS ≠ [] then
      let r := m.resolve_round PKGS ALLPKGS
      resolve_loop k r.1 r.2
    else some ALLPKGS

/-- `$(resolve_deps "$PKGS")`. -/
def resolve_deps (k : Nat) (PKGS : Text) : Option Text :=
  (m.resolve_loop k PKGS PKGS).map (List.rdropWhile (· = '\n'))

/-- `required` and `base` (debootstrap:705–721). -/
def finddebs (k : Nat) (required base ADDITIONAL EXCLUDE : Text) : Option (Text × Text) :=
  let base := without (base ++ ' ' :: ADDITIONAL) EXCLUDE
  let required := without required EXCLUDE
  let requiredX := substituted (sortUniq (trLines required))
  let baseX := substituted (sortUniq (trLines base))
  (m.resolve_deps k requiredX).bind fun required =>
    (m.resolve_deps k baseX).map fun base => (required, without base required)

/-! ## What packages need -/

/-- A name among the dependencies of the package. -/
def DependsOn (p q : Text) : Prop := ∃ file ∈ m.files, q ∈ (GETDEPS file [p]).flatMap words

/-- The mirror has the package. -/
def HasPackage (q : Text) : Prop := ∃ file ∈ m.files, Has m.chksumfield file q

/-- The package is installed when the other one is. -/
structure Needs (p q : Text) : Prop where
  depends : m.DependsOn p q
  allowed : q ∉ words m.EXCLUDE_DEPENDENCY
  has : m.HasPackage q

/-- How many lines the files have. -/
def size : Nat := (m.files.flatMap fun file => file.map fieldValue).length

variable {m}

/-! ## Words of the variables -/

theorem words_append_collected (text : Text) (outputs : List (List Text)) :
    words (text ++ collected outputs) = words text ++ outputs.flatMap (·.flatMap words) := by
  induction outputs generalizing text with
  | nil => simp [collected]
  | cons out outputs ih =>
    have hcons : collected (out :: outputs) = ' ' :: (substituted out ++ collected outputs) := rfl
    rw [hcons, words_append_cons _ _ rfl, ih, words_substituted, List.flatMap_cons]

theorem mem_words_collected {outputs : List (List Text)} {w : Text} :
    w ∈ words (collected outputs) ↔ ∃ out ∈ outputs, w ∈ out.flatMap words := by
  rw [← List.nil_append (collected outputs), words_append_collected, words, pieces_nil,
    List.nil_append, List.mem_flatMap]

theorem tab_not_mem_collected {outputs : List (List Text)}
    (h : ∀ out ∈ outputs, ∀ l ∈ out, '\t' ∉ l) : '\t' ∉ collected outputs := by
  intro hmem
  obtain ⟨out, hout, hmem⟩ := List.mem_flatMap.mp hmem
  rcases List.mem_cons.mp hmem with heq | hmem
  · exact absurd heq (by decide)
  · exact tab_not_mem_substituted (h out hout) hmem

theorem tab_not_mem_append {a b : Text} (ha : '\t' ∉ a) (hb : '\t' ∉ b) :
    '\t' ∉ a ++ ' ' :: b := by
  simp [ha, hb]

/-- A word has no blanks. -/
theorem space_not_mem_words {text w : Text} (h : w ∈ words text) : ' ' ∉ w :=
  IsWord.blank_not_mem (of_mem_pieces h)

/-! ## One round -/

theorem tab_not_mem_collected_GETDEPS (names : List Text) :
    '\t' ∉ collected (m.files.map (GETDEPS · names)) := by
  refine tab_not_mem_collected fun out hout l hl hmem => ?_
  obtain ⟨file, hfile, rfl⟩ := List.mem_map.mp hout
  obtain ⟨line, hline, hmem⟩ := mem_of_mem_GETDEPS hl hmem
  exact m.tabs file hfile line hline hmem

theorem mem_words_newpkgs {PKGS q : Text} :
    q ∈ words (m.newpkgs PKGS) ↔
      (∃ p ∈ words PKGS, m.DependsOn p q) ∧ q ∉ words m.EXCLUDE_DEPENDENCY := by
  have hcollected : q ∈ words (collected (m.files.map (GETDEPS · (words PKGS)))) ↔
      ∃ p ∈ words PKGS, m.DependsOn p q := by
    simp only [mem_words_collected, List.mem_map, List.mem_flatMap, DependsOn]
    constructor
    · rintro ⟨_, ⟨file, hfile, rfl⟩, d, hd, hq⟩
      obtain ⟨p, hp, hd⟩ := mem_GETDEPS_iff.mp hd
      exact ⟨p, hp, file, hfile, d, hd, hq⟩
    · rintro ⟨p, hp, file, hfile, d, hd, hq⟩
      exact ⟨_, ⟨file, hfile, rfl⟩, d, mem_GETDEPS_iff.mpr ⟨p, hp, hd⟩, hq⟩
  rw [newpkgs]
  split
  · rw [mem_words_without (tab_not_mem_collected_GETDEPS _) m.tab_not_mem, hcollected]
  · next hempty =>
    rw [not_ne_iff.mp hempty, hcollected]
    simp [words]

theorem tab_not_mem_newpkgs (PKGS : Text) : '\t' ∉ m.newpkgs PKGS := by
  rw [newpkgs]
  split
  · exact tab_not_mem_without (tab_not_mem_collected_GETDEPS _)
  · exact tab_not_mem_collected_GETDEPS _

theorem mem_words_realpkgs {PKGS q : Text} :
    q ∈ words (m.realpkgs PKGS) ↔ q ∈ words PKGS ∧ m.HasPackage q := by
  have hspace : ∀ v ∈ words PKGS, ' ' ∉ v := fun v hv => space_not_mem_words hv
  have hword : ∀ v ∈ words PKGS, words v = [v] := fun v hv => words_of_isWord (of_mem_pieces hv)
  simp only [realpkgs, mem_words_collected, List.mem_map, List.mem_flatMap, HasPackage]
  constructor
  · rintro ⟨_, ⟨file, hfile, rfl⟩, d, hd, hq⟩
    obtain ⟨hmem, hhas⟩ := (mem_realNames_iff hspace).mp hd
    rw [hword d hmem] at hq
    obtain rfl := List.mem_singleton.mp hq
    exact ⟨hmem, file, hfile, hhas⟩
  · rintro ⟨hmem, file, hfile, hhas⟩
    refine ⟨_, ⟨file, hfile, rfl⟩, q, (mem_realNames_iff hspace).mpr ⟨hmem, hhas⟩, ?_⟩
    rw [hword q hmem]
    exact List.mem_cons_self

theorem tab_not_mem_realpkgs (PKGS : Text) : '\t' ∉ m.realpkgs PKGS := by
  refine tab_not_mem_collected fun out hout l hl hmem => ?_
  obtain ⟨file, -, rfl⟩ := List.mem_map.mp hout
  have hl := ((mem_realNames_iff fun v hv => space_not_mem_words hv).mp hl).1
  exact absurd ((of_mem_pieces hl).2 '\t' hmem) (by decide)

/-- The packages of a round that the mirror has. -/
def kept (m : Mirror) (PKGS : Text) : Text :=
  m.realpkgs (substituted (sortUniq (trLines (PKGS ++ ' ' :: m.newpkgs PKGS))))

theorem resolve_round_snd (PKGS ALLPKGS : Text) : (m.resolve_round PKGS ALLPKGS).2 =
    substituted (sortUniq (trLines (m.kept PKGS ++ ' ' :: ALLPKGS))) := by
  simp only [resolve_round, kept]

theorem resolve_round_fst (PKGS ALLPKGS : Text) : (m.resolve_round PKGS ALLPKGS).1 =
    without (m.resolve_round PKGS ALLPKGS).2 ALLPKGS := by
  simp only [resolve_round]

theorem tab_not_mem_kept (PKGS : Text) : '\t' ∉ m.kept PKGS := tab_not_mem_realpkgs _

theorem mem_words_kept {PKGS q : Text} (hPKGS : '\t' ∉ PKGS) :
    q ∈ words (m.kept PKGS) ↔ (q ∈ words PKGS ∨ (∃ p ∈ words PKGS, m.DependsOn p q) ∧
      q ∉ words m.EXCLUDE_DEPENDENCY) ∧ m.HasPackage q := by
  rw [kept, mem_words_realpkgs,
    mem_words_sortUniq (tab_not_mem_append hPKGS (tab_not_mem_newpkgs PKGS)),
    words_append_cons _ _ rfl, List.mem_append, mem_words_newpkgs]

/-- What a round has seen: what was seen before, and what the packages of `PKGS` need. -/
theorem mem_words_resolve_round {PKGS ALLPKGS : Text} (hPKGS : '\t' ∉ PKGS)
    (hALL : '\t' ∉ ALLPKGS) (hsub : ∀ p ∈ words PKGS, p ∈ words ALLPKGS) (q : Text) :
    q ∈ words (m.resolve_round PKGS ALLPKGS).2 ↔
      q ∈ words ALLPKGS ∨ ∃ p ∈ words PKGS, m.Needs p q := by
  rw [resolve_round_snd, mem_words_sortUniq (tab_not_mem_append (tab_not_mem_kept PKGS) hALL),
    words_append_cons _ _ rfl, List.mem_append, mem_words_kept hPKGS]
  constructor
  · rintro (⟨hmem | ⟨⟨p, hp, hdep⟩, hallowed⟩, hhas⟩ | hmem)
    · exact .inl (hsub q hmem)
    · exact .inr ⟨p, hp, hdep, hallowed, hhas⟩
    · exact .inl hmem
  · rintro (hmem | ⟨p, hp, hneeds⟩)
    · exact .inr hmem
    · exact .inl ⟨.inr ⟨⟨p, hp, hneeds.depends⟩, hneeds.allowed⟩, hneeds.has⟩

/-- The lists at the end of a round. -/
structure Listed (PKGS ALLPKGS : Text) : Prop where
  tab_not_mem : '\t' ∉ PKGS
  tab_not_mem_all : '\t' ∉ ALLPKGS
  nodup : (words ALLPKGS).Nodup

theorem resolve_round_listed (PKGS : Text) {ALLPKGS : Text} (hALL : '\t' ∉ ALLPKGS) :
    Listed (m.resolve_round PKGS ALLPKGS).1 (m.resolve_round PKGS ALLPKGS).2 := by
  have htab := tab_not_mem_append (tab_not_mem_kept (m := m) PKGS) hALL
  rw [resolve_round_fst, resolve_round_snd]
  exact ⟨tab_not_mem_without (tab_not_mem_sortUniq htab), tab_not_mem_sortUniq htab,
    words_sortUniq_nodup htab⟩

/-- The new list starts with an empty line. -/
theorem nil_mem_resolve_round (PKGS ALLPKGS : Text) :
    [] ∈ trLines (m.resolve_round PKGS ALLPKGS).2 := by
  have hhead : ∀ outputs text, ∀ c ∈ (collected outputs ++ ' ' :: text).head?, c = ' ' := by
    intro outputs text c hc
    cases outputs with
    | nil => exact (Option.mem_some_iff.mp hc).symm
    | cons out outputs => exact (Option.mem_some_iff.mp hc).symm
  rw [resolve_round_snd, kept, realpkgs]
  exact nil_mem_trLines_sortUniq (nil_mem_trLines fun c hc => .inl (hhead _ _ c hc))

theorem resolve_round_frontier {first : Set Text} {PKGS ALLPKGS : Text} (hl : Listed PKGS ALLPKGS)
    (h : Frontier m.Needs first {p | p ∈ words ALLPKGS} {p | p ∈ words PKGS}) :
    Frontier m.Needs first {p | p ∈ words (m.resolve_round PKGS ALLPKGS).2}
      {p | p ∈ words (m.resolve_round PKGS ALLPKGS).1} := by
  have hround := resolve_round_listed (m := m) PKGS hl.tab_not_mem_all
  refine h.round (mem_words_resolve_round hl.tab_not_mem hl.tab_not_mem_all h.frontier) fun q => ?_
  show q ∈ words (m.resolve_round PKGS ALLPKGS).1 ↔ _
  rw [resolve_round_fst]
  exact mem_words_without hround.tab_not_mem_all hl.tab_not_mem_all

/-! ## The loop -/

/-- The packages of the mirror that are not listed. -/
def unseen (m : Mirror) (ALLPKGS : Text) : List Text :=
  (m.files.flatMap fun file => file.map fieldValue).filter (· ∉ words ALLPKGS)

theorem unseen_length_le (ALLPKGS : Text) : (m.unseen ALLPKGS).length ≤ m.size :=
  List.length_filter_le _ _

/-- A round that finds something new leaves fewer packages. -/
theorem unseen_resolve_round {PKGS ALLPKGS : Text} (hl : Listed PKGS ALLPKGS)
    (hsub : ∀ p ∈ words PKGS, p ∈ words ALLPKGS) (hnil : [] ∈ trLines ALLPKGS)
    (hne : (m.resolve_round PKGS ALLPKGS).1 ≠ []) :
    (m.unseen (m.resolve_round PKGS ALLPKGS).2).length < (m.unseen ALLPKGS).length := by
  have hround := resolve_round_listed (m := m) PKGS hl.tab_not_mem_all
  have hmem := mem_words_resolve_round (m := m) hl.tab_not_mem hl.tab_not_mem_all hsub
  -- a line that is new is not empty, so it is a package that was needed
  obtain ⟨q, hq, hnew⟩ : ∃ q ∈ trLines (m.resolve_round PKGS ALLPKGS).2, q ∉ trLines ALLPKGS := by
    by_contra hno
    rw [resolve_round_fst] at hne
    refine hne ((without_eq_nil_iff _ _).mpr fun l hl => ?_)
    by_contra hnot
    exact hno ⟨l, hl, hnot⟩
  have hq0 : q ≠ [] := fun heq => hnew (heq ▸ hnil)
  have hall : q ∈ words (m.resolve_round PKGS ALLPKGS).2 :=
    (mem_words_iff hround.tab_not_mem_all).mpr ⟨hq, hq0⟩
  have hold : q ∉ words ALLPKGS := fun hmem =>
    hnew ((mem_words_iff hl.tab_not_mem_all).mp hmem).1
  obtain ⟨p, -, hneeds⟩ := ((hmem q).mp hall).resolve_left hold
  obtain ⟨file, hfile, hhas⟩ := hneeds.has
  have huniverse : q ∈ m.files.flatMap fun file => file.map fieldValue :=
    List.mem_flatMap.mpr ⟨file, hfile, hhas.mem⟩
  have hfilter : m.unseen (m.resolve_round PKGS ALLPKGS).2 =
      (m.unseen ALLPKGS).filter (· ∉ words (m.resolve_round PKGS ALLPKGS).2) := by
    rw [unseen, unseen, List.filter_filter]
    refine List.filter_congr fun v _ => ?_
    have hkeep : v ∉ words (m.resolve_round PKGS ALLPKGS).2 → v ∉ words ALLPKGS :=
      fun hv hv' => hv ((hmem v).mpr (.inl hv'))
    by_cases hv : v ∈ words (m.resolve_round PKGS ALLPKGS).2
    · simp [hv]
    · simp [hv, hkeep hv]
  rw [hfilter]
  refine List.length_filter_lt_length_iff_exists.mpr ⟨q, ?_, by simpa using hall⟩
  exact List.mem_filter.mpr ⟨huniverse, decide_eq_true hold⟩

/-- What the loop leaves. -/
structure Resolved (m : Mirror) (first : Set Text) (out : Text) : Prop where
  isLeast : IsLeast {S | Frontier.Closed m.Needs first S} {p | p ∈ words out}
  tab_not_mem : '\t' ∉ out
  nodup : (words out).Nodup

theorem resolved_of_nil {first : Set Text} {ALLPKGS : Text} (hl : Listed [] ALLPKGS)
    (h : Frontier m.Needs first {p | p ∈ words ALLPKGS} {p | p ∈ words []}) :
    m.Resolved first ALLPKGS :=
  ⟨h.isLeast fun _ hp => absurd hp List.not_mem_nil, hl.tab_not_mem_all, hl.nodup⟩

theorem resolve_loop_resolved {first : Set Text} {k : Nat} {PKGS ALLPKGS : Text}
    (hl : Listed PKGS ALLPKGS) (hnil : [] ∈ trLines ALLPKGS)
    (h : Frontier m.Needs first {p | p ∈ words ALLPKGS} {p | p ∈ words PKGS})
    (hk : (m.unseen ALLPKGS).length + 2 ≤ k) :
    ∃ out, m.resolve_loop k PKGS ALLPKGS = some out ∧ m.Resolved first out := by
  induction k generalizing PKGS ALLPKGS with
  | zero => omega
  | succ k ih =>
    rw [resolve_loop]
    by_cases hP : PKGS = []
    · subst hP
      exact ⟨ALLPKGS, if_neg (by simp), resolved_of_nil hl h⟩
    · rw [if_pos hP]
      dsimp only
      have hround := resolve_round_listed (m := m) PKGS hl.tab_not_mem_all
      have hfrontier := resolve_round_frontier hl h
      by_cases hempty : (m.resolve_round PKGS ALLPKGS).1 = []
      · obtain ⟨k, rfl⟩ : ∃ k', k = k' + 1 := ⟨k - 1, by omega⟩
        rw [hempty] at hround hfrontier ⊢
        exact ⟨_, if_neg (by simp), resolved_of_nil hround hfrontier⟩
      · have hless := unseen_resolve_round hl h.frontier hnil hempty
        exact ih hround (nil_mem_resolve_round PKGS ALLPKGS) hfrontier (by omega)

/-- **`resolve_deps` ends**, with the least set that has the given packages and what its members
need, each once. -/
theorem resolve_deps_resolved {PKGS : Text} (htab : '\t' ∉ PKGS) (hnodup : (words PKGS).Nodup)
    {k : Nat} (hk : m.size + 3 ≤ k) :
    ∃ out, m.resolve_deps k PKGS = some out ∧ m.Resolved {p | p ∈ words PKGS} out := by
  have hloop : ∃ out, m.resolve_loop k PKGS PKGS = some out ∧
      m.Resolved {p | p ∈ words PKGS} out := by
    obtain ⟨k, rfl⟩ : ∃ k', k = k' + 1 := ⟨k - 1, by omega⟩
    have hl : Listed PKGS PKGS := ⟨htab, htab, hnodup⟩
    rw [resolve_loop]
    by_cases hP : PKGS = []
    · subst hP
      exact ⟨[], if_neg (by simp), resolved_of_nil hl .start⟩
    · rw [if_pos hP]
      -- from the first round on the list has an empty line
      have hle := unseen_length_le (m := m) (m.resolve_round PKGS PKGS).2
      exact resolve_loop_resolved (resolve_round_listed PKGS htab) (nil_mem_resolve_round PKGS PKGS)
        (resolve_round_frontier hl .start) (by omega)
  obtain ⟨out, hout, hresolved⟩ := hloop
  refine ⟨_, by rw [resolve_deps, hout]; rfl, ?_⟩
  have hwords : words (out.rdropWhile (· = '\n')) = words out := words_rdropWhile out
  exact ⟨hwords ▸ hresolved.isLeast,
    fun hmem => hresolved.tab_not_mem (mem_of_mem_rdropWhile hmem), hwords ▸ hresolved.nodup⟩

/-! ## The packages to install -/

theorem resolve_sorted_resolved {PKGS : Text} (htab : '\t' ∉ PKGS) {k : Nat}
    (hk : m.size + 3 ≤ k) :
    ∃ out, m.resolve_deps k (substituted (sortUniq (trLines PKGS))) = some out ∧
      m.Resolved {p | p ∈ words PKGS} out := by
  have hset : {p | p ∈ words (substituted (sortUniq (trLines PKGS)))} = {p | p ∈ words PKGS} :=
    Set.ext fun _ => mem_words_sortUniq htab
  rw [← hset]
  exact resolve_deps_resolved (tab_not_mem_sortUniq htab) (words_sortUniq_nodup htab) hk

/-- A mirror with four packages. -/
def sample : Mirror where
  files := [["Package: a", "Depends: b (>= 2) | x, c", "Size: 1", "", "Package: b", "Size: 1", "",
    "Package: c", "Pre-Depends: a, e:any", "Size: 2", "", "Package: d", "Depends: b, nowhere",
    "Size: 4", ""].map String.toList, []]
  chksumfield := "sha256".toList
  EXCLUDE_DEPENDENCY := "e".toList
  tabs := by decide +kernel
  tab_not_mem := by decide

example : sample.finddebs 40 "a".toList "b".toList "d".toList "b".toList =
    some ("\na\nb\nc".toList, "d ".toList) := by decide +kernel

end Mirror

end Anx.Bootstrap
