import Anx.Env.Files

/-!
# Extraction of assets

`EnvUtils.extractDir` copies a directory of the assets to a directory of files. It takes an
asset without a listing for a file, and ignores what `mkdir` and `delete` answer.

- `Asset`, `AssetTree`: the assets, with different names in a directory;
- `extractFile`, `extractDir`, `extractRoots`: the copy of a file, of a directory, and of one
  asset set after another;
- `Extracts`: what has been copied, what may have changed, and that nothing which stood at
  any other path than that of a file has;
- `extractDir_faithful`: **a successful extraction is a copy**, and of several asset sets
  the last one that has a file counts.
-/

namespace Anx.Env

open Anx.Lib

/-! ## Assets -/

mutual

/-- An asset: a file, or a directory. -/
inductive Asset where
  | file (bytes : Bytes)
  | dir (entries : Entries)

/-- What a directory of the assets lists. -/
inductive Entries where
  | nil
  | cons (name : Text) (asset : Asset) (rest : Entries)

end

/-- The names in a directory of the assets. -/
def Entries.names : Entries → List Text
  | .nil => []
  | .cons name _ rest => name :: rest.names

mutual

/-- The files of an asset that is extracted to `target`. -/
def Asset.files (target : Path) : Asset → List (Path × Bytes)
  | .file bytes => [(target, bytes)]
  | .dir entries => entries.files target

def Entries.files (target : Path) : Entries → List (Path × Bytes)
  | .nil => []
  | .cons name asset rest => asset.files (target ++ [name]) ++ rest.files target

end

mutual

/-- The paths of an asset that is extracted to `target`, directories included. -/
def Asset.paths (target : Path) : Asset → List Path
  | .file _ => [target]
  | .dir entries => target :: entries.paths target

def Entries.paths (target : Path) : Entries → List Path
  | .nil => []
  | .cons name asset rest => asset.paths (target ++ [name]) ++ rest.paths target

end

mutual

/-- The names in every directory are different. -/
def Asset.Distinct : Asset → Prop
  | .file _ => True
  | .dir entries => entries.Distinct

def Entries.Distinct : Entries → Prop
  | .nil => True
  | .cons name asset rest => name ∉ rest.names ∧ asset.Distinct ∧ rest.Distinct

end

/-- The assets below a root. -/
structure AssetTree where
  root : Asset
  distinct : root.Distinct

/-! ## Extraction -/

/-- The loop that copies what is left of an asset, with at most so many reads. -/
def copy (fname : Path) : Nat → Bytes → Java Bool
  -- the end of the asset: flush and close
  | _, [] => Java.io
  -- every read takes a byte, so that there are enough of them
  | 0, _ :: _ => pure false
  | reads + 1, bytes@(_ :: _) => do
    match ← Java.read with
    | none => pure false
    | some size =>
      if ← Java.write fname (bytes.take size) then copy fname reads (bytes.drop size)
      else pure false

/-- `extractFile`; a directory of the assets cannot be opened. -/
def extractFile (fname : Path) : Option Bytes → Java Bool
  | none => pure false
  | some bytes => do
    if ← Java.io then
      let _ ← Java.delete fname
      if ← Java.create fname then copy fname bytes.length bytes else pure false
    else pure false

/-- `if (!dir.exists()) dir.mkdir();` -/
def makeDir (dir : Path) : Java Unit := do
  if ← Java.exists_ dir then pure () else
    let _ ← Java.mkdir dir
    pure ()

mutual

/-- `extractDir`. -/
def extractDir (target : Path) : Asset → Java Bool
  | .file bytes => do
    if ← Java.io then extractFile target (some bytes) else pure false
  | .dir entries => do
    if ← Java.io then
      if entries.names = [] then extractFile target none
      else
        makeDir target
        extractEntries target entries
    else pure false

/-- The loop over the names of a directory. -/
def extractEntries (target : Path) : Entries → Java Bool
  | .nil => pure true
  | .cons name asset rest => do
    if ← extractDir (target ++ [name]) asset then extractEntries target rest else pure false

end

/-- Extractions one after another, up to the first that fails. -/
def extractRoots : List (Path × AssetTree) → Java Bool
  | [] => pure true
  | (target, tree) :: roots => do
    if ← extractDir target tree.root then extractRoots roots else pure false

/-- The architectures that `PrefStore.getArch` knows. -/
inductive Arch where
  | arm
  | arm_64
  | x86
  | x86_64
  | unknown
deriving DecidableEq

/-- The asset sets of the app. -/
structure Assets where
  env : AssetTree
  all : AssetTree
  arm : AssetTree
  arm_64 : AssetTree
  x86 : AssetTree
  x86_64 : AssetTree
  web : AssetTree

/-- The asset sets that `updateEnv` extracts to the directory `bin`. -/
def Assets.binRoots (assets : Assets) (bin : Path) (arch : Arch) : List (Path × AssetTree) :=
  (bin, assets.all) ::
    match arch with
    | .arm => [(bin, assets.arm)]
    | .arm_64 => [(bin, assets.arm), (bin, assets.arm_64)]
    | .x86 => [(bin, assets.x86)]
    | .x86_64 => [(bin, assets.x86), (bin, assets.x86_64)]
    | .unknown => []

/-- The bytes of a file in the last asset set that has it. -/
def lastFile (roots : List (Path × AssetTree)) (p : Path) : Option Bytes :=
  (roots.flatMap fun root => root.2.root.files root.1).reverse.lookup p

/-! ## A single file -/

section

variable {J : Op → Fs → Prop}

/-- The loop copies what is left, behind what is there. -/
theorem copy_spec {fname : Path} (hJ : Allows J (· = fname)) (reads : Nat) (bytes copied : Bytes)
    (fs : Fs) (hfs : fs.get fname = some (.file copied)) :
    (copy fname reads bytes).wp J (fun ok fs' => (∀ q ≠ fname, fs'.get q = fs.get q) ∧
      (ok = true → fs'.get fname = some (.file (copied ++ bytes)))) fs := by
  induction reads generalizing bytes copied fs with
  | zero =>
    cases bytes with
    | nil =>
      rw [copy, Java.wp_io, List.append_nil]
      exact ⟨hJ.free rfl fs, fun c => ⟨fun _ _ => rfl, fun _ => hfs⟩⟩
    | cons b bytes => exact ⟨fun _ _ => rfl, by simp⟩
  | succ reads ih =>
    cases bytes with
    | nil =>
      rw [copy, Java.wp_io, List.append_nil]
      exact ⟨hJ.free rfl fs, fun c => ⟨fun _ _ => rfl, fun _ => hfs⟩⟩
    | cons b bytes =>
      rw [copy, Code.wp_bind, Java.wp_read]
      refine ⟨hJ.free rfl fs, fun c => ?_⟩
      split
      · exact ⟨fun _ _ => rfl, by simp⟩
      · next size _ =>
        rw [Code.wp_bind, Java.wp_write]
        refine ⟨hJ.at rfl rfl fs, fun c' => ?_⟩
        rw [Op.perform, hfs]
        dsimp only
        split
        · next hok =>
          refine Code.wp_mono (fun _ _ h => h) ?_
            (ih ((b :: bytes).drop size) (copied ++ (b :: bytes).take size) _ (by simp))
          rintro ok fs' ⟨hkept, hdone⟩
          refine ⟨fun q hq => (hkept q hq).trans (by simp [hq]), fun h => ?_⟩
          rw [hdone h, List.append_assoc, List.take_append_drop]
        · exact ⟨fun q hq => by simp [hq], by simp⟩

/-- A file that has been extracted has the bytes of the asset. -/
theorem extractFile_spec {fname : Path} (hJ : Allows J (· = fname)) (asset : Option Bytes)
    (fs : Fs) : (extractFile fname asset).wp J (fun ok fs' => (∀ q ≠ fname, fs'.get q = fs.get q) ∧
      (ok = true → ∃ bytes, asset = some bytes ∧ fs'.get fname = some (.file bytes))) fs := by
  cases asset with
  | none => exact ⟨fun _ _ => rfl, by simp⟩
  | some bytes =>
    rw [extractFile, Code.wp_bind, Java.wp_io]
    refine ⟨hJ.free rfl fs, fun c => ?_⟩
    split
    · rw [Code.wp_bind, Java.wp_delete]
      refine ⟨hJ.at rfl rfl fs, fun c => ?_⟩
      have hdelete : ∀ q ≠ fname, ((Op.delete fname).perform c fs).2.get q = fs.get q :=
        fun q hq => Op.perform_get_of_ne (o := .delete fname) rfl hq c fs
      generalize ((Op.delete fname).perform c fs).2 = fs₁ at hdelete
      rw [Code.wp_bind, Java.wp_create]
      refine ⟨hJ.at rfl rfl fs₁, fun c => ?_⟩
      rw [Op.perform]
      split
      · -- the file is empty now
        refine Code.wp_mono (fun _ _ h => h) ?_
          (copy_spec hJ bytes.length bytes [] _ (by simp))
        rintro ok fs' ⟨hkept, hdone⟩
        exact ⟨fun q hq => ((hkept q hq).trans (by simp [hq])).trans (hdelete q hq),
          fun h => ⟨bytes, rfl, hdone h⟩⟩
      · exact ⟨hdelete, by simp⟩
    · exact ⟨fun _ _ => rfl, by simp⟩

/-! ## Directories -/

theorem makeDir_spec {dir : Path} (hJ : Allows J (· = dir)) (fs : Fs) :
    (makeDir dir).wp J (fun _ fs' => (∀ q ≠ dir, fs'.get q = fs.get q) ∧
      (fs.get dir ≠ none → fs'.get dir = fs.get dir)) fs := by
  rw [makeDir, Code.wp_bind, Java.wp_exists]
  refine ⟨hJ.free rfl fs, fun _ => ?_⟩
  split
  · exact ⟨fun _ _ => rfl, fun _ => rfl⟩
  · next hnone =>
    rw [Code.wp_bind, Java.wp_mkdir]
    refine ⟨hJ.at rfl rfl fs, fun c => ⟨fun q hq => ?_, fun hsome => ?_⟩⟩
    · exact Op.perform_get_of_ne (o := .mkdir dir) rfl hq c fs
    · exact absurd (by simpa using hnone) hsome

/-- What an extraction does: it changes only paths of the assets; what stood at any other
path than that of a file stays; and when it succeeds all files are copied. -/
structure Extracts (files : List (Path × Bytes)) (paths : List Path) (fs : Fs) (ok : Bool)
    (fs' : Fs) : Prop where
  kept : ∀ q ∉ paths, fs'.get q = fs.get q
  standing : ∀ q ∉ files.map Prod.fst, fs.get q ≠ none → fs'.get q = fs.get q
  copied : ok = true → ∀ e ∈ files, fs'.get e.1 = some (.file e.2)

/-- An extraction that goes on with other files. -/
theorem Extracts.append {files files' : List (Path × Bytes)} {paths paths' : List Path}
    {fs fs₁ fs' : Fs} {ok : Bool} (h : Extracts files paths fs true fs₁)
    (h' : Extracts files' paths' fs₁ ok fs')
    (hdisjoint : ∀ e ∈ files, e.1 ∉ files'.map Prod.fst) :
    Extracts (files ++ files') (paths ++ paths') fs ok fs' := by
  refine ⟨fun q hq => ?_, fun q hq hstands => ?_, fun hok e he => ?_⟩
  · rw [List.mem_append, not_or] at hq
    rw [h'.kept q hq.2, h.kept q hq.1]
  · rw [List.map_append, List.mem_append, not_or] at hq
    have hfirst := h.standing q hq.1 hstands
    rw [h'.standing q hq.2 (hfirst ▸ hstands), hfirst]
  · obtain he | he := List.mem_append.mp he
    · have hcopied := h.copied rfl e he
      rw [h'.standing e.1 (hdisjoint e he) (by simp [hcopied]), hcopied]
    · exact h'.copied hok e he

/-- An extraction that fails before it comes to other files. -/
theorem Extracts.failed {files files' : List (Path × Bytes)} {paths paths' : List Path}
    {fs fs' : Fs} (h : Extracts files paths fs false fs') :
    Extracts (files ++ files') (paths ++ paths') fs false fs' := by
  refine ⟨fun q hq => h.kept q fun hmem => hq (List.mem_append_left _ hmem), fun q hq => ?_,
    by simp⟩
  rw [List.map_append, List.mem_append, not_or] at hq
  exact h.standing q hq.1

mutual

/-- The files of an asset lie at or below its path. -/
theorem Asset.prefix_of_mem_files {asset : Asset} {target : Path} {e : Path × Bytes}
    (h : e ∈ asset.files target) : target <+: e.1 := by
  match asset with
  | .file bytes =>
    obtain rfl := List.mem_singleton.mp h
    exact List.prefix_refl _
  | .dir entries =>
    obtain ⟨name, -, hprefix⟩ := Entries.prefix_of_mem_files h
    exact (List.prefix_append target [name]).trans hprefix

/-- The files of a directory lie at or below its names. -/
theorem Entries.prefix_of_mem_files {entries : Entries} {target : Path} {e : Path × Bytes}
    (h : e ∈ entries.files target) : ∃ name ∈ entries.names, target ++ [name] <+: e.1 := by
  match entries with
  | .nil => cases h
  | .cons name asset rest =>
    obtain h | h := List.mem_append.mp h
    · exact ⟨name, List.mem_cons_self, Asset.prefix_of_mem_files h⟩
    · obtain ⟨name', hmem, hprefix⟩ := Entries.prefix_of_mem_files h
      exact ⟨name', List.mem_cons_of_mem _ hmem, hprefix⟩

end

/-- Different names in a directory lead to different files. -/
theorem Entries.disjoint {name : Text} {asset : Asset} {rest : Entries} {target : Path}
    (hname : name ∉ rest.names) :
    ∀ e ∈ asset.files (target ++ [name]), e.1 ∉ (rest.files target).map Prod.fst := by
  intro e he hmem
  obtain ⟨e', he', heq⟩ := List.mem_map.mp hmem
  obtain ⟨name', hname', hprefix'⟩ := Entries.prefix_of_mem_files he'
  rw [heq] at hprefix'
  have hprefix := Asset.prefix_of_mem_files he
  have hsame := List.prefix_of_prefix_length_le hprefix hprefix' (by simp)
  have hnames : name = name' := by simpa using hsame.eq_of_length (by simp)
  exact hname (hnames ▸ hname')

mutual

theorem extractDir_spec (asset : Asset) (target : Path) (fs : Fs) (hd : asset.Distinct)
    (hJ : Allows J (· ∈ asset.paths target)) : (extractDir target asset).wp J
      (Extracts (asset.files target) (asset.paths target) fs) fs := by
  match asset with
  | .file bytes =>
    rw [extractDir, Code.wp_bind, Java.wp_io]
    refine ⟨hJ.free rfl fs, fun c => ?_⟩
    split
    · refine Code.wp_mono (fun _ _ h => h) ?_
        (extractFile_spec (hJ.mono fun q hq => hq ▸ List.mem_singleton_self _) (some bytes) fs)
      rintro ok fs' ⟨hkept, hcopied⟩
      refine ⟨fun q hq => hkept q (by simpa [Asset.paths] using hq), fun q hq _ => hkept q ?_, ?_⟩
      · simpa [Asset.files] using hq
      · intro hok e he
        obtain rfl := List.mem_singleton.mp he
        obtain ⟨bytes', hbytes, hget⟩ := hcopied hok
        cases hbytes
        exact hget
    · exact ⟨fun _ _ => rfl, fun _ _ _ => rfl, by simp⟩
  | .dir entries =>
    rw [extractDir, Code.wp_bind, Java.wp_io]
    refine ⟨hJ.free rfl fs, fun c => ?_⟩
    split
    · split
      · exact ⟨fun _ _ => rfl, fun _ _ _ => rfl, by simp⟩
      · rw [Code.wp_bind]
        refine Code.wp_mono (fun _ _ h => h) ?_
          (makeDir_spec (hJ.mono fun q hq => hq ▸ List.mem_cons_self) fs)
        rintro - fs₁ ⟨hkept, hstanding⟩
        refine Code.wp_mono (fun _ _ h => h) ?_ (extractEntries_spec entries target fs₁ hd
          (hJ.mono fun q hq => List.mem_cons_of_mem _ hq))
        intro ok fs' h
        have hfirst : ∀ q, fs.get q ≠ none → fs₁.get q = fs.get q := by
          intro q hq
          by_cases htarget : q = target
          · subst htarget
            exact hstanding hq
          · exact hkept q htarget
        refine ⟨fun q hq => ?_, fun q hq hstands => ?_, h.copied⟩
        · rw [Asset.paths, List.mem_cons, not_or] at hq
          rw [h.kept q hq.2, hkept q hq.1]
        · rw [h.standing q hq (by rw [hfirst q hstands]; exact hstands), hfirst q hstands]
    · exact ⟨fun _ _ => rfl, fun _ _ _ => rfl, by simp⟩

theorem extractEntries_spec (entries : Entries) (target : Path) (fs : Fs) (hd : entries.Distinct)
    (hJ : Allows J (· ∈ entries.paths target)) : (extractEntries target entries).wp J
      (Extracts (entries.files target) (entries.paths target) fs) fs := by
  match entries with
  | .nil => exact ⟨fun _ _ => rfl, fun _ _ _ => rfl, fun _ e he => by cases he⟩
  | .cons name asset rest =>
    obtain ⟨hname, hasset, hrest⟩ := hd
    rw [extractEntries, Code.wp_bind]
    refine Code.wp_mono (fun _ _ h => h) ?_ (extractDir_spec asset (target ++ [name]) fs hasset
      (hJ.mono fun q hq => List.mem_append_left _ hq))
    intro ok fs₁ h
    cases ok with
    | false => exact h.failed
    | true =>
      refine Code.wp_mono (fun _ _ h => h) ?_ (extractEntries_spec rest target fs₁ hrest
        (hJ.mono fun q hq => List.mem_append_right _ hq))
      exact fun ok fs' h' => h.append h' (Entries.disjoint hname)

end

/-! ## Asset sets one after another -/

theorem lastFile_cons (root : Path × AssetTree) (roots : List (Path × AssetTree)) (p : Path) :
    lastFile (root :: roots) p =
      (lastFile roots p).or ((root.2.root.files root.1).reverse.lookup p) := by
  unfold lastFile
  rw [List.flatMap_cons, List.reverse_append, List.lookup_append]

mutual

theorem Asset.mem_paths_of_mem_files {asset : Asset} {target : Path} {e : Path × Bytes}
    (h : e ∈ asset.files target) : e.1 ∈ asset.paths target := by
  match asset with
  | .file bytes =>
    obtain rfl := List.mem_singleton.mp h
    exact List.mem_singleton_self _
  | .dir entries => exact List.mem_cons_of_mem _ (Entries.mem_paths_of_mem_files h)

theorem Entries.mem_paths_of_mem_files {entries : Entries} {target : Path} {e : Path × Bytes}
    (h : e ∈ entries.files target) : e.1 ∈ entries.paths target := by
  match entries with
  | .nil => cases h
  | .cons name asset rest =>
    obtain h | h := List.mem_append.mp h
    · exact List.mem_append_left _ (Asset.mem_paths_of_mem_files h)
    · exact List.mem_append_right _ (Entries.mem_paths_of_mem_files h)

end

theorem lastFile_eq_none {roots : List (Path × AssetTree)} {p : Path}
    (h : ∀ root ∈ roots, p ∉ root.2.root.paths root.1) : lastFile roots p = none := by
  refine List.lookup_eq_none_iff.mpr fun e he => ?_
  obtain ⟨root, hroot, he⟩ := List.mem_flatMap.mp (List.mem_reverse.mp he)
  rw [bne_iff_ne]
  rintro rfl
  exact h root hroot (Asset.mem_paths_of_mem_files he)

mutual

/-- Different files of an asset have different paths. -/
theorem Asset.files_inj {asset : Asset} {target : Path} {e e' : Path × Bytes}
    (hd : asset.Distinct) (he : e ∈ asset.files target) (he' : e' ∈ asset.files target)
    (h : e.1 = e'.1) : e = e' := by
  match asset with
  | .file bytes => exact (List.mem_singleton.mp he).trans (List.mem_singleton.mp he').symm
  | .dir entries => exact Entries.files_inj hd he he' h

theorem Entries.files_inj {entries : Entries} {target : Path} {e e' : Path × Bytes}
    (hd : entries.Distinct) (he : e ∈ entries.files target) (he' : e' ∈ entries.files target)
    (h : e.1 = e'.1) : e = e' := by
  match entries with
  | .nil => cases he
  | .cons name asset rest =>
    obtain ⟨hname, hasset, hrest⟩ := hd
    obtain he | he := List.mem_append.mp he
    · obtain he' | he' := List.mem_append.mp he'
      · exact Asset.files_inj hasset he he' h
      · exact absurd (List.mem_map.mpr ⟨e', he', h.symm⟩) (Entries.disjoint hname e he)
    · obtain he' | he' := List.mem_append.mp he'
      · exact absurd (List.mem_map.mpr ⟨e, he, h⟩) (Entries.disjoint hname e' he')
      · exact Entries.files_inj hrest he he' h

end

/-- The last asset set that has a file. -/
theorem lastFile_of_mem {before after : List (Path × AssetTree)} {root : Path × AssetTree}
    {e : Path × Bytes} (he : e ∈ root.2.root.files root.1)
    (hlater : ∀ later ∈ after, e.1 ∉ (later.2.root.files later.1).map Prod.fst) :
    lastFile (before ++ root :: after) e.1 = some e.2 := by
  induction before with
  | nil =>
    have hafter : lastFile after e.1 = none := by
      refine List.lookup_eq_none_iff.mpr fun e' he' => ?_
      obtain ⟨later, hmem, he'⟩ := List.mem_flatMap.mp (List.mem_reverse.mp he')
      rw [bne_iff_ne]
      exact fun heq => hlater later hmem (List.mem_map.mpr ⟨e', he', heq.symm⟩)
    rw [List.nil_append, lastFile_cons, hafter, Option.none_or]
    cases hlook : (root.2.root.files root.1).reverse.lookup e.1 with
    | none => simpa using List.lookup_eq_none_iff.mp hlook e (List.mem_reverse.mpr he)
    | some bytes =>
      obtain ⟨l₁, l₂, heq, -⟩ := List.lookup_eq_some_iff.mp hlook
      have hmem : (e.1, bytes) ∈ root.2.root.files root.1 := by
        rw [← List.mem_reverse, heq]
        exact List.mem_append_right _ List.mem_cons_self
      rw [Asset.files_inj root.2.distinct he hmem rfl]
  | cons first before ih => rw [List.cons_append, lastFile_cons, ih, Option.some_or]

/-- What several extractions do, one after another. -/
structure ExtractsRoots (roots : List (Path × AssetTree)) (fs : Fs) (ok : Bool) (fs' : Fs) :
    Prop where
  kept : ∀ q, (∀ root ∈ roots, q ∉ root.2.root.paths root.1) → fs'.get q = fs.get q
  standing : ∀ q, lastFile roots q = none → fs.get q ≠ none → fs'.get q = fs.get q
  copied : ok = true → ∀ p bytes, lastFile roots p = some bytes → fs'.get p = some (.file bytes)

theorem extractRoots_spec (roots : List (Path × AssetTree)) (fs : Fs)
    (hJ : Allows J fun q => ∃ root ∈ roots, q ∈ root.2.root.paths root.1) :
    (extractRoots roots).wp J (ExtractsRoots roots fs) fs := by
  induction roots generalizing fs with
  | nil => exact ⟨fun _ _ => rfl, fun _ _ _ => rfl, fun _ p bytes h => by cases h⟩
  | cons root roots ih =>
    obtain ⟨target, tree⟩ := root
    rw [extractRoots, Code.wp_bind]
    refine Code.wp_mono (fun _ _ h => h) ?_ (extractDir_spec tree.root target fs tree.distinct
      (hJ.mono fun q hq => ⟨_, List.mem_cons_self, hq⟩))
    intro ok fs₁ h
    have hnotFile : ∀ q, lastFile ((target, tree) :: roots) q = none →
        lastFile roots q = none ∧ q ∉ (tree.root.files target).map Prod.fst := by
      intro q hq
      rw [lastFile_cons, Option.or_eq_none_iff] at hq
      refine ⟨hq.1, fun hmem => ?_⟩
      obtain ⟨e, he, rfl⟩ := List.mem_map.mp hmem
      have hne := List.lookup_eq_none_iff.mp hq.2 e (List.mem_reverse.mpr he)
      simp at hne
    cases ok with
    | false =>
      refine ⟨fun q hq => h.kept q (hq _ List.mem_cons_self), fun q hq => ?_, by simp⟩
      exact h.standing q (hnotFile q hq).2
    | true =>
      refine Code.wp_mono (fun _ _ h => h) ?_ (ih fs₁
        (hJ.mono fun q ⟨root, hroot, hq⟩ => ⟨root, List.mem_cons_of_mem _ hroot, hq⟩))
      intro ok fs' h'
      refine ⟨fun q hq => ?_, fun q hq hstands => ?_, fun hok p bytes hp => ?_⟩
      · rw [h'.kept q fun root hroot => hq root (List.mem_cons_of_mem _ hroot),
          h.kept q (hq _ List.mem_cons_self)]
      · obtain ⟨hrest, hfirst⟩ := hnotFile q hq
        have hkept := h.standing q hfirst hstands
        rw [h'.standing q hrest (hkept ▸ hstands), hkept]
      · rw [lastFile_cons] at hp
        cases hlast : lastFile roots p with
        | some bytes' =>
          rw [hlast, Option.some_or] at hp
          cases hp
          exact h'.copied hok p bytes hlast
        | none =>
          -- the first set has the last file of this path, and no later one touches it
          rw [hlast, Option.none_or] at hp
          obtain ⟨l₁, l₂, heq, -⟩ := List.lookup_eq_some_iff.mp hp
          have hmem : (p, bytes) ∈ tree.root.files target := by
            rw [← List.mem_reverse, heq]
            exact List.mem_append_right _ List.mem_cons_self
          have hcopied := h.copied rfl _ hmem
          rw [h'.standing p hlast (by simp [hcopied]), hcopied]

end

/-- A directory with one file. -/
def oneFile (name : Char) (bytes : Bytes) : AssetTree where
  root := .dir (.cons [name] (.file bytes) .nil)
  distinct := ⟨List.not_mem_nil, trivial, trivial⟩

/-- The sets for `arm` have a file of `all` again, and one of their own. -/
def someAssets : Assets where
  env := oneFile 'e' []
  all := oneFile 'a' [1, 2]
  arm := oneFile 'a' [3]
  arm_64 := oneFile 'b' [4]
  x86 := oneFile 'a' [5]
  x86_64 := oneFile 'b' [6]
  web := oneFile 'w' []

end Anx.Env
