import Anx.Lib.Code
import Anx.Lib.SymLinks

/-!
# Removal with symbolic links

`cleanDirectory` asks `isDirectory`, which follows links, before it goes into an entry of a
directory. So it goes into the target of a link and removes what is in there.

- `Op`, `perform`: the calls, in a tree with symbolic links;
- `cleanDirectory`: the function;
- `cleanDirectory_wp`: **it terminates**, as a system follows so many links in a path at most;
- `FileTree.Inside`, `StaysInside`: what it may remove, and that it does so;
- `FileTree.Closed`: links lead to nothing else;
- `staysInside_iff`: **it stays inside exactly if the tree is closed**;
- `closed_of_links`: it is, if all links to directories inside of the root lead there again.
-/

namespace Anx.Links

open Anx.Lib

variable {β : Type}

/-- What the environment chooses for a call: whether it fails, and in which order it lists
names. -/
structure Choice where
  ok : Bool
  names : List Text

/-- A call. -/
inductive Op where
  | exists_ (f : Names)
  | isDirectory (f : Names)
  | listFiles (f : Names)
  | delete (f : Names)

/-- What a call answers. -/
def Op.Ans : Op → Type
  | .listFiles _ => Option (List Text)
  | _ => Bool

/-- The entry that a path names: its last name is not followed. -/
def entryAt (links : Nat) (t : FileTree β) (f : Names) : Option Names :=
  match f.getLast? with
  | none => none
  | some x => (t.resolve links [] f.dropLast).map (· ++ [x])

/-- The path leads to a directory. -/
def leadsToDir (links : Nat) (t : FileTree β) (f : Names) : Bool :=
  match t.resolve links [] f with
  | none => false
  | some p => (t.get p).any Entry.isDir

/-- The effect of a call. -/
def perform (links : Nat) : (o : Op) → Choice → FileTree β → o.Ans × FileTree β
  | .exists_ f, _, t => ((t.resolve links [] f).isSome, t)
  | .isDirectory f, _, t => (leadsToDir links t f, t)
  | .listFiles f, c, t =>
    match t.resolve links [] f with
    | none => (none, t)
    | some p =>
      if c.ok && (t.get p).any Entry.isDir then
        (some (if c.names.isPerm (t.children p) then c.names else t.children p), t)
      else (none, t)
  | .delete f, c, t =>
    match entryAt links t f with
    | none => (false, t)
    | some p =>
      if h : p ≠ [] ∧ t.children p = [] then
        if c.ok && (t.get p).isSome then (true, t.remove p h.1 h.2) else (false, t)
      else (false, t)

variable (β) in
/-- The calls as operations of a system that follows so many links in a path. -/
abbrev java (links : Nat) : Operations (FileTree β) where
  Op := Op
  Ans := Op.Ans
  Choice := Choice
  perform := perform links

variable (β) in
/-- Code of the app. -/
abbrev Java (links : Nat) (α : Type) : Type := Code (java β links) α

section

variable (links : Nat)

def exists_ (f : Names) : Java β links Bool := Code.perform (I := java β links) (.exists_ f)

def isDirectory (f : Names) : Java β links Bool := Code.perform (I := java β links) (.isDirectory f)

def listFiles (f : Names) : Java β links (Option (List Text)) :=
  Code.perform (I := java β links) (.listFiles f)

def delete (f : Names) : Java β links Bool := Code.perform (I := java β links) (.delete f)

/-- The loop over the names in a directory, with `clean` for the calls in it; `false` when one
of these has not come to its end. -/
def cleanFiles {links : Nat} (clean : Names → Java β links Bool) (path : Names) :
    List Text → Java β links Bool
  | [] => pure true
  | name :: names => do
    if ← (do
        if ← isDirectory links (path ++ [name]) then clean (path ++ [name]) else pure true) then
      let _ ← delete links (path ++ [name])
      cleanFiles clean path names
    else pure false

/-- `cleanDirectory`, with at most `depth` calls inside each other: `false` when it takes
more. -/
def cleanDirectory : (depth : Nat) → Names → Java β links Bool
  | 0, _ => pure false
  | depth + 1, path => do
    if ← exists_ links path then
      match ← listFiles links path with
      | none => pure true
      | some list =>
        if ← cleanFiles (cleanDirectory depth) path list then
          let _ ← delete links path
          pure true
        else pure false
    else pure true

end

/-! ## What may be removed -/

/-- Where the path itself is. -/
def place (links : Nat) (t : FileTree β) (f : Names) : Option Names :=
  match f.getLast? with
  | none => t.resolve links [] f
  | some x =>
    if x = ['.'] ∨ x = ['.', '.'] then t.resolve links [] f else entryAt links t f

/-- The entry is inside of the root, or the root itself. -/
def Inside (t : FileTree β) (root q : Names) : Prop :=
  ∃ links R, place links t root = some R ∧ R <+: q

/-- From some depth on the function comes to its end, with nothing changed outside. -/
def StaysInside (links : Nat) (t : FileTree β) (root : Names) : Prop :=
  ∃ enough, ∀ depth, enough ≤ depth →
    (cleanDirectory links depth root).wp (fun _ _ => True)
      (fun done t' => done = true ∧ ∀ q, ¬ Inside t root q → t'.get q = t.get q) t

/-- No path through the root leads to a directory with anything in it that is neither inside
of the root nor one of the directories on the way to it. -/
def Closed (t : FileTree β) (root : Names) : Prop :=
  ∀ links names p x links' R, (∀ y ∈ names, IsFileName y) →
    t.resolve links [] (root ++ names) = some p → (t.get (p ++ [x])).isSome = true →
    place links' t root = some R → R <+: p ++ [x] ∨ p ++ [x] <+: R

variable {links links' : Nat} {t t₀ : FileTree β} {root names p q R R' : Names} {x : Text}

/-! ## Places -/

/-- Neither more entries nor a higher limit change where a path leads. -/
theorem resolve_mono {n m : Nat} {f : Names} (hbelow : t.Below t₀) (h : t.resolve n [] f = some p)
    (h' : t₀.resolve m [] f = some q) : p = q := by
  obtain ⟨k, -, hwalks⟩ := FileTree.resolve_eq_some_iff.mp h
  obtain ⟨k', -, hwalks'⟩ := FileTree.resolve_eq_some_iff.mp h'
  exact ((hwalks.mono hbelow).unique hwalks').2

theorem resolve_of_below {f : Names} (hbelow : t.Below t₀) (h : t.resolve links [] f = some p) :
    t₀.resolve links [] f = some p := by
  obtain ⟨k, hk, hwalks⟩ := FileTree.resolve_eq_some_iff.mp h
  exact FileTree.resolve_eq_some_iff.mpr ⟨k, hk, hwalks.mono hbelow⟩

theorem entryAt_of_below {f : Names} (hbelow : t.Below t₀) (h : entryAt links t f = some p) :
    entryAt links t₀ f = some p := by
  unfold entryAt at h ⊢
  split at h
  · cases h
  · obtain ⟨dir, hdir, rfl⟩ := Option.map_eq_some_iff.mp h
    rw [resolve_of_below hbelow hdir]
    rfl

theorem place_of_below {f : Names} (hbelow : t.Below t₀) (h : place links t f = some p) :
    place links t₀ f = some p := by
  unfold place at h ⊢
  split at h
  · exact resolve_of_below hbelow h
  · split at h
    · next hdots =>
      rw [if_pos hdots]
      exact resolve_of_below hbelow h
    · next hdots =>
      rw [if_neg hdots]
      exact entryAt_of_below hbelow h

/-- A path has one place. -/
theorem place_unique {f : Names} (h : place links t f = some p) (h' : place links' t f = some q) :
    p = q := by
  unfold place at h h'
  split at h
  · next hnone =>
    rw [hnone] at h'
    exact resolve_mono (.refl t) h h'
  · next x hlast =>
    rw [hlast] at h'
    dsimp only at h'
    split at h
    · next hdots =>
      rw [if_pos hdots] at h'
      exact resolve_mono (.refl t) h h'
    · next hdots =>
      rw [if_neg hdots] at h'
      simp only [entryAt, hlast] at h h'
      obtain ⟨dir, hdir, rfl⟩ := Option.map_eq_some_iff.mp h
      obtain ⟨dir', hdir', rfl⟩ := Option.map_eq_some_iff.mp h'
      rw [resolve_mono (.refl t) hdir hdir']

/-- A path that leads somewhere has a place, where something stands. -/
theorem place_of_resolve {f : Names} (h : t.resolve links [] f = some p) :
    ∃ R, place links t f = some R ∧ (t.get R).isSome = true := by
  obtain ⟨k, hk, hwalks⟩ := FileTree.resolve_eq_some_iff.mp h
  unfold place
  split
  · exact ⟨p, h, hwalks.isSome t.root⟩
  · next x hlast =>
    split
    · exact ⟨p, h, hwalks.isSome t.root⟩
    · next hdots =>
      rw [not_or] at hdots
      rw [← List.dropLast_append_getLast? x hlast] at hwalks
      obtain ⟨k₁, k₂, dir, hdir, -, hname, rfl⟩ := hwalks.split t.root (List.cons_ne_nil x [])
      refine ⟨dir ++ [x], ?_, hname.isSome_of_singleton hdots.1 hdots.2⟩
      have hresolve : t.resolve links [] f.dropLast = some dir :=
        FileTree.resolve_eq_some_iff.mpr ⟨k₁, by omega, hdir⟩
      simp only [entryAt, hlast, hresolve, Option.map_some]

/-- A path to a directory that is no link leads to its place. -/
theorem place_eq_of_dir {n : Nat} {f : Names} (hR : place links t f = some R)
    (hdir : t.get R = some .dir) (h : t.resolve n [] f = some p) : p = R := by
  unfold place at hR
  split at hR
  · exact resolve_mono (.refl t) h hR
  · next x hlast =>
    split at hR
    · exact resolve_mono (.refl t) h hR
    · simp only [entryAt, hlast] at hR
      obtain ⟨dir, hparent, rfl⟩ := Option.map_eq_some_iff.mp hR
      obtain ⟨k, -, hwalks⟩ := FileTree.resolve_eq_some_iff.mp hparent
      have hpath := hwalks.append (t.parent dir x (by rw [hdir]; rfl)).1 (.dir hdir (.done _))
      rw [List.dropLast_append_getLast? x hlast] at hpath
      exact resolve_mono (.refl t) h (FileTree.resolve_eq_some_iff.mpr ⟨k + 0, le_rfl, hpath⟩)

/-- The beginning of a path that leads somewhere. -/
theorem resolve_of_append {f : Names} (h : t.resolve links [] (f ++ names) = some p) :
    ∃ q, t.resolve links [] f = some q := by
  by_cases hnames : names = []
  · rw [hnames, List.append_nil] at h
    exact ⟨p, h⟩
  · obtain ⟨k, hk, hwalks⟩ := FileTree.resolve_eq_some_iff.mp h
    obtain ⟨k₁, k₂, q, hq, -, -, rfl⟩ := hwalks.split t.root hnames
    exact ⟨q, FileTree.resolve_eq_some_iff.mpr ⟨k₁, by omega, hq⟩⟩

/-! ## What a call removes -/

theorem perform_below (o : Op) (c : Choice) (t : FileTree β) : (perform links o c t).2.Below t := by
  cases o with
  | exists_ | isDirectory => exact .refl t
  | listFiles f =>
    simp only [perform]
    (repeat' split) <;> exact .refl t
  | delete f =>
    simp only [perform]
    split
    · exact .refl t
    · split
      · next h =>
        split
        · exact FileTree.below_remove h.1 h.2
        · exact .refl t
      · exact .refl t

/-- A call that deletes below the root. -/
def DeletesBelow (root : Names) (o : Op) : Prop :=
  ∀ f, o = .delete f → ∃ names, f = root ++ names ∧ ∀ y ∈ names, IsFileName y

/-- **What is deleted is inside**, if the tree is closed. -/
theorem inside_of_entryAt (hclosed : Closed t₀ root) (hbelow : t.Below t₀)
    (hnames : ∀ y ∈ names, IsFileName y) (hentry : entryAt links t (root ++ names) = some q)
    (hsome : (t.get q).isSome = true) (hempty : t.children q = []) : Inside t₀ root q := by
  rcases List.eq_nil_or_concat names with rfl | ⟨names', x, rfl⟩
  · -- the root itself
    rw [List.append_nil] at hentry
    have hplace : place links t root = some q := by
      unfold place
      simp only [entryAt] at hentry
      split at hentry
      · cases hentry
      · next x hlast =>
        obtain ⟨dir, hdir, rfl⟩ := Option.map_eq_some_iff.mp hentry
        have hname := (t.parent dir x hsome).2
        have hdots : ¬ (x = ['.'] ∨ x = ['.', '.']) := not_or.mpr ⟨hname.ne_here, hname.ne_up⟩
        simp only [entryAt, hlast, hdir, if_neg hdots, Option.map_some]
    exact ⟨links, q, place_of_below hbelow hplace, List.prefix_refl q⟩
  · rw [List.concat_eq_append] at hentry hnames
    simp only [entryAt, ← List.append_assoc, List.getLast?_concat, List.dropLast_concat] at hentry
    obtain ⟨p, hp, rfl⟩ := Option.map_eq_some_iff.mp hentry
    -- the root is still there
    obtain ⟨p₀, hp₀⟩ := resolve_of_append hp
    obtain ⟨R, hR, hRsome⟩ := place_of_resolve hp₀
    have hplace := place_of_below hbelow hR
    refine ⟨links, R, hplace, ?_⟩
    rcases hclosed links names' p x links R (fun y hy => hnames y (List.mem_append_left _ hy))
      (resolve_of_below hbelow hp) (hbelow.isSome hsome) hplace with h | ⟨rest, rfl⟩
    · exact h
    · -- a directory on the way to the root is not empty
      cases rest with
      | nil => rw [List.append_nil]
      | cons y rest =>
        rw [List.append_cons] at hRsome
        have hy : (t.get (p ++ [x] ++ [y])).isSome = true := by
          by_cases hrest : rest = []
          · rwa [hrest, List.append_nil] at hRsome
          · rw [FileTree.get_of_append hRsome hrest]
            rfl
        have hmem := t.mem_children.mpr hy
        rw [hempty] at hmem
        cases hmem

theorem perform_outside (hclosed : Closed t₀ root) (hbelow : t.Below t₀) {o : Op}
    (ho : DeletesBelow root o) (c : Choice) (hq : ¬ Inside t₀ root q) :
    (perform links o c t).2.get q = t.get q := by
  cases o with
  | exists_ | isDirectory => rfl
  | listFiles f =>
    simp only [perform]
    (repeat' split) <;> rfl
  | delete f =>
    obtain ⟨names, rfl, hnames⟩ := ho f rfl
    simp only [perform]
    split
    · rfl
    · next p hentry =>
      split
      · next h =>
        split
        · next hsome =>
          have hinside : Inside t₀ root p := inside_of_entryAt hclosed hbelow hnames hentry
            (Bool.and_eq_true_iff.mp hsome).2 h.2
          rw [FileTree.get_remove, if_neg]
          rintro rfl
          exact hq hinside
        · rfl
      · rfl

/-! ## It terminates -/

section

variable {J : Op → FileTree β → Prop} {f : Names}

theorem wp_exists {Q : Bool → FileTree β → Prop} : (exists_ links f).wp J Q t ↔
    J (.exists_ f) t ∧ (Choice → Q (t.resolve links [] f).isSome t) := Iff.rfl

theorem wp_isDirectory {Q : Bool → FileTree β → Prop} : (isDirectory links f).wp J Q t ↔
    J (.isDirectory f) t ∧ (Choice → Q (leadsToDir links t f) t) := Iff.rfl

theorem wp_listFiles {Q : Option (List Text) → FileTree β → Prop} :
    (listFiles links f).wp J Q t ↔ J (.listFiles f) t ∧
      ∀ c, Q (perform links (.listFiles f) c t).1 (perform links (.listFiles f) c t).2 := Iff.rfl

theorem wp_delete {Q : Bool → FileTree β → Prop} : (delete links f).wp J Q t ↔
    J (.delete f) t ∧
      ∀ c, Q (perform links (.delete f) c t).1 (perform links (.delete f) c t).2 := Iff.rfl

end

/-- A path leads to a directory. -/
theorem leadsToDir_iff {f : Names} : leadsToDir links t f = true ↔
    ∃ p, t.resolve links [] f = some p ∧ t.get p = some .dir := by
  unfold leadsToDir
  split
  · next hnone => simp [hnone]
  · next p hp => simp [hp, Option.any_eq_true, Entry.isDir_eq_true]

/-- What is listed are names of entries. -/
theorem perform_listFiles {f : Names} {c : Choice} {list : List Text}
    (h : (perform links (.listFiles f) c t).1 = some list) : ∃ p, t.resolve links [] f = some p ∧
      t.get p = some .dir ∧ ∀ y, y ∈ list ↔ y ∈ t.children p := by
  simp only [perform] at h
  split at h
  · cases h
  · next p hp =>
    split at h
    · next hdir =>
      obtain rfl := Option.some.inj h
      obtain ⟨-, hdir⟩ := Bool.and_eq_true_iff.mp hdir
      obtain ⟨e, he, hdir⟩ := (Option.any_eq_true _ _).mp hdir
      refine ⟨p, hp, by rw [he, Entry.isDir_eq_true.mp hdir], fun y => ?_⟩
      split
      · next hperm => exact (List.isPerm_iff.mp hperm).mem_iff
      · exact Iff.rfl
    · cases h

theorem isFileName_of_mem_children {y : Text} (h : y ∈ t.children p) : IsFileName y :=
  (t.parent p y (t.mem_children.mp h)).2

/-- How deep the calls can be inside each other. -/
def maxDepth (links : Nat) (t : FileTree β) : Nat := links * (t.height + 1) + t.height

/-- A path that leads somewhere is not longer than that. -/
theorem length_le_maxDepth (h : t.resolve links [] (root ++ names) = some p)
    (hnames : ∀ y ∈ names, IsFileName y) : names.length ≤ maxDepth links t := by
  obtain ⟨k, hk, hwalks⟩ := FileTree.resolve_eq_some_iff.mp h
  have hlength := hwalks.length_le t.root hnames
  have hmul := Nat.mul_le_mul_right (t.height + 1) hk
  unfold maxDepth
  omega

/-- The calls in the loop come to their end. -/
theorem cleanFiles_wp {clean : Names → Java β links Bool} {list : List Text}
    (hclean : ∀ y t, IsFileName y → t.Below t₀ → leadsToDir links t (root ++ names ++ [y]) = true →
      (clean (root ++ names ++ [y])).wp (fun o _ => DeletesBelow root o)
        (fun done t' => done = true ∧ t'.Below t₀) t)
    (hnames : ∀ y ∈ names, IsFileName y) (hlist : ∀ y ∈ list, IsFileName y)
    (hbelow : t.Below t₀) :
    (cleanFiles clean (root ++ names) list).wp (fun o _ => DeletesBelow root o)
      (fun done t' => done = true ∧ t'.Below t₀) t := by
  induction list generalizing t with
  | nil => exact ⟨rfl, hbelow⟩
  | cons y list ih =>
    obtain ⟨hy, hlist⟩ := List.forall_mem_cons.mp hlist
    -- what follows the call for an entry, when this has come to its end
    have hrest : ∀ t' : FileTree β, t'.Below t₀ → (delete links (root ++ names ++ [y]) >>= fun _ =>
        cleanFiles clean (root ++ names) list).wp (fun o _ => DeletesBelow root o)
          (fun done t' => done = true ∧ t'.Below t₀) t' := by
      intro t' hbelow'
      refine Code.wp_bind.mpr (wp_delete.mpr ⟨?_, fun c => ?_⟩)
      · rintro f ⟨⟩
        refine ⟨names ++ [y], List.append_assoc _ _ _, ?_⟩
        exact List.forall_mem_append.mpr ⟨hnames, List.forall_mem_singleton.mpr hy⟩
      · exact ih hlist ((perform_below _ c t').trans hbelow')
    unfold cleanFiles
    refine Code.wp_bind.mpr (Code.wp_bind.mpr (wp_isDirectory.mpr ⟨by rintro f ⟨⟩, fun _ => ?_⟩))
    split
    · next hdir =>
      refine Code.wp_mono (fun _ _ h => h) ?_ (hclean y t hy hbelow hdir)
      rintro done t' ⟨rfl, hbelow'⟩
      exact hrest t' hbelow'
    · exact hrest t hbelow

/-- **It terminates**, and deletes paths through the root only. -/
theorem cleanDirectory_wp {depth : Nat} (hbelow : t.Below t₀)
    (hnames : ∀ y ∈ names, IsFileName y) (hlength : names.length ≤ maxDepth links t₀)
    (hdepth : maxDepth links t₀ < depth + names.length) :
    (cleanDirectory links depth (root ++ names)).wp (fun o _ => DeletesBelow root o)
      (fun done t' => done = true ∧ t'.Below t₀) t := by
  induction depth generalizing names t with
  | zero => omega
  | succ depth ih =>
    have hdelete : DeletesBelow root (.delete (root ++ names)) := by
      rintro f ⟨⟩
      exact ⟨names, rfl, hnames⟩
    unfold cleanDirectory
    refine Code.wp_bind.mpr (wp_exists.mpr ⟨by rintro f ⟨⟩, fun _ => ?_⟩)
    split
    · refine Code.wp_bind.mpr (wp_listFiles.mpr ⟨by rintro f ⟨⟩, fun c => ?_⟩)
      have hbelow' : (perform links (.listFiles (root ++ names)) c t).2.Below t₀ :=
        (perform_below _ c t).trans hbelow
      split
      · exact ⟨rfl, hbelow'⟩
      · next list hlist =>
        obtain ⟨p, -, -, hmem⟩ := perform_listFiles hlist
        have hfiles : ∀ y ∈ list, IsFileName y := fun y hy =>
          isFileName_of_mem_children ((hmem y).mp hy)
        refine Code.wp_bind.mpr (Code.wp_mono (fun _ _ h => h) ?_
          (cleanFiles_wp (fun y t' hy hbelow' hdir => ?_) hnames hfiles hbelow'))
        · rintro done t' ⟨rfl, hbelow'⟩
          refine Code.wp_bind.mpr (wp_delete.mpr ⟨hdelete, fun c => ?_⟩)
          exact ⟨rfl, (perform_below _ c t').trans hbelow'⟩
        · -- the path to an entry leads somewhere, so that it is not too long
          obtain ⟨p', hp', -⟩ := leadsToDir_iff.mp hdir
          have hnames' : ∀ z ∈ names ++ [y], IsFileName z :=
            List.forall_mem_append.mpr ⟨hnames, List.forall_mem_singleton.mpr hy⟩
          rw [List.append_assoc] at hp' ⊢
          have hshort := length_le_maxDepth (resolve_of_below hbelow' hp') hnames'
          refine ih hbelow' hnames' hshort ?_
          rw [List.length_append, List.length_singleton]
          omega
    · exact ⟨rfl, hbelow⟩

theorem staysInside_of_closed (hclosed : Closed t root) (links : Nat) :
    StaysInside links t root := by
  refine ⟨maxDepth links t + 1, fun depth hdepth => ?_⟩
  have hwp : (cleanDirectory links depth (root ++ [])).wp (fun o _ => DeletesBelow root o)
      (fun done t' => done = true ∧ t'.Below t) t :=
    cleanDirectory_wp (.refl t) (by simp) (Nat.zero_le _) (by rw [List.length_nil]; omega)
  rw [List.append_nil] at hwp
  -- what no call changes
  have hcall : ∀ o c t', DeletesBelow root o →
      (t'.Below t ∧ ∀ q, ¬ Inside t root q → t'.get q = t.get q) →
        (perform links o c t').2.Below t ∧
          ∀ q, ¬ Inside t root q → (perform links o c t').2.get q = t.get q := by
    rintro o c t' ho ⟨hbelow, hsame⟩
    refine ⟨(perform_below o c t').trans hbelow, fun q hq => ?_⟩
    exact (perform_outside hclosed hbelow ho c hq).trans (hsame q hq)
  refine Code.wp_mono (fun _ _ h => h) (fun done t' h => ⟨h.1.1, h.2.2⟩)
    (Code.wp_keeps (fun _ _ _ _ => trivial) hcall hwp ⟨.refl t, fun _ _ => rfl⟩)

/-! ## What it removes otherwise -/

/-- At the end the entry is still there. -/
def Keeps (q : Names) (done : Bool) (t : FileTree β) : Prop := done = true ∧ (t.get q).isSome = true

instance : Nonempty (java β links).Choice := ⟨⟨true, []⟩⟩

/-- What is there at the end is there before. -/
theorem isSome_of_wp {code : Java β links Bool} (h : code.wp (fun _ _ => True) (Keeps q) t) :
    (t.get q).isSome = true := by
  by_contra hnone
  obtain ⟨done, t', hkeeps, hnone'⟩ := Code.exists_end (P := fun t' => ¬ (t'.get q).isSome = true)
    (fun o c t' hnone hsome => hnone ((perform_below o c t').isSome hsome)) h hnone
  exact hnone' hkeeps.2

theorem delete_removes {f : Names} (hentry : entryAt links t f = some q) (hq : q ≠ [])
    (hempty : t.children q = []) (hsome : (t.get q).isSome = true) :
    ¬ (delete links f).wp (fun _ _ => True)
      (fun _ t' => (t'.get q).isSome = true) t := by
  intro h
  have hdelete := (wp_delete.mp h).2 ⟨true, []⟩
  simp [perform, hentry, hq, hempty, hsome] at hdelete

/-- The rest of a call, with the names in any order. -/
theorem wp_listed {J : Op → FileTree β → Prop} {Q : Bool → FileTree β → Prop} {depth : Nat}
    {f : Names} {list : List Text} (h : (cleanDirectory links (depth + 1) f).wp J Q t)
    (hp : t.resolve links [] f = some p) (hdir : t.get p = some .dir)
    (hlist : list.Perm (t.children p)) :
    (cleanFiles (cleanDirectory links depth) f list >>= fun done =>
      if done then delete links f >>= fun _ => pure true else pure false).wp J Q t := by
  unfold cleanDirectory at h
  have hexists := (wp_exists.mp (Code.wp_bind.mp h)).2 ⟨true, []⟩
  rw [hp, Option.isSome_some, if_pos rfl] at hexists
  have hlisted := (wp_listFiles.mp (Code.wp_bind.mp hexists)).2 ⟨true, list⟩
  simp only [perform, hp, hdir, Option.any_some, Entry.isDir, Bool.and_self, if_true,
    List.isPerm_iff.mpr hlist] at hlisted
  exact hlisted

/-- The loop from an entry on, and what comes after it. -/
theorem wp_cons {J : Op → FileTree β → Prop} {Q : Bool → FileTree β → Prop}
    {clean : Names → Java β links Bool} {next : Bool → Java β links Bool} {f : Names} {y : Text}
    {list : List Text} (h : (cleanFiles clean f (y :: list) >>= next).wp J Q t) :
    if leadsToDir links t (f ++ [y]) then
      (clean (f ++ [y])).wp J (fun done t' =>
        if done then
          (delete links (f ++ [y]) >>= fun _ => cleanFiles clean f list >>= next).wp J Q t'
        else (next false).wp J Q t') t
    else (delete links (f ++ [y]) >>= fun _ => cleanFiles clean f list >>= next).wp J Q t := by
  have hassoc : ∀ t', (delete links (f ++ [y]) >>= fun _ => cleanFiles clean f list).wp J
      (fun done t' => (next done).wp J Q t') t' →
        (delete links (f ++ [y]) >>= fun _ => cleanFiles clean f list >>= next).wp J Q t' := by
    intro t' h'
    refine Code.wp_bind.mpr (Code.wp_mono (fun _ _ h => h) (fun _ t'' h => ?_) (Code.wp_bind.mp h'))
    exact Code.wp_bind.mpr h
  have hentry := (wp_isDirectory.mp (Code.wp_bind.mp (Code.wp_bind.mp (Code.wp_bind.mp h)))).2
    ⟨true, []⟩
  split
  · next hdir =>
    rw [if_pos hdir] at hentry
    refine Code.wp_mono (fun _ _ h => h) (fun done t' h' => ?_) hentry
    cases done with
    | true => exact hassoc t' h'
    | false => exact h'
  · next hdir =>
    rw [if_neg hdir] at hentry
    exact hassoc t hentry

/-- The calls for an entry that is listed first. -/
theorem keeps_cons {depth : Nat} {f : Names} {y : Text}
    (h : (cleanDirectory links depth f).wp (fun _ _ => True) (Keeps q) t)
    (hp : t.resolve links [] f = some p) (hdir : t.get p = some .dir) (hy : y ∈ t.children p) :
    if leadsToDir links t (f ++ [y]) then
      ∃ depth', (cleanDirectory links depth' (f ++ [y])).wp (fun _ _ => True) (Keeps q) t
    else (delete links (f ++ [y])).wp (fun _ _ => True)
      (fun _ t' => (t'.get q).isSome = true) t := by
  cases depth with
  | zero => exact absurd h.1 Bool.false_ne_true
  | succ depth =>
    have hentry := wp_cons (wp_listed h hp hdir (List.perm_cons_erase hy).symm)
    split
    · next hleads =>
      rw [if_pos hleads] at hentry
      refine ⟨depth, Code.wp_mono (fun _ _ h => h) (fun done t' h' => ?_) hentry⟩
      cases done with
      | true => exact ⟨rfl, isSome_of_wp h'⟩
      | false => exact absurd h'.1 Bool.false_ne_true
    · next hleads =>
      rw [if_neg hleads] at hentry
      exact Code.wp_mono (fun _ _ h => h) (fun _ _ h => isSome_of_wp h) (Code.wp_bind.mp hentry)

/-- The calls for an empty directory. -/
theorem keeps_nil {depth : Nat} {f : Names}
    (h : (cleanDirectory links depth f).wp (fun _ _ => True) (Keeps q) t)
    (hp : t.resolve links [] f = some p) (hdir : t.get p = some .dir) (hempty : t.children p = []) :
    (delete links f).wp (fun _ _ => True)
      (fun _ t' => (t'.get q).isSome = true) t := by
  cases depth with
  | zero => exact absurd h.1 Bool.false_ne_true
  | succ depth =>
    have hperm : List.Perm [] (t.children p) := by rw [hempty]
    have hlisted : (delete links f >>= fun _ => pure true).wp (fun _ _ => True) (Keeps q) t :=
      wp_listed h hp hdir hperm
    exact Code.wp_mono (fun _ _ h => h) (fun _ _ h => h.2) (Code.wp_bind.mp hlisted)

/-- The calls go down a path. -/
theorem keeps_down {depth : Nat} {f : Names} (hnames : ∀ y ∈ names, IsFileName y)
    (h : (cleanDirectory links depth f).wp (fun _ _ => True) (Keeps q) t)
    (hp : t.resolve links [] (f ++ names) = some p) (hdir : t.get p = some .dir) :
    ∃ depth', (cleanDirectory links depth' (f ++ names)).wp (fun _ _ => True)
      (Keeps q) t := by
  induction names generalizing f depth with
  | nil =>
    rw [List.append_nil]
    exact ⟨depth, h⟩
  | cons y names ih =>
    obtain ⟨hy, hnames⟩ := List.forall_mem_cons.mp hnames
    rw [List.append_cons] at hp ⊢
    -- the entry leads to a directory
    obtain ⟨p', hp', hdir'⟩ : ∃ p', t.resolve links [] (f ++ [y]) = some p' ∧
        t.get p' = some .dir := by
      by_cases hnil : names = []
      · rw [hnil, List.append_nil] at hp
        exact ⟨p, hp, hdir⟩
      · obtain ⟨k, hk, hwalks⟩ := FileTree.resolve_eq_some_iff.mp hp
        obtain ⟨k₁, k₂, p', hp', hdir', -, rfl⟩ := hwalks.split t.root hnil
        exact ⟨p', FileTree.resolve_eq_some_iff.mpr ⟨k₁, by omega, hp'⟩, hdir'⟩
    obtain ⟨k, hk, hwalks⟩ := FileTree.resolve_eq_some_iff.mp hp'
    obtain ⟨k₁, k₂, p₀, hp₀, hdir₀, hlast, rfl⟩ := hwalks.split t.root (List.cons_ne_nil y [])
    have hmem := t.mem_children.mpr (hlast.isSome_of_singleton hy.ne_here hy.ne_up)
    have hentry := keeps_cons h (FileTree.resolve_eq_some_iff.mpr ⟨k₁, by omega, hp₀⟩) hdir₀ hmem
    rw [if_pos (leadsToDir_iff.mpr ⟨p', hp', hdir'⟩)] at hentry
    obtain ⟨depth', h'⟩ := hentry
    exact ih hnames h' hp

/-- **An entry outside is removed**: one that a path through the root leads to, after exactly
`k` links, and below which the entry `q` is the first to go. It is a link only if the system
follows no more links than these. -/
theorem not_staysInside_of_entry {k : Nat} (hnames : ∀ y ∈ names, IsFileName y)
    (hwalks : t.Walks k [] (root ++ names) p) (hk : k ≤ links) {x : Text} {ys : Names}
    (hsome : (t.get (p ++ x :: ys)).isSome = true) (hempty : t.children (p ++ x :: ys) = [])
    (hlink : ∀ absolute target, t.get (p ++ x :: ys) = some (.link absolute target) → k = links)
    (houtside : ¬ Inside t root (p ++ x :: ys)) : ¬ StaysInside links t root := by
  rintro ⟨enough, henough⟩
  have hkeeps : (cleanDirectory links enough root).wp (fun _ _ => True)
      (Keeps (p ++ x :: ys)) t := by
    refine Code.wp_mono (fun _ _ h => h) (fun done t' h => ⟨h.1, ?_⟩) (henough enough le_rfl)
    rw [h.2 _ houtside]
    exact hsome
  -- the directory that the entry is in
  obtain ⟨init, z, hinit⟩ : ∃ init z, x :: ys = init ++ [z] := by
    rcases List.eq_nil_or_concat (x :: ys) with hnil | ⟨init, z, h⟩
    · cases hnil
    · exact ⟨init, z, by rw [h, List.concat_eq_append]⟩
  rw [hinit] at hsome hempty hlink hkeeps
  rw [← List.append_assoc] at hsome hempty hlink hkeeps
  obtain ⟨hdir, hz⟩ := t.parent _ z hsome
  have hpath : t.Walks k [] (root ++ (names ++ init)) (p ++ init) := by
    rw [← List.append_assoc]
    by_cases hnil : init = []
    · rwa [hnil, List.append_nil, List.append_nil]
    · exact hwalks.append (FileTree.get_of_append (by rw [hdir]; rfl) hnil)
        (FileTree.walks_down hdir)
  have hall : ∀ y ∈ names ++ init, IsFileName y := List.forall_mem_append.mpr
    ⟨hnames, FileTree.isFileName_of_append (p := p) (by rw [hdir]; rfl)⟩
  have hresolve : t.resolve links [] (root ++ (names ++ init)) = some (p ++ init) :=
    FileTree.resolve_eq_some_iff.mpr ⟨k, hk, hpath⟩
  have hentry : entryAt links t (root ++ (names ++ init) ++ [z]) = some (p ++ init ++ [z]) := by
    simp only [entryAt, List.getLast?_concat, List.dropLast_concat, hresolve, Option.map_some]
  have hremoves := delete_removes hentry (by simp) hempty hsome
  -- the calls come to it
  obtain ⟨depth, hdown⟩ := keeps_down hall hkeeps hresolve hdir
  have hfirst := keeps_cons hdown hresolve hdir (t.mem_children.mpr hsome)
  split at hfirst
  · next hleads =>
    obtain ⟨dest, hdest, hdestDir⟩ := leadsToDir_iff.mp hleads
    obtain ⟨depth', hdeep⟩ := hfirst
    -- it is an empty directory
    obtain ⟨k', hk', hwalks'⟩ := FileTree.resolve_eq_some_iff.mp hdest
    obtain ⟨k₁, k₂, p₁, hpath', -, hlast, rfl⟩ := hwalks'.split t.root (List.cons_ne_nil z [])
    obtain ⟨rfl, rfl⟩ := hpath.unique hpath'
    have hsame : dest = p ++ init ++ [z] := by
      cases hlast with
      | here _ => exact absurd rfl hz.ne_here
      | up _ => exact absurd rfl hz.ne_up
      | dir _ hend =>
        cases hend
        rfl
      | file _ => rfl
      | link hget _ =>
        have heq := hlink _ _ hget
        omega
    rw [hsame] at hdest hdestDir
    exact hremoves (keeps_nil hdeep hdest hdestDir hempty)
  · exact hremoves hfirst

/-- **It stays inside**, whatever the environment chooses and however many links the system
follows, exactly if the tree is closed. -/
theorem staysInside_iff (t : FileTree β) (root : Names) :
    (∀ links, StaysInside links t root) ↔ Closed t root := by
  refine ⟨fun h links names p x links' R hnames hp hsome hR => ?_, staysInside_of_closed⟩
  by_contra hnot
  rw [not_or] at hnot
  obtain ⟨k, -, hwalks⟩ := FileTree.resolve_eq_some_iff.mp hp
  obtain ⟨ys, hleaf, hempty⟩ := FileTree.exists_leaf hsome
  have houtside : ¬ Inside t root (p ++ [x] ++ ys) := by
    rintro ⟨links'', R', hR', hprefix⟩
    rw [← place_unique hR hR'] at hprefix
    rcases List.prefix_or_prefix_of_prefix hprefix (List.prefix_append (p ++ [x]) ys) with h | h
    · exact hnot.1 h
    · exact hnot.2 h
  rw [List.append_assoc, List.singleton_append] at hleaf hempty houtside
  exact not_staysInside_of_entry hnames hwalks le_rfl hleaf hempty (fun _ _ _ => rfl) houtside
    (h k)

/-! ## Links that lead inside -/

/-- **The tree is closed** if the root is no link, and no link in it leads to a directory that
is not in it. -/
theorem closed_of_links (hR : place links t root = some R) (hdir : t.get R = some .dir)
    (hlinks : ∀ p x absolute target n dest, R <+: p →
      t.get (p ++ [x]) = some (.link absolute target) → t.resolve n p [x] = some dest →
        t.get dest = some .dir → R <+: dest) : Closed t root := by
  -- all directories that are come to are in it
  have hinside : ∀ names, (∀ y ∈ names, IsFileName y) → ∀ k p, t.Walks k [] (root ++ names) p →
      t.get p = some .dir → R <+: p := by
    intro names
    induction names using List.reverseRecOn with
    | nil =>
      intro _ k p hwalks _
      rw [List.append_nil] at hwalks
      rw [place_eq_of_dir hR hdir (FileTree.resolve_eq_some_iff.mpr ⟨k, le_rfl, hwalks⟩)]
    | append_singleton names y ih =>
      intro hnames k p hwalks hp
      obtain ⟨hnames, hy⟩ := List.forall_mem_append.mp hnames
      have hname := hy y (List.mem_singleton_self y)
      rw [← List.append_assoc] at hwalks
      obtain ⟨k₁, k₂, p₁, hp₁, hdir₁, hlast, -⟩ := hwalks.split t.root (List.cons_ne_nil y [])
      have hprefix := ih hnames k₁ p₁ hp₁ hdir₁
      cases hlast with
      | here _ => exact absurd rfl hname.ne_here
      | up _ => exact absurd rfl hname.ne_up
      | dir _ hend =>
        cases hend
        exact hprefix.trans (List.prefix_append _ _)
      | file hget => cases hget.symm.trans hp
      | link hget hrest =>
        exact hlinks p₁ y _ _ _ p hprefix hget
          (FileTree.resolve_eq_some_iff.mpr ⟨_, le_rfl, .link hget hrest⟩) hp
  intro links' names p x links'' R' hnames hp hsome hR'
  obtain ⟨k, -, hwalks⟩ := FileTree.resolve_eq_some_iff.mp hp
  rw [place_unique hR' hR]
  exact .inl ((hinside names hnames k p hwalks (t.parent p x hsome).1).trans
    (List.prefix_append _ _))

/-- An environment with a link to a directory of data. -/
def linked : FileTree (List UInt8) :=
  .ofEntries [(["env".toList], .dir), (["env".toList, "data".toList], .link true ["data".toList]),
    (["data".toList], .dir), (["data".toList, "file".toList], .file [])] (by decide)

/-- The file in the directory of data is removed. -/
theorem not_staysInside : ¬ ∀ (links : Nat) (t : FileTree (List UInt8)) (root : Names),
    StaysInside links t root := by
  intro h
  have henv : linked.get ["env".toList] = some .dir := rfl
  have hlink : linked.get ["env".toList, "data".toList] = some (.link true ["data".toList]) := rfl
  have hdata : linked.get ["data".toList] = some .dir := rfl
  have hwalks : linked.Walks 1 [] (["env".toList] ++ ["data".toList]) ["data".toList] :=
    .dir henv (.link hlink (.dir hdata (.done _)))
  have hfile : linked.get (["data".toList] ++ "file".toList :: []) = some (.file []) := rfl
  have houtside : ¬ Inside linked ["env".toList] (["data".toList] ++ "file".toList :: []) := by
    rintro ⟨links, R, hR, hprefix⟩
    have hplace : place 0 linked ["env".toList] = some ["env".toList] := by decide
    rw [place_unique hR hplace] at hprefix
    exact absurd hprefix (by decide)
  refine not_staysInside_of_entry (by decide) hwalks (by decide : 1 ≤ 40) (by rw [hfile]; rfl)
    (by decide) ?_ houtside (h 40 linked ["env".toList])
  intro absolute target hget
  cases hfile.symm.trans hget

end Anx.Links
