import Mathlib.Data.List.Dedup
import Mathlib.Data.List.Infix
import Mathlib.Logic.Function.Basic
import Anx.Lib.Lines

/-!
# File trees with symbolic links

A path of a file tree names where an entry really is; a path that a program uses may lead
there through links.

- `Entry`, `FileTree`: what stands at a path, with the directory of every entry and finitely many
  of them; `FileTree.remove`: an entry without others in it is removed;
- `FileTree.resolve`: where a path leads when at most so many links are followed, as a system does
  to be sure to end;
- `FileTree.Walks`: the same with the exact number of links; it determines both that number and
  the place (`Walks.unique`), is composed of parts (`Walks.append`, `Walks.split`), and
  bounds the length of a path without dots (`Walks.length_le`);
- `FileTree.Below`: a tree with some of the entries of another, where paths lead to the same places.
-/

namespace Anx.Lib

/-- The names on the way to a place, or those in a path that a program uses. -/
abbrev Names := List Text

/-- What stands at a path; the target of a link is cut at its slashes. -/
inductive Entry (β : Type) where
  | dir
  | file (content : β)
  | link (absolute : Bool) (target : Names)

namespace Entry

variable {β : Type}

def isDir : Entry β → Bool
  | dir => true
  | file _ | link _ _ => false

theorem isDir_eq_true {e : Entry β} : e.isDir = true ↔ e = dir := by cases e <;> simp [isDir]

end Entry

/-- A name that an entry can have. -/
def IsFileName (name : Text) : Prop :=
  name ≠ [] ∧ '/' ∉ name ∧ name ≠ ['.'] ∧ name ≠ ['.', '.']

instance (name : Text) : Decidable (IsFileName name) := inferInstanceAs (Decidable (_ ∧ _))

theorem IsFileName.ne_here {name : Text} (h : IsFileName name) : name ≠ ['.'] := h.2.2.1

theorem IsFileName.ne_up {name : Text} (h : IsFileName name) : name ≠ ['.', '.'] := h.2.2.2

/-- A file tree. -/
structure FileTree (β : Type) where
  get : Names → Option (Entry β)
  /-- The paths at which something may stand. -/
  paths : List Names
  mem_paths : ∀ p, (get p).isSome → p ∈ paths
  root : get [] = some .dir
  parent : ∀ p x, (get (p ++ [x])).isSome → get p = some .dir ∧ IsFileName x

namespace FileTree

variable {β : Type} (t : FileTree β)

/-- The names in a directory. -/
def children (p : Names) : List Text :=
  (t.paths.filterMap fun q =>
    if q.dropLast = p ∧ (t.get q).isSome then q.getLast? else none).dedup

theorem mem_children {p : Names} {x : Text} :
    x ∈ t.children p ↔ (t.get (p ++ [x])).isSome = true := by
  rw [children, List.mem_dedup, List.mem_filterMap]
  constructor
  · rintro ⟨q, -, hq⟩
    split at hq
    · next hboth =>
      obtain ⟨hdir, hsome⟩ := hboth
      rw [← hdir, List.dropLast_append_getLast? x hq]
      exact hsome
    · cases hq
  · intro h
    exact ⟨p ++ [x], t.mem_paths _ h, by simp [h]⟩

/-- An entry without others in it is removed. -/
def remove (p : Names) (hp : p ≠ []) (hempty : t.children p = []) : FileTree β where
  get := Function.update t.get p none
  paths := t.paths
  mem_paths := by
    intro q hq
    by_cases hqp : q = p
    · rw [hqp, Function.update_self] at hq
      cases hq
    · rw [Function.update_of_ne hqp] at hq
      exact t.mem_paths q hq
  root := by rw [Function.update_of_ne hp.symm, t.root]
  parent := by
    intro q x hq
    by_cases hqp : q ++ [x] = p
    · rw [hqp, Function.update_self] at hq
      cases hq
    · rw [Function.update_of_ne hqp] at hq
      obtain ⟨hdir, hname⟩ := t.parent q x hq
      refine ⟨?_, hname⟩
      rw [Function.update_of_ne, hdir]
      rintro rfl
      have hmem := t.mem_children.mpr hq
      rw [hempty] at hmem
      cases hmem

@[simp] theorem get_remove {p : Names} (hp : p ≠ []) (hempty : t.children p = []) (q : Names) :
    (t.remove p hp hempty).get q = if q = p then none else t.get q :=
  Function.update_apply t.get p none q

/-- The tree with these entries; the first one at a path counts. -/
def ofEntries (entries : List (Names × Entry β))
    (h : ∀ e ∈ entries, e.1.getLast?.any (fun x => IsFileName x) = true ∧
      (e.1.dropLast = [] ∨ (entries.lookup e.1.dropLast).any Entry.isDir = true)) : FileTree β where
  get p := if p = [] then some .dir else entries.lookup p
  paths := [] :: entries.map Prod.fst
  mem_paths := by
    intro p hp
    split at hp
    · next hnil => exact List.mem_cons.mpr (.inl hnil)
    · obtain ⟨e, he, heq⟩ := List.lookup_isSome_iff.mp hp
      rw [beq_iff_eq.mp heq]
      exact List.mem_cons_of_mem _ (List.mem_map_of_mem he)
  root := if_pos rfl
  parent := by
    intro p x hp
    rw [if_neg (by simp)] at hp
    obtain ⟨e, he, heq⟩ := List.lookup_isSome_iff.mp hp
    obtain ⟨hname, hdir⟩ := h e he
    rw [← beq_iff_eq.mp heq, List.getLast?_concat, Option.any_some, decide_eq_true_iff] at hname
    rw [← beq_iff_eq.mp heq, List.dropLast_concat] at hdir
    refine ⟨?_, hname⟩
    split
    · rfl
    · next hne =>
      obtain ⟨e', he', hdir⟩ := (Option.any_eq_true _ _).mp (hdir.resolve_left hne)
      rw [he', Entry.isDir_eq_true.mp hdir]

/-- Where the names lead from a directory, if `follow` goes on at the first link. -/
def walk (follow : Names → Names → Option Names) : Names → Names → Option Names
  | cur, [] => some cur
  | cur, x :: xs =>
    if x = ['.'] then walk follow cur xs
    else if x = ['.', '.'] then walk follow cur.dropLast xs
    else
      match t.get (cur ++ [x]) with
      | none => none
      | some .dir => walk follow (cur ++ [x]) xs
      | some (.file _) => if xs = [] then some (cur ++ [x]) else none
      | some (.link absolute target) => follow (if absolute then [] else cur) (target ++ xs)

/-- Where the names lead from a directory when at most `links` links are followed. -/
def resolve : (links : Nat) → Names → Names → Option Names
  | 0 => t.walk fun _ _ => none
  | links + 1 => t.walk (resolve links)

/-- The names lead from the directory to the place, through so many links. -/
inductive Walks : Nat → Names → Names → Names → Prop
  | done (cur : Names) : Walks 0 cur [] cur
  | here {k : Nat} {cur xs p : Names} : Walks k cur xs p → Walks k cur (['.'] :: xs) p
  | up {k : Nat} {cur xs p : Names} :
    Walks k cur.dropLast xs p → Walks k cur (['.', '.'] :: xs) p
  | dir {k : Nat} {cur xs p : Names} {x : Text} : t.get (cur ++ [x]) = some .dir →
    Walks k (cur ++ [x]) xs p → Walks k cur (x :: xs) p
  | file {cur : Names} {x : Text} {content : β} : t.get (cur ++ [x]) = some (.file content) →
    Walks 0 cur [x] (cur ++ [x])
  | link {k : Nat} {cur xs p : Names} {x : Text} {absolute : Bool} {target : Names} :
    t.get (cur ++ [x]) = some (.link absolute target) →
    Walks k (if absolute then [] else cur) (target ++ xs) p → Walks (k + 1) cur (x :: xs) p

/-- The tree has some of the entries of the other. -/
def Below (t t' : FileTree β) : Prop := ∀ p e, t.get p = some e → t'.get p = some e

variable {t} {t' t'' : FileTree β} {k k' n : Nat} {cur xs ys p q : Names} {x : Text}

theorem isFileName_of_get {e : Entry β} (h : t.get (cur ++ [x]) = some e) : IsFileName x :=
  (t.parent cur x (by rw [h]; rfl)).2

/-! ## Where paths lead -/

theorem walks_of_walk {follow : Names → Names → Option Names}
    (hfollow : ∀ cur xs p, follow cur xs = some p → ∃ k < n, t.Walks k cur xs p)
    (h : t.walk follow cur xs = some p) : ∃ k ≤ n, t.Walks k cur xs p := by
  induction xs generalizing cur with
  | nil =>
    cases h
    exact ⟨0, Nat.zero_le _, .done p⟩
  | cons x xs ih =>
    rw [walk] at h
    split at h
    · next hx =>
      obtain ⟨k, hk, hwalks⟩ := ih h
      exact ⟨k, hk, hx ▸ .here hwalks⟩
    · split at h
      · next hx =>
        obtain ⟨k, hk, hwalks⟩ := ih h
        exact ⟨k, hk, hx ▸ .up hwalks⟩
      · split at h
        · cases h
        · next hget =>
          obtain ⟨k, hk, hwalks⟩ := ih h
          exact ⟨k, hk, .dir hget hwalks⟩
        · next hget =>
          split at h
          · next hxs =>
            cases h
            exact ⟨0, Nat.zero_le _, hxs ▸ .file hget⟩
          · cases h
        · next hget =>
          obtain ⟨k, hk, hwalks⟩ := hfollow _ _ _ h
          exact ⟨k + 1, hk, .link hget hwalks⟩

theorem resolve_of_walks (h : t.Walks k cur xs p) : ∀ n, k ≤ n → t.resolve n cur xs = some p := by
  induction h with
  | done cur =>
    intro n _
    cases n <;> rfl
  | here _ ih =>
    intro n hn
    rw [← ih n hn]
    cases n <;> rfl
  | up _ ih =>
    intro n hn
    rw [← ih n hn]
    cases n <;> rfl
  | dir hget _ ih =>
    intro n hn
    have hname := isFileName_of_get hget
    rw [← ih n hn]
    cases n <;> simp only [resolve, walk, if_neg hname.ne_here, if_neg hname.ne_up, hget]
  | file hget =>
    intro n _
    have hname := isFileName_of_get hget
    cases n <;> simp only [resolve, walk, if_neg hname.ne_here, if_neg hname.ne_up, hget, if_true]
  | link hget _ ih =>
    intro n hn
    have hname := isFileName_of_get hget
    cases n with
    | zero => exact absurd hn (Nat.not_succ_le_zero _)
    | succ n =>
      rw [← ih n (Nat.le_of_succ_le_succ hn)]
      simp only [resolve, walk, if_neg hname.ne_here, if_neg hname.ne_up, hget]

/-- **A path leads to a place** within a limit exactly if it does through so many links or
less. -/
theorem resolve_eq_some_iff : t.resolve n cur xs = some p ↔ ∃ k ≤ n, t.Walks k cur xs p := by
  constructor
  · intro h
    induction n generalizing cur xs p with
    | zero => exact walks_of_walk (by simp) h
    | succ n ih =>
      refine walks_of_walk (fun cur xs p hp => ?_) h
      obtain ⟨k, hk, hwalks⟩ := ih hp
      exact ⟨k, Nat.lt_succ_of_le hk, hwalks⟩
  · rintro ⟨k, hk, hwalks⟩
    exact resolve_of_walks hwalks n hk

/-- A path leads to one place, through one number of links. -/
theorem Walks.unique (h : t.Walks k cur xs p) (h' : t.Walks k' cur xs q) : k = k' ∧ p = q := by
  induction h generalizing k' q with
  | done cur =>
    cases h'
    exact ⟨rfl, rfl⟩
  | here _ ih =>
    cases h' with
    | here h' => exact ih h'
    | dir hget _ => exact absurd rfl (isFileName_of_get hget).ne_here
    | file hget => exact absurd rfl (isFileName_of_get hget).ne_here
    | link hget _ => exact absurd rfl (isFileName_of_get hget).ne_here
  | up _ ih =>
    cases h' with
    | up h' => exact ih h'
    | dir hget _ => exact absurd rfl (isFileName_of_get hget).ne_up
    | file hget => exact absurd rfl (isFileName_of_get hget).ne_up
    | link hget _ => exact absurd rfl (isFileName_of_get hget).ne_up
  | dir hget _ ih =>
    cases h' with
    | here h' => exact absurd rfl (isFileName_of_get hget).ne_here
    | up h' => exact absurd rfl (isFileName_of_get hget).ne_up
    | dir _ h' => exact ih h'
    | file hget' => cases hget.symm.trans hget'
    | link hget' _ => cases hget.symm.trans hget'
  | file hget =>
    cases h' with
    | here h' => exact absurd rfl (isFileName_of_get hget).ne_here
    | up h' => exact absurd rfl (isFileName_of_get hget).ne_up
    | dir hget' _ => cases hget.symm.trans hget'
    | file _ => exact ⟨rfl, rfl⟩
    | link hget' _ => cases hget.symm.trans hget'
  | link hget _ ih =>
    cases h' with
    | here h' => exact absurd rfl (isFileName_of_get hget).ne_here
    | up h' => exact absurd rfl (isFileName_of_get hget).ne_up
    | dir hget' _ => cases hget.symm.trans hget'
    | file hget' => cases hget.symm.trans hget'
    | link hget' h' =>
      cases hget.symm.trans hget'
      obtain ⟨rfl, rfl⟩ := ih h'
      exact ⟨rfl, rfl⟩

/-- A way goes on from a directory. -/
theorem Walks.append (h : t.Walks k cur xs p) (hdir : t.get p = some .dir)
    (h' : t.Walks k' p ys q) : t.Walks (k + k') cur (xs ++ ys) q := by
  induction h with
  | done cur => rwa [Nat.zero_add]
  | here _ ih => exact .here (ih hdir h')
  | up _ ih => exact .up (ih hdir h')
  | dir hget _ ih => exact .dir hget (ih hdir h')
  | file hget => cases hget.symm.trans hdir
  | link hget _ ih =>
    rw [Nat.add_right_comm]
    have hrest := ih hdir h'
    rw [List.append_assoc] at hrest
    exact .link hget hrest

/-- The directory of a directory. -/
theorem get_dropLast (h : t.get cur = some .dir) : t.get cur.dropLast = some .dir := by
  rcases List.eq_nil_or_concat cur with rfl | ⟨p, x, rfl⟩
  · exact t.root
  · rw [List.concat_eq_append] at h ⊢
    rw [List.dropLast_concat]
    exact (t.parent p x (by rw [h]; rfl)).1

theorem get_base (h : t.get cur = some .dir) (absolute : Bool) :
    t.get (if absolute then [] else cur) = some .dir := by
  split
  · exact t.root
  · exact h

/-- There is something where a path leads. -/
theorem Walks.isSome (h : t.Walks k cur xs p) (hcur : t.get cur = some .dir) :
    (t.get p).isSome = true := by
  induction h with
  | done cur => rw [hcur]; rfl
  | here _ ih => exact ih hcur
  | up _ ih => exact ih (get_dropLast hcur)
  | dir hget _ ih => exact ih hget
  | file hget => rw [hget]; rfl
  | @link _ _ _ _ _ absolute _ hget _ ih => exact ih (get_base hcur absolute)

/-- A way is one to a directory, and from there. -/
theorem Walks.split (h : t.Walks k cur (xs ++ ys) q) (hcur : t.get cur = some .dir)
    (hys : ys ≠ []) : ∃ k₁ k₂ p, t.Walks k₁ cur xs p ∧ t.get p = some .dir ∧
      t.Walks k₂ p ys q ∧ k = k₁ + k₂ := by
  generalize hall : xs ++ ys = all at h
  induction h generalizing xs with
  | done cur =>
    obtain ⟨-, hnil⟩ := List.append_eq_nil_iff.mp hall
    exact absurd hnil hys
  | here h ih =>
    rcases List.append_eq_cons_iff.mp hall with ⟨rfl, rfl⟩ | ⟨xs', rfl, rfl⟩
    · exact ⟨0, _, _, .done _, hcur, .here h, (Nat.zero_add _).symm⟩
    · obtain ⟨k₁, k₂, p, h₁, hp, h₂, hk⟩ := ih hcur rfl
      exact ⟨k₁, k₂, p, .here h₁, hp, h₂, hk⟩
  | up h ih =>
    rcases List.append_eq_cons_iff.mp hall with ⟨rfl, rfl⟩ | ⟨xs', rfl, rfl⟩
    · exact ⟨0, _, _, .done _, hcur, .up h, (Nat.zero_add _).symm⟩
    · obtain ⟨k₁, k₂, p, h₁, hp, h₂, hk⟩ := ih (get_dropLast hcur) rfl
      exact ⟨k₁, k₂, p, .up h₁, hp, h₂, hk⟩
  | dir hget h ih =>
    rcases List.append_eq_cons_iff.mp hall with ⟨rfl, rfl⟩ | ⟨xs', rfl, rfl⟩
    · exact ⟨0, _, _, .done _, hcur, .dir hget h, (Nat.zero_add _).symm⟩
    · obtain ⟨k₁, k₂, p, h₁, hp, h₂, hk⟩ := ih hget rfl
      exact ⟨k₁, k₂, p, .dir hget h₁, hp, h₂, hk⟩
  | file hget =>
    rcases List.append_eq_cons_iff.mp hall with ⟨rfl, rfl⟩ | ⟨xs', rfl, hnil⟩
    · exact ⟨0, 0, _, .done _, hcur, .file hget, rfl⟩
    · exact absurd (List.append_eq_nil_iff.mp hnil.symm).2 hys
  | @link k cur xs₀ q x absolute target hget h ih =>
    rcases List.append_eq_cons_iff.mp hall with ⟨rfl, rfl⟩ | ⟨xs', rfl, rfl⟩
    · exact ⟨0, _, _, .done _, hcur, .link hget h, (Nat.zero_add _).symm⟩
    · obtain ⟨k₁, k₂, p, h₁, hp, h₂, hk⟩ :=
        ih (get_base hcur absolute) (List.append_assoc target xs' ys)
      exact ⟨k₁ + 1, k₂, p, .link hget h₁, hp, h₂, by omega⟩

/-- The way through a single name. -/
theorem Walks.isSome_of_singleton (h : t.Walks k cur [x] p) (hhere : x ≠ ['.'])
    (hup : x ≠ ['.', '.']) : (t.get (cur ++ [x])).isSome = true := by
  cases h with
  | here _ => exact absurd rfl hhere
  | up _ => exact absurd rfl hup
  | dir hget _ => rw [hget]; rfl
  | file hget => rw [hget]; rfl
  | link hget _ => rw [hget]; rfl

/-- What stands somewhere stands in a directory. -/
theorem get_of_append (h : (t.get (p ++ q)).isSome = true) (hq : q ≠ []) :
    t.get p = some .dir := by
  induction q using List.reverseRecOn with
  | nil => exact absurd rfl hq
  | append_singleton q x ih =>
    rw [← List.append_assoc] at h
    have hdir := (t.parent _ x h).1
    by_cases hq : q = []
    · rwa [hq, List.append_nil] at hdir
    · exact ih (by rw [hdir]; rfl) hq

/-- The way down to a directory takes no links. -/
theorem walks_down (h : t.get (p ++ q) = some .dir) : t.Walks 0 p q (p ++ q) := by
  induction q generalizing p with
  | nil =>
    rw [List.append_nil]
    exact .done p
  | cons x q ih =>
    rw [List.append_cons] at h ⊢
    refine .dir ?_ (ih h)
    by_cases hq : q = []
    · rwa [hq, List.append_nil] at h
    · exact get_of_append (by rw [h]; rfl) hq

/-- No path in the tree is longer than this. -/
def height (t : FileTree β) : Nat := (t.paths.map List.length).foldr max 0

theorem length_le_height (h : (t.get p).isSome = true) : p.length ≤ t.height := by
  have hmem := List.mem_map_of_mem (f := List.length) (t.mem_paths p h)
  unfold height
  generalize t.paths.map List.length = lengths at hmem
  induction lengths with
  | nil => cases hmem
  | cons n ns ih =>
    rw [List.foldr_cons]
    rcases List.mem_cons.mp hmem with rfl | hmem
    · exact le_max_left _ _
    · exact le_trans (ih hmem) (le_max_right _ _)

/-- Below every entry there is one without others in it. -/
theorem exists_leaf (h : (t.get p).isSome = true) :
    ∃ q, (t.get (p ++ q)).isSome = true ∧ t.children (p ++ q) = [] := by
  -- the longer the path, the less there can be below it
  induction hn : t.height - p.length using Nat.strongRecOn generalizing p with
  | ind n ih =>
    by_cases hempty : t.children p = []
    · exact ⟨[], by rwa [List.append_nil], by rwa [List.append_nil]⟩
    · obtain ⟨x, hx⟩ := List.exists_mem_of_ne_nil _ hempty
      have hsome := t.mem_children.mp hx
      have hlength := length_le_height hsome
      rw [List.length_append, List.length_singleton] at hlength
      obtain ⟨q, hq, hleaf⟩ := ih (t.height - (p ++ [x]).length)
        (by rw [List.length_append, List.length_singleton]; omega) hsome rfl
      rw [List.append_assoc] at hq hleaf
      exact ⟨x :: q, hq, hleaf⟩

theorem isFileName_of_append (h : (t.get (p ++ q)).isSome = true) : ∀ y ∈ q, IsFileName y := by
  induction q using List.reverseRecOn with
  | nil => simp
  | append_singleton q x ih =>
    rw [← List.append_assoc] at h
    obtain ⟨hdir, hx⟩ := t.parent _ x h
    exact List.forall_mem_append.mpr
      ⟨ih (by rw [hdir]; rfl), List.forall_mem_singleton.mpr hx⟩

/-! ## Trees with less in them -/

theorem Below.refl (t : FileTree β) : t.Below t := fun _ _ h => h

theorem Below.trans (h : t.Below t') (h' : t'.Below t'') : t.Below t'' :=
  fun p e hp => h' p e (h p e hp)

theorem below_remove (hp : p ≠ []) (hempty : t.children p = []) :
    (t.remove p hp hempty).Below t := by
  intro q e hq
  rw [get_remove] at hq
  split at hq
  · cases hq
  · exact hq

theorem Below.isSome (h : t.Below t') (hp : (t.get p).isSome = true) :
    (t'.get p).isSome = true := by
  obtain ⟨e, he⟩ := Option.isSome_iff_exists.mp hp
  rw [h p e he]
  rfl

/-- Paths lead to the same places as with more entries. -/
theorem Walks.mono (h : t.Walks k cur xs p) (hbelow : t.Below t') : t'.Walks k cur xs p := by
  induction h with
  | done cur => exact .done cur
  | here _ ih => exact .here ih
  | up _ ih => exact .up ih
  | dir hget _ ih => exact .dir (hbelow _ _ hget) ih
  | file hget => exact .file (hbelow _ _ hget)
  | link hget _ ih => exact .link (hbelow _ _ hget) ih

/-! ## Lengths of paths -/

/-- **The length of a path** without dots is bounded by that of the longest one in the tree,
once for each link and once for the rest. -/
theorem Walks.length_le (h : t.Walks k cur (xs ++ ys) p) (hcur : t.get cur = some .dir)
    (hys : ∀ y ∈ ys, IsFileName y) : ys.length ≤ k * (t.height + 1) + t.height := by
  -- without `xs`, also the place where the names start counts
  suffices hboth : ys.length ≤ k * (t.height + 1) + t.height ∧
      (xs = [] → ys.length + cur.length ≤ k * (t.height + 1) + t.height) from hboth.1
  generalize hall : xs ++ ys = all at h
  have hlength : ∀ {cur}, t.get cur = some .dir → cur.length ≤ t.height :=
    fun hcur => length_le_height (by rw [hcur]; rfl)
  induction h generalizing xs ys with
  | done cur =>
    obtain ⟨rfl, rfl⟩ := List.append_eq_nil_iff.mp hall
    have hle := hlength hcur
    exact ⟨Nat.zero_le _, fun _ => by rw [List.length_nil]; omega⟩
  | here h ih =>
    rcases List.append_eq_cons_iff.mp hall with ⟨rfl, rfl⟩ | ⟨xs', rfl, rfl⟩
    · exact absurd rfl (hys _ List.mem_cons_self).ne_here
    · exact ⟨(ih hcur hys rfl).1, fun hnil => absurd hnil (List.cons_ne_nil _ _)⟩
  | up h ih =>
    rcases List.append_eq_cons_iff.mp hall with ⟨rfl, rfl⟩ | ⟨xs', rfl, rfl⟩
    · exact absurd rfl (hys _ List.mem_cons_self).ne_up
    · exact ⟨(ih (get_dropLast hcur) hys rfl).1, fun hnil => absurd hnil (List.cons_ne_nil _ _)⟩
  | dir hget h ih =>
    rcases List.append_eq_cons_iff.mp hall with ⟨rfl, rfl⟩ | ⟨xs', rfl, rfl⟩
    · have hrest := (ih hget (List.forall_mem_of_forall_mem_cons hys) (List.nil_append _)).2 rfl
      rw [List.length_append, List.length_singleton] at hrest
      rw [List.length_cons]
      exact ⟨by omega, fun _ => by omega⟩
    · exact ⟨(ih hget hys rfl).1, fun hnil => absurd hnil (List.cons_ne_nil _ _)⟩
  | @file cur x _ hget =>
    rcases List.append_eq_cons_iff.mp hall with ⟨rfl, rfl⟩ | ⟨xs', rfl, hnil⟩
    · have hle : (cur ++ [x]).length ≤ t.height := length_le_height (by rw [hget]; rfl)
      rw [List.length_append, List.length_singleton] at hle
      rw [List.length_singleton]
      exact ⟨by omega, fun _ => by omega⟩
    · obtain ⟨-, rfl⟩ := List.append_eq_nil_iff.mp hnil.symm
      exact ⟨Nat.zero_le _, fun hnil => absurd hnil (List.cons_ne_nil _ _)⟩
  | @link k cur xs₀ q x absolute target hget h ih =>
    rcases List.append_eq_cons_iff.mp hall with ⟨rfl, rfl⟩ | ⟨xs', rfl, rfl⟩
    · have hrest := (ih (get_base hcur absolute) (List.forall_mem_of_forall_mem_cons hys)
        (rfl : target ++ _ = _)).1
      have hle := hlength hcur
      rw [List.length_cons, Nat.succ_mul]
      exact ⟨by omega, fun _ => by omega⟩
    · have hrest := (ih (get_base hcur absolute) hys (List.append_assoc target xs' ys)).1
      rw [Nat.succ_mul]
      exact ⟨by omega, fun hnil => absurd hnil (List.cons_ne_nil _ _)⟩

end FileTree

end Anx.Lib
