import Anx.Cli.OnlyContainer

/-!
# The order of unmounting

A mount point can be unmounted when nothing is mounted below it. The two loops of
`container_umount` go through what is below the root of the container, in reverse
alphabetical order, and then through the root.

- `StrictlyBelow`, `Normal`: mount points and their order; `StrictlyBelow.not_le`: what lies
  below comes first in the reverse order;
- `calls`, `targets`: the calls of `umount`, with the state in which they are made;
- `InOrder`: every mount of the container is a target, none before one below it, and so
  nothing of the container stays mounted;
- `takeMount_perm`, `attempts_count`: what one mount point gets;
- `umountAll_empty`: **the mounts of a pass are gone after it**;
- `plainParts_pairwise`: reverse alphabetical order has what lies below first;
- `findsAll_of_literal`: for literal paths the patterns find all mounts;
- `inOrder_iff`: **the order is right exactly if the patterns find all mounts**.
-/

namespace Anx.Cli

open Anx.Lib

/-! ## Mount points -/

/-- The path lies below `dir`, and is not `dir` itself. -/
def StrictlyBelow (dir path : Text) : Prop :=
  AtOrBelow dir path ∧ components dir ≠ components path

instance (dir path : Text) : Decidable (StrictlyBelow dir path) :=
  inferInstanceAs (Decidable (_ ∧ _))

/-- The path begins with a slash, and has no other slashes than between its names. -/
def Normal (path : Text) : Prop := path = '/' :: ['/'].intercalate (components path)

instance (path : Text) : Decidable (Normal path) := inferInstanceAs (Decidable (_ = _))

theorem intercalate_prefix {sep : Text} {parts parts' : List Text} (h : parts <+: parts') :
    sep.intercalate parts <+: sep.intercalate parts' := by
  obtain ⟨rest, rfl⟩ := h
  induction parts with
  | nil => exact List.nil_prefix
  | cons part parts ih =>
    cases parts with
    | nil =>
      cases rest with
      | nil => exact List.prefix_rfl
      | cons part' rest =>
        rw [List.singleton_append, List.intercalate_singleton, List.intercalate_cons_cons,
          List.append_assoc]
        exact List.prefix_append _ _
    | cons part' parts =>
      rw [List.cons_append, List.cons_append, List.intercalate_cons_cons,
        List.intercalate_cons_cons, ← List.cons_append]
      exact List.prefix_append_right_inj _ |>.mpr ih

theorem intercalate_append_cons {sep : Text} {parts : List Text} (hne : parts ≠ []) (part : Text)
    (rest : List Text) : sep.intercalate (parts ++ part :: rest) =
      sep.intercalate parts ++ sep ++ sep.intercalate (part :: rest) := by
  induction parts with
  | nil => exact absurd rfl hne
  | cons first parts ih =>
    cases parts with
    | nil => rw [List.singleton_append, List.intercalate_cons_cons, List.intercalate_singleton]
    | cons second parts =>
      rw [List.cons_append, List.cons_append, List.intercalate_cons_cons,
        List.intercalate_cons_cons, ← List.cons_append, ih (List.cons_ne_nil _ _)]
      simp [List.append_assoc]

theorem not_strictlyBelow_self (path : Text) : ¬ StrictlyBelow path path := fun h => h.2 rfl

/-- **A path below another** comes after it in alphabetical order. -/
theorem StrictlyBelow.not_le {dir path : Text} (hdir : Normal dir) (hpath : Normal path)
    (h : StrictlyBelow dir path) : ¬ path ≤ dir := by
  have hprefix : dir <+: path := by
    rw [hdir, hpath]
    exact List.cons_prefix_cons.mpr ⟨rfl, intercalate_prefix h.1.2⟩
  intro hle
  obtain hlt | rfl := lt_or_eq_of_le hle
  · exact hprefix.le hlt
  · exact not_strictlyBelow_self _ h

/-! ## Calls -/

namespace Unmounting

variable (umounts : Nat → Text → Bool)

/-- The calls of `umount` with these paths, and the states before them. -/
def umountCalls : Unmounting → List Text → List (Unmounting × Text)
  | _, [] => []
  | s, path :: paths => (s, path) :: umountCalls (s.umountPath umounts path).1 paths

/-- Those of `attempts`. -/
def attemptCalls (s : Unmounting) (args : List Text) : Nat → List (Unmounting × Text)
  | 0 => []
  | n + 1 =>
    let called := s.umount umounts args
    s.umountCalls umounts args ++ if called.2 then [] else called.1.attemptCalls args n

/-- The number of mounts at a path. -/
def count (s : Unmounting) (path : Text) : Nat := (s.mounts.map (·.dir)).count path

end Unmounting

namespace Container

variable (c : Container) (umounts : Nat → Text → Bool)

/-- The calls of the loop over parts. -/
def partCalls : Unmounting → List Text → List (Unmounting × Text)
  | _, [] => []
  | s, part :: parts =>
    s.attemptCalls umounts (c.expand part) 3 ++
      partCalls (s.attempts umounts (c.expand part) 3) parts

/-- All calls of both loops. -/
def calls : List (Unmounting × Text) :=
  let s : Unmounting := ⟨c.mounts, [], 0⟩
  let s' := c.umountParts umounts ['.', '*'] s
  c.partCalls umounts s ((c.parts ['.', '*'] s.mounts).flatMap c.expand) ++
    c.partCalls umounts s' ((c.parts ['*'] s'.mounts).flatMap c.expand)

/-- The paths that `umount` is called with. -/
def targets : List Text := (c.calls umounts).map Prod.snd

/-- Every call for a path without mounts below it succeeds. -/
def Releases : Prop :=
  ∀ call ∈ c.calls umounts, (∀ m ∈ call.1.mounts, ¬ StrictlyBelow call.2 m.dir) →
    umounts call.1.calls call.2 = true

/-- Unmounting is complete and in order. -/
structure InOrder : Prop where
  complete : ∀ umounts path, AtOrBelow c.CHROOT_DIR path →
    (c.mounts.map (·.dir)).count path ≤ (c.targets umounts).count path
  order : ∀ umounts, (c.targets umounts).Pairwise fun path path' => ¬ StrictlyBelow path path'
  empties : ∀ umounts, c.Releases umounts →
    ∀ m ∈ (c.umounted umounts).mounts, ¬ AtOrBelow c.CHROOT_DIR m.dir

/-- The table shows the mount points that the patterns find as they are, and the shell takes
them so. -/
def TakesAsIs : Prop :=
  ∀ m ∈ c.mounts, c.FindsMount m → mangle m.dir = m.dir ∧ c.expand m.dir = [m.dir]

/-- The patterns find all mounts of the container, the second one none that lies below what
the first one finds. -/
structure FindsAll : Prop where
  found : ∀ m ∈ c.mounts, AtOrBelow c.CHROOT_DIR m.dir → c.FindsMount m
  apart : ∀ m ∈ c.mounts, ∀ m' ∈ c.mounts,
    c.grep (c.partPattern ['.', '*']) (mangle m.dir) = true →
      c.grep (c.partPattern ['*']) (mangle m'.dir) = true → ¬ StrictlyBelow m.dir m'.dir

end Container

/-! ## One mount point -/

/-- The table without a mount. -/
theorem takeMount_perm {path : Text} {ms ms' : List Mount} {m : Mount}
    (h : takeMount path ms = some (m, ms')) : ms.Perm (m :: ms') := by
  induction ms generalizing m ms' with
  | nil => cases h
  | cons m₀ ms ih =>
    rw [takeMount] at h
    split at h
    · next hrest =>
      cases h
      exact ((ih hrest).cons m₀).trans (.swap _ _ _)
    · split at h
      · cases h
        exact .rfl
      · cases h

namespace Unmounting

variable {umounts : Nat → Text → Bool} {s : Unmounting} {path : Text}

theorem umountPath_count_le (s : Unmounting) (path path' : Text) :
    (s.umountPath umounts path).1.count path' ≤ s.count path' := by
  rw [umountPath]
  split
  · next m ms h =>
    split at h
    · rw [count, count, ((takeMount_perm h).map _).count_eq, List.map_cons]
      exact List.count_le_count_cons
    · cases h
  · exact Nat.le_refl _

/-- Mounts at other paths stay. -/
theorem umountPath_count_of_ne {path' : Text} (h : path' ≠ path) :
    (s.umountPath umounts path).1.count path' = s.count path' := by
  rw [umountPath]
  split
  · next m ms hsome =>
    split at hsome
    · rw [count, count, ((takeMount_perm hsome).map _).count_eq, List.map_cons,
        (takeMount_spec hsome).2.1, List.count_cons_of_ne (Ne.symm h)]
    · cases hsome
  · rfl

/-- A call that succeeds takes one mount away. -/
theorem umountPath_count (hcall : umounts s.calls path = true) (hmounted : 0 < s.count path) :
    (s.umountPath umounts path).2 = true ∧
      (s.umountPath umounts path).1.count path + 1 = s.count path := by
  obtain ⟨m, hm, hdir⟩ := List.mem_map.mp (List.count_pos_iff.mp hmounted)
  obtain ⟨m', ms', h⟩ := takeMount_isSome hm hdir
  obtain ⟨-, hdir', -⟩ := takeMount_spec h
  rw [umountPath, if_pos hcall, h]
  refine ⟨rfl, ?_⟩
  rw [count, count, ((takeMount_perm h).map _).count_eq, List.map_cons, hdir', List.count_cons_self]

theorem attempts_count_le (s : Unmounting) (path path' : Text) (n : Nat) :
    (s.attempts umounts [path] n).count path' ≤ s.count path' := by
  induction n generalizing s with
  | zero => exact Nat.le_refl _
  | succ n ih =>
    have hcall : (s.umountPath umounts path).1.count path' ≤ s.count path' :=
      s.umountPath_count_le path path'
    rw [attempts]
    split
    · exact hcall
    · exact (ih _).trans hcall

theorem attempts_count_of_ne {path' : Text} (h : path' ≠ path) (n : Nat) :
    (s.attempts umounts [path] n).count path' = s.count path' := by
  induction n generalizing s with
  | zero => rfl
  | succ n ih =>
    have hcall : (s.umountPath umounts path).1.count path' = s.count path' :=
      umountPath_count_of_ne h
    rw [attempts]
    split
    · exact hcall
    · exact ih.trans hcall

/-- So one mount at the path is gone after the attempts, if the first call succeeds. -/
theorem attempts_count {n : Nat} (hcall : umounts s.calls path = true)
    (hmounted : 0 < s.count path) :
    (s.attempts umounts [path] (n + 1)).count path + 1 = s.count path := by
  obtain ⟨hok, hcount⟩ := umountPath_count hcall hmounted
  have hcalled : (s.umount umounts [path]).2 = true := Bool.and_eq_true_iff.mpr ⟨hok, rfl⟩
  rw [attempts, if_pos hcalled]
  exact hcount

/-- Nothing is unmounted when all calls fail. -/
theorem umount_mounts_of_fails (s : Unmounting) (args : List Text) :
    (s.umount (fun _ _ => false) args).1.mounts = s.mounts := by
  induction args generalizing s with
  | nil => rfl
  | cons path args ih => exact ih _

theorem attempts_mounts_of_fails (s : Unmounting) (args : List Text) (n : Nat) :
    (s.attempts (fun _ _ => false) args n).mounts = s.mounts := by
  induction n generalizing s with
  | zero => rfl
  | succ n ih =>
    have hcall := s.umount_mounts_of_fails args
    rw [attempts]
    split
    · exact hcall
    · exact (ih _).trans hcall

theorem attempts_mounts_subset (s : Unmounting) (args : List Text) (n : Nat) :
    (s.attempts umounts args n).mounts ⊆ s.mounts :=
  (attempts_unmounts (P := fun _ => True) (fun _ _ => trivial) n).mounts

/-- The calls for a path, of which there is one at least. -/
theorem attemptCalls_eq (umounts : Nat → Text → Bool) (s : Unmounting) (path : Text) (n : Nat) :
    ∃ rest, s.attemptCalls umounts [path] (n + 1) = (s, path) :: rest ∧
      ∀ call ∈ rest, call.2 = path := by
  induction n generalizing s with
  | zero =>
    refine ⟨[], ?_, by simp⟩
    rw [attemptCalls, attemptCalls, ite_self]
    rfl
  | succ n ih =>
    rw [attemptCalls]
    split
    · exact ⟨[], rfl, by simp⟩
    · obtain ⟨rest, heq, hrest⟩ := ih (s.umount umounts [path]).1
      exact ⟨_, by rw [heq]; rfl, List.forall_mem_cons.mpr ⟨rfl, hrest⟩⟩

end Unmounting

namespace Container

variable {c : Container} {umounts : Nat → Text → Bool} {s : Unmounting} {parts : List Text}

/-! ## One pass -/

/-- The targets of a pass are its parts, each one time or more. -/
theorem mem_partCalls (hparts : ∀ part ∈ parts, c.expand part = [part]) {call : Unmounting × Text}
    (h : call ∈ c.partCalls umounts s parts) : call.2 ∈ parts := by
  induction parts generalizing s with
  | nil => cases h
  | cons part parts ih =>
    obtain ⟨hpart, hrest⟩ := List.forall_mem_cons.mp hparts
    obtain ⟨rest, heq, hsame⟩ := s.attemptCalls_eq umounts part 2
    rw [partCalls, hpart, heq, List.cons_append] at h
    rcases List.mem_cons.mp h with rfl | h
    · exact List.mem_cons_self
    rcases List.mem_append.mp h with h | h
    · rw [hsame call h]
      exact List.mem_cons_self
    · exact List.mem_cons_of_mem _ (ih hrest h)

theorem count_le_partCalls (umounts : Nat → Text → Bool) (s : Unmounting)
    (hparts : ∀ part ∈ parts, c.expand part = [part]) (path : Text) :
    parts.count path ≤ ((c.partCalls umounts s parts).map Prod.snd).count path := by
  induction parts generalizing s with
  | nil => exact Nat.zero_le _
  | cons part parts ih =>
    obtain ⟨hpart, hrest⟩ := List.forall_mem_cons.mp hparts
    obtain ⟨rest, heq, -⟩ := s.attemptCalls_eq umounts part 2
    rw [partCalls, hpart, heq, List.cons_append, List.map_cons, List.map_append, List.count_cons,
      List.count_cons, List.count_append]
    have hle := ih (s.attempts umounts [part] 3) hrest
    dsimp only
    omega

theorem partCalls_pairwise (hparts : ∀ part ∈ parts, c.expand part = [part])
    (h : parts.Pairwise fun path path' => ¬ StrictlyBelow path path') :
    ((c.partCalls umounts s parts).map Prod.snd).Pairwise
      fun path path' => ¬ StrictlyBelow path path' := by
  induction parts generalizing s with
  | nil => exact .nil
  | cons part parts ih =>
    obtain ⟨hpart, hrest⟩ := List.forall_mem_cons.mp hparts
    obtain ⟨hfirst, hlater⟩ := List.pairwise_cons.mp h
    obtain ⟨rest, heq, hsame⟩ := s.attemptCalls_eq umounts part 2
    have hcalls : ∀ call ∈ (s, part) :: rest, call.2 = part :=
      List.forall_mem_cons.mpr ⟨rfl, hsame⟩
    rw [partCalls, hpart, heq, List.map_append, List.pairwise_append]
    refine ⟨?_, ih hrest hlater, ?_⟩
    · refine List.pairwise_of_forall_mem_list fun path hpath path' hpath' => ?_
      obtain ⟨call, hcall, rfl⟩ := List.mem_map.mp hpath
      obtain ⟨call', hcall', rfl⟩ := List.mem_map.mp hpath'
      rw [hcalls call hcall, hcalls call' hcall']
      exact not_strictlyBelow_self part
    · intro path hpath path' hpath'
      obtain ⟨call, hcall, rfl⟩ := List.mem_map.mp hpath
      obtain ⟨call', hcall', rfl⟩ := List.mem_map.mp hpath'
      rw [hcalls call hcall]
      exact hfirst _ (mem_partCalls hrest hcall')

/-- The loop over parts. -/
def umountAll (c : Container) (umounts : Nat → Text → Bool) (s : Unmounting)
    (parts : List Text) : Unmounting :=
  parts.foldl (fun s part => s.attempts umounts (c.expand part) 3) s

theorem umountAll_count_of_not_mem (hparts : ∀ part ∈ parts, c.expand part = [part]) {path : Text}
    (h : path ∉ parts) : (c.umountAll umounts s parts).count path = s.count path := by
  induction parts generalizing s with
  | nil => rfl
  | cons part parts ih =>
    obtain ⟨hpart, hrest⟩ := List.forall_mem_cons.mp hparts
    rw [List.mem_cons, not_or] at h
    rw [umountAll, List.foldl_cons, hpart]
    exact (ih hrest h.2).trans (Unmounting.attempts_count_of_ne h.1 3)

theorem umountAll_mounts_subset (s : Unmounting) (parts : List Text) :
    (c.umountAll umounts s parts).mounts ⊆ s.mounts := by
  induction parts generalizing s with
  | nil => exact List.Subset.refl _
  | cons part parts ih => exact List.Subset.trans (ih _) (s.attempts_mounts_subset _ 3)

theorem umountAll_mounts_of_fails (s : Unmounting) (parts : List Text) :
    (c.umountAll (fun _ _ => false) s parts).mounts = s.mounts := by
  induction parts generalizing s with
  | nil => rfl
  | cons part parts ih => exact (ih _).trans (s.attempts_mounts_of_fails _ 3)

/-- **The mounts of a pass are gone after it**, if each part comes as often as it is mounted,
those below a part come before it, and calls without mounts below succeed. -/
theorem umountAll_empty {P : Text → Prop} (hparts : ∀ part ∈ parts, c.expand part = [part])
    (hsorted : parts.Pairwise fun path path' => ¬ StrictlyBelow path path')
    (hcount : ∀ path, P path → s.count path ≤ parts.count path)
    (hbelow : ∀ part ∈ parts, P part → ∀ m ∈ s.mounts, StrictlyBelow part m.dir → P m.dir)
    (hcalls : ∀ call ∈ c.partCalls umounts s parts,
      (∀ m ∈ call.1.mounts, ¬ StrictlyBelow call.2 m.dir) →
        umounts call.1.calls call.2 = true) :
    ∀ path, P path → (c.umountAll umounts s parts).count path = 0 := by
  induction parts generalizing s with
  | nil => exact fun path hpath => Nat.le_zero.mp (hcount path hpath)
  | cons part parts ih =>
    obtain ⟨hpart, hrest⟩ := List.forall_mem_cons.mp hparts
    obtain ⟨hfirst, hlater⟩ := List.pairwise_cons.mp hsorted
    rw [partCalls, hpart] at hcalls
    rw [umountAll, List.foldl_cons, hpart]
    refine ih hrest hlater (fun path hpath => ?_) (fun p hp hP m hm => ?_)
      (fun call hcall => hcalls call (List.mem_append_right _ hcall))
    · by_cases heq : path = part
      · subst heq
        have hle := hcount path hpath
        rw [List.count_cons_self] at hle
        rcases Nat.eq_zero_or_pos (s.count path) with hzero | hmounted
        · have hstill : (s.attempts umounts [path] 3).count path ≤ s.count path :=
            s.attempts_count_le path path 3
          omega
        · -- what is mounted below came up before
          have hclear : ∀ m ∈ s.mounts, ¬ StrictlyBelow path m.dir := by
            intro m hm hstrict
            have hcountm := hcount m.dir (hbelow path List.mem_cons_self hpath m hm hstrict)
            have hpos : 0 < s.count m.dir :=
              List.count_pos_iff.mpr (List.mem_map_of_mem hm)
            have hmem := List.count_pos_iff.mp (hpos.trans_le hcountm)
            rcases List.mem_cons.mp hmem with hsame | hmem
            · rw [hsame] at hstrict
              exact not_strictlyBelow_self _ hstrict
            · exact hfirst _ hmem hstrict
          obtain ⟨rest, hattempts, -⟩ := s.attemptCalls_eq umounts path 2
          have hcall := hcalls (s, path)
            (List.mem_append_left _ (hattempts ▸ List.mem_cons_self)) hclear
          have hless : (s.attempts umounts [path] 3).count path + 1 = s.count path :=
            Unmounting.attempts_count hcall hmounted
          omega
      · have hle := hcount path hpath
        rw [List.count_cons_of_ne (Ne.symm heq)] at hle
        exact (s.attempts_count_le part path 3).trans hle
    · exact hbelow p (List.mem_cons_of_mem _ hp) hP m
        (s.attempts_mounts_subset [part] 3 hm)

/-! ## Both passes -/

/-- The parts of a mask, where the mount points that it finds are taken as they are. -/
def plainParts (c : Container) (mask : Text) (mounts : List Mount) : List Text :=
  ((mounts.map (·.dir)).filter fun path =>
    c.grep (c.partPattern mask) (mangle path)).insertionSort fun a b => b ≤ a

theorem mem_plainParts {mask path : Text} {mounts : List Mount} :
    path ∈ c.plainParts mask mounts ↔
      (∃ m ∈ mounts, m.dir = path) ∧ c.grep (c.partPattern mask) (mangle path) = true := by
  rw [plainParts, List.mem_insertionSort, List.mem_filter, List.mem_map]

theorem findsMount_of_mask {mask : Text} (hmask : mask ∈ [['.', '*'], ['*']]) {m : Mount}
    (h : c.grep (c.partPattern mask) (mangle m.dir) = true) : c.FindsMount m := by
  simp only [List.mem_cons, List.not_mem_nil, or_false] at hmask
  rcases hmask with rfl | rfl
  · exact .inl h
  · exact .inr h

theorem flatMap_expand_parts (hplain : c.TakesAsIs) {mounts : List Mount}
    (hsubset : mounts ⊆ c.mounts) {mask : Text} (hmask : mask ∈ [['.', '*'], ['*']]) :
    (c.parts mask mounts).flatMap c.expand = c.plainParts mask mounts ∧
      ∀ part ∈ c.plainParts mask mounts, c.expand part = [part] := by
  have hfound : ∀ m ∈ mounts, c.grep (c.partPattern mask) (mangle m.dir) = true →
      mangle m.dir = m.dir ∧ c.expand m.dir = [m.dir] :=
    fun m hm hgrep => hplain m (hsubset hm) (findsMount_of_mask hmask hgrep)
  have hparts : c.parts mask mounts = c.plainParts mask mounts := by
    rw [parts, plainParts, List.map_congr_left fun m _ => field_line m, List.filter_map,
      List.filter_map]
    -- of the mounts that are found, the table shows what they are
    refine congrArg _ (List.map_congr_left fun m hm => ?_)
    obtain ⟨hm, hgrep⟩ := List.mem_filter.mp hm
    exact (hfound m hm hgrep).1
  have hexpand : ∀ part ∈ c.plainParts mask mounts, c.expand part = [part] := by
    intro part hpart
    obtain ⟨⟨m, hm, rfl⟩, hgrep⟩ := mem_plainParts.mp hpart
    exact (hfound m hm hgrep).2
  rw [hparts]
  exact ⟨by rw [List.flatMap_congr hexpand, List.flatMap_singleton'], hexpand⟩

theorem count_plainParts {mask path : Text} {mounts : List Mount}
    (h : c.grep (c.partPattern mask) (mangle path) = true) :
    (c.plainParts mask mounts).count path = (mounts.map (·.dir)).count path := by
  rw [plainParts, (List.perm_insertionSort _ _).count_eq]
  exact List.count_filter h

/-- **Reverse alphabetical order** has what lies below first. -/
theorem plainParts_pairwise {mask : Text} {mounts : List Mount}
    (hnormal : ∀ m ∈ mounts, Normal m.dir) :
    (c.plainParts mask mounts).Pairwise fun path path' => ¬ StrictlyBelow path path' := by
  have hsorted : (c.plainParts mask mounts).Pairwise fun a b => b ≤ a :=
    List.pairwise_insertionSort _ _
  have hparts : ∀ path ∈ c.plainParts mask mounts, Normal path := by
    intro path hpath
    obtain ⟨⟨m, hm, rfl⟩, -⟩ := mem_plainParts.mp hpath
    exact hnormal m hm
  exact hsorted.imp_of_mem fun hpath hpath' hle hstrict =>
    hstrict.not_le (hparts _ hpath) (hparts _ hpath') hle

variable (c umounts)

/-- The table at the start. -/
def initial : Unmounting := ⟨c.mounts, [], 0⟩

/-- The parts of the first pass, and the table after it. -/
def firstParts : List Text := c.plainParts ['.', '*'] c.mounts

def afterFirst : Unmounting := c.umountAll umounts c.initial c.firstParts

/-- The parts of the second pass. -/
def secondParts : List Text := c.plainParts ['*'] (c.afterFirst umounts).mounts

variable {c umounts}

theorem afterFirst_mounts_subset (c : Container) (umounts : Nat → Text → Bool) :
    (c.afterFirst umounts).mounts ⊆ c.mounts :=
  umountAll_mounts_subset c.initial c.firstParts

/-- Both passes, where the mount points are taken as they are. -/
theorem calls_eq (hplain : c.TakesAsIs) (umounts : Nat → Text → Bool) :
    c.calls umounts = c.partCalls umounts c.initial c.firstParts ++
        c.partCalls umounts (c.afterFirst umounts) (c.secondParts umounts) ∧
      c.umounted umounts =
        c.umountAll umounts (c.afterFirst umounts) (c.secondParts umounts) := by
  -- the masks are the first and the second of the two
  have hfirst := (flatMap_expand_parts hplain (List.Subset.refl _) List.mem_cons_self).1
  have hafter : c.umountParts umounts ['.', '*'] ⟨c.mounts, [], 0⟩ = c.afterFirst umounts := by
    rw [umountParts, hfirst]
    rfl
  have hsecond := (flatMap_expand_parts hplain (c.afterFirst_mounts_subset umounts)
    (List.mem_cons_of_mem _ List.mem_cons_self)).1
  constructor
  · rw [calls]
    dsimp only
    rw [hafter, hfirst, hsecond]
    rfl
  · rw [umounted, hafter, umountParts, hsecond]
    rfl

theorem firstParts_pairwise (hnormal : ∀ m ∈ c.mounts, Normal m.dir) :
    c.firstParts.Pairwise fun path path' => ¬ StrictlyBelow path path' :=
  plainParts_pairwise hnormal

theorem secondParts_pairwise (hnormal : ∀ m ∈ c.mounts, Normal m.dir) :
    (c.secondParts umounts).Pairwise fun path path' => ¬ StrictlyBelow path path' :=
  plainParts_pairwise fun m hm => hnormal m (c.afterFirst_mounts_subset umounts hm)

section

variable (hnormal : ∀ m ∈ c.mounts, Normal m.dir) (hplain : c.TakesAsIs)

include hplain

theorem expand_firstParts : ∀ part ∈ c.firstParts, c.expand part = [part] :=
  (flatMap_expand_parts hplain (List.Subset.refl _) (by decide)).2

theorem expand_secondParts (umounts : Nat → Text → Bool) :
    ∀ part ∈ c.secondParts umounts, c.expand part = [part] :=
  (flatMap_expand_parts hplain (c.afterFirst_mounts_subset umounts) (by decide)).2

omit hplain in
/-- No part of the second pass lies below one of the first. -/
theorem FindsAll.not_strictlyBelow (h : c.FindsAll) {path path' : Text}
    (hpath : path ∈ c.firstParts) (hpath' : path' ∈ c.secondParts umounts) :
    ¬ StrictlyBelow path path' := by
  obtain ⟨⟨m, hm, rfl⟩, hgrep⟩ := mem_plainParts.mp hpath
  obtain ⟨⟨m', hm', rfl⟩, hgrep'⟩ := mem_plainParts.mp hpath'
  exact h.apart m hm m' (c.afterFirst_mounts_subset umounts hm') hgrep hgrep'

theorem FindsAll.complete (h : c.FindsAll) (path : Text) (hbelow : AtOrBelow c.CHROOT_DIR path) :
    (c.mounts.map (·.dir)).count path ≤ (c.targets umounts).count path := by
  rw [targets, (calls_eq hplain umounts).1, List.map_append, List.count_append]
  by_cases hmem : path ∈ c.mounts.map (·.dir)
  · obtain ⟨m, hm, rfl⟩ := List.mem_map.mp hmem
    by_cases hfirst : m.dir ∈ c.firstParts
    · have hle := count_le_partCalls umounts c.initial (expand_firstParts hplain) m.dir
      rw [firstParts, count_plainParts (mem_plainParts.mp hfirst).2] at hle
      exact Nat.le_add_right_of_le hle
    · -- it is still there after the first pass
      have hgrep : c.grep (c.partPattern ['*']) (mangle m.dir) = true :=
        (h.found m hm hbelow).resolve_left
          fun hgrep => hfirst (mem_plainParts.mpr ⟨⟨m, hm, rfl⟩, hgrep⟩)
      have hkept : (c.afterFirst umounts).count m.dir = (c.mounts.map (·.dir)).count m.dir :=
        umountAll_count_of_not_mem (expand_firstParts hplain) hfirst
      have hle := count_le_partCalls umounts (c.afterFirst umounts)
        (expand_secondParts hplain umounts) m.dir
      rw [secondParts, count_plainParts hgrep] at hle
      rw [← hkept]
      exact Nat.le_add_left_of_le hle
  · rw [List.count_eq_zero.mpr hmem]
    exact Nat.zero_le _

include hnormal

theorem FindsAll.order (h : c.FindsAll) :
    (c.targets umounts).Pairwise fun path path' => ¬ StrictlyBelow path path' := by
  rw [targets, (calls_eq hplain umounts).1, List.map_append, List.pairwise_append]
  refine ⟨partCalls_pairwise (expand_firstParts hplain) (firstParts_pairwise hnormal),
    partCalls_pairwise (expand_secondParts hplain _) (secondParts_pairwise hnormal), ?_⟩
  intro path hpath path' hpath'
  obtain ⟨call, hcall, rfl⟩ := List.mem_map.mp hpath
  obtain ⟨call', hcall', rfl⟩ := List.mem_map.mp hpath'
  exact h.not_strictlyBelow (mem_partCalls (expand_firstParts hplain) hcall)
    (mem_partCalls (expand_secondParts hplain _) hcall')

/-- After both passes, first what the first pattern finds is gone, then the rest. -/
theorem FindsAll.empties (h : c.FindsAll) (hreleases : c.Releases umounts) :
    ∀ m ∈ (c.umounted umounts).mounts, ¬ AtOrBelow c.CHROOT_DIR m.dir := by
  obtain ⟨hcalls, humounted⟩ := calls_eq hplain umounts
  rw [Releases, hcalls] at hreleases
  have hgone : ∀ path, AtOrBelow c.CHROOT_DIR path ∧
      c.grep (c.partPattern ['.', '*']) (mangle path) = true →
        (c.afterFirst umounts).count path = 0 := by
    refine umountAll_empty (expand_firstParts hplain) (firstParts_pairwise hnormal)
      (fun path hpath => ?_) (fun part hpart hbelow m hm hstrict => ?_)
      (fun call hcall => hreleases call (List.mem_append_left _ hcall))
    · rw [firstParts, count_plainParts hpath.2]
      exact Nat.le_refl _
    · have hatOrBelow := hbelow.1.trans hstrict.1
      refine ⟨hatOrBelow, (h.found m hm hatOrBelow).resolve_right fun hgrep => ?_⟩
      obtain ⟨⟨m', hm', rfl⟩, hgrep'⟩ := mem_plainParts.mp hpart
      exact h.apart m' hm' m hm hgrep' hgrep hstrict
  have hnone : ∀ m ∈ (c.afterFirst umounts).mounts, AtOrBelow c.CHROOT_DIR m.dir →
      c.grep (c.partPattern ['*']) (mangle m.dir) = true := by
    intro m hm hbelow
    have hmounted := c.afterFirst_mounts_subset umounts hm
    refine (h.found m hmounted hbelow).resolve_left fun hgrep => ?_
    have hpos : 0 < (c.afterFirst umounts).count m.dir :=
      List.count_pos_iff.mpr (List.mem_map_of_mem hm)
    exact absurd (hgone m.dir ⟨hbelow, hgrep⟩) hpos.ne'
  have hempty : ∀ path, AtOrBelow c.CHROOT_DIR path ∧
      c.grep (c.partPattern ['*']) (mangle path) = true →
        (c.umounted umounts).count path = 0 := by
    rw [humounted]
    refine umountAll_empty (expand_secondParts hplain _) (secondParts_pairwise hnormal)
      (fun path hpath => ?_) (fun part hpart hbelow m hm hstrict => ?_)
      (fun call hcall => hreleases call (List.mem_append_right _ hcall))
    · rw [secondParts, count_plainParts hpath.2]
      exact Nat.le_refl _
    · have hatOrBelow := hbelow.1.trans hstrict.1
      exact ⟨hatOrBelow, hnone m hm hatOrBelow⟩
  intro m hm hbelow
  have hsecond : m ∈ (c.afterFirst umounts).mounts := by
    rw [humounted] at hm
    exact umountAll_mounts_subset _ _ hm
  have hpos : 0 < (c.umounted umounts).count m.dir :=
    List.count_pos_iff.mpr (List.mem_map_of_mem hm)
  exact absurd (hempty m.dir ⟨hbelow, hnone m hsecond hbelow⟩) hpos.ne'

end

/-- **For literal paths** with at most one slash at the end the patterns find all mounts. -/
theorem findsAll_of_literal (hliteral : Literal (stripSlash c.CHROOT_DIR))
    (hroot : c.CHROOT_DIR = ['/'] ∨
      Normal (stripSlash c.CHROOT_DIR) ∧ components c.CHROOT_DIR ≠ [])
    (hnormal : ∀ m ∈ c.mounts, Normal m.dir)
    (hshown : ∀ m ∈ c.mounts, AtOrBelow c.CHROOT_DIR m.dir ∨ c.FindsMount m →
      mangle m.dir = m.dir) : c.FindsAll := by
  refine ⟨fun m hm hbelow => ?_, fun m hm m' hm' hgrep hgrep' hstrict => ?_⟩
  · rw [FindsMount, hshown m hm (.inl hbelow), grep_first hliteral, grep_second hliteral]
    rcases hroot with hslash | ⟨hdir, hne⟩
    · -- everything is below `/`
      refine .inl ?_
      rw [hslash, hnormal m hm]
      exact ⟨_, rfl⟩
    · rw [← components_stripSlash] at hne
      obtain ⟨-, rest, hrest⟩ := hbelow
      rw [← components_stripSlash] at hrest
      have hself : '/' :: ['/'].intercalate (components (stripSlash c.CHROOT_DIR)) =
          stripSlash c.CHROOT_DIR := hdir.symm
      rw [hnormal m hm, ← hrest]
      cases rest with
      | nil =>
        refine .inr ⟨[], ?_, by simp⟩
        rw [List.append_nil, List.append_nil, hself]
      | cons name rest =>
        refine .inl ⟨['/'].intercalate (name :: rest), ?_⟩
        rw [intercalate_append_cons hne, ← List.cons_append, ← List.cons_append, hself]
  · rw [hshown m hm (.inr (.inl hgrep)), grep_first hliteral] at hgrep
    rw [hshown m' hm' (.inr (.inr hgrep')), grep_second hliteral] at hgrep'
    obtain ⟨slashes, hdir, hslashes⟩ := hgrep'
    obtain ⟨rest, hrest⟩ := hgrep
    -- the names in the root of the container are among those of the one, and all of the other
    have hnames : components m'.dir <+: components m.dir := by
      rw [hdir, components_append_slashes _ hslashes, ← hrest, List.append_assoc]
      unfold components
      rw [List.singleton_append, pieces_append_cons _ _ (by rfl)]
      exact List.prefix_append _ _
    exact hstrict.2 (hstrict.1.2.eq_of_length_le hnames.length_le)

/-- **Unmounting is complete and in order** exactly if the patterns find all mounts of the
container, and keep apart what lies below others. -/
theorem inOrder_iff (hnormal : ∀ m ∈ c.mounts, Normal m.dir) (hplain : c.TakesAsIs) :
    c.InOrder ↔ c.FindsAll := by
  constructor
  · rintro ⟨hcomplete, horder, -⟩
    have hcalls := (calls_eq hplain fun _ _ => false).1
    have hafter : (c.afterFirst fun _ _ => false).mounts = c.mounts :=
      umountAll_mounts_of_fails _ _
    refine ⟨fun m hm hbelow => ?_, fun m hm m' hm' hgrep hgrep' hstrict => ?_⟩
    · -- the mount point is a target, and so a part
      have hcount := hcomplete (fun _ _ => false) m.dir hbelow
      have hpos : 0 < (c.mounts.map (·.dir)).count m.dir :=
        List.count_pos_iff.mpr (List.mem_map_of_mem hm)
      obtain ⟨call, hcall, hdir⟩ :=
        List.mem_map.mp (List.count_pos_iff.mp (hpos.trans_le hcount))
      rw [hcalls] at hcall
      rw [FindsMount, ← hdir]
      rcases List.mem_append.mp hcall with hcall | hcall
      · exact .inl (mem_plainParts.mp (mem_partCalls (expand_firstParts hplain) hcall)).2
      · exact .inr (mem_plainParts.mp (mem_partCalls (expand_secondParts hplain _) hcall)).2
    · have hmem : m.dir ∈ c.firstParts := mem_plainParts.mpr ⟨⟨m, hm, rfl⟩, hgrep⟩
      have hmem' : m'.dir ∈ c.secondParts fun _ _ => false :=
        mem_plainParts.mpr ⟨⟨m', hafter ▸ hm', rfl⟩, hgrep'⟩
      have hpairwise := horder fun _ _ => false
      rw [targets, hcalls, List.map_append, List.pairwise_append] at hpairwise
      refine hpairwise.2.2 m.dir ?_ m'.dir ?_ hstrict
      · exact List.count_pos_iff.mp ((List.count_pos_iff.mpr hmem).trans_le
          (count_le_partCalls _ _ (expand_firstParts hplain) _))
      · exact List.count_pos_iff.mp ((List.count_pos_iff.mpr hmem').trans_le
          (count_le_partCalls _ _ (expand_secondParts hplain _) _))
  · intro h
    exact ⟨fun _ path hbelow => h.complete hplain path hbelow,
      fun _ => h.order hnormal hplain, fun _ hreleases => h.empties hnormal hplain hreleases⟩

/-- The container below `/mnt/linux`, with a mount in it. Elsewhere is a mount point that the
table shows in another way. -/
def nested : Container := { beside with
  CHROOT_DIR := "/mnt/linux/".toList
  mounts := [
    ⟨"/dev/block/loop1".toList, "/mnt/linux".toList, "f2fs rw 0 0".toList, by decide, by decide⟩,
    ⟨"proc".toList, "/mnt/linux/proc".toList, "proc rw 0 0".toList, by decide, by decide⟩,
    ⟨"tmpfs".toList, "/srv/a\\b".toList, "tmpfs rw 0 0".toList, by decide, by decide⟩] }

/-- First its mount is unmounted, and then the root. -/
theorem nested_inOrder : nested.InOrder := by
  have hnormal : ∀ m ∈ nested.mounts, Normal m.dir := by decide
  have hshown : ∀ m ∈ nested.mounts, AtOrBelow nested.CHROOT_DIR m.dir ∨ nested.FindsMount m →
      mangle m.dir = m.dir ∧ nested.expand m.dir = [m.dir] := by
    unfold FindsMount
    decide
  exact (inOrder_iff hnormal fun m hm hfinds => hshown m hm (.inr hfinds)).mpr
    (findsAll_of_literal (by decide) (.inr (by decide)) hnormal fun m hm h => (hshown m hm h).1)

/-- A bracket in the path, which the pattern does not find: `[a]` stands for `a` in it. -/
def bracketed : Container := { beside with
  CHROOT_DIR := "/mnt/[a]".toList
  mounts := [
    ⟨"/dev/block/loop1".toList, "/mnt/[a]".toList, "f2fs rw 0 0".toList, by decide, by decide⟩] }

/-- The root of the container is no target of `umount`. -/
theorem not_inOrder : ¬ ∀ c : Container, (∀ m ∈ c.mounts, Normal m.dir ∧ IsWord m.dir) →
    '*' ∉ c.CHROOT_DIR → '\\' ∉ c.CHROOT_DIR → c.InOrder := by
  intro h
  have hcomplete := (h bracketed (by decide) (by decide) (by decide)).complete (fun _ _ => true)
    "/mnt/[a]".toList (by decide)
  exact absurd hcomplete (by decide)

end Container

end Anx.Cli
