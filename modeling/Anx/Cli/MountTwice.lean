import Anx.Cli.ContainerMount
import Anx.Cli.UmountOrder

/-!
# Mounting a container twice

The second call of `container_mount` adds nothing to the mount table if every path is found
in it again. The paths are looked for as they are built from `CHROOT_DIR`; the table has them
as the kernel knows them.

- `AddsNothing`: the second call adds nothing;
- `AllShown`: every path is found in the table before, or in the entry that its mount gets;
- `mountsTwice`: **the second call adds nothing if all are shown**, and only then unless a path
  is found in the entry of another one;
- `finds_iff_of_literal`, `addsNothing_iff_of_literal`: what this says of literal paths: they
  are found where they are recorded, but for their last slash;
- `Simple`, `allShown_of_simple`: all are shown when the container is in a directory whose path
  has no special characters and no slash at its end.
-/

namespace Anx.Cli

open Anx.Lib

namespace Container

variable (c : Container) (sys : MountSystem) (parts : List Part)

/-- The container with the table after a call. -/
def afterMount (succeeds : Nat → Command → Bool) : Container :=
  { c with mounts := (c.container_mount sys succeeds parts).1.mounts }

/-- When all mounts succeed, the second call adds nothing to the table. -/
def AddsNothing : Prop := ∀ succeeds succeeds', MountsSucceed succeeds → MountsSucceed succeeds' →
  ((c.afterMount sys parts succeeds).container_mount sys succeeds' parts).1.mounts =
    (c.afterMount sys parts succeeds).mounts

/-- Every path is found in the table before, or in the entry of its mount. -/
def AllShown : Prop :=
  ∀ call ∈ c.mountCalls sys parts, Shown c.finds sys.entry c.mounts call

/-- A path is found in the entry of another mount only if it is found in the one of its own. -/
def NoStandIn : Prop :=
  ∀ call ∈ c.mountCalls sys parts, ∀ call' ∈ c.mountCalls sys parts,
    c.finds call (sys.entry call') = true → c.finds call (sys.entry call) = true

variable {c sys parts}

/-- Both calls want the same mounts and look for them in the same way. -/
theorem afterMount_mounts (c : Container) (sys : MountSystem) (parts : List Part)
    {succeeds succeeds' : Nat → Command → Bool} (hok : MountsSucceed succeeds)
    (hok' : MountsSucceed succeeds') :
    ((c.afterMount sys parts succeeds).container_mount sys succeeds' parts).1.mounts =
        ensure c.finds sys.entry (ensure c.finds sys.entry c.mounts (c.mountCalls sys parts))
          (c.mountCalls sys parts) ∧
      (c.afterMount sys parts succeeds).mounts =
        ensure c.finds sys.entry c.mounts (c.mountCalls sys parts) := by
  have hfirst : (c.afterMount sys parts succeeds).mounts =
      ensure c.finds sys.entry c.mounts (c.mountCalls sys parts) := container_mount_mounts hok parts
  refine ⟨?_, hfirst⟩
  rw [container_mount_mounts hok' parts, hfirst]
  rfl

theorem addsNothing_of_allShown (h : c.AllShown sys parts) : c.AddsNothing sys parts := by
  intro succeeds succeeds' hok hok'
  obtain ⟨hsecond, hfirst⟩ := afterMount_mounts c sys parts hok hok'
  rw [hsecond, hfirst]
  exact ensure_ensure_of_shown h

theorem allShown_of_addsNothing (hstand : c.NoStandIn sys parts) (h : c.AddsNothing sys parts) :
    c.AllShown sys parts := by
  have hok : MountsSucceed fun _ _ => true := fun _ _ _ => rfl
  have htwice := h _ _ hok hok
  obtain ⟨hsecond, hfirst⟩ := afterMount_mounts c sys parts hok hok
  rw [hsecond, hfirst] at htwice
  exact shown_of_ensure_ensure hstand htwice

/-- **The second call adds nothing** if all paths are shown, and only then if no entry stands
in for another one. -/
theorem mountsTwice (c : Container) (sys : MountSystem) (parts : List Part) :
    (c.AllShown sys parts → c.AddsNothing sys parts) ∧
      (c.NoStandIn sys parts → c.AddsNothing sys parts → c.AllShown sys parts) :=
  ⟨addsNothing_of_allShown, allShown_of_addsNothing⟩

/-! ## Paths that are found -/

theorem literal_pattern {path : Text} (h : Literal path) :
    Literal (' ' :: stripSlash path ++ [' ']) := by
  have hpath : Literal (stripSlash path) := by
    unfold stripSlash
    split
    · exact fun d hd => h d (List.mem_of_mem_dropLast hd)
    · exact h
  exact List.forall_mem_append.mpr
    ⟨List.forall_mem_cons.mpr ⟨by decide, hpath⟩, by decide⟩

/-- A path without special characters is found where it is recorded, but for its last slash. -/
theorem finds_of_recorded {call : MountCall} (hliteral : Literal call.target)
    (hne : call.target ≠ []) {m : Mount} (hdir : mangle m.dir = stripSlash call.target) :
    c.finds call m = true := by
  rw [finds, Bool.and_eq_true]
  refine ⟨by simpa using hne, (grep_literal (literal_pattern hliteral) (by simp)).mpr ?_⟩
  refine ⟨mangle m.source, m.options, ?_⟩
  rw [Mount.line, hdir]
  simp

/-- **It is found nowhere else**, unless the options show it. -/
theorem finds_iff_of_literal {call : MountCall} (hliteral : Literal call.target)
    (hplain : Plain call.target) (hne : call.target ≠ []) {m : Mount}
    (hoptions : ¬ ' ' :: stripSlash call.target ++ [' '] <:+: ' ' :: m.options) :
    c.finds call m = true ↔ mangle m.dir = stripSlash call.target := by
  refine ⟨fun h => ?_, finds_of_recorded hliteral hne⟩
  rw [finds, Bool.and_eq_true] at h
  have hinfix := (grep_literal (literal_pattern hliteral) (by simp)).mp h.2
  have htarget : ' ' ∉ stripSlash call.target := fun hmem =>
    stripSlash_plain hplain ' ' hmem (by simp)
  exact ((infix_line_iff htarget).mp hinfix).resolve_right hoptions

/-- **Literal paths**: the second call adds nothing exactly if every path that is not found in
the table before is spelled as it is recorded, but for its last slash. -/
theorem addsNothing_iff_of_literal
    (hliteral : ∀ call ∈ c.mountCalls sys parts,
      Literal call.target ∧ Plain call.target ∧ call.target ≠ [])
    (hoptions : ∀ call ∈ c.mountCalls sys parts, ∀ call' ∈ c.mountCalls sys parts,
      ¬ ' ' :: stripSlash call.target ++ [' '] <:+: ' ' :: (sys.entry call').options)
    (hresolve : ∀ call ∈ c.mountCalls sys parts, ∀ call' ∈ c.mountCalls sys parts,
      mangle (sys.resolve call'.target) = stripSlash call.target →
        mangle (sys.resolve call.target) = stripSlash call.target) :
    c.AddsNothing sys parts ↔ ∀ call ∈ c.mountCalls sys parts,
      c.is_mounted call.target = true ∨
        mangle (sys.resolve call.target) = stripSlash call.target := by
  have hfinds : ∀ call ∈ c.mountCalls sys parts, ∀ call' ∈ c.mountCalls sys parts,
      (c.finds call (sys.entry call') = true ↔
        mangle (sys.resolve call'.target) = stripSlash call.target) := by
    intro call hcall call' hcall'
    obtain ⟨hlit, hplain, hne⟩ := hliteral call hcall
    rw [finds_iff_of_literal hlit hplain hne (hoptions call hcall call' hcall'), sys.entry_dir]
  have hstand : c.NoStandIn sys parts := by
    intro call hcall call' hcall' hfound
    rw [hfinds call hcall call' hcall'] at hfound
    exact (hfinds call hcall call hcall).mpr (hresolve call hcall call' hcall' hfound)
  have hshown : c.AllShown sys parts ↔ ∀ call ∈ c.mountCalls sys parts,
      c.is_mounted call.target = true ∨
        mangle (sys.resolve call.target) = stripSlash call.target := by
    refine forall₂_congr fun call hcall => ?_
    rw [Shown, hfinds call hcall call hcall, ← isMounted_eq ⟨c.mounts, [], []⟩ call]
    rfl
  rw [← hshown]
  exact ⟨allShown_of_addsNothing hstand, addsNothing_of_allShown⟩

/-- A path that is spelled as `grep` and the table take it. -/
structure Simple (path : Text) : Prop where
  literal : Literal path
  plain : Plain path
  ne : path ≠ []
  noSlash : path.getLast? ≠ some '/'

instance (path : Text) : Decidable (Simple path) :=
  decidable_of_iff (Literal path ∧ Plain path ∧ path ≠ [] ∧ path.getLast? ≠ some '/')
    ⟨fun ⟨h₁, h₂, h₃, h₄⟩ => ⟨h₁, h₂, h₃, h₄⟩, fun ⟨h₁, h₂, h₃, h₄⟩ => ⟨h₁, h₂, h₃, h₄⟩⟩

theorem Simple.append {dir path : Text} (hdir : Simple dir) (h : Simple path) :
    Simple (dir ++ path) where
  literal := List.forall_mem_append.mpr ⟨hdir.literal, h.literal⟩
  plain := List.forall_mem_append.mpr ⟨hdir.plain, h.plain⟩
  ne := List.append_ne_nil_of_right_ne_nil _ h.ne
  noSlash := by
    rw [List.getLast?_append_of_ne_nil _ h.ne]
    exact h.noSlash

/-- **Such a path is found** where it is recorded as it is. -/
theorem finds_of_simple {call : MountCall} (h : Simple call.target) {m : Mount}
    (hdir : m.dir = call.target) : c.finds call m = true := by
  refine finds_of_recorded h.literal h.ne ?_
  rw [hdir, mangle_plain h.plain, stripSlash, if_neg h.noSlash]

/-- The targets, when the container has such a path. -/
theorem mountCalls_simple (h : Simple c.CHROOT_DIR) :
    ∀ call ∈ c.mountCalls sys parts, Simple call.target := by
  intro call hcall
  rw [mountCalls] at hcall
  split at hcall
  · obtain ⟨part, -, hcall⟩ := List.mem_flatMap.mp hcall
    cases part with
    | root =>
      rw [wantedCalls, List.mem_singleton] at hcall
      exact hcall ▸ h
    | proc =>
      rw [wantedCalls, List.mem_singleton] at hcall
      exact hcall ▸ h.append (by decide)
    | sys =>
      rw [wantedCalls, List.mem_singleton] at hcall
      exact hcall ▸ h.append (by decide)
    | dev =>
      rw [wantedCalls, List.mem_singleton] at hcall
      exact hcall ▸ h.append (by decide)
    | shm =>
      rw [wantedCalls, List.mem_pair] at hcall
      rcases hcall with rfl | rfl
      · decide
      · exact h.append (by decide)
    | pts =>
      rw [wantedCalls, List.mem_pair] at hcall
      rcases hcall with rfl | rfl
      · decide
      · exact h.append (by decide)
    | fd => cases hcall
    | tty => cases hcall
    | tun => cases hcall
    | binfmt_misc =>
      rw [wantedCalls] at hcall
      split at hcall
      · obtain rfl := List.mem_singleton.mp hcall
        decide
      · cases hcall
  · cases hcall

/-- **All are shown** when the container has such a path and no symbolic links lead there. -/
theorem allShown_of_simple (h : Simple c.CHROOT_DIR)
    (hresolve : ∀ call ∈ c.mountCalls sys parts, sys.resolve call.target = call.target) :
    c.AllShown sys parts := fun call hcall =>
  .inr (finds_of_simple (mountCalls_simple h call hcall)
    ((sys.entry_dir call).trans (hresolve call hcall)))

/-! ## A slash at the end -/

theorem normal_components (path : Text) : Normal ('/' :: ['/'].intercalate (components path)) := by
  have hparts : ∀ part ∈ components path, part ≠ [] ∧ ∀ d ∈ part, decide (d = '/') = false := by
    intro part hpart
    obtain ⟨hmem, hne⟩ := List.mem_filter.mp hpart
    refine ⟨by simpa using hne, fun d hd => ?_⟩
    exact (of_mem_splitOnP hmem d hd).2
  have hself : components ('/' :: ['/'].intercalate (components path)) = components path :=
    (pieces_append_cons [] _ (by rfl)).trans (pieces_intercalate (by rfl) hparts)
  rw [Normal, hself]

/-- The container in `/mnt/`, with nothing mounted. -/
def atSlash : Container := { beside with
  CHROOT_DIR := "/mnt/".toList
  mounts := [] }

/-- The second call mounts `/mnt//proc` again. -/
theorem not_addsNothing : ¬ ∀ (c : Container) sys parts, (∀ m ∈ c.mounts, Normal m.dir) →
    (∀ call, Normal (sys.entry call).dir) → c.AddsNothing sys parts := by
  intro h
  have hnormal : ∀ call, Normal (noLinks.entry call).dir := fun call => normal_components _
  have htwice := h atSlash noLinks [] (by simp [atSlash]) hnormal (fun _ _ => true)
    (fun _ _ => true) (fun _ _ _ => rfl) (fun _ _ _ => rfl)
  exact absurd (congrArg List.length htwice) (by decide)

end Container

end Anx.Cli
