import Anx.Cli.ContainerMount
import Anx.Cli.OnlyContainer

/-!
# When mounting a container fails

Only the root of a container is needed: when another part fails, `container_mount` prints so
and goes on. Nothing is undone.

- `mainParts`, `Mounted`: the parts that hold the file systems, and mount points with an entry;
- `mount_root_cases`, `mountDir_cases`: **how a part ends**;
- `FailureSpec`, `container_mount_failure`: what a status of 1 and one of 0 say about the mount
  table, whichever commands fail.
-/

namespace Anx.Cli

open Anx.Lib

/-- There is an entry where the target leads. -/
def MountSystem.Mounted (sys : MountSystem) (mounts : List Mount) (target : Text) : Prop :=
  ∃ m ∈ mounts, m.dir = sys.resolve target

instance (sys : MountSystem) (mounts : List Mount) (target : Text) :
    Decidable (sys.Mounted mounts target) := inferInstanceAs (Decidable (∃ m ∈ mounts, _))

theorem MountSystem.mounted_of_entry {sys : MountSystem} {mounts : List Mount} {call : MountCall}
    (h : sys.entry call ∈ mounts) : sys.Mounted mounts call.target :=
  ⟨_, h, sys.entry_dir call⟩

namespace Container

/-- The root and the file systems of the kernel. -/
def mainParts : List Part := [.root, .proc, .sys, .dev]

variable (c : Container) (sys : MountSystem) (succeeds : Nat → Command → Bool)

/-- The state in which a part starts, when `container_mount` is called without parts. -/
def beforePart (part : Part) : Mounting :=
  (c.mountParts sys succeeds (c.mountStart sys) (allParts.takeWhile (· ≠ part))).1

/-- The command that sets the options of the root. -/
def remountRoot : Command := .remount "remount,exec,suid,dev".toList c.CHROOT_DIR

/-- What the end of `container_mount` says. -/
structure FailureSpec (r : Mounting × Bool) : Prop where
  /-- A status of 1: there is no `TARGET_PATH`, or the root could not be mounted, and the table
  is the one before, or the root could not be remounted and is all that has been added. -/
  failed : r.2 = false →
    (c.TARGET_PATH = [] ∨ (Command.mount (c.rootCall sys), false) ∈ r.1.ran) ∧
        r.1.mounts = c.mounts ∨
      (c.remountRoot, false) ∈ r.1.ran ∧ r.1.mounts = c.mounts ++ [sys.entry (c.rootCall sys)]
  /-- A status of 0: the main parts are mounted, unless `is_mounted` took them to be without an
  entry, or they are not the root and their mount failed. -/
  succeeded : r.2 = true → ∀ part ∈ mainParts, ∀ call ∈ c.wantedCalls sys part,
    sys.Mounted r.1.mounts call.target ∨
      (c.isMounted (c.beforePart sys succeeds part) call.target = true ∧
        ¬ sys.Mounted (c.beforePart sys succeeds part).mounts call.target) ∨
      part ≠ .root ∧ (Command.mount call, false) ∈ r.1.ran

variable {c sys succeeds} {s : Mounting}

open Mounting

/-! ## How a part ends -/

theorem mountRoot_cases (c : Container) (sys : MountSystem) (succeeds : Nat → Command → Bool)
    (s : Mounting) :
    let r := c.mountRoot sys succeeds s
    r.2 = true ∧ sys.entry (c.rootCall sys) ∈ r.1.mounts ∨
      r.2 = false ∧ (Command.mount (c.rootCall sys), false) ∈ r.1.ran ∧ r.1.mounts = s.mounts ∨
      r.2 = false ∧ (c.remountRoot, false) ∈ r.1.ran ∧
        r.1.mounts = s.mounts ++ [sys.entry (c.rootCall sys)] := by
  dsimp only
  have hmade : (s.makeDir sys succeeds c.CHROOT_DIR).mounts = s.mounts := makeDir_mounts _ _
  rw [mountRoot]
  generalize s.makeDir sys succeeds c.CHROOT_DIR = made at hmade
  cases hmount : (made.run sys succeeds (.mount (c.rootCall sys))).2 with
  | false =>
    have hcall : succeeds made.ran.length (.mount (c.rootCall sys)) = false := hmount
    rw [if_neg Bool.false_ne_true, ← hmade]
    exact .inr (.inl ⟨hmount, run_failed hcall, by simp [run, hcall, MountSystem.added]⟩)
  | true =>
    have hmounts : (made.run sys succeeds (.mount (c.rootCall sys))).1.mounts =
        made.mounts ++ [sys.entry (c.rootCall sys)] := run_mount_mounts hmount
    rw [if_pos rfl, ← hmade, ← hmounts]
    generalize (made.run sys succeeds (.mount (c.rootCall sys))).1 = mounted at hmounts
    cases hremount : succeeds mounted.ran.length c.remountRoot with
    | false =>
      exact .inr (.inr ⟨hremount, run_failed hremount, run_remount_mounts _ _ _⟩)
    | true =>
      refine .inl ⟨hremount, ?_⟩
      rw [run_remount_mounts, hmounts]
      exact List.mem_append_right _ (List.mem_singleton_self _)

/-- **The root**: it is found, or mounted and remounted, or the mount fails, or the remount. -/
theorem mount_root_cases (c : Container) (sys : MountSystem) (succeeds : Nat → Command → Bool)
    (s : Mounting) :
    let r := c.mount_part sys succeeds s .root
    r.2 = true ∧ (c.isMounted s c.CHROOT_DIR = true ∨ sys.entry (c.rootCall sys) ∈ r.1.mounts) ∨
      r.2 = false ∧ (Command.mount (c.rootCall sys), false) ∈ r.1.ran ∧ r.1.mounts = s.mounts ∨
      r.2 = false ∧ (c.remountRoot, false) ∈ r.1.ran ∧
        r.1.mounts = s.mounts ++ [sys.entry (c.rootCall sys)] := by
  dsimp only
  rw [mount_part]
  split
  · next hfound => exact .inl ⟨rfl, .inl hfound⟩
  · rcases c.mountRoot_cases sys succeeds (s.msg "/ ... ") with
      ⟨hstatus, hmem⟩ | hfailed | hfailed
    · exact .inl ⟨hstatus, .inr hmem⟩
    · exact .inr (.inl hfailed)
    · exact .inr (.inr hfailed)

/-- **A mount of the container** is found, or made, or it fails. -/
theorem mountDir_cases (s : Mounting) (call : MountCall) :
    sys.entry call ∈ (c.mountDir sys succeeds s call).mounts ∨
      c.isMounted s call.target = true ∨
      (Command.mount call, false) ∈ (c.mountDir sys succeeds s call).ran := by
  rw [mountDir]
  split
  · next hfound => exact .inr (.inl hfound)
  · rcases run_mount sys succeeds (s.makeDir sys succeeds call.target) call with hmem | hfailed
    · exact .inl hmem
    · exact .inr (.inr hfailed)

/-- A main part that is not the root. -/
theorem mount_part_cases (succeeds : Nat → Command → Bool) {part : Part}
    (hpart : part ∈ mainParts) (hne : part ≠ .root) {call : MountCall}
    (hcall : call ∈ c.wantedCalls sys part) (s : Mounting) :
    sys.entry call ∈ (c.mount_part sys succeeds s part).1.mounts ∨
      c.isMounted s call.target = true ∨
      (Command.mount call, false) ∈ (c.mount_part sys succeeds s part).1.ran := by
  simp only [mainParts, List.mem_cons, List.not_mem_nil, or_false] at hpart
  rcases hpart with rfl | rfl | rfl | rfl
  · exact absurd rfl hne
  · obtain rfl := List.mem_singleton.mp hcall
    exact mountDir_cases (s.msg "/proc ... ") _
  · obtain rfl := List.mem_singleton.mp hcall
    exact mountDir_cases (s.msg "/sys ... ") _
  · obtain rfl := List.mem_singleton.mp hcall
    exact mountDir_cases (s.msg "/dev ... ") _

/-- The parts other than the root never fail. -/
theorem mount_part_status {part : Part} (h : part ≠ .root) (s : Mounting) :
    (c.mount_part sys succeeds s part).2 = true := by
  cases part with
  | root => exact absurd rfl h
  | proc => rfl
  | sys => rfl
  | dev => rfl
  | shm => rfl
  | pts => rfl
  | fd =>
    rw [mount_part]
    split
    · rfl
    · rfl
  | tty =>
    rw [mount_part]
    split
    · rfl
    · rfl
  | tun =>
    rw [mount_part]
    split
    · rfl
    · rfl
  | binfmt_misc =>
    rw [mount_part]
    split
    · split
      · rfl
      · rfl
    · rfl

theorem mountParts_status {parts : List Part} (h : .root ∉ parts) (s : Mounting) :
    (c.mountParts sys succeeds s parts).2 = true := by
  induction parts generalizing s with
  | nil => rfl
  | cons part parts ih =>
    rw [List.mem_cons, not_or] at h
    rw [mountParts, if_pos (mount_part_status (Ne.symm h.1) s)]
    exact ih h.2 _

/-- In a run that succeeds, a part has its turn, and what it does stays. -/
theorem mountParts_turn {before after : List Part} {part : Part}
    (h : (c.mountParts sys succeeds s (before ++ part :: after)).2 = true) :
    (c.mount_part sys succeeds (c.mountParts sys succeeds s before).1 part).2 = true ∧
      (c.mount_part sys succeeds (c.mountParts sys succeeds s before).1 part).1.Extends sys
        (c.mountParts sys succeeds s (before ++ part :: after)).1 := by
  induction before generalizing s with
  | nil =>
    rw [List.nil_append, mountParts] at h ⊢
    split at h
    · next hstatus =>
      rw [if_pos hstatus]
      exact ⟨hstatus, mountParts_extends _ after⟩
    · cases h
  | cons part' before ih =>
    rw [List.cons_append, mountParts] at h ⊢
    split at h
    · next hstatus =>
      rw [if_pos hstatus, mountParts, if_pos hstatus]
      exact ih h
    · cases h

/-- The state in which a part starts is the one that the earlier parts leave. -/
theorem beforePart_eq {before after : List Part} {part : Part}
    (hall : allParts = before ++ part :: after) (hnew : part ∉ before) :
    c.beforePart sys succeeds part = (c.mountParts sys succeeds (c.mountStart sys) before).1 := by
  have hbefore : ∀ part' ∈ before, decide (part' ≠ part) = true := by
    intro part' hpart'
    exact decide_eq_true fun heq => hnew (heq ▸ hpart')
  rw [beforePart, hall, List.takeWhile_append_of_pos hbefore, List.takeWhile_cons_of_neg (by simp),
    List.append_nil]

/-- **When mounting fails**, only the root can have been added, and a status of 0 says that the
main parts are mounted, where they were not found and no mount failed. -/
theorem container_mount_failure (hmountable : c.Mountable) :
    c.FailureSpec sys succeeds (c.container_mount sys succeeds []) := by
  rw [container_mount, if_pos hmountable]
  split
  · next hpath => exact ⟨fun _ => .inl ⟨.inl hpath, rfl⟩, fun h => absurd h Bool.false_ne_true⟩
  have hwanted : wanted [] = .root :: allParts.tail := rfl
  constructor
  · -- only the root fails
    intro hstatus
    rw [hwanted, mountParts] at hstatus ⊢
    split at hstatus
    · rw [mountParts_status (by decide)] at hstatus
      cases hstatus
    · next hfailed =>
      rw [if_neg hfailed]
      rcases c.mount_root_cases sys succeeds (c.mountStart sys) with
        ⟨hok, -⟩ | ⟨-, hran, hmounts⟩ | ⟨-, hran, hmounts⟩
      · exact absurd hok hfailed
      · exact .inl ⟨.inr hran, hmounts⟩
      · exact .inr ⟨hran, hmounts⟩
  · intro hstatus part hpart call hcall
    have hall : part ∈ allParts := (by decide : mainParts ⊆ allParts) hpart
    obtain ⟨before, after, hparts, hnew⟩ := List.eq_append_cons_of_mem hall
    rw [beforePart_eq hparts hnew]
    have hsame : wanted [] = before ++ part :: after := hparts
    rw [hsame] at hstatus ⊢
    obtain ⟨hok, hstays⟩ := mountParts_turn hstatus
    generalize (c.mountParts sys succeeds (c.mountStart sys) before).1 = s at hok hstays ⊢
    -- an entry that was there already is still there
    have hold : c.isMounted s call.target = true →
        sys.Mounted (c.mountParts sys succeeds (c.mountStart sys)
          (before ++ part :: after)).1.mounts call.target ∨
        c.isMounted s call.target = true ∧ ¬ sys.Mounted s.mounts call.target := by
      intro hfound
      by_cases hmounted : sys.Mounted s.mounts call.target
      · obtain ⟨m, hm, hdir⟩ := hmounted
        exact .inl ⟨m, ((mount_part_extends s part).trans hstays).mounts_subset hm, hdir⟩
      · exact .inr ⟨hfound, hmounted⟩
    have hentry (hmem : sys.entry call ∈ (c.mount_part sys succeeds s part).1.mounts) :
        sys.Mounted (c.mountParts sys succeeds (c.mountStart sys)
          (before ++ part :: after)).1.mounts call.target :=
      sys.mounted_of_entry (hstays.mounts_subset hmem)
    by_cases hroot : part = .root
    · subst hroot
      obtain rfl := List.mem_singleton.mp hcall
      rcases c.mount_root_cases sys succeeds s with
        ⟨-, hfound | hmem⟩ | ⟨hfailed, -⟩ | ⟨hfailed, -⟩
      · exact (hold hfound).imp_right .inl
      · exact .inl (hentry hmem)
      · exact absurd (hok.symm.trans hfailed) (by simp)
      · exact absurd (hok.symm.trans hfailed) (by simp)
    · rcases mount_part_cases succeeds hpart hroot hcall s with
        hmem | hfound | hfailed
      · exact .inl (hentry hmem)
      · exact (hold hfound).imp_right .inl
      · exact .inr (.inr ⟨hroot, hstays.ran_subset hfailed⟩)

/-- The container in `/mnt`, with nothing mounted. -/
def unmounted : Container := { beside with mounts := [] }

/-- All parts, when the mount of `/proc` fails. -/
theorem container_mount_failure_proc : unmounted.FailureSpec noLinks
    (fun _ command => command ≠ .mount unmounted.procCall)
    (unmounted.container_mount noLinks
      (fun _ command => command ≠ .mount unmounted.procCall) []) :=
  container_mount_failure (.inl rfl)

/-- A remount that fails leaves the root, and `/proc` need not be mounted. -/
theorem not_leavesNothing :
    (¬ ∀ (c : Container) sys succeeds, c.Mountable →
      (c.container_mount sys succeeds []).2 = false →
        (c.container_mount sys succeeds []).1.mounts = c.mounts) ∧
    ¬ ∀ (c : Container) sys succeeds, c.Mountable →
      (c.container_mount sys succeeds []).2 = true →
        ∀ part ∈ mainParts, ∀ call ∈ c.wantedCalls sys part,
          sys.Mounted (c.container_mount sys succeeds []).1.mounts call.target := by
  constructor
  · intro h
    have hkept := h unmounted noLinks (fun _ command => command ≠ unmounted.remountRoot)
      (.inl rfl) (by decide)
    exact absurd (congrArg List.length hkept) (by decide)
  · intro h
    have hmounted := h unmounted noLinks
      (fun _ command => command ≠ .mount unmounted.procCall) (.inl rfl) (by decide) .proc
      (by decide) _ (List.mem_singleton_self _)
    exact absurd hmounted (by decide)

end Container

end Anx.Cli
