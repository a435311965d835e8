import Anx.Cli.ContainerUmount
import Anx.Lib.Ensure

/-!
# Mounting a container

`container_mount` of cli.sh mounts the root of a container and the file systems in it, part by
part. Each part first looks for its mount point in `/proc/mounts`.

- `Command`, `MountSystem`: the commands that the parts call, and what these find;
- `mount_part`, `container_mount`: the functions; how the commands end is a parameter;
- `mountCalls`: the mounts that are wanted;
- `mount_part_extends`: entries of the table stay, whichever commands fail;
- `container_mount_mounts`: **an entry is added for each mount that is not found**, when all
  mounts succeed.
-/

namespace Anx.Cli

open Anx.Lib

/-- A part, as `container_mount` is asked for it. -/
inductive Part
  | root | proc | sys | dev | shm | pts | fd | tty | tun | binfmt_misc
  deriving DecidableEq

/-- A call of `mount` that mounts something. -/
structure MountCall where
  options : List Text
  source : Text
  target : Text
  deriving DecidableEq

/-- The commands that change something. -/
inductive Command
  | mkdir (dir : Text)
  | mount (call : MountCall)
  | remount (options target : Text)
  | ln (file link : Text)
  | mknod (node : Text)
  deriving DecidableEq

/-- What the commands find: the setting that only the check of the file system reads, whether
there is an `e2fsck`, directories, files, and the entry of the mount table that a mount gets,
which has the path that its target stands for. -/
structure MountSystem where
  TARGET_TYPE : Text
  e2fsck : Bool
  isDir : Text → Bool
  isThere : Text → Bool
  resolve : Text → Text
  entry : MountCall → Mount
  entry_dir : ∀ call, (entry call).dir = resolve call.target

/-- Without symbolic links a path stands for the names in it. -/
def noLinks : MountSystem where
  TARGET_TYPE := "file".toList
  e2fsck := false
  isDir := fun _ => false
  isThere := fun _ => true
  resolve := fun path => '/' :: ['/'].intercalate (components path)
  entry := fun call => {
    source := "none".toList
    dir := '/' :: ['/'].intercalate (components call.target)
    options := "rw 0 0".toList
    source_ne := by decide
    dir_ne := List.cons_ne_nil _ _ }
  entry_dir := fun _ => rfl

/-- The mount table while a container is mounted, with the commands so far, each with whether
it succeeded, and the output. -/
structure Mounting where
  mounts : List Mount
  ran : List (Command × Bool)
  out : Text

/-- The command mounts something, or changes how it is mounted. -/
def Command.isMount : Command → Bool
  | .mount _ | .remount _ _ => true
  | _ => false

/-- The entries that a command adds to the mount table. -/
def MountSystem.added (sys : MountSystem) : Command × Bool → List Mount
  | (.mount call, true) => [sys.entry call]
  | _ => []

namespace Mounting

variable (sys : MountSystem) (succeeds : Nat → Command → Bool)

/-- `msg`. -/
def msg (s : Mounting) (text : String) : Mounting := { s with out := s.out ++ text.toList }

/-- `is_ok "fail" "done"`. -/
def is_ok (s : Mounting) (ok : Bool) : Mounting := s.msg (if ok then "done\n" else "fail\n")

/-- The next command. -/
def run (s : Mounting) (command : Command) : Mounting × Bool :=
  let ok := succeeds s.ran.length command
  ({ s with
      mounts := s.mounts ++ sys.added (command, ok)
      ran := s.ran ++ [(command, ok)] }, ok)

/-- `[ -d "${dir}" ] || mkdir -p "${dir}"`. -/
def makeDir (s : Mounting) (dir : Text) : Mounting :=
  if sys.isDir dir then s else (s.run sys succeeds (.mkdir dir)).1

/-- `[ -e "${link}" ] || ln -s "${file}" "${link}"`. -/
def makeLink (s : Mounting) (file link : Text) : Mounting × Bool :=
  if sys.isThere link then (s, true) else s.run sys succeeds (.ln file link)

end Mounting

namespace Container

variable (c : Container) (sys : MountSystem) (succeeds : Nat → Command → Bool)

/-- `is_mounted`, during the call. -/
def isMounted (s : Mounting) (mount_point : Text) : Bool :=
  Container.is_mounted { c with mounts := s.mounts } mount_point

/-! ## The mounts of the parts -/

def rootCall : MountCall where
  options := ["-o".toList,
    if sys.isDir c.TARGET_PATH then "bind".toList else "rw,relatime".toList]
  source := c.TARGET_PATH
  target := c.CHROOT_DIR

def procCall : MountCall where
  options := ["-t".toList, "proc".toList]
  source := "proc".toList
  target := c.CHROOT_DIR ++ "/proc".toList

def sysCall : MountCall where
  options := ["-t".toList, "sysfs".toList]
  source := "sys".toList
  target := c.CHROOT_DIR ++ "/sys".toList

/-- A directory of the system, in the container. -/
def bindCall (dir : String) : MountCall where
  options := ["-o".toList, "bind".toList]
  source := dir.toList
  target := c.CHROOT_DIR ++ dir.toList

end Container

/-- `/dev/shm` of the system. -/
def shmCall : MountCall where
  options := ["-o".toList, "rw,nosuid,nodev,mode=1777".toList, "-t".toList, "tmpfs".toList]
  source := "tmpfs".toList
  target := "/dev/shm".toList

/-- `/dev/pts` of the system. -/
def ptsCall : MountCall where
  options := ["-o".toList, "rw,nosuid,noexec,gid=5,mode=620,ptmxmode=000".toList, "-t".toList,
    "devpts".toList]
  source := "devpts".toList
  target := "/dev/pts".toList

def binfmtCall : MountCall where
  options := ["-t".toList, "binfmt_misc".toList]
  source := "binfmt_misc".toList
  target := "/proc/sys/fs/binfmt_misc".toList

/-- `multiarch_support`. -/
def MountSystem.multiarch_support (sys : MountSystem) : Bool :=
  sys.isDir "/proc/sys/fs/binfmt_misc".toList

namespace Container

variable (c : Container) (sys : MountSystem) (succeeds : Nat → Command → Bool)

/-- A mount of the system, unless its mount point is found. -/
def mountHost (s : Mounting) (call : MountCall) : Mounting :=
  if c.isMounted s call.target then s
  else ((s.makeDir sys succeeds call.target).run sys succeeds (.mount call)).1

/-- A mount of the container, unless its mount point is found. -/
def mountTarget (s : Mounting) (call : MountCall) : Mounting :=
  if c.isMounted s call.target then s.msg "skip\n"
  else
    let r := s.run sys succeeds (.mount call)
    r.1.is_ok r.2

/-- The same, at a directory that may have to be made. -/
def mountDir (s : Mounting) (call : MountCall) : Mounting :=
  if c.isMounted s call.target then s.msg "skip\n"
  else
    let r := (s.makeDir sys succeeds call.target).run sys succeeds (.mount call)
    r.1.is_ok r.2

/-- The mount of the root, and the remount that sets its options. -/
def mountRoot (s : Mounting) : Mounting × Bool :=
  let r := (s.makeDir sys succeeds c.CHROOT_DIR).run sys succeeds (.mount (c.rootCall sys))
  if r.2 then r.1.run sys succeeds (.remount "remount,exec,suid,dev".toList c.CHROOT_DIR)
  else r

/-- `mount_part`, and whether its status is 0. -/
def mount_part (s : Mounting) : Part → Mounting × Bool
  | .root =>
    let s := s.msg "/ ... "
    if c.isMounted s c.CHROOT_DIR then (s.msg "skip\n", true)
    else
      let r := c.mountRoot sys succeeds s
      (r.1.is_ok r.2, r.2)
  | .proc => (c.mountDir sys succeeds (s.msg "/proc ... ") c.procCall, true)
  | .sys => (c.mountDir sys succeeds (s.msg "/sys ... ") c.sysCall, true)
  | .dev => (c.mountDir sys succeeds (s.msg "/dev ... ") (c.bindCall "/dev"), true)
  | .shm =>
    let s := c.mountHost sys succeeds (s.msg "/dev/shm ... ") shmCall
    (c.mountTarget sys succeeds s (c.bindCall "/dev/shm"), true)
  | .pts =>
    let s := c.mountHost sys succeeds (s.msg "/dev/pts ... ") ptsCall
    (c.mountTarget sys succeeds s (c.bindCall "/dev/pts"), true)
  | .fd =>
    if sys.isThere "/dev/fd".toList && sys.isThere "/dev/stdin".toList &&
        sys.isThere "/dev/stdout".toList && sys.isThere "/dev/stderr".toList then (s, true)
    else
      let s := s.msg "/dev/fd ... "
      let s := (s.makeLink sys succeeds "/proc/self/fd".toList "/dev/fd".toList).1
      let s := (s.makeLink sys succeeds "/proc/self/fd/0".toList "/dev/stdin".toList).1
      let s := (s.makeLink sys succeeds "/proc/self/fd/1".toList "/dev/stdout".toList).1
      let r := s.makeLink sys succeeds "/proc/self/fd/2".toList "/dev/stderr".toList
      (r.1.is_ok r.2, true)
  | .tty =>
    if sys.isThere "/dev/tty0".toList then (s, true)
    else
      let r := (s.msg "/dev/tty ... ").run sys succeeds (.ln "/dev/null".toList "/dev/tty0".toList)
      (r.1.is_ok r.2, true)
  | .tun =>
    if sys.isThere "/dev/net/tun".toList then (s, true)
    else
      let s := (s.msg "/dev/net/tun ... ").makeDir sys succeeds "/dev/net".toList
      let r := s.run sys succeeds (.mknod "/dev/net/tun".toList)
      (r.1.is_ok r.2, true)
  | .binfmt_misc =>
    if sys.multiarch_support then
      if c.isMounted s binfmtCall.target then (s, true)
      else
        let r := (s.msg "/proc/sys/fs/binfmt_misc ... ").run sys succeeds (.mount binfmtCall)
        (r.1.is_ok r.2, true)
    else (s, true)

/-- The loop over parts, which ends at the first failure. -/
def mountParts (s : Mounting) : List Part → Mounting × Bool
  | [] => (s, true)
  | part :: parts =>
    let r := c.mount_part sys succeeds s part
    if r.2 then mountParts r.1 parts else (r.1, false)

/-- The parts that are mounted when none is named. -/
def allParts : List Part := [.root, .proc, .sys, .dev, .shm, .pts, .fd, .tty, .tun, .binfmt_misc]

/-- The parts that `container_mount` is called for. -/
def wanted (parts : List Part) : List Part := if parts = [] then allParts else parts

/-- The container is one that has to be mounted. -/
def Mountable : Prop := c.METHOD = "chroot".toList ∨ c.METHOD = "unshare".toList

instance : Decidable c.Mountable := inferInstanceAs (Decidable (_ ∨ _))

/-- `fs_check`: a file system that is not mounted may be checked. -/
def fs_check : Bool :=
  !c.is_mounted c.CHROOT_DIR && sys.e2fsck &&
    (sys.TARGET_TYPE = "file".toList || sys.TARGET_TYPE = "partition".toList)

/-- Before the first part. -/
def mountStart : Mounting :=
  let s := (Mounting.mk c.mounts [] []).msg "Checking file system ... "
  (s.msg (if c.fs_check sys then "done\n" else "skip\n")).msg "Mounting the container: \n"

/-- `container_mount`: the state after it, and whether its status is 0. -/
def container_mount (parts : List Part) : Mounting × Bool :=
  if c.Mountable then
    if c.TARGET_PATH = [] then
      ((Mounting.mk c.mounts [] []).msg "Missing parameters: TARGET_PATH\n", false)
    else c.mountParts sys succeeds (c.mountStart sys) (wanted parts)
  else (⟨c.mounts, [], []⟩, true)

/-! ## What is wanted -/

/-- The mounts of a part. -/
def wantedCalls : Part → List MountCall
  | .root => [c.rootCall sys]
  | .proc => [c.procCall]
  | .sys => [c.sysCall]
  | .dev => [c.bindCall "/dev"]
  | .shm => [shmCall, c.bindCall "/dev/shm"]
  | .pts => [ptsCall, c.bindCall "/dev/pts"]
  | .fd | .tty | .tun => []
  | .binfmt_misc => if sys.multiarch_support then [binfmtCall] else []

/-- The mounts of a call of `container_mount`. -/
def mountCalls (parts : List Part) : List MountCall :=
  if c.Mountable ∧ c.TARGET_PATH ≠ [] then (wanted parts).flatMap (c.wantedCalls sys) else []

/-- `is_mounted` finds the mount point in an entry. -/
def finds (call : MountCall) (m : Mount) : Bool :=
  call.target ≠ [] && c.grep (' ' :: stripSlash call.target ++ [' ']) m.line

end Container

/-! ## What changes -/

namespace Mounting

variable {sys : MountSystem} {succeeds : Nat → Command → Bool} {s s' s'' : Mounting}

/-- Commands have been added, and what they mount. -/
def Extends (sys : MountSystem) (s s' : Mounting) : Prop :=
  ∃ log, s'.ran = s.ran ++ log ∧ s'.mounts = s.mounts ++ log.flatMap sys.added

theorem Extends.refl (s : Mounting) : s.Extends sys s := ⟨[], by simp, by simp⟩

theorem Extends.trans (h : s.Extends sys s') (h' : s'.Extends sys s'') : s.Extends sys s'' := by
  obtain ⟨log, hran, hmounts⟩ := h
  obtain ⟨log', hran', hmounts'⟩ := h'
  refine ⟨log ++ log', ?_, ?_⟩
  · rw [hran', hran, List.append_assoc]
  · rw [hmounts', hmounts, List.flatMap_append, List.append_assoc]

theorem Extends.mounts_subset (h : s.Extends sys s') : s.mounts ⊆ s'.mounts := by
  obtain ⟨log, -, hmounts⟩ := h
  exact hmounts ▸ List.subset_append_left _ _

theorem Extends.ran_subset (h : s.Extends sys s') : s.ran ⊆ s'.ran := by
  obtain ⟨log, hran, -⟩ := h
  exact hran ▸ List.subset_append_left _ _

theorem msg_extends (s : Mounting) (text : String) : s.Extends sys (s.msg text) :=
  ⟨[], by simp [msg], by simp [msg]⟩

theorem is_ok_extends (s : Mounting) (ok : Bool) : s.Extends sys (s.is_ok ok) := msg_extends _ _

theorem run_extends (s : Mounting) (command : Command) :
    s.Extends sys (s.run sys succeeds command).1 :=
  ⟨[(command, succeeds s.ran.length command)], rfl, by simp [run]⟩

theorem makeDir_extends (s : Mounting) (dir : Text) :
    s.Extends sys (s.makeDir sys succeeds dir) := by
  unfold makeDir
  split
  · exact .refl s
  · exact run_extends s _

theorem makeLink_extends (s : Mounting) (file link : Text) :
    s.Extends sys (s.makeLink sys succeeds file link).1 := by
  unfold makeLink
  split
  · exact .refl s
  · exact run_extends s _

@[simp] theorem msg_mounts (s : Mounting) (text : String) : (s.msg text).mounts = s.mounts := rfl

@[simp] theorem is_ok_mounts (s : Mounting) (ok : Bool) : (s.is_ok ok).mounts = s.mounts := rfl

@[simp] theorem run_mkdir_mounts (s : Mounting) (dir : Text) :
    (s.run sys succeeds (.mkdir dir)).1.mounts = s.mounts := List.append_nil _

@[simp] theorem run_remount_mounts (s : Mounting) (options target : Text) :
    (s.run sys succeeds (.remount options target)).1.mounts = s.mounts := List.append_nil _

@[simp] theorem run_ln_mounts (s : Mounting) (file link : Text) :
    (s.run sys succeeds (.ln file link)).1.mounts = s.mounts := List.append_nil _

@[simp] theorem run_mknod_mounts (s : Mounting) (node : Text) :
    (s.run sys succeeds (.mknod node)).1.mounts = s.mounts := List.append_nil _

@[simp] theorem makeDir_mounts (s : Mounting) (dir : Text) :
    (s.makeDir sys succeeds dir).mounts = s.mounts := by
  unfold makeDir
  split
  · rfl
  · exact run_mkdir_mounts s dir

@[simp] theorem makeLink_mounts (s : Mounting) (file link : Text) :
    (s.makeLink sys succeeds file link).1.mounts = s.mounts := by
  unfold makeLink
  split
  · rfl
  · exact run_ln_mounts s file link

/-- A mount that succeeds. -/
theorem run_mount_mounts {call : MountCall} (h : succeeds s.ran.length (.mount call) = true) :
    (s.run sys succeeds (.mount call)).1.mounts = s.mounts ++ [sys.entry call] := by
  simp [run, h, MountSystem.added]

/-- A command that fails. -/
theorem run_failed {command : Command} (h : succeeds s.ran.length command = false) :
    (command, false) ∈ (s.run sys succeeds command).1.ran :=
  h ▸ List.mem_append_right s.ran (List.mem_singleton_self _)

/-- Afterwards the entry is there, or the call has failed. -/
theorem run_mount (sys : MountSystem) (succeeds : Nat → Command → Bool) (s : Mounting)
    (call : MountCall) :
    sys.entry call ∈ (s.run sys succeeds (.mount call)).1.mounts ∨
      (Command.mount call, false) ∈ (s.run sys succeeds (.mount call)).1.ran := by
  cases h : succeeds s.ran.length (.mount call) with
  | true =>
    rw [run_mount_mounts h]
    exact .inl (List.mem_append_right _ (List.mem_singleton_self _))
  | false => exact .inr (run_failed h)

end Mounting

namespace Container

variable {c : Container} {sys : MountSystem} {succeeds : Nat → Command → Bool} {s : Mounting}

open Mounting

theorem isMounted_eq (s : Mounting) (call : MountCall) :
    c.isMounted s call.target = s.mounts.any (c.finds call) := by
  unfold isMounted is_mounted finds grep
  by_cases h : call.target = []
  · simp [h]
  · simp [h]

/-! ## Whichever commands fail -/

theorem mountHost_extends (s : Mounting) (call : MountCall) :
    s.Extends sys (c.mountHost sys succeeds s call) := by
  unfold mountHost
  split
  · exact .refl s
  · exact (makeDir_extends s _).trans (run_extends _ _)

theorem mountTarget_extends (s : Mounting) (call : MountCall) :
    s.Extends sys (c.mountTarget sys succeeds s call) := by
  unfold mountTarget
  split
  · exact msg_extends s _
  · exact (run_extends s _).trans (is_ok_extends _ _)

theorem mountDir_extends (s : Mounting) (call : MountCall) :
    s.Extends sys (c.mountDir sys succeeds s call) := by
  unfold mountDir
  split
  · exact msg_extends s _
  · exact ((makeDir_extends s _).trans (run_extends _ _)).trans (is_ok_extends _ _)

theorem mountRoot_extends (s : Mounting) : s.Extends sys (c.mountRoot sys succeeds s).1 := by
  have hmount : s.Extends sys ((s.makeDir sys succeeds c.CHROOT_DIR).run sys succeeds
      (.mount (c.rootCall sys))).1 := (makeDir_extends s _).trans (run_extends _ _)
  rw [mountRoot]
  split
  · exact hmount.trans (run_extends _ _)
  · exact hmount

/-- **Entries stay**. -/
theorem mount_part_extends (s : Mounting) (part : Part) :
    s.Extends sys (c.mount_part sys succeeds s part).1 := by
  cases part with
  | root =>
    rw [mount_part]
    split
    · exact (msg_extends s _).trans (msg_extends _ _)
    · exact ((msg_extends s _).trans (mountRoot_extends _)).trans (is_ok_extends _ _)
  | proc => exact (msg_extends s _).trans (mountDir_extends _ _)
  | sys => exact (msg_extends s _).trans (mountDir_extends _ _)
  | dev => exact (msg_extends s _).trans (mountDir_extends _ _)
  | shm => exact ((msg_extends s _).trans (mountHost_extends _ _)).trans (mountTarget_extends _ _)
  | pts => exact ((msg_extends s _).trans (mountHost_extends _ _)).trans (mountTarget_extends _ _)
  | fd =>
    rw [mount_part]
    split
    · exact .refl s
    · exact (((((msg_extends s _).trans (makeLink_extends _ _ _)).trans
        (makeLink_extends _ _ _)).trans (makeLink_extends _ _ _)).trans
        (makeLink_extends _ _ _)).trans (is_ok_extends _ _)
  | tty =>
    rw [mount_part]
    split
    · exact .refl s
    · exact ((msg_extends s _).trans (run_extends _ _)).trans (is_ok_extends _ _)
  | tun =>
    rw [mount_part]
    split
    · exact .refl s
    · exact (((msg_extends s _).trans (makeDir_extends _ _)).trans (run_extends _ _)).trans
        (is_ok_extends _ _)
  | binfmt_misc =>
    rw [mount_part]
    split
    · split
      · exact .refl s
      · exact ((msg_extends s _).trans (run_extends _ _)).trans (is_ok_extends _ _)
    · exact .refl s

theorem mountParts_extends (s : Mounting) (parts : List Part) :
    s.Extends sys (c.mountParts sys succeeds s parts).1 := by
  induction parts generalizing s with
  | nil => exact .refl s
  | cons part parts ih =>
    rw [mountParts]
    split
    · exact (mount_part_extends s part).trans (ih _)
    · exact mount_part_extends s part

/-! ## When all mounts succeed -/

/-- All mounts and remounts succeed. -/
def MountsSucceed (succeeds : Nat → Command → Bool) : Prop :=
  ∀ n command, command.isMount = true → succeeds n command = true

theorem mountHost_mounts (hok : MountsSucceed succeeds) (s : Mounting) (call : MountCall) :
    (c.mountHost sys succeeds s call).mounts = ensureOne c.finds sys.entry s.mounts call := by
  rw [mountHost, ensureOne, isMounted_eq]
  split
  · rfl
  · rw [run_mount_mounts (hok _ _ rfl), makeDir_mounts]

theorem mountTarget_mounts (hok : MountsSucceed succeeds) (s : Mounting) (call : MountCall) :
    (c.mountTarget sys succeeds s call).mounts = ensureOne c.finds sys.entry s.mounts call := by
  rw [mountTarget, ensureOne, isMounted_eq]
  split
  · rfl
  · exact run_mount_mounts (hok _ _ rfl)

theorem mountDir_mounts (hok : MountsSucceed succeeds) (s : Mounting) (call : MountCall) :
    (c.mountDir sys succeeds s call).mounts = ensureOne c.finds sys.entry s.mounts call := by
  rw [mountDir, ensureOne, isMounted_eq]
  split
  · rfl
  · exact (run_mount_mounts (hok _ _ rfl)).trans (by rw [makeDir_mounts])

theorem mountRoot_mounts (hok : MountsSucceed succeeds) (s : Mounting) :
    (c.mountRoot sys succeeds s).1.mounts = s.mounts ++ [sys.entry (c.rootCall sys)] ∧
      (c.mountRoot sys succeeds s).2 = true := by
  have hmounted : ((s.makeDir sys succeeds c.CHROOT_DIR).run sys succeeds
      (.mount (c.rootCall sys))).2 = true := hok _ _ rfl
  rw [mountRoot, if_pos hmounted]
  refine ⟨?_, hok _ _ rfl⟩
  rw [run_remount_mounts, run_mount_mounts (hok _ _ rfl), makeDir_mounts]

/-- **A part adds** what is not found. -/
theorem mount_part_mounts (c : Container) (sys : MountSystem) (hok : MountsSucceed succeeds)
    (s : Mounting) (part : Part) :
    (c.mount_part sys succeeds s part).1.mounts =
        ensure c.finds sys.entry s.mounts (c.wantedCalls sys part) ∧
      (c.mount_part sys succeeds s part).2 = true := by
  cases part with
  | root =>
    have hfound : c.isMounted (s.msg "/ ... ") c.CHROOT_DIR =
        s.mounts.any (c.finds (c.rootCall sys)) := isMounted_eq _ (c.rootCall sys)
    rw [mount_part, hfound, wantedCalls, ensure_cons, ensure_nil, ensureOne]
    split
    · exact ⟨rfl, rfl⟩
    · obtain ⟨hmounts, hstatus⟩ := mountRoot_mounts hok (s.msg "/ ... ")
      exact ⟨hmounts, hstatus⟩
  | proc => exact ⟨mountDir_mounts hok _ _, rfl⟩
  | sys => exact ⟨mountDir_mounts hok _ _, rfl⟩
  | dev => exact ⟨mountDir_mounts hok _ _, rfl⟩
  | shm =>
    refine ⟨(mountTarget_mounts hok _ _).trans ?_, rfl⟩
    rw [mountHost_mounts hok]
    rfl
  | pts =>
    refine ⟨(mountTarget_mounts hok _ _).trans ?_, rfl⟩
    rw [mountHost_mounts hok]
    rfl
  | fd =>
    rw [mount_part]
    split
    · exact ⟨rfl, rfl⟩
    · exact ⟨by simp [wantedCalls], rfl⟩
  | tty =>
    rw [mount_part]
    split
    · exact ⟨rfl, rfl⟩
    · exact ⟨by simp [wantedCalls], rfl⟩
  | tun =>
    rw [mount_part]
    split
    · exact ⟨rfl, rfl⟩
    · exact ⟨by simp [wantedCalls], rfl⟩
  | binfmt_misc =>
    rw [mount_part, wantedCalls]
    split
    · rw [isMounted_eq, ensure_cons, ensure_nil, ensureOne]
      split
      · exact ⟨rfl, rfl⟩
      · exact ⟨run_mount_mounts (hok _ _ rfl), rfl⟩
    · exact ⟨rfl, rfl⟩

theorem mountParts_mounts (hok : MountsSucceed succeeds) (s : Mounting) (parts : List Part) :
    (c.mountParts sys succeeds s parts).1.mounts =
      ensure c.finds sys.entry s.mounts (parts.flatMap (c.wantedCalls sys)) := by
  induction parts generalizing s with
  | nil => rfl
  | cons part parts ih =>
    obtain ⟨hmounts, hstatus⟩ := c.mount_part_mounts sys hok s part
    rw [mountParts, if_pos hstatus, ih, hmounts, List.flatMap_cons, ensure_append]

/-- **An entry is added for each mount that is not found**, when all mounts succeed. -/
theorem container_mount_mounts (hok : MountsSucceed succeeds) (parts : List Part) :
    (c.container_mount sys succeeds parts).1.mounts =
      ensure c.finds sys.entry c.mounts (c.mountCalls sys parts) := by
  rw [container_mount, mountCalls]
  by_cases hmountable : c.Mountable
  · by_cases hpath : c.TARGET_PATH = []
    · rw [if_pos hmountable, if_pos hpath, if_neg fun h => h.2 hpath]
      rfl
    · rw [if_pos hmountable, if_neg hpath, if_pos ⟨hmountable, hpath⟩, mountParts_mounts hok]
      rfl
  · rw [if_neg hmountable, if_neg fun h => hmountable h.1]
    rfl

end Container

end Anx.Cli
