import Anx.Cli.Actions
import Anx.Cli.MountTwice
import Anx.Conf.Mounts
import Anx.Lib.Machine

/-!
# The commands that mount and unmount

The commands of cli.sh on the mount table of the system. Besides `container_mount` and
`container_umount`, three components mount something: core/mnt, core/emulator and
bootstrap/rootfs.

- `World`: what the commands of a function find, and how they end;
- `Guest`: the settings of a container and its components;
- `mnt_start`, `emulator_start`, `emulator_stop`, `rootfs_make`, `rootfs_install`: the functions
  of the components (core/mnt/deploy.sh:17–46, core/emulator/deploy.sh:32–47 and 91–102,
  bootstrap/rootfs/deploy.sh:89–120);
- `Call`, `hookCalls`: what `component_exec` comes to;
- `Job`, `step`: the commands (cli.sh:745–790, 863–868, 1156–1264);
- `session`: their runs, for any number of containers in one table.
-/

namespace Anx.Cli

open Anx.Lib

/-- The mount table. -/
abbrev Table := List Mount

/-- What the commands of a function find, and how they end. Of `rootfs_make` there is whether
it comes to its mounts and goes through otherwise, and the size of the disk that it computes. -/
structure World where
  sys : MountSystem
  succeeds : Nat → Command → Bool
  umounts : Nat → Text → Bool
  which : Text
  made : Bool
  diskSize : Text
  isArchive : Bool

/-- One call of `umount`. -/
def World.umountOne (w : World) (path : Text) (t : Table) : Table :=
  ((⟨t, [], 0⟩ : Unmounting).umountPath w.umounts path).1.mounts

/-- The settings of a container and of its components, and the command `test`. The mount table
of `container` is not used. -/
structure Guest where
  container : Container
  MOUNTS : Text
  EMULATOR : Text
  test : List Text → Bool

/-- The components that mount something. -/
inductive Component
  | mnt | emulator | rootfs
  deriving DecidableEq

/-- The call of a function of a component, with what its commands find, one after the other. -/
structure Call where
  component : Component
  hook : Hook
  world : Nat → World

namespace Guest

variable (g : Guest) (w : World)

/-- The container, with a mount table. -/
def at_ (t : Table) : Container := { g.container with mounts := t }

/-- `container_mount`. -/
def mount (parts : List Part) (t : Table) : Table × Bool :=
  let r := (g.at_ t).container_mount w.sys w.succeeds parts
  (r.1.mounts, r.2)

/-- `container_umount`. -/
def umount (t : Table) : Table :=
  let c := g.at_ t
  if c.TARGET_PATH = [] then t
  else if c.container_mounted then (c.umounted w.umounts).mounts
  else t

/-! ## Components -/

/-- The pairs of `MOUNTS` that are mounted. -/
def pairs : List (Text × Text) :=
  Conf.Cli.do_start ⟨g.container.glob, fun _ => false⟩ g.test g.container.METHOD g.MOUNTS

/-- `${CHROOT_DIR}${disk_dst}`. -/
def pairTarget (pair : Text × Text) : Text := g.container.CHROOT_DIR ++ pair.2

/-- A mount of a file or a directory. -/
def pairCall (options : String) (pair : Text × Text) : MountCall where
  options := ["-o".toList, options.toList]
  source := pair.1
  target := g.pairTarget pair

/-- The loop body of `do_start` in core/mnt. -/
def mountPair (s : Mounting) (pair : Text × Text) : Mounting :=
  let s := { s with out := s.out ++ pair.1 ++ " ... ".toList }
  let target := g.pairTarget pair
  if g.container.isMounted s target then s.msg "skip\n"
  else
    let s := s.makeDir w.sys w.succeeds target
    -- `[ -e "${disk_src}" ] || mkdir -p "${disk_src}"`
    let r := if w.sys.isThere pair.1 then (s, false) else s.run w.sys w.succeeds (.mkdir pair.1)
    if r.2 || w.sys.isDir pair.1 then
      let r := r.1.run w.sys w.succeeds (.mount (g.pairCall "bind" pair))
      r.1.is_ok r.2
    else if w.sys.isThere pair.1 then
      let r := r.1.run w.sys w.succeeds (.mount (g.pairCall "rw,relatime" pair))
      r.1.is_ok r.2
    else r.1.msg "skip\n"

/-- `do_start` of core/mnt, before `do_configure`. -/
def mnt_start (t : Table) : Table := (g.pairs.foldl (g.mountPair w) ⟨t, [], []⟩).mounts

/-- `${CHROOT_DIR}${target_path}`. -/
def emulatorTarget : Text := g.container.CHROOT_DIR ++ "/usr/bin/".toList ++ g.EMULATOR

def emulatorCall : MountCall where
  options := ["-o".toList, "bind".toList]
  source := w.which
  target := g.emulatorTarget

/-- The functions of core/emulator do nothing without an emulator. -/
def emulates : Bool :=
  g.EMULATOR ≠ [] && g.container.METHOD = "chroot".toList && w.sys.multiarch_support

/-- `do_start` of core/emulator, before the registration. The file that it makes is found by
no other command here. -/
def emulator_start (t : Table) : Table :=
  if g.emulates w then
    let s : Mounting := ⟨t, [], []⟩
    -- `${CHROOT_DIR}${target_path%/*}`
    let dir := (g.emulatorTarget.rdropWhile (· ≠ '/')).dropLast
    let s := if w.sys.isThere dir then s else (s.run w.sys w.succeeds (.mkdir dir)).1
    if g.container.isMounted s g.emulatorTarget then s.mounts
    else (s.run w.sys w.succeeds (.mount (g.emulatorCall w))).1.mounts
  else t

/-- `do_stop` of core/emulator, before the registration is removed. -/
def emulator_stop (t : Table) : Table :=
  if g.emulates w && (g.at_ t).is_mounted g.emulatorTarget then w.umountOne g.emulatorTarget t
  else t

def tmpfsCall : MountCall where
  options := ["-t".toList, "tmpfs".toList, "-o".toList, "size=".toList ++ w.diskSize ++ ['M']]
  source := "tmpfs".toList
  target := g.container.TARGET_PATH

/-- `rootfs_make`, and whether its status is 0. -/
def rootfs_make (t : Table) : Table × Bool :=
  if w.made then
    if w.sys.TARGET_TYPE = "ram".toList then
      let s : Mounting := ⟨w.umountOne g.container.TARGET_PATH t, [], []⟩
      let r := s.run w.sys w.succeeds (.mount (g.tmpfsCall w))
      (r.1.mounts, r.2)
    else (t, true)
  else (t, false)

/-- `container_mounted || container_mount root`, as `rootfs_import` and `rootfs_export` begin. -/
def mountForFiles (t : Table) : Table :=
  if (g.at_ t).container_mounted then t else (g.mount w [.root] t).1

/-- `do_install` of bootstrap/rootfs: the root is made, mounted and filled. -/
def rootfs_install (world : Nat → World) (t : Table) : Table :=
  let c := g.at_ t
  if c.CHROOT_DIR ≠ c.TARGET_PATH ∧ c.container_mounted then t
  else
    let made := g.rootfs_make (world 0) t
    if made.2 then
      let mounted := g.mount (world 1) [] made.1
      if mounted.2 && (world 2).isArchive then g.mountForFiles (world 2) mounted.1
      else mounted.1
    else made.1

/-- A call of a function of a component. -/
def call (t : Table) (k : Call) : Table :=
  match k.component, k.hook with
  | .mnt, .do_start => g.mnt_start (k.world 0) t
  | .emulator, .do_start => g.emulator_start (k.world 0) t
  -- its `do_configure` calls `do_start`
  | .emulator, .do_configure => g.emulator_start (k.world 0) t
  | .emulator, .do_stop => g.emulator_stop (k.world 0) t
  | .rootfs, .do_install => g.rootfs_install k.world t
  | _, _ => t

end Guest

/-- A component that `component_exec` comes to, with what its functions find. -/
structure Round where
  component : Component
  world : Hook → Nat → World

/-- The calls of an action. -/
def hookCalls (DO_ACTION : List Hook) (rounds : List Round) : List Call :=
  rounds.flatMap fun r => DO_ACTION.map fun hook => ⟨r.component, hook, r.world hook⟩

/-- A command, with the components that it comes to; `component_exec` says which these are, and
whether all went well. -/
inductive Job
  | mount (w : World)
  | umount (w : World)
  | start (m : Option World) (rounds : List Round)
  | stop (rounds : List Round) (ok : Bool) (u : Option World)
  | deploy (m : Option World) (DO_ACTION : List Hook) (rounds : List Round)
  | shell (w : World) (rounds : List Round)
  /-- `import` or `export` of the files of a container. -/
  | files (w : World)

namespace Guest

variable (g : Guest)

/-- The calls of `component_exec`, one after the other. -/
def exec (t : Table) (calls : List Call) : Table := calls.foldl g.call t

/-- `[ "${mount_flag}" = "true" ] && { container_mount || exit 1 }`, and then the rest. -/
def mountThen (m : Option World) (rest : Table → Table) (t : Table) : Table :=
  match m with
  | none => rest t
  | some w =>
    let r := g.mount w [] t
    if r.2 then rest r.1 else r.1

/-- `container_start`. -/
def container_start (rounds : List Round) (t : Table) : Table :=
  if (g.at_ t).container_mounted then g.exec t (hookCalls [.do_start] rounds) else t

/-- `container_stop`, and whether its status is 0. -/
def container_stop (rounds : List Round) (ok : Bool) (t : Table) : Table × Bool :=
  if (g.at_ t).container_mounted then (g.exec t (hookCalls [.do_stop] rounds), ok) else (t, false)

/-- `container_shell`, until the shell starts. -/
def container_shell (w : World) (rounds : List Round) (t : Table) : Table :=
  let r := if (g.at_ t).container_mounted then (t, true) else g.mount w [] t
  if r.2 then g.exec r.1 (hookCalls [.do_start] rounds) else r.1

/-- A command of the CLI. -/
def step (t : Table) : Job → Table
  | .mount w => (g.mount w [] t).1
  | .umount w => g.umount w t
  | .start m rounds => g.mountThen m (g.container_start rounds) t
  | .stop rounds ok u =>
    let r := g.container_stop rounds ok t
    match u with
    | some w => if r.2 then g.umount w r.1 else r.1
    | none => r.1
  | .deploy m DO_ACTION rounds => g.mountThen m (g.exec · (hookCalls DO_ACTION rounds)) t
  | .shell w rounds => g.container_shell w rounds t
  | .files w => g.mountForFiles w t

end Guest

/-- The commands for any number of containers, one after the other. -/
def session : Machine Table (Guest × Job) where
  step t job := some (job.1.step t job.2)

end Anx.Cli
