import Mathlib.Data.Char
import Mathlib.Data.List.Lex
import Mathlib.Data.List.Sort
import Anx.Cli.ComponentDepends
import Anx.Lib.Bre
import Anx.Lib.Words

/-!
# Unmounting a container

`container_umount` of cli.sh kills the processes, unmounts the partitions and detaches the
loop device of a container. It finds all three by searching the output of `lsof`, of
`/proc/mounts` and of `losetup -a` for the paths of the container.

- `OpenFile`, `Lsof`, `Mount`, `LoopDevice`: the tables, and the lines they are printed as;
- `Container`: the settings, the tables and what the shell finds in the file system;
- `kill_pids`, `umountParts`, `container_umount`: the functions;
- `mem_pids`: **the column that the processes are taken from is the right one**, in both
  formats of `lsof`;
- `mem_kill_pids`: the processes that are killed.
-/

namespace Anx.Cli

open Anx.Lib

/-! ## Tables -/

/-- The number of a process. -/
def IsPid (text : Text) : Prop := text ≠ [] ∧ ∀ c ∈ text, c.isDigit = true

instance (text : Text) : Decidable (IsPid text) :=
  inferInstanceAs (Decidable (_ ∧ ∀ c ∈ text, _))

/-- An open file of a process. `command` is the name of its command in the long format of
`lsof`, and the path of its executable in the short one. -/
structure OpenFile where
  pid : Text
  command : Text
  columns : Text
  name : Text
  isPid : IsPid pid

/-- What `lsof` lists. The long format has no blanks in the names of commands, and shows
`lsof` itself. -/
structure Lsof where
  long : Bool
  files : List OpenFile
  command_isWord : long = true → ∀ f ∈ files, IsWord f.command
  itself : long = true → ∃ f ∈ files, "lsof".toList <+: f.command

/-- The line of an open file. -/
def OpenFile.line (long : Bool) (f : OpenFile) : Text :=
  if long then f.command ++ ' ' :: (f.pid ++ ' ' :: (f.columns ++ ' ' :: f.name))
  else f.pid ++ '\t' :: (f.command ++ '\t' :: f.name)

namespace Lsof

/-- The first line of the long format. -/
def header : Text := "COMMAND PID USER FD TYPE DEVICE SIZE/OFF NODE NAME".toList

/-- The lines, each with the word in its column of processes. -/
def listed (lsof : Lsof) : List (Text × Text) :=
  (if lsof.long then [(header, "PID".toList)] else []) ++
    lsof.files.map fun f => (f.line lsof.long, f.pid)

/-- The output. -/
def lines (lsof : Lsof) : List Text := lsof.listed.map Prod.fst

/-- The paths that an entry shows to be open: in the short format also the executable. -/
def paths (lsof : Lsof) (f : OpenFile) : List Text :=
  if lsof.long then [f.name] else [f.command, f.name]

end Lsof

/-- The characters that `/proc/mounts` shows as octal numbers. -/
def mangle (path : Text) : Text :=
  path.flatMap fun c =>
    if c = ' ' then ['\\', '0', '4', '0']
    else if c = '\t' then ['\\', '0', '1', '1']
    else if c = '\n' then ['\\', '0', '1', '2']
    else if c = '\\' then ['\\', '1', '3', '4']
    else [c]

/-- An entry of the mount table. -/
structure Mount where
  source : Text
  dir : Text
  options : Text
  source_ne : source ≠ []
  dir_ne : dir ≠ []

/-- The line of a mount. -/
def Mount.line (m : Mount) : Text := mangle m.source ++ ' ' :: (mangle m.dir ++ ' ' :: m.options)

/-- A loop device, with what `losetup -a` prints before and after its file. -/
structure LoopDevice where
  device : Text
  details : Text
  file : Text
  tail : Text
  device_ne : device ≠ []
  device_plain : ∀ c ∈ device, c ≠ ':' ∧ c ≠ '\n'

/-- The line of a loop device. -/
def LoopDevice.line (d : LoopDevice) : Text :=
  d.device ++ ':' :: ' ' :: (d.details ++ d.file ++ d.tail)

/-- The settings of a container and the state of the system. -/
structure Container where
  METHOD : Text
  CHROOT_DIR : Text
  TARGET_PATH : Text
  lsof : Lsof
  mounts : List Mount
  loops : List LoopDevice
  loops_nodup : (loops.map (·.device)).Nodup
  /-- What `cat` prints of a file that exists. -/
  cat : Text → Option Text
  /-- There is an entry of this name in `/proc`. -/
  proc : Text → Bool
  proc_isWord : ∀ pid, proc pid = true → pid = [] ∨ IsWord pid
  /-- Pathname expansion. -/
  glob : Text → List Text
  /-- What `grep` makes of patterns outside of `Anx.Lib.parse`. -/
  other : Text → Text → Bool

/-- How the calls end: every call of `umount`, by its number and path, and `losetup -d`. -/
structure Outcomes where
  umount : Nat → Text → Bool
  losetup : Bool

/-- What has been done. -/
structure Effects where
  killed : List Text
  removed : List Mount
  detached : List LoopDevice

namespace Container

variable (c : Container)

/-- `grep` with a pattern. -/
def grep (pattern line : Text) : Bool := Anx.Lib.grep c.other pattern line

/-! ## Processes -/

/-- The process that `get_pids` takes a name for: a file `${CHROOT_DIR}${pid}` has its
number. -/
def pidOf (pid : Text) : Text :=
  match c.cat (c.CHROOT_DIR ++ pid) with
  | some text => text.rdropWhile (· = '\n')
  | none => pid

/-- `get_pids`. -/
def get_pids (args : List Text) : Text :=
  args.foldl (fun pids pid => if c.proc (c.pidOf pid) then pids ++ ' ' :: c.pidOf pid else pids) []

/-- `kill_pids`: the processes that it kills. `kill` ignores what is no number. -/
def kill_pids (args : List Text) : List Text := (words (c.get_pids args)).filter fun w => IsPid w

/-- The number of lines of `lsof` about itself. -/
def lsof_full : Nat := (c.lsof.lines.map (field 1)).countP (c.grep "^lsof".toList)

/-- The processes that `lsof` shows with the path of the container. -/
def pids : List Text :=
  let found := c.lsof.lines.filter (c.grep (stripSlash c.CHROOT_DIR))
  if c.lsof_full = 0 then uniq (found.map (field 1)) else uniq (found.map (field 2))

/-! ## Mounts -/

/-- `is_mounted`. -/
def is_mounted (mount_point : Text) : Bool :=
  mount_point ≠ [] && c.mounts.any fun m => c.grep (' ' :: stripSlash mount_point ++ [' ']) m.line

/-- `container_mounted`. -/
def container_mounted : Bool :=
  if c.METHOD = "chroot".toList ∨ c.METHOD = "unshare".toList then c.is_mounted c.CHROOT_DIR
  else true

/-- The pattern of a mask. -/
def partPattern (mask : Text) : Text := '^' :: stripSlash c.CHROOT_DIR ++ '/' :: mask ++ ['$']

end Container

/-- The mount table while partitions are unmounted, with what has been removed and the number
of calls of `umount`. -/
structure Unmounting where
  mounts : List Mount
  removed : List Mount
  calls : Nat

/-- The last mount at the path, and the others. -/
def takeMount (path : Text) : List Mount → Option (Mount × List Mount)
  | [] => none
  | m :: ms =>
    match takeMount path ms with
    | some (m', ms') => some (m', m :: ms')
    | none => if m.dir = path then some (m, ms) else none

namespace Unmounting

variable (umounts : Nat → Text → Bool)

/-- `umount` of one path. -/
def umountPath (s : Unmounting) (path : Text) : Unmounting × Bool :=
  match if umounts s.calls path then takeMount path s.mounts else none with
  | some (m, ms) => (⟨ms, s.removed ++ [m], s.calls + 1⟩, true)
  | none => ({ s with calls := s.calls + 1 }, false)

/-- `umount`. -/
def umount (s : Unmounting) : List Text → Unmounting × Bool
  | [] => (s, true)
  | path :: paths =>
    let (s, ok) := s.umountPath umounts path
    let (s, ok') := s.umount paths
    (s, ok && ok')

/-- `for i in 1 2 3; do umount ${part} && break; done`, with so many attempts left. -/
def attempts (s : Unmounting) (args : List Text) : Nat → Unmounting
  | 0 => s
  | n + 1 =>
    let called := s.umount umounts args
    if called.2 then called.1 else called.1.attempts args n

end Unmounting

namespace Container

variable (c : Container) (umounts : Nat → Text → Bool)

/-- The words that the shell makes of a variable. -/
def expand (text : Text) : List Text := (words text).flatMap c.glob

/-- The mount points that match, in reverse order. -/
def parts (mask : Text) (mounts : List Mount) : List Text :=
  ((mounts.map fun m => field 2 m.line).filter (c.grep (c.partPattern mask))).insertionSort
    fun a b => b ≤ a

/-- The loop over the mount points that match. -/
def umountParts (mask : Text) (s : Unmounting) : Unmounting :=
  ((c.parts mask s.mounts).flatMap c.expand).foldl
    (fun s part => s.attempts umounts (c.expand part) 3) s

/-! ## Loop devices -/

/-- `losetup -a | grep "${TARGET_PATH%/}" | awk -F: '{print $1}'`. -/
def loop : Text :=
  ['\n'].intercalate ((c.loops.filter fun d => c.grep (stripSlash c.TARGET_PATH) d.line).map
    fun d => d.line.takeWhile (· ≠ ':'))

/-- `container_umount`. -/
def container_umount (o : Outcomes) : Effects :=
  if c.TARGET_PATH = [] then ⟨[], [], []⟩
  else if c.container_mounted then
    let s := c.umountParts o.umount ['.', '*'] ⟨c.mounts, [], 0⟩
    let s := c.umountParts o.umount ['*'] s
    { killed := c.kill_pids c.pids
      removed := s.removed
      detached := if o.losetup then c.loops.filter (·.device = c.loop) else [] }
  else ⟨[], [], []⟩

end Container

/-! ## The column of processes -/

theorem IsPid.isWord {w : Text} (h : IsPid w) : IsWord w := by
  refine ⟨h.1, fun c hc => ?_⟩
  have hdigit := h.2 c hc
  unfold isBlank
  rw [Bool.eq_false_iff]
  intro hblank
  simp only [Bool.or_eq_true, decide_eq_true_eq] at hblank
  obtain (rfl | rfl) | rfl := hblank <;> cases hdigit

theorem OpenFile.field_short (f : OpenFile) : field 1 (f.line false) = f.pid :=
  field_one f.isPid.isWord rfl _

theorem OpenFile.field_long (f : OpenFile) (h : IsWord f.command) :
    field 2 (f.line true) = f.pid := by
  simp only [OpenFile.line, if_true]
  exact field_two h f.isPid.isWord rfl rfl _

namespace Container

variable {c : Container}

theorem grep_lsof (w : Text) : c.grep "^lsof".toList w = true ↔ "lsof".toList <+: w :=
  grep_start (show Literal "lsof".toList by decide)

/-- In the long format `lsof` finds itself, in the short one there are only numbers. -/
theorem lsof_full_eq_zero : c.lsof_full = 0 ↔ c.lsof.long = false := by
  unfold lsof_full
  rw [List.countP_eq_zero]
  constructor
  · intro h
    by_contra hlong
    rw [Bool.not_eq_false] at hlong
    obtain ⟨f, hf, hprefix⟩ := c.lsof.itself hlong
    refine h f.command ?_ ((grep_lsof _).mpr hprefix)
    have hfield : field 1 (f.line c.lsof.long) = f.command := by
      simp only [OpenFile.line, hlong, if_true]
      exact field_one (c.lsof.command_isWord hlong f hf) rfl _
    rw [← hfield]
    exact List.mem_map_of_mem (List.mem_map_of_mem
      (List.mem_append_right _ (List.mem_map_of_mem hf)))
  · intro hlong w hw
    obtain ⟨line, hline, rfl⟩ := List.mem_map.mp hw
    obtain ⟨entry, hentry, rfl⟩ := List.mem_map.mp hline
    rw [Lsof.listed, hlong] at hentry
    obtain ⟨f, -, rfl⟩ := List.mem_map.mp (by simpa using hentry)
    rw [OpenFile.field_short, grep_lsof]
    intro hprefix
    have hl := f.isPid.2 'l' (List.IsPrefix.subset hprefix (by decide))
    cases hl

/-- The processes of the lines that match. -/
theorem mem_pids {w : Text} : w ∈ c.pids ↔
    ∃ entry ∈ c.lsof.listed, c.grep (stripSlash c.CHROOT_DIR) entry.1 = true ∧ entry.2 = w := by
  -- the column of a line has the process of its entry
  have hcolumn : ∀ n, (∀ entry ∈ c.lsof.listed, field n entry.1 = entry.2) →
      (w ∈ uniq ((c.lsof.lines.filter (c.grep (stripSlash c.CHROOT_DIR))).map (field n)) ↔
        ∃ entry ∈ c.lsof.listed, c.grep (stripSlash c.CHROOT_DIR) entry.1 = true ∧
          entry.2 = w) := by
    intro n hfield
    rw [mem_uniq, List.mem_map]
    constructor
    · rintro ⟨line, hline, rfl⟩
      obtain ⟨hline, hgrep⟩ := List.mem_filter.mp hline
      obtain ⟨entry, hentry, rfl⟩ := List.mem_map.mp hline
      exact ⟨entry, hentry, hgrep, (hfield entry hentry).symm⟩
    · rintro ⟨entry, hentry, hgrep, rfl⟩
      exact ⟨entry.1, List.mem_filter.mpr ⟨List.mem_map_of_mem hentry, hgrep⟩,
        hfield entry hentry⟩
  unfold pids
  cases hlong : c.lsof.long with
  | false =>
    rw [if_pos (lsof_full_eq_zero.mpr hlong)]
    refine hcolumn 1 fun entry hentry => ?_
    rw [Lsof.listed, hlong] at hentry
    obtain ⟨f, -, rfl⟩ := List.mem_map.mp (by simpa using hentry)
    exact f.field_short
  | true =>
    rw [if_neg (by simp [lsof_full_eq_zero, hlong])]
    refine hcolumn 2 fun entry hentry => ?_
    rw [Lsof.listed, hlong, if_pos rfl, List.singleton_append, List.mem_cons] at hentry
    obtain rfl | hentry := hentry
    · rfl
    · obtain ⟨f, hf, rfl⟩ := List.mem_map.mp hentry
      exact f.field_long (c.lsof.command_isWord hlong f hf)

/-! ## Killed processes -/

theorem words_get_pids (args : List Text) :
    words (c.get_pids args) = ((args.map c.pidOf).filter fun pid => c.proc pid && pid ≠ []) := by
  -- the words that are collected already, and those of the rest
  have hfold : ∀ pids, words (args.foldl (fun pids pid => if c.proc (c.pidOf pid)
      then pids ++ ' ' :: c.pidOf pid else pids) pids) =
      words pids ++ ((args.map c.pidOf).filter fun pid => c.proc pid && pid ≠ []) := by
    induction args with
    | nil => simp
    | cons pid args ih =>
      intro pids
      rw [List.foldl_cons, ih, List.map_cons]
      split
      · next hproc =>
        rw [words_append_cons _ _ rfl, List.append_assoc]
        obtain hnil | hword := c.proc_isWord _ hproc
        · rw [hnil]
          simp [words]
        · rw [words_of_isWord hword, List.filter_cons_of_pos (by simp [hproc, hword.1])]
          rfl
      · next hproc => rw [List.filter_cons_of_neg (by simp [hproc])]
  exact hfold []

/-- The processes that are killed. -/
theorem mem_kill_pids {args : List Text} {w : Text} :
    w ∈ c.kill_pids args ↔ ∃ pid ∈ args, c.pidOf pid = w ∧ c.proc w = true ∧ IsPid w := by
  unfold kill_pids
  rw [words_get_pids]
  constructor
  · intro h
    simp only [List.mem_filter, List.mem_map, Bool.and_eq_true, decide_eq_true_eq] at h
    obtain ⟨⟨⟨pid, hpid, rfl⟩, hproc, -⟩, hw⟩ := h
    exact ⟨pid, hpid, rfl, hproc, hw⟩
  · rintro ⟨pid, hpid, rfl, hproc, hw⟩
    simp only [List.mem_filter, List.mem_map, Bool.and_eq_true, decide_eq_true_eq]
    exact ⟨⟨⟨pid, hpid, rfl⟩, hproc, hw.1⟩, hw⟩

end Container

end Anx.Cli
