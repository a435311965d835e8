import Anx.Cli.Jobs
import Anx.Cli.MountFailure
import Anx.Lib.Tables

/-!
# What the commands do to the mount table

All that a command does to the mount table is what the owner of an area may do: its root is
mounted where nothing is, a mount in it only on the root, and the root goes last. The commands
look at the table by `grep` alone, and `mount` and `umount` act where the links lead, so this
is only so for containers whose places are searched for and resolved as what they are; the
conditions for that are named once here and used for all commands.

- `Guest.area`: the places of a container, and the mount points of the system that all share;
- `Exact`, `Fits`, `Tidy`: the searches find what they look for, the places lie where they
  should, and no links lead away from them;
- `container_mounted_iff`: what `container_mounted` says then;
- `mount_goes`, `exec_goes`, `umount_goes`: **mounting, the components and unmounting** are such
  changes; `umount_perm`: what is left is what `container_umount` has not removed;
- `step_goes`: **every command** is.
-/

namespace Anx.Cli

open Anx.Lib

/-- The mount points of the system that are mounted for a container. -/
def hostDirs : List Text := [shmCall.target, ptsCall.target, binfmtCall.target]

/-- `umount` fails where something is mounted below: the kernel says that the mount is busy.
Nothing in the scripts sees to it, so the outcomes that are given to a run have to say it. -/
def Container.Busy (c : Container) (umounts : Nat → Text → Bool) : Prop :=
  ∀ call ∈ c.calls umounts, umounts call.1.calls call.2 = true →
    ∀ m ∈ call.1.mounts, ¬ StrictlyBelow call.2 m.dir

/-- The function mounts something in the container. -/
def Call.Mounts (k : Call) : Prop :=
  k.component = .mnt ∧ k.hook = .do_start ∨
    k.component = .emulator ∧ (k.hook = .do_start ∨ k.hook = .do_configure)

/-- All that the commands of a command find: each of them runs in a world of its own, with its
own outcomes, and `P` is asked of all of these. -/
def Job.Worlds (P : World → Prop) : Job → Prop
  | .mount w | .umount w | .files w => P w
  | .start m rounds => (∀ w ∈ m, P w) ∧ ∀ r ∈ rounds, ∀ hook n, P (r.world hook n)
  | .stop rounds _ u => (∀ w ∈ u, P w) ∧ ∀ r ∈ rounds, ∀ hook n, P (r.world hook n)
  | .deploy m _ rounds => (∀ w ∈ m, P w) ∧ ∀ r ∈ rounds, ∀ hook n, P (r.world hook n)
  | .shell w rounds => P w ∧ ∀ r ∈ rounds, ∀ hook n, P (r.world hook n)

namespace Guest

variable (g : Guest)

/-- The mount points that `is_mounted` is asked for. Every mount of a container but the one at
`TARGET_PATH` is made at one of these, after `is_mounted` has said that nothing is there. -/
def places : List Text :=
  [g.container.CHROOT_DIR, g.container.procCall.target, g.container.sysCall.target] ++
    ["/dev", "/dev/shm", "/dev/pts"].map (fun dir => (g.container.bindCall dir).target) ++
    hostDirs ++ g.pairs.map g.pairTarget ++ if g.EMULATOR = [] then [] else [g.emulatorTarget]

/-- The places of the container, and others at which it may do as it likes: its root, what lies
below the root, the mount points of the system, which containers share and never unmount, and
`free`. An area is `strict` when the root is there as long as anything is mounted inside. -/
def areaWith (strict : Prop) (free : Text → Prop) : Area Text where
  strict := strict
  root := g.container.CHROOT_DIR
  inside := StrictlyBelow g.container.CHROOT_DIR
  shared := (· ∈ hostDirs)
  free := free

/-- The area with `TARGET_PATH` free, where it lies outside: `rootfs_make` mounts a file system
in memory there without a look at the table. -/
def area (strict : Prop) : Area Text := g.areaWith strict fun path =>
  path = g.container.TARGET_PATH ∧ ¬ AtOrBelow g.container.CHROOT_DIR path ∧ path ∉ hostDirs

/-- The places lie where they should: the mount points of the system elsewhere, and all others
in the container. The pairs of `MOUNTS` are the user's, so nothing in the code keeps a target
as `/../dev` in the container. -/
structure Fits : Prop where
  root : Normal g.container.CHROOT_DIR
  hosts : ∀ path ∈ hostDirs, ¬ AtOrBelow g.container.CHROOT_DIR path
  pairs : ∀ pair ∈ g.pairs, StrictlyBelow g.container.CHROOT_DIR (g.pairTarget pair)

/-- Among such mounts the searches find exactly what they look for.

`U` says which mounts there are at any time of a run; the commands search the whole table, so
the mounts of others count too. Each field is one search: `is_mounted` for a place, the
pattern of the first pass of `container_umount`, and that of the second. Dots and brackets in
`CHROOT_DIR` are what breaks them. -/
structure Exact (U : Mount → Prop) : Prop where
  normal : ∀ m, U m → Normal m.dir
  -- the loops over the mount points read them as they are
  asIs : ∀ m, U m → mangle m.dir = m.dir ∧ g.container.expand m.dir = [m.dir]
  finds : ∀ path ∈ g.places, ∀ m, U m →
    (g.container.grep (' ' :: stripSlash path ++ [' ']) m.line = true ↔ m.dir = path)
  below : ∀ m, U m → (g.container.grep (g.container.partPattern ['.', '*']) m.dir = true ↔
    StrictlyBelow g.container.CHROOT_DIR m.dir)
  root : ∀ m, U m → (g.container.grep (g.container.partPattern ['*']) m.dir = true ↔
    m.dir = g.container.CHROOT_DIR)

/-- No links lead away from the places, and their mounts are such mounts. A file system in
memory is mounted elsewhere. It is what makes the mount that `mount` adds the one that was
asked for, since the kernel enters it where the links lead. -/
structure Tidy (U : Mount → Prop) (w : World) : Prop where
  straight : ∀ path ∈ g.places, w.sys.resolve path = path
  shown : ∀ call, call.target ∈ g.places → U (w.sys.entry call)
  ram : w.sys.TARGET_TYPE = "ram".toList →
    (w.sys.resolve g.container.TARGET_PATH = g.container.TARGET_PATH ∧
      (g.area True).free g.container.TARGET_PATH) ∧
    ∀ call, call.target = g.container.TARGET_PATH → U (w.sys.entry call)

/-- The root is mounted, if the container is one that has to be mounted. -/
def Rooted (t : Table) : Prop :=
  g.container.Mountable → g.container.CHROOT_DIR ∈ t.map (·.dir)

/-- A table of such mounts has become another one, by changes that the owner of the area may
make. It is the invariant of all loops below: reflexive, transitive, and what every command
does (`step_goes`). -/
structure Goes (strict : Prop) (U : Mount → Prop) (t t' : Table) : Prop where
  changes : Changes (·.dir) (g.area strict) t t'
  shown : ∀ m ∈ t', U m

/-- The calls of the components. -/
def components : Machine Table Call where
  step t k := some (g.call t k)

/-- What a command needs: components mount something only while the root is mounted, and
`umount` fails where something is mounted below.

Only `deploy` runs components without a look at the root: with `-i` and no mounting before it,
or after a component that has unmounted it. `mount`, `start` and `shell` see to it themselves,
and `stop` mounts nothing. -/
def Careful (t : Table) : Job → Prop
  | .mount _ | .start _ _ | .shell _ _ | .files _ | .stop _ _ none => True
  | .umount w => (g.at_ t).Busy w.umounts
  | .stop rounds ok (some w) => (g.at_ (g.container_stop rounds ok t).1).Busy w.umounts
  | .deploy m DO_ACTION rounds =>
    g.components.Guarded (fun t k => k.Mounts → g.Rooted t)
      (m.elim t fun w => (g.mount w [] t).1) (hookCalls DO_ACTION rounds)

/-- All that is assumed of a command. `strict` is whether the root has to be there as long as
anything is mounted inside; without it a command need not be careful. -/
structure Allowed (strict : Prop) (U : Mount → Prop) (t : Table) (job : Job) : Prop where
  fits : g.Fits
  exact : g.Exact U
  tidy : job.Worlds (g.Tidy U)
  careful : strict → g.Careful t job

end Guest

variable {g : Guest} {strict : Prop} {U : Mount → Prop} {w : World} {t t' t'' : Table}
  {s : Mounting}

/-! ## Places -/

theorem atOrBelow_self (path : Text) : AtOrBelow path path := ⟨Iff.rfl, List.prefix_rfl⟩

/-- Names after a slash lie below. -/
theorem strictlyBelow_append {dir rest : Text} (hdir : dir ≠ []) (hslash : rest.head? = some '/')
    (hrest : components rest ≠ []) : StrictlyBelow dir (dir ++ rest) := by
  obtain ⟨names, rfl⟩ := List.head?_eq_some_iff.mp hslash
  have hparts : ∀ path, components (path ++ '/' :: names) = components path ++ components names :=
    fun path => pieces_append_cons _ _ (by rfl)
  have hself : components ('/' :: names) = components names := hparts []
  rw [hself] at hrest
  refine ⟨⟨by rw [List.head?_append_of_ne_nil _ hdir], ?_⟩, fun heq => hrest ?_⟩
  · rw [hparts]
    exact List.prefix_append _ _
  · rw [hparts] at heq
    exact List.self_eq_append_right.mp heq

/-- The mount that is taken away. -/
theorem takeMount_split {path : Text} {ms ms' : List Mount} {m : Mount}
    (h : takeMount path ms = some (m, ms')) :
    ∃ l r, ms = l ++ m :: r ∧ ms' = l ++ r ∧ m.dir = path := by
  induction ms generalizing m ms' with
  | nil => cases h
  | cons m₀ ms ih =>
    rw [takeMount] at h
    split at h
    · next hrest =>
      cases h
      obtain ⟨l, r, hsplit, hms', hdir⟩ := ih hrest
      exact ⟨m₀ :: l, r, by rw [hsplit, List.cons_append], by rw [hms', List.cons_append], hdir⟩
    · split at h
      · next hdir =>
        cases h
        exact ⟨[], ms, rfl, rfl, hdir⟩
      · cases h

namespace Guest

theorem Fits.root_ne (h : g.Fits) : g.container.CHROOT_DIR ≠ [] := by
  rw [h.root]
  exact List.cons_ne_nil _ _

theorem Fits.sound (h : g.Fits) : (g.area strict).Sound where
  root := ⟨not_strictlyBelow_self _, fun hmem => h.hosts _ hmem (atOrBelow_self _),
    fun hfree => hfree.2.1 (atOrBelow_self _)⟩
  inside := fun path hpath => ⟨fun hmem => h.hosts path hmem hpath.1,
    fun hfree => hfree.2.1 hpath.1⟩

/-- What is mounted in the container. -/
theorem Fits.inside (h : g.Fits) {rest : Text} (hslash : rest.head? = some '/')
    (hrest : Lib.components rest ≠ []) :
    StrictlyBelow g.container.CHROOT_DIR (g.container.CHROOT_DIR ++ rest) :=
  strictlyBelow_append h.root_ne hslash hrest

theorem Fits.emulatorTarget (h : g.Fits) :
    StrictlyBelow g.container.CHROOT_DIR g.emulatorTarget := by
  have hrest : Lib.components ("/usr".toList ++ '/' :: ("bin/".toList ++ g.EMULATOR)) =
      Lib.components "/usr".toList ++ Lib.components ("bin/".toList ++ g.EMULATOR) :=
    pieces_append_cons _ _ (by rfl)
  rw [Guest.emulatorTarget, List.append_assoc]
  refine h.inside rfl (hrest ▸ ?_)
  exact List.append_ne_nil_of_left_ne_nil (by decide) _

/-- A path at or below the root is the root, or lies inside. -/
theorem Fits.eq_or_inside (h : g.Fits) {path : Text} (hnormal : Normal path)
    (hbelow : AtOrBelow g.container.CHROOT_DIR path) :
    path = g.container.CHROOT_DIR ∨ StrictlyBelow g.container.CHROOT_DIR path := by
  by_cases heq : Lib.components g.container.CHROOT_DIR = Lib.components path
  · refine .inl ?_
    rw [hnormal, ← heq, ← h.root]
  · exact .inr ⟨hbelow, heq⟩

/-- Places are no empty paths. -/
theorem Fits.ne_nil (h : g.Fits) {path : Text} (hpath : path ∈ g.places) : path ≠ [] := by
  have hroot : ∀ rest, g.container.CHROOT_DIR ++ rest ≠ [] := fun rest =>
    List.append_ne_nil_of_left_ne_nil h.root_ne rest
  simp only [places, List.mem_append, List.mem_cons, List.mem_map, List.not_mem_nil,
    or_false] at hpath
  rcases hpath with ((((rfl | rfl | rfl) | ⟨dir, -, rfl⟩) | hhost) | ⟨pair, -, rfl⟩) | hemulator
  · exact h.root_ne
  · exact hroot _
  · exact hroot _
  · exact hroot _
  · simp only [hostDirs, List.mem_cons, List.not_mem_nil, or_false] at hhost
    rcases hhost with rfl | rfl | rfl <;> exact List.cons_ne_nil _ _
  · exact hroot _
  · split at hemulator
    · cases hemulator
    · rw [List.mem_singleton.mp hemulator]
      exact List.append_ne_nil_of_left_ne_nil (hroot _) _

/-! ## What the searches find -/

theorem root_mem_places (g : Guest) : g.container.CHROOT_DIR ∈ g.places := List.mem_cons_self

theorem emulatorTarget_mem_places (h : g.EMULATOR ≠ []) : g.emulatorTarget ∈ g.places := by
  rw [places, if_neg h]
  exact List.mem_append_right _ (List.mem_singleton_self _)

theorem pairTarget_mem_places {pair : Text × Text} (h : pair ∈ g.pairs) :
    g.pairTarget pair ∈ g.places :=
  List.mem_append_left _ (List.mem_append_right _ (List.mem_map_of_mem h))

section

variable (hfits : g.Fits) (hexact : g.Exact U)

include hfits hexact

/-- **`is_mounted` is right** about the places. -/
theorem isMounted_iff {path : Text} (hpath : path ∈ g.places) (hU : ∀ m ∈ s.mounts, U m) :
    g.container.isMounted s path = true ↔ path ∈ s.mounts.map (·.dir) := by
  have hne : decide (path ≠ []) = true := decide_eq_true (hfits.ne_nil hpath)
  rw [Container.isMounted, Container.is_mounted, hne, Bool.true_and, List.any_eq_true,
    List.mem_map]
  exact exists_congr fun m => and_congr_right fun hm => hexact.finds path hpath m (hU m hm)

/-- **`container_mounted`** says whether the root is mounted, of a container that has to be. -/
theorem container_mounted_iff (hU : ∀ m ∈ t, U m) :
    (g.at_ t).container_mounted = true ↔ g.Rooted t := by
  have hroot : (g.at_ t).is_mounted g.container.CHROOT_DIR = true ↔
      g.container.CHROOT_DIR ∈ t.map (·.dir) :=
    isMounted_iff (s := ⟨t, [], []⟩) hfits hexact (root_mem_places g) hU
  unfold Container.container_mounted Rooted
  split
  · next hmethod => exact hroot.trans ⟨fun h _ => h, fun h => h hmethod⟩
  · next hmethod => exact iff_of_true rfl fun h => absurd h hmethod

end

/-! ## Mounts -/

theorem Goes.refl (hU : ∀ m ∈ t, U m) : g.Goes strict U t t := ⟨.refl, hU⟩

theorem Goes.trans (h : g.Goes strict U t t') (h' : g.Goes strict U t' t'') :
    g.Goes strict U t t'' :=
  ⟨Relation.ReflTransGen.trans h.changes h'.changes, h'.shown⟩

/-- A mount point at which the container may mount something. -/
def MayMount (g : Guest) (strict : Prop) (t : Table) (path : Text) : Prop :=
  path = g.container.CHROOT_DIR ∨ StrictlyBelow g.container.CHROOT_DIR path ∧
    (strict → g.container.CHROOT_DIR ∈ t.map (·.dir)) ∨ path ∈ hostDirs

theorem change_of_mayMount {m : Mount} (hmay : g.MayMount strict t m.dir)
    (hnew : m.dir ∉ t.map (·.dir)) : Change (·.dir) (g.area strict) t (t ++ [m]) := by
  rcases hmay with hroot | ⟨hinside, hroot⟩ | hhost
  · exact .root m hroot hnew
  · exact .inside m hinside hroot hnew
  · exact .shared m hhost hnew

section

variable (hfits : g.Fits) (hexact : g.Exact U) (htidy : g.Tidy U w) {call : MountCall}
  (hplace : call.target ∈ g.places)

theorem run_mount_cases (sys : MountSystem) (succeeds : Nat → Command → Bool) (s : Mounting)
    (call : MountCall) :
    (s.run sys succeeds (.mount call)).1.mounts = s.mounts ∨
      (s.run sys succeeds (.mount call)).1.mounts = s.mounts ++ [sys.entry call] := by
  cases h : succeeds s.ran.length (.mount call) with
  | true => exact .inr (Mounting.run_mount_mounts h)
  | false => exact .inl (by simp [Mounting.run, h, MountSystem.added])

include htidy hplace

theorem entry_dir_eq : (w.sys.entry call).dir = call.target :=
  (w.sys.entry_dir call).trans (htidy.straight _ hplace)

/-- A mount where nothing is mounted. -/
theorem run_mount_goes (hmay : g.MayMount strict s.mounts call.target)
    (hnew : call.target ∉ s.mounts.map (·.dir)) (hU : ∀ m ∈ s.mounts, U m) :
    g.Goes strict U s.mounts (s.run w.sys w.succeeds (.mount call)).1.mounts := by
  have hdir := entry_dir_eq htidy hplace
  rcases run_mount_cases w.sys w.succeeds s call with hsame | hadded
  · rw [hsame]
    exact .refl hU
  · rw [hadded]
    refine ⟨.single (change_of_mayMount (hdir ▸ hmay) (hdir ▸ hnew)), fun m hm => ?_⟩
    rcases List.mem_append.mp hm with hm | hm
    · exact hU m hm
    · rw [List.mem_singleton.mp hm]
      exact htidy.shown call hplace

include hfits hexact

/-- **A guarded mount.** `made` is the state after what comes between the test and the mount. -/
theorem guarded_mount_goes {made : Mounting} (hmade : made.mounts = s.mounts)
    (hmay : g.MayMount strict s.mounts call.target) (hU : ∀ m ∈ s.mounts, U m)
    (hnot : g.container.isMounted s call.target ≠ true) :
    g.Goes strict U s.mounts (made.run w.sys w.succeeds (.mount call)).1.mounts := by
  have hnew := mt (isMounted_iff hfits hexact hplace hU).mpr hnot
  rw [← hmade] at hmay hU hnew ⊢
  exact run_mount_goes htidy hplace hmay hnew hU

theorem mountHost_goes (hmay : g.MayMount strict s.mounts call.target) (hU : ∀ m ∈ s.mounts, U m) :
    g.Goes strict U s.mounts (g.container.mountHost w.sys w.succeeds s call).mounts := by
  unfold Container.mountHost
  split
  · exact .refl hU
  · next hnot =>
    exact guarded_mount_goes hfits hexact htidy hplace (Mounting.makeDir_mounts s _) hmay hU hnot

theorem mountTarget_goes (hmay : g.MayMount strict s.mounts call.target)
    (hU : ∀ m ∈ s.mounts, U m) :
    g.Goes strict U s.mounts (g.container.mountTarget w.sys w.succeeds s call).mounts := by
  unfold Container.mountTarget
  split
  · exact .refl hU
  · next hnot => exact guarded_mount_goes hfits hexact htidy hplace rfl hmay hU hnot

theorem mountDir_goes (hmay : g.MayMount strict s.mounts call.target) (hU : ∀ m ∈ s.mounts, U m) :
    g.Goes strict U s.mounts (g.container.mountDir w.sys w.succeeds s call).mounts := by
  unfold Container.mountDir
  split
  · exact .refl hU
  · next hnot =>
    exact guarded_mount_goes hfits hexact htidy hplace (Mounting.makeDir_mounts s _) hmay hU hnot

end

/-! ## Parts -/

theorem mayMount_root (t : Table) : g.MayMount strict t g.container.CHROOT_DIR := .inl rfl

theorem mayMount_inside (hfits : g.Fits) {rest : Text} (hslash : rest.head? = some '/')
    (hrest : Lib.components rest ≠ [])
    (hroot : strict → g.container.CHROOT_DIR ∈ t.map (·.dir)) :
    g.MayMount strict t (g.container.CHROOT_DIR ++ rest) :=
  .inr (.inl ⟨hfits.inside hslash hrest, hroot⟩)

theorem mayMount_host {t : Table} {path : Text} (h : path ∈ hostDirs) :
    g.MayMount strict t path :=
  .inr (.inr h)

theorem proc_mem_places (g : Guest) : g.container.procCall.target ∈ g.places := by
  simp [places]

theorem sys_mem_places (g : Guest) : g.container.sysCall.target ∈ g.places := by
  simp [places]

theorem bind_mem_places (g : Guest) {dir : String} (h : dir ∈ ["/dev", "/dev/shm", "/dev/pts"]) :
    (g.container.bindCall dir).target ∈ g.places := by
  refine List.mem_append_left _ (List.mem_append_left _ (List.mem_append_left _ ?_))
  exact List.mem_append_right _ (List.mem_map_of_mem h)

theorem host_mem_places (g : Guest) {path : Text} (h : path ∈ hostDirs) : path ∈ g.places :=
  List.mem_append_left _ (List.mem_append_left _ (List.mem_append_right _ h))

/-- The table that a container starts with does not matter for its parts. -/
theorem mountParts_at (g : Guest) (t : Table) (sys : MountSystem)
    (succeeds : Nat → Command → Bool) (s : Mounting) (parts : List Part) :
    (g.at_ t).mountParts sys succeeds s parts = g.container.mountParts sys succeeds s parts := by
  induction parts generalizing s with
  | nil => rfl
  | cons part parts ih =>
    have hpart : (g.at_ t).mount_part sys succeeds s part =
        g.container.mount_part sys succeeds s part := by cases part <;> rfl
    rw [Container.mountParts, Container.mountParts, hpart, ih]

/-- Commands that mount nothing. -/
theorem Goes.of_mounts_eq {s' : Mounting} (h : s'.mounts = s.mounts) (hU : ∀ m ∈ s.mounts, U m) :
    g.Goes strict U s.mounts s'.mounts := by
  rw [h]
  exact .refl hU

section

variable (hfits : g.Fits) (hexact : g.Exact U) (htidy : g.Tidy U w)

include hfits hexact htidy

/-- A part in the container. -/
theorem mount_part_goes {part : Part} (hpart : part ≠ .root)
    (hroot : strict → g.container.CHROOT_DIR ∈ s.mounts.map (·.dir))
    (hU : ∀ m ∈ s.mounts, U m) :
    g.Goes strict U s.mounts (g.container.mount_part w.sys w.succeeds s part).1.mounts := by
  -- a mount of the system, and then its directory in the container
  have hbind : ∀ (call : MountCall) (dir : String), call.target ∈ hostDirs →
      dir ∈ ["/dev", "/dev/shm", "/dev/pts"] → dir.toList.head? = some '/' →
      Lib.components dir.toList ≠ [] → ∀ s' : Mounting, s'.mounts = s.mounts →
      g.Goes strict U s.mounts (g.container.mountTarget w.sys w.succeeds
        (g.container.mountHost w.sys w.succeeds s' call) (g.container.bindCall dir)).mounts := by
    intro call dir hhost hdir hslash hrest s' hs'
    rw [← hs'] at hroot ⊢
    replace hU : ∀ m ∈ s'.mounts, U m := hs' ▸ hU
    have hgoes : g.Goes strict U s'.mounts
        (g.container.mountHost w.sys w.succeeds s' call).mounts :=
      mountHost_goes hfits hexact htidy (host_mem_places g hhost) (mayMount_host hhost) hU
    refine hgoes.trans (mountTarget_goes hfits hexact htidy (bind_mem_places g hdir)
      (mayMount_inside hfits hslash hrest ?_) hgoes.shown)
    exact fun h =>
      List.map_subset _ (Container.mountHost_extends s' call).mounts_subset (hroot h)
  cases part with
  | root => exact absurd rfl hpart
  | proc =>
    exact mountDir_goes (s := s.msg "/proc ... ") hfits hexact htidy (proc_mem_places g)
      (mayMount_inside hfits rfl (by decide) hroot) hU
  | sys =>
    exact mountDir_goes (s := s.msg "/sys ... ") hfits hexact htidy (sys_mem_places g)
      (mayMount_inside hfits rfl (by decide) hroot) hU
  | dev =>
    exact mountDir_goes (s := s.msg "/dev ... ") hfits hexact htidy (bind_mem_places g (by decide))
      (mayMount_inside hfits rfl (by decide) hroot) hU
  | shm => exact hbind shmCall "/dev/shm" (by decide) (by decide) rfl (by decide) _ rfl
  | pts => exact hbind ptsCall "/dev/pts" (by decide) (by decide) rfl (by decide) _ rfl
  | fd =>
    refine .of_mounts_eq ?_ hU
    rw [Container.mount_part]
    split
    · rfl
    · simp
  | tty =>
    refine .of_mounts_eq ?_ hU
    rw [Container.mount_part]
    split
    · rfl
    · simp
  | tun =>
    refine .of_mounts_eq ?_ hU
    rw [Container.mount_part]
    split
    · rfl
    · simp
  | binfmt_misc =>
    rw [Container.mount_part]
    split
    · split
      · exact .refl hU
      · next hnot =>
        have hsaid : (s.msg "/proc/sys/fs/binfmt_misc ... ").mounts = s.mounts := rfl
        exact guarded_mount_goes hfits hexact htidy (host_mem_places g (by decide)) hsaid
          (mayMount_host (by decide)) hU hnot
    · exact .refl hU

/-- The root, which is mounted when all went well. -/
theorem mount_root_goes (hU : ∀ m ∈ s.mounts, U m) :
    let r := g.container.mount_part w.sys w.succeeds s .root
    g.Goes strict U s.mounts r.1.mounts ∧
      (r.2 = true → g.container.CHROOT_DIR ∈ r.1.mounts.map (·.dir)) := by
  dsimp only
  have hplace : (g.container.rootCall w.sys).target ∈ g.places := root_mem_places g
  constructor
  · rw [Container.mount_part]
    split
    · exact .refl hU
    · next hnot =>
      have hmount : g.Goes strict U s.mounts (((s.msg "/ ... ").makeDir w.sys w.succeeds
          g.container.CHROOT_DIR).run w.sys w.succeeds
            (.mount (g.container.rootCall w.sys))).1.mounts :=
        guarded_mount_goes hfits hexact htidy hplace (Mounting.makeDir_mounts _ _)
          (mayMount_root _) hU hnot
      rw [Mounting.is_ok_mounts, Container.mountRoot]
      split
      · rw [Mounting.run_remount_mounts]
        exact hmount
      · exact hmount
  · intro hstatus
    rcases g.container.mount_root_cases w.sys w.succeeds s with
      ⟨-, hfound | hmem⟩ | ⟨hfailed, -⟩ | ⟨hfailed, -⟩
    · exact List.map_subset _ (Container.mount_part_extends s .root).mounts_subset
        ((isMounted_iff hfits hexact (root_mem_places g) hU).mp hfound)
    · exact List.mem_map.mpr ⟨_, hmem, entry_dir_eq htidy hplace⟩
    · exact absurd (hstatus.symm.trans hfailed) Bool.noConfusion
    · exact absurd (hstatus.symm.trans hfailed) Bool.noConfusion

theorem mountParts_goes {parts : List Part} (hparts : Part.root ∉ parts)
    (hroot : strict → g.container.CHROOT_DIR ∈ s.mounts.map (·.dir))
    (hU : ∀ m ∈ s.mounts, U m) :
    g.Goes strict U s.mounts (g.container.mountParts w.sys w.succeeds s parts).1.mounts := by
  induction parts generalizing s with
  | nil => exact .refl hU
  | cons part parts ih =>
    rw [List.mem_cons, not_or] at hparts
    have hgoes := mount_part_goes hfits hexact htidy (Ne.symm hparts.1) hroot hU
    rw [Container.mountParts]
    split
    · refine hgoes.trans (ih hparts.2 ?_ hgoes.shown)
      exact fun h =>
        List.map_subset _ (Container.mount_part_extends s part).mounts_subset (hroot h)
    · exact hgoes

/-- **Mounting a container**, all of it or its root, after which the root is mounted if all
went well. -/
theorem mount_goes {parts : List Part} (hparts : parts = [] ∨ parts = [.root])
    (hU : ∀ m ∈ t, U m) :
    g.Goes strict U t (g.mount w parts t).1 ∧
      ((g.mount w parts t).2 = true → g.Rooted (g.mount w parts t).1) := by
  have hwanted : ∃ rest, Container.wanted parts = .root :: rest ∧ Part.root ∉ rest := by
    rcases hparts with rfl | rfl
    · exact ⟨Container.allParts.tail, rfl, by decide⟩
    · exact ⟨[], rfl, by decide⟩
  obtain ⟨rest, hwanted, hrest⟩ := hwanted
  unfold mount Container.container_mount
  by_cases hmountable : (g.at_ t).Mountable
  · by_cases hpath : (g.at_ t).TARGET_PATH = []
    · rw [if_pos hmountable, if_pos hpath]
      exact ⟨.refl hU, fun h => absurd h Bool.false_ne_true⟩
    · rw [if_pos hmountable, if_neg hpath, hwanted, mountParts_at, Container.mountParts]
      have hU' : ∀ m ∈ ((g.at_ t).mountStart w.sys).mounts, U m := hU
      obtain ⟨hgoes, hrooted⟩ :=
        (mount_root_goes hfits hexact htidy hU' : g.Goes strict U _ _ ∧ _)
      dsimp only
      split
      · next hstatus =>
        have hroot := hrooted hstatus
        have hrestGoes := mountParts_goes hfits hexact htidy hrest (fun (_ : strict) => hroot)
          hgoes.shown
        refine ⟨hgoes.trans hrestGoes, fun _ _ => ?_⟩
        exact List.map_subset _ (Container.mountParts_extends _ rest).mounts_subset hroot
      · exact ⟨hgoes, fun h => absurd h Bool.false_ne_true⟩
  · rw [if_neg hmountable]
    exact ⟨.refl hU, fun _ h => absurd h hmountable⟩

end

/-! ## Components -/

theorem Rooted.mono (h : g.Rooted t) (hsub : t ⊆ t') : g.Rooted t' := fun hmountable =>
  List.map_subset _ hsub (h hmountable)

/-- **A pair** is mounted where nothing is, or the table stays. -/
theorem mountPair_cases (g : Guest) (w : World) (s : Mounting) (pair : Text × Text) :
    (g.mountPair w s pair).mounts = s.mounts ∨
      g.container.isMounted s (g.pairTarget pair) ≠ true ∧ ∃ (made : Mounting) (options : String),
        made.mounts = s.mounts ∧ (g.mountPair w s pair).mounts =
          (made.run w.sys w.succeeds (.mount (g.pairCall options pair))).1.mounts := by
  rw [mountPair]
  dsimp only
  split
  · exact .inl rfl
  · next hnot =>
    -- the directories that are made
    generalize hmade : (if w.sys.isThere pair.1 = true then
      (({ s with out := s.out ++ pair.1 ++ " ... ".toList } : Mounting).makeDir w.sys w.succeeds
        (g.pairTarget pair), false)
      else (({ s with out := s.out ++ pair.1 ++ " ... ".toList } : Mounting).makeDir w.sys
        w.succeeds (g.pairTarget pair)).run w.sys w.succeeds (.mkdir pair.1)) = made
    have hmounts : made.1.mounts = s.mounts := by
      subst hmade
      split
      · exact Mounting.makeDir_mounts _ _
      · rw [Mounting.run_mkdir_mounts, Mounting.makeDir_mounts]
    split
    · exact .inr ⟨hnot, made.1, "bind", hmounts, rfl⟩
    · split
      · exact .inr ⟨hnot, made.1, "rw,relatime", hmounts, rfl⟩
      · exact .inl hmounts

section

variable (hfits : g.Fits) (hexact : g.Exact U) (htidy : g.Tidy U w)

include hfits hexact htidy

/-- **core/mnt**. -/
theorem mnt_start_goes (hroot : strict → g.Rooted t) (hU : ∀ m ∈ t, U m) :
    g.Goes strict U t (g.mnt_start w t) ∧ t ⊆ g.mnt_start w t := by
  unfold mnt_start
  -- without `chroot` there are no pairs
  have hpairs : ∀ pair ∈ g.pairs, g.container.Mountable := by
    intro pair hpair
    have hrounds := List.mem_of_mem_filter hpair
    rw [Conf.Cli.rounds] at hrounds
    split at hrounds
    · next hmethod => exact .inl hmethod.1
    · cases hrounds
  have hfold : ∀ pairs : List (Text × Text), pairs ⊆ g.pairs → ∀ s : Mounting,
      (strict → g.Rooted s.mounts) → (∀ m ∈ s.mounts, U m) →
      g.Goes strict U s.mounts (pairs.foldl (g.mountPair w) s).mounts ∧
        s.mounts ⊆ (pairs.foldl (g.mountPair w) s).mounts := by
    intro pairs hsub
    induction pairs with
    | nil => exact fun s _ hU => ⟨.refl hU, List.Subset.refl _⟩
    | cons pair pairs ih =>
      intro s hroot hU
      obtain ⟨hpair, hrest⟩ := List.cons_subset.mp hsub
      rw [List.foldl_cons]
      have hone : g.Goes strict U s.mounts (g.mountPair w s pair).mounts ∧
          s.mounts ⊆ (g.mountPair w s pair).mounts := by
        rcases g.mountPair_cases w s pair with hsame | ⟨hnot, made, options, hmade, hmounts⟩
        · exact ⟨.of_mounts_eq hsame hU, hsame ▸ List.Subset.refl _⟩
        · have hmay : g.MayMount strict s.mounts (g.pairTarget pair) :=
            .inr (.inl ⟨hfits.pairs pair hpair, fun h => hroot h (hpairs pair hpair)⟩)
          have hplace : (g.pairCall options pair).target ∈ g.places := pairTarget_mem_places hpair
          rw [hmounts]
          refine ⟨guarded_mount_goes hfits hexact htidy hplace hmade hmay hU hnot, ?_⟩
          rw [← hmade]
          exact (Mounting.run_extends made _).mounts_subset
      obtain ⟨hgoes, hsubset⟩ := hone
      obtain ⟨hgoes', hsubset'⟩ := ih hrest _ (fun h => (hroot h).mono hsubset) hgoes.shown
      exact ⟨hgoes.trans hgoes', List.Subset.trans hsubset hsubset'⟩
  exact hfold g.pairs (List.Subset.refl _) ⟨t, [], []⟩ hroot hU

/-- **core/emulator**. -/
theorem emulator_start_goes (hroot : strict → g.Rooted t) (hU : ∀ m ∈ t, U m) :
    g.Goes strict U t (g.emulator_start w t) ∧ t ⊆ g.emulator_start w t := by
  unfold emulator_start
  split
  · next hemulates =>
    rw [emulates, Bool.and_eq_true, Bool.and_eq_true] at hemulates
    have hmethod : g.container.Mountable := .inl (of_decide_eq_true hemulates.1.2)
    dsimp only
    generalize hmade : (if w.sys.isThere _ = true then (⟨t, [], []⟩ : Mounting) else _) = made
    have hmounts : made.mounts = t := by
      subst hmade
      split
      · rfl
      · exact Mounting.run_mkdir_mounts _ _
    rw [← hmounts] at hroot ⊢
    replace hU : ∀ m ∈ made.mounts, U m := hmounts ▸ hU
    split
    · exact ⟨.refl hU, List.Subset.refl _⟩
    · next hnot =>
      exact ⟨guarded_mount_goes hfits hexact htidy
          (emulatorTarget_mem_places (of_decide_eq_true hemulates.1.1)) rfl
          (.inr (.inl ⟨hfits.emulatorTarget, fun h => hroot h hmethod⟩)) hU hnot,
        (Mounting.run_extends made _).mounts_subset⟩
  · exact ⟨.refl hU, List.Subset.refl _⟩

end

/-- What one call of `umount` does. -/
theorem umountPath_cases (umounts : Nat → Text → Bool) (s : Unmounting) (path : Text) :
    (s.umountPath umounts path).1.mounts = s.mounts ∨
      umounts s.calls path = true ∧ ∃ l m r, s.mounts = l ++ m :: r ∧ m.dir = path ∧
        (s.umountPath umounts path).1.mounts = l ++ r := by
  rw [Unmounting.umountPath]
  split
  · next m ms h =>
    split at h
    · next hcall =>
      obtain ⟨l, r, hsplit, hrest, hdir⟩ := takeMount_split h
      exact .inr ⟨hcall, l, m, r, hsplit, hdir, hrest⟩
    · cases h
  · exact .inl rfl

/-- One call of `umount`, for a place that is not the root. -/
theorem umountOne_goes {path : Text}
    (hpath : (g.area strict).inside path ∨ (g.area strict).free path)
    (hU : ∀ m ∈ t, U m) :
    g.Goes strict U t (w.umountOne path t) ∧
      (path ≠ g.container.CHROOT_DIR → g.Rooted t → g.Rooted (w.umountOne path t)) := by
  rcases umountPath_cases w.umounts ⟨t, [], 0⟩ path with hsame | ⟨-, l, m, r, rfl, hdir, hmounts⟩
  · rw [World.umountOne, hsame]
    exact ⟨.refl hU, fun _ h => h⟩
  · rw [World.umountOne, hmounts]
    have hsub : l ++ r ⊆ l ++ m :: r :=
      ((List.Sublist.refl l).append (List.sublist_cons_self m r)).subset
    refine ⟨⟨.single (.gone m (by rwa [hdir])), fun m' hm' => hU m' (hsub hm')⟩, ?_⟩
    intro hne hroot hmountable
    have hmem := hroot hmountable
    rw [List.map_append, List.map_cons, List.mem_append, List.mem_cons] at hmem
    rw [List.map_append, List.mem_append]
    rcases hmem with hl | heq | hr
    · exact .inl hl
    · exact absurd (heq.trans hdir).symm hne
    · exact .inr hr

/-- The file system in memory is mounted elsewhere. -/
theorem rootfs_make_goes (htidy : g.Tidy U w) (hU : ∀ m ∈ t, U m) :
    g.Goes strict U t (g.rootfs_make w t).1 := by
  unfold rootfs_make
  split
  · split
    · next hram =>
      obtain ⟨⟨hresolve, hfree⟩, hshown⟩ := htidy.ram hram
      have hgoes : g.Goes strict U t (w.umountOne g.container.TARGET_PATH t) :=
        (umountOne_goes (.inr (show (g.area strict).free _ from hfree)) hU).1
      refine hgoes.trans ?_
      rcases run_mount_cases w.sys w.succeeds
        ⟨w.umountOne g.container.TARGET_PATH t, [], []⟩ (g.tmpfsCall w) with hsame | hadded
      · dsimp only
        rw [hsame]
        exact .refl hgoes.shown
      · dsimp only
        rw [hadded]
        refine ⟨.single (.free _ ?_), fun m hm => ?_⟩
        · rw [w.sys.entry_dir]
          exact hresolve.symm ▸ hfree
        · rcases List.mem_append.mp hm with hm | hm
          · exact hgoes.shown m hm
          · rw [List.mem_singleton.mp hm]
            exact hshown _ rfl
    · exact .refl hU
  · exact .refl hU

section

variable (hfits : g.Fits) (hexact : g.Exact U)

include hfits in
/-- **core/emulator**, when it is stopped. -/
theorem emulator_stop_goes (w : World) (hU : ∀ m ∈ t, U m) :
    g.Goes strict U t (g.emulator_stop w t) := by
  unfold emulator_stop
  split
  · exact (umountOne_goes (.inl hfits.emulatorTarget) hU).1
  · exact .refl hU

include hfits hexact

theorem mountForFiles_goes (htidy : g.Tidy U w) (hU : ∀ m ∈ t, U m) :
    g.Goes strict U t (g.mountForFiles w t) := by
  unfold mountForFiles
  split
  · exact .refl hU
  · exact (mount_goes hfits hexact htidy (.inr rfl) hU).1

/-- **bootstrap/rootfs**. -/
theorem rootfs_install_goes {world : Nat → World} (htidy : ∀ n, g.Tidy U (world n))
    (hU : ∀ m ∈ t, U m) : g.Goes strict U t (g.rootfs_install world t) := by
  unfold rootfs_install
  dsimp only
  split
  · exact .refl hU
  · have hmade : g.Goes strict U t (g.rootfs_make (world 0) t).1 := rootfs_make_goes (htidy 0) hU
    split
    · have hmounted : g.Goes strict U _ (g.mount (world 1) [] _).1 :=
        (mount_goes hfits hexact (htidy 1) (.inl rfl) hmade.shown).1
      split
      · exact hmade.trans (hmounted.trans
          (mountForFiles_goes hfits hexact (htidy 2) hmounted.shown))
      · exact hmade.trans hmounted
    · exact hmade

/-- **A function of a component**, while the root is mounted if it mounts something. -/
theorem call_goes {k : Call} (htidy : ∀ n, g.Tidy U (k.world n))
    (hroot : strict → k.Mounts → g.Rooted t) (hU : ∀ m ∈ t, U m) :
    g.Goes strict U t (g.call t k) := by
  obtain ⟨component, hook, world⟩ := k
  unfold call
  dsimp only
  split
  · exact (mnt_start_goes hfits hexact (htidy 0) (fun h => hroot h (.inl ⟨rfl, rfl⟩)) hU).1
  · exact (emulator_start_goes hfits hexact (htidy 0)
      (fun h => hroot h (.inr ⟨rfl, .inl rfl⟩)) hU).1
  · exact (emulator_start_goes hfits hexact (htidy 0)
      (fun h => hroot h (.inr ⟨rfl, .inr rfl⟩)) hU).1
  · exact emulator_stop_goes hfits _ hU
  · exact rootfs_install_goes hfits hexact htidy hU
  · exact .refl hU

/-- **The calls of an action**. -/
theorem exec_goes {calls : List Call} (htidy : ∀ k ∈ calls, ∀ n, g.Tidy U (k.world n))
    (hguard : strict → g.components.Guarded (fun t k => k.Mounts → g.Rooted t) t calls)
    (hU : ∀ m ∈ t, U m) : g.Goes strict U t (g.exec t calls) := by
  induction calls generalizing t with
  | nil => exact .refl hU
  | cons k calls ih =>
    obtain ⟨hk, hcalls⟩ := List.forall_mem_cons.mp htidy
    have hgoes := call_goes hfits hexact hk (fun h => (hguard h _ rfl).1) hU
    exact hgoes.trans (ih hcalls (fun h => (hguard h _ rfl).2) hgoes.shown)

/-- Starting components keeps the root. -/
theorem start_guarded {rounds : List Round}
    (htidy : ∀ r ∈ rounds, ∀ hook n, g.Tidy U (r.world hook n)) (hroot : g.Rooted t)
    (hU : ∀ m ∈ t, U m) :
    g.components.Guarded (fun t k => k.Mounts → g.Rooted t) t
      (hookCalls [.do_start] rounds) := by
  induction rounds generalizing t with
  | nil => trivial
  | cons r rounds ih =>
    obtain ⟨hr, hrounds⟩ := List.forall_mem_cons.mp htidy
    rintro t' ⟨⟩
    refine ⟨fun _ => hroot, ?_⟩
    have hgoes := call_goes (k := ⟨r.component, .do_start, r.world .do_start⟩) hfits hexact
      (hr _) (fun (_ : True) _ => hroot) hU
    refine ih hrounds ?_ hgoes.shown
    -- a component that is started only adds entries
    cases hcomponent : r.component with
    | mnt =>
      rw [call]
      exact hroot.mono (mnt_start_goes hfits hexact (hr _ 0) (fun (_ : True) => hroot) hU).2
    | emulator =>
      rw [call]
      exact hroot.mono (emulator_start_goes hfits hexact (hr _ 0) (fun (_ : True) => hroot) hU).2
    | rootfs => exact hroot

end

theorem tidy_hookCalls {DO_ACTION : List Hook} {rounds : List Round}
    (htidy : ∀ r ∈ rounds, ∀ hook n, g.Tidy U (r.world hook n)) :
    ∀ k ∈ hookCalls DO_ACTION rounds, ∀ n, g.Tidy U (k.world n) := by
  intro k hk n
  obtain ⟨r, hr, hk⟩ := List.mem_flatMap.mp hk
  obtain ⟨hook, -, rfl⟩ := List.mem_map.mp hk
  exact htidy r hr hook n

/-- Stopping components mounts nothing. -/
theorem stop_guarded (rounds : List Round) (t : Table) :
    g.components.Guarded (fun t k => k.Mounts → g.Rooted t) t (hookCalls [.do_stop] rounds) := by
  refine Machine.guarded_of_forall (fun k hk t hmounts => ?_) t
  obtain ⟨r, -, hk⟩ := List.mem_flatMap.mp hk
  obtain rfl := List.mem_singleton.mp hk
  rcases hmounts with ⟨-, hhook⟩ | ⟨-, hhook | hhook⟩ <;> cases hhook

/-! ## Unmounting -/

/-- The attempts at one mount point. The root goes only when nothing is mounted in it. -/
theorem attempts_changes (strict : Prop) (free : Text → Prop) {path : Text} (s : Unmounting)
    (umounts : Nat → Text → Bool) (n : Nat)
    (hpath : StrictlyBelow g.container.CHROOT_DIR path ∨ path = g.container.CHROOT_DIR ∧
      (strict → ∀ call ∈ s.attemptCalls umounts [path] n, umounts call.1.calls call.2 = true →
        ∀ m ∈ call.1.mounts, ¬ StrictlyBelow call.2 m.dir)) :
    Changes (·.dir) (g.areaWith strict free) s.mounts (s.attempts umounts [path] n).mounts := by
  induction n generalizing s with
  | zero => exact .refl
  | succ n ih =>
    have hone : Changes (·.dir) (g.areaWith strict free) s.mounts
        (s.umount umounts [path]).1.mounts := by
      rcases umountPath_cases umounts s path with hsame | ⟨hcall, l, m, r, hsplit, hdir, hmounts⟩
      · exact (show (s.umount umounts [path]).1.mounts = s.mounts from hsame) ▸ .refl
      · have hafter : (s.umount umounts [path]).1.mounts = l ++ r := hmounts
        rw [hafter, hsplit]
        rcases hpath with hinside | ⟨rfl, hbusy⟩
        · exact .single (.gone m (.inl (hdir ▸ hinside)))
        · refine .single (.rootGone m hdir fun h m' hm' => ?_)
          have hfirst : (s, g.container.CHROOT_DIR) ∈
              s.attemptCalls umounts [g.container.CHROOT_DIR] (n + 1) :=
            List.mem_append_left _ (List.mem_singleton_self _)
          have hsub : l ++ r ⊆ s.mounts :=
            hsplit ▸ ((List.Sublist.refl l).append (List.sublist_cons_self m r)).subset
          exact hbusy h _ hfirst hcall m' (hsub hm')
    rw [Unmounting.attempts]
    split
    · exact hone
    · next hfailed =>
      refine Relation.ReflTransGen.trans hone (ih _ (hpath.imp_right (And.imp_right
        fun hbusy h call hcall => hbusy h call ?_)))
      rw [Unmounting.attemptCalls, if_neg hfailed]
      exact List.mem_append_right _ hcall

/-- A pass. -/
theorem umountAll_changes (strict : Prop) (free : Text → Prop) {c : Container} {parts : List Text}
    (s : Unmounting) (umounts : Nat → Text → Bool) (hparts : ∀ part ∈ parts, c.expand part = [part])
    (hpath : ∀ part ∈ parts, StrictlyBelow g.container.CHROOT_DIR part ∨
      part = g.container.CHROOT_DIR ∧ (strict → ∀ call ∈ c.partCalls umounts s parts,
        umounts call.1.calls call.2 = true → ∀ m ∈ call.1.mounts, ¬ StrictlyBelow call.2 m.dir)) :
    Changes (·.dir) (g.areaWith strict free) s.mounts (c.umountAll umounts s parts).mounts := by
  induction parts generalizing s with
  | nil => exact .refl
  | cons part parts ih =>
    obtain ⟨hpart, hrest⟩ := List.forall_mem_cons.mp hparts
    rw [Container.umountAll, List.foldl_cons, hpart]
    refine Relation.ReflTransGen.trans (attempts_changes strict free s umounts 3 ?_)
      (ih _ hrest fun part' hpart' => ?_)
    · refine (hpath part List.mem_cons_self).imp_right (And.imp_right fun hbusy h call hcall =>
        hbusy h call ?_)
      rw [Container.partCalls, hpart]
      exact List.mem_append_left _ hcall
    · refine (hpath part' (List.mem_cons_of_mem _ hpart')).imp_right
        (And.imp_right fun hbusy h call hcall => hbusy h call ?_)
      rw [Container.partCalls, hpart]
      exact List.mem_append_right _ hcall

/-- What has been removed and what is left is the table. -/
theorem umountPath_perm (umounts : Nat → Text → Bool) (s : Unmounting) (path : Text) :
    ((s.umountPath umounts path).1.removed ++ (s.umountPath umounts path).1.mounts).Perm
      (s.removed ++ s.mounts) := by
  rw [Unmounting.umountPath]
  split
  · next m ms h =>
    split at h
    · rw [List.append_assoc, List.singleton_append]
      exact ((takeMount_perm h).symm).append_left _
    · cases h
  · exact .rfl

theorem umount_args_perm (umounts : Nat → Text → Bool) (s : Unmounting) (args : List Text) :
    ((s.umount umounts args).1.removed ++ (s.umount umounts args).1.mounts).Perm
      (s.removed ++ s.mounts) := by
  induction args generalizing s with
  | nil => exact .rfl
  | cons path args ih => exact (ih _).trans (umountPath_perm umounts s path)

theorem attempts_perm (umounts : Nat → Text → Bool) (s : Unmounting) (args : List Text) (n : Nat) :
    ((s.attempts umounts args n).removed ++ (s.attempts umounts args n).mounts).Perm
      (s.removed ++ s.mounts) := by
  induction n generalizing s with
  | zero => exact .rfl
  | succ n ih =>
    have hone := umount_args_perm umounts s args
    rw [Unmounting.attempts]
    split
    · exact hone
    · exact (ih _).trans hone

theorem umountAll_perm (c : Container) (umounts : Nat → Text → Bool) (s : Unmounting)
    (parts : List Text) :
    ((c.umountAll umounts s parts).removed ++ (c.umountAll umounts s parts).mounts).Perm
      (s.removed ++ s.mounts) := by
  induction parts generalizing s with
  | nil => exact .rfl
  | cons part parts ih => exact (ih _).trans (attempts_perm umounts s _ 3)

/-- **`umount` leaves the mounts** that `container_umount` does not remove. -/
theorem umount_perm (g : Guest) (w : World) (t : Table) (losetup : Bool) :
    (((g.at_ t).container_umount ⟨w.umounts, losetup⟩).removed ++ g.umount w t).Perm t := by
  unfold umount Container.container_umount
  dsimp only
  split
  · exact .rfl
  · split
    · exact (umountAll_perm (g.at_ t) w.umounts _ _).trans
        (umountAll_perm (g.at_ t) w.umounts ⟨t, [], 0⟩ _)
    · exact .rfl

section

variable (hfits : g.Fits) (hexact : g.Exact U) (hU : ∀ m ∈ t, U m)

include hexact hU

theorem takesAsIs_at : (g.at_ t).TakesAsIs := fun m hm _ => hexact.asIs m (hU m hm)

theorem normal_at : ∀ m ∈ (g.at_ t).mounts, Normal m.dir := fun m hm => hexact.normal m (hU m hm)

/-- The first pass is for what lies in the container, and the second one for its root. -/
theorem firstParts_inside {part : Text} (hpart : part ∈ (g.at_ t).firstParts) :
    StrictlyBelow g.container.CHROOT_DIR part := by
  obtain ⟨⟨m, hm, rfl⟩, hgrep⟩ := Container.mem_plainParts.mp hpart
  rw [(hexact.asIs m (hU m hm)).1] at hgrep
  exact (hexact.below m (hU m hm)).mp hgrep

theorem secondParts_root {umounts : Nat → Text → Bool} {part : Text}
    (hpart : part ∈ (g.at_ t).secondParts umounts) : part = g.container.CHROOT_DIR := by
  obtain ⟨⟨m, hm, rfl⟩, hgrep⟩ := Container.mem_plainParts.mp hpart
  have hm := hU m ((g.at_ t).afterFirst_mounts_subset umounts hm)
  rw [(hexact.asIs m hm).1] at hgrep
  exact (hexact.root m hm).mp hgrep

/-- The patterns find all mounts of the container. -/
theorem findsAll_at (hfits : g.Fits) : (g.at_ t).FindsAll where
  found m hm hbelow := by
    rw [Container.FindsMount, (hexact.asIs m (hU m hm)).1]
    rcases hfits.eq_or_inside (hexact.normal m (hU m hm)) hbelow with hroot | hinside
    · exact .inr ((hexact.root m (hU m hm)).mpr hroot)
    · exact .inl ((hexact.below m (hU m hm)).mpr hinside)
  apart m hm m' hm' hgrep hgrep' hstrict := by
    rw [(hexact.asIs m (hU m hm)).1] at hgrep
    rw [(hexact.asIs m' (hU m' hm')).1] at hgrep'
    have hbelow := (hexact.below m (hU m hm)).mp hgrep
    -- the root does not lie below what lies below it
    rw [(hexact.root m' (hU m' hm')).mp hgrep'] at hstrict
    exact hbelow.2 (hbelow.1.2.eq_of_length_le hstrict.1.2.length_le)

theorem umount_changes (free : Text → Prop) (hbusy : strict → (g.at_ t).Busy w.umounts) :
    Changes (·.dir) (g.areaWith strict free) t (g.umount w t) ∧ g.umount w t ⊆ t := by
  unfold umount
  dsimp only
  split
  · exact ⟨.refl, List.Subset.refl _⟩
  · split
    · have hplain := takesAsIs_at hexact hU
      obtain ⟨hcalls, humounted⟩ := Container.calls_eq hplain w.umounts
      simp only [Container.Busy, hcalls] at hbusy
      have hfirst := umountAll_changes (g := g) strict free (g.at_ t).initial w.umounts
        (Container.expand_firstParts hplain)
        fun part hpart => .inl (firstParts_inside hexact hU hpart)
      have hsecond := umountAll_changes (g := g) strict free
        ((g.at_ t).afterFirst w.umounts) w.umounts
        (Container.expand_secondParts hplain w.umounts) fun part hpart =>
          .inr ⟨secondParts_root hexact hU hpart, fun h call hcall =>
            hbusy h call (List.mem_append_right _ hcall)⟩
      rw [humounted]
      exact ⟨Relation.ReflTransGen.trans hfirst hsecond, List.Subset.trans
        (Container.umountAll_mounts_subset _ _) ((g.at_ t).afterFirst_mounts_subset w.umounts)⟩
    · exact ⟨.refl, List.Subset.refl _⟩

/-- **Unmounting a container**, where `umount` fails while something is mounted below. -/
theorem umount_goes (hbusy : strict → (g.at_ t).Busy w.umounts) :
    g.Goes strict U t (g.umount w t) :=
  have hchanges := umount_changes hexact hU _ hbusy
  ⟨hchanges.1, fun m hm => hU m (hchanges.2 hm)⟩

end

/-! ## Commands -/

theorem mountThen_goes (hfits : g.Fits) (hexact : g.Exact U) {m : Option World}
    (hm : ∀ w ∈ m, g.Tidy U w) {rest : Table → Table}
    (hrest : ∀ t', t' = m.elim t (fun w => (g.mount w [] t).1) → (∀ e ∈ t', U e) →
      g.Goes strict U t' (rest t'))
    (hU : ∀ e ∈ t, U e) : g.Goes strict U t (g.mountThen m rest t) := by
  cases m with
  | none => exact hrest t rfl hU
  | some w =>
    have hgoes : g.Goes strict U t (g.mount w [] t).1 :=
      (mount_goes hfits hexact (hm w rfl) (.inl rfl) hU).1
    unfold mountThen
    dsimp only
    split
    · exact hgoes.trans (hrest _ rfl hgoes.shown)
    · exact hgoes

theorem container_shell_goes (hfits : g.Fits) (hexact : g.Exact U) (hw : g.Tidy U w)
    {rounds : List Round} (hrounds : ∀ r ∈ rounds, ∀ hook n, g.Tidy U (r.world hook n))
    (hU : ∀ m ∈ t, U m) : g.Goes strict U t (g.container_shell w rounds t) := by
  have hmount : ∀ r, r = (if (g.at_ t).container_mounted then (t, true) else g.mount w [] t) →
      g.Goes strict U t r.1 ∧ (r.2 = true → g.Rooted r.1) := by
    rintro r rfl
    split
    · next hmounted =>
      exact ⟨.refl hU, fun _ => (container_mounted_iff hfits hexact hU).mp hmounted⟩
    · exact mount_goes hfits hexact hw (.inl rfl) hU
  unfold container_shell
  generalize (if (g.at_ t).container_mounted then (t, true) else g.mount w [] t) = r at hmount
  obtain ⟨hgoes, hrooted⟩ := hmount r rfl
  dsimp only
  split
  · next hstatus =>
    exact hgoes.trans (exec_goes hfits hexact (tidy_hookCalls hrounds)
      (fun _ => start_guarded hfits hexact hrounds (hrooted hstatus) hgoes.shown) hgoes.shown)
  · exact hgoes

/-- **Every command** does to the table what the owner of the container may do. -/
theorem step_goes {job : Job} (h : g.Allowed strict U t job) (hU : ∀ m ∈ t, U m) :
    g.Goes strict U t (g.step t job) := by
  obtain ⟨hfits, hexact, htidy, hcareful⟩ := h
  cases job with
  | mount w => exact (mount_goes hfits hexact htidy (.inl rfl) hU).1
  | umount w => exact umount_goes hexact hU hcareful
  | start m rounds =>
    refine mountThen_goes hfits hexact htidy.1 (fun t' _ hU' => ?_) hU
    unfold container_start
    split
    · next hmounted =>
      exact exec_goes hfits hexact (tidy_hookCalls htidy.2)
        (fun _ => start_guarded hfits hexact htidy.2
          ((container_mounted_iff hfits hexact hU').mp hmounted) hU') hU'
    · exact .refl hU'
  | stop rounds ok u =>
    have hstop : g.Goes strict U t (g.container_stop rounds ok t).1 := by
      unfold container_stop
      split
      · exact exec_goes hfits hexact (tidy_hookCalls htidy.2) (fun _ => stop_guarded rounds t) hU
      · exact .refl hU
    unfold step
    dsimp only
    cases u with
    | none => exact hstop
    | some w =>
      dsimp only
      split
      · exact hstop.trans (umount_goes hexact hstop.shown hcareful)
      · exact hstop
  | deploy m DO_ACTION rounds =>
    show g.Goes strict U t (g.mountThen m (g.exec · (hookCalls DO_ACTION rounds)) t)
    refine mountThen_goes hfits hexact htidy.1 (fun t' ht' hU' => ?_) hU
    subst ht'
    exact exec_goes hfits hexact (tidy_hookCalls htidy.2) hcareful hU'
  | shell w rounds => exact container_shell_goes hfits hexact htidy.1 htidy.2 hU
  | files w => exact mountForFiles_goes hfits hexact htidy hU

end Guest

end Anx.Cli
