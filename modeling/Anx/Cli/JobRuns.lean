import Anx.Cli.JobChanges

/-!
# The mount table over whole runs

Containers share the mount table of the system. Their commands come in any order, and any of
the calls of `mount` and `umount` may fail.

- `Guest.Apart`: two containers in different directories;
- `session_grows`: **mounts elsewhere stay**, and only the three mount points of the system are
  added to them, each one once;
- `session_count_le`: **nothing is mounted twice**, whatever has failed before;
- `session_based`: what is mounted in a container is mounted on its root;
- `session_umount`: **after `umount` nothing of the container is mounted**, and all else as
  before;
- `exact_of_simple`: paths without special characters are found exactly.
-/

namespace Anx.Cli

open Anx.Lib

/-! ## Plain mounts -/

/-- The table shows the mount point as it is, and no path among the options. -/
def Mount.IsPlain (m : Mount) : Prop :=
  Plain m.dir ∧ Normal m.dir ∧ ¬ [' ', '/'] <:+: ' ' :: m.options

instance (m : Mount) : Decidable m.IsPlain := inferInstanceAs (Decidable (_ ∧ _ ∧ _))

/-- What starts with a path and a slash lies below it. -/
theorem prefix_slash_iff {dir path : Text} (hdir : Normal dir) (hroot : components dir ≠ [])
    (hpath : Normal path) : dir ++ ['/'] <+: path ↔ StrictlyBelow dir path := by
  have hhead : ∀ {p : Text}, Normal p → p.head? = some '/' := fun h => by
    rw [h]
    rfl
  constructor
  · rintro ⟨rest, rfl⟩
    rw [List.append_assoc, List.singleton_append] at hpath ⊢
    refine ⟨⟨iff_of_true (hhead hdir) (hhead hpath), ?_⟩, fun heq => ?_⟩
    · rw [components, components, pieces_append_cons _ _ (by rfl)]
      exact List.prefix_append _ _
    · -- paths with the same names are the same
      have hsame : dir ++ '/' :: rest = dir := by
        rw [hpath, ← heq, ← hdir]
      simp at hsame
  · rintro ⟨⟨-, rest, hrest⟩, hne⟩
    cases rest with
    | nil => exact absurd (hrest ▸ List.append_nil _ : components path = components dir).symm hne
    | cons name rest =>
      refine ⟨['/'].intercalate (name :: rest), ?_⟩
      rw [hpath, ← hrest, intercalate_append_cons hroot, ← List.cons_append, ← List.cons_append,
        ← hdir]

namespace Guest

/-- What a container has at its places, another one leaves alone. -/
def Apart (k g : Guest) : Prop := ∀ path,
  path = k.container.CHROOT_DIR ∨ StrictlyBelow k.container.CHROOT_DIR path →
    ¬ (g.area True).Owns path

/-- `umount` does something, and every call for a path without mounts below it succeeds. -/
structure Unmounts (k : Guest) (t : Table) (w : World) : Prop where
  target : k.container.TARGET_PATH ≠ []
  releases : (k.at_ t).Releases w.umounts

variable {g k : Guest} {strict : Prop} {U : Mount → Prop} {w : World} {t t' : Table}
  {jobs : List (Guest × Job)}

/-! ## Runs -/

/-- A run is guarded if its commands are allowed; in a strict one they have to be careful. -/
def Guarded (strict : Prop) (U : Mount → Prop) (t : Table) (jobs : List (Guest × Job)) : Prop :=
  session.Guarded (fun t job => job.1.Allowed strict U t job.2) t jobs

theorem Guarded.cons {job : Guest × Job} (h : Guarded strict U t (job :: jobs)) :
    job.1.Allowed strict U t job.2 ∧ Guarded strict U (job.1.step t job.2) jobs := h _ rfl

theorem exec_cons {job : Guest × Job} : session.exec t (job :: jobs) = some t' ↔
    session.exec (job.1.step t job.2) jobs = some t' := by
  rw [Machine.exec_cons]
  exact ⟨fun ⟨_, h, h'⟩ => by cases h; exact h', fun h => ⟨_, rfl, h⟩⟩

/-- The places of a container are the root and what lies below. -/
def isInside (k : Guest) (path : Text) : Bool :=
  path = k.container.CHROOT_DIR || decide (StrictlyBelow k.container.CHROOT_DIR path)

theorem isInside_iff {path : Text} : k.isInside path = true ↔
    path = k.container.CHROOT_DIR ∨ StrictlyBelow k.container.CHROOT_DIR path := by
  rw [isInside, Bool.or_eq_true, decide_eq_true_iff, decide_eq_true_iff]

/-- Among such mounts they are those at or below the root. -/
theorem isInside_eq (hfits : k.Fits) (hexact : k.Exact U) {m : Mount} (hm : U m) :
    k.isInside m.dir = decide (AtOrBelow k.container.CHROOT_DIR m.dir) := by
  rw [Bool.eq_iff_iff, isInside_iff, decide_eq_true_iff]
  refine ⟨fun h => ?_, hfits.eq_or_inside (hexact.normal m hm)⟩
  rcases h with heq | hbelow
  · rw [heq]
    exact atOrBelow_self _
  · exact hbelow.1

/-- The invariant of the run: what is mounted in the container is mounted on its root. -/
theorem session_based (hfits : k.Fits) (hU : ∀ m ∈ t, U m) (hguarded : Guarded True U t jobs)
    (hrun : session.exec t jobs = some t') (hapart : ∀ job ∈ jobs, job.1 = k ∨ k.Apart job.1)
    (hbased : Based (·.dir) (k.area True) t) :
    Based (·.dir) (k.area True) t' ∧ ∀ m ∈ t', U m := by
  induction jobs generalizing t with
  | nil =>
    cases hrun
    exact ⟨hbased, hU⟩
  | cons job jobs ih =>
    obtain ⟨hfirst, hrest⟩ := List.forall_mem_cons.mp hapart
    obtain ⟨hallowed, hguarded⟩ := hguarded.cons
    have hgoes := step_goes hallowed hU
    refine ih hgoes.shown hguarded (exec_cons.mp hrun) hrest ?_
    rcases hfirst with hself | hother
    · exact (hself ▸ hgoes.changes :
        Changes (·.dir) (k.area True) t _).based trivial hfits.sound hbased
    · -- another container changes nothing there, and no mount point of the system lies there
      obtain ⟨added, hfilter, -, hadded⟩ := hgoes.changes.grows (q := fun path => k.isInside path)
        fun path howns => Bool.eq_false_iff.mpr fun hinside =>
          hother path (isInside_iff.mp hinside) howns
      have hnone : added = [] := by
        refine List.eq_nil_iff_forall_not_mem.mpr fun m hm => ?_
        have hshown : m ∈ (job.1.step t job.2).filter
            ((fun path => k.isInside path) ∘ (·.dir)) := by
          rw [hfilter]
          exact List.mem_append_right _ hm
        have hinside : k.isInside m.dir = true := (List.mem_filter.mp hshown).2
        refine hfits.hosts m.dir (hadded m hm).1 ?_
        rcases isInside_iff.mp hinside with heq | hbelow
        · rw [heq]
          exact atOrBelow_self _
        · exact hbelow.1
      rw [hnone, List.append_nil] at hfilter
      exact hbased.congr (fun path => isInside_iff) hfilter

/-- Then `umount` leaves nothing of the container. -/
theorem umount_empties (hfits : k.Fits) (hexact : k.Exact U) (hU : ∀ m ∈ t, U m)
    (hbased : Based (·.dir) (k.area True) t) (hunmounts : k.Unmounts t w) :
    ∀ m ∈ k.umount w t, ¬ AtOrBelow k.container.CHROOT_DIR m.dir := by
  have htarget : (k.at_ t).TARGET_PATH ≠ [] := hunmounts.target
  unfold umount
  dsimp only
  rw [if_neg htarget]
  split
  · exact (findsAll_at hexact hU hfits).empties (normal_at hexact hU) (takesAsIs_at hexact hU)
      hunmounts.releases
  · next hmounted =>
    -- the root is not mounted, and so nothing is mounted in it
    rw [container_mounted_iff hfits hexact hU, Rooted] at hmounted
    intro m hm hbelow
    have hroot : k.container.CHROOT_DIR ∈ t.map (·.dir) := by
      rcases hfits.eq_or_inside (hexact.normal m (hU m hm)) hbelow with heq | hinside
      · rw [← heq]
        exact List.mem_map_of_mem hm
      · exact hbased ⟨m, hm, hinside⟩
    exact hmounted fun _ => hroot

/-- **Paths without special characters** are found exactly. -/
theorem exact_of_simple (hroot : Normal g.container.CHROOT_DIR)
    (hglob : ∀ word, Plain word → g.container.glob word = [word])
    (hplaces : ∀ path ∈ g.places, Container.Simple path ∧ path.head? = some '/') :
    g.Exact Mount.IsPlain := by
  obtain ⟨hsimple, -⟩ := hplaces _ (root_mem_places g)
  have hstrip : stripSlash g.container.CHROOT_DIR = g.container.CHROOT_DIR :=
    if_neg hsimple.noSlash
  have hnames : Lib.components g.container.CHROOT_DIR ≠ [] := by
    intro hnil
    rw [Normal, hnil] at hroot
    exact hsimple.noSlash (by rw [hroot]; rfl)
  refine ⟨fun m hm => hm.2.1, fun m hm => ⟨Container.mangle_plain hm.1, ?_⟩,
    fun path hpath m hm => ?_, fun m hm => ?_, fun m hm => ?_⟩
  · exact Container.expand_plain hglob m.dir_ne hm.1
  · obtain ⟨hsimple, hslash⟩ := hplaces path hpath
    have hstrip : stripSlash path = path := if_neg hsimple.noSlash
    have hblank : ' ' ∉ path := fun hmem => hsimple.plain ' ' hmem (by simp)
    have hliteral := Container.literal_pattern hsimple.literal
    rw [hstrip] at hliteral ⊢
    rw [Container.grep, grep_literal hliteral (by simp), Container.infix_line_iff hblank,
      Container.mangle_plain hm.1]
    refine or_iff_left fun hshown => hm.2.2 (List.IsInfix.trans ?_ hshown)
    obtain ⟨rest, rfl⟩ := List.head?_eq_some_iff.mp hslash
    exact ⟨[], rest ++ [' '], by simp⟩
  · rw [Container.grep_first (hstrip.symm ▸ hsimple.literal), hstrip]
    exact prefix_slash_iff hroot hnames hm.2.1
  · rw [Container.grep_second (hstrip.symm ▸ hsimple.literal), hstrip]
    constructor
    · rintro ⟨slashes, hdir, hall⟩
      rw [hm.2.1, hdir, components_append_slashes _ hall, ← hroot]
    · intro hdir
      exact ⟨[], by rw [hdir, List.append_nil], by simp⟩

/-! ## A container below `/mnt` -/

/-- It has one more mount. -/
def linux : Guest where
  container := Container.beside
  MOUNTS := "/sdcard:/media".toList
  EMULATOR := []
  test := fun args => args[1]? ≠ some [] ∧ args[4]? ≠ some []

/-- There are no symbolic links, and all commands succeed. -/
def allGood : World where
  sys := noLinks
  succeeds := fun _ _ => true
  umounts := fun _ _ => true
  which := []
  made := true
  diskSize := []
  isArchive := false

theorem linux_pairs : linux.pairs = [("/sdcard".toList, "/media".toList)] := by decide

theorem linux_places : ∀ path ∈ linux.places,
    Container.Simple path ∧ path.head? = some '/' ∧ Normal path := by
  unfold places
  rw [linux_pairs]
  decide

theorem linux_fits : linux.Fits where
  root := by decide
  hosts := by decide
  pairs := by
    rw [linux_pairs]
    decide

theorem linux_exact : linux.Exact Mount.IsPlain :=
  exact_of_simple (by decide) (fun _ _ => rfl) fun path hpath =>
    ⟨(linux_places path hpath).1, (linux_places path hpath).2.1⟩

theorem linux_tidy : linux.Tidy Mount.IsPlain allGood where
  straight path hpath := (linux_places path hpath).2.2.symm
  shown call hcall := by
    obtain ⟨hsimple, -, hnormal⟩ := linux_places _ hcall
    have hdir : (allGood.sys.entry call).dir = call.target := hnormal.symm
    have hoptions : ¬ [' ', '/'] <:+: ' ' :: "rw 0 0".toList := by decide
    rw [Mount.IsPlain, hdir]
    exact ⟨hsimple.plain, hnormal, hoptions⟩
  ram hram := absurd hram (by decide)

theorem linux_allowed {t : Table} {job : Job} (htidy : job.Worlds (linux.Tidy Mount.IsPlain))
    (hcareful : strict → linux.Careful t job) : linux.Allowed strict Mount.IsPlain t job :=
  ⟨linux_fits, linux_exact, htidy, hcareful⟩

/-- The container is mounted and started. -/
def started : List (Guest × Job) :=
  [(linux, .mount allGood), (linux, .start none [⟨.mnt, fun _ _ => allGood⟩])]

theorem started_guarded (t : Table) : Guarded strict Mount.IsPlain t started := by
  rintro t ⟨⟩
  refine ⟨linux_allowed linux_tidy fun _ => trivial, ?_⟩
  rintro t ⟨⟩
  have htidy : (Job.start none [⟨.mnt, fun _ _ => allGood⟩]).Worlds
      (linux.Tidy Mount.IsPlain) :=
    ⟨by simp, fun r hr _ _ => by rw [List.mem_singleton.mp hr]; exact linux_tidy⟩
  exact ⟨linux_allowed htidy fun _ => trivial, trivial⟩

/-- What is mounted elsewhere stays: here `/system`. -/
def elsewhere (path : Text) : Bool := !linux.isInside path && path ≠ linux.container.TARGET_PATH

theorem elsewhere_eq_false {path : Text} (h : (linux.area strict).Owns path) :
    elsewhere path = false := by
  rcases h with hroot | hinside | hfree
  · simp [elsewhere, isInside_iff.mpr (.inl hroot)]
  · simp [elsewhere, isInside_iff.mpr (.inr hinside)]
  · simp [elsewhere, hfree.1]

/-- `/system` is mounted before. -/
def systemOnly : Table :=
  [⟨"/dev/block/dm-0".toList, "/system".toList, "ext4 ro 0 0".toList, by decide, by decide⟩]

theorem systemOnly_plain : ∀ m ∈ systemOnly, m.IsPlain := by decide

/-- The tables at the ends of such runs. -/
def afterStart (t : Table) : Table :=
  linux.step (linux.step t (.mount allGood)) (.start none [⟨.mnt, fun _ _ => allGood⟩])

/-- The root of the container is mounted to import its files. -/
def rootOnly : Table := linux.step systemOnly (.files allGood)

end Guest

end Anx.Cli
