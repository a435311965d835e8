import Anx.Cli.ContainerUmount

/-!
# What unmounting a container touches

Whatever `grep` finds is taken for the container's: lines of `lsof` for its processes, mount
points for its mounts, and lines of `losetup -a` for its loop device.

- `OnlyContainer`: only processes, mounts and loop devices of the container are touched;
- `Unmounts`, `Hits`: what one call of `umount` may do, and that it removes a mount at a
  given path when it can; both for all loops over such calls;
- `FindsOnly`: what the searches find is the container's;
- `onlyContainer_iff`: **only the container is touched exactly when the searches find
  nothing else**, whichever calls of `umount` fail;
- `findsOnly_of_literal`: for paths without pattern characters, what the tables may have
  outside of the container.
-/

namespace Anx.Cli

open Anx.Lib

namespace Container

/-- The process has an open file at or below the root of the container. -/
def HasOpenFile (c : Container) (pid : Text) : Prop :=
  ∃ f ∈ c.lsof.files, f.pid = pid ∧ ∃ path ∈ c.lsof.paths f, AtOrBelow c.CHROOT_DIR path

/-- Only the container has been touched: the processes killed have a file open in it, the mounts
removed lie in it, and the loop devices detached are on its image. It is about what was done,
whatever the searches were meant to find. -/
structure OnlyContainer (c : Container) (e : Effects) : Prop where
  killed : ∀ pid ∈ e.killed, c.HasOpenFile pid
  removed : ∀ m ∈ e.removed, AtOrBelow c.CHROOT_DIR m.dir
  detached : ∀ d ∈ e.detached, SamePath d.file c.TARGET_PATH

/-- The mount point matches the pattern of one of the masks. -/
def FindsMount (c : Container) (m : Mount) : Prop :=
  c.grep (c.partPattern ['.', '*']) (mangle m.dir) = true ∨
    c.grep (c.partPattern ['*']) (mangle m.dir) = true

/-- The searches find nothing but the container: no line of `lsof` in which `CHROOT_DIR`
matches leads to a process without an open file in it; no mount point that matches leads to
a mount elsewhere; when `TARGET_PATH` matches in one line of `losetup -a` only, it is the file
of that device.

What a line leads to is what the script makes of it: the number read from a file of the name
of the process, if there is one; the paths that the shell makes of a mount point, twice; the
one name before the colon. Several loop devices lead to none, since their names are joined by
newlines. -/
structure FindsOnly (c : Container) : Prop where
  processes : ∀ entry ∈ c.lsof.listed, c.grep (stripSlash c.CHROOT_DIR) entry.1 = true →
    c.proc (c.pidOf entry.2) = true → IsPid (c.pidOf entry.2) → c.HasOpenFile (c.pidOf entry.2)
  mounts : ∀ m ∈ c.mounts, c.FindsMount m → ∀ part ∈ c.expand (mangle m.dir),
    ∀ m' ∈ c.mounts, m'.dir ∈ c.expand part → AtOrBelow c.CHROOT_DIR m'.dir
  loops : ∀ d, c.loops.filter (fun d => c.grep (stripSlash c.TARGET_PATH) d.line) = [d] →
    SamePath d.file c.TARGET_PATH

end Container

/-! ## Calls of umount -/

theorem takeMount_spec {path : Text} {ms ms' : List Mount} {m : Mount}
    (h : takeMount path ms = some (m, ms')) : m ∈ ms ∧ m.dir = path ∧ ms' ⊆ ms := by
  induction ms generalizing m ms' with
  | nil => cases h
  | cons m₀ ms ih =>
    rw [takeMount] at h
    split at h
    · next hrest =>
      cases h
      obtain ⟨hm, hdir, hsubset⟩ := ih hrest
      exact ⟨List.mem_cons_of_mem _ hm, hdir, List.cons_subset_cons _ hsubset⟩
    · split at h
      · next hdir =>
        cases h
        exact ⟨List.mem_cons_self, hdir, List.subset_cons_self _ _⟩
      · cases h

theorem takeMount_isSome {path : Text} {ms : List Mount} {m : Mount} (hm : m ∈ ms)
    (hdir : m.dir = path) : ∃ m' ms', takeMount path ms = some (m', ms') := by
  induction ms with
  | nil => cases hm
  | cons m₀ ms ih =>
    rw [takeMount]
    cases hrest : takeMount path ms with
    | some result => exact ⟨_, _, rfl⟩
    | none =>
      obtain rfl | hm := List.mem_cons.mp hm
      · exact ⟨_, _, if_pos hdir⟩
      · obtain ⟨m', ms', h⟩ := ih hm
        rw [hrest] at h
        cases h

/-- Only mounts of the table are removed, at the paths that `P` says: what any calls of `umount`
on such paths may do. With `trans` it goes through the attempts and both loops. -/
structure Unmounts (P : Text → Prop) (s s' : Unmounting) : Prop where
  removed : ∀ m ∈ s'.removed, m ∈ s.removed ∨ m ∈ s.mounts ∧ P m.dir
  mounts : s'.mounts ⊆ s.mounts

/-- A mount at the path has been removed. -/
def Unmounting.Hit (w : Text) (s : Unmounting) : Prop := ∃ m ∈ s.removed, m.dir = w

/-- What happens when all calls but those for the path `w` fail. These outcomes are the ones that
show a mount found wrongly being removed: nothing else changes the table before, so the mount
is still there when its turn comes. -/
structure Hits (w : Text) (s s' : Unmounting) : Prop where
  keeps : s.Hit w → s'.Hit w
  same : s'.Hit w ∨ s'.mounts = s.mounts

section

variable {P : Text → Prop} {s s' s'' : Unmounting} {umounts : Nat → Text → Bool} {w : Text}

theorem Unmounts.refl (s : Unmounting) : Unmounts P s s :=
  ⟨fun _ hm => .inl hm, List.Subset.refl _⟩

theorem Unmounts.trans (h : Unmounts P s s') (h' : Unmounts P s' s'') : Unmounts P s s'' := by
  refine ⟨fun m hm => ?_, List.Subset.trans h'.mounts h.mounts⟩
  obtain hm | ⟨hm, hP⟩ := h'.removed m hm
  · exact h.removed m hm
  · exact .inr ⟨h.mounts hm, hP⟩

theorem Hits.refl (w : Text) (s : Unmounting) : Hits w s s := ⟨id, .inr rfl⟩

theorem Hits.trans (h : Hits w s s') (h' : Hits w s' s'') : Hits w s s'' := by
  refine ⟨h'.keeps ∘ h.keeps, ?_⟩
  obtain hhit | hsame := h'.same
  · exact .inl hhit
  · exact h.same.imp h'.keeps hsame.trans

/-- A mount at the path is removed by a part of the calls, and so by all of them. -/
theorem Hits.hit_of_trans {m : Mount} (h : Hits w s s')
    (hpart : m ∈ s'.mounts → s''.Hit w) (h' : Hits w s' s'') (hm : m ∈ s.mounts) : s''.Hit w := by
  obtain hhit | hsame := h.same
  · exact h'.keeps hhit
  · exact hpart (hsame ▸ hm)

namespace Unmounting

theorem umountPath_unmounts {path : Text} (hP : P path) :
    Unmounts P s (s.umountPath umounts path).1 := by
  unfold umountPath
  split
  · next m ms h =>
    split at h
    · obtain ⟨hm, rfl, hsubset⟩ := takeMount_spec h
      refine ⟨fun m' hm' => ?_, hsubset⟩
      obtain hm' | hm' := List.mem_append.mp hm'
      · exact .inl hm'
      · obtain rfl := List.mem_singleton.mp hm'
        exact .inr ⟨hm, hP⟩
    · cases h
  · exact ⟨fun m hm => .inl hm, List.Subset.refl _⟩

theorem umountPath_hits (path : Text) :
    Hits w s (s.umountPath (fun _ p => p = w) path).1 := by
  unfold umountPath
  split
  · next m ms h =>
    split at h
    · next hpath =>
      obtain ⟨-, hdir, -⟩ := takeMount_spec h
      have hhit : m.dir = w := hdir.trans (of_decide_eq_true hpath)
      have hmem : m ∈ s.removed ++ [m] := List.mem_append_right _ (List.mem_singleton_self m)
      exact ⟨fun _ => ⟨m, hmem, hhit⟩, .inl ⟨m, hmem, hhit⟩⟩
    · cases h
  · exact ⟨id, .inr rfl⟩

theorem umountPath_hit {m : Mount} (hm : m ∈ s.mounts) (hdir : m.dir = w) :
    (s.umountPath (fun _ p => p = w) w).1.Hit w := by
  obtain ⟨m', ms', h⟩ := takeMount_isSome hm hdir
  simp only [umountPath, decide_true, if_true, h]
  exact ⟨m', List.mem_append_right _ (List.mem_singleton_self _), (takeMount_spec h).2.1⟩

theorem umount_unmounts {args : List Text} (hP : ∀ path ∈ args, P path) :
    Unmounts P s (s.umount umounts args).1 := by
  induction args generalizing s with
  | nil => exact .refl s
  | cons path args ih =>
    exact (umountPath_unmounts (hP path List.mem_cons_self)).trans
      (ih fun p hp => hP p (List.mem_cons_of_mem _ hp))

theorem umount_hits (args : List Text) :
    Hits w s (s.umount (fun _ p => p = w) args).1 := by
  induction args generalizing s with
  | nil => exact .refl w s
  | cons path args ih => exact (umountPath_hits path).trans ih

theorem umount_hit {args : List Text} {m : Mount} (hw : w ∈ args) (hm : m ∈ s.mounts)
    (hdir : m.dir = w) : (s.umount (fun _ p => p = w) args).1.Hit w := by
  induction args generalizing s with
  | nil => cases hw
  | cons path args ih =>
    obtain rfl | hw := List.mem_cons.mp hw
    · exact (umount_hits args).keeps (umountPath_hit hm hdir)
    · exact (umountPath_hits path).hit_of_trans (fun hm' => ih hw hm') (umount_hits args) hm

theorem attempts_unmounts {args : List Text} (hP : ∀ path ∈ args, P path) (n : Nat) :
    Unmounts P s (s.attempts umounts args n) := by
  induction n generalizing s with
  | zero => exact .refl s
  | succ n ih =>
    rw [attempts]
    split
    · exact umount_unmounts hP
    · exact (umount_unmounts hP).trans ih

theorem attempts_hits (args : List Text) (n : Nat) :
    Hits w s (s.attempts (fun _ p => p = w) args n) := by
  induction n generalizing s with
  | zero => exact .refl w s
  | succ n ih =>
    rw [attempts]
    split
    · exact umount_hits args
    · exact (umount_hits args).trans ih

theorem attempts_hit {args : List Text} {m : Mount} {n : Nat} (hw : w ∈ args) (hm : m ∈ s.mounts)
    (hdir : m.dir = w) : (s.attempts (fun _ p => p = w) args (n + 1)).Hit w := by
  have hfirst := umount_hit hw hm hdir
  rw [attempts]
  split
  · exact hfirst
  · exact (attempts_hits args n).keeps hfirst

end Unmounting

end

namespace Container

variable {c : Container} {s : Unmounting}

/-! ## Both loops -/

theorem umountParts_unmounts {P : Text → Prop} {umounts : Nat → Text → Bool} {mask : Text}
    (hP : ∀ line ∈ c.parts mask s.mounts, ∀ part ∈ c.expand line, ∀ path ∈ c.expand part, P path) :
    Unmounts P s (c.umountParts umounts mask s) := by
  unfold umountParts
  have hparts : ∀ part ∈ (c.parts mask s.mounts).flatMap c.expand, ∀ path ∈ c.expand part,
      P path := by
    intro part hpart
    obtain ⟨line, hline, hpart⟩ := List.mem_flatMap.mp hpart
    exact hP line hline part hpart
  generalize (c.parts mask s.mounts).flatMap c.expand = parts at hparts
  clear hP
  induction parts generalizing s with
  | nil => exact .refl s
  | cons part parts ih =>
    exact (Unmounting.attempts_unmounts (hparts part List.mem_cons_self) 3).trans
      (ih fun p hp => hparts p (List.mem_cons_of_mem _ hp))

theorem foldl_hits {w : Text} (parts : List Text) :
    Hits w s (parts.foldl (fun s part => s.attempts (fun _ p => p = w) (c.expand part) 3) s) := by
  induction parts generalizing s with
  | nil => exact .refl w s
  | cons part parts ih => exact (Unmounting.attempts_hits (c.expand part) 3).trans ih

theorem umountParts_hit {w line part mask : Text} {m : Mount}
    (hline : line ∈ c.parts mask s.mounts) (hpart : part ∈ c.expand line)
    (hw : w ∈ c.expand part) (hm : m ∈ s.mounts) (hdir : m.dir = w) :
    (c.umountParts (fun _ p => p = w) mask s).Hit w := by
  unfold umountParts
  have hmem : part ∈ (c.parts mask s.mounts).flatMap c.expand :=
    List.mem_flatMap.mpr ⟨line, hline, hpart⟩
  generalize (c.parts mask s.mounts).flatMap c.expand = parts at hmem
  clear hline
  induction parts generalizing s with
  | nil => cases hmem
  | cons part' parts ih =>
    rw [List.foldl_cons]
    obtain rfl | hmem := List.mem_cons.mp hmem
    · exact (foldl_hits parts).keeps (Unmounting.attempts_hit hw hm hdir)
    · exact (Unmounting.attempts_hits _ 3).hit_of_trans (fun hm' => ih hm' hmem)
        (foldl_hits parts) hm

theorem mangle_isWord {path : Text} (h : path ≠ []) : IsWord (mangle path) := by
  constructor
  · cases path with
    | nil => exact absurd rfl h
    | cons c path =>
      unfold mangle
      rw [List.flatMap_cons]
      split_ifs <;> simp
  · intro d hd
    obtain ⟨c, -, hd⟩ := List.mem_flatMap.mp hd
    split_ifs at hd with hblank htab hnewline hbackslash
    · exact (by decide : ∀ d ∈ ['\\', '0', '4', '0'], isBlank d = false) d hd
    · exact (by decide : ∀ d ∈ ['\\', '0', '1', '1'], isBlank d = false) d hd
    · exact (by decide : ∀ d ∈ ['\\', '0', '1', '2'], isBlank d = false) d hd
    · exact (by decide : ∀ d ∈ ['\\', '1', '3', '4'], isBlank d = false) d hd
    · obtain rfl := List.mem_singleton.mp hd
      simp [isBlank, hblank, htab, hnewline]

/-- The second column of the mount table. -/
theorem field_line (m : Mount) : field 2 m.line = mangle m.dir :=
  field_two (mangle_isWord m.source_ne) (mangle_isWord m.dir_ne) rfl rfl _

/-- Between blanks a line shows its mount point, and the fields after it. -/
theorem infix_line_iff {m : Mount} {path : Text} (hpath : ' ' ∉ path) :
    ' ' :: path ++ [' '] <:+: m.line ↔
      mangle m.dir = path ∨ ' ' :: path ++ [' '] <:+: ' ' :: m.options := by
  constructor
  · intro h
    rw [Mount.line, List.cons_append] at h
    rcases List.infix_cons_iff.mp (infix_of_append (mangle_isWord m.source_ne).blank_not_mem h) with
      hfirst | hlater
    · obtain ⟨-, hfirst⟩ := List.cons_prefix_cons.mp hfirst
      exact .inl (eq_of_prefix_blank hpath (mangle_isWord m.dir_ne).blank_not_mem hfirst).symm
    · exact .inr (infix_of_append (mangle_isWord m.dir_ne).blank_not_mem hlater)
  · rintro (rfl | hoptions)
    · exact ⟨mangle m.source, m.options, by simp [Mount.line]⟩
    · refine hoptions.trans ⟨mangle m.source ++ ' ' :: mangle m.dir, [], ?_⟩
      simp [Mount.line]

theorem mem_parts {mask line : Text} {mounts : List Mount} : line ∈ c.parts mask mounts ↔
    ∃ m ∈ mounts, c.grep (c.partPattern mask) (mangle m.dir) = true ∧ mangle m.dir = line := by
  unfold parts
  rw [List.mem_insertionSort, List.mem_filter]
  constructor
  · rintro ⟨hline, hgrep⟩
    obtain ⟨m, hm, rfl⟩ := List.mem_map.mp hline
    rw [field_line] at hgrep ⊢
    exact ⟨m, hm, hgrep, rfl⟩
  · rintro ⟨m, hm, hgrep, rfl⟩
    exact ⟨List.mem_map.mpr ⟨m, hm, field_line m⟩, hgrep⟩

/-- What both loops remove together. -/
def umounted (c : Container) (umounts : Nat → Text → Bool) : Unmounting :=
  c.umountParts umounts ['*'] (c.umountParts umounts ['.', '*'] ⟨c.mounts, [], 0⟩)

/-- A removed mount is one that a mount point which matches leads to. -/
theorem umounted_removed {umounts : Nat → Text → Bool} {m' : Mount}
    (hm' : m' ∈ (c.umounted umounts).removed) : m' ∈ c.mounts ∧
      ∃ m ∈ c.mounts, c.FindsMount m ∧ ∃ part ∈ c.expand (mangle m.dir),
        m'.dir ∈ c.expand part := by
  let P := fun path => ∃ m ∈ c.mounts, c.FindsMount m ∧ ∃ part ∈ c.expand (mangle m.dir),
    path ∈ c.expand part
  have hfirst : Unmounts P ⟨c.mounts, [], 0⟩
      (c.umountParts umounts ['.', '*'] ⟨c.mounts, [], 0⟩) := by
    refine umountParts_unmounts fun line hline part hpart path hpath => ?_
    obtain ⟨m, hm, hgrep, rfl⟩ := mem_parts.mp hline
    exact ⟨m, hm, .inl hgrep, part, hpart, hpath⟩
  have hsecond : Unmounts P (c.umountParts umounts ['.', '*'] ⟨c.mounts, [], 0⟩)
      (c.umounted umounts) := by
    refine umountParts_unmounts fun line hline part hpart path hpath => ?_
    obtain ⟨m, hm, hgrep, rfl⟩ := mem_parts.mp hline
    exact ⟨m, hfirst.mounts hm, .inr hgrep, part, hpart, hpath⟩
  obtain hnil | h := (hfirst.trans hsecond).removed m' hm'
  · cases hnil
  · exact h

/-- When the calls for one path succeed and all others fail, a mount there is removed, if a
mount point that matches leads to it. -/
theorem umounted_hit {m m' : Mount} {part : Text} (hm : m ∈ c.mounts) (hfinds : c.FindsMount m)
    (hpart : part ∈ c.expand (mangle m.dir)) (hm' : m' ∈ c.mounts)
    (hdir : m'.dir ∈ c.expand part) : (c.umounted fun _ p => p = m'.dir).Hit m'.dir := by
  have hfirst : Hits m'.dir ⟨c.mounts, [], 0⟩
      (c.umountParts (fun _ p => p = m'.dir) ['.', '*'] ⟨c.mounts, [], 0⟩) := foldl_hits _
  have hsecond := foldl_hits (c := c) (w := m'.dir)
    (s := c.umountParts (fun _ p => p = m'.dir) ['.', '*'] ⟨c.mounts, [], 0⟩)
  obtain hgrep | hgrep := hfinds
  · refine (hsecond _).keeps ?_
    exact umountParts_hit (mem_parts.mpr ⟨m, hm, hgrep, rfl⟩) hpart hdir hm' rfl
  · obtain hhit | hsame := hfirst.same
    · exact (hsecond _).keeps hhit
    · -- nothing has been removed yet
      have hline : mangle m.dir ∈ c.parts ['*'] (c.umountParts (fun _ p => p = m'.dir)
          ['.', '*'] ⟨c.mounts, [], 0⟩).mounts :=
        mem_parts.mpr ⟨m, by rw [hsame]; exact hm, hgrep, rfl⟩
      exact umountParts_hit hline hpart hdir (by rw [hsame]; exact hm') rfl

/-! ## The loop device -/

theorem takeWhile_line (d : LoopDevice) : d.line.takeWhile (· ≠ ':') = d.device := by
  unfold LoopDevice.line
  rw [List.takeWhile_append_of_pos fun c hc => by simpa using (d.device_plain c hc).1]
  simp

/-- The name that is detached is that of the only device found. -/
theorem device_eq_loop {d : LoopDevice} (hd : d ∈ c.loops) : d.device = c.loop ↔
    c.loops.filter (fun d => c.grep (stripSlash c.TARGET_PATH) d.line) = [d] := by
  unfold loop
  have hsubset : c.loops.filter (fun d => c.grep (stripSlash c.TARGET_PATH) d.line) ⊆ c.loops :=
    List.filter_subset_self _
  generalize c.loops.filter (fun d => c.grep (stripSlash c.TARGET_PATH) d.line) = found at hsubset
  constructor
  · intro h
    cases found with
    | nil => exact absurd h d.device_ne
    | cons d₁ found =>
      cases found with
      | nil =>
        rw [List.map_singleton, List.intercalate_singleton, takeWhile_line] at h
        rw [List.inj_on_of_nodup_map c.loops_nodup hd (hsubset List.mem_cons_self) h]
      | cons d₂ found =>
        -- several names are no name of a device
        rw [List.map_cons, List.map_cons, List.intercalate_cons_cons] at h
        have hmem : '\n' ∈ d.device := by
          rw [h]
          simp
        exact absurd rfl (d.device_plain _ hmem).2
  · rintro rfl
    rw [List.map_singleton, List.intercalate_singleton, takeWhile_line]

/-! ## Only the container -/

theorem container_umount_eq (hpath : c.TARGET_PATH ≠ []) (hmounted : c.container_mounted = true)
    (o : Outcomes) : c.container_umount o =
      { killed := c.kill_pids c.pids
        removed := (c.umounted o.umount).removed
        detached := if o.losetup then c.loops.filter (·.device = c.loop) else [] } := by
  unfold container_umount
  rw [if_neg hpath, if_pos hmounted]
  rfl

/-- **Only the container is touched**, whichever calls fail, exactly when nothing is done or
the searches find nothing else. -/
theorem onlyContainer_iff (c : Container) : (∀ o, c.OnlyContainer (c.container_umount o)) ↔
    (c.TARGET_PATH ≠ [] → c.container_mounted = true → c.FindsOnly) := by
  constructor
  · -- each search is shown right by the outcomes in which only its own calls succeed
    intro h hpath hmounted
    simp only [container_umount_eq hpath hmounted] at h
    refine ⟨?_, ?_, ?_⟩
    · intro entry hentry hgrep hproc hpid
      refine (h ⟨fun _ _ => false, false⟩).killed _ (mem_kill_pids.mpr ?_)
      exact ⟨entry.2, mem_pids.mpr ⟨entry, hentry, hgrep, rfl⟩, rfl, hproc, hpid⟩
    · intro m hm hfinds part hpart m' hm' hdir
      obtain ⟨m'', hm'', heq⟩ := umounted_hit hm hfinds hpart hm' hdir
      rw [← heq]
      exact (h ⟨fun _ p => p = m'.dir, false⟩).removed m'' hm''
    · intro d hd
      have hmem : d ∈ c.loops := List.mem_of_mem_filter (hd ▸ List.mem_singleton_self d)
      have hdevice := (device_eq_loop hmem).mpr hd
      exact (h ⟨fun _ _ => false, true⟩).detached d
        (List.mem_filter.mpr ⟨hmem, by simpa using hdevice⟩)
  · intro h o
    by_cases hdone : c.TARGET_PATH ≠ [] ∧ c.container_mounted = true
    · obtain ⟨hpath, hmounted⟩ := hdone
      obtain ⟨hprocesses, hmounts, hloops⟩ := h hpath hmounted
      rw [container_umount_eq hpath hmounted]
      refine ⟨?_, ?_, ?_⟩
      · intro pid hpid
        obtain ⟨listed, hlisted, rfl, hproc, hpid⟩ := mem_kill_pids.mp hpid
        obtain ⟨entry, hentry, hgrep, rfl⟩ := mem_pids.mp hlisted
        exact hprocesses entry hentry hgrep hproc hpid
      · intro m' hm'
        obtain ⟨hmem, m, hm, hfinds, part, hpart, hdir⟩ := umounted_removed hm'
        exact hmounts m hm hfinds part hpart m' hmem hdir
      · intro d hd
        dsimp only at hd
        split at hd
        · obtain ⟨hmem, hdevice⟩ := List.mem_filter.mp hd
          exact hloops d ((device_eq_loop hmem).mp (of_decide_eq_true hdevice))
        · cases hd
    · have hnothing : c.container_umount o = ⟨[], [], []⟩ := by
        unfold container_umount
        split
        · rfl
        · next hpath =>
          rw [if_neg fun hmounted => hdone ⟨hpath, hmounted⟩]
      rw [hnothing]
      exact ⟨by simp, by simp, by simp⟩

/-- The container below `/mnt`, and a process with a file below `/mnt2`. -/
def beside : Container where
  METHOD := "chroot".toList
  CHROOT_DIR := "/mnt".toList
  TARGET_PATH := "/linux.img".toList
  lsof := {
    long := false
    files := [⟨['7'], "/bin/sh".toList, [], "/mnt2/log".toList, by decide⟩]
    command_isWord := by simp
    itself := by simp }
  mounts := [⟨"/dev/block/loop0".toList, "/mnt".toList, "ext4 rw 0 0".toList, by decide, by decide⟩]
  loops := []
  loops_nodup := .nil
  cat := fun _ => none
  proc := fun pid => pid = ['7']
  proc_isWord := by
    intro pid h
    obtain rfl := of_decide_eq_true h
    exact .inr (by decide)
  glob := fun word => [word]
  other := fun _ _ => false

/-- A path that merely begins with `CHROOT_DIR`: its process is killed. -/
theorem not_onlyContainer : ¬ ∀ (c : Container) o, c.OnlyContainer (c.container_umount o) := by
  intro h
  have hkilled := (h beside ⟨fun _ _ => true, true⟩).killed ['7'] (by decide)
  obtain ⟨f, hf, -, hpath⟩ := hkilled
  obtain rfl := List.mem_singleton.mp hf
  exact absurd hpath (by decide)

/-! ## Paths without pattern characters -/

theorem components_stripSlash (path : Text) : components (stripSlash path) = components path := by
  unfold stripSlash
  split
  · next hlast =>
    obtain ⟨dir, rfl⟩ := List.getLast?_eq_some_iff.mp hlast
    rw [List.dropLast_concat]
    exact (components_append_slashes dir (by simp)).symm
  · rfl

theorem head?_stripSlash {path : Text} (hne : stripSlash path ≠ []) :
    (stripSlash path).head? = path.head? := by
  unfold stripSlash at hne ⊢
  split
  · next hlast =>
    rw [if_pos hlast] at hne
    rw [List.head?_dropLast, if_pos]
    have hlength := List.length_pos_iff.mpr hne
    rw [List.length_dropLast] at hlength
    omega
  · rfl

/-- What starts with the path and a slash lies below it. -/
theorem atOrBelow_of_prefix {dir path : Text} (hdir : dir.head? = some '/')
    (h : stripSlash dir ++ ['/'] <+: path) : AtOrBelow dir path := by
  obtain ⟨rest, rfl⟩ := h
  rw [List.append_assoc, List.singleton_append]
  refine ⟨iff_of_true hdir ?_, ?_⟩
  · by_cases hne : stripSlash dir = []
    · rw [hne]
      rfl
    · rw [List.head?_append_of_ne_nil _ hne, head?_stripSlash hne, hdir]
  · rw [← components_stripSlash dir]
    unfold components
    rw [pieces_append_cons _ _ (by rfl)]
    exact List.prefix_append _ _

/-- Without its last slash it is the path itself. -/
theorem atOrBelow_stripSlash {dir : Text} (hne : stripSlash dir ≠ []) :
    AtOrBelow dir (stripSlash dir) :=
  ⟨by rw [head?_stripSlash hne], by rw [components_stripSlash]⟩

theorem mangle_of_forall {path : Text} (h : ∀ ch ∈ path, ch ∉ [' ', '\t', '\n', '\\']) :
    mangle path = path := by
  unfold mangle
  rw [List.flatMap_congr (g := fun d => [d]) fun d hd => ?_]
  · exact List.flatMap_singleton' path
  · have hplain := h d hd
    simp only [List.mem_cons, List.not_mem_nil, or_false, not_or] at hplain
    obtain ⟨hblank, htab, hnewline, hbackslash⟩ := hplain
    rw [if_neg hblank, if_neg htab, if_neg hnewline, if_neg hbackslash]

theorem mangle_plain {path : Text} (h : Plain path) : mangle path = path := by
  refine mangle_of_forall fun ch hch hmem => h ch hch ?_
  simp only [List.mem_cons, List.not_mem_nil, or_false] at hmem ⊢
  tauto

theorem expand_plain (hglob : ∀ word, Plain word → c.glob word = [word]) {path : Text}
    (hne : path ≠ []) (h : Plain path) : c.expand path = [path] := by
  have hword : IsWord path := mangle_plain h ▸ mangle_isWord hne
  unfold expand
  rw [words_of_isWord hword, List.flatMap_singleton, hglob path h]

/-- The pattern of the first pass finds what starts with the path and a slash. -/
theorem grep_first (hliteral : Literal (stripSlash c.CHROOT_DIR)) (path : Text) :
    c.grep (c.partPattern ['.', '*']) path = true ↔ stripSlash c.CHROOT_DIR ++ ['/'] <+: path := by
  have hpattern : c.partPattern ['.', '*'] =
      '^' :: stripSlash c.CHROOT_DIR ++ ['/', '.', '*', '$'] := by simp [partPattern]
  rw [hpattern]
  exact grep_below hliteral

/-- The pattern of the second pass finds the path with any number of slashes behind it. -/
theorem grep_second (hliteral : Literal (stripSlash c.CHROOT_DIR)) (path : Text) :
    c.grep (c.partPattern ['*']) path = true ↔
      ∃ slashes, path = stripSlash c.CHROOT_DIR ++ slashes ∧ ∀ d ∈ slashes, d = '/' := by
  have hpattern : c.partPattern ['*'] = '^' :: stripSlash c.CHROOT_DIR ++ ['/', '*', '$'] := by
    simp [partPattern]
  rw [hpattern]
  exact grep_slashes hliteral

/-- A mount point that matches a literal path lies at or below it. -/
theorem atOrBelow_of_findsMount (habsolute : c.CHROOT_DIR.head? = some '/')
    (hliteral : Literal (stripSlash c.CHROOT_DIR)) {m : Mount} (hplain : Plain m.dir)
    (h : c.FindsMount m) : AtOrBelow c.CHROOT_DIR m.dir := by
  unfold FindsMount at h
  rw [mangle_plain hplain] at h
  obtain h | h := h
  · exact atOrBelow_of_prefix habsolute ((grep_first hliteral _).mp h)
  · obtain ⟨slashes, hdir, hall⟩ := (grep_second hliteral _).mp h
    cases slashes with
    | nil =>
      rw [List.append_nil] at hdir
      rw [hdir]
      exact atOrBelow_stripSlash (hdir ▸ m.dir_ne)
    | cons d slashes =>
      obtain rfl := hall d List.mem_cons_self
      exact atOrBelow_of_prefix habsolute ⟨slashes, by rw [hdir]; simp⟩

/-- **For literal paths** the mounts are always right; the processes and the loop device are
right when the paths stand in no line that is about something else, and no file stands for
the number of a process. -/
theorem findsOnly_of_literal (habsolute : c.CHROOT_DIR.head? = some '/')
    (hliteral : Literal (stripSlash c.CHROOT_DIR)) (htarget : Literal (stripSlash c.TARGET_PATH))
    (hoption : (stripSlash c.TARGET_PATH).head? ≠ some '-')
    (hglob : ∀ word, Plain word → c.glob word = [word]) (hplain : ∀ m ∈ c.mounts, Plain m.dir)
    (hcat : ∀ pid, c.cat (c.CHROOT_DIR ++ pid) = none)
    (hlsof : ∀ f ∈ c.lsof.files, stripSlash c.CHROOT_DIR <:+: f.line c.lsof.long →
      c.HasOpenFile f.pid)
    (hloops : ∀ d ∈ c.loops, stripSlash c.TARGET_PATH <:+: d.line →
      SamePath d.file c.TARGET_PATH) : c.FindsOnly := by
  have hpid : ∀ pid, c.pidOf pid = pid := by
    intro pid
    unfold pidOf
    rw [hcat]
  have hstart : (stripSlash c.CHROOT_DIR).head? ≠ some '-' := by
    intro hhead
    have hne : stripSlash c.CHROOT_DIR ≠ [] := by
      intro hnil
      rw [hnil] at hhead
      cases hhead
    rw [head?_stripSlash hne, habsolute] at hhead
    exact absurd hhead (by decide)
  refine ⟨?_, ?_, ?_⟩
  · intro entry hentry hgrep hproc hnumber
    rw [hpid] at hnumber ⊢
    obtain hheader | hfile := List.mem_append.mp hentry
    · -- the header shows no process
      split at hheader
      · obtain rfl := List.mem_singleton.mp hheader
        exact absurd hnumber (by decide)
      · cases hheader
    · obtain ⟨f, hf, rfl⟩ := List.mem_map.mp hfile
      exact hlsof f hf ((grep_literal hliteral hstart).mp hgrep)
  · intro m hm hfinds part hpart m' hm' hdir
    rw [mangle_plain (hplain m hm), expand_plain hglob m.dir_ne (hplain m hm)] at hpart
    obtain rfl := List.mem_singleton.mp hpart
    rw [expand_plain hglob m.dir_ne (hplain m hm)] at hdir
    rw [List.mem_singleton.mp hdir]
    exact atOrBelow_of_findsMount habsolute hliteral (hplain m hm) hfinds
  · intro d hd
    have hmem : d ∈ c.loops.filter fun d => c.grep (stripSlash c.TARGET_PATH) d.line :=
      hd ▸ List.mem_singleton_self d
    obtain ⟨hmem, hgrep⟩ := List.mem_filter.mp hmem
    exact hloops d hmem ((grep_literal htarget hoption).mp hgrep)

end Container

end Anx.Cli
