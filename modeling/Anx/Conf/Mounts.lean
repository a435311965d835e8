import Anx.Conf.PrefStore
import Anx.Conf.ProfileRead
import Anx.Lib.Glob
import Anx.Lib.Words

/-!
# Mount points

A list of mounts goes as pairs `source:target` into the parameter `mounts`, and from there
back into the app, and through the file of the profile to the command line, which takes the
pairs apart in another way.

- `Mount`, `setMounts`, `getMounts`, `setMountsList`: the app (MountAdapter.java:55–78,
  PrefStore.java:638–641);
- `pairOf`, `rounds`, `do_start`: the command line (core/mnt/deploy.sh:17–47);
- `Mount.Plain`: mounts without blanks, colons and what the shell acts on;
- `get_set_mounts`: **what is set is read**, whether mounts were on or off;
- `mounts_survive`: **both ends get the list of mounts** back.
-/

namespace Anx.Conf

open Anx.Lib Store PropertiesStore

structure Mount where
  source : Text
  target : Text
deriving DecidableEq

/-! ## The app -/

namespace MountAdapter

/-- The loop body of `setMounts`. -/
def mountOf (mount : Text) : Mount :=
  match splitFirst ':' mount with
  | (source, some target) => ⟨source, target⟩
  | (source, none) => ⟨source, []⟩

/-- `setMounts`: the mounts of the adapter. -/
def setMounts (mounts : List Text) : List Mount := mounts.map mountOf

/-- The loop body of `getMounts`. -/
def itemOf (mount : Mount) : Text :=
  if mount.target = [] then mount.source else mount.source ++ ':' :: mount.target

/-- `getMounts`. -/
def getMounts (mounts : List Mount) : List Text := mounts.map itemOf

end MountAdapter

/-- `setMountsList`. -/
def PrefStore.setMountsList {File : Type} (s : PrefStore File) (list : List Text) :
    PrefStore File :=
  { s with properties := PROPERTIES.set s.properties mountsKey ([' '].intercalate list) }

/-! ## The command line -/

namespace Cli

def MOUNTS : Text := "MOUNTS".toList

/-- `disk_src` and `disk_dst` of an item: `${item%%:*}` and `${item##*:}`. -/
def pairOf (item : Text) : Text × Text :=
  (removeLongestEnd [.lit ':', .star] item, removeLongest [.star, .lit ':'] item)

/-- The rounds of the loop in `do_start`. -/
def rounds (sh : Shell) (METHOD mounts : Text) : List (Text × Text) :=
  if METHOD = "chroot".toList ∧ mounts ≠ [] then ((words mounts).flatMap sh.glob).map pairOf else []

/-- `[ -n "${disk_src}" -a -n "${disk_dst}" ]`, with the arguments of `test`. -/
def bothGiven (test : List Text → Bool) (pair : Text × Text) : Bool :=
  test ["-n".toList, pair.1, "-a".toList, "-n".toList, pair.2]

/-- The pairs that `do_start` mounts, unless they are mounted. -/
def do_start (sh : Shell) (test : List Text → Bool) (METHOD mounts : Text) : List (Text × Text) :=
  (rounds sh METHOD mounts).filter (bothGiven test)

/-- A word without pattern characters, also those of shells with `@(..)` and `{..}`. -/
def NoPattern (word : Text) : Prop := ∀ ch ∈ word, ch ∉ ['*', '?', '[', '\\', '(', '{']

/-- Pathname expansion as documented: a word without pattern characters stays. -/
def Shell.KeepsPlain (sh : Shell) : Prop := ∀ word, NoPattern word → sh.glob word = [word]

/-- What `test` may take for an operator. -/
def operators : List Text :=
  ["=", "==", "!=", "<", ">", "-eq", "-ne", "-gt", "-ge", "-lt", "-le", "-nt", "-ot", "-ef", "-a",
    "-o", "!", "(", ")"].map String.toList

/-- `test` as documented: it finds out whether both texts are given, unless the first one
looks like an operator. -/
def TestsBoth (test : List Text → Bool) : Prop :=
  ∀ pair : Text × Text, pair.1 ∉ operators →
    bothGiven test pair = decide (pair.1 ≠ [] ∧ pair.2 ≠ [])

end Cli

/-! ## Plain mounts -/

namespace Mount

/-- A character that is neither a blank nor a colon, and that the shell takes as it is. No
word of the shell has the NUL character. -/
def isPlain (ch : Char) : Bool :=
  ch ∉ [' ', '\t', '\n', '\r', ':', '\x00', '"', '\\', '$', '`', '*', '?', '[', '(', '{']

/-- A mount with a source, and with plain characters only. -/
structure Plain (m : Mount) : Prop where
  source_ne : m.source ≠ []
  source : ∀ ch ∈ m.source, isPlain ch = true
  target : ∀ ch ∈ m.target, isPlain ch = true

instance (m : Mount) : Decidable m.Plain :=
  decidable_of_iff (m.source ≠ [] ∧ (∀ ch ∈ m.source, isPlain ch = true) ∧
    ∀ ch ∈ m.target, isPlain ch = true) ⟨fun h => ⟨h.1, h.2.1, h.2.2⟩, fun h => ⟨h.1, h.2, h.3⟩⟩

/-- The mount as a pair; without a target it is mounted where it is. -/
def pair (m : Mount) : Text × Text := (m.source, if m.target = [] then m.source else m.target)

variable {m : Mount}

theorem colon_not_mem {text : Text} (h : ∀ ch ∈ text, isPlain ch = true) : ':' ∉ text :=
  fun hmem => absurd (h ':' hmem) (by decide)

open MountAdapter

theorem Plain.itemOf_ne (h : m.Plain) : itemOf m ≠ [] := by
  unfold itemOf
  split
  · exact h.source_ne
  · exact List.append_ne_nil_of_left_ne_nil h.source_ne _

/-- The characters of an item. -/
theorem Plain.mem_itemOf (h : m.Plain) : ∀ ch ∈ itemOf m, isPlain ch = true ∨ ch = ':' := by
  intro ch hch
  unfold itemOf at hch
  split at hch
  · exact .inl (h.source ch hch)
  · rcases List.mem_append.mp hch with hch | hch
    · exact .inl (h.source ch hch)
    · rcases List.mem_cons.mp hch with rfl | hch
      · exact .inr rfl
      · exact .inl (h.target ch hch)

/-- **The app takes an item apart** at its first colon. -/
theorem Plain.mountOf_itemOf (h : m.Plain) : mountOf (itemOf m) = m := by
  unfold itemOf mountOf
  by_cases htarget : m.target = []
  · rw [if_pos htarget, splitFirst_of_not_mem (colon_not_mem h.source), ← htarget]
  · rw [if_neg htarget, splitFirst_append_cons (colon_not_mem h.source)]

/-- **The command line takes it apart** at its first and at its last colon. -/
theorem Plain.pairOf_itemOf (h : m.Plain) : Cli.pairOf (itemOf m) = m.pair := by
  unfold itemOf Cli.pairOf pair
  by_cases htarget : m.target = []
  · rw [if_pos htarget, if_pos htarget,
      removeLongestEnd_lit_star_of_not_mem (colon_not_mem h.source),
      removeLongest_star_lit_of_not_mem (colon_not_mem h.source)]
  · rw [if_neg htarget, if_neg htarget, removeLongestEnd_lit_star (colon_not_mem h.source),
      removeLongest_star_lit _ (colon_not_mem h.target)]

end Mount

/-! ## The parameter -/

namespace PropertiesStore

variable {c : Context} {password : Text}

/-- Setting the mounts switches them on, unless there are none. -/
theorem getElem?_set_mounts (prefs : Prefs) (val : Text) {key : Text} (hkey : key ≠ mountsKey) :
    (PROPERTIES.set prefs mountsKey val)[key]? =
      if key = isMountsKey ∧ val ≠ [] then some (.boolean true) else prefs[key]? := by
  have hcalls : (PROPERTIES.fixInputParam mountsKey val).2 =
      enable (val ≠ []) isMountsKey := rfl
  rw [getElem?_set_other prefs hkey, hcalls]
  by_cases hval : val = []
  · simp [hval, enable]
  · have htyped : typed trueText (PROPERTIES.fixInputParam isMountsKey trueText).1 =
        .boolean true := rfl
    simp only [hval, enable, ne_eq, not_false_eq_true, decide_true, if_true, and_true,
      List.foldl_cons, List.foldl_nil, put, htyped]
    rw [Std.ExtTreeMap.getElem?_insert]
    by_cases hmounts : key = isMountsKey
    · simp [hmounts]
    · simp [hmounts, Ne.symm hmounts]

/-- **What is set is read**, whether mounts were on or off. -/
theorem get_set_mounts (prefs : Prefs) (val : Text) :
    PROPERTIES.get c password (PROPERTIES.set prefs mountsKey val) mountsKey = val := by
  have hvalue : value c (PROPERTIES.set prefs mountsKey val) mountsKey = val := value_set prefs rfl
  rw [get_mounts, hvalue]
  by_cases hval : val = []
  · rw [hval, ite_self]
  · -- the switch was set, too
    have hswitch : value c (PROPERTIES.set prefs mountsKey val) isMountsKey = trueText := by
      rw [value, getElem?_set_mounts prefs val (by decide), if_pos ⟨rfl, hval⟩]
      rfl
    rw [isTrue, if_pos (decide_eq_true hswitch)]

/-- The other parameters stay. -/
theorem get_set_mounts_other (prefs : Prefs) (val : Text) {key : Text} (hkey : key ∈ params)
    (hne : key ≠ mountsKey) :
    PROPERTIES.get c password (PROPERTIES.set prefs mountsKey val) key =
      PROPERTIES.get c password prefs key := by
  have hvalue : ∀ key', key' ≠ mountsKey → key' ≠ isMountsKey →
      value c (PROPERTIES.set prefs mountsKey val) key' = value c prefs key' := by
    intro key' hmounts hswitch
    rw [value, getElem?_set_mounts prefs val hmounts, if_neg fun h => hswitch h.1, value]
  by_cases hinclude : key = includeKey
  · subst hinclude
    have htoggle : ∀ component ∈ components,
        isTrue (value c (PROPERTIES.set prefs mountsKey val)) component.2 =
          isTrue (value c prefs) component.2 := by
      have hall : ∀ component ∈ components,
          component.2 ≠ mountsKey ∧ component.2 ≠ isMountsKey := by decide
      intro component h
      rw [isTrue, isTrue, hvalue _ (hall component h).1 (hall component h).2]
    have hinit := htoggle (init, isInitKey) (by decide)
    have hssh := htoggle (ssh, isSshKey) (by decide)
    have hpulse := htoggle (pulse, isPulseKey) (by decide)
    have hgui := htoggle (graphics, isGuiKey) (by decide)
    rw [get_include, get_include, hinit, hssh, hpulse, hgui]
  · have hswitch : key ≠ isMountsKey := by
      rintro rfl
      exact (toggle_other (by decide)).1 hkey
    exact get_congr hne hinclude (hvalue key hne hswitch)

/-- **The profile** changes in its parameter `MOUNTS` only. -/
theorem getAll_set_mounts (prefs : Prefs) (val : Text) (key : Text) :
    (PROPERTIES.getAll c password (PROPERTIES.set prefs mountsKey val))[key]? =
      if key = Cli.MOUNTS then some val else (PROPERTIES.getAll c password prefs)[key]? := by
  by_cases hkey : key = Cli.MOUNTS
  · subst hkey
    have hget : (PROPERTIES.getAll c password (PROPERTIES.set prefs mountsKey val))[
        toUpperCase mountsKey]? = _ := getElem?_getAll_param _ (by decide)
    rw [get_set_mounts] at hget
    rw [if_pos rfl]
    exact hget
  · rw [if_neg hkey, getElem?_getAll, getElem?_getAll]
    split
    · next hupper =>
      obtain ⟨param, hparam, rfl⟩ := List.mem_map.mp hupper
      have hlower := (PROPERTIES.params_lower param hparam).2.1
      have hne : param ≠ mountsKey := by
        rintro rfl
        exact hkey rfl
      rw [hlower, get_set_mounts_other prefs val hparam hne]
    · split
      · next hupper =>
        -- neither the parameter nor the switch is an upper-case key
        have hmounts : key ≠ mountsKey := by
          rintro rfl
          exact absurd hupper (by decide)
        have hswitch : key ≠ isMountsKey := by
          rintro rfl
          exact absurd hupper (by decide)
        rw [getElem?_set_mounts prefs val hmounts, if_neg fun h => hswitch h.1]
      · rfl

end PropertiesStore

/-! ## The list -/

open MountAdapter

variable {mounts : List Mount} {c : Context}

/-- **The list of texts** is loaded as it was saved. -/
theorem getMountsList_setMountsList {File : Type} (c : Context) (s : PrefStore File)
    {list : List Text} (h : ∀ text ∈ list, text ≠ [] ∧ ' ' ∉ text) :
    (s.setMountsList list).getMountsList c = list := by
  have hstr : (s.setMountsList list).getProperty c mountsKey = [' '].intercalate list :=
    get_set_mounts _ _
  rw [PrefStore.getMountsList, hstr]
  by_cases hlist : list = []
  · rw [hlist]
    rfl
  · exact (if_neg (intercalate_ne_nil hlist fun text ht => (h text ht).1)).trans
      (split_intercalate hlist h)

namespace Mount

/-- A character that is not plain is in no saved text. -/
theorem not_mem_saved (h : ∀ m ∈ mounts, m.Plain) {ch : Char} (hplain : isPlain ch = false)
    (hblank : ch ≠ ' ') (hcolon : ch ≠ ':') : ch ∉ [' '].intercalate (getMounts mounts) := by
  refine not_mem_intercalate (by simpa using hblank) fun part hpart hch => ?_
  obtain ⟨m, hm, rfl⟩ := List.mem_map.mp hpart
  rcases (h m hm).mem_itemOf ch hch with hch | hch
  · rw [hplain] at hch
    cases hch
  · exact hcolon hch

theorem saved_isLiteral (h : ∀ m ∈ mounts, m.Plain) :
    Cli.IsLiteral ([' '].intercalate (getMounts mounts)) := by
  have hnot : ∀ ch ∈ ['"', '\n', '\r', '\\', '$', '`'],
      ch ∉ [' '].intercalate (getMounts mounts) := by
    have hall : ∀ ch ∈ ['"', '\n', '\r', '\\', '$', '`'],
        isPlain ch = false ∧ ch ≠ ' ' ∧ ch ≠ ':' := by decide
    intro ch hch
    obtain ⟨hplain, hblank, hcolon⟩ := hall ch hch
    exact not_mem_saved h hplain hblank hcolon
  refine ⟨⟨hnot _ (by decide), fun ch hch => ⟨?_, ?_⟩⟩, fun ch hch hspecial => ?_⟩
  · rintro rfl
    exact hnot _ (by decide) hch
  · rintro rfl
    exact hnot _ (by decide) hch
  · exact hnot ch (List.mem_of_mem_drop (i := 3) hspecial) hch

/-- An item is a word without pattern characters. -/
theorem Plain.itemOf_word {m : Mount} (h : m.Plain) :
    IsWord (itemOf m) ∧ Cli.NoPattern (itemOf m) := by
  have hchar : ∀ ch ∈ itemOf m,
      isBlank ch = false ∧ ch ∉ ['*', '?', '[', '\\', '(', '{'] := by
    intro ch hch
    rcases h.mem_itemOf ch hch with hplain | rfl
    · simp only [isPlain, decide_eq_true_eq, List.mem_cons, not_or] at hplain
      simp [isBlank, hplain]
    · decide
  exact ⟨⟨h.itemOf_ne, fun ch hch => (hchar ch hch).1⟩, fun ch hch => (hchar ch hch).2⟩

end Mount

namespace Cli

variable {sh : Shell}

/-- **The rounds** of the command line are the mounts. -/
theorem rounds_saved (hsh : sh.KeepsPlain) (h : ∀ m ∈ mounts, m.Plain) :
    rounds sh "chroot".toList ([' '].intercalate (getMounts mounts)) = mounts.map Mount.pair := by
  by_cases hmounts : mounts = []
  · subst hmounts
    exact if_neg fun hne => hne.2 rfl
  · have hitems : ∀ text ∈ getMounts mounts, IsWord text ∧ NoPattern text := by
      intro text ht
      obtain ⟨m, hm, rfl⟩ := List.mem_map.mp ht
      exact (h m hm).itemOf_word
    have hne : [' '].intercalate (getMounts mounts) ≠ [] :=
      intercalate_ne_nil (by simpa [getMounts] using hmounts) fun text ht => (hitems text ht).1.1
    have hwords : words ([' '].intercalate (getMounts mounts)) = getMounts mounts :=
      pieces_intercalate rfl fun text ht => (hitems text ht).1
    have hglob : (getMounts mounts).flatMap sh.glob = getMounts mounts := by
      rw [List.flatMap_congr fun text ht => hsh text (hitems text ht).2]
      exact List.flatMap_singleton' _
    rw [rounds, if_pos ⟨rfl, hne⟩, hwords, hglob, getMounts, List.map_map]
    exact List.map_congr_left fun m hm => (h m hm).pairOf_itemOf

/-- The check lets all mounts through whose source does not look like an operator. -/
theorem do_start_saved {test : List Text → Bool} (htest : TestsBoth test) (hsh : sh.KeepsPlain)
    (h : ∀ m ∈ mounts, m.Plain) (hoperator : ∀ m ∈ mounts, m.source ∉ operators) :
    do_start sh test "chroot".toList ([' '].intercalate (getMounts mounts)) =
      mounts.map Mount.pair := by
  rw [do_start, rounds_saved hsh h, List.filter_eq_self]
  intro pair hpair
  obtain ⟨m, hm, rfl⟩ := List.mem_map.mp hpair
  rw [htest m.pair (hoperator m hm), decide_eq_true_eq]
  refine ⟨(h m hm).source_ne, ?_⟩
  unfold Mount.pair
  split
  · exact (h m hm).source_ne
  · assumption

end Cli

/-- **The list of mounts survives**, in the app and on the way to the command line. There the
other lines of the profile, which may have variables to expand, have to assign their own
variables only: `eval` runs whatever they have. -/
theorem mounts_survive (c : Context) (s : PrefStore Text) {mounts : List Mount}
    (h : ∀ m ∈ mounts, m.Plain) :
    setMounts ((s.setMountsList (getMounts mounts)).getMountsList c) = mounts ∧
    ∀ (sh : Cli.Bash) (frame : Cli.Locals) (vars : Cli.Vars) (test : List Text → Bool)
      (password : Text),
      sh.Expands → sh.KeepsPlain → sh.special Cli.MOUNTS = false → Cli.TestsBoth test →
      (∀ key value : Text, (PROPERTIES.getAll c password s.properties)[key]? = some value →
        key ≠ Cli.MOUNTS → sh.Assigns frame key value) →
      ∃ file vars',
        ((s.setMountsList (getMounts mounts)).dumpProperties confFile c password).confs
          (s.getProfileName c) = some file ∧
        Cli.paramsReadIn sh frame vars file = some vars' ∧
        Cli.rounds sh.toShell "chroot".toList (Cli.lookup vars' [] Cli.MOUNTS) =
          mounts.map Mount.pair ∧
        ((∀ m ∈ mounts, m.source ∉ Cli.operators) →
          Cli.do_start sh.toShell test "chroot".toList (Cli.lookup vars' [] Cli.MOUNTS) =
            mounts.map Mount.pair) := by
  constructor
  · have hlist : (s.setMountsList (getMounts mounts)).getMountsList c = getMounts mounts := by
      refine getMountsList_setMountsList c s fun text ht => ?_
      obtain ⟨m, hm, rfl⟩ := List.mem_map.mp ht
      have hword := (h m hm).itemOf_word.1
      exact ⟨hword.1, fun hblank => absurd (hword.2 ' ' hblank) (by decide)⟩
    rw [hlist, setMounts, getMounts, List.map_map]
    exact List.map_congr_left (fun m hm => (h m hm).mountOf_itemOf) |>.trans (List.map_id _)
  · intro sh frame vars test password hexpands hplain hspecial htest hothers
    have hget : (PROPERTIES.getAll c password (s.setMountsList (getMounts mounts)).properties)[
        Cli.MOUNTS]? = some ([' '].intercalate (getMounts mounts)) :=
      (getAll_set_mounts _ _ _).trans (if_pos rfl)
    have hassigns : ∀ key value : Text, (PROPERTIES.getAll c password
        (s.setMountsList (getMounts mounts)).properties)[key]? = some value →
        key ≠ Cli.MOUNTS → sh.Assigns frame key value := by
      intro key value hother hne
      refine hothers key value ?_ hne
      rwa [PrefStore.setMountsList, getAll_set_mounts, if_neg hne] at hother
    obtain ⟨vars', hread, hvalue⟩ := Cli.paramsReadIn_writeConf hexpands vars
      (fun _ _ => isKey_of_getAll) hget (by decide) (by decide) (by decide) hspecial
      (Mount.saved_isLiteral h) (Mount.not_mem_saved h (by decide) (by decide) (by decide)) hassigns
    have hlookup : Cli.lookup vars' [] Cli.MOUNTS = [' '].intercalate (getMounts mounts) := by
      show (vars'.env[Cli.MOUNTS]?).getD [] = _
      rw [hvalue, Option.getD_some]
    refine ⟨_, vars', Function.update_self _ _ _, hread, ?_, ?_⟩
    · rw [hlookup]
      exact Cli.rounds_saved hplain h
    · rw [hlookup]
      exact Cli.do_start_saved htest hplain h

/-- The default of `target_path`, of which the shell expands the variable. -/
def sdcard : Context :=
  { PrefStore.phone with
    string := fun key => if key = "target_path".toList then
      some "$\x7bEXTERNAL_STORAGE\x7d/linux.img".toList else PrefStore.phone.string key }

/-- A mount in place and another one, in a profile in which mounts are off. -/
theorem mounts_survive_pair :
    let s : PrefStore Text := ⟨∅, ∅, none, fun _ => none⟩
    let mounts : List Mount := [⟨"/system".toList, []⟩, ⟨"/data/media".toList, "/mnt".toList⟩]
    let test : List Text → Bool := fun args => args[1]? ≠ some [] ∧ args[4]? ≠ some []
    let vars : Cli.Vars := ⟨.ofList [("EXTERNAL_STORAGE".toList, "/sdcard".toList),
      (Cli.OPTLST, [' '])], []⟩
    setMounts ((s.setMountsList (getMounts mounts)).getMountsList sdcard) = mounts ∧
    ∃ file vars',
      ((s.setMountsList (getMounts mounts)).dumpProperties confFile sdcard
        "changeme".toList).confs "linux".toList = some file ∧
      Cli.paramsReadIn Cli.namesBash [] vars file = some vars' ∧
      Cli.rounds Cli.namesBash.toShell "chroot".toList (Cli.lookup vars' [] Cli.MOUNTS) =
        mounts.map Mount.pair ∧
      Cli.do_start Cli.namesBash.toShell test "chroot".toList (Cli.lookup vars' [] Cli.MOUNTS) =
        mounts.map Mount.pair := by
  intro s mounts test vars
  obtain ⟨happ, hcli⟩ := mounts_survive sdcard s (show ∀ m ∈ mounts, m.Plain by decide)
  have hothers : ∀ entry ∈ (PROPERTIES.getAll sdcard "changeme".toList s.properties).toList,
      Cli.IsName entry.1 ∧ entry.1.length ≤ 32 ∧ ParamUtils.IsValue entry.2 ∧
        ('\\' ∉ entry.2 ∧ '\x00' ∉ entry.2) ∧ Cli.NamesOnly entry.2 := by decide +kernel
  have hexpands : Cli.namesBash.Expands := literalShell_expands
  have hassigns : ∀ key value : Text,
      (PROPERTIES.getAll sdcard "changeme".toList s.properties)[key]? = some value →
      key ≠ Cli.MOUNTS → Cli.namesBash.Assigns [] key value := by
    intro key value hget _
    obtain ⟨hname, hlen, hvalue, hplain, hnames⟩ :=
      hothers (key, value) (Std.ExtTreeMap.mem_toList_iff_getElem?_eq_some.mpr hget)
    exact Cli.assigns_of_namesOnly hexpands hname hlen rfl hvalue hplain hnames
  have htest : Cli.TestsBoth test := fun pair _ => by simp [Cli.bothGiven, test]
  obtain ⟨file, vars', hfile, hread, hrounds, hstart⟩ :=
    hcli Cli.namesBash [] vars test "changeme".toList hexpands (fun _ _ => rfl) rfl htest hassigns
  exact ⟨happ, file, vars', hfile, hread, hrounds, hstart (by decide)⟩

end Anx.Conf
