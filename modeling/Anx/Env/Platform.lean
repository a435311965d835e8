import Anx.Env.Extract
import Anx.Lib.Glob

/-!
# The architectures of the app and of the CLI

The app goes by the first letter of an architecture and by whether it has `64` in it, the
CLI by patterns. `core/emulator` needs QEMU if the CLI sees another platform in the
architecture of the container than in that of the system.

- `getArch`, `get_platform`, `get_qemu`: the functions;
- `get_platform_cases`: the patterns in terms of the architectures that match them;
- `getArch_eq_iff`: **they agree but for the names in `arm` with `64` that are not `arm64`**;
- `get_qemu_eq_nil_iff_getArch`: where they agree, QEMU is needed exactly if the app sees
  two platforms.
-/

namespace Anx.Env

open Anx.Lib

/-- The first character of `arch.toLowerCase()`, by that of `arch`, where the lower case of
`I` is `i`. -/
def firstLower (ch : Char) : Char := if ch = '\u0130' then 'i' else ch.toLower

/-- What both sides look for. -/
def sixtyFour : Text := "64".toList

/-- `PrefStore.getArch`. -/
def getArch (arch : Text) : Arch :=
  match arch with
  | [] => .unknown
  | ch :: _ =>
    let a := firstLower ch
    if a = 'a' then
      if arch = "amd64".toList then .x86_64
      else if sixtyFour <:+: arch then .arm_64
      else .arm
    else if a = 'i' ∨ a = 'x' then
      if sixtyFour <:+: arch then .x86_64 else .x86
    else .unknown

/-- The pattern of a word without special characters. -/
def word (text : String) : List Tok := text.toList.map .lit

/-- The pattern `i[3-6]86`. -/
def i86 : List Tok := [.lit 'i', .bracket false ['3', '4', '5', '6'], .lit '8', .lit '6']

/-- `get_platform`, where `uname -m` prints `uname`. -/
def get_platform (uname arch : Text) : Arch :=
  let arch := if arch = [] then uname else arch
  if matchesPattern (word "arm64") arch || matchesPattern (word "aarch64") arch then .arm_64
  else if matchesPattern (word "arm" ++ [.star]) arch then .arm
  else if matchesPattern (word "x86_64") arch || matchesPattern (word "amd64") arch then .x86_64
  else if matchesPattern i86 arch || matchesPattern (word "x86") arch then .x86
  else .unknown

/-- `get_qemu`. -/
def get_qemu (uname arch : Text) : Text :=
  let host_platform := get_platform uname []
  let guest_platform := get_platform uname arch
  if host_platform ≠ guest_platform then
    match guest_platform with
    | .arm => "qemu-arm-static".toList
    | .arm_64 => "qemu-aarch64-static".toList
    | .x86 => "qemu-i386-static".toList
    | .x86_64 => "qemu-x86_64-static".toList
    | .unknown => []
  else []

/-! ## The patterns -/

theorem matchesPattern_i86 {arch : Text} : matchesPattern i86 arch = true ↔
    arch ∈ ["i386".toList, "i486".toList, "i586".toList, "i686".toList] := by
  constructor
  · intro h
    unfold i86 at h
    rcases arch with _ | ⟨a, _ | ⟨b, _ | ⟨c, _ | ⟨d, rest⟩⟩⟩⟩
    · cases h
    · simp [matchesPattern] at h
    · simp [matchesPattern] at h
    · simp [matchesPattern] at h
    · simp only [matchesPattern, Bool.and_eq_true, decide_eq_true_eq] at h
      obtain ⟨rfl, hb, rfl, rfl, rfl⟩ := h
      have hb' : b ∈ ['3', '4', '5', '6'] := by simpa using hb
      simp only [List.mem_cons, List.not_mem_nil, or_false] at hb'
      rcases hb' with rfl | rfl | rfl | rfl <;> decide
  · intro h
    simp only [List.mem_cons, List.not_mem_nil, or_false] at h
    rcases h with rfl | rfl | rfl | rfl <;> decide

/-- What an architecture is to the CLI. -/
theorem get_platform_cases (uname : Text) {arch : Text} (hne : arch ≠ []) :
    (arch ∈ ["arm64".toList, "aarch64".toList] ∧ get_platform uname arch = .arm_64) ∨
      ("arm".toList <+: arch ∧ arch ≠ "arm64".toList ∧ get_platform uname arch = .arm) ∨
      (arch ∈ ["x86_64".toList, "amd64".toList] ∧ get_platform uname arch = .x86_64) ∨
      (arch ∈ ["i386".toList, "i486".toList, "i586".toList, "i686".toList, "x86".toList] ∧
        get_platform uname arch = .x86) ∨
      get_platform uname arch = .unknown := by
  unfold get_platform word
  simp only [if_neg hne, Bool.or_eq_true, matchesPattern_text, matchesPattern_lits,
    matchesPattern_i86]
  by_cases harm64 : arch = "arm64".toList ∨ arch = "aarch64".toList
  · rw [if_pos harm64]
    exact .inl ⟨by simpa using harm64, rfl⟩
  rw [if_neg harm64]
  by_cases harm : "arm".toList <+: arch
  · rw [if_pos harm]
    exact .inr (.inl ⟨harm, fun h => harm64 (.inl h), rfl⟩)
  rw [if_neg harm]
  by_cases hamd64 : arch = "x86_64".toList ∨ arch = "amd64".toList
  · rw [if_pos hamd64]
    exact .inr (.inr (.inl ⟨by simpa using hamd64, rfl⟩))
  rw [if_neg hamd64]
  by_cases hx86 : arch ∈ ["i386".toList, "i486".toList, "i586".toList, "i686".toList] ∨
      arch = "x86".toList
  · rw [if_pos hx86]
    refine .inr (.inr (.inr (.inl ⟨?_, rfl⟩)))
    rcases hx86 with h | rfl
    · exact List.mem_append_left ["x86".toList] h
    · decide
  · rw [if_neg hx86]
    exact .inr (.inr (.inr (.inr rfl)))

/-- Without an architecture the platform is that of the system. -/
theorem get_platform_nil (uname : Text) : get_platform uname [] = get_platform uname uname := by
  cases uname with
  | nil => rfl
  | cons ch uname => rfl

/-! ## When both sides agree -/

/-- A name in `arm` is 64 bit to the app as soon as it has the number in it. -/
theorem getArch_arm {arch : Text} (h : "arm".toList <+: arch) :
    getArch arch = if sixtyFour <:+: arch then .arm_64 else .arm := by
  obtain ⟨rest, rfl⟩ : ∃ rest, arch = 'a' :: 'r' :: rest := by
    obtain ⟨rest, rfl⟩ := h
    exact ⟨'m' :: rest, by simp⟩
  have hfirst : getArch ('a' :: 'r' :: rest) =
      if 'a' :: 'r' :: rest = "amd64".toList then .x86_64
      else if sixtyFour <:+: 'a' :: 'r' :: rest then .arm_64 else .arm := by
    have ha : firstLower 'a' = 'a' := by decide
    unfold getArch
    dsimp only
    rw [if_pos ha]
  have hamd64 : 'a' :: 'r' :: rest ≠ "amd64".toList := by
    intro heq
    have hsecond := congrArg (·[1]?) heq
    simp at hsecond
  rw [hfirst, if_neg hamd64]

/-- **The app and the CLI agree** on an architecture that the CLI knows, exactly if there is
one and it is not a name in `arm` with `64` in it, other than `arm64`. -/
theorem getArch_eq_iff {uname arch : Text} (hknown : get_platform uname arch ≠ .unknown) :
    getArch arch = get_platform uname arch ↔ arch ≠ [] ∧
      ¬ ("arm".toList <+: arch ∧ arch ≠ "arm64".toList ∧ "64".toList <:+: arch) := by
  by_cases hne : arch = []
  · subst hne
    simp only [ne_eq, not_true_eq_false, false_and, iff_false]
    exact fun h => hknown h.symm
  rw [and_iff_right hne]
  rcases get_platform_cases uname hne with
    ⟨hmem, hplatform⟩ | ⟨harm, harm64, hplatform⟩ | ⟨hmem, hplatform⟩ | ⟨hmem, hplatform⟩ | h
  · rw [hplatform]
    simp only [List.mem_cons, List.not_mem_nil, or_false] at hmem
    rcases hmem with rfl | rfl <;> decide
  · rw [hplatform, getArch_arm harm]
    by_cases h64 : sixtyFour <:+: arch
    · rw [if_pos h64]
      exact iff_of_false (by decide) fun hnot => hnot ⟨harm, harm64, h64⟩
    · rw [if_neg h64]
      exact iff_of_true rfl fun hnot => h64 hnot.2.2
  · rw [hplatform]
    simp only [List.mem_cons, List.not_mem_nil, or_false] at hmem
    rcases hmem with rfl | rfl <;> decide
  · rw [hplatform]
    simp only [List.mem_cons, List.not_mem_nil, or_false] at hmem
    rcases hmem with rfl | rfl | rfl | rfl | rfl <;> decide
  · exact absurd h hknown

/-- A 32 bit name. -/
theorem getArch_eq_iff_armhf :
    getArch "armhf".toList = get_platform "aarch64".toList "armhf".toList :=
  (getArch_eq_iff (by decide)).mpr (by decide)

/-- The name that Android has for the instruction set of `arm64`. -/
theorem not_getArch_eq : ¬ ∀ uname arch : Text, get_platform uname arch ≠ .unknown →
    getArch arch = get_platform uname arch := by
  intro h
  exact absurd (h "aarch64".toList "arm64-v8a".toList (by decide)) (by decide)

/-! ## QEMU -/

/-- An emulator is named exactly if the platforms differ and that of the container is known. -/
theorem get_qemu_eq_nil_iff {uname arch : Text} : get_qemu uname arch = [] ↔
    get_platform uname uname = get_platform uname arch ∨ get_platform uname arch = .unknown := by
  unfold get_qemu
  dsimp only
  rw [get_platform_nil]
  by_cases hsame : get_platform uname uname = get_platform uname arch
  · simp [hsame]
  · rw [if_pos hsame, or_iff_right hsame]
    cases get_platform uname arch <;> decide

/-- **Where both sides agree**, QEMU is not needed exactly if the app sees one platform. -/
theorem get_qemu_eq_nil_iff_getArch {uname arch : Text}
    (huname : getArch uname = get_platform uname uname)
    (harch : getArch arch = get_platform uname arch) (hknown : getArch arch ≠ .unknown) :
    get_qemu uname arch = [] ↔ getArch uname = getArch arch := by
  rw [get_qemu_eq_nil_iff, ← huname, ← harch, or_iff_left hknown]

end Anx.Env
