import Mathlib.Data.List.Dedup
import Mathlib.Data.List.Infix
import Anx.Lib.Code
import Anx.Lib.Lines

/-!
# Files

The files that the app works on, and the calls of `java.io` that do so.

- `Path`, `Node`, `Fs`: names below each other, and what is found there;
- `Op`, `perform`: the calls, each of which the environment may let fail;
- `perform_get`: **a call changes one path at most**.

Symbolic links are not modelled: what stands at a path is a directory or a file.
-/

namespace Anx.Env

open Anx.Lib

abbrev Bytes := List UInt8

/-- The names on the way to a file. -/
abbrev Path := List Text

inductive Node where
  | dir
  | file (bytes : Bytes)
deriving DecidableEq, Repr

/-- What stands in the file system; the first entry of a path counts. -/
structure Fs where
  entries : List (Path × Node)

namespace Fs

/-- What stands at the path. -/
def get (fs : Fs) (p : Path) : Option Node := fs.entries.lookup p

def put (fs : Fs) (p : Path) (n : Node) : Fs := ⟨(p, n) :: fs.entries⟩

def erase (fs : Fs) (p : Path) : Fs := ⟨fs.entries.filter fun e => e.1 ≠ p⟩

theorem get_cons (e : Path × Node) (entries : List (Path × Node)) (q : Path) :
    (Fs.mk (e :: entries)).get q = if q = e.1 then some e.2 else (Fs.mk entries).get q := by
  unfold get
  rw [List.lookup_cons]
  by_cases h : q = e.1
  · rw [if_pos h, beq_iff_eq.mpr h]
  · rw [if_neg h, beq_eq_false_iff_ne.mpr h]

@[simp] theorem get_put (fs : Fs) (p q : Path) (n : Node) :
    (fs.put p n).get q = if q = p then some n else fs.get q := get_cons (p, n) fs.entries q

@[simp] theorem get_erase (fs : Fs) (p q : Path) :
    (fs.erase p).get q = if q = p then none else fs.get q := by
  obtain ⟨entries⟩ := fs
  unfold erase
  induction entries with
  | nil => simp [get]
  | cons e entries ih =>
    rw [List.filter_cons, get_cons]
    by_cases he : e.1 = p
    · rw [if_neg (by simpa using he), ih, he]
      split <;> rfl
    · rw [if_pos (by simpa using he), get_cons, ih]
      by_cases hq : q = e.1
      · rw [if_pos hq, if_pos hq, if_neg fun h => he (hq.symm.trans h)]
      · rw [if_neg hq, if_neg hq]

/-- Something stands below the path. -/
def hasBelow (fs : Fs) (p : Path) : Bool := fs.entries.any fun e => p <+: e.1 ∧ e.1 ≠ p

/-- The directory of the path exists. -/
def parentIsDir (fs : Fs) (p : Path) : Bool := p ≠ [] && fs.get p.dropLast = some .dir

/-- The names in a directory. -/
def children (fs : Fs) (p : Path) : List Text :=
  (fs.entries.filterMap fun e => if e.1.dropLast = p then e.1.getLast? else none).dedup

end Fs

/-- What the environment chooses for a call: whether it fails, and how many bytes it reads
or writes, or in which order it lists names. -/
structure Choice where
  ok : Bool
  size : Nat
  names : List Text

/-- A call. `io` stands for those that only may throw, `create` for opening a file to write,
`createNew` for what makes a file unless something stands there, and `rewrite` for a
command that changes a file at once. -/
inductive Op where
  | io
  | read
  | exists_ (p : Path)
  | isDirectory (p : Path)
  | listFiles (p : Path)
  | delete (p : Path)
  | mkdir (p : Path)
  | create (p : Path)
  | createNew (p : Path)
  | write (p : Path) (bytes : Bytes)
  | rewrite (p : Path) (f : Bytes → Bytes)

namespace Op

/-- What a call answers; `none` and `false` also stand for an exception. -/
def Ans : Op → Type
  | .read => Option Nat
  | .listFiles _ => Option (List Text)
  | _ => Bool

/-- The path that a call may change. -/
def path : Op → Option Path
  | .io | .read | .exists_ _ | .isDirectory _ | .listFiles _ => none
  | .delete p | .mkdir p | .create p | .createNew p | .write p _ | .rewrite p _ => some p

/-- The effect of a call. -/
def perform : (o : Op) → Choice → Fs → o.Ans × Fs
  | .io, c, fs => (c.ok, fs)
  -- at least one byte, and at most what fits into the buffer
  | .read, c, fs => (if c.ok then some (max 1 (min c.size 1024)) else none, fs)
  | .exists_ p, _, fs => ((fs.get p).isSome, fs)
  | .isDirectory p, _, fs => (fs.get p == some .dir, fs)
  | .listFiles p, c, fs =>
    (if c.ok && fs.get p = some .dir then
      some (if c.names.isPerm (fs.children p) then c.names else fs.children p)
    else none, fs)
  | .delete p, c, fs =>
    if c.ok && (fs.get p).isSome && !fs.hasBelow p then (true, fs.erase p) else (false, fs)
  | .mkdir p, c, fs =>
    if c.ok && fs.get p = none && fs.parentIsDir p then (true, fs.put p .dir) else (false, fs)
  | .create p, c, fs =>
    if c.ok && fs.get p ≠ some .dir && fs.parentIsDir p then (true, fs.put p (.file []))
    else (false, fs)
  | .createNew p, c, fs =>
    if c.ok && fs.get p = none && fs.parentIsDir p then (true, fs.put p (.file []))
    else (false, fs)
  | .write p bytes, c, fs =>
    match fs.get p with
    | some (.file old) => (c.ok, fs.put p (.file (old ++ if c.ok then bytes else bytes.take c.size)))
    | _ => (c.ok, fs)
  | .rewrite p f, c, fs =>
    match fs.get p with
    | some (.file old) => if c.ok then (true, fs.put p (.file (f old))) else (false, fs)
    | _ => (false, fs)

/-- **A call changes one path at most.** -/
theorem perform_get {o : Op} {q : Path} (h : o.path ≠ some q) (c : Choice) (fs : Fs) :
    (o.perform c fs).2.get q = fs.get q := by
  cases o with
  | io | read | exists_ | isDirectory | listFiles => rfl
  | delete p | mkdir p | create p | createNew p =>
    have hne : q ≠ p := fun heq => h (by rw [heq]; rfl)
    simp only [perform]
    split <;> simp [hne]
  | write p | rewrite p =>
    have hne : q ≠ p := fun heq => h (by rw [heq]; rfl)
    simp only [perform]
    (repeat' split) <;> simp [hne]

theorem perform_get_of_ne {o : Op} {p q : Path} (ho : o.path = some p) (hq : q ≠ p) (c : Choice)
    (fs : Fs) : (o.perform c fs).2.get q = fs.get q :=
  perform_get (by rw [ho]; exact fun h => hq (Option.some.inj h).symm) c fs

end Op

/-- The calls as operations. -/
abbrev java : Operations Fs where
  Op := Op
  Ans := Op.Ans
  Choice := Choice
  perform := Op.perform

/-- Code of the app. -/
abbrev Java (α : Type) : Type := Code java α

namespace Java

def io : Java Bool := Code.perform (I := java) .io

def read : Java (Option Nat) := Code.perform (I := java) .read

def exists_ (p : Path) : Java Bool := Code.perform (I := java) (.exists_ p)

def isDirectory (p : Path) : Java Bool := Code.perform (I := java) (.isDirectory p)

def listFiles (p : Path) : Java (Option (List Text)) := Code.perform (I := java) (.listFiles p)

def delete (p : Path) : Java Bool := Code.perform (I := java) (.delete p)

def mkdir (p : Path) : Java Bool := Code.perform (I := java) (.mkdir p)

def create (p : Path) : Java Bool := Code.perform (I := java) (.create p)

def createNew (p : Path) : Java Bool := Code.perform (I := java) (.createNew p)

def write (p : Path) (bytes : Bytes) : Java Bool := Code.perform (I := java) (.write p bytes)

def rewrite (p : Path) (f : Bytes → Bytes) : Java Bool := Code.perform (I := java) (.rewrite p f)

section

variable {J : Op → Fs → Prop} {fs : Fs} {p : Path}

theorem wp_io {Q : Bool → Fs → Prop} :
    Java.io.wp J Q fs ↔ J .io fs ∧ ∀ c : Choice, Q c.ok fs := Iff.rfl

theorem wp_read {Q : Option Nat → Fs → Prop} : Java.read.wp J Q fs ↔ J .read fs ∧
    ∀ c : Choice, Q (if c.ok then some (max 1 (min c.size 1024)) else none) fs := Iff.rfl

theorem wp_exists {Q : Bool → Fs → Prop} : (Java.exists_ p).wp J Q fs ↔
    J (.exists_ p) fs ∧ (Choice → Q (fs.get p).isSome fs) := Iff.rfl

theorem wp_delete {Q : Bool → Fs → Prop} : (Java.delete p).wp J Q fs ↔ J (.delete p) fs ∧
    ∀ c, Q ((Op.delete p).perform c fs).1 ((Op.delete p).perform c fs).2 := Iff.rfl

theorem wp_mkdir {Q : Bool → Fs → Prop} : (Java.mkdir p).wp J Q fs ↔ J (.mkdir p) fs ∧
    ∀ c, Q ((Op.mkdir p).perform c fs).1 ((Op.mkdir p).perform c fs).2 := Iff.rfl

theorem wp_create {Q : Bool → Fs → Prop} : (Java.create p).wp J Q fs ↔ J (.create p) fs ∧
    ∀ c, Q ((Op.create p).perform c fs).1 ((Op.create p).perform c fs).2 := Iff.rfl

theorem wp_createNew {Q : Bool → Fs → Prop} : (Java.createNew p).wp J Q fs ↔
    J (.createNew p) fs ∧
      ∀ c, Q ((Op.createNew p).perform c fs).1 ((Op.createNew p).perform c fs).2 := Iff.rfl

theorem wp_write {Q : Bool → Fs → Prop} {bytes : Bytes} : (Java.write p bytes).wp J Q fs ↔
    J (.write p bytes) fs ∧
      ∀ c, Q ((Op.write p bytes).perform c fs).1 ((Op.write p bytes).perform c fs).2 := Iff.rfl

theorem wp_rewrite {Q : Bool → Fs → Prop} {f : Bytes → Bytes} : (Java.rewrite p f).wp J Q fs ↔
    J (.rewrite p f) fs ∧
      ∀ c, Q ((Op.rewrite p f).perform c fs).1 ((Op.rewrite p f).perform c fs).2 := Iff.rfl

end

end Java

/-- Before calls that change no other paths than those of `P`, `J` holds. -/
def Allows (J : Op → Fs → Prop) (P : Path → Prop) : Prop :=
  ∀ o fs, (∀ q, o.path = some q → P q) → J o fs

theorem Allows.mono {J : Op → Fs → Prop} {P P' : Path → Prop} (h : Allows J P)
    (hP : ∀ q, P' q → P q) : Allows J P' :=
  fun o fs ho => h o fs fun q hq => hP q (ho q hq)

/-- A call that changes no path is allowed. -/
theorem Allows.free {J : Op → Fs → Prop} {P : Path → Prop} (h : Allows J P) {o : Op}
    (ho : o.path = none) (fs : Fs) : J o fs :=
  h o fs fun q hq => by rw [ho] at hq; cases hq

/-- A call that changes one of the paths is allowed. -/
theorem Allows.at {J : Op → Fs → Prop} {P : Path → Prop} (h : Allows J P) {o : Op} {p : Path}
    (ho : o.path = some p) (hp : P p) (fs : Fs) : J o fs :=
  h o fs fun q hq => by rw [ho] at hq; cases hq; exact hp

end Anx.Env
