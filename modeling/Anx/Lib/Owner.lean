import Mathlib.Logic.Function.Basic

/-!
# Objects that own a name

An object takes a name when it is made and gives it up when it is destroyed, as a
listening socket does with its path. Making it takes the name from whoever has it;
destroying it removes the name, whoever has it by then.

- `Bound`: an object with its name;
- `bind`, `release`: the effect of making and of destroying one on the names;
- `replace`: an owner that makes the new object before it destroys the old one;
- `names_replace_iff`: **what replacement needs**: the new object keeps its name exactly
  if the old one had another.
-/

namespace Anx.Lib

universe u v

/-- An object and the name it has been made with. -/
structure Bound (P : Type u) (I : Type v) where
  name : P
  id : I
deriving DecidableEq, Repr

namespace Bound

variable {P : Type u} {I : Type v} [DecidableEq P]

/-- A new object takes its name. -/
def bind (names : P → Option I) (new : Bound P I) : P → Option I :=
  Function.update names new.name (some new.id)

/-- The object of an owner, if it has one, goes, and its name with it. -/
def release (names : P → Option I) : Option (Bound P I) → P → Option I
  | some old => Function.update names old.name none
  | none => names

/-- An owner gets a new object: that is made first, and the old one goes after it. -/
def replace (names : P → Option I) (old : Option (Bound P I)) (new : Bound P I) : P → Option I :=
  release (bind names new) old

/-- Who asks for the name of the object finds the object. -/
def Names (names : P → Option I) (b : Bound P I) : Prop := names b.name = some b.id

instance [DecidableEq I] (names : P → Option I) (b : Bound P I) : Decidable (Names names b) :=
  inferInstanceAs (Decidable (_ = _))

variable {names : P → Option I} {old : Option (Bound P I)} {new : Bound P I}

theorem names_bind : Names (bind names new) new := Function.update_self _ _ _

/-- Other names stand for what they stood for. -/
theorem replace_of_ne {p : P} (hnew : p ≠ new.name) (hold : ∀ b ∈ old, p ≠ b.name) :
    replace names old new p = names p := by
  cases old with
  | none => exact Function.update_of_ne hnew _ _
  | some b =>
    have hb : p ≠ b.name := hold b rfl
    rw [replace, release, Function.update_of_ne hb, bind, Function.update_of_ne hnew]

/-- **What replacement needs** of the old object. -/
theorem names_replace_iff : Names (replace names old new) new ↔ ∀ b ∈ old, b.name ≠ new.name := by
  cases old with
  | none => exact ⟨fun _ _ hb => (nomatch hb), fun _ => names_bind⟩
  | some b =>
    constructor
    · -- the name that the old object gives up is not the one that the new object has
      rintro h c ⟨⟩ heq
      rw [Names, replace, release, ← heq, Function.update_self] at h
      cases h
    · intro h
      have hne : new.name ≠ b.name := (h b rfl).symm
      rw [Names, replace, release, Function.update_of_ne hne]
      exact names_bind

end Bound

end Anx.Lib
