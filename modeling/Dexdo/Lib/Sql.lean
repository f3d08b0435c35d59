import Mathlib.Data.Int.Notation
import Mathlib.Tactic

namespace Dexdo.Sql

/-- Truth value of an SQL condition; `none` is UNKNOWN. -/
abbrev Truth := Option Bool

def or : Truth → Truth → Truth
  | some true, _ | _, some true => some true
  | some false, some false => some false
  | _, _ => none

def and : Truth → Truth → Truth
  | some false, _ | _, some false => some false
  | some true, some true => some true
  | _, _ => none

variable {α : Type}

def isNull (x : Option α) : Truth := some x.isNone

def isNotNull (x : Option α) : Truth := some x.isSome

/-- `x >= y`. -/
def ge (x y : Option ℤ) : Truth := do
  let a ← x
  let b ← y
  return decide (b ≤ a)

/-- `case when … then … else otherwise end`: an UNKNOWN arm is passed over. -/
def caseWhen (otherwise : α) : List (Truth × α) → α
  | [] => otherwise
  | (cond, value) :: arms => if cond = some true then value else caseWhen otherwise arms

/-- `x = any(xs)`. -/
def eqAny [DecidableEq α] (x : α) (xs : List α) : Truth := some (decide (x ∈ xs))

/-- `nulls last`, the place of NULL in an ascending order. -/
def nullsLast (x : Option ℤ) : WithTop ℤ := x

@[simp] theorem or_eq_true {a b : Truth} : or a b = some true ↔ a = some true ∨ b = some true := by
  unfold or
  split <;> simp_all

@[simp] theorem and_eq_true {a b : Truth} :
    and a b = some true ↔ a = some true ∧ b = some true := by
  unfold and
  split <;> simp_all

@[simp] theorem isNull_eq_true {x : Option α} : isNull x = some true ↔ x = none := by
  simp [isNull]

@[simp] theorem isNotNull_eq_true {x : Option α} : isNotNull x = some true ↔ x.isSome = true := by
  simp [isNotNull]

@[simp] theorem ge_some {a b : ℤ} : ge (some a) (some b) = some true ↔ b ≤ a := by
  simp [ge]

@[simp] theorem eqAny_eq_true [DecidableEq α] {x : α} {xs : List α} :
    eqAny x xs = some true ↔ x ∈ xs := by
  simp [eqAny]

end Dexdo.Sql
