import Mathlib.Order.MinMax

/-!
# SQL values, comparisons and three-valued logic

What the plan rewriter's conditions compute with. A condition's value is a SQL truth value:
`some b`, or `none` for NULL. A comparison is NULL when either side is NULL, except the
null-safe `<=>`; `AND`, `OR` and `NOT` are Kleene's connectives, and `IF(c, a, b)` takes `a`
only when `c` is TRUE.

The compared values range over any linear order `V`: the type of the compared columns does not
matter to the rewrites.

## Main definitions

* `CmpOp`, `CmpOp.holds`, `sqlCmp`: the comparison functions.
* `sqlAnd`, `sqlOr`, `sqlNot`, `sqlIf`: the connectives.
-/

namespace Gleam.Plan

/-- The comparison functions `<`, `<=`, `>`, `>=`, `=`, `!=` and `<=>`. -/
inductive CmpOp where
  | lt | le | gt | ge | eq | ne | nullEq
  deriving DecidableEq, Repr

variable {α : Type} [LinearOrder α]

/-- `a op b` on two non-NULL values. -/
def CmpOp.holds : CmpOp → α → α → Bool
  | .lt, a, b => decide (a < b)
  | .le, a, b => decide (a ≤ b)
  | .gt, a, b => decide (b < a)
  | .ge, a, b => decide (b ≤ a)
  | .eq, a, b => decide (a = b)
  | .ne, a, b => decide (a ≠ b)
  | .nullEq, a, b => decide (a = b)

/-- `a op b` on two values that may be NULL. -/
def sqlCmp (op : CmpOp) : Option α → Option α → Option Bool
  | some a, some b => some (op.holds a b)
  | none, none => if op = .nullEq then some true else none
  | _, _ => if op = .nullEq then some false else none

@[simp] theorem sqlCmp_some (op : CmpOp) (a b : α) :
    sqlCmp op (some a) (some b) = some (op.holds a b) := rfl

theorem sqlCmp_none_left {op : CmpOp} (h : op ≠ .nullEq) (b : Option α) :
    sqlCmp op none b = none := by
  cases b <;> simp [sqlCmp, h]

theorem sqlCmp_none_right {op : CmpOp} (h : op ≠ .nullEq) (a : Option α) :
    sqlCmp op a none = none := by
  cases a <;> simp [sqlCmp, h]

/-- SQL `AND`: FALSE if either side is FALSE, else NULL if either is NULL. -/
def sqlAnd : Option Bool → Option Bool → Option Bool
  | some false, _ => some false
  | _, some false => some false
  | some true, b => b
  | none, _ => none

/-- SQL `OR`: TRUE if either side is TRUE, else NULL if either is NULL. -/
def sqlOr : Option Bool → Option Bool → Option Bool
  | some true, _ => some true
  | _, some true => some true
  | some false, b => b
  | none, _ => none

/-- SQL `NOT`. -/
def sqlNot : Option Bool → Option Bool
  | some b => some !b
  | none => none

/-- `IF(c, a, b)`: `a` when `c` is TRUE, `b` when it is FALSE or NULL. -/
def sqlIf (c a b : Option Bool) : Option Bool := if c = some true then a else b

@[simp] theorem sqlAnd_true_left (b : Option Bool) : sqlAnd (some true) b = b := by
  cases b with
  | none => rfl
  | some b => cases b <;> rfl

@[simp] theorem sqlAnd_true_right (a : Option Bool) : sqlAnd a (some true) = a := by
  rcases a with _ | _ | _ <;> rfl

@[simp] theorem sqlOr_false_left (b : Option Bool) : sqlOr (some false) b = b := by
  cases b with
  | none => rfl
  | some b => cases b <;> rfl

@[simp] theorem sqlOr_false_right (a : Option Bool) : sqlOr a (some false) = a := by
  rcases a with _ | _ | _ <;> rfl

@[simp] theorem sqlOr_true_right (a : Option Bool) : sqlOr a (some true) = some true := by
  rcases a with _ | _ | _ <;> rfl

@[simp] theorem sqlAnd_false_right (a : Option Bool) : sqlAnd a (some false) = some false := by
  rcases a with _ | _ | _ <;> rfl

@[simp] theorem sqlAnd_false_left (b : Option Bool) : sqlAnd (some false) b = some false := by
  rcases b with _ | _ | _ <;> rfl

@[simp] theorem sqlOr_true_left (b : Option Bool) : sqlOr (some true) b = some true := by
  rcases b with _ | _ | _ <;> rfl

@[simp] theorem sqlAnd_none_none : sqlAnd none none = none := rfl

@[simp] theorem sqlOr_none_none : sqlOr none none = none := rfl

theorem sqlAnd_eq_some_true {a b : Option Bool} :
    sqlAnd a b = some true ↔ a = some true ∧ b = some true := by
  rcases a with _ | _ | _ <;> rcases b with _ | _ | _ <;> simp [sqlAnd]

theorem sqlOr_eq_some_true {a b : Option Bool} :
    sqlOr a b = some true ↔ a = some true ∨ b = some true := by
  rcases a with _ | _ | _ <;> rcases b with _ | _ | _ <;> simp [sqlOr]

theorem sqlNot_eq_some_true {a : Option Bool} : sqlNot a = some true ↔ a = some false := by
  rcases a with _ | _ | _ <;> simp [sqlNot]

theorem sqlAnd_comm (a b : Option Bool) : sqlAnd a b = sqlAnd b a := by
  rcases a with _ | _ | _ <;> rcases b with _ | _ | _ <;> rfl

theorem sqlAnd_assoc (a b c : Option Bool) : sqlAnd (sqlAnd a b) c = sqlAnd a (sqlAnd b c) := by
  rcases a with _ | _ | _ <;> rcases b with _ | _ | _ <;> rcases c with _ | _ | _ <;> rfl

/-- De Morgan in three-valued logic. -/
theorem sqlNot_sqlAnd (a b : Option Bool) : sqlNot (sqlAnd a b) = sqlOr (sqlNot a) (sqlNot b) := by
  rcases a with _ | _ | _ <;> rcases b with _ | _ | _ <;> rfl

end Gleam.Plan
