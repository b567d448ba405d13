import Gleam.Plan.RangeMerge
import Gleam.Plan.Like
import Gleam.Plan.Quantifier

/-!
# Range building: `rangeBuilder.build`

`build` turns a predicate over one column `c` into a list of range points: the values of `c` at
which the predicate may be TRUE. Comparisons with a constant, `IS TRUE`, `IS FALSE`, `IS NULL`,
`IN` and `LIKE` give their ranges directly, `NOT` of some of them too, and `AND` and `OR`
intersect and unite the ranges of their arguments with `merge`. Errors go to the builder's `err`
field, which only ever receives an error; it is passed through the functions here.

The `types` package is not in the source. `Domain` is what the builder uses of it: the values
of the column in the linear order `CompareDatum` computes, with `MinNotNull` and `MaxValue`
around them and NULL first (`Point`); the datum `0` that `SetInt64(0)` builds; and the string
datums that `NewStringDatum` and `SetBytesAsString` build, ordered as their bytes. `fullRange`,
also declared outside the source, is the range `[NULL, MaxValue]` of every value.

The caller has checked the shape of the predicate: a comparison has the column on one side and a
constant on the other, and the first argument of `IS TRUE`, `IN` and the like is the column.
`Func` has these shapes only.

## Main definitions

* `Domain`, `Expr`, `Func`: the values and the predicates.
* `Expr.eval`, `Func.eval`: the SQL value of a predicate at a value of the column.
* `build`, `buildFromScalarFunc` and the builders they call.
-/

namespace Gleam.Plan

variable {V : Type} [LinearOrder V]

/-- What the builder uses of the `types` package. -/
structure Domain (V : Type) [LinearOrder V] where
  /-- The datum `SetInt64(0)` builds, the only false value. -/
  zero : V
  /-- `NewStringDatum`, `SetBytesAsString`: the string datum of some bytes. -/
  ofBytes : List UInt8 → V
  /-- The bytes of a string datum; `none` for other datums. -/
  toBytes : V → Option (List UInt8)
  /-- A string datum is the datum of its bytes. -/
  ofBytes_toBytes : ∀ {v s}, toBytes v = some s → ofBytes s = v
  /-- `CompareDatum` orders string datums as their bytes. -/
  ofBytes_lt : ∀ {s t}, List.Lex (· < ·) s t → ofBytes s < ofBytes t

/-- An argument of `IN` after the column: a constant, or the column itself. -/
inductive Operand (V : Type) where
  | column
  | constant (value : Option V)

mutual

/-- An expression over the column: the column, a constant, or a scalar function. -/
inductive Expr (V : Type) where
  | column
  | constant (value : Option V)
  | scalarFunc (f : Func V)

/-- A scalar function, by the name `buildFromScalarFunc` switches on. `cmp op constLeft value`
compares the column with the constant `value`, which is the left argument iff `constLeft`;
`inList` is `c IN (list)`, and `like pattern escape` is `c LIKE pattern` with its escape byte. -/
inductive Func (V : Type) where
  | cmp (op : CmpOp) (constLeft : Bool) (value : Option V)
  | andAnd (a b : Expr V)
  | orOr (a b : Expr V)
  | isTruth
  | isFalsity
  | isNull
  | inList (list : List (Operand V))
  | like (pattern : List UInt8) (escape : UInt8)
  | unaryNot (f : Func V)

end

/-! ## The SQL value of a predicate -/

section Eval

variable (d : Domain V)

/-- A value as a truth value: NULL, or TRUE iff it is not `0`. -/
def truth (x : Option V) : Option Bool := x.map (· ≠ d.zero)

/-- The value of an `IN` argument when the column holds `x`. -/
def Operand.value (x : Option V) : Operand V → Option V
  | .column => x
  | .constant v => v

mutual

/-- The SQL value of an expression when the column holds `x`. -/
def Expr.eval (x : Option V) : Expr V → Option Bool
  | .column => truth d x
  | .constant v => truth d v
  | .scalarFunc f => f.eval x

/-- The SQL value of a scalar function when the column holds `x`. `IN` is `= ANY`; `LIKE` is
NULL on NULL and matches the bytes of a string, its meaning on a string column. On a value that
is not a string it is FALSE here; MySQL matches a number by its string form, which
`Expr.evalOnInt` models for an integer column. -/
def Func.eval (x : Option V) : Func V → Option Bool
  | .cmp op constLeft value => if constLeft then sqlCmp op value x else sqlCmp op x value
  | .andAnd a b => sqlAnd (a.eval x) (b.eval x)
  | .orOr a b => sqlOr (a.eval x) (b.eval x)
  | .isTruth => some (truth d x == some true)
  | .isFalsity => some (truth d x == some false)
  | .isNull => some x.isNone
  | .inList list => Quantified.anyValue .eq x (list.map (Operand.value x))
  | .like pattern escape =>
    x.map fun v => match d.toBytes v with
      | some s => likeMatch (compilePattern escape pattern) s
      | none => false
  | .unaryNot f => sqlNot (f.eval x)

end

end Eval

/-- The functions `buildFromNot` builds a range for. -/
def Func.negatable : Func V → Bool
  | .isTruth | .isFalsity | .isNull | .inList _ | .like _ _ => true
  | _ => false

mutual

/-- The predicates the builder covers: no `<=>`, and `NOT` only of a function `buildFromNot`
handles. -/
def Expr.Supported : Expr V → Bool
  | .scalarFunc f => f.Supported
  | _ => true

/-- The scalar functions the builder covers. -/
def Func.Supported : Func V → Bool
  | .cmp op _ _ => op != .nullEq
  | .andAnd a b | .orOr a b => a.Supported && b.Supported
  | .unaryNot f => f.negatable
  | _ => true

end

/-! ## The builders -/

section Build

variable (d : Domain V)

/-- `fullRange`, declared outside the source: the range `[NULL, MaxValue]` of every value. -/
def fullRange : List (RangePoint V) := [{ start := true }, { value := .maxValue }]

/-- `buildFromConstant`: no range for NULL or a false constant, every value for a true one. -/
def buildFromConstant : Option V → List (RangePoint V)
  | none => []
  | some v => if v = d.zero then [] else fullRange

/-- `buildFromColumn`: the column means `column IS TRUE`, `[MinNotNull, 0) (0, MaxValue]`. -/
def buildFromColumn : List (RangePoint V) :=
  [{ value := .minNotNull, start := true }, { value := .val d.zero, excl := true },
    { value := .val d.zero, excl := true, start := true }, { value := .maxValue }]

/-- `buildFormBinOp`: a constant on the left turns the comparison around; a NULL constant gives
no range. -/
def buildFormBinOp (op : CmpOp) (constLeft : Bool) (value : Option V) : List (RangePoint V) :=
  let op := if constLeft then
      match op with
      | .ge => .le
      | .gt => .lt
      | .lt => .gt
      | .le => .ge
      | op => op
    else op
  match value with
  | none => []
  | some v =>
    match op with
    | .eq => [{ value := .val v, start := true }, { value := .val v }]
    | .ne => [{ value := .minNotNull, start := true }, { value := .val v, excl := true },
        { value := .val v, start := true, excl := true }, { value := .maxValue }]
    | .lt => [{ value := .minNotNull, start := true }, { value := .val v, excl := true }]
    | .le => [{ value := .minNotNull, start := true }, { value := .val v }]
    | .gt => [{ value := .val v, start := true, excl := true }, { value := .maxValue }]
    | .ge => [{ value := .val v, start := true }, { value := .maxValue }]
    | .nullEq => []

/-- `buildFromIsTrue`: `IS TRUE` is `[MinNotNull, 0) (0, MaxValue]`, `IS NOT TRUE` is
`[NULL, NULL] [0, 0]`. -/
def buildFromIsTrue (isNot : Int) : List (RangePoint V) :=
  if isNot = 1 then
    [{ start := true }, {}, { value := .val d.zero, start := true }, { value := .val d.zero }]
  else
    [{ value := .minNotNull, start := true }, { value := .val d.zero, excl := true },
      { value := .val d.zero, excl := true, start := true }, { value := .maxValue }]

/-- `buildFromIsFalse`: `IS FALSE` is `[0, 0]`, `IS NOT FALSE` is `[NULL, 0) (0, MaxValue]`. -/
def buildFromIsFalse (isNot : Int) : List (RangePoint V) :=
  if isNot = 1 then
    [{ start := true }, { value := .val d.zero, excl := true },
      { value := .val d.zero, start := true, excl := true }, { value := .maxValue }]
  else [{ value := .val d.zero, start := true }, { value := .val d.zero }]

/-- The points `newBuildFromIn` appends for one constant: `[v, v]`. -/
def inPoints (v : Option V) : List (RangePoint V) :=
  [{ value := Point.ofOption v, start := true }, { value := Point.ofOption v }]

/-- The constants of an `IN` list; `none` at the first argument that is not one. -/
def inConstants : List (Operand V) → Option (List (Option V))
  | [] => some []
  | .column :: _ => none
  | .constant v :: rest => (inConstants rest).map (v :: ·)

/-- `newBuildFromIn`: `[v, v]` for each constant, sorted; then, if two neighbours have the same
flag, the list without the points that repeat the flag of the one kept before them. An argument
that is not a constant gives every value and an error. -/
def newBuildFromIn (err : Option String) (list : List (Operand V)) :
    List (RangePoint V) × Option String :=
  match inConstants list with
  | none => (fullRange, some "expr:%v is not constant")
  | some values =>
    let sorter := sortPoints (values.flatMap inPoints)
    let err := if sorter.2.isSome then sorter.2 else err
    if hasDuplicate false sorter.1 then (distinctPoints false sorter.1, err) else (sorter.1, err)

/-- `newBuildFromPatternLike`: the empty pattern is `["", ""]`; a pattern that starts with a
wildcard is every non-NULL value; an exact pattern is `[lowValue, lowValue]`; otherwise the
range runs from `lowValue`, excluded after `_`, up to `highValue` excluded, or `MaxValue` when
every byte of `lowValue` is `0xFF`. -/
def newBuildFromPatternLike (pattern : List UInt8) (escape : UInt8) : List (RangePoint V) :=
  if pattern = [] then
    [{ value := .val (d.ofBytes []), start := true }, { value := .val (d.ofBytes []) }]
  else
    let r := likePrefix escape pattern
    if r.1 = [] then [{ value := .minNotNull, start := true }, { value := .maxValue }]
    else if r.2.2 then
      [{ value := .val (d.ofBytes r.1), start := true }, { value := .val (d.ofBytes r.1) }]
    else
      [{ value := .val (d.ofBytes r.1), start := true, excl := r.2.1 },
        { value := match highValue r.1 with
            | some high => .val (d.ofBytes high)
            | none => .maxValue,
          excl := true }]

/-- `buildFromNot`: `NOT` of `IS TRUE`, `IS FALSE` and `IS NULL`; `NOT IN` and `NOT LIKE` are
refused with every value and an error; any other function gives no range. -/
def buildFromNot (err : Option String) : Func V → List (RangePoint V) × Option String
  | .isTruth => (buildFromIsTrue d 1, err)
  | .isFalsity => (buildFromIsFalse d 1, err)
  | .inList _ => (fullRange, some "NOT IN is not supported")
  | .like _ _ => (fullRange, some "NOT LIKE is not supported.")
  | .isNull => ([{ value := .minNotNull, start := true }, { value := .maxValue }], err)
  | _ => ([], err)

mutual

/-- `rangeBuilder.build`, with the builder's `err` passed in and out. -/
def build (err : Option String) : Expr V → List (RangePoint V) × Option String
  | .column => (buildFromColumn d, err)
  | .scalarFunc f => buildFromScalarFunc err f
  | .constant v => (buildFromConstant d v, err)

/-- `rangeBuilder.buildFromScalarFunc`: the arguments of `AND` and `OR` are built left to
right, then merged. -/
def buildFromScalarFunc (err : Option String) : Func V → List (RangePoint V) × Option String
  | .cmp op constLeft value =>
    match op with
    | .ge | .gt | .lt | .le | .eq | .ne => (buildFormBinOp op constLeft value, err)
    | .nullEq => ([], err)
  | .andAnd a b =>
    let ra := build err a
    let rb := build ra.2 b
    intersection rb.2 ra.1 rb.1
  | .orOr a b =>
    let ra := build err a
    let rb := build ra.2 b
    union rb.2 ra.1 rb.1
  | .isTruth => (buildFromIsTrue d 0, err)
  | .isFalsity => (buildFromIsFalse d 0, err)
  | .inList list => newBuildFromIn err list
  | .like pattern escape => (newBuildFromPatternLike d pattern escape, err)
  | .isNull => ([{ start := true }, {}], err)
  | .unaryNot f => buildFromNot d err f

end

end Build

end Gleam.Plan
