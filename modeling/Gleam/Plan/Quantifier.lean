import Gleam.Plan.Sql
import Mathlib.Data.List.Dedup

/-!
# Quantified subqueries: `x op ANY (S)` and `x op ALL (S)`

`handleCompareSubquery` rewrites a quantified comparison into an aggregation over the subquery
and a condition on the aggregates. For `<`, `<=`, `>` and `>=` it compares `x` with `max(s)`
or `min(s)` (`handleOtherComparableSubq`); `x != ANY (S)` uses `firstrow(s)` and
`count(distinct s)` (`handleNEAny`), and so does `x = ALL (S)` (`handleEQAll`).
`buildQuantifierPlan` then adds `sum(s is null)` and `count(s is null)` and completes the
condition for NULLs and for an empty `S`.

The aggregate functions are not in the source. They are evaluated as SQL defines them over the
rows of `S`: `max` and `min` of the non-NULL values, `sum` over no rows is NULL, `count` counts
the non-NULL arguments, and `firstrow` is the value of the first row.

## Main definitions

* `Datum`, `Term`, `Cond`, `AggFunc`: what the plan computes with.
* `buildQuantifierPlan`, `handleOtherComparableSubq`, `handleNEAny`, `handleEQAll`,
  `handleCompareSubquery`: the rewrite.
* `anyValue`, `allValue`: the SQL value of `x op ANY (S)` and `x op ALL (S)`.

## Main results

* `handleCompareSubquery_all_exact`: `x op ALL (S)` for `<`, `<=`, `>`, `>=` is rewritten
  exactly.
* `handleCompareSubquery_any_exact`: so is `x op ANY (S)` for a non-empty `S`.
* `quantified_rewrite_mismatches`: `ANY` over an empty `S`, and `firstrow` picking a NULL in
  `!= ANY` and `= ALL`, give NULL where SQL does not.
-/

namespace Gleam.Plan.Quantified

/-- A value of the plan: NULL, a value of the compared columns' type, or an integer from an
aggregate or a constant. -/
inductive Datum (V : Type) where
  | null
  | val (v : V)
  | int (n : Int)
  deriving DecidableEq, Repr

/-- A scalar expression of the condition: the outer operand `x`, a column of the aggregation by
its position, or the constants `expression.Zero` and `expression.One`. -/
inductive Term where
  | outer
  | col (pos : Nat)
  | zero
  | one
  deriving DecidableEq, Repr

/-- A condition: a comparison, `IF(c, a, b)`, the constants `One`, `Zero` and `Null` used as
truth values, and the AND and OR that `ComposeCNFCondition` and `ComposeDNFCondition` build. -/
inductive Cond where
  | cmp (op : CmpOp) (a b : Term)
  | ifThen (c a b : Cond)
  | one
  | zero
  | null
  | and (a b : Cond)
  | or (a b : Cond)
  deriving DecidableEq, Repr

/-- The aggregate functions the rewrite builds over the subquery's column `s`. -/
inductive AggFunc where
  /-- `max(s)` and `min(s)`. -/
  | max | min
  /-- `firstrow(s)`. -/
  | firstRow
  /-- `count(distinct s)`. -/
  | countDistinct
  /-- `sum(s is null)` and `count(s is null)`. -/
  | sumIsNull | countIsNull
  deriving DecidableEq, Repr

/-- The aggregation and the condition that replace the quantified comparison. -/
structure QuantifierPlan where
  /-- The aggregation's functions; column `i` is the result of the `i`-th. -/
  aggFuncs : List AggFunc
  cond : Cond
  deriving DecidableEq, Repr

/-- `buildQuantifierPlan(agg, cond, rexpr, all)`: append `sum(s is null)` and `count(s is null)`,
then for ALL require no NULL in `S` (`IF(sum = 0, 1, NULL)`) unless `S` is empty, and for ANY
turn a FALSE into NULL when `S` has a NULL. -/
def buildQuantifierPlan (aggFuncs : List AggFunc) (cond : Cond) (all : Bool) : QuantifierPlan :=
  let posID := aggFuncs.length
  let aggFuncs := aggFuncs ++ [.sumIsNull, .countIsNull]
  if all then
    let hasNotNull := Cond.cmp .eq (.col posID) .zero
    let nullChecker := Cond.ifThen hasNotNull .one .null
    let cond := Cond.and cond nullChecker
    let checkEmpty := Cond.cmp .eq (.col (posID + 1)) .zero
    ⟨aggFuncs, .or cond checkEmpty⟩
  else
    let hasNull := Cond.cmp .ne (.col posID) .zero
    let nullChecker := Cond.ifThen hasNull .null .zero
    ⟨aggFuncs, .or cond nullChecker⟩

/-- `handleOtherComparableSubq`: compare `x` with `min(s)` or `max(s)`. -/
def handleOtherComparableSubq (useMin : Bool) (cmpFunc : CmpOp) (all : Bool) : QuantifierPlan :=
  let funcName := if useMin then AggFunc.min else AggFunc.max
  buildQuantifierPlan [funcName] (.cmp cmpFunc .outer (.col 0)) all

/-- `handleNEAny`: `count(distinct s) > 1 OR x != firstrow(s)`, completed for ANY. -/
def handleNEAny : QuantifierPlan :=
  let gtFunc := Cond.cmp .gt (.col 1) .one
  let neCond := Cond.cmp .ne .outer (.col 0)
  buildQuantifierPlan [.firstRow, .countDistinct] (.or gtFunc neCond) false

/-- `handleEQAll`: `count(distinct s) <= 1 AND x = firstrow(s)`, completed for ALL. -/
def handleEQAll : QuantifierPlan :=
  let leFunc := Cond.cmp .le (.col 1) .one
  let eqCond := Cond.cmp .eq .outer (.col 0)
  buildQuantifierPlan [.firstRow, .countDistinct] (.and leFunc eqCond) true

/-- The dispatch of `handleCompareSubquery` for the plans built from aggregates; `none` for
`= ANY` and `!= ALL` (a semi-join on the equality) and for `<=>`, which is rejected. -/
def handleCompareSubquery (op : CmpOp) (all : Bool) : Option QuantifierPlan :=
  match op with
  | .eq => if all then some handleEQAll else none
  | .ne => if all then none else some handleNEAny
  | .nullEq => none
  | op =>
    let useMin := ((op == .lt || op == .le) && all) || ((op == .gt || op == .ge) && !all)
    some (handleOtherComparableSubq useMin op all)

variable {V : Type} [LinearOrder V]

/-- A comparison function on two datums: NULL when either side is NULL. Values are compared with
values and integers with integers; the conditions compare nothing else. -/
def Datum.cmp (op : CmpOp) : Datum V → Datum V → Option Bool
  | .val a, .val b => some (op.holds a b)
  | .int m, .int n => some (op.holds m n)
  | _, _ => none

/-- The datum of a value that may be NULL. -/
def Datum.ofOption : Option V → Datum V
  | some v => .val v
  | none => .null

/-- An aggregate function's result over the rows `S` of the subquery's column. -/
def AggFunc.eval (S : List (Option V)) : AggFunc → Datum V
  | .max => Datum.ofOption (S.filterMap id).max?
  | .min => Datum.ofOption (S.filterMap id).min?
  | .firstRow => Datum.ofOption (S.head?.getD none)
  | .countDistinct => .int (S.filterMap id).dedup.length
  | .sumIsNull => if S = [] then .null else .int (S.countP Option.isNone)
  | .countIsNull => .int S.length

/-- A term's value, given `x` and the aggregation's columns. -/
def Term.eval (x : Option V) (cols : List (Datum V)) : Term → Datum V
  | .outer => Datum.ofOption x
  | .col pos => cols.getD pos .null
  | .zero => .int 0
  | .one => .int 1

/-- A condition's SQL truth value, given `x` and the aggregation's columns. -/
def Cond.eval (x : Option V) (cols : List (Datum V)) : Cond → Option Bool
  | .cmp op a b => Datum.cmp op (a.eval x cols) (b.eval x cols)
  | .ifThen c a b => sqlIf (c.eval x cols) (a.eval x cols) (b.eval x cols)
  | .one => some true
  | .zero => some false
  | .null => none
  | .and a b => sqlAnd (a.eval x cols) (b.eval x cols)
  | .or a b => sqlOr (a.eval x cols) (b.eval x cols)

/-- The value of the rewritten condition for the outer value `x` over the rows `S`. -/
def QuantifierPlan.eval (p : QuantifierPlan) (x : Option V) (S : List (Option V)) : Option Bool :=
  p.cond.eval x (p.aggFuncs.map (AggFunc.eval S))

/-- The SQL value of `x op ANY (S)`: TRUE if some `x op s` is TRUE, FALSE if every one is FALSE,
NULL otherwise. -/
def anyValue (op : CmpOp) (x : Option V) (S : List (Option V)) : Option Bool :=
  if S.any (fun s => sqlCmp op x s = some true) then some true
  else if S.all (fun s => sqlCmp op x s = some false) then some false
  else none

/-- The SQL value of `x op ALL (S)`: FALSE if some `x op s` is FALSE, TRUE if every one is TRUE,
NULL otherwise. -/
def allValue (op : CmpOp) (x : Option V) (S : List (Option V)) : Option Bool :=
  if S.any (fun s => sqlCmp op x s = some false) then some false
  else if S.all (fun s => sqlCmp op x s = some true) then some true
  else none

/-! ## The extremes of the non-NULL values -/

section Extreme

variable {vs : List V} {m : V} {P : V → Bool}

theorem le_of_max? (h : vs.max? = some m) {v : V} (hv : v ∈ vs) : v ≤ m :=
  (List.max?_le_iff (fun _ _ _ => max_le_iff) h).1 le_rfl v hv

theorem le_of_min? (h : vs.min? = some m) {v : V} (hv : v ∈ vs) : m ≤ v :=
  (List.le_min?_iff (fun _ _ _ => le_min_iff) h).1 le_rfl v hv

/-- For `P` monotone, some value satisfies `P` iff the largest does. -/
theorem any_eq_of_max? (hP : ∀ v w, v ≤ w → P v → P w) (h : vs.max? = some m) :
    vs.any P = P m := by
  rw [Bool.eq_iff_iff, List.any_eq_true]
  exact ⟨fun ⟨v, hv, hpv⟩ => hP v m (le_of_max? h hv) hpv,
    fun hm => ⟨m, List.max?_mem max_choice h, hm⟩⟩

/-- For `P` monotone, every value satisfies `P` iff the least does. -/
theorem all_eq_of_min? (hP : ∀ v w, v ≤ w → P v → P w) (h : vs.min? = some m) :
    vs.all P = P m := by
  rw [Bool.eq_iff_iff, List.all_eq_true]
  exact ⟨fun hall => hall m (List.min?_mem min_choice h),
    fun hm v hv => hP m v (le_of_min? h hv) hm⟩

/-- For `P` antitone, some value satisfies `P` iff the least does. -/
theorem any_eq_of_min? (hP : ∀ v w, v ≤ w → P w → P v) (h : vs.min? = some m) :
    vs.any P = P m := by
  rw [Bool.eq_iff_iff, List.any_eq_true]
  exact ⟨fun ⟨v, hv, hpv⟩ => hP m v (le_of_min? h hv) hpv,
    fun hm => ⟨m, List.min?_mem min_choice h, hm⟩⟩

/-- For `P` antitone, every value satisfies `P` iff the largest does. -/
theorem all_eq_of_max? (hP : ∀ v w, v ≤ w → P w → P v) (h : vs.max? = some m) :
    vs.all P = P m := by
  rw [Bool.eq_iff_iff, List.all_eq_true]
  exact ⟨fun hall => hall m (List.max?_mem max_choice h),
    fun hm v hv => hP v m (le_of_max? h hv) hm⟩

end Extreme

/-! ## The SQL values through the non-NULL values -/

section Spec

variable {op : CmpOp}

theorem sqlCmp_some_left (hop : op ≠ .nullEq) (a : V) (s : Option V) :
    sqlCmp op (some a) s = s.map (op.holds a) := by
  cases s <;> simp [sqlCmp, hop]

theorem any_sqlCmp_eq (hop : op ≠ .nullEq) (a : V) (b : Bool) (S : List (Option V)) :
    S.any (fun s => sqlCmp op (some a) s = some b) =
      (S.filterMap id).any (fun v => op.holds a v = b) := by
  rw [List.any_filterMap]
  congr 1
  funext s
  cases s <;> simp [sqlCmp_some_left hop]

theorem all_sqlCmp_eq (hop : op ≠ .nullEq) (a : V) (b : Bool) (S : List (Option V)) :
    S.all (fun s => sqlCmp op (some a) s = some b) =
      (S.all Option.isSome && (S.filterMap id).all (fun v => op.holds a v = b)) := by
  rw [Bool.eq_iff_iff, Bool.and_eq_true, List.all_eq_true, List.all_eq_true, List.all_eq_true]
  constructor
  · intro h
    refine ⟨fun s hs => ?_, fun v hv => ?_⟩
    · cases s with
      | none => simpa [sqlCmp_some_left hop] using h _ hs
      | some v => rfl
    · simpa [sqlCmp_some_left hop] using h (some v) (by simpa using hv)
  · rintro ⟨h₁, h₂⟩ s hs
    cases s with
    | none => simpa using h₁ none hs
    | some v => simpa [sqlCmp_some_left hop] using h₂ v (by simpa using hs)

/-- `a op ANY (S)` for a non-NULL `a`, through the non-NULL values of `S`. -/
theorem anyValue_some (hop : op ≠ .nullEq) (a : V) (S : List (Option V)) :
    anyValue op (some a) S =
      if (S.filterMap id).any (op.holds a) then some true
      else if S.all Option.isSome then some false else none := by
  unfold anyValue
  rw [any_sqlCmp_eq hop, all_sqlCmp_eq hop]
  simp only [Bool.decide_eq_true]
  cases hany : (S.filterMap id).any (op.holds a)
  · have hall : (S.filterMap id).all (fun v => op.holds a v = false) = true :=
      List.all_eq_true.2 fun v hv => by simpa using List.any_eq_false.1 hany v hv
    simp only [hall, Bool.and_true, Bool.false_eq_true, if_false]
  · rfl

/-- `a op ALL (S)` for a non-NULL `a`, through the non-NULL values of `S`. -/
theorem allValue_some (hop : op ≠ .nullEq) (a : V) (S : List (Option V)) :
    allValue op (some a) S =
      if (S.filterMap id).all (op.holds a) then (if S.all Option.isSome then some true else none)
      else some false := by
  unfold allValue
  rw [any_sqlCmp_eq hop, all_sqlCmp_eq hop]
  simp only [Bool.decide_eq_true]
  cases hall : (S.filterMap id).all (op.holds a)
  · have hany : (S.filterMap id).any (fun v => op.holds a v = false) = true := by
      obtain ⟨v, hv, h⟩ := List.all_eq_false.1 hall
      exact List.any_eq_true.2 ⟨v, hv, by simpa using h⟩
    simp only [hany, if_true, Bool.false_eq_true, if_false]
  · have hany : (S.filterMap id).any (fun v => op.holds a v = false) = false :=
      List.any_eq_false.2 fun v hv => by simpa using List.all_eq_true.1 hall v hv
    simp only [hany, Bool.and_true, Bool.false_eq_true, if_false, if_true]

/-- With a NULL outer value every comparison is NULL. -/
theorem anyValue_none (hop : op ≠ .nullEq) (S : List (Option V)) :
    anyValue op none S = if S = [] then some false else none := by
  cases S <;> simp [anyValue, sqlCmp_none_left hop]

theorem allValue_none (hop : op ≠ .nullEq) (S : List (Option V)) :
    allValue op none S = if S = [] then some true else none := by
  cases S <;> simp [allValue, sqlCmp_none_left hop]

end Spec

/-! ## The rewrite of `<`, `<=`, `>` and `>=` -/

section Comparable

variable {op : CmpOp}

/-- `max(s)` or `min(s)` over the non-NULL values. -/
def extreme (useMin : Bool) (vs : List V) : Option V := if useMin then vs.min? else vs.max?

theorem extreme_eq_none {useMin : Bool} {vs : List V} (h : extreme useMin vs = none) : vs = [] := by
  cases useMin <;> simpa [extreme] using h

theorem Datum.cmp_ofOption (hop : op ≠ .nullEq) (x y : Option V) :
    Datum.cmp op (Datum.ofOption x) (Datum.ofOption y) = sqlCmp op x y := by
  cases x <;> cases y <;> simp [Datum.cmp, Datum.ofOption, sqlCmp, hop]

@[simp] theorem Datum.cmp_int (op : CmpOp) (m n : Int) :
    Datum.cmp op (.int m : Datum V) (.int n) = some (op.holds m n) := rfl

theorem countP_isNone_eq_zero {W : Type} (S : List (Option W)) :
    S.countP Option.isNone = 0 ↔ S.all Option.isSome = true := by
  simp [List.countP_eq_zero, List.all_eq_true, Option.isSome_iff_ne_none]

theorem cmp_sumIsNull_eq (S : List (Option V)) :
    Datum.cmp .eq (AggFunc.sumIsNull.eval S) (.int 0) =
      if S = [] then none else some (S.all Option.isSome) := by
  by_cases hS : S = []
  · simp [hS, AggFunc.eval, Datum.cmp]
  · simp only [hS, if_false, AggFunc.eval, Datum.cmp_int, CmpOp.holds, Int.ofNat_eq_zero,
      countP_isNone_eq_zero, decide_not, Bool.decide_eq_true]

theorem cmp_sumIsNull_ne (S : List (Option V)) :
    Datum.cmp .ne (AggFunc.sumIsNull.eval S) (.int 0) =
      if S = [] then none else some !(S.all Option.isSome) := by
  by_cases hS : S = []
  · simp [hS, AggFunc.eval, Datum.cmp]
  · simp only [hS, if_false, AggFunc.eval, Datum.cmp_int, CmpOp.holds, Int.ofNat_eq_zero,
      countP_isNone_eq_zero, decide_not, Bool.decide_eq_true]

/-- The completed condition of `x op ALL (S)` over `min(s)` or `max(s)`. -/
theorem eval_handleOtherComparableSubq_all (hop : op ≠ .nullEq) (useMin : Bool) (x : Option V)
    (S : List (Option V)) :
    (handleOtherComparableSubq useMin op true).eval x S =
      sqlOr (sqlAnd (sqlCmp op x (extreme useMin (S.filterMap id)))
          (sqlIf (if S = [] then none else some (S.all Option.isSome)) (some true) none))
        (some (S = [])) := by
  rw [← cmp_sumIsNull_eq]
  cases useMin <;>
    simp [handleOtherComparableSubq, buildQuantifierPlan, QuantifierPlan.eval, Cond.eval,
      Term.eval, AggFunc.eval, extreme, Datum.cmp_ofOption hop, CmpOp.holds, Int.ofNat_eq_zero]

/-- The completed condition of `x op ANY (S)` over `min(s)` or `max(s)`. -/
theorem eval_handleOtherComparableSubq_any (hop : op ≠ .nullEq) (useMin : Bool) (x : Option V)
    (S : List (Option V)) :
    (handleOtherComparableSubq useMin op false).eval x S =
      sqlOr (sqlCmp op x (extreme useMin (S.filterMap id)))
        (sqlIf (if S = [] then none else some !(S.all Option.isSome)) none (some false)) := by
  rw [← cmp_sumIsNull_ne]
  cases useMin <;>
    simp [handleOtherComparableSubq, buildQuantifierPlan, QuantifierPlan.eval, Cond.eval,
      Term.eval, AggFunc.eval, extreme, Datum.cmp_ofOption hop]

end Comparable

/-! ## Where the rewrite is exact -/

section Exact

variable {op : CmpOp}

theorem holds_mono (hop : op = .lt ∨ op = .le) (a : V) {v w : V} (hvw : v ≤ w)
    (h : op.holds a v) : op.holds a w := by
  rcases hop with rfl | rfl <;> simp only [CmpOp.holds, decide_eq_true_eq] at h ⊢
  · exact lt_of_lt_of_le h hvw
  · exact le_trans h hvw

theorem holds_anti (hop : op = .gt ∨ op = .ge) (a : V) {v w : V} (hvw : v ≤ w)
    (h : op.holds a w) : op.holds a v := by
  rcases hop with rfl | rfl <;> simp only [CmpOp.holds, decide_eq_true_eq] at h ⊢
  · exact lt_of_le_of_lt hvw h
  · exact le_trans hvw h

/-- A non-empty `S` whose values are all NULL. -/
theorem all_isSome_of_filterMap_eq_nil {W : Type} {S : List (Option W)} (hS : S ≠ [])
    (h : S.filterMap id = []) : S.all Option.isSome = false := by
  obtain ⟨s, S, rfl⟩ := List.exists_cons_of_ne_nil hS
  cases s <;> simp_all

/-- `x op ALL (S)` over the extreme that decides "every value": exact for every `x` and `S`. -/
theorem handleOtherComparableSubq_all (hop : op ≠ .nullEq) {useMin : Bool}
    (hext : ∀ (vs : List V) m a, extreme useMin vs = some m → vs.all (op.holds a) = op.holds a m)
    (x : Option V) (S : List (Option V)) :
    (handleOtherComparableSubq useMin op true).eval x S = allValue op x S := by
  rw [eval_handleOtherComparableSubq_all hop]
  by_cases hS : S = []
  · subst hS
    cases x <;> simp [allValue]
  cases x with
  | none =>
    rw [allValue_none hop]
    cases S.all Option.isSome <;> simp [hS, sqlCmp_none_left hop, sqlIf]
  | some a =>
    rw [allValue_some hop]
    cases hm : extreme useMin (S.filterMap id) with
    | none =>
      have hvs := extreme_eq_none hm
      simp [hS, hvs, all_isSome_of_filterMap_eq_nil hS hvs, sqlCmp_none_right hop, sqlIf]
    | some m =>
      rw [sqlCmp_some, ← hext _ m a hm]
      cases (S.filterMap id).all (op.holds a) <;> cases S.all Option.isSome <;> simp [hS, sqlIf]

/-- `x op ANY (S)` over the extreme that decides "some value": exact for every `x` and every
non-empty `S`. -/
theorem handleOtherComparableSubq_any (hop : op ≠ .nullEq) {useMin : Bool}
    (hext : ∀ (vs : List V) m a, extreme useMin vs = some m → vs.any (op.holds a) = op.holds a m)
    (x : Option V) {S : List (Option V)} (hS : S ≠ []) :
    (handleOtherComparableSubq useMin op false).eval x S = anyValue op x S := by
  rw [eval_handleOtherComparableSubq_any hop]
  cases x with
  | none =>
    rw [anyValue_none hop]
    cases S.all Option.isSome <;> simp [hS, sqlCmp_none_left hop, sqlIf]
  | some a =>
    rw [anyValue_some hop]
    cases hm : extreme useMin (S.filterMap id) with
    | none =>
      have hvs := extreme_eq_none hm
      simp [hS, hvs, all_isSome_of_filterMap_eq_nil hS hvs, sqlCmp_none_right hop, sqlIf]
    | some m =>
      rw [sqlCmp_some, ← hext _ m a hm]
      cases (S.filterMap id).any (op.holds a) <;> cases S.all Option.isSome <;> simp [hS, sqlIf]

/-- The rewrite of `x op ALL (S)` for `op` among `<`, `<=`, `>` and `>=` is exact: for every outer
value `x` and every list `S`, NULLs and the empty list included, the completed condition is the
SQL value of `x op ALL (S)`. -/
theorem handleCompareSubquery_all_exact {op : CmpOp}
    (hop : op = .lt ∨ op = .le ∨ op = .gt ∨ op = .ge) (x : Option V) (S : List (Option V)) :
    (handleCompareSubquery op true).map (fun p => p.eval x S) = some (allValue op x S) := by
  rcases hop with rfl | rfl | rfl | rfl <;> simp only [handleCompareSubquery, Option.map_some'] <;>
    refine congrArg some (handleOtherComparableSubq_all (by decide) (fun vs m a h => ?_) x S)
  · exact all_eq_of_min? (fun _ _ hvw => holds_mono (.inl rfl) a hvw) h
  · exact all_eq_of_min? (fun _ _ hvw => holds_mono (.inr rfl) a hvw) h
  · exact all_eq_of_max? (fun _ _ hvw => holds_anti (.inl rfl) a hvw) h
  · exact all_eq_of_max? (fun _ _ hvw => holds_anti (.inr rfl) a hvw) h

/-- `1 < ALL (2, NULL)` is NULL, in SQL and in the plan. -/
theorem handleCompareSubquery_all_exact_lt :
    (CmpOp.lt = .lt ∨ CmpOp.lt = .le ∨ CmpOp.lt = .gt ∨ CmpOp.lt = .ge) ∧
      (handleCompareSubquery .lt true).map (fun p => p.eval (some (1 : Int)) [some 2, none]) =
        some (allValue .lt (some 1) [some 2, none]) :=
  ⟨.inl rfl, handleCompareSubquery_all_exact (.inl rfl) _ _⟩

/-- The rewrite of `x op ANY (S)` for `op` among `<`, `<=`, `>` and `>=` is exact for every outer
value `x` and every non-empty list `S`, NULLs included. -/
theorem handleCompareSubquery_any_exact {op : CmpOp}
    (hop : op = .lt ∨ op = .le ∨ op = .gt ∨ op = .ge) (x : Option V) {S : List (Option V)}
    (hS : S ≠ []) :
    (handleCompareSubquery op false).map (fun p => p.eval x S) = some (anyValue op x S) := by
  rcases hop with rfl | rfl | rfl | rfl <;> simp only [handleCompareSubquery, Option.map_some'] <;>
    refine congrArg some (handleOtherComparableSubq_any (by decide) (fun vs m a h => ?_) x hS)
  · exact any_eq_of_max? (fun _ _ hvw => holds_mono (.inl rfl) a hvw) h
  · exact any_eq_of_max? (fun _ _ hvw => holds_mono (.inr rfl) a hvw) h
  · exact any_eq_of_min? (fun _ _ hvw => holds_anti (.inl rfl) a hvw) h
  · exact any_eq_of_min? (fun _ _ hvw => holds_anti (.inr rfl) a hvw) h

/-- `3 >= ANY (NULL, 5)` is NULL, in SQL and in the plan. -/
theorem handleCompareSubquery_any_exact_ge :
    (CmpOp.ge = .lt ∨ CmpOp.ge = .le ∨ CmpOp.ge = .gt ∨ CmpOp.ge = .ge) ∧
      ([none, some 5] : List (Option Int)) ≠ [] ∧
      (handleCompareSubquery .ge false).map (fun p => p.eval (some (3 : Int)) [none, some 5]) =
        some (anyValue .ge (some 3) [none, some 5]) :=
  ⟨.inr (.inr (.inr rfl)), by simp, handleCompareSubquery_any_exact (.inr (.inr (.inr rfl))) _ (by simp)⟩

end Exact

/-- `1 > ANY (empty)`, `1 != ANY (NULL, 2)` and `1 = ALL (NULL, 2)`: the rewritten conditions are
NULL where SQL gives FALSE, TRUE and FALSE. -/
theorem quantified_rewrite_mismatches :
    ((handleCompareSubquery .gt false).map fun p => p.eval (some (1 : Int)) []) = some none ∧
      anyValue .gt (some (1 : Int)) [] = some false ∧
    ((handleCompareSubquery .ne false).map fun p => p.eval (some (1 : Int)) [none, some 2]) =
        some none ∧
      anyValue .ne (some (1 : Int)) [none, some 2] = some true ∧
    ((handleCompareSubquery .eq true).map fun p => p.eval (some (1 : Int)) [none, some 2]) =
        some none ∧
      allValue .eq (some (1 : Int)) [none, some 2] = some false := by
  decide

end Gleam.Plan.Quantified
