import Gleam.Plan.Sql

/-!
# Row comparisons: `constructBinaryOpFunction`

`(a₀, a₁, …) op (b₀, b₁, …)` for `op` among `=`, `!=` and `<=>` is planned by
`constructBinaryOpFunction`, which recurses into nested rows and joins the comparisons of
corresponding elements with `expression.ComposeCNFCondition`, an AND. Rows whose lengths differ
at some level of nesting give `ErrOperandColumns`.

A scalar expression is a leaf `a : α`; its value on the input row is `ev a`, so quantifying
over `ev` covers every input row, NULLs included.

## Main definitions

* `RowExpr`, `getRowLen`, `Cond`: row expressions and the conditions built from them.
* `constructBinaryOpFunction`: the decomposition.
* `leafConj`, `rowComparison`: the AND of the leaf comparisons, and SQL's row comparison.

## Main results

* `constructBinaryOpFunction_leafConj`: on rows of one shape the decomposition evaluates to the
  AND of the leaf comparisons; on rows of different shapes it fails.
* `constructBinaryOpFunction_row_comparison`: that is SQL's row comparison for `=` and `<=>`,
  and the AND of the leaf inequalities for `!=`.
* `row_ne_decomposed_by_and`: `(1, 2) != (1, 3)` is planned as FALSE.
-/

namespace Gleam.Plan

/-- A row expression: a scalar expression, or a row (a `RowFunc` call or a constant of kind
`KindRow`), which has at least two elements. -/
inductive RowExpr (α : Type) where
  | leaf (a : α)
  | row (first second : RowExpr α) (rest : List (RowExpr α))
  deriving Repr

variable {α : Type}

/-- `getRowLen`: the number of elements of a row, `1` for a scalar expression. -/
def getRowLen : RowExpr α → Nat
  | .leaf _ => 1
  | .row _ _ rest => rest.length + 2

/-- A condition: a comparison function on two scalar expressions, or the AND of conditions. -/
inductive Cond (α : Type) where
  | func (op : CmpOp) (l r : α)
  | and (conds : List (Cond α))
  deriving Repr

/-- `ErrOperandColumns.GenByArgs(columns)`. -/
structure OperandColumns where
  columns : Nat
  deriving DecidableEq, Repr

mutual

/-- `constructBinaryOpFunction(l, r, op)`: compare two scalar expressions directly; otherwise
fail unless both are rows of one length, and AND the comparisons of their elements. -/
def constructBinaryOpFunction (op : CmpOp) : RowExpr α → RowExpr α → Except OperandColumns (Cond α)
  | .leaf l, .leaf r => .ok (.func op l r)
  | l@(.leaf _), .row .. => .error ⟨getRowLen l⟩
  | l@(.row ..), .leaf _ => .error ⟨getRowLen l⟩
  | l@(.row a b ls), r@(.row c d rs) =>
    if getRowLen r ≠ getRowLen l then .error ⟨getRowLen l⟩
    else do
      let f₀ ← constructBinaryOpFunction op a c
      let f₁ ← constructBinaryOpFunction op b d
      let fs ← constructArgs op ls rs
      pure (.and (f₀ :: f₁ :: fs))

/-- The loop of `constructBinaryOpFunction` over the elements after the first two. -/
def constructArgs (op : CmpOp) : List (RowExpr α) → List (RowExpr α) →
    Except OperandColumns (List (Cond α))
  | l :: ls, r :: rs => do
    let f ← constructBinaryOpFunction op l r
    let fs ← constructArgs op ls rs
    pure (f :: fs)
  | _, _ => .ok []

end

mutual

/-- Whether two row expressions have the same nested shape: equal `getRowLen` at every level. -/
def sameShape : RowExpr α → RowExpr α → Bool
  | .leaf _, .leaf _ => true
  | .row a b ls, .row c d rs => sameShape a c && sameShape b d && sameShapeAll ls rs
  | _, _ => false

/-- `sameShape` element by element, with equal lengths. -/
def sameShapeAll : List (RowExpr α) → List (RowExpr α) → Bool
  | [], [] => true
  | l :: ls, r :: rs => sameShape l r && sameShapeAll ls rs
  | _, _ => false

end

mutual

/-- The scalar expressions of a row expression, left to right. -/
def RowExpr.leaves : RowExpr α → List α
  | .leaf a => [a]
  | .row a b rest => a.leaves ++ b.leaves ++ RowExpr.leavesAll rest

/-- The scalar expressions of a list of row expressions. -/
def RowExpr.leavesAll : List (RowExpr α) → List α
  | [] => []
  | e :: es => e.leaves ++ RowExpr.leavesAll es

end

variable {V : Type} [LinearOrder V] (ev : α → Option V)

mutual

/-- A condition's value on the input row whose scalar expressions have the values `ev`. -/
def Cond.eval : Cond α → Option Bool
  | .func op l r => sqlCmp op (ev l) (ev r)
  | .and conds => Cond.evalAll conds

/-- The AND of the values of a list of conditions. -/
def Cond.evalAll : List (Cond α) → Option Bool
  | [] => some true
  | c :: cs => sqlAnd c.eval (Cond.evalAll cs)

end

/-- The AND of a list of truth values. -/
def conj (bs : List (Option Bool)) : Option Bool := bs.foldr sqlAnd (some true)

/-- The AND of `li op ri` over the corresponding scalar expressions of `l` and `r`. -/
def leafConj (op : CmpOp) (l r : RowExpr α) : Option Bool :=
  conj ((l.leaves.zip r.leaves).map fun p => sqlCmp op (ev p.1) (ev p.2))

/-- SQL's row comparison `l op r` for `=`, `<=>` and `!=`: the AND of the leaf equalities, the
AND of the leaf null-safe equalities, and the negation of row equality. -/
def rowComparison (op : CmpOp) (l r : RowExpr α) : Option Bool :=
  if op = .ne then sqlNot (leafConj ev .eq l r) else leafConj ev op l r

/-- The AND of `xᵢ op yᵢ` over two lists of scalar expressions, pairwise. -/
def pairConj (op : CmpOp) (xs ys : List α) : Option Bool :=
  conj ((xs.zip ys).map fun p => sqlCmp op (ev p.1) (ev p.2))

theorem conj_append (xs ys : List (Option Bool)) : conj (xs ++ ys) = sqlAnd (conj xs) (conj ys) := by
  induction xs with
  | nil => simp [conj]
  | cons x xs ih => simp only [conj] at ih ⊢; simp [ih, sqlAnd_assoc]

theorem pairConj_append (op : CmpOp) {xs ys : List α} (xs' ys' : List α)
    (h : xs.length = ys.length) :
    pairConj ev op (xs ++ xs') (ys ++ ys') = sqlAnd (pairConj ev op xs ys) (pairConj ev op xs' ys') := by
  simp [pairConj, List.zip_append h, conj_append]

@[simp] theorem pairConj_nil (op : CmpOp) : pairConj ev op ([] : List α) [] = some true := rfl

mutual

/-- On rows of one shape the decomposition succeeds and evaluates to the AND of the leaf
comparisons; the rows have as many scalar expressions. -/
theorem constructBinaryOpFunction_ok (op : CmpOp) : ∀ l r : RowExpr α, sameShape l r = true →
    ∃ c, constructBinaryOpFunction op l r = .ok c ∧
      c.eval ev = pairConj ev op l.leaves r.leaves ∧ l.leaves.length = r.leaves.length
  | .leaf a, .leaf b, _ => ⟨_, rfl, by simp [Cond.eval, pairConj, conj, RowExpr.leaves], rfl⟩
  | .row a b ls, .row c d rs, h => by
    simp only [sameShape, Bool.and_eq_true] at h
    obtain ⟨f₀, h₀, e₀, n₀⟩ := constructBinaryOpFunction_ok op a c h.1.1
    obtain ⟨f₁, h₁, e₁, n₁⟩ := constructBinaryOpFunction_ok op b d h.1.2
    obtain ⟨fs, hs, es, ns, hlen⟩ := constructArgs_ok op ls rs h.2
    refine ⟨.and (f₀ :: f₁ :: fs), ?_, ?_, ?_⟩
    · simp [constructBinaryOpFunction, getRowLen, hlen, h₀, h₁, hs]; rfl
    · have n₀₁ : (a.leaves ++ b.leaves).length = (c.leaves ++ d.leaves).length := by simp [n₀, n₁]
      simp only [Cond.eval, Cond.evalAll, e₀, e₁, es, RowExpr.leaves]
      rw [pairConj_append ev op _ _ n₀₁, pairConj_append ev op _ _ n₀, sqlAnd_assoc]
    · simp [RowExpr.leaves, n₀, n₁, ns]
  | .leaf _, .row .., h => by simp [sameShape] at h
  | .row .., .leaf _, h => by simp [sameShape] at h

/-- `constructArgs` on lists of one shape. -/
theorem constructArgs_ok (op : CmpOp) : ∀ ls rs : List (RowExpr α), sameShapeAll ls rs = true →
    ∃ cs, constructArgs op ls rs = .ok cs ∧
      Cond.evalAll ev cs = pairConj ev op (RowExpr.leavesAll ls) (RowExpr.leavesAll rs) ∧
      (RowExpr.leavesAll ls).length = (RowExpr.leavesAll rs).length ∧ ls.length = rs.length
  | [], [], _ => ⟨[], rfl, rfl, rfl, rfl⟩
  | l :: ls, r :: rs, h => by
    simp only [sameShapeAll, Bool.and_eq_true] at h
    obtain ⟨f, hf, ef, nf⟩ := constructBinaryOpFunction_ok op l r h.1
    obtain ⟨fs, hs, es, ns, hlen⟩ := constructArgs_ok op ls rs h.2
    refine ⟨f :: fs, by simp [constructArgs, hf, hs]; rfl, ?_, by simp [RowExpr.leavesAll, nf, ns],
      by simp [hlen]⟩
    simp only [Cond.evalAll, ef, es, RowExpr.leavesAll, pairConj_append ev op _ _ nf]
  | [], _ :: _, h => by simp [sameShapeAll] at h
  | _ :: _, [], h => by simp [sameShapeAll] at h

end

theorem except_bind_eq_ok {ε β γ : Type} {x : Except ε β} {f : β → Except ε γ} {c : γ}
    (h : x >>= f = .ok c) : ∃ b, x = .ok b ∧ f b = .ok c := by
  cases x with
  | error e => cases h
  | ok b => exact ⟨b, rfl, h⟩

mutual

/-- A decomposition that succeeds was given rows of one shape. -/
theorem sameShape_of_constructBinaryOpFunction (op : CmpOp) : ∀ (l r : RowExpr α) (c : Cond α),
    constructBinaryOpFunction op l r = .ok c → sameShape l r = true
  | .leaf _, .leaf _, _, _ => rfl
  | .row a b ls, .row c d rs, f, h => by
    simp only [constructBinaryOpFunction, getRowLen] at h
    split_ifs at h with hlen
    obtain ⟨f₀, h₀, h⟩ := except_bind_eq_ok h
    obtain ⟨f₁, h₁, h⟩ := except_bind_eq_ok h
    obtain ⟨fs, hs, -⟩ := except_bind_eq_ok h
    simp only [sameShape, Bool.and_eq_true]
    exact ⟨⟨sameShape_of_constructBinaryOpFunction op a c f₀ h₀,
      sameShape_of_constructBinaryOpFunction op b d f₁ h₁⟩,
      sameShapeAll_of_constructArgs op ls rs fs (by omega) hs⟩
  | .leaf _, .row .., _, h => by cases h
  | .row .., .leaf _, _, h => by cases h

/-- `constructArgs` that succeeds on lists of one length was given lists of one shape. -/
theorem sameShapeAll_of_constructArgs (op : CmpOp) : ∀ (ls rs : List (RowExpr α)) (cs : List (Cond α)),
    ls.length = rs.length → constructArgs op ls rs = .ok cs → sameShapeAll ls rs = true
  | [], [], _, _, _ => rfl
  | l :: ls, r :: rs, cs, hlen, h => by
    obtain ⟨f, hf, h⟩ := except_bind_eq_ok h
    obtain ⟨fs, hs, -⟩ := except_bind_eq_ok h
    simp only [sameShapeAll, Bool.and_eq_true]
    exact ⟨sameShape_of_constructBinaryOpFunction op l r f hf,
      sameShapeAll_of_constructArgs op ls rs fs (by simpa using hlen) hs⟩
  | [], _ :: _, _, hlen, _ => by simp at hlen
  | _ :: _, [], _, hlen, _ => by simp at hlen

end

/-- The decomposition evaluates to the AND of the leaf comparisons on rows of one shape, and fails
on rows of different shapes. -/
theorem constructBinaryOpFunction_leafConj (op : CmpOp) (l r : RowExpr α) :
    (sameShape l r = true →
      ∃ c, constructBinaryOpFunction op l r = .ok c ∧ c.eval ev = leafConj ev op l r) ∧
    (sameShape l r = false → ∃ n, constructBinaryOpFunction op l r = .error n) := by
  refine ⟨fun h => ?_, fun h => ?_⟩
  · obtain ⟨c, hc, e, -⟩ := constructBinaryOpFunction_ok ev op l r h
    exact ⟨c, hc, e⟩
  · cases hc : constructBinaryOpFunction op l r with
    | error n => exact ⟨n, rfl⟩
    | ok c => simp [sameShape_of_constructBinaryOpFunction op l r c hc] at h

/-- `constructBinaryOpFunction` on `=`, `<=>` and `!=`. On rows of one nested shape it evaluates,
on every input row, to SQL's row comparison for `=` and `<=>`, and for `!=` to the AND of the
leaf inequalities, since the same AND joins the elements for every operator. On rows whose
lengths differ at some level it fails. -/
theorem constructBinaryOpFunction_row_comparison (l r : RowExpr α) :
    (sameShape l r = true →
      (∃ c, constructBinaryOpFunction .eq l r = .ok c ∧ c.eval ev = rowComparison ev .eq l r) ∧
      (∃ c, constructBinaryOpFunction .nullEq l r = .ok c ∧
        c.eval ev = rowComparison ev .nullEq l r) ∧
      (∃ c, constructBinaryOpFunction .ne l r = .ok c ∧ c.eval ev = leafConj ev .ne l r)) ∧
    (sameShape l r = false → ∀ op, ∃ n, constructBinaryOpFunction op l r = .error n) :=
  ⟨fun h => ⟨(constructBinaryOpFunction_leafConj ev .eq l r).1 h,
    (constructBinaryOpFunction_leafConj ev .nullEq l r).1 h,
    (constructBinaryOpFunction_leafConj ev .ne l r).1 h⟩,
   fun h op => (constructBinaryOpFunction_leafConj ev op l r).2 h⟩

/-- Two pairs of values, one shape. -/
theorem constructBinaryOpFunction_row_comparison_pairs :
    let l : RowExpr (Option Int) := .row (.leaf (some 1)) (.leaf none) []
    let r : RowExpr (Option Int) := .row (.leaf (some 1)) (.leaf (some 3)) []
    sameShape l r = true ∧
      ((∃ c, constructBinaryOpFunction .eq l r = .ok c ∧ c.eval id = rowComparison id .eq l r) ∧
        (∃ c, constructBinaryOpFunction .nullEq l r = .ok c ∧
          c.eval id = rowComparison id .nullEq l r) ∧
        (∃ c, constructBinaryOpFunction .ne l r = .ok c ∧ c.eval id = leafConj id .ne l r)) :=
  ⟨rfl, (constructBinaryOpFunction_row_comparison id _ _).1 rfl⟩

/-- `(1, 2) != (1, 3)`: the decomposition gives `(1 != 1) AND (2 != 3)`, FALSE, where the row
inequality is TRUE. -/
theorem row_ne_decomposed_by_and :
    (constructBinaryOpFunction .ne (.row (.leaf (some 1)) (.leaf (some 2)) [])
        (.row (.leaf (some 1)) (.leaf (some 3)) [] : RowExpr (Option Int))).map (Cond.eval id) =
      .ok (some false) ∧
    rowComparison id .ne (.row (.leaf (some 1)) (.leaf (some 2)) [])
        (.row (.leaf (some 1)) (.leaf (some 3)) [] : RowExpr (Option Int)) = some true :=
  ⟨rfl, rfl⟩

end Gleam.Plan
