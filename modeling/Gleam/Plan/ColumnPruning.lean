import Gleam.Expression.Basic
import Mathlib.Data.List.Nodup

/-!
# Column pruning: `LogicalPlan.PruneColumns`

`PruneColumns(parentUsedCols)` walks a logical plan from the root down. Each operator is told the
columns of its output its parent reads; it drops the other columns it can, and tells its child the
columns it still reads itself. A projection keeps an unused column whose expression assigns a user
variable (`exprHasSetVar`), an aggregation keeps only the aggregates used, a join sends each used
column to the child whose schema holds it, and a union asks each child for the columns at the
positions it keeps.

`getUsedList` turns the parent's columns into a flag per column of a schema. It finds a column by
`GetColumnIndex`; a column the schema lacks gets index `-1`, and `used[-1] = true` panics, so
pruning relies on every column the parent names being in the schema. The model records that
panic as an error, and `pruneColumns_ok` shows it never happens on a well-formed plan.

Columns are values of a type `C` with decidable equality, compared as `GetColumnIndex` compares
them. A projection, an aggregation and a data source keep `schema.Columns[i]` beside `Exprs[i]`,
`AggFuncs[i]` or `Columns[i]` in two parallel slices; the model pairs them, which is how the
planner builds them and how the deletion loops treat them.

`Update` and `Delete` prune through `baseLogicalPlan.PruneColumns`, and the other operators
(limit, distinct, ...) use it by default: it is not part of this repository, and the model has no
such operators.

## Main definitions

* `LogicalPlan`, `LogicalPlan.getSchema`: the operators that implement `PruneColumns` here.
* `getUsedList`, `exprHasSetVar`, `deleteLoop`: the helpers of the pruning loops.
* `pruneColumns`: `PruneColumns` on every operator.
* `LogicalPlan.WellFormed`: what the planner guarantees of a plan and pruning relies on.

## Main results

* `pruneColumns_ok`: on a well-formed plan whose parent reads columns of its schema, pruning does
  not panic, keeps every column the parent reads, only removes columns, and leaves a well-formed
  plan, so pruning can run again.
* `pruneColumns_root`: pruning a plan with all of its columns keeps its output schema.
* `pruneColumns_union_setVar`: a projection under a union keeps an unused column that assigns a
  user variable, so the union's columns no longer line up with that child's.
-/

namespace Gleam.Plan

open Gleam.Expression

variable {C D T : Type}

/-! ## Finding the used columns: `getUsedList` -/

section UsedList

variable [DecidableEq C]

/-- The loop of `getUsedList` over the parent's columns, setting the flag of each column's index. -/
def markUsed (schema : List C) : List Bool → List C → Except String (List Bool)
  | used, [] => .ok used
  | used, col :: cols =>
    match getColumnIndex schema col with
    | some idx => markUsed schema (used.set idx true) cols
    | none => .error "index out of range [-1]"

/-- `getUsedList(usedCols, schema)`: one flag per column of the schema, set for the columns the
parent uses. A used column missing from the schema logs, then panics on `used[-1] = true`. -/
def getUsedList (usedCols schema : List C) : Except String (List Bool) :=
  markUsed schema (List.replicate schema.length false) usedCols

/-- The flags `getUsedList` sets: position `i` is set when a used column is first found there. -/
def usedFlags (usedCols schema : List C) : List Bool :=
  (List.range schema.length).map fun i => usedCols.any fun c => getColumnIndex schema c == some i

@[simp] theorem length_usedFlags (usedCols schema : List C) :
    (usedFlags usedCols schema).length = schema.length := by
  simp [usedFlags]

theorem markUsed_eq {schema cols : List C} (h : cols ⊆ schema) (f : Nat → Bool) :
    markUsed schema ((List.range schema.length).map f) cols =
      .ok ((List.range schema.length).map fun i =>
        f i || cols.any fun c => getColumnIndex schema c == some i) := by
  induction cols generalizing f with
  | nil => simp [markUsed]
  | cons col cols ih =>
    obtain ⟨idx, hidx⟩ :=
      Option.isSome_iff_exists.1 (getColumnIndex_isSome.2 (h (List.mem_cons_self _ _)))
    have hset : ((List.range schema.length).map f).set idx true =
        (List.range schema.length).map fun i => f i || getColumnIndex schema col == some i := by
      refine List.ext_getElem (by simp) fun i h₁ h₂ => ?_
      by_cases hi : idx = i <;> simp [List.getElem_set, hidx, hi]
    simp only [markUsed, hidx]
    rw [hset, ih (List.subset_of_cons_subset h)]
    simp [Bool.or_assoc]

/-- When every column the parent uses is in the schema, `getUsedList` does not panic and sets the
position of each. -/
theorem getUsedList_eq {usedCols schema : List C} (h : usedCols ⊆ schema) :
    getUsedList usedCols schema = .ok (usedFlags usedCols schema) := by
  simpa [getUsedList, usedFlags] using markUsed_eq h fun _ => false

theorem getD_usedFlags (usedCols schema : List C) (i : Nat) :
    (usedFlags usedCols schema).getD i false =
      usedCols.any fun c => getColumnIndex schema c == some i := by
  by_cases hi : i < schema.length
  · simp [usedFlags, List.getD_eq_getElem?_getD, hi]
  · rw [List.getD_eq_getElem?_getD, List.getElem?_eq_none (by simpa using hi), Option.getD_none]
    refine (List.any_eq_false.2 fun c _ hc => hi ?_).symm
    exact (List.getElem?_eq_some.1 (getColumnIndex_eq_some (by simpa using hc))).1

end UsedList

mutual

/-- `exprHasSetVar(expr)`: despite its name, `true` when the expression calls no `setvar` at any
depth, which is when an unused projection column may be pruned. -/
def exprHasSetVar : Expression C D → Bool
  | .scalarFunction funcName args => if funcName = setVar then false else exprHasSetVarAll args
  | .column _ | .correlatedColumn _ | .constant _ => true

/-- The loop of `exprHasSetVar` over a function's arguments, stopping at the first `false`. -/
def exprHasSetVarAll : List (Expression C D) → Bool
  | [] => true
  | e :: es => exprHasSetVar e && exprHasSetVarAll es

end

/-! ## The deletion loops -/

section Deletion

variable {α β : Type}

/-- The entries of a list whose flag is `true`; what the deletion loops leave. -/
def selectFlagged : List Bool → List α → List α
  | keep :: fs, x :: xs => if keep then x :: selectFlagged fs xs else selectFlagged fs xs
  | _, _ => []

theorem selectFlagged_sublist : ∀ (fs : List Bool) (xs : List α), (selectFlagged fs xs).Sublist xs
  | keep :: fs, x :: xs => by
    rw [selectFlagged]
    split
    · exact (selectFlagged_sublist fs xs).cons₂ x
    · exact (selectFlagged_sublist fs xs).cons x
  | [], _ | _ :: _, [] => List.nil_sublist _

theorem selectFlagged_map (f : α → β) : ∀ (fs : List Bool) (xs : List α),
    selectFlagged fs (xs.map f) = (selectFlagged fs xs).map f
  | keep :: fs, x :: xs => by cases keep <;> simp [selectFlagged, selectFlagged_map f fs xs]
  | [], _ | _ :: _, [] => rfl

theorem selectFlagged_append : ∀ {fs : List Bool} {xs : List α} (gs : List Bool) (ys : List α),
    fs.length = xs.length →
      selectFlagged (fs ++ gs) (xs ++ ys) = selectFlagged fs xs ++ selectFlagged gs ys
  | [], [], _, _, _ => rfl
  | keep :: fs, x :: xs, gs, ys, h => by
    cases keep <;> simp [selectFlagged, selectFlagged_append gs ys (Nat.succ.inj h)]

theorem mem_selectFlagged : ∀ {fs : List Bool} {xs : List α} {i : Nat} {x : α},
    fs[i]? = some true → xs[i]? = some x → x ∈ selectFlagged fs xs
  | true :: _, _ :: _, 0, _, _, hx => by simp_all [selectFlagged]
  | keep :: fs, y :: xs, i + 1, x, hf, hx => by
    have := mem_selectFlagged (show fs[i]? = some true by simpa using hf)
      (show xs[i]? = some x by simpa using hx)
    cases keep <;> simp [selectFlagged, this]
  | false :: _, _, 0, _, hf, _ | [], _, _, _, hf, _ => by simp at hf
  | _ :: _, [], _, _, _, hx => by simp at hx

theorem exists_of_mem_selectFlagged : ∀ {fs : List Bool} {xs : List α} {x : α},
    x ∈ selectFlagged fs xs → ∃ i : Nat, fs[i]? = some true ∧ xs[i]? = some x
  | keep :: fs, y :: xs, x, h => by
    have step : x ∈ selectFlagged fs xs →
        ∃ i : Nat, (keep :: fs)[i]? = some true ∧ (y :: xs)[i]? = some x := fun h => by
      obtain ⟨i, hi⟩ := exists_of_mem_selectFlagged h
      exact ⟨i + 1, by simpa using hi⟩
    cases keep
    · exact step h
    · rcases List.mem_cons.1 h with rfl | h
      · exact ⟨0, by simp⟩
      · exact step h
  | [], _, _, h | _ :: _, [], _, h => by simp [selectFlagged] at h

theorem length_selectFlagged : ∀ {fs : List Bool} {xs : List α}, fs.length ≤ xs.length →
    (selectFlagged fs xs).length = fs.count true
  | [], _, _ => rfl
  | keep :: fs, x :: xs, h => by
    cases keep <;>
      simp [selectFlagged, length_selectFlagged (show fs.length ≤ xs.length by simpa using h)]

/-- The loops `for i := len(used) - 1; i >= 0; i--` of `PruneColumns`: the entry `i` of a slice is
deleted, `append(s[:i], s[i+1:]...)`, whenever `del i`. Deleting from the end leaves the indices
of the entries still to visit unchanged. -/
def deleteLoop (del : Nat → Bool) : Nat → List α → List α
  | 0, xs => xs
  | i + 1, xs => deleteLoop del i (if del i then xs.eraseIdx i else xs)

theorem deleteLoop_sublist (del : Nat → Bool) :
    ∀ (i : Nat) (xs : List α), (deleteLoop del i xs).Sublist xs
  | 0, _ => List.Sublist.refl _
  | i + 1, xs => by
    rw [deleteLoop]
    split
    · exact (deleteLoop_sublist del i _).trans (List.eraseIdx_sublist _ _)
    · exact deleteLoop_sublist del i _

/-- After the loop has visited the positions from `i` on, the entries before `i` are untouched and
those from `i` on are the ones kept. -/
theorem deleteLoop_eq_append (del : Nat → Bool) : ∀ (i : Nat) (xs : List α), i ≤ xs.length →
    deleteLoop del i xs =
      selectFlagged ((List.range i).map fun j => !del j) (xs.take i) ++ xs.drop i
  | 0, xs, _ => by simp [deleteLoop, selectFlagged]
  | i + 1, xs, h => by
    have hi : i < xs.length := h
    have hflags : ((List.range (i + 1)).map fun j => !del j) =
        ((List.range i).map fun j => !del j) ++ [!del i] := by
      simp [List.range_succ]
    rw [deleteLoop, hflags, List.take_succ, List.getElem?_eq_getElem hi, Option.toList_some,
      selectFlagged_append _ _ (by simp; omega)]
    split
    · rename_i hd
      rw [List.eraseIdx_eq_take_drop_succ, deleteLoop_eq_append del i _ (by simp; omega),
        List.take_left' (by simp; omega), List.drop_left' (by simp; omega)]
      simp [selectFlagged, hd]
    · rename_i hd
      rw [deleteLoop_eq_append del i xs (by omega), List.drop_eq_getElem_cons hi]
      simp [selectFlagged, hd]

/-- The whole loop keeps exactly the entries it does not delete. -/
theorem deleteLoop_eq (del : Nat → Bool) (xs : List α) :
    deleteLoop del xs.length xs = selectFlagged ((List.range xs.length).map fun j => !del j) xs := by
  simpa using deleteLoop_eq_append del xs.length xs le_rfl

/-- An entry the loop does not delete stays. -/
theorem mem_deleteLoop {del : Nat → Bool} {n : Nat} {xs : List α} {i : Nat} {x : α}
    (hn : n = xs.length) (hx : xs[i]? = some x) (hdel : del i = false) :
    x ∈ deleteLoop del n xs := by
  rw [hn, deleteLoop_eq]
  exact mem_selectFlagged (by simp [List.getElem?_range (List.getElem?_eq_some.1 hx).1, hdel]) hx

end Deletion

/-- The loop of `Union.PruneColumns` that collects `schema.Columns[i]` of a child for each position
`i` the union keeps; a position past the child's schema panics. -/
def usedColumns : List Bool → List C → Except String (List C)
  | [], _ => .ok []
  | false :: used, cs => usedColumns used cs.tail
  | true :: used, c :: cs => (c :: ·) <$> usedColumns used cs
  | true :: _, [] => .error "index out of range"

/-- A child with at least as many columns as the union gives the columns at the kept positions. -/
theorem usedColumns_eq : ∀ {used : List Bool} {cs : List C}, used.length ≤ cs.length →
    usedColumns used cs = .ok (selectFlagged used cs)
  | [], _, _ => rfl
  | false :: used, c :: cs, h => by
    rw [usedColumns, List.tail_cons, usedColumns_eq (by simpa using h)]; rfl
  | true :: used, c :: cs, h => by rw [usedColumns, usedColumns_eq (by simpa using h)]; rfl
  | _ :: _, [], h => by simp at h

/-! ## What the deletion loops keep -/

section Kept

variable [DecidableEq C]

/-- A projection's column `i` may go: unused, and its expression assigns no user variable. -/
def projectionDel (used : List Bool) (columns : List (C × Expression C D)) (i : Nat) : Bool :=
  !used.getD i false && (columns[i]?.all fun c => exprHasSetVar c.2)

/-- An unused column `i` goes. -/
def unusedDel (used : List Bool) (i : Nat) : Bool := !used.getD i false

theorem getElem?_of_getD {fs : List Bool} {i : Nat} (h : fs.getD i false = true) :
    fs[i]? = some true := by
  rw [List.getD_eq_getElem?_getD] at h
  cases hi : fs[i]? <;> simp_all

/-- Deleting the unused entries keeps the flagged ones. -/
theorem deleteLoop_unusedDel {α : Type} {used : List Bool} {xs : List α}
    (h : used.length = xs.length) :
    deleteLoop (unusedDel used) used.length xs = selectFlagged used xs := by
  rw [h, deleteLoop_eq]
  congr 1
  refine List.ext_getElem (by simp [h]) fun i h₁ h₂ => ?_
  simp [unusedDel, List.getD_eq_getElem?_getD, List.getElem?_eq_getElem h₂]

/-- Keeping the positions `getUsedList` sets keeps every used column. -/
theorem subset_selectFlagged_usedFlags {schema usedCols : List C} (h : usedCols ⊆ schema) :
    usedCols ⊆ selectFlagged (usedFlags usedCols schema) schema := by
  intro c hc
  obtain ⟨i, hi⟩ := Option.isSome_iff_exists.1 (getColumnIndex_isSome.2 (h hc))
  have hf : (usedFlags usedCols schema).getD i false = true := by
    rw [getD_usedFlags]; exact List.any_eq_true.2 ⟨c, hc, by simp [hi]⟩
  exact mem_selectFlagged (getElem?_of_getD hf) (getColumnIndex_eq_some hi)

/-- A projection keeps every column its parent uses. -/
theorem subset_map_deleteLoop_projectionDel {usedCols : List C}
    {columns : List (C × Expression C D)} (hu : usedCols ⊆ columns.map Prod.fst) :
    usedCols ⊆ (deleteLoop (projectionDel (usedFlags usedCols (columns.map Prod.fst)) columns)
      (usedFlags usedCols (columns.map Prod.fst)).length columns).map Prod.fst := by
  intro c hc
  obtain ⟨i, hi⟩ := Option.isSome_iff_exists.1 (getColumnIndex_isSome.2 (hu hc))
  obtain ⟨e, hx⟩ : ∃ e, columns[i]? = some (c, e) := by simpa using getColumnIndex_eq_some hi
  have hused : (usedFlags usedCols (columns.map Prod.fst)).getD i false = true := by
    rw [getD_usedFlags]; exact List.any_eq_true.2 ⟨c, hc, by simp [hi]⟩
  exact List.mem_map_of_mem Prod.fst (mem_deleteLoop (by simp) hx (by rw [projectionDel, hused]; rfl))

/-- Keeping only the positions `getUsedList` sets keeps only used columns. -/
theorem selectFlagged_usedFlags_subset (usedCols schema : List C) :
    selectFlagged (usedFlags usedCols schema) schema ⊆ usedCols := by
  intro x hx
  obtain ⟨i, hf, hx⟩ := exists_of_mem_selectFlagged hx
  have : (usedFlags usedCols schema).getD i false = true := by
    simp [List.getD_eq_getElem?_getD, hf]
  rw [getD_usedFlags] at this
  obtain ⟨c, hc, hci⟩ := List.any_eq_true.1 this
  have := getColumnIndex_eq_some (by simpa using hci)
  rw [hx] at this
  cases this
  exact hc

end Kept

/-! ## Plans -/

/-- `JoinType`. -/
inductive JoinType
  | innerJoin
  | leftOuterJoin
  | rightOuterJoin
  | semiJoin
  | leftOuterSemiJoin
  deriving DecidableEq, Repr

/-- The logical operators whose `PruneColumns` this repository implements. A projection's,
aggregation's and data source's schema columns are paired with their expressions, aggregate
arguments and table columns; an apply is a join with the correlated columns of its inner side. -/
inductive LogicalPlan (C D T : Type) where
  | projection (columns : List (C × Expression C D)) (child : LogicalPlan C D T)
  | selection (schema : List C) (conditions : List (Expression C D)) (child : LogicalPlan C D T)
  | aggregation (columns : List (C × List (Expression C D))) (groupByItems : List (Expression C D))
      (child : LogicalPlan C D T)
  | sort (schema : List C) (byItems : List (Expression C D)) (child : LogicalPlan C D T)
  | union (schema : List C) (children : List (LogicalPlan C D T))
  | dataSource (columns : List (C × T))
  | tableDual (schema : List C)
  | trim (schema : List C) (child : LogicalPlan C D T)
  | exists (schema : List C) (child : LogicalPlan C D T)
  | insert (schema : List C) (children : List (LogicalPlan C D T))
  | join (joinType : JoinType) (schema : List C)
      (equalConditions leftConditions rightConditions otherConditions : List (Expression C D))
      (left right : LogicalPlan C D T)
  | apply (corCols : List C) (joinType : JoinType) (schema : List C)
      (equalConditions leftConditions rightConditions otherConditions : List (Expression C D))
      (left right : LogicalPlan C D T)

/-- `GetSchema()`. -/
def LogicalPlan.getSchema : LogicalPlan C D T → List C
  | .projection columns _ => columns.map Prod.fst
  | .selection schema _ _ => schema
  | .aggregation columns _ _ => columns.map Prod.fst
  | .sort schema _ _ => schema
  | .union schema _ => schema
  | .dataSource columns => columns.map Prod.fst
  | .tableDual schema => schema
  | .trim schema _ => schema
  | .exists schema _ => schema
  | .insert schema _ => schema
  | .join _ schema _ _ _ _ _ _ => schema
  | .apply _ _ schema _ _ _ _ _ _ => schema

/-! ## Joins -/

/-- The schema a join has for its children's schemas `l` and `r`: `l` for a semi-join, `l` and its
own result column for a left outer semi-join, `l` then `r` otherwise. -/
def JoinSchemaOf : JoinType → List C → List C → List C → Prop
  | .semiJoin, schema, l, _ => schema = l
  | .leftOuterSemiJoin, schema, l, _ => ∃ joinCol, schema = l ++ [joinCol]
  | .innerJoin, schema, l, r | .leftOuterJoin, schema, l, r | .rightOuterJoin, schema, l, r =>
    schema = l ++ r

section Join

variable [DecidableEq C]

/-- The columns a join reads besides its parent's: those of its equal, left, right and other
conditions, appended in that order. -/
def joinConditionCols (equalConditions leftConditions rightConditions otherConditions :
    List (Expression C D)) : List C :=
  extractColumnsAll equalConditions ++ extractColumnsAll leftConditions ++
    extractColumnsAll rightConditions ++ extractColumnsAll otherConditions

/-- The loop of `Join.PruneColumns` that sends a used column to the left child when its schema
holds it, else to the right child when its schema does, else to neither. -/
def splitJoinCols (lSchema rSchema : List C) : List C → List C × List C
  | [] => ([], [])
  | col :: cols =>
    let rest := splitJoinCols lSchema rSchema cols
    if (getColumnIndex lSchema col).isSome then (col :: rest.1, rest.2)
    else if (getColumnIndex rSchema col).isSome then (rest.1, col :: rest.2)
    else rest

theorem splitJoinCols_eq (l r : List C) : ∀ cols : List C,
    splitJoinCols l r cols = (cols.filter (· ∈ l), cols.filter fun c => c ∉ l ∧ c ∈ r)
  | [] => rfl
  | col :: cols => by
    by_cases hl : col ∈ l <;> by_cases hr : col ∈ r <;>
      simp [splitJoinCols, List.filter_cons, getColumnIndex_isSome, splitJoinCols_eq l r cols, hl, hr]

theorem splitJoinCols_fst_subset (l r cols : List C) : (splitJoinCols l r cols).1 ⊆ l := by
  rw [splitJoinCols_eq]
  exact fun c hc => by simpa using (List.mem_filter.1 hc).2

theorem splitJoinCols_snd_subset (l r cols : List C) : (splitJoinCols l r cols).2 ⊆ r := by
  rw [splitJoinCols_eq]
  exact fun c hc => (by simpa using (List.mem_filter.1 hc).2 : c ∉ l ∧ c ∈ r).2

/-- Once the children keep the columns sent to them, a column sent to the join that is in the
left child's schema is in the left child's, and one in the right child's schema is in one of
them. -/
theorem splitJoinCols_keep {l r l' r' cols : List C} (hl : (splitJoinCols l r cols).1 ⊆ l')
    (hr : (splitJoinCols l r cols).2 ⊆ r') {c : C} (hc : c ∈ cols) :
    (c ∈ l → c ∈ l') ∧ (c ∈ r → c ∈ l' ++ r') := by
  rw [splitJoinCols_eq] at hl hr
  refine ⟨fun h => hl (List.mem_filter.2 ⟨hc, by simpa⟩), fun h => ?_⟩
  by_cases h' : c ∈ l
  · exact List.mem_append_left _ (hl (List.mem_filter.2 ⟨hc, by simpa⟩))
  · exact List.mem_append_right _ (hr (List.mem_filter.2 ⟨hc, by simp [h', h]⟩))

/-- A join's schema after its children are pruned: the left child's for a semi-join, the left
child's and the last column of the old schema (`Columns[len-1]`, the join's own result) for a left
outer semi-join, `MergeSchema` of the two children otherwise. -/
def joinSchema (joinType : JoinType) (schema lSchema rSchema : List C) : Except String (List C) :=
  match joinType with
  | .semiJoin => .ok lSchema
  | .leftOuterSemiJoin =>
    match schema.getLast? with
    | some joinCol => .ok (lSchema ++ [joinCol])
    | none => .error "index out of range [-1]"
  | _ => .ok (lSchema ++ rSchema)

/-- Once its children are pruned to the columns sent to them, a join rebuilds its schema without
panicking, keeps the columns its parent and its conditions read, and only loses columns. -/
theorem joinSchema_ok {joinType : JoinType} {schema l r l' r' usedCols conds cols : List C}
    (hj : JoinSchemaOf joinType schema l r) (hconds : conds ⊆ l ++ r) (hu : usedCols ⊆ schema)
    (hcu : usedCols ⊆ cols) (hcc : conds ⊆ cols) (hl : (splitJoinCols l r cols).1 ⊆ l')
    (hr : (splitJoinCols l r cols).2 ⊆ r') (hsubl : l'.Sublist l) (hsubr : r'.Sublist r) :
    ∃ schema', joinSchema joinType schema l' r' = .ok schema' ∧
      JoinSchemaOf joinType schema' l' r' ∧ conds ⊆ l' ++ r' ∧ usedCols ⊆ schema' ∧
      schema'.Sublist schema := by
  have hkeep := fun c hc => splitJoinCols_keep hl hr (c := c) hc
  have hconds' : conds ⊆ l' ++ r' := fun c hc => by
    rcases List.mem_append.1 (hconds hc) with h | h
    · exact List.mem_append_left _ ((hkeep c (hcc hc)).1 h)
    · exact (hkeep c (hcc hc)).2 h
  cases joinType
  case semiJoin =>
    subst hj
    exact ⟨l', rfl, rfl, hconds', fun c hc => (hkeep c (hcu hc)).1 (hu hc), hsubl⟩
  case leftOuterSemiJoin =>
    obtain ⟨joinCol, rfl⟩ := hj
    refine ⟨l' ++ [joinCol], by simp [joinSchema], ⟨joinCol, rfl⟩, hconds', fun c hc => ?_,
      hsubl.append (.refl _)⟩
    rcases List.mem_append.1 (hu hc) with h | h
    · exact List.mem_append_left _ ((hkeep c (hcu hc)).1 h)
    · exact List.mem_append_right _ h
  all_goals
    subst hj
    refine ⟨l' ++ r', rfl, rfl, hconds', fun c hc => ?_, hsubl.append hsubr⟩
    rcases List.mem_append.1 (hu hc) with h | h
    · exact List.mem_append_left _ ((hkeep c (hcu hc)).1 h)
    · exact (hkeep c (hcu hc)).2 h

end Join

/-! ## Pruning -/

/-- The columns an aggregation reads: its aggregates' arguments', then its group-by items'. -/
def aggregationCols (columns : List (C × List (Expression C D)))
    (groupByItems : List (Expression C D)) : List C :=
  (columns.map fun c => extractColumnsAll c.2).flatten ++ extractColumnsAll groupByItems

theorem aggregationCols_subset {columns columns' : List (C × List (Expression C D))}
    (h : columns' ⊆ columns) (groupByItems : List (Expression C D)) :
    aggregationCols columns' groupByItems ⊆ aggregationCols columns groupByItems := by
  intro c hc
  simp only [aggregationCols, List.mem_append, List.mem_flatten, List.mem_map] at hc ⊢
  rcases hc with ⟨_, ⟨col, hcol, rfl⟩, hc⟩ | hc
  · exact .inl ⟨_, ⟨col, h hcol, rfl⟩, hc⟩
  · exact .inr hc

section Prune

variable [DecidableEq C]

mutual

/-- `PruneColumns(parentUsedCols)` on each operator. -/
def pruneColumns : LogicalPlan C D T → List C → Except String (LogicalPlan C D T)
  | .projection columns child, parentUsedCols => do
    let used ← getUsedList parentUsedCols (columns.map Prod.fst)
    let columns := deleteLoop (projectionDel used columns) used.length columns
    let child ← pruneColumns child (extractColumnsAll (columns.map Prod.snd))
    return .projection columns child
  | .selection _ conditions child, parentUsedCols => do
    let child ← pruneColumns child (parentUsedCols ++ extractColumnsAll conditions)
    return .selection child.getSchema conditions child
  | .aggregation columns groupByItems child, parentUsedCols => do
    let used ← getUsedList parentUsedCols (columns.map Prod.fst)
    let columns := deleteLoop (unusedDel used) used.length columns
    let child ← pruneColumns child (aggregationCols columns groupByItems)
    return .aggregation columns groupByItems child
  | .sort _ byItems child, parentUsedCols => do
    let child ← pruneColumns child (parentUsedCols ++ extractColumnsAll byItems)
    return .sort child.getSchema byItems child
  | .union schema children, parentUsedCols => do
    let used ← getUsedList parentUsedCols schema
    let schema := deleteLoop (unusedDel used) used.length schema
    let children ← pruneUnionChildren used children
    return .union schema children
  | .dataSource columns, parentUsedCols => do
    let used ← getUsedList parentUsedCols (columns.map Prod.fst)
    return .dataSource (deleteLoop (unusedDel used) used.length columns)
  | .tableDual schema, _ => .ok (.tableDual schema)
  | .trim schema child, parentUsedCols => do
    let used ← getUsedList parentUsedCols schema
    let schema := deleteLoop (unusedDel used) used.length schema
    let child ← pruneColumns child parentUsedCols
    return .trim schema child
  | .exists schema child, _ => do
    let child ← pruneColumns child []
    return .exists schema child
  | .insert schema [], _ => .ok (.insert schema [])
  | .insert schema (child :: children), _ => do
    let child ← pruneColumns child child.getSchema
    return .insert schema (child :: children)
  | .join joinType schema eqs ls rs os left right, parentUsedCols => do
    let cols := splitJoinCols left.getSchema right.getSchema
      (parentUsedCols ++ joinConditionCols eqs ls rs os)
    let left ← pruneColumns left cols.1
    let right ← pruneColumns right cols.2
    let schema ← joinSchema joinType schema left.getSchema right.getSchema
    return .join joinType schema eqs ls rs os left right
  | .apply corCols joinType schema eqs ls rs os left right, parentUsedCols => do
    let cols := splitJoinCols left.getSchema right.getSchema
      (parentUsedCols ++ corCols ++ joinConditionCols eqs ls rs os)
    let left ← pruneColumns left cols.1
    let right ← pruneColumns right cols.2
    let schema ← joinSchema joinType schema left.getSchema right.getSchema
    return .apply corCols joinType schema eqs ls rs os left right

/-- The loop of `Union.PruneColumns` over the children: each is pruned to its columns at the
positions the union keeps. -/
def pruneUnionChildren (used : List Bool) :
    List (LogicalPlan C D T) → Except String (List (LogicalPlan C D T))
  | [] => .ok []
  | child :: children => do
    let newCols ← usedColumns used child.getSchema
    let child ← pruneColumns child newCols
    let children ← pruneUnionChildren used children
    return child :: children

end

mutual

/-- What pruning relies on and keeps: every expression of an operator reads columns of its
child's schema, a selection and a sort have their child's schema, a trim's columns are its
child's, a join's schema is its children's joined and its conditions read their columns, an
apply's correlated columns are its outer child's, and each child of a union has a duplicate-free
schema at least as long as the union's. An insert's first child is the only one pruned. -/
def LogicalPlan.WellFormed : LogicalPlan C D T → Prop
  | .projection columns child =>
    extractColumnsAll (columns.map Prod.snd) ⊆ child.getSchema ∧ child.WellFormed
  | .selection schema conditions child =>
    schema = child.getSchema ∧ extractColumnsAll conditions ⊆ child.getSchema ∧ child.WellFormed
  | .aggregation columns groupByItems child =>
    aggregationCols columns groupByItems ⊆ child.getSchema ∧ child.WellFormed
  | .sort schema byItems child =>
    schema = child.getSchema ∧ extractColumnsAll byItems ⊆ child.getSchema ∧ child.WellFormed
  | .union schema children => LogicalPlan.WellFormedChildren schema.length children
  | .dataSource _ => True
  | .tableDual _ => True
  | .trim schema child => schema ⊆ child.getSchema ∧ child.WellFormed
  | .exists _ child => child.WellFormed
  | .insert _ [] => True
  | .insert _ (child :: _) => child.WellFormed
  | .join joinType schema eqs ls rs os left right =>
    JoinSchemaOf joinType schema left.getSchema right.getSchema ∧
      joinConditionCols eqs ls rs os ⊆ left.getSchema ++ right.getSchema ∧
      left.WellFormed ∧ right.WellFormed
  | .apply corCols joinType schema eqs ls rs os left right =>
    corCols ⊆ left.getSchema ∧ JoinSchemaOf joinType schema left.getSchema right.getSchema ∧
      joinConditionCols eqs ls rs os ⊆ left.getSchema ++ right.getSchema ∧
      left.WellFormed ∧ right.WellFormed

/-- `LogicalPlan.WellFormed` for the children of a union of `n` columns. -/
def LogicalPlan.WellFormedChildren (n : Nat) : List (LogicalPlan C D T) → Prop
  | [] => True
  | child :: children =>
    n ≤ child.getSchema.length ∧ child.getSchema.Nodup ∧ child.WellFormed ∧
      LogicalPlan.WellFormedChildren n children

end

mutual

/-- On a well-formed plan whose parent reads columns of its schema, `PruneColumns` does not panic,
keeps every column the parent reads, only removes columns, and leaves a well-formed plan. -/
theorem pruneColumns_ok : ∀ (p : LogicalPlan C D T), p.WellFormed → ∀ usedCols : List C,
    usedCols ⊆ p.getSchema → ∃ p', pruneColumns p usedCols = .ok p' ∧ p'.WellFormed ∧
      usedCols ⊆ p'.getSchema ∧ p'.getSchema.Sublist p.getSchema
  | .projection columns child, ⟨hexprs, hchild⟩, usedCols, hu => by
    rw [LogicalPlan.getSchema] at hu
    set used := usedFlags usedCols (columns.map Prod.fst)
    set columns' := deleteLoop (projectionDel used columns) used.length columns
    have hsub : columns'.Sublist columns := deleteLoop_sublist _ _ _
    obtain ⟨child', hp, hwf, hu', -⟩ := pruneColumns_ok child hchild _
      ((extractColumnsAll_subset (hsub.map _).subset).trans hexprs)
    refine ⟨.projection columns' child', ?_, ⟨hu', hwf⟩, subset_map_deleteLoop_projectionDel hu,
      hsub.map _⟩
    simp only [pruneColumns, getUsedList_eq hu, Except.ok_bind, hp]
    rfl
  | .selection schema conditions child, ⟨hs, hconds, hchild⟩, usedCols, hu => by
    subst hs
    obtain ⟨child', hp, hwf, hu', hsub⟩ :=
      pruneColumns_ok child hchild _ (List.append_subset.2 ⟨hu, hconds⟩)
    refine ⟨.selection child'.getSchema conditions child', ?_,
      ⟨rfl, fun c hc => hu' (List.mem_append_right _ hc), hwf⟩,
      fun c hc => hu' (List.mem_append_left _ hc), hsub⟩
    simp only [pruneColumns, Except.ok_bind, hp]
    rfl
  | .aggregation columns groupByItems child, ⟨haggs, hchild⟩, usedCols, hu => by
    rw [LogicalPlan.getSchema] at hu
    have hdel := deleteLoop_unusedDel
      ((length_usedFlags usedCols (columns.map Prod.fst)).trans (List.length_map _ _))
    have hsub := selectFlagged_sublist (usedFlags usedCols (columns.map Prod.fst)) columns
    obtain ⟨child', hp, hwf, hu', -⟩ :=
      pruneColumns_ok child hchild _ ((aggregationCols_subset hsub.subset groupByItems).trans haggs)
    refine ⟨.aggregation _ groupByItems child', ?_, ⟨hu', hwf⟩, ?_, hsub.map _⟩
    · simp only [pruneColumns, getUsedList_eq hu, Except.ok_bind, hdel, hp]
      rfl
    · rw [LogicalPlan.getSchema, ← selectFlagged_map]
      exact subset_selectFlagged_usedFlags hu
  | .sort schema byItems child, ⟨hs, hitems, hchild⟩, usedCols, hu => by
    subst hs
    obtain ⟨child', hp, hwf, hu', hsub⟩ :=
      pruneColumns_ok child hchild _ (List.append_subset.2 ⟨hu, hitems⟩)
    refine ⟨.sort child'.getSchema byItems child', ?_,
      ⟨rfl, fun c hc => hu' (List.mem_append_right _ hc), hwf⟩,
      fun c hc => hu' (List.mem_append_left _ hc), hsub⟩
    simp only [pruneColumns, Except.ok_bind, hp]
    rfl
  | .union schema children, hchildren, usedCols, hu => by
    rw [LogicalPlan.getSchema] at hu
    have hlen := length_usedFlags usedCols schema
    obtain ⟨children', hp, hwf⟩ := pruneUnionChildren_ok (usedFlags usedCols schema) children
      (by rw [hlen]; exact hchildren)
    refine ⟨.union (selectFlagged (usedFlags usedCols schema) schema) children', ?_, ?_,
      subset_selectFlagged_usedFlags hu, selectFlagged_sublist _ _⟩
    · simp only [pruneColumns, getUsedList_eq hu, Except.ok_bind, deleteLoop_unusedDel hlen, hp]
      rfl
    · rw [LogicalPlan.WellFormed, length_selectFlagged hlen.le]
      exact hwf
  | .dataSource columns, _, usedCols, hu => by
    rw [LogicalPlan.getSchema] at hu
    have hdel := deleteLoop_unusedDel
      ((length_usedFlags usedCols (columns.map Prod.fst)).trans (List.length_map _ _))
    refine ⟨.dataSource (selectFlagged (usedFlags usedCols (columns.map Prod.fst)) columns), ?_,
      trivial, ?_, (selectFlagged_sublist _ _).map _⟩
    · simp only [pruneColumns, getUsedList_eq hu, Except.ok_bind, hdel]
      rfl
    · rw [LogicalPlan.getSchema, ← selectFlagged_map]
      exact subset_selectFlagged_usedFlags hu
  | .tableDual schema, _, _, hu => ⟨.tableDual schema, rfl, trivial, hu, .refl _⟩
  | .trim schema child, ⟨hschema, hchild⟩, usedCols, hu => by
    rw [LogicalPlan.getSchema] at hu
    obtain ⟨child', hp, hwf, hu', -⟩ := pruneColumns_ok child hchild usedCols (hu.trans hschema)
    refine ⟨.trim (selectFlagged (usedFlags usedCols schema) schema) child', ?_,
      ⟨(selectFlagged_usedFlags_subset _ _).trans hu', hwf⟩, subset_selectFlagged_usedFlags hu,
      selectFlagged_sublist _ _⟩
    simp only [pruneColumns, getUsedList_eq hu, Except.ok_bind,
      deleteLoop_unusedDel (length_usedFlags usedCols schema), hp]
    rfl
  | .exists schema child, hchild, _, hu => by
    obtain ⟨child', hp, hwf, -, -⟩ := pruneColumns_ok child hchild [] (List.nil_subset _)
    exact ⟨.exists schema child', by simp only [pruneColumns, Except.ok_bind, hp]; rfl, hwf, hu,
      .refl _⟩
  | .insert schema [], _, _, hu => ⟨.insert schema [], rfl, trivial, hu, .refl _⟩
  | .insert schema (child :: children), hchild, _, hu => by
    obtain ⟨child', hp, hwf, -, -⟩ := pruneColumns_ok child hchild _ (List.Subset.refl _)
    exact ⟨.insert schema (child' :: children), by simp only [pruneColumns, Except.ok_bind, hp]; rfl,
      hwf, hu, .refl _⟩
  | .join joinType schema eqs ls rs os left right, ⟨hj, hconds, hl, hr⟩, usedCols, hu => by
    obtain ⟨left', hpl, hwfl, hul, hsubl⟩ := pruneColumns_ok left hl _
      (splitJoinCols_fst_subset _ _ (usedCols ++ joinConditionCols eqs ls rs os))
    obtain ⟨right', hpr, hwfr, hur, hsubr⟩ := pruneColumns_ok right hr _
      (splitJoinCols_snd_subset _ _ (usedCols ++ joinConditionCols eqs ls rs os))
    obtain ⟨schema', hs, hj', hconds', hu', hsub⟩ := joinSchema_ok hj hconds hu
      (List.subset_append_left _ _) (List.subset_append_right _ _) hul hur hsubl hsubr
    exact ⟨.join joinType schema' eqs ls rs os left' right',
      by simp only [pruneColumns, Except.ok_bind, hpl, hpr, hs]; rfl,
      ⟨hj', hconds', hwfl, hwfr⟩, hu', hsub⟩
  | .apply corCols joinType schema eqs ls rs os left right, ⟨hcor, hj, hconds, hl, hr⟩, usedCols,
      hu => by
    obtain ⟨left', hpl, hwfl, hul, hsubl⟩ := pruneColumns_ok left hl _
      (splitJoinCols_fst_subset _ _ (usedCols ++ corCols ++ joinConditionCols eqs ls rs os))
    obtain ⟨right', hpr, hwfr, hur, hsubr⟩ := pruneColumns_ok right hr _
      (splitJoinCols_snd_subset _ _ (usedCols ++ corCols ++ joinConditionCols eqs ls rs os))
    obtain ⟨schema', hs, hj', hconds', hu', hsub⟩ := joinSchema_ok hj hconds hu
      (fun c hc => by simp [hc]) (fun c hc => by simp [hc]) hul hur hsubl hsubr
    exact ⟨.apply corCols joinType schema' eqs ls rs os left' right',
      by simp only [pruneColumns, Except.ok_bind, hpl, hpr, hs]; rfl,
      ⟨fun c hc => (splitJoinCols_keep hul hur (by simp [hc])).1 (hcor hc), hj', hconds', hwfl, hwfr⟩,
      hu', hsub⟩

theorem pruneUnionChildren_ok (used : List Bool) : ∀ children : List (LogicalPlan C D T),
    LogicalPlan.WellFormedChildren used.length children →
      ∃ children', pruneUnionChildren used children = .ok children' ∧
        LogicalPlan.WellFormedChildren (used.count true) children'
  | [], _ => ⟨[], rfl, trivial⟩
  | child :: children, ⟨hlen, hnodup, hwf, hrest⟩ => by
    obtain ⟨child', hp, hwf', hu', hsub'⟩ :=
      pruneColumns_ok child hwf _ (selectFlagged_sublist used child.getSchema).subset
    obtain ⟨children', hps, hrest'⟩ := pruneUnionChildren_ok used children hrest
    refine ⟨child' :: children', ?_, ?_, hnodup.sublist hsub', hwf', hrest'⟩
    · simp only [pruneUnionChildren, usedColumns_eq hlen, Except.ok_bind, hp, hps]
      rfl
    · calc used.count true = (selectFlagged used child.getSchema).length :=
            (length_selectFlagged hlen).symm
        _ ≤ child'.getSchema.length :=
            (List.subperm_of_subset (hnodup.sublist (selectFlagged_sublist _ _)) hu').length_le

end

/-- Pruning a plan with all of its own columns, as `Insert.PruneColumns` prunes its child and
as a plan's root is pruned, does not panic, keeps exactly the plan's output columns, and leaves a
well-formed plan. -/
theorem pruneColumns_root {p : LogicalPlan C D T} (hwf : p.WellFormed) (hnodup : p.getSchema.Nodup) :
    ∃ p', pruneColumns p p.getSchema = .ok p' ∧ p'.WellFormed ∧ p'.getSchema = p.getSchema := by
  obtain ⟨p', hp, hwf', hu, hsub⟩ := pruneColumns_ok p hwf p.getSchema (List.Subset.refl _)
  exact ⟨p', hp, hwf', hsub.eq_of_length_le (List.subperm_of_subset hnodup hu).length_le⟩

/-- Pruning `SELECT a FROM (SELECT * FROM t WHERE b)` at its root. -/
theorem pruneColumns_root_select :
    let p : LogicalPlan Nat Int Unit :=
      .projection [(10, .column 1)]
        (.selection [1, 2, 3] [.column 2] (.dataSource [(1, ()), (2, ()), (3, ())]))
    p.WellFormed ∧ p.getSchema.Nodup ∧
      ∃ p', pruneColumns p p.getSchema = .ok p' ∧ p'.WellFormed ∧ p'.getSchema = p.getSchema := by
  intro p
  have hwf : p.WellFormed := ⟨by decide, rfl, by decide, trivial⟩
  have hnodup : p.getSchema.Nodup := by decide
  exact ⟨hwf, hnodup, pruneColumns_root hwf hnodup⟩

/-- The table keeps the columns the projection and the selection read, and no other. -/
example :
    pruneColumns (.projection [(10, .column 1)]
        (.selection [1, 2, 3] [.column 2] (.dataSource [(1, ()), (2, ()), (3, ())])))
      [10] = .ok (.projection [(10, .column 1)]
        (.selection [1, 2] [.column 2] (.dataSource [(1, ()), (2, ())])) : LogicalPlan Nat Int Unit) :=
  rfl

/-- `Union.PruneColumns` deletes from its own schema the positions its parent does not use and
asks each child for the columns at the others; but a projection child keeps an unused column
whose expression assigns a user variable. After pruning, such a child has more columns than the
union, whose columns no longer line up with the child's. -/
theorem pruneColumns_union_setVar {schema usedCols : List C} {columns : List (C × Expression C D)}
    {child : LogicalPlan C D T} {children : List (LogicalPlan C D T)}
    (hwf : LogicalPlan.WellFormed (.union schema (.projection columns child :: children)))
    (hu : usedCols ⊆ schema) {i : Nat} {s : C} {col : C × Expression C D}
    (hs : schema[i]? = some s) (hunused : s ∉ usedCols) (hcol : columns[i]? = some col)
    (hset : exprHasSetVar col.2 = false) :
    ∃ schema' child' children',
      pruneColumns (.union schema (.projection columns child :: children)) usedCols =
        .ok (.union schema' (child' :: children')) ∧ schema'.length < child'.getSchema.length := by
  obtain ⟨hlen, hnodup, ⟨hexprs, hchild⟩, hrest⟩ := hwf
  have hnodup : (columns.map Prod.fst).Nodup := hnodup
  have hused := length_usedFlags usedCols schema
  have hlen' : (usedFlags usedCols schema).length ≤ (columns.map Prod.fst).length := hused ▸ hlen
  set used := usedFlags usedCols schema
  set newCols := selectFlagged used (columns.map Prod.fst)
  have hnewsub : newCols ⊆ columns.map Prod.fst := (selectFlagged_sublist _ _).subset
  set columns' := deleteLoop (projectionDel (usedFlags newCols (columns.map Prod.fst)) columns)
    (usedFlags newCols (columns.map Prod.fst)).length columns
  obtain ⟨child', hp, -⟩ := pruneColumns_ok child hchild (extractColumnsAll (columns'.map Prod.snd))
    ((extractColumnsAll_subset ((deleteLoop_sublist _ _ _).map _).subset).trans hexprs)
  obtain ⟨children', hps, -⟩ := pruneUnionChildren_ok used children (by rw [hused]; exact hrest)
  refine ⟨selectFlagged used schema, .projection columns' child', children', ?_, ?_⟩
  · simp only [pruneColumns, pruneUnionChildren, getUsedList_eq hu, deleteLoop_unusedDel hused,
      LogicalPlan.getSchema, usedColumns_eq hlen', getUsedList_eq hnewsub, Except.ok_bind, hp, hps]
    rfl
  -- the position `i` is unused, so the child is not asked for its column, and keeps it
  have hfree : used.getD i false = false := by
    rw [getD_usedFlags]
    refine List.any_eq_false.2 fun c hc h => hunused ?_
    have := getColumnIndex_eq_some (by simpa using h)
    rw [hs] at this
    cases this
    exact hc
  have hnotin : col.1 ∉ newCols := fun h => by
    obtain ⟨j, hj, hjx⟩ := exists_of_mem_selectFlagged h
    obtain ⟨hj', hjx⟩ := List.getElem?_eq_some.1 hjx
    obtain ⟨hi', hix⟩ := List.getElem?_eq_some.1 (by simp [hcol] : (columns.map Prod.fst)[i]? = some col.1)
    cases (hnodup.getElem_inj_iff).1 (hjx.trans hix.symm)
    simp [List.getD_eq_getElem?_getD, hj] at hfree
  have hkept : col.1 :: newCols ⊆ columns'.map Prod.fst := by
    refine List.cons_subset.2 ⟨List.mem_map_of_mem Prod.fst ?_, subset_map_deleteLoop_projectionDel hnewsub⟩
    exact mem_deleteLoop (by simp) hcol (by simp [projectionDel, hset, hcol])
  have hnd : (col.1 :: newCols).Nodup :=
    List.nodup_cons.2 ⟨hnotin, hnodup.sublist (selectFlagged_sublist _ _)⟩
  calc (selectFlagged used schema).length = newCols.length := by
        rw [length_selectFlagged hused.le, length_selectFlagged hlen']
    _ < (col.1 :: newCols).length := Nat.lt_succ_self _
    _ ≤ (columns'.map Prod.fst).length := (List.subperm_of_subset hnd hkept).length_le

/-- A union of two columns over a projection whose first column assigns a user variable, pruned
to its second column. -/
theorem pruneColumns_union_setVar_assign :
    let p : LogicalPlan Nat Int Unit :=
      .union [20, 21]
        [.projection [(10, .scalarFunction setVar [.column 2]), (11, .column 1)]
          (.dataSource [(1, ()), (2, ())])]
    p.WellFormed ∧ [21] ⊆ [20, 21] ∧ [20, 21][0]? = some 20 ∧ 20 ∉ [21] ∧
      exprHasSetVar (Expression.scalarFunction (C := Nat) (D := Int) setVar [.column 2]) = false ∧
      ∃ schema' child' children', pruneColumns p [21] = .ok (.union schema' (child' :: children')) ∧
        schema'.length < child'.getSchema.length := by
  intro p
  have hwf : p.WellFormed := ⟨le_rfl, by decide, ⟨by decide, trivial⟩, trivial⟩
  exact ⟨hwf, by decide, rfl, by decide, rfl,
    pruneColumns_union_setVar hwf (by decide) (i := 0) rfl (by decide) rfl rfl⟩

/-- The union keeps its column `21`, and its child its columns `10` and `11`: the union's first
column is now read from the child's `setvar` column. -/
example :
    pruneColumns (.union [20, 21] [.projection [(10, .scalarFunction setVar [.column 2]), (11, .column 1)]
        (.dataSource [(1, ()), (2, ())])]) [21] =
      .ok (.union [21] [.projection [(10, .scalarFunction setVar [.column 2]), (11, .column 1)]
        (.dataSource [(1, ()), (2, ())])] : LogicalPlan Nat Int Unit) :=
  rfl

end Prune

end Gleam.Plan
