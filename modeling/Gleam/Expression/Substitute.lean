import Gleam.Expression.Basic

/-!
# Pushing a filter below a projection: `ColumnSubstitute`

`ColumnSubstitute(expr, schema, newExprs)` rewrites a filter over a projection's output into a
filter over the projection's input: each column of the projection's `schema` becomes a clone of
the select field at its index. Its own comment gives the use: `select * from (select b as a from
t) k where a < 10` becomes `select * from (select b as a from t where b < 10) k`.

The code rebuilds every function it passes through: a `CAST` by `Clone` and a substitution in its
first argument, every other function by `NewFunction` over the substituted arguments. It drops
the error of `NewFunction`, in `Clone` and in `ColumnSubstitute` alike, and carries on with a
`nil` expression; the model returns the error `nilFunction` for a result with a `nil` in it. An
index out of range (`newExprs[id]`, or the first argument of a `CAST` without one) is a Go panic,
the error `indexOutOfRange`.

The purpose is stated by a second definition, `replaceColumns`, a plain substitution, and
`columnSubstitute` is proved to compute it on every expression the builders can produce
(`wellBuilt`).

## Main definitions

* `clone`: `ScalarFunction.Clone` and the `Clone` of columns and constants.
* `columnSubstitute`: `ColumnSubstitute`.
* `wellBuilt`: the expressions `NewFunction`, `NewCastFunc` and `NewValuesFunc` build.
* `replaceColumns`: every column of the schema replaced by its select field.

## Main results

* `clone_of_wellBuilt`: `Clone` copies a well-built expression.
* `columnSubstitute_eq_replaceColumns`: on well-built input, `ColumnSubstitute` never fails and
  computes `replaceColumns`.
* `eval_replaceColumns`: the substituted filter on the child's row has the value of the filter on
  the row the projection computes from it.
* `columnSubstitute_pushdown`: the three together.
-/

namespace Gleam.Expression

/-- `ast.Cast`: the name of the function `NewCastFunc` builds. -/
protected def cast : String := "cast"

/-- What goes wrong in `Clone` and `ColumnSubstitute`: an index out of range, a Go panic, or a
`nil` function where `NewFunction` failed with `err`. -/
inductive SubstituteError
  | indexOutOfRange
  | nilFunction (err : NewFunctionError)
  deriving DecidableEq, Repr

variable {C D : Type}

/-! ## `Clone` -/

section Clone

variable (funcs : String → Option FunctionClass)

mutual

/-- `Expression.Clone()`: columns and constants are copied; a function clones its arguments, and
is then rebuilt by `NewCastFunc` over the first of them if it is a `CAST`, by `NewValuesFunc`,
with no arguments, if it is a `VALUES`, and by `NewFunction` otherwise. -/
def clone : Expression C D → Except SubstituteError (Expression C D)
  | .scalarFunction funcName args => do
    let newArgs ← cloneAll args
    if funcName = Expression.cast then
      match newArgs with
      | [] => throw .indexOutOfRange
      | arg :: _ => pure (.scalarFunction funcName [arg])
    else if funcName = values then pure (.scalarFunction funcName [])
    else (newFunction funcs funcName newArgs).mapError .nilFunction
  | e => pure e

/-- The clones of a list of arguments, left to right. -/
def cloneAll : List (Expression C D) → Except SubstituteError (List (Expression C D))
  | [] => pure []
  | e :: es => do
    let e' ← clone e
    let es' ← cloneAll es
    pure (e' :: es')

end

theorem one_le_sizeOf_list {α : Type} [SizeOf α] (l : List α) : 1 ≤ sizeOf l := by
  cases l <;> simp only [List.nil.sizeOf_spec, List.cons.sizeOf_spec] <;> omega

mutual

/-- `Clone` never makes an expression larger: what lets `ColumnSubstitute` recurse into the
first argument of a cloned `CAST`. -/
theorem sizeOf_clone_le :
    ∀ {e e' : Expression C D}, clone funcs e = .ok e' → sizeOf e' ≤ sizeOf e
  | .scalarFunction f args, e', h => by
    rw [clone] at h
    obtain ⟨newArgs, hargs, h⟩ := Except.bind_eq_ok h
    have := sizeOf_cloneAll_le hargs
    split_ifs at h
    · split at h
      · cases h
      · cases h
        have := one_le_sizeOf_list ‹List (Expression C D)›
        simp_all; omega
    · cases h; simpa using one_le_sizeOf_list args
    · rw [newFunction_eq_ok (Except.mapError_eq_ok.1 h)]; simp [this]
  | .column _, _, h | .correlatedColumn _, _, h | .constant _, _, h => by cases h; rfl

theorem sizeOf_cloneAll_le :
    ∀ {es es' : List (Expression C D)}, cloneAll funcs es = .ok es' → sizeOf es' ≤ sizeOf es
  | [], _, h => by cases h; rfl
  | e :: es, _, h => by
    rw [cloneAll] at h
    obtain ⟨e', he, h⟩ := Except.bind_eq_ok h
    obtain ⟨es', hes, h⟩ := Except.bind_eq_ok h
    cases h
    have := sizeOf_clone_le he
    have := sizeOf_cloneAll_le hes
    simp; omega

end

theorem sizeOf_args_lt (f : String) (args : List (Expression C D)) :
    sizeOf args < sizeOf (Expression.scalarFunction f args) := by
  simp only [Expression.scalarFunction.sizeOf_spec]
  omega

/-- The first argument of the clone of a function is smaller than the function. -/
theorem sizeOf_lt_of_clone {f name : String} {args rest : List (Expression C D)}
    {arg : Expression C D}
    (h : clone funcs (.scalarFunction f args) = .ok (.scalarFunction name (arg :: rest))) :
    sizeOf arg < sizeOf (Expression.scalarFunction f args) := by
  have := sizeOf_clone_le funcs h
  simp only [Expression.scalarFunction.sizeOf_spec, List.cons.sizeOf_spec] at this ⊢
  omega

end Clone

/-! ## Well-built expressions -/

section WellBuilt

variable (funcs : String → Option FunctionClass)

mutual

/-- An expression the builders can produce: a `CAST` (`NewCastFunc`) has one argument, and every
other function is one `NewFunction` accepts, a `VALUES` (`NewValuesFunc`) with no argument. -/
def wellBuilt : Expression C D → Bool
  | .scalarFunction funcName args =>
    (if funcName = Expression.cast then args.length = 1
     else (newFunction funcs funcName args).isOk && (funcName ≠ values || args.length = 0)) &&
      wellBuiltAll args
  | _ => true

/-- Every expression of the list is well built. -/
def wellBuiltAll : List (Expression C D) → Bool
  | [] => true
  | e :: es => wellBuilt e && wellBuiltAll es

end

/-- `NewFunction` checks only the number of arguments. -/
theorem newFunction_of_isOk {f : String} {args args' : List (Expression C D)}
    (h : (newFunction funcs f args).isOk) (hl : args'.length = args.length) :
    newFunction funcs f args' = .ok (.scalarFunction f args') := by
  unfold newFunction at h ⊢
  split at h
  · cases h
  · rw [hl]
    split_ifs at h ⊢
    · cases h
    · rfl

theorem newFunction_isOk_of_length {f : String} {args args' : List (Expression C D)}
    (h : (newFunction funcs f args).isOk) (hl : args'.length = args.length) :
    (newFunction funcs f args').isOk := by
  rw [newFunction_of_isOk funcs h hl]; rfl

variable {funcs}

theorem wellBuiltAll_iff {es : List (Expression C D)} :
    wellBuiltAll funcs es = true ↔ ∀ e ∈ es, wellBuilt funcs e = true := by
  induction es with
  | nil => simp [wellBuiltAll]
  | cons e es ih => simp [wellBuiltAll, ih]

theorem wellBuilt_of_mem {es : List (Expression C D)} (h : wellBuiltAll funcs es)
    {e : Expression C D} (he : e ∈ es) : wellBuilt funcs e :=
  wellBuiltAll_iff.1 h e he

theorem wellBuiltAll_args {f : String} {args : List (Expression C D)}
    (h : wellBuilt funcs (.scalarFunction f args)) : wellBuiltAll funcs args := by
  simp only [wellBuilt, Bool.and_eq_true] at h
  exact h.2

/-- Whether a function is well built at its root depends on its name and its number of arguments
only. -/
theorem wellBuilt_of_length {f : String} {args args' : List (Expression C D)}
    (h : wellBuilt funcs (.scalarFunction f args)) (hl : args'.length = args.length)
    (h' : wellBuiltAll funcs args') : wellBuilt funcs (.scalarFunction f args') := by
  simp only [wellBuilt, Bool.and_eq_true, hl] at h ⊢
  refine ⟨?_, h'⟩
  split_ifs at h ⊢
  · exact h.1
  · simp only [Bool.and_eq_true] at h ⊢
    exact ⟨newFunction_isOk_of_length funcs h.1.1 hl, h.1.2⟩

/-- With a registry that has neither `CAST` nor `VALUES`, what `NewFunction` builds from well-built
arguments is well built. -/
theorem wellBuilt_of_newFunction (hcast : funcs Expression.cast = none)
    (hvalues : funcs values = none) {f : String} {args : List (Expression C D)} {e : Expression C D}
    (h : newFunction funcs f args = .ok e) (hargs : wellBuiltAll funcs args) :
    wellBuilt funcs e := by
  have hreg : funcs f ≠ none := fun hf => by simp [newFunction, hf] at h
  rw [newFunction_eq_ok h]
  simp only [wellBuilt, Bool.and_eq_true, hargs, and_true]
  rw [if_neg (fun hf : f = Expression.cast => hreg (hf ▸ hcast)), h]
  simp only [Except.isOk, Except.toBool, Bool.true_and, Bool.or_eq_true, decide_eq_true_eq]
  exact .inl fun hf : f = values => hreg (hf ▸ hvalues)

mutual

/-- `Clone` copies every well-built expression. -/
theorem clone_of_wellBuilt : ∀ {e : Expression C D}, wellBuilt funcs e → clone funcs e = .ok e
  | .scalarFunction f args, h => by
    simp only [wellBuilt, Bool.and_eq_true] at h
    rw [clone, cloneAll_of_wellBuilt h.2, Except.ok_bind]
    split_ifs at h ⊢ with h₁ h₂
    · obtain ⟨a, rfl⟩ := List.length_eq_one.1 (of_decide_eq_true h.1); rfl
    · simp only [Bool.and_eq_true, h₂, ne_eq, not_true_eq_false, decide_False, Bool.false_or,
        decide_eq_true_eq, List.length_eq_zero] at h
      cases h.1.2; rfl
    · rw [newFunction_of_isOk funcs (Bool.and_eq_true _ _ ▸ h.1).1 rfl]; rfl
  | .column _, _ | .correlatedColumn _, _ | .constant _, _ => rfl

theorem cloneAll_of_wellBuilt :
    ∀ {es : List (Expression C D)}, wellBuiltAll funcs es → cloneAll funcs es = .ok es
  | [], _ => rfl
  | e :: es, h => by
    simp only [wellBuiltAll, Bool.and_eq_true] at h
    rw [cloneAll, clone_of_wellBuilt h.1, Except.ok_bind, cloneAll_of_wellBuilt h.2]; rfl

end

end WellBuilt

/-! ## `ColumnSubstitute` -/

variable [DecidableEq C] (funcs : String → Option FunctionClass) (schema : List C)
  (newExprs : List (Expression C D))

mutual

/-- `ColumnSubstitute(expr, schema, newExprs)`: a column of `schema` becomes a clone of the select
field at its index, and any other column is kept; a `CAST` is cloned and its first argument
substituted; any other function is rebuilt by `NewFunction` over its substituted arguments;
correlated columns and constants are kept. -/
def columnSubstitute (e : Expression C D) : Except SubstituteError (Expression C D) :=
  match e with
  | .column c =>
    match getColumnIndex schema c with
    | none => pure (.column c)
    | some id =>
      match newExprs[id]? with
      | none => throw .indexOutOfRange
      | some newExpr => clone funcs newExpr
  | .scalarFunction funcName args =>
    if funcName = Expression.cast then
      match _hclone : clone funcs (.scalarFunction funcName args) with
      | .ok (.scalarFunction name (arg :: rest)) => do
        let arg' ← columnSubstitute arg
        pure (.scalarFunction name (arg' :: rest))
      -- the clone of a `CAST` is a `CAST` of one argument: not reached
      | .ok _ => throw .indexOutOfRange
      | .error err => throw err
    else do
      let newArgs ← columnSubstituteAll args
      (newFunction funcs funcName newArgs).mapError .nilFunction
  | e => pure e
termination_by sizeOf e
decreasing_by
  · exact sizeOf_lt_of_clone funcs _hclone
  · exact sizeOf_args_lt funcName args

/-- The substitution of a list of arguments, left to right. -/
def columnSubstituteAll (es : List (Expression C D)) :
    Except SubstituteError (List (Expression C D)) :=
  match es with
  | [] => pure []
  | e :: es => do
    let e' ← columnSubstitute e
    let es' ← columnSubstituteAll es
    pure (e' :: es')
termination_by sizeOf es

end

variable {funcs}

theorem columnSubstitute_cast {a : Expression C D} (h : wellBuilt funcs a) :
    columnSubstitute funcs schema newExprs (.scalarFunction Expression.cast [a]) =
      (fun a' => .scalarFunction Expression.cast [a']) <$>
        columnSubstitute funcs schema newExprs a := by
  have hc : clone funcs (.scalarFunction Expression.cast [a]) =
      .ok (.scalarFunction Expression.cast [a]) :=
    clone_of_wellBuilt (by simp [wellBuilt, wellBuiltAll, h])
  rw [columnSubstitute, if_pos rfl]
  split <;> rename_i heq <;> rw [hc] at heq <;> cases heq
  · cases columnSubstitute funcs schema newExprs a <;> rfl
  · rename_i hne; exact (hne _ _ _ rfl).elim

theorem columnSubstituteAll_singleton (a : Expression C D) :
    columnSubstituteAll funcs schema newExprs [a] =
      (fun a' => [a']) <$> columnSubstitute funcs schema newExprs a := by
  rw [columnSubstituteAll, columnSubstituteAll]
  cases columnSubstitute funcs schema newExprs a <;> rfl

/-! ## What `ColumnSubstitute` computes -/

mutual

/-- Every column of `schema` replaced by the select field at its index (by the column itself past
the end of `newExprs`), every other node kept. -/
def replaceColumns : Expression C D → Expression C D
  | .column c =>
    match getColumnIndex schema c with
    | some id => newExprs.getD id (.column c)
    | none => .column c
  | .scalarFunction funcName args => .scalarFunction funcName (replaceColumnsAll args)
  | e => e

/-- `replaceColumns` on each argument of a list. -/
def replaceColumnsAll : List (Expression C D) → List (Expression C D)
  | [] => []
  | e :: es => replaceColumns e :: replaceColumnsAll es

end

theorem length_replaceColumnsAll (es : List (Expression C D)) :
    (replaceColumnsAll schema newExprs es).length = es.length := by
  induction es with
  | nil => rfl
  | cons e es ih => simp [replaceColumnsAll, ih]

variable {schema newExprs}

theorem not_mem_of_getColumnIndex_eq_none {c : C} (h : getColumnIndex schema c = none) :
    c ∉ schema := fun hc => by simpa [h] using getColumnIndex_isSome.2 hc

theorem getD_of_getColumnIndex {c : C} {i : Nat} (hlen : schema.length ≤ newExprs.length)
    (hi : getColumnIndex schema c = some i) :
    ∃ n, newExprs[i]? = some n ∧ newExprs.getD i (.column c) = n := by
  have hid : i < newExprs.length :=
    lt_of_lt_of_le (List.getElem?_eq_some_iff.1 (getColumnIndex_eq_some hi)).1 hlen
  exact ⟨_, List.getElem?_eq_getElem hid, by simp [List.getD_eq_getElem?_getD, hid]⟩

section Refine

mutual

/-- On a well-built filter, with well-built select fields and one for each column of the
schema, `ColumnSubstitute` succeeds and computes `replaceColumns`. -/
theorem columnSubstitute_eq_replaceColumns (hnew : wellBuiltAll funcs newExprs)
    (hlen : schema.length ≤ newExprs.length) : ∀ {e : Expression C D}, wellBuilt funcs e →
      columnSubstitute funcs schema newExprs e = .ok (replaceColumns schema newExprs e)
  | .column c, _ => by
    rw [columnSubstitute, replaceColumns]
    cases hi : getColumnIndex schema c with
    | none => rfl
    | some id =>
      obtain ⟨n, hn, hd⟩ := getD_of_getColumnIndex hlen hi
      simp only [hn, hd]
      exact clone_of_wellBuilt (wellBuilt_of_mem hnew (List.getElem?_mem hn))
  | .scalarFunction f args, h => by
    simp only [wellBuilt, Bool.and_eq_true] at h
    have ih := columnSubstituteAll_eq_replaceColumnsAll hnew hlen h.2
    rw [replaceColumns]
    by_cases hf : f = Expression.cast
    · subst hf
      obtain ⟨a, rfl⟩ := List.length_eq_one.1 (of_decide_eq_true (if_pos rfl ▸ h.1))
      obtain ⟨a', ha, ha'⟩ := Except.map_eq_ok.1 (columnSubstituteAll_singleton _ _ a ▸ ih)
      rw [columnSubstitute_cast _ _ (wellBuilt_of_mem h.2 (List.mem_singleton_self a)), ha]
      simp only [replaceColumnsAll] at ha' ⊢
      rw [← ha']; rfl
    · rw [if_neg hf, Bool.and_eq_true] at h
      rw [columnSubstitute, if_neg hf, ih, Except.ok_bind,
        newFunction_of_isOk funcs h.1.1 (length_replaceColumnsAll _ _ _)]
      rfl
  | .correlatedColumn _, _ | .constant _, _ => by simp only [columnSubstitute]; rfl

theorem columnSubstituteAll_eq_replaceColumnsAll (hnew : wellBuiltAll funcs newExprs)
    (hlen : schema.length ≤ newExprs.length) : ∀ {es : List (Expression C D)},
      wellBuiltAll funcs es →
      columnSubstituteAll funcs schema newExprs es = .ok (replaceColumnsAll schema newExprs es)
  | [], _ => by rw [columnSubstituteAll]; rfl
  | e :: es, h => by
    simp only [wellBuiltAll, Bool.and_eq_true] at h
    rw [columnSubstituteAll, columnSubstitute_eq_replaceColumns hnew hlen h.1, Except.ok_bind,
      columnSubstituteAll_eq_replaceColumnsAll hnew hlen h.2]
    rfl

end

end Refine

/-! ## The substituted filter -/

section Eval

variable {Ctx : Type} {builtins : String → Ctx → List (Except String D) → Except String D}
  {ctx : Ctx} {row row' outer : C → D}

mutual

/-- The filter with its columns replaced, evaluated on the projection's input row `row`, has the
value of the filter on the projection's output row `row'`: each column of the schema holds the
value of its select field on `row`, and any other column is read from `row`. -/
theorem eval_replaceColumns (hlen : schema.length ≤ newExprs.length)
    (hproj : ∀ c i n, getColumnIndex schema c = some i → newExprs[i]? = some n →
      eval builtins ctx row outer n = .ok (row' c))
    (hrest : ∀ c, c ∉ schema → row' c = row c) : ∀ e : Expression C D,
      eval builtins ctx row outer (replaceColumns schema newExprs e) =
        eval builtins ctx row' outer e
  | .column c => by
    rw [replaceColumns]
    cases hi : getColumnIndex schema c with
    | none => simp only [eval, hrest c (not_mem_of_getColumnIndex_eq_none hi)]
    | some i =>
      obtain ⟨n, hn, hd⟩ := getD_of_getColumnIndex hlen hi
      simp only [hd, hproj c i n hi hn, eval]
  | .scalarFunction f args => by
    simp only [replaceColumns, eval]
    rw [evalAll_replaceColumnsAll hlen hproj hrest args]
  | .correlatedColumn _ | .constant _ => rfl

theorem evalAll_replaceColumnsAll (hlen : schema.length ≤ newExprs.length)
    (hproj : ∀ c i n, getColumnIndex schema c = some i → newExprs[i]? = some n →
      eval builtins ctx row outer n = .ok (row' c))
    (hrest : ∀ c, c ∉ schema → row' c = row c) : ∀ es : List (Expression C D),
      evalAll builtins ctx row outer (replaceColumnsAll schema newExprs es) =
        evalAll builtins ctx row' outer es
  | [] => rfl
  | e :: es => by
    simp only [replaceColumnsAll, evalAll]
    rw [eval_replaceColumns hlen hproj hrest e, evalAll_replaceColumnsAll hlen hproj hrest es]

end

end Eval

mutual

/-- The filter with its columns replaced reads the select fields' columns, and its own columns
outside the schema. -/
theorem extractColumns_replaceColumns (hlen : schema.length ≤ newExprs.length) :
    ∀ (e : Expression C D) c, c ∈ extractColumns (replaceColumns schema newExprs e) →
      c ∈ extractColumnsAll newExprs ∨ c ∈ extractColumns e ∧ c ∉ schema
  | .column c', c, h => by
    rw [replaceColumns] at h
    cases hi : getColumnIndex schema c' with
    | none =>
      rw [hi] at h
      simp only [extractColumns, List.mem_singleton] at h ⊢
      exact .inr ⟨h, h ▸ not_mem_of_getColumnIndex_eq_none hi⟩
    | some i =>
      obtain ⟨n, hn, hd⟩ := getD_of_getColumnIndex hlen hi
      simp only [hi, hd] at h
      exact .inl (mem_extractColumnsAll.2 ⟨n, List.getElem?_mem hn, h⟩)
  | .scalarFunction f args, c, h => by
    simp only [replaceColumns, extractColumns] at h ⊢
    exact extractColumnsAll_replaceColumnsAll hlen args c h
  | .correlatedColumn _, _, h | .constant _, _, h => by
    simp [replaceColumns, extractColumns] at h

theorem extractColumnsAll_replaceColumnsAll (hlen : schema.length ≤ newExprs.length) :
    ∀ (es : List (Expression C D)) c,
      c ∈ extractColumnsAll (replaceColumnsAll schema newExprs es) →
      c ∈ extractColumnsAll newExprs ∨ c ∈ extractColumnsAll es ∧ c ∉ schema
  | [], _, h => by simp [replaceColumnsAll, extractColumnsAll] at h
  | e :: es, c, h => by
    simp only [replaceColumnsAll, extractColumnsAll_cons, List.mem_append] at h ⊢
    rcases h with h | h
    · rcases extractColumns_replaceColumns hlen e c h with h | ⟨h, hc⟩
      exacts [.inl h, .inr ⟨.inl h, hc⟩]
    · rcases extractColumnsAll_replaceColumnsAll hlen es c h with h | ⟨h, hc⟩
      exacts [.inl h, .inr ⟨.inr h, hc⟩]

end

mutual

/-- Replacing the columns of a well-built filter by well-built select fields leaves it well
built. -/
theorem wellBuilt_replaceColumns (hnew : wellBuiltAll funcs newExprs)
    (hlen : schema.length ≤ newExprs.length) : ∀ {e : Expression C D}, wellBuilt funcs e →
      wellBuilt funcs (replaceColumns schema newExprs e)
  | .column c, _ => by
    rw [replaceColumns]
    cases hi : getColumnIndex schema c with
    | none => rfl
    | some i =>
      obtain ⟨n, hn, hd⟩ := getD_of_getColumnIndex hlen hi
      simp only [hd]
      exact wellBuilt_of_mem hnew (List.getElem?_mem hn)
  | .scalarFunction f args, h => by
    rw [replaceColumns]
    exact wellBuilt_of_length h (length_replaceColumnsAll _ _ _)
      (wellBuiltAll_replaceColumnsAll hnew hlen (wellBuiltAll_args h))
  | .correlatedColumn _, _ | .constant _, _ => rfl

theorem wellBuiltAll_replaceColumnsAll (hnew : wellBuiltAll funcs newExprs)
    (hlen : schema.length ≤ newExprs.length) : ∀ {es : List (Expression C D)},
      wellBuiltAll funcs es → wellBuiltAll funcs (replaceColumnsAll schema newExprs es)
  | [], _ => rfl
  | e :: es, h => by
    simp only [wellBuiltAll, Bool.and_eq_true] at h ⊢
    exact ⟨wellBuilt_replaceColumns hnew hlen h.1, wellBuiltAll_replaceColumnsAll hnew hlen h.2⟩

end

/-- Pushing a filter below a projection: on a well-built filter, with well-built select fields and
one for each column of the projection's schema, `ColumnSubstitute` succeeds. What it returns is
well built, reads only the select fields' columns and the filter's own columns outside the
schema, and on every input row of the projection has the value of the filter on the row the
projection outputs. -/
theorem columnSubstitute_pushdown {Ctx : Type}
    (builtins : String → Ctx → List (Except String D) → Except String D) (ctx : Ctx)
    {e : Expression C D} (hwb : wellBuilt funcs e) (hnew : wellBuiltAll funcs newExprs)
    (hlen : schema.length ≤ newExprs.length) :
    ∃ e', columnSubstitute funcs schema newExprs e = .ok e' ∧ wellBuilt funcs e' ∧
      (∀ c ∈ extractColumns e',
        c ∈ extractColumnsAll newExprs ∨ c ∈ extractColumns e ∧ c ∉ schema) ∧
      ∀ row row' outer : C → D,
        (∀ c i n, getColumnIndex schema c = some i → newExprs[i]? = some n →
          eval builtins ctx row outer n = .ok (row' c)) →
        (∀ c, c ∉ schema → row' c = row c) →
        eval builtins ctx row outer e' = eval builtins ctx row' outer e :=
  ⟨_, columnSubstitute_eq_replaceColumns hnew hlen hwb, wellBuilt_replaceColumns hnew hlen hwb,
    extractColumns_replaceColumns hlen e,
    fun _ _ _ hproj hrest => eval_replaceColumns hlen hproj hrest e⟩

/-- `select * from (select b + 1 as a from t) k where a < 10`, with `a` the column `0` of the
projection and `b` the column `1` of `t`. -/
theorem columnSubstitute_pushdown_lt :
    let funcs : String → Option FunctionClass := fun f =>
      if f = "lt" ∨ f = "plus" then some ⟨2, 2⟩ else none
    let builtins : String → Unit → List (Except String Int) → Except String Int :=
      fun f _ rs =>
        match f, rs with
        | "plus", [.ok a, .ok b] => .ok (a + b)
        | "lt", [.ok a, .ok b] => .ok (if a < b then 1 else 0)
        | _, _ => .error "incorrect parameter count"
    let e : Expression Nat Int := .scalarFunction "lt" [.column 0, .constant 10]
    let newExprs : List (Expression Nat Int) := [.scalarFunction "plus" [.column 1, .constant 1]]
    wellBuilt funcs e ∧ wellBuiltAll funcs newExprs ∧ [0].length ≤ newExprs.length ∧
    ∃ e', columnSubstitute funcs [0] newExprs e = .ok e' ∧ wellBuilt funcs e' ∧
      (∀ c ∈ extractColumns e',
        c ∈ extractColumnsAll newExprs ∨ c ∈ extractColumns e ∧ c ∉ [0]) ∧
      ∀ row row' outer : Nat → Int,
        (∀ c i n, getColumnIndex [0] c = some i → newExprs[i]? = some n →
          eval builtins () row outer n = .ok (row' c)) →
        (∀ c, c ∉ [0] → row' c = row c) →
        eval builtins () row outer e' = eval builtins () row' outer e := by
  intro funcs builtins e newExprs
  have hwb : wellBuilt funcs e := rfl
  have hnew : wellBuiltAll funcs newExprs := rfl
  exact ⟨hwb, hnew, le_refl _, columnSubstitute_pushdown builtins () hwb hnew (le_refl _)⟩

end Gleam.Expression
