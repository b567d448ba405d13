import Mathlib.Data.List.Basic

/-!
# Expressions: `expression.Expression` and its evaluation

The planner's expressions are columns of the input row, correlated columns bound to a row of an
outer query, constants, and scalar functions over argument expressions. A scalar function's value
is its builtin's, computed from the results of its arguments, left to right. What each builtin
computes is not part of this repository: the model takes it as a parameter `builtins`, indexed by
the function's lower-case name and given the state of the session it runs in. A builtin built on
`evalArgs` fails with the first failed argument; one that short-circuits may ignore a failure.

Columns are identified as `Schema.GetColumnIndex` identifies them, by a value of a type `C` with
decidable equality; a row gives each column its datum of type `D`.

## Main definitions

* `Expression`, `eval`: expressions and their value on a row.
* `dynamicFuncs`: `DynamicFuncs`, the functions whose value may change from one call to the next.
* `ContextFree`: a builtin that reads neither the session nor the time.
* `calledFuncs`: the names of the functions an expression calls.
* `extractColumns`: `ExtractColumns`, the columns an expression reads from its input row.
* `getColumnIndex`, `newFunction`: `Schema.GetColumnIndex` and `NewFunction`.

## Main results

* `eval_congr`: an expression's value depends on the input row only through the columns
  `ExtractColumns` lists.
-/

namespace Gleam.Expression

set_option linter.dupNamespace false in
/-- `expression.Expression`: a `Column` of the input row, a `CorrelatedColumn` of an outer row, a
`Constant`, or a `ScalarFunction` named by its lower-case `FuncName` over its arguments. -/
inductive Expression (C D : Type) where
  | column (c : C)
  | correlatedColumn (c : C)
  | constant (value : D)
  | scalarFunction (funcName : String) (args : List (Expression C D))
  deriving Repr

/-- `ast.GetVar`, `ast.SetVar` and `ast.Values`: the parser's names of the functions that read and
assign user variables and that read the row an `INSERT` is writing. -/
def getVar : String := "getvar"

@[inherit_doc getVar] def setVar : String := "setvar"

@[inherit_doc getVar] def values : String := "values"

/-- `DynamicFuncs`: the functions that read the session or return a different value on each call,
which constant folding must not evaluate early. -/
def dynamicFuncs : List String :=
  ["rand", "connection_id", "current_user", "database", "found_rows", "last_insert_id", "user",
    "version", "sleep", getVar, setVar, values]

theorem Except.ok_bind {ε α β : Type} (a : α) (f : α → Except ε β) :
    (Except.ok a >>= f) = f a := rfl

theorem Except.error_bind {ε α β : Type} (e : ε) (f : α → Except ε β) :
    (Except.error e >>= f) = .error e := rfl

theorem Except.bind_eq_ok {ε α β : Type} {x : Except ε α} {f : α → Except ε β} {b : β}
    (h : x >>= f = .ok b) : ∃ a, x = .ok a ∧ f a = .ok b := by
  cases x with
  | error e => cases h
  | ok a => exact ⟨a, rfl, h⟩

theorem Except.map_eq_ok {ε α β : Type} {f : α → β} {x : Except ε α} {b : β} :
    f <$> x = .ok b ↔ ∃ a, x = .ok a ∧ f a = b := by
  cases x <;> simp

theorem Except.map_eq_error {ε α β : Type} {f : α → β} {x : Except ε α} {e : ε} :
    f <$> x = .error e ↔ x = .error e := by
  cases x <;> simp

theorem Except.mapError_eq_ok {ε ε' α : Type} {f : ε → ε'} {x : Except ε α} {a : α} :
    x.mapError f = .ok a ↔ x = .ok a := by
  cases x <;> simp [Except.mapError]

variable {C D Ctx : Type}

section Eval

variable (builtins : String → Ctx → List (Except String D) → Except String D)

mutual

/-- `Expression.Eval(row, ctx)`: a column reads the input row, a correlated column the outer row
it is bound to, and a scalar function applies its builtin, in the session state `ctx`, to the
results of its arguments. -/
def eval (ctx : Ctx) (row outer : C → D) : Expression C D → Except String D
  | .column c => .ok (row c)
  | .correlatedColumn c => .ok (outer c)
  | .constant value => .ok value
  | .scalarFunction funcName args => builtins funcName ctx (evalAll ctx row outer args)

/-- The results of evaluating a list of arguments, left to right. -/
def evalAll (ctx : Ctx) (row outer : C → D) : List (Expression C D) → List (Except String D)
  | [] => []
  | e :: es => eval ctx row outer e :: evalAll ctx row outer es

end

/-- A builtin computes its value from its arguments' results alone, in whatever state the
session is and at whatever time: what evaluating it at planning time needs. The builtins that do
not are the ones `DynamicFuncs` must list. -/
def ContextFree (funcName : String) : Prop :=
  ∀ (ctx ctx' : Ctx) rs, builtins funcName ctx rs = builtins funcName ctx' rs

end Eval

mutual

/-- `ExtractColumns(expr)`: the columns of the input row an expression reads, left to right with
repetitions; correlated columns and constants read none. -/
def extractColumns : Expression C D → List C
  | .column c => [c]
  | .scalarFunction _ args => extractColumnsAll args
  | .correlatedColumn _ | .constant _ => []

/-- The columns a list of arguments reads. -/
def extractColumnsAll : List (Expression C D) → List C
  | [] => []
  | e :: es => extractColumns e ++ extractColumnsAll es

end

mutual

/-- The names of the scalar functions an expression calls, outermost first. -/
def calledFuncs : Expression C D → List String
  | .scalarFunction funcName args => funcName :: calledFuncsAll args
  | .column _ | .correlatedColumn _ | .constant _ => []

/-- The names of the functions a list of arguments calls. -/
def calledFuncsAll : List (Expression C D) → List String
  | [] => []
  | e :: es => calledFuncs e ++ calledFuncsAll es

end

@[simp] theorem extractColumnsAll_cons (e : Expression C D) (es : List (Expression C D)) :
    extractColumnsAll (e :: es) = extractColumns e ++ extractColumnsAll es := by
  rw [extractColumnsAll]

theorem mem_extractColumnsAll {es : List (Expression C D)} {c : C} :
    c ∈ extractColumnsAll es ↔ ∃ e ∈ es, c ∈ extractColumns e := by
  induction es with
  | nil => simp [extractColumnsAll]
  | cons e es ih => simp [ih]

@[simp] theorem extractColumnsAll_append (es es' : List (Expression C D)) :
    extractColumnsAll (es ++ es') = extractColumnsAll es ++ extractColumnsAll es' := by
  induction es with
  | nil => rfl
  | cons e es ih => simp [ih]

theorem extractColumnsAll_subset_of_forall {cs : List C} {es : List (Expression C D)}
    (h : ∀ e ∈ es, extractColumns e ⊆ cs) : extractColumnsAll es ⊆ cs := fun _ hc =>
  let ⟨e, he, hc⟩ := mem_extractColumnsAll.1 hc
  h e he hc

theorem extractColumnsAll_subset {es es' : List (Expression C D)} (h : es ⊆ es') :
    extractColumnsAll es ⊆ extractColumnsAll es' := fun _ hc =>
  let ⟨e, he, hc⟩ := mem_extractColumnsAll.1 hc
  mem_extractColumnsAll.2 ⟨e, h he, hc⟩

/-! ## `Schema.GetColumnIndex` and `NewFunction` -/

section ColumnIndex

variable [DecidableEq C]

/-- `Schema.GetColumnIndex(col)`: the index of the first column of the schema equal to `col`, or
`-1`, here `none`, when there is none. -/
def getColumnIndex : List C → C → Option Nat
  | [], _ => none
  | c :: cs, col => if c = col then some 0 else (getColumnIndex cs col).map (· + 1)

theorem getColumnIndex_eq_some {schema : List C} {col : C} {i : Nat}
    (h : getColumnIndex schema col = some i) : schema[i]? = some col := by
  induction schema generalizing i with
  | nil => cases h
  | cons c cs ih =>
    simp only [getColumnIndex] at h
    split_ifs at h with hc
    · cases h; simp [hc]
    · obtain ⟨j, hj, rfl⟩ := Option.map_eq_some'.1 h
      simpa using ih hj

theorem getColumnIndex_isSome {schema : List C} {col : C} :
    (getColumnIndex schema col).isSome ↔ col ∈ schema := by
  induction schema with
  | nil => simp [getColumnIndex]
  | cons c cs ih => rcases eq_or_ne c col with rfl | hc <;> simp [getColumnIndex, *, Ne.symm]

end ColumnIndex

/-- A builtin's function class, as `funcs` registers it: the least and the most arguments it
takes, `-1` for no most. -/
structure FunctionClass where
  /-- `minArgs`. -/
  minArgs : Int
  /-- `maxArgs`, `-1` for no bound. -/
  maxArgs : Int
  deriving DecidableEq, Repr

/-- The errors of `NewFunction`. -/
inductive NewFunctionError
  | functionNotExists (name : String)
  | incorrectParameterCount (name : String)
  deriving DecidableEq, Repr

/-- `expression.NewFunction`: a call of a builtin registered in `funcs`, whose function class
checks the number of arguments (`verifyArgs`). -/
def newFunction (funcs : String → Option FunctionClass) (funcName : String)
    (args : List (Expression C D)) : Except NewFunctionError (Expression C D) :=
  match funcs funcName with
  | none => .error (.functionNotExists funcName)
  | some fc =>
    if (args.length : Int) < fc.minArgs ∨ (fc.maxArgs ≠ -1 ∧ fc.maxArgs < args.length) then
      .error (.incorrectParameterCount funcName)
    else .ok (.scalarFunction funcName args)

/-- A function `NewFunction` builds is the call of that builtin on those arguments. -/
theorem newFunction_eq_ok {funcs : String → Option FunctionClass} {funcName : String}
    {args : List (Expression C D)} {e : Expression C D} (h : newFunction funcs funcName args = .ok e) :
    e = .scalarFunction funcName args := by
  unfold newFunction at h
  split at h
  · cases h
  · split_ifs at h
    cases h
    rfl

section Congr

variable {builtins : String → Ctx → List (Except String D) → Except String D}
  {ctx : Ctx} {row row' outer : C → D}

mutual

/-- An expression's value depends on the input row only through the columns `ExtractColumns`
lists. -/
theorem eval_congr : ∀ e : Expression C D, (∀ c ∈ extractColumns e, row c = row' c) →
    eval builtins ctx row outer e = eval builtins ctx row' outer e
  | .column c, h => by simp [eval, h c (by simp [extractColumns])]
  | .correlatedColumn _, _ | .constant _, _ => rfl
  | .scalarFunction funcName args, h => by
    simp only [eval]
    rw [evalAll_congr args (fun c hc => h c (by simpa [extractColumns] using hc))]

/-- `eval_congr` on a list of arguments. -/
theorem evalAll_congr : ∀ es : List (Expression C D), (∀ c ∈ extractColumnsAll es, row c = row' c) →
    evalAll builtins ctx row outer es = evalAll builtins ctx row' outer es
  | [], _ => rfl
  | e :: es, h => by
    simp only [evalAll]
    rw [eval_congr e (fun c hc => h c (by simp [hc])),
      evalAll_congr es (fun c hc => h c (by simp [hc]))]

end

end Congr

end Gleam.Expression
