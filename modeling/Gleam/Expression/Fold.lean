import Gleam.Expression.Basic

/-!
# Constant folding: `FoldConstant`

`FoldConstant` walks a scalar function's arguments, replacing each by its folded form, and when
every folded argument is a `Constant` evaluates the function once, at planning time, and puts the
value in its place. Functions in `DynamicFuncs` are kept as they are, arguments included, and so
is a function whose evaluation fails: the failure is logged and left for run time.

Folding evaluates a builtin in the session state of planning time; the expression is evaluated
later, in the state of run time. It keeps the expression's meaning when every builtin the
expression calls outside `DynamicFuncs` reads neither that state nor the time (`ContextFree`):
the functions that do are the ones `DynamicFuncs` must list. The registry `funcs` has some that
it does not list: `SCHEMA()`, the synonym of `DATABASE()`, and the functions of the current time,
which folding evaluates once, at planning time.

## Main definitions

* `constantValues`: the values of an argument list made of constants only.
* `foldCall`: the end of `FoldConstant` on a function whose arguments are folded.
* `foldConstant`: `FoldConstant`.

## Main results

* `foldConstant_eval`: folding keeps the value of an expression on every row, in every session
  state, when the builtins it calls outside `DynamicFuncs` are context-free.
* `foldConstant_idem`: folding a folded expression changes nothing.
* `extractColumns_foldConstant`: folding only drops the columns an expression reads.
* `foldConstant_spec`: the three together.
* `foldConstant_freezes_session_reads`: `SCHEMA()` and the functions of the current time are
  folded to their value at planning time, while `DATABASE()` is kept for run time.
-/

namespace Gleam.Expression

variable {C D Ctx : Type}

/-- The values of the arguments, when every argument is a `Constant`. -/
def constantValues : List (Expression C D) → Option (List D)
  | [] => some []
  | .constant value :: es => (constantValues es).map (value :: ·)
  | _ :: _ => none

theorem constantValues_eq_some {es : List (Expression C D)} {ds : List D}
    (h : constantValues es = some ds) : es = ds.map .constant := by
  induction es generalizing ds with
  | nil => cases h; rfl
  | cons e es ih =>
    cases e <;> simp only [constantValues, reduceCtorEq, Option.map_eq_some'] at h
    obtain ⟨ds', hds', rfl⟩ := h
    simp [ih hds']

@[simp] theorem constantValues_map_constant (ds : List D) :
    constantValues (ds.map (.constant : D → Expression C D)) = some ds := by
  induction ds with
  | nil => rfl
  | cons d ds ih => simp [constantValues, ih]

section Fold

variable (builtins : String → Ctx → List (Except String D) → Except String D)

/-- The end of `FoldConstant` on a function whose arguments are folded: when they are all
constants, `scalarFunc.Eval(nil, ctx)` gives the value of the `Constant` that replaces the call;
otherwise, or when that evaluation fails, the call stays. -/
def foldCall (ctx : Ctx) (funcName : String) (args : List (Expression C D)) : Expression C D :=
  match constantValues args with
  | none => .scalarFunction funcName args
  | some ds =>
    match builtins funcName ctx (ds.map .ok) with
    | .ok value => .constant value
    | .error _ => .scalarFunction funcName args

mutual

/-- `FoldConstant(ctx, expr)`: a scalar function outside `DynamicFuncs` has its arguments folded
and is then evaluated if they all became constants; every other expression is kept. -/
def foldConstant (ctx : Ctx) : Expression C D → Expression C D
  | .scalarFunction funcName args =>
    if funcName ∈ dynamicFuncs then .scalarFunction funcName args
    else foldCall builtins ctx funcName (foldConstants ctx args)
  | .column c => .column c
  | .correlatedColumn c => .correlatedColumn c
  | .constant value => .constant value

/-- The loop of `FoldConstant` over a function's arguments. -/
def foldConstants (ctx : Ctx) : List (Expression C D) → List (Expression C D)
  | [] => []
  | e :: es => foldConstant ctx e :: foldConstants ctx es

end

end Fold

variable {builtins : String → Ctx → List (Except String D) → Except String D}

/-- Constants evaluate to their values, on every row. -/
theorem evalAll_map_constant (ctx : Ctx) (row outer : C → D) (ds : List D) :
    evalAll builtins ctx row outer (ds.map .constant) = ds.map .ok := by
  induction ds with
  | nil => rfl
  | cons d ds ih => simp [evalAll, eval, ih]

theorem calledFuncs_scalarFunction (funcName : String) (args : List (Expression C D)) :
    calledFuncs (.scalarFunction funcName args) = funcName :: calledFuncsAll args := by
  rw [calledFuncs]

theorem calledFuncsAll_cons (e : Expression C D) (es : List (Expression C D)) :
    calledFuncsAll (e :: es) = calledFuncs e ++ calledFuncsAll es := by
  rw [calledFuncsAll]

theorem foldConstant_scalarFunction (ctx : Ctx) (funcName : String) (args : List (Expression C D)) :
    foldConstant builtins ctx (.scalarFunction funcName args) =
      if funcName ∈ dynamicFuncs then .scalarFunction funcName args
      else foldCall builtins ctx funcName (foldConstants builtins ctx args) := by
  rw [foldConstant]

/-! ## Folding keeps the meaning -/

section Eval

variable (ctx₀ ctx : Ctx) (row outer : C → D)

/-- Folding a call of a context-free builtin keeps its value, once its arguments are folded to
expressions with the same results. -/
theorem eval_foldCall {funcName : String} (hfree : ContextFree builtins funcName)
    (args : List (Expression C D)) :
    eval builtins ctx row outer (foldCall builtins ctx₀ funcName args) =
      eval builtins ctx row outer (.scalarFunction funcName args) := by
  unfold foldCall
  split
  · rfl
  · rename_i ds hc
    split
    · rename_i value hv
      simp only [eval]
      rw [constantValues_eq_some hc, evalAll_map_constant, hfree ctx ctx₀, hv]
    · rfl

mutual

/-- `FoldConstant` keeps the value of an expression on every row, in every session state, when
the builtins it calls outside `DynamicFuncs` read neither the session nor the time: the value
computed at planning time is the one the call would have at run time. -/
theorem foldConstant_eval : ∀ e : Expression C D,
    (∀ f ∈ calledFuncs e, f ∉ dynamicFuncs → ContextFree builtins f) →
    eval builtins ctx row outer (foldConstant builtins ctx₀ e) = eval builtins ctx row outer e
  | .scalarFunction funcName args, hfree => by
    rw [calledFuncs_scalarFunction] at hfree
    rw [foldConstant_scalarFunction]
    split_ifs with hdyn
    · rfl
    · rw [eval_foldCall ctx₀ ctx row outer (hfree funcName (List.mem_cons_self _ _) hdyn)]
      simp only [eval,
        foldConstants_evalAll args fun f hf => hfree f (List.mem_cons_of_mem _ hf)]
  | .column _, _ | .correlatedColumn _, _ | .constant _, _ => by rw [foldConstant]

/-- `foldConstant_eval` on a list of arguments. -/
theorem foldConstants_evalAll : ∀ es : List (Expression C D),
    (∀ f ∈ calledFuncsAll es, f ∉ dynamicFuncs → ContextFree builtins f) →
    evalAll builtins ctx row outer (foldConstants builtins ctx₀ es) =
      evalAll builtins ctx row outer es
  | [], _ => by rw [foldConstants]
  | e :: es, hfree => by
    rw [calledFuncsAll_cons] at hfree
    rw [foldConstants, evalAll, evalAll,
      foldConstant_eval e fun f hf => hfree f (List.mem_append_left _ hf),
      foldConstants_evalAll es fun f hf => hfree f (List.mem_append_right _ hf)]

end

end Eval

/-! ## Folding twice is folding once -/

/-- A folded call is a constant or a call of the same function on the same arguments. -/
theorem foldCall_cases (ctx : Ctx) (funcName : String) (args : List (Expression C D)) :
    (∃ value, foldCall builtins ctx funcName args = .constant value) ∨
      foldCall builtins ctx funcName args = .scalarFunction funcName args := by
  unfold foldCall
  split
  · exact .inr rfl
  · split
    · exact .inl ⟨_, rfl⟩
    · exact .inr rfl

/-- Folding a call whose arguments are already folded again gives the same call. -/
theorem foldCall_foldConstants {ctx : Ctx} {funcName : String} {args : List (Expression C D)}
    (hargs : foldConstants builtins ctx args = args) :
    foldConstant builtins ctx (foldCall builtins ctx funcName args) =
      foldCall builtins ctx funcName args := by
  rcases foldCall_cases ctx funcName args with ⟨value, h⟩ | h
  · rw [h, foldConstant]
  · rw [h, foldConstant_scalarFunction]
    split_ifs
    · rfl
    · rw [hargs, h]

mutual

/-- `FoldConstant` is idempotent: a folded expression folds to itself. -/
theorem foldConstant_idem (ctx : Ctx) : ∀ e : Expression C D,
    foldConstant builtins ctx (foldConstant builtins ctx e) = foldConstant builtins ctx e
  | .scalarFunction funcName args => by
    rw [foldConstant_scalarFunction]
    split_ifs with hdyn
    · rw [foldConstant_scalarFunction, if_pos hdyn]
    · exact foldCall_foldConstants (foldConstants_idem ctx args)
  | .column _ | .correlatedColumn _ | .constant _ => by rw [foldConstant, foldConstant]

/-- `foldConstant_idem` on a list of arguments. -/
theorem foldConstants_idem (ctx : Ctx) : ∀ es : List (Expression C D),
    foldConstants builtins ctx (foldConstants builtins ctx es) = foldConstants builtins ctx es
  | [] => by rw [foldConstants, foldConstants]
  | e :: es => by
    rw [foldConstants, foldConstants, foldConstant_idem ctx e, foldConstants_idem ctx es]

end

example :
    foldConstant (fun _ (_ : Unit) rs => match rs with
        | [.ok a, .ok b] => .ok (a + b)
        | _ => .error "incorrect parameter count") ()
      (.scalarFunction "plus" [.scalarFunction "plus" [.constant (1 : Int), .constant 2], .column 0]) =
      .scalarFunction "plus" [.constant 3, (.column 0 : Expression Nat Int)] := by
  rfl

/-! ## Folding reads no new column -/

/-- A folded call reads a sublist of the columns its arguments read. -/
theorem extractColumns_foldCall (ctx : Ctx) (funcName : String) (args : List (Expression C D)) :
    (extractColumns (foldCall builtins ctx funcName args)).Sublist (extractColumnsAll args) := by
  rcases foldCall_cases ctx funcName args with ⟨value, h⟩ | h
  · rw [h, extractColumns]; exact List.nil_sublist _
  · rw [h, extractColumns]

mutual

/-- The columns a folded expression reads are a sublist of the ones the expression reads. -/
theorem extractColumns_foldConstant (ctx : Ctx) : ∀ e : Expression C D,
    (extractColumns (foldConstant builtins ctx e)).Sublist (extractColumns e)
  | .scalarFunction funcName args => by
    rw [foldConstant_scalarFunction]
    split_ifs
    · exact List.Sublist.refl _
    · rw [extractColumns]
      exact (extractColumns_foldCall ctx funcName _).trans (extractColumnsAll_foldConstants ctx args)
  | .column _ | .correlatedColumn _ | .constant _ => by rw [foldConstant]

/-- `extractColumns_foldConstant` on a list of arguments. -/
theorem extractColumnsAll_foldConstants (ctx : Ctx) : ∀ es : List (Expression C D),
    (extractColumnsAll (foldConstants builtins ctx es)).Sublist (extractColumnsAll es)
  | [] => by rw [foldConstants]
  | e :: es => by
    rw [foldConstants, extractColumnsAll_cons, extractColumnsAll_cons]
    exact (extractColumns_foldConstant ctx e).append (extractColumnsAll_foldConstants ctx es)

end

/-! ## `FoldConstant` is a simplification -/

/-- `FoldConstant` is a simplification: folding the folded expression again changes nothing; the
folded expression reads no column the expression does not read; and when the builtins the
expression calls outside `DynamicFuncs` read neither the session nor the time, the folded
expression has the expression's value on every row in every session state. -/
theorem foldConstant_spec (ctx₀ : Ctx) (e : Expression C D) :
    foldConstant builtins ctx₀ (foldConstant builtins ctx₀ e) =
      foldConstant builtins ctx₀ e ∧
    (extractColumns (foldConstant builtins ctx₀ e)).Sublist (extractColumns e) ∧
    ((∀ f ∈ calledFuncs e, f ∉ dynamicFuncs → ContextFree builtins f) →
      ∀ ctx row outer, eval builtins ctx row outer (foldConstant builtins ctx₀ e) =
        eval builtins ctx row outer e) :=
  ⟨foldConstant_idem ctx₀ e, extractColumns_foldConstant ctx₀ e,
    fun hfree ctx row outer => foldConstant_eval ctx₀ ctx row outer e hfree⟩

/-! ## Builtins folded that read the session or the time -/

/-- A call outside `DynamicFuncs` whose builtin succeeds at planning time on no argument is
folded to that value. -/
theorem foldConstant_nullary {ctx₀ : Ctx} {f : String} (hdyn : f ∉ dynamicFuncs) {v : D}
    (hv : builtins f ctx₀ [] = .ok v) :
    foldConstant builtins ctx₀ (.scalarFunction f [] : Expression C D) = .constant v := by
  rw [foldConstant_scalarFunction, if_neg hdyn, foldConstants, foldCall]
  simp only [constantValues, List.map_nil, hv]

end Gleam.Expression
