import Gleam.Plan.Rewriter.Columns
import Gleam.Expression.Substitute

/-!
# Rewritten expressions can be substituted into

`ColumnSubstitute` pushes a filter below a projection by replacing each column of the projection's
schema with the select field that computes it. It clones the fields it puts in and rebuilds every
function by `NewFunction`, so it only behaves on expressions the builders could have produced
(`wellBuilt`). Every expression `rewrite` returns is one: each handler builds its functions by
`NewFunction`, which refuses a name the registry `funcs` lacks, and `funcs` in `builtin.go` has
neither `CAST` nor `VALUES`, which `NewCastFunc` and `NewValuesFunc` build outside it; constant
folding replaces a call by a constant or rebuilds it with as many arguments.

So a condition and select fields that `rewrite` returns are cloned as they are, and substituting
the fields into the condition never fails: it computes `replaceColumns`.

`ComposeCNFCondition` is not part of this repository: the results assume that it composes
well-built conditions into a well-built one.

## Main definitions

* `Env.Buildable`: the registry has neither `CAST` nor `VALUES`, and `ComposeCNFCondition`
  keeps conditions well built.

## Main results

* `Env.Buildable.closed`: being well built is kept by every handler, so (`translate_closed`)
  every translation is well built.
* `wellBuilt_foldConstant`: constant folding keeps an expression well built.
* `rewrite_substitutable`: every expression `rewrite` returns is well built, `Clone` copies it,
  and select fields that `rewrite` returns substitute into it without failing.
-/

namespace Gleam.Plan.Rewriter

open Gleam.Expression

variable {C D : Type}

/-- What substituting into rewritten expressions rests on, among the parameters of a rewrite. -/
structure Env.Buildable (env : Env C D) : Prop where
  /-- The registry has no `CAST`: only `NewCastFunc` builds it. -/
  cast : env.funcs Expression.cast = none
  /-- The registry has no `VALUES`: only `NewValuesFunc` builds it. -/
  values : env.funcs values = none
  /-- `ComposeCNFCondition` composes well-built conditions into a well-built one. -/
  composeCNF : ∀ es, wellBuiltAll env.funcs es = true →
    wellBuilt env.funcs (env.composeCNF es) = true

variable {env : Env C D}

/-- Being well built is a property every handler keeps. -/
theorem Env.Buildable.closed (hb : env.Buildable) :
    env.Closed fun e => wellBuilt env.funcs e = true where
  column _ _ := rfl
  findColumn _ _ _ := rfl
  correlatedColumn _ := rfl
  constant _ := rfl
  newFunction h hargs :=
    wellBuilt_of_newFunction hb.cast hb.values (Except.mapError_eq_ok.1 h)
      (wellBuiltAll_iff.2 hargs)
  composeCNF es hes := hb.composeCNF es (wellBuiltAll_iff.2 hes)
  arg h := wellBuiltAll_iff.1 (wellBuiltAll_args h)

/-! ## Constant folding keeps an expression well built -/

section Fold

variable {Ctx : Type} {builtins : String → Ctx → List (Except String D) → Except String D}
  {funcs : String → Option FunctionClass}

theorem length_foldConstants (ctx : Ctx) (es : List (Expression C D)) :
    (foldConstants builtins ctx es).length = es.length := by
  induction es with
  | nil => rfl
  | cons e es ih => simp only [foldConstants, List.length_cons, ih]

mutual

/-- Folding replaces a call by a constant, or rebuilds it from folded arguments, as many as it
had. -/
theorem wellBuilt_foldConstant (ctx : Ctx) :
    ∀ {e : Expression C D}, wellBuilt funcs e → wellBuilt funcs (foldConstant builtins ctx e)
  | .scalarFunction f args, h => by
    rw [foldConstant_scalarFunction]
    split_ifs
    · exact h
    · rcases foldCall_cases ctx f (foldConstants builtins ctx args) with ⟨v, hv⟩ | hv <;>
        rw [hv]
      · rfl
      · exact wellBuilt_of_length h (length_foldConstants ctx args)
          (wellBuiltAll_foldConstants ctx (wellBuiltAll_args h))
  | .column _, h | .correlatedColumn _, h | .constant _, h => h

theorem wellBuiltAll_foldConstants (ctx : Ctx) :
    ∀ {es : List (Expression C D)}, wellBuiltAll funcs es →
      wellBuiltAll funcs (foldConstants builtins ctx es)
  | [], h => h
  | e :: es, h => by
    simp only [wellBuiltAll, foldConstants, Bool.and_eq_true] at h ⊢
    exact ⟨wellBuilt_foldConstant ctx h.1, wellBuiltAll_foldConstants ctx h.2⟩

end

end Fold

/-! ## `rewrite` and `ColumnSubstitute` -/

section Rewrite

variable [DecidableEq C] {Ctx : Type}
  {builtins : String → Ctx → List (Except String D) → Except String D} {ctx : Ctx}

/-- Every expression `rewrite` returns is well built: `Clone` copies it as it is, and substituting
into it any select fields that are well built, such as those `rewrite` returns, one for each
column of the schema, never fails and replaces each column of the schema by its field. -/
theorem rewrite_substitutable (hb : env.Buildable) {expr : ExprNode D} {asScalar : Bool}
    {e : Expression C D} (h : rewrite env builtins ctx expr asScalar = .ok (some e)) :
    wellBuilt env.funcs e = true ∧ clone env.funcs e = .ok e ∧
      ∀ (schema : List C) (newExprs : List (Expression C D)),
        wellBuiltAll env.funcs newExprs = true → schema.length ≤ newExprs.length →
          columnSubstitute env.funcs schema newExprs e =
            .ok (replaceColumns schema newExprs e) := by
  obtain ⟨t, ht, rfl⟩ := translate_of_rewrite env builtins ctx h
  have hwb : wellBuilt env.funcs (foldConstant builtins ctx t) :=
    wellBuilt_foldConstant ctx (translate_closed hb.closed expr ht)
  exact ⟨hwb, clone_of_wellBuilt hwb, fun _ _ hnew hlen =>
    columnSubstitute_eq_replaceColumns hnew hlen hwb⟩

/-- `namedEnv` with the registry of `builtin.go` in outline: every function but `CAST` and
`VALUES`, with any number of arguments. -/
def registryEnv (schema : List String) : Env String Nat :=
  { namedEnv schema with
    funcs := fun f => if f = Expression.cast ∨ f = values then none else some ⟨0, -1⟩ }

theorem registryEnv_buildable (schema : List String) : (registryEnv schema).Buildable where
  cast := rfl
  values := rfl
  composeCNF es hes := by
    have hcast : andAnd ≠ Expression.cast := by decide
    have hvalues : andAnd ≠ values := by decide
    simp only [registryEnv, namedEnv] at hes ⊢
    simp [wellBuilt, Expression.newFunction, hcast, hvalues, hes, Except.isOk, Except.toBool,
      not_lt.2 (Int.ofNat_nonneg es.length)]

/-- `b > 7` rewritten against the schema `a, b` with the registry in outline. -/
theorem rewrite_substitutable_gt :
    let builtins : String → Unit → List (Except String Nat) → Except String Nat :=
      fun _ _ _ => .error "not folded"
    let expr : ExprNode Nat :=
      .binaryOperationExpr (.cmp .gt) (.columnNameExpr none ⟨"", "", "b"⟩) (.valueExpr 7)
    let e : Expression String Nat := .scalarFunction "gt" [.column "b", .constant 7]
    (registryEnv ["a", "b"]).Buildable ∧
      rewrite (registryEnv ["a", "b"]) builtins () expr false = .ok (some e) ∧
      (wellBuilt (registryEnv ["a", "b"]).funcs e = true ∧
        clone (registryEnv ["a", "b"]).funcs e = .ok e ∧
        ∀ (schema : List String) (newExprs : List (Expression String Nat)),
          wellBuiltAll (registryEnv ["a", "b"]).funcs newExprs = true →
            schema.length ≤ newExprs.length →
            columnSubstitute (registryEnv ["a", "b"]).funcs schema newExprs e =
              .ok (replaceColumns schema newExprs e)) := by
  intro builtins expr e
  have h : rewrite (registryEnv ["a", "b"]) builtins () expr false = .ok (some e) := rfl
  exact ⟨registryEnv_buildable _, h, rewrite_substitutable (registryEnv_buildable _) h⟩

end Rewrite

end Gleam.Plan.Rewriter
