import Gleam.Plan.Rewriter.Walk
import Gleam.Plan.Rewriter.Closure

/-!
# A rewritten expression reads only its schema's columns

Every column an expression `rewrite` returns reads from the input row is a column of the schema
it was rewritten against: a column name becomes the column `Schema.FindColumn` finds in the
schema, or a correlated column of an enclosing query, which reads no column of the input row;
an aggregate and a mapped column name become the schema column at their offset; and every
handler builds its function from its operands and constants only. This is what a plan built
from rewritten expressions needs of them (`LogicalPlan.WellFormed`), and what lets
`evalAstExpr` evaluate on the `nil` row.

`FindColumn` and `ComposeCNFCondition` are not part of this repository: the results assume of
them what `Env.Lawful` states.

## Main definitions

* `Env.Lawful`: `FindColumn` finds a column of the schema it searches, and
  `ComposeCNFCondition` reads only the columns of the conditions it composes.

## Main results

* `Env.Lawful.closed`: reading only the schema's columns is kept by every handler, so
  (`translate_closed`) `translate_columns`: the translation of every node reads only them.
* `rewrite_columns`: so does every expression `rewrite` returns.
* `evalAstExpr_nilRow`: `evalAstExpr` never reads the `nil` row it evaluates on.
-/

namespace Gleam.Plan.Rewriter

open Gleam.Expression

variable {C D : Type}

/-- What the columns of a rewrite rest on, among the parameters outside this repository. -/
structure Env.Lawful (env : Env C D) : Prop where
  /-- `Schema.FindColumn` finds a column of the schema it searches. -/
  findColumn_mem : ∀ schema name c, env.findColumn schema name = .ok (some c) → c ∈ schema
  /-- `ComposeCNFCondition` reads only the columns of the conditions it composes. -/
  composeCNF_columns : ∀ es, extractColumns (env.composeCNF es) ⊆ extractColumnsAll es

variable {env : Env C D}

/-! ## Every translation reads only the schema's columns -/

theorem newFunction_columns {f : String} {args : List (Expression C D)} {e : Expression C D}
    (h : newFunction env f args = .ok e) : extractColumns e = extractColumnsAll args := by
  rw [newFunction_eq_ok (Except.mapError_eq_ok.1 h), extractColumns]

/-- Reading only the schema's columns is a property every handler keeps. -/
theorem Env.Lawful.closed (henv : env.Lawful) :
    env.Closed fun e => extractColumns e ⊆ env.schema where
  column c hc := by simpa [extractColumns] using hc
  findColumn name c h := by simpa [extractColumns] using henv.findColumn_mem _ _ _ h
  correlatedColumn _ := by simp [extractColumns]
  constant _ := by simp [extractColumns]
  newFunction h hargs := by
    rw [newFunction_columns h]
    exact extractColumnsAll_subset_of_forall hargs
  composeCNF es hes := (henv.composeCNF_columns es).trans (extractColumnsAll_subset_of_forall hes)
  arg h a ha c hc := h (by rw [extractColumns]; exact mem_extractColumnsAll.2 ⟨a, ha, hc⟩)

/-- The translation of every node reads only the schema's columns. -/
theorem translate_columns (henv : env.Lawful) (n : ExprNode D) {e : Expression C D}
    (h : translate env n = .ok e) : extractColumns e ⊆ env.schema :=
  translate_closed henv.closed n h

/-! ## `rewrite` and its callers -/

section Rewrite

variable {Ctx : Type} {builtins : String → Ctx → List (Except String D) → Except String D}
  {ctx : Ctx}

/-- Every column an expression returned by `rewrite` reads from the input row is a column of
the schema it was rewritten against. -/
theorem rewrite_columns (henv : env.Lawful) {expr : ExprNode D} {asScalar : Bool}
    {e : Expression C D} (h : rewrite env builtins ctx expr asScalar = .ok (some e)) :
    extractColumns e ⊆ env.schema := by
  obtain ⟨t, ht, rfl⟩ := translate_of_rewrite env builtins ctx h
  exact (extractColumns_foldConstant ctx t).subset.trans (translate_columns henv expr ht)

/-- An environment of named columns, for examples: `FindColumn` looks a name up in the schema,
every builtin takes one or more arguments, and conditions are composed with `and`. -/
def namedEnv (schema : List String) : Env String Nat where
  schema := schema
  outerSchemas := []
  findColumn := fun schema name => .ok (schema.find? (· == name.name))
  userVars := []
  systemVar := fun _ _ => .error "unknown system variable"
  funcs := fun _ => some ⟨1, -1⟩
  composeCNF := .scalarFunction andAnd
  intDatum := Int.toNat
  stringDatum := String.length
  nullDatum := 0

theorem namedEnv_lawful (schema : List String) : (namedEnv schema).Lawful :=
  ⟨fun _ _ _ h => List.mem_of_find?_eq_some (Except.ok.inj h), fun _ => by
    simp [namedEnv, extractColumns]⟩

/-- `b > 7` rewritten against the schema `a, b` reads the column `b` of it. -/
theorem rewrite_columns_gt :
    let builtins : String → Unit → List (Except String Nat) → Except String Nat :=
      fun _ _ _ => .error "not folded"
    let expr : ExprNode Nat :=
      .binaryOperationExpr (.cmp .gt) (.columnNameExpr none ⟨"", "", "b"⟩) (.valueExpr 7)
    let e : Expression String Nat := .scalarFunction "gt" [.column "b", .constant 7]
    (namedEnv ["a", "b"]).Lawful ∧ rewrite (namedEnv ["a", "b"]) builtins () expr false = .ok (some e) ∧
      extractColumns e ⊆ ["a", "b"] := by
  intro builtins expr e
  have h : rewrite (namedEnv ["a", "b"]) builtins () expr false = .ok (some e) := rfl
  exact ⟨namedEnv_lawful _, h, rewrite_columns (namedEnv_lawful _) h⟩

/-- `evalAstExpr` gives the same result on every `nil` row: an expression rewritten against no
plan reads no column of the input row, so `Eval(nil, ctx)` never reads the row it is given. -/
theorem evalAstExpr_nilRow (henv : env.Lawful) (outer : C → D) (expr : ExprNode D)
    (nilRow nilRow' : C → D) :
    evalAstExpr env builtins ctx nilRow outer expr = evalAstExpr env builtins ctx nilRow' outer expr := by
  have henv' : Env.Lawful { env with schema := [], outerSchemas := [] } :=
    ⟨henv.findColumn_mem, henv.composeCNF_columns⟩
  unfold evalAstExpr
  split
  · rfl
  · cases h : rewrite { env with schema := [], outerSchemas := [] } builtins ctx _ true with
    | error err => rfl
    | ok eo =>
      cases eo with
      | none => rfl
      | some e =>
        obtain ⟨t, ht, rfl⟩ := translate_of_rewrite _ builtins ctx h
        have hsub : extractColumns (foldConstant builtins ctx t) ⊆ [] :=
          (extractColumns_foldConstant ctx t).subset.trans (translate_columns henv' _ ht)
        simp only [Except.ok_bind]
        rw [eval_congr _ fun c hc => absurd (hsub hc) (List.not_mem_nil c)]

/-- `1 + 2` evaluated at once is `3` on every `nil` row. -/
theorem evalAstExpr_nilRow_plus :
    (namedEnv []).Lawful ∧
      evalAstExpr (namedEnv []) (fun _ (_ : Unit) rs => match rs with
          | [.ok a, .ok b] => .ok (a + b)
          | _ => .error "incorrect parameter count") () (fun _ => 0) (fun _ => 0)
        (.binaryOperationExpr (.other "plus") (.valueExpr 1) (.valueExpr 2)) =
      evalAstExpr (namedEnv []) (fun _ (_ : Unit) rs => match rs with
          | [.ok a, .ok b] => .ok (a + b)
          | _ => .error "incorrect parameter count") () (fun _ => 5) (fun _ => 0)
        (.binaryOperationExpr (.other "plus") (.valueExpr 1) (.valueExpr 2)) :=
  ⟨namedEnv_lawful _, evalAstExpr_nilRow (namedEnv_lawful _) _ _ _ _⟩

example : evalAstExpr (namedEnv []) (fun _ (_ : Unit) rs => match rs with
      | [.ok a, .ok b] => .ok (a + b)
      | _ => .error "incorrect parameter count") () (fun _ => 0) (fun _ => 0)
    (.binaryOperationExpr (.other "plus") (.valueExpr 1) (.valueExpr 2)) = .ok (.ok 3) := by
  rfl

end Rewrite

end Gleam.Plan.Rewriter
