import Gleam.Expression.Fold
import Gleam.Plan.Sql

/-!
# The expression rewriter: `planBuilder.rewrite`

`rewrite` turns an AST expression into an `expression.Expression` by walking it with the visitor
`expressionRewriter`. A node's `Accept` calls `Enter` on it, then, unless `Enter` asks to skip
them, accepts its children in order, then calls `Leave`. The rewriter keeps a stack,
`ctxStack`: `Leave` on a node pops what its children pushed and pushes the node's own
expression, built by the handler of the node's kind (`binaryOpToExpression`,
`caseToExpression`, ...). Each handler finds its operands by indexing the stack from the top
with the node's own counts (`len(v.Args)`, `2 * len(v.WhenClauses)`, ...). `rewrite` then checks
that one expression of one column is left, and folds its constants.

The model covers every kind of node `Leave` handles except three. Subqueries are left out:
`Enter` builds their plans with the plan builder, which is not part of this repository. `CAST`
and `VALUES(col)` are left out too, because their builtins carry a field type and a column
offset that the expression model does not hold. The visitor's `Accept` belongs to the parser's
`ast` package, not to this repository: each node's `Accept` enters the node, accepts its
children in the order they are written, and leaves it. The builtin registry `funcs`,
`Schema.FindColumn`, `ComposeCNFCondition` and the session's variables are parameters (`Env`).
The parser's names of the builtins (`ast.UnaryNot`, `opcode.EQ.String()`, ...) are spelled as
that package spells them; no result depends on the spelling.

## Main definitions

* `ExprNode`, `WhenClause`: the AST expressions.
* `enter`, `leave`, `accept`: the visitor, and the handlers `leave` calls.
* `translate`: what each node means, by recursion on the AST: the expression built from its
  children's.
* `rewrite`: `planBuilder.rewrite` on an expression without subqueries.
* `evalAstExpr`: an expression rewritten against no plan and evaluated at once.

The walk is proved to compute `translate` in `Gleam.Plan.Rewriter.Walk`, and the columns a
rewritten expression reads are bounded in `Gleam.Plan.Rewriter.Columns`.
-/

namespace Gleam.Plan.Rewriter

open Gleam.Expression

/-! ## The AST -/

/-- `ast.ColumnName`: a column as written, with its schema and table qualifiers. -/
structure ColumnName where
  /-- The schema qualifier, empty when there is none. -/
  schema : String
  /-- The table qualifier, empty when there is none. -/
  table : String
  /-- The column's name. -/
  name : String
  deriving DecidableEq, Repr

/-- The parser's unary operators: `+`, `-`, `~` and `NOT`. -/
inductive UnaryOp
  | plus
  | minus
  | bitNeg
  | not
  deriving DecidableEq, Repr

/-- A binary operator: a comparison, or another operator, named by `opcode.Op.String()`. -/
inductive BinaryOp
  | cmp (op : CmpOp)
  | other (name : String)
  deriving DecidableEq, Repr

mutual

/-- The AST expressions the rewriter handles. An aggregate and a column name carry the offset
the planner's `aggrMap` and `colMapper` give them in the schema, if any. -/
inductive ExprNode (D : Type) where
  | valueExpr (datum : D)
  | paramMarkerExpr (datum : D)
  | aggregateFuncExpr (offset : Option Nat)
  | columnNameExpr (offset : Option Nat) (name : ColumnName)
  | parenthesesExpr (expr : ExprNode D)
  | userVariableExpr (name : String) (value : Option (ExprNode D))
  | systemVariableExpr (name : String) (isGlobal : Bool)
  | funcCallExpr (fnName : String) (args : List (ExprNode D))
  | unaryOperationExpr (op : UnaryOp) (v : ExprNode D)
  | binaryOperationExpr (op : BinaryOp) (l r : ExprNode D)
  | betweenExpr (not : Bool) (expr left right : ExprNode D)
  | caseExpr (value : Option (ExprNode D)) (whenClauses : List (WhenClause D))
      (elseClause : Option (ExprNode D))
  | patternLikeExpr (not : Bool) (escape : UInt8) (expr pattern : ExprNode D)
  | patternRegexpExpr (not : Bool) (expr pattern : ExprNode D)
  | rowExpr (values : List (ExprNode D))
  | patternInExpr (not : Bool) (expr : ExprNode D) (list : List (ExprNode D))
  | positionExpr (n : Int)
  | isNullExpr (not : Bool) (expr : ExprNode D)
  | isTruthExpr (not : Bool) (truth : Int) (expr : ExprNode D)

/-- `ast.WhenClause`: a `WHEN` condition and its result. -/
inductive WhenClause (D : Type) where
  | mk (expr result : ExprNode D)

end

/-! ## What the rewriter reads -/

/-- What a rewrite reads besides the AST. -/
structure Env (C D : Type) where
  /-- `er.schema`, the schema of the plan the expression is rewritten against. -/
  schema : List C
  /-- `er.b.outerSchemas`, the schemas of the enclosing queries, innermost last. -/
  outerSchemas : List (List C)
  /-- `Schema.FindColumn`: the column a name refers to, none, or an error when it is ambiguous. -/
  findColumn : List C → ColumnName → Except String (Option C)
  /-- The names of the session's user variables, `sessionVars.Users`. -/
  userVars : List String
  /-- `varsutil.GetGlobalSystemVar` and `GetSessionSystemVar`. -/
  systemVar : Bool → String → Except String String
  /-- The builtin registry `funcs`. -/
  funcs : String → Option FunctionClass
  /-- `expression.ComposeCNFCondition`. -/
  composeCNF : List (Expression C D) → Expression C D
  /-- `types.NewIntDatum`. -/
  intDatum : Int → D
  /-- `types.NewStringDatum`. -/
  stringDatum : String → D
  /-- The NULL datum. -/
  nullDatum : D

/-- The errors of a rewrite. `indexOutOfRange` and `nilExpression` are runtime panics: a stack
or schema index outside its slice, and a method called on a nil expression. -/
inductive RewriteError
  | operandColumns (columns : Nat)
  | aggrFunctions
  | newFunction (err : NewFunctionError)
  | positionOutOfRange (n : Int)
  | ambiguous (name : String)
  | unknownColumn (schema table name : String)
  | trace (msg : String)
  | indexOutOfRange
  | contextLen (n : Nat)
  | nilExpression
  deriving DecidableEq, Repr

/-- `expressionRewriter`'s state: the stack of built expressions, and whether the expression
must be a scalar. -/
structure ExpressionRewriter (C D : Type) where
  /-- `ctxStack`. -/
  ctxStack : List (Expression C D)
  /-- `asScalar`. -/
  asScalar : Bool

/-! ## The builtins the rewriter calls -/

/-- `ast.RowFunc`, `ast.UnaryNot`, ...: the parser's names of the builtins the rewriter builds. -/
def rowFunc : String := "row"

@[inherit_doc rowFunc] def unaryNot : String := "not"
@[inherit_doc rowFunc] def unaryMinus : String := "unaryminus"
@[inherit_doc rowFunc] def bitNeg : String := "bitneg"
@[inherit_doc rowFunc] def isNull : String := "isnull"
@[inherit_doc rowFunc] def isTruth : String := "istrue"
@[inherit_doc rowFunc] def isFalsity : String := "isfalse"
@[inherit_doc rowFunc] def inFunc : String := "in"
@[inherit_doc rowFunc] def like : String := "like"
@[inherit_doc rowFunc] def regexp : String := "regexp"
@[inherit_doc rowFunc] def caseFunc : String := "case"
@[inherit_doc rowFunc] def andAnd : String := "and"

/-- `opcode.Op.String()` of a comparison, the name of its builtin. -/
def cmpName : CmpOp → String
  | .lt => "lt"
  | .le => "le"
  | .gt => "gt"
  | .ge => "ge"
  | .eq => "eq"
  | .ne => "ne"
  | .nullEq => "nulleq"

/-- The builtin of a binary operator. -/
def BinaryOp.name : BinaryOp → String
  | .cmp op => cmpName op
  | .other name => name

variable {C D : Type}

/-- `getRowLen`: the number of elements of a `RowFunc` call, `1` for any other expression. -/
def getRowLen : Expression C D → Nat
  | .scalarFunction funcName args => if funcName = rowFunc then args.length else 1
  | .column _ | .correlatedColumn _ | .constant _ => 1

/-- `checkArgsOneColumn`: every argument is of one column. -/
def checkArgsOneColumn : List (Expression C D) → Except RewriteError Unit
  | [] => .ok ()
  | arg :: args => if getRowLen arg ≠ 1 then .error (.operandColumns 1) else checkArgsOneColumn args

section Env

variable (env : Env C D)

/-- `expression.NewFunction` on the registry `funcs`, its error traced into the rewrite's. -/
def newFunction (funcName : String) (args : List (Expression C D)) :
    Except RewriteError (Expression C D) :=
  (Gleam.Expression.newFunction env.funcs funcName args).mapError .newFunction

mutual

/-- `constructBinaryOpFunction(l, r, op)`: compare two expressions of one column directly;
otherwise fail unless both are rows of one length, and compose the comparisons of their
elements (`getRowArg`) with `ComposeCNFCondition`. -/
def constructBinaryOpFunction (op : String) :
    Expression C D → Expression C D → Except RewriteError (Expression C D)
  | l@(.scalarFunction _ largs), r@(.scalarFunction _ rargs) =>
    if getRowLen l = 1 ∧ getRowLen r = 1 then newFunction env op [l, r]
    else if getRowLen r ≠ getRowLen l then .error (.operandColumns (getRowLen l))
    else env.composeCNF <$> constructArgs op largs rargs
  | l, r =>
    if getRowLen l = 1 ∧ getRowLen r = 1 then newFunction env op [l, r]
    else .error (.operandColumns (getRowLen l))

/-- The loop of `constructBinaryOpFunction` over the elements of two rows. -/
def constructArgs (op : String) :
    List (Expression C D) → List (Expression C D) → Except RewriteError (List (Expression C D))
  | l :: ls, r :: rs => do
    let f ← constructBinaryOpFunction op l r
    let fs ← constructArgs op ls rs
    pure (f :: fs)
  | _, _ => .ok []

end

/-- `notToExpression(hasNot, op, args...)`: the builtin `op` on the arguments, under `NOT` when
`hasNot`. -/
def notToExpression (hasNot : Bool) (op : String) (args : List (Expression C D)) :
    Except RewriteError (Expression C D) := do
  let opFunc ← newFunction env op args
  if hasNot then newFunction env unaryNot [opFunc] else pure opFunc

/-! ## What each node builds from its operands -/

/-- `er.schema.Columns[index]`: the column at an offset of the schema. -/
def schemaColumn (index : Nat) : Except RewriteError (Expression C D) :=
  match env.schema[index]? with
  | some c => .ok (.column c)
  | none => .error .indexOutOfRange

/-- The loop of `toColumn` over the outer schemas, innermost first: a column of an outer query
is a correlated column. -/
def findOuterColumn (name : ColumnName) : List (List C) → Except RewriteError (Option C)
  | [] => .ok none
  | outerSchema :: outerSchemas =>
    match env.findColumn outerSchema name with
    | .ok (some c) => .ok (some c)
    | .error err => .error (.trace err)
    | .ok none => findOuterColumn name outerSchemas

/-- `toColumn(v)`: the column of the schema a name refers to, else the correlated column of the
innermost outer query that has it, else an unknown column. -/
def toColumn (name : ColumnName) : Except RewriteError (Expression C D) :=
  match env.findColumn env.schema name with
  | .error _ => .error (.ambiguous name.name)
  | .ok (some c) => .ok (.column c)
  | .ok none =>
    match findOuterColumn env name env.outerSchemas.reverse with
    | .ok (some c) => .ok (.correlatedColumn c)
    | .ok none => .error (.unknownColumn name.schema name.table name.name)
    | .error err => .error err

/-- `rewriteVariable` on a user variable `@name`, read, or assigned the value on the stack. -/
def userVariable (name : String) : Option (Expression C D) → Except RewriteError (Expression C D)
  | some value => newFunction env setVar [.constant (env.stringDatum name.toLower), value]
  | none =>
    if name.toLower ∈ env.userVars then
      newFunction env getVar [.constant (env.stringDatum name.toLower)]
    else .ok (.constant env.nullDatum)

/-- `rewriteVariable` on a system variable `@@name`, global or of the session. -/
def systemVariable (name : String) (isGlobal : Bool) : Except RewriteError (Expression C D) :=
  match env.systemVar isGlobal name.toLower with
  | .ok val => .ok (.constant (env.stringDatum val))
  | .error err => .error (.trace err)

/-- `funcCallToExpression`: the builtin on arguments of one column. -/
def funcCall (fnName : String) (args : List (Expression C D)) :
    Except RewriteError (Expression C D) := do
  checkArgsOneColumn args
  newFunction env fnName args

/-- The builtin of a unary operator other than `+`. -/
def unaryFuncName : UnaryOp → Option String
  | .plus => none
  | .minus => some unaryMinus
  | .bitNeg => some bitNeg
  | .not => some unaryNot

/-- `unaryOpToExpression`: `+a` is `a`; another operator applies its builtin to an operand of
one column. -/
def unaryOp (op : UnaryOp) (arg : Expression C D) : Except RewriteError (Expression C D) :=
  match unaryFuncName op with
  | none => .ok arg
  | some funcName =>
    if getRowLen arg ≠ 1 then .error (.operandColumns 1) else newFunction env funcName [arg]

/-- `binaryOpToExpression`: `=`, `!=` and `<=>` compare rows element by element; `<`, `<=`, `>`
and `>=` need operands of one length; any other operator needs operands of one column. -/
def binaryOp (op : BinaryOp) (l r : Expression C D) : Except RewriteError (Expression C D) :=
  match op with
  | .cmp .eq | .cmp .ne | .cmp .nullEq => constructBinaryOpFunction env op.name l r
  | .cmp .lt | .cmp .le | .cmp .gt | .cmp .ge =>
    if getRowLen l ≠ getRowLen r then .error (.operandColumns (getRowLen l))
    else newFunction env op.name [l, r]
  | .other name =>
    if getRowLen l ≠ 1 ∨ getRowLen r ≠ 1 then .error (.operandColumns 1)
    else newFunction env name [l, r]

/-- `betweenToExpression`: `expr >= left AND expr <= right`, under `NOT` when `not`. -/
def between (not : Bool) (expr left right : Expression C D) :
    Except RewriteError (Expression C D) := do
  checkArgsOneColumn [expr, left, right]
  let l ← newFunction env (cmpName .ge) [expr, left]
  let r ← newFunction env (cmpName .le) [expr, right]
  let function ← newFunction env andAnd [l, r]
  if not then newFunction env unaryNot [function] else pure function

/-- The arguments of `CASE value WHEN ...`: each condition `c` becomes `value = c`; the results
and the `ELSE` are kept. -/
def caseValueArgs (value : Expression C D) :
    List (Expression C D) → Except RewriteError (List (Expression C D))
  | cond :: result :: rest => do
    let arg ← newFunction env (cmpName .eq) [value, cond]
    let rest ← caseValueArgs value rest
    pure (arg :: result :: rest)
  | args => .ok args

/-- `caseToExpression`, once its `WHEN`/`THEN`/`ELSE` operands are checked: the builtin `case`
on them, each condition compared with the value if there is one. -/
def caseBuild (value : Option (Expression C D)) (args : List (Expression C D)) :
    Except RewriteError (Expression C D) :=
  match value with
  | some value => do
    let args ← caseValueArgs env value args
    newFunction env caseFunc args
  | none => newFunction env caseFunc args

/-- `likeToScalarFunc`: `like(expr, pattern, escape)`, under `NOT` when `not`. -/
def likeOp (not : Bool) (escape : UInt8) (expr pattern : Expression C D) :
    Except RewriteError (Expression C D) := do
  checkArgsOneColumn [expr, pattern]
  notToExpression env not like [expr, pattern, .constant (env.intDatum escape.toNat)]

/-- `regexpToScalarFunc`: `regexp(expr, pattern)`, under `NOT` when `not`. -/
def regexpOp (not : Bool) (expr pattern : Expression C D) :
    Except RewriteError (Expression C D) := do
  checkArgsOneColumn [expr, pattern]
  notToExpression env not regexp [expr, pattern]

/-- The check of `inToExpression`: every element of the list has the row length of `expr`. -/
def checkInLens (expr : Expression C D) : List (Expression C D) → Except RewriteError Unit
  | [] => .ok ()
  | e :: es =>
    if getRowLen expr ≠ getRowLen e then .error (.operandColumns (getRowLen expr))
    else checkInLens expr es

/-- `inToExpression`: `in(expr, list...)`, under `NOT` when `not`. -/
def inOp (not : Bool) (expr : Expression C D) (list : List (Expression C D)) :
    Except RewriteError (Expression C D) := do
  checkInLens expr list
  notToExpression env not inFunc (expr :: list)

/-- `positionToScalarFunc`: `ORDER BY n` is the schema's `n`-th column. -/
def position (n : Int) : Except RewriteError (Expression C D) :=
  if 0 < n ∧ n ≤ env.schema.length then schemaColumn env (n - 1).toNat
  else .error (.positionOutOfRange n)

/-- `isNullToExpression`: `isnull(expr)`, under `NOT` when `not`. -/
def isNullOp (not : Bool) (expr : Expression C D) : Except RewriteError (Expression C D) :=
  if getRowLen expr ≠ 1 then .error (.operandColumns 1) else notToExpression env not isNull [expr]

/-- `isTrueToScalarFunc`: `istrue(expr)`, or `isfalse(expr)` when `truth = 0`, under `NOT` when
`not`. -/
def isTruthOp (not : Bool) (truth : Int) (expr : Expression C D) :
    Except RewriteError (Expression C D) :=
  if getRowLen expr ≠ 1 then .error (.operandColumns 1)
  else notToExpression env not (if truth = 0 then isFalsity else isTruth) [expr]

/-! ## The stack machine -/

/-- The top `n` entries of the stack and the rest, `ctxStack[len-n:]` and `ctxStack[:len-n]`; a
bound below zero panics. -/
def splitTop (n : Nat) (stk : List (Expression C D)) :
    Except RewriteError (List (Expression C D) × List (Expression C D)) :=
  if n ≤ stk.length then .ok (stk.take (stk.length - n), stk.drop (stk.length - n))
  else .error .indexOutOfRange

/-- A handler that replaces the top `n` entries of the stack by the expression `f` builds from
them. -/
def replaceTop (n : Nat) (f : List (Expression C D) → Except RewriteError (Expression C D))
    (stk : List (Expression C D)) : Except RewriteError (List (Expression C D)) := do
  let (base, top) ← splitTop n stk
  let function ← f top
  pure (base ++ [function])

/-- An operand list of the wrong length, which a handler never finds on the stack. -/
def arityError : Except RewriteError (Expression C D) := .error .indexOutOfRange

/-- `caseToExpression` on the stack: the `WHEN`/`THEN`/`ELSE` operands are on top, and the
value, if any, under them. -/
def caseToExpression (hasValue : Bool) (whenClauses : Nat) (hasElse : Bool)
    (stk : List (Expression C D)) : Except RewriteError (List (Expression C D)) := do
  let argsLen := 2 * whenClauses + if hasElse then 1 else 0
  let (base, args) ← splitTop argsLen stk
  checkArgsOneColumn args
  if hasValue then
    let (base, value) ← splitTop 1 base
    match value with
    | [value] => do
      let function ← caseBuild env (some value) args
      pure (base ++ [function])
    | _ => .error .indexOutOfRange
  else do
    let function ← caseBuild env none args
    pure (base ++ [function])

/-- `Enter`: an aggregate and a mapped column name push their schema column and skip their
children; a pattern `IN`, a parenthesis and an unmapped column name change nothing; every other
node makes the expression a scalar. -/
def enter : ExprNode D → ExpressionRewriter C D → Except RewriteError (ExpressionRewriter C D × Bool)
  | .aggregateFuncExpr offset, st =>
    match offset with
    | some index => do
      let column ← schemaColumn env index
      pure ({ st with ctxStack := st.ctxStack ++ [column] }, true)
    | none => .error .aggrFunctions
  | .columnNameExpr (some index) _, st => do
    let column ← schemaColumn env index
    pure ({ st with ctxStack := st.ctxStack ++ [column] }, true)
  | .columnNameExpr none _, st | .patternInExpr .., st | .parenthesesExpr _, st => .ok (st, false)
  | .valueExpr _, st | .paramMarkerExpr _, st | .userVariableExpr .., st
  | .systemVariableExpr .., st | .funcCallExpr .., st | .unaryOperationExpr .., st
  | .binaryOperationExpr .., st | .betweenExpr .., st | .caseExpr .., st
  | .patternLikeExpr .., st | .patternRegexpExpr .., st | .rowExpr _, st | .positionExpr _, st
  | .isNullExpr .., st | .isTruthExpr .., st => .ok ({ st with asScalar := true }, false)

/-- `Leave`'s handlers on the stack. -/
def leaveStack : ExprNode D → List (Expression C D) → Except RewriteError (List (Expression C D))
  | .aggregateFuncExpr _, stk | .columnNameExpr .., stk | .parenthesesExpr _, stk => .ok stk
  | .valueExpr datum, stk | .paramMarkerExpr datum, stk => .ok (stk ++ [.constant datum])
  | .userVariableExpr name (some _), stk =>
    replaceTop 1 (fun | [value] => userVariable env name (some value) | _ => arityError) stk
  | .userVariableExpr name none, stk => replaceTop 0 (fun _ => userVariable env name none) stk
  | .systemVariableExpr name isGlobal, stk =>
    replaceTop 0 (fun _ => systemVariable env name isGlobal) stk
  | .funcCallExpr fnName args, stk => replaceTop args.length (funcCall env fnName) stk
  | .unaryOperationExpr op _, stk =>
    match unaryFuncName op with
    | none => .ok stk
    | some _ => replaceTop 1 (fun | [arg] => unaryOp env op arg | _ => arityError) stk
  | .binaryOperationExpr op _ _, stk =>
    replaceTop 2 (fun | [l, r] => binaryOp env op l r | _ => arityError) stk
  | .betweenExpr not .., stk =>
    replaceTop 3 (fun | [e, l, r] => between env not e l r | _ => arityError) stk
  | .caseExpr value whenClauses elseClause, stk =>
    caseToExpression env value.isSome whenClauses.length elseClause.isSome stk
  | .patternLikeExpr not escape _ _, stk =>
    replaceTop 2 (fun | [e, p] => likeOp env not escape e p | _ => arityError) stk
  | .patternRegexpExpr not _ _, stk =>
    replaceTop 2 (fun | [e, p] => regexpOp env not e p | _ => arityError) stk
  | .rowExpr values, stk => replaceTop values.length (newFunction env rowFunc) stk
  | .patternInExpr not _ list, stk =>
    replaceTop (list.length + 1) (fun | e :: l => inOp env not e l | [] => arityError) stk
  | .positionExpr n, stk => replaceTop 0 (fun _ => position env n) stk
  | .isNullExpr not _, stk => replaceTop 1 (fun | [e] => isNullOp env not e | _ => arityError) stk
  | .isTruthExpr not truth _, stk =>
    replaceTop 1 (fun | [e] => isTruthOp env not truth e | _ => arityError) stk

/-- `Leave`: the node's handler. -/
def leave (n : ExprNode D) (st : ExpressionRewriter C D) : Except RewriteError (ExpressionRewriter C D) := do
  let stk ← leaveStack env n st.ctxStack
  pure { st with ctxStack := stk }

/-- `Accept` on a node: enter it, accept its children unless `Enter` skips them, leave it. -/
def visit (n : ExprNode D) (children : ExpressionRewriter C D → Except RewriteError (ExpressionRewriter C D))
    (st : ExpressionRewriter C D) : Except RewriteError (ExpressionRewriter C D) := do
  let (st, skipChildren) ← enter env n st
  if skipChildren then leave env n st else children st >>= leave env n

/-- `Accept` on the `ast.ColumnName` under an unmapped column name: `Enter` makes the expression
a scalar, and `Leave` pushes `toColumn`. -/
def acceptColumnName (name : ColumnName) (st : ExpressionRewriter C D) :
    Except RewriteError (ExpressionRewriter C D) := do
  let column ← toColumn env name
  pure { ctxStack := st.ctxStack ++ [column], asScalar := true }

mutual

/-- `expr.Accept(er)`: the walk of a node, its children in the order they are written. -/
def accept : ExprNode D → ExpressionRewriter C D → Except RewriteError (ExpressionRewriter C D)
  | n@(.valueExpr _), st | n@(.paramMarkerExpr _), st | n@(.aggregateFuncExpr _), st
  | n@(.systemVariableExpr ..), st | n@(.positionExpr _), st => visit env n pure st
  | n@(.columnNameExpr _ name), st => visit env n (acceptColumnName env name) st
  | n@(.parenthesesExpr e), st | n@(.unaryOperationExpr _ e), st | n@(.isNullExpr _ e), st
  | n@(.isTruthExpr _ _ e), st => visit env n (accept e) st
  | n@(.userVariableExpr _ value), st => visit env n (acceptOpt value) st
  | n@(.funcCallExpr _ args), st | n@(.rowExpr args), st => visit env n (acceptAll args) st
  | n@(.binaryOperationExpr _ l r), st | n@(.patternLikeExpr _ _ l r), st
  | n@(.patternRegexpExpr _ l r), st => visit env n (fun st => accept l st >>= accept r) st
  | n@(.betweenExpr _ e l r), st =>
    visit env n (fun st => accept e st >>= accept l >>= accept r) st
  | n@(.caseExpr value whenClauses elseClause), st =>
    visit env n (fun st => acceptOpt value st >>= acceptWhens whenClauses >>= acceptOpt elseClause)
      st
  | n@(.patternInExpr _ e list), st => visit env n (fun st => accept e st >>= acceptAll list) st

/-- The walk of a list of children, in order. -/
def acceptAll : List (ExprNode D) → ExpressionRewriter C D → Except RewriteError (ExpressionRewriter C D)
  | [], st => .ok st
  | n :: ns, st => accept n st >>= acceptAll ns

/-- The walk of a child that may be absent. -/
def acceptOpt : Option (ExprNode D) → ExpressionRewriter C D → Except RewriteError (ExpressionRewriter C D)
  | none, st => .ok st
  | some n, st => accept n st

/-- `Accept` on a `WHEN` clause: `Enter` makes the expression a scalar, the condition and the
result are walked, and `Leave` leaves both on the stack. -/
def acceptWhen : WhenClause D → ExpressionRewriter C D → Except RewriteError (ExpressionRewriter C D)
  | .mk expr result, st => accept expr { st with asScalar := true } >>= accept result

/-- The walk of a `CASE`'s `WHEN` clauses, in order. -/
def acceptWhens : List (WhenClause D) → ExpressionRewriter C D → Except RewriteError (ExpressionRewriter C D)
  | [], st => .ok st
  | w :: ws, st => acceptWhen w st >>= acceptWhens ws

end

/-! ## What each node means -/

mutual

/-- The expression a node rewrites to, from its children's. -/
def translate : ExprNode D → Except RewriteError (Expression C D)
  | .valueExpr datum | .paramMarkerExpr datum => .ok (.constant datum)
  | .aggregateFuncExpr (some index) | .columnNameExpr (some index) _ => schemaColumn env index
  | .aggregateFuncExpr none => .error .aggrFunctions
  | .columnNameExpr none name => toColumn env name
  | .parenthesesExpr e => translate e
  | .userVariableExpr name value => do userVariable env name (← translateOpt value)
  | .systemVariableExpr name isGlobal => systemVariable env name isGlobal
  | .funcCallExpr fnName args => do funcCall env fnName (← translateAll args)
  | .unaryOperationExpr op e => do unaryOp env op (← translate e)
  | .binaryOperationExpr op l r => do binaryOp env op (← translate l) (← translate r)
  | .betweenExpr not e l r => do between env not (← translate e) (← translate l) (← translate r)
  | .caseExpr value whenClauses elseClause => do
    let value ← translateOpt value
    let args := (← translateWhens whenClauses) ++ (← translateOpt elseClause).toList
    checkArgsOneColumn args
    caseBuild env value args
  | .patternLikeExpr not escape e p => do likeOp env not escape (← translate e) (← translate p)
  | .patternRegexpExpr not e p => do regexpOp env not (← translate e) (← translate p)
  | .rowExpr values => do newFunction env rowFunc (← translateAll values)
  | .patternInExpr not e list => do inOp env not (← translate e) (← translateAll list)
  | .positionExpr n => position env n
  | .isNullExpr not e => do isNullOp env not (← translate e)
  | .isTruthExpr not truth e => do isTruthOp env not truth (← translate e)

/-- The translations of a list of nodes. -/
def translateAll : List (ExprNode D) → Except RewriteError (List (Expression C D))
  | [] => .ok []
  | n :: ns => do
    let e ← translate n
    let es ← translateAll ns
    pure (e :: es)

/-- The translation of a node that may be absent. -/
def translateOpt : Option (ExprNode D) → Except RewriteError (Option (Expression C D))
  | none => .ok none
  | some n => some <$> translate n

/-- A `WHEN` clause's condition and result. -/
def translateWhen : WhenClause D → Except RewriteError (List (Expression C D))
  | .mk expr result => do
    let c ← translate expr
    let r ← translate result
    pure [c, r]

/-- The conditions and results of a `CASE`'s `WHEN` clauses, in order. -/
def translateWhens : List (WhenClause D) → Except RewriteError (List (Expression C D))
  | [] => .ok []
  | w :: ws => do
    let cr ← translateWhen w
    let rest ← translateWhens ws
    pure (cr ++ rest)

end

/-- `planBuilder.rewrite` on an expression without subqueries, with `FoldConstant` evaluating
builtins with `builtins` in the session state `ctx`: walk the expression from an empty stack;
one expression, of one column, must be left, which is folded. The plan is left unchanged. -/
def rewrite {Ctx : Type} (builtins : String → Ctx → List (Except String D) → Except String D)
    (ctx : Ctx) (expr : ExprNode D) (asScalar : Bool) :
    Except RewriteError (Option (Expression C D)) := do
  let er ← accept env expr { ctxStack := [], asScalar := asScalar }
  if !er.asScalar && er.ctxStack.length = 0 then return none
  if er.ctxStack.length ≠ 1 then throw (.contextLen er.ctxStack.length)
  match er.ctxStack with
  | [e] =>
    if getRowLen e ≠ 1 then throw (.operandColumns 1)
    else return some (foldConstant builtins ctx e)
  | _ => throw (.contextLen er.ctxStack.length)

/-- `evalAstExpr`: a value is its datum; any other expression is rewritten as a scalar against
no plan, so with an empty schema and no enclosing query, and evaluated on the `nil` row,
`nilRow`. -/
def evalAstExpr {Ctx : Type} (builtins : String → Ctx → List (Except String D) → Except String D)
    (ctx : Ctx) (nilRow outer : C → D) : ExprNode D → Except RewriteError (Except String D)
  | .valueExpr datum => .ok (.ok datum)
  | expr => do
    match ← rewrite { env with schema := [], outerSchemas := [] } builtins ctx expr true with
    | some e => pure (eval builtins ctx nilRow outer e)
    | none => throw .nilExpression

end Env

end Gleam.Plan.Rewriter
