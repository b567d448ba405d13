import Gleam.Plan.Rewriter

/-!
# What a rewritten expression is built from

Every handler of the rewriter builds its expression from its operands by `NewFunction`, from
constants, from the schema's columns and the column `FindColumn` finds, and from the correlated
columns of outer queries; a comparison of two rows also takes the rows' elements apart and
composes their comparisons with `ComposeCNFCondition`. So a property of expressions that all of
these keep holds of every translation: `Env.Closed` lists what it must keep, one field per way a
handler builds an expression, and `translate_closed` carries it through every node.

`Gleam.Plan.Rewriter.Columns` takes for it "reads only the schema's columns", and
`Gleam.Plan.Rewriter.Pushdown` "is an expression `ColumnSubstitute` accepts".

## Main definitions

* `Env.Closed`: a property kept by everything the handlers build expressions from.

## Main results

* `translate_closed`: the translation of every node has every such property.
-/

namespace Gleam.Plan.Rewriter

open Gleam.Expression

variable {C D : Type}

/-- A property `P` of expressions that the rewriter's handlers keep. -/
structure Env.Closed (env : Env C D) (P : Expression C D → Prop) : Prop where
  /-- A column of the schema, at an offset (`schemaColumn`). -/
  column : ∀ c ∈ env.schema, P (.column c)
  /-- The column `Schema.FindColumn` finds in the schema. -/
  findColumn : ∀ name c, env.findColumn env.schema name = .ok (some c) → P (.column c)
  /-- A correlated column of an outer query. -/
  correlatedColumn : ∀ c, P (.correlatedColumn c)
  /-- A constant. -/
  constant : ∀ d, P (.constant d)
  /-- A function `NewFunction` builds from arguments with the property. -/
  newFunction : ∀ {f args e}, newFunction env f args = .ok e → (∀ a ∈ args, P a) → P e
  /-- A condition `ComposeCNFCondition` composes from conditions with the property. -/
  composeCNF : ∀ es, (∀ a ∈ es, P a) → P (env.composeCNF es)
  /-- The arguments of a function with the property, which `getRowArg` takes apart. -/
  arg : ∀ {f args}, P (.scalarFunction f args) → ∀ a ∈ args, P a

variable {env : Env C D} {P : Expression C D → Prop}

/-! ## Each handler keeps the property -/

section Handlers

theorem Env.Closed.newFunction_pair (hP : env.Closed P) {f : String} {l r e : Expression C D}
    (h : Rewriter.newFunction env f [l, r] = .ok e) (hl : P l) (hr : P r) : P e :=
  hP.newFunction h (by simp [hl, hr])

theorem Env.Closed.newFunction_one (hP : env.Closed P) {f : String} {a e : Expression C D}
    (h : Rewriter.newFunction env f [a] = .ok e) (ha : P a) : P e :=
  hP.newFunction h (by simp [ha])

theorem notToExpression_closed (hP : env.Closed P) {hasNot : Bool} {op : String}
    {args : List (Expression C D)} {e : Expression C D} (hargs : ∀ a ∈ args, P a)
    (h : notToExpression env hasNot op args = .ok e) : P e := by
  obtain ⟨f, hf, h⟩ := Except.bind_eq_ok h
  cases hasNot
  · cases h; exact hP.newFunction hf hargs
  · exact hP.newFunction_one h (hP.newFunction hf hargs)

mutual

theorem constructBinaryOpFunction_closed (hP : env.Closed P) (op : String) :
    ∀ {l r e : Expression C D}, P l → P r →
      constructBinaryOpFunction env op l r = .ok e → P e
  | .scalarFunction _ largs, .scalarFunction _ rargs, e, hl, hr, h => by
    rw [constructBinaryOpFunction] at h
    split_ifs at h
    · exact hP.newFunction_pair h hl hr
    · obtain ⟨fs, hfs, rfl⟩ := Except.map_eq_ok.1 h
      exact hP.composeCNF fs (constructArgs_closed hP op (hP.arg hl) (hP.arg hr) hfs)
  | .column _, _, _, hl, hr, h | .correlatedColumn _, _, _, hl, hr, h | .constant _, _, _, hl, hr, h
  | .scalarFunction _ _, .column _, _, hl, hr, h
  | .scalarFunction _ _, .correlatedColumn _, _, hl, hr, h
  | .scalarFunction _ _, .constant _, _, hl, hr, h => by
    simp only [constructBinaryOpFunction] at h
    split_ifs at h
    exact hP.newFunction_pair h hl hr

theorem constructArgs_closed (hP : env.Closed P) (op : String) :
    ∀ {ls rs fs : List (Expression C D)}, (∀ a ∈ ls, P a) → (∀ a ∈ rs, P a) →
      constructArgs env op ls rs = .ok fs → ∀ f ∈ fs, P f
  | l :: ls, r :: rs, fs, hls, hrs, h => by
    rw [constructArgs] at h
    obtain ⟨f, hf, h⟩ := Except.bind_eq_ok h
    obtain ⟨fs', hfs, h⟩ := Except.bind_eq_ok h
    cases h
    simp only [List.mem_cons, forall_eq_or_imp] at hls hrs ⊢
    exact ⟨constructBinaryOpFunction_closed hP op hls.1 hrs.1 hf,
      constructArgs_closed hP op hls.2 hrs.2 hfs⟩
  | [], _, fs, _, _, h | _ :: _, [], fs, _, _, h => by
    simp only [constructArgs] at h
    cases h
    simp

end

theorem unaryOp_closed (hP : env.Closed P) {op : UnaryOp} {arg e : Expression C D} (harg : P arg)
    (h : unaryOp env op arg = .ok e) : P e := by
  unfold unaryOp at h
  split at h
  · cases h; exact harg
  · split_ifs at h
    exact hP.newFunction_one h harg

theorem binaryOp_closed (hP : env.Closed P) {op : BinaryOp} {l r e : Expression C D} (hl : P l)
    (hr : P r) (h : binaryOp env op l r = .ok e) : P e := by
  unfold binaryOp at h
  split at h <;> (try split_ifs at h) <;>
    first
    | exact constructBinaryOpFunction_closed hP _ hl hr h
    | exact hP.newFunction_pair h hl hr

theorem between_closed (hP : env.Closed P) {not : Bool} {expr left right e : Expression C D}
    (hexpr : P expr) (hleft : P left) (hright : P right)
    (h : between env not expr left right = .ok e) : P e := by
  obtain ⟨_, -, h⟩ := Except.bind_eq_ok h
  obtain ⟨l, hl, h⟩ := Except.bind_eq_ok h
  obtain ⟨r, hr, h⟩ := Except.bind_eq_ok h
  obtain ⟨f, hf, h⟩ := Except.bind_eq_ok h
  have hf := hP.newFunction_pair hf (hP.newFunction_pair hl hexpr hleft)
    (hP.newFunction_pair hr hexpr hright)
  cases not
  · cases h; exact hf
  · exact hP.newFunction_one h hf

theorem caseValueArgs_closed (hP : env.Closed P) {value : Expression C D} (hvalue : P value) :
    ∀ {args args' : List (Expression C D)}, (∀ a ∈ args, P a) →
      caseValueArgs env value args = .ok args' → ∀ a ∈ args', P a
  | cond :: result :: rest, args', hargs, h => by
    rw [caseValueArgs] at h
    obtain ⟨arg, harg, h⟩ := Except.bind_eq_ok h
    obtain ⟨rest', hrest, h⟩ := Except.bind_eq_ok h
    cases h
    simp only [List.mem_cons, forall_eq_or_imp] at hargs ⊢
    exact ⟨hP.newFunction_pair harg hvalue hargs.1, hargs.2.1,
      caseValueArgs_closed hP hvalue hargs.2.2 hrest⟩
  | [], _, hargs, h | [_], _, hargs, h => by
    simp only [caseValueArgs] at h
    cases h
    exact hargs

theorem caseBuild_closed (hP : env.Closed P) {value : Option (Expression C D)}
    {args : List (Expression C D)} {e : Expression C D} (hvalue : ∀ v ∈ value, P v)
    (hargs : ∀ a ∈ args, P a) (h : caseBuild env value args = .ok e) : P e := by
  cases value with
  | none => exact hP.newFunction h hargs
  | some value =>
    obtain ⟨args', hargs', h⟩ := Except.bind_eq_ok h
    exact hP.newFunction h (caseValueArgs_closed hP (hvalue value rfl) hargs hargs')

theorem likeOp_closed (hP : env.Closed P) {not : Bool} {escape : UInt8}
    {expr pattern e : Expression C D} (hexpr : P expr) (hpattern : P pattern)
    (h : likeOp env not escape expr pattern = .ok e) : P e := by
  obtain ⟨_, -, h⟩ := Except.bind_eq_ok h
  exact notToExpression_closed hP (by simp [hexpr, hpattern, hP.constant]) h

theorem regexpOp_closed (hP : env.Closed P) {not : Bool} {expr pattern e : Expression C D}
    (hexpr : P expr) (hpattern : P pattern) (h : regexpOp env not expr pattern = .ok e) : P e := by
  obtain ⟨_, -, h⟩ := Except.bind_eq_ok h
  exact notToExpression_closed hP (by simp [hexpr, hpattern]) h

theorem inOp_closed (hP : env.Closed P) {not : Bool} {expr e : Expression C D}
    {list : List (Expression C D)} (hexpr : P expr) (hlist : ∀ a ∈ list, P a)
    (h : inOp env not expr list = .ok e) : P e := by
  obtain ⟨_, -, h⟩ := Except.bind_eq_ok h
  exact notToExpression_closed hP (by simpa [hexpr] using hlist) h

theorem isNullOp_closed (hP : env.Closed P) {not : Bool} {expr e : Expression C D} (hexpr : P expr)
    (h : isNullOp env not expr = .ok e) : P e := by
  unfold isNullOp at h
  split_ifs at h
  exact notToExpression_closed hP (by simp [hexpr]) h

theorem isTruthOp_closed (hP : env.Closed P) {not : Bool} {truth : Int} {expr e : Expression C D}
    (hexpr : P expr) (h : isTruthOp env not truth expr = .ok e) : P e := by
  unfold isTruthOp at h
  split_ifs at h <;> exact notToExpression_closed hP (by simp [hexpr]) h

theorem funcCall_closed (hP : env.Closed P) {fnName : String} {args : List (Expression C D)}
    {e : Expression C D} (hargs : ∀ a ∈ args, P a) (h : funcCall env fnName args = .ok e) :
    P e := by
  obtain ⟨_, -, h⟩ := Except.bind_eq_ok h
  exact hP.newFunction h hargs

theorem userVariable_closed (hP : env.Closed P) {name : String} {value : Option (Expression C D)}
    {e : Expression C D} (hvalue : ∀ v ∈ value, P v) (h : userVariable env name value = .ok e) :
    P e := by
  cases value with
  | some v => exact hP.newFunction_pair h (hP.constant _) (hvalue v rfl)
  | none =>
    unfold userVariable at h
    split_ifs at h
    · exact hP.newFunction_one h (hP.constant _)
    · cases h; exact hP.constant _

theorem systemVariable_closed (hP : env.Closed P) {name : String} {isGlobal : Bool}
    {e : Expression C D} (h : systemVariable env name isGlobal = .ok e) : P e := by
  unfold systemVariable at h
  split at h <;> cases h
  exact hP.constant _

theorem schemaColumn_closed (hP : env.Closed P) {index : Nat} {e : Expression C D}
    (h : schemaColumn env index = .ok e) : P e := by
  unfold schemaColumn at h
  split at h
  · cases h
    exact hP.column _ (List.getElem?_mem ‹_›)
  · cases h

theorem position_closed (hP : env.Closed P) {n : Int} {e : Expression C D}
    (h : position env n = .ok e) : P e := by
  unfold position at h
  split_ifs at h
  exact schemaColumn_closed hP h

theorem toColumn_closed (hP : env.Closed P) {name : ColumnName} {e : Expression C D}
    (h : toColumn env name = .ok e) : P e := by
  unfold toColumn at h
  split at h
  · cases h
  · cases h
    exact hP.findColumn _ _ ‹_›
  · split at h <;> cases h
    exact hP.correlatedColumn _

end Handlers

/-! ## Every node keeps the property -/

mutual

/-- Every expression a node translates to has every property the handlers keep. -/
theorem translate_closed (hP : env.Closed P) :
    ∀ (n : ExprNode D) {e : Expression C D}, translate env n = .ok e → P e
  | .valueExpr _, e, h | .paramMarkerExpr _, e, h => by
    rw [translate] at h
    cases h
    exact hP.constant _
  | .aggregateFuncExpr (some _), e, h | .columnNameExpr (some _) _, e, h => by
    rw [translate] at h
    exact schemaColumn_closed hP h
  | .aggregateFuncExpr none, e, h => by
    rw [translate] at h
    cases h
  | .columnNameExpr none _, e, h => by
    rw [translate] at h
    exact toColumn_closed hP h
  | .parenthesesExpr n, e, h => by
    rw [translate] at h
    exact translate_closed hP n h
  | .userVariableExpr _ value, e, h => by
    rw [translate] at h
    obtain ⟨v, hv, h⟩ := Except.bind_eq_ok h
    exact userVariable_closed hP (translateOpt_closed hP value hv) h
  | .systemVariableExpr .., e, h => by
    rw [translate] at h
    exact systemVariable_closed hP h
  | .positionExpr _, e, h => by
    rw [translate] at h
    exact position_closed hP h
  | .funcCallExpr _ args, e, h => by
    rw [translate] at h
    obtain ⟨es, hes, h⟩ := Except.bind_eq_ok h
    exact funcCall_closed hP (translateAll_closed hP args hes) h
  | .rowExpr values, e, h => by
    rw [translate] at h
    obtain ⟨es, hes, h⟩ := Except.bind_eq_ok h
    exact hP.newFunction h (translateAll_closed hP values hes)
  | .unaryOperationExpr _ n, e, h => by
    rw [translate] at h
    obtain ⟨a, ha, h⟩ := Except.bind_eq_ok h
    exact unaryOp_closed hP (translate_closed hP n ha) h
  | .isNullExpr _ n, e, h => by
    rw [translate] at h
    obtain ⟨a, ha, h⟩ := Except.bind_eq_ok h
    exact isNullOp_closed hP (translate_closed hP n ha) h
  | .isTruthExpr _ _ n, e, h => by
    rw [translate] at h
    obtain ⟨a, ha, h⟩ := Except.bind_eq_ok h
    exact isTruthOp_closed hP (translate_closed hP n ha) h
  | .binaryOperationExpr _ l r, e, h => by
    rw [translate] at h
    obtain ⟨a, ha, h⟩ := Except.bind_eq_ok h
    obtain ⟨b, hb, h⟩ := Except.bind_eq_ok h
    exact binaryOp_closed hP (translate_closed hP l ha) (translate_closed hP r hb) h
  | .patternLikeExpr _ _ l r, e, h => by
    rw [translate] at h
    obtain ⟨a, ha, h⟩ := Except.bind_eq_ok h
    obtain ⟨b, hb, h⟩ := Except.bind_eq_ok h
    exact likeOp_closed hP (translate_closed hP l ha) (translate_closed hP r hb) h
  | .patternRegexpExpr _ l r, e, h => by
    rw [translate] at h
    obtain ⟨a, ha, h⟩ := Except.bind_eq_ok h
    obtain ⟨b, hb, h⟩ := Except.bind_eq_ok h
    exact regexpOp_closed hP (translate_closed hP l ha) (translate_closed hP r hb) h
  | .betweenExpr _ n l r, e, h => by
    rw [translate] at h
    obtain ⟨a, ha, h⟩ := Except.bind_eq_ok h
    obtain ⟨b, hb, h⟩ := Except.bind_eq_ok h
    obtain ⟨c, hc, h⟩ := Except.bind_eq_ok h
    exact between_closed hP (translate_closed hP n ha) (translate_closed hP l hb)
      (translate_closed hP r hc) h
  | .patternInExpr _ n list, e, h => by
    rw [translate] at h
    obtain ⟨a, ha, h⟩ := Except.bind_eq_ok h
    obtain ⟨es, hes, h⟩ := Except.bind_eq_ok h
    exact inOp_closed hP (translate_closed hP n ha) (translateAll_closed hP list hes) h
  | .caseExpr value whenClauses elseClause, e, h => by
    rw [translate] at h
    obtain ⟨v, hv, h⟩ := Except.bind_eq_ok h
    obtain ⟨ws, hws, h⟩ := Except.bind_eq_ok h
    obtain ⟨o, ho, h⟩ := Except.bind_eq_ok h
    obtain ⟨_, -, h⟩ := Except.bind_eq_ok h
    refine caseBuild_closed hP (translateOpt_closed hP value hv) ?_ h
    simp only [List.mem_append, Option.mem_toList]
    rintro a (ha | ha)
    exacts [translateWhens_closed hP whenClauses hws a ha,
      translateOpt_closed hP elseClause ho a ha]

/-- `translate_closed` on a list of nodes. -/
theorem translateAll_closed (hP : env.Closed P) :
    ∀ (ns : List (ExprNode D)) {es : List (Expression C D)}, translateAll env ns = .ok es →
      ∀ e ∈ es, P e
  | [], es, h => by
    rw [translateAll] at h
    cases h
    simp
  | n :: ns, es, h => by
    rw [translateAll] at h
    obtain ⟨a, ha, h⟩ := Except.bind_eq_ok h
    obtain ⟨as, has, h⟩ := Except.bind_eq_ok h
    cases h
    simp only [List.mem_cons, forall_eq_or_imp]
    exact ⟨translate_closed hP n ha, translateAll_closed hP ns has⟩

/-- `translate_closed` on a node that may be absent. -/
theorem translateOpt_closed (hP : env.Closed P) :
    ∀ (o : Option (ExprNode D)) {eo : Option (Expression C D)}, translateOpt env o = .ok eo →
      ∀ e ∈ eo, P e
  | none, eo, h => by
    rw [translateOpt] at h
    cases h
    simp
  | some n, eo, h => by
    rw [translateOpt] at h
    obtain ⟨a, ha, rfl⟩ := Except.map_eq_ok.1 h
    simpa using translate_closed hP n ha

/-- `translate_closed` on a `WHEN` clause. -/
theorem translateWhen_closed (hP : env.Closed P) :
    ∀ (w : WhenClause D) {es : List (Expression C D)}, translateWhen env w = .ok es →
      ∀ e ∈ es, P e
  | .mk c r, es, h => by
    rw [translateWhen] at h
    obtain ⟨a, ha, h⟩ := Except.bind_eq_ok h
    obtain ⟨b, hb, h⟩ := Except.bind_eq_ok h
    cases h
    simp [translate_closed hP c ha, translate_closed hP r hb]

/-- `translate_closed` on a list of `WHEN` clauses. -/
theorem translateWhens_closed (hP : env.Closed P) :
    ∀ (ws : List (WhenClause D)) {es : List (Expression C D)}, translateWhens env ws = .ok es →
      ∀ e ∈ es, P e
  | [], es, h => by
    rw [translateWhens] at h
    cases h
    simp
  | w :: ws, es, h => by
    rw [translateWhens] at h
    obtain ⟨a, ha, h⟩ := Except.bind_eq_ok h
    obtain ⟨as, has, h⟩ := Except.bind_eq_ok h
    cases h
    simp only [List.mem_append]
    rintro e (he | he)
    exacts [translateWhen_closed hP w ha e he, translateWhens_closed hP ws has e he]

end

end Gleam.Plan.Rewriter
