import Gleam.Plan.Rewriter

/-!
# The rewriter's walk computes the translation

`rewrite` builds its expression with a stack machine: `Accept` walks the AST, each `Leave`
pops its node's operands by counting from the top of `ctxStack` and pushes what its handler
builds. `translate` says what each node means by recursion on the AST. This module proves the
two agree: from every state, the walk of a node leaves the stack it found with the node's
translation pushed on top, or fails with the translation's error. The statement is over every
starting stack, so that the walks of a node's children compose: each handler finds, at the top,
exactly the operands its children pushed.

## Main definitions

* `Pushes run t`: from every state, `run` pushes the expressions `t` computes, or fails with
  `t`'s error.

## Main results

* `accept_pushes`: the walk of every node pushes its translation.
* `rewrite_eq`: `rewrite` is the translation, checked to be of one column, then folded; in
  particular it never returns no expression, and its `contextLen` check never fails.
-/

namespace Gleam.Plan.Rewriter

open Gleam.Expression

variable {C D : Type}

/-- From every state, the walk `run` pushes the expressions `t` computes onto the stack it
finds, or fails with `t`'s error. -/
def Pushes (run : ExpressionRewriter C D → Except RewriteError (ExpressionRewriter C D))
    (t : Except RewriteError (List (Expression C D))) : Prop :=
  ∀ st, ExpressionRewriter.ctxStack <$> run st = (st.ctxStack ++ ·) <$> t

/-! ## Composing walks -/

section Pushes

variable {f g : ExpressionRewriter C D → Except RewriteError (ExpressionRewriter C D)}
  {t t₁ t₂ : Except RewriteError (List (Expression C D))}

/-- A walk whose expressions are computed leaves them on top of the stack it found. -/
theorem Pushes.ok (h : Pushes f t) {a : List (Expression C D)} (ht : t = .ok a)
    (st : ExpressionRewriter C D) : ∃ st', f st = .ok st' ∧ st'.ctxStack = st.ctxStack ++ a := by
  have := h st
  rwa [ht, Except.map_ok, Except.map_eq_ok] at this

/-- A walk whose expressions fail fails with the same error. -/
theorem Pushes.error (h : Pushes f t) {e : RewriteError} (ht : t = .error e)
    (st : ExpressionRewriter C D) : f st = .error e := by
  have := h st
  rwa [ht, Except.map_error, Except.map_eq_error] at this

/-- Two walks run one after the other push the first one's expressions, then the second's. -/
theorem Pushes.bind (h₁ : Pushes f t₁) (h₂ : Pushes g t₂) :
    Pushes (fun st => f st >>= g) (t₁ >>= fun a => (a ++ ·) <$> t₂) := by
  intro st
  cases ht₁ : t₁ with
  | error e => simp [h₁.error ht₁ st, Except.error_bind]
  | ok a =>
    obtain ⟨st', hf, hs⟩ := h₁.ok ht₁ st
    simp only [hf, Except.ok_bind, h₂ st', hs]
    cases t₂ <;> simp

/-- The empty walk pushes nothing. -/
theorem Pushes.pure : Pushes (pure : ExpressionRewriter C D → Except RewriteError _) (.ok []) :=
  fun st => by simp [Pure.pure, Except.pure]

/-- `Pushes` for a walk and expressions equal to ones it is known for. -/
theorem Pushes.of_eq (h : Pushes g t₂) (hf : ∀ st, f st = g st) (ht : t₁ = t₂) : Pushes f t₁ := by
  intro st
  rw [hf, ht]
  exact h st

/-- Expressions pushed one after the other have the sum of their numbers. -/
theorem length_of_bind_append {k₁ k₂ : Nat} {args : List (Expression C D)}
    (h : (t₁ >>= fun a => (a ++ ·) <$> t₂) = .ok args)
    (h₁ : ∀ a, t₁ = .ok a → a.length = k₁) (h₂ : ∀ a, t₂ = .ok a → a.length = k₂) :
    args.length = k₁ + k₂ := by
  obtain ⟨a, ha, h⟩ := Except.bind_eq_ok h
  obtain ⟨b, hb, rfl⟩ := Except.map_eq_ok.1 h
  rw [List.length_append, h₁ _ ha, h₂ _ hb]

/-- One expression, when it is computed. -/
theorem length_of_map_singleton {x : Except RewriteError (Expression C D)}
    {args : List (Expression C D)} (h : (fun e => [e]) <$> x = .ok args) : args.length = 1 := by
  obtain ⟨e, -, rfl⟩ := Except.map_eq_ok.1 h
  rfl

end Pushes

/-! ## The handlers pop their own operands -/

/-- `ctxStack[len-n:]` of a stack whose top `n` entries are `args` is `args`. -/
theorem splitTop_append (base args : List (Expression C D)) :
    splitTop args.length (base ++ args) = .ok (base, args) := by
  simp [splitTop]

/-- A handler that pops `k` operands, run on a stack whose top `k` entries are `args`, replaces
them with what it builds from `args` and leaves the rest of the stack as it was. -/
theorem replaceTop_append {k : Nat} {args : List (Expression C D)} (h : args.length = k)
    (f : List (Expression C D) → Except RewriteError (Expression C D))
    (base : List (Expression C D)) :
    replaceTop k f (base ++ args) = (base ++ [·]) <$> f args := by
  subst h
  simp only [replaceTop, splitTop_append, Except.ok_bind]
  cases f args <;> rfl

/-- A handler that pops nothing pushes what it builds. -/
theorem replaceTop_zero (f : List (Expression C D) → Except RewriteError (Expression C D))
    (stk : List (Expression C D)) : replaceTop 0 f stk = (stk ++ [·]) <$> f [] := by
  simpa using replaceTop_append (rfl : ([] : List (Expression C D)).length = 0) f stk

section Walk

variable (env : Env C D)

/-- `caseToExpression` on a stack whose top entries are the value, if any, then the `WHEN`,
`THEN` and `ELSE` operands, replaces them with the `CASE` it builds from them. -/
theorem caseToExpression_append (hv : Bool) {w : Nat} {he : Bool}
    (base vs args : List (Expression C D)) (hvs : vs.length = if hv then 1 else 0)
    (hargs : args.length = 2 * w + if he then 1 else 0) :
    caseToExpression env hv w he (base ++ vs ++ args) =
      (base ++ [·]) <$> (checkArgsOneColumn args >>= fun _ => caseBuild env vs.head? args) := by
  simp only [caseToExpression, ← hargs, splitTop_append, Except.ok_bind]
  cases checkArgsOneColumn args with
  | error e => rfl
  | ok u =>
    cases hv with
    | false =>
      obtain rfl : vs = [] := List.length_eq_zero.1 (by simpa using hvs)
      simp only [Except.ok_bind, Bool.false_eq_true, if_false, List.append_nil, List.head?_nil]
      cases caseBuild env none args <;> rfl
    | true =>
      obtain ⟨v, rfl⟩ := List.length_eq_one.1 (by simpa using hvs)
      have := splitTop_append base [v]
      simp only [Except.ok_bind, if_true, List.length_singleton] at this ⊢
      rw [this]
      cases caseBuild env (some v) args <;> rfl

/-! ## The translation of a list of children -/

theorem translateAll_singleton (n : ExprNode D) :
    translateAll env [n] = (fun e => [e]) <$> translate env n := by
  rw [translateAll, translateAll]
  cases translate env n <;> rfl

/-- `translateAll` is the translations of the nodes, one after the other. -/
theorem translateAll_cons (n : ExprNode D) (ns : List (ExprNode D)) :
    translateAll env (n :: ns) =
      ((fun e => [e]) <$> translate env n) >>= fun a => (a ++ ·) <$> translateAll env ns := by
  rw [translateAll]
  cases translate env n <;> cases translateAll env ns <;> rfl

/-- The walks of a node and then of a list of nodes push the list's translations. -/
theorem Pushes.cons {f g : ExpressionRewriter C D → Except RewriteError (ExpressionRewriter C D)}
    {n : ExprNode D} {ns : List (ExprNode D)} (h : Pushes f ((fun e => [e]) <$> translate env n))
    (hs : Pushes g (translateAll env ns)) :
    Pushes (fun st => f st >>= g) (translateAll env (n :: ns)) := by
  rw [translateAll_cons]
  exact h.bind hs

theorem translateWhen_mk (c r : ExprNode D) :
    translateWhen env (.mk c r) = translateAll env [c, r] := by
  rw [translateWhen, translateAll, translateAll, translateAll]
  cases translate env c <;> cases translate env r <;> rfl

theorem translateWhens_cons (w : WhenClause D) (ws : List (WhenClause D)) :
    translateWhens env (w :: ws) =
      translateWhen env w >>= fun a => (a ++ ·) <$> translateWhens env ws := by
  rw [translateWhens]
  cases translateWhen env w <;> cases translateWhens env ws <;> rfl

theorem length_of_translateAll : ∀ {ns : List (ExprNode D)} {es : List (Expression C D)},
    translateAll env ns = .ok es → es.length = ns.length
  | [], es, h => by cases h; rfl
  | n :: ns, es, h => by
    rw [translateAll_cons] at h
    rw [length_of_bind_append h (fun _ => length_of_map_singleton)
      (fun _ => length_of_translateAll), List.length_cons, Nat.add_comm]

theorem length_of_translateOpt {o : Option (ExprNode D)} {a : List (Expression C D)}
    (h : Option.toList <$> translateOpt env o = .ok a) : a.length = if o.isSome then 1 else 0 := by
  cases o with
  | none => cases h; rfl
  | some n =>
    rw [translateOpt] at h
    cases hn : translate env n <;> rw [hn] at h <;> cases h
    rfl

theorem length_of_translateWhens : ∀ {ws : List (WhenClause D)} {es : List (Expression C D)},
    translateWhens env ws = .ok es → es.length = 2 * ws.length
  | [], es, h => by cases h; rfl
  | .mk c r :: ws, es, h => by
    rw [translateWhens_cons, translateWhen_mk] at h
    rw [length_of_bind_append h (fun _ => length_of_translateAll env)
      (fun _ => length_of_translateWhens)]
    simp
    omega

/-! ## One node's walk -/

variable {children : ExpressionRewriter C D → Except RewriteError (ExpressionRewriter C D)}
  {t : Except RewriteError (List (Expression C D))}

/-- The walk of a node that `Enter` does not skip: its children push their operands, and its
handler, given those operands on top of any stack, replaces them with what it builds. -/
theorem visit_pushes (n : ExprNode D)
    (g : List (Expression C D) → Except RewriteError (Expression C D)) (k : Nat)
    (henter : ∀ st, ∃ st', enter env n st = .ok (st', false) ∧ st'.ctxStack = st.ctxStack)
    (hc : Pushes children t) (hlen : ∀ args, t = .ok args → args.length = k)
    (hleave : ∀ base args, args.length = k →
      leaveStack env n (base ++ args) = (base ++ [·]) <$> g args) :
    Pushes (visit env n children) ((fun e => [e]) <$> (t >>= g)) := by
  intro st
  obtain ⟨st', he, hs⟩ := henter st
  simp only [visit, he, Except.ok_bind, Bool.false_eq_true, if_false]
  cases ht : t with
  | error e => simp [hc.error ht st', Except.error_bind]
  | ok args =>
    obtain ⟨st'', hc', hs'⟩ := hc.ok ht st'
    simp only [hc', Except.ok_bind, leave, hs', hs, hleave _ _ (hlen _ ht)]
    cases g args <;> rfl

/-- `visit_pushes` for a handler that pops `k` operands with `replaceTop`. -/
theorem visit_replaceTop_pushes (n : ExprNode D)
    (g : List (Expression C D) → Except RewriteError (Expression C D)) (k : Nat)
    (hstack : ∀ stk, leaveStack env n stk = replaceTop k g stk)
    (henter : ∀ st, ∃ st', enter env n st = .ok (st', false) ∧ st'.ctxStack = st.ctxStack)
    (hc : Pushes children t) (hlen : ∀ args, t = .ok args → args.length = k) :
    Pushes (visit env n children) ((fun e => [e]) <$> (t >>= g)) :=
  visit_pushes env n g k henter hc hlen fun base _ h =>
    (hstack _).trans (replaceTop_append h g base)

/-- The walk of a node whose `Leave` keeps the stack pushes what its children push. -/
theorem visit_pushes_id (n : ExprNode D)
    (henter : ∀ st, ∃ st', enter env n st = .ok (st', false) ∧ st'.ctxStack = st.ctxStack)
    (hc : Pushes children t) (hleave : ∀ stk, leaveStack env n stk = .ok stk) :
    Pushes (visit env n children) t := by
  intro st
  obtain ⟨st', he, hs⟩ := henter st
  simp only [visit, he, Except.ok_bind, Bool.false_eq_true, if_false]
  cases ht : t with
  | error e => simp [hc.error ht st', Except.error_bind]
  | ok args =>
    obtain ⟨st'', hc', hs'⟩ := hc.ok ht st'
    simp [hc', leave, hleave, hs', hs, Except.ok_bind]

/-- The walk of a node that `Enter` pushes itself and skips. -/
theorem visit_skip_pushes (n : ExprNode D) (x : Except RewriteError (Expression C D))
    (henter : ∀ st,
      enter env n st = (fun c => ({ st with ctxStack := st.ctxStack ++ [c] }, true)) <$> x)
    (hleave : ∀ stk, leaveStack env n stk = .ok stk) :
    Pushes (visit env n children) ((fun e => [e]) <$> x) := fun st => by
  simp only [visit, henter]
  cases x <;> simp [leave, hleave, Except.ok_bind, Except.error_bind]

theorem acceptColumnName_pushes (name : ColumnName) :
    Pushes (acceptColumnName env name) ((fun e => [e]) <$> toColumn env name) := fun st => by
  simp only [acceptColumnName]
  cases toColumn env name <;> rfl


/-! ## Every walk -/

mutual

/-- From every state, the walk of a node pushes the node's translation, or fails with the
translation's error. -/
theorem accept_pushes : ∀ n : ExprNode D,
    Pushes (accept env n) ((fun e => [e]) <$> translate env n)
  | .valueExpr datum =>
    (visit_replaceTop_pushes env (.valueExpr datum) (fun _ => .ok (.constant datum)) 0
      (fun _ => by rw [replaceTop_zero]; rfl) (fun _ => ⟨_, rfl, rfl⟩)
      (Pushes.pure) fun _ h => by cases h; rfl).of_eq (fun _ => by rw [accept])
      (rfl)
  | .paramMarkerExpr datum =>
    (visit_replaceTop_pushes env (.paramMarkerExpr datum) (fun _ => .ok (.constant datum)) 0
      (fun _ => by rw [replaceTop_zero]; rfl) (fun _ => ⟨_, rfl, rfl⟩)
      (Pushes.pure) fun _ h => by cases h; rfl).of_eq (fun _ => by rw [accept])
      (rfl)
  | .aggregateFuncExpr (some index) =>
    (visit_skip_pushes env (.aggregateFuncExpr (some index)) (schemaColumn env index)
      (fun _ => by simp only [enter]; cases schemaColumn env index <;> rfl) fun _ => rfl).of_eq
      (fun _ => by rw [accept]) (by rw [translate])
  | .columnNameExpr (some index) name =>
    (visit_skip_pushes env (.columnNameExpr (some index) name) (schemaColumn env index)
      (fun _ => by simp only [enter]; cases schemaColumn env index <;> rfl) fun _ => rfl).of_eq
      (fun _ => by rw [accept]) (by rw [translate])
  | .aggregateFuncExpr none => fun _ => rfl
  | .columnNameExpr none name =>
    (visit_pushes_id env (.columnNameExpr none name) (fun _ => ⟨_, rfl, rfl⟩) (acceptColumnName_pushes env name)
      fun _ => rfl).of_eq (fun _ => by rw [accept]) (by rw [translate])
  | .parenthesesExpr e =>
    (visit_pushes_id env (.parenthesesExpr e) (fun _ => ⟨_, rfl, rfl⟩) (accept_pushes e) fun _ => rfl).of_eq
      (fun _ => by rw [accept]) (by rw [translate])
  | .userVariableExpr name (some v) =>
    (visit_replaceTop_pushes env (.userVariableExpr name (some v)) _ 1 (fun _ => by rw [leaveStack]) (fun _ => ⟨_, rfl, rfl⟩)
      (accept_pushes v) fun _ => length_of_map_singleton).of_eq (fun _ => by rw [accept]; rfl)
      (by rw [translate, translateOpt]; cases translate env v <;> rfl)
  | .userVariableExpr name none =>
    (visit_replaceTop_pushes env (.userVariableExpr name none) _ 0 (fun _ => by rw [leaveStack]) (fun _ => ⟨_, rfl, rfl⟩)
      (Pushes.pure) fun _ h => by cases h; rfl).of_eq (fun _ => by rw [accept]; rfl)
      (by rw [translate]; rfl)
  | .systemVariableExpr name isGlobal =>
    (visit_replaceTop_pushes env (.systemVariableExpr name isGlobal) _ 0 (fun _ => by rw [leaveStack]) (fun _ => ⟨_, rfl, rfl⟩)
      (Pushes.pure) fun _ h => by cases h; rfl).of_eq (fun _ => by rw [accept])
      (by rw [translate]; rfl)
  | .positionExpr pos =>
    (visit_replaceTop_pushes env (.positionExpr pos) _ 0 (fun _ => by rw [leaveStack]) (fun _ => ⟨_, rfl, rfl⟩)
      (Pushes.pure) fun _ h => by cases h; rfl).of_eq (fun _ => by rw [accept])
      (by rw [translate]; rfl)
  | .funcCallExpr fnName args =>
    (visit_replaceTop_pushes env (.funcCallExpr fnName args) _ _ (fun _ => by rw [leaveStack]) (fun _ => ⟨_, rfl, rfl⟩)
      (acceptAll_pushes args) fun _ => length_of_translateAll env).of_eq (fun _ => by rw [accept])
      (by rw [translate])
  | .rowExpr values =>
    (visit_replaceTop_pushes env (.rowExpr values) _ _ (fun _ => by rw [leaveStack]) (fun _ => ⟨_, rfl, rfl⟩)
      (acceptAll_pushes values) fun _ => length_of_translateAll env).of_eq (fun _ => by rw [accept])
      (by rw [translate])
  | .unaryOperationExpr op e => by
    cases hop : unaryFuncName op with
    | none =>
      refine (visit_pushes_id env (.unaryOperationExpr op e) (fun _ => ⟨_, rfl, rfl⟩) (accept_pushes e)
        fun _ => by simp only [leaveStack, hop]).of_eq (fun _ => by rw [accept]) ?_
      rw [translate]
      cases translate env e <;> simp [unaryOp, hop, Except.ok_bind, Except.error_bind]
    | some _ =>
      refine (visit_replaceTop_pushes env (.unaryOperationExpr op e) _ 1
        (fun _ => by simp only [leaveStack, hop]; rfl) (fun _ => ⟨_, rfl, rfl⟩) (accept_pushes e)
        fun _ => length_of_map_singleton).of_eq (fun _ => by rw [accept]) ?_
      rw [translate]
      cases translate env e <;> rfl
  | .binaryOperationExpr op l r =>
    (visit_replaceTop_pushes env (.binaryOperationExpr op l r) _ 2 (fun _ => by rw [leaveStack]) (fun _ => ⟨_, rfl, rfl⟩)
      (Pushes.cons env (accept_pushes l)
        (translateAll_singleton env r ▸ accept_pushes r)) fun _ => length_of_translateAll env).of_eq (fun _ => by rw [accept])
      (by simp only [translate, translateAll]
          cases translate env l <;> cases translate env r <;> rfl)
  | .patternLikeExpr not escape e p =>
    (visit_replaceTop_pushes env (.patternLikeExpr not escape e p) _ 2 (fun _ => by rw [leaveStack]) (fun _ => ⟨_, rfl, rfl⟩)
      (Pushes.cons env (accept_pushes e)
        (translateAll_singleton env p ▸ accept_pushes p)) fun _ => length_of_translateAll env).of_eq (fun _ => by rw [accept])
      (by simp only [translate, translateAll]
          cases translate env e <;> cases translate env p <;> rfl)
  | .patternRegexpExpr not e p =>
    (visit_replaceTop_pushes env (.patternRegexpExpr not e p) _ 2 (fun _ => by rw [leaveStack]) (fun _ => ⟨_, rfl, rfl⟩)
      (Pushes.cons env (accept_pushes e)
        (translateAll_singleton env p ▸ accept_pushes p)) fun _ => length_of_translateAll env).of_eq (fun _ => by rw [accept])
      (by simp only [translate, translateAll]
          cases translate env e <;> cases translate env p <;> rfl)
  | .betweenExpr not e l r =>
    (visit_replaceTop_pushes env (.betweenExpr not e l r) _ 3 (fun _ => by rw [leaveStack]) (fun _ => ⟨_, rfl, rfl⟩)
      (Pushes.cons env (accept_pushes e) (Pushes.cons env (accept_pushes l)
        (translateAll_singleton env r ▸ accept_pushes r))) fun _ => length_of_translateAll env).of_eq (fun _ => by rw [accept]; simp only [visit, bind_assoc])
      (by simp only [translate, translateAll]
          cases translate env e <;> cases translate env l <;> cases translate env r <;> rfl)
  | .patternInExpr not e list =>
    (visit_replaceTop_pushes env (.patternInExpr not e list) _ (list.length + 1) (fun _ => by rw [leaveStack]) (fun _ => ⟨_, rfl, rfl⟩)
      (Pushes.cons env (accept_pushes e) (acceptAll_pushes list)) fun _ => length_of_translateAll env).of_eq (fun _ => by rw [accept])
      (by rw [translate, translateAll]
          cases translate env e <;> cases translateAll env list <;> rfl)
  | .isNullExpr not e =>
    (visit_replaceTop_pushes env (.isNullExpr not e) _ 1 (fun _ => by rw [leaveStack]) (fun _ => ⟨_, rfl, rfl⟩)
      (accept_pushes e) fun _ => length_of_map_singleton).of_eq (fun _ => by rw [accept])
      (by rw [translate]; cases translate env e <;> rfl)
  | .isTruthExpr not truth e =>
    (visit_replaceTop_pushes env (.isTruthExpr not truth e) _ 1 (fun _ => by rw [leaveStack]) (fun _ => ⟨_, rfl, rfl⟩)
      (accept_pushes e) fun _ => length_of_map_singleton).of_eq (fun _ => by rw [accept])
      (by rw [translate]; cases translate env e <;> rfl)
  | .caseExpr value whenClauses elseClause => by
    -- the operands are the value, if any, then the `WHEN`/`THEN` pairs, then the `ELSE`
    let j := if value.isSome then 1 else 0
    refine (visit_pushes env (.caseExpr value whenClauses elseClause)
      (fun args => checkArgsOneColumn (args.drop j) >>= fun _ =>
        caseBuild env (args.take j).head? (args.drop j))
      (j + 2 * whenClauses.length + if elseClause.isSome then 1 else 0) (fun _ => ⟨_, rfl, rfl⟩)
      (((acceptOpt_pushes value).bind (acceptWhens_pushes whenClauses)).bind
        (acceptOpt_pushes elseClause))
      (fun _ h => length_of_bind_append h
        (fun _ h => length_of_bind_append h (fun _ => length_of_translateOpt env)
          (fun _ => length_of_translateWhens env))
        (fun _ => length_of_translateOpt env))
      (fun base args h => ?_)).of_eq (fun _ => by rw [accept]) ?_
    · rw [leaveStack, ← List.take_append_drop j args, ← List.append_assoc,
        caseToExpression_append env _ _ _ _ (by simp [j, h]; omega) (by simp [j, h]; omega)]
      simp only [List.take_append_drop]
    · rw [translate]
      rcases value with _ | v <;> rcases elseClause with _ | e <;> simp only [translateOpt] <;>
        (try cases translate env v) <;> (try cases translate env e) <;>
        cases translateWhens env whenClauses <;> rfl

/-- The walk of a list of nodes pushes their translations, in order. -/
theorem acceptAll_pushes : ∀ ns : List (ExprNode D), Pushes (acceptAll env ns) (translateAll env ns)
  | [] => Pushes.pure.of_eq (fun _ => by rw [acceptAll]; rfl) (by rw [translateAll])
  | n :: ns => (Pushes.cons env (accept_pushes n) (acceptAll_pushes ns)).of_eq
      (fun _ => by rw [acceptAll]) rfl

/-- The walk of an optional node pushes its translation, if any. -/
theorem acceptOpt_pushes : ∀ o : Option (ExprNode D),
    Pushes (acceptOpt env o) (Option.toList <$> translateOpt env o)
  | none => Pushes.pure.of_eq (fun _ => by rw [acceptOpt]; rfl) (by rw [translateOpt]; rfl)
  | some n => (accept_pushes n).of_eq (fun _ => by rw [acceptOpt])
      (by rw [translateOpt]; cases translate env n <;> rfl)

/-- The walk of a `WHEN` clause pushes its condition and its result. -/
theorem acceptWhen_pushes : ∀ w : WhenClause D, Pushes (acceptWhen env w) (translateWhen env w)
  | .mk c r => (Pushes.cons env (fun st => accept_pushes c { st with asScalar := true })
      (translateAll_singleton env r ▸ accept_pushes r)).of_eq (fun _ => by rw [acceptWhen])
      (translateWhen_mk env c r)

/-- The walk of a `CASE`'s `WHEN` clauses pushes their conditions and results, in order. -/
theorem acceptWhens_pushes : ∀ ws : List (WhenClause D),
    Pushes (acceptWhens env ws) (translateWhens env ws)
  | [] => Pushes.pure.of_eq (fun _ => by rw [acceptWhens]; rfl) (by rw [translateWhens])
  | w :: ws => ((acceptWhen_pushes w).bind (acceptWhens_pushes ws)).of_eq
      (fun _ => by rw [acceptWhens]) (translateWhens_cons env w ws)

end

/-! ## `rewrite` -/

section Rewrite

variable {Ctx : Type} (builtins : String → Ctx → List (Except String D) → Except String D)
  (ctx : Ctx)

/-- `planBuilder.rewrite` is the translation of the expression, checked to be of one column,
then folded: the stack machine computes what each node means. The walk always leaves exactly
one expression, so `rewrite` never returns no expression and its `contextLen` check never
fails. -/
theorem rewrite_eq (expr : ExprNode D) (asScalar : Bool) :
    rewrite env builtins ctx expr asScalar = translate env expr >>= fun e =>
      if getRowLen e ≠ 1 then throw (.operandColumns 1)
      else pure (some (foldConstant builtins ctx e)) := by
  have h := accept_pushes env expr
  cases ht : translate env expr with
  | error err =>
    simp [rewrite, h.error (by rw [ht]; rfl) { ctxStack := [], asScalar := asScalar },
      Except.error_bind]
  | ok e =>
    obtain ⟨er, hacc, hs⟩ := h.ok (by rw [ht]; rfl) { ctxStack := [], asScalar := asScalar }
    simp [rewrite, hacc, hs, Except.ok_bind]

/-- An expression `rewrite` returns is the folded translation of the AST. -/
theorem translate_of_rewrite {expr : ExprNode D} {asScalar : Bool} {e : Expression C D}
    (h : rewrite env builtins ctx expr asScalar = .ok (some e)) :
    ∃ t, translate env expr = .ok t ∧ e = foldConstant builtins ctx t := by
  have hp := accept_pushes env expr
  cases ht : translate env expr with
  | error err =>
    simp [rewrite, hp.error (by rw [ht]; rfl) { ctxStack := [], asScalar := asScalar },
      Except.error_bind] at h
  | ok t =>
    obtain ⟨er, hacc, hs⟩ := hp.ok (by rw [ht]; rfl) { ctxStack := [], asScalar := asScalar }
    simp [rewrite, hacc, hs, Except.ok_bind] at h
    split_ifs at h with h₁
    cases h
    exact ⟨t, rfl, rfl⟩

end Rewrite

end Walk

end Gleam.Plan.Rewriter
