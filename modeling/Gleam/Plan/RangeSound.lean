import Gleam.Plan.Range

/-!
# Range building is sound and well-formed

Every list `build` returns is well-formed, whatever the predicate and whether or not an error
was recorded: the leaves are fixed lists in order, `merge` keeps lists well-formed, and
`newBuildFromIn` keeps, of its sorted points, those whose flag differs from the one kept before.
For a predicate the builder covers, the list is also sound: every value of the column at which
the predicate is TRUE lies in one of its ranges. The proof follows the predicate: one lemma per
builder, and `inRanges_merge` for `AND` and `OR`.

## Main results

* `build_wellFormed`: the point lists `build` returns are well-formed.
* `build_sound`: they hold every value at which a covered predicate is TRUE.
-/

namespace Gleam.Plan

variable {V : Type} [LinearOrder V] (d : Domain V)

/-! ## Fixed ranges -/

theorem fullRange_wellFormed : WellFormed (fullRange : List (RangePoint V)) :=
  ⟨rfl, by simp [fullRange], by simp [fullRange, rangePointLess_iff]⟩

/-- `fullRange` holds every value. -/
theorem inRanges_fullRange (x : Option V) : inRanges x fullRange = true := by
  cases x <;> simp [fullRange, inRanges, RangePoint.below, RangePoint.above, Point.ofOption]

theorem buildFromColumn_wellFormed : WellFormed (buildFromColumn d) :=
  ⟨rfl, by simp [buildFromColumn], by simp [buildFromColumn, rangePointLess_iff, RangePoint.rank]⟩

theorem buildFromConstant_wellFormed (value : Option V) : WellFormed (buildFromConstant d value) := by
  unfold buildFromConstant
  split
  · exact ⟨rfl, rfl, List.chain'_nil⟩
  · split
    · exact ⟨rfl, rfl, List.chain'_nil⟩
    · exact fullRange_wellFormed

theorem buildFormBinOp_wellFormed (op : CmpOp) (constLeft : Bool) (value : Option V) :
    WellFormed (buildFormBinOp op constLeft value) := by
  unfold buildFormBinOp
  rcases value with _ | v
  · exact ⟨rfl, rfl, List.chain'_nil⟩
  · dsimp only
    split <;> exact ⟨rfl, by simp, by simp [rangePointLess_iff, RangePoint.rank]⟩

theorem buildFromIsTrue_wellFormed (isNot : Int) : WellFormed (buildFromIsTrue d isNot) := by
  unfold buildFromIsTrue
  split <;> exact ⟨rfl, by simp, by simp [rangePointLess_iff, RangePoint.rank]⟩

theorem buildFromIsFalse_wellFormed (isNot : Int) : WellFormed (buildFromIsFalse d isNot) := by
  unfold buildFromIsFalse
  split <;> exact ⟨rfl, by simp, by simp [rangePointLess_iff, RangePoint.rank]⟩

theorem newBuildFromPatternLike_wellFormed (pattern : List UInt8) (escape : UInt8) :
    WellFormed (newBuildFromPatternLike d pattern escape) := by
  unfold newBuildFromPatternLike
  dsimp only
  split_ifs
  · exact ⟨rfl, by simp, by simp [rangePointLess_iff, RangePoint.rank]⟩
  · exact ⟨rfl, by simp, by simp [rangePointLess_iff]⟩
  · exact ⟨rfl, by simp, by simp [rangePointLess_iff, RangePoint.rank]⟩
  · refine ⟨rfl, by simp, ?_⟩
    cases hh : highValue (likePrefix escape pattern).1 with
    | none => simp [rangePointLess_iff]
    | some high => simp [rangePointLess_iff, d.ofBytes_lt (by simpa using lex_highValue hh [])]

/-! ## `IN` -/

/-- Both branches of `newBuildFromIn` return the deduplicated sorted points: without a duplicate
the removal loop keeps every point. -/
theorem newBuildFromIn_fst (err : Option String) (list : List (Operand V)) :
    (newBuildFromIn err list).1 = match inConstants list with
      | none => fullRange
      | some values => distinctPoints false (sortPoints (values.flatMap inPoints)).1 := by
  unfold newBuildFromIn
  cases inConstants list with
  | none => rfl
  | some values =>
    simp only [sortPoints_err, Option.isSome_none, Bool.false_eq_true, if_false]
    split_ifs with h
    · rfl
    · exact (distinctPoints_of_hasDuplicate (Bool.eq_false_iff.2 h)).symm

/-- The last of the sorted points of the constants is an end point: each start has its end
above it. -/
theorem lastStart_sortPoints_inPoints (values : List (Option V)) :
    lastStart false (sortPoints (values.flatMap inPoints)).1 = false := by
  rcases List.eq_nil_or_concat (sortPoints (values.flatMap inPoints)).1 with h | ⟨ys, l, h⟩
  · rw [h]; rfl
  · have hs := sortPoints_sorted (values.flatMap inPoints)
    have hperm := sortPoints_perm (values.flatMap inPoints)
    rw [h, List.concat_eq_append] at hs hperm ⊢
    simp only [lastStart, List.foldl_append, List.foldl_cons, List.foldl_nil]
    have hl := hperm.subset (List.mem_append_right ys (List.mem_singleton_self l))
    obtain ⟨v, hv, hl⟩ := List.mem_flatMap.1 hl
    simp only [inPoints, List.mem_cons, List.mem_singleton, List.not_mem_nil, or_false] at hl
    rcases hl with rfl | rfl
    · -- the end point of `v` would lie above the last point
      have he : ({ value := Point.ofOption v } : RangePoint V) ∈ ys ++ _ :=
        hperm.symm.subset (List.mem_flatMap.2 ⟨v, hv, by simp [inPoints]⟩)
      rcases List.mem_append.1 he with he | he
      · have := (List.pairwise_append.1 hs).2.2 _ he _ (List.mem_singleton_self _)
        simp [RangePoint.rank] at this
      · simp at he
    · rfl

theorem newBuildFromIn_wellFormed (err : Option String) (list : List (Operand V)) :
    WellFormed (newBuildFromIn err list).1 := by
  rw [newBuildFromIn_fst]
  cases inConstants list with
  | none => exact fullRange_wellFormed
  | some values =>
    dsimp only
    have halt := alternating_distinctPoints false (sortPoints (values.flatMap inPoints)).1
    have hnet := net_distinctPoints false (sortPoints (values.flatMap inPoints)).1
    rw [lastStart_sortPoints_inPoints, net_of_alternating halt] at hnet
    exact ⟨halt, by simp at hnet; omega,
      chain'_of_sorted ((sortPoints_sorted _).sublist (distinctPoints_sublist _ _)) halt⟩

/-- On a sorted list whose points below `x` include the start `[v` of `x = v`, the last of them
is a start: nothing lies between `[v` and `v`. -/
theorem lastStart_before_of_mem {ps : List (RangePoint V)} (hs : ps.Pairwise fun a b => a.key ≤ b.key)
    {v : V} (hv : ({ value := .val v, start := true } : RangePoint V) ∈ ps) :
    lastStart false (before (some v) ps) = true := by
  have hsb : (before (some v) ps).Pairwise fun a b => a.key ≤ b.key :=
    hs.sublist (List.filter_sublist ps)
  have hvb : ({ value := .val v, start := true } : RangePoint V) ∈ before (some v) ps :=
    List.mem_filter.2 ⟨hv, by simp [RangePoint.key_lt_xKey, Point.ofOption, RangePoint.rank]⟩
  rcases List.eq_nil_or_concat (before (some v) ps) with h | ⟨ys, l, h⟩
  · simp [h] at hvb
  · rw [h, List.concat_eq_append] at hsb hvb ⊢
    have hl : l ∈ before (some v) ps := by
      rw [h, List.concat_eq_append]
      exact List.mem_append_right ys (List.mem_singleton_self l)
    have hlx := of_decide_eq_true (List.mem_filter.1 hl).2
    have hvl : ({ value := .val v, start := true } : RangePoint V).key ≤ l.key := by
      rcases List.mem_append.1 hvb with hvb | hvb
      · exact (List.pairwise_append.1 hsb).2.2 _ hvb _ (List.mem_singleton_self _)
      · rw [List.mem_singleton.1 hvb]
    simp only [lastStart, List.foldl_append, List.foldl_cons, List.foldl_nil]
    exact RangePoint.start_of_between hvl hlx

/-- `x IN (list)` is TRUE only at a non-NULL constant of the list. -/
theorem mem_of_anyValue_eq {x : Option V} {S : List (Option V)}
    (h : Quantified.anyValue .eq x S = some true) : ∃ v, x = some v ∧ some v ∈ S := by
  unfold Quantified.anyValue at h
  split_ifs at h with hany
  · obtain ⟨s, hs, hxs⟩ := List.any_eq_true.1 hany
    rcases x with _ | v <;> rcases s with _ | w <;> simp [sqlCmp, CmpOp.holds] at hxs
    exact ⟨v, rfl, hxs ▸ hs⟩
  all_goals simp at h

omit [LinearOrder V] in
theorem map_value_of_inConstants {x : Option V} : ∀ {list : List (Operand V)} {values},
    inConstants list = some values → list.map (Operand.value x) = values
  | [], _, h => by cases h; rfl
  | .column :: _, _, h => by cases h
  | .constant v :: rest, values, h => by
    obtain ⟨vs, hvs, rfl⟩ := Option.map_eq_some'.1 h
    simp [Operand.value, map_value_of_inConstants hvs]

/-- `IN` is sound: a value equal to a constant of the list lies in the deduplicated ranges. -/
theorem inRanges_newBuildFromIn (err : Option String) (list : List (Operand V)) {x : Option V}
    (h : (Func.inList list).eval d x = some true) : inRanges x (newBuildFromIn err list).1 = true := by
  have hwf := newBuildFromIn_wellFormed err list
  rw [newBuildFromIn_fst] at hwf ⊢
  rcases hc : inConstants list with _ | values
  · exact inRanges_fullRange x
  · rw [hc] at hwf
    dsimp only at hwf ⊢
    rw [Func.eval, map_value_of_inConstants hc] at h
    obtain ⟨v, rfl, hv⟩ := mem_of_anyValue_eq h
    have hs := sortPoints_sorted (values.flatMap inPoints)
    have hmem : ({ value := .val v, start := true } : RangePoint V) ∈
        (sortPoints (values.flatMap inPoints)).1 :=
      (sortPoints_perm _).symm.subset (List.mem_flatMap.2 ⟨some v, hv, by simp [inPoints, Point.ofOption]⟩)
    rw [inRanges_iff_net hwf, before_distinctPoints _ _ hs, net_distinctPoints,
      lastStart_before_of_mem hs hmem]
    rfl

/-! ## `LIKE` -/

/-- `LIKE` is sound: a string that matches the pattern starts with `lowValue`, and is longer
after `_`, so it lies between the start and the end point. -/
theorem inRanges_newBuildFromPatternLike (pattern : List UInt8) (escape : UInt8) {x : Option V}
    (h : (Func.like pattern escape).eval d x = some true) :
    inRanges x (newBuildFromPatternLike d pattern escape) = true := by
  simp only [Func.eval, Option.map_eq_some'] at h
  obtain ⟨v, rfl, hv⟩ := h
  split at hv
  case h_2 => cases hv
  rename_i s hs
  rw [← d.ofBytes_toBytes hs]
  unfold newBuildFromPatternLike
  obtain ⟨rest, hp⟩ := compilePattern_likePrefix escape pattern
  rcases hr : likePrefix escape pattern with ⟨low, exclude, isExactMatch⟩
  rw [hr] at hp
  dsimp only
  split_ifs with h0 h1 h2
  · subst h0
    simp [eq_nil_of_likeMatch_nil hv, inRanges, RangePoint.below, RangePoint.above, Point.ofOption]
  · simp [inRanges, RangePoint.below, RangePoint.above, Point.ofOption]
  · rw [hp, if_pos h2] at hv
    obtain ⟨t, rfl, ht⟩ := likeMatch_lits _ _ _ hv
    simp [eq_nil_of_likeMatch_nil ht, inRanges, RangePoint.below, RangePoint.above, Point.ofOption]
  · rw [hp, if_neg h2] at hv
    obtain ⟨t, rfl, ht⟩ := likeMatch_lits _ _ _ hv
    -- the start point reaches down to the string: it is a prefix, and a proper one after `_`
    have hstart : d.ofBytes low < d.ofBytes (low ++ t) ∨
        d.ofBytes low = d.ofBytes (low ++ t) ∧ exclude = false := by
      cases exclude
      · rcases eq_or_ne t [] with rfl | ht'
        · simp
        · exact .inl (d.ofBytes_lt (lex_append _ ht'))
      · exact .inl (d.ofBytes_lt (lex_append _ (ne_nil_of_likeMatch_one ht)))
    -- the end point is above it
    cases hh : highValue low with
    | none => simp [inRanges, RangePoint.below, RangePoint.above, Point.ofOption, hstart]
    | some high =>
      simp [inRanges, RangePoint.below, RangePoint.above, Point.ofOption, hstart,
        d.ofBytes_lt (lex_highValue hh t)]

/-! ## Comparisons and truth tests -/

theorem truth_eq_some_true {x : Option V} : truth d x = some true ↔ ∃ v, x = some v ∧ v ≠ d.zero := by
  cases x <;> simp [truth]

/-- The column, as `column IS TRUE`, holds every value but NULL and `0`. -/
theorem inRanges_buildFromColumn {x : Option V} (h : truth d x = some true) :
    inRanges x (buildFromColumn d) = true := by
  obtain ⟨v, rfl, hv⟩ := (truth_eq_some_true d).1 h
  rcases lt_or_gt_of_ne hv with hv | hv <;>
    simp [buildFromColumn, inRanges, RangePoint.below, RangePoint.above, Point.ofOption, hv]

theorem inRanges_buildFromConstant {value : Option V} (h : truth d value = some true) (x : Option V) :
    inRanges x (buildFromConstant d value) = true := by
  obtain ⟨v, rfl, hv⟩ := (truth_eq_some_true d).1 h
  simpa [buildFromConstant, hv] using inRanges_fullRange x

theorem inRanges_buildFormBinOp {op : CmpOp} (hop : op ≠ .nullEq) (constLeft : Bool)
    (value : Option V) {x : Option V} (h : (Func.cmp op constLeft value).eval d x = some true) :
    inRanges x (buildFormBinOp op constLeft value) = true := by
  rcases value with _ | c
  · cases constLeft <;> simp [Func.eval, sqlCmp_none_left hop, sqlCmp_none_right hop] at h
  rcases x with _ | v
  · cases constLeft <;> simp [Func.eval, sqlCmp_none_left hop, sqlCmp_none_right hop] at h
  cases constLeft <;> cases op <;> simp [Func.eval, CmpOp.holds] at h hop <;>
    simp [buildFormBinOp, inRanges, RangePoint.below, RangePoint.above, Point.ofOption, h] <;>
    first
    | exact Ne.symm h
    | exact h.lt_or_eq
    | exact h.lt_or_eq.imp_right Eq.symm

theorem truth_eq_some_false {x : Option V} : truth d x = some false ↔ x = some d.zero := by
  cases x <;> simp [truth]

theorem buildFromIsTrue_zero : buildFromIsTrue d 0 = buildFromColumn d := by
  simp [buildFromIsTrue, buildFromColumn]

theorem inRanges_buildFromIsFalse {x : Option V} (h : truth d x = some false) :
    inRanges x (buildFromIsFalse d 0) = true := by
  rw [(truth_eq_some_false d).1 h]
  simp [buildFromIsFalse, inRanges, RangePoint.below, RangePoint.above, Point.ofOption]

/-! ## `NOT` -/

theorem buildFromNot_wellFormed (err : Option String) (f : Func V) :
    WellFormed (buildFromNot d err f).1 := by
  unfold buildFromNot
  split
  · exact buildFromIsTrue_wellFormed d 1
  · exact buildFromIsFalse_wellFormed d 1
  · exact fullRange_wellFormed
  · exact fullRange_wellFormed
  · exact ⟨rfl, by simp, by simp [rangePointLess_iff]⟩
  · exact ⟨rfl, rfl, List.chain'_nil⟩

/-- `IS NOT TRUE`, `IS NOT FALSE` and `IS NOT NULL` are sound; `NOT IN` and `NOT LIKE` give
every value. -/
theorem inRanges_buildFromNot (err : Option String) {f : Func V} (hf : f.negatable = true)
    {x : Option V} (h : (Func.unaryNot f).eval d x = some true) :
    inRanges x (buildFromNot d err f).1 = true := by
  rw [Func.eval, sqlNot_eq_some_true] at h
  cases f <;> simp only [Func.negatable, Bool.false_eq_true] at hf
  case isTruth =>
    rcases x with _ | v
    · simp [buildFromNot, buildFromIsTrue, inRanges, RangePoint.below, RangePoint.above,
        Point.ofOption]
    · have hv : v = d.zero := by simpa [Func.eval, truth] using h
      simp [buildFromNot, buildFromIsTrue, inRanges, RangePoint.below, RangePoint.above,
        Point.ofOption, hv]
  case isFalsity =>
    rcases x with _ | v
    · simp [buildFromNot, buildFromIsFalse, inRanges, RangePoint.below, RangePoint.above,
        Point.ofOption]
    · have hv : v ≠ d.zero := by simpa [Func.eval, truth] using h
      rcases lt_or_gt_of_ne hv with hv | hv <;>
        simp [buildFromNot, buildFromIsFalse, inRanges, RangePoint.below, RangePoint.above,
          Point.ofOption, hv]
  case isNull =>
    rcases x with _ | v
    · simp [Func.eval] at h
    · simp [buildFromNot, inRanges, RangePoint.below, RangePoint.above, Point.ofOption]
  case inList => exact inRanges_fullRange x
  case like => exact inRanges_fullRange x

/-- `NOT` of a comparison, of `AND` or of `OR` gets no range and no error. So `NOT (c > v)`, TRUE
at every value up to `v`, gets a list that holds none of them. -/
theorem build_not_unhandled_empty :
    (∀ op constLeft (value : Option V),
      build d none (.scalarFunc (.unaryNot (.cmp op constLeft value))) = ([], none)) ∧
    (∀ a b : Expr V, build d none (.scalarFunc (.unaryNot (.andAnd a b))) = ([], none)) ∧
    (∀ a b : Expr V, build d none (.scalarFunc (.unaryNot (.orOr a b))) = ([], none)) ∧
    ∀ v x : V, (Func.cmp .gt false (some v)).eval d (some x) = some false ↔ x ≤ v :=
  ⟨fun _ _ _ => by simp [build, buildFromScalarFunc, buildFromNot],
    fun _ _ => by simp [build, buildFromScalarFunc, buildFromNot],
    fun _ _ => by simp [build, buildFromScalarFunc, buildFromNot],
    fun _ _ => by simp [Func.eval, CmpOp.holds]⟩

/-! ## The whole builder -/

mutual

/-- Every point list `build` returns is well-formed. -/
theorem build_wellFormed (err : Option String) : ∀ e : Expr V, WellFormed (build d err e).1
  | .column => buildFromColumn_wellFormed d
  | .constant v => buildFromConstant_wellFormed d v
  | .scalarFunc f => buildFromScalarFunc_wellFormed err f

theorem buildFromScalarFunc_wellFormed (err : Option String) :
    ∀ f : Func V, WellFormed (buildFromScalarFunc d err f).1
  | .cmp op constLeft value => by
    cases op
    case nullEq => exact ⟨rfl, rfl, List.chain'_nil⟩
    all_goals exact buildFormBinOp_wellFormed _ _ _
  | .andAnd a b => merge_wellFormed (build_wellFormed err a) (build_wellFormed _ b) _ _
  | .orOr a b => merge_wellFormed (build_wellFormed err a) (build_wellFormed _ b) _ _
  | .isTruth => buildFromIsTrue_wellFormed d 0
  | .isFalsity => buildFromIsFalse_wellFormed d 0
  | .inList list => newBuildFromIn_wellFormed err list
  | .like pattern escape => newBuildFromPatternLike_wellFormed d pattern escape
  | .isNull => ⟨rfl, by simp [buildFromScalarFunc],
      by simp [buildFromScalarFunc, rangePointLess_iff, RangePoint.rank]⟩
  | .unaryNot f => buildFromNot_wellFormed d err f

end

mutual

/-- Every value at which a covered predicate is TRUE lies in the ranges `build` returns. -/
theorem build_sound (err : Option String) : ∀ e : Expr V, e.Supported = true →
    ∀ x, e.eval d x = some true → inRanges x (build d err e).1 = true
  | .column, _, _, h => inRanges_buildFromColumn d h
  | .constant _, _, x, h => inRanges_buildFromConstant d h x
  | .scalarFunc f, hf, x, h => buildFromScalarFunc_sound err f hf x h

theorem buildFromScalarFunc_sound (err : Option String) : ∀ f : Func V, f.Supported = true →
    ∀ x, f.eval d x = some true → inRanges x (buildFromScalarFunc d err f).1 = true
  | .cmp op constLeft value, hf, _, h => by
    cases op
    case nullEq => simp [Func.Supported] at hf
    all_goals exact inRanges_buildFormBinOp d (by simp) constLeft value h
  | .andAnd a b, hf, x, h => by
    rw [Func.Supported, Bool.and_eq_true] at hf
    rw [Func.eval, sqlAnd_eq_some_true] at h
    rw [buildFromScalarFunc, intersection, inRanges_merge (build_wellFormed d _ a)
      (build_wellFormed d _ b), build_sound err a hf.1 x h.1, build_sound _ b hf.2 x h.2]
    rfl
  | .orOr a b, hf, x, h => by
    rw [Func.Supported, Bool.and_eq_true] at hf
    rw [Func.eval, sqlOr_eq_some_true] at h
    rw [buildFromScalarFunc, union, inRanges_merge (build_wellFormed d _ a) (build_wellFormed d _ b)]
    rcases h with h | h
    · simp [build_sound err a hf.1 x h]
    · simp [build_sound _ b hf.2 x h]
  | .isTruth, _, _, h => by
    rw [buildFromScalarFunc, buildFromIsTrue_zero]
    exact inRanges_buildFromColumn d (by simpa [Func.eval] using h)
  | .isFalsity, _, _, h => inRanges_buildFromIsFalse d (by simpa [Func.eval] using h)
  | .inList list, _, _, h => inRanges_newBuildFromIn d err list h
  | .like pattern escape, _, _, h => inRanges_newBuildFromPatternLike d pattern escape h
  | .isNull, _, x, h => by
    rcases x with _ | v
    · simp [buildFromScalarFunc, inRanges, RangePoint.below, RangePoint.above, Point.ofOption]
    · simp [Func.eval] at h
  | .unaryNot f, hf, _, h => inRanges_buildFromNot d err hf h

end

/-- Range building is sound and well-formed. For every predicate the builder covers, and
whatever error the builder has recorded, `build` returns alternating start and end points,
beginning with a start, strictly increasing under `rangePointLess`, and every value of the
column, NULL included, at which the predicate is TRUE lies in one of their ranges. -/
theorem build_wellFormed_and_sound (e : Expr V) (he : e.Supported = true) (err : Option String) :
    WellFormed (build d err e).1 ∧
      ∀ x, e.eval d x = some true → inRanges x (build d err e).1 = true :=
  ⟨build_wellFormed d err e, build_sound d err e he⟩

/-- Byte strings as lists of numbers below `256`, ordered lexicographically, with `[256]`, which
is no string, as the false value. -/
def listDomain : Domain (List Nat) where
  zero := [256]
  ofBytes s := s.map UInt8.toNat
  toBytes v := if v.all (· < 256) then some (v.map Nat.toUInt8) else none
  ofBytes_toBytes {v s} h := by
    dsimp only at h ⊢
    split_ifs at h with hv
    cases h
    rw [List.map_map]
    conv_rhs => rw [← List.map_id v]
    refine List.map_congr_left fun n hn => ?_
    have : n < 256 := by simpa using List.all_eq_true.1 hv n hn
    simp [Nat.toUInt8, UInt8.toNat, UInt8.ofNat]
    omega
  ofBytes_lt {s t} h := by
    induction h with
    | nil => exact .nil
    | cons _ ih => exact .cons ih
    | rel h => exact .rel h

/-- `c LIKE 'a%' OR 5 > c` over byte strings. -/
theorem build_wellFormed_and_sound_like_or_gt :
    let e : Expr (List Nat) :=
      .scalarFunc (.orOr (.scalarFunc (.like [97, 37] 92)) (.scalarFunc (.cmp .gt true (some [5]))))
    e.Supported = true ∧ (WellFormed (build listDomain none e).1 ∧
      ∀ x, e.eval listDomain x = some true → inRanges x (build listDomain none e).1 = true) :=
  by
  intro e
  exact ⟨rfl, build_wellFormed_and_sound listDomain e rfl none⟩

end Gleam.Plan
