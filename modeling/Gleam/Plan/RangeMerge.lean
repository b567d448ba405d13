import Gleam.Plan.RangePoint

/-!
# Merging and deduplicating range points

`rangeBuilder.merge` computes the intersection and the union of two point lists in one sweep:
it sorts all their points, counts the ranges open at each point (`inRangeCount`), and keeps the
points where that count crosses `requiredInRangeCount`, `1` for a union and `2` for an
intersection. `newBuildFromIn` sorts the points of its constants and keeps each point whose flag
differs from the last one kept.

Both are sweeps that keep some points of a sorted list. What they keep below a column value `x`
is what they keep of the points below `x`, and a well-formed list holds `x` iff the points below
`x` open one range (`inRanges_iff_net`). So both results are read off the number of ranges
their inputs open below `x`.

## Main definitions

* `mergeSweep`, `merge`, `intersection`, `union`: the loop of `merge`, and `merge` itself.
* `hasDuplicate`, `distinctPoints`: the two loops of `newBuildFromIn` after its sort.

## Main results

* `net_mergeSweep`, `alternating_mergeSweep`: the sweep keeps a start where the count rises to
  the required one and an end where it falls from it, so its points alternate.
* `merge_wellFormed`, `inRanges_merge`: the merge of well-formed lists is well-formed, and holds
  exactly the values in both lists (intersection) or in either (union).
* `net_distinctPoints`: the deduplicated list opens a range iff the last point read is a start.
-/

namespace Gleam.Plan

variable {V : Type} [LinearOrder V]

/-! ## The sweep of `merge` -/

/-- The loop of `merge`: a start point raises `inRangeCount` and is kept when the count reaches
`requiredInRangeCount`; an end point is kept when the count is at the required one, and lowers
it. -/
def mergeSweep (required : Int) : List (RangePoint V) → Int → List (RangePoint V)
  | [], _ => []
  | p :: ps, count =>
    if p.start then
      if count + 1 = required then p :: mergeSweep required ps (count + 1)
      else mergeSweep required ps (count + 1)
    else if count = required then p :: mergeSweep required ps (count - 1)
    else mergeSweep required ps (count - 1)

/-- `merge(a, b, union)`: sort the points of both lists and sweep them, requiring one open range
for a union and two for an intersection. A comparison error during the sort is recorded and
gives no points. -/
def merge (err : Option String) (a b : List (RangePoint V)) (union : Bool) :
    List (RangePoint V) × Option String :=
  let sorter := sortPoints (a ++ b)
  match sorter.2 with
  | some e => ([], some e)
  | none => (mergeSweep (if union then 1 else 2) sorter.1 0, err)

/-- `intersection(a, b)`. -/
def intersection (err : Option String) (a b : List (RangePoint V)) :
    List (RangePoint V) × Option String :=
  merge err a b false

/-- `union(a, b)`. -/
def union (err : Option String) (a b : List (RangePoint V)) : List (RangePoint V) × Option String :=
  merge err a b true

omit [LinearOrder V] in
theorem mergeSweep_sublist (required : Int) :
    ∀ (ps : List (RangePoint V)) (count : Int), (mergeSweep required ps count).Sublist ps
  | [], _ => List.Sublist.slnil
  | p :: ps, count => by
    unfold mergeSweep
    split_ifs
    all_goals first
      | exact (mergeSweep_sublist required ps _).cons₂ p
      | exact (mergeSweep_sublist required ps _).cons p

omit [LinearOrder V] in
/-- The kept points alternate: the next one kept is a start iff the count is below the required
one. -/
theorem alternating_mergeSweep (required : Int) : ∀ (ps : List (RangePoint V)) (count : Int),
    Alternating (decide (count < required)) (mergeSweep required ps count) = true
  | [], _ => rfl
  | p :: ps, count => by
    have ih := alternating_mergeSweep required ps
    unfold mergeSweep
    split_ifs with hs hc hc
    · have h := ih (count + 1)
      rw [decide_eq_false (by omega : ¬count + 1 < required)] at h
      simp [Alternating, hs, decide_eq_true (by omega : count < required), h]
    · simpa [show count < required ↔ count + 1 < required by omega] using ih (count + 1)
    · have h := ih (count - 1)
      rw [decide_eq_true (by omega : count - 1 < required)] at h
      simp [Alternating, hs, decide_eq_false (by omega : ¬count < required), h]
    · simpa [show count < required ↔ count - 1 < required by omega] using ih (count - 1)

omit [LinearOrder V] in
/-- The kept points open one range iff the count crosses up to the required one over the sweep,
and close one iff it crosses down. -/
theorem net_mergeSweep (required : Int) : ∀ (ps : List (RangePoint V)) (count : Int),
    net (mergeSweep required ps count) =
      (if required ≤ count + net ps then 1 else 0) - (if required ≤ count then 1 else 0)
  | [], _ => by simp [mergeSweep]
  | p :: ps, count => by
    have ih := net_mergeSweep required ps
    unfold mergeSweep
    by_cases hs : p.start
    · simp only [hs, if_true, net_cons, RangePoint.delta]
      split_ifs <;> simp only [net_cons, RangePoint.delta, hs, if_true, ih] <;> split_ifs <;> omega
    · simp only [hs, if_false, net_cons, RangePoint.delta, Bool.false_eq_true]
      split_ifs <;> simp only [net_cons, RangePoint.delta, hs, ih, Bool.false_eq_true, if_false] <;>
        split_ifs <;> omega

/-- On a sorted list, the kept points below `x` are those kept from the points below `x`. -/
theorem before_mergeSweep (required : Int) (x : Option V) : ∀ {ps : List (RangePoint V)},
    ps.Pairwise (fun a b => a.key ≤ b.key) → ∀ count : Int,
    before x (mergeSweep required ps count) = mergeSweep required (before x ps) count
  | [], _, _ => rfl
  | p :: ps, hs, count => by
    by_cases hp : p.key < xKey x
    · have ih := before_mergeSweep required x hs.of_cons
      rw [before_cons, if_pos hp]
      unfold mergeSweep
      split_ifs <;> simp [before_cons, hp, ih]
    · have hnil : ∀ q ∈ p :: ps, ¬q.key < xKey x := by
        rintro q (_ | ⟨_, hq⟩)
        · exact hp
        · exact fun hq' => hp ((List.rel_of_pairwise_cons hs hq).trans_lt hq')
      rw [before_eq_nil hnil, before_eq_nil fun q hq => hnil q ((mergeSweep_sublist _ _ _).subset hq)]
      rfl

/-! ## `merge` on well-formed lists -/

@[simp] theorem merge_eq (err : Option String) (a b : List (RangePoint V)) (union : Bool) :
    merge err a b union = (mergeSweep (if union then 1 else 2) (sortPoints (a ++ b)).1 0, err) := by
  simp [merge]

/-- The merge of well-formed lists is well-formed. -/
theorem merge_wellFormed {a b : List (RangePoint V)} (ha : WellFormed a) (hb : WellFormed b)
    (err : Option String) (union : Bool) : WellFormed (merge err a b union).1 := by
  have halt := alternating_mergeSweep (if union then 1 else 2) (sortPoints (a ++ b)).1 0
  have hnet := net_mergeSweep (if union then 1 else 2) (sortPoints (a ++ b)).1 0
  rw [net_perm (sortPoints_perm _), net_append, ha.net_eq_zero, hb.net_eq_zero] at hnet
  rw [show decide ((0 : Int) < if union then 1 else 2) = true by cases union <;> rfl] at halt
  rw [merge_eq]
  refine ⟨halt, ?_, chain'_of_sorted ((sortPoints_sorted _).sublist (mergeSweep_sublist _ _ _)) halt⟩
  rw [net_of_alternating halt] at hnet
  cases union <;> simp at hnet ⊢ <;> omega

/-- The merge is exact: it holds the values in both lists for an intersection, in either for a
union. -/
theorem inRanges_merge {a b : List (RangePoint V)} (ha : WellFormed a) (hb : WellFormed b)
    (err : Option String) (union : Bool) (x : Option V) :
    inRanges x (merge err a b union).1 =
      if union then inRanges x a || inRanges x b else inRanges x a && inRanges x b := by
  have hsplit : net (before x (sortPoints (a ++ b)).1) = net (before x a) + net (before x b) := by
    rw [← net_append, ← before_append]
    exact net_perm ((sortPoints_perm _).filter _)
  have hnet : net (before x (merge err a b union).1) =
      if (if union then 1 else 2) ≤ net (before x a) + net (before x b) then 1 else 0 := by
    rw [merge_eq, before_mergeSweep _ _ (sortPoints_sorted _), net_mergeSweep, hsplit]
    cases union <;> simp
  rw [Bool.eq_iff_iff, inRanges_iff_net (merge_wellFormed ha hb err union), hnet,
    net_before_of_pairs x ha.alternating ha.even (pairwise_of_chain' ha.increasing),
    net_before_of_pairs x hb.alternating hb.even (pairwise_of_chain' hb.increasing)]
  cases union <;> cases inRanges x a <;> cases inRanges x b <;> simp

/-- `union` and `intersection` of two well-formed lists are well-formed, and they denote exactly
the union and the intersection of the sets the lists denote. The sort records no error: `CompareDatum`
never fails on the points of a linear order. -/
theorem union_intersection_exact {a b : List (RangePoint V)} (ha : WellFormed a)
    (hb : WellFormed b) (err : Option String) :
    WellFormed (union err a b).1 ∧ WellFormed (intersection err a b).1 ∧
      ∀ x, inRanges x (union err a b).1 = (inRanges x a || inRanges x b) ∧
        inRanges x (intersection err a b).1 = (inRanges x a && inRanges x b) :=
  ⟨merge_wellFormed ha hb err true, merge_wellFormed ha hb err false,
    fun x => ⟨inRanges_merge ha hb err true x, inRanges_merge ha hb err false x⟩⟩

/-- The lists `[1, 3]` and `(2, 5]` are well-formed, so their union and their intersection are
well-formed and exact. -/
theorem union_intersection_exact_overlap :
    WellFormed (V := Int) [{ value := .val 1, start := true }, { value := .val 3 }] ∧
      WellFormed (V := Int) [{ value := .val 2, excl := true, start := true }, { value := .val 5 }] ∧
      (WellFormed (union none [{ value := .val (1 : Int), start := true }, { value := .val 3 }]
          [{ value := .val 2, excl := true, start := true }, { value := .val 5 }]).1 ∧
        WellFormed (intersection none [{ value := .val (1 : Int), start := true }, { value := .val 3 }]
          [{ value := .val 2, excl := true, start := true }, { value := .val 5 }]).1 ∧
        ∀ x, inRanges x (union none [{ value := .val (1 : Int), start := true }, { value := .val 3 }]
            [{ value := .val 2, excl := true, start := true }, { value := .val 5 }]).1 =
            (inRanges x [{ value := .val 1, start := true }, { value := .val 3 }] ||
              inRanges x [{ value := .val 2, excl := true, start := true }, { value := .val 5 }]) ∧
          inRanges x (intersection none [{ value := .val (1 : Int), start := true },
            { value := .val 3 }] [{ value := .val 2, excl := true, start := true },
              { value := .val 5 }]).1 =
            (inRanges x [{ value := .val 1, start := true }, { value := .val 3 }] &&
              inRanges x [{ value := .val 2, excl := true, start := true }, { value := .val 5 }])) :=
  have ha : WellFormed (V := Int) [{ value := .val 1, start := true }, { value := .val 3 }] :=
    ⟨rfl, rfl, List.chain'_pair.2 rfl⟩
  have hb : WellFormed (V := Int) [{ value := .val 2, excl := true, start := true },
      { value := .val 5 }] := ⟨rfl, rfl, List.chain'_pair.2 rfl⟩
  ⟨ha, hb, union_intersection_exact ha hb none⟩

/-! ## The deduplication of `newBuildFromIn` -/

/-- The duplicate check of `newBuildFromIn`: some point has the flag of the one before it, the
first being compared with `false`. -/
def hasDuplicate : Bool → List (RangePoint V) → Bool
  | _, [] => false
  | isStart, p :: ps => isStart == p.start || hasDuplicate p.start ps

/-- The removal loop of `newBuildFromIn`: keep each point whose flag differs from the last one
kept. -/
def distinctPoints : Bool → List (RangePoint V) → List (RangePoint V)
  | _, [] => []
  | isStart, p :: ps =>
    if isStart == p.start then distinctPoints isStart ps else p :: distinctPoints p.start ps

/-- The flag of the last point of `ps`, or `b` if there is none. -/
def lastStart (b : Bool) (ps : List (RangePoint V)) : Bool := ps.foldl (fun _ p => p.start) b

omit [LinearOrder V] in
/-- Without duplicates, the removal loop keeps every point. -/
theorem distinctPoints_of_hasDuplicate : ∀ {b : Bool} {ps : List (RangePoint V)},
    hasDuplicate b ps = false → distinctPoints b ps = ps
  | _, [], _ => rfl
  | b, p :: ps, h => by
    simp only [hasDuplicate, Bool.or_eq_false_iff] at h
    simp [distinctPoints, h.1, distinctPoints_of_hasDuplicate h.2]

omit [LinearOrder V] in
theorem distinctPoints_sublist : ∀ (b : Bool) (ps : List (RangePoint V)),
    (distinctPoints b ps).Sublist ps
  | _, [] => List.Sublist.slnil
  | b, p :: ps => by
    unfold distinctPoints
    split
    · exact (distinctPoints_sublist b ps).cons p
    · exact (distinctPoints_sublist p.start ps).cons₂ p

omit [LinearOrder V] in
theorem alternating_distinctPoints : ∀ (b : Bool) (ps : List (RangePoint V)),
    Alternating (!b) (distinctPoints b ps) = true
  | _, [] => rfl
  | b, p :: ps => by
    unfold distinctPoints
    split
    · exact alternating_distinctPoints b ps
    · have := alternating_distinctPoints p.start ps
      cases b <;> cases hp : p.start <;> simp_all [Alternating]

omit [LinearOrder V] in
/-- The kept points open a range iff the last point read is a start. -/
theorem net_distinctPoints : ∀ (b : Bool) (ps : List (RangePoint V)),
    net (distinctPoints b ps) = (if lastStart b ps then 1 else 0) - (if b then 1 else 0)
  | b, [] => by cases b <;> rfl
  | b, p :: ps => by
    have ih := net_distinctPoints p.start ps
    simp only [distinctPoints, lastStart, List.foldl_cons] at ih ⊢
    rcases p with ⟨_, _, _ | _⟩ <;> cases b <;> simp_all [RangePoint.delta]
    omega

/-- On a sorted list, the kept points below `x` are those kept from the points below `x`. -/
theorem before_distinctPoints (x : Option V) : ∀ (b : Bool) {ps : List (RangePoint V)},
    ps.Pairwise (fun a b => a.key ≤ b.key) →
    before x (distinctPoints b ps) = distinctPoints b (before x ps)
  | _, [], _ => rfl
  | b, p :: ps, hs => by
    by_cases hp : p.key < xKey x
    · rw [before_cons, if_pos hp]
      unfold distinctPoints
      split <;> simp [before_cons, hp, before_distinctPoints x _ hs.of_cons]
    · have hnil : ∀ q ∈ p :: ps, ¬q.key < xKey x := by
        rintro q (_ | ⟨_, hq⟩)
        · exact hp
        · exact fun hq' => hp ((List.rel_of_pairwise_cons hs hq).trans_lt hq')
      rw [before_eq_nil hnil,
        before_eq_nil fun q hq => hnil q ((distinctPoints_sublist _ _).subset hq)]
      rfl

end Gleam.Plan
