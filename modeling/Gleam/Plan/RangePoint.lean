import Gleam.FileSort.Sort
import Mathlib.Order.WithBot
import Mathlib.Data.Prod.Lex
import Mathlib.Data.List.Sort
import Mathlib.Algebra.BigOperators.Group.List
import Mathlib.Algebra.Ring.Int.Defs

/-!
# Range points

A range is a list of `rangePoint`s, read in pairs: a start point and an end point, each
including or excluding its value. Point values are NULL, `MinNotNull`, the values of the column,
and `MaxValue`, ordered `NULL < MinNotNull < values < MaxValue` by `CompareDatum`.
`rangePointLess` breaks ties between points of one value so that, at a value `v`, an excluding
end `v)` comes first, then an including start `[v`, then an including end `v]`, then an
excluding start `(v`.

That order is the lexicographic order of `RangePoint.key`, the value then a rank of the four
kinds. A column value `x` sits at rank `2`, between `[x` and `x]`, so a start covers `x` iff it is
before `x`, and an end covers `x` iff it is after it.

## Main definitions

* `Point`, `RangePoint`, `rangePointLess`: points and their order.
* `inRanges`: the values a point list denotes.
* `WellFormed`: alternating start and end points, beginning with a start, strictly increasing.

## Main results

* `rangePointLess_iff`: `rangePointLess` is the order of the keys.
* `inRanges_iff_odd`: on a well-formed list, `x` is in a range iff an odd number of points lie
  before it.
-/

namespace Gleam.Plan

open Gleam.FileSort

/-- A range point's value: NULL, `MinNotNull`, a value of the column, or `MaxValue`. -/
inductive Point (V : Type) where
  | null
  | minNotNull
  | val (v : V)
  | maxValue
  deriving DecidableEq, Repr

variable {V : Type} [LinearOrder V]

/-- The position of a point value: NULL, `MinNotNull`, the values in their order, `MaxValue`. -/
def Point.toOrd : Point V → Nat ×ₗ WithBot V
  | .null => toLex (0, ⊥)
  | .minNotNull => toLex (1, ⊥)
  | .val v => toLex (2, v)
  | .maxValue => toLex (3, ⊥)

omit [LinearOrder V] in
theorem Point.toOrd_injective : Function.Injective (Point.toOrd : Point V → _) := by
  intro a b h
  cases a <;> cases b <;> simp_all [Point.toOrd]

/-- `CompareDatum` on point values. -/
instance : LinearOrder (Point V) := LinearOrder.lift' Point.toOrd Point.toOrd_injective

theorem Point.lt_iff {a b : Point V} : a < b ↔ a.toOrd < b.toOrd := Iff.rfl

section PointOrder

variable {a b : V}

@[simp] theorem Point.val_lt_val : (Point.val a : Point V) < .val b ↔ a < b := by
  simp [Point.lt_iff, Point.toOrd, Prod.Lex.lt_iff]

@[simp] theorem Point.null_lt_val : (Point.null : Point V) < .val a := by
  simp [Point.lt_iff, Point.toOrd, Prod.Lex.lt_iff]

@[simp] theorem Point.null_lt_minNotNull : (Point.null : Point V) < .minNotNull := by
  simp [Point.lt_iff, Point.toOrd, Prod.Lex.lt_iff]

@[simp] theorem Point.null_lt_maxValue : (Point.null : Point V) < .maxValue := by
  simp [Point.lt_iff, Point.toOrd, Prod.Lex.lt_iff]

@[simp] theorem Point.minNotNull_lt_val : (Point.minNotNull : Point V) < .val a := by
  simp [Point.lt_iff, Point.toOrd, Prod.Lex.lt_iff]

@[simp] theorem Point.minNotNull_lt_maxValue : (Point.minNotNull : Point V) < .maxValue := by
  simp [Point.lt_iff, Point.toOrd, Prod.Lex.lt_iff]

@[simp] theorem Point.val_lt_maxValue : (Point.val a : Point V) < .maxValue := by
  simp [Point.lt_iff, Point.toOrd, Prod.Lex.lt_iff]

@[simp] theorem Point.not_lt_null (p : Point V) : ¬p < .null := by
  cases p <;> simp [Point.lt_iff, Point.toOrd, Prod.Lex.lt_iff]

@[simp] theorem Point.not_maxValue_lt (p : Point V) : ¬Point.maxValue < p := by
  cases p <;> simp [Point.lt_iff, Point.toOrd, Prod.Lex.lt_iff]

@[simp] theorem Point.not_val_lt_minNotNull : ¬(Point.val a : Point V) < .minNotNull := by
  simp [Point.lt_iff, Point.toOrd, Prod.Lex.lt_iff]

end PointOrder

/-- The point value of a column value, NULL included. -/
def Point.ofOption : Option V → Point V
  | some v => .val v
  | none => .null

/-- `rangePoint`: a value, whether it is excluded, and whether it starts a range. The defaults
are Go's zero values; the zero `Datum` is NULL. -/
structure RangePoint (V : Type) where
  value : Point V := .null
  excl : Bool := false
  start : Bool := false
  deriving DecidableEq, Repr

/-- The order of the four kinds of point at one value; a column value has rank `2`. -/
def RangePoint.rank (p : RangePoint V) : Nat :=
  match p.start, p.excl with
  | false, true => 0
  | true, false => 1
  | false, false => 3
  | true, true => 4

/-- A point's position: its value, then its rank. -/
def RangePoint.key (p : RangePoint V) : Point V ×ₗ Nat := toLex (p.value, p.rank)

/-- The position of the column value `x`. -/
def xKey (x : Option V) : Point V ×ₗ Nat := toLex (Point.ofOption x, 2)

/-- `rangePointEqualValueLess`. -/
def rangePointEqualValueLess (a b : RangePoint V) : Bool :=
  if a.start && b.start then !a.excl && b.excl
  else if a.start then !a.excl && !b.excl
  else if b.start then a.excl || b.excl
  else a.excl && !b.excl

/-- `rangePointLess`: by value under `CompareDatum`, then by `rangePointEqualValueLess`. -/
def rangePointLess (a b : RangePoint V) : Bool :=
  match compare a.value b.value with
  | .lt => true
  | .gt => false
  | .eq => rangePointEqualValueLess a b

omit [LinearOrder V] in
theorem rangePointEqualValueLess_eq (a b : RangePoint V) :
    rangePointEqualValueLess a b = decide (a.rank < b.rank) := by
  rcases a with ⟨_, _ | _, _ | _⟩ <;> rcases b with ⟨_, _ | _, _ | _⟩ <;> rfl

@[simp] theorem RangePoint.key_lt_key {a b : RangePoint V} :
    a.key < b.key ↔ a.value < b.value ∨ a.value = b.value ∧ a.rank < b.rank :=
  Prod.Lex.lt_iff _ _

@[simp] theorem RangePoint.key_le_key {a b : RangePoint V} :
    a.key ≤ b.key ↔ a.value < b.value ∨ a.value = b.value ∧ a.rank ≤ b.rank :=
  Prod.Lex.le_iff _ _

theorem RangePoint.key_lt_xKey {p : RangePoint V} {x : Option V} :
    p.key < xKey x ↔ p.value < Point.ofOption x ∨ p.value = Point.ofOption x ∧ p.rank < 2 :=
  Prod.Lex.lt_iff _ _

/-- Between the including start `[v` and the value `v` there are only starts `[v`. -/
theorem RangePoint.start_of_between {p : RangePoint V} {v : Point V} (h1 : toLex (v, 1) ≤ p.key)
    (h2 : p.key < toLex (v, 2)) : p.start = true := by
  simp only [RangePoint.key, Prod.Lex.le_iff, Prod.Lex.lt_iff] at h1 h2
  have hv : p.value = v := by
    rcases h1 with h1 | ⟨h1, -⟩
    · rcases h2 with h2 | ⟨h2, -⟩
      · exact absurd (h1.trans h2) (lt_irrefl _)
      · exact absurd h1 (by rw [h2]; exact lt_irrefl _)
    · exact h1.symm
  simp only [hv, lt_irrefl, false_or, true_and] at h1 h2
  rcases p with ⟨_, _ | _, _ | _⟩ <;> simp_all [RangePoint.rank]

/-- `rangePointLess` is the order of the keys. -/
theorem rangePointLess_iff (a b : RangePoint V) : rangePointLess a b = true ↔ a.key < b.key := by
  simp only [rangePointLess, RangePoint.key, Prod.Lex.lt_iff]
  rcases lt_trichotomy a.value b.value with h | h | h
  · simp [compare_lt_iff_lt.2 h, h]
  · simp [h, rangePointEqualValueLess_eq, compare_eq_iff_eq.2 rfl]
  · simp [compare_gt_iff_gt.2 h, h.not_lt, h.ne']

omit [LinearOrder V] in
/-- A point is its key: the rank tells the four kinds apart. -/
theorem RangePoint.key_injective : Function.Injective (RangePoint.key : RangePoint V → _) := by
  rintro ⟨_, _ | _, _ | _⟩ ⟨_, _ | _, _ | _⟩ h <;> simp_all [key, rank]

omit [LinearOrder V] in
/-- No point sits exactly at a column value. -/
theorem key_ne_xKey (p : RangePoint V) (x : Option V) : p.key ≠ xKey x := by
  intro h
  have := congrArg (fun k => (ofLex k).2) h
  rcases p with ⟨_, _ | _, _ | _⟩ <;> simp [RangePoint.key, xKey, RangePoint.rank] at this

/-! ## The values a point list denotes -/

/-- A start point reaches down to `v`: it is below `v`, or at `v` and includes it. -/
def RangePoint.below (p : RangePoint V) (v : Point V) : Bool :=
  decide (p.value < v ∨ p.value = v ∧ p.excl = false)

/-- An end point reaches up to `v`: it is above `v`, or at `v` and includes it. -/
def RangePoint.above (p : RangePoint V) (v : Point V) : Bool :=
  decide (v < p.value ∨ p.value = v ∧ p.excl = false)

/-- The ranges of a point list, read in pairs of a start and an end point, hold `x`. -/
def inRanges (x : Option V) : List (RangePoint V) → Bool
  | s :: e :: rest => (s.below (Point.ofOption x) && e.above (Point.ofOption x)) || inRanges x rest
  | _ => false

theorem RangePoint.below_eq {p : RangePoint V} (hp : p.start = true) (x : Option V) :
    p.below (Point.ofOption x) = decide (p.key < xKey x) := by
  rcases p with ⟨_, _ | _, _ | _⟩ <;> simp_all [below, key, xKey, rank, Prod.Lex.lt_iff, eq_comm]

theorem RangePoint.above_eq {p : RangePoint V} (hp : p.start = false) (x : Option V) :
    p.above (Point.ofOption x) = decide (xKey x < p.key) := by
  rcases p with ⟨_, _ | _, _ | _⟩ <;> simp_all [above, key, xKey, rank, Prod.Lex.lt_iff, eq_comm]

/-! ## Well-formed point lists -/

/-- The flags of the points alternate, the first being `b`. -/
def Alternating : Bool → List (RangePoint V) → Bool
  | _, [] => true
  | b, p :: ps => p.start == b && Alternating (!b) ps

/-- A well-formed point list: alternating start and end points beginning with a start, of even
length, strictly increasing under `rangePointLess`. -/
structure WellFormed (ps : List (RangePoint V)) : Prop where
  alternating : Alternating true ps = true
  even : ps.length % 2 = 0
  increasing : ps.Chain' fun a b => rangePointLess a b = true

/-- A start point counts `1`, an end point `-1`. -/
def RangePoint.delta (p : RangePoint V) : Int := if p.start then 1 else -1

/-- The number of ranges open after the points `ps`: starts less ends. -/
def net (ps : List (RangePoint V)) : Int := (ps.map RangePoint.delta).sum

/-- The points of `ps` below the column value `x`. -/
def before (x : Option V) (ps : List (RangePoint V)) : List (RangePoint V) :=
  ps.filter fun p => p.key < xKey x

omit [LinearOrder V] in
@[simp] theorem net_nil : net ([] : List (RangePoint V)) = 0 := rfl

omit [LinearOrder V] in
@[simp] theorem net_cons (p : RangePoint V) (ps : List (RangePoint V)) :
    net (p :: ps) = p.delta + net ps := by
  simp [net]

omit [LinearOrder V] in
@[simp] theorem net_append (ps qs : List (RangePoint V)) : net (ps ++ qs) = net ps + net qs := by
  simp [net]

omit [LinearOrder V] in
theorem net_perm {ps qs : List (RangePoint V)} (h : ps.Perm qs) : net ps = net qs :=
  (h.map _).sum_eq

omit [LinearOrder V] in
/-- An alternating list opens one range if it has odd length, none if even. -/
theorem net_of_alternating : ∀ {b : Bool} {ps : List (RangePoint V)}, Alternating b ps = true →
    net ps = (if b then 1 else -1) * (ps.length % 2 : Nat)
  | _, [], _ => by simp
  | b, p :: ps, h => by
    rw [Alternating, Bool.and_eq_true, beq_iff_eq] at h
    rw [net_cons, net_of_alternating h.2, RangePoint.delta, h.1]
    cases b <;> simp <;> omega

theorem WellFormed.net_eq_zero {ps : List (RangePoint V)} (hw : WellFormed ps) : net ps = 0 := by
  simp [net_of_alternating hw.alternating, hw.even]

@[simp] theorem before_append (x : Option V) (ps qs : List (RangePoint V)) :
    before x (ps ++ qs) = before x ps ++ before x qs :=
  List.filter_append _ _

theorem before_cons (x : Option V) (p : RangePoint V) (ps : List (RangePoint V)) :
    before x (p :: ps) = if p.key < xKey x then p :: before x ps else before x ps := by
  by_cases h : p.key < xKey x
  · rw [if_pos h]
    exact List.filter_cons_of_pos (decide_eq_true h)
  · rw [if_neg h]
    exact List.filter_cons_of_neg fun h' => h (of_decide_eq_true h')

theorem before_eq_nil {x : Option V} {ps : List (RangePoint V)} (h : ∀ p ∈ ps, ¬p.key < xKey x) :
    before x ps = [] :=
  List.filter_eq_nil_iff.2 fun p hp => by simpa using h p hp

theorem inRanges_eq_false {x : Option V} : ∀ {ps : List (RangePoint V)},
    Alternating true ps = true → (∀ p ∈ ps, xKey x < p.key) → inRanges x ps = false
  | [], _, _ | [_], _, _ => rfl
  | s :: e :: rest, ha, h => by
    simp only [Alternating, Bool.and_eq_true, beq_iff_eq, Bool.not_true, Bool.not_false] at ha
    have hs : s.below (Point.ofOption x) = false := by
      simpa [RangePoint.below_eq ha.1] using (h s (List.mem_cons_self _ _)).le
    simp only [inRanges, hs, Bool.false_and, Bool.false_or]
    exact inRanges_eq_false ha.2.2 fun p hp => h p (List.mem_cons_of_mem _ (List.mem_cons_of_mem _ hp))

/-- A strictly increasing list is increasing between any two of its points. -/
theorem pairwise_of_chain' {ps : List (RangePoint V)}
    (h : ps.Chain' fun a b => rangePointLess a b = true) : ps.Pairwise fun a b => a.key < b.key := by
  haveI : IsTrans (RangePoint V) fun a b => a.key < b.key := ⟨fun _ _ _ => lt_trans⟩
  exact List.chain'_iff_pairwise.1 (h.imp fun a b hab => (rangePointLess_iff a b).1 hab)

/-- On a well-formed list, the points below `x` open one range if `x` is in one, none otherwise:
their starts less their ends. -/
theorem net_before_of_pairs (x : Option V) : ∀ {ps : List (RangePoint V)},
    Alternating true ps = true → ps.length % 2 = 0 → ps.Pairwise (fun a b => a.key < b.key) →
    net (before x ps) = if inRanges x ps then 1 else 0
  | [], _, _, _ => rfl
  | [_], _, hl, _ => by simp at hl
  | s :: e :: rest, ha, hl, hp => by
    simp only [Alternating, Bool.and_eq_true, beq_iff_eq, Bool.not_true, Bool.not_false] at ha
    obtain ⟨hs, he, ha⟩ := ha
    simp only [List.pairwise_cons, List.mem_cons, forall_eq_or_imp] at hp
    obtain ⟨⟨hse, -⟩, her, hp⟩ := hp
    have ih := net_before_of_pairs x ha (by simp at hl; omega) hp
    simp only [inRanges, RangePoint.below_eq hs, RangePoint.above_eq he]
    rcases lt_or_gt_of_ne (key_ne_xKey e x) with hex | hxe
    · -- both points are below `x`: the pair closes before it
      have hsx := hse.trans hex
      simp [before_cons, hsx, hex, hex.not_lt, RangePoint.delta, hs, he, ih]
    · have hrest := before_eq_nil fun p hp => (hxe.trans (her p hp)).not_lt
      rcases lt_or_gt_of_ne (key_ne_xKey s x) with hsx | hxs
      · -- `x` lies in the pair
        simp [before_cons, hsx, hxe, hxe.not_lt, RangePoint.delta, hs, hrest]
      · -- `x` is below the pair and everything after it
        have hfalse := inRanges_eq_false (x := x) ha fun p hp => hxe.trans (her p hp)
        simp [before_cons, hxs.not_lt, hxe.not_lt, hrest, hfalse]

/-- Membership by counting: on a well-formed list, `x` is in a range iff the points below it
open one. -/
theorem inRanges_iff_net {ps : List (RangePoint V)} (hw : WellFormed ps) (x : Option V) :
    inRanges x ps = true ↔ net (before x ps) = 1 := by
  rw [net_before_of_pairs x hw.alternating hw.even (pairwise_of_chain' hw.increasing)]
  split <;> simp_all

/-- An alternating list that is sorted is strictly increasing: neighbours have different flags,
so different keys. -/
theorem chain'_of_sorted {b : Bool} : ∀ {ps : List (RangePoint V)},
    ps.Pairwise (fun a b => a.key ≤ b.key) → Alternating b ps = true →
    ps.Chain' fun a b => rangePointLess a b = true
  | [], _, _ => List.chain'_nil
  | [_], _, _ => List.chain'_singleton _
  | p :: q :: rest, hs, ha => by
    rw [Alternating, Bool.and_eq_true, beq_iff_eq] at ha
    have hq : q.start = !b := by simp [Alternating] at ha; exact ha.2.1
    have hne : p.key ≠ q.key := fun h => by
      have := congrArg RangePoint.start (RangePoint.key_injective h)
      cases b <;> simp_all
    exact .cons ((rangePointLess_iff p q).2 (lt_of_le_of_ne
      (List.rel_of_pairwise_cons hs (List.mem_cons_self _ _)) hne)) (chain'_of_sorted hs.of_cons ha.2)

/-! ## Sorting the points -/

/-- `rangePointLess` is a strict weak order, as `sort.Sort` requires of `Less`. -/
theorem rangePointLess_strictWeakOn :
    StrictWeakOn (fun a b : RangePoint V => verdict (.ok (rangePointLess a b))) fun _ => True where
  irrefl a _ := Bool.eq_false_iff.2 fun h => lt_irrefl _ ((rangePointLess_iff a a).1 h)
  trans a b c _ _ _ hab hbc := (rangePointLess_iff a c).2
    (((rangePointLess_iff a b).1 hab).trans ((rangePointLess_iff b c).1 hbc))
  negTrans a b c _ _ _ hac := by
    simp only [verdict, captureLess, rangePointLess_iff] at *
    exact (lt_or_le a.key b.key).imp_right fun h => h.trans_lt hac

/-- `sort.Sort(&rangePointSorter{points: ps})`: Go's insertion sort under `rangePointLess`, with
the error its `Less` records. -/
def sortPoints (ps : List (RangePoint V)) : List (RangePoint V) × Option String :=
  insertionSort (fun a b => .ok (rangePointLess a b)) ps none

theorem sortPoints_perm (ps : List (RangePoint V)) : (sortPoints ps).1.Perm ps :=
  insertionSort_perm ps none

/-- `CompareDatum` on a linear order never fails, so the sort records no error. -/
@[simp] theorem sortPoints_err (ps : List (RangePoint V)) : (sortPoints ps).2 = none :=
  insertionSort_err_of_ok ps none fun _ _ _ _ => ⟨_, rfl⟩

theorem sortPoints_sorted (ps : List (RangePoint V)) :
    (sortPoints ps).1.Pairwise fun a b => a.key ≤ b.key :=
  (insertionSort_sorted rangePointLess_strictWeakOn none fun _ _ => trivial).imp fun h =>
    not_lt.1 fun hlt => by simp [verdict, captureLess, (rangePointLess_iff _ _).2 hlt] at h

/-- Points with equal keys are equal, so every sort of `ps` gives the list `sortPoints` gives: the
insertion sort stands for any `sort.Sort`. -/
theorem eq_sortPoints_of_sorted {ps qs : List (RangePoint V)} (hp : qs.Perm ps)
    (hs : qs.Pairwise fun a b => a.key ≤ b.key) : qs = (sortPoints ps).1 := by
  haveI : IsAntisymm (RangePoint V) fun a b => a.key ≤ b.key :=
    ⟨fun _ _ hab hba => RangePoint.key_injective (le_antisymm hab hba)⟩
  exact List.eq_of_perm_of_sorted (hp.trans (sortPoints_perm ps).symm) hs (sortPoints_sorted ps)

end Gleam.Plan
