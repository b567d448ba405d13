import Gleam.Plan.IndexRange

/-!
# Ranges of a multi-column index: `appendIndexRanges`

`buildIndexRanges` builds the ranges of an index's first column. For an index over several
columns, `appendIndexRanges` then extends them with the ranges of the next column, and only the
point ranges (`a = 1`): a range `a > 1` is kept as it is, since `a > 1 and b = 2` is no range of
the index's keys. A point's range is replaced by one range per pair of the next column's points,
built as `buildIndexRanges` builds it, with the point's values put in front.

An `IndexRange` of several columns is scanned over the index keys, ordered as their encodings
are: column by column (`keyCompare`). A range over `k` columns admits the keys whose first `k`
columns lie between its ends (`MultiIndexRange.admits`). `IndexRange.IsPoint` is not part of this
repository: the results assume of it what `PointSound` states.

## Main definitions

* `MultiIndexRange`, `MultiIndexRange.admits`: a range of the first columns of an index and the
  keys it admits.
* `appendIndexRange`, `appendIndexRanges`.

## Main results

* `admits_toMulti`: on one column, the keys a range admits are the values `IndexRange.admits`.
* `appendIndexRange_eq`: `appendIndexRange` is `buildIndexRanges` with the point in front.
* `appendIndexRanges_exact`: the appended ranges admit exactly the keys the origin ranges admit
  whose next column, below a point range, is in the point list.
-/

namespace Gleam.Plan

open Gleam.FileSort

/-- `IndexRange` of the first columns of an index: `LowVal` and `HighVal` hold one datum per
column, each end excluded or not. -/
structure MultiIndexRange where
  lowVal : List (Point Int)
  lowExclude : Bool
  highVal : List (Point Int)
  highExclude : Bool
  deriving DecidableEq, Repr

/-- The order of index keys, as the scan compares their encodings: column by column, the first
column that differs deciding, and a proper prefix first. -/
def keyCompare : List (Point Int) → List (Point Int) → Ordering
  | [], [] => .eq
  | [], _ :: _ => .lt
  | _ :: _, [] => .gt
  | a :: as, b :: bs => (compare a b).then (keyCompare as bs)

/-- A bound compared with a key as `o` reaches the key: it is below the key, or equal to it and
not excluded. -/
def reaches : Ordering → Bool → Bool
  | .lt, _ => true
  | .eq, excl => !excl
  | .gt, _ => false

/-- The keys the range scans: their first columns, as many as `LowVal` has, are reached by
`LowVal`, and their first columns, as many as `HighVal` has, reach up to `HighVal`. -/
def MultiIndexRange.admits (r : MultiIndexRange) (key : List (Point Int)) : Bool :=
  reaches (keyCompare r.lowVal (key.take r.lowVal.length)) r.lowExclude &&
    reaches (keyCompare (key.take r.highVal.length) r.highVal) r.highExclude

/-! ## The order of keys -/

/-- Keys compared on a common prefix length: the prefixes decide, then the rest. -/
theorem keyCompare_append :
    ∀ {a b : List (Point Int)} (c d : List (Point Int)), a.length = b.length →
    keyCompare (a ++ c) (b ++ d) = (keyCompare a b).then (keyCompare c d)
  | [], [], _, _, _ => rfl
  | x :: a, y :: b, c, d, h => by
    rw [List.cons_append, List.cons_append, keyCompare, keyCompare,
      keyCompare_append c d (by simpa using h)]
    cases compare x y <;> rfl

theorem keyCompare_swap : ∀ a b : List (Point Int), (keyCompare a b).swap = keyCompare b a
  | [], [] => rfl
  | [], _ :: _ => rfl
  | _ :: _, [] => rfl
  | x :: a, y :: b => by
    rw [keyCompare, keyCompare, Ordering.swap_then, keyCompare_swap a b, ← cmp_eq_compare,
      ← cmp_eq_compare, cmp_swap]

theorem keyCompare_eq_eq : ∀ {a b : List (Point Int)}, keyCompare a b = .eq ↔ a = b
  | [], [] => by simp [keyCompare]
  | [], _ :: _ => by simp [keyCompare]
  | _ :: _, [] => by simp [keyCompare]
  | x :: a, y :: b => by
    have hxy := compare_eq_iff_eq (a := x) (b := y)
    rw [keyCompare, List.cons.injEq, ← keyCompare_eq_eq (a := a)]
    rcases h : compare x y <;> simp_all [Ordering.then]

theorem reaches_compare (a b : Point Int) (excl : Bool) :
    reaches (compare a b) excl = decide (a < b ∨ a = b ∧ excl = false) := by
  rcases lt_trichotomy a b with h | rfl | h
  · simp [reaches, compare_lt_iff_lt.2 h, h]
  · simp [reaches, compare_eq_iff_eq.2 rfl]
  · simp [reaches, compare_gt_iff_gt.2 h, h.not_lt, h.ne']

theorem then_eq (o : Ordering) : o.then .eq = o := by cases o <;> rfl

/-- Two bounds that include a key from both sides meet at it. -/
theorem reaches_swap (o : Ordering) :
    (reaches o false && reaches o.swap false) = decide (o = .eq) := by
  cases o <;> rfl

/-- Bounds that extend a common prefix reach a key that extends it only through the prefix. -/
theorem reaches_then (o o₁ o₂ : Ordering) (e₁ e₂ : Bool) :
    (reaches (o.then o₁) e₁ && reaches (o.swap.then o₂) e₂) =
      (decide (o = .eq) && reaches o₁ e₁ && reaches o₂ e₂) := by
  cases o <;> rfl

theorem decide_keyCompare_eq (a b : List (Point Int)) :
    decide (keyCompare a b = .eq) = decide (b = a) :=
  decide_eq_decide.2 (keyCompare_eq_eq.trans eq_comm)

/-! ## Point ranges and their extension -/

/-- The range `appendIndexRange` builds from `origin` and a range `r` of the next column:
`origin`'s values followed by `r`'s, with `r`'s flags. -/
def MultiIndexRange.extend (o : MultiIndexRange) (r : IndexRange) : MultiIndexRange :=
  ⟨o.lowVal ++ [r.lowVal], r.lowExclude, o.highVal ++ [r.highVal], r.highExclude⟩

/-- What the results assume of `IndexRange.IsPoint`, which is not part of this repository: a
range it calls a point has the same values at both ends and excludes neither. -/
def PointSound (isPoint : MultiIndexRange → Bool) : Prop :=
  ∀ r, isPoint r = true →
    r.lowVal = r.highVal ∧ r.lowExclude = false ∧ r.highExclude = false

/-- A point range admits exactly the keys that start with its values. -/
theorem admits_of_point {r : MultiIndexRange} (hv : r.lowVal = r.highVal)
    (hl : r.lowExclude = false) (hh : r.highExclude = false) {pre rest : List (Point Int)}
    (hlen : pre.length = r.lowVal.length) :
    r.admits (pre ++ rest) = decide (pre = r.lowVal) := by
  have htake : (pre ++ rest).take pre.length = pre := List.take_left' rfl
  rw [MultiIndexRange.admits, ← hv, hl, hh, ← hlen, htake, ← keyCompare_swap r.lowVal pre,
    reaches_swap, decide_keyCompare_eq]

/-- An extended point range admits a key iff the key starts with the point and the next column
is in the one-column range. -/
theorem admits_extend {o : MultiIndexRange} (hv : o.lowVal = o.highVal) (r : IndexRange)
    {pre rest : List (Point Int)} {n : Int} (hlen : pre.length = o.lowVal.length) :
    (o.extend r).admits (pre ++ .val n :: rest) = (decide (pre = o.lowVal) && r.admits n) := by
  have htake : (pre ++ .val n :: rest).take (pre.length + 1) = pre ++ [.val n] := by
    simp [List.take_append_eq_append_take]
  simp only [MultiIndexRange.admits, MultiIndexRange.extend, List.length_append, ← hv,
    List.length_singleton, ← hlen, htake]
  rw [keyCompare_append _ _ hlen.symm, keyCompare_append _ _ hlen, ← keyCompare_swap o.lowVal pre,
    reaches_then, decide_keyCompare_eq, Bool.and_assoc]
  simp only [keyCompare, then_eq, reaches_compare, IndexRange.admits, RangePoint.below,
    RangePoint.above, eq_comm]

/-- The `IndexRange` `buildIndexRanges` builds, as the source has it: one datum in `LowVal` and
one in `HighVal`. -/
def IndexRange.toMulti (r : IndexRange) : MultiIndexRange :=
  ⟨[r.lowVal], r.lowExclude, [r.highVal], r.highExclude⟩

/-- On the first column, a range admits the keys whose first value `IndexRange.admits`. -/
theorem admits_toMulti (r : IndexRange) (n : Int) (rest : List (Point Int)) :
    r.toMulti.admits (.val n :: rest) = r.admits n := by
  simp only [MultiIndexRange.admits, IndexRange.toMulti, List.length_singleton, List.take_succ_cons,
    List.take_zero, keyCompare, then_eq, reaches_compare, IndexRange.admits, RangePoint.below,
    RangePoint.above, eq_comm]

section Append

variable {V : Type} [LinearOrder V] (intVal : Int → V) (convertTo : V → Int)

/-- `appendIndexRange`: the points are read two at a time and converted as in
`buildIndexRanges`; each pair whose converted start is below its converted end gives `origin`'s
values followed by the pair's, with the pair's flags. -/
def appendIndexRange (origin : MultiIndexRange) :
    List (RangePoint V) → Except Failure (List MultiIndexRange)
  | [] => .ok []
  | [_] => .error (.panic "index out of range")
  | s :: e :: rest => do
    let startPoint := convertPoint intVal convertTo s
    let endPoint := convertPoint intVal convertTo e
    let newRanges ← appendIndexRange origin rest
    return if !rangePointLess startPoint endPoint then newRanges
      else ⟨origin.lowVal ++ [startPoint.value], startPoint.excl,
        origin.highVal ++ [endPoint.value], endPoint.excl⟩ :: newRanges

/-- `appendIndexRanges`: a range that is not a point is kept as it is; a point range is replaced
by `appendIndexRange`'s ranges for it. -/
def appendIndexRanges (isPoint : MultiIndexRange → Bool) :
    List MultiIndexRange → List (RangePoint V) → Except Failure (List MultiIndexRange)
  | [], _ => .ok []
  | oRange :: origin, rangePoints => do
    let newRanges ← if !isPoint oRange then pure [oRange]
      else appendIndexRange intVal convertTo oRange rangePoints
    let rest ← appendIndexRanges isPoint origin rangePoints
    return newRanges ++ rest

/-- `appendIndexRange` is `buildIndexRanges` with `origin`'s values put in front. -/
theorem appendIndexRange_eq (o : MultiIndexRange) : ∀ ps : List (RangePoint V),
    appendIndexRange intVal convertTo o ps =
      List.map o.extend <$> buildIndexRanges intVal convertTo ps
  | [] => rfl
  | [_] => rfl
  | s :: e :: rest => by
    rw [appendIndexRange, buildIndexRanges, appendIndexRange_eq o rest]
    cases buildIndexRanges intVal convertTo rest with
    | error => rfl
    | ok rs =>
      cases rangePointLess (convertPoint intVal convertTo s) (convertPoint intVal convertTo e) <;>
        rfl

variable {intVal convertTo}

/-- The ranges `appendIndexRange` appends to a point admit exactly the keys that start with the
point and whose next column is in the point list. -/
theorem appendIndexRange_exact (h : RoundsToInt64 intVal convertTo) {o : MultiIndexRange}
    (hv : o.lowVal = o.highVal) {ps : List (RangePoint V)} (hw : WellFormed ps) :
    ∃ rs, appendIndexRange intVal convertTo o ps = .ok rs ∧
      (∀ r ∈ rs, r.lowVal.length = o.lowVal.length + 1) ∧
      ∀ pre n rest, pre.length = o.lowVal.length → InInt64 n →
        ((∃ r ∈ rs, r.admits (pre ++ .val n :: rest)) ↔
          pre = o.lowVal ∧ inRanges (some (intVal n)) ps = true) := by
  obtain ⟨irs, hb, hex⟩ := buildIndexRanges_of_pairs h hw.alternating hw.even
  refine ⟨irs.map o.extend, by rw [appendIndexRange_eq, hb]; rfl, ?_,
    fun pre n rest hpre hn => ?_⟩
  · simp [MultiIndexRange.extend]
  · simp only [List.mem_map, exists_exists_and_eq_and, admits_extend hv _ hpre, Bool.and_eq_true,
      decide_eq_true_eq, ← hex n hn]
    constructor
    · rintro ⟨r, hr, rfl, hadm⟩; exact ⟨rfl, r, hr, hadm⟩
    · rintro ⟨rfl, r, hr, hadm⟩; exact ⟨r, hr, rfl, hadm⟩

/-- `appendIndexRanges_exact`, by induction on the origin ranges. -/
theorem appendIndexRanges_spec (h : RoundsToInt64 intVal convertTo)
    {isPoint : MultiIndexRange → Bool} (hpt : PointSound isPoint) {ps : List (RangePoint V)}
    (hw : WellFormed ps) {m : Nat} :
    ∀ {origin : List MultiIndexRange},
      (∀ o ∈ origin, isPoint o = true → o.lowVal.length = m) →
      ∃ rs, appendIndexRanges intVal convertTo isPoint origin ps = .ok rs ∧
        (∀ r ∈ rs, isPoint r = true → r.lowVal.length = m + 1) ∧
        ∀ pre n rest, pre.length = m → InInt64 n →
          ((∃ r ∈ rs, r.admits (pre ++ .val n :: rest)) ↔
            ∃ o ∈ origin, o.admits (pre ++ .val n :: rest) ∧
              (isPoint o = true → inRanges (some (intVal n)) ps = true))
  | [], _ => ⟨[], rfl, by simp, by simp⟩
  | o :: origin, hm => by
    obtain ⟨rs, hrs, hlen, hex⟩ :=
      appendIndexRanges_spec h hpt hw fun o' ho' => hm o' (List.mem_cons_of_mem _ ho')
    cases hp : isPoint o
    · refine ⟨o :: rs, by simp [appendIndexRanges, hp, hrs], ?_, ?_⟩
      · rintro r (_ | ⟨_, hr⟩) hr'
        exacts [absurd hr' (by simp [hp]), hlen r hr hr']
      · intro pre n rest hpre hn
        simp [hex pre n rest hpre hn, hp]
    · obtain ⟨hv, hl, hh⟩ := hpt o hp
      have hmo := hm o (List.mem_cons_self _ _) hp
      obtain ⟨rs', hrs', hlen', hex'⟩ := appendIndexRange_exact h hv hw
      refine ⟨rs' ++ rs, by simp [appendIndexRanges, hp, hrs', hrs]; rfl, ?_, ?_⟩
      · intro r hr hr'
        rcases List.mem_append.1 hr with hr | hr
        exacts [(hlen' r hr).trans (by rw [hmo]), hlen r hr hr']
      · intro pre n rest hpre hn
        have hpre' : pre.length = o.lowVal.length := hpre.trans hmo.symm
        simp only [List.mem_append, List.mem_cons, or_and_right, exists_or, exists_eq_left,
          hex' pre n rest hpre' hn, hex pre n rest hpre hn, admits_of_point hv hl hh hpre', hp,
          decide_eq_true_eq, forall_const]

/-- Appending the ranges of the next index column loses no key and adds none. On a well-formed
point list, whose values `ConvertTo` rounds to a nearest `int64`, with the point ranges all over
the first `m` columns, `appendIndexRanges` succeeds; its point ranges are over the first `m + 1`
columns; and it admits exactly the keys some origin range admits whose next column, where that
range is a point, is in the point list. -/
theorem appendIndexRanges_exact (h : RoundsToInt64 intVal convertTo)
    {isPoint : MultiIndexRange → Bool} (hpt : PointSound isPoint) {ps : List (RangePoint V)}
    (hw : WellFormed ps) {m : Nat} :
    ∀ {origin : List MultiIndexRange},
      (∀ o ∈ origin, isPoint o = true → o.lowVal.length = m) →
      ∃ rs, appendIndexRanges intVal convertTo isPoint origin ps = .ok rs ∧
        (∀ r ∈ rs, isPoint r = true → r.lowVal.length = m + 1) ∧
        ∀ pre n rest, pre.length = m → InInt64 n →
          ((∃ r ∈ rs, r.admits (pre ++ .val n :: rest)) ↔
            ∃ o ∈ origin, o.admits (pre ++ .val n :: rest) ∧
              (isPoint o = true → inRanges (some (intVal n)) ps = true)) :=
  appendIndexRanges_spec h hpt hw

end Append

/-- `a = 1 or a > 3` on the first column of an index `(a, b)`, then `b >= 5`: the point `a = 1`
is extended to `(1, 5) .. (1, MaxValue)`, and `a > 3` is kept. -/
theorem appendIndexRanges_exact_point_or_gt :
    let isPoint : MultiIndexRange → Bool := fun r =>
      decide (r.lowVal = r.highVal) && !r.lowExclude && !r.highExclude
    let origin : List MultiIndexRange :=
      [⟨[.val 1], false, [.val 1], false⟩, ⟨[.val 3], true, [.maxValue], false⟩]
    let ps : List (RangePoint Int) := [{ value := .val 5, start := true }, { value := .maxValue }]
    RoundsToInt64 id clampInt64 ∧ PointSound isPoint ∧ WellFormed ps ∧
      (∀ o ∈ origin, isPoint o = true → o.lowVal.length = 1) ∧
      ∃ rs, appendIndexRanges id clampInt64 isPoint origin ps = .ok rs ∧
        (∀ r ∈ rs, isPoint r = true → r.lowVal.length = 1 + 1) ∧
        ∀ pre n rest, pre.length = 1 → InInt64 n →
          ((∃ r ∈ rs, r.admits (pre ++ .val n :: rest)) ↔
            ∃ o ∈ origin, o.admits (pre ++ .val n :: rest) ∧
              (isPoint o = true → inRanges (some (id n)) ps = true)) := by
  intro isPoint origin ps
  have hpt : PointSound isPoint := fun r hr => by
    simp only [isPoint, Bool.and_eq_true, decide_eq_true_eq, Bool.not_eq_true'] at hr
    exact ⟨hr.1.1, hr.1.2, hr.2⟩
  have hw : WellFormed ps := ⟨rfl, by decide, List.chain'_pair.2 rfl⟩
  have hm : ∀ o ∈ origin, isPoint o = true → o.lowVal.length = 1 := by decide
  exact ⟨roundsToInt64_clampInt64, hpt, hw, hm,
    appendIndexRanges_exact roundsToInt64_clampInt64 hpt hw hm⟩

end Gleam.Plan
