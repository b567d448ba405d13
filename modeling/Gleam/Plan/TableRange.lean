import Gleam.Plan.RangePoint

/-!
# Table ranges: `rangeBuilder.buildTableRanges`

`buildTableRanges` turns the point list of a condition on an `int64` handle column into
`TableRange`s, the handles from `LowVal` to `HighVal`. For each pair of points it replaces a NULL
or `MinNotNull` start by `MinInt64`, converts it with `ToInt64`, and adds one when the start
excludes its value; it replaces a NULL end by `MinInt64` and a `MaxValue` end by `MaxInt64`,
converts it, and subtracts one when the end excludes its value. A pair whose start ends up above
its end gives no range.

The `++` and `--` are Go's `int64` arithmetic, which wraps (`wrap64`), and they are made after
the special values have been replaced, so they also move NULL, `MinNotNull` and `MaxValue`
bounds. Bounds that avoid these edge cases (`tameStart`, `tameEnd`) are converted exactly.

The `types` package is not in the source: `toInt64` is `Datum.ToInt64` on the point values of an
`int64` column, which converts a handle to itself and fails on the kinds that are not numbers.

## Main definitions

* `TableRange`, `TableRange.admits`: a range of handles and the handles it holds.
* `buildTableRanges`: the ranges of a point list, and the builder's error.
* `TamePairs`: every start and end of the list is converted without an edge case.

## Main results

* `buildTableRanges_lowVal_le_highVal`: no range returned is empty.
* `buildTableRanges_exact`: on a list of tame pairs the handles admitted are the values the list
  denotes.
* `buildTableRanges_edge_cases`: where an exclusive bound sits at an end of `int64`, or a bound is
  NULL, the ranges admit handles the list does not denote, or miss handles it does.
-/

namespace Gleam.Plan

open Gleam.FileSort

/-- `math.MinInt64`. -/
def minInt64 : Int := -9223372036854775808

/-- `math.MaxInt64`. -/
def maxInt64 : Int := 9223372036854775807

/-- A value of `int64`. -/
def InInt64 (x : Int) : Prop := minInt64 ≤ x ∧ x ≤ maxInt64

instance : DecidablePred InInt64 := fun _ => inferInstanceAs (Decidable (_ ∧ _))

/-- Two's-complement `int64` arithmetic: the result taken modulo `2^64` into `int64`. -/
def wrap64 (x : Int) : Int := (x + 9223372036854775808) % 18446744073709551616 - 9223372036854775808

theorem wrap64_of_inInt64 {x : Int} (h : InInt64 x) : wrap64 x = x := by
  unfold InInt64 minInt64 maxInt64 at h; unfold wrap64; omega

/-- `TableRange`: the handles from `LowVal` to `HighVal`, both included. -/
structure TableRange where
  lowVal : Int
  highVal : Int
  deriving DecidableEq, Repr

/-- The handle `h` lies in the range. -/
def TableRange.admits (r : TableRange) (h : Int) : Bool := decide (r.lowVal ≤ h ∧ h ≤ r.highVal)

/-- `Datum.ToInt64` on the point values of an `int64` column: a handle converts to itself, the
other kinds cannot be converted. -/
def toInt64 : Point Int → Except String Int
  | .val v => .ok v
  | _ => .error "cannot convert to int64"

/-- A start value after `SetInt64(math.MinInt64)` for NULL and `MinNotNull`. -/
def startValue (v : Point Int) : Point Int :=
  if v = .null ∨ v = .minNotNull then .val minInt64 else v

/-- An end value after `SetInt64(math.MinInt64)` for NULL and `SetInt64(math.MaxInt64)` for
`MaxValue`. -/
def endValue (v : Point Int) : Point Int :=
  if v = .null then .val minInt64 else if v = .maxValue then .val maxInt64 else v

/-- `startInt`: the converted start value, one more when the conversion rounded down or the start
excludes its value. -/
def startInt (p : RangePoint Int) : Except String Int := do
  let value := startValue p.value
  let startInt ← toInt64 value
  let cmp := compare (Point.val startInt) value
  return if cmp = .lt ∨ cmp = .eq ∧ p.excl then wrap64 (startInt + 1) else startInt

/-- `endInt`: the converted end value, one less when the conversion rounded up or the end
excludes its value. -/
def endInt (p : RangePoint Int) : Except String Int := do
  let value := endValue p.value
  let endInt ← toInt64 value
  let cmp := compare (Point.val endInt) value
  return if cmp = .gt ∨ cmp = .eq ∧ p.excl then wrap64 (endInt - 1) else endInt

/-- `buildTableRanges`: the points are read two at a time. A failed conversion sets the builder's
error and returns the ranges built so far; a pair whose start is above its end is skipped. A last
point without its pair is converted as a start, and then its end is indexed past the end of the
slice. -/
def buildTableRanges (err : Option String) :
    List (RangePoint Int) → Except Failure (List TableRange × Option String)
  | [] => .ok ([], err)
  | [s] =>
    match startInt s with
    | .error m => .ok ([], some m)
    | .ok _ => .error (.panic "index out of range")
  | s :: e :: rest =>
    match startInt s, endInt e with
    | .error m, _ => .ok ([], some m)
    | .ok _, .error m => .ok ([], some m)
    | .ok lo, .ok hi => do
      let (tableRanges, err) ← buildTableRanges err rest
      return (if lo > hi then tableRanges else ⟨lo, hi⟩ :: tableRanges, err)

/-! ## The ranges returned are never empty -/

/-- Every range `buildTableRanges` returns holds a handle: `LowVal ≤ HighVal`. -/
theorem buildTableRanges_lowVal_le_highVal : ∀ {err : Option String} {ps : List (RangePoint Int)}
    {rs : List TableRange} {err' : Option String}, buildTableRanges err ps = .ok (rs, err') →
    ∀ r ∈ rs, r.lowVal ≤ r.highVal
  | _, [], _, _, h => by cases h; simp
  | _, [s], _, _, h => by
    rcases hs : startInt s with m | lo <;> simp only [buildTableRanges, hs, reduceCtorEq] at h
    simp [← (Prod.mk.inj (Except.ok.inj h)).1]
  | err, s :: e :: rest, rs, err', h => by
    rcases hs : startInt s with m | lo <;> rcases he : endInt e with m' | hi <;>
      simp only [buildTableRanges, hs, he, Except.ok.injEq, Prod.mk.injEq] at h
    · simp [← h.1]
    · simp [← h.1]
    · simp [← h.1]
    rcases hr : buildTableRanges err rest with f | ⟨rs', err''⟩ <;> rw [hr] at h
    · cases h
    have ih := buildTableRanges_lowVal_le_highVal hr
    simp only [bind, Except.bind, pure, Except.pure, Except.ok.injEq, Prod.mk.injEq] at h
    rw [← h.1]
    split
    · exact ih
    · simp only [List.mem_cons, forall_eq_or_imp]
      exact ⟨by omega, ih⟩

/-! ## Tame bounds are converted exactly -/

/-- A start point `buildTableRanges` converts without an edge case: NULL or `MinNotNull`
included, or a handle that the start includes or that is below `MaxInt64`. -/
def tameStart (p : RangePoint Int) : Bool :=
  match p.value with
  | .null | .minNotNull => !p.excl
  | .val v => decide (InInt64 v ∧ (p.excl = true → v < maxInt64))
  | .maxValue => false

/-- An end point `buildTableRanges` converts without an edge case: `MaxValue` included, or a
handle that the end includes or that is above `MinInt64`. -/
def tameEnd (p : RangePoint Int) : Bool :=
  match p.value with
  | .null | .minNotNull => false
  | .val v => decide (InInt64 v ∧ (p.excl = true → minInt64 < v))
  | .maxValue => !p.excl

/-- Every pair of the list has a tame start and a tame end. -/
def TamePairs : List (RangePoint Int) → Bool
  | s :: e :: rest => tameStart s && tameEnd e && TamePairs rest
  | [] => true
  | [_] => false

@[simp] theorem compare_val_self (v : Int) : compare (Point.val v) (Point.val v) = .eq :=
  compare_eq_iff_eq.2 rfl

/-- A tame start converts to the least handle it reaches down to. -/
theorem startInt_of_tameStart {s : RangePoint Int} (hs : tameStart s = true) :
    ∃ lo, startInt s = .ok lo ∧ ∀ h, InInt64 h → (lo ≤ h ↔ s.below (.val h) = true) := by
  rcases s with ⟨_ | _ | v | _, _ | _, _⟩ <;>
    simp [tameStart, startInt, startValue, toInt64, RangePoint.below, bind, Except.bind, pure,
      Except.pure] at hs ⊢ <;>
    intro h hh <;> simp only [InInt64, minInt64, maxInt64, wrap64] at * <;> omega

/-- A tame end converts to the greatest handle it reaches up to. -/
theorem endInt_of_tameEnd {e : RangePoint Int} (he : tameEnd e = true) :
    ∃ hi, endInt e = .ok hi ∧ ∀ h, InInt64 h → (h ≤ hi ↔ e.above (.val h) = true) := by
  rcases e with ⟨_ | _ | v | _, _ | _, _⟩ <;>
    simp [tameEnd, endInt, endValue, toInt64, RangePoint.above, bind, Except.bind, pure,
      Except.pure] at he ⊢ <;>
    intro h hh <;> simp only [InInt64, minInt64, maxInt64, wrap64] at * <;> omega

/-- On a list of tame pairs, `buildTableRanges` returns without error, and the handles its ranges
admit are the non-NULL values the list denotes. -/
theorem buildTableRanges_exact : ∀ (ps : List (RangePoint Int)) (err : Option String),
    TamePairs ps = true → ∃ rs, buildTableRanges err ps = .ok (rs, err) ∧
      ∀ h, InInt64 h → ((∃ r ∈ rs, r.admits h = true) ↔ inRanges (some h) ps = true)
  | [], err, _ => ⟨[], rfl, by simp [inRanges]⟩
  | [_], _, hp => by simp [TamePairs] at hp
  | s :: e :: rest, err, hp => by
    simp only [TamePairs, Bool.and_eq_true] at hp
    obtain ⟨⟨hs, he⟩, hp⟩ := hp
    obtain ⟨lo, hlo, hlo'⟩ := startInt_of_tameStart hs
    obtain ⟨hi, hhi, hhi'⟩ := endInt_of_tameEnd he
    obtain ⟨rs, hrs, ih⟩ := buildTableRanges_exact rest err hp
    have hpair : ∀ h, InInt64 h →
        (lo ≤ h ∧ h ≤ hi ↔ (s.below (.val h) && e.above (.val h)) = true) := fun h hh => by
      rw [Bool.and_eq_true, hlo' h hh, hhi' h hh]
    by_cases hlt : lo > hi
    · refine ⟨rs, by simp [buildTableRanges, hlo, hhi, hrs, hlt, bind, Except.bind, pure,
        Except.pure], fun h hh => ?_⟩
      have : (s.below (.val h) && e.above (.val h)) = false :=
        Bool.eq_false_iff.2 fun hb => by have := (hpair h hh).2 hb; omega
      simp [inRanges, Point.ofOption, this, ih h hh]
    · refine ⟨⟨lo, hi⟩ :: rs, by simp [buildTableRanges, hlo, hhi, hrs, hlt, bind, Except.bind,
        pure, Except.pure], fun h hh => ?_⟩
      rw [inRanges, Point.ofOption, Bool.or_eq_true, ← ih h hh, ← hpair h hh]
      simp [TableRange.admits]

/-- `a > 3 AND a <= 10 OR a >= 20`: the ranges `(3, 10]` and `[20, MaxValue]` are tame. -/
theorem buildTableRanges_exact_two_ranges :
    TamePairs [{ value := .val 3, excl := true, start := true }, { value := .val 10 },
      { value := .val 20, start := true }, { value := .maxValue }] = true ∧
    ∃ rs, buildTableRanges none [{ value := .val 3, excl := true, start := true },
        { value := .val 10 }, { value := .val 20, start := true }, { value := .maxValue }] =
        .ok (rs, none) ∧
      ∀ h, InInt64 h → ((∃ r ∈ rs, r.admits h = true) ↔
        inRanges (some h) [{ value := .val 3, excl := true, start := true }, { value := .val 10 },
          { value := .val 20, start := true }, { value := .maxValue }] = true) :=
  ⟨by decide, buildTableRanges_exact _ none (by decide)⟩

/-- At the ends of `int64` and at NULL the ranges are wrong. `a > MaxInt64` and `a < MinInt64`
hold for no handle, but `++` and `--` wrap and each becomes the range of every handle. `IS NULL`
holds for no handle, but `[NULL, NULL]` becomes the range of `MinInt64`. And
`(MinNotNull, MaxValue)` holds for every handle, but its range misses `MinInt64` and `MaxInt64`. -/
theorem buildTableRanges_edge_cases :
    (WellFormed (V := Int) [{ value := .val maxInt64, excl := true, start := true },
        { value := .maxValue }] ∧
      buildTableRanges none [{ value := .val maxInt64, excl := true, start := true },
        { value := .maxValue }] = .ok ([⟨minInt64, maxInt64⟩], none) ∧
      ∀ h, inRanges (some h) [{ value := .val maxInt64, excl := true, start := true },
        { value := .maxValue }] = decide (maxInt64 < h)) ∧
    (WellFormed (V := Int) [{ value := .minNotNull, start := true },
        { value := .val minInt64, excl := true }] ∧
      buildTableRanges none [{ value := .minNotNull, start := true },
        { value := .val minInt64, excl := true }] = .ok ([⟨minInt64, maxInt64⟩], none) ∧
      ∀ h, inRanges (some h) [{ value := .minNotNull, start := true },
        { value := .val minInt64, excl := true }] = decide (h < minInt64)) ∧
    (WellFormed (V := Int) [{ value := .null, start := true }, { value := .null }] ∧
      buildTableRanges none [{ value := .null, start := true }, { value := .null }] =
        .ok ([⟨minInt64, minInt64⟩], none) ∧
      ∀ h : Int, inRanges (some h) [{ value := .null, start := true }, { value := .null }] = false) ∧
    (WellFormed (V := Int) [{ value := .minNotNull, excl := true, start := true },
        { value := .maxValue, excl := true }] ∧
      buildTableRanges none [{ value := .minNotNull, excl := true, start := true },
        { value := .maxValue, excl := true }] = .ok ([⟨minInt64 + 1, maxInt64 - 1⟩], none) ∧
      ∀ h : Int, inRanges (some h) [{ value := .minNotNull, excl := true, start := true },
        { value := .maxValue, excl := true }] = true) := by
  refine ⟨⟨⟨rfl, rfl, List.chain'_pair.2 rfl⟩, rfl, fun h => ?_⟩,
    ⟨⟨rfl, rfl, List.chain'_pair.2 rfl⟩, rfl, fun h => ?_⟩,
    ⟨⟨rfl, rfl, List.chain'_pair.2 rfl⟩, rfl, fun h => ?_⟩,
    ⟨⟨rfl, rfl, List.chain'_pair.2 rfl⟩, rfl, fun h => ?_⟩⟩ <;>
    simp [inRanges, RangePoint.below, RangePoint.above, Point.ofOption]

end Gleam.Plan
