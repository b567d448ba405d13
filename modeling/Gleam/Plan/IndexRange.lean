import Gleam.Plan.TableRange
import Mathlib.Algebra.Order.Ring.Int

/-!
# Index ranges on an integer column: `buildIndexRanges`

`buildIndexRanges` turns the point list of a condition on the first column of an index into
`IndexRange`s. For each pair of points it converts both with `convertPoint`, drops the pair when
the converted start is not below the converted end under `rangePointLess`, and otherwise keeps
the converted values and flags as `LowVal`, `LowExclude`, `HighVal` and `HighExclude`.

`convertPoint` keeps NULL, `MinNotNull` and `MaxValue`, and converts a value `v` to the column
type with `ConvertTo`. When the conversion moved the value, it fixes the flag so that the point
still admits the same integers: a start excluding `v` becomes inclusive when `v` was rounded up
(`a > 1.9` to `a >= 2`), a start including `v` becomes exclusive when it was rounded down
(`a >= 1.1` to `a > 1`), and an end the other way round.

The `types` package is not in the source. The column's values are a linear order `V` with the
integers in it (`intVal`), and `ConvertTo` to the integer column type is a function `convertTo`.
What the law needs of them is `RoundsToInt64`: `convertTo v` is an `int64` with no `int64`
strictly between it and `v`, rounding down or up, to the nearest `int64` bound when `v` is out of
range.

## Main definitions

* `IndexRange`, `IndexRange.admits`: a range of one column and the integers it holds.
* `convertPoint`, `buildIndexRanges`.
* `RoundsToInt64`: what the law assumes of `ConvertTo`.

## Main results

* `below_convertPoint`, `above_convertPoint`: converting a point keeps the integers it admits.
* `buildIndexRanges_exact`: the integers the ranges admit are those the point list denotes.
-/

namespace Gleam.Plan

open Gleam.FileSort

variable {V : Type} [LinearOrder V]

/-- `IndexRange` of one column: the datum of `LowVal` and of `HighVal`, and whether each is
excluded. -/
structure IndexRange where
  lowVal : Point Int
  lowExclude : Bool
  highVal : Point Int
  highExclude : Bool
  deriving DecidableEq, Repr

/-- The integer `n` lies in the range. -/
def IndexRange.admits (r : IndexRange) (n : Int) : Bool :=
  (RangePoint.below ⟨r.lowVal, r.lowExclude, true⟩ (.val n)) &&
    (RangePoint.above ⟨r.highVal, r.highExclude, false⟩ (.val n))

section Convert

variable (intVal : Int → V) (convertTo : V → Int)

/-- `convertPoint`: NULL (which `ConvertTo` keeps NULL), `MinNotNull` and `MaxValue` are kept. A
value `v` becomes `ConvertTo(v)`, and when `v` compares above or below it, the flag is fixed: a
start is included when `v` was rounded up and excluded when it was rounded down, an end the other
way round. -/
def convertPoint (p : RangePoint V) : RangePoint Int :=
  match p.value with
  | .null => { value := .null, excl := p.excl, start := p.start }
  | .minNotNull => { value := .minNotNull, excl := p.excl, start := p.start }
  | .maxValue => { value := .maxValue, excl := p.excl, start := p.start }
  | .val v =>
    let casted := convertTo v
    let valCmpCasted := compare v (intVal casted)
    let excl :=
      if valCmpCasted = .eq then p.excl
      else if p.start then
        if p.excl then (if valCmpCasted = .lt then false else true)
        else (if valCmpCasted = .gt then true else false)
      else if p.excl then (if valCmpCasted = .gt then false else true)
      else (if valCmpCasted = .lt then true else false)
    { value := .val casted, excl := excl, start := p.start }

/-- `buildIndexRanges`: the points are read two at a time and converted; a pair whose converted
start is not below its converted end is dropped. A last point without its pair would be indexed
past the end of the slice. -/
def buildIndexRanges : List (RangePoint V) → Except Failure (List IndexRange)
  | [] => .ok []
  | [_] => .error (.panic "index out of range")
  | s :: e :: rest => do
    let startPoint := convertPoint intVal convertTo s
    let endPoint := convertPoint intVal convertTo e
    let indexRanges ← buildIndexRanges rest
    return if !rangePointLess startPoint endPoint then indexRanges
      else ⟨startPoint.value, startPoint.excl, endPoint.value, endPoint.excl⟩ :: indexRanges

/-- What the law assumes of `ConvertTo` on the integer column type: the integers sit in `V` in
order, and `convertTo v` is an `int64` that is the greatest `int64` not above `v` or the least not
below it. -/
structure RoundsToInt64 : Prop where
  mono : StrictMono intVal
  inInt64 : ∀ v, InInt64 (convertTo v)
  nearest : ∀ v, (intVal (convertTo v) ≤ v ∧ ∀ m, InInt64 m → intVal m ≤ v → m ≤ convertTo v) ∨
    (v ≤ intVal (convertTo v) ∧ ∀ m, InInt64 m → v ≤ intVal m → convertTo v ≤ m)

variable {intVal convertTo}

@[simp] theorem convertPoint_start (p : RangePoint V) :
    (convertPoint intVal convertTo p).start = p.start := by
  rcases p with ⟨_ | _ | _ | _, _, _⟩ <;> rfl

/-- Rounded down: the `int64`s up to `v` are those up to `ConvertTo(v)`, and none is `v`. -/
theorem RoundsToInt64.of_gt (h : RoundsToInt64 intVal convertTo) {v : V}
    (hv : intVal (convertTo v) < v) {n : Int} (hn : InInt64 n) :
    (intVal n ≤ v ↔ n ≤ convertTo v) ∧ intVal n ≠ v := by
  have hle : intVal n ≤ v → n ≤ convertTo v := by
    rcases h.nearest v with ⟨-, hm⟩ | ⟨hle, -⟩
    · exact hm n hn
    · exact absurd hle (not_le.2 hv)
  refine ⟨⟨hle, fun hnc => (h.mono.monotone hnc).trans hv.le⟩, fun he => ?_⟩
  exact absurd (h.mono.monotone (hle he.le)) (not_le.2 (he ▸ hv))

/-- Rounded up: the `int64`s from `v` on are those from `ConvertTo(v)` on, and none is `v`. -/
theorem RoundsToInt64.of_lt (h : RoundsToInt64 intVal convertTo) {v : V}
    (hv : v < intVal (convertTo v)) {n : Int} (hn : InInt64 n) :
    (v ≤ intVal n ↔ convertTo v ≤ n) ∧ intVal n ≠ v := by
  have hge : v ≤ intVal n → convertTo v ≤ n := by
    rcases h.nearest v with ⟨hle, -⟩ | ⟨-, hm⟩
    · exact absurd hle (not_le.2 hv)
    · exact hm n hn
  refine ⟨⟨hge, fun hcn => hv.le.trans (h.mono.monotone hcn)⟩, fun he => ?_⟩
  exact absurd (h.mono.monotone (hge he.ge)) (not_le.2 (he ▸ hv))

section Val

variable {v : V} (excl start : Bool)

/-- A value rounded up: a start now includes `ConvertTo(v)`, an end excludes it. -/
theorem convertPoint_of_lt (hc : v < intVal (convertTo v)) :
    convertPoint intVal convertTo ⟨.val v, excl, start⟩ = ⟨.val (convertTo v), !start, start⟩ := by
  simp only [convertPoint, compare_lt_iff_lt.2 hc]
  cases excl <;> cases start <;> rfl

/-- A value rounded down: a start now excludes `ConvertTo(v)`, an end includes it. -/
theorem convertPoint_of_gt (hc : intVal (convertTo v) < v) :
    convertPoint intVal convertTo ⟨.val v, excl, start⟩ = ⟨.val (convertTo v), start, start⟩ := by
  simp only [convertPoint, compare_gt_iff_gt.2 hc]
  cases excl <;> cases start <;> rfl

/-- An integer value keeps its flag. -/
theorem convertPoint_of_eq (hc : v = intVal (convertTo v)) :
    convertPoint intVal convertTo ⟨.val v, excl, start⟩ = ⟨.val (convertTo v), excl, start⟩ := by
  simp only [convertPoint, compare_eq_iff_eq.2 hc, if_true]

end Val

/-- A converted start point reaches down to the same `int64`s. -/
theorem below_convertPoint (h : RoundsToInt64 intVal convertTo) {p : RangePoint V}
    (hs : p.start = true) {n : Int} (hn : InInt64 n) :
    (convertPoint intVal convertTo p).below (.val n) = p.below (.val (intVal n)) := by
  obtain ⟨value, excl, start⟩ := p
  subst hs
  cases value with
  | null | minNotNull | maxValue => simp [convertPoint, RangePoint.below]
  | val v =>
    simp only [RangePoint.below, Point.val_lt_val, Point.val.injEq]
    rcases lt_trichotomy v (intVal (convertTo v)) with hlt | heq | hgt
    · -- rounded up: `v < n` iff `ConvertTo(v) ≤ n`
      obtain ⟨hiff, hne⟩ := h.of_lt hlt hn
      have hup : v < intVal n ↔ convertTo v ≤ n :=
        ⟨fun h' => hiff.1 h'.le, fun h' => lt_of_le_of_ne (hiff.2 h') (Ne.symm hne)⟩
      simp only [convertPoint_of_lt _ _ hlt, hup, Ne.symm hne, Point.val_lt_val, Point.val.injEq,
        Bool.not_true, false_and, or_false, decide_eq_decide, and_true]
      omega
    · rw [convertPoint_of_eq _ _ heq]
      generalize convertTo v = c at heq ⊢
      subst heq
      simp [h.mono.lt_iff_lt, h.mono.injective.eq_iff]
    · -- rounded down: `v < n` iff `ConvertTo(v) < n`
      obtain ⟨hiff, hne⟩ := h.of_gt hgt hn
      have hdown : v < intVal n ↔ convertTo v < n := by rw [← not_le, hiff, not_le]
      simp [convertPoint_of_gt _ _ hgt, hdown, Ne.symm hne]

/-- A converted end point reaches up to the same `int64`s. -/
theorem above_convertPoint (h : RoundsToInt64 intVal convertTo) {p : RangePoint V}
    (hs : p.start = false) {n : Int} (hn : InInt64 n) :
    (convertPoint intVal convertTo p).above (.val n) = p.above (.val (intVal n)) := by
  obtain ⟨value, excl, start⟩ := p
  subst hs
  cases value with
  | null | minNotNull | maxValue => simp [convertPoint, RangePoint.above]
  | val v =>
    simp only [RangePoint.above, Point.val_lt_val, Point.val.injEq]
    rcases lt_trichotomy v (intVal (convertTo v)) with hlt | heq | hgt
    · -- rounded up: `n < v` iff `n < ConvertTo(v)`
      obtain ⟨hiff, hne⟩ := h.of_lt hlt hn
      have hup : intVal n < v ↔ n < convertTo v := by rw [← not_le, hiff, not_le]
      simp [convertPoint_of_lt _ _ hlt, hup, Ne.symm hne]
    · rw [convertPoint_of_eq _ _ heq]
      generalize convertTo v = c at heq ⊢
      subst heq
      simp [h.mono.lt_iff_lt, h.mono.injective.eq_iff]
    · -- rounded down: `n < v` iff `n ≤ ConvertTo(v)`
      obtain ⟨hiff, hne⟩ := h.of_gt hgt hn
      have hdown : intVal n < v ↔ n ≤ convertTo v :=
        ⟨fun h' => hiff.1 h'.le, fun h' => lt_of_le_of_ne (hiff.2 h') hne⟩
      simp only [convertPoint_of_gt _ _ hgt, hdown, Ne.symm hne, Point.val_lt_val, Point.val.injEq,
        false_and, or_false, decide_eq_decide, and_true]
      omega

/-- A pair whose converted start is not below its converted end holds no `int64`, so
`buildIndexRanges` drops only ranges without integers. -/
theorem pair_empty_of_not_less (h : RoundsToInt64 intVal convertTo) {s e : RangePoint V}
    (hs : s.start = true) (he : e.start = false)
    (hless : rangePointLess (convertPoint intVal convertTo s) (convertPoint intVal convertTo e) = false)
    {n : Int} (hn : InInt64 n) : (s.below (.val (intVal n)) && e.above (.val (intVal n))) = false := by
  rw [← below_convertPoint h hs hn, ← above_convertPoint h he hn]
  have hb := RangePoint.below_eq (x := some n) (by simpa using hs : (convertPoint intVal convertTo s).start = true)
  have ha := RangePoint.above_eq (x := some n) (by simpa using he : (convertPoint intVal convertTo e).start = false)
  simp only [Point.ofOption] at hb ha
  rw [hb, ha]
  refine Bool.eq_false_iff.2 fun hboth => ?_
  simp only [Bool.and_eq_true, decide_eq_true_eq] at hboth
  simp [(rangePointLess_iff _ _).2 (hboth.1.trans hboth.2)] at hless

/-- The ranges of an alternating list of pairs admit exactly the `int64`s the list denotes. -/
theorem buildIndexRanges_of_pairs (h : RoundsToInt64 intVal convertTo) :
    ∀ {ps : List (RangePoint V)}, Alternating true ps = true → ps.length % 2 = 0 →
      ∃ rs, buildIndexRanges intVal convertTo ps = .ok rs ∧
        ∀ n, InInt64 n → ((∃ r ∈ rs, r.admits n = true) ↔ inRanges (some (intVal n)) ps = true)
  | [], _, _ => ⟨[], rfl, by simp [inRanges]⟩
  | [_], _, hl => by simp at hl
  | s :: e :: rest, ha, hl => by
    simp only [Alternating, Bool.and_eq_true, beq_iff_eq, Bool.not_true, Bool.not_false] at ha
    obtain ⟨hs, he, ha⟩ := ha
    obtain ⟨rs, hrs, ih⟩ := buildIndexRanges_of_pairs h ha (by simp at hl; omega)
    have hpair : ∀ n, InInt64 n → ((convertPoint intVal convertTo s).below (.val n) &&
        (convertPoint intVal convertTo e).above (.val n)) =
        (s.below (.val (intVal n)) && e.above (.val (intVal n))) := fun n hn => by
      rw [below_convertPoint h hs hn, above_convertPoint h he hn]
    cases hless : rangePointLess (convertPoint intVal convertTo s) (convertPoint intVal convertTo e)
    · refine ⟨rs, by simp [buildIndexRanges, hrs, hless, bind, Except.bind, pure, Except.pure],
        fun n hn => ?_⟩
      simp [inRanges, Point.ofOption, pair_empty_of_not_less h hs he hless hn, ih n hn]
    · refine ⟨⟨(convertPoint intVal convertTo s).value, (convertPoint intVal convertTo s).excl,
        (convertPoint intVal convertTo e).value, (convertPoint intVal convertTo e).excl⟩ :: rs,
        by simp [buildIndexRanges, hrs, hless, bind, Except.bind, pure, Except.pure], fun n hn => ?_⟩
      rw [inRanges, Point.ofOption, Bool.or_eq_true, ← ih n hn, ← hpair n hn]
      simp [IndexRange.admits, RangePoint.below, RangePoint.above]

/-- Index ranges on an integer column are exact, for a `ConvertTo` that rounds to a nearest
`int64`. Converting a start point keeps the `int64`s it reaches down to, and an end point those it
reaches up to; a pair is dropped only if it holds no `int64`; and for every well-formed point list
`buildIndexRanges` returns ranges that admit exactly the `int64`s the list denotes. -/
theorem buildIndexRanges_exact (h : RoundsToInt64 intVal convertTo) :
    (∀ (p : RangePoint V) (n : Int), InInt64 n →
      (p.start = true → (convertPoint intVal convertTo p).below (.val n) = p.below (.val (intVal n))) ∧
      (p.start = false → (convertPoint intVal convertTo p).above (.val n) = p.above (.val (intVal n)))) ∧
    (∀ s e : RangePoint V, s.start = true → e.start = false →
      rangePointLess (convertPoint intVal convertTo s) (convertPoint intVal convertTo e) = false →
      ∀ n, InInt64 n → (s.below (.val (intVal n)) && e.above (.val (intVal n))) = false) ∧
    ∀ ps : List (RangePoint V), WellFormed ps → ∃ rs, buildIndexRanges intVal convertTo ps = .ok rs ∧
      ∀ n, InInt64 n → ((∃ r ∈ rs, r.admits n = true) ↔ inRanges (some (intVal n)) ps = true) :=
  ⟨fun _ _ hn => ⟨fun hs => below_convertPoint h hs hn, fun he => above_convertPoint h he hn⟩,
    fun _ _ hs he hless _ hn => pair_empty_of_not_less h hs he hless hn,
    fun _ hw => buildIndexRanges_of_pairs h hw.alternating hw.even⟩

end Convert

/-- `ConvertTo` of an integer to `int64`, saturating at the bounds. -/
def clampInt64 (v : Int) : Int := if v < minInt64 then minInt64 else if maxInt64 < v then maxInt64 else v

theorem roundsToInt64_clampInt64 : RoundsToInt64 id clampInt64 where
  mono := strictMono_id
  inInt64 v := by unfold InInt64 clampInt64 minInt64 maxInt64; split_ifs <;> omega
  nearest v := by
    unfold InInt64 clampInt64 minInt64 maxInt64
    split_ifs <;> [exact .inr ⟨by simp; omega, fun m hm _ => hm.1⟩;
      exact .inl ⟨by simp; omega, fun m hm _ => hm.2⟩; exact .inl ⟨le_refl _, fun m _ h => h⟩]

/-- Integer values saturated to `int64`: `RoundsToInt64` holds, so the index ranges are exact. -/
theorem buildIndexRanges_exact_clamp :
    RoundsToInt64 id clampInt64 ∧
    (∀ (p : RangePoint Int) (n : Int), InInt64 n →
      (p.start = true → (convertPoint id clampInt64 p).below (.val n) = p.below (.val (id n))) ∧
      (p.start = false → (convertPoint id clampInt64 p).above (.val n) = p.above (.val (id n)))) ∧
    (∀ s e : RangePoint Int, s.start = true → e.start = false →
      rangePointLess (convertPoint id clampInt64 s) (convertPoint id clampInt64 e) = false →
      ∀ n, InInt64 n → (s.below (.val (id n)) && e.above (.val (id n))) = false) ∧
    ∀ ps : List (RangePoint Int), WellFormed ps → ∃ rs, buildIndexRanges id clampInt64 ps = .ok rs ∧
      ∀ n, InInt64 n → ((∃ r ∈ rs, r.admits n = true) ↔ inRanges (some (id n)) ps = true) :=
  ⟨roundsToInt64_clampInt64, buildIndexRanges_exact roundsToInt64_clampInt64⟩


end Gleam.Plan
