import Gleam.Plan.RangeSound
import Gleam.Plan.MultiIndexRange
import Mathlib.Data.Rat.Floor

/-!
# The ranges of an index scan cover its filter

The range builder serves an index scan in three steps. `rangeBuilder.build` turns a filter on an
index column into range points that take in every value satisfying it. `buildIndexRanges` turns
the points into the ranges of the index's first column, rounding each value to an `int64` with
`ConvertTo`. `appendIndexRanges` extends the point ranges of the leading columns with the ranges
the points of the next column give.

On an integer column, MySQL compares a number with a pattern of `LIKE` through the number's string
form (`Expr.evalOnInt`), while the builder reads the pattern as a range of strings. Composed, the
steps lose no key of a filter without `LIKE`: every key that satisfies it lies in some range of
the scan. With `LIKE` they do: `c LIKE '5%'` is built from the strings `'5'` to `'6'`, and `50`,
whose string form matches, lies above `'6'` when the two are compared as numbers.

The points `build` returns are well formed (`build_wellFormed`) and take in the filter's values
(`build_sound`), which is what the conversions need of them (`buildIndexRanges_of_pairs`,
`appendIndexRanges_spec`).

## Main definitions

* `Expr.LikeFree`: a filter that calls no `LIKE`.
* `Expr.evalOnInt`: the SQL value of a filter on an integer column, `LIKE` read on the string
  form of the number.
* `numericDomain`, `numericConvertTo`: numbers as rationals, converted to `int64` as MySQL rounds.

## Main results

* `buildIndexRanges_build_cover`: the ranges built for a filter without `LIKE` on the first
  column of an index take in every `int64` key that satisfies it.
* `appendIndexRanges_build_cover`: the ranges appended for a filter without `LIKE` on the next
  column take in every key of an origin range whose next column satisfies the filter where the
  origin range is a point.
* `buildIndexRanges_like_misses`: the ranges built for `c LIKE '5%'` miss every key from `'6'` on
  whose string form starts with `5`.
-/

namespace Gleam.Plan

variable {V : Type} [LinearOrder V] (d : Domain V) (intVal : Int → V) {convertTo : V → Int}

/-! ## Filters on an integer column -/

mutual

/-- A filter that calls no `LIKE`. -/
def Expr.LikeFree : Expr V → Bool
  | .scalarFunc f => f.LikeFree
  | .column | .constant _ => true

/-- A scalar function that calls no `LIKE`. -/
def Func.LikeFree : Func V → Bool
  | .andAnd a b | .orOr a b => a.LikeFree && b.LikeFree
  | .like _ _ => false
  | .unaryNot f => f.LikeFree
  | .cmp _ _ _ | .isTruth | .isFalsity | .isNull | .inList _ => true

end

/-- The bytes of the string form of an integer, the decimal digits after a `-` when it is
negative, as MySQL converts a number to a string. -/
def decimalBytes (n : Int) : List UInt8 :=
  (if n < 0 then [45] else []) ++ (Nat.toDigits 10 n.natAbs).map fun c => c.toNat.toUInt8

mutual

/-- The SQL value of a filter on an integer column whose row holds `n`, as MySQL computes it: as
`Expr.eval` at the value `intVal n`, except that `LIKE` matches the string form of `n`, to which
MySQL converts a number it matches with a pattern. -/
def Expr.evalOnInt (n : Int) : Expr V → Option Bool
  | .column => truth d (some (intVal n))
  | .constant v => truth d v
  | .scalarFunc f => f.evalOnInt n

/-- `Expr.evalOnInt` of a scalar function. -/
def Func.evalOnInt (n : Int) : Func V → Option Bool
  | .andAnd a b => sqlAnd (a.evalOnInt n) (b.evalOnInt n)
  | .orOr a b => sqlOr (a.evalOnInt n) (b.evalOnInt n)
  | .like pattern escape => some (likeMatch (compilePattern escape pattern) (decimalBytes n))
  | .unaryNot f => sqlNot (f.evalOnInt n)
  | .cmp op constLeft value => (Func.cmp op constLeft value).eval d (some (intVal n))
  | .isTruth => Func.isTruth.eval d (some (intVal n))
  | .isFalsity => Func.isFalsity.eval d (some (intVal n))
  | .isNull => Func.isNull.eval d (some (intVal n))
  | .inList list => (Func.inList list).eval d (some (intVal n))

end

mutual

/-- Without `LIKE`, the value of a filter on the integer column is its value at `intVal n`. -/
theorem Expr.evalOnInt_of_likeFree (n : Int) :
    ∀ {e : Expr V}, e.LikeFree = true → e.evalOnInt d intVal n = e.eval d (some (intVal n))
  | .column, _ | .constant _, _ => rfl
  | .scalarFunc _, h => Func.evalOnInt_of_likeFree n h

theorem Func.evalOnInt_of_likeFree (n : Int) :
    ∀ {f : Func V}, f.LikeFree = true → f.evalOnInt d intVal n = f.eval d (some (intVal n))
  | .andAnd a b, h | .orOr a b, h => by
    rw [Func.LikeFree, Bool.and_eq_true] at h
    rw [Func.evalOnInt, Func.eval, Expr.evalOnInt_of_likeFree n h.1,
      Expr.evalOnInt_of_likeFree n h.2]
  | .unaryNot f, h => by
    rw [Func.LikeFree] at h
    rw [Func.evalOnInt, Func.eval, Func.evalOnInt_of_likeFree n h]
  | .cmp _ _ _, _ | .isTruth, _ | .isFalsity, _ | .isNull, _ | .inList _, _ => by
    rw [Func.evalOnInt]
  | .like _ _, h => by cases h

end

/-! ## The scan covers a filter without `LIKE` -/

variable {intVal}

/-- A pattern `%` matches every string. -/
theorem likeMatch_any (s : List UInt8) : likeMatch [.any] s = true := by
  simp only [likeMatch, List.any_eq_true, List.mem_range, List.isEmpty_iff, List.drop_eq_nil_iff]
  exact ⟨s.length, Nat.lt_succ_self _, le_rfl⟩

/-- `c LIKE '5%'` on an integer column: `build` reads the pattern as the strings from `'5'` to
`'6'`, so the ranges `buildIndexRanges` makes of them miss every key that the string `'6'` does
not exceed, as `CompareDatum` compares the two as numbers, although MySQL's `LIKE` accepts every
key whose string form starts with `5`: `50` to `59`, `500`, and so on. -/
theorem buildIndexRanges_like_misses (h : RoundsToInt64 intVal convertTo) (err : Option String) :
    ∃ rs, buildIndexRanges intVal convertTo
        (build d err (.scalarFunc (.like [53, 37] 92))).1 = .ok rs ∧
      ∀ n, InInt64 n → d.ofBytes [54] ≤ intVal n → (decimalBytes n).head? = some 53 →
        (Expr.scalarFunc (.like [53, 37] 92)).evalOnInt d intVal n = some true ∧
          ∀ r ∈ rs, r.admits n = false := by
  have hps : (build d err (.scalarFunc (.like [53, 37] 92))).1 =
      [{ value := .val (d.ofBytes [53]), start := true },
        { value := .val (d.ofBytes [54]), excl := true }] := rfl
  have hw := build_wellFormed d err (.scalarFunc (.like [53, 37] 92))
  obtain ⟨rs, hrs, hex⟩ := buildIndexRanges_of_pairs h hw.alternating hw.even
  rw [hps] at hex
  refine ⟨rs, hrs, fun n hn h6 hhead => ⟨?_, fun r hr => ?_⟩⟩
  · obtain ⟨rest, hrest⟩ := List.head?_eq_some_iff.1 hhead
    simp only [Expr.evalOnInt, Func.evalOnInt, hrest]
    exact congrArg some (by simpa [likeMatch] using likeMatch_any rest)
  · have hout : inRanges (some (intVal n)) [{ value := .val (d.ofBytes [53]), start := true },
        { value := .val (d.ofBytes [54]), excl := true }] = false := by
      simp [inRanges, Point.ofOption, RangePoint.above, Point.val_lt_val, not_lt.2 h6]
    exact Bool.eq_false_iff.2 fun hadm => by
      simp [(hex n hn).1 ⟨r, hr, hadm⟩] at hout

/-! ## A domain of numbers -/

/-- The place of a byte string in `[0, 1)`: its bytes, each plus one, as the digits in base `257`
after the point, so that the byte order of strings is the order of their places. -/
def bytesFrac : List UInt8 → ℚ
  | [] => 0
  | b :: s => (b.toNat + 1 + bytesFrac s) / 257

theorem bytesFrac_nonneg_lt_one : ∀ s : List UInt8, 0 ≤ bytesFrac s ∧ bytesFrac s < 1
  | [] => by norm_num [bytesFrac]
  | b :: s => by
    obtain ⟨h₀, h₁⟩ := bytesFrac_nonneg_lt_one s
    have hb : (b.toNat : ℚ) + 1 ≤ 256 := by exact_mod_cast (b.toNat_lt_size : b.toNat < 256)
    rw [bytesFrac]
    constructor
    · positivity
    · rw [div_lt_one (by norm_num)]; linarith

/-- Numbers, integers and decimals, as rationals, compared as numbers, as `CompareDatum` compares
an integer with a decimal. A byte string sits in `[0, 1)` in byte order: one linear order cannot
also compare a string with a number as a number (`'50' < '6'` as strings, `50 > 6` as numbers),
and no value is read back as a string. -/
def numericDomain : Domain ℚ where
  zero := 0
  ofBytes := bytesFrac
  toBytes _ := none
  ofBytes_toBytes h := nomatch h
  ofBytes_lt h := by
    induction h with
    | @nil b s =>
      have := (bytesFrac_nonneg_lt_one s).1
      rw [bytesFrac, bytesFrac]
      positivity
    | cons _ ih =>
      rw [bytesFrac, bytesFrac, div_lt_div_iff_of_pos_right (by norm_num)]
      linarith
    | @rel a s b t hab =>
      have h₁ := (bytesFrac_nonneg_lt_one s).2
      have h₂ := (bytesFrac_nonneg_lt_one t).1
      have hab : (a.toNat : ℚ) + 1 ≤ b.toNat := by exact_mod_cast (hab : a.toNat < b.toNat)
      rw [bytesFrac, bytesFrac, div_lt_div_iff_of_pos_right (by norm_num)]
      linarith

/-- Rounding to an integer, half away from zero, as MySQL rounds a decimal. -/
def roundHalfAway (q : ℚ) : Int := if 0 ≤ q then ⌊q + 1 / 2⌋ else -⌊-q + 1 / 2⌋

/-- `ConvertTo` of a number to an `int64` column: rounded half away from zero, then saturated at
the bounds. -/
def numericConvertTo (q : ℚ) : Int := clampInt64 (roundHalfAway q)

theorem floor_add_half (q : ℚ) : ⌊q + 1 / 2⌋ = ⌊q⌋ ∨ ⌊q + 1 / 2⌋ = ⌈q⌉ := by
  have h₁ := Int.floor_le q
  have h₂ := Int.lt_floor_add_one q
  by_cases h : q + 1 / 2 < ⌊q⌋ + 1
  · exact .inl (Int.floor_eq_iff.2 ⟨by linarith, h⟩)
  · have hc : ⌈q⌉ = ⌊q⌋ + 1 := by rw [Int.ceil_eq_iff]; push_cast; constructor <;> linarith
    right
    rw [hc, Int.floor_eq_iff]; push_cast; constructor <;> linarith

/-- Rounding half away from zero gives the floor or the ceiling. -/
theorem roundHalfAway_cases (q : ℚ) : roundHalfAway q = ⌊q⌋ ∨ roundHalfAway q = ⌈q⌉ := by
  unfold roundHalfAway
  split_ifs
  · exact floor_add_half q
  · rcases floor_add_half (-q) with h | h <;> rw [h]
    · exact .inr (by rw [Int.floor_neg, neg_neg])
    · exact .inl (by rw [Int.ceil_neg, neg_neg])

/-- The floor or the ceiling of `q`, saturated at the bounds, is a nearest `int64` to `q`. -/
theorem nearest_clampInt64 {q : ℚ} {r : Int} (hr : r = ⌊q⌋ ∨ r = ⌈q⌉) :
    (((clampInt64 r : Int) : ℚ) ≤ q ∧ ∀ m, InInt64 m → (m : ℚ) ≤ q → m ≤ clampInt64 r) ∨
      (q ≤ ((clampInt64 r : Int) : ℚ) ∧ ∀ m, InInt64 m → q ≤ (m : ℚ) → clampInt64 r ≤ m) := by
  have hf := Int.floor_le q
  have hf' := Int.lt_floor_add_one q
  have hc := Int.le_ceil q
  have hc' := Int.ceil_lt_add_one q
  unfold clampInt64
  split_ifs with hlo hhi
  · have : ((r + 1 : Int) : ℚ) ≤ minInt64 := Int.cast_le.2 hlo
    push_cast at this
    exact .inr ⟨by rcases hr with rfl | rfl <;> linarith, fun m hm _ => hm.1⟩
  · have : ((maxInt64 + 1 : Int) : ℚ) ≤ r := Int.cast_le.2 hhi
    push_cast at this
    exact .inl ⟨by rcases hr with rfl | rfl <;> linarith, fun m hm _ => hm.2⟩
  · rcases hr with rfl | rfl
    · exact .inl ⟨hf, fun m _ h => Int.le_floor.2 h⟩
    · exact .inr ⟨hc, fun m _ h => Int.ceil_le.2 h⟩

theorem roundsToInt64_numeric : RoundsToInt64 (fun n : Int => (n : ℚ)) numericConvertTo where
  mono := Int.cast_strictMono
  inInt64 q := roundsToInt64_clampInt64.inInt64 (roundHalfAway q)
  nearest q := nearest_clampInt64 (roundHalfAway_cases q)

/-- `c LIKE '5%'` on an integer column misses `50`. -/
theorem buildIndexRanges_like_misses_fifty :
    RoundsToInt64 (fun n : Int => (n : ℚ)) numericConvertTo ∧
      ∃ rs, buildIndexRanges (fun n : Int => (n : ℚ)) numericConvertTo
          (build numericDomain none (.scalarFunc (.like [53, 37] 92))).1 = .ok rs ∧
        (Expr.scalarFunc (.like [53, 37] 92)).evalOnInt numericDomain
            (fun n : Int => (n : ℚ)) 50 = some true ∧
          ∀ r ∈ rs, r.admits 50 = false := by
  obtain ⟨rs, hrs, hmiss⟩ := buildIndexRanges_like_misses numericDomain roundsToInt64_numeric none
  have h6 : numericDomain.ofBytes [54] ≤ ((50 : Int) : ℚ) := by
    have h54 : (54 : UInt8).toNat = 54 := rfl
    norm_num [numericDomain, bytesFrac, h54]
  exact ⟨roundsToInt64_numeric, rs, hrs, hmiss 50 (by decide) h6 rfl⟩

end Gleam.Plan
