import Mathlib.Data.List.Lex

/-!
# LIKE patterns and their ranges

`newBuildFromPatternLike` turns `c LIKE pattern` into one range of byte strings. The bytes of the
pattern before its first wildcard, escapes resolved, are `lowValue`, the start point; `lowValue`
with one added to its last byte, carrying over `0xFF` bytes, is the end point.

How `LIKE` matches is not in the source. `likeMatch` is its byte-wise meaning: the escape byte
makes the next byte literal and a trailing escape stands for itself, `_` matches one byte and `%`
any bytes. Strings are compared lexicographically on bytes (`List.Lex`).

## Main definitions

* `compilePattern`, `likeMatch`: what a pattern matches.
* `likePrefix`, `carry`, `highValue`: the two loops of `newBuildFromPatternLike`.

## Main results

* `compilePattern_likePrefix`: a pattern is its `lowValue` in literal bytes, followed by nothing
  if the match is exact, else by the wildcard that stopped the loop.
* `lex_highValue`: every string that starts with `lowValue` is below the end point.
-/

namespace Gleam.Plan

/-- `'%'`. -/
def percent : UInt8 := '%'.toNat.toUInt8

/-- `'_'`. -/
def underscore : UInt8 := '_'.toNat.toUInt8

/-- An element of a pattern: a literal byte, `_`, or `%`. -/
inductive LikeToken where
  | lit (b : UInt8)
  | one
  | any
  deriving DecidableEq, Repr

/-- A pattern read byte by byte: the escape byte makes the next byte literal, and a trailing
escape stands for itself. -/
def compilePattern (escape : UInt8) : List UInt8 → List LikeToken
  | [] => []
  | c :: rest =>
    if c = escape then
      match rest with
      | [] => [.lit escape]
      | c' :: rest' => .lit c' :: compilePattern escape rest'
    else if c = percent then .any :: compilePattern escape rest
    else if c = underscore then .one :: compilePattern escape rest
    else .lit c :: compilePattern escape rest

/-- The byte strings a compiled pattern matches. -/
def likeMatch : List LikeToken → List UInt8 → Bool
  | [], s => s.isEmpty
  | .lit b :: ts, s =>
    match s with
    | c :: s => c == b && likeMatch ts s
    | [] => false
  | .one :: ts, s =>
    match s with
    | _ :: s => likeMatch ts s
    | [] => false
  | .any :: ts, s => (List.range (s.length + 1)).any fun k => likeMatch ts (s.drop k)

/-- The prefix loop of `newBuildFromPatternLike`: `lowValue`, the bytes before the first
wildcard with escapes resolved; `exclude`, whether that wildcard is `_`; and `isExactMatch`,
whether there is none. -/
def likePrefix (escape : UInt8) : List UInt8 → List UInt8 × Bool × Bool
  | [] => ([], false, true)
  | c :: rest =>
    if c = escape then
      match rest with
      | [] => ([escape], false, true)
      | c' :: rest' =>
        let r := likePrefix escape rest'
        (c' :: r.1, r.2)
    else if c = percent then ([], false, false)
    else if c = underscore then ([], true, false)
    else
      let r := likePrefix escape rest
      (c :: r.1, r.2)

/-- The end-point loop of `newBuildFromPatternLike`, on the bytes of `lowValue` from the last:
add one to a byte and stop unless it wraps to `0`, then go on to the byte before. `none` when
every byte wraps: the end point is then `MaxValue`. -/
def carry : List UInt8 → Option (List UInt8)
  | [] => none
  | b :: bs => if b + 1 ≠ 0 then some ((b + 1) :: bs) else (carry bs).map (0 :: ·)

/-- The bytes of the end point, `highValue`, if one is set. -/
def highValue (lowValue : List UInt8) : Option (List UInt8) :=
  (carry lowValue.reverse).map List.reverse

/-! ## The pattern after its prefix -/

/-- A pattern is its `lowValue` in literal bytes, then nothing if the match is exact, else the
wildcard the loop stopped at and the rest. -/
theorem compilePattern_likePrefix (escape : UInt8) : ∀ pattern : List UInt8,
    ∃ rest, compilePattern escape pattern = (likePrefix escape pattern).1.map .lit ++
      if (likePrefix escape pattern).2.2 then []
      else (if (likePrefix escape pattern).2.1 then LikeToken.one else .any) :: rest
  | [] => ⟨[], rfl⟩
  | c :: rest => by
    unfold compilePattern likePrefix
    by_cases hc : c = escape
    · cases rest with
      | nil => exact ⟨[], by simp [hc]⟩
      | cons c' rest' =>
        obtain ⟨t, ht⟩ := compilePattern_likePrefix escape rest'
        exact ⟨t, by simp [hc, ht]⟩
    · by_cases h1 : c = percent
      · exact ⟨compilePattern escape rest, by simp only [if_neg hc, if_pos h1]; rfl⟩
      · by_cases h2 : c = underscore
        · exact ⟨compilePattern escape rest, by simp only [if_neg hc, if_neg h1, if_pos h2]; rfl⟩
        · obtain ⟨t, ht⟩ := compilePattern_likePrefix escape rest
          exact ⟨t, by simp [hc, h1, h2, ht]⟩

/-- A string matching literal bytes followed by `ts` starts with those bytes. -/
theorem likeMatch_lits : ∀ (low : List UInt8) (ts : List LikeToken) (s : List UInt8),
    likeMatch (low.map .lit ++ ts) s = true → ∃ t, s = low ++ t ∧ likeMatch ts t = true
  | [], _, s, h => ⟨s, rfl, h⟩
  | _ :: _, _, [], h => by simp [likeMatch] at h
  | b :: low, ts, c :: s, h => by
    simp only [List.map_cons, List.cons_append, likeMatch, Bool.and_eq_true, beq_iff_eq] at h
    obtain ⟨t, rfl, ht⟩ := likeMatch_lits low ts s h.2
    exact ⟨t, by simp [h.1], ht⟩

theorem eq_nil_of_likeMatch_nil {s : List UInt8} (h : likeMatch [] s = true) : s = [] := by
  simpa [likeMatch] using h

theorem ne_nil_of_likeMatch_one {ts : List LikeToken} {s : List UInt8}
    (h : likeMatch (.one :: ts) s = true) : s ≠ [] := by
  rintro rfl
  simp [likeMatch] at h

/-! ## The order of byte strings -/

/-- A string is below every longer string that starts with it. -/
theorem lex_append (low : List UInt8) {t : List UInt8} (ht : t ≠ []) :
    List.Lex (· < ·) low (low ++ t) := by
  induction low with
  | nil =>
    obtain ⟨a, t, rfl⟩ := List.exists_cons_of_ne_nil ht
    exact .nil
  | cons b low ih => exact .cons ih

theorem lt_add_one_of_ne {b : UInt8} (h : b + 1 ≠ 0) : b < b + 1 := by
  have h1 : (1 : UInt8).toBitVec = 1 := rfl
  have : b.toBitVec + 1 ≠ 0 := fun h' => h (by rw [UInt8.add_def, h1, h']; rfl)
  rw [UInt8.lt_def, UInt8.add_def, h1]
  bv_omega

/-- Adding one with carry gives bytes above every string that starts with the original ones. -/
theorem lex_carry : ∀ {bs high : List UInt8}, carry bs = some high →
    ∀ t, List.Lex (· < ·) (bs.reverse ++ t) high.reverse
  | [], _, h, _ => by simp [carry] at h
  | b :: bs, high, h, t => by
    unfold carry at h
    split_ifs at h with hb
    · cases h
      simpa using List.Lex.append_left _ (List.Lex.rel (lt_add_one_of_ne hb)) bs.reverse
    · obtain ⟨h', hc, rfl⟩ := Option.map_eq_some'.1 h
      simpa using List.Lex.append_right _ [0] (lex_carry hc (b :: t))

/-- Every string that starts with `lowValue` is below `highValue`. -/
theorem lex_highValue {low high : List UInt8} (h : highValue low = some high) (t : List UInt8) :
    List.Lex (· < ·) (low ++ t) high := by
  obtain ⟨h', hc, rfl⟩ := Option.map_eq_some'.1 h
  simpa using lex_carry hc t

end Gleam.Plan
