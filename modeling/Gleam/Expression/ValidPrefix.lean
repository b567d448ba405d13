import Mathlib.Data.List.Basic

/-!
# The number prefix of a string: `getValidPrefix`

`getValidPrefix(s, base)` returns the prefix of `s` that can be parsed as a number in `base`. It
reads the bytes of `s` one at a time as runes: a digit or letter is accepted while its upper case
is below `upper`, the rune after the last digit of `base` (`'0' + base` for bases up to 9,
`'A' + base - 10` above); a sign is skipped at the start and ends the scan elsewhere; any other
rune ends the scan. It returns the bytes up to the last accepted one, without a leading `+`.

A byte converts to the rune of the same number, so the runes read are those below 256. The
`unicode` predicates are those of Go's tables on these runes (`isDigit`, `isLower`, `isUpper`,
`toUpper`); a letter above ASCII has its upper case above every `upper`, so it ends the scan like
any other byte above ASCII.

## Main definitions

* `getValidPrefix`, with its loop `scanValid`.
* `digitValue`, `IsNumber`: the ASCII digits and letters and their values; the strings
  `[sign] d1 … dk` with `k ≥ 1`.

## Main results

* `scanValid_eq`: the loop stops at the first byte that is not a digit of `base`.
* `getValidPrefix_longest`: `getValidPrefix` is the longest prefix of `s` that is a number in
  `base`, without a leading `+`, or empty if there is none.
-/

namespace Gleam.Expression

/-! ## Runes and the `unicode` tables below 256 -/

/-- `rune(x)`: the conversion of an `int64` to `int32`, which keeps the low 32 bits. -/
def rune (x : Int) : Int := (x + 2147483648) % 4294967296 - 2147483648

/-- `unicode.IsDigit` on the runes below 256: `'0'` to `'9'`. -/
def isDigit (c : Int) : Bool := 48 ≤ c && c ≤ 57

/-- `unicode.IsLower` on the runes below 256: `a` to `z`, `µ`, and `ß` to `ÿ` except `÷`. -/
def isLower (c : Int) : Bool := (97 ≤ c && c ≤ 122) || c == 181 || (223 ≤ c && c ≤ 255 && c != 247)

/-- `unicode.IsUpper` on the runes below 256: `A` to `Z`, and `À` to `Þ` except `×`. -/
def isUpper (c : Int) : Bool := (65 ≤ c && c ≤ 90) || (192 ≤ c && c ≤ 222 && c != 215)

/-- `unicode.ToUpper` on the runes below 256: `a` to `z` and `à` to `þ` (except `÷`) move down by
32, `µ` becomes `Μ` (`U+039C`), `ÿ` becomes `Ÿ` (`U+0178`); the others are kept. -/
def toUpper (c : Int) : Int :=
  if 97 ≤ c ∧ c ≤ 122 then c - 32
  else if c = 181 then 924
  else if c = 255 then 376
  else if 224 ≤ c ∧ c ≤ 254 ∧ c ≠ 247 then c - 32
  else c

/-! ## `getValidPrefix` -/

/-- The loop of `getValidPrefix` from byte `i` on, with `validLen` so far: it returns `validLen`
where the loop breaks or ends. -/
def scanValid (upper : Int) : List UInt8 → Nat → Nat → Nat
  | [], _, validLen => validLen
  | b :: bs, i, validLen =>
    let c : Int := b.toNat
    if isDigit c || isLower c || isUpper c then
      if toUpper c < upper then scanValid upper bs (i + 1) (i + 1) else validLen
    else if c = 43 ∨ c = 45 then
      if i ≠ 0 then validLen else scanValid upper bs (i + 1) validLen
    else validLen

/-- `upper`: the rune after the last digit of `base`, or none for a base above 36. -/
def upperOf (base : Int) : Option Int :=
  if 2 ≤ base ∧ base ≤ 9 then some (rune (48 + base))
  else if base ≤ 36 then some (rune (65 + base - 10))
  else none

/-- `getValidPrefix(s, base)`: `s[1:validLen]` after a leading `+`, `s[:validLen]` otherwise. -/
def getValidPrefix (s : List UInt8) (base : Int) : List UInt8 :=
  match upperOf base with
  | none => []
  | some upper =>
    let validLen := scanValid upper s 0 0
    if validLen > 1 ∧ s.head? = some 43 then (s.drop 1).take (validLen - 1) else s.take validLen

/-! ## Numbers in a base -/

/-- The value of an ASCII digit or letter: `0` to `9`, then `a` or `A` is 10 up to `z` or `Z`,
which is 35. -/
def digitValue (b : UInt8) : Option Nat :=
  if 48 ≤ b.toNat ∧ b.toNat ≤ 57 then some (b.toNat - 48)
  else if 65 ≤ b.toNat ∧ b.toNat ≤ 90 then some (b.toNat - 55)
  else if 97 ≤ b.toNat ∧ b.toNat ≤ 122 then some (b.toNat - 87)
  else none

/-- `b` is a digit of `base`: an ASCII digit or letter whose value is below `base`. -/
def isDigitOf (base : Int) (b : UInt8) : Bool := (digitValue b).any fun v : Nat => decide ((v : Int) < base)

/-- `p` is a number in `base`: an optional `+` or `-`, then one or more digits of `base`. -/
def IsNumber (base : Int) (p : List UInt8) : Prop :=
  ∃ sign ds, (sign = [] ∨ sign = [43] ∨ sign = [45]) ∧ ds ≠ [] ∧
    (∀ d ∈ ds, isDigitOf base d = true) ∧ p = sign ++ ds

/-- A number without its leading `+`. -/
def dropPlus (p : List UInt8) : List UInt8 := if p.head? = some 43 then p.tail else p

/-! ## One byte: the scan accepts exactly the digits of `base` -/

theorem rune_of_inInt32 {x : Int} (h : -2147483648 ≤ x ∧ x < 2147483648) : rune x = x := by
  unfold rune; omega

/-- For a base from 2 to 36, `upper` is `'0' + base` or `'A' + base - 10`, with no wrap. -/
theorem upperOf_eq {base upper : Int} (hb : 2 ≤ base ∧ base ≤ 36) (hu : upperOf base = some upper) :
    upper = if base ≤ 9 then 48 + base else 55 + base := by
  unfold upperOf at hu
  split_ifs at hu <;> cases hu <;> split_ifs <;> rw [rune_of_inInt32 (by omega)] <;> omega

theorem upperOf_isSome {base : Int} (hb : base ≤ 36) : ∃ upper, upperOf base = some upper := by
  unfold upperOf; split_ifs <;> simp

/-- The byte test of the loop against a bound `u` up to `'Z' + 1`: a letter above ASCII has its
upper case above `u`, so only ASCII digits and letters pass. -/
theorem acceptByte_iff {c : Nat} (hc : c < 256) {u : Int} (hu : u ≤ 91) :
    ((isDigit c || isLower c || isUpper c) && decide (toUpper c < u)) = true ↔
      (48 ≤ c ∧ c ≤ 57 ∧ (c : Int) < u) ∨ (65 ≤ c ∧ c ≤ 90 ∧ (c : Int) < u) ∨
        (97 ≤ c ∧ c ≤ 122 ∧ (c : Int) - 32 < u) := by
  simp only [isDigit, isLower, isUpper, toUpper, Bool.and_eq_true, Bool.or_eq_true, decide_eq_true_eq,
    beq_iff_eq, bne_iff_ne, ne_eq]
  split_ifs <;> omega

/-- The digits of `base`, range by range. -/
theorem isDigitOf_iff (b : UInt8) (base : Int) :
    isDigitOf base b = true ↔
      (48 ≤ b.toNat ∧ b.toNat ≤ 57 ∧ (b.toNat : Int) - 48 < base) ∨
      (65 ≤ b.toNat ∧ b.toNat ≤ 90 ∧ (b.toNat : Int) - 55 < base) ∨
        (97 ≤ b.toNat ∧ b.toNat ≤ 122 ∧ (b.toNat : Int) - 87 < base) := by
  simp only [isDigitOf, digitValue]
  split_ifs <;> simp only [Option.any_some, Option.any_none, decide_eq_true_eq, Bool.false_eq_true,
    false_iff] <;> omega

/-- The byte test of the loop, a digit or letter whose upper case is below `upper`, accepts
exactly the digits of `base`. -/
theorem acceptByte_eq {base upper : Int} (hb : 2 ≤ base ∧ base ≤ 36) (hu : upperOf base = some upper)
    (b : UInt8) :
    ((isDigit b.toNat || isLower b.toNat || isUpper b.toNat) &&
      decide (toUpper b.toNat < upper)) = isDigitOf base b := by
  have hup := upperOf_eq hb hu
  rw [Bool.eq_iff_iff, acceptByte_iff b.toNat_lt_size (by split_ifs at hup <;> omega), isDigitOf_iff]
  split_ifs at hup <;> omega

theorem not_isDigitOf_sign {base : Int} {b : UInt8} (h : b = 43 ∨ b = 45) : isDigitOf base b = false := by
  rcases h with rfl | rfl <;> rfl

/-- The loop's sign test on the rune is the test on the byte. -/
theorem isSign_iff (b : UInt8) : ((b.toNat : Int) = 43 ∨ (b.toNat : Int) = 45) ↔ (b = 43 ∨ b = 45) := by
  constructor
  · rintro (h | h)
    · have h43 : b.toNat = 43 := by omega
      exact .inl (UInt8.toNat.inj h43)
    · have h45 : b.toNat = 45 := by omega
      exact .inr (UInt8.toNat.inj h45)
  · rintro (rfl | rfl) <;> simp

/-- A sign is neither a digit nor a letter. -/
theorem not_isLetter_sign {b : UInt8} (h : b = 43 ∨ b = 45) :
    (isDigit b.toNat || isLower b.toNat || isUpper b.toNat) = false := by
  rcases h with rfl | rfl <;> rfl

/-! ## The loop -/

section Scan

variable {base upper : Int} (hb : 2 ≤ base ∧ base ≤ 36) (hu : upperOf base = some upper)
include hb hu

/-- One iteration of the loop: a digit of `base` is accepted, a sign is skipped at the start,
and anything else ends the loop. -/
theorem scanValid_cons (b : UInt8) (bs : List UInt8) (i v : Nat) :
    scanValid upper (b :: bs) i v =
      if isDigitOf base b then scanValid upper bs (i + 1) (i + 1)
      else if (b = 43 ∨ b = 45) ∧ i = 0 then scanValid upper bs (i + 1) v
      else v := by
  have hstep := acceptByte_eq hb hu b
  by_cases hd : isDigitOf base b = true
  · have ⟨h1, h2⟩ : (isDigit b.toNat || isLower b.toNat || isUpper b.toNat) = true ∧
        toUpper b.toNat < upper := by simpa [hd] using hstep
    rw [scanValid, if_pos h1, if_pos h2, if_pos hd]
  · rw [scanValid, if_neg hd]
    by_cases h1 : (isDigit b.toNat || isLower b.toNat || isUpper b.toNat) = true
    · have h2 : ¬ toUpper b.toNat < upper := by simpa [h1, hd] using hstep
      have hs : ¬ (b = 43 ∨ b = 45) := fun hs => by simp [not_isLetter_sign hs] at h1
      simp only [h1, h2, hs, if_true, if_false, false_and]
    · simp only [h1, Bool.false_eq_true, if_false, isSign_iff]
      by_cases hs : b = 43 ∨ b = 45 <;> by_cases hi : i = 0 <;> simp [hs, hi]

/-- Past the first byte, the loop accepts the longest run of digits of `base` and stops at the
first other byte: `validLen` becomes the index after that run, or stays as it was. -/
theorem scanValid_eq (bs : List UInt8) {i : Nat} (hi : i ≠ 0) (v : Nat) :
    scanValid upper bs i v =
      if bs.takeWhile (isDigitOf base) = [] then v else i + (bs.takeWhile (isDigitOf base)).length := by
  induction bs generalizing i v with
  | nil => simp [scanValid]
  | cons b bs ih =>
    rw [scanValid_cons hb hu]
    by_cases hd : isDigitOf base b = true
    · rw [if_pos hd, ih (Nat.succ_ne_zero i), List.takeWhile_cons_of_pos hd]
      split_ifs <;> simp_all; omega
    · rw [if_neg hd, if_neg fun h => hi h.2, List.takeWhile_cons_of_neg hd, if_pos rfl]

/-- The loop from the first byte: a run of digits from the start, a sign followed by a run of
digits, or nothing. -/
theorem scanValid_cons_zero (b : UInt8) (bs : List UInt8) :
    scanValid upper (b :: bs) 0 0 =
      if isDigitOf base b then ((b :: bs).takeWhile (isDigitOf base)).length
      else if (b = 43 ∨ b = 45) ∧ bs.takeWhile (isDigitOf base) ≠ [] then
        (bs.takeWhile (isDigitOf base)).length + 1
      else 0 := by
  rw [scanValid_cons hb hu, scanValid_eq hb hu bs Nat.one_ne_zero, scanValid_eq hb hu bs Nat.one_ne_zero]
  by_cases hd : isDigitOf base b = true
  · rw [if_pos hd, if_pos hd, List.takeWhile_cons_of_pos hd]
    split_ifs <;> simp_all [Nat.add_comm]
  · rw [if_neg hd, if_neg hd]
    generalize bs.takeWhile (isDigitOf base) = T
    by_cases hs : b = 43 ∨ b = 45 <;> by_cases hT : T = [] <;> simp [hs, hT, Nat.add_comm]

end Scan

/-! ## The longest number prefix -/

theorem IsNumber.ne_nil {base : Int} {p : List UInt8} (h : IsNumber base p) : p ≠ [] := by
  obtain ⟨sign, ds, -, hne, -, rfl⟩ := h
  simp [hne]

/-- A prefix whose elements all pass `p` is no longer than `takeWhile p`. -/
theorem length_le_takeWhile {α : Type} {p : α → Bool} {q l : List α} (h : q <+: l)
    (hq : ∀ x ∈ q, p x = true) : q.length ≤ (l.takeWhile p).length := by
  obtain ⟨t, rfl⟩ := h
  rw [List.takeWhile_append_of_pos hq, List.length_append]
  omega

/-- A number that is a prefix of `b :: bs` is either a run of digits from `b` on, or a sign `b`
followed by digits of `bs`. -/
theorem isNumber_prefix_cons {base : Int} {b : UInt8} {bs q : List UInt8} (h : q <+: b :: bs)
    (hq : IsNumber base q) :
    (isDigitOf base b = true ∧ q.length ≤ ((b :: bs).takeWhile (isDigitOf base)).length) ∨
      ((b = 43 ∨ b = 45) ∧ bs.takeWhile (isDigitOf base) ≠ [] ∧
        q.length ≤ (bs.takeWhile (isDigitOf base)).length + 1) := by
  obtain ⟨sign, ds, hsign, hne, hds, rfl⟩ := hq
  obtain ⟨d, ds, rfl⟩ := List.exists_cons_of_ne_nil hne
  rcases hsign with rfl | hsign
  · obtain ⟨rfl, -⟩ := List.cons_prefix_cons.1 h
    exact .inl ⟨hds _ (List.mem_cons_self _ _), length_le_takeWhile h hds⟩
  · obtain ⟨c, hc, rfl⟩ : ∃ c, (c = 43 ∨ c = 45) ∧ sign = [c] := by
      rcases hsign with rfl | rfl <;> exact ⟨_, by simp, rfl⟩
    obtain ⟨rfl, hp⟩ := List.cons_prefix_cons.1 h
    have hlen := length_le_takeWhile hp hds
    refine .inr ⟨hc, fun h0 => by simp [h0] at hlen, by simpa using hlen⟩

theorem getValidPrefix_of_scanValid {base upper : Int} (hu : upperOf base = some upper) {s : List UInt8}
    {v : Nat} (hv : scanValid upper s 0 0 = v) :
    getValidPrefix s base = if v > 1 ∧ s.head? = some 43 then (s.drop 1).take (v - 1) else s.take v := by
  subst hv; simp only [getValidPrefix, hu]

/-- For a base from 2 to 36, `getValidPrefix(s, base)` is the longest prefix of `s` that is a
number in `base` (an optional sign, then one or more digits of `base`), without its leading `+`;
it is empty when no prefix of `s` is such a number. -/
theorem getValidPrefix_longest {base : Int} (hb : 2 ≤ base ∧ base ≤ 36) (s : List UInt8) :
    (∃ p, p <+: s ∧ IsNumber base p ∧ (∀ q, q <+: s → IsNumber base q → q.length ≤ p.length) ∧
        getValidPrefix s base = dropPlus p) ∨
      ((∀ q, q <+: s → ¬ IsNumber base q) ∧ getValidPrefix s base = []) := by
  obtain ⟨upper, hu⟩ := upperOf_isSome hb.2
  cases s with
  | nil =>
    exact .inr ⟨fun q hq hn => hn.ne_nil (List.prefix_nil.1 hq), by simp [getValidPrefix, hu, scanValid]⟩
  | cons b bs =>
    have hscan := scanValid_cons_zero hb hu b bs
    by_cases hd : isDigitOf base b = true
    · -- a run of digits from the start
      rw [if_pos hd] at hscan
      have hb43 : b ≠ 43 := fun h => by simp [not_isDigitOf_sign (.inl h)] at hd
      refine .inl ⟨(b :: bs).takeWhile (isDigitOf base), List.takeWhile_prefix _,
        ⟨[], (b :: bs).takeWhile (isDigitOf base), .inl rfl, by simp [hd],
          fun _ => List.mem_takeWhile_imp, rfl⟩, fun q hq hn => ?_, ?_⟩
      · rcases isNumber_prefix_cons hq hn with h | h
        exacts [h.2, absurd hd (by simp [not_isDigitOf_sign h.1])]
      · rw [getValidPrefix_of_scanValid hu hscan, if_neg (by simp [hb43]),
          ← List.prefix_iff_eq_take.1 (List.takeWhile_prefix _), dropPlus, if_neg (by simp [hd, hb43])]
    · rw [if_neg hd] at hscan
      by_cases hs : (b = 43 ∨ b = 45) ∧ bs.takeWhile (isDigitOf base) ≠ []
      · -- a sign, then a run of digits
        rw [if_pos hs] at hscan
        have hlen : 0 < (bs.takeWhile (isDigitOf base)).length := List.length_pos.2 hs.2
        refine .inl ⟨b :: bs.takeWhile (isDigitOf base),
          List.cons_prefix_cons.2 ⟨rfl, List.takeWhile_prefix _⟩,
          ⟨[b], bs.takeWhile (isDigitOf base), by rcases hs.1 with rfl | rfl <;> simp, hs.2,
            fun _ => List.mem_takeWhile_imp, rfl⟩,
          fun q hq hn => ?_, ?_⟩
        · rcases isNumber_prefix_cons hq hn with h | h
          exacts [absurd h.1 hd, by simpa using h.2.2]
        · have htake := List.prefix_iff_eq_take.1 (List.takeWhile_prefix (isDigitOf base) (l := bs))
          rw [getValidPrefix_of_scanValid hu hscan]
          rcases hs.1 with rfl | rfl
          · simp [dropPlus, ← htake, hlen]
          · simp [dropPlus, ← htake]
      · -- no number
        rw [if_neg hs] at hscan
        refine .inr ⟨fun q hq hn => ?_, by simp [getValidPrefix_of_scanValid hu hscan]⟩
        rcases isNumber_prefix_cons hq hn with h | h
        exacts [hd h.1, hs ⟨h.1, h.2.1⟩]

theorem getValidPrefix_longest_hex :
    (2 ≤ (16 : Int) ∧ (16 : Int) ≤ 36) ∧
      ((∃ p, p <+: [43, 49, 102, 122] ∧ IsNumber 16 p ∧
          (∀ q, q <+: [43, 49, 102, 122] → IsNumber 16 q → q.length ≤ p.length) ∧
          getValidPrefix [43, 49, 102, 122] 16 = dropPlus p) ∨
        ((∀ q, q <+: [43, 49, 102, 122] → ¬ IsNumber 16 q) ∧ getValidPrefix [43, 49, 102, 122] 16 = [])) :=
  ⟨by decide, getValidPrefix_longest (by decide) _⟩

/-- `"+1fz"` in base 16 gives `"1f"`; `"7à"` in base 36 gives `"7"`: `à` is a lower-case letter
whose upper case `À` is above `'Z'`. -/
example : getValidPrefix [43, 49, 102, 122] 16 = [49, 102] ∧ getValidPrefix [55, 224] 36 = [55] := by
  decide

end Gleam.Expression
