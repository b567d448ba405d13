import Gleam.FileSort.HeapOrder
import Mathlib.Order.Lattice

/-!
# `lessThan` is a strict weak order

`lessThan` compares two keys column by column with `CompareDatum` and lets the first column
that differs decide, reversed where `byDesc` says so (`lessThan_eq_firstDiff`). When
`CompareDatum` compares the datums of each column by a key in a linear order (`ComparesBy`, one
key per column), `lessThan` never fails on keys of `len(byDesc)` datums and is the lexicographic
order of those keys (`lessThan_eq_colsLess`), which is a strict weak order
(`colsLess_strictWeakOn`). So the sort and the merge get what they require of `Less`
(`lessThan_validLess`).

## Main definitions

* `ComparesBy`: `CompareDatum` compares by a key into a linear order.
* `firstDiff`: the verdict of the first column comparison that is not zero.
* `colsLess`, `keyLess`: the lexicographic order on keys, with one key per column or one for all.

## Main results

* `lessThan_eq_firstDiff`: `lessThan` is decided by the first column that differs.
* `lessThan_eq_colsLess`, `lessThan_eq_keyLess`: `lessThan` computes the lexicographic order.
* `lessThan_firstDiff_strictWeak`: both, with the strict weak order on well-sized keys.
* `lessThan_validLess`: `lessThan` never fails and is a strict weak order on well-sized keys.
-/

namespace Gleam.FileSort

variable {D K : Type} [LinearOrder K]

/-- `CompareDatum` on the datums satisfying `S` compares them by `key`: negative below, zero at
equal keys, positive above. -/
def ComparesBy (compareDatum : D → D → Except String Int) (key : D → K) (S : D → Prop) : Prop :=
  ∀ a b, S a → S b → ∃ c, compareDatum a b = .ok c ∧ (c < 0 ↔ key a < key b) ∧ (0 < c ↔ key b < key a)

/-- The order of one column: ascending, or descending when `desc`. -/
def colLt (desc : Bool) (a b : K) : Bool := if desc then decide (b < a) else decide (a < b)

theorem colLt_irrefl (desc : Bool) (a : K) : colLt desc a a = false := by
  cases desc <;> simp [colLt]

theorem colLt_trans {desc : Bool} {a b c : K} (hab : colLt desc a b = true)
    (hbc : colLt desc b c = true) : colLt desc a c = true := by
  cases desc <;> simp only [colLt, Bool.false_eq_true, ↓reduceIte, decide_eq_true_eq] at *
  · exact hab.trans hbc
  · exact hbc.trans hab

theorem colLt_trichotomy (desc : Bool) (a b : K) :
    colLt desc a b = true ∨ a = b ∨ colLt desc b a = true := by
  cases desc <;> simp only [colLt, decide_eq_true_eq] <;> rcases lt_trichotomy a b with h | h | h <;>
    simp [h]

/-- A valid `Less` stays valid on fewer items. -/
theorem ValidLess.mono {α : Type} {lt : α → α → Except String Bool} {S S' : α → Prop}
    (hv : ValidLess lt S) (h : ∀ a, S' a → S a) : ValidLess lt S' where
  ok a b ha hb := hv.ok a b (h a ha) (h b hb)
  order := ⟨fun a ha => hv.order.irrefl a (h a ha),
    fun a b c ha hb hc => hv.order.trans a b c (h a ha) (h b hb) (h c hc),
    fun a b c ha hb hc => hv.order.negTrans a b c (h a ha) (h b hb) (h c hc)⟩

variable (key : D → K)

/-- The lexicographic order on keys: the first column whose keys differ decides. -/
def keyLess : List Bool → List D → List D → Bool
  | desc :: ds, x :: xs, y :: ys => colLt desc (key x) (key y) || (key x = key y && keyLess ds xs ys)
  | _, _, _ => false

variable {key}

/-- The lexicographic order on keys whose column `k` is ordered by its own key `keys k`. -/
def colsLess (keys : Nat → D → K) : List Bool → List D → List D → Bool
  | desc :: ds, x :: xs, y :: ys =>
    colLt desc (keys 0 x) (keys 0 y) ||
      (keys 0 x = keys 0 y && colsLess (fun k => keys (k + 1)) ds xs ys)
  | _, _, _ => false

/-- The keys of `len(byDesc)` datums whose datum in column `k` satisfies `S k`. -/
def InCols (S : Nat → D → Prop) (ds : List Bool) (xs : List D) : Prop :=
  xs.length = ds.length ∧ ∀ k x, xs[k]? = some x → S k x

/-- The verdict of a column-by-column comparison whose results are `cs`: the first result that is
not zero decides, negative for an ascending column and positive for a descending one. -/
def firstDiff : List Bool → List Int → Bool
  | desc :: ds, c :: cs => if c = 0 then firstDiff ds cs else if desc then decide (0 < c) else decide (c < 0)
  | _, _ => false

/-- One key for every column is the lexicographic order of `keyLess`. -/
theorem keyLess_eq_colsLess : ∀ (ds : List Bool) (xs ys : List D),
    keyLess key ds xs ys = colsLess (fun _ => key) ds xs ys
  | _ :: ds, _ :: xs, _ :: ys => by simp only [keyLess, colsLess, keyLess_eq_colsLess ds xs ys]
  | [], _, _ | _ :: _, [], _ | _ :: _, _ :: _, [] => rfl

/-- Two keys compare by their first column, then by the rest when the first columns are equal. -/
theorem colsLess_cons (keys : Nat → D → K) (desc : Bool) (ds : List Bool) (x y : D) (xs ys : List D) :
    colsLess keys (desc :: ds) (x :: xs) (y :: ys) = true ↔
      colLt desc (keys 0 x) (keys 0 y) = true ∨
        (keys 0 x = keys 0 y ∧ colsLess (fun k => keys (k + 1)) ds xs ys = true) := by
  simp [colsLess]

/-- `lessThan` lets the first column whose comparison is not zero decide, whenever every
column's comparison succeeds. -/
theorem lessThan_eq_firstDiff {compareDatum : D → D → Except String Int} :
    ∀ (ds : List Bool) (xs ys : List D) (cs : List Int),
      List.Forall₂ (fun c (xy : D × D) => compareDatum xy.1 xy.2 = .ok c) cs (xs.zip ys) →
      lessThan compareDatum ds xs ys = .ok (firstDiff ds cs)
  | desc :: ds, x :: xs, y :: ys, c :: cs, .cons hc hcs => by
    simp only [lessThan, hc, firstDiff, lessThan_eq_firstDiff ds xs ys cs hcs]
    rcases lt_trichotomy c 0 with h | rfl | h
    · have h' := Int.neg_pos_of_neg h
      cases desc <;> simp [h, h.ne, h.not_lt, h', h'.not_lt]
    · cases desc <;> simp
    · have h' := Int.neg_neg_of_pos h
      cases desc <;> simp [h, h.ne', h.not_lt, h', h'.not_lt]
  | [], _, _, cs, _ => by cases cs <;> rfl
  | _ :: _, [], _, _, .nil | _ :: _, _ :: _, [], _, .nil => rfl

/-- `lessThan` compares by the columns' keys, without failing, when `CompareDatum` compares the
datums of each column by that column's key. -/
theorem lessThan_eq_colsLess {compareDatum : D → D → Except String Int} :
    ∀ {keys : Nat → D → K} {S : Nat → D → Prop}, (∀ k, ComparesBy compareDatum (keys k) (S k)) →
      ∀ (ds : List Bool) (xs ys : List D), (∀ k x, xs[k]? = some x → S k x) →
        (∀ k y, ys[k]? = some y → S k y) →
        lessThan compareDatum ds xs ys = .ok (colsLess keys ds xs ys)
  | keys, S, h, desc :: ds, x :: xs, y :: ys, hx, hy => by
    obtain ⟨c, hc, hneg, hpos⟩ := h 0 x y (hx 0 x List.getElem?_cons_zero) (hy 0 y List.getElem?_cons_zero)
    have ih := lessThan_eq_colsLess (fun k => h (k + 1)) ds xs ys
      (fun k z hz => hx (k + 1) z (by rwa [List.getElem?_cons_succ]))
      (fun k z hz => hy (k + 1) z (by rwa [List.getElem?_cons_succ]))
    simp only [lessThan, hc, colsLess, colLt]
    rcases lt_trichotomy (keys 0 x) (keys 0 y) with hxy | hxy | hxy
    · have hc₁ : c < 0 := hneg.2 hxy
      have hc₂ := Int.neg_pos_of_neg hc₁
      cases desc <;> simp [hc₁, hc₁.not_lt, hc₂, hc₂.not_lt, hxy, hxy.ne, hxy.not_lt]
    · have hc₀ : c = 0 :=
        le_antisymm (not_lt.1 fun h' => (hpos.1 h').ne' hxy) (not_lt.1 fun h' => (hneg.1 h').ne hxy)
      cases desc <;> simp [hc₀, hxy, ih]
    · have hc₁ : 0 < c := hpos.2 hxy
      have hc₂ := Int.neg_neg_of_pos hc₁
      cases desc <;> simp [hc₁, hc₁.not_lt, hc₂, hc₂.not_lt, hxy, hxy.ne', hxy.not_lt]
  | _, _, _, [], _, _, _, _ => by simp [lessThan, colsLess]
  | _, _, _, _ :: _, [], _, _, _ => by simp [lessThan, colsLess]
  | _, _, _, _ :: _, _ :: _, [], _, _ => by simp [lessThan, colsLess]

/-- `lessThan` compares by the keys, without failing, when `CompareDatum` does. -/
theorem lessThan_eq_keyLess {compareDatum : D → D → Except String Int} {S : D → Prop}
    (h : ComparesBy compareDatum key S) (ds : List Bool) (xs ys : List D) (hx : ∀ x ∈ xs, S x)
    (hy : ∀ y ∈ ys, S y) : lessThan compareDatum ds xs ys = .ok (keyLess key ds xs ys) := by
  rw [keyLess_eq_colsLess]
  exact lessThan_eq_colsLess (S := fun _ => S) (fun _ => h) ds xs ys
    (fun _ x h => hx x (List.getElem?_mem h)) (fun _ y h => hy y (List.getElem?_mem h))

/-- No key is below itself. -/
theorem colsLess_irrefl : ∀ (keys : Nat → D → K) (ds : List Bool) (xs : List D),
    colsLess keys ds xs xs = false
  | _, _ :: ds, _ :: xs => by simp [colsLess, colLt_irrefl, colsLess_irrefl _ ds xs]
  | _, [], _ | _, _ :: _, [] => rfl

/-- Keys below one another are in order. -/
theorem colsLess_trans : ∀ {keys : Nat → D → K} {ds : List Bool} {xs ys zs : List D},
    colsLess keys ds xs ys = true → colsLess keys ds ys zs = true → colsLess keys ds xs zs = true
  | _, _ :: _, _ :: _, _ :: _, _ :: _, hxy, hyz => by
    rw [colsLess_cons] at hxy hyz ⊢
    rcases hxy with hxy | ⟨hxy, hxy'⟩ <;> rcases hyz with hyz | ⟨hyz, hyz'⟩
    · exact .inl (colLt_trans hxy hyz)
    · exact .inl (hyz ▸ hxy)
    · exact .inl (hxy ▸ hyz)
    · exact .inr ⟨hxy.trans hyz, colsLess_trans hxy' hyz'⟩
  | _, [], _, _, _, h, _ | _, _ :: _, [], _, _, h, _ | _, _ :: _, _ :: _, [], _, h, _ => by
    simp [colsLess] at h
  | _, _ :: _, _ :: _, _ :: _, [], _, h => by simp [colsLess] at h

/-- Of two keys in order, any key of `len(byDesc)` datums is above the lower one or below the
upper one. -/
theorem colsLess_negTrans : ∀ {keys : Nat → D → K} {ds : List Bool} {xs ys zs : List D},
    ys.length = ds.length → colsLess keys ds xs zs = true →
      colsLess keys ds xs ys = true ∨ colsLess keys ds ys zs = true
  | keys, desc :: _, x :: _, y :: _, z :: _, hys, hxz => by
    simp only [colsLess_cons] at hxz ⊢
    rcases colLt_trichotomy desc (keys 0 x) (keys 0 y) with hxy | hxy | hyx
    · exact .inl (.inl hxy)
    · rcases hxz with hxz | ⟨hxz, hxz'⟩
      · exact .inr (.inl (hxy ▸ hxz))
      · rcases colsLess_negTrans (by simpa using hys) hxz' with h | h
        · exact .inl (.inr ⟨hxy, h⟩)
        · exact .inr (.inr ⟨hxy ▸ hxz, h⟩)
    · rcases hxz with hxz | ⟨hxz, -⟩
      · rcases colLt_trichotomy desc (keys 0 y) (keys 0 z) with hyz | hyz | hzy
        · exact .inr (.inl hyz)
        · exact absurd (colLt_trans hyx (hyz ▸ hxz)) (by simp [colLt_irrefl])
        · exact absurd (colLt_trans hyx (colLt_trans hxz hzy)) (by simp [colLt_irrefl])
      · exact .inr (.inl (hxz ▸ hyx))
  | _, [], _, _, _, _, h | _, _ :: _, [], _, _, _, h | _, _ :: _, _ :: _, _, [], _, h => by
    simp [colsLess] at h
  | _, _ :: _, _ :: _, [], _ :: _, hys, _ => by simp at hys

/-- The lexicographic order on keys of `len(byDesc)` datums is a strict weak order. -/
theorem colsLess_strictWeakOn (keys : Nat → D → K) (ds : List Bool) :
    StrictWeakOn (colsLess keys ds) fun xs => xs.length = ds.length :=
  ⟨fun xs _ => colsLess_irrefl keys ds xs, fun _ _ _ _ _ _ => colsLess_trans,
    fun _ _ _ _ hys _ => colsLess_negTrans hys⟩

variable (key) in
/-- The lexicographic order on keys of `len(byDesc)` datums is a strict weak order. -/
theorem keyLess_strictWeakOn (ds : List Bool) :
    StrictWeakOn (keyLess key ds) fun xs => xs.length = ds.length := by
  have heq : keyLess key ds = colsLess (fun _ => key) ds := funext₂ (keyLess_eq_colsLess ds)
  exact heq ▸ colsLess_strictWeakOn _ ds

/-- A `Less` that returns the verdict of a strict weak order on `S` is valid on `S`. -/
theorem ValidLess.of_ok {α : Type} {lt : α → α → Except String Bool} {r : α → α → Bool}
    {S : α → Prop} (h : ∀ a b, S a → S b → lt a b = .ok (r a b)) (ho : StrictWeakOn r S) :
    ValidLess lt S := by
  have hv : ∀ a b, S a → S b → verdict (lt a b) = r a b := fun a b ha hb => by rw [h a b ha hb]; rfl
  refine ⟨fun a b ha hb => ⟨_, h a b ha hb⟩, ⟨fun a ha => ?_, fun a b c ha hb hc hab hbc => ?_,
    fun a b c ha hb hc hac => ?_⟩⟩
  · rw [hv a a ha ha]; exact ho.irrefl a ha
  · rw [hv a b ha hb] at hab; rw [hv b c hb hc] at hbc; rw [hv a c ha hc]
    exact ho.trans a b c ha hb hc hab hbc
  · rw [hv a c ha hc] at hac; rw [hv a b ha hb, hv b c hb hc]
    exact ho.negTrans a b c ha hb hc hac

/-- `Less` of the sorter never fails and is a strict weak order on rows whose keys have
`len(byDesc)` datums that `CompareDatum` compares by a key in a linear order. -/
theorem lessThan_validLess {compareDatum : D → D → Except String Int} {S : D → Prop}
    (h : ComparesBy compareDatum key S) (ds : List Bool) :
    ValidLess (fun r₁ r₂ : ComparableRow D => lessThan compareDatum ds r₁.key r₂.key)
      fun r => r.key.length = ds.length ∧ ∀ x ∈ r.key, S x := by
  have ho := keyLess_strictWeakOn key ds
  exact ValidLess.of_ok (fun a b ha hb => lessThan_eq_keyLess h ds _ _ ha.2 hb.2)
    ⟨fun a ha => ho.irrefl _ ha.1, fun a b c ha hb hc => ho.trans _ _ _ ha.1 hb.1 hc.1,
      fun a b c ha hb hc => ho.negTrans _ _ _ ha.1 hb.1 hc.1⟩

/-- `lessThan` is the first-difference order of the column comparisons; and when `CompareDatum`
is a total order on each column (it compares that column's datums by a key in a linear order),
`lessThan` never fails on keys of `len(byDesc)` datums and is a strict weak order on them:
irreflexive and transitive, with transitive incomparability. -/
theorem lessThan_firstDiff_strictWeak :
    (∀ (compareDatum : D → D → Except String Int) (ds : List Bool) (a b : List D) (cs : List Int),
        List.Forall₂ (fun c (xy : D × D) => compareDatum xy.1 xy.2 = .ok c) cs (a.zip b) →
        lessThan compareDatum ds a b = .ok (firstDiff ds cs)) ∧
      ∀ (compareDatum : D → D → Except String Int) (keys : Nat → D → K) (S : Nat → D → Prop)
        (ds : List Bool), (∀ k, ComparesBy compareDatum (keys k) (S k)) →
        ValidLess (lessThan compareDatum ds) (InCols S ds) ∧
          ∀ a b c, InCols S ds a → InCols S ds b → InCols S ds c →
            lessThan compareDatum ds a b = .ok false ∧ lessThan compareDatum ds b a = .ok false →
            lessThan compareDatum ds b c = .ok false ∧ lessThan compareDatum ds c b = .ok false →
            lessThan compareDatum ds a c = .ok false ∧ lessThan compareDatum ds c a = .ok false := by
  refine ⟨fun _ => lessThan_eq_firstDiff, fun compareDatum keys S ds h => ?_⟩
  have heq : ∀ x y, InCols S ds x → InCols S ds y →
      lessThan compareDatum ds x y = .ok (colsLess keys ds x y) :=
    fun x y hx hy => lessThan_eq_colsLess h ds x y hx.2 hy.2
  have ho := (colsLess_strictWeakOn keys ds).mono fun xs (hxs : InCols S ds xs) => hxs.1
  refine ⟨ValidLess.of_ok heq ho, fun a b c ha hb hc hab hbc => ?_⟩
  simp only [heq _ _ ha hb, heq _ _ hb ha, heq _ _ hb hc, heq _ _ hc hb, heq _ _ ha hc, heq _ _ hc ha,
    Except.ok.injEq] at hab hbc ⊢
  exact ho.incomp_trans ha hb hc hab hbc

theorem lessThan_firstDiff_strictWeak_sub :
    (List.Forall₂ (fun c (xy : Int × Int) => (.ok (xy.1 - xy.2) : Except String Int) = .ok c) [0, 1]
        ([3, 5].zip [3, 4]) ∧
      lessThan (fun a b : Int => .ok (a - b)) [false, true] [3, 5] [3, 4] =
        .ok (firstDiff [false, true] [0, 1])) ∧
    (∀ _ : Nat, ComparesBy (fun a b : Int => .ok (a - b)) id fun _ => True) ∧
      ValidLess (lessThan (fun a b : Int => .ok (a - b)) [false, true]) (InCols (fun _ _ => True) [false, true]) ∧
        ∀ a b c, InCols (fun _ _ => True) [false, true] a → InCols (fun _ _ => True) [false, true] b →
          InCols (fun _ _ => True) [false, true] c →
          lessThan (fun a b : Int => .ok (a - b)) [false, true] a b = .ok false ∧
            lessThan (fun a b : Int => .ok (a - b)) [false, true] b a = .ok false →
          lessThan (fun a b : Int => .ok (a - b)) [false, true] b c = .ok false ∧
            lessThan (fun a b : Int => .ok (a - b)) [false, true] c b = .ok false →
          lessThan (fun a b : Int => .ok (a - b)) [false, true] a c = .ok false ∧
            lessThan (fun a b : Int => .ok (a - b)) [false, true] c a = .ok false := by
  have hcmp : ∀ _ : Nat, ComparesBy (fun a b : Int => .ok (a - b)) id fun _ => True :=
    fun _ a b _ _ => ⟨a - b, rfl, by simp only [id]; omega, by simp only [id]; omega⟩
  exact ⟨⟨.cons rfl (.cons rfl .nil), (lessThan_firstDiff_strictWeak (K := Int)).1 _ _ _ _ _
      (.cons rfl (.cons rfl .nil))⟩,
    hcmp, lessThan_firstDiff_strictWeak.2 _ (fun _ => id) _ _ hcmp⟩

end Gleam.FileSort
