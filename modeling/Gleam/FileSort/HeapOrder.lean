import Gleam.FileSort.Heap

/-!
# `container/heap` keeps `rowHeap` ordered

When `Less` never fails between the items in play and is a strict weak order on them, the sifts
of `container/heap` keep the heap invariant: no item is `Less` than its parent `(k - 1) / 2`.
`Push` then keeps the invariant, and `Pop` returns an item that no other item is `Less` than.

`up` and `down` swap an item with its parent or child until it is in place. Between two swaps
the slice is ordered except at the moving item (`UpOrder`, `DownOrder`): every other parent
and child are in order, and the moving item's children are not `Less` than its parent. One
swap moves the exception one level (`UpOrder.swap`, `DownOrder.swap`), and the loop stops on a
slice that is ordered (`UpOrder.finish`, `DownOrder.finish`).

## Main definitions

* `ValidLess`: `Less` never fails and is a strict weak order on the items.
* `HeapState.Ordered`: the heap invariant on the first `n` items.

## Main results

* `HeapState.push_ordered`: `Push` keeps the invariant.
* `HeapState.pop_ordered`: `Pop` keeps the invariant and returns a least item.
-/

namespace Gleam.FileSort

variable {α : Type}

/-- `Less` never fails between items satisfying `S`, and its verdicts are a strict weak order on
them. -/
structure ValidLess (lt : α → α → Except String Bool) (S : α → Prop) : Prop where
  ok : ∀ a b, S a → S b → ∃ v, lt a b = .ok v
  order : StrictWeakOn (fun a b => verdict (lt a b)) S

namespace HeapState

variable (lt : α → α → Except String Bool)

/-- The item at `k` is not `Less` than the item at `p`. -/
def NotBelow (l : List α) (k p : Nat) : Prop :=
  ∀ a b, l[k]? = some a → l[p]? = some b → verdict (lt a b) = false

/-- The heap invariant on the first `n` items: none is `Less` than its parent. -/
def Ordered (l : List α) (n : Nat) : Prop :=
  ∀ k, 0 < k → k < n → NotBelow lt l k ((k - 1) / 2)

/-- The slice while `up` moves the item at `j`: every other item is in order with its parent,
and the children of `j` are not `Less` than the parent of `j`. -/
structure UpOrder (l : List α) (n j : Nat) : Prop where
  except : ∀ k, 0 < k → k < n → k ≠ j → NotBelow lt l k ((k - 1) / 2)
  grand : 0 < j → ∀ k, 0 < k → k < n → (k - 1) / 2 = j → NotBelow lt l k ((j - 1) / 2)

/-- The slice while `down` moves the item at `i`: every item whose parent is not `i` is in order
with its parent, and the children of `i` are not `Less` than the parent of `i`. -/
structure DownOrder (l : List α) (n i : Nat) : Prop where
  except : ∀ k, 0 < k → k < n → (k - 1) / 2 ≠ i → NotBelow lt l k ((k - 1) / 2)
  grand : 0 < i → ∀ k, 0 < k → k < n → (k - 1) / 2 = i → NotBelow lt l k ((i - 1) / 2)

/-- The index an item moves to when `Swap(i, j)` exchanges positions `i` and `j`. -/
def swapIndex (i j k : Nat) : Nat := if k = i then j else if k = j then i else k

@[simp] theorem swapIndex_left (i j : Nat) : swapIndex i j i = j := if_pos rfl

@[simp] theorem swapIndex_right (i j : Nat) : swapIndex i j j = i := by
  unfold swapIndex; split_ifs <;> omega

theorem swapIndex_of_ne {i j k : Nat} (hi : k ≠ i) (hj : k ≠ j) : swapIndex i j k = k := by
  simp [swapIndex, hi, hj]

variable {lt} {S : α → Prop} {l : List α}

theorem swap_getElem? (h : HeapState α) {i j : Nat} (hi : i < h.ims.length)
    (hj : j < h.ims.length) (k : Nat) : (h.swap i j).ims[k]? = h.ims[swapIndex i j k]? := by
  unfold swap swapIndex
  rw [List.getElem?_eq_getElem hi, List.getElem?_eq_getElem hj]
  dsimp only
  simp only [List.getElem?_set, List.length_set]
  split_ifs <;> subst_vars <;> simp_all

theorem notBelow_swap (h : HeapState α) {i j : Nat} (hi : i < h.ims.length)
    (hj : j < h.ims.length) (k p : Nat) :
    NotBelow lt (h.swap i j).ims k p ↔ NotBelow lt h.ims (swapIndex i j k) (swapIndex i j p) := by
  simp only [NotBelow, swap_getElem? h hi hj]

section Order

variable (hv : ValidLess lt S) (hS : ∀ a ∈ l, S a)
include hv hS

theorem notBelow_refl (k : Nat) : NotBelow lt l k k := fun a b ha hb => by
  obtain rfl : a = b := Option.some_inj.1 (ha.symm.trans hb)
  exact hv.order.irrefl a (hS a (List.getElem?_mem ha))

theorem NotBelow.trans {k p q : Nat} (h₁ : NotBelow lt l k p) (h₂ : NotBelow lt l p q)
    (hp : p < l.length) : NotBelow lt l k q := fun a c ha hc => by
  have hb := List.getElem?_eq_getElem hp
  exact hv.order.not_lt_trans (hS _ (List.getElem?_mem hc)) (hS _ (List.getElem?_mem hb))
    (hS a (List.getElem?_mem ha)) (h₂ _ c hb hc) (h₁ a _ ha hb)

/-- An item `Less` than another is not above it. -/
theorem notBelow_of_below {k p : Nat} {a b : α} (ha : l[k]? = some a) (hb : l[p]? = some b)
    (hab : verdict (lt a b) = true) : NotBelow lt l p k := fun b' a' hb' ha' => by
  obtain rfl := Option.some_inj.1 (hb.symm.trans hb')
  obtain rfl := Option.some_inj.1 (ha.symm.trans ha')
  exact hv.order.asymm (hS a (List.getElem?_mem ha)) (hS b (List.getElem?_mem hb)) hab

/-- An item not below `p` is not below an item `Less` than `p`. -/
theorem NotBelow.of_below {k j p : Nat} (h : NotBelow lt l k p) {a b : α} (ha : l[j]? = some a)
    (hb : l[p]? = some b) (hab : verdict (lt a b) = true) : NotBelow lt l k j := fun c a' hc ha' => by
  obtain rfl := Option.some_inj.1 (ha.symm.trans ha')
  cases hca : verdict (lt c a)
  · rfl
  · have := hv.order.trans c a b (hS c (List.getElem?_mem hc)) (hS a (List.getElem?_mem ha))
      (hS b (List.getElem?_mem hb)) hca hab
    rw [h c b hc hb] at this
    exact absurd this Bool.false_ne_true

/-- The root of an ordered slice is not above any item. -/
theorem Ordered.root {n : Nat} (ho : Ordered lt l n) (hn : n ≤ l.length) :
    ∀ k, k < n → NotBelow lt l k 0 := by
  intro k
  induction k using Nat.strong_induction_on with
  | _ k ih =>
    intro hk
    rcases Nat.eq_zero_or_pos k with rfl | hk0
    · exact notBelow_refl hv hS 0
    · exact (ho k hk0 hk).trans hv hS (ih _ (by omega) (by omega)) (by omega)

end Order

/-- `Less` between two items succeeds when it is valid on them, and changes nothing. -/
theorem less_eq (hv : ValidLess lt S) {h : HeapState α} {i j : Nat} {a b : α}
    (ha : h.ims[i]? = some a) (hb : h.ims[j]? = some b) (hSa : S a) (hSb : S b) :
    h.less lt i j = (verdict (lt a b), h) := by
  obtain ⟨v, hab⟩ := hv.ok a b hSa hSb
  simp [less, ha, hb, hab, verdict]

/-! ## `up` -/

section Up

variable (hv : ValidLess lt S)
include hv

/-- One swap of `up`: the item at `j` moves above its parent `p`, and the exception moves to
`p`. -/
theorem UpOrder.swap {h : HeapState α} {n j : Nat} (o : UpOrder lt h.ims n j)
    (hS : ∀ a ∈ h.ims, S a) (hn : n ≤ h.ims.length) (hj : 0 < j) (hjn : j < n) {a b : α}
    (ha : h.ims[j]? = some a) (hb : h.ims[(j - 1) / 2]? = some b)
    (hab : verdict (lt a b) = true) : UpOrder lt (h.swap ((j - 1) / 2) j).ims n ((j - 1) / 2) := by
  set p := (j - 1) / 2 with hp
  have hpj : p < j := by omega
  have hpl : p < h.ims.length := by omega
  have hjl : j < h.ims.length := by omega
  have hpp : NotBelow lt h.ims p ((p - 1) / 2) ∨ p = 0 := by
    rcases Nat.eq_zero_or_pos p with h0 | h0
    · exact .inr h0
    · exact .inl (o.except p h0 (by omega) (by omega))
  constructor
  · intro k hk hkn hkp
    rw [notBelow_swap h hpl hjl]
    by_cases hkj : k = j
    · subst hkj
      rw [swapIndex_right, ← hp, swapIndex_left]
      exact notBelow_of_below hv hS ha hb hab
    rw [swapIndex_of_ne hkp hkj]
    by_cases hkp' : (k - 1) / 2 = p
    · rw [hkp', swapIndex_left]
      exact (hkp' ▸ o.except k hk hkn hkj).of_below hv hS ha hb hab
    by_cases hkj' : (k - 1) / 2 = j
    · rw [hkj', swapIndex_right]
      exact o.grand hj k hk hkn hkj'
    · rw [swapIndex_of_ne hkp' hkj']
      exact o.except k hk hkn hkj
  · intro hp0 k hk hkn hkp
    rw [notBelow_swap h hpl hjl, swapIndex_of_ne (k := (p - 1) / 2) (by omega) (by omega)]
    have hppl := hpp.resolve_right (by omega)
    by_cases hkj : k = j
    · subst hkj
      rw [swapIndex_right]
      exact hppl
    · rw [swapIndex_of_ne (by omega) hkj]
      exact (hkp ▸ o.except k hk hkn hkj).trans hv hS hppl hpl

omit hv in
/-- `up` stops on an ordered slice: at the root, or below a parent it is not `Less` than. -/
theorem UpOrder.finish {l : List α} {n j : Nat} (o : UpOrder lt l n j)
    (hstop : 0 < j → NotBelow lt l j ((j - 1) / 2)) : Ordered lt l n := by
  intro k hk hkn
  by_cases hkj : k = j
  · subst hkj; exact hstop hk
  · exact o.except k hk hkn hkj

theorem upLoop_ordered : ∀ (fuel : Nat) (h : HeapState α) (j n : Nat), (∀ a ∈ h.ims, S a) →
    n ≤ h.ims.length → j < n → j < fuel → UpOrder lt h.ims n j →
    (upLoop lt fuel h j).err = h.err ∧ Ordered lt (upLoop lt fuel h j).ims n
  | 0, _, _, _, _, _, _, hf, _ => absurd hf (Nat.not_lt_zero _)
  | fuel + 1, h, j, n, hS, hn, hjn, hf, o => by
    unfold upLoop
    dsimp only
    by_cases hpj : (j - 1) / 2 = j
    · rw [if_pos hpj]
      exact ⟨rfl, o.finish fun hj => absurd hpj (by omega)⟩
    · rw [if_neg hpj]
      have hj : 0 < j := by omega
      obtain ⟨a, ha⟩ : ∃ a, h.ims[j]? = some a := ⟨_, List.getElem?_eq_getElem (by omega)⟩
      obtain ⟨b, hb⟩ : ∃ b, h.ims[(j - 1) / 2]? = some b :=
        ⟨_, List.getElem?_eq_getElem (by omega)⟩
      have hS' : ∀ a ∈ (h.swap ((j - 1) / 2) j).ims, S a :=
        fun a ha => hS a ((swap_perm _ _ _).subset ha)
      rw [less_eq hv ha hb (hS a (List.getElem?_mem ha)) (hS b (List.getElem?_mem hb))]
      dsimp only
      split_ifs with hab
      · obtain ⟨he, ho⟩ := upLoop_ordered fuel _ _ n hS' (by simpa using hn) (by omega) (by omega)
          (o.swap hv hS hn hj hjn ha hb hab)
        exact ⟨he.trans (swap_err _ _ _), ho⟩
      · exact ⟨rfl, o.finish fun _ a' b' ha' hb' => by
          rw [ha] at ha'; rw [hb] at hb'; cases ha'; cases hb'; simpa using hab⟩

end Up

/-! ## `down` -/

section Down

variable (hv : ValidLess lt S)
include hv

/-- The child `minChild` picks is not above the other child. -/
theorem minChild_spec {h : HeapState α} {i n : Nat} (hS : ∀ a ∈ h.ims, S a)
    (hn : n ≤ h.ims.length) (hi : 2 * i + 1 < n) :
    (minChild lt h i n).2 = h ∧ ((minChild lt h i n).1 = 2 * i + 1 ∨ (minChild lt h i n).1 = 2 * i + 2) ∧
      ∀ k, 0 < k → k < n → (k - 1) / 2 = i → NotBelow lt h.ims k (minChild lt h i n).1 := by
  obtain ⟨a, ha⟩ : ∃ a, h.ims[2 * i + 1]? = some a := ⟨_, List.getElem?_eq_getElem (by omega)⟩
  unfold minChild
  dsimp only
  by_cases h2 : 2 * i + 1 + 1 < n
  · rw [if_pos h2]
    obtain ⟨b, hb⟩ : ∃ b, h.ims[2 * i + 1 + 1]? = some b :=
      ⟨_, List.getElem?_eq_getElem (by omega)⟩
    rw [less_eq hv hb ha (hS b (List.getElem?_mem hb)) (hS a (List.getElem?_mem ha))]
    dsimp only
    refine ⟨rfl, by split_ifs <;> omega, fun k hk hkn hki => ?_⟩
    have hk' : k = 2 * i + 1 ∨ k = 2 * i + 2 := by omega
    split_ifs with hba
    · rcases hk' with rfl | rfl
      · exact notBelow_of_below hv hS hb ha hba
      · exact notBelow_refl hv hS _
    · rcases hk' with rfl | rfl
      · exact notBelow_refl hv hS _
      · intro b' a' hb' ha'
        rw [hb] at hb'; rw [ha] at ha'; cases hb'; cases ha'
        simpa using hba
  · rw [if_neg h2]
    refine ⟨rfl, .inl rfl, fun k hk hkn hki => ?_⟩
    obtain rfl : k = 2 * i + 1 := by omega
    exact notBelow_refl hv hS _

/-- One swap of `down`: the item at `i` moves below its least child `c`, and the exception
moves to `c`. -/
theorem DownOrder.swap {h : HeapState α} {n i c : Nat} (o : DownOrder lt h.ims n i)
    (hS : ∀ a ∈ h.ims, S a) (hn : n ≤ h.ims.length) (hc : c = 2 * i + 1 ∨ c = 2 * i + 2)
    (hcn : c < n) (hmin : ∀ k, 0 < k → k < n → (k - 1) / 2 = i → NotBelow lt h.ims k c)
    {a b : α} (ha : h.ims[c]? = some a) (hb : h.ims[i]? = some b)
    (hab : verdict (lt a b) = true) : DownOrder lt (h.swap i c).ims n c := by
  have hic : i < c := by omega
  have hil : i < h.ims.length := by omega
  have hcl : c < h.ims.length := by omega
  have hci : (c - 1) / 2 = i := by omega
  constructor
  · intro k hk hkn hkc
    rw [notBelow_swap h hil hcl]
    by_cases hkc' : k = c
    · subst hkc'
      rw [hci, swapIndex_right, swapIndex_left]
      exact notBelow_of_below hv hS ha hb hab
    by_cases hki : k = i
    · subst hki
      rw [swapIndex_left, swapIndex_of_ne (by omega) (by omega)]
      exact o.grand hk c (by omega) hcn hci
    rw [swapIndex_of_ne hki hkc']
    by_cases hkp : (k - 1) / 2 = i
    · rw [hkp, swapIndex_left]
      exact hmin k hk hkn hkp
    · rw [swapIndex_of_ne hkp hkc]
      exact o.except k hk hkn hkp
  · intro _ k hk hkn hkc
    rw [notBelow_swap h hil hcl, hci, swapIndex_of_ne (by omega) (by omega), swapIndex_left]
    exact hkc ▸ o.except k hk hkn (by omega)

/-- `down` stops on an ordered slice: at a leaf, or above a least child that is not `Less`
than it. -/
theorem DownOrder.finish {l : List α} {n i c : Nat} (hS : ∀ a ∈ l, S a) (hn : n ≤ l.length)
    (o : DownOrder lt l n i) (hmin : ∀ k, 0 < k → k < n → (k - 1) / 2 = i → NotBelow lt l k c)
    (hstop : NotBelow lt l c i) (hc : c < n) : Ordered lt l n := by
  intro k hk hkn
  by_cases hki : (k - 1) / 2 = i
  · rw [hki]
    exact (hmin k hk hkn hki).trans hv hS hstop (by omega)
  · exact o.except k hk hkn hki

theorem downLoop_ordered : ∀ (fuel : Nat) (h : HeapState α) (i n : Nat), (∀ a ∈ h.ims, S a) →
    n ≤ h.ims.length → n ≤ i + fuel → DownOrder lt h.ims n i →
    (downLoop lt fuel h i n).err = h.err ∧ Ordered lt (downLoop lt fuel h i n).ims n
  | 0, _, _, _, _, _, hf, o => ⟨rfl, fun k hk hkn => o.except k hk hkn (by omega)⟩
  | fuel + 1, h, i, n, hS, hn, hf, o => by
    unfold downLoop
    dsimp only
    by_cases hleaf : n ≤ 2 * i + 1
    · rw [if_pos hleaf]
      exact ⟨rfl, fun k hk hkn => o.except k hk hkn (by omega)⟩
    · rw [if_neg hleaf]
      obtain ⟨hh, hc, hmin⟩ := minChild_spec hv hS hn (Nat.lt_of_not_le hleaf)
      have hcn := (minChild_lt lt h (Nat.lt_of_not_le hleaf)).2
      rw [hh]
      generalize (minChild lt h i n).1 = c at hc hmin hcn
      obtain ⟨a, ha⟩ : ∃ a, h.ims[c]? = some a := ⟨_, List.getElem?_eq_getElem (by omega)⟩
      obtain ⟨b, hb⟩ : ∃ b, h.ims[i]? = some b := ⟨_, List.getElem?_eq_getElem (by omega)⟩
      rw [less_eq hv ha hb (hS a (List.getElem?_mem ha)) (hS b (List.getElem?_mem hb))]
      dsimp only
      split_ifs with hab
      · have hS' : ∀ a ∈ (h.swap i c).ims, S a := fun a ha => hS a ((swap_perm _ _ _).subset ha)
        obtain ⟨he, ho⟩ := downLoop_ordered fuel _ c n hS' (by simpa using hn) (by omega)
          (o.swap hv hS hn hc hcn hmin ha hb hab)
        exact ⟨he.trans (swap_err _ _ _), ho⟩
      · refine ⟨rfl, o.finish hv hS hn hmin (fun a' b' ha' hb' => ?_) hcn⟩
        rw [ha] at ha'; rw [hb] at hb'; cases ha'; cases hb'
        simpa using hab

end Down

/-! ## `Push` and `Pop` -/

section PushPop

variable (hv : ValidLess lt S)
include hv

/-- `Push` keeps the heap ordered and records no failure. -/
theorem push_ordered {h : HeapState α} (hS : ∀ a ∈ h.ims, S a) (ho : Ordered lt h.ims h.ims.length)
    {x : α} (hx : S x) :
    (h.push lt x).err = h.err ∧ Ordered lt (h.push lt x).ims (h.push lt x).ims.length := by
  have hS' : ∀ a ∈ h.ims ++ [x], S a := by
    simpa [or_imp, forall_and] using ⟨hS, hx⟩
  have hlen := (push_perm lt h x).length_eq
  rw [hlen]
  refine upLoop_ordered hv _ { h with ims := h.ims ++ [x] } _ _ hS' le_rfl (by simp) (by omega) ?_
  refine ⟨fun k hk hkn hkx => ?_, fun _ k hk hkn hkp => absurd hkn (by simp; omega)⟩
  have hkl : k < h.ims.length := by simp at hkn; omega
  intro a b ha hb
  rw [List.getElem?_append_left hkl] at ha
  rw [List.getElem?_append_left (by omega)] at hb
  exact ho k hk hkl a b ha hb

/-- `Pop` on a non-empty ordered heap returns its root, an item no other item is `Less` than,
keeps the rest ordered and records no failure. -/
theorem pop_ordered {h : HeapState α} (hS : ∀ a ∈ h.ims, S a)
    (ho : Ordered lt h.ims h.ims.length) (hne : h.ims ≠ []) :
    ∃ m, (h.pop lt).1 = some m ∧ (∀ x ∈ h.ims, verdict (lt x m) = false) ∧
      (h.pop lt).2.err = h.err ∧ Ordered lt (h.pop lt).2.ims (h.pop lt).2.ims.length := by
  set n := h.ims.length - 1 with hn
  have hlen : 0 < h.ims.length := List.length_pos.2 hne
  have h0 : 0 < h.ims.length := hlen
  obtain ⟨m, hm⟩ : ∃ m, h.ims[0]? = some m := ⟨_, List.getElem?_eq_getElem h0⟩
  have hS₁ : ∀ a ∈ (h.swap 0 n).ims, S a := fun a ha => hS a ((swap_perm _ _ _).subset ha)
  have o₁ : DownOrder lt (h.swap 0 n).ims n 0 := by
    refine ⟨fun k hk hkn hkp => ?_, fun h => absurd h (Nat.lt_irrefl 0)⟩
    rw [notBelow_swap h h0 (by omega), swapIndex_of_ne (by omega) (by omega),
      swapIndex_of_ne (by omega) (by omega)]
    exact ho k hk (by omega)
  obtain ⟨he, ho₂⟩ := downLoop_ordered hv (n - 0) _ 0 n hS₁ (by simp; omega) (by omega) o₁
  obtain ⟨hp, hk⟩ := downLoop_perm lt (n - 0) (h.swap 0 n) 0 n
  have hlast : (down lt (h.swap 0 n) 0 n).ims[n]? = some m := by
    rw [down, hk n le_rfl, swap_getElem? h h0 (by omega), swapIndex_right, hm]
  have hlen₂ : (down lt (h.swap 0 n) 0 n).ims.length = n + 1 := by
    rw [down, hp.length_eq]; simp; omega
  refine ⟨m, ?_, fun x hx => ?_, he.trans (swap_err _ _ _), fun k hk hkn a b ha hb => ?_⟩
  · simp only [pop]
    rw [List.getLast?_eq_getElem?, hlen₂]
    exact hlast
  · obtain ⟨k, hk, rfl⟩ := List.getElem_of_mem hx
    exact Ordered.root hv hS ho le_rfl k hk _ _ (List.getElem?_eq_getElem hk) hm
  · simp only [pop, List.length_dropLast, hlen₂] at hkn ha hb
    simp only [pop, List.getElem?_dropLast, hlen₂] at ha hb
    exact ho₂ k hk (by omega) a b (by simpa [show k < n by omega] using ha)
      (by simpa [show (k - 1) / 2 < n by omega] using hb)

end PushPop

end HeapState

end Gleam.FileSort
