import Gleam.FileSort.Basic
import Mathlib.Data.List.Perm.Basic

/-!
# `container/heap` over `rowHeap`

The merge phase keeps one row per run file in `rowHeap`, a min-heap driven by the standard
library's `container/heap`: `Init` heapifies with `down`, `Push` appends and sifts `up`, and
`Pop` swaps the root with the last element, sifts the root `down` over the rest and removes the
last element. The model follows those loops index by index. `rowHeap.Less` compares two items'
keys with `lessThan` and records the first failure in `rowHeap.err`, so the heap state is the
slice `ims` with that error field.

The loops walk a path of the tree and stop; each is given a fuel bound that a path cannot
exceed (`j + 1` steps up from `j`, `n - i` steps down from `i`), which keeps the model
structurally recursive and evaluable.

## Main definitions

* `HeapState`: the `ims` slice and the `err` field of `rowHeap`.
* `HeapState.up`, `HeapState.down`: the sifts of `container/heap`.
* `HeapState.init`, `HeapState.push`, `HeapState.pop`: `heap.Init`, `heap.Push`, `heap.Pop`.

## Main results

* `swap_perm`, `upLoop_perm`, `downLoop_perm`: the sifts only permute the slice.
* `push_perm`, `pop_perm`: a push adds its element, a pop removes the one it returns.
-/

namespace Gleam.FileSort

/-- The state `container/heap` works on for `rowHeap`: its `ims` slice and its `err` field. -/
structure HeapState (α : Type) where
  /-- The heap's items, the slice `ims`. -/
  ims : List α
  /-- The first comparison failure recorded by `Less`. -/
  err : Option String
  deriving DecidableEq, Repr

namespace HeapState

variable {α : Type} (lt : α → α → Except String Bool)

/-- `rh.Less(i, j)`: compare the items at `i` and `j`, recording a failure in `err`. -/
def less (h : HeapState α) (i j : Nat) : Bool × HeapState α :=
  match h.ims[i]?, h.ims[j]? with
  | some a, some b =>
    let r := captureLess (lt a b) h.err
    (r.1, { h with err := r.2 })
  | _, _ => (false, h)

/-- `rh.Swap(i, j)`: exchange the items at `i` and `j`. -/
def swap (h : HeapState α) (i j : Nat) : HeapState α :=
  match h.ims[i]?, h.ims[j]? with
  | some a, some b => { h with ims := (h.ims.set i b).set j a }
  | _, _ => h

/-- The loop of `up(h, j)`: while `j` is not the root and is `Less` than its parent
`i = (j - 1) / 2`, swap them and continue from `i`. -/
def upLoop : Nat → HeapState α → Nat → HeapState α
  | 0, h, _ => h
  | fuel + 1, h, j =>
    let i := (j - 1) / 2
    if i = j then h
    else
      let r := h.less lt j i
      if r.1 then upLoop fuel (r.2.swap i j) i else r.2

/-- `up(h, j)`: sift the item at `j` towards the root. -/
def up (h : HeapState α) (j : Nat) : HeapState α := upLoop lt (j + 1) h j

/-- The child `down` moves to from `i`: the left child `2i + 1`, or the right child when it
exists and is `Less` than the left one. -/
def minChild (h : HeapState α) (i n : Nat) : Nat × HeapState α :=
  let j1 := 2 * i + 1
  if j1 + 1 < n then
    let r := h.less lt (j1 + 1) j1
    (if r.1 then j1 + 1 else j1, r.2)
  else (j1, h)

/-- The loop of `down(h, i, n)`: while `i` has a child below `n` and the smaller child `j` is
`Less` than it, swap them and continue from `j`. -/
def downLoop : Nat → HeapState α → Nat → Nat → HeapState α
  | 0, h, _, _ => h
  | fuel + 1, h, i, n =>
    if n ≤ 2 * i + 1 then h
    else
      let c := minChild lt h i n
      let r := c.2.less lt c.1 i
      if r.1 then downLoop fuel (r.2.swap i c.1) c.1 n else r.2

/-- `down(h, i, n)`: sift the item at `i` away from the root, within the first `n` items. -/
def down (h : HeapState α) (i n : Nat) : HeapState α := downLoop lt (n - i) h i n

/-- `heap.Init`: `down(h, i, n)` for `i` from `n / 2 - 1` down to `0`. -/
def init (h : HeapState α) : HeapState α :=
  (List.range (h.ims.length / 2)).reverse.foldl (fun h i => down lt h i h.ims.length) h

/-- `heap.Push`: `rh.Push(x)` appends, then `up(h, h.Len() - 1)`. -/
def push (h : HeapState α) (x : α) : HeapState α :=
  up lt { h with ims := h.ims ++ [x] } h.ims.length

/-- `heap.Pop`: swap the root with the last item, `down` the root over the others, and let
`rh.Pop()` remove and return the last item. The callers check `Len() > 0` first. -/
def pop (h : HeapState α) : Option α × HeapState α :=
  let n := h.ims.length - 1
  let h := down lt (h.swap 0 n) 0 n
  (h.ims.getLast?, { h with ims := h.ims.dropLast })

variable {lt}

@[simp] theorem less_ims (h : HeapState α) (i j : Nat) : (h.less lt i j).2.ims = h.ims := by
  unfold less; split <;> rfl

@[simp] theorem swap_length (h : HeapState α) (i j : Nat) :
    (h.swap i j).ims.length = h.ims.length := by
  unfold swap; split <;> simp

@[simp] theorem swap_err (h : HeapState α) (i j : Nat) : (h.swap i j).err = h.err := by
  unfold swap; split <;> rfl

/-- `Swap` only permutes the slice. -/
theorem swap_perm (h : HeapState α) (i j : Nat) : (h.swap i j).ims.Perm h.ims := by
  classical
  unfold swap
  split
  · rename_i a b ha hb
    obtain ⟨hi, rfl⟩ := List.getElem?_eq_some_iff.1 ha
    obtain ⟨hj, rfl⟩ := List.getElem?_eq_some_iff.1 hb
    rw [List.perm_iff_count]
    intro x
    rw [List.count_set _ _ _ _ (by simpa using hj), List.getElem_set, ite_self,
      List.count_set _ _ _ _ hi]
    by_cases e : h.ims[i] = x
    · have : 0 < h.ims.count x := e ▸ List.count_pos_iff.2 (List.getElem_mem hi)
      simp only [e, beq_self_eq_true, if_true]
      split_ifs <;> omega
    · simp only [e, beq_iff_eq, if_false]
      split_ifs <;> omega
  · rfl

theorem swap_getElem?_of_ne (h : HeapState α) {i j k : Nat} (hi : k ≠ i) (hj : k ≠ j) :
    (h.swap i j).ims[k]? = h.ims[k]? := by
  unfold swap
  split
  · simp only [List.getElem?_set, if_neg (Ne.symm hi), if_neg (Ne.symm hj)]
  · rfl

theorem minChild_ims (h : HeapState α) (i n : Nat) : (minChild lt h i n).2.ims = h.ims := by
  unfold minChild; dsimp only; split_ifs <;> simp

variable (lt) in
theorem minChild_lt (h : HeapState α) {i n : Nat} (hn : 2 * i + 1 < n) :
    i < (minChild lt h i n).1 ∧ (minChild lt h i n).1 < n := by
  unfold minChild; dsimp only; split_ifs <;> omega

/-- `up` only permutes the slice. -/
theorem upLoop_perm : ∀ (fuel : Nat) (h : HeapState α) (j : Nat), (upLoop lt fuel h j).ims.Perm h.ims
  | 0, _, _ => .refl _
  | fuel + 1, h, j => by
    unfold upLoop
    dsimp only
    split_ifs
    · exact .refl _
    · exact (upLoop_perm fuel _ _).trans ((swap_perm _ _ _).trans (by rw [less_ims]))
    · exact by simp

variable (lt) in
/-- `down` only permutes the slice, and leaves the items from `n` on where they are. -/
theorem downLoop_perm : ∀ (fuel : Nat) (h : HeapState α) (i n : Nat),
    (downLoop lt fuel h i n).ims.Perm h.ims ∧
      ∀ k, n ≤ k → (downLoop lt fuel h i n).ims[k]? = h.ims[k]?
  | 0, _, _, _ => ⟨.refl _, fun _ _ => rfl⟩
  | fuel + 1, h, i, n => by
    unfold downLoop
    dsimp only
    split_ifs with hn
    · exact ⟨.refl _, fun _ _ => rfl⟩
    · have hc := minChild_lt lt h (Nat.lt_of_not_le hn)
      obtain ⟨hp, hk⟩ := downLoop_perm fuel (((minChild lt h i n).2.less lt (minChild lt h i n).1 i).2.swap i
        (minChild lt h i n).1) (minChild lt h i n).1 n
      refine ⟨hp.trans ((swap_perm _ _ _).trans (by rw [less_ims, minChild_ims])), fun k hkn => ?_⟩
      rw [hk k hkn, swap_getElem?_of_ne _ (by omega) (by omega)]
      simp [minChild_ims]
    · exact ⟨by simp [minChild_ims], fun _ _ => by simp [minChild_ims]⟩

variable (lt) in
/-- A push adds its item to the slice. -/
theorem push_perm (h : HeapState α) (x : α) : (h.push lt x).ims.Perm (h.ims ++ [x]) :=
  upLoop_perm _ _ _

/-- A pop removes the item it returns from the slice. -/
theorem pop_perm {h : HeapState α} {m : α} (hm : (h.pop lt).1 = some m) :
    ((h.pop lt).2.ims ++ [m]).Perm h.ims := by
  simp only [pop] at hm ⊢
  rw [List.dropLast_append_getLast? _ hm]
  exact ((downLoop_perm _ _ _ _ _).1).trans (swap_perm _ _ _)

end HeapState

end Gleam.FileSort
