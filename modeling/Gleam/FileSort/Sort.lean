import Gleam.FileSort.Basic
import Mathlib.Data.List.Perm.Basic

/-!
# `sort.Sort` on the sorter's buffer

`flushToFile` and `internalSort` call `sort.Sort(fs)`, whose `Less` compares two buffered rows
with `lessThan` and records the first failure in `fs.err`. The standard library sorts short
slices with `insertionSort`: for each index `i`, swap the element at `j = i` with `j - 1` while
`Less(j, j - 1)`. That loop is the model here. The sorted prefix is kept last element first, so
the inner loop is a walk from the head of a list.

Any comparison sort would do for the results: the output is a permutation of the input, sorted
when `Less` is a strict weak order on the elements, and an error recorded before the sort is
still the one recorded after it.

## Main results

* `insertionSort_perm`: the buffer after the sort is a permutation of the buffer before.
* `insertionSort_sorted`: it is sorted when `Less` is a strict weak order on its rows.
* `insertionSort_err_of_isSome`, `insertionSort_err_of_ok`: the recorded error is kept, and
  none is recorded when no comparison fails.
-/

namespace Gleam.FileSort

variable {α : Type} (lt : α → α → Except String Bool)

/-- The inner loop of `insertionSort`: `x`, just placed after the sorted prefix `acc` (kept last
element first), moves left while it is `Less` than its left neighbour. -/
def insertRev (x : α) : List α → Option String → List α × Option String
  | [], err => ([x], err)
  | y :: ys, err =>
    let r := captureLess (lt x y) err
    if r.1 then
      let s := insertRev x ys r.2
      (y :: s.1, s.2)
    else (x :: y :: ys, r.2)

/-- `sort.Sort` on a slice, as Go's `insertionSort`: insert each element in turn, then read the
prefix in order. `err` is the error field `Less` records into. -/
def insertionSort (xs : List α) (err : Option String) : List α × Option String :=
  let r := xs.foldl (fun acc x => insertRev lt x acc.1 acc.2) ([], err)
  (r.1.reverse, r.2)

variable {lt}

theorem insertRev_perm (x : α) (acc : List α) (err : Option String) :
    (insertRev lt x acc err).1.Perm (x :: acc) := by
  induction acc generalizing err with
  | nil => rfl
  | cons y ys ih =>
    simp only [insertRev]
    split
    · exact ((ih _).cons y).trans (List.Perm.swap x y ys)
    · rfl

/-- A recorded error survives an insertion. -/
theorem insertRev_err_of_isSome (x : α) (acc : List α) {err : Option String}
    (h : err.isSome) : (insertRev lt x acc err).2 = err := by
  induction acc generalizing err with
  | nil => rfl
  | cons y ys ih =>
    have hc := captureLess_snd_isSome (r := lt x y) h
    simp only [insertRev, hc]
    split
    · exact ih h
    · rfl

/-- An insertion whose comparisons all succeed records nothing. -/
theorem insertRev_err_of_ok (x : α) (acc : List α) (err : Option String)
    (hok : ∀ y ∈ acc, ∃ b, lt x y = .ok b) : (insertRev lt x acc err).2 = err := by
  induction acc generalizing err with
  | nil => rfl
  | cons y ys ih =>
    obtain ⟨b, hb⟩ := hok y (List.mem_cons_self y ys)
    simp only [insertRev, hb, captureLess_ok]
    split
    · exact ih err fun z hz => hok z (List.mem_cons_of_mem y hz)
    · rfl

section Sorted

variable {S : α → Prop} (hlt : StrictWeakOn (fun a b => verdict (lt a b)) S)
include hlt

/-- Inserting into a prefix sorted last element first keeps it so. -/
theorem insertRev_sorted {x : α} {acc : List α} (err : Option String) (hx : S x)
    (hacc : ∀ y ∈ acc, S y) (hs : acc.Pairwise fun a b => verdict (lt a b) = false) :
    (insertRev lt x acc err).1.Pairwise fun a b => verdict (lt a b) = false := by
  induction acc generalizing err with
  | nil => exact List.pairwise_singleton _ x
  | cons y ys ih =>
    rw [List.pairwise_cons] at hs
    have hy := hacc y (List.mem_cons_self y ys)
    have hys : ∀ z ∈ ys, S z := fun z hz => hacc z (List.mem_cons_of_mem y hz)
    simp only [insertRev, captureLess_fst]
    split
    · rename_i hxy
      refine List.pairwise_cons.2 ⟨fun z hz => ?_, ih _ hys hs.2⟩
      rcases List.mem_cons.1 ((insertRev_perm x ys _).subset hz) with rfl | hz
      · exact hlt.asymm hx hy hxy
      · exact hs.1 z hz
    · rename_i hxy
      refine List.pairwise_cons.2 ⟨fun z hz => ?_, List.pairwise_cons.2 hs⟩
      rcases List.mem_cons.1 hz with rfl | hz
      · simpa using hxy
      · exact hlt.not_lt_trans (hys z hz) hy hx (hs.1 z hz) (by simpa using hxy)

/-- The fold of `insertionSort` keeps its prefix sorted. -/
theorem foldl_insertRev_sorted {xs : List α} (hxs : ∀ x ∈ xs, S x) :
    ∀ {acc : List α} (err : Option String), (∀ y ∈ acc, S y) →
      (acc.Pairwise fun a b => verdict (lt a b) = false) →
      ((xs.foldl (fun acc x => insertRev lt x acc.1 acc.2) (acc, err)).1.Pairwise
        fun a b => verdict (lt a b) = false) := by
  induction xs with
  | nil => intro _ _ _ hs; exact hs
  | cons x xs ih =>
    intro acc err hacc hs
    have hx := hxs x (List.mem_cons_self x xs)
    refine ih (fun z hz => hxs z (List.mem_cons_of_mem x hz)) _ (fun y hy => ?_)
      (insertRev_sorted hlt err hx hacc hs)
    rcases List.mem_cons.1 ((insertRev_perm x acc err).subset hy) with rfl | hy
    exacts [hx, hacc y hy]

/-- `sort.Sort` leaves the buffer sorted when `Less` is a strict weak order on its rows. -/
theorem insertionSort_sorted {xs : List α} (err : Option String) (hxs : ∀ x ∈ xs, S x) :
    SortedBy (fun a b => verdict (lt a b)) (insertionSort lt xs err).1 := by
  unfold SortedBy insertionSort
  rw [List.pairwise_reverse]
  exact foldl_insertRev_sorted hlt hxs err (fun _ h => absurd h (List.not_mem_nil _)) List.Pairwise.nil

end Sorted

/-- The fold of `insertionSort` after the elements `xs`, from any prefix and error. -/
theorem foldl_insertRev_perm (xs : List α) (acc : List α) (err : Option String) :
    (xs.foldl (fun acc x => insertRev lt x acc.1 acc.2) (acc, err)).1.Perm (xs.reverse ++ acc) := by
  induction xs generalizing acc err with
  | nil => rfl
  | cons x xs ih =>
    simp only [List.foldl_cons, List.reverse_cons, List.append_assoc, List.singleton_append]
    exact (ih _ _).trans ((insertRev_perm x acc err).append_left _)

/-- `sort.Sort` permutes the buffer. -/
theorem insertionSort_perm (xs : List α) (err : Option String) :
    (insertionSort lt xs err).1.Perm xs := by
  have := @foldl_insertRev_perm α lt xs [] err
  rw [List.append_nil] at this
  exact (List.reverse_perm _).trans (this.trans (List.reverse_perm xs))

/-- `sort.Sort` keeps an error recorded before it. -/
theorem insertionSort_err_of_isSome (xs : List α) {err : Option String} (h : err.isSome) :
    (insertionSort lt xs err).2 = err := by
  suffices ∀ (xs acc : List α) err, err.isSome →
      (xs.foldl (fun acc x => insertRev lt x acc.1 acc.2) (acc, err)).2 = err from this xs [] err h
  intro xs
  induction xs with
  | nil => intro _ _ _; rfl
  | cons x xs ih =>
    intro acc err h
    have hx := @insertRev_err_of_isSome α lt x acc err h
    simp only [List.foldl_cons]
    rw [ih _ _ (by rw [hx]; exact h), hx]

/-- `sort.Sort` records nothing when every comparison between its elements succeeds. -/
theorem insertionSort_err_of_ok (xs : List α) (err : Option String)
    (hok : ∀ a ∈ xs, ∀ b ∈ xs, ∃ r, lt a b = .ok r) : (insertionSort lt xs err).2 = err := by
  suffices ∀ (xs acc : List α) err, (∀ a ∈ xs ++ acc, ∀ b ∈ xs ++ acc, ∃ r, lt a b = .ok r) →
      (xs.foldl (fun acc x => insertRev lt x acc.1 acc.2) (acc, err)).2 = err from
    this xs [] err (by simpa using hok)
  intro xs
  induction xs with
  | nil => intro _ _ _; rfl
  | cons x xs ih =>
    intro acc err h
    have hmem : ∀ z ∈ xs ++ (insertRev lt x acc err).1, z ∈ x :: xs ++ acc := by
      intro z hz
      rcases List.mem_append.1 hz with hz | hz
      · exact List.mem_append_left _ (List.mem_cons_of_mem x hz)
      · rcases List.mem_cons.1 ((insertRev_perm x acc err).subset hz) with rfl | hz
        · exact List.mem_append_left _ (List.mem_cons_self _ _)
        · exact List.mem_append_right _ hz
    have hx : (insertRev lt x acc err).2 = err := insertRev_err_of_ok x acc err fun y hy =>
      h x (List.mem_append_left _ (List.mem_cons_self x xs)) y (List.mem_append_right _ hy)
    simp only [List.foldl_cons]
    rw [ih _ _ fun a ha b hb => h a (hmem a ha) b (hmem b hb), hx]

end Gleam.FileSort
