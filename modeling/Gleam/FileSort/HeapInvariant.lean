import Gleam.FileSort.Correctness

/-!
# The heap invariant of the merge

During the merge of `externalSort`, `rowHeap` holds, for every run, at most one item tagged
with the run's index: the earliest row of the run not yet returned, when the run has one. The
items are in heap order under `lessThan`, so the heap holds no more items than there are runs,
and each pop returns a row that no row still to be returned is `Less` than.

`HeapInv` states this for the runs the merge started from, the rows `out` returned so far and
the rows `rests` each run has left (a suffix of the run). It follows from `MergeInv`
(`MergeInv.heapInv`), which priming sets up and every merge step keeps; along the `Output` calls
each run only loses rows from its front (`calls_advance`). So the invariant holds after priming
and after every `Output` call that returns a row (`merge_heap_invariant`), on a system whose
calls all succeed.

A failed read inside `Output` is outside this: `fetchNextRow` fails after the pop, so the popped
row is never returned and its run has no item left, while the later `Output` calls go on
without error and never return the rest of that run
(`merge_loses_rows_after_failed_read`).

## Main definitions

* `FileSorter.HeapInv`: the heap invariant of the merge.

## Main results

* `FileSorter.MergeInv.heapInv`: the merge state satisfies the heap invariant.
* `FileSorter.calls_advance`: the run of `Output` calls keeps the merge state, each run losing
  rows from its front.
* `FileSorter.merge_heap_invariant`: the heap invariant after priming and after every `Output`.
-/

namespace Gleam.FileSort

variable {D : Type}

/-- The heads tagged with index `k + i` are the first row of run `i`, if it has one. -/
theorem heads_filter_index : ∀ (k : Nat) (rss : List (List (ComparableRow D))) (i : Nat),
    ((heads k rss).filter fun im => im.index = k + i).map Item.value = (rss.getD i []).head?.toList
  | _, [], _ => by simp [heads]
  | k, rs :: rss, 0 => by
    have hrest : (heads (k + 1) rss).filter (fun im => im.index = k) = [] :=
      List.filter_eq_nil_iff.2 fun im him => by have := (mem_heads him).1; simp; omega
    cases rs <;> simp [heads, hrest]
  | k, rs :: rss, i + 1 => by
    have ih := heads_filter_index (k + 1) rss i
    rw [show k + 1 + i = k + (i + 1) by omega] at ih
    cases rs <;> simp [heads, ih]

/-- At most one head per run. -/
theorem length_heads_le : ∀ (k : Nat) (rss : List (List (ComparableRow D))),
    (heads k rss).length ≤ rss.length
  | _, [] => le_rfl
  | k, rs :: rss => by
    have := length_heads_le (k + 1) rss
    cases rs <;> simp [heads] <;> omega

/-- A permutation of a list of at most one element is that list. -/
theorem eq_of_perm_toList {α : Type} {l : List α} {o : Option α} (h : l.Perm o.toList) :
    l = o.toList := by
  cases o with
  | none => exact h.eq_nil
  | some a => exact List.perm_singleton.1 h

/-- Advancing run `j` past its first row leaves a suffix of every run. -/
theorem getD_set_suffix {rss : List (List (ComparableRow D))} {j : Nat} {x : ComparableRow D}
    {t : List (ComparableRow D)} (ht : rss[j]? = some (x :: t)) (i : Nat) :
    (rss.set j t).getD i [] <:+ rss.getD i [] := by
  simp only [List.getD_eq_getElem?_getD]
  by_cases hij : j = i
  · subst hij
    rw [List.getElem?_set_self (List.getElem?_eq_some_iff.1 ht).1, ht]
    exact List.suffix_cons x t
  · have hne : (rss.set j t)[i]? = rss[i]? := List.getElem?_set_ne hij
    exact hne ▸ List.suffix_refl (rss[i]?.getD [])

namespace FileSorter

variable (env : Env D)

/-- The heap invariant of the merge under `Less` `lt`, for the runs `runs`, the rows `out`
returned so far, and the rows `rests` each run has left. -/
structure HeapInv (lt : ComparableRow D → ComparableRow D → Except String Bool)
    (runs : List (List (ComparableRow D))) (out : List (ComparableRow D))
    (rests : List (List (ComparableRow D))) (fs : FileSorter D) (d : Disk) : Prop where
  /-- Each run has a suffix of its rows left. -/
  suffix : rests.length = runs.length ∧ ∀ i, rests.getD i [] <:+ runs.getD i []
  /-- The rows returned and the rows left are the rows of the runs. -/
  perm : (out ++ rests.flatten).Perm runs.flatten
  /-- The items tagged `i` are the earliest row run `i` has left: one item when the run has a row
  left, none otherwise. -/
  items : ∀ i, (fs.rowHeap.ims.filter fun im => im.index = i).map Item.value =
    (rests.getD i []).head?.toList
  /-- No item is `Less` than its parent. -/
  ordered : HeapState.Ordered (fun a b : Item D => lt a.value b.value) fs.rowHeap.ims
    fs.rowHeap.ims.length
  /-- No more items than runs. -/
  bounded : fs.rowHeap.ims.length ≤ runs.length
  /-- Descriptor `i` reads the rest of run `i` next. -/
  reads : ∀ i rest, rests[i]? = some rest → ReadsAt env fs d i rest.tail
  /-- The next `Output` returns a row that no row left is `Less` than, or the end of data when
  no row is left. -/
  least : (rests.flatten = [] ∧ (fs.output env d).1 = .ok none) ∨
    ∃ x, (fs.output env d).1 = .ok (some x) ∧ ∀ y ∈ rests.flatten, verdict (lt y x) = false

variable {env}

/-- The merge state satisfies the heap invariant, for runs it has suffixes of. -/
theorem MergeInv.heapInv (hf : env.FaultFree) {rows : List (ComparableRow D)} {fs : FileSorter D}
    {d : Disk} {rests : List (List (ComparableRow D))} (hinv : MergeInv env rows fs d rests)
    {lt : ComparableRow D → ComparableRow D → Except String Bool} (hlt : fs.rowLess env = lt)
    {runs : List (List (ComparableRow D))} {out : List (ComparableRow D)}
    (hsuf : rests.length = runs.length ∧ ∀ i, rests.getD i [] <:+ runs.getD i [])
    (hperm : (out ++ rests.flatten).Perm runs.flatten) : HeapInv env lt runs out rests fs d := by
  have hitem : fs.itemLess env = fun a b => lt a.value b.value := by subst hlt; rfl
  refine ⟨hsuf, hperm, fun i => ?_, hitem ▸ hinv.ordered, ?_, hinv.reads, ?_⟩
  · have hheads := heads_filter_index 0 rests i
    rw [Nat.zero_add] at hheads
    exact eq_of_perm_toList (hheads ▸ (hinv.heap.filter _).map _)
  · calc fs.rowHeap.ims.length = (heads 0 rests).length := hinv.heap.length_eq
      _ ≤ rests.length := length_heads_le 0 rests
      _ = runs.length := hsuf.1
  · rw [output_of_mergeInv hinv]
    rcases mergeStep_spec hf hinv with ⟨hnil, hstep⟩ | ⟨x, _, _, _, hstep, -, -, hleast, -⟩
    · exact .inl ⟨hnil, by rw [hstep]⟩
    · exact .inr ⟨x, by rw [hstep], hlt ▸ hleast⟩

/-- The run of the merge: from a merge state, each of the next `n` `Output` calls returns a
row, as long as rows are left; afterwards the merge state holds for what each run has left,
a suffix of what it had, and the rows returned and the rows left are those there were. -/
theorem calls_advance (hf : env.FaultFree) {rows : List (ComparableRow D)} :
    ∀ (n : Nat) {fs : FileSorter D} {d : Disk} {rests : List (List (ComparableRow D))},
      MergeInv env rows fs d rests → n ≤ rests.flatten.length →
      ∃ out rests', (fs.calls env d (List.replicate n .output)).1 = out.map (fun r => .ok (some r)) ∧
        MergeInv env rows (fs.calls env d (List.replicate n .output)).2.1
          (fs.calls env d (List.replicate n .output)).2.2 rests' ∧
        (fs.calls env d (List.replicate n .output)).2.1.rowLess env = fs.rowLess env ∧
        (rests'.length = rests.length ∧ ∀ i, rests'.getD i [] <:+ rests.getD i []) ∧
        (out ++ rests'.flatten).Perm rests.flatten
  | 0, _, _, rests, hinv, _ =>
    ⟨[], rests, rfl, hinv, rfl, ⟨rfl, fun _ => List.suffix_refl _⟩, List.Perm.refl _⟩
  | n + 1, fs, d, rests, hinv, hn => by
    rcases mergeStep_advance hf hinv with ⟨hnil, -⟩ | ⟨j, x, t, fs', d', ht, hstep, hinv', -, hlt⟩
    · simp [hnil] at hn
    have hflat := flatten_set ht
    obtain ⟨out, rests', hres, hinv'', hlt', hsuf, hperm⟩ :=
      calls_advance hf n hinv' (by have := hflat.length_eq; simp only [List.length_cons] at this; omega)
    have hcall : fs.call env d .output = (.ok (some x), fs', d') := (output_of_mergeInv hinv).trans hstep
    have hcons : fs.calls env d (List.replicate (n + 1) .output) =
        (.ok (some x) :: (fs'.calls env d' (List.replicate n .output)).1,
          (fs'.calls env d' (List.replicate n .output)).2) := by
      simp only [List.replicate_succ, calls, hcall]
    rw [hcons]
    refine ⟨x :: out, rests', by rw [hres]; rfl, hinv'', hlt'.trans hlt,
      ⟨hsuf.1.trans (List.length_set _ _ _), fun i => (hsuf.2 i).trans (getD_set_suffix ht i)⟩, ?_⟩
    exact (hperm.cons x).trans hflat.symm

/-- A failed read inside `Output` breaks the heap invariant for the later calls. With a buffer of
two rows, the inputs `1, 3, 2, 4` spill the runs `[1, 3]` and `[2, 4]`. The fifteenth system
call, the header read of the second run in the second `Output`, fails after `2` was popped. The
third `Output` returns `3` without error and leaves the heap empty while the second run still
has `4` to return; the fourth returns the end of data, so `2` and `4` are lost. -/
theorem merge_loses_rows_after_failed_read :
    (((smallBuilder 2).fresh : FileSorter Int).calls
        (byteEnv fun n => if n = 14 then some "read failed" else none) emptyDisk
        [.input [1] [0] 0, .input [3] [0] 1, .input [2] [0] 2, .input [4] [0] 3,
          .output, .output, .output, .output]).1 =
      [.ok none, .ok none, .ok none, .ok none, .ok (some ⟨[1], [0], 0⟩),
        .error (.error "read failed"), .ok (some ⟨[3], [0], 1⟩), .ok none] ∧
    (((smallBuilder 2).fresh : FileSorter Int).calls
        (byteEnv fun n => if n = 14 then some "read failed" else none) emptyDisk
        [.input [1] [0] 0, .input [3] [0] 1, .input [2] [0] 2, .input [4] [0] 3,
          .output, .output, .output]).2.1.rowHeap.ims = [] :=
  ⟨rfl, rfl⟩

end FileSorter

end Gleam.FileSort
