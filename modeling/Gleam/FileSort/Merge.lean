import Gleam.FileSort.RoundTrip
import Gleam.FileSort.HeapOrder
import Gleam.FileSort.Phases

/-!
# The k-way merge of `externalSort`

After priming, `rowHeap` holds the next row of every run that still has one, tagged with the
run's index, and each run's descriptor is positioned after that row. A merge step pops the least
item, reads the next row of its run through the run's descriptor, pushes it, and returns the
popped row.

`MergeInv` states this for the rows each run has left, `rests`: the heap is a permutation of their
first rows (`heads`), it is ordered, each descriptor reads the rest of its run, and each run is
sorted. A merge step returns a row no remaining row is `Less` than and keeps the invariant for
what is left (`mergeStep_spec`); so the rows returned up to the end of data are the remaining rows,
sorted (`calls_of_mergeInv`).

## Main definitions

* `heads`: the first row of each run, tagged with the run's index.
* `FileSorter.ReadsAt`: descriptor `i` reads the records of given rows.
* `FileSorter.MergeInv`: the state of the merge.

## Main results

* `FileSorter.MergeInv.least`, `FileSorter.MergeInv.heap_set`, `FileSorter.MergeInv.reads_set`:
  the popped row is least, and the heap and the descriptors follow the run it came from.
* `FileSorter.mergeStep_spec`: one merge step returns a least remaining row.
* `FileSorter.calls_of_mergeInv`: the `Output` calls of the merge return the remaining rows sorted,
  then the end of data on every later call.
-/

namespace Gleam.FileSort

variable {D : Type}

/-- The first row of every run from the `k`-th on, tagged with its run's index. -/
def heads (k : Nat) : List (List (ComparableRow D)) → List (Item D)
  | [] => []
  | rs :: rss => (rs.head?.map (Item.mk k)).toList ++ heads (k + 1) rss

/-- A tagged first row is the head of the run it names. -/
theorem mem_heads : ∀ {k : Nat} {rss : List (List (ComparableRow D))} {im : Item D},
    im ∈ heads k rss → k ≤ im.index ∧ ∃ t, rss[im.index - k]? = some (im.value :: t)
  | _, [], _, h => absurd h (List.not_mem_nil _)
  | k, rs :: rss, im, h => by
    rcases List.mem_append.1 h with h | h
    · cases rs with
      | nil => exact absurd h (List.not_mem_nil _)
      | cons x t =>
        obtain rfl : im = ⟨k, x⟩ := by simpa using h
        exact ⟨le_rfl, t, by simp⟩
    · obtain ⟨hk, t, ht⟩ := mem_heads h
      refine ⟨by omega, t, ?_⟩
      rw [show im.index - k = im.index - (k + 1) + 1 by omega]
      simpa using ht

/-- The first row of every non-empty run is among the tagged heads. -/
theorem mem_heads_of_getElem? : ∀ (k : Nat) {rss : List (List (ComparableRow D))} {j : Nat}
    {x : ComparableRow D} {t : List (ComparableRow D)}, rss[j]? = some (x :: t) →
    (⟨k + j, x⟩ : Item D) ∈ heads k rss
  | _, [], _, _, _, h => by simp at h
  | k, rs :: rss, 0, x, t, h => by
    obtain rfl : rs = x :: t := by simpa using h
    simp [heads]
  | k, rs :: rss, j + 1, x, t, h => by
    have h' : rss[j]? = some (x :: t) := by simpa using h
    have := mem_heads_of_getElem? (k + 1) h'
    rw [show k + 1 + j = k + (j + 1) by omega] at this
    exact List.mem_append_right _ this

/-- Advancing run `j` past its first row `x` replaces its tagged head by the next one. -/
theorem heads_set : ∀ (k : Nat) {rss : List (List (ComparableRow D))} {j : Nat}
    {x : ComparableRow D} {t : List (ComparableRow D)}, rss[j]? = some (x :: t) →
    (heads k rss ++ (t.head?.map (Item.mk (k + j))).toList).Perm
      (⟨k + j, x⟩ :: heads k (rss.set j t))
  | _, [], _, _, _, h => by simp at h
  | k, rs :: rss, 0, x, t, h => by
    obtain rfl : rs = x :: t := by simpa using h
    simpa [heads] using List.perm_append_comm
  | k, rs :: rss, j + 1, x, t, h => by
    have h' : rss[j]? = some (x :: t) := by simpa using h
    have ih := heads_set (k + 1) h'
    rw [show k + 1 + j = k + (j + 1) by omega] at ih
    simp only [heads, List.set_cons_succ, List.append_assoc]
    exact ((ih.append_left _).trans List.perm_middle)

/-- The tagged heads of runs with one more run at the end. -/
theorem heads_append (k : Nat) (r : List (ComparableRow D)) :
    ∀ rss : List (List (ComparableRow D)),
      heads k (rss ++ [r]) = heads k rss ++ (r.head?.map (Item.mk (k + rss.length))).toList
  | [] => by simp [heads]
  | rs :: rss => by
    rw [List.cons_append]
    simp only [heads]
    rw [heads_append (k + 1) r rss, List.append_assoc, List.length_cons,
      show k + 1 + rss.length = k + (rss.length + 1) by omega]

theorem heads_eq_nil : ∀ {k : Nat} {rss : List (List (ComparableRow D))}, heads k rss = [] →
    rss.flatten = []
  | _, [], _ => rfl
  | _, rs :: rss, h => by
    cases rs with
    | nil => simpa [heads] using heads_eq_nil (by simpa [heads] using h)
    | cons x t => simp [heads] at h

/-- Taking the first row of run `j` out of all the rows left. -/
theorem flatten_set : ∀ {rss : List (List (ComparableRow D))} {j : Nat} {x : ComparableRow D}
    {t : List (ComparableRow D)}, rss[j]? = some (x :: t) →
    rss.flatten.Perm (x :: (rss.set j t).flatten)
  | [], _, _, _, h => by simp at h
  | rs :: rss, 0, x, t, h => by
    obtain rfl : rs = x :: t := by simpa using h
    rfl
  | rs :: rss, j + 1, x, t, h => by
    simp only [List.flatten, List.set_cons_succ]
    exact ((flatten_set (by simpa using h)).append_left rs).trans List.perm_middle

/-- The records of a non-empty list of rows: the first row's record, then the others'. -/
theorem encodeRows_cons_eq_ok {codec : Codec D} {x : ComparableRow D} {t : List (ComparableRow D)}
    {bytes : List UInt8} (h : encodeRows codec (x :: t) = .ok bytes) :
    ∃ body rest, encodeRow codec x = .ok body ∧ encodeRows codec t = .ok rest ∧
      bytes = frame body ++ rest := by
  simp only [encodeRows] at h
  split at h
  · cases h
  · rename_i body hbody
    split at h
    · cases h
    · rename_i rest hrest
      cases h
      exact ⟨body, rest, hbody, hrest, rfl⟩

theorem set_of_getElem? {α : Type} {l : List α} {i : Nat} {a : α} (h : l[i]? = some a) :
    l.set i a = l :=
  List.ext_getElem? fun k => by
    rw [List.getElem?_set]
    split_ifs with hik hi
    · exact hik ▸ h.symm
    · exact absurd (List.getElem?_eq_some_iff.1 h).1 hi
    · rfl

/-- The items of a valid `Less` on rows, compared by their rows, are valid in turn. -/
theorem ValidLess.item {lt : ComparableRow D → ComparableRow D → Except String Bool}
    {S : ComparableRow D → Prop} (hv : ValidLess lt S) :
    ValidLess (fun a b : Item D => lt a.value b.value) (fun a => S a.value) where
  ok _ _ ha hb := hv.ok _ _ ha hb
  order :=
    { irrefl := fun _ ha => hv.order.irrefl _ ha
      trans := fun _ _ _ ha hb hc => hv.order.trans _ _ _ ha hb hc
      negTrans := fun _ _ _ ha hb hc => hv.order.negTrans _ _ _ ha hb hc }

namespace FileSorter

variable (env : Env D)

/-- Descriptor `i` is open and reads the records of `rest` next. -/
def ReadsAt (fs : FileSorter D) (d : Disk) (i : Nat) (rest : List (ComparableRow D)) : Prop :=
  ∃ fd bytes, fs.fds[i]? = some fd ∧ fd.closed = false ∧ encodeRows env.codec rest = .ok bytes ∧
    ((d.files fd.file).getD []).drop fd.offset = bytes

/-- What a merge relies on in the rows: `Less` is valid on them, and the codec and the sorter's
sizes read them back. -/
structure Fits (rows : List (ComparableRow D)) (fs : FileSorter D) : Prop where
  valid : ValidLess (fs.rowLess env) (· ∈ rows)
  roundTrips : ∀ row ∈ rows, env.codec.RoundTrips row
  sizes : ∀ row ∈ rows, row.key.length = fs.keySize ∧ row.val.length = fs.valSize

variable {env} in
/-- `rowHeap.Less` is valid on the items holding input rows. -/
theorem Fits.item {rows : List (ComparableRow D)} {fs : FileSorter D} (h : Fits env rows fs) :
    ValidLess (fs.itemLess env) (fun a => a.value ∈ rows) :=
  h.valid.item

variable {env} in
/-- `Fits` reads only the sizes and `byDesc`. -/
theorem Fits.of_frame {rows : List (ComparableRow D)} {fs : FileSorter D} (h : Fits env rows fs)
    (rh : HeapState (Item D)) (fds : List Fd) : Fits env rows { fs with rowHeap := rh, fds := fds } :=
  ⟨h.valid, h.roundTrips, h.sizes⟩

/-- The state of the merge, with `rests` the rows each run has left: the heap holds their first
rows, ordered, each descriptor reads the rest of its run, and each run is sorted. -/
structure MergeInv (rows : List (ComparableRow D)) (fs : FileSorter D) (d : Disk)
    (rests : List (List (ComparableRow D))) : Prop where
  fits : Fits env rows fs
  closed : fs.closed = false
  fetched : fs.fetched = true
  files : fs.files ≠ []
  heap : fs.rowHeap.ims.Perm (heads 0 rests)
  ordered : HeapState.Ordered (fs.itemLess env) fs.rowHeap.ims fs.rowHeap.ims.length
  err : fs.rowHeap.err = none
  sorted : ∀ rest ∈ rests, SortedBy (fun a b => verdict (fs.rowLess env a b)) rest
  mem : ∀ rest ∈ rests, ∀ row ∈ rest, row ∈ rows
  reads : ∀ i rest, rests[i]? = some rest → ReadsAt env fs d i rest.tail

variable {env}

section Fetch

variable (hf : env.FaultFree)
include hf

/-- A fault-free fetch from a descriptor that reads `x` next returns `x`, moves that descriptor
past it and leaves the files and the other descriptors alone. -/
theorem fetchNextRow_cons {fs : FileSorter D} {d : Disk} {i : Nat} {x : ComparableRow D}
    {t : List (ComparableRow D)} (hr : ReadsAt env fs d i (x :: t)) (hrt : env.codec.RoundTrips x)
    (hk : x.key.length = fs.keySize) (hv : x.val.length = fs.valSize) :
    ∃ fds d', fs.fetchNextRow env d i = (.ok (some x), { fs with fds := fds }, d') ∧
      d'.files = d.files ∧ ReadsAt env { fs with fds := fds } d' i t ∧
      ∀ j, j ≠ i → fds[j]? = fs.fds[j]? := by
  obtain ⟨fd, bytes, hfd, hc, henc, hcontent⟩ := hr
  obtain ⟨body, rest, hbody, hrest, rfl⟩ := encodeRows_cons_eq_ok henc
  obtain ⟨h1, h2, h3⟩ := readRecord_frame hf hc hcontent hbody hrt hk hv
  have hi : i < fs.fds.length := (List.getElem?_eq_some_iff.1 hfd).1
  refine ⟨fs.fds.set i (fs.readRecord env fd d).2.1, (fs.readRecord env fd d).2.2,
    by rw [fetchNextRow_of_fd hfd, h1], h3,
    ⟨{ fd with offset := fd.offset + 8 + body.length }, rest, ?_, hc, hrest, ?_⟩,
    fun j hj => List.getElem?_set_ne (Ne.symm hj)⟩
  · simp [List.getElem?_set_self hi, h2]
  · rw [h3, Nat.add_assoc, ← List.drop_drop, hcontent]
    exact List.drop_left' (by simp [frame])

/-- A fault-free fetch from a descriptor with nothing left to read is the end of the run, and
changes only the count of system calls. -/
theorem fetchNextRow_nil {fs : FileSorter D} {d : Disk} {i : Nat} (hr : ReadsAt env fs d i []) :
    ∃ d', fs.fetchNextRow env d i = (.ok none, fs, d') ∧ d'.files = d.files := by
  obtain ⟨fd, bytes, hfd, hc, henc, hcontent⟩ := hr
  cases henc
  refine ⟨{ d with syscalls := d.syscalls + 1 }, ?_, rfl⟩
  rw [fetchNextRow_of_fd hfd, readRecord_end hf hc (List.drop_eq_nil_iff.1 hcontent),
    set_of_getElem? hfd]

end Fetch

/-- `ReadsAt` reads only the descriptors and the files. -/
theorem ReadsAt.congr {fs : FileSorter D} {d d' : Disk} {i : Nat} {rest : List (ComparableRow D)}
    (h : ReadsAt env fs d i rest) (fs' : FileSorter D) (hfds : fs'.fds[i]? = fs.fds[i]?)
    (hd : d'.files = d.files) :
    ReadsAt env fs' d' i rest := by
  obtain ⟨fd, bytes, hfd, hc, henc, hcontent⟩ := h
  exact ⟨fd, bytes, hfds.trans hfd, hc, henc, by rw [hd]; exact hcontent⟩

/-- A push keeps the heap ordered and holding valid items. -/
theorem pushItem_spec {rows : List (ComparableRow D)} {fs : FileSorter D} (hfits : Fits env rows fs)
    (hS : ∀ a ∈ fs.rowHeap.ims, a.value ∈ rows)
    (ho : HeapState.Ordered (fs.itemLess env) fs.rowHeap.ims fs.rowHeap.ims.length)
    (im : Item D) (him : im.value ∈ rows) :
    (fs.pushItem env im).rowHeap.err = fs.rowHeap.err ∧
      HeapState.Ordered (fs.itemLess env) (fs.pushItem env im).rowHeap.ims
        (fs.pushItem env im).rowHeap.ims.length ∧
      (fs.pushItem env im).rowHeap.ims.Perm (fs.rowHeap.ims ++ [im]) :=
  ⟨(HeapState.push_ordered hfits.item hS ho him).1,
    (HeapState.push_ordered hfits.item hS ho him).2, HeapState.push_perm _ _ _⟩

/-- Every item of the merge heap holds a row of the input. -/
theorem MergeInv.heap_rows {rows : List (ComparableRow D)} {fs : FileSorter D} {d : Disk}
    {rests : List (List (ComparableRow D))} (hinv : MergeInv env rows fs d rests) :
    ∀ a ∈ fs.rowHeap.ims, a.value ∈ rows := fun a ha => by
  obtain ⟨-, t, ht⟩ := mem_heads (hinv.heap.subset ha)
  exact hinv.mem _ (List.getElem?_mem ht) _ (List.mem_cons_self _ _)

/-- A step that changes only the heap and the descriptors keeps the parts of the invariant
about the rest of the sorter. -/
theorem MergeInv.of_frame {rows : List (ComparableRow D)} {fs : FileSorter D} {d : Disk}
    {rests : List (List (ComparableRow D))} (hinv : MergeInv env rows fs d rests)
    {h : HeapState (Item D)} {fds : List Fd} {d' : Disk} {rests' : List (List (ComparableRow D))}
    (heap : h.ims.Perm (heads 0 rests'))
    (ordered : HeapState.Ordered (fs.itemLess env) h.ims h.ims.length) (err : h.err = none)
    (sorted : ∀ rest ∈ rests', SortedBy (fun a b => verdict (fs.rowLess env a b)) rest)
    (mem : ∀ rest ∈ rests', ∀ row ∈ rest, row ∈ rows)
    (reads : ∀ i rest, rests'[i]? = some rest →
      ReadsAt env { fs with rowHeap := h, fds := fds } d' i rest.tail) :
    MergeInv env rows { fs with rowHeap := h, fds := fds } d' rests' :=
  ⟨hinv.fits.of_frame h fds, hinv.closed, hinv.fetched, hinv.files, heap, ordered, err, sorted, mem,
    reads⟩

section Advance

variable {rows : List (ComparableRow D)} {fs : FileSorter D} {d : Disk}
  {rests : List (List (ComparableRow D))} (hinv : MergeInv env rows fs d rests)
include hinv

/-- A row that no heap item is `Less` than is below or level with every row left: each run's
first row is in the heap, and the rows after it are sorted after it. -/
theorem MergeInv.least {m : Item D} (hm : m.value ∈ rows)
    (hmin : ∀ a ∈ fs.rowHeap.ims, verdict (fs.itemLess env a m) = false) :
    ∀ y ∈ rests.flatten, verdict (fs.rowLess env y m.value) = false := by
  intro y hy
  obtain ⟨rest, hrest, hyr⟩ := List.mem_flatten.1 hy
  obtain ⟨j, hj, hjr⟩ := List.getElem_of_mem hrest
  cases rest with
  | nil => exact absurd hyr (List.not_mem_nil _)
  | cons w u =>
    have hjw : rests[j]? = some (w :: u) := by rw [List.getElem?_eq_getElem hj, hjr]
    have hw : (⟨j, w⟩ : Item D) ∈ fs.rowHeap.ims :=
      hinv.heap.symm.subset (by simpa using mem_heads_of_getElem? 0 hjw)
    have hwx : verdict (fs.rowLess env w m.value) = false := hmin _ hw
    have hwrows := hinv.mem _ hrest
    rcases List.mem_cons.1 hyr with rfl | hyu
    · exact hwx
    · exact hinv.fits.valid.order.not_lt_trans hm (hwrows w (List.mem_cons_self _ _))
        (hwrows y hyr) hwx (List.rel_of_pairwise_cons (hinv.sorted _ hrest) hyu)

variable {m : Item D} {t : List (ComparableRow D)} (ht : rests[m.index]? = some (m.value :: t))
include ht

/-- Advancing run `m.index` past its first row keeps every run sorted and made of input rows. -/
theorem MergeInv.set_sorted :
    (∀ rest ∈ rests.set m.index t, SortedBy (fun a b => verdict (fs.rowLess env a b)) rest) ∧
      ∀ rest ∈ rests.set m.index t, ∀ row ∈ rest, row ∈ rows := by
  constructor <;> intro rest hr <;> rcases List.mem_or_eq_of_mem_set hr with hr | rfl
  · exact hinv.sorted _ hr
  · exact (List.pairwise_cons.1 (hinv.sorted _ (List.getElem?_mem ht))).2
  · exact hinv.mem _ hr
  · exact fun row hrow => hinv.mem _ (List.getElem?_mem ht) _ (List.mem_cons_of_mem _ hrow)

/-- A heap that lost `m`, and gained the next row of `m`'s run if there is one, holds the first
rows of the runs left. -/
theorem MergeInv.heap_set {h : HeapState (Item D)} (hperm : (h.ims ++ [m]).Perm fs.rowHeap.ims)
    {ims : List (Item D)}
    (hims : (ims ++ [m]).Perm (h.ims ++ (t.head?.map (Item.mk m.index)).toList ++ [m])) :
    ims.Perm (heads 0 (rests.set m.index t)) := by
  have h1 := heads_set 0 ht
  rw [Nat.zero_add] at h1
  refine (List.perm_append_right_iff [m]).1 (hims.trans ?_)
  calc List.Perm (h.ims ++ (t.head?.map (Item.mk m.index)).toList ++ [m])
        (h.ims ++ [m] ++ (t.head?.map (Item.mk m.index)).toList) := by
        simpa using List.perm_append_comm.append_left h.ims
    List.Perm _ (heads 0 rests ++ (t.head?.map (Item.mk m.index)).toList) :=
        (hperm.trans hinv.heap).append_right _
    List.Perm _ (m :: heads 0 (rests.set m.index t)) := h1
    List.Perm _ (heads 0 (rests.set m.index t) ++ [m]) := (List.perm_append_singleton _ _).symm

/-- Descriptor `m.index` reads the rest of its run, and the others what they read before. -/
theorem MergeInv.reads_set {fs' : FileSorter D} {d' : Disk} (hd : d'.files = d.files)
    (hfds : ∀ j, j ≠ m.index → fs'.fds[j]? = fs.fds[j]?) (hi : ReadsAt env fs' d' m.index t.tail) :
    ∀ j rest, (rests.set m.index t)[j]? = some rest → ReadsAt env fs' d' j rest.tail := by
  intro j rest hj
  by_cases hji : j = m.index
  · subst hji
    rw [List.getElem?_set_self (List.getElem?_eq_some_iff.1 ht).1] at hj
    cases hj
    exact hi
  · rw [List.getElem?_set_ne (Ne.symm hji)] at hj
    exact (hinv.reads j rest hj).congr _ (hfds j hji) hd

end Advance

section Step

variable {fs : FileSorter D} {d : Disk} {im : Item D} {fs' : FileSorter D} {d' : Disk}
  (hne : fs.rowHeap.ims ≠ []) (hm : (fs.rowHeap.pop (fs.itemLess env)).1 = some im)
  (herr : (fs.rowHeap.pop (fs.itemLess env)).2.err = none)
include hne hm herr

/-- A merge step that pops `im` from the heap, and finds `im`'s run at its end, returns `im`'s
row. -/
theorem mergeStep_of_fetch_none
    (hfetch : ({ fs with rowHeap := (fs.rowHeap.pop (fs.itemLess env)).2 }).fetchNextRow env d
      im.index = (.ok none, fs', d')) :
    fs.mergeStep env d = (.ok (some im.value), fs', d') := by
  have hlen : fs.rowHeap.ims.length ≠ 0 := fun h => hne (List.length_eq_zero.1 h)
  simp only [mergeStep, hlen, if_false]
  rw [herr, hm]
  simp only [hfetch]

/-- A merge step that pops `im` from the heap, and reads the next row of `im`'s run, pushes that
row and returns `im`'s row. -/
theorem mergeStep_of_fetch_some {row : ComparableRow D}
    (hfetch : ({ fs with rowHeap := (fs.rowHeap.pop (fs.itemLess env)).2 }).fetchNextRow env d
      im.index = (.ok (some row), fs', d'))
    (hpush : (fs'.pushItem env ⟨im.index, row⟩).rowHeap.err = none) :
    fs.mergeStep env d = (.ok (some im.value), fs'.pushItem env ⟨im.index, row⟩, d') := by
  have hlen : fs.rowHeap.ims.length ≠ 0 := fun h => hne (List.length_eq_zero.1 h)
  simp only [mergeStep, hlen, if_false]
  rw [herr, hm]
  simp only [hfetch, hpush]

end Step

/-- One merge step. With nothing left, the heap is empty and the step is the end of data.
Otherwise it returns the first row `x` of some run `j`, which no remaining row is `Less` than,
and the invariant holds with run `j` advanced past `x`. -/
theorem mergeStep_advance (hf : env.FaultFree) {rows : List (ComparableRow D)} {fs : FileSorter D}
    {d : Disk} {rests : List (List (ComparableRow D))} (hinv : MergeInv env rows fs d rests) :
    (rests.flatten = [] ∧ fs.mergeStep env d = (.ok none, fs, d)) ∨
      ∃ j x t fs' d', rests[j]? = some (x :: t) ∧ fs.mergeStep env d = (.ok (some x), fs', d') ∧
        MergeInv env rows fs' d' (rests.set j t) ∧
        (∀ y ∈ rests.flatten, verdict (fs.rowLess env y x) = false) ∧
        fs'.rowLess env = fs.rowLess env := by
  have hS := hinv.heap_rows
  by_cases hempty : fs.rowHeap.ims = []
  · exact .inl ⟨heads_eq_nil (List.Perm.nil_eq (hempty ▸ hinv.heap)).symm,
      by simp [mergeStep, hempty]⟩
  right
  obtain ⟨m, hm, hmin, herr, hord⟩ :=
    HeapState.pop_ordered hinv.fits.item hS hinv.ordered hempty
  have hperm := HeapState.pop_perm hm
  obtain ⟨-, t, ht⟩ :=
    mem_heads (hinv.heap.subset (hperm.subset (List.mem_append_right _ (List.mem_singleton_self m))))
  rw [Nat.sub_zero] at ht
  set fs₁ : FileSorter D := { fs with rowHeap := (fs.rowHeap.pop (fs.itemLess env)).2 }
  have hS₁ : ∀ a ∈ fs₁.rowHeap.ims, a.value ∈ rows := fun a ha =>
    hS a (hperm.subset (List.mem_append_left _ ha))
  have hreads := hinv.reads _ _ ht
  have hleast := hinv.least (hinv.mem _ (List.getElem?_mem ht) _ (List.mem_cons_self _ _)) hmin
  obtain ⟨hsorted', hmem'⟩ := hinv.set_sorted ht
  have herr₁ : fs₁.rowHeap.err = none := herr.trans hinv.err
  cases t with
  | nil =>
    obtain ⟨d', hfetch, hd⟩ := fetchNextRow_nil hf (hreads.congr fs₁ rfl rfl)
    refine ⟨m.index, m.value, [], fs₁, d', ht, mergeStep_of_fetch_none hempty hm herr₁ hfetch, ?_,
      hleast, rfl⟩
    exact hinv.of_frame (hinv.heap_set ht hperm (by simp)) hord herr₁ hsorted' hmem'
      (hinv.reads_set ht hd (fun _ _ => rfl) (hreads.congr _ rfl hd))
  | cons y t' =>
    have hyrows : y ∈ rows :=
      hinv.mem _ (List.getElem?_mem ht) _ (List.mem_cons_of_mem _ (List.mem_cons_self _ _))
    obtain ⟨fds, d', hfetch, hd, hri, hother⟩ := fetchNextRow_cons hf (hreads.congr fs₁ rfl rfl)
      (hinv.fits.roundTrips y hyrows) (hinv.fits.sizes y hyrows).1 (hinv.fits.sizes y hyrows).2
    obtain ⟨herr₂, hord₂, hperm₂⟩ :=
      pushItem_spec (hinv.fits.of_frame fs₁.rowHeap fds) hS₁ hord ⟨m.index, y⟩ hyrows
    have herr₃ : (({ fs₁ with fds := fds }).pushItem env ⟨m.index, y⟩).rowHeap.err = none :=
      herr₂.trans herr₁
    refine ⟨m.index, m.value, y :: t', ({ fs₁ with fds := fds }).pushItem env ⟨m.index, y⟩, d', ht,
      mergeStep_of_fetch_some hempty hm herr₁ hfetch herr₃, ?_, hleast, rfl⟩
    exact hinv.of_frame (hinv.heap_set ht hperm (by simpa using hperm₂.append_right [m])) hord₂
      herr₃ hsorted' hmem' (hinv.reads_set ht hd hother hri)

/-- One merge step. With nothing left, the heap is empty and the step is the end of data.
Otherwise it returns a row that no remaining row is `Less` than, and the invariant holds for
the rows left after it. -/
theorem mergeStep_spec (hf : env.FaultFree) {rows : List (ComparableRow D)} {fs : FileSorter D}
    {d : Disk} {rests : List (List (ComparableRow D))} (hinv : MergeInv env rows fs d rests) :
    (rests.flatten = [] ∧ fs.mergeStep env d = (.ok none, fs, d)) ∨
      ∃ x rests' fs' d', fs.mergeStep env d = (.ok (some x), fs', d') ∧
        MergeInv env rows fs' d' rests' ∧ rests.flatten.Perm (x :: rests'.flatten) ∧
        (∀ y ∈ rests.flatten, verdict (fs.rowLess env y x) = false) ∧
        fs'.rowLess env = fs.rowLess env := by
  rcases mergeStep_advance hf hinv with h | ⟨_, x, _, fs', d', ht, hstep, hinv', hleast, hlt⟩
  · exact .inl h
  · exact .inr ⟨x, _, fs', d', hstep, hinv', flatten_set ht, hleast, hlt⟩

theorem calls_cons_fst (fs : FileSorter D) (d : Disk) (c : Call D) (cs : List (Call D)) :
    (fs.calls env d (c :: cs)).1 =
      (fs.call env d c).1 :: ((fs.call env d c).2.1.calls env (fs.call env d c).2.2 cs).1 := rfl

/-- An `Output` that returns `r` and changes nothing returns it on every later call. -/
theorem calls_replicate_of_output {fs : FileSorter D} {d : Disk}
    {r : Except Failure (Option (ComparableRow D))} (h : fs.output env d = (r, fs, d)) :
    ∀ n, (fs.calls env d (List.replicate n .output)).1 = List.replicate n r
  | 0 => rfl
  | n + 1 => by
    rw [List.replicate_succ, calls_cons_fst]
    simp only [call, h]
    rw [calls_replicate_of_output h n, List.replicate_succ]

/-- During the merge, `Output` is one merge step. -/
theorem output_of_mergeInv {rows : List (ComparableRow D)} {fs : FileSorter D} {d : Disk}
    {rests : List (List (ComparableRow D))} (hinv : MergeInv env rows fs d rests) :
    fs.output env d = fs.mergeStep env d := by
  simp [output, externalSort, hinv.closed, hinv.files, hinv.fetched]

/-- The run of the merge: from a merge state with `n` rows left, `n + k + 1` `Output` calls
return those rows, sorted, and then the end of data `k + 1` times. -/
theorem calls_of_mergeInv (hf : env.FaultFree) (k : Nat) :
    ∀ (n : Nat) {rows : List (ComparableRow D)} {fs : FileSorter D} {d : Disk}
      {rests : List (List (ComparableRow D))}, MergeInv env rows fs d rests →
      rests.flatten.length = n →
      ∃ out, out.Perm rests.flatten ∧ SortedBy (fun a b => verdict (fs.rowLess env a b)) out ∧
        (fs.calls env d (List.replicate (n + k + 1) .output)).1 =
          out.map (fun r => .ok (some r)) ++ List.replicate (k + 1) (.ok none)
  | n, rows, fs, d, rests, hinv, hn => by
    rcases mergeStep_spec hf hinv with ⟨hnil, hstep⟩ | ⟨x, rests', fs', d', hstep, hinv', hflat, hleast, hlt⟩
    · subst hn
      refine ⟨[], by rw [hnil], List.Pairwise.nil, ?_⟩
      rw [hnil, calls_replicate_of_output ((output_of_mergeInv hinv).trans hstep)]
      simp
    · obtain ⟨n, rfl⟩ : ∃ n', n = n' + 1 := ⟨rests'.flatten.length, by rw [← hn, hflat.length_eq]; rfl⟩
      obtain ⟨out, hout, hsorted, hcalls⟩ := calls_of_mergeInv hf k n hinv'
        (by have := hflat.length_eq; rw [List.length_cons] at this; omega)
      refine ⟨x :: out, (hout.cons x).trans hflat.symm, List.pairwise_cons.2 ⟨fun y hy => ?_, ?_⟩, ?_⟩
      · exact hleast y (hflat.symm.subset (List.mem_cons_of_mem x (hout.subset hy)))
      · rwa [← hlt]
      · rw [show n + 1 + k + 1 = (n + k + 1) + 1 by omega, List.replicate_succ]
        rw [calls_cons_fst]
        simp only [call, output_of_mergeInv hinv, hstep]
        rw [hcalls]
        rfl

end FileSorter

end Gleam.FileSort
