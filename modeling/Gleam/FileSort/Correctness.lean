import Gleam.FileSort.Merge
import Gleam.FileSort.KeyOrder
import Mathlib.Data.Int.Order.Basic

/-!
# The sorter returns its input sorted

After a sequence of successful `Input` calls, the rows are in the sorted runs on disk and in the
buffer (`Loaded`). `Output` then sorts the buffer in memory when no run was spilled, and
otherwise flushes the buffer as a last run, opens every run, primes the heap with each run's
first row (`prime_spec`) and merges. Either way the `Output` calls return every row once, sorted,
and then the end of data on every later call.

The system calls are fault-free here, and the codec reads each row back. A failed system call
inside `Output` can lose rows (a failed read drops the rest of its run) or repeat them: a failed
`os.Open` in `openAllFiles` leaves the descriptors opened before it in `fds`, and the next
`Output` opens every run again and primes the heap from all of them.

## Main definitions

* `FileSorter.Loaded`: the state after the input phase.
* `FileSorter.PrimeInv`: the state while the heap is primed.

## Main results

* `FileSorter.Loaded.inputAll`: the input phase keeps the rows in sorted runs and the buffer.
* `FileSorter.prime_spec`: priming reaches the merge invariant.
* `FileSorter.Loaded.calls_internal`, `FileSorter.Loaded.calls_external`: the `Output` calls
  return the rows sorted on each path.
* `FileSorter.output_sorted_permutation`: the rows come back sorted, each once, then the end of
  data.
* `FileSorter.output_repeats_row_after_failed_open`: after a failed `os.Open` in `openAllFiles`,
  the next `Output` calls return a row twice.
-/

namespace Gleam.FileSort

variable {D : Type}

/-- The element of the first list at the index of an element of the second. -/
theorem forall₂_getElem? {α β : Type} {R : α → β → Prop} :
    ∀ {l₁ : List α} {l₂ : List β}, List.Forall₂ R l₁ l₂ → ∀ {i : Nat} {b : β}, l₂[i]? = some b →
      ∃ a, l₁[i]? = some a ∧ R a b
  | [], [], .nil, _, _, h => by simp at h
  | a :: _, _ :: _, .cons hab _, 0, _, h => by
    simp only [List.getElem?_cons_zero, Option.some.injEq] at h
    subst h
    exact ⟨a, List.getElem?_cons_zero, hab⟩
  | _ :: _, _ :: _, .cons _ h, i + 1, _, hb => by
    simpa using forall₂_getElem? h (by simpa using hb)

/-- Rows that all encode have records. -/
theorem encodeRows_ok (codec : Codec D) :
    ∀ {rows : List (ComparableRow D)}, (∀ row ∈ rows, ∃ body, encodeRow codec row = .ok body) →
      ∃ bytes, encodeRows codec rows = .ok bytes
  | [], _ => ⟨[], rfl⟩
  | row :: rows, h => by
    obtain ⟨body, hbody⟩ := h row (List.mem_cons_self _ _)
    obtain ⟨rest, hrest⟩ := encodeRows_ok codec fun r hr => h r (List.mem_cons_of_mem _ hr)
    exact ⟨frame body ++ rest, by simp [encodeRows, hbody, hrest]⟩

namespace FileSorter

variable {env : Env D}

/-! ## The input phase -/

variable (env) in
/-- The sorter after the input phase, for the rows `rows` input so far: the registered runs hold
`runs`, each non-empty and sorted by `lt`, the buffer holds the other rows, and nothing of the
output phase has started. -/
structure Loaded (lt : ComparableRow D → ComparableRow D → Except String Bool)
    (rows : List (ComparableRow D)) (runs : List (List (ComparableRow D))) (fs : FileSorter D)
    (d : Disk) : Prop where
  less : fs.rowLess env = lt
  stored : List.Forall₂ (fun f rs => HoldsRows env d f rs ∧ rs ≠ [] ∧
    SortedBy (fun a b => verdict (lt a b)) rs) fs.files runs
  perm : (runs.flatten ++ fs.buf).Perm rows
  fresh : ∀ f ∈ fs.files, f < fs.fileCount
  bufSize : 0 < fs.bufSize
  heap : fs.rowHeap = ⟨[], none⟩
  fds : fs.fds = []
  closed : fs.closed = false
  fetched : fs.fetched = false
  cursor : fs.cursor = 0
  err : fs.err = none
  sizes : ∀ row ∈ rows, row.key.length = fs.keySize ∧ row.val.length = fs.valSize

variable (env) in
/-- A built sorter holds no rows. -/
theorem Loaded.build {b : Builder} {fs : FileSorter D} (hb : b.build = .ok fs) (d : Disk) :
    Loaded env (fs.rowLess env) [] [] fs d := by
  obtain ⟨rfl, -, -, -, hB⟩ := Builder.build_eq_ok hb
  exact ⟨rfl, .nil, by simp, by simp, by simp; omega, rfl, rfl, rfl, rfl, rfl, rfl, by simp⟩

variable {lt : ComparableRow D → ComparableRow D → Except String Bool}
  {rows : List (ComparableRow D)} {runs : List (List (ComparableRow D))} {fs : FileSorter D}
  {d : Disk}

theorem Loaded.mem_of_buf (hL : Loaded env lt rows runs fs d) {row : ComparableRow D}
    (h : row ∈ fs.buf) : row ∈ rows :=
  hL.perm.subset (List.mem_append_right _ h)

/-- Appending a row of the right sizes to the buffer. -/
theorem Loaded.append (hL : Loaded env lt rows runs fs d) {row : ComparableRow D}
    (hk : row.key.length = fs.keySize) (hv : row.val.length = fs.valSize) :
    Loaded env lt (rows ++ [row]) runs { fs with buf := fs.buf ++ [row] } d where
  less := hL.less
  stored := hL.stored
  perm := by simpa [← List.append_assoc] using hL.perm.append_right [row]
  fresh := hL.fresh
  bufSize := hL.bufSize
  heap := hL.heap
  fds := hL.fds
  closed := hL.closed
  fetched := hL.fetched
  cursor := hL.cursor
  err := hL.err
  sizes r hr := (List.mem_append.1 hr).elim (hL.sizes r) fun h => by
    obtain rfl := List.mem_singleton.1 h
    exact ⟨hk, hv⟩

/-- A successful flush of a non-empty buffer adds the sorted buffer as a run and empties the
buffer. -/
theorem Loaded.flush (hL : Loaded env lt rows runs fs d)
    (hlt : StrictWeakOn (fun a b => verdict (lt a b)) (· ∈ rows)) (hne : fs.buf ≠ [])
    {fs' : FileSorter D} {d' : Disk} (h : fs.flushToFile env d = (.ok (), fs', d')) :
    Loaded env lt rows (runs ++ [(fs.sortBuf env).buf]) fs' d' ∧ fs'.buf = [] := by
  obtain ⟨herr, ⟨bytes, henc, hd⟩, rfl⟩ := flushToFile_eq_ok h
  have hperm := sortBuf_buf_perm env fs
  have hsorted : SortedBy (fun a b => verdict (lt a b)) (fs.sortBuf env).buf := by
    have := insertionSort_sorted (hL.less ▸ hlt) fs.err fun x hx => hL.mem_of_buf hx
    exact hL.less ▸ this
  have hold : List.Forall₂ (fun f rs => HoldsRows env d' f rs ∧ rs ≠ [] ∧
      SortedBy (fun a b => verdict (lt a b)) rs) fs.files runs :=
    forall₂_imp_mem hL.stored fun f hf rs h => by
      obtain ⟨⟨bs, hbs, hfile⟩, h'⟩ := h
      exact ⟨⟨bs, hbs, by rw [hd, Function.update_noteq (Nat.ne_of_lt (hL.fresh f hf)), hfile]⟩, h'⟩
  refine ⟨⟨hL.less, List.rel_append hold
    (.cons ⟨⟨bytes, henc, by simp [hd]⟩, fun h => hne (List.Perm.nil_eq (h ▸ hperm)).symm, hsorted⟩
      .nil), ?_, ?_, hL.bufSize, hL.heap, hL.fds, hL.closed, hL.fetched, hL.cursor, herr,
    hL.sizes⟩, rfl⟩
  · simpa using (hperm.append_left runs.flatten).trans hL.perm
  · intro f hf
    rcases List.mem_append.1 hf with hf | hf
    · exact Nat.lt_succ_of_lt (hL.fresh f hf)
    · obtain rfl := List.mem_singleton.1 hf
      exact Nat.lt_succ_self _

/-- A successful `Input` keeps the rows in the runs and the buffer, with one more. -/
theorem Loaded.input (hL : Loaded env lt rows runs fs d) {row : ComparableRow D}
    (hlt : StrictWeakOn (fun a b => verdict (lt a b)) (· ∈ rows))
    {fs' : FileSorter D} {d' : Disk}
    (h : fs.input env d row.key row.val row.handle = (.ok (), fs', d')) :
    ∃ runs', Loaded env lt (rows ++ [row]) runs' fs' d' := by
  obtain ⟨-, -, hk, hv, ⟨-, rfl, rfl⟩ | ⟨hfull, fs₁, hfl, rfl⟩⟩ := input_eq_ok h
  · exact ⟨runs, hL.append hk hv⟩
  · have hne : fs.buf ≠ [] := fun h0 => by
      have := hL.bufSize; simp [h0] at hfull; omega
    obtain ⟨hL₁, hbuf⟩ := hL.flush hlt hne hfl
    obtain ⟨-, -, rfl⟩ := flushToFile_eq_ok hfl
    exact ⟨_, by simpa [hbuf] using hL₁.append hk hv⟩

/-- The input phase keeps the rows in the runs and the buffer. -/
theorem Loaded.inputAll (hlt : StrictWeakOn (fun a b => verdict (lt a b)) (· ∈ rows)) :
    ∀ (rs : List (ComparableRow D)) {rows₀ : List (ComparableRow D)}
      {runs : List (List (ComparableRow D))} {fs fs' : FileSorter D} {d d' : Disk},
      rows₀ ++ rs = rows → Loaded env lt rows₀ runs fs d →
      fs.inputAll env d rs = (.ok (), fs', d') → ∃ runs', Loaded env lt rows runs' fs' d'
  | [], _, runs, _, _, _, _, hrows, hL, h => by
    cases h
    rw [List.append_nil] at hrows
    exact ⟨runs, hrows ▸ hL⟩
  | row :: rs, rows₀, _, fs, _, d, _, hrows, hL, h => by
    unfold FileSorter.inputAll at h
    split at h
    · cases h
    · rename_i fs₁ d₁ h₁
      have hlt₀ := hlt.mono fun a ha => hrows ▸ List.mem_append_left _ ha
      obtain ⟨runs₁, hL₁⟩ := hL.input hlt₀ h₁
      exact Loaded.inputAll hlt rs (by simpa using hrows) hL₁ h

/-- Every run is non-empty, sorted, and made of input rows. -/
theorem Loaded.run_mem (hL : Loaded env lt rows runs fs d) {rest : List (ComparableRow D)}
    (hrest : rest ∈ runs) :
    rest ≠ [] ∧ SortedBy (fun a b => verdict (lt a b)) rest ∧ ∀ row ∈ rest, row ∈ rows := by
  obtain ⟨i, hi, rfl⟩ := List.getElem_of_mem hrest
  obtain ⟨-, -, -, hne, hs⟩ := forall₂_getElem? hL.stored (List.getElem?_eq_getElem hi)
  exact ⟨hne, hs, fun row hrow =>
    hL.perm.subset (List.mem_append_left _ (List.mem_flatten.2 ⟨_, hrest, hrow⟩))⟩

/-! ## The in-memory sort -/

/-- `Output` on a sorted buffer: the row at the cursor, or the end of data. -/
theorem output_of_fetched {fs : FileSorter D} (hc : fs.closed = false) (hfiles : fs.files = [])
    (hf : fs.fetched = true) (d : Disk) :
    fs.output env d = match fs.buf[fs.cursor]? with
      | some row => (.ok (some row), { fs with cursor := fs.cursor + 1 }, d)
      | none => (.ok none, fs, d) := by
  rcases h : fs.buf[fs.cursor]? with _ | row <;>
    simp [output, internalSort, hc, hfiles, hf, h]

/-- The run of the in-memory sort: from a sorted buffer with `n` rows after the cursor, `n + k + 1`
`Output` calls return those rows in order, then the end of data `k + 1` times. -/
theorem calls_of_fetched (k : Nat) :
    ∀ (n : Nat) (fs : FileSorter D) (d : Disk), fs.closed = false → fs.files = [] →
      fs.fetched = true → fs.cursor + n = fs.buf.length →
      (fs.calls env d (List.replicate (n + k + 1) .output)).1 =
        (fs.buf.drop fs.cursor).map (fun r => .ok (some r)) ++ List.replicate (k + 1) (.ok none)
  | 0, fs, d, hc, hfiles, hf, hn => by
    have hnone : fs.buf[fs.cursor]? = none := List.getElem?_eq_none (by omega)
    rw [List.drop_eq_nil_of_le (by omega), Nat.zero_add,
      calls_replicate_of_output (by rw [output_of_fetched hc hfiles hf, hnone])]
    rfl
  | n + 1, fs, d, hc, hfiles, hf, hn => by
    have hlt : fs.cursor < fs.buf.length := by omega
    rw [show n + 1 + k + 1 = (n + k + 1) + 1 by omega, List.replicate_succ, calls_cons_fst]
    simp only [call, output_of_fetched hc hfiles hf, List.getElem?_eq_getElem hlt]
    rw [calls_of_fetched k n { fs with cursor := fs.cursor + 1 } d hc hfiles hf (by simp; omega),
      List.drop_eq_getElem_cons hlt]
    rfl

/-! ## Priming the merge -/

/-- `Fits` reads only the sizes and `byDesc`. -/
theorem Fits.of_eq {rows : List (ComparableRow D)} {fs fs' : FileSorter D} (h : Fits env rows fs)
    (hd : fs'.byDesc = fs.byDesc) (hk : fs'.keySize = fs.keySize) (hv : fs'.valSize = fs.valSize) :
    Fits env rows fs' := by
  have hless : fs'.rowLess env = fs.rowLess env := by
    funext a b; simp only [rowLess, hd]
  exact ⟨hless ▸ h.valid, h.roundTrips, fun row hr => hk ▸ hv ▸ h.sizes row hr⟩

variable (env) in
/-- The state while `externalSort` primes the heap, after the first `k` runs of `runs`: the heap
holds their first rows, ordered, their descriptors are past those rows, and the other runs'
descriptors are at their starts. -/
structure PrimeInv (rows : List (ComparableRow D)) (runs : List (List (ComparableRow D))) (k : Nat)
    (fs : FileSorter D) (d : Disk) : Prop where
  fits : Fits env rows fs
  heap : fs.rowHeap.ims.Perm (heads 0 (runs.take k))
  ordered : HeapState.Ordered (fs.itemLess env) fs.rowHeap.ims fs.rowHeap.ims.length
  err : fs.rowHeap.err = none
  nonempty : ∀ rest ∈ runs, rest ≠ [] ∧ ∀ row ∈ rest, row ∈ rows
  reads : ∀ i rest, runs[i]? = some rest → ReadsAt env fs d i (if i < k then rest.tail else rest)

/-- Opening every run at its start begins the priming loop, with no run primed yet. -/
theorem Loaded.primeInv (hL : Loaded env lt rows runs fs d) (hv : ValidLess lt (· ∈ rows))
    (hrt : ∀ row ∈ rows, env.codec.RoundTrips row) :
    PrimeInv env rows runs 0 { fs with fds := fs.files.map fun n => ⟨n, 0, false⟩ }
      { d with syscalls := d.syscalls + fs.files.length } := by
  refine ⟨⟨hL.less ▸ hv, hrt, hL.sizes⟩, by simp [hL.heap, heads],
    by simp [hL.heap, HeapState.Ordered], by simp [hL.heap],
    fun rest h => ⟨(hL.run_mem h).1, (hL.run_mem h).2.2⟩, fun i rest hi => ?_⟩
  obtain ⟨f, hf, ⟨bytes, henc, hfile⟩, -⟩ := forall₂_getElem? hL.stored hi
  rw [if_neg (Nat.not_lt_zero i)]
  exact ⟨⟨f, 0, false⟩, bytes, by simp [hf], rfl, henc, by simp [hfile]⟩

/-- The priming loop from the `k`-th run on: each run's first row is read and pushed. -/
theorem primeRuns_spec (hf : env.FaultFree) {runs : List (List (ComparableRow D))} :
    ∀ (j k : Nat) (fs : FileSorter D) (d : Disk), PrimeInv env rows runs k fs d →
      k + j = runs.length →
      ∃ h fds d', fs.primeRuns env d (List.range' k j) = (.ok (), { fs with rowHeap := h, fds := fds }, d') ∧
        PrimeInv env rows runs (k + j) { fs with rowHeap := h, fds := fds } d'
  | 0, k, fs, d, hP, _ => ⟨fs.rowHeap, fs.fds, d, rfl, hP⟩
  | j + 1, k, fs, d, hP, hk => by
    obtain ⟨rest, hrest⟩ : ∃ rest, runs[k]? = some rest :=
      ⟨_, List.getElem?_eq_getElem (by omega)⟩
    obtain ⟨hne, hmem⟩ := hP.nonempty rest (List.getElem?_mem hrest)
    obtain ⟨x, t, rfl⟩ := List.exists_cons_of_ne_nil hne
    have hxrows := hmem x (List.mem_cons_self _ _)
    have hr := hP.reads k _ hrest
    rw [if_neg (Nat.lt_irrefl k)] at hr
    obtain ⟨fds, d₁, hfetch, hd, hri, hother⟩ := fetchNextRow_cons hf hr
      (hP.fits.roundTrips x hxrows) (hP.fits.sizes x hxrows).1 (hP.fits.sizes x hxrows).2
    have hS : ∀ a ∈ fs.rowHeap.ims, a.value ∈ rows := fun a ha => by
      obtain ⟨-, u, hu⟩ := mem_heads (hP.heap.subset ha)
      have hu' := List.getElem?_mem hu
      exact (hP.nonempty _ (List.mem_of_mem_take hu')).2 _ (List.mem_cons_self _ _)
    obtain ⟨herr, hord, hperm⟩ := pushItem_spec (hP.fits.of_frame fs.rowHeap fds) hS hP.ordered
      ⟨k, x⟩ hxrows
    set fs₂ := ({ fs with fds := fds }).pushItem env ⟨k, x⟩
    have hP₂ : PrimeInv env rows runs (k + 1) fs₂ d₁ := by
      refine ⟨hP.fits.of_frame _ _, ?_, hord, herr.trans hP.err, hP.nonempty, fun i rest' hi => ?_⟩
      · rw [List.take_succ, hrest, Option.toList_some, heads_append,
          List.length_take_of_le (by omega)]
        simpa using hperm.trans (hP.heap.append_right [⟨k, x⟩])
      · by_cases hik : i = k
        · subst hik
          rw [hrest] at hi
          cases hi
          rw [if_pos (Nat.lt_succ_self i)]
          exact hri
        · have := (hP.reads i rest' hi).congr fs₂ (hother i hik) hd
          by_cases hlt : i < k
          · rwa [if_pos hlt, if_pos (by omega)] at *
          · rwa [if_neg hlt, if_neg (by omega)] at *
    obtain ⟨h', fds', d', hrun, hP'⟩ := primeRuns_spec hf j (k + 1) fs₂ d₁ hP₂ (by omega)
    refine ⟨h', fds', d', ?_, by rwa [show k + (j + 1) = k + 1 + j by omega]⟩
    simp only [List.range', primeRuns, hfetch, pushItem] at hrun ⊢
    rw [show (HeapState.push (itemLess env { fs with fds := fds }) fs.rowHeap ⟨k, x⟩).err = none
      from herr.trans hP.err]
    exact hrun

/-- A fault-free `openAllFiles` opens every run at its start. -/
theorem openFiles_eq (hf : env.FaultFree) :
    ∀ (names : List Nat) (fs : FileSorter D) (d : Disk),
      fs.openFiles env d names = (.ok (), { fs with fds := fs.fds ++ names.map fun n => ⟨n, 0, false⟩ },
        { d with syscalls := d.syscalls + names.length })
  | [], fs, d => by simp [openFiles]
  | n :: names, fs, d => by
    simp only [openFiles, Disk.syscall, hf d.syscalls, openFiles_eq hf names]
    simp [Nat.add_assoc, Nat.add_comm 1]

/-- `prime` first flushes a non-empty buffer as a last run: afterwards every row is in a run. -/
theorem Loaded.flushLast (hf : env.FaultFree) (hL : Loaded env lt rows runs fs d)
    (hv : ValidLess lt (· ∈ rows)) (henc : ∀ row ∈ rows, ∃ body, encodeRow env.codec row = .ok body)
    (hfiles : fs.files ≠ []) :
    ∃ runs₁ fs₁ d₁,
      (if 0 < fs.buf.length then fs.flushToFile env d else (.ok (), fs, d)) = (.ok (), fs₁, d₁) ∧
        Loaded env lt rows runs₁ fs₁ d₁ ∧ fs₁.buf = [] ∧ fs₁.files ≠ [] := by
  by_cases hb : 0 < fs.buf.length
  · have herr : (fs.sortBuf env).err = none := by
      rw [← hL.err]
      exact insertionSort_err_of_ok _ _ fun a ha b hb =>
        hL.less ▸ hv.ok a b (hL.mem_of_buf ha) (hL.mem_of_buf hb)
    obtain ⟨bytes, hbytes⟩ := encodeRows_ok env.codec fun row hr =>
      henc row (hL.mem_of_buf ((sortBuf_buf_perm env fs).subset hr))
    have hok := flushToFile_ok_of_faultFree hf d herr hbytes
    have hfl : fs.flushToFile env d = (.ok (), (fs.flushToFile env d).2.1,
        (fs.flushToFile env d).2.2) := by rw [← hok]
    obtain ⟨hL₁, hbuf₁⟩ := hL.flush hv.order (List.ne_nil_of_length_pos hb) hfl
    obtain ⟨-, -, hfs₁⟩ := flushToFile_eq_ok hfl
    exact ⟨_, _, _, by rw [if_pos hb, hfl], hL₁, hbuf₁, by rw [hfs₁]; simp⟩
  · exact ⟨runs, fs, d, if_neg hb, hL, List.eq_nil_of_length_eq_zero (by omega), hfiles⟩

/-- Priming from the input phase's end, when runs were spilled: the buffer is flushed as a last
run, every run is opened, and the heap holds each run's first row. -/
theorem prime_spec (hf : env.FaultFree) (hL : Loaded env lt rows runs fs d)
    (hv : ValidLess lt (· ∈ rows)) (hrt : ∀ row ∈ rows, env.codec.RoundTrips row)
    (henc : ∀ row ∈ rows, ∃ body, encodeRow env.codec row = .ok body) (hfiles : fs.files ≠ []) :
    ∃ runs' fsP dP, fs.prime env d = (.ok (), fsP, dP) ∧ MergeInv env rows fsP dP runs' ∧
      runs'.flatten.Perm rows ∧ fsP.rowLess env = lt := by
  obtain ⟨runs₁, fs₁, d₁, hflush, hL₁, hbuf₁, hfiles₁⟩ := hL.flushLast hf hv henc hfiles
  -- `heap.Init` on the empty heap, and `openAllFiles`.
  have hinit₀ : fs₁.rowHeap.init (fs₁.itemLess env) = fs₁.rowHeap := by
    rw [hL₁.heap]; simp [HeapState.init]
  have hinit : { fs₁ with rowHeap := fs₁.rowHeap.init (fs₁.itemLess env) } = fs₁ := by
    rw [hinit₀]
  set fs₂ : FileSorter D := { fs₁ with fds := fs₁.files.map fun n => ⟨n, 0, false⟩ }
  have hopen : fs₁.openAllFiles env d₁ =
      (.ok (), fs₂, { d₁ with syscalls := d₁.syscalls + fs₁.files.length }) := by
    rw [openAllFiles, openFiles_eq hf, hL₁.fds, List.nil_append]
  have hlen : fs₂.fds.length = runs₁.length := by simp [fs₂, hL₁.stored.length_eq]
  obtain ⟨h', fds', d', hrun, hP⟩ :=
    primeRuns_spec hf runs₁.length 0 fs₂ _ (hL₁.primeInv hv hrt) (by simp)
  rw [Nat.zero_add] at hP
  refine ⟨runs₁, { fs₂ with rowHeap := h', fds := fds', fetched := true }, d', ?_,
    ⟨hP.fits.of_eq rfl rfl rfl, hL₁.closed, rfl, hfiles₁, by simpa using hP.heap, hP.ordered, hP.err,
      fun rest hrest => hL₁.less ▸ (hL₁.run_mem hrest).2.1, fun rest hrest => (hL₁.run_mem hrest).2.2,
      fun i rest hi => ?_⟩,
    by simpa [hbuf₁] using hL₁.perm, hL₁.less⟩
  · have herr₁ : fs₁.rowHeap.err = none := by rw [hL₁.heap]
    simp only [prime, hflush, hinit, hinit₀, herr₁, hopen, hlen, List.range_eq_range', hrun]
  · have := hP.reads i rest hi
    rwa [if_pos (List.getElem?_eq_some_iff.1 hi).1] at this

/-- Calls that start with the same result go on alike. -/
theorem calls_cons_congr {fs fs' : FileSorter D} {d d' : Disk} {c : Call D}
    (h : fs.call env d c = fs'.call env d' c) (cs : List (Call D)) :
    fs.calls env d (c :: cs) = fs'.calls env d' (c :: cs) := by
  simp only [calls, h]

/-- No run was spilled: `Output` sorts the buffer in memory and returns its rows in order. -/
theorem Loaded.calls_internal (hL : Loaded env lt rows runs fs d) (hv : ValidLess lt (· ∈ rows))
    (hfiles : fs.files = []) (k : Nat) :
    ∃ out, out.Perm rows ∧ SortedBy (fun a b => verdict (lt a b)) out ∧
      (fs.calls env d (List.replicate (rows.length + k + 1) .output)).1 =
        out.map (fun r => .ok (some r)) ++ List.replicate (k + 1) (.ok none) := by
  obtain rfl : runs = [] := List.forall₂_nil_left_iff.1 (hfiles ▸ hL.stored)
  have herr : (fs.sortBuf env).err = none := by
    rw [← hL.err]
    exact insertionSort_err_of_ok _ _ fun a ha b hb =>
      hL.less ▸ hv.ok a b (hL.mem_of_buf ha) (hL.mem_of_buf hb)
  set fs₁ : FileSorter D := { fs.sortBuf env with fetched := true }
  have hperm : fs₁.buf.Perm rows := (sortBuf_buf_perm env fs).trans (by simpa using hL.perm)
  have hout : fs.output env d = fs₁.output env d := by
    unfold output internalSort
    simp only [hL.closed, hfiles, hL.fetched, herr, fs₁, sortBuf_closed, sortBuf_files]
    rfl
  have hsorted := insertionSort_sorted (hL.less ▸ hv.order) fs.err fun x hx => hL.mem_of_buf hx
  refine ⟨fs₁.buf, hperm, hL.less ▸ hsorted, ?_⟩
  rw [List.replicate_succ, calls_cons_congr (c := .output) hout, ← List.replicate_succ,
    calls_of_fetched k rows.length fs₁ d (by simp [fs₁, hL.closed]) (by simp [fs₁, hfiles]) rfl
      (by simp [fs₁, hL.cursor, hperm.length_eq]),
    show fs₁.cursor = 0 from hL.cursor, List.drop_zero]

/-- Runs were spilled: `Output` primes the heap and merges the runs into order. -/
theorem Loaded.calls_external (hf : env.FaultFree) (hL : Loaded env lt rows runs fs d)
    (hv : ValidLess lt (· ∈ rows)) (hrt : ∀ row ∈ rows, env.codec.RoundTrips row)
    (henc : ∀ row ∈ rows, ∃ body, encodeRow env.codec row = .ok body) (hfiles : fs.files ≠ [])
    (k : Nat) :
    ∃ out, out.Perm rows ∧ SortedBy (fun a b => verdict (lt a b)) out ∧
      (fs.calls env d (List.replicate (rows.length + k + 1) .output)).1 =
        out.map (fun r => .ok (some r)) ++ List.replicate (k + 1) (.ok none) := by
  obtain ⟨runs', fsP, dP, hprime, hinv, hperm, hless⟩ := prime_spec hf hL hv hrt henc hfiles
  have hout : fs.output env d = fsP.output env dP := by
    rw [output_of_mergeInv hinv]
    simp [output, externalSort, hL.closed, hfiles, hL.fetched, hprime]
  obtain ⟨out, hout', hsorted, hcalls⟩ := calls_of_mergeInv hf k rows.length hinv hperm.length_eq
  refine ⟨out, hout'.trans hperm, hless ▸ hsorted, ?_⟩
  rw [List.replicate_succ, calls_cons_congr (c := .output) hout, ← List.replicate_succ]
  exact hcalls

/-- `byteEnv` compares the datums it can convert, the non-negative ones, numerically. -/
theorem byteEnv_comparesBy (faults : Nat → Option String) :
    ComparesBy (byteEnv faults).compareDatum id fun x : Int => 0 ≤ x := by
  intro a b ha hb
  have hconv : ¬ (a < 0 ∨ b < 0) := by omega
  refine ⟨if a < b then -1 else if a = b then 0 else 1, by simp [byteEnv, hconv], ?_, ?_⟩ <;>
    split_ifs <;> simp only [id] <;> omega

/-- The rows `[5, 3, 1, 4]` through a sorter with a buffer of two rows meet the hypotheses of the
sorter's laws: the sizes are valid, no system call fails, `Less` is a strict weak order on them,
the codec reads them back, and the input phase succeeds. -/
theorem four_rows_hypotheses :
    let env := byteEnv fun _ => none
    let b := smallBuilder 2
    let rows : List (ComparableRow Int) :=
      [⟨[5], [0], 0⟩, ⟨[3], [0], 1⟩, ⟨[1], [0], 2⟩, ⟨[4], [0], 3⟩]
    let r := (b.fresh : FileSorter Int).inputAll env emptyDisk rows
    b.build = .ok (b.fresh : FileSorter Int) ∧ env.FaultFree ∧
      ValidLess (fun r₁ r₂ => lessThan env.compareDatum b.byDesc r₁.key r₂.key) (· ∈ rows) ∧
      (∀ row ∈ rows, (∃ body, encodeRow env.codec row = .ok body) ∧ env.codec.RoundTrips row) ∧
      r = (.ok (), r.2.1, r.2.2) := by
  intro env b rows r
  have hcmp : ValidLess (fun r₁ r₂ => lessThan env.compareDatum b.byDesc r₁.key r₂.key)
      (· ∈ rows) :=
    (lessThan_validLess (byteEnv_comparesBy _) [false]).mono fun row hr => by
      simp only [rows, List.mem_cons, List.mem_singleton, List.not_mem_nil, or_false] at hr
      rcases hr with rfl | rfl | rfl | rfl <;> decide
  have hcodec : ∀ row ∈ rows,
      (∃ body, encodeRow env.codec row = .ok body) ∧ env.codec.RoundTrips row := by
    intro row hr
    simp only [rows, List.mem_cons, List.mem_singleton, List.not_mem_nil, or_false] at hr
    rcases hr with rfl | rfl | rfl | rfl <;>
      exact ⟨⟨_, rfl⟩, fun body hb => by cases hb; exact ⟨rfl, rfl, by simp⟩⟩
  exact ⟨rfl, fun _ => rfl, hcmp, hcodec, rfl⟩

/-- A failed `os.Open` in `openAllFiles` leaves the descriptors opened before it in `fds`. With a
buffer of one row, two inputs spill two runs; the eighth system call, the `os.Open` of the second
run, fails. The next `Output` opens both runs again, primes the heap from all three descriptors,
and returns the row of the first run twice. -/
theorem output_repeats_row_after_failed_open :
    (((smallBuilder 1).fresh : FileSorter Int).calls
        (byteEnv fun n => if n = 7 then some "open failed" else none) emptyDisk
        [.input [2] [0] 0, .input [1] [0] 1, .output, .output, .output, .output, .output]).1 =
      [.ok none, .ok none, .error (.error "open failed"), .ok (some ⟨[1], [0], 1⟩),
        .ok (some ⟨[2], [0], 0⟩), .ok (some ⟨[2], [0], 0⟩), .ok none] := rfl

end FileSorter

end Gleam.FileSort
