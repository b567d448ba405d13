import Gleam.FileSort.Phases

/-!
# `Input` is atomic

A failed `Input` leaves the rows the sorter holds, those of its registered run files and of its
buffer, as they were; a successful one adds its row. The guards of `Input` fail before anything
changes. A failing `flushToFile` may have sorted the buffer, counted the next file name and
created that file, but it registers the file only after all its records are written, and the
buffer is emptied only then.

What this needs of the state is that the next file name is not a registered run (`Fresh`):
otherwise creating it would truncate a run. Every call keeps that (`call_fresh`), so it holds in
every state reachable from `Build`.

## Main definitions

* `HoldsAll`: the rows a sorter holds, up to order.
* `FileSorter.Fresh`: `fileCount` names no registered run.
* `FileSorter.Reachable`: the states reachable from `Build` by any calls.

## Main results

* `FileSorter.flushToFile_error`, `FileSorter.input_error`: what a failed flush or `Input` may
  have changed.
* `FileSorter.Reachable.fresh`: every reachable state is fresh.
* `FileSorter.input_atomic`: in every reachable state a failed `Input` leaves the rows held as they
  are, and a successful one adds its row.
-/

namespace Gleam.FileSort

variable {D : Type} (env : Env D)

/-- The sorter holds `rows`: its registered run files hold the records of some runs, and those
runs and the buffer are `rows` in some order. -/
def HoldsAll (fs : FileSorter D) (d : Disk) (rows : List (ComparableRow D)) : Prop :=
  ∃ runs, List.Forall₂ (HoldsRows env d) fs.files runs ∧ (runs.flatten ++ fs.buf).Perm rows

variable {env} in
/-- The rows held stay held when the registered runs, their files and the buffer's rows do. -/
theorem HoldsAll.congr {fs fs' : FileSorter D} {d d' : Disk} {rows : List (ComparableRow D)}
    (h : HoldsAll env fs d rows) (hf : fs'.files = fs.files)
    (hd : ∀ f ∈ fs.files, d'.files f = d.files f) (hb : fs'.buf.Perm fs.buf) :
    HoldsAll env fs' d' rows := by
  obtain ⟨runs, hruns, hperm⟩ := h
  refine ⟨runs, hf ▸ forall₂_imp_mem hruns fun f hf' rs ⟨bytes, henc, hfile⟩ =>
    ⟨bytes, henc, (hd f hf').trans hfile⟩, ?_⟩
  exact (hb.append_left _).trans hperm

namespace FileSorter

/-- `fileCount` is above every registered run, so the next spill creates a file no run uses. -/
def Fresh (fs : FileSorter D) : Prop := ∀ f ∈ fs.files, f < fs.fileCount

/-- The states a sorter reaches from `Build` by a sequence of calls, whatever their results. -/
def Reachable (fs : FileSorter D) (d : Disk) : Prop :=
  ∃ (b : Builder) (fs₀ : FileSorter D) (d₀ : Disk) (cs : List (Call D)),
    b.build = .ok fs₀ ∧ (fs₀.calls env d₀ cs).2 = (fs, d)

variable {env}

theorem Fresh.of_le {fs fs' : FileSorter D} (h : fs.Fresh) (hf : fs'.files = fs.files)
    (hc : fs.fileCount ≤ fs'.fileCount) : fs'.Fresh := fun f hf' =>
  Nat.lt_of_lt_of_le (h f (hf ▸ hf')) hc

/-! ## A failed flush or `Input` -/

/-- A failed `flushToFile` registers nothing and keeps the buffer's rows; it may have counted and
created the next run file, and it touched no other file. -/
theorem flushToFile_error {fs fs' : FileSorter D} {d d' : Disk} {e : Failure}
    (h : fs.flushToFile env d = (.error e, fs', d')) :
    fs'.files = fs.files ∧ fs'.buf.Perm fs.buf ∧ fs.fileCount ≤ fs'.fileCount ∧
      ∀ f, f ≠ fs.fileCount → d'.files f = d.files f := by
  have hperm := sortBuf_buf_perm env fs
  simp only [flushToFile, Disk.syscall] at h
  rcases herr : (fs.sortBuf env).err with _ | e'
  · rcases h1 : env.faults d.syscalls with _ | e₁
    · rcases henc : encodeRows env.codec (fs.sortBuf env).buf with e₂ | bytes
      · simp only [herr, h1, henc, Prod.mk.injEq] at h
        obtain ⟨-, rfl, rfl⟩ := h
        exact ⟨rfl, hperm, Nat.le_succ _, fun f hf => by simp [Disk.write, hf]⟩
      · rcases h2 : env.faults (d.syscalls + 1) with _ | e₃ <;>
          simp only [herr, h1, henc, h2, Disk.write_syscalls, Prod.mk.injEq, reduceCtorEq,
            false_and] at h
        obtain ⟨-, rfl, rfl⟩ := h
        exact ⟨rfl, hperm, Nat.le_succ _, fun f hf => by simp [Disk.write, hf]⟩
    · simp only [herr, h1, Prod.mk.injEq] at h
      obtain ⟨-, rfl, rfl⟩ := h
      exact ⟨rfl, hperm, Nat.le_succ _, fun _ _ => rfl⟩
  · simp only [herr, Prod.mk.injEq] at h
    obtain ⟨-, rfl, rfl⟩ := h
    exact ⟨rfl, hperm, le_refl _, fun _ _ => rfl⟩

/-- A failed `Input` is a failed guard, which changes nothing, or a failed flush. -/
theorem input_error {fs fs' : FileSorter D} {d d' : Disk} {key val : List D} {handle : Int}
    {e : Failure} (h : fs.input env d key val handle = (.error e, fs', d')) :
    fs'.files = fs.files ∧ fs'.buf.Perm fs.buf ∧ fs.fileCount ≤ fs'.fileCount ∧
      ∀ f, f ≠ fs.fileCount → d'.files f = d.files f := by
  simp only [input, ite_eq_iff, Prod.mk.injEq] at h
  -- the four guards fail with the sorter and the disk unchanged
  obtain ⟨-, -, rfl, rfl⟩ | ⟨-, ⟨-, -, rfl, rfl⟩ | ⟨-, ⟨-, -, rfl, rfl⟩ | ⟨-, ⟨-, -, rfl, rfl⟩ | ⟨-, h⟩⟩⟩⟩ := h
  iterate 4 exact ⟨rfl, .refl _, le_refl _, fun _ _ => rfl⟩
  split_ifs at h
  all_goals
    split at h
    · rename_i heq; cases h
      first
        | exact flushToFile_error heq
        | cases heq
    · cases h

/-! ## Freshness along every run -/

theorem flushToFile_fresh {fs : FileSorter D} (h : fs.Fresh) (d : Disk) :
    (fs.flushToFile env d).2.1.Fresh := by
  rcases hr : fs.flushToFile env d with ⟨_ | _, fs', d'⟩
  · obtain ⟨hf, -, hc, -⟩ := flushToFile_error hr
    exact h.of_le hf hc
  · obtain ⟨-, -, rfl⟩ := flushToFile_eq_ok hr
    intro f hf
    rcases List.mem_append.1 hf with hf | hf
    · exact Nat.lt_succ_of_lt (h f hf)
    · rw [List.mem_singleton.1 hf]; exact Nat.lt_succ_self _

theorem input_fresh {fs : FileSorter D} (h : fs.Fresh) (d : Disk) (key val : List D)
    (handle : Int) : (fs.input env d key val handle).2.1.Fresh := by
  rcases hr : fs.input env d key val handle with ⟨_ | _, fs', d'⟩
  · obtain ⟨hf, -, hc, -⟩ := input_error hr
    exact h.of_le hf hc
  · obtain ⟨-, -, -, -, ⟨-, -, rfl⟩ | ⟨-, fs₁, hfl, rfl⟩⟩ := input_eq_ok hr
    · exact h
    · have h₁ : (fs.flushToFile env d).2.1.Fresh := flushToFile_fresh h d
      rw [hfl] at h₁
      exact h₁

/-- `openFiles` changes only the descriptors. -/
theorem openFiles_frame : ∀ (names : List Nat) (fs : FileSorter D) (d : Disk),
    ∃ fds, (fs.openFiles env d names).2.1 = { fs with fds := fds }
  | [], fs, _ => ⟨fs.fds, rfl⟩
  | _ :: names, fs, d => by
    unfold openFiles
    split
    · exact ⟨fs.fds, rfl⟩
    · obtain ⟨fds, h⟩ := openFiles_frame names { fs with fds := fs.fds ++ [_] } _
      exact ⟨fds, h⟩

/-- The priming loop changes only the heap and the descriptors. -/
theorem primeRuns_frame : ∀ (ids : List Nat) (fs : FileSorter D) (d : Disk),
    ∃ h fds, (fs.primeRuns env d ids).2.1 = { fs with rowHeap := h, fds := fds }
  | [], fs, _ => ⟨fs.rowHeap, fs.fds, rfl⟩
  | id :: ids, fs, d => by
    obtain ⟨fds, hfds⟩ := @fetchNextRow_frame _ env fs d id
    unfold primeRuns
    split <;> rename_i heq <;> rw [heq] at hfds <;> simp only at hfds <;> subst hfds
    · exact ⟨_, fds, rfl⟩
    · exact ⟨_, fds, rfl⟩
    · dsimp only
      split
      · exact ⟨_, fds, rfl⟩
      · obtain ⟨h, fds', hr⟩ := primeRuns_frame ids (pushItem env { fs with fds := fds } ⟨id, _⟩) _
        exact ⟨h, fds', hr⟩

theorem openAllFiles_frame (fs : FileSorter D) (d : Disk) :
    ∃ fds, (fs.openAllFiles env d).2.1 = { fs with fds := fds } :=
  openFiles_frame fs.files fs d

/-- `internalSort` keeps the registered runs and the file counter. -/
theorem internalSort_runs (fs : FileSorter D) (d : Disk) :
    (fs.internalSort env d).2.1.files = fs.files ∧
      (fs.internalSort env d).2.1.fileCount = fs.fileCount := by
  cases hf : fs.fetched <;> cases herr : (fs.sortBuf env).err <;>
    simp only [internalSort, hf, herr, if_true, Bool.false_eq_true, if_false] <;>
    (try split) <;> simp

theorem prime_fresh {fs : FileSorter D} (h : fs.Fresh) (d : Disk) : (fs.prime env d).2.1.Fresh := by
  have hflush : (if 0 < fs.buf.length then fs.flushToFile env d else (.ok (), fs, d)).2.1.Fresh := by
    split
    · exact flushToFile_fresh h d
    · exact h
  unfold prime
  rcases hfl : (if 0 < fs.buf.length then fs.flushToFile env d else (.ok (), fs, d)) with
    ⟨_ | _, fs₁, d₁⟩ <;> rw [hfl] at hflush
  · exact hflush
  dsimp only
  split
  · exact hflush
  obtain ⟨fds, hfds⟩ := openAllFiles_frame { fs₁ with rowHeap := fs₁.rowHeap.init (fs₁.itemLess env) } d₁
  rcases ho : openAllFiles env { fs₁ with rowHeap := fs₁.rowHeap.init (fs₁.itemLess env) } d₁ with
    ⟨_ | _, fs₂, d₂⟩ <;> rw [ho] at hfds <;> simp only at hfds <;> subst hfds
  · exact hflush
  dsimp only
  obtain ⟨hp, fds', hpr⟩ := primeRuns_frame (List.range fds.length)
    { fs₁ with rowHeap := fs₁.rowHeap.init (fs₁.itemLess env), fds := fds } d₂
  rcases hq : primeRuns env { fs₁ with rowHeap := fs₁.rowHeap.init (fs₁.itemLess env), fds := fds } d₂
    (List.range fds.length) with ⟨_ | _, fs₃, d₃⟩ <;> rw [hq] at hpr <;> simp only at hpr <;>
    subst hpr <;> exact hflush

theorem output_fresh {fs : FileSorter D} (h : fs.Fresh) (d : Disk) : (fs.output env d).2.1.Fresh := by
  unfold output
  split_ifs
  · exact h
  · obtain ⟨hf, hc⟩ := internalSort_runs fs d
    exact h.of_le hf hc.ge
  · have hp : (if fs.fetched then (.ok (), fs, d) else fs.prime env d).2.1.Fresh := by
      split
      · exact h
      · exact prime_fresh h d
    unfold externalSort
    split
    · rename_i heq; rw [heq] at hp; exact hp
    · rename_i fs₁ d₁ heq
      rw [heq] at hp
      obtain ⟨_, _, hm⟩ := @mergeStep_frame _ env fs₁ d₁
      rw [hm]
      exact hp

/-- Every call keeps `fileCount` above the registered runs. -/
theorem call_fresh {fs : FileSorter D} (h : fs.Fresh) (d : Disk) (c : Call D) :
    (fs.call env d c).2.1.Fresh := by
  cases c with
  | input key val handle => exact input_fresh h d key val handle
  | output => exact output_fresh h d
  | close =>
    obtain ⟨_, _, _, hcl⟩ := @close_frame _ env fs d
    simp only [call, hcl]
    exact h

theorem calls_fresh : ∀ (cs : List (Call D)) {fs : FileSorter D} (d : Disk), fs.Fresh →
    (fs.calls env d cs).2.1.Fresh
  | [], _, _, h => h
  | c :: cs, _, d, h => calls_fresh cs _ (call_fresh h d c)

/-- Every state reachable from `Build` is fresh. -/
theorem Reachable.fresh {fs : FileSorter D} {d : Disk} (h : Reachable env fs d) : fs.Fresh := by
  obtain ⟨b, fs₀, d₀, cs, hb, hcs⟩ := h
  obtain ⟨rfl, -⟩ := Builder.build_eq_ok hb
  have h₀ : (b.fresh.calls env d₀ cs).2.1.Fresh :=
    calls_fresh cs d₀ fun _ hf => absurd hf (List.not_mem_nil _)
  rw [hcs] at h₀
  exact h₀

/-! ## Atomicity -/

/-- `Input` is atomic. In every state reachable from `Build`, a failed `Input` registers no run
file and leaves the rows the sorter holds as they were, and a successful `Input` adds exactly its
row to them. A run file is registered only once all the records of the buffer are in it, and then
the buffer holds only the new row. -/
theorem input_atomic {fs : FileSorter D} {d : Disk} (hreach : Reachable env fs d)
    (key val : List D) (handle : Int) {rows : List (ComparableRow D)}
    (hrows : HoldsAll env fs d rows) :
    (∀ e, (fs.input env d key val handle).1 = .error e →
      (fs.input env d key val handle).2.1.files = fs.files ∧
        HoldsAll env (fs.input env d key val handle).2.1 (fs.input env d key val handle).2.2 rows) ∧
    ((fs.input env d key val handle).1 = .ok () →
      HoldsAll env (fs.input env d key val handle).2.1 (fs.input env d key val handle).2.2
        (rows ++ [⟨key, val, handle⟩]) ∧
      ((fs.input env d key val handle).2.1.files = fs.files ∨
        (fs.input env d key val handle).2.1.files = fs.files ++ [fs.fileCount] ∧
          HoldsRows env (fs.input env d key val handle).2.2 fs.fileCount (fs.sortBuf env).buf ∧
          (fs.input env d key val handle).2.1.buf = [⟨key, val, handle⟩])) := by
  have hfresh := hreach.fresh
  rcases hr : fs.input env d key val handle with ⟨_ | _, fs', d'⟩
  · obtain ⟨hf, hb, -, hd⟩ := input_error hr
    refine ⟨fun _ _ => ⟨hf, hrows.congr hf (fun f hf' => hd f (Nat.ne_of_lt (hfresh f hf'))) hb⟩,
      fun h => nomatch h⟩
  · refine ⟨fun _ h => (nomatch h), fun _ => ?_⟩
    obtain ⟨runs, hruns, hperm⟩ := hrows
    obtain ⟨-, -, -, -, ⟨-, rfl, rfl⟩ | ⟨-, fs₁, hfl, rfl⟩⟩ := input_eq_ok hr
    · exact ⟨⟨runs, hruns, by simpa [← List.append_assoc] using hperm.append_right _⟩, .inl rfl⟩
    · obtain ⟨hfiles, -, -, -, hnew, hold⟩ := flushToFile_runs hfl hfresh
      refine ⟨⟨runs ++ [(fs.sortBuf env).buf], ?_, ?_⟩, .inr ⟨hfiles, hnew, rfl⟩⟩
      · rw [hfiles]
        exact List.rel_append (forall₂_imp_mem hruns fun f hf rs ⟨bytes, henc, hfile⟩ =>
          ⟨bytes, henc, (hold f hf).trans hfile⟩) (.cons hnew .nil)
      · have := ((sortBuf_buf_perm env fs).append_left runs.flatten).trans hperm
        simpa [← List.append_assoc] using this.append_right [⟨key, val, handle⟩]

/-- The second `Input` into a sorter with a buffer of one row, which spills the first row. -/
theorem input_atomic_second_row :
    let env := byteEnv fun _ => none
    let s := ((smallBuilder 1).fresh.calls env emptyDisk [.input [2] [0] 0]).2
    let r := s.1.input env s.2 [1] [0] 1
    (Reachable env s.1 s.2 ∧ HoldsAll env s.1 s.2 [⟨[2], [0], 0⟩]) ∧
      (∀ e, r.1 = .error e → r.2.1.files = s.1.files ∧ HoldsAll env r.2.1 r.2.2 [⟨[2], [0], 0⟩]) ∧
      (r.1 = .ok () → HoldsAll env r.2.1 r.2.2 ([⟨[2], [0], 0⟩] ++ [⟨[1], [0], 1⟩]) ∧
        (r.2.1.files = s.1.files ∨ r.2.1.files = s.1.files ++ [s.1.fileCount] ∧
          HoldsRows env r.2.2 s.1.fileCount (s.1.sortBuf env).buf ∧ r.2.1.buf = [⟨[1], [0], 1⟩])) := by
  intro env s r
  have hreach : Reachable env s.1 s.2 := ⟨smallBuilder 1, _, emptyDisk, _, rfl, rfl⟩
  have hrows : HoldsAll env s.1 s.2 [⟨[2], [0], 0⟩] := ⟨[], .nil, .refl _⟩
  exact ⟨⟨hreach, hrows⟩, input_atomic hreach [1] [0] 1 hrows⟩

end FileSorter

end Gleam.FileSort
