import Gleam.FileSort.Spill

/-!
# The call protocol over whole call sequences

`Input`, `Output` and `Close` on one sorter, in any order and any number, as a run of
`FileSorter.call`. The phase flags `fetched` and `closed` are only ever set, and only by a
successful `Output` or `Close`; a closed sorter answers every call with the same error and
never changes again.

## Main definitions

* `Call`, `FileSorter.call`, `FileSorter.calls`: one API call, and a sequence of them.
* `FileSorter.Latched`: the sorter after a failed in-memory `Output`.

## Main results

* `calls_forall`: a property of the sorter kept by every call gives a property of every result.
* `calls_of_closed`: a closed sorter rejects every later call and stays as it is.
* `phases_after_success`: after a successful `Output` every later `Input` fails, and after a
  successful `Close` every later call fails.
* `input_accepted_after_failed_output_or_close`: a failed `Output` or `Close` sets no flag.
* `output_error_sticky_in_memory`: without run files, a failed `Output` makes every later
  `Output` fail.
* `output_error_then_row_and_end`: with run files, a failed `Output` can be followed by a row
  and the end of data.
-/

namespace Gleam.FileSort

variable {D : Type}

/-- A call of the sorter's API. -/
inductive Call (D : Type) where
  | input (key val : List D) (handle : Int)
  | output
  | close

/-- Whether a call is an `Input`. -/
def Call.isInput : Call D → Bool
  | .input .. => true
  | _ => false

namespace FileSorter

variable (env : Env D)

/-- One call and its result: the row or end of data for `Output`, `none` for a successful
`Input` or `Close`. -/
def call (fs : FileSorter D) (d : Disk) : Call D → Res D (Option (ComparableRow D))
  | .input key val handle =>
    let r := fs.input env d key val handle
    (r.1.map fun _ => none, r.2)
  | .output => fs.output env d
  | .close =>
    let r := fs.close env d
    (r.1.map fun _ => none, r.2)

/-- A sequence of calls, with the result of each. -/
def calls (fs : FileSorter D) (d : Disk) :
    List (Call D) → List (Except Failure (Option (ComparableRow D))) × FileSorter D × Disk
  | [] => ([], fs, d)
  | c :: cs =>
    let r := fs.call env d c
    let rest := calls r.2.1 r.2.2 cs
    (r.1 :: rest.1, rest.2)

variable {env}

/-- The run lemma: a property `P` of the sorter that every call keeps, and under which each call's
result satisfies `Q`, makes every call of every sequence satisfy `Q`. -/
theorem calls_forall {P : FileSorter D → Prop}
    {Q : Call D → Except Failure (Option (ComparableRow D)) → Prop}
    (hstep : ∀ fs d c, P fs → P (fs.call env d c).2.1 ∧ Q c (fs.call env d c).1) :
    ∀ (cs : List (Call D)) (fs : FileSorter D) (d : Disk), P fs →
      ∀ p ∈ cs.zip (fs.calls env d cs).1, Q p.1 p.2 := by
  intro cs
  induction cs with
  | nil => simp [calls]
  | cons c cs ih =>
    intro fs d hP p hp
    simp only [calls, List.zip_cons_cons, List.mem_cons] at hp
    rcases hp with rfl | hp
    · exact (hstep fs d c hP).2
    · exact ih _ _ (hstep fs d c hP).1 p hp

/-- A closed sorter rejects a call and stays as it is. -/
theorem call_of_closed {fs : FileSorter D} (h : fs.closed = true) (d : Disk) (c : Call D) :
    fs.call env d c = (.error (.error "FileSorter has been closed"), fs, d) := by
  cases c <;> simp [call, input, output, close, h, Except.map]

/-- Once `Close` has succeeded, every later call returns the same error and changes nothing. -/
theorem calls_of_closed {fs : FileSorter D} (h : fs.closed = true) (d : Disk) :
    ∀ cs : List (Call D), fs.calls env d cs =
      (cs.map fun _ => .error (.error "FileSorter has been closed"), fs, d)
  | [] => rfl
  | c :: cs => by simp [calls, call_of_closed h, calls_of_closed h d cs]

/-- `fetchNextRow` changes only the descriptors. -/
theorem fetchNextRow_frame (fs : FileSorter D) (d : Disk) (index : Nat) :
    ∃ fds, (fs.fetchNextRow env d index).2.1 = { fs with fds := fds } := by
  unfold fetchNextRow
  split
  · exact ⟨fs.fds, rfl⟩
  · exact ⟨_, rfl⟩

/-- A merge step changes only the heap and the descriptors. -/
theorem mergeStep_frame (fs : FileSorter D) (d : Disk) :
    ∃ h fds, (fs.mergeStep env d).2.1 = { fs with rowHeap := h, fds := fds } := by
  unfold mergeStep
  split_ifs
  · exact ⟨fs.rowHeap, fs.fds, rfl⟩
  · dsimp only
    split
    · exact ⟨_, fs.fds, rfl⟩
    · exact ⟨_, fs.fds, rfl⟩
    · split <;> rename_i heq <;>
        obtain ⟨fds, hfds⟩ := @fetchNextRow_frame _ env _ d _ <;> rw [heq] at hfds <;>
        simp only at hfds <;> subst hfds
      · exact ⟨_, fds, rfl⟩
      · exact ⟨_, fds, rfl⟩
      · dsimp only [pushItem]
        split <;> exact ⟨_, fds, rfl⟩

/-- `closeAllFiles` changes only the descriptors. -/
theorem closeAllFiles_frame (fs : FileSorter D) (d : Disk) :
    ∃ fds, (fs.closeAllFiles env d).2.1 = { fs with fds := fds } := by
  unfold closeAllFiles
  split
  · exact ⟨_, rfl⟩
  · dsimp only
    split <;> exact ⟨_, rfl⟩

/-- `Close` changes only the buffer, the descriptors and the `closed` flag. -/
theorem close_frame (fs : FileSorter D) (d : Disk) :
    ∃ buf fds closed, (fs.close env d).2.1 = { fs with buf := buf, fds := fds, closed := closed } := by
  unfold close
  split_ifs
  · exact ⟨fs.buf, fs.fds, fs.closed, rfl⟩
  · obtain ⟨fds, hfds⟩ := @closeAllFiles_frame _ env { fs with buf := [] } d
    split <;> rename_i heq <;> rw [heq] at hfds <;> subst hfds
    · exact ⟨[], fds, fs.closed, rfl⟩
    · exact ⟨[], fds, true, rfl⟩

/-- A successful `Close` sets `closed`. -/
theorem close_ok_closed {fs : FileSorter D} {d : Disk} (h : (fs.close env d).1 = .ok ()) :
    (fs.close env d).2.1.closed = true := by
  unfold close at h ⊢
  split_ifs at h ⊢
  rcases hc : closeAllFiles env { fs with buf := [] } d with ⟨_ | _, fs', d'⟩ <;> simp [hc] at h ⊢

/-- A successful priming sets `fetched`. -/
theorem prime_fetched {fs fs' : FileSorter D} {d d' : Disk}
    (h : fs.prime env d = (.ok (), fs', d')) : fs'.fetched = true := by
  unfold prime at h
  repeat' ((try dsimp only at h); split at h)
  all_goals (cases h; try rfl)

/-- Once set, `fetched` stays set through `externalSort`. -/
theorem externalSort_fetched_of_fetched {fs : FileSorter D} (h : fs.fetched = true) (d : Disk) :
    (fs.externalSort env d).2.1.fetched = true := by
  obtain ⟨_, _, hm⟩ := @mergeStep_frame _ env fs d
  simp [externalSort, h, hm]

/-- A successful `externalSort` leaves `fetched` set. -/
theorem externalSort_fetched_of_ok {fs : FileSorter D} {d : Disk} {r : Option (ComparableRow D)}
    (h : (fs.externalSort env d).1 = .ok r) : (fs.externalSort env d).2.1.fetched = true := by
  cases hf : fs.fetched
  · simp only [externalSort, hf, Bool.false_eq_true, if_false] at h ⊢
    rcases hp : fs.prime env d with ⟨_ | _, fs', d'⟩
    · simp [hp] at h
    · obtain ⟨_, _, hm⟩ := @mergeStep_frame _ env fs' d'
      simp only [hm]
      exact prime_fetched hp
  · exact externalSort_fetched_of_fetched hf d

/-- Once set, `fetched` stays set through `internalSort`. -/
theorem internalSort_fetched_of_fetched {fs : FileSorter D} (h : fs.fetched = true) (d : Disk) :
    (fs.internalSort env d).2.1.fetched = true := by
  simp only [internalSort, h, if_true]
  split <;> simp [h]

/-- A successful `internalSort` leaves `fetched` set. -/
theorem internalSort_fetched_of_ok {fs : FileSorter D} {d : Disk} {r : Option (ComparableRow D)}
    (h : (fs.internalSort env d).1 = .ok r) : (fs.internalSort env d).2.1.fetched = true := by
  cases hf : fs.fetched
  · cases herr : (fs.sortBuf env).err with
    | some e => simp [internalSort, hf, herr] at h
    | none =>
      simp only [internalSort, hf, herr, Bool.false_eq_true, if_false]
      split <;> rfl
  · exact internalSort_fetched_of_fetched hf d

/-- Once set, `fetched` stays set through `Output`. -/
theorem output_fetched_of_fetched {fs : FileSorter D} (h : fs.fetched = true) (d : Disk) :
    (fs.output env d).2.1.fetched = true := by
  unfold output
  split_ifs
  · exact h
  · exact internalSort_fetched_of_fetched h d
  · exact externalSort_fetched_of_fetched h d

/-- A successful `Output` leaves `fetched` set. -/
theorem output_fetched_of_ok {fs : FileSorter D} {d : Disk} {r : Option (ComparableRow D)}
    (h : (fs.output env d).1 = .ok r) : (fs.output env d).2.1.fetched = true := by
  unfold output at h ⊢
  split_ifs at h ⊢
  · exact internalSort_fetched_of_ok h
  · exact externalSort_fetched_of_ok h

/-- Every call keeps `fetched` set. -/
theorem call_fetched {fs : FileSorter D} (h : fs.fetched = true) (d : Disk) (c : Call D) :
    (fs.call env d c).2.1.fetched = true := by
  cases c with
  | input key val handle => by_cases hc : fs.closed <;> simp [call, input, h, hc]
  | output => exact output_fetched_of_fetched h d
  | close =>
    obtain ⟨_, _, _, hcl⟩ := @close_frame _ env fs d
    simp [call, hcl, h]

/-- With `fetched` set, `Input` fails. -/
theorem call_input_of_fetched {fs : FileSorter D} (h : fs.fetched = true) (d : Disk) (c : Call D)
    (hc : c.isInput) : ∃ e, (fs.call env d c).1 = .error e := by
  cases c with
  | input key val handle => by_cases hcl : fs.closed <;> simp [call, input, h, hcl, Except.map]
  | _ => cases hc

/-- The phase protocol for successful calls. After a successful `Output`, every `Input` of any
later call sequence fails; after a successful `Close`, every later call fails with the closed
error and the sorter no longer changes. -/
theorem phases_after_success (fs : FileSorter D) (d : Disk) :
    ((∃ r, (fs.output env d).1 = .ok r) → ∀ cs : List (Call D),
      ∀ p ∈ cs.zip ((fs.output env d).2.1.calls env (fs.output env d).2.2 cs).1,
        p.1.isInput → ∃ e, p.2 = .error e) ∧
    ((fs.close env d).1 = .ok () → ∀ cs : List (Call D),
      (fs.close env d).2.1.calls env (fs.close env d).2.2 cs =
        (cs.map fun _ => .error (.error "FileSorter has been closed"), (fs.close env d).2.1,
          (fs.close env d).2.2)) := by
  constructor
  · rintro ⟨r, hr⟩ cs
    exact calls_forall (P := fun fs => fs.fetched = true)
      (Q := fun c r => c.isInput → ∃ e, r = .error e) (fun fs d c h => ⟨call_fetched h d c, call_input_of_fetched h d c⟩) cs _ _
      (output_fetched_of_ok hr)
  · intro h cs
    exact calls_of_closed (close_ok_closed h) _ cs

/-- A fresh sorter: `Output` succeeds with the end of data, and `Close` succeeds. -/
theorem phases_after_success_fresh :
    let env := byteEnv fun _ => none
    let fs : FileSorter Int := (smallBuilder 1).fresh
    ((∃ r, (fs.output env emptyDisk).1 = .ok r) ∧ (fs.close env emptyDisk).1 = .ok ()) ∧
    (((∃ r, (fs.output env emptyDisk).1 = .ok r) → ∀ cs : List (Call Int),
      ∀ p ∈ cs.zip ((fs.output env emptyDisk).2.1.calls env (fs.output env emptyDisk).2.2 cs).1,
        p.1.isInput → ∃ e, p.2 = .error e) ∧
    ((fs.close env emptyDisk).1 = .ok () → ∀ cs : List (Call Int),
      (fs.close env emptyDisk).2.1.calls env (fs.close env emptyDisk).2.2 cs =
        (cs.map fun _ => .error (.error "FileSorter has been closed"), (fs.close env emptyDisk).2.1,
          (fs.close env emptyDisk).2.2))) :=
  ⟨⟨⟨none, rfl⟩, rfl⟩, phases_after_success _ _⟩

/-- The phase flags are set only on success. On a sorter for one key and one value column and
three rows, an `Output` whose sort meets a datum `CompareDatum` rejects fails, and a later `Input`
is accepted; after a `Close` whose `os.RemoveAll` fails, an `Input` is accepted and `Output`
returns its row. -/
theorem input_accepted_after_failed_output_or_close :
    (((smallBuilder 3).fresh : FileSorter Int).calls (byteEnv fun _ => none) emptyDisk
        [.input [-1] [0] 0, .input [2] [0] 1, .output, .input [1] [0] 2]).1 =
      [.ok none, .ok none, .error (.error "cannot compare"), .ok none] ∧
    (((smallBuilder 3).fresh : FileSorter Int).calls
        (byteEnv fun n => if n = 0 then some "remove failed" else none) emptyDisk
        [.close, .input [1] [0] 2, .output]).1 =
      [.error (.error "remove failed"), .ok none, .ok (some ⟨[1], [0], 2⟩)] :=
  ⟨rfl, rfl⟩

/-- The sorter after a failed `Output` without run files: closed, or with a comparison failure
latched in `err`, no run file and nothing fetched. -/
def Latched (fs : FileSorter D) : Prop :=
  fs.closed = true ∨ (fs.err.isSome ∧ fs.files = [] ∧ fs.fetched = false)

/-- A latched comparison failure survives every later sort. -/
theorem sortBuf_err_of_isSome {fs : FileSorter D} (h : fs.err.isSome) :
    (fs.sortBuf env).err = fs.err :=
  insertionSort_err_of_isSome _ h

/-- With a comparison failure after sorting, `flushToFile` fails before touching the disk. -/
theorem flushToFile_of_err {fs : FileSorter D} {e : String} (h : (fs.sortBuf env).err = some e)
    (d : Disk) : fs.flushToFile env d = (.error (.error e), fs.sortBuf env, d) := by
  simp [flushToFile, h]

/-- Before the first successful `Output`, a comparison failure makes `internalSort` fail. -/
theorem internalSort_of_err {fs : FileSorter D} {e : String} (hf : fs.fetched = false)
    (h : (fs.sortBuf env).err = some e) (d : Disk) :
    fs.internalSort env d = (.error (.error e), fs.sortBuf env, d) := by
  simp [internalSort, hf, h]

/-- The step lemma: every call keeps the sorter `Latched`, and then `Output` fails. -/
theorem call_latched {fs : FileSorter D} (h : fs.Latched) (d : Disk) (c : Call D) :
    (fs.call env d c).2.1.Latched ∧ (c = .output → ∃ e, (fs.call env d c).1 = .error e) := by
  by_cases hc : fs.closed = true
  · rw [call_of_closed hc]
    exact ⟨.inl hc, fun _ => ⟨_, rfl⟩⟩
  obtain ⟨herr, hfiles, hf⟩ := h.resolve_left hc
  obtain ⟨e, he⟩ := Option.isSome_iff_exists.1 herr
  have hs : (fs.sortBuf env).err = some e := (sortBuf_err_of_isSome herr).trans he
  have hsl : (fs.sortBuf env).Latched := .inr ⟨by simp [hs], hfiles, hf⟩
  cases c with
  | input key val handle =>
    refine ⟨?_, fun h => nomatch h⟩
    simp only [call, input, hc, hf, Bool.false_eq_true, if_false]
    split_ifs
    · exact h
    · exact h
    · rw [flushToFile_of_err hs]
      exact hsl
    · exact .inr ⟨herr, hfiles, hf⟩
  | output =>
    simp only [call, output, hc, hfiles, if_true, Bool.false_eq_true, if_false,
      internalSort_of_err hf hs]
    exact ⟨hsl, fun _ => ⟨_, rfl⟩⟩
  | close =>
    obtain ⟨_, _, _, hcl⟩ := @close_frame _ env fs d
    simp only [call, hcl]
    exact ⟨.inr ⟨herr, hfiles, hf⟩, fun h => nomatch h⟩

/-- A failed `Output` on a sorter without run files leaves it `Latched`. -/
theorem latched_of_output_error {fs : FileSorter D} {d : Disk} (hfiles : fs.files = [])
    {e : Failure} (h : (fs.output env d).1 = .error e) : (fs.output env d).2.1.Latched := by
  unfold output at h ⊢
  split_ifs at h ⊢ with hc
  · exact .inl hc
  cases hf : fs.fetched
  · cases herr : (fs.sortBuf env).err with
    | some e' =>
      rw [internalSort_of_err hf herr]
      exact .inr ⟨by simp [herr], hfiles, hf⟩
    | none =>
      simp only [internalSort, hf, herr, Bool.false_eq_true, if_false] at h
      split at h <;> cases h
  · simp only [internalSort, hf, if_true] at h
    split at h <;> cases h

/-- Output errors are fatal on the in-memory path: once an `Output` on a sorter without run files
has failed, every `Output` of any later call sequence fails, whatever `Input` and `Close` calls
come between. -/
theorem output_error_sticky_in_memory {fs : FileSorter D} {d : Disk} (hfiles : fs.files = [])
    {e : Failure} (h : (fs.output env d).1 = .error e) (cs : List (Call D)) :
    ∀ p ∈ cs.zip ((fs.output env d).2.1.calls env (fs.output env d).2.2 cs).1,
      p.1 = .output → ∃ e, p.2 = .error e :=
  calls_forall (P := Latched) (Q := fun c r => c = .output → ∃ e, r = .error e)
    (fun _ d c h => call_latched h d c) cs _ _ (latched_of_output_error hfiles h)

/-- An `Output` whose sort meets a datum `CompareDatum` rejects, then an `Input` and an `Output`. -/
theorem output_error_sticky_in_memory_bad_datum :
    let env := byteEnv fun _ => none
    let r := ((smallBuilder 3).fresh : FileSorter Int).calls env emptyDisk
      [.input [-1] [0] 0, .input [2] [0] 1]
    let cs : List (Call Int) := [.input [1] [0] 2, .output]
    (r.2.1.files = [] ∧ (r.2.1.output env r.2.2).1 = .error (.error "cannot compare")) ∧
      ∀ p ∈ cs.zip ((r.2.1.output env r.2.2).2.1.calls env (r.2.1.output env r.2.2).2.2 cs).1,
        p.1 = .output → ∃ e, p.2 = .error e := by
  intro env r cs
  have hfiles : r.2.1.files = [] := rfl
  have h : (r.2.1.output env r.2.2).1 = .error (.error "cannot compare") := rfl
  exact ⟨⟨hfiles, h⟩, output_error_sticky_in_memory hfiles h cs⟩

/-- On the merge path an `Output` error is returned once. With two runs of one row each, when
the read of the next record of the first popped run fails, that `Output` fails, the next one
returns the other run's row and the one after reports the end of data: the popped row is lost. -/
theorem output_error_then_row_and_end :
    (((smallBuilder 1).fresh : FileSorter Int).calls
        (byteEnv fun n => if n = 12 then some "read failed" else none) emptyDisk
        [.input [2] [0] 0, .input [1] [0] 1, .output, .output, .output]).1 =
      [.ok none, .ok none, .error (.error "read failed"), .ok (some ⟨[2], [0], 0⟩), .ok none] :=
  rfl

end FileSorter

end Gleam.FileSort
