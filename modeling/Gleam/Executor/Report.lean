import Gleam.Executor.Invariant

/-!
# What `ExecuteInstructionSet` reports, and the sends that block

The main goroutine's `select` takes any of its ready cases. Once every goroutine is done the
watcher closes `finishedChan`, and the `select` may take it while errors wait in `exeErrChan` or
`ioErrChan`: a run in which a stage failed can return `nil`.

`ioErrChan` holds `2n` errors for `n` instructions, but a dial sends one error when it fails, and
the first and last instructions dial one goroutine per shard location, however many there are.
Once the main goroutine has returned, nothing receives from the channels: a dial that finds
`ioErrChan` full then blocks forever.

## Main results

* `all_done_may_return_nil`: when every goroutine is done before the `select`, it can return
  `nil`, every error sent still buffered.
* `dial_blocked_forever`: a failed dial that finds `ioErrChan` full after the main goroutine
  returned never sends, whatever the other goroutines do.
-/

namespace Gleam.Executor

/-- Once every goroutine is done, and the main goroutine is still in its `select`, the `select`
can return `nil`, and every error sent so far is still unread. -/
theorem all_done_may_return_nil {is : List Instruction} {s : Exec} (h : Reachable is s)
    (hmain : s.main = .selecting) (hwg : s.wg = 0) :
    ∃ as s', run is.length s as = some s' ∧ s'.main = .returned false ∧
      s'.exeErrChan = s.exeSends ∧ s'.ioErrChan = s.ioSends := by
  obtain ⟨he, hi⟩ := (reachable_inv h).unread (by simp [hmain])
  cases hf : s.finishedChan
  · exact ⟨[.watcher, .selectFinished], { s with finishedChan := true, main := .returned false },
      by simp [run, step, hf, hwg, hmain], rfl, he, hi⟩
  · exact ⟨[.selectFinished], { s with main := .returned false }, by simp [run, step, hf, hmain], rfl,
      he, hi⟩

/-- One instruction with one input shard location whose dial fails: once the dial has sent its
error and every goroutine is done, the `select` can return `nil`. -/
theorem all_done_may_return_nil_failed_dial :
    let is : List Instruction := [⟨[true], [], false⟩]
    ∃ s, Reachable is s ∧ s.main = .selecting ∧ s.wg = 0 ∧ s.ioSends = 1 ∧
      ∃ as s', run is.length s as = some s' ∧ s'.main = .returned false ∧
        s'.exeErrChan = s.exeSends ∧ s'.ioErrChan = s.ioSends := by
  intro is
  obtain ⟨s, hs⟩ : ∃ s, run is.length (init is)
      [.stage 0, .stage 0, .stage 0, .dial 0, .dial 0] = some s := ⟨_, rfl⟩
  have hr : Reachable is s := ⟨_, hs⟩
  have h : s.main = .selecting ∧ s.wg = 0 ∧ s.ioSends = 1 := by
    simp only [run, step, stageStep, dialStep, init] at hs
    cases hs
    exact ⟨rfl, rfl, rfl⟩
  exact ⟨s, hr, h.1, h.2.1, h.2.2, all_done_may_return_nil hr h.1 h.2.1⟩

/-- One instruction whose function fails: once it has sent its error and exited, the `select`
can take the error, or `finishedChan` and return `nil`. -/
theorem failed_stage_may_return_nil :
    let is : List Instruction := [⟨[], [], true⟩]
    ∃ s, run is.length (init is) [.stage 0, .stage 0, .stage 0] = some s ∧ s.exeSends = 1 ∧
      (run is.length s [.selectExe]).map Exec.main = some (.returned true) ∧
      (run is.length s [.watcher, .selectFinished]).map Exec.main = some (.returned false) :=
  ⟨_, rfl, rfl, rfl, rfl⟩

section Blocked

variable {n j : Nat} {f : Bool}

/-- The main goroutine has returned, `ioErrChan` is full, and dial `j` waits to send. -/
def Blocked (n j : Nat) (f : Bool) (s : Exec) : Prop :=
  s.main ≠ .selecting ∧ s.ioErrChan = 2 * n ∧ s.dials[j]? = some ⟨.reporting, f⟩

/-- No step ends a block: no one receives, no send finds room, and other steps leave dial `j`
alone. -/
theorem blocked_step {s s' : Exec} (hb : Blocked n j f s) {a : Action} (h : step n s a = some s') :
    Blocked n j f s' := by
  obtain ⟨hm, hio, hd⟩ := hb
  have hj : j < s.dials.length := (List.getElem?_eq_some_iff.1 hd).1
  cases a with
  | stage i =>
    change stageStep n s i = some s' at h
    unfold stageStep at h
    split at h <;> (try split_ifs at h) <;> cases h <;>
      exact ⟨hm, hio, by simpa [List.getElem?_append_left hj] using hd⟩
  | dial k =>
    change dialStep n s k = some s' at h
    unfold dialStep at h
    split at h
    · rename_i heq
      cases h
      have hk : k ≠ j := fun hk => by simp [hk, hd] at heq
      exact ⟨hm, hio, by simpa [List.getElem?_set_ne hk] using hd⟩
    · split_ifs at h with hlt
      omega
    · cases h
  | watcher =>
    simp only [step] at h
    split_ifs at h
    cases h
    exact ⟨hm, hio, hd⟩
  | selectFinished | selectIo | selectExe =>
    simp [step, hm] at h

/-- A dial that finds `ioErrChan` full after the main goroutine returned stays blocked: in every
continuation of the run its send is not enabled. -/
theorem dial_blocked_forever {s : Exec} (hb : Blocked n j f s) {as : List Action} {s' : Exec}
    (h : run n s as = some s') : step n s' (.dial j) = none := by
  obtain ⟨-, hio, hd⟩ := run_preserves n (fun _ _ _ hb ht => blocked_step hb ht) hb h
  simp [step, dialStep, hd, hio]

end Blocked

/-- One instruction with four input shard locations whose dials fail: `ioErrChan`, sized for two
errors, receives three, and the fourth dial blocks forever once the main goroutine has taken one
error and returned. -/
theorem ioErrChan_overflow_four_dials :
    let is : List Instruction := [⟨[true, true, true, true], [], false⟩]
    let as := [Action.stage 0, .dial 0, .dial 1, .dial 2, .dial 3, .dial 0, .dial 1, .selectIo,
      .dial 2]
    ∃ s, run is.length (init is) as = some s ∧ 2 * is.length < s.ioSends ∧
      ∀ as' s', run is.length s as' = some s' → step is.length s' (.dial 3) = none :=
  ⟨_, rfl, by decide, fun _ _ => dial_blocked_forever ⟨by decide, rfl, rfl⟩⟩

end Gleam.Executor
