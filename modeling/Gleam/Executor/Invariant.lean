import Gleam.Executor.Model

/-!
# The invariant of the executor's runs

Along every interleaving: the wait group counts the stages that have not run their deferred
`wg.Done()` and the dials still dialling; each failed stage past its send has sent once on
`exeErrChan`, and each failed dial that is done has sent once on `ioErrChan`; the channels hold no
more than was sent; `finishedChan` is closed only at a zero count, and the main goroutine returns
`nil` only after it is closed.

## Main definitions

* `Inv`: the invariant.

## Main results

* `step_inv`, `reachable_inv`: every reachable state satisfies `Inv`.
* `exe_send_enabled`: no stage ever blocks on `exeErrChan`, which receives at most `n` errors.
* `returned_nil_errors_unread`: `nil` is returned only after every stage has exited, with the
  error of every failed stage unread.
-/

namespace Gleam.Executor

/-- A stage counts in the wait group until its deferred `wg.Done()`. -/
def Stage.live (st : Stage) : Bool := st.pc != .exited

/-- A failed stage past its send on `exeErrChan`. -/
def Stage.sent (st : Stage) : Bool := st.fails && (st.pc == .reported || st.pc == .exited)

/-- A dial counts in the wait group until its dial returns. -/
def Dial.live (d : Dial) : Bool := d.pc == .dialing

/-- A failed dial past its send on `ioErrChan`. -/
def Dial.sent (d : Dial) : Bool := d.fails && d.pc == .exited

/-- The invariant of a run of `n` instructions. -/
structure Inv (n : Nat) (s : Exec) : Prop where
  length : s.stages.length = n
  wg : s.wg = s.stages.countP Stage.live + s.dials.countP Dial.live
  exeSends : s.exeSends = s.stages.countP Stage.sent
  exeErrChan : s.exeErrChan ≤ s.exeSends
  reporting : ∀ d ∈ s.dials, d.pc = .reporting → d.fails = true
  ioSends : s.ioSends = s.dials.countP Dial.sent
  ioErrChan : s.ioErrChan ≤ s.ioSends
  finished : s.finishedChan = true → s.wg = 0
  returnedNil : s.main = .returned false → s.finishedChan = true
  unread : s.main ≠ .returned true → s.exeErrChan = s.exeSends ∧ s.ioErrChan = s.ioSends

/-- Replacing the `i`-th element changes a count by what the two elements contribute. -/
theorem countP_set {α : Type} (p : α → Bool) : ∀ (l : List α) (i : Nat) (a : α) (h : i < l.length),
    (l.set i a).countP p + (if p l[i] then 1 else 0) = l.countP p + (if p a then 1 else 0)
  | [], _, _, h => absurd h (Nat.not_lt_zero _)
  | _ :: _, 0, _, _ => by simp [List.countP_cons]; omega
  | x :: l, i + 1, a, h => by
    have := countP_set p l i a (by simpa using h)
    simp [List.countP_cons] at this ⊢
    omega

/-- An element that counts makes the count positive. -/
theorem countP_pos_of_getElem? {α : Type} {p : α → Bool} {l : List α} {i : Nat} {a : α}
    (h : l[i]? = some a) (ha : p a = true) : 0 < l.countP p := by
  obtain ⟨hi, rfl⟩ := List.getElem?_eq_some_iff.1 h
  exact List.countP_pos_iff.2 ⟨_, List.getElem_mem hi, ha⟩

theorem countP_set_of_getElem? {α : Type} {p : α → Bool} {l : List α} {i : Nat} {b : α}
    (h : l[i]? = some b) (a : α) :
    (l.set i a).countP p + (if p b then 1 else 0) = l.countP p + (if p a then 1 else 0) := by
  obtain ⟨hi, rfl⟩ := List.getElem?_eq_some_iff.1 h
  exact countP_set p l i a hi

theorem init_inv (is : List Instruction) : Inv is.length (init is) where
  length := by simp [init]
  wg := by
    simp only [init, List.countP_nil, Nat.add_zero]
    rw [List.countP_eq_length.2 fun st hst => by
      obtain ⟨i, hi, rfl⟩ := List.mem_iff_getElem.1 hst
      simp [Stage.live]]
    simp
  exeSends := by
    symm
    refine List.countP_eq_zero.2 fun st hst => ?_
    obtain ⟨i, hi, rfl⟩ := List.mem_iff_getElem.1 hst
    simp [init, Stage.sent]
  exeErrChan := le_rfl
  reporting := by simp [init]
  ioSends := rfl
  ioErrChan := le_rfl
  finished := by simp [init]
  returnedNil := by simp [init]
  unread _ := ⟨rfl, rfl⟩

section Step

variable {n : Nat} {s s' : Exec}

/-- A stage step keeps the invariant: starting the dials adds them to the wait group, the send
is counted, and `wg.Done()` removes the stage. -/
theorem stageStep_inv (hs : Inv n s) {i : Nat} (h : stageStep n s i = some s') : Inv n s' := by
  unfold stageStep at h
  split at h
  · rename_i ds f heq
    cases h
    have hl := countP_set_of_getElem? (p := Stage.live) heq ⟨.running, ds, f⟩
    have he := countP_set_of_getElem? (p := Stage.sent) heq ⟨.running, ds, f⟩
    have hpos := countP_pos_of_getElem? (p := Stage.live) heq rfl
    have hd : (ds.map (Dial.mk .dialing)).countP Dial.live = ds.length :=
      (List.countP_eq_length.2 fun d hd => by obtain ⟨_, _, rfl⟩ := List.mem_map.1 hd; rfl).trans
        (List.length_map _ _)
    simp [Stage.live, Stage.sent] at hl he
    refine ⟨by simpa using hs.length, ?_, ?_, hs.exeErrChan, ?_, ?_, hs.ioErrChan, ?_, hs.returnedNil,
      hs.unread⟩
    · simp only [hs.wg, List.countP_append, hd, hl]
      omega
    · simp [hs.exeSends, he]
    · intro d hd hr
      rcases List.mem_append.1 hd with hd | hd
      · exact hs.reporting d hd hr
      · obtain ⟨_, _, rfl⟩ := List.mem_map.1 hd
        cases hr
    · simp [hs.ioSends, List.countP_append, Dial.sent, List.countP_map]
    · intro hf
      have := hs.finished hf
      rw [hs.wg] at this
      omega
  · rename_i ds f heq
    split_ifs at h with hf hlt
    · cases h
      subst hf
      have hl := countP_set_of_getElem? (p := Stage.live) heq ⟨.reported, ds, true⟩
      have he := countP_set_of_getElem? (p := Stage.sent) heq ⟨.reported, ds, true⟩
      simp [Stage.live, Stage.sent] at hl he
      exact ⟨by simpa using hs.length, by simp [hs.wg]; omega, by simp [hs.exeSends]; omega,
        by simp; have := hs.exeErrChan; omega, hs.reporting, hs.ioSends, hs.ioErrChan,
        fun h => hs.finished h, hs.returnedNil, fun hm => ⟨by simp [(hs.unread hm).1], (hs.unread hm).2⟩⟩
    · cases h
      simp only [Bool.not_eq_true] at hf
      subst hf
      have hl := countP_set_of_getElem? (p := Stage.live) heq ⟨.reported, ds, false⟩
      have he := countP_set_of_getElem? (p := Stage.sent) heq ⟨.reported, ds, false⟩
      simp [Stage.live, Stage.sent] at hl he
      exact ⟨by simpa using hs.length, by simp [hs.wg]; omega, by simp [hs.exeSends]; omega,
        hs.exeErrChan, hs.reporting, hs.ioSends, hs.ioErrChan, fun h => hs.finished h,
        hs.returnedNil, hs.unread⟩
  · rename_i ds f heq
    cases h
    have hl := countP_set_of_getElem? (p := Stage.live) heq ⟨.exited, ds, f⟩
    have he := countP_set_of_getElem? (p := Stage.sent) heq ⟨.exited, ds, f⟩
    have hpos := countP_pos_of_getElem? (p := Stage.live) heq rfl
    simp [Stage.live, Stage.sent] at hl he hpos
    refine ⟨by simpa using hs.length, by simp [hs.wg]; omega, by simp [hs.exeSends]; omega,
      hs.exeErrChan, hs.reporting, hs.ioSends, hs.ioErrChan, fun hf => ?_, hs.returnedNil,
      hs.unread⟩
    have := hs.finished hf
    rw [hs.wg] at this
    omega
  · cases h

/-- Only failed dials report, also after one dial moves to a state that keeps that. -/
theorem reporting_set {ds : List Dial} (h : ∀ d ∈ ds, d.pc = .reporting → d.fails = true)
    (j : Nat) {d' : Dial} (hd' : d'.pc = .reporting → d'.fails = true) :
    ∀ d ∈ ds.set j d', d.pc = .reporting → d.fails = true := fun d hd =>
  (List.mem_or_eq_of_mem_set hd).elim (h d) fun h => h ▸ hd'

/-- A dial step keeps the invariant: the dial leaves the wait group, and a send is counted. -/
theorem dialStep_inv (hs : Inv n s) {j : Nat} (h : dialStep n s j = some s') : Inv n s' := by
  unfold dialStep at h
  split at h
  · rename_i f heq
    cases h
    have hl := countP_set_of_getElem? (p := Dial.live) heq ⟨if f then .reporting else .exited, f⟩
    have he := countP_set_of_getElem? (p := Dial.sent) heq ⟨if f then .reporting else .exited, f⟩
    have hpos := countP_pos_of_getElem? (p := Dial.live) heq rfl
    cases f <;> simp [Dial.live, Dial.sent] at hl he <;>
      refine ⟨hs.length, by simp [hs.wg]; omega, hs.exeSends, hs.exeErrChan,
        reporting_set hs.reporting j (by simp), by simp [hs.ioSends, he], hs.ioErrChan,
        fun hf => ?_, hs.returnedNil, hs.unread⟩ <;>
      (have hw := hs.finished hf; rw [hs.wg] at hw; omega)
  · rename_i f heq
    split_ifs at h with hlt
    cases h
    have hf := hs.reporting _ (List.mem_iff_getElem?.2 ⟨_, heq⟩) rfl
    subst hf
    have hl := countP_set_of_getElem? (p := Dial.live) heq ⟨.exited, true⟩
    have he := countP_set_of_getElem? (p := Dial.sent) heq ⟨.exited, true⟩
    simp [Dial.live, Dial.sent] at hl he
    exact ⟨hs.length, by simp [hs.wg]; omega, hs.exeSends, hs.exeErrChan,
      reporting_set hs.reporting j (by simp), by simp [hs.ioSends]; omega,
      by simp; have := hs.ioErrChan; omega, hs.finished, hs.returnedNil,
      fun hm => ⟨(hs.unread hm).1, by simp [(hs.unread hm).2]⟩⟩
  · cases h

/-- Every step keeps the invariant. -/
theorem step_inv (hs : Inv n s) {a : Action} (h : step n s a = some s') : Inv n s' := by
  cases a with
  | stage i => exact stageStep_inv hs h
  | dial j => exact dialStep_inv hs h
  | watcher =>
    simp only [step] at h
    split_ifs at h with hw
    cases h
    simp only [Bool.and_eq_true, Bool.not_eq_true', decide_eq_true_eq] at hw
    exact { hs with finished := fun _ => hw.2, returnedNil := fun _ => rfl }
  | selectFinished =>
    simp only [step] at h
    split_ifs at h with hw
    cases h
    simp only [Bool.and_eq_true, decide_eq_true_eq] at hw
    exact { hs with
      returnedNil := fun _ => hw.2
      unread := fun _ => hs.unread (by rw [hw.1]; simp) }
  | selectIo =>
    simp only [step] at h
    split_ifs at h
    cases h
    exact { hs with
      ioErrChan := Nat.sub_le_of_le_add (Nat.le_add_right_of_le hs.ioErrChan)
      returnedNil := by simp
      unread := fun h => absurd rfl h }
  | selectExe =>
    simp only [step] at h
    split_ifs at h
    cases h
    exact { hs with
      exeErrChan := Nat.sub_le_of_le_add (Nat.le_add_right_of_le hs.exeErrChan)
      returnedNil := by simp
      unread := fun h => absurd rfl h }

end Step

/-- Every reachable state satisfies the invariant. -/
theorem reachable_inv {is : List Instruction} {s : Exec} (h : Reachable is s) : Inv is.length s := by
  obtain ⟨as, h⟩ := h
  exact run_preserves is.length (fun _ _ _ hs ht => step_inv hs ht) (init_inv is) h

/-! ## What every run keeps -/

/-- No stage ever blocks on `exeErrChan`, which is sized for one error per instruction: in every
reachable state the sends so far number at most `n`, and a stage at its send finds room. -/
theorem exe_send_enabled {is : List Instruction} {s : Exec} (h : Reachable is s) :
    s.exeSends ≤ is.length ∧ ∀ i st, s.stages[i]? = some st → st.pc = .running →
      (step is.length s (.stage i)).isSome := by
  have hs := reachable_inv h
  refine ⟨hs.exeSends ▸ hs.length ▸ List.countP_le_length _, fun i st hst hpc => ?_⟩
  have hroom : s.exeErrChan < is.length := by
    rw [← hs.length]
    refine lt_of_le_of_lt (hs.exeErrChan.trans hs.exeSends.le) ?_
    rw [List.countP_eq_length_filter]
    exact List.length_filter_lt_length_iff_exists.2
      ⟨st, List.mem_iff_getElem?.2 ⟨i, hst⟩, by simp [Stage.sent, hpc]⟩
  obtain ⟨pc, ds, f⟩ := st
  cases hpc
  cases f <;> simp [step, stageStep, hst, hroom]

/-- Two failing instructions, the first one started: it can send. -/
theorem exe_send_enabled_two_stages :
    let is : List Instruction := [⟨[], [], true⟩, ⟨[], [], true⟩]
    let s : Exec := { init is with stages := [⟨.running, [], true⟩, ⟨.start, [], true⟩] }
    Reachable is s ∧ (s.exeSends ≤ is.length ∧ ∀ i st, s.stages[i]? = some st →
      st.pc = .running → (step is.length s (.stage i)).isSome) := by
  intro is s
  have h : Reachable is s := ⟨[.stage 0], rfl⟩
  exact ⟨h, exe_send_enabled h⟩

/-- `nil` is returned only after every stage has exited and no dial is still dialling; the error
of every stage whose function or command failed is then still unread in `exeErrChan`. -/
theorem returned_nil_errors_unread {is : List Instruction} {s : Exec} (h : Reachable is s)
    (hmain : s.main = .returned false) :
    (∀ st ∈ s.stages, st.pc = .exited) ∧ (∀ d ∈ s.dials, d.pc ≠ .dialing) ∧
      s.exeErrChan = s.stages.countP Stage.fails := by
  have hs := reachable_inv h
  have hwg := hs.finished (hs.returnedNil hmain)
  rw [hs.wg] at hwg
  have h1 : s.stages.countP Stage.live = 0 := by omega
  have h2 : s.dials.countP Dial.live = 0 := by omega
  have hst : ∀ st ∈ s.stages, st.pc = .exited := fun st hst => by
    simpa [Stage.live] using List.countP_eq_zero.1 h1 st hst
  have hd : ∀ d ∈ s.dials, d.pc ≠ .dialing := fun d hd => by
    simpa [Dial.live] using List.countP_eq_zero.1 h2 d hd
  refine ⟨hst, hd, ?_⟩
  rw [(hs.unread (by simp [hmain])).1, hs.exeSends]
  exact List.countP_congr fun st hmem => by simp [Stage.sent, hst st hmem]

/-- One instruction with one input shard location whose dial fails: the run that returns `nil`
before the dial has sent its error. -/
theorem returned_nil_errors_unread_failed_dial :
    let is : List Instruction := [⟨[true], [], false⟩]
    let as := [Action.stage 0, .stage 0, .stage 0, .dial 0, .watcher, .selectFinished]
    ∃ s, run is.length (init is) as = some s ∧ Reachable is s ∧ s.main = .returned false ∧
      ((∀ st ∈ s.stages, st.pc = .exited) ∧ (∀ d ∈ s.dials, d.pc ≠ .dialing) ∧
        s.exeErrChan = s.stages.countP Stage.fails) := by
  intro is as
  obtain ⟨s, hs⟩ : ∃ s, run is.length (init is) as = some s := ⟨_, rfl⟩
  have hr : Reachable is s := ⟨as, hs⟩
  have hm : s.main = .returned false := by
    simp only [run, step, stageStep, dialStep, init] at hs
    cases hs
    rfl
  exact ⟨s, hs, hr, hm, returned_nil_errors_unread hr hm⟩

end Gleam.Executor
