import Mathlib.Data.List.Basic

/-!
# The goroutines of `ExecuteInstructionSet`

`ExecuteInstructionSet` starts one goroutine per instruction, `executeInstruction`, after a
`wg.Add(1)` for each. A stage first starts its dials: `setupReaders` dials every input shard
location of the first instruction and `setupWriters` every output shard location of the last,
each in a goroutine of its own after a `wg.Add(1)`. The stage then runs its function or command,
sends one error on `exeErrChan` if that fails, and ends with its deferred `wg.Done()`. A dial that
fails sends one error on `ioErrChan`. A watcher goroutine closes `finishedChan` once the wait
group is zero, and the main goroutine's `select` takes whichever of `finishedChan`, `ioErrChan` and
`exeErrChan` is ready when it runs: `nil` for the first, the error for the others.

The model is a transition system. A state, `Exec`, records where each goroutine is, the counter of
the wait group, the errors buffered in the two channels (`exeErrChan` holds `n` of them,
`ioErrChan` `2n`, for `n` instructions), whether `finishedChan` is closed, and what the main
goroutine returned. Each step of one goroutine is an `Action`; a run is a list of actions, and
every interleaving of the goroutines is one.

What the stages and dials compute is abstracted to whether they fail, and the errors to being
non-nil. `netchan.DialReadChannel` and `DialWriteChannel` are not in the source: they are passed
the wait group, whose `wg.Add(1)` for the dial nothing else in the source matches, and call
`wg.Done()` before they return; so a dial's error is sent after its `wg.Done()`. The context and
its cancellation are left out: every pattern of failures is allowed, so the runs of the model
include every run of the code.

## Main definitions

* `Instruction`, `Exec`, `Action`: the instruction set, the state, the steps.
* `step`, `run`, `Reachable`: one step, a run from a state, and the states runs reach.

## Main results

* `run_preserves`: what every step keeps holds after every run.
-/

namespace Gleam.Executor

/-- An instruction, with what the run does with it. -/
structure Instruction where
  /-- `GetInputShardLocations()`: for each location, whether dialling it fails. Only the first
  instruction dials them. -/
  inputShardLocations : List Bool
  /-- `GetOutputShardLocations()`: for each location, whether dialling it fails. Only the last
  instruction dials them. -/
  outputShardLocations : List Bool
  /-- Whether the instruction's function or command fails. -/
  fails : Bool
  deriving DecidableEq, Repr

/-- Where a stage goroutine, `executeInstruction`, is. -/
inductive StagePc where
  /-- Before `setupReaders`. -/
  | start
  /-- Its dials started; its function or command running. -/
  | running
  /-- Past its send on `exeErrChan`, if it failed; its deferred calls remain. -/
  | reported
  /-- After its deferred `wg.Done()`. -/
  | exited
  deriving DecidableEq, Repr

/-- A stage goroutine: where it is, the dials it starts, and whether its function or command
fails. -/
structure Stage where
  pc : StagePc
  dials : List Bool
  fails : Bool
  deriving DecidableEq, Repr

/-- Where a dial goroutine is. -/
inductive DialPc where
  /-- In `DialReadChannel` or `DialWriteChannel`. -/
  | dialing
  /-- The dial returned an error, after its `wg.Done()`; the send on `ioErrChan` remains. -/
  | reporting
  /-- Done. -/
  | exited
  deriving DecidableEq, Repr

/-- A dial goroutine: where it is, and whether the dial fails. -/
structure Dial where
  pc : DialPc
  fails : Bool
  deriving DecidableEq, Repr

/-- The main goroutine: in its `select`, or returned, with a non-nil error iff `err`. -/
inductive MainPc where
  | selecting
  | returned (err : Bool)
  deriving DecidableEq, Repr

/-- The state of a run of `ExecuteInstructionSet`. -/
structure Exec where
  /-- The stage goroutines, one per instruction. -/
  stages : List Stage
  /-- The dial goroutines started so far. -/
  dials : List Dial
  /-- The counter of `wg`. -/
  wg : Nat
  /-- The errors buffered in `ioErrChan`. -/
  ioErrChan : Nat
  /-- The errors buffered in `exeErrChan`. -/
  exeErrChan : Nat
  /-- The sends on `ioErrChan` so far. -/
  ioSends : Nat
  /-- The sends on `exeErrChan` so far. -/
  exeSends : Nat
  /-- Whether `finishedChan` is closed. -/
  finishedChan : Bool
  /-- The main goroutine. -/
  main : MainPc
  deriving DecidableEq, Repr

/-- A step of one goroutine. -/
inductive Action where
  /-- A step of the stage of instruction `i`. -/
  | stage (i : Nat)
  /-- A step of the `j`-th dial started. -/
  | dial (j : Nat)
  /-- The watcher: `wg.Wait()` returns and `close(finishedChan)`. -/
  | watcher
  /-- The main `select` takes `<-finishedChan`. -/
  | selectFinished
  /-- The main `select` takes `<-ioErrChan`. -/
  | selectIo
  /-- The main `select` takes `<-exeErrChan`. -/
  | selectExe
  deriving DecidableEq, Repr

/-- The dials the stage of instruction `i` starts: `setupReaders` dials the input shard locations
of the first instruction, `setupWriters` the output shard locations of the last. -/
def stageDials (n i : Nat) (ins : Instruction) : List Bool :=
  (if i = 0 then ins.inputShardLocations else []) ++
    (if i = n - 1 then ins.outputShardLocations else [])

/-- The state when the main goroutine reaches its `select`: every stage started after its
`wg.Add(1)`, the channels empty. -/
def init (is : List Instruction) : Exec where
  stages := is.mapIdx fun i ins => ⟨.start, stageDials is.length i ins, ins.fails⟩
  dials := []
  wg := is.length
  ioErrChan := 0
  exeErrChan := 0
  ioSends := 0
  exeSends := 0
  finishedChan := false
  main := .selecting

section Step

variable (n : Nat)

/-- A step of the stage of instruction `i`, for `n` instructions: start the dials, after a
`wg.Add(1)` each; send the error on `exeErrChan`, blocking while it is full; `wg.Done()`. -/
def stageStep (s : Exec) (i : Nat) : Option Exec :=
  match s.stages[i]? with
  | some ⟨.start, ds, f⟩ =>
    some { s with
      stages := s.stages.set i ⟨.running, ds, f⟩
      dials := s.dials ++ ds.map (Dial.mk .dialing)
      wg := s.wg + ds.length }
  | some ⟨.running, ds, f⟩ =>
    if f then
      if s.exeErrChan < n then
        some { s with
          stages := s.stages.set i ⟨.reported, ds, f⟩
          exeErrChan := s.exeErrChan + 1
          exeSends := s.exeSends + 1 }
      else none
    else some { s with stages := s.stages.set i ⟨.reported, ds, f⟩ }
  | some ⟨.reported, ds, f⟩ => some { s with stages := s.stages.set i ⟨.exited, ds, f⟩, wg := s.wg - 1 }
  | _ => none

/-- A step of the `j`-th dial: the dial returns, calling `wg.Done()`; a failed dial then sends
its error on `ioErrChan`, blocking while it is full. -/
def dialStep (s : Exec) (j : Nat) : Option Exec :=
  match s.dials[j]? with
  | some ⟨.dialing, f⟩ =>
    some { s with dials := s.dials.set j ⟨if f then .reporting else .exited, f⟩, wg := s.wg - 1 }
  | some ⟨.reporting, f⟩ =>
    if s.ioErrChan < 2 * n then
      some { s with
        dials := s.dials.set j ⟨.exited, f⟩
        ioErrChan := s.ioErrChan + 1
        ioSends := s.ioSends + 1 }
    else none
  | _ => none

/-- One step of the run of `ExecuteInstructionSet` for `n` instructions, `none` when the action
is not enabled. -/
def step (s : Exec) : Action → Option Exec
  | .stage i => stageStep n s i
  | .dial j => dialStep n s j
  | .watcher => if !s.finishedChan && s.wg = 0 then some { s with finishedChan := true } else none
  | .selectFinished =>
    if s.main = .selecting && s.finishedChan then some { s with main := .returned false } else none
  | .selectIo =>
    if s.main = .selecting && 0 < s.ioErrChan then
      some { s with ioErrChan := s.ioErrChan - 1, main := .returned true }
    else none
  | .selectExe =>
    if s.main = .selecting && 0 < s.exeErrChan then
      some { s with exeErrChan := s.exeErrChan - 1, main := .returned true }
    else none

/-- A run: the actions in order, `none` as soon as one is not enabled. -/
def run : Exec → List Action → Option Exec
  | s, [] => some s
  | s, a :: as => (step n s a).bind (run · as)

/-- A property every step keeps holds after every run. -/
theorem run_preserves {P : Exec → Prop} (hstep : ∀ s a s', P s → step n s a = some s' → P s') :
    ∀ {s s' : Exec} {as : List Action}, P s → run n s as = some s' → P s'
  | _, _, [], hs, h => by cases h; exact hs
  | s, _, a :: as, hs, h => by
    rw [run, Option.bind_eq_some] at h
    obtain ⟨t, ht, h⟩ := h
    exact run_preserves hstep (hstep s a t hs ht) h

end Step

/-- The states some interleaving reaches from the start. -/
def Reachable (is : List Instruction) (s : Exec) : Prop := ∃ as, run is.length (init is) as = some s

end Gleam.Executor
