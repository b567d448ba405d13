import Mathlib.Data.List.Basic

/-!
# How `ExecuteInstructionSet` wires its stages

The stage loop of `ExecuteInstructionSet` makes one `util.Piper` before the loop and one in each
iteration. Iteration `index` hands the stage goroutine the piper of the iteration before it as its
input and its own piper as its output, with `prevIsPipe` taken from the script of the instruction
before. The stage's `executeInstruction` then calls `setupReaders`, which for a stage other than
the first returns the reader of its input piper, and for the first a new piper per input shard
location, filled by a dial; and `setupWriters`, which for a stage other than the last returns the
writer of its output piper, and for the last a new piper per output shard location, drained by a
dial.

Each `util.NewPiper()` call makes a new piper, so a piper is named here by the call that made it
(`Piper`), and two names denote the same piper iff they are equal. What the wiring reads of a
`pb.Instruction` is the number of its shard locations and its script; the addresses and names
of the locations are passed on to the dials and do not change the wiring.

## Main definitions

* `Pb.Instruction`, `Piper`, `StageWiring`: the instructions, the pipers, what one stage reads
  and writes.
* `setupReaders`, `setupWriters`, `executeInstruction`, `stageLoop`, `executeInstructionSet`.
* `StrictChain`: what it means for the stages to form a strict chain.

## Main results

* `stageLoop_getElem?`: the loop's accumulators at iteration `i`.
* `executeInstructionSet_strictChain`: the stages of every instruction set form a strict chain.
-/

namespace Gleam.Executor

namespace Pb

/-- `pb.Script`: the wiring reads only `IsPipe`. -/
structure Script where
  isPipe : Bool
  deriving DecidableEq, Repr

/-- `pb.Instruction`: the number of its input and output shard locations, and its script. -/
structure Instruction where
  inputShardLocations : Nat
  outputShardLocations : Nat
  script : Option Script
  deriving DecidableEq, Repr

/-- The `prevIsPipe` the loop sets after an instruction: `GetScript().GetIsPipe()` if it has a
script, `false` otherwise. -/
def Instruction.isPipe (instr : Instruction) : Bool := (instr.script.map Script.isPipe).getD false

end Pb

/-- A `util.Piper`, named by the `util.NewPiper()` call that made it: `loop 0` before the stage
loop and `loop (index + 1)` in its iteration `index`; `inDial index j` and `outDial index j` in the
dial loops of `setupReaders` and `setupWriters` of stage `index`, for shard location `j`. -/
inductive Piper where
  | loop (k : Nat)
  | inDial (stage loc : Nat)
  | outDial (stage loc : Nat)
  deriving DecidableEq, Repr

/-- What a stage reads and writes: the pipers of its readers and of its writers, and the
`prevIsPipe` it runs with. -/
structure StageWiring where
  readers : List Piper
  writers : List Piper
  prevIsPipe : Bool
  deriving DecidableEq, Repr

/-- `setupReaders` of stage `index`: the reader of `inPiper`, or for the first stage one new piper
per input shard location. -/
def setupReaders (index : Nat) (i : Pb.Instruction) (inPiper : Piper) (isFirst : Bool) :
    List Piper :=
  if !isFirst then [inPiper] else (List.range i.inputShardLocations).map (Piper.inDial index)

/-- `setupWriters` of stage `index`: the writer of `outPiper`, or for the last stage one new piper
per output shard location. -/
def setupWriters (index : Nat) (i : Pb.Instruction) (outPiper : Piper) (isLast : Bool) :
    List Piper :=
  if !isLast then [outPiper] else (List.range i.outputShardLocations).map (Piper.outDial index)

/-- The wiring `executeInstruction` sets up for stage `index` of `n`. -/
def executeInstruction (n index : Nat) (instr : Pb.Instruction) (prevIsPipe : Bool)
    (inChan outChan : Piper) : StageWiring where
  readers := setupReaders index instr inChan (index == 0)
  writers := setupWriters index instr outChan (index == n - 1)
  prevIsPipe := prevIsPipe

/-- The stage loop of `ExecuteInstructionSet` for `n` instructions, from iteration `index` on, with
its loop variables `prevIsPipe` and `prevOutputChan`. -/
def stageLoop (n : Nat) : List Pb.Instruction → Nat → Bool → Piper → List StageWiring
  | [], _, _, _ => []
  | instr :: instrs, index, prevIsPipe, prevOutputChan =>
    let outputChan := Piper.loop (index + 1)
    executeInstruction n index instr prevIsPipe prevOutputChan outputChan ::
      stageLoop n instrs (index + 1) instr.isPipe outputChan

/-- The wiring of the stages of `ExecuteInstructionSet`. -/
def executeInstructionSet (instrs : List Pb.Instruction) : List StageWiring :=
  stageLoop instrs.length instrs 0 false (.loop 0)

/-! ## The loop's accumulators -/

/-- Iteration `i` of the loop started at `index` is stage `index + i`, reading the piper of the
iteration before and writing its own, with `prevIsPipe` from the instruction before. -/
theorem stageLoop_getElem? (n : Nat) : ∀ (instrs : List Pb.Instruction) (index : Nat)
    (prevIsPipe : Bool) (i : Nat), (stageLoop n instrs index prevIsPipe (.loop index))[i]? =
      instrs[i]?.map fun instr => executeInstruction n (index + i) instr
        (if i = 0 then prevIsPipe else (instrs[i - 1]?.map Pb.Instruction.isPipe).getD false)
        (.loop (index + i)) (.loop (index + i + 1))
  | [], _, _, _ => rfl
  | _ :: _, _, _, 0 => by simp [stageLoop]
  | instr :: instrs, index, _, i + 1 => by
    rw [stageLoop, List.getElem?_cons_succ, stageLoop_getElem? n instrs (index + 1)]
    cases i <;> simp [Nat.add_assoc, Nat.add_comm 1]

/-- Stage `i` of an instruction set, in closed form. -/
theorem executeInstructionSet_getElem? (instrs : List Pb.Instruction) (i : Nat) :
    (executeInstructionSet instrs)[i]? = instrs[i]?.map fun instr =>
      executeInstruction instrs.length i instr
        (i ≠ 0 && (instrs[i - 1]?.map Pb.Instruction.isPipe).getD false) (.loop i) (.loop (i + 1)) := by
  rw [executeInstructionSet, stageLoop_getElem?]
  cases i <;> simp

theorem length_stageLoop (n : Nat) : ∀ (instrs : List Pb.Instruction) (index : Nat)
    (prevIsPipe : Bool) (prevOutputChan : Piper),
    (stageLoop n instrs index prevIsPipe prevOutputChan).length = instrs.length
  | [], _, _, _ => rfl
  | _ :: instrs, _, _, _ => by simp [stageLoop, length_stageLoop n instrs]

@[simp] theorem length_executeInstructionSet (instrs : List Pb.Instruction) :
    (executeInstructionSet instrs).length = instrs.length :=
  length_stageLoop _ _ _ _ _

/-- Stage `i` reads the dial pipers of its input shard locations if it is the first, the piper of
iteration `i - 1` otherwise; it writes the dial pipers of its output shard locations if it is the
last, the piper of its own iteration otherwise. -/
theorem stage_wiring {instrs : List Pb.Instruction} {i : Nat} {w : StageWiring}
    (h : (executeInstructionSet instrs)[i]? = some w) : ∃ instr, instrs[i]? = some instr ∧
      w.readers = (if i = 0 then (List.range instr.inputShardLocations).map (.inDial 0)
        else [.loop i]) ∧
      w.writers = (if i = instrs.length - 1 then
        (List.range instr.outputShardLocations).map (.outDial i) else [.loop (i + 1)]) ∧
      w.prevIsPipe = (i ≠ 0 && (instrs[i - 1]?.map Pb.Instruction.isPipe).getD false) := by
  rw [executeInstructionSet_getElem?, Option.map_eq_some'] at h
  obtain ⟨instr, hi, rfl⟩ := h
  refine ⟨instr, hi, ?_, ?_, rfl⟩ <;>
    simp only [executeInstruction, setupReaders, setupWriters, beq_iff_eq] <;> split_ifs <;> simp_all

/-- A piper stage `i` writes is the piper of its own iteration or one of its dial pipers. -/
theorem mem_writers {instrs : List Pb.Instruction} {i : Nat} {w : StageWiring} {p : Piper}
    (h : (executeInstructionSet instrs)[i]? = some w) (hp : p ∈ w.writers) :
    p = .loop (i + 1) ∨ ∃ loc, p = .outDial i loc := by
  obtain ⟨_, -, -, hw, -⟩ := stage_wiring h
  rw [hw] at hp
  split_ifs at hp
  · obtain ⟨loc, -, rfl⟩ := List.mem_map.1 hp
    exact .inr ⟨loc, rfl⟩
  · exact .inl (List.mem_singleton.1 hp)

/-- A piper stage `i` reads is a dial piper of stage `0`, or the piper of iteration `i - 1`. -/
theorem mem_readers {instrs : List Pb.Instruction} {i : Nat} {w : StageWiring} {p : Piper}
    (h : (executeInstructionSet instrs)[i]? = some w) (hp : p ∈ w.readers) :
    (i = 0 ∧ ∃ loc, p = .inDial 0 loc) ∨ (i ≠ 0 ∧ p = .loop i) := by
  obtain ⟨_, -, hr, -⟩ := stage_wiring h
  rw [hr] at hp
  split_ifs at hp with hi
  · obtain ⟨loc, -, rfl⟩ := List.mem_map.1 hp
    exact .inl ⟨hi, loc, rfl⟩
  · exact .inr ⟨hi, List.mem_singleton.1 hp⟩

/-! ## The strict chain -/

/-- The wiring `W` of the stages of `instrs` is a strict chain: each stage after the first reads
only what the stage before it writes; the first reads, and the last writes, only new dial pipers,
one per shard location; the others write only their own piper; no piper is written by two stages
or read by two; and a stage runs with `prevIsPipe` iff the instruction before it has a pipe
script. -/
structure StrictChain (instrs : List Pb.Instruction) (W : List StageWiring) : Prop where
  length : W.length = instrs.length
  /-- Stage `i > 0` reads only the piper that stage `i - 1` writes, and that stage writes only it. -/
  chain : ∀ (i : Nat) w, 0 < i → W[i]? = some w →
    ∃ p w', W[i - 1]? = some w' ∧ w.readers = [p] ∧ w'.writers = [p]
  /-- Stage `0` reads one new dial piper per input shard location. -/
  first : ∀ instr w, instrs[0]? = some instr → W[0]? = some w →
    w.readers = (List.range instr.inputShardLocations).map (.inDial 0)
  /-- Stage `n - 1` writes one new dial piper per output shard location. -/
  last : ∀ instr w, instrs[instrs.length - 1]? = some instr → W[instrs.length - 1]? = some w →
    w.writers = (List.range instr.outputShardLocations).map (.outDial (instrs.length - 1))
  /-- Every other stage writes only the piper of its own iteration. -/
  middle : ∀ (i : Nat) w, i + 1 < instrs.length → W[i]? = some w → w.writers = [.loop (i + 1)]
  /-- No piper is written by two stages. -/
  writers_disjoint : ∀ (i j : Nat) (wi wj : StageWiring) p, W[i]? = some wi → W[j]? = some wj → p ∈ wi.writers →
    p ∈ wj.writers → i = j
  /-- No piper is read by two stages. -/
  readers_disjoint : ∀ (i j : Nat) (wi wj : StageWiring) p, W[i]? = some wi → W[j]? = some wj → p ∈ wi.readers →
    p ∈ wj.readers → i = j
  /-- A piper that a stage reads and a stage writes goes from one stage to the next. -/
  read_after_write : ∀ (i j : Nat) (wi wj : StageWiring) p, W[i]? = some wi → W[j]? = some wj → p ∈ wi.readers →
    p ∈ wj.writers → j + 1 = i
  /-- Stage `i` runs with `prevIsPipe` iff `i > 0` and instruction `i - 1` has a script with
  `IsPipe` set. -/
  prevIsPipe : ∀ (i : Nat) w, W[i]? = some w →
    (w.prevIsPipe = true ↔ 0 < i ∧ ∃ s, (instrs[i - 1]?.bind (·.script)) = some s ∧ s.isPipe = true)

/-- `ExecuteInstructionSet` wires the stages of every instruction set as a strict chain; for a
single instruction the one stage is both the first and the last. -/
theorem executeInstructionSet_strictChain (instrs : List Pb.Instruction) :
    StrictChain instrs (executeInstructionSet instrs) where
  length := length_executeInstructionSet instrs
  chain i w hi hw := by
    obtain ⟨_, hinstr, hr, -⟩ := stage_wiring hw
    have hlt := (List.getElem?_eq_some_iff.1 hinstr).1
    obtain ⟨w', hw'⟩ : ∃ w', (executeInstructionSet instrs)[i - 1]? = some w' :=
      ⟨_, List.getElem?_eq_getElem (by simp; omega)⟩
    obtain ⟨_, -, -, hw₁, -⟩ := stage_wiring hw'
    refine ⟨.loop i, w', hw', by simp [hr, Nat.pos_iff_ne_zero.1 hi], ?_⟩
    rw [hw₁, if_neg (by omega), Nat.sub_add_cancel hi]
  first instr w hi hw := by
    obtain ⟨_, hinstr, hr, -⟩ := stage_wiring hw
    simp_all
  last instr w hi hw := by
    obtain ⟨_, hinstr, -, hw₁, -⟩ := stage_wiring hw
    simp_all
  middle i w hi hw := by
    obtain ⟨_, -, -, hw₁, -⟩ := stage_wiring hw
    rw [hw₁, if_neg (by omega)]
  writers_disjoint i j wi wj p hi hj hpi hpj := by
    rcases mem_writers hi hpi with rfl | ⟨_, rfl⟩ <;>
      rcases mem_writers hj hpj with h | ⟨_, h⟩ <;> simp only [Piper.loop.injEq, Piper.outDial.injEq,
        reduceCtorEq] at h <;> omega
  readers_disjoint i j wi wj p hi hj hpi hpj := by
    rcases mem_readers hi hpi with ⟨hi0, _, rfl⟩ | ⟨-, rfl⟩ <;>
      rcases mem_readers hj hpj with ⟨hj0, _, h⟩ | ⟨-, h⟩ <;> simp only [Piper.loop.injEq,
        Piper.inDial.injEq, reduceCtorEq] at h <;> omega
  read_after_write i j wi wj p hi hj hpi hpj := by
    rcases mem_readers hi hpi with ⟨-, _, rfl⟩ | ⟨-, rfl⟩ <;>
      rcases mem_writers hj hpj with h | ⟨_, h⟩ <;> simp only [Piper.loop.injEq, reduceCtorEq] at h
    omega
  prevIsPipe i w hw := by
    obtain ⟨_, -, -, -, hp⟩ := stage_wiring hw
    rw [hp]
    rcases instrs[i - 1]? with _ | ⟨_, _, _ | ⟨_ | _⟩⟩ <;>
      simp [Pb.Instruction.isPipe, Nat.pos_iff_ne_zero]

end Gleam.Executor
