import Gleam.FileSort.FileSorter

/-!
# Spilling: what a successful `Input` does

`Input` appends its row, first flushing the buffer to a new run file when the buffer already
holds `bufSize` rows. This module states that once, as inversion lemmas for `flushToFile` and
`Input`, and derives the spill count of an input phase from them: after `n ≥ 1` successful
calls on a fresh sorter with `bufSize = b`, exactly `⌈n / b⌉ - 1` runs of `b` rows each are on
disk and the buffer holds the other rows, between `1` and `b` of them.

## Main definitions

* `Env.FaultFree`: no system call fails.
* `FileSorter.inputAll`: the input phase, `Input` on each row in turn.
* `HoldsRows`: a run file's contents are the records of a given list of rows.

## Main results

* `flushToFile_eq_ok`, `input_eq_ok`: everything a successful flush or input does.
* `inputAll_spill_count`: the spill count, the buffer bound along the whole phase, and the
  file sizes after it.
-/

namespace Gleam.FileSort

variable {D : Type} (env : Env D)

/-- No system call fails. -/
def Env.FaultFree : Prop := ∀ n, env.faults n = none

/-- Run file `f` on disk `d` holds the records of `rows`. -/
def HoldsRows (d : Disk) (f : Nat) (rows : List (ComparableRow D)) : Prop :=
  ∃ bytes, encodeRows env.codec rows = .ok bytes ∧ d.files f = some bytes

/-- A relation on two lists that holds between related elements, using only elements of the
first list. -/
theorem forall₂_imp_mem {α β : Type} {R R' : α → β → Prop} :
    ∀ {l₁ : List α} {l₂ : List β}, List.Forall₂ R l₁ l₂ → (∀ a ∈ l₁, ∀ b, R a b → R' a b) →
      List.Forall₂ R' l₁ l₂
  | [], [], .nil, _ => .nil
  | a :: _, _ :: _, .cons hab h, hR =>
    .cons (hR a (List.mem_cons_self _ _) _ hab)
      (forall₂_imp_mem h fun a' ha' => hR a' (List.mem_cons_of_mem _ ha'))

namespace FileSorter

/-- The input phase: `Input` on each row in turn, stopping at the first failure. -/
def inputAll (fs : FileSorter D) (d : Disk) : List (ComparableRow D) → Res D Unit
  | [] => (.ok (), fs, d)
  | row :: rows =>
    match fs.input env d row.key row.val row.handle with
    | (.error e, fs, d) => (.error e, fs, d)
    | (.ok (), fs, d) => inputAll fs d rows

variable {env}

/-- A successful `flushToFile` sorted the buffer without a comparison failure, wrote its
records to a fresh run file named by `fileCount`, registered that file and emptied the buffer. -/
theorem flushToFile_eq_ok {fs fs' : FileSorter D} {d d' : Disk}
    (h : fs.flushToFile env d = (.ok (), fs', d')) :
    (fs.sortBuf env).err = none ∧
      (∃ bytes, encodeRows env.codec (fs.sortBuf env).buf = .ok bytes ∧
        d'.files = Function.update d.files fs.fileCount (some bytes)) ∧
      fs' = { (fs.sortBuf env) with
              fileCount := fs.fileCount + 1, files := fs.files ++ [fs.fileCount], buf := [] } := by
  simp only [flushToFile, Disk.syscall] at h
  cases herr : (fs.sortBuf env).err with
  | some e => simp [herr] at h
  | none =>
    cases h1 : env.faults d.syscalls with
    | some e => simp [herr, h1] at h
    | none =>
      cases henc : encodeRows env.codec (fs.sortBuf env).buf with
      | error e => simp [herr, h1, henc] at h
      | ok bytes =>
        cases h2 : env.faults (d.syscalls + 1) with
        | some e => simp [herr, h1, henc, h2] at h
        | none =>
          simp [herr, h1, henc, h2] at h
          obtain ⟨rfl, rfl⟩ := h
          exact ⟨rfl, ⟨bytes, rfl, by simp [Disk.write]⟩, by simp [herr]⟩

/-- Under a fault-free system, `flushToFile` succeeds when its sort records no failure and its
records encode. -/
theorem flushToFile_ok_of_faultFree (hf : env.FaultFree) {fs : FileSorter D} (d : Disk)
    (herr : (fs.sortBuf env).err = none) {bytes : List UInt8}
    (henc : encodeRows env.codec (fs.sortBuf env).buf = .ok bytes) :
    (fs.flushToFile env d).1 = .ok () := by
  simp [flushToFile, herr, henc, Disk.syscall, hf _]

/-- A successful `Input` found the sorter open, before `Output`, and the row well sized; it
either appended to a buffer with room, or flushed a full buffer first and started a new one. -/
theorem input_eq_ok {fs fs' : FileSorter D} {d d' : Disk} {key val : List D} {handle : Int}
    (h : fs.input env d key val handle = (.ok (), fs', d')) :
    fs.closed = false ∧ fs.fetched = false ∧ key.length = fs.keySize ∧
      val.length = fs.valSize ∧
      ((fs.buf.length < fs.bufSize ∧ d' = d ∧ fs' = { fs with buf := fs.buf ++ [⟨key, val, handle⟩] }) ∨
        (fs.bufSize ≤ fs.buf.length ∧ ∃ fs₁, fs.flushToFile env d = (.ok (), fs₁, d') ∧
          fs' = { fs₁ with buf := [⟨key, val, handle⟩] })) := by
  simp only [input, ite_eq_iff, Prod.mk.injEq, reduceCtorEq, false_and, and_false, false_or] at h
  obtain ⟨hc, hf, hk, hv, h⟩ := h
  refine ⟨by simpa using hc, by simpa using hf, by simpa using hk, by simpa using hv, ?_⟩
  split_ifs at h with hfull
  · split at h
    · cases h
    · rename_i fs₁ d₁ hr
      cases h
      obtain ⟨-, -, rfl⟩ := flushToFile_eq_ok hr
      exact .inr ⟨hfull, _, hr, rfl⟩
  · cases h
    exact .inl ⟨by omega, rfl, rfl⟩

variable (env) in
/-- The spill invariant after `k` rows were input: `k = B * |files| + |buf|` with
`1 ≤ |buf| ≤ B`, every registered run holds `B` rows, and `fileCount` names no registered run. -/
structure SpillInv (B k : Nat) (fs : FileSorter D) (d : Disk) : Prop where
  bufSize : fs.bufSize = B
  count : k = B * fs.files.length + fs.buf.length
  buf_pos : 1 ≤ fs.buf.length
  buf_le : fs.buf.length ≤ B
  runs : ∀ f ∈ fs.files, ∃ rs : List (ComparableRow D), rs.length = B ∧ HoldsRows env d f rs
  fresh : ∀ f ∈ fs.files, f < fs.fileCount

/-- A successful flush keeps the runs already registered, adds the sorted buffer as a run named
by the old `fileCount`, and leaves `fileCount` above every registered name. -/
theorem flushToFile_runs {fs fs' : FileSorter D} {d d' : Disk}
    (h : fs.flushToFile env d = (.ok (), fs', d')) (hfresh : ∀ f ∈ fs.files, f < fs.fileCount) :
    fs'.files = fs.files ++ [fs.fileCount] ∧ fs'.buf = [] ∧ fs'.fileCount = fs.fileCount + 1 ∧
      fs'.bufSize = fs.bufSize ∧ HoldsRows env d' fs.fileCount (fs.sortBuf env).buf ∧
      ∀ f ∈ fs.files, d'.files f = d.files f := by
  obtain ⟨-, ⟨bytes, henc, hd⟩, rfl⟩ := flushToFile_eq_ok h
  refine ⟨rfl, rfl, rfl, rfl, ⟨bytes, henc, by simp [hd]⟩, fun f hf => ?_⟩
  rw [hd, Function.update_noteq (Nat.ne_of_lt (hfresh f hf))]

/-- One successful `Input` keeps the spill invariant, with one more row. -/
theorem SpillInv.input {B k : Nat} {fs fs' : FileSorter D} {d d' : Disk} {row : ComparableRow D}
    (hinv : SpillInv env B k fs d)
    (h : fs.input env d row.key row.val row.handle = (.ok (), fs', d')) :
    SpillInv env B (k + 1) fs' d' := by
  obtain ⟨-, -, -, -, ⟨hroom, rfl, rfl⟩ | ⟨hfull, fs₁, hfl, rfl⟩⟩ := input_eq_ok h
  · exact { bufSize := hinv.bufSize, count := by simp [hinv.count]; omega,
            buf_pos := by simp, buf_le := by simpa [← hinv.bufSize] using hroom,
            runs := hinv.runs, fresh := hinv.fresh }
  · obtain ⟨hfiles, hbuf, hcount, hsize, hnew, hold⟩ := flushToFile_runs hfl hinv.fresh
    have hB : fs.buf.length = B := le_antisymm hinv.buf_le (hinv.bufSize ▸ hfull)
    refine { bufSize := by simp [hsize, hinv.bufSize], count := ?_, buf_pos := by simp,
             buf_le := ?_, runs := ?_, fresh := ?_ }
    · simp only [hfiles, List.length_append, List.length_singleton, List.length_cons,
        List.length_nil, hinv.count, hB, Nat.mul_succ]
    · have := hinv.buf_pos; simp; omega
    · intro f hf
      rw [hfiles, List.mem_append, List.mem_singleton] at hf
      rcases hf with hf | rfl
      · obtain ⟨rs, hlen, bytes, henc, hfile⟩ := hinv.runs f hf
        exact ⟨rs, hlen, bytes, henc, (hold f hf).trans hfile⟩
      · exact ⟨_, (sortBuf_buf_perm env fs).length_eq.trans hB, hnew⟩
    · intro f hf
      simp only [hfiles, List.mem_append, List.mem_singleton, hcount] at hf ⊢
      rcases hf with hf | rfl
      · exact Nat.lt_succ_of_lt (hinv.fresh f hf)
      · exact Nat.lt_succ_self _

/-- The input phase keeps the spill invariant over all its rows. -/
theorem SpillInv.inputAll {B : Nat} :
    ∀ {rows : List (ComparableRow D)} {k : Nat} {fs fs' : FileSorter D} {d d' : Disk},
      SpillInv env B k fs d → fs.inputAll env d rows = (.ok (), fs', d') →
      SpillInv env B (k + rows.length) fs' d'
  | [], _, _, _, _, _, hinv, h => by cases h; exact hinv
  | row :: rows, k, fs, fs', d, d', hinv, h => by
    unfold FileSorter.inputAll at h
    split at h
    · cases h
    · rename_i fs₁ d₁ hr
      rw [show k + (row :: rows).length = k + 1 + rows.length by simp; omega]
      exact (hinv.input hr).inputAll h

/-- The first `Input` on a built sorter starts the spill invariant. -/
theorem SpillInv.first {b : Builder} {fs₀ fs : FileSorter D} (hb : b.build = .ok fs₀)
    {d₀ d : Disk} {row : ComparableRow D}
    (h : fs₀.input env d₀ row.key row.val row.handle = (.ok (), fs, d)) :
    SpillInv env b.bufSize.toNat 1 fs d := by
  obtain ⟨rfl, -, -, -, hB⟩ := Builder.build_eq_ok hb
  obtain ⟨-, -, -, -, ⟨-, rfl, rfl⟩ | ⟨hfull, -⟩⟩ := input_eq_ok h
  · exact { bufSize := rfl, count := rfl, buf_pos := le_refl _, buf_le := by simp; omega,
            runs := fun _ h => absurd h (List.not_mem_nil _),
            fresh := fun _ h => absurd h (List.not_mem_nil _) }
  · simp at hfull; omega

/-- After the flush that starts `externalSort`, every run holds between `1` and `B` rows: the
runs already registered hold `B`, and the flushed buffer between `1` and `B`. -/
theorem SpillInv.flush_runs {B k : Nat} {fs fs' : FileSorter D} {d d' : Disk}
    (inv : SpillInv env B k fs d) (hfl : fs.flushToFile env d = (.ok (), fs', d')) :
    ∀ f ∈ fs'.files, ∃ rs : List (ComparableRow D),
      1 ≤ rs.length ∧ rs.length ≤ B ∧ HoldsRows env d' f rs := by
  intro f hf
  obtain ⟨hfiles, -, -, -, hnew, hold⟩ := flushToFile_runs hfl inv.fresh
  have := inv.buf_pos
  have := inv.buf_le
  rw [hfiles, List.mem_append, List.mem_singleton] at hf
  rcases hf with hf | rfl
  · obtain ⟨rs, hlen, bytes, henc, hfile⟩ := inv.runs f hf
    exact ⟨rs, by omega, hlen.le, bytes, henc, (hold f hf).trans hfile⟩
  · have := (sortBuf_buf_perm env fs).length_eq
    exact ⟨_, by omega, by omega, hnew⟩

/-- `⌈n / B⌉ - 1` is `q` when `n = B * q + r` with `1 ≤ r ≤ B`. -/
theorem ceil_div_sub_one {B q r : Nat} (hr : 1 ≤ r) (hrB : r ≤ B) :
    (B * q + r + B - 1) / B - 1 = q := by
  have hB : 0 < B := by omega
  rw [show B * q + r + B - 1 = (r + B - 1) + B * q by omega, Nat.add_mul_div_left _ _ hB,
    Nat.div_eq_of_lt_le (k := 1) (by omega) (by omega)]
  omega

/-- A run holding at least one row does not read end of file at its start. -/
theorem readRecord_ne_ok_none {fs : FileSorter D} {fd : Fd} {d : Disk}
    {rs : List (ComparableRow D)} (hrun : HoldsRows env d fd.file rs) (hne : rs ≠ [])
    (hoff : fd.offset = 0) : (fs.readRecord env fd d).1 ≠ .ok none := by
  intro h
  have hlen := Fd.read_eof (readRecord_eq_ok_none env h)
  obtain ⟨bytes, henc, hfile⟩ := hrun
  obtain ⟨row, rows, rfl⟩ := List.exists_cons_of_ne_nil hne
  simp only [encodeRows] at henc
  split at henc
  · cases henc
  · split at henc
    · cases henc
    · cases henc
      simp [hfile, hoff, frame] at hlen

/-- Spilling in an input phase. After `n ≥ 1` successful `Input` calls on a built sorter with
`bufSize = B`, there are `⌈n / B⌉ - 1` runs of exactly `B` rows, and the buffer holds the other
`n - B * (⌈n / B⌉ - 1)` rows, between `1` and `B`; so a run was spilled iff `n > B`. The flush that
starts `externalSort` leaves every run holding between `1` and `B` rows, so no run's first
read, from offset `0`, reports end of file: the "file is empty" branch is not taken. -/
theorem inputAll_spill_count {b : Builder} {fs₀ : FileSorter D} (hb : b.build = .ok fs₀)
    (d₀ : Disk) {rows : List (ComparableRow D)} (hn : rows ≠ []) {fs : FileSorter D} {d : Disk}
    (h : fs₀.inputAll env d₀ rows = (.ok (), fs, d)) :
    fs.buf.length ≤ b.bufSize.toNat ∧
      fs.files.length = (rows.length + b.bufSize.toNat - 1) / b.bufSize.toNat - 1 ∧
      (∀ f ∈ fs.files, ∃ rs : List (ComparableRow D),
        rs.length = b.bufSize.toNat ∧ HoldsRows env d f rs) ∧
      fs.buf.length =
        rows.length - b.bufSize.toNat * ((rows.length + b.bufSize.toNat - 1) / b.bufSize.toNat - 1) ∧
      1 ≤ fs.buf.length ∧ (fs.files ≠ [] ↔ b.bufSize.toNat < rows.length) ∧
      ∀ fs' d', fs.flushToFile env d = (.ok (), fs', d') →
        (∀ f ∈ fs'.files, ∃ rs : List (ComparableRow D),
          1 ≤ rs.length ∧ rs.length ≤ b.bufSize.toNat ∧ HoldsRows env d' f rs) ∧
        ∀ (fs'' : FileSorter D) (fd : Fd) (d'' : Disk), fd.file ∈ fs'.files → fd.offset = 0 →
          d''.files = d'.files → (fs''.readRecord env fd d'').1 ≠ .ok none := by
  obtain ⟨row, rest, rfl⟩ := List.exists_cons_of_ne_nil hn
  unfold inputAll at h
  split at h
  · cases h
  · rename_i fs₁ d₁ h₁
    have inv := (SpillInv.first hb h₁).inputAll h
    set B := b.bufSize.toNat
    have hn : (row :: rest).length = B * fs.files.length + fs.buf.length := by
      rw [← inv.count]; simp [Nat.add_comm]
    have hq := ceil_div_sub_one (q := fs.files.length) inv.buf_pos inv.buf_le
    rw [← hn] at hq
    refine ⟨inv.buf_le, hq.symm, inv.runs, by rw [hq]; omega, inv.buf_pos, ?_,
      fun fs' d' hfl => ⟨inv.flush_runs hfl, ?_⟩⟩
    · rw [Ne, ← List.length_eq_zero, hn]
      have := inv.buf_pos; have := inv.buf_le
      rcases Nat.eq_zero_or_pos fs.files.length with h0 | h0
      · simp [h0]; omega
      · have := Nat.le_mul_of_pos_right B h0; omega
    · intro fs'' fd d'' hf hoff hd
      obtain ⟨rs, hrs, -, bytes, henc, hfile⟩ := inv.flush_runs hfl fd.file hf
      exact readRecord_ne_ok_none ⟨bytes, henc, by rw [hd]; exact hfile⟩
        (List.ne_nil_of_length_pos hrs) hoff

/-- Three rows through a buffer of two: one run of two rows, one row left in the buffer. -/
theorem inputAll_spill_count_three_rows :
    let rows : List (ComparableRow Int) := [⟨[5], [0], 0⟩, ⟨[3], [0], 1⟩, ⟨[1], [0], 2⟩]
    let r := (smallBuilder 2).fresh.inputAll (byteEnv fun _ => none) emptyDisk rows
    (((smallBuilder 2).build : Except String (FileSorter Int)) = .ok (smallBuilder 2).fresh ∧
        rows ≠ [] ∧ r = (.ok (), r.2.1, r.2.2)) ∧
      r.2.1.buf.length ≤ 2 ∧ r.2.1.files.length = (3 + 2 - 1) / 2 - 1 ∧
      (∀ f ∈ r.2.1.files, ∃ rs : List (ComparableRow Int),
        rs.length = 2 ∧ HoldsRows (byteEnv fun _ => none) r.2.2 f rs) ∧
      r.2.1.buf.length = 3 - 2 * ((3 + 2 - 1) / 2 - 1) ∧ 1 ≤ r.2.1.buf.length ∧
      (r.2.1.files ≠ [] ↔ 2 < 3) ∧
      ∀ fs' d', r.2.1.flushToFile (byteEnv fun _ => none) r.2.2 = (.ok (), fs', d') →
        (∀ f ∈ fs'.files, ∃ rs : List (ComparableRow Int),
          1 ≤ rs.length ∧ rs.length ≤ 2 ∧ HoldsRows (byteEnv fun _ => none) d' f rs) ∧
        ∀ (fs'' : FileSorter Int) (fd : Fd) (d'' : Disk), fd.file ∈ fs'.files → fd.offset = 0 →
          d''.files = d'.files → (fs''.readRecord (byteEnv fun _ => none) fd d'').1 ≠ .ok none :=
  by
    intro rows r
    have hr : r = (.ok (), r.2.1, r.2.2) := rfl
    have hb : ((smallBuilder 2).build : Except String (FileSorter Int)) = .ok (smallBuilder 2).fresh :=
      rfl
    exact ⟨⟨hb, by decide, hr⟩, inputAll_spill_count hb emptyDisk (by decide) hr⟩

end FileSorter

end Gleam.FileSort
