import Gleam.FileSort.Sort
import Gleam.FileSort.Heap
import Gleam.FileSort.RunFile

/-!
# `FileSorter`

The sorter's state and its four public calls, `Build`, `Input`, `Output` and `Close`, with the
helpers they run: `flushToFile`, `fetchNextRow`, `openAllFiles`, `closeAllFiles`,
`internalSort` and `externalSort`.

Each call takes the sorter and the disk and returns what the Go method returns (a value or a
`Failure`) with the sorter and disk it leaves. The Go methods mutate `fs` in place and return
early on errors, so a failed call keeps every update made before its failure: `fileCount` is
bumped before the file is opened, descriptors opened before a failing `os.Open` stay in `fds`,
and items pushed before a failing read stay in the heap.

`Output` returns `none` for the end-of-data result `(nil, nil, 0, nil)`.

The sorter's collaborators are `Env`: `CompareDatum` under the statement context, the `codec`
package, and the operating system's fault oracle. `tmpDir` appears only through file names,
which are identified with the counter they are made from.

## Main definitions

* `Env`, `FileSorter`, `Builder`: collaborators, sorter state, and the builder's fields.
* `Builder.build`, `FileSorter.input`, `FileSorter.output`, `FileSorter.close`: the calls.
-/

namespace Gleam.FileSort

/-- What the sorter calls but the package does not define. -/
structure Env (D : Type) where
  /-- `v1.CompareDatum(sc, v2)`: the sign of the comparison, or an error. -/
  compareDatum : D → D → Except String Int
  /-- The `codec` package and the handle's datum. -/
  codec : Codec D
  /-- Which system calls fail, by their number. -/
  faults : Nat → Option String

/-- The fields of `FileSorter`. `tmpDir` and `sc` are in `Env` and in the run files' names. -/
structure FileSorter (D : Type) where
  keySize : Nat
  valSize : Nat
  bufSize : Nat
  /-- In-memory buffer of rows. -/
  buf : List (ComparableRow D)
  /-- Run files generated so far, in creation order. -/
  files : List Nat
  /-- Per key column, whether it sorts descending. -/
  byDesc : List Bool
  /-- Next row of the in-memory sort to return. -/
  cursor : Nat
  closed : Bool
  /-- Set once the first `Output` has sorted or primed successfully. -/
  fetched : Bool
  rowHeap : HeapState (Item D)
  /-- Descriptors opened by `openAllFiles`. -/
  fds : List Fd
  /-- Counter that names the next run file. -/
  fileCount : Nat
  /-- First comparison failure recorded by `sort.Sort`. -/
  err : Option String
  deriving DecidableEq, Repr

/-- What a call returns, with the sorter and the disk it leaves. -/
abbrev Res (D α : Type) := Except Failure α × FileSorter D × Disk

/-- The fields of `Builder`. `sc` and `tmpDir` are recorded by whether they are set and exist. -/
structure Builder where
  scSet : Bool
  keySize : Int
  valSize : Int
  bufSize : Int
  byDesc : List Bool
  tmpDirExists : Bool
  deriving DecidableEq, Repr

variable {D : Type} (env : Env D)

/-- The empty sorter `Build` returns. -/
def Builder.fresh (b : Builder) : FileSorter D :=
  { keySize := b.keySize.toNat
    valSize := b.valSize.toNat
    bufSize := b.bufSize.toNat
    buf := []
    files := []
    byDesc := b.byDesc
    cursor := 0
    closed := false
    fetched := false
    rowHeap := ⟨[], none⟩
    fds := []
    fileCount := 0
    err := none }

section Fresh

variable (b : Builder)

@[simp] theorem Builder.fresh_buf : (b.fresh : FileSorter D).buf = [] := rfl
@[simp] theorem Builder.fresh_files : (b.fresh : FileSorter D).files = [] := rfl
@[simp] theorem Builder.fresh_fds : (b.fresh : FileSorter D).fds = [] := rfl
@[simp] theorem Builder.fresh_fileCount : (b.fresh : FileSorter D).fileCount = 0 := rfl
@[simp] theorem Builder.fresh_closed : (b.fresh : FileSorter D).closed = false := rfl
@[simp] theorem Builder.fresh_fetched : (b.fresh : FileSorter D).fetched = false := rfl
@[simp] theorem Builder.fresh_err : (b.fresh : FileSorter D).err = none := rfl
@[simp] theorem Builder.fresh_rowHeap : (b.fresh : FileSorter D).rowHeap = ⟨[], none⟩ := rfl
@[simp] theorem Builder.fresh_bufSize : (b.fresh : FileSorter D).bufSize = b.bufSize.toNat := rfl
@[simp] theorem Builder.fresh_keySize : (b.fresh : FileSorter D).keySize = b.keySize.toNat := rfl
@[simp] theorem Builder.fresh_valSize : (b.fresh : FileSorter D).valSize = b.valSize.toNat := rfl
@[simp] theorem Builder.fresh_byDesc : (b.fresh : FileSorter D).byDesc = b.byDesc := rfl

end Fresh

/-- `Build`: the sanity checks in order, then an empty sorter. -/
def Builder.build (b : Builder) : Except String (FileSorter D) :=
  if !b.scSet then .error "StatementContext is nil"
  else if b.keySize ≠ b.byDesc.length then .error "mismatch in key size and byDesc slice"
  else if b.keySize ≤ 0 then .error "key size is not positive"
  else if b.valSize ≤ 0 then .error "value size is not positive"
  else if b.bufSize ≤ 0 then .error "buffer size is not positive"
  else if !b.tmpDirExists then .error "tmpDir does not exist"
  else .ok b.fresh

/-- A built sorter is the empty one, and its sizes passed the checks. -/
theorem Builder.build_eq_ok {b : Builder} {fs : FileSorter D} (h : b.build = .ok fs) :
    fs = b.fresh ∧ b.keySize = b.byDesc.length ∧ 0 < b.keySize ∧ 0 < b.valSize ∧
      0 < b.bufSize := by
  simp only [build, ite_eq_iff, reduceCtorEq, and_false, false_or, Except.ok.injEq] at h
  obtain ⟨-, h2, h3, h4, h5, -, rfl⟩ := h
  exact ⟨rfl, not_not.1 h2, by omega, by omega, by omega⟩

namespace FileSorter

/-- `lessThan` on two rows' keys with the sorter's `byDesc`. -/
def rowLess (fs : FileSorter D) (a b : ComparableRow D) : Except String Bool :=
  lessThan env.compareDatum fs.byDesc a.key b.key

/-- `rowHeap.Less` on two items. -/
def itemLess (fs : FileSorter D) (a b : Item D) : Except String Bool :=
  fs.rowLess env a.value b.value

/-- `sort.Sort(fs)`: sort `buf` with `FileSorter.Less`, which records into `err`. -/
def sortBuf (fs : FileSorter D) : FileSorter D :=
  let r := insertionSort (fs.rowLess env) fs.buf fs.err
  { fs with buf := r.1, err := r.2 }

@[simp] theorem sortBuf_files (fs : FileSorter D) : (fs.sortBuf env).files = fs.files := rfl
@[simp] theorem sortBuf_fileCount (fs : FileSorter D) :
    (fs.sortBuf env).fileCount = fs.fileCount := rfl
@[simp] theorem sortBuf_bufSize (fs : FileSorter D) : (fs.sortBuf env).bufSize = fs.bufSize := rfl
@[simp] theorem sortBuf_keySize (fs : FileSorter D) : (fs.sortBuf env).keySize = fs.keySize := rfl
@[simp] theorem sortBuf_valSize (fs : FileSorter D) : (fs.sortBuf env).valSize = fs.valSize := rfl
@[simp] theorem sortBuf_byDesc (fs : FileSorter D) : (fs.sortBuf env).byDesc = fs.byDesc := rfl
@[simp] theorem sortBuf_closed (fs : FileSorter D) : (fs.sortBuf env).closed = fs.closed := rfl
@[simp] theorem sortBuf_fetched (fs : FileSorter D) : (fs.sortBuf env).fetched = fs.fetched := rfl
@[simp] theorem sortBuf_cursor (fs : FileSorter D) : (fs.sortBuf env).cursor = fs.cursor := rfl
@[simp] theorem sortBuf_fds (fs : FileSorter D) : (fs.sortBuf env).fds = fs.fds := rfl
@[simp] theorem sortBuf_rowHeap (fs : FileSorter D) : (fs.sortBuf env).rowHeap = fs.rowHeap := rfl

theorem sortBuf_buf_perm (fs : FileSorter D) : (fs.sortBuf env).buf.Perm fs.buf :=
  insertionSort_perm _ _

/-- `flushToFile`: sort the buffer, create the next run file, write the buffer's records, and
register the file and clear the buffer only once the write succeeded. The deferred `Close` of
the output file is a system call whose error is ignored. -/
def flushToFile (fs : FileSorter D) (d : Disk) : Res D Unit :=
  let fs := fs.sortBuf env
  match fs.err with
  | some e => (.error (.error e), fs, d)
  | none =>
    let name := fs.fileCount
    let fs := { fs with fileCount := fs.fileCount + 1 }
    match d.syscall env.faults with
    | (some e, d) => (.error (.error e), fs, d)
    | (none, d) =>
      let d := d.write name []
      match encodeRows env.codec fs.buf with
      | .error e => (.error (.error e), fs, (d.syscall env.faults).2)
      | .ok bytes =>
        match d.syscall env.faults with
        | (some e, d) => (.error (.error e), fs, (d.syscall env.faults).2)
        | (none, d) =>
          ((.ok ()), { fs with files := fs.files ++ [name], buf := [] },
            ((d.write name bytes).syscall env.faults).2)

/-- `Input`: reject a closed sorter, a call after `Output`, and wrongly sized rows; flush a
full buffer; then append the row. -/
def input (fs : FileSorter D) (d : Disk) (key val : List D) (handle : Int) : Res D Unit :=
  if fs.closed then (.error (.error "FileSorter has been closed"), fs, d)
  else if fs.fetched then (.error (.error "call input after output"), fs, d)
  else if key.length ≠ fs.keySize then (.error (.error "mismatch in key size and key slice"), fs, d)
  else if val.length ≠ fs.valSize then
    (.error (.error "mismatch in value size and val slice"), fs, d)
  else
    match (if fs.bufSize ≤ fs.buf.length then fs.flushToFile env d else (.ok (), fs, d)) with
    | (.error e, fs, d) => (.error e, fs, d)
    | (.ok (), fs, d) => (.ok (), { fs with buf := fs.buf ++ [⟨key, val, handle⟩] }, d)

/-- The read of one record from descriptor `fd`: the 8-byte header, then a body of the length
it declares (`make` panics on a negative or oversized length), decoded into
`keySize + valSize + 1` datums. -/
def readRecord (fs : FileSorter D) (fd : Fd) (d : Disk) :
    Except Failure (Option (ComparableRow D)) × Fd × Disk :=
  match fd.read env.faults d 8 with
  | (.eof, fd, d) => (.ok none, fd, d)
  | (.error e, fd, d) => (.error (.error e), fd, d)
  | (.bytes head, fd, d) =>
    if head.length ≠ 8 then (.error (.error "incorrect header"), fd, d)
    else
      let rowSize := int64OfUint64 (bigEndianUint64 head)
      if rowSize < 0 ∨ 2 ^ 48 < rowSize then
        (.error (.panic "makeslice: len out of range"), fd, d)
      else
        match fd.read env.faults d rowSize.toNat with
        | (.eof, fd, d) => (.error (.error "EOF"), fd, d)
        | (.error e, fd, d) => (.error (.error e), fd, d)
        | (.bytes rowBytes, fd, d) =>
          if rowBytes.length ≠ rowSize.toNat then (.error (.error "incorrect row"), fd, d)
          else
            match env.codec.decode rowBytes with
            | .error e => (.error (.error e), fd, d)
            | .ok dcod =>
              match dcod[fs.keySize + fs.valSize]? with
              | none => (.error (.panic "index out of range"), fd, d)
              | some h =>
                (.ok (some ⟨dcod.take fs.keySize, (dcod.drop fs.keySize).take fs.valSize,
                  env.codec.getInt64 h⟩), fd, d)

/-- `readRecord` reports the end of a run only when the header read hits end of file. -/
theorem readRecord_eq_ok_none {fs : FileSorter D} {fd : Fd} {d : Disk}
    (h : (fs.readRecord env fd d).1 = .ok none) : (fd.read env.faults d 8).1 = .eof := by
  rcases hr : fd.read env.faults d 8 with ⟨_ | _ | _, fd', d'⟩
  · simp only [readRecord, hr] at h
    split_ifs at h
    split at h <;> try cases h
    split_ifs at h
    split at h <;> try cases h
    split at h <;> cases h
  · rfl
  · simp [readRecord, hr] at h

/-- `fetchNextRow(index)`: read the next record of run `index` through `fds[index]`. -/
def fetchNextRow (fs : FileSorter D) (d : Disk) (index : Nat) :
    Res D (Option (ComparableRow D)) :=
  match fs.fds[index]? with
  | none => (.error (.panic "index out of range"), fs, d)
  | some fd =>
    let r := fs.readRecord env fd d
    (r.1, { fs with fds := fs.fds.set index r.2.1 }, r.2.2)

/-- The loop of `openAllFiles` over the remaining names, appending each opened descriptor. -/
def openFiles (fs : FileSorter D) (d : Disk) : List Nat → Res D Unit
  | [] => (.ok (), fs, d)
  | name :: names =>
    match d.syscall env.faults with
    | (some e, d) => (.error (.error e), fs, d)
    | (none, d) => openFiles { fs with fds := fs.fds ++ [⟨name, 0, false⟩] } d names

/-- `openAllFiles`: open every registered run file, appending to `fds`. -/
def openAllFiles (fs : FileSorter D) (d : Disk) : Res D Unit := fs.openFiles env d fs.files

/-- The loop of `closeAllFiles` over the descriptors: `Close` marks a descriptor closed even
when the system call fails, and fails at once on one already closed. -/
def closeFds (d : Disk) : List Fd → Except Failure Unit × List Fd × Disk
  | [] => (.ok (), [], d)
  | fd :: fds =>
    if fd.closed then (.error (.error "file already closed"), fd :: fds, d)
    else
      match d.syscall env.faults with
      | (some e, d) => (.error (.error e), { fd with closed := true } :: fds, d)
      | (none, d) =>
        let r := closeFds d fds
        (r.1, { fd with closed := true } :: r.2.1, r.2.2)

/-- `closeAllFiles`: close every descriptor, then `os.RemoveAll(tmpDir)`. -/
def closeAllFiles (fs : FileSorter D) (d : Disk) : Res D Unit :=
  match closeFds env d fs.fds with
  | (.error e, fds, d) => (.error e, { fs with fds := fds }, d)
  | (.ok (), fds, d) =>
    let fs := { fs with fds := fds }
    match d.syscall env.faults with
    | (some e, d) => (.error (.error e), fs, d)
    | (none, d) => (.ok (), fs, { d with files := fun _ => none })

/-- `Close`: reject a closed sorter, discard the buffer, close and remove everything, and only
then mark the sorter closed. -/
def close (fs : FileSorter D) (d : Disk) : Res D Unit :=
  if fs.closed then (.error (.error "FileSorter has been closed"), fs, d)
  else
    match closeAllFiles env { fs with buf := [] } d with
    | (.error e, fs, d) => (.error e, fs, d)
    | (.ok (), fs, d) => (.ok (), { fs with closed := true }, d)

/-- `internalSort`: on the first call sort the buffer (failing if a comparison failed), then
return the row at the cursor and advance it, or the end of data. -/
def internalSort (fs : FileSorter D) (d : Disk) : Res D (Option (ComparableRow D)) :=
  let r : Except Failure (FileSorter D) :=
    if fs.fetched then .ok fs
    else
      let fs := fs.sortBuf env
      match fs.err with
      | some e => .error (.error e)
      | none => .ok { fs with fetched := true }
  match r with
  | .error e => (.error e, (fs.sortBuf env), d)
  | .ok fs =>
    match fs.buf[fs.cursor]? with
    | some row => (.ok (some row), { fs with cursor := fs.cursor + 1 }, d)
    | none => (.ok none, fs, d)

/-- `heap.Push(fs.rowHeap, item)`. -/
def pushItem (fs : FileSorter D) (im : Item D) : FileSorter D :=
  { fs with rowHeap := fs.rowHeap.push (fs.itemLess env) im }

/-- The priming loop of `externalSort` over the run indices `ids`: read each run's first row,
fail on an empty run, and push the row. -/
def primeRuns (fs : FileSorter D) (d : Disk) : List Nat → Res D Unit
  | [] => (.ok (), fs, d)
  | id :: ids =>
    match fs.fetchNextRow env d id with
    | (.error e, fs, d) => (.error e, fs, d)
    | (.ok none, fs, d) => (.error (.error "file is empty"), fs, d)
    | (.ok (some row), fs, d) =>
      let fs := fs.pushItem env ⟨id, row⟩
      match fs.rowHeap.err with
      | some e => (.error (.error e), fs, d)
      | none => primeRuns fs d ids

/-- The first call of `externalSort`: flush a non-empty buffer as the last run, `heap.Init`,
open every run file, and prime the heap with the first row of every descriptor in `fds`. -/
def prime (fs : FileSorter D) (d : Disk) : Res D Unit :=
  match (if 0 < fs.buf.length then fs.flushToFile env d else (.ok (), fs, d)) with
  | (.error e, fs, d) => (.error e, fs, d)
  | (.ok (), fs, d) =>
    let fs := { fs with rowHeap := fs.rowHeap.init (fs.itemLess env) }
    match fs.rowHeap.err with
    | some e => (.error (.error e), fs, d)
    | none =>
      match fs.openAllFiles env d with
      | (.error e, fs, d) => (.error e, fs, d)
      | (.ok (), fs, d) =>
        match fs.primeRuns env d (List.range fs.fds.length) with
        | (.error e, fs, d) => (.error e, fs, d)
        | (.ok (), fs, d) => (.ok (), { fs with fetched := true }, d)

/-- One merge step of `externalSort`: pop the least item, read the next row of its run and
push it, and return the popped row; the end of data once the heap is empty. -/
def mergeStep (fs : FileSorter D) (d : Disk) : Res D (Option (ComparableRow D)) :=
  if fs.rowHeap.ims.length = 0 then (.ok none, fs, d)
  else
    let p := fs.rowHeap.pop (fs.itemLess env)
    let fs := { fs with rowHeap := p.2 }
    match fs.rowHeap.err, p.1 with
    | some e, _ => (.error (.error e), fs, d)
    | none, none => (.error (.panic "index out of range"), fs, d)
    | none, some im =>
      match fs.fetchNextRow env d im.index with
      | (.error e, fs, d) => (.error e, fs, d)
      | (.ok none, fs, d) => (.ok (some im.value), fs, d)
      | (.ok (some row), fs, d) =>
        let fs := fs.pushItem env ⟨im.index, row⟩
        match fs.rowHeap.err with
        | some e => (.error (.error e), fs, d)
        | none => (.ok (some im.value), fs, d)

/-- `externalSort`: prime on the first call, then take one merge step. -/
def externalSort (fs : FileSorter D) (d : Disk) : Res D (Option (ComparableRow D)) :=
  match (if fs.fetched then (.ok (), fs, d) else fs.prime env d) with
  | (.error e, fs, d) => (.error e, fs, d)
  | (.ok (), fs, d) => fs.mergeStep env d

/-- `Output`: the next row in sorted order, or `none` at the end of data. Without run files it
sorts in memory; otherwise it merges the runs. -/
def output (fs : FileSorter D) (d : Disk) : Res D (Option (ComparableRow D)) :=
  if fs.closed then (.error (.error "FileSorter has been closed"), fs, d)
  else if fs.files = [] then fs.internalSort env d
  else fs.externalSort env d

end FileSorter

/-- A concrete environment to run the model on: integer datums compared numerically, where a
negative datum stands for a value `CompareDatum` cannot convert, each datum encoded as one byte,
and system calls failing as `faults` says. -/
def byteEnv (faults : Nat → Option String) : Env Int where
  compareDatum a b :=
    if a < 0 ∨ b < 0 then .error "cannot compare" else .ok (if a < b then -1 else if a = b then 0 else 1)
  codec :=
    { encodeKey := fun b ds => .ok (b ++ ds.map fun x => UInt8.ofNat x.toNat)
      decode := fun b => .ok (b.map fun x => (x.toNat : Int))
      newIntDatum := id
      getInt64 := id }
  faults := faults

/-- A builder for one key column, one value column and a buffer of `bufSize` rows. -/
def smallBuilder (bufSize : Int) : Builder :=
  { scSet := true, keySize := 1, valSize := 1, bufSize := bufSize, byDesc := [false],
    tmpDirExists := true }

/-- An empty disk. -/
def emptyDisk : Disk := ⟨fun _ => none, 0⟩

end Gleam.FileSort
