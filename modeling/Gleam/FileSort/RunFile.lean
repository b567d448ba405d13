import Gleam.FileSort.Basic
import Mathlib.Tactic.NormNum

/-!
# Run files: the disk and the record format

A run file is written once by `flushToFile` as successive records
`[8-byte big-endian length L][L bytes: EncodeKey(key) ∥ EncodeKey(val) ∥ EncodeKey(handle)]`
and read back sequentially by `fetchNextRow` through an `*os.File`.

The operating system is modelled by `Disk`: the contents of the files under `tmpDir`, and a
count of the system calls made so far. Whether a system call fails is decided by an oracle
`faults` from that count, so every pattern of open, read, write, close and remove failures is
one choice of `faults`, and `fun _ => none` is the fault-free system. A regular file's `Read`
returns as many of the requested bytes as remain, and `io.EOF` at the end.

The `codec` package and the datum constructor for the handle are not in the source; they are
the parameters of `Codec`.

## Main definitions

* `Fd`, `Disk`, `Disk.syscall`, `Fd.read`: descriptors, the disk, and `(*os.File).Read`.
* `putUint64`, `bigEndianUint64`, `int64OfUint64`: the 8-byte header and its conversions.
* `Codec`, `encodeRow`, `encodeRows`: the record bodies and the bytes `flushToFile` writes.
-/

namespace Gleam.FileSort

/-- A descriptor returned by `os.Open` for run file `file`, with its read offset. -/
structure Fd where
  /-- The run file, `path.Join(tmpDir, strconv.Itoa(file))`. -/
  file : Nat
  /-- The offset of the next `Read`. -/
  offset : Nat
  /-- Whether `Close` was called on it. -/
  closed : Bool
  deriving DecidableEq, Repr

/-- The files under `tmpDir` and the number of system calls made so far. -/
structure Disk where
  /-- The contents of run file `n`, if it exists. -/
  files : Nat → Option (List UInt8)
  /-- System calls made so far; the fault oracle is indexed by it. -/
  syscalls : Nat

namespace Disk

/-- One system call: `faults` decides from its number whether it fails, and with which error. -/
def syscall (faults : Nat → Option String) (d : Disk) : Option String × Disk :=
  (faults d.syscalls, { d with syscalls := d.syscalls + 1 })

/-- Store `bytes` as the contents of run file `n`. -/
def write (d : Disk) (n : Nat) (bytes : List UInt8) : Disk :=
  { d with files := Function.update d.files n (some bytes) }

@[simp] theorem syscall_files (faults : Nat → Option String) (d : Disk) :
    (d.syscall faults).2.files = d.files := rfl

@[simp] theorem write_files_self (d : Disk) (n : Nat) (bytes : List UInt8) :
    (d.write n bytes).files n = some bytes := by
  simp [write]

@[simp] theorem write_syscalls (d : Disk) (n : Nat) (bytes : List UInt8) :
    (d.write n bytes).syscalls = d.syscalls := rfl

theorem write_files_ne (d : Disk) {n m : Nat} (bytes : List UInt8) (h : m ≠ n) :
    (d.write n bytes).files m = d.files m := by
  simp [write, h]

@[simp] theorem syscall_none {faults : Nat → Option String} (d : Disk)
    (h : faults = fun _ => none) : d.syscall faults = (none, { d with syscalls := d.syscalls + 1 }) := by
  subst h; rfl

end Disk

/-- What `(*os.File).Read` returns: bytes, `io.EOF`, or another error. -/
inductive ReadResult where
  | bytes (b : List UInt8)
  | eof
  | error (msg : String)
  deriving DecidableEq, Repr

/-- `fd.Read(b)` with `len(b) = k` on a regular file: a closed descriptor fails without a system
call, an empty buffer reads nothing, and otherwise the call returns the next `min k remaining`
bytes, or `io.EOF` when none remain. -/
def Fd.read (faults : Nat → Option String) (fd : Fd) (d : Disk) (k : Nat) :
    ReadResult × Fd × Disk :=
  if fd.closed then (.error "file already closed", fd, d)
  else if k = 0 then (.bytes [], fd, d)
  else
    match d.syscall faults with
    | (some e, d) => (.error e, fd, d)
    | (none, d) =>
      let content := (d.files fd.file).getD []
      if content.length ≤ fd.offset then (.eof, fd, d)
      else
        let b := (content.drop fd.offset).take k
        (.bytes b, { fd with offset := fd.offset + b.length }, d)

/-- `Read` reports end of file only at or past the end of the file's contents. -/
theorem Fd.read_eof {faults : Nat → Option String} {fd : Fd} {d : Disk} {k : Nat}
    (h : (fd.read faults d k).1 = .eof) : ((d.files fd.file).getD []).length ≤ fd.offset := by
  unfold Fd.read Disk.syscall at h
  split_ifs at h
  cases hf : faults d.syscalls <;> simp only [hf] at h
  · split_ifs at h with hlen
    exact hlen
  · cases h

section Read

variable {faults : Nat → Option String} {fd : Fd} {d : Disk} {k : Nat}

/-- A fault-free `Read` of `k > 0` bytes before the end returns the next bytes, at most `k`. -/
theorem Fd.read_of_drop (hf : ∀ n, faults n = none) (hc : fd.closed = false) (hk : 0 < k)
    {xs : List UInt8} (hxs : ((d.files fd.file).getD []).drop fd.offset = xs) (hne : xs ≠ []) :
    fd.read faults d k = (.bytes (xs.take k), { fd with offset := fd.offset + (xs.take k).length },
      { d with syscalls := d.syscalls + 1 }) := by
  have hlt : fd.offset < ((d.files fd.file).getD []).length := by
    by_contra h
    exact hne (hxs ▸ List.drop_eq_nil_of_le (by omega))
  simp [Fd.read, Disk.syscall, hf, hc, Nat.pos_iff_ne_zero.1 hk, Nat.not_le.2 hlt, hxs]

/-- A fault-free `Read` of `k > 0` bytes at the end reports `io.EOF`. -/
theorem Fd.read_of_end (hf : ∀ n, faults n = none) (hc : fd.closed = false) (hk : 0 < k)
    (hend : ((d.files fd.file).getD []).length ≤ fd.offset) :
    fd.read faults d k = (.eof, fd, { d with syscalls := d.syscalls + 1 }) := by
  simp [Fd.read, Disk.syscall, hf, hc, Nat.pos_iff_ne_zero.1 hk, hend]

/-- An empty read returns nothing and makes no system call. -/
theorem Fd.read_zero (hc : fd.closed = false) : fd.read faults d 0 = (.bytes [], fd, d) := by
  simp [Fd.read, hc]

/-- A fault-free `Read` of exactly the length of the bytes ahead returns them, moving the offset
past them and leaving the files as they are. -/
theorem Fd.read_body (hf : ∀ n, faults n = none) (hc : fd.closed = false) {body rest : List UInt8}
    (hxs : ((d.files fd.file).getD []).drop fd.offset = body ++ rest) :
    ∃ d', fd.read faults d body.length =
      (.bytes body, { fd with offset := fd.offset + body.length }, d') ∧ d'.files = d.files := by
  rcases Nat.eq_zero_or_pos body.length with h0 | hpos
  · rw [List.eq_nil_of_length_eq_zero h0]
    exact ⟨d, by simp [Fd.read_zero hc], rfl⟩
  · refine ⟨{ d with syscalls := d.syscalls + 1 }, (Fd.read_of_drop hf hc hpos hxs ?_).trans ?_, rfl⟩
    · exact List.ne_nil_of_length_pos (by simp; omega)
    · simp [List.take_append_of_le_length]

end Read

/-- `binary.BigEndian.PutUint64(head, v)`: the eight bytes of `v mod 2^64`, most significant
first. -/
def putUint64 (v : Nat) : List UInt8 :=
  [56, 48, 40, 32, 24, 16, 8, 0].map fun s => UInt8.ofNat (v >>> s)

/-- `binary.BigEndian.Uint64(head)`: the bytes read most significant first. -/
def bigEndianUint64 (b : List UInt8) : Nat := b.foldl (fun acc x => acc * 256 + x.toNat) 0

/-- `int(u)` for a `uint64` `u` on a 64-bit platform: values from `2^63` on wrap to negative. -/
def int64OfUint64 (u : Nat) : Int := if u < 2 ^ 63 then u else (u : Int) - 2 ^ 64

theorem toNat_uInt8_ofNat (n : Nat) : (UInt8.ofNat n).toNat = n % 256 := rfl

@[simp] theorem length_putUint64 (v : Nat) : (putUint64 v).length = 8 := rfl

@[simp] theorem putUint64_ne_nil (v : Nat) : putUint64 v ≠ [] := by simp [putUint64]

/-- The header reads back the length it was written with, modulo `2^64`. -/
theorem bigEndianUint64_putUint64 (v : Nat) : bigEndianUint64 (putUint64 v) = v % 2 ^ 64 := by
  -- each byte's shift as one more division by `2^8`, so that `omega` divides by small numbers
  have hdiv : ∀ k, v / 2 ^ (k + 8) = v / 2 ^ k / 2 ^ 8 := fun k => by
    rw [Nat.div_div_eq_div_mul, Nat.pow_add]
  simp only [putUint64, bigEndianUint64, List.map, List.foldl, toNat_uInt8_ofNat,
    Nat.shiftRight_eq_div_pow, hdiv 48, hdiv 40, hdiv 32, hdiv 24, hdiv 16, hdiv 8, hdiv 0]
  omega

theorem int64OfUint64_of_lt {u : Nat} (h : u < 2 ^ 63) : int64OfUint64 u = u := if_pos h

/-- A header written for a length up to `2^48` reads back as that length. -/
theorem int64OfUint64_putUint64 {n : Nat} (h : n ≤ 2 ^ 48) :
    int64OfUint64 (bigEndianUint64 (putUint64 n)) = n := by
  rw [bigEndianUint64_putUint64, Nat.mod_eq_of_lt (by omega), int64OfUint64_of_lt (by omega)]

/-- Eight header bytes whose first byte has its high bit set read as a negative `int`. -/
theorem int64OfUint64_neg {head : List UInt8} (hlen : head.length = 8)
    (hhigh : 128 ≤ (head.headD 0).toNat) : int64OfUint64 (bigEndianUint64 head) < 0 := by
  match head, hlen with
  | [b0, b1, b2, b3, b4, b5, b6, b7], _ =>
    have := b0.toNat_lt_size; have := b1.toNat_lt_size; have := b2.toNat_lt_size
    have := b3.toNat_lt_size; have := b4.toNat_lt_size; have := b5.toNat_lt_size
    have := b6.toNat_lt_size; have := b7.toNat_lt_size
    simp only [List.headD_cons] at hhigh
    simp only [bigEndianUint64, List.foldl, int64OfUint64, UInt8.size] at *
    split <;> omega

/-- The `codec` package and the handle's datum, which the source calls but does not contain. -/
structure Codec (D : Type) where
  /-- `codec.EncodeKey(b, v...)`: append the encoding of the datums `v` to `b`. -/
  encodeKey : List UInt8 → List D → Except String (List UInt8)
  /-- `codec.Decode(b, size)`: the datums encoded in `b`; `size` is only a capacity hint. -/
  decode : List UInt8 → Except String (List D)
  /-- `types.NewIntDatum`. -/
  newIntDatum : Int → D
  /-- `Datum.GetInt64`. -/
  getInt64 : D → Int

variable {D : Type} (codec : Codec D)

/-- The body of one record: `EncodeKey` of the key, then of the value, then of the handle. -/
def encodeRow (row : ComparableRow D) : Except String (List UInt8) :=
  match codec.encodeKey [] row.key with
  | .error e => .error e
  | .ok body =>
    match codec.encodeKey body row.val with
    | .error e => .error e
    | .ok body => codec.encodeKey body [codec.newIntDatum row.handle]

/-- The record of one row: the 8-byte length of its body, then the body. -/
def frame (body : List UInt8) : List UInt8 := putUint64 body.length ++ body

/-- The loop of `flushToFile`: the records of the rows in buffer order, or the first encoding
error. -/
def encodeRows : List (ComparableRow D) → Except String (List UInt8)
  | [] => .ok []
  | row :: rows =>
    match encodeRow codec row with
    | .error e => .error e
    | .ok body =>
      match encodeRows rows with
      | .error e => .error e
      | .ok rest => .ok (frame body ++ rest)

end Gleam.FileSort
