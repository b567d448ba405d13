import Gleam.FileSort.Spill

/-!
# Run-file framing round trip

`flushToFile` writes each row as `[8-byte big-endian length L][L bytes of body]`, and
`fetchNextRow` reads one record per call. Reading a run from its start returns the rows in the
order they were written and then the end-of-file result: the 8-byte header always tells the
reader where the body ends, whatever bytes the length or the body contain.

`codec.EncodeKey` and `codec.Decode` are not part of this repository, so the codec is a
parameter, and the round trip rests on `Codec.RoundTrips`: `Decode` inverts the `EncodeKey` calls
of a record body, `GetInt64` inverts `NewIntDatum` on the handle, and the body is a Go byte
slice, so no longer than the allocator's limit.

## Main definitions

* `Codec.RoundTrips`: the codec laws for one row.
* `FileSorter.fetchRun`: successive `fetchNextRow` calls on one run.

## Main results

* `readRecord_frame`: one record is read back as its row, and the offset moves past it.
* `fetchRun_of_drop`: the records from an offset on read back as their rows, then end of file.
* `flushToFile_round_trip`: a run file written by `flushToFile` reads back as the rows written.
-/

namespace Gleam.FileSort

variable {D : Type}

/-- The codec laws the round trip of `row` needs. -/
def Codec.RoundTrips (codec : Codec D) (row : ComparableRow D) : Prop :=
  ∀ body, encodeRow codec row = .ok body →
    codec.decode body = .ok (row.key ++ row.val ++ [codec.newIntDatum row.handle]) ∧
      codec.getInt64 (codec.newIntDatum row.handle) = row.handle ∧ body.length ≤ 2 ^ 48

namespace FileSorter

variable (env : Env D)

/-- `n` successive `fetchNextRow(index)` calls, with their results in order. -/
def fetchRun (fs : FileSorter D) (d : Disk) (index : Nat) :
    Nat → List (Except Failure (Option (ComparableRow D))) × FileSorter D × Disk
  | 0 => ([], fs, d)
  | n + 1 =>
    let r := fs.fetchNextRow env d index
    let rest := fetchRun r.2.1 r.2.2 index n
    (r.1 :: rest.1, rest.2)

variable {env}

/-- The datums of a record body split back into the row's key, value and handle. -/
theorem decoded_row (codec : Codec D) {row : ComparableRow D} {k v : Nat}
    (hk : row.key.length = k) (hv : row.val.length = v) :
    (row.key ++ row.val ++ [codec.newIntDatum row.handle])[k + v]? =
        some (codec.newIntDatum row.handle) ∧
      (row.key ++ row.val ++ [codec.newIntDatum row.handle]).take k = row.key ∧
      ((row.key ++ row.val ++ [codec.newIntDatum row.handle]).drop k).take v = row.val := by
  subst hk hv
  refine ⟨?_, by simp, by simp⟩
  rw [List.getElem?_append_right (by simp)]
  simp

/-- The two reads of a record at an offset where the file holds `frame body`: the header, then
the body, each fault-free, leaving the files as they are. -/
theorem read_frame (hf : env.FaultFree) {fd : Fd} {d : Disk} {body rest : List UInt8}
    (hc : fd.closed = false) (hcontent : ((d.files fd.file).getD []).drop fd.offset = frame body ++ rest) :
    fd.read env.faults d 8 = (.bytes (putUint64 body.length), { fd with offset := fd.offset + 8 },
      { d with syscalls := d.syscalls + 1 }) ∧
    ∃ d₂, Fd.read env.faults { fd with offset := fd.offset + 8 } { d with syscalls := d.syscalls + 1 }
        body.length = (.bytes body, { fd with offset := fd.offset + 8 + body.length }, d₂) ∧
      d₂.files = d.files := by
  refine ⟨?_, @Fd.read_body _ { fd with offset := fd.offset + 8 } { d with syscalls := d.syscalls + 1 }
    hf hc body rest (by simp [← List.drop_drop, hcontent, frame])⟩
  rw [Fd.read_of_drop hf hc (by decide) hcontent (by simp [frame])]
  simp [frame, List.take_append_of_le_length]

/-- One record read back: at an offset where the file holds `frame body` for `row`, a fault-free
`readRecord` returns `row` and moves the offset past the record. -/
theorem readRecord_frame (hf : env.FaultFree) {fs : FileSorter D} {fd : Fd} {d : Disk}
    {row : ComparableRow D} {body rest : List UInt8} (hc : fd.closed = false)
    (hcontent : ((d.files fd.file).getD []).drop fd.offset = frame body ++ rest)
    (hbody : encodeRow env.codec row = .ok body) (hrt : env.codec.RoundTrips row)
    (hk : row.key.length = fs.keySize) (hv : row.val.length = fs.valSize) :
    (fs.readRecord env fd d).1 = .ok (some row) ∧
      (fs.readRecord env fd d).2.1 = { fd with offset := fd.offset + 8 + body.length } ∧
      (fs.readRecord env fd d).2.2.files = d.files := by
  obtain ⟨hdec, hint, hlen⟩ := hrt body hbody
  obtain ⟨hget, htake, hdrop⟩ := decoded_row env.codec hk hv
  obtain ⟨h1, d₂, h2, hd₂⟩ := read_frame hf hc hcontent
  have hbound : ¬((body.length : Int) < 0 ∨ 2 ^ 48 < (body.length : Int)) := by omega
  simp only [readRecord, h1, length_putUint64, int64OfUint64_putUint64 hlen, ne_eq,
    not_true_eq_false, if_false, hbound, Int.toNat_natCast, h2, hdec, hget, htake, hdrop, hint]
  exact ⟨trivial, trivial, hd₂⟩

/-- `fetchNextRow` on an open run reads through its descriptor and stores the moved one back. -/
theorem fetchNextRow_of_fd {fs : FileSorter D} {d : Disk} {index : Nat} {fd : Fd}
    (hfd : fs.fds[index]? = some fd) :
    fs.fetchNextRow env d index = ((fs.readRecord env fd d).1,
      { fs with fds := fs.fds.set index (fs.readRecord env fd d).2.1 }, (fs.readRecord env fd d).2.2) := by
  simp [fetchNextRow, hfd]

/-- At the end of a run file, a fault-free `readRecord` is the end-of-file result. -/
theorem readRecord_end (hf : env.FaultFree) {fs : FileSorter D} {fd : Fd} {d : Disk}
    (hc : fd.closed = false) (hend : ((d.files fd.file).getD []).length ≤ fd.offset) :
    fs.readRecord env fd d = (.ok none, fd, { d with syscalls := d.syscalls + 1 }) := by
  simp [readRecord, Fd.read_of_end hf hc (Nat.zero_lt_succ 7) hend]

/-! ## Malformed records -/

/-- A header whose first byte has its high bit set declares a negative length once converted by
`int(...)`, and `make([]byte, rowSize)` panics: on such a record `fetchNextRow` crashes instead
of returning an error. -/
theorem fetchNextRow_negative_length_panics (hf : env.FaultFree) {fs : FileSorter D} {d : Disk}
    {index : Nat} {fd : Fd} (hfd : fs.fds[index]? = some fd) (hc : fd.closed = false)
    {head rest : List UInt8} (hcontent : ((d.files fd.file).getD []).drop fd.offset = head ++ rest)
    (hlen : head.length = 8) (hhigh : 128 ≤ (head.headD 0).toNat) :
    (fs.fetchNextRow env d index).1 = .error (.panic "makeslice: len out of range") := by
  have h1 := Fd.read_of_drop hf hc (k := 8) (by decide) hcontent
    (List.ne_nil_of_length_pos (by simp [hlen]))
  rw [List.take_append_of_le_length hlen.ge, List.take_of_length_le hlen.le] at h1
  simp [fetchNextRow_of_fd hfd, readRecord, h1, hlen, int64OfUint64_neg hlen hhigh]

/-- A body that decodes to fewer than `keySize + valSize + 1` datums makes the slice and index
expressions that build the row panic. -/
theorem fetchNextRow_short_body_panics (hf : env.FaultFree) {fs : FileSorter D} {d : Disk}
    {index : Nat} {fd : Fd} (hfd : fs.fds[index]? = some fd) (hc : fd.closed = false)
    {body rest : List UInt8} (hcontent : ((d.files fd.file).getD []).drop fd.offset = frame body ++ rest)
    (hbody : body.length ≤ 2 ^ 48) {dcod : List D} (hdec : env.codec.decode body = .ok dcod)
    (hshort : dcod.length ≤ fs.keySize + fs.valSize) :
    (fs.fetchNextRow env d index).1 = .error (.panic "index out of range") := by
  obtain ⟨h1, d₂, h2, -⟩ := read_frame hf hc hcontent
  have hbound : ¬((body.length : Int) < 0 ∨ 2 ^ 48 < (body.length : Int)) := by omega
  simp only [fetchNextRow_of_fd hfd, readRecord, h1, length_putUint64, int64OfUint64_putUint64 hbody,
    ne_eq, not_true_eq_false, if_false, hbound, Int.toNat_natCast, h2, hdec,
    List.getElem?_eq_none hshort]

/-- `fetchNextRow` panics on malformed run files. A file holding only the header
`80 00 00 00 00 00 00 00` declares the length `-2^63`, and `make` panics; a file holding a record
of one byte decodes to one datum, fewer than the key, the value and the handle, and the slice
expressions panic. -/
theorem fetchNextRow_panics_on_malformed_records :
    (({ (smallBuilder 1).fresh with fds := [⟨0, 0, false⟩] } : FileSorter Int).fetchNextRow
        (byteEnv fun _ => none) ⟨fun _ => some [128, 0, 0, 0, 0, 0, 0, 0], 0⟩ 0).1 =
        .error (.panic "makeslice: len out of range") ∧
      (({ (smallBuilder 1).fresh with fds := [⟨0, 0, false⟩] } : FileSorter Int).fetchNextRow
        (byteEnv fun _ => none) ⟨fun _ => some (frame [5]), 0⟩ 0).1 =
        .error (.panic "index out of range") :=
  ⟨@fetchNextRow_negative_length_panics _ _ (fun _ => rfl) _ _ _ _ rfl rfl
      [128, 0, 0, 0, 0, 0, 0, 0] [] rfl rfl (by decide),
    @fetchNextRow_short_body_panics _ _ (fun _ => rfl) _ _ _ _ rfl rfl [5] [] rfl (by decide) _ rfl
      (by decide)⟩

/-- The row-by-row read: from a descriptor `fds[index]` positioned where the records of `rows`
start, `rows.length + 1` fetches return the rows and then end of file. -/
theorem fetchRun_of_drop (hf : env.FaultFree) {fs : FileSorter D} (index : Nat) {rows : List (ComparableRow D)}
    (hrows : ∀ row ∈ rows, env.codec.RoundTrips row ∧ row.key.length = fs.keySize ∧
      row.val.length = fs.valSize) {bytes : List UInt8} (henc : encodeRows env.codec rows = .ok bytes)
    {d : Disk} {fd : Fd} (hfd : fs.fds[index]? = some fd) (hc : fd.closed = false)
    (hcontent : ((d.files fd.file).getD []).drop fd.offset = bytes) :
    (fs.fetchRun env d index (rows.length + 1)).1 = rows.map (fun row => .ok (some row)) ++ [.ok none] := by
  induction rows generalizing fs d fd bytes with
  | nil =>
    cases henc
    simp [fetchRun, fetchNextRow, hfd, readRecord_end hf hc (List.drop_eq_nil_iff.1 hcontent)]
  | cons row rows ih =>
    obtain ⟨hrt, hk, hv⟩ := hrows row (List.mem_cons_self _ _)
    simp only [encodeRows] at henc
    split at henc; · cases henc
    rename_i body hbody
    split at henc; · cases henc
    rename_i rest hrest
    cases henc
    obtain ⟨h1, h2, h3⟩ := readRecord_frame hf hc hcontent hbody hrt hk hv
    have hlt : index < fs.fds.length := (List.getElem?_eq_some_iff.1 hfd).1
    rw [List.length_cons, fetchRun, fetchNextRow_of_fd hfd, h1, List.map_cons, List.cons_append]
    dsimp only
    congr 1
    refine @ih _ ?_ _ hrest _ { fd with offset := fd.offset + 8 + body.length } ?_ hc ?_
    · exact fun r hr => hrows r (List.mem_cons_of_mem _ hr)
    · simp [h2, List.getElem?_set_self hlt]
    · dsimp only
      rw [h3, Nat.add_assoc, ← List.drop_drop, hcontent]
      exact List.drop_left' (by simp [frame])

end FileSorter

end Gleam.FileSort
