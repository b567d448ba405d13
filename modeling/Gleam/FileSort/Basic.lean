import Mathlib.Data.List.Basic
import Mathlib.Data.List.Pairwise

/-!
# File sort: rows, comparison and failures

The data model of `sql/util/filesort`: the rows the sorter orders and persists, the
column-by-column comparison `lessThan`, and the `Less` method through which `sort.Sort` and
`container/heap` see it. `Less` cannot return an error, so the Go code records the first
comparison failure in an `err` field and checks it after each sort or heap step;
`captureLess` is that pattern.

Datums are a type parameter `D`. `CompareDatum` is a parameter `compareDatum` returning the
comparison's sign or an error message; nothing here assumes more of it.

The ordering facts the sort and the merge need are stated once, as `StrictWeakOn`: the
verdict of `Less` is a strict weak order on the rows in play. The lemmas below derive the
transitivity of "not less" from it, which is what both a sorted prefix and a heap path use.

## Main definitions

* `Failure`: a call ends with an error value or a Go panic.
* `ComparableRow`, `Item`: the sorter's rows, and rows tagged with their run file.
* `lessThan`, `captureLess`: the comparison, and `Less` with its error capture.
* `StrictWeakOn`, `SortedBy`: the order `sort.Sort` and `container/heap` require, and the
  sortedness they produce.
-/

namespace Gleam.FileSort

/-- How a Go call ends when it does not return normally: an error value, or a panic. -/
inductive Failure where
  | error (msg : String)
  | panic (msg : String)
  deriving DecidableEq, Repr

/-- `comparableRow`: the unit the sorter orders and persists. -/
structure ComparableRow (D : Type) where
  /-- The key columns, compared by `lessThan`. -/
  key : List D
  /-- The value columns, carried along. -/
  val : List D
  /-- The row handle, an `int64` identity. -/
  handle : Int
  deriving DecidableEq, Repr

/-- `item`: a row in the merge heap with the index of the run file it was read from. -/
structure Item (D : Type) where
  /-- Index of the source run file in `fds`. -/
  index : Nat
  /-- The row read from that file. -/
  value : ComparableRow D
  deriving DecidableEq, Repr

variable {D : Type}

/-- `lessThan(sc, i, j, byDesc)`: the first column `k` where `CompareDatum` is non-zero decides,
negated when `byDesc[k]`; equal keys are not less. The Go loop ranges over `byDesc` and indexes
both keys, which every caller sizes to `len(byDesc)`. -/
def lessThan (compareDatum : D → D → Except String Int) :
    List Bool → List D → List D → Except String Bool
  | desc :: byDesc, v1 :: i, v2 :: j =>
    match compareDatum v1 v2 with
    | .error e => .error e
    | .ok ret =>
      let ret := if desc then -ret else ret
      if ret < 0 then .ok true
      else if 0 < ret then .ok false
      else lessThan compareDatum byDesc i j
  | _, _, _ => .ok false

/-- The `Less` methods of `FileSorter` and `rowHeap`: return the verdict of `lessThan`, which is
`false` when it fails, and record its error in `err` unless one is recorded already. -/
def captureLess (r : Except String Bool) (err : Option String) : Bool × Option String :=
  match r with
  | .ok b => (b, err)
  | .error e => (false, err.or (some e))

/-- The verdict `captureLess` returns, whatever error was recorded before. -/
def verdict (r : Except String Bool) : Bool := (captureLess r none).1

@[simp] theorem captureLess_fst (r : Except String Bool) (err : Option String) :
    (captureLess r err).1 = verdict r := by
  cases r <;> rfl

/-- A recorded error stays recorded. -/
theorem captureLess_snd_isSome {r : Except String Bool} {err : Option String}
    (h : err.isSome) : (captureLess r err).2 = err := by
  cases r <;> cases err <;> simp_all [captureLess]

/-- A successful comparison records nothing. -/
@[simp] theorem captureLess_ok (b : Bool) (err : Option String) :
    captureLess (.ok b) err = (b, err) := rfl

section Order

variable {α : Type} (lt : α → α → Bool) (S : α → Prop)

/-- `lt` is a strict weak order on the elements satisfying `S`: what `sort.Sort` and
`container/heap` require of `Less`. Negative transitivity is the form the proofs use. -/
structure StrictWeakOn : Prop where
  irrefl : ∀ a, S a → lt a a = false
  trans : ∀ a b c, S a → S b → S c → lt a b = true → lt b c = true → lt a c = true
  negTrans : ∀ a b c, S a → S b → S c → lt a c = true → lt a b = true ∨ lt b c = true

/-- `l` is sorted for `lt`: no element is less than one before it. -/
def SortedBy (l : List α) : Prop := l.Pairwise fun a b => lt b a = false

variable {lt S}

/-- "Not less" is transitive on a strict weak order. -/
theorem StrictWeakOn.not_lt_trans (h : StrictWeakOn lt S) {a b c : α} (ha : S a) (hb : S b)
    (hc : S c) (hab : lt b a = false) (hbc : lt c b = false) : lt c a = false := by
  cases hca : lt c a
  · rfl
  · rcases h.negTrans c b a hc hb ha hca with h' | h' <;> simp_all

/-- Incomparability is transitive on a strict weak order. -/
theorem StrictWeakOn.incomp_trans (h : StrictWeakOn lt S) {a b c : α} (ha : S a) (hb : S b)
    (hc : S c) (hab : lt a b = false ∧ lt b a = false) (hbc : lt b c = false ∧ lt c b = false) :
    lt a c = false ∧ lt c a = false :=
  ⟨h.not_lt_trans hc hb ha hbc.1 hab.1, h.not_lt_trans ha hb hc hab.2 hbc.2⟩

/-- A strict weak order is asymmetric. -/
theorem StrictWeakOn.asymm (h : StrictWeakOn lt S) {a b : α} (ha : S a) (hb : S b)
    (hab : lt a b = true) : lt b a = false := by
  cases hba : lt b a
  · rfl
  · have := h.trans a b a ha hb ha hab hba
    rw [h.irrefl a ha] at this
    exact absurd this Bool.false_ne_true

/-- A strict weak order on `S` is one on every smaller set. -/
theorem StrictWeakOn.mono (h : StrictWeakOn lt S) {S' : α → Prop} (hS : ∀ a, S' a → S a) :
    StrictWeakOn lt S' where
  irrefl a ha := h.irrefl a (hS a ha)
  trans a b c ha hb hc := h.trans a b c (hS a ha) (hS b hb) (hS c hc)
  negTrans a b c ha hb hc := h.negTrans a b c (hS a ha) (hS b hb) (hS c hc)

end Order

end Gleam.FileSort
