/-!
# Pointer series

The collector learns where the object references of a statics block are from *series*: maximal runs
of adjacent slots, each given by its size and its offset in bytes.

## Main definitions

- `SlotRun` — adjacent slots
- `SlotRun.cover` — the maximal runs of an ascending list of slots
- `pointerSeries` — the series of any list of slots, in ascending order
-/

namespace NativeImage

/-- The slots `start`, `start + 1`, …, `start + length - 1`. -/
structure SlotRun where
  start : Nat
  length : Nat
  deriving DecidableEq, Repr

namespace SlotRun

/-- Put `slot` before runs that start no earlier: it is there already, extends the first run, or
starts a run of its own. -/
def prepend (slot : Nat) : List SlotRun → List SlotRun
  | [] => [⟨slot, 1⟩]
  | run :: runs =>
    if run.start = slot then run :: runs
    else if run.start = slot + 1 then ⟨slot, run.length + 1⟩ :: runs
    else ⟨slot, 1⟩ :: run :: runs

/-- The maximal runs of an ascending list of slots. -/
def cover (ascending : List Nat) : List SlotRun :=
  ascending.foldr prepend []

/-- Bytes the run covers. -/
def byteSize (pointerSize : Nat) (run : SlotRun) : Nat := run.length * pointerSize

/-- Bytes before the run. -/
def byteOffset (pointerSize : Nat) (run : SlotRun) : Nat := run.start * pointerSize

end SlotRun

/-- The maximal runs of a list of slots given in any order, repetitions allowed. -/
def slotRuns (slots : List Nat) : List SlotRun :=
  SlotRun.cover (slots.mergeSort (· ≤ ·))

/-- Size and offset in bytes of each maximal run. -/
def pointerSeries (pointerSize : Nat) (slots : List Nat) : List (Nat × Nat) :=
  (slotRuns slots).map fun run => (run.byteSize pointerSize, run.byteOffset pointerSize)

/-- Slots of the block that holds `slots`: one more than the largest, none for an empty list. -/
def slotCount (slots : List Nat) : Nat :=
  slots.foldl (fun count slot => max count (slot + 1)) 0

end NativeImage
