import NativeImage.Handle
import NativeImage.Object.Data

/-!
# Region layout

A region is a run of table entries between a start and an end symbol. The runtime divides the
distance of the two symbols by the size of an entry, so entries are packed back to back. An entry
that would lie misaligned is refused; no padding is ever inserted.

## Main definitions

- `RegionMember` — an entry before it is placed
- `RegionLayout.build` — the layout of the entries in the given order, or why there is none
- `RegionLayout.elementCount` — the number of entries the runtime will see
-/

namespace NativeImage

/-- Why entries cannot be laid out. -/
inductive RegionError
  /-- The entry needs more alignment than the region has, or than its offset has. -/
  | misaligned (region child : String) (offset alignment : Nat)
  /-- The region would end past the largest 32-bit offset. -/
  | overflow (region : String)
  deriving DecidableEq, Repr

def RegionError.message : RegionError → String
  | misaligned region child offset alignment =>
    s!"child `{child}` of region `{region}` needs {alignment}-byte alignment " ++
      s!"but would start at offset {offset}"
  | overflow region => s!"region `{region}` exceeds 4 GiB"

/-- An entry before it is placed. Alignment zero asks for nothing. -/
structure RegionMember where
  node : NodeId
  symbol : String
  size : Nat
  alignment : Nat
  deriving DecidableEq, Repr

/-- A placed entry. -/
structure RegionChild where
  node : NodeId
  symbol : String
  offset : Nat
  size : Nat
  deriving DecidableEq, Repr

structure RegionLayout where
  node : NodeId
  startSymbol : String
  endSymbol : String
  alignment : Nat
  children : List RegionChild
  /-- Distance of the end symbol from the start symbol. -/
  endOffset : Nat
  deriving DecidableEq, Repr

/-- A member may start at `offset` if a region with this alignment puts it at a multiple of its
own. -/
def RegionMember.Fits (alignment offset : Nat) (member : RegionMember) : Prop :=
  member.alignment ≤ alignment ∧ (member.alignment = 0 ∨ member.alignment ∣ offset)

instance (alignment offset : Nat) (member : RegionMember) :
    Decidable (member.Fits alignment offset) :=
  inferInstanceAs (Decidable (_ ∧ _))

namespace RegionLayout

/-- Place members one behind the other from `offset` on; the second result is where the last one
ends. Alignment is tested before the size is added. -/
def place (region : String) (alignment : Nat) :
    (offset : Nat) → List RegionMember → Except RegionError (List RegionChild × Nat)
  | offset, [] => .ok ([], offset)
  | offset, member :: rest =>
    if ¬ member.Fits alignment offset then
      .error (.misaligned region member.symbol offset member.alignment)
    else if maxWord32 < offset + member.size then
      .error (.overflow region)
    else
      match place region alignment (offset + member.size) rest with
      | .error e => .error e
      | .ok (children, stop) =>
        .ok (⟨member.node, member.symbol, offset, member.size⟩ :: children, stop)

/-- Lay out the members in the given order. -/
def build (node : NodeId) (startSymbol endSymbol : String) (alignment : Nat)
    (members : List RegionMember) : Except RegionError RegionLayout :=
  match place startSymbol alignment 0 members with
  | .error e => .error e
  | .ok (children, stop) => .ok ⟨node, startSymbol, endSymbol, alignment, children, stop⟩

/-- Entries of `elementSize` bytes the runtime will see. An entry size of zero counts nothing. -/
def elementCount (layout : RegionLayout) (elementSize : Nat) : Nat :=
  layout.endOffset / elementSize

end RegionLayout

end NativeImage
