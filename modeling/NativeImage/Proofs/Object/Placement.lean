import Mathlib.Algebra.Ring.Nat
import Mathlib.Data.List.Forall2
import Mathlib.Data.List.TakeWhile
import NativeImage.Object.Region

/-!
# Where entries lie

A region that has been laid out has its members as entries, in their order. They lie back to back
from the start of the region to its end, so that the runtime counts them right if they all have the
size it divides by.

## Main definitions

- `RegionChild.Places` — an entry that a member has been placed as
- `RegionLayout.Packed` — entries that lie back to back

## Main statements

- `RegionLayout.build_spec` — entries of a region that has been laid out
- `RegionLayout.Packed.elementCount_eq` — what the runtime counts
-/

namespace NativeImage

/-- The entry is the member, wherever it lies. -/
structure RegionChild.Places (child : RegionChild) (member : RegionMember) : Prop where
  node : child.node = member.node
  symbol : child.symbol = member.symbol
  size : child.size = member.size

namespace RegionLayout

/-- Each entry starts behind all earlier ones, and the region ends behind the last one. -/
structure Packed (layout : RegionLayout) : Prop where
  offset : ∀ (i : Nat) (h : i < layout.children.length),
    layout.children[i].offset = ((layout.children.take i).map (·.size)).sum
  endOffset : layout.endOffset = (layout.children.map (·.size)).sum

variable {region : String} {alignment offset stop : Nat} {members : List RegionMember}
  {children : List RegionChild}

/-- Members are placed in their order, one behind the other. -/
theorem place_spec (h : place region alignment offset members = .ok (children, stop)) :
    List.Forall₂ RegionChild.Places children members ∧
    (∀ (i : Nat) (hi : i < children.length),
      children[i].offset = offset + ((children.take i).map (·.size)).sum) ∧
    stop = offset + (children.map (·.size)).sum := by
  induction members generalizing offset children with
  | nil =>
    cases h
    exact ⟨.nil, nofun, rfl⟩
  | cons member rest ih =>
    rw [place] at h
    split at h
    · cases h
    · split at h
      · cases h
      · split at h
        · cases h
        · next later last hlater =>
          cases h
          obtain ⟨hplaces, hoffsets, hstop⟩ := ih hlater
          -- the rest was placed from where this member ends
          refine ⟨.cons ⟨rfl, rfl, rfl⟩ hplaces, fun i hi => ?_, ?_⟩
          · cases i with
            | zero => rfl
            | succ i =>
              have hi' : i < later.length := Nat.lt_of_succ_lt_succ hi
              rw [List.getElem_cons_succ, hoffsets i hi', List.take_succ_cons, List.map_cons,
                List.sum_cons, Nat.add_assoc]
          · rw [hstop, List.map_cons, List.sum_cons, Nat.add_assoc]

/-- The entries of a region that has been laid out. -/
theorem build_spec {node : NodeId} {startSymbol endSymbol : String} {layout : RegionLayout}
    (h : build node startSymbol endSymbol alignment members = .ok layout) :
    layout.node = node ∧ layout.startSymbol = startSymbol ∧ layout.endSymbol = endSymbol ∧
      List.Forall₂ RegionChild.Places layout.children members ∧ layout.Packed := by
  rw [build] at h
  split at h
  · cases h
  · next placed stop hplaced =>
    cases h
    obtain ⟨hplaces, hoffsets, hstop⟩ := place_spec hplaced
    refine ⟨rfl, rfl, rfl, hplaces, fun i hi => ?_, ?_⟩
    · rw [hoffsets i hi, Nat.zero_add]
    · rw [hstop, Nat.zero_add]

/-- If all entries have the size it divides by, the runtime sees each of them and nothing else. -/
theorem Packed.elementCount_eq {layout : RegionLayout} (h : layout.Packed) {size : Nat}
    (hpos : 0 < size) (hsize : ∀ child ∈ layout.children, child.size = size) :
    layout.elementCount size = layout.children.length := by
  have hsum : (layout.children.map (·.size)).sum = layout.children.length * size := by
    rw [List.map_congr_left hsize, List.map_const', List.sum_replicate_nat]
  rw [elementCount, h.endOffset, hsum, Nat.mul_div_cancel _ hpos]

end RegionLayout

end NativeImage
