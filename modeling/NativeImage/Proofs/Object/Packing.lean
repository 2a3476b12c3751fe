import Mathlib.Algebra.BigOperators.Ring.List
import Mathlib.Algebra.Ring.Nat
import NativeImage.Object.PointerSeries
import NativeImage.Object.Region

/-!
# What fits

Series of a block lie in the block. Entries that share an alignment which divides all their sizes
lie aligned when they are packed back to back, so a region refuses them only if it is too large.

## Main statements

- `SlotRun.end_le_slotCount` — every run of slots ends within the block
- `RegionLayout.exists_place` — entries of one alignment can be placed
-/

namespace NativeImage

/-! ## Runs of slots -/

theorem le_foldl_slotCount (slots : List Nat) (count : Nat) :
    count ≤ slots.foldl (fun count slot => max count (slot + 1)) count := by
  induction slots generalizing count with
  | nil => exact Nat.le_refl count
  | cons slot rest ih => exact Nat.le_trans (Nat.le_max_left _ _) (ih _)

/-- The block has every slot. -/
theorem lt_slotCount_of_mem {slots : List Nat} {slot : Nat} (h : slot ∈ slots) :
    slot < slotCount slots := by
  rw [slotCount]
  generalize 0 = count
  induction slots generalizing count with
  | nil => cases h
  | cons head rest ih =>
    rcases List.mem_cons.1 h with rfl | hrest
    · exact Nat.lt_of_lt_of_le (Nat.le_max_right count (slot + 1)) (le_foldl_slotCount rest _)
    · exact ih hrest _

namespace SlotRun

/-- Putting a slot below a bound before runs that end within it keeps them within it. -/
theorem end_le_of_mem_prepend {slot bound : Nat} {runs : List SlotRun} (hslot : slot < bound)
    (hruns : ∀ run ∈ runs, run.start + run.length ≤ bound) :
    ∀ run ∈ prepend slot runs, run.start + run.length ≤ bound := by
  cases runs with
  | nil => exact List.forall_mem_singleton.2 hslot
  | cons first rest =>
    obtain ⟨hfirst, hrest⟩ := List.forall_mem_cons.1 hruns
    rw [prepend]
    split
    · exact hruns
    · split
      · next hnext =>
        refine List.forall_mem_cons.2 ⟨?_, hrest⟩
        dsimp only
        omega
      · exact List.forall_mem_cons.2 ⟨hslot, hruns⟩

theorem end_le_of_mem_cover {slots : List Nat} {bound : Nat}
    (hslots : ∀ slot ∈ slots, slot < bound) :
    ∀ run ∈ cover slots, run.start + run.length ≤ bound := by
  induction slots with
  | nil => exact nofun
  | cons slot rest ih =>
    obtain ⟨hslot, hrest⟩ := List.forall_mem_cons.1 hslots
    exact end_le_of_mem_prepend hslot (ih hrest)

/-- Every run of slots ends within the block that holds the slots. -/
theorem end_le_slotCount {slots : List Nat} {run : SlotRun} (h : run ∈ slotRuns slots) :
    run.start + run.length ≤ slotCount slots := by
  refine end_le_of_mem_cover (fun slot hslot => ?_) run h
  exact lt_slotCount_of_mem ((List.mergeSort_perm _ _).mem_iff.1 hslot)

end SlotRun

/-- Size and offset of every series are at most the size of the block. -/
theorem le_of_mem_pointerSeries {pointerSize : Nat} {slots : List Nat} {series : Nat × Nat}
    (h : series ∈ pointerSeries pointerSize slots) :
    series.1 ≤ slotCount slots * pointerSize ∧ series.2 ≤ slotCount slots * pointerSize := by
  obtain ⟨run, hrun, rfl⟩ := List.mem_map.1 h
  have hend := SlotRun.end_le_slotCount hrun
  exact ⟨Nat.mul_le_mul_right _ (by omega), Nat.mul_le_mul_right _ (by omega)⟩

/-! ## Sizes -/

/-- Data is a whole number of units long if each of its steps is. -/
theorem ObjectData.dvd_size_assemble {pointerSize alignment unit : Nat} {steps : List Emission}
    (h : ∀ step ∈ steps, unit ∣ (step.encode pointerSize).length) :
    unit ∣ (assemble pointerSize alignment steps).size := by
  rw [size, assemble_bytes, List.length_flatMap]
  refine List.dvd_sum fun size hsize => ?_
  obtain ⟨step, hstep, rfl⟩ := List.mem_map.1 hsize
  exact h step hstep

/-! ## Regions -/

/-- Bytes of the members of a region. -/
def totalSize (members : List RegionMember) : Nat := (members.map (·.size)).sum

/-- Members of one alignment, which divides their sizes, lie aligned one behind the other. -/
theorem RegionLayout.exists_place (region : String) {alignment unit offset : Nat}
    {members : List RegionMember} (hunit : unit ≤ alignment) (hoffset : unit ∣ offset)
    (hmembers : ∀ member ∈ members, member.alignment = unit ∧ unit ∣ member.size)
    (hsize : offset + totalSize members ≤ maxWord32) :
    ∃ placed, place region alignment offset members = .ok placed := by
  induction members generalizing offset with
  | nil => exact ⟨_, rfl⟩
  | cons member rest ih =>
    obtain ⟨⟨halign, hdvd⟩, hrest⟩ := List.forall_mem_cons.1 hmembers
    rw [totalSize, List.map_cons, List.sum_cons, ← Nat.add_assoc] at hsize
    have hfits : member.Fits alignment offset := by
      rw [RegionMember.Fits, halign]
      exact ⟨hunit, .inr hoffset⟩
    have hsmall : ¬ maxWord32 < offset + member.size := by omega
    obtain ⟨placed, hplaced⟩ := ih (Nat.dvd_add hoffset hdvd) hrest hsize
    rw [place, if_neg (not_not_intro hfits), if_neg hsmall, hplaced]
    exact ⟨_, rfl⟩

/-- Such members can be laid out. -/
theorem RegionLayout.exists_build (node : NodeId) (startSymbol endSymbol : String)
    {alignment unit : Nat} {members : List RegionMember} (hunit : unit ≤ alignment)
    (hmembers : ∀ member ∈ members, member.alignment = unit ∧ unit ∣ member.size)
    (hsize : totalSize members ≤ maxWord32) :
    ∃ layout, build node startSymbol endSymbol alignment members = .ok layout := by
  obtain ⟨placed, hplaced⟩ := exists_place startSymbol hunit (Nat.dvd_zero unit) hmembers
    (Nat.le_trans (Nat.le_of_eq (Nat.zero_add _)) hsize)
  rw [build, hplaced]
  exact ⟨_, rfl⟩

/-- A single member lies at the start, whatever its size. -/
theorem RegionLayout.exists_build_single (node : NodeId) (startSymbol endSymbol : String)
    {alignment : Nat} {members : List RegionMember} (hlength : members.length ≤ 1)
    (hmembers : ∀ member ∈ members, member.alignment ≤ alignment)
    (hsize : totalSize members ≤ maxWord32) :
    ∃ layout, build node startSymbol endSymbol alignment members = .ok layout := by
  cases members with
  | nil => exact ⟨_, rfl⟩
  | cons member rest =>
    obtain rfl : rest = [] := List.eq_nil_of_length_eq_zero (Nat.le_zero.1 (by simpa using hlength))
    have hfits : member.Fits alignment 0 :=
      ⟨hmembers member List.mem_cons_self, .inr (Nat.dvd_zero _)⟩
    have hsmall : ¬ maxWord32 < 0 + member.size := by
      rw [totalSize, List.map_singleton, List.sum_singleton] at hsize
      omega
    rw [build, place, if_neg (not_not_intro hfits), if_neg hsmall]
    exact ⟨_, rfl⟩

end NativeImage
