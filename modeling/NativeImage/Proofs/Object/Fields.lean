import Mathlib.Algebra.Order.Ring.Nat
import Mathlib.Data.List.Basic
import Mathlib.Data.List.Induction
import NativeImage.Object.Data

/-!
# Fields of object data

A payload is written step by step, and what a step writes lies where the bytes of the earlier steps
end. There a number is read back, and there the relocation of a reference is found, over the zeros
that its step has written.

## Main definitions

- `fromLittleEndian` — the number that bytes stand for, lowest first
- `RelocationKind.width` — bytes of the field that a relocation fills in
- `Emission.relocationOf?` — the relocation that one of the steps leaves
- `ObjectData.word?`, `ObjectData.relocationAt?` — reading a number, or the relocation of a field
- `ObjectData.WrittenBy` — the data that steps have written

## Main statements

- `ObjectData.assemble_relocations` — which relocations there are, and where
- `ObjectData.word?_assemble`, `ObjectData.relocationAt?_assemble` — what is read where a step began
- `ObjectData.mapM_rows` — a table is read row by row
- `ObjectData.assemble_writtenBy` — all of this in one statement
-/

namespace NativeImage

/-! ## Numbers -/

/-- The number that bytes stand for, lowest first. -/
def fromLittleEndian : List UInt8 → Nat
  | [] => 0
  | byte :: rest => byte.toNat + 256 * fromLittleEndian rest

/-- A number is read back, as far as it fits its width. -/
theorem fromLittleEndian_littleEndian (width value : Nat) :
    fromLittleEndian (littleEndian width value) = value % 256 ^ width := by
  induction width generalizing value with
  | zero => rw [littleEndian, fromLittleEndian, pow_zero, Nat.mod_one]
  | succ width ih =>
    rw [littleEndian, fromLittleEndian, ih, UInt8.toNat_ofNat', pow_succ' 256 width, Nat.mod_mul]

/-! ## Steps -/

/-- Bytes of the field that a relocation fills in. -/
def RelocationKind.width (pointerSize : Nat) : RelocationKind → Nat
  | pointer => pointerSize
  | sectionRelative => 4

namespace Emission

variable {pointerSize i j : Nat} {step : Emission} {steps before after : List Emission}

/-- Bytes that the steps write. -/
def extent (pointerSize : Nat) (steps : List Emission) : Nat :=
  (steps.flatMap (encode pointerSize)).length

@[simp] theorem extent_nil (pointerSize : Nat) : extent pointerSize [] = 0 := rfl

@[simp] theorem extent_cons (pointerSize : Nat) (step : Emission) (steps : List Emission) :
    extent pointerSize (step :: steps) =
      (step.encode pointerSize).length + extent pointerSize steps := by
  simp [extent]

@[simp] theorem extent_append (pointerSize : Nat) (before after : List Emission) :
    extent pointerSize (before ++ after) =
      extent pointerSize before + extent pointerSize after := by
  simp [extent]

/-- What belongs to one entry of a list lies between what belongs to the others. -/
theorem flatMap_eq_append {α β : Type} {list : List α} {a : α} (h : list[i]? = some a)
    (f : α → List β) :
    list.flatMap f = (list.take i).flatMap f ++ (f a ++ (list.drop (i + 1)).flatMap f) := by
  obtain ⟨hi, rfl⟩ := List.getElem?_eq_some_iff.1 h
  rw [← List.flatMap_cons, ← List.flatMap_append, List.getElem_cons_drop, List.take_append_drop]

theorem extent_take_mono (pointerSize : Nat) (steps : List Emission) (hij : i ≤ j) :
    extent pointerSize (steps.take i) ≤ extent pointerSize (steps.take j) := by
  obtain ⟨rest, hrest⟩ := List.take_prefix_take_left (l := steps) hij
  rw [← hrest, extent_append]
  exact Nat.le_add_right _ _

theorem extent_take_succ (h : steps[i]? = some step) :
    extent pointerSize (steps.take (i + 1)) =
      extent pointerSize (steps.take i) + (step.encode pointerSize).length := by
  obtain ⟨hi, rfl⟩ := List.getElem?_eq_some_iff.1 h
  rw [List.take_succ_eq_append_getElem hi, extent_append, extent_cons, extent_nil, Nat.add_zero]

theorem extent_take_le (pointerSize : Nat) (steps : List Emission) (i : Nat) :
    extent pointerSize (steps.take i) ≤ extent pointerSize steps := by
  rcases Nat.le_total i steps.length with hi | hi
  · simpa using extent_take_mono pointerSize steps hi
  · rw [List.take_of_length_le hi]

/-- A reference writes the zeros of its field. -/
theorem encode_of_reference? {kind : RelocationKind} {target : String}
    (h : step.reference? = some (kind, target)) :
    step.encode pointerSize = List.replicate (kind.width pointerSize) 0 := by
  cases step with
  | pointer name => cases h; rfl
  | sectionOffset name => cases h; rfl
  | _ => cases h

/-- The relocation that the step at a position leaves, if it is a reference: it starts where the
earlier steps end. -/
def relocationOf? (pointerSize : Nat) (steps : List Emission) (i : Nat) : Option Relocation :=
  (steps[i]?.bind reference?).map fun (kind, target) =>
    ⟨extent pointerSize (steps.take i), kind, target⟩

theorem relocationOf?_eq_some {relocation : Relocation} :
    relocationOf? pointerSize steps i = some relocation ↔
      ∃ step, steps[i]? = some step ∧
        step.reference? = some (relocation.kind, relocation.target) ∧
        relocation.offset = extent pointerSize (steps.take i) := by
  rw [relocationOf?, Option.map_eq_some_iff]
  constructor
  · rintro ⟨⟨kind, target⟩, hbind, rfl⟩
    obtain ⟨step, hstep, href⟩ := Option.bind_eq_some_iff.1 hbind
    exact ⟨step, hstep, href, rfl⟩
  · rintro ⟨step, hstep, href, hoffset⟩
    exact ⟨_, Option.bind_eq_some_iff.2 ⟨step, hstep, href⟩, by rw [← hoffset]⟩

end Emission

/-! ## What has been written -/

namespace ObjectData

open Emission

variable {pointerSize alignment i : Nat} {step : Emission} {steps : List Emission}

/-- One more step is emitted at the end. -/
theorem assemble_concat (pointerSize alignment : Nat) (init : List Emission) (last : Emission) :
    assemble pointerSize alignment (init ++ [last]) =
      emit pointerSize (assemble pointerSize alignment init) last := by
  rw [assemble, List.foldl_append, assemble]
  rfl

theorem size_assemble (pointerSize alignment : Nat) (steps : List Emission) :
    (assemble pointerSize alignment steps).size = extent pointerSize steps := by
  rw [size, assemble_bytes, extent]

/-- Each reference among the steps leaves one relocation, and nothing else leaves any. -/
theorem assemble_relocations (pointerSize alignment : Nat) (steps : List Emission)
    (hsize : extent pointerSize steps ≤ maxWord32) :
    (assemble pointerSize alignment steps).relocations =
      (List.range steps.length).filterMap (relocationOf? pointerSize steps) := by
  -- on the last step: it is recorded where the data it is appended to ends
  induction steps using List.reverseRecOn with
  | nil => rfl
  | append_singleton init last ih =>
    rw [extent_append] at hsize
    have hinit := ih (by omega)
    have hold : ∀ i ∈ List.range init.length,
        relocationOf? pointerSize (init ++ [last]) i = relocationOf? pointerSize init i := by
      intro i hi
      have hlt := List.mem_range.1 hi
      rw [relocationOf?, relocationOf?, List.getElem?_append_left hlt,
        List.take_append_of_le_length hlt.le]
    have hnew : relocationOf? pointerSize (init ++ [last]) init.length =
        last.reference?.map fun (kind, target) => ⟨extent pointerSize init, kind, target⟩ := by
      simp [relocationOf?]
    have hoffset : min (assemble pointerSize alignment init).bytes.length maxWord32 =
        extent pointerSize init := by
      have hbytes := size_assemble pointerSize alignment init
      rw [size] at hbytes
      omega
    rw [assemble_concat, emit, hoffset, List.length_append, List.length_singleton,
      List.range_succ, List.filterMap_append, List.filterMap_congr hold, ← hinit]
    cases href : last.reference? with
    | none => simp [hnew, href]
    | some reference => simp [hnew, href]

/-- The relocations are of what the steps refer to. -/
theorem assemble_references (pointerSize alignment : Nat) (steps : List Emission) :
    (assemble pointerSize alignment steps).relocations.map
      (fun found => (found.kind, found.target)) =
        steps.filterMap reference? := by
  induction steps using List.reverseRecOn with
  | nil => rfl
  | append_singleton init last ih =>
    rw [assemble_concat, emit, List.filterMap_append, ← ih]
    cases href : last.reference? with
    | none => simp [href]
    | some reference => simp [href]

/-- What a step has written lies where the earlier steps end. -/
theorem field_assemble (pointerSize alignment : Nat) (h : steps[i]? = some step) :
    ((assemble pointerSize alignment steps).bytes.drop (extent pointerSize (steps.take i))).take
      (step.encode pointerSize).length = step.encode pointerSize := by
  rw [assemble_bytes, flatMap_eq_append h, extent, List.drop_left, List.take_left]

/-! ## Reading -/

/-- The number in `width` bytes at an offset; none if the data ends before them. -/
def word? (data : ObjectData) (width offset : Nat) : Option Nat :=
  if offset + width ≤ data.size then
    some (fromLittleEndian ((data.bytes.drop offset).take width))
  else none

/-- The relocation of the field that starts at an offset. -/
def relocationAt? (data : ObjectData) (offset : Nat) : Option Relocation :=
  data.relocations.find? (·.offset = offset)

theorem extent_add_le_size (pointerSize alignment : Nat) (h : steps[i]? = some step) :
    extent pointerSize (steps.take i) + (step.encode pointerSize).length ≤
      (assemble pointerSize alignment steps).size := by
  rw [← extent_take_succ h, size_assemble]
  exact extent_take_le pointerSize steps (i + 1)

/-- What a step has written is read as a number where the step began. -/
theorem word?_field (pointerSize alignment : Nat) (h : steps[i]? = some step) :
    (assemble pointerSize alignment steps).word? (step.encode pointerSize).length
      (extent pointerSize (steps.take i)) = some (fromLittleEndian (step.encode pointerSize)) := by
  rw [word?, if_pos (extent_add_le_size pointerSize alignment h),
    field_assemble pointerSize alignment h]

/-- A number is read where its step began. -/
theorem word?_assemble {width value : Nat} (pointerSize alignment : Nat)
    (h : steps[i]? = some (.number width value)) :
    (assemble pointerSize alignment steps).word? width (extent pointerSize (steps.take i)) =
      some (value % 256 ^ width) := by
  have hlength : ((Emission.number width value).encode pointerSize).length = width :=
    length_littleEndian width value
  have hword := word?_field pointerSize alignment h
  rwa [hlength, encode, fromLittleEndian_littleEndian] at hword

/-- The relocation of a field is found where its step began, if the step is a reference; over any
other field none is found. -/
theorem relocationAt?_assemble (alignment : Nat) (hpointer : 0 < pointerSize)
    (hsize : extent pointerSize steps ≤ maxWord32) (h : steps[i]? = some step)
    (hpos : 0 < (step.encode pointerSize).length) :
    (assemble pointerSize alignment steps).relocationAt? (extent pointerSize (steps.take i)) =
      relocationOf? pointerSize steps i := by
  have hunique : ∀ relocation ∈ (assemble pointerSize alignment steps).relocations,
      relocation.offset = extent pointerSize (steps.take i) →
        relocationOf? pointerSize steps i = some relocation := by
    intro relocation hmem hoffset
    rw [assemble_relocations pointerSize alignment steps hsize] at hmem
    obtain ⟨j, -, hj⟩ := List.mem_filterMap.1 hmem
    obtain ⟨other, hother, href, hstart⟩ := relocationOf?_eq_some.1 hj
    have hwidth : 0 < (other.encode pointerSize).length := by
      rw [encode_of_reference? href, List.length_replicate]
      cases relocation.kind with
      | pointer => exact hpointer
      | sectionRelative => exact Nat.succ_pos 3
    -- both fields have a first byte, so neither step comes before the other
    rcases Nat.lt_trichotomy i j with hlt | rfl | hlt
    · have hle := extent_take_mono pointerSize steps hlt
      rw [extent_take_succ h] at hle
      omega
    · exact hj
    · have hle := extent_take_mono pointerSize steps hlt
      rw [extent_take_succ hother] at hle
      omega
  refine Option.ext fun relocation => ?_
  rw [relocationAt?]
  constructor
  · intro hfind
    have hoffset := List.find?_some hfind
    exact hunique relocation (List.mem_of_find?_eq_some hfind) (of_decide_eq_true hoffset)
  · intro hrelocation
    obtain ⟨-, -, -, hoffset⟩ := relocationOf?_eq_some.1 hrelocation
    have hmem : relocation ∈ (assemble pointerSize alignment steps).relocations := by
      rw [assemble_relocations pointerSize alignment steps hsize]
      obtain ⟨hi, -⟩ := List.getElem?_eq_some_iff.1 h
      exact List.mem_filterMap.2 ⟨i, List.mem_range.2 hi, hrelocation⟩
    cases hfind : (assemble pointerSize alignment steps).relocations.find?
        (·.offset = extent pointerSize (steps.take i)) with
    | none =>
      have hne := List.find?_eq_none.1 hfind relocation hmem
      exact absurd (decide_eq_true hoffset) hne
    | some found =>
      have hfound := List.find?_some hfind
      exact (hunique found (List.mem_of_find?_eq_some hfind)
        (of_decide_eq_true hfound)).symm.trans hrelocation

/-- Steps behind others begin where those end. -/
theorem word?_field_append {offset : Nat} {before rest : List Emission}
    (pointerSize alignment : Nat) (h : rest[i]? = some step)
    (hoffset : extent pointerSize before + extent pointerSize (rest.take i) = offset) :
    (assemble pointerSize alignment (before ++ rest)).word? (step.encode pointerSize).length
      offset = some (fromLittleEndian (step.encode pointerSize)) := by
  have hstep : (before ++ rest)[before.length + i]? = some step := by
    rw [List.getElem?_append_right (Nat.le_add_right _ _), Nat.add_sub_cancel_left, h]
  have hword := word?_field pointerSize alignment hstep
  rwa [List.take_length_add_append, extent_append, hoffset] at hword

theorem word?_append {width value offset : Nat} {before rest : List Emission}
    (h : rest[i]? = some (.number width value))
    (hoffset : extent pointerSize before + extent pointerSize (rest.take i) = offset) :
    (assemble pointerSize alignment (before ++ rest)).word? width offset =
      some (value % 256 ^ width) := by
  have hlength : ((Emission.number width value).encode pointerSize).length = width :=
    length_littleEndian width value
  have hword := word?_field_append pointerSize alignment h hoffset
  rwa [hlength, encode, fromLittleEndian_littleEndian] at hword

theorem relocationAt?_append {offset : Nat} {before rest : List Emission}
    (hpointer : 0 < pointerSize) (hsize : extent pointerSize (before ++ rest) ≤ maxWord32)
    (h : rest[i]? = some step)
    (hpos : 0 < (step.encode pointerSize).length)
    (hoffset : extent pointerSize before + extent pointerSize (rest.take i) = offset) :
    (assemble pointerSize alignment (before ++ rest)).relocationAt? offset =
      step.reference?.map fun (kind, target) => ⟨offset, kind, target⟩ := by
  have hstep : (before ++ rest)[before.length + i]? = some step := by
    rw [List.getElem?_append_right (Nat.le_add_right _ _), Nat.add_sub_cancel_left, h]
  have hfound := relocationAt?_assemble alignment hpointer hsize hstep hpos
  rw [List.take_length_add_append, extent_append, hoffset] at hfound
  rw [hfound, relocationOf?, hstep, List.take_length_add_append, extent_append, hoffset,
    Option.bind_some]

/-! ## Tables -/

/-- Read entry by entry, a table is what is found at its positions. -/
theorem mapM_range_eq_some {α : Type} {read : Nat → Option α} {entries : List α}
    (h : ∀ (i : Nat) entry, entries[i]? = some entry → read i = some entry) :
    (List.range entries.length).mapM read = some entries := by
  induction entries using List.reverseRecOn with
  | nil => rfl
  | append_singleton init last ih =>
    have hinit := ih fun i entry hi => h i entry (by
      rw [List.getElem?_append_left (List.getElem?_eq_some_iff.1 hi).1, hi])
    have hlast := h init.length last (by simp)
    rw [List.length_append, List.length_singleton, List.range_succ, List.mapM_append, hinit]
    simp [hlast]

section Table

variable {Row Shown : Type} {rows : List Row} {rowSteps : Row → List Emission} {width : Nat}
  (hwidth : ∀ row, extent pointerSize (rowSteps row) = width)
include hwidth

/-- Rows of one width are as long as the width says. -/
theorem extent_rows (rows : List Row) :
    extent pointerSize (rows.flatMap rowSteps) = rows.length * width := by
  induction rows with
  | nil => rw [List.flatMap_nil, extent_nil, List.length_nil, Nat.zero_mul]
  | cons row rest ih =>
    rw [List.flatMap_cons, extent_append, ih, hwidth, List.length_cons, Nat.add_one_mul,
      Nat.add_comm]

/-- If each row can be read where its steps began, a table behind other steps is read row by row. -/
theorem mapM_rows (head : List Emission) {read : Nat → Option Shown} {shown : Row → Shown}
    (hread : ∀ before row after, row ∈ rows →
      head ++ rows.flatMap rowSteps = before ++ (rowSteps row ++ after) →
        read (extent pointerSize before) = some (shown row)) :
    (List.range rows.length).mapM (fun i => read (extent pointerSize head + i * width)) =
      some (rows.map shown) := by
  have hall : ∀ (i : Nat) entry, (rows.map shown)[i]? = some entry →
      read (extent pointerSize head + i * width) = some entry := by
    intro i entry hi
    rw [List.getElem?_map, Option.map_eq_some_iff] at hi
    obtain ⟨row, hrow, rfl⟩ := hi
    obtain ⟨hlt, -⟩ := List.getElem?_eq_some_iff.1 hrow
    have hbefore := extent_rows hwidth (rows.take i)
    rw [List.length_take_of_le hlt.le] at hbefore
    rw [← hbefore, ← extent_append]
    refine hread _ row ((rows.drop (i + 1)).flatMap rowSteps) (List.mem_of_getElem? hrow) ?_
    rw [flatMap_eq_append hrow, List.append_assoc]
  have hmapM := mapM_range_eq_some hall
  rwa [List.length_map] at hmapM

end Table

/-! ## Relocations and their fields -/

/-- The data that steps have written. Its bytes are those of the steps in their order, and a number
is read where its step began. Each reference has left one relocation there, in the order of the
steps, over a field of zeros within the data, which ends before the next relocation starts. -/
structure WrittenBy (pointerSize : Nat) (steps : List Emission) (data : ObjectData) : Prop where
  bytes : data.bytes = steps.flatMap (encode pointerSize)
  number : ∀ (i width value : Nat), steps[i]? = some (.number width value) →
    data.word? width (extent pointerSize (steps.take i)) = some (value % 256 ^ width)
  relocations : data.relocations =
    (List.range steps.length).filterMap (relocationOf? pointerSize steps)
  inside : ∀ relocation ∈ data.relocations,
    relocation.offset + relocation.kind.width pointerSize ≤ data.size
  zero : ∀ relocation ∈ data.relocations,
    (data.bytes.drop relocation.offset).take (relocation.kind.width pointerSize) =
      List.replicate (relocation.kind.width pointerSize) 0
  apart : data.relocations.Pairwise fun earlier later =>
    earlier.offset + earlier.kind.width pointerSize ≤ later.offset

/-- Steps write their bytes and leave their relocations, as long as the data is below 4 GiB. -/
theorem assemble_writtenBy (pointerSize alignment : Nat) (steps : List Emission)
    (hsize : extent pointerSize steps < 2 ^ 32) :
    (assemble pointerSize alignment steps).WrittenBy pointerSize steps := by
  have hrelocations :=
    assemble_relocations pointerSize alignment steps (Nat.le_sub_one_of_lt hsize)
  have hstep : ∀ relocation ∈ (assemble pointerSize alignment steps).relocations,
      ∃ i step, steps[i]? = some step ∧ relocation.offset = extent pointerSize (steps.take i) ∧
        step.encode pointerSize = List.replicate (relocation.kind.width pointerSize) 0 := by
    intro relocation hmem
    rw [hrelocations] at hmem
    obtain ⟨i, -, hi⟩ := List.mem_filterMap.1 hmem
    obtain ⟨step, hstep, href, hoffset⟩ := relocationOf?_eq_some.1 hi
    exact ⟨i, step, hstep, hoffset, encode_of_reference? href⟩
  refine ⟨assemble_bytes pointerSize alignment steps, fun i width value h =>
    word?_assemble pointerSize alignment h,
    hrelocations, fun relocation hmem => ?_, fun relocation hmem => ?_, ?_⟩
  · obtain ⟨i, step, hi, hoffset, hencode⟩ := hstep relocation hmem
    have hinside := extent_add_le_size pointerSize alignment hi
    rwa [hencode, List.length_replicate, ← hoffset] at hinside
  · obtain ⟨i, step, hi, hoffset, hencode⟩ := hstep relocation hmem
    have hfield := field_assemble pointerSize alignment hi
    rwa [hencode, List.length_replicate, ← hoffset] at hfield
  · rw [hrelocations]
    refine List.Pairwise.filterMap _ (fun i j hij earlier hi later hj => ?_)
      List.pairwise_lt_range
    obtain ⟨step, hstep, href, hoffset⟩ := relocationOf?_eq_some.1 hi
    obtain ⟨-, -, -, hoffset'⟩ := relocationOf?_eq_some.1 hj
    have hle := extent_take_mono pointerSize steps hij
    rwa [extent_take_succ hstep, encode_of_reference? href, List.length_replicate, ← hoffset,
      ← hoffset'] at hle

/-- Two numbers, and behind them the address of a target and the offset of a block. -/
def targetAndBlock : List Emission :=
  [.u32 7, .u16 513, .zeros 2, .pointer "target", .sectionOffset "block"]

/-- The fields of both references are found behind eight bytes, and the second number between. -/
theorem targetAndBlock_writtenBy : extent 8 targetAndBlock < 2 ^ 32 ∧
    (assemble 8 8 targetAndBlock).word? 2 4 = some 513 ∧
    (assemble 8 8 targetAndBlock).relocations =
      [⟨8, .pointer, "target"⟩, ⟨16, .sectionRelative, "block"⟩] := by
  have hsize : extent 8 targetAndBlock < 2 ^ 32 := by decide
  have hwritten := assemble_writtenBy 8 8 targetAndBlock hsize
  exact ⟨hsize, hwritten.number 1 2 513 rfl, hwritten.relocations⟩

end ObjectData

end NativeImage
