/-!
# Object data

The bytes of a data node together with the relocations that the linker fills in. A payload is
written down as a list of emissions; assembling the list gives the bytes and, for each reference to
another symbol, a relocation over a field of zero bytes.

## Main definitions

- `littleEndian` — a number as that many bytes, lowest first
- `Emission` — one step of a payload: a number, bytes, zeros or a reference
- `ObjectData.assemble` — the data that a list of emissions describes
-/

namespace NativeImage

/-- How the linker computes the field of a relocation. -/
inductive RelocationKind
  /-- The absolute, pointer-sized address of the target. -/
  | pointer
  /-- The 32-bit offset of the target from the start of its section. -/
  | sectionRelative
  deriving DecidableEq, Repr

/-- A field that receives the address of `target` at link time. -/
structure Relocation where
  offset : Nat
  kind : RelocationKind
  target : String
  deriving DecidableEq, Repr

/-- The bytes of one data node. -/
structure ObjectData where
  bytes : List UInt8
  relocations : List Relocation
  alignment : Nat
  deriving DecidableEq, Repr

/-- The lowest `width` bytes of `value`, lowest first. -/
def littleEndian : (width value : Nat) → List UInt8
  | 0, _ => []
  | width + 1, value => UInt8.ofNat value :: littleEndian width (value / 256)

@[simp] theorem length_littleEndian (width value : Nat) :
    (littleEndian width value).length = width := by
  induction width generalizing value with
  | zero => rfl
  | succ width ih => simp [littleEndian, ih]

theorem littleEndian_zero (width : Nat) : littleEndian width 0 = List.replicate width 0 := by
  induction width with
  | zero => rfl
  | succ width ih => simp [littleEndian, ih, List.replicate_succ]

/-- The largest number of 32 bits, at which relocation offsets stop growing. -/
def maxWord32 : Nat := UInt32.size - 1

/-- One step of a payload. -/
inductive Emission
  /-- A number of `width` bytes. -/
  | number (width value : Nat)
  | bytes (content : List UInt8)
  | zeros (count : Nat)
  /-- A pointer-sized field of zeros that refers to nothing. -/
  | nullPointer
  /-- The address of `target`. -/
  | pointer (target : String)
  /-- The 32-bit offset of `target` in its section. -/
  | sectionOffset (target : String)
  deriving DecidableEq, Repr

namespace Emission

def u8 (value : Nat) : Emission := number 1 value

def u16 (value : Nat) : Emission := number 2 value

def u32 (value : Nat) : Emission := number 4 value

/-- The bytes a step writes; references write zeros for the linker to fill in. -/
def encode (pointerSize : Nat) : Emission → List UInt8
  | number width value => littleEndian width value
  | bytes content => content
  | zeros count => List.replicate count 0
  | nullPointer | pointer _ => List.replicate pointerSize 0
  | sectionOffset _ => List.replicate 4 0

/-- What a step refers to. -/
def reference? : Emission → Option (RelocationKind × String)
  | pointer target => some (.pointer, target)
  | sectionOffset target => some (.sectionRelative, target)
  | number .. | bytes _ | zeros _ | nullPointer => none

end Emission

namespace ObjectData

/-- Data without content. -/
def empty (alignment : Nat) : ObjectData := ⟨[], [], alignment⟩

def size (data : ObjectData) : Nat := data.bytes.length

/-- Append one step. A reference is recorded at the offset where its field starts. -/
def emit (pointerSize : Nat) (data : ObjectData) (step : Emission) : ObjectData where
  bytes := data.bytes ++ step.encode pointerSize
  relocations := match step.reference? with
    | some (kind, target) =>
      data.relocations ++ [⟨min data.bytes.length maxWord32, kind, target⟩]
    | none => data.relocations
  alignment := data.alignment

/-- The data described by a list of steps. -/
def assemble (pointerSize alignment : Nat) (steps : List Emission) : ObjectData :=
  steps.foldl (emit pointerSize) (empty alignment)

theorem foldl_emit_bytes (pointerSize : Nat) (data : ObjectData) (steps : List Emission) :
    (steps.foldl (emit pointerSize) data).bytes =
      data.bytes ++ steps.flatMap (Emission.encode pointerSize) := by
  induction steps generalizing data with
  | nil => simp
  | cons step rest ih => simp [ih, emit]

/-- The bytes are those of the steps in their order. -/
@[simp] theorem assemble_bytes (pointerSize alignment : Nat) (steps : List Emission) :
    (assemble pointerSize alignment steps).bytes =
      steps.flatMap (Emission.encode pointerSize) := by
  simp [assemble, foldl_emit_bytes, empty]

/-- Every relocation comes from a reference among the steps. -/
theorem exists_reference_of_mem_relocations {pointerSize alignment : Nat} {steps : List Emission}
    {relocation : Relocation}
    (h : relocation ∈ (assemble pointerSize alignment steps).relocations) :
    ∃ step ∈ steps, step.reference? = some (relocation.kind, relocation.target) := by
  suffices hfold : ∀ data : ObjectData,
      relocation ∈ (steps.foldl (emit pointerSize) data).relocations →
        relocation ∈ data.relocations ∨
          ∃ step ∈ steps, step.reference? = some (relocation.kind, relocation.target) by
    rcases hfold (empty alignment) h with hnone | hstep
    · cases hnone
    · exact hstep
  intro data hdata
  clear h
  induction steps generalizing data with
  | nil => exact .inl hdata
  | cons step rest ih =>
    rcases ih _ hdata with hemit | ⟨other, ho, href⟩
    · simp only [emit] at hemit
      split at hemit
      · rename_i kind target href
        rcases List.mem_append.1 hemit with hold | hnew
        · exact .inl hold
        · cases List.mem_singleton.1 hnew
          exact .inr ⟨step, List.mem_cons_self, href⟩
      · exact .inl hemit
    · exact .inr ⟨other, List.mem_cons_of_mem _ ho, href⟩

theorem foldl_emit_alignment (pointerSize : Nat) (data : ObjectData) (steps : List Emission) :
    (steps.foldl (emit pointerSize) data).alignment = data.alignment := by
  induction steps generalizing data with
  | nil => rfl
  | cons step rest ih => simp [ih, emit]

@[simp] theorem assemble_alignment (pointerSize alignment : Nat) (steps : List Emission) :
    (assemble pointerSize alignment steps).alignment = alignment := by
  simp [assemble, foldl_emit_alignment, empty]

end ObjectData

end NativeImage
