import NativeImage.Proofs.CompilationUnit.Fitting
import NativeImage.Proofs.CompilationUnit.OwnedNodes
import NativeImage.Proofs.Object.Fields
import NativeImage.Proofs.Object.SlotSeries

/-!
# Descriptors of static fields

The collector reads the descriptor of a type as a number of series, each with size and offset. What
it reads are the slots that the type declares, and they end where the block of the type's static
fields ends, although that block is measured without the series.

## Main definitions

- `ObjectData.readSeries?` — a reader of descriptors
- `StaticsLayout.slots` — the slots with references, of the type or of each thread

## Main statements

- `CompilationUnit.payload_gcStaticDesc`, `CompilationUnit.payload_gcStaticBase` — descriptor and
  block
- `CompilationUnit.descriptor_decodes`
-/

namespace NativeImage

open Emission Program ImageM

/-! ## Reading a descriptor -/

/-- Size and offset of a series. -/
def ObjectData.readPair? (data : ObjectData) (offset : Nat) : Option (Nat × Nat) := do
  let size ← data.word? 4 offset
  let start ← data.word? 4 (offset + 4)
  return (size, start)

/-- The series that a descriptor lists: how many there are, then each of them. -/
def ObjectData.readSeries? (data : ObjectData) : Option (List (Nat × Nat)) := do
  let count ← data.word? 4 0
  (List.range count).mapM fun i => data.readPair? (4 + 8 * i)

/-- The steps that write size and offset. -/
def entrySteps (entry : Nat × Nat) : List Emission := [.u32 entry.1, .u32 entry.2]

/-- The steps that write a descriptor. -/
def seriesSteps (series : List (Nat × Nat)) : List Emission :=
  .u32 series.length :: series.flatMap entrySteps

/-- Series in numbers of 32 bits. -/
structure SeriesFit (series : List (Nat × Nat)) : Prop where
  length : series.length ≤ maxWord32
  entries : ∀ entry ∈ series, entry.1 ≤ maxWord32 ∧ entry.2 ≤ maxWord32

theorem extent_entrySteps (pointerSize : Nat) (entry : Nat × Nat) :
    extent pointerSize (entrySteps entry) = 8 := rfl

theorem extent_seriesSteps (pointerSize : Nat) (series : List (Nat × Nat)) :
    extent pointerSize (seriesSteps series) = 4 + 8 * series.length := by
  have hcount : ((Emission.u32 series.length).encode pointerSize).length = 4 := rfl
  rw [seriesSteps, extent_cons, hcount, ObjectData.extent_rows (extent_entrySteps pointerSize),
    Nat.mul_comm 8]

theorem word32_mod {value : Nat} (h : value ≤ maxWord32) : value % 256 ^ 4 = value := by
  refine Nat.mod_eq_of_lt (Nat.lt_of_le_of_lt h ?_)
  decide

/-- A series is read where its steps began. -/
theorem readPair?_append {pointerSize alignment : Nat} {before after : List Emission}
    {entry : Nat × Nat} (hsize : entry.1 ≤ maxWord32) (hoffset : entry.2 ≤ maxWord32) :
    (ObjectData.assemble pointerSize alignment (before ++ (entrySteps entry ++ after))).readPair?
      (extent pointerSize before) = some entry := by
  have hfirst : (ObjectData.assemble pointerSize alignment
      (before ++ (entrySteps entry ++ after))).word? 4 (extent pointerSize before) =
        some (entry.1 % 256 ^ 4) :=
    ObjectData.word?_append (i := 0) rfl rfl
  have hsecond : (ObjectData.assemble pointerSize alignment
      (before ++ (entrySteps entry ++ after))).word? 4 (extent pointerSize before + 4) =
        some (entry.2 % 256 ^ 4) :=
    ObjectData.word?_append (i := 1) rfl rfl
  rw [ObjectData.readPair?, hfirst, hsecond, word32_mod hsize, word32_mod hoffset]
  rfl

/-- A descriptor is read as it has been written. -/
theorem readSeries?_assemble {series : List (Nat × Nat)} (pointerSize alignment : Nat)
    (h : SeriesFit series) :
    (ObjectData.assemble pointerSize alignment (seriesSteps series)).readSeries? = some series := by
  have hcount : (ObjectData.assemble pointerSize alignment (seriesSteps series)).word? 4 0 =
      some series.length := by
    have hstep : (seriesSteps series)[0]? = some (.number 4 series.length) := rfl
    have hword := ObjectData.word?_assemble pointerSize alignment hstep
    rwa [word32_mod h.length] at hword
  have hread : ∀ before entry after, entry ∈ series →
      [.u32 series.length] ++ series.flatMap entrySteps = before ++ (entrySteps entry ++ after) →
        (ObjectData.assemble pointerSize alignment (seriesSteps series)).readPair?
          (extent pointerSize before) = some entry := by
    intro before entry after hmem hsplit
    obtain ⟨hsize, hoffset⟩ := h.entries entry hmem
    rw [seriesSteps, ← List.singleton_append, hsplit]
    exact readPair?_append hsize hoffset
  rw [ObjectData.readSeries?, hcount]
  simp only [Nat.mul_comm 8]
  exact (ObjectData.mapM_rows (extent_entrySteps pointerSize) _ hread).trans
    (congrArg some (List.map_id series))

/-! ## Series of a block -/

/-- A block is below 4 GiB exactly if each of its slots is. -/
theorem slotCount_mul_le_iff {slots : List Nat} {pointerSize : Nat} :
    slotCount slots * pointerSize ≤ maxWord32 ↔
      ∀ slot ∈ slots, (slot + 1) * pointerSize < 2 ^ 32 := by
  have hword : maxWord32 + 1 = 2 ^ 32 := by decide
  constructor
  · intro h slot hslot
    have hle : (slot + 1) * pointerSize ≤ slotCount slots * pointerSize :=
      Nat.mul_le_mul_right _ (lt_slotCount_of_mem hslot)
    omega
  · intro h
    rcases exists_of_slotCount slots with hzero | ⟨slot, hslot, hcount⟩
    · rw [hzero, Nat.zero_mul]
      exact Nat.zero_le _
    · have hslot := h slot hslot
      rw [hcount]
      omega

theorem seriesFit_pointerSeries {slots : List Nat} {pointerSize : Nat} (hpointer : 0 < pointerSize)
    (h : slotCount slots * pointerSize ≤ maxWord32) :
    SeriesFit (pointerSeries pointerSize slots) where
  length := ((length_pointerSeries_le pointerSize slots).trans
    (Nat.le_mul_of_pos_right _ hpointer)).trans h
  entries _ hentry :=
    have hle := le_of_mem_pointerSeries hentry
    ⟨hle.1.trans h, hle.2.trans h⟩

/-- Results that are read from a state without changing it. -/
theorem mapM_eq_ok_map {State Failure α β : Type} {f : α → EStateM Failure State β} {g : α → β}
    {s : State} {list : List α} (h : ∀ a ∈ list, f a s = .ok (g a) s) :
    list.mapM f s = .ok (list.map g) s := by
  induction list with
  | nil => rfl
  | cons a list ih =>
    obtain ⟨ha, hlist⟩ := List.forall_mem_cons.1 h
    rw [List.mapM_cons, bind_of_ok ha, bind_of_ok (ih hlist)]
    rfl

/-- The slots with references among a type's static fields, or among those of each thread. -/
def StaticsLayout.slots (statics : StaticsLayout) (thread : Bool) : List Nat :=
  if thread then statics.threadGcSlots else statics.gcSlots

namespace CompilationUnit

variable (unit : CompilationUnit) {s : Image} {id : NodeId} {node : Node} {type : TypeId}
  {thread : Bool} {desc : TypeDesc}

theorem word32_of_le {value : Nat} (h : value ≤ maxWord32) (s : Image) :
    word32 value s = .ok value s := by
  rw [word32, if_pos h]
  rfl

theorem seriesEmissions_eq {pointerSize : Nat} {slots : List Nat} (hpointer : 0 < pointerSize)
    (h : slotCount slots * pointerSize ≤ maxWord32) (s : Image) :
    seriesEmissions pointerSize slots s =
      .ok (seriesSteps (pointerSeries pointerSize slots)) s := by
  have hfit := seriesFit_pointerSeries hpointer h
  have hentries : ((pointerSeries pointerSize slots).mapM fun entry => do
      return [Emission.u32 (← word32 entry.1), Emission.u32 (← word32 entry.2)] :
        ImageM (List (List Emission))) s =
      .ok ((pointerSeries pointerSize slots).map entrySteps) s := by
    refine mapM_eq_ok_map fun entry hentry => ?_
    obtain ⟨hsize, hoffset⟩ := hfit.entries entry hentry
    rw [bind_of_ok (word32_of_le hsize s), bind_of_ok (word32_of_le hoffset s)]
    rfl
  rw [seriesSteps, List.flatMap_def, ← Nat.min_eq_left hfit.length]
  exact bind_of_ok hentries

/-- The data of a descriptor lists the series of the slots. -/
theorem payload_gcStaticDesc (hnode : s.nodes[id.index]? = some node)
    (hkind : node.kind = .gcStaticDesc type thread) (hdesc : s.program.typeDesc type = .ok desc)
    (hsize : slotCount (desc.statics.slots thread) * unit.pointerSize ≤ maxWord32) :
    unit.payload id s = .ok (some (.assemble unit.pointerSize 4
      (seriesSteps (pointerSeries unit.pointerSize (desc.statics.slots thread))))) s := by
  have hpointer : 0 < unit.pointerSize := Nat.lt_of_lt_of_le (by decide) unit.pointerSize_ge
  have hsteps : unit.payloadEmissions node.kind s =
      .ok (some (seriesSteps (pointerSeries unit.pointerSize (desc.statics.slots thread)))) s := by
    rw [hkind, payloadEmissions, bind_of_ok (ask_eq_ok hdesc)]
    exact (bind_of_ok (seriesEmissions_eq hpointer hsize s)).trans rfl
  rw [unit.payload_eq_assemble hnode (by simp [hkind]), bind_of_ok hsteps, hkind]
  rfl

/-- A node that is asked for has a symbol afterwards. -/
theorem exists_symbol_of_intern (x : Node) (s : Image) :
    ∃ id t name, intern x s = .ok id t ∧ symbol id t = .ok name t := by
  have happly := intern_apply x s
  cases hfind : findNode? x.kind s with
  | some id =>
    rw [hfind] at happly
    obtain ⟨found, hfound, -⟩ := findNode?_spec hfind
    exact ⟨id, s, _, happly, symbol_eq_ok hfound⟩
  | none =>
    rw [hfind] at happly
    exact ⟨_, _, _, happly, symbol_eq_ok (Image.nodes_push.2 (.inr ⟨rfl, rfl⟩))⟩

/-- The node of an existing type can be asked for. -/
theorem exists_symbol_of_typeNode (hp : s.program.WellFormed) (htype : s.program.HasType type)
    (family : SymbolFamily) (kind : NodeKind) :
    ∃ id t name, unit.typeNode type family kind s = .ok id t ∧ symbol id t = .ok name t := by
  obtain ⟨typeName, hname⟩ := (Extension.refl hp).exists_typeSymbol htype family
  obtain ⟨own, hown⟩ := unit.ownership.exists_ownsType hp htype
  rw [typeNode, bind_of_ok (ask_eq_ok hname), ownsType, bind_of_ok (ask_eq_ok hown)]
  split
  · exact exists_symbol_of_intern _ s
  · exact exists_symbol_of_intern _ s

/-- The data of a block is the address of the descriptor, and room for every slot. -/
theorem payload_gcStaticBase (hp : s.program.WellFormed) (hnode : s.nodes[id.index]? = some node)
    (hkind : node.kind = .gcStaticBase type) (hdesc : s.program.typeDesc type = .ok desc)
    (hsize : slotCount desc.statics.gcSlots * unit.pointerSize ≤ maxWord32) :
    ∃ name t, unit.payload id s = .ok (some (.assemble unit.pointerSize unit.pointerSize
      [.pointer name, .zeros (slotCount desc.statics.gcSlots * unit.pointerSize)])) t := by
  have hpointer : 0 < unit.pointerSize := Nat.lt_of_lt_of_le (by decide) unit.pointerSize_ge
  have hcount : slotCount desc.statics.gcSlots ≤ maxWord32 :=
    (Nat.le_mul_of_pos_right _ hpointer).trans hsize
  obtain ⟨descriptor, t, name, hdescriptor, hname⟩ := unit.exists_symbol_of_typeNode hp
    (hasType_iff.2 ⟨desc, hdesc⟩) (.gcStaticDesc false) (.gcStaticDesc type false)
  have hsteps : unit.payloadEmissions node.kind s =
      .ok (some [.pointer name, .zeros (slotCount desc.statics.gcSlots * unit.pointerSize)]) t := by
    rw [hkind, payloadEmissions, bind_of_ok (ask_eq_ok hdesc), bind_of_ok (word32_of_le hcount s),
      gcStaticDesc, bind_of_ok hdescriptor, bind_of_ok hname]
    rfl
  rw [unit.payload_eq_assemble hnode (by simp [hkind]), bind_of_ok hsteps, hkind]
  exact ⟨name, t, rfl⟩

/-! ## Descriptor and block -/

/-- In numbers of 32 bits the descriptor of a type decodes to series that cover exactly the slots
that the type declares, with gaps between them, and the last of them ends where the block of static
fields ends. -/
theorem descriptor_decodes (hp : s.program.Reachable) (hnode : s.nodes[id.index]? = some node)
    (hkind : node.kind = .gcStaticDesc type thread) (hdesc : s.program.typeDesc type = .ok desc)
    (hsmall : ∀ slot ∈ desc.statics.slots thread, (slot + 1) * unit.pointerSize < 2 ^ 32) :
    ∃ data series, unit.payload id s = .ok (some data) s ∧
      data.readSeries? = some series ∧ data.size = 4 + 8 * series.length ∧
      SeriesOf unit.pointerSize (desc.statics.slots thread) series ∧
      SlotRun.scan? unit.pointerSize none (ascendingSlots (desc.statics.slots thread)) =
        some series ∧
      (thread = false → ∀ (holder : NodeId) (base : Node), s.nodes[holder.index]? = some base →
        base.kind = .gcStaticBase type → ∃ block t, unit.payload holder s = .ok (some block) t ∧
          block.size = unit.pointerSize + seriesEnd series ∧ seriesEnd series ≤ maxWord32) := by
  have hpointer : 0 < unit.pointerSize := Nat.lt_of_lt_of_le (by decide) unit.pointerSize_ge
  have hsize := slotCount_mul_le_iff.2 hsmall
  have hseries := pointerSeries_seriesOf hpointer (desc.statics.slots thread)
  refine ⟨_, _, unit.payload_gcStaticDesc hnode hkind hdesc hsize,
    readSeries?_assemble _ _ (seriesFit_pointerSeries hpointer hsize), ?_, hseries,
    SlotRun.scan?_eq hpointer hsize, ?_⟩
  · rw [ObjectData.size_assemble, extent_seriesSteps]
  · rintro rfl holder base hbase hholder
    obtain ⟨name, t, hblock⟩ := unit.payload_gcStaticBase hp.wellFormed hbase hholder
      hdesc hsize
    refine ⟨_, t, hblock, ?_, ?_⟩
    · rw [ObjectData.size_assemble, hseries.stop]
      simp [encode, StaticsLayout.slots]
    · rw [hseries.stop]
      exact hsize

/-- A class that declares three references among its static fields, the last of them twice. -/
def scatteredProgram : Program :=
  initial.after [
    .declareType { name := "Cache", module := .core, statics := { gcSlots := [5, 0, 1, 5] } }]

/-- An image with the descriptor of the class and the block of its static fields. -/
def scatteredImage : Image where
  program := scatteredProgram
  nodes := #[{ kind := .gcStaticDesc ⟨2⟩ false, symbol := "desc" },
    { kind := .gcStaticBase ⟨2⟩, symbol := "base" }]
  attachment? := none

def scatteredUnit : CompilationUnit := ⟨{ arch := .x64 }, .everything, .absent⟩

/-- There is a series of two slots and one of a single slot, behind which the block ends. -/
theorem scattered_decodes : ∃ data block t,
    scatteredUnit.payload ⟨0⟩ scatteredImage = .ok (some data) scatteredImage ∧
    data.readSeries? = some [(16, 0), (8, 40)] ∧
    scatteredUnit.payload ⟨1⟩ scatteredImage = .ok (some block) t ∧ block.size = 8 + 48 := by
  have hreachable : scatteredImage.program.Reachable := Reachable.initial.after (by decide +kernel)
  have hnode : scatteredImage.nodes[(⟨0⟩ : NodeId).index]? =
      some { kind := .gcStaticDesc ⟨2⟩ false, symbol := "desc" } := rfl
  obtain ⟨data, series, hdata, hread, -, -, hscan, hblock⟩ :=
    scatteredUnit.descriptor_decodes hreachable hnode rfl rfl (by decide)
  have hseries : series = [(16, 0), (8, 40)] := by
    have hsorted : ascendingSlots [5, 0, 1, 5] = [0, 1, 5] := by
      rw [ascendingSlots, List.mergeSort_eq_insertionSort (· ≤ ·)]
      decide
    have hpass : SlotRun.scan? 8 none (ascendingSlots [5, 0, 1, 5]) = some [(16, 0), (8, 40)] := by
      rw [hsorted]
      rfl
    exact Option.some.inj (hscan.symm.trans hpass)
  subst hseries
  obtain ⟨block, t, hpayload, hsize, -⟩ := hblock rfl ⟨1⟩ _ rfl rfl
  exact ⟨data, block, t, hdata, hread, hpayload, hsize⟩

end CompilationUnit

end NativeImage
