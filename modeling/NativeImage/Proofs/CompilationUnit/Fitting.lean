import Mathlib.Data.List.Nodup
import NativeImage.Proofs.CompilationUnit.LayoutAgreement
import NativeImage.Proofs.CompilationUnit.Totality
import NativeImage.Proofs.Object.Packing

/-!
# Data that fits

The data of every node can be written down if the blocks of static fields are below 4 GiB, and the
regions can be laid out if they are: the members of one region all have the same alignment, which
divides their sizes.

## Main definitions

- `Program.StaticsFit`, `CompilationUnit.RegionsFit` — blocks and regions below 4 GiB
- `EmittedNode.Placeable` — data that can be placed in the region of its kind

## Main statements

- `CompilationUnit.emit_ends` — the data of a node
- `CompilationUnit.layoutRegions_ends` — the regions
-/

namespace NativeImage

open Program Image ImageM

/-! ## Static fields -/

/-- The blocks of a type's static fields are below 4 GiB. -/
@[mk_iff]
structure StaticsLayout.Fits (pointerSize : Nat) (statics : StaticsLayout) : Prop where
  gcSlots : slotCount statics.gcSlots * pointerSize ≤ maxWord32
  threadGcSlots : slotCount statics.threadGcSlots * pointerSize ≤ maxWord32
  threadSize : CompilationUnit.roundUp statics.threadSize pointerSize ≤ maxWord32

instance (pointerSize : Nat) (statics : StaticsLayout) : Decidable (statics.Fits pointerSize) :=
  decidable_of_iff _ (statics.fits_iff pointerSize).symm

namespace Program

variable {base p : Program} {pointerSize : Nat}

/-- Every block of static fields is below 4 GiB. -/
def StaticsFit (pointerSize : Nat) (p : Program) : Prop :=
  ∀ desc ∈ p.types.toList, desc.statics.Fits pointerSize

instance (pointerSize : Nat) (p : Program) : Decidable (p.StaticsFit pointerSize) :=
  inferInstanceAs (Decidable (∀ desc ∈ p.types.toList, desc.statics.Fits pointerSize))

/-- Instances have the static fields of their definitions. -/
theorem StaticsFit.fits (h : base.StaticsFit pointerSize) (hp : Extension base p) {id : TypeId}
    {desc : TypeDesc} (hd : p.typeDesc id = .ok desc) : desc.statics.Fits pointerSize := by
  have hdeclared {id : TypeId} {desc : TypeDesc} (hd : p.typeDesc id = .ok desc)
      (ho : desc.origin = .declared) : desc.statics.Fits pointerSize := by
    have hlt : id.index < base.types.size := by
      by_contra hge
      exact hp.derives.types hd (Nat.not_lt.1 hge) ho
    have hold := typeDesc_of_le hp.derives.le hlt hd
    exact h desc (Array.mem_toList_iff.2 (Array.mem_of_getElem? (typeDesc_eq_ok.1 hold)))
  -- every other type has been derived since, from a declared one whose statics it has
  cases ho : desc.origin with
  | declared => exact hdeclared hd ho
  | derived definition args =>
    obtain ⟨⟨original, horiginal, hdecl, -⟩, -, -, -, hinstance⟩ :=
      (hp.wellFormed.type_ok hd).derived ho
    obtain ⟨_, _, horiginal', -, rfl⟩ := typeInstance_eq_ok.1 hinstance
    cases horiginal.symm.trans horiginal'
    have hfits := hdeclared horiginal hdecl
    exact hfits

end Program

/-! ## Data -/

/-- The data of an emitted node has the alignment of the node's kind. If the kind has a region, the
alignment divides the size. -/
structure EmittedNode.Placeable (unit : CompilationUnit) (emitted : EmittedNode) : Prop where
  alignment : ∀ data, emitted.data? = some data →
    data.alignment = unit.payloadAlignment emitted.node.kind
  dvd : ∀ data, emitted.data? = some data → emitted.node.kind.region?.isSome = true →
    unit.payloadAlignment emitted.node.kind ∣ data.size

namespace CompilationUnit

variable {unit : CompilationUnit} {base : Program} {attached : Bool} {s t : Image}
  {E : Image → CompileError → Prop}

theorem pointerSize_ge (unit : CompilationUnit) : 4 ≤ unit.pointerSize := by
  rw [pointerSize]
  cases unit.config.arch <;> decide

/-- No data needs more alignment than a pointer. -/
theorem payloadAlignment_le (unit : CompilationUnit) (kind : NodeKind) :
    unit.payloadAlignment kind ≤ unit.pointerSize := by
  have hsize := unit.pointerSize_ge
  cases kind <;> simp only [payloadAlignment] <;> omega

theorem dvd_roundUp (value : Nat) {step : Nat} (h : 0 < step) : step ∣ roundUp value step := by
  have hlt := Nat.mod_lt value h
  rw [roundUp]
  split
  · next hmod => exact Nat.dvd_of_mod_eq_zero hmod
  · have hdiv := Nat.div_add_mod value step
    refine ⟨value / step + 1, ?_⟩
    rw [Nat.mul_succ]
    omega

/-- A number of 32 bits can be written. -/
theorem word32_ends {R : Image → Prop} (hr : R s) {value : Nat} (h : value ≤ maxWord32) :
    Ends R E (fun _ word => word = value) (word32 value) s := by
  rw [word32, if_pos h]
  exact .pure hr rfl

/-- Series of a block below 4 GiB can be written, in words of 32 bits. -/
theorem seriesEmissions_ends {R : Image → Prop} (hr : R s) {pointerSize : Nat} {slots : List Nat}
    (h : slotCount slots * pointerSize ≤ maxWord32) :
    Ends R E (fun _ steps => ∀ step ∈ steps, (step.encode pointerSize).length = 4)
      (seriesEmissions pointerSize slots) s := by
  have hword (value : Nat) : ((Emission.u32 value).encode pointerSize).length = 4 :=
    length_littleEndian 4 value
  refine (Ends.mapM (P := fun _ series => series.1 ≤ maxWord32 ∧ series.2 ≤ maxWord32)
    (U := fun _ _ (steps : List Emission) => ∀ step ∈ steps, (step.encode pointerSize).length = 4)
    (fun h _ => h) (fun _ => fun h _ => h) (fun _ hr hfits => ?_) hr fun series hseries => ?_).bind
    fun _ hr hentries => .pure hr ?_
  · refine (word32_ends hr hfits.1).bind fun _ hr _ => ?_
    refine (word32_ends hr hfits.2).bind fun _ hr _ => .pure hr ?_
    exact List.forall_mem_cons.2 ⟨hword _, List.forall_mem_singleton.2 (hword _)⟩
  · obtain ⟨hsize, hoffset⟩ := le_of_mem_pointerSeries hseries
    exact ⟨hsize.trans h, hoffset.trans h⟩
  · refine List.forall_mem_cons.2 ⟨hword _, fun step hstep => ?_⟩
    obtain ⟨entry, hentry, hstep⟩ := List.mem_flatten.1 hstep
    obtain ⟨_, -, hall⟩ := exists_mem_of_forall₂ hentries hentry
    exact hall step hstep

/-- Steps that write data as long as the alignment of a kind asks for, if the kind has a region. -/
def Whole (unit : CompilationUnit) (kind : NodeKind) (steps? : Option (List Emission)) : Prop :=
  kind.region?.isSome = true → ∀ steps, steps? = some steps → ∀ step ∈ steps,
    unit.payloadAlignment kind ∣ (step.encode unit.pointerSize).length

/-- Kinds without a region ask for nothing. -/
theorem whole_of_region? {kind : NodeKind} (h : kind.region? = none)
    (steps? : Option (List Emission)) : unit.Whole kind steps? := by
  intro hsome
  rw [h] at hsome
  cases hsome

theorem whole_some {kind : NodeKind} {steps : List Emission}
    (h : ∀ step ∈ steps, unit.payloadAlignment kind ∣ (step.encode unit.pointerSize).length) :
    unit.Whole kind (some steps) := by
  intro _ _ hsteps
  cases hsteps
  exact h

/-- What is read first as the symbol of a node that can be made. -/
theorem ends_symbolOf {β : Type} {R : Image → Prop} {V : Image → β → Prop} {rank : Nat}
    {x : ImageM NodeId} {f : String → ImageM β} (h : Ends R E (RankBelow · rank) x s)
    (hf : ∀ {t} name, s ≤ t → R t → Ends R E V (f name) t) :
    Ends R E V (do f (← symbol (← x))) s :=
  h.bind fun hle hr hv => by
    obtain ⟨name, hname⟩ := hv.exists_symbol
    exact .read hname (hf name hle hr)

/-- The data of a node can be written if the blocks of static fields are below 4 GiB. -/
theorem payloadEmissions_ends (hr : Sound unit base true s)
    (hfit : base.StaticsFit unit.pointerSize) {kind : NodeKind} (hk : s.MayRefer kind) :
    Ends (Sound unit base true) E (fun _ => unit.Whole kind) (unit.payloadEmissions kind) s := by
  have hp : Extension base s.program := hr.left.program
  have hpointer (name : String) :
      unit.pointerSize ∣ ((Emission.pointer name).encode unit.pointerSize).length := by
    rw [Emission.encode, List.length_replicate]
  have hpos : 0 < unit.pointerSize := Nat.lt_of_lt_of_le (by decide) unit.pointerSize_ge
  cases hk with
  | @gcStaticDesc type _ thread h =>
    obtain ⟨desc, hd⟩ := hasType_iff.1 h.2
    have hfits := hfit.fits hp hd
    refine ends_ask hd ((seriesEmissions_ends hr ?_).bind fun _ hr hsteps => .pure hr ?_)
    · split
      · exact hfits.threadGcSlots
      · exact hfits.gcSlots
    · exact whole_some fun step hstep => dvd_of_eq (hsteps step hstep).symm
  | @gcStaticBase type _ h =>
    obtain ⟨desc, hd⟩ := hasType_iff.1 h.2
    have hcount : slotCount desc.statics.gcSlots ≤ maxWord32 :=
      (Nat.le_mul_of_pos_right _ hpos).trans (hfit.fits hp hd).gcSlots
    refine ends_ask hd ((word32_ends hr hcount).bind fun {count _} hle hr _ => ?_)
    refine ends_symbolOf (gcStaticDesc_ends hr (h.2.mono hle.program) false) fun name _ hr =>
      .pure hr (whole_some ?_)
    refine List.forall_mem_cons.2 ⟨hpointer name, List.forall_mem_singleton.2 ?_⟩
    rw [Emission.encode, List.length_replicate]
    exact Nat.dvd_mul_left _ _
  | @threadStaticsBlock type _ h =>
    obtain ⟨desc, hd⟩ := hasType_iff.1 h.2
    refine ends_ask hd ((word32_ends hr (hfit.fits hp hd).threadSize).bind fun _ hr hsize =>
      .pure hr (whole_some (List.forall_mem_singleton.2 ?_)))
    rw [hsize, Emission.encode, List.length_replicate]
    exact dvd_roundUp _ hpos
  | threadStaticsOffset h =>
    refine ends_symbolOf (threadStaticsBlock_ends hr h.2) fun name _ hr =>
      .pure hr (whole_some (List.forall_mem_singleton.2 ?_))
    rw [Emission.encode, List.length_replicate]
    exact Nat.dvd_refl 4
  | eagerConstructor h =>
    exact ends_symbolOf (plainEntry_ends hr h.2) fun name _ hr =>
      .pure hr (whole_some (List.forall_mem_singleton.2 (hpointer name)))
  | tlsDirectory =>
    obtain ⟨hstart, hend, hindex⟩ := hr.threadTables
    obtain ⟨_, hstart⟩ := hstart.2.exists_symbol
    obtain ⟨_, hend⟩ := hend.2.exists_symbol
    obtain ⟨_, hindex⟩ := hindex.2.exists_symbol
    exact .read hstart (.read hend (.read hindex (.pure hr (whole_of_region? rfl _))))
  | modulesSection =>
    refine attachment_ends hr fun _ hmatch => ?_
    obtain ⟨_, hheader⟩ := hmatch.rank.exists_symbol
    exact .read hheader (.pure hr (whole_of_region? rfl _))
  | fatPointer _ ha hd =>
    obtain ⟨-, x, hx, -⟩ := ha
    obtain ⟨-, y, hy, -⟩ := hd
    exact .read (symbol_eq_ok hx) (.read (symbol_eq_ok hy) (.pure hr (whole_of_region? rfl _)))
  | _ => exact .pure hr (whole_of_region? rfl _)

/-- The data of an existing node can be written, and placed in the region of its kind. -/
theorem payload_ends (hr : Sound unit base true s) (hfit : base.StaticsFit unit.pointerSize)
    {id : NodeId} {node : Node} (hn : s.nodes[id.index]? = some node) :
    Ends (Sound unit base true) E (fun _ data? => EmittedNode.Placeable unit ⟨id, node, data?⟩)
      (unit.payload id) s := by
  by_cases hk : node.kind = .header
  · refine .congr (unit.payload_eq_header hn hk) (attachment_ends hr fun {a} _ _ => .pure hr ?_)
    refine ⟨fun data hdata => ?_, fun data _ hsome => ?_⟩
    · cases hdata
      rw [hk, HeaderTable.serialize, ObjectData.assemble_alignment]
      rfl
    · rw [hk] at hsome
      cases hsome
  · refine .congr (unit.payload_eq_assemble hn hk) ((payloadEmissions_ends hr hfit
      (hr.left.refers hn).mayRefer).bind fun {steps? _} _ hr hwhole => .pure hr ?_)
    refine ⟨fun data hdata => ?_, fun data hdata hsome => ?_⟩
    · obtain ⟨steps, -, rfl⟩ := Option.map_eq_some_iff.1 hdata
      rw [ObjectData.assemble_alignment]
    · obtain ⟨steps, rfl, rfl⟩ := Option.map_eq_some_iff.1 hdata
      exact ObjectData.dvd_size_assemble (hwhole hsome steps rfl)

/-- What is emitted for a node: the node as the image has it, with data that can be placed. -/
structure Emitted (unit : CompilationUnit) (s : Image) (id : NodeId) (emitted : EmittedNode) :
    Prop where
  id_eq : emitted.id = id
  node : s.nodes[id.index]? = some emitted.node
  placeable : emitted.Placeable unit

theorem Emitted.mono {id : NodeId} {emitted : EmittedNode} (h : unit.Emitted s id emitted)
    (hst : s ≤ t) : unit.Emitted t id emitted :=
  ⟨h.id_eq, hst.nodes _ _ h.node, h.placeable⟩

theorem index_lt_lasts : Lasts fun (s : Image) (id : NodeId) => id.index < s.nodes.size := by
  intro s t id h hle
  exact Nat.lt_of_lt_of_le h hle.nodes.size_le

/-- Existing nodes can be emitted. -/
theorem emits_ends (hr : Sound unit base true s) (hfit : base.StaticsFit unit.pointerSize)
    {ids : List NodeId} (hids : ∀ id ∈ ids, id.index < s.nodes.size) :
    Ends (Sound unit base true) E (fun t => List.Forall₂ (unit.Emitted t) ids)
      (ids.mapM unit.emit) s := by
  refine Ends.mapM (P := fun (t : Image) (id : NodeId) => id.index < t.nodes.size)
    (U := unit.Emitted) index_lt_lasts (fun _ => fun h hle => h.mono hle)
    (fun _ hr hlt => ?_) hr hids
  have hn := Array.getElem?_eq_getElem hlt
  refine .read (node_eq_ok.2 ⟨hn, rfl⟩) ((payload_ends hr hfit hn).bind fun hle hr hplaceable =>
    .pure hr ⟨rfl, hle.nodes _ _ hn, hplaceable⟩)

/-! ## Regions -/

/-- The entries of a node of this kind, if it is a region. -/
def regionMembers (emitted : List EmittedNode) : NodeKind → List RegionMember
  | .region region =>
    (emitted.filter fun member => region.accepts member.node.kind).filterMap EmittedNode.member?
  | .standaloneRegion descriptor =>
    (emitted.filter fun member => member.id == descriptor).filterMap EmittedNode.member?
  | _ => []

/-- Every region is below 4 GiB. -/
def RegionsFit (emitted : List EmittedNode) : Prop :=
  ∀ region ∈ emitted, totalSize (regionMembers emitted region.node.kind) ≤ maxWord32

instance (emitted : List EmittedNode) : Decidable (RegionsFit emitted) :=
  inferInstanceAs (Decidable (∀ region ∈ emitted, _ ≤ _))

/-- The alignment that all members of a region have. -/
def regionAlignment (unit : CompilationUnit) : RegionKind → Nat
  | .gcStaticDesc | .threadStaticGcDesc | .threadStaticsOffset => 4
  | .gcStatics | .threadStatics | .eagerConstructors => unit.pointerSize

theorem regionAlignment_le (unit : CompilationUnit) (region : RegionKind) :
    unit.regionAlignment region ≤ unit.pointerSize := by
  have hsize := unit.pointerSize_ge
  cases region <;> simp only [regionAlignment] <;> omega

theorem payloadAlignment_eq_regionAlignment {kind : NodeKind} {region : RegionKind}
    (h : kind.region? = some region) :
    unit.payloadAlignment kind = unit.regionAlignment region := by
  cases kind with
  | gcStaticDesc type thread => cases thread <;> cases h <;> rfl
  | threadStaticsOffset type => cases h; rfl
  | threadStaticsBlock type => cases h; rfl
  | gcStaticBase type => cases h; rfl
  | eagerConstructor method => cases h; rfl
  | _ => cases h

theorem mem_regionMembers {emitted : List EmittedNode} {p : EmittedNode → Bool}
    {member : RegionMember} (h : member ∈ (emitted.filter p).filterMap EmittedNode.member?) :
    ∃ e ∈ emitted, p e = true ∧ ∃ data, e.data? = some data ∧ member.size = data.size ∧
      member.alignment = data.alignment := by
  obtain ⟨e, he, hmember⟩ := List.mem_filterMap.1 h
  obtain ⟨hmem, hp⟩ := List.mem_filter.1 he
  obtain ⟨data, hdata, rfl⟩ := Option.map_eq_some_iff.1 hmember
  exact ⟨e, hmem, hp, data, hdata, rfl, rfl⟩

variable {emitted : List EmittedNode} {ids : List NodeId}

/-- The members of a table of the unit can be laid out. -/
theorem exists_build_region (hall : List.Forall₂ (unit.Emitted s) ids emitted)
    (region : RegionKind) (startSymbol endSymbol : String)
    (hsize : totalSize (regionMembers emitted (.region region)) ≤ maxWord32) :
    ∃ layout, RegionLayout.build region.node startSymbol endSymbol unit.pointerSize
      (regionMembers emitted (.region region)) = .ok layout := by
  refine RegionLayout.exists_build _ _ _ (unit.regionAlignment_le region) (fun member hm => ?_)
    hsize
  obtain ⟨e, he, haccepts, data, hdata, hsize, halign⟩ := mem_regionMembers hm
  obtain ⟨id, -, hemitted⟩ := exists_mem_of_forall₂ hall he
  have hregion : e.node.kind.region? = some region := by
    simpa [RegionKind.accepts] using haccepts
  have hdvd := hemitted.placeable.dvd data hdata (by rw [hregion]; rfl)
  rw [payloadAlignment_eq_regionAlignment hregion] at hdvd
  rw [hsize, halign, hemitted.placeable.alignment data hdata,
    payloadAlignment_eq_regionAlignment hregion]
  exact ⟨rfl, hdvd⟩

/-- So can the one descriptor of a region around it. -/
theorem exists_build_standalone (hall : List.Forall₂ (unit.Emitted s) ids emitted)
    (hnodup : ids.Nodup) (region descriptor : NodeId) (startSymbol endSymbol : String)
    (hsize : totalSize (regionMembers emitted (.standaloneRegion descriptor)) ≤ maxWord32) :
    ∃ layout, RegionLayout.build region startSymbol endSymbol unit.pointerSize
      (regionMembers emitted (.standaloneRegion descriptor)) = .ok layout := by
  refine RegionLayout.exists_build_single _ _ _ ?_ (fun member hm => ?_) hsize
  · have hids : emitted.map (·.id) = ids :=
      (map_eq_of_forall₂ (hall.flip.imp fun _ _ h => h.id_eq)).trans (List.map_id ids)
    calc (regionMembers emitted (.standaloneRegion descriptor)).length
        ≤ (emitted.filter fun member => member.id == descriptor).length :=
          List.length_filterMap_le _ _
      _ = (emitted.map (·.id)).count descriptor := by
          rw [List.count, List.countP_map, List.countP_eq_length_filter]
          rfl
      _ ≤ 1 := List.nodup_iff_count_le_one.1 (hids ▸ hnodup) descriptor
  · obtain ⟨e, he, -, data, hdata, -, halign⟩ := mem_regionMembers hm
    obtain ⟨id, -, hemitted⟩ := exists_mem_of_forall₂ hall he
    rw [halign, hemitted.placeable.alignment data hdata]
    exact unit.payloadAlignment_le _

/-- A region whose entries can be laid out is laid out. -/
theorem layoutRegion_ends {R : Image → Prop} (hr : R s) {region : NodeId} {node : Node}
    (hn : s.nodes[region.index]? = some node) {members : List EmittedNode}
    (hbuild : ∃ layout, RegionLayout.build region node.symbol (node.endSymbol?.getD "")
      unit.pointerSize (members.filterMap EmittedNode.member?) = .ok layout) :
    Ends R E (fun _ _ => True) (unit.layoutRegion region members) s := by
  obtain ⟨layout, hlayout⟩ := hbuild
  refine .read (node_eq_ok.2 ⟨hn, rfl⟩) ?_
  rw [hlayout]
  exact .pure hr trivial

theorem tableNodes_region (region : RegionKind) :
    unit.config.tableNodes[region.node.index]? = some (unit.config.regionNode region) := by
  cases region <;> rfl

/-- A marked table of the unit is laid out. -/
theorem layoutTable_ends (hr : Sound unit base attached t) (hst : s ≤ t)
    {closure : Closure NodeId} (hall : List.Forall₂ (unit.Emitted s) closure.nodes emitted)
    (hfit : RegionsFit emitted) {region : RegionKind}
    (hmarked : closure.contains region.node = true) :
    Ends (Sound unit base attached) E (fun _ _ => True)
      (unit.layoutRegion region.node (emitted.filter fun e => region.accepts e.node.kind)) t := by
  have hmem : region.node ∈ closure.nodes :=
    List.mem_append_left _ (Closure.contains_iff.1 hmarked)
  obtain ⟨e, he, hemitted⟩ := exists_mem_of_forall₂ hall.flip hmem
  have hn := (hemitted.mono hst).node
  have hkind : e.node.kind = .region region := by
    rw [Option.some.inj (hn.symm.trans (hr.left.table (tableNodes_region region)))]
    rfl
  have hsize := hfit e he
  rw [hkind] at hsize
  exact layoutRegion_ends hr hn (exists_build_region hall region _ _ hsize)

/-- An emitted region around one descriptor is laid out. -/
theorem layoutStandalone_ends (hr : Sound unit base attached t) (hst : s ≤ t)
    (hall : List.Forall₂ (unit.Emitted s) ids emitted) (hnodup : ids.Nodup)
    (hfit : RegionsFit emitted) {region : EmittedNode} (hregion : region ∈ emitted)
    {descriptor : NodeId} (hk : region.node.kind = .standaloneRegion descriptor) :
    Ends (Sound unit base attached) E (fun _ _ => True)
      (unit.layoutRegion region.id (emitted.filter fun e => e.id == descriptor)) t := by
  obtain ⟨id, -, hemitted⟩ := exists_mem_of_forall₂ hall hregion
  have hn := (hemitted.mono hst).node
  rw [← hemitted.id_eq] at hn
  have hsize := hfit region hregion
  rw [hk] at hsize
  exact layoutRegion_ends hr hn (exists_build_standalone hall hnodup _ descriptor _ _ hsize)

/-- All regions can be laid out. -/
theorem layoutRegions_ends (hr : Sound unit base attached s) {closure : Closure NodeId}
    (hall : List.Forall₂ (unit.Emitted s) closure.nodes emitted) (hnodup : closure.nodes.Nodup)
    (hfit : RegionsFit emitted) :
    Ends (Sound unit base attached) E (fun _ _ => True) (unit.layoutRegions closure emitted) s := by
  refine (Ends.mapM (P := fun _ region => closure.contains (RegionKind.node region) = true)
    (U := fun _ _ _ => True) (fun h _ => h) (fun _ => fun h _ => h)
    (fun hst hr hmarked => layoutTable_ends hr hst hall hfit hmarked) hr
    fun region hregion => (List.mem_filter.1 hregion).2).bind fun hst hr _ => ?_
  refine (Ends.filterMapM (fun {region t} hregion hst' hr => ?_) hr).bind
    fun _ hr _ => .pure hr trivial
  cases hk : region.node.kind with
  | standaloneRegion descriptor =>
    exact (layoutStandalone_ends hr (hst.trans hst') hall hnodup hfit hregion hk).map
      fun _ _ _ => trivial
  | _ => exact .pure hr trivial

end CompilationUnit

end NativeImage
