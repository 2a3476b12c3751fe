import NativeImage.Proofs.CompilationUnit.Fitting
import NativeImage.Proofs.CompilationUnit.FixedPoint
import NativeImage.Proofs.Object.Placement

/-!
# Members of the unit's regions

Which nodes a region holds is decided twice: by the kind of a node, and by whether it has data. The
second question never excludes a node. Whatever kind a region collects has data, so a region holds
all emitted nodes of its kind, and the runtime counts its entries right.

## Main definitions

- `RegionLayout.Holds` — a region that holds just these nodes
- `CompiledUnit.HoldsMembers` — a compiled unit whose first regions hold all they collect

## Main statements

- `CompilationUnit.payload_of_region?` — a node that a region collects has data
- `CompilationUnit.compile_holds_members` — compiled units are of this form
-/

namespace NativeImage

open ImageM

/-! ## Regions around their members -/

/-- The entry stands for the node and is as long as the node's data. -/
structure RegionChild.StandsFor (child : RegionChild) (emitted : EmittedNode) : Prop where
  node : child.node = emitted.id
  symbol : child.symbol = emitted.node.symbol
  size : emitted.data?.map ObjectData.size = some child.size

/-- The region holds these nodes, each once and in this order, one behind the other. -/
structure RegionLayout.Holds (layout : RegionLayout) (members : List EmittedNode) : Prop where
  children : List.Forall₂ RegionChild.StandsFor layout.children members
  nodup : (layout.children.map (·.node)).Nodup
  packed : layout.Packed

/-- The node has an entry in the region. -/
def RegionLayout.Has (layout : RegionLayout) (id : NodeId) : Prop :=
  id ∈ layout.children.map (·.node)

instance (layout : RegionLayout) (id : NodeId) : Decidable (layout.Has id) :=
  inferInstanceAs (Decidable (id ∈ layout.children.map (·.node)))

/-- Size of the entries of a region whose entries are all alike. -/
def RegionKind.entrySize? (pointerSize : Nat) : RegionKind → Option Nat
  | threadStaticsOffset => some 4
  | eagerConstructors => some pointerSize
  | gcStaticDesc | threadStaticGcDesc | gcStatics | threadStatics => none

/-- The nodes of a compiled unit that a region collects, in order of emission. -/
def CompiledUnit.membersOf (compiled : CompiledUnit) (kind : RegionKind) : List EmittedNode :=
  compiled.nodes.filter fun emitted => kind.accepts emitted.node.kind

/-- Names of the kinds that have a region. -/
def collectedNames : List String :=
  ["gc-static-desc", "thread-statics-offset", "gc-static-base", "thread-statics-block",
    "eager-cctor"]

/-- The layout is that of a region of the unit, with the symbols of its ends. -/
structure RegionLayout.IsTable (unit : CompilationUnit) (compiled : CompiledUnit)
    (kind : RegionKind) (layout : RegionLayout) : Prop where
  node : layout.node = kind.node
  startSymbol : layout.startSymbol = (unit.config.regionNode kind).symbol
  endSymbol : some layout.endSymbol = (unit.config.regionNode kind).endSymbol?
  /-- The region holds all emitted nodes of its kind, and no others. -/
  holds : layout.Holds (compiled.membersOf kind)
  /-- Where entries are alike, the runtime counts as many as there are nodes of the kind. -/
  counted : ∀ size ∈ kind.entrySize? unit.pointerSize,
    layout.elementCount size = (compiled.membersOf kind).length

/-- The regions of the unit come first and hold just what they collect. -/
structure CompiledUnit.HoldsMembers (unit : CompilationUnit) (compiled : CompiledUnit) : Prop where
  /-- The six regions in their fixed order. -/
  tables : List.Forall₂ (RegionLayout.IsTable unit compiled) RegionKind.all
    (compiled.regions.take 6)
  /-- Every emitted node of a kind that has a region has an entry in just one of them. -/
  unique : ∀ emitted ∈ compiled.nodes, emitted.node.kind.name ∈ collectedNames →
    (compiled.regions.take 6).countP (fun layout => layout.Has emitted.id) = 1

namespace RegionLayout.Holds

variable {layout : RegionLayout} {members : List EmittedNode}

/-- Entries are numbered like the nodes they stand for. -/
theorem map_node (h : layout.Holds members) :
    layout.children.map (·.node) = members.map (·.id) :=
  map_eq_of_forall₂ (h.children.imp fun _ _ hc => hc.node)

/-- The runtime sees as many entries as there are members, if all their data has the size it divides
by. -/
theorem elementCount_eq (h : layout.Holds members) {size : Nat} (hpos : 0 < size)
    (hsize : ∀ emitted ∈ members, ∀ data, emitted.data? = some data → data.size = size) :
    layout.elementCount size = members.length := by
  rw [h.packed.elementCount_eq hpos fun child hchild => ?_, h.children.length_eq]
  obtain ⟨emitted, he, hstands⟩ := exists_mem_of_forall₂ h.children.flip hchild
  obtain ⟨data, hdata, hsame⟩ := Option.map_eq_some_iff.1 hstands.size
  exact hsame.symm.trans (hsize emitted he data hdata)

end RegionLayout.Holds

/-- If all nodes have data, the entries that are placed for them stand for all of them. -/
theorem places_members {layout : RegionLayout} {members : List EmittedNode}
    (hdata : ∀ emitted ∈ members, ∃ data, emitted.data? = some data)
    (h : List.Forall₂ RegionChild.Places layout.children
      (members.filterMap EmittedNode.member?)) :
    List.Forall₂ RegionChild.StandsFor layout.children members := by
  generalize layout.children = children at h
  induction members generalizing children with
  | nil =>
    cases h
    exact .nil
  | cons emitted rest ih =>
    obtain ⟨⟨data, hsome⟩, hrest⟩ := List.forall_mem_cons.1 hdata
    have hmember : emitted.member? =
        some ⟨emitted.id, emitted.node.symbol, data.size, data.alignment⟩ := by
      rw [EmittedNode.member?, hsome]
      rfl
    rw [List.filterMap_cons_some hmember] at h
    cases h with
    | cons hplaces hlater =>
      refine .cons ⟨hplaces.node, hplaces.symbol, ?_⟩ (ih hrest _ hlater)
      rw [hsome, hplaces.size]
      rfl

namespace CompilationUnit

variable {unit : CompilationUnit} {bodies : CodeBodies} {methods : List MethodId} {s t : Image}

/-! ## Data of the members -/

/-- Whatever kind a region collects, there are steps that write its data. Where entries are alike,
the steps write just one. -/
theorem payloadEmissions_of_region? {kind : NodeKind} {region : RegionKind}
    (hkind : kind.region? = some region) {steps? : Option (List Emission)}
    (h : unit.payloadEmissions kind s = .ok steps? t) :
    ∃ steps, steps? = some steps ∧ ∀ size ∈ region.entrySize? unit.pointerSize,
      (steps.flatMap (Emission.encode unit.pointerSize)).length = size := by
  cases kind with
  | gcStaticDesc type thread =>
    obtain ⟨desc, -, hseries⟩ := ask_bind_eq_ok.1 h
    obtain ⟨steps, v, -, hlast⟩ := bind_eq_ok.1 hseries
    obtain ⟨rfl, -⟩ := pure_eq_ok.1 hlast
    cases thread <;> cases hkind <;> exact ⟨steps, rfl, nofun⟩
  | gcStaticBase type =>
    cases hkind
    obtain ⟨desc, -, hcount⟩ := ask_bind_eq_ok.1 h
    obtain ⟨count, hdesc⟩ := word32_bind_eq_ok hcount
    obtain ⟨id, v, -, hsymbol⟩ := bind_eq_ok.1 hdesc
    obtain ⟨name, -, -, hlast⟩ := symbol_bind_eq_ok.1 hsymbol
    obtain ⟨rfl, -⟩ := pure_eq_ok.1 hlast
    exact ⟨_, rfl, nofun⟩
  | threadStaticsBlock type =>
    cases hkind
    obtain ⟨desc, -, hsize⟩ := ask_bind_eq_ok.1 h
    obtain ⟨size, hlast⟩ := word32_bind_eq_ok hsize
    obtain ⟨rfl, -⟩ := pure_eq_ok.1 hlast
    exact ⟨_, rfl, nofun⟩
  | threadStaticsOffset type =>
    cases hkind
    obtain ⟨block, v, -, hsymbol⟩ := bind_eq_ok.1 h
    obtain ⟨name, -, -, hlast⟩ := symbol_bind_eq_ok.1 hsymbol
    obtain ⟨rfl, -⟩ := pure_eq_ok.1 hlast
    refine ⟨_, rfl, fun size hsize => ?_⟩
    cases hsize
    rfl
  | eagerConstructor method =>
    cases hkind
    obtain ⟨entry, v, -, hsymbol⟩ := bind_eq_ok.1 h
    obtain ⟨name, -, -, hlast⟩ := symbol_bind_eq_ok.1 hsymbol
    obtain ⟨rfl, -⟩ := pure_eq_ok.1 hlast
    refine ⟨_, rfl, fun size hsize => ?_⟩
    cases hsize
    simp [Emission.encode]
  | _ => cases hkind

/-- A node that a region collects has data. -/
theorem payload_of_region? {id : NodeId} {node : Node} {region : RegionKind}
    (hn : s.nodes[id.index]? = some node) (hkind : node.kind.region? = some region)
    {data? : Option ObjectData} (h : unit.payload id s = .ok data? t) :
    ∃ data, data? = some data ∧
      ∀ size ∈ region.entrySize? unit.pointerSize, data.size = size := by
  have hne : node.kind ≠ .header := by
    intro hheader
    rw [hheader] at hkind
    cases hkind
  rw [unit.payload_eq_assemble hn hne] at h
  obtain ⟨steps?, u, hsteps, hlast⟩ := bind_eq_ok.1 h
  obtain ⟨rfl, -⟩ := pure_eq_ok.1 hlast
  obtain ⟨steps, rfl, hsize⟩ := payloadEmissions_of_region? hkind hsteps
  refine ⟨_, rfl, fun size hs => ?_⟩
  rw [ObjectData.size, ObjectData.assemble_bytes]
  exact hsize size hs

/-! ## Attaching -/

/-- Attaching only adds to the image, and all tables are among the roots. -/
theorem attach_roots {roots : List NodeId} (h : unit.attach s = .ok roots t) :
    s ≤ t ∧ tableRoots ⊆ roots := by
  rw [attach, get_bind_apply] at h
  split at h
  · cases h
  · next hnone =>
    obtain ⟨headerNode, u, hheader, hrest⟩ := bind_eq_ok.1 h
    obtain ⟨modulesSection, v, hmodules, hrest⟩ := bind_eq_ok.1 hrest
    obtain ⟨tables, w, htables, hrest⟩ := bind_eq_ok.1 hrest
    obtain ⟨⟨header, blob?⟩, x, hblob, hlast⟩ := bind_eq_ok.1 hrest
    cases hheader
    cases hmodules
    obtain ⟨rfl, hd⟩ := tableHeader_spec htables
    obtain ⟨hle, -⟩ := embedMetadata_spec hblob hd
    cases hlast
    have hsx : s ≤ x := ((le_pushNode s _).trans (le_pushNode _ _)).trans hle
    refine ⟨⟨hsx.program, hsx.nodes, fun a ha => ?_⟩, fun id hid => ?_⟩
    · rw [ha] at hnone
      exact absurd rfl hnone
    · exact List.mem_cons_of_mem _ (List.mem_cons_of_mem _ (List.mem_append_left _ hid))

/-- Every region of the unit is one of its tables. -/
theorem node_mem_tableRoots (kind : RegionKind) : kind.node ∈ tableRoots := by
  cases kind <;> decide

/-! ## Laying out -/

/-- What laying out a region gives: its entries are the members of those nodes that have data. -/
theorem layoutRegion_eq_ok {region : NodeId} {members : List EmittedNode} {layout : RegionLayout}
    (h : unit.layoutRegion region members s = .ok layout t) :
    ∃ node, s.nodes[region.index]? = some node ∧ layout.node = region ∧
      layout.startSymbol = node.symbol ∧ layout.endSymbol = node.endSymbol?.getD "" ∧
      List.Forall₂ RegionChild.Places layout.children (members.filterMap EmittedNode.member?) ∧
      layout.Packed := by
  obtain ⟨node, hn, hbuild⟩ := node_bind_eq_ok.1 h
  refine ⟨node, hn, ?_⟩
  cases hok : RegionLayout.build region node.symbol (node.endSymbol?.getD "") unit.pointerSize
      (members.filterMap EmittedNode.member?) with
  | error cause =>
    rw [hok] at hbuild
    cases hbuild
  | ok built =>
    rw [hok] at hbuild
    obtain ⟨rfl, -⟩ := pure_eq_ok.1 hbuild
    exact RegionLayout.build_spec hok

/-- What laying out a region around nodes with data gives. -/
theorem layoutRegion_spec {region : NodeId} {members : List EmittedNode} {layout : RegionLayout}
    {node : Node} (hn : s.nodes[region.index]? = some node)
    (hdata : ∀ emitted ∈ members, ∃ data, emitted.data? = some data)
    (hnodup : (members.map (·.id)).Nodup)
    (h : unit.layoutRegion region members s = .ok layout t) :
    layout.node = region ∧ layout.startSymbol = node.symbol ∧
      layout.endSymbol = node.endSymbol?.getD "" ∧ layout.Holds members := by
  obtain ⟨found, hfound, hnode, hstart, hend, hplaces, hpacked⟩ := layoutRegion_eq_ok h
  cases hn.symm.trans hfound
  have hstands := places_members hdata hplaces
  refine ⟨hnode, hstart, hend, hstands, ?_, hpacked⟩
  rw [map_eq_of_forall₂ (hstands.imp fun child emitted hc => hc.node)]
  exact hnodup

/-- If all regions are marked, they are laid out first, in their fixed order. -/
theorem layoutRegions_spec {closure : Closure NodeId} {emitted : List EmittedNode}
    {layouts : List RegionLayout} (hmarked : ∀ kind : RegionKind, closure.contains kind.node = true)
    (h : unit.layoutRegions closure emitted s = .ok layouts t) :
    List.Forall₂ (fun (kind : RegionKind) layout =>
        unit.layoutRegion kind.node (emitted.filter fun member => kind.accepts member.node.kind) s =
          .ok layout s)
      RegionKind.all (layouts.take 6) := by
  obtain ⟨tables, u, htables, hrest⟩ := bind_eq_ok.1 h
  obtain ⟨standalone, v, -, hlast⟩ := bind_eq_ok.1 hrest
  obtain ⟨rfl, -⟩ := pure_eq_ok.1 hlast
  rw [List.filter_eq_self.2 fun kind _ => hmarked kind] at htables
  have hall := (mapM_same (fun kind _ layout w hl => (layoutRegion_readOnly _ _).same hl)
    htables).2
  have hlength : tables.length = 6 := hall.length_eq.symm
  rw [List.take_left' hlength]
  exact hall

/-! ## Compiled units -/

/-- The regions of a unit that has been compiled are marked. -/
theorem mark_contains_regions {closure : Closure NodeId}
    (h : unit.mark bodies methods s = .ok closure t) (kind : RegionKind) :
    closure.contains kind.node = true := by
  obtain ⟨tables, u, methodRoots, hattach, -, -, hdone, hexplored, -⟩ := mark_justified h
  have hroot := (attach_roots hattach).2 (node_mem_tableRoots kind)
  have hmem : kind.node ∈ closure.nodes := hexplored.roots_mem _ (List.mem_append_left _ hroot)
  rw [Closure.nodes, hdone, List.append_nil] at hmem
  obtain ⟨entry, he, heq⟩ := List.mem_map.1 hmem
  exact List.any_eq_true.2 ⟨entry, he, beq_iff_eq.2 heq⟩

/-- Kinds with a region, by their names. -/
theorem exists_region?_of_name {kind : NodeKind} (h : kind.name ∈ collectedNames) :
    ∃ region, kind.region? = some region := by
  cases kind with
  | gcStaticDesc type thread => cases thread <;> exact ⟨_, rfl⟩
  | threadStaticsOffset | threadStaticsBlock | gcStaticBase | eagerConstructor => exact ⟨_, rfl⟩
  | _ => simp [NodeKind.name, collectedNames] at h

theorem accepts_iff {region : RegionKind} {kind : NodeKind} :
    region.accepts kind = true ↔ kind.region? = some region := by
  rw [RegionKind.accepts, beq_iff_eq]

/-- A kind that has a region is accepted by just one of all. -/
theorem countP_accepts {kind : NodeKind} {region : RegionKind} (h : kind.region? = some region) :
    RegionKind.all.countP (fun other => other.accepts kind) = 1 := by
  simp only [RegionKind.accepts, h]
  cases region <;> decide

theorem countP_eq_of_forall₂ {α β : Type} {p : α → Bool} {q : β → Bool} {as : List α}
    {bs : List β} (h : List.Forall₂ (fun a b => p a = q b) as bs) :
    as.countP p = bs.countP q := by
  induction h with
  | nil => rfl
  | cons hab _ ih => rw [List.countP_cons, List.countP_cons, hab, ih]

/-- Data of a member is there, and of the size that entries of its region have. -/
theorem data_of_mem_membersOf {compiled : CompiledUnit}
    (hnodes : ∀ emitted ∈ compiled.nodes, s.nodes[emitted.id.index]? = some emitted.node ∧
      unit.payload emitted.id s = .ok emitted.data? s)
    {kind : RegionKind} {emitted : EmittedNode} (he : emitted ∈ compiled.membersOf kind) :
    ∃ data, emitted.data? = some data ∧
      ∀ size ∈ kind.entrySize? unit.pointerSize, data.size = size := by
  obtain ⟨hmem, haccepts⟩ := List.mem_filter.1 he
  obtain ⟨hn, hpayload⟩ := hnodes emitted hmem
  exact payload_of_region? hn (accepts_iff.1 haccepts) hpayload

theorem entrySize?_pos {kind : RegionKind} {size : Nat}
    (h : size ∈ kind.entrySize? unit.pointerSize) : 0 < size := by
  have hpointer := unit.pointerSize_ge
  cases kind <;> cases h <;> omega

/-- A region that holds the emitted nodes of its kind has an entry for a node if it accepts it. -/
theorem accepts_eq_has {compiled : CompiledUnit} (hnodup : (compiled.nodes.map (·.id)).Nodup)
    {kind : RegionKind} {layout : RegionLayout} (hl : layout.Holds (compiled.membersOf kind))
    {emitted : EmittedNode} (he : emitted ∈ compiled.nodes) :
    kind.accepts emitted.node.kind = decide (layout.Has emitted.id) := by
  rw [Bool.eq_iff_iff, decide_eq_true_iff, RegionLayout.Has, hl.map_node, List.mem_map]
  constructor
  · exact fun haccepts => ⟨emitted, List.mem_filter.2 ⟨he, haccepts⟩, rfl⟩
  · rintro ⟨other, hother, hid⟩
    obtain ⟨hmem, haccepts⟩ := List.mem_filter.1 hother
    obtain rfl := List.inj_on_of_nodup_map hnodup hmem he hid
    exact haccepts

/-- The nodes of the regions are the first of every unit, and stay. -/
theorem regionNode_of_initial_le {base : Program} (h : Image.initial unit.config base ≤ s)
    (kind : RegionKind) : s.nodes[kind.node.index]? = some (unit.config.regionNode kind) := by
  refine h.nodes _ _ ?_
  rw [Image.initial, List.getElem?_toArray]
  exact tableNodes_region kind

/-- The regions of every compiled unit hold just what they collect. -/
theorem compile_holds_members {base : Program} {image final : Image} {compiled : CompiledUnit}
    (hbase : Image.initial unit.config base ≤ image)
    (h : unit.compile bodies methods image = .ok compiled final) : compiled.HoldsMembers unit := by
  obtain ⟨closure, hmark, hids, hnodes, hlayout, -⟩ := compile_spec h
  obtain ⟨tables, attached, _, hattach, hle, -, -, -, hjustified⟩ := mark_justified hmark
  have hfinal := (hbase.trans (attach_roots hattach).1).trans hle
  have hnodup : (compiled.nodes.map (·.id)).Nodup := by
    rw [hids]
    exact hjustified.nodup
  have htables : List.Forall₂ (RegionLayout.IsTable unit compiled) RegionKind.all
      (compiled.regions.take 6) := by
    refine (layoutRegions_spec (mark_contains_regions hmark) hlayout).imp fun kind layout hl => ?_
    obtain ⟨hnode, hstart, hend, hholds⟩ := layoutRegion_spec (regionNode_of_initial_le hfinal kind)
      (fun emitted he => (data_of_mem_membersOf hnodes he).imp fun _ hd => hd.1)
      (hnodup.sublist (List.filter_sublist.map _)) hl
    refine ⟨hnode, hstart, by rw [hend]; rfl, hholds, fun size hsize => ?_⟩
    refine hholds.elementCount_eq (entrySize?_pos hsize) fun emitted he data hd => ?_
    obtain ⟨other, hother, hsizes⟩ := data_of_mem_membersOf hnodes he
    cases hd.symm.trans hother
    exact hsizes size hsize
  refine ⟨htables, fun emitted he hname => ?_⟩
  obtain ⟨region, hregion⟩ := exists_region?_of_name hname
  -- a region has an entry for the node just if it accepts it, and one region does
  have hhas : List.Forall₂ (fun (kind : RegionKind) (layout : RegionLayout) =>
      kind.accepts emitted.node.kind = decide (layout.Has emitted.id))
      RegionKind.all (compiled.regions.take 6) :=
    htables.imp fun kind layout hl => accepts_eq_has hnodup hl.holds he
  rw [← countP_accepts hregion]
  exact (countP_eq_of_forall₂ hhas).symm

/-- A unit whose regions have static fields of both sorts. -/
theorem counter_holds_members : ∃ compiled final,
    counterUnit.compile counterBodies [⟨5⟩] (.initial counterUnit.config counterProgram) =
      .ok compiled final ∧ compiled.HoldsMembers counterUnit := by
  obtain ⟨compiled, final, h⟩ := counter_compiles
  exact ⟨compiled, final, h, compile_holds_members le_rfl h⟩

end CompilationUnit

end NativeImage
