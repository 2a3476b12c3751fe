import NativeImage.CompilationUnit.Compile
import NativeImage.Proofs.Closure.Explored
import NativeImage.Proofs.CompilationUnit.Attachment

/-!
# Relocations resolve

The data of a node refers only to nodes that the node needs. Since the closure marks whatever a
marked node needs, every relocation of a compiled unit names a node that is emitted with it, and
laying out the data asks for no node that the closure has not seen.

## Main definitions

- `Image.Names` — the names that some nodes of an image have
- `CompiledUnit.SelfContained` — nothing that a compiled unit refers to is missing

## Main statements

- `CompilationUnit.payload_names_needed` — what the data of a node refers to
- `CompilationUnit.compile_spec` — a compiled unit has the marked nodes, and regions around them
- `CompilationUnit.compile_resolves_relocations` — compiled units are self-contained
-/

namespace NativeImage

/-- The target is the symbol, or the symbol of the end, of one of the nodes. -/
def Image.Names (image : Image) (ids : List NodeId) (target : String) : Prop :=
  ∃ id ∈ ids, ∃ node, image.nodes[id.index]? = some node ∧
    (target = node.symbol ∨ node.endSymbol? = some target)

/-- Whatever a compiled unit refers to is compiled with it. -/
structure CompiledUnit.SelfContained (compiled : CompiledUnit) (image : Image) : Prop where
  nodes : ∀ emitted ∈ compiled.nodes, image.nodes[emitted.id.index]? = some emitted.node
  /-- A relocation targets a symbol, or the symbol of the end, of an emitted node. -/
  relocations : ∀ emitted ∈ compiled.nodes, ∀ data ∈ emitted.data?,
    ∀ relocation ∈ data.relocations, ∃ target ∈ compiled.nodes,
      relocation.target = target.node.symbol ∨ target.node.endSymbol? = some relocation.target
  /-- An entry of the header names an emitted node and carries its symbols. -/
  header : ∀ entry ∈ compiled.header.entries, ∃ target ∈ compiled.nodes,
    target.id = entry.2.node ∧ entry.2.startSymbol = target.node.symbol ∧
      entry.2.endSymbol? = target.node.endSymbol?

/-- Whatever the steps refer to has the property. -/
def RefersOnly (P : String → Prop) (steps : List Emission) : Prop :=
  ∀ step ∈ steps, ∀ reference ∈ step.reference?, P reference.2

namespace RefersOnly

variable {P : String → Prop}

@[simp] theorem nil : RefersOnly P [] := by
  intro step h
  cases h

@[simp] theorem cons_iff {step : Emission} {rest : List Emission} :
    RefersOnly P (step :: rest) ↔ (∀ r ∈ step.reference?, P r.2) ∧ RefersOnly P rest := by
  simp [RefersOnly]

theorem append {first second : List Emission} (h : RefersOnly P first)
    (h' : RefersOnly P second) : RefersOnly P (first ++ second) := by
  intro step hs
  rcases List.mem_append.1 hs with hs | hs
  · exact h step hs
  · exact h' step hs

/-- The relocations of assembled data are among what the steps refer to. -/
theorem assemble {steps : List Emission} (h : RefersOnly P steps) {pointerSize alignment : Nat}
    {relocation : Relocation}
    (hr : relocation ∈ (ObjectData.assemble pointerSize alignment steps).relocations) :
    P relocation.target := by
  obtain ⟨step, hs, href⟩ := ObjectData.exists_reference_of_mem_relocations hr
  exact h step hs _ href

end RefersOnly

namespace ImageM

variable {s t : Image} {α β : Type}

theorem onProgram_eq_ok {action : ProgramM α} {a : α} (h : onProgram action s = .ok a t) :
    action s.program = .ok a t.program := by
  rw [onProgram] at h
  split at h
  · next hx =>
    cases h
    exact hx
  · cases h

theorem ask_bind_eq_ok {question : Program → Except ProgramError α} {f : α → ImageM β} {b : β} :
    (ask question >>= f) s = .ok b t ↔ ∃ a, question s.program = .ok a ∧ f a s = .ok b t := by
  rw [bind_apply, ask]
  cases question s.program <;> simp

theorem node_bind_eq_ok {id : NodeId} {f : Node → ImageM β} {b : β} :
    (node id >>= f) s = .ok b t ↔
      ∃ node, s.nodes[id.index]? = some node ∧ f node s = .ok b t := by
  rw [bind_apply, node]
  cases s.nodes[id.index]? <;> simp

/-- A symbol that is read is the name of its node. -/
theorem symbol_bind_eq_ok {id : NodeId} {f : String → ImageM β} {b : β} :
    (symbol id >>= f) s = .ok b t ↔
      ∃ name, (∀ ids, id ∈ ids → s.Names ids name) ∧ (symbol id s = .ok name s) ∧
        f name s = .ok b t := by
  rw [symbol, bind_assoc, node_bind_eq_ok]
  constructor
  · rintro ⟨node, hn, h⟩
    refine ⟨node.symbol, fun ids hid => ⟨id, hid, node, hn, .inl rfl⟩, ?_, h⟩
    rw [bind_of_ok (node_eq_ok.2 ⟨hn, rfl⟩)]
    rfl
  · rintro ⟨name, -, hs, h⟩
    obtain ⟨node, hn, hs⟩ := node_bind_eq_ok.1 hs
    obtain ⟨rfl, -⟩ := pure_eq_ok.1 hs
    exact ⟨node, hn, h⟩

theorem attachment_bind_eq_ok {f : Attachment → ImageM β} {b : β} :
    (attachment >>= f) s = .ok b t ↔
      ∃ a, s.attachment? = some a ∧ f a s = .ok b t := by
  rw [bind_apply, attachment]
  cases s.attachment? <;> simp

end ImageM

namespace CompilationUnit

open ImageM HeaderTable

variable {unit : CompilationUnit} {s t : Image}

/-! ## Data of single kinds -/

theorem word32_bind_eq_ok {α : Type} {value : Nat} {f : Nat → ImageM α} {a : α}
    (h : (word32 value >>= f) s = .ok a t) : ∃ word, f word s = .ok a t := by
  rw [word32] at h
  split at h
  · exact ⟨value, h⟩
  · cases h

/-- Series are numbers only. -/
theorem seriesEmissions_spec (P : String → Prop) {pointerSize : Nat} {slots : List Nat}
    {steps : List Emission} (h : seriesEmissions pointerSize slots s = .ok steps t) :
    t = s ∧ RefersOnly P steps := by
  obtain ⟨entries, u, hentries, hlast⟩ := bind_eq_ok.1 h
  obtain ⟨rfl, rfl⟩ := pure_eq_ok.1 hlast
  have hseries (series : Nat × Nat) (entry : List Emission) (w : Image)
      (he : (do return [Emission.u32 (← word32 series.1), Emission.u32 (← word32 series.2)] :
        ImageM (List Emission)) s = .ok entry w) : w = s ∧ RefersOnly P entry := by
    obtain ⟨size, hsize⟩ := word32_bind_eq_ok he
    obtain ⟨offset, hoffset⟩ := word32_bind_eq_ok hsize
    obtain ⟨rfl, rfl⟩ := pure_eq_ok.1 hoffset
    exact ⟨rfl, by simp [Emission.u32, Emission.reference?]⟩
  obtain ⟨rfl, hall⟩ := mapM_same (fun series _ entry w he => (hseries series entry w he).1)
    hentries
  refine ⟨rfl, RefersOnly.cons_iff.2 ⟨by simp [Emission.u32, Emission.reference?], ?_⟩⟩
  intro step hs
  obtain ⟨entry, he, hs⟩ := List.mem_flatten.1 hs
  obtain ⟨series, -, hse⟩ := exists_mem_of_forall₂ hall he
  exact (hseries series entry _ hse).2 step hs

/-- Steps that are given without asking for anything. -/
theorem refersOnly_of_pure {P : String → Prop} {steps : List Emission}
    {steps? : Option (List Emission)} (h : (pure (some steps) : ImageM _) s = .ok steps? t)
    (hrefers : RefersOnly P steps) : t = s ∧ ∀ found ∈ steps?, RefersOnly P found := by
  obtain ⟨rfl, rfl⟩ := pure_eq_ok.1 h
  refine ⟨rfl, ?_⟩
  rintro _ ⟨⟩
  exact hrefers

/-- The steps of a node's data refer only to nodes that the node needs, and writing them down asks
for no other node. -/
theorem payloadEmissions_names_needed {kind : NodeKind} {needed : List NodeId}
    {steps? : Option (List Emission)} (hneeds : unit.needs kind s = .ok needed s)
    (h : unit.payloadEmissions kind s = .ok steps? t) :
    t = s ∧ ∀ steps ∈ steps?, RefersOnly (s.Names needed) steps := by
  cases kind with
  | gcStaticDesc type thread =>
    obtain ⟨desc, -, hseries⟩ := ask_bind_eq_ok.1 h
    obtain ⟨steps, v, hsteps, hlast⟩ := bind_eq_ok.1 hseries
    obtain ⟨rfl, hrefers⟩ := seriesEmissions_spec (s.Names needed) hsteps
    exact refersOnly_of_pure hlast hrefers
  | gcStaticBase type =>
    obtain ⟨descriptor, u, hdescriptor, hpure⟩ := bind_eq_ok.1 hneeds
    obtain ⟨rfl, rfl⟩ := pure_eq_ok.1 hpure
    obtain ⟨desc, -, hcount⟩ := ask_bind_eq_ok.1 h
    obtain ⟨count, hdesc⟩ := word32_bind_eq_ok hcount
    rw [bind_of_ok hdescriptor] at hdesc
    obtain ⟨name, hname, -, hlast⟩ := symbol_bind_eq_ok.1 hdesc
    exact refersOnly_of_pure hlast (by simp [Emission.reference?, hname])
  | threadStaticsBlock type =>
    obtain ⟨desc, -, hsize⟩ := ask_bind_eq_ok.1 h
    obtain ⟨size, hlast⟩ := word32_bind_eq_ok hsize
    exact refersOnly_of_pure hlast (by simp [Emission.reference?])
  | threadStaticsOffset type =>
    obtain ⟨block, u, hblock, hpure⟩ := bind_eq_ok.1 hneeds
    obtain ⟨rfl, rfl⟩ := pure_eq_ok.1 hpure
    rw [payloadEmissions, bind_of_ok hblock] at h
    obtain ⟨name, hname, -, hlast⟩ := symbol_bind_eq_ok.1 h
    exact refersOnly_of_pure hlast (by simp [Emission.reference?, hname])
  | eagerConstructor method =>
    obtain ⟨target, u, htarget, hpure⟩ := bind_eq_ok.1 hneeds
    obtain ⟨rfl, rfl⟩ := pure_eq_ok.1 hpure
    rw [payloadEmissions, bind_of_ok htarget] at h
    obtain ⟨name, hname, -, hlast⟩ := symbol_bind_eq_ok.1 h
    exact refersOnly_of_pure hlast (by simp [Emission.reference?, hname])
  | tlsDirectory =>
    obtain ⟨rfl, -⟩ := pure_eq_ok.1 hneeds
    obtain ⟨start, hstart, -, h⟩ := symbol_bind_eq_ok.1 h
    obtain ⟨stop, hstop, -, h⟩ := symbol_bind_eq_ok.1 h
    obtain ⟨index, hindex, -, h⟩ := symbol_bind_eq_ok.1 h
    exact refersOnly_of_pure h
      (by simp [Emission.reference?, Emission.u32, hstart, hstop, hindex])
  | modulesSection =>
    obtain ⟨attachment, ha, hneeds⟩ := attachment_bind_eq_ok.1 hneeds
    obtain ⟨rfl, -⟩ := pure_eq_ok.1 hneeds
    obtain ⟨again, hagain, h⟩ := attachment_bind_eq_ok.1 h
    obtain rfl : attachment = again := Option.some.inj (ha.symm.trans hagain)
    obtain ⟨name, hname, -, h⟩ := symbol_bind_eq_ok.1 h
    exact refersOnly_of_pure h (by simp [Emission.reference?, hname])
  | fatPointer entry target dictionary =>
    obtain ⟨rfl, -⟩ := pure_eq_ok.1 hneeds
    obtain ⟨code, hcode, -, h⟩ := symbol_bind_eq_ok.1 h
    obtain ⟨layout, hlayout, -, h⟩ := symbol_bind_eq_ok.1 h
    exact refersOnly_of_pure h (by simp [Emission.reference?, hcode, hlayout])
  | threadStaticsIndex | typeManagerIndirection | metadataBlob =>
    exact refersOnly_of_pure h (by simp [Emission.reference?, Emission.u32])
  | methodCode _ | externMethod _ | runtimeImport _ | unboxingStub _ _ | shadowMethod _ _
  | helper _ | externSymbol _ | dictionaryLayout _ | standaloneRegion _ | region _ | header =>
    obtain ⟨rfl, rfl⟩ := pure_eq_ok.1 h
    exact ⟨rfl, by rintro _ ⟨⟩⟩

/-- The steps of a header refer to the nodes of its entries. -/
theorem header_names_needed {header : HeaderTable} (hd : header.Describes s) (sections : Nat)
    (pointerSize : Nat) :
    RefersOnly (s.Names (header.entries.map fun entry => entry.2.node))
      (preamble pointerSize sections ++
        header.entries.flatMap fun (tag, entry) => entryEmissions tag entry) := by
  refine .append (by simp [preamble, Emission.reference?, Emission.u32, Emission.u16, Emission.u8])
    fun step hs => ?_
  obtain ⟨⟨tag, entry⟩, he, hs⟩ := List.mem_flatMap.1 hs
  obtain ⟨node, hn, hstart, hend⟩ := hd tag entry (mem_entries.1 he)
  have hmem : entry.node ∈ header.entries.map fun entry => entry.2.node :=
    List.mem_map.2 ⟨_, he, rfl⟩
  have hentry : RefersOnly (s.Names (header.entries.map fun entry => entry.2.node))
      (entryEmissions tag entry) := by
    have hfirst : s.Names (header.entries.map fun entry => entry.2.node) entry.startSymbol :=
      ⟨entry.node, hmem, node, hn, .inl hstart⟩
    cases hsome : entry.endSymbol? with
    | none => simp [entryEmissions, hsome, Emission.reference?, Emission.u32, hfirst]
    | some last =>
      have hlast : s.Names (header.entries.map fun entry => entry.2.node) last :=
        ⟨entry.node, hmem, node, hn, .inr (hend.symm.trans hsome)⟩
      simp [entryEmissions, hsome, Emission.reference?, Emission.u32, hfirst, hlast]
  exact hentry step hs

/-! ## Data of marked nodes -/

theorem mapM_resolve_node (ids : List NodeId) :
    (ids.map Request.node).mapM unit.resolve = pure ids := by
  induction ids with
  | nil => rfl
  | cons id rest ih => simp [List.mapM_cons, resolve, ih]

/-- A node other than a method body needs what its kind says. -/
theorem expand_eq_needs {bodies : CodeBodies} {id : NodeId} {node : Node}
    (hn : s.nodes[id.index]? = some node) (hk : ∀ method, node.kind ≠ .methodCode ⟨method, false⟩) :
    Closure.expand (unit.dependencyContext bodies) id s = unit.needs node.kind s := by
  have hbind : Closure.expand (unit.dependencyContext bodies) id s =
      (unit.dependencies bodies id >>= fun requests => requests.mapM unit.resolve) s := rfl
  rw [hbind, bind_apply, unit.dependencies_eq_needs hn hk, ← bind_apply, bind_assoc]
  simp only [pure_bind, mapM_resolve_node, bind_pure]

/-- The data of a node refers only to nodes that the node needs, and writing it down asks for no
other node. -/
theorem payload_names_needed {bodies : CodeBodies} {id : NodeId} {needed : List NodeId}
    {data? : Option ObjectData} (hd : ∀ a, s.attachment? = some a → a.header.Describes s)
    (hexpand : Closure.expand (unit.dependencyContext bodies) id s = .ok needed s)
    (h : unit.payload id s = .ok data? t) :
    t = s ∧ ∀ data ∈ data?, ∀ relocation ∈ data.relocations,
      s.Names needed relocation.target := by
  obtain ⟨node, hn, -⟩ := node_bind_eq_ok.1 h
  have hneeds (hk : ∀ method, node.kind ≠ .methodCode ⟨method, false⟩) :
      unit.needs node.kind s = .ok needed s := (expand_eq_needs hn hk).symm.trans hexpand
  by_cases hk : node.kind = .header
  · rw [unit.payload_eq_header hn hk] at h
    obtain ⟨a, ha, hpure⟩ := attachment_bind_eq_ok.1 h
    obtain ⟨rfl, rfl⟩ := pure_eq_ok.1 hpure
    have hheader := hneeds (by simp [hk])
    rw [hk] at hheader
    obtain ⟨again, hagain, hpure⟩ := attachment_bind_eq_ok.1 hheader
    obtain rfl : a = again := Option.some.inj (ha.symm.trans hagain)
    obtain ⟨rfl, -⟩ := pure_eq_ok.1 hpure
    refine ⟨rfl, ?_⟩
    rintro _ ⟨⟩ relocation hr
    exact (header_names_needed (hd a ha) _ _).assemble hr
  · rw [unit.payload_eq_assemble hn hk] at h
    obtain ⟨steps?, u, hsteps, hlast⟩ := bind_eq_ok.1 h
    obtain ⟨rfl, rfl⟩ := pure_eq_ok.1 hlast
    by_cases hc : ∃ method, node.kind = .methodCode ⟨method, false⟩
    · obtain ⟨method, hc⟩ := hc
      rw [hc] at hsteps
      obtain ⟨rfl, rfl⟩ := pure_eq_ok.1 hsteps
      exact ⟨rfl, by rintro _ ⟨⟩⟩
    · rw [not_exists] at hc
      obtain ⟨rfl, hrefers⟩ := payloadEmissions_names_needed (hneeds hc) hsteps
      refine ⟨rfl, fun data hdata relocation hr => ?_⟩
      obtain ⟨steps, hs, rfl⟩ := Option.map_eq_some_iff.1 hdata
      exact (hrefers steps hs).assemble hr

/-! ## Compiled units -/

/-- A closure that was not refused is explored to its end, and its unit is attached. -/
theorem mark_spec {bodies : CodeBodies} {methods : List MethodId} {closure : Closure NodeId}
    (h : unit.mark bodies methods s = .ok closure t) :
    ∃ roots attachment, Closure.Explored (unit.dependencyContext bodies) roots closure t ∧
      closure.frontier = [] ∧ t.attachment? = some attachment ∧
      attachment.headerNode ∈ roots ∧
      (∃ node, t.nodes[attachment.headerNode.index]? = some node ∧ node.kind = .header) ∧
      attachment.header.Describes t := by
  obtain ⟨tables, u, hattach, hrest⟩ := bind_eq_ok.1 h
  obtain ⟨methodRoots, v, hresolve, hclose⟩ := bind_eq_ok.1 hrest
  have huv : u ≤ v := (Settles.mapM fun method _ => unit.resolve_settles (.call method)).grows
    hresolve
  rw [close, get_bind_apply] at hclose
  obtain ⟨marked, w, hrun, hdone⟩ := bind_eq_ok.1 hclose
  have hstart := Closure.Explored.start (unit.dependencyContext bodies) (tables ++ methodRoots) v
  obtain ⟨hexplored, hvw⟩ := Closure.run_explored (unit.dependencies_settles bodies)
    unit.resolve_settles hstart hrun
  split at hdone
  · rename_i hempty
    obtain ⟨rfl, rfl⟩ := pure_eq_ok.1 hdone
    obtain ⟨attachment, ha, hroot, ⟨node, hn, hk⟩, hd⟩ := attach_spec hattach
    have huw := huv.trans hvw
    exact ⟨_, attachment, hexplored, List.isEmpty_iff.1 hempty, huw.attachment _ ha,
      List.mem_append_left _ hroot, ⟨node, huw.nodes _ _ hn, hk⟩, hd.mono huw⟩
  · cases hdone

theorem emit_eq_ok {id : NodeId} {emitted : EmittedNode} :
    unit.emit id s = .ok emitted t ↔ emitted.id = id ∧
      s.nodes[id.index]? = some emitted.node ∧ unit.payload id s = .ok emitted.data? t := by
  rw [emit, node_bind_eq_ok]
  constructor
  · rintro ⟨node, hn, h⟩
    obtain ⟨data?, u, hdata, hlast⟩ := bind_eq_ok.1 h
    obtain ⟨rfl, rfl⟩ := pure_eq_ok.1 hlast
    exact ⟨rfl, hn, hdata⟩
  · rintro ⟨rfl, hn, hdata⟩
    refine ⟨emitted.node, hn, ?_⟩
    rw [bind_of_ok hdata]
    rfl

theorem layoutRegion_readOnly (region : NodeId) (members : List EmittedNode) :
    ReadOnly (unit.layoutRegion region members) := by
  refine (node_readOnly region).bind fun node => ?_
  split
  · exact .pure _
  · exact .throw _

/-- Laying out regions changes nothing. -/
theorem layoutRegions_readOnly (closure : Closure NodeId) (emitted : List EmittedNode) :
    ReadOnly (unit.layoutRegions closure emitted) := by
  refine (ReadOnly.mapM (fun kind => layoutRegion_readOnly _ _) _).bind fun tables => ?_
  refine (ReadOnly.filterMapM (fun region => ?_) _).bind fun standalone => .pure _
  split
  · rw [map_eq_pure_bind]
    exact (layoutRegion_readOnly _ _).bind fun _ => .pure _
  · exact .pure none

/-- What the final state says of a marked node: what the node needs is marked, and its data names
only that. -/
theorem payload_names_marked {bodies : CodeBodies} {roots : List NodeId}
    {closure : Closure NodeId} {attachment : Attachment}
    (hexplored : Closure.Explored (unit.dependencyContext bodies) roots closure s)
    (hdone : closure.frontier = []) (ha : s.attachment? = some attachment)
    (hd : attachment.header.Describes s) {id : NodeId} (hid : id ∈ closure.nodes)
    {data? : Option ObjectData} (h : unit.payload id s = .ok data? t) :
    t = s ∧ ∀ data ∈ data?, ∀ relocation ∈ data.relocations,
      s.Names closure.nodes relocation.target := by
  obtain ⟨needed, hexpand, hneeded⟩ := hexplored.exists_expansion hdone hid
  have hdescribes : ∀ a, s.attachment? = some a → a.header.Describes s := by
    intro a hs
    obtain rfl : attachment = a := Option.some.inj (ha.symm.trans hs)
    exact hd
  obtain ⟨rfl, hnames⟩ := payload_names_needed hdescribes hexpand h
  refine ⟨rfl, fun data hdata relocation hr => ?_⟩
  obtain ⟨other, ho, hnode⟩ := hnames data hdata relocation hr
  exact ⟨other, hneeded other ho, hnode⟩

/-- The entries of the header name marked nodes, and carry their symbols. -/
theorem header_names_marked {bodies : CodeBodies} {roots : List NodeId}
    {closure : Closure NodeId} {attachment : Attachment} {headerNode : Node}
    (hexplored : Closure.Explored (unit.dependencyContext bodies) roots closure s)
    (hdone : closure.frontier = []) (ha : s.attachment? = some attachment)
    (hroot : attachment.headerNode ∈ roots)
    (hn : s.nodes[attachment.headerNode.index]? = some headerNode)
    (hk : headerNode.kind = .header) (hd : attachment.header.Describes s)
    {entry : Section × HeaderEntry} (he : entry ∈ attachment.header.entries) :
    entry.2.node ∈ closure.nodes ∧ ∃ node, s.nodes[entry.2.node.index]? = some node ∧
      entry.2.startSymbol = node.symbol ∧ entry.2.endSymbol? = node.endSymbol? := by
  obtain ⟨needed, hexpand, hneeded⟩ :=
    hexplored.exists_expansion hdone (hexplored.roots_mem _ hroot)
  rw [expand_eq_needs hn (by simp [hk]), hk] at hexpand
  obtain ⟨other, hother, hpure⟩ := attachment_bind_eq_ok.1 hexpand
  obtain rfl : attachment = other := Option.some.inj (ha.symm.trans hother)
  obtain ⟨rfl, -⟩ := pure_eq_ok.1 hpure
  exact ⟨hneeded _ (List.mem_map.2 ⟨entry, he, rfl⟩), hd entry.1 entry.2 (mem_entries.1 he)⟩

/-- A compiled unit has the marked nodes with their data, its regions are laid out around them, and
its header is that of the attachment, all in the image that the closure has left. -/
theorem compile_spec {bodies : CodeBodies} {methods : List MethodId} {compiled : CompiledUnit}
    (h : unit.compile bodies methods s = .ok compiled t) :
    ∃ closure, unit.mark bodies methods s = .ok closure t ∧
      compiled.nodes.map (·.id) = closure.nodes ∧
      (∀ emitted ∈ compiled.nodes, t.nodes[emitted.id.index]? = some emitted.node ∧
        unit.payload emitted.id t = .ok emitted.data? t) ∧
      unit.layoutRegions closure compiled.nodes t = .ok compiled.regions t ∧
      ∃ attachment, t.attachment? = some attachment ∧ compiled.header = attachment.header := by
  obtain ⟨closure, u, hmark, hemits⟩ := bind_eq_ok.1 h
  obtain ⟨emitted, v, hemit, hlayout⟩ := bind_eq_ok.1 hemits
  obtain ⟨regions, w, hregions, hheader⟩ := bind_eq_ok.1 hlayout
  obtain ⟨roots, attachment, hexplored, hdone, ha, -, -, hd⟩ := mark_spec hmark
  -- emitting and laying out leave the image that the closure has made
  have hsame : ∀ id ∈ closure.nodes, ∀ e v, unit.emit id u = .ok e v → v = u :=
    fun id hid e v he => (payload_names_marked hexplored hdone ha hd hid (emit_eq_ok.1 he).2.2).1
  obtain ⟨rfl, hall⟩ := mapM_same hsame hemit
  obtain rfl := (layoutRegions_readOnly closure emitted).same hregions
  obtain ⟨attachment, hattached, hlast⟩ := attachment_bind_eq_ok.1 hheader
  obtain ⟨rfl, rfl⟩ := pure_eq_ok.1 hlast
  have hids : closure.nodes.map id = emitted.map (·.id) :=
    map_eq_of_forall₂ (hall.imp fun id e he => (emit_eq_ok.1 he).1.symm)
  rw [List.map_id] at hids
  refine ⟨closure, hmark, hids.symm, fun e he => ?_, hregions, attachment, hattached, rfl⟩
  obtain ⟨id, -, hemit⟩ := exists_mem_of_forall₂ hall he
  obtain ⟨rfl, hnode, hdata⟩ := emit_eq_ok.1 hemit
  exact ⟨hnode, hdata⟩

/-- A compiled unit is self-contained. The image after the compilation is the one that the closure
has left: it gives the data of every marked node without any further node. -/
theorem compile_resolves_relocations {bodies : CodeBodies} {methods : List MethodId}
    {image final : Image} {compiled : CompiledUnit}
    (h : unit.compile bodies methods image = .ok compiled final) :
    compiled.SelfContained final ∧ ∃ closure, unit.mark bodies methods image = .ok closure final ∧
      compiled.nodes.map (·.id) = closure.nodes ∧
      ∀ emitted ∈ compiled.nodes, unit.payload emitted.id final = .ok emitted.data? final := by
  obtain ⟨closure, hmark, hids, hnodes, -, again, hagain, hheader⟩ := compile_spec h
  obtain ⟨roots, attachment, hexplored, hdone, ha, hroot, ⟨headerNode, hn, hk⟩, hd⟩ :=
    mark_spec hmark
  obtain rfl : attachment = again := Option.some.inj (ha.symm.trans hagain)
  have hfind : ∀ id ∈ closure.nodes, ∀ node, final.nodes[id.index]? = some node →
      ∃ e ∈ compiled.nodes, e.id = id ∧ e.node = node := by
    intro id hid node hnode
    rw [← hids] at hid
    obtain ⟨e, he, rfl⟩ := List.mem_map.1 hid
    exact ⟨e, he, rfl, Option.some.inj ((hnodes e he).1.symm.trans hnode)⟩
  refine ⟨⟨fun e he => (hnodes e he).1, fun e he data hdata relocation hr => ?_,
    fun entry he => ?_⟩, closure, hmark, hids, fun e he => (hnodes e he).2⟩
  · have hid : e.id ∈ closure.nodes := hids ▸ List.mem_map_of_mem he
    obtain ⟨id, hid, node, hnode, hname⟩ :=
      (payload_names_marked hexplored hdone ha hd hid (hnodes e he).2).2 data hdata relocation hr
    obtain ⟨target, ht, -, rfl⟩ := hfind id hid node hnode
    exact ⟨target, ht, hname⟩
  · rw [hheader] at he
    obtain ⟨hid, node, hnode, hstart, hend⟩ :=
      header_names_marked hexplored hdone ha hroot hn hk hd he
    obtain ⟨target, ht, htarget, rfl⟩ := hfind entry.2.node hid node hnode
    exact ⟨target, ht, htarget, hstart, hend⟩

/-! ## A unit with static fields and shared code -/

/-- A class with static fields, and a generic class with an instance over the former. -/
def counterProgram : Program where
  modules := Program.initial.modules
  types := Program.initial.types ++
    #[⟨{ name := "Counter", module := .core,
          statics := { gcSlots := [0], threadGcSlots := [1], threadSize := 16 } }, .declared⟩,
      ⟨{ name := "Box", module := .core, genericArity := 1 }, .declared⟩,
      ⟨{ name := "Box<Counter>", module := .core, genericArity := 1 }, .derived ⟨3⟩ [⟨2⟩]⟩]
  methods := Program.initial.methods ++
    #[⟨{ name := "Main", owner := ⟨2⟩, isStatic := true }, .declared⟩,
      ⟨{ name := "Get", owner := ⟨3⟩ }, .declared⟩,
      ⟨{ name := "Get", owner := ⟨4⟩ }, .derived ⟨6⟩ []⟩]

def counterUnit : CompilationUnit := ⟨{ arch := .x64 }, .everything, .absent⟩

/-- The entry point uses the static fields and calls shared code. -/
def counterBodies : CodeBodies :=
  ⟨[(⟨5⟩, [.gcStaticBase ⟨2⟩, .threadStaticBase ⟨2⟩, .call ⟨7⟩])]⟩

theorem counter_resolves_relocations : ∃ compiled final,
    counterUnit.compile counterBodies [⟨5⟩] (.initial counterUnit.config counterProgram) =
      .ok compiled final ∧ compiled.SelfContained final := by
  have hok : (match counterUnit.compile counterBodies [⟨5⟩]
      (.initial counterUnit.config counterProgram) with
    | .ok .. => true
    | .error .. => false) = true := by decide +kernel
  split at hok
  · rename_i compiled final h
    exact ⟨compiled, final, h, (compile_resolves_relocations h).1⟩
  · cases hok

end CompilationUnit

end NativeImage
