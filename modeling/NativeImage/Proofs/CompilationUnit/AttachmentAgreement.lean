import NativeImage.Proofs.CompilationUnit.Attachment
import NativeImage.Proofs.CompilationUnit.Expansion

/-!
# Attaching twin images

Attaching a unit appends the same nodes to twin images and lists the same tables in both headers.

## Main definitions

- `CompilationUnit.headerNode`, `CompilationUnit.modulesNode`, `CompilationUnit.blobNode` — what is
  appended
- `Attachment.Of` — the attachment of a unit whose tables have been entered

## Main statements

- `CompilationUnit.attach_ok` — a unit without an attachment can be attached
- `CompilationUnit.attach_agrees` — attaching twins leaves twins
-/

namespace NativeImage

open Program Image ImageM

namespace CompilationUnit

variable {unit : CompilationUnit} {base : Program} {s t : Image}

/-! ## The tables in the header -/

theorem addSection_settles (header : HeaderTable) (tag : Section) (id : NodeId) :
    Settles (addSection header tag id) := by
  refine (node_settles id).bind fun node => ?_
  split
  · exact .pure _
  · exact .throw _

theorem addSections_settles (regions : List (Section × RegionKind)) (header : HeaderTable) :
    Settles (regions.foldlM (fun header (tag, region) => addSection header tag region.node)
      header : ImageM HeaderTable) := by
  induction regions generalizing header with
  | nil => exact .pure header
  | cons region rest ih =>
    rw [List.foldlM_cons]
    exact (addSection_settles header region.1 region.2.node).bind ih

theorem tableHeader_settles : Settles tableHeader := by
  refine (addSections_settles _ _).bind fun header => ?_
  exact (addSection_settles _ _ _).bind fun _ => addSection_settles _ _ _

/-- The tables are entered in the header, with the section of the metadata left free. -/
theorem exists_tableHeader (config : UnitConfig) (base : Program) : ∃ header,
    tableHeader (Image.initial config base) = .ok header (Image.initial config base) ∧
      header.find .embeddedMetadata = none := ⟨_, rfl, rfl⟩

/-! ## Nodes of an attachment -/

def headerNode (unit : CompilationUnit) : Node where
  kind := .header
  symbol := tableSymbol unit.config.unitPrefix "ReadyToRunHeader"

def modulesNode (unit : CompilationUnit) : Node where
  kind := .modulesSection
  symbol := tableSymbol unit.config.unitPrefix "Modules"

def blobNode (unit : CompilationUnit) : Node where
  kind := .metadataBlob
  symbol := regionSymbol unit.config.unitPrefix "EmbeddedMetadata" .first
  endSymbol? := some (regionSymbol unit.config.unitPrefix "EmbeddedMetadata" .last)

/-- Of a node that belongs to an attachment, the kind says everything. -/
structure IsAttachmentNode (unit : CompilationUnit) (x : Node) : Prop where
  isAttached : x.kind.isAttached = true
  self_match : ∀ T M N, x.kind.Match T M N x.kind
  symbols : ∀ s, unit.symbolsOf x.kind s = .ok (x.symbol, x.endSymbol?) s

theorem headerNode_spec (unit : CompilationUnit) : unit.IsAttachmentNode unit.headerNode :=
  ⟨rfl, fun _ _ _ => .header, fun _ => rfl⟩

theorem modulesNode_spec (unit : CompilationUnit) : unit.IsAttachmentNode unit.modulesNode :=
  ⟨rfl, fun _ _ _ => .modulesSection, fun _ => rfl⟩

theorem blobNode_spec (unit : CompilationUnit) : unit.IsAttachmentNode unit.blobNode :=
  ⟨rfl, fun _ _ _ => .metadataBlob, fun _ => rfl⟩

/-- Such a node may be appended to an attached image that has none of its kind. -/
theorem IsAttachmentNode.push {x : Node} (hx : unit.IsAttachmentNode x)
    (h : s.WellFormed unit base) (ha : s.attachment? ≠ none)
    (hfresh : ∀ {id : NodeId} {y}, s.nodes[id.index]? = some y → y.kind ≠ x.kind) :
    WellFormed unit base { s with nodes := s.nodes.push x } :=
  h.push hfresh (hx.symbols s) (hx.self_match _ _ _) fun hn => absurd hn ha

/-- Such nodes match if they are the same. -/
theorem IsAttachmentNode.match {x : Node} (hx : unit.IsAttachmentNode x) {a b : NodeId}
    (ha : s.nodes[a.index]? = some x) (hb : t.nodes[b.index]? = some x) : NodeMatch base s t a b :=
  .intro (N := fun _ _ => False) ha hb nofun (hx.self_match _ _ _)

end CompilationUnit

/-- The attachment of a unit that has entered these tables. -/
structure Attachment.Of (unit : CompilationUnit) (tables : HeaderTable) (s : Image)
    (a : Attachment) : Prop where
  headerNode : s.nodes[a.headerNode.index]? = some unit.headerNode
  modulesSection : s.nodes[a.modulesSection.index]? = some unit.modulesNode
  blob? : ∀ id, a.metadataBlob? = some id → s.nodes[id.index]? = some unit.blobNode
  isSome_blob? : a.metadataBlob?.isSome = unit.metadata.blob?.isSome
  header : ∀ tag, a.header.find tag =
    if tag = .embeddedMetadata then
      a.metadataBlob?.map (⟨·, unit.blobNode.symbol, unit.blobNode.endSymbol?⟩)
    else tables.find tag

namespace CompilationUnit

variable {unit : CompilationUnit} {base : Program} {s t : Image} {tables : HeaderTable}

/-! ## Attaching -/

variable (unit) in
/-- What holds when an attachment is set, and goes on holding when one of its nodes is appended,
holds when all that it consists of has been appended. -/
theorem attach_induction (a : Attachment) {P : Image → Prop}
    (hold : ∀ {id : NodeId} {x}, s.nodes[id.index]? = some x → x.kind.isAttached = false)
    (h : P { s with attachment? := some a })
    (hpush : ∀ {u x}, unit.IsAttachmentNode x → P u → u.attachment? ≠ none →
      (∀ {id : NodeId} {y}, u.nodes[id.index]? = some y → y.kind ≠ x.kind) →
      P { u with nodes := u.nodes.push x }) :
    P ⟨s.program, (s.nodes.push unit.headerNode).push unit.modulesNode, some a⟩ ∧
    P ⟨s.program, ((s.nodes.push unit.headerNode).push unit.modulesNode).push unit.blobNode,
      some a⟩ := by
  have hnew {x : Node} (hx : unit.IsAttachmentNode x) {id : NodeId} {y : Node}
      (hy : s.nodes[id.index]? = some y) : y.kind ≠ x.kind := by
    intro hkind
    have hfalse := hold hy
    rw [hkind, hx.isAttached] at hfalse
    cases hfalse
  have hheader := hpush unit.headerNode_spec h nofun (hnew unit.headerNode_spec)
  have hmodules := hpush unit.modulesNode_spec hheader nofun fun {id y} hy => by
    rcases nodes_push.1 hy with hold | ⟨-, rfl⟩
    · exact hnew unit.modulesNode_spec hold
    · exact nofun
  refine ⟨hmodules, hpush unit.blobNode_spec hmodules nofun fun {id y} hy => ?_⟩
  rcases nodes_push.1 hy with hold | ⟨-, rfl⟩
  · rcases nodes_push.1 hold with hold | ⟨-, rfl⟩
    · exact hnew unit.blobNode_spec hold
    · exact nofun
  · exact nofun

theorem le_attached (s : Image) (hn : s.attachment? = none) (a : Attachment) :
    s ≤ { s with attachment? := some a } := by
  refine ⟨le_rfl, .refl _, fun b hb => ?_⟩
  rw [hn] at hb
  cases hb

/-- Appending what an attachment consists of keeps an image well-formed. -/
theorem attach_wellFormed (h : s.WellFormed unit base) (hn : s.attachment? = none)
    (a : Attachment) :
    WellFormed unit base ⟨s.program, (s.nodes.push unit.headerNode).push unit.modulesNode, some a⟩ ∧
    WellFormed unit base ⟨s.program,
      ((s.nodes.push unit.headerNode).push unit.modulesNode).push unit.blobNode, some a⟩ :=
  attach_induction unit a (h.unattached hn) (h.grow (le_attached s hn a) rfl h.program nofun)
    fun hx h => hx.push h

/-- The image with the two nodes that every attachment appends. -/
def withSection (unit : CompilationUnit) (s : Image) : Image :=
  ⟨s.program, (s.nodes.push unit.headerNode).push unit.modulesNode, s.attachment?⟩

theorem le_withSection (unit : CompilationUnit) (s : Image) : s ≤ unit.withSection s :=
  (le_pushNode s unit.headerNode).trans (le_pushNode _ unit.modulesNode)

/-- Attaching appends the two nodes, enters the tables and goes on to the metadata. -/
theorem attach_apply (hn : s.attachment? = none)
    (htables : tableHeader (unit.withSection s) = .ok tables (unit.withSection s)) :
    unit.attach s = (do
      let (header, blob?) ← unit.embedMetadata tables
      modify ({ · with
        attachment? := some ⟨⟨s.nodes.size⟩, ⟨s.nodes.size + 1⟩, blob?, header⟩ })
      return ⟨s.nodes.size⟩ :: ⟨s.nodes.size + 1⟩ :: tableRoots ++ blob?.toList :
        ImageM (List NodeId)) (unit.withSection s) := by
  rw [attach, get_bind_apply, hn]
  have hheader : append unit.headerNode s =
      .ok ⟨s.nodes.size⟩ { s with nodes := s.nodes.push unit.headerNode } := rfl
  have hsection : append unit.modulesNode { s with nodes := s.nodes.push unit.headerNode } =
      .ok ⟨s.nodes.size + 1⟩ (unit.withSection s) := by
    rw [append, Array.size_push]
    rfl
  exact (bind_of_ok hheader).trans ((bind_of_ok hsection).trans (bind_of_ok htables))

/-- Attaching succeeds if there is no attachment yet, and appends two or three nodes. -/
theorem attach_image (hinitial : Image.initial unit.config base ≤ s) (hn : s.attachment? = none)
    (htables : tableHeader (Image.initial unit.config base) =
      .ok tables (Image.initial unit.config base))
    (hfree : tables.find .embeddedMetadata = none) :
    ∃ a nodes, unit.attach s =
        .ok (a.headerNode :: a.modulesSection :: tableRoots ++ a.metadataBlob?.toList)
          ⟨s.program, nodes, some a⟩ ∧
      (nodes = (s.nodes.push unit.headerNode).push unit.modulesNode ∨
        nodes = ((s.nodes.push unit.headerNode).push unit.modulesNode).push unit.blobNode) ∧
      s ≤ ⟨s.program, nodes, some a⟩ ∧ a.Of unit tables ⟨s.program, nodes, some a⟩ := by
  let modules : Image := unit.withSection s
  have hmodules : s ≤ modules := unit.le_withSection s
  rw [attach_apply hn (tableHeader_settles.again htables (hinitial.trans hmodules)),
    embedMetadata]
  have hlast (nodes : Array Node) (x : Node) : (nodes.push x)[nodes.size]? = some x :=
    Array.getElem?_push_size
  have hheader : modules.nodes[s.nodes.size]? = some unit.headerNode :=
    KeepsEntries.push _ _ _ _ (hlast s.nodes unit.headerNode)
  have hsection : modules.nodes[s.nodes.size + 1]? = some unit.modulesNode := by
    have hpush := hlast (s.nodes.push unit.headerNode) unit.modulesNode
    rwa [Array.size_push] at hpush
  have hattachment (a : Attachment) : ∀ b, s.attachment? = some b → some a = some b := by
    intro b hb
    rw [hn] at hb
    cases hb
  cases hm : unit.metadata with
  | absent =>
    let a : Attachment := ⟨⟨s.nodes.size⟩, ⟨s.nodes.size + 1⟩, none, tables⟩
    refine ⟨a, modules.nodes, rfl, .inl rfl, ⟨hmodules.program, hmodules.nodes, hattachment a⟩,
      hheader, hsection, fun id hid => absurd hid (Option.some_ne_none id).symm, ?_,
      fun tag => ?_⟩
    · rw [hm]
      rfl
    · split
      · next htag => rw [htag, hfree]; rfl
      · rfl
  | precomputed module bytes =>
    let blob : NodeId := ⟨modules.nodes.size⟩
    let header : HeaderTable := ⟨fun tag => if tag = .embeddedMetadata then
      some ⟨blob, unit.blobNode.symbol, unit.blobNode.endSymbol?⟩ else tables.find tag⟩
    let a : Attachment := ⟨⟨s.nodes.size⟩, ⟨s.nodes.size + 1⟩, some blob, header⟩
    let full : Image := { modules with nodes := modules.nodes.push unit.blobNode }
    have hfull : full.nodes[blob.index]? = some unit.blobNode := hlast modules.nodes unit.blobNode
    have happend : append unit.blobNode modules = .ok blob full := rfl
    have hadd : addSection tables .embeddedMetadata blob full = .ok header full := by
      rw [addSection, bind_of_ok (node_eq_ok.2 ⟨hfull, rfl⟩), HeaderTable.add?, hfree]
      rfl
    have hle : modules ≤ full := le_pushNode modules unit.blobNode
    have hsfull := hmodules.trans hle
    refine ⟨a, full.nodes, ?_, .inr rfl, ⟨hsfull.program, hsfull.nodes, hattachment a⟩,
      hle.nodes _ _ hheader, hle.nodes _ _ hsection, fun id hid => ?_, ?_, fun tag => rfl⟩
    · exact (bind_of_ok ((bind_of_ok happend).trans (bind_of_ok hadd))).trans rfl
    · cases hid
      exact hfull
    · rw [hm]
      rfl

/-- A unit without an attachment can be attached. -/
theorem attach_ok (h : s.WellFormed unit base) (hn : s.attachment? = none)
    (htables : tableHeader (Image.initial unit.config base) =
      .ok tables (Image.initial unit.config base))
    (hfree : tables.find .embeddedMetadata = none) :
    ∃ a u, unit.attach s =
        .ok (a.headerNode :: a.modulesSection :: tableRoots ++ a.metadataBlob?.toList) u ∧
      s ≤ u ∧ u.WellFormed unit base ∧ u.attachment? = some a ∧ a.Of unit tables u := by
  obtain ⟨a, nodes, hattach, hnodes, hle, hof⟩ := attach_image h.initial_le hn htables hfree
  refine ⟨a, _, hattach, hle, ?_, rfl, hof⟩
  rcases hnodes with rfl | rfl
  · exact (attach_wellFormed h hn a).1
  · exact (attach_wellFormed h hn a).2

/-! ## Attachments of twins -/

/-- A node of the initial image is one of the tables, of which there are few. -/
theorem table_found_initial (hl : s.WellFormed unit base) (hr : t.WellFormed unit base)
    {id : NodeId} {x : Node} (hx : (Image.initial unit.config base).nodes[id.index]? = some x) :
    Found base 2 s t id id := by
  rw [Image.initial, List.getElem?_toArray] at hx
  have hk := tableKinds_of_tableNodes hx
  exact (hl.table_found hr hk).weaken (rank_of_mem_tableKinds (List.mem_of_getElem? hk)).2

theorem tableRoots_found (hl : s.WellFormed unit base) (hr : t.WellFormed unit base) :
    List.Forall₂ (Found base 5 s t) tableRoots tableRoots := by
  refine List.forall₂_same.2 fun id hid => ?_
  have hlt : ∀ id ∈ tableRoots, id.index < 11 := by decide
  have hsize : (Image.initial unit.config base).nodes.size = 11 := rfl
  have hx := Array.getElem?_eq_getElem (hsize ▸ hlt id hid)
  exact (table_found_initial hl hr hx).weaken (by decide)

variable {a a' : Attachment}

theorem headerNode_found (h : a.Of unit tables s) (h' : a'.Of unit tables t) :
    Found base 3 s t a.headerNode a'.headerNode :=
  ⟨unit.headerNode_spec.match h.headerNode h'.headerNode, _, h.headerNode, Nat.lt_succ_self 2⟩

theorem modulesNode_found (h : a.Of unit tables s) (h' : a'.Of unit tables t) :
    Found base 4 s t a.modulesSection a'.modulesSection :=
  ⟨unit.modulesNode_spec.match h.modulesSection h'.modulesSection, _, h.modulesSection,
    Nat.lt_succ_self 3⟩

/-- Either both units embed metadata or none does. -/
theorem blobNode_found (h : a.Of unit tables s) (h' : a'.Of unit tables t) :
    Option.Rel (Found base 1 s t) a.metadataBlob? a'.metadataBlob? := by
  have hsome := h.isSome_blob?.trans h'.isSome_blob?.symm
  cases ha : a.metadataBlob? with
  | none =>
    rw [ha] at hsome
    have hnone : a'.metadataBlob? = none := by simpa using hsome.symm
    rw [hnone]
    exact .none
  | some id =>
    rw [ha] at hsome
    obtain ⟨id', hid'⟩ := Option.isSome_iff_exists.1 hsome.symm
    rw [hid']
    exact .some ⟨unit.blobNode_spec.match (h.blob? id ha) (h'.blob? id' hid'), _, h.blob? id ha,
      Nat.zero_lt_one⟩

/-- Attachments with the same tables match. -/
theorem attachment_match (hl : s.WellFormed unit base) (hr : t.WellFormed unit base)
    (htables : tables.Describes (Image.initial unit.config base)) (h : a.Of unit tables s)
    (h' : a'.Of unit tables t) : a.Match base s t a' := by
  have hheader : Found base 3 s t a.headerNode a'.headerNode := headerNode_found h h'
  refine ⟨hheader.1, hheader.2, fun tag => ?_⟩
  rw [h.header, h'.header]
  split
  · have hblob : Option.Rel (Found base 1 s t) a.metadataBlob? a'.metadataBlob? :=
      blobNode_found h h'
    generalize a.metadataBlob? = blob? at hblob ⊢
    generalize a'.metadataBlob? = blob'? at hblob ⊢
    cases hblob with
    | none => exact .none
    | some hblob => exact .some ⟨hblob.1, hblob.2.weaken (Nat.le_succ 1), rfl, rfl⟩
  · cases he : tables.find tag with
    | none => exact .none
    | some entry =>
      obtain ⟨x, hx, -⟩ := htables tag entry he
      have hfound := table_found_initial hl hr hx
      exact .some ⟨hfound.1, hfound.2, rfl, rfl⟩

/-- Attaching twins leaves twins, with matching roots. -/
theorem attach_agrees (hr : Twins unit base false s t) :
    Agree (Twins unit base true) (fun s t => List.Forall₂ (Found base 5 s t)) unit.attach
      unit.attach s t := by
  have hs : s.attachment? = none := by simpa using hr.isSome_attachment
  have ht : t.attachment? = none := by
    have hmatch := hr.attachment
    rw [hs] at hmatch
    generalize t.attachment? = a? at hmatch ⊢
    cases hmatch
    rfl
  obtain ⟨tables, htables, hfree⟩ := exists_tableHeader unit.config base
  have hdescribes := (tableHeader_spec htables).2
  obtain ⟨a, u, hx, hsu, hl, ha, hof⟩ := attach_ok hr.left hs htables hfree
  obtain ⟨a', u', hy, htu, hl', ha', hof'⟩ := attach_ok hr.right ht htables hfree
  refine .ok hx hy hsu htu ⟨hl, hl', ?_, ha ▸ rfl⟩ ?_
  · rw [ha, ha']
    exact .some (attachment_match hl hl' hdescribes hof hof')
  · refine .cons ((headerNode_found hof hof').weaken (by decide))
      (.cons ((modulesNode_found hof hof').weaken (by decide)) ?_)
    refine List.rel_append (tableRoots_found hl hl') ?_
    have hblob : Option.Rel (Found base 1 _ _) a.metadataBlob? a'.metadataBlob? :=
      blobNode_found hof hof'
    generalize a.metadataBlob? = blob? at hblob ⊢
    generalize a'.metadataBlob? = blob'? at hblob ⊢
    cases hblob with
    | none => exact .nil
    | some hblob => exact .cons (hblob.weaken (by decide)) .nil

end CompilationUnit

end NativeImage
