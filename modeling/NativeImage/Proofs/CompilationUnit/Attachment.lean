import NativeImage.CompilationUnit.Attach
import NativeImage.Proofs.CompilationUnit.Growth

/-!
# What attaching leaves behind

The header that a unit gets names nodes that exist and carries their symbols, and the node of the
header is among the roots.

## Main definitions

- `HeaderTable.Describes` — a header that agrees with the nodes of an image

## Main statements

- `CompilationUnit.attach_spec` — the attachment of a unit
-/

namespace NativeImage

namespace HeaderTable

/-- Each entry carries the symbols of the node that it names. -/
def Describes (header : HeaderTable) (image : Image) : Prop :=
  ∀ tag entry, header.find tag = some entry → ∃ node, image.nodes[entry.node.index]? = some node ∧
    entry.startSymbol = node.symbol ∧ entry.endSymbol? = node.endSymbol?

theorem describes_empty (image : Image) : empty.Describes image := by
  intro tag entry h
  cases h

/-- A header goes on describing an image that grows. -/
theorem Describes.mono {header : HeaderTable} {s t : Image} (h : header.Describes s)
    (hst : s ≤ t) : header.Describes t := by
  intro tag entry he
  obtain ⟨node, hn, hsymbols⟩ := h tag entry he
  exact ⟨node, hst.nodes _ _ hn, hsymbols⟩

theorem mem_entries {header : HeaderTable} {tag : Section} {entry : HeaderEntry} :
    (tag, entry) ∈ header.entries ↔ header.find tag = some entry := by
  rw [entries, List.mem_filterMap]
  constructor
  · rintro ⟨other, -, h⟩
    obtain ⟨found, hf, heq⟩ := Option.map_eq_some_iff.1 h
    cases heq
    exact hf
  · intro h
    exact ⟨tag, Section.mem_all tag, by rw [h]; rfl⟩

end HeaderTable

namespace CompilationUnit

open ImageM HeaderTable

variable {header next : HeaderTable} {s t : Image}

/-- Entering a node's symbols only reads the node. -/
theorem addSection_spec {tag : Section} {id : NodeId}
    (h : addSection header tag id s = .ok next t) (hd : header.Describes s) :
    t = s ∧ next.Describes s := by
  obtain ⟨node, u, hnode, hadd⟩ := bind_eq_ok.1 h
  obtain ⟨hn, rfl⟩ := node_eq_ok.1 hnode
  cases ha : header.add? tag ⟨id, node.symbol, node.endSymbol?⟩ with
  | none =>
    rw [ha] at hadd
    cases hadd
  | some added =>
    rw [ha] at hadd
    obtain ⟨rfl, rfl⟩ := pure_eq_ok.1 hadd
    refine ⟨rfl, fun other entry he => ?_⟩
    rw [find_of_add? ha] at he
    split at he
    · cases he
      exact ⟨node, hn, rfl, rfl⟩
    · exact hd other entry he

/-- Entering nodes one behind the other keeps a header that describes the image. -/
theorem addSections_spec {regions : List (Section × RegionKind)}
    (h : (regions.foldlM (fun header (tag, region) => addSection header tag region.node) header :
      ImageM HeaderTable) s = .ok next t) (hd : header.Describes s) :
    t = s ∧ next.Describes s := by
  induction regions generalizing header s with
  | nil =>
    obtain ⟨rfl, rfl⟩ := pure_eq_ok.1 h
    exact ⟨rfl, hd⟩
  | cons region rest ih =>
    rw [List.foldlM_cons] at h
    obtain ⟨after, u, hadd, hrest⟩ := bind_eq_ok.1 h
    obtain ⟨rfl, hafter⟩ := addSection_spec hadd hd
    exact ih hrest hafter

theorem tableHeader_spec (h : tableHeader s = .ok next t) : t = s ∧ next.Describes s := by
  obtain ⟨regions, u, hregions, h⟩ := bind_eq_ok.1 h
  obtain ⟨indirection, v, hindirection, hindex⟩ := bind_eq_ok.1 h
  obtain ⟨rfl, hd⟩ := addSections_spec hregions (describes_empty s)
  obtain ⟨rfl, hd⟩ := addSection_spec hindirection hd
  exact addSection_spec hindex hd

theorem embedMetadata_spec {unit : CompilationUnit} {blob? : Option NodeId}
    (h : unit.embedMetadata header s = .ok (next, blob?) t) (hd : header.Describes s) :
    s ≤ t ∧ next.Describes t := by
  rw [embedMetadata] at h
  cases hm : unit.metadata with
  | absent =>
    rw [hm] at h
    cases h
    exact ⟨le_rfl, hd⟩
  | precomputed module bytes =>
    rw [hm] at h
    obtain ⟨blob, u, hblob, hrest⟩ := bind_eq_ok.1 h
    obtain ⟨added, v, hadd, hlast⟩ := bind_eq_ok.1 hrest
    cases hblob
    cases hlast
    have hle := le_pushNode s
      { kind := .metadataBlob
        symbol := regionSymbol unit.config.unitPrefix "EmbeddedMetadata" .first
        endSymbol? := some (regionSymbol unit.config.unitPrefix "EmbeddedMetadata" .last) }
    obtain ⟨rfl, hnext⟩ := addSection_spec hadd (hd.mono hle)
    exact ⟨hle, hnext⟩

/-- An attached unit has a header node among the roots and a header that describes its image. -/
theorem attach_spec {unit : CompilationUnit} {roots : List NodeId}
    (h : unit.attach s = .ok roots t) : ∃ attachment, t.attachment? = some attachment ∧
      attachment.headerNode ∈ roots ∧
      (∃ node, t.nodes[attachment.headerNode.index]? = some node ∧ node.kind = .header) ∧
      attachment.header.Describes t := by
  rw [attach, get_bind_apply] at h
  split at h
  · cases h
  · obtain ⟨headerNode, u, hheader, hrest⟩ := bind_eq_ok.1 h
    obtain ⟨modulesSection, v, hmodules, hrest⟩ := bind_eq_ok.1 hrest
    obtain ⟨tables, w, htables, hrest⟩ := bind_eq_ok.1 hrest
    obtain ⟨⟨header, blob?⟩, x, hblob, hlast⟩ := bind_eq_ok.1 hrest
    obtain ⟨rfl, hd⟩ := tableHeader_spec htables
    obtain ⟨hle, hdescribes⟩ := embedMetadata_spec hblob hd
    cases hlast
    cases hheader
    cases hmodules
    refine ⟨_, rfl, List.mem_cons_self, ?_, hdescribes⟩
    refine ⟨⟨.header, tableSymbol unit.config.unitPrefix "ReadyToRunHeader", none⟩,
      hle.nodes _ _ ?_, rfl⟩
    -- the header comes first, so that the section's node is not the one looked up
    have hne : s.nodes.size ≠ (s.nodes.push ⟨.header, tableSymbol unit.config.unitPrefix
        "ReadyToRunHeader", none⟩).size := by
      rw [Array.size_push]
      omega
    show (Array.push (s.nodes.push _) _)[s.nodes.size]? = _
    rw [Array.getElem?_push, if_neg hne, Array.getElem?_push_size]

end CompilationUnit

end NativeImage
