import NativeImage.CompilationUnit.Basic

/-!
# Attaching a unit to a dependency graph

Attaching adds the header and the modules section, makes every table of the unit a root and enters
the tables in the header, once for all.

## Main definitions

- `CompilationUnit.attach` — attach, and the roots in order
-/

namespace NativeImage.CompilationUnit

open ImageM

/-- Regions with the sections under which the header lists them. -/
def regionSections : List (Section × RegionKind) :=
  [(.eagerConstructors, .eagerConstructors),
    (.gcStaticRegion, .gcStatics),
    (.gcStaticDesc, .gcStaticDesc),
    (.threadStaticRegion, .threadStatics),
    (.threadStaticOffsetRegion, .threadStaticsOffset),
    (.threadStaticGcDescRegion, .threadStaticGcDesc)]

/-- The roots that every unit has behind its header and modules section. -/
def tableRoots : List NodeId :=
  [RegionKind.eagerConstructors.node, .typeManagerIndirection, RegionKind.gcStatics.node,
    RegionKind.gcStaticDesc.node, RegionKind.threadStatics.node,
    RegionKind.threadStaticsOffset.node, RegionKind.threadStaticGcDesc.node,
    .threadStaticsIndex, .tlsDirectory]

/-- Enter a node's symbols under a section. -/
def addSection (header : HeaderTable) (tag : Section) (id : NodeId) : ImageM HeaderTable := do
  let node ← node id
  match header.add? tag ⟨id, node.symbol, node.endSymbol?⟩ with
  | some header => return header
  | none => throw (.internal (.duplicateSection tag))

/-- The header of the tables that every unit has. -/
def tableHeader : ImageM HeaderTable := do
  let header ← regionSections.foldlM
    (fun header (tag, region) => addSection header tag region.node) HeaderTable.empty
  let header ← addSection header .typeManagerIndirection .typeManagerIndirection
  addSection header .threadStaticIndex .threadStaticsIndex

/-- The node of the embedded metadata, entered in the header; none if there is no metadata. -/
def embedMetadata (unit : CompilationUnit) (header : HeaderTable) :
    ImageM (HeaderTable × Option NodeId) :=
  match unit.metadata with
  | .absent => return (header, none)
  | .precomputed .. => do
    let blob ← append {
      kind := .metadataBlob
      symbol := regionSymbol unit.config.unitPrefix "EmbeddedMetadata" .first
      endSymbol? := some (regionSymbol unit.config.unitPrefix "EmbeddedMetadata" .last) }
    return (← addSection header .embeddedMetadata blob, some blob)

/-- Add what the graph's roots consist of besides the tables. The result is the roots in order. -/
def addRoots (unit : CompilationUnit) : ImageM (List NodeId) := do
  let unitPrefix := unit.config.unitPrefix
  let headerNode ← append { kind := .header, symbol := tableSymbol unitPrefix "ReadyToRunHeader" }
  let modulesSection ← append
    { kind := .modulesSection, symbol := tableSymbol unitPrefix "Modules" }
  let (header, blob?) ← unit.embedMetadata (← tableHeader)
  modify ({ · with attachment? := some ⟨headerNode, modulesSection, blob?, header⟩ })
  return headerNode :: modulesSection :: tableRoots ++ blob?.toList

/-- Attach the unit to a dependency graph, once. The result is the graph's roots in order. -/
def attach (unit : CompilationUnit) : ImageM (List NodeId) := do
  if (← get).attachment?.isSome then throw (.internal .alreadyAttached) else unit.addRoots

end NativeImage.CompilationUnit
