import NativeImage.CompilationUnit.Entry
import NativeImage.CompilationUnit.Statics
import NativeImage.Object.PointerSeries

/-!
# Payloads

The object data of nodes that hold data. Code, external nodes and nodes that only stand for a
layout have none.

## Main definitions

- `CompilationUnit.payload` — the data of a node
-/

namespace NativeImage.CompilationUnit

open ImageM

/-- The alignment of a node's data. -/
def payloadAlignment (unit : CompilationUnit) : NodeKind → Nat
  | .gcStaticDesc .. | .threadStaticsOffset _ | .threadStaticsIndex => 4
  | .metadataBlob => 1
  | _ => unit.pointerSize

/-- A number that has to be written in 32 bits. -/
def word32 (value : Nat) : ImageM Nat :=
  if value ≤ maxWord32 then return value else throw .tooLarge

/-- The next multiple of `step`, the number itself if it is one. -/
def roundUp (value step : Nat) : Nat :=
  if value % step = 0 then value else value + (step - value % step)

/-- The number of series, then size and offset of each. -/
def seriesEmissions (pointerSize : Nat) (slots : List Nat) : ImageM (List Emission) := do
  let series := pointerSeries pointerSize slots
  let entries ← series.mapM fun (size, offset) => do
    return [Emission.u32 (← word32 size), Emission.u32 (← word32 offset)]
  return .u32 (min series.length maxWord32) :: entries.flatten

/-- The steps that write a node's data. -/
def payloadEmissions (unit : CompilationUnit) : NodeKind → ImageM (Option (List Emission))
  | .gcStaticDesc type thread => do
    let statics := (← ask (·.typeDesc type)).statics
    let slots := if thread then statics.threadGcSlots else statics.gcSlots
    return some (← seriesEmissions unit.pointerSize slots)
  | .gcStaticBase type => do
    let count ← word32 (slotCount (← ask (·.typeDesc type)).statics.gcSlots)
    let descriptor ← symbol (← unit.gcStaticDesc type false)
    return some [.pointer descriptor, .zeros (count * unit.pointerSize)]
  | .threadStaticsBlock type => do
    let size := (← ask (·.typeDesc type)).statics.threadSize
    return some [.zeros (← word32 (roundUp size unit.pointerSize))]
  | .threadStaticsOffset type => do
    return some [.sectionOffset (← symbol (← CompilationUnit.threadStaticsBlock type))]
  | .eagerConstructor method => do
    return some [.pointer (← symbol (← unit.plainEntry method))]
  | .threadStaticsIndex => return some [.u32 0]
  | .tlsDirectory => do
    let start ← symbol .tlsStart
    let stop ← symbol .tlsEnd
    let index ← symbol .threadStaticsIndex
    -- no callbacks, nothing to fill with zeros, no characteristics
    return some [.pointer start, .pointer stop, .pointer index, .nullPointer, .u32 0, .u32 0]
  | .typeManagerIndirection => return some [.nullPointer, .nullPointer]
  | .modulesSection => do
    return some [.pointer (← symbol (← attachment).headerNode)]
  | .metadataBlob => return some [.bytes (unit.metadata.blob?.getD [])]
  | .fatPointer _ target dictionary => do
    return some [.pointer (← symbol target), .pointer (← symbol dictionary)]
  | .methodCode _ | .externMethod _ | .runtimeImport _ | .unboxingStub .. | .shadowMethod ..
  | .helper _ | .externSymbol _ | .dictionaryLayout _ | .standaloneRegion _ | .region _
  | .header => return none

/-- The data of a node, if it has any. -/
def payload (unit : CompilationUnit) (id : NodeId) : ImageM (Option ObjectData) := do
  let node ← node id
  match node.kind with
  | .header => return some ((← attachment).header.serialize unit.pointerSize)
  | kind =>
    return (← unit.payloadEmissions kind).map
      (ObjectData.assemble unit.pointerSize (unit.payloadAlignment kind))

end NativeImage.CompilationUnit
