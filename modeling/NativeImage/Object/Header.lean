import NativeImage.Handle
import NativeImage.Object.Data

/-!
# The ready-to-run header

The runtime finds the tables of an image through its header: a fixed part, then one entry for each
section in ascending order of section id.

```text
u32 magic   u16 major   u16 minor   u32 flags
u16 section count   u8 entry size   u8 entry type
per section:   u32 id   u32 flags   pointer start   pointer end (zero if unbounded)
```

## Main definitions

- `Section` — the kinds of table, with their ids
- `HeaderTable.add?` — enter a table under a section that has none yet
- `HeaderTable.entries` — the entries in the order of their ids
- `HeaderTable.serialize` — the header as object data
-/

namespace NativeImage

/-- The tables a header can list, in ascending order of their ids. -/
inductive Section
  | gcStaticRegion
  | threadStaticRegion
  | typeManagerIndirection
  | eagerConstructors
  | gcStaticDesc
  | threadStaticOffsetRegion
  | threadStaticGcDescRegion
  | threadStaticIndex
  | embeddedMetadata
  deriving DecidableEq, Repr

namespace Section

def all : List Section :=
  [gcStaticRegion, threadStaticRegion, typeManagerIndirection, eagerConstructors, gcStaticDesc,
    threadStaticOffsetRegion, threadStaticGcDescRegion, threadStaticIndex, embeddedMetadata]

theorem mem_all (tag : Section) : tag ∈ all := by cases tag <;> decide

/-- The id the runtime looks the section up by. -/
def id : Section → Nat
  | gcStaticRegion => 201
  | threadStaticRegion => 202
  | typeManagerIndirection => 204
  | eagerConstructors => 205
  | gcStaticDesc => 207
  | threadStaticOffsetRegion => 208
  | threadStaticGcDescRegion => 209
  | threadStaticIndex => 210
  | embeddedMetadata => 300

def name : Section → String
  | gcStaticRegion => "GcStaticRegion"
  | threadStaticRegion => "ThreadStaticRegion"
  | typeManagerIndirection => "TypeManagerIndirection"
  | eagerConstructors => "EagerCctor"
  | gcStaticDesc => "GcStaticDesc"
  | threadStaticOffsetRegion => "ThreadStaticOffsetRegion"
  | threadStaticGcDescRegion => "ThreadStaticGcDescRegion"
  | threadStaticIndex => "ThreadStaticIndex"
  | embeddedMetadata => "EmbeddedMetadata"

end Section

/-- Where a section's table lies; a table without an end symbol is unbounded. -/
structure HeaderEntry where
  node : NodeId
  startSymbol : String
  endSymbol? : Option String
  deriving DecidableEq, Repr

/-- At most one table for each section. -/
structure HeaderTable where
  /-- The table of a section. -/
  find : Section → Option HeaderEntry

namespace HeaderTable

def empty : HeaderTable := ⟨fun _ => none⟩

/-- Enter a table, unless the section has one already. -/
def add? (table : HeaderTable) (tag : Section) (entry : HeaderEntry) : Option HeaderTable :=
  match table.find tag with
  | some _ => none
  | none => some ⟨fun other => if other = tag then some entry else table.find other⟩

/-- A table is refused exactly if its section has one. -/
theorem add?_eq_none_iff {table : HeaderTable} {tag : Section} {entry : HeaderEntry} :
    table.add? tag entry = none ↔ (table.find tag).isSome := by
  cases found : table.find tag <;> simp [add?, found]

/-- Entering a table changes nothing else. -/
theorem find_of_add? {table next : HeaderTable} {tag : Section} {entry : HeaderEntry}
    (added : table.add? tag entry = some next) (other : Section) :
    next.find other = if other = tag then some entry else table.find other := by
  cases found : table.find tag with
  | some old => simp [add?, found] at added
  | none =>
    simp only [add?, found, Option.some.injEq] at added
    rw [← added]

/-- The entries in the order of their ids. -/
def entries (table : HeaderTable) : List (Section × HeaderEntry) :=
  Section.all.filterMap fun tag => (table.find tag).map (tag, ·)

def size (table : HeaderTable) : Nat := table.entries.length

def magic : Nat := 0x00525452

def majorVersion : Nat := 2

def minorVersion : Nat := 0

/-- The entry type that says that entries hold pointers. -/
def pointerEntries : Nat := 1

/-- Bytes of an entry, as far as one byte can tell. -/
def entrySize (pointerSize : Nat) : Nat := min (8 + 2 * pointerSize) 255

/-- The part before the entries. -/
def preamble (pointerSize sections : Nat) : List Emission :=
  [.u32 magic, .u16 majorVersion, .u16 minorVersion, .u32 0,
    .u16 (min sections 65535), .u8 (entrySize pointerSize), .u8 pointerEntries]

/-- One entry. -/
def entryEmissions (tag : Section) (entry : HeaderEntry) : List Emission :=
  [.u32 tag.id, .u32 0, .pointer entry.startSymbol,
    match entry.endSymbol? with
    | some symbol => .pointer symbol
    | none => .nullPointer]

/-- The header as object data, aligned to a pointer. -/
def serialize (table : HeaderTable) (pointerSize : Nat) : ObjectData :=
  ObjectData.assemble pointerSize pointerSize
    (preamble pointerSize table.size ++
      table.entries.flatMap fun (tag, entry) => entryEmissions tag entry)

end HeaderTable

end NativeImage
