/-!
# Symbols of a compilation unit

Tables carry the prefix of their unit, so that several units can be linked into one image. Symbols
of thread-local storage carry what the target puts before every C symbol.

## Main definitions

- `RegionBound` — the two ends of a region
- `regionSymbol`, `tableSymbol`, `threadIndexSymbol` — tables of a unit
- `standaloneRegionSymbol` — a region around one descriptor
- `delegateHelperSymbol` — the helper that constructs a delegate
-/

namespace NativeImage

/-- The ends of a region. -/
inductive RegionBound
  | first
  | last
  deriving DecidableEq, Repr

def RegionBound.word : RegionBound → String
  | first => "Start"
  | last => "End"

/-- An end of the region `name` of a unit. -/
def regionSymbol (unit name : String) (bound : RegionBound) : String :=
  unit ++ "__" ++ name ++ bound.word

/-- A table that a unit has once. -/
def tableSymbol (unit name : String) : String := unit ++ "__" ++ name

/-- The index of a unit's thread-local storage. -/
def threadIndexSymbol (unit : String) : String := unit ++ "_tls_index"

/-- The start of all thread-local storage, defined by startup code. -/
def tlsStartSymbol (decoration : String) : String := decoration ++ "_tls_start"

def tlsEndSymbol (decoration : String) : String := decoration ++ "_tls_end"

def tlsDirectorySymbol (decoration : String) : String := decoration ++ "_tls_used"

/-- An end of the region that holds just one descriptor. -/
def standaloneRegionSymbol (descriptor : String) (bound : RegionBound) : String :=
  "__StandaloneGCStaticDescRegion" ++ bound.word ++ "_" ++ descriptor

/-- The helper that constructs a delegate from these parts. -/
def delegateHelperSymbol (initializer target : String) (thunk? : Option String) : String :=
  "__DelegateCtor_" ++ initializer ++ "__" ++ target ++
    match thunk? with
    | some thunk => "__" ++ thunk
    | none => ""

end NativeImage
