import NativeImage.Symbol.Escape

/-!
# Symbols of program entities

Types and methods are named to the linker by their module and their display name. The nodes that
belong to an entity wrap its symbol in the label of their family. None of these symbols depends on
the compilation unit, since units refer to each other by them.

## Main definitions

- `EntityName` — the module and the display name of a type or method
- `EntityName.symbol` — `_ilc_<module>$<display name>`
- `SymbolFamily.symbol` — the symbol of a node that belongs to an entity
-/

namespace NativeImage

/-- What the linker knows of a type or method: `App` and `App.Program::Main`, for instance. -/
structure EntityName where
  moduleName : String
  display : String
  deriving DecidableEq, Repr

/-- What every symbol of a program entity starts with. -/
def entityMark : String := "_ilc_"

/-- The symbol of a type or method itself. The module part ends at the `$` behind a whole
segment. -/
def EntityName.symbol (name : EntityName) : String :=
  entityMark ++ String.ofList
    (Symbol.encodeModule name.moduleName.toList ++
      '$' :: Symbol.encodeIdentifier name.display.toList)

/-- The kinds of node that are named after an entity. -/
inductive SymbolFamily
  /-- Code of a method, or a type itself; `unboxing` marks the entry for boxed receivers. -/
  | plain (unboxing : Bool)
  | shadow (unboxing : Bool)
  | fatPointer (unboxing : Bool)
  | dictionary
  | gcStaticDesc (thread : Bool)
  | threadStaticsOffset
  | threadStaticsBlock
  | gcStaticBase
  | eagerConstructor
  | staticBaseHelper (thread : Bool)
  deriving DecidableEq, Repr

namespace SymbolFamily

/-- What stands before the entity's symbol. -/
def label : SymbolFamily → String
  | plain _ => ""
  | shadow _ => "__ShadowConcreteMethod_"
  | fatPointer _ => "__fatpointer_"
  | dictionary => "__DictionaryLayout_"
  | gcStaticDesc false => "__GCStaticDesc_"
  | gcStaticDesc true => "__ThreadStaticGCDesc_"
  | threadStaticsOffset => "__ThreadStaticsOffset_"
  | threadStaticsBlock => "__ThreadStatics_"
  | gcStaticBase => "__GCStaticBase_"
  | eagerConstructor => "__EagerCctor_"
  | staticBaseHelper false => "__GetGCStaticBase_"
  | staticBaseHelper true => "__GetThreadStaticBase_"

/-- Whether the node is entered with a boxed receiver. -/
def isUnboxing : SymbolFamily → Bool
  | plain unboxing | shadow unboxing | fatPointer unboxing => unboxing
  | _ => false

/-- What stands behind the entity's symbol. -/
def tail (family : SymbolFamily) : String := if family.isUnboxing then "$unbox" else ""

/-- The symbol of the family's node for an entity. -/
def symbol (family : SymbolFamily) (name : EntityName) : String :=
  family.label ++ name.symbol ++ family.tail

end SymbolFamily

end NativeImage
