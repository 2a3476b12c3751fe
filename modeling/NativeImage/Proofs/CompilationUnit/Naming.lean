import NativeImage.Proofs.CompilationUnit.NodeMatching

/-!
# The symbols of a kind

A node's symbols follow from its kind: from the names of the type or method it stands for, and from
the symbols of the nodes it holds. Hence they do not depend on how anything is numbered.

## Main definitions

- `CompilationUnit.symbolsOf` — the symbols of nodes of a kind
- `NodeKind.entity?` — the type or method after which nodes of a kind are named

## Main statements

- `CompilationUnit.symbolsOf_entity` — kinds with an entity have a symbol of it
- `CompilationUnit.symbolsOf_eq` — matching kinds have the same symbols
-/

namespace NativeImage

/-- The type or method after which nodes of the kind are named, and the family of their symbols. -/
def NodeKind.entity? : NodeKind → Option (SymbolFamily × Entity)
  | methodCode entry | externMethod entry => some (.plain entry.unboxing, .method entry.method)
  | unboxingStub method _ => some (.plain true, .method method)
  | shadowMethod entry _ => some (.shadow entry.unboxing, .method entry.method)
  | fatPointer entry _ _ => some (.fatPointer entry.unboxing, .method entry.method)
  | gcStaticDesc type thread => some (.gcStaticDesc thread, .type type)
  | threadStaticsOffset type => some (.threadStaticsOffset, .type type)
  | threadStaticsBlock type => some (.threadStaticsBlock, .type type)
  | gcStaticBase type => some (.gcStaticBase, .type type)
  | eagerConstructor method => some (.eagerConstructor, .method method)
  | dictionaryLayout owner => some (.dictionary, owner)
  | helper (.gcStaticBase type) => some (.staticBaseHelper false, .type type)
  | helper (.threadStaticBase type) => some (.staticBaseHelper true, .type type)
  | helper (.delegate _) | runtimeImport _ | externSymbol _ | standaloneRegion _ | region _
  | threadStaticsIndex | tlsDirectory | header | modulesSection | typeManagerIndirection
  | metadataBlob => none

namespace CompilationUnit

open ImageM Program

/-- A symbol without one for an end. -/
def only (symbol : ImageM String) : ImageM (String × Option String) := do return (← symbol, none)

/-- The symbol of nodes of a kind, and the symbol of their end if they have one. -/
def symbolsOf (unit : CompilationUnit) : NodeKind → ImageM (String × Option String)
  | .methodCode entry | .externMethod entry =>
    only (ask (·.methodSymbol (.plain entry.unboxing) entry.method))
  | .runtimeImport method => do
    return ((← ask (·.methodDesc method)).importSymbol?.getD "", none)
  | .unboxingStub method _ => only (ask (·.methodSymbol (.plain true) method))
  | .shadowMethod entry _ => only (ask (·.methodSymbol (.shadow entry.unboxing) entry.method))
  | .fatPointer entry _ _ =>
    only (ask (·.methodSymbol (.fatPointer entry.unboxing) entry.method))
  | .externSymbol name => return (name, none)
  | .gcStaticDesc type thread => only (ask (·.typeSymbol (.gcStaticDesc thread) type))
  | .threadStaticsOffset type => only (ask (·.typeSymbol .threadStaticsOffset type))
  | .threadStaticsBlock type => only (ask (·.typeSymbol .threadStaticsBlock type))
  | .gcStaticBase type => only (ask (·.typeSymbol .gcStaticBase type))
  | .eagerConstructor method => only (ask (·.methodSymbol .eagerConstructor method))
  | .dictionaryLayout owner => only (ask (·.entitySymbol .dictionary owner))
  | .standaloneRegion descriptor => do
    let inner ← symbol descriptor
    return (standaloneRegionSymbol inner .first, some (standaloneRegionSymbol inner .last))
  | .region kind =>
    return (regionSymbol unit.config.unitPrefix kind.symbolName .first,
      some (regionSymbol unit.config.unitPrefix kind.symbolName .last))
  | .threadStaticsIndex => return (threadIndexSymbol unit.config.unitPrefix, none)
  | .tlsDirectory => return (tlsDirectorySymbol unit.config.arch.decoration, none)
  | .header => return (tableSymbol unit.config.unitPrefix "ReadyToRunHeader", none)
  | .modulesSection => return (tableSymbol unit.config.unitPrefix "Modules", none)
  | .typeManagerIndirection =>
    return (tableSymbol unit.config.unitPrefix "typemanager_indirection", none)
  | .metadataBlob =>
    return (regionSymbol unit.config.unitPrefix "EmbeddedMetadata" .first,
      some (regionSymbol unit.config.unitPrefix "EmbeddedMetadata" .last))
  | .helper helper => only (helperSymbol helper)

variable {base : Program} {s t : Image}

theorem only_settles {symbol : ImageM String} (h : Settles symbol) : Settles (only symbol) :=
  h.bind fun _ => .pure _

theorem symbolsOf_settles (unit : CompilationUnit) (kind : NodeKind) :
    Settles (unit.symbolsOf kind) := by
  cases kind with
  | methodCode entry => exact only_settles (ask_settles (methodSymbol_stable _ _))
  | externMethod entry => exact only_settles (ask_settles (methodSymbol_stable _ _))
  | runtimeImport method => exact (ask_settles (methodDesc_stable method)).bind fun _ => .pure _
  | unboxingStub method target => exact only_settles (ask_settles (methodSymbol_stable _ _))
  | shadowMethod entry canonical => exact only_settles (ask_settles (methodSymbol_stable _ _))
  | fatPointer entry target dictionary =>
    exact only_settles (ask_settles (methodSymbol_stable _ _))
  | gcStaticDesc type thread => exact only_settles (ask_settles (typeSymbol_stable _ _))
  | threadStaticsOffset type => exact only_settles (ask_settles (typeSymbol_stable _ _))
  | threadStaticsBlock type => exact only_settles (ask_settles (typeSymbol_stable _ _))
  | gcStaticBase type => exact only_settles (ask_settles (typeSymbol_stable _ _))
  | eagerConstructor method => exact only_settles (ask_settles (methodSymbol_stable _ _))
  | dictionaryLayout owner => exact only_settles (ask_settles (entitySymbol_stable _ _))
  | standaloneRegion descriptor => exact (symbol_settles descriptor).bind fun _ => .pure _
  | helper helper => exact only_settles (helperSymbol_settles helper)
  | externSymbol _ => exact .pure _
  | region _ => exact .pure _
  | threadStaticsIndex => exact .pure _
  | tlsDirectory => exact .pure _
  | header => exact .pure _
  | modulesSection => exact .pure _
  | typeManagerIndirection => exact .pure _
  | metadataBlob => exact .pure _

theorem symbolsOf_readOnly (unit : CompilationUnit) (kind : NodeKind) :
    ReadOnly (unit.symbolsOf kind) := by
  have honly {symbol : ImageM String} (h : ReadOnly symbol) : ReadOnly (only symbol) :=
    h.bind fun _ => .pure _
  cases kind with
  | runtimeImport method => exact (ask_readOnly _).bind fun _ => .pure _
  | standaloneRegion descriptor => exact (symbol_readOnly descriptor).bind fun _ => .pure _
  | helper helper => exact honly (helperSymbol_readOnly helper)
  | methodCode | externMethod | unboxingStub | shadowMethod | fatPointer | gcStaticDesc
  | threadStaticsOffset | threadStaticsBlock | gcStaticBase | eagerConstructor
  | dictionaryLayout => exact honly (ask_readOnly _)
  | _ => exact .pure _

theorem only_eq_ok {symbol : ImageM String} {name : String} (h : symbol s = .ok name s) :
    only symbol s = .ok (name, none) s := by
  rw [only, bind_of_ok h]
  rfl

theorem only_eq_ok_iff {symbol : ImageM String} {symbols : String × Option String} :
    only symbol s = .ok symbols t ↔ ∃ name, symbol s = .ok name t ∧ symbols = (name, none) := by
  rw [only, bind_eq_ok]
  constructor
  · rintro ⟨name, u, hn, hlast⟩
    obtain ⟨rfl, rfl⟩ := pure_eq_ok.1 hlast
    exact ⟨name, hn, rfl⟩
  · rintro ⟨name, hn, rfl⟩
    exact ⟨name, t, hn, rfl⟩

/-- Nodes of a kind that has an entity have the entity's symbol. -/
theorem symbolsOf_entity {unit : CompilationUnit} {kind : NodeKind} {family : SymbolFamily}
    {x : Entity} (hkind : kind.entity? = some (family, x)) {symbols : String × Option String}
    (h : unit.symbolsOf kind s = .ok symbols t) :
    s.program.entitySymbol family x = .ok symbols.1 := by
  have hsymbol {question : Program → Except ProgramError String}
      (h : only (ask question) s = .ok symbols t) : question s.program = .ok symbols.1 := by
    obtain ⟨name, hname, rfl⟩ := only_eq_ok_iff.1 h
    rw [ask] at hname
    split at hname
    · next hanswer =>
      cases hname
      exact hanswer
    · cases hname
  cases kind with
  | helper routine =>
    cases routine with
    | delegate parts => cases hkind
    | gcStaticBase type | threadStaticBase type =>
      cases hkind
      have hask : only (ask (·.typeSymbol _ type)) s = .ok symbols t := h
      exact hsymbol hask
  | _ => cases hkind <;> exact hsymbol h

/-- Nodes of two images that have the same symbol. -/
def SameSymbol (s t : Image) (a b : NodeId) : Prop :=
  ∃ name, symbol a s = .ok name s ∧ symbol b t = .ok name t

/-- Routines for the same purpose have the same symbol if what they use has. -/
theorem delegateHelperSymbol_eq {i i' a a' : NodeId} {x x' : Option NodeId}
    (hi : SameSymbol s t i i') (ha : SameSymbol s t a a')
    (hx : Option.Rel (SameSymbol s t) x x') :
    ∃ name, helperSymbol (.delegate ⟨i, a, x⟩) s = .ok name s ∧
      helperSymbol (.delegate ⟨i', a', x'⟩) t = .ok name t := by
  obtain ⟨initializer, hi, hi'⟩ := hi
  obtain ⟨target, ha, ha'⟩ := ha
  cases hx with
  | none =>
    refine ⟨delegateHelperSymbol initializer target none, ?_, ?_⟩
    · simp only [helperSymbol, bind_apply, hi, ha, pure, EStateM.pure]
    · simp only [helperSymbol, bind_apply, hi', ha', pure, EStateM.pure]
  | some hthunk =>
    obtain ⟨thunk, ht, ht'⟩ := hthunk
    refine ⟨delegateHelperSymbol initializer target (some thunk), ?_, ?_⟩
    · simp only [helperSymbol, ← bind_pure_comp, bind_apply, hi, ha, ht, pure, EStateM.pure]
    · simp only [helperSymbol, ← bind_pure_comp, bind_apply, hi', ha', ht', pure, EStateM.pure]

theorem methodSymbol_eq (hp : Extension base s.program) (hq : Extension base t.program)
    {m m' : MethodId} (h : MethodMatch base s.program t.program m m') (family : SymbolFamily) :
    ∃ name, ask (·.methodSymbol family m) s = .ok name s ∧
      ask (·.methodSymbol family m') t = .ok name t := by
  obtain ⟨name, hn, hn'⟩ := h.methodSymbol hp hq family
  exact ⟨name, by rw [ask, hn], by rw [ask, hn']⟩

theorem typeSymbol_eq (hp : Extension base s.program) (hq : Extension base t.program)
    {x x' : TypeId} (h : TypeMatch base s.program t.program x x') (family : SymbolFamily) :
    ∃ name, ask (·.typeSymbol family x) s = .ok name s ∧
      ask (·.typeSymbol family x') t = .ok name t := by
  obtain ⟨name, hn, hn'⟩ := h.typeSymbol hp hq family
  exact ⟨name, by rw [ask, hn], by rw [ask, hn']⟩

/-- Matching kinds have the same symbols if the nodes that they hold have. -/
theorem symbolsOf_eq (unit : CompilationUnit) (hp : Extension base s.program)
    (hq : Extension base t.program) {k k' : NodeKind}
    (h : k.Match (TypeMatch base s.program t.program) (MethodMatch base s.program t.program)
      (SameSymbol s t) k') :
    ∃ symbols, unit.symbolsOf k s = .ok symbols s ∧ unit.symbolsOf k' t = .ok symbols t := by
  have honly {x y : ImageM String} (h : ∃ name, x s = .ok name s ∧ y t = .ok name t) :
      ∃ symbols, only x s = .ok symbols s ∧ only y t = .ok symbols t := by
    obtain ⟨name, hx, hy⟩ := h
    exact ⟨(name, none), only_eq_ok hx, only_eq_ok hy⟩
  cases h with
  | methodCode h => exact honly (methodSymbol_eq hp hq h _)
  | externMethod h => exact honly (methodSymbol_eq hp hq h _)
  | runtimeImport h =>
    obtain ⟨dx, dy, hx, hy, hagree⟩ := h.desc hp hq
    have himport : dx.importSymbol? = dy.importSymbol? :=
      hagree.congr MethodDeclaration.importSymbol? fun _ _ => rfl
    refine ⟨(dx.importSymbol?.getD "", none), ?_, ?_⟩
    · simp only [symbolsOf, bind_apply, ask, hx, pure, EStateM.pure]
    · simp only [symbolsOf, bind_apply, ask, hy, himport, pure, EStateM.pure]
  | unboxingStub h _ => exact honly (methodSymbol_eq hp hq h _)
  | shadowMethod h _ => exact honly (methodSymbol_eq hp hq h _)
  | fatPointer h _ _ => exact honly (methodSymbol_eq hp hq h _)
  | gcStaticDesc h => exact honly (typeSymbol_eq hp hq h _)
  | threadStaticsOffset h => exact honly (typeSymbol_eq hp hq h _)
  | threadStaticsBlock h => exact honly (typeSymbol_eq hp hq h _)
  | gcStaticBase h => exact honly (typeSymbol_eq hp hq h _)
  | eagerConstructor h => exact honly (methodSymbol_eq hp hq h _)
  | methodDictionary h => exact honly (methodSymbol_eq hp hq h .dictionary)
  | typeDictionary h => exact honly (typeSymbol_eq hp hq h .dictionary)
  | standaloneRegion h =>
    obtain ⟨inner, hi, hi'⟩ := h
    refine ⟨(standaloneRegionSymbol inner .first, some (standaloneRegionSymbol inner .last)),
      ?_, ?_⟩
    · rw [symbolsOf, bind_of_ok hi]
      rfl
    · rw [symbolsOf, bind_of_ok hi']
      rfl
  | delegateHelper hi ha ht => exact honly (delegateHelperSymbol_eq hi ha ht)
  | gcStaticBaseHelper h => exact honly (typeSymbol_eq hp hq h _)
  | threadStaticBaseHelper h => exact honly (typeSymbol_eq hp hq h _)
  | externSymbol _ => exact ⟨_, rfl, rfl⟩
  | region _ => exact ⟨_, rfl, rfl⟩
  | threadStaticsIndex => exact ⟨_, rfl, rfl⟩
  | tlsDirectory => exact ⟨_, rfl, rfl⟩
  | header => exact ⟨_, rfl, rfl⟩
  | modulesSection => exact ⟨_, rfl, rfl⟩
  | typeManagerIndirection => exact ⟨_, rfl, rfl⟩
  | metadataBlob => exact ⟨_, rfl, rfl⟩

end CompilationUnit

end NativeImage
