import NativeImage.Proofs.CompilationUnit.DelegateSymbols
import NativeImage.Proofs.CompilationUnit.FixedPoint

/-!
# Every symbol is defined once

Nodes are told apart by what they stand for, symbols only by how they are spelled. That no two nodes
of a unit define the same symbol is therefore a matter of names. The symbols of a unit are those of
its tables, which start with its prefix, those of types and methods, which start with the label of a
family, and those of constructions. Symbols of different sorts are never the same. Symbols of one
sort are told apart by what they are made from, if the names of the program are distinct.

## Main definitions

- `NodeKind.tableSuffix?` — what follows the prefix in the symbol of a table
- `CompilationUnit.Spelled` — the sorts of symbols that a unit defines

## Main statements

- `Image.Compiling.eq_of_symbol` — nodes that are defined under one symbol are the same
- `CompilationUnit.compile_defines_once`
-/

namespace NativeImage

open ImageM Program

/-! ## Symbols of tables -/

/-- What follows the unit's prefix in the symbol of a table. The directory of thread-local storage
has no prefix but the decoration of the target. -/
def NodeKind.tableSuffix? (decoration : String) : NodeKind → Option String
  | region kind => some (regionSymbol "" kind.symbolName .first)
  | threadStaticsIndex => some (threadIndexSymbol "")
  | tlsDirectory => some (tlsDirectorySymbol decoration)
  | header => some (tableSymbol "" "ReadyToRunHeader")
  | modulesSection => some (tableSymbol "" "Modules")
  | typeManagerIndirection => some (tableSymbol "" "typemanager_indirection")
  | metadataBlob => some (regionSymbol "" "EmbeddedMetadata" .first)
  | _ => none

/-- The tables that a unit can define. -/
def definedTables : List NodeKind :=
  RegionKind.all.map .region ++ [.threadStaticsIndex, .tlsDirectory, .header, .modulesSection,
    .typeManagerIndirection, .metadataBlob]

namespace NodeKind

variable {decoration : String} {kind kind' : NodeKind} {suffix : String}

theorem mem_definedTables (h : kind.tableSuffix? decoration = some suffix) :
    kind ∈ definedTables := by
  cases kind with
  | region kind => cases kind <;> decide
  | threadStaticsIndex | tlsDirectory | header | modulesSection | typeManagerIndirection
  | metadataBlob => decide
  | _ => cases h

/-- Different tables have different suffixes, each starts with an underscore, and none starts like
the symbol of an entity or of a construction. -/
theorem tableSuffix?_spec (arch : Arch) : ∀ kind ∈ definedTables,
    (∀ kind' ∈ definedTables,
      kind.tableSuffix? arch.decoration = kind'.tableSuffix? arch.decoration → kind = kind') ∧
    ∀ suffix ∈ kind.tableSuffix? arch.decoration, suffix.toList.head? = some '_' ∧
      ¬ delegateMark <+: suffix.toList ∧
      ∀ family ∈ SymbolFamily.all, ¬ family.opening <+: suffix.toList := by
  cases arch <;> decide +kernel

end NodeKind

namespace CompilationUnit

variable {unit : CompilationUnit} {base : Program} {bodies : CodeBodies} {s t : Image}

/-- The symbol of a table is its suffix behind the unit's prefix, or behind nothing. -/
theorem symbolsOf_table {kind : NodeKind} {suffix : String}
    (hkind : kind.tableSuffix? unit.config.arch.decoration = some suffix)
    {symbols : String × Option String} (h : unit.symbolsOf kind s = .ok symbols t) :
    ∃ pre, (pre = unit.config.unitPrefix ∨ pre = "") ∧ symbols.1 = pre ++ suffix := by
  have hnone (name : String) : name = "" ++ name := by rw [String.empty_append]
  cases kind with
  | tlsDirectory =>
    cases hkind
    obtain ⟨rfl, -⟩ := pure_eq_ok.1 h
    exact ⟨"", .inr rfl, hnone _⟩
  | region kind =>
    cases hkind
    obtain ⟨rfl, -⟩ := pure_eq_ok.1 h
    refine ⟨unit.config.unitPrefix, .inl rfl, ?_⟩
    simp only [regionSymbol, String.append_assoc, String.empty_append]
  | metadataBlob =>
    cases hkind
    obtain ⟨rfl, -⟩ := pure_eq_ok.1 h
    refine ⟨unit.config.unitPrefix, .inl rfl, ?_⟩
    simp only [regionSymbol, String.append_assoc, String.empty_append]
  | threadStaticsIndex =>
    cases hkind
    obtain ⟨rfl, -⟩ := pure_eq_ok.1 h
    refine ⟨unit.config.unitPrefix, .inl rfl, ?_⟩
    simp only [threadIndexSymbol, String.empty_append]
  | header | modulesSection | typeManagerIndirection =>
    cases hkind
    obtain ⟨rfl, -⟩ := pure_eq_ok.1 h
    refine ⟨unit.config.unitPrefix, .inl rfl, ?_⟩
    simp only [tableSymbol, String.append_assoc, String.empty_append]
  | _ => cases hkind

/-! ## The sorts of symbols -/

/-- The symbol of a node that the unit defines is that of an entity, of a table or of a
construction. -/
inductive Spelled (unit : CompilationUnit) (s : Image) (kind : NodeKind) (symbol : String) : Prop
  | entity {family : SymbolFamily} {x : Entity} (hkind : kind.entity? = some (family, x))
    (h : s.program.entitySymbol family x = .ok symbol)
  | table {pre suffix : String}
    (hkind : kind.tableSuffix? unit.config.arch.decoration = some suffix)
    (hpre : pre = unit.config.unitPrefix ∨ pre = "") (h : symbol = pre ++ suffix)
  | construction {parts : DelegateParts} (hkind : kind = .helper (.delegate parts))
    (h : helperSymbol (.delegate parts) s = .ok symbol s)

theorem spelled_of_makes {kind : NodeKind} (hmakes : unit.Makes bodies s kind)
    (hdefined : kind.isExternal = false) {symbols : String × Option String}
    (h : unit.symbolsOf kind s = .ok symbols s) : unit.Spelled s kind symbols.1 := by
  have hentity {family : SymbolFamily} {x : Entity} (hkind : kind.entity? = some (family, x)) :
      unit.Spelled s kind symbols.1 := .entity hkind (symbolsOf_entity hkind h)
  have htable {suffix : String}
      (hkind : kind.tableSuffix? unit.config.arch.decoration = some suffix) :
      unit.Spelled s kind symbols.1 := by
    obtain ⟨pre, hpre, hsymbol⟩ := symbolsOf_table hkind h
    exact .table hkind hpre hsymbol
  cases kind with
  | helper routine =>
    cases routine with
    | delegate parts =>
      obtain ⟨name, hname, rfl⟩ := only_eq_ok_iff.1 h
      exact .construction rfl hname
    | gcStaticBase type | threadStaticBase type => exact hentity rfl
  | externMethod | runtimeImport | externSymbol => cases hdefined
  | standaloneRegion descriptor => exact hmakes.elim
  | methodCode | unboxingStub | shadowMethod | fatPointer | gcStaticDesc | threadStaticsOffset
  | threadStaticsBlock | gcStaticBase | eagerConstructor | dictionaryLayout => exact hentity rfl
  | region | threadStaticsIndex | tlsDirectory | header | modulesSection | typeManagerIndirection
  | metadataBlob => exact htable rfl

/-! ## Keys of entities -/

/-- The key under which the node is cached that this unit defines for an entity. Shared code that
unboxes its receiver itself has no stub. -/
def definingKey? (p : Program) : SymbolFamily → Entity → Option CacheKey
  | .plain false, .method method => some (.leaf (.methodCode ⟨method, false⟩))
  | .plain true, .method method =>
    if p.unboxesItself method = .ok true then some (.leaf (.methodCode ⟨method, true⟩))
    else some (.unboxingEntry method)
  | .shadow unboxing, .method method => some (.shadowMethod ⟨method, unboxing⟩)
  | .fatPointer unboxing, .method method => some (.fatPointer ⟨method, unboxing⟩)
  | .dictionary, owner => some (.leaf (.dictionaryLayout owner))
  | .gcStaticDesc thread, .type type => some (.leaf (.gcStaticDesc type thread))
  | .threadStaticsOffset, .type type => some (.leaf (.threadStaticsOffset type))
  | .threadStaticsBlock, .type type => some (.leaf (.threadStaticsBlock type))
  | .gcStaticBase, .type type => some (.leaf (.gcStaticBase type))
  | .eagerConstructor, .method method => some (.leaf (.eagerConstructor method))
  | .staticBaseHelper false, .type type => some (.leaf (.helper (.gcStaticBase type)))
  | .staticBaseHelper true, .type type => some (.leaf (.helper (.threadStaticBase type)))
  | _, _ => none

/-- What the unit defines for an entity has one key. -/
theorem home?_eq_definingKey? {kind : NodeKind} (hmakes : unit.Makes bodies s kind)
    (hdefined : kind.isExternal = false) {family : SymbolFamily} {x : Entity}
    (hkind : kind.entity? = some (family, x)) :
    kind.home? = definingKey? s.program family x ∧ kind.home? ≠ none := by
  cases kind with
  | methodCode entry =>
    cases hkind
    obtain ⟨method, unboxing⟩ := entry
    cases unboxing with
    | false => exact ⟨rfl, nofun⟩
    | true =>
      have hself : s.program.unboxesItself method = .ok true := hmakes
      exact ⟨by rw [definingKey?, if_pos hself]; rfl, nofun⟩
  | unboxingStub method target =>
    cases hkind
    have hself : s.program.unboxesItself method = .ok false := hmakes
    refine ⟨?_, nofun⟩
    rw [definingKey?, hself, if_neg nofun]
    rfl
  | gcStaticDesc type thread =>
    cases hkind
    exact ⟨rfl, nofun⟩
  | helper routine =>
    cases routine with
    | delegate parts => cases hkind
    | gcStaticBase type | threadStaticBase type =>
      cases hkind
      exact ⟨rfl, nofun⟩
  | externMethod => cases hdefined
  | _ => cases hkind <;> exact ⟨rfl, nofun⟩

/-! ## Symbols of different sorts -/

/-- What stands behind letters starts at the first underscore. -/
theorem letters_append_inj (pre pre' : List Char) {r r' : List Char}
    (hpre : ∀ c ∈ pre, c.isAlpha = true) (hpre' : ∀ c ∈ pre', c.isAlpha = true)
    (hr : r.head? = some '_') (hr' : r'.head? = some '_') (h : pre ++ r = pre' ++ r') : r = r' := by
  have hstop {r : List Char} (hr : r.head? = some '_') : ∀ c ∈ r.head?, c.isAlpha = false := by
    intro c hc
    rw [hr] at hc
    cases hc
    rfl
  exact (Symbol.run_append_inj hpre hpre' (hstop hr) (hstop hr') h).2

theorem head?_opening (family : SymbolFamily) (rest : List Char) :
    (family.opening ++ rest).head? = some '_' := by
  have hall : ∀ family ∈ SymbolFamily.all, family.opening.head? = some '_' := by decide +kernel
  rw [List.head?_append, hall family family.mem_all]
  rfl

theorem head?_delegateMark (rest : List Char) : (delegateMark ++ rest).head? = some '_' := rfl

theorem exists_delegateMark {parts : DelegateParts} {symbol : String}
    (h : helperSymbol (.delegate parts) s = .ok symbol t) :
    ∃ rest, symbol.toList = delegateMark ++ rest := by
  have hrest {u : Image} {text? : Option String} (h : (do
      return delegateHelperSymbol (← ImageM.symbol parts.initializer)
        (← ImageM.symbol parts.target) text?) u = .ok symbol t) :
      ∃ rest, symbol.toList = delegateMark ++ rest := by
    obtain ⟨initializer, v, -, h⟩ := bind_eq_ok.1 h
    obtain ⟨target, w, -, h⟩ := bind_eq_ok.1 h
    obtain ⟨rfl, -⟩ := pure_eq_ok.1 h
    exact ⟨_, toList_delegateHelperSymbol initializer target text?⟩
  simp only [helperSymbol] at h
  cases hthunk : parts.thunk? with
  | none =>
    rw [hthunk] at h
    exact hrest h
  | some thunk =>
    rw [hthunk] at h
    obtain ⟨text?, u, -, h⟩ := bind_eq_ok.1 h
    exact hrest h

/-- No construction is named like an entity. -/
theorem entitySymbol_ne_construction {family : SymbolFamily} {x : Entity} {symbol : String}
    {parts : DelegateParts} (h : s.program.entitySymbol family x = .ok symbol) :
    helperSymbol (.delegate parts) s ≠ .ok symbol t := by
  have hall : ∀ family ∈ SymbolFamily.all,
      ¬ family.opening <+: delegateMark ∧ ¬ delegateMark <+: family.opening := by decide +kernel
  obtain ⟨hleft, hright⟩ := hall family family.mem_all
  intro h'
  obtain ⟨c, rest, hrest, -⟩ := exists_opening h
  obtain ⟨rest', hrest'⟩ := exists_delegateMark h'
  -- the one that is shorter would start the other one
  have hopening : family.opening <+: delegateMark ++ rest' :=
    ⟨_, hrest.symm.trans hrest'⟩
  rcases List.prefix_or_prefix_of_prefix hopening (List.prefix_append _ _) with hstart | hstart
  · exact hleft hstart
  · exact hright hstart

section Tables

variable (hletters : unit.config.unitPrefix.toList.all Char.isAlpha = true)
  {kind : NodeKind} {pre suffix : String}
  (hkind : kind.tableSuffix? unit.config.arch.decoration = some suffix)
  (hpre : pre = unit.config.unitPrefix ∨ pre = "")

include hletters hpre in
theorem isAlpha_of_pre : ∀ c ∈ pre.toList, c.isAlpha = true := by
  rcases hpre with rfl | rfl
  · exact List.all_eq_true.1 hletters
  · nofun

include hletters hkind hpre

/-- No table is named like an entity. -/
theorem entitySymbol_ne_table {family : SymbolFamily} {x : Entity} {symbol : String}
    (h : s.program.entitySymbol family x = .ok symbol) : symbol ≠ pre ++ suffix := by
  obtain ⟨hhead, -, hopening⟩ := (NodeKind.tableSuffix?_spec unit.config.arch kind
    (NodeKind.mem_definedTables hkind)).2 suffix hkind
  obtain ⟨c, rest, hrest, -⟩ := exists_opening h
  rintro rfl
  rw [String.toList_append] at hrest
  have hsame : suffix.toList = family.opening ++ c :: rest :=
    letters_append_inj pre.toList [] (isAlpha_of_pre hletters hpre) nofun hhead
      (head?_opening family _) hrest
  exact hopening family family.mem_all ⟨_, hsame.symm⟩

/-- No table is named like a construction. -/
theorem construction_ne_table {parts : DelegateParts} {symbol : String}
    (h : helperSymbol (.delegate parts) s = .ok symbol t) : symbol ≠ pre ++ suffix := by
  obtain ⟨hhead, hmark, -⟩ := (NodeKind.tableSuffix?_spec unit.config.arch kind
    (NodeKind.mem_definedTables hkind)).2 suffix hkind
  obtain ⟨rest, hrest⟩ := exists_delegateMark h
  rintro rfl
  rw [String.toList_append] at hrest
  have hsame : suffix.toList = delegateMark ++ rest :=
    letters_append_inj pre.toList [] (isAlpha_of_pre hletters hpre) nofun hhead
      (head?_delegateMark rest) hrest
  exact hmark ⟨rest, hsame.symm⟩

/-- Tables have different symbols. -/
theorem table_inj {kind' : NodeKind} {pre' suffix' : String}
    (hkind' : kind'.tableSuffix? unit.config.arch.decoration = some suffix')
    (hpre' : pre' = unit.config.unitPrefix ∨ pre' = "") (h : pre ++ suffix = pre' ++ suffix') :
    kind = kind' := by
  obtain ⟨hinj, hspec⟩ := NodeKind.tableSuffix?_spec unit.config.arch kind
    (NodeKind.mem_definedTables hkind)
  have hmem' := NodeKind.mem_definedTables hkind'
  have hspec' := (NodeKind.tableSuffix?_spec unit.config.arch kind' hmem').2
  have hlists := congrArg String.toList h
  rw [String.toList_append, String.toList_append] at hlists
  have hsame := letters_append_inj _ _ (isAlpha_of_pre hletters hpre)
    (isAlpha_of_pre hletters hpre') (hspec suffix hkind).1 (hspec' suffix' hkind').1 hlists
  refine hinj kind' hmem' ?_
  rw [hkind, hkind', String.toList_injective hsame]

end Tables

end CompilationUnit

/-! ## Images -/

/-- Nodes that are cached under the same key are the same. -/
theorem CachedImage.Consistent.eq_of_home? {unit : CompilationUnit} {base : Program}
    {c : CachedImage} (hc : c.Consistent unit base) {a b : NodeId} {x y : Node}
    (hx : c.image.nodes[a.index]? = some x) (hy : c.image.nodes[b.index]? = some y)
    (hhome : x.kind.home? = y.kind.home?) (hne : x.kind.home? ≠ none) : a = b := by
  obtain ⟨key, hkey⟩ := Option.ne_none_iff_exists'.1 hne
  have hlookup := (hc.homes hx hkey).resolve_right id
  exact Option.some_inj.1
    (hlookup.symm.trans ((hc.homes hy (hhome.symm.trans hkey)).resolve_right id))

namespace Image.Compiling

open CompilationUnit

variable {unit : CompilationUnit} {base : Program} {bodies : CodeBodies} {s : Image}
  {cached : List (CacheKey × NodeId)}

/-- Nodes that the unit defines for one entity in one family are the same. -/
theorem eq_of_entity (hs : s.Compiling unit base bodies)
    (hc : CachedImage.Consistent unit base ⟨s, cached⟩) {a b : NodeId} {x y : Node}
    (hx : s.nodes[a.index]? = some x) (hy : s.nodes[b.index]? = some y)
    (hdx : x.kind.isExternal = false) (hdy : y.kind.isExternal = false) {family : SymbolFamily}
    {entity : Entity} (hkind : x.kind.entity? = some (family, entity))
    (hkind' : y.kind.entity? = some (family, entity)) : a = b := by
  obtain ⟨hkey, hne⟩ := home?_eq_definingKey? (hs.kinds hx) hdx hkind
  obtain ⟨hkey', -⟩ := home?_eq_definingKey? (hs.kinds hy) hdy hkind'
  exact hc.eq_of_home? hx hy (hkey.trans hkey'.symm) hne

/-- Nodes that the unit defines under one symbol are the same. -/
theorem eq_of_symbol (hs : s.Compiling unit base bodies)
    (hc : CachedImage.Consistent unit base ⟨s, cached⟩)
    (hletters : unit.config.unitPrefix.toList.all Char.isAlpha = true)
    (hplain : s.program.NamesPlain) (hnames : s.program.NamesDistinct)
    (hinstances : s.program.InstancesDistinct) (himports : bodies.ImportsDistinct s.program)
    {a b : NodeId} {x y : Node} (hx : s.nodes[a.index]? = some x)
    (hy : s.nodes[b.index]? = some y) (hdx : x.kind.isExternal = false)
    (hdy : y.kind.isExternal = false) (hsymbol : x.symbol = y.symbol) : a = b := by
  have hp := hs.program.wellFormed
  have hspelled : unit.Spelled s x.kind x.symbol :=
    spelled_of_makes (hs.kinds hx) hdx (hc.symbols hx)
  have hspelled' : unit.Spelled s y.kind x.symbol :=
    hsymbol ▸ spelled_of_makes (hs.kinds hy) hdy (hc.symbols hy)
  -- of different sorts they cannot be, and each sort has its own reason
  cases hspelled with
  | entity hkind h =>
    cases hspelled' with
    | entity hkind' h' =>
      obtain ⟨rfl, rfl⟩ := entitySymbol_inj hp hplain hnames hinstances h h'
      exact hs.eq_of_entity hc hx hy hdx hdy hkind hkind'
    | table hkind' hpre' h' => exact absurd h' (entitySymbol_ne_table hletters hkind' hpre' h)
    | construction hkind' h' => exact absurd h' (entitySymbol_ne_construction h)
  | table hkind hpre h =>
    cases hspelled' with
    | entity hkind' h' => exact absurd h (entitySymbol_ne_table hletters hkind hpre h')
    | table hkind' hpre' h' =>
      exact hc.kinds hx hy (table_inj hletters hkind hpre hkind' hpre' (h.symm.trans h'))
    | construction hkind' h' => exact absurd h (construction_ne_table hletters hkind hpre h')
  | construction hkind h =>
    cases hspelled' with
    | entity hkind' h' => exact absurd h (entitySymbol_ne_construction h')
    | table hkind' hpre' h' => exact absurd h' (construction_ne_table hletters hkind' hpre' h)
    | construction hkind' h' =>
      have hparts := delegateParts_eq_of_symbol hc hp hplain hnames hinstances himports
        (hkind ▸ hs.kinds hx) (hkind' ▸ hs.kinds hy) h h'
      exact hc.kinds hx hy (by rw [hkind, hkind', hparts])

end Image.Compiling

namespace CompilationUnit

variable {unit : CompilationUnit} {base : Program} {bodies : CodeBodies} {methods : List MethodId}
  {output : CompiledUnit} {final : Image}

/-- Compiling a new unit does what caches would do. -/
theorem compile_byCaches
    (h : unit.compile bodies methods (.initial unit.config base) = .ok output final) :
    final.ByCaches unit base :=
  Image.ByCaches.compile ⟨_, .initial⟩ h

/-- Emitted nodes of one kind are the same. -/
theorem eq_of_kind_eq {image : Image} (hs : image.ByCaches unit base)
    (h : unit.compile bodies methods image = .ok output final) {first second : EmittedNode}
    (hfirst : first ∈ output.nodes) (hsecond : second ∈ output.nodes)
    (hkind : first.node.kind = second.node.kind) : first = second := by
  obtain ⟨_, hcached⟩ := hs.compile h
  obtain ⟨_, -, -, hnodes, -⟩ := compile_spec h
  have hid : first.id = second.id :=
    hcached.consistent.kinds (hnodes first hfirst).1 (hnodes second hsecond).1 hkind
  exact List.inj_on_of_nodup_map (compile_nodup h) hfirst hsecond hid

/-- No two nodes of a compiled unit define the same symbol, if the names that the front end chose
are plain and distinct, the unit's prefix consists of letters, instances of one definition have
different names, and delegates over routines of the runtime can be told apart by these. -/
theorem compile_defines_once (hb : base.Reachable) (hplain : base.NamesPlain)
    (hnames : base.NamesDistinct)
    (hletters : unit.config.unitPrefix.toList.all Char.isAlpha = true)
    (h : unit.compile bodies methods (.initial unit.config base) = .ok output final)
    (hinstances : final.program.InstancesDistinct)
    (himports : bodies.ImportsDistinct final.program) :
    ((output.nodes.filter fun emitted => !emitted.node.kind.isExternal).map
      (·.node.symbol)).Nodup := by
  obtain ⟨closure, hmark, hids, hnodes, -⟩ := compile_spec h
  obtain ⟨_, _, _, -, -, -, -, -, hjustified⟩ := mark_justified hmark
  have hnodup : (output.nodes.map (·.id)).Nodup := by
    rw [hids]
    exact hjustified.nodup
  obtain ⟨cached, hcached⟩ := compile_byCaches h
  have hs := compile_compiling hb h
  refine (List.Nodup.of_map _ (hnodup.sublist (List.filter_sublist.map _))).map_on ?_
  intro x hx y hy hsymbol
  obtain ⟨hmem, hdx⟩ := List.mem_filter.1 hx
  obtain ⟨hmem', hdy⟩ := List.mem_filter.1 hy
  have hid : x.id = y.id := hs.eq_of_symbol hcached.consistent hletters
    (hplain.extend hs.extension) (hnames.extend hs.extension) hinstances himports
    (hnodes x hmem).1 (hnodes y hmem').1 (by simpa using hdx) (by simpa using hdy) hsymbol
  exact List.inj_on_of_nodup_map hnodup hmem hmem' hid

/-! ## A generic type at two arguments -/

/-- Two modules declare a value type each, and a third one a generic type that is used at both. -/
def listsProgram (first second : String) : Program :=
  initial.after [
    .declareModule ⟨"A", false⟩,
    .declareModule ⟨"B", false⟩,
    .declareModule ⟨"App", false⟩,
    .declareType { name := first, module := ⟨1⟩, kind := .value },
    .declareType { name := second, module := ⟨2⟩, kind := .value },
    .declareType { name := "List", module := ⟨3⟩, genericArity := 1 },
    .declareType { name := "Callback", module := ⟨3⟩, kind := .delegate 1 },
    .declareMethod { name := "Add", owner := ⟨4⟩, isStatic := true, paramCount := 1 },
    .intern (.instantiateType ⟨4⟩ [⟨2⟩]),
    .intern (.instantiateType ⟨4⟩ [⟨3⟩]),
    .intern (.methodOnType ⟨5⟩ ⟨6⟩),
    .intern (.methodOnType ⟨5⟩ ⟨7⟩)]

def listsUnit : CompilationUnit :=
  ⟨{ arch := .x64, unitPrefix := "u", importedPrefix := "v" }, .everything, .absent⟩

/-- One instance of the method constructs a delegate over the other one. -/
def listsBodies : CodeBodies := ⟨[(⟨6⟩, [.delegate ⟨5⟩ ⟨7⟩])]⟩

/-- Two types of different names. -/
theorem lists_define_once : ∃ output final,
    listsUnit.compile listsBodies [⟨6⟩, ⟨7⟩]
        (.initial listsUnit.config (listsProgram "Foo" "Bar")) = .ok output final ∧
      ((output.nodes.filter fun emitted => !emitted.node.kind.isExternal).map
        (·.node.symbol)).Nodup := by
  have hb : (listsProgram "Foo" "Bar").Reachable := Reachable.initial.after (by decide +kernel)
  have hplain : (listsProgram "Foo" "Bar").NamesPlain := by decide +kernel
  have hnames : (listsProgram "Foo" "Bar").NamesDistinct := by decide +kernel
  have htypes : (listsProgram "Foo" "Bar").TypesDistinct := by decide +kernel
  have howners : (listsProgram "Foo" "Bar").MethodsOnDefinitions := by decide +kernel
  have himport : (listsProgram "Foo" "Bar").importOf? ⟨7⟩ = .ok none := by decide +kernel
  have hrun : succeeds (listsUnit.compile listsBodies [⟨6⟩, ⟨7⟩]
      (.initial listsUnit.config (listsProgram "Foo" "Bar"))) = true := by decide +kernel
  obtain ⟨output, final, h⟩ := exists_ok_of_succeeds hrun
  have hs := compile_compiling hb h
  have hnone {type : TypeId} {method : MethodId}
      (hmem : Request.delegate type method ∈ listsBodies.requests) {name : String}
      (hname : final.program.importOf? method = .ok (some name)) : False := by
    cases List.mem_singleton.1 hmem
    cases hname.symm.trans (importOf?_stable _ _ _ himport _ hs.extension.derives.le)
  have hinstances : final.program.InstancesDistinct :=
    (htypes.extend hs.extension).instances hs.program.wellFormed (hplain.extend hs.extension)
      (hnames.extend hs.extension) (howners.extend hs.extension) hs.program.atHome
  exact ⟨output, final, h, compile_defines_once hb hplain hnames (by decide) h hinstances
    ⟨fun hmem hname => (hnone hmem hname).elim, fun hmem _ hname => (hnone hmem hname).elim⟩⟩

/-- Two types of one name in different modules: arguments are shown alike, and both instances of the
method get one symbol. -/
example : ¬ (listsProgram "Foo" "Foo").InstancesDistinct ∧
    (match listsUnit.compile listsBodies [⟨6⟩, ⟨7⟩]
      (.initial listsUnit.config (listsProgram "Foo" "Foo")) with
    | .ok output _ => (output.nodes.filter fun emitted => emitted.node.kind ∈
        [.methodCode ⟨⟨6⟩, false⟩, .methodCode ⟨⟨7⟩, false⟩]).map (·.node.symbol)
    | .error _ _ => []) = List.replicate 2 "_ilc_3App$List$LTFoo$GT$CN$CNAdd" := by
  decide +kernel

end CompilationUnit

end NativeImage
