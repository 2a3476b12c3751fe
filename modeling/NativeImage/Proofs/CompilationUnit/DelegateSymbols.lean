import Mathlib.Data.List.Infix
import NativeImage.Proofs.CompilationUnit.DelegatePlans
import NativeImage.Proofs.CompilationUnit.Making
import NativeImage.Proofs.CompilationUnit.NodeIdentity
import NativeImage.Proofs.Program.DisplayNames

/-!
# Symbols of delegate constructions

A construction is named after the nodes it uses: the initializer, the target, and the thunk if there
is one, joined by underscores. Names of methods show where each of the symbols ends. What a routine
of the runtime is called is up to the front end, so there the names have to be such that their end
can be seen, and that no two targets have the same.

## Main definitions

- `Program.importOf?` — the routine of the runtime that a method stands for
- `CodeBodies.ImportsDistinct` — delegates over such routines can be told apart
- `CompilationUnit.Constructs` — what the parts of a construction are

## Main statements

- `CompilationUnit.delegateParts_constructs` — the parts of a delegate
- `CompilationUnit.delegateParts_eq_of_symbol` — requested constructions of one symbol have the same
  parts
-/

namespace NativeImage

open ImageM Program

/-! ## Routines of the runtime -/

namespace Program

variable {p q : Program}

/-- The routine of the runtime that calls of the method bind to, if there is one. -/
def importOf? (p : Program) (method : MethodId) : Except ProgramError (Option String) := do
  return (← p.methodDesc method).importSymbol?

theorem importOf?_stable (method : MethodId) : Stable (·.importOf? method) :=
  (methodDesc_stable method).bind fun _ => .pure _

theorem importOf?_eq {method : MethodId} {desc : MethodDesc} (hd : p.methodDesc method = .ok desc) :
    p.importOf? method = .ok desc.importSymbol? := by
  rw [importOf?, hd]
  rfl

/-- Initializers have code of their own. -/
theorem WellFormed.importOf?_initializer (hp : p.WellFormed) (routine : Initializer) :
    p.importOf? routine.method = .ok none := by
  have hinitial : initial.importOf? routine.method = .ok none := by cases routine <;> rfl
  exact importOf?_stable _ _ _ hinitial _ hp.initial_le

/-- So have thunks. -/
theorem WellFormed.importOf?_thunk (hp : p.WellFormed) {id : MethodId} {desc : MethodDesc}
    {kind : InvokeThunk} (hd : p.methodDesc id = .ok desc) (ho : desc.origin = .thunk kind) :
    p.importOf? id = .ok none := by
  obtain ⟨owner, arity, -, -, -, hdecl⟩ := (hp.method_ok hd).thunk ho
  rw [importOf?_eq hd, hdecl]

/-- An instance stands for what its definition stands for. -/
theorem WellFormed.importOf?_derived (hp : p.WellFormed) {id definition : MethodId}
    {desc : MethodDesc} (hd : p.methodDesc id = .ok desc)
    (hdef : desc.definition? = some definition) : p.importOf? id = p.importOf? definition := by
  obtain ⟨-, -, original, horig, -, hdecl, -⟩ :=
    (hp.method_ok hd).derived (origin_of_definition? hdef)
  rw [importOf?_eq hd, importOf?_eq horig, hdecl]

end Program

namespace ProgramM

variable {p q : Program}

theorem internMethod_importOf? (hq : q.WellFormed) {definition id : MethodId} {owner : TypeId}
    {args : List TypeId} (hx : internMethod definition owner args p = .ok id q) :
    q.importOf? id = q.importOf? definition := by
  obtain ⟨original, hd, -⟩ := ask_bind_eq_ok.1 hx
  have hderived {desc : MethodDesc} (hdesc : q.methodDesc id = .ok desc)
      (ho : desc.origin = .derived definition args) : q.importOf? id = q.importOf? definition :=
    hq.importOf?_derived hdesc (by rw [MethodDesc.definition?, ho])
  rw [internMethod_apply hd] at hx
  split at hx
  · cases hx
    rfl
  · split at hx
    · next hfind =>
      cases hx
      obtain ⟨desc, hdesc, ho, -⟩ := findMethod?_spec hfind
      exact hderived hdesc ho
    · cases hx
      exact hderived (methodDesc_push.2 (.inr ⟨rfl, rfl⟩)) rfl

/-- The counterpart of a method on another type stands for what the method stands for. -/
theorem methodOnType_importOf? (hq : q.WellFormed) {id x : MethodId} {type : TypeId}
    (hx : methodOnType id type p = .ok x q) : q.importOf? x = q.importOf? id := by
  have hle := (methodOnType_settles id type).grows hx
  obtain ⟨desc, original, hd, -, -, hx⟩ := methodOnType_eq_ok.1 hx
  rw [internMethod_importOf? hq hx]
  have hd := methodDesc_stable _ _ _ hd _ hle
  cases hdef : desc.definition? with
  | none => rfl
  | some definition => rw [Option.getD_some, hq.importOf?_derived hd hdef]

end ProgramM

/-! ## What a construction is made of -/

/-- The family and the method after which the node of a key is named, if it is an entry. -/
def CacheKey.entered? : CacheKey → Option (SymbolFamily × MethodId)
  | plainEntry method => some (.plain false, method)
  | unboxingEntry method => some (.plain true, method)
  | shadowMethod entry => some (.shadow entry.unboxing, entry.method)
  | fatPointer entry => some (.fatPointer entry.unboxing, entry.method)
  | leaf _ => none

/-- Entries of one family at one method have one key. -/
theorem CacheKey.eq_of_entered? {key key' : CacheKey} {entered : SymbolFamily × MethodId}
    (h : key.entered? = some entered) (h' : key'.entered? = some entered) : key = key' := by
  rcases key with method | method | ⟨method, unboxing⟩ | ⟨method, unboxing⟩ | key <;>
  rcases key' with method' | method' | ⟨method', unboxing'⟩ | ⟨method', unboxing'⟩ | key' <;>
  cases h <;> cases h' <;> rfl

namespace CompilationUnit

variable {unit : CompilationUnit} {base : Program} {s t : Image} {type : TypeId}
  {method : MethodId}

/-- The construction calls the initializer with the node of a key and with the entry of a thunk, if
there is one. -/
structure Constructs (unit : CompilationUnit) (s : Image) (parts : DelegateParts)
    (routine : Initializer) (key : CacheKey) (thunk? : Option MethodId) : Prop where
  initializer : unit.plainEntry routine.method s = .ok parts.initializer s
  target : unit.answer key s = .ok parts.target s
  thunk : Option.Rel (fun thunk id => s.program.importOf? thunk = .ok none ∧
    unit.plainEntry thunk s = .ok id s) thunk? parts.thunk?

/-- Constructions that use the same initializer, entry and thunk have the same parts. -/
theorem Constructs.unique {parts parts' : DelegateParts} {routine : Initializer} {key : CacheKey}
    {thunk? : Option MethodId} (h : unit.Constructs s parts routine key thunk?)
    (h' : unit.Constructs s parts' routine key thunk?) : parts = parts' := by
  obtain ⟨initializer, target, id?⟩ := parts
  obtain ⟨initializer', target', id'?⟩ := parts'
  cases h.initializer.symm.trans h'.initializer
  cases h.target.symm.trans h'.target
  have hids : id? = id'? := by
    have hx := h.thunk
    have hy := h'.thunk
    cases hx with
    | none =>
      cases hy
      rfl
    | some hx =>
      cases hy with
      | some hy =>
        cases hx.2.symm.trans hy.2
        rfl
  rw [hids]

/-- The thunk through which a delegate is invoked is not a routine of the runtime. -/
theorem ThunkOn.importOf? {p : Program} (hp : p.WellFormed) {definition thunk : MethodId}
    {desc : MethodDesc} {kind : InvokeThunk} (hd : p.methodDesc definition = .ok desc)
    (ho : desc.origin = .thunk kind) (h : ThunkOn p type definition thunk) :
    p.importOf? thunk = .ok none := by
  have hdefinition : p.importOf? definition = .ok none := hp.importOf?_thunk hd ho
  obtain ⟨own, -, ⟨-, rfl⟩ | ⟨-, hx⟩⟩ := h
  · exact hdefinition
  · rw [ProgramM.methodOnType_importOf? hp hx, hdefinition]

/-- A bound receiver's target is an entry of the method. -/
theorem BoundThrough.constructs {entry : MethodEntry} {desc : MethodDesc} {form : MethodId}
    {parts : DelegateParts} (h : unit.BoundThrough s entry desc form parts)
    (hthunk : parts.thunk? = none) :
    ∃ routine key family, unit.Constructs s parts routine key none ∧
      key.entered? = some (family, entry.method) := by
  have hnone : Option.Rel (fun thunk id => s.program.importOf? thunk = .ok none ∧
      unit.plainEntry thunk s = .ok id s) none parts.thunk? := hthunk ▸ .none
  cases h with
  | itself _ hinitializer htarget =>
    obtain ⟨method, unboxing⟩ := entry
    cases unboxing with
    | true => exact ⟨_, .unboxingEntry method, _, ⟨hinitializer, htarget, hnone⟩, rfl⟩
    | false => exact ⟨_, .plainEntry method, _, ⟨hinitializer, htarget, hnone⟩, rfl⟩
  | shadow _ _ hinitializer htarget =>
    exact ⟨_, .shadowMethod entry, _, ⟨hinitializer, htarget, hnone⟩, rfl⟩
  | fatPointer _ _ hinitializer htarget =>
    exact ⟨_, .fatPointer entry, _, ⟨hinitializer, htarget, hnone⟩, rfl⟩

/-- The parts of a delegate are an initializer, an entry of the method, and a thunk or none. -/
theorem delegateParts_constructs (ht : t.program.WellFormed) {parts : DelegateParts}
    (h : unit.delegateParts type method s = .ok parts t) :
    ∃ routine key thunk? family, unit.Constructs t parts routine key thunk? ∧
      key.entered? = some (family, method) := by
  cases delegateParts_made ((unit.delegateParts_settles type method).repeat_self h) with
  | @static desc info binding definition thunk entry _ hinfo _ _ hdefinition hon hinitializer
      htarget hentry hthunk =>
    obtain ⟨found, hfound, ho⟩ := ProgramM.delegateInfo_thunk hinfo hdefinition
    refine ⟨_, .plainEntry method, some thunk, _, ⟨hinitializer, htarget, ?_⟩, rfl⟩
    rw [hthunk]
    exact .some ⟨hon.importOf? ht hfound ho, hentry⟩
  | bound _ _ _ _ _ _ hbound hthunk =>
    obtain ⟨routine, key, family, hconstructs, hkey⟩ := hbound.constructs hthunk
    exact ⟨routine, key, none, family, hconstructs, hkey⟩

/-! ## Symbols of the parts -/

/-- The text is the symbol of the thunk's code, if there is a thunk. -/
def ThunkNamed (p : Program) : Option MethodId → Option String → Prop :=
  Option.Rel fun thunk text => p.methodSymbol (.plain false) thunk = .ok text

/-- The node of an entry is named after the method and the way it is entered, or like the routine of
the runtime that the method stands for. -/
inductive EntryNamed (p : Program) (method : MethodId) : CacheKey → String → Prop
  | code {key : CacheKey} {family : SymbolFamily} {symbol : String}
    (hkey : key.entered? = some (family, method)) (h : p.methodSymbol family method = .ok symbol) :
    EntryNamed p method key symbol
  | routine {name : String} (h : p.importOf? method = .ok (some name)) :
    EntryNamed p method (.plainEntry method) name

end CompilationUnit

/-- Boxed receivers always enter code that is named after the method. -/
theorem NodeKind.entity?_of_entry? {kind : NodeKind} {method : MethodId}
    (h : kind.entry? = some ⟨method, true⟩) :
    kind.entity? = some (.plain true, .method method) := by
  cases kind <;> cases h <;> rfl

namespace CachedImage.Consistent

open CompilationUnit

variable {unit : CompilationUnit} {base : Program} {c : CachedImage} {id : NodeId}
  {method : MethodId} {x : Node}

/-- Nodes that are named after an entity have the entity's symbol. -/
theorem entitySymbol (hc : c.Consistent unit base) (hx : c.image.nodes[id.index]? = some x)
    {family : SymbolFamily} {entity : Entity} (hkind : x.kind.entity? = some (family, entity)) :
    c.image.program.entitySymbol family entity = .ok x.symbol :=
  symbolsOf_entity hkind (hc.symbols hx)

/-- What a call of a method binds to is the method's code, unless the method stands for a routine of
the runtime. -/
theorem plainEntry_symbol (hc : c.Consistent unit base)
    (h : unit.plainEntry method c.image = .ok id c.image) :
    ∃ x import?, c.image.nodes[id.index]? = some x ∧
      c.image.program.importOf? method = .ok import? ∧ match import? with
        | some name => x.symbol = name
        | none => c.image.program.methodSymbol (.plain false) method = .ok x.symbol := by
  obtain ⟨desc, hd, h⟩ := ask_bind_eq_ok.1 h
  have himport := importOf?_eq hd
  cases hname : desc.importSymbol? with
  | some name =>
    rw [hname] at h himport
    obtain ⟨x, hx, hkind⟩ := kind_of_intern h
    refine ⟨x, some name, hx, himport, ?_⟩
    have hsymbols := hc.symbols hx
    rw [hkind] at hsymbols
    obtain ⟨desc', hd', hsymbols⟩ := ask_bind_eq_ok.1 hsymbols
    cases hd.symm.trans hd'
    rw [hname] at hsymbols
    exact (congrArg Prod.fst (pure_eq_ok.1 hsymbols).1).symm
  | none =>
    rw [hname] at h himport
    obtain ⟨x, hx, hkind⟩ := ownedEntry_code h
    refine ⟨x, none, hx, himport, ?_⟩
    -- own code or that of another unit, with one symbol
    have hentity : x.kind.entity? = some (.plain false, .method method) := by
      rcases hkind with hkind | hkind <;>
      · rw [hkind]
        rfl
    exact hc.entitySymbol hx hentity

/-- The same of methods that do not. -/
theorem plainEntry_code (hc : c.Consistent unit base)
    (himport : c.image.program.importOf? method = .ok none)
    (h : unit.plainEntry method c.image = .ok id c.image) :
    ∃ x, c.image.nodes[id.index]? = some x ∧
      c.image.program.methodSymbol (.plain false) method = .ok x.symbol := by
  obtain ⟨x, import?, hx, himport', hsymbol⟩ := hc.plainEntry_symbol h
  cases himport.symm.trans himport'
  exact ⟨x, hx, hsymbol⟩

/-- Entries are named as their key says. -/
theorem answer_named (hc : c.Consistent unit base) {key : CacheKey} {family : SymbolFamily}
    (hkey : key.entered? = some (family, method))
    (h : unit.answer key c.image = .ok id c.image) :
    ∃ x, c.image.nodes[id.index]? = some x ∧
      EntryNamed c.image.program method key x.symbol := by
  have hcode {x : Node} {family' : SymbolFamily} (hx : c.image.nodes[id.index]? = some x)
      (hentity : x.kind.entity? = some (family', .method method)) (hfamily : family' = family) :
      EntryNamed c.image.program method key x.symbol :=
    .code (hfamily ▸ hkey) (hc.entitySymbol hx hentity)
  cases key with
  | plainEntry method =>
    cases hkey
    obtain ⟨x, import?, hx, himport, hsymbol⟩ := hc.plainEntry_symbol h
    refine ⟨x, hx, ?_⟩
    cases import? with
    | some name =>
      obtain rfl : x.symbol = name := hsymbol
      exact .routine himport
    | none => exact .code rfl hsymbol
  | unboxingEntry method =>
    cases hkey
    obtain ⟨x, hx, hentry⟩ := unboxingEntry_kind h
    exact ⟨x, hx, hcode hx (NodeKind.entity?_of_entry? hentry) rfl⟩
  | shadowMethod entry =>
    cases hkey
    obtain ⟨x, canonical, hx, hkind⟩ := shadowMethod_kind h
    exact ⟨x, hx, hcode hx (by rw [hkind]; rfl) rfl⟩
  | fatPointer entry =>
    cases hkey
    obtain ⟨x, target, dictionary, hx, hkind⟩ := fatPointer_kind h
    exact ⟨x, hx, hcode hx (by rw [hkind]; rfl) rfl⟩
  | leaf key => cases hkey

/-- What a construction is named after. -/
theorem exists_delegateSymbol (hc : c.Consistent unit base) {parts : DelegateParts}
    {routine : Initializer} {key : CacheKey} {thunk? : Option MethodId} {family : SymbolFamily}
    (hp : c.image.program.WellFormed) (h : unit.Constructs c.image parts routine key thunk?)
    (hkey : key.entered? = some (family, method)) :
    ∃ initializer target text?,
      c.image.program.methodSymbol (.plain false) routine.method = .ok initializer ∧
      EntryNamed c.image.program method key target ∧
      ThunkNamed c.image.program thunk? text? ∧
      helperSymbol (.delegate parts) c.image =
        .ok (delegateHelperSymbol initializer target text?) c.image := by
  obtain ⟨x, hx, hinitializer⟩ := hc.plainEntry_code (hp.importOf?_initializer _) h.initializer
  obtain ⟨y, hy, htarget⟩ := hc.answer_named hkey h.target
  have hsymbolx := symbol_eq_ok hx
  have hsymboly := symbol_eq_ok hy
  obtain ⟨initializer, target, thunk'?⟩ := parts
  cases h.thunk with
  | none =>
    refine ⟨x.symbol, y.symbol, none, hinitializer, htarget, .none, ?_⟩
    simp only [helperSymbol, bind_apply, hsymbolx, hsymboly, pure, EStateM.pure]
  | some hthunk =>
    obtain ⟨z, hz, htext⟩ := hc.plainEntry_code hthunk.1 hthunk.2
    have hsymbolz := symbol_eq_ok hz
    refine ⟨x.symbol, y.symbol, some z.symbol, hinitializer, htarget, .some htext, ?_⟩
    simp only [helperSymbol, ← bind_pure_comp, bind_apply, hsymbolx, hsymboly, hsymbolz, pure,
      EStateM.pure]

end CachedImage.Consistent

/-! ## Reading the symbol of a construction -/

theorem Program.exists_opening {p : Program} {family : SymbolFamily} {x : Entity}
    {symbol : String} (h : p.entitySymbol family x = .ok symbol) :
    ∃ c rest, symbol.toList = family.opening ++ c :: rest ∧ c ≠ '_' := by
  obtain ⟨name, -, rfl⟩ := entitySymbol_eq_ok.1 h
  exact family.exists_opening name

/-- What all symbols of constructions start with. -/
def delegateMark : List Char := "__DelegateCtor_".toList

/-- The thunk as it is shown, if there is one. -/
def thunkText : Option String → List Char
  | some text => '_' :: '_' :: text.toList
  | none => []

theorem thunkText_inj {text? text'? : Option String} (h : thunkText text? = thunkText text'?) :
    text? = text'? := by
  cases text? with
  | none =>
    cases text'? with
    | none => rfl
    | some text' => cases h
  | some text =>
    cases text'? with
    | none => cases h
    | some text' =>
      have hlists := List.tail_eq_of_cons_eq (List.tail_eq_of_cons_eq h)
      rw [String.toList_injective hlists]

theorem head?_thunkText (text? : Option String) : ∀ c ∈ (thunkText text?).head?, c = '_' := by
  intro c hc
  cases text? <;> cases hc
  rfl

theorem toList_delegateHelperSymbol (initializer target : String) (text? : Option String) :
    (delegateHelperSymbol initializer target text?).toList = delegateMark ++
      (initializer.toList ++ '_' :: '_' :: (target.toList ++ thunkText text?)) := by
  have hjoint : "__".toList = ['_', '_'] := rfl
  unfold delegateHelperSymbol delegateMark
  generalize "__DelegateCtor_" = mark
  cases text? with
  | none =>
    simp only [String.toList_append, String.toList_empty, hjoint, thunkText, List.append_assoc,
      List.cons_append, List.nil_append]
  | some text =>
    simp only [String.toList_append, hjoint, thunkText, List.append_assoc, List.cons_append,
      List.nil_append]

/-! ### Routines of the runtime -/

/-- What a shown thunk starts with. -/
def thunkMark : List Char := '_' :: '_' :: entityMark.toList

/-- Nothing, or a symbol of an entity behind two underscores. -/
def ThunkShown (r : List Char) : Prop := r = [] ∨ ∃ c rest, r = thunkMark ++ c :: rest ∧ c ≠ '_'

theorem CompilationUnit.ThunkNamed.shown {p : Program} {thunk? : Option MethodId}
    {text? : Option String} (h : ThunkNamed p thunk? text?) : ThunkShown (thunkText text?) := by
  cases h with
  | none => exact .inl rfl
  | @some thunk text h =>
    have hentity : p.entitySymbol (.plain false) (.method thunk) = .ok text := h
    obtain ⟨c, rest, hrest, hc⟩ := exists_opening hentity
    refine .inr ⟨c, rest, ?_, hc⟩
    rw [thunkText, hrest]
    rfl

theorem entityMark_infix_thunkMark : entityMark.toList <:+: thunkMark := ⟨['_', '_'], [], rfl⟩

/-- If a name without the mark of entities ends inside a text that shows a thunk there, nothing
else can be shown behind it. -/
theorem eq_nil_of_thunkShown {name l r r' : List Char} (hname : ¬ entityMark.toList <:+: name ++ l)
    (hr : ThunkShown r) (hr' : ThunkShown r') (h : r = l ++ r') : l = [] := by
  -- what a thunk starts with occurs in itself and what follows only at the start
  have hall : ∀ l ∈ thunkMark.inits, l ≠ [] → (l ++ thunkMark).take 7 = thunkMark →
      (l ++ thunkMark)[7]? = some '_' := by decide
  by_contra hne
  rcases hr with rfl | ⟨c, rest, rfl, hc⟩
  · exact hne (List.append_eq_nil_iff.1 h.symm).1
  · have hmark : thunkMark <+: l ++ r' := ⟨c :: rest, h⟩
    rcases List.prefix_or_prefix_of_prefix hmark (List.prefix_append l r') with hlong | hshort
    · exact hname (entityMark_infix_thunkMark.trans
        (hlong.isInfix.trans (List.suffix_append name l).isInfix))
    · have hle := hshort.length_le
      have hpos := List.length_pos_iff.2 hne
      have hseven : thunkMark.length = 7 := rfl
      rcases hr' with rfl | ⟨c', rest', rfl, -⟩
      · have hlength := congrArg List.length h
        simp only [List.length_append, List.length_cons, List.length_nil] at hlength
        omega
      · rw [← List.append_assoc] at h
        have hlong : 7 < (l ++ thunkMark).length := by
          rw [List.length_append]
          omega
        have htake := congrArg (List.take 7) h
        rw [List.take_left' hseven, List.take_append_of_le_length hlong.le] at htake
        have hnext := congrArg (fun text => text[7]?) h
        rw [List.getElem?_append_right hseven.le, List.getElem?_append_left hlong,
          hall l ((List.mem_inits _ _).2 hshort) hne htake.symm] at hnext
        exact hc (Option.some_inj.1 hnext)

/-- Names without the mark of entities can be told from the thunk behind them. -/
theorem unmarked_append_inj {name name' r r' : List Char} (hname : ¬ entityMark.toList <:+: name)
    (hname' : ¬ entityMark.toList <:+: name') (hr : ThunkShown r) (hr' : ThunkShown r')
    (h : name ++ r = name' ++ r') : name = name' ∧ r = r' := by
  rcases List.append_eq_append_iff.1 h with ⟨l, rfl, hl⟩ | ⟨l, rfl, hl⟩
  · obtain rfl := eq_nil_of_thunkShown hname' hr hr' hl
    exact ⟨(List.append_nil name).symm, hl⟩
  · obtain rfl := eq_nil_of_thunkShown hname hr' hr hl
    exact ⟨List.append_nil name', hl.symm⟩

/-- Behind such a name no entity's symbol can be shown, nor can it start like one. -/
theorem symbol_ne_unmarked {p : Program} {family : SymbolFamily} {x : Entity} {symbol : String}
    (hsymbol : p.entitySymbol family x = .ok symbol) {name r : List Char}
    (hname : ¬ entityMark.toList <:+: name) (hr : ThunkShown r) (more : List Char) :
    symbol.toList ++ more ≠ name ++ r := by
  have hall : ∀ family ∈ SymbolFamily.all, ∀ l ∈ family.opening.tails, ¬ thunkMark <+: l ∧
      (l <+: thunkMark → thunkMark[l.length]? = some '_') := by decide +kernel
  obtain ⟨c, rest, hrest, hc⟩ := exists_opening hsymbol
  rw [hrest, List.append_assoc, List.cons_append]
  intro h
  rcases List.append_eq_append_iff.1 h with ⟨l, rfl, -⟩ | ⟨l, hl, h⟩
  · refine hname ((List.IsSuffix.isInfix ?_).trans (List.prefix_append _ l).isInfix)
    exact ⟨family.label.toList, rfl⟩
  · obtain ⟨hlong, hshort⟩ := hall family family.mem_all l
      ((List.mem_tails _ _).2 ⟨name, hl.symm⟩)
    rcases hr with rfl | ⟨d, rest', rfl, -⟩
    · cases l <;> cases h
    · have hmark : thunkMark <+: l ++ c :: (rest ++ more) := ⟨d :: rest', h⟩
      rcases List.prefix_or_prefix_of_prefix hmark (List.prefix_append l _) with hstart | hstart
      · exact hlong hstart
      -- the mark goes on with an underscore where the symbol of an entity does not
      · have hnext := congrArg (fun text => text[l.length]?) h
        have hlt : l.length < thunkMark.length := by
          refine lt_of_le_of_ne hstart.length_le fun hlength => hlong ?_
          rw [hstart.eq_of_length hlength]
        rw [List.getElem?_append_left hlt, hshort hstart,
          List.getElem?_append_right (Nat.le_refl _), Nat.sub_self] at hnext
        exact hc (Option.some_inj.1 hnext.symm)

/-- Delegates over routines of the runtime can be told apart by the names of the routines. -/
structure CodeBodies.ImportsDistinct (bodies : CodeBodies) (p : Program) : Prop where
  unmarked : ∀ {type method name}, Request.delegate type method ∈ bodies.requests →
    p.importOf? method = .ok (some name) → ¬ entityMark.toList <:+: name.toList
  distinct : ∀ {type type' method method' name}, Request.delegate type method ∈ bodies.requests →
    Request.delegate type' method' ∈ bodies.requests → p.importOf? method = .ok (some name) →
    p.importOf? method' = .ok (some name) → method = method'

namespace CompilationUnit

section Reading

variable {p : Program} (hp : p.WellFormed) (hplain : p.NamesPlain) (hnames : p.NamesDistinct)
  (hinstances : p.InstancesDistinct)

include hp hplain hnames hinstances in
/-- Before the thunk, if there is one, names tell entries apart. -/
theorem EntryNamed.split {method method' : MethodId} {key key' : CacheKey}
    {target target' : String} (h : EntryNamed p method key target)
    (h' : EntryNamed p method' key' target')
    (hname : ∀ {name}, p.importOf? method = .ok (some name) →
      ¬ entityMark.toList <:+: name.toList)
    (hname' : ∀ {name}, p.importOf? method' = .ok (some name) →
      ¬ entityMark.toList <:+: name.toList)
    (hdistinct : ∀ {name}, p.importOf? method = .ok (some name) →
      p.importOf? method' = .ok (some name) → method = method')
    {thunk? thunk'? : Option MethodId} {text? text'? : Option String}
    (hthunk : ThunkNamed p thunk? text?) (hthunk' : ThunkNamed p thunk'? text'?)
    (heq : target.toList ++ thunkText text? = target'.toList ++ thunkText text'?) :
    key = key' ∧ text? = text'? := by
  cases h with
  | code hkey h =>
    cases h' with
    | code hkey' h' =>
      obtain ⟨rfl, rfl, hrest⟩ := methodSymbol_split hp hplain hnames hinstances h h'
        (head?_thunkText text?) (head?_thunkText text'?) heq
      exact ⟨CacheKey.eq_of_entered? hkey hkey', thunkText_inj hrest⟩
    | routine himport' =>
      have hentity : p.entitySymbol _ (.method method) = .ok target := h
      exact absurd heq (symbol_ne_unmarked hentity (hname' himport') hthunk'.shown _)
  | routine himport =>
    cases h' with
    | code hkey' h' =>
      have hentity : p.entitySymbol _ (.method method') = .ok target' := h'
      exact absurd heq.symm (symbol_ne_unmarked hentity (hname himport) hthunk.shown _)
    | routine himport' =>
      obtain ⟨hsame, hrest⟩ :=
        unmarked_append_inj (hname himport) (hname' himport') hthunk.shown hthunk'.shown heq
      obtain rfl := String.toList_injective hsame
      rw [hdistinct himport himport']
      exact ⟨rfl, thunkText_inj hrest⟩

include hp hplain hnames hinstances in
/-- Thunks that are shown alike are the same. -/
theorem ThunkNamed.inj {thunk? thunk'? : Option MethodId} {text? : Option String}
    (h : ThunkNamed p thunk? text?) (h' : ThunkNamed p thunk'? text?) : thunk? = thunk'? := by
  cases h with
  | none =>
    cases h'
    rfl
  | some h =>
    cases h' with
    | some h' =>
      obtain ⟨-, hsame⟩ := entitySymbol_inj hp hplain hnames hinstances
        (show p.entitySymbol (.plain false) (.method _) = _ from h)
        (show p.entitySymbol (.plain false) (.method _) = _ from h')
      cases hsame
      rfl

end Reading

variable {unit : CompilationUnit} {base : Program} {c : CachedImage} {bodies : CodeBodies}

/-- Requested constructions that have the same symbol have the same parts. -/
theorem delegateParts_eq_of_symbol (hc : c.Consistent unit base)
    (hp : c.image.program.WellFormed) (hplain : c.image.program.NamesPlain)
    (hnames : c.image.program.NamesDistinct) (hinstances : c.image.program.InstancesDistinct)
    (himports : bodies.ImportsDistinct c.image.program)
    {parts parts' : DelegateParts}
    (h : unit.Makes bodies c.image (.helper (.delegate parts)))
    (h' : unit.Makes bodies c.image (.helper (.delegate parts'))) {symbol : String}
    (hsymbol : helperSymbol (.delegate parts) c.image = .ok symbol c.image)
    (hsymbol' : helperSymbol (.delegate parts') c.image = .ok symbol c.image) :
    parts = parts' := by
  obtain ⟨type, method, hmem, hparts⟩ := h
  obtain ⟨type', method', hmem', hparts'⟩ := h'
  obtain ⟨routine, key, thunk?, family, h, hkey⟩ := delegateParts_constructs hp hparts
  obtain ⟨routine', key', thunk'?, family', h', hkey'⟩ := delegateParts_constructs hp hparts'
  obtain ⟨initializer, target, text?, hinitializer, htarget, hthunk, hx⟩ :=
    hc.exists_delegateSymbol hp h hkey
  obtain ⟨initializer', target', text'?, hinitializer', htarget', hthunk', hy⟩ :=
    hc.exists_delegateSymbol hp h' hkey'
  have hsame : symbol = delegateHelperSymbol initializer target text? :=
    (EStateM.Result.ok.inj (hsymbol.symm.trans hx)).1
  have hsame' : symbol = delegateHelperSymbol initializer' target' text'? :=
    (EStateM.Result.ok.inj (hsymbol'.symm.trans hy)).1
  have hlists := congrArg String.toList (hsame.symm.trans hsame')
  rw [toList_delegateHelperSymbol, toList_delegateHelperSymbol, List.append_cancel_left_eq]
    at hlists
  -- the underscores behind the initializer
  have hjoint (r : List Char) : ∀ c ∈ ('_' :: '_' :: r).head?, c = '_' := by
    rintro c ⟨⟩
    rfl
  -- names read from the left: the initializer, then the target with what follows it
  obtain ⟨-, hroutine, hrest⟩ := methodSymbol_split hp hplain hnames hinstances hinitializer
    hinitializer' (hjoint _) (hjoint _) hlists
  obtain ⟨rfl, rfl⟩ := htarget.split hp hplain hnames hinstances htarget'
    (himports.unmarked hmem) (himports.unmarked hmem') (himports.distinct hmem hmem')
    hthunk hthunk' (List.tail_eq_of_cons_eq (List.tail_eq_of_cons_eq hrest))
  obtain rfl := hthunk.inj hp hplain hnames hinstances hthunk'
  obtain rfl : routine = routine' := by
    cases routine <;> cases routine' <;> first | rfl | cases hroutine
  exact h.unique h'

end CompilationUnit

end NativeImage
