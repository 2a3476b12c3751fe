import NativeImage.Proofs.CompilationUnit.OwnedNodes
import NativeImage.Proofs.CompilationUnit.SharedProgram

/-!
# References between units

What a unit does not own it refers to by symbol, and that has to be the symbol which the owner
defines. Each unit spells it for itself: one where it makes a reference, the other where it makes
code or data. Neither uses its own prefix or target for this, except for the index of thread-local
storage. There the unit that refers to the index is told the prefix of the other one.

## Main definitions

- `Image.Gives` — a question, answered with a node of some kind and symbol
- `Image.Resolves` — references of one unit that find what they refer to in another

## Main statements

- `Image.ByCaches.gives_intern` — the symbols of what is asked for by kind
- `Image.Together.resolves` — two units over one program
-/

namespace NativeImage

open ImageM Program CompilationUnit

/-- A type that is not owned is a type of the program. -/
theorem Ownership.hasType_of_foreign (ownership : Ownership) {p : Program} {type : TypeId}
    (h : ownership.ownsType p type = .ok false) : p.HasType type := by
  cases ownership with
  | everything => cases h
  | modules ids =>
    cases hdefinition : p.typeDefinition type with
    | ok definition =>
      obtain ⟨desc, hd, -⟩ := typeDefinition_eq_ok.1 hdefinition
      exact hasType_of_desc hd
    | error e =>
      rw [ownsType, hdefinition] at h
      cases h

namespace Image

/-- The question is answered with a node of this kind and symbol. -/
def Gives (s : Image) (question : ImageM NodeId) (kind : NodeKind) (symbol : String) : Prop :=
  ∃ id t x, question s = .ok id t ∧ t.nodes[id.index]? = some x ∧ x.kind = kind ∧ x.symbol = symbol

/-- What the first unit refers to, and the second unit owns, is found there under its symbol. -/
structure Resolves (a b : CompilationUnit) (s t : Image) : Prop where
  /-- Entries that lead out of the first unit lead to a body of the second one, or to the same
  routine of the runtime. -/
  entries : ∀ entry id u x, a.ownership.ownsMethod s.program entry.method = .ok false →
    b.ownership.ownsMethod s.program entry.method = .ok true →
    a.methodEntry entry s = .ok id u → u.nodes[id.index]? = some x → x.kind.isExternal = true →
      (x.kind = .externMethod entry ∧
        t.Gives (b.methodEntry entry) (.methodCode entry) x.symbol) ∨
      (x.kind = .runtimeImport entry.method ∧
        t.Gives (b.methodEntry entry) (.runtimeImport entry.method) x.symbol)
  gcStaticDesc : ∀ type thread, a.ownership.ownsType s.program type = .ok false →
    b.ownership.ownsType s.program type = .ok true → ∃ symbol,
      s.Gives (a.gcStaticDesc type thread) (.externSymbol symbol) symbol ∧
      t.Gives (b.gcStaticDesc type thread) (.gcStaticDesc type thread) symbol
  threadStaticsOffset : ∀ type, a.ownership.ownsType s.program type = .ok false →
    b.ownership.ownsType s.program type = .ok true → ∃ symbol,
      s.Gives (a.threadStaticsOffset type) (.externSymbol symbol) symbol ∧
      t.Gives (b.threadStaticsOffset type) (.threadStaticsOffset type) symbol
  gcStaticBase : ∀ type, a.ownership.ownsType s.program type = .ok false →
    b.ownership.ownsType s.program type = .ok true → ∃ symbol,
      s.Gives (a.gcStaticBase type) (.externSymbol symbol) symbol ∧
      t.Gives (b.gcStaticBase type) (.gcStaticBase type) symbol
  /-- The index is found if the first unit knows the prefix of the second. -/
  threadStaticsIndex : a.config.importedPrefix = b.config.unitPrefix → ∀ type,
    a.ownership.ownsType s.program type = .ok false →
    b.ownership.ownsType s.program type = .ok true → ∃ symbol,
      s.Gives (a.threadStaticsIndexOf type) (.externSymbol symbol) symbol ∧
      t.Gives (b.threadStaticsIndexOf type) .threadStaticsIndex symbol

variable {a b unit : CompilationUnit} {base base' : Program} {s t u : Image} {id : NodeId}
  {question question' : ImageM NodeId} {kind : NodeKind} {symbol : String} {x : Node}

namespace Gives

theorem congr (hq : question s = question' s) (h : s.Gives question' kind symbol) :
    s.Gives question kind symbol := by
  obtain ⟨id, t, x, h⟩ := h
  exact ⟨id, t, x, by rwa [hq]⟩

/-- There is only one answer. -/
theorem unique (h : s.Gives question kind symbol) (hq : question s = .ok id u)
    (hx : u.nodes[id.index]? = some x) : x.kind = kind ∧ x.symbol = symbol := by
  obtain ⟨id', t, y, hq', hy, hkind, hsymbol⟩ := h
  cases hq.symm.trans hq'
  cases hx.symm.trans hy
  exact ⟨hkind, hsymbol⟩

end Gives

/-- The node of a kind has the symbol of the kind, also if it has been made before. -/
theorem ByCaches.gives_intern (hs : s.ByCaches unit base) {end? : Option String}
    (hsymbols : unit.symbolsOf kind s = .ok (symbol, end?) s) :
    s.Gives (intern ⟨kind, symbol, end?⟩) kind symbol := by
  have happly := intern_apply ⟨kind, symbol, end?⟩ s
  cases hfind : findNode? kind s with
  | some id =>
    rw [hfind] at happly
    obtain ⟨x, hx, hkind⟩ := findNode?_spec hfind
    obtain ⟨cached, hcached⟩ := hs
    have hsymbols' := hcached.consistent.symbols hx
    rw [hkind, hsymbols] at hsymbols'
    cases hsymbols'
    exact ⟨id, s, x, happly, hx, hkind, rfl⟩
  | none =>
    rw [hfind] at happly
    exact ⟨_, _, _, happly, nodes_push.2 (.inr ⟨rfl, rfl⟩), rfl, rfl⟩

/-- References to symbols are named after them. -/
theorem ByCaches.gives_externSymbol (hs : s.ByCaches unit base) (name : String) :
    s.Gives (externSymbol name) (.externSymbol name) name :=
  hs.gives_intern rfl

/-- What is named after a type or method has the symbol that the program says. -/
theorem ByCaches.gives_named (hs : s.ByCaches unit base)
    {ask : Program → Except ProgramError String}
    (hkind : unit.symbolsOf kind = only (ImageM.ask ask)) (hname : ask s.program = .ok symbol) :
    s.Gives (intern { kind, symbol }) kind symbol :=
  hs.gives_intern (by rw [hkind]; exact only_eq_ok (ask_eq_ok hname))

/-! ## Entries -/

/-- Code of a method that the unit owns is its own. -/
theorem ByCaches.gives_own (hs : s.ByCaches unit base) {entry : MethodEntry}
    (hown : unit.ownership.ownsMethod s.program entry.method = .ok true)
    (hname : s.program.methodSymbol (.plain entry.unboxing) entry.method = .ok symbol) :
    s.Gives (unit.ownedEntry entry) (.methodCode entry) symbol := by
  refine .congr ?_ (hs.gives_named rfl hname)
  rw [ownedEntry, ownsMethod, bind_of_ok (ask_eq_ok hown), if_pos rfl, methodCode,
    bind_of_ok (ask_eq_ok hname)]

/-- Code of a method that it does not own is external. -/
theorem ByCaches.gives_foreign (hs : s.ByCaches unit base) {entry : MethodEntry}
    (hown : unit.ownership.ownsMethod s.program entry.method = .ok false)
    (hname : s.program.methodSymbol (.plain entry.unboxing) entry.method = .ok symbol) :
    s.Gives (unit.ownedEntry entry) (.externMethod entry) symbol := by
  refine .congr ?_ (hs.gives_named rfl hname)
  rw [ownedEntry, ownsMethod, bind_of_ok (ask_eq_ok hown), if_neg (by decide), externMethod,
    bind_of_ok (ask_eq_ok hname)]

/-- A routine of the runtime has the name that the method is given for it. -/
theorem ByCaches.gives_import (hs : s.ByCaches unit base) {method : MethodId} {desc : MethodDesc}
    (hd : s.program.methodDesc method = .ok desc) (himport : desc.importSymbol? = some symbol) :
    s.Gives (unit.plainEntry method) (.runtimeImport method) symbol := by
  have hsymbols : unit.symbolsOf (.runtimeImport method) s = .ok (symbol, none) s := by
    rw [symbolsOf, bind_of_ok (ask_eq_ok hd), himport]
    rfl
  refine .congr ?_ (hs.gives_intern hsymbols)
  rw [plainEntry, bind_of_ok (ask_eq_ok hd), himport]

section Units

variable (hs : s.ByCaches a base) (ht : t.ByCaches b base') (hp : t.program = s.program)
include hs ht hp

/-- What is code of another unit for the one is a body for the other. -/
theorem ownedEntry_resolves {entry : MethodEntry}
    (hforeign : a.ownership.ownsMethod s.program entry.method = .ok false)
    (hown : b.ownership.ownsMethod s.program entry.method = .ok true)
    (h : a.ownedEntry entry s = .ok id u) (hx : u.nodes[id.index]? = some x) :
    x.kind = .externMethod entry ∧ t.Gives (b.ownedEntry entry) (.methodCode entry) x.symbol := by
  have hname : ∃ name, s.program.methodSymbol (.plain entry.unboxing) entry.method = .ok name := by
    rw [ownedEntry, ownsMethod, bind_of_ok (ask_eq_ok hforeign), if_neg (by decide)] at h
    obtain ⟨name, hname, -⟩ := ask_bind_eq_ok.1 h
    exact ⟨name, hname⟩
  obtain ⟨name, hname⟩ := hname
  obtain ⟨hkind, rfl⟩ := (hs.gives_foreign hforeign hname).unique h hx
  rw [← hp] at hown hname
  exact ⟨hkind, ht.gives_own hown hname⟩

theorem plainEntry_resolves {method : MethodId}
    (hforeign : a.ownership.ownsMethod s.program method = .ok false)
    (hown : b.ownership.ownsMethod s.program method = .ok true)
    (h : a.plainEntry method s = .ok id u) (hx : u.nodes[id.index]? = some x) :
    (x.kind = .externMethod ⟨method, false⟩ ∧
      t.Gives (b.plainEntry method) (.methodCode ⟨method, false⟩) x.symbol) ∨
    (x.kind = .runtimeImport method ∧
      t.Gives (b.plainEntry method) (.runtimeImport method) x.symbol) := by
  obtain ⟨desc, hd, hrest⟩ := ask_bind_eq_ok.1 h
  have hd' : t.program.methodDesc method = .ok desc := hp ▸ hd
  cases himport : desc.importSymbol? with
  | some name =>
    obtain ⟨hkind, rfl⟩ := (hs.gives_import hd himport).unique h hx
    exact .inr ⟨hkind, ht.gives_import hd' himport⟩
  | none =>
    rw [himport] at hrest
    obtain ⟨hkind, hgives⟩ := ownedEntry_resolves hs ht hp hforeign hown hrest hx
    refine .inl ⟨hkind, .congr ?_ hgives⟩
    rw [plainEntry, bind_of_ok (ask_eq_ok hd'), himport]

/-- Boxed receivers leave the unit only for shared code. -/
theorem unboxingEntry_resolves {method : MethodId}
    (hforeign : a.ownership.ownsMethod s.program method = .ok false)
    (hown : b.ownership.ownsMethod s.program method = .ok true)
    (h : a.unboxingEntry method s = .ok id u) (hx : u.nodes[id.index]? = some x)
    (hexternal : x.kind.isExternal = true) :
    x.kind = .externMethod ⟨method, true⟩ ∧
      t.Gives (b.unboxingEntry method) (.methodCode ⟨method, true⟩) x.symbol := by
  obtain ⟨desc, hd, hrest⟩ := ask_bind_eq_ok.1 h
  obtain ⟨shared, hshared, hrest⟩ := ask_bind_eq_ok.1 hrest
  have hd' : t.program.methodDesc method = .ok desc := hp ▸ hd
  have hshared' : t.program.isSharedMethod method = .ok shared := hp ▸ hshared
  split at hrest
  · next hcond =>
    obtain ⟨hkind, hgives⟩ := ownedEntry_resolves hs ht hp hforeign hown hrest hx
    refine ⟨hkind, .congr ?_ hgives⟩
    rw [unboxingEntry, bind_of_ok (ask_eq_ok hd'), bind_of_ok (ask_eq_ok hshared'), if_pos hcond]
  · -- a stub is the unit's own
    obtain ⟨target, v, -, hstub⟩ := bind_eq_ok.1 hrest
    obtain ⟨y, hy, hkind⟩ := kind_of_ask (.unboxingStub method target) (fun _ => rfl) hstub
    cases hx.symm.trans hy
    rw [hkind] at hexternal
    cases hexternal

/-! ## Static data -/

/-- A node of a type is the symbol of the same name for whoever does not own the type. -/
theorem typeNode_resolves {type : TypeId} {family : SymbolFamily}
    (hkind : ∀ unit : CompilationUnit,
      unit.symbolsOf kind = only (ask (·.typeSymbol family type)))
    (hwellFormed : s.program.WellFormed)
    (hforeign : a.ownership.ownsType s.program type = .ok false)
    (hown : b.ownership.ownsType s.program type = .ok true) : ∃ symbol,
      s.Gives (a.typeNode type family kind) (.externSymbol symbol) symbol ∧
      t.Gives (b.typeNode type family kind) kind symbol := by
  have hhas : s.program.HasType type := a.ownership.hasType_of_foreign hforeign
  obtain ⟨name, hname⟩ := (Extension.refl hwellFormed).exists_typeSymbol hhas family
  refine ⟨name, .congr ?_ (hs.gives_externSymbol name), ?_⟩
  · rw [typeNode, bind_of_ok (ask_eq_ok hname), ownsType, bind_of_ok (ask_eq_ok hforeign),
      if_neg (by decide)]
  · rw [← hp] at hown hname
    refine .congr ?_ (ht.gives_named (hkind b) hname)
    rw [typeNode, bind_of_ok (ask_eq_ok hname), ownsType, bind_of_ok (ask_eq_ok hown), if_pos rfl]

/-- The index of the unit that owns the type is its table, which the other one finds if it knows the
prefix. -/
theorem threadStaticsIndexOf_resolves {type : TypeId}
    (hknown : a.config.importedPrefix = b.config.unitPrefix)
    (hforeign : a.ownership.ownsType s.program type = .ok false)
    (hown : b.ownership.ownsType s.program type = .ok true) : ∃ symbol,
      s.Gives (a.threadStaticsIndexOf type) (.externSymbol symbol) symbol ∧
      t.Gives (b.threadStaticsIndexOf type) .threadStaticsIndex symbol := by
  refine ⟨threadIndexSymbol b.config.unitPrefix, ?_, ?_⟩
  · refine .congr ?_ (hs.gives_externSymbol _)
    rw [threadStaticsIndexOf, ownsType, bind_of_ok (ask_eq_ok hforeign), if_neg (by decide),
      hknown]
  · obtain ⟨cached, hcached⟩ := ht
    have hindex : t.nodes[NodeId.threadStaticsIndex.index]? =
        some ⟨.threadStaticsIndex, threadIndexSymbol b.config.unitPrefix, none⟩ :=
      hcached.consistent.initial_le.nodes _ _ rfl
    rw [← hp] at hown
    refine ⟨.threadStaticsIndex, t, _, ?_, hindex, rfl, rfl⟩
    rw [threadStaticsIndexOf, ownsType, bind_of_ok (ask_eq_ok hown), if_pos rfl]
    rfl

end Units

/-- Whatever two units over one program have been asked, what the first one refers to and the second
one owns is found in the second one under its symbol. -/
theorem Together.resolves (h : Together a b s t) : Resolves a b s t := by
  obtain ⟨⟨base, hs⟩, base', ht⟩ := h.byCaches_both
  have hp := h.program_eq
  have hwellFormed := h.reachable.wellFormed
  refine ⟨fun entry id u x hforeign hown hx hn hexternal => ?_,
    fun type thread => typeNode_resolves hs ht hp (fun _ => rfl) hwellFormed,
    fun type => typeNode_resolves hs ht hp (fun _ => rfl) hwellFormed,
    fun type => typeNode_resolves hs ht hp (fun _ => rfl) hwellFormed,
    fun hknown type => threadStaticsIndexOf_resolves hs ht hp hknown⟩
  obtain ⟨method, unboxing⟩ := entry
  cases unboxing with
  | true => exact .inl (unboxingEntry_resolves hs ht hp hforeign hown hx hn hexternal)
  | false => exact plainEntry_resolves hs ht hp hforeign hown hx hn

end Image

namespace CompilationUnit

/-- The library is compiled by itself, under the prefix that the application imports. -/
def libraryUnit : CompilationUnit :=
  ⟨{ arch := .x64, unitPrefix := "lib" }, .modules [⟨1⟩], .absent⟩

/-- When the application has been compiled, its references to the library's static fields and to the
library's shared code are found there. -/
theorem application_resolves : ∃ s t, Image.Together applicationUnit libraryUnit s t ∧
    (∃ symbol, s.Gives (applicationUnit.gcStaticBase ⟨2⟩) (.externSymbol symbol) symbol ∧
      t.Gives (libraryUnit.gcStaticBase ⟨2⟩) (.gcStaticBase ⟨2⟩) symbol) ∧
    (∃ symbol, s.Gives (applicationUnit.threadStaticsIndexOf ⟨2⟩) (.externSymbol symbol) symbol ∧
      t.Gives (libraryUnit.threadStaticsIndexOf ⟨2⟩) .threadStaticsIndex symbol) ∧
    ∃ symbol, s.Gives (applicationUnit.methodEntry ⟨⟨7⟩, false⟩)
        (.externMethod ⟨⟨7⟩, false⟩) symbol ∧
      t.Gives (libraryUnit.methodEntry ⟨⟨7⟩, false⟩) (.methodCode ⟨⟨7⟩, false⟩) symbol := by
  have hstart := Image.Together.initial applicationUnit libraryUnit libraryProgram_reachable
  have hvalid : FactoryCall.Valid libraryProgram (.compile applicationBodies [⟨5⟩]) := nofun
  have htogether := hstart.call hvalid
  have hresolves := Image.Together.resolves htogether
  obtain ⟨base, hs⟩ := hstart.byCaches
  -- who owns what does not change with the compile
  have hle := ((FactoryCall.compile applicationBodies [⟨5⟩]).run_keeps hs).le_stateAfter.program
  have htype (unit : CompilationUnit) (own : Bool)
      (h : unit.ownership.ownsType libraryProgram ⟨2⟩ = .ok own) :=
    unit.ownership.ownsType_stable _ _ _ h _ hle
  have hmethod (unit : CompilationUnit) (own : Bool)
      (h : unit.ownership.ownsMethod libraryProgram ⟨7⟩ = .ok own) :=
    unit.ownership.ownsMethod_stable _ _ _ h _ hle
  have hforeign := htype applicationUnit false (by decide +kernel)
  have hown := htype libraryUnit true (by decide +kernel)
  refine ⟨_, _, htogether, hresolves.gcStaticBase _ hforeign hown,
    hresolves.threadStaticsIndex rfl _ hforeign hown, ?_⟩
  have hrun : succeedsWith (fun (id : NodeId) (u : Image) =>
        u.nodes[id.index]?.any fun x => x.kind == .externMethod ⟨⟨7⟩, false⟩)
      (applicationUnit.methodEntry ⟨⟨7⟩, false⟩ (stateAfter
        ((FactoryCall.compile applicationBodies [⟨5⟩]).run applicationUnit)
        (.initial applicationUnit.config libraryProgram))) = true := by decide +kernel
  obtain ⟨id, u, h, htest⟩ := exists_ok_of_succeedsWith hrun
  obtain ⟨x, hx, htest⟩ := (Option.any_eq_true _ _).1 htest
  have hkind : x.kind = .externMethod ⟨⟨7⟩, false⟩ := by simpa using htest
  obtain ⟨-, hgives⟩ | ⟨himport, -⟩ := hresolves.entries _ _ _ _
    (hmethod applicationUnit false (by decide +kernel))
    (hmethod libraryUnit true (by decide +kernel)) h hx (by rw [hkind]; rfl)
  · exact ⟨x.symbol, ⟨id, u, x, h, hx, hkind, rfl⟩, hgives⟩
  · cases hkind.symm.trans himport

end CompilationUnit

end NativeImage
