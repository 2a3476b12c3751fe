import NativeImage.Proofs.CompilationUnit.Outcome
import NativeImage.Proofs.CompilationUnit.UniqueSymbols

/-!
# Why nodes are emitted

The operations that make nodes do not check whether the node makes sense in the unit: the thread
statics of a type are made whoever owns the type, and the entry of a method whether or not its code
is shared with another method. What a compiled unit has is decided by who asks for it. Here each
emitted node is traced back to that: a node is a table, or what the body of an emitted method has
requested, or what another emitted node needs, and each of these leads only to nodes that the unit
has a reason to emit.

The answers that were given on the way hold in the image that the compilation leaves, so reasons are
stated there.

## Main definitions

- `CompilationUnit.Entered` — why a method is entered
- `CompilationUnit.Warrants` — the reason to emit a node of a kind
- `CompiledUnit.Requests` — what emitted bodies request

## Main statements

- `CompilationUnit.needs_warranted`, `CompilationUnit.resolve_warranted` — what a node with a reason
  leads to
- `CompilationUnit.compile_warranted`
-/

namespace NativeImage

open ImageM Program

/-- Whether a node is requested by its handle. -/
def Request.isNode : Request → Bool
  | node _ => true
  | _ => false

/-! ## Forms, requests and keys -/

/-- A canonical form is in normal form. -/
theorem Program.Reachable.normalMethod {p q : Program} (hp : p.Reachable) {method form : MethodId}
    (h : ProgramM.canonicalMethod method p = .ok form q) : q.NormalMethod form := by
  obtain ⟨desc, hd, -⟩ := ProgramM.ask_bind_eq_ok.1 h
  obtain ⟨form', q', h', -, hform⟩ :=
    ProgramM.canonicalMethod_form hp.wellFormed hp.housed (hasMethod_of_desc hd)
  cases h.symm.trans h'
  exact hform.normal

theorem Image.Asks.mem_requests {s : Image} {bodies : CodeBodies} {id : NodeId} {request : Request}
    (h : s.Asks bodies id request) : request ∈ bodies.requests := by
  obtain ⟨_, _, body, -, -, hbody, hmem⟩ := h
  exact CodeBodies.mem_requests_of_requestsOf hbody request hmem

/-- What is cached under the key of a node is the node. -/
theorem CachedImage.Consistent.answer_of_home? {unit : CompilationUnit} {base : Program}
    {c : CachedImage} (hc : c.Consistent unit base) {id : NodeId} {x : Node} {key : CacheKey}
    (hx : c.image.nodes[id.index]? = some x) (hkey : x.kind.home? = some key) :
    unit.answer key c.image = .ok id c.image :=
  hc.answers ((hc.homes hx hkey).resolve_right fun hfalse => hfalse)

namespace CompilationUnit

variable {unit : CompilationUnit} {base : Program} {bodies : CodeBodies} {asked : Request → Prop}
  {s t : Image} {id : NodeId} {type : TypeId} {method : MethodId}

/-! ## Reasons -/

/-- The method is a thunk through which delegates of the type are invoked. -/
def InvokesDelegate (s : Image) (type : TypeId) (method : MethodId) : Prop :=
  ∃ info kind definition, onProgram (ProgramM.delegateInfo type) s = .ok info s ∧
    info.thunk? kind = some definition ∧ thunkOn type definition s = .ok method s

/-- The plain entry of a method is used as it is, whether or not the method shares its code with
others: of the static target and the thunk of a delegate, and of a class constructor that runs at
startup. -/
inductive EnteredAsIs (asked : Request → Prop) (s : Image) : MethodEntry → Prop
  | target {type : TypeId} {method : MethodId} {desc : MethodDesc}
    (h : asked (.delegate type method)) (hd : s.program.methodDesc method = .ok desc)
    (hstatic : desc.isStatic = true) : EnteredAsIs asked s ⟨method, false⟩
  | thunk {type : TypeId} {target thunk : MethodId} (h : asked (.delegate type target))
    (hthunk : InvokesDelegate s type thunk) : EnteredAsIs asked s ⟨thunk, false⟩
  | eagerConstructor {method : MethodId} (h : asked (.eagerConstructor method)) :
    EnteredAsIs asked s ⟨method, false⟩

/-- Nothing is entered as it is by boxed receivers. -/
theorem EnteredAsIs.plain {entry : MethodEntry} (h : EnteredAsIs asked s entry) :
    EnteredAsIs asked s ⟨entry.method, false⟩ := by
  cases h with
  | target h hd hstatic => exact .target h hd hstatic
  | thunk h hthunk => exact .thunk h hthunk
  | eagerConstructor h => exact .eagerConstructor h

/-- A reason to enter a method: it is a canonical form, or it is entered as it is. -/
def Entered (asked : Request → Prop) (s : Image) (entry : MethodEntry) : Prop :=
  s.program.NormalMethod entry.method ∨ EnteredAsIs asked s entry

/-- The unit has a reason to emit nodes of this kind, if it is asked for these things. -/
def Warrants (unit : CompilationUnit) (asked : Request → Prop) (s : Image) : NodeKind → Prop
  | .methodCode entry => unit.ownership.ownsMethod s.program entry.method = .ok true ∧
      Entered asked s entry
  | .externMethod entry => unit.ownership.ownsMethod s.program entry.method = .ok false
  | .unboxingStub method _ => s.program.NormalMethod method
  | .gcStaticDesc type _ | .threadStaticsOffset type | .threadStaticsBlock type
  | .gcStaticBase type => unit.ownership.ownsType s.program type = .ok true
  | .eagerConstructor method => asked (.eagerConstructor method)
  | .helper (.delegate parts) => ∃ type method, asked (.delegate type method) ∧
      unit.delegateParts type method s = .ok parts s
  | .standaloneRegion _ => False
  | _ => True

/-- The node is there, and there is a reason to emit it. -/
def Warranted (unit : CompilationUnit) (asked : Request → Prop) (s : Image) (id : NodeId) : Prop :=
  ∃ x, s.nodes[id.index]? = some x ∧ unit.Warrants asked s x.kind

theorem warranted_of_kind (kind : NodeKind) (hkind : unit.Warrants asked s kind)
    (h : ∃ x, s.nodes[id.index]? = some x ∧ x.kind = kind) : unit.Warranted asked s id := by
  obtain ⟨x, hx, rfl⟩ := h
  exact ⟨x, hx, hkind⟩

/-- Tables are emitted by every unit. -/
theorem initial_warranted (hle : Image.initial unit.config base ≤ s) {x : Node}
    (hx : (Image.initial unit.config base).nodes[id.index]? = some x) :
    unit.Warranted asked s id := by
  have hreason : unit.Warrants asked s x.kind :=
    Image.tableKinds_cases (Image.kind_mem_of_initial hx) (fun _ => trivial) trivial trivial
      (fun _ => trivial) trivial
  exact ⟨x, hle.nodes _ _ hx, hreason⟩

/-! ## Entries of methods -/

theorem ownedEntry_warranted {entry : MethodEntry} (hentry : Entered asked s entry)
    (h : unit.ownedEntry entry s = .ok id s) : unit.Warranted asked s id := by
  obtain ⟨own, hown, h⟩ := ask_bind_eq_ok.1 h
  cases own with
  | true =>
    exact warranted_of_kind (.methodCode entry) ⟨hown, hentry⟩
      (kind_of_ask _ (fun _ => rfl) h)
  | false =>
    exact warranted_of_kind (.externMethod entry) hown (kind_of_ask _ (fun _ => rfl) h)

theorem plainEntry_warranted (hentry : Entered asked s ⟨method, false⟩)
    (h : unit.plainEntry method s = .ok id s) : unit.Warranted asked s id := by
  obtain ⟨desc, -, h⟩ := ask_bind_eq_ok.1 h
  cases himport : desc.importSymbol? with
  | some name =>
    rw [himport] at h
    exact warranted_of_kind (.runtimeImport method) trivial (kind_of_intern h)
  | none =>
    rw [himport] at h
    exact ownedEntry_warranted hentry h

theorem unboxingEntry_warranted (hmethod : s.program.NormalMethod method)
    (h : unit.unboxingEntry method s = .ok id s) : unit.Warranted asked s id := by
  obtain ⟨desc, -, h⟩ := ask_bind_eq_ok.1 h
  obtain ⟨shared, -, h⟩ := ask_bind_eq_ok.1 h
  split at h
  · exact ownedEntry_warranted (.inl hmethod) h
  · obtain ⟨target, t, -, h⟩ := bind_eq_ok.1 h
    exact warranted_of_kind (.unboxingStub method target) hmethod
      (kind_of_ask _ (fun _ => rfl) h)

theorem methodEntry_warranted {entry : MethodEntry} (hmethod : s.program.NormalMethod entry.method)
    (h : unit.methodEntry entry s = .ok id s) : unit.Warranted asked s id := by
  obtain ⟨method, unboxing⟩ := entry
  cases unboxing with
  | true => exact unboxingEntry_warranted hmethod h
  | false => exact plainEntry_warranted (.inl hmethod) h

theorem shadowMethod_warranted {entry : MethodEntry} (h : unit.shadowMethod entry s = .ok id s) :
    unit.Warranted asked s id := by
  obtain ⟨x, target, hx, hkind⟩ := shadowMethod_kind h
  exact warranted_of_kind (.shadowMethod entry target) trivial ⟨x, hx, hkind⟩

theorem fatPointer_warranted {entry : MethodEntry} (h : unit.fatPointer entry s = .ok id s) :
    unit.Warranted asked s id := by
  obtain ⟨x, target, dictionary, hx, hkind⟩ := fatPointer_kind h
  exact warranted_of_kind (.fatPointer entry target dictionary) trivial ⟨x, hx, hkind⟩

theorem dictionaryLayout_warranted {owner : Entity}
    (h : CompilationUnit.dictionaryLayout owner s = .ok id s) : unit.Warranted asked s id :=
  warranted_of_kind (.dictionaryLayout owner) trivial (kind_of_ask _ (fun _ => rfl) h)

/-! ## Static data -/

/-- The node of a type is that of a type of the unit, or a symbol of another unit. -/
theorem typeNode_warranted {family : SymbolFamily} (kind : NodeKind)
    (hkind : unit.ownership.ownsType s.program type = .ok true → unit.Warrants asked s kind)
    (h : unit.typeNode type family kind s = .ok id s) : unit.Warranted asked s id := by
  obtain ⟨name, -, h⟩ := ask_bind_eq_ok.1 h
  obtain ⟨own, hown, h⟩ := ask_bind_eq_ok.1 h
  cases own with
  | true => exact warranted_of_kind kind (hkind hown) (kind_of_intern h)
  | false => exact warranted_of_kind (.externSymbol name) trivial (kind_of_intern h)

theorem threadStaticsIndexOf_warranted (hle : Image.initial unit.config base ≤ s)
    (h : unit.threadStaticsIndexOf type s = .ok id s) : unit.Warranted asked s id := by
  obtain ⟨own, -, h⟩ := ask_bind_eq_ok.1 h
  cases own with
  | true =>
    obtain ⟨rfl, -⟩ := pure_eq_ok.1 h
    exact initial_warranted hle rfl
  | false => exact warranted_of_kind (.externSymbol _) trivial (kind_of_intern h)

/-! ## Links that nodes keep -/

/-- A stub goes on to the plain entry of its method. -/
theorem unboxingStub_target {x : Node} {target : NodeId} (hx : s.nodes[id.index]? = some x)
    (hkind : x.kind = .unboxingStub method target)
    (h : unit.unboxingEntry method s = .ok id s) : unit.plainEntry method s = .ok target s := by
  obtain ⟨desc, -, h⟩ := ask_bind_eq_ok.1 h
  obtain ⟨shared, -, h⟩ := ask_bind_eq_ok.1 h
  split at h
  · -- shared code has no stub
    obtain ⟨y, hy, hcode⟩ := ownedEntry_code h
    cases hx.symm.trans hy
    rw [hkind] at hcode
    rcases hcode with hcode | hcode <;> cases hcode
  · obtain ⟨target', htarget, h⟩ := (unit.plainEntry_settles method).bind_same
      (fun _ => (ask_settles (methodSymbol_stable _ _)).bind fun _ => intern_settles _) h
    obtain ⟨y, hy, hstub⟩ := kind_of_ask (.unboxingStub method target') (fun _ => rfl) h
    cases hx.symm.trans hy
    cases hkind.symm.trans hstub
    exact htarget

/-- A shadow goes on to the entry of the canonical form. -/
theorem shadowMethod_target {x : Node} {entry : MethodEntry} {target : NodeId}
    (hx : s.nodes[id.index]? = some x) (hkind : x.kind = .shadowMethod entry target)
    (h : unit.shadowMethod entry s = .ok id s) :
    ∃ canonical, onProgram (ProgramM.canonicalMethod entry.method) s = .ok canonical s ∧
      unit.methodEntry ⟨canonical, entry.unboxing⟩ s = .ok target s := by
  have hintern (target : NodeId) : Settles (do
      let symbol ← ask (·.methodSymbol (.shadow entry.unboxing) entry.method)
      intern { kind := .shadowMethod entry target, symbol } : ImageM NodeId) :=
    (ask_settles (methodSymbol_stable _ _)).bind fun _ => intern_settles _
  obtain ⟨canonical, hcanonical, h⟩ :=
    (onProgram_settles (ProgramM.canonicalMethod_settles _)).bind_same
      (fun _ => (unit.methodEntry_settles _).bind hintern) h
  obtain ⟨target', htarget, h⟩ := (unit.methodEntry_settles _).bind_same hintern h
  obtain ⟨y, hy, hshadow⟩ := kind_of_ask (.shadowMethod entry target') (fun _ => rfl) h
  cases hx.symm.trans hy
  cases hkind.symm.trans hshadow
  exact ⟨canonical, hcanonical, htarget⟩

/-- A fat pointer has the entry of the canonical form and the dictionary of the method itself. -/
theorem fatPointer_target {x : Node} {entry : MethodEntry} {target dictionary : NodeId}
    (hx : s.nodes[id.index]? = some x) (hkind : x.kind = .fatPointer entry target dictionary)
    (h : unit.fatPointer entry s = .ok id s) :
    ∃ canonical, onProgram (ProgramM.canonicalMethod entry.method) s = .ok canonical s ∧
      unit.methodEntry ⟨canonical, entry.unboxing⟩ s = .ok target s ∧
      CompilationUnit.dictionaryLayout (.method entry.method) s = .ok dictionary s := by
  have hintern (target dictionary : NodeId) : Settles (do
      let symbol ← ask (·.methodSymbol (.fatPointer entry.unboxing) entry.method)
      intern { kind := .fatPointer entry target dictionary, symbol } : ImageM NodeId) :=
    (ask_settles (methodSymbol_stable _ _)).bind fun _ => intern_settles _
  obtain ⟨canonical, hcanonical, h⟩ :=
    (onProgram_settles (ProgramM.canonicalMethod_settles _)).bind_same
      (fun _ => (unit.methodEntry_settles _).bind fun target =>
        (dictionaryLayout_settles _).bind (hintern target)) h
  obtain ⟨target', htarget, h⟩ := (unit.methodEntry_settles _).bind_same
    (fun target => (dictionaryLayout_settles _).bind (hintern target)) h
  obtain ⟨dictionary', hdictionary, h⟩ :=
    (dictionaryLayout_settles _).bind_same (hintern target') h
  obtain ⟨y, hy, hfat⟩ := kind_of_ask (.fatPointer entry target' dictionary') (fun _ => rfl) h
  cases hx.symm.trans hy
  cases hkind.symm.trans hfat
  exact ⟨canonical, hcanonical, htarget, hdictionary⟩

/-! ## Delegates -/

/-- Initializers are definitions. -/
theorem normalMethod_initializer (hp : s.program.WellFormed) (routine : Initializer) :
    s.program.NormalMethod routine.method := by
  have hinitial : initial.NormalMethod routine.method := by
    cases routine <;> exact .definition rfl rfl
  exact hinitial.mono hp.initial_le

/-- What a routine that constructs a delegate uses. -/
def PartsWarranted (unit : CompilationUnit) (asked : Request → Prop) (s : Image)
    (parts : DelegateParts) : Prop :=
  ∀ id ∈ [parts.initializer, parts.target] ++ parts.thunk?.toList, unit.Warranted asked s id

/-- With a bound receiver a canonical method is entered, and any other one through a shadow or a
fat pointer. -/
theorem BoundThrough.warranted {entry : MethodEntry} {desc : MethodDesc} {form : MethodId}
    {parts : DelegateParts} (hform : s.program.NormalMethod form)
    (h : unit.BoundThrough s entry desc form parts) : unit.Warranted asked s parts.target := by
  cases h with
  | itself heq _ htarget => exact methodEntry_warranted (heq ▸ hform) htarget
  | shadow _ _ _ htarget => exact shadowMethod_warranted htarget
  | fatPointer _ _ _ htarget => exact fatPointer_warranted htarget

/-- The initializer of a bound receiver's target is one of two. -/
theorem BoundThrough.exists_initializer {entry : MethodEntry} {desc : MethodDesc} {form : MethodId}
    {parts : DelegateParts} (h : unit.BoundThrough s entry desc form parts) :
    ∃ routine : Initializer, unit.plainEntry routine.method s = .ok parts.initializer s := by
  cases h with
  | itself _ hinitializer | shadow _ _ hinitializer | fatPointer _ _ hinitializer =>
    exact ⟨_, hinitializer⟩

/-- The parts of a delegate that is asked for. -/
theorem delegateParts_warranted (hp : s.program.Reachable) {parts : DelegateParts}
    (hasked : asked (.delegate type method))
    (h : unit.delegateParts type method s = .ok parts s) : unit.PartsWarranted asked s parts := by
  have hroutine {routine : Initializer} {id : NodeId}
      (hx : unit.plainEntry routine.method s = .ok id s) : unit.Warranted asked s id :=
    plainEntry_warranted (.inl (normalMethod_initializer hp.wellFormed routine)) hx
  cases delegateParts_made h with
  | @static desc info _ definition thunk _ hd hinfo hstatic _ hdefinition hon hinitializer htarget
      hentry hthunk =>
    have hinvokes : InvokesDelegate s type thunk := by
      refine ⟨info, _, definition, ?_, hdefinition, thunkOn_eq_ok hon⟩
      rw [onProgram, hinfo]
    simp only [PartsWarranted, hthunk, Option.toList_some, List.cons_append, List.nil_append,
      List.forall_mem_cons]
    refine ⟨hroutine hinitializer, ?_, ?_, List.forall_mem_nil _⟩
    · exact plainEntry_warranted (.inr (.target hasked hd hstatic)) htarget
    · exact plainEntry_warranted (.inr (.thunk hasked hinvokes)) hentry
  | bound _ _ _ _ _ hform hbound hthunk =>
    obtain ⟨routine, hinitializer⟩ := hbound.exists_initializer
    simp only [PartsWarranted, hthunk, Option.toList_none, List.append_nil, List.forall_mem_cons]
    exact ⟨hroutine hinitializer, hbound.warranted (hp.normalMethod hform), List.forall_mem_nil _⟩

/-! ## What a node with a reason leads to -/

/-- What the header lists, and the header itself, are there for a reason. -/
def AttachmentWarranted (unit : CompilationUnit) (asked : Request → Prop) (s : Image) : Prop :=
  ∀ a, s.attachment? = some a → unit.Warranted asked s a.headerNode ∧
    ∀ entry ∈ a.header.entries, unit.Warranted asked s entry.2.node

section Needs

variable {cached : List (CacheKey × NodeId)} (hp : s.program.Reachable)
  (hc : CachedImage.Consistent unit base ⟨s, cached⟩)
include hp hc

omit hp in
theorem helperNeeds_warranted {routine : Helper}
    (hroutine : unit.Warrants asked s (.helper routine))
    (hparts : ∀ {type method parts}, asked (.delegate type method) →
      unit.delegateParts type method s = .ok parts s → unit.PartsWarranted asked s parts)
    {needed : List NodeId} (h : unit.helperNeeds routine s = .ok needed s) :
    ∀ id ∈ needed, unit.Warranted asked s id := by
  have hnode (type : TypeId) (family : SymbolFamily) (kind : NodeKind) :=
    unit.typeNode_settles type family kind
  cases routine with
  | delegate parts =>
    obtain ⟨rfl, -⟩ := pure_eq_ok.1 h
    obtain ⟨type, method, hasked, h⟩ := hroutine
    exact hparts hasked h
  | gcStaticBase type =>
    obtain ⟨base, hbase, h⟩ := (hnode _ _ _).bind_same (fun _ => .pure _) h
    obtain ⟨rfl, -⟩ := pure_eq_ok.1 h
    exact List.forall_mem_singleton.2 (typeNode_warranted (.gcStaticBase type) id hbase)
  | threadStaticBase type =>
    have hlast (offset index : NodeId) : Settles (do
        if (← ask (·.typeDesc type)).statics.threadGcSlots.isEmpty then return [offset, index]
        return [offset, index, ← unit.gcStaticDesc type true] : ImageM (List NodeId)) := by
      refine (ask_settles (typeDesc_stable type)).bind fun desc => ?_
      exact Settles.ite (.pure _) ((hnode _ _ _).bind fun _ => .pure _)
    obtain ⟨offset, hoffset, h⟩ := (hnode _ _ _).bind_same
      (fun offset => (unit.threadStaticsIndexOf_settles type).bind (hlast offset)) h
    obtain ⟨index, hindex, h⟩ := (unit.threadStaticsIndexOf_settles type).bind_same (hlast offset) h
    obtain ⟨desc, -, h⟩ := ask_bind_eq_ok.1 h
    have hoffset : unit.Warranted asked s offset :=
      typeNode_warranted (.threadStaticsOffset type) id hoffset
    have hindex : unit.Warranted asked s index :=
      threadStaticsIndexOf_warranted hc.initial_le hindex
    split at h
    · obtain ⟨rfl, -⟩ := pure_eq_ok.1 h
      simpa only [List.forall_mem_cons, List.not_mem_nil, false_implies, implies_true, and_true]
        using ⟨hoffset, hindex⟩
    · obtain ⟨table, htable, h⟩ := (hnode _ _ _).bind_same (fun _ => .pure _) h
      obtain ⟨rfl, -⟩ := pure_eq_ok.1 h
      simpa only [List.forall_mem_cons, List.not_mem_nil, false_implies, implies_true, and_true]
        using ⟨hoffset, hindex, typeNode_warranted (.gcStaticDesc type true) id htable⟩

/-- Whatever a node needs that is there for a reason is there for a reason. -/
theorem needs_warranted (ha : unit.AttachmentWarranted asked s) {x : Node}
    (hx : s.nodes[id.index]? = some x) (hreason : unit.Warrants asked s x.kind)
    {needed : List NodeId} (h : unit.needs x.kind s = .ok needed s) :
    ∀ other ∈ needed, unit.Warranted asked s other := by
  have hanswer (key : CacheKey) (hkey : x.kind.home? = some key) :
      unit.answer key s = .ok id s := hc.answer_of_home? hx hkey
  have htable {id : NodeId} {x : Node}
      (hx : (Image.initial unit.config base).nodes[id.index]? = some x) :
      unit.Warranted asked s id := initial_warranted hc.initial_le hx
  have hnormal {method canonical : MethodId}
      (h : onProgram (ProgramM.canonicalMethod method) s = .ok canonical s) :
      s.program.NormalMethod canonical := hp.normalMethod (onProgram_eq_ok h)
  cases hkind : x.kind with
  | methodCode entry =>
    rw [hkind] at h hreason
    obtain ⟨code, hcode, h⟩ := (unit.plainEntry_settles _).bind_same (fun _ => .pure _) h
    obtain ⟨rfl, -⟩ := pure_eq_ok.1 h
    refine List.forall_mem_singleton.2 (plainEntry_warranted ?_ hcode)
    exact hreason.2.imp_right EnteredAsIs.plain
  | unboxingStub method target =>
    rw [hkind] at h hreason
    obtain ⟨rfl, -⟩ := pure_eq_ok.1 h
    have htarget := unboxingStub_target hx hkind
      (hanswer (.unboxingEntry method) (by rw [hkind]; rfl))
    exact List.forall_mem_singleton.2 (plainEntry_warranted (.inl hreason) htarget)
  | shadowMethod entry target =>
    rw [hkind] at h
    obtain ⟨dictionary, hdictionary, h⟩ :=
      (dictionaryLayout_settles _).bind_same (fun _ => .pure _) h
    obtain ⟨rfl, -⟩ := pure_eq_ok.1 h
    obtain ⟨canonical, hcanonical, htarget⟩ :=
      shadowMethod_target hx hkind (hanswer (.shadowMethod entry) (by rw [hkind]; rfl))
    exact List.forall_mem_cons.2 ⟨methodEntry_warranted (hnormal hcanonical) htarget,
      List.forall_mem_singleton.2 (dictionaryLayout_warranted hdictionary)⟩
  | fatPointer entry target dictionary =>
    rw [hkind] at h
    obtain ⟨rfl, -⟩ := pure_eq_ok.1 h
    obtain ⟨canonical, hcanonical, htarget, hdictionary⟩ :=
      fatPointer_target hx hkind (hanswer (.fatPointer entry) (by rw [hkind]; rfl))
    exact List.forall_mem_cons.2 ⟨methodEntry_warranted (hnormal hcanonical) htarget,
      List.forall_mem_singleton.2 (dictionaryLayout_warranted hdictionary)⟩
  | threadStaticsOffset type =>
    rw [hkind] at h hreason
    obtain ⟨block, hblock, h⟩ := (threadStaticsBlock_settles type).bind_same (fun _ => .pure _) h
    obtain ⟨rfl, -⟩ := pure_eq_ok.1 h
    refine List.forall_mem_cons.2 ⟨?_, List.forall_mem_singleton.2 (htable rfl)⟩
    exact warranted_of_kind (.threadStaticsBlock type) hreason
      (kind_of_ask _ (fun _ => rfl) hblock)
  | gcStaticBase type =>
    rw [hkind] at h
    obtain ⟨table, htable, h⟩ := (unit.typeNode_settles _ _ _).bind_same (fun _ => .pure _) h
    obtain ⟨rfl, -⟩ := pure_eq_ok.1 h
    exact List.forall_mem_singleton.2
      (typeNode_warranted (.gcStaticDesc type false) (fun hown => hown) htable)
  | eagerConstructor method =>
    rw [hkind] at h hreason
    obtain ⟨code, hcode, h⟩ := (unit.plainEntry_settles _).bind_same (fun _ => .pure _) h
    obtain ⟨rfl, -⟩ := pure_eq_ok.1 h
    exact List.forall_mem_singleton.2
      (plainEntry_warranted (.inr (.eagerConstructor hreason)) hcode)
  | standaloneRegion descriptor =>
    rw [hkind] at hreason
    exact hreason.elim
  | tlsDirectory =>
    rw [hkind] at h
    obtain ⟨rfl, -⟩ := pure_eq_ok.1 h
    simpa only [List.forall_mem_cons, List.not_mem_nil, false_implies, implies_true, and_true]
      using ⟨htable rfl, htable rfl, htable rfl⟩
  | header =>
    rw [hkind] at h
    obtain ⟨a, hattached, h⟩ := attachment_bind_eq_ok.1 h
    obtain ⟨rfl, -⟩ := pure_eq_ok.1 h
    exact List.forall_mem_map.2 (ha a hattached).2
  | modulesSection =>
    rw [hkind] at h
    obtain ⟨a, hattached, h⟩ := attachment_bind_eq_ok.1 h
    obtain ⟨rfl, -⟩ := pure_eq_ok.1 h
    exact List.forall_mem_singleton.2 (ha a hattached).1
  | helper routine =>
    rw [hkind] at h hreason
    exact helperNeeds_warranted hc hreason (delegateParts_warranted hp) h
  | _ =>
    rw [hkind] at h
    obtain ⟨rfl, -⟩ := pure_eq_ok.1 h
    nofun

end Needs

section Requests

variable (hp : s.program.Reachable)
include hp

/-- A call enters a canonical form, or goes through a shadow. -/
theorem call_warranted (h : unit.resolve (.call method) s = .ok id s) :
    unit.Warranted asked s id := by
  obtain ⟨canonical, hcanonical, h⟩ :=
    (onProgram_settles (ProgramM.canonicalMethod_settles method)).bind_same
      (fun _ => .ite (unit.plainEntry_settles _) (unit.shadowMethod_settles _)) h
  split at h
  · next heq =>
    refine plainEntry_warranted (.inl ?_) h
    exact heq ▸ hp.normalMethod (onProgram_eq_ok hcanonical)
  · exact shadowMethod_warranted h

/-- Whatever is asked for, other than a node, is there for that reason. -/
theorem resolve_warranted {request : Request} (hasked : asked request)
    (hnode : request.isNode = false) (h : unit.resolve request s = .ok id s) :
    unit.Warranted asked s id := by
  have hroutine (routine : Helper) (hreason : unit.Warrants asked s (.helper routine))
      (h : helper routine s = .ok id s) : unit.Warranted asked s id :=
    warranted_of_kind (.helper routine) hreason (helper_kind h)
  cases request with
  | call method => exact call_warranted hp h
  | delegate type method =>
    obtain ⟨parts, hparts, h⟩ :=
      (unit.delegateParts_settles type method).bind_same (fun _ => helper_settles _) h
    exact hroutine (.delegate parts) ⟨type, method, hasked, hparts⟩ h
  | gcStaticBase type => exact hroutine (.gcStaticBase type) trivial h
  | threadStaticBase type => exact hroutine (.threadStaticBase type) trivial h
  | eagerConstructor method =>
    exact warranted_of_kind (.eagerConstructor method) hasked (kind_of_ask _ (fun _ => rfl) h)
  | node other => cases hnode

/-- What an emitted node requests is there for a reason, if its body asks for what it requests. -/
theorem dependencies_warranted {cached : List (CacheKey × NodeId)}
    (hc : CachedImage.Consistent unit base ⟨s, cached⟩) (ha : unit.AttachmentWarranted asked s)
    (hid : unit.Warranted asked s id)
    (hbody : ∀ request, s.Asks bodies id request → asked request ∧ request.isNode = false)
    {requests : List Request} (hdeps : unit.dependencies bodies id s = .ok requests s)
    {request : Request} (hmem : request ∈ requests) {other : NodeId}
    (hres : unit.resolve request s = .ok other s) : unit.Warranted asked s other := by
  obtain ⟨x, hx, hreason⟩ := hid
  by_cases hcode : ∃ method, x.kind = .methodCode ⟨method, false⟩
  · obtain ⟨method, hkind⟩ := hcode
    rw [unit.dependencies_eq_body hx hkind] at hdeps
    obtain ⟨body, hrequests, hdeps⟩ := ask_bind_eq_ok.1 hdeps
    obtain ⟨shared, -, hdeps⟩ := ask_bind_eq_ok.1 hdeps
    have hrequested (hmem : request ∈ body) : unit.Warranted asked s other := by
      obtain ⟨hasked, hnode⟩ := hbody request ⟨x, method, body, hx, hkind, hrequests, hmem⟩
      exact resolve_warranted hp hasked hnode hres
    split at hdeps
    · obtain ⟨dictionary, hdictionary, hlast⟩ :=
        (dictionaryLayout_settles _).bind_same (fun _ => .pure _) hdeps
      obtain ⟨rfl, -⟩ := pure_eq_ok.1 hlast
      rcases List.mem_append.1 hmem with hmem | hmem
      · exact hrequested hmem
      · cases List.mem_singleton.1 hmem
        obtain ⟨rfl, -⟩ := pure_eq_ok.1 hres
        exact dictionaryLayout_warranted hdictionary
    · obtain ⟨rfl, -⟩ := pure_eq_ok.1 hdeps
      exact hrequested hmem
  · rw [unit.dependencies_eq_needs hx fun method hkind => hcode ⟨method, hkind⟩] at hdeps
    obtain ⟨needed, hneeds, hlast⟩ :=
      (unit.needs_settles x.kind).bind_same (fun _ => .pure _) hdeps
    obtain ⟨rfl, -⟩ := pure_eq_ok.1 hlast
    obtain ⟨need, hneed, rfl⟩ := List.mem_map.1 hmem
    obtain ⟨rfl, -⟩ := pure_eq_ok.1 hres
    exact needs_warranted hp hc ha hx hreason hneeds need hneed

end Requests

/-! ## Compiled units -/

/-- The tables of a new unit, and what its header lists. -/
theorem attach_warranted {tables : List NodeId} {attached : Image}
    (h : unit.attach (.initial unit.config base) = .ok tables attached) (hle : attached ≤ s) :
    (∀ id ∈ tables, unit.Warranted asked s id) ∧ unit.AttachmentWarranted asked s := by
  obtain ⟨sections, hsections, hfree⟩ := exists_tableHeader unit.config base
  obtain ⟨a, nodes, hattach, -, hinitial, hof⟩ := attach_image le_rfl rfl hsections hfree
  cases h.symm.trans hattach
  have htable {id : NodeId} {x : Node}
      (hx : (Image.initial unit.config base).nodes[id.index]? = some x) :
      unit.Warranted asked s id := initial_warranted (hinitial.trans hle) hx
  -- of the attachment's own nodes the kind says that they are tables
  have hheader : unit.Warranted asked s a.headerNode := ⟨_, hle.nodes _ _ hof.headerNode, trivial⟩
  have hblob {id : NodeId} (hid : a.metadataBlob? = some id) : unit.Warranted asked s id :=
    ⟨_, hle.nodes _ _ (hof.blob? id hid), trivial⟩
  refine ⟨fun id hid => ?_, fun a' ha' => ?_⟩
  · rcases List.mem_append.1 hid with hid | hid
    · rcases List.mem_cons.1 hid with rfl | hid
      · exact hheader
      rcases List.mem_cons.1 hid with rfl | hid
      · exact ⟨_, hle.nodes _ _ hof.modulesSection, trivial⟩
      · have hlt : ∀ id ∈ tableRoots, id.index < 11 := by decide
        have hsize : (Image.initial unit.config base).nodes.size = 11 := rfl
        exact htable (Array.getElem?_eq_getElem (hsize ▸ hlt id hid))
    · exact hblob (Option.mem_toList.1 hid)
  · cases ha'.symm.trans (hle.attachment a rfl)
    refine ⟨hheader, fun entry hentry => ?_⟩
    have hfind := HeaderTable.mem_entries.1 hentry
    rw [hof.header] at hfind
    split at hfind
    · obtain ⟨id, hid, hsame⟩ := Option.map_eq_some_iff.1 hfind
      rw [← hsame]
      exact hblob hid
    · obtain ⟨x, hx, -⟩ := (tableHeader_spec hsections).2 _ _ hfind
      exact htable hx

end CompilationUnit

/-- A body of the compiled unit has the request. -/
def CompiledUnit.Requests (compiled : CompiledUnit) (bodies : CodeBodies) (s : Image)
    (request : Request) : Prop :=
  ∃ emitted ∈ compiled.nodes, s.Asks bodies emitted.id request

namespace CompilationUnit

variable {unit : CompilationUnit} {base : Program} {bodies : CodeBodies} {methods : List MethodId}
  {output : CompiledUnit} {final : Image}

/-- A new unit emits nothing without a reason, if no body requests a node by its handle. -/
theorem compile_warranted (hb : base.Reachable)
    (hbodies : ∀ request ∈ bodies.requests, request.isNode = false)
    (h : unit.compile bodies methods (.initial unit.config base) = .ok output final) :
    ∀ emitted ∈ output.nodes,
      unit.Warrants (output.Requests bodies final) final emitted.node.kind := by
  obtain ⟨closure, hmark, hids, hnodes, -⟩ := compile_spec h
  obtain ⟨tables, attached, methodRoots, hattach, hle, hmethods, hdone, hexplored, hjustified⟩ :=
    mark_justified hmark
  have hreaches := reaches_iff_marked hmethods hdone hexplored hjustified
  rw [← hids] at hreaches
  obtain ⟨cached, hcached⟩ := compile_byCaches h
  have hp := (compile_compiling hb h).program
  obtain ⟨htables, ha⟩ :
      (∀ id ∈ tables, unit.Warranted (output.Requests bodies final) final id) ∧
        unit.AttachmentWarranted (output.Requests bodies final) final :=
    attach_warranted hattach hle
  have hall (id : NodeId) (hid : Reaches unit bodies tables methods final id) :
      unit.Warranted (output.Requests bodies final) final id := by
    induction hid with
    | table hmem => exact htables _ hmem
    | method _ hres => exact call_warranted hp hres
    | @need id other requests request hid hdeps hmem hres ih =>
      refine dependencies_warranted hp hcached.consistent ha ih (fun request hasks => ?_) hdeps
        hmem hres
      obtain ⟨emitted, he, rfl⟩ := List.mem_map.1 ((hreaches id).2 hid)
      exact ⟨⟨emitted, he, hasks⟩, hbodies request hasks.mem_requests⟩
  intro emitted he
  obtain ⟨x, hx, hreason⟩ := hall emitted.id ((hreaches _).1 (List.mem_map_of_mem he))
  cases (hnodes emitted he).1.symm.trans hx
  exact hreason

end CompilationUnit

end NativeImage
