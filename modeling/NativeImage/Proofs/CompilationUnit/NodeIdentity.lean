import NativeImage.Proofs.CompilationUnit.Asking
import NativeImage.Proofs.CompilationUnit.Caching
import NativeImage.Proofs.Program.Interning

/-!
# One node for each entity

Whatever a unit is asked, each entity gets one node: a request that has been answered is answered
with the same node ever after, and different requests of one family get different nodes. The unit
never searches its nodes for this: it asks its caches, and appends a node for each key they miss.

## Main definitions

- `NodeRequest`, `NodeFamily` — questions for a node, and those that are told apart
- `FactoryCall`, `FactoryCall.after` — whatever a unit may be asked
- `Image.Identifies` — each entity has one node

## Main statements

- `FactoryCall.after_identifies`
-/

namespace NativeImage

open ImageM CompilationUnit

/-! ## Requests for nodes -/

/-- A question for a node. -/
inductive NodeRequest
  | methodEntry (entry : MethodEntry)
  | unboxingEntry (method : MethodId)
  | methodCode (entry : MethodEntry)
  | shadowMethod (entry : MethodEntry)
  | fatPointer (entry : MethodEntry)
  | dictionaryLayout (owner : Entity)
  | gcStaticDesc (type : TypeId) (thread : Bool)
  | gcStaticBase (type : TypeId)
  | threadStaticsOffset (type : TypeId)
  | threadStaticsIndexOf (type : TypeId)
  | threadStaticsBlock (type : TypeId)
  | eagerConstructor (method : MethodId)
  | externSymbol (name : String)
  | standaloneRegion (descriptor : NodeId)
  | helper (routine : Helper)
  | delegateHelper (type : TypeId) (method : MethodId)
  | resolve (request : Request)
  deriving DecidableEq, Repr

/-- Requests of one of these families get different nodes. -/
inductive NodeFamily
  | methodEntry
  | unboxingEntry
  | methodCode
  | shadowMethod
  | fatPointer
  | dictionaryLayout
  | threadStaticsBlock
  | eagerConstructor
  | externSymbol
  | helper
  deriving DecidableEq, Repr

/-- The method that is entered at a node of the kind, and how. -/
def NodeKind.entry? : NodeKind → Option MethodEntry
  | methodCode entry | externMethod entry => some entry
  | runtimeImport method => some ⟨method, false⟩
  | unboxingStub method _ => some ⟨method, true⟩
  | _ => none

namespace NodeRequest

def run (unit : CompilationUnit) : NodeRequest → ImageM NodeId
  | methodEntry entry => unit.methodEntry entry
  | unboxingEntry method => unit.unboxingEntry method
  | methodCode entry => CompilationUnit.methodCode entry
  | shadowMethod entry => unit.shadowMethod entry
  | fatPointer entry => unit.fatPointer entry
  | dictionaryLayout owner => CompilationUnit.dictionaryLayout owner
  | gcStaticDesc type thread => unit.gcStaticDesc type thread
  | gcStaticBase type => unit.gcStaticBase type
  | threadStaticsOffset type => unit.threadStaticsOffset type
  | threadStaticsIndexOf type => unit.threadStaticsIndexOf type
  | threadStaticsBlock type => CompilationUnit.threadStaticsBlock type
  | eagerConstructor method => CompilationUnit.eagerConstructor method
  | externSymbol name => CompilationUnit.externSymbol name
  | standaloneRegion descriptor => CompilationUnit.standaloneRegion descriptor
  | helper routine => CompilationUnit.helper routine
  | delegateHelper type method => unit.delegateHelper type method
  | resolve request => unit.resolve request

/-- The family of a request. Others may share their nodes: references to what another unit defines
are told apart by its symbols, and a construction by what it uses. -/
def family? : NodeRequest → Option NodeFamily
  | methodEntry _ => some .methodEntry
  | unboxingEntry _ => some .unboxingEntry
  | methodCode _ => some .methodCode
  | shadowMethod _ => some .shadowMethod
  | fatPointer _ => some .fatPointer
  | dictionaryLayout _ => some .dictionaryLayout
  | threadStaticsBlock _ => some .threadStaticsBlock
  | eagerConstructor _ => some .eagerConstructor
  | externSymbol _ => some .externSymbol
  | helper _ => some .helper
  | gcStaticDesc .. | gcStaticBase _ | threadStaticsOffset _ | threadStaticsIndexOf _
  | standaloneRegion _ | delegateHelper .. | resolve _ => none

theorem run_settles (unit : CompilationUnit) (request : NodeRequest) :
    Settles (request.run unit) := by
  cases request with
  | methodEntry entry => exact unit.methodEntry_settles entry
  | unboxingEntry method => exact unit.unboxingEntry_settles method
  | methodCode entry => exact methodCode_settles entry
  | shadowMethod entry => exact unit.shadowMethod_settles entry
  | fatPointer entry => exact unit.fatPointer_settles entry
  | dictionaryLayout owner => exact dictionaryLayout_settles owner
  | gcStaticDesc type thread => exact unit.typeNode_settles type _ _
  | gcStaticBase type => exact unit.typeNode_settles type _ _
  | threadStaticsOffset type => exact unit.typeNode_settles type _ _
  | threadStaticsIndexOf type => exact unit.threadStaticsIndexOf_settles type
  | threadStaticsBlock type => exact threadStaticsBlock_settles type
  | eagerConstructor method => exact eagerConstructor_settles method
  | externSymbol name => exact externSymbol_settles name
  | standaloneRegion descriptor => exact standaloneRegion_settles descriptor
  | helper routine => exact helper_settles routine
  | delegateHelper type method => exact unit.delegateHelper_settles type method
  | resolve request => exact unit.resolve_settles request

end NodeRequest

/-- The request of the family that a node of the kind answers. -/
def NodeFamily.request? : NodeFamily → NodeKind → Option NodeRequest
  | methodEntry, kind => kind.entry?.map .methodEntry
  | unboxingEntry, kind => kind.entry?.map fun entry => .unboxingEntry entry.method
  | methodCode, .methodCode entry => some (.methodCode entry)
  | shadowMethod, .shadowMethod entry _ => some (.shadowMethod entry)
  | fatPointer, .fatPointer entry _ _ => some (.fatPointer entry)
  | dictionaryLayout, .dictionaryLayout owner => some (.dictionaryLayout owner)
  | threadStaticsBlock, .threadStaticsBlock type => some (.threadStaticsBlock type)
  | eagerConstructor, .eagerConstructor method => some (.eagerConstructor method)
  | externSymbol, .externSymbol name => some (.externSymbol name)
  | helper, .helper routine => some (.helper routine)
  | _, _ => none

/-! ## The kind of an answer -/

namespace CompilationUnit

variable {unit : CompilationUnit} {s t : Image} {id : NodeId}

/-- What follows a question is answered by a node of a kind that is known beforehand. -/
theorem kind_of_ask {α : Type} {question : Program → Except ProgramError α} {x : α → Node}
    (kind : NodeKind) (hkind : ∀ a, (x a).kind = kind)
    (h : (ask question >>= fun a => intern (x a)) s = .ok id t) :
    ∃ y, t.nodes[id.index]? = some y ∧ y.kind = kind := by
  obtain ⟨a, -, h⟩ := ask_bind_eq_ok.1 h
  rw [← hkind a]
  exact kind_of_intern h

/-- An entry that depends on who owns the method is code of this unit or of another one. -/
theorem ownedEntry_code {entry : MethodEntry} (h : unit.ownedEntry entry s = .ok id t) :
    ∃ x, t.nodes[id.index]? = some x ∧
      (x.kind = .methodCode entry ∨ x.kind = .externMethod entry) := by
  obtain ⟨own, -, h⟩ := ask_bind_eq_ok.1 h
  split at h
  · obtain ⟨x, hx, hk⟩ := kind_of_ask (.methodCode entry) (fun _ => rfl) h
    exact ⟨x, hx, .inl hk⟩
  · obtain ⟨x, hx, hk⟩ := kind_of_ask (.externMethod entry) (fun _ => rfl) h
    exact ⟨x, hx, .inr hk⟩

theorem ownedEntry_kind {entry : MethodEntry} (h : unit.ownedEntry entry s = .ok id t) :
    ∃ x, t.nodes[id.index]? = some x ∧ x.kind.entry? = some entry := by
  obtain ⟨x, hx, hk | hk⟩ := ownedEntry_code h
  · exact ⟨x, hx, by rw [hk]; rfl⟩
  · exact ⟨x, hx, by rw [hk]; rfl⟩

theorem plainEntry_kind {method : MethodId} (h : unit.plainEntry method s = .ok id t) :
    ∃ x, t.nodes[id.index]? = some x ∧ x.kind.entry? = some ⟨method, false⟩ := by
  obtain ⟨desc, -, h⟩ := ask_bind_eq_ok.1 h
  cases himport : desc.importSymbol? with
  | some name =>
    rw [himport] at h
    obtain ⟨x, hx, hk⟩ := kind_of_intern h
    exact ⟨x, hx, by rw [hk]; rfl⟩
  | none =>
    rw [himport] at h
    exact ownedEntry_kind h

theorem unboxingEntry_kind {method : MethodId} (h : unit.unboxingEntry method s = .ok id t) :
    ∃ x, t.nodes[id.index]? = some x ∧ x.kind.entry? = some ⟨method, true⟩ := by
  obtain ⟨desc, -, h⟩ := ask_bind_eq_ok.1 h
  obtain ⟨shared, -, h⟩ := ask_bind_eq_ok.1 h
  split at h
  · exact ownedEntry_kind h
  · obtain ⟨target, u, -, h⟩ := bind_eq_ok.1 h
    obtain ⟨x, hx, hk⟩ := kind_of_ask (.unboxingStub method target) (fun _ => rfl) h
    exact ⟨x, hx, by rw [hk]; rfl⟩

theorem methodEntry_kind {entry : MethodEntry} (h : unit.methodEntry entry s = .ok id t) :
    ∃ x, t.nodes[id.index]? = some x ∧ x.kind.entry? = some entry := by
  obtain ⟨method, unboxing⟩ := entry
  cases unboxing with
  | true => exact unboxingEntry_kind h
  | false => exact plainEntry_kind h

theorem shadowMethod_kind {entry : MethodEntry} (h : unit.shadowMethod entry s = .ok id t) :
    ∃ x canonical, t.nodes[id.index]? = some x ∧ x.kind = .shadowMethod entry canonical := by
  obtain ⟨canonical, u, -, h⟩ := bind_eq_ok.1 h
  obtain ⟨target, v, -, h⟩ := bind_eq_ok.1 h
  obtain ⟨x, hx, hk⟩ := kind_of_ask (.shadowMethod entry target) (fun _ => rfl) h
  exact ⟨x, target, hx, hk⟩

theorem fatPointer_kind {entry : MethodEntry} (h : unit.fatPointer entry s = .ok id t) :
    ∃ x target dictionary, t.nodes[id.index]? = some x ∧
      x.kind = .fatPointer entry target dictionary := by
  obtain ⟨canonical, u, -, h⟩ := bind_eq_ok.1 h
  obtain ⟨target, v, -, h⟩ := bind_eq_ok.1 h
  obtain ⟨dictionary, w, -, h⟩ := bind_eq_ok.1 h
  obtain ⟨x, hx, hk⟩ :=
    kind_of_ask (.fatPointer entry target dictionary) (fun _ => rfl) h
  exact ⟨x, target, dictionary, hx, hk⟩

theorem helper_kind {routine : Helper} (h : helper routine s = .ok id t) :
    ∃ x, t.nodes[id.index]? = some x ∧ x.kind = .helper routine := by
  obtain ⟨name, u, -, h⟩ := bind_eq_ok.1 h
  exact kind_of_intern h

end CompilationUnit

/-- The kind of an answer tells what has been asked for. -/
theorem NodeRequest.request?_of_run {unit : CompilationUnit} {request : NodeRequest}
    {family : NodeFamily} (hfamily : request.family? = some family) {s t : Image} {id : NodeId}
    (h : request.run unit s = .ok id t) :
    ∃ x, t.nodes[id.index]? = some x ∧ family.request? x.kind = some request := by
  have hkind {kind : NodeKind} (hk : ∃ x, t.nodes[id.index]? = some x ∧ x.kind = kind) :
      ∃ x, t.nodes[id.index]? = some x ∧ family.request? x.kind = family.request? kind := by
    obtain ⟨x, hx, rfl⟩ := hk
    exact ⟨x, hx, rfl⟩
  cases request with
  | methodEntry entry =>
    cases hfamily
    obtain ⟨x, hx, hk⟩ := methodEntry_kind h
    exact ⟨x, hx, by rw [NodeFamily.request?, hk]; rfl⟩
  | unboxingEntry method =>
    cases hfamily
    obtain ⟨x, hx, hk⟩ := unboxingEntry_kind h
    exact ⟨x, hx, by rw [NodeFamily.request?, hk]; rfl⟩
  | methodCode entry =>
    cases hfamily
    exact hkind (kind_of_ask (.methodCode entry) (fun _ => rfl) h)
  | shadowMethod entry =>
    cases hfamily
    obtain ⟨x, canonical, hx, hk⟩ := shadowMethod_kind h
    exact hkind ⟨x, hx, hk⟩
  | fatPointer entry =>
    cases hfamily
    obtain ⟨x, target, dictionary, hx, hk⟩ := fatPointer_kind h
    exact hkind ⟨x, hx, hk⟩
  | dictionaryLayout owner =>
    cases hfamily
    exact hkind (kind_of_ask (.dictionaryLayout owner) (fun _ => rfl) h)
  | threadStaticsBlock type =>
    cases hfamily
    exact hkind (kind_of_ask (.threadStaticsBlock type) (fun _ => rfl) h)
  | eagerConstructor method =>
    cases hfamily
    exact hkind (kind_of_ask (.eagerConstructor method) (fun _ => rfl) h)
  | externSymbol name =>
    cases hfamily
    exact hkind (kind_of_intern h)
  | helper routine =>
    cases hfamily
    exact hkind (helper_kind h)
  | _ => cases hfamily

/-- What requests ask for may be asked for. -/
theorem NodeRequest.keeps {unit : CompilationUnit} {R : Image → Prop}
    (hs : unit.Sustained (fun _ _ => True) R) (request : NodeRequest) {s : Image} (hr : R s) :
    Keeps R (request.run unit) s := by
  have hkey (key : CacheKey) : Keeps R (unit.answer key) s := hs.asked _ hr trivial
  cases request with
  | methodEntry entry => exact hs.methodEntry_keeps entry hr
  | unboxingEntry method => exact hkey (.unboxingEntry method)
  | methodCode entry => exact hkey (.leaf (.methodCode entry))
  | shadowMethod entry => exact hkey (.shadowMethod entry)
  | fatPointer entry => exact hkey (.fatPointer entry)
  | dictionaryLayout owner => exact hkey (.leaf (.dictionaryLayout owner))
  | gcStaticDesc type thread => exact hs.gcStaticDesc_keeps thread hr
  | gcStaticBase type => exact hs.gcStaticBase_keeps hr
  | threadStaticsOffset type => exact hs.threadStaticsOffset_keeps hr
  | threadStaticsIndexOf type => exact hs.threadStaticsIndexOf_keeps hr
  | threadStaticsBlock type => exact hs.threadStaticsBlock_keeps hr
  | eagerConstructor method => exact hkey (.leaf (.eagerConstructor method))
  | externSymbol name => exact hs.externSymbol_keeps name hr
  | standaloneRegion descriptor => exact hkey (.leaf (.standaloneRegion descriptor))
  | helper routine => exact hkey (.leaf (.helper routine))
  | delegateHelper type method => exact hs.delegateHelper_keeps hr fun _ _ _ _ _ _ _ => trivial
  | resolve request => exact hs.resolve_keeps request hr fun _ _ _ _ _ _ _ => trivial

/-! ## Calls -/

/-- Whatever may be asked of a unit and its program. -/
inductive FactoryCall
  | node (request : NodeRequest)
  | intern (call : InternCall)
  | declareModule (desc : ModuleDesc)
  | declareType (type : TypeDeclaration)
  | declareMethod (method : MethodDeclaration)
  | delegateParts (type : TypeId) (method : MethodId)
  | dependencies (bodies : CodeBodies) (id : NodeId)
  | payload (id : NodeId)
  | attach
  | compile (bodies : CodeBodies) (methods : List MethodId)

namespace FactoryCall

def run (unit : CompilationUnit) : FactoryCall → ImageM Unit
  | node request => discard (request.run unit)
  | intern call => onProgram call.run
  | declareModule desc => discard (onProgram (ProgramM.declareModule desc))
  | declareType type => discard (onProgram (ProgramM.declareType type))
  | declareMethod method => discard (onProgram (ProgramM.declareMethod method))
  | delegateParts type method => discard (unit.delegateParts type method)
  | dependencies bodies id => discard (unit.dependencies bodies id)
  | payload id => discard (unit.payload id)
  | attach => discard unit.attach
  | compile bodies methods => discard (unit.compile bodies methods)

/-- The image after calls, whether they succeed or not. -/
def after (unit : CompilationUnit) (calls : List FactoryCall) (s : Image) : Image :=
  calls.foldl (fun s call => stateAfter (call.run unit) s) s

variable {unit : CompilationUnit} {base : Program} {s : Image}

/-- The call to the program that a call is, if it is one. -/
def program? : FactoryCall → Option ProgramCall
  | intern call => some (.intern call)
  | declareModule desc => some (.declareModule desc)
  | declareType type => some (.declareType type)
  | declareMethod method => some (.declareMethod method)
  | _ => none

/-- A call keeps what questions keep, if attaching keeps it and calls to the program do. -/
theorem run_keeps_of {R : Image → Prop} (hs : unit.Sustained (fun _ _ => True) R) (hr : R s)
    (hattach : Keeps R unit.attach s) (call : FactoryCall)
    (hprogram : ∀ other ∈ call.program?, R { s with program := stateAfter other.run s.program }) :
    Keeps R (call.run unit) s := by
  have hdiscard {α : Type} {x : ImageM α} (hx : Keeps R x s) : Keeps R (discard x) s :=
    hx.map fun _ _ _ => trivial
  have hdeclared {α : Type} {action : ProgramM α} {other : ProgramCall}
      (hother : other ∈ call.program?) (hrun : other.run = discard action) :
      Keeps R (onProgram action) s := by
    have hle := other.le_stateAfter s.program
    have hafter := hprogram other hother
    rw [hrun, stateAfter_discard] at hle hafter
    exact onProgram_keeps hle hafter
  cases call with
  | node request => exact hdiscard (request.keeps hs hr)
  | intern call => exact onProgram_keeps (call.run_settles.le_stateAfter _) (hprogram _ rfl)
  | declareModule desc => exact hdiscard (hdeclared rfl rfl)
  | declareType type => exact hdiscard (hdeclared rfl rfl)
  | declareMethod method => exact hdiscard (hdeclared rfl rfl)
  | delegateParts type method => exact hdiscard (hs.delegateParts_keeps hr)
  | dependencies bodies id => exact hdiscard (hs.dependencies_keeps bodies id hr)
  | payload id => exact hdiscard (hs.payload_keeps id hr)
  | attach => exact hdiscard hattach
  | compile bodies methods =>
    exact hdiscard (hs.compile_keeps (fun _ _ _ _ _ _ _ _ _ => trivial) methods hattach)

/-- Whatever is asked, caches could answer, and nothing is taken away. -/
theorem run_keeps (call : FactoryCall) (h : s.ByCaches unit base) :
    Keeps (Image.ByCaches unit base) (call.run unit) s :=
  run_keeps_of (Image.byCaches_sustained unit base) h h.attach call fun other _ =>
    h.grow (other.le_stateAfter s.program)

theorem after_keeps (calls : List FactoryCall) (h : s.ByCaches unit base) :
    s ≤ after unit calls s ∧ (after unit calls s).ByCaches unit base := by
  induction calls generalizing s with
  | nil => exact ⟨le_rfl, h⟩
  | cons call calls ih =>
    have hcall := call.run_keeps h
    obtain ⟨hle, hlast⟩ := ih hcall.stateAfter
    exact ⟨hcall.le_stateAfter.trans hle, hlast⟩

end FactoryCall

/-! ## Identity of nodes -/

open FactoryCall

/-- Each entity has one node, whatever else is asked. -/
structure Image.Identifies (unit : CompilationUnit) (base : Program) (s : Image) : Prop where
  /-- No search for a node of the same kind is needed. -/
  byCaches : s.ByCaches unit base
  /-- No two nodes have the same kind. -/
  kinds : ∀ {a b : NodeId} {x y : Node}, s.nodes[a.index]? = some x → s.nodes[b.index]? = some y →
    x.kind = y.kind → a = b
  /-- No two references to other units have the same symbol. -/
  symbols : ∀ {a b : NodeId} {x y : Node} {name name' : String}, s.nodes[a.index]? = some x →
    s.nodes[b.index]? = some y → x.kind = .externSymbol name → y.kind = .externSymbol name' →
    x.symbol = y.symbol → a = b
  /-- A request that has been answered is answered alike after any calls, and adds nothing. -/
  again : ∀ {request : NodeRequest} {id : NodeId} {t : Image}, request.run unit s = .ok id t →
    ∀ calls, request.run unit (after unit calls t) = .ok id (after unit calls t)
  /-- Different requests of one family get different nodes, also when other calls lie between. -/
  keys : ∀ {request request' : NodeRequest} {family : NodeFamily} {id : NodeId} {t u : Image}
    {calls : List FactoryCall}, request.family? = some family → request'.family? = some family →
    request.run unit s = .ok id t → request'.run unit (after unit calls t) = .ok id u →
    request = request'

/-- Caches that hold the key of every node identify entities. -/
theorem Image.ByCaches.identifies {unit : CompilationUnit} {base : Program} {s : Image}
    (h : s.ByCaches unit base) : s.Identifies unit base := by
  obtain ⟨cached, hcached⟩ := id h
  have hs := hcached.consistent
  have hforeign {id : NodeId} {x : Node} {name : String} (hx : s.nodes[id.index]? = some x)
      (hkind : x.kind = .externSymbol name) : x.kind = .externSymbol x.symbol := by
    have hsymbols := hs.symbols hx
    rw [hkind] at hsymbols
    have hname : name = x.symbol := congrArg Prod.fst (pure_eq_ok.1 hsymbols).1
    rw [hkind, hname]
  have hlater {request : NodeRequest} {id : NodeId} {t : Image}
      (hx : request.run unit s = .ok id t) (calls : List FactoryCall) :
      t ≤ after unit calls t :=
    (after_keeps calls ((request.keeps (byCaches_sustained unit base) h).holds hx)).1
  refine ⟨h, hs.kinds, fun {a b x y name name'} hx hy hk hk' hsame => ?_, fun hx calls => ?_,
    fun {r r' family id t u calls} hr hr' hx hu => ?_⟩
  · refine hs.kinds hx hy ?_
    rw [hforeign hx hk, hforeign hy hk', hsame]
  · exact (NodeRequest.run_settles unit _).again hx (hlater hx calls)
  -- both answers are one node, and its kind tells what was asked for
  · obtain ⟨x, hx', hrequest⟩ := NodeRequest.request?_of_run hr hx
    obtain ⟨y, hy, hrequest'⟩ := NodeRequest.request?_of_run hr' hu
    have hkept := ((hlater hx calls).trans ((r'.run_settles unit).grows hu)).nodes _ _ hx'
    cases hkept.symm.trans hy
    exact Option.some_inj.1 (hrequest.symm.trans hrequest')

/-- After any calls on a new unit, each entity has one node. -/
theorem FactoryCall.after_identifies (unit : CompilationUnit) (base : Program)
    (calls : List FactoryCall) :
    (after unit calls (.initial unit.config base)).Identifies unit base :=
  (after_keeps calls ⟨_, .initial⟩).2.identifies

end NativeImage
