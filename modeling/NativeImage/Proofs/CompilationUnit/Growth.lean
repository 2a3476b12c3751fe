import NativeImage.CompilationUnit.Payload
import NativeImage.CompilationUnit.Request
import NativeImage.Proofs.Program.Growth

/-!
# Images only grow

A node keeps its handle and an attachment stays what it is, so everything that names a node settles:
asking for the same entity again gives the same node and adds nothing.

## Main definitions

- `Image.Extends` — the order on images

## Main statements

- `ImageM.intern_settles` — the node of a kind
- `CompilationUnit.resolve_settles`, `CompilationUnit.dependencies_settles` — what a closure asks
-/

namespace NativeImage

/-- The program grows, every node keeps its handle and an attachment is kept. -/
structure Image.Extends (new old : Image) : Prop where
  program : old.program ≤ new.program
  nodes : KeepsEntries old.nodes new.nodes
  attachment : ∀ a, old.attachment? = some a → new.attachment? = some a

instance : Preorder Image where
  le old new := Image.Extends new old
  le_refl image := ⟨le_rfl, .refl _, fun _ h => h⟩
  le_trans _ _ _ h h' := ⟨h.program.trans h'.program, h.nodes.trans h'.nodes,
    fun a ha => h'.attachment a (h.attachment a ha)⟩

namespace ImageM

variable {α : Type}

theorem onProgram_settles {action : ProgramM α} (h : Settles action) :
    Settles (onProgram action) where
  grows := by
    intro s a t hs
    rw [onProgram] at hs
    split at hs <;> cases hs
    rename_i hr
    exact ⟨h.grows hr, .refl _, fun _ h => h⟩
  grows_error := by
    intro s e t hs
    rw [onProgram] at hs
    split at hs <;> cases hs
    rename_i hr
    exact ⟨h.grows_error hr, .refl _, fun _ h => h⟩
  again := by
    intro s a t hs u hu
    rw [onProgram] at hs
    split at hs
    · rename_i result program hr
      cases hs
      have hagain := h.again hr hu.program
      rw [onProgram, hagain]
    · cases hs

theorem ask_readOnly (question : Program → Except ProgramError α) : ReadOnly (ask question) where
  same h := by
    rw [ask] at h
    split at h <;> cases h
    rfl
  same_error h := by
    rw [ask] at h
    split at h <;> cases h
    rfl

theorem ask_settles {question : Program → Except ProgramError α} (h : Program.Stable question) :
    Settles (ask question) := by
  refine (ask_readOnly question).settles fun {s a} hs u hu => ?_
  rw [ask] at hs
  split at hs
  · rename_i answer ha
    cases hs
    rw [ask, h _ _ ha _ hu.program]
  · cases hs

theorem node_eq_ok {id : NodeId} {s t : Image} {node : Node} :
    ImageM.node id s = .ok node t ↔ s.nodes[id.index]? = some node ∧ t = s := by
  rw [ImageM.node]
  cases s.nodes[id.index]? with
  | none => simp
  | some found => simp [eq_comm]

theorem node_readOnly (id : NodeId) : ReadOnly (node id) where
  same h := (node_eq_ok.1 h).2
  same_error h := by
    rw [node] at h
    split at h <;> cases h
    rfl

theorem node_settles (id : NodeId) : Settles (node id) :=
  (node_readOnly id).settles fun h _ hu => node_eq_ok.2 ⟨hu.nodes _ _ (node_eq_ok.1 h).1, rfl⟩

theorem symbol_eq_ok {id : NodeId} {s : Image} {node : Node}
    (h : s.nodes[id.index]? = some node) : symbol id s = .ok node.symbol s := by
  rw [symbol, bind_of_ok (node_eq_ok.2 ⟨h, rfl⟩)]
  rfl

theorem symbol_readOnly (id : NodeId) : ReadOnly (symbol id) :=
  (node_readOnly id).bind fun _ => .pure _

theorem symbol_settles (id : NodeId) : Settles (symbol id) :=
  (node_settles id).bind fun _ => .pure _

theorem attachment_eq_ok {s t : Image} {a : Attachment} :
    attachment s = .ok a t ↔ s.attachment? = some a ∧ t = s := by
  rw [attachment]
  cases s.attachment? with
  | none => simp
  | some found => simp [eq_comm]

theorem attachment_readOnly : ReadOnly attachment where
  same h := (attachment_eq_ok.1 h).2
  same_error h := by
    rw [attachment] at h
    split at h <;> cases h
    rfl

theorem attachment_settles : Settles attachment :=
  attachment_readOnly.settles fun h _ hu =>
    attachment_eq_ok.2 ⟨hu.attachment _ (attachment_eq_ok.1 h).1, rfl⟩

/-- What is there is kept when a node is appended. -/
theorem le_pushNode (image : Image) (node : Node) :
    image ≤ { image with nodes := image.nodes.push node } :=
  ⟨le_rfl, .push _ _, fun _ h => h⟩

/-- The node of a kind, if there is one. -/
def findNode? (kind : NodeKind) (image : Image) : Option NodeId :=
  (image.nodes.findIdx? fun other => other.kind == kind).map NodeId.mk

theorem findNode?_of_le {s t : Image} (h : s ≤ t) {kind : NodeKind} {id : NodeId}
    (hid : findNode? kind s = some id) : findNode? kind t = some id := by
  obtain ⟨i, hi, rfl⟩ := Option.map_eq_some_iff.1 hid
  rw [findNode?, h.nodes.findIdx? hi]
  rfl

/-- A node is found by its kind, or appended if there is none of its kind. -/
theorem intern_apply (node : Node) (s : Image) :
    intern node s = match findNode? node.kind s with
      | some id => .ok id s
      | none => .ok ⟨s.nodes.size⟩ { s with nodes := s.nodes.push node } := by
  rw [intern, findNode?]
  cases s.nodes.findIdx? fun other => other.kind == node.kind <;> rfl

theorem intern_settles (node : Node) : Settles (intern node) := by
  refine .of_find (findNode? node.kind) (fun hq h => findNode?_of_le hq h) (fun {s id} h => ?_)
    fun {s} h => ?_
  · rw [intern_apply, h]
  · rw [intern_apply, h]
    refine .inl ⟨_, _, rfl, le_pushNode s node, ?_⟩
    rw [findNode?, findIdx?_push_self (Option.map_eq_none_iff.1 h) (by simp)]
    rfl

end ImageM

namespace Ownership

open Program

theorem ownsType_stable (ownership : Ownership) (id : TypeId) :
    Stable (ownership.ownsType · id) := by
  cases ownership with
  | everything => exact .pure _
  | modules ids =>
    refine (typeDefinition_stable id).bind fun definition => ?_
    exact (moduleOfType_stable definition).bind fun _ => .pure _

theorem ownsMethod_stable (ownership : Ownership) (id : MethodId) :
    Stable (ownership.ownsMethod · id) :=
  (methodDesc_stable id).bind fun desc => ownership.ownsType_stable desc.owner

end Ownership

namespace CompilationUnit

open ImageM Program

variable (unit : CompilationUnit)

theorem ownsType_settles (id : TypeId) : Settles (unit.ownsType id) :=
  ask_settles (unit.ownership.ownsType_stable id)

theorem ownsMethod_settles (id : MethodId) : Settles (unit.ownsMethod id) :=
  ask_settles (unit.ownership.ownsMethod_stable id)

theorem externSymbol_settles (name : String) : Settles (externSymbol name) :=
  intern_settles _

/-! ## Entries of methods -/

theorem methodCode_settles (entry : MethodEntry) : Settles (methodCode entry) :=
  (ask_settles (methodSymbol_stable _ _)).bind fun _ => intern_settles _

theorem externMethod_settles (entry : MethodEntry) : Settles (externMethod entry) :=
  (ask_settles (methodSymbol_stable _ _)).bind fun _ => intern_settles _

theorem ownedEntry_settles (entry : MethodEntry) : Settles (unit.ownedEntry entry) :=
  (unit.ownsMethod_settles _).bind fun _ =>
    .ite (methodCode_settles entry) (externMethod_settles entry)

theorem plainEntry_settles (method : MethodId) : Settles (unit.plainEntry method) := by
  refine (ask_settles (methodDesc_stable method)).bind fun desc => ?_
  cases desc.importSymbol? with
  | some symbol => exact intern_settles _
  | none => exact unit.ownedEntry_settles _

theorem unboxingEntry_settles (method : MethodId) : Settles (unit.unboxingEntry method) := by
  refine (ask_settles (methodDesc_stable method)).bind fun desc => ?_
  refine (ask_settles (isSharedMethod_stable method)).bind fun shared => ?_
  refine Settles.ite (unit.ownedEntry_settles _) ?_
  refine (unit.plainEntry_settles method).bind fun target => ?_
  exact (ask_settles (methodSymbol_stable _ _)).bind fun _ => intern_settles _

theorem methodEntry_settles (entry : MethodEntry) : Settles (unit.methodEntry entry) :=
  .ite (unit.unboxingEntry_settles _) (unit.plainEntry_settles _)

theorem dictionaryLayout_settles (owner : Entity) : Settles (dictionaryLayout owner) :=
  (ask_settles (entitySymbol_stable _ _)).bind fun _ => intern_settles _

theorem shadowMethod_settles (entry : MethodEntry) : Settles (unit.shadowMethod entry) := by
  refine (onProgram_settles (ProgramM.canonicalMethod_settles _)).bind fun canonical => ?_
  refine (unit.methodEntry_settles _).bind fun target => ?_
  exact (ask_settles (methodSymbol_stable _ _)).bind fun _ => intern_settles _

theorem fatPointer_settles (entry : MethodEntry) : Settles (unit.fatPointer entry) := by
  refine (onProgram_settles (ProgramM.canonicalMethod_settles _)).bind fun canonical => ?_
  refine (unit.methodEntry_settles _).bind fun target => ?_
  refine (dictionaryLayout_settles _).bind fun dictionary => ?_
  exact (ask_settles (methodSymbol_stable _ _)).bind fun _ => intern_settles _

theorem eagerConstructor_settles (method : MethodId) :
    Settles (CompilationUnit.eagerConstructor method) :=
  (ask_settles (methodSymbol_stable _ _)).bind fun _ => intern_settles _

/-! ## Static data -/

theorem typeNode_settles (type : TypeId) (family : SymbolFamily) (kind : NodeKind) :
    Settles (unit.typeNode type family kind) := by
  refine (ask_settles (typeSymbol_stable family type)).bind fun symbol => ?_
  refine (unit.ownsType_settles type).bind fun owned => ?_
  exact Settles.ite (intern_settles _) (externSymbol_settles _)

theorem threadStaticsIndexOf_settles (type : TypeId) :
    Settles (unit.threadStaticsIndexOf type) :=
  (unit.ownsType_settles type).bind fun _ => .ite (.pure _) (externSymbol_settles _)

theorem threadStaticsBlock_settles (type : TypeId) :
    Settles (CompilationUnit.threadStaticsBlock type) :=
  (ask_settles (typeSymbol_stable _ type)).bind fun _ => intern_settles _

theorem standaloneRegion_settles (descriptor : NodeId) :
    Settles (CompilationUnit.standaloneRegion descriptor) :=
  (symbol_settles descriptor).bind fun _ => intern_settles _

/-! ## Delegates and generated routines -/

theorem thunkOn_settles (type : TypeId) (definition : MethodId) :
    Settles (thunkOn type definition) :=
  (ask_settles (typeDesc_stable type)).bind fun _ =>
    .ite (.pure _) (onProgram_settles (ProgramM.methodOnType_settles _ _))

theorem staticParts_settles (type : TypeId) (method : MethodId) (desc : MethodDesc)
    (info : DelegateInfo) (binding : Binding) :
    Settles (unit.staticParts type method desc info binding) := by
  simp only [staticParts]
  cases info.thunk? (staticRoutines binding desc.isNativeCallable).2 with
  | none =>
    refine (ask_settles (typeName_stable type)).bind fun delegate => ?_
    exact (ask_settles (methodName_stable method)).bind fun _ => .throw _
  | some definition =>
    refine (thunkOn_settles type definition).bind fun thunk => ?_
    refine (unit.plainEntry_settles _).bind fun initializer => ?_
    refine (unit.plainEntry_settles _).bind fun target => ?_
    exact (unit.plainEntry_settles _).bind fun _ => .pure _

theorem boundTarget_settles (entry : MethodEntry) (desc : MethodDesc) (canonical : MethodId) :
    Settles (unit.boundTarget entry desc canonical) := by
  refine Settles.ite ?_ (Settles.ite ?_ ?_)
  · exact (unit.methodEntry_settles entry).bind fun _ => .pure _
  · exact (unit.shadowMethod_settles entry).bind fun _ => .pure _
  · exact (unit.fatPointer_settles entry).bind fun _ => .pure _

theorem instanceParts_settles (type : TypeId) (method : MethodId) (desc : MethodDesc) :
    Settles (unit.instanceParts type method desc) := by
  refine (ask_settles (typeDesc_stable desc.owner)).bind fun owner => ?_
  refine (onProgram_settles (ProgramM.canonicalMethod_settles method)).bind fun canonical => ?_
  refine Settles.ite ?_ ?_
  · refine (ask_settles (typeName_stable type)).bind fun delegate => ?_
    exact (ask_settles (methodName_stable method)).bind fun _ => .throw _
  · refine (unit.boundTarget_settles _ desc canonical).bind fun bound => ?_
    exact (unit.plainEntry_settles _).bind fun _ => .pure _

theorem delegateParts_settles (type : TypeId) (method : MethodId) :
    Settles (unit.delegateParts type method) := by
  refine (ask_settles (methodDesc_stable method)).bind fun desc => ?_
  refine (onProgram_settles (ProgramM.delegateInfo_settles type)).bind fun info => ?_
  cases Binding.ofArities? info.invokeArity desc.callArity with
  | none =>
    refine (ask_settles (typeName_stable type)).bind fun delegate => ?_
    exact (ask_settles (methodName_stable method)).bind fun _ => .throw _
  | some binding =>
    refine Settles.ite (unit.staticParts_settles _ _ _ _ _) ?_
    cases binding with
    | opened =>
      refine (ask_settles (typeName_stable type)).bind fun delegate => ?_
      exact (ask_settles (methodName_stable method)).bind fun _ => .throw _
    | closed => exact unit.instanceParts_settles type method desc

theorem helperSymbol_readOnly (helper : Helper) : ReadOnly (helperSymbol helper) := by
  cases helper with
  | delegate parts =>
    have hrest (thunk? : Option String) : ReadOnly (do
        return delegateHelperSymbol (← symbol parts.initializer) (← symbol parts.target)
          thunk?) := by
      refine (symbol_readOnly _).bind fun initializer => ?_
      exact (symbol_readOnly _).bind fun _ => .pure _
    simp only [helperSymbol]
    cases parts.thunk? with
    | none => exact (ReadOnly.pure none).bind hrest
    | some thunk => exact ((symbol_readOnly thunk).map some).bind hrest
  | gcStaticBase type => exact ask_readOnly (·.typeSymbol _ type)
  | threadStaticBase type => exact ask_readOnly (·.typeSymbol _ type)

theorem helperSymbol_settles (helper : Helper) : Settles (helperSymbol helper) := by
  cases helper with
  | delegate parts =>
    have hrest (thunk? : Option String) : Settles (do
        return delegateHelperSymbol (← symbol parts.initializer) (← symbol parts.target)
          thunk?) := by
      refine (symbol_settles _).bind fun initializer => ?_
      exact (symbol_settles _).bind fun _ => .pure _
    simp only [helperSymbol]
    cases parts.thunk? with
    | none => exact (Settles.pure none).bind hrest
    | some thunk => exact ((symbol_settles thunk).map some).bind hrest
  | gcStaticBase type => exact ask_settles (typeSymbol_stable _ type)
  | threadStaticBase type => exact ask_settles (typeSymbol_stable _ type)

theorem helper_settles (helper : Helper) : Settles (CompilationUnit.helper helper) :=
  (helperSymbol_settles helper).bind fun _ => intern_settles _

theorem delegateHelper_settles (type : TypeId) (method : MethodId) :
    Settles (unit.delegateHelper type method) :=
  (unit.delegateParts_settles type method).bind fun _ => helper_settles _

/-! ## What nodes need -/

theorem resolve_settles (request : Request) : Settles (unit.resolve request) := by
  cases request with
  | call method =>
    refine (onProgram_settles (ProgramM.canonicalMethod_settles method)).bind fun canonical => ?_
    exact Settles.ite (unit.plainEntry_settles method) (unit.shadowMethod_settles _)
  | delegate type method => exact unit.delegateHelper_settles type method
  | gcStaticBase type => exact helper_settles _
  | threadStaticBase type => exact helper_settles _
  | eagerConstructor method => exact eagerConstructor_settles method
  | node id => exact .pure id

theorem helperNeeds_settles (helper : Helper) : Settles (unit.helperNeeds helper) := by
  cases helper with
  | delegate parts => exact .pure _
  | gcStaticBase type => exact (unit.typeNode_settles type _ _).bind fun _ => .pure _
  | threadStaticBase type =>
    refine (unit.typeNode_settles type _ _).bind fun offset => ?_
    refine (unit.threadStaticsIndexOf_settles type).bind fun index => ?_
    refine (ask_settles (typeDesc_stable type)).bind fun desc => ?_
    exact Settles.ite (.pure _) ((unit.typeNode_settles type _ _).bind fun _ => .pure _)

theorem needs_settles (kind : NodeKind) : Settles (unit.needs kind) := by
  cases kind with
  | methodCode entry => exact (unit.plainEntry_settles _).bind fun _ => .pure _
  | unboxingStub method target => exact .pure _
  | shadowMethod entry canonical => exact (dictionaryLayout_settles _).bind fun _ => .pure _
  | fatPointer entry target dictionary => exact .pure _
  | threadStaticsOffset type => exact (threadStaticsBlock_settles type).bind fun _ => .pure _
  | gcStaticBase type => exact (unit.typeNode_settles type _ _).bind fun _ => .pure _
  | eagerConstructor method => exact (unit.plainEntry_settles _).bind fun _ => .pure _
  | standaloneRegion descriptor => exact .pure _
  | tlsDirectory => exact .pure _
  | header => exact attachment_settles.bind fun _ => .pure _
  | modulesSection => exact attachment_settles.bind fun _ => .pure _
  | helper helper => exact unit.helperNeeds_settles helper
  | externMethod _ => exact .pure _
  | runtimeImport _ => exact .pure _
  | externSymbol _ => exact .pure _
  | gcStaticDesc _ _ => exact .pure _
  | threadStaticsBlock _ => exact .pure _
  | dictionaryLayout _ => exact .pure _
  | region _ => exact .pure _
  | threadStaticsIndex => exact .pure _
  | typeManagerIndirection => exact .pure _
  | metadataBlob => exact .pure _

theorem requestsOf_stable (bodies : CodeBodies) (method : MethodId) :
    Stable (bodies.requestsOf · method) := by
  simp only [CodeBodies.requestsOf]
  cases bodies.entries.lookup method with
  | some requests => exact .pure _
  | none => exact (methodDefinition_stable method).bind fun _ => .pure _

theorem bodyRequests_settles (bodies : CodeBodies) (method : MethodId) :
    Settles (bodyRequests bodies method) := by
  refine (ask_settles (requestsOf_stable bodies method)).bind fun requests => ?_
  refine (ask_settles (isSharedMethod_stable method)).bind fun shared => ?_
  exact Settles.ite ((dictionaryLayout_settles _).bind fun _ => .pure _) (.pure _)

theorem dependencies_settles (bodies : CodeBodies) (id : NodeId) :
    Settles (unit.dependencies bodies id) := by
  refine (node_settles id).bind fun node => ?_
  have hneeds : Settles (do return (← unit.needs node.kind).map Request.node) :=
    (unit.needs_settles node.kind).bind fun _ => .pure _
  split
  · exact bodyRequests_settles bodies _
  · exact hneeds

/-- A method body has the requests that the code generator gives for it. -/
theorem dependencies_eq_body {bodies : CodeBodies} {id : NodeId} {node : Node} {s : Image}
    (hn : s.nodes[id.index]? = some node) {method : MethodId}
    (hk : node.kind = .methodCode ⟨method, false⟩) :
    unit.dependencies bodies id s = bodyRequests bodies method s := by
  rw [dependencies, bind_of_ok (node_eq_ok.2 ⟨hn, rfl⟩), hk]

/-- A node other than a method body has requests for the nodes that its kind needs. -/
theorem dependencies_eq_needs {bodies : CodeBodies} {id : NodeId} {node : Node} {s : Image}
    (hn : s.nodes[id.index]? = some node) (hk : ∀ method, node.kind ≠ .methodCode ⟨method, false⟩) :
    unit.dependencies bodies id s =
      (do return (← unit.needs node.kind).map Request.node : ImageM (List Request)) s := by
  rw [dependencies, bind_of_ok (node_eq_ok.2 ⟨hn, rfl⟩)]
  refine congrFun ?_ s
  split
  · rename_i method hm
    exact absurd hm (hk method)
  · rfl

/-! ## Data -/

theorem payload_eq_header {id : NodeId} {node : Node} {s : Image}
    (hn : s.nodes[id.index]? = some node) (hk : node.kind = .header) :
    unit.payload id s =
      (do return some ((← attachment).header.serialize unit.pointerSize) :
        ImageM (Option ObjectData)) s := by
  rw [payload, bind_of_ok (node_eq_ok.2 ⟨hn, rfl⟩), hk]

theorem payload_eq_assemble {id : NodeId} {node : Node} {s : Image}
    (hn : s.nodes[id.index]? = some node) (hk : node.kind ≠ .header) :
    unit.payload id s = (do
      return (← unit.payloadEmissions node.kind).map
        (ObjectData.assemble unit.pointerSize (unit.payloadAlignment node.kind)) :
      ImageM (Option ObjectData)) s := by
  rw [payload, bind_of_ok (node_eq_ok.2 ⟨hn, rfl⟩)]
  refine congrFun ?_ s
  split
  · rename_i hheader
    exact absurd hheader hk
  · rfl

end CompilationUnit

end NativeImage
