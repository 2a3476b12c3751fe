import NativeImage.Proofs.Closure.Ending
import NativeImage.Proofs.CompilationUnit.Caches
import NativeImage.Proofs.CompilationUnit.Rounds

/-!
# What operations ask for

Whatever a unit does, it makes nodes only by asking for the node of a key, or by attaching itself.
So a property of images that is kept when instances are added to the program, when the node of a key
is asked for and when the unit is attached, is kept by every operation, however it ends.

Not every key is asked for by every operation. Which ones may be asked for is left open, except for
those that are asked for without a further condition.

## Main definitions

- `Keeps` — operations that keep a property of the state
- `CompilationUnit.Sustained` — properties that growth and questions keep

## Main statements

- `CompilationUnit.Sustained.compile_keeps` — compiling a unit, as one of many operations
-/

namespace NativeImage

/-! ## Operations that keep a property -/

/-- The property still holds afterwards, whether the operation succeeds or fails. -/
abbrev Keeps {State Failure α : Type} [Preorder State] (R : State → Prop)
    (x : EStateM Failure State α) (s : State) : Prop :=
  Ends R (fun _ _ => True) (fun _ _ => True) x s

namespace Keeps

variable {State Failure α β : Type} [Preorder State] {R : State → Prop}
  {x : EStateM Failure State α} {s : State}

/-- What comes second has to keep the property only where the first has succeeded. -/
theorem bind {f : α → EStateM Failure State β} (h : Keeps R x s)
    (hf : ∀ {a t}, x s = .ok a t → s ≤ t → R t → Keeps R (f a) t) : Keeps R (x >>= f) s :=
  (h.and (P := fun t a => x s = .ok a t) fun hx => hx).bind fun hle hr hv => hf hv.2 hle hr

theorem of_readOnly (hx : ReadOnly x) (hr : R s) : Keeps R x s := by
  cases h : x s with
  | ok a t =>
    obtain rfl := hx.same h
    exact .ok h le_rfl hr trivial
  | error e t =>
    obtain rfl := hx.same_error h
    exact .error h le_rfl hr trivial

theorem pure (a : α) (hr : R s) : Keeps R (Pure.pure a : EStateM Failure State α) s :=
  Ends.pure hr trivial

theorem mapM {f : α → EStateM Failure State β} {as : List α} (hr : R s)
    (hf : ∀ {a t}, a ∈ as → s ≤ t → R t → Keeps R (f a) t) : Keeps R (as.mapM f) s := by
  refine (Ends.mapM (P := fun _ a => a ∈ as) (U := fun _ _ _ => True) (fun h _ => h)
    (fun _ _ _ _ _ _ => trivial) (fun hle hr ha => hf ha hle hr) hr fun a ha => ha).imp ?_
  exact fun _ _ _ => trivial

theorem holds (h : Keeps R x s) {a : α} {t : State} (hx : x s = .ok a t) : R t := by
  cases h with
  | ok hx' _ hr _ =>
    cases hx.symm.trans hx'
    exact hr
  | error hx' _ _ _ => cases hx.symm.trans hx'

theorem le_stateAfter (h : Keeps R x s) : s ≤ stateAfter x s := by
  cases h with
  | ok hx hle _ _ => rwa [stateAfter, hx]
  | error hx hle _ _ => rwa [stateAfter, hx]

theorem stateAfter (h : Keeps R x s) : R (stateAfter x s) := by
  cases h with
  | ok hx _ hr _ => rwa [NativeImage.stateAfter, hx]
  | error hx _ hr _ => rwa [NativeImage.stateAfter, hx]

end Keeps

/-! ## Closures -/

namespace Closure

variable {State Failure Node Request : Type} [Preorder State] [DecidableEq Node] {R : State → Prop}
  {context : DependencyContext State Failure Node Request} {s : State}

/-- Rounds of a closure keep what its expansions keep. -/
theorem run_keeps (hexpand : ∀ {node t}, R t → Keeps R (expand context node) t) (hr : R s)
    (bound : Nat) (c : Closure Node) : Keeps R (run context bound c) s := by
  -- a round is an `advance`, which only expands the nodes of its frontier
  induction bound generalizing c s with
  | zero => exact .pure c hr
  | succ bound ih =>
    rw [run]
    split
    · exact .pure c hr
    · refine ((advance_ends (P := fun _ _ => True) (W := fun _ _ _ => True) (fun _ _ => trivial)
        (fun _ _ _ _ _ _ => trivial) (fun _ _ => trivial) (fun _ hr _ => ?_) hr
        fun _ _ => trivial).imp fun _ _ _ => trivial).bind fun _ hr _ => ih hr _
      exact (hexpand hr).imp fun _ _ _ _ _ => trivial

end Closure

/-! ## Questions of a unit -/

/-- Keys that are asked for without a further condition: neither code that nobody enters, nor the
dictionary of a type, nor a region around one descriptor, nor the construction of a delegate. -/
def CacheKey.isOrdinary : CacheKey → Bool
  | leaf (.methodCode _) | leaf (.dictionaryLayout (.type _)) | leaf (.standaloneRegion _)
  | leaf (.helper (.delegate _)) => false
  | _ => true

theorem CacheKey.isOrdinary_entry (entry : MethodEntry) :
    (CacheKey.entry entry).isOrdinary = true := by
  rw [CacheKey.entry]
  split <;> rfl

/-- The calls by which units add instances to their program. -/
def InternCall.isByUnits : InternCall → Bool
  | methodOnType .. | canonicalMethod _ | delegateInfo _ => true
  | instantiateType .. | instantiateMethod .. | canonicalType _ => false

/-- What is done to the program keeps what growth of the program keeps. -/
theorem ImageM.onProgram_keeps {α : Type} {action : ProgramM α} {R : Image → Prop} {s : Image}
    (hle : s.program ≤ stateAfter action s.program)
    (hr : R { s with program := stateAfter action s.program }) :
    Keeps R (onProgram action) s := by
  rw [stateAfter] at hle hr
  cases hx : action s.program with
  | ok a p =>
    rw [hx] at hle hr
    refine .ok (a := a) (t := { s with program := p }) ?_ ⟨hle, .refl _, fun _ h => h⟩ hr trivial
    rw [onProgram, hx]
  | error e p =>
    rw [hx] at hle hr
    refine .error (e := .program e) (t := { s with program := p }) ?_
      ⟨hle, .refl _, fun _ h => h⟩ hr trivial
    rw [onProgram, hx]

namespace CompilationUnit

open ImageM Program

/-- Attaching a unit keeps what is kept when an attachment is set, and when the nodes of one are
appended. -/
theorem attach_keeps {unit : CompilationUnit} {base : Program} {P : Image → Prop} {s : Image}
    (hinitial : Image.initial unit.config base ≤ s) (h : P s)
    (hold : s.attachment? = none → ∀ {id : NodeId} {x}, s.nodes[id.index]? = some x →
      x.kind.isAttached = false)
    (hset : s.attachment? = none → ∀ a, P { s with attachment? := some a })
    (hpush : ∀ {u x}, unit.IsAttachmentNode x → P u → u.attachment? ≠ none →
      (∀ {id : NodeId} {y}, u.nodes[id.index]? = some y → y.kind ≠ x.kind) →
      P { u with nodes := u.nodes.push x }) : Keeps P unit.attach s := by
  cases hn : s.attachment? with
  | none =>
    obtain ⟨tables, htables, hfree⟩ := exists_tableHeader unit.config base
    obtain ⟨a, nodes, hattach, hnodes, hle, -⟩ := attach_image hinitial hn htables hfree
    -- with or without the node of the metadata
    have hall := attach_induction unit a (hold hn) (hset hn a) hpush
    refine .ok hattach hle ?_ trivial
    rcases hnodes with rfl | rfl
    · exact hall.1
    · exact hall.2
  | some a =>
    have hattach : unit.attach s = .error (.internal .alreadyAttached) s := by
      rw [CompilationUnit.attach, get_bind_apply, hn]
      rfl
    exact .error hattach le_rfl h trivial

/-- The property is kept when instances are added to the program and when the node of a key is asked
for that may be asked for. -/
structure Sustained (unit : CompilationUnit) (May : Image → CacheKey → Prop) (R : Image → Prop) :
    Prop where
  ordinary : ∀ {s key}, key.isOrdinary = true → May s key
  interned : ∀ {s} (call : InternCall), R s → call.isByUnits = true →
    R { s with program := stateAfter call.run s.program }
  asked : ∀ {s} key, R s → May s key → Keeps R (unit.answer key) s

/-- If the request is for a delegate, then its construction may be asked for. -/
def Grants (unit : CompilationUnit) (May : Image → CacheKey → Prop) (request : Request) : Prop :=
  ∀ type method, request = .delegate type method → ∀ s parts t,
    unit.delegateParts type method s = .ok parts t → May t (.leaf (.helper (.delegate parts)))

/-- Other requests grant nothing. -/
theorem grants_of_ne {unit : CompilationUnit} {May : Image → CacheKey → Prop} {request : Request}
    (hne : ∀ type method, request ≠ .delegate type method) : unit.Grants May request :=
  fun type method heq => absurd heq (hne type method)

theorem word32_readOnly (value : Nat) : ReadOnly (word32 value) := by
  rw [word32]
  split
  · exact .pure _
  · exact .throw _

theorem seriesEmissions_readOnly (pointerSize : Nat) (slots : List Nat) :
    ReadOnly (seriesEmissions pointerSize slots) := by
  refine (ReadOnly.mapM (fun series => ?_) _).bind fun _ => .pure _
  exact (word32_readOnly _).bind fun _ => (word32_readOnly _).bind fun _ => .pure _

namespace Sustained

variable {unit : CompilationUnit} {May : Image → CacheKey → Prop} {R : Image → Prop} {s : Image}
  {type : TypeId} {method : MethodId} (h : unit.Sustained May R)
include h

theorem asks (key : CacheKey) (hr : R s) (hkey : key.isOrdinary = true) :
    Keeps R (unit.answer key) s := h.asked key hr (h.ordinary hkey)

omit h in
/-- What is read from the program first leaves the image as it is. -/
theorem read {α β : Type} {question : Program → Except ProgramError α} {f : α → ImageM β}
    (hr : R s) (hf : ∀ a, question s.program = .ok a → Keeps R (f a) s) :
    Keeps R (ask question >>= f) s := by
  refine Keeps.bind (.of_readOnly (ask_readOnly question) hr) fun {a t} ha _ _ => ?_
  obtain rfl := (ask_readOnly question).same ha
  obtain ⟨answer, hanswer, hlast⟩ := ask_bind_eq_ok (f := Pure.pure).1 (by rwa [bind_pure])
  obtain ⟨rfl, -⟩ := pure_eq_ok.1 hlast
  exact hf _ hanswer

/-- Instances that are asked for are all that the program grows by. -/
theorem interns_keeps {α : Type} {action : ProgramM α} (call : InternCall)
    (hcall : call.run = discard action) (hunit : call.isByUnits = true) (hr : R s) :
    Keeps R (onProgram action) s := by
  have hafter : stateAfter call.run s.program = stateAfter action s.program := by
    rw [hcall, stateAfter_discard]
  refine onProgram_keeps ?_ ?_
  · rw [← hafter]
    exact call.run_settles.le_stateAfter s.program
  · rw [← hafter]
    exact h.interned call hr hunit

theorem plainEntry_keeps (hr : R s) : Keeps R (unit.plainEntry method) s :=
  h.asks (.plainEntry method) hr rfl

theorem methodEntry_keeps (entry : MethodEntry) (hr : R s) :
    Keeps R (unit.methodEntry entry) s := by
  rw [← answer_entry]
  exact h.asks _ hr (CacheKey.isOrdinary_entry entry)

theorem dictionaryLayout_keeps (hr : R s) :
    Keeps R (CompilationUnit.dictionaryLayout (.method method)) s :=
  h.asks (.leaf (.dictionaryLayout (.method method))) hr rfl

theorem externSymbol_keeps (name : String) (hr : R s) : Keeps R (externSymbol name) s :=
  h.asks (.leaf (.externSymbol name)) hr rfl

/-! ### Statics -/

/-- The node of a type is that of its key, or the symbol that its unit defines. -/
theorem typeNode_keeps {family : SymbolFamily} {kind : NodeKind} (key : LeafKey)
    (hkey : (CacheKey.leaf key).isOrdinary = true)
    (hconstruct : constructLeaf key = ownTypeNode type family kind) (hr : R s) :
    Keeps R (unit.typeNode type family kind) s := by
  refine read hr fun name hname => ?_
  have hown : intern ⟨kind, name, none⟩ s = unit.answer (.leaf key) s := by
    have hread : ask (·.typeSymbol family type) s = .ok name s := by rw [ask, hname]
    exact (bind_of_ok hread).symm.trans (congrFun hconstruct.symm s)
  refine Keeps.bind (.of_readOnly (ask_readOnly _) hr) fun {own t} hx _ hr => ?_
  obtain rfl := (ask_readOnly _).same hx
  split
  · exact .congr hown (h.asks _ hr hkey)
  · exact h.externSymbol_keeps name hr

theorem gcStaticDesc_keeps (thread : Bool) (hr : R s) : Keeps R (unit.gcStaticDesc type thread) s :=
  h.typeNode_keeps (.gcStaticDesc type thread) rfl rfl hr

theorem gcStaticBase_keeps (hr : R s) : Keeps R (unit.gcStaticBase type) s :=
  h.typeNode_keeps (.gcStaticBase type) rfl rfl hr

theorem threadStaticsOffset_keeps (hr : R s) : Keeps R (unit.threadStaticsOffset type) s :=
  h.typeNode_keeps (.threadStaticsOffset type) rfl rfl hr

theorem threadStaticsIndexOf_keeps (hr : R s) : Keeps R (unit.threadStaticsIndexOf type) s := by
  refine Keeps.bind (.of_readOnly (ask_readOnly _) hr) fun {own t} _ _ hr => ?_
  split
  · exact .pure _ hr
  · exact h.externSymbol_keeps _ hr

theorem threadStaticsBlock_keeps (hr : R s) :
    Keeps R (CompilationUnit.threadStaticsBlock type) s :=
  h.asks (.leaf (.threadStaticsBlock type)) hr rfl

/-! ### Delegates -/

theorem thunkOn_keeps (definition : MethodId) (hr : R s) : Keeps R (thunkOn type definition) s := by
  refine read hr fun desc _ => ?_
  split
  · exact .pure _ hr
  · exact h.interns_keeps (.methodOnType definition type) rfl rfl hr

omit h in
/-- What is refused changes nothing. -/
theorem refuse_keeps {α : Type} {cause : String → String → CompileError} (hr : R s) :
    Keeps R (do throw (cause (← ask (·.typeName type)) (← ask (·.methodName method))) :
      ImageM α) s :=
  read hr fun _ _ => read hr fun _ _ => .throw hr trivial

theorem staticParts_keeps (desc : MethodDesc) (info : DelegateInfo) (binding : Binding)
    (hr : R s) : Keeps R (unit.staticParts type method desc info binding) s := by
  rw [staticParts]
  split
  · exact refuse_keeps hr
  · refine (h.thunkOn_keeps _ hr).bind fun _ _ hr => ?_
    refine (h.plainEntry_keeps hr).bind fun _ _ hr => ?_
    refine (h.plainEntry_keeps hr).bind fun _ _ hr => ?_
    exact (h.plainEntry_keeps hr).bind fun _ _ hr => .pure _ hr

theorem boundTarget_keeps (entry : MethodEntry) (desc : MethodDesc) (canonical : MethodId)
    (hr : R s) : Keeps R (unit.boundTarget entry desc canonical) s := by
  rw [boundTarget]
  split
  · exact (h.methodEntry_keeps entry hr).bind fun _ _ hr => .pure _ hr
  · split
    · exact (h.asks (.shadowMethod entry) hr rfl).bind fun _ _ hr => .pure _ hr
    · exact (h.asks (.fatPointer entry) hr rfl).bind fun _ _ hr => .pure _ hr

theorem instanceParts_keeps (desc : MethodDesc) (hr : R s) :
    Keeps R (unit.instanceParts type method desc) s := by
  refine read hr fun owner _ => ?_
  refine (h.interns_keeps (.canonicalMethod method) rfl rfl hr).bind fun _ _ hr => ?_
  split
  · exact refuse_keeps hr
  · refine (h.boundTarget_keeps _ _ _ hr).bind fun _ _ hr => ?_
    exact (h.plainEntry_keeps hr).bind fun _ _ hr => .pure _ hr

theorem delegateParts_keeps (hr : R s) : Keeps R (unit.delegateParts type method) s := by
  refine read hr fun desc _ => ?_
  refine (h.interns_keeps (.delegateInfo type) rfl rfl hr).bind fun {info t} _ _ hr => ?_
  split
  · exact refuse_keeps hr
  · split
    · exact h.staticParts_keeps desc info _ hr
    · split
      · exact refuse_keeps hr
      · exact h.instanceParts_keeps desc hr

theorem delegateHelper_keeps (hr : R s)
    (hgrants : unit.Grants May (.delegate type method)) :
    Keeps R (unit.delegateHelper type method) s := by
  refine (h.delegateParts_keeps hr).bind fun hparts _ hr => ?_
  exact h.asked (.leaf (.helper (.delegate _))) hr (hgrants type method rfl _ _ _ hparts)

/-! ### Requests -/

theorem resolve_keeps (request : Request) (hr : R s) (hgrants : unit.Grants May request) :
    Keeps R (unit.resolve request) s := by
  cases request with
  | call method =>
    refine (h.interns_keeps (.canonicalMethod method) rfl rfl hr).bind fun _ _ hr => ?_
    split
    · exact h.plainEntry_keeps hr
    · exact h.asks (.shadowMethod ⟨method, false⟩) hr rfl
  | delegate type method => exact h.delegateHelper_keeps hr hgrants
  | gcStaticBase type => exact h.asks (.leaf (.helper (.gcStaticBase type))) hr rfl
  | threadStaticBase type => exact h.asks (.leaf (.helper (.threadStaticBase type))) hr rfl
  | eagerConstructor method => exact h.asks (.leaf (.eagerConstructor method)) hr rfl
  | node id => exact .pure _ hr

theorem helperNeeds_keeps (helper : Helper) (hr : R s) : Keeps R (unit.helperNeeds helper) s := by
  cases helper with
  | delegate parts => exact .pure _ hr
  | gcStaticBase type => exact (h.gcStaticBase_keeps hr).bind fun _ _ hr => .pure _ hr
  | threadStaticBase type =>
    refine (h.threadStaticsOffset_keeps hr).bind fun _ _ hr => ?_
    refine (h.threadStaticsIndexOf_keeps hr).bind fun _ _ hr => ?_
    refine read hr fun desc _ => ?_
    split
    · exact .pure _ hr
    · exact (h.gcStaticDesc_keeps true hr).bind fun _ _ hr => .pure _ hr

theorem needs_keeps (kind : NodeKind) (hr : R s) : Keeps R (unit.needs kind) s := by
  cases kind with
  | methodCode entry => exact (h.plainEntry_keeps hr).bind fun _ _ hr => .pure _ hr
  | shadowMethod entry canonical =>
    exact (h.dictionaryLayout_keeps hr).bind fun _ _ hr => .pure _ hr
  | threadStaticsOffset type =>
    exact (h.threadStaticsBlock_keeps hr).bind fun _ _ hr => .pure _ hr
  | gcStaticBase type => exact (h.gcStaticDesc_keeps false hr).bind fun _ _ hr => .pure _ hr
  | eagerConstructor method => exact (h.plainEntry_keeps hr).bind fun _ _ hr => .pure _ hr
  | header | modulesSection => exact .of_readOnly (attachment_readOnly.bind fun _ => .pure _) hr
  | helper helper => exact h.helperNeeds_keeps helper hr
  | _ => exact .pure _ hr

theorem bodyRequests_keeps (bodies : CodeBodies) (hr : R s) :
    Keeps R (bodyRequests bodies method) s := by
  refine read hr fun requests _ => read hr fun shared _ => ?_
  split
  · exact (h.dictionaryLayout_keeps hr).bind fun _ _ hr => .pure _ hr
  · exact .pure _ hr

theorem dependencies_keeps (bodies : CodeBodies) (id : NodeId) (hr : R s) :
    Keeps R (unit.dependencies bodies id) s := by
  refine Keeps.bind (.of_readOnly (node_readOnly id) hr) fun {node t} _ _ hr => ?_
  have hneeds : Keeps R (do return (← unit.needs node.kind).map Request.node) t :=
    (h.needs_keeps node.kind hr).bind fun _ _ hr => .pure _ hr
  split
  · exact h.bodyRequests_keeps bodies hr
  · exact hneeds

/-! ### Data -/

theorem payloadEmissions_keeps (kind : NodeKind) (hr : R s) :
    Keeps R (unit.payloadEmissions kind) s := by
  have hsymbol {t : Image} {x : ImageM NodeId} {f : String → List Emission} (hx : Keeps R x t) :
      Keeps R (do return some (f (← symbol (← x)))) t :=
    hx.bind fun _ _ hr => .of_readOnly ((symbol_readOnly _).bind fun _ => .pure _) hr
  cases kind with
  | gcStaticDesc type thread =>
    refine .of_readOnly ((ask_readOnly _).bind fun desc => ?_) hr
    exact (seriesEmissions_readOnly _ _).bind fun _ => .pure _
  | gcStaticBase type =>
    refine read hr fun desc _ => ?_
    refine Keeps.bind (.of_readOnly (word32_readOnly _) hr) fun _ _ hr => ?_
    exact hsymbol (h.gcStaticDesc_keeps false hr)
  | threadStaticsBlock type =>
    refine .of_readOnly ((ask_readOnly _).bind fun desc => ?_) hr
    exact (word32_readOnly _).bind fun _ => .pure _
  | threadStaticsOffset type => exact hsymbol (h.threadStaticsBlock_keeps hr)
  | eagerConstructor method => exact hsymbol (h.plainEntry_keeps hr)
  | tlsDirectory =>
    refine .of_readOnly ((symbol_readOnly _).bind fun _ => ?_) hr
    exact (symbol_readOnly _).bind fun _ => (symbol_readOnly _).bind fun _ => .pure _
  | modulesSection =>
    exact .of_readOnly (attachment_readOnly.bind fun _ => (symbol_readOnly _).bind fun _ => .pure _)
      hr
  | fatPointer entry target dictionary =>
    exact .of_readOnly ((symbol_readOnly _).bind fun _ => (symbol_readOnly _).bind fun _ => .pure _)
      hr
  | _ => exact .pure _ hr

theorem payload_keeps (id : NodeId) (hr : R s) : Keeps R (unit.payload id) s := by
  refine Keeps.bind (.of_readOnly (node_readOnly id) hr) fun {node t} _ _ hr => ?_
  split
  · exact .of_readOnly (attachment_readOnly.bind fun _ => .pure _) hr
  · exact (h.payloadEmissions_keeps _ hr).bind fun _ _ hr => .pure _ hr

/-! ### Compiling -/

omit h in
/-- Requests of a node are for nodes, or those of a body. -/
theorem request_of_dependencies {bodies : CodeBodies} {id : NodeId} {requests : List Request}
    {t : Image} (hx : unit.dependencies bodies id s = .ok requests t) {request : Request}
    (hmem : request ∈ requests) : (∃ other, request = .node other) ∨ request ∈ bodies.requests := by
  obtain ⟨node, hn, -⟩ := node_bind_eq_ok.1 hx
  -- only code that is entered plainly has a body, every other node asks for nodes
  by_cases hk : ∃ method, node.kind = .methodCode ⟨method, false⟩
  · obtain ⟨method, hk⟩ := hk
    rw [unit.dependencies_eq_body hn hk] at hx
    obtain ⟨body, hbody, hx⟩ := ask_bind_eq_ok.1 hx
    obtain ⟨shared, -, hx⟩ := ask_bind_eq_ok.1 hx
    have hrequests := CodeBodies.mem_requests_of_requestsOf hbody
    split at hx
    · obtain ⟨layout, u, -, hlast⟩ := bind_eq_ok.1 hx
      obtain ⟨rfl, -⟩ := pure_eq_ok.1 hlast
      rcases List.mem_append.1 hmem with hbody | hlayout
      · exact .inr (hrequests request hbody)
      · exact .inl ⟨layout, List.mem_singleton.1 hlayout⟩
    · obtain ⟨rfl, -⟩ := pure_eq_ok.1 hx
      exact .inr (hrequests request hmem)
  · rw [unit.dependencies_eq_needs hn fun method hm => hk ⟨method, hm⟩] at hx
    obtain ⟨ids, u, -, hlast⟩ := bind_eq_ok.1 hx
    obtain ⟨rfl, -⟩ := pure_eq_ok.1 hlast
    obtain ⟨other, -, rfl⟩ := List.mem_map.1 hmem
    exact .inl ⟨other, rfl⟩

variable {bodies : CodeBodies} (hbodies : ∀ request ∈ bodies.requests, unit.Grants May request)
include hbodies

theorem expand_keeps (id : NodeId) (hr : R s) :
    Keeps R (Closure.expand (unit.dependencyContext bodies) id) s := by
  refine (h.dependencies_keeps bodies id hr).bind fun hrequests _ hr => ?_
  refine .mapM hr fun {request t} hmem _ hr => h.resolve_keeps request hr ?_
  rcases request_of_dependencies hrequests hmem with ⟨other, rfl⟩ | hbody
  · exact grants_of_ne nofun
  · exact hbodies request hbody

theorem close_keeps (roots : List NodeId) (hr : R s) : Keeps R (unit.close bodies roots) s := by
  refine .congr (get_bind_apply _ s) ?_
  refine Keeps.bind (Closure.run_keeps (fun hr => h.expand_keeps hbodies _ hr) hr _ _)
    fun _ _ hr => ?_
  split
  · exact .pure _ hr
  · exact .throw hr trivial

/-- Compiling a unit keeps what questions keep, if attaching the unit does. -/
theorem compile_keeps (methods : List MethodId) (hattach : Keeps R unit.attach s) :
    Keeps R (unit.compile bodies methods) s := by
  refine Keeps.bind (hattach.bind fun _ _ hr => ?_) fun {closure t} _ _ hr => ?_
  · refine (Keeps.mapM hr fun {method t} _ _ hr => ?_).bind fun _ _ hr => ?_
    · exact h.resolve_keeps (.call method) hr (grants_of_ne nofun)
    · exact h.close_keeps hbodies _ hr
  · refine (Keeps.mapM hr fun {id u} _ _ hr => ?_).bind fun {emitted u} _ _ hr => ?_
    · refine Keeps.bind (.of_readOnly (node_readOnly id) hr) fun _ _ hr => ?_
      exact (h.payload_keeps id hr).bind fun _ _ hr => .pure _ hr
    · refine Keeps.bind (.of_readOnly (layoutRegions_readOnly closure emitted) hr) fun _ _ hr => ?_
      exact .of_readOnly (attachment_readOnly.bind fun _ => .pure _) hr

end Sustained

end CompilationUnit

end NativeImage
