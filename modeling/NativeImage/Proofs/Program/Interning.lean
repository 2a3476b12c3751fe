import NativeImage.Proofs.Program.Reachable
import NativeImage.Proofs.Program.Totality

/-!
# Handles of instances

Whatever calls a program was built by, two handles of instances are equal exactly if they name the
same instance: the tables hold no instance twice. A call leaves every entry as it was, and one that
fails leaves nothing behind.

## Main definitions

- `Program.Interned` — no instance is there twice, and each is one of a definition
- `ProgramCall` — declarations and the calls that may add instances
- `Program.after` — the program after a sequence of calls

## Main statements

- `Program.WellFormed.interned` — well-formed programs hold no instance twice
- `ProgramCall.run_outcome` — a call adds entries, or fails and adds none
- `Program.Reachable.interned_once`
-/

namespace NativeImage

/-! ## Instances in the tables -/

/-- An instance of a type applies a definition to as many older types as it takes; a method
instance puts a definition on another owner or gives it arguments. What they are made from says
which they are. -/
structure Program.Interned (p : Program) : Prop where
  type_instance : ∀ {id desc definition args}, p.typeDesc id = .ok desc →
    desc.origin = .derived definition args → ∃ original, p.typeDesc definition = .ok original ∧
      original.origin = .declared ∧ 0 < original.genericArity ∧
      args.length = original.genericArity ∧ ∀ arg ∈ args, arg.index < id.index
  type_unique : ∀ {id other desc found definition args}, p.typeDesc id = .ok desc →
    p.typeDesc other = .ok found → desc.origin = .derived definition args →
    found.origin = .derived definition args → id = other
  method_instance : ∀ {id desc definition args}, p.methodDesc id = .ok desc →
    desc.origin = .derived definition args → ∃ original, p.methodDesc definition = .ok original ∧
      original.definition? = none ∧ ¬ (desc.owner = original.owner ∧ args = [])
  method_unique : ∀ {id other desc found definition args}, p.methodDesc id = .ok desc →
    p.methodDesc other = .ok found → desc.origin = .derived definition args →
    found.origin = .derived definition args → desc.owner = found.owner → id = other

theorem Program.WellFormed.interned {p : Program} (hp : p.WellFormed) : p.Interned where
  type_instance hd ho := by
    obtain ⟨⟨original, horig, hdecl, hlen⟩, hne, -, hlt, -⟩ := (hp.type_ok hd).derived ho
    refine ⟨original, horig, hdecl, ?_, hlen.symm, hlt⟩
    rw [hlen]
    exact List.length_pos_of_ne_nil hne
  type_unique hd hf ho ho' := hp.type_unique hd hf (ho.trans ho'.symm) (by simp [ho])
  method_instance hd ho := by
    obtain ⟨-, -, original, horig, hdef, -, hself⟩ := (hp.method_ok hd).derived ho
    exact ⟨original, horig, hdef, hself⟩
  method_unique hd hf ho ho' howner :=
    hp.method_unique hd hf (ho.trans ho'.symm) howner (by simp [ho])

/-! ## Calls that may fail -/

namespace Program.WellFormed

variable {p : Program} (hp : p.WellFormed) {id : MethodId} {desc : MethodDesc}
  (hd : p.methodDesc id = .ok desc)
include hp hd

theorem hasType_methodArgs : ∀ arg ∈ desc.args, p.HasType arg := by
  rw [MethodDesc.args]
  cases ho : desc.origin with
  | declared => exact List.forall_mem_nil _
  | thunk kind => exact List.forall_mem_nil _
  | derived definition args =>
    obtain ⟨-, hargs, -⟩ := (hp.method_ok hd).derived ho
    exact hargs

end Program.WellFormed

namespace ProgramM

open Program

variable {base p : Program}

/-- A type is applied to its arguments, or refused before anything is added. -/
theorem instantiateType_outcome (hp : Extension base p) {id : TypeId} {args : List TypeId}
    (h : p.HasType id) (hargs : ∀ arg ∈ args, p.HasType arg) :
    Ends (Extension base) (fun q _ => q = p) (fun q id => q.HasType id) (instantiateType id args)
      p := by
  obtain ⟨desc, hd⟩ := hasType_iff.1 h
  refine ends_ask hd ?_
  split
  · next hcond =>
    obtain ⟨hpos, hdecl⟩ := isGenericDefinition_iff.1 hcond.1
    refine internType_ends hp hd hdecl hcond.2 ?_ hargs
    rintro rfl
    rw [hcond.2] at hpos
    exact absurd hpos (Nat.lt_irrefl 0)
  · exact .throw hp rfl

/-- A method is given its arguments, or refused before anything is added. -/
theorem instantiateMethod_outcome (hp : Extension base p) {id : MethodId} {args : List TypeId}
    (h : p.HasMethod id) (hargs : ∀ arg ∈ args, p.HasType arg) :
    Ends (Extension base) (fun q _ => q = p) (fun q id => q.HasMethod id)
      (instantiateMethod id args) p := by
  obtain ⟨desc, hd⟩ := hasMethod_iff.1 h
  obtain ⟨name, hname⟩ := hp.exists_methodName h
  refine ends_ask hd ?_
  split
  · exact ends_ask hname (.throw hp rfl)
  · split
    · exact ends_ask hname (.throw hp rfl)
    · obtain ⟨original, horig, hdef, -⟩ := hp.wellFormed.exists_original hd
      exact internMethod_ends hp horig hdef (hp.wellFormed.method_ok hd).owner hargs

/-- A method is found on another owner, or refused before anything is added. -/
theorem methodOnType_outcome (hp : Extension base p) {id : MethodId} {type : TypeId}
    (h : p.HasMethod id) (htype : p.HasType type) :
    Ends (Extension base) (fun q _ => q = p) (fun q id => q.HasMethod id) (methodOnType id type)
      p := by
  obtain ⟨desc, hd⟩ := hasMethod_iff.1 h
  obtain ⟨original, horig, hnone, -⟩ := hp.wellFormed.exists_original hd
  obtain ⟨definition, -, hdef, -⟩ := hp.exists_typeDefinition htype
  refine ends_ask hd (ends_ask horig (ends_ask hdef ?_))
  split
  · exact internMethod_ends hp horig hnone htype (hp.wellFormed.hasType_methodArgs hd)
  · obtain ⟨method, hmethod⟩ := hp.exists_methodName h
    obtain ⟨name, hname⟩ := exists_typeName htype
    exact ends_ask hmethod (ends_ask hname (.throw hp rfl))

/-- A delegate type has its thunks, and any other type is refused before anything is added. -/
theorem delegateInfo_outcome (hp : Extension base p) {type : TypeId} (h : p.HasType type) :
    Ends (Extension base) (fun q _ => q = p) (fun _ _ => True) (delegateInfo type) p := by
  obtain ⟨definition, desc, hdef, hd, hdecl⟩ := hp.exists_typeDefinition h
  cases harity : desc.invokeArity? with
  | none =>
    refine ends_ask hdef (ends_ask hd ?_)
    rw [harity]
    exact .throw hp rfl
  | some arity =>
    exact (delegateInfo_ends hp hdef hd hdecl harity).imp fun _ _ _ => trivial

end ProgramM

namespace InternCall

open Program

variable {base p : Program}

theorem ends_discard {α : Type} {R : Program → Prop} {E : Program → ProgramError → Prop}
    {V : Program → α → Prop} {x : ProgramM α} (h : Ends R E V x p) :
    Ends R E (fun _ _ => True) (discard x) p :=
  h.map fun _ _ _ => trivial

/-- A call on existing handles adds instances, or fails and adds none. -/
theorem run_outcome (hp : Extension base p) {call : InternCall} (hv : call.Valid p) :
    Ends (Extension base) (fun q _ => q = p) (fun _ _ => True) call.run p := by
  cases call with
  | instantiateType id args =>
    exact ends_discard (ProgramM.instantiateType_outcome hp hv.1 hv.2)
  | instantiateMethod id args =>
    exact ends_discard (ProgramM.instantiateMethod_outcome hp hv.1 hv.2)
  | methodOnType id type => exact ends_discard (ProgramM.methodOnType_outcome hp hv.1 hv.2)
  | canonicalType id => exact ends_discard (ProgramM.canonicalType_ends hp hv)
  | canonicalMethod id => exact ends_discard (ProgramM.canonicalMethod_ends hp hv)
  | delegateInfo type => exact ends_discard (ProgramM.delegateInfo_outcome hp hv)

end InternCall

/-! ## Sequences of calls -/

/-- A declaration, or a call that may add an instance. -/
inductive ProgramCall
  | declareModule (desc : ModuleDesc)
  | declareType (type : TypeDeclaration)
  | declareMethod (method : MethodDeclaration)
  | intern (call : InternCall)
  deriving DecidableEq, Repr

namespace ProgramCall

def run : ProgramCall → ProgramM Unit
  | declareModule desc => discard (ProgramM.declareModule desc)
  | declareType type => discard (ProgramM.declareType type)
  | declareMethod method => discard (ProgramM.declareMethod method)
  | intern call => call.run

/-- The call is on handles that the program has. -/
def Valid (p : Program) : ProgramCall → Prop
  | declareModule _ => True
  | declareType type => p.HasModule type.module
  | declareMethod method => p.HasType method.owner
  | intern call => call.Valid p

instance (p : Program) : (call : ProgramCall) → Decidable (call.Valid p)
  | declareModule _ => inferInstanceAs (Decidable True)
  | declareType type => inferInstanceAs (Decidable (p.HasModule type.module))
  | declareMethod method => inferInstanceAs (Decidable (p.HasType method.owner))
  | intern call => inferInstanceAs (Decidable (call.Valid p))

variable {p : Program} {call : ProgramCall}

/-- A call keeps every entry of the program, and the whole program if it fails. -/
theorem run_outcome (hp : p.WellFormed) (hv : call.Valid p) :
    (∃ q, call.run p = .ok () q ∧ p ≤ q) ∨ ∃ cause, call.run p = .error cause p := by
  cases call with
  | declareModule desc => exact .inl ⟨_, rfl, .push _ _, .refl _, .refl _⟩
  | declareType type => exact .inl ⟨_, rfl, ProgramM.le_pushType p _⟩
  | declareMethod method => exact .inl ⟨_, rfl, ProgramM.le_pushMethod p _⟩
  | intern call =>
    cases InternCall.run_outcome (.refl hp) hv with
    | ok hx hle => exact .inl ⟨_, hx, hle⟩
    | error hx _ _ he => exact .inr ⟨_, he ▸ hx⟩

/-- Programs only grow. -/
theorem le_stateAfter (call : ProgramCall) (p : Program) : p ≤ stateAfter call.run p := by
  cases call with
  | declareModule desc => exact ⟨.push _ _, .refl _, .refl _⟩
  | declareType type => exact ProgramM.le_pushType p _
  | declareMethod method => exact ProgramM.le_pushMethod p _
  | intern call => exact call.run_settles.le_stateAfter p

theorem reachable_stateAfter (h : p.Reachable) (hv : call.Valid p) :
    (stateAfter call.run p).Reachable := by
  cases call with
  | declareModule desc => exact h.declareModule desc
  | declareType type => exact h.declareType hv
  | declareMethod method => exact h.declareMethod hv
  | intern call => exact h.intern hv

end ProgramCall

namespace Program

/-- The program after these calls, whether they succeed or not. -/
def after (p : Program) (calls : List ProgramCall) : Program :=
  calls.foldl (fun p call => stateAfter call.run p) p

/-- Each call is on handles that the program has by then. -/
def ValidCalls (p : Program) : List ProgramCall → Prop
  | [] => True
  | call :: calls => call.Valid p ∧ (stateAfter call.run p).ValidCalls calls

instance decidableValidCalls (p : Program) : (calls : List ProgramCall) →
    Decidable (p.ValidCalls calls)
  | [] => inferInstanceAs (Decidable True)
  | call :: calls =>
    have := decidableValidCalls (stateAfter call.run p) calls
    inferInstanceAs (Decidable (call.Valid p ∧ (stateAfter call.run p).ValidCalls calls))

variable {p : Program}

theorem Reachable.after (h : p.Reachable) {calls : List ProgramCall} (hv : p.ValidCalls calls) :
    (p.after calls).Reachable := by
  induction calls generalizing p with
  | nil => exact h
  | cons call calls ih => exact ih (ProgramCall.reachable_stateAfter h hv.1) hv.2

/-- No program built on existing handles holds an instance twice. A call on it keeps every entry,
and adds nothing if it fails. -/
theorem Reachable.interned_once (h : p.Reachable) :
    p.Interned ∧ ∀ call : ProgramCall, call.Valid p →
      (∃ q, call.run p = .ok () q ∧ p ≤ q) ∨ ∃ cause, call.run p = .error cause p :=
  ⟨h.wellFormed.interned, fun _ hv => ProgramCall.run_outcome h.wellFormed hv⟩

/-- Lists and optional values of numbers and texts, and a generic method of lists; instances of the
method on lists of optional texts and on lists of optional such lists. -/
def collections : Program :=
  initial.after [
    .declareType { name := "List", module := .core, genericArity := 1 },
    .declareType { name := "Option", module := .core, kind := .value, genericArity := 1 },
    .declareType { name := "Number", module := .core, kind := .value },
    .declareType { name := "Text", module := .core },
    .declareMethod { name := "Map", owner := ⟨2⟩, paramCount := 1, genericArity := 1 },
    .intern (.instantiateType ⟨3⟩ [⟨5⟩]),
    .intern (.instantiateType ⟨2⟩ [⟨6⟩]),
    .intern (.instantiateType ⟨3⟩ [⟨7⟩]),
    .intern (.instantiateType ⟨2⟩ [⟨8⟩]),
    .intern (.methodOnType ⟨5⟩ ⟨7⟩),
    .intern (.instantiateMethod ⟨6⟩ [⟨4⟩]),
    .intern (.methodOnType ⟨5⟩ ⟨9⟩),
    .intern (.instantiateMethod ⟨8⟩ [⟨4⟩])]

theorem collections_reachable : collections.Reachable :=
  Reachable.initial.after (by decide +kernel)

/-- Asked once more for lists of optional texts nothing changes, and to apply such a list to
anything is refused. -/
theorem collections_interned_once : collections.Interned ∧
    stateAfter (InternCall.instantiateType ⟨2⟩ [⟨6⟩]).run collections = collections ∧
    ∃ cause, (ProgramCall.intern (.instantiateType ⟨7⟩ [⟨5⟩])).run collections =
      .error cause collections := by
  obtain ⟨hinterned, houtcome⟩ := Reachable.interned_once collections_reachable
  refine ⟨hinterned, by decide +kernel, (houtcome _ (by decide +kernel)).resolve_left ?_⟩
  rintro ⟨q, hx, -⟩
  have hrefused : (match (ProgramCall.intern (.instantiateType ⟨7⟩ [⟨5⟩])).run collections with
      | .ok _ _ => false
      | .error _ _ => true) = true := by decide +kernel
  rw [hx] at hrefused
  cases hrefused

end Program

end NativeImage
