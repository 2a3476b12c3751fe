import NativeImage.Proofs.Program.Siblings

/-!
# Programs that can be built

A program is built from the initial one by declarations, and by calls that may add instances. Every
program built on existing handles is well-formed, and a call leaves it an extension of what it was.

## Main definitions

- `InternCall` — the calls that may add an instance
- `Program.Reachable` — programs built by calls on existing handles

## Main statements

- `InternCall.run_agrees` — a call on handles of the base agrees on all extensions
- `Program.Reachable.wellFormed`
-/

namespace NativeImage

/-- A call that may add an instance to a program. -/
inductive InternCall
  | instantiateType (id : TypeId) (args : List TypeId)
  | instantiateMethod (id : MethodId) (args : List TypeId)
  | methodOnType (id : MethodId) (type : TypeId)
  | canonicalType (id : TypeId)
  | canonicalMethod (id : MethodId)
  | delegateInfo (type : TypeId)
  deriving DecidableEq, Repr

namespace InternCall

open Program

def run : InternCall → ProgramM Unit
  | instantiateType id args => discard (ProgramM.instantiateType id args)
  | instantiateMethod id args => discard (ProgramM.instantiateMethod id args)
  | methodOnType id type => discard (ProgramM.methodOnType id type)
  | canonicalType id => discard (ProgramM.canonicalType id)
  | canonicalMethod id => discard (ProgramM.canonicalMethod id)
  | delegateInfo type => discard (ProgramM.delegateInfo type)

/-- The call is on handles that the program has. -/
def Valid (p : Program) : InternCall → Prop
  | instantiateType id args => p.HasType id ∧ ∀ arg ∈ args, p.HasType arg
  | instantiateMethod id args => p.HasMethod id ∧ ∀ arg ∈ args, p.HasType arg
  | methodOnType id type => p.HasMethod id ∧ p.HasType type
  | canonicalType id => p.HasType id
  | canonicalMethod id => p.HasMethod id
  | delegateInfo type => p.HasType type

instance (p : Program) : (call : InternCall) → Decidable (call.Valid p)
  | instantiateType id args =>
    inferInstanceAs (Decidable (p.HasType id ∧ ∀ arg ∈ args, p.HasType arg))
  | instantiateMethod id args =>
    inferInstanceAs (Decidable (p.HasMethod id ∧ ∀ arg ∈ args, p.HasType arg))
  | methodOnType id type => inferInstanceAs (Decidable (p.HasMethod id ∧ p.HasType type))
  | canonicalType id => inferInstanceAs (Decidable (p.HasType id))
  | canonicalMethod id => inferInstanceAs (Decidable (p.HasMethod id))
  | delegateInfo type => inferInstanceAs (Decidable (p.HasType type))

variable {base p q : Program}

/-- Results that nobody looks at agree. -/
theorem agree_discard {α β : Type} {V : Program → Program → α → β → Prop} {x : ProgramM α}
    {y : ProgramM β} (h : Agree (Siblings base) V x y p q) :
    Agree (Siblings base) (fun _ _ _ _ => True) (discard x) (discard y) p q :=
  h.map fun _ _ _ _ => trivial

/-- A call on handles of the base agrees on all extensions. -/
theorem run_agrees (hr : Siblings base p q) {call : InternCall} (hv : call.Valid base) :
    Agree (Siblings base) (fun _ _ _ _ => True) call.run call.run p q := by
  cases call with
  | instantiateType id args =>
    exact agree_discard (ProgramM.instantiateType_agrees hr (.same hv.1)
      (TypeMatch.forall₂_same hv.2))
  | instantiateMethod id args =>
    exact agree_discard (ProgramM.instantiateMethod_agrees hr (.same hv.1)
      (TypeMatch.forall₂_same hv.2))
  | methodOnType id type =>
    exact agree_discard (ProgramM.methodOnType_agrees hr (.same hv.1) (.same hv.2))
  | canonicalType id => exact agree_discard (ProgramM.canonicalType_agrees hr (.same hv))
  | canonicalMethod id => exact agree_discard (ProgramM.canonicalMethod_agrees hr (.same hv))
  | delegateInfo type => exact agree_discard (ProgramM.delegateInfo_agrees hr (.same hv))

theorem run_settles (call : InternCall) : Settles call.run := by
  cases call with
  | instantiateType id args => exact (ProgramM.instantiateType_settles id args).map _
  | instantiateMethod id args => exact (ProgramM.instantiateMethod_settles id args).map _
  | methodOnType id type => exact (ProgramM.methodOnType_settles id type).map _
  | canonicalType id => exact (ProgramM.canonicalType_settles id).map _
  | canonicalMethod id => exact (ProgramM.canonicalMethod_settles id).map _
  | delegateInfo type => exact (ProgramM.delegateInfo_settles type).map _

end InternCall

namespace Program

/-- Programs built from the initial one by declarations and calls on existing handles. -/
inductive Reachable : Program → Prop
  | initial : Reachable initial
  | declareModule {p : Program} (h : Reachable p) (desc : ModuleDesc) :
    Reachable (stateAfter (ProgramM.declareModule desc) p)
  | declareType {p : Program} (h : Reachable p) {type : TypeDeclaration}
    (hm : p.HasModule type.module) : Reachable (stateAfter (ProgramM.declareType type) p)
  | declareMethod {p : Program} (h : Reachable p) {method : MethodDeclaration}
    (ho : p.HasType method.owner) : Reachable (stateAfter (ProgramM.declareMethod method) p)
  | intern {p : Program} (h : Reachable p) {call : InternCall} (hv : call.Valid p) :
    Reachable (stateAfter call.run p)

variable {base p : Program}

theorem initial_typeDesc {id : TypeId} {desc : TypeDesc} (h : initial.typeDesc id = .ok desc) :
    desc.origin = .declared ∧ desc.module = .core := by
  have hmem := Array.mem_of_getElem? (typeDesc_eq_ok.1 h)
  simp only [initial, List.mem_toArray, List.mem_cons, List.not_mem_nil, or_false] at hmem
  obtain rfl | rfl := hmem
  · exact ⟨rfl, rfl⟩
  · exact ⟨rfl, rfl⟩

theorem initial_methodDesc {id : MethodId} {desc : MethodDesc}
    (h : initial.methodDesc id = .ok desc) :
    desc.origin = .declared ∧ desc.owner = .delegateBase := by
  have hmem := Array.mem_of_getElem? (methodDesc_eq_ok.1 h)
  simp only [initial, List.mem_toArray, List.mem_map] at hmem
  obtain ⟨routine, -, rfl⟩ := hmem
  exact ⟨rfl, rfl⟩

theorem initial_wellFormed : initial.WellFormed := by
  refine ⟨le_rfl, fun h => ⟨?_, fun ho => ?_⟩, fun h _ _ hne => absurd (initial_typeDesc h).1 hne,
    fun h => ⟨?_, fun ho => ?_, fun ho => ?_⟩,
    fun h _ _ _ hne => absurd (initial_methodDesc h).1 hne⟩
  · rw [(initial_typeDesc h).2]
    exact Nat.zero_lt_one
  · rw [(initial_typeDesc h).1] at ho
    cases ho
  · rw [(initial_methodDesc h).2]
    exact Nat.one_lt_two
  · rw [(initial_methodDesc h).1] at ho
    cases ho
  · rw [(initial_methodDesc h).1] at ho
    cases ho

theorem WellFormed.declareModule (hp : p.WellFormed) (desc : ModuleDesc) :
    WellFormed { p with modules := p.modules.push desc } := by
  have hle : p ≤ { p with modules := p.modules.push desc } :=
    ⟨.push _ _, .refl _, .refl _⟩
  exact ⟨hp.initial_le.trans hle, fun h => (hp.type_ok h).mono hle, hp.type_unique,
    fun h => (hp.method_ok h).mono hle, hp.method_unique⟩

/-- Calls on handles of the base leave extensions of it. -/
theorem Extension.intern (h : Extension base p) {call : InternCall} (hv : call.Valid base) :
    Extension base (stateAfter call.run p) :=
  (InternCall.run_agrees ⟨h, h⟩ hv).stateAfter.left

/-- Every program built on existing handles is well-formed. -/
theorem Reachable.wellFormed (h : Reachable p) : p.WellFormed := by
  induction h with
  | initial => exact initial_wellFormed
  | declareModule _ desc ih => exact ih.declareModule desc
  | declareType _ hm ih => exact ih.pushType ⟨hm, nofun⟩ fun hne => absurd rfl hne
  | declareMethod _ ho ih => exact ih.pushMethod ⟨ho, nofun, nofun⟩ fun hne => absurd rfl hne
  | intern _ hv ih => exact ((Extension.refl ih).intern hv).wellFormed

end Program

end NativeImage
