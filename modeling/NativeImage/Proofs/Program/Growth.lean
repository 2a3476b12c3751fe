import NativeImage.Program.Delegate
import NativeImage.Program.Sharing
import NativeImage.Program.Symbol
import NativeImage.Proofs.Settled

/-!
# Programs only grow

Whatever a handle named once it names for ever, so an answer that a program has given stays right
in every program that extends it, and an instance that was found or appended is found again.

## Main definitions

- `Program.Extends` — the order on programs
- `Program.Stable` — questions whose answers last

## Main statements

- `ProgramM.internType_settles`, `ProgramM.internMethod_settles`, `ProgramM.internThunk_settles`,
  `ProgramM.canonicalMethod_settles`, `ProgramM.delegateInfo_settles` — operations that settle
-/

namespace NativeImage

namespace Program

/-- Every entry of the old program is in the new one under the same handle. -/
structure Extends (new old : Program) : Prop where
  modules : KeepsEntries old.modules new.modules
  types : KeepsEntries old.types new.types
  methods : KeepsEntries old.methods new.methods

instance : Preorder Program where
  le old new := Extends new old
  le_refl program := ⟨.refl _, .refl _, .refl _⟩
  le_trans _ _ _ h h' :=
    ⟨h.modules.trans h'.modules, h.types.trans h'.types, h.methods.trans h'.methods⟩

/-- A question whose answer stays the same when the program grows. -/
def Stable {α : Type} (question : Program → Except ProgramError α) : Prop :=
  ∀ p a, question p = .ok a → ∀ q, p ≤ q → question q = .ok a

namespace Stable

variable {α β : Type}

theorem pure (a : α) : Stable fun _ => .ok a := fun _ _ h _ _ => h

theorem throw (e : ProgramError) : Stable fun _ => (.error e : Except ProgramError α) := by
  intro p a h
  cases h

theorem bind {x : Program → Except ProgramError α} {f : α → Program → Except ProgramError β}
    (hx : Stable x) (hf : ∀ a, Stable (f a)) : Stable fun p => (x p >>= fun a => f a p) := by
  intro p b h q hq
  cases ha : x p with
  | error e =>
    simp only [ha] at h
    cases h
  | ok a =>
    simp only [ha, hx p a ha q hq] at h ⊢
    exact hf a p b h q hq

theorem mapM {f : α → Program → Except ProgramError β} {list : List α}
    (hf : ∀ a ∈ list, Stable (f a)) : Stable fun p => list.mapM fun a => f a p := by
  induction list with
  | nil => exact pure []
  | cons head rest ih =>
    simp only [List.mapM_cons]
    refine (hf head List.mem_cons_self).bind fun b => ?_
    refine (ih fun a ha => hf a (List.mem_cons_of_mem _ ha)).bind fun bs => ?_
    exact pure (b :: bs)

theorem anyM {f : α → Program → Except ProgramError Bool} {list : List α}
    (hf : ∀ a ∈ list, Stable (f a)) : Stable fun p => list.anyM fun a => f a p := by
  induction list with
  | nil => exact pure false
  | cons head rest ih =>
    simp only [List.anyM]
    refine (hf head List.mem_cons_self).bind fun b => ?_
    cases b with
    | true => exact pure true
    | false => exact ih fun a ha => hf a (List.mem_cons_of_mem _ ha)

theorem ite {c : Prop} [Decidable c] {x y : Program → Except ProgramError α} (hx : Stable x)
    (hy : Stable y) : Stable fun p => if c then x p else y p := by
  split
  · exact hx
  · exact hy

end Stable

/-! ## Questions -/

theorem moduleDesc_stable (id : ModuleId) : Stable (·.moduleDesc id) := by
  intro p a h q hq
  simp only [moduleDesc] at h ⊢
  split at h
  · rename_i desc hd
    rw [hq.modules _ _ hd]
    exact h
  · cases h

theorem typeDesc_eq_ok {p : Program} {id : TypeId} {desc : TypeDesc} :
    p.typeDesc id = .ok desc ↔ p.types[id.index]? = some desc := by
  rw [typeDesc]
  cases p.types[id.index]? <;> simp

theorem methodDesc_eq_ok {p : Program} {id : MethodId} {desc : MethodDesc} :
    p.methodDesc id = .ok desc ↔ p.methods[id.index]? = some desc := by
  rw [methodDesc]
  cases p.methods[id.index]? <;> simp

theorem typeDesc_stable (id : TypeId) : Stable (·.typeDesc id) := by
  intro p a h q hq
  exact typeDesc_eq_ok.2 (hq.types _ _ (typeDesc_eq_ok.1 h))

theorem methodDesc_stable (id : MethodId) : Stable (·.methodDesc id) := by
  intro p a h q hq
  exact methodDesc_eq_ok.2 (hq.methods _ _ (methodDesc_eq_ok.1 h))

theorem typeDefinition_stable (id : TypeId) : Stable (·.typeDefinition id) :=
  (typeDesc_stable id).bind fun _ => .pure _

theorem methodDefinition_stable (id : MethodId) : Stable (·.methodDefinition id) :=
  (methodDesc_stable id).bind fun _ => .pure _

theorem typeName_stable (id : TypeId) : Stable (·.typeName id) :=
  (typeDesc_stable id).bind fun _ => .pure _

theorem moduleOfType_stable (id : TypeId) : Stable (·.moduleOfType id) :=
  (typeDesc_stable id).bind fun _ => .pure _

theorem moduleOfMethod_stable (id : MethodId) : Stable (·.moduleOfMethod id) :=
  (methodDesc_stable id).bind fun desc => moduleOfType_stable desc.owner

theorem argumentList_stable (args : List TypeId) : Stable (·.argumentList args) :=
  (Stable.mapM fun arg _ => typeName_stable arg).bind fun _ => .pure _

theorem methodName_stable (id : MethodId) : Stable (·.methodName id) := by
  refine (methodDesc_stable id).bind fun desc => ?_
  refine (typeName_stable desc.owner).bind fun owner => ?_
  refine Stable.ite (.pure _) ?_
  exact (argumentList_stable desc.args).bind fun _ => .pure _

theorem typeEntity_stable (id : TypeId) : Stable (·.typeEntity id) := by
  refine (moduleOfType_stable id).bind fun module => ?_
  refine (moduleDesc_stable module).bind fun home => ?_
  exact (typeName_stable id).bind fun _ => .pure _

theorem methodEntity_stable (id : MethodId) : Stable (·.methodEntity id) := by
  refine (moduleOfMethod_stable id).bind fun module => ?_
  refine (moduleDesc_stable module).bind fun home => ?_
  exact (methodName_stable id).bind fun _ => .pure _

theorem typeSymbol_stable (family : SymbolFamily) (id : TypeId) :
    Stable (·.typeSymbol family id) :=
  (typeEntity_stable id).bind fun _ => .pure _

theorem methodSymbol_stable (family : SymbolFamily) (id : MethodId) :
    Stable (·.methodSymbol family id) :=
  (methodEntity_stable id).bind fun _ => .pure _

theorem entitySymbol_stable (family : SymbolFamily) (owner : Entity) :
    Stable (·.entitySymbol family owner) := by
  cases owner with
  | method id => exact methodSymbol_stable family id
  | type id => exact typeSymbol_stable family id

theorem typeInstance_stable (definition : TypeId) (args : List TypeId) :
    Stable (·.typeInstance definition args) := by
  refine (typeDesc_stable definition).bind fun desc => ?_
  exact (argumentList_stable args).bind fun _ => .pure _

theorem mentionsCanon_stable (id : TypeId) : Stable (·.mentionsCanon id) := by
  suffices h : ∀ n (id : TypeId), id.index = n → Stable (·.mentionsCanon id) from h _ id rfl
  intro n
  induction n using Nat.strongRecOn with
  | _ n ih =>
    rintro id rfl
    have hstep := funext fun p : Program => mentionsCanon.eq_1 p id
    rw [hstep]
    refine (typeDesc_stable id).bind fun desc => ?_
    refine Stable.ite (.pure _) (Stable.anyM fun arg _ => ?_)
    split
    · rename_i hlt
      exact ih arg.index hlt arg rfl
    · exact .throw _

theorem isSharedMethod_stable (id : MethodId) : Stable (·.isSharedMethod id) := by
  refine (methodDesc_stable id).bind fun desc => ?_
  refine (mentionsCanon_stable desc.owner).bind fun shared => ?_
  cases shared with
  | true => exact .pure _
  | false => exact Stable.anyM fun arg _ => mentionsCanon_stable arg

end Program

/-! ## Operations -/

namespace ProgramM

open Program

variable {p q : Program} {α : Type}

theorem ask_settles {question : Program → Except ProgramError α} (h : Stable question) :
    Settles (ask question) where
  grows := by
    intro p a q hq
    rw [ask] at hq
    split at hq <;> cases hq
    exact le_rfl
  grows_error := by
    intro p e q hq
    rw [ask] at hq
    split at hq <;> cases hq
    exact le_rfl
  again := by
    intro p a q hq r hr
    rw [ask] at hq
    split at hq
    · rename_i answer ha
      cases hq
      rw [ask, h _ _ ha _ hr]
    · cases hq

/-- What is there is kept when a type is appended. -/
theorem le_pushType (p : Program) (desc : TypeDesc) :
    p ≤ { p with types := p.types.push desc } :=
  ⟨.refl _, .push _ _, .refl _⟩

/-- What is there is kept when a method is appended. -/
theorem le_pushMethod (p : Program) (desc : MethodDesc) :
    p ≤ { p with methods := p.methods.push desc } :=
  ⟨.refl _, .refl _, .push _ _⟩

/-- An instance that is found is found in every later program. -/
theorem findType?_of_le (h : p ≤ q) {definition : TypeId} {args : List TypeId} {id : TypeId}
    (hid : p.findType? definition args = some id) : q.findType? definition args = some id := by
  obtain ⟨i, hi, rfl⟩ := Option.map_eq_some_iff.1 hid
  rw [findType?, h.types.findIdx? hi]
  rfl

/-- An instance is found, or appended if there is none. -/
theorem internType_apply (definition : TypeId) (args : List TypeId) (p : Program) :
    internType definition args p = match p.findType? definition args with
      | some id => .ok id p
      | none => match p.typeInstance definition args with
        | .ok desc => .ok ⟨p.types.size⟩ { p with types := p.types.push desc }
        | .error e => .error e p := by
  rw [internType, get_bind_apply]
  cases p.findType? definition args with
  | some id => rfl
  | none =>
    simp only [bind_apply, ask, appendType]
    cases p.typeInstance definition args <;> rfl

theorem typeInstance_origin {definition : TypeId} {args : List TypeId} {desc : TypeDesc}
    (h : p.typeInstance definition args = .ok desc) : desc.origin = .derived definition args := by
  simp only [typeInstance] at h
  cases hd : p.typeDesc definition with
  | error e =>
    rw [hd] at h
    cases h
  | ok d =>
    cases ha : p.argumentList args with
    | error e =>
      rw [hd, ha] at h
      cases h
    | ok list =>
      rw [hd, ha] at h
      cases h
      rfl

/-- The instance appended is the one that is found from then on. -/
theorem findType?_pushType {definition : TypeId} {args : List TypeId}
    (hnone : p.findType? definition args = none) {desc : TypeDesc}
    (ho : desc.origin = .derived definition args) :
    findType? { p with types := p.types.push desc } definition args = some ⟨p.types.size⟩ := by
  have hn : p.types.findIdx? (fun d => d.origin == .derived definition args) = none :=
    Option.map_eq_none_iff.1 hnone
  rw [findType?, findIdx?_push_self hn (by simp [ho])]
  rfl

theorem internType_settles (definition : TypeId) (args : List TypeId) :
    Settles (internType definition args) := by
  refine .of_find (·.findType? definition args) (fun hq h => findType?_of_le hq h)
    (fun {p id} h => ?_) fun {p} h => ?_
  · rw [internType_apply, h]
  · rw [internType_apply, h]
    cases hd : p.typeInstance definition args with
    | ok desc =>
      exact .inl ⟨_, _, rfl, le_pushType p desc, findType?_pushType h (typeInstance_origin hd)⟩
    | error e => exact .inr ⟨e, rfl⟩

theorem instantiateType_settles (id : TypeId) (args : List TypeId) :
    Settles (instantiateType id args) := by
  refine (ask_settles (typeDesc_stable id)).bind fun desc => ?_
  exact Settles.ite (internType_settles id args) (.throw _)

/-- A method that is found, or appended if none passes the test. -/
theorem findOrAppend_settles {test : MethodDesc → Bool} {desc : MethodDesc}
    (htest : test desc = true) : Settles (do
      match ((← get).methods.findIdx? test).map MethodId.mk with
      | some id => return id
      | none => appendMethod desc : ProgramM MethodId) := by
  refine .of_find (fun p => (p.methods.findIdx? test).map MethodId.mk) (fun {p q id} hq h => ?_)
    (fun {p id} h => ?_) fun {p} h => ?_
  · obtain ⟨i, hi, rfl⟩ := Option.map_eq_some_iff.1 h
    rw [hq.methods.findIdx? hi]
    rfl
  · rw [get_bind_apply, h]
    rfl
  · rw [get_bind_apply, h]
    refine .inl ⟨_, _, rfl, le_pushMethod p desc, ?_⟩
    rw [findIdx?_push_self (Option.map_eq_none_iff.1 h) htest]
    rfl

theorem internMethod_settles (definition : MethodId) (owner : TypeId) (args : List TypeId) :
    Settles (internMethod definition owner args) := by
  refine (ask_settles (methodDesc_stable definition)).bind fun desc => ?_
  refine Settles.ite (.pure _) ?_
  exact findOrAppend_settles (by simp)

theorem instantiateMethod_settles (id : MethodId) (args : List TypeId) :
    Settles (instantiateMethod id args) := by
  refine (ask_settles (methodDesc_stable id)).bind fun desc => ?_
  refine Settles.ite ?_ (Settles.ite ?_ (internMethod_settles _ _ _))
  · exact (ask_settles (methodName_stable id)).bind fun _ => .throw _
  · exact (ask_settles (methodName_stable id)).bind fun _ => .throw _

theorem internThunk_settles (owner : TypeId) (invokeArity : Nat) (kind : InvokeThunk) :
    Settles (internThunk owner invokeArity kind) :=
  findOrAppend_settles (by simp)

theorem methodOnType_settles (id : MethodId) (type : TypeId) :
    Settles (methodOnType id type) := by
  refine (ask_settles (methodDesc_stable id)).bind fun desc => ?_
  refine (ask_settles (methodDesc_stable _)).bind fun home => ?_
  refine (ask_settles (typeDefinition_stable type)).bind fun definition => ?_
  refine Settles.ite (internMethod_settles _ _ _) ?_
  refine (ask_settles (methodName_stable id)).bind fun method => ?_
  exact (ask_settles (typeName_stable type)).bind fun _ => .throw _

theorem canonicalType_settles (id : TypeId) : Settles (canonicalType id) := by
  suffices h : ∀ n (id : TypeId), id.index = n → Settles (canonicalType id) from h _ id rfl
  intro n
  induction n using Nat.strongRecOn with
  | _ n ih =>
    rintro id rfl
    rw [canonicalType]
    refine (ask_settles (typeDesc_stable id)).bind fun desc => ?_
    cases desc.origin with
    | declared => exact .pure _
    | derived definition args =>
      refine (Settles.mapM fun arg _ => ?_).bind fun canonical => ?_
      · refine (ask_settles (typeDesc_stable arg)).bind fun argDesc => ?_
        refine Settles.ite ?_ (.pure _)
        split
        · rename_i hlt
          exact ih arg.index hlt arg rfl
        · exact .throw _
      · exact Settles.ite (.pure _) (internType_settles _ _)

theorem canonicalArgument_settles (arg : TypeId) : Settles (canonicalArgument arg) :=
  (ask_settles (typeDesc_stable arg)).bind fun _ => .ite (canonicalType_settles arg) (.pure _)

theorem canonicalMethod_settles (id : MethodId) : Settles (canonicalMethod id) := by
  refine (ask_settles (methodDesc_stable id)).bind fun desc => ?_
  cases desc.origin with
  | declared => exact .pure _
  | thunk kind => exact .pure _
  | derived definition args =>
    refine (canonicalType_settles desc.owner).bind fun owner => ?_
    refine (Settles.mapM fun arg _ => canonicalArgument_settles arg).bind fun canonical => ?_
    exact Settles.ite (.pure _) (internMethod_settles _ _ _)

theorem delegateInfo_settles (type : TypeId) : Settles (delegateInfo type) := by
  refine (ask_settles (typeDefinition_stable type)).bind fun definition => ?_
  refine (ask_settles (typeDesc_stable definition)).bind fun desc => ?_
  cases desc.invokeArity? with
  | none => exact .throw _
  | some arity =>
    refine (internThunk_settles definition arity .openStatic).bind fun opened => ?_
    refine (internThunk_settles definition arity .closedStatic).bind fun closed => ?_
    split
    · refine ((internThunk_settles definition arity .reverseNative).map some).bind fun _ => ?_
      exact .pure _
    · exact (Settles.pure none).bind fun _ => .pure _

end ProgramM

end NativeImage
