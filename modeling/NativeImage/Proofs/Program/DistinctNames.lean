import NativeImage.Proofs.Program.Homes

/-!
# Programs whose names are distinct

Nothing keeps a program from declaring two entities of one name, or from naming an entity like an
instance of another one. Here is what the declarations of a program have to be like for names to
mean something: plain text, different in one place, and no method of a delegate is named like one of
its thunks. Instances and thunks that are added later leave such a program as it is.

What this does not promise is that instances have different names. An argument is shown by its name
alone, and a method of a generic type that is moved to an instance can meet one that is declared
there. So that is a condition of its own.

## Main definitions

- `Program.NamesPlain` — declarations are named by letters, digits, `_` and `.`
- `Program.NamesDistinct` — declarations of one place have different names
- `Program.InstancesDistinct` — instances of one definition have different names
- `Program.TypesDistinct` — no two modules declare types of one name
- `Program.MethodsOnDefinitions` — no methods are declared on instances

## Main statements

- `Program.NamesPlain.extend`, `Program.NamesDistinct.extend` — instances and thunks may be added
- `Program.NamesDistinct.method` — method definitions, thunks included, have different names
-/

namespace NativeImage

/-- Characters of the names of type definitions. -/
def isTypeNameChar (c : Char) : Bool := c.isAlphanum || c == '_' || c == '.'

namespace Program

variable {base p : Program}

/-! ## By position and by handle -/

theorem typeDesc_fin (i : Fin p.types.size) : p.typeDesc ⟨i⟩ = .ok p.types[i] :=
  typeDesc_eq_ok.2 (Array.getElem?_eq_getElem i.isLt)

theorem methodDesc_fin (i : Fin p.methods.size) : p.methodDesc ⟨i⟩ = .ok p.methods[i] :=
  methodDesc_eq_ok.2 (Array.getElem?_eq_getElem i.isLt)

theorem moduleDesc_eq_ok {id : ModuleId} {desc : ModuleDesc} :
    p.moduleDesc id = .ok desc ↔ p.modules[id.index]? = some desc := by
  rw [moduleDesc]
  cases p.modules[id.index]? <;> simp

theorem exists_module_index {id : ModuleId} {desc : ModuleDesc} (h : p.moduleDesc id = .ok desc) :
    ∃ i : Fin p.modules.size, id = ⟨i⟩ ∧ p.modules[i] = desc := by
  obtain ⟨hlt, hget⟩ := Array.getElem?_eq_some_iff.1 (moduleDesc_eq_ok.1 h)
  exact ⟨⟨id.index, hlt⟩, rfl, hget⟩

theorem exists_type_index {id : TypeId} {desc : TypeDesc} (h : p.typeDesc id = .ok desc) :
    ∃ i : Fin p.types.size, id = ⟨i⟩ ∧ p.types[i] = desc := by
  obtain ⟨hlt, hget⟩ := Array.getElem?_eq_some_iff.1 (typeDesc_eq_ok.1 h)
  exact ⟨⟨id.index, hlt⟩, rfl, hget⟩

theorem exists_method_index {id : MethodId} {desc : MethodDesc} (h : p.methodDesc id = .ok desc) :
    ∃ i : Fin p.methods.size, id = ⟨i⟩ ∧ p.methods[i] = desc := by
  obtain ⟨hlt, hget⟩ := Array.getElem?_eq_some_iff.1 (methodDesc_eq_ok.1 h)
  exact ⟨⟨id.index, hlt⟩, rfl, hget⟩

/-! ## Plain names -/

/-- Names of declarations have no brackets, commas or colons. -/
structure NamesPlain (p : Program) : Prop where
  types : ∀ i : Fin p.types.size, p.types[i].origin = .declared →
    p.types[i].name.toList.all isTypeNameChar = true
  methods : ∀ i : Fin p.methods.size, p.methods[i].origin = .declared →
    p.methods[i].name.toList.all Char.isAlphanum = true

instance (p : Program) : Decidable p.NamesPlain :=
  decidable_of_iff (_ ∧ _) ⟨fun h => ⟨h.1, h.2⟩, fun h => ⟨h.types, h.methods⟩⟩

/-- Declared types of an extension are in its base. -/
theorem Extension.typeDesc_fin (hp : Extension base p) {i : Fin p.types.size}
    (hi : p.types[i].origin = .declared) : base.typeDesc ⟨i⟩ = .ok p.types[i] :=
  hp.typeDesc_base (hp.hasType_of_declared (Program.typeDesc_fin i) hi) (Program.typeDesc_fin i)

/-- So are its declared methods. -/
theorem Extension.methodDesc_fin (hp : Extension base p) {i : Fin p.methods.size}
    (hi : p.methods[i].origin = .declared) : base.methodDesc ⟨i⟩ = .ok p.methods[i] :=
  hp.methodDesc_base (hp.hasMethod_of_declared (Program.methodDesc_fin i) hi)
    (Program.methodDesc_fin i)

namespace NamesPlain

theorem type (h : p.NamesPlain) {id : TypeId} {desc : TypeDesc} (hd : p.typeDesc id = .ok desc)
    (hdecl : desc.origin = .declared) : ∀ c ∈ desc.name.toList, isTypeNameChar c = true := by
  obtain ⟨i, rfl, rfl⟩ := exists_type_index hd
  exact List.all_eq_true.1 (h.types i hdecl)

theorem extend (h : base.NamesPlain) (hp : Extension base p) : p.NamesPlain where
  types i hdecl := List.all_eq_true.2 (h.type (hp.typeDesc_fin hdecl) hdecl)
  methods i hdecl := by
    obtain ⟨j, -, hj⟩ := exists_method_index (hp.methodDesc_fin hdecl)
    rw [← hj] at hdecl ⊢
    exact h.methods j hdecl

end NamesPlain

/-- A thunk is named after what it is for, and its owner is a delegate definition. -/
theorem WellFormed.thunk_name (hp : p.WellFormed) {id : MethodId} {desc : MethodDesc}
    (hd : p.methodDesc id = .ok desc) {kind : InvokeThunk} (ho : desc.origin = .thunk kind) :
    desc.name = kind.methodName := by
  obtain ⟨owner, arity, -, -, -, hdecl⟩ := (hp.method_ok hd).thunk ho
  rw [hdecl]

/-- A method definition is declared, or it is a thunk. -/
theorem origin_of_definition?_eq_none {desc : MethodDesc} (h : desc.definition? = none) :
    desc.origin = .declared ∨ ∃ kind, desc.origin = .thunk kind := by
  rw [MethodDesc.definition?] at h
  cases ho : desc.origin with
  | declared => exact .inl rfl
  | thunk kind => exact .inr ⟨kind, rfl⟩
  | derived definition args =>
    rw [ho] at h
    cases h

/-- Method instances have the name of their definition. -/
theorem WellFormed.exists_original_name (hp : p.WellFormed) {id : MethodId} {desc : MethodDesc}
    (hd : p.methodDesc id = .ok desc) :
    ∃ original, p.methodDesc (desc.definition?.getD id) = .ok original ∧
      original.definition? = none ∧ desc.name = original.name := by
  obtain ⟨original, horig, hnone, hdecl⟩ := hp.exists_original hd
  exact ⟨original, horig, hnone, by rw [hdecl]⟩

/-- Declared names are plain, so all are. -/
theorem NamesPlain.method (h : p.NamesPlain) (hp : p.WellFormed) {id : MethodId}
    {desc : MethodDesc} (hd : p.methodDesc id = .ok desc) :
    ∀ c ∈ desc.name.toList, c.isAlphanum = true := by
  obtain ⟨original, horig, hnone, hname⟩ := hp.exists_original_name hd
  rw [hname, ← List.all_eq_true]
  rcases origin_of_definition?_eq_none hnone with ho | ⟨kind, ho⟩
  · obtain ⟨i, -, rfl⟩ := exists_method_index horig
    exact h.methods i ho
  · rw [hp.thunk_name horig ho]
    cases kind <;> decide

/-! ## Distinct names -/

/-- Whether the type is the definition of a delegate, so that thunks can be among its methods. -/
def hasThunks (p : Program) (id : TypeId) : Except ProgramError Bool := do
  let desc ← p.typeDesc id
  return desc.definition?.isNone && desc.invokeArity?.isSome

theorem hasThunks_stable (id : TypeId) : Stable (·.hasThunks id) :=
  (typeDesc_stable id).bind fun _ => .pure _

/-- Modules, the type declarations of a module, and the method declarations of a type have different
names, and no method of a delegate is named like one of its thunks. -/
structure NamesDistinct (p : Program) : Prop where
  modules : ∀ i j : Fin p.modules.size, p.modules[i].name = p.modules[j].name → i = j
  types : ∀ i j : Fin p.types.size, p.types[i].origin = .declared →
    p.types[j].origin = .declared → p.types[i].module = p.types[j].module →
    p.types[i].name = p.types[j].name → i = j
  methods : ∀ i j : Fin p.methods.size, p.methods[i].origin = .declared →
    p.methods[j].origin = .declared → p.methods[i].owner = p.methods[j].owner →
    p.methods[i].name = p.methods[j].name → i = j
  thunks : ∀ i : Fin p.methods.size, p.methods[i].origin = .declared →
    p.hasThunks p.methods[i].owner = .ok true →
    ∀ kind ∈ InvokeThunk.all, p.methods[i].name ≠ kind.methodName

set_option synthInstance.maxSize 1000 in
instance (p : Program) : Decidable p.NamesDistinct :=
  decidable_of_iff (_ ∧ _ ∧ _ ∧ _)
    ⟨fun h => ⟨h.1, h.2.1, h.2.2.1, h.2.2.2⟩, fun h => ⟨h.modules, h.types, h.methods, h.thunks⟩⟩

namespace NamesDistinct

theorem module (h : p.NamesDistinct) {x y : ModuleId} {dx dy : ModuleDesc}
    (hx : p.moduleDesc x = .ok dx) (hy : p.moduleDesc y = .ok dy) (hname : dx.name = dy.name) :
    x = y := by
  obtain ⟨i, rfl, rfl⟩ := exists_module_index hx
  obtain ⟨j, rfl, rfl⟩ := exists_module_index hy
  rw [h.modules i j hname]

theorem type (h : p.NamesDistinct) {x y : TypeId} {dx dy : TypeDesc}
    (hx : p.typeDesc x = .ok dx) (hy : p.typeDesc y = .ok dy) (hdx : dx.origin = .declared)
    (hdy : dy.origin = .declared) (hmodule : dx.module = dy.module) (hname : dx.name = dy.name) :
    x = y := by
  obtain ⟨i, rfl, rfl⟩ := exists_type_index hx
  obtain ⟨j, rfl, rfl⟩ := exists_type_index hy
  rw [h.types i j hdx hdy hmodule hname]

theorem declared (h : p.NamesDistinct) {x y : MethodId} {dx dy : MethodDesc}
    (hx : p.methodDesc x = .ok dx) (hy : p.methodDesc y = .ok dy) (hdx : dx.origin = .declared)
    (hdy : dy.origin = .declared) (howner : dx.owner = dy.owner) (hname : dx.name = dy.name) :
    x = y := by
  obtain ⟨i, rfl, rfl⟩ := exists_method_index hx
  obtain ⟨j, rfl, rfl⟩ := exists_method_index hy
  rw [h.methods i j hdx hdy howner hname]

theorem thunk (h : p.NamesDistinct) {x : MethodId} {dx : MethodDesc}
    (hx : p.methodDesc x = .ok dx) (hdx : dx.origin = .declared)
    (howner : p.hasThunks dx.owner = .ok true) (kind : InvokeThunk) :
    dx.name ≠ kind.methodName := by
  obtain ⟨i, rfl, rfl⟩ := exists_method_index hx
  exact h.thunks i hdx howner kind (by cases kind <;> decide)

/-- Only declarations have to be looked at, and those are all in the base. -/
theorem extend (h : base.NamesDistinct) (hp : Extension base p) : p.NamesDistinct := by
  refine ⟨fun i j hname => ?_, fun i j hi hj hmodule hname => ?_,
    fun i j hi hj howner hname => ?_, fun i hi hthunks kind _ => ?_⟩
  · have hmodule (i : Fin p.modules.size) : base.moduleDesc ⟨i⟩ = .ok p.modules[i] := by
      rw [moduleDesc_eq_ok, ← hp.derives.modules]
      exact Array.getElem?_eq_getElem i.isLt
    exact Fin.ext (congrArg ModuleId.index (h.module (hmodule i) (hmodule j) hname))
  · exact Fin.ext (congrArg TypeId.index
      (h.type (hp.typeDesc_fin hi) (hp.typeDesc_fin hj) hi hj hmodule hname))
  · exact Fin.ext (congrArg MethodId.index
      (h.declared (hp.methodDesc_fin hi) (hp.methodDesc_fin hj) hi hj howner hname))
  · obtain ⟨owner, howner⟩ :=
      hasType_iff.1 (hp.base_ok.method_ok (hp.methodDesc_fin hi)).owner
    have hbase : base.hasThunks p.methods[i].owner =
        .ok (owner.definition?.isNone && owner.invokeArity?.isSome) := by
      rw [hasThunks, howner]
      rfl
    refine h.thunk (hp.methodDesc_fin hi) hi ?_ kind
    rw [hbase, ← hasThunks_stable _ _ _ hbase _ hp.derives.le]
    exact hthunks

/-- A declared method and a thunk of one type have different names. -/
theorem ne_thunk (h : p.NamesDistinct) (hp : p.WellFormed) {x y : MethodId} {dx dy : MethodDesc}
    {kind : InvokeThunk} (hx : p.methodDesc x = .ok dx) (hy : p.methodDesc y = .ok dy)
    (hdx : dx.origin = .declared) (hdy : dy.origin = .thunk kind) (howner : dx.owner = dy.owner) :
    dx.name ≠ dy.name := by
  obtain ⟨owner, arity, hd, hdecl, harity, -⟩ := (hp.method_ok hy).thunk hdy
  have hdef : owner.definition? = none := by rw [TypeDesc.definition?, hdecl]
  have hthunks : p.hasThunks dx.owner = .ok true := by
    rw [hasThunks, howner, hd]
    simp only [bind, Except.bind, pure, Except.pure, hdef, harity, Option.isNone_none,
      Option.isSome_some, Bool.and_self]
  rw [hp.thunk_name hy hdy]
  exact h.thunk hx hdx hthunks kind

/-- Method definitions of one type that have the same name are the same, thunks included. -/
theorem method (h : p.NamesDistinct) (hp : p.WellFormed) {x y : MethodId} {dx dy : MethodDesc}
    (hx : p.methodDesc x = .ok dx) (hy : p.methodDesc y = .ok dy) (hdx : dx.definition? = none)
    (hdy : dy.definition? = none) (howner : dx.owner = dy.owner) (hname : dx.name = dy.name) :
    x = y := by
  rcases origin_of_definition?_eq_none hdx with hox | ⟨kind, hox⟩
  · rcases origin_of_definition?_eq_none hdy with hoy | ⟨kind', hoy⟩
    · exact h.declared hx hy hox hoy howner hname
    · exact absurd hname (h.ne_thunk hp hx hy hox hoy howner)
  · rcases origin_of_definition?_eq_none hdy with hoy | ⟨kind', hoy⟩
    · exact absurd hname.symm (h.ne_thunk hp hy hx hoy hox howner.symm)
    · obtain rfl : kind = kind' := by
        rw [hp.thunk_name hx hox, hp.thunk_name hy hoy] at hname
        cases kind <;> cases kind' <;> first | rfl | exact absurd hname (by decide)
      refine hp.method_unique hx hy (hox.trans hoy.symm) howner ?_
      rw [hox]
      exact nofun

end NamesDistinct

/-! ## Distinct instances -/

/-- Instances of one type definition have different names, and an instance of a method differs from
the other methods of its owner in its name or in the names of its arguments. -/
structure InstancesDistinct (p : Program) : Prop where
  types : ∀ i j : Fin p.types.size, p.types[i].definition? ≠ none →
    p.types[i].definition? = p.types[j].definition? → p.types[i].name = p.types[j].name → i = j
  methods : ∀ i j : Fin p.methods.size, p.methods[i].definition? ≠ none →
    p.methods[i].owner = p.methods[j].owner → p.methods[i].name = p.methods[j].name →
    p.methods[i].args.mapM p.typeName = p.methods[j].args.mapM p.typeName → i = j

set_option synthInstance.maxSize 1000 in
instance (p : Program) : Decidable p.InstancesDistinct :=
  decidable_of_iff (_ ∧ _) ⟨fun h => ⟨h.1, h.2⟩, fun h => ⟨h.types, h.methods⟩⟩

namespace InstancesDistinct

theorem type (h : p.InstancesDistinct) {x y : TypeId} {dx dy : TypeDesc}
    (hx : p.typeDesc x = .ok dx) (hy : p.typeDesc y = .ok dy) (hne : dx.definition? ≠ none)
    (hdef : dx.definition? = dy.definition?) (hname : dx.name = dy.name) : x = y := by
  obtain ⟨i, rfl, rfl⟩ := exists_type_index hx
  obtain ⟨j, rfl, rfl⟩ := exists_type_index hy
  rw [h.types i j hne hdef hname]

theorem method (h : p.InstancesDistinct) {x y : MethodId} {dx dy : MethodDesc}
    (hx : p.methodDesc x = .ok dx) (hy : p.methodDesc y = .ok dy) (hne : dx.definition? ≠ none)
    (howner : dx.owner = dy.owner) (hname : dx.name = dy.name)
    (hargs : dx.args.mapM p.typeName = dy.args.mapM p.typeName) : x = y := by
  obtain ⟨i, rfl, rfl⟩ := exists_method_index hx
  obtain ⟨j, rfl, rfl⟩ := exists_method_index hy
  rw [h.methods i j hne howner hname hargs]

end InstancesDistinct

/-- No two types are declared with one name, not even by different modules. -/
def TypesDistinct (p : Program) : Prop :=
  ∀ i j : Fin p.types.size, p.types[i].origin = .declared → p.types[j].origin = .declared →
    p.types[i].name = p.types[j].name → i = j

instance (p : Program) : Decidable p.TypesDistinct :=
  inferInstanceAs (Decidable (∀ i j : Fin p.types.size, p.types[i].origin = .declared →
    p.types[j].origin = .declared → p.types[i].name = p.types[j].name → i = j))

namespace TypesDistinct

theorem type (h : p.TypesDistinct) {x y : TypeId} {dx dy : TypeDesc}
    (hx : p.typeDesc x = .ok dx) (hy : p.typeDesc y = .ok dy) (hdx : dx.origin = .declared)
    (hdy : dy.origin = .declared) (hname : dx.name = dy.name) : x = y := by
  obtain ⟨i, rfl, rfl⟩ := exists_type_index hx
  obtain ⟨j, rfl, rfl⟩ := exists_type_index hy
  rw [h i j hdx hdy hname]

theorem extend (h : base.TypesDistinct) (hp : Extension base p) : p.TypesDistinct := by
  intro i j hi hj hname
  exact Fin.ext (congrArg TypeId.index
    (h.type (hp.typeDesc_fin hi) (hp.typeDesc_fin hj) hi hj hname))

end TypesDistinct

/-- Methods are declared on definitions only, not on instances of generic types. -/
def MethodsOnDefinitions (p : Program) : Prop :=
  ∀ i : Fin p.methods.size, p.methods[i].origin = .declared →
    p.typeDefinition p.methods[i].owner = .ok p.methods[i].owner

instance (p : Program) : Decidable p.MethodsOnDefinitions :=
  inferInstanceAs (Decidable (∀ i : Fin p.methods.size, p.methods[i].origin = .declared →
    p.typeDefinition p.methods[i].owner = .ok p.methods[i].owner))

namespace MethodsOnDefinitions

theorem extend (h : base.MethodsOnDefinitions) (hp : Extension base p) :
    p.MethodsOnDefinitions := by
  intro i hi
  obtain ⟨j, -, hj⟩ := exists_method_index (hp.methodDesc_fin hi)
  rw [← hj] at hi ⊢
  exact typeDefinition_stable _ _ _ (h j hi) _ hp.derives.le

/-- So every method definition is on a type definition. -/
theorem owner (h : p.MethodsOnDefinitions) (hp : p.WellFormed) {id : MethodId} {desc : MethodDesc}
    (hd : p.methodDesc id = .ok desc) (hdef : desc.definition? = none) :
    p.typeDefinition desc.owner = .ok desc.owner := by
  rcases origin_of_definition?_eq_none hdef with ho | ⟨kind, ho⟩
  · obtain ⟨i, rfl, rfl⟩ := exists_method_index hd
    exact h i ho
  · obtain ⟨owner, arity, howner, hdecl, -⟩ := (hp.method_ok hd).thunk ho
    refine typeDefinition_eq_ok.2 ⟨owner, howner, ?_⟩
    rw [TypeDesc.definition?, hdecl]
    rfl

end MethodsOnDefinitions

end Program

end NativeImage
