import NativeImage.Proofs.Program.Growth

/-!
# Well-formed programs

What holds of the tables of every program that was built by its own operations: an instance comes
after its definition and its arguments, it is described by them, and nothing is there twice.

## Main definitions

- `Program.WellFormed` — the invariant
- `Program.Derives` — programs that differ by derived entries only

## Main statements

- `ProgramM.internType_spec`, `ProgramM.internMethod_spec`, `ProgramM.internThunk_spec` — interning
  keeps programs well-formed
-/

namespace NativeImage

namespace Program

/-! ## Existing handles -/

def HasModule (p : Program) (id : ModuleId) : Prop := id.index < p.modules.size

def HasType (p : Program) (id : TypeId) : Prop := id.index < p.types.size

def HasMethod (p : Program) (id : MethodId) : Prop := id.index < p.methods.size

instance (p : Program) (id : ModuleId) : Decidable (p.HasModule id) :=
  inferInstanceAs (Decidable (_ < _))

instance (p : Program) (id : TypeId) : Decidable (p.HasType id) :=
  inferInstanceAs (Decidable (_ < _))

instance (p : Program) (id : MethodId) : Decidable (p.HasMethod id) :=
  inferInstanceAs (Decidable (_ < _))

variable {p q : Program}

theorem HasModule.mono {id : ModuleId} (h : p.HasModule id) (hpq : p ≤ q) : q.HasModule id :=
  Nat.lt_of_lt_of_le h hpq.modules.size_le

theorem HasType.mono {id : TypeId} (h : p.HasType id) (hpq : p ≤ q) : q.HasType id :=
  Nat.lt_of_lt_of_le h hpq.types.size_le

theorem HasMethod.mono {id : MethodId} (h : p.HasMethod id) (hpq : p ≤ q) : q.HasMethod id :=
  Nat.lt_of_lt_of_le h hpq.methods.size_le

theorem HasModule.exists_desc {id : ModuleId} (h : p.HasModule id) :
    ∃ desc, p.moduleDesc id = .ok desc := by
  have hlt : id.index < p.modules.size := h
  refine ⟨p.modules[id.index], ?_⟩
  rw [moduleDesc, Array.getElem?_eq_getElem hlt]

theorem hasType_iff {id : TypeId} : p.HasType id ↔ ∃ desc, p.typeDesc id = .ok desc := by
  constructor
  · intro h
    have hlt : id.index < p.types.size := h
    exact ⟨p.types[id.index], typeDesc_eq_ok.2 (Array.getElem?_eq_getElem hlt)⟩
  · rintro ⟨desc, h⟩
    obtain ⟨hlt, -⟩ := Array.getElem?_eq_some_iff.1 (typeDesc_eq_ok.1 h)
    exact hlt

theorem hasMethod_iff {id : MethodId} : p.HasMethod id ↔ ∃ desc, p.methodDesc id = .ok desc := by
  constructor
  · intro h
    have hlt : id.index < p.methods.size := h
    exact ⟨p.methods[id.index], methodDesc_eq_ok.2 (Array.getElem?_eq_getElem hlt)⟩
  · rintro ⟨desc, h⟩
    obtain ⟨hlt, -⟩ := Array.getElem?_eq_some_iff.1 (methodDesc_eq_ok.1 h)
    exact hlt

theorem hasType_of_desc {id : TypeId} {desc : TypeDesc} (h : p.typeDesc id = .ok desc) :
    p.HasType id := hasType_iff.2 ⟨desc, h⟩

theorem hasMethod_of_desc {id : MethodId} {desc : MethodDesc} (h : p.methodDesc id = .ok desc) :
    p.HasMethod id := hasMethod_iff.2 ⟨desc, h⟩

/-! ## The invariant -/

/-- What holds of a type: it is in a module, and if it is an instance, its definition is a generic
declaration of as many parameters as there are arguments, the definition and the arguments are
older, and they make up its description. -/
structure TypeOk (p : Program) (id : TypeId) (desc : TypeDesc) : Prop where
  module : p.HasModule desc.module
  derived : ∀ {definition args}, desc.origin = .derived definition args →
    (∃ original, p.typeDesc definition = .ok original ∧ original.origin = .declared ∧
      original.genericArity = args.length) ∧ args ≠ [] ∧ definition.index < id.index ∧
    (∀ arg ∈ args, arg.index < id.index) ∧ p.typeInstance definition args = .ok desc

/-- What holds of a method: its owner is there, a thunk is that of a delegate definition, and an
instance is its definition on another owner or with arguments. -/
structure MethodOk (p : Program) (id : MethodId) (desc : MethodDesc) : Prop where
  owner : p.HasType desc.owner
  thunk : ∀ {kind}, desc.origin = .thunk kind → ∃ owner arity,
    p.typeDesc desc.owner = .ok owner ∧ owner.origin = .declared ∧
      owner.invokeArity? = some arity ∧
      desc.toMethodDeclaration =
        { name := kind.methodName, owner := desc.owner, paramCount := arity }
  derived : ∀ {definition args}, desc.origin = .derived definition args →
    definition.index < id.index ∧ (∀ arg ∈ args, p.HasType arg) ∧
    ∃ original, p.methodDesc definition = .ok original ∧ original.definition? = none ∧
      desc.toMethodDeclaration = { original.toMethodDeclaration with owner := desc.owner } ∧
      ¬ (desc.owner = original.owner ∧ args = [])

theorem TypeOk.mono {id : TypeId} {desc : TypeDesc} (h : p.TypeOk id desc) (hpq : p ≤ q) :
    q.TypeOk id desc where
  module := h.module.mono hpq
  derived ho := by
    obtain ⟨⟨original, hd, hdecl, hlen⟩, hne, hlt, hargs, hinst⟩ := h.derived ho
    exact ⟨⟨original, typeDesc_stable _ _ _ hd _ hpq, hdecl, hlen⟩, hne, hlt, hargs,
      typeInstance_stable _ _ _ _ hinst _ hpq⟩

theorem MethodOk.mono {id : MethodId} {desc : MethodDesc} (h : p.MethodOk id desc)
    (hpq : p ≤ q) : q.MethodOk id desc where
  owner := h.owner.mono hpq
  thunk ho := by
    obtain ⟨owner, arity, hd, hrest⟩ := h.thunk ho
    exact ⟨owner, arity, typeDesc_stable _ _ _ hd _ hpq, hrest⟩
  derived ho := by
    obtain ⟨hlt, hargs, original, hd, hrest⟩ := h.derived ho
    exact ⟨hlt, fun arg ha => (hargs arg ha).mono hpq, original,
      methodDesc_stable _ _ _ hd _ hpq, hrest⟩

/-- The invariant of programs. -/
structure WellFormed (p : Program) : Prop where
  initial_le : initial ≤ p
  type_ok : ∀ {id desc}, p.typeDesc id = .ok desc → p.TypeOk id desc
  type_unique : ∀ {id other desc found}, p.typeDesc id = .ok desc → p.typeDesc other = .ok found →
    desc.origin = found.origin → desc.origin ≠ .declared → id = other
  method_ok : ∀ {id desc}, p.methodDesc id = .ok desc → p.MethodOk id desc
  method_unique : ∀ {id other desc found}, p.methodDesc id = .ok desc →
    p.methodDesc other = .ok found → desc.origin = found.origin → desc.owner = found.owner →
    desc.origin ≠ .declared → id = other

/-! ## Derived entries -/

/-- The second program extends the first by derived entries only. -/
structure Derives (p q : Program) : Prop where
  le : p ≤ q
  modules : q.modules = p.modules
  types : ∀ {id desc}, q.typeDesc id = .ok desc → p.types.size ≤ id.index →
    desc.origin ≠ .declared
  methods : ∀ {id desc}, q.methodDesc id = .ok desc → p.methods.size ≤ id.index →
    desc.origin ≠ .declared

theorem Derives.refl (p : Program) : Derives p p where
  le := le_rfl
  modules := rfl
  types h hle := by
    have hlt := hasType_of_desc h
    exact absurd hlt (Nat.not_lt.2 hle)
  methods h hle := by
    have hlt := hasMethod_of_desc h
    exact absurd hlt (Nat.not_lt.2 hle)

/-- An entry that the older program has is the same in the newer one. -/
theorem typeDesc_of_le {id : TypeId} {desc : TypeDesc} (hpq : p ≤ q) (hid : p.HasType id)
    (h : q.typeDesc id = .ok desc) : p.typeDesc id = .ok desc := by
  obtain ⟨old, hold⟩ := hasType_iff.1 hid
  have hsame := (typeDesc_stable _ _ _ hold _ hpq).symm.trans h
  rw [hold]
  exact hsame

theorem methodDesc_of_le {id : MethodId} {desc : MethodDesc} (hpq : p ≤ q)
    (hid : p.HasMethod id) (h : q.methodDesc id = .ok desc) : p.methodDesc id = .ok desc := by
  obtain ⟨old, hold⟩ := hasMethod_iff.1 hid
  have hsame := (methodDesc_stable _ _ _ hold _ hpq).symm.trans h
  rw [hold]
  exact hsame

theorem Derives.trans {r : Program} (hpq : Derives p q) (hqr : Derives q r) : Derives p r where
  le := hpq.le.trans hqr.le
  modules := hqr.modules.trans hpq.modules
  types {id desc} h hle := by
    by_cases hid : q.HasType id
    · exact hpq.types (typeDesc_of_le hqr.le hid h) hle
    · exact hqr.types h (Nat.not_lt.1 hid)
  methods {id desc} h hle := by
    by_cases hid : q.HasMethod id
    · exact hpq.methods (methodDesc_of_le hqr.le hid h) hle
    · exact hqr.methods h (Nat.not_lt.1 hid)

/-! ## Appending -/

variable {p : Program}

theorem typeDesc_push {desc found : TypeDesc} {id : TypeId} :
    typeDesc { p with types := p.types.push desc } id = .ok found ↔
      p.typeDesc id = .ok found ∨ (id = ⟨p.types.size⟩ ∧ found = desc) := by
  rw [typeDesc_eq_ok, typeDesc_eq_ok]
  show (p.types.push desc)[id.index]? = some found ↔ _
  rw [Array.getElem?_push]
  by_cases h : id.index = p.types.size
  · have hnone : p.types[id.index]? = none := by
      rw [Array.getElem?_eq_none_iff]
      omega
    have hid : id = ⟨p.types.size⟩ := by
      cases id
      exact congrArg TypeId.mk h
    simp [hid, eq_comm]
  · have hid : id ≠ ⟨p.types.size⟩ := fun heq => h (congrArg TypeId.index heq)
    simp [h, hid]

theorem methodDesc_push {desc found : MethodDesc} {id : MethodId} :
    methodDesc { p with methods := p.methods.push desc } id = .ok found ↔
      p.methodDesc id = .ok found ∨ (id = ⟨p.methods.size⟩ ∧ found = desc) := by
  rw [methodDesc_eq_ok, methodDesc_eq_ok]
  show (p.methods.push desc)[id.index]? = some found ↔ _
  rw [Array.getElem?_push]
  by_cases h : id.index = p.methods.size
  · have hnone : p.methods[id.index]? = none := by
      rw [Array.getElem?_eq_none_iff]
      omega
    have hid : id = ⟨p.methods.size⟩ := by
      cases id
      exact congrArg MethodId.mk h
    simp [hid, eq_comm]
  · have hid : id ≠ ⟨p.methods.size⟩ := fun heq => h (congrArg MethodId.index heq)
    simp [h, hid]

/-- A type that fits in and is not there yet may be appended. -/
theorem WellFormed.pushType (hp : p.WellFormed) {desc : TypeDesc}
    (hok : p.TypeOk ⟨p.types.size⟩ desc)
    (hfresh : desc.origin ≠ .declared → ∀ {id found}, p.typeDesc id = .ok found →
      found.origin ≠ desc.origin) : WellFormed { p with types := p.types.push desc } := by
  have hle := ProgramM.le_pushType p desc
  refine ⟨hp.initial_le.trans hle, fun {id found} h => ?_,
    fun {id other first second} h h' ho hne => ?_,
    fun {id found} h => (hp.method_ok h).mono hle, hp.method_unique⟩
  · rcases typeDesc_push.1 h with hold | ⟨rfl, rfl⟩
    · exact (hp.type_ok hold).mono hle
    · exact hok.mono hle
  · rcases typeDesc_push.1 h with hold | ⟨rfl, rfl⟩
    · rcases typeDesc_push.1 h' with hold' | ⟨rfl, rfl⟩
      · exact hp.type_unique hold hold' ho hne
      · exact absurd ho (hfresh (ho ▸ hne) hold)
    · rcases typeDesc_push.1 h' with hold' | ⟨rfl, rfl⟩
      · exact absurd ho.symm (hfresh hne hold')
      · rfl

/-- A method that fits in and is not there yet may be appended. -/
theorem WellFormed.pushMethod (hp : p.WellFormed) {desc : MethodDesc}
    (hok : p.MethodOk ⟨p.methods.size⟩ desc)
    (hfresh : desc.origin ≠ .declared → ∀ {id found}, p.methodDesc id = .ok found →
      found.origin = desc.origin → found.owner ≠ desc.owner) :
    WellFormed { p with methods := p.methods.push desc } := by
  have hle := ProgramM.le_pushMethod p desc
  refine ⟨hp.initial_le.trans hle, fun {id found} h => (hp.type_ok h).mono hle, hp.type_unique,
    fun {id found} h => ?_, fun {id other first second} h h' ho hw hne => ?_⟩
  · rcases methodDesc_push.1 h with hold | ⟨rfl, rfl⟩
    · exact (hp.method_ok hold).mono hle
    · exact hok.mono hle
  · rcases methodDesc_push.1 h with hold | ⟨rfl, rfl⟩
    · rcases methodDesc_push.1 h' with hold' | ⟨rfl, rfl⟩
      · exact hp.method_unique hold hold' ho hw hne
      · exact absurd hw (hfresh (ho ▸ hne) hold ho)
    · rcases methodDesc_push.1 h' with hold' | ⟨rfl, rfl⟩
      · exact absurd hw.symm (hfresh hne hold' ho.symm)
      · rfl

theorem derives_pushType {desc : TypeDesc} (h : desc.origin ≠ .declared) :
    Derives p { p with types := p.types.push desc } where
  le := ProgramM.le_pushType p desc
  modules := rfl
  types hd hle := by
    rcases typeDesc_push.1 hd with hold | ⟨-, rfl⟩
    · exact absurd (hasType_of_desc hold) (Nat.not_lt.2 hle)
    · exact h
  methods hd hle := absurd (hasMethod_of_desc hd) (Nat.not_lt.2 hle)

theorem derives_pushMethod {desc : MethodDesc} (h : desc.origin ≠ .declared) :
    Derives p { p with methods := p.methods.push desc } where
  le := ProgramM.le_pushMethod p desc
  modules := rfl
  types hd hle := absurd (hasType_of_desc hd) (Nat.not_lt.2 hle)
  methods hd hle := by
    rcases methodDesc_push.1 hd with hold | ⟨-, rfl⟩
    · exact absurd (hasMethod_of_desc hold) (Nat.not_lt.2 hle)
    · exact h

/-! ## Interning -/

/-- The type is an instance of the definition for these arguments. -/
def TypeInstance (p : Program) (id definition : TypeId) (args : List TypeId) : Prop :=
  ∃ desc, p.typeDesc id = .ok desc ∧ desc.origin = .derived definition args

/-- The method is an instance of the definition, or the definition itself if that is what the owner
and the arguments ask for. -/
def MethodInstance (p : Program) (id definition : MethodId) (owner : TypeId)
    (args : List TypeId) : Prop :=
  ∃ original, p.methodDesc definition = .ok original ∧
    if owner = original.owner ∧ args = [] then id = definition
    else ∃ desc, p.methodDesc id = .ok desc ∧ desc.origin = .derived definition args ∧
      desc.owner = owner

/-- If all answers exist on both sides and agree, so do the lists of answers. -/
theorem mapM_of_forall₂ {α β γ ε : Type} {f : α → Except ε γ} {g : β → Except ε γ} {as : List α}
    {bs : List β} (h : List.Forall₂ (fun a b => ∃ c, f a = .ok c ∧ g b = .ok c) as bs) :
    ∃ cs, as.mapM f = .ok cs ∧ bs.mapM g = .ok cs := by
  induction h with
  | nil => exact ⟨[], rfl, rfl⟩
  | cons hab hrest ih =>
    obtain ⟨c, hf, hg⟩ := hab
    obtain ⟨cs, hfs, hgs⟩ := ih
    refine ⟨c :: cs, ?_, ?_⟩
    · rw [List.mapM_cons, hf, hfs]
      rfl
    · rw [List.mapM_cons, hg, hgs]
      rfl

theorem exists_typeName {id : TypeId} (h : p.HasType id) : ∃ name, p.typeName id = .ok name := by
  obtain ⟨desc, hd⟩ := hasType_iff.1 h
  exact ⟨desc.name, by rw [typeName, hd]; rfl⟩

theorem exists_argumentList {args : List TypeId} (h : ∀ arg ∈ args, p.HasType arg) :
    ∃ list, p.argumentList args = .ok list := by
  obtain ⟨names, hn, -⟩ := mapM_of_forall₂ (f := p.typeName) (g := p.typeName)
    (List.forall₂_same.2 fun arg ha => (exists_typeName (h arg ha)).imp fun _ hn => ⟨hn, hn⟩)
  exact ⟨_, by rw [argumentList, hn]; rfl⟩

/-- An instance shares everything with its definition but the name. -/
theorem typeInstance_eq_ok {definition : TypeId} {args : List TypeId} {desc : TypeDesc} :
    p.typeInstance definition args = .ok desc ↔ ∃ original list,
      p.typeDesc definition = .ok original ∧ p.argumentList args = .ok list ∧
        desc = ⟨{ original.toTypeDeclaration with name := original.name ++ list },
          .derived definition args⟩ := by
  rw [typeInstance]
  cases hd : p.typeDesc definition with
  | error e => simp [bind, Except.bind]
  | ok original =>
    cases hl : p.argumentList args with
    | error e => simp [bind, Except.bind]
    | ok list => simp [bind, Except.bind, pure, Except.pure, eq_comm]

theorem findType?_spec {definition : TypeId} {args : List TypeId} {id : TypeId}
    (h : p.findType? definition args = some id) : p.TypeInstance id definition args := by
  obtain ⟨i, hi, rfl⟩ := Option.map_eq_some_iff.1 h
  obtain ⟨hlt, ho, -⟩ := Array.findIdx?_eq_some_iff_getElem.1 hi
  exact ⟨p.types[i], typeDesc_eq_ok.2 (Array.getElem?_eq_getElem hlt), by simpa using ho⟩

theorem origin_ne_of_findType? {definition : TypeId} {args : List TypeId}
    (h : p.findType? definition args = none) {id : TypeId} {desc : TypeDesc}
    (hd : p.typeDesc id = .ok desc) : desc.origin ≠ .derived definition args := by
  have hnone := Array.findIdx?_eq_none_iff.1 (Option.map_eq_none_iff.1 h)
  intro ho
  have hfalse := hnone desc (Array.mem_of_getElem? (typeDesc_eq_ok.1 hd))
  simp [ho] at hfalse

theorem findMethod?_spec {definition : MethodId} {owner : TypeId} {args : List TypeId}
    {id : MethodId} (h : p.findMethod? definition owner args = some id) :
    ∃ desc, p.methodDesc id = .ok desc ∧ desc.origin = .derived definition args ∧
      desc.owner = owner := by
  obtain ⟨i, hi, rfl⟩ := Option.map_eq_some_iff.1 h
  obtain ⟨hlt, ho, -⟩ := Array.findIdx?_eq_some_iff_getElem.1 hi
  exact ⟨p.methods[i], methodDesc_eq_ok.2 (Array.getElem?_eq_getElem hlt), by simpa using ho⟩

theorem owner_ne_of_findMethod? {definition : MethodId} {owner : TypeId} {args : List TypeId}
    (h : p.findMethod? definition owner args = none) {id : MethodId} {desc : MethodDesc}
    (hd : p.methodDesc id = .ok desc) (ho : desc.origin = .derived definition args) :
    desc.owner ≠ owner := by
  have hnone := Array.findIdx?_eq_none_iff.1 (Option.map_eq_none_iff.1 h)
  intro hw
  have hfalse := hnone desc (Array.mem_of_getElem? (methodDesc_eq_ok.1 hd))
  simp [ho, hw] at hfalse

theorem findThunk?_spec {owner : TypeId} {kind : InvokeThunk} {id : MethodId}
    (h : p.findThunk? owner kind = some id) :
    ∃ desc, p.methodDesc id = .ok desc ∧ desc.origin = .thunk kind ∧ desc.owner = owner := by
  obtain ⟨i, hi, rfl⟩ := Option.map_eq_some_iff.1 h
  obtain ⟨hlt, ho, -⟩ := Array.findIdx?_eq_some_iff_getElem.1 hi
  exact ⟨p.methods[i], methodDesc_eq_ok.2 (Array.getElem?_eq_getElem hlt), by simpa using ho⟩

theorem owner_ne_of_findThunk? {owner : TypeId} {kind : InvokeThunk}
    (h : p.findThunk? owner kind = none) {id : MethodId} {desc : MethodDesc}
    (hd : p.methodDesc id = .ok desc) (ho : desc.origin = .thunk kind) : desc.owner ≠ owner := by
  have hnone := Array.findIdx?_eq_none_iff.1 (Option.map_eq_none_iff.1 h)
  intro hw
  have hfalse := hnone desc (Array.mem_of_getElem? (methodDesc_eq_ok.1 hd))
  simp [ho, hw] at hfalse

end Program

namespace ProgramM

open Program

variable {p : Program}

/-- A generic definition can be applied to as many arguments as it takes. -/
theorem internType_spec (hp : p.WellFormed) {definition : TypeId} {args : List TypeId}
    {original : TypeDesc} (hd : p.typeDesc definition = .ok original)
    (hdecl : original.origin = .declared) (hlen : original.genericArity = args.length)
    (hne : args ≠ []) (hargs : ∀ arg ∈ args, p.HasType arg) :
    ∃ id q, internType definition args p = .ok id q ∧ q.WellFormed ∧ p.Derives q ∧
      q.TypeInstance id definition args := by
  rw [internType_apply]
  cases hfind : p.findType? definition args with
  | some id => exact ⟨id, p, rfl, hp, .refl p, findType?_spec hfind⟩
  | none =>
    obtain ⟨list, hlist⟩ := exists_argumentList hargs
    have hinst : p.typeInstance definition args =
        .ok ⟨{ original.toTypeDeclaration with name := original.name ++ list },
          .derived definition args⟩ :=
      typeInstance_eq_ok.2 ⟨original, list, hd, hlist, rfl⟩
    rw [hinst]
    refine ⟨_, _, rfl, hp.pushType ⟨(hp.type_ok hd).module, fun ho => ?_⟩ fun _ {id found} hf => ?_,
      derives_pushType (by simp), _, typeDesc_push.2 (.inr ⟨rfl, rfl⟩), rfl⟩
    · cases ho
      exact ⟨⟨original, hd, hdecl, hlen⟩, hne, hasType_of_desc hd, hargs, hinst⟩
    · exact origin_ne_of_findType? hfind hf

/-- A method instance is the definition itself, or is found, or appended if there is none. -/
theorem internMethod_apply {definition : MethodId} {owner : TypeId} {args : List TypeId}
    {original : MethodDesc} (hd : p.methodDesc definition = .ok original) :
    internMethod definition owner args p =
      if owner = original.owner ∧ args = [] then .ok definition p
      else match p.findMethod? definition owner args with
        | some id => .ok id p
        | none => appendMethod
          ⟨{ original.toMethodDeclaration with owner }, .derived definition args⟩ p := by
  rw [internMethod, bind_apply, ask, hd]
  simp only
  split
  · rfl
  · rw [get_bind_apply]
    cases p.findMethod? definition owner args <;> rfl

/-- A method definition can be put on any owner with any arguments. -/
theorem internMethod_spec (hp : p.WellFormed) {definition : MethodId} {owner : TypeId}
    {args : List TypeId} {original : MethodDesc} (hd : p.methodDesc definition = .ok original)
    (hdef : original.definition? = none) (howner : p.HasType owner)
    (hargs : ∀ arg ∈ args, p.HasType arg) :
    ∃ id q, internMethod definition owner args p = .ok id q ∧ q.WellFormed ∧ p.Derives q ∧
      q.MethodInstance id definition owner args := by
  rw [internMethod_apply hd]
  by_cases hself : owner = original.owner ∧ args = []
  · rw [if_pos hself]
    exact ⟨definition, p, rfl, hp, .refl p, original, hd, by rw [if_pos hself]⟩
  · rw [if_neg hself]
    cases hfind : p.findMethod? definition owner args with
    | some id =>
      refine ⟨id, p, rfl, hp, .refl p, original, hd, ?_⟩
      rw [if_neg hself]
      exact findMethod?_spec hfind
    | none =>
      refine ⟨_, _, rfl, hp.pushMethod ⟨howner, fun ho => ?_, fun ho => ?_⟩
        fun _ {id found} hf ho => ?_, derives_pushMethod (by simp), original,
        methodDesc_push.2 (.inl hd), ?_⟩
      · cases ho
      · cases ho
        exact ⟨hasMethod_of_desc hd, hargs, original, hd, hdef, rfl, hself⟩
      · exact owner_ne_of_findMethod? hfind hf ho
      · rw [if_neg hself]
        exact ⟨_, methodDesc_push.2 (.inr ⟨rfl, rfl⟩), rfl, rfl⟩

/-- Every delegate definition can have its thunks. -/
theorem internThunk_spec (hp : p.WellFormed) {owner : TypeId} {desc : TypeDesc} {arity : Nat}
    (hd : p.typeDesc owner = .ok desc) (hdecl : desc.origin = .declared)
    (harity : desc.invokeArity? = some arity) (kind : InvokeThunk) :
    ∃ id q, internThunk owner arity kind p = .ok id q ∧ q.WellFormed ∧ p.Derives q ∧
      ∃ thunk, q.methodDesc id = .ok thunk ∧ thunk.origin = .thunk kind ∧
        thunk.owner = owner := by
  rw [internThunk, get_bind_apply]
  cases hfind : p.findThunk? owner kind with
  | some id => exact ⟨id, p, rfl, hp, .refl p, findThunk?_spec hfind⟩
  | none =>
    refine ⟨_, _, rfl, hp.pushMethod ⟨hasType_of_desc hd, fun ho => ?_, fun ho => ?_⟩
      fun _ {id found} hf ho => ?_, derives_pushMethod (by simp), _,
      methodDesc_push.2 (.inr ⟨rfl, rfl⟩), rfl, rfl⟩
    · cases ho
      exact ⟨desc, arity, hd, hdecl, harity, rfl⟩
    · cases ho
    · exact owner_ne_of_findThunk? hfind hf ho

end ProgramM

end NativeImage
