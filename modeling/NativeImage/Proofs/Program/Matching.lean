import NativeImage.Proofs.Agreement
import NativeImage.Proofs.Program.WellFormed

/-!
# Programs that extend the same base

Two programs that derive different instances from one base number them differently. A type of one
*matches* a type of the other if both are the same type of the base, or instances of one definition
for matching arguments; likewise for methods. Matching is one to one, and matching handles get the
same answers to every question about names, owners and sharing.

## Main definitions

- `Program.Extension` — well-formed programs that derive from the base
- `Program.TypeMatch`, `Program.MethodMatch` — handles that mean the same

## Main statements

- `Program.TypeMatch.unique`, `Program.MethodMatch.unique` — matching is one to one
- `Program.TypeMatch.of_instance`, `Program.MethodMatch.of_instance` — instances of what matches
  match
-/

namespace NativeImage

namespace Program

/-- A well-formed program that has nothing of its own but derived entries. -/
structure Extension (base p : Program) : Prop where
  base_ok : base.WellFormed
  wellFormed : p.WellFormed
  derives : base.Derives p

variable {base p q p' q' : Program}

theorem Extension.refl (h : base.WellFormed) : Extension base base := ⟨h, h, .refl base⟩

/-- Only the base declares types. -/
theorem Extension.hasType_of_declared (hp : Extension base p) {id : TypeId} {desc : TypeDesc}
    (hd : p.typeDesc id = .ok desc) (ho : desc.origin = .declared) : base.HasType id := by
  by_contra hb
  exact hp.derives.types hd (Nat.not_lt.1 hb) ho

theorem Extension.typeDesc_base (hp : Extension base p) {id : TypeId} (hb : base.HasType id)
    {desc : TypeDesc} (hd : p.typeDesc id = .ok desc) : base.typeDesc id = .ok desc :=
  typeDesc_of_le hp.derives.le hb hd

theorem Extension.methodDesc_base (hp : Extension base p) {id : MethodId}
    (hb : base.HasMethod id) {desc : MethodDesc} (hd : p.methodDesc id = .ok desc) :
    base.methodDesc id = .ok desc :=
  methodDesc_of_le hp.derives.le hb hd

/-- What a type of the base is applied to is in the base. -/
theorem WellFormed.hasType_arg (hp : p.WellFormed) {id definition : TypeId} {args : List TypeId}
    {desc : TypeDesc} (hd : p.typeDesc id = .ok desc) (ho : desc.origin = .derived definition args)
    {arg : TypeId} (ha : arg ∈ args) : p.HasType arg := by
  obtain ⟨-, -, -, hargs, -⟩ := (hp.type_ok hd).derived ho
  exact Nat.lt_trans (hargs arg ha) (hasType_of_desc hd)

/-- Lists are equal if their members are the only match of the same members of a third. -/
theorem forall₂_eq_of_unique {α β : Type} {R : α → β → Prop} {as : List α} {bs cs : List β}
    (h : List.Forall₂ (fun a b => ∀ {c}, R a c → b = c) as bs) (h' : List.Forall₂ R as cs) :
    bs = cs := by
  induction h generalizing cs with
  | nil =>
    cases h'
    rfl
  | cons hab _ ih =>
    cases h' with
    | cons hac hrest => rw [hab hac, ih hrest]

/-! ## Types -/

/-- Types of two programs that mean the same. -/
inductive TypeMatch (base p q : Program) : TypeId → TypeId → Prop
  | same {id : TypeId} (h : base.HasType id) : TypeMatch base p q id id
  | derived {x y definition : TypeId} {dx dy : TypeDesc} {args args' : List TypeId}
    (hx : p.typeDesc x = .ok dx) (hy : q.typeDesc y = .ok dy)
    (hox : dx.origin = .derived definition args) (hoy : dy.origin = .derived definition args')
    (hbx : ¬ base.HasType x) (hby : ¬ base.HasType y) (hlen : args.length = args'.length)
    (hargs : ∀ pair ∈ args.zip args', TypeMatch base p q pair.1 pair.2) : TypeMatch base p q x y

namespace TypeMatch

theorem of_forall₂ {x y definition : TypeId} {dx dy : TypeDesc} {args args' : List TypeId}
    (hx : p.typeDesc x = .ok dx) (hy : q.typeDesc y = .ok dy)
    (hox : dx.origin = .derived definition args) (hoy : dy.origin = .derived definition args')
    (hbx : ¬ base.HasType x) (hby : ¬ base.HasType y)
    (hargs : List.Forall₂ (TypeMatch base p q) args args') : TypeMatch base p q x y := by
  obtain ⟨hlen, hzip⟩ := List.forall₂_iff_zip.1 hargs
  exact .derived hx hy hox hoy hbx hby hlen fun pair hm => hzip hm

/-- Induction with the arguments taken together. -/
@[elab_as_elim]
theorem argsInduction {P : ∀ x y, TypeMatch base p q x y → Prop}
    (same : ∀ {id} (h : base.HasType id), P id id (.same h))
    (derived : ∀ {x y definition dx dy args args'} (hx : p.typeDesc x = .ok dx)
      (hy : q.typeDesc y = .ok dy) (hox : dx.origin = .derived definition args)
      (hoy : dy.origin = .derived definition args') (hbx : ¬ base.HasType x)
      (hby : ¬ base.HasType y) (hargs : List.Forall₂ (TypeMatch base p q) args args')
      (_ih : List.Forall₂ (fun a b => ∃ h, P a b h) args args'),
      P x y (of_forall₂ hx hy hox hoy hbx hby hargs))
    {x y : TypeId} (h : TypeMatch base p q x y) : P x y h := by
  induction h with
  | same h => exact same h
  | derived hx hy hox hoy hbx hby hlen hargs ih =>
    refine derived hx hy hox hoy hbx hby (List.forall₂_iff_zip.2 ⟨hlen, fun hm => hargs _ hm⟩) ?_
    exact List.forall₂_iff_zip.2 ⟨hlen, fun hm => ⟨hargs _ hm, ih _ hm⟩⟩

theorem symm {x y : TypeId} (h : TypeMatch base p q x y) : TypeMatch base q p y x := by
  induction h using argsInduction with
  | same h => exact .same h
  | derived hx hy hox hoy hbx hby hargs ih =>
    refine of_forall₂ hy hx hoy hox hby hbx (List.Forall₂.flip ?_)
    exact ih.imp fun _ _ h => h.2

theorem forall₂_symm {args args' : List TypeId}
    (h : List.Forall₂ (TypeMatch base p q) args args') :
    List.Forall₂ (TypeMatch base q p) args' args :=
  List.Forall₂.flip (h.imp fun _ _ h => h.symm)

theorem mono {x y : TypeId} (h : TypeMatch base p q x y) (hp : p ≤ p') (hq : q ≤ q') :
    TypeMatch base p' q' x y := by
  induction h using argsInduction with
  | same h => exact .same h
  | derived hx hy hox hoy hbx hby hargs ih =>
    refine of_forall₂ (typeDesc_stable _ _ _ hx _ hp) (typeDesc_stable _ _ _ hy _ hq) hox hoy hbx
      hby ?_
    exact ih.imp fun _ _ h => h.2

/-- A type of the base matches only itself. -/
theorem eq_of_base {x y : TypeId} (h : TypeMatch base p q x y) (hb : base.HasType x) : y = x := by
  cases h with
  | same => rfl
  | derived hx hy hox hoy hbx => exact absurd hb hbx

theorem forall₂_eq_of_base {args args' : List TypeId}
    (h : List.Forall₂ (TypeMatch base p q) args args') (hb : ∀ arg ∈ args, base.HasType arg) :
    args' = args := by
  induction h with
  | nil => rfl
  | cons hhead _ ih =>
    rw [eq_of_base hhead (hb _ List.mem_cons_self),
      ih fun arg ha => hb arg (List.mem_cons_of_mem _ ha)]

theorem forall₂_same {args : List TypeId} (hb : ∀ arg ∈ args, base.HasType arg) :
    List.Forall₂ (TypeMatch base p q) args args :=
  List.forall₂_same.2 fun arg ha => .same (hb arg ha)

/-- A type has at most one match. -/
theorem unique (hq : q.WellFormed) {x y z : TypeId} (h : TypeMatch base p q x y)
    (h' : TypeMatch base p q x z) : y = z := by
  induction h using argsInduction generalizing z with
  | same hb => exact (eq_of_base h' hb).symm
  | derived hx hy hox hoy hbx hby hargs ih =>
    cases h' with
    | same hb => exact absurd hb hbx
    | derived hx' hy' hox' hoy' _ _ hlen' hargs' =>
      cases hx.symm.trans hx'
      cases hox.symm.trans hox'
      have hall' := List.forall₂_iff_zip.2 ⟨hlen', fun {_ _} hm => hargs' _ hm⟩
      have heq := forall₂_eq_of_unique (ih.imp fun _ _ h => h.2) hall'
      exact hq.type_unique hy hy' (by rw [hoy, hoy', heq]) (by simp [hoy])

theorem unique_left (hp : p.WellFormed) {x y z : TypeId} (h : TypeMatch base p q x z)
    (h' : TypeMatch base p q y z) : x = y :=
  unique hp h.symm h'.symm

theorem forall₂_unique (hq : q.WellFormed) {xs ys zs : List TypeId}
    (h : List.Forall₂ (TypeMatch base p q) xs ys) (h' : List.Forall₂ (TypeMatch base p q) xs zs) :
    ys = zs :=
  forall₂_eq_of_unique (h.imp fun _ _ hxy _ hxz => unique hq hxy hxz) h'

/-- Instances of one definition for matching arguments match. -/
theorem of_instance (hp : Extension base p) (hq : Extension base q) {x y definition : TypeId}
    {args args' : List TypeId} (hx : p.TypeInstance x definition args)
    (hy : q.TypeInstance y definition args')
    (hargs : List.Forall₂ (TypeMatch base p q) args args') : TypeMatch base p q x y := by
  obtain ⟨dx, hdx, hox⟩ := hx
  obtain ⟨dy, hdy, hoy⟩ := hy
  by_cases hbx : base.HasType x
  · have hb := hp.typeDesc_base hbx hdx
    have hsame := forall₂_eq_of_base hargs fun arg ha => hp.base_ok.hasType_arg hb hox ha
    have hqx := typeDesc_stable _ _ _ hb _ hq.derives.le
    obtain rfl : y = x := hq.wellFormed.type_unique hdy hqx (by rw [hoy, hox, hsame])
      (by simp [hoy])
    exact .same hbx
  · by_cases hby : base.HasType y
    · have hb := hq.typeDesc_base hby hdy
      have hsame := forall₂_eq_of_base (forall₂_symm hargs) fun arg ha =>
        hq.base_ok.hasType_arg hb hoy ha
      have hpy := typeDesc_stable _ _ _ hb _ hp.derives.le
      obtain rfl : x = y := hp.wellFormed.type_unique hdx hpy (by rw [hox, hoy, hsame])
        (by simp [hox])
      exact .same hby
    · exact of_forall₂ hdx hdy hox hoy hbx hby hargs

/-- Every type matches itself. -/
theorem refl (hp : Extension base p) {id : TypeId} (h : p.HasType id) :
    TypeMatch base p p id id := by
  suffices key : ∀ n (id : TypeId), id.index = n → p.HasType id → TypeMatch base p p id id from
    key _ id rfl h
  clear h
  intro n
  induction n using Nat.strongRecOn with
  | _ n ih =>
    rintro id rfl h
    obtain ⟨desc, hd⟩ := hasType_iff.1 h
    by_cases hb : base.HasType id
    · exact .same hb
    · cases ho : desc.origin with
      | declared => exact absurd (hp.hasType_of_declared hd ho) hb
      | derived definition args =>
        obtain ⟨-, -, -, hlt, -⟩ := (hp.wellFormed.type_ok hd).derived ho
        refine of_forall₂ hd hd ho ho hb hb (List.forall₂_same.2 fun arg ha => ?_)
        exact ih arg.index (hlt arg ha) arg rfl (hp.wellFormed.hasType_arg hd ho ha)

end TypeMatch

/-! ## What is known of matching types -/

/-- Descriptions that agree in everything but handles, which match. -/
structure TypesAgree (base p q : Program) (dx dy : TypeDesc) : Prop where
  declaration : dx.toTypeDeclaration = dy.toTypeDeclaration
  origin : (dx.origin = .declared ∧ dy.origin = .declared) ∨ ∃ definition args args',
    dx.origin = .derived definition args ∧ dy.origin = .derived definition args' ∧
      base.HasType definition ∧ List.Forall₂ (TypeMatch base p q) args args'

theorem argumentList_of_forall₂ {args args' : List TypeId}
    (h : List.Forall₂ (fun a b => ∃ name, p.typeName a = .ok name ∧ q.typeName b = .ok name)
      args args') : ∃ list, p.argumentList args = .ok list ∧ q.argumentList args' = .ok list := by
  obtain ⟨names, hn, hn'⟩ := mapM_of_forall₂ h
  exact ⟨_, by rw [argumentList, hn]; rfl, by rw [argumentList, hn']; rfl⟩

/-- The definition of an instance is a type of the base. -/
theorem Extension.hasType_definition (hp : Extension base p) {id definition : TypeId}
    {args : List TypeId} {desc : TypeDesc} (hd : p.typeDesc id = .ok desc)
    (ho : desc.origin = .derived definition args) : base.HasType definition := by
  obtain ⟨⟨original, horig, hdecl, -⟩, -⟩ := (hp.wellFormed.type_ok hd).derived ho
  exact hp.hasType_of_declared horig hdecl

theorem TypeMatch.desc (hp : Extension base p) (hq : Extension base q) {x y : TypeId}
    (h : TypeMatch base p q x y) :
    ∃ dx dy, p.typeDesc x = .ok dx ∧ q.typeDesc y = .ok dy ∧ TypesAgree base p q dx dy := by
  induction h using argsInduction with
  | same hb =>
    obtain ⟨desc, hd⟩ := hasType_iff.1 hb
    refine ⟨desc, desc, typeDesc_stable _ _ _ hd _ hp.derives.le,
      typeDesc_stable _ _ _ hd _ hq.derives.le, rfl, ?_⟩
    cases ho : desc.origin with
    | declared => exact .inl ⟨rfl, rfl⟩
    | derived definition args =>
      exact .inr ⟨definition, args, args, rfl, rfl,
        (Extension.refl hp.base_ok).hasType_definition hd ho,
        TypeMatch.forall₂_same fun arg ha => hp.base_ok.hasType_arg hd ho ha⟩
  | derived hx hy hox hoy hbx hby hargs ih =>
    refine ⟨_, _, hx, hy, ?_, .inr ⟨_, _, _, hox, hoy, hp.hasType_definition hx hox, hargs⟩⟩
    obtain ⟨-, -, -, -, hinst⟩ := (hp.wellFormed.type_ok hx).derived hox
    obtain ⟨-, -, -, -, hinst'⟩ := (hq.wellFormed.type_ok hy).derived hoy
    obtain ⟨original, list, hd, hl, rfl⟩ := typeInstance_eq_ok.1 hinst
    obtain ⟨original', list', hd', hl', rfl⟩ := typeInstance_eq_ok.1 hinst'
    -- the definition is the same type of the base, and the names of the arguments agree
    have hb := hp.hasType_definition hx hox
    have hsame := (hp.typeDesc_base hb hd).symm.trans (hq.typeDesc_base hb hd')
    cases hsame
    obtain ⟨names, hn, hn'⟩ := argumentList_of_forall₂ (p := p) (q := q) (ih.imp fun a b h => by
      obtain ⟨-, dx, dy, hdx, hdy, hagree⟩ := h
      refine ⟨dx.name, by rw [typeName, hdx]; rfl, ?_⟩
      rw [typeName, hdy]
      exact congrArg (fun d : TypeDeclaration => Except.ok d.name) hagree.declaration.symm)
    cases hl.symm.trans hn
    cases hl'.symm.trans hn'
    rfl

theorem isGenericDefinition_iff {desc : TypeDesc} :
    desc.isGenericDefinition = true ↔ 0 < desc.genericArity ∧ desc.origin = .declared := by
  simp [TypeDesc.isGenericDefinition]

namespace TypesAgree

variable {dx dy : TypeDesc} (h : TypesAgree base p q dx dy)
include h

theorem isEmpty_args : dx.args.isEmpty = dy.args.isEmpty := by
  obtain ⟨hx, hy⟩ | ⟨definition, args, args', hx, hy, -, hargs⟩ := h.origin
  · simp [TypeDesc.args, hx, hy]
  · rw [TypeDesc.args, TypeDesc.args, hx, hy]
    cases hargs <;> rfl

theorem definition?_eq : dx.definition? = dy.definition? := by
  obtain ⟨hx, hy⟩ | ⟨definition, args, args', hx, hy, -, -⟩ := h.origin
  · simp [TypeDesc.definition?, hx, hy]
  · simp [TypeDesc.definition?, hx, hy]

theorem isValueType_eq : dx.isValueType = dy.isValueType := by
  rw [TypeDesc.isValueType, h.declaration]
  rfl

theorem isGenericDefinition_eq : dx.isGenericDefinition = dy.isGenericDefinition := by
  rw [TypeDesc.isGenericDefinition, TypeDesc.isGenericDefinition, h.declaration]
  obtain ⟨hx, hy⟩ | ⟨definition, args, args', hx, hy, -, -⟩ := h.origin
  · rw [hx, hy]
  · rw [hx, hy]
    rfl

theorem statics_eq : dx.statics = dy.statics := congrArg TypeDeclaration.statics h.declaration

end TypesAgree

variable {x y : TypeId}

theorem TypeMatch.hasType (hp : Extension base p) (hq : Extension base q)
    (h : TypeMatch base p q x y) : p.HasType x ∧ q.HasType y := by
  obtain ⟨dx, dy, hx, hy, -⟩ := h.desc hp hq
  exact ⟨hasType_of_desc hx, hasType_of_desc hy⟩

theorem TypeMatch.forall₂_hasType (hp : Extension base p) (hq : Extension base q)
    {args args' : List TypeId} (h : List.Forall₂ (TypeMatch base p q) args args') :
    (∀ arg ∈ args, p.HasType arg) ∧ ∀ arg ∈ args', q.HasType arg := by
  induction h with
  | nil => simp
  | cons hab _ ih =>
    rw [List.forall_mem_cons, List.forall_mem_cons]
    obtain ⟨ha, hb⟩ := hab.hasType hp hq
    exact ⟨⟨ha, ih.1⟩, hb, ih.2⟩

theorem TypeMatch.typeName (hp : Extension base p) (hq : Extension base q)
    (h : TypeMatch base p q x y) : ∃ name, p.typeName x = .ok name ∧ q.typeName y = .ok name := by
  obtain ⟨dx, dy, hx, hy, hagree⟩ := h.desc hp hq
  refine ⟨dx.name, by rw [Program.typeName, hx]; rfl, ?_⟩
  rw [Program.typeName, hy]
  exact congrArg (fun d : TypeDeclaration => Except.ok d.name) hagree.declaration.symm

theorem TypeMatch.argumentList (hp : Extension base p) (hq : Extension base q)
    {args args' : List TypeId} (h : List.Forall₂ (TypeMatch base p q) args args') :
    ∃ list, p.argumentList args = .ok list ∧ q.argumentList args' = .ok list :=
  argumentList_of_forall₂ (h.imp fun _ _ h => h.typeName hp hq)

theorem TypeMatch.moduleOfType (hp : Extension base p) (hq : Extension base q)
    (h : TypeMatch base p q x y) : ∃ module, p.moduleOfType x = .ok module ∧
      q.moduleOfType y = .ok module ∧ base.HasModule module := by
  obtain ⟨dx, dy, hx, hy, hagree⟩ := h.desc hp hq
  refine ⟨dx.module, by rw [Program.moduleOfType, hx]; rfl, ?_, ?_⟩
  · rw [Program.moduleOfType, hy]
    exact congrArg (fun d : TypeDeclaration => Except.ok d.module) hagree.declaration.symm
  · have hmodule := (hp.wellFormed.type_ok hx).module
    rw [HasModule, hp.derives.modules] at hmodule
    exact hmodule

theorem Extension.moduleDesc (hp : Extension base p) (id : ModuleId) :
    p.moduleDesc id = base.moduleDesc id := by
  rw [Program.moduleDesc, hp.derives.modules, Program.moduleDesc]

theorem TypeMatch.typeEntity (hp : Extension base p) (hq : Extension base q)
    (h : TypeMatch base p q x y) :
    ∃ entity, p.typeEntity x = .ok entity ∧ q.typeEntity y = .ok entity := by
  obtain ⟨module, hm, hm', hmodule⟩ := h.moduleOfType hp hq
  obtain ⟨home, hhome⟩ := hmodule.exists_desc
  obtain ⟨name, hn, hn'⟩ := h.typeName hp hq
  refine ⟨⟨home.name, name⟩, ?_, ?_⟩
  · simp only [Program.typeEntity, hm, hp.moduleDesc, hhome, hn, bind, Except.bind, pure,
      Except.pure]
  · simp only [Program.typeEntity, hm', hq.moduleDesc, hhome, hn', bind, Except.bind, pure,
      Except.pure]

theorem TypeMatch.typeSymbol (hp : Extension base p) (hq : Extension base q)
    (h : TypeMatch base p q x y) (family : SymbolFamily) :
    ∃ name, p.typeSymbol family x = .ok name ∧ q.typeSymbol family y = .ok name := by
  obtain ⟨entity, he, he'⟩ := h.typeEntity hp hq
  exact ⟨family.symbol entity, by rw [Program.typeSymbol, he]; rfl,
    by rw [Program.typeSymbol, he']; rfl⟩

/-- Definitions match; if the types are instances they are the same type of the base. -/
theorem TypeMatch.typeDefinition (hp : Extension base p) (hq : Extension base q)
    (h : TypeMatch base p q x y) : ∃ definition definition', p.typeDefinition x = .ok definition ∧
      q.typeDefinition y = .ok definition' ∧ definition = definition' ∧
      base.HasType definition := by
  obtain ⟨dx, dy, hx, hy, hagree⟩ := h.desc hp hq
  refine ⟨dx.definition?.getD x, dy.definition?.getD y, by rw [Program.typeDefinition, hx]; rfl,
    by rw [Program.typeDefinition, hy]; rfl, ?_⟩
  obtain ⟨hox, hoy⟩ | ⟨definition, args, args', hox, hoy, hb, -⟩ := hagree.origin
  · have hb := hp.hasType_of_declared hx hox
    rw [TypeDesc.definition?, TypeDesc.definition?, hox, hoy]
    exact ⟨(h.eq_of_base hb).symm, hb⟩
  · rw [TypeDesc.definition?, TypeDesc.definition?, hox, hoy]
    exact ⟨rfl, hb⟩

theorem Extension.hasType_canon (hp : Extension base p) : base.HasType .canon := by
  have hinitial : initial.HasType .canon := Nat.zero_lt_two
  exact hinitial.mono hp.base_ok.initial_le

/-- If all answers exist on both sides and agree, so do the answers for lists. -/
theorem anyM_of_forall₂ {α β ε : Type} {f : α → Except ε Bool} {g : β → Except ε Bool}
    {as : List α} {bs : List β}
    (h : List.Forall₂ (fun a b => ∃ c, f a = .ok c ∧ g b = .ok c) as bs) :
    ∃ c, as.anyM f = .ok c ∧ bs.anyM g = .ok c := by
  induction h with
  | nil => exact ⟨false, rfl, rfl⟩
  | cons hab _ ih =>
    obtain ⟨c, hf, hg⟩ := hab
    rw [List.anyM, List.anyM, hf, hg]
    cases c with
    | true => exact ⟨true, rfl, rfl⟩
    | false => exact ih

/-- Types of which the placeholder is a part match only such types. -/
theorem TypeMatch.mentionsCanon (hp : Extension base p) (hq : Extension base q)
    (h : TypeMatch base p q x y) :
    ∃ answer, p.mentionsCanon x = .ok answer ∧ q.mentionsCanon y = .ok answer := by
  suffices key : ∀ n {x y : TypeId}, x.index = n → TypeMatch base p q x y →
      ∃ answer, p.mentionsCanon x = .ok answer ∧ q.mentionsCanon y = .ok answer from key _ rfl h
  clear h
  intro n
  induction n using Nat.strongRecOn with
  | _ n ih =>
    rintro x y rfl h
    obtain ⟨dx, dy, hx, hy, hagree⟩ := h.desc hp hq
    have hiff : x = .canon ↔ y = .canon := by
      constructor
      · rintro rfl
        exact h.eq_of_base hp.hasType_canon
      · rintro rfl
        exact h.symm.eq_of_base hp.hasType_canon
    rw [Program.mentionsCanon, Program.mentionsCanon, hx, hy]
    simp only [bind, Except.bind]
    by_cases hc : x = .canon
    · rw [if_pos hc, if_pos (hiff.1 hc)]
      exact ⟨true, rfl, rfl⟩
    · rw [if_neg hc, if_neg fun hy => hc (hiff.2 hy)]
      obtain ⟨hox, hoy⟩ | ⟨definition, args, args', hox, hoy, -, hargs⟩ := hagree.origin
      · rw [TypeDesc.args, TypeDesc.args, hox, hoy]
        exact ⟨false, rfl, rfl⟩
      · obtain ⟨-, -, -, hlt, -⟩ := (hp.wellFormed.type_ok hx).derived hox
        obtain ⟨-, -, -, hlt', -⟩ := (hq.wellFormed.type_ok hy).derived hoy
        rw [TypeDesc.args, TypeDesc.args, hox, hoy]
        refine anyM_of_forall₂ ((forall₂_and_mem hargs).imp fun a b hab => ?_)
        obtain ⟨⟨ha, hb⟩, hmatch⟩ := hab
        rw [dif_pos (hlt a ha), dif_pos (hlt' b hb)]
        exact ih a.index (hlt a ha) rfl hmatch

end Program

end NativeImage
