import NativeImage.Proofs.Program.Matching

/-!
# Matching methods

A method of one extension matches a method of another if both are the same method of the base,
thunks of one kind for one delegate definition, or instances of matching definitions on matching
owners with matching arguments.

## Main definitions

- `Program.MethodMatch` — methods that mean the same
- `Program.MethodsAgree` — what their descriptions have in common

## Main statements

- `Program.MethodMatch.unique` — matching is one to one
- `Program.MethodMatch.of_instance` — instances of what matches match
-/

namespace NativeImage

namespace Program

variable {base p q p' q' : Program}

/-- Only the base declares methods. -/
theorem Extension.hasMethod_of_declared (hp : Extension base p) {id : MethodId}
    {desc : MethodDesc} (hd : p.methodDesc id = .ok desc) (ho : desc.origin = .declared) :
    base.HasMethod id := by
  by_contra hb
  exact hp.derives.methods hd (Nat.not_lt.1 hb) ho

theorem WellFormed.hasMethod_definition (hp : p.WellFormed) {id definition : MethodId}
    {args : List TypeId} {desc : MethodDesc} (hd : p.methodDesc id = .ok desc)
    (ho : desc.origin = .derived definition args) : p.HasMethod definition := by
  obtain ⟨-, -, original, horig, -⟩ := (hp.method_ok hd).derived ho
  exact hasMethod_of_desc horig

/-- Methods of two programs that mean the same. -/
inductive MethodMatch (base p q : Program) : MethodId → MethodId → Prop
  | same {id : MethodId} (h : base.HasMethod id) : MethodMatch base p q id id
  | thunk {x y : MethodId} {kind : InvokeThunk} {dx dy : MethodDesc}
    (hx : p.methodDesc x = .ok dx) (hy : q.methodDesc y = .ok dy)
    (hox : dx.origin = .thunk kind) (hoy : dy.origin = .thunk kind)
    (howner : dx.owner = dy.owner) (hbase : base.HasType dx.owner)
    (hbx : ¬ base.HasMethod x) (hby : ¬ base.HasMethod y) : MethodMatch base p q x y
  | derived {x y definition definition' : MethodId} {args args' : List TypeId}
    {dx dy : MethodDesc} (hx : p.methodDesc x = .ok dx) (hy : q.methodDesc y = .ok dy)
    (hox : dx.origin = .derived definition args) (hoy : dy.origin = .derived definition' args')
    (hbx : ¬ base.HasMethod x) (hby : ¬ base.HasMethod y)
    (hdef : MethodMatch base p q definition definition')
    (howner : TypeMatch base p q dx.owner dy.owner)
    (hargs : List.Forall₂ (TypeMatch base p q) args args') : MethodMatch base p q x y

namespace MethodMatch

theorem symm {x y : MethodId} (h : MethodMatch base p q x y) : MethodMatch base q p y x := by
  induction h with
  | same h => exact .same h
  | thunk hx hy hox hoy howner hbase hbx hby =>
    exact .thunk hy hx hoy hox howner.symm (howner ▸ hbase) hby hbx
  | derived hx hy hox hoy hbx hby _ howner hargs ih =>
    exact .derived hy hx hoy hox hby hbx ih howner.symm (TypeMatch.forall₂_symm hargs)

theorem mono {x y : MethodId} (h : MethodMatch base p q x y) (hp : p ≤ p') (hq : q ≤ q') :
    MethodMatch base p' q' x y := by
  induction h with
  | same h => exact .same h
  | thunk hx hy hox hoy howner hbase hbx hby =>
    exact .thunk (methodDesc_stable _ _ _ hx _ hp) (methodDesc_stable _ _ _ hy _ hq) hox hoy howner
      hbase hbx hby
  | derived hx hy hox hoy hbx hby _ howner hargs ih =>
    exact .derived (methodDesc_stable _ _ _ hx _ hp) (methodDesc_stable _ _ _ hy _ hq) hox hoy hbx
      hby ih (howner.mono hp hq) (hargs.imp fun _ _ h => h.mono hp hq)

/-- A method of the base matches only itself. -/
theorem eq_of_base {x y : MethodId} (h : MethodMatch base p q x y) (hb : base.HasMethod x) :
    y = x := by
  cases h with
  | same => rfl
  | thunk _ _ _ _ _ _ hbx => exact absurd hb hbx
  | derived _ _ _ _ hbx => exact absurd hb hbx

/-- A method has at most one match. -/
theorem unique (hq : q.WellFormed) {x y z : MethodId} (h : MethodMatch base p q x y)
    (h' : MethodMatch base p q x z) : y = z := by
  induction h generalizing z with
  | same hb => exact (eq_of_base h' hb).symm
  | thunk hx hy hox hoy howner _ hbx =>
    cases h' with
    | same hb => exact absurd hb hbx
    | thunk hx' hy' hox' hoy' howner' =>
      cases hx.symm.trans hx'
      cases hox.symm.trans hox'
      exact hq.method_unique hy hy' (by rw [hoy, hoy']) (howner.symm.trans howner') (by simp [hoy])
    | derived hx' _ hox' =>
      cases hx.symm.trans hx'
      cases hox.symm.trans hox'
  | derived hx hy hox hoy hbx _ _ howner hargs ih =>
    cases h' with
    | same hb => exact absurd hb hbx
    | thunk hx' _ hox' =>
      cases hx.symm.trans hx'
      cases hox.symm.trans hox'
    | derived hx' hy' hox' hoy' _ _ hdef' howner' hargs' =>
      cases hx.symm.trans hx'
      cases hox.symm.trans hox'
      have hd := ih hdef'
      have ha := TypeMatch.forall₂_unique hq hargs hargs'
      exact hq.method_unique hy hy' (by rw [hoy, hoy', hd, ha]) (howner.unique hq howner')
        (by simp [hoy])

theorem unique_left (hp : p.WellFormed) {x y z : MethodId} (h : MethodMatch base p q x z)
    (h' : MethodMatch base p q y z) : x = y :=
  unique hp h.symm h'.symm

end MethodMatch

/-! ## What is known of matching methods -/

/-- Descriptions that agree in everything but handles, which match. -/
structure MethodsAgree (base p q : Program) (dx dy : MethodDesc) : Prop where
  owner : TypeMatch base p q dx.owner dy.owner
  declaration : dx.toMethodDeclaration = { dy.toMethodDeclaration with owner := dx.owner }
  origin : (dx.origin = .declared ∧ dy.origin = .declared) ∨
    (∃ kind, dx.origin = .thunk kind ∧ dy.origin = .thunk kind) ∨
    ∃ definition definition' args args', dx.origin = .derived definition args ∧
      dy.origin = .derived definition' args' ∧ MethodMatch base p q definition definition' ∧
      List.Forall₂ (TypeMatch base p q) args args'

/-- Whatever does not depend on the owner is the same for both. -/
theorem MethodsAgree.congr {dx dy : MethodDesc} (h : MethodsAgree base p q dx dy) {α : Type}
    (f : MethodDeclaration → α)
    (hf : ∀ declaration owner, f { declaration with owner } = f declaration) :
    f dx.toMethodDeclaration = f dy.toMethodDeclaration := by
  rw [h.declaration, hf]

theorem MethodsAgree.mono {dx dy : MethodDesc} (h : MethodsAgree base p q dx dy) (hp : p ≤ p')
    (hq : q ≤ q') : MethodsAgree base p' q' dx dy := by
  refine ⟨h.owner.mono hp hq, h.declaration, ?_⟩
  obtain hdecl | hthunk | ⟨definition, definition', args, args', hx, hy, hdef, hargs⟩ := h.origin
  · exact .inl hdecl
  · exact .inr (.inl hthunk)
  · exact .inr (.inr ⟨definition, definition', args, args', hx, hy, hdef.mono hp hq,
      hargs.imp fun _ _ h => h.mono hp hq⟩)

/-- Whatever a method of the base refers to is in the base, so it agrees with itself. -/
theorem MethodsAgree.same (hb : base.WellFormed) {id : MethodId} {desc : MethodDesc}
    (hd : base.methodDesc id = .ok desc) : MethodsAgree base p q desc desc := by
  have hok := hb.method_ok hd
  refine ⟨.same hok.owner, rfl, ?_⟩
  cases ho : desc.origin with
  | declared => exact .inl ⟨rfl, rfl⟩
  | thunk kind => exact .inr (.inl ⟨kind, rfl, rfl⟩)
  | derived definition args =>
    obtain ⟨-, hargs, -⟩ := hok.derived ho
    exact .inr (.inr ⟨definition, definition, args, args, rfl, rfl,
      .same (hb.hasMethod_definition hd ho), TypeMatch.forall₂_same hargs⟩)

theorem MethodMatch.desc (hp : Extension base p) (hq : Extension base q) {x y : MethodId}
    (h : MethodMatch base p q x y) :
    ∃ dx dy, p.methodDesc x = .ok dx ∧ q.methodDesc y = .ok dy ∧ MethodsAgree base p q dx dy := by
  induction h with
  | same hb =>
    obtain ⟨desc, hd⟩ := hasMethod_iff.1 hb
    exact ⟨desc, desc, methodDesc_stable _ _ _ hd _ hp.derives.le,
      methodDesc_stable _ _ _ hd _ hq.derives.le, .same hp.base_ok hd⟩
  | @thunk x y kind dx dy hx hy hox hoy howner hbase hbx hby =>
    refine ⟨dx, dy, hx, hy, howner ▸ .same hbase, ?_, .inr (.inl ⟨kind, hox, hoy⟩)⟩
    obtain ⟨owner, arity, hown, -, harity, hdecl⟩ := (hp.wellFormed.method_ok hx).thunk hox
    obtain ⟨owner', arity', hown', -, harity', hdecl'⟩ := (hq.wellFormed.method_ok hy).thunk hoy
    -- the owner is the same type of the base, so the thunks take the same arguments
    rw [← howner] at hown'
    cases (hp.typeDesc_base hbase hown).symm.trans (hq.typeDesc_base hbase hown')
    cases harity.symm.trans harity'
    rw [hdecl, hdecl']
  | @derived x y definition definition' args args' dx dy hx hy hox hoy hbx hby hdef howner hargs
      ih =>
    refine ⟨dx, dy, hx, hy, howner, ?_, .inr (.inr ⟨_, _, _, _, hox, hoy, hdef, hargs⟩)⟩
    obtain ⟨-, -, original, horig, -, hdecl, -⟩ := (hp.wellFormed.method_ok hx).derived hox
    obtain ⟨-, -, original', horig', -, hdecl', -⟩ := (hq.wellFormed.method_ok hy).derived hoy
    obtain ⟨d, d', hd, hd', hagree⟩ := ih
    cases horig.symm.trans hd
    cases horig'.symm.trans hd'
    rw [hdecl, hdecl', hagree.declaration]

theorem MethodMatch.hasMethod (hp : Extension base p) (hq : Extension base q) {x y : MethodId}
    (h : MethodMatch base p q x y) : p.HasMethod x ∧ q.HasMethod y := by
  obtain ⟨dx, dy, hx, hy, -⟩ := h.desc hp hq
  exact ⟨hasMethod_of_desc hx, hasMethod_of_desc hy⟩

/-- Thunks of one kind for one definition match. -/
theorem MethodMatch.of_thunk (hp : Extension base p) (hq : Extension base q) {x y : MethodId}
    {kind : InvokeThunk} {dx dy : MethodDesc} (hx : p.methodDesc x = .ok dx)
    (hy : q.methodDesc y = .ok dy) (hox : dx.origin = .thunk kind) (hoy : dy.origin = .thunk kind)
    (howner : dx.owner = dy.owner) (hbase : base.HasType dx.owner) :
    MethodMatch base p q x y := by
  by_cases hbx : base.HasMethod x
  · have hqx := methodDesc_stable _ _ _ (hp.methodDesc_base hbx hx) _ hq.derives.le
    obtain rfl : y = x := hq.wellFormed.method_unique hy hqx (by rw [hoy, hox]) howner.symm
      (by simp [hoy])
    exact .same hbx
  · by_cases hby : base.HasMethod y
    · have hpy := methodDesc_stable _ _ _ (hq.methodDesc_base hby hy) _ hp.derives.le
      obtain rfl : x = y := hp.wellFormed.method_unique hx hpy (by rw [hox, hoy]) howner
        (by simp [hox])
      exact .same hby
    · exact .thunk hx hy hox hoy howner hbase hbx hby

/-- What an instance of the base is made of matches only itself. -/
theorem MethodMatch.parts_eq_of_base (hb : base.WellFormed) {x definition definition' : MethodId}
    {owner' : TypeId} {args args' : List TypeId} {dx : MethodDesc}
    (hx : base.methodDesc x = .ok dx) (hox : dx.origin = .derived definition args)
    (hdef : MethodMatch base p q definition definition')
    (howner : TypeMatch base p q dx.owner owner')
    (hargs : List.Forall₂ (TypeMatch base p q) args args') :
    definition' = definition ∧ owner' = dx.owner ∧ args' = args := by
  obtain ⟨-, hbase, -⟩ := (hb.method_ok hx).derived hox
  exact ⟨hdef.eq_of_base (hb.hasMethod_definition hx hox),
    howner.eq_of_base (hb.method_ok hx).owner, TypeMatch.forall₂_eq_of_base hargs hbase⟩

/-- Proper instances of matching definitions on matching owners with matching arguments match. -/
theorem MethodMatch.of_derived (hp : Extension base p) (hq : Extension base q)
    {x y definition definition' : MethodId} {args args' : List TypeId} {dx dy : MethodDesc}
    (hx : p.methodDesc x = .ok dx) (hy : q.methodDesc y = .ok dy)
    (hox : dx.origin = .derived definition args) (hoy : dy.origin = .derived definition' args')
    (hdef : MethodMatch base p q definition definition')
    (howner : TypeMatch base p q dx.owner dy.owner)
    (hargs : List.Forall₂ (TypeMatch base p q) args args') : MethodMatch base p q x y := by
  by_cases hbx : base.HasMethod x
  · have hb := hp.methodDesc_base hbx hx
    obtain ⟨rfl, how, rfl⟩ := parts_eq_of_base hp.base_ok hb hox hdef howner hargs
    have hqx := methodDesc_stable _ _ _ hb _ hq.derives.le
    obtain rfl : y = x := hq.wellFormed.method_unique hy hqx (by rw [hoy, hox]) how
      (by simp [hoy])
    exact .same hbx
  · by_cases hby : base.HasMethod y
    · have hb := hq.methodDesc_base hby hy
      obtain ⟨rfl, how, rfl⟩ := parts_eq_of_base hq.base_ok hb hoy hdef.symm howner.symm
        (TypeMatch.forall₂_symm hargs)
      have hpy := methodDesc_stable _ _ _ hb _ hp.derives.le
      obtain rfl : x = y := hp.wellFormed.method_unique hx hpy (by rw [hox, hoy]) how
        (by simp [hox])
      exact .same hby
    · exact .derived hx hy hox hoy hbx hby hdef howner hargs

/-- Instances of matching definitions on matching owners with matching arguments match. -/
theorem MethodMatch.of_instance (hp : Extension base p) (hq : Extension base q)
    {x y definition definition' : MethodId} {owner owner' : TypeId} {args args' : List TypeId}
    (hx : p.MethodInstance x definition owner args)
    (hy : q.MethodInstance y definition' owner' args')
    (hdef : MethodMatch base p q definition definition') (howner : TypeMatch base p q owner owner')
    (hargs : List.Forall₂ (TypeMatch base p q) args args') : MethodMatch base p q x y := by
  obtain ⟨original, horig, hx⟩ := hx
  obtain ⟨original', horig', hy⟩ := hy
  obtain ⟨d, d', hd, hd', hagree⟩ := hdef.desc hp hq
  cases horig.symm.trans hd
  cases horig'.symm.trans hd'
  -- both sides ask for the definition itself, or neither does
  have hself : (owner = original.owner ∧ args = []) ↔ (owner' = original'.owner ∧ args' = []) := by
    constructor
    · rintro ⟨rfl, rfl⟩
      exact ⟨howner.unique hq.wellFormed hagree.owner, List.forall₂_nil_left_iff.1 hargs⟩
    · rintro ⟨rfl, rfl⟩
      exact ⟨howner.unique_left hp.wellFormed hagree.owner, List.forall₂_nil_right_iff.1 hargs⟩
  by_cases hdecide : owner = original.owner ∧ args = []
  · rw [if_pos hdecide] at hx
    rw [if_pos (hself.1 hdecide)] at hy
    rw [hx, hy]
    exact hdef
  · rw [if_neg hdecide] at hx
    rw [if_neg fun h => hdecide (hself.2 h)] at hy
    obtain ⟨dx, hdx, hox, rfl⟩ := hx
    obtain ⟨dy, hdy, hoy, rfl⟩ := hy
    exact of_derived hp hq hdx hdy hox hoy hdef howner hargs

/-- Every method matches itself. -/
theorem MethodMatch.refl (hp : Extension base p) {id : MethodId} (h : p.HasMethod id) :
    MethodMatch base p p id id := by
  suffices key : ∀ n (id : MethodId), id.index = n → p.HasMethod id →
      MethodMatch base p p id id from key _ id rfl h
  clear h
  intro n
  induction n using Nat.strongRecOn with
  | _ n ih =>
    rintro id rfl h
    obtain ⟨desc, hd⟩ := hasMethod_iff.1 h
    have hok := hp.wellFormed.method_ok hd
    cases ho : desc.origin with
    | declared => exact .same (hp.hasMethod_of_declared hd ho)
    | thunk kind =>
      obtain ⟨owner, arity, hown, hdecl, -⟩ := hok.thunk ho
      exact of_thunk hp hp hd hd ho ho rfl (hp.hasType_of_declared hown hdecl)
    | derived definition args =>
      obtain ⟨hlt, hargs, -⟩ := hok.derived ho
      have hdef := ih definition.index hlt definition rfl (hp.wellFormed.hasMethod_definition hd ho)
      exact of_derived hp hp hd hd ho ho hdef (TypeMatch.refl hp hok.owner)
        (List.forall₂_same.2 fun arg ha => TypeMatch.refl hp (hargs arg ha))

/-! ## Questions about matching methods -/

section

variable {x y : MethodId} (hp : Extension base p) (hq : Extension base q)
  (h : MethodMatch base p q x y)
include hp hq h

theorem MethodMatch.methodName :
    ∃ name, p.methodName x = .ok name ∧ q.methodName y = .ok name := by
  obtain ⟨dx, dy, hx, hy, hagree⟩ := h.desc hp hq
  obtain ⟨owner, hn, hn'⟩ := hagree.owner.typeName hp hq
  have hname : dx.name = dy.name := hagree.congr MethodDeclaration.name fun _ _ => rfl
  obtain ⟨hox, hoy⟩ | ⟨kind, hox, hoy⟩ | ⟨_, _, args, args', hox, hoy, -, hargs⟩ := hagree.origin
  · simp only [Program.methodName, hx, hy, hn, hn', MethodDesc.args, hox, hoy, hname, bind,
      Except.bind]
    exact ⟨_, rfl, rfl⟩
  · simp only [Program.methodName, hx, hy, hn, hn', MethodDesc.args, hox, hoy, hname, bind,
      Except.bind]
    exact ⟨_, rfl, rfl⟩
  · obtain ⟨list, hl, hl'⟩ := TypeMatch.argumentList hp hq hargs
    simp only [Program.methodName, hx, hy, hn, hn', MethodDesc.args, hox, hoy, hname, hl, hl',
      bind, Except.bind]
    cases hargs with
    | nil => exact ⟨_, rfl, rfl⟩
    | cons => exact ⟨_, rfl, rfl⟩

theorem MethodMatch.methodEntity :
    ∃ entity, p.methodEntity x = .ok entity ∧ q.methodEntity y = .ok entity := by
  obtain ⟨dx, dy, hx, hy, hagree⟩ := h.desc hp hq
  obtain ⟨module, hm, hm', hmodule⟩ := hagree.owner.moduleOfType hp hq
  obtain ⟨home, hhome⟩ := hmodule.exists_desc
  obtain ⟨name, hn, hn'⟩ := h.methodName hp hq
  refine ⟨⟨home.name, name⟩, ?_, ?_⟩
  · simp only [Program.methodEntity, Program.moduleOfMethod, hx, hm, hp.moduleDesc, hhome, hn,
      bind, Except.bind, pure, Except.pure]
  · simp only [Program.methodEntity, Program.moduleOfMethod, hy, hm', hq.moduleDesc, hhome, hn',
      bind, Except.bind, pure, Except.pure]

theorem MethodMatch.methodSymbol (family : SymbolFamily) :
    ∃ name, p.methodSymbol family x = .ok name ∧ q.methodSymbol family y = .ok name := by
  obtain ⟨entity, he, he'⟩ := h.methodEntity hp hq
  exact ⟨family.symbol entity, by rw [Program.methodSymbol, he]; rfl,
    by rw [Program.methodSymbol, he']; rfl⟩

theorem MethodMatch.isSharedMethod :
    ∃ answer, p.isSharedMethod x = .ok answer ∧ q.isSharedMethod y = .ok answer := by
  obtain ⟨dx, dy, hx, hy, hagree⟩ := h.desc hp hq
  obtain ⟨owner, ho, ho'⟩ := hagree.owner.mentionsCanon hp hq
  rw [Program.isSharedMethod, Program.isSharedMethod, hx, hy]
  simp only [bind, Except.bind, ho, ho']
  cases owner with
  | true => exact ⟨true, rfl, rfl⟩
  | false =>
    obtain ⟨hox, hoy⟩ | ⟨kind, hox, hoy⟩ | ⟨_, _, args, args', hox, hoy, -, hargs⟩ := hagree.origin
    · rw [MethodDesc.args, MethodDesc.args, hox, hoy]
      exact ⟨false, rfl, rfl⟩
    · rw [MethodDesc.args, MethodDesc.args, hox, hoy]
      exact ⟨false, rfl, rfl⟩
    · rw [MethodDesc.args, MethodDesc.args, hox, hoy]
      exact anyM_of_forall₂ (hargs.imp fun _ _ h => h.mentionsCanon hp hq)

end

namespace MethodsAgree

variable {dx dy : MethodDesc} (h : MethodsAgree base p q dx dy)
include h

/-- Definitions match. -/
theorem definition {x y : MethodId} (hxy : MethodMatch base p q x y) :
    MethodMatch base p q (dx.definition?.getD x) (dy.definition?.getD y) := by
  obtain ⟨hox, hoy⟩ | ⟨kind, hox, hoy⟩ | ⟨_, _, args, args', hox, hoy, hdef, -⟩ := h.origin
  · rw [MethodDesc.definition?, MethodDesc.definition?, hox, hoy]
    exact hxy
  · rw [MethodDesc.definition?, MethodDesc.definition?, hox, hoy]
    exact hxy
  · rw [MethodDesc.definition?, MethodDesc.definition?, hox, hoy]
    exact hdef

theorem args : List.Forall₂ (TypeMatch base p q) dx.args dy.args := by
  obtain ⟨hox, hoy⟩ | ⟨kind, hox, hoy⟩ | ⟨_, _, args, args', hox, hoy, -, hargs⟩ := h.origin
  · rw [MethodDesc.args, MethodDesc.args, hox, hoy]
    exact .nil
  · rw [MethodDesc.args, MethodDesc.args, hox, hoy]
    exact .nil
  · rw [MethodDesc.args, MethodDesc.args, hox, hoy]
    exact hargs

theorem definition?_eq_none : dx.definition? = none ↔ dy.definition? = none := by
  obtain ⟨hox, hoy⟩ | ⟨kind, hox, hoy⟩ | ⟨_, _, args, args', hox, hoy, -⟩ := h.origin
  · simp [MethodDesc.definition?, hox, hoy]
  · simp [MethodDesc.definition?, hox, hoy]
  · simp [MethodDesc.definition?, hox, hoy]

theorem isEmpty_args : dx.args.isEmpty = dy.args.isEmpty := by
  have hargs := h.args
  generalize dx.args = args at hargs
  generalize dy.args = args' at hargs
  cases hargs <;> rfl

theorem callArity_eq : dx.callArity = dy.callArity := by
  rw [MethodDesc.callArity, h.declaration]
  rfl

end MethodsAgree

theorem MethodMatch.methodDefinition (hp : Extension base p) (hq : Extension base q)
    {x y : MethodId} (h : MethodMatch base p q x y) : ∃ definition definition',
    p.methodDefinition x = .ok definition ∧ q.methodDefinition y = .ok definition' ∧
      MethodMatch base p q definition definition' := by
  obtain ⟨dx, dy, hx, hy, hagree⟩ := h.desc hp hq
  exact ⟨dx.definition?.getD x, dy.definition?.getD y, by rw [Program.methodDefinition, hx]; rfl,
    by rw [Program.methodDefinition, hy]; rfl, hagree.definition h⟩

/-- A method with a definition is that definition applied to the method's arguments. -/
theorem origin_of_definition? {definition : MethodId} {desc : MethodDesc}
    (h : desc.definition? = some definition) : desc.origin = .derived definition desc.args := by
  rw [MethodDesc.definition?] at h
  rw [MethodDesc.args]
  cases ho : desc.origin with
  | declared =>
    rw [ho] at h
    cases h
  | thunk kind =>
    rw [ho] at h
    cases h
  | derived found args =>
    rw [ho] at h
    cases h
    rfl

/-- A method without a definition has no arguments. -/
theorem args_of_definition?_eq_none {desc : MethodDesc} (h : desc.definition? = none) :
    desc.args = [] := by
  rw [MethodDesc.definition?] at h
  rw [MethodDesc.args]
  cases ho : desc.origin with
  | declared => rfl
  | thunk kind => rfl
  | derived definition args =>
    rw [ho] at h
    cases h

/-- A method is declared as its definition is, but for the owner, and the definition of a method is
one that has none itself. -/
theorem WellFormed.exists_original (hp : p.WellFormed) {id : MethodId} {desc : MethodDesc}
    (hd : p.methodDesc id = .ok desc) :
    ∃ original, p.methodDesc (desc.definition?.getD id) = .ok original ∧
      original.definition? = none ∧
      desc.toMethodDeclaration = { original.toMethodDeclaration with owner := desc.owner } := by
  cases hdef : desc.definition? with
  | none => exact ⟨desc, hd, hdef, rfl⟩
  | some definition =>
    obtain ⟨-, -, original, horig, hnone, hdecl, -⟩ :=
      (hp.method_ok hd).derived (origin_of_definition? hdef)
    exact ⟨original, horig, hnone, hdecl⟩

theorem WellFormed.definition?_getD (hp : p.WellFormed) {id : MethodId} {desc : MethodDesc}
    (hd : p.methodDesc id = .ok desc) {original : MethodDesc}
    (ho : p.methodDesc (desc.definition?.getD id) = .ok original) :
    original.definition? = none := by
  obtain ⟨found, hfound, hnone, -⟩ := hp.exists_original hd
  cases hfound.symm.trans ho
  exact hnone

end Program

end NativeImage
