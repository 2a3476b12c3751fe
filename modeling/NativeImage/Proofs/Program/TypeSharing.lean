import NativeImage.Proofs.Program.Interning

/-!
# Types that share code

Two types share code if they are the same, or instances of one definition whose arguments are, pair
by pair, both reference types or value types that share code themselves. The canonical form of a
type is the one type in normal form that it shares code with: no two types in normal form share
code, so sharing is the same as having one canonical form.

## Main definitions

- `Program.HasKind` — value types, and all others
- `Program.Shares`, `Program.ArgumentsShare` — types that share code
- `Program.Normal` — types made from the placeholder and value types only
- `Program.TypeForm` — the normal form of a type
- `Program.SameCanonicalType` — types with one canonical form

## Main statements

- `Program.Shares.eq_of_normal` — normal forms are unique
- `ProgramM.canonicalType_form` — the canonical form is the normal form
- `Program.Reachable.canonicalType_exact`
-/

namespace NativeImage

namespace Program

variable {base p q r : Program}

/-- What is asked of an answer can be decided, and a failure is no answer. -/
instance decidableExistsOk {ε α : Type} {P : α → Prop} [DecidablePred P] :
    (x : Except ε α) → Decidable (∃ a, x = .ok a ∧ P a)
  | .ok a => decidable_of_iff (P a) (by simp)
  | .error _ => isFalse (by simp)

/-- What is asked of the outcome of a run can be decided, and a failure is no outcome. -/
instance decidableExistsRun {ε σ α : Type} {P : α → Prop} [DecidablePred P] :
    (x : EStateM.Result ε σ α) → Decidable (∃ a s, x = .ok a s ∧ P a)
  | .ok a s => decidable_of_iff (P a) (by simp)
  | .error _ _ => isFalse (by simp)

/-! ## Instances -/

instance (p : Program) (id definition : TypeId) (args : List TypeId) :
    Decidable (p.TypeInstance id definition args) :=
  decidableExistsOk (p.typeDesc id)

theorem TypeInstance.mono {id definition : TypeId} {args : List TypeId}
    (h : p.TypeInstance id definition args) (hpq : p ≤ q) : q.TypeInstance id definition args := by
  obtain ⟨desc, hd, ho⟩ := h
  exact ⟨desc, typeDesc_stable _ _ _ hd _ hpq, ho⟩

theorem TypeInstance.of_le {id definition : TypeId} {args : List TypeId} (hpq : p ≤ q)
    (hid : p.HasType id) (h : q.TypeInstance id definition args) :
    p.TypeInstance id definition args := by
  obtain ⟨desc, hd, ho⟩ := h
  exact ⟨desc, typeDesc_of_le hpq hid hd, ho⟩

theorem TypeInstance.unique {id definition definition' : TypeId} {args args' : List TypeId}
    (h : p.TypeInstance id definition args) (h' : p.TypeInstance id definition' args') :
    definition = definition' ∧ args = args' := by
  obtain ⟨desc, hd, ho⟩ := h
  obtain ⟨desc', hd', ho'⟩ := h'
  cases hd.symm.trans hd'
  cases ho.symm.trans ho'
  exact ⟨rfl, rfl⟩

theorem TypeInstance.hasType {id definition : TypeId} {args : List TypeId}
    (h : p.TypeInstance id definition args) : p.HasType id := by
  obtain ⟨desc, hd, -⟩ := h
  exact hasType_of_desc hd

theorem TypeInstance.hasType_args (hp : p.WellFormed) {id definition : TypeId}
    {args : List TypeId} (h : p.TypeInstance id definition args) : ∀ arg ∈ args, p.HasType arg := by
  obtain ⟨desc, hd, ho⟩ := h
  exact fun _ ha => hp.hasType_arg hd ho ha

theorem WellFormed.eq_of_instance (hp : p.WellFormed) {x y definition : TypeId}
    {args : List TypeId} (hx : p.TypeInstance x definition args)
    (hy : p.TypeInstance y definition args) : x = y := by
  obtain ⟨dx, hdx, hox⟩ := hx
  obtain ⟨dy, hdy, hoy⟩ := hy
  exact hp.type_unique hdx hdy (hox.trans hoy.symm) (by simp [hox])

theorem WellFormed.ne_of_instance (hp : p.WellFormed) {id definition : TypeId}
    {args : List TypeId} (h : p.TypeInstance id definition args) : id ≠ definition := by
  rintro rfl
  obtain ⟨desc, hd, ho⟩ := h
  obtain ⟨-, -, hlt, -⟩ := (hp.type_ok hd).derived ho
  exact Nat.lt_irrefl _ hlt

theorem typeDefinition_eq_ok {id definition : TypeId} : p.typeDefinition id = .ok definition ↔
    ∃ desc, p.typeDesc id = .ok desc ∧ desc.definition?.getD id = definition := by
  rw [typeDefinition]
  cases p.typeDesc id with
  | ok desc => simp [bind, Except.bind, pure, Except.pure]
  | error e => simp [bind, Except.bind]

/-- A type whose definition is another one is an instance of it. -/
theorem exists_instance_of_typeDefinition {id definition : TypeId}
    (h : p.typeDefinition id = .ok definition) (hne : id ≠ definition) :
    ∃ args, p.TypeInstance id definition args := by
  obtain ⟨desc, hd, hdef⟩ := typeDefinition_eq_ok.1 h
  cases ho : desc.origin with
  | declared =>
    rw [TypeDesc.definition?, ho] at hdef
    exact absurd hdef hne
  | derived found args =>
    rw [TypeDesc.definition?, ho] at hdef
    obtain rfl : found = definition := hdef
    exact ⟨args, desc, hd, ho⟩

/-! ## Reference types and value types -/

/-- The type is a value type, or is none. -/
def HasKind (p : Program) (isValue : Bool) (id : TypeId) : Prop :=
  ∃ desc, p.typeDesc id = .ok desc ∧ desc.isValueType = isValue

abbrev IsReference (p : Program) (id : TypeId) : Prop := p.HasKind false id

abbrev IsValue (p : Program) (id : TypeId) : Prop := p.HasKind true id

instance (p : Program) (isValue : Bool) (id : TypeId) : Decidable (p.HasKind isValue id) :=
  decidableExistsOk (p.typeDesc id)

section HasKind

variable {isValue : Bool} {id : TypeId}

theorem HasKind.mono (h : p.HasKind isValue id) (hpq : p ≤ q) : q.HasKind isValue id := by
  obtain ⟨desc, hd, hkind⟩ := h
  exact ⟨desc, typeDesc_stable _ _ _ hd _ hpq, hkind⟩

theorem HasKind.of_le (hpq : p ≤ q) (hid : p.HasType id) (h : q.HasKind isValue id) :
    p.HasKind isValue id := by
  obtain ⟨desc, hd, hkind⟩ := h
  exact ⟨desc, typeDesc_of_le hpq hid hd, hkind⟩

theorem HasKind.hasType (h : p.HasKind isValue id) : p.HasType id := by
  obtain ⟨desc, hd, -⟩ := h
  exact hasType_of_desc hd

end HasKind

theorem IsValue.not_isReference {id : TypeId} (h : p.IsValue id) : ¬ p.IsReference id := by
  rintro ⟨desc, hd, hreference⟩
  obtain ⟨desc', hd', hvalue⟩ := h
  cases hd.symm.trans hd'
  rw [hvalue] at hreference
  cases hreference

theorem HasType.isReference_or_isValue {id : TypeId} (h : p.HasType id) :
    p.IsReference id ∨ p.IsValue id := by
  obtain ⟨desc, hd⟩ := hasType_iff.1 h
  cases hkind : desc.isValueType with
  | false => exact .inl ⟨desc, hd, hkind⟩
  | true => exact .inr ⟨desc, hd, hkind⟩

theorem WellFormed.isReference_canon (hp : p.WellFormed) : p.IsReference .canon :=
  HasKind.mono ⟨_, rfl, rfl⟩ hp.initial_le

/-- An instance is of the kind of its definition. -/
theorem WellFormed.isValue_instance (hp : p.WellFormed) {id definition : TypeId}
    {args : List TypeId} (h : p.TypeInstance id definition args) :
    p.IsValue id ↔ p.IsValue definition := by
  obtain ⟨desc, hd, ho⟩ := h
  -- the description of an instance is that of its definition under another name
  obtain ⟨-, -, -, -, hinst⟩ := (hp.type_ok hd).derived ho
  obtain ⟨original, list, horig, -, rfl⟩ := typeInstance_eq_ok.1 hinst
  constructor
  · rintro ⟨desc, hd', hkind⟩
    cases hd.symm.trans hd'
    exact ⟨original, horig, hkind⟩
  · rintro ⟨desc, hd', hkind⟩
    cases horig.symm.trans hd'
    exact ⟨_, hd, hkind⟩

/-! ## Sharing -/

mutual

/-- Types that share code. -/
inductive Shares (p : Program) : TypeId → TypeId → Prop
  | same (id : TypeId) : Shares p id id
  | derived {x y definition : TypeId} {args args' : List TypeId}
    (hx : p.TypeInstance x definition args) (hy : p.TypeInstance y definition args')
    (hargs : ArgumentsShare p args args') : Shares p x y

/-- Arguments that shared code need not tell apart: any two reference types, and value types that
share code. -/
inductive ArgumentsShare (p : Program) : List TypeId → List TypeId → Prop
  | nil : ArgumentsShare p [] []
  | reference {x y : TypeId} {xs ys : List TypeId} (hx : p.IsReference x) (hy : p.IsReference y)
    (h : ArgumentsShare p xs ys) : ArgumentsShare p (x :: xs) (y :: ys)
  | value {x y : TypeId} {xs ys : List TypeId} (hx : p.IsValue x) (hy : p.IsValue y)
    (hxy : Shares p x y) (h : ArgumentsShare p xs ys) : ArgumentsShare p (x :: xs) (y :: ys)

end

mutual

theorem Shares.symm {x y : TypeId} : p.Shares x y → p.Shares y x
  | .same id => .same id
  | .derived hx hy hargs => .derived hy hx hargs.symm

theorem ArgumentsShare.symm {xs ys : List TypeId} : p.ArgumentsShare xs ys →
    p.ArgumentsShare ys xs
  | .nil => .nil
  | .reference hx hy h => .reference hy hx h.symm
  | .value hx hy hxy h => .value hy hx hxy.symm h.symm

end

mutual

theorem Shares.trans {x y z : TypeId} : p.Shares x y → p.Shares y z → p.Shares x z
  | .same _, h => h
  | .derived hx hy hargs, .same _ => .derived hx hy hargs
  | .derived hx hy hargs, .derived hy' hz hargs' => by
    -- `y` is an instance in one way only
    obtain ⟨rfl, rfl⟩ := hy.unique hy'
    exact .derived hx hz (hargs.trans hargs')

theorem ArgumentsShare.trans {xs ys zs : List TypeId} : p.ArgumentsShare xs ys →
    p.ArgumentsShare ys zs → p.ArgumentsShare xs zs
  | .nil, .nil => .nil
  | .reference hx _ h, .reference _ hz h' => .reference hx hz (h.trans h')
  | .value hx _ hxy h, .value _ hz hyz h' => .value hx hz (hxy.trans hyz) (h.trans h')
  | .reference _ hy _, .value hy' _ _ _ => absurd hy hy'.not_isReference
  | .value _ hy _ _, .reference hy' _ _ => absurd hy' hy.not_isReference

end

mutual

theorem Shares.mono (hpq : p ≤ q) {x y : TypeId} : p.Shares x y → q.Shares x y
  | .same id => .same id
  | .derived hx hy hargs => .derived (hx.mono hpq) (hy.mono hpq) (hargs.mono hpq)

theorem ArgumentsShare.mono (hpq : p ≤ q) {xs ys : List TypeId} : p.ArgumentsShare xs ys →
    q.ArgumentsShare xs ys
  | .nil => .nil
  | .reference hx hy h => .reference (hx.mono hpq) (hy.mono hpq) (h.mono hpq)
  | .value hx hy hxy h => .value (hx.mono hpq) (hy.mono hpq) (hxy.mono hpq) (h.mono hpq)

end

mutual

/-- Whether types of a program share code does not depend on what was added to it. -/
theorem Shares.of_le (hp : p.WellFormed) (hpq : p ≤ q) {x y : TypeId} : q.Shares x y →
    p.HasType x → p.HasType y → p.Shares x y
  | .same id, _, _ => .same id
  | .derived hx hy hargs, hpx, hpy =>
    have hx := hx.of_le hpq hpx
    have hy := hy.of_le hpq hpy
    .derived hx hy (hargs.of_le hp hpq (hx.hasType_args hp) (hy.hasType_args hp))

theorem ArgumentsShare.of_le (hp : p.WellFormed) (hpq : p ≤ q) {xs ys : List TypeId} :
    q.ArgumentsShare xs ys → (∀ x ∈ xs, p.HasType x) → (∀ y ∈ ys, p.HasType y) →
      p.ArgumentsShare xs ys
  | .nil, _, _ => .nil
  | .reference hx hy h, hxs, hys =>
    have hxs := List.forall_mem_cons.1 hxs
    have hys := List.forall_mem_cons.1 hys
    .reference (hx.of_le hpq hxs.1) (hy.of_le hpq hys.1) (h.of_le hp hpq hxs.2 hys.2)
  | .value hx hy hxy h, hxs, hys =>
    have hxs := List.forall_mem_cons.1 hxs
    have hys := List.forall_mem_cons.1 hys
    .value (hx.of_le hpq hxs.1) (hy.of_le hpq hys.1) (hxy.of_le hp hpq hxs.1 hys.1)
      (h.of_le hp hpq hxs.2 hys.2)

end

/-- Types that share code are of one kind. -/
theorem Shares.isValue_iff (hp : p.WellFormed) {x y : TypeId} (h : p.Shares x y) :
    p.IsValue x ↔ p.IsValue y := by
  cases h with
  | same => exact Iff.rfl
  | derived hx hy => exact (hp.isValue_instance hx).trans (hp.isValue_instance hy).symm

theorem Shares.exists_instance {x y definition : TypeId} {args : List TypeId} (h : p.Shares x y)
    (hx : p.TypeInstance x definition args) : ∃ args', p.TypeInstance y definition args' := by
  cases h with
  | same => exact ⟨args, hx⟩
  | derived hx' hy =>
    obtain ⟨rfl, -⟩ := hx.unique hx'
    exact ⟨_, hy⟩

/-- Two arguments that need not be told apart: reference types, or value types that are related. -/
def SharedArgument (p : Program) (related : TypeId → TypeId → Prop) (x y : TypeId) : Prop :=
  (p.IsReference x ∧ p.IsReference y) ∨ (p.IsValue x ∧ p.IsValue y ∧ related x y)

theorem argumentsShare_iff {xs ys : List TypeId} :
    p.ArgumentsShare xs ys ↔ List.Forall₂ (p.SharedArgument p.Shares) xs ys := by
  constructor
  · intro h
    induction xs generalizing ys with
    | nil =>
      cases h
      exact .nil
    | cons x xs ih =>
      cases h with
      | reference hx hy h => exact .cons (.inl ⟨hx, hy⟩) (ih h)
      | value hx hy hxy h => exact .cons (.inr ⟨hx, hy, hxy⟩) (ih h)
  · intro h
    induction h with
    | nil => exact .nil
    | cons hxy _ ih =>
      rcases hxy with ⟨hx, hy⟩ | ⟨hx, hy, hxy⟩
      · exact .reference hx hy ih
      · exact .value hx hy hxy ih

theorem argumentsShare_refl {args : List TypeId} (h : ∀ arg ∈ args, p.HasType arg) :
    p.ArgumentsShare args args :=
  argumentsShare_iff.2 <| List.forall₂_same.2 fun arg ha =>
    (h arg ha).isReference_or_isValue.imp (fun h => ⟨h, h⟩) fun h => ⟨h, h, .same arg⟩

/-- A definition shares code with itself only. -/
theorem Shares.eq_of_definition (hp : p.WellFormed) {x y : TypeId} (h : p.Shares x y)
    (hx : p.typeDefinition x = .ok x) : x = y := by
  cases h with
  | same => rfl
  | derived hinst =>
    obtain ⟨desc, hd, ho⟩ := id hinst
    obtain ⟨desc', hd', hself⟩ := typeDefinition_eq_ok.1 hx
    cases hd.symm.trans hd'
    rw [TypeDesc.definition?, ho] at hself
    exact absurd hself.symm (hp.ne_of_instance hinst)

theorem Shares.typeDefinition_eq {x y definition : TypeId} (h : p.Shares x y)
    (hx : p.typeDefinition x = .ok definition) : p.typeDefinition y = .ok definition := by
  cases h with
  | same => exact hx
  | derived hinst hinst' =>
    obtain ⟨desc, hd, ho⟩ := hinst
    obtain ⟨desc', hd', ho'⟩ := hinst'
    obtain ⟨found, hf, rfl⟩ := typeDefinition_eq_ok.1 hx
    cases hd.symm.trans hf
    refine typeDefinition_eq_ok.2 ⟨desc', hd', ?_⟩
    rw [TypeDesc.definition?, TypeDesc.definition?, ho, ho']
    rfl

/-! ## Normal forms -/

/-- Types that are declared, or made from the placeholder and value types in normal form. -/
inductive Normal (p : Program) : TypeId → Prop
  | declared {id : TypeId} {desc : TypeDesc} (hd : p.typeDesc id = .ok desc)
    (ho : desc.origin = .declared) : Normal p id
  | derived {id definition : TypeId} {args : List TypeId} (h : p.TypeInstance id definition args)
    (hkinds : ∀ arg ∈ args, arg = .canon ∨ p.IsValue arg)
    (hargs : ∀ arg ∈ args, Normal p arg) : Normal p id

/-- What a type in normal form may be applied to. -/
structure NormalArgument (p : Program) (arg : TypeId) : Prop where
  kind : arg = .canon ∨ p.IsValue arg
  normal : p.Normal arg

theorem Normal.mono {id : TypeId} (h : p.Normal id) (hpq : p ≤ q) : q.Normal id := by
  induction h with
  | declared hd ho => exact .declared (typeDesc_stable _ _ _ hd _ hpq) ho
  | derived h hkinds _ ih =>
    exact .derived (h.mono hpq) (fun arg ha => (hkinds arg ha).imp_right fun h => h.mono hpq) ih

theorem Normal.hasType {id : TypeId} (h : p.Normal id) : p.HasType id := by
  cases h with
  | declared hd => exact hasType_of_desc hd
  | derived h => exact h.hasType

theorem NormalArgument.mono {arg : TypeId} (h : p.NormalArgument arg) (hpq : p ≤ q) :
    q.NormalArgument arg :=
  ⟨h.kind.imp_right fun h => h.mono hpq, h.normal.mono hpq⟩

theorem Normal.of_instance {id definition : TypeId} {args : List TypeId}
    (h : p.TypeInstance id definition args) (hargs : ∀ arg ∈ args, p.NormalArgument arg) :
    p.Normal id :=
  .derived h (fun arg ha => (hargs arg ha).kind) fun arg ha => (hargs arg ha).normal

theorem Normal.args {id definition : TypeId} {args : List TypeId} (h : p.Normal id)
    (hinst : p.TypeInstance id definition args) : ∀ arg ∈ args, p.NormalArgument arg := by
  cases h with
  | declared hd ho =>
    obtain ⟨desc, hd', ho'⟩ := hinst
    cases hd.symm.trans hd'
    cases ho.symm.trans ho'
  | derived h hkinds hargs =>
    obtain ⟨-, rfl⟩ := h.unique hinst
    exact fun arg ha => ⟨hkinds arg ha, hargs arg ha⟩

theorem WellFormed.normalArgument_canon (hp : p.WellFormed) : p.NormalArgument .canon :=
  ⟨.inl rfl, Normal.mono (.declared rfl rfl) hp.initial_le⟩

/-- The only reference type among the arguments of normal forms is the placeholder. -/
theorem NormalArgument.eq_canon {arg : TypeId} (h : p.NormalArgument arg)
    (hreference : p.IsReference arg) : arg = .canon :=
  h.kind.resolve_right fun hvalue => hvalue.not_isReference hreference

mutual

/-- Normal forms are unique. -/
theorem Shares.eq_of_normal (hp : p.WellFormed) {x y : TypeId} : p.Shares x y → p.Normal x →
    p.Normal y → x = y
  | .same _, _, _ => rfl
  | .derived hx hy hargs, hnx, hny => by
    -- instances of one definition for equal arguments are there only once
    obtain rfl := hargs.eq_of_normal hp (hnx.args hx) (hny.args hy)
    exact hp.eq_of_instance hx hy

theorem ArgumentsShare.eq_of_normal (hp : p.WellFormed) {xs ys : List TypeId} :
    p.ArgumentsShare xs ys → (∀ x ∈ xs, p.NormalArgument x) → (∀ y ∈ ys, p.NormalArgument y) →
      xs = ys
  | .nil, _, _ => rfl
  | .reference hx hy h, hxs, hys => by
    obtain ⟨hnx, hxs⟩ := List.forall_mem_cons.1 hxs
    obtain ⟨hny, hys⟩ := List.forall_mem_cons.1 hys
    rw [hnx.eq_canon hx, hny.eq_canon hy, h.eq_of_normal hp hxs hys]
  | .value _ _ hxy h, hxs, hys => by
    obtain ⟨hnx, hxs⟩ := List.forall_mem_cons.1 hxs
    obtain ⟨hny, hys⟩ := List.forall_mem_cons.1 hys
    rw [hxy.eq_of_normal hp hnx.normal hny.normal, h.eq_of_normal hp hxs hys]

end

/-- The second type is the normal form of the first. -/
structure TypeForm (p : Program) (id form : TypeId) : Prop where
  shares : p.Shares id form
  normal : p.Normal form

/-- The second type stands for the first in the arguments of normal forms. -/
structure ArgumentForm (p : Program) (arg form : TypeId) : Prop where
  shared : p.SharedArgument p.Shares arg form
  normal : p.NormalArgument form

theorem TypeForm.mono {id form : TypeId} (h : p.TypeForm id form) (hpq : p ≤ q) :
    q.TypeForm id form :=
  ⟨h.shares.mono hpq, h.normal.mono hpq⟩

theorem ArgumentForm.mono {arg form : TypeId} (h : p.ArgumentForm arg form) (hpq : p ≤ q) :
    q.ArgumentForm arg form :=
  ⟨h.shared.imp (fun h => ⟨h.1.mono hpq, h.2.mono hpq⟩)
    fun h => ⟨h.1.mono hpq, h.2.1.mono hpq, h.2.2.mono hpq⟩, h.normal.mono hpq⟩

section

variable {args forms : List TypeId} (h : List.Forall₂ p.ArgumentForm args forms)
include h

theorem argumentsShare_of_forms : p.ArgumentsShare args forms :=
  argumentsShare_iff.2 (h.imp fun _ _ hform => hform.shared)

theorem normalArgument_of_forms : ∀ form ∈ forms, p.NormalArgument form := by
  intro form hmem
  obtain ⟨_, -, hform⟩ := exists_mem_of_forall₂ h hmem
  exact hform.normal

end

theorem argumentForm_lasts (arg : TypeId) : Lasts fun q form => ArgumentForm q arg form :=
  fun h hle => h.mono hle

/-- Types share code exactly if they have one normal form. -/
theorem TypeForm.eq_iff (hp : p.WellFormed) {x y c d : TypeId} (hx : p.TypeForm x c)
    (hy : p.TypeForm y d) : c = d ↔ p.Shares x y := by
  constructor
  · rintro rfl
    exact hx.shares.trans hy.shares.symm
  · intro h
    exact ((hx.shares.symm.trans h).trans hy.shares).eq_of_normal hp hx.normal hy.normal

/-- A program that the base has grown into by instances of types only. -/
structure TypeGrowth (base p : Program) : Prop where
  extension : Extension base p
  methods : p.methods = base.methods

theorem TypeGrowth.refl (hp : p.WellFormed) : TypeGrowth p p := ⟨.refl hp, rfl⟩

theorem TypeGrowth.wellFormed (h : TypeGrowth base p) : p.WellFormed := h.extension.wellFormed

theorem TypeGrowth.trans (hpq : TypeGrowth p q) (hqr : TypeGrowth q r) : TypeGrowth p r :=
  ⟨hpq.extension.step hqr.wellFormed hqr.extension.derives, hqr.methods.trans hpq.methods⟩

theorem TypeGrowth.le (h : TypeGrowth p q) : p ≤ q := h.extension.derives.le

end Program

/-! ## Canonical forms -/

theorem mapM_congr {m : Type → Type} [Monad m] [LawfulMonad m] {α β : Type} {f g : α → m β}
    {list : List α} (h : ∀ a ∈ list, f a = g a) : list.mapM f = list.mapM g := by
  induction list with
  | nil => rw [List.mapM_nil, List.mapM_nil]
  | cons a list ih =>
    obtain ⟨ha, hlist⟩ := List.forall_mem_cons.1 h
    rw [List.mapM_cons, List.mapM_cons, ha, ih hlist]

namespace ProgramM

open Program

variable {base p : Program} {E : Program → ProgramError → Prop}

theorem internType_methods {definition id : TypeId} {args : List TypeId} {q : Program}
    (h : internType definition args p = .ok id q) : q.methods = p.methods := by
  rw [internType_apply] at h
  split at h
  · cases h
    rfl
  · split at h <;> cases h
    rfl

theorem canonicalType_of_declared {id : TypeId} {desc : TypeDesc} (hd : p.typeDesc id = .ok desc)
    (ho : desc.origin = .declared) : canonicalType id p = .ok id p := by
  rw [canonicalType, bind_of_ok (ask_eq_ok hd), ho]
  rfl

/-- The canonical form of an instance is made from those of its arguments. -/
theorem canonicalType_of_instance (hp : p.WellFormed) {id definition : TypeId}
    {args : List TypeId} (h : p.TypeInstance id definition args) :
    canonicalType id p = (args.mapM canonicalArgument >>= fun canonical =>
      if canonical = args then pure id else internType definition canonical) p := by
  obtain ⟨desc, hd, ho⟩ := h
  obtain ⟨-, -, -, hlt, -⟩ := (hp.type_ok hd).derived ho
  rw [canonicalType, bind_of_ok (ask_eq_ok hd), ho]
  refine congrFun (congrArg (· >>= _) (mapM_congr fun arg ha => ?_)) p
  simp only [canonicalArgument, dif_pos (hlt arg ha)]

theorem canonicalArgument_of_reference {arg : TypeId} (h : p.IsReference arg) :
    canonicalArgument arg p = .ok .canon p := by
  obtain ⟨desc, hd, hkind⟩ := h
  rw [canonicalArgument, bind_of_ok (ask_eq_ok hd), hkind]
  rfl

theorem canonicalArgument_of_value {arg : TypeId} (h : p.IsValue arg) :
    canonicalArgument arg p = canonicalType arg p := by
  obtain ⟨desc, hd, hkind⟩ := h
  rw [canonicalArgument, bind_of_ok (ask_eq_ok hd), hkind]
  rfl

theorem canonicalArgument_eq_self (hp : p.WellFormed) {arg : TypeId}
    (hkind : arg = .canon ∨ p.IsValue arg)
    (htype : p.IsValue arg → canonicalType arg p = .ok arg p) :
    canonicalArgument arg p = .ok arg p := by
  rcases hkind with rfl | hvalue
  · exact canonicalArgument_of_reference hp.isReference_canon
  · rw [canonicalArgument_of_value hvalue, htype hvalue]

/-- An instance has a normal form if its arguments have. -/
theorem internType_form (hp : TypeGrowth base p) {id definition : TypeId}
    {args canonical : List TypeId} (h : p.TypeInstance id definition args)
    (hforms : List.Forall₂ p.ArgumentForm args canonical) :
    Ends (TypeGrowth base) E (fun q form => q.TypeForm id form)
      (if canonical = args then pure id else internType definition canonical) p := by
  have hnormal := normalArgument_of_forms hforms
  split
  · next hsame => exact .pure hp ⟨.same id, .of_instance h (hsame ▸ hnormal)⟩
  · have ⟨desc, hd, ho⟩ := h
    obtain ⟨⟨original, horig, hdecl, hlen⟩, hne, -⟩ := (hp.wellFormed.type_ok hd).derived ho
    obtain ⟨form, q, hx, hq, hle, hinst⟩ := internType_spec hp.wellFormed horig hdecl
      (hlen.trans hforms.length_eq) (fun hnil => hne (List.forall₂_nil_right_iff.1 (hnil ▸ hforms)))
      fun arg ha => (hnormal arg ha).normal.hasType
    refine .ok hx hle.le ⟨hp.extension.step hq hle, (internType_methods hx).trans hp.methods⟩
      ⟨.derived (h.mono hle.le) hinst ((argumentsShare_of_forms hforms).mono hle.le),
        .of_instance hinst fun arg ha => (hnormal arg ha).mono hle.le⟩

/-- The canonical form of an argument is its normal form if it is a value type, and otherwise the
placeholder. -/
theorem canonicalArgument_form (hp : TypeGrowth base p) {arg : TypeId} (h : p.HasType arg)
    (htype : p.IsValue arg →
      Ends (TypeGrowth base) E (fun q form => q.TypeForm arg form) (canonicalType arg) p) :
    Ends (TypeGrowth base) E (fun q form => q.ArgumentForm arg form) (canonicalArgument arg) p := by
  rcases h.isReference_or_isValue with hkind | hkind
  · exact .ok (canonicalArgument_of_reference hkind) le_rfl hp
      ⟨.inl ⟨hkind, hp.wellFormed.isReference_canon⟩, hp.wellFormed.normalArgument_canon⟩
  · refine .congr (canonicalArgument_of_value hkind) ((htype hkind).imp fun hle hq hform => ?_)
    have hvalue := hkind.mono hle
    have hvalue' := (hform.shares.isValue_iff hq.wellFormed).1 hvalue
    exact ⟨.inr ⟨hvalue, hvalue', hform.shares⟩, .inr hvalue', hform.normal⟩

/-- The canonical form of a type is its normal form. -/
theorem canonicalType_form (hp : TypeGrowth base p) {id : TypeId} (h : p.HasType id) :
    Ends (TypeGrowth base) E (fun q form => q.TypeForm id form) (canonicalType id) p := by
  suffices key : ∀ n {id : TypeId} {p : Program}, id.index = n → TypeGrowth base p →
      p.HasType id → Ends (TypeGrowth base) E (fun q form => q.TypeForm id form) (canonicalType id)
        p from key _ rfl hp h
  clear hp h
  intro n
  -- on the handle: the arguments of an instance are older than the instance
  induction n using Nat.strongRecOn with
  | _ n ih =>
    rintro id p rfl hp h
    obtain ⟨desc, hd⟩ := hasType_iff.1 h
    cases ho : desc.origin with
    | declared =>
      exact .ok (canonicalType_of_declared hd ho) le_rfl hp ⟨.same id, .declared hd ho⟩
    | derived definition args =>
      have hinst : p.TypeInstance id definition args := ⟨desc, hd, ho⟩
      obtain ⟨-, -, -, hlt, -⟩ := (hp.wellFormed.type_ok hd).derived ho
      refine .congr (canonicalType_of_instance hp.wellFormed hinst) ?_
      refine (Ends.mapM (P := fun q arg => q.HasType arg ∧ arg.index < id.index)
        (U := fun q arg form => q.ArgumentForm arg form) (fun h hle => ⟨h.1.mono hle, h.2⟩)
        argumentForm_lasts (fun {arg q} _ hq harg => ?_) hp
        fun arg ha => ⟨hp.wellFormed.hasType_arg hd ho ha, hlt arg ha⟩).bind
        fun hle hq hforms => internType_form hq (hinst.mono hle) hforms
      exact canonicalArgument_form hq harg.1 fun _ => ih _ harg.2 rfl hq harg.1

/-- A type in normal form is its own canonical form. -/
theorem canonicalType_of_normal (hp : p.WellFormed) {id : TypeId} (h : p.Normal id) :
    canonicalType id p = .ok id p := by
  induction h with
  | declared hd ho => exact canonicalType_of_declared hd ho
  | derived hinst hkinds _ ih =>
    have hargs := mapM_eq_self (f := canonicalArgument) fun arg ha =>
      canonicalArgument_eq_self hp (hkinds arg ha) fun _ => ih arg ha
    rw [canonicalType_of_instance hp hinst, bind_of_ok hargs, if_pos rfl]
    rfl

theorem canonicalArguments_of_normal (hp : p.WellFormed) {args : List TypeId}
    (h : ∀ arg ∈ args, p.NormalArgument arg) : args.mapM canonicalArgument p = .ok args p :=
  mapM_eq_self fun arg ha => canonicalArgument_eq_self hp (h arg ha).kind fun _ =>
    canonicalType_of_normal hp (h arg ha).normal

end ProgramM

namespace Program

variable {p : Program}

theorem WellFormed.exists_typeForm (hp : p.WellFormed) {id : TypeId} (h : p.HasType id) :
    ∃ form q, ProgramM.canonicalType id p = .ok form q ∧ p ≤ q ∧ q.TypeForm id form ∧
      TypeGrowth p q := by
  cases ProgramM.canonicalType_form (E := fun _ _ => False) (.refl hp) h with
  | ok hx hle hq hform => exact ⟨_, _, hx, hle, hform, hq⟩
  | error _ _ _ he => exact he.elim

/-- Canonical forms that are made one after the other are equal exactly if the types share code. -/
theorem WellFormed.exists_canonicalTypes (hp : p.WellFormed) {x y : TypeId} (hx : p.HasType x)
    (hy : p.HasType y) : ∃ c d q r, ProgramM.canonicalType x p = .ok c q ∧
      ProgramM.canonicalType y q = .ok d r ∧ (c = d ↔ p.Shares x y) := by
  obtain ⟨c, q, hc, hpq, hform, hq⟩ := hp.exists_typeForm hx
  obtain ⟨d, r, hd, hqr, hform', hr⟩ := hq.wellFormed.exists_typeForm (hy.mono hpq)
  refine ⟨c, d, q, r, hc, hd, ((hform.mono hqr).eq_iff hr.wellFormed hform').trans ?_⟩
  exact ⟨fun h => h.of_le hp (hpq.trans hqr) hx hy, fun h => h.mono (hpq.trans hqr)⟩

/-- Types with one canonical form. -/
def SameCanonicalType (p : Program) (x y : TypeId) : Prop :=
  ∃ c q r, ProgramM.canonicalType x p = .ok c q ∧ ProgramM.canonicalType y q = .ok c r

theorem sameCanonicalType_iff (hp : p.WellFormed) {x y : TypeId} (hx : p.HasType x)
    (hy : p.HasType y) : p.SameCanonicalType x y ↔ p.Shares x y := by
  obtain ⟨c, d, q, r, hc, hd, hiff⟩ := hp.exists_canonicalTypes hx hy
  rw [← hiff]
  constructor
  · rintro ⟨c', q', r', hc', hd'⟩
    cases hc.symm.trans hc'
    cases hd.symm.trans hd'
    rfl
  · rintro rfl
    exact ⟨c, q, r, hc, hd⟩

/-- Canonical types are exact: a type shares code with its canonical form, which stays its own
canonical form without anything being added, and two types share code exactly if their canonical
forms are the same. -/
theorem Reachable.canonicalType_exact (h : p.Reachable) :
    (∀ x, p.HasType x → ∃ c q, ProgramM.canonicalType x p = .ok c q ∧ p ≤ q ∧ q.Shares x c ∧
      ∀ r, q ≤ r → ProgramM.canonicalType c r = .ok c r) ∧
    ∀ x y, p.HasType x → p.HasType y → ∃ c d q r, ProgramM.canonicalType x p = .ok c q ∧
      ProgramM.canonicalType y q = .ok d r ∧ (c = d ↔ p.Shares x y) := by
  refine ⟨fun x hx => ?_, fun x y hx hy => h.wellFormed.exists_canonicalTypes hx hy⟩
  obtain ⟨c, q, hc, hpq, hform, hq⟩ := h.wellFormed.exists_typeForm hx
  refine ⟨c, q, hc, hpq, hform.shares, fun r hqr => ?_⟩
  have hagain := ProgramM.canonicalType_of_normal hq.wellFormed hform.normal
  exact (ProgramM.canonicalType_settles c).again hagain hqr

/-- Lists of optional texts share code with lists of optional such lists. -/
theorem collections_shares : collections.Shares ⟨7⟩ ⟨9⟩ := by
  have htext : collections.IsReference ⟨5⟩ := by decide +kernel
  have hlist : collections.IsReference ⟨7⟩ := by decide +kernel
  have hoptionOfText : collections.TypeInstance ⟨6⟩ ⟨3⟩ [⟨5⟩] := by decide +kernel
  have hoptionOfList : collections.TypeInstance ⟨8⟩ ⟨3⟩ [⟨7⟩] := by decide +kernel
  have hoption : collections.Shares ⟨6⟩ ⟨8⟩ :=
    .derived hoptionOfText hoptionOfList (.reference htext hlist .nil)
  have hlistOfTexts : collections.TypeInstance ⟨7⟩ ⟨2⟩ [⟨6⟩] := by decide +kernel
  have hlistOfLists : collections.TypeInstance ⟨9⟩ ⟨2⟩ [⟨8⟩] := by decide +kernel
  exact .derived hlistOfTexts hlistOfLists
    (.value (by decide +kernel) (by decide +kernel) hoption .nil)

theorem collections_canonicalType_exact : ∃ c q r,
    ProgramM.canonicalType ⟨7⟩ collections = .ok c q ∧
      ProgramM.canonicalType ⟨9⟩ q = .ok c r := by
  obtain ⟨-, hexact⟩ := Reachable.canonicalType_exact collections_reachable
  obtain ⟨c, d, q, r, hc, hd, hiff⟩ := hexact ⟨7⟩ ⟨9⟩ (by decide +kernel) (by decide +kernel)
  obtain rfl := hiff.2 collections_shares
  exact ⟨c, q, r, hc, hd⟩

end Program

end NativeImage
