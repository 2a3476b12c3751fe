import NativeImage.Proofs.CompilationUnit.Provenance

/-!
# Code and data of the unit's own

A unit owns the types that are defined in its modules, and the methods of these types. Whoever owns
an instance owns whatever shares code with it, since all of these have one definition. So it does
not matter that calls of shared code go to canonical forms, and that the thread statics of a type
are made without asking who owns the type: a compiled unit has code and static data of its own types
and methods only, and refers to other units only for code that it does not own.

## Main definitions

- `CompilationUnit.OwnsNode` — nodes that stand for what the unit owns, or refer to what it does not

## Main statements

- `Ownership.ownsType_eq_of_shares`, `Ownership.ownsMethod_eq_of_shares` — sharing classes are owned
  as a whole
- `CompilationUnit.compile_respects_ownership`
-/

namespace NativeImage

open ImageM Program

/-! ## Sharing classes -/

namespace Program

variable {p : Program}

/-- Types that share code have one home. -/
theorem WellFormed.sameHome_of_shares (hp : p.WellFormed) {x y : TypeId} (hx : p.HasType x)
    (h : p.Shares x y) : p.SameHome x y := by
  obtain ⟨home, hhome, -⟩ := hp.sameHome_refl hx
  exact ⟨home, hhome, h.typeDefinition_eq hhome⟩

end Program

namespace Ownership

variable {p q : Program} (ownership : Ownership)

/-- A type is owned as its home is. -/
theorem ownsType_eq_of_sameHome {x y : TypeId} (h : p.SameHome x y) :
    ownership.ownsType p x = ownership.ownsType p y := by
  obtain ⟨home, hx, hy⟩ := h
  cases ownership with
  | everything => rfl
  | modules ids => simp only [ownsType, hx, hy]

theorem ownsMethod_eq {method : MethodId} {desc : MethodDesc}
    (hd : p.methodDesc method = .ok desc) :
    ownership.ownsMethod p method = ownership.ownsType p desc.owner := by
  simp only [ownsMethod, hd, bind, Except.bind]

theorem exists_ownsType (hp : p.WellFormed) {type : TypeId} (h : p.HasType type) :
    ∃ own, ownership.ownsType p type = .ok own := by
  have hext := Extension.refl hp
  obtain ⟨own, hown, -⟩ := ownership.ownsType_agrees hext hext (.refl hext h)
  exact ⟨own, hown⟩

theorem exists_ownsMethod (hp : p.WellFormed) {method : MethodId} (h : p.HasMethod method) :
    ∃ own, ownership.ownsMethod p method = .ok own := by
  obtain ⟨desc, hd⟩ := hasMethod_iff.1 h
  rw [ownership.ownsMethod_eq hd]
  exact ownership.exists_ownsType hp (hp.method_ok hd).owner

theorem ownsType_eq_of_shares (hp : p.WellFormed) {x y : TypeId} (hx : p.HasType x)
    (h : p.Shares x y) : ownership.ownsType p x = ownership.ownsType p y :=
  ownership.ownsType_eq_of_sameHome (hp.sameHome_of_shares hx h)

theorem ownsMethod_eq_of_shares (hp : p.WellFormed) {x y : MethodId} (h : p.MethodShares x y) :
    ownership.ownsMethod p x = ownership.ownsMethod p y := by
  cases h with
  | same => rfl
  | derived hx hy howner =>
    have howner := ownership.ownsType_eq_of_shares hp (hx.hasType_owner hp) howner
    obtain ⟨dx, hdx, -, rfl⟩ := hx
    obtain ⟨dy, hdy, -, rfl⟩ := hy
    rw [ownership.ownsMethod_eq hdx, ownership.ownsMethod_eq hdy, howner]

/-- A method is owned exactly if its canonical form is. -/
theorem ownsMethod_canonical (hp : p.Reachable) {method : MethodId} (h : p.HasMethod method) :
    ∃ form q own, ProgramM.canonicalMethod method p = .ok form q ∧
      ownership.ownsMethod p method = .ok own ∧ ownership.ownsMethod q method = .ok own ∧
      ownership.ownsMethod q form = .ok own := by
  obtain ⟨form, q, hx, hq, hform⟩ := ProgramM.canonicalMethod_form hp.wellFormed hp.housed h
  obtain ⟨own, hown⟩ := ownership.exists_ownsMethod hp.wellFormed h
  have hlater := ownership.ownsMethod_stable method _ _ hown _ hq.le
  refine ⟨form, q, own, hx, hown, hlater, ?_⟩
  rwa [← ownership.ownsMethod_eq_of_shares hq.wellFormed hform.shares]

/-- A type is owned exactly if its canonical form is. -/
theorem ownsType_canonical (hp : p.WellFormed) {type : TypeId} (h : p.HasType type) :
    ∃ form q own, ProgramM.canonicalType type p = .ok form q ∧
      ownership.ownsType p type = .ok own ∧ ownership.ownsType q type = .ok own ∧
      ownership.ownsType q form = .ok own := by
  obtain ⟨form, q, hx, hle, hform, hq⟩ := hp.exists_typeForm h
  obtain ⟨own, hown⟩ := ownership.exists_ownsType hp h
  have hlater := ownership.ownsType_stable type _ _ hown _ hle
  refine ⟨form, q, own, hx, hown, hlater, ?_⟩
  rwa [← ownership.ownsType_eq_of_shares hq.wellFormed (h.mono hle) hform.shares]

end Ownership

/-! ## Emitted nodes -/

namespace CompilationUnit

variable {unit : CompilationUnit} {base : Program} {bodies : CodeBodies} {methods : List MethodId}
  {output : CompiledUnit} {final : Image}

/-- Code and static data are of what the unit owns, and code of other units is of what it does
not. -/
def OwnsNode (unit : CompilationUnit) (p : Program) : NodeKind → Prop
  | .methodCode entry => unit.ownership.ownsMethod p entry.method = .ok true
  | .externMethod entry => unit.ownership.ownsMethod p entry.method = .ok false
  | .gcStaticDesc type _ | .gcStaticBase type | .threadStaticsOffset type
  | .threadStaticsBlock type => unit.ownership.ownsType p type = .ok true
  | _ => True

theorem Warrants.ownsNode {asked : Request → Prop} {s : Image} {kind : NodeKind}
    (h : unit.Warrants asked s kind) : unit.OwnsNode s.program kind := by
  cases kind with
  | methodCode entry => exact h.1
  | externMethod | gcStaticDesc | gcStaticBase | threadStaticsOffset | threadStaticsBlock => exact h
  | _ => trivial

/-- Ownership is respected and never divides what shares code. A method is owned exactly if its
canonical form is, and so is a type; and whatever a new unit emits is of what it owns, or refers to
code that it does not own, if no body requests a node by its handle. -/
theorem compile_respects_ownership (unit : CompilationUnit) (hb : base.Reachable) :
    (∀ method, base.HasMethod method → ∃ form q own,
      ProgramM.canonicalMethod method base = .ok form q ∧
      unit.ownership.ownsMethod base method = .ok own ∧
      unit.ownership.ownsMethod q method = .ok own ∧
      unit.ownership.ownsMethod q form = .ok own) ∧
    (∀ type, base.HasType type → ∃ form q own,
      ProgramM.canonicalType type base = .ok form q ∧
      unit.ownership.ownsType base type = .ok own ∧
      unit.ownership.ownsType q type = .ok own ∧
      unit.ownership.ownsType q form = .ok own) ∧
    ∀ bodies methods output final, (∀ request ∈ bodies.requests, request.isNode = false) →
      unit.compile bodies methods (.initial unit.config base) = .ok output final →
      ∀ emitted ∈ output.nodes, unit.OwnsNode final.program emitted.node.kind := by
  refine ⟨fun method hm => unit.ownership.ownsMethod_canonical hb hm,
    fun type ht => unit.ownership.ownsType_canonical hb.wellFormed ht,
    fun bodies methods output final hbodies h emitted he => ?_⟩
  exact (compile_warranted hb hbodies h emitted he).ownsNode

/-! ## A library and an application -/

/-- A library has a class with static fields and a generic class, an application a class with static
fields, another class, and a delegate type. -/
def libraryProgram : Program :=
  let fields : StaticsLayout := { gcSlots := [0], threadGcSlots := [1], threadSize := 16 }
  initial.after [
    .declareModule ⟨"Lib", false⟩,
    .declareModule ⟨"App", false⟩,
    .declareType { name := "Settings", module := ⟨1⟩, statics := fields },
    .declareType { name := "List", module := ⟨1⟩, genericArity := 1 },
    .declareType { name := "Main", module := ⟨2⟩, statics := fields },
    .declareType { name := "Item", module := ⟨2⟩ },
    .declareType { name := "Callback", module := ⟨2⟩, kind := .delegate 1 },
    .declareMethod { name := "Run", owner := ⟨4⟩, isStatic := true },
    .declareMethod { name := "Add", owner := ⟨3⟩, isStatic := true, paramCount := 1 },
    .intern (.instantiateType ⟨3⟩ [⟨4⟩]),
    .intern (.instantiateType ⟨3⟩ [⟨5⟩]),
    .intern (.methodOnType ⟨6⟩ ⟨7⟩),
    .intern (.methodOnType ⟨6⟩ ⟨8⟩)]

/-- The application is compiled without the library. -/
def applicationUnit : CompilationUnit :=
  ⟨{ arch := .x64, unitPrefix := "app", importedPrefix := "lib" }, .modules [⟨2⟩], .absent⟩

/-- Its entry point uses static fields of both, and shared code of the library. -/
def applicationBodies : CodeBodies :=
  ⟨[(⟨5⟩, [.gcStaticBase ⟨2⟩, .threadStaticBase ⟨2⟩, .gcStaticBase ⟨4⟩, .threadStaticBase ⟨4⟩,
    .call ⟨7⟩, .delegate ⟨6⟩ ⟨8⟩])]⟩

theorem libraryProgram_reachable : libraryProgram.Reachable :=
  Reachable.initial.after (by decide +kernel)

theorem application_respects_ownership :
    (∃ form q, ProgramM.canonicalMethod ⟨7⟩ libraryProgram = .ok form q ∧
      applicationUnit.ownership.ownsMethod q form = .ok false) ∧
    ∃ output final, applicationUnit.compile applicationBodies [⟨5⟩]
        (.initial applicationUnit.config libraryProgram) = .ok output final ∧
      ∀ emitted ∈ output.nodes, applicationUnit.OwnsNode final.program emitted.node.kind := by
  obtain ⟨hmethods, -, hcompile⟩ :=
    compile_respects_ownership applicationUnit libraryProgram_reachable
  constructor
  · obtain ⟨form, q, own, hx, hown, -, hform⟩ := hmethods ⟨7⟩ (by decide +kernel)
    have hforeign : applicationUnit.ownership.ownsMethod libraryProgram ⟨7⟩ = .ok false := by
      decide +kernel
    cases hown.symm.trans hforeign
    exact ⟨form, q, hx, hform⟩
  · have hrun : succeeds (applicationUnit.compile applicationBodies [⟨5⟩]
        (.initial applicationUnit.config libraryProgram)) = true := by decide +kernel
    obtain ⟨output, final, h⟩ := exists_ok_of_succeeds hrun
    exact ⟨output, final, h, hcompile _ _ _ _ (by decide) h⟩

end CompilationUnit

end NativeImage
