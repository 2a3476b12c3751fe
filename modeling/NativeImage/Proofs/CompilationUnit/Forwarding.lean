import Mathlib.Logic.Relation
import NativeImage.Proofs.CompilationUnit.Answering
import NativeImage.Proofs.CompilationUnit.CodeSharing
import NativeImage.Proofs.CompilationUnit.SharedProgram

/-!
# Where forwarding ends

Stubs, shadows and fat pointers hold nodes that were there before them, so following them from node
to node comes to an end. A shadow or a fat pointer of a method ends in the code of the method's
canonical form, whatever has been added to the program since it was made; on the way it passes an
unboxing entry exactly if boxed receivers enter through it.

## Main definitions

- `NodeKind.held`, `NodeKind.forward?` — what a node holds, and where it forwards to
- `Image.HoldsOlder` — nodes hold nodes that are older than themselves
- `Image.Forwards` — one step from a node to the one that it forwards to

## Main statements

- `Image.Together.holdsOlder` — whatever two units over one program are asked
- `CompilationUnit.methodEntry_leads` — the entry of a method leads to its code
- `Image.Together.forwards_to_canonical`
-/

namespace NativeImage

open Program Image ImageM Relation

/-! ## Nodes that forward -/

namespace NodeKind

/-- What a stub, a shadow or a fat pointer holds. -/
def held : NodeKind → List NodeId
  | unboxingStub _ target | shadowMethod _ target => [target]
  | fatPointer _ target dictionary => [target, dictionary]
  | _ => []

/-- Where it forwards to. -/
def forward? : NodeKind → Option NodeId
  | unboxingStub _ target | shadowMethod _ target | fatPointer _ target _ => some target
  | _ => none

/-- The instance whose shadow or fat pointer it is. -/
def instance? : NodeKind → Option MethodEntry
  | shadowMethod entry _ | fatPointer entry _ _ => some entry
  | _ => none

/-- The method that boxed receivers enter there. -/
def unboxes? : NodeKind → Option MethodId
  | unboxingStub method _ | methodCode ⟨method, true⟩ | externMethod ⟨method, true⟩ => some method
  | _ => none

/-- The method whose code is there, or in another unit, or in the runtime. -/
def body? : NodeKind → Option MethodId
  | methodCode entry | externMethod entry => some entry.method
  | runtimeImport method => some method
  | _ => none

theorem mem_held_of_forward? {kind : NodeKind} {target : NodeId}
    (h : kind.forward? = some target) : target ∈ kind.held := by
  cases kind <;> simp_all [forward?, held]

/-- Code forwards to nothing. -/
theorem forward?_of_body? {kind : NodeKind} {method : MethodId} (h : kind.body? = some method) :
    kind.forward? = none := by
  cases kind <;> first | rfl | cases h

/-- Where a method is entered there is its code, or a stub. -/
theorem body_or_stub {kind : NodeKind} {entry : MethodEntry} (h : kind.entry? = some entry) :
    (kind.unboxes? = some entry.method ↔ entry.unboxing = true) ∧
      (kind.body? = some entry.method ∨
        entry.unboxing = true ∧ ∃ target, kind = .unboxingStub entry.method target) := by
  cases kind with
  | methodCode entry | externMethod entry =>
    cases h
    obtain ⟨method, unboxing⟩ := entry
    cases unboxing <;> simp [unboxes?, body?]
  | runtimeImport method =>
    cases h
    simp [unboxes?, body?]
  | unboxingStub method target =>
    cases h
    simp [unboxes?]
  | _ => cases h

theorem held_of_isAttached {kind : NodeKind} (h : kind.isAttached = true) : kind.held = [] := by
  cases kind <;> first | rfl | cases h

end NodeKind

theorem LeafKey.held_kind (key : LeafKey) : key.kind.held = [] := by cases key <;> rfl

namespace Image

/-- Nodes hold nodes that are older than themselves. -/
def HoldsOlder (s : Image) : Prop :=
  ∀ (id : NodeId) (x : Node), s.nodes[id.index]? = some x →
    ∀ target ∈ x.kind.held, target.index < id.index

/-- The node forwards to the target. -/
def Forwards (s : Image) (id target : NodeId) : Prop :=
  ∃ x, s.nodes[id.index]? = some x ∧ x.kind.forward? = some target

/-- The nodes exist. -/
def Has (s : Image) (ids : List NodeId) : Prop := ∀ id ∈ ids, ∃ x, s.nodes[id.index]? = some x

variable {s t : Image} {x : Node}

theorem HoldsOlder.push (h : s.HoldsOlder) (hx : s.Has x.kind.held) :
    HoldsOlder { s with nodes := s.nodes.push x } := by
  intro id y hy target htarget
  rcases nodes_push.1 hy with hold | ⟨rfl, rfl⟩
  · exact h id y hold target htarget
  · obtain ⟨z, hz⟩ := hx target htarget
    exact (Array.getElem?_eq_some_iff.1 hz).1

theorem initial_holdsOlder (config : UnitConfig) (base : Program) :
    (Image.initial config base).HoldsOlder := by
  intro id x hx target htarget
  have hnone : x.kind.held = [] :=
    tableKinds_cases (kind_mem_of_initial hx) (fun _ => rfl) rfl rfl (fun _ => rfl) rfl
  rw [hnone] at htarget
  cases htarget

/-- So whoever follows a node arrives somewhere. -/
theorem HoldsOlder.wellFounded (h : s.HoldsOlder) :
    WellFounded fun target id => s.Forwards id target := by
  refine Subrelation.wf (r := InvImage (· < ·) NodeId.index) ?_ (InvImage.wf _ Nat.lt_wfRel.wf)
  rintro target id ⟨x, hx, hforward⟩
  exact h id x hx target (NodeKind.mem_held_of_forward? hforward)

end Image

/-! ## What units are asked -/

namespace CompilationUnit

variable {unit : CompilationUnit} {s : Image}

theorem intern_older (h : s.HoldsOlder) {x : Node} (hx : s.Has x.kind.held) :
    Keeps HoldsOlder (intern x) s :=
  intern_keeps_of h (h.push hx)

/-- A node that is named by the program may hold what is there. -/
theorem named_older (h : s.HoldsOlder) {α : Type} {question : Program → Except ProgramError α}
    {x : α → Node} (hx : ∀ a, s.Has (x a).kind.held) :
    Keeps HoldsOlder (ask question >>= fun a => intern (x a)) s :=
  Sustained.read h fun a _ => intern_older h (hx a)

theorem canonicalMethod_older (h : s.HoldsOlder) (method : MethodId) :
    Keeps HoldsOlder (onProgram (ProgramM.canonicalMethod method)) s :=
  onProgram_keeps ((ProgramM.canonicalMethod_settles method).le_stateAfter _) h

theorem ownedEntry_older (h : s.HoldsOlder) (entry : MethodEntry) :
    Keeps HoldsOlder (unit.ownedEntry entry) s := by
  refine Sustained.read h fun own _ => ?_
  split
  · exact named_older h fun _ => nofun
  · exact named_older h fun _ => nofun

theorem plainEntry_older (h : s.HoldsOlder) (method : MethodId) :
    Keeps HoldsOlder (unit.plainEntry method) s := by
  refine Sustained.read h fun desc _ => ?_
  split
  · exact intern_older h nofun
  · exact ownedEntry_older h _

theorem unboxingEntry_older (h : s.HoldsOlder) (method : MethodId) :
    Keeps HoldsOlder (unit.unboxingEntry method) s := by
  refine Sustained.read h fun desc _ => Sustained.read h fun shared _ => ?_
  split
  · exact ownedEntry_older h _
  · refine (plainEntry_older h method).bind fun htarget _ h => ?_
    obtain ⟨y, hy, -⟩ := plainEntry_kind htarget
    exact named_older h fun _ => List.forall_mem_singleton.2 ⟨y, hy⟩

theorem methodEntry_older (h : s.HoldsOlder) (entry : MethodEntry) :
    Keeps HoldsOlder (unit.methodEntry entry) s := by
  rw [methodEntry]
  split
  · exact unboxingEntry_older h _
  · exact plainEntry_older h _

theorem dictionaryLayout_older (h : s.HoldsOlder) (owner : Entity) :
    Keeps HoldsOlder (CompilationUnit.dictionaryLayout owner) s :=
  named_older h fun _ => nofun

theorem shadowMethod_older (h : s.HoldsOlder) (entry : MethodEntry) :
    Keeps HoldsOlder (unit.shadowMethod entry) s := by
  refine (canonicalMethod_older h entry.method).bind fun _ _ h => ?_
  refine (methodEntry_older h _).bind fun htarget _ h => ?_
  obtain ⟨y, hy, -⟩ := methodEntry_kind htarget
  exact named_older h fun _ => List.forall_mem_singleton.2 ⟨y, hy⟩

theorem fatPointer_older (h : s.HoldsOlder) (entry : MethodEntry) :
    Keeps HoldsOlder (unit.fatPointer entry) s := by
  refine (canonicalMethod_older h entry.method).bind fun _ _ h => ?_
  refine (methodEntry_older h _).bind fun htarget _ h => ?_
  refine (dictionaryLayout_older h _).bind fun hdictionary hle h => ?_
  obtain ⟨y, hy, -⟩ := methodEntry_kind htarget
  obtain ⟨z, hz, -⟩ := kind_of_ask (.dictionaryLayout _) (fun _ => rfl) hdictionary
  exact named_older h fun _ => List.forall_mem_cons.2
    ⟨⟨y, hle.nodes _ _ hy⟩, List.forall_mem_singleton.2 ⟨z, hz⟩⟩

theorem answer_older (h : s.HoldsOlder) (key : CacheKey) :
    Keeps HoldsOlder (unit.answer key) s := by
  cases key with
  | plainEntry method => exact plainEntry_older h method
  | unboxingEntry method => exact unboxingEntry_older h method
  | shadowMethod entry => exact shadowMethod_older h entry
  | fatPointer entry => exact fatPointer_older h entry
  | leaf key =>
    rw [answer, unit.constructLeaf_eq key]
    refine internKind_keeps_of h key.kind fun x hx => h.push ?_
    rw [hx, key.held_kind]
    exact List.forall_mem_nil _

theorem holdsOlder_sustained (unit : CompilationUnit) :
    unit.Sustained (fun _ _ => True) HoldsOlder where
  ordinary _ := trivial
  interned _ h _ := h
  asked key h _ := answer_older h key

/-- Attaching a unit adds nodes that hold nothing. -/
theorem attach_older {base : Program} (hs : s.ByCaches unit base) (h : s.HoldsOlder) :
    Keeps HoldsOlder unit.attach s := by
  obtain ⟨cached, hcached⟩ := hs
  refine attach_keeps hcached.consistent.initial_le h hcached.consistent.unattached (fun _ _ => h)
    fun hx h _ _ => h.push ?_
  rw [NodeKind.held_of_isAttached hx.isAttached]
  exact nofun

end CompilationUnit

/-- Whatever two units over one program are asked, their nodes hold older nodes. -/
theorem Image.Together.holdsOlder {a b : CompilationUnit} {s t : Image} (h : Together a b s t) :
    s.HoldsOlder := by
  suffices hboth : s.HoldsOlder ∧ t.HoldsOlder from hboth.1
  induction h with
  | initial => exact ⟨initial_holdsOlder _ _, initial_holdsOlder _ _⟩
  | @call a _ _ _ h call _ ih =>
    obtain ⟨base, hs⟩ := h.byCaches
    have hcall := FactoryCall.run_keeps_of (CompilationUnit.holdsOlder_sustained a) ih.1
      (CompilationUnit.attach_older hs ih.1) call fun _ _ => ih.1
    exact ⟨hcall.stateAfter, ih.2⟩
  | symm _ ih => exact ih.symm

/-! ## Where entries lead -/

namespace CompilationUnit

variable {unit : CompilationUnit} {base : Program} {s : Image} {id : NodeId}

/-- Following the node leads to the code of the method. -/
def LeadsTo (s : Image) (id : NodeId) (method : MethodId) : Prop :=
  ∃ last x, ReflTransGen s.Forwards id last ∧ s.nodes[last.index]? = some x ∧
    x.kind.body? = some method

theorem plainEntry_leads {method : MethodId} (h : unit.plainEntry method s = .ok id s) :
    LeadsTo s id method := by
  obtain ⟨x, hx, hentry⟩ := plainEntry_kind h
  obtain ⟨-, hbody | ⟨hfalse, -⟩⟩ := NodeKind.body_or_stub hentry
  · exact ⟨id, x, .refl, hx, hbody⟩
  · cases hfalse

/-- The entry of a method leads to its code, and is an unboxing entry if it is asked for as one. -/
theorem methodEntry_leads {entry : MethodEntry} (h : unit.methodEntry entry s = .ok id s) :
    LeadsTo s id entry.method ∧ ∃ x, s.nodes[id.index]? = some x ∧
      (x.kind.unboxes? = some entry.method ↔ entry.unboxing = true) := by
  obtain ⟨x, hx, hentry⟩ := methodEntry_kind h
  obtain ⟨hunboxes, hbody | ⟨hunboxing, target, hkind⟩⟩ := NodeKind.body_or_stub hentry
  · exact ⟨⟨id, x, .refl, hx, hbody⟩, x, hx, hunboxes⟩
  · -- a stub goes on to the plain entry
    rw [methodEntry, if_pos hunboxing] at h
    obtain ⟨last, y, hreach, hy, hlast⟩ := plainEntry_leads (unboxingStub_target hx hkind h)
    have hstep : s.Forwards id target := ⟨x, hx, by rw [hkind]; rfl⟩
    exact ⟨⟨last, y, .head hstep hreach, hy, hlast⟩, x, hx, hunboxes⟩

/-- A shadow or a fat pointer forwards to the entry of the canonical form. -/
theorem instance_forwards {cached : List (CacheKey × NodeId)}
    (hc : CachedImage.Consistent unit base ⟨s, cached⟩) {x : Node} {entry : MethodEntry}
    (hx : s.nodes[id.index]? = some x) (hinstance : x.kind.instance? = some entry) :
    ∃ form target, ProgramM.canonicalMethod entry.method s.program = .ok form s.program ∧
      x.kind.forward? = some target ∧
      unit.methodEntry ⟨form, entry.unboxing⟩ s = .ok target s := by
  cases hkind : x.kind with
  | shadowMethod _ target =>
    rw [hkind] at hinstance
    cases hinstance
    have hkey : x.kind.home? = some (.shadowMethod entry) := by rw [hkind]; rfl
    have hanswer := hc.answer_of_home? hx hkey
    obtain ⟨form, hform, htarget⟩ := shadowMethod_target hx hkind hanswer
    exact ⟨form, target, onProgram_eq_ok hform, rfl, htarget⟩
  | fatPointer _ target dictionary =>
    rw [hkind] at hinstance
    cases hinstance
    have hkey : x.kind.home? = some (.fatPointer entry) := by rw [hkind]; rfl
    have hanswer := hc.answer_of_home? hx hkey
    obtain ⟨form, hform, htarget, -⟩ := fatPointer_target hx hkind hanswer
    exact ⟨form, target, onProgram_eq_ok hform, rfl, htarget⟩
  | _ =>
    rw [hkind] at hinstance
    cases hinstance

/-- A call binds to the entry of a method that is its own canonical form, and to the shadow of any
other one. -/
theorem resolve_call {method : MethodId} {t : Image}
    (h : unit.resolve (.call method) s = .ok id t) :
    ∃ form, ProgramM.canonicalMethod method t.program = .ok form t.program ∧
      ((form = method ∧ unit.plainEntry method t = .ok id t) ∨
        (form ≠ method ∧ unit.shadowMethod ⟨method, false⟩ t = .ok id t)) := by
  have hagain := (unit.resolve_settles (.call method)).repeat_self h
  obtain ⟨form, hform, hrest⟩ :=
    (onProgram_settles (ProgramM.canonicalMethod_settles method)).bind_same (fun form =>
      Settles.ite (unit.plainEntry_settles method) (unit.shadowMethod_settles _)) hagain
  refine ⟨form, onProgram_eq_ok hform, ?_⟩
  split at hrest
  · next heq => exact .inl ⟨heq, hrest⟩
  · next hne => exact .inr ⟨hne, hrest⟩

end CompilationUnit

open CompilationUnit

/-- Forwarding ends in the shared body. Whatever two units over one program are asked, the nodes
that a stub, a shadow or a fat pointer of them holds are older than itself, and nobody is forwarded
for ever. A shadow or a fat pointer forwards to an entry of the method's canonical form, which is an
unboxing entry exactly if boxed receivers enter through it, and on from there to the code of the
canonical form; where canonical forms and ways to enter are the same, the entry is. A call of an
existing method is always resolved: to the entry of the method itself if it is its own canonical
form, else to its shadow. -/
theorem Image.Together.forwards_to_canonical {unit other : CompilationUnit} {s t : Image}
    (h : Together unit other s t) :
    (∀ (id : NodeId) (x : Node), s.nodes[id.index]? = some x →
      ∀ target ∈ x.kind.held, target.index < id.index) ∧
    (WellFounded fun target id => s.Forwards id target) ∧
    (∀ (id : NodeId) (x : Node) (entry : MethodEntry), s.nodes[id.index]? = some x →
      x.kind.instance? = some entry → ∃ form target y,
        ProgramM.canonicalMethod entry.method s.program = .ok form s.program ∧
        x.kind.forward? = some target ∧ s.nodes[target.index]? = some y ∧
        (y.kind.unboxes? = some form ↔ entry.unboxing = true) ∧
        ∃ last z, ReflTransGen s.Forwards target last ∧ s.nodes[last.index]? = some z ∧
          z.kind.body? = some form ∧ z.kind.forward? = none) ∧
    (∀ (id id' : NodeId) (x x' : Node) (entry entry' : MethodEntry) (form : MethodId)
      (p p' : Program), s.nodes[id.index]? = some x → s.nodes[id'.index]? = some x' →
      x.kind.instance? = some entry → x'.kind.instance? = some entry' →
      ProgramM.canonicalMethod entry.method s.program = .ok form p →
      ProgramM.canonicalMethod entry'.method s.program = .ok form p' →
      entry.unboxing = entry'.unboxing → x.kind.forward? = x'.kind.forward?) ∧
    ∀ method, s.program.HasMethod method → ∃ (id : NodeId) (u : Image) (x : Node) (form : MethodId),
      unit.resolve (.call method) s = .ok id u ∧ u.nodes[id.index]? = some x ∧
      ProgramM.canonicalMethod method u.program = .ok form u.program ∧
      ((form = method ∧ unit.plainEntry method u = .ok id u ∧
          x.kind.entry? = some ⟨method, false⟩) ∨
        (form ≠ method ∧ unit.shadowMethod ⟨method, false⟩ u = .ok id u ∧
          ∃ target, x.kind = .shadowMethod ⟨method, false⟩ target)) := by
  have holder : s.HoldsOlder := h.holdsOlder
  obtain ⟨base, cached, hcached⟩ := h.byCaches
  have hc := hcached.consistent
  refine ⟨holder, holder.wellFounded, fun id x entry hx hinstance => ?_,
    fun id id' x x' entry entry' form p p' hx hx' hinstance hinstance' hform hform' hsame => ?_,
    fun method hmethod => ?_⟩
  · obtain ⟨form, target, hform, hforward, htarget⟩ := instance_forwards hc hx hinstance
    obtain ⟨⟨last, z, hreach, hz, hbody⟩, y, hy, hunboxes⟩ := methodEntry_leads htarget
    exact ⟨form, target, y, hform, hforward, hy, hunboxes, last, z, hreach, hz, hbody,
      NodeKind.forward?_of_body? hbody⟩
  · obtain ⟨_, target, hcanonical, hforward, htarget⟩ := instance_forwards hc hx hinstance
    obtain ⟨_, target', hcanonical', hforward', htarget'⟩ := instance_forwards hc hx' hinstance'
    cases hform.symm.trans hcanonical
    cases hform'.symm.trans hcanonical'
    rw [← hsame] at htarget'
    cases htarget.symm.trans htarget'
    exact hforward.trans hforward'.symm
  · have hover : s.Over s.program := Extension.refl h.reachable.wellFormed
    cases unit.resolve_call_over (E := fun _ _ => False) hover hmethod with
    | error _ _ _ hfalse => exact hfalse.elim
    | @ok id u hx _ _ _ =>
      obtain ⟨form, hform, ⟨heq, hentry⟩ | ⟨hne, hshadow⟩⟩ := resolve_call hx
      · obtain ⟨x, hnode, hkind⟩ := plainEntry_kind hentry
        exact ⟨id, u, x, form, hx, hnode, hform, .inl ⟨heq, hentry, hkind⟩⟩
      · obtain ⟨x, target, hnode, hkind⟩ := shadowMethod_kind hshadow
        exact ⟨id, u, x, form, hx, hnode, hform, .inr ⟨hne, hshadow, target, hkind⟩⟩

/-- The fat pointer of one instance of a library's method and the shadow of another one, both for
boxed receivers, forward to the same entry, which is older than either. -/
theorem instances_forward_alike : ∃ s t, Together completeUnit completeUnit s t ∧
    ∃ (id id' : NodeId) (x x' : Node) (target : NodeId), s.nodes[id.index]? = some x ∧
      s.nodes[id'.index]? = some x' ∧ x.kind.instance? = some ⟨⟨7⟩, true⟩ ∧
      x'.kind.instance? = some ⟨⟨8⟩, true⟩ ∧ x.kind.forward? = some target ∧
      x'.kind.forward? = some target ∧ target.index < id.index := by
  have hstart := Together.initial completeUnit completeUnit libraryProgram_reachable
  have hfat (p : Program) : FactoryCall.Valid p (.node (.fatPointer ⟨⟨7⟩, true⟩)) := nofun
  have hshadow (p : Program) : FactoryCall.Valid p (.node (.shadowMethod ⟨⟨8⟩, true⟩)) := nofun
  have h := (hstart.call (hfat _)).call (hshadow _)
  refine ⟨_, _, h, ?_⟩
  obtain ⟨hheld, -, hforwards, hsame, -⟩ := Together.forwards_to_canonical h
  set s := stateAfter ((FactoryCall.node (.shadowMethod ⟨⟨8⟩, true⟩)).run completeUnit)
    (stateAfter ((FactoryCall.node (.fatPointer ⟨⟨7⟩, true⟩)).run completeUnit)
      (.initial completeUnit.config libraryProgram))
  have hnode (index : Nat) (entry : MethodEntry)
      (hany : (s.nodes[index]?.any fun x => x.kind.instance? == some entry) = true) :
      ∃ x, s.nodes[index]? = some x ∧ x.kind.instance? = some entry := by
    obtain ⟨x, hx, htest⟩ := (Option.any_eq_true _ _).1 hany
    exact ⟨x, hx, by simpa using htest⟩
  obtain ⟨x, hx, hinstance⟩ := hnode 13 ⟨⟨7⟩, true⟩ (by decide +kernel)
  obtain ⟨x', hx', hinstance'⟩ := hnode 14 ⟨⟨8⟩, true⟩ (by decide +kernel)
  obtain ⟨form, target, -, hform, htarget, -⟩ := hforwards ⟨13⟩ x _ hx hinstance
  obtain ⟨form', -, -, hform', -⟩ := hforwards ⟨14⟩ x' _ hx' hinstance'
  have hforms : form = form' := by
    have hsucceeds :
        succeedsWith (fun form _ => succeedsWith (fun form' _ => form == form')
          (ProgramM.canonicalMethod ⟨8⟩ s.program)) (ProgramM.canonicalMethod ⟨7⟩ s.program) =
            true := by
      decide +kernel
    rw [hform, succeedsWith, hform', succeedsWith] at hsucceeds
    exact beq_iff_eq.1 hsucceeds
  have hboth := hsame ⟨13⟩ ⟨14⟩ x x' _ _ form _ _ hx hx' hinstance hinstance' hform
    (hforms ▸ hform') rfl
  exact ⟨⟨13⟩, ⟨14⟩, x, x', target, hx, hx', hinstance, hinstance', htarget,
    hboth.symm.trans htarget, hheld ⟨13⟩ x hx target (NodeKind.mem_held_of_forward? htarget)⟩

end NativeImage
