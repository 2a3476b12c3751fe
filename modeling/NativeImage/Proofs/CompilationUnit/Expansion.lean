import NativeImage.CompilationUnit.Compile
import NativeImage.Proofs.CompilationUnit.RequestAgreement

/-!
# Expansion on twin images

Matching nodes have matching requests, so a closure that expands them finds matching nodes. What it
finds is the node of a body's request or of lower rank than the node that is expanded.

## Main definitions

- `Request.Over`, `CodeBodies.Over` — requests for entities of the base
- `CompilationUnit.Linked` — what a node of some rank leads to

## Main statements

- `CompilationUnit.needs_agrees`, `CompilationUnit.dependencies_agrees` — what nodes need
- `CompilationUnit.expand_agrees` — what a closure finds
-/

namespace NativeImage

open Program Image ImageM

/-! ## Bodies over the base -/

/-- The request is for entities of the base, and not for a node. -/
def Request.Over (base : Program) : Request → Prop
  | call method => base.HasMethod method
  | delegate type method => base.HasType type ∧ base.HasMethod method
  | gcStaticBase type => base.HasType type
  | threadStaticBase type => base.HasType type
  | eagerConstructor method => base.HasMethod method
  | node _ => False

instance (base : Program) : (request : Request) → Decidable (request.Over base)
  | .call method => inferInstanceAs (Decidable (base.HasMethod method))
  | .delegate type method => inferInstanceAs (Decidable (base.HasType type ∧ base.HasMethod method))
  | .gcStaticBase type => inferInstanceAs (Decidable (base.HasType type))
  | .threadStaticBase type => inferInstanceAs (Decidable (base.HasType type))
  | .eagerConstructor method => inferInstanceAs (Decidable (base.HasMethod method))
  | .node _ => inferInstanceAs (Decidable False)

/-- What is requested of the base matches itself. -/
theorem Request.Over.match {base : Program} {r : Request} (h : r.Over base) (s t : Image) :
    r.Match base s t r := by
  cases r with
  | call method => exact .call (.same h)
  | delegate type method => exact .delegate (.same h.1) (.same h.2)
  | gcStaticBase type => exact .gcStaticBase (.same h)
  | threadStaticBase type => exact .threadStaticBase (.same h)
  | eagerConstructor method => exact .eagerConstructor (.same h)
  | node id => exact h.elim

namespace CodeBodies

/-- The requests of all bodies. -/
def requests (bodies : CodeBodies) : List Request := bodies.entries.flatMap fun entry => entry.2

theorem length_requests (bodies : CodeBodies) :
    bodies.requests.length = bodies.requestCount :=
  rfl

/-- Bodies of methods of the base that request entities of the base only. -/
def Over (base : Program) (bodies : CodeBodies) : Prop :=
  ∀ entry ∈ bodies.entries, base.HasMethod entry.1 ∧ ∀ request ∈ entry.2, request.Over base

instance (base : Program) (bodies : CodeBodies) : Decidable (bodies.Over base) :=
  inferInstanceAs (Decidable (∀ entry ∈ bodies.entries, _ ∧ _))

variable {base p q : Program} {bodies : CodeBodies}

theorem Over.of_mem (h : bodies.Over base) {request : Request} (hr : request ∈ bodies.requests) :
    request.Over base := by
  obtain ⟨entry, he, hr⟩ := List.mem_flatMap.1 hr
  exact (h entry he).2 request hr

theorem mem_requests_of_lookup {method : MethodId} {requests : List Request}
    (h : bodies.entries.lookup method = some requests) : ∀ r ∈ requests, r ∈ bodies.requests := by
  intro r hr
  obtain ⟨before, after, hentries, -⟩ := List.lookup_eq_some_iff.1 h
  refine List.mem_flatMap.2 ⟨(method, requests), ?_, hr⟩
  rw [hentries]
  exact List.mem_append_right _ List.mem_cons_self

/-- A method that the base does not have has no body of its own. -/
theorem Over.lookup_eq_none (h : bodies.Over base) {method : MethodId}
    (hm : ¬ base.HasMethod method) : bodies.entries.lookup method = none := by
  refine List.lookup_eq_none_iff.2 fun entry he => ?_
  have hne : method ≠ entry.1 := by
    rintro rfl
    exact hm (h entry he).1
  simpa using hne

theorem Over.lookup_eq (h : bodies.Over base) {m m' : MethodId} (hm : MethodMatch base p q m m') :
    bodies.entries.lookup m = bodies.entries.lookup m' := by
  by_cases hb : base.HasMethod m
  · rw [hm.eq_of_base hb]
  · have hb' : ¬ base.HasMethod m' := fun h => hb (hm.symm.eq_of_base h ▸ h)
    rw [h.lookup_eq_none hb, h.lookup_eq_none hb']

/-- Matching methods have the same requests. -/
theorem Over.requestsOf (h : bodies.Over base) (hp : Extension base p) (hq : Extension base q)
    {m m' : MethodId} (hm : MethodMatch base p q m m') : ∃ requests,
      bodies.requestsOf p m = .ok requests ∧ bodies.requestsOf q m' = .ok requests ∧
        ∀ r ∈ requests, r ∈ bodies.requests := by
  obtain ⟨d, d', hd, hd', hmatch⟩ := hm.methodDefinition hp hq
  rw [CodeBodies.requestsOf, CodeBodies.requestsOf, ← h.lookup_eq hm, hd, hd']
  cases hbody : bodies.entries.lookup m with
  | some requests => exact ⟨requests, rfl, rfl, mem_requests_of_lookup hbody⟩
  | none =>
    refine ⟨(bodies.entries.lookup d).getD [], rfl, ?_, fun r hr => ?_⟩
    · rw [h.lookup_eq hmatch]
      rfl
    · cases hdefinition : bodies.entries.lookup d with
      | none =>
        rw [hdefinition] at hr
        cases hr
      | some requests =>
        rw [hdefinition] at hr
        exact mem_requests_of_lookup hdefinition r hr

end CodeBodies

/-! ## What nodes need -/

namespace ImageM

variable {unit : CompilationUnit} {base : Program} {attached : Bool} {s t : Image}

/-- Both images are attached, or asking for the attachment fails on both. -/
theorem agree_attachment {γ δ : Type} {V : Image → Image → γ → δ → Prop} {f : Attachment → ImageM γ}
    {g : Attachment → ImageM δ} (hr : Twins unit base attached s t)
    (h : ∀ {a a'}, a.Match base s t a' → Agree (Twins unit base attached) V (f a) (g a') s t) :
    Agree (Twins unit base attached) V (attachment >>= f) (attachment >>= g) s t := by
  have hmatch := hr.attachment
  cases ha : s.attachment? with
  | none =>
    cases ha' : t.attachment? with
    | none =>
      refine .error (e := .internal .notAttached) ?_ ?_ le_rfl le_rfl hr
      · rw [bind_apply, attachment, ha]
      · rw [bind_apply, attachment, ha']
    | some a' =>
      rw [ha, ha'] at hmatch
      cases hmatch
  | some a =>
    cases ha' : t.attachment? with
    | none =>
      rw [ha, ha'] at hmatch
      cases hmatch
    | some a' =>
      rw [ha, ha'] at hmatch
      cases hmatch with
      | some hmatch =>
        exact .read (attachment_eq_ok.2 ⟨ha, rfl⟩) (attachment_eq_ok.2 ⟨ha', rfl⟩) (h hmatch)

end ImageM

/-- Matching headers list matching entries in the same order. -/
theorem Attachment.Match.entries {base : Program} {s t : Image} {a a' : Attachment}
    (h : a.Match base s t a') :
    List.Forall₂ (fun e e' => e.1 = e'.1 ∧ e.2.Match base s t e'.2) a.header.entries
      a'.header.entries := by
  have hall : List.Forall₂ Eq Section.all Section.all := List.forall₂_refl _
  refine List.rel_filterMap (R := Eq) (fun {tag tag'} htag => ?_) hall
  subst htag
  have htag := h.header tag
  generalize a.header.find tag = e? at htag ⊢
  generalize a'.header.find tag = e'? at htag ⊢
  cases htag with
  | none => exact .none
  | some he => exact .some ⟨rfl, he⟩

namespace CompilationUnit

variable {unit : CompilationUnit} {base : Program} {attached : Bool} {s t : Image}

theorem helperNeeds_agrees (hr : Twins unit base attached s t) {h h' : Helper}
    (hk : (NodeKind.helper h).Match (TypeMatch base s.program t.program)
      (MethodMatch base s.program t.program) (Found base (NodeKind.helper h).rank s t)
      (.helper h')) :
    Agree (Twins unit base attached)
      (fun s t => List.Forall₂ (Found base (NodeKind.helper h).rank s t))
      (unit.helperNeeds h) (unit.helperNeeds h') s t := by
  cases hk with
  | delegateHelper hi ha ht =>
    refine .pure hr (.cons hi (.cons ha ?_))
    cases ht with
    | none => exact .nil
    | some ht => exact .cons ht .nil
  | gcStaticBaseHelper h =>
    exact (gcStaticBase_agrees hr h).bind fun _ _ hr hbase => .pure hr (.cons hbase .nil)
  | @threadStaticBaseHelper x x' h =>
    refine (threadStaticsOffset_agrees hr h).bind fun hs ht hr hoffset => ?_
    have h := h.mono hs.program ht.program
    refine (threadStaticsIndexOf_agrees hr h).bind fun hs ht hr hindex => ?_
    have h := h.mono hs.program ht.program
    have hoffset := found_lasting base 2 hoffset hs ht
    have hindex := hindex.weaken (Nat.le_succ 1)
    obtain ⟨dx, dy, hx, hy, hagree⟩ := h.desc hr.left.program hr.right.program
    refine agree_ask hx hy ?_
    rw [hagree.statics_eq]
    split
    · exact .pure hr (.cons hoffset (.cons hindex .nil))
    · refine (gcStaticDesc_agrees hr h true).bind fun hs ht hr hdesc => ?_
      have hoffset := found_lasting base 2 hoffset hs ht
      have hindex := found_lasting base 2 hindex hs ht
      exact .pure hr (.cons hoffset (.cons hindex (.cons (hdesc.weaken (Nat.le_succ 1)) .nil)))

/-- Nodes of matching kinds need matching nodes, which are of lower rank. Bodies are left out, and
so are regions around single descriptors. -/
theorem needs_agrees (hr : Twins unit base attached s t) {k k' : NodeKind}
    (hk : k.Match (TypeMatch base s.program t.program) (MethodMatch base s.program t.program)
      (Found base k.rank s t) k') (hcode : ∀ m, k ≠ .methodCode ⟨m, false⟩) :
    Agree (Twins unit base attached) (fun s t => List.Forall₂ (Found base k.rank s t))
      (unit.needs k) (unit.needs k') s t := by
  cases hk with
  | @methodCode m m' unboxing h =>
    cases unboxing with
    | false => exact absurd rfl (hcode m)
    | true => exact (plainEntry_agrees hr h).bind fun _ _ hr hentry => .pure hr (.cons hentry .nil)
  | unboxingStub h ha => exact .pure hr (.cons ha .nil)
  | shadowMethod h ha =>
    refine (dictionaryLayout_agrees hr h).bind fun hs ht hr hdictionary => ?_
    have ha := found_lasting base 3 ha hs ht
    exact .pure hr (.cons ha (.cons (hdictionary.weaken (Nat.le_add_left 1 2)) .nil))
  | fatPointer h ha hd => exact .pure hr (.cons ha (.cons hd .nil))
  | threadStaticsOffset h =>
    refine (threadStaticsBlock_agrees hr h).bind fun hs ht hr hblock => ?_
    obtain ⟨hstart, -⟩ := hr.threadTables
    exact .pure hr (.cons hblock (.cons hstart .nil))
  | gcStaticBase h =>
    exact (gcStaticDesc_agrees hr h false).bind fun _ _ hr hdesc => .pure hr (.cons hdesc .nil)
  | eagerConstructor h =>
    exact (plainEntry_agrees hr h).bind fun _ _ hr hentry => .pure hr (.cons hentry .nil)
  | standaloneRegion h => exact .pure hr (.cons h .nil)
  | tlsDirectory =>
    obtain ⟨hstart, hend, hindex⟩ := hr.threadTables
    exact .pure hr (.cons hstart (.cons hend (.cons hindex .nil)))
  | header =>
    refine agree_attachment hr fun hmatch => .pure hr ?_
    rw [List.forall₂_map_left_iff, List.forall₂_map_right_iff]
    exact hmatch.entries.imp fun _ _ he => ⟨he.2.node, he.2.rank⟩
  | modulesSection =>
    exact agree_attachment hr fun hmatch => .pure hr (.cons ⟨hmatch.headerNode, hmatch.rank⟩ .nil)
  | delegateHelper hi ha ht => exact helperNeeds_agrees hr (.delegateHelper hi ha ht)
  | gcStaticBaseHelper h => exact helperNeeds_agrees hr (.gcStaticBaseHelper h)
  | threadStaticBaseHelper h => exact helperNeeds_agrees hr (.threadStaticBaseHelper h)
  | externMethod _ => exact .pure hr .nil
  | runtimeImport _ => exact .pure hr .nil
  | externSymbol _ => exact .pure hr .nil
  | gcStaticDesc _ => exact .pure hr .nil
  | threadStaticsBlock _ => exact .pure hr .nil
  | methodDictionary _ => exact .pure hr .nil
  | typeDictionary _ => exact .pure hr .nil
  | region _ => exact .pure hr .nil
  | threadStaticsIndex => exact .pure hr .nil
  | typeManagerIndirection => exact .pure hr .nil
  | metadataBlob => exact .pure hr .nil

/-! ## Expansion -/

variable {bodies : CodeBodies}

/-- The node is that of a body's request, or of lower rank. -/
def Linked (unit : CompilationUnit) (bodies : CodeBodies) (rank : Nat) (s : Image) (id : NodeId) :
    Prop :=
  (∃ request ∈ bodies.requests, unit.resolve request s = .ok id s) ∨ s.RankBelow rank id

theorem Linked.mono {rank : Nat} {id : NodeId} (h : unit.Linked bodies rank s id) (hst : s ≤ t) :
    unit.Linked bodies rank t id := by
  obtain ⟨request, hmem, hresolve⟩ | hrank := h
  · exact .inl ⟨request, hmem, (unit.resolve_settles request).again hresolve hst⟩
  · exact .inr (hrank.mono hst)

theorem Linked.weaken {rank rank' : Nat} {id : NodeId} (h : unit.Linked bodies rank s id)
    (hle : rank ≤ rank') : unit.Linked bodies rank' s id := by
  obtain hanswer | hrank := h
  · exact .inl hanswer
  · exact .inr (hrank.weaken hle)

/-- The request is one of a body, or for a node of lower rank. -/
def Due (bodies : CodeBodies) (rank : Nat) (s : Image) (request : Request) : Prop :=
  request ∈ bodies.requests ∨ ∃ id, request = .node id ∧ s.RankBelow rank id

/-- Matching requests that are due. -/
def DueMatch (base : Program) (bodies : CodeBodies) (rank : Nat) (s t : Image) (r r' : Request) :
    Prop :=
  r.Match base s t r' ∧ Due bodies rank s r

theorem dueMatch_lasting (base : Program) (bodies : CodeBodies) (rank : Nat) :
    Lasting (DueMatch base bodies rank) := by
  rintro s t s' t' r r' ⟨hmatch, hdue⟩ hs ht
  refine ⟨Request.match_lasting base hmatch hs ht, ?_⟩
  obtain hmem | ⟨id, rfl, hrank⟩ := hdue
  · exact .inl hmem
  · exact .inr ⟨id, rfl, hrank.mono hs⟩

theorem dueMatch_node {rank : Nat} {a b : NodeId} (h : Found base rank s t a b) (hle : rank ≤ 5) :
    DueMatch base bodies rank s t (.node a) (.node b) :=
  ⟨.node (h.weaken hle), .inr ⟨a, rfl, h.2⟩⟩

/-- Bodies of matching methods request the same, and shared code its dictionary. -/
theorem bodyRequests_agrees (hr : Twins unit base attached s t) (hbodies : bodies.Over base)
    {m m' : MethodId} (h : MethodMatch base s.program t.program m m') :
    Agree (Twins unit base attached) (fun s t => List.Forall₂ (DueMatch base bodies 1 s t))
      (bodyRequests bodies m) (bodyRequests bodies m') s t := by
  obtain ⟨requests, hq, hq', hmem⟩ := hbodies.requestsOf hr.left.program hr.right.program h
  obtain ⟨shared, hs, hs'⟩ := h.isSharedMethod hr.left.program hr.right.program
  have hall (s t : Image) : List.Forall₂ (DueMatch base bodies 1 s t) requests requests :=
    List.forall₂_same.2 fun r hr => ⟨(hbodies.of_mem (hmem r hr)).match s t, .inl (hmem r hr)⟩
  refine agree_ask hq hq' (agree_ask hs hs' ?_)
  split
  · refine (dictionaryLayout_agrees hr h).bind fun _ _ hr hdictionary => .pure hr ?_
    exact List.rel_append (hall _ _) (.cons (dueMatch_node hdictionary (by decide)) .nil)
  · exact .pure hr (hall s t)

/-- Matching nodes have matching requests. -/
theorem dependencies_agrees (hr : Twins unit base attached s t) (hbodies : bodies.Over base)
    {a b : NodeId} (h : NodeMatch base s t a b) {x : Node} (hx : s.nodes[a.index]? = some x)
    (hrank : x.kind.rank < 5) :
    Agree (Twins unit base attached)
      (fun s t => List.Forall₂ (DueMatch base bodies x.kind.rank s t))
      (unit.dependencies bodies a) (unit.dependencies bodies b) s t := by
  obtain ⟨x', y, hx', hy, hk⟩ := h.kinds
  cases hx.symm.trans hx'
  have hstandalone : x.kind.isStandalone = false := by
    cases hkind : x.kind with
    | standaloneRegion d =>
      rw [hkind] at hrank
      exact absurd hrank (Nat.lt_irrefl 5)
    | _ => rfl
  have hlower := hk.and_of_self ((hr.left.refers hx).imp id id fun h => ⟨h.1, h.2.2⟩)
  by_cases hcode : ∃ m, x.kind = .methodCode ⟨m, false⟩
  · obtain ⟨m, hm⟩ := hcode
    obtain ⟨m', hm', hmatch⟩ : ∃ m', y.kind = .methodCode ⟨m', false⟩ ∧
        MethodMatch base s.program t.program m m' := by
      rw [hm] at hk
      generalize y.kind = k' at hk
      cases hk with
      | methodCode h => exact ⟨_, rfl, h⟩
    rw [show x.kind.rank = 1 by rw [hm]; rfl]
    exact .congr (unit.dependencies_eq_body hx hm) (unit.dependencies_eq_body hy hm')
      (bodyRequests_agrees hr hbodies hmatch)
  · have hcode (m : MethodId) : x.kind ≠ .methodCode ⟨m, false⟩ := fun hm => hcode ⟨m, hm⟩
    have hcode' (m : MethodId) : y.kind ≠ .methodCode ⟨m, false⟩ := by
      intro hm
      rw [hm] at hk
      generalize x.kind = k at hk hcode
      cases hk with
      | methodCode h => exact hcode _ rfl
    have hfound : x.kind.Match (TypeMatch base s.program t.program)
        (MethodMatch base s.program t.program) (Found base x.kind.rank s t) y.kind := by
      refine hlower.imp id id fun h => ⟨h.1, ?_⟩
      obtain ⟨z, hz, hlt⟩ := h.2
      exact ⟨z, hz, hlt hstandalone⟩
    refine .congr (unit.dependencies_eq_needs hx hcode) (unit.dependencies_eq_needs hy hcode') ?_
    refine (needs_agrees hr hfound hcode).bind fun _ _ hr hneeded => .pure hr ?_
    rw [List.forall₂_map_left_iff, List.forall₂_map_right_iff]
    exact hneeded.imp fun _ _ h => dueMatch_node h (Nat.le_of_lt hrank)

/-- A closure that expands matching nodes finds matching nodes. -/
theorem expand_agrees (hr : Twins unit base attached s t) (hbodies : bodies.Over base)
    {a b : NodeId} (h : NodeMatch base s t a b) {x : Node} (hx : s.nodes[a.index]? = some x)
    (hrank : x.kind.rank < 5) :
    Agree (Twins unit base attached)
      (fun s t => List.Forall₂ fun c d =>
        Found base 5 s t c d ∧ unit.Linked bodies x.kind.rank s c)
      (Closure.expand (unit.dependencyContext bodies) a)
      (Closure.expand (unit.dependencyContext bodies) b) s t := by
  refine (dependencies_agrees hr hbodies h hx hrank).bind fun _ _ hr hdue => ?_
  refine Agree.mapM (P := DueMatch base bodies x.kind.rank) (dueMatch_lasting _ _ _)
    (W := fun s t c d => Found base 5 s t c d ∧ unit.Linked bodies x.kind.rank s c)
    (fun h hs ht => ⟨found_lasting base 5 h.1 hs ht, h.2.mono hs⟩) (fun _ _ hr h => ?_) hr hdue
  obtain ⟨hmatch, hdue⟩ := h
  obtain hmem | ⟨id, rfl, hlt⟩ := hdue
  · refine (resolve_agrees hr hmatch).and_left fun hresolve => .inl ⟨_, hmem, ?_⟩
    exact (unit.resolve_settles _).again hresolve le_rfl
  · cases hmatch with
    | node h => exact .pure hr ⟨h, .inr hlt⟩

end CompilationUnit

end NativeImage
