import NativeImage.Proofs.Closure.Ending
import NativeImage.Proofs.CompilationUnit.FixedPoint
import NativeImage.Proofs.CompilationUnit.Refusal

/-!
# How the closure of a unit ends

Whatever nodes a unit has when it is attached, and whatever existing ones its bodies request, its
closure ends: it leads from each node to nodes of lower rank, to nodes that were there before it
began, or to the nodes of the bodies' requests. It is given more rounds than this can take, and it
fails only if a body that it has reached constructs a delegate that is refused.

## Main definitions

- `Image.Asks` — what the bodies request
- `CompilationUnit.Refuses` — delegates that are refused to a body
- `CompilationUnit.Progress` — the invariant of the rounds

## Main statements

- `CompilationUnit.expand_ends` — what a node leads to
- `CompilationUnit.mark_ends` — how the closure ends
-/

namespace NativeImage

open Program Image ImageM

/-! ## Bodies -/

namespace Image

/-- The node is the code of a method whose body has the request. -/
def Asks (s : Image) (bodies : CodeBodies) (id : NodeId) (request : Request) : Prop :=
  ∃ node method body, s.nodes[id.index]? = some node ∧ node.kind = .methodCode ⟨method, false⟩ ∧
    bodies.requestsOf s.program method = .ok body ∧ request ∈ body

theorem Asks.mono {s t : Image} {bodies : CodeBodies} {id : NodeId} {request : Request}
    (h : s.Asks bodies id request) (hst : s ≤ t) : t.Asks bodies id request := by
  obtain ⟨node, method, body, hn, hk, hbody, hmem⟩ := h
  exact ⟨node, method, body, hst.nodes _ _ hn, hk,
    CompilationUnit.requestsOf_stable bodies method _ _ hbody _ hst.program, hmem⟩

end Image

namespace CodeBodies

/-- Every request is on what exists. -/
def Existing (s : Image) (bodies : CodeBodies) : Prop :=
  ∀ request ∈ bodies.requests, request.Existing s

instance (s : Image) (bodies : CodeBodies) : Decidable (bodies.Existing s) :=
  inferInstanceAs (Decidable (∀ request ∈ bodies.requests, request.Existing s))

variable {p : Program} {bodies : CodeBodies} {method : MethodId} {body : List Request}

theorem mem_requests_of_requestsOf (h : bodies.requestsOf p method = .ok body) :
    ∀ request ∈ body, request ∈ bodies.requests := by
  intro request hr
  rw [requestsOf] at h
  cases hown : bodies.entries.lookup method with
  | some requests =>
    rw [hown] at h
    cases h
    exact mem_requests_of_lookup hown request hr
  | none =>
    rw [hown] at h
    cases hd : p.methodDefinition method with
    | error e =>
      rw [hd] at h
      cases h
    | ok definition =>
      rw [hd] at h
      cases h
      cases hdefinition : bodies.entries.lookup definition with
      | none =>
        rw [hdefinition] at hr
        cases hr
      | some requests =>
        rw [hdefinition] at hr
        exact mem_requests_of_lookup hdefinition request hr

/-- Every existing method has a body, which may be empty. -/
theorem exists_requestsOf (bodies : CodeBodies) (h : p.HasMethod method) :
    ∃ body, bodies.requestsOf p method = .ok body := by
  obtain ⟨desc, hd⟩ := hasMethod_iff.1 h
  rw [requestsOf]
  cases bodies.entries.lookup method with
  | some requests => exact ⟨requests, rfl⟩
  | none =>
    rw [Program.methodDefinition, hd]
    exact ⟨_, rfl⟩

end CodeBodies

/-- Only regions around single descriptors have this rank. -/
theorem NodeKind.rank_lt_five {kind : NodeKind} (h : kind.isStandalone = false) :
    kind.rank < 5 := by
  cases kind with
  | standaloneRegion descriptor => cases h
  | methodCode entry =>
    obtain ⟨method, unboxing⟩ := entry
    cases unboxing <;> simp [rank]
  | helper helper => cases helper <;> simp [rank]
  | _ => simp [rank]

namespace CompilationUnit

variable {unit : CompilationUnit} {bodies : CodeBodies} {base : Program} {first s t : Image}
  {rank : Nat} {id other : NodeId} {tables : List NodeId} {methods : List MethodId}

theorem Reaches.mono (h : Reaches unit bodies tables methods s id) (hst : s ≤ t) :
    Reaches unit bodies tables methods t id := by
  induction h with
  | table h => exact .table h
  | method hm h => exact .method hm ((unit.resolve_settles _).again h hst)
  | need _ hdeps hmem hres ih =>
    exact .need ih ((unit.dependencies_settles bodies _).again hdeps hst) hmem
      ((unit.resolve_settles _).again hres hst)

/-- A body of the node constructs a delegate that the first image refuses with this error. -/
def Refuses (bodies : CodeBodies) (first s : Image) (id : NodeId) (e : CompileError) : Prop :=
  ∃ type method, s.Asks bodies id (.delegate type method) ∧
    first.program.delegateRefusal? type method = .ok (some e)

/-- Some node that has been reached is refused a delegate. -/
def RefusesReached (unit : CompilationUnit) (bodies : CodeBodies) (tables : List NodeId)
    (methods : List MethodId) (first s : Image) (e : CompileError) : Prop :=
  ∃ id, Reaches unit bodies tables methods s id ∧ Refuses bodies first s id e

theorem Refuses.mono {e : CompileError} (h : Refuses bodies first s id e) (hst : s ≤ t) :
    Refuses bodies first t id e := by
  obtain ⟨type, method, hasks, hrefusal⟩ := h
  exact ⟨type, method, hasks.mono hst, hrefusal⟩

theorem RefusesReached.mono {e : CompileError}
    (h : RefusesReached unit bodies tables methods first s e) (hst : s ≤ t) :
    RefusesReached unit bodies tables methods first t e := by
  obtain ⟨id, hreaches, hrefuses⟩ := h
  exact ⟨id, hreaches.mono hst, hrefuses.mono hst⟩

/-! ## What nodes lead to -/

/-- The node is below a rank. At the highest one it may also be of any rank if it was there from the
beginning. -/
def Waits (first s : Image) (rank : Nat) (id : NodeId) : Prop :=
  s.RankBelow rank id ∨ (rank = 5 ∧ id.index < first.nodes.size)

/-- The node was there from the beginning, or is that of a body's request. -/
def Anchored (unit : CompilationUnit) (bodies : CodeBodies) (first s : Image) (id : NodeId) :
    Prop :=
  id.index < first.nodes.size ∨ ∃ request ∈ bodies.requests, unit.resolve request s = .ok id s

/-- What a node below the rank after this one leads to. -/
def Led (unit : CompilationUnit) (bodies : CodeBodies) (first s : Image) (rank : Nat)
    (id : NodeId) : Prop :=
  Waits first s 5 id ∧ (unit.Anchored bodies first s id ∨ Waits first s rank id)

theorem Waits.mono (h : Waits first s rank id) (hst : s ≤ t) : Waits first t rank id :=
  h.imp_left fun h => h.mono hst

theorem Waits.exists_node (h : Waits first s rank id) (hle : first ≤ s) :
    ∃ node, s.nodes[id.index]? = some node := by
  obtain ⟨node, hn, -⟩ | ⟨-, hlt⟩ := h
  · exact ⟨node, hn⟩
  · exact ⟨_, hle.nodes _ _ (Array.getElem?_eq_getElem hlt)⟩

/-- A node that is no region around a single descriptor is below the rank. -/
theorem Waits.rank_lt (h : Waits first s rank id) {node : Node}
    (hn : s.nodes[id.index]? = some node) (hk : node.kind.isStandalone = false) :
    node.kind.rank < rank := by
  obtain ⟨node', hn', hlt⟩ | ⟨rfl, -⟩ := h
  · cases hn.symm.trans hn'
    exact hlt
  · exact NodeKind.rank_lt_five hk

/-- Regions around single descriptors were there from the beginning. -/
theorem Waits.index_lt (h : Waits first s rank id) {node : Node}
    (hn : s.nodes[id.index]? = some node) {descriptor : NodeId}
    (hk : node.kind = .standaloneRegion descriptor) (hrank : rank ≤ 5) :
    id.index < first.nodes.size := by
  obtain ⟨node', hn', hlt⟩ | ⟨-, hlt⟩ := h
  · cases hn.symm.trans hn'
    rw [hk] at hlt
    exact absurd hlt (Nat.not_lt.2 hrank)
  · exact hlt

theorem not_waits_zero (first s : Image) (id : NodeId) : ¬ Waits first s 0 id := by
  rintro (h | ⟨h, -⟩)
  · exact not_rankBelow_zero s id h
  · cases h

theorem Anchored.mono (h : unit.Anchored bodies first s id) (hst : s ≤ t) :
    unit.Anchored bodies first t id := by
  refine h.imp_right fun h => ?_
  obtain ⟨request, hmem, hresolve⟩ := h
  exact ⟨request, hmem, (unit.resolve_settles request).again hresolve hst⟩

theorem Led.mono (h : unit.Led bodies first s rank id) (hst : s ≤ t) :
    unit.Led bodies first t rank id :=
  ⟨h.1.mono hst, h.2.imp (fun h => h.mono hst) fun h => h.mono hst⟩

/-- Nodes of lower rank are led to. -/
theorem led_of_rankBelow (h : s.RankBelow rank id) (hle : rank ≤ 5) :
    unit.Led bodies first s rank id :=
  ⟨.inl (h.weaken hle), .inr (.inl h)⟩

/-- So are all that were there from the beginning. -/
theorem led_of_lt (h : id.index < first.nodes.size) : unit.Led bodies first s rank id :=
  ⟨.inr ⟨rfl, h⟩, .inl (.inl h)⟩

/-- A list that has all anchors. -/
def anchorPool (unit : CompilationUnit) (bodies : CodeBodies) (first s : Image) : List NodeId :=
  (List.range first.nodes.size).map NodeId.mk ++ unit.answersOf bodies s

theorem Anchored.mem_pool (h : unit.Anchored bodies first s id) :
    id ∈ unit.anchorPool bodies first s := by
  obtain hlt | ⟨request, hmem, hresolve⟩ := h
  · exact List.mem_append_left _ (List.mem_map.2 ⟨id.index, List.mem_range.2 hlt, rfl⟩)
  · exact List.mem_append_right _ (mem_answersOf hmem hresolve)

theorem length_anchorPool (unit : CompilationUnit) (bodies : CodeBodies) (first s : Image) :
    (unit.anchorPool bodies first s).length ≤ first.nodes.size + bodies.requestCount := by
  have hlength := unit.length_answersOf bodies s
  rw [anchorPool, List.length_append, List.length_map, List.length_range]
  omega

/-- The request is one of the node's body, or for a node that was there from the beginning or is of
lower rank. -/
def Owed (bodies : CodeBodies) (first s : Image) (rank : Nat) (id : NodeId) (request : Request) :
    Prop :=
  s.Asks bodies id request ∨
    ∃ other, request = .node other ∧ (s.RankBelow rank other ∨ other.index < first.nodes.size)

theorem Owed.mono {request : Request} (h : Owed bodies first s rank id request) (hst : s ≤ t) :
    Owed bodies first t rank id request := by
  obtain hasks | ⟨other, rfl, hother⟩ := h
  · exact .inl (hasks.mono hst)
  · exact .inr ⟨other, rfl, hother.imp_left fun h => h.mono hst⟩

section

variable {E : Image → CompileError → Prop}

/-- The requests of a body, and the dictionary of shared code. -/
theorem bodyRequests_ends (hr : Sound unit base true s) {node : Node}
    (hn : s.nodes[id.index]? = some node) {method : MethodId}
    (hk : node.kind = .methodCode ⟨method, false⟩) (hrank : 1 ≤ rank) :
    Ends (Sound unit base true) E
      (fun t requests => ∀ request ∈ requests, Owed bodies first t rank id request)
      (bodyRequests bodies method) s := by
  have hmethod : s.program.HasMethod method := by
    have hrefers := hr.left.refers hn
    rw [hk] at hrefers
    cases hrefers with
    | methodCode h => exact h.2
  obtain ⟨body, hbody⟩ := bodies.exists_requestsOf hmethod
  obtain ⟨shared, hs⟩ := Extension.exists_isSharedMethod hr.left.program hmethod
  have hown (request : Request) (hmem : request ∈ body) : s.Asks bodies id request :=
    ⟨node, method, body, hn, hk, hbody, hmem⟩
  refine ends_ask hbody (ends_ask hs ?_)
  split
  · refine (dictionaryLayout_ends hr hmethod).bind fun hle hr hdictionary => .pure hr ?_
    refine List.forall_mem_append.2 ⟨fun request hmem => .inl ((hown request hmem).mono hle), ?_⟩
    exact List.forall_mem_singleton.2 (.inr ⟨_, rfl, .inl (hdictionary.weaken hrank)⟩)
  · exact .pure hr fun request hmem => .inl (hown request hmem)

/-- What a node needs is known. -/
theorem dependencies_ends (hle : first ≤ s) (hr : Sound unit base true s) (hrank : rank ≤ 5)
    (h : Waits first s rank id) :
    Ends (Sound unit base true) E
      (fun t requests => ∀ request ∈ requests, Owed bodies first t (rank - 1) id request)
      (unit.dependencies bodies id) s := by
  obtain ⟨node, hn⟩ := h.exists_node hle
  have hrefers := hr.left.refers hn
  by_cases hcode : ∃ method, node.kind = .methodCode ⟨method, false⟩
  · obtain ⟨method, hk⟩ := hcode
    have hlt := h.rank_lt hn (by rw [hk]; rfl)
    rw [hk] at hlt
    exact .congr (unit.dependencies_eq_body hn hk)
      (bodyRequests_ends hr hn hk (Nat.le_sub_one_of_lt hlt))
  · have hcode (method : MethodId) : node.kind ≠ .methodCode ⟨method, false⟩ :=
      fun hk => hcode ⟨method, hk⟩
    refine .congr (unit.dependencies_eq_needs hn hcode) ?_
    by_cases hstandalone : node.kind.isStandalone = false
    · have hlt := h.rank_lt hn hstandalone
      refine (needs_ends hr (hrefers.imp (fun h => h) (fun h => h) fun h => ⟨h.1, ?_⟩)
        hcode).bind fun _ hr hneeded => .pure hr fun request hmem => ?_
      · obtain ⟨-, -, other, ho, hlt⟩ := h
        exact ⟨other, ho, hlt hstandalone⟩
      · obtain ⟨other, ho, rfl⟩ := List.mem_map.1 hmem
        exact .inr ⟨other, rfl, .inl ((hneeded other ho).weaken (Nat.le_sub_one_of_lt hlt))⟩
    · -- the descriptor is older than the region, which was there from the beginning
      obtain ⟨descriptor, hk⟩ : ∃ descriptor, node.kind = .standaloneRegion descriptor := by
        cases hkind : node.kind with
        | standaloneRegion descriptor => exact ⟨descriptor, rfl⟩
        | _ =>
          rw [hkind] at hstandalone
          exact absurd rfl hstandalone
      have hold := h.index_lt hn hk hrank
      rw [hk] at hrefers ⊢
      cases hrefers with
      | standaloneRegion hd =>
        have hlt : descriptor.index < first.nodes.size := Nat.lt_trans hd.2.1 hold
        exact .pure hr (List.forall_mem_singleton.2 (.inr ⟨descriptor, rfl, .inr hlt⟩))

/-- What is owed can be resolved, unless it is a delegate that is refused. -/
theorem resolve_owed_ends (hfirst : Extension base first.program) (hle : first ≤ s)
    (hr : Sound unit base true s) (hbodies : bodies.Existing first) (hrank : rank ≤ 5)
    {request : Request} (h : Owed bodies first s rank id request) :
    Ends (Sound unit base true) (fun t e => Refuses bodies first t id e)
      (fun t other => unit.Led bodies first t rank other) (unit.resolve request) s := by
  obtain hasks | ⟨other, rfl, hlow | hold⟩ := h
  · have hmem : request ∈ bodies.requests := by
      obtain ⟨node, method, body, -, -, hbody, hmem⟩ := hasks
      exact CodeBodies.mem_requests_of_requestsOf hbody request hmem
    have hanswer {other : NodeId} {t : Image} (hx : unit.resolve request s = .ok other t) :
        unit.resolve request t = .ok other t := (unit.resolve_settles request).repeat_self hx
    refine ((Ends.and (resolve_ends hfirst hle hr (hbodies request hmem)) hanswer).imp
      fun hst _ hv => ?_).imp_error fun hst he => ?_
    · obtain ⟨hv, hresolve⟩ := hv
      exact ⟨hv.imp_right fun hold => ⟨rfl, hold⟩, .inl (.inr ⟨request, hmem, hresolve⟩)⟩
    · obtain ⟨type, method, rfl, hrefusal⟩ := he
      exact ⟨type, method, hasks.mono hst, hrefusal⟩
  · exact .pure hr (led_of_rankBelow hlow hrank)
  · exact .pure hr (led_of_lt hold)

/-- Expanding a node fails only if its body is refused a delegate. -/
theorem expand_ends (hfirst : Extension base first.program) (hle : first ≤ s)
    (hr : Sound unit base true s) (hbodies : bodies.Existing first) (hrank : rank ≤ 5)
    (h : Waits first s rank id) :
    Ends (Sound unit base true) (fun t e => Refuses bodies first t id e)
      (fun t needed => ∀ other ∈ needed, unit.Led bodies first t (rank - 1) other)
      (Closure.expand (unit.dependencyContext bodies) id) s := by
  refine (dependencies_ends hle hr hrank h).bind fun hst hr howed => ?_
  refine (Ends.mapM (P := fun t request => Owed bodies first t (rank - 1) id request)
    (U := fun t _ other => unit.Led bodies first t (rank - 1) other) (fun h hst => h.mono hst)
    (fun _ => fun h hst => h.mono hst) (fun hst' hr h => ?_) hr howed).imp
    fun _ _ hled other ho => ?_
  · exact resolve_owed_ends hfirst (hle.trans (hst.trans hst')) hr hbodies (by omega) h
  · obtain ⟨request, -, h⟩ := exists_mem_of_forall₂ hled ho
    exact h

end

/-! ## Rounds -/

/-- Every marked node exists and has been reached, and the rounds have been paid for. -/
structure Progress (unit : CompilationUnit) (bodies : CodeBodies) (tables : List NodeId)
    (methods : List MethodId) (first s : Image) (c : Closure NodeId) : Prop where
  le : first ≤ s
  reached : ∀ id ∈ c.nodes, Reaches unit bodies tables methods s id
  index_lt : ∀ id ∈ c.nodes, id.index < s.nodes.size
  paced : ∃ rank anchors,
    Closure.Paced (Waits first s) (unit.Anchored bodies first s) 5 rank anchors c

variable {c : Closure NodeId}

theorem Waits.index_lt_size (h : Waits first s rank id) (hle : first ≤ s) :
    id.index < s.nodes.size := by
  obtain ⟨node, hn⟩ := h.exists_node hle
  exact (Array.getElem?_eq_some_iff.1 hn).1

/-- What a reached node leads to is reached. -/
theorem reaches_expand (h : Reaches unit bodies tables methods t id) {needed : List NodeId}
    (hx : Closure.expand (unit.dependencyContext bodies) id s = .ok needed t) :
    ∀ other ∈ needed, Reaches unit bodies tables methods t other := by
  have hsettles : Settles (Closure.expand (unit.dependencyContext bodies) id) :=
    Closure.expand_settles (unit.dependencies_settles bodies) unit.resolve_settles id
  obtain ⟨requests, hdeps, hres⟩ := expand_same (hsettles.repeat_self hx)
  intro other ho
  obtain ⟨request, hmem, hresolve⟩ := exists_mem_of_forall₂ hres ho
  exact .need h hdeps hmem hresolve

/-- A closure that is not done has not used up its rounds. -/
theorem Progress.rounds_lt (h : unit.Progress bodies tables methods first s c)
    (hne : c.frontier ≠ []) : c.rounds < 5 * (first.nodes.size + bodies.requestCount + 1) := by
  obtain ⟨rank, anchors, hpaced⟩ := h.paced
  have hlt := hpaced.rounds_lt (not_waits_zero first s) hne fun _ hanchor => hanchor.mem_pool
  have hlength := unit.length_anchorPool bodies first s
  omega

/-- Nodes that are reached and led to may be marked. -/
theorem Progress.next (h : unit.Progress bodies tables methods first s c) {anchors : List NodeId}
    (hpaced : Closure.Paced (Waits first s) (unit.Anchored bodies first s) 5 rank anchors c)
    (hne : c.frontier ≠ []) (hst : s ≤ t) {needed : List (List NodeId)}
    (hlen : c.frontier.length = needed.length)
    (hneeded : ∀ id ∈ needed.flatten, Reaches unit bodies tables methods t id ∧
      unit.Led bodies first t (rank - 1) id) :
    unit.Progress bodies tables methods first t (c.next needed) := by
  have hle := h.le.trans hst
  refine ⟨hle, fun id hid => ?_, fun id hid => ?_, hpaced.next (not_waits_zero first s) hne
    (fun _ hanchor => hanchor.mono hst) hlen fun id hid => (hneeded id hid).2⟩
  · obtain hold | hnew := (Closure.mem_nodes_advance hlen).1 hid
    · exact (h.reached id hold).mono hst
    · exact (hneeded id hnew).1
  · obtain hold | hnew := (Closure.mem_nodes_advance hlen).1 hid
    · exact Nat.lt_of_lt_of_le (h.index_lt id hold) hst.nodes.size_le
    · exact (hneeded id hnew).2.1.index_lt_size hle

/-- A round of the closure. -/
theorem Progress.advance_ends (hfirst : Extension base first.program)
    (hr : Sound unit base true s) (hbodies : bodies.Existing first)
    (h : unit.Progress bodies tables methods first s c) (hne : c.frontier ≠ []) :
    Ends (Sound unit base true) (RefusesReached unit bodies tables methods first)
      (unit.Progress bodies tables methods first)
      (Closure.advance (unit.dependencyContext bodies) c) s := by
  obtain ⟨rank, anchors, hpaced⟩ := h.paced
  have hfrontier (id : NodeId) (hid : id ∈ c.frontier) :
      Reaches unit bodies tables methods s id ∧ Waits first s rank id :=
    ⟨h.reached id (List.mem_append_right _ hid), hpaced.frontier id hid⟩
  refine (Closure.advance_ends
    (P := fun s id => Reaches unit bodies tables methods s id ∧ Waits first s rank id)
    (W := fun s _ other => Reaches unit bodies tables methods s other ∧
      unit.Led bodies first s (rank - 1) other)
    (fun h hst => ⟨h.1.mono hst, h.2.mono hst⟩) (fun _ => fun h hst => ⟨h.1.mono hst, h.2.mono hst⟩)
    (fun h hst => h.mono hst) (fun hst hr hid => ?_) hr hfrontier).imp
    fun hst _ hnext => ?_
  · -- the requests of the expansion are answered for good, so their nodes are reached afterwards
    cases expand_ends hfirst (h.le.trans hst) hr hbodies hpaced.rank_le hid.2 with
    | ok hx hle hr hled =>
      refine .ok hx hle hr fun other ho => ⟨?_, hled other ho⟩
      exact reaches_expand (hid.1.mono hle) hx other ho
    | error hx hle hr he => exact .error hx hle hr ⟨_, hid.1.mono hle, he⟩
  · obtain ⟨needed, hlen, rfl, hneeded⟩ := hnext
    refine h.next hpaced hne hst hlen fun id hid => ?_
    obtain ⟨-, -, hled⟩ := hneeded id hid
    exact hled

/-- The closure over nodes that wait is given more rounds than it can take. -/
theorem close_ends (hfirst : Extension base first.program) (hle : first ≤ s)
    (hr : Sound unit base true s) (hbodies : bodies.Existing first) {roots : List NodeId}
    (hroots : ∀ id ∈ roots, Reaches unit bodies tables methods s id ∧ Waits first s 5 id) :
    Ends (Sound unit base true) (RefusesReached unit bodies tables methods first)
      (fun t c => unit.Progress bodies tables methods first t c ∧ c.frontier = [])
      (unit.close bodies roots) s := by
  refine .congr (get_bind_apply _ s) ?_
  have hstart : unit.Progress bodies tables methods first s (.start roots) := by
    refine ⟨hle, fun id hid => ?_, fun id hid => ?_, 5, [], .start fun id hid => (hroots id hid).2⟩
    · exact (hroots id (mem_unseen.1 hid).1).1
    · exact (hroots id (mem_unseen.1 hid).1).2.index_lt_size hle
  have hbound : 5 * (first.nodes.size + bodies.requestCount + 1) ≤ roundBound bodies s := by
    have hsize := hle.nodes.size_le
    rw [roundBound]
    omega
  refine (Closure.run_ends (fun h hne => h.rounds_lt hne)
    (fun hr h hne => h.advance_ends hfirst hr hbodies hne) hr hstart
    (Nat.le_trans hbound (Nat.le_add_left _ _))).bind fun _ hr hdone => ?_
  rw [hdone.2]
  exact .pure hr hdone

/-- Attaching a unit for the first time succeeds. -/
theorem exists_attach (hr : Sound unit base false s) : ∃ tables t, unit.attach s = .ok tables t ∧
    s ≤ t ∧ Sound unit base true t ∧ ∀ id ∈ tables, t.RankBelow 5 id := by
  obtain ⟨tables, htables, hfree⟩ := exists_tableHeader unit.config base
  obtain ⟨_, _, hok, -⟩ := attach_ok hr.left hr.unattached.2 htables hfree
  cases attach_agrees hr with
  | ok hx hy hst _ hr hfound =>
    cases hx.symm.trans hy
    refine ⟨_, _, hx, hst, hr, fun id hid => ?_⟩
    obtain ⟨_, -, hfound⟩ := exists_mem_of_forall₂ hfound.flip hid
    exact hfound.2
  | error hx => cases hx.symm.trans hok

/-- The methods asked for have nodes. -/
theorem methodRoots_ends (bodies : CodeBodies) (tables : List NodeId)
    (hfirst : Extension base first.program) (hle : first ≤ s) (hr : Sound unit base true s)
    (hmethods : ∀ method ∈ methods, first.program.HasMethod method)
    {E : Image → CompileError → Prop} :
    Ends (Sound unit base true) E
      (fun t roots => ∀ id ∈ roots, Reaches unit bodies tables methods t id ∧ Waits first t 5 id)
      (methods.mapM fun method => unit.resolve (.call method)) s := by
  refine (Ends.mapM (P := fun _ method => method ∈ methods)
    (U := fun t _ id => Reaches unit bodies tables methods t id ∧ Waits first t 5 id)
    (fun h _ => h) (fun _ => fun h hst => ⟨h.1.mono hst, h.2.mono hst⟩)
    (fun {method u} hst hr hm => ?_) hr fun _ hm => hm).imp fun _ _ hroots id hid => ?_
  · have hexisting : Request.Existing first (.call method) := hmethods method hm
    have hanswer {id : NodeId} {t : Image} (hx : unit.resolve (.call method) u = .ok id t) :
        unit.resolve (.call method) t = .ok id t := (unit.resolve_settles _).repeat_self hx
    refine ((Ends.and (resolve_ends hfirst (hle.trans hst) hr hexisting) hanswer).imp
      fun _ _ hv => ?_).imp_error fun _ he => ?_
    · exact ⟨.method hm hv.2, hv.1.imp_right fun hold => ⟨rfl, hold⟩⟩
    · obtain ⟨_, _, h, -⟩ := he
      cases h
  · obtain ⟨_, -, h⟩ := exists_mem_of_forall₂ hroots hid
    exact h

/-- Attaching a unit for the first time and closing over its tables and existing methods fails only
if a body that has been reached is refused a delegate. -/
theorem mark_ends (hfirst : Extension base first.program) (hle : first ≤ s)
    (hattach : unit.attach first = .ok tables s) (hr : Sound unit base true s)
    (htables : ∀ id ∈ tables, s.RankBelow 5 id) (hbodies : bodies.Existing first)
    (hmethods : ∀ method ∈ methods, first.program.HasMethod method) :
    Ends (Sound unit base true) (RefusesReached unit bodies tables methods first)
      (fun t c => unit.Progress bodies tables methods first t c ∧ c.frontier = [])
      (unit.mark bodies methods) first := by
  refine Ends.bind (V := fun t ids => t = s ∧ ids = tables) (.ok hattach hle hr ⟨rfl, rfl⟩)
    fun {ids u} _ _ hv => ?_
  obtain ⟨rfl, rfl⟩ := hv
  refine (methodRoots_ends bodies ids hfirst hle hr hmethods).bind fun hst hr hroots => ?_
  refine close_ends hfirst (hle.trans hst) hr hbodies (List.forall_mem_append.2 ⟨?_, hroots⟩)
  exact fun id hid => ⟨.table hid, .inl ((htables id hid).mono hst)⟩

end CompilationUnit

end NativeImage
