import NativeImage.Proofs.Closure.Pacing
import NativeImage.Proofs.CompilationUnit.AttachmentAgreement

/-!
# Marking on twin images

The closure of a unit ends. A node leads only to nodes of lower rank, except that a body leads to
the nodes of its requests, which are as many as there are requests at most. Hence closures of twin
images end after the same rounds, although the images do not hold equally many nodes.

## Main definitions

- `CompilationUnit.Paced` — what bounds the rounds of a closure

## Main statements

- `CompilationUnit.Paced.rounds_lt` — the bound
- `CompilationUnit.mark_agrees` — closures of twin images mark matching nodes
-/

namespace NativeImage

open Program Image ImageM

namespace CompilationUnit

variable {unit : CompilationUnit} {bodies : CodeBodies} {s t : Image}

/-! ## How long a closure takes -/

/-- The frontier is below a rank, and every marked answer to a body's request has paid for five
rounds. -/
structure Paced (unit : CompilationUnit) (bodies : CodeBodies) (rank : Nat) (answers : List NodeId)
    (c : Closure NodeId) (s : Image) : Prop where
  rank_le : rank ≤ 5
  frontier : ∀ id ∈ c.frontier, s.RankBelow rank id
  nodup : answers.Nodup
  marked : ∀ id ∈ answers, id ∈ c.nodes
  answered : ∀ id ∈ answers, ∃ request ∈ bodies.requests, unit.resolve request s = .ok id s
  rounds : c.rounds + rank ≤ 5 * (answers.length + 1)

variable {rank : Nat} {answers : List NodeId} {c : Closure NodeId}

/-- The nodes of the requests of all bodies, as far as they have one. -/
def answersOf (unit : CompilationUnit) (bodies : CodeBodies) (s : Image) : List NodeId :=
  bodies.requests.filterMap fun request =>
    match unit.resolve request s with
    | .ok id _ => some id
    | .error .. => none

theorem mem_answersOf {request : Request} (hmem : request ∈ bodies.requests) {id : NodeId}
    (h : unit.resolve request s = .ok id s) : id ∈ unit.answersOf bodies s :=
  List.mem_filterMap.2 ⟨request, hmem, by simp only [h]⟩

/-- A request has one answer only. -/
theorem length_answersOf (unit : CompilationUnit) (bodies : CodeBodies) (s : Image) :
    (unit.answersOf bodies s).length ≤ bodies.requestCount := by
  rw [← bodies.length_requests]
  exact List.length_filterMap_le _ _

/-- Answers are the anchors of such a closure. -/
theorem Paced.pacing (h : unit.Paced bodies rank answers c s) :
    Closure.Paced s.RankBelow
      (fun id => ∃ request ∈ bodies.requests, unit.resolve request s = .ok id s) 5 rank answers c :=
  ⟨h.rank_le, h.frontier, h.nodup, h.marked, h.answered, h.rounds⟩

theorem not_rankBelow_zero (s : Image) (id : NodeId) : ¬ s.RankBelow 0 id := by
  rintro ⟨x, -, hlt⟩
  exact Nat.not_lt_zero _ hlt

/-- A closure that is not done has not used up its rounds. -/
theorem Paced.rounds_lt (h : unit.Paced bodies rank answers c s) (hne : c.frontier ≠ []) :
    c.rounds < 5 * (bodies.requestCount + 1) := by
  have hpool (id : NodeId) (hanswer : ∃ request ∈ bodies.requests,
      unit.resolve request s = .ok id s) : id ∈ unit.answersOf bodies s := by
    obtain ⟨request, hmem, hresolve⟩ := hanswer
    exact mem_answersOf hmem hresolve
  have hlt := h.pacing.rounds_lt (not_rankBelow_zero s) hne hpool
  have hlength := unit.length_answersOf bodies s
  omega

theorem start_paced (roots : List NodeId) (h : ∀ id ∈ roots, s.RankBelow 5 id) :
    unit.Paced bodies 5 [] (.start roots) s where
  rank_le := Nat.le_refl 5
  frontier id hid := h id (mem_unseen.1 hid).1
  nodup := .nil
  marked := nofun
  answered := nofun
  rounds := Nat.le_refl 5

/-- What a node of the frontier leads to is an answer, which pays for the next rounds, or of lower
rank. -/
theorem Paced.next (h : unit.Paced bodies rank answers c s) (hne : c.frontier ≠ []) (hst : s ≤ t)
    {needed : List (List NodeId)} (hlen : c.frontier.length = needed.length)
    (hneeded : ∀ id ∈ needed.flatten, t.RankBelow 5 id ∧ unit.Linked bodies (rank - 1) t id) :
    ∃ rank answers, unit.Paced bodies rank answers (c.next needed) t := by
  have hanswer (id : NodeId)
      (hid : ∃ request ∈ bodies.requests, unit.resolve request s = .ok id s) :
      ∃ request ∈ bodies.requests, unit.resolve request t = .ok id t := by
    obtain ⟨request, hmem, hresolve⟩ := hid
    exact ⟨request, hmem, (unit.resolve_settles request).again hresolve hst⟩
  obtain ⟨rank, answers, h⟩ := h.pacing.next (not_rankBelow_zero s) hne hanswer hlen hneeded
  exact ⟨rank, answers, h.rank_le, h.frontier, h.nodup, h.marked, h.anchored, h.rounds⟩

/-! ## Closures of twins -/

variable {base : Program} {attached : Bool}

/-- Two closures that are equally far. -/
def InStep (unit : CompilationUnit) (base : Program) (bodies : CodeBodies) (s t : Image)
    (c c' : Closure NodeId) : Prop :=
  c.Match (NodeMatch base s t) c' ∧ ∃ rank answers, unit.Paced bodies rank answers c s

/-- A round of both closures. -/
theorem advance_inStep {c c' : Closure NodeId} (hr : Twins unit base attached s t)
    (hbodies : bodies.Over base) (h : unit.InStep base bodies s t c c') (hne : c.frontier ≠ []) :
    Agree (Twins unit base attached) (unit.InStep base bodies)
      (Closure.advance (unit.dependencyContext bodies) c)
      (Closure.advance (unit.dependencyContext bodies) c') s t := by
  obtain ⟨hmatch, rank, answers, hpaced⟩ := h
  have hfrontier : List.Forall₂ (Found base rank s t) c.frontier c'.frontier :=
    (forall₂_and_mem hmatch.frontier).imp fun a b hab => ⟨hab.2, hpaced.frontier a hab.1.1⟩
  refine (Closure.advance_agrees (P := Found base rank)
    (W := fun s t a b => Found base 5 s t a b ∧ unit.Linked bodies (rank - 1) s a)
    (found_lasting base rank) (fun h hs ht => ⟨found_lasting base 5 h.1 hs ht, h.2.mono hs⟩) rfl
    (fun _ _ hr hab => ?_) hr hfrontier).imp fun hs ht hr hnext => ?_
  · obtain ⟨hab, x, hx, hlt⟩ := hab
    have hle := hpaced.rank_le
    refine (expand_agrees hr hbodies hab hx (by omega)).imp fun _ _ _ h => h.imp fun _ _ h => ?_
    exact ⟨h.1, h.2.weaken (by omega)⟩
  · obtain ⟨needed, needed', hneeded, hlen, rfl, rfl⟩ := hnext
    have hflat := List.rel_flatten hneeded
    have hlen' : c'.frontier.length = needed'.length := by
      rw [← hmatch.frontier.length_eq, hlen, hneeded.length_eq]
    have hnodes := hmatch.nodes.imp fun _ _ h => h.mono hs ht
    refine ⟨⟨?_, ?_, ?_⟩, hpaced.next hne hs hlen fun id hid => ?_⟩
    · rw [Closure.expanded_next hlen, Closure.expanded_next hlen']
      exact hnodes
    · exact (unseen_match hr.biUnique (fun h => h.1.1) hnodes hflat).imp fun _ _ h => h.1.1
    · rw [Closure.next, Closure.next, hmatch.rounds]
    · obtain ⟨other, -, hfound, hlinked⟩ := exists_mem_of_forall₂ hflat.flip hid
      exact ⟨hfound.2, hlinked⟩

/-- The closure is given more rounds than it can take. -/
theorem rounds_le_roundBound (bodies : CodeBodies) (image : Image) :
    5 * (bodies.requestCount + 1) ≤ roundBound bodies image := by
  rw [roundBound]
  omega

/-- Closures over matching roots end, with matching nodes, or fail with the same message. -/
theorem close_agrees (hr : Twins unit base attached s t) (hbodies : bodies.Over base)
    {roots roots' : List NodeId} (hroots : List.Forall₂ (Found base 5 s t) roots roots') :
    Agree (Twins unit base attached) (fun s t c c' => c.Match (NodeMatch base s t) c')
      (unit.close bodies roots) (unit.close bodies roots') s t := by
  have hstart : unit.InStep base bodies s t (.start roots) (.start roots') := by
    refine ⟨⟨.nil, ?_, rfl⟩, 5, [], start_paced roots fun id hid => ?_⟩
    · exact unseen_match hr.biUnique (fun h => h) .nil (hroots.imp fun _ _ h => h.1)
    · obtain ⟨other, -, hfound⟩ := exists_mem_of_forall₂ hroots.flip hid
      exact hfound.2
  refine .congr (get_bind_apply _ s) (get_bind_apply _ t) ?_
  have hlimit {s t : Image} {c c' : Closure NodeId} (h : unit.InStep base bodies s t c c')
      (hne : c.frontier ≠ []) : c.rounds < 5 * (bodies.requestCount + 1) := by
    obtain ⟨-, rank, answers, hpaced⟩ := h
    exact hpaced.rounds_lt hne
  refine (Closure.run_agrees (V := unit.InStep base bodies) (fun h => h.1.frontier_eq_nil)
    (fun h => h.1.rounds) hlimit (fun hr h hne => advance_inStep hr hbodies h hne) hr hstart
    ?_ ?_).bind fun {c c' _ _} _ _ hr hdone => ?_
  · exact Nat.le_trans (rounds_le_roundBound bodies s) (Nat.le_add_left _ _)
  · exact Nat.le_trans (rounds_le_roundBound bodies t) (Nat.le_add_left _ _)
  · obtain ⟨⟨hmatch, -⟩, hnil⟩ := hdone
    have hnil' := hmatch.frontier_eq_nil.1 hnil
    rw [hnil, hnil']
    exact .pure hr hmatch

/-- Attaching and closing over matching roots marks matching nodes. -/
theorem mark_agrees (hr : Twins unit base false s t) (hbodies : bodies.Over base)
    {methods : List MethodId} (hmethods : ∀ method ∈ methods, base.HasMethod method) :
    Agree (Twins unit base true) (fun s t c c' => c.Match (NodeMatch base s t) c')
      (unit.mark bodies methods) (unit.mark bodies methods) s t := by
  refine (attach_agrees hr).bind fun _ _ hr htables => ?_
  have hsame : List.Forall₂ (fun m m' => m = m' ∧ base.HasMethod m) methods methods :=
    List.forall₂_same.2 fun method hmethod => ⟨rfl, hmethods method hmethod⟩
  refine (Agree.mapM (P := fun _ _ m m' => m = m' ∧ base.HasMethod m) (W := Found base 5)
    (fun h _ _ => h) (found_lasting base 5) (fun _ _ hr h => ?_) hr hsame).bind
    fun hs ht hr hroots => ?_
  · obtain ⟨rfl, hbase⟩ := h
    exact resolve_agrees hr (.call (.same hbase))
  · have htables := htables.imp fun _ _ h => found_lasting base 5 h hs ht
    exact close_agrees hr hbodies (List.rel_append htables hroots)

end CompilationUnit

end NativeImage
