import NativeImage.Closure.Basic
import NativeImage.Proofs.Settled

/-!
# Closures over settled answers

A closure asks each marked node once, in whatever state the context is in by then. When the answers
settle, the final state gives them all again: the marked nodes are closed under what that one state
says they need.

## Main definitions

- `Closure.Explored` — the invariant of the rounds

## Main statements

- `Closure.advance_eq_ok` — a round succeeds only if every expansion does
- `Closure.run_explored` — the invariant holds after any number of rounds
-/

namespace NativeImage

variable {State Failure Node Request α β : Type}

/-- An operation that is done for its outcome succeeds if the operation does. -/
theorem attempt_eq_ok_ok {isFatal : Failure → Bool} {x : EStateM Failure State α} {s t : State}
    {a : α} : attempt isFatal x s = .ok (.ok a) t ↔ x s = .ok a t := by
  rw [attempt]
  cases x s with
  | ok b u => simp
  | error e u =>
    simp only [reduceCtorEq, iff_false]
    split <;> simp

/-- If none of the outcomes is a failure, the operations could as well have been done plainly. -/
theorem mapM_of_attempt {isFatal : Failure → Bool} {f : α → EStateM Failure State β}
    {list : List α} {s t : State} {outcomes : List (Except Failure β)} {results : List β}
    (h : (list.mapM fun a => attempt isFatal (f a)) s = .ok outcomes t)
    (hall : allOrFirstFailure outcomes = .ok results) : list.mapM f s = .ok results t := by
  induction list generalizing s outcomes results with
  | nil =>
    rw [List.mapM_nil] at h ⊢
    cases h
    cases hall
    rfl
  | cons head rest ih =>
    rw [List.mapM_cons] at h ⊢
    obtain ⟨outcome, u, hhead, h⟩ := bind_eq_ok.1 h
    obtain ⟨others, v, hrest, h⟩ := bind_eq_ok.1 h
    cases h
    cases outcome with
    | error e => cases hall
    | ok b =>
      cases ho : allOrFirstFailure others with
      | error e =>
        rw [allOrFirstFailure, ho] at hall
        cases hall
      | ok bs =>
        rw [allOrFirstFailure, ho] at hall
        cases hall
        refine bind_eq_ok.2 ⟨b, u, attempt_eq_ok_ok.1 hhead, ?_⟩
        exact bind_eq_ok.2 ⟨bs, t, ih hrest ho, rfl⟩

/-- The final state gives every result of a list of settled operations again. -/
theorem Settles.mapM_again [Preorder State] {f : α → EStateM Failure State β} {list : List α}
    (hf : ∀ a ∈ list, Settles (f a)) {s t : State} {results : List β}
    (h : list.mapM f s = .ok results t) :
    List.Forall₂ (fun a b => f a t = .ok b t) list results := by
  induction list generalizing s results with
  | nil =>
    rw [List.mapM_nil] at h
    cases h
    exact .nil
  | cons head rest ih =>
    have hrest (a : α) (ha : a ∈ rest) : Settles (f a) := hf a (List.mem_cons_of_mem _ ha)
    rw [List.mapM_cons] at h
    obtain ⟨b, u, hb, h⟩ := bind_eq_ok.1 h
    obtain ⟨bs, v, hbs, h⟩ := bind_eq_ok.1 h
    cases h
    refine .cons ?_ (ih hrest hbs)
    exact (hf head List.mem_cons_self).again hb ((Settles.mapM hrest).grows hbs)

namespace Closure

variable {context : DependencyContext State Failure Node Request} {roots : List Node}
  {closure next : Closure Node} {s t : State}

/-- What the roots need is marked as far as the closure has expanded it, and the state confirms
every expansion. -/
structure Explored (context : DependencyContext State Failure Node Request) (roots : List Node)
    (closure : Closure Node) (state : State) : Prop where
  roots_mem : ∀ node ∈ roots, node ∈ closure.nodes
  expands : ∀ entry ∈ closure.expanded, expand context entry.1 state = .ok entry.2 state
  needed_mem : ∀ entry ∈ closure.expanded, ∀ node ∈ entry.2, node ∈ closure.nodes

/-- Without a frontier, the marked nodes are the expanded ones. -/
theorem Explored.exists_expansion (hc : Explored context roots closure s)
    (hdone : closure.frontier = []) {node : Node} (hn : node ∈ closure.nodes) :
    ∃ needed, expand context node s = .ok needed s ∧ ∀ other ∈ needed, other ∈ closure.nodes := by
  rw [nodes, hdone, List.append_nil] at hn
  obtain ⟨entry, he, rfl⟩ := List.mem_map.1 hn
  exact ⟨entry.2, hc.expands entry he, hc.needed_mem entry he⟩

/-- Asking for a node's requests and resolving them settles. -/
theorem expand_settles [Preorder State]
    (hdeps : ∀ node, Settles (context.dependencies node))
    (hres : ∀ request, Settles (context.resolve request)) (node : Node) :
    Settles (expand context node) :=
  (hdeps node).bind fun _ => Settles.mapM fun request _ => hres request

/-! ## Rounds -/

variable [DecidableEq Node]

/-- A round succeeds only if every expansion does. -/
theorem advance_eq_ok (h : advance context closure s = .ok next t) :
    ∃ needed, closure.frontier.mapM (expand context) s = .ok needed t ∧
      next = ⟨closure.expanded ++ closure.frontier.zip needed,
        unseen closure.nodes needed.flatten, closure.rounds + 1⟩ := by
  obtain ⟨outcomes, u, hout, h⟩ := bind_eq_ok.1 h
  cases hall : allOrFirstFailure outcomes with
  | error e =>
    rw [hall] at h
    cases h
  | ok needed =>
    rw [hall] at h
    cases h
    exact ⟨needed, mapM_of_attempt hout hall, rfl⟩

/-- Marked nodes stay marked. -/
theorem mem_nodes_advance {needed : List (List Node)} {rounds : Nat}
    (hlen : closure.frontier.length = needed.length) {node : Node} :
    node ∈ nodes ⟨closure.expanded ++ closure.frontier.zip needed,
        unseen closure.nodes needed.flatten, rounds⟩ ↔
      node ∈ closure.nodes ∨ node ∈ needed.flatten := by
  have hfst : (closure.frontier.zip needed).map (·.1) = closure.frontier :=
    List.map_fst_zip (by omega)
  have hnodes : nodes ⟨closure.expanded ++ closure.frontier.zip needed,
      unseen closure.nodes needed.flatten, rounds⟩ =
      closure.nodes ++ unseen closure.nodes needed.flatten := by
    simp only [nodes, List.map_append, hfst]
  rw [hnodes, List.mem_append, mem_unseen]
  by_cases hm : node ∈ closure.nodes <;> simp [hm]

theorem Explored.start (context : DependencyContext State Failure Node Request)
    (roots : List Node) (state : State) : Explored context roots (start roots) state where
  roots_mem node h := by
    simp [Closure.start, nodes, h]
  expands entry h := by
    simp [Closure.start] at h
  needed_mem entry h := by
    simp [Closure.start] at h

variable [Preorder State]

theorem Explored.advance (hdeps : ∀ node, Settles (context.dependencies node))
    (hres : ∀ request, Settles (context.resolve request))
    (hc : Explored context roots closure s) (h : advance context closure s = .ok next t) :
    Explored context roots next t ∧ s ≤ t := by
  have hexpand := expand_settles hdeps hres
  obtain ⟨needed, hmap, rfl⟩ := advance_eq_ok h
  have hle : s ≤ t := (Settles.mapM fun node _ => hexpand node).grows hmap
  obtain ⟨hlen, hall⟩ := List.forall₂_iff_zip.1
    (Settles.mapM_again (fun node _ => hexpand node) hmap)
  refine ⟨⟨fun node hn => ?_, fun entry he => ?_, fun entry he node hn => ?_⟩, hle⟩
  · exact (mem_nodes_advance hlen).2 (.inl (hc.roots_mem node hn))
  · rcases List.mem_append.1 he with hold | hnew
    · exact (hexpand _).again (hc.expands entry hold) hle
    · exact hall hnew
  · rcases List.mem_append.1 he with hold | hnew
    · exact (mem_nodes_advance hlen).2 (.inl (hc.needed_mem entry hold node hn))
    · have hin : node ∈ needed.flatten :=
        List.mem_flatten.2 ⟨entry.2, (List.of_mem_zip hnew).2, hn⟩
      exact (mem_nodes_advance hlen).2 (.inr hin)

/-- However many rounds a closure takes, its final state confirms every expansion. -/
theorem run_explored (hdeps : ∀ node, Settles (context.dependencies node))
    (hres : ∀ request, Settles (context.resolve request)) {bound : Nat}
    (hc : Explored context roots closure s) (h : run context bound closure s = .ok next t) :
    Explored context roots next t ∧ s ≤ t := by
  induction bound generalizing closure s with
  | zero =>
    cases h
    exact ⟨hc, le_rfl⟩
  | succ bound ih =>
    rw [run] at h
    split at h
    · cases h
      exact ⟨hc, le_rfl⟩
    · obtain ⟨after, u, hadv, h⟩ := bind_eq_ok.1 h
      obtain ⟨hafter, hsu⟩ := hc.advance hdeps hres hadv
      obtain ⟨hnext, hut⟩ := ih hafter h
      exact ⟨hnext, hsu.trans hut⟩

end Closure

end NativeImage
