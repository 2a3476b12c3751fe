import Mathlib.Data.List.Perm.Basic
import NativeImage.Proofs.Closure.Lockstep

/-!
# How many rounds a closure takes

Where nodes lead only to nodes of lower rank a closure ends after as many rounds as there are ranks.
Some nodes may be led to whatever the rank: the *anchors*, of which there are finitely many. Each
one that is marked pays for another pass through all the ranks.

## Main definitions

- `Closure.Paced` — the rounds so far have been paid for

## Main statements

- `Closure.Paced.next` — a round pays for itself
- `Closure.Paced.rounds_lt` — so the anchors bound the rounds
-/

namespace NativeImage.Closure

variable {Node : Type} {Below Below' : Nat → Node → Prop} {Anchor Anchor' : Node → Prop}
  {top rank : Nat} {anchors : List Node} {c : Closure Node}

/-- The frontier is below a rank, and every marked anchor has paid for as many rounds as there are
ranks. -/
structure Paced (Below : Nat → Node → Prop) (Anchor : Node → Prop) (top rank : Nat)
    (anchors : List Node) (c : Closure Node) : Prop where
  rank_le : rank ≤ top
  frontier : ∀ node ∈ c.frontier, Below rank node
  nodup : anchors.Nodup
  marked : ∀ node ∈ anchors, node ∈ c.nodes
  anchored : ∀ node ∈ anchors, Anchor node
  rounds : c.rounds + rank ≤ top * (anchors.length + 1)

theorem Paced.rank_pos (h : Paced Below Anchor top rank anchors c)
    (hzero : ∀ node, ¬ Below 0 node) (hne : c.frontier ≠ []) : 0 < rank := by
  obtain ⟨node, hn⟩ := List.exists_mem_of_ne_nil _ hne
  refine Nat.pos_of_ne_zero fun hrank => hzero node ?_
  rw [← hrank]
  exact h.frontier node hn

/-- A closure that is not done has not used up its rounds. -/
theorem Paced.rounds_lt (h : Paced Below Anchor top rank anchors c)
    (hzero : ∀ node, ¬ Below 0 node) (hne : c.frontier ≠ []) {pool : List Node}
    (hpool : ∀ node, Anchor node → node ∈ pool) : c.rounds < top * (pool.length + 1) := by
  have hpos := h.rank_pos hzero hne
  have hrounds := h.rounds
  have hlength : anchors.length ≤ pool.length :=
    (List.subperm_of_subset h.nodup fun node hn => hpool node (h.anchored node hn)).length_le
  have hbound : top * (anchors.length + 1) ≤ top * (pool.length + 1) :=
    Nat.mul_le_mul_left _ (Nat.succ_le_succ hlength)
  omega

variable [DecidableEq Node]

theorem Paced.start {roots : List Node} (h : ∀ node ∈ roots, Below top node) :
    Paced Below Anchor top top [] (start roots) where
  rank_le := Nat.le_refl top
  frontier node hn := h node (mem_unseen.1 hn).1
  nodup := .nil
  marked := nofun
  anchored := nofun
  rounds := by
    rw [Closure.start]
    dsimp only [List.length_nil]
    omega

/-- What a node of the frontier leads to is an anchor, which pays for the next rounds, or of lower
rank. -/
theorem Paced.next (h : Paced Below Anchor top rank anchors c) (hzero : ∀ node, ¬ Below 0 node)
    (hne : c.frontier ≠ []) (hanchor : ∀ node, Anchor node → Anchor' node)
    {needed : List (List Node)} (hlen : c.frontier.length = needed.length)
    (hneeded : ∀ node ∈ needed.flatten,
      Below' top node ∧ (Anchor' node ∨ Below' (rank - 1) node)) :
    ∃ rank anchors, Paced Below' Anchor' top rank anchors (c.next needed) := by
  have hpos := h.rank_pos hzero hne
  have hrounds := h.rounds
  have hmarked (node : Node) (hn : node ∈ anchors) : node ∈ (c.next needed).nodes :=
    (mem_nodes_advance hlen).2 (.inl (h.marked node hn))
  have hanchored (node : Node) (hn : node ∈ anchors) : Anchor' node :=
    hanchor node (h.anchored node hn)
  -- a new anchor in the frontier starts another pass through the ranks; otherwise the rank falls
  by_cases hnew : ∃ node ∈ (c.next needed).frontier, Anchor' node
  · obtain ⟨node, hn, hanchor⟩ := hnew
    obtain ⟨hneed, hfresh⟩ := mem_unseen.1 hn
    refine ⟨top, node :: anchors, Nat.le_refl top,
      fun other ho => (hneeded other (mem_unseen.1 ho).1).1,
      List.nodup_cons.2 ⟨fun hmem => hfresh (h.marked node hmem), h.nodup⟩,
      List.forall_mem_cons.2 ⟨(mem_nodes_advance hlen).2 (.inr hneed), hmarked⟩,
      List.forall_mem_cons.2 ⟨hanchor, hanchored⟩, ?_⟩
    rw [Closure.next, List.length_cons, Nat.mul_succ]
    dsimp only
    omega
  · have hle := h.rank_le
    refine ⟨rank - 1, anchors, by omega, fun node hn => ?_, h.nodup, hmarked, hanchored, ?_⟩
    · obtain ⟨-, hlower⟩ := hneeded node (mem_unseen.1 hn).1
      exact hlower.resolve_left fun hanchor => hnew ⟨node, hn, hanchor⟩
    · rw [Closure.next]
      dsimp only
      omega

end NativeImage.Closure
