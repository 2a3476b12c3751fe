import Mathlib.Data.List.Induction
import Mathlib.Data.List.Nodup
import NativeImage.Proofs.Closure.Explored

/-!
# Why a node is marked

A closure marks no node twice, and none without a reason: a marked node is a root, or an expanded
node that was marked before it needs it.

## Main definitions

- `Closure.Justified` — the invariant of the rounds

## Main statements

- `Closure.run_justified` — the invariant holds after any number of rounds
- `Closure.Justified.induction` — what holds of the roots and passes on to what is needed holds of
  every marked node
-/

namespace NativeImage.Closure

variable {State Failure Node Request : Type}
  {context : DependencyContext State Failure Node Request} {roots : List Node}
  {closure next : Closure Node} {s t : State}

/-- A member of two lists behind one another is in the first, with all that precedes it, or in the
second, behind the whole first list. -/
theorem split_append {first second before after : List Node} {node : Node}
    (h : first ++ second = before ++ node :: after) :
    (∃ rest, first = before ++ node :: rest) ∨ (node ∈ second ∧ first ⊆ before) := by
  rcases List.append_eq_append_iff.1 h with ⟨newer, rfl, rfl⟩ | ⟨rest, rfl, hcons⟩
  · exact .inr ⟨List.mem_append_right _ List.mem_cons_self, List.subset_append_left _ _⟩
  · cases rest with
    | nil =>
      rw [List.nil_append] at hcons
      rw [← hcons, List.append_nil]
      exact .inr ⟨List.mem_cons_self, List.Subset.refl before⟩
    | cons first rest =>
      obtain ⟨rfl, -⟩ := List.cons.inj hcons
      exact .inl ⟨rest, rfl⟩

/-- No node is marked twice, and each one is a root or needed by an expanded node that was marked
before it. -/
structure Justified (roots : List Node) (closure : Closure Node) : Prop where
  nodup : closure.nodes.Nodup
  cause : ∀ before node after, closure.nodes = before ++ node :: after →
    node ∈ roots ∨ ∃ entry ∈ closure.expanded, entry.1 ∈ before ∧ node ∈ entry.2

/-- What holds of the roots and of everything that an expanded node with this property needs holds
of every marked node. -/
theorem Justified.induction (h : Justified roots closure) {P : Node → Prop}
    (hroots : ∀ node ∈ roots, P node)
    (hneeded : ∀ entry ∈ closure.expanded, P entry.1 → ∀ node ∈ entry.2, P node) :
    ∀ node ∈ closure.nodes, P node := by
  suffices hprefix : ∀ before after, closure.nodes = before ++ after → ∀ node ∈ before, P node by
    intro node hn
    exact hprefix closure.nodes [] (List.append_nil _).symm node hn
  intro before
  -- from the first marked node to the last one
  induction before using List.reverseRecOn with
  | nil => exact fun _ _ node hn => absurd hn List.not_mem_nil
  | append_singleton before last ih =>
    intro after hsplit node hn
    have hlast : closure.nodes = before ++ last :: after := by
      rw [hsplit, List.append_assoc, List.singleton_append]
    rcases List.mem_append.1 hn with hold | hnew
    · exact ih _ hlast node hold
    · obtain rfl := List.mem_singleton.1 hnew
      rcases h.cause before node after hlast with hroot | ⟨entry, he, hbefore, hneeds⟩
      · exact hroots node hroot
      · exact hneeded entry he (ih _ hlast _ hbefore) node hneeds

/-! ## Rounds -/

variable [DecidableEq Node]

theorem Justified.start (roots : List Node) : Justified roots (start roots) where
  nodup := by
    rw [nodes]
    exact nodup_unseen [] roots
  cause before node after hsplit := by
    have hn : node ∈ (Closure.start roots).nodes := by
      rw [hsplit]
      exact List.mem_append_right _ List.mem_cons_self
    have hunseen : node ∈ unseen [] roots := hn
    exact .inl (mem_unseen.1 hunseen).1

/-- A round marks only what the frontier needs, behind everything that has been marked. -/
theorem Justified.advance (h : Justified roots closure)
    (hadvance : advance context closure s = .ok next t) : Justified roots next := by
  obtain ⟨needed, hmap, rfl⟩ := advance_eq_ok hadvance
  have hlength : closure.frontier.length = needed.length := (length_of_mapM hmap).symm
  have hfst : (closure.frontier.zip needed).map (·.1) = closure.frontier :=
    List.map_fst_zip (Nat.le_of_eq hlength)
  have hnodes : nodes ⟨closure.expanded ++ closure.frontier.zip needed,
      unseen closure.nodes needed.flatten, closure.rounds + 1⟩ =
      closure.nodes ++ unseen closure.nodes needed.flatten := by
    simp only [nodes, List.map_append, hfst]
  constructor
  · rw [hnodes]
    refine List.Nodup.append h.nodup (nodup_unseen _ _) fun node hold hnew => ?_
    exact (mem_unseen.1 hnew).2 hold
  · intro before node after hsplit
    rw [hnodes] at hsplit
    rcases split_append hsplit with ⟨rest, hold⟩ | ⟨hnew, hbefore⟩
    · rcases h.cause before node rest hold with hroot | ⟨entry, he, hearlier, hneeds⟩
      · exact .inl hroot
      · exact .inr ⟨entry, List.mem_append_left _ he, hearlier, hneeds⟩
    · obtain ⟨needs, hneeds, hnode⟩ := List.mem_flatten.1 (mem_unseen.1 hnew).1
      obtain ⟨entry, he, rfl⟩ : ∃ entry ∈ closure.frontier.zip needed, entry.2 = needs := by
        rw [← List.map_snd_zip (Nat.le_of_eq hlength.symm)] at hneeds
        exact List.mem_map.1 hneeds
      have hfrontier : entry.1 ∈ closure.frontier := (List.of_mem_zip he).1
      exact .inr ⟨entry, List.mem_append_right _ he,
        hbefore (List.mem_append_right _ hfrontier), hnode⟩

theorem run_justified {bound : Nat} (hc : Justified roots closure)
    (h : run context bound closure s = .ok next t) : Justified roots next := by
  induction bound generalizing closure s with
  | zero =>
    cases h
    exact hc
  | succ bound ih =>
    rw [run] at h
    split at h
    · cases h
      exact hc
    · obtain ⟨after, u, hadvance, h⟩ := bind_eq_ok.1 h
      exact ih (hc.advance hadvance) h

end NativeImage.Closure
