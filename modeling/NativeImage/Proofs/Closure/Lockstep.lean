import NativeImage.Proofs.Agreement
import NativeImage.Proofs.Closure.Explored

/-!
# Closures in lockstep

Two closures whose contexts agree on matching nodes go through the same rounds: they mark matching
nodes in the same order, whatever else the two states hold. Nodes are told apart alike because
matching is one to one.

## Main definitions

- `Outcome` — outcomes of agreeing operations
- `Closure.Match` — closures that have marked matching nodes

## Main statements

- `unseen_match` — the new entries of matching lists match
- `Closure.advance_agrees` — a round of two closures
- `Closure.run_agrees` — rounds until the frontiers are empty, also if the two bounds differ
-/

namespace NativeImage

variable {State Failure Node Request α β : Type}

/-- Outcomes of agreeing operations: related results, or the same failure. -/
inductive Outcome (V : α → β → Prop) : Except Failure α → Except Failure β → Prop
  | ok {a : α} {b : β} (h : V a b) : Outcome V (.ok a) (.ok b)
  | error (e : Failure) : Outcome V (.error e) (.error e)

/-- The first failures are the same, or there are none. -/
theorem Outcome.all {V : α → β → Prop} {xs : List (Except Failure α)} {ys : List (Except Failure β)}
    (h : List.Forall₂ (Outcome V) xs ys) :
    Outcome (List.Forall₂ V) (allOrFirstFailure xs) (allOrFirstFailure ys) := by
  induction h with
  | nil => exact .ok .nil
  | @cons x y xs ys hxy hrest ih =>
    cases hxy with
    | error e => exact .error e
    | ok hab =>
      rw [allOrFirstFailure, allOrFirstFailure]
      generalize allOrFirstFailure xs = rest at ih ⊢
      generalize allOrFirstFailure ys = rest' at ih ⊢
      cases ih with
      | error e => exact .error e
      | ok hall => exact .ok (.cons hab hall)

section Attempt

variable [Preorder State]

/-- Operations that are done for their outcome agree if the operations do. -/
theorem attempt_agrees {R : State → State → Prop} {V : State → State → α → β → Prop}
    {isFatal : Failure → Bool} {x : EStateM Failure State α} {y : EStateM Failure State β}
    {s t : State} (h : Agree R V x y s t) :
    Agree R (fun s t => Outcome (V s t)) (attempt isFatal x) (attempt isFatal y) s t := by
  cases h with
  | ok hx hy hs ht hr hv =>
    refine .ok ?_ ?_ hs ht hr (.ok hv)
    · rw [attempt, hx]
    · rw [attempt, hy]
  | @error e s' t' hx hy hs ht hr =>
    by_cases hfatal : isFatal e = true
    · refine .error (e := e) ?_ ?_ hs ht hr
      · rw [attempt, hx]
        exact if_pos hfatal
      · rw [attempt, hy]
        exact if_pos hfatal
    · refine .ok ?_ ?_ hs ht hr (.error e)
      · rw [attempt, hx]
        exact if_neg hfatal
      · rw [attempt, hy]
        exact if_neg hfatal

theorem outcome_lasting {V : State → State → α → β → Prop} (hV : Lasting V) :
    Lasting fun s t (x : Except Failure α) (y : Except Failure β) => Outcome (V s t) x y := by
  intro s t s' t' x y h hs ht
  cases h with
  | ok h => exact .ok (hV h hs ht)
  | error e => exact .error e

end Attempt

/-! ## New entries -/

section Unseen

variable {Node' : Type}

variable {N : Node → Node' → Prop} {seen list : List Node} {seen' list' : List Node'}

variable [DecidableEq Node] [DecidableEq Node']

/-- The new entries of matching lists match. -/
theorem unseen_match {W : Node → Node' → Prop} (hN : Relator.BiUnique N)
    (hW : ∀ {a b}, W a b → N a b)
    (hseen : List.Forall₂ N seen seen') (hlist : List.Forall₂ W list list') :
    List.Forall₂ W (unseen seen list) (unseen seen' list') := by
  induction hlist generalizing seen seen' with
  | nil => exact .nil
  | @cons a b rest rest' hab hrest ih =>
    have hiff := List.rel_mem hN (hW hab) hseen
    by_cases hknown : a ∈ seen
    · rw [unseen, unseen, if_pos hknown, if_pos (hiff.1 hknown)]
      exact ih hseen
    · rw [unseen, unseen, if_neg hknown, if_neg fun h => hknown (hiff.2 h)]
      exact .cons hab (ih (.cons (hW hab) hseen))

end Unseen

/-! ## Rounds -/

namespace Closure

variable {Node' Request' : Type} {context : DependencyContext State Failure Node Request}
  {context' : DependencyContext State Failure Node' Request'} {R : State → State → Prop}
  {s t : State} {c : Closure Node} {c' : Closure Node'}

/-- Closures that have marked matching nodes in the same order. -/
structure Match (N : Node → Node' → Prop) (c : Closure Node) (c' : Closure Node') : Prop where
  expanded : List.Forall₂ N (c.expanded.map (·.1)) (c'.expanded.map (·.1))
  frontier : List.Forall₂ N c.frontier c'.frontier
  rounds : c.rounds = c'.rounds

theorem Match.nodes {N : Node → Node' → Prop} (h : c.Match N c') :
    List.Forall₂ N c.nodes c'.nodes :=
  List.rel_append h.expanded h.frontier

theorem Match.frontier_eq_nil {N : Node → Node' → Prop} (h : c.Match N c') :
    c.frontier = [] ↔ c'.frontier = [] := by
  rw [← List.length_eq_zero_iff, ← List.length_eq_zero_iff, h.frontier.length_eq]

section Single

variable [DecidableEq Node]

/-- The closure after a round in which its frontier was found to need these nodes. -/
def next (c : Closure Node) (needed : List (List Node)) : Closure Node :=
  ⟨c.expanded ++ c.frontier.zip needed, unseen c.nodes needed.flatten, c.rounds + 1⟩

theorem expanded_next {needed : List (List Node)} (h : c.frontier.length = needed.length) :
    (c.next needed).expanded.map (·.1) = c.nodes := by
  rw [next, List.map_append, nodes, List.map_fst_zip (Nat.le_of_eq h)]

/-- A closure without a frontier is left as it is. -/
theorem run_of_frontier_eq_nil (h : c.frontier = []) (bound : Nat) :
    run context bound c s = .ok c s := by
  cases bound with
  | zero => rfl
  | succ bound =>
    rw [run, h]
    rfl

theorem run_of_frontier_ne_nil (h : c.frontier ≠ []) (bound : Nat) :
    run context (bound + 1) c = advance context c >>= run context bound := by
  rw [run, if_neg (by simpa using h)]

end Single

variable [Preorder State] [DecidableEq Node] [DecidableEq Node']

/-- A round on both sides: matching nodes are expanded, and what they need is related. -/
theorem advance_agrees {P W : State → State → Node → Node' → Prop} (hP : Lasting P)
    (hW : Lasting W) (hfatal : context.isFatal = context'.isFatal)
    (hexpand : ∀ {a b s' t'}, s ≤ s' → t ≤ t' → R s' t' → P s' t' a b →
      Agree R (fun s t => List.Forall₂ (W s t)) (expand context a) (expand context' b) s' t')
    (hr : R s t) (hfrontier : List.Forall₂ (P s t) c.frontier c'.frontier) :
    Agree R (fun s t d d' => ∃ needed needed', List.Forall₂ (List.Forall₂ (W s t)) needed needed' ∧
        c.frontier.length = needed.length ∧ d = c.next needed ∧ d' = c'.next needed')
      (advance context c) (advance context' c') s t := by
  rw [advance, advance, ← hfatal]
  refine ((Agree.mapM (P := P) (W := fun s t => Outcome (List.Forall₂ (W s t))) hP
    (outcome_lasting (V := fun s t => List.Forall₂ (W s t)) hW.forall₂)
    (fun hs ht hr h => attempt_agrees (hexpand hs ht hr h)) hr hfrontier).and_left
    (P := fun _ outcomes => ∀ needed, allOrFirstFailure outcomes = .ok needed →
      c.frontier.length = needed.length)
    fun h needed hall => (length_of_mapM (mapM_of_attempt h hall)).symm).bind
    fun {outcomes outcomes' _ _} _ _ hr houtcomes => ?_
  obtain ⟨hmatch, hlength⟩ := houtcomes
  have hall := Outcome.all hmatch
  generalize allOrFirstFailure outcomes = all at hall hlength ⊢
  generalize allOrFirstFailure outcomes' = all' at hall ⊢
  cases hall with
  | error e => exact .throw hr
  | @ok needed needed' h => exact .pure hr ⟨needed, needed', h, hlength needed rfl, rfl, rfl⟩

/-- Rounds on both sides until the frontiers are empty. The bounds may differ, as long as both are
beyond the number of rounds that such closures can take. -/
theorem run_agrees {V : State → State → Closure Node → Closure Node' → Prop} {limit : Nat}
    (hfrontier : ∀ {s t c c'}, V s t c c' → (c.frontier = [] ↔ c'.frontier = []))
    (hrounds : ∀ {s t c c'}, V s t c c' → c.rounds = c'.rounds)
    (hlimit : ∀ {s t c c'}, V s t c c' → c.frontier ≠ [] → c.rounds < limit)
    (hstep : ∀ {s t c c'}, R s t → V s t c c' → c.frontier ≠ [] →
      Agree R V (advance context c) (advance context' c') s t)
    {bound bound' : Nat} (hr : R s t) (hv : V s t c c') (hb : limit ≤ c.rounds + bound)
    (hb' : limit ≤ c'.rounds + bound') :
    Agree R (fun s t c c' => V s t c c' ∧ c.frontier = []) (run context bound c)
      (run context' bound' c') s t := by
  induction bound generalizing bound' s t c c' with
  | zero =>
    have hdone : c.frontier = [] := by
      by_contra hne
      have hlt := hlimit hv hne
      omega
    exact .congr (run_of_frontier_eq_nil hdone _)
      (run_of_frontier_eq_nil ((hfrontier hv).1 hdone) _) (.pure hr ⟨hv, hdone⟩)
  | succ bound ih =>
    by_cases hdone : c.frontier = []
    · exact .congr (run_of_frontier_eq_nil hdone _)
        (run_of_frontier_eq_nil ((hfrontier hv).1 hdone) _) (.pure hr ⟨hv, hdone⟩)
    · have hdone' : c'.frontier ≠ [] := fun h => hdone ((hfrontier hv).2 h)
      have hlt := hlimit hv hdone
      have hsame := hrounds hv
      obtain ⟨bound', rfl⟩ : ∃ n, bound' = n + 1 := ⟨bound' - 1, by omega⟩
      rw [run_of_frontier_ne_nil hdone, run_of_frontier_ne_nil hdone']
      refine ((hstep hr hv hdone).and_left (P := fun _ d => d.rounds = c.rounds + 1)
        fun h => ?_).bind fun _ _ hr hnext => ?_
      · obtain ⟨needed, -, rfl⟩ := advance_eq_ok h
        rfl
      · obtain ⟨hv, hround⟩ := hnext
        have hsame' := hrounds hv
        exact ih hr hv (by omega) (by omega)

end Closure

end NativeImage
