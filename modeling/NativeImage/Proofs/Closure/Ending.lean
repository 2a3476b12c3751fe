import NativeImage.Proofs.Closure.Lockstep
import NativeImage.Proofs.Ending

/-!
# How closures end

A closure fails only if expanding one of its nodes does, and then with a failure of such an
expansion. If the rounds of a closure are bounded and it is given more, it ends without a frontier.

## Main definitions

- `Outcome.Holds` — what an operation that is done for its outcome ends with

## Main statements

- `Closure.advance_ends` — a round
- `Closure.run_ends` — rounds until the frontier is empty
-/

namespace NativeImage

variable {State Failure Node Request α β : Type}

/-- What is known of an outcome if one property holds of results and another one of failures. -/
inductive Outcome.Holds (E : Failure → Prop) (V : α → Prop) : Except Failure α → Prop
  | ok {a : α} (h : V a) : Holds E V (.ok a)
  | error {e : Failure} (h : E e) : Holds E V (.error e)

/-- There are results for all, or the first failure is one of those that can occur. -/
theorem Outcome.Holds.all {E : Failure → Prop} {V : α → β → Prop} {as : List α}
    {outcomes : List (Except Failure β)}
    (h : List.Forall₂ (fun a => Outcome.Holds E (V a)) as outcomes) :
    Outcome.Holds E (List.Forall₂ V as) (allOrFirstFailure outcomes) := by
  induction h with
  | nil => exact .ok .nil
  | @cons a outcome as outcomes ha _ ih =>
    cases ha with
    | error he => exact .error he
    | ok hv =>
      rw [allOrFirstFailure]
      generalize allOrFirstFailure outcomes = rest at ih ⊢
      cases ih with
      | error he => exact .error he
      | ok hall => exact .ok (.cons hv hall)

section Attempt

variable [Preorder State] {R : State → Prop} {E : State → Failure → Prop} {V : State → α → Prop}
  {s : State}

/-- An operation that is done for its outcome ends with it, or with a fatal failure. -/
theorem Ends.attempt {x : EStateM Failure State α} (h : Ends R E V x s)
    (isFatal : Failure → Bool) :
    Ends R E (fun t => Outcome.Holds (E t) (V t)) (attempt isFatal x) s := by
  cases h with
  | ok hx hle hr hv => exact .ok (by rw [NativeImage.attempt, hx]) hle hr (.ok hv)
  | @error e t hx hle hr he =>
    by_cases hfatal : isFatal e = true
    · refine .error ?_ hle hr he
      rw [NativeImage.attempt, hx]
      exact if_pos hfatal
    · refine .ok ?_ hle hr (.error he)
      rw [NativeImage.attempt, hx]
      exact if_neg hfatal

theorem holds_lasts (hE : Lasts E) (hV : Lasts V) :
    Lasts fun s => Outcome.Holds (E s) (V s) := by
  intro s t outcome h hle
  cases h with
  | ok hv => exact .ok (hV hv hle)
  | error he => exact .error (hE he hle)

end Attempt

namespace Closure

variable [Preorder State] [DecidableEq Node]
  {context : DependencyContext State Failure Node Request}
  {R : State → Prop} {E : State → Failure → Prop} {s : State} {c : Closure Node}

/-- A round fails only with a failure of an expansion. What it finds is needed by the nodes that it
expands. -/
theorem advance_ends {P : State → Node → Prop} {W : State → Node → Node → Prop} (hP : Lasts P)
    (hW : ∀ node, Lasts fun s => W s node) (hE : Lasts E)
    (hexpand : ∀ {node t}, s ≤ t → R t → P t node →
      Ends R E (fun u needed => ∀ other ∈ needed, W u node other) (expand context node) t)
    (hr : R s) (hfrontier : ∀ node ∈ c.frontier, P s node) :
    Ends R E (fun t d => ∃ needed, c.frontier.length = needed.length ∧ d = c.next needed ∧
        ∀ other ∈ needed.flatten, ∃ node ∈ c.frontier, W t node other)
      (advance context c) s := by
  let V (t : State) (node : Node) (needed : List Node) : Prop := ∀ other ∈ needed, W t node other
  have hV (node : Node) : Lasts fun t => V t node := fun h hle other ho => hW node (h other ho) hle
  refine (Ends.mapM (P := P) (U := fun t node => Outcome.Holds (E t) (V t node)) hP
    (fun node => holds_lasts (E := E) (V := fun t => V t node) hE (hV node))
    (fun hle hr hp => (hexpand hle hr hp).attempt context.isFatal) hr hfrontier).bind
    fun {outcomes t} _ hr houtcomes => ?_
  have hholds := Outcome.Holds.all houtcomes
  generalize allOrFirstFailure outcomes = all at hholds ⊢
  cases hholds with
  | error he => exact .throw hr he
  | @ok needed hneeded =>
    refine .pure hr ⟨needed, hneeded.length_eq, rfl, fun other ho => ?_⟩
    obtain ⟨others, hothers, ho⟩ := List.mem_flatten.1 ho
    obtain ⟨node, hnode, hw⟩ := exists_mem_of_forall₂ hneeded hothers
    exact ⟨node, hnode, hw other ho⟩

/-- A closure that is given more rounds than it can take ends without a frontier, or with a failure
of one of its rounds. -/
theorem run_ends {V : State → Closure Node → Prop} {limit : Nat}
    (hlimit : ∀ {s c}, V s c → c.frontier ≠ [] → c.rounds < limit)
    (hstep : ∀ {s c}, R s → V s c → c.frontier ≠ [] → Ends R E V (advance context c) s)
    {bound : Nat} (hr : R s) (hv : V s c) (hb : limit ≤ c.rounds + bound) :
    Ends R E (fun t d => V t d ∧ d.frontier = []) (run context bound c) s := by
  induction bound generalizing s c with
  | zero =>
    have hdone : c.frontier = [] := by
      by_contra hne
      have hlt := hlimit hv hne
      omega
    exact .congr (run_of_frontier_eq_nil hdone _) (.pure hr ⟨hv, hdone⟩)
  | succ bound ih =>
    by_cases hdone : c.frontier = []
    · exact .congr (run_of_frontier_eq_nil hdone _) (.pure hr ⟨hv, hdone⟩)
    · rw [run_of_frontier_ne_nil hdone]
      refine ((hstep hr hv hdone).and (P := fun _ d => d.rounds = c.rounds + 1)
        fun h => ?_).bind fun _ hr hnext => ?_
      · obtain ⟨needed, -, rfl⟩ := advance_eq_ok h
        rfl
      · obtain ⟨hv, hround⟩ := hnext
        exact ih hr hv (by omega)

end Closure

end NativeImage
