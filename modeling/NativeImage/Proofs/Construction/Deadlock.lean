import Mathlib.Computability.StateTransition
import Mathlib.Data.List.Perm.Subperm
import NativeImage.Proofs.Construction.Step

/-!
# Waiting threads never form a loop

A tracker follows the waits that it keeps account of from owner to owner. A wait is refused if the
owner leads back to the thread that asks, so no loop arises; and because there is none, the walk
from owner to owner visits every waiting thread at most once. The bound that `Monitor.waitsFor`
puts on the walk is therefore no restriction.

## Main definitions

- `Monitor.WaitsOn` — a thread waits for a construction of another one
- `Monitor.seek` — the walk from owner to owner, without a bound

## Main statements

- `Monitor.seek_eq` — the walk, from a thread to its owner
- `Monitor.seek_eq_waitsFor` — the walk ends, with the answer of the bounded one
- `Monitor.shared_tracker_deadlock_free` — threads that share a tracker never all wait
-/

namespace NativeImage.Monitor

open Relation

variable {Key Value : Type}

/-! ## Walks from owner to owner -/

/-- The owner that a tracker knows a thread to wait for. -/
def next (family : CacheFamily) (tracker : Tracker) (waits : List (Wait Key))
    (thread : ThreadId) : Option ThreadId :=
  (waitOf? family tracker waits thread).map Wait.owner

/-- One step from a waiting thread to the owner it waits for. -/
def Edge (next : ThreadId → Option ThreadId) (thread owner : ThreadId) : Prop :=
  next thread = some owner

def Acyclic (next : ThreadId → Option ThreadId) : Prop :=
  ∀ thread, ¬ TransGen (Edge next) thread thread

/-- One step of a walk that is over once it arrives at `goal`. -/
def stepTo (next : ThreadId → Option ThreadId) (goal thread : ThreadId) : Option ThreadId :=
  if thread = goal then none else next thread

open scoped Classical in
/-- Whether the walk from `current` arrives at `goal`. There is no answer if it does not end, as on
a loop of waits that passes by `goal`. -/
noncomputable def seek (next : ThreadId → Option ThreadId) (goal current : ThreadId) :
    Option Bool :=
  (StateTransition.eval (stepTo next goal) current).toOption.map (· == goal)

/-- The walk goes on from a thread to its owner. It ends at its goal, or at a thread that does not
wait. -/
theorem seek_eq (next : ThreadId → Option ThreadId) (goal current : ThreadId) :
    seek next goal current =
      if current = goal then some true
      else match next current with
        | some owner => seek next goal owner
        | none => some false := by
  classical
  have hend (h : stepTo next goal current = none) :
      seek next goal current = some (current == goal) := by
    have hlast := StateTransition.mem_eval.2 ⟨.refl, h⟩
    rw [seek, Part.toOption_eq_some_iff.2 hlast, Option.map_some]
  by_cases hg : current = goal
  · rw [if_pos hg, hend (if_pos hg), beq_iff_eq.2 hg]
  rw [if_neg hg]
  cases hn : next current with
  | none => rw [hend ((if_neg hg).trans hn), beq_false_of_ne hg]
  | some owner =>
    have hstep : StateTransition.Reaches (stepTo next goal) current owner :=
      .single ((if_neg hg).trans hn)
    rw [seek, StateTransition.reaches_eval hstep]
    rfl

theorem leadsTo_succ (family : CacheFamily) (tracker : Tracker) (waits : List (Wait Key))
    (goal : ThreadId) (bound : Nat) (thread : ThreadId) :
    leadsTo family tracker waits goal (bound + 1) thread =
      if thread = goal then true
      else match next family tracker waits thread with
        | some owner => leadsTo family tracker waits goal bound owner
        | none => false := by
  rw [leadsTo, next]
  cases waitOf? family tracker waits thread <;> rfl

/-- Different waiting threads, all of which the walk from `first` visits. -/
structure Trail (next : ThreadId → Option ThreadId) (first : ThreadId)
    (visited : List ThreadId) : Prop where
  nodup : visited.Nodup
  reached : ∀ thread ∈ visited, ReflTransGen (Edge next) first thread
  waiting : ∀ thread ∈ visited, (next thread).isSome

theorem Trail.nil (next : ThreadId → Option ThreadId) (first : ThreadId) : Trail next first [] :=
  ⟨.nil, by simp, by simp⟩

/-- Without loops, the thread before a walk is none of those that the walk visits. -/
theorem Trail.cons {next : ThreadId → Option ThreadId} (hacyclic : Acyclic next)
    {thread owner : ThreadId} {visited : List ThreadId} (h : Trail next owner visited)
    (hedge : next thread = some owner) : Trail next thread (thread :: visited) where
  nodup := List.nodup_cons.2
    ⟨fun hm => hacyclic thread (.head' hedge (h.reached thread hm)), h.nodup⟩
  reached other hm := by
    rcases List.mem_cons.1 hm with rfl | hm
    · exact .refl
    · exact .head hedge (h.reached other hm)
  waiting other hm := by
    rcases List.mem_cons.1 hm with rfl | hm
    · simp [hedge]
    · exact h.waiting other hm

/-- A walk visits no more threads than wait. -/
theorem Trail.length_le {family : CacheFamily} {tracker : Tracker} {waits : List (Wait Key)}
    {first : ThreadId} {visited : List ThreadId}
    (h : Trail (next family tracker waits) first visited) : visited.length ≤ waits.length := by
  have hsub : visited ⊆ waits.map Wait.thread := by
    intro thread hm
    obtain ⟨wait, hw⟩ := Option.isSome_iff_exists.1 (by simpa [next] using h.waiting thread hm)
    have hthread := List.find?_some hw
    simp only [Bool.and_eq_true, beq_iff_eq] at hthread
    exact List.mem_map.2 ⟨wait, List.mem_of_find?_eq_some hw, hthread.1⟩
  simpa using (List.subperm_of_subset h.nodup hsub).length_le

/-- A thread from which an edge leads on reaches what its owner reaches. -/
theorem reaches_iff_of_edge {next : ThreadId → Option ThreadId} {thread owner goal : ThreadId}
    (hedge : next thread = some owner) (hne : thread ≠ goal) :
    ReflTransGen (Edge next) thread goal ↔ ReflTransGen (Edge next) owner goal := by
  refine ⟨fun h => ?_, fun h => .head hedge h⟩
  rcases ReflTransGen.cases_head h with rfl | ⟨other, hother, hrest⟩
  · exact absurd rfl hne
  · cases hedge.symm.trans hother
    exact hrest

/-- Either the bounded walk has the answer, or it has visited as many threads as it may. -/
theorem leadsTo_spec {family : CacheFamily} {tracker : Tracker} {waits : List (Wait Key)}
    (hacyclic : Acyclic (next family tracker waits)) (goal : ThreadId) (bound : Nat)
    (thread : ThreadId) :
    (∃ visited, visited.length = bound ∧ Trail (next family tracker waits) thread visited) ∨
    (seek (next family tracker waits) goal thread =
        some (leadsTo family tracker waits goal bound thread) ∧
      (leadsTo family tracker waits goal bound thread = true ↔
        ReflTransGen (Edge (next family tracker waits)) thread goal)) := by
  induction bound generalizing thread with
  | zero => exact .inl ⟨[], rfl, .nil _ _⟩
  | succ bound ih =>
    rw [leadsTo_succ, seek_eq]
    by_cases hg : thread = goal
    · subst hg
      exact .inr ⟨by simp, by simpa using .refl⟩
    · rw [if_neg hg, if_neg hg]
      rcases hn : next family tracker waits thread with _ | owner
      · refine .inr ⟨rfl, iff_of_false Bool.false_ne_true fun h => ?_⟩
        rcases ReflTransGen.cases_head h with rfl | ⟨owner, he, -⟩
        · exact hg rfl
        · exact Option.some_ne_none owner (he.symm.trans hn)
      · rcases ih owner with ⟨visited, hl, htrail⟩ | ⟨hseek, hreach⟩
        · exact .inl ⟨thread :: visited, by simp [hl], htrail.cons hacyclic hn⟩
        · exact .inr ⟨hseek, by rw [reaches_iff_of_edge hn hg]; exact hreach⟩

/-- Either the walk ends at a thread that the tracker does not know to wait, or it goes on for any
number of steps. -/
theorem exists_end {next : ThreadId → Option ThreadId} (hacyclic : Acyclic next) (bound : Nat)
    (thread : ThreadId) :
    (∃ visited, visited.length = bound ∧ Trail next thread visited) ∨
    ∃ last, ReflTransGen (Edge next) thread last ∧ next last = none := by
  induction bound generalizing thread with
  | zero => exact .inl ⟨[], rfl, .nil _ _⟩
  | succ bound ih =>
    rcases hn : next thread with _ | owner
    · exact .inr ⟨thread, .refl, hn⟩
    · rcases ih owner with ⟨visited, hl, htrail⟩ | ⟨last, hreach, hlast⟩
      · exact .inl ⟨thread :: visited, by simp [hl], htrail.cons hacyclic hn⟩
      · exact .inr ⟨last, .head hn hreach, hlast⟩

section waitsFor

variable {family : CacheFamily} {tracker : Tracker} {monitor : Monitor Key Value}
  (hacyclic : Acyclic (next family tracker monitor.waits)) (thread owner : ThreadId)
include hacyclic

/-- The walk without a bound ends, and with the answer of the bounded one. -/
theorem seek_eq_waitsFor :
    seek (next family tracker monitor.waits) thread owner =
      some (monitor.waitsFor family tracker owner thread) := by
  rcases leadsTo_spec hacyclic thread (monitor.waits.length + 1) owner with ⟨_, hl, h⟩ | h
  · have := h.length_le
    omega
  · exact h.1

theorem waitsFor_iff_reaches :
    monitor.waitsFor family tracker owner thread = true ↔
      ReflTransGen (Edge (next family tracker monitor.waits)) owner thread := by
  rcases leadsTo_spec hacyclic thread (monitor.waits.length + 1) owner with ⟨_, hl, h⟩ | h
  · have := h.length_le
    omega
  · exact h.2

theorem exists_reached_end :
    ∃ last, ReflTransGen (Edge (next family tracker monitor.waits)) owner last ∧
      next family tracker monitor.waits last = none := by
  rcases exists_end hacyclic (monitor.waits.length + 1) owner with ⟨_, hl, h⟩ | h
  · have := h.length_le
    omega
  · exact h

end waitsFor

/-! ## Waits come and go -/

/-- The wait of a thread, if the tracker keeps account of it. -/
theorem waitOf?_eq_some_iff {family : CacheFamily} {tracker : Tracker} {waits : List (Wait Key)}
    (hn : (waits.map Wait.thread).Nodup) {thread : ThreadId} {wait : Wait Key} :
    waitOf? family tracker waits thread = some wait ↔
      wait ∈ waits ∧ wait.thread = thread ∧ family.tracker wait.slot.cache = tracker := by
  constructor
  · intro h
    have hp := List.find?_some h
    simp only [Bool.and_eq_true, beq_iff_eq] at hp
    exact ⟨List.mem_of_find?_eq_some h, hp⟩
  · rintro ⟨hm, ht, htracker⟩
    rcases hf : waitOf? family tracker waits thread with _ | other
    · have := List.find?_eq_none.1 hf wait hm
      simp [ht, htracker] at this
    · have hp := List.find?_some hf
      simp only [Bool.and_eq_true, beq_iff_eq] at hp
      rw [List.inj_on_of_nodup_map hn (List.mem_of_find?_eq_some hf) hm (hp.1.trans ht.symm)]

theorem next_eq_some_iff {family : CacheFamily} {tracker : Tracker} {waits : List (Wait Key)}
    (hn : (waits.map Wait.thread).Nodup) {thread owner : ThreadId} :
    next family tracker waits thread = some owner ↔
      ∃ wait ∈ waits, wait.thread = thread ∧ wait.owner = owner ∧
        family.tracker wait.slot.cache = tracker := by
  simp only [next, Option.map_eq_some_iff, waitOf?_eq_some_iff hn]
  exact ⟨fun ⟨wait, ⟨hm, ht, hc⟩, ho⟩ => ⟨wait, hm, ht, ho, hc⟩,
    fun ⟨wait, hm, ht, ho, hc⟩ => ⟨wait, ⟨hm, ht, hc⟩, ho⟩⟩

theorem Acyclic.mono {next after : ThreadId → Option ThreadId} (h : Acyclic next)
    (hsub : ∀ thread owner, after thread = some owner → next thread = some owner) :
    Acyclic after :=
  fun thread hc => h thread (TransGen.mono hsub _ _ hc)

/-- A path that may use one more edge either does without it or passes through it. -/
theorem TransGen.of_extra_edge {next after : ThreadId → Option ThreadId} {thread owner : ThreadId}
    (hafter : ∀ a b, after a = some b → next a = some b ∨ (a = thread ∧ b = owner))
    {a b : ThreadId} (h : TransGen (Edge after) a b) :
    TransGen (Edge next) a b ∨
      (ReflTransGen (Edge next) a thread ∧ ReflTransGen (Edge next) owner b) := by
  induction h with
  | single he =>
    rcases hafter _ _ he with he | ⟨rfl, rfl⟩
    · exact .inl (.single he)
    · exact .inr ⟨.refl, .refl⟩
  | tail _ he ih =>
    rcases hafter _ _ he with he | ⟨rfl, rfl⟩
    · exact ih.imp (·.tail he) fun ⟨h₁, h₂⟩ => ⟨h₁, h₂.tail he⟩
    · exact .inr ⟨ih.elim TransGen.to_reflTransGen And.left, .refl⟩

/-- One more wait makes no loop if its owner does not lead back to the thread that waits. -/
theorem Acyclic.extra_edge {next after : ThreadId → Option ThreadId} {thread owner : ThreadId}
    (h : Acyclic next)
    (hafter : ∀ a b, after a = some b → next a = some b ∨ (a = thread ∧ b = owner))
    (hback : ¬ ReflTransGen (Edge next) owner thread) : Acyclic after := by
  intro a hc
  rcases TransGen.of_extra_edge hafter hc with hold | ⟨hto, hfrom⟩
  · exact h a hold
  · exact hback (hfrom.trans hto)

/-! ## Runs -/

variable [DecidableEq Key]

/-- A consistent monitor none of whose trackers sees a loop. -/
structure LoopFree (family : CacheFamily) (monitor : Monitor Key Value) : Prop
    extends Consistent monitor where
  acyclic : ∀ tracker, Acyclic (next family tracker monitor.waits)

theorem LoopFree.initial (family : CacheFamily) :
    LoopFree family (initial : Monitor Key Value) where
  toConsistent := .initial
  acyclic tracker thread h := by
    obtain ⟨_, he, _⟩ := TransGen.head'_iff.1 h
    simp [Edge, next, waitOf?, Monitor.initial] at he

/-- Every step keeps a monitor free of loops. -/
theorem LoopFree.perform {family : CacheFamily} {monitor : Monitor Key Value}
    (h : monitor.LoopFree family) (step : Step Key Value) :
    (monitor.perform family step).1.LoopFree family := by
  refine ⟨h.toConsistent.perform family step, fun tracker => ?_⟩
  have hafter := (h.toConsistent.perform family step).waits_nodup
  rcases hp : monitor.perform family step with ⟨after, event⟩
  rw [hp] at hafter
  cases perform_effect hp with
  | stay _ _ _ hwaits =>
    rw [hwaits]
    exact h.acyclic tracker
  | @block thread owner slot _ _ _ hloop =>
    -- the wait is new in one tracker, which has looked for a way back
    by_cases ht : family.tracker slot.cache = tracker
    · refine @Acyclic.extra_edge _ _ thread owner (h.acyclic tracker) (fun a b he => ?_)
        fun hback => ?_
      · obtain ⟨wait, hm, rfl, rfl, hc⟩ := (next_eq_some_iff hafter).1 he
        rcases List.mem_cons.1 hm with rfl | hm
        · exact .inr ⟨rfl, rfl⟩
        · exact .inl ((next_eq_some_iff h.waits_nodup).2 ⟨wait, hm, rfl, rfl, hc⟩)
      · have := (waitsFor_iff_reaches (h.acyclic tracker) thread owner).2 hback
        rw [ht] at hloop
        exact Bool.false_ne_true (hloop.symm.trans this)
    · refine (h.acyclic tracker).mono fun a b he => ?_
      obtain ⟨wait, hm, rfl, rfl, hc⟩ := (next_eq_some_iff hafter).1 he
      rcases List.mem_cons.1 hm with rfl | hm
      · exact absurd hc ht
      · exact (next_eq_some_iff h.waits_nodup).2 ⟨wait, hm, rfl, rfl, hc⟩
  | enter _ _ _ _ hwaits =>
    rw [hwaits]
    exact h.acyclic tracker
  | leave _ _ _ _ hwaits =>
    refine (h.acyclic tracker).mono fun a b he => ?_
    obtain ⟨wait, hm, rfl, rfl, hc⟩ := (next_eq_some_iff hafter).1 he
    rw [hwaits, List.mem_filter] at hm
    exact (next_eq_some_iff h.waits_nodup).2 ⟨wait, hm.1, rfl, rfl, hc⟩

theorem LoopFree.execute {family : CacheFamily} {monitor : Monitor Key Value}
    (h : monitor.LoopFree family) (steps : List (Step Key Value)) :
    (monitor.execute family steps).LoopFree family :=
  execute_induction (fun _ h step _ => h.perform step) h

/-! ## One tracker for all caches -/

/-- The thread waits for a slot that `owner` constructs. -/
def WaitsOn (monitor : Monitor Key Value) (thread owner : ThreadId) : Prop :=
  ∃ wait ∈ monitor.waits, wait.thread = thread ∧
    monitor.slotState? wait.slot = some (.building owner)

theorem Consistent.waitsOn_iff {monitor : Monitor Key Value} (h : monitor.Consistent)
    {family : CacheFamily} {tracker : Tracker} (hshared : ∀ cache, family.tracker cache = tracker)
    {thread owner : ThreadId} :
    monitor.WaitsOn thread owner ↔ next family tracker monitor.waits thread = some owner := by
  rw [next_eq_some_iff h.waits_nodup]
  constructor
  · rintro ⟨wait, hm, ht, hs⟩
    have ho := (h.wait_building wait hm).symm.trans hs
    simp only [Option.some.injEq, SlotState.building.injEq] at ho
    exact ⟨wait, hm, ht, ho, hshared _⟩
  · rintro ⟨wait, hm, ht, rfl, -⟩
    exact ⟨wait, hm, ht, h.wait_building wait hm⟩

/-- A thread that the one tracker does not know to wait does not wait. -/
theorem Consistent.isBlocked_eq_false {monitor : Monitor Key Value} (h : monitor.Consistent)
    {family : CacheFamily} {tracker : Tracker} (hshared : ∀ cache, family.tracker cache = tracker)
    {thread : ThreadId} (hn : next family tracker monitor.waits thread = none) :
    monitor.isBlocked thread = false := by
  by_contra hb
  obtain ⟨wait, hm, ht⟩ := isBlocked_iff.1 (by simpa using hb)
  have := (next_eq_some_iff h.waits_nodup).2 ⟨wait, hm, ht, rfl, hshared _⟩
  exact Option.some_ne_none _ (this.symm.trans hn)

/-- Whoever is waited for is in a constructor. -/
theorem Consistent.constructions_ne_nil {monitor : Monitor Key Value} (h : monitor.Consistent)
    {thread owner : ThreadId} (hw : monitor.WaitsOn thread owner) :
    monitor.constructions owner ≠ [] := by
  obtain ⟨wait, -, -, hs⟩ := hw
  exact List.ne_nil_of_mem ((h.building_iff _ _).1 hs)

/-- The owners behind a waiting thread end at one that constructs and does not wait. -/
theorem LoopFree.exists_last {family : CacheFamily} {monitor : Monitor Key Value}
    (h : monitor.LoopFree family) {tracker : Tracker}
    (hshared : ∀ cache, family.tracker cache = tracker) {thread : ThreadId}
    (hb : monitor.isBlocked thread = true) :
    ∃ last, TransGen monitor.WaitsOn thread last ∧ monitor.isBlocked last = false ∧
      monitor.constructions last ≠ [] := by
  have hedge : monitor.WaitsOn = Edge (next family tracker monitor.waits) := by
    funext a b
    exact propext (h.waitsOn_iff hshared)
  obtain ⟨wait, hm, rfl⟩ := isBlocked_iff.1 hb
  have hfirst : monitor.WaitsOn wait.thread wait.owner := ⟨wait, hm, rfl, h.wait_building wait hm⟩
  obtain ⟨last, hreach, hend⟩ := exists_reached_end (h.acyclic tracker) wait.owner
  have hpath : TransGen monitor.WaitsOn wait.thread last := .head' hfirst (hedge ▸ hreach)
  refine ⟨last, hpath, h.isBlocked_eq_false hshared hend, ?_⟩
  obtain ⟨_, -, hlast⟩ := TransGen.tail'_iff.1 hpath
  exact h.constructions_ne_nil hlast

/-- Only threads that have taken a step are in a constructor. -/
theorem constructions_eq_nil_of_notMem {family : CacheFamily} {threads : List ThreadId}
    {steps : List (Step Key Value)} (hsteps : ∀ step ∈ steps, step.thread ∈ threads)
    {thread : ThreadId} (ht : thread ∉ threads) :
    ((initial : Monitor Key Value).execute family steps).constructions thread = [] := by
  refine execute_induction (P := fun monitor => monitor.constructions thread = [])
    (fun monitor h step hm => ?_) rfl
  have hne : thread ≠ step.thread := fun he => ht (he ▸ hsteps step hm)
  rcases hp : monitor.perform family step with ⟨after, event⟩
  cases perform_effect hp with
  | stay _ _ hcons => exact (congrFun hcons thread).trans h
  | block => exact h
  | enter _ _ _ hcons =>
    rw [hcons]
    exact (if_neg hne).trans h
  | leave _ _ _ hcons =>
    rw [hcons]
    exact (if_neg hne).trans h

/-- Threads whose caches share a tracker never deadlock. In every state that they reach, waits form
no loop, each waiting thread waits for one owner, the owners behind it end at a thread that does
not wait and is in a constructor, some thread does not wait, and the walk with which the tracker
looks for a loop ends, with the answer that `waitsFor` gives. -/
theorem shared_tracker_deadlock_free (family : CacheFamily) (tracker : Tracker)
    (hshared : ∀ cache, family.tracker cache = tracker) (threads : List ThreadId)
    (steps : List (Step Key Value)) (hsteps : ∀ step ∈ steps, step.thread ∈ threads) :
    let monitor := (initial : Monitor Key Value).execute family steps
    (∀ thread, ¬ TransGen monitor.WaitsOn thread thread) ∧
    (∀ thread, monitor.isBlocked thread = true →
      (∃! owner, monitor.WaitsOn thread owner) ∧
      ∃ last, TransGen monitor.WaitsOn thread last ∧ monitor.isBlocked last = false ∧
        monitor.constructions last ≠ []) ∧
    (threads ≠ [] → ∃ thread ∈ threads, monitor.isBlocked thread = false) ∧
    ∀ waiter owner, seek (next family tracker monitor.waits) waiter owner =
      some (monitor.waitsFor family tracker owner waiter) := by
  intro monitor
  have h : monitor.LoopFree family := (LoopFree.initial family).execute steps
  refine ⟨fun thread hc => ?_, fun thread hb => ⟨?_, h.exists_last hshared hb⟩, fun hne => ?_,
    fun waiter owner => seek_eq_waitsFor (h.acyclic tracker) waiter owner⟩
  · exact h.acyclic tracker thread (TransGen.mono (fun _ _ => (h.waitsOn_iff hshared).1) _ _ hc)
  · obtain ⟨wait, hm, rfl⟩ := isBlocked_iff.1 hb
    refine ⟨wait.owner, ⟨wait, hm, rfl, h.wait_building wait hm⟩, fun other ho => ?_⟩
    have hown := (h.waitsOn_iff hshared).1 ⟨wait, hm, rfl, h.wait_building wait hm⟩
    exact Option.some.inj (((h.waitsOn_iff hshared).1 ho).symm.trans hown)
  · obtain ⟨first, hfirst⟩ := List.exists_mem_of_ne_nil threads hne
    by_cases hb : monitor.isBlocked first = true
    · obtain ⟨last, -, hfree, hcons⟩ := h.exists_last hshared hb
      refine ⟨last, ?_, hfree⟩
      by_contra hm
      exact hcons (constructions_eq_nil_of_notMem hsteps hm)
    · exact ⟨first, hfirst, by simpa using hb⟩

/-- Two threads that construct a key each and then ask for each other's: the first one waits, the
second one is refused and stays free to return. -/
theorem crossing_requests_deadlock_free :
    let family : CacheFamily := ⟨fun _ => "test", fun _ => .shared 0⟩
    let steps : List (Step Nat Nat) :=
      [.get 0 ⟨0, 1⟩, .get 1 ⟨0, 2⟩, .get 0 ⟨0, 2⟩, .get 1 ⟨0, 1⟩]
    let monitor := (initial : Monitor Nat Nat).execute family steps
    (∀ step ∈ steps, step.thread ∈ [0, 1]) ∧ monitor.isBlocked 0 = true ∧
      ∃ last, TransGen monitor.WaitsOn 0 last ∧ monitor.isBlocked last = false ∧
        monitor.constructions last ≠ [] := by
  intro family steps monitor
  have hsteps : ∀ step ∈ steps, step.thread ∈ [0, 1] := by
    simp [steps, Step.thread]
  have hblocked : monitor.isBlocked 0 = true := by decide
  obtain ⟨-, hends, -⟩ :=
    shared_tracker_deadlock_free family (.shared 0) (fun _ => rfl) [0, 1] steps hsteps
  exact ⟨hsteps, hblocked, (hends 0 hblocked).2⟩

end NativeImage.Monitor
