import NativeImage.Proofs.Construction.Once

/-!
# Constructions in layers

If every slot has a level, and constructors ask only for slots of lower level than their own, then
no wait can close a loop: whoever waits does so for a slot below all constructions that it has open,
so along a chain of waits the levels fall. A constructor that gives up only when it was told of a
failure then never does, because there is no first failure to be told of.

## Main definitions

- `Monitor.Follows` — runs whose constructors ask only for what they may ask for
- `Monitor.Ordered` — the invariant

## Main statements

- `Monitor.Ordered.perform` — a step
- `Monitor.Follows.answers_ok` — a run answers with values only
-/

namespace NativeImage.Monitor

variable {Key Value : Type} [DecidableEq Key]

/-- In the constructor of a slot the thread asks only for what this constructor may ask for, and a
constructor gives up only with a failure that its thread was told of. -/
def Step.Follows (mayAsk : Slot Key → Slot Key → Prop) (monitor : Monitor Key Value) :
    Step Key Value → Prop
  | .get thread slot => ∀ inner ∈ (monitor.constructions thread).head?, mayAsk inner slot
  | .conclude _ (.ok _) => True
  | .conclude thread (.error failure) => monitor.lastFailure thread = some failure

instance (mayAsk : Slot Key → Slot Key → Prop) [DecidableRel mayAsk]
    (monitor : Monitor Key Value) :
    (step : Step Key Value) → Decidable (step.Follows mayAsk monitor)
  | .get thread slot =>
    inferInstanceAs (Decidable (∀ inner ∈ (monitor.constructions thread).head?,
      mayAsk inner slot))
  | .conclude _ (.ok _) => .isTrue trivial
  | .conclude thread (.error failure) =>
    inferInstanceAs (Decidable (monitor.lastFailure thread = some failure))

/-- All steps of a run do. -/
def Follows (mayAsk : Slot Key → Slot Key → Prop) (family : CacheFamily)
    (monitor : Monitor Key Value) : List (Step Key Value) → Prop
  | [] => True
  | step :: rest =>
    step.Follows mayAsk monitor ∧ Follows mayAsk family (monitor.perform family step).1 rest

instance Follows.decidable (mayAsk : Slot Key → Slot Key → Prop) [DecidableRel mayAsk]
    (family : CacheFamily) : (monitor : Monitor Key Value) → (steps : List (Step Key Value)) →
      Decidable (Follows mayAsk family monitor steps)
  | _, [] => .isTrue trivial
  | monitor, step :: rest =>
    have := Follows.decidable mayAsk family (monitor.perform family step).1 rest
    inferInstanceAs (Decidable (step.Follows mayAsk monitor ∧
      Follows mayAsk family (monitor.perform family step).1 rest))

/-- Levels grow from inner to outer constructions, whoever waits does so for a slot below all of its
constructions, and nobody was told of a failure. -/
structure Ordered (level : Slot Key → Nat) (monitor : Monitor Key Value) : Prop
    extends Consistent monitor where
  inward : ∀ thread, (monitor.constructions thread).Pairwise (level · < level ·)
  wait_lt : ∀ wait ∈ monitor.waits, ∀ outer ∈ monitor.constructions wait.thread,
    level wait.slot < level outer
  untold : ∀ thread, monitor.lastFailure thread = none

/-! ## What threads are told -/

/-- Who asks for a slot and is given no failure is told of none. -/
theorem lastFailure_get {family : CacheFamily} {monitor : Monitor Key Value} {thread : ThreadId}
    {slot : Slot Key}
    (h : ∀ failure, (monitor.get family thread slot).2 ≠ .answered (.error failure)) :
    (monitor.get family thread slot).1.lastFailure = monitor.lastFailure := by
  unfold get at h ⊢
  split
  · rfl
  · next hb =>
    rw [if_neg hb] at h
    split
    · rfl
    · next hs =>
      rw [hs] at h
      dsimp only at h
      split
      · next hc =>
        rw [if_pos hc] at h
        exact absurd rfl (h _)
      · rfl
    · rfl

/-- A constructor that returns a value tells nobody of a failure. -/
theorem lastFailure_conclude_ok (monitor : Monitor Key Value) (thread : ThreadId) (value : Value) :
    (monitor.conclude thread (.ok value)).1.lastFailure = monitor.lastFailure := by
  unfold conclude
  split
  · rfl
  · split
    · rfl
    · dsimp only [toldToWaiters, recordFailure]
      rw [List.foldl_fixed]
      rfl

/-! ## What a step keeps -/

section Ordered

variable {level : Slot Key → Nat} {mayAsk : Slot Key → Slot Key → Prop} {family : CacheFamily}
  {monitor : Monitor Key Value} {thread : ThreadId} {slot : Slot Key}

theorem Ordered.initial (level : Slot Key → Nat) :
    Ordered level (initial : Monitor Key Value) where
  toConsistent := .initial
  inward _ := .nil
  wait_lt _ h := by cases h
  untold _ := rfl

/-- What a thread may ask for is below all of its constructions. -/
theorem Ordered.lt_of_head (h : monitor.Ordered level)
    (hslot : ∀ inner ∈ (monitor.constructions thread).head?, level slot < level inner) :
    ∀ outer ∈ monitor.constructions thread, level slot < level outer := by
  have hinward := h.inward thread
  cases hc : monitor.constructions thread with
  | nil => exact fun outer ho => absurd ho List.not_mem_nil
  | cons inner rest =>
    rw [hc] at hslot hinward
    have hinner := hslot inner rfl
    refine List.forall_mem_cons.2 ⟨hinner, fun outer ho => Nat.lt_trans hinner ?_⟩
    exact (List.pairwise_cons.1 hinward).1 outer ho

/-- The levels fall along a chain of waits. -/
theorem Ordered.exists_lower (h : monitor.Ordered level) {tracker : Tracker} {goal : ThreadId}
    {bound : Nat} (hl : leadsTo family tracker monitor.waits goal bound thread = true)
    (hs : slot ∈ monitor.constructions thread) :
    ∃ lower ∈ monitor.constructions goal, level lower ≤ level slot := by
  -- from a construction of a waiting thread on to the one that it waits for, which is below
  induction bound generalizing thread slot with
  | zero => cases hl
  | succ bound ih =>
    rw [leadsTo] at hl
    split at hl
    · next hgoal => exact ⟨slot, hgoal ▸ hs, Nat.le_refl _⟩
    · cases hw : waitOf? family tracker monitor.waits thread with
      | none =>
        rw [hw] at hl
        cases hl
      | some wait =>
        rw [hw] at hl
        have hm := List.mem_of_find?_eq_some hw
        have hthread : wait.thread = thread := by
          have hp := List.find?_some hw
          rw [Bool.and_eq_true] at hp
          exact beq_iff_eq.1 hp.1
        have howned := (h.building_iff _ _).1 (h.wait_building wait hm)
        obtain ⟨lower, hlower, hle⟩ := ih hl howned
        have hlt := h.wait_lt wait hm slot (hthread ▸ hs)
        exact ⟨lower, hlower, Nat.le_trans hle (Nat.le_of_lt hlt)⟩

/-- Who asks for a slot below its innermost construction is not refused. -/
theorem Ordered.get_ne_error (h : monitor.Ordered level) (family : CacheFamily)
    (hslot : ∀ inner ∈ (monitor.constructions thread).head?, level slot < level inner)
    (failure : ConstructionFailure Key) :
    (monitor.get family thread slot).2 ≠ .answered (.error failure) := by
  intro hanswer
  rcases hg : monitor.get family thread slot with ⟨after, outcome⟩
  rw [hg] at hanswer
  cases hanswer
  obtain ⟨-, -, ho⟩ | ⟨-, ⟨_, -, -, ho⟩ | ⟨owner, hs, hloop, -, -⟩ | ⟨_, -, -, -, -, ho⟩ |
      ⟨-, -, -, -, ho⟩⟩ := get_cases family monitor thread slot hg
  · cases ho
  · cases ho
  · have hbelow := h.lt_of_head hslot
    have howned := (h.building_iff slot owner).1 hs
    obtain rfl | hloop := hloop
    · exact absurd (hbelow slot howned) (Nat.lt_irrefl _)
    · -- the chain leads back to a construction of the thread, which is above the slot
      obtain ⟨lower, hlower, hle⟩ := h.exists_lower hloop howned
      exact absurd (hbelow lower hlower) (Nat.not_lt.2 hle)
  · cases ho
  · cases ho

/-- It leaves the levels in order. -/
theorem Ordered.get (h : monitor.Ordered level) (family : CacheFamily)
    (hslot : ∀ inner ∈ (monitor.constructions thread).head?, level slot < level inner) :
    (monitor.get family thread slot).1.Ordered level := by
  have hbelow := h.lt_of_head hslot
  have huntold := lastFailure_get (h.get_ne_error family hslot)
  have hconsistent := h.toConsistent.perform family (.get thread slot)
  rcases hg : monitor.get family thread slot with ⟨after, outcome⟩
  simp only [Monitor.perform, hg] at hconsistent
  rw [hg] at huntold
  have huntold (other : ThreadId) : after.lastFailure other = none := by
    rw [huntold, h.untold]
  obtain ⟨-, rfl, -⟩ | ⟨hb, ⟨_, -, rfl, -⟩ | ⟨owner, -, -, -, ho⟩ | ⟨_, -, -, -, rfl, -⟩ |
      ⟨-, -, hcons, hwaits, -⟩⟩ := get_cases family monitor thread slot hg
  · exact h
  · exact h
  · exact absurd (by rw [hg, ho]) (h.get_ne_error family hslot (.cycle slot))
  · refine ⟨hconsistent, h.inward, List.forall_mem_cons.2 ⟨hbelow, h.wait_lt⟩, huntold⟩
  · refine ⟨hconsistent, fun other => ?_, fun wait hm outer ho => ?_, huntold⟩
    · rw [hcons]
      by_cases ht : other = thread
      · subst ht
        simpa using ⟨hbelow, h.inward other⟩
      · simpa [ht] using h.inward other
    · rw [hwaits] at hm
      have hne : wait.thread ≠ thread := fun he =>
        Bool.false_ne_true (hb.symm.trans (isBlocked_iff.2 ⟨wait, hm, he⟩))
      rw [hcons] at ho
      exact h.wait_lt wait hm outer (by simpa [hne] using ho)

/-- A constructor that returns a value leaves the levels in order. -/
theorem Ordered.conclude_ok (h : monitor.Ordered level) (thread : ThreadId) (value : Value) :
    (monitor.conclude thread (.ok value)).1.Ordered level := by
  have huntold := lastFailure_conclude_ok monitor thread value
  rcases hg : monitor.conclude thread (.ok value) with ⟨after, outcome⟩
  rw [hg] at huntold
  have huntold (other : ThreadId) : after.lastFailure other = none := by
    rw [huntold, h.untold]
  obtain ⟨-, rfl, -⟩ | ⟨-, ⟨-, rfl, -⟩ | ⟨inner, rest, hc, hslots, hcons, hwaits, -⟩⟩ :=
    conclude_cases monitor thread (.ok value) hg
  · exact h
  · exact h
  · have hsub (other : ThreadId) :
        (after.constructions other).Sublist (monitor.constructions other) := by
      rw [hcons]
      by_cases ht : other = thread
      · subst ht
        simp [hc]
      · simp [ht]
    refine ⟨h.toConsistent.leave hc hslots hcons hwaits,
      fun other => (h.inward other).sublist (hsub other), fun wait hm outer ho => ?_, huntold⟩
    rw [hwaits] at hm
    exact h.wait_lt wait (List.mem_of_mem_filter hm) outer ((hsub _).subset ho)

/-- If constructors may ask only for what is below them, a step leaves the levels in order and
answers with values only. -/
theorem Ordered.perform (h : monitor.Ordered level) (family : CacheFamily)
    (hlevel : ∀ inner slot, mayAsk inner slot → level slot < level inner)
    {step : Step Key Value} (hstep : step.Follows mayAsk monitor) :
    (monitor.perform family step).1.Ordered level ∧
      ∀ answer ∈ (monitor.perform family step).2.answers, ∃ value, answer.2 = .ok value := by
  cases step with
  | get thread slot =>
    have hslot (inner : Slot Key) (hi : inner ∈ (monitor.constructions thread).head?) :
        level slot < level inner := hlevel inner slot (hstep inner hi)
    refine ⟨h.get family hslot, fun answer ha => ?_⟩
    have hne := h.get_ne_error family hslot
    simp only [Monitor.perform] at ha
    generalize (monitor.get family thread slot).2 = outcome at ha hne
    cases outcome with
    | answered result =>
      rw [List.mem_singleton.1 ha]
      cases result with
      | ok value => exact ⟨value, rfl⟩
      | error failure => exact absurd rfl (hne failure)
    | _ => cases ha
  | conclude thread result =>
    cases result with
    | error failure =>
      -- nobody was told of a failure that could be passed on
      have htold : monitor.lastFailure thread = some failure := hstep
      cases htold.symm.trans (h.untold thread)
    | ok value =>
      refine ⟨h.conclude_ok thread value, fun answer ha => ?_⟩
      rcases hg : monitor.conclude thread (.ok value) with ⟨after, outcome⟩
      simp only [Monitor.perform, hg] at ha
      obtain ⟨-, -, rfl⟩ | ⟨-, ⟨-, -, rfl⟩ | ⟨inner, rest, -, -, -, -, rfl⟩⟩ :=
        conclude_cases monitor thread (.ok value) hg
      · cases ha
      · cases ha
      · obtain rfl | ha := List.mem_cons.1 ha
        · exact ⟨value, rfl⟩
        · obtain ⟨told, htold, rfl⟩ := List.mem_map.1 ha
          obtain ⟨waiter, -, rfl⟩ := List.mem_map.1 htold
          exact ⟨value, rfl⟩

/-- If constructors may ask only for what is below them, a run answers with values only. -/
theorem Follows.answers_ok {steps : List (Step Key Value)}
    (hsteps : Follows mayAsk family monitor steps)
    (hlevel : ∀ inner slot, mayAsk inner slot → level slot < level inner)
    (h : monitor.Ordered level) :
    ∀ answer ∈ (monitor.history family steps).flatMap Event.answers,
      ∃ value, answer.2 = .ok value := by
  induction steps generalizing monitor with
  | nil => exact fun answer ha => absurd ha List.not_mem_nil
  | cons step rest ih =>
    obtain ⟨hafter, hanswers⟩ := h.perform family hlevel hsteps.1
    rw [history, List.flatMap_cons]
    exact List.forall_mem_append.2 ⟨hanswers, ih hsteps.2 hafter⟩

end Ordered

/-- Two threads construct a key each and ask for the same one below: the second waits for it. -/
example : Follows (fun inner slot => slot.key < inner.key) ⟨fun _ => "test", fun _ => .shared 0⟩
    (initial : Monitor Nat Nat)
    [.get 0 ⟨0, 1⟩, .get 1 ⟨0, 2⟩, .get 0 ⟨0, 0⟩, .get 1 ⟨0, 0⟩, .conclude 0 (.ok 7),
      .conclude 0 (.ok 8), .conclude 1 (.ok 9)] := by
  decide

end NativeImage.Monitor
