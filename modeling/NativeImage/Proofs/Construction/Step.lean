import Mathlib.Data.List.Nodup
import NativeImage.Construction.Monitor

/-!
# Runs of a construction monitor

A run is a list of steps: some thread asks for a key, or the innermost constructor of some thread
returns. Every state that a run reaches is *consistent*: a slot is under construction by a thread
exactly if it is one of the thread's open constructions, and whoever waits does so for such a slot
of another thread.

## Main definitions

- `Monitor.Step`, `Monitor.execute` — steps, and the state after a list of them
- `Monitor.Event`, `Monitor.history` — what the steps of a run answered
- `Monitor.Effect` — what a step can do
- `Monitor.Consistent` — the invariant

## Main statements

- `Monitor.perform_effect` — the case split over a step
- `Monitor.Consistent.execute` — runs keep a monitor consistent
-/

namespace NativeImage.Monitor

variable {Key Value : Type} [DecidableEq Key]

/-- What a thread does next. -/
inductive Step (Key Value : Type)
  | get (thread : ThreadId) (slot : Slot Key)
  /-- The innermost constructor of the thread returns. -/
  | conclude (thread : ThreadId) (result : Except (ConstructionFailure Key) Value)

/-- A step together with what came of it. -/
inductive Event (Key Value : Type)
  | asked (thread : ThreadId) (slot : Slot Key) (outcome : GetOutcome Key Value)
  | returned (thread : ThreadId) (outcome : ConcludeOutcome Key Value)

/-- The thread that takes the step. -/
def Step.thread : Step Key Value → ThreadId
  | get thread _ | conclude thread _ => thread

/-- Take one step. -/
def perform (family : CacheFamily) (monitor : Monitor Key Value) :
    Step Key Value → Monitor Key Value × Event Key Value
  | .get thread slot =>
    let (after, outcome) := monitor.get family thread slot
    (after, .asked thread slot outcome)
  | .conclude thread result =>
    let (after, outcome) := monitor.conclude thread result
    (after, .returned thread outcome)

/-- The state after a list of steps. -/
def execute (family : CacheFamily) (monitor : Monitor Key Value) :
    List (Step Key Value) → Monitor Key Value
  | [] => monitor
  | step :: rest => execute family (monitor.perform family step).1 rest

/-- What a list of steps answers, in order. -/
def history (family : CacheFamily) (monitor : Monitor Key Value) :
    List (Step Key Value) → List (Event Key Value)
  | [] => []
  | step :: rest =>
    (monitor.perform family step).2 :: history family (monitor.perform family step).1 rest

/-- A property of single states that every step keeps is kept by every run. -/
theorem execute_induction {family : CacheFamily} {P : Monitor Key Value → Prop}
    {steps : List (Step Key Value)}
    (hstep : ∀ monitor, P monitor → ∀ step ∈ steps, P (monitor.perform family step).1)
    {monitor : Monitor Key Value} (h : P monitor) : P (monitor.execute family steps) := by
  induction steps generalizing monitor with
  | nil => exact h
  | cons step rest ih =>
    refine ih (fun monitor h later hl => hstep monitor h later (List.mem_cons_of_mem _ hl)) ?_
    exact hstep monitor h step List.mem_cons_self

/-! ## Recording failures -/

section recordFailure

variable (monitor : Monitor Key Value) (thread : ThreadId)
  (result : Except (ConstructionFailure Key) Value)

omit [DecidableEq Key] in
@[simp] theorem recordFailure_slots :
    (monitor.recordFailure thread result).slots = monitor.slots := by
  cases result <;> rfl

omit [DecidableEq Key] in
@[simp] theorem recordFailure_constructions :
    (monitor.recordFailure thread result).constructions = monitor.constructions := by
  cases result <;> rfl

omit [DecidableEq Key] in
@[simp] theorem recordFailure_waits :
    (monitor.recordFailure thread result).waits = monitor.waits := by
  cases result <;> rfl

omit [DecidableEq Key] in
/-- Telling threads of a failure changes nothing but what they were told. -/
theorem foldl_recordFailure (waiters : List ThreadId) :
    let after := waiters.foldl (fun monitor waiter => monitor.recordFailure waiter result) monitor
    after.slots = monitor.slots ∧ after.constructions = monitor.constructions ∧
      after.waits = monitor.waits := by
  induction waiters generalizing monitor with
  | nil => exact ⟨rfl, rfl, rfl⟩
  | cons waiter rest ih =>
    obtain ⟨hs, hc, hw⟩ := ih (monitor.recordFailure waiter result)
    exact ⟨by simpa using hs, by simpa using hc, by simpa using hw⟩

end recordFailure

/-! ## What a step can do -/

/-- The state of a slot whose construction has ended with this result. -/
def settledState : Except (ConstructionFailure Key) Value → Option (SlotState Value)
  | .ok value => some (.ready value)
  | .error _ => none

/-- The monitor in which the construction of a slot has ended with this result. -/
def settle (monitor : Monitor Key Value) (slot : Slot Key) :
    Except (ConstructionFailure Key) Value → Monitor Key Value
  | .ok value => monitor.setSlot slot (.ready value)
  | .error _ => monitor.clearSlot slot

@[simp] theorem slotState?_settle (monitor : Monitor Key Value) (slot other : Slot Key)
    (result : Except (ConstructionFailure Key) Value) :
    (monitor.settle slot result).slotState? other =
      if other = slot then settledState result else monitor.slotState? other := by
  cases result <;> simp [settle, settledState]

theorem slotState?_congr {monitor after : Monitor Key Value} (h : after.slots = monitor.slots)
    (slot : Slot Key) : after.slotState? slot = monitor.slotState? slot := by
  rw [slotState?, h, slotState?]

/-- What asking for a key can do. -/
theorem get_cases (family : CacheFamily) (monitor : Monitor Key Value) (thread : ThreadId)
    (slot : Slot Key) {after : Monitor Key Value} {outcome : GetOutcome Key Value}
    (h : monitor.get family thread slot = (after, outcome)) :
    (monitor.isBlocked thread = true ∧ after = monitor ∧ outcome = .busy) ∨
    (monitor.isBlocked thread = false ∧
      ((∃ value, monitor.slotState? slot = some (.ready value) ∧ after = monitor ∧
          outcome = .answered (.ok value)) ∨
        (∃ owner, monitor.slotState? slot = some (.building owner) ∧
          (owner = thread ∨
            monitor.waitsFor family (family.tracker slot.cache) owner thread = true) ∧
          after = monitor.recordFailure thread (.error (.cycle slot)) ∧
          outcome = .answered (.error (.cycle slot))) ∨
        (∃ owner, monitor.slotState? slot = some (.building owner) ∧ owner ≠ thread ∧
          monitor.waitsFor family (family.tracker slot.cache) owner thread = false ∧
          after = { monitor with waits := ⟨thread, slot, owner⟩ :: monitor.waits } ∧
          outcome = .blocked) ∨
        (monitor.slotState? slot = none ∧
          after.slots = (monitor.setSlot slot (.building thread)).slots ∧
          after.constructions = (fun other =>
            if other = thread then slot :: monitor.constructions thread
            else monitor.constructions other) ∧
          after.waits = monitor.waits ∧ outcome = .building))) := by
  unfold get at h
  split at h
  · next hb => exact .inl ⟨hb, by simpa [eq_comm] using h⟩
  · next hb =>
    refine .inr ⟨by simpa using hb, ?_⟩
    split at h
    · next value hs => exact .inl ⟨value, hs, by simpa [eq_comm] using h⟩
    · next owner hs =>
      split at h
      · next hc => exact .inr (.inl ⟨owner, hs, hc, by simpa [eq_comm] using h⟩)
      · next hc =>
        rw [not_or, Bool.not_eq_true] at hc
        exact .inr (.inr (.inl ⟨owner, hs, hc.1, hc.2, by simpa [eq_comm] using h⟩))
    · next hs =>
      simp only [Prod.mk.injEq] at h
      obtain ⟨rfl, rfl⟩ := h
      exact .inr (.inr (.inr ⟨hs, rfl, rfl, rfl, rfl⟩))

/-- What the return of a constructor can do. What threads are told last is left open. -/
theorem conclude_cases (monitor : Monitor Key Value) (thread : ThreadId)
    (result : Except (ConstructionFailure Key) Value) {after : Monitor Key Value}
    {outcome : ConcludeOutcome Key Value}
    (h : monitor.conclude thread result = (after, outcome)) :
    (monitor.isBlocked thread = true ∧ after = monitor ∧ outcome = .busy) ∨
    (monitor.isBlocked thread = false ∧
      ((monitor.constructions thread = [] ∧ after = monitor ∧ outcome = .idle) ∨
        (∃ slot outer, monitor.constructions thread = slot :: outer ∧
          after.slots = (monitor.settle slot result).slots ∧
          after.constructions = (fun other =>
            if other = thread then outer else monitor.constructions other) ∧
          after.waits = monitor.waits.filter (fun wait => wait.slot != slot) ∧
          outcome = .ended ⟨slot, result,
            (monitor.waitersOf slot).map (·, toldToWaiters slot result)⟩))) := by
  unfold conclude at h
  split at h
  · next hb => exact .inl ⟨hb, by simpa [eq_comm] using h⟩
  · next hb =>
    refine .inr ⟨by simpa using hb, ?_⟩
    split at h
    · next hc => exact .inl ⟨hc, by simpa [eq_comm] using h⟩
    · next slot outer hc =>
      simp only [Prod.mk.injEq] at h
      obtain ⟨rfl, rfl⟩ := h
      refine .inr ⟨slot, outer, hc, ?_, ?_, ?_, rfl⟩
      · rw [(foldl_recordFailure _ _ _).1, recordFailure_slots]
        cases result <;> rfl
      · rw [(foldl_recordFailure _ _ _).2.1, recordFailure_constructions]
      · rw [(foldl_recordFailure _ _ _).2.2, recordFailure_waits]

/-- A thread that does not wait ends its innermost construction. -/
theorem conclude_open {monitor : Monitor Key Value} {thread : ThreadId} {slot : Slot Key}
    {outer : List (Slot Key)} (hfree : monitor.isBlocked thread = false)
    (hopen : monitor.constructions thread = slot :: outer)
    (result : Except (ConstructionFailure Key) Value) :
    (monitor.conclude thread result).1.slots = (monitor.settle slot result).slots ∧
    (monitor.conclude thread result).1.constructions = (fun other =>
      if other = thread then outer else monitor.constructions other) ∧
    (monitor.conclude thread result).1.waits =
      monitor.waits.filter (fun wait => wait.slot != slot) ∧
    (monitor.conclude thread result).2 = .ended ⟨slot, result,
      (monitor.waitersOf slot).map (·, toldToWaiters slot result)⟩ := by
  obtain ⟨hblocked, -⟩ | ⟨-, ⟨hnil, -⟩ | ⟨ended, _, hcons, hafter⟩⟩ :=
    conclude_cases monitor thread result (Prod.eta _).symm
  · exact absurd (hfree.symm.trans hblocked) Bool.false_ne_true
  · exact absurd (hnil.symm.trans hopen) (List.cons_ne_nil _ _).symm
  · obtain ⟨rfl, rfl⟩ := List.cons.inj (hcons.symm.trans hopen)
    exact hafter

/-- An event of a step at which no construction and no wait begins or ends. -/
inductive Event.Quiet (monitor : Monitor Key Value) : Event Key Value → Prop
  | busy (thread : ThreadId) (slot : Slot Key) : Quiet monitor (.asked thread slot .busy)
  | ready {slot : Slot Key} {value : Value} (thread : ThreadId)
      (hs : monitor.slotState? slot = some (.ready value)) :
      Quiet monitor (.asked thread slot (.answered (.ok value)))
  | refused (thread : ThreadId) (slot : Slot Key) :
      Quiet monitor (.asked thread slot (.answered (.error (.cycle slot))))
  | waiting (thread : ThreadId) : Quiet monitor (.returned thread .busy)
  | idle (thread : ThreadId) : Quiet monitor (.returned thread .idle)

/-- What a step does to a monitor, and the event that comes of it. What threads are told is left
open. -/
inductive Effect (family : CacheFamily) (monitor : Monitor Key Value) :
    Step Key Value → Monitor Key Value → Event Key Value → Prop
  /-- The thread is answered at once, or cannot take the step. -/
  | stay {step : Step Key Value} {after : Monitor Key Value} {event : Event Key Value}
      (hquiet : event.Quiet monitor) (hslots : after.slots = monitor.slots)
      (hcons : after.constructions = monitor.constructions)
      (hwaits : after.waits = monitor.waits) : Effect family monitor step after event
  /-- The thread waits from now on. -/
  | block {thread owner : ThreadId} {slot : Slot Key} (hfree : monitor.isBlocked thread = false)
      (hs : monitor.slotState? slot = some (.building owner)) (hother : owner ≠ thread)
      (hloop : monitor.waitsFor family (family.tracker slot.cache) owner thread = false) :
      Effect family monitor (.get thread slot)
        { monitor with waits := ⟨thread, slot, owner⟩ :: monitor.waits }
        (.asked thread slot .blocked)
  /-- The thread enters the constructor. -/
  | enter {thread : ThreadId} {slot : Slot Key} {after : Monitor Key Value}
      (hfree : monitor.isBlocked thread = false) (hs : monitor.slotState? slot = none)
      (hslots : after.slots = (monitor.setSlot slot (.building thread)).slots)
      (hcons : after.constructions = fun other =>
        if other = thread then slot :: monitor.constructions thread
        else monitor.constructions other)
      (hwaits : after.waits = monitor.waits) :
      Effect family monitor (.get thread slot) after (.asked thread slot .building)
  /-- The innermost constructor of the thread ends. -/
  | leave {thread : ThreadId} {slot : Slot Key} {outer : List (Slot Key)}
      {result : Except (ConstructionFailure Key) Value} {after : Monitor Key Value}
      (hfree : monitor.isBlocked thread = false)
      (hopen : monitor.constructions thread = slot :: outer)
      (hslots : after.slots = (monitor.settle slot result).slots)
      (hcons : after.constructions = fun other =>
        if other = thread then outer else monitor.constructions other)
      (hwaits : after.waits = monitor.waits.filter fun wait => wait.slot != slot) :
      Effect family monitor (.conclude thread result) after (.returned thread (.ended
        ⟨slot, result, (monitor.waitersOf slot).map (·, toldToWaiters slot result)⟩))

/-- Every step has one of these effects. -/
theorem perform_effect {family : CacheFamily} {monitor : Monitor Key Value}
    {step : Step Key Value} {after : Monitor Key Value} {event : Event Key Value}
    (h : monitor.perform family step = (after, event)) :
    Effect family monitor step after event := by
  cases step with
  | get thread slot =>
    rcases hg : monitor.get family thread slot with ⟨next, outcome⟩
    rw [perform, hg, Prod.mk.injEq] at h
    obtain ⟨rfl, rfl⟩ := h
    obtain ⟨-, rfl, rfl⟩ | ⟨hfree, ⟨_, hs, rfl, rfl⟩ | ⟨_, -, -, rfl, rfl⟩ |
        ⟨_, hs, hother, hloop, rfl, rfl⟩ | ⟨hs, hslots, hcons, hwaits, rfl⟩⟩ :=
      get_cases family monitor thread slot hg
    · exact .stay (.busy thread slot) rfl rfl rfl
    · exact .stay (.ready thread hs) rfl rfl rfl
    · exact .stay (.refused thread slot) (recordFailure_slots ..)
        (recordFailure_constructions ..) (recordFailure_waits ..)
    · exact .block hfree hs hother hloop
    · exact .enter hfree hs hslots hcons hwaits
  | conclude thread result =>
    rcases hg : monitor.conclude thread result with ⟨next, outcome⟩
    rw [perform, hg, Prod.mk.injEq] at h
    obtain ⟨rfl, rfl⟩ := h
    obtain ⟨-, rfl, rfl⟩ | ⟨hfree, ⟨-, rfl, rfl⟩ |
        ⟨_, _, hopen, hslots, hcons, hwaits, rfl⟩⟩ := conclude_cases monitor thread result hg
    · exact .stay (.waiting thread) rfl rfl rfl
    · exact .stay (.idle thread) rfl rfl rfl
    · exact .leave hfree hopen hslots hcons hwaits

/-! ## Consistent states -/

/-- Slots, open constructions and waits agree with each other. -/
structure Consistent (monitor : Monitor Key Value) : Prop where
  slots_nodup : (monitor.slots.map Prod.fst).Nodup
  building_iff : ∀ slot thread,
    monitor.slotState? slot = some (.building thread) ↔ slot ∈ monitor.constructions thread
  constructions_nodup : ∀ thread, (monitor.constructions thread).Nodup
  waits_nodup : (monitor.waits.map Wait.thread).Nodup
  wait_building : ∀ wait ∈ monitor.waits,
    monitor.slotState? wait.slot = some (.building wait.owner)
  wait_owner_ne : ∀ wait ∈ monitor.waits, wait.owner ≠ wait.thread

omit [DecidableEq Key] in
theorem isBlocked_iff {monitor : Monitor Key Value} {thread : ThreadId} :
    monitor.isBlocked thread = true ↔ ∃ wait ∈ monitor.waits, wait.thread = thread := by
  simp [isBlocked]

theorem Consistent.initial : Consistent (initial : Monitor Key Value) where
  slots_nodup := .nil
  building_iff slot thread := by simp [Monitor.initial, slotState?]
  constructions_nodup _ := .nil
  waits_nodup := .nil
  wait_building _ h := by simp [Monitor.initial] at h
  wait_owner_ne _ h := by simp [Monitor.initial] at h

/-- Consistency does not depend on what threads were told. -/
theorem Consistent.congr {monitor after : Monitor Key Value} (h : monitor.Consistent)
    (hs : after.slots = monitor.slots) (hc : after.constructions = monitor.constructions)
    (hw : after.waits = monitor.waits) : after.Consistent where
  slots_nodup := hs ▸ h.slots_nodup
  building_iff slot thread := by rw [slotState?_congr hs, hc]; exact h.building_iff slot thread
  constructions_nodup thread := hc ▸ h.constructions_nodup thread
  waits_nodup := hw ▸ h.waits_nodup
  wait_building wait hm := by rw [slotState?_congr hs]; exact h.wait_building wait (hw ▸ hm)
  wait_owner_ne wait hm := h.wait_owner_ne wait (hw ▸ hm)

/-- A slot that is not in use stays away from the entries when it is taken out. -/
theorem nodup_keys_setSlot {monitor : Monitor Key Value}
    (h : (monitor.slots.map Prod.fst).Nodup) (slot : Slot Key) (state : SlotState Value) :
    ((monitor.setSlot slot state).slots.map Prod.fst).Nodup := by
  simp only [setSlot, List.map_cons, List.nodup_cons]
  refine ⟨by simp, ?_⟩
  exact h.sublist (List.filter_sublist.map _)

theorem nodup_keys_settle {monitor : Monitor Key Value}
    (h : (monitor.slots.map Prod.fst).Nodup) (slot : Slot Key)
    (result : Except (ConstructionFailure Key) Value) :
    ((monitor.settle slot result).slots.map Prod.fst).Nodup := by
  cases result with
  | ok value => exact nodup_keys_setSlot h slot _
  | error failure => exact h.sublist (List.filter_sublist.map _)

/-- Starting a construction keeps the monitor consistent. -/
theorem Consistent.enter {monitor after : Monitor Key Value} (h : monitor.Consistent)
    {thread : ThreadId} {slot : Slot Key} (hs : monitor.slotState? slot = none)
    (hslots : after.slots = (monitor.setSlot slot (.building thread)).slots)
    (hcons : after.constructions = fun other =>
      if other = thread then slot :: monitor.constructions thread
      else monitor.constructions other)
    (hwaits : after.waits = monitor.waits) : after.Consistent := by
  have hfresh : ∀ t, slot ∉ monitor.constructions t := fun t ht => by
    simp [(h.building_iff slot t).2 ht] at hs
  refine ⟨hslots ▸ nodup_keys_setSlot h.slots_nodup slot _, fun asked other => ?_,
    fun other => ?_, hwaits ▸ h.waits_nodup, fun wait hm => ?_,
    fun wait hm => h.wait_owner_ne wait (hwaits ▸ hm)⟩
  · rw [slotState?_congr hslots, slotState?_setSlot, hcons]
    by_cases he : asked = slot <;> by_cases ht : other = thread <;>
      simp [he, ht, hfresh, h.building_iff, @eq_comm _ thread]
  · rw [hcons]
    by_cases ht : other = thread
    · simpa [ht] using ⟨hfresh thread, h.constructions_nodup thread⟩
    · simpa [ht] using h.constructions_nodup other
  · rw [hwaits] at hm
    have hne : wait.slot ≠ slot := fun he => by
      simp [← he, h.wait_building wait hm] at hs
    rw [slotState?_congr hslots, slotState?_setSlot, if_neg hne]
    exact h.wait_building wait hm

/-- Starting to wait keeps the monitor consistent. -/
theorem Consistent.block {monitor : Monitor Key Value} (h : monitor.Consistent)
    {thread owner : ThreadId} {slot : Slot Key} (hb : monitor.isBlocked thread = false)
    (hs : monitor.slotState? slot = some (.building owner)) (ho : owner ≠ thread) :
    Consistent { monitor with waits := ⟨thread, slot, owner⟩ :: monitor.waits } where
  slots_nodup := h.slots_nodup
  building_iff := h.building_iff
  constructions_nodup := h.constructions_nodup
  waits_nodup := by
    rw [List.map_cons, List.nodup_cons]
    refine ⟨fun hm => ?_, h.waits_nodup⟩
    obtain ⟨wait, hw, ht⟩ := List.mem_map.1 hm
    exact Bool.false_ne_true (hb.symm.trans (isBlocked_iff.2 ⟨wait, hw, ht⟩))
  wait_building wait hm := by
    rcases List.mem_cons.1 hm with rfl | hm
    · exact hs
    · exact h.wait_building wait hm
  wait_owner_ne wait hm := by
    rcases List.mem_cons.1 hm with rfl | hm
    · exact ho
    · exact h.wait_owner_ne wait hm

/-- The end of a construction keeps the monitor consistent. -/
theorem Consistent.leave {monitor after : Monitor Key Value} (h : monitor.Consistent)
    {thread : ThreadId} {slot : Slot Key} {outer : List (Slot Key)}
    {result : Except (ConstructionFailure Key) Value}
    (hc : monitor.constructions thread = slot :: outer)
    (hslots : after.slots = (monitor.settle slot result).slots)
    (hcons : after.constructions = fun other =>
      if other = thread then outer else monitor.constructions other)
    (hwaits : after.waits = monitor.waits.filter fun wait => wait.slot != slot) :
    after.Consistent := by
  have hn : slot ∉ outer ∧ outer.Nodup := by
    simpa [hc] using h.constructions_nodup thread
  -- the construction belongs to the thread that ends it and to no other
  have hown : ∀ t, slot ∈ monitor.constructions t ↔ t = thread := fun t => by
    have hb := (h.building_iff slot thread).2 (hc ▸ List.mem_cons_self)
    rw [← h.building_iff, hb]
    simp [eq_comm]
  refine ⟨hslots ▸ nodup_keys_settle h.slots_nodup slot result, fun asked other => ?_,
    fun other => ?_, hwaits ▸ h.waits_nodup.sublist (List.filter_sublist.map _),
    fun wait hm => ?_, fun wait hm => ?_⟩
  · rw [slotState?_congr hslots, slotState?_settle, hcons]
    by_cases he : asked = slot
    · subst he
      by_cases ht : other = thread <;> cases result <;> simp [settledState, ht, hn.1, hown]
    · by_cases ht : other = thread <;> simp [he, ht, h.building_iff, hc]
  · rw [hcons]
    by_cases ht : other = thread
    · simpa [ht] using hn.2
    · simpa [ht] using h.constructions_nodup other
  · rw [hwaits, List.mem_filter, bne_iff_ne] at hm
    rw [slotState?_congr hslots, slotState?_settle, if_neg hm.2]
    exact h.wait_building wait hm.1
  · rw [hwaits, List.mem_filter] at hm
    exact h.wait_owner_ne wait hm.1

/-- Every step keeps a monitor consistent. -/
theorem Consistent.perform {monitor : Monitor Key Value} (h : monitor.Consistent)
    (family : CacheFamily) (step : Step Key Value) :
    (monitor.perform family step).1.Consistent := by
  rcases hp : monitor.perform family step with ⟨after, event⟩
  cases perform_effect hp with
  | stay _ hslots hcons hwaits => exact h.congr hslots hcons hwaits
  | block hfree hs hother => exact h.block hfree hs hother
  | enter _ hs hslots hcons hwaits => exact h.enter hs hslots hcons hwaits
  | leave _ hopen hslots hcons hwaits => exact h.leave hopen hslots hcons hwaits

/-- Runs keep a monitor consistent. -/
theorem Consistent.execute {monitor : Monitor Key Value} (h : monitor.Consistent)
    (family : CacheFamily) (steps : List (Step Key Value)) :
    (monitor.execute family steps).Consistent :=
  execute_induction (fun _ h step _ => h.perform family step) h

end NativeImage.Monitor
