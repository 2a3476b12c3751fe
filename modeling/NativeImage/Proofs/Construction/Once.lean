import NativeImage.Proofs.Construction.Step

/-!
# Every key is constructed once

However the steps of the threads interleave, a key has at most one open constructor, and once a
constructor of it has succeeded, its value is the only one that anybody ever gets.

## Main definitions

- `Monitor.Event.built?`, `Monitor.Event.entered?`, `Monitor.Event.answers` — the constructions
  that have succeeded, the constructors that were entered, and the answers that were given

## Main statements

- `Monitor.Consistent.ready_execute` — what is finished is what was built
- `Monitor.Consistent.value_execute` — a value stays for ever
- `Monitor.constructed_once` — one construction for each key, and one value for everybody
-/

namespace NativeImage.Monitor

variable {Key Value : Type} [DecidableEq Key]

namespace Event

/-- The slot whose constructor has returned a value, with the value. -/
def built? : Event Key Value → Option (Slot Key × Value)
  | .returned _ (.ended ⟨slot, .ok value, _⟩) => some (slot, value)
  | _ => none

/-- The slot whose constructor was entered. -/
def entered? : Event Key Value → Option (Slot Key)
  | .asked _ slot .building => some slot
  | _ => none

/-- What asking for slots has returned: at once, from a constructor, or after a wait. -/
def answers : Event Key Value → List (Slot Key × Except (ConstructionFailure Key) Value)
  | .asked _ slot (.answered result) => [(slot, result)]
  | .returned _ (.ended ending) =>
    (ending.slot, ending.result) :: ending.woken.map fun (_, told) => (ending.slot, told)
  | _ => []

section Quiet

variable {monitor : Monitor Key Value} {event : Event Key Value}

theorem Quiet.built?_eq (h : event.Quiet monitor) : event.built? = none := by
  cases h <;> rfl

theorem Quiet.entered?_eq (h : event.Quiet monitor) : event.entered? = none := by
  cases h <;> rfl

/-- The answer was there before. -/
theorem Quiet.ready_of_answer (h : event.Quiet monitor) {slot : Slot Key} {value : Value}
    (ha : (slot, .ok value) ∈ event.answers) : monitor.slotState? slot = some (.ready value) := by
  cases h with
  | ready _ hs =>
    cases List.mem_singleton.1 ha
    exact hs
  | refused => cases List.mem_singleton.1 ha
  | busy | waiting | idle => cases ha

end Quiet

end Event

/-- The entries of a cache. -/
def ofCache (cache : Nat) (entries : List (Slot Key × Value)) : List (Key × Value) :=
  entries.filterMap fun (slot, value) => if slot.cache = cache then some (slot.key, value) else none

/-! ## Finished entries -/

/-- The finished entries of all caches. -/
def ready (monitor : Monitor Key Value) : List (Slot Key × Value) :=
  monitor.slots.filterMap fun
    | (slot, .ready value) => some (slot, value)
    | (_, .building _) => none

omit [DecidableEq Key] in
theorem ready_congr {monitor after : Monitor Key Value} (h : after.slots = monitor.slots) :
    after.ready = monitor.ready := by
  rw [ready, h, ready]

omit [DecidableEq Key] in
theorem finished_eq (monitor : Monitor Key Value) (cache : Nat) :
    monitor.finished cache = ofCache cache monitor.ready := by
  rw [finished, ofCache, ready, List.filterMap_filterMap]
  congr 1
  funext ⟨slot, state⟩
  cases state <;> rfl

/-- With different keys, a list of pairs holds what looking up in it gives. -/
theorem mem_iff_lookup_eq_some {α β : Type} [DecidableEq α] {entries : List (α × β)}
    (h : (entries.map Prod.fst).Nodup) {key : α} {value : β} :
    (key, value) ∈ entries ↔ entries.lookup key = some value := by
  induction entries with
  | nil => simp
  | cons entry rest ih =>
    obtain ⟨name, first⟩ := entry
    rw [List.map_cons, List.nodup_cons] at h
    rw [List.mem_cons, List.lookup_cons, ih h.2]
    by_cases hk : key = name
    · subst hk
      have hout : rest.lookup key ≠ some value := fun hl =>
        h.1 (List.mem_map.2 ⟨(key, value), (ih h.2).2 hl, rfl⟩)
      simp [hout, eq_comm]
    · have hd : (key == name) = false := beq_false_of_ne hk
      simp [hk, hd]

theorem Consistent.mem_slots_iff {monitor : Monitor Key Value} (h : monitor.Consistent)
    {slot : Slot Key} {state : SlotState Value} :
    (slot, state) ∈ monitor.slots ↔ monitor.slotState? slot = some state :=
  mem_iff_lookup_eq_some h.slots_nodup

theorem Consistent.mem_ready_iff {monitor : Monitor Key Value} (h : monitor.Consistent)
    {slot : Slot Key} {value : Value} :
    (slot, value) ∈ monitor.ready ↔ monitor.slotState? slot = some (.ready value) := by
  rw [← h.mem_slots_iff, ready, List.mem_filterMap]
  constructor
  · rintro ⟨⟨other, state⟩, hm, he⟩
    cases state with
    | building owner => simp at he
    | ready known =>
      obtain ⟨rfl, rfl⟩ := Prod.mk.inj (Option.some.inj he)
      exact hm
  · exact fun hm => ⟨_, hm, rfl⟩

omit [DecidableEq Key] in
theorem mem_ofCache {entries : List (Slot Key × Value)} {slot : Slot Key} {value : Value} :
    (slot.key, value) ∈ ofCache slot.cache entries ↔ (slot, value) ∈ entries := by
  simp only [ofCache, List.mem_filterMap]
  constructor
  · rintro ⟨⟨⟨cache, key⟩, known⟩, hm, he⟩
    split at he
    · next hc =>
      obtain ⟨rfl, rfl⟩ := Prod.mk.inj (Option.some.inj he)
      subst hc
      exact hm
    · simp at he
  · exact fun hm => ⟨_, hm, if_pos rfl⟩

theorem peek?_eq_some_iff {monitor : Monitor Key Value} {slot : Slot Key} {value : Value} :
    monitor.peek? slot = some value ↔ monitor.slotState? slot = some (.ready value) := by
  rw [peek?]
  rcases monitor.slotState? slot with _ | ⟨owner⟩ | ⟨known⟩ <;> simp

/-- What a cache has finished is what looking at its keys shows. -/
theorem Consistent.mem_finished_iff {monitor : Monitor Key Value} (h : monitor.Consistent)
    {slot : Slot Key} {value : Value} :
    (slot.key, value) ∈ monitor.finished slot.cache ↔ monitor.peek? slot = some value := by
  rw [finished_eq, mem_ofCache, h.mem_ready_iff, peek?_eq_some_iff]

/-- A cache finishes a key at most once. -/
theorem Consistent.nodup_finished {monitor : Monitor Key Value} (h : monitor.Consistent)
    (cache : Nat) : ((monitor.finished cache).map Prod.fst).Nodup := by
  have hslots := h.slots_nodup
  rw [List.Nodup, List.pairwise_map] at hslots
  rw [List.Nodup, List.pairwise_map, finished]
  refine hslots.filterMap _ fun ⟨slot, state⟩ ⟨other, later⟩ hne found hf known hk he => ?_
  cases state with
  | building owner => simp at hf
  | ready value =>
    cases later with
    | building owner => simp at hk
    | ready later =>
      simp only [Option.ite_none_right_eq_some, Option.some.injEq] at hf hk
      obtain ⟨rfl, rfl⟩ := hf
      obtain ⟨hc, rfl⟩ := hk
      cases slot
      cases other
      simp_all

/-- Taking out a slot without a value takes out no finished entry. -/
theorem ready_clearSlot {monitor : Monitor Key Value} (h : monitor.Consistent) {slot : Slot Key}
    (hs : ∀ value, monitor.slotState? slot ≠ some (.ready value)) :
    (monitor.clearSlot slot).ready = monitor.ready := by
  have hout : ∀ value, (slot, SlotState.ready value) ∉ monitor.slots := fun value hm =>
    hs value (h.mem_slots_iff.1 hm)
  rw [ready, ready, clearSlot, List.filterMap_filter]
  refine List.filterMap_congr fun ⟨other, state⟩ hm => ?_
  cases state with
  | building owner => simp
  | ready value =>
    have hne : other ≠ slot := fun he => hout value (he ▸ hm)
    simp [hne]

theorem ready_setSlot {monitor : Monitor Key Value} (h : monitor.Consistent) {slot : Slot Key}
    (hs : ∀ value, monitor.slotState? slot ≠ some (.ready value)) (state : SlotState Value) :
    (monitor.setSlot slot state).ready =
      (match state with
        | .ready value => [(slot, value)]
        | .building _ => []) ++ monitor.ready := by
  rw [← ready_clearSlot h hs]
  cases state <;> rfl

/-! ## Steps -/

/-- A step finishes what its constructor has built, and nothing else. -/
theorem Consistent.ready_perform {monitor : Monitor Key Value} (h : monitor.Consistent)
    (family : CacheFamily) (step : Step Key Value) :
    (monitor.perform family step).1.ready =
      (monitor.perform family step).2.built?.toList ++ monitor.ready := by
  rcases hp : monitor.perform family step with ⟨after, event⟩
  cases perform_effect hp with
  | stay hquiet hslots =>
    rw [ready_congr hslots, hquiet.built?_eq]
    rfl
  | block => rfl
  | enter _ hs hslots =>
    exact (ready_congr hslots).trans (ready_setSlot h (by simp [hs]) _)
  | @leave thread slot _ result _ _ hopen hslots =>
    have hb : monitor.slotState? slot = some (.building thread) :=
      (h.building_iff slot thread).2 (hopen ▸ List.mem_cons_self)
    rw [ready_congr hslots]
    cases result with
    | ok value => exact ready_setSlot h (by simp [hb]) _
    | error failure => exact ready_clearSlot h (by simp [hb])

/-- A step keeps every value, and does not enter a constructor for it. -/
theorem Consistent.keeps_value {monitor : Monitor Key Value} (h : monitor.Consistent)
    (family : CacheFamily) (step : Step Key Value) {slot : Slot Key} {value : Value}
    (hs : monitor.slotState? slot = some (.ready value)) :
    (monitor.perform family step).1.slotState? slot = some (.ready value) ∧
      (monitor.perform family step).2.entered? ≠ some slot := by
  rcases hp : monitor.perform family step with ⟨after, event⟩
  cases perform_effect hp with
  | stay hquiet hslots =>
    exact ⟨(slotState?_congr hslots slot).trans hs, by simp [hquiet.entered?_eq]⟩
  | block => exact ⟨hs, nofun⟩
  | @enter thread asked _ _ hnone hslots =>
    have hne : slot ≠ asked := fun he => by simp [← he, hs] at hnone
    rw [slotState?_congr hslots, slotState?_setSlot, if_neg hne]
    exact ⟨hs, by simpa [Event.entered?] using hne.symm⟩
  | @leave thread ended _ _ _ _ hopen hslots =>
    have hb : monitor.slotState? ended = some (.building thread) :=
      (h.building_iff ended thread).2 (hopen ▸ List.mem_cons_self)
    have hne : slot ≠ ended := fun he => by simp [← he, hs] at hb
    rw [slotState?_congr hslots, slotState?_settle, if_neg hne]
    exact ⟨hs, by simp [Event.entered?]⟩

/-- Whoever is given a value is given the one that the slot has from then on. -/
theorem answer_ready (family : CacheFamily) {monitor : Monitor Key Value}
    {step : Step Key Value} {slot : Slot Key} {value : Value}
    (ha : (slot, .ok value) ∈ (monitor.perform family step).2.answers) :
    (monitor.perform family step).1.slotState? slot = some (.ready value) := by
  rcases hp : monitor.perform family step with ⟨after, event⟩
  rw [hp] at ha
  cases perform_effect hp with
  | stay hquiet hslots => exact (slotState?_congr hslots slot).trans (hquiet.ready_of_answer ha)
  | block => cases ha
  | enter => cases ha
  | @leave _ ended _ result _ _ _ hslots =>
    -- a waiter is told of a value exactly if the constructor returned it
    have hresult : slot = ended ∧ result = .ok value := by
      cases result with
      | ok built =>
        simp only [Event.answers, toldToWaiters, List.map_map, List.mem_cons, Prod.mk.injEq,
          Except.ok.injEq, List.mem_map, Function.comp_apply] at ha
        rcases ha with ⟨rfl, rfl⟩ | ⟨_, -, rfl, rfl⟩ <;> exact ⟨rfl, rfl⟩
      | error failure => simp [Event.answers, toldToWaiters] at ha
    obtain ⟨rfl, rfl⟩ := hresult
    rw [slotState?_congr hslots, slotState?_settle, if_pos rfl, settledState]

/-! ## Runs -/

/-- What is finished is what has been built, the latest first. -/
theorem Consistent.ready_execute {monitor : Monitor Key Value} (h : monitor.Consistent)
    (family : CacheFamily) (steps : List (Step Key Value)) :
    (monitor.execute family steps).ready =
      ((monitor.history family steps).filterMap Event.built?).reverse ++ monitor.ready := by
  induction steps generalizing monitor with
  | nil => rfl
  | cons step rest ih =>
    rw [Monitor.execute, ih (h.perform family step), h.ready_perform, history, List.filterMap_cons]
    cases (monitor.perform family step).2.built? <;> simp

/-- A value stays for ever, and its slot is never constructed again. -/
theorem Consistent.value_execute {monitor : Monitor Key Value} (h : monitor.Consistent)
    (family : CacheFamily) (steps : List (Step Key Value)) {slot : Slot Key} {value : Value}
    (hs : monitor.slotState? slot = some (.ready value)) :
    (monitor.execute family steps).slotState? slot = some (.ready value) ∧
      slot ∉ (monitor.history family steps).filterMap Event.entered? := by
  induction steps generalizing monitor with
  | nil => exact ⟨hs, by simp [history]⟩
  | cons step rest ih =>
    obtain ⟨hafter, hent⟩ := h.keeps_value family step hs
    obtain ⟨hlast, hrest⟩ := ih (h.perform family step) hafter
    refine ⟨hlast, fun hm => ?_⟩
    rw [history, List.mem_filterMap] at hm
    obtain ⟨event, hm, he⟩ := hm
    rcases List.mem_cons.1 hm with rfl | hm
    · exact hent he
    · exact hrest (List.mem_filterMap.2 ⟨event, hm, he⟩)

theorem Consistent.answer_execute {monitor : Monitor Key Value} (h : monitor.Consistent)
    (family : CacheFamily) (steps : List (Step Key Value)) {slot : Slot Key} {value : Value}
    (ha : (slot, .ok value) ∈ (monitor.history family steps).flatMap Event.answers) :
    (monitor.execute family steps).slotState? slot = some (.ready value) := by
  induction steps generalizing monitor with
  | nil => simp [history] at ha
  | cons step rest ih =>
    rw [history, List.flatMap_cons, List.mem_append] at ha
    rcases ha with ha | ha
    · exact ((h.perform family step).value_execute family rest (answer_ready family ha)).1
    · exact ih (h.perform family step) ha

/-- A constructor that gives up leaves its slot out of use and everything else as it is. -/
theorem Consistent.abandon {monitor : Monitor Key Value} (h : monitor.Consistent)
    (family : CacheFamily) {thread : ThreadId} {slot : Slot Key} {outer : List (Slot Key)}
    (hb : monitor.isBlocked thread = false) (hc : monitor.constructions thread = slot :: outer)
    (failure : ConstructionFailure Key) :
    let after := (monitor.conclude thread (.error failure)).1
    after.slotState? slot = none ∧
      (∀ asking, after.isBlocked asking = false →
        (after.get family asking slot).2 = .building) ∧
      ∀ cache, after.finished cache = monitor.finished cache := by
  intro after
  have hbuild : monitor.slotState? slot = some (.building thread) :=
    (h.building_iff slot thread).2 (hc ▸ List.mem_cons_self)
  obtain ⟨hslots, -⟩ := conclude_open hb hc (.error failure)
  have hs : after.slotState? slot = none := by
    rw [slotState?_congr hslots, slotState?_settle, if_pos rfl, settledState]
  refine ⟨hs, fun asking hfree => by simp [get, hfree, hs], fun cache => ?_⟩
  rw [finished_eq, finished_eq]
  refine congrArg _ ?_
  refine (ready_congr hslots).trans ?_
  exact ready_clearSlot h (by simp [hbuild])

/-- One construction for each key, and one value for everybody. In every state that a run reaches,
no two constructors of a slot are open; what the caches have finished is what constructors have
returned, each key once; a finished value stays, and nobody enters its constructor again; whoever
was given a value of a slot was given the one that is finished; and a constructor that gives up
leaves its slot to be constructed again, and every finished value as it is. -/
theorem constructed_once (family : CacheFamily) (steps : List (Step Key Value)) :
    let monitor := (initial : Monitor Key Value).execute family steps
    let events := (initial : Monitor Key Value).history family steps
    (∀ thread, (monitor.constructions thread).Nodup) ∧
    (∀ slot thread other, slot ∈ monitor.constructions thread →
      slot ∈ monitor.constructions other → thread = other) ∧
    (∀ cache, ((monitor.finished cache).map Prod.fst).Nodup ∧
      monitor.finished cache = ofCache cache (events.filterMap Event.built?).reverse) ∧
    (∀ slot value, (slot.key, value) ∈ monitor.finished slot.cache ↔
      monitor.peek? slot = some value) ∧
    (∀ slot value more, monitor.peek? slot = some value →
      (monitor.execute family more).peek? slot = some value ∧
        slot ∉ (monitor.history family more).filterMap Event.entered?) ∧
    (∀ slot value, (slot, .ok value) ∈ events.flatMap Event.answers →
      monitor.peek? slot = some value) ∧
    ∀ thread slot outer failure, monitor.isBlocked thread = false →
      monitor.constructions thread = slot :: outer →
      let after := (monitor.conclude thread (.error failure)).1
      after.slotState? slot = none ∧
        (∀ asking, after.isBlocked asking = false →
          (after.get family asking slot).2 = .building) ∧
        ∀ cache, after.finished cache = monitor.finished cache := by
  intro monitor events
  have h : monitor.Consistent := Consistent.initial.execute family steps
  refine ⟨h.constructions_nodup, fun slot thread other hm hother => ?_,
    fun cache => ⟨h.nodup_finished cache, ?_⟩, fun slot value => h.mem_finished_iff,
    fun slot value more hs => ?_, fun slot value ha => ?_,
    fun thread slot outer failure hb hc => h.abandon family hb hc failure⟩
  · have hfirst := (h.building_iff slot thread).2 hm
    have hsecond := (h.building_iff slot other).2 hother
    simpa using hfirst.symm.trans hsecond
  · rw [finished_eq, Consistent.initial.ready_execute family steps]
    simp [Monitor.initial, ready, events]
  · rw [peek?_eq_some_iff] at hs ⊢
    exact h.value_execute family more hs
  · exact peek?_eq_some_iff.2 (Consistent.initial.answer_execute family steps ha)

end NativeImage.Monitor
