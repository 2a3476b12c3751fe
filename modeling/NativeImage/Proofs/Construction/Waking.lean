import Mathlib.Data.List.Perm.Basic
import NativeImage.Proofs.Construction.Step

/-!
# Waits end with the construction

Whoever waits does so for a construction that another thread has open. The end of the construction
wakes those that wait for this slot, each once, and nothing else wakes anybody. Over a whole run the
waits that have begun are therefore those that were ended and those that go on.

## Main definitions

- `Monitor.Event.begun`, `Monitor.Event.woken` — the waits that a step begins, and that it ends
- `Monitor.Wakes` — what the end of a construction does

## Main statements

- `Monitor.perform_balance` — the waits before and after a step
- `Monitor.Consistent.conclude_wakes` — the end of a construction does this
- `Monitor.waits_end_with_construction` — no wake-up is lost, and none is spurious
-/

namespace NativeImage.Monitor

open scoped List

variable {Key Value : Type}

/-! ## Waits that begin and end -/

/-- The wait that a step begins. -/
def Event.begun : Event Key Value → List (ThreadId × Slot Key)
  | .asked thread slot .blocked => [(thread, slot)]
  | _ => []

/-- The waits that a step ends. -/
def Event.woken : Event Key Value → List (ThreadId × Slot Key)
  | .returned _ (.ended ending) => ending.woken.map fun (thread, _) => (thread, ending.slot)
  | _ => []

/-- Who waits, and for what. -/
def pending (monitor : Monitor Key Value) : List (ThreadId × Slot Key) :=
  monitor.waits.map fun wait => (wait.thread, wait.slot)

variable [DecidableEq Key]

theorem Event.Quiet.begun_eq {monitor : Monitor Key Value} {event : Event Key Value}
    (h : event.Quiet monitor) : event.begun = [] := by
  cases h <;> rfl

theorem Event.Quiet.woken_eq {monitor : Monitor Key Value} {event : Event Key Value}
    (h : event.Quiet monitor) : event.woken = [] := by
  cases h <;> rfl

theorem mem_waitersOf {monitor : Monitor Key Value} {slot : Slot Key} {thread : ThreadId} :
    thread ∈ monitor.waitersOf slot ↔
      ∃ wait ∈ monitor.waits, wait.thread = thread ∧ wait.slot = slot := by
  simp [waitersOf, and_assoc, and_comm]

theorem waitersOf_perm (monitor : Monitor Key Value) (slot : Slot Key) :
    (monitor.waitersOf slot).Perm
      ((monitor.waits.filter fun wait => wait.slot == slot).map Wait.thread) :=
  List.mergeSort_perm ..

theorem Consistent.waitersOf_nodup {monitor : Monitor Key Value} (h : monitor.Consistent)
    (slot : Slot Key) : (monitor.waitersOf slot).Nodup := by
  rw [(waitersOf_perm monitor slot).nodup_iff]
  exact h.waits_nodup.sublist (List.filter_sublist.map _)

/-- The waits for a slot are what its construction ends, and the others go on. -/
theorem pending_split (monitor : Monitor Key Value) (slot : Slot Key) :
    monitor.pending.Perm ((monitor.waitersOf slot).map (·, slot) ++
      (monitor.waits.filter fun wait => wait.slot != slot).map fun wait =>
        (wait.thread, wait.slot)) := by
  have hparts := (List.filter_append_perm (fun wait : Wait Key => wait.slot == slot)
    monitor.waits).symm.map fun wait => (wait.thread, wait.slot)
  rw [List.map_append] at hparts
  refine hparts.trans (List.Perm.append ?_ (.of_eq rfl))
  have hthreads := ((waitersOf_perm monitor slot).map (·, slot)).symm
  rw [List.map_map] at hthreads
  refine (List.Perm.of_eq (List.map_congr_left fun wait hm => ?_)).trans hthreads
  have hslot : wait.slot = slot := by simpa using (List.mem_filter.1 hm).2
  simp [hslot]

/-- The waits before a step and those that it begins are those that it ends and those that go on. -/
theorem perform_balance (family : CacheFamily) (monitor : Monitor Key Value)
    (step : Step Key Value) :
    ((monitor.perform family step).2.begun ++ monitor.pending).Perm
      ((monitor.perform family step).2.woken ++ (monitor.perform family step).1.pending) := by
  rcases hp : monitor.perform family step with ⟨after, event⟩
  cases perform_effect hp with
  | stay hquiet _ _ hwaits => rw [hquiet.begun_eq, hquiet.woken_eq, pending, pending, hwaits]
  | block => rfl
  | enter _ _ _ _ hwaits =>
    rw [pending, pending, hwaits]
    rfl
  | @leave thread slot _ result _ _ _ _ _ hwaits =>
    have hwoken : (Event.returned thread (.ended ⟨slot, result,
        (monitor.waitersOf slot).map (·, toldToWaiters slot result)⟩)).woken =
          (monitor.waitersOf slot).map (·, slot) := by
      simp [Event.woken]
    rw [hwoken, pending, pending, hwaits]
    exact pending_split monitor slot

/-- Over a run, the waits that have begun are those that were ended and those that go on. -/
theorem execute_balance (family : CacheFamily) (monitor : Monitor Key Value)
    (steps : List (Step Key Value)) :
    ((monitor.history family steps).flatMap Event.begun ++ monitor.pending).Perm
      ((monitor.history family steps).flatMap Event.woken ++
        (monitor.execute family steps).pending) := by
  induction steps generalizing monitor with
  | nil => rfl
  | cons step rest ih =>
    simp only [history, execute, List.flatMap_cons]
    have hstep := perform_balance family monitor step
    set event := (monitor.perform family step).2
    set later := (monitor.perform family step).1
    calc event.begun ++ (later.history family rest).flatMap Event.begun ++ monitor.pending
      _ ~ (later.history family rest).flatMap Event.begun ++ (event.begun ++ monitor.pending) := by
          rw [← List.append_assoc]
          exact List.perm_append_comm.append_right _
      _ ~ (later.history family rest).flatMap Event.begun ++ (event.woken ++ later.pending) :=
          hstep.append_left _
      _ ~ event.woken ++ ((later.history family rest).flatMap Event.begun ++ later.pending) := by
          rw [← List.append_assoc, ← List.append_assoc]
          exact List.perm_append_comm.append_right _
      _ ~ event.woken ++ ((later.history family rest).flatMap Event.woken ++
            (later.execute family rest).pending) := (ih later).append_left _
      _ = event.woken ++ (later.history family rest).flatMap Event.woken ++
            (later.execute family rest).pending := (List.append_assoc ..).symm

/-! ## The end of a construction -/

/-- A wait goes on through every step but the end of the construction that it is for. -/
theorem wait_kept {family : CacheFamily} {monitor : Monitor Key Value} {wait : Wait Key}
    (hm : wait ∈ monitor.waits) {step : Step Key Value}
    (hover : wait ∉ (monitor.perform family step).1.waits) :
    ∃ thread result outer, step = .conclude thread result ∧
      monitor.isBlocked thread = false ∧ monitor.constructions thread = wait.slot :: outer := by
  rcases hp : monitor.perform family step with ⟨after, event⟩
  rw [hp] at hover
  cases perform_effect hp with
  | stay _ _ _ hwaits => exact absurd (hwaits ▸ hm) hover
  | block => exact absurd (List.mem_cons_of_mem _ hm) hover
  | enter _ _ _ _ hwaits => exact absurd (hwaits ▸ hm) hover
  | @leave thread slot outer result _ hfree hopen _ _ hwaits =>
    have hslot : wait.slot = slot := by
      by_contra hne
      exact hover (hwaits ▸ List.mem_filter.2 ⟨hm, by simpa using hne⟩)
    exact ⟨thread, result, outer, rfl, hfree, hslot ▸ hopen⟩

/-- What the end of a construction does: those that wait for the slot return, each once, with the
value or told that the construction was given up. Nobody else's wait changes, and of the open
constructions only the innermost one of the thread is gone. -/
structure Wakes (monitor : Monitor Key Value) (thread : ThreadId) (ending : Ending Key Value)
    (after : Monitor Key Value) : Prop where
  once : (ending.woken.map Prod.fst).Nodup
  told_iff : ∀ waiter told, (waiter, told) ∈ ending.woken ↔
    (∃ wait ∈ monitor.waits, wait.thread = waiter ∧ wait.slot = ending.slot) ∧
      told = match ending.result with
        | .ok value => .ok value
        | .error _ => .error (.abandoned ending.slot)
  waits_iff : ∀ wait, wait ∈ after.waits ↔ wait ∈ monitor.waits ∧ wait.slot ≠ ending.slot
  blocked_iff : ∀ other, after.isBlocked other = true ↔
    monitor.isBlocked other = true ∧ other ∉ ending.woken.map Prod.fst
  /-- No tracker has a wait of a woken thread. -/
  no_wait : ∀ family tracker, ∀ waiter ∈ ending.woken.map Prod.fst,
    waitOf? family tracker after.waits waiter = none
  constructions : ∀ other, after.constructions other =
    if other = thread then (monitor.constructions thread).tail else monitor.constructions other

/-- Whoever waits after the end of a construction has waited before, and not for its slot. -/
theorem Consistent.isBlocked_leave {monitor after : Monitor Key Value} (h : monitor.Consistent)
    {slot : Slot Key}
    (hwaits : after.waits = monitor.waits.filter fun wait => wait.slot != slot)
    (other : ThreadId) : after.isBlocked other = true ↔
      monitor.isBlocked other = true ∧ other ∉ monitor.waitersOf slot := by
  simp only [isBlocked_iff, mem_waitersOf, hwaits, List.mem_filter, bne_iff_ne]
  constructor
  · rintro ⟨wait, ⟨hm, hs⟩, rfl⟩
    refine ⟨⟨wait, hm, rfl⟩, ?_⟩
    rintro ⟨again, hm', ht, hs'⟩
    -- a thread waits for one slot only
    rw [List.inj_on_of_nodup_map h.waits_nodup hm' hm ht] at hs'
    exact hs hs'
  · rintro ⟨⟨wait, hm, rfl⟩, hother⟩
    exact ⟨wait, ⟨hm, fun hs => hother ⟨wait, hm, rfl, hs⟩⟩, rfl⟩

omit [DecidableEq Key] in
/-- Trackers find no wait of a thread that does not wait. -/
theorem waitOf?_eq_none {monitor : Monitor Key Value} {thread : ThreadId}
    (h : ¬ monitor.isBlocked thread = true) (family : CacheFamily) (tracker : Tracker) :
    waitOf? family tracker monitor.waits thread = none := by
  rw [waitOf?, List.find?_eq_none]
  intro wait hw hp
  rw [Bool.and_eq_true, beq_iff_eq] at hp
  exact h (isBlocked_iff.2 ⟨wait, hw, hp.1⟩)

theorem Consistent.conclude_wakes {monitor : Monitor Key Value} (h : monitor.Consistent)
    {thread : ThreadId} {slot : Slot Key} {outer : List (Slot Key)}
    (hfree : monitor.isBlocked thread = false)
    (hc : monitor.constructions thread = slot :: outer)
    (result : Except (ConstructionFailure Key) Value) :
    ∃ woken, (monitor.conclude thread result).2 = .ended ⟨slot, result, woken⟩ ∧
      monitor.Wakes thread ⟨slot, result, woken⟩ (monitor.conclude thread result).1 := by
  obtain ⟨-, hcons, hwaits, hout⟩ := conclude_open hfree hc result
  have hblocked := h.isBlocked_leave hwaits
  have hnames : ((monitor.waitersOf slot).map (·, toldToWaiters slot result)).map Prod.fst =
      monitor.waitersOf slot := by
    simp [Function.comp_def]
  refine ⟨_, hout, ?_, fun waiter told => ?_, fun wait => ?_, ?_, fun family tracker waiter hm => ?_,
    ?_⟩
  · rw [hnames]
    exact h.waitersOf_nodup slot
  · rw [List.mem_map, ← mem_waitersOf]
    constructor
    · rintro ⟨other, hm, he⟩
      obtain ⟨rfl, rfl⟩ := Prod.mk.inj he
      exact ⟨hm, by cases result <;> rfl⟩
    · rintro ⟨hm, rfl⟩
      exact ⟨waiter, hm, by cases result <;> rfl⟩
  · rw [hwaits, List.mem_filter, bne_iff_ne]
  · rw [hnames]
    exact hblocked
  · rw [hnames] at hm
    exact waitOf?_eq_none (fun hstill => ((hblocked waiter).1 hstill).2 hm) family tracker
  · rw [hc]
    exact congrFun hcons

/-- No wake-up is lost, and none is spurious. In every state that a run reaches, whoever waits does
so for one construction, which another thread has open. The end of a construction wakes exactly
those that wait for its slot, each once and with the right news, and changes nobody else's wait or
constructions; no other step ends a wait. Over the whole run, the waits that have begun are those
that were ended and those that go on. -/
theorem waits_end_with_construction (family : CacheFamily) (steps : List (Step Key Value)) :
    let monitor := (initial : Monitor Key Value).execute family steps
    let events := (initial : Monitor Key Value).history family steps
    (∀ thread, monitor.isBlocked thread = true →
      ∃! wait, wait ∈ monitor.waits ∧ wait.thread = thread ∧ wait.owner ≠ thread ∧
        monitor.slotState? wait.slot = some (.building wait.owner) ∧
        wait.slot ∈ monitor.constructions wait.owner) ∧
    (∀ thread slot outer result, monitor.isBlocked thread = false →
      monitor.constructions thread = slot :: outer →
      ∃ woken, (monitor.conclude thread result).2 = .ended ⟨slot, result, woken⟩ ∧
        monitor.Wakes thread ⟨slot, result, woken⟩ (monitor.conclude thread result).1) ∧
    (∀ step, ∀ wait ∈ monitor.waits, wait ∉ (monitor.perform family step).1.waits →
      ∃ thread result outer, step = .conclude thread result ∧
        monitor.isBlocked thread = false ∧ monitor.constructions thread = wait.slot :: outer) ∧
    (events.flatMap Event.begun).Perm (events.flatMap Event.woken ++ monitor.pending) := by
  intro monitor events
  have h : monitor.Consistent := Consistent.initial.execute family steps
  refine ⟨fun thread hb => ?_, fun thread slot outer result hfree hc => ?_,
    fun step wait hm hover => wait_kept hm hover, ?_⟩
  · obtain ⟨wait, hm, rfl⟩ := isBlocked_iff.1 hb
    have hs := h.wait_building wait hm
    refine ⟨wait, ⟨hm, rfl, h.wait_owner_ne wait hm, hs, (h.building_iff _ _).1 hs⟩, ?_⟩
    rintro other ⟨hother, ht, -⟩
    exact List.inj_on_of_nodup_map h.waits_nodup hother hm ht
  · exact h.conclude_wakes hfree hc result
  · have hbalance := execute_balance family (initial : Monitor Key Value) steps
    rwa [show (initial : Monitor Key Value).pending = [] from rfl, List.append_nil] at hbalance

/-- A constructor gives up while one thread waits for it and another one, inside a constructor of
its own, does as well: both are told, and who waits for that other constructor waits on. -/
theorem abandoned_construction_wakes_two :
    let family : CacheFamily := ⟨fun _ => "test", fun cache => .own cache⟩
    let steps : List (Step Nat Nat) :=
      [.get 0 ⟨0, 1⟩, .get 1 ⟨0, 1⟩, .get 2 ⟨1, 3⟩, .get 2 ⟨0, 1⟩, .get 3 ⟨1, 3⟩]
    let monitor := (initial : Monitor Nat Nat).execute family steps
    let after := (monitor.conclude 0 (.error (.refused "no"))).1
    monitor.isBlocked 0 = false ∧ monitor.constructions 0 = [⟨0, 1⟩] ∧
      after.isBlocked 1 = false ∧ after.isBlocked 2 = false ∧ after.isBlocked 3 = true ∧
      after.constructions 2 = [⟨1, 3⟩] := by
  intro family steps monitor after
  have hfree : monitor.isBlocked 0 = false := by decide
  have hopen : monitor.constructions 0 = [⟨0, 1⟩] := by decide
  obtain ⟨-, hends, -⟩ := waits_end_with_construction family steps
  obtain ⟨woken, -, hwakes⟩ := hends 0 ⟨0, 1⟩ [] (.error (.refused "no")) hfree hopen
  have hwaits : ∀ waiter, waiter ∈ woken.map Prod.fst ↔
      ∃ wait ∈ monitor.waits, wait.thread = waiter ∧ wait.slot = ⟨0, 1⟩ := by
    intro waiter
    constructor
    · intro hm
      obtain ⟨⟨_, told⟩, hentry, rfl⟩ := List.mem_map.1 hm
      exact ((hwakes.told_iff _ told).1 hentry).1
    · intro hwait
      exact List.mem_map.2 ⟨_, (hwakes.told_iff waiter _).2 ⟨hwait, rfl⟩, rfl⟩
  have hfirst : after.isBlocked 1 = false := by
    rw [← Bool.not_eq_true, hwakes.blocked_iff, hwaits]
    decide
  have hsecond : after.isBlocked 2 = false := by
    rw [← Bool.not_eq_true, hwakes.blocked_iff, hwaits]
    decide
  have hthird : after.isBlocked 3 = true := by
    rw [hwakes.blocked_iff, hwaits]
    decide
  have hkept : after.constructions 2 = [⟨1, 3⟩] := by
    rw [hwakes.constructions]
    decide
  exact ⟨hfree, hopen, hfirst, hsecond, hthird, hkept⟩

end NativeImage.Monitor
