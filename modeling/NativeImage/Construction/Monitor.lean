/-!
# Shared construction of cached values

Threads ask caches for the value of a key. The first thread to ask constructs it and may ask for
other keys meanwhile; a thread that asks for a key under construction by another thread waits for
it. A wait that would close a loop of waiting threads is refused. Caches that share a tracker see
each other's waits.

Asking for a key is one step here, `Monitor.get`: it looks up the slot and records the wait, or
refuses it, at once. Caches that do the one after the other can be interrupted in between. If the
construction ends then, and its owner comes to wait for the thread that asks, this thread is refused
for a cycle although the key has its value by now. No run of steps here has such a refusal.

## Main definitions

- `CacheFamily` — the names and trackers of the caches
- `Monitor` — slots, open constructions and waits
- `Monitor.get` — a thread asks for a key
- `Monitor.conclude` — a thread's innermost construction ends
-/

namespace NativeImage

/-- Threads are numbered. -/
abbrev ThreadId := Nat

/-- Who keeps account of the waits of a cache. -/
inductive Tracker
  /-- Kept by the cache for itself. -/
  | own (cache : Nat)
  | shared (tracker : Nat)
  deriving DecidableEq, Repr

/-- The caches, by number. -/
structure CacheFamily where
  name : Nat → String
  tracker : Nat → Tracker

/-- A key of a cache. -/
structure Slot (Key : Type) where
  cache : Nat
  key : Key
  deriving DecidableEq, Repr

/-- A slot that is in use. -/
inductive SlotState (Value : Type)
  | building (owner : ThreadId)
  | ready (value : Value)
  deriving DecidableEq, Repr

/-- A thread waits until the construction of a slot by its owner has ended. -/
structure Wait (Key : Type) where
  thread : ThreadId
  slot : Slot Key
  owner : ThreadId
  deriving DecidableEq, Repr

/-- Why asking for a key fails. -/
inductive ConstructionFailure (Key : Type)
  /-- Its construction would have to wait for itself. -/
  | cycle (slot : Slot Key)
  /-- Another thread's construction, which this one waited for, failed. -/
  | abandoned (slot : Slot Key)
  /-- The constructor gave up for a reason of its own. -/
  | refused (reason : String)
  deriving DecidableEq, Repr

def ConstructionFailure.message {Key : Type} (family : CacheFamily) (spelling : Key → String) :
    ConstructionFailure Key → String
  | cycle slot =>
    s!"cycle detected while constructing {family.name slot.cache} entry `{spelling slot.key}`"
  | abandoned slot =>
    s!"construction of {family.name slot.cache} entry `{spelling slot.key}` failed on another worker"
  | refused reason => reason

/-- The state shared by all threads. -/
structure Monitor (Key Value : Type) where
  /-- Slots in use, each once. -/
  slots : List (Slot Key × SlotState Value)
  /-- The constructions a thread is in, the innermost first. -/
  constructions : ThreadId → List (Slot Key)
  /-- Threads that wait, each once. -/
  waits : List (Wait Key)
  /-- What asking for a key last failed with. -/
  lastFailure : ThreadId → Option (ConstructionFailure Key)

/-- What happens to a thread that asks for a key. -/
inductive GetOutcome (Key Value : Type)
  /-- The thread waits and cannot ask. -/
  | busy
  /-- The answer is known at once. -/
  | answered (result : Except (ConstructionFailure Key) Value)
  /-- The thread constructs the value now. -/
  | building
  /-- The thread waits for another one's construction. -/
  | blocked

/-- The end of a construction. -/
structure Ending (Key Value : Type) where
  slot : Slot Key
  result : Except (ConstructionFailure Key) Value
  /-- Threads that waited for it, by number, with what they are told. -/
  woken : List (ThreadId × Except (ConstructionFailure Key) Value)

/-- What happens to a thread whose constructor returns. -/
inductive ConcludeOutcome (Key Value : Type)
  /-- The thread waits and cannot return. -/
  | busy
  /-- The thread is in no constructor. -/
  | idle
  | ended (ending : Ending Key Value)

namespace Monitor

variable {Key Value : Type} [DecidableEq Key]

/-- No slot is in use, no thread constructs or waits. -/
def initial : Monitor Key Value := ⟨[], fun _ => [], [], fun _ => none⟩

def slotState? (monitor : Monitor Key Value) (slot : Slot Key) : Option (SlotState Value) :=
  monitor.slots.lookup slot

/-- The value of a slot once its construction has succeeded. -/
def peek? (monitor : Monitor Key Value) (slot : Slot Key) : Option Value :=
  match monitor.slotState? slot with
  | some (.ready value) => some value
  | some (.building _) | none => none

/-- Whether a thread waits. -/
def isBlocked (monitor : Monitor Key Value) (thread : ThreadId) : Bool :=
  monitor.waits.any fun wait => wait.thread == thread

/-- The finished keys of a cache with their values. -/
def finished (monitor : Monitor Key Value) (cache : Nat) : List (Key × Value) :=
  monitor.slots.filterMap fun
    | (slot, .ready value) => if slot.cache = cache then some (slot.key, value) else none
    | (_, .building _) => none

/-- The wait of a thread, if this tracker keeps account of it. -/
def waitOf? (family : CacheFamily) (tracker : Tracker) (waits : List (Wait Key))
    (thread : ThreadId) : Option (Wait Key) :=
  waits.find? fun wait => wait.thread == thread && family.tracker wait.slot.cache == tracker

/-- Whether the chain of waits that starts at a thread arrives at `goal` within `bound` threads. -/
def leadsTo (family : CacheFamily) (tracker : Tracker) (waits : List (Wait Key))
    (goal : ThreadId) : (bound : Nat) → ThreadId → Bool
  | 0, _ => false
  | bound + 1, thread =>
    if thread = goal then true
    else match waitOf? family tracker waits thread with
      | some wait => leadsTo family tracker waits goal bound wait.owner
      | none => false

/-- Whether `owner` waits for `thread`, directly or through others. A chain without loops visits
every waiting thread at most once. -/
def waitsFor (family : CacheFamily) (monitor : Monitor Key Value) (tracker : Tracker)
    (owner thread : ThreadId) : Bool :=
  leadsTo family tracker monitor.waits thread (monitor.waits.length + 1) owner

/-- The monitor with a slot in a new state. -/
def setSlot (monitor : Monitor Key Value) (slot : Slot Key) (state : SlotState Value) :
    Monitor Key Value :=
  { monitor with slots := (slot, state) :: monitor.slots.filter fun entry => entry.1 != slot }

/-- The monitor with a slot out of use. -/
def clearSlot (monitor : Monitor Key Value) (slot : Slot Key) : Monitor Key Value :=
  { monitor with slots := monitor.slots.filter fun entry => entry.1 != slot }

/-- Looking up behind a filter that drops one key. -/
theorem lookup_filter_ne {α β : Type} [DecidableEq α] (entries : List (α × β))
    (key other : α) :
    (entries.filter fun entry => entry.1 != key).lookup other =
      if other = key then none else entries.lookup other := by
  induction entries with
  | nil => simp
  | cons entry rest ih =>
    obtain ⟨name, value⟩ := entry
    by_cases removed : name = key
    · subst removed
      by_cases same : other = name
      · simpa [same] using ih
      · have differ : (other == name) = false := beq_false_of_ne same
        simpa [same, List.lookup_cons, differ] using ih
    · by_cases found : other = name
      · subst found
        simp [removed]
      · have differ : (other == name) = false := beq_false_of_ne found
        simpa [removed, List.lookup_cons, differ] using ih

@[simp] theorem slotState?_clearSlot (monitor : Monitor Key Value) (slot other : Slot Key) :
    (monitor.clearSlot slot).slotState? other =
      if other = slot then none else monitor.slotState? other :=
  lookup_filter_ne monitor.slots slot other

@[simp] theorem slotState?_setSlot (monitor : Monitor Key Value) (slot other : Slot Key)
    (state : SlotState Value) :
    (monitor.setSlot slot state).slotState? other =
      if other = slot then some state else monitor.slotState? other := by
  by_cases same : other = slot
  · simp [setSlot, slotState?, same]
  · have differ : (other == slot) = false := beq_false_of_ne same
    simpa [setSlot, slotState?, List.lookup_cons, differ, same] using
      lookup_filter_ne monitor.slots slot other

/-- Keep the failure that a thread is told of. -/
def recordFailure (monitor : Monitor Key Value) (thread : ThreadId) :
    Except (ConstructionFailure Key) Value → Monitor Key Value
  | .ok _ => monitor
  | .error failure =>
    { monitor with
      lastFailure := fun other =>
        if other = thread then some failure else monitor.lastFailure other }

/-- A thread asks for a key. -/
def get (family : CacheFamily) (monitor : Monitor Key Value) (thread : ThreadId)
    (slot : Slot Key) : Monitor Key Value × GetOutcome Key Value :=
  if monitor.isBlocked thread then (monitor, .busy)
  else match monitor.slotState? slot with
    | some (.ready value) => (monitor, .answered (.ok value))
    | some (.building owner) =>
      if owner = thread ∨ monitor.waitsFor family (family.tracker slot.cache) owner thread then
        (monitor.recordFailure thread (.error (.cycle slot)), .answered (.error (.cycle slot)))
      else
        ({ monitor with waits := ⟨thread, slot, owner⟩ :: monitor.waits }, .blocked)
    | none =>
      ({ monitor.setSlot slot (.building thread) with
          constructions := fun other =>
            if other = thread then slot :: monitor.constructions thread
            else monitor.constructions other },
        .building)

/-- What threads are told that waited for a construction with this result. -/
def toldToWaiters (slot : Slot Key) :
    Except (ConstructionFailure Key) Value → Except (ConstructionFailure Key) Value
  | .ok value => .ok value
  | .error _ => .error (.abandoned slot)

/-- The threads that wait for a slot, by number. -/
def waitersOf (monitor : Monitor Key Value) (slot : Slot Key) : List ThreadId :=
  ((monitor.waits.filter fun wait => wait.slot == slot).map (·.thread)).mergeSort (· ≤ ·)

/-- A thread's innermost construction ends with a result. A value stays for ever; after a failure
the slot can be constructed again. Whoever waited for the slot returns. -/
def conclude (monitor : Monitor Key Value) (thread : ThreadId)
    (result : Except (ConstructionFailure Key) Value) :
    Monitor Key Value × ConcludeOutcome Key Value :=
  if monitor.isBlocked thread then (monitor, .busy)
  else match monitor.constructions thread with
    | [] => (monitor, .idle)
    | slot :: outer =>
      let told := toldToWaiters slot result
      let waiters := monitor.waitersOf slot
      let settled := match result with
        | .ok value => monitor.setSlot slot (.ready value)
        | .error _ => monitor.clearSlot slot
      let left : Monitor Key Value :=
        { settled with
          constructions := fun other =>
            if other = thread then outer else monitor.constructions other
          waits := monitor.waits.filter fun wait => wait.slot != slot }
      let after := waiters.foldl (fun monitor waiter => monitor.recordFailure waiter told)
        (left.recordFailure thread result)
      (after, .ended ⟨slot, result, waiters.map (·, told)⟩)

/-- The constructor returns a value. -/
def finish (monitor : Monitor Key Value) (thread : ThreadId) (value : Value) :
    Monitor Key Value × ConcludeOutcome Key Value :=
  monitor.conclude thread (.ok value)

/-- The constructor gives up for a reason. -/
def fail (monitor : Monitor Key Value) (thread : ThreadId) (reason : String) :
    Monitor Key Value × ConcludeOutcome Key Value :=
  monitor.conclude thread (.error (.refused reason))

/-- The constructor passes on what the thread was last told, or `none` as its reason if it was
told of no failure. -/
def rethrow (monitor : Monitor Key Value) (thread : ThreadId) :
    Monitor Key Value × ConcludeOutcome Key Value :=
  monitor.conclude thread (.error ((monitor.lastFailure thread).getD (.refused "none")))

end Monitor

end NativeImage
