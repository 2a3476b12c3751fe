import Mathlib.Data.List.Dedup
import Mathlib.Data.List.Induction
import Mathlib.Data.List.Sort
import NativeImage.Proofs.Object.Packing

/-!
# The series of a block

The runs of a list of slots hold exactly its slots, and between two runs there is a gap. They can be
found in one pass over the slots in ascending order, in which one run is open at a time, and no
number on the way needs more than 32 bits if the block is below 4 GiB.

## Main definitions

- `SlotRun.slots`, `SlotRun.Maximal` — the slots of a run, and runs with gaps between them
- `SlotRun.scan?` — the pass, in numbers of 32 bits
- `SeriesOf` — series that describe the slots of a block

## Main statements

- `SlotRun.scan?_eq` — what the pass finds
- `pointerSeries_seriesOf` — the series describe the slots
-/

namespace NativeImage

namespace SlotRun

/-- The slot behind the run. -/
def stop (run : SlotRun) : Nat := run.start + run.length

/-- The slots of the run. -/
def slots (run : SlotRun) : List Nat := List.range' run.start run.length

/-- Runs that are not empty, in ascending order and with a gap between each two. -/
structure Maximal (runs : List SlotRun) : Prop where
  nonempty : ∀ run ∈ runs, 0 < run.length
  apart : runs.Pairwise fun earlier later => earlier.stop < later.start

variable {slot bound : Nat} {ascending : List Nat} {run : SlotRun} {runs : List SlotRun}

/-! ## Covering -/

/-- The first run starts at the slot that has been put before the others. -/
theorem head?_prepend (slot : Nat) (runs : List SlotRun) :
    (prepend slot runs).head?.map start = some slot := by
  cases runs with
  | nil => rfl
  | cons first rest =>
    rw [prepend]
    split
    · next hsame => exact congrArg some hsame
    · split <;> rfl

theorem cover_cons (slot : Nat) (rest : List Nat) :
    cover (slot :: rest) = prepend slot (cover rest) := rfl

theorem head?_cover (ascending : List Nat) :
    (cover ascending).head?.map start = ascending.head? := by
  cases ascending with
  | nil => rfl
  | cons slot rest => exact head?_prepend slot (cover rest)

/-- The runs of slots behind a slot start behind it. -/
theorem lt_start_of_mem_head? (h : ∀ other ∈ ascending, slot < other) :
    ∀ first ∈ (cover ascending).head?, slot < first.start := by
  intro first hfirst
  have hhead := head?_cover ascending
  rw [hfirst, Option.map_some] at hhead
  exact h _ (List.mem_of_mem_head? hhead.symm)

/-- Nothing but the slot is put before the others. -/
theorem flatMap_slots_prepend (h : ∀ first ∈ runs.head?, slot < first.start) :
    (prepend slot runs).flatMap slots = slot :: runs.flatMap slots := by
  cases runs with
  | nil => rfl
  | cons first rest =>
    have hlt := h first rfl
    rw [prepend, if_neg (Nat.ne_of_gt hlt)]
    split
    · next hnext =>
      rw [List.flatMap_cons, List.flatMap_cons, slots, slots, hnext, List.range'_succ,
        List.cons_append]
    · rfl

/-- It joins the first run if it is next to it. -/
theorem Maximal.prepend (hruns : Maximal runs) (h : ∀ first ∈ runs.head?, slot < first.start) :
    Maximal (prepend slot runs) := by
  cases runs with
  | nil => exact ⟨List.forall_mem_singleton.2 Nat.one_pos, List.pairwise_singleton _ _⟩
  | cons first rest =>
    have hlt := h first rfl
    obtain ⟨hfirst, hrest⟩ := List.forall_mem_cons.1 hruns.nonempty
    obtain ⟨hbehind, hapart⟩ := List.pairwise_cons.1 hruns.apart
    rw [SlotRun.prepend, if_neg (Nat.ne_of_gt hlt)]
    split
    · next hnext =>
      have hstop : stop ⟨slot, first.length + 1⟩ = first.stop := by
        rw [stop, stop, hnext]
        dsimp only
        omega
      refine ⟨List.forall_mem_cons.2 ⟨Nat.succ_pos _, hrest⟩, List.pairwise_cons.2 ⟨?_, hapart⟩⟩
      rwa [hstop]
    · next hnext =>
      refine ⟨List.forall_mem_cons.2 ⟨Nat.one_pos, hruns.nonempty⟩,
        List.pairwise_cons.2 ⟨List.forall_mem_cons.2 ⟨?_, fun later hlater => ?_⟩, hruns.apart⟩⟩
      · rw [stop]
        dsimp only
        omega
      · have hgap := hbehind later hlater
        rw [stop] at hgap ⊢
        dsimp only
        omega

/-- The runs of ascending slots are maximal and hold these slots, in their order. -/
theorem cover_spec (h : ascending.Pairwise (· < ·)) :
    Maximal (cover ascending) ∧ (cover ascending).flatMap slots = ascending := by
  induction ascending with
  | nil => exact ⟨⟨nofun, .nil⟩, rfl⟩
  | cons slot rest ih =>
    obtain ⟨hslot, hrest⟩ := List.pairwise_cons.1 h
    obtain ⟨hmaximal, hslots⟩ := ih hrest
    have hhead := lt_start_of_mem_head? hslot
    refine ⟨hmaximal.prepend hhead, ?_⟩
    rw [cover_cons, flatMap_slots_prepend hhead, hslots]

/-- Slots that are repeated do not count. -/
theorem cover_dedup (h : ascending.Pairwise (· ≤ ·)) : cover ascending.dedup = cover ascending := by
  induction ascending with
  | nil => rfl
  | cons slot rest ih =>
    obtain ⟨hslot, hrest⟩ := List.pairwise_cons.1 h
    by_cases hmem : slot ∈ rest
    · rw [List.dedup_cons_of_mem hmem, ih hrest]
      -- the others start with the slot already, so nothing is put before their runs
      have hhead := head?_cover rest
      cases rest with
      | nil => cases hmem
      | cons next others =>
        have hle : next ≤ slot := by
          rcases List.mem_cons.1 hmem with rfl | hothers
          · exact Nat.le_refl _
          · exact (List.pairwise_cons.1 hrest).1 slot hothers
        have hsame : next = slot := Nat.le_antisymm hle (hslot next List.mem_cons_self)
        obtain ⟨first, hfirst, hstart⟩ := Option.map_eq_some_iff.1 hhead
        obtain ⟨more, hcover⟩ := List.head?_eq_some_iff.1 hfirst
        rw [cover_cons slot, hcover, SlotRun.prepend, if_pos (hstart.trans hsame)]
    · rw [List.dedup_cons_of_notMem hmem, cover_cons, cover_cons, ih hrest]

/-! ## Ends -/

/-- Where the last run ends. -/
def lastStop (runs : List SlotRun) : Nat := (runs.getLast?.map stop).getD 0

theorem lastStop_concat (init : List SlotRun) (last : SlotRun) :
    lastStop (init ++ [last]) = last.stop := by
  rw [lastStop, List.getLast?_concat, Option.map_some, Option.getD_some]

theorem Maximal.stop_le (h : Maximal runs) (hrun : run ∈ runs) : run.stop ≤ lastStop runs := by
  rcases List.eq_nil_or_concat' runs with rfl | ⟨init, last, rfl⟩
  · cases hrun
  · rw [lastStop_concat]
    rcases List.mem_append.1 hrun with hinit | hlast
    · have hgap := (List.pairwise_append.1 h.apart).2.2 run hinit last List.mem_cons_self
      rw [stop] at hgap ⊢
      rw [stop]
      omega
    · rw [List.mem_singleton.1 hlast]

/-- There are no more runs than slots up to the end of the last one. -/
theorem Maximal.length_le (h : Maximal runs) : runs.length ≤ lastStop runs := by
  induction runs using List.reverseRecOn with
  | nil => exact Nat.le_refl 0
  | append_singleton init last ih =>
    obtain ⟨hinit, -, hgap⟩ := List.pairwise_append.1 h.apart
    have hlength := ih ⟨fun run hrun => h.nonempty run (List.mem_append_left _ hrun), hinit⟩
    have hlast := h.nonempty last (List.mem_append_right _ List.mem_cons_self)
    have hbefore : lastStop init ≤ last.start := by
      rcases List.eq_nil_or_concat' init with rfl | ⟨others, previous, rfl⟩
      · exact Nat.zero_le _
      · rw [lastStop_concat]
        exact (hgap previous (List.mem_append_right _ List.mem_cons_self) last
          List.mem_cons_self).le
    rw [lastStop_concat, stop, List.length_append, List.length_singleton]
    omega

end SlotRun

/-! ## The runs of a list of slots -/

/-- The slots in ascending order, without repetitions. -/
def ascendingSlots (slots : List Nat) : List Nat := (slots.mergeSort (· ≤ ·)).dedup

theorem mem_ascendingSlots {slots : List Nat} {slot : Nat} :
    slot ∈ ascendingSlots slots ↔ slot ∈ slots := by
  rw [ascendingSlots, List.mem_dedup, List.mem_mergeSort]

theorem pairwise_ascendingSlots (slots : List Nat) :
    (ascendingSlots slots).Pairwise (· < ·) := by
  have hle := (List.pairwise_mergeSort' (· ≤ ·) slots).sublist (List.dedup_sublist _)
  exact hle.imp₂ (fun _ _ => Nat.lt_of_le_of_ne) (List.nodup_dedup _)

theorem slotRuns_eq_cover (slots : List Nat) :
    slotRuns slots = SlotRun.cover (ascendingSlots slots) :=
  (SlotRun.cover_dedup (List.pairwise_mergeSort' (· ≤ ·) slots)).symm

theorem slotRuns_maximal (slots : List Nat) : SlotRun.Maximal (slotRuns slots) := by
  rw [slotRuns_eq_cover]
  exact (SlotRun.cover_spec (pairwise_ascendingSlots slots)).1

/-- The runs hold exactly the slots. -/
theorem exists_mem_slotRuns {slots : List Nat} {slot : Nat} :
    (∃ run ∈ slotRuns slots, slot ∈ run.slots) ↔ slot ∈ slots := by
  rw [← List.mem_flatMap, slotRuns_eq_cover,
    (SlotRun.cover_spec (pairwise_ascendingSlots slots)).2, mem_ascendingSlots]

theorem exists_of_slotCount (slots : List Nat) :
    slotCount slots = 0 ∨ ∃ slot ∈ slots, slotCount slots = slot + 1 := by
  induction slots using List.reverseRecOn with
  | nil => exact .inl rfl
  | append_singleton init last ih =>
    have hcount : slotCount (init ++ [last]) = max (slotCount init) (last + 1) := by
      rw [slotCount, List.foldl_append, ← slotCount]
      rfl
    rcases Nat.le_total (slotCount init) (last + 1) with hle | hle
    · rw [hcount, Nat.max_eq_right hle]
      exact .inr ⟨last, List.mem_append_right _ List.mem_cons_self, rfl⟩
    · rw [hcount, Nat.max_eq_left hle]
      rcases ih with hzero | ⟨slot, hslot, hcount⟩
      · exact .inl hzero
      · exact .inr ⟨slot, List.mem_append_left _ hslot, hcount⟩

/-- The last run ends where the block does. -/
theorem lastStop_slotRuns (slots : List Nat) :
    SlotRun.lastStop (slotRuns slots) = slotCount slots := by
  refine Nat.le_antisymm ?_ ?_
  · rcases List.eq_nil_or_concat' (slotRuns slots) with hnil | ⟨init, last, hlast⟩
    · rw [hnil]
      exact Nat.zero_le _
    · rw [hlast, SlotRun.lastStop_concat]
      exact SlotRun.end_le_slotCount (hlast ▸ List.mem_append_right _ List.mem_cons_self)
  · rcases exists_of_slotCount slots with hzero | ⟨slot, hslot, hcount⟩
    · rw [hzero]
      exact Nat.zero_le _
    · obtain ⟨run, hrun, hmem⟩ := exists_mem_slotRuns.2 hslot
      have hstop := (slotRuns_maximal slots).stop_le hrun
      obtain ⟨-, hlt⟩ := List.mem_range'_1.1 hmem
      rw [SlotRun.stop] at hstop
      omega

/-! ## The pass -/

/-- A number that has at most 32 bits. -/
def checked32 (value : Nat) : Option Nat := if value ≤ maxWord32 then some value else none

theorem checked32_of_le {value : Nat} (h : value ≤ maxWord32) : checked32 value = some value :=
  if_pos h

namespace SlotRun

/-- Size and offset of the run. -/
def series? (pointerSize : Nat) (run : SlotRun) : Option (Nat × Nat) := do
  let size ← checked32 (run.length * pointerSize)
  let offset ← checked32 (run.start * pointerSize)
  return (size, offset)

/-- One pass over ascending slots. A slot behind the open run joins it, any other one closes it and
opens the next. -/
def scan? (pointerSize : Nat) : Option SlotRun → List Nat → Option (List (Nat × Nat))
  | none, [] => some []
  | some run, [] => do return [← run.series? pointerSize]
  | none, slot :: rest => scan? pointerSize (some ⟨slot, 1⟩) rest
  | some run, slot :: rest => do
    let next ← checked32 (run.start + run.length)
    if next = slot then
      let length ← checked32 (run.length + 1)
      scan? pointerSize (some ⟨run.start, length⟩) rest
    else
      let closed ← run.series? pointerSize
      let others ← scan? pointerSize (some ⟨slot, 1⟩) rest
      return closed :: others

/-- An open run before others: it goes on in the first of them if that starts where it stops. -/
def join (run : SlotRun) : List SlotRun → List SlotRun
  | [] => [run]
  | first :: rest =>
    if first.start = run.stop then ⟨run.start, run.length + first.length⟩ :: rest
    else run :: first :: rest

variable {pointerSize slot bound : Nat} {ascending : List Nat} {run : SlotRun}
  {runs : List SlotRun}

theorem join_single (h : ∀ first ∈ runs.head?, slot < first.start) :
    join ⟨slot, 1⟩ runs = prepend slot runs := by
  cases runs with
  | nil => rfl
  | cons first rest =>
    rw [join, prepend, if_neg (Nat.ne_of_gt (h first rfl)), stop, Nat.add_comm 1]

/-- A slot behind the run joins it. -/
theorem join_prepend_stop (h : ∀ first ∈ runs.head?, run.stop < first.start) :
    join run (prepend run.stop runs) = join ⟨run.start, run.length + 1⟩ runs := by
  have hstop : stop ⟨run.start, run.length + 1⟩ = run.stop + 1 := rfl
  cases runs with
  | nil =>
    rw [prepend, join]
    exact if_pos rfl
  | cons first rest =>
    rw [prepend, if_neg (Nat.ne_of_gt (h first rfl)), join.eq_2 ⟨run.start, run.length + 1⟩, hstop]
    split
    · rw [join, if_pos rfl, Nat.add_comm first.length, ← Nat.add_assoc]
    · rw [join, if_pos rfl]

/-- Any other slot does not. -/
theorem join_prepend_of_ne (h : slot ≠ run.stop) :
    join run (prepend slot runs) = run :: prepend slot runs := by
  have hhead := head?_prepend slot runs
  cases hruns : prepend slot runs with
  | nil => rfl
  | cons first rest =>
    rw [hruns] at hhead
    cases hhead
    rw [join, if_neg h]

theorem series?_eq (hstop : run.stop ≤ bound) (hbound : bound * pointerSize ≤ maxWord32) :
    run.series? pointerSize = some (run.byteSize pointerSize, run.byteOffset pointerSize) := by
  have hlength : run.length * pointerSize ≤ maxWord32 :=
    (Nat.mul_le_mul_right _ ((Nat.le_add_left _ _).trans hstop)).trans hbound
  have hstart : run.start * pointerSize ≤ maxWord32 :=
    (Nat.mul_le_mul_right _ ((Nat.le_add_right _ _).trans hstop)).trans hbound
  rw [series?, checked32_of_le hlength, checked32_of_le hstart]
  rfl

/-- With a run open the pass finds the runs of the slots, and joins the first to the open one. -/
theorem scan?_some (hpointer : 0 < pointerSize) (hbound : bound * pointerSize ≤ maxWord32)
    (hascending : ascending.Pairwise (· < ·)) (hslots : ∀ slot ∈ ascending, slot < bound)
    (hrun : ∀ slot ∈ ascending, run.stop ≤ slot) (hstop : run.stop ≤ bound) :
    scan? pointerSize (some run) ascending = some ((join run (cover ascending)).map fun run =>
      (run.byteSize pointerSize, run.byteOffset pointerSize)) := by
  have hword : bound ≤ maxWord32 := (Nat.le_mul_of_pos_right _ hpointer).trans hbound
  -- on the slots that are left: none of them lies before the end of the open run
  induction ascending generalizing run with
  | nil =>
    rw [scan?, series?_eq hstop hbound]
    rfl
  | cons slot rest ih =>
    obtain ⟨hbehind, hrest⟩ := List.pairwise_cons.1 hascending
    obtain ⟨hslot, hothers⟩ := List.forall_mem_cons.1 hslots
    have hhead := lt_start_of_mem_head? hbehind
    rw [scan?, ← stop, checked32_of_le (hstop.trans hword), cover_cons, Option.bind_eq_bind,
      Option.bind_some]
    split
    · next hnext =>
      subst hnext
      have hlength : run.length + 1 ≤ maxWord32 := by
        rw [stop] at hslot
        omega
      rw [checked32_of_le hlength, join_prepend_stop hhead, Option.bind_some]
      exact ih hrest hothers hbehind hslot
    · next hgap =>
      have hopened := @ih ⟨slot, 1⟩ hrest hothers hbehind hslot
      rw [series?_eq hstop hbound, hopened, join_single hhead, join_prepend_of_ne (Ne.symm hgap)]
      rfl

/-- The pass over the slots of a block below 4 GiB finds its series. -/
theorem scan?_eq {slots : List Nat} (hpointer : 0 < pointerSize)
    (hsize : slotCount slots * pointerSize ≤ maxWord32) :
    scan? pointerSize none (ascendingSlots slots) = some (pointerSeries pointerSize slots) := by
  have hascending := pairwise_ascendingSlots slots
  have hslots : ∀ slot ∈ ascendingSlots slots, slot < slotCount slots := fun slot hslot =>
    lt_slotCount_of_mem (mem_ascendingSlots.1 hslot)
  rw [pointerSeries, slotRuns_eq_cover]
  cases heq : ascendingSlots slots with
  | nil => rfl
  | cons slot rest =>
    rw [heq] at hascending hslots
    obtain ⟨hbehind, hrest⟩ := List.pairwise_cons.1 hascending
    obtain ⟨hslot, hothers⟩ := List.forall_mem_cons.1 hslots
    rw [scan?, cover_cons, ← join_single (lt_start_of_mem_head? hbehind)]
    exact scan?_some hpointer hsize hrest hothers hbehind hslot

end SlotRun

/-! ## Series -/

/-- Where the last series ends. -/
def seriesEnd (series : List (Nat × Nat)) : Nat :=
  (series.getLast?.map fun (size, offset) => offset + size).getD 0

/-- Sizes and offsets that describe the slots of a block: the pointers that they cover are those of
the slots, none is empty, between two of them there is a gap, and the last ends where the block
does. -/
structure SeriesOf (pointerSize : Nat) (slots : List Nat) (series : List (Nat × Nat)) : Prop where
  covers : ∀ address,
    (∃ entry ∈ series, ∃ step, step * pointerSize < entry.1 ∧
      address = entry.2 + step * pointerSize) ↔ ∃ slot ∈ slots, address = slot * pointerSize
  whole : ∀ entry ∈ series, 0 < entry.1 ∧ pointerSize ∣ entry.1 ∧ pointerSize ∣ entry.2
  apart : series.Pairwise fun earlier later => earlier.2 + earlier.1 < later.2
  stop : seriesEnd series = slotCount slots * pointerSize

/-- The series of a list of slots describe them. -/
theorem pointerSeries_seriesOf {pointerSize : Nat} (hpointer : 0 < pointerSize)
    (slots : List Nat) : SeriesOf pointerSize slots (pointerSeries pointerSize slots) := by
  have hmaximal := slotRuns_maximal slots
  refine ⟨fun address => ?_, fun entry hentry => ?_, ?_, ?_⟩
  · constructor
    · rintro ⟨entry, hentry, step, hstep, rfl⟩
      obtain ⟨run, hrun, rfl⟩ := List.mem_map.1 hentry
      have hlt : step < run.length := Nat.lt_of_mul_lt_mul_right hstep
      refine ⟨run.start + step, exists_mem_slotRuns.1 ⟨run, hrun, ?_⟩, ?_⟩
      · exact List.mem_range'_1.2 ⟨Nat.le_add_right _ _, Nat.add_lt_add_left hlt _⟩
      · rw [SlotRun.byteOffset, Nat.add_mul]
    · rintro ⟨slot, hslot, rfl⟩
      obtain ⟨run, hrun, hmem⟩ := exists_mem_slotRuns.2 hslot
      obtain ⟨hle, hlt⟩ := List.mem_range'_1.1 hmem
      refine ⟨_, List.mem_map_of_mem hrun, slot - run.start, ?_, ?_⟩
      · exact Nat.mul_lt_mul_of_pos_right (by omega) hpointer
      · rw [SlotRun.byteOffset, ← Nat.add_mul, Nat.add_sub_cancel' hle]
  · obtain ⟨run, hrun, rfl⟩ := List.mem_map.1 hentry
    exact ⟨Nat.mul_pos (hmaximal.nonempty run hrun) hpointer, Nat.dvd_mul_left _ _,
      Nat.dvd_mul_left _ _⟩
  · refine List.pairwise_map.2 (hmaximal.apart.imp fun {earlier later} hgap => ?_)
    have hbytes := Nat.mul_lt_mul_of_pos_right hgap hpointer
    rwa [SlotRun.stop, Nat.add_mul] at hbytes
  · rw [← lastStop_slotRuns, seriesEnd, pointerSeries, List.getLast?_map, SlotRun.lastStop]
    cases (slotRuns slots).getLast? with
    | none => exact (Nat.zero_mul pointerSize).symm
    | some last => exact (Nat.add_mul last.start last.length pointerSize).symm

/-- There are no more series than slots in the block. -/
theorem length_pointerSeries_le (pointerSize : Nat) (slots : List Nat) :
    (pointerSeries pointerSize slots).length ≤ slotCount slots := by
  have hlength := (slotRuns_maximal slots).length_le
  rwa [lastStop_slotRuns, ← List.length_map] at hlength

end NativeImage
