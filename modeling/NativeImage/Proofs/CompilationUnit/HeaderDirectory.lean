import NativeImage.Proofs.CompilationUnit.Attachment
import NativeImage.Proofs.Object.Fields

/-!
# The header as a directory

A table may be offered for a section any number of times, and the first one stays. So the header
depends only on what was entered, not on the order, and from its data a reader gets back every
entry: they lie one behind the other in the order of their ids, each as long as the header says.

## Main definitions

- `HeaderTable.offer`, `HeaderTable.offerAll`, `HeaderTable.accepted` — entries that are offered
- `ObjectData.readHeader?` — a reader of serialized headers
- `HeaderTable.Listing` — data from which the table's entries are read

## Main statements

- `HeaderTable.find_offerAll` — the first offer stays
- `HeaderTable.offerAll_eq_of_perm` — in whatever order the accepted ones come
- `HeaderTable.serialize_listing` — what is read from a serialized header
- `HeaderTable.directory_roundTrip`
-/

namespace NativeImage

namespace HeaderTable

/-! ## Offers -/

/-- What becomes of a table when an entry is offered for a section: the entry is added, or refused
if the section has one. -/
def offer (table : HeaderTable) (tag : Section) (entry : HeaderEntry) :
    Except InternalError HeaderTable :=
  match table.add? tag entry with
  | some next => .ok next
  | none => .error (.duplicateSection tag)

/-- The table after entries have been offered one after the other; refused ones change nothing. -/
def offerAll (table : HeaderTable) : List (Section × HeaderEntry) → HeaderTable
  | [] => table
  | (tag, entry) :: rest =>
    match table.offer tag entry with
    | .ok next => next.offerAll rest
    | .error _ => table.offerAll rest

/-- Those of the offers that are not refused. -/
def accepted (table : HeaderTable) :
    List (Section × HeaderEntry) → List (Section × HeaderEntry)
  | [] => []
  | (tag, entry) :: rest =>
    match table.offer tag entry with
    | .ok next => (tag, entry) :: next.accepted rest
    | .error _ => table.accepted rest

variable {table next : HeaderTable} {tag other : Section} {entry : HeaderEntry}
  {offers before after : List (Section × HeaderEntry)}

theorem offer_of_some (h : (table.find tag).isSome) :
    table.offer tag entry = .error (.duplicateSection tag) := by
  rw [offer, add?_eq_none_iff.2 h]

theorem offer_of_none (entry : HeaderEntry) (h : table.find tag = none) :
    ∃ next, table.offer tag entry = .ok next ∧
      ∀ other, next.find other = if other = tag then some entry else table.find other := by
  cases hadd : table.add? tag entry with
  | none =>
    rw [add?_eq_none_iff, h] at hadd
    cases hadd
  | some next => exact ⟨next, by rw [offer, hadd], find_of_add? hadd⟩

/-- A section that had no entry has the first one that was offered for it. -/
theorem find_offerAll (table : HeaderTable) (offers : List (Section × HeaderEntry))
    (other : Section) :
    (table.offerAll offers).find other = (table.find other).or (offers.lookup other) := by
  induction offers generalizing table with
  | nil => rw [offerAll, List.lookup_nil, Option.or_none]
  | cons first rest ih =>
    obtain ⟨tag, entry⟩ := first
    rw [offerAll, List.lookup_cons]
    cases hfind : table.find tag with
    | some old =>
      rw [offer_of_some (by rw [hfind]; rfl)]
      dsimp only
      rw [ih]
      by_cases hother : other = tag
      · rw [hother, hfind, Option.some_or, Option.some_or]
      · rw [beq_false_of_ne hother]
    | none =>
      obtain ⟨next, hoffer, hnext⟩ := offer_of_none entry hfind
      rw [hoffer]
      dsimp only
      rw [ih, hnext]
      by_cases hother : other = tag
      · rw [if_pos hother, hother, hfind, beq_self_eq_true]
        rfl
      · rw [if_neg hother, beq_false_of_ne hother]

/-- The accepted offers are what the table has afterwards and had not before. -/
theorem mem_accepted : (tag, entry) ∈ table.accepted offers ↔
    table.find tag = none ∧ (table.offerAll offers).find tag = some entry := by
  induction offers generalizing table with
  | nil =>
    rw [accepted, offerAll]
    constructor
    · exact nofun
    · rintro ⟨hnone, hsome⟩
      cases hnone.symm.trans hsome
  | cons first rest ih =>
    obtain ⟨head, given⟩ := first
    rw [accepted, offerAll]
    cases hfind : table.find head with
    | some old =>
      rw [offer_of_some (by rw [hfind]; rfl)]
      exact ih
    | none =>
      obtain ⟨next, hoffer, hnext⟩ := offer_of_none given hfind
      rw [hoffer]
      dsimp only
      rw [List.mem_cons, ih, hnext]
      by_cases htag : tag = head
      · subst htag
        rw [find_offerAll, hnext, if_pos rfl, hfind]
        simp [eq_comm]
      · simp [htag]

/-- No section is accepted twice, and none that the table had. -/
theorem nodup_accepted (table : HeaderTable) (offers : List (Section × HeaderEntry)) :
    ((table.accepted offers).map Prod.fst).Nodup := by
  induction offers generalizing table with
  | nil => exact List.nodup_nil
  | cons first rest ih =>
    obtain ⟨tag, entry⟩ := first
    rw [accepted]
    cases hfind : table.find tag with
    | some old =>
      rw [offer_of_some (by rw [hfind]; rfl)]
      exact ih table
    | none =>
      obtain ⟨next, hoffer, hnext⟩ := offer_of_none entry hfind
      rw [hoffer]
      refine List.nodup_cons.2 ⟨fun hmem => ?_, ih next⟩
      obtain ⟨⟨again, given⟩, hgiven, rfl⟩ := List.mem_map.1 hmem
      obtain ⟨hnone, -⟩ := mem_accepted.1 hgiven
      rw [hnext, if_pos rfl] at hnone
      cases hnone

/-- Offers for different sections that the table has no entries of are all accepted. -/
theorem accepted_eq_self (hnodup : (offers.map Prod.fst).Nodup)
    (hfree : ∀ offered ∈ offers, table.find offered.1 = none) : table.accepted offers = offers := by
  induction offers generalizing table with
  | nil => rfl
  | cons first rest ih =>
    obtain ⟨tag, entry⟩ := first
    obtain ⟨hhead, hrest⟩ := List.forall_mem_cons.1 hfree
    obtain ⟨hnot, hnodup⟩ := List.nodup_cons.1 hnodup
    obtain ⟨next, hoffer, hnext⟩ := offer_of_none entry hhead
    rw [accepted, hoffer]
    dsimp only
    rw [ih hnodup fun offered hmem => ?_]
    have hne : offered.1 ≠ tag := by
      rintro rfl
      exact hnot (List.mem_map.2 ⟨offered, hmem, rfl⟩)
    rw [hnext, if_neg hne]
    exact hrest offered hmem

theorem ext_find {first second : HeaderTable} (h : ∀ tag, first.find tag = second.find tag) :
    first = second := by
  cases first
  cases second
  exact congrArg mk (funext h)

/-- In whatever order the accepted offers come, the table is the same. -/
theorem offerAll_eq_of_perm {reordered : List (Section × HeaderEntry)}
    (h : reordered.Perm (table.accepted offers)) :
    table.accepted reordered = reordered ∧ table.offerAll reordered = table.offerAll offers := by
  have haccepted : table.accepted reordered = reordered := by
    refine accepted_eq_self ((h.map Prod.fst).nodup_iff.2 (nodup_accepted table offers))
      fun offered hmem => ?_
    exact (mem_accepted.1 (h.mem_iff.1 hmem)).1
  refine ⟨haccepted, ext_find fun tag => ?_⟩
  cases hfind : table.find tag with
  | some old => rw [find_offerAll, find_offerAll, hfind, Option.some_or, Option.some_or]
  | none =>
    refine Option.ext fun entry => ?_
    have hmem : (tag, entry) ∈ table.accepted reordered ↔ (tag, entry) ∈ table.accepted offers := by
      rw [haccepted, h.mem_iff]
    rw [mem_accepted, mem_accepted, hfind] at hmem
    simpa using hmem

/-- One more offer changes nothing if an earlier one was for its section. -/
theorem offerAll_concat (table : HeaderTable) (before : List (Section × HeaderEntry))
    (tag : Section) (entry : HeaderEntry) :
    table.offerAll (before ++ [(tag, entry)]) =
      match (table.offerAll before).offer tag entry with
      | .ok next => next
      | .error _ => table.offerAll before := by
  induction before generalizing table with
  | nil =>
    simp only [List.nil_append, offerAll]
  | cons first rest ih =>
    obtain ⟨head, given⟩ := first
    rw [List.cons_append, offerAll, offerAll]
    cases table.offer head given with
    | ok next => exact ih next
    | error cause => exact ih table

/-- The first offer for a section is accepted; every later one is refused and changes nothing. -/
theorem offer_offerAll_empty (before : List (Section × HeaderEntry)) (tag : Section)
    (entry : HeaderEntry) :
    if tag ∈ before.map Prod.fst then
      (empty.offerAll before).offer tag entry = .error (.duplicateSection tag) ∧
        empty.offerAll (before ++ [(tag, entry)]) = empty.offerAll before
    else
      (empty.offerAll before).offer tag entry =
        .ok (empty.offerAll (before ++ [(tag, entry)])) := by
  have hfind : ((empty.offerAll before).find tag).isSome ↔ tag ∈ before.map Prod.fst := by
    rw [find_offerAll, empty, Option.none_or, List.lookup_isSome_iff]
    simp only [List.mem_map, beq_iff_eq, eq_comm (a := tag)]
  rw [offerAll_concat]
  split
  · next hmem =>
    rw [offer_of_some (hfind.2 hmem)]
    exact ⟨rfl, rfl⟩
  · next hmem =>
    have hnone := Option.not_isSome_iff_eq_none.1 (mt hfind.1 hmem)
    obtain ⟨next, hoffer, -⟩ := offer_of_none entry hnone
    rw [hoffer]

/-- A node is entered in a header by offering its symbols. -/
theorem addSection_eq_offer {id : NodeId} {node : Node} {s : Image}
    (hnode : s.nodes[id.index]? = some node) :
    CompilationUnit.addSection table tag id s =
      match table.offer tag ⟨id, node.symbol, node.endSymbol?⟩ with
      | .ok next => .ok next s
      | .error cause => .error (.internal cause) s := by
  rw [CompilationUnit.addSection, bind_of_ok (ImageM.node_eq_ok.2 ⟨hnode, rfl⟩), offer]
  cases table.add? tag ⟨id, node.symbol, node.endSymbol?⟩ <;> rfl

/-! ## Entries -/

/-- The entries are in the order of their ids. -/
theorem pairwise_entries (table : HeaderTable) :
    table.entries.Pairwise fun earlier later => earlier.1.id < later.1.id := by
  have hall : Section.all.Pairwise fun earlier later => earlier.id < later.id := by decide
  refine List.Pairwise.filterMap _ (fun tag other hlt earlier hearlier later hlater => ?_) hall
  obtain ⟨-, -, rfl⟩ := Option.map_eq_some_iff.1 hearlier
  obtain ⟨-, -, rfl⟩ := Option.map_eq_some_iff.1 hlater
  exact hlt

theorem size_le (table : HeaderTable) : table.size ≤ 9 :=
  List.length_filterMap_le _ Section.all

end HeaderTable

/-! ## Reading a header -/

namespace ObjectData

/-- The symbol whose address is at an offset. -/
def address? (data : ObjectData) (offset : Nat) : Option String :=
  match data.relocationAt? offset with
  | some ⟨_, .pointer, target⟩ => some target
  | _ => none

/-- The symbol whose address is at an offset, or that there is a null pointer. -/
def nullable? (data : ObjectData) (pointerSize offset : Nat) : Option (Option String) :=
  match data.relocationAt? offset with
  | some ⟨_, .pointer, target⟩ => some (some target)
  | some _ => none
  | none => if data.word? pointerSize offset = some 0 then some none else none

/-- An entry of a header: its id, where the table starts, and where it ends if it is bounded. -/
def entryAt? (data : ObjectData) (pointerSize offset : Nat) :
    Option (Nat × String × Option String) := do
  let id ← data.word? 4 offset
  let flags ← data.word? 4 (offset + 4)
  guard (flags = 0)
  let start ← data.address? (offset + 8)
  let bound ← data.nullable? pointerSize (offset + 8 + pointerSize)
  return (id, start, bound)

/-- The entries of a header, as many and as long as its fixed part says. -/
def readHeader? (data : ObjectData) (pointerSize : Nat) :
    Option (List (Nat × String × Option String)) := do
  let count ← data.word? 2 12
  let entrySize ← data.word? 1 14
  (List.range count).mapM fun i => data.entryAt? pointerSize (16 + i * entrySize)

end ObjectData

namespace HeaderTable

open Emission ObjectData

variable {table : HeaderTable} {tag : Section} {entry : HeaderEntry} {data : ObjectData}
  {pointerSize alignment : Nat} {before after : List Emission}

theorem extent_entryEmissions (pointerSize : Nat) (row : Section × HeaderEntry) :
    extent pointerSize (entryEmissions row.1 row.2) = 8 + 2 * pointerSize := by
  cases hbound : row.2.endSymbol? <;> simp [entryEmissions, hbound, u32, encode] <;> omega

/-- An entry is read where its steps began. -/
theorem entryAt?_assemble (hpointer : 0 < pointerSize) (tag : Section) (entry : HeaderEntry)
    (hdata : data = assemble pointerSize alignment (before ++ (entryEmissions tag entry ++ after)))
    (hsize : extent pointerSize (before ++ (entryEmissions tag entry ++ after)) ≤ maxWord32) :
    data.entryAt? pointerSize (extent pointerSize before) =
      some (tag.id, entry.startSymbol, entry.endSymbol?) := by
  have htag : data.word? 4 (extent pointerSize before) = some tag.id := by
    have hid : tag.id % 256 ^ 4 = tag.id := by cases tag <;> rfl
    rw [hdata, ← hid]
    exact word?_append (i := 0) rfl rfl
  have hflags : data.word? 4 (extent pointerSize before + 4) = some (0 % 256 ^ 4) := by
    rw [hdata]
    exact word?_append (i := 1) rfl rfl
  have hstart : data.relocationAt? (extent pointerSize before + 8) =
      some ⟨extent pointerSize before + 8, .pointer, entry.startSymbol⟩ := by
    rw [hdata]
    exact relocationAt?_append (i := 2) hpointer hsize rfl (by simpa [encode] using hpointer) rfl
  have hbound : data.nullable? pointerSize (extent pointerSize before + 8 + pointerSize) =
      some entry.endSymbol? := by
    have hoffset : extent pointerSize before + extent pointerSize
        ((entryEmissions tag entry ++ after).take 3) =
          extent pointerSize before + 8 + pointerSize := by
      simp [entryEmissions, u32, encode]
      omega
    rw [nullable?, hdata]
    cases hend : entry.endSymbol? with
    | some symbol =>
      have hstep : (entryEmissions tag entry ++ after)[3]? = some (.pointer symbol) := by
        simp [entryEmissions, hend]
      rw [relocationAt?_append hpointer hsize hstep (by simpa [encode] using hpointer) hoffset]
      rfl
    | none =>
      have hstep : (entryEmissions tag entry ++ after)[3]? = some .nullPointer := by
        simp [entryEmissions, hend]
      have hzero := word?_field_append pointerSize alignment hstep hoffset
      rw [encode, List.length_replicate, ← littleEndian_zero, fromLittleEndian_littleEndian,
        Nat.zero_mod] at hzero
      rw [relocationAt?_append hpointer hsize hstep (by simpa [encode] using hpointer) hoffset]
      simp [reference?, hzero]
  rw [entryAt?, htag, hflags, address?, hstart, hbound]
  rfl

theorem size_serialize (table : HeaderTable) (pointerSize : Nat) :
    (table.serialize pointerSize).size = 16 + table.size * (8 + 2 * pointerSize) := by
  have hpreamble : extent pointerSize (preamble pointerSize table.size) = 16 := rfl
  rw [serialize, size_assemble, extent_append, hpreamble, size]
  exact congrArg (16 + ·) (extent_rows (extent_entryEmissions pointerSize) table.entries)

/-- What data lists the entries of a table: a reader gets back the ids, starts and ends, the
relocations are those of the starts and ends, and behind the last entry the data ends. -/
structure Listing (table : HeaderTable) (pointerSize : Nat) (data : ObjectData) : Prop where
  read : data.readHeader? pointerSize =
    some (table.entries.map fun (tag, entry) => (tag.id, entry.startSymbol, entry.endSymbol?))
  relocations : data.relocations.map (fun found => (found.kind, found.target)) =
    table.entries.flatMap fun (_, entry) =>
      (.pointer, entry.startSymbol) :: entry.endSymbol?.toList.map (.pointer, ·)
  size : data.size = 16 + table.size * (8 + 2 * pointerSize)

/-- A serialized header lists the entries of its table, if an entry is less than 256 bytes long. -/
theorem serialize_listing (table : HeaderTable) (hpointer : 0 < pointerSize)
    (hentry : 8 + 2 * pointerSize ≤ 255) :
    table.Listing pointerSize (table.serialize pointerSize) := by
  have hsections := table.size_le
  have hcount : (table.serialize pointerSize).word? 2 12 = some table.size := by
    have hvalue : min table.size 65535 % 256 ^ 2 = table.size := by omega
    exact (word?_assemble pointerSize pointerSize (i := 4) rfl).trans (congrArg some hvalue)
  have hlength : (table.serialize pointerSize).word? 1 14 = some (8 + 2 * pointerSize) := by
    have hvalue : entrySize pointerSize % 256 ^ 1 = 8 + 2 * pointerSize := by
      rw [entrySize]
      omega
    exact (word?_assemble pointerSize pointerSize (i := 5) rfl).trans (congrArg some hvalue)
  have hsize : (table.serialize pointerSize).size ≤ maxWord32 := by
    have hentries : table.size * (8 + 2 * pointerSize) ≤ 9 * 255 := Nat.mul_le_mul hsections hentry
    have hword : 16 + 9 * 255 ≤ maxWord32 := by decide
    rw [size_serialize]
    omega
  refine ⟨?_, ?_, size_serialize table pointerSize⟩
  · rw [readHeader?, hcount, hlength]
    refine mapM_rows (extent_entryEmissions pointerSize) (preamble pointerSize table.size)
      fun before row after _ hsplit => ?_
    have hdata : table.serialize pointerSize = assemble pointerSize pointerSize
        (before ++ (entryEmissions row.1 row.2 ++ after)) := congrArg _ hsplit
    rw [hdata, size_assemble] at hsize
    exact entryAt?_assemble hpointer row.1 row.2 hdata hsize
  · rw [serialize, assemble_references, List.filterMap_append, List.filterMap_flatMap]
    refine congrArg (List.flatMap · table.entries) (funext fun (tag, entry) => ?_)
    cases hend : entry.endSymbol? with
    | none => simp [entryEmissions, hend, u32, List.filterMap_cons, reference?]
    | some symbol => simp [entryEmissions, hend, u32, List.filterMap_cons, reference?]

/-! ## The header as a directory -/

/-- A header holds for each section what was offered for it first. Later offers are refused, in
particular when a node is entered, and change nothing; in whatever order the others come, the header
is the same. Serialized for pointers of 4 or 8 bytes it lists exactly its entries, in the order of
their ids. -/
theorem directory_roundTrip (offers : List (Section × HeaderEntry)) :
    (∀ tag, (empty.offerAll offers).find tag = offers.lookup tag) ∧
    (∀ before tag entry,
      if tag ∈ before.map Prod.fst then
        (empty.offerAll before).offer tag entry = .error (.duplicateSection tag) ∧
          empty.offerAll (before ++ [(tag, entry)]) = empty.offerAll before
      else
        (empty.offerAll before).offer tag entry =
          .ok (empty.offerAll (before ++ [(tag, entry)]))) ∧
    (∀ (table : HeaderTable) (tag : Section) (id : NodeId) (node : Node) (s : Image),
      s.nodes[id.index]? = some node →
        CompilationUnit.addSection table tag id s =
          match table.offer tag ⟨id, node.symbol, node.endSymbol?⟩ with
          | .ok next => .ok next s
          | .error cause => .error (.internal cause) s) ∧
    (∀ reordered, reordered.Perm (empty.accepted offers) →
      empty.accepted reordered = reordered ∧
        empty.offerAll reordered = empty.offerAll offers ∧
        ∀ pointerSize, (empty.offerAll reordered).serialize pointerSize =
          (empty.offerAll offers).serialize pointerSize) ∧
    (∀ tag entry,
      (tag, entry) ∈ (empty.offerAll offers).entries ↔ offers.lookup tag = some entry) ∧
    ((empty.offerAll offers).entries.Pairwise fun earlier later => earlier.1.id < later.1.id) ∧
    ∀ pointerSize, pointerSize = 4 ∨ pointerSize = 8 →
      (empty.offerAll offers).Listing pointerSize
        ((empty.offerAll offers).serialize pointerSize) := by
  have hfind : ∀ tag, (empty.offerAll offers).find tag = offers.lookup tag := fun tag => by
    rw [find_offerAll, empty, Option.none_or]
  refine ⟨hfind, offer_offerAll_empty, fun table tag id node s hnode => addSection_eq_offer hnode,
    fun reordered hperm => ?_, fun tag entry => ?_, pairwise_entries _,
    fun pointerSize hpointer => ?_⟩
  · obtain ⟨haccepted, htable⟩ := offerAll_eq_of_perm hperm
    exact ⟨haccepted, htable, fun pointerSize => by rw [htable]⟩
  · rw [mem_entries, hfind]
  · refine serialize_listing _ ?_ ?_
    · omega
    · omega

/-- A bounded table, an unbounded one with a smaller id, and a second one for the first section. -/
def threeOffers : List (Section × HeaderEntry) :=
  [(.threadStaticIndex, ⟨⟨6⟩, "index", some "indexEnd"⟩), (.gcStaticDesc, ⟨⟨3⟩, "desc", none⟩),
    (.threadStaticIndex, ⟨⟨4⟩, "other", none⟩)]

/-- An image with one node. -/
def modulesOnly : Image := ⟨.initial, #[{ kind := .modulesSection, symbol := "modules" }], none⟩

/-- The last is refused, the first two can change places, and both are read back; no node can be
entered under their sections. -/
theorem threeOffers_roundTrip :
    (empty.offerAll threeOffers).find .threadStaticIndex =
      some ⟨⟨6⟩, "index", some "indexEnd"⟩ ∧
    (empty.offerAll (threeOffers.take 2)).offer .threadStaticIndex ⟨⟨4⟩, "other", none⟩ =
      .error (.duplicateSection .threadStaticIndex) ∧
    empty.offerAll (threeOffers.take 2).reverse = empty.offerAll threeOffers ∧
    ((empty.offerAll threeOffers).serialize 8).readHeader? 8 =
      some [(207, "desc", none), (210, "index", some "indexEnd")] ∧
    CompilationUnit.addSection (empty.offerAll threeOffers) .gcStaticDesc ⟨0⟩ modulesOnly =
      .error (.internal (.duplicateSection .gcStaticDesc)) modulesOnly := by
  obtain ⟨hfind, hoffer, hadd, horder, -, -, hlisting⟩ := directory_roundTrip threeOffers
  have hperm : (threeOffers.take 2).reverse.Perm (empty.accepted threeOffers) := by decide
  have hrefused := hoffer (threeOffers.take 2) .threadStaticIndex ⟨⟨4⟩, "other", none⟩
  rw [if_pos (by decide)] at hrefused
  exact ⟨hfind .threadStaticIndex, hrefused.1, (horder _ hperm).2.1, (hlisting 8 (.inr rfl)).read,
    hadd _ .gcStaticDesc ⟨0⟩ _ modulesOnly rfl⟩

end HeaderTable

end NativeImage
