import NativeImage.Proofs.CompilationUnit.RegionMembers
import NativeImage.Proofs.CompilationUnit.UniqueSymbols

/-!
# Places of nodes

The regions of a unit choose their entries by kind, a region around a single node chooses it by its
handle. Neither choice looks at the other one: a descriptor with a region of its own is also listed
among all descriptors of the unit, where the runtime counts on it. There are no other nodes with two
places, and none with more.

## Main definitions

- `CompiledUnit.Isolates` — nodes with a region of their own
- `CompiledUnit.PlacesApart` — how many places nodes have, and where

## Main statements

- `CompilationUnit.layoutRegions_standalone` — the layouts after those of the unit's regions
- `CompilationUnit.compile_places_apart` — places of all emitted nodes
- `CompilationUnit.counter_places_twice` — a descriptor with two places
-/

namespace NativeImage

open ImageM

/-! ## Lists -/

section Lists

variable {α β : Type}

/-- What some operations that only read have found, where it can be told from the argument whether
there is something to find. -/
theorem filterMapM_same {Failure State : Type} {f : α → EStateM Failure State (Option β)}
    {p : α → Bool} {s t : State} {list : List α} {results : List β} (hf : ∀ a, ReadOnly (f a))
    (hp : ∀ a b? u, f a s = .ok b? u → b?.isSome = p a)
    (h : list.filterMapM f s = .ok results t) :
    List.Forall₂ (fun a b => f a s = .ok (some b) s) (list.filter p) results := by
  suffices hloop : ∀ found, List.filterMapM.loop f list found s = .ok results t → ∃ rest,
      results = found.reverse ++ rest ∧
        List.Forall₂ (fun a b => f a s = .ok (some b) s) (list.filter p) rest by
    obtain ⟨rest, rfl, hall⟩ := hloop [] h
    exact hall
  clear h
  induction list with
  | nil =>
    intro found hlast
    obtain ⟨rfl, -⟩ := pure_eq_ok.1 hlast
    exact ⟨[], (List.append_nil _).symm, .nil⟩
  | cons a list ih =>
    intro found hmore
    obtain ⟨b?, u, ha, hrest⟩ := bind_eq_ok.1 hmore
    obtain rfl := (hf a).same ha
    have hpa := hp a b? u ha
    cases b? with
    | none =>
      rw [List.filter_cons_of_neg (Bool.eq_false_iff.1 hpa.symm)]
      exact ih found hrest
    | some b =>
      obtain ⟨rest, rfl, hall⟩ := ih (b :: found) hrest
      rw [List.filter_cons_of_pos hpa.symm]
      exact ⟨b :: rest, by rw [List.reverse_cons, List.append_assoc]; rfl, .cons ha hall⟩

/-- What holds of any two members of a list holds of what stands for them. -/
theorem pairwise_of_forall₂ {R : α → β → Prop} {P : α → α → Prop} {Q : β → β → Prop}
    {as : List α} {bs : List β} (h : List.Forall₂ R as bs)
    (hPQ : ∀ {a a' b b'}, R a b → R a' b' → P a a' → Q b b') (hp : as.Pairwise P) :
    bs.Pairwise Q := by
  induction h with
  | nil => exact .nil
  | cons hab hrest ih =>
    rw [List.pairwise_cons] at hp ⊢
    refine ⟨fun b' hb' => ?_, ih hp.2⟩
    obtain ⟨a', ha', hab'⟩ := exists_mem_of_forall₂ hrest hb'
    exact hPQ hab hab' (hp.1 a' ha')

/-- In a list without repetitions there is at most one of what cannot be there twice. -/
theorem countP_eq_ite {p : α → Bool} {list : List α} [Decidable (∃ a ∈ list, p a)]
    (hnodup : list.Nodup) (hp : ∀ a ∈ list, ∀ b ∈ list, p a → p b → a = b) :
    list.countP p = if ∃ a ∈ list, p a then 1 else 0 := by
  have hone : list.countP p ≤ 1 := by
    induction list with
    | nil => exact Nat.zero_le 1
    | cons a list ih =>
      obtain ⟨hfresh, hnodup⟩ := List.nodup_cons.1 hnodup
      by_cases ha : p a
      · have hrest : list.countP p = 0 := List.countP_eq_zero.2 fun b hb hpb => by
          obtain rfl := hp a List.mem_cons_self b (List.mem_cons_of_mem _ hb) ha hpb
          exact hfresh hb
        rw [List.countP_cons_of_pos ha, hrest]
      · rw [List.countP_cons_of_neg ha]
        classical
        exact ih hnodup fun b hb c hc =>
          hp b (List.mem_cons_of_mem _ hb) c (List.mem_cons_of_mem _ hc)
  split
  · next h => exact le_antisymm hone (List.countP_pos_iff.2 h)
  · next h => exact Nat.eq_zero_of_not_pos fun hpos => h (List.countP_pos_iff.1 hpos)

end Lists

/-! ## Regions -/

/-- The node that a region is around. -/
def NodeKind.isolated? : NodeKind → Option NodeId
  | .standaloneRegion descriptor => some descriptor
  | _ => none

/-- A region around just this node is emitted. -/
def CompiledUnit.Isolates (compiled : CompiledUnit) (id : NodeId) : Prop :=
  ∃ region ∈ compiled.nodes, region.node.kind = .standaloneRegion id

instance (compiled : CompiledUnit) (id : NodeId) : Decidable (compiled.Isolates id) :=
  inferInstanceAs (Decidable (∃ region ∈ compiled.nodes, region.node.kind = .standaloneRegion id))

/-- Nodes are placed in two ways only: among all of their kind, and alone. -/
structure CompiledUnit.PlacesApart (compiled : CompiledUnit) : Prop where
  /-- Only emitted nodes are placed. -/
  emitted : ∀ layout ∈ compiled.regions, ∀ id, layout.Has id → id ∈ compiled.nodes.map (·.id)
  /-- No region has a node twice. -/
  nodup : ∀ layout ∈ compiled.regions, (layout.children.map (·.node)).Nodup
  /-- No region is laid out twice. -/
  distinct : (compiled.regions.map (·.node)).Nodup
  /-- A node of a kind that has a region has data, and a place in that region. -/
  table : ∀ emitted ∈ compiled.nodes, ∀ kind, emitted.node.kind.region? = some kind →
    emitted.data?.isSome ∧
      ∃ layout ∈ compiled.regions, layout.node = kind.node ∧ layout.Has emitted.id
  /-- A region around a node is laid out, and has a place for it just if the node has data. -/
  alone : ∀ emitted ∈ compiled.nodes, ∀ region ∈ compiled.nodes,
    region.node.kind = .standaloneRegion emitted.id →
      ∃ layout ∈ compiled.regions, layout.node = region.id ∧
        (layout.Has emitted.id ↔ emitted.data?.isSome)
  /-- A node has no other places than these. -/
  place : ∀ layout ∈ compiled.regions, ∀ emitted ∈ compiled.nodes, layout.Has emitted.id →
    (∃ kind, emitted.node.kind.region? = some kind ∧ layout.node = kind.node) ∨
      ∃ region ∈ compiled.nodes,
        region.node.kind = .standaloneRegion emitted.id ∧ layout.node = region.id
  /-- If two regions have a node in common, the first one is that of the node's kind, and the second
  one is around just that node. -/
  apart : compiled.regions.Pairwise fun first second => ∀ emitted ∈ compiled.nodes,
    first.Has emitted.id → second.Has emitted.id →
      (∃ kind, emitted.node.kind.region? = some kind ∧ first.node = kind.node) ∧
      ∃ region ∈ compiled.nodes,
        region.node.kind = .standaloneRegion emitted.id ∧ second.node = region.id
  /-- So many places a node has: one if there is a region for its kind, and one more if it has data
  and a region around it is emitted. -/
  count : ∀ emitted ∈ compiled.nodes,
    compiled.regions.countP (fun layout => layout.Has emitted.id) =
      (if emitted.node.kind.region?.isSome then 1 else 0) +
      if compiled.Isolates emitted.id ∧ emitted.data?.isSome then 1 else 0

/-- The layout is that of the given region, and has just the emitted nodes with data that the region
chooses. -/
structure RegionLayout.Selects (compiled : CompiledUnit) (region : NodeId)
    (choice : EmittedNode → Prop) (layout : RegionLayout) : Prop where
  node : layout.node = region
  nodup : (layout.children.map (·.node)).Nodup
  emitted : ∀ id, layout.Has id → id ∈ compiled.nodes.map (·.id)
  has_iff : ∀ emitted ∈ compiled.nodes,
    layout.Has emitted.id ↔ choice emitted ∧ emitted.data?.isSome = true

/-- What the regions of a compiled unit choose from its nodes. -/
structure CompiledUnit.RegionsSelect (compiled : CompiledUnit) : Prop where
  /-- No node is emitted twice, -/
  nodup : (compiled.nodes.map (·.id)).Nodup
  /-- nor are two nodes of one kind. -/
  kinds : ∀ first ∈ compiled.nodes, ∀ second ∈ compiled.nodes,
    first.node.kind = second.node.kind → first = second
  /-- A region around a single node is none of the unit's own regions. -/
  ne_table : ∀ region ∈ compiled.nodes, region.node.kind.isolated?.isSome = true →
    ∀ kind : RegionKind, region.id ≠ kind.node
  data : ∀ emitted ∈ compiled.nodes, ∀ kind, emitted.node.kind.region? = some kind →
    emitted.data?.isSome = true
  tables : List.Forall₂ (fun kind layout => layout.Selects compiled (RegionKind.node kind)
      fun emitted => emitted.node.kind.region? = some kind)
    RegionKind.all (compiled.regions.take 6)
  standalone : List.Forall₂ (fun region layout => layout.Selects compiled region.id
      fun emitted => region.node.kind = .standaloneRegion emitted.id)
    (compiled.nodes.filter (·.node.kind.isolated?.isSome)) (compiled.regions.drop 6)

namespace CompiledUnit.RegionsSelect

open CompilationUnit

variable {compiled : CompiledUnit} (h : compiled.RegionsSelect)

include h

/-- A layout is that of a region of the unit, or that of a region around a single node. -/
theorem selects_of_mem {layout : RegionLayout} (hl : layout ∈ compiled.regions) :
    (∃ kind : RegionKind, layout.Selects compiled kind.node
        fun emitted => emitted.node.kind.region? = some kind) ∨
      ∃ region ∈ compiled.nodes, layout.Selects compiled region.id
        fun emitted => region.node.kind = .standaloneRegion emitted.id := by
  rw [← List.take_append_drop 6 compiled.regions, List.mem_append] at hl
  rcases hl with hl | hl
  · obtain ⟨kind, -, hselects⟩ := exists_mem_of_forall₂ h.tables hl
    exact .inl ⟨kind, hselects⟩
  · obtain ⟨region, hregion, hselects⟩ := exists_mem_of_forall₂ h.standalone hl
    exact .inr ⟨region, (List.mem_filter.1 hregion).1, hselects⟩

theorem exists_choice {layout : RegionLayout} (hl : layout ∈ compiled.regions) :
    ∃ region choice, layout.Selects compiled region choice := by
  rcases h.selects_of_mem hl with ⟨kind, hselects⟩ | ⟨region, -, hselects⟩
  · exact ⟨_, _, hselects⟩
  · exact ⟨_, _, hselects⟩

theorem map_node_tables :
    (compiled.regions.take 6).map (·.node) = RegionKind.all.map RegionKind.node :=
  map_eq_of_forall₂ (h.tables.flip.imp fun _ _ hl => hl.node)

theorem map_node_standalone :
    (compiled.regions.drop 6).map (·.node) =
      (compiled.nodes.filter (·.node.kind.isolated?.isSome)).map (·.id) :=
  map_eq_of_forall₂ (h.standalone.flip.imp fun _ _ hl => hl.node)

theorem nodup_regions : (compiled.regions.map (·.node)).Nodup := by
  rw [← List.take_append_drop 6 compiled.regions, List.map_append, h.map_node_tables,
    h.map_node_standalone]
  refine List.nodup_append'.2 ⟨by decide, h.nodup.sublist (List.filter_sublist.map _), ?_⟩
  intro id htable hstandalone
  obtain ⟨kind, -, rfl⟩ := List.mem_map.1 htable
  obtain ⟨region, hregion, hid⟩ := List.mem_map.1 hstandalone
  obtain ⟨hmem, hisolates⟩ := List.mem_filter.1 hregion
  exact h.ne_table region hmem hisolates kind hid

/-- The region of its kind is laid out around a node. -/
theorem table {emitted : EmittedNode} (he : emitted ∈ compiled.nodes) {kind : RegionKind}
    (hkind : emitted.node.kind.region? = some kind) :
    ∃ layout ∈ compiled.regions, layout.node = kind.node ∧ layout.Has emitted.id := by
  obtain ⟨layout, hl, hselects⟩ := exists_mem_of_forall₂ h.tables.flip kind.mem_all
  exact ⟨layout, List.mem_of_mem_take hl, hselects.node,
    (hselects.has_iff emitted he).2 ⟨hkind, h.data emitted he kind hkind⟩⟩

/-- A region around a node is laid out around it, if the node has data. -/
theorem alone {emitted region : EmittedNode} (he : emitted ∈ compiled.nodes)
    (hregion : region ∈ compiled.nodes)
    (haround : region.node.kind = .standaloneRegion emitted.id) :
    ∃ layout ∈ compiled.regions, layout.node = region.id ∧
      (layout.Has emitted.id ↔ emitted.data?.isSome) := by
  have hisolates : region ∈ compiled.nodes.filter (·.node.kind.isolated?.isSome) :=
    List.mem_filter.2 ⟨hregion, by rw [haround]; rfl⟩
  obtain ⟨layout, hl, hselects⟩ := exists_mem_of_forall₂ h.standalone.flip hisolates
  exact ⟨layout, List.mem_of_mem_drop hl, hselects.node,
    (hselects.has_iff emitted he).trans (and_iff_right haround)⟩

/-- Any place of a node is one of these two. -/
theorem place {layout : RegionLayout} (hl : layout ∈ compiled.regions) {emitted : EmittedNode}
    (he : emitted ∈ compiled.nodes) (hhas : layout.Has emitted.id) :
    (∃ kind, emitted.node.kind.region? = some kind ∧ layout.node = kind.node) ∨
      ∃ region ∈ compiled.nodes,
        region.node.kind = .standaloneRegion emitted.id ∧ layout.node = region.id := by
  rcases h.selects_of_mem hl with ⟨kind, hselects⟩ | ⟨region, hregion, hselects⟩
  · exact .inl ⟨kind, ((hselects.has_iff emitted he).1 hhas).1, hselects.node⟩
  · exact .inr ⟨region, hregion, ((hselects.has_iff emitted he).1 hhas).1, hselects.node⟩

/-- The choices of two regions overlap only where a region around a single node chooses what the
region of its kind has. -/
theorem apart : compiled.regions.Pairwise fun first second => ∀ emitted ∈ compiled.nodes,
    first.Has emitted.id → second.Has emitted.id →
      (∃ kind, emitted.node.kind.region? = some kind ∧ first.node = kind.node) ∧
      ∃ region ∈ compiled.nodes,
        region.node.kind = .standaloneRegion emitted.id ∧ second.node = region.id := by
  rw [← List.take_append_drop 6 compiled.regions, List.pairwise_append]
  refine ⟨?tables, ?standalone, ?both⟩
  case tables =>
    have hdistinct : RegionKind.all.Pairwise (· ≠ ·) := by decide
    refine pairwise_of_forall₂ h.tables (fun hl hl' hne emitted he hfirst hsecond => ?_) hdistinct
    have hkind := ((hl.has_iff emitted he).1 hfirst).1
    have hkind' := ((hl'.has_iff emitted he).1 hsecond).1
    exact absurd (Option.some_inj.1 (hkind.symm.trans hkind')) hne
  case standalone =>
    have hdistinct := ((h.nodup.of_map _).filter (·.node.kind.isolated?.isSome)).imp_of_mem
      (S := fun first second => first.node.kind ≠ second.node.kind)
      fun hf hs hne hsame => hne
        (h.kinds _ (List.mem_filter.1 hf).1 _ (List.mem_filter.1 hs).1 hsame)
    refine pairwise_of_forall₂ h.standalone (fun hl hl' hne emitted he hfirst hsecond => ?_)
      hdistinct
    have haround := ((hl.has_iff emitted he).1 hfirst).1
    have haround' := ((hl'.has_iff emitted he).1 hsecond).1
    exact absurd (haround.trans haround'.symm) hne
  case both =>
    intro first hf second hs emitted he hfirst hsecond
    obtain ⟨kind, -, hl⟩ := exists_mem_of_forall₂ h.tables hf
    obtain ⟨region, hregion, hl'⟩ := exists_mem_of_forall₂ h.standalone hs
    exact ⟨⟨kind, ((hl.has_iff emitted he).1 hfirst).1, hl.node⟩,
      region, (List.mem_filter.1 hregion).1, ((hl'.has_iff emitted he).1 hsecond).1, hl'.node⟩

theorem countP_tables {emitted : EmittedNode} (he : emitted ∈ compiled.nodes) :
    (compiled.regions.take 6).countP (fun layout => layout.Has emitted.id) =
      if emitted.node.kind.region?.isSome then 1 else 0 := by
  have hsame : List.Forall₂ (fun (kind : RegionKind) (layout : RegionLayout) =>
      kind.accepts emitted.node.kind = decide (layout.Has emitted.id))
      RegionKind.all (compiled.regions.take 6) := by
    refine h.tables.imp fun kind layout hl => ?_
    rw [Bool.eq_iff_iff, accepts_iff, decide_eq_true_iff, hl.has_iff emitted he]
    exact (and_iff_left_of_imp fun hkind => h.data emitted he kind hkind).symm
  rw [← countP_eq_of_forall₂ hsame]
  cases hregion : emitted.node.kind.region? with
  | none => simp [RegionKind.accepts, hregion]
  | some region => simpa using countP_accepts hregion

theorem countP_standalone {emitted : EmittedNode} (he : emitted ∈ compiled.nodes) :
    (compiled.regions.drop 6).countP (fun layout => layout.Has emitted.id) =
      if compiled.Isolates emitted.id ∧ emitted.data?.isSome then 1 else 0 := by
  have hsame : List.Forall₂ (fun (region : EmittedNode) (layout : RegionLayout) =>
      decide (region.node.kind = .standaloneRegion emitted.id ∧ emitted.data?.isSome = true) =
        decide (layout.Has emitted.id))
      (compiled.nodes.filter (·.node.kind.isolated?.isSome)) (compiled.regions.drop 6) :=
    h.standalone.imp fun region layout hl => decide_eq_decide.2 (hl.has_iff emitted he).symm
  rw [← countP_eq_of_forall₂ hsame, countP_eq_ite ((h.nodup.of_map _).filter _)]
  · refine if_congr ⟨?_, ?_⟩ rfl rfl
    · rintro ⟨region, hregion, hchoice⟩
      obtain ⟨haround, hdata⟩ := of_decide_eq_true hchoice
      exact ⟨⟨region, (List.mem_filter.1 hregion).1, haround⟩, hdata⟩
    · rintro ⟨⟨region, hregion, haround⟩, hdata⟩
      exact ⟨region, List.mem_filter.2 ⟨hregion, by rw [haround]; rfl⟩,
        decide_eq_true ⟨haround, hdata⟩⟩
  · intro first hf second hs hfirst hsecond
    exact h.kinds _ (List.mem_filter.1 hf).1 _ (List.mem_filter.1 hs).1
      ((of_decide_eq_true hfirst).1.trans (of_decide_eq_true hsecond).1.symm)

theorem placesApart : compiled.PlacesApart where
  emitted _ hl := by
    obtain ⟨region, choice, hselects⟩ := h.exists_choice hl
    exact hselects.emitted
  nodup _ hl := by
    obtain ⟨region, choice, hselects⟩ := h.exists_choice hl
    exact hselects.nodup
  distinct := h.nodup_regions
  table emitted he kind hkind := ⟨h.data emitted he kind hkind, h.table he hkind⟩
  alone _ he _ hregion haround := h.alone he hregion haround
  place _ hl _ he hhas := h.place hl he hhas
  apart := h.apart
  count emitted he := by
    rw [← List.take_append_drop 6 compiled.regions, List.countP_append, h.countP_tables he,
      h.countP_standalone he]

end CompiledUnit.RegionsSelect

namespace CompilationUnit

variable {unit : CompilationUnit} {bodies : CodeBodies} {methods : List MethodId} {s t : Image}

/-- Members are the nodes that have data. -/
theorem map_node_members (emitted : List EmittedNode) :
    (emitted.filterMap EmittedNode.member?).map (·.node) =
      (emitted.filter (·.data?.isSome)).map (·.id) := by
  induction emitted with
  | nil => rfl
  | cons head rest ih =>
    cases hdata : head.data? with
    | none =>
      have hnone : head.member? = none := by rw [EmittedNode.member?, hdata, Option.map_none]
      rw [List.filterMap_cons_none hnone, List.filter_cons_of_neg (by simp [hdata]), ih]
    | some data =>
      have hsome : head.member? =
          some ⟨head.id, head.node.symbol, data.bytes.length, data.alignment⟩ := by
        rw [EmittedNode.member?, hdata, Option.map_some]
      rw [List.filterMap_cons_some hsome, List.filter_cons_of_pos (by simp [hdata]),
        List.map_cons, List.map_cons, ih]

theorem layoutRegion_children {region : NodeId} {members : List EmittedNode}
    {layout : RegionLayout} (h : unit.layoutRegion region members s = .ok layout t) :
    layout.node = region ∧ layout.children.map (·.node) =
      (members.filter (·.data?.isSome)).map (·.id) := by
  obtain ⟨_, -, hnode, -, -, hplaces, -⟩ := layoutRegion_eq_ok h
  refine ⟨hnode, Eq.trans ?_ (map_node_members members)⟩
  exact map_eq_of_forall₂ (hplaces.imp fun child member hc => hc.node)

/-- What laying out a region around a choice of the emitted nodes gives. -/
theorem layoutRegion_selects {compiled : CompiledUnit}
    (hnodup : (compiled.nodes.map (·.id)).Nodup) {region : NodeId} {choice : EmittedNode → Bool}
    {layout : RegionLayout}
    (h : unit.layoutRegion region (compiled.nodes.filter choice) s = .ok layout t) :
    layout.Selects compiled region fun emitted => choice emitted = true := by
  obtain ⟨hnode, hchildren⟩ := layoutRegion_children h
  have hsub : (layout.children.map (·.node)).Sublist (compiled.nodes.map (·.id)) := by
    rw [hchildren]
    exact (List.filter_sublist.trans List.filter_sublist).map _
  refine ⟨hnode, hnodup.sublist hsub, fun id hid => hsub.subset hid, fun emitted he => ?_⟩
  rw [RegionLayout.Has, hchildren, List.mem_map]
  constructor
  · rintro ⟨other, hother, hid⟩
    obtain ⟨hchosen, hdata⟩ := List.mem_filter.1 hother
    obtain ⟨hmem, hchoice⟩ := List.mem_filter.1 hchosen
    obtain rfl := List.inj_on_of_nodup_map hnodup hmem he hid
    exact ⟨hchoice, hdata⟩
  · rintro ⟨hchoice, hdata⟩
    exact ⟨emitted, List.mem_filter.2 ⟨List.mem_filter.2 ⟨he, hchoice⟩, hdata⟩, rfl⟩

/-- The layout of the region, if it is one around a single node. -/
def standaloneLayout? (unit : CompilationUnit) (emitted : List EmittedNode)
    (region : EmittedNode) : ImageM (Option RegionLayout) :=
  match region.node.kind with
  | .standaloneRegion descriptor =>
    some <$> unit.layoutRegion region.id (emitted.filter fun member => member.id == descriptor)
  | _ => return none

theorem standaloneLayout?_readOnly (emitted : List EmittedNode) (region : EmittedNode) :
    ReadOnly (unit.standaloneLayout? emitted region) := by
  rw [standaloneLayout?]
  split
  · exact (layoutRegion_readOnly _ _).map some
  · exact .pure none

theorem standaloneLayout?_spec {compiled : CompiledUnit}
    (hnodup : (compiled.nodes.map (·.id)).Nodup) {region : EmittedNode}
    {layout? : Option RegionLayout}
    (h : unit.standaloneLayout? compiled.nodes region s = .ok layout? t) :
    layout?.isSome = region.node.kind.isolated?.isSome ∧
      ∀ layout ∈ layout?, layout.Selects compiled region.id fun emitted =>
        region.node.kind = .standaloneRegion emitted.id := by
  cases hk : region.node.kind with
  | standaloneRegion descriptor =>
    rw [standaloneLayout?, hk] at h
    dsimp only at h
    rw [map_eq_pure_bind] at h
    obtain ⟨built, u, hlayout, hbuilt⟩ := bind_eq_ok.1 h
    obtain ⟨rfl, -⟩ := pure_eq_ok.1 hbuilt
    refine ⟨rfl, fun layout hl => ?_⟩
    cases hl
    have hselects := layoutRegion_selects hnodup hlayout
    refine ⟨hselects.node, hselects.nodup, hselects.emitted, fun emitted he => ?_⟩
    rw [hselects.has_iff emitted he, beq_iff_eq, NodeKind.standaloneRegion.injEq, eq_comm]
  | _ =>
    rw [standaloneLayout?, hk] at h
    obtain ⟨rfl, -⟩ := pure_eq_ok.1 h
    exact ⟨rfl, nofun⟩

/-- After the regions of the unit those around single nodes are laid out, in order of emission. -/
theorem layoutRegions_standalone {closure : Closure NodeId} {compiled : CompiledUnit}
    (hmarked : ∀ kind : RegionKind, closure.contains kind.node = true)
    (hnodup : (compiled.nodes.map (·.id)).Nodup)
    (h : unit.layoutRegions closure compiled.nodes s = .ok compiled.regions t) :
    List.Forall₂ (fun region layout => layout.Selects compiled region.id fun emitted =>
        region.node.kind = .standaloneRegion emitted.id)
      (compiled.nodes.filter (·.node.kind.isolated?.isSome)) (compiled.regions.drop 6) := by
  obtain ⟨tables, u, htables, hrest⟩ := bind_eq_ok.1 h
  obtain ⟨standalone, v, hstandalone, hlast⟩ := bind_eq_ok.1 hrest
  have hregions : compiled.regions = tables ++ standalone := (pure_eq_ok.1 hlast).1.symm
  rw [List.filter_eq_self.2 fun kind _ => hmarked kind] at htables
  obtain ⟨rfl, hall⟩ := mapM_same (fun kind _ layout w hl => (layoutRegion_readOnly _ _).same hl)
    htables
  have hlength : tables.length = 6 := hall.length_eq.symm
  rw [hregions, List.drop_left' hlength]
  have hfound := filterMapM_same (p := (·.node.kind.isolated?.isSome))
    (standaloneLayout?_readOnly compiled.nodes)
    (fun _ _ _ hl => (standaloneLayout?_spec hnodup hl).1) hstandalone
  exact hfound.imp fun _ layout hl => (standaloneLayout?_spec hnodup hl).2 layout rfl

/-! ## Compiled units -/

/-- In a unit that is compiled after any other calls, every node of a kind with a region is placed
once among all of its kind, every node with data and a region around it once alone, and no node
anywhere else. -/
theorem compile_places_apart {base : Program} {calls : List FactoryCall} {output : CompiledUnit}
    {final : Image}
    (h : unit.compile bodies methods (FactoryCall.after unit calls (.initial unit.config base)) =
      .ok output final) : output.PlacesApart := by
  have hs : (FactoryCall.after unit calls (.initial unit.config base)).ByCaches unit base :=
    (FactoryCall.after_keeps calls ⟨_, .initial⟩).2
  obtain ⟨_, hcached⟩ := hs.compile h
  obtain ⟨closure, hmark, -, hnodes, hlayout, -⟩ := compile_spec h
  have hnodup := compile_nodup h
  have hmarked := mark_contains_regions hmark
  have hselects : output.RegionsSelect := by
    refine ⟨hnodup, fun first hf second hsecond => eq_of_kind_eq hs h hf hsecond,
      fun region hregion hisolates kind hid => ?_, fun emitted he kind hkind => ?_,
      (layoutRegions_spec hmarked hlayout).imp fun kind layout hl => ?_,
      layoutRegions_standalone hmarked hnodup hlayout⟩
    · have hn := regionNode_of_initial_le hcached.consistent.initial_le kind
      rw [← hid, (hnodes region hregion).1] at hn
      rw [Option.some.inj hn] at hisolates
      cases hisolates
    · obtain ⟨hn, hpayload⟩ := hnodes emitted he
      obtain ⟨data, hdata, -⟩ := payload_of_region? hn hkind hpayload
      rw [hdata, Option.isSome_some]
    · simpa only [accepts_iff] using layoutRegion_selects hnodup hl
  exact hselects.placesApart

/-- The descriptor of the static fields is made, and a region around it. -/
def isolatingCalls : List FactoryCall :=
  [.node (.gcStaticDesc ⟨2⟩ false), .node (.standaloneRegion ⟨11⟩)]

/-- The entry point requests that region. -/
def isolatingBodies : CodeBodies := ⟨[(⟨5⟩, [.node ⟨12⟩])]⟩

theorem counter_places_apart : ∃ output final,
    counterUnit.compile isolatingBodies [⟨5⟩]
        (FactoryCall.after counterUnit isolatingCalls
          (.initial counterUnit.config counterProgram)) = .ok output final ∧
      output.PlacesApart := by
  have hrun : succeeds (counterUnit.compile isolatingBodies [⟨5⟩]
      (FactoryCall.after counterUnit isolatingCalls
        (.initial counterUnit.config counterProgram))) = true := by decide +kernel
  obtain ⟨output, final, h⟩ := exists_ok_of_succeeds hrun
  exact ⟨output, final, h, compile_places_apart h⟩

/-- The descriptor has two places then. -/
theorem counter_places_twice : ∃ output final,
    counterUnit.compile isolatingBodies [⟨5⟩]
        (FactoryCall.after counterUnit isolatingCalls
          (.initial counterUnit.config counterProgram)) = .ok output final ∧
      ∃ first ∈ output.regions, ∃ second ∈ output.regions, first ≠ second ∧
        ∃ emitted ∈ output.nodes, first.Has emitted.id ∧ second.Has emitted.id := by
  have hrun : succeedsWith (fun (output : CompiledUnit) _ => decide <|
      ∃ first ∈ output.regions, ∃ second ∈ output.regions, first ≠ second ∧
        ∃ emitted ∈ output.nodes, first.Has emitted.id ∧ second.Has emitted.id)
      (counterUnit.compile isolatingBodies [⟨5⟩]
        (FactoryCall.after counterUnit isolatingCalls
          (.initial counterUnit.config counterProgram))) = true := by decide +kernel
  obtain ⟨output, final, h, htwice⟩ := exists_ok_of_succeedsWith hrun
  exact ⟨output, final, h, of_decide_eq_true htwice⟩

end CompilationUnit

end NativeImage
