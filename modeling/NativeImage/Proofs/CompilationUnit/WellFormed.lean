import NativeImage.Proofs.CompilationUnit.Naming

/-!
# Well-formed images

What holds of the nodes of every image that a unit has: no kind occurs twice, symbols are those of
the kind, and whatever a node holds is older than the node and of lower rank. Only regions around
single descriptors may hold anything.

## Main definitions

- `NodeKind.rank` — bounds how long nodes can lead from one to the next
- `Image.WellFormed` — the invariant

## Main statements

- `Image.initial_wellFormed`, `Image.WellFormed.push` — images are well-formed from the start, and
  stay so when a node of a new kind is appended
-/

namespace NativeImage

namespace NodeKind

/-- Kinds of the nodes that an attachment brings. -/
def isAttached : NodeKind → Bool
  | header | modulesSection | metadataBlob => true
  | _ => false

def isStandalone : NodeKind → Bool
  | standaloneRegion _ => true
  | _ => false

/-- A node has a higher rank than whatever it needs without a body that asks for it. -/
def rank : NodeKind → Nat
  | methodCode ⟨_, false⟩ | threadStaticsOffset _ | gcStaticBase _ | tlsDirectory => 1
  | methodCode ⟨_, true⟩ | unboxingStub .. | eagerConstructor _ | header
  | helper (.gcStaticBase _) | helper (.threadStaticBase _) => 2
  | shadowMethod .. | fatPointer .. | modulesSection => 3
  | helper (.delegate _) => 4
  | standaloneRegion _ => 5
  | externMethod _ | runtimeImport _ | externSymbol _ | gcStaticDesc .. | threadStaticsBlock _
  | dictionaryLayout _ | region _ | threadStaticsIndex | typeManagerIndirection
  | metadataBlob => 0

namespace Match

variable {T : TypeId → TypeId → Prop} {M : MethodId → MethodId → Prop}
  {N : NodeId → NodeId → Prop} {k k' : NodeKind} (h : Match T M N k k')
include h

theorem rank_eq : k.rank = k'.rank := by
  cases h with
  | @methodCode m m' unboxing => cases unboxing <;> rfl
  | _ => rfl

theorem isStandalone_eq : k.isStandalone = k'.isStandalone := by
  cases h <;> rfl

theorem isAttached_eq : k.isAttached = k'.isAttached := by
  cases h <;> rfl

/-- A kind matches itself, up to the handles that have a relative. -/
theorem left : Match (fun x y => x = y ∧ ∃ z, T x z) (fun x y => x = y ∧ ∃ z, M x z)
    (fun a b => a = b ∧ ∃ c, N a c) k k := by
  cases h with
  | delegateHelper hi ha ht =>
    refine .delegateHelper ⟨rfl, _, hi⟩ ⟨rfl, _, ha⟩ ?_
    cases ht with
    | none => exact .none
    | some h => exact .some ⟨rfl, _, h⟩
  | _ => constructor <;> exact ⟨rfl, _, ‹_›⟩

end Match

end NodeKind

namespace Image

/-- The node is of a lower rank. -/
def RankBelow (s : Image) (rank : Nat) (a : NodeId) : Prop :=
  ∃ x, s.nodes[a.index]? = some x ∧ x.kind.rank < rank

/-- A node of the kind may hold this one. -/
def MayHold (s : Image) (kind : NodeKind) (a : NodeId) : Prop :=
  ∃ x, s.nodes[a.index]? = some x ∧ (kind.isStandalone = false → x.kind.rank < kind.rank)

variable {s t : Image}

theorem RankBelow.mono {rank : Nat} {a : NodeId} (h : s.RankBelow rank a) (hst : s ≤ t) :
    t.RankBelow rank a := by
  obtain ⟨x, hx, hlt⟩ := h
  exact ⟨x, hst.nodes _ _ hx, hlt⟩

theorem RankBelow.weaken {rank rank' : Nat} {a : NodeId} (h : s.RankBelow rank a)
    (hle : rank ≤ rank') : s.RankBelow rank' a := by
  obtain ⟨x, hx, hlt⟩ := h
  exact ⟨x, hx, Nat.lt_of_lt_of_le hlt hle⟩

theorem MayHold.mono {kind : NodeKind} {a : NodeId} (h : s.MayHold kind a) (hst : s ≤ t) :
    t.MayHold kind a := by
  obtain ⟨x, hx, hlt⟩ := h
  exact ⟨x, hst.nodes _ _ hx, hlt⟩

/-- What nodes of a kind may refer to, as a node of such a kind that matches itself. -/
def Refers (s : Image) (id : NodeId) (kind : NodeKind) : Prop :=
  kind.Match (fun x y => x = y ∧ s.program.HasType x) (fun x y => x = y ∧ s.program.HasMethod x)
    (fun a b => a = b ∧ a.index < id.index ∧ s.MayHold kind a) kind

theorem Refers.mono {id : NodeId} {kind : NodeKind} (h : s.Refers id kind) (hst : s ≤ t) :
    t.Refers id kind :=
  h.imp (fun h => ⟨h.1, h.2.mono hst.program⟩) (fun h => ⟨h.1, h.2.mono hst.program⟩)
    fun h => ⟨h.1, h.2.1, h.2.2.mono hst⟩

/-- The invariant of a unit's images. -/
structure WellFormed (unit : CompilationUnit) (base : Program) (s : Image) : Prop where
  program : Program.Extension base s.program
  initial_le : Image.initial unit.config base ≤ s
  kinds : s.KindsDiffer
  symbols : ∀ {id : NodeId} {x}, s.nodes[id.index]? = some x →
    unit.symbolsOf x.kind s = .ok (x.symbol, x.endSymbol?) s
  refers : ∀ {id : NodeId} {x}, s.nodes[id.index]? = some x → s.Refers id x.kind
  unattached : s.attachment? = none → ∀ {id : NodeId} {x}, s.nodes[id.index]? = some x →
    x.kind.isAttached = false

/-! ## The tables of a unit -/

/-- The kinds of the tables. -/
def tableKinds (decoration : String) : List NodeKind :=
  RegionKind.all.map .region ++ [.threadStaticsIndex, .tlsDirectory,
    .externSymbol (tlsStartSymbol decoration), .externSymbol (tlsEndSymbol decoration),
    .typeManagerIndirection]

theorem nodup_tableKinds (arch : Arch) : (tableKinds arch.decoration).Nodup := by
  cases arch <;> decide

theorem map_kind_tableNodes (config : UnitConfig) :
    config.tableNodes.map (·.kind) = tableKinds config.arch.decoration := rfl

theorem tableKinds_of_tableNodes {config : UnitConfig} {i : Nat} {x : Node}
    (h : config.tableNodes[i]? = some x) :
    (tableKinds config.arch.decoration)[i]? = some x.kind := by
  rw [← map_kind_tableNodes, List.getElem?_map, h]
  rfl

@[elab_as_elim]
theorem tableKinds_cases {P : NodeKind → Prop} {decoration : String} {kind : NodeKind}
    (h : kind ∈ tableKinds decoration) (region : ∀ region, P (.region region))
    (threadStaticsIndex : P .threadStaticsIndex) (tlsDirectory : P .tlsDirectory)
    (externSymbol : ∀ name, P (.externSymbol name))
    (typeManagerIndirection : P .typeManagerIndirection) : P kind := by
  rw [tableKinds, List.mem_append, List.mem_map] at h
  obtain ⟨kind, -, rfl⟩ | h := h
  · exact region kind
  · simp only [List.mem_cons, List.not_mem_nil, or_false] at h
    obtain rfl | rfl | rfl | rfl | rfl := h
    · exact threadStaticsIndex
    · exact tlsDirectory
    · exact externSymbol _
    · exact externSymbol _
    · exact typeManagerIndirection

/-- What holds no handle matches itself. -/
theorem match_of_mem_tableKinds {decoration : String} {kind : NodeKind}
    (h : kind ∈ tableKinds decoration) (T : TypeId → TypeId → Prop) (M : MethodId → MethodId → Prop)
    (N : NodeId → NodeId → Prop) : kind.Match T M N kind :=
  tableKinds_cases h .region .threadStaticsIndex .tlsDirectory .externSymbol
    .typeManagerIndirection

/-- Tables are there before the unit is attached, and lead no further than to other tables. -/
theorem rank_of_mem_tableKinds {decoration : String} {kind : NodeKind}
    (h : kind ∈ tableKinds decoration) : kind.isAttached = false ∧ kind.rank < 2 :=
  tableKinds_cases h (fun _ => ⟨rfl, Nat.zero_lt_two⟩) ⟨rfl, Nat.zero_lt_two⟩
    ⟨rfl, Nat.one_lt_two⟩ (fun _ => ⟨rfl, Nat.zero_lt_two⟩) ⟨rfl, Nat.zero_lt_two⟩

theorem symbolsOf_tableNodes (unit : CompilationUnit) {x : Node}
    (h : x ∈ unit.config.tableNodes) (s : Image) :
    unit.symbolsOf x.kind s = .ok (x.symbol, x.endSymbol?) s := by
  rw [UnitConfig.tableNodes, List.mem_append, List.mem_map] at h
  obtain ⟨region, -, rfl⟩ | h := h
  · rfl
  · simp only [List.mem_cons, List.not_mem_nil, or_false] at h
    obtain rfl | rfl | rfl | rfl | rfl := h <;> rfl

/-- The nodes of an image that holds nothing else are the tables. -/
theorem tableNodes_of_initial {config : UnitConfig} {base : Program} {id : NodeId} {x : Node}
    (h : (Image.initial config base).nodes[id.index]? = some x) :
    config.tableNodes[id.index]? = some x := by
  rw [Image.initial, List.getElem?_toArray] at h
  exact h

theorem kind_mem_of_initial {config : UnitConfig} {base : Program} {id : NodeId} {x : Node}
    (h : (Image.initial config base).nodes[id.index]? = some x) :
    x.kind ∈ tableKinds config.arch.decoration :=
  List.mem_of_getElem? (tableKinds_of_tableNodes (tableNodes_of_initial h))

theorem initial_kindsDiffer (config : UnitConfig) (base : Program) :
    (Image.initial config base).KindsDiffer := by
  intro a b x y hx hy hxy
  have hx := tableKinds_of_tableNodes (tableNodes_of_initial hx)
  have hy := tableKinds_of_tableNodes (tableNodes_of_initial hy)
  obtain ⟨hlt, -⟩ := List.getElem?_eq_some_iff.1 hx
  have hsame := hx.trans ((congrArg some hxy).trans hy.symm)
  have hindex := (List.getElem?_inj hlt (nodup_tableKinds _)).1 hsame
  cases a
  cases b
  exact congrArg NodeId.mk hindex

/-- An image that holds the tables only is well-formed. -/
theorem initial_wellFormed (unit : CompilationUnit) {base : Program} (hb : base.WellFormed) :
    (Image.initial unit.config base).WellFormed unit base where
  program := .refl hb
  initial_le := le_rfl
  kinds := initial_kindsDiffer unit.config base
  symbols hx := symbolsOf_tableNodes unit (List.mem_of_getElem? (tableNodes_of_initial hx)) _
  refers hx := match_of_mem_tableKinds (kind_mem_of_initial hx) _ _ _
  unattached _ _ _ hx := (rank_of_mem_tableKinds (kind_mem_of_initial hx)).1

/-! ## What keeps images well-formed -/

variable {unit : CompilationUnit} {base : Program}

/-- The tables stay where they are. -/
theorem WellFormed.table (h : s.WellFormed unit base) {i : Nat} {x : Node}
    (hx : unit.config.tableNodes[i]? = some x) : s.nodes[i]? = some x := by
  refine h.initial_le.nodes _ _ ?_
  rw [Image.initial, List.getElem?_toArray]
  exact hx

theorem nodes_push {x y : Node} {id : NodeId} : (s.nodes.push x)[id.index]? = some y ↔
    s.nodes[id.index]? = some y ∨ (id = ⟨s.nodes.size⟩ ∧ y = x) := by
  rw [Array.getElem?_push]
  by_cases h : id.index = s.nodes.size
  · have hnone : s.nodes[id.index]? = none := by
      rw [Array.getElem?_eq_none_iff]
      omega
    have hid : id = ⟨s.nodes.size⟩ := by
      cases id
      exact congrArg NodeId.mk h
    simp [hid, eq_comm]
  · have hid : id ≠ ⟨s.nodes.size⟩ := fun heq => h (congrArg NodeId.index heq)
    simp [h, hid]

/-- Nodes stay as they were when the rest of the image grows. -/
theorem WellFormed.grow (h : s.WellFormed unit base) (hst : s ≤ t) (hnodes : t.nodes = s.nodes)
    (hprogram : Program.Extension base t.program)
    (hattached : t.attachment? = none → s.attachment? = none) : t.WellFormed unit base where
  program := hprogram
  initial_le := h.initial_le.trans hst
  kinds := by
    rw [KindsDiffer, hnodes]
    exact h.kinds
  symbols hx := by
    rw [hnodes] at hx
    exact (unit.symbolsOf_settles _).again (h.symbols hx) hst
  refers hx := by
    rw [hnodes] at hx
    exact (h.refers hx).mono hst
  unattached hn _ _ hx := by
    rw [hnodes] at hx
    exact h.unattached (hattached hn) hx

/-- Kinds go on being different when a node of a new one is appended. -/
theorem KindsDiffer.push (h : s.KindsDiffer) {x : Node}
    (hfresh : ∀ {id : NodeId} {y}, s.nodes[id.index]? = some y → y.kind ≠ x.kind) :
    KindsDiffer { s with nodes := s.nodes.push x } := by
  intro a b y z hy hz hyz
  rcases nodes_push.1 hy with hold | ⟨rfl, rfl⟩
  · rcases nodes_push.1 hz with hold' | ⟨rfl, rfl⟩
    · exact h hold hold' hyz
    · exact absurd hyz (hfresh hold)
  · rcases nodes_push.1 hz with hold' | ⟨rfl, rfl⟩
    · exact absurd hyz.symm (hfresh hold')
    · rfl

/-- A node of a new kind may be appended. -/
theorem WellFormed.push (h : s.WellFormed unit base) {x : Node}
    (hfresh : ∀ {id : NodeId} {y}, s.nodes[id.index]? = some y → y.kind ≠ x.kind)
    (hsymbols : unit.symbolsOf x.kind s = .ok (x.symbol, x.endSymbol?) s)
    (hrefers : s.Refers ⟨s.nodes.size⟩ x.kind)
    (hattached : s.attachment? = none → x.kind.isAttached = false) :
    WellFormed unit base { s with nodes := s.nodes.push x } := by
  have hle := ImageM.le_pushNode s x
  refine ⟨h.program, h.initial_le.trans hle, KindsDiffer.push h.kinds hfresh, fun hy => ?_,
    fun hy => ?_, fun hn {id y} hy => ?_⟩
  · rcases nodes_push.1 hy with hold | ⟨rfl, rfl⟩
    · exact (unit.symbolsOf_settles _).again (h.symbols hold) hle
    · exact (unit.symbolsOf_settles _).again hsymbols hle
  · rcases nodes_push.1 hy with hold | ⟨rfl, rfl⟩
    · exact (h.refers hold).mono hle
    · exact hrefers.mono hle
  · rcases nodes_push.1 hy with hold | ⟨rfl, rfl⟩
    · exact h.unattached hn hold
    · exact hattached hn

end Image

end NativeImage
