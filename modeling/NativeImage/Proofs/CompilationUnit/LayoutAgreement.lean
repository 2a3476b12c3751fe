import NativeImage.Proofs.CompilationUnit.Marking
import NativeImage.Proofs.CompilationUnit.PayloadAgreement

/-!
# Compiling twin images

Twin images are compiled to the same contents: the same symbols with the same data in the same
order, the same header and the same regions. Only handles differ.

## Main definitions

- `RegionContents`, `CompiledUnit.Contents` — what is left of a region and of a compiled unit when
  handles are dropped

## Main statements

- `CompilationUnit.layoutRegions_agrees` — regions
- `CompilationUnit.compile_agrees` — compiled units
-/

namespace NativeImage

open Program Image ImageM

/-! ## Contents -/

/-- What is left of a region when handles are dropped. -/
structure RegionContents where
  startSymbol : String
  endSymbol : String
  alignment : Nat
  /-- Symbol, offset and size of every entry. -/
  children : List (String × Nat × Nat)
  endOffset : Nat
  deriving DecidableEq, Repr

/-- Symbol, size and alignment of an entry before it is placed. -/
def RegionMember.contents (member : RegionMember) : String × Nat × Nat :=
  (member.symbol, member.size, member.alignment)

def RegionChild.contents (child : RegionChild) : String × Nat × Nat :=
  (child.symbol, child.offset, child.size)

def RegionLayout.contents (layout : RegionLayout) : RegionContents where
  startSymbol := layout.startSymbol
  endSymbol := layout.endSymbol
  alignment := layout.alignment
  children := layout.children.map RegionChild.contents
  endOffset := layout.endOffset

/-- Regions that differ in handles only. -/
def RegionLayout.Same (layout layout' : RegionLayout) : Prop := layout.contents = layout'.contents

/-- What is left of a compiled unit when handles are dropped. -/
structure CompiledUnit.Contents where
  /-- Symbols with their data, in the order of emission. -/
  nodes : List (String × Option ObjectData)
  header : List (Section × String × Option String)
  regions : List RegionContents
  rounds : Nat
  deriving DecidableEq, Repr

def CompiledUnit.contents (compiled : CompiledUnit) : CompiledUnit.Contents where
  nodes := compiled.nodes.map fun emitted => (emitted.node.symbol, emitted.data?)
  header := compiled.header.listing
  regions := compiled.regions.map RegionLayout.contents
  rounds := compiled.rounds

namespace RegionLayout

variable {members members' : List RegionMember}

/-- Entries are placed by their sizes and alignments. -/
theorem place_outcome (region : String) (alignment offset : Nat)
    (h : List.Forall₂ (fun m m' => m.contents = m'.contents) members members') :
    Outcome (fun r r' => r.1.map RegionChild.contents = r'.1.map RegionChild.contents ∧ r.2 = r'.2)
      (place region alignment offset members) (place region alignment offset members') := by
  induction h generalizing offset with
  | nil => exact .ok ⟨rfl, rfl⟩
  | @cons m m' rest rest' hm hrest ih =>
    obtain ⟨node, symbol, size, align⟩ := m
    obtain ⟨node', symbol', size', align'⟩ := m'
    obtain ⟨rfl, rfl, rfl⟩ : symbol = symbol' ∧ size = size' ∧ align = align' := by
      simpa [RegionMember.contents] using hm
    have hfits : RegionMember.Fits alignment offset ⟨node, symbol, size, align⟩ ↔
        RegionMember.Fits alignment offset ⟨node', symbol, size, align⟩ := Iff.rfl
    rw [place, place]
    by_cases hfit : RegionMember.Fits alignment offset ⟨node, symbol, size, align⟩
    · rw [if_neg (not_not_intro hfit), if_neg (not_not_intro (hfits.1 hfit))]
      by_cases hlarge : maxWord32 < offset + size
      · rw [if_pos hlarge, if_pos hlarge]
        exact .error _
      · rw [if_neg hlarge, if_neg hlarge]
        have hplaced := ih (offset + size)
        generalize place region alignment (offset + size) rest = placed at hplaced ⊢
        generalize place region alignment (offset + size) rest' = placed' at hplaced ⊢
        cases hplaced with
        | error e => exact .error e
        | ok h =>
          refine .ok ⟨?_, h.2⟩
          rw [List.map_cons, List.map_cons, h.1]
          rfl
    · rw [if_pos hfit, if_pos fun h => hfit (hfits.2 h)]
      exact .error _

theorem build_outcome (node node' : NodeId) (startSymbol endSymbol : String) (alignment : Nat)
    (h : List.Forall₂ (fun m m' => m.contents = m'.contents) members members') :
    Outcome Same (build node startSymbol endSymbol alignment members)
      (build node' startSymbol endSymbol alignment members') := by
  have hplace := place_outcome startSymbol alignment 0 h
  rw [build, build]
  generalize place startSymbol alignment 0 members = placed at hplace ⊢
  generalize place startSymbol alignment 0 members' = placed' at hplace ⊢
  cases hplace with
  | error e => exact .error e
  | ok h =>
    refine .ok ?_
    rw [Same, contents, contents, RegionContents.mk.injEq]
    exact ⟨rfl, rfl, rfl, h.1, h.2⟩

end RegionLayout

/-- Matching nodes are entered in a region alike. -/
theorem EmittedNode.Match.member? {base : Program} {s t : Image} {e e' : EmittedNode}
    (h : e.Match base s t e') :
    Option.Rel (fun m m' => m.contents = m'.contents) e.member? e'.member? := by
  rw [EmittedNode.member?, EmittedNode.member?, h.data?, h.symbol]
  cases e'.data? with
  | none => exact .none
  | some data => exact .some rfl

/-- The region of matching kinds is the same. -/
theorem NodeKind.Match.region?_eq {T : TypeId → TypeId → Prop} {M : MethodId → MethodId → Prop}
    {N : NodeId → NodeId → Prop} {k k' : NodeKind} (h : k.Match T M N k') :
    k.region? = k'.region? := by
  cases h with
  | @gcStaticDesc x x' thread => cases thread <;> rfl
  | _ => rfl

/-! ## Regions of twins -/

theorem Closure.contains_iff {Node : Type} [DecidableEq Node] {c : Closure Node} {node : Node} :
    c.contains node = true ↔ node ∈ c.expanded.map (·.1) := by
  simp [contains]

namespace CompilationUnit

variable {unit : CompilationUnit} {base : Program} {attached : Bool} {s t : Image}
  {emitted emitted' : List EmittedNode}

theorem layoutRegion_agrees (hr : Twins unit base attached s t) {a b : NodeId}
    (h : NodeMatch base s t a b)
    (hall : List.Forall₂ (EmittedNode.Match base s t) emitted emitted') :
    Agree (Twins unit base attached) (fun _ _ => RegionLayout.Same) (unit.layoutRegion a emitted)
      (unit.layoutRegion b emitted') s t := by
  obtain ⟨x, y, hx, hy, hsymbol, hend⟩ := hr.symbols h
  have hmembers := List.rel_filterMap (fun _ _ he => EmittedNode.Match.member? he) hall
  have hbuild := RegionLayout.build_outcome a b x.symbol (x.endSymbol?.getD "") unit.pointerSize
    hmembers
  refine .read (node_eq_ok.2 ⟨hx, rfl⟩) (node_eq_ok.2 ⟨hy, rfl⟩) ?_
  rw [← hsymbol, ← hend]
  generalize RegionLayout.build a _ _ _ _ = built at hbuild ⊢
  generalize RegionLayout.build b _ _ _ _ = built' at hbuild ⊢
  cases hbuild with
  | error e => exact .throw hr
  | ok h => exact .pure hr h

/-- The regions of matching closures have the same contents. -/
theorem layoutRegions_agrees (hr : Twins unit base attached s t) {c c' : Closure NodeId}
    (hc : c.Match (NodeMatch base s t) c')
    (hall : List.Forall₂ (EmittedNode.Match base s t) emitted emitted') :
    Agree (Twins unit base attached) (fun _ _ => List.Forall₂ RegionLayout.Same)
      (unit.layoutRegions c emitted) (unit.layoutRegions c' emitted') s t := by
  have htable {s t : Image} (hr : Twins unit base attached s t) (kind : RegionKind) :
      NodeMatch base s t kind.node kind.node := by
    have hk : (tableKinds unit.config.arch.decoration)[kind.node.index]? = some (.region kind) := by
      cases kind <;> rfl
    exact (hr.table hk).1
  have hmarked : (RegionKind.all.filter fun kind => c.contains kind.node) =
      RegionKind.all.filter fun kind => c'.contains kind.node := by
    refine List.filter_congr fun kind _ => ?_
    rw [Bool.eq_iff_iff, Closure.contains_iff, Closure.contains_iff]
    exact List.rel_mem hr.biUnique (htable hr kind) hc.expanded
  have hsame : List.Forall₂ Eq (RegionKind.all.filter fun kind => c'.contains kind.node)
      (RegionKind.all.filter fun kind => c'.contains kind.node) := List.forall₂_refl _
  rw [layoutRegions, layoutRegions, hmarked]
  refine (Agree.mapM (P := fun _ _ => Eq) (W := fun _ _ => RegionLayout.Same) (lasting_const Eq)
    (lasting_const _) (fun {kind kind' _ _} hs ht hr h => ?_) hr hsame).bind
    fun hs ht hr htables => ?_
  · subst h
    have hall := hall.imp fun _ _ h => EmittedNode.match_lasting base h hs ht
    refine layoutRegion_agrees hr (htable hr kind) (List.rel_filter (fun e e' he => ?_) hall)
    show kind.accepts e.node.kind = true ↔ kind.accepts e'.node.kind = true
    rw [RegionKind.accepts, RegionKind.accepts, he.kind.region?_eq]
  · have hall := hall.imp fun _ _ h => EmittedNode.match_lasting base h hs ht
    refine (Agree.filterMapM (P := EmittedNode.Match base) (W := fun _ _ => RegionLayout.Same)
      (EmittedNode.match_lasting base) (lasting_const _) (fun {e e' _ _} hs ht hr he => ?_) hr
      hall).bind fun _ _ hr hstandalone => .pure hr (List.rel_append htables hstandalone)
    have hall := hall.imp fun _ _ h => EmittedNode.match_lasting base h hs ht
    have hid := he.id
    have hkind := he.kind
    generalize e.node.kind = k at hkind ⊢
    generalize e'.node.kind = k' at hkind ⊢
    cases hkind with
    | standaloneRegion hd =>
      refine (layoutRegion_agrees hr hid (List.rel_filter (fun f f' hf => ?_) hall)).map
        fun _ _ _ h => .some h
      show (f.id == _) = true ↔ (f'.id == _) = true
      rw [beq_iff_eq, beq_iff_eq]
      exact Relator.rel_eq hr.biUnique hf.id hd
    | _ => exact .pure hr .none

/-- Twin images are compiled to the same contents. -/
theorem compile_agrees (hr : Twins unit base false s t) {bodies : CodeBodies}
    (hbodies : bodies.Over base) {methods : List MethodId}
    (hmethods : ∀ method ∈ methods, base.HasMethod method) :
    Agree (Twins unit base true)
      (fun _ _ compiled compiled' => compiled.contents = compiled'.contents)
      (unit.compile bodies methods) (unit.compile bodies methods) s t := by
  refine (mark_agrees hr hbodies hmethods).bind fun {c c' _ _} _ _ hr hc => ?_
  refine (Agree.mapM (P := NodeMatch base) (W := EmittedNode.Match base)
    (fun h hs ht => h.mono hs ht)
    (EmittedNode.match_lasting base) (fun _ _ hr h => emit_agrees hr h) hr hc.nodes).bind
    fun {emitted emitted' _ _} hs ht hr hall => ?_
  have hc : c.Match (NodeMatch base _ _) c' :=
    ⟨hc.expanded.imp fun _ _ h => h.mono hs ht, hc.frontier.imp fun _ _ h => h.mono hs ht,
      hc.rounds⟩
  refine (layoutRegions_agrees hr hc hall).bind fun {regions regions' _ _} _ _ hr hregions => ?_
  refine agree_attachment hr fun {a a'} hmatch => .pure hr ?_
  have hnodes : (emitted.map fun e => (e.node.symbol, e.data?)) =
      emitted'.map fun e => (e.node.symbol, e.data?) :=
    map_eq_of_forall₂ (hall.imp fun e e' he => by rw [he.symbol, he.data?])
  have hlayouts : regions.map RegionLayout.contents = regions'.map RegionLayout.contents :=
    map_eq_of_forall₂ hregions
  rw [CompiledUnit.contents, CompiledUnit.contents, CompiledUnit.Contents.mk.injEq]
  exact ⟨hnodes, hmatch.listing, hlayouts, hc.rounds⟩

end CompilationUnit

end NativeImage
