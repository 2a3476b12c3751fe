import NativeImage.Proofs.CompilationUnit.Expansion

/-!
# Data of twin images

The data of matching nodes is the same: it holds no handles, only numbers that the program fixes and
symbols, which matching nodes share.

## Main definitions

- `EmittedNode.Match` — emitted nodes that mean the same

## Main statements

- `CompilationUnit.payloadEmissions_agrees`, `CompilationUnit.payload_agrees` — data
- `CompilationUnit.emit_agrees` — nodes with their data
-/

namespace NativeImage

open Program Image ImageM

namespace CompilationUnit

variable {unit : CompilationUnit} {base : Program} {attached : Bool} {s t : Image}

/-! ## Numbers -/

theorem word32_agrees {R : Image → Image → Prop} (hr : R s t) (value : Nat) :
    Agree R (fun _ _ word word' => word = word') (word32 value) (word32 value) s t := by
  rw [word32]
  split
  · exact .pure hr rfl
  · exact .throw hr

theorem seriesEmissions_agrees {R : Image → Image → Prop} (hr : R s t) (pointerSize : Nat)
    (slots : List Nat) :
    Agree R (fun _ _ steps steps' => steps = steps') (seriesEmissions pointerSize slots)
      (seriesEmissions pointerSize slots) s t := by
  have hsame : List.Forall₂ Eq (pointerSeries pointerSize slots)
      (pointerSeries pointerSize slots) := List.forall₂_refl _
  refine (Agree.mapM (P := fun _ _ => Eq) (W := fun _ _ => Eq) (lasting_const Eq) (lasting_const Eq)
    (fun {series series' _ _} _ _ hr h => ?_) hr hsame).bind fun _ _ hr hentries => ?_
  · subst h
    refine (word32_agrees hr _).bind fun _ _ hr hsize => ?_
    refine (word32_agrees hr _).bind fun _ _ hr hoffset => ?_
    exact .pure hr (by rw [hsize, hoffset])
  · rw [List.forall₂_eq_eq_eq] at hentries
    exact .pure hr (by rw [hentries])

/-! ## Data of single kinds -/

/-- What is read first as a node's symbol. -/
theorem agree_symbolOf {γ δ : Type} {V : Image → Image → γ → δ → Prop} {rank : Nat}
    {x y : ImageM NodeId} {f : String → ImageM γ} {g : String → ImageM δ}
    (h : Agree (Twins unit base attached) (Found base rank) x y s t)
    (hf : ∀ {s' t'} name, Twins unit base attached s' t' →
      Agree (Twins unit base attached) V (f name) (g name) s' t') :
    Agree (Twins unit base attached) V (do f (← symbol (← x))) (do g (← symbol (← y))) s t :=
  h.bind fun _ _ hr hab => agree_symbol hr hab.1 fun name => hf name hr

/-- The steps that write the data of matching nodes are the same. -/
theorem payloadEmissions_agrees (hr : Twins unit base attached s t) {k k' : NodeKind}
    (hk : k.Match (TypeMatch base s.program t.program) (MethodMatch base s.program t.program)
      (NodeMatch base s t) k') :
    Agree (Twins unit base attached) (fun _ _ steps? steps'? => steps? = steps'?)
      (unit.payloadEmissions k) (unit.payloadEmissions k') s t := by
  cases hk with
  | @gcStaticDesc x x' thread h =>
    obtain ⟨dx, dy, hx, hy, hagree⟩ := h.desc hr.left.program hr.right.program
    refine agree_ask hx hy ?_
    rw [hagree.statics_eq]
    refine (seriesEmissions_agrees hr _ _).bind fun _ _ hr hsteps => .pure hr ?_
    rw [hsteps]
  | gcStaticBase h =>
    obtain ⟨dx, dy, hx, hy, hagree⟩ := h.desc hr.left.program hr.right.program
    refine agree_ask hx hy ?_
    rw [hagree.statics_eq]
    refine (word32_agrees hr _).bind fun hs ht hr hcount => ?_
    have h := h.mono hs.program ht.program
    rw [hcount]
    exact agree_symbolOf (gcStaticDesc_agrees hr h false) fun name hr => .pure hr rfl
  | threadStaticsBlock h =>
    obtain ⟨dx, dy, hx, hy, hagree⟩ := h.desc hr.left.program hr.right.program
    refine agree_ask hx hy ?_
    rw [hagree.statics_eq]
    refine (word32_agrees hr _).bind fun _ _ hr hsize => .pure hr ?_
    rw [hsize]
  | threadStaticsOffset h =>
    exact agree_symbolOf (threadStaticsBlock_agrees hr h) fun name hr => .pure hr rfl
  | eagerConstructor h =>
    exact agree_symbolOf (plainEntry_agrees hr h) fun name hr => .pure hr rfl
  | tlsDirectory =>
    obtain ⟨hstart, hend, hindex⟩ := hr.threadTables
    refine agree_symbol hr hstart.1 fun start => agree_symbol hr hend.1 fun stop => ?_
    exact agree_symbol hr hindex.1 fun index => .pure hr rfl
  | modulesSection =>
    refine agree_attachment hr fun hmatch => ?_
    exact agree_symbol hr hmatch.headerNode fun name => .pure hr rfl
  | fatPointer _ ha hd =>
    exact agree_symbol hr ha fun target => agree_symbol hr hd fun dictionary => .pure hr rfl
  | _ => exact .pure hr rfl

/-- The alignment of the data of matching nodes is the same. -/
theorem payloadAlignment_eq {T : TypeId → TypeId → Prop} {M : MethodId → MethodId → Prop}
    {N : NodeId → NodeId → Prop} {k k' : NodeKind} (h : k.Match T M N k') :
    unit.payloadAlignment k = unit.payloadAlignment k' := by
  cases h <;> rfl

end CompilationUnit

/-- What a header says when the handles of its tables are dropped. -/
def HeaderTable.listing (header : HeaderTable) : List (Section × String × Option String) :=
  header.entries.map fun (tag, entry) => (tag, entry.startSymbol, entry.endSymbol?)

/-- A header is written down from what it lists. -/
theorem HeaderTable.serialize_eq {header header' : HeaderTable}
    (h : header.listing = header'.listing) (pointerSize : Nat) :
    header.serialize pointerSize = header'.serialize pointerSize := by
  have hsize (header : HeaderTable) : header.size = header.listing.length := by
    rw [size, listing, List.length_map]
  have hsteps (header : HeaderTable) :
      (header.entries.flatMap fun (tag, entry) => entryEmissions tag entry) =
        header.listing.flatMap fun (tag, first, last?) =>
          entryEmissions tag ⟨⟨0⟩, first, last?⟩ := by
    rw [listing, List.flatMap_map]
    rfl
  rw [serialize, serialize, hsteps header, hsteps header', hsize, hsize, h]

/-- Matching headers list the same. -/
theorem Attachment.Match.listing {base : Program} {s t : Image} {a a' : Attachment}
    (h : a.Match base s t a') : a.header.listing = a'.header.listing := by
  refine map_eq_of_forall₂ (h.entries.imp fun e e' he => ?_)
  show (e.1, e.2.startSymbol, e.2.endSymbol?) = (e'.1, e'.2.startSymbol, e'.2.endSymbol?)
  rw [he.1, he.2.startSymbol, he.2.endSymbol?]

/-- Emitted nodes that mean the same. -/
structure EmittedNode.Match (base : Program) (s t : Image) (e e' : EmittedNode) : Prop where
  id : NodeMatch base s t e.id e'.id
  kind : e.node.kind.Match (TypeMatch base s.program t.program)
    (MethodMatch base s.program t.program) (NodeMatch base s t) e'.node.kind
  symbol : e.node.symbol = e'.node.symbol
  data? : e.data? = e'.data?

theorem EmittedNode.match_lasting (base : Program) : Lasting (EmittedNode.Match base) := by
  intro s t s' t' e e' h hs ht
  refine ⟨h.id.mono hs ht, ?_, h.symbol, h.data?⟩
  exact h.kind.imp (fun h => h.mono hs.program ht.program) (fun h => h.mono hs.program ht.program)
    fun h => h.mono hs ht

namespace CompilationUnit

variable {unit : CompilationUnit} {base : Program} {attached : Bool} {s t : Image}

/-- Matching nodes have the same data. -/
theorem payload_agrees (hr : Twins unit base attached s t) {a b : NodeId}
    (h : NodeMatch base s t a b) :
    Agree (Twins unit base attached) (fun _ _ data? data'? => data? = data'?) (unit.payload a)
      (unit.payload b) s t := by
  obtain ⟨x, y, hx, hy, hk⟩ := h.kinds
  by_cases hheader : x.kind = .header
  · have hheader' : y.kind = .header := by
      rw [hheader] at hk
      generalize y.kind = k' at hk
      cases hk
      rfl
    refine .congr (unit.payload_eq_header hx hheader) (unit.payload_eq_header hy hheader') ?_
    exact agree_attachment hr fun hmatch => .pure hr
      (congrArg some (HeaderTable.serialize_eq hmatch.listing _))
  · have hheader' : y.kind ≠ .header := by
      intro hy
      rw [hy] at hk
      generalize x.kind = k at hk hheader
      cases hk
      exact hheader rfl
    refine .congr (unit.payload_eq_assemble hx hheader) (unit.payload_eq_assemble hy hheader') ?_
    refine (payloadEmissions_agrees hr hk).bind fun _ _ hr hsteps => .pure hr ?_
    rw [hsteps, payloadAlignment_eq hk]

/-- Matching nodes are emitted alike. -/
theorem emit_agrees (hr : Twins unit base attached s t) {a b : NodeId}
    (h : NodeMatch base s t a b) :
    Agree (Twins unit base attached) (EmittedNode.Match base) (unit.emit a) (unit.emit b) s t := by
  obtain ⟨x, y, hx, hy, hk⟩ := h.kinds
  obtain ⟨x', y', hx', hy', hsymbol, -⟩ := hr.symbols h
  cases hx.symm.trans hx'
  cases hy.symm.trans hy'
  refine .read (node_eq_ok.2 ⟨hx, rfl⟩) (node_eq_ok.2 ⟨hy, rfl⟩) ?_
  refine (payload_agrees hr h).bind fun hs ht hr hdata => .pure hr
    ⟨h.mono hs ht, ?_, hsymbol, hdata⟩
  exact hk.imp (fun h => h.mono hs.program ht.program) (fun h => h.mono hs.program ht.program)
    fun h => h.mono hs ht

end CompilationUnit

end NativeImage
