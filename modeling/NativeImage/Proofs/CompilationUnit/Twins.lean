import NativeImage.Proofs.CompilationUnit.WellFormed
import NativeImage.Proofs.Program.Siblings

/-!
# Twin images

Two well-formed images of one unit whose programs extend the same base are twins if their
attachments match. Whatever is interned in both for the same purpose matches.

## Main definitions

- `Image.Twins` — images that differ in what they hold besides what is asked for
- `Image.Found` — matching nodes of bounded rank

## Main statements

- `ImageM.intern_agrees` — nodes of matching kinds match, whether they are found or appended
- `ImageM.onProgram_agrees` — what agrees on programs agrees on images
-/

namespace NativeImage

open Program Image

/-- Entries of two headers that mean the same. -/
structure HeaderEntry.Match (base : Program) (s t : Image) (e e' : HeaderEntry) : Prop where
  node : NodeMatch base s t e.node e'.node
  rank : s.RankBelow 2 e.node
  startSymbol : e.startSymbol = e'.startSymbol
  endSymbol? : e.endSymbol? = e'.endSymbol?

/-- Attachments of two images that mean the same. -/
structure Attachment.Match (base : Program) (s t : Image) (a a' : Attachment) : Prop where
  headerNode : NodeMatch base s t a.headerNode a'.headerNode
  rank : s.RankBelow 3 a.headerNode
  header : ∀ tag, Option.Rel (HeaderEntry.Match base s t) (a.header.find tag) (a'.header.find tag)

variable {unit : CompilationUnit} {base : Program} {attached : Bool} {s t s' t' : Image}

theorem HeaderEntry.Match.mono {e e' : HeaderEntry} (h : e.Match base s t e') (hs : s ≤ s')
    (ht : t ≤ t') : e.Match base s' t' e' :=
  ⟨h.node.mono hs ht, h.rank.mono hs, h.startSymbol, h.endSymbol?⟩

theorem Attachment.Match.mono {a a' : Attachment} (h : a.Match base s t a') (hs : s ≤ s')
    (ht : t ≤ t') : a.Match base s' t' a' := by
  refine ⟨h.headerNode.mono hs ht, h.rank.mono hs, fun tag => ?_⟩
  exact optionRel_imp (h.header tag) fun he => he.mono hs ht

namespace Image

/-- Well-formed images of one unit, attached with matching attachments or not attached. -/
structure Twins (unit : CompilationUnit) (base : Program) (attached : Bool) (s t : Image) :
    Prop where
  left : s.WellFormed unit base
  right : t.WellFormed unit base
  attachment : Option.Rel (Attachment.Match base s t) s.attachment? t.attachment?
  isSome_attachment : s.attachment?.isSome = attached

/-- Matching nodes of a rank below the given one. -/
def Found (base : Program) (rank : Nat) (s t : Image) (a b : NodeId) : Prop :=
  NodeMatch base s t a b ∧ s.RankBelow rank a

theorem found_lasting (base : Program) (rank : Nat) : Lasting (Found base rank) :=
  fun h hs ht => ⟨h.1.mono hs ht, h.2.mono hs⟩

theorem Found.weaken {rank rank' : Nat} {a b : NodeId} (h : Found base rank s t a b)
    (hle : rank ≤ rank') : Found base rank' s t a b := ⟨h.1, h.2.weaken hle⟩

/-- What is of lower rank may be held. -/
theorem Found.mayHold {kind : NodeKind} {a b : NodeId} (h : Found base kind.rank s t a b) :
    NodeMatch base s t a b ∧ s.MayHold kind a := by
  obtain ⟨hmatch, x, hx, hlt⟩ := h
  exact ⟨hmatch, x, hx, fun _ => hlt⟩

/-- The tables of a unit are the same nodes in all its images. -/
theorem WellFormed.table_found (h : s.WellFormed unit base) (h' : t.WellFormed unit base)
    {id : NodeId} {k : NodeKind}
    (hk : (tableKinds unit.config.arch.decoration)[id.index]? = some k) :
    Found base (k.rank + 1) s t id id := by
  have hmem := List.mem_of_getElem? hk
  rw [← map_kind_tableNodes, List.getElem?_map] at hk
  obtain ⟨x, hx, rfl⟩ := Option.map_eq_some_iff.1 hk
  refine ⟨.intro (N := fun _ _ => False) (h.table hx) (h'.table hx) nofun ?_,
    x, h.table hx, Nat.lt_succ_self _⟩
  exact match_of_mem_tableKinds hmem _ _ _

namespace Twins

variable (h : Twins unit base attached s t)
include h

theorem programs : Siblings base s.program t.program := ⟨h.left.program, h.right.program⟩

/-- Twins that only grow stay twins. -/
theorem grow (hs : s ≤ s') (ht : t ≤ t') (hl : s'.WellFormed unit base)
    (hr : t'.WellFormed unit base) (ha : s'.attachment? = s.attachment?)
    (ha' : t'.attachment? = t.attachment?) : Twins unit base attached s' t' := by
  refine ⟨hl, hr, ?_, ha ▸ h.isSome_attachment⟩
  rw [ha, ha']
  exact optionRel_imp h.attachment fun hmatch => hmatch.mono hs ht

theorem unique {a b c : NodeId} (hb : NodeMatch base s t a b) (hc : NodeMatch base s t a c) :
    b = c :=
  hb.unique h.right.program.wellFormed h.right.kinds hc

theorem unique_left {a b c : NodeId} (ha : NodeMatch base s t a c) (hb : NodeMatch base s t b c) :
    a = b :=
  ha.unique_left h.left.program.wellFormed h.left.kinds hb

/-- Matching is one to one. -/
theorem biUnique : Relator.BiUnique (NodeMatch base s t) :=
  ⟨fun _ _ _ => h.unique_left, fun _ _ _ => h.unique⟩

/-- The tables of a unit match themselves. -/
theorem table {id : NodeId} {k : NodeKind}
    (hk : (tableKinds unit.config.arch.decoration)[id.index]? = some k) :
    Found base (k.rank + 1) s t id id :=
  h.left.table_found h.right hk

/-- The tables of thread-local storage. -/
theorem threadTables : Found base 1 s t .tlsStart .tlsStart ∧ Found base 1 s t .tlsEnd .tlsEnd ∧
    Found base 1 s t .threadStaticsIndex .threadStaticsIndex :=
  ⟨h.table (k := .externSymbol (tlsStartSymbol unit.config.arch.decoration)) rfl,
    h.table (k := .externSymbol (tlsEndSymbol unit.config.arch.decoration)) rfl,
    h.table (k := .threadStaticsIndex) rfl⟩

/-- Matching nodes have the same symbols. -/
theorem symbols {a b : NodeId} (hab : NodeMatch base s t a b) : ∃ x y,
    s.nodes[a.index]? = some x ∧ t.nodes[b.index]? = some y ∧ x.symbol = y.symbol ∧
      x.endSymbol? = y.endSymbol? := by
  induction hab with
  | @intro a b x y N hx hy hN hk ih =>
    refine ⟨x, y, hx, hy, ?_⟩
    have hsymbol {c d : NodeId} (hcd : N c d) : CompilationUnit.SameSymbol s t c d := by
      obtain ⟨z, w, hz, hw, hsame, -⟩ := ih c d hcd
      exact ⟨z.symbol, ImageM.symbol_eq_ok hz, hsame ▸ ImageM.symbol_eq_ok hw⟩
    obtain ⟨symbols, hl, hr⟩ := CompilationUnit.symbolsOf_eq unit h.left.program
      h.right.program (hk.imp id id hsymbol)
    cases (h.left.symbols hx).symm.trans hl
    have hsame := (h.right.symbols hy).symm.trans hr
    simp only [EStateM.Result.ok.injEq, Prod.mk.injEq, and_true] at hsame
    exact ⟨hsame.1.symm, hsame.2.symm⟩

theorem sameSymbol {a b : NodeId} (hab : NodeMatch base s t a b) :
    CompilationUnit.SameSymbol s t a b := by
  obtain ⟨x, y, hx, hy, hsame, -⟩ := h.symbols hab
  exact ⟨x.symbol, ImageM.symbol_eq_ok hx, hsame ▸ ImageM.symbol_eq_ok hy⟩

end Twins

end Image

namespace ImageM

/-! ## Looking things up -/

theorem ask_eq_ok {α : Type} {question : Program → Except ProgramError α} {a : α}
    (h : question s.program = .ok a) : ask question s = .ok a s := by
  rw [ask, h]

/-- Questions that both programs can answer may be asked first. -/
theorem agree_ask {α β γ δ : Type} {R : Image → Image → Prop} {V : Image → Image → γ → δ → Prop}
    {question : Program → Except ProgramError α} {question' : Program → Except ProgramError β}
    {a : α} {b : β} {f : α → ImageM γ} {g : β → ImageM δ} (hx : question s.program = .ok a)
    (hy : question' t.program = .ok b) (h : Agree R V (f a) (g b) s t) :
    Agree R V (ask question >>= f) (ask question' >>= g) s t :=
  .read (ask_eq_ok hx) (ask_eq_ok hy) h

/-- Matching nodes may be looked up first. -/
theorem agree_symbol {γ δ : Type} {V : Image → Image → γ → δ → Prop} {a b : NodeId}
    {f : String → ImageM γ} {g : String → ImageM δ} (hr : Twins unit base attached s t)
    (hab : NodeMatch base s t a b)
    (h : ∀ name, Agree (Twins unit base attached) V (f name) (g name) s t) :
    Agree (Twins unit base attached) V (symbol a >>= f) (symbol b >>= g) s t := by
  obtain ⟨name, hx, hy⟩ := hr.sameSymbol hab
  exact .read hx hy (h name)

/-! ## Programs -/

theorem onProgram_agrees {α β : Type} {V : Program → Program → α → β → Prop} {x : ProgramM α}
    {y : ProgramM β} (hr : Twins unit base attached s t)
    (h : Agree (Siblings base) V x y s.program t.program) :
    Agree (Twins unit base attached) (fun s t => V s.program t.program) (onProgram x) (onProgram y)
      s t := by
  have hle {s : Image} {p : Program} (hp : s.program ≤ p) : s ≤ { s with program := p } :=
    ⟨hp, .refl _, fun _ h => h⟩
  cases h with
  | ok hx hy hs ht hp hv =>
    refine .ok (by rw [onProgram, hx]) (by rw [onProgram, hy]) (hle hs) (hle ht) ?_ hv
    exact hr.grow (hle hs) (hle ht) (hr.left.grow (hle hs) rfl hp.left id)
      (hr.right.grow (hle ht) rfl hp.right id) rfl rfl
  | error hx hy hs ht hp =>
    refine .error (by rw [onProgram, hx]) (by rw [onProgram, hy]) (hle hs) (hle ht) ?_
    exact hr.grow (hle hs) (hle ht) (hr.left.grow (hle hs) rfl hp.left id)
      (hr.right.grow (hle ht) rfl hp.right id) rfl rfl

/-! ## Nodes -/

theorem findNode?_spec {kind : NodeKind} {id : NodeId} (h : findNode? kind s = some id) :
    ∃ x, s.nodes[id.index]? = some x ∧ x.kind = kind := by
  obtain ⟨i, hi, rfl⟩ := Option.map_eq_some_iff.1 h
  obtain ⟨hlt, hkind, -⟩ := Array.findIdx?_eq_some_iff_getElem.1 hi
  exact ⟨s.nodes[i], Array.getElem?_eq_getElem hlt, by simpa using hkind⟩

theorem kind_ne_of_findNode? {kind : NodeKind} (h : findNode? kind s = none) {id : NodeId}
    {x : Node} (hx : s.nodes[id.index]? = some x) : x.kind ≠ kind := by
  have hnone := Array.findIdx?_eq_none_iff.1 (Option.map_eq_none_iff.1 h)
  intro hkind
  have hfalse := hnone x (Array.mem_of_getElem? hx)
  simp [hkind] at hfalse

/-- Where kinds differ, every node is found by its kind. -/
theorem findNode?_eq_some (hs : s.KindsDiffer) {id : NodeId} {x : Node}
    (hx : s.nodes[id.index]? = some x) : findNode? x.kind s = some id := by
  cases h : findNode? x.kind s with
  | none => exact absurd rfl (kind_ne_of_findNode? h hx)
  | some other =>
    obtain ⟨y, hy, hkind⟩ := findNode?_spec h
    rw [hs hy hx hkind]

/-- What is given for a node is one of its kind. -/
theorem kind_of_intern {x : Node} {id : NodeId} (h : intern x s = .ok id t) :
    ∃ y, t.nodes[id.index]? = some y ∧ y.kind = x.kind := by
  rw [intern_apply] at h
  cases hfind : findNode? x.kind s with
  | some other =>
    rw [hfind] at h
    cases h
    exact findNode?_spec hfind
  | none =>
    rw [hfind] at h
    cases h
    exact ⟨x, nodes_push.2 (.inr ⟨rfl, rfl⟩), rfl⟩

/-- A node of any kind but those of an attachment can be asked for. -/
theorem intern_spec (h : s.WellFormed unit base) {x : Node}
    (hsymbols : unit.symbolsOf x.kind s = .ok (x.symbol, x.endSymbol?) s)
    (hrefers : s.Refers ⟨s.nodes.size⟩ x.kind) (hkind : x.kind.isAttached = false) :
    ∃ id s', intern x s = .ok id s' ∧ s ≤ s' ∧ s'.WellFormed unit base ∧
      s'.attachment? = s.attachment? ∧ ∃ y, s'.nodes[id.index]? = some y ∧ y.kind = x.kind := by
  rw [intern_apply]
  cases hfind : findNode? x.kind s with
  | some id => exact ⟨id, s, rfl, le_rfl, h, rfl, findNode?_spec hfind⟩
  | none =>
    refine ⟨_, _, rfl, le_pushNode s x, h.push (kind_ne_of_findNode? hfind) hsymbols hrefers
      fun _ => hkind, rfl, x, ?_, rfl⟩
    exact nodes_push.2 (.inr ⟨rfl, rfl⟩)

/-- What has a match may be referred to. -/
theorem refers_of_match (hp : Extension base s.program) (hq : Extension base t.program)
    {k k' : NodeKind}
    (h : k.Match (TypeMatch base s.program t.program) (MethodMatch base s.program t.program)
      (fun a b => NodeMatch base s t a b ∧ s.MayHold k a) k') :
    s.Refers ⟨s.nodes.size⟩ k := by
  refine h.left.imp (fun h => ⟨h.1, ?_⟩) (fun h => ⟨h.1, ?_⟩) fun h => ⟨h.1, ?_⟩
  · obtain ⟨-, z, hz⟩ := h
    exact (hz.hasType hp hq).1
  · obtain ⟨-, z, hz⟩ := h
    exact (hz.hasMethod hp hq).1
  · obtain ⟨-, c, -, hhold⟩ := h
    obtain ⟨x, hx, -⟩ := id hhold
    obtain ⟨hlt, -⟩ := Array.getElem?_eq_some_iff.1 hx
    exact ⟨hlt, hhold⟩

/-- What may be held on one side may be held on the other. -/
theorem match_symm {k k' : NodeKind}
    (h : k.Match (TypeMatch base s.program t.program) (MethodMatch base s.program t.program)
      (fun a b => NodeMatch base s t a b ∧ s.MayHold k a) k') :
    k'.Match (TypeMatch base t.program s.program) (MethodMatch base t.program s.program)
      (fun a b => NodeMatch base t s a b ∧ t.MayHold k' a) k := by
  refine h.flip.imp (fun h => h.symm) (fun h => h.symm) fun hab => ⟨hab.1.symm, ?_⟩
  obtain ⟨hmatch, x, hx, hlt⟩ := hab
  obtain ⟨x', y, hx', hy, hk⟩ := hmatch.kinds
  cases hx.symm.trans hx'
  refine ⟨y, hy, fun hs => ?_⟩
  rw [← hk.rank_eq, ← h.rank_eq]
  exact hlt (h.isStandalone_eq.trans hs)

/-- Nodes of matching kinds match, whether they are found or appended. -/
theorem intern_agrees (hr : Twins unit base attached s t) {k k' : NodeKind}
    {symbol symbol' : String} {endSymbol? endSymbol'? : Option String}
    (hk : k.Match (TypeMatch base s.program t.program) (MethodMatch base s.program t.program)
      (fun a b => NodeMatch base s t a b ∧ s.MayHold k a) k')
    (hx : unit.symbolsOf k s = .ok (symbol, endSymbol?) s)
    (hy : unit.symbolsOf k' t = .ok (symbol', endSymbol'?) t) (hkind : k.isAttached = false) :
    Agree (Twins unit base attached) (Found base (k.rank + 1)) (intern ⟨k, symbol, endSymbol?⟩)
      (intern ⟨k', symbol', endSymbol'?⟩) s t := by
  have hp := hr.left.program
  have hq := hr.right.program
  obtain ⟨a, s', ha, hs, hl, hatt, x', hx', hxkind⟩ := intern_spec (x := ⟨k, symbol, endSymbol?⟩)
    hr.left hx (refers_of_match hp hq hk) hkind
  obtain ⟨b, t', hb, ht, hr', hatt', y', hy', hykind⟩ :=
    intern_spec (x := ⟨k', symbol', endSymbol'?⟩) hr.right hy
      (refers_of_match hq hp (match_symm hk)) (hk.isAttached_eq ▸ hkind)
  refine .ok ha hb hs ht (hr.grow hs ht hl hr' hatt hatt') ⟨?_, x', hx', ?_⟩
  · refine .intro (N := NodeMatch base s' t') hx' hy' (fun _ _ h => h) ?_
    rw [hxkind, hykind]
    exact hk.imp (fun h => h.mono hs.program ht.program) (fun h => h.mono hs.program ht.program)
      fun h => h.1.mono hs ht
  · rw [hxkind]
    exact Nat.lt_succ_self _

end ImageM

end NativeImage
