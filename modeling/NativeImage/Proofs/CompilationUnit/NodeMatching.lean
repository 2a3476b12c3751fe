import NativeImage.Proofs.CompilationUnit.Growth
import NativeImage.Proofs.Program.MethodMatching

/-!
# Matching nodes

Two images whose programs extend the same base number their nodes differently. A node of one
matches a node of the other if their kinds differ in handles only, and these handles match.

## Main definitions

- `NodeKind.Match` — kinds that differ in related handles
- `Image.NodeMatch` — nodes of two images that mean the same

## Main statements

- `Image.NodeMatch.unique` — matching is one to one if no kind occurs twice
-/

namespace NativeImage

/-! ## Kinds -/

/-- Kinds that differ in types, methods and nodes only, which are related. -/
inductive NodeKind.Match (T : TypeId → TypeId → Prop) (M : MethodId → MethodId → Prop)
    (N : NodeId → NodeId → Prop) : NodeKind → NodeKind → Prop
  | methodCode {m m' : MethodId} {unboxing : Bool} (h : M m m') :
    Match T M N (.methodCode ⟨m, unboxing⟩) (.methodCode ⟨m', unboxing⟩)
  | externMethod {m m' : MethodId} {unboxing : Bool} (h : M m m') :
    Match T M N (.externMethod ⟨m, unboxing⟩) (.externMethod ⟨m', unboxing⟩)
  | runtimeImport {m m' : MethodId} (h : M m m') :
    Match T M N (.runtimeImport m) (.runtimeImport m')
  | unboxingStub {m m' : MethodId} {a a' : NodeId} (h : M m m') (ha : N a a') :
    Match T M N (.unboxingStub m a) (.unboxingStub m' a')
  | shadowMethod {m m' : MethodId} {unboxing : Bool} {a a' : NodeId} (h : M m m') (ha : N a a') :
    Match T M N (.shadowMethod ⟨m, unboxing⟩ a) (.shadowMethod ⟨m', unboxing⟩ a')
  | fatPointer {m m' : MethodId} {unboxing : Bool} {a a' d d' : NodeId} (h : M m m')
    (ha : N a a') (hd : N d d') :
    Match T M N (.fatPointer ⟨m, unboxing⟩ a d) (.fatPointer ⟨m', unboxing⟩ a' d')
  | externSymbol (name : String) : Match T M N (.externSymbol name) (.externSymbol name)
  | gcStaticDesc {x x' : TypeId} {thread : Bool} (h : T x x') :
    Match T M N (.gcStaticDesc x thread) (.gcStaticDesc x' thread)
  | threadStaticsOffset {x x' : TypeId} (h : T x x') :
    Match T M N (.threadStaticsOffset x) (.threadStaticsOffset x')
  | threadStaticsBlock {x x' : TypeId} (h : T x x') :
    Match T M N (.threadStaticsBlock x) (.threadStaticsBlock x')
  | gcStaticBase {x x' : TypeId} (h : T x x') : Match T M N (.gcStaticBase x) (.gcStaticBase x')
  | eagerConstructor {m m' : MethodId} (h : M m m') :
    Match T M N (.eagerConstructor m) (.eagerConstructor m')
  | methodDictionary {m m' : MethodId} (h : M m m') :
    Match T M N (.dictionaryLayout (.method m)) (.dictionaryLayout (.method m'))
  | typeDictionary {x x' : TypeId} (h : T x x') :
    Match T M N (.dictionaryLayout (.type x)) (.dictionaryLayout (.type x'))
  | standaloneRegion {a a' : NodeId} (h : N a a') :
    Match T M N (.standaloneRegion a) (.standaloneRegion a')
  | region (kind : RegionKind) : Match T M N (.region kind) (.region kind)
  | threadStaticsIndex : Match T M N .threadStaticsIndex .threadStaticsIndex
  | tlsDirectory : Match T M N .tlsDirectory .tlsDirectory
  | header : Match T M N .header .header
  | modulesSection : Match T M N .modulesSection .modulesSection
  | typeManagerIndirection : Match T M N .typeManagerIndirection .typeManagerIndirection
  | metadataBlob : Match T M N .metadataBlob .metadataBlob
  | delegateHelper {i i' a a' : NodeId} {t t' : Option NodeId} (hi : N i i') (ha : N a a')
    (ht : Option.Rel N t t') :
    Match T M N (.helper (.delegate ⟨i, a, t⟩)) (.helper (.delegate ⟨i', a', t'⟩))
  | gcStaticBaseHelper {x x' : TypeId} (h : T x x') :
    Match T M N (.helper (.gcStaticBase x)) (.helper (.gcStaticBase x'))
  | threadStaticBaseHelper {x x' : TypeId} (h : T x x') :
    Match T M N (.helper (.threadStaticBase x)) (.helper (.threadStaticBase x'))

namespace NodeKind.Match

variable {T T' : TypeId → TypeId → Prop} {M M' : MethodId → MethodId → Prop}
  {N N' : NodeId → NodeId → Prop} {k k' k'' : NodeKind}

theorem imp (h : Match T M N k k') (hT : ∀ {x y}, T x y → T' x y) (hM : ∀ {x y}, M x y → M' x y)
    (hN : ∀ {a b}, N a b → N' a b) : Match T' M' N' k k' := by
  cases h with
  | delegateHelper hi ha ht =>
    refine .delegateHelper (hN hi) (hN ha) ?_
    cases ht with
    | none => exact .none
    | some h => exact .some (hN h)
  | _ => constructor <;> first | exact hT ‹_› | exact hM ‹_› | exact hN ‹_›

theorem flip (h : Match T M N k k') :
    Match (fun x y => T y x) (fun x y => M y x) (fun a b => N b a) k' k := by
  cases h with
  | delegateHelper hi ha ht =>
    refine .delegateHelper hi ha ?_
    cases ht with
    | none => exact .none
    | some h => exact .some h
  | _ => constructor <;> assumption

/-- What holds of the nodes that a kind refers to may be added. -/
theorem and_of_self {P : NodeId → Prop} (h : Match T M N k k')
    (hself : Match T' M' (fun a b => a = b ∧ P a) k k) :
    Match T M (fun a b => N a b ∧ P a) k k' := by
  cases h with
  | delegateHelper hi ha ht =>
    cases hself with
    | delegateHelper hi' ha' ht' =>
      refine .delegateHelper ⟨hi, hi'.2⟩ ⟨ha, ha'.2⟩ ?_
      cases ht with
      | none => exact .none
      | some h =>
        cases ht' with
        | some h' => exact .some ⟨h, h'.2⟩
  | fatPointer h ha hd =>
    cases hself with
    | fatPointer _ ha' hd' => exact .fatPointer h ⟨ha, ha'.2⟩ ⟨hd, hd'.2⟩
  | unboxingStub h ha =>
    cases hself with
    | unboxingStub _ ha' => exact .unboxingStub h ⟨ha, ha'.2⟩
  | shadowMethod h ha =>
    cases hself with
    | shadowMethod _ ha' => exact .shadowMethod h ⟨ha, ha'.2⟩
  | standaloneRegion h =>
    cases hself with
    | standaloneRegion h' => exact .standaloneRegion ⟨h, h'.2⟩
  | _ => constructor <;> assumption

/-- If handles have one relative only, so have kinds. -/
theorem unique (h : Match T M N k k') (h' : Match T M N' k k'')
    (hT : ∀ {x y z}, T x y → T x z → y = z) (hM : ∀ {x y z}, M x y → M x z → y = z)
    (hN : ∀ {a b c}, N a b → N' a c → b = c) : k' = k'' := by
  cases h with
  | delegateHelper hi ha ht =>
    cases h' with
    | delegateHelper hi' ha' ht' =>
      cases ht with
      | none =>
        cases ht' with
        | none => rw [hN hi hi', hN ha ha']
      | some h =>
        cases ht' with
        | some h' => rw [hN hi hi', hN ha ha', hN h h']
  | fatPointer h ha hd =>
    cases h' with
    | fatPointer h' ha' hd' => rw [hM h h', hN ha ha', hN hd hd']
  | unboxingStub h ha =>
    cases h' with
    | unboxingStub h' ha' => rw [hM h h', hN ha ha']
  | shadowMethod h ha =>
    cases h' with
    | shadowMethod h' ha' => rw [hM h h', hN ha ha']
  | standaloneRegion h =>
    cases h' with
    | standaloneRegion h' => rw [hN h h']
  | methodCode h | externMethod h | runtimeImport h | eagerConstructor h | methodDictionary h =>
    cases h'
    next h' => rw [hM h h']
  | gcStaticDesc h | threadStaticsOffset h | threadStaticsBlock h | gcStaticBase h
  | typeDictionary h | gcStaticBaseHelper h | threadStaticBaseHelper h =>
    cases h'
    next h' => rw [hT h h']
  | _ =>
    cases h'
    rfl

end NodeKind.Match

/-! ## Nodes -/

namespace Image

open Program

/-- Nodes of two images that mean the same: their kinds match up to nodes that mean the same. -/
inductive NodeMatch (base : Program) (s t : Image) : NodeId → NodeId → Prop
  | intro {a b : NodeId} {x y : Node} {N : NodeId → NodeId → Prop}
    (hx : s.nodes[a.index]? = some x) (hy : t.nodes[b.index]? = some y)
    (hN : ∀ c d, N c d → NodeMatch base s t c d)
    (h : x.kind.Match (TypeMatch base s.program t.program)
      (MethodMatch base s.program t.program) N y.kind) : NodeMatch base s t a b

variable {base : Program} {s t s' t' : Image} {a b c : NodeId}

/-- The kinds of all nodes are different. -/
def KindsDiffer (s : Image) : Prop :=
  ∀ {a b : NodeId} {x y : Node}, s.nodes[a.index]? = some x → s.nodes[b.index]? = some y →
    x.kind = y.kind → a = b

namespace NodeMatch

theorem kinds (h : NodeMatch base s t a b) : ∃ x y, s.nodes[a.index]? = some x ∧
    t.nodes[b.index]? = some y ∧ x.kind.Match (TypeMatch base s.program t.program)
      (MethodMatch base s.program t.program) (NodeMatch base s t) y.kind := by
  cases h with
  | intro hx hy hN h => exact ⟨_, _, hx, hy, h.imp id id (hN _ _)⟩

theorem symm (h : NodeMatch base s t a b) : NodeMatch base t s b a := by
  induction h with
  | intro hx hy hN h ih =>
    refine .intro (N := fun c d => NodeMatch base t s c d) hy hx (fun _ _ h => h) ?_
    exact h.flip.imp (fun h => h.symm) (fun h => h.symm) (fun h => ih _ _ h)

theorem mono (h : NodeMatch base s t a b) (hs : s ≤ s') (ht : t ≤ t') :
    NodeMatch base s' t' a b := by
  induction h with
  | intro hx hy hN h ih =>
    refine .intro (hs.nodes _ _ hx) (ht.nodes _ _ hy) ih ?_
    exact h.imp (fun h => h.mono hs.program ht.program) (fun h => h.mono hs.program ht.program) id

/-- A node has at most one match. -/
theorem unique (hq : t.program.WellFormed) (hkinds : t.KindsDiffer)
    (h : NodeMatch base s t a b) (h' : NodeMatch base s t a c) : b = c := by
  induction h generalizing c with
  | intro hx hy hN h ih =>
    obtain ⟨x', z, hx', hz, hk⟩ := h'.kinds
    cases hx.symm.trans hx'
    have hsame := h.unique hk (fun h h' => h.unique hq h') (fun h h' => h.unique hq h')
      fun h h' => ih _ _ h h'
    exact hkinds hy hz hsame

theorem unique_left (hp : s.program.WellFormed) (hkinds : s.KindsDiffer)
    (h : NodeMatch base s t a c) (h' : NodeMatch base s t b c) : a = b :=
  unique hp hkinds h.symm h'.symm

end NodeMatch

end Image

end NativeImage
