import NativeImage.Proofs.CompilationUnit.Twins

/-!
# Operations on twin images

Whatever asks a unit for nodes agrees on twin images: for matching types and methods it gives
matching nodes, or it fails with the same message.

## Main statements

- `CompilationUnit.plainEntry_agrees`, `CompilationUnit.shadowMethod_agrees`,
  `CompilationUnit.fatPointer_agrees` — entries of methods
- `CompilationUnit.typeNode_agrees` — static data
- `CompilationUnit.delegateHelper_agrees` — delegate construction
-/

namespace NativeImage

open Program Image ImageM

/-! ## Ownership -/

namespace Ownership

variable {base p q : Program}

theorem ownsType_agrees (ownership : Ownership) (hp : Extension base p) (hq : Extension base q)
    {x y : TypeId} (h : TypeMatch base p q x y) :
    ∃ answer, ownership.ownsType p x = .ok answer ∧ ownership.ownsType q y = .ok answer := by
  cases ownership with
  | everything => exact ⟨true, rfl, rfl⟩
  | modules ids =>
    obtain ⟨definition, definition', hd, hd', rfl, hb⟩ := h.typeDefinition hp hq
    obtain ⟨module, hm, hm', -⟩ := TypeMatch.moduleOfType hp hq (.same hb)
    refine ⟨decide (module ∈ ids), ?_, ?_⟩
    · simp only [ownsType, hd, hm, bind, Except.bind, pure, Except.pure]
    · simp only [ownsType, hd', hm', bind, Except.bind, pure, Except.pure]

theorem ownsMethod_agrees (ownership : Ownership) (hp : Extension base p)
    (hq : Extension base q) {x y : MethodId} (h : MethodMatch base p q x y) :
    ∃ answer, ownership.ownsMethod p x = .ok answer ∧
      ownership.ownsMethod q y = .ok answer := by
  obtain ⟨dx, dy, hx, hy, hagree⟩ := h.desc hp hq
  rw [ownsMethod, ownsMethod, hx, hy]
  exact ownership.ownsType_agrees hp hq hagree.owner

end Ownership

namespace CompilationUnit

variable {unit : CompilationUnit} {base : Program} {attached : Bool} {s t : Image}

/-! ## Rules -/

/-- Ranks may be estimated from above. -/
theorem agree_weaken {R : Image → Image → Prop} {x y : ImageM NodeId} {rank rank' : Nat}
    (h : Agree R (Found base rank) x y s t) (hle : rank ≤ rank') :
    Agree R (Found base rank') x y s t :=
  h.imp fun _ _ _ hv => hv.weaken hle

/-- Asking for a symbol and interning a node with it agrees if the kinds match. -/
theorem agree_named (hr : Twins unit base attached s t) {action action' : ImageM String}
    {k k' : NodeKind}
    (hk : k.Match (TypeMatch base s.program t.program) (MethodMatch base s.program t.program)
      (fun a b => NodeMatch base s t a b ∧ s.MayHold k a) k')
    (hsymbols : unit.symbolsOf k = only action) (hsymbols' : unit.symbolsOf k' = only action')
    (hkind : k.isAttached = false) :
    Agree (Twins unit base attached) (Found base (k.rank + 1))
      (do let symbol ← action; intern { kind := k, symbol })
      (do let symbol ← action'; intern { kind := k', symbol }) s t := by
  obtain ⟨symbols, hx, hy⟩ := symbolsOf_eq unit hr.left.program hr.right.program
    (hk.imp id id fun h => hr.sameSymbol h.1)
  have hx' := hsymbols ▸ hx
  have hy' := hsymbols' ▸ hy
  obtain ⟨name, hn, rfl⟩ := only_eq_ok_iff.1 hx'
  obtain ⟨name', hn', heq⟩ := only_eq_ok_iff.1 hy'
  cases heq
  exact .read hn hn' (intern_agrees hr hk hx hy hkind)

theorem externSymbol_agrees (hr : Twins unit base attached s t) (name : String) :
    Agree (Twins unit base attached) (Found base 1) (externSymbol name) (externSymbol name) s t :=
  intern_agrees hr (.externSymbol name) rfl rfl rfl

/-! ## Entries of methods -/

section Entries

variable {m m' : MethodId}

/-- The nodes of a method's code have this rank at most. -/
def entryRank (unboxing : Bool) : Nat := (NodeKind.methodCode ⟨⟨0⟩, unboxing⟩).rank

theorem methodCode_agrees (hr : Twins unit base attached s t)
    (h : MethodMatch base s.program t.program m m') (unboxing : Bool) :
    Agree (Twins unit base attached) (Found base (entryRank unboxing + 1))
      (methodCode ⟨m, unboxing⟩) (methodCode ⟨m', unboxing⟩) s t := by
  have hrank : (NodeKind.methodCode ⟨m, unboxing⟩).rank = entryRank unboxing := by
    cases unboxing <;> rfl
  rw [← hrank]
  exact agree_named hr (.methodCode h) rfl rfl rfl

theorem externMethod_agrees (hr : Twins unit base attached s t)
    (h : MethodMatch base s.program t.program m m') (unboxing : Bool) :
    Agree (Twins unit base attached) (Found base 1) (externMethod ⟨m, unboxing⟩)
      (externMethod ⟨m', unboxing⟩) s t :=
  agree_named hr (.externMethod h) rfl rfl rfl

theorem ownedEntry_agrees (hr : Twins unit base attached s t)
    (h : MethodMatch base s.program t.program m m') (unboxing : Bool) :
    Agree (Twins unit base attached) (Found base (entryRank unboxing + 1))
      (unit.ownedEntry ⟨m, unboxing⟩) (unit.ownedEntry ⟨m', unboxing⟩) s t := by
  obtain ⟨owned, ho, ho'⟩ :=
    unit.ownership.ownsMethod_agrees hr.left.program hr.right.program h
  refine agree_ask ho ho' ?_
  split
  · exact methodCode_agrees hr h unboxing
  · exact agree_weaken (externMethod_agrees hr h unboxing) (Nat.le_add_left 1 _)

theorem plainEntry_agrees (hr : Twins unit base attached s t)
    (h : MethodMatch base s.program t.program m m') :
    Agree (Twins unit base attached) (Found base 2) (unit.plainEntry m) (unit.plainEntry m')
      s t := by
  obtain ⟨dx, dy, hx, hy, hagree⟩ := h.desc hr.left.program hr.right.program
  have himport : dx.importSymbol? = dy.importSymbol? :=
    hagree.congr MethodDeclaration.importSymbol? fun _ _ => rfl
  refine agree_ask hx hy ?_
  rw [← himport]
  cases hi : dx.importSymbol? with
  | none => exact ownedEntry_agrees hr h false
  | some symbol =>
    refine agree_weaken (intern_agrees hr (.runtimeImport h) ?_ ?_ rfl) (Nat.le_succ 1)
    · rw [symbolsOf, bind_of_ok (ask_eq_ok hx), hi]
      rfl
    · rw [symbolsOf, bind_of_ok (ask_eq_ok hy), ← himport, hi]
      rfl

theorem unboxingEntry_agrees (hr : Twins unit base attached s t)
    (h : MethodMatch base s.program t.program m m') :
    Agree (Twins unit base attached) (Found base 3) (unit.unboxingEntry m) (unit.unboxingEntry m')
      s t := by
  obtain ⟨dx, dy, hx, hy, hagree⟩ := h.desc hr.left.program hr.right.program
  obtain ⟨shared, hs, hs'⟩ := h.isSharedMethod hr.left.program hr.right.program
  refine agree_ask hx hy (agree_ask hs hs' ?_)
  rw [hagree.isEmpty_args]
  split
  · exact ownedEntry_agrees hr h true
  · refine (plainEntry_agrees hr h).bind fun hs ht hr hentry => ?_
    have h := h.mono hs.program ht.program
    exact agree_named hr (.unboxingStub h hentry.mayHold) rfl rfl rfl

theorem methodEntry_agrees (hr : Twins unit base attached s t)
    (h : MethodMatch base s.program t.program m m') (unboxing : Bool) :
    Agree (Twins unit base attached) (Found base 3) (unit.methodEntry ⟨m, unboxing⟩)
      (unit.methodEntry ⟨m', unboxing⟩) s t := by
  cases unboxing with
  | true => exact unboxingEntry_agrees hr h
  | false => exact agree_weaken (plainEntry_agrees hr h) (Nat.le_succ 2)

theorem dictionaryLayout_agrees (hr : Twins unit base attached s t)
    (h : MethodMatch base s.program t.program m m') :
    Agree (Twins unit base attached) (Found base 1) (dictionaryLayout (.method m))
      (dictionaryLayout (.method m')) s t :=
  agree_named hr (.methodDictionary h) rfl rfl rfl

theorem typeDictionary_agrees (hr : Twins unit base attached s t) {x x' : TypeId}
    (h : TypeMatch base s.program t.program x x') :
    Agree (Twins unit base attached) (Found base 1) (dictionaryLayout (.type x))
      (dictionaryLayout (.type x')) s t :=
  agree_named hr (.typeDictionary h) rfl rfl rfl

theorem shadowMethod_agrees (hr : Twins unit base attached s t)
    (h : MethodMatch base s.program t.program m m') (unboxing : Bool) :
    Agree (Twins unit base attached) (Found base 4) (unit.shadowMethod ⟨m, unboxing⟩)
      (unit.shadowMethod ⟨m', unboxing⟩) s t := by
  refine (onProgram_agrees hr (ProgramM.canonicalMethod_agrees hr.programs h)).bind
    fun hs ht hr hcanon => ?_
  have h := h.mono hs.program ht.program
  refine (methodEntry_agrees hr hcanon unboxing).bind fun hs ht hr hentry => ?_
  have h := h.mono hs.program ht.program
  exact agree_named hr (.shadowMethod h hentry.mayHold) rfl rfl rfl

theorem fatPointer_agrees (hr : Twins unit base attached s t)
    (h : MethodMatch base s.program t.program m m') (unboxing : Bool) :
    Agree (Twins unit base attached) (Found base 4) (unit.fatPointer ⟨m, unboxing⟩)
      (unit.fatPointer ⟨m', unboxing⟩) s t := by
  refine (onProgram_agrees hr (ProgramM.canonicalMethod_agrees hr.programs h)).bind
    fun hs ht hr hcanon => ?_
  have h := h.mono hs.program ht.program
  refine (methodEntry_agrees hr hcanon unboxing).bind fun hs ht hr hentry => ?_
  have h := h.mono hs.program ht.program
  refine (dictionaryLayout_agrees hr h).bind fun hs ht hr hdictionary => ?_
  have h := h.mono hs.program ht.program
  have hentry := found_lasting base 3 hentry hs ht
  have hdictionary := hdictionary.weaken (Nat.le_add_left 1 2)
  exact agree_named hr (.fatPointer h hentry.mayHold hdictionary.mayHold) rfl rfl rfl

theorem eagerConstructor_agrees (hr : Twins unit base attached s t)
    (h : MethodMatch base s.program t.program m m') :
    Agree (Twins unit base attached) (Found base 3) (CompilationUnit.eagerConstructor m)
      (CompilationUnit.eagerConstructor m') s t :=
  agree_named hr (.eagerConstructor h) rfl rfl rfl

end Entries

/-! ## Static data -/

section Statics

variable {x x' : TypeId}

/-- Nodes of a type, or the symbols that stand for them in other units. -/
theorem typeNode_agrees (hr : Twins unit base attached s t)
    (h : TypeMatch base s.program t.program x x') {family : SymbolFamily} {k k' : NodeKind}
    (hk : k.Match (TypeMatch base s.program t.program) (MethodMatch base s.program t.program)
      (fun a b => NodeMatch base s t a b ∧ s.MayHold k a) k')
    (hsymbols : unit.symbolsOf k = only (ask (·.typeSymbol family x)))
    (hsymbols' : unit.symbolsOf k' = only (ask (·.typeSymbol family x')))
    (hkind : k.isAttached = false) :
    Agree (Twins unit base attached) (Found base (k.rank + 1)) (unit.typeNode x family k)
      (unit.typeNode x' family k') s t := by
  obtain ⟨name, hn, hn'⟩ := h.typeSymbol hr.left.program hr.right.program family
  obtain ⟨owned, ho, ho'⟩ := unit.ownership.ownsType_agrees hr.left.program hr.right.program h
  refine agree_ask hn hn' (agree_ask ho ho' ?_)
  split
  · refine intern_agrees hr hk ?_ ?_ hkind
    · rw [hsymbols]
      exact only_eq_ok (ask_eq_ok hn)
    · rw [hsymbols']
      exact only_eq_ok (ask_eq_ok hn')
  · exact agree_weaken (externSymbol_agrees hr name) (Nat.le_add_left 1 _)

theorem gcStaticDesc_agrees (hr : Twins unit base attached s t)
    (h : TypeMatch base s.program t.program x x') (thread : Bool) :
    Agree (Twins unit base attached) (Found base 1) (unit.gcStaticDesc x thread)
      (unit.gcStaticDesc x' thread) s t :=
  typeNode_agrees hr h (.gcStaticDesc h) rfl rfl rfl

theorem gcStaticBase_agrees (hr : Twins unit base attached s t)
    (h : TypeMatch base s.program t.program x x') :
    Agree (Twins unit base attached) (Found base 2) (unit.gcStaticBase x) (unit.gcStaticBase x')
      s t :=
  typeNode_agrees hr h (.gcStaticBase h) rfl rfl rfl

theorem threadStaticsOffset_agrees (hr : Twins unit base attached s t)
    (h : TypeMatch base s.program t.program x x') :
    Agree (Twins unit base attached) (Found base 2) (unit.threadStaticsOffset x)
      (unit.threadStaticsOffset x') s t :=
  typeNode_agrees hr h (.threadStaticsOffset h) rfl rfl rfl

theorem threadStaticsIndexOf_agrees (hr : Twins unit base attached s t)
    (h : TypeMatch base s.program t.program x x') :
    Agree (Twins unit base attached) (Found base 1) (unit.threadStaticsIndexOf x)
      (unit.threadStaticsIndexOf x') s t := by
  obtain ⟨owned, ho, ho'⟩ := unit.ownership.ownsType_agrees hr.left.program hr.right.program h
  refine agree_ask ho ho' ?_
  split
  · exact .pure hr (hr.table (k := .threadStaticsIndex) rfl)
  · exact externSymbol_agrees hr _

theorem threadStaticsBlock_agrees (hr : Twins unit base attached s t)
    (h : TypeMatch base s.program t.program x x') :
    Agree (Twins unit base attached) (Found base 1) (CompilationUnit.threadStaticsBlock x)
      (CompilationUnit.threadStaticsBlock x') s t :=
  agree_named hr (.threadStaticsBlock h) rfl rfl rfl

/-- Any two matching nodes may be put into regions of their own. -/
theorem standaloneRegion_agrees (hr : Twins unit base attached s t) {a b : NodeId}
    (h : NodeMatch base s t a b) :
    Agree (Twins unit base attached) (Found base 6) (CompilationUnit.standaloneRegion a)
      (CompilationUnit.standaloneRegion b) s t := by
  obtain ⟨name, hsymbol, hsymbol'⟩ := hr.sameSymbol h
  obtain ⟨x, y, hx, -⟩ := h.kinds
  refine .read hsymbol hsymbol' (intern_agrees hr (.standaloneRegion ⟨h, x, hx, nofun⟩) ?_ ?_ rfl)
  · rw [symbolsOf, bind_of_ok hsymbol]
    rfl
  · rw [symbolsOf, bind_of_ok hsymbol']
    rfl

end Statics

end CompilationUnit

end NativeImage
