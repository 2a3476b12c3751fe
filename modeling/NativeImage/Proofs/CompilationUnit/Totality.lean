import NativeImage.Proofs.CompilationUnit.Numbering
import NativeImage.Proofs.Program.Totality

/-!
# What a unit can always make

On a sound image a node can be made for every existing type and method, and whatever a node needs
without a body that asks for it can be made as well. None of these operations fails.

## Main definitions

- `Image.Sound` — well-formed images whose attachment, if there is one, names nodes of low rank
- `Image.MayRefer` — kinds of nodes that hold existing handles only

## Main statements

- `ImageM.intern_ends` — nodes of such kinds can be made
- `CompilationUnit.plainEntry_ends`, `CompilationUnit.shadowMethod_ends`,
  `CompilationUnit.fatPointer_ends` — entries of methods
- `CompilationUnit.needs_ends` — what nodes other than bodies need
-/

namespace NativeImage

open Program Image ImageM

variable {unit : CompilationUnit} {base : Program} {attached : Bool} {s t : Image}
  {E : Image → CompileError → Prop}

/-! ## Sound images -/

namespace Image

/-- An image is sound if it is a twin of itself. -/
def Sound (unit : CompilationUnit) (base : Program) (attached : Bool) (s : Image) : Prop :=
  Twins unit base attached s s

/-- The kind holds existing handles only, and nodes as nodes of the kind may. -/
def MayRefer (s : Image) (kind : NodeKind) : Prop :=
  kind.Match (fun x y => x = y ∧ s.program.HasType x) (fun m n => m = n ∧ s.program.HasMethod m)
    (fun a b => a = b ∧ s.MayHold kind a) kind

theorem Refers.mayRefer {id : NodeId} {kind : NodeKind} (h : s.Refers id kind) :
    s.MayRefer kind :=
  h.imp (fun h => h) (fun h => h) fun h => ⟨h.1, h.2.2⟩

theorem MayRefer.refers {kind : NodeKind} (h : s.MayRefer kind) :
    s.Refers ⟨s.nodes.size⟩ kind := by
  refine NodeKind.Match.imp h (fun h => h) (fun h => h) fun h => ⟨h.1, ?_, h.2⟩
  obtain ⟨-, x, hx, -⟩ := h
  exact (Array.getElem?_eq_some_iff.1 hx).1

theorem RankBelow.mayHold {kind : NodeKind} {a : NodeId} (h : s.RankBelow kind.rank a) :
    s.MayHold kind a := by
  obtain ⟨x, hx, hlt⟩ := h
  exact ⟨x, hx, fun _ => hlt⟩

theorem RankBelow.exists_symbol {rank : Nat} {a : NodeId} (h : s.RankBelow rank a) :
    ∃ name, symbol a s = .ok name s := by
  obtain ⟨x, hx, -⟩ := h
  exact ⟨x.symbol, symbol_eq_ok hx⟩

/-- The symbols of such a kind are known. -/
theorem Sound.exists_symbols (hr : Sound unit base attached s) {kind : NodeKind}
    (hk : s.MayRefer kind) : ∃ symbols, unit.symbolsOf kind s = .ok symbols s := by
  have hp : Extension base s.program := hr.left.program
  have hself : kind.Match (TypeMatch base s.program s.program)
      (MethodMatch base s.program s.program) (CompilationUnit.SameSymbol s s) kind := by
    refine NodeKind.Match.imp hk (fun h => h.1 ▸ TypeMatch.refl hp h.2)
      (fun h => h.1 ▸ MethodMatch.refl hp h.2) fun h => ?_
    obtain ⟨rfl, x, hx, -⟩ := h
    exact ⟨x.symbol, symbol_eq_ok hx, symbol_eq_ok hx⟩
  obtain ⟨symbols, hsymbols, -⟩ := CompilationUnit.symbolsOf_eq unit hp hp hself
  exact ⟨symbols, hsymbols⟩

end Image

/-! ## Rules -/

namespace ImageM

/-- A question that the program can answer may be asked first. -/
theorem ends_ask {α β : Type} {R : Image → Prop} {V : Image → β → Prop}
    {question : Program → Except ProgramError α} {a : α} {f : α → ImageM β}
    (hx : question s.program = .ok a) (h : Ends R E V (f a) s) :
    Ends R E V (ask question >>= f) s :=
  .read (ask_eq_ok hx) h

theorem onProgram_ends {α : Type} {V : Program → α → Prop} {x : ProgramM α}
    (hr : Sound unit base attached s)
    (h : Ends (Extension base) (fun _ cause => ∀ t, E t (.program cause)) V x s.program) :
    Ends (Sound unit base attached) E (fun t => V t.program) (onProgram x) s := by
  have hgrow {p : Program} (hle : s.program ≤ p) (hp : Extension base p) :
      s ≤ { s with program := p } ∧ Sound unit base attached { s with program := p } := by
    have hst : s ≤ { s with program := p } := ⟨hle, .refl _, fun _ h => h⟩
    have hwf := hr.left.grow hst rfl hp id
    exact ⟨hst, hr.grow hst hst hwf hwf rfl rfl⟩
  cases h with
  | ok hx hle hp hv =>
    obtain ⟨hst, hsound⟩ := hgrow hle hp
    exact .ok (by rw [onProgram, hx]) hst hsound hv
  | error hx hle hp he =>
    obtain ⟨hst, hsound⟩ := hgrow hle hp
    exact .error (by rw [onProgram, hx]) hst hsound (he _)

/-- A node of such a kind can be made. -/
theorem intern_ends (hr : Sound unit base attached s) {kind : NodeKind} {symbol : String}
    {endSymbol? : Option String} (hk : s.MayRefer kind)
    (hsymbols : unit.symbolsOf kind s = .ok (symbol, endSymbol?) s)
    (hkind : kind.isAttached = false) :
    Ends (Sound unit base attached) E (RankBelow · (kind.rank + 1))
      (intern ⟨kind, symbol, endSymbol?⟩) s := by
  obtain ⟨id, t, hx, hle, hwf, ha, y, hy, hsame⟩ :=
    intern_spec (x := ⟨kind, symbol, endSymbol?⟩) hr.left hsymbols hk.refers hkind
  refine .ok hx hle (hr.grow hle hle hwf hwf ha ha) ⟨y, hy, ?_⟩
  rw [hsame]
  exact Nat.lt_succ_self _

end ImageM

namespace CompilationUnit

theorem ends_weaken {R : Image → Prop} {x : ImageM NodeId} {rank rank' : Nat}
    (h : Ends R E (RankBelow · rank) x s) (hle : rank ≤ rank') :
    Ends R E (RankBelow · rank') x s :=
  h.imp fun _ _ hv => hv.weaken hle

/-- Asking for a symbol and making a node with it never fails. -/
theorem named_ends (hr : Sound unit base attached s) {action : ImageM String} {kind : NodeKind}
    (hk : s.MayRefer kind) (hsymbols : unit.symbolsOf kind = only action)
    (hkind : kind.isAttached = false) :
    Ends (Sound unit base attached) E (RankBelow · (kind.rank + 1))
      (do let symbol ← action; intern { kind, symbol }) s := by
  obtain ⟨symbols, hx⟩ := hr.exists_symbols hk
  have hx' := hsymbols ▸ hx
  obtain ⟨name, hn, rfl⟩ := only_eq_ok_iff.1 hx'
  exact .read hn (intern_ends hr hk hx hkind)

theorem externSymbol_ends (hr : Sound unit base attached s) (name : String) :
    Ends (Sound unit base attached) E (RankBelow · 1) (externSymbol name) s :=
  intern_ends hr (.externSymbol name) rfl rfl

theorem Sound.exists_ownsType (hr : Sound unit base attached s) {type : TypeId}
    (h : s.program.HasType type) :
    ∃ owned, unit.ownership.ownsType s.program type = .ok owned := by
  have hp : Extension base s.program := hr.left.program
  obtain ⟨owned, howned, -⟩ := unit.ownership.ownsType_agrees hp hp (.refl hp h)
  exact ⟨owned, howned⟩

/-! ## Entries of methods -/

section Entries

variable {method : MethodId}

theorem methodCode_ends (hr : Sound unit base attached s) (h : s.program.HasMethod method)
    (unboxing : Bool) : Ends (Sound unit base attached) E (RankBelow · (entryRank unboxing + 1))
      (methodCode ⟨method, unboxing⟩) s := by
  have hrank : (NodeKind.methodCode ⟨method, unboxing⟩).rank = entryRank unboxing := by
    cases unboxing <;> rfl
  rw [← hrank]
  exact named_ends hr (.methodCode ⟨rfl, h⟩) rfl rfl

theorem externMethod_ends (hr : Sound unit base attached s) (h : s.program.HasMethod method)
    (unboxing : Bool) :
    Ends (Sound unit base attached) E (RankBelow · 1) (externMethod ⟨method, unboxing⟩) s :=
  named_ends hr (.externMethod ⟨rfl, h⟩) rfl rfl

theorem ownedEntry_ends (hr : Sound unit base attached s) (h : s.program.HasMethod method)
    (unboxing : Bool) : Ends (Sound unit base attached) E (RankBelow · (entryRank unboxing + 1))
      (unit.ownedEntry ⟨method, unboxing⟩) s := by
  have hp : Extension base s.program := hr.left.program
  obtain ⟨owned, howned, -⟩ := unit.ownership.ownsMethod_agrees hp hp (.refl hp h)
  refine ends_ask howned ?_
  split
  · exact methodCode_ends hr h unboxing
  · exact ends_weaken (externMethod_ends hr h unboxing) (Nat.le_add_left 1 _)

theorem plainEntry_ends (hr : Sound unit base attached s) (h : s.program.HasMethod method) :
    Ends (Sound unit base attached) E (RankBelow · 2) (unit.plainEntry method) s := by
  obtain ⟨desc, hd⟩ := hasMethod_iff.1 h
  refine ends_ask hd ?_
  cases hi : desc.importSymbol? with
  | none => exact ownedEntry_ends hr h false
  | some symbol =>
    refine ends_weaken (intern_ends hr (.runtimeImport ⟨rfl, h⟩) ?_ rfl) (Nat.le_succ 1)
    rw [symbolsOf, bind_of_ok (ask_eq_ok hd), hi]
    rfl

theorem unboxingEntry_ends (hr : Sound unit base attached s) (h : s.program.HasMethod method) :
    Ends (Sound unit base attached) E (RankBelow · 3) (unit.unboxingEntry method) s := by
  have hp : Extension base s.program := hr.left.program
  obtain ⟨desc, hd⟩ := hasMethod_iff.1 h
  obtain ⟨shared, hs⟩ := hp.exists_isSharedMethod h
  refine ends_ask hd (ends_ask hs ?_)
  split
  · exact ownedEntry_ends hr h true
  · refine (plainEntry_ends hr h).bind fun hle hr hentry => ?_
    have h := h.mono hle.program
    exact named_ends hr (.unboxingStub ⟨rfl, h⟩ ⟨rfl, hentry.mayHold⟩) rfl rfl

theorem methodEntry_ends (hr : Sound unit base attached s) (h : s.program.HasMethod method)
    (unboxing : Bool) :
    Ends (Sound unit base attached) E (RankBelow · 3) (unit.methodEntry ⟨method, unboxing⟩) s := by
  cases unboxing with
  | true => exact unboxingEntry_ends hr h
  | false => exact ends_weaken (plainEntry_ends hr h) (Nat.le_succ 2)

theorem dictionaryLayout_ends (hr : Sound unit base attached s) (h : s.program.HasMethod method) :
    Ends (Sound unit base attached) E (RankBelow · 1) (dictionaryLayout (.method method)) s :=
  named_ends hr (.methodDictionary ⟨rfl, h⟩) rfl rfl

theorem canonicalMethod_ends (hr : Sound unit base attached s) (h : s.program.HasMethod method) :
    Ends (Sound unit base attached) E (fun t id => t.program.HasMethod id)
      (onProgram (ProgramM.canonicalMethod method)) s :=
  onProgram_ends hr (ProgramM.canonicalMethod_ends hr.left.program h)

theorem shadowMethod_ends (hr : Sound unit base attached s) (h : s.program.HasMethod method)
    (unboxing : Bool) :
    Ends (Sound unit base attached) E (RankBelow · 4) (unit.shadowMethod ⟨method, unboxing⟩)
      s := by
  refine (canonicalMethod_ends hr h).bind fun hle hr hcanonical => ?_
  have h := h.mono hle.program
  refine (methodEntry_ends hr hcanonical unboxing).bind fun hle hr hentry => ?_
  have h := h.mono hle.program
  exact named_ends hr (.shadowMethod ⟨rfl, h⟩ ⟨rfl, hentry.mayHold⟩) rfl rfl

theorem fatPointer_ends (hr : Sound unit base attached s) (h : s.program.HasMethod method)
    (unboxing : Bool) :
    Ends (Sound unit base attached) E (RankBelow · 4) (unit.fatPointer ⟨method, unboxing⟩) s := by
  refine (canonicalMethod_ends hr h).bind fun hle hr hcanonical => ?_
  have h := h.mono hle.program
  refine (methodEntry_ends hr hcanonical unboxing).bind fun hle hr hentry => ?_
  have h := h.mono hle.program
  refine (dictionaryLayout_ends hr h).bind fun hle hr hdictionary => ?_
  have h := h.mono hle.program
  have hentry : RankBelow _ 3 _ := hentry.mono hle
  have hdictionary : RankBelow _ 3 _ := hdictionary.weaken (Nat.le_add_left 1 2)
  exact named_ends hr
    (.fatPointer ⟨rfl, h⟩ ⟨rfl, hentry.mayHold⟩ ⟨rfl, hdictionary.mayHold⟩) rfl rfl

theorem eagerConstructor_ends (hr : Sound unit base attached s) (h : s.program.HasMethod method) :
    Ends (Sound unit base attached) E (RankBelow · 3) (CompilationUnit.eagerConstructor method) s :=
  named_ends hr (.eagerConstructor ⟨rfl, h⟩) rfl rfl

end Entries

/-! ## Static data -/

section Statics

variable {type : TypeId}

theorem typeNode_ends (hr : Sound unit base attached s) (h : s.program.HasType type)
    {family : SymbolFamily} {kind : NodeKind} (hk : s.MayRefer kind)
    (hsymbols : unit.symbolsOf kind = only (ask (·.typeSymbol family type)))
    (hkind : kind.isAttached = false) :
    Ends (Sound unit base attached) E (RankBelow · (kind.rank + 1)) (unit.typeNode type family kind)
      s := by
  obtain ⟨name, hn⟩ := Extension.exists_typeSymbol hr.left.program h family
  obtain ⟨owned, howned⟩ := Sound.exists_ownsType hr h
  refine ends_ask hn (ends_ask howned ?_)
  split
  · refine intern_ends hr hk ?_ hkind
    rw [hsymbols]
    exact only_eq_ok (ask_eq_ok hn)
  · exact ends_weaken (externSymbol_ends hr name) (Nat.le_add_left 1 _)

theorem gcStaticDesc_ends (hr : Sound unit base attached s) (h : s.program.HasType type)
    (thread : Bool) :
    Ends (Sound unit base attached) E (RankBelow · 1) (unit.gcStaticDesc type thread) s :=
  typeNode_ends hr h (.gcStaticDesc ⟨rfl, h⟩) rfl rfl

theorem gcStaticBase_ends (hr : Sound unit base attached s) (h : s.program.HasType type) :
    Ends (Sound unit base attached) E (RankBelow · 2) (unit.gcStaticBase type) s :=
  typeNode_ends hr h (.gcStaticBase ⟨rfl, h⟩) rfl rfl

theorem threadStaticsOffset_ends (hr : Sound unit base attached s) (h : s.program.HasType type) :
    Ends (Sound unit base attached) E (RankBelow · 2) (unit.threadStaticsOffset type) s :=
  typeNode_ends hr h (.threadStaticsOffset ⟨rfl, h⟩) rfl rfl

theorem threadStaticsIndexOf_ends (hr : Sound unit base attached s)
    (h : s.program.HasType type) :
    Ends (Sound unit base attached) E (RankBelow · 1) (unit.threadStaticsIndexOf type) s := by
  obtain ⟨owned, howned⟩ := Sound.exists_ownsType hr h
  refine ends_ask howned ?_
  split
  · exact .pure hr (hr.table (k := .threadStaticsIndex) rfl).2
  · exact externSymbol_ends hr _

theorem threadStaticsBlock_ends (hr : Sound unit base attached s) (h : s.program.HasType type) :
    Ends (Sound unit base attached) E (RankBelow · 1) (CompilationUnit.threadStaticsBlock type) s :=
  named_ends hr (.threadStaticsBlock ⟨rfl, h⟩) rfl rfl

end Statics

/-! ## What nodes need -/

theorem helper_ends (hr : Sound unit base attached s) {helper : Helper}
    (hk : s.MayRefer (.helper helper)) :
    Ends (Sound unit base attached) E (RankBelow · ((NodeKind.helper helper).rank + 1))
      (CompilationUnit.helper helper) s :=
  named_ends hr hk rfl rfl

/-- Nodes that are all of a lower rank. -/
def AllBelow (rank : Nat) (s : Image) (ids : List NodeId) : Prop := ∀ id ∈ ids, s.RankBelow rank id

@[simp] theorem allBelow_nil {rank : Nat} : AllBelow rank s [] := nofun

@[simp] theorem allBelow_cons {rank : Nat} {id : NodeId} {ids : List NodeId} :
    AllBelow rank s (id :: ids) ↔ s.RankBelow rank id ∧ AllBelow rank s ids :=
  List.forall_mem_cons

/-- A single node is all that is needed. -/
theorem singleton_ends {rank : Nat} {x : ImageM NodeId}
    (h : Ends (Sound unit base attached) E (RankBelow · rank) x s) :
    Ends (Sound unit base attached) E (AllBelow rank) (do return [← x]) s :=
  h.bind fun _ hr hv => .pure hr (by simp [hv])

theorem helperNeeds_ends (hr : Sound unit base attached s) {helper : Helper}
    (hk : (NodeKind.helper helper).Match (fun x y => x = y ∧ s.program.HasType x)
      (fun m n => m = n ∧ s.program.HasMethod m)
      (fun a b => a = b ∧ s.RankBelow (NodeKind.helper helper).rank a) (.helper helper)) :
    Ends (Sound unit base attached) E (AllBelow (NodeKind.helper helper).rank)
      (unit.helperNeeds helper) s := by
  cases hk with
  | delegateHelper hi ha ht =>
    refine .pure hr (allBelow_cons.2 ⟨hi.2, allBelow_cons.2 ⟨ha.2, ?_⟩⟩)
    intro id hid
    cases ht with
    | none => cases hid
    | some ht => exact List.mem_singleton.1 hid ▸ ht.2
  | gcStaticBaseHelper h => exact singleton_ends (gcStaticBase_ends hr h.2)
  | @threadStaticBaseHelper type type' h =>
    obtain ⟨-, h⟩ := h
    refine (threadStaticsOffset_ends hr h).bind fun hle hr hoffset => ?_
    have h := h.mono hle.program
    refine (threadStaticsIndexOf_ends hr h).bind fun hle hr hindex => ?_
    have h := h.mono hle.program
    have hoffset : RankBelow _ 2 _ := hoffset.mono hle
    have hindex : RankBelow _ 2 _ := hindex.weaken (Nat.le_succ 1)
    obtain ⟨desc, hd⟩ := hasType_iff.1 h
    refine ends_ask hd ?_
    split
    · exact .pure hr (allBelow_cons.2 ⟨hoffset, allBelow_cons.2 ⟨hindex, allBelow_nil⟩⟩)
    · refine (gcStaticDesc_ends hr h true).bind fun hle hr hdesc => .pure hr ?_
      exact allBelow_cons.2 ⟨hoffset.mono hle, allBelow_cons.2 ⟨hindex.mono hle,
        allBelow_cons.2 ⟨hdesc.weaken (Nat.le_succ 1), allBelow_nil⟩⟩⟩

/-- A unit that is attached can look its attachment up. -/
theorem attachment_ends {V : Image → α → Prop} {f : Attachment → ImageM α}
    (hr : Sound unit base true s)
    (h : ∀ {a}, s.attachment? = some a → a.Match base s s a →
      Ends (Sound unit base true) E V (f a) s) :
    Ends (Sound unit base true) E V (attachment >>= f) s := by
  obtain ⟨a, ha⟩ := Option.isSome_iff_exists.1 hr.isSome_attachment
  have hmatch := hr.attachment
  rw [ha] at hmatch
  cases hmatch with
  | some hmatch => exact .read (attachment_eq_ok.2 ⟨ha, rfl⟩) (h ha hmatch)

/-- Whatever a node needs without a body that asks for it can be made, and is of lower rank. Regions
around single descriptors are left out. -/
theorem needs_ends (hr : Sound unit base true s) {kind : NodeKind}
    (hk : kind.Match (fun x y => x = y ∧ s.program.HasType x)
      (fun m n => m = n ∧ s.program.HasMethod m) (fun a b => a = b ∧ s.RankBelow kind.rank a) kind)
    (hcode : ∀ method, kind ≠ .methodCode ⟨method, false⟩) :
    Ends (Sound unit base true) E (AllBelow kind.rank) (unit.needs kind) s := by
  cases hk with
  | @methodCode method _ unboxing h =>
    cases unboxing with
    | false => exact absurd rfl (hcode method)
    | true => exact singleton_ends (plainEntry_ends hr h.2)
  | unboxingStub h ha => exact .pure hr (allBelow_cons.2 ⟨ha.2, allBelow_nil⟩)
  | shadowMethod h ha =>
    refine (dictionaryLayout_ends hr h.2).bind fun hle hr hdictionary => .pure hr ?_
    exact allBelow_cons.2 ⟨ha.2.mono hle,
      allBelow_cons.2 ⟨hdictionary.weaken (Nat.le_add_left 1 2), allBelow_nil⟩⟩
  | fatPointer h ha hd =>
    exact .pure hr (allBelow_cons.2 ⟨ha.2, allBelow_cons.2 ⟨hd.2, allBelow_nil⟩⟩)
  | threadStaticsOffset h =>
    refine (threadStaticsBlock_ends hr h.2).bind fun hle hr hblock => .pure hr ?_
    obtain ⟨hstart, -⟩ := hr.threadTables
    exact allBelow_cons.2 ⟨hblock, allBelow_cons.2 ⟨hstart.2, allBelow_nil⟩⟩
  | gcStaticBase h => exact singleton_ends (gcStaticDesc_ends hr h.2 false)
  | eagerConstructor h => exact singleton_ends (plainEntry_ends hr h.2)
  | standaloneRegion h => exact .pure hr (allBelow_cons.2 ⟨h.2, allBelow_nil⟩)
  | tlsDirectory =>
    obtain ⟨hstart, hend, hindex⟩ := hr.threadTables
    exact .pure hr (allBelow_cons.2 ⟨hstart.2,
      allBelow_cons.2 ⟨hend.2, allBelow_cons.2 ⟨hindex.2, allBelow_nil⟩⟩⟩)
  | header =>
    refine attachment_ends hr fun _ hmatch => .pure hr fun id hid => ?_
    obtain ⟨entry, he, rfl⟩ := List.mem_map.1 hid
    obtain ⟨_, -, hentry⟩ := exists_mem_of_forall₂ hmatch.entries.flip he
    exact hentry.2.rank
  | modulesSection =>
    exact attachment_ends hr fun _ hmatch =>
      .pure hr (allBelow_cons.2 ⟨hmatch.rank, allBelow_nil⟩)
  | delegateHelper hi ha ht => exact helperNeeds_ends hr (.delegateHelper hi ha ht)
  | gcStaticBaseHelper h => exact helperNeeds_ends hr (.gcStaticBaseHelper h)
  | threadStaticBaseHelper h => exact helperNeeds_ends hr (.threadStaticBaseHelper h)
  | externMethod _ => exact .pure hr allBelow_nil
  | runtimeImport _ => exact .pure hr allBelow_nil
  | externSymbol _ => exact .pure hr allBelow_nil
  | gcStaticDesc _ => exact .pure hr allBelow_nil
  | threadStaticsBlock _ => exact .pure hr allBelow_nil
  | methodDictionary _ => exact .pure hr allBelow_nil
  | typeDictionary _ => exact .pure hr allBelow_nil
  | region _ => exact .pure hr allBelow_nil
  | threadStaticsIndex => exact .pure hr allBelow_nil
  | typeManagerIndirection => exact .pure hr allBelow_nil
  | metadataBlob => exact .pure hr allBelow_nil

end CompilationUnit

end NativeImage
