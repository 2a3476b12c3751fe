import NativeImage.Proofs.CompilationUnit.Asking
import NativeImage.Proofs.CompilationUnit.AttachmentAgreement

/-!
# Caches in front of an append-only table

A unit never looks for a node in its table of nodes: it looks up a key in a cache, and where the key
is missing it appends a node, whatever the table holds. Several keys may lead to one node, and a
constructor may ask for other keys on its way. Here the operations that make nodes are written this
way, and shown to do what the operations do that look for a node of the same kind: each node but the
tables has one key under which it is always cached, so a key that is missing has no node yet.

## Main definitions

- `CachedImage`, `CachedM.getOrAdd` — an image with what its caches hold
- `CompilationUnit.cachedAnswer` — the node of a key, by caches
- `NodeKind.home?` — the key under which a node of a kind is cached
- `CachedImage.Consistent` — caches that hold the key of every node but the tables
- `Image.ByCaches` — images that a unit comes to when it uses caches only

## Main statements

- `CompilationUnit.cachedAnswer_simulates` — asking by caches and by kind gives the same
- `CachedImage.Reachable.consistent` — caches stay consistent whatever a unit does
-/

namespace NativeImage

/-! ## Caches -/

/-- An image with what the caches of its unit hold, the latest first. -/
structure CachedImage where
  image : Image
  cached : List (CacheKey × NodeId)

/-- Operations on an image and its caches. -/
abbrev CachedM := EStateM CompileError CachedImage

namespace CachedM

/-- Run an operation that does not use the caches. -/
def onImage {α : Type} (x : ImageM α) : CachedM α := fun c =>
  match x c.image with
  | .ok a image => .ok a { c with image }
  | .error e image => .error e { c with image }

/-- The node that is cached under a key, else the one that is built, which is cached from then on.
A node that could not be built is not cached. -/
def getOrAdd (key : CacheKey) (build : CachedM NodeId) : CachedM NodeId := fun c =>
  match c.cached.lookup key with
  | some id => .ok id c
  | none =>
    match build c with
    | .ok id c => .ok id { c with cached := (key, id) :: c.cached }
    | .error e c => .error e c

theorem onImage_ok {α : Type} {x : ImageM α} {c : CachedImage} {a : α} {s : Image}
    (h : x c.image = .ok a s) : onImage x c = .ok a ⟨s, c.cached⟩ := by
  rw [onImage, h]

theorem onImage_error {α : Type} {x : ImageM α} {c : CachedImage} {e : CompileError} {s : Image}
    (h : x c.image = .error e s) : onImage x c = .error e ⟨s, c.cached⟩ := by
  rw [onImage, h]

end CachedM

/-- The kind of the node that a key stands for. -/
def LeafKey.kind : LeafKey → NodeKind
  | methodCode entry => .methodCode entry
  | dictionaryLayout owner => .dictionaryLayout owner
  | gcStaticDesc type thread => .gcStaticDesc type thread
  | threadStaticsOffset type => .threadStaticsOffset type
  | gcStaticBase type => .gcStaticBase type
  | threadStaticsBlock type => .threadStaticsBlock type
  | eagerConstructor method => .eagerConstructor method
  | externSymbol name => .externSymbol name
  | standaloneRegion descriptor => .standaloneRegion descriptor
  | helper routine => .helper routine

/-- The key under which a node of the kind is cached; none for the tables of a unit. -/
def NodeKind.home? : NodeKind → Option CacheKey
  | methodCode entry => some (.leaf (.methodCode entry))
  | externMethod entry => some (.entry entry)
  | runtimeImport method => some (.plainEntry method)
  | unboxingStub method _ => some (.unboxingEntry method)
  | shadowMethod entry _ => some (.shadowMethod entry)
  | fatPointer entry _ _ => some (.fatPointer entry)
  | externSymbol name => some (.leaf (.externSymbol name))
  | gcStaticDesc type thread => some (.leaf (.gcStaticDesc type thread))
  | threadStaticsOffset type => some (.leaf (.threadStaticsOffset type))
  | threadStaticsBlock type => some (.leaf (.threadStaticsBlock type))
  | gcStaticBase type => some (.leaf (.gcStaticBase type))
  | eagerConstructor method => some (.leaf (.eagerConstructor method))
  | dictionaryLayout owner => some (.leaf (.dictionaryLayout owner))
  | standaloneRegion descriptor => some (.leaf (.standaloneRegion descriptor))
  | helper routine => some (.leaf (.helper routine))
  | region _ | threadStaticsIndex | tlsDirectory | header | modulesSection
  | typeManagerIndirection | metadataBlob => none

theorem LeafKey.home?_kind (key : LeafKey) : key.kind.home? = some (.leaf key) := by
  cases key <;> rfl

/-- Nodes that an attachment brings are not cached. -/
theorem NodeKind.home?_of_isAttached {kind : NodeKind} (h : kind.isAttached = true) :
    kind.home? = none := by
  cases kind <;> first | rfl | cases h

namespace CompilationUnit

open ImageM CachedM

variable (unit : CompilationUnit)

/-- Append a node of the kind, whatever nodes there are. -/
def appendKind (kind : NodeKind) : ImageM NodeId := do
  let symbols ← unit.symbolsOf kind
  append ⟨kind, symbols.1, symbols.2⟩

/-- The node of the kind, which is appended if there is none. -/
def internKind (kind : NodeKind) : ImageM NodeId := do
  let symbols ← unit.symbolsOf kind
  intern ⟨kind, symbols.1, symbols.2⟩

def cachedLeaf (key : LeafKey) : CachedM NodeId :=
  getOrAdd (.leaf key) (onImage (unit.appendKind key.kind))

/-- Code of this unit has a cache of its own, code of other units none. -/
def cachedOwned (entry : MethodEntry) : CachedM NodeId := do
  if ← onImage (unit.ownsMethod entry.method) then
    unit.cachedLeaf (.methodCode entry)
  else
    onImage (unit.appendKind (.externMethod entry))

def cachedPlain (method : MethodId) : CachedM NodeId :=
  getOrAdd (.plainEntry method) do
    let desc ← onImage (ask (·.methodDesc method))
    match desc.importSymbol? with
    | some _ => onImage (unit.appendKind (.runtimeImport method))
    | none => unit.cachedOwned ⟨method, false⟩

def cachedUnboxing (method : MethodId) : CachedM NodeId :=
  getOrAdd (.unboxingEntry method) do
    let desc ← onImage (ask (·.methodDesc method))
    if (← onImage (ask (·.isSharedMethod method))) && desc.args.isEmpty then
      unit.cachedOwned ⟨method, true⟩
    else
      let target ← unit.cachedPlain method
      onImage (unit.appendKind (.unboxingStub method target))

def cachedEntry (entry : MethodEntry) : CachedM NodeId :=
  if entry.unboxing then unit.cachedUnboxing entry.method else unit.cachedPlain entry.method

def cachedShadow (entry : MethodEntry) : CachedM NodeId :=
  getOrAdd (.shadowMethod entry) do
    let canonical ← onImage (onProgram (ProgramM.canonicalMethod entry.method))
    let target ← unit.cachedEntry ⟨canonical, entry.unboxing⟩
    onImage (unit.appendKind (.shadowMethod entry target))

def cachedFat (entry : MethodEntry) : CachedM NodeId :=
  getOrAdd (.fatPointer entry) do
    let canonical ← onImage (onProgram (ProgramM.canonicalMethod entry.method))
    let target ← unit.cachedEntry ⟨canonical, entry.unboxing⟩
    let dictionary ← unit.cachedLeaf (.dictionaryLayout (.method entry.method))
    onImage (unit.appendKind (.fatPointer entry target dictionary))

/-- The node of a key, by caches. -/
def cachedAnswer : CacheKey → CachedM NodeId
  | .plainEntry method => unit.cachedPlain method
  | .unboxingEntry method => unit.cachedUnboxing method
  | .shadowMethod entry => unit.cachedShadow entry
  | .fatPointer entry => unit.cachedFat entry
  | .leaf key => unit.cachedLeaf key

/-! ## Operations by kind -/

theorem constructLeaf_eq (key : LeafKey) : constructLeaf key = unit.internKind key.kind := by
  cases key <;> simp only [internKind, LeafKey.kind, symbolsOf, only, bind_assoc, pure_bind] <;> rfl

theorem internKind_of_only {kind : NodeKind} {symbol : ImageM String}
    (h : unit.symbolsOf kind = only symbol) : unit.internKind kind = (do
      let name ← symbol
      intern { kind, symbol := name }) := by
  simp only [internKind, h, only, bind_assoc, pure_bind]

theorem externMethod_eq (entry : MethodEntry) :
    externMethod entry = unit.internKind (.externMethod entry) :=
  (unit.internKind_of_only rfl).symm

theorem internKind_settles (kind : NodeKind) : Settles (unit.internKind kind) :=
  (unit.symbolsOf_settles kind).bind fun _ => intern_settles _

theorem answer_settles (key : CacheKey) : Settles (unit.answer key) := by
  cases key with
  | plainEntry method => exact unit.plainEntry_settles method
  | unboxingEntry method => exact unit.unboxingEntry_settles method
  | shadowMethod entry => exact unit.shadowMethod_settles entry
  | fatPointer entry => exact unit.fatPointer_settles entry
  | leaf key =>
    rw [answer, constructLeaf_eq unit key]
    exact unit.internKind_settles key.kind

end CompilationUnit

/-! ## Caches and nodes -/

namespace CachedImage

open ImageM

variable {unit : CompilationUnit} {base : Program} {c : CachedImage} {s : Image}
  {pending : CacheKey → NodeId → Prop}

/-- What ties the nodes of an image to its caches, except for what is about to be cached. -/
structure ConsistentBut (unit : CompilationUnit) (base : Program)
    (pending : CacheKey → NodeId → Prop) (c : CachedImage) : Prop where
  initial_le : Image.initial unit.config base ≤ c.image
  kinds : c.image.KindsDiffer
  symbols : ∀ {id : NodeId} {x}, c.image.nodes[id.index]? = some x →
    unit.symbolsOf x.kind c.image = .ok (x.symbol, x.endSymbol?) c.image
  unattached : c.image.attachment? = none → ∀ {id : NodeId} {x},
    c.image.nodes[id.index]? = some x → x.kind.isAttached = false
  /-- What is cached under a key is what its operation gives. -/
  answers : ∀ {key id}, c.cached.lookup key = some id → unit.answer key c.image = .ok id c.image
  /-- Every node but the tables is cached under its key, or about to be. -/
  homes : ∀ {id : NodeId} {x} {key}, c.image.nodes[id.index]? = some x →
    x.kind.home? = some key → c.cached.lookup key = some id ∨ pending key id

/-- The caches hold the key of every node but the tables, and nothing that is no answer. -/
def Consistent (unit : CompilationUnit) (base : Program) (c : CachedImage) : Prop :=
  c.ConsistentBut unit base fun _ _ => False

theorem Consistent.but (h : c.Consistent unit base) : c.ConsistentBut unit base pending :=
  ⟨h.initial_le, h.kinds, h.symbols, h.unattached, h.answers,
    fun hx hkey => .inl ((h.homes hx hkey).resolve_right id)⟩

/-- A node whose key is missing is new. -/
theorem Consistent.findNode? (h : c.Consistent unit base) {kind : NodeKind} {key : CacheKey}
    (hkey : kind.home? = some key) (hmiss : c.cached.lookup key = none) :
    findNode? kind c.image = none := by
  cases hfound : ImageM.findNode? kind c.image with
  | none => rfl
  | some id =>
    obtain ⟨x, hx, rfl⟩ := findNode?_spec hfound
    cases hmiss.symm.trans ((h.homes hx hkey).resolve_right fun hfalse => hfalse)

/-- Caches stay consistent when only the rest of the image grows. -/
theorem Consistent.grow (h : c.Consistent unit base) (hle : c.image ≤ s)
    (hnodes : s.nodes = c.image.nodes)
    (hattached : s.attachment? = none → c.image.attachment? = none) :
    Consistent unit base ⟨s, c.cached⟩ where
  initial_le := h.initial_le.trans hle
  kinds := by
    rw [Image.KindsDiffer, hnodes]
    exact h.kinds
  symbols hx := by
    rw [hnodes] at hx
    exact (unit.symbolsOf_settles _).again (h.symbols hx) hle
  unattached hn _ _ hx := by
    rw [hnodes] at hx
    exact h.unattached (hattached hn) hx
  answers hkey := (unit.answer_settles _).again (h.answers hkey) hle
  homes hx hkey := by
    rw [hnodes] at hx
    exact h.homes hx hkey

/-- A node of a new kind may be appended if its key is about to be cached. -/
theorem ConsistentBut.push (h : c.ConsistentBut unit base pending) {x : Node}
    (hfresh : ∀ {id : NodeId} {y}, c.image.nodes[id.index]? = some y → y.kind ≠ x.kind)
    (hsymbols : unit.symbolsOf x.kind c.image = .ok (x.symbol, x.endSymbol?) c.image)
    (hattached : c.image.attachment? = none → x.kind.isAttached = false)
    {pending' : CacheKey → NodeId → Prop} (hpending : ∀ {key id}, pending key id → pending' key id)
    (hhome : ∀ key, x.kind.home? = some key → pending' key ⟨c.image.nodes.size⟩) :
    ConsistentBut unit base pending'
      ⟨{ c.image with nodes := c.image.nodes.push x }, c.cached⟩ := by
  have hle := le_pushNode c.image x
  refine ⟨h.initial_le.trans hle, Image.KindsDiffer.push h.kinds hfresh, fun hy => ?_,
    fun hn {id y} hy => ?_, fun hkey => (unit.answer_settles _).again (h.answers hkey) hle,
    fun hy hkey => ?_⟩
  · rcases Image.nodes_push.1 hy with hold | ⟨rfl, rfl⟩
    · exact (unit.symbolsOf_settles _).again (h.symbols hold) hle
    · exact (unit.symbolsOf_settles _).again hsymbols hle
  · rcases Image.nodes_push.1 hy with hold | ⟨rfl, rfl⟩
    · exact h.unattached hn hold
    · exact hattached hn
  · rcases Image.nodes_push.1 hy with hold | ⟨rfl, rfl⟩
    · exact (h.homes hold hkey).imp_right hpending
    · exact .inr (hhome _ hkey)

end CachedImage

/-! ## Operations with and without caches -/

/-- With consistent caches an operation does what another one does without them, and leaves alone
what is cached under keys of the level and above. -/
inductive Simulates {α : Type} (unit : CompilationUnit) (base : Program) (level : Nat)
    (Q : CachedImage → α → Prop) (x : CachedM α) (y : ImageM α) (c : CachedImage) : Prop
  | ok {a : α} {d : CachedImage} (hx : x c = .ok a d) (hy : y c.image = .ok a d.image)
    (hle : c.image ≤ d.image)
    (hkept : ∀ key : CacheKey, level ≤ key.level → d.cached.lookup key = c.cached.lookup key)
    (hq : Q d a)
  | error {e : CompileError} {d : CachedImage} (hx : x c = .error e d)
    (hy : y c.image = .error e d.image) (hle : c.image ≤ d.image)
    (hkept : ∀ key : CacheKey, level ≤ key.level → d.cached.lookup key = c.cached.lookup key)
    (hd : d.Consistent unit base)

namespace Simulates

open ImageM CachedM CachedImage

variable {α β : Type} {unit : CompilationUnit} {base : Program} {level level' : Nat}
  {Q : CachedImage → α → Prop} {Q' : CachedImage → β → Prop} {x : CachedM α} {y y' : ImageM α}
  {c : CachedImage}

/-- Only what the operation without caches does in the image counts. -/
theorem congr (hy : y c.image = y' c.image) (h : Simulates unit base level Q x y' c) :
    Simulates unit base level Q x y c := by
  cases h with
  | ok hx hy' hle hkept hq => exact .ok hx (hy.trans hy') hle hkept hq
  | error hx hy' hle hkept hd => exact .error hx (hy.trans hy') hle hkept hd

theorem imp {P : CachedImage → α → Prop} (h : Simulates unit base level Q x y c)
    (hlevel : level ≤ level') (himp : ∀ d a, Q d a → P d a) :
    Simulates unit base level' P x y c := by
  cases h with
  | ok hx hy hle hkept hq =>
    exact .ok hx hy hle (fun key hkey => hkept key (Nat.le_trans hlevel hkey)) (himp _ _ hq)
  | error hx hy hle hkept hd =>
    exact .error hx hy hle (fun key hkey => hkept key (Nat.le_trans hlevel hkey)) hd

theorem bind {f : α → CachedM β} {g : α → ImageM β} (h : Simulates unit base level Q x y c)
    (hf : ∀ {a d}, (∀ key : CacheKey, level ≤ key.level →
        d.cached.lookup key = c.cached.lookup key) → Q d a →
      Simulates unit base level Q' (f a) (g a) d) :
    Simulates unit base level Q' (x >>= f) (y >>= g) c := by
  cases h with
  | ok hx hy hle hkept hq =>
    cases hf hkept hq with
    | ok hx' hy' hle' hkept' hq' =>
      exact .ok ((bind_of_ok hx).trans hx') ((bind_of_ok hy).trans hy') (hle.trans hle')
        (fun key hkey => (hkept' key hkey).trans (hkept key hkey)) hq'
    | error hx' hy' hle' hkept' hd =>
      exact .error ((bind_of_ok hx).trans hx') ((bind_of_ok hy).trans hy') (hle.trans hle')
        (fun key hkey => (hkept' key hkey).trans (hkept key hkey)) hd
  | error hx hy hle hkept hd =>
    exact .error (bind_eq_error.2 (.inl hx)) (bind_eq_error.2 (.inl hy)) hle hkept hd

/-- What only reads the image may come first. -/
theorem read {f : α → CachedM β} {g : α → ImageM β} (hy : ReadOnly y)
    (hc : c.Consistent unit base)
    (hf : ∀ a, y c.image = .ok a c.image → Simulates unit base level Q' (f a) (g a) c) :
    Simulates unit base level Q' (onImage y >>= f) (y >>= g) c := by
  cases h : y c.image with
  | ok a s =>
    obtain rfl := hy.same h
    have hx : onImage y c = .ok a c := onImage_ok h
    cases hf a h with
    | ok hx' hy' hle hkept hq =>
      exact .ok ((bind_of_ok hx).trans hx') ((bind_of_ok h).trans hy') hle hkept hq
    | error hx' hy' hle hkept hd =>
      exact .error ((bind_of_ok hx).trans hx') ((bind_of_ok h).trans hy') hle hkept hd
  | error e s =>
    obtain rfl := hy.same_error h
    have hx : onImage y c = .error e c := onImage_error h
    exact .error (bind_eq_error.2 (.inl hx)) (bind_eq_error.2 (.inl h)) le_rfl (fun _ _ => rfl) hc

/-- Programs may grow: nothing that is cached depends on it. -/
theorem onProgram {action : ProgramM α} (haction : Settles action) (hc : c.Consistent unit base) :
    Simulates unit base level (fun d _ => d.Consistent unit base)
      (onImage (onProgram action)) (ImageM.onProgram action) c := by
  cases h : action c.image.program with
  | ok a p =>
    have hy : ImageM.onProgram action c.image = .ok a { c.image with program := p } := by
      rw [ImageM.onProgram, h]
    have hle : c.image ≤ { c.image with program := p } :=
      ⟨haction.grows h, .refl _, fun _ h => h⟩
    exact .ok (onImage_ok hy) hy hle (fun _ _ => rfl) (hc.grow hle rfl id)
  | error e p =>
    have hy : ImageM.onProgram action c.image =
        .error (.program e) { c.image with program := p } := by
      rw [ImageM.onProgram, h]
    have hle : c.image ≤ { c.image with program := p } :=
      ⟨haction.grows_error h, .refl _, fun _ h => h⟩
    exact .error (onImage_error hy) hy hle (fun _ _ => rfl) (hc.grow hle rfl id)

/-- Under a key that is missing, a node may be appended without a search. -/
theorem appendKind (kind : NodeKind) {key : CacheKey} (hkey : kind.home? = some key)
    (hc : c.Consistent unit base) (hmiss : c.cached.lookup key = none) :
    Simulates unit base level
      (fun d id => d.ConsistentBut unit base fun k i => k = key ∧ i = id)
      (onImage (unit.appendKind kind)) (unit.internKind kind) c := by
  -- a node of that kind would be cached under the key
  have hnone := hc.findNode? hkey hmiss
  have hread := unit.symbolsOf_readOnly kind
  cases h : unit.symbolsOf kind c.image with
  | ok symbols s =>
    obtain rfl := hread.same h
    let x : Node := ⟨kind, symbols.1, symbols.2⟩
    have hintern : intern x c.image =
        .ok ⟨c.image.nodes.size⟩ { c.image with nodes := c.image.nodes.push x } := by
      rw [intern_apply]
      simp only [x, hnone]
    have happend : unit.appendKind kind c.image =
        .ok ⟨c.image.nodes.size⟩ { c.image with nodes := c.image.nodes.push x } := bind_of_ok h
    refine .ok (onImage_ok happend) ((bind_of_ok h).trans hintern) (le_pushNode _ x)
      (fun _ _ => rfl) ?_
    refine ConsistentBut.push hc (kind_ne_of_findNode? hnone) h (fun _ => ?_) (fun hf => hf.elim)
      fun k hk => ⟨Option.some_inj.1 (hk.symm.trans hkey), rfl⟩
    cases ha : kind.isAttached with
    | false => rfl
    | true => cases (NodeKind.home?_of_isAttached ha).symm.trans hkey
  | error e s =>
    obtain rfl := hread.same_error h
    have happend : unit.appendKind kind c.image = .error e c.image :=
      bind_eq_error.2 (.inl h)
    exact .error (onImage_error happend) (bind_eq_error.2 (.inl h)) le_rfl (fun _ _ => rfl) hc

/-- What is built for a missing key is cached under it, after all that was built on the way. -/
theorem getOrAdd (key : CacheKey) {build : CachedM NodeId} (hc : c.Consistent unit base)
    (hbuild : c.cached.lookup key = none → Simulates unit base key.level
      (fun d id => d.ConsistentBut unit base fun k i => k = key ∧ i = id) build
      (unit.answer key) c) :
    Simulates unit base (key.level + 1) (fun d _ => d.Consistent unit base)
      (getOrAdd key build) (unit.answer key) c := by
  cases hlookup : c.cached.lookup key with
  | some id =>
    have hx : CachedM.getOrAdd key build c = .ok id c := by rw [CachedM.getOrAdd, hlookup]
    exact .ok hx (hc.answers hlookup) le_rfl (fun _ _ => rfl) hc
  | none =>
    have hx : CachedM.getOrAdd key build c = match build c with
        | .ok id d => .ok id { d with cached := (key, id) :: d.cached }
        | .error e d => .error e d := by rw [CachedM.getOrAdd, hlookup]
    -- what is built on the way has keys of lower levels, so the key is still missing afterwards
    have hne {k : CacheKey} (hk : key.level + 1 ≤ k.level) : k ≠ key := by
      rintro rfl
      exact Nat.not_succ_le_self _ hk
    cases hbuild hlookup with
    | @ok id d hb hy hle hkept hd =>
      rw [hb] at hx
      refine .ok hx hy hle (fun k hk => ?_) ⟨hd.initial_le, hd.kinds, hd.symbols, hd.unattached,
        fun {k i} hk => ?_, fun {i y k} hy hk => ?_⟩
      · rw [List.lookup_cons, beq_false_of_ne (hne hk)]
        exact hkept k (Nat.le_of_succ_le hk)
      · by_cases hkey : k = key
        · subst hkey
          rw [List.lookup_cons_self] at hk
          cases hk
          exact (unit.answer_settles k).repeat_self hy
        · rw [List.lookup_cons, beq_false_of_ne hkey] at hk
          exact hd.answers hk
      · by_cases hkey : k = key
        · subst hkey
          rw [List.lookup_cons_self]
          refine .inl (congrArg some ?_)
          -- a node of that key is the one just built, for no other was cached before
          rcases hd.homes hy hk with hold | hpending
          · cases ((hkept k (Nat.le_refl _)).trans hlookup).symm.trans hold
          · exact hpending.2.symm
        · rw [List.lookup_cons, beq_false_of_ne hkey]
          exact .inl ((hd.homes hy hk).resolve_right fun hpending => hkey hpending.1)
    | error hb hy hle hkept hd =>
      rw [hb] at hx
      exact .error hx hy hle (fun k hk => hkept k (Nat.le_of_succ_le hk)) hd

end Simulates

namespace CompilationUnit

open ImageM CachedM CachedImage

variable {unit : CompilationUnit} {base : Program} {c : CachedImage}

/-! ## Nodes by caches -/

theorem cachedLeaf_simulates (key : LeafKey) (hc : c.Consistent unit base) :
    Simulates unit base 1 (fun d _ => d.Consistent unit base) (unit.cachedLeaf key)
      (constructLeaf key) c := by
  refine .getOrAdd (.leaf key) hc fun hmiss =>
    .congr ?_ (.appendKind key.kind key.home?_kind hc hmiss)
  rw [answer, constructLeaf_eq unit key]

/-- Code of other units is appended where it is asked for, which is done once for each entry. -/
theorem cachedOwned_simulates (entry : MethodEntry) (hc : c.Consistent unit base)
    (hmiss : c.cached.lookup (.entry entry) = none) :
    Simulates unit base 1
      (fun d id => d.ConsistentBut unit base fun k i => k = .entry entry ∧ i = id)
      (unit.cachedOwned entry) (unit.ownedEntry entry) c := by
  refine .read (ask_readOnly _) hc fun own _ => ?_
  cases own with
  | true =>
    exact (cachedLeaf_simulates (.methodCode entry) hc).imp (Nat.le_refl 1) fun _ _ hd => hd.but
  | false =>
    exact .congr (congrFun (unit.externMethod_eq entry) _)
      (.appendKind (.externMethod entry) rfl hc hmiss)

theorem cachedPlain_simulates (method : MethodId) (hc : c.Consistent unit base) :
    Simulates unit base 2 (fun d _ => d.Consistent unit base) (unit.cachedPlain method)
      (unit.plainEntry method) c := by
  refine .getOrAdd (.plainEntry method) hc fun hmiss => ?_
  refine .read (ask_readOnly _) hc fun desc hdesc => ?_
  cases himport : desc.importSymbol? with
  | none => exact cachedOwned_simulates ⟨method, false⟩ hc hmiss
  | some name =>
    refine .congr ?_ (.appendKind (.runtimeImport method) rfl hc hmiss)
    have hsymbols : unit.symbolsOf (.runtimeImport method) c.image = .ok (name, none) c.image :=
      (bind_of_ok hdesc).trans (by rw [himport]; rfl)
    rw [internKind, bind_of_ok hsymbols]

theorem cachedUnboxing_simulates (method : MethodId) (hc : c.Consistent unit base) :
    Simulates unit base 3 (fun d _ => d.Consistent unit base) (unit.cachedUnboxing method)
      (unit.unboxingEntry method) c := by
  refine .getOrAdd (.unboxingEntry method) hc fun hmiss => ?_
  refine .read (ask_readOnly _) hc fun desc _ => .read (ask_readOnly _) hc fun shared _ => ?_
  split
  · exact (cachedOwned_simulates ⟨method, true⟩ hc hmiss).imp (Nat.le_add_left 1 1) fun _ _ hd => hd
  · refine (cachedPlain_simulates method hc).bind fun {target d} hkept hd => ?_
    refine .congr ?_ (.appendKind (.unboxingStub method target) rfl hd
      ((hkept (.unboxingEntry method) (Nat.le_refl 2)).trans hmiss))
    exact congrFun (unit.internKind_of_only rfl).symm _

theorem cachedEntry_simulates (entry : MethodEntry) (hc : c.Consistent unit base) :
    Simulates unit base 3 (fun d _ => d.Consistent unit base) (unit.cachedEntry entry)
      (unit.methodEntry entry) c := by
  rw [cachedEntry, methodEntry]
  split
  · exact cachedUnboxing_simulates entry.method hc
  · exact (cachedPlain_simulates entry.method hc).imp (Nat.le_succ 2) fun _ _ hd => hd

theorem cachedShadow_simulates (entry : MethodEntry) (hc : c.Consistent unit base) :
    Simulates unit base 4 (fun d _ => d.Consistent unit base) (unit.cachedShadow entry)
      (unit.shadowMethod entry) c := by
  refine .getOrAdd (.shadowMethod entry) hc fun hmiss => ?_
  refine (Simulates.onProgram (ProgramM.canonicalMethod_settles _) hc).bind
    fun {canonical d} hkept hd => ?_
  refine (cachedEntry_simulates _ hd).bind fun {target d'} hkept' hd' => ?_
  refine .congr ?_ (.appendKind (.shadowMethod entry target) rfl hd' ?_)
  · exact congrFun (unit.internKind_of_only rfl).symm _
  · have hlevel : 3 ≤ (CacheKey.shadowMethod entry).level := Nat.le_refl 3
    rw [hkept' _ hlevel, hkept _ hlevel, hmiss]

theorem cachedFat_simulates (entry : MethodEntry) (hc : c.Consistent unit base) :
    Simulates unit base 4 (fun d _ => d.Consistent unit base) (unit.cachedFat entry)
      (unit.fatPointer entry) c := by
  refine .getOrAdd (.fatPointer entry) hc fun hmiss => ?_
  refine (Simulates.onProgram (ProgramM.canonicalMethod_settles _) hc).bind
    fun {canonical d} hkept hd => ?_
  refine (cachedEntry_simulates _ hd).bind fun {target d'} hkept' hd' => ?_
  have hdictionary := (cachedLeaf_simulates (.dictionaryLayout (.method entry.method)) hd').imp
    (show 1 ≤ 3 by decide) fun _ _ hd => hd
  refine hdictionary.bind fun {dictionary d''} hkept'' hd'' => ?_
  refine .congr ?_ (.appendKind (.fatPointer entry target dictionary) rfl hd'' ?_)
  · exact congrFun (unit.internKind_of_only rfl).symm _
  · have hlevel : 3 ≤ (CacheKey.fatPointer entry).level := Nat.le_refl 3
    rw [hkept'' _ hlevel, hkept' _ hlevel, hkept _ hlevel, hmiss]

/-- Asking by caches and by kind gives the same, and caches stay consistent. -/
theorem cachedAnswer_simulates (key : CacheKey) (hc : c.Consistent unit base) :
    Simulates unit base 4 (fun d _ => d.Consistent unit base) (unit.cachedAnswer key)
      (unit.answer key) c := by
  cases key with
  | plainEntry method =>
    exact (cachedPlain_simulates method hc).imp (Nat.le_add_left 2 2) fun _ _ hd => hd
  | unboxingEntry method =>
    exact (cachedUnboxing_simulates method hc).imp (Nat.le_succ 3) fun _ _ hd => hd
  | shadowMethod entry => exact cachedShadow_simulates entry hc
  | fatPointer entry => exact cachedFat_simulates entry hc
  | leaf key =>
    exact (cachedLeaf_simulates key hc).imp (Nat.le_add_left 1 3) fun _ _ hd => hd

end CompilationUnit

namespace CachedImage

open CompilationUnit ImageM

variable {unit : CompilationUnit} {base : Program} {c : CachedImage}

/-! ## Images with caches -/

def tlsStartKey (unit : CompilationUnit) : CacheKey :=
  .leaf (.externSymbol (tlsStartSymbol unit.config.arch.decoration))

def tlsEndKey (unit : CompilationUnit) : CacheKey :=
  .leaf (.externSymbol (tlsEndSymbol unit.config.arch.decoration))

theorem tlsStartKey_ne_tlsEndKey (unit : CompilationUnit) : tlsStartKey unit ≠ tlsEndKey unit := by
  rw [tlsStartKey, tlsEndKey]
  cases unit.config.arch <;> decide

/-- The tables of a unit, two of which have been asked for as symbols of other units. -/
def initial (unit : CompilationUnit) (base : Program) : CachedImage where
  image := .initial unit.config base
  cached :=
    [(tlsEndKey unit, .tlsEnd), (tlsStartKey unit, .tlsStart)]

/-- What a unit may come to: its program grows, it asks its caches, and it is attached to a
dependency graph. -/
inductive Reachable (unit : CompilationUnit) (base : Program) : CachedImage → Prop
  | initial : Reachable unit base (.initial unit base)
  | grow {c : CachedImage} {p : Program} (h : Reachable unit base c) (hle : c.image.program ≤ p) :
    Reachable unit base ⟨{ c.image with program := p }, c.cached⟩
  | ask {c : CachedImage} (h : Reachable unit base c) (key : CacheKey) :
    Reachable unit base (stateAfter (unit.cachedAnswer key) c)
  | attach {c : CachedImage} (h : Reachable unit base c) :
    Reachable unit base ⟨stateAfter unit.attach c.image, c.cached⟩

theorem initial_consistent (unit : CompilationUnit) (base : Program) :
    (CachedImage.initial unit base).Consistent unit base where
  initial_le := le_rfl
  kinds := Image.initial_kindsDiffer unit.config base
  symbols hx :=
    Image.symbolsOf_tableNodes unit (List.mem_of_getElem? (Image.tableNodes_of_initial hx)) _
  unattached _ _ _ hx := (Image.rank_of_mem_tableKinds (Image.kind_mem_of_initial hx)).1
  answers {key id} hkey := by
    have hforeign {name : String} {id : NodeId}
        (hx : (Image.initial unit.config base).nodes[id.index]? =
          some ⟨.externSymbol name, name, none⟩) :
        externSymbol name (Image.initial unit.config base) =
          .ok id (.initial unit.config base) := by
      have hfind := findNode?_eq_some (Image.initial_kindsDiffer unit.config base) hx
      rw [externSymbol, intern_apply, hfind]
    simp only [CachedImage.initial, List.lookup_cons, List.lookup_nil] at hkey
    split at hkey
    · next h =>
      cases hkey
      rw [beq_iff_eq.1 h]
      exact hforeign rfl
    · split at hkey
      · next h =>
        cases hkey
        rw [beq_iff_eq.1 h]
        exact hforeign rfl
      · cases hkey
  homes {id x key} hx hkey := by
    refine .inl ?_
    obtain ⟨i⟩ := id
    have hx := Image.tableNodes_of_initial hx
    -- of the tables only the two symbols of the loader have keys
    match i, hx with
    | 8, hx =>
      cases hx
      cases hkey
      show List.lookup (tlsStartKey unit) [(tlsEndKey unit, _), (tlsStartKey unit, _)] = some _
      rw [List.lookup_cons, beq_false_of_ne (tlsStartKey_ne_tlsEndKey unit)]
      exact List.lookup_cons_self
    | 9, hx =>
      cases hx
      cases hkey
      exact List.lookup_cons_self
    | 0, hx | 1, hx | 2, hx | 3, hx | 4, hx | 5, hx | 6, hx | 7, hx | 10, hx =>
      cases hx
      cases hkey

/-- Attaching a unit leaves its caches alone: what it appends is not cached. -/
theorem Consistent.attach (h : c.Consistent unit base) :
    Keeps (fun s => Consistent unit base ⟨s, c.cached⟩) unit.attach c.image :=
  attach_keeps h.initial_le h h.unattached
    (fun hn a => h.grow (le_attached c.image hn a) rfl nofun)
    fun {u x} hx hu ha hfresh => hu.push hfresh (hx.symbols u) (fun hnone => absurd hnone ha) id
      fun key hkey => by cases (NodeKind.home?_of_isAttached hx.isAttached).symm.trans hkey

/-- Whatever a unit does, its caches hold the key of every node but the tables. -/
theorem Reachable.consistent (h : c.Reachable unit base) : c.Consistent unit base := by
  induction h with
  | initial => exact initial_consistent unit base
  | @grow c p _ hle ih => exact ih.grow ⟨hle, .refl _, fun _ h => h⟩ rfl id
  | ask _ key ih =>
    rw [stateAfter]
    cases cachedAnswer_simulates key ih with
    | ok hx _ _ _ hd => rwa [hx]
    | error hx _ _ _ hd => rwa [hx]
  | attach _ ih => exact ih.attach.stateAfter

end CachedImage

namespace Image

open CompilationUnit

variable {unit : CompilationUnit} {base : Program} {s : Image}

/-- The unit comes to the image when it appends a node for each key that its caches miss. -/
def ByCaches (unit : CompilationUnit) (base : Program) (s : Image) : Prop :=
  ∃ cached, CachedImage.Reachable unit base ⟨s, cached⟩

theorem ByCaches.grow (h : s.ByCaches unit base) {p : Program} (hle : s.program ≤ p) :
    ByCaches unit base { s with program := p } := by
  obtain ⟨cached, hs⟩ := h
  exact ⟨cached, hs.grow hle⟩

/-- Whatever is asked for by kind, caches answer. -/
theorem byCaches_sustained (unit : CompilationUnit) (base : Program) :
    unit.Sustained (fun _ _ => True) (ByCaches unit base) where
  ordinary _ := trivial
  interned call hs _ := hs.grow (call.run_settles.le_stateAfter _)
  asked := by
    rintro s key ⟨cached, hs⟩ -
    have hafter := hs.ask key
    rw [stateAfter] at hafter
    cases cachedAnswer_simulates key hs.consistent with
    | @ok a d hx hy hle _ _ =>
      rw [hx] at hafter
      exact .ok hy hle ⟨d.cached, hafter⟩ trivial
    | @error e d hx hy hle _ _ =>
      rw [hx] at hafter
      exact .error hy hle ⟨d.cached, hafter⟩ trivial

theorem ByCaches.attach (h : s.ByCaches unit base) : Keeps (ByCaches unit base) unit.attach s := by
  obtain ⟨cached, hs⟩ := h
  have hafter := hs.attach
  rw [stateAfter] at hafter
  cases hs.consistent.attach with
  | ok hx hle _ _ =>
    rw [hx] at hafter
    exact .ok hx hle ⟨cached, hafter⟩ trivial
  | error hx hle _ _ =>
    rw [hx] at hafter
    exact .error hx hle ⟨cached, hafter⟩ trivial

/-- Compiling does what caches would do. -/
theorem ByCaches.compile (h : s.ByCaches unit base) {bodies : CodeBodies}
    {methods : List MethodId} {output : CompiledUnit} {t : Image}
    (hx : unit.compile bodies methods s = .ok output t) : t.ByCaches unit base :=
  ((byCaches_sustained unit base).compile_keeps (fun _ _ _ _ _ _ _ _ _ => trivial) methods
    h.attach).holds hx

end Image

end NativeImage
