import NativeImage.CompilationUnit.Delegate
import NativeImage.CompilationUnit.Statics
import NativeImage.Proofs.Construction.Layered

/-!
# The caches of a unit

Nodes may be shared between threads through caches, whose constructors ask each other: a stub asks
for the entry that it goes on to, a shadow for the entry of the shared code. The constructors are
written here with these questions left open; answered by the operations themselves they are the
operations. Each one asks only for what is on a lower level, so threads that share the caches are
never told of a cycle, nor of a construction that failed elsewhere.

## Main definitions

- `CacheKey`, `CacheKey.level` — what is constructed once
- `CompilationUnit.construct` — the constructor of a key
- `CompilationUnit.answer` — the operation that a key stands for
- `CompilationUnit.MayAsk` — what the constructor of a key asks for

## Main statements

- `CompilationUnit.construct_answer` — the operations are what their constructors make of them
- `CompilationUnit.MayAsk.level_lt` — constructors ask only for keys of lower level
- `CompilationUnit.refusesNobody` — no answer is a failure
-/

namespace NativeImage

/-- What is constructed once, without asking for anything else. -/
inductive LeafKey
  | methodCode (entry : MethodEntry)
  | dictionaryLayout (owner : Entity)
  /-- Of a type of the unit, as the next two. -/
  | gcStaticDesc (type : TypeId) (thread : Bool)
  | threadStaticsOffset (type : TypeId)
  | gcStaticBase (type : TypeId)
  | threadStaticsBlock (type : TypeId)
  | eagerConstructor (method : MethodId)
  | externSymbol (name : String)
  | standaloneRegion (descriptor : NodeId)
  | helper (helper : Helper)
  deriving DecidableEq, Repr

/-- What the caches of a unit construct once. -/
inductive CacheKey
  | plainEntry (method : MethodId)
  | unboxingEntry (method : MethodId)
  | shadowMethod (entry : MethodEntry)
  | fatPointer (entry : MethodEntry)
  | leaf (key : LeafKey)
  deriving DecidableEq, Repr

namespace CacheKey

/-- Constructors ask only for keys of lower level. -/
def level : CacheKey → Nat
  | leaf _ => 0
  | plainEntry _ => 1
  | unboxingEntry _ => 2
  | shadowMethod _ | fatPointer _ => 3

/-- The entry of a method that is entered in the given way. -/
def entry (entry : MethodEntry) : CacheKey :=
  if entry.unboxing then unboxingEntry entry.method else plainEntry entry.method

theorem level_entry_lt (entry : MethodEntry) : (CacheKey.entry entry).level < 3 := by
  rw [CacheKey.entry]
  split
  · exact Nat.lt_succ_self 2
  · exact Nat.lt_add_of_pos_right (Nat.zero_lt_succ 1)

end CacheKey

namespace CompilationUnit

open ImageM

/-- A node of a type of the unit. -/
def ownTypeNode (type : TypeId) (family : SymbolFamily) (kind : NodeKind) : ImageM NodeId := do
  let symbol ← ask (·.typeSymbol family type)
  intern { kind, symbol }

/-- What is constructed without asking for anything else. -/
def constructLeaf : LeafKey → ImageM NodeId
  | .methodCode entry => methodCode entry
  | .dictionaryLayout owner => dictionaryLayout owner
  | .gcStaticDesc type thread =>
    ownTypeNode type (.gcStaticDesc thread) (.gcStaticDesc type thread)
  | .threadStaticsOffset type => ownTypeNode type .threadStaticsOffset (.threadStaticsOffset type)
  | .gcStaticBase type => ownTypeNode type .gcStaticBase (.gcStaticBase type)
  | .threadStaticsBlock type => threadStaticsBlock type
  | .eagerConstructor method => eagerConstructor method
  | .externSymbol name => externSymbol name
  | .standaloneRegion descriptor => standaloneRegion descriptor
  | .helper helper => CompilationUnit.helper helper

/-- The code of the unit's own methods is cached, that of others is made where it is asked for. -/
def constructOwned (unit : CompilationUnit) (get : CacheKey → ImageM NodeId) (entry : MethodEntry) :
    ImageM NodeId := do
  if ← unit.ownsMethod entry.method then get (.leaf (.methodCode entry)) else externMethod entry

/-- The constructor of a key. It asks `get` for other keys. -/
def construct (unit : CompilationUnit) (get : CacheKey → ImageM NodeId) : CacheKey → ImageM NodeId
  | .plainEntry method => do
    let desc ← ask (·.methodDesc method)
    match desc.importSymbol? with
    | some symbol => intern { kind := .runtimeImport method, symbol }
    | none => unit.constructOwned get ⟨method, false⟩
  | .unboxingEntry method => do
    let desc ← ask (·.methodDesc method)
    if (← ask (·.isSharedMethod method)) && desc.args.isEmpty then
      unit.constructOwned get ⟨method, true⟩
    else
      let target ← get (.plainEntry method)
      let symbol ← ask (·.methodSymbol (.plain true) method)
      intern { kind := .unboxingStub method target, symbol }
  | .shadowMethod entry => do
    let canonical ← onProgram (ProgramM.canonicalMethod entry.method)
    let target ← get (.entry ⟨canonical, entry.unboxing⟩)
    let symbol ← ask (·.methodSymbol (.shadow entry.unboxing) entry.method)
    intern { kind := .shadowMethod entry target, symbol }
  | .fatPointer entry => do
    let canonical ← onProgram (ProgramM.canonicalMethod entry.method)
    let target ← get (.entry ⟨canonical, entry.unboxing⟩)
    let dictionary ← get (.leaf (.dictionaryLayout (.method entry.method)))
    let symbol ← ask (·.methodSymbol (.fatPointer entry.unboxing) entry.method)
    intern { kind := .fatPointer entry target dictionary, symbol }
  | .leaf key => constructLeaf key

/-- The operation that a key stands for. -/
def answer (unit : CompilationUnit) : CacheKey → ImageM NodeId
  | .plainEntry method => unit.plainEntry method
  | .unboxingEntry method => unit.unboxingEntry method
  | .shadowMethod entry => unit.shadowMethod entry
  | .fatPointer entry => unit.fatPointer entry
  | .leaf key => constructLeaf key

variable (unit : CompilationUnit)

theorem answer_entry (entry : MethodEntry) :
    unit.answer (.entry entry) = unit.methodEntry entry := by
  rw [CacheKey.entry, methodEntry]
  split <;> rfl

/-- Constructors that are answered by the operations are the operations. -/
theorem construct_answer (key : CacheKey) : unit.construct unit.answer key = unit.answer key := by
  cases key with
  | plainEntry method => rfl
  | unboxingEntry method => rfl
  | shadowMethod entry =>
    simp only [construct, answer_entry]
    rfl
  | fatPointer entry =>
    simp only [construct, answer_entry]
    rfl
  | leaf key => rfl

theorem constructOwned_congr {get get' : CacheKey → ImageM NodeId}
    (h : ∀ other, other.level = 0 → get other = get' other) (entry : MethodEntry) :
    unit.constructOwned get entry = unit.constructOwned get' entry := by
  rw [constructOwned, constructOwned, h _ rfl]

/-- What constructors make depends only on the answers for keys of lower level. -/
theorem construct_congr {get get' : CacheKey → ImageM NodeId} {key : CacheKey}
    (h : ∀ other, other.level < key.level → get other = get' other) :
    unit.construct get key = unit.construct get' key := by
  cases key with
  | plainEntry method =>
    have howned (entry : MethodEntry) :
        unit.constructOwned get entry = unit.constructOwned get' entry :=
      unit.constructOwned_congr (fun other ho => h other (ho ▸ Nat.zero_lt_succ 0)) entry
    simp only [construct, howned]
  | unboxingEntry method =>
    have howned (entry : MethodEntry) :
        unit.constructOwned get entry = unit.constructOwned get' entry :=
      unit.constructOwned_congr (fun other ho => h other (ho ▸ Nat.zero_lt_succ 1)) entry
    simp only [construct, howned, h (.plainEntry method) (Nat.lt_succ_self 1)]
  | shadowMethod entry =>
    have htarget (target : MethodEntry) := h (.entry target) (CacheKey.level_entry_lt target)
    simp only [construct, htarget]
  | fatPointer entry =>
    have htarget (target : MethodEntry) := h (.entry target) (CacheKey.level_entry_lt target)
    have hdictionary (key : LeafKey) := h (.leaf key) (Nat.zero_lt_succ 2)
    simp only [construct, htarget, hdictionary]
  | leaf key => rfl

/-- The constructor of a key asks for another one: what it makes depends on the answer. -/
def MayAsk (key other : CacheKey) : Prop :=
  ∃ get get' : CacheKey → ImageM NodeId, (∀ third, third ≠ other → get third = get' third) ∧
    unit.construct get key ≠ unit.construct get' key

theorem MayAsk.level_lt {unit : CompilationUnit} {key other : CacheKey}
    (h : unit.MayAsk key other) : other.level < key.level := by
  obtain ⟨get, get', hagree, hdiffer⟩ := h
  by_contra hlevel
  refine hdiffer (unit.construct_congr fun third hthird => hagree third ?_)
  rintro rfl
  exact hlevel hthird

/-- The caches of a unit refuse nobody. Their constructors are those of the unit's operations; and
whatever threads share the caches, in whatever order they ask: if in the constructor of a key they
ask only for what it depends on, and give up only when they were told of a failure, then they are
never told of one. -/
structure RefusesNobody : Prop where
  construct_answer : ∀ key, unit.construct unit.answer key = unit.answer key
  answers_ok : ∀ (family : CacheFamily) (steps : List (Monitor.Step CacheKey NodeId)),
    Monitor.Follows (fun inner slot => unit.MayAsk inner.key slot.key) family Monitor.initial
        steps →
      ∀ answer ∈ (Monitor.initial.history family steps).flatMap Monitor.Event.answers,
        ∃ id, answer.2 = .ok id

theorem refusesNobody : unit.RefusesNobody where
  construct_answer := unit.construct_answer
  answers_ok _ _ h :=
    h.answers_ok (fun _ _ hask => hask.level_lt)
      (.initial fun slot : Slot CacheKey => slot.key.level)

end CompilationUnit

end NativeImage
