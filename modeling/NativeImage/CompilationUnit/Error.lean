import NativeImage.Object.Header
import NativeImage.Object.Region
import NativeImage.Metadata

/-!
# Why compilation fails

## Main definitions

- `UnsupportedConstruct` — the program asks for something that cannot be compiled
- `InternalError` — the front end handed over inconsistent input
- `CompileError` — either of these, or a failure of something that compilation uses
-/

namespace NativeImage

inductive UnsupportedConstruct
  /-- A delegate that would take the receiver of an instance method as an argument. -/
  | openInstanceDelegate (delegate method : String)
  /-- An open delegate to a native-callable method without a thunk for it. -/
  | nonNativeSignature (delegate method : String)
  deriving DecidableEq, Repr

def UnsupportedConstruct.message : UnsupportedConstruct → String
  | openInstanceDelegate delegate method =>
    s!"open instance delegate `{delegate}` over `{method}` is not supported"
  | nonNativeSignature delegate method =>
    s!"delegate `{delegate}` has no native-callable invoke thunk for `{method}`; " ++
      "open delegates to native-callable methods need a non-generic delegate with a " ++
      "native-compatible signature"

inductive InternalError
  | delegateArity (delegate method : String) (invoke call : Nat)
  | virtualGenericDelegate (delegate method : String)
  | alreadyAttached
  | notAttached
  | duplicateSection (tag : Section)
  deriving DecidableEq, Repr

def InternalError.message : InternalError → String
  | delegateArity delegate method invoke call =>
    s!"delegate `{delegate}` (invoke arity {invoke}) cannot bind `{method}` " ++
      s!"(call arity {call})"
  | virtualGenericDelegate delegate method =>
    s!"delegate `{delegate}` targets virtual generic method `{method}`"
  | alreadyAttached => "node factory is already attached to a dependency graph"
  | notAttached => "node factory was never attached to a dependency graph"
  | duplicateSection tag =>
    let name := tag.name
    s!"header section {name} registered twice"

inductive CompileError
  | unsupported (cause : UnsupportedConstruct)
  | internal (cause : InternalError)
  | program (cause : ProgramError)
  | metadata (cause : MetadataError)
  | region (cause : RegionError)
  /-- The unit has no such node. -/
  | noNode (id : NodeId)
  /-- A size or an offset needs more than 32 bits. -/
  | tooLarge
  /-- The closure has nodes left to expand after all the rounds it was given. -/
  | unfinishedClosure
  deriving DecidableEq, Repr

namespace CompileError

def message : CompileError → String
  | unsupported cause => cause.message
  | internal cause => "internal compiler error: " ++ cause.message
  | program cause => cause.message
  | metadata cause => cause.message
  | region cause => cause.message
  | noNode ⟨index⟩ => s!"there is no node {index}"
  | tooLarge => "a size or an offset needs more than 32 bits"
  | unfinishedClosure => "the dependency closure did not end"

/-- Whether the failure is about the program that is compiled. -/
def isReportable : CompileError → Bool
  | unsupported _ => true
  | _ => false

/-- Whether the input contradicts itself, or is larger than the format allows. Such a failure cannot
be put down to one node. -/
def isFatal : CompileError → Bool
  | program cause => cause.isDangling
  | noNode _ | tooLarge | unfinishedClosure => true
  | _ => false

end CompileError

end NativeImage
