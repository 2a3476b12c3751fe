/-!
# Target machines

The processor families an image can be built for, and how a target triple names one.

## Main definitions

- `Arch` — the processor family, with its pointer size and its decoration of linker symbols
- `Arch.ofTriple` — the family of a `<arch>-<vendor>-<os>` triple, or why the triple names none
-/

namespace NativeImage

/-- Processor families an image can be built for. -/
inductive Arch
  | x86
  | x64
  | arm
  | arm64
  deriving DecidableEq, Repr

/-- Why a triple names no processor family. -/
inductive TripleError
  /-- The processor part is empty, or fewer than two parts follow it. -/
  | malformed (triple : String)
  | unsupported (arch : String)
  deriving DecidableEq, Repr

def TripleError.message : TripleError → String
  | malformed triple =>
    s!"invalid target triple '{triple}': expected at least 3 components: <arch>-<vendor>-<os>"
  | unsupported arch => s!"unsupported architecture '{arch}'"

namespace Arch

def name : Arch → String
  | x86 => "x86"
  | x64 => "x64"
  | arm => "arm"
  | arm64 => "arm64"

/-- Bytes of a pointer. -/
def pointerSize : Arch → Nat
  | x86 | arm => 4
  | x64 | arm64 => 8

/-- What the linker puts before every C symbol: 32-bit x86 decorates them with an underscore. -/
def decoration : Arch → String
  | x86 => "_"
  | x64 | arm | arm64 => ""

/-- The family called `spelling` in a triple; every `arm…` and `thumb…` is 32-bit Arm. -/
def ofSpelling? (spelling : String) : Option Arch :=
  if spelling ∈ ["i386", "i586", "i686", "x86"] then some x86
  else if spelling ∈ ["x86_64", "amd64"] then some x64
  else if spelling ∈ ["aarch64", "arm64"] then some arm64
  else if spelling.startsWith "arm" || spelling.startsWith "thumb" then some arm
  else none

/-- The family of a triple. A triple with too few parts is refused before its processor is looked
at, so a malformed triple never counts as unsupported. -/
def ofTriple (triple : String) : Except TripleError Arch :=
  match triple.splitOn "-" with
  | spelling :: _ :: _ :: _ =>
    if spelling.isEmpty then .error (.malformed triple)
    else match ofSpelling? spelling with
      | some arch => .ok arch
      | none => .error (.unsupported spelling)
  | _ => .error (.malformed triple)

end Arch

end NativeImage
