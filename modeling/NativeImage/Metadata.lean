import NativeImage.Program.Basic

/-!
# Reflection metadata

An image can embed a precomputed metadata blob, which is read before anything is compiled. The
first input module that carries mapping tables describes the blob.

## Main definitions

- `ByteSource`, `ByteSource.readFixed` — reading a declared number of bytes
- `MetadataFile` — a blob as the file system presents it
- `Metadata.pick` — the blob of an image and the module that describes it
-/

namespace NativeImage

/-- Why metadata cannot be embedded. -/
inductive MetadataError
  /-- The system refused to open or to read the file. -/
  | io (path reason : String)
  | truncated (path : String) (expected found : Nat)
  | noMappingModule (path : String)
  deriving DecidableEq, Repr

def MetadataError.message : MetadataError → String
  | io path reason => s!"failed to read metadata blob '{path}': {reason}"
  | truncated path expected found =>
    s!"metadata blob '{path}' is truncated: expected {expected} bytes, read {found}"
  | noMappingModule path => s!"no input module carries metadata mappings for '{path}'"

/-- A stream of bytes. At its end it stops, or fails for a reason. -/
structure ByteSource where
  bytes : List UInt8
  failure? : Option String
  deriving DecidableEq, Repr

/-- Read exactly `declared` bytes. What lies behind them is never asked for, so a failure counts
only if the bytes before it are too few. -/
def ByteSource.readFixed (source : ByteSource) (declared : Nat) (path : String) :
    Except MetadataError (List UInt8) :=
  if declared ≤ source.bytes.length then .ok (source.bytes.take declared)
  else match source.failure? with
    | some reason => .error (.io path reason)
    | none => .error (.truncated path declared source.bytes.length)

/-- A file once it is open: the length the system declares, and its content. -/
structure OpenFile where
  declared : Nat
  source : ByteSource
  deriving DecidableEq, Repr

/-- A file by its path, with the reason why it cannot be opened if so. -/
structure MetadataFile where
  path : String
  opened : Except String OpenFile

namespace MetadataFile

/-- A file with this content. -/
def ofBytes (path : String) (bytes : List UInt8) : MetadataFile :=
  ⟨path, .ok ⟨bytes.length, bytes, none⟩⟩

/-- The whole content of a file, whose length is the one declared when it is opened. -/
def read (file : MetadataFile) : Except MetadataError (List UInt8) :=
  match file.opened with
  | .error reason => .error (.io file.path reason)
  | .ok handle => handle.source.readFixed handle.declared file.path

end MetadataFile

/-- What an image embeds. -/
inductive Metadata
  | absent
  /-- A blob, and the module whose mapping tables describe it. -/
  | precomputed (module : ModuleId) (blob : List UInt8)
  deriving DecidableEq, Repr

namespace Metadata

def blob? : Metadata → Option (List UInt8)
  | absent => none
  | precomputed _ blob => some blob

def module? : Metadata → Option ModuleId
  | absent => none
  | precomputed module _ => some module

/-- Why metadata cannot be chosen. -/
inductive PickError
  | program (cause : ProgramError)
  | metadata (cause : MetadataError)
  deriving DecidableEq, Repr

/-- The first module with mapping tables. -/
def firstMapped (program : Program) : List ModuleId → Except ProgramError (Option ModuleId)
  | [] => .ok none
  | id :: rest => do
    if (← program.moduleDesc id).hasMappings then return some id
    firstMapped program rest

/-- Choose the metadata of an image with these input modules. The file is read only if some module
describes it. -/
def pick (program : Program) (inputs : List ModuleId) :
    Option MetadataFile → Except PickError Metadata
  | none => .ok absent
  | some file =>
    match firstMapped program inputs with
    | .error cause => .error (.program cause)
    | .ok none => .error (.metadata (.noMappingModule file.path))
    | .ok (some module) =>
      match file.read with
      | .error cause => .error (.metadata cause)
      | .ok blob => .ok (precomputed module blob)

end Metadata

end NativeImage
