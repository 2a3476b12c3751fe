import NativeImage.Text.Hex

/-!
# Escaping names for the linker

A linker symbol may hold ASCII letters, digits, `_` and `$`. A name keeps the first three; every
other character is written as an escape that starts with `$` and has a fixed width, so that escapes
can be told from what follows them. A module name is written as its `.`-separated segments, each
behind its length; since no segment starts with a digit, the length ends where the segment begins.

## Main definitions

- `escapeChar` — the escape of a character: two capitals for common punctuation, hexadecimal else
- `encodeIdentifier` — a type or method name
- `encodeModule` — a module name
-/

namespace NativeImage.Symbol

/-- Characters that stand for themselves. -/
def isPlain (c : Char) : Bool := c.isAlphanum || c == '_'

/-- The two capitals of punctuation that is common in type names. -/
def punctuation? (c : Char) : Option (Char × Char) :=
  if c = '.' then some ('D', 'T')
  else if c = '<' then some ('L', 'T')
  else if c = '>' then some ('G', 'T')
  else if c = ',' then some ('C', 'M')
  else if c = ':' then some ('C', 'N')
  else if c = '[' then some ('L', 'B')
  else if c = ']' then some ('R', 'B')
  else if c = '\x60' then some ('B', 'T')
  else none

/-- A character by its code point: two digits up to `ff`, else `U` and six digits. -/
def escapeHex (c : Char) : List Char :=
  if c.toNat ≤ 0xff then '$' :: Hex.digits 2 c.toNat else '$' :: 'U' :: Hex.digits 6 c.toNat

/-- The escape of a character that does not stand for itself. -/
def escapeChar (c : Char) : List Char :=
  match punctuation? c with
  | some (first, second) => ['$', first, second]
  | none => escapeHex c

def encodeChar (c : Char) : List Char :=
  if isPlain c then [c] else escapeChar c

/-- A type or method name. -/
def encodeIdentifier (name : List Char) : List Char := name.flatMap encodeChar

/-- The parts of a name between its dots; a name without dots is one part. -/
def segments : List Char → List (List Char)
  | [] => [[]]
  | c :: rest =>
    if c = '.' then [] :: segments rest
    else match segments rest with
      | [] => [[c]]
      | part :: parts => (c :: part) :: parts

/-- A module segment. A digit at its start is escaped, for it would run into the length. -/
def encodeSegment : List Char → List Char
  | [] => []
  | c :: rest => (if c.isDigit then escapeHex c else encodeChar c) ++ encodeIdentifier rest

/-- A module segment behind the length of its encoding. -/
def encodeCounted (segment : List Char) : List Char :=
  Nat.toDigits 10 (encodeSegment segment).length ++ encodeSegment segment

/-- A module name. -/
def encodeModule (name : List Char) : List Char := (segments name).flatMap encodeCounted

end NativeImage.Symbol
