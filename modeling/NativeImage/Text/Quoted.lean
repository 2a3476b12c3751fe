import NativeImage.Text.CharRanges

/-!
# Quoted text

A text between double quotes, with everything escaped that would not be seen as itself: quotes and
backslashes, control characters, and characters that are unprintable or attach to others.

## Main definitions

- `escapeChar` — a character inside the quotes
- `quote` — a text with its quotes
-/

namespace NativeImage.Text

/-- A character by its code point in hexadecimal, between braces. -/
def escapeCodePoint (c : Char) : List Char :=
  ['\\', 'u', '\x7b'] ++ Nat.toDigits 16 c.toNat ++ ['\x7d']

/-- A character as it stands between the quotes. A single quote needs no escape there. -/
def escapeChar (c : Char) : List Char :=
  if c = '\x00' then ['\\', '0']
  else if c = '\t' then ['\\', 't']
  else if c = '\r' then ['\\', 'r']
  else if c = '\n' then ['\\', 'n']
  else if c = '\\' ∨ c = '\x22' then ['\\', c]
  else if isExtending c || isUnprintable c then escapeCodePoint c
  else [c]

/-- A text between double quotes. -/
def quote (text : String) : String :=
  String.ofList ('\x22' :: text.toList.flatMap escapeChar ++ ['\x22'])

end NativeImage.Text
