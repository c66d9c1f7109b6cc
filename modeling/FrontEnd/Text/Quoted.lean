import FrontEnd.Text.Combining

/-!
# Quoted text

How the text of a literal is shown between quotes.

* `Escape.hex` — a code point written in hexadecimal between braces.
* `Escape.shown` — one character: as it stands, behind a backslash, or as its code point.
* `quotedString` — a text between double quotes; the apostrophe needs no escape, and a combining
  character is always escaped.
* `quotedChar` — a text between apostrophes; both kinds of quotes are escaped, and a combining
  character only at the front, where it would attach to the apostrophe.
-/

namespace FrontEnd

namespace Escape

/-- A character as its code point. -/
def hex (c : Char) : List Char :=
  '\\' :: 'u' :: '\x7b' :: Nat.toDigits 16 c.toNat ++ ['\x7d']

/-- A character inside quotes.  The quotes in the list are escaped, and so is a combining character
if the flag says so. -/
def shown (quotes : List Char) (escapeCombining : Bool) (c : Char) : List Char :=
  if c = '\x00' then ['\\', '0']
  else if c = '\t' then ['\\', 't']
  else if c = '\r' then ['\\', 'r']
  else if c = '\n' then ['\\', 'n']
  else if c = '\\' ∨ c ∈ quotes then ['\\', c]
  else if escapeCombining && isCombining c then hex c
  else if isPrintable c then [c]
  else hex c

end Escape

/-- A text between double quotes. -/
def quotedString (text : String) : String :=
  String.ofList ('"' :: text.toList.flatMap (Escape.shown ['"'] true) ++ ['"'])

/-- The characters of a text inside apostrophes. -/
def charBody : List Char → List Char
  | [] => []
  | c :: rest =>
    Escape.shown ['"', '\''] true c ++ rest.flatMap (Escape.shown ['"', '\''] false)

/-- A text between apostrophes. -/
def quotedChar (text : String) : String := String.ofList ('\'' :: charBody text.toList ++ ['\''])

end FrontEnd
