/-!
# Backslash escapes

Inside a literal a backslash gives the next character another reading: `n`, `r` and `t` stand for
the line feed, the carriage return and the tab, and every other character stands for itself.

* `Escape.meaning` — the character that stands behind a backslash.
* `Escape.decode` — the content of a literal with its escapes resolved.
-/

namespace FrontEnd

namespace Escape

/-- The character meant by a backslash and this one. -/
def meaning : Char → Char
  | 'n' => '\n'
  | 'r' => '\r'
  | 't' => '\t'
  | c => c

/-- Resolve the escapes.  A backslash with nothing behind it is dropped; no complete literal ends
in one. -/
def decode : List Char → List Char
  | [] => []
  | '\\' :: [] => []
  | '\\' :: c :: rest => meaning c :: decode rest
  | c :: rest => c :: decode rest

theorem decode_escape (c : Char) (rest : List Char) :
    decode ('\\' :: c :: rest) = meaning c :: decode rest := by
  simp [decode]

theorem decode_plain {c : Char} (h : c ≠ '\\') (rest : List Char) :
    decode (c :: rest) = c :: decode rest := by
  cases rest <;> simp [decode, h]

end Escape

end FrontEnd
