import FrontEnd.Token
import FrontEnd.Text.Escape

/-!
# Lexemes

The scanner cuts a source text into lexemes.  Between them lies white space, which is dropped; at
each other place the longest possible lexeme is taken.

* `Munch` — what one cut yields: its kind, the characters taken, and the rest of the source.
* `munch` — the cut at a character that is not white space.  `munch_append` says that it loses
  nothing and is never empty, so `scan` comes to an end.
* `Lexeme` — a cut with its place in the source, counted in bytes of UTF-8.
* `scan` — all lexemes of a source, in order.
* `Lexeme.token` — the token that a lexeme stands for; `tokens` and `allTokens` are the tokens of a
  source.
-/

namespace FrontEnd

/-- Why a piece of the source is no token. -/
inductive LexFault
  | unrecognized
  | unterminatedChar
  | unterminatedString
deriving DecidableEq, Repr

namespace LexFault

def name : LexFault → String
  | unrecognized => "Unrecognized"
  | unterminatedChar => "UnterminatedChar"
  | unterminatedString => "UnterminatedString"

def message : LexFault → String
  | unrecognized => "Unrecognized character"
  | unterminatedChar => "Expected '"
  | unterminatedString => "Expected \""

end LexFault

/-- What a lexeme is: a token of some kind, or a fault. -/
inductive LexemeKind
  | token (kind : TokenKind)
  | fault (error : LexFault)
deriving DecidableEq, Repr

/-- White space: the space, the tab, the line feed and the carriage return. -/
def isBlank (c : Char) : Bool := c == ' ' || c == '\t' || c == '\n' || c == '\r'

/-- An identifier begins with an ASCII letter or an underscore. -/
def isIdentifierStart (c : Char) : Bool := c.isAlpha || c == '_'

/-- An identifier goes on with ASCII letters, ASCII digits and underscores. -/
def isIdentifierPart (c : Char) : Bool := c.isAlphanum || c == '_'

/-- The kind of the fixed symbol with this spelling. -/
def TokenKind.ofSymbol? (text : String) : Option TokenKind :=
  ((Mark.all.find? (fun m => m.text == text)).map .mark).or
    ((BinaryOperator.all.find? (fun op => op.text == text)).map .operator)

/-- One cut: the kind of the lexeme, its characters, and what follows it. -/
structure Munch where
  kind : LexemeKind
  taken : List Char
  rest : List Char
deriving DecidableEq, Repr

/-- The longest fixed symbol at the front; none is longer than three characters. -/
def munchSymbol? (cs : List Char) : Option Munch :=
  [3, 2, 1].findSome? fun n =>
    (TokenKind.ofSymbol? (String.ofList (cs.take n))).map fun kind =>
      ⟨.token kind, cs.take n, cs.drop n⟩

/-- The text up to the first quote that no backslash escapes, and what follows that quote. -/
def untilQuote : List Char → Option (List Char × List Char)
  | [] => none
  | '"' :: rest => some ([], rest)
  | '\\' :: c :: rest =>
    match untilQuote rest with
    | some (body, after) => some ('\\' :: c :: body, after)
    | none => none
  | c :: rest =>
    match untilQuote rest with
    | some (body, after) => some (c :: body, after)
    | none => none

/-- The cut behind an opening quote: up to the closing one, or all that is left. -/
def munchString (cs : List Char) : Munch :=
  match untilQuote cs with
  | some (body, after) => ⟨.token .string, '"' :: body ++ ['"'], after⟩
  | none => ⟨.fault .unterminatedString, '"' :: cs, []⟩

/-- The content of a character literal: one character, or a backslash with the one behind it. -/
def charContent : List Char → List Char × List Char
  | '\\' :: c :: rest => (['\\', c], rest)
  | c :: rest => ([c], rest)
  | [] => ([], [])

/-- The cut behind an opening apostrophe.  Where the closing one is missing, the character in its
place is taken too. -/
def munchChar (cs : List Char) : Munch :=
  match charContent cs with
  | (content, '\'' :: rest) => ⟨.token .char, '\'' :: content ++ ['\''], rest⟩
  | (content, c :: rest) => ⟨.fault .unterminatedChar, '\'' :: content ++ [c], rest⟩
  | (content, []) => ⟨.fault .unterminatedChar, '\'' :: content, []⟩

/-- The cut at `c`, which is not white space, in front of `cs`. -/
def munch (c : Char) (cs : List Char) : Munch :=
  if isIdentifierStart c then
    ⟨.token .identifier, c :: cs.takeWhile isIdentifierPart, cs.dropWhile isIdentifierPart⟩
  else if c.isDigit then
    ⟨.token .number, c :: cs.takeWhile Char.isDigit, cs.dropWhile Char.isDigit⟩
  else if c = '"' then munchString cs
  else if c = '\'' then munchChar cs
  else (munchSymbol? (c :: cs)).getD ⟨.fault .unrecognized, [c], cs⟩

theorem untilQuote_append {cs body after : List Char} (h : untilQuote cs = some (body, after)) :
    body ++ '"' :: after = cs := by
  fun_induction untilQuote cs generalizing body after <;> grind

theorem munchSymbol?_append {c : Char} {cs : List Char} {m : Munch}
    (h : munchSymbol? (c :: cs) = some m) : m.taken ++ m.rest = c :: cs ∧ m.taken ≠ [] := by
  obtain ⟨n, hn, hm⟩ := List.exists_of_findSome?_eq_some h
  obtain ⟨kind, -, rfl⟩ := Option.map_eq_some_iff.1 hm
  have : n ≠ 0 := by rintro rfl; simp at hn
  obtain ⟨n, rfl⟩ := Nat.exists_eq_succ_of_ne_zero this
  simp

theorem charContent_append (cs : List Char) : (charContent cs).1 ++ (charContent cs).2 = cs := by
  fun_cases charContent cs <;> rfl

theorem munchString_append (cs : List Char) :
    (munchString cs).taken ++ (munchString cs).rest = '"' :: cs ∧ (munchString cs).taken ≠ [] := by
  unfold munchString
  split
  · rename_i body after h
    simp [untilQuote_append h]
  · simp

theorem munchChar_append (cs : List Char) :
    (munchChar cs).taken ++ (munchChar cs).rest = '\'' :: cs ∧ (munchChar cs).taken ≠ [] := by
  have h := charContent_append cs
  unfold munchChar
  split <;> rename_i e <;> simp [e] at h <;> simp [h]

/-- **A cut loses nothing and is never empty.** -/
theorem munch_append (c : Char) (cs : List Char) :
    (munch c cs).taken ++ (munch c cs).rest = c :: cs ∧ (munch c cs).taken ≠ [] := by
  unfold munch
  split
  · simp [List.takeWhile_append_dropWhile]
  split
  · simp [List.takeWhile_append_dropWhile]
  split
  · subst_vars; exact munchString_append cs
  split
  · subst_vars; exact munchChar_append cs
  cases h : munchSymbol? (c :: cs) with
  | none => simp
  | some m => exact munchSymbol?_append h

theorem length_munch_rest (c : Char) (cs : List Char) : (munch c cs).rest.length ≤ cs.length := by
  obtain ⟨h, hne⟩ := munch_append c cs
  have := congrArg List.length h
  have := List.length_pos_iff.2 hne
  simp at *
  omega

/-- A lexeme: what it is, its characters, and the byte at which it starts. -/
structure Lexeme where
  kind : LexemeKind
  text : List Char
  start : Nat
deriving DecidableEq, Repr

/-- The length of a text in bytes of UTF-8. -/
def byteLength : List Char → Nat
  | [] => 0
  | c :: cs => c.utf8Size + byteLength cs

theorem byteLength_append (s t : List Char) :
    byteLength (s ++ t) = byteLength s + byteLength t := by
  induction s with
  | nil => simp [byteLength]
  | cons c cs ih => simp [byteLength, ih, Nat.add_assoc]

/-- The byte behind the lexeme. -/
def Lexeme.stop (l : Lexeme) : Nat := l.start + byteLength l.text

/-- The lexemes of a text that starts at the given byte. -/
def scanFrom (start : Nat) : List Char → List Lexeme
  | [] => []
  | c :: cs =>
    if isBlank c then scanFrom (start + c.utf8Size) cs
    else
      ⟨(munch c cs).kind, (munch c cs).taken, start⟩ ::
        scanFrom (start + byteLength (munch c cs).taken) (munch c cs).rest
termination_by cs => cs.length
decreasing_by
  · simp
  · have := length_munch_rest c cs
    simp
    omega

/-- The lexemes of a source, in order. -/
def scan (source : String) : List Lexeme := scanFrom 0 source.toList

/-- The content of a literal: its text without the two delimiters, with the escapes resolved. -/
def literalContent (text : List Char) : List Char := Escape.decode (text.drop 1).dropLast

/-- The token that a lexeme stands for: an unrecognised character is a token of its own kind, and
the other faults are tokens that carry their message. -/
def Lexeme.token (l : Lexeme) : Token :=
  match l.kind with
  | .token .string => ⟨.string, String.ofList (literalContent l.text)⟩
  | .token .char => ⟨.char, String.ofList (literalContent l.text)⟩
  | .token kind => ⟨kind, String.ofList l.text⟩
  | .fault .unrecognized => ⟨.other, String.ofList l.text⟩
  | .fault e => ⟨.error, e.message⟩

/-- The tokens of a source, in order, without the end of the file. -/
def tokens (source : String) : List Token := (scan source).map Lexeme.token

/-- The tokens of a source, in order, with the end of the file. -/
def allTokens (source : String) : List Token := tokens source ++ [Token.endOfFile]

end FrontEnd
