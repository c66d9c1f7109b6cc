import FrontEnd.Precedence

/-!
# Tokens

* `Mark` — the delimiters and the symbols that are no binary operators.
* `Keyword` — the reserved spellings.  The scanner knows no keywords: it hands them out as
  identifiers, and `Token.keyword?` recognises one by its spelling where the grammar asks for it.
* `TokenKind` — the kind of a token, with `TokenKind.name` as its printed name.
* `Token` — a kind with a text.  Identifiers, numbers and symbols carry their spelling, literals
  their decoded content, and a lexical error its message.
* `Token.display` — the form in which tokens appear in diagnostics.
-/

namespace FrontEnd

/-- A delimiter or another fixed symbol that is not a binary operator. -/
inductive Mark
  | leftParen
  | rightParen
  | leftBrace
  | rightBrace
  | leftBracket
  | rightBracket
  | comma
  | dot
  | semicolon
  | colon
  | question
  | bang
  | tilde
  | plusPlus
  | minusMinus
  | arrow
deriving DecidableEq, Repr

namespace Mark

def all : List Mark :=
  [leftParen, rightParen, leftBrace, rightBrace, leftBracket, rightBracket, comma, dot, semicolon,
    colon, question, bang, tilde, plusPlus, minusMinus, arrow]

def text : Mark → String
  | leftParen => "("
  | rightParen => ")"
  | leftBrace => "\x7b"
  | rightBrace => "\x7d"
  | leftBracket => "["
  | rightBracket => "]"
  | comma => ","
  | dot => "."
  | semicolon => ";"
  | colon => ":"
  | question => "?"
  | bang => "!"
  | tilde => "~"
  | plusPlus => "++"
  | minusMinus => "--"
  | arrow => "->"

theorem mem_all (m : Mark) : m ∈ all := by cases m <;> decide

end Mark

/-- A spelling with a meaning of its own in some places of the grammar. -/
inductive Keyword
  | kwLet
  | kwVar
  | kwClass
  | kwStruct
  | kwEnum
  | kwModule
  | kwFn
  | kwIf
  | kwThen
  | kwElse
  | kwTrue
  | kwFalse
deriving DecidableEq, Repr

namespace Keyword

def all : List Keyword :=
  [kwLet, kwVar, kwClass, kwStruct, kwEnum, kwModule, kwFn, kwIf, kwThen, kwElse, kwTrue, kwFalse]

def text : Keyword → String
  | kwLet => "let"
  | kwVar => "var"
  | kwClass => "class"
  | kwStruct => "struct"
  | kwEnum => "enum"
  | kwModule => "module"
  | kwFn => "fn"
  | kwIf => "if"
  | kwThen => "then"
  | kwElse => "else"
  | kwTrue => "true"
  | kwFalse => "false"

def ofText? (text : String) : Option Keyword := all.find? (fun k => k.text == text)

theorem mem_all (k : Keyword) : k ∈ all := by cases k <;> decide

theorem ofText?_text (k : Keyword) : ofText? k.text = some k := by cases k <;> decide

theorem ofText?_eq_some_iff {text : String} {k : Keyword} :
    ofText? text = some k ↔ text = k.text := by
  constructor
  · intro h
    have := List.find?_some h
    simpa using (beq_iff_eq.1 this).symm
  · rintro rfl
    exact ofText?_text k

end Keyword

/-- The kind of a token.  The scanner never makes a `keyword`; it stands among the kinds because a
keyword is classified by the kind that its spelling names. -/
inductive TokenKind
  | endOfFile
  | identifier
  | number
  | string
  | char
  | mark (m : Mark)
  | operator (op : BinaryOperator)
  | keyword (k : Keyword)
  | other
  | error
deriving DecidableEq, Repr

def Mark.name : Mark → String
  | leftParen => "LEFT_PAREN"
  | rightParen => "RIGHT_PAREN"
  | leftBrace => "LEFT_BRACE"
  | rightBrace => "RIGHT_BRACE"
  | leftBracket => "LEFT_BRACKET"
  | rightBracket => "RIGHT_BRACKET"
  | comma => "COMMA"
  | dot => "DOT"
  | semicolon => "SEMICOLON"
  | colon => "COLON"
  | question => "QUESTION"
  | bang => "BANG"
  | tilde => "TILDE"
  | plusPlus => "PLUS_PLUS"
  | minusMinus => "MINUS_MINUS"
  | arrow => "ARROW"

/-- The printed name of an operator's token kind: it names the symbol, not its meaning. -/
def BinaryOperator.name : BinaryOperator → String
  | plus => "PLUS"
  | minus => "MINUS"
  | times => "STAR"
  | divide => "SLASH"
  | modulo => "PERCENT"
  | plusAssign => "PLUS_EQUAL"
  | minusAssign => "MINUS_EQUAL"
  | timesAssign => "STAR_EQUAL"
  | divideAssign => "SLASH_EQUAL"
  | moduloAssign => "PERCENT_EQUAL"
  | less => "LESS"
  | greater => "GREATER"
  | lessEqual => "LESS_EQUAL"
  | greaterEqual => "GREATER_EQUAL"
  | equal => "EQUAL_EQUAL"
  | notEqual => "BANG_EQUAL"
  | define => "ASSIGN"
  | assign => "EQUAL"
  | logicalAnd => "AMPERSAND_AMPERSAND"
  | logicalOr => "PIPE_PIPE"
  | bitAnd => "AMPERSAND"
  | bitOr => "PIPE"
  | bitXor => "CARET"
  | bitAndAssign => "AMPERSAND_EQUAL"
  | bitOrAssign => "PIPE_EQUAL"
  | bitXorAssign => "CARET_EQUAL"
  | shiftLeft => "LESS_LESS"
  | shiftRight => "GREATER_GREATER"
  | shiftLeftAssign => "LESS_LESS_EQUAL"
  | shiftRightAssign => "GREATER_GREATER_EQUAL"

def Keyword.name : Keyword → String
  | kwLet => "LET"
  | kwVar => "VAR"
  | kwClass => "CLASS"
  | kwStruct => "STRUCT"
  | kwEnum => "ENUM"
  | kwModule => "MODULE"
  | kwFn => "FN"
  | kwIf => "IF"
  | kwThen => "THEN"
  | kwElse => "ELSE"
  | kwTrue => "TRUE"
  | kwFalse => "FALSE"

namespace TokenKind

def all : List TokenKind :=
  [endOfFile, identifier, number, string, char] ++ Mark.all.map mark
    ++ BinaryOperator.all.map operator ++ Keyword.all.map keyword ++ [other, error]

def name : TokenKind → String
  | endOfFile => "END_OF_FILE"
  | identifier => "IDENTIFIER"
  | number => "NUMBER"
  | string => "STRING"
  | char => "CHAR"
  | mark m => m.name
  | operator op => op.name
  | keyword k => k.name
  | other => "OTHER"
  | error => "ERROR"

def ofName? (name : String) : Option TokenKind := all.find? (fun k => k.name == name)

/-- What a token of this kind is to the precedence parser. -/
def lookahead : TokenKind → Lookahead
  | operator op => .operator op
  | _ => .finish

theorem lookahead_eq_operator_iff {k : TokenKind} {op : BinaryOperator} :
    k.lookahead = .operator op ↔ k = operator op := by
  cases k <;> simp [lookahead]

theorem mem_all (k : TokenKind) : k ∈ all := by
  cases k with
  | mark m => simp [all, Mark.mem_all]
  | operator op => simp [all, BinaryOperator.mem_all]
  | keyword k => simp [all, Keyword.mem_all]
  | _ => decide

/-- Distinct kinds have distinct names. -/
theorem ofName?_name (k : TokenKind) : ofName? k.name = some k := by
  have : ∀ k ∈ all, ofName? k.name = some k := by decide +kernel
  exact this k (mem_all k)

end TokenKind

/-- A token: its kind and its text. -/
structure Token where
  kind : TokenKind
  text : String
deriving DecidableEq, Repr

namespace Token

/-- The token that stands behind the last one, for ever. -/
def endOfFile : Token := ⟨.endOfFile, ""⟩

/-- The keyword that an identifier token spells. -/
def keyword? (t : Token) : Option Keyword :=
  match t.kind with
  | .identifier => Keyword.ofText? t.text
  | _ => none

/-- The name that an identifier token carries, keyword spellings included. -/
def identifier? (t : Token) : Option String :=
  match t.kind with
  | .identifier => some t.text
  | _ => none

/-- The form of a token in diagnostics. -/
def display (t : Token) : String :=
  "Token\x7b type: " ++ t.kind.name ++ ", value: " ++ t.text ++ " \x7d"

theorem identifier?_eq_some_iff {t : Token} {name : String} :
    t.identifier? = some name ↔ t = ⟨.identifier, name⟩ := by
  obtain ⟨kind, text⟩ := t
  cases kind <;> simp [identifier?]

theorem keyword?_eq_some_iff {t : Token} {k : Keyword} :
    t.keyword? = some k ↔ t = ⟨.identifier, k.text⟩ := by
  obtain ⟨kind, text⟩ := t
  cases kind <;> simp [keyword?, Keyword.ofText?_eq_some_iff]

end Token

end FrontEnd
