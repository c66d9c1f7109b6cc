import FrontEnd.Token

/-!
# Diagnostics and the sink that takes them

* `Expectation` — what the grammar asks for at a place, with its wording.
* `Mismatch` — a syntax error: an expectation and the token that was found instead.
  `Mismatch.message` is its text, and `Mismatch.line` that text as one written diagnostic.
* `Sink` — where diagnostics are written.  A sink may have a limit: it keeps that many bytes in all
  and refuses the rest.
* `Sink.write` — write a text; `Sink.accepts` says whether all of it fits.
* `ParseFailure` — why a parse gives no tree: a syntax error, or a sink that cannot take its
  diagnostic.
-/

namespace FrontEnd

/-- What the grammar asks for at some place. -/
inductive Expectation
  | topLevel
  | moduleName
  | functionName
  | argumentName
  | argumentType
  | argumentEnd
  | returnType
  | variableName
  | variableType
  | mark (m : Mark)
deriving DecidableEq, Repr

def Expectation.text : Expectation → String
  | topLevel => "top level declaration"
  | moduleName => "module name"
  | functionName => "function name"
  | argumentName => "argument name"
  | argumentType => "argument type"
  | argumentEnd => ", or )"
  | returnType => "return type"
  | variableName => "variable name"
  | variableType => "variable type"
  | mark m => m.text

/-- The sentence that reports a token found where something else was expected. -/
def Mismatch.sentence (expected : String) (found : Token) : String :=
  "Expected " ++ expected ++ ", got " ++ found.display

/-- A token that the grammar does not allow where it stands. -/
structure Mismatch where
  expected : Expectation
  found : Token
deriving DecidableEq, Repr

namespace Mismatch

def message (e : Mismatch) : String := Mismatch.sentence e.expected.text e.found

/-- The diagnostic as it is written: the message and a line feed. -/
def line (e : Mismatch) : String := e.message ++ "\n"

end Mismatch

/-- The bytes of a text in UTF-8. -/
def utf8Bytes (text : String) : List UInt8 := text.toUTF8.data.toList

/-- A place where diagnostics are written, with the bytes it holds.  With a limit it holds no more
bytes than that. -/
structure Sink where
  limit : Option Nat
  kept : List UInt8
deriving DecidableEq, Repr

namespace Sink

def empty (limit : Option Nat) : Sink := ⟨limit, []⟩

/-- Whether the sink has room for all these bytes. -/
def accepts (s : Sink) (bytes : List UInt8) : Bool :=
  match s.limit with
  | none => true
  | some limit => s.kept.length + bytes.length ≤ limit

/-- Write the bytes, as far as they fit. -/
def write (s : Sink) (bytes : List UInt8) : Sink :=
  match s.limit with
  | none => ⟨s.limit, s.kept ++ bytes⟩
  | some limit => ⟨s.limit, s.kept ++ bytes.take (limit - s.kept.length)⟩

@[simp] theorem limit_write (s : Sink) (bytes : List UInt8) : (s.write bytes).limit = s.limit := by
  unfold write
  split <;> rfl

/-- What a sink accepts it keeps. -/
theorem kept_write_of_accepts {s : Sink} {bytes : List UInt8} (h : s.accepts bytes) :
    (s.write bytes).kept = s.kept ++ bytes := by
  unfold accepts at h
  unfold write
  split
  · rfl
  · rename_i limit e
    have fits : s.kept.length + bytes.length ≤ limit := by simpa [e] using h
    rw [List.take_of_length_le (by omega)]

end Sink

/-- Why a parse yields no tree. -/
inductive ParseFailure
  /-- a token that the grammar does not allow -/
  | unexpected (error : Mismatch)
  /-- the sink has no room for the diagnostic -/
  | sinkFull
deriving DecidableEq, Repr

def ParseFailure.message : ParseFailure → String
  | unexpected error => error.message
  | sinkFull => "failed to write diagnostic: sink full"

end FrontEnd
