import FrontEnd.Session
import FrontEnd.Proofs.Stacks

/-!
# The parsers, step by step

The parsers are written here once more as loops and calls that note what they do.  A parser that is called
`n` deep may call others `n - 1` deep, and a loop spends one level on each turn, so the recursion is on
this number alone and nothing has to be known of what is read.

* `Stage` — a step; `Stage.Advances` says what it has got on with.
* `Ending`, `Watched` — how a parse ends, perhaps for want of depth, and the steps that it took.
* `Stepwise.expression` and its companions — the parsers; the loop of a line is on two stacks, and where
  they are not as they should be it refuses the next token, for an expression.
* `Entry.watch` — the parser of an entry.
-/

namespace FrontEnd

/-- A step of a parser. -/
inductive Stage
  | call (parser : Entry)
  /-- a turn of a loop over declarations, arguments or lines; nothing is left behind it if the turn ended
  in an error -/
  | turn (before : Reader) (after : Option Reader)
  /-- behind an opening bracket an expression begins -/
  | nested (before after : Reader)
  /-- the loop of a line takes an operator -/
  | shift (before after : Reader)
  /-- the loop of a line reduces its stacks -/
  | reduce (before after : Stacks)
  /-- the loop of a line ends -/
  | finish

/-- How a parse ends.  A refusal comes with the wording of what was expected. -/
inductive Ending (α : Type)
  | done (value : α) (rest : Reader)
  | refused (expected : String) (found : Token) (rest : Reader)
  /-- a call was one too deep -/
  | exhausted

namespace Ending

variable {α : Type}

def ofOutcome : Outcome α → Ending α
  | .done a r => done a r
  | .refused e r => refused e.expected.text e.found r

/-- The reader behind a success. -/
def behind : Ending α → Option Reader
  | done _ r => some r
  | _ => none

end Ending

/-- A parse with its steps. -/
structure Watched (α : Type) where
  ending : Ending α
  stages : List Stage

namespace Watched

variable {α β : Type}

def done (a : α) (r : Reader) : Watched α := ⟨.done a r, []⟩

def refuse (expected : String) (found : Token) (r : Reader) : Watched α :=
  ⟨.refused expected found r, []⟩

/-- A parse that was called too deep. -/
def exhausted : Watched α := ⟨.exhausted, []⟩

/-- A parse without loops and calls. -/
def ofOutcome (o : Outcome α) : Watched α := ⟨.ofOutcome o, []⟩

def bind (m : Watched α) (f : α → Reader → Watched β) : Watched β :=
  match m.ending with
  | .done a r => ⟨(f a r).ending, m.stages ++ (f a r).stages⟩
  | .refused expected found r => ⟨.refused expected found r, m.stages⟩
  | .exhausted => ⟨.exhausted, m.stages⟩

def map (f : α → β) (m : Watched α) : Watched β := m.bind fun a r => done (f a) r

def note (x : Stage) (m : Watched α) : Watched α := ⟨m.ending, x :: m.stages⟩

/-- Note that the parse was a turn of a loop. -/
def asTurn (before : Reader) (m : Watched α) : Watched α :=
  ⟨m.ending, m.stages ++ [.turn before m.ending.behind]⟩

end Watched

namespace Stepwise

open Parse (Operand Introducer)

def declaration (r : Reader) : Watched VariableDecl :=
  (Watched.ofOutcome (Parse.declaration r)).note (.call .declaration)

def expectMark (m : Mark) (r : Reader) : Watched Unit := .ofOutcome (FrontEnd.expectMark m r)

def expectName (e : Expectation) (r : Reader) : Watched String := .ofOutcome (FrontEnd.expectName e r)

mutual

def expression : Nat → Reader → Watched Expression
  | 0, _ => .exhausted
  | n + 1, r => ((line n r).bind fun e r₁ => lines n [] e r₁).note (.call .expression)

/-- The loop over lines, with those before the last one, the latest first. -/
def lines : Nat → List Expression → Expression → Reader → Watched Expression
  | 0, _, _, _ => .exhausted
  | n + 1, earlier, last, r =>
    if r.peek.1.kind = .mark .semicolon then
      ((line n r.peek.2.skip).asTurn r).bind fun e r₁ => lines n (last :: earlier) e r₁
    else .done (earlier.foldl (fun next e => .sequence e next) last) r.peek.2

def line : Nat → Reader → Watched Expression
  | 0, _ => .exhausted
  | n + 1, r => ((primary n r).bind fun e r₁ => loop n (.start e) r₁).note (.call .line)

/-- The loop of a line. -/
def loop : Nat → Stacks → Reader → Watched Expression
  | 0, _, _ => .exhausted
  | n + 1, s, r =>
    match s.turn r.peek.1.kind.lookahead with
    | .shift op =>
      ((primary n (s.seen r).skip).bind fun e r₁ => loop n (s.push op e) r₁).note
        (.shift r (s.seen r).skip)
    | .reduced s' => (loop n s' (s.seen r)).note (.reduce s s')
    | .finished e => (Watched.done e (s.seen r)).note .finish
    | .stuck => (Watched.refuse "expression" r.peek.1 (s.seen r)).note .finish

def primary : Nat → Reader → Watched Expression
  | 0, _ => .exhausted
  | n + 1, r =>
    match Operand.ofToken r.peek.1 with
    | .leaf e => (Watched.done e r.peek.2.skip).note (.call .primary)
    | .declaration => ((declaration r.peek.2).map .declaration).note (.call .primary)
    | .group =>
      (((expression n r.peek.2.skip).note (.nested r r.peek.2.skip)).bind fun e r₁ =>
        (expectMark .rightParen r₁).map fun _ => e).note (.call .primary)
    | .block => ((block n r.peek.2).map .block).note (.call .primary)
    | .none => (Watched.done .empty r.peek.2).note (.call .primary)

def block : Nat → Reader → Watched Expression
  | 0, _ => .exhausted
  | n + 1, r =>
    ((expectMark .leftBrace r).bind fun _ r₁ =>
      ((expression n r₁).note (.nested r r₁)).bind fun e r₂ =>
        (expectMark .rightBrace r₂).map fun _ => e).note (.call .block)

end

def argument (r : Reader) : Watched Argument :=
  (Watched.ofOutcome (Parse.argument r)).note (.call .argument)

/-- One turn of the loop over arguments: an argument, and whether a comma stands behind it. -/
def argumentTurn (r : Reader) : Watched (Argument × Bool) :=
  (argument r).bind fun a r₁ =>
    match r₁.get.1.kind with
    | .mark .comma => .done (a, true) r₁.get.2
    | .mark .rightParen => .done (a, false) r₁.get.2
    | _ => .refuse Expectation.argumentEnd.text r₁.get.1 r₁.get.2

/-- The loop over arguments, with those read so far, the latest first. -/
def argumentList : Nat → List Argument → Reader → Watched (List Argument)
  | 0, _, _ => .exhausted
  | n + 1, earlier, r =>
    ((argumentTurn r).asTurn r).bind fun a r₁ =>
      if a.2 then argumentList n (a.1 :: earlier) r₁ else .done (a.1 :: earlier).reverse r₁

def arguments (n : Nat) (r : Reader) : Watched (List Argument) :=
  if r.peek.1.kind = .mark .rightParen then .done [] r.peek.2.skip
  else argumentList n [] r.peek.2

def function : Nat → Reader → Watched FunctionDecl
  | 0, _ => .exhausted
  | n + 1, r =>
    ((expectName .functionName r.skip).bind fun name r₁ =>
      (expectMark .leftParen r₁).bind fun _ r₂ =>
        (arguments n r₂).bind fun args r₃ =>
          (expectMark .arrow r₃).bind fun _ r₄ =>
            (expectName .returnType r₄).bind fun returnType r₅ =>
              (block n r₅).map fun body => ⟨name, args, returnType, body⟩).note (.call .function)

mutual

def item : Nat → Reader → Watched Item
  | 0, _ => .exhausted
  | n + 1, r =>
    match Introducer.ofToken r.peek.1 with
    | .module => ((module n r.peek.2).map fun m => .module m.1 m.2).note (.call .item)
    | .function => ((function n r.peek.2).map .function).note (.call .item)
    | .none =>
      (Watched.refuse Expectation.topLevel.text r.peek.1 r.peek.2).note (.call .item)

def module : Nat → Reader → Watched (String × List Item)
  | 0, _ => .exhausted
  | n + 1, r =>
    ((expectName .moduleName r.skip).bind fun name r₁ =>
      (expectMark .leftBrace r₁).bind fun _ r₂ =>
        (items n (.mark .rightBrace) [] r₂).bind fun is r₃ => .done (name, is) r₃.skip).note (.call .module)

/-- The loop over declarations up to a token of the given kind, with those read so far, the latest
first. -/
def items : Nat → TokenKind → List Item → Reader → Watched (List Item)
  | 0, _, _, _ => .exhausted
  | n + 1, stop, earlier, r =>
    if r.peek.1.kind = stop then .done earlier.reverse r.peek.2
    else ((item n r.peek.2).asTurn r).bind fun i r₁ => items n stop (i :: earlier) r₁

end

def program (n : Nat) (r : Reader) : Watched Program := (items n .endOfFile [] r).note (.call .program)

end Stepwise

/-- The parser of an entry, step by step. -/
def Entry.watch (n : Nat) (r : Reader) : Entry → Watched Parsed
  | program => (Stepwise.program n r).map .program
  | item => (Stepwise.item n r).map .item
  | module => (Stepwise.module n r).map fun m => .item (.module m.1 m.2)
  | function => (Stepwise.function n r).map fun f => .item (.function f)
  | argument => (Stepwise.argument r).map .argument
  | block => (Stepwise.block n r).map fun e => .expression (.block e)
  | expression => (Stepwise.expression n r).map .expression
  | line => (Stepwise.line n r).map .expression
  | primary => (Stepwise.primary n r).map .expression
  | declaration => (Stepwise.declaration r).map fun d => .expression (.declaration d)

/-- From one reader to the other a token other than the end of the file was taken. -/
def Reader.UsesUp (r s : Reader) : Prop := ∃ ts, r.Takes ts s ∧ ∃ t ∈ ts, t.kind ≠ .endOfFile

/-- What a step gets on with.  A turn of a loop over declarations, arguments or lines uses up a token, or
else the parse has failed.  A nested expression begins behind a used token, a shift takes an operator, and
a reduction leaves fewer operators on the stack. -/
def Stage.Advances (failed : Prop) : Stage → Prop
  | call _ | finish => True
  | turn _ none => failed
  | turn before (some after) | nested before after => before.UsesUp after
  | shift before after => ∃ (t : Token) (op : BinaryOperator), t.kind = .operator op ∧
      before.Takes [t] after
  | reduce before after => after.operators.length < before.operators.length

end FrontEnd
