import FrontEnd.Proofs.Conservation
import FrontEnd.Proofs.Termination
import Mathlib.Data.List.Nodup

/-!
# Parsers that report for themselves

The parsers are written here as methods of one state, which holds the reader and the sink.  A parser that
refuses a token writes its diagnostic there and then, in the middle of the parse, and fails with a syntax
error or, if the sink does not take all of it, with that; whatever called it hands the failure up.  The loops
are those of `Stepwise`, and so is the bound on their depth.

* `Reporting` — a parser of this kind; it has no result where it is called too deep.
* `Sink.writeAll` — a text written piece by piece.
* `Reporting.refuse` — the one place at which a diagnostic is written.
* `Reporting.expression` and its companions, `Entry.report` — the parsers.
* `Session.report`, `Session.reportAll` — steps of a session with them.
* `Reporting.Follows` — a parser leaves the sink alone when it succeeds, and when it fails it has written one
  diagnostic, for the token that is refused; `Follows.bind` puts two such parsers one behind the other.
* `Session.reportAll_eq` — with enough depth a session that reports in this way ends, and ends as one whose
  steps write their diagnostics behind the parse.
-/

namespace FrontEnd

/-! ## Diagnostics in pieces -/

/-- What a parser asks for where it refuses a token. -/
inductive Demand
  | grammar (e : Expectation)
  /-- an expression, where the stacks of a line are not as they should be -/
  | expression
deriving DecidableEq, Repr

namespace Demand

def text : Demand → String
  | grammar e => e.text
  | expression => "expression"

/-- The diagnostic for a token, in the pieces in which it is formatted. -/
def pieces (d : Demand) (found : Token) : List String :=
  ["Expected ", d.text, ", got ", "Token\x7b type: ", found.kind.name, ", value: ", found.text,
    " \x7d", "\n"]

/-- What is reported of a diagnostic that was written.  The reports speak of the grammar only. -/
def events (found : Token) : Demand → List Event
  | grammar e => [.aborted ⟨e, found⟩]
  | expression => []

end Demand

/-- Why a parser fails. -/
inductive Refusal
  | unexpected (demand : Demand) (found : Token)
  | sinkFull
deriving DecidableEq, Repr

def Refusal.ofFailure : ParseFailure → Refusal
  | .unexpected e => unexpected (.grammar e.expected) e.found
  | .sinkFull => sinkFull

/-- Write the pieces in order, up to the first one that does not fit; whether all of them did. -/
def Sink.writeAll (s : Sink) : List (List UInt8) → Bool × Sink
  | [] => (true, s)
  | piece :: rest => if s.accepts piece then (s.write piece).writeAll rest else (false, s.write piece)

/-! ## The parsers -/

namespace Reporting

/-- What the parsers work on. -/
structure State where
  reader : Reader
  sink : Sink
deriving DecidableEq, Repr

end Reporting

/-- A parser that reports for itself.  It ends with a value or a refusal, and without a result where it is
called too deep. -/
abbrev Reporting (α : Type) := ExceptT Refusal (StateT Reporting.State Option) α

namespace Reporting

open Parse (Operand Introducer)

variable {α β : Type}

def run (p : Reporting α) (s : State) : Option (Except Refusal α × State) := p s

/-- A parser that was called too deep. -/
def tooDeep : Reporting α := fun _ => none

def take : Reporting Token :=
  modifyGet fun s => (s.reader.get.1, { s with reader := s.reader.get.2 })

def look : Reporting Token :=
  modifyGet fun s => (s.reader.peek.1, { s with reader := s.reader.peek.2 })

def note (es : List Event) : Reporting Unit :=
  modify fun s => { s with reader := s.reader.noteAll es }

def tell (bytes : List (List UInt8)) : Reporting Bool :=
  modifyGet fun s => ((s.sink.writeAll bytes).1, { s with sink := (s.sink.writeAll bytes).2 })

/-- Refuse a token: write the diagnostic and fail. -/
def refuse (d : Demand) (found : Token) : Reporting α := do
  if ← tell ((d.pieces found).map utf8Bytes) then
    note (d.events found)
    throw (.unexpected d found)
  else
    throw .sinkFull

def expectMark (m : Mark) : Reporting Unit := do
  let t ← take
  if t.kind = .mark m then pure () else refuse (.grammar (.mark m)) t

def expectName (e : Expectation) : Reporting String := do
  let t ← take
  match t.identifier? with
  | some name => pure name
  | none => refuse (.grammar e) t

def declaration : Reporting VariableDecl := do
  let keyword ← take
  let isMutable := keyword.keyword? == some .kwVar
  let name ← expectName .variableName
  let t ← look
  if t.kind = .mark .colon then
    let _ ← take
    let typeName ← expectName .variableType
    pure ⟨name, some typeName, isMutable⟩
  else
    pure ⟨name, none, isMutable⟩

mutual

def expression : Nat → Reporting Expression
  | 0 => tooDeep
  | n + 1 => do
    let first ← line n
    lines n [] first

/-- The loop over lines, with those before the last one, the latest first. -/
def lines : Nat → List Expression → Expression → Reporting Expression
  | 0, _, _ => tooDeep
  | n + 1, earlier, last => do
    let t ← look
    if t.kind = .mark .semicolon then
      let _ ← take
      let next ← line n
      lines n (last :: earlier) next
    else
      pure (earlier.foldl (fun next e => .sequence e next) last)

def line : Nat → Reporting Expression
  | 0 => tooDeep
  | n + 1 => do
    let first ← primary n
    loop n (.start first)

/-- The loop of a line.  A turn that is stuck refuses the token that it looked at. -/
def loop : Nat → Stacks → Reporting Expression
  | 0, _ => tooDeep
  | n + 1, s => do
    let t ← look
    note [s.decision t.kind.lookahead]
    match s.turn t.kind.lookahead with
    | .shift op =>
      let _ ← take
      let e ← primary n
      loop n (s.push op e)
    | .reduced s' => loop n s'
    | .finished e => pure e
    | .stuck => refuse .expression t

def primary : Nat → Reporting Expression
  | 0 => tooDeep
  | n + 1 => do
    let t ← look
    match Operand.ofToken t with
    | .leaf e =>
      let _ ← take
      pure e
    | .declaration =>
      let d ← declaration
      pure (.declaration d)
    | .group =>
      let _ ← take
      let e ← expression n
      expectMark .rightParen
      pure e
    | .block =>
      let e ← block n
      pure (.block e)
    | .none => pure .empty

def block : Nat → Reporting Expression
  | 0 => tooDeep
  | n + 1 => do
    expectMark .leftBrace
    let e ← expression n
    expectMark .rightBrace
    pure e

end

def argument : Reporting Argument := do
  let name ← expectName .argumentName
  expectMark .colon
  let typeName ← expectName .argumentType
  pure ⟨name, typeName⟩

/-- One turn of the loop over arguments: an argument, and whether a comma stands behind it. -/
def argumentTurn : Reporting (Argument × Bool) := do
  let a ← argument
  let t ← take
  match t.kind with
  | .mark .comma => pure (a, true)
  | .mark .rightParen => pure (a, false)
  | _ => refuse (.grammar .argumentEnd) t

/-- The loop over arguments, with those read so far, the latest first. -/
def argumentList : Nat → List Argument → Reporting (List Argument)
  | 0, _ => tooDeep
  | n + 1, earlier => do
    let a ← argumentTurn
    if a.2 then argumentList n (a.1 :: earlier) else pure (a.1 :: earlier).reverse

def arguments (n : Nat) : Reporting (List Argument) := do
  let t ← look
  if t.kind = .mark .rightParen then
    let _ ← take
    pure []
  else
    argumentList n []

/-- A function behind its first token, which is taken unseen. -/
def function : Nat → Reporting FunctionDecl
  | 0 => tooDeep
  | n + 1 => do
    let _ ← take
    let name ← expectName .functionName
    expectMark .leftParen
    let args ← arguments n
    expectMark .arrow
    let returnType ← expectName .returnType
    let body ← block n
    pure ⟨name, args, returnType, body⟩

mutual

/-- One declaration.  A token that introduces none is refused without being taken. -/
def item : Nat → Reporting Item
  | 0 => tooDeep
  | n + 1 => do
    let t ← look
    match Introducer.ofToken t with
    | .module =>
      let m ← module n
      pure (.module m.1 m.2)
    | .function =>
      let f ← function n
      pure (.function f)
    | .none => refuse (.grammar .topLevel) t

/-- A module behind its first token, which is taken unseen. -/
def module : Nat → Reporting (String × List Item)
  | 0 => tooDeep
  | n + 1 => do
    let _ ← take
    let name ← expectName .moduleName
    expectMark .leftBrace
    let is ← items n (.mark .rightBrace) []
    let _ ← take
    pure (name, is)

/-- The loop over declarations up to a token of the given kind, with those read so far, the latest
first. -/
def items : Nat → TokenKind → List Item → Reporting (List Item)
  | 0, _, _ => tooDeep
  | n + 1, stop, earlier => do
    let t ← look
    if t.kind = stop then
      pure earlier.reverse
    else
      let i ← item n
      items n stop (i :: earlier)

end

def program (n : Nat) : Reporting Program := items n .endOfFile []

end Reporting

/-- The parser of an entry, with its reports. -/
def Entry.report (n : Nat) : Entry → Reporting Parsed
  | program => return .program (← Reporting.program n)
  | item => return .item (← Reporting.item n)
  | module => do
    let m ← Reporting.module n
    return .item (.module m.1 m.2)
  | function => return .item (.function (← Reporting.function n))
  | argument => return .argument (← Reporting.argument)
  | block => return .expression (.block (← Reporting.block n))
  | expression => return .expression (← Reporting.expression n)
  | line => return .expression (← Reporting.line n)
  | primary => return .expression (← Reporting.primary n)
  | declaration => return .expression (.declaration (← Reporting.declaration))

namespace Session

variable {α : Type}

/-- Run a parser that reports for itself on the reader and the sink of the session. -/
def report (s : Session) (p : Reporting α) : Option (Except Refusal α × Session) :=
  (p.run ⟨s.reader, s.sink⟩).map fun o =>
    (o.1, ⟨o.2.reader.clearLog, o.2.sink, s.log ++ o.2.reader.log⟩)

/-- Run the entries in order, each with the given depth, going on after errors. -/
def reportAll (s : Session) (depth : Nat) :
    List Entry → Option (List (Except Refusal Parsed) × Session)
  | [] => some ([], s)
  | entry :: entries => do
    let result ← s.report (entry.report depth)
    let results ← result.2.reportAll depth entries
    return (result.1 :: results.1, results.2)

end Session

/-! ## Writing in pieces -/

theorem utf8Bytes_append (a b : String) : utf8Bytes (a ++ b) = utf8Bytes a ++ utf8Bytes b := by
  simp [utf8Bytes]

theorem utf8Bytes_join (texts : List String) :
    utf8Bytes (String.join texts) = (texts.map utf8Bytes).flatten := by
  induction texts with
  | nil => rfl
  | cons text texts ih => rw [List.map_cons, List.flatten_cons, ← ih, String.join_cons, utf8Bytes_append]

namespace Sink

variable (s : Sink) (piece more : List UInt8)

/-- Two texts fit if the first one does, and the second one behind it. -/
theorem accepts_append :
    s.accepts (piece ++ more) = (s.accepts piece && (s.write piece).accepts more) := by
  cases h : s.limit with
  | none => simp [accepts, write, h]
  | some limit =>
      rw [Bool.eq_iff_iff]
      simp only [accepts, write, h, List.length_append, List.length_take, Bool.and_eq_true,
        decide_eq_true_eq]
      omega

theorem write_append : s.write (piece ++ more) = (s.write piece).write more := by
  cases h : s.limit with
  | none => simp [write, h]
  | some limit =>
      have room : limit - s.kept.length - piece.length =
          limit - (s.kept.length + min (limit - s.kept.length) piece.length) := by omega
      simp [write, h, List.take_append, room]

variable {s piece}

/-- Behind a text that does not fit nothing is kept. -/
theorem write_write_of_not_accepts (h : ¬ s.accepts piece) : (s.write piece).write more = s.write piece := by
  cases hl : s.limit with
  | none => simp [accepts, hl] at h
  | some limit =>
      have full : limit - (s.kept.length + min (limit - s.kept.length) piece.length) = 0 := by
        simp only [accepts, hl, decide_eq_true_eq] at h
        omega
      simp [write, hl, full]

/-- Writing piece by piece comes to the same as writing the whole text. -/
theorem writeAll_eq (s : Sink) (piece : List UInt8) (pieces : List (List UInt8)) :
    s.writeAll (piece :: pieces) =
      (s.accepts (piece :: pieces).flatten, s.write (piece :: pieces).flatten) := by
  induction pieces generalizing s piece with
  | nil =>
      simp only [writeAll, List.flatten_cons, List.flatten_nil, List.append_nil]
      split <;> simp_all
  | cons next pieces ih =>
      rw [writeAll, List.flatten_cons, accepts_append, write_append]
      split
      · rename_i fits
        rw [ih, fits, Bool.true_and]
      · rename_i full
        rw [write_write_of_not_accepts _ full, Bool.eq_false_iff.2 full, Bool.false_and]

end Sink

namespace Demand

variable (d : Demand) (found : Token)

def line : List UInt8 := utf8Bytes (Mismatch.sentence d.text found ++ "\n")

theorem join_pieces : String.join (d.pieces found) = Mismatch.sentence d.text found ++ "\n" := by
  unfold pieces Mismatch.sentence Token.display
  simp only [String.join_cons, String.join_nil, String.append_assoc, String.append_empty]

theorem writeAll_pieces (s : Sink) :
    s.writeAll ((d.pieces found).map utf8Bytes) =
      (s.accepts (d.line found), s.write (d.line found)) := by
  have whole : ((d.pieces found).map utf8Bytes).flatten = d.line found := by
    rw [← utf8Bytes_join, join_pieces, line]
  rw [← whole]
  exact Sink.writeAll_eq ..

end Demand

/-! ## Running the parts -/

namespace Reporting

variable {α β : Type}

theorem run_bind (p : Reporting α) (f : α → Reporting β) (s : State) :
    (p >>= f).run s = (p.run s).bind fun o =>
      match o.1 with
      | .ok a => (f a).run o.2
      | .error e => some (.error e, o.2) := by
  show (p s).bind _ = (p s).bind _
  congr 1
  funext o
  obtain ⟨a | e, t⟩ := o <;> rfl

theorem run_take_bind (f : Token → Reporting β) (s : State) :
    (take >>= f).run s = (f s.reader.get.1).run { s with reader := s.reader.get.2 } := rfl

theorem run_look_bind (f : Token → Reporting β) (s : State) :
    (look >>= f).run s = (f s.reader.peek.1).run { s with reader := s.reader.peek.2 } := rfl

theorem run_note_bind (es : List Event) (f : Unit → Reporting β) (s : State) :
    (note es >>= f).run s = (f ()).run { s with reader := s.reader.noteAll es } := rfl

/-- How a refusal ends. -/
theorem run_refuse (d : Demand) (found : Token) (r : Reader) (sink : Sink) :
    (refuse d found : Reporting α).run ⟨r, sink⟩ =
      some (if sink.accepts (d.line found) then
        (.error (.unexpected d found), ⟨r.noteAll (d.events found), sink.write (d.line found)⟩)
      else (.error .sinkFull, ⟨r, sink.write (d.line found)⟩)) := by
  have told : (tell ((d.pieces found).map utf8Bytes)).run ⟨r, sink⟩ =
      some (.ok (sink.accepts (d.line found)), ⟨r, sink.write (d.line found)⟩) := by
    show some (Except.ok (sink.writeAll _).1, State.mk r (sink.writeAll _).2) = _
    rw [d.writeAll_pieces]
  rw [refuse, run_bind, told]
  cases sink.accepts (d.line found) <;> rfl

end Reporting

/-! ## Endings -/

namespace Ending

variable {α β : Type}

/-- Go on with another parser, unless the first one did not succeed. -/
def bind (e : Ending α) (f : α → Reader → Ending β) : Ending β :=
  match e with
  | done a r => f a r
  | refused expected found r => refused expected found r
  | exhausted => exhausted

theorem ofOutcome_bind (o : Outcome α) (f : α → Reader → Outcome β) :
    ofOutcome (o.bind f) = (ofOutcome o).bind fun a r => ofOutcome (f a r) := by
  cases o <;> rfl

theorem ofOutcome_map (o : Outcome α) (f : α → β) :
    ofOutcome (o.map f) = (ofOutcome o).bind fun a r => done (f a) r := ofOutcome_bind ..

end Ending

namespace Watched

variable {α β : Type}

theorem ending_bind (m : Watched α) (f : α → Reader → Watched β) :
    (m.bind f).ending = m.ending.bind fun a r => (f a r).ending := by
  unfold bind Ending.bind
  split <;> simp_all

theorem ending_map (m : Watched α) (f : α → β) :
    (m.map f).ending = m.ending.bind fun a r => .done (f a) r := ending_bind ..

@[simp] theorem ending_note (x : Stage) (m : Watched α) : (m.note x).ending = m.ending := rfl

@[simp] theorem ending_asTurn (r : Reader) (m : Watched α) : (m.asTurn r).ending = m.ending := rfl

end Watched

/-! ## Agreement -/

namespace Reporting

open Parse (Operand Introducer)

variable {α β : Type} {p : Reporting α} {r s : Reader}

/-- From a reader the parser does what the ending says, and to the sink nothing but what the refusal does at
which it stops. -/
inductive Follows (p : Reporting α) (r : Reader) : Ending α → Prop
  | done {a : α} {s : Reader} (runs : ∀ sink, p.run ⟨r, sink⟩ = some (.ok a, ⟨s, sink⟩)) :
      Follows p r (.done a s)
  | refused {d : Demand} {found : Token} {s : Reader}
      (runs : ∀ sink, p.run ⟨r, sink⟩ = (refuse d found).run ⟨s, sink⟩) :
      Follows p r (.refused d.text found s)
  | exhausted (runs : ∀ sink, p.run ⟨r, sink⟩ = none) : Follows p r .exhausted

namespace Follows

protected theorem pure (a : α) (r : Reader) : Follows (pure a) r (.done a r) := .done fun _ => rfl

theorem tooDeep (r : Reader) : Follows (Reporting.tooDeep : Reporting α) r .exhausted :=
  .exhausted fun _ => rfl

theorem refuse (d : Demand) (found : Token) (r : Reader) :
    Follows (Reporting.refuse d found : Reporting α) r (.refused d.text found r) :=
  .refused fun _ => rfl

variable {e : Ending α}

/-- A parser that runs like another one does what that one does. -/
theorem of_run_eq {q : Reporting α} (h : Follows q s e)
    (same : ∀ sink, p.run ⟨r, sink⟩ = q.run ⟨s, sink⟩) : Follows p r e := by
  cases h with
  | done runs => exact .done fun sink => (same sink).trans (runs sink)
  | refused runs => exact .refused fun sink => (same sink).trans (runs sink)
  | exhausted runs => exact .exhausted fun sink => (same sink).trans (runs sink)

theorem bind {f : α → Reporting β} {g : α → Reader → Ending β} (h : Follows p r e)
    (hf : ∀ a s, Follows (f a) s (g a s)) : Follows (p >>= f) r (e.bind g) := by
  cases h with
  | @done a s runs =>
      refine (hf a s).of_run_eq fun sink => ?_
      rw [run_bind, runs sink]
      rfl
  | refused runs =>
      refine .refused fun sink => ?_
      rw [run_bind, runs sink, run_refuse, run_refuse]
      split <;> rfl
  | exhausted runs =>
      refine .exhausted fun sink => ?_
      rw [run_bind, runs sink]
      rfl

theorem map (h : Follows p r e) (f : α → β) :
    Follows (do return f (← p)) r (e.bind fun a s => .done (f a) s) :=
  h.bind fun a s => .pure (f a) s

variable {f : Token → Reporting α}

theorem take (h : Follows (f r.get.1) r.get.2 e) : Follows (Reporting.take >>= f) r e :=
  h.of_run_eq fun _ => run_take_bind ..

theorem look (h : Follows (f r.peek.1) r.peek.2 e) : Follows (Reporting.look >>= f) r e :=
  h.of_run_eq fun _ => run_look_bind ..

theorem note {es : List Event} {q : Unit → Reporting α} (h : Follows (q ()) (r.noteAll es) e) :
    Follows (Reporting.note es >>= q) r e :=
  h.of_run_eq fun _ => run_note_bind ..

end Follows

theorem follows_expectMark (m : Mark) (r : Reader) :
    Follows (expectMark m) r (.ofOutcome (FrontEnd.expectMark m r)) := by
  refine .take ?_
  unfold FrontEnd.expectMark
  split
  · exact .pure ..
  · exact .refuse ..

theorem follows_expectName (e : Expectation) (r : Reader) :
    Follows (expectName e) r (.ofOutcome (FrontEnd.expectName e r)) := by
  refine .take ?_
  unfold FrontEnd.expectName
  cases r.get.1.identifier? with
  | some name => exact .pure ..
  | none => exact .refuse ..

theorem follows_declaration (r : Reader) :
    Follows declaration r (.ofOutcome (Parse.declaration r)) := by
  refine .take ?_
  rw [Parse.declaration, Ending.ofOutcome_bind]
  refine (follows_expectName _ _).bind fun name r₁ => .look ?_
  split
  · rw [Ending.ofOutcome_map]
    exact .take ((follows_expectName ..).map _)
  · exact .pure ..

theorem follows_argument (r : Reader) : Follows argument r (.ofOutcome (Parse.argument r)) := by
  simp only [argument, Parse.argument, Ending.ofOutcome_bind, Ending.ofOutcome_map]
  exact (follows_expectName ..).bind fun name r₁ => (follows_expectMark ..).bind fun _ r₂ =>
    (follows_expectName ..).map _

/-- The parsers of expressions do what their stepwise counterparts do that may call so many levels deep. -/
structure ExpressionsFollow (n : Nat) : Prop where
  expression : ∀ r, Follows (expression n) r (Stepwise.expression n r).ending
  lines : ∀ earlier last r, Follows (lines n earlier last) r (Stepwise.lines n earlier last r).ending
  line : ∀ r, Follows (line n) r (Stepwise.line n r).ending
  loop : ∀ s r, Follows (loop n s) r (Stepwise.loop n s r).ending
  primary : ∀ r, Follows (primary n) r (Stepwise.primary n r).ending
  block : ∀ r, Follows (block n) r (Stepwise.block n r).ending

section Expressions

variable {n : Nat}

theorem follows_expression (h : ExpressionsFollow n) (r : Reader) :
    Follows (expression (n + 1)) r (Stepwise.expression (n + 1) r).ending := by
  rw [expression, Stepwise.expression, Watched.ending_note, Watched.ending_bind]
  exact (h.line r).bind fun first r₁ => h.lines [] first r₁

theorem follows_lines (h : ExpressionsFollow n) (earlier : List Expression) (last : Expression)
    (r : Reader) : Follows (lines (n + 1) earlier last) r (Stepwise.lines (n + 1) earlier last r).ending := by
  rw [lines, Stepwise.lines]
  refine .look ?_
  split
  · rw [Watched.ending_bind, Watched.ending_asTurn]
    exact .take ((h.line _).bind fun next r₁ => h.lines _ next r₁)
  · exact .pure ..

theorem follows_line (h : ExpressionsFollow n) (r : Reader) :
    Follows (line (n + 1)) r (Stepwise.line (n + 1) r).ending := by
  rw [line, Stepwise.line, Watched.ending_note, Watched.ending_bind]
  exact (h.primary r).bind fun first r₁ => h.loop (.start first) r₁

theorem follows_loop (h : ExpressionsFollow n) (s : Stacks) (r : Reader) :
    Follows (loop (n + 1) s) r (Stepwise.loop (n + 1) s r).ending := by
  rw [loop, Stepwise.loop]
  refine .look (.note ?_)
  cases s.turn r.peek.1.kind.lookahead with
  | shift op =>
      simp only [Watched.ending_note, Watched.ending_bind]
      exact .take ((h.primary _).bind fun e r₁ => h.loop (s.push op e) r₁)
  | reduced s' => exact h.loop s' _
  | finished e => exact .pure ..
  | stuck => exact .refuse ..

theorem follows_primary (h : ExpressionsFollow n) (r : Reader) :
    Follows (primary (n + 1)) r (Stepwise.primary (n + 1) r).ending := by
  rw [primary, Stepwise.primary]
  refine .look ?_
  cases Operand.ofToken r.peek.1 with
  | leaf e => exact .take (.pure ..)
  | declaration =>
      simp only [Watched.ending_note, Watched.ending_map]
      exact (follows_declaration _).map _
  | group =>
      simp only [Watched.ending_note, Watched.ending_bind, Watched.ending_map]
      exact .take ((h.expression _).bind fun e r₁ => (follows_expectMark ..).map _)
  | block =>
      simp only [Watched.ending_note, Watched.ending_map]
      exact (h.block _).map _
  | none => exact .pure ..

theorem follows_block (h : ExpressionsFollow n) (r : Reader) :
    Follows (block (n + 1)) r (Stepwise.block (n + 1) r).ending := by
  rw [block, Stepwise.block]
  simp only [Watched.ending_note, Watched.ending_bind, Watched.ending_map]
  exact (follows_expectMark ..).bind fun _ r₁ => (h.expression r₁).bind fun e r₂ =>
    (follows_expectMark ..).map _

end Expressions

theorem expressionsFollow (n : Nat) : ExpressionsFollow n := by
  induction n with
  | zero => constructor <;> intros <;> exact .tooDeep _
  | succ n ih =>
      exact {
        expression := follows_expression ih
        lines := follows_lines ih
        line := follows_line ih
        loop := follows_loop ih
        primary := follows_primary ih
        block := follows_block ih }

theorem follows_argumentTurn (r : Reader) :
    Follows argumentTurn r (Stepwise.argumentTurn r).ending := by
  rw [argumentTurn, Stepwise.argumentTurn, Watched.ending_bind]
  refine (follows_argument r).bind fun a r₁ => .take ?_
  generalize r₁.get.1.kind = kind
  cases kind with
  | mark m => cases m <;> first | exact .pure .. | exact .refuse ..
  | _ => exact .refuse ..

theorem follows_argumentList (n : Nat) (earlier : List Argument) (r : Reader) :
    Follows (argumentList n earlier) r (Stepwise.argumentList n earlier r).ending := by
  induction n generalizing earlier r with
  | zero => exact .tooDeep _
  | succ n ih =>
      rw [argumentList, Stepwise.argumentList, Watched.ending_bind, Watched.ending_asTurn]
      refine (follows_argumentTurn r).bind fun a r₁ => ?_
      split
      · exact ih ..
      · exact .pure ..

theorem follows_arguments (n : Nat) (r : Reader) :
    Follows (arguments n) r (Stepwise.arguments n r).ending := by
  refine .look ?_
  unfold Stepwise.arguments
  split
  · exact .take (.pure ..)
  · exact follows_argumentList ..

theorem follows_function (n : Nat) (r : Reader) :
    Follows (function n) r (Stepwise.function n r).ending := by
  cases n with
  | zero => exact .tooDeep _
  | succ n =>
      rw [Stepwise.function]
      simp only [Watched.ending_note, Watched.ending_bind, Watched.ending_map]
      exact .take ((follows_expectName ..).bind fun name r₁ => (follows_expectMark ..).bind
        fun _ r₂ => (follows_arguments ..).bind fun args r₃ => (follows_expectMark ..).bind
        fun _ r₄ => (follows_expectName ..).bind fun returnType r₅ =>
          ((expressionsFollow n).block r₅).map _)

/-- The parsers of declarations do what their stepwise counterparts do that may call so many levels deep. -/
structure ItemsFollow (n : Nat) : Prop where
  item : ∀ r, Follows (item n) r (Stepwise.item n r).ending
  module : ∀ r, Follows (module n) r (Stepwise.module n r).ending
  items : ∀ stop earlier r, Follows (items n stop earlier) r (Stepwise.items n stop earlier r).ending

section Items

variable {n : Nat}

theorem follows_item (h : ItemsFollow n) (r : Reader) :
    Follows (item (n + 1)) r (Stepwise.item (n + 1) r).ending := by
  rw [item, Stepwise.item]
  refine .look ?_
  cases Introducer.ofToken r.peek.1 with
  | module =>
      simp only [Watched.ending_note, Watched.ending_map]
      exact (h.module _).map _
  | function =>
      simp only [Watched.ending_note, Watched.ending_map]
      exact (follows_function ..).map _
  | none => exact .refuse ..

theorem follows_module (h : ItemsFollow n) (r : Reader) :
    Follows (module (n + 1)) r (Stepwise.module (n + 1) r).ending := by
  rw [module, Stepwise.module]
  simp only [Watched.ending_note, Watched.ending_bind]
  exact .take ((follows_expectName ..).bind fun name r₁ => (follows_expectMark ..).bind
    fun _ r₂ => (h.items ..).bind fun is r₃ => .take (.pure ..))

theorem follows_items (h : ItemsFollow n) (stop : TokenKind) (earlier : List Item) (r : Reader) :
    Follows (items (n + 1) stop earlier) r (Stepwise.items (n + 1) stop earlier r).ending := by
  rw [items, Stepwise.items]
  refine .look ?_
  split
  · exact .pure ..
  · rw [Watched.ending_bind, Watched.ending_asTurn]
    exact (h.item _).bind fun i r₁ => h.items ..

end Items

theorem itemsFollow (n : Nat) : ItemsFollow n := by
  induction n with
  | zero => constructor <;> intros <;> exact .tooDeep _
  | succ n ih =>
      exact {
        item := follows_item ih
        module := follows_module ih
        items := follows_items ih }

end Reporting

theorem Entry.follows_report (entry : Entry) (n : Nat) (r : Reader) :
    Reporting.Follows (entry.report n) r (entry.watch n r).ending := by
  have expressions := Reporting.expressionsFollow n
  have declarations := Reporting.itemsFollow n
  cases entry <;> rw [Entry.watch, Watched.ending_map]
  case program => exact (declarations.items .endOfFile [] r).map _
  case item => exact (declarations.item r).map _
  case module => exact (declarations.module r).map _
  case function => exact (Reporting.follows_function n r).map _
  case argument => exact (Reporting.follows_argument r).map _
  case block => exact (expressions.block r).map _
  case expression => exact (expressions.expression r).map _
  case line => exact (expressions.line r).map _
  case primary => exact (expressions.primary r).map _
  case declaration => exact (Reporting.follows_declaration r).map _

/-- A parser that reports for itself does what the parser of the entry does, if its depth suffices. -/
theorem Entry.follows_parse (entry : Entry) {r : Reader} {n : Nat} (hn : 7 * r.remaining + 6 ≤ n) :
    Reporting.Follows (entry.report n) r (.ofOutcome (entry.parse r)) :=
  (entry.meets_watch hn).ending ▸ entry.follows_report n r

/-- What is enough for a parse is enough for those behind it. -/
theorem Outcome.Accounts.remaining_le {α : Type} {o : Outcome α} {r : Reader} (h : o.Accounts r) :
    o.rest.remaining ≤ r.remaining := by
  cases o with
  | done a s =>
      obtain ⟨ts, taken⟩ := h
      exact Nat.le_trans (Nat.le_add_left ..) taken.remaining
  | refused e s =>
      obtain ⟨ts, q, taken, -, rfl⟩ := h
      have before : q.remaining ≤ r.remaining := Nat.le_trans (Nat.le_add_left ..) taken.remaining
      dsimp only [rest]
      split
      · exact Nat.le_trans q.remaining_peek before
      · exact Nat.le_trans q.remaining_get_le before

/-! ## Sessions -/

namespace Expectation

def all : List Expectation :=
  [topLevel, moduleName, functionName, argumentName, argumentType, argumentEnd, returnType, variableName,
    variableType] ++ Mark.all.map mark

theorem mem_all (e : Expectation) : e ∈ all := by
  cases e with
  | mark m => exact List.mem_append_right _ (List.mem_map_of_mem m.mem_all)
  | _ => exact List.mem_append_left _ (by decide)

theorem text_injective : Function.Injective text := fun e e' h =>
  List.inj_on_of_nodup_map (l := all) (by decide) e.mem_all e'.mem_all h

end Expectation

theorem Demand.eq_of_text {d : Demand} {e : Expectation} (h : d.text = e.text) : d = .grammar e := by
  cases d with
  | grammar e' => rw [Expectation.text_injective h]
  | expression => exact absurd h.symm e.text_ne_expression

namespace Session

variable {α : Type} {p : Reporting α} {parser : Reader → Outcome α}

/-- A step of a session that reports for itself ends as the one that writes its diagnostic behind the
parse. -/
theorem report_eq (s : Session) (h : Reporting.Follows p s.reader (.ofOutcome (parser s.reader))) :
    s.report p = some ((s.run parser).1.mapError .ofFailure, (s.run parser).2) := by
  unfold report run
  cases ho : parser s.reader with
  | done a r =>
      rw [ho] at h
      cases h with
      | done runs =>
          rw [runs]
          rfl
  | refused e r =>
      rw [ho, Ending.ofOutcome] at h
      generalize ht : e.expected.text = text at h
      cases h with
      | refused runs =>
          cases Demand.eq_of_text ht.symm
          have line : (Demand.grammar e.expected).line e.found = utf8Bytes e.line := rfl
          have noted : s.log ++ (r.noteAll [.aborted e]).log = (s.log ++ r.log).push (.aborted e) := by
            simp [Reader.noteAll]
          rw [runs, Reporting.run_refuse, line]
          dsimp only
          split
          · rw [← noted]
            rfl
          · rfl

theorem report_entry (s : Session) (entry : Entry) {n : Nat} (hn : 7 * s.reader.remaining + 6 ≤ n) :
    s.report (entry.report n) =
      some ((s.run fun r => entry.parse r).1.mapError .ofFailure, (s.run fun r => entry.parse r).2) :=
  s.report_eq (entry.follows_parse hn)

theorem reader_run (s : Session) : (s.run parser).2.reader = (parser s.reader).rest.clearLog := by
  unfold run
  cases parser s.reader with
  | done a r => rfl
  | refused e r =>
      dsimp only
      split <;> rfl

/-- **A session that reports within its parsers ends, and ends as one that reports behind them**, if its
depth suffices. -/
theorem reportAll_eq (s : Session) (entries : List Entry) {n : Nat}
    (hn : 7 * s.reader.remaining + 6 ≤ n) :
    s.reportAll n entries =
      some ((s.runAll entries).1.map (Except.mapError .ofFailure), (s.runAll entries).2) := by
  induction entries generalizing s with
  | nil => rfl
  | cons entry entries ih =>
      have left : (s.run fun r => entry.parse r).2.reader.remaining ≤ s.reader.remaining := by
        rw [reader_run]
        exact (entry.parse_accounts s.reader).remaining_le
      have rest := ih (s.run fun r => entry.parse r).2 (by omega)
      simp [reportAll, runAll, s.report_entry entry hn, rest]

end Session

end FrontEnd
