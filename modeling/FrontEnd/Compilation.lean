import FrontEnd.Session
import FrontEnd.Hir.Lowering

/-!
# Compilation

* `compile` — parse a source and lower it.  Lowering cannot fail, so a compilation fails just when
  the parse does.
* `Compilation` — its result, the diagnostics, and the log of all that happened.
-/

namespace FrontEnd

open Hir

/-- The end of a compilation. -/
structure Compilation where
  result : Except ParseFailure CompilationUnit
  sink : Sink
  log : Log

/-- Parse a source and build its unit. -/
def compile (source : String) (sink : Sink) : Compilation :=
  match parseProgram source sink with
  | (.ok p, s) =>
    let unit := p.lower s.log
    let unit := unit.note (.lowered unit.functions.size unit.names.unresolved.size)
    ⟨.ok unit, s.sink, unit.names.log⟩
  | (.error e, s) => ⟨.error e, s.sink, s.log⟩

end FrontEnd
