import FrontEnd.Proofs.Completeness
import FrontEnd.Proofs.Tiling
import FrontEnd.Session

/-!
# The language of programs

* `eq_of_append_stream_eq` — where the end of the file marks the end of two lists in one stream, the
  lists are equal.
* `program_done_iff` — from the start of a source, the parser of programs yields just the program that
  the tokens of the source derive.
* `parseProgram_ok_iff` — the same of whole sessions, and what the language is without regard to the
  precedence of operators.
-/

namespace FrontEnd

open Parse

/-- Two lists without the end of the file, each followed by it in the same stream, are equal. -/
theorem eq_of_append_stream_eq {ts us : List Token} {a b : Stream' Token}
    (h : ts ++ₛ a = us ++ₛ b) (ha : a.head.kind = .endOfFile) (hb : b.head.kind = .endOfFile)
    (hts : ∀ t ∈ ts, t.kind ≠ .endOfFile) (hus : ∀ t ∈ us, t.kind ≠ .endOfFile) : ts = us := by
  induction ts generalizing us with
  | nil =>
      cases us with
      | nil => rfl
      | cons u us =>
          have hu : a.head = u := congrArg Stream'.head h
          exact absurd (hu ▸ ha) (hus u List.mem_cons_self)
  | cons t ts ih =>
      cases us with
      | nil =>
          have ht : t = b.head := congrArg Stream'.head h
          exact absurd (ht ▸ hb) (hts t List.mem_cons_self)
      | cons u us =>
          have head : t = u := congrArg Stream'.head h
          have tail : ts ++ₛ a = us ++ₛ b := congrArg Stream'.tail h
          rw [head, ih tail (fun x hx => hts x (List.mem_cons_of_mem t hx))
            (fun x hx => hus x (List.mem_cons_of_mem u hx))]

theorem stream_ofSource (source : String) :
    (Reader.ofSource source).stream = tokens source ++ₛ Stream'.const Token.endOfFile :=
  Reader.stream_ofTokens (tokens source)

/-- The parser of programs yields the program that the tokens of the source derive, and no other. -/
theorem program_done_iff {source : String} {p : Program} :
    (∃ s, Parse.program (Reader.ofSource source) = .done p s) ↔
      Derives OpTree.Grouped (.items p) (tokens source) := by
  constructor
  · rintro ⟨s, h⟩
    obtain ⟨ts, q, hts, hq, stop, -⟩ := items_sound h
    rw [q.peek_fst] at stop
    have stream := hq.stream
    rw [stream_ofSource] at stream
    have : ts = tokens source := eq_of_append_stream_eq stream.symm stop rfl hts.ne_endOfFile
      (tokens_ne_endOfFile source)
    exact this ▸ hts
  · intro h
    obtain ⟨s, hs, -⟩ := h.accepted (Reader.ofSource source) .endOfFile _ (stream_ofSource source)
      rfl (by simp)
    exact ⟨s, hs⟩

/-- A step of a session yields what its parser yields, whatever the sink is. -/
theorem Session.run_eq_ok_iff {α : Type} {s : Session} {parser : Reader → Outcome α} {a : α} :
    (s.run parser).1 = .ok a ↔ ∃ r, parser s.reader = .done a r := by
  unfold Session.run
  cases parser s.reader with
  | done b r => simp
  | refused e r =>
      dsimp only
      split <;> simp

theorem parseProgram_of_done {source : String} {p : Program} {r : Reader}
    (h : Parse.program (.ofSource source) = .done p r) (sink : Sink) :
    parseProgram source sink = (.ok p, ⟨r.clearLog, sink, r.log.push (.parsed p.length)⟩) := by
  simp [parseProgram, Session.run, Session.start, h]

/-- A refusal is one diagnostic, and it is a syntax error if the sink takes all of it. -/
theorem parseProgram_of_refused {source : String} {e : Mismatch} {r : Reader}
    (h : Parse.program (.ofSource source) = .refused e r) (sink : Sink) :
    parseProgram source sink =
      if sink.accepts (utf8Bytes e.line) then
        (.error (.unexpected e), ⟨r.clearLog, sink.write (utf8Bytes e.line), r.log.push (.aborted e)⟩)
      else (.error .sinkFull, ⟨r.clearLog, sink.write (utf8Bytes e.line), r.log⟩) := by
  by_cases fits : sink.accepts (utf8Bytes e.line) = true <;>
    simp [parseProgram, Session.run, Session.start, h, fits]

theorem parseProgram_fst (source : String) (sink : Sink) :
    (parseProgram source sink).1 = ((Session.start source sink #[]).run Parse.program).1 := by
  unfold parseProgram
  split <;> rename_i h <;> rw [h]

/-- **The parser accepts its grammar and nothing else.**  What it yields is the tree of the derivation
in which the operators of each line are grouped by their precedence.  Whether there is a derivation
does not depend on the grouping, so a source is accepted just where some grouping of its lines makes
it a program. -/
theorem parseProgram_ok_iff (source : String) (sink : Sink) :
    (∀ p : Program, (parseProgram source sink).1 = .ok p ↔
      Derives OpTree.Grouped (.items p) (tokens source)) ∧
    ((∃ p : Program, (parseProgram source sink).1 = .ok p) ↔
      ∃ p : Program, Derives AnyGrouping (.items p) (tokens source)) := by
  have grouped : ∀ p : Program, (parseProgram source sink).1 = .ok p ↔
      Derives OpTree.Grouped (.items p) (tokens source) :=
    fun p => by
      rw [parseProgram_fst, Session.run_eq_ok_iff]
      exact program_done_iff
  refine ⟨grouped, ?_, ?_⟩
  · rintro ⟨p, hp⟩
    exact ((grouped p).1 hp).regroup fun first ops =>
      let ⟨t, hf, hr, _⟩ := OpTree.exists_grouped first ops
      ⟨t, hf, hr, trivial⟩
  · rintro ⟨p, hp⟩
    obtain ⟨q, hq⟩ : ∃ q, Derives OpTree.Grouped (.items q) (tokens source) :=
      hp.regroup OpTree.exists_grouped
    exact ⟨q, (grouped q).2 hq⟩

end FrontEnd
