import FrontEnd.Proofs.Reporting

/-!
# Sessions under a sink limit

A limit on the sink changes which failures are reported as syntax errors, and nothing else: two sessions
that differ in their sinks alone are run in lockstep, by parsers that write their diagnostics themselves.

* `diagnostic`, `written` — the text that steps add to a sink without a limit, read off their results.
* `underLimit` — what a step reports under a limit, read off what it reports without one.
* `Entry.report_cases` — a step ends in one of two ways, and its sink does not decide in which.
* `Session.Shadows` — a session under a limit and one without, with the same reader.  `Shadows.report` is
  one step, `Shadows.reportAll` a run.
* `reportAll_limited` — the two sessions from the start.
-/

namespace FrontEnd

variable {α : Type}

/-- The text that reports the result of a step: the message of its syntax error and a line feed. -/
def diagnostic : Except Refusal α → List UInt8
  | .error (.unexpected d found) => d.line found
  | _ => []

/-- The text that reports the results of several steps. -/
def written (results : List (Except Refusal α)) : List UInt8 := results.flatMap diagnostic

/-- What a step reports under a limit, when without one it reports `result` and `size` is the length of
the text written up to its own end. -/
def underLimit (limit size : Nat) (result : Except Refusal α) : Except Refusal α :=
  match result with
  | .ok a => .ok a
  | .error e => if size ≤ limit then .error e else .error .sinkFull

theorem Demand.line_length_pos (d : Demand) (found : Token) : 0 < (d.line found).length := by
  show 0 < (Mismatch.sentence d.text found ++ "\n").utf8ByteSize
  rw [String.utf8ByteSize_append]
  exact Nat.lt_add_left _ (by decide)

/-! ## Sinks -/

namespace Sink

theorem write_unlimited {s : Sink} (h : s.limit = none) (bytes : List UInt8) :
    (s.write bytes).kept = s.kept ++ bytes := by
  simp [write, h]

/-- What a sink holds of two texts is what it holds of them together. -/
theorem write_limited {s : Sink} {limit : Nat} {before : List UInt8} (h : s.limit = some limit)
    (hk : s.kept = before.take limit) (bytes : List UInt8) :
    (s.write bytes).kept = (before ++ bytes).take limit := by
  have room : limit - min limit before.length = limit - before.length := by omega
  simp [write, h, hk, List.take_append, room]

/-- A text fits behind another one if both fit together; a full sink takes none but the empty text. -/
theorem accepts_limited {s : Sink} {limit : Nat} {before bytes : List UInt8} (h : s.limit = some limit)
    (hk : s.kept = before.take limit) (hb : 0 < bytes.length) :
    s.accepts bytes ↔ before.length + bytes.length ≤ limit := by
  simp only [accepts, h, hk, List.length_take, decide_eq_true_eq]
  omega

end Sink

/-! ## Steps -/

/-- What the sink decides about a step.  From a reader an entry succeeds with every sink and leaves it as it
is, or it refuses a token with every sink, writes one diagnostic for it, and stops at the same place whether
or not the diagnostic fits. -/
theorem Entry.report_cases (entry : Entry) {r : Reader} {depth : Nat}
    (hd : 7 * r.remaining + 6 ≤ depth) :
    ∃ s : Reader, s.remaining ≤ r.remaining ∧
      ((∃ a, ∀ sink log, (Session.mk r sink log).report (entry.report depth) =
        some (.ok a, ⟨s.clearLog, sink, log ++ s.log⟩)) ∨
      ∃ (d : Demand) (found : Token), ∀ sink log, ∃ log',
        (Session.mk r sink log).report (entry.report depth) =
          some (.error (if sink.accepts (d.line found) then .unexpected d found else .sinkFull),
            ⟨s.clearLog, sink.write (d.line found), log'⟩)) := by
  refine ⟨(entry.parse r).rest, (entry.parse_accounts r).remaining_le, ?_⟩
  cases ho : entry.parse r with
  | done a s =>
      refine .inl ⟨a, fun sink log => ?_⟩
      rw [Session.report_entry _ _ hd, Session.run, ho]
      rfl
  | refused e s =>
      refine .inr ⟨.grammar e.expected, e.found, fun sink log => ?_⟩
      have line : (Demand.grammar e.expected).line e.found = utf8Bytes e.line := rfl
      rw [Session.report_entry _ _ hd, Session.run, ho, line]
      dsimp only
      split <;> exact ⟨_, rfl⟩

namespace Session

/-- The session `s` has the limit that `free` has not, and the two agree in their readers and in the
text that the limit lets pass. -/
structure Shadows (limit : Nat) (s free : Session) : Prop where
  reader : s.reader = free.reader
  limited : s.sink.limit = some limit
  unlimited : free.sink.limit = none
  kept : s.sink.kept = free.sink.kept.take limit

variable {s free : Session} {limit depth : Nat}

theorem Shadows.report (h : Shadows limit s free) (hd : 7 * free.reader.remaining + 6 ≤ depth)
    (entry : Entry) :
    ∃ x y, s.report (entry.report depth) = some x ∧ free.report (entry.report depth) = some y ∧
      Shadows limit x.2 y.2 ∧ y.2.reader.remaining ≤ free.reader.remaining ∧ y.1 ≠ .error .sinkFull ∧
      y.2.sink.kept = free.sink.kept ++ diagnostic y.1 ∧
      x.1 = underLimit limit y.2.sink.kept.length y.1 := by
  obtain ⟨r, sink, log⟩ := s
  obtain ⟨r', sink', log'⟩ := free
  obtain ⟨rfl, limited, unlimited, kept⟩ := h
  dsimp only at limited unlimited kept hd
  obtain ⟨s, left, ⟨a, ends⟩ | ⟨d, found, ends⟩⟩ := entry.report_cases hd
  · exact ⟨_, _, ends sink log, ends sink' log', ⟨rfl, limited, unlimited, kept⟩, left, by simp,
      (List.append_nil _).symm, rfl⟩
  · obtain ⟨_, bound⟩ := ends sink log
    obtain ⟨_, free⟩ := ends sink' log'
    have all := Sink.write_unlimited unlimited (d.line found)
    have some := Sink.write_limited limited kept (d.line found)
    have fits := Sink.accepts_limited limited kept (d.line_length_pos found)
    have taken : sink'.accepts (d.line found) := by simp [Sink.accepts, unlimited]
    rw [if_pos taken] at free
    refine ⟨_, _, bound, free, ⟨rfl, ?_, ?_, ?_⟩, left, by simp, all, ?_⟩
    · exact (Sink.limit_write ..).trans limited
    · exact (Sink.limit_write ..).trans unlimited
    · exact some.trans (congrArg (List.take limit) all.symm)
    · simp only [underLimit, all, List.length_append, fits]
      split <;> rfl

/-! ## Runs -/

theorem Shadows.reportAll (h : Shadows limit s free) (hd : 7 * free.reader.remaining + 6 ≤ depth)
    (entries : List Entry) :
    ∃ x y, s.reportAll depth entries = some x ∧ free.reportAll depth entries = some y ∧
      Shadows limit x.2 y.2 ∧ y.1.length = entries.length ∧ .error .sinkFull ∉ y.1 ∧
      y.2.sink.kept = free.sink.kept ++ written y.1 ∧
      ∀ i, x.1[i]? = y.1[i]?.map (underLimit limit
        (free.sink.kept.length + (written (y.1.take (i + 1))).length)) := by
  induction entries generalizing s free with
  | nil =>
      exact ⟨_, _, rfl, rfl, h, rfl, by simp, (List.append_nil _).symm, fun i => rfl⟩
  | cons entry entries ih =>
      obtain ⟨x, y, hx, hy, next, left, unexpected, kept, result⟩ := h.report hd entry
      obtain ⟨xs, ys, hxs, hys, shadows, length, rest, all, results⟩ := ih next (by omega)
      refine ⟨(x.1 :: xs.1, xs.2), (y.1 :: ys.1, ys.2), ?_, ?_, shadows, ?_, ?_, ?_, fun i => ?_⟩
      · simp [Session.reportAll, hx, hxs]
      · simp [Session.reportAll, hy, hys]
      · simp [length]
      · simpa [rest] using unexpected.symm
      · simp [all, kept, written]
      · rw [kept, List.length_append] at result
        simp only [kept, List.length_append] at results
        cases i with
        | zero => simpa [written] using result
        | succ i => simpa [written, Nat.add_assoc] using results i

end Session

/-- **A sink has no influence on parsing, and a limit cuts its text off.**  Whatever entries are run from
a reader by parsers that write where they fail, the run ends, if they may call seven levels deep for each
token and six more, or any deeper.  Without a limit the sink holds the diagnostics of the failing steps in
order, and each of them is a syntax error; with a limit the reader goes on from the same place after every
step, each step that succeeds yields the same, the sink holds what fits of that text, and a step that fails
reports its syntax error if the text up to its own line fits, and a full sink if not.  The steps that write
behind the parse come to the same. -/
theorem reportAll_limited (reader : Reader) (log : Log) (limit : Nat) (entries : List Entry)
    (more : Nat) :
    let depth := 7 * reader.remaining + 6 + more
    ∃ free bound, (Session.mk reader (.empty none) log).reportAll depth entries = some free ∧
      (Session.mk reader (.empty (some limit)) log).reportAll depth entries = some bound ∧
      free.1.length = entries.length ∧ .error .sinkFull ∉ free.1 ∧
      free.2.sink.kept = written free.1 ∧
      (∀ k, ∃ x y,
        (Session.mk reader (.empty (some limit)) log).reportAll depth (entries.take k) = some x ∧
        (Session.mk reader (.empty none) log).reportAll depth (entries.take k) = some y ∧
        x.2.reader = y.2.reader) ∧
      bound.2.sink.kept = (written free.1).take limit ∧
      (∀ i, bound.1[i]? =
        free.1[i]?.map (underLimit limit (written (free.1.take (i + 1))).length)) ∧
      ∀ sink, (Session.mk reader sink log).reportAll depth entries =
        some (((Session.mk reader sink log).runAll entries).1.map (Except.mapError .ofFailure),
          ((Session.mk reader sink log).runAll entries).2) := by
  have enough : 7 * reader.remaining + 6 ≤ 7 * reader.remaining + 6 + more := Nat.le_add_right ..
  have start : Session.Shadows limit ⟨reader, .empty (some limit), log⟩
      ⟨reader, .empty none, log⟩ := ⟨rfl, rfl, rfl, List.take_nil.symm⟩
  obtain ⟨bound, free, hbound, hfree, shadows, length, unexpected, kept, results⟩ :=
    start.reportAll enough entries
  refine ⟨free, bound, hfree, hbound, length, unexpected, kept, fun k => ?_, ?_, fun i => ?_,
    fun sink => Session.reportAll_eq _ entries enough⟩
  · obtain ⟨x, y, hx, hy, same, -⟩ := start.reportAll enough (entries.take k)
    exact ⟨x, y, hx, hy, same.reader⟩
  · rw [shadows.kept, kept]
    rfl
  · simpa [Sink.empty] using results i

end FrontEnd
