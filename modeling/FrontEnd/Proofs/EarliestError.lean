import FrontEnd.Proofs.Recognition
import FrontEnd.Proofs.ViablePrefix

/-!
# The first wrong token

A syntax error names the first token that no program can have where it stands, and the parser has not
read on behind it.

* `FirstError` — the `k`th token of a source is wrong: the tokens before it begin some program, and
  with it they begin none.  The end of the file is wrong where the tokens are no program.
* `Reader.AgreeTo` — two readers that agree up to the `n`th token scanned.  `lockstep_agreeTo` says that
  a parser that scans no more of them cannot tell one from the other.
* `parseProgram_error_first` — a parse that fails names the first wrong token and has scanned the tokens
  up to it, each once; one that succeeds has scanned them all.
-/

namespace FrontEnd

open Parse
open Stream' (append_append_stream cons_append_stream)

namespace Reader

/-- The tokens that were not yet scanned. -/
def unread (r : Reader) : Stream' Token := r.upcoming ++ₛ Stream'.const Token.endOfFile

theorem scanToken_fst (r : Reader) : r.scanToken.1 = r.unread.head := by
  unfold scanToken unread
  split <;> rename_i h <;> rw [h] <;> rfl

theorem unread_scanToken (r : Reader) : r.scanToken.2.unread = r.unread.tail := by
  unfold scanToken unread
  split <;> rename_i h
  · simp [h]
  · simp [h, cons_append_stream]

theorem last_scanToken (r : Reader) : r.scanToken.2.last = r.scanToken.1 := by
  unfold scanToken
  split <;> rfl

theorem pending_scanToken (r : Reader) : r.scanToken.2.pending = r.pending := by
  unfold scanToken
  split <;> rfl

/-- The readers hold back the same token, if any, and the tokens that they have not scanned agree until
the first of them has scanned `n` in all. -/
structure AgreeTo (n : Nat) (r s : Reader) : Prop where
  last : r.last = s.last
  pending : r.pending = s.pending
  unread : ∃ ts σ τ, r.unread = ts ++ₛ σ ∧ s.unread = ts ++ₛ τ ∧ r.log.scanned.length + ts.length = n

def Beyond (n : Nat) (r : Reader) : Prop := n < r.log.scanned.length

variable {n : Nat} {r s : Reader}

theorem AgreeTo.scanToken (h : AgreeTo n r s) :
    Beyond n r.scanToken.2 ∨
      r.scanToken.1 = s.scanToken.1 ∧ AgreeTo n r.scanToken.2 s.scanToken.2 := by
  obtain ⟨hl, hp, ts, σ, τ, hr, hs, hn⟩ := h
  have length := congrArg List.length r.scanned_scanToken
  rw [List.length_append, List.length_singleton] at length
  cases ts with
  | nil =>
      left
      simp only [List.length_nil] at hn
      unfold Beyond
      omega
  | cons t ts =>
      have head : r.scanToken.1 = s.scanToken.1 := by
        rw [scanToken_fst, scanToken_fst, hr, hs]
        rfl
      refine Or.inr ⟨head, ?_, ?_, ts, σ, τ, ?_, ?_, ?_⟩
      · rw [last_scanToken, last_scanToken, head]
      · rw [pending_scanToken, pending_scanToken, hp]
      · rw [unread_scanToken, hr]
        rfl
      · rw [unread_scanToken, hs]
        rfl
      · simp only [List.length_cons] at hn
        omega

theorem AgreeTo.get (h : AgreeTo n r s) :
    Beyond n r.get.2 ∨ r.get.1 = s.get.1 ∧ AgreeTo n r.get.2 s.get.2 := by
  unfold Reader.get
  rw [← h.pending]
  split
  · exact Or.inr ⟨h.last, h.last, rfl, h.unread⟩
  · exact h.scanToken

theorem Beyond.get (h : Beyond n r) : Beyond n r.get.2 := by
  unfold Beyond at h ⊢
  unfold Reader.get
  split
  · exact h
  · rw [scanned_scanToken, List.length_append]
    omega

/-- Readers that agree up to a horizon stay together until the horizon is passed. -/
theorem lockstep_agreeTo (n : Nat) : Lockstep (Beyond n) (AgreeTo n) where
  together_get h := h.get
  together_peek h := by
    rcases h.get with hb | ⟨ht, hg⟩
    · exact Or.inl hb
    · exact Or.inr ⟨ht, hg.last, rfl, hg.unread⟩
  together_note {r s es} hes h :=
    ⟨h.last, h.pending, by
      have same : (r.noteAll es).log.scanned = r.log.scanned := scanned_append_quiet r.log hes
      rw [same]
      exact h.unread⟩
  beyond_get h := h.get
  beyond_peek h := h.get
  beyond_note {r es} hes h := by
    unfold Beyond
    have same : (r.noteAll es).log.scanned = r.log.scanned := scanned_append_quiet r.log hes
    rw [same]
    exact h

end Reader

/-- **A refusal depends on nothing behind the refused token.**  With the same tokens up to it every
source is refused. -/
theorem program_refused_of_prefix {ts us vs : List Token} {σ : Stream' Token} {e : Mismatch}
    {s : Reader} (h : Parse.program (.ofTokens us) = .refused e s) (hs : s.log.scanned = ts)
    (hus : us ++ₛ Stream'.const Token.endOfFile = ts ++ₛ σ) :
    ∃ s', Parse.program (.ofTokens (ts ++ vs)) = .refused e s' := by
  have agree : (Reader.ofTokens us).AgreeTo ts.length (.ofTokens (ts ++ vs)) :=
    ⟨rfl, rfl, ts, σ, vs ++ₛ Stream'.const Token.endOfFile, hus, append_append_stream _ _ _,
      by simp [Reader.ofTokens, Log.scanned]⟩
  unfold Parse.program at h ⊢
  have run := ((Reader.lockstep_agreeTo ts.length).items .endOfFile _ _).together agree
  rw [h] at run
  rcases run with beyond | same
  · have : ts.length < s.log.scanned.length := beyond
    rw [hs] at this
    omega
  · generalize items .endOfFile (.ofTokens (ts ++ vs)) = o at same ⊢
    cases same with
    | refused => exact ⟨_, rfl⟩

/-- What a program derives is accepted, so no list of tokens is both derived and refused. -/
theorem not_derives_of_refused {ts : List Token} {e : Mismatch} {s : Reader}
    (h : Parse.program (.ofTokens ts) = .refused e s) (p : Program) :
    ¬ Derives AnyGrouping (.items p) ts := by
  intro hp
  obtain ⟨q, hq⟩ : ∃ q, Derives OpTree.Grouped (.items q) ts := hp.regroup OpTree.exists_grouped
  obtain ⟨s', hs', -⟩ := hq.accepted (.ofTokens ts) .endOfFile _ (Reader.stream_ofTokens ts) rfl
    (by simp)
  unfold Parse.program at h
  rw [h] at hs'
  cases hs'

/-- Tokens without the end of the file, and one behind them, that stand at the front of the stream of a
source are the first of its tokens. -/
theorem take_of_append_stream_eq {ts us : List Token} {t : Token} {σ : Stream' Token}
    (h : us ++ₛ Stream'.const Token.endOfFile = ts ++ₛ Stream'.cons t σ)
    (hts : ∀ x ∈ ts, x.kind ≠ .endOfFile) :
    (us ++ [Token.endOfFile]).take (ts.length + 1) = ts ++ [t] := by
  induction ts generalizing us with
  | nil =>
      cases us with
      | nil =>
          have head : Token.endOfFile = t := congrArg Stream'.head h
          simp [head]
      | cons u us =>
          have head : u = t := congrArg Stream'.head h
          simp [head]
  | cons x ts ih =>
      cases us with
      | nil =>
          have head : Token.endOfFile = x := congrArg Stream'.head h
          exact absurd (head ▸ rfl) (hts x List.mem_cons_self)
      | cons u us =>
          have head : u = x := congrArg Stream'.head h
          have tail : us ++ₛ Stream'.const Token.endOfFile = ts ++ₛ Stream'.cons t σ :=
            congrArg Stream'.tail h
          simpa [head] using ih tail fun y hy => hts y (List.mem_cons_of_mem x hy)

theorem Reader.StopsAt.stream {r s : Reader} {ts : List Token} {t : Token} (h : r.StopsAt ts t s) :
    ∃ σ, r.stream = ts ++ₛ Stream'.cons t σ := by
  obtain ⟨q, hq, rfl, -⟩ := h
  exact ⟨q.get.2.stream, by rw [hq.stream, ← q.stream_eq_cons]⟩

/-- Where the parser of programs stops in a source, it has scanned the tokens up to there. -/
theorem scanned_of_stopsAt {source : String} {ts : List Token} {t : Token} {s : Reader}
    (h : (Reader.ofSource source).StopsAt ts t s) (hts : ∀ x ∈ ts, x.kind ≠ .endOfFile) :
    s.log.scanned = ts ++ [t] ∧ (allTokens source).take (ts.length + 1) = ts ++ [t] := by
  obtain ⟨σ, hσ⟩ := h.stream
  rw [stream_ofSource] at hσ
  exact ⟨h.scanned (Reader.delivered_ofTokens _), take_of_append_stream_eq hσ hts⟩

/-- The `k`th token of the source is `t`, and it is the first that is wrong: the tokens before it begin
a program, and those up to it begin none.  Where there is no further token, the tokens are no program. -/
structure FirstError (source : String) (k : Nat) (t : Token) : Prop where
  token : (allTokens source)[k]? = some t
  viable : ∃ us p, Derives AnyGrouping (.items p) ((allTokens source).take k ++ us)
  wrong : t.kind ≠ .endOfFile →
    ∀ us p, ¬ Derives AnyGrouping (.items p) ((allTokens source).take (k + 1) ++ us)
  incomplete : t.kind = .endOfFile → ∀ p, ¬ Derives AnyGrouping (.items p) ((allTokens source).take k)

/-- The parser of programs refuses the first wrong token, and it has scanned nothing behind it. -/
theorem program_refused {source : String} {e : Mismatch} {s : Reader}
    (h : Parse.program (.ofSource source) = .refused e s) :
    ∃ k, FirstError source k e.found ∧ s.log.scanned = (allTokens source).take (k + 1) := by
  obtain ⟨ts, stops, us, p, hp⟩ := items_breaksOff h
  have hts : ∀ x ∈ ts, x.kind ≠ .endOfFile := fun x hx =>
    hp.ne_endOfFile x (List.mem_append_left us hx)
  obtain ⟨scanned, upTo⟩ := scanned_of_stopsAt stops hts
  have before : (allTokens source).take ts.length = ts := by
    have := congrArg (List.take ts.length) upTo
    simpa [List.take_take] using this
  refine ⟨ts.length, ⟨?_, ?_, ?_, ?_⟩, scanned.trans upTo.symm⟩
  · have := congrArg (·[ts.length]?) upTo
    simpa [List.getElem?_take] using this
  · rw [before]
    obtain ⟨q, hq⟩ : ∃ q, Derives AnyGrouping (.items q) (ts ++ us) :=
      hp.regroup fun first ops =>
        let ⟨t, hf, hr, _⟩ := OpTree.exists_grouped first ops
        ⟨t, hf, hr, trivial⟩
    exact ⟨us, q, hq⟩
  · intro _ vs q hq
    obtain ⟨σ, hσ⟩ := stops.stream
    rw [stream_ofSource] at hσ
    rw [upTo] at hq
    have same : tokens source ++ₛ Stream'.const Token.endOfFile =
        (ts ++ [e.found]) ++ₛ σ := by
      rw [hσ, append_append_stream]
      rfl
    obtain ⟨s', hs'⟩ : ∃ s', Parse.program (.ofTokens (ts ++ [e.found] ++ vs)) = .refused e s' :=
      program_refused_of_prefix h scanned same
    exact not_derives_of_refused hs' q hq
  · intro ended q hq
    rw [before] at hq
    obtain ⟨σ, hσ⟩ := stops.stream
    rw [stream_ofSource] at hσ
    have all : ts = tokens source :=
      eq_of_append_stream_eq hσ.symm ended rfl hts (tokens_ne_endOfFile source)
    exact not_derives_of_refused h q (all ▸ hq)

/-- The parser of programs accepts a source when it has scanned all of it and one end of the file. -/
theorem program_done {source : String} {p : Program} {s : Reader}
    (h : Parse.program (.ofSource source) = .done p s) : s.log.scanned = allTokens source := by
  obtain ⟨ts, q, hts, hq, stop, rfl⟩ := items_sound h
  have stops : (Reader.ofSource source).StopsAt ts q.peek.1 q.peek.2 := by
    simpa using hq.stopsAt q.stopsAt_peek
  obtain ⟨scanned, upTo⟩ := scanned_of_stopsAt stops hts.ne_endOfFile
  obtain ⟨σ, hσ⟩ := stops.stream
  rw [stream_ofSource] at hσ
  have all : ts = tokens source :=
    eq_of_append_stream_eq hσ.symm stop rfl hts.ne_endOfFile (tokens_ne_endOfFile source)
  rw [scanned, ← upTo, all]
  exact List.take_of_length_le (by simp [allTokens])

theorem scanned_push (log : Log) {x : Event} (hx : x.scannedToken? = none) :
    Log.scanned (log.push x) = log.scanned := by
  simp [Log.scanned, hx]

/-- **A syntax error names the first wrong token.**  The tokens up to it have been scanned, each once and
in order, and no more; a parse that succeeds has scanned all tokens and the end of the file. -/
theorem parseProgram_error_first (source : String) (sink : Sink) :
    (∀ e, (parseProgram source sink).1 = .error (.unexpected e) → ∃ k, FirstError source k e.found ∧
      (parseProgram source sink).2.log.scanned = (allTokens source).take (k + 1)) ∧
    (∀ p, (parseProgram source sink).1 = .ok p →
      (parseProgram source sink).2.log.scanned = allTokens source) := by
  cases h : Parse.program (.ofSource source) with
  | done p s =>
      rw [parseProgram_of_done h]
      refine ⟨by simp, fun _ _ => ?_⟩
      rw [scanned_push _ rfl, program_done h]
  | refused e s =>
      obtain ⟨k, first, scanned⟩ := program_refused h
      rw [parseProgram_of_refused h]
      split
      · refine ⟨?_, by simp⟩
        rintro _ ⟨rfl⟩
        exact ⟨k, first, by rw [scanned_push _ rfl, scanned]⟩
      · exact ⟨by simp, by simp⟩

/-- In `fn f() int` the first wrong token is the name where the arrow should stand. -/
theorem parseProgram_error_first_missingArrow :
    (parseProgram "fn f() int" (.empty none)).1 =
      .error (.unexpected ⟨.mark .arrow, nameToken "int"⟩) ∧
    ∃ k, FirstError "fn f() int" k (nameToken "int") ∧
      (parseProgram "fn f() int" (.empty none)).2.log.scanned =
        (allTokens "fn f() int").take (k + 1) := by
  have refused : (parseProgram "fn f() int" (.empty none)).1 =
      .error (.unexpected ⟨.mark .arrow, nameToken "int"⟩) := by decide +kernel
  exact ⟨refused, (parseProgram_error_first "fn f() int" (.empty none)).1 _ refused⟩

end FrontEnd
