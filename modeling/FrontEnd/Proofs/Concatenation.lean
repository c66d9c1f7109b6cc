import FrontEnd.Proofs.Locality
import FrontEnd.Proofs.Recognition

/-!
# Programs one behind the other

A program ends with a closing brace, and neither the scanner nor the parser carries anything across it.

* `EndsClosed`, `Derives.endsClosed` — no tokens, or tokens of which the last is a closing brace: such are
  the tokens of a program.
* `tokenize_append` — behind a text whose tokens end so, a second text is cut as it is alone.
* `Derives.resume` — behind the tokens of a program, the parser of items goes on as from a new start.
* `parseProgram_append` — a source behind a program is parsed as it is alone.
-/

namespace FrontEnd

open Stream' (append_append_stream cons_append_stream)

/-- There are no tokens, or the last one is a closing brace. -/
def EndsClosed (ts : List Token) : Prop := ∀ t ∈ ts.getLast?, t.kind = .mark .rightBrace

namespace EndsClosed

theorem concat {ts : List Token} {t : Token} (ht : t.kind = .mark .rightBrace) :
    EndsClosed (ts ++ [t]) := by
  simpa [EndsClosed] using ht

theorem append_left {ts us : List Token} (h : EndsClosed ts) (h' : EndsClosed us) :
    EndsClosed (ts ++ us) := by
  intro t ht
  rw [List.getLast?_append, Option.mem_def, Option.or_eq_some_iff] at ht
  rcases ht with ht | ⟨-, ht⟩
  · exact h' t ht
  · exact h t ht

theorem of_cons {t : Token} {ts : List Token} (h : EndsClosed (t :: ts)) : EndsClosed ts := by
  intro u hu
  cases ts with
  | nil => cases hu
  | cons v ts => exact h u (by rwa [List.getLast?_cons_cons])

end EndsClosed

/-! ## The seam in the text -/

/-- **No lexeme reaches across the seam**: behind a text whose last token is a closing brace, a second
text is cut as it is alone. -/
theorem Tiles.tokenize_append {n : Nat} {cs : List Char} {ls : List Lexeme} (h : Tiles n cs ls)
    (closed : EndsClosed (ls.map Lexeme.token)) (more : List Char) :
    tokenize (cs ++ more) = ls.map Lexeme.token ++ tokenize more := by
  induction h with
  | done => rfl
  | blank hb _ ih => rw [List.cons_append, tokenize_blank hb, ih closed]
  | @lexeme n kind w rest ls cut tiles ih =>
      have still : Cut kind w (rest ++ more) := by
        cases rest with
        | nil =>
            -- the last lexeme is the closing brace, which no text behind it can change
            obtain rfl : ls = [] := by rw [tiles.eq_scanFrom, scanFrom]
            exact cut.before_any (closed _ rfl)
        | cons c rest => exact cut.resume_of_ne_nil (by simp) (.append (by simp) more)
      have here := tokenize_cut still
      rw [List.append_assoc, here, ih closed.of_cons]
      rfl

theorem tokens_append {first : String} (closed : EndsClosed (tokens first)) (second : String) :
    tokens (first ++ second) = tokens first ++ tokens second := by
  have tiles : Tiles 0 first.toList (scan first) := tiles_scanFrom 0 first.toList
  have joined := tiles.tokenize_append closed second.toList
  rw [← String.toList_append] at joined
  exact joined

/-! ## The seam in the tokens -/

namespace Derives

variable {grouping : OpTree → Prop} {ts : List Token}

theorem block_last {e : Expression} (h : Derives grouping (.block e) ts) :
    ∃ us r, r.kind = .mark .rightBrace ∧ ts = us ++ [r] := by
  cases h with
  | @block _ us l r _ _ hr => exact ⟨l :: us, r, hr, rfl⟩

theorem item_last {i : Item} (h : Derives grouping (.item i) ts) :
    ∃ us r, r.kind = .mark .rightBrace ∧ ts = us ++ [r] := by
  cases h with
  | functionItem h =>
      cases h with
      | @function name type _ _ ps _ l r a _ _ _ _ inner =>
          obtain ⟨us, brace, hb, rfl⟩ := inner.block_last
          exact ⟨nameToken Keyword.kwFn.text :: nameToken name :: l ::
            (ps ++ r :: a :: nameToken type :: us), brace, hb, by simp⟩
  | @module name is us l r _ _ hr =>
      exact ⟨nameToken Keyword.kwModule.text :: nameToken name :: l :: us, r, hr, rfl⟩

theorem endsClosed {is : List Item} (h : Derives grouping (.items is) ts) : EndsClosed ts := by
  induction is generalizing ts with
  | nil =>
      cases h
      simp [EndsClosed]
  | cons i is ih =>
      cases h with
      | moreItems first rest =>
          obtain ⟨us, r, hr, rfl⟩ := first.item_last
          exact (EndsClosed.concat hr).append_left (ih rest)

/-- **Behind the tokens of some declarations the parser goes on as from a new start**: what it yields
then is put behind these declarations, and what it refuses then it refuses. -/
theorem resume {is : List Item} (h : Derives OpTree.Grouped (.items is) ts) {stop : TokenKind}
    (hstop : stop ≠ .identifier) {r : Reader} {rest : Stream' Token} (hr : r.stream = ts ++ₛ rest) :
    ∃ s, s.stream = rest ∧ Parse.items stop r = (Parse.items stop s).map (is ++ ·) := by
  induction is generalizing ts r with
  | nil =>
      cases h
      refine ⟨r, hr, ?_⟩
      cases Parse.items stop r <;> rfl
  | cons i is ih =>
      cases h with
      | @moreItems _ _ ts us first tail =>
          rw [append_append_stream] at hr
          have begins : r.peek.1.kind ≠ stop := by
            obtain ⟨name, vs, rfl⟩ := first.item_head
            rw [(Parse.peek_of_stream hr).1]
            exact hstop.symm
          obtain ⟨r₁, hitem, hr₁⟩ := first.accepted r.peek.2 _ (by rw [r.stream_peek, hr])
          obtain ⟨s, hs, hrest⟩ := ih tail hr₁
          refine ⟨s, hs, ?_⟩
          rw [Parse.items_eq, if_neg begins, hitem, Outcome.bind_done, hrest]
          cases Parse.items stop s <;> rfl

end Derives

/-! ## The whole -/

/-- Parses that agree but for how their readers hold what is left report the same, and write the same. -/
theorem Session.run_same {α β : Type} {s s' : Session} {parser : Reader → Outcome α}
    {parser' : Reader → Outcome β} {f : α → β} (hsink : s'.sink = s.sink)
    (h : (parser' s'.reader).Same ((parser s.reader).map f)) :
    (s'.run parser').1 = (s.run parser).1.map f ∧ (s'.run parser').2.sink = (s.run parser).2.sink := by
  unfold Session.run
  rw [hsink]
  generalize parser' s'.reader = o' at h ⊢
  cases ho : parser s.reader with
  | done a r =>
      rw [ho] at h
      cases h
      exact ⟨rfl, rfl⟩
  | refused e r =>
      rw [ho] at h
      cases h
      dsimp only
      split <;> exact ⟨rfl, rfl⟩

theorem parseProgram_sink (source : String) (sink : Sink) :
    (parseProgram source sink).2.sink =
      ((Session.start source sink #[]).run Parse.program).2.sink := by
  unfold parseProgram
  split <;> rename_i h <;> rw [h]

/-- **A source behind a program is parsed as it is alone.**  If it is a program too, its declarations
come behind those of the first; if it is not, the error names the same token and the same expectation;
and in each case the same text is written to the sink. -/
theorem parseProgram_append {first : String} {sink₀ : Sink} {p : Program}
    (h : (parseProgram first sink₀).1 = .ok p) (second : String) (sink : Sink) :
    (parseProgram (first ++ second) sink).1 = (parseProgram second sink).1.map (p ++ ·) ∧
      (parseProgram (first ++ second) sink).2.sink = (parseProgram second sink).2.sink := by
  rw [parseProgram_fst, Session.run_eq_ok_iff] at h
  have derives : Derives OpTree.Grouped (.items p) (tokens first) := program_done_iff.1 h
  have joined : (Reader.ofSource (first ++ second)).stream =
      tokens first ++ₛ (Reader.ofSource second).stream := by
    rw [stream_ofSource, stream_ofSource, tokens_append derives.endsClosed, append_append_stream]
  have hstop : TokenKind.endOfFile ≠ .identifier := by simp
  obtain ⟨s, hs, hparse⟩ := derives.resume hstop joined
  -- the reader at the seam and the one at the start of the second source deliver the same
  have same : (Parse.program (Reader.ofSource (first ++ second))).Same
      ((Parse.program (Reader.ofSource second)).map (p ++ ·)) := by
    have := (Reader.lockstep_stream.items .endOfFile s (Reader.ofSource second)).map (p ++ ·)
    rw [Parse.program, hparse]
    exact this.same hs
  have sinks : (Session.start (first ++ second) sink #[]).sink = (Session.start second sink #[]).sink :=
    rfl
  rw [parseProgram_fst, parseProgram_fst, parseProgram_sink, parseProgram_sink]
  exact Session.run_same sinks same

/-- Behind a function, the text `} fn` is refused as it is alone. -/
theorem parseProgram_append_strayBrace :
    (parseProgram "fn f() -> a \x7b\x7d" (.empty none)).1 = .ok [.function ⟨"f", [], "a", .empty⟩] ∧
    (parseProgram ("fn f() -> a \x7b\x7d" ++ "\x7d fn") (.empty none)).1 =
      .error (.unexpected ⟨.topLevel, markToken .rightBrace⟩) := by
  have first : (parseProgram "fn f() -> a \x7b\x7d" (.empty none)).1 =
      .ok [.function ⟨"f", [], "a", .empty⟩] := by decide +kernel
  have second : (parseProgram "\x7d fn" (.empty none)).1 =
      .error (.unexpected ⟨.topLevel, markToken .rightBrace⟩) := by decide +kernel
  refine ⟨first, ?_⟩
  rw [(parseProgram_append first "\x7d fn" (.empty none)).1, second]
  rfl

end FrontEnd
