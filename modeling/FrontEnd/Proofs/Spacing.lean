import FrontEnd.Proofs.Locality
import FrontEnd.Compilation

/-!
# White space has no meaning

* `Layout`, `Layout.Of` — a source taken apart into its lexemes and the white space around them.  Every
  source has a layout, `exists_layout`.
* `Layout.Respaces` — other white space around the same lexemes, where a gap between two of them that was
  not empty is not closed.
* `Unfinished.tokenize_append` — a fault that ends with the source takes the white space behind it in, and
  is the same token.
* `tokenize_respaced` — other white space leaves the tokens as they are.
* `compile_respaced` — and so all that is made of them.
-/

namespace FrontEnd

/-- White space, which may be empty. -/
def Blank (gap : List Char) : Prop := ∀ c ∈ gap, isBlank c = true

/-- A lexeme's text and the gap behind it. -/
structure Piece where
  text : List Char
  gap : List Char
deriving DecidableEq, Repr

def Piece.texts (ps : List Piece) : List Char := ps.flatMap fun p => p.text ++ p.gap

theorem Piece.texts_nil : Piece.texts [] = [] := rfl

theorem Piece.texts_cons (p : Piece) (ps : List Piece) :
    Piece.texts (p :: ps) = p.text ++ (p.gap ++ Piece.texts ps) := by
  simp [texts]

/-- The gap in front of the first lexeme, and the lexemes with the gaps behind them. -/
structure Layout where
  before : List Char
  pieces : List Piece
deriving DecidableEq, Repr

namespace Layout

def text (l : Layout) : List Char := l.before ++ Piece.texts l.pieces

/-- The pieces are the lexemes of the source, and the gaps are white space. -/
structure Of (l : Layout) (source : String) : Prop where
  text : l.text = source.toList
  lexemes : l.pieces.map Piece.text = (scan source).map Lexeme.text
  before : Blank l.before
  gaps : ∀ p ∈ l.pieces, Blank p.gap

end Layout

/-- The same lexemes with other gaps.  The gap behind the last one may be any; a gap between two that was
not empty is not empty. -/
inductive Respaced : List Piece → List Piece → Prop
  | nil : Respaced [] []
  | last {w gap gap' : List Char} (hb : Blank gap') : Respaced [⟨w, gap⟩] [⟨w, gap'⟩]
  | cons {w gap gap' : List Char} {ps ps' : List Piece} (hb : Blank gap')
    (keep : gap ≠ [] → gap' ≠ []) (h : Respaced ps ps') : Respaced (⟨w, gap⟩ :: ps) (⟨w, gap'⟩ :: ps')

/-- The same lexemes with other white space around them. -/
structure Layout.Respaces (l l' : Layout) : Prop where
  before : Blank l'.before
  pieces : Respaced l.pieces l'.pieces

/-! ## Layouts -/

theorem Blank.cons {c : Char} {gap : List Char} (hc : isBlank c = true) (h : Blank gap) :
    Blank (c :: gap) := by
  simpa [Blank, hc] using h

theorem Blank.tail {c : Char} {gap : List Char} (h : Blank (c :: gap)) : Blank gap :=
  fun d hd => h d (List.mem_cons_of_mem c hd)

/-- A tiled text is a gap and pieces. -/
theorem Tiles.exists_pieces {n : Nat} {cs : List Char} {ls : List Lexeme} (h : Tiles n cs ls) :
    ∃ before ps, cs = before ++ Piece.texts ps ∧ ps.map Piece.text = ls.map Lexeme.text ∧
      Blank before ∧ ∀ p ∈ ps, Blank p.gap := by
  induction h with
  | done => exact ⟨[], [], rfl, rfl, by simp [Blank], by simp⟩
  | @blank n c cs ls hb _ ih =>
      obtain ⟨before, ps, text, lexemes, blank, gaps⟩ := ih
      exact ⟨c :: before, ps, by rw [text, List.cons_append], lexemes, .cons hb blank, gaps⟩
  | @lexeme n kind w rest ls _ _ ih =>
      obtain ⟨gap, ps, text, lexemes, blank, gaps⟩ := ih
      refine ⟨[], ⟨w, gap⟩ :: ps, ?_, ?_, by simp [Blank], ?_⟩
      · simp [text, Piece.texts]
      · simp [lexemes]
      · simpa using ⟨blank, gaps⟩

theorem exists_layout (source : String) : ∃ l : Layout, l.Of source := by
  obtain ⟨before, ps, text, lexemes, blank, gaps⟩ :=
    (tiles_scanFrom 0 source.toList).exists_pieces
  exact ⟨⟨before, ps⟩, text.symm, lexemes, blank, gaps⟩

/-! ## White space behind a text -/

theorem tokenize_append_blank {gap : List Char} (h : Blank gap) (cs : List Char) :
    tokenize (gap ++ cs) = tokenize cs := by
  induction gap with
  | nil => rfl
  | cons c gap ih =>
      rw [List.cons_append, tokenize_blank (h c (by simp)), ih fun d hd => h d (by simp [hd])]

theorem tokenize_nil : tokenize [] = [] := by
  simp [tokenize, scanFrom]

theorem tokenize_gap {gap : List Char} (h : Blank gap) : tokenize gap = [] := by
  have := tokenize_append_blank h []
  rwa [List.append_nil, tokenize_nil] at this

/-- A lexeme and white space are one token. -/
theorem Cut.tokenize_gap {kind : LexemeKind} {w gap : List Char} (h : Cut kind w gap)
    (hb : Blank gap) : tokenize (w ++ gap) = [Lexeme.token ⟨kind, w, 0⟩] := by
  rw [tokenize_cut h, FrontEnd.tokenize_gap hb]

theorem tokenize_openString {cs gap : List Char}
    (h : ∀ body after, cs = body ++ '"' :: after → ¬ Unquoted body) (hb : Blank gap) :
    tokenize ('"' :: (cs ++ gap)) = [⟨.error, LexFault.unterminatedString.message⟩] := by
  have still : ∀ body after, cs ++ gap = body ++ '"' :: after → ¬ Unquoted body := by
    intro body after eq
    rcases List.append_eq_append_iff.1 eq with ⟨more, -, hgap⟩ | ⟨more, hcs, hgap⟩
    · subst hgap
      cases hb '"' (by simp)
    · cases more with
      | nil =>
          obtain rfl : gap = '"' :: after := hgap.symm
          cases hb '"' (by simp)
      | cons c more =>
          obtain ⟨rfl, -⟩ := List.cons.inj hgap
          exact h body more hcs
  have cut := (Cut.unterminatedString still).tokenize_gap (by simp [Blank])
  rw [List.append_nil] at cut
  exact cut

theorem tokenize_openChar {content gap : List Char} (h : IsContent content) (hb : Blank gap) :
    tokenize ('\'' :: (content ++ gap)) = [⟨.error, LexFault.unterminatedChar.message⟩] := by
  cases gap with
  | nil => exact (Cut.charAtEnd h).tokenize_gap hb
  | cons c gap =>
      have hc : c ≠ '\'' := by
        rintro rfl
        cases hb '\'' (by simp)
      have cut : Cut (.fault .unterminatedChar) ('\'' :: content ++ [c]) gap := .unclosedChar h hc
      have token := cut.tokenize_gap hb.tail
      rw [List.append_assoc] at token
      exact token

/-- **A fault that ends with the source takes white space behind it in**, and its token is the same. -/
theorem Unfinished.tokenize_append {kind : LexemeKind} {w gap : List Char} (h : Unfinished kind w)
    (hb : Blank gap) : tokenize (w ++ gap) = [Lexeme.token ⟨kind, w, 0⟩] := by
  cases h with
  | string h => exact tokenize_openString h hb
  | char h => exact tokenize_openChar h hb
  | backslash =>
      cases gap with
      | nil => exact Cut.backslashAtEnd.tokenize_gap hb
      | cons c gap =>
          have token := tokenize_openChar (.escape : IsContent ['\\', c]) hb.tail
          exact token
  | apostrophe =>
      cases gap with
      | nil => exact Cut.apostropheAtEnd.tokenize_gap hb
      | cons c gap =>
          have hc : c ≠ '\\' := by
            rintro rfl
            cases hb '\\' (by simp)
          have token := tokenize_openChar (.plain hc) hb.tail
          exact token

/-- The last lexeme of a source is the same token before any white space. -/
theorem Cut.tokenize_last {kind : LexemeKind} {w rest gap : List Char} (h : Cut kind w rest)
    (hb : Blank gap) : tokenize (w ++ gap) = [Lexeme.token ⟨kind, w, 0⟩] := by
  rcases h.resume (Resumes.of_blank hb) with still | ⟨-, unfinished⟩
  · exact still.tokenize_gap hb
  · exact unfinished.tokenize_append hb

/-! ## Other white space -/

theorem Tiles.drop_blank {n : Nat} {gap cs : List Char} {ls : List Lexeme} (hb : Blank gap)
    (h : Tiles n (gap ++ cs) ls) : ∃ m, Tiles m cs ls := by
  induction gap generalizing n with
  | nil => exact ⟨n, h⟩
  | cons c gap ih =>
      rw [tiles_iff, List.cons_append, scanFrom_blank (hb c (by simp)), ← tiles_iff] at h
      exact ih (fun d hd => hb d (by simp [hd])) h

theorem Tiles.uncons {n : Nat} {more : List Char} {l : Lexeme} {ls : List Lexeme}
    (h : Tiles n (l.text ++ more) (l :: ls)) : Cut l.kind l.text more ∧ ∃ m, Tiles m more ls := by
  obtain ⟨before, after, located⟩ := h.located l List.mem_cons_self
  obtain ⟨c, v, text, hb⟩ := located.cut.front
  rw [tiles_iff, text, List.cons_append, scanFrom, if_neg (by simp [hb])] at h
  obtain ⟨rfl, rfl⟩ := List.cons.inj h
  have cut := munch_cut hb (v ++ more)
  have whole := (munch_append c (v ++ more)).1
  dsimp only at text
  rw [text, ← List.cons_append, List.append_cancel_left_eq] at whole
  rw [whole] at cut ⊢
  exact ⟨cut, _, tiles_scanFrom _ more⟩

/-- Pieces with other gaps begin with the same lexeme, or with white space. -/
theorem Respaced.resumes {gap gap' : List Char} {ps ps' : List Piece} (h : Respaced ps ps')
    (hb : Blank gap') (keep : gap ≠ [] → gap' ≠ []) (text : ∀ p ∈ ps, p.text ≠ []) :
    Resumes (gap ++ Piece.texts ps) (gap' ++ Piece.texts ps') := by
  cases gap' with
  | cons c gap' =>
      rintro d ⟨⟩
      exact .inl (hb c (by simp))
  | nil =>
      obtain rfl : gap = [] := by
        by_contra hg
        exact keep hg rfl
      intro d hd
      right
      cases h with
      | nil => exact hd
      | last | cons =>
          obtain ⟨c, w, rfl⟩ := List.exists_cons_of_ne_nil (text _ List.mem_cons_self)
          exact hd

theorem Tiles.text_ne_nil {n : Nat} {cs : List Char} {ls : List Lexeme} (h : Tiles n cs ls) :
    ∀ l ∈ ls, l.text ≠ [] := by
  intro l hl
  obtain ⟨before, after, located⟩ := h.located l hl
  obtain ⟨c, v, text, -⟩ := located.cut.front
  simp [text]

/-- **Other white space behind the lexemes leaves the tokens as they are.** -/
theorem Respaced.tokenize {ps ps' : List Piece} (h : Respaced ps ps') {n : Nat} {ls : List Lexeme}
    (tiles : Tiles n (Piece.texts ps) ls) (lexemes : ps.map Piece.text = ls.map Lexeme.text)
    (gaps : ∀ p ∈ ps, Blank p.gap) : tokenize (Piece.texts ps') = ls.map Lexeme.token := by
  induction h generalizing n ls with
  | nil =>
      obtain rfl : ls = [] := by simpa using lexemes.symm
      exact tokenize_nil
  | @last w gap gap' hb =>
      obtain ⟨l, rfl, rfl⟩ : ∃ l, ls = [l] ∧ l.text = w := by simpa using lexemes.symm
      rw [Piece.texts_cons] at tiles ⊢
      obtain ⟨cut, -⟩ := tiles.uncons
      have token := cut.tokenize_last hb
      rw [Piece.texts_nil, List.append_nil, token]
      rfl
  | @cons w gap gap' ps ps' hb keep respaced ih =>
      obtain ⟨l, ls, rfl, rfl, words⟩ := List.map_eq_cons_iff.1 lexemes.symm
      rw [Piece.texts_cons] at tiles ⊢
      obtain ⟨cut, m, tiles⟩ := tiles.uncons
      obtain ⟨m, tiles⟩ := tiles.drop_blank (gaps _ List.mem_cons_self)
      have tail := ih tiles words.symm fun p hp => gaps p (List.mem_cons_of_mem _ hp)
      have filled : ∀ p ∈ ps, p.text ≠ [] := by
        intro p hp
        have hw : p.text ∈ ls.map Lexeme.text := words ▸ List.mem_map_of_mem hp
        obtain ⟨l', hl, same⟩ := List.mem_map.1 hw
        rw [← same]
        exact tiles.text_ne_nil l' hl
      rcases cut.resume (respaced.resumes hb keep filled) with still | ⟨none, unfinished⟩
      · rw [tokenize_cut still, tokenize_append_blank hb, tail]
        rfl
      · cases ps with
        | cons p ps => simp [Piece.texts_cons, filled p] at none
        | nil =>
            -- nothing is behind the lexeme but the new gap
            cases respaced
            obtain rfl : ls = [] := by simpa using words
            rw [Piece.texts_nil, List.append_nil, unfinished.tokenize_append hb]
            rfl

/-- Two sources with one list of tokens are one source to all that comes after the scanner. -/
theorem compile_congr {source source' : String} (h : tokens source' = tokens source) (sink : Sink) :
    parseProgram source' sink = parseProgram source sink ∧
      compile source' sink = compile source sink := by
  have start : Session.start source' sink #[] = Session.start source sink #[] := by
    simp [Session.start, Reader.ofSource, h]
  have parse : parseProgram source' sink = parseProgram source sink := by
    unfold parseProgram
    rw [start]
  refine ⟨parse, ?_⟩
  unfold compile
  rw [parse]

/-- **White space has no meaning.**  Every source can be taken apart into its lexemes and the white space
around them.  With other white space, in which only the gaps between two lexemes that are not empty have
to stay so, the source has the same tokens, and is parsed and compiled with the same results and the same
text in the sink.  The lexemes may be faults of any kind. -/
theorem compile_respaced (source : String) :
    (∃ l : Layout, l.Of source) ∧
    ∀ l l' : Layout, l.Of source → l.Respaces l' →
      tokens (String.ofList l'.text) = tokens source ∧
      ∀ sink, parseProgram (String.ofList l'.text) sink = parseProgram source sink ∧
        compile (String.ofList l'.text) sink = compile source sink := by
  refine ⟨exists_layout source, fun l l' laid respaced => ?_⟩
  have same : tokens (String.ofList l'.text) = tokens source := by
    have tiles : Tiles 0 source.toList (scan source) := tiles_scanFrom 0 source.toList
    rw [← laid.text, Layout.text] at tiles
    obtain ⟨m, tiles⟩ := tiles.drop_blank laid.before
    have tail := respaced.pieces.tokenize tiles laid.lexemes laid.gaps
    rw [← tokenize_append_blank respaced.before] at tail
    have text : (String.ofList l'.text).toList = l'.text := String.toList_ofList
    show tokenize (String.ofList l'.text).toList = _
    rw [text]
    exact tail
  exact ⟨same, compile_congr same⟩

/-- A character literal that is not closed takes the tab behind it in, and is the same token. -/
theorem compile_respaced_openChar :
    tokens "\r\nfn  'a\t" = tokens "fn 'a" ∧
      compile "\r\nfn  'a\t" (.empty none) = compile "fn 'a" (.empty none) := by
  have laid : (Layout.mk [] [⟨['f', 'n'], [' ']⟩, ⟨['\'', 'a'], []⟩]).Of "fn 'a" :=
    ⟨rfl, by decide +kernel, by simp [Blank], by simp [Blank, isBlank]⟩
  have respaced : (Layout.mk [] [⟨['f', 'n'], [' ']⟩, ⟨['\'', 'a'], []⟩]).Respaces
      ⟨['\r', '\n'], [⟨['f', 'n'], [' ', ' ']⟩, ⟨['\'', 'a'], ['\t']⟩]⟩ := by
    refine ⟨?_, .cons ?_ (by simp) (.last ?_)⟩ <;> simp [Blank, isBlank]
  obtain ⟨same, result⟩ := (compile_respaced "fn 'a").2 _ _ laid respaced
  exact ⟨same, (result (.empty none)).2⟩

end FrontEnd
