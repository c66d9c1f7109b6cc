import FrontEnd.Proofs.ByteOffsets
import FrontEnd.Proofs.TokenStream
import Mathlib.Logic.Function.Iterate

/-!
# The lexemes tile the source

* `Tiles` — a text is white space and lexemes, each lexeme the cut at its place.  `tiles_iff` says that
  the scanner's lexemes are such a tiling, and the only one.
* `Tiles.located`, `Tiles.pairwise`, `Tiles.covers` — what follows for the places of the lexemes: each is
  where it says it is, no two of them overlap, and only white space lies outside.
* `tokens_ne_endOfFile`, `get_skip_ofSource_kind` — a reader hands out these lexemes one by one, and then
  the end of the file.
* `scan_tiles` joins them.
-/

namespace FrontEnd

/-- The text that starts at the byte `n` is white space and the lexemes `ls`. -/
inductive Tiles : Nat → List Char → List Lexeme → Prop
  | done {n : Nat} : Tiles n [] []
  | blank {n : Nat} {c : Char} {cs : List Char} {ls : List Lexeme} (hb : isBlank c)
    (h : Tiles (n + c.utf8Size) cs ls) : Tiles n (c :: cs) ls
  | lexeme {n : Nat} {kind : LexemeKind} {w rest : List Char} {ls : List Lexeme}
    (hc : Cut kind w rest) (h : Tiles (n + byteLength w) rest ls) :
    Tiles n (w ++ rest) (⟨kind, w, n⟩ :: ls)

/-! ## One tiling a text -/

/-- A lexeme has a first character, and that is no white space. -/
theorem Cut.front {kind : LexemeKind} {w rest : List Char} (h : Cut kind w rest) :
    ∃ c v, w = c :: v ∧ isBlank c = false := by
  cases h with
  | identifier h =>
      obtain ⟨c, v, rfl, hc, -⟩ := h.1
      exact ⟨c, v, rfl, isBlank_eq_false (by decide) hc⟩
  | number h =>
      obtain ⟨c, v, rfl, hc, -⟩ := h.1
      exact ⟨c, v, rfl, isBlank_eq_false (by decide) hc⟩
  | symbol hk =>
      obtain ⟨c, v, rfl⟩ := List.exists_cons_of_length_pos hk.length.1
      exact ⟨c, v, rfl, hk.first.1⟩
  | unrecognized h => exact ⟨_, [], rfl, h.blank⟩
  | string | unterminatedString => exact ⟨'"', _, rfl, rfl⟩
  | char | unclosedChar | charAtEnd | backslashAtEnd | apostropheAtEnd => exact ⟨'\'', _, rfl, rfl⟩

theorem tiles_scanFrom (n : Nat) (cs : List Char) : Tiles n cs (scanFrom n cs) := by
  fun_induction scanFrom n cs with
  | case1 => exact .done
  | case2 n c cs hb ih => exact .blank hb ih
  | case3 n c cs hb ih =>
      have cut := munch_cut (by simpa using hb) cs
      have tiles := Tiles.lexeme (n := n) cut ih
      rwa [(munch_append c cs).1] at tiles

theorem Tiles.eq_scanFrom {n : Nat} {cs : List Char} {ls : List Lexeme} (h : Tiles n cs ls) :
    ls = scanFrom n cs := by
  induction h with
  | done => rw [scanFrom]
  | blank hb _ ih => rw [scanFrom, if_pos hb, ih]
  | @lexeme n kind w rest ls hc _ ih =>
      obtain ⟨c, v, rfl, hb⟩ := hc.front
      have cut : munch c (v ++ rest) = ⟨kind, c :: v, rest⟩ := hc.munch_eq rfl
      rw [List.cons_append, scanFrom, if_neg (by simp [hb]), cut, ih]

/-- The scanner's lexemes tile the text, and no others do. -/
theorem tiles_iff {n : Nat} {cs : List Char} {ls : List Lexeme} :
    Tiles n cs ls ↔ ls = scanFrom n cs :=
  ⟨Tiles.eq_scanFrom, fun h => h ▸ tiles_scanFrom n cs⟩

/-! ## Places -/

/-- The lexeme is the cut behind the text `before`, at the byte at which it says that it starts. -/
structure Lexeme.Located (l : Lexeme) (n : Nat) (cs before after : List Char) : Prop where
  text : cs = before ++ (l.text ++ after)
  start : l.start = n + byteLength before
  cut : Cut l.kind l.text after

theorem Tiles.located {n : Nat} {cs : List Char} {ls : List Lexeme} (h : Tiles n cs ls) :
    ∀ l ∈ ls, ∃ before after, l.Located n cs before after := by
  induction h with
  | done => simp
  | @blank n c cs ls _ _ ih =>
      intro l hl
      obtain ⟨before, after, ht, hs, hc⟩ := ih l hl
      exact ⟨c :: before, after, by rw [ht]; rfl, by rw [hs, byteLength, Nat.add_assoc], hc⟩
  | @lexeme n kind w rest ls hc _ ih =>
      intro l hl
      rcases List.mem_cons.1 hl with rfl | hl
      · exact ⟨[], rest, rfl, rfl, hc⟩
      · obtain ⟨before, after, ht, hs, hc⟩ := ih l hl
        exact ⟨w ++ before, after, by rw [ht, List.append_assoc],
          by rw [hs, byteLength_append, Nat.add_assoc], hc⟩

/-- No lexeme starts before the one in front of it has ended. -/
theorem Tiles.pairwise {n : Nat} {cs : List Char} {ls : List Lexeme} (h : Tiles n cs ls) :
    ls.Pairwise fun l m => l.stop ≤ m.start := by
  induction h with
  | done => exact .nil
  | blank _ _ ih => exact ih
  | lexeme _ h ih =>
      refine .cons (fun m hm => ?_) ih
      obtain ⟨before, after, hl⟩ := h.located m hm
      rw [hl.start]
      exact Nat.le_add_right _ _

/-- What lies outside of all lexemes is white space. -/
theorem Tiles.covers {n : Nat} {cs : List Char} {ls : List Lexeme} (h : Tiles n cs ls)
    {before after : List Char} {c : Char} (hcs : cs = before ++ c :: after) (hb : isBlank c = false) :
    ∃ l ∈ ls, l.start ≤ n + byteLength before ∧ n + byteLength before + c.utf8Size ≤ l.stop := by
  induction h generalizing before with
  | done => simp at hcs
  | @blank n d cs ls hd _ ih =>
      cases before with
      | nil => rw [← (List.cons.inj hcs).1, hd] at hb; cases hb
      | cons e before =>
          obtain ⟨rfl, hcs'⟩ := List.cons.inj hcs
          simpa [byteLength, Nat.add_assoc] using ih hcs'
  | @lexeme n kind w rest ls _ _ ih =>
      rcases List.append_eq_append_iff.1 hcs with ⟨before, rfl, hrest⟩ | ⟨v, rfl, hrest⟩
      · obtain ⟨l, hl, place⟩ := ih hrest
        exact ⟨l, List.mem_cons_of_mem _ hl, by simpa [byteLength_append, Nat.add_assoc] using place⟩
      cases v with
      | nil =>
          have here : rest = [] ++ c :: after := by simpa using hrest.symm
          obtain ⟨l, hl, place⟩ := ih here
          exact ⟨l, List.mem_cons_of_mem _ hl, by simpa [byteLength, Nat.add_assoc] using place⟩
      | cons d v =>
          obtain ⟨rfl, -⟩ := List.cons.inj hrest
          refine ⟨_, List.mem_cons_self, Nat.le_add_right n _, ?_⟩
          simp [Lexeme.stop, byteLength_append, byteLength]
          omega

theorem byteLength_eq (cs : List Char) : byteLength cs = (String.ofList cs).utf8ByteSize := by
  induction cs with
  | nil => rfl
  | cons c cs ih =>
      rw [byteLength, ih, ← String.utf8ByteSize_singleton, ← String.utf8ByteSize_append]
      simp

/-- Behind the front part of a text there is a boundary between characters. -/
theorem isValid_byteLength {source : String} {before after : List Char}
    (h : source.toList = before ++ after) : String.Pos.Raw.IsValid source ⟨byteLength before⟩ := by
  refine String.Pos.Raw.isValid_iff_exists_append.2 ⟨.ofList before, .ofList after, ?_, ?_⟩
  · rw [← String.ofList_append, ← h, String.ofList_toList]
  · rw [byteLength_eq]
    rfl

theorem Cut.byteLength_pos {kind : LexemeKind} {w rest : List Char} (h : Cut kind w rest) :
    0 < byteLength w := by
  obtain ⟨c, v, rfl, -⟩ := h.front
  have := c.utf8Size_pos
  rw [byteLength]
  omega

/-! ## Tokens -/

theorem Cut.kind_ne_endOfFile {kind : LexemeKind} {w rest : List Char} (h : Cut kind w rest)
    (n : Nat) : (Lexeme.token ⟨kind, w, n⟩).kind ≠ .endOfFile := by
  cases h with
  | symbol hk => cases hk <;> simp [Lexeme.token]
  | _ => simp [Lexeme.token]

theorem exists_cut_of_mem_tokens {source : String} {t : Token} (ht : t ∈ tokens source) :
    ∃ (l : Lexeme) (after : List Char), Cut l.kind l.text after ∧ l.token = t := by
  obtain ⟨l, hl, token⟩ := List.mem_map.1 ht
  obtain ⟨before, after, located⟩ := (tiles_scanFrom 0 source.toList).located l hl
  exact ⟨l, after, located.cut, token⟩

theorem tokens_ne_endOfFile (source : String) : ∀ t ∈ tokens source, t.kind ≠ .endOfFile := by
  intro t ht
  obtain ⟨l, after, cut, rfl⟩ := exists_cut_of_mem_tokens ht
  exact cut.kind_ne_endOfFile l.start

theorem stream_skip_iterate (r : Reader) (n : Nat) :
    (Reader.skip^[n] r).stream = r.stream.drop n := by
  induction n generalizing r with
  | zero => rfl
  | succ n ih => rw [Function.iterate_succ_apply, ih, r.stream_skip, Stream'.drop_succ]

/-- A reader hands out its tokens in order, and then the end of the file for ever. -/
theorem get_skip_ofTokens (ts : List Token) (n : Nat) :
    (Reader.skip^[n] (.ofTokens ts)).get.1 = ts[n]?.getD .endOfFile := by
  rw [Reader.get_fst, stream_skip_iterate, Reader.stream_ofTokens]
  induction ts generalizing n with
  | nil => rfl
  | cons t ts ih =>
      cases n with
      | zero => rfl
      | succ n => exact ih n

/-- The end of the file is handed out when no lexeme is left, and not before. -/
theorem get_skip_ofSource_kind (source : String) (n : Nat) :
    (Reader.skip^[n] (.ofSource source)).get.1.kind = .endOfFile ↔ (scan source).length ≤ n := by
  rw [Reader.ofSource, get_skip_ofTokens]
  rcases Nat.lt_or_ge n (scan source).length with h | h
  · have hn : n < (tokens source).length := by simpa [tokens] using h
    have := tokens_ne_endOfFile source _ (List.getElem_mem hn)
    rw [List.getElem?_eq_getElem hn, Option.getD_some]
    exact iff_of_false this (Nat.not_le.2 h)
  · simp [tokens, h, Token.endOfFile]

/-! ## The whole -/

/-- **The lexemes tile the source.**  They are the one way to cut it into white space and lexemes, each
the cut at its place.  Each has its place between two boundaries of characters and is not empty, each
starts where the one in front of it has ended or behind that, what lies outside of them is white space,
and a reader hands out the end of the file when there are no more, and for ever after.  A scanner that keeps
nothing but offsets in bytes finds the same ones. -/
theorem scan_tiles (source : String) :
    (∀ ls, Tiles 0 source.toList ls ↔ ls = scan source) ∧
    (∀ l ∈ scan source, (∃ before after, l.Located 0 source.toList before after) ∧
      String.Pos.Raw.IsValid source ⟨l.start⟩ ∧ String.Pos.Raw.IsValid source ⟨l.stop⟩ ∧
      l.start < l.stop) ∧
    (scan source).Pairwise (fun l m => l.stop ≤ m.start) ∧
    (∀ before c after, source.toList = before ++ c :: after → isBlank c = false →
      ∃ l ∈ scan source, l.start ≤ byteLength before ∧
        byteLength before + c.utf8Size ≤ l.stop) ∧
    (∀ n, (Reader.skip^[n] (.ofSource source)).get.1.kind = .endOfFile ↔
      (scan source).length ≤ n) ∧
    (Cursor.ofSource source).lexemes = some (scan source) := by
  have tiles : Tiles 0 source.toList (scan source) := tiles_scanFrom 0 source.toList
  refine ⟨fun ls => tiles_iff, fun l hl => ?_, tiles.pairwise, ?_, get_skip_ofSource_kind source,
    Cursor.lexemes_eq source⟩
  · obtain ⟨before, after, located⟩ := tiles.located l hl
    have start : l.start = byteLength before := by simpa using located.start
    have stop : l.stop = byteLength (before ++ l.text) := by
      rw [Lexeme.stop, start, byteLength_append]
    have := located.cut.byteLength_pos
    refine ⟨⟨before, after, located⟩, ?_, ?_, ?_⟩
    · rw [start]
      exact isValid_byteLength located.text
    · rw [stop]
      exact isValid_byteLength (by rw [located.text, List.append_assoc])
    · rw [Lexeme.stop]
      omega
  · intro before c after hcs hb
    simpa using tiles.covers hcs hb

end FrontEnd
