import FrontEnd.Proofs.Spelling
import FrontEnd.Proofs.Writing

/-!
# What literals are read as

The scanner looks for the end of a literal, and the escapes in it are resolved later.  The two agree on
which characters are escaped.

* `Escape.Means`, `Encodes`, `EncodesChar` — how a text may be written between quotes and a character
  between apostrophes: each character as itself or behind a backslash.
* `Escape.Dangling` — a backslash with nothing behind it, at which the decoder would drop something.
* `encodes_iff`, `encodesChar_iff` — what can be written is what the scanner takes, and it is decoded
  to what it was written for.
* `Lexeme.quoted`, `Lexeme.Delimited` — the lexeme of a literal, and what lies between its delimiters.
* `scan_literal` — every way to write a literal is read back, and every literal was written in one.
-/

namespace FrontEnd

namespace Escape

/-- Behind a backslash the first character stands for the second one. -/
inductive Means : Char → Char → Prop
  | lineFeed : Means 'n' '\n'
  | carriageReturn : Means 'r' '\r'
  | tab : Means 't' '\t'
  | itself {c : Char} (hn : c ≠ 'n') (hr : c ≠ 'r') (ht : c ≠ 't') : Means c c

theorem means_iff {x c : Char} : Means x c ↔ meaning x = c := by
  constructor
  · rintro (_ | _ | _ | ⟨hn, hr, ht⟩)
    · rfl
    · rfl
    · rfl
    · unfold meaning
      split <;> first | rfl | contradiction
  · rintro rfl
    unfold meaning
    split
    · exact .lineFeed
    · exact .carriageReturn
    · exact .tab
    · rename_i hn hr ht
      exact .itself hn hr ht

/-- The decoder comes to a backslash with nothing behind it. -/
inductive Dangling : List Char → Prop
  | here : Dangling ['\\']
  | escape {c : Char} {cs : List Char} (h : Dangling cs) : Dangling ('\\' :: c :: cs)
  | plain {c : Char} {cs : List Char} (hb : c ≠ '\\') (h : Dangling cs) : Dangling (c :: cs)

end Escape

/-- The first text may be written between quotes for the second one. -/
inductive Encodes : List Char → List Char → Prop
  | nil : Encodes [] []
  | plain {c : Char} {written text : List Char} (hq : c ≠ '"') (hb : c ≠ '\\')
    (h : Encodes written text) : Encodes (c :: written) (c :: text)
  | escape {x c : Char} {written text : List Char} (hx : Escape.Means x c)
    (h : Encodes written text) : Encodes ('\\' :: x :: written) (c :: text)

/-- The text may be written between apostrophes for the character. -/
inductive EncodesChar : List Char → Char → Prop
  | plain {c : Char} (hb : c ≠ '\\') : EncodesChar [c] c
  | escape {x c : Char} (hx : Escape.Means x c) : EncodesChar ['\\', x] c

/-! ## Written and decoded -/

/-- What is written for a text is what the scanner takes up to the closing quote, and it is decoded to
the text. -/
theorem encodes_iff {written text : List Char} :
    Encodes written text ↔ Unquoted written ∧ Escape.decode written = text := by
  constructor
  · intro h
    induction h with
    | nil => exact ⟨.nil, rfl⟩
    | plain hq hb _ ih =>
        refine ⟨.plain hq hb ih.1, ?_⟩
        rw [Escape.decode_plain hb, ih.2]
    | escape hx _ ih =>
        refine ⟨.escape ih.1, ?_⟩
        rw [Escape.decode_escape, Escape.means_iff.1 hx, ih.2]
  · rintro ⟨h, rfl⟩
    induction h with
    | nil => exact .nil
    | plain hq hb _ ih =>
        rw [Escape.decode_plain hb]
        exact .plain hq hb ih
    | escape _ ih =>
        rw [Escape.decode_escape]
        exact .escape (Escape.means_iff.2 rfl) ih

theorem encodesChar_iff {written : List Char} {c : Char} :
    EncodesChar written c ↔ IsContent written ∧ Escape.decode written = [c] := by
  constructor
  · rintro (hb | hx)
    · exact ⟨.plain hb, Escape.decode_plain hb []⟩
    · refine ⟨.escape, ?_⟩
      rw [Escape.decode_escape, Escape.means_iff.1 hx]
      rfl
  · rintro ⟨h, hc⟩
    cases h with
    | plain hb =>
        rw [Escape.decode_plain hb] at hc
        cases hc
        exact .plain hb
    | escape =>
        rw [Escape.decode_escape] at hc
        exact .escape (Escape.means_iff.2 (List.cons.inj hc).1)

theorem Unquoted.not_dangling {written : List Char} (h : Unquoted written) :
    ¬ Escape.Dangling written := by
  induction h with
  | nil => intro hd; cases hd
  | plain hq hb _ ih =>
      intro hd
      cases hd with
      | here => exact hb rfl
      | escape => exact hb rfl
      | plain _ hd => exact ih hd
  | escape _ ih =>
      intro hd
      cases hd with
      | escape hd => exact ih hd
      | plain hb => exact hb rfl

theorem IsContent.not_dangling {written : List Char} (h : IsContent written) :
    ¬ Escape.Dangling written := by
  intro hd
  cases h with
  | plain hb =>
      cases hd with
      | here => exact hb rfl
      | plain _ hd => cases hd
  | escape =>
      cases hd with
      | escape hd => cases hd
      | plain hb => exact hb rfl

/-! ## Literals -/

/-- The lexeme of a literal at the byte `n`: its content between two equal delimiters. -/
def Lexeme.quoted (kind : TokenKind) (delimiter : Char) (written : List Char) (n : Nat) : Lexeme :=
  ⟨.token kind, delimiter :: (written ++ [delimiter]), n⟩

/-- Without its first and its last byte the text of the lexeme is `written`.  These bytes are characters
of their own, and they are two. -/
structure Lexeme.Delimited (l : Lexeme) (written : List Char) : Prop where
  range : 1 ≤ byteLength l.text - 1
  first : String.Pos.Raw.IsValid (.ofList l.text) ⟨1⟩
  last : String.Pos.Raw.IsValid (.ofList l.text) ⟨byteLength l.text - 1⟩
  content : (l.text.drop 1).dropLast = written

theorem Lexeme.delimited_quoted (kind : TokenKind) {delimiter : Char} (hd : delimiter.utf8Size = 1)
    (written : List Char) (n : Nat) : (Lexeme.quoted kind delimiter written n).Delimited written := by
  have length : byteLength (delimiter :: (written ++ [delimiter])) - 1 =
      byteLength (delimiter :: written) := by
    simp only [byteLength, byteLength_append, hd]
    omega
  refine ⟨?_, ?_, ?_, ?_⟩
  · show 1 ≤ byteLength (delimiter :: (written ++ [delimiter])) - 1
    rw [length, byteLength, hd]
    exact Nat.le_add_right 1 _
  · have front : (String.ofList (delimiter :: (written ++ [delimiter]))).toList =
        [delimiter] ++ (written ++ [delimiter]) := String.toList_ofList
    have one : byteLength [delimiter] = 1 := by simp [byteLength, hd]
    have valid := isValid_byteLength front
    rw [one] at valid
    exact valid
  · have back : (String.ofList (delimiter :: (written ++ [delimiter]))).toList =
        (delimiter :: written) ++ [delimiter] := String.toList_ofList
    show String.Pos.Raw.IsValid _ ⟨byteLength (delimiter :: (written ++ [delimiter])) - 1⟩
    rw [length]
    exact isValid_byteLength back
  · simp [Lexeme.quoted]

/-- The token of a literal has the decoded content as its text. -/
theorem Lexeme.token_quoted {kind : TokenKind} (hk : kind = .string ∨ kind = .char)
    (delimiter : Char) (written : List Char) (n : Nat) :
    (Lexeme.quoted kind delimiter written n).token = ⟨kind, .ofList (Escape.decode written)⟩ := by
  rcases hk with rfl | rfl <;> simp [Lexeme.quoted, Lexeme.token, literalContent_quoted]

/-- Of all cuts only a string gives a string token. -/
theorem Cut.eq_of_string {kind : LexemeKind} {w rest : List Char} {n : Nat} (h : Cut kind w rest)
    (hk : (Lexeme.token ⟨kind, w, n⟩).kind = .string) :
    ∃ body, Unquoted body ∧ (⟨kind, w, n⟩ : Lexeme) = .quoted .string '"' body n := by
  cases h with
  | string hb => exact ⟨_, hb, rfl⟩
  | symbol hs => cases hs <;> simp [Lexeme.token] at hk
  | _ => simp [Lexeme.token] at hk

theorem Cut.eq_of_char {kind : LexemeKind} {w rest : List Char} {n : Nat} (h : Cut kind w rest)
    (hk : (Lexeme.token ⟨kind, w, n⟩).kind = .char) :
    ∃ content, IsContent content ∧ (⟨kind, w, n⟩ : Lexeme) = .quoted .char '\'' content n := by
  cases h with
  | char hc => exact ⟨_, hc, rfl⟩
  | symbol hs => cases hs <;> simp [Lexeme.token] at hk
  | _ => simp [Lexeme.token] at hk

/-- A cut with its delimiters is the next lexeme. -/
theorem scanFrom_quoted {kind : TokenKind} {delimiter : Char} {written : List Char}
    (h : ∀ rest, Cut (.token kind) (delimiter :: written ++ [delimiter]) rest) (n : Nat)
    (following : List Char) :
    scanFrom n (delimiter :: (written ++ delimiter :: following)) =
      .quoted kind delimiter written n ::
        scanFrom (Lexeme.quoted kind delimiter written n).stop following := by
  have cut := scanFrom_cut (h following) n
  simpa [Lexeme.quoted, Lexeme.stop] using cut

/-- **Literals are read as what they were written for.**  However a text is written between quotes, or a
character between apostrophes, it is one token with that text, whatever follows, and the scan goes on
behind it.  And every string or character token of a source was written so: its lexeme has two
delimiters, and no backslash between them has nothing behind it. -/
theorem scan_literal :
    (∀ written text, Encodes written text → ∀ n following,
      scanFrom n ('"' :: (written ++ '"' :: following)) =
          .quoted .string '"' written n ::
            scanFrom (Lexeme.quoted .string '"' written n).stop following ∧
        (Lexeme.quoted .string '"' written n).token = ⟨.string, .ofList text⟩) ∧
    (∀ written c, EncodesChar written c → ∀ n following,
      scanFrom n ('\'' :: (written ++ '\'' :: following)) =
          .quoted .char '\'' written n ::
            scanFrom (Lexeme.quoted .char '\'' written n).stop following ∧
        (Lexeme.quoted .char '\'' written n).token = ⟨.char, .singleton c⟩) ∧
    (∀ source, ∀ l ∈ scan source,
      (l.token.kind = .string → ∃ written text, Encodes written text ∧
        l = .quoted .string '"' written l.start ∧ l.token = ⟨.string, .ofList text⟩ ∧
        l.Delimited written ∧ ¬ Escape.Dangling written) ∧
      (l.token.kind = .char → ∃ written c, EncodesChar written c ∧
        l = .quoted .char '\'' written l.start ∧ l.token = ⟨.char, .singleton c⟩ ∧
        l.Delimited written ∧ ¬ Escape.Dangling written)) := by
  refine ⟨fun written text h n following => ?_, fun written c h n following => ?_,
    fun source l hl => ?_⟩
  · obtain ⟨unquoted, decoded⟩ := encodes_iff.1 h
    refine ⟨scanFrom_quoted (fun _ => .string unquoted) n following, ?_⟩
    rw [Lexeme.token_quoted (.inl rfl), decoded]
  · obtain ⟨content, decoded⟩ := encodesChar_iff.1 h
    refine ⟨scanFrom_quoted (fun _ => .char content) n following, ?_⟩
    rw [Lexeme.token_quoted (.inr rfl), decoded, String.singleton_eq_ofList]
  · obtain ⟨before, after, located⟩ := (tiles_scanFrom 0 source.toList).located l hl
    refine ⟨fun hk => ?_, fun hk => ?_⟩
    · obtain ⟨body, hb, shape⟩ := located.cut.eq_of_string hk
      have token := Lexeme.token_quoted (.inl rfl) '"' body l.start
      rw [← shape] at token
      refine ⟨body, _, encodes_iff.2 ⟨hb, rfl⟩, shape, token, ?_, hb.not_dangling⟩
      have delimited := Lexeme.delimited_quoted .string (show '"'.utf8Size = 1 from rfl) body l.start
      rwa [← shape] at delimited
    · obtain ⟨content, hc, shape⟩ := located.cut.eq_of_char hk
      obtain ⟨c, decoded⟩ := hc.decode
      have token := Lexeme.token_quoted (.inr rfl) '\'' content l.start
      rw [← shape, decoded, ← String.singleton_eq_ofList] at token
      refine ⟨content, c, encodesChar_iff.2 ⟨hc, decoded⟩, shape, token, ?_, hc.not_dangling⟩
      have delimited := Lexeme.delimited_quoted .char (show '\''.utf8Size = 1 from rfl) content l.start
      rwa [← shape] at delimited

end FrontEnd
