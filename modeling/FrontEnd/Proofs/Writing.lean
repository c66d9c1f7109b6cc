import FrontEnd.Proofs.Tiling
import FrontEnd.Proofs.Grammar
import FrontEnd.Text.Quoted

/-!
# Texts written for the scanner

Which tokens a written text is scanned into when something else is written behind it.

* `tokenize` — the tokens of a list of characters, wherever it stands.
* `Spells` — a text is read as some tokens if no character follows that would go on with its last word.
* `Closed` — the same whatever follows, and `Separates` — moreover the text ends the word before it.
  `Spells.separated`, `Closed.spells` and `Closed.append` put texts together.
* `spells_name`, `spells_number`, `separates_mark`, `separates_operator`, `closed_quotedString`,
  `closed_quotedChar` — the texts of the single tokens.
* `Escape.Legible` — a character of a literal that is shown as itself or by an escape that the scanner
  resolves.
-/

namespace FrontEnd

/-! ## Tokens of a text -/

/-- The tokens of a list of characters. -/
def tokenize (cs : List Char) : List Token := (scanFrom 0 cs).map Lexeme.token

theorem scanFrom_blank {c : Char} (hb : isBlank c) (n : Nat) (cs : List Char) :
    scanFrom n (c :: cs) = scanFrom (n + c.utf8Size) cs := by
  rw [scanFrom, if_pos hb]

theorem scanFrom_cut {kind : LexemeKind} {w rest : List Char} (h : Cut kind w rest) (n : Nat) :
    scanFrom n (w ++ rest) = ⟨kind, w, n⟩ :: scanFrom (n + byteLength w) rest :=
  (Tiles.lexeme h (tiles_scanFrom _ rest)).eq_scanFrom.symm

/-- Tokens do not know where they stand. -/
theorem map_token_scanFrom (n : Nat) (cs : List Char) :
    (scanFrom n cs).map Lexeme.token = tokenize cs := by
  -- both scans follow one tiling, from different bytes
  have same : ∀ m, (scanFrom n cs).map Lexeme.token = (scanFrom m cs).map Lexeme.token := by
    have tiles := tiles_scanFrom n cs
    generalize scanFrom n cs = ls at tiles
    induction tiles with
    | done => simp [scanFrom]
    | blank hb _ ih =>
        intro m
        rw [ih, scanFrom_blank hb]
    | lexeme hc _ ih =>
        intro m
        rw [scanFrom_cut hc, List.map_cons, List.map_cons, ih]
        rfl
  exact same 0

theorem tokenize_blank {c : Char} (hb : isBlank c) (cs : List Char) :
    tokenize (c :: cs) = tokenize cs := by
  rw [tokenize, scanFrom_blank hb, map_token_scanFrom]

theorem tokenize_cut {kind : LexemeKind} {w rest : List Char} (h : Cut kind w rest) :
    tokenize (w ++ rest) = Lexeme.token ⟨kind, w, 0⟩ :: tokenize rest := by
  rw [tokenize, scanFrom_cut h, List.map_cons, map_token_scanFrom]

/-! ## Texts put together -/

/-- The first character, if there is one, goes on with no word. -/
def Stops (cs : List Char) : Prop := ∀ c ∈ cs.head?, isIdentifierPart c = false

/-- The text is read as the tokens unless its last word goes on behind it. -/
def Spells (text : String) (ts : List Token) : Prop :=
  ∀ rest, Stops rest → tokenize (text.toList ++ rest) = ts ++ tokenize rest

/-- The text is read as the tokens whatever stands behind it. -/
def Closed (text : String) (ts : List Token) : Prop :=
  ∀ rest, tokenize (text.toList ++ rest) = ts ++ tokenize rest

/-- The text is closed and ends a word that stands before it. -/
structure Separates (text : String) (ts : List Token) : Prop where
  closed : Closed text ts
  stops : ∀ rest, Stops (text.toList ++ rest)

section

variable {a b : String} {ts us : List Token}

theorem spells_empty : Spells "" [] := fun _ _ => rfl

theorem Closed.spells (h : Closed a ts) : Spells a ts := fun rest _ => h rest

theorem Closed.append (ha : Closed a ts) (hb : Closed b us) : Closed (a ++ b) (ts ++ us) := by
  intro rest
  rw [String.toList_append, List.append_assoc, ha, hb, List.append_assoc]

/-- A closed text may stand before any other. -/
theorem Closed.spells_append (ha : Closed a ts) (hb : Spells b us) :
    Spells (a ++ b) (ts ++ us) := by
  intro rest hr
  rw [String.toList_append, List.append_assoc, ha, hb rest hr, List.append_assoc]

/-- A separator closes the text before it. -/
theorem Spells.separated (ha : Spells a ts) (hb : Separates b us) : Closed (a ++ b) (ts ++ us) := by
  intro rest
  rw [String.toList_append, List.append_assoc, ha _ (hb.stops rest), hb.closed, List.append_assoc]

/-- A separator goes on with any closed text. -/
theorem Separates.append (ha : Separates a ts) (hb : Closed b us) :
    Separates (a ++ b) (ts ++ us) := by
  refine ⟨ha.closed.append hb, fun rest => ?_⟩
  rw [String.toList_append, List.append_assoc]
  exact ha.stops (b.toList ++ rest)

end

theorem separates_blank {c : Char} (hb : isBlank c) : Separates (String.singleton c) [] := by
  have part : isIdentifierPart c = false := by
    by_contra hp
    rw [Bool.not_eq_false] at hp
    rw [isBlank_eq_false (p := isIdentifierPart) (by decide) hp] at hb
    cases hb
  refine ⟨fun rest => ?_, fun rest d hd => ?_⟩
  · rw [String.toList_singleton]
    exact tokenize_blank hb rest
  · rw [String.toList_singleton] at hd
    obtain rfl : c = d := Option.some.inj hd
    exact part

theorem separates_space : Separates " " [] := separates_blank (c := ' ') rfl

theorem separates_lineFeed : Separates "\n" [] := separates_blank (c := '\n') rfl

/-! ## Words -/

instance (first next : Char → Bool) : DecidablePred (IsRun first next)
  | [] => .isFalse fun h => h.ne_nil rfl
  | c :: v => decidable_of_iff (first c ∧ v.all next)
      ⟨fun ⟨hc, hv⟩ => ⟨c, v, rfl, hc, List.all_eq_true.1 hv⟩,
        fun ⟨_, _, e, hc, hv⟩ => by cases e; exact ⟨hc, List.all_eq_true.2 hv⟩⟩

instance : DecidablePred IsIdentifier := inferInstanceAs (DecidablePred (IsRun _ _))

instance : DecidablePred IsNumber := inferInstanceAs (DecidablePred (IsRun _ _))

theorem spells_name {name : String} (h : IsIdentifier name.toList) :
    Spells name [nameToken name] := by
  intro rest hr
  rw [tokenize_cut (.identifier (longest_isRun_iff.2 ⟨h, hr⟩))]
  simp [Lexeme.token, nameToken]

theorem spells_number {text : String} (h : IsNumber text.toList) :
    Spells text [⟨.number, text⟩] := by
  intro rest hr
  have stop : ∀ d ∈ rest.head?, d.isDigit = false := by
    intro d hd
    have := hr d hd
    simp only [isIdentifierPart, Char.isAlphanum, Bool.or_eq_false_iff] at this
    exact this.1.2
  rw [tokenize_cut (.number (longest_isRun_iff.2 ⟨h, stop⟩))]
  simp [Lexeme.token]

theorem closed_keyword (k : Keyword) : Closed (k.text ++ " ") [nameToken k.text] := by
  have word : IsIdentifier k.text.toList := by cases k <;> decide
  exact (spells_name word).separated separates_space

/-! ## Symbols -/

theorem IsSymbol.noBlank {kind : TokenKind} {w : List Char} (h : IsSymbol kind w) :
    ∀ c ∈ w, isBlank c = false := by
  have all : w.all fun c => !isBlank c := by
    rcases h with m | op
    · cases m <;> decide
    · cases op <;> decide
  simpa using all

/-- The brackets of the language are symbols that no other symbol begins with. -/
theorem IsSymbol.bracket {kind : TokenKind} {c : Char} {v : List Char} (h : IsSymbol kind (c :: v))
    (hc : c ∈ ['(', ')', '\x7b', '\x7d']) : v = [] := by
  have single : ∀ w, IsSymbol kind w →
      w.head?.all fun c => !(['(', ')', '\x7b', '\x7d'].contains c) || w.tail.isEmpty := by
    rintro _ (m | op)
    · cases m <;> decide
    · cases op <;> decide
  have here := single _ h
  rw [List.head?_cons, Option.all_some, List.contains_iff_mem.2 hc] at here
  simpa using here

theorem IsSymbol.stops {kind : TokenKind} {w : List Char} (h : IsSymbol kind w) (rest : List Char) :
    Stops (w ++ rest) := by
  obtain ⟨c, v, rfl⟩ := List.exists_cons_of_length_pos h.length.1
  obtain ⟨-, hi, hd, -⟩ := h.first
  rintro d ⟨⟩
  simp only [isIdentifierStart, Bool.or_eq_false_iff] at hi
  simp [isIdentifierPart, Char.isAlphanum, hi, hd]

/-- A symbol before white space is the longest one there. -/
theorem IsSymbol.longest_blank {kind : TokenKind} {w rest : List Char} {c : Char}
    (h : IsSymbol kind w) (hb : isBlank c) :
    Longest (fun v => ∃ kind, IsSymbol kind v) w (c :: rest) := by
  refine ⟨⟨kind, h⟩, ?_⟩
  rintro v ⟨kind', hv⟩ hp
  by_contra hlt
  have reach : w ++ [c] <+: v :=
    List.prefix_of_prefix_length_le ⟨rest, by simp⟩ hp (by simp; omega)
  rw [hv.noBlank c (reach.subset (by simp))] at hb
  cases hb

theorem IsSymbol.longest_bracket {kind : TokenKind} {c : Char} {rest : List Char}
    (h : IsSymbol kind [c]) (hc : c ∈ ['(', ')', '\x7b', '\x7d']) :
    Longest (fun v => ∃ kind, IsSymbol kind v) [c] rest := by
  refine ⟨⟨kind, h⟩, ?_⟩
  rintro v ⟨kind', hv⟩ hp
  obtain ⟨d, v, rfl⟩ := List.exists_cons_of_length_pos hv.length.1
  obtain ⟨after, hp⟩ := hp
  rw [hv.bracket ((List.cons.inj hp).1 ▸ hc)]
  exact Nat.le_refl 1

theorem separates_symbol {kind : TokenKind} {text : String} (h : IsSymbol kind text.toList)
    (token : Lexeme.token ⟨.token kind, text.toList, 0⟩ = ⟨kind, text⟩) :
    Separates (text ++ " ") [⟨kind, text⟩] := by
  constructor
  · intro rest
    have text_space : (text ++ " ").toList ++ rest = text.toList ++ ' ' :: rest := by simp
    rw [text_space, tokenize_cut (.symbol h (h.longest_blank rfl)), token, tokenize_blank rfl]
    rfl
  · intro rest
    rw [String.toList_append, List.append_assoc]
    exact h.stops _

theorem separates_mark (m : Mark) : Separates (m.text ++ " ") [markToken m] :=
  separates_symbol (.mark m) (by simp [Lexeme.token])

theorem separates_operator (op : BinaryOperator) :
    Separates (op.text ++ " ") [operatorToken op] :=
  separates_symbol (.operator op) (by simp [Lexeme.token])

/-- A bracket needs no space behind it. -/
theorem separates_bracket {m : Mark} {c : Char} (hm : m.text = String.singleton c)
    (hc : c ∈ ['(', ')', '\x7b', '\x7d']) : Separates m.text [markToken m] := by
  have text : m.text.toList = [c] := by rw [hm, String.toList_singleton]
  have symbol : IsSymbol (.mark m) [c] := text ▸ .mark m
  constructor
  · intro rest
    rw [text, tokenize_cut (.symbol symbol (symbol.longest_bracket hc))]
    simp [Lexeme.token, markToken, hm]
  · intro rest
    rw [text]
    exact symbol.stops rest

theorem separates_leftParen : Separates "(" [markToken .leftParen] :=
  separates_bracket (m := .leftParen) (c := '(') rfl (by decide)

theorem separates_rightParen : Separates ")" [markToken .rightParen] :=
  separates_bracket (m := .rightParen) (c := ')') rfl (by decide)

theorem separates_rightBrace : Separates "\x7d" [markToken .rightBrace] :=
  separates_bracket (m := .rightBrace) (c := '\x7d') rfl (by decide)

/-! ## Literals -/

namespace Escape

/-- The character is shown as itself, or behind a backslash in one of the forms that the scanner reads
back. -/
def Legible (quotes : List Char) (escapeCombining : Bool) (c : Char) : Prop :=
  shown quotes escapeCombining c = [c] ∨
    ∃ x ∈ ['t', 'r', 'n', '\\', '"', '\''], shown quotes escapeCombining c = ['\\', x]

instance (quotes : List Char) (escapeCombining : Bool) (c : Char) :
    Decidable (Legible quotes escapeCombining c) :=
  decidable_of_iff (shown quotes escapeCombining c = [c] ∨
      (['t', 'r', 'n', '\\', '"', '\''].any fun x => shown quotes escapeCombining c == ['\\', x]))
    (by rw [List.any_eq_true]; simp only [beq_iff_eq]; rfl)

variable {quotes : List Char} {escapeCombining : Bool} {c : Char}

/-- The three ways in which a character is shown. -/
theorem shown_cases (hq : ∀ q ∈ quotes, meaning q = q) (escapeCombining : Bool) (c : Char) :
    (shown quotes escapeCombining c = [c] ∧ c ≠ '\\' ∧ c ∉ quotes) ∨
      (∃ x, shown quotes escapeCombining c = ['\\', x] ∧ (x = '0' ∨ meaning x = c)) ∨
      shown quotes escapeCombining c = hex c := by
  unfold shown
  split
  · exact .inr (.inl ⟨'0', rfl, .inl rfl⟩)
  split
  · exact .inr (.inl ⟨'t', rfl, .inr (by subst c; rfl)⟩)
  split
  · exact .inr (.inl ⟨'r', rfl, .inr (by subst c; rfl)⟩)
  split
  · exact .inr (.inl ⟨'n', rfl, .inr (by subst c; rfl)⟩)
  split
  · rename_i h
    refine .inr (.inl ⟨c, rfl, .inr ?_⟩)
    rcases h with rfl | h
    · rfl
    · exact hq c h
  · rename_i h
    rw [not_or] at h
    split
    · exact .inr (.inr rfl)
    split
    · exact .inl ⟨rfl, h⟩
    · exact .inr (.inr rfl)

/-- What a legible character is shown as ends no literal and is read as that character. -/
theorem Legible.cases (h : Legible quotes escapeCombining c) (hq : ∀ q ∈ quotes, meaning q = q) :
    (shown quotes escapeCombining c = [c] ∧ c ≠ '\\' ∧ c ∉ quotes) ∨
      ∃ x, shown quotes escapeCombining c = ['\\', x] ∧ meaning x = c := by
  rcases shown_cases hq escapeCombining c with
    h' | ⟨x, h', rfl | hx⟩ | h'
  · exact .inl h'
  · rw [Legible, h'] at h
    simp at h
  · exact .inr ⟨x, h', hx⟩
  · rw [Legible, h'] at h
    simp [hex] at h

end Escape

/-- The characters of a string between its quotes. -/
def stringBody (cs : List Char) : List Char := cs.flatMap (Escape.shown ['"'] true)

theorem stringBody_spec {cs : List Char} (h : ∀ c ∈ cs, Escape.Legible ['"'] true c) :
    Unquoted (stringBody cs) ∧ Escape.decode (stringBody cs) = cs := by
  induction cs with
  | nil => exact ⟨.nil, rfl⟩
  | cons c cs ih =>
      obtain ⟨hc, hcs⟩ := List.forall_mem_cons.1 h
      obtain ⟨unquoted, decode⟩ := ih hcs
      rw [stringBody, List.flatMap_cons]
      rcases hc.cases (by simp [Escape.meaning]) with ⟨shown, hb, hq⟩ | ⟨x, shown, meaning⟩
      · rw [shown]
        refine ⟨.plain (by simpa using hq) hb unquoted, ?_⟩
        rw [List.singleton_append, Escape.decode_plain hb]
        exact congrArg (c :: ·) decode
      · rw [shown]
        refine ⟨.escape unquoted, ?_⟩
        rw [List.cons_append, List.singleton_append, Escape.decode_escape, meaning]
        exact congrArg (c :: ·) decode

theorem literalContent_quoted (q : Char) (body : List Char) :
    literalContent (q :: (body ++ [q])) = Escape.decode body := by
  simp [literalContent]

/-- A string of legible characters is read back. -/
theorem closed_quotedString {text : String}
    (h : ∀ c ∈ text.toList, Escape.Legible ['"'] true c) :
    Closed (quotedString text) [⟨.string, text⟩] := by
  obtain ⟨unquoted, decode⟩ := stringBody_spec h
  intro rest
  rw [quotedString, String.toList_ofList]
  refine (tokenize_cut (.string unquoted)).trans ?_
  simp [Lexeme.token, literalContent_quoted, decode]

theorem closed_quotedChar {text : String} {c : Char} (ht : text.toList = [c])
    (h : Escape.Legible ['"', '\''] true c) : Closed (quotedChar text) [⟨.char, text⟩] := by
  have read : ∀ content, IsContent content → Escape.decode content = [c] →
      charBody text.toList = content → Closed (quotedChar text) [⟨.char, text⟩] := by
    intro content hc decode body rest
    rw [quotedChar, String.toList_ofList, body]
    refine (tokenize_cut (.char hc)).trans ?_
    simp [Lexeme.token, literalContent_quoted, decode, ← String.toList_inj, ht]
  rcases h.cases (by simp [Escape.meaning]) with ⟨shown, hb, -⟩ | ⟨x, shown, meaning⟩
  · exact read [c] (.plain hb) (Escape.decode_plain hb []) (by simp [ht, charBody, shown])
  · refine read ['\\', x] .escape ?_ (by simp [ht, charBody, shown])
    rw [Escape.decode_escape, meaning]
    rfl

end FrontEnd
