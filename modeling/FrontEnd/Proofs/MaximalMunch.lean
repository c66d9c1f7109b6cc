import FrontEnd.Lexeme
import Mathlib.Data.List.TakeWhile

/-!
# What a cut has to be

Which lexeme stands at a place of the source, said without the scanner.

* `Longest` — the longest prefix of its kind.
* `IsRun`, `IsIdentifier`, `IsNumber`, `IsSymbol` — the words of the language: runs of characters, and
  the fixed table of symbols.
* `Unquoted`, `IsContent` — what may stand between the quotes of a string and between the apostrophes of
  a character literal.
* `Cut` — the lexeme at the front of a text, one constructor a rule.
* `munch_eq_iff` — the scanner makes this cut, and no other cut follows the rules.
-/

namespace FrontEnd

/-- `w` is of the kind `P`, and so is no longer prefix of the text `w ++ rest`. -/
def Longest (P : List Char → Prop) (w rest : List Char) : Prop :=
  P w ∧ ∀ v, P v → v <+: w ++ rest → v.length ≤ w.length

/-- A character that may come first and characters that may follow. -/
def IsRun (first next : Char → Bool) (w : List Char) : Prop :=
  ∃ c v, w = c :: v ∧ first c ∧ ∀ d ∈ v, next d

/-- A letter or an underscore, then letters, digits and underscores. -/
def IsIdentifier : List Char → Prop := IsRun isIdentifierStart isIdentifierPart

/-- A digit or more. -/
def IsNumber : List Char → Prop := IsRun Char.isDigit Char.isDigit

/-- An entry of the table of symbols, with its kind. -/
inductive IsSymbol : TokenKind → List Char → Prop
  | mark (m : Mark) : IsSymbol (.mark m) m.text.toList
  | operator (op : BinaryOperator) : IsSymbol (.operator op) op.text.toList

/-- No quote in the text stands without a backslash, and no backslash without what it escapes. -/
inductive Unquoted : List Char → Prop
  | nil : Unquoted []
  | plain {c : Char} {cs : List Char} (hq : c ≠ '"') (hb : c ≠ '\\') (h : Unquoted cs) :
    Unquoted (c :: cs)
  | escape {c : Char} {cs : List Char} (h : Unquoted cs) : Unquoted ('\\' :: c :: cs)

/-- One character, or a backslash with what it escapes. -/
inductive IsContent : List Char → Prop
  | plain {c : Char} (hb : c ≠ '\\') : IsContent [c]
  | escape {c : Char} : IsContent ['\\', c]

structure BeginsNothing (c : Char) : Prop where
  blank : isBlank c = false
  identifier : isIdentifierStart c = false
  number : c.isDigit = false
  string : c ≠ '"'
  char : c ≠ '\''
  symbol : ∀ kind w, IsSymbol kind w → w.head? ≠ some c

/-- The lexeme at the front of a text: its kind, its characters, and what follows it.  An unterminated
string is all that is left of the text.  An unterminated character literal takes the character in the
place of its closing apostrophe too, if there is one. -/
inductive Cut : LexemeKind → List Char → List Char → Prop
  | identifier {w rest : List Char} (h : Longest IsIdentifier w rest) :
    Cut (.token .identifier) w rest
  | number {w rest : List Char} (h : Longest IsNumber w rest) : Cut (.token .number) w rest
  | symbol {kind : TokenKind} {w rest : List Char} (hk : IsSymbol kind w)
    (h : Longest (fun v => ∃ kind, IsSymbol kind v) w rest) : Cut (.token kind) w rest
  | string {body rest : List Char} (h : Unquoted body) :
    Cut (.token .string) ('"' :: body ++ ['"']) rest
  | unterminatedString {cs : List Char} (h : ∀ body after, cs = body ++ '"' :: after → ¬ Unquoted body) :
    Cut (.fault .unterminatedString) ('"' :: cs) []
  | char {content rest : List Char} (h : IsContent content) :
    Cut (.token .char) ('\'' :: content ++ ['\'']) rest
  | unclosedChar {content rest : List Char} {c : Char} (h : IsContent content) (hc : c ≠ '\'') :
    Cut (.fault .unterminatedChar) ('\'' :: content ++ [c]) rest
  | charAtEnd {content : List Char} (h : IsContent content) :
    Cut (.fault .unterminatedChar) ('\'' :: content) []
  | backslashAtEnd : Cut (.fault .unterminatedChar) ['\'', '\\'] []
  | apostropheAtEnd : Cut (.fault .unterminatedChar) ['\''] []
  | unrecognized {c : Char} {rest : List Char} (h : BeginsNothing c) :
    Cut (.fault .unrecognized) [c] rest

/-! ## Longest prefixes -/

section

variable {P : List Char → Prop} {v w rest rest' : List Char}

theorem Longest.unique (hv : Longest P v rest) (hw : Longest P w rest')
    (h : v ++ rest = w ++ rest') : v = w ∧ rest = rest' := by
  have hvw : v.length ≤ w.length := hw.2 v hv.1 (h ▸ List.prefix_append v rest)
  have hwv : w.length ≤ v.length := hv.2 w hw.1 (h ▸ List.prefix_append w rest')
  exact List.append_inj h (Nat.le_antisymm hvw hwv)

variable {first next : Char → Bool}

/-- A run is the longest one where the character behind it does not go on with it. -/
theorem longest_isRun_iff : Longest (IsRun first next) w rest ↔
    IsRun first next w ∧ ∀ d ∈ rest.head?, next d = false := by
  constructor
  · rintro ⟨hw, longest⟩
    refine ⟨hw, fun d hd => ?_⟩
    obtain ⟨c, v, rfl, hc, hv⟩ := hw
    cases rest with
    | nil => cases hd
    | cons e rest =>
        obtain rfl : e = d := Option.some.inj hd
        by_contra hn
        have run : IsRun first next (c :: (v ++ [e])) := by
          refine ⟨c, v ++ [e], rfl, hc, fun x hx => ?_⟩
          rcases List.mem_append.1 hx with hx | hx
          · exact hv x hx
          · rw [List.mem_singleton.1 hx]
            simpa using hn
        have := longest _ run ⟨rest, by simp⟩
        simp only [List.length_cons, List.length_append, List.length_nil] at this
        omega
  · rintro ⟨hw, stop⟩
    refine ⟨hw, ?_⟩
    rintro _ ⟨c, v, rfl, hc, hv⟩ ⟨after, hp⟩
    obtain ⟨c', w', rfl, -, -⟩ := hw
    by_contra hlt
    -- the character behind `w'` would be part of the longer run
    have hlt : w'.length < v.length := by simpa using hlt
    have hp : v ++ after = w' ++ rest := (List.cons.inj hp).2
    have mem : v.get ⟨w'.length, hlt⟩ ∈ rest.head? := by
      have := congrArg (·[w'.length]?) hp
      simp only [List.getElem?_append_left hlt, List.getElem?_append_right (Nat.le_refl _),
        Nat.sub_self, List.getElem?_eq_getElem hlt] at this
      rw [List.head?_eq_getElem?, ← this]
      rfl
    have := stop _ mem
    rw [hv _ (List.get_mem v _)] at this
    cases this

theorem IsRun.ne_nil (h : IsRun first next w) : w ≠ [] := by
  obtain ⟨c, v, rfl, -⟩ := h
  exact List.cons_ne_nil c v

end

/-- What is taken while a property holds is a run, and the longest. -/
theorem longest_takeWhile {first next : Char → Bool} {c : Char} (hc : first c) (cs : List Char) :
    Longest (IsRun first next) (c :: cs.takeWhile next) (cs.dropWhile next) := by
  refine longest_isRun_iff.2 ⟨⟨c, _, rfl, hc, fun d hd => List.mem_takeWhile_imp hd⟩, ?_⟩
  intro d hd
  have := List.head?_dropWhile_not next cs
  rw [hd] at this
  simpa using this

/-- The longest run is what is taken while its property holds. -/
theorem Longest.eq_takeWhile {first next : Char → Bool} {c : Char} {cs w rest : List Char}
    (h : Longest (IsRun first next) w rest) (hcs : w ++ rest = c :: cs) :
    first c ∧ w = c :: cs.takeWhile next ∧ rest = cs.dropWhile next := by
  have hc : first c := by
    obtain ⟨d, v, rfl, hd, -⟩ := h.1
    rwa [← (List.cons.inj hcs).1]
  refine ⟨hc, h.unique (longest_takeWhile hc cs) ?_⟩
  rw [hcs, List.cons_append, List.takeWhile_append_dropWhile]

/-! ## Symbols -/

theorem isSymbol_iff {kind : TokenKind} {w : List Char} :
    IsSymbol kind w ↔ TokenKind.ofSymbol? (String.ofList w) = some kind := by
  constructor
  · rintro (m | op)
    · rw [String.ofList_toList]
      cases m <;> decide
    · rw [String.ofList_toList]
      cases op <;> decide
  · intro h
    unfold TokenKind.ofSymbol? at h
    rcases Option.or_eq_some_iff.1 h with h | ⟨-, h⟩
    · obtain ⟨m, hm, rfl⟩ := Option.map_eq_some_iff.1 h
      have text := List.find?_some hm
      rw [beq_iff_eq] at text
      simpa [text] using IsSymbol.mark m
    · obtain ⟨op, ho, rfl⟩ := Option.map_eq_some_iff.1 h
      have text := List.find?_some ho
      rw [beq_iff_eq] at text
      simpa [text] using IsSymbol.operator op

theorem IsSymbol.unique {kind kind' : TokenKind} {w : List Char} (h : IsSymbol kind w)
    (h' : IsSymbol kind' w) : kind = kind' :=
  Option.some.inj ((isSymbol_iff.1 h).symm.trans (isSymbol_iff.1 h'))

theorem IsSymbol.length {kind : TokenKind} {w : List Char} (h : IsSymbol kind w) :
    1 ≤ w.length ∧ w.length ≤ 3 := by
  rcases h with m | op
  · cases m <;> decide
  · cases op <;> decide

/-- The first character of a symbol begins nothing else, and it is a symbol of its own. -/
theorem IsSymbol.first {kind : TokenKind} {c : Char} {v : List Char} (h : IsSymbol kind (c :: v)) :
    isBlank c = false ∧ isIdentifierStart c = false ∧ c.isDigit = false ∧ c ≠ '"' ∧ c ≠ '\'' ∧
      ∃ kind', IsSymbol kind' [c] := by
  have first : ∀ w, IsSymbol kind w → w.head?.all fun c => !isBlank c && !isIdentifierStart c &&
      !c.isDigit && c != '"' && c != '\'' &&
      (TokenKind.ofSymbol? (String.ofList [c])).isSome := by
    rintro _ (m | op)
    · cases m <;> decide
    · cases op <;> decide
  have here := first _ h
  simp only [List.head?_cons, Option.all_some, Bool.and_eq_true, Bool.not_eq_true',
    bne_iff_ne] at here
  obtain ⟨⟨⟨⟨⟨hb, hi⟩, hd⟩, hs⟩, hc⟩, alone⟩ := here
  obtain ⟨kind', alone⟩ := Option.isSome_iff_exists.1 alone
  exact ⟨hb, hi, hd, hs, hc, kind', isSymbol_iff.2 alone⟩

section

variable {cs : List Char} {n : Nat}

/-- The symbol of the longest length tried is the longest symbol. -/
theorem longest_isSymbol_take {kind : TokenKind}
    (h : TokenKind.ofSymbol? (String.ofList (cs.take n)) = some kind)
    (longer : ∀ k, n < k → k ≤ 3 → TokenKind.ofSymbol? (String.ofList (cs.take k)) = none) :
    Longest (fun v => ∃ kind, IsSymbol kind v) (cs.take n) (cs.drop n) := by
  refine ⟨⟨kind, isSymbol_iff.2 h⟩, ?_⟩
  rintro v ⟨kind', hv⟩ hp
  rw [List.take_append_drop] at hp
  by_contra hlt
  have hn : n < v.length := by
    have := hp.length_le
    rw [List.length_take] at hlt
    omega
  have := longer v.length hn hv.length.2
  rw [← List.prefix_iff_eq_take.1 hp, isSymbol_iff.1 hv] at this
  cases this

/-- The scanner's choice of a symbol is the longest there is. -/
theorem munchSymbol?_longest {m : Munch} (h : munchSymbol? cs = some m) :
    ∃ kind, m.kind = .token kind ∧ IsSymbol kind m.taken ∧
      Longest (fun v => ∃ kind, IsSymbol kind v) m.taken m.rest := by
  obtain ⟨before, n, after, hl, hm, longer⟩ := List.findSome?_eq_some_iff.1 h
  obtain ⟨kind, hk, rfl⟩ := Option.map_eq_some_iff.1 hm
  refine ⟨kind, rfl, isSymbol_iff.2 hk, longest_isSymbol_take hk fun k hk h3 => ?_⟩
  -- the lengths are tried downwards, so the greater ones have been tried before
  have mem : k ∈ before := by
    match before, hl with
    | [], hl => simp at hl; omega
    | [_], hl => simp at hl; simp; omega
    | [_, _], hl => simp at hl; simp; omega
    | _ :: _ :: _ :: _, hl => simp at hl
  simpa using longer k mem

theorem munchSymbol?_isSome {kind : TokenKind} {w : List Char} (h : IsSymbol kind w)
    (hp : w <+: cs) : (munchSymbol? cs).isSome := by
  unfold munchSymbol?
  rw [List.findSome?_isSome_iff]
  refine ⟨w.length, ?_, ?_⟩
  · have := h.length
    simp
    omega
  · simp [← List.prefix_iff_eq_take.1 hp, isSymbol_iff.1 h]

end

/-! ## Literals -/

theorem untilQuote_of_unquoted {body : List Char} (h : Unquoted body) (after : List Char) :
    untilQuote (body ++ '"' :: after) = some (body, after) := by
  induction h with
  | nil => rfl
  | plain hq hb _ ih => simp [untilQuote, hb, ih]
  | escape _ ih => simp [untilQuote, ih]

/-- The scanner goes up to the first quote that is not escaped. -/
theorem untilQuote_eq_some_iff {cs body after : List Char} :
    untilQuote cs = some (body, after) ↔ cs = body ++ '"' :: after ∧ Unquoted body := by
  constructor
  · intro h
    refine ⟨(untilQuote_append h).symm, ?_⟩
    fun_induction untilQuote cs generalizing body after with
    | case1 => cases h
    | case2 rest =>
        obtain ⟨rfl, rfl⟩ := h
        exact .nil
    | case3 c rest body' after' h' ih =>
        obtain ⟨rfl, rfl⟩ := h
        exact .escape (ih h')
    | case4 => cases h
    | case5 c rest hq hb body' after' h' ih =>
        obtain ⟨rfl, rfl⟩ := h
        refine .plain hq (fun hc => ?_) (ih h')
        -- a backslash at the end would have no quote behind it
        cases rest with
        | nil => cases h'
        | cons d rest => exact hb d rest hc rfl
    | case6 => cases h
  · rintro ⟨rfl, h⟩
    exact untilQuote_of_unquoted h after

/-- What is between the apostrophes, unless the text ends too early. -/
theorem charContent_cases (cs : List Char) :
    (∃ content rest, IsContent content ∧ charContent cs = (content, rest)) ∨
      cs = [] ∨ cs = ['\\'] := by
  fun_cases charContent cs with
  | case1 c rest => exact .inl ⟨_, _, .escape, rfl⟩
  | case2 c rest hb =>
      by_cases hc : c = '\\'
      · cases rest with
        | nil => exact .inr (.inr (by rw [hc]))
        | cons d rest => exact absurd rfl (hb d rest hc)
      · exact .inl ⟨_, _, .plain hc, rfl⟩
  | case3 => exact .inr (.inl rfl)

theorem charContent_of_isContent {content : List Char} (h : IsContent content) (rest : List Char) :
    charContent (content ++ rest) = (content, rest) := by
  cases h with
  | plain hb => simp [charContent, hb]
  | escape => rfl

/-! ## The scanner's cut -/

theorem munchString_cut (cs : List Char) :
    Cut (munchString cs).kind (munchString cs).taken (munchString cs).rest := by
  unfold munchString
  cases h : untilQuote cs with
  | none =>
      refine .unterminatedString fun body after hcs hb => ?_
      rw [untilQuote_eq_some_iff.2 ⟨hcs, hb⟩] at h
      cases h
  | some p => exact .string (untilQuote_eq_some_iff.1 h).2

theorem munchChar_cut (cs : List Char) :
    Cut (munchChar cs).kind (munchChar cs).taken (munchChar cs).rest := by
  rcases charContent_cases cs with ⟨content, rest, hc, h⟩ | rfl | rfl
  · unfold munchChar
    rw [h]
    match rest with
    | [] => exact .charAtEnd hc
    | c :: rest =>
        by_cases hq : c = '\''
        · subst hq
          exact .char hc
        · simpa [hq] using Cut.unclosedChar hc hq
  · exact .apostropheAtEnd
  · exact .backslashAtEnd

theorem munch_identifier {c : Char} (hi : isIdentifierStart c) (cs : List Char) :
    munch c cs =
      ⟨.token .identifier, c :: cs.takeWhile isIdentifierPart, cs.dropWhile isIdentifierPart⟩ :=
  if_pos hi

theorem isIdentifierStart_of_isDigit {c : Char} (hd : c.isDigit) : isIdentifierStart c = false := by
  -- the digits stand before the letters and the underscore
  have digit : c.toNat ≤ 57 := (Char.isDigit_iff_toNat.1 hd).2
  by_contra hs
  have start : (decide ('A'.val ≤ c.val ∧ c.val ≤ 'Z'.val) ||
      (decide ('a'.val ≤ c.val) && decide (c.val ≤ 'z'.val)) || c == '_') = true := by
    rw [Bool.not_eq_false] at hs
    exact hs
  simp only [Bool.or_eq_true, Bool.and_eq_true, decide_eq_true_eq, beq_iff_eq] at start
  rcases start with (⟨h, -⟩ | ⟨h, -⟩) | rfl
  · have : 65 ≤ c.toNat := UInt32.le_iff_toNat_le.1 h
    omega
  · have : 97 ≤ c.toNat := UInt32.le_iff_toNat_le.1 h
    omega
  · cases hd

/-- A class of characters without the four blanks has no blank in it. -/
theorem isBlank_eq_false {p : Char → Bool} (hp : [' ', '\t', '\n', '\r'].all fun c => !p c) {c : Char}
    (hc : p c) : isBlank c = false := by
  by_contra hb
  simp only [isBlank, Bool.not_eq_false, Bool.or_eq_true, beq_iff_eq] at hb
  simp only [List.all_cons, List.all_nil, Bool.and_true, Bool.and_eq_true, Bool.not_eq_true'] at hp
  obtain ⟨space, tab, feed, ret⟩ := hp
  rcases hb with ((rfl | rfl) | rfl) | rfl
  · exact absurd hc (by simp [space])
  · exact absurd hc (by simp [tab])
  · exact absurd hc (by simp [feed])
  · exact absurd hc (by simp [ret])

theorem munch_number {c : Char} (hd : c.isDigit) (cs : List Char) :
    munch c cs = ⟨.token .number, c :: cs.takeWhile Char.isDigit, cs.dropWhile Char.isDigit⟩ := by
  rw [munch, if_neg (by simp [isIdentifierStart_of_isDigit hd]), if_pos hd]

theorem munch_quote (cs : List Char) : munch '"' cs = munchString cs := rfl

theorem munch_apostrophe (cs : List Char) : munch '\'' cs = munchChar cs := rfl

theorem munch_symbol {c : Char} (hi : isIdentifierStart c = false) (hd : c.isDigit = false)
    (hs : c ≠ '"') (hc : c ≠ '\'') (cs : List Char) :
    munch c cs = (munchSymbol? (c :: cs)).getD ⟨.fault .unrecognized, [c], cs⟩ := by
  simp [munch, hi, hd, hs, hc]

theorem munch_cut {c : Char} (hb : isBlank c = false) (cs : List Char) :
    Cut (munch c cs).kind (munch c cs).taken (munch c cs).rest := by
  by_cases hi : isIdentifierStart c
  · rw [munch_identifier hi]
    exact .identifier (longest_takeWhile hi cs)
  by_cases hd : c.isDigit
  · rw [munch_number hd]
    exact .number (longest_takeWhile hd cs)
  by_cases hs : c = '"'
  · rw [hs, munch_quote]
    exact munchString_cut cs
  by_cases hc : c = '\''
  · rw [hc, munch_apostrophe]
    exact munchChar_cut cs
  rw [Bool.not_eq_true] at hi hd
  rw [munch_symbol hi hd hs hc]
  cases h : munchSymbol? (c :: cs) with
  | some m =>
      obtain ⟨kind, hk, hw, longest⟩ := munchSymbol?_longest h
      simpa [hk] using Cut.symbol hw longest
  | none =>
      refine .unrecognized ⟨hb, hi, hd, hs, hc, ?_⟩
      rintro kind (_ | ⟨_, v⟩) hw ⟨⟩
      obtain ⟨-, -, -, -, -, kind', alone⟩ := hw.first
      have front : [c] <+: c :: cs := ⟨cs, rfl⟩
      have := munchSymbol?_isSome alone front
      rw [h] at this
      cases this

theorem Cut.munch_eq {kind : LexemeKind} {c : Char} {cs w rest : List Char} (h : Cut kind w rest)
    (hcs : w ++ rest = c :: cs) : munch c cs = ⟨kind, w, rest⟩ := by
  cases h with
  | identifier h =>
      obtain ⟨hc, rfl, rfl⟩ := h.eq_takeWhile hcs
      exact munch_identifier hc cs
  | number h =>
      obtain ⟨hc, rfl, rfl⟩ := h.eq_takeWhile hcs
      exact munch_number hc cs
  | symbol hk h =>
      obtain ⟨v, rfl⟩ : ∃ v, w = c :: v := by
        have := hk.length
        match w, hcs with
        | [], _ => simp at this
        | _ :: v, hcs => exact ⟨v, by rw [(List.cons.inj hcs).1]⟩
      obtain ⟨-, hi, hd, hs, hc, -⟩ := hk.first
      rw [munch_symbol hi hd hs hc]
      obtain ⟨m, hm⟩ := Option.isSome_iff_exists.1 (munchSymbol?_isSome hk ⟨rest, hcs⟩)
      rw [hm, Option.getD_some]
      obtain ⟨kind', hk', hw', longest⟩ := munchSymbol?_longest hm
      obtain ⟨hw, hr⟩ := longest.unique h ((munchSymbol?_append hm).1.trans hcs.symm)
      obtain ⟨_, _, _⟩ := m
      subst hw hr hk'
      rw [hw'.unique hk]
  | string h =>
      obtain ⟨rfl, rfl⟩ := List.cons.inj hcs
      rw [munch_quote, munchString]
      simp [untilQuote_of_unquoted h]
  | unterminatedString h =>
      rw [List.append_nil] at hcs
      obtain ⟨rfl, rfl⟩ := List.cons.inj hcs
      rw [munch_quote, munchString]
      cases hq : untilQuote _ with
      | none => rfl
      | some p => exact absurd (untilQuote_eq_some_iff.1 hq).2 (h _ _ (untilQuote_eq_some_iff.1 hq).1)
  | char h =>
      obtain ⟨rfl, rfl⟩ := List.cons.inj hcs
      rw [munch_apostrophe, munchChar]
      simp [charContent_of_isContent h]
  | unclosedChar h hc =>
      obtain ⟨rfl, rfl⟩ := List.cons.inj hcs
      rw [munch_apostrophe, munchChar]
      simp [charContent_of_isContent h]
  | charAtEnd h =>
      obtain ⟨rfl, rfl⟩ := List.cons.inj hcs
      rw [munch_apostrophe, munchChar]
      simp only [List.append_eq, charContent_of_isContent h]
  | backslashAtEnd =>
      obtain ⟨rfl, rfl⟩ := List.cons.inj hcs
      rfl
  | apostropheAtEnd =>
      obtain ⟨rfl, rfl⟩ := List.cons.inj hcs
      rfl
  | unrecognized h =>
      obtain ⟨rfl, rfl⟩ := List.cons.inj hcs
      rw [munch_symbol h.identifier h.number h.string h.char]
      cases hm : munchSymbol? _ with
      | none => rfl
      | some m =>
          obtain ⟨kind, -, hk, -⟩ := munchSymbol?_longest hm
          obtain ⟨hm, hne⟩ := munchSymbol?_append hm
          obtain ⟨d, v, hv⟩ := List.exists_cons_of_ne_nil hne
          rw [hv] at hm
          exact absurd (by rw [hv, (List.cons.inj hm).1]; rfl) (h.symbol kind _ hk)

/-- **The scanner takes the lexeme that stands at the front of the text, and no other one does.** -/
theorem munch_eq_iff {kind : LexemeKind} {c : Char} {cs w rest : List Char}
    (hb : isBlank c = false) :
    munch c cs = ⟨kind, w, rest⟩ ↔ w ++ rest = c :: cs ∧ Cut kind w rest := by
  constructor
  · intro h
    have cut := munch_cut hb cs
    have hcs := (munch_append c cs).1
    rw [h] at cut hcs
    exact ⟨hcs, cut⟩
  · rintro ⟨hcs, h⟩
    exact h.munch_eq hcs

end FrontEnd
