import FrontEnd.Proofs.MaximalMunch

/-!
# Scanning by byte offsets

A scanner that works on a buffer keeps no list of characters: it has the source and two offsets into it, in
bytes of UTF-8, and it moves the second one on.  An offset that is not at the boundary of a character is an
error at which such a scanner stops.

* `charsFrom`, `takeBytes` — the text behind an offset and the text of a number of bytes, if there are
  boundaries there.
* `Cursor` — a source with the place of the lexeme found last; `Cursor.bump` makes that longer.
* `Cursor.string`, `Cursor.char`, `Cursor.other` — the lexemes whose length is computed by hand.
* `Cursor.next`, `Cursor.lexemes` — the next lexeme, and all of them.
* `Cursor.place` — the cursor at a lexeme between two texts; `Cursor.lexemes_eq` says that the offsets are
  always at boundaries, and that the lexemes are those of `scan`.
-/

namespace FrontEnd

/-- The text from an offset on. -/
def charsFrom : Nat → List Char → Option (List Char)
  | 0, cs => some cs
  | _ + 1, [] => none
  | n + 1, c :: cs => if c.utf8Size ≤ n + 1 then charsFrom (n + 1 - c.utf8Size) cs else none

/-- The text of so many bytes at the front. -/
def takeBytes : Nat → List Char → Option (List Char)
  | 0, _ => some []
  | _ + 1, [] => none
  | n + 1, c :: cs =>
    if c.utf8Size ≤ n + 1 then (takeBytes (n + 1 - c.utf8Size) cs).map (c :: ·) else none

theorem byteLength_singleton (c : Char) : byteLength [c] = c.utf8Size := Nat.add_zero _

theorem exists_byteLength_cons (c : Char) (cs : List Char) :
    ∃ n, byteLength (c :: cs) = n + 1 ∧ c.utf8Size ≤ n + 1 ∧ n + 1 - c.utf8Size = byteLength cs := by
  have pos := c.utf8Size_pos
  exact ⟨c.utf8Size - 1 + byteLength cs, by rw [byteLength]; omega, by omega, by omega⟩

theorem charsFrom_byteLength (before after : List Char) :
    charsFrom (byteLength before) (before ++ after) = some after := by
  induction before with
  | nil => cases after <;> rfl
  | cons c before ih =>
      obtain ⟨n, size, fits, left⟩ := exists_byteLength_cons c before
      rw [size, List.cons_append, charsFrom, if_pos fits, left, ih]

theorem takeBytes_byteLength (w after : List Char) : takeBytes (byteLength w) (w ++ after) = some w := by
  induction w with
  | nil => cases after <;> rfl
  | cons c w ih =>
      obtain ⟨n, size, fits, left⟩ := exists_byteLength_cons c w
      rw [size, List.cons_append, takeBytes, if_pos fits, left, ih]
      rfl

/-- The text between the delimiters of a literal, which are one byte each. -/
def betweenDelimiters (text : List Char) : Option (List Char) :=
  (charsFrom 1 text).bind (takeBytes (byteLength text - 2))

/-- A literal without its first and its last byte is what stands between its delimiters. -/
theorem Cut.betweenDelimiters_eq {kind : TokenKind} {w rest : List Char} (h : Cut (.token kind) w rest)
    (hk : kind = .string ∨ kind = .char) : betweenDelimiters w = some (w.drop 1).dropLast := by
  have inside : ∀ (c : Char) (body : List Char), c.utf8Size = 1 →
      betweenDelimiters (c :: body ++ [c]) = some ((c :: body ++ [c]).drop 1).dropLast := by
    intro c body hc
    have front := charsFrom_byteLength [c] (body ++ [c])
    have size : byteLength (c :: body ++ [c]) - 2 = byteLength body := by
      rw [byteLength_append]
      simp [byteLength, hc]
    rw [byteLength_singleton, hc] at front
    rw [betweenDelimiters, size, ← List.singleton_append, List.append_assoc, front]
    simp [takeBytes_byteLength]
  cases h with
  | string => exact inside '"' _ rfl
  | char => exact inside '\'' _ rfl
  | identifier | number => simp at hk
  | symbol hs => cases hs <;> simp at hk

/-- A source and the bytes at which a lexeme starts and ends. -/
structure Cursor where
  source : List Char
  start : Nat
  stop : Nat
deriving DecidableEq, Repr

namespace Cursor

def ofSource (source : String) : Cursor := ⟨source.toList, 0, 0⟩

/-- The text behind the lexeme. -/
def remainder (k : Cursor) : Option (List Char) := charsFrom k.stop k.source

def slice (k : Cursor) : Option (List Char) :=
  (charsFrom k.start k.source).bind (takeBytes (k.stop - k.start))

/-- Make the lexeme longer by so many bytes. -/
def bump (k : Cursor) (n : Nat) : Option Cursor :=
  (charsFrom (k.stop + n) k.source).map fun _ => { k with stop := k.stop + n }

/-- The offset of the first quote that is not escaped, counted on from the given one.  The flag says whether
the character in front was a backslash that escapes. -/
def closingQuote (escaped : Bool) (offset : Nat) : List Char → Option Nat
  | [] => none
  | c :: cs =>
    if escaped then closingQuote false (offset + c.utf8Size) cs
    else if c = '\\' then closingQuote true (offset + c.utf8Size) cs
    else if c = '"' then some offset
    else closingQuote false (offset + c.utf8Size) cs

/-- The rest of a string behind its opening quote. -/
def string (k : Cursor) : Option (LexemeKind × Cursor) := do
  let text ← k.remainder
  match closingQuote false 0 text with
  | some offset => return (.token .string, ← k.bump (offset + 1))
  | none => return (.fault .unterminatedString, ← k.bump (byteLength text))

/-- The length of the content of a character literal, and what follows it. -/
def content (c : Char) (cs : List Char) : Nat × List Char :=
  if c = '\\' then
    match cs with
    | escape :: cs => (1 + escape.utf8Size, cs)
    | [] => (1, [])
  else (c.utf8Size, cs)

/-- The rest of a character literal behind its opening apostrophe. -/
def char (k : Cursor) : Option (LexemeKind × Cursor) := do
  match ← k.remainder with
  | [] => return (.fault .unterminatedChar, k)
  | c :: cs =>
    match content c cs with
    | (consumed, '\'' :: _) => return (.token .char, ← k.bump (consumed + 1))
    | (consumed, d :: _) => return (.fault .unterminatedChar, ← k.bump (consumed + d.utf8Size))
    | (consumed, []) => return (.fault .unterminatedChar, ← k.bump consumed)

/-- A character that begins nothing is a lexeme as a whole, however much of it was found. -/
def other (k : Cursor) : Option (LexemeKind × Cursor) := do
  match ← charsFrom k.start k.source with
  | [] => return (.fault .unrecognized, k)
  | c :: _ =>
    if k.start + c.utf8Size > k.stop then
      return (.fault .unrecognized, ← k.bump (k.start + c.utf8Size - k.stop))
    else return (.fault .unrecognized, k)

/-- The lexeme that starts at the cursor, with `c` in front of `cs`. -/
def lexeme (k : Cursor) (c : Char) (cs : List Char) : Option (LexemeKind × Cursor) :=
  let found (n : Nat) : Cursor := { k with stop := k.start + n }
  if isIdentifierStart c then
    some (.token .identifier, found (byteLength (c :: cs.takeWhile isIdentifierPart)))
  else if c.isDigit then some (.token .number, found (byteLength (c :: cs.takeWhile Char.isDigit)))
  else if c = '"' then (found 1).string
  else if c = '\'' then (found 1).char
  else
    match munchSymbol? (c :: cs) with
    | some m => some (m.kind, found (byteLength m.taken))
    | none => (found c.utf8Size).other

/-- The next lexeme behind the last one, if there is one. -/
def next (k : Cursor) : Option (Option LexemeKind × Cursor) := do
  let text ← k.remainder
  let start := k.stop + byteLength (text.takeWhile isBlank)
  let here : Cursor := ⟨k.source, start, start⟩
  match text.dropWhile isBlank with
  | [] => return (none, here)
  | c :: cs =>
    let o ← here.lexeme c cs
    return (some o.1, o.2)

def lexemes (k : Cursor) : Option (List Lexeme) := do
  let o ← k.next
  match o.1 with
  | none => return []
  | some kind =>
    let text ← o.2.slice
    let ls ← o.2 |>.lexemes
    return ⟨kind, text, o.2.start⟩ :: ls
partial_fixpoint

/-! ## Places between characters -/

/-- The cursor at a lexeme with the given text in front of it and behind it. -/
def place (before w after : List Char) : Cursor :=
  ⟨before ++ (w ++ after), byteLength before, byteLength before + byteLength w⟩

variable (before w v after : List Char)

theorem remainder_place : (place before w after).remainder = some after := by
  rw [remainder, place, ← byteLength_append, ← List.append_assoc]
  exact charsFrom_byteLength ..

theorem slice_place : (place before w after).slice = some w := by
  rw [slice, place, charsFrom_byteLength, Nat.add_sub_cancel_left]
  exact takeBytes_byteLength ..

theorem bump_place :
    (place before w (v ++ after)).bump (byteLength v) = some (place before (w ++ v) after) := by
  have whole : before ++ (w ++ (v ++ after)) = (before ++ w ++ v) ++ after := by simp
  have behind := charsFrom_byteLength (before ++ w ++ v) after
  rw [byteLength_append, byteLength_append] at behind
  simp only [bump, place, whole, behind, Option.map_some]
  simp [byteLength_append, Nat.add_assoc]

/-! ## Single lexemes -/

/-- The quote that is found is the one at which the text between the quotes ends. -/
theorem closingQuote_eq (offset : Nat) (cs : List Char) :
    closingQuote false offset cs = (untilQuote cs).map fun p => offset + byteLength p.1 := by
  fun_induction untilQuote cs generalizing offset with
  | case1 => rfl
  | case2 rest => simp [closingQuote, byteLength]
  | case3 c rest body after h ih => simp [closingQuote, ih, h, byteLength, Nat.add_assoc]
  | case4 c rest h ih => simp [closingQuote, ih, h]
  | case5 c rest hq hb body after h ih =>
      have plain : c ≠ '\\' := by
        rintro rfl
        cases rest with
        | nil => cases h
        | cons d rest => exact hb d rest rfl rfl
      simp [closingQuote, plain, mt hq id, ih, h, byteLength, Nat.add_assoc]
  | case6 c rest hq hb h ih =>
      by_cases plain : c = '\\'
      · cases rest with
        | nil => simp [closingQuote, plain]
        | cons d rest => exact (hb d rest plain rfl).elim
      · simp [closingQuote, plain, mt hq id, ih, h]

/-- The bytes counted for a string are those of its characters. -/
theorem string_place (cs : List Char) :
    (place before ['"'] cs).string =
      some ((munchString cs).kind, place before (munchString cs).taken (munchString cs).rest) := by
  rw [string, remainder_place, Option.bind_eq_bind, Option.bind_some, closingQuote_eq, munchString]
  cases h : untilQuote cs with
  | none =>
      have bumped := bump_place before ['"'] cs []
      rw [List.append_nil] at bumped
      simp [bumped]
  | some p =>
      have text := untilQuote_append h
      have bumped := bump_place before ['"'] (p.1 ++ ['"']) p.2
      have quote : byteLength ['"'] = 1 := rfl
      rw [List.append_assoc, List.singleton_append, text, byteLength_append, quote] at bumped
      simp [bumped]

/-- The content of a character literal takes the bytes of its characters. -/
theorem content_eq (c : Char) (cs : List Char) :
    content c cs = (byteLength (charContent (c :: cs)).1, (charContent (c :: cs)).2) := by
  unfold content
  split
  · rename_i hc
    subst hc
    cases cs <;> rfl
  · rename_i hc
    simp [charContent, hc, byteLength]

theorem char_place (cs : List Char) :
    (place before ['\''] cs).char =
      some ((munchChar cs).kind, place before (munchChar cs).taken (munchChar cs).rest) := by
  rw [char, remainder_place, Option.bind_eq_bind, Option.bind_some, munchChar]
  cases cs with
  | nil => rfl
  | cons c cs =>
      have text := charContent_append (c :: cs)
      cases hp : charContent (c :: cs) with
      | mk inner rest =>
          rw [hp] at text
          simp only [content_eq, hp]
          cases rest with
          | nil =>
              have bumped := bump_place before ['\''] inner []
              rw [text] at bumped
              simp [bumped]
          | cons d rest =>
              have bumped := bump_place before ['\''] (inner ++ [d]) rest
              rw [List.append_assoc, List.singleton_append, text, byteLength_append,
                byteLength_singleton] at bumped
              by_cases hd : d = '\''
              · subst hd
                have quote : '\''.utf8Size = 1 := rfl
                rw [quote] at bumped
                simp [bumped]
              · simp [bumped]

/-- However much was found of a character that begins nothing, in the end it is all of it. -/
theorem other_place (c : Char) (cs : List Char) {found : Nat} (h : found ≤ c.utf8Size) :
    (Cursor.mk (before ++ c :: cs) (byteLength before) (byteLength before + found)).other =
      some (.fault .unrecognized, place before [c] cs) := by
  have here := charsFrom_byteLength before (c :: cs)
  have behind := charsFrom_byteLength (before ++ [c]) cs
  rw [byteLength_append, List.append_assoc, List.singleton_append, byteLength_singleton] at behind
  simp only [other, here, Option.bind_eq_bind, Option.bind_some]
  split
  · have missing : byteLength before + found + (byteLength before + c.utf8Size - (byteLength before + found)) =
        byteLength before + c.utf8Size := by omega
    simp [bump, missing, behind, place, byteLength]
  · have all : found = c.utf8Size := by omega
    simp [all, place, byteLength]

theorem lexeme_place (c : Char) (cs : List Char) :
    (place before [] (c :: cs)).lexeme c cs =
      some ((munch c cs).kind, place before (munch c cs).taken (munch c cs).rest) := by
  have found : ∀ taken rest, taken ++ rest = c :: cs →
      { place before [] (c :: cs) with stop := byteLength before + byteLength taken } =
        place before taken rest := fun taken rest same => by simp [place, same]
  have run : ∀ p : Char → Bool, (c :: cs.takeWhile p) ++ cs.dropWhile p = c :: cs :=
    fun p => congrArg (c :: ·) List.takeWhile_append_dropWhile
  unfold lexeme munch
  by_cases hi : isIdentifierStart c
  · simp only [if_pos hi]
    exact congrArg (fun k => some (LexemeKind.token .identifier, k)) (found _ _ (run isIdentifierPart))
  by_cases hd : c.isDigit
  · simp only [if_neg hi, if_pos hd]
    exact congrArg (fun k => some (LexemeKind.token .number, k)) (found _ _ (run Char.isDigit))
  simp only [if_neg hi, if_neg hd]
  by_cases hs : c = '"'
  · subst hs
    exact string_place before cs
  by_cases hc : c = '\''
  · subst hc
    exact char_place before cs
  simp only [if_neg hs, if_neg hc]
  cases h : munchSymbol? (c :: cs) with
  | some m =>
      exact congrArg (fun k => some (m.kind, k)) (found _ _ (munchSymbol?_append h).1)
  | none => exact other_place before c cs (Nat.le_refl _)

/-! ## All lexemes -/

theorem scanFrom_dropWhile (n : Nat) (cs : List Char) :
    scanFrom n cs = scanFrom (n + byteLength (cs.takeWhile isBlank)) (cs.dropWhile isBlank) := by
  induction cs generalizing n with
  | nil => rfl
  | cons c cs ih =>
      by_cases hb : isBlank c
      · rw [scanFrom, if_pos hb, ih]
        simp [hb, byteLength, Nat.add_assoc]
      · simp [hb, byteLength]

/-- The next lexeme behind a place is the one that is cut there behind the white space. -/
theorem next_place {c : Char} {cs : List Char} (h : after.dropWhile isBlank = c :: cs) :
    (place before w after).next = some (some (munch c cs).kind,
      place (before ++ w ++ after.takeWhile isBlank) (munch c cs).taken (munch c cs).rest) := by
  have text : after.takeWhile isBlank ++ c :: cs = after := by
    rw [← h, List.takeWhile_append_dropWhile]
  have here : Cursor.mk (place before w after).source
      ((place before w after).stop + byteLength (after.takeWhile isBlank))
      ((place before w after).stop + byteLength (after.takeWhile isBlank)) =
        place (before ++ w ++ after.takeWhile isBlank) [] (c :: cs) := by
    simp [place, byteLength_append, byteLength, text, Nat.add_assoc]
  rw [next, remainder_place, Option.bind_eq_bind, Option.bind_some, h]
  dsimp only
  rw [here, lexeme_place]
  rfl

theorem next_place_nil (h : after.dropWhile isBlank = []) :
    ∃ k, (place before w after).next = some (none, k) := by
  rw [next, remainder_place, Option.bind_eq_bind, Option.bind_some, h]
  exact ⟨_, rfl⟩

/-- **A scanner by byte offsets finds the same lexemes.**  It stops at no offset, so each of them is at the
boundary of a character. -/
theorem lexemes_place (before w after : List Char) :
    (place before w after).lexemes = some (scanFrom (byteLength (before ++ w)) after) := by
  rw [lexemes, scanFrom_dropWhile, ← byteLength_append]
  cases h : after.dropWhile isBlank with
  | nil =>
      obtain ⟨k, ended⟩ := next_place_nil before w after h
      rw [ended, scanFrom]
      rfl
  | cons c cs =>
      have solid : ¬ isBlank c := by
        have := List.head?_dropWhile_not isBlank after
        simpa [h] using this
      have shorter : (munch c cs).rest.length < after.length := by
        have := length_munch_rest c cs
        have := congrArg List.length h
        have := (List.dropWhile_sublist (l := after) isBlank).length_le
        simp at *
        omega
      have rest := lexemes_place (before ++ w ++ after.takeWhile isBlank) (munch c cs).taken
        (munch c cs).rest
      rw [byteLength_append (before ++ w ++ after.takeWhile isBlank)] at rest
      rw [next_place before w after h, scanFrom, if_neg solid]
      simp only [Option.bind_eq_bind, Option.bind_some, slice_place, rest]
      rfl
termination_by after.length

/-- A scanner by byte offsets goes through a whole source, and never stops at an offset. -/
theorem lexemes_eq (source : String) : (ofSource source).lexemes = some (scan source) :=
  lexemes_place [] [] source.toList

end Cursor

end FrontEnd
