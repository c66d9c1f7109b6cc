import FrontEnd.Proofs.Writing
import Mathlib.Data.List.Infix

/-!
# What decides where a lexeme ends

Of the text behind a lexeme only the first character has a say in where the lexeme ends.

* `IsSymbol.of_append` — what a symbol begins with is a symbol, so a symbol grows character by
  character.
* `Resumes` — a text that may stand in the place of another one behind a lexeme: it begins with the same
  character or with white space, or it is empty.
* `Unfinished` — the faults that end with the source.
* `Cut.resume` — every other lexeme stays the same in front of such a text.
* `Cut.eq_of_mark` — only the symbol of a mark is read as that mark; so a closing brace stays the same
  in front of every text, `Cut.before_any`.
-/

namespace FrontEnd

theorem IsSymbol.of_append {kind : TokenKind} {u v : List Char} (h : IsSymbol kind (u ++ v))
    (hu : u ≠ []) : ∃ kind', IsSymbol kind' u := by
  have inits : ∀ w, IsSymbol kind w → w.inits.all fun u =>
      u.isEmpty || (TokenKind.ofSymbol? (String.ofList u)).isSome := by
    rintro _ (m | op)
    · cases m <;> decide
    · cases op <;> decide
  have here := List.all_eq_true.1 (inits _ h) u ((List.mem_inits _ _).2 ⟨v, rfl⟩)
  simp only [Bool.or_eq_true, List.isEmpty_iff, hu, false_or] at here
  obtain ⟨kind', hk⟩ := Option.isSome_iff_exists.1 here
  exact ⟨kind', isSymbol_iff.2 hk⟩

/-- A fault that is a fault because the source ends there. -/
inductive Unfinished : LexemeKind → List Char → Prop
  | string {cs : List Char} (h : ∀ body after, cs = body ++ '"' :: after → ¬ Unquoted body) :
    Unfinished (.fault .unterminatedString) ('"' :: cs)
  | char {content : List Char} (h : IsContent content) :
    Unfinished (.fault .unterminatedChar) ('\'' :: content)
  | backslash : Unfinished (.fault .unterminatedChar) ['\'', '\\']
  | apostrophe : Unfinished (.fault .unterminatedChar) ['\'']

/-- The text `rest'` begins as `rest` does or with white space, or it is empty. -/
def Resumes (rest rest' : List Char) : Prop :=
  ∀ c ∈ rest'.head?, isBlank c = true ∨ c ∈ rest.head?

theorem Resumes.append {rest : List Char} (h : rest ≠ []) (more : List Char) :
    Resumes rest (rest ++ more) := by
  intro c hc
  obtain ⟨d, rest, rfl⟩ := List.exists_cons_of_ne_nil h
  exact .inr hc

/-- White space ends every lexeme. -/
theorem Resumes.of_blank {rest gap : List Char} (h : ∀ c ∈ gap, isBlank c = true) :
    Resumes rest gap :=
  fun c hc => .inl (h c (List.mem_of_mem_head? hc))

section

variable {w rest rest' : List Char}

/-- A run of characters that are no white space ends where it ended before. -/
theorem Longest.resume_run {first next : Char → Bool} (h : Longest (IsRun first next) w rest)
    (hn : [' ', '\t', '\n', '\r'].all fun c => !next c) (hr : Resumes rest rest') :
    Longest (IsRun first next) w rest' := by
  obtain ⟨run, stop⟩ := longest_isRun_iff.1 h
  refine longest_isRun_iff.2 ⟨run, fun d hd => ?_⟩
  rcases hr d hd with hb | hd
  · by_contra hnext
    rw [Bool.not_eq_false] at hnext
    rw [isBlank_eq_false hn hnext] at hb
    cases hb
  · exact stop d hd

/-- A symbol that could be longer could be longer by one character. -/
theorem Longest.resume_symbol (h : Longest (fun v => ∃ kind, IsSymbol kind v) w rest)
    (hr : Resumes rest rest') : Longest (fun v => ∃ kind, IsSymbol kind v) w rest' := by
  refine ⟨h.1, ?_⟩
  rintro v ⟨kind, hv⟩ hp
  by_contra hlt
  rw [Nat.not_le] at hlt
  obtain ⟨u, rfl⟩ := List.prefix_of_prefix_length_le (List.prefix_append w rest') hp hlt.le
  cases u with
  | nil => simp at hlt
  | cons d u =>
      have hd : d ∈ rest'.head? := by
        obtain ⟨after, hp⟩ := hp
        rw [List.append_assoc, List.append_cancel_left_eq] at hp
        rw [← hp]
        rfl
      rcases hr d hd with hb | hd
      · rw [hv.noBlank d (by simp)] at hb
        cases hb
      · -- the symbol up to `d` stands in the old text already
        obtain ⟨after, rfl⟩ : ∃ after, rest = d :: after := List.head?_eq_some_iff.1 hd
        have longer : ∃ kind', IsSymbol kind' (w ++ [d]) :=
          IsSymbol.of_append (v := u) (by simpa using hv) (by simp)
        have := h.2 (w ++ [d]) longer ⟨after, by simp⟩
        rw [List.length_append, List.length_singleton] at this
        omega

/-- **A lexeme stays the same** in front of a text that begins with the same character or with white
space.  Only the faults that end with the source do not. -/
theorem Cut.resume {kind : LexemeKind} (h : Cut kind w rest) (hr : Resumes rest rest') :
    Cut kind w rest' ∨ rest = [] ∧ Unfinished kind w := by
  cases h with
  | identifier h => exact .inl (.identifier (h.resume_run (by decide) hr))
  | number h => exact .inl (.number (h.resume_run (by decide) hr))
  | symbol hk h => exact .inl (.symbol hk (h.resume_symbol hr))
  | string h => exact .inl (.string h)
  | char h => exact .inl (.char h)
  | unclosedChar h hc => exact .inl (.unclosedChar h hc)
  | unrecognized h => exact .inl (.unrecognized h)
  | unterminatedString h => exact .inr ⟨rfl, .string h⟩
  | charAtEnd h => exact .inr ⟨rfl, .char h⟩
  | backslashAtEnd => exact .inr ⟨rfl, .backslash⟩
  | apostropheAtEnd => exact .inr ⟨rfl, .apostrophe⟩

/-- A lexeme with something behind it is finished. -/
theorem Cut.resume_of_ne_nil {kind : LexemeKind} (h : Cut kind w rest) (hne : rest ≠ [])
    (hr : Resumes rest rest') : Cut kind w rest' :=
  (h.resume hr).resolve_right fun e => hne e.1

/-- Only the symbol of a mark is read as that mark. -/
theorem Cut.eq_of_mark {kind : LexemeKind} {n : Nat} {m : Mark} (h : Cut kind w rest)
    (hm : (Lexeme.token ⟨kind, w, n⟩).kind = .mark m) :
    kind = .token (.mark m) ∧ w = m.text.toList := by
  cases h with
  | symbol hk =>
      cases hk with
      | mark m' =>
          obtain rfl : m' = m := by simpa [Lexeme.token] using hm
          exact ⟨rfl, rfl⟩
      | operator op => simp [Lexeme.token] at hm
  | _ => simp [Lexeme.token] at hm

/-- A closing brace ends where it ends, whatever is behind it. -/
theorem Cut.before_any {kind : LexemeKind} {n : Nat} (h : Cut kind w rest)
    (hm : (Lexeme.token ⟨kind, w, n⟩).kind = .mark .rightBrace) : Cut kind w rest' := by
  obtain ⟨rfl, rfl⟩ := h.eq_of_mark hm
  have brace : IsSymbol (.mark .rightBrace) ['\x7d'] := .mark .rightBrace
  exact .symbol brace (brace.longest_bracket (by decide))

end

end FrontEnd
