import FrontEnd.Compilation
import FrontEnd.Proofs.EarliestError
import FrontEnd.Proofs.Writing

/-!
# The lines of a diagnostic

A syntax error is written as its message and a line feed.  The message quotes the text of the token that
was found, so a literal with a line feed in it breaks the diagnostic into several lines.

* `lineFeeds` — how many line feeds the bytes of a text hold; `lineFeeds_utf8Bytes` counts them by
  characters.
* `Cut.unbroken` — of all tokens only literals have a line feed in their text.
* `Mismatch.lineFeeds_line` — the line feeds of a diagnostic are those of the token and the one behind
  the message.
* `parseProgram_diagnostic` — what a failed parse has written.
-/

namespace FrontEnd

/-! ## Line feeds in UTF-8 -/

def lineFeed : UInt8 := 10

def lineFeeds (bytes : List UInt8) : Nat := bytes.count lineFeed

theorem ofNat_eq_lineFeed_iff {v : Nat} (h : v < 256) : UInt8.ofNat v = lineFeed ↔ v = 10 := by
  rw [← UInt8.toNat_inj, UInt8.toNat_ofNat', Nat.mod_eq_of_lt h]
  rfl

/-- The bytes that encode a character outside of ASCII are none of them line feeds. -/
theorem lineFeeds_ofNat (vs : List Nat) (h : ∀ v ∈ vs, 128 ≤ v ∧ v < 256) :
    lineFeeds (vs.map UInt8.ofNat) = 0 := by
  refine List.count_eq_zero.2 fun hmem => ?_
  obtain ⟨v, hv, he⟩ := List.mem_map.1 hmem
  have := (ofNat_eq_lineFeed_iff (h v hv).2).1 he
  have := (h v hv).1
  omega

/-- In UTF-8 the byte of a line feed stands for nothing else. -/
theorem lineFeeds_utf8EncodeChar (c : Char) :
    lineFeeds (String.utf8EncodeChar c) = if c = '\n' then 1 else 0 := by
  have code : c = '\n' ↔ c.val.toNat = 10 := by
    rw [← Char.val_inj, ← UInt32.toNat_inj]
    rfl
  unfold String.utf8EncodeChar
  dsimp only
  rw [if_congr code rfl rfl]
  generalize c.val.toNat = v
  by_cases h : v ≤ 127
  · rw [if_pos h]
    show List.count lineFeed [UInt8.ofNat v] = _
    have byte := ofNat_eq_lineFeed_iff (v := v) (by omega)
    by_cases hv : v = 10
    · rw [byte.2 hv, hv]
      rfl
    · simp [hv, mt byte.1 hv]
  rw [if_neg h, if_neg (by omega : ¬ v = 10)]
  split
  · exact lineFeeds_ofNat [v / 64 % 32 + 192, v % 64 + 128] (by simp; omega)
  split
  · exact lineFeeds_ofNat [v / 4096 % 16 + 224, v / 64 % 64 + 128, v % 64 + 128] (by simp; omega)
  · exact lineFeeds_ofNat
      [v / 262144 % 8 + 240, v / 4096 % 64 + 128, v / 64 % 64 + 128, v % 64 + 128] (by simp; omega)

theorem utf8Bytes_eq (text : String) : utf8Bytes text = text.toList.flatMap String.utf8EncodeChar := by
  obtain ⟨cs, rfl⟩ : ∃ cs, text = String.ofList cs := ⟨text.toList, String.ofList_toList.symm⟩
  unfold utf8Bytes
  rw [String.toUTF8_eq_toByteArray, String.toByteArray_ofList, String.toList_ofList]
  simp [List.utf8Encode]

theorem lineFeeds_utf8Bytes (text : String) : lineFeeds (utf8Bytes text) = text.toList.count '\n' := by
  rw [utf8Bytes_eq]
  induction text.toList with
  | nil => rfl
  | cons c cs ih =>
      rw [List.flatMap_cons]
      show List.count lineFeed (_ ++ _) = _
      have first : List.count lineFeed (String.utf8EncodeChar c) = _ := lineFeeds_utf8EncodeChar c
      have rest : List.count lineFeed (cs.flatMap _) = _ := ih
      rw [List.count_append, first, rest, List.count_cons, Nat.add_comm]
      simp

/-! ## Tokens -/

theorem lineFeed_not_mem {cs : List Char} (h : ∀ c ∈ cs, isBlank c = false) : '\n' ∉ cs :=
  fun hmem => nomatch h _ hmem

theorem IsRun.noBlank {first next : Char → Bool} {w : List Char} (h : IsRun first next w)
    (hf : [' ', '\t', '\n', '\r'].all fun c => !first c)
    (hn : [' ', '\t', '\n', '\r'].all fun c => !next c) : ∀ c ∈ w, isBlank c = false := by
  obtain ⟨c, v, rfl, hc, hv⟩ := h
  exact List.forall_mem_cons.2 ⟨isBlank_eq_false hf hc, fun d hd => isBlank_eq_false hn (hv d hd)⟩

theorem IsIdentifier.unbroken {w : List Char} (h : IsIdentifier w) : '\n' ∉ w :=
  lineFeed_not_mem (h.noBlank (by decide) (by decide))

/-- **Of all tokens only literals have a line feed in their text.** -/
theorem Cut.unbroken {kind : LexemeKind} {w rest : List Char} (h : Cut kind w rest) (n : Nat)
    (hs : kind ≠ .token .string) (hc : kind ≠ .token .char) :
    '\n' ∉ (Lexeme.token ⟨kind, w, n⟩).text.toList := by
  cases h with
  | identifier h => simpa [Lexeme.token] using IsIdentifier.unbroken h.1
  | number h =>
      simpa [Lexeme.token] using lineFeed_not_mem (h.1.noBlank (by decide) (by decide))
  | symbol hk =>
      have unbroken := lineFeed_not_mem hk.noBlank
      cases hk <;> simpa [Lexeme.token] using unbroken
  | string => exact absurd rfl hs
  | char => exact absurd rfl hc
  | unrecognized h =>
      simpa [Lexeme.token] using lineFeed_not_mem (List.forall_mem_singleton.2 h.blank)
  | unterminatedString => exact (by decide : '\n' ∉ LexFault.unterminatedString.message.toList)
  | _ => exact (by decide : '\n' ∉ LexFault.unterminatedChar.message.toList)

/-- A token of a source whose text has a line feed is a literal. -/
theorem literal_of_lineFeed {source : String} {t : Token} (ht : t ∈ allTokens source)
    (hl : '\n' ∈ t.text.toList) : t.kind = .string ∨ t.kind = .char := by
  rcases List.mem_append.1 ht with ht | ht
  · obtain ⟨⟨kind, w, n⟩, after, cut, rfl⟩ := exists_cut_of_mem_tokens ht
    by_cases hs : kind = .token .string
    · exact Or.inl (by simp [Lexeme.token, hs])
    by_cases hc : kind = .token .char
    · exact Or.inr (by simp [Lexeme.token, hc])
    exact absurd hl (cut.unbroken n hs hc)
  · rw [List.mem_singleton.1 ht] at hl
    cases hl

/-! ## Diagnostics -/

theorem Expectation.unbroken (e : Expectation) : e.text.toList.count '\n' = 0 := by
  rcases e with _ | _ | _ | _ | _ | _ | _ | _ | _ | m
  case mark => cases m <;> decide
  all_goals decide

theorem TokenKind.unbroken (k : TokenKind) : k.name.toList.count '\n' = 0 := by
  have all : ∀ k ∈ TokenKind.all, k.name.toList.count '\n' = 0 := by decide +kernel
  exact all k k.mem_all

/-- **A diagnostic has the line feeds of the token that was found, and one at its end.** -/
theorem Mismatch.lineFeeds_line (e : Mismatch) :
    lineFeeds (utf8Bytes e.line) = e.found.text.toList.count '\n' + 1 := by
  rw [lineFeeds_utf8Bytes]
  unfold line message sentence Token.display
  simp only [String.toList_append, List.count_append, e.expected.unbroken, e.found.kind.unbroken]
  have around : "Expected ".toList.count '\n' = 0 ∧ ", got ".toList.count '\n' = 0 ∧
      "Token\x7b type: ".toList.count '\n' = 0 ∧ ", value: ".toList.count '\n' = 0 ∧
      " \x7d".toList.count '\n' = 0 ∧ "\n".toList.count '\n' = 1 := by decide
  omega

theorem Mismatch.getLast?_line (e : Mismatch) : (utf8Bytes e.line).getLast? = some lineFeed := by
  unfold line
  rw [utf8Bytes_eq, String.toList_append, List.flatMap_append]
  exact List.getLast?_concat

/-- A compilation fails just as the parse does, with the same diagnostics. -/
theorem compile_of_failed {source : String} {sink : Sink} {e : ParseFailure}
    (h : (parseProgram source sink).1 = .error e) :
    (compile source sink).result = .error e ∧
      (compile source sink).sink = (parseProgram source sink).2.sink := by
  unfold compile
  split <;> rename_i hp <;> rw [hp] at h <;> cases h
  exact ⟨rfl, by rw [hp]⟩

/-- **A syntax error is written as one message, and a line feed at its end.**  It holds no other line feed
but those of the token that it names, which has some only if it is a string or a character literal.  A
compilation writes the same. -/
theorem parseProgram_diagnostic {source : String} {limit : Option Nat} {e : Mismatch}
    (h : (parseProgram source (.empty limit)).1 = .error (.unexpected e)) :
    let written := (parseProgram source (.empty limit)).2.sink.kept
    written = utf8Bytes e.line ∧ written.getLast? = some lineFeed ∧
    lineFeeds written = e.found.text.toList.count '\n' + 1 ∧
    (lineFeeds written = 1 ∨ e.found.kind = .string ∨ e.found.kind = .char) ∧
    (compile source (.empty limit)).result = .error (.unexpected e) ∧
    (compile source (.empty limit)).sink.kept = written := by
  intro written
  have kept : written = utf8Bytes e.line ∧ e.found ∈ allTokens source := by
    cases hp : Parse.program (.ofSource source) with
    | done p r =>
        rw [parseProgram_of_done hp] at h
        cases h
    | refused found r =>
        obtain ⟨k, first, -⟩ := program_refused hp
        simp only [written]
        rw [parseProgram_of_refused hp] at h ⊢
        split at h
        · rename_i fits
          cases h
          rw [if_pos fits]
          exact ⟨Sink.kept_write_of_accepts fits, List.mem_of_getElem? first.token⟩
        · cases h
  obtain ⟨text, token⟩ := kept
  obtain ⟨failed, same⟩ := compile_of_failed h
  refine ⟨text, ?_, ?_, ?_, failed, by rw [same]⟩
  · rw [text]
    exact e.getLast?_line
  · rw [text]
    exact e.lineFeeds_line
  · rw [text, e.lineFeeds_line]
    by_cases hl : '\n' ∈ e.found.text.toList
    · exact Or.inr (literal_of_lineFeed token hl)
    · exact Or.inl (by rw [List.count_eq_zero.2 hl])

/-- A string with an escaped line feed stands where a declaration should: the diagnostic takes two
lines. -/
theorem parseProgram_diagnostic_brokenString :
    let source := "\"a\\nb\""
    let e : Mismatch := ⟨.topLevel, ⟨.string, "a\nb"⟩⟩
    (parseProgram source (.empty none)).1 = .error (.unexpected e) ∧
      lineFeeds (parseProgram source (.empty none)).2.sink.kept = 2 := by
  intro source e
  have failed : (parseProgram source (.empty none)).1 = .error (.unexpected e) := by decide +kernel
  exact ⟨failed, (parseProgram_diagnostic failed).2.2.1.trans (by decide)⟩

end FrontEnd
