import FrontEnd.Proofs.Soundness

/-!
# What was taken before a refusal can be completed

A parser that refuses a token has taken tokens with which some phrase of its nonterminal begins.  So no
parser goes on behind a token that is wrong where it stands.

* `Viable` — the tokens can be completed to a phrase of the nonterminal.
* `BreaksOff` — a parse has taken viable tokens and stops at the next one.  `BreaksOff.within` goes from
  a part of a phrase to the phrase.
* `expression_breaksOff` and its companions — every refusal is of this kind.
-/

namespace FrontEnd

namespace Outcome

variable {α β : Type}

theorem bind_eq_refused {o : Outcome α} {f : α → Reader → Outcome β} {e : Mismatch} {s : Reader} :
    o.bind f = .refused e s ↔ o = .refused e s ∨ ∃ a r, o = .done a r ∧ f a r = .refused e s := by
  cases o with
  | done a r => simp
  | refused e r => simp

theorem map_eq_refused {o : Outcome α} {f : α → β} {e : Mismatch} {s : Reader} :
    o.map f = .refused e s ↔ o = .refused e s := by
  cases o with
  | done a r => simp
  | refused e r => simp

end Outcome

open Outcome (bind_eq_done map_eq_done bind_eq_refused map_eq_refused)

/-- The tokens can be completed to a phrase of the nonterminal. -/
def Viable {α : Type} (φ : α → Phrase) (ts : List Token) : Prop :=
  ∃ us a, Derives OpTree.Grouped (φ a) (ts ++ us)

/-- From `r` on, viable tokens were taken, and the parse stopped at the token `t`. -/
def BreaksOff {α : Type} (φ : α → Phrase) (r : Reader) (t : Token) (s : Reader) : Prop :=
  ∃ ts, r.StopsAt ts t s ∧ Viable φ ts

section

variable {α β : Type} {φ : α → Phrase} {ψ : β → Phrase} {r q s : Reader} {t : Token}
  {ts : List Token}

/-- The parse stops behind tokens that begin a phrase. -/
theorem Reader.Takes.breaksOff (hq : r.Takes ts q) (h : q.StopsAt [] t s) (us : List Token)
    {b : β} (hd : Derives OpTree.Grouped (ψ b) (ts ++ us)) : BreaksOff ψ r t s :=
  ⟨ts, by simpa using hq.stopsAt h, us, b, hd⟩

/-- The parse of a part breaks off.  Whatever the part is completed to, the tokens before it and `vs`
behind it complete it to a phrase of the other nonterminal. -/
theorem BreaksOff.within (h : BreaksOff φ q t s) (hq : r.Takes ts q) (vs : List Token)
    (hd : ∀ a us, Derives OpTree.Grouped (φ a) us →
      ∃ b, Derives OpTree.Grouped (ψ b) (ts ++ (us ++ vs))) : BreaksOff ψ r t s := by
  obtain ⟨us, hstop, ws, a, ha⟩ := h
  obtain ⟨b, hb⟩ := hd a _ ha
  exact ⟨ts ++ us, hq.stopsAt hstop, ws ++ vs, b, by simpa using hb⟩

end

theorem derives_emptyBlock : Derives OpTree.Grouped (.block .empty)
    [markToken .leftBrace, markToken .rightBrace] :=
  have inner : Derives OpTree.Grouped (.expression .empty) [] := .lastLine (.operandLine .empty)
  .block rfl inner rfl

theorem derives_emptyFunction (name type : String) :
    Derives OpTree.Grouped (.function ⟨name, [], type, .empty⟩)
      [nameToken Keyword.kwFn.text, nameToken name, markToken .leftParen, markToken .rightParen,
        markToken .arrow, nameToken type, markToken .leftBrace, markToken .rightBrace] :=
  .function (l := markToken .leftParen) (r := markToken .rightParen) (a := markToken .arrow) rfl
    .noArguments rfl rfl derives_emptyBlock

theorem derives_emptyModule (name : String) :
    Derives OpTree.Grouped (.item (.module name []))
      [nameToken Keyword.kwModule.text, nameToken name, markToken .leftBrace,
        markToken .rightBrace] :=
  .module (l := markToken .leftBrace) (r := markToken .rightBrace) rfl .noItems rfl

namespace Parse

variable {r s : Reader} {e : Mismatch}

theorem expectMark_refused {m : Mark} (h : expectMark m r = .refused e s) :
    r.StopsAt [] e.found s := by
  unfold expectMark at h
  split at h
  · cases h
  · cases h
    exact r.stopsAt_get

theorem expectName_refused {x : Expectation} (h : expectName x r = .refused e s) :
    r.StopsAt [] e.found s := by
  unfold expectName at h
  split at h
  · cases h
  · cases h
    exact r.stopsAt_get

theorem declaration_breaksOff (h : declaration r = .refused e s) {k : Keyword}
    (hk : r.get.1 = nameToken k.text) (hd : k.declares) :
    BreaksOff Phrase.primary r e.found s := by
  unfold declaration at h
  have h0 : r.Takes [nameToken k.text] r.get.2 := hk ▸ r.takes_get
  rcases bind_eq_refused.1 h with hname | ⟨name, r₁, hname, h⟩
  · exact h0.breaksOff (expectName_refused hname) [nameToken "x"] (.declaration hd)
  · have h1 := h0.trans (expectName_sound hname)
    split at h
    · rename_i hc
      exact (h1.trans r₁.takes_skip_peek).breaksOff (expectName_refused (map_eq_refused.1 h))
        [nameToken "x"] (.typedDeclaration hd hc)
    · cases h

mutual

theorem expression_breaksOff {r s : Reader} {e : Mismatch} (h : expression r = .refused e s) :
    BreaksOff Phrase.expression r e.found s := by
  rw [expression_eq] at h
  rcases bind_eq_refused.1 h with hline | ⟨first, r₁, hline, h⟩
  · exact (line_breaksOff hline).within .here [] fun x us hx => ⟨x, by simpa using .lastLine hx⟩
  · have hle := remaining_of_done hline (line_leaves r)
    obtain ⟨ts, hts, h1⟩ := line_sound hline
    split at h
    · rename_i hk
      have hlt := Reader.remaining_skip_peek (r := r₁) (by simp [hk])
      exact (expression_breaksOff (map_eq_refused.1 h)).within (h1.trans r₁.takes_skip_peek) []
        fun x us hx => ⟨_, by simpa using Derives.sequence hts hk hx⟩
    · cases h
termination_by 4 * r.remaining + 3

theorem line_breaksOff {r s : Reader} {e : Mismatch} (h : line r = .refused e s) :
    BreaksOff Phrase.line r e.found s := by
  rw [line_eq] at h
  rcases bind_eq_refused.1 h with hp | ⟨first, r₁, hp, hc⟩
  · exact (primary_breaksOff hp).within .here [] fun x us hx =>
      ⟨x, by simpa using hx.operandLine⟩
  · have hle := remaining_of_done hp (primary_leaves r)
    obtain ⟨ts, hts, h1⟩ := primary_sound hp
    refine (chain_breaksOff hc).within h1 [] fun ops us hops => ?_
    obtain ⟨tree, rfl, rfl, g⟩ := OpTree.exists_grouped first ops
    exact ⟨_, by simpa using Derives.line hts hops g⟩
termination_by 4 * r.remaining + 2

theorem chain_breaksOff {r s : Reader} {e : Mismatch} {stack : List Waiting} {x : Expression}
    (h : chain stack x r = .refused e s) : BreaksOff Phrase.operands r e.found s := by
  rw [chain_eq] at h
  dsimp only at h
  have quiet := quiet_decisions r.peek.1.kind.lookahead stack x
  split at h
  · cases h
  · rename_i op hk
    have kind := TokenKind.lookahead_eq_operator_iff.1 hk
    have hlt := Reader.remaining_skip_peek (r := r) (by simp [kind])
    rcases bind_eq_refused.1 h with hp | ⟨e', r₁, hp, h⟩
    · exact (primary_breaksOff hp).within (r.takes_skip_note quiet) [] fun y us hy =>
        ⟨_, by simpa using Derives.moreOperands kind hy .noOperands⟩
    · have hle := remaining_of_done hp (primary_leaves _)
      have : r₁.remaining < r.remaining := by simp at hle; omega
      obtain ⟨ts, hts, h1⟩ := primary_sound hp
      exact (chain_breaksOff h).within ((r.takes_skip_note quiet).trans h1) [] fun ops us hops =>
        ⟨_, by simpa using Derives.moreOperands kind hts hops⟩
termination_by 4 * r.remaining
decreasing_by all_goals simp; omega

theorem primary_breaksOff {r s : Reader} {e : Mismatch} (h : primary r = .refused e s) :
    BreaksOff Phrase.primary r e.found s := by
  rw [primary_eq] at h
  split at h
  · cases h
  · rename_i ho
    obtain ⟨k, hd, hk⟩ := operand_declaration ho
    have hdecl := declaration_breaksOff (map_eq_refused.1 h) (by rw [r.get_peek]; exact hk) hd
    exact hdecl.within r.takes_peek [] fun x us hx => ⟨x, by simpa using hx⟩
  · rename_i ho
    have hlt := Reader.remaining_skip_peek (r := r) fun e => by
      simp [Operand.ofToken_endOfFile e] at ho
    have hl := operand_group ho
    rcases bind_eq_refused.1 h with hinner | ⟨inner, r₁, hinner, h⟩
    · exact (expression_breaksOff hinner).within r.takes_skip_peek [markToken .rightParen]
        fun x us hx => ⟨x, .group hl hx rfl⟩
    · obtain ⟨ts, hts, h1⟩ := expression_sound hinner
      exact (r.takes_skip_peek.trans h1).breaksOff (expectMark_refused (map_eq_refused.1 h))
        [markToken .rightParen] (.group hl hts rfl)
  · have hle := r.remaining_peek
    exact (block_breaksOff (map_eq_refused.1 h)).within r.takes_peek [] fun x us hx =>
      ⟨_, by simpa using Derives.blockOperand hx⟩
  · cases h
termination_by 4 * r.remaining + 1

theorem block_breaksOff {r s : Reader} {e : Mismatch} (h : block r = .refused e s) :
    BreaksOff Phrase.block r e.found s := by
  rw [block_eq] at h
  rcases bind_eq_refused.1 h with hl | ⟨u, r₁, hl, h⟩
  · exact Reader.Takes.here.breaksOff (expectMark_refused hl) _ derives_emptyBlock
  · have hle := remaining_of_done hl (expectMark_leaves _ r)
    obtain ⟨l, hl', h1⟩ := expectMark_sound hl
    rcases bind_eq_refused.1 h with hinner | ⟨inner, r₂, hinner, h⟩
    · exact (expression_breaksOff hinner).within h1 [markToken .rightBrace]
        fun x us hx => ⟨x, .block hl' hx rfl⟩
    · obtain ⟨ts, hts, h2⟩ := expression_sound hinner
      exact (h1.trans h2).breaksOff (expectMark_refused (map_eq_refused.1 h))
        [markToken .rightBrace] (.block hl' hts rfl)
termination_by 4 * r.remaining

end

/-! ## Declarations -/

theorem argument_breaksOff (h : argument r = .refused e s) :
    BreaksOff Phrase.argument r e.found s := by
  unfold argument at h
  rcases bind_eq_refused.1 h with hname | ⟨name, r₁, hname, h⟩
  · exact Reader.Takes.here.breaksOff (expectName_refused hname)
      [nameToken "x", markToken .colon, nameToken "x"] (.argument rfl)
  · have h1 := expectName_sound hname
    rcases bind_eq_refused.1 h with hc | ⟨u, r₂, hc, h⟩
    · exact h1.breaksOff (expectMark_refused hc) [markToken .colon, nameToken "x"]
        (.argument rfl)
    · obtain ⟨c, hc', h2⟩ := expectMark_sound hc
      exact (h1.trans h2).breaksOff (expectName_refused (map_eq_refused.1 h))
        [nameToken "x"] (.argument hc')

theorem argumentList_breaksOff {r s : Reader} {e : Mismatch} (h : argumentList r = .refused e s) :
    BreaksOff Phrase.argumentList r e.found s := by
  rw [argumentList_eq] at h
  rcases bind_eq_refused.1 h with ha | ⟨a, r₁, ha, h⟩
  · exact (argument_breaksOff ha).within .here [] fun x us hx =>
      ⟨_, by simpa using Derives.lastArgument hx⟩
  · have hle := remaining_of_done ha (argument_leaves r)
    have := r₁.remaining_get_le
    obtain ⟨ts, hts, h1⟩ := argument_sound ha
    split at h
    · rename_i hk
      exact (argumentList_breaksOff (map_eq_refused.1 h)).within (h1.trans r₁.takes_get) []
        fun x us hx => ⟨_, by simpa using Derives.moreArguments hts hk hx⟩
    · cases h
    · cases h
      exact h1.breaksOff r₁.stopsAt_get [] (by simpa using Derives.lastArgument hts)
termination_by r.remaining

theorem arguments_breaksOff (h : arguments r = .refused e s) :
    BreaksOff Phrase.arguments r e.found s := by
  unfold arguments at h
  split at h
  · cases h
  · exact (argumentList_breaksOff h).within r.takes_peek [] fun x us hx =>
      ⟨_, by simpa using Derives.someArguments hx⟩

theorem function_breaksOff (h : function r = .refused e s)
    (hk : r.get.1 = nameToken Keyword.kwFn.text) : BreaksOff Phrase.function r e.found s := by
  unfold function at h
  have h0 : r.Takes [nameToken Keyword.kwFn.text] r.skip := hk ▸ r.takes_get
  have closing := derives_emptyBlock
  rcases bind_eq_refused.1 h with hname | ⟨name, r₁, hname, h⟩
  · exact h0.breaksOff (expectName_refused hname) _ (derives_emptyFunction "x" "x")
  have h1 := h0.trans (expectName_sound hname)
  rcases bind_eq_refused.1 h with hl | ⟨u, r₂, hl, h⟩
  · exact h1.breaksOff (expectMark_refused hl) _ (derives_emptyFunction name "x")
  obtain ⟨l, hl', h2⟩ := expectMark_sound hl
  have h2 := h1.trans h2
  rcases bind_eq_refused.1 h with hargs | ⟨args, r₃, hargs, h⟩
  · exact (arguments_breaksOff hargs).within h2
      (markToken .rightParen :: markToken .arrow :: nameToken "x" ::
        [markToken .leftBrace, markToken .rightBrace])
      fun args us hargs => ⟨_, .function hl' hargs rfl rfl closing⟩
  obtain ⟨ts, p, hts, hp, h3⟩ := arguments_sound hargs
  have h3 := h2.trans h3
  rcases bind_eq_refused.1 h with ha | ⟨u', r₄, ha, h⟩
  · exact h3.breaksOff (expectMark_refused ha)
      (markToken .arrow :: nameToken "x" :: [markToken .leftBrace, markToken .rightBrace])
      (by simpa using Derives.function hl' hts hp rfl closing)
  obtain ⟨a, ha', h4⟩ := expectMark_sound ha
  have h4 := h3.trans h4
  rcases bind_eq_refused.1 h with htype | ⟨type, r₅, htype, h⟩
  · exact h4.breaksOff (expectName_refused htype)
      (nameToken "x" :: [markToken .leftBrace, markToken .rightBrace])
      (by simpa using Derives.function hl' hts hp ha' closing)
  exact (block_breaksOff (map_eq_refused.1 h)).within (h4.trans (expectName_sound htype)) []
    fun body us hbody => ⟨_, by simpa using Derives.function hl' hts hp ha' hbody⟩

mutual

theorem item_breaksOff {r s : Reader} {e : Mismatch} (h : item r = .refused e s) :
    BreaksOff Phrase.item r e.found s := by
  rw [item_eq] at h
  split at h
  · rename_i hi
    have hle := r.remaining_peek
    have hm := module_breaksOff (map_eq_refused.1 h) (by rw [r.get_peek]; exact introducer_module hi)
    exact hm.within r.takes_peek [] fun x us hx => ⟨x, by simpa using hx⟩
  · rename_i hi
    have hf := function_breaksOff (map_eq_refused.1 h)
      (by rw [r.get_peek]; exact introducer_function hi)
    exact hf.within r.takes_peek [] fun x us hx => ⟨_, by simpa using Derives.functionItem hx⟩
  · cases h
    exact Reader.Takes.here.breaksOff r.stopsAt_peek _ (derives_emptyModule "x")
termination_by 3 * r.remaining + 1

theorem module_breaksOff {r s : Reader} {e : Mismatch} (h : module r = .refused e s)
    (hk : r.get.1 = nameToken Keyword.kwModule.text) : BreaksOff Phrase.item r e.found s := by
  rw [module_eq] at h
  have h0 : r.Takes [nameToken Keyword.kwModule.text] r.skip := hk ▸ r.takes_get
  have hskip : r.skip.remaining ≤ r.remaining := r.remaining_get_le
  rcases bind_eq_refused.1 h with hname | ⟨name, r₁, hname, h⟩
  · exact h0.breaksOff (expectName_refused hname) _ (derives_emptyModule "x")
  have hle := remaining_of_done hname (expectName_leaves _ _)
  have h1 := h0.trans (expectName_sound hname)
  rcases bind_eq_refused.1 h with hl | ⟨u, r₂, hl, h⟩
  · exact h1.breaksOff (expectMark_refused hl) _ (derives_emptyModule name)
  have hle' := remaining_of_done hl (expectMark_leaves _ _)
  obtain ⟨l, hl', h2⟩ := expectMark_sound hl
  rcases bind_eq_refused.1 h with his | ⟨is, r₃, -, h⟩
  · exact (items_breaksOff his).within (h1.trans h2) [markToken .rightBrace]
      fun is us his => ⟨_, .module hl' his rfl⟩
  · cases h
termination_by 3 * r.remaining

theorem items_breaksOff {r s : Reader} {e : Mismatch} {stop : TokenKind}
    (h : items stop r = .refused e s) : BreaksOff Phrase.items r e.found s := by
  rw [items_eq] at h
  have hpeek := r.remaining_peek
  split at h
  · cases h
  · rcases bind_eq_refused.1 h with hi | ⟨i, r₁, hi, h⟩
    · exact (item_breaksOff hi).within r.takes_peek [] fun x us hx =>
        ⟨_, by simpa using Derives.moreItems hx .noItems⟩
    · have hle := remaining_of_done hi (item_leaves _)
      obtain ⟨ts, hts, h1⟩ := item_sound hi
      exact (items_breaksOff (map_eq_refused.1 h)).within (r.takes_peek.trans h1) []
        fun is us his => ⟨_, by simpa using Derives.moreItems hts his⟩
termination_by 3 * r.remaining + 2

end

end Parse

end FrontEnd
