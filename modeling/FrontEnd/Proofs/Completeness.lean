import FrontEnd.Proofs.Soundness

/-!
# The parsers accept the whole grammar

* `Outcome.Reaches` — a parse succeeds with the given value and the given stream behind it.
* `closes`, `endsLine`, `endsOperand` — the tokens that may stand behind an expression, a line and an
  operand.  None of them begins an operand, so an empty operand is recognised by what follows it.
* `Phrase.Accepted` — the parser of a phrase takes the given tokens off every stream that goes on with
  a token that may follow, and yields the tree of the phrase.
* `Derives.accepted` — what the grammar derives is accepted, by induction on the derivation.  The
  lemmas of `Phrase.Accepted` are its cases, one a production.
-/

namespace FrontEnd

open Stream' (append_append_stream cons_append_stream)

namespace Outcome

variable {α β : Type}

/-- The parse succeeds with the value `a`, and `rest` is left. -/
def Reaches (o : Outcome α) (a : α) (rest : Stream' Token) : Prop :=
  ∃ s, o = .done a s ∧ s.stream = rest

theorem Reaches.bind {o : Outcome α} {f : α → Reader → Outcome β} {a : α} {b : β}
    {mid rest : Stream' Token} (h : o.Reaches a mid)
    (hf : ∀ s, s.stream = mid → (f a s).Reaches b rest) : (o.bind f).Reaches b rest := by
  obtain ⟨s, rfl, hs⟩ := h
  exact hf s hs

theorem Reaches.map {o : Outcome α} {a : α} {rest : Stream' Token} (h : o.Reaches a rest)
    (f : α → β) : (o.map f).Reaches (f a) rest :=
  h.bind fun s hs => ⟨s, rfl, hs⟩

end Outcome

/-- A token that may stand behind an expression. -/
def closes (t : Token) : Prop := t.kind = .mark .rightParen ∨ t.kind = .mark .rightBrace

/-- A token that may stand behind a line. -/
def endsLine (t : Token) : Prop := closes t ∨ t.kind = .mark .semicolon

/-- A token that may stand behind an operand. -/
def endsOperand (t : Token) : Prop := endsLine t ∨ ∃ op, t.kind = .operator op

theorem endsOperand.ofToken {t : Token} (h : endsOperand t) : Parse.Operand.ofToken t = .none := by
  unfold Parse.Operand.ofToken
  rcases h with ((h | h) | h) | ⟨op, h⟩ <;> rw [h]

theorem endsOperand.ne_colon {t : Token} (h : endsOperand t) : t.kind ≠ .mark .colon := by
  rcases h with ((h | h) | h) | ⟨op, h⟩ <;> simp [h]

theorem endsLine.lookahead {t : Token} (h : endsLine t) : t.kind.lookahead = .finish := by
  rcases h with (h | h) | h <;> simp [h, TokenKind.lookahead]

theorem closes.ne_semicolon {t : Token} (h : closes t) : t.kind ≠ .mark .semicolon := by
  rcases h with h | h <;> simp [h]

namespace Parse

variable {r : Reader} {rest : Stream' Token} {t : Token}

theorem get_of_stream (h : r.stream = Stream'.cons t rest) :
    r.get.1 = t ∧ r.get.2.stream = rest := by
  rw [r.get_fst, r.stream_get, h]
  exact ⟨rfl, rfl⟩

theorem peek_of_stream (h : r.stream = Stream'.cons t rest) :
    r.peek.1 = t ∧ r.peek.2.skip.stream = rest := by
  rw [r.skip_peek]
  exact get_of_stream h

theorem expectMark_complete {m : Mark} (h : r.stream = Stream'.cons t rest)
    (ht : t.kind = .mark m) : (expectMark m r).Reaches () rest := by
  obtain ⟨h1, h2⟩ := get_of_stream h
  unfold expectMark
  rw [h1, if_pos ht]
  exact ⟨_, rfl, h2⟩

theorem expectName_complete (e : Expectation) {name : String}
    (h : r.stream = Stream'.cons (nameToken name) rest) : (expectName e r).Reaches name rest := by
  obtain ⟨h1, h2⟩ := get_of_stream h
  unfold expectName
  rw [h1]
  exact ⟨_, rfl, h2⟩

theorem ofToken_name {name : String} (h : ∀ k : Keyword, k.declares → name ≠ k.text) :
    Operand.ofToken (nameToken name) = .leaf (.identifier name) := by
  have notLet := h .kwLet (Or.inl rfl)
  have notVar := h .kwVar (Or.inr rfl)
  unfold Operand.ofToken
  dsimp only [nameToken]
  split
  · rename_i hk
    exact absurd (congrArg Token.text (Token.keyword?_eq_some_iff.1 hk)) notLet
  · rename_i hk
    exact absurd (congrArg Token.text (Token.keyword?_eq_some_iff.1 hk)) notVar
  · rfl

theorem ofToken_declares {k : Keyword} (h : k.declares) :
    Operand.ofToken (nameToken k.text) = .declaration := by
  rcases h with rfl | rfl <;> rfl

theorem ofToken_leftParen (h : t.kind = .mark .leftParen) : Operand.ofToken t = .group := by
  unfold Operand.ofToken
  rw [h]

theorem ofToken_leftBrace (h : t.kind = .mark .leftBrace) : Operand.ofToken t = .block := by
  unfold Operand.ofToken
  rw [h]

theorem leaf_complete {e : Expression} (ho : Operand.ofToken t = .leaf e)
    (h : r.stream = Stream'.cons t rest) : (primary r).Reaches e rest := by
  obtain ⟨h1, h2⟩ := peek_of_stream h
  rw [primary_eq, h1, ho]
  exact ⟨_, rfl, h2⟩

theorem keyword_get {k : Keyword} (h : r.stream = Stream'.cons (nameToken k.text) rest) :
    (r.get.1.keyword? == some .kwVar) = (k == .kwVar) := by
  have hk : (nameToken k.text).keyword? = some k := Token.keyword?_eq_some_iff.2 rfl
  rw [(get_of_stream h).1, hk]
  rfl

theorem declaration_complete {k : Keyword} {name : String}
    (h : r.stream = Stream'.cons (nameToken k.text) (Stream'.cons (nameToken name) rest))
    (hr : rest.head.kind ≠ .mark .colon) :
    (declaration r).Reaches ⟨name, none, k == .kwVar⟩ rest := by
  unfold declaration
  rw [keyword_get h]
  refine (expectName_complete _ (get_of_stream h).2).bind fun s hs => ?_
  rw [if_neg (by rw [s.peek_fst, hs]; exact hr)]
  exact ⟨_, rfl, by rw [s.stream_peek, hs]⟩

theorem typedDeclaration_complete {k : Keyword} {name type : String} {c : Token}
    (hc : c.kind = .mark .colon)
    (h : r.stream = Stream'.cons (nameToken k.text) (Stream'.cons (nameToken name)
      (Stream'.cons c (Stream'.cons (nameToken type) rest)))) :
    (declaration r).Reaches ⟨name, some type, k == .kwVar⟩ rest := by
  unfold declaration
  rw [keyword_get h]
  refine (expectName_complete _ (get_of_stream h).2).bind fun s hs => ?_
  obtain ⟨h1, h2⟩ := peek_of_stream hs
  rw [if_pos (by rw [h1]; exact hc)]
  exact (expectName_complete _ h2).map _

/-- A declaration stands where its keyword is seen. -/
theorem declared_complete {k : Keyword} {d : VariableDecl} {mid : Stream' Token} (hk : k.declares)
    (h : r.stream = Stream'.cons (nameToken k.text) mid)
    (hd : (declaration r.peek.2).Reaches d rest) : (primary r).Reaches (.declaration d) rest := by
  rw [primary_eq, (peek_of_stream h).1, ofToken_declares hk]
  exact hd.map _

end Parse

open Parse

/-- The parser of the phrase takes the tokens, whatever stands before them in the reader's log and
whatever may follow them in its stream. -/
def Phrase.Accepted (ts : List Token) : Phrase → Prop
  | .primary e => ∀ r rest, r.stream = ts ++ₛ rest → endsOperand rest.head →
    (Parse.primary r).Reaches e rest
  | .operands ops => ∀ r rest, r.stream = ts ++ₛ rest → endsLine rest.head →
    ∃ s, Operands r ops s ∧ s.stream = rest
  | .line e => ∀ r rest, r.stream = ts ++ₛ rest → endsLine rest.head →
    (Parse.line r).Reaches e rest
  | .expression e => ∀ r rest, r.stream = ts ++ₛ rest → closes rest.head →
    (Parse.expression r).Reaches e rest
  | .block e => ∀ r rest, r.stream = ts ++ₛ rest → (Parse.block r).Reaches e rest
  | .argument a => ∀ r rest, r.stream = ts ++ₛ rest → (Parse.argument r).Reaches a rest
  | .argumentList args => ∀ r t rest, r.stream = ts ++ₛ Stream'.cons t rest →
    t.kind = .mark .rightParen → (Parse.argumentList r).Reaches args rest
  | .arguments args => ∀ r t rest, r.stream = ts ++ₛ Stream'.cons t rest →
    t.kind = .mark .rightParen → (Parse.arguments r).Reaches args rest
  | .function f => ∀ r rest, r.stream = ts ++ₛ rest → (Parse.function r).Reaches f rest
  | .item i => ∀ r rest, r.stream = ts ++ₛ rest → (Parse.item r).Reaches i rest
  | .items is => ∀ r stop rest, r.stream = ts ++ₛ rest → rest.head.kind = stop →
    stop ≠ .identifier → (Parse.items stop r).Reaches is rest

namespace Derives

variable {grouping : OpTree → Prop} {ts : List Token}

theorem endsOperand_head {ops : List (BinaryOperator × Expression)} {rest : Stream' Token}
    (h : Derives grouping (.operands ops) ts) (hr : endsLine rest.head) :
    endsOperand (ts ++ₛ rest).head := by
  cases h with
  | noOperands => exact Or.inl hr
  | moreOperands ht => exact Or.inr ⟨_, ht⟩

theorem function_head {f : FunctionDecl} (h : Derives grouping (.function f) ts) :
    ∃ us, ts = nameToken Keyword.kwFn.text :: us := by
  cases h with
  | function => exact ⟨_, rfl⟩

theorem item_head {i : Item} (h : Derives grouping (.item i) ts) :
    ∃ name us, ts = nameToken name :: us := by
  cases h with
  | functionItem h =>
      obtain ⟨us, rfl⟩ := h.function_head
      exact ⟨_, us, rfl⟩
  | module => exact ⟨_, _, rfl⟩

theorem argumentList_head {args : List Argument} (h : Derives grouping (.argumentList args) ts) :
    ∃ name us, ts = nameToken name :: us := by
  cases h with
  | lastArgument h =>
      cases h with
      | argument => exact ⟨_, _, rfl⟩
  | moreArguments h =>
      cases h with
      | argument => exact ⟨_, _, rfl⟩

theorem block_head {e : Expression} (h : Derives grouping (.block e) ts) :
    ∃ l us, l.kind = .mark .leftBrace ∧ ts = l :: us := by
  cases h with
  | block hl => exact ⟨_, _, hl, rfl⟩

end Derives

/-! ## The productions -/

namespace Phrase.Accepted

variable {ts us : List Token} {t l r : Token} {e next : Expression}

theorem empty : (Phrase.primary .empty).Accepted [] := by
  intro s rest hs hr
  have hs : s.stream = rest := hs
  rw [primary_eq, s.peek_fst, hs, hr.ofToken]
  exact ⟨_, rfl, by rw [s.stream_peek, hs]⟩

theorem leaf (ho : Operand.ofToken t = .leaf e) : (Phrase.primary e).Accepted [t] :=
  fun _ _ hs _ => leaf_complete ho hs

theorem group (h : (Phrase.expression e).Accepted ts) (hl : l.kind = .mark .leftParen)
    (hr : r.kind = .mark .rightParen) : (Phrase.primary e).Accepted (l :: (ts ++ [r])) := by
  intro s rest hs _
  rw [cons_append_stream, append_append_stream] at hs
  obtain ⟨h1, h2⟩ := peek_of_stream hs
  rw [primary_eq, h1, ofToken_leftParen hl]
  refine (h _ _ h2 (Or.inl hr)).bind fun s' hs' => ?_
  exact (expectMark_complete hs' hr).map _

theorem blockOperand (h : (Phrase.block e).Accepted (l :: ts)) (hl : l.kind = .mark .leftBrace) :
    (Phrase.primary (.block e)).Accepted (l :: ts) := by
  intro s rest hs _
  rw [primary_eq, (peek_of_stream hs).1, ofToken_leftBrace hl]
  exact (h s.peek.2 rest (by rw [s.stream_peek, hs])).map _

theorem declaration {k : Keyword} {name : String} (hk : k.declares) :
    (Phrase.primary (.declaration ⟨name, none, k == .kwVar⟩)).Accepted
      [nameToken k.text, nameToken name] := by
  intro s rest hs hr
  refine declared_complete hk hs (declaration_complete ?_ hr.ne_colon)
  rw [s.stream_peek, hs]
  rfl

theorem typedDeclaration {k : Keyword} {name type : String} (hk : k.declares)
    (ht : t.kind = .mark .colon) :
    (Phrase.primary (.declaration ⟨name, some type, k == .kwVar⟩)).Accepted
      [nameToken k.text, nameToken name, t, nameToken type] := by
  intro s rest hs _
  refine declared_complete hk hs (typedDeclaration_complete ht ?_)
  rw [s.stream_peek, hs]
  rfl

theorem noOperands : (Phrase.operands []).Accepted [] := by
  intro s rest hs hr
  have hs : s.stream = rest := hs
  refine ⟨s, .nil ?_, hs⟩
  rw [s.peek_fst, hs]
  exact hr.lookahead

theorem moreOperands {op : BinaryOperator} {ops : List (BinaryOperator × Expression)}
    (h : (Phrase.primary e).Accepted ts) (h' : (Phrase.operands ops).Accepted us)
    (ht : t.kind = .operator op)
    (hus : ∀ rest : Stream' Token, endsLine rest.head → endsOperand (us ++ₛ rest).head) :
    (Phrase.operands ((op, e) :: ops)).Accepted (t :: (ts ++ us)) := by
  intro s rest hs hr
  rw [cons_append_stream, append_append_stream] at hs
  obtain ⟨h1, h2⟩ := peek_of_stream hs
  obtain ⟨s₁, hp, hs₁⟩ := h _ _ h2 (hus rest hr)
  obtain ⟨s₂, ho, hs₂⟩ := h' s₁ rest hs₁ hr
  exact ⟨s₂, .cons (by rw [h1]; exact TokenKind.lookahead_eq_operator_iff.2 ht) hp ho, hs₂⟩

/-- The parser groups the operands, and there is no second way to group them. -/
theorem line {tree : OpTree} (h : (Phrase.primary tree.first).Accepted ts)
    (h' : (Phrase.operands tree.rest).Accepted us) (g : tree.Grouped)
    (hus : ∀ rest : Stream' Token, endsLine rest.head → endsOperand (us ++ₛ rest).head) :
    (Phrase.line tree.expression).Accepted (ts ++ us) := by
  intro s rest hs hr
  rw [append_append_stream] at hs
  obtain ⟨s₁, hp, hs₁⟩ := h s _ hs (hus rest hr)
  obtain ⟨s₂, ho, hs₂⟩ := h' s₁ rest hs₁ hr
  obtain ⟨u, s₃, uf, ur, gu, hline, hs₃⟩ := line_of_operands hp ho
  rw [gu.unique g uf ur] at hline
  exact ⟨s₃, hline, hs₃.trans hs₂⟩

theorem lastLine (h : (Phrase.line e).Accepted ts) : (Phrase.expression e).Accepted ts := by
  intro s rest hs hr
  rw [expression_eq]
  refine (h s rest hs (Or.inl hr)).bind fun s' hs' => ?_
  rw [if_neg (by rw [s'.peek_fst, hs']; exact hr.ne_semicolon)]
  exact ⟨_, rfl, by rw [s'.stream_peek, hs']⟩

theorem sequence (h : (Phrase.line e).Accepted ts) (h' : (Phrase.expression next).Accepted us)
    (ht : t.kind = .mark .semicolon) :
    (Phrase.expression (.sequence e next)).Accepted (ts ++ t :: us) := by
  intro s rest hs hr
  rw [append_append_stream, cons_append_stream] at hs
  rw [expression_eq]
  refine (h s _ hs (Or.inr ht)).bind fun s' hs' => ?_
  obtain ⟨h1, h2⟩ := peek_of_stream hs'
  rw [if_pos (by rw [h1]; exact ht)]
  exact (h' _ rest h2 hr).map _

theorem block (h : (Phrase.expression e).Accepted ts) (hl : l.kind = .mark .leftBrace)
    (hr : r.kind = .mark .rightBrace) : (Phrase.block e).Accepted (l :: (ts ++ [r])) := by
  intro s rest hs
  rw [cons_append_stream, append_append_stream] at hs
  rw [block_eq]
  refine (expectMark_complete hs hl).bind fun s₁ hs₁ => ?_
  refine (h s₁ _ hs₁ (Or.inr hr)).bind fun s₂ hs₂ => ?_
  exact (expectMark_complete hs₂ hr).map _

theorem argument {name type : String} (ht : t.kind = .mark .colon) :
    (Phrase.argument ⟨name, type⟩).Accepted [nameToken name, t, nameToken type] := by
  intro s rest hs
  unfold Parse.argument
  refine (expectName_complete _ hs).bind fun s₁ hs₁ => ?_
  refine (expectMark_complete hs₁ ht).bind fun s₂ hs₂ => ?_
  exact (expectName_complete _ hs₂).map _

theorem lastArgument {a : Argument} (h : (Phrase.argument a).Accepted ts) :
    (Phrase.argumentList [a]).Accepted ts := by
  intro s stop rest hs hstop
  rw [argumentList_eq]
  refine (h s _ hs).bind fun s' hs' => ?_
  obtain ⟨h1, h2⟩ := get_of_stream hs'
  rw [h1, hstop]
  exact ⟨_, rfl, h2⟩

theorem moreArguments {a : Argument} {args : List Argument} (h : (Phrase.argument a).Accepted ts)
    (h' : (Phrase.argumentList args).Accepted us) (ht : t.kind = .mark .comma) :
    (Phrase.argumentList (a :: args)).Accepted (ts ++ t :: us) := by
  intro s stop rest hs hstop
  rw [append_append_stream, cons_append_stream] at hs
  rw [argumentList_eq]
  refine (h s _ hs).bind fun s' hs' => ?_
  obtain ⟨h1, h2⟩ := get_of_stream hs'
  rw [h1, ht]
  exact (h' _ stop rest h2 hstop).map _

theorem noArguments : (Phrase.arguments []).Accepted [] := by
  intro s stop rest hs hstop
  obtain ⟨h1, h2⟩ := peek_of_stream hs
  unfold Parse.arguments
  rw [if_pos (by rw [h1]; exact hstop)]
  exact ⟨_, rfl, h2⟩

theorem someArguments {args : List Argument} {name : String}
    (h : (Phrase.argumentList args).Accepted (nameToken name :: ts)) :
    (Phrase.arguments args).Accepted (nameToken name :: ts) := by
  intro s stop rest hs hstop
  unfold Parse.arguments
  rw [if_neg (by rw [(peek_of_stream hs).1]; simp [nameToken])]
  exact h s.peek.2 stop rest (by rw [s.stream_peek, hs]) hstop

theorem function {name type : String} {args : List Argument}
    (h : (Phrase.arguments args).Accepted ts) (h' : (Phrase.block e).Accepted us)
    (hl : l.kind = .mark .leftParen) (hr : r.kind = .mark .rightParen)
    (ht : t.kind = .mark .arrow) :
    (Phrase.function ⟨name, args, type, e⟩).Accepted
      (nameToken Keyword.kwFn.text :: nameToken name :: l ::
        (ts ++ r :: t :: nameToken type :: us)) := by
  intro s rest hs
  rw [cons_append_stream, cons_append_stream, cons_append_stream, append_append_stream] at hs
  unfold Parse.function
  refine (expectName_complete _ (get_of_stream hs).2).bind fun s₁ hs₁ => ?_
  refine (expectMark_complete hs₁ hl).bind fun s₂ hs₂ => ?_
  refine (h s₂ _ _ hs₂ hr).bind fun s₃ hs₃ => ?_
  refine (expectMark_complete hs₃ ht).bind fun s₄ hs₄ => ?_
  refine (expectName_complete _ hs₄).bind fun s₅ hs₅ => ?_
  exact (h' s₅ rest hs₅).map _

theorem functionItem {f : FunctionDecl}
    (h : (Phrase.function f).Accepted (nameToken Keyword.kwFn.text :: ts)) :
    (Phrase.item (.function f)).Accepted (nameToken Keyword.kwFn.text :: ts) := by
  intro s rest hs
  have hi : Introducer.ofToken s.peek.1 = .function := by
    rw [(peek_of_stream hs).1]
    rfl
  rw [item_eq, hi]
  exact (h s.peek.2 rest (by rw [s.stream_peek, hs])).map _

theorem module {name : String} {is : List Item} (h : (Phrase.items is).Accepted ts)
    (hl : l.kind = .mark .leftBrace) (hr : r.kind = .mark .rightBrace) :
    (Phrase.item (.module name is)).Accepted
      (nameToken Keyword.kwModule.text :: nameToken name :: l :: (ts ++ [r])) := by
  intro s rest hs
  rw [cons_append_stream, cons_append_stream, cons_append_stream, append_append_stream] at hs
  have hi : Introducer.ofToken s.peek.1 = .module := by
    rw [(peek_of_stream hs).1]
    rfl
  rw [← s.stream_peek] at hs
  have hm : (Parse.module s.peek.2).Reaches (name, is) rest := by
    rw [module_eq]
    refine (expectName_complete _ (get_of_stream hs).2).bind fun s₁ hs₁ => ?_
    refine (expectMark_complete hs₁ hl).bind fun s₂ hs₂ => ?_
    refine (h s₂ _ _ hs₂ hr (by simp)).bind fun s₃ hs₃ => ?_
    exact ⟨_, rfl, (get_of_stream hs₃).2⟩
  rw [item_eq, hi]
  exact hm.map fun m => Item.module m.1 m.2

theorem noItems : (Phrase.items []).Accepted [] := by
  intro s stop rest hs hr _
  have hs : s.stream = rest := hs
  rw [items_eq, if_pos (by rw [s.peek_fst, hs, hr])]
  exact ⟨_, rfl, by rw [s.stream_peek, hs]⟩

theorem moreItems {i : Item} {is : List Item} {name : String}
    (h : (Phrase.item i).Accepted (nameToken name :: ts)) (h' : (Phrase.items is).Accepted us) :
    (Phrase.items (i :: is)).Accepted (nameToken name :: ts ++ us) := by
  intro s stop rest hs hr hstop
  rw [append_append_stream] at hs
  have hne : s.peek.1.kind ≠ stop := by
    rw [(peek_of_stream hs).1]
    exact hstop.symm
  rw [items_eq, if_neg hne]
  refine (h s.peek.2 _ (by rw [s.stream_peek, hs])).bind fun s' hs' => ?_
  exact (h' s' stop rest hs' hr hstop).map _

end Phrase.Accepted

/-- **What the grammar derives is accepted.** -/
theorem Derives.accepted {φ : Phrase} {ts : List Token} (h : Derives OpTree.Grouped φ ts) :
    φ.Accepted ts := by
  induction h with
  | empty => exact .empty
  | identifier h => exact .leaf (ofToken_name h)
  | number => exact .leaf rfl
  | string => exact .leaf rfl
  | char => exact .leaf rfl
  | group hl _ hr ih => exact ih.group hl hr
  | blockOperand h ih =>
      obtain ⟨l, us, hl, rfl⟩ := h.block_head
      exact ih.blockOperand hl
  | declaration hk => exact .declaration hk
  | typedDeclaration hk hc => exact .typedDeclaration hk hc
  | noOperands => exact .noOperands
  | moreOperands ht _ tail ih ih' =>
      exact ih.moreOperands ih' ht fun rest hr => tail.endsOperand_head hr
  | line _ tail g ih ih' => exact ih.line ih' g fun rest hr => tail.endsOperand_head hr
  | lastLine _ ih => exact ih.lastLine
  | sequence _ ht _ ih ih' => exact ih.sequence ih' ht
  | block hl _ hr ih => exact ih.block hl hr
  | argument hc => exact .argument hc
  | lastArgument _ ih => exact ih.lastArgument
  | moreArguments _ hc _ ih ih' => exact ih.moreArguments ih' hc
  | noArguments => exact .noArguments
  | someArguments h ih =>
      obtain ⟨name, us, rfl⟩ := h.argumentList_head
      exact ih.someArguments
  | function hl _ hr ha _ ih ih' => exact ih.function ih' hl hr ha
  | functionItem h ih =>
      obtain ⟨us, rfl⟩ := h.function_head
      exact ih.functionItem
  | module hl _ hr ih => exact ih.module hl hr
  | noItems => exact .noItems
  | moreItems first _ ih ih' =>
      obtain ⟨name, us, rfl⟩ := first.item_head
      exact ih.moreItems ih'

end FrontEnd
