import FrontEnd.Proofs.Grouping

/-!
# The grammar

* `Phrase` — a nonterminal of the grammar with the tree that it derives.
* `Derives` — a phrase derives a list of tokens, one constructor a production.  In a line the operands
  are given in their order and the tree over them is left open but for `grouping`: with `AnyGrouping`
  every tree over the operands is derived, with `OpTree.Grouped` only the one that the precedence of
  the operators asks for.
* `Derives.regroup` — which tokens can be derived does not depend on the grouping.
* `Derives.ne_endOfFile` — no derived token is the end of the file.
-/

namespace FrontEnd

/-- A nonterminal with the tree that it derives.  An `argumentList` holds one argument or more, and
`operands` are the operators of a line with their right operands. -/
inductive Phrase
  | primary (e : Expression)
  | operands (ops : List (BinaryOperator × Expression))
  | line (e : Expression)
  | expression (e : Expression)
  | block (inner : Expression)
  | argument (a : Argument)
  | argumentList (args : List Argument)
  | arguments (args : List Argument)
  | function (f : FunctionDecl)
  | item (i : Item)
  | items (is : List Item)

/-- The token of an identifier, which may be spelled like a keyword. -/
def nameToken (name : String) : Token := ⟨.identifier, name⟩

def markToken (m : Mark) : Token := ⟨.mark m, m.text⟩

def operatorToken (op : BinaryOperator) : Token := ⟨.operator op, op.text⟩

/-- A keyword by which a variable is declared. -/
def Keyword.declares (k : Keyword) : Prop := k = .kwLet ∨ k = .kwVar

/-- The phrase derives the tokens.  Names may be any identifiers. -/
inductive Derives (grouping : OpTree → Prop) : Phrase → List Token → Prop
  | empty : Derives grouping (.primary .empty) []
  | identifier {name : String} (h : ∀ k : Keyword, k.declares → name ≠ k.text) :
    Derives grouping (.primary (.identifier name)) [nameToken name]
  | number {text : String} : Derives grouping (.primary (.number text)) [⟨.number, text⟩]
  | string {text : String} : Derives grouping (.primary (.string text)) [⟨.string, text⟩]
  | char {text : String} : Derives grouping (.primary (.char text)) [⟨.char, text⟩]
  | group {e : Expression} {ts : List Token} {l r : Token} (hl : l.kind = .mark .leftParen)
    (inner : Derives grouping (.expression e) ts) (hr : r.kind = .mark .rightParen) :
    Derives grouping (.primary e) (l :: (ts ++ [r]))
  | blockOperand {e : Expression} {ts : List Token} (h : Derives grouping (.block e) ts) :
    Derives grouping (.primary (.block e)) ts
  | declaration {k : Keyword} {name : String} (hk : k.declares) :
    Derives grouping (.primary (.declaration ⟨name, none, k == .kwVar⟩))
      [nameToken k.text, nameToken name]
  | typedDeclaration {k : Keyword} {name type : String} {c : Token} (hk : k.declares)
    (hc : c.kind = .mark .colon) :
    Derives grouping (.primary (.declaration ⟨name, some type, k == .kwVar⟩))
      [nameToken k.text, nameToken name, c, nameToken type]
  | noOperands : Derives grouping (.operands []) []
  | moreOperands {t : Token} {op : BinaryOperator} {e : Expression}
    {ops : List (BinaryOperator × Expression)} {ts us : List Token} (ht : t.kind = .operator op)
    (operand : Derives grouping (.primary e) ts) (tail : Derives grouping (.operands ops) us) :
    Derives grouping (.operands ((op, e) :: ops)) (t :: (ts ++ us))
  | line {tree : OpTree} {ts us : List Token} (first : Derives grouping (.primary tree.first) ts)
    (rest : Derives grouping (.operands tree.rest) us) (h : grouping tree) :
    Derives grouping (.line tree.expression) (ts ++ us)
  | lastLine {e : Expression} {ts : List Token} (h : Derives grouping (.line e) ts) :
    Derives grouping (.expression e) ts
  | sequence {e next : Expression} {ts us : List Token} {t : Token}
    (first : Derives grouping (.line e) ts) (ht : t.kind = .mark .semicolon)
    (rest : Derives grouping (.expression next) us) :
    Derives grouping (.expression (.sequence e next)) (ts ++ t :: us)
  | block {e : Expression} {ts : List Token} {l r : Token} (hl : l.kind = .mark .leftBrace)
    (inner : Derives grouping (.expression e) ts) (hr : r.kind = .mark .rightBrace) :
    Derives grouping (.block e) (l :: (ts ++ [r]))
  | argument {name type : String} {c : Token} (hc : c.kind = .mark .colon) :
    Derives grouping (.argument ⟨name, type⟩) [nameToken name, c, nameToken type]
  | lastArgument {a : Argument} {ts : List Token} (h : Derives grouping (.argument a) ts) :
    Derives grouping (.argumentList [a]) ts
  | moreArguments {a : Argument} {args : List Argument} {ts us : List Token} {t : Token}
    (first : Derives grouping (.argument a) ts) (ht : t.kind = .mark .comma)
    (rest : Derives grouping (.argumentList args) us) :
    Derives grouping (.argumentList (a :: args)) (ts ++ t :: us)
  | noArguments : Derives grouping (.arguments []) []
  | someArguments {args : List Argument} {ts : List Token}
    (h : Derives grouping (.argumentList args) ts) : Derives grouping (.arguments args) ts
  | function {name type : String} {args : List Argument} {body : Expression} {ts us : List Token}
    {l r a : Token} (hl : l.kind = .mark .leftParen) (params : Derives grouping (.arguments args) ts)
    (hr : r.kind = .mark .rightParen) (ha : a.kind = .mark .arrow)
    (inner : Derives grouping (.block body) us) :
    Derives grouping (.function ⟨name, args, type, body⟩)
      (nameToken Keyword.kwFn.text :: nameToken name :: l :: (ts ++ r :: a :: nameToken type :: us))
  | functionItem {f : FunctionDecl} {ts : List Token} (h : Derives grouping (.function f) ts) :
    Derives grouping (.item (.function f)) ts
  | module {name : String} {is : List Item} {ts : List Token} {l r : Token}
    (hl : l.kind = .mark .leftBrace) (inner : Derives grouping (.items is) ts)
    (hr : r.kind = .mark .rightBrace) :
    Derives grouping (.item (.module name is))
      (nameToken Keyword.kwModule.text :: nameToken name :: l :: (ts ++ [r]))
  | noItems : Derives grouping (.items []) []
  | moreItems {i : Item} {is : List Item} {ts us : List Token}
    (first : Derives grouping (.item i) ts) (rest : Derives grouping (.items is) us) :
    Derives grouping (.items (i :: is)) (ts ++ us)

/-- Every tree over the operands of a line is allowed. -/
def AnyGrouping (_ : OpTree) : Prop := True

namespace Derives

/-- The grouping has a tree for every chain of operands. -/
def Complete (grouping : OpTree → Prop) : Prop :=
  ∀ first ops, ∃ t : OpTree, t.first = first ∧ t.rest = ops ∧ grouping t

end Derives

/-- Some phrase of the same nonterminal derives the tokens. -/
def Phrase.Derivable (grouping : OpTree → Prop) (ts : List Token) : Phrase → Prop
  | primary _ => ∃ e, Derives grouping (.primary e) ts
  | operands _ => ∃ ops, Derives grouping (.operands ops) ts
  | line _ => ∃ e, Derives grouping (.line e) ts
  | expression _ => ∃ e, Derives grouping (.expression e) ts
  | block _ => ∃ e, Derives grouping (.block e) ts
  | argument _ => ∃ a, Derives grouping (.argument a) ts
  | argumentList _ => ∃ args, Derives grouping (.argumentList args) ts
  | arguments _ => ∃ args, Derives grouping (.arguments args) ts
  | function _ => ∃ f, Derives grouping (.function f) ts
  | item _ => ∃ i, Derives grouping (.item i) ts
  | items _ => ∃ is, Derives grouping (.items is) ts

namespace Derives

variable {grouping grouping' : OpTree → Prop} {φ : Phrase} {ts : List Token}

/-- An operand is a line of its own. -/
theorem operandLine {e : Expression} (h : Derives OpTree.Grouped (.primary e) ts) :
    Derives OpTree.Grouped (.line e) ts := by
  have line : Derives OpTree.Grouped (.line (OpTree.atom e).expression) (ts ++ []) :=
    .line h .noOperands trivial
  simpa using line

/-- **What can be derived does not depend on the grouping**, as long as there is a tree for every
chain of operands. -/
theorem regroup (h : Derives grouping φ ts) (hg : Complete grouping') :
    φ.Derivable grouping' ts := by
  induction h with
  | empty => exact ⟨_, empty⟩
  | identifier h => exact ⟨_, identifier h⟩
  | number => exact ⟨_, number⟩
  | string => exact ⟨_, string⟩
  | char => exact ⟨_, char⟩
  | group hl _ hr ih =>
    obtain ⟨e, he⟩ := ih
    exact ⟨_, group hl he hr⟩
  | blockOperand _ ih =>
    obtain ⟨e, he⟩ := ih
    exact ⟨_, blockOperand he⟩
  | declaration hk => exact ⟨_, declaration hk⟩
  | typedDeclaration hk hc => exact ⟨_, typedDeclaration hk hc⟩
  | noOperands => exact ⟨_, noOperands⟩
  | moreOperands ht _ _ ih ih' =>
    obtain ⟨e, he⟩ := ih
    obtain ⟨ops, ho⟩ := ih'
    exact ⟨_, moreOperands ht he ho⟩
  | line _ _ _ ih ih' =>
    obtain ⟨e, he⟩ := ih
    obtain ⟨ops, ho⟩ := ih'
    obtain ⟨t, rfl, rfl, g⟩ := hg e ops
    exact ⟨_, line he ho g⟩
  | lastLine _ ih =>
    obtain ⟨e, he⟩ := ih
    exact ⟨_, lastLine he⟩
  | sequence _ ht _ ih ih' =>
    obtain ⟨e, he⟩ := ih
    obtain ⟨next, hn⟩ := ih'
    exact ⟨_, sequence he ht hn⟩
  | block hl _ hr ih =>
    obtain ⟨e, he⟩ := ih
    exact ⟨_, block hl he hr⟩
  | argument hc => exact ⟨_, argument hc⟩
  | lastArgument _ ih =>
    obtain ⟨a, ha⟩ := ih
    exact ⟨_, lastArgument ha⟩
  | moreArguments _ ht _ ih ih' =>
    obtain ⟨a, ha⟩ := ih
    obtain ⟨args, hr⟩ := ih'
    exact ⟨_, moreArguments ha ht hr⟩
  | noArguments => exact ⟨_, noArguments⟩
  | someArguments _ ih =>
    obtain ⟨args, ha⟩ := ih
    exact ⟨_, someArguments ha⟩
  | @function name type _ _ _ _ _ _ _ hl _ hr ha _ ih ih' =>
    obtain ⟨args, hp⟩ := ih
    obtain ⟨body, hb⟩ := ih'
    exact ⟨⟨name, args, type, body⟩, function hl hp hr ha hb⟩
  | functionItem _ ih =>
    obtain ⟨f, hf⟩ := ih
    exact ⟨_, functionItem hf⟩
  | @module name _ _ _ _ hl _ hr ih =>
    obtain ⟨is, hi⟩ := ih
    exact ⟨.module name is, module hl hi hr⟩
  | noItems => exact ⟨_, noItems⟩
  | moreItems _ _ ih ih' =>
    obtain ⟨i, hi⟩ := ih
    obtain ⟨is, hr⟩ := ih'
    exact ⟨_, moreItems hi hr⟩

theorem ne_endOfFile (h : Derives grouping φ ts) : ∀ t ∈ ts, t.kind ≠ .endOfFile := by
  induction h with
  | _ => simp_all [nameToken, or_imp]

end Derives

end FrontEnd
