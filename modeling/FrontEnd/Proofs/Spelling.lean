import FrontEnd.Proofs.Grammar
import FrontEnd.Proofs.Tiling

/-!
# Trees of well spelled words

Where the words of a tree come from a source, they have the shapes that the scanner gives them.

* `Token.Spelled` — names are identifiers, numbers are digits, and a character literal is one character.
  `tokens_spelled` says it of the tokens of a source.
* `Expression.Spelled`, `FunctionDecl.Spelled`, `Item.Spelled` — the same of the words of a tree.  A name
  that is an operand is moreover neither `let` nor `var`.
* `Derives.spelled` — what derives well spelled tokens is a well spelled tree.
-/

namespace FrontEnd

/-- The text has the shape of the token's kind. -/
def Token.Spelled (t : Token) : Prop :=
  match t.kind with
  | .identifier => IsIdentifier t.text.toList
  | .number => IsNumber t.text.toList
  | .char => ∃ c, t.text.toList = [c]
  | _ => True

/-- A character literal stands for one character. -/
theorem IsContent.decode {content : List Char} (h : IsContent content) :
    ∃ c, Escape.decode content = [c] := by
  cases h with
  | plain hb => exact ⟨_, Escape.decode_plain hb []⟩
  | escape => exact ⟨_, Escape.decode_escape _ []⟩

theorem Cut.spelled {kind : LexemeKind} {w rest : List Char} (h : Cut kind w rest) (n : Nat) :
    (Lexeme.token ⟨kind, w, n⟩).Spelled := by
  cases h with
  | identifier h => simpa [Lexeme.token, Token.Spelled] using h.1
  | number h => simpa [Lexeme.token, Token.Spelled] using h.1
  | symbol hk => cases hk <;> simp [Lexeme.token, Token.Spelled]
  | char h =>
      obtain ⟨c, hc⟩ := h.decode
      exact ⟨c, by simp [Lexeme.token, literalContent, hc]⟩
  | _ => simp [Lexeme.token, Token.Spelled]

theorem tokens_spelled (source : String) : ∀ t ∈ tokens source, t.Spelled := by
  intro t ht
  obtain ⟨l, after, cut, rfl⟩ := exists_cut_of_mem_tokens ht
  exact cut.spelled l.start

/-! ## Trees -/

def VariableDecl.Spelled (d : VariableDecl) : Prop :=
  IsIdentifier d.name.toList ∧ ∀ type ∈ d.typeName, IsIdentifier type.toList

/-- The words in the expression have the shapes of their kinds. -/
def Expression.Spelled : Expression → Prop
  | block inner => inner.Spelled
  | sequence first next => first.Spelled ∧ next.Spelled
  | declaration d => d.Spelled
  | binary _ left right => left.Spelled ∧ right.Spelled
  | identifier name => IsIdentifier name.toList ∧ ∀ k : Keyword, k.declares → name ≠ k.text
  | number text => IsNumber text.toList
  | char text => ∃ c, text.toList = [c]
  | string _ | empty => True

def Argument.Spelled (a : Argument) : Prop :=
  IsIdentifier a.name.toList ∧ IsIdentifier a.typeName.toList

/-- The names in the function and the words in its body have the shapes of their kinds. -/
structure FunctionDecl.Spelled (f : FunctionDecl) : Prop where
  name : IsIdentifier f.name.toList
  arguments : ∀ a ∈ f.arguments, a.Spelled
  returnType : IsIdentifier f.returnType.toList
  body : f.body.Spelled

mutual

def Item.Spelled : Item → Prop
  | .module name items => IsIdentifier name.toList ∧ SpelledItems items
  | .function f => f.Spelled

def SpelledItems : List Item → Prop
  | [] => True
  | item :: rest => item.Spelled ∧ SpelledItems rest

end

def Phrase.Spelled : Phrase → Prop
  | primary e | line e | expression e | block e => e.Spelled
  | operands ops => ∀ o ∈ ops, o.2.Spelled
  | argument a => a.Spelled
  | argumentList args | arguments args => ∀ a ∈ args, a.Spelled
  | function f => f.Spelled
  | item i => i.Spelled
  | items is => SpelledItems is

theorem OpTree.spelled_expression {tree : OpTree} (hf : tree.first.Spelled)
    (hr : ∀ o ∈ tree.rest, o.2.Spelled) : tree.expression.Spelled := by
  induction tree with
  | atom e => exact hf
  | node op l r ihl ihr =>
      simp only [rest, List.forall_mem_append, List.forall_mem_cons] at hr
      obtain ⟨hl, hf', hr⟩ := hr
      exact ⟨ihl hf hl, ihr hf' hr⟩

theorem nameToken_spelled {name : String} :
    (nameToken name).Spelled ↔ IsIdentifier name.toList := Iff.rfl

/-- **A tree is spelled as well as the tokens that it is read from.** -/
theorem Derives.spelled {grouping : OpTree → Prop} {φ : Phrase} {ts : List Token}
    (h : Derives grouping φ ts) (hts : ∀ t ∈ ts, t.Spelled) : φ.Spelled := by
  induction h with
  | empty | string => trivial
  | noOperands | noArguments => exact List.forall_mem_nil _
  | noItems => trivial
  | identifier h => exact ⟨hts _ List.mem_cons_self, h⟩
  | number | char => exact hts _ List.mem_cons_self
  | group _ _ _ ih | block _ _ _ ih =>
      simp only [List.forall_mem_cons, List.forall_mem_append] at hts
      exact ih hts.2.1
  | blockOperand _ ih | lastLine _ ih | functionItem _ ih => exact ih hts
  | declaration =>
      simp only [List.forall_mem_cons, nameToken_spelled] at hts
      exact ⟨hts.2.1, fun type htype => by cases htype⟩
  | typedDeclaration =>
      simp only [List.forall_mem_cons, nameToken_spelled] at hts
      exact ⟨hts.2.1, fun type htype => by cases htype; exact hts.2.2.2.1⟩
  | moreOperands _ _ _ ih ih' =>
      simp only [List.forall_mem_cons, List.forall_mem_append] at hts
      exact List.forall_mem_cons.2 ⟨ih hts.2.1, ih' hts.2.2⟩
  | line _ _ _ ih ih' =>
      rw [List.forall_mem_append] at hts
      exact OpTree.spelled_expression (ih hts.1) (ih' hts.2)
  | sequence _ _ _ ih ih' =>
      simp only [List.forall_mem_cons, List.forall_mem_append] at hts
      exact ⟨ih hts.1, ih' hts.2.2⟩
  | argument =>
      simp only [List.forall_mem_cons, nameToken_spelled] at hts
      exact ⟨hts.1, hts.2.2.1⟩
  | lastArgument _ ih => exact List.forall_mem_singleton.2 (ih hts)
  | moreArguments _ _ _ ih ih' =>
      simp only [List.forall_mem_cons, List.forall_mem_append] at hts
      exact List.forall_mem_cons.2 ⟨ih hts.1, ih' hts.2.2⟩
  | someArguments _ ih => exact ih hts
  | function _ _ _ _ _ ih ih' =>
      simp only [List.forall_mem_cons, List.forall_mem_append, nameToken_spelled] at hts
      obtain ⟨-, name, -, args, -, -, type, body⟩ := hts
      exact ⟨name, ih args, type, ih' body⟩
  | module _ _ _ ih =>
      simp only [List.forall_mem_cons, List.forall_mem_append, nameToken_spelled] at hts
      obtain ⟨-, name, -, items, -⟩ := hts
      exact ⟨name, ih items⟩
  | moreItems _ _ ih ih' =>
      rw [List.forall_mem_append] at hts
      exact ⟨ih hts.1, ih' hts.2⟩

end FrontEnd
