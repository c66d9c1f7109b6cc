import FrontEnd.Proofs.Recognition
import FrontEnd.Proofs.Spelling
import FrontEnd.Proofs.Writing

/-!
# Rendered trees are read back

* `Expression.nodes`, `Program.nodes` — the expressions in a tree, at whatever depth.
* `Expression.Unnested`, `Expression.Legible` — the two conditions under which an expression is written
  in the language: no sequence where the rendering has no parentheses for one, and no literal with a
  character for which the scanner has no escape.
* `Reads` — a text is read as a phrase, with one lemma a production that a rendering uses.
* `Expression.reads_render`, `FunctionDecl.reads_render`, `Item.reads_render` — renderings are read as
  the trees that they render.
* `parseProgram_render` — so a program that was parsed is parsed from its rendering again.
-/

namespace FrontEnd

/-! ## What can be written -/

/-- The expression and the expressions in it. -/
def Expression.nodes : Expression → List Expression
  | block inner => block inner :: inner.nodes
  | sequence first next => sequence first next :: (first.nodes ++ next.nodes)
  | binary op left right => binary op left right :: (left.nodes ++ right.nodes)
  | e => [e]

mutual

def Item.nodes : Item → List Expression
  | .module _ items => nodesOfItems items
  | .function f => f.body.nodes

def nodesOfItems : List Item → List Expression
  | [] => []
  | item :: rest => item.nodes ++ nodesOfItems rest

end

def Program.nodes (p : Program) : List Expression := nodesOfItems p

def Expression.isSequence : Expression → Bool
  | sequence _ _ => true
  | _ => false

/-- No sequence comes first in a sequence or is an operand. -/
def Expression.Unnested : Expression → Prop
  | sequence first _ => first.isSequence = false
  | binary _ left right => left.isSequence = false ∧ right.isSequence = false
  | _ => True

/-- Every character of the literal is shown as itself or by an escape that is read back. -/
def Expression.Legible : Expression → Prop
  | string text => ∀ c ∈ text.toList, Escape.Legible ['"'] true c
  | char text =>
    (∀ c ∈ text.toList.head?, Escape.Legible ['"', '\''] true c) ∧
      ∀ c ∈ text.toList.tail, Escape.Legible ['"', '\''] false c
  | _ => True

instance : DecidablePred Expression.Unnested
  | .sequence _ _ => inferInstanceAs (Decidable (_ = _))
  | .binary _ _ _ => inferInstanceAs (Decidable (_ ∧ _))
  | .block _ | .declaration _ | .identifier _ | .number _ | .string _ | .char _ | .empty =>
    .isTrue trivial

instance : DecidablePred Expression.Legible
  | .string text =>
    decidable_of_iff (text.toList.all fun c => decide (Escape.Legible ['"'] true c))
      (by simp [Expression.Legible])
  | .char text =>
    decidable_of_iff ((text.toList.head?.all fun c => decide (Escape.Legible ['"', '\''] true c)) ∧
        text.toList.tail.all fun c => decide (Escape.Legible ['"', '\''] false c))
      (by cases h : text.toList <;> simp [Expression.Legible, h])
  | .block _ | .declaration _ | .identifier _ | .number _ | .sequence _ _ | .binary _ _ _ | .empty =>
    .isTrue trivial

/-- The expression is written as it is read. -/
structure Expression.Writable (e : Expression) : Prop where
  unnested : e.Unnested
  legible : e.Legible

/-! ## Texts that are read as phrases -/

/-- The text is read as tokens that the phrase derives, unless its last word goes on behind it. -/
def Reads (text : String) (φ : Phrase) : Prop :=
  ∃ ts, Derives OpTree.Grouped φ ts ∧ Spells text ts

namespace Reads

variable {text text' : String} {e e' : Expression}

/-- An operand is an expression of one line. -/
theorem expression (h : Reads text (.primary e)) : Reads text (.expression e) := by
  obtain ⟨ts, derives, spells⟩ := h
  exact ⟨ts, .lastLine derives.operandLine, spells⟩

/-- Between parentheses an expression is an operand. -/
theorem group (h : Reads text (.expression e)) : Reads ("(" ++ text ++ ")") (.primary e) := by
  obtain ⟨ts, derives, spells⟩ := h
  refine ⟨_, .group (l := markToken .leftParen) (r := markToken .rightParen) rfl derives rfl, ?_⟩
  exact ((separates_leftParen.closed.spells_append spells).separated separates_rightParen).spells

theorem nothing : Reads "" (.primary .empty) := ⟨[], .empty, spells_empty⟩

theorem block (h : Reads text (.expression e)) :
    Reads ("\x7b " ++ text ++ " \x7d") (.block e) := by
  obtain ⟨ts, derives, spells⟩ := h
  have opening : Separates "\x7b " [markToken .leftBrace] := separates_mark .leftBrace
  have closing : Separates " \x7d" [markToken .rightBrace] :=
    separates_space.append separates_rightBrace.closed
  refine ⟨_, .block (l := markToken .leftBrace) (r := markToken .rightBrace) rfl derives rfl, ?_⟩
  exact ((opening.closed.spells_append spells).separated closing).spells

/-- Two operands with an operator between them are one line. -/
theorem operation (op : BinaryOperator) (h : Reads text (.primary e))
    (h' : Reads text' (.primary e')) :
    Reads (text ++ " " ++ op.text ++ " " ++ text') (.expression (.binary op e e')) := by
  obtain ⟨ts, derives, spells⟩ := h
  obtain ⟨us, derives', spells'⟩ := h'
  have grouped : (OpTree.node op (.atom e) (.atom e')).Grouped := ⟨trivial, trivial, trivial, trivial⟩
  have rest : Derives OpTree.Grouped (.operands [(op, e')]) (operatorToken op :: us) := by
    simpa using Derives.moreOperands rfl derives' .noOperands
  have before : Closed (text ++ " " ++ (op.text ++ " ")) (ts ++ [] ++ [operatorToken op]) :=
    (spells.separated separates_space).append (separates_operator op).closed
  refine ⟨_, .lastLine (.line derives rest grouped), ?_⟩
  simpa [String.append_assoc] using before.spells_append spells'

/-- An operand, a semicolon and an expression. -/
theorem sequence (h : Reads text (.primary e)) (h' : Reads text' (.expression e')) :
    Reads (text ++ "; " ++ text') (.expression (.sequence e e')) := by
  obtain ⟨ts, derives, spells⟩ := h
  obtain ⟨us, derives', spells'⟩ := h'
  have between : Separates "; " [markToken .semicolon] := separates_mark .semicolon
  refine ⟨_, .sequence (t := markToken .semicolon) derives.operandLine rfl derives', ?_⟩
  simpa using (spells.separated between).spells_append spells'

theorem items {separator : String} {item : Item} {rest : List Item}
    (hs : Separates separator []) (h : Reads text (.item item)) (h' : Reads text' (.items rest)) :
    Reads (text ++ separator ++ text') (.items (item :: rest)) := by
  obtain ⟨ts, derives, spells⟩ := h
  obtain ⟨us, derives', spells'⟩ := h'
  refine ⟨_, .moreItems derives derives', ?_⟩
  simpa using (spells.separated hs).spells_append spells'

end Reads

/-! ## Renderings -/

theorem spells_typed {name type : String} (hn : IsIdentifier name.toList)
    (ht : IsIdentifier type.toList) :
    Spells (name ++ ": " ++ type) [nameToken name, markToken .colon, nameToken type] := by
  have colon : Separates ": " [markToken .colon] := separates_mark .colon
  exact ((spells_name hn).separated colon).spells_append (spells_name ht)

theorem VariableDecl.reads_render {d : VariableDecl} (h : d.Spelled) :
    Reads d.render (.primary (.declaration d)) := by
  obtain ⟨name, typeName, isMutable⟩ := d
  obtain ⟨hn, ht⟩ := h
  obtain ⟨k, hk, hm, text⟩ : ∃ k : Keyword, k.declares ∧ (k == .kwVar) = isMutable ∧
      (if isMutable then "var " else "let ") = k.text ++ " " := by
    cases isMutable with
    | false => exact ⟨.kwLet, .inl rfl, rfl, rfl⟩
    | true => exact ⟨.kwVar, .inr rfl, rfl, rfl⟩
  subst hm
  cases typeName with
  | none =>
      refine ⟨_, .declaration hk, ?_⟩
      rw [render, text]
      exact (closed_keyword k).spells_append (spells_name hn)
  | some type =>
      refine ⟨_, .typedDeclaration (c := markToken .colon) hk rfl, ?_⟩
      have spells := (closed_keyword k).spells_append (spells_typed hn (ht type rfl))
      simp only [render, text, String.append_assoc] at spells ⊢
      exact spells

/-- **A writable expression of well spelled words is read back from its rendering.**  One that is no
sequence may even stand as an operand. -/
theorem Expression.reads_render {e : Expression} (hs : e.Spelled) (hw : ∀ x ∈ e.nodes, x.Writable) :
    Reads e.render (.expression e) ∧
      (e.isSequence = false → Reads e.render (.primary e)) := by
  have operand : ∀ {e : Expression}, Reads e.render (.primary e) →
      Reads e.render (.expression e) ∧ (e.isSequence = false → Reads e.render (.primary e)) :=
    fun h => ⟨h.expression, fun _ => h⟩
  induction e with
  | block inner ih =>
      obtain ⟨-, hw⟩ := List.forall_mem_cons.1 hw
      obtain ⟨ts, derives, spells⟩ := (ih hs hw).1.block
      exact operand ⟨ts, .blockOperand derives, spells⟩
  | sequence first next ih ih' =>
      simp only [nodes, List.forall_mem_cons, List.forall_mem_append] at hw
      obtain ⟨here, hfirst, hnext⟩ := hw
      have first := (ih hs.1 hfirst).2 here.unnested
      exact ⟨first.sequence (ih' hs.2 hnext).1, fun h => by cases h⟩
  | declaration d => exact operand (VariableDecl.reads_render hs)
  | binary op left right ih ih' =>
      simp only [nodes, List.forall_mem_cons, List.forall_mem_append] at hw
      obtain ⟨here, hl, hr⟩ := hw
      have left := (ih hs.1 hl).2 here.unnested.1
      have right := (ih' hs.2 hr).2 here.unnested.2
      refine operand ?_
      simpa only [render, String.append_assoc] using (left.operation op right).group
  | identifier name => exact operand ⟨_, .identifier hs.2, spells_name hs.1⟩
  | number text => exact operand ⟨_, .number, spells_number hs⟩
  | string text =>
      have here := hw _ List.mem_cons_self
      exact operand ⟨_, .string, (closed_quotedString here.legible).spells⟩
  | char text =>
      obtain ⟨c, hc⟩ := hs
      have here := (hw _ List.mem_cons_self).legible.1 c (by simp [hc])
      exact operand ⟨_, .char, (closed_quotedChar hc here).spells⟩
  | empty => exact operand Reads.nothing.expression.group

theorem Argument.reads_render {a : Argument} (h : a.Spelled) : Reads a.render (.argument a) :=
  ⟨_, .argument rfl, spells_typed h.1 h.2⟩

theorem reads_arguments {args : List Argument} (h : ∀ a ∈ args, a.Spelled) :
    Reads (joinWith ", " (args.map Argument.render)) (.arguments args) := by
  have list : ∀ (a : Argument) (args : List Argument), (∀ b ∈ a :: args, b.Spelled) →
      Reads (joinWith ", " ((a :: args).map Argument.render)) (.argumentList (a :: args)) := by
    intro a args
    induction args generalizing a with
    | nil =>
        intro h
        obtain ⟨ts, derives, spells⟩ := Argument.reads_render (h a List.mem_cons_self)
        exact ⟨ts, .lastArgument derives, spells⟩
    | cons b args ih =>
        intro h
        obtain ⟨ha, hargs⟩ := List.forall_mem_cons.1 h
        obtain ⟨ts, derives, spells⟩ := Argument.reads_render ha
        obtain ⟨us, derives', spells'⟩ := ih b hargs
        have comma : Separates ", " [markToken .comma] := separates_mark .comma
        refine ⟨_, .moreArguments (t := markToken .comma) derives rfl derives', ?_⟩
        simpa [joinWith] using (spells.separated comma).spells_append spells'
  cases args with
  | nil => exact ⟨[], .noArguments, spells_empty⟩
  | cons a args =>
      obtain ⟨ts, derives, spells⟩ := list a args h
      exact ⟨ts, .someArguments derives, spells⟩

theorem FunctionDecl.reads_render {f : FunctionDecl} (hs : f.Spelled)
    (hw : ∀ x ∈ f.body.nodes, x.Writable) : Reads f.render (.function f) := by
  obtain ⟨ts, derives, args⟩ := reads_arguments hs.arguments
  obtain ⟨us, derives', body⟩ := (Expression.reads_render hs.body hw).1.block
  have arrow : Separates ") -> " [markToken .rightParen, markToken .arrow] :=
    separates_rightParen.append (separates_space.append (separates_mark .arrow).closed).closed
  have fn : Closed "fn " [nameToken Keyword.kwFn.text] := closed_keyword .kwFn
  have opening := (fn.spells_append (spells_name hs.name)).separated separates_leftParen
  have header := (opening.spells_append args).separated arrow
  have type := (header.spells_append (spells_name hs.returnType)).separated separates_space
  refine ⟨_, .function (l := markToken .leftParen) (r := markToken .rightParen)
    (a := markToken .arrow) rfl derives rfl rfl derives', ?_⟩
  simpa [render, Expression.render] using type.spells_append body

mutual

theorem Item.reads_render : (item : Item) → item.Spelled → (∀ x ∈ item.nodes, x.Writable) →
    Reads item.render (.item item)
  | .function f, hs, hw => by
    obtain ⟨ts, derives, spells⟩ := FunctionDecl.reads_render hs hw
    exact ⟨ts, .functionItem derives, spells⟩
  | .module name items, hs, hw => by
    obtain ⟨ts, derives, spells⟩ := reads_items separates_space items hs.2 hw
    have opening : Separates " \x7b " [markToken .leftBrace] :=
      separates_space.append (separates_mark .leftBrace).closed
    have closing : Separates " \x7d" [markToken .rightBrace] :=
      separates_space.append separates_rightBrace.closed
    have module : Closed "module " [nameToken Keyword.kwModule.text] := closed_keyword .kwModule
    have header := (module.spells_append (spells_name hs.1)).separated opening
    refine ⟨_, .module (l := markToken .leftBrace) (r := markToken .rightBrace) rfl derives rfl, ?_⟩
    simpa [Item.render] using ((header.spells_append spells).separated closing).spells

theorem reads_items {separator : String} (separates : Separates separator []) :
    (items : List Item) → SpelledItems items → (∀ x ∈ nodesOfItems items, x.Writable) →
    Reads (joinWith separator (renderItems items)) (.items items)
  | [], _, _ => ⟨[], .noItems, spells_empty⟩
  | [item], hs, hw => by
    obtain ⟨ts, derives, spells⟩ :=
      Item.reads_render item hs.1 fun x hx => hw x (List.mem_append_left _ hx)
    refine ⟨_, .moreItems derives .noItems, ?_⟩
    simpa [renderItems, joinWith] using spells
  | item :: next :: rest, hs, hw => by
    have first := Item.reads_render item hs.1 fun x hx => hw x (List.mem_append_left _ hx)
    have others := reads_items separates (next :: rest) hs.2 fun x hx =>
      hw x (List.mem_append_right _ hx)
    exact first.items separates others

end

/-! ## Programs -/

/-- The tokens of a rendering derive the program that was rendered. -/
theorem derives_render {p : Program} (hs : SpelledItems p) (hw : ∀ x ∈ p.nodes, x.Writable) :
    Derives OpTree.Grouped (.items p) (tokens p.render) := by
  obtain ⟨ts, derives, spells⟩ := reads_items separates_lineFeed p hs hw
  have all : tokenize (p.render.toList ++ []) = ts ++ tokenize [] := spells [] (by simp [Stops])
  have nil : tokenize [] = [] := by simp [tokenize, scanFrom]
  rw [nil, List.append_nil, List.append_nil] at all
  show Derives OpTree.Grouped (.items p) (tokenize p.render.toList)
  rwa [all]

/-- A program that was parsed is well spelled. -/
theorem spelled_of_parsed {source : String} {sink : Sink} {p : Program}
    (h : (parseProgram source sink).1 = .ok p) : SpelledItems p := by
  rw [parseProgram_fst, Session.run_eq_ok_iff] at h
  exact (program_done_iff.1 h).spelled (tokens_spelled source)

/-- What was parsed is parsed again from its rendering. -/
theorem parseProgram_render_of_ok {source : String} {sink : Sink} {p : Program}
    (h : (parseProgram source sink).1 = .ok p) (unnested : ∀ e ∈ p.nodes, e.Unnested)
    (legible : ∀ e ∈ p.nodes, e.Legible) (sink' : Sink) :
    (parseProgram p.render sink').1 = .ok p ∧ (parseProgram p.render sink').2.sink = sink' := by
  have derives := derives_render (spelled_of_parsed h) fun e he => ⟨unnested e he, legible e he⟩
  obtain ⟨s, hs⟩ := program_done_iff.2 derives
  rw [parseProgram_of_done hs]
  exact ⟨rfl, rfl⟩

/-- **A program is read back from its rendering.**  Where a program was parsed in which no sequence
comes first in a sequence or is an operand, and in which every character of a literal is shown as
itself or by an escape of the language, its rendering is parsed into the same program, and nothing is
written to the sink.  So two such programs with one rendering are the same. -/
theorem parseProgram_render {source : String} {sink : Sink} {p : Program}
    (h : (parseProgram source sink).1 = .ok p) (unnested : ∀ e ∈ p.nodes, e.Unnested)
    (legible : ∀ e ∈ p.nodes, e.Legible) :
    (∀ sink', (parseProgram p.render sink').1 = .ok p ∧
      (parseProgram p.render sink').2.sink = sink') ∧
    ∀ source' sink' q, (parseProgram source' sink').1 = .ok q → (∀ e ∈ q.nodes, e.Unnested) →
      (∀ e ∈ q.nodes, e.Legible) → q.render = p.render → q = p := by
  refine ⟨parseProgram_render_of_ok h unnested legible, ?_⟩
  intro source' sink' q h' unnested' legible' same
  have hp := (parseProgram_render_of_ok h unnested legible sink).1
  have hq := (parseProgram_render_of_ok h' unnested' legible' sink).1
  rw [same, hp] at hq
  exact (Except.ok.inj hq).symm

/-- A module with a function that declares a variable and then has a string with escapes. -/
def greeting : Program :=
  [.module "m" [.function ⟨"f", [⟨"a", "t"⟩], "u",
    .sequence
      (.binary .define (.declaration ⟨"x", some "t", false⟩)
        (.binary .times (.binary .plus (.identifier "a") (.char "'")) .empty))
      (.block (.string "say \"hi\"\n"))⟩]]

/-- A program with operators, a block, an empty operand and both kinds of literals. -/
theorem parseProgram_render_greeting :
    (parseProgram greeting.render (.empty (some 0))).1 = .ok greeting ∧
      (parseProgram greeting.render (.empty (some 0))).2.sink = .empty (some 0) := by
  have h : (parseProgram ("module m \x7b fn f(a: t) -> u \x7b let x: t := (a + '\\'') *; " ++
      "\x7b \"say \\\"hi\\\"\\n\" \x7d \x7d \x7d") (.empty none)).1 = .ok greeting := by decide +kernel
  exact (parseProgram_render h (by decide) (by decide +kernel)).1 (.empty (some 0))

end FrontEnd
