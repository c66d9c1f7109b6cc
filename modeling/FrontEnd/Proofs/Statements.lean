import FrontEnd.Proofs.Confinement
import FrontEnd.Proofs.Soundness

/-!
# What stands in a block

The statements of an expression are the parts before its semicolons.  Lowering the expression puts their
values into the block around it, in the order in which they are evaluated, and a nested block keeps its
own statements for itself.

* `Expression.evaluation` — the parts of an expression in the order in which they are evaluated, each with
  the draft in which it is lowered; `evaluation_at` says that every part occurs there once.
* `Expression.statements` — the values of the statements, in this order.
* `agrees_evaluation` — who agrees with a lowered expression agrees with all of its parts.
* `Parse.BlockLines` — a block of the source with its lines; `block_lines` says that every parsed block is
  one.  A line without a semicolon outside of braces has no statement (`SourceLine.Plain.statements`).
* `Workbench.Run.lowerExpression_statements` — what is put into the current block and into each of the
  nested ones.
-/

namespace FrontEnd

open Hir

/-! ## The order of evaluation -/

/-- One step from an expression to a part of it. -/
inductive Branch
  | inner
  | first
  | next
  | left
  | right
deriving DecidableEq, Repr

/-- A part of an expression at the time when it is lowered. -/
structure Evaluation where
  /-- the way from the expression to the part -/
  position : List Branch
  part : Expression
  /-- the draft in which the part is lowered -/
  draft : Draft

namespace Evaluation

def value (x : Evaluation) : Ref := (x.part.lower x.draft).1

/-- The part seen from one expression further out. -/
def behind (branch : Branch) (x : Evaluation) : Evaluation :=
  { x with position := branch :: x.position }

@[simp] theorem position_behind (branch : Branch) (x : Evaluation) :
    (x.behind branch).position = branch :: x.position := rfl

@[simp] theorem part_behind (branch : Branch) (x : Evaluation) :
    (x.behind branch).part = x.part := rfl

@[simp] theorem value_behind (branch : Branch) (x : Evaluation) :
    (x.behind branch).value = x.value := rfl

/-- The part stands before a semicolon, and no block encloses it. -/
def isStatement (x : Evaluation) : Bool :=
  x.position.getLast? == some .first && !x.position.contains .inner

def statementValues (xs : List Evaluation) : List Ref := (xs.filter (·.isStatement)).map (·.value)

@[simp] theorem statementValues_append (xs ys : List Evaluation) :
    statementValues (xs ++ ys) = statementValues xs ++ statementValues ys := by
  simp [statementValues]

@[simp] theorem statementValues_self (e : Expression) (b : Draft) :
    statementValues [⟨[], e, b⟩] = [] := rfl

/-- No statement of a block is one of the expression around. -/
theorem statementValues_inner (xs : List Evaluation) :
    statementValues (xs.map (·.behind .inner)) = [] := by
  simp [statementValues, isStatement]

/-- A proper part is a statement of the expression around as soon as it is one of its own. -/
theorem isStatement_behind {branch : Branch} (hb : branch ≠ .inner) {x : Evaluation}
    (hx : x.position ≠ []) : (x.behind branch).isStatement = x.isStatement := by
  obtain ⟨step, position, hp⟩ := List.exists_cons_of_ne_nil hx
  cases branch <;> simp_all [isStatement]

/-- The statements among proper parts that are seen from further out. -/
theorem statementValues_behind {branch : Branch} (hb : branch ≠ .inner) {xs : List Evaluation}
    (hx : ∀ x ∈ xs, x.position ≠ []) :
    statementValues (xs.map (·.behind branch)) = statementValues xs := by
  induction xs with
  | nil => rfl
  | cons x xs ih =>
      have rest := ih fun y hy => hx y (List.mem_cons_of_mem x hy)
      have same := isStatement_behind hb (hx x List.mem_cons_self)
      cases h : x.isStatement <;> simp_all [statementValues]

end Evaluation

open Evaluation (statementValues statementValues_behind)

namespace Expression

/-- The part of an expression that stands at a position. -/
def part? : Expression → List Branch → Option Expression
  | e, [] => some e
  | block inner, .inner :: position => inner.part? position
  | sequence first _, .first :: position => first.part? position
  | sequence _ next, .next :: position => next.part? position
  | binary _ left _, .left :: position => left.part? position
  | binary _ _ right, .right :: position => right.part? position
  | _, _ => none

/-- The parts of an expression in the order in which they are evaluated.  An assignment evaluates its
right operand first, every other operator the left one. -/
def evaluation : Expression → Draft → List Evaluation
  | block inner, b => (inner.evaluation b.openBlock).map (·.behind .inner) ++ [⟨[], block inner, b⟩]
  | sequence first next, b =>
    (first.evaluation b).map (·.behind .first) ++
      (next.evaluation ((first.lower b).2.append (first.lower b).1)).map (·.behind .next) ++
      [⟨[], sequence first next, b⟩]
  | binary op left right, b =>
    if op.isAssignment then
      (right.evaluation b).map (·.behind .right) ++
        (left.evaluation (right.lower b).2).map (·.behind .left) ++ [⟨[], binary op left right, b⟩]
    else
      (left.evaluation b).map (·.behind .left) ++
        (right.evaluation (left.lower b).2).map (·.behind .right) ++ [⟨[], binary op left right, b⟩]
  | e, b => [⟨[], e, b⟩]

/-- The values of the statements of an expression, in the order in which they are evaluated. -/
def statements (e : Expression) (b : Draft) : List Ref :=
  statementValues (e.evaluation b)

/-- Who is seen from further out at a position stands one step behind it. -/
theorem parts_behind (branch branch' : Branch) (position : List Branch) (xs : List Evaluation) :
    ((xs.map (·.behind branch)).filter (·.position = branch' :: position)).map (·.part) =
      if branch = branch' then (xs.filter (·.position = position)).map (·.part) else [] := by
  rw [List.filter_map, List.map_map]
  by_cases h : branch = branch' <;> simp [Function.comp_def, h]

theorem parts_behind_nil (branch : Branch) (xs : List Evaluation) :
    (xs.map (·.behind branch)).filter (·.position = []) = [] := by
  simp

/-- **Every part of an expression is evaluated once.** -/
theorem evaluation_at (e : Expression) (b : Draft) (position : List Branch) :
    ((e.evaluation b).filter (·.position = position)).map (·.part) = (e.part? position).toList := by
  induction e generalizing b position with
  | block inner ih =>
      cases position with
      | nil => simp [evaluation, part?, parts_behind_nil]
      | cons branch position =>
          cases branch <;> simp [evaluation, part?, parts_behind, ih]
  | sequence first next ih ih' =>
      cases position with
      | nil => simp [evaluation, part?, parts_behind_nil]
      | cons branch position =>
          cases branch <;> simp [evaluation, part?, parts_behind, ih, ih']
  | binary op left right ih ih' =>
      cases position with
      | nil => cases h : op.isAssignment <;> simp [evaluation, part?, parts_behind_nil, h]
      | cons branch position =>
          cases h : op.isAssignment <;> cases branch <;>
            simp [evaluation, part?, parts_behind, h, ih, ih']
  | _ => cases position <;> simp [evaluation, part?]

theorem evaluation_eq_concat (e : Expression) (b : Draft) :
    ∃ parts, e.evaluation b = parts ++ [⟨[], e, b⟩] ∧ ∀ x ∈ parts, x.position ≠ [] := by
  cases e with
  | binary op left right =>
      unfold evaluation
      split <;> exact ⟨_, rfl, by simp [or_imp, forall_and]⟩
  | block inner => exact ⟨_, rfl, by simp⟩
  | sequence first next => exact ⟨_, rfl, by simp [or_imp, forall_and]⟩
  | _ => exact ⟨[], rfl, by simp⟩

/-! ## Statements -/

/-- The expression before a semicolon is a statement behind its own ones. -/
theorem statementValues_first (e : Expression) (b : Draft) :
    statementValues ((e.evaluation b).map (·.behind .first)) = e.statements b ++ [(e.lower b).1] := by
  obtain ⟨parts, he, hp⟩ := e.evaluation_eq_concat b
  have own := statementValues_behind (show Branch.first ≠ .inner by decide) hp
  have last : statementValues [Evaluation.behind .first ⟨[], e, b⟩] = [(e.lower b).1] := rfl
  simp [statements, he, own, last]

/-- Every other part of an operator or of a semicolon leaves its statements as they are. -/
theorem statementValues_part {branch : Branch} (hb : branch ≠ .inner) (hf : branch ≠ .first)
    (e : Expression) (b : Draft) :
    statementValues ((e.evaluation b).map (·.behind branch)) = e.statements b := by
  obtain ⟨parts, he, hp⟩ := e.evaluation_eq_concat b
  have own := statementValues_behind hb hp
  have none : statementValues [Evaluation.behind branch ⟨[], e, b⟩] = [] := by
    simp [statementValues, Evaluation.isStatement, hf]
  simp [statements, he, own, none]

/-- **The values that lowering an expression puts into the block around it are those of its statements.** -/
theorem spilled_eq (e : Expression) (b : Draft) : e.spilled b = e.statements b := by
  induction e generalizing b with
  | block inner ih => simp [spilled, statements, evaluation, Evaluation.statementValues_inner]
  | sequence first next ih ih' =>
      have behind := statementValues_part (show Branch.next ≠ .inner by decide) (by decide) next
      simp [spilled, statements, evaluation, statementValues_first, behind, ih, ih']
  | binary op left right ih ih' =>
      have atLeft := statementValues_part (show Branch.left ≠ .inner by decide) (by decide) left
      have atRight := statementValues_part (show Branch.right ≠ .inner by decide) (by decide) right
      cases h : op.isAssignment <;>
        simp [spilled, statements, evaluation, atLeft, atRight, h, ih, ih']
  | _ => rfl

end Expression

/-! ## Nested blocks -/

namespace Hir.Draft

variable {f : Function} {b : Draft}

/-- The part is lowered in a draft that has stored the block at work, and the function agrees with what
was added for it. -/
structure Agreed (f : Function) (x : Evaluation) : Prop where
  current_lt : x.draft.current.value < x.draft.function.values.size
  agrees : Agrees f x.draft.function.values.size (x.part.lower x.draft).2

/-- **Who agrees with a lowered expression agrees with all of its parts.** -/
theorem agrees_evaluation (e : Expression) (b : Draft) (h : Agreed f ⟨[], e, b⟩) :
    ∀ x ∈ e.evaluation b, Agreed f x := by
  -- seen from further out a part is lowered in the same draft
  have out : ∀ {branch : Branch} {xs : List Evaluation}, (∀ x ∈ xs, Agreed f x) →
      ∀ x ∈ xs.map (·.behind branch), Agreed f x := by
    intro branch xs hxs x hx
    obtain ⟨y, hy, rfl⟩ := List.mem_map.1 hx
    exact ⟨(hxs y hy).current_lt, (hxs y hy).agrees⟩
  induction e generalizing b with
  | block inner ih =>
      have inside := ih b.openBlock ⟨current_lt_openBlock b, h.agrees.inner⟩
      exact List.forall_mem_append.2 ⟨out inside, List.forall_mem_singleton.2 h⟩
  | sequence first next ih ih' =>
      have before := ih b ⟨h.current_lt, h.agrees.first h.current_lt⟩
      have behind := ih' _
        ⟨current_lt_append _ (current_lt_lower first h.current_lt), h.agrees.next⟩
      exact List.forall_mem_append.2 ⟨List.forall_mem_append.2 ⟨out before, out behind⟩,
        List.forall_mem_singleton.2 h⟩
  | binary op left right ih ih' =>
      have hb := h.current_lt
      have hf := h.agrees
      unfold Expression.evaluation
      simp only [Expression.lower] at hf
      split <;> rename_i ho
      · rw [if_pos ho] at hf
        obtain ⟨hr, hl⟩ := hf.operands hb
        have atRight := ih' b ⟨hb, hr⟩
        have atLeft := ih _ ⟨current_lt_lower right hb, hl⟩
        exact List.forall_mem_append.2 ⟨List.forall_mem_append.2 ⟨out atRight, out atLeft⟩,
          List.forall_mem_singleton.2 h⟩
      · rw [if_neg ho] at hf
        obtain ⟨hl, hr⟩ := hf.operands hb
        have atLeft := ih b ⟨hb, hl⟩
        have atRight := ih' _ ⟨current_lt_lower left hb, hr⟩
        exact List.forall_mem_append.2 ⟨List.forall_mem_append.2 ⟨out atLeft, out atRight⟩,
          List.forall_mem_singleton.2 h⟩
  | _ => exact List.forall_mem_singleton.2 h

/-- A block that was lowered for an expression holds the values of its statements, and behind them its own
value. -/
theorem Agreed.block {x : Evaluation} {inner : Expression} (h : Agreed f x)
    (hx : x.part = .block inner) :
    ∃ id scope, x.value = .slot id ∧ f.values[id]? = some ⟨.block scope
      (inner.statements x.draft.openBlock ++ [(inner.lower x.draft.openBlock).1]).toArray, none⟩ := by
  obtain ⟨position, part, b⟩ := x
  obtain rfl : part = .block inner := hx
  have agrees := h.agrees
  have stored := value_block inner b
  rw [inner.spilled_eq] at stored
  rw [lower_block] at agrees
  refine ⟨b.function.values.size, b.function.scopes.size, ?_, agrees _ _ (Nat.le_refl _) stored⟩
  exact congrArg Prod.fst (lower_block inner b)

end Hir.Draft

/-! ## Lines -/

namespace Expression

/-- No semicolon stands in the expression, but for those inside of blocks. -/
def isPlain : Expression → Bool
  | sequence _ _ => false
  | binary _ left right => left.isPlain && right.isPlain
  | _ => true

theorem statements_of_isPlain {e : Expression} (h : e.isPlain) (b : Draft) : e.statements b = [] := by
  rw [← spilled_eq]
  induction e generalizing b with
  | binary op left right ih ih' =>
      simp only [isPlain, Bool.and_eq_true] at h
      simp [spilled, ih h.1, ih' h.2]
  | sequence first next => cases h
  | _ => rfl

/-- Lines with semicolons between them. -/
def ofLines : List Expression → Expression
  | [] => .empty
  | [e] => e
  | e :: rest => .sequence e (ofLines rest)

/-- The values of lines that are lowered one after the other, each put into the block behind the one
before it. -/
def lineValues : List Expression → Draft → List Ref
  | [], _ => []
  | e :: rest, b => (e.lower b).1 :: lineValues rest ((e.lower b).2.append (e.lower b).1)

theorem length_lineValues (lines : List Expression) (b : Draft) :
    (lineValues lines b).length = lines.length := by
  induction lines generalizing b with
  | nil => rfl
  | cons e rest ih => simp [lineValues, ih]

/-- Plain lines have their values for statements, the last one apart, which is the value of all. -/
theorem statements_ofLines {lines : List Expression} (hne : lines ≠ [])
    (hp : ∀ e ∈ lines, e.isPlain) (b : Draft) :
    (ofLines lines).statements b ++ [((ofLines lines).lower b).1] = lineValues lines b := by
  induction lines generalizing b with
  | nil => exact absurd rfl hne
  | cons e rest ih =>
      have own := statements_of_isPlain (hp e List.mem_cons_self)
      cases rest with
      | nil => simp [ofLines, lineValues, own]
      | cons e' rest =>
          have behind := ih (by simp) (fun x hx => hp x (List.mem_cons_of_mem e hx))
            ((e.lower b).2.append (e.lower b).1)
          simp only [← spilled_eq] at own behind ⊢
          rw [lineValues, ← behind]
          simp [ofLines, spilled, own, lower]

end Expression

/-! ## Lines of the source -/

/-- The tokens that stand outside of all braces, when so many are open at the start. -/
def outsideBraces : Nat → List Token → List Token
  | _, [] => []
  | depth, t :: ts =>
    if t.kind = .mark .leftBrace then outsideBraces (depth + 1) ts
    else if t.kind = .mark .rightBrace then outsideBraces (depth - 1) ts
    else if depth = 0 then t :: outsideBraces 0 ts
    else outsideBraces depth ts

/-- No semicolon stands in the tokens outside of all braces. -/
def PlainTokens (ts : List Token) : Prop := ∀ t ∈ outsideBraces 0 ts, t.kind ≠ .mark .semicolon

namespace Derives

variable {grouping : OpTree → Prop} {φ : Phrase} {ts : List Token}

/-- What is derived closes all the braces that it opens: inside of others it adds nothing that stands
outside of all. -/
theorem outsideBraces_append (h : Derives grouping φ ts) (depth : Nat) (rest : List Token) :
    outsideBraces depth (ts ++ rest) =
      (if depth = 0 then outsideBraces 0 ts else []) ++ outsideBraces depth rest := by
  induction h generalizing depth rest with
  | _ => by_cases hd : depth = 0 <;> simp_all [outsideBraces, nameToken]

theorem plainTokens_append {us : List Token} (h : Derives grouping φ ts) :
    PlainTokens (ts ++ us) ↔ PlainTokens ts ∧ PlainTokens us := by
  simp [PlainTokens, h.outsideBraces_append, or_imp, forall_and]

end Derives

/-- No semicolon stands in the trees of the phrase, but for those inside of blocks. -/
def Phrase.Plain : Phrase → Prop
  | primary e | line e | expression e => e.isPlain
  | operands ops => ∀ x ∈ ops, x.2.isPlain
  | _ => True

theorem OpTree.isPlain_expression {t : OpTree} (first : t.first.isPlain)
    (rest : ∀ x ∈ t.rest, x.2.isPlain) : t.expression.isPlain := by
  induction t with
  | atom e => exact first
  | node op l r ihl ihr =>
      simp only [OpTree.rest, List.forall_mem_append, List.forall_mem_cons] at rest
      simp [OpTree.expression, Expression.isPlain, ihl first rest.1, ihr rest.2.1 rest.2.2]

/-- **Plain tokens are derived from plain trees.** -/
theorem Derives.plain {grouping : OpTree → Prop} {φ : Phrase} {ts : List Token}
    (h : Derives grouping φ ts) (hp : PlainTokens ts) : φ.Plain := by
  induction h with
  | @group e ts l r hl inner hr ih =>
      simp [PlainTokens, outsideBraces, hl, inner.outsideBraces_append, or_imp, forall_and] at hp
      exact ih hp.1
  | @moreOperands t op e ops ts us ht operand tail ih ih' =>
      simp only [PlainTokens, outsideBraces, ht, reduceCtorEq, if_false, if_true,
        List.forall_mem_cons] at hp
      obtain ⟨-, rest⟩ := hp
      obtain ⟨plain, plain'⟩ := operand.plainTokens_append.1 rest
      exact List.forall_mem_cons.2 ⟨ih plain, ih' plain'⟩
  | line first rest _ ih ih' =>
      obtain ⟨plain, plain'⟩ := first.plainTokens_append.1 hp
      exact OpTree.isPlain_expression (ih plain) (ih' plain')
  | lastLine _ ih => exact ih hp
  | @sequence e next ts us t first ht rest =>
      -- the semicolon between two lines stands outside of all braces
      obtain ⟨-, plain⟩ := first.plainTokens_append.1 hp
      refine absurd ht (plain t ?_)
      simp [outsideBraces, ht]
  | blockOperand | empty | identifier | number | string | char | declaration | typedDeclaration =>
      exact rfl
  | noOperands => exact fun x hx => absurd hx List.not_mem_nil
  | _ => trivial

namespace Parse

/-- A line of the source: its tokens, and the tree that is parsed from them. -/
structure SourceLine where
  tokens : List Token
  tree : Expression

/-- The line parser reads the lines one after the other, with semicolons between them. -/
inductive Lines : Reader → List SourceLine → Reader → Prop
  | last {r s : Reader} {l : SourceLine} (parsed : line r = .done l.tree s)
    (derived : Derives OpTree.Grouped (.line l.tree) l.tokens) (taken : r.Takes l.tokens s)
    (stop : s.peek.1.kind ≠ .mark .semicolon) : Lines r [l] s.peek.2
  | more {r s q : Reader} {l : SourceLine} {lines : List SourceLine}
    (parsed : line r = .done l.tree s) (derived : Derives OpTree.Grouped (.line l.tree) l.tokens)
    (taken : r.Takes l.tokens s) (semicolon : s.peek.1.kind = .mark .semicolon)
    (rest : Lines s.peek.2.skip lines q) : Lines r (l :: lines) q

variable {r s : Reader} {e : Expression} {lines : List SourceLine}

/-- An expression is parsed line by line. -/
theorem expression_lines {r s : Reader} {e : Expression} (h : expression r = .done e s) :
    ∃ lines, Lines r lines s ∧ e = .ofLines (lines.map (·.tree)) := by
  rw [expression_eq] at h
  obtain ⟨first, r₁, hline, h⟩ := Outcome.bind_eq_done.1 h
  obtain ⟨ts, derived, taken⟩ := line_sound hline
  have hle := remaining_of_done hline (line_leaves r)
  split at h
  · rename_i hk
    have hlt := Reader.remaining_skip_peek (r := r₁) (by simp [hk])
    obtain ⟨next, hnext, rfl⟩ := Outcome.map_eq_done.1 h
    obtain ⟨lines, read, rfl⟩ := expression_lines hnext
    refine ⟨⟨ts, first⟩ :: lines, .more hline derived taken hk read, ?_⟩
    cases read <;> rfl
  · rename_i hk
    cases h
    exact ⟨[⟨ts, e⟩], .last hline derived taken hk, rfl⟩
termination_by r.remaining

/-- Between a left and a right brace stand these lines. -/
def BlockLines (r : Reader) (lines : List SourceLine) (s : Reader) : Prop :=
  ∃ r₁ r₂, expectMark .leftBrace r = .done () r₁ ∧ Lines r₁ lines r₂ ∧
    expectMark .rightBrace r₂ = .done () s

/-- **A parsed block is one of lines.** -/
theorem block_lines (h : block r = .done e s) :
    ∃ lines, BlockLines r lines s ∧ e = .ofLines (lines.map (·.tree)) := by
  rw [block_eq] at h
  obtain ⟨_, r₁, opened, h⟩ := Outcome.bind_eq_done.1 h
  obtain ⟨inner, r₂, hinner, h⟩ := Outcome.bind_eq_done.1 h
  obtain ⟨_, closed, rfl⟩ := Outcome.map_eq_done.1 h
  obtain ⟨lines, read, he⟩ := expression_lines hinner
  exact ⟨lines, ⟨r₁, r₂, opened, read, closed⟩, he⟩

theorem Lines.ne_nil (h : Lines r lines s) : lines ≠ [] := by
  cases h <;> simp

theorem Lines.isPlain (h : Lines r lines s) (hp : ∀ l ∈ lines, PlainTokens l.tokens) :
    ∀ l ∈ lines, l.tree.isPlain := by
  induction h with
  | last _ derived _ _ =>
      exact List.forall_mem_singleton.2 (derived.plain (hp _ List.mem_cons_self))
  | more _ derived _ _ _ ih =>
      obtain ⟨plain, rest⟩ := List.forall_mem_cons.1 hp
      exact List.forall_mem_cons.2 ⟨derived.plain plain, ih rest⟩

end Parse

/-! ## Runs -/

namespace Hir

/-- Lowering an expression puts the values of its statements behind what stood in the current block. -/
theorem Draft.WellFormed.statements_lower {b : Draft} (h : b.WellFormed) (e : Expression) :
    ∃ scope instructions type,
      b.function.values[b.current.value]? = some ⟨.block scope instructions, type⟩ ∧
      (e.lower b).2.function.values[b.current.value]? =
        some ⟨.block scope (instructions ++ (e.statements b).toArray), type⟩ := by
  obtain ⟨instructions, _, type, stored, -⟩ := h.block_lower e
  refine ⟨b.current.scope, instructions, type, stored, ?_⟩
  rw [Draft.value_lower e b _ stored, Value.foldl_append, e.spilled_eq]
  congr 3
  simp

/-- **What stands in a block are the statements in the order of their evaluation.**  In every function that
a run of commands has under construction, lowering an expression puts into the current block the values of
its statements and nothing else.  Every block inside it, however deep, holds the values of its own
statements and behind them its value, which is the unit value where nothing stands.  A parsed block all of
whose lines have their semicolons inside of braces holds the values of its lines, one for each. -/
theorem Workbench.Run.lowerExpression_statements {w : Workbench} {handed : List Ref} {b : Draft}
    (h : Run w handed) (hb : w.function = some b) (e : Expression) :
    ∃ b', w.perform (.lowerExpression e) = (.value (e.lower b).1, { w with function := some b' }) ∧
      (∀ position, ((e.evaluation b).filter (·.position = position)).map (·.part) =
        (e.part? position).toList) ∧
      (∃ scope instructions type,
        b.function.values[b.current.value]? = some ⟨.block scope instructions, type⟩ ∧
        b'.function.values[b.current.value]? =
          some ⟨.block scope (instructions ++ (e.statements b).toArray), type⟩) ∧
      ∀ x ∈ e.evaluation b, (x.part = .empty → x.value = .unit) ∧
        ∀ inner, x.part = .block inner → ∃ id scope contents, x.value = .slot id ∧
          b'.function.values[id]? = some ⟨.block scope contents, none⟩ ∧
          contents.toList =
            inner.statements x.draft.openBlock ++ [(inner.lower x.draft.openBlock).1] ∧
          ∀ r s, Parse.block r = .done inner s →
            ∃ lines, Parse.BlockLines r lines s ∧ inner = .ofLines (lines.map (·.tree)) ∧
              ((∀ l ∈ lines, PlainTokens l.tokens) →
                contents.toList = Expression.lineValues (lines.map (·.tree)) x.draft.openBlock ∧
                contents.size = lines.length) := by
  have wellFormed := h.wellFormed.1.function b hb
  have performed : w.perform (.lowerExpression e) =
      (.value (e.lower b).1, { w with function := some (e.lower b).2 }) := by
    unfold perform
    rw [hb]
    rfl
  obtain ⟨scope, instructions, type, stored, added⟩ := wellFormed.statements_lower e
  refine ⟨(e.lower b).2, performed, e.evaluation_at b, ⟨scope, instructions, type, stored, added⟩, ?_⟩
  have whole : Draft.Agreed (e.lower b).2.function ⟨[], e, b⟩ :=
    ⟨(Array.getElem?_eq_some_iff.1 stored).1, fun _ _ _ hv => hv⟩
  intro x hx
  refine ⟨?_, fun inner hinner => ?_⟩
  · intro empty
    unfold Evaluation.value
    rw [empty]
    rfl
  · obtain ⟨id, scope', hid, contents⟩ := (Draft.agrees_evaluation e b whole x hx).block hinner
    refine ⟨id, scope', _, hid, contents, rfl, fun r s parsed => ?_⟩
    obtain ⟨lines, ⟨r₁, r₂, opened, between, closed⟩, rfl⟩ := Parse.block_lines parsed
    refine ⟨lines, ⟨r₁, r₂, opened, between, closed⟩, rfl, fun plain => ?_⟩
    have trees : ∀ e ∈ lines.map (·.tree), e.isPlain := by simpa using between.isPlain plain
    have values := Expression.statements_ofLines (by simpa using between.ne_nil) trees
      x.draft.openBlock
    rw [← values]
    refine ⟨rfl, ?_⟩
    have size := congrArg List.length values
    simpa [Expression.length_lineValues] using size

/-- `1; { let x; { x; x } }` in an empty function: the number is the statement of the root block, and of
the two parsed blocks each holds two lines. -/
theorem Workbench.Run.lowerExpression_statements_nested :
    let inner : Expression := .sequence (.declaration ⟨"x", none, false⟩)
      (.block (.sequence (.identifier "x") (.identifier "x")))
    ∃ (w : Workbench) (handed : List Ref) (b b' : Draft) (s : Reader), Run w handed ∧
      w.function = some b ∧ Parse.block (.ofSource "\x7b let x; \x7b x; x \x7d \x7d") = .done inner s ∧
      (w.perform (.lowerExpression (.sequence (.number "1") (.block inner)))).2.function = some b' ∧
      b'.function.values[0]? = some ⟨.block 0 #[.slot 1], none⟩ ∧
      b'.function.values[2]? = some ⟨.block 1 #[.slot 3, .slot 4], none⟩ ∧
      b'.function.values[4]? = some ⟨.block 2 #[.slot 3, .slot 3], none⟩ := by
  intro inner
  have started := ((Run.fresh #[]).step .enterRoot (by decide)).step (.enterFunction "f") (by decide)
  obtain ⟨b', performed, -⟩ := started.lowerExpression_statements rfl
    (.sequence (.number "1") (.block inner))
  have parsed : ∃ s, Parse.block (.ofSource "\x7b let x; \x7b x; x \x7d \x7d") = .done inner s :=
    ⟨(Parse.block (.ofSource "\x7b let x; \x7b x; x \x7d \x7d")).rest, by decide +kernel⟩
  obtain ⟨s, parsed⟩ := parsed
  refine ⟨_, _, _, b', s, started, rfl, parsed, by rw [performed], ?_⟩
  cases performed
  decide +kernel

end Hir

end FrontEnd
