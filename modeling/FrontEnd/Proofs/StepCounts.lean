import FrontEnd.Proofs.Stepwise
import Mathlib.Algebra.BigOperators.Group.List.Basic
import Mathlib.Algebra.Group.Prod
import Mathlib.Algebra.Ring.Int.Defs

/-!
# The steps of a parse in numbers

Each call of a parser is noted under its name, and each call of a line, an operand or an expression has its
cause among the steps: a turn, a shift, an opening bracket, or the call of the parser around it.  So the
steps of one kind can be counted by those of the others.

* `Stage.Kind`, `Stage.count` — the kinds of steps, and how many of a kind there are.
* `Stage.weight`, `Stage.closing` — what a step adds to five accounts.
* `Watched.Keeps` — what stands on the accounts of a parse; those of parses behind each other add up.
* `Stage.Accounted` — every call but the first has its cause, and every cause its call;
  `Entry.watch_accounted`, `Entry.watch_settled` and `Entry.watch_head` count the steps of an entry.
* `Expression.levels`, `Item.levels` — the depth that blocks and modules within each other take, and
  `Entry.levels_le_depth`: no parse succeeds with less.
-/

namespace FrontEnd

namespace Stage

inductive Kind
  | call (parser : Entry)
  | turn
  | nested
  | shift
  | reduce
  | finish
deriving DecidableEq, Repr

def kind : Stage → Kind
  | call parser => .call parser
  | turn _ _ => .turn
  | nested _ _ => .nested
  | shift _ _ => .shift
  | reduce _ _ => .reduce
  | finish => .finish

def count (k : Kind) (xs : List Stage) : Nat := xs.countP (·.kind = k)

/-- What a step adds to three accounts: calls of expressions less nested expressions; calls of operands less
those of lines and less shifts; calls of lines, declarations and arguments less those of expressions and less
turns. -/
def weight (x : Stage) : Int × Int × Int :=
  match x.kind with
  | .call .expression => (1, 0, -1)
  | .call .primary => (0, 1, 0)
  | .call .line => (0, -1, 1)
  | .call .item | .call .argument => (0, 0, 1)
  | .nested => (-1, 0, 0)
  | .shift => (0, -1, 0)
  | .turn => (0, 0, -1)
  | _ => 0

/-- What a step adds to two further accounts, which are even behind a success: ends of lines less their
calls, and reductions less shifts. -/
def closing (x : Stage) : Int × Int :=
  match x.kind with
  | .call .line => (-1, 0)
  | .finish => (1, 0)
  | .shift => (0, -1)
  | .reduce => (0, 1)
  | _ => 0

end Stage

namespace Watched

variable {α β : Type} {m : Watched α} {b b' : Int × Int × Int} {c c' : Int × Int}

/-- What stands on the accounts of a parse. -/
structure Keeps (m : Watched α) (b : Int × Int × Int) (c : Int × Int) : Prop where
  weights : m.ending ≠ .exhausted → (m.stages.map Stage.weight).sum = b
  closings : ∀ a s, m.ending = .done a s → (m.stages.map Stage.closing).sum = c

namespace Keeps

theorem of_eq (h : Keeps m b c) (hc : c = c') : Keeps m b c' := hc ▸ h

theorem ofOutcome (o : Outcome α) : Keeps (.ofOutcome o) 0 0 := ⟨fun _ => rfl, fun _ _ _ => rfl⟩

theorem done (a : α) (r : Reader) : Keeps (.done a r) 0 0 := ⟨fun _ => rfl, fun _ _ _ => rfl⟩

theorem refuse (expected : String) (found : Token) (r : Reader) :
    Keeps (α := α) (.refuse expected found r) 0 c :=
  ⟨fun _ => rfl, fun _ _ h => by cases h⟩

theorem exhausted : Keeps (α := α) .exhausted b c := ⟨fun h => absurd rfl h, fun _ _ h => by cases h⟩

theorem note (h : Keeps m b c) (x : Stage) : Keeps (m.note x) (x.weight + b) (x.closing + c) where
  weights hm := by
    rw [Watched.note, List.map_cons, List.sum_cons, h.weights hm]
  closings a s hm := by
    rw [Watched.note, List.map_cons, List.sum_cons, h.closings a s hm]

theorem asTurn (h : Keeps m b c) (r : Reader) : Keeps (m.asTurn r) (b + (0, 0, -1)) c where
  weights hm := by
    simp only [Watched.asTurn, List.map_append, List.sum_append, h.weights hm]
    rfl
  closings a s hm := by
    simp only [Watched.asTurn, List.map_append, List.sum_append, h.closings a s hm]
    exact add_zero c

theorem bind {f : α → Reader → Watched β} (h : Keeps m b c) (hf : ∀ a s, Keeps (f a s) 0 c') :
    Keeps (m.bind f) b (c + c') := by
  obtain ⟨ending, stages⟩ := m
  cases ending with
  | done a s =>
      have first := h.weights (by simp)
      have closed := h.closings a s rfl
      refine ⟨fun hm => ?_, fun x t hm => ?_⟩
      · have second := (hf a s).weights hm
        simp only [Watched.bind, List.map_append, List.sum_append, second]
        exact (add_zero _).trans first
      · have second := (hf a s).closings x t hm
        simp only [Watched.bind, List.map_append, List.sum_append, second]
        exact congrArg (· + c') closed
  | refused expected found s => exact ⟨fun _ => h.weights (by simp), fun x t hm => by cases hm⟩
  | exhausted => exact ⟨fun hm => absurd rfl hm, fun x t hm => by cases hm⟩

theorem map (h : Keeps m b c) (f : α → β) : Keeps (m.map f) b c := by
  have both := h.bind fun a s => done (f a) s
  rwa [add_zero] at both

end Keeps

theorem stages_map (m : Watched α) (f : α → β) : (m.map f).stages = m.stages := by
  obtain ⟨ending, stages⟩ := m
  cases ending with
  | done a r => exact List.append_nil _
  | refused expected found r => rfl
  | exhausted => rfl

end Watched

namespace Stacks

variable {s s' : Stacks} {incoming : Lookahead}

/-- A reduction makes one operand of two. -/
theorem operands_of_reduced (h : s.turn incoming = .reduced s') :
    ∃ op right left operands, s.operands = right :: left :: operands ∧
      s'.operands = .binary op left right :: operands := by
  unfold turn at h
  split at h
  · cases h
  · split at h <;> cases h
    rename_i right left operands op operators hs _
    exact ⟨op, right, left, operands, hs, rfl⟩
  · split at h <;> cases h

theorem length_of_reduced (h : s.turn incoming = .reduced s') :
    s.operands.length = s'.operands.length + 1 := by
  obtain ⟨op, right, left, operands, hs, hs'⟩ := operands_of_reduced h
  rw [hs, hs']
  rfl

theorem operands_of_finished {e : Expression} (h : s.turn incoming = .finished e) : s.operands = [e] := by
  unfold turn at h
  split at h
  · cases h
  · split at h <;> cases h
  · split at h <;> simp_all

end Stacks

namespace Stepwise

open Watched (Keeps)
open Parse (Operand Introducer)

theorem keeps_expectMark (m : Mark) (r : Reader) : Keeps (expectMark m r) 0 0 := .ofOutcome _

theorem keeps_expectName (e : Expectation) (r : Reader) : Keeps (expectName e r) 0 0 := .ofOutcome _

/-- What stands on the accounts of the parsers of expressions.  The loop of a line ends once, and reduces all
operands that it finds to one. -/
structure ExpressionsKeep (n : Nat) : Prop where
  expression : ∀ r, Keeps (expression n r) (1, 0, 0) 0
  lines : ∀ earlier last r, Keeps (lines n earlier last r) 0 0
  line : ∀ r, Keeps (line n r) (0, 0, 1) 0
  loop : ∀ s r, Keeps (loop n s r) 0 (1, s.operands.length - 1)
  primary : ∀ r, Keeps (primary n r) (0, 1, 0) 0
  block : ∀ r, Keeps (block n r) 0 0

section Expressions

variable {n : Nat}

theorem keeps_expression (h : ExpressionsKeep n) (r : Reader) :
    Keeps (expression (n + 1) r) (1, 0, 0) 0 := by
  rw [expression]
  exact ((h.line r).bind fun e r₁ => h.lines [] e r₁).note (.call .expression)

theorem keeps_lines (h : ExpressionsKeep n) (earlier : List Expression) (last : Expression) (r : Reader) :
    Keeps (lines (n + 1) earlier last r) 0 0 := by
  rw [lines]
  split
  · exact ((h.line _).asTurn r).bind fun e r₁ => h.lines _ e r₁
  · exact .done ..

theorem keeps_line (h : ExpressionsKeep n) (r : Reader) : Keeps (line (n + 1) r) (0, 0, 1) 0 := by
  rw [line]
  have rest : ∀ e r₁, Keeps (loop n (.start e) r₁) 0 (1, 0) := fun e r₁ => h.loop (.start e) r₁
  exact ((h.primary r).bind rest).note (.call .line)

theorem keeps_loop (h : ExpressionsKeep n) (s : Stacks) (r : Reader) :
    Keeps (loop (n + 1) s r) 0 (1, s.operands.length - 1) := by
  rw [loop]
  cases turn : s.turn r.peek.1.kind.lookahead with
  | shift op =>
      have rest : ∀ e r₁, Keeps (loop n (s.push op e) r₁) 0 (1, s.operands.length) := fun e r₁ => by
        simpa [Stacks.push] using h.loop (s.push op e) r₁
      have parsed := ((h.primary (s.seen r).skip).bind rest).note (.shift r (s.seen r).skip)
      refine parsed.of_eq ?_
      show ((0 : Int) + (0 + 1), -1 + (0 + (s.operands.length : Int))) = _
      ext <;> simp
      omega
  | reduced s' =>
      have fewer := Stacks.length_of_reduced turn
      have parsed := (h.loop s' (s.seen r)).note (.reduce s s')
      refine parsed.of_eq ?_
      show ((0 : Int) + 1, 1 + ((s'.operands.length : Int) - 1)) = _
      ext <;> simp [fewer]
  | finished e =>
      have one := Stacks.operands_of_finished turn
      rw [one]
      exact (Keeps.done e (s.seen r)).note .finish
  | stuck => exact ⟨fun _ => rfl, fun _ _ h => by cases h⟩

theorem keeps_nested (h : ExpressionsKeep n) (r s : Reader) (close : Mark) :
    Keeps (((expression n s).note (.nested r s)).bind fun e r₁ => (expectMark close r₁).map fun _ => e)
      0 0 :=
  ((h.expression s).note (.nested r s)).bind fun e r₁ => (keeps_expectMark close r₁).map fun _ => e

theorem keeps_primary (h : ExpressionsKeep n) (r : Reader) : Keeps (primary (n + 1) r) (0, 1, 0) 0 := by
  rw [primary]
  cases Operand.ofToken r.peek.1 with
  | leaf e => exact (Keeps.done ..).note (.call .primary)
  | declaration =>
      have parsed : Keeps (declaration r.peek.2) 0 0 := (Keeps.ofOutcome _).note (.call .declaration)
      exact (parsed.map _).note (.call .primary)
  | group => exact (keeps_nested h r r.peek.2.skip .rightParen).note (.call .primary)
  | block => exact ((h.block r.peek.2).map _).note (.call .primary)
  | none => exact (Keeps.done ..).note (.call .primary)

theorem keeps_block (h : ExpressionsKeep n) (r : Reader) : Keeps (block (n + 1) r) 0 0 := by
  rw [block]
  exact ((keeps_expectMark .leftBrace r).bind fun _ r₁ => keeps_nested h r r₁ .rightBrace).note
    (.call .block)

end Expressions

theorem expressionsKeep (n : Nat) : ExpressionsKeep n := by
  induction n with
  | zero => constructor <;> intros <;> exact .exhausted
  | succ n ih =>
      exact {
        expression := keeps_expression ih
        lines := keeps_lines ih
        line := keeps_line ih
        loop := keeps_loop ih
        primary := keeps_primary ih
        block := keeps_block ih }

theorem keeps_argument (r : Reader) : Keeps (argument r) (0, 0, 1) 0 :=
  (Keeps.ofOutcome (Parse.argument r)).note (.call .argument)

theorem keeps_argumentTurn (r : Reader) : Keeps (argumentTurn r) (0, 0, 1) 0 := by
  rw [argumentTurn]
  refine Keeps.of_eq ((keeps_argument r).bind fun a r₁ => ?_) (add_zero 0)
  generalize r₁.get.1.kind = kind
  cases kind with
  | mark m => cases m <;> first | exact .done .. | exact .refuse ..
  | _ => exact .refuse ..

theorem keeps_argumentList (n : Nat) (earlier : List Argument) (r : Reader) :
    Keeps (argumentList n earlier r) 0 0 := by
  induction n generalizing earlier r with
  | zero => exact .exhausted
  | succ n ih =>
      rw [argumentList]
      have rest : ∀ (a : Argument × Bool) (r₁ : Reader),
          Keeps (if a.2 then argumentList n (a.1 :: earlier) r₁
            else .done (a.1 :: earlier).reverse r₁) 0 0 := by
        intro a r₁
        split
        · exact ih ..
        · exact .done ..
      exact ((keeps_argumentTurn r).asTurn r).bind rest

theorem keeps_arguments (n : Nat) (r : Reader) : Keeps (arguments n r) 0 0 := by
  unfold arguments
  split
  · exact .done ..
  · exact keeps_argumentList ..

theorem keeps_function (n : Nat) (r : Reader) : Keeps (function n r) 0 0 := by
  cases n with
  | zero => exact .exhausted
  | succ n =>
      rw [function]
      exact ((keeps_expectName ..).bind fun name r₁ => (keeps_expectMark ..).bind fun _ r₂ =>
        (keeps_arguments ..).bind fun args r₃ => (keeps_expectMark ..).bind fun _ r₄ =>
        (keeps_expectName ..).bind fun returnType r₅ =>
          ((expressionsKeep n).block r₅).map _).note (.call .function)

structure ItemsKeep (n : Nat) : Prop where
  item : ∀ r, Keeps (item n r) (0, 0, 1) 0
  module : ∀ r, Keeps (module n r) 0 0
  items : ∀ stop earlier r, Keeps (items n stop earlier r) 0 0

section Items

variable {n : Nat}

theorem keeps_item (h : ItemsKeep n) (r : Reader) : Keeps (item (n + 1) r) (0, 0, 1) 0 := by
  rw [item]
  cases Introducer.ofToken r.peek.1 with
  | module => exact ((h.module r.peek.2).map _).note (.call .item)
  | function => exact ((keeps_function n r.peek.2).map _).note (.call .item)
  | none => exact (Keeps.refuse (c := 0) ..).note (.call .item)

theorem keeps_module (h : ItemsKeep n) (r : Reader) : Keeps (module (n + 1) r) 0 0 := by
  rw [module]
  exact ((keeps_expectName ..).bind fun name r₁ => (keeps_expectMark ..).bind fun _ r₂ =>
    (h.items ..).bind fun is r₃ => .done ..).note (.call .module)

theorem keeps_items (h : ItemsKeep n) (stop : TokenKind) (earlier : List Item) (r : Reader) :
    Keeps (items (n + 1) stop earlier r) 0 0 := by
  rw [items]
  split
  · exact .done ..
  · exact ((h.item r.peek.2).asTurn r).bind fun i r₁ => h.items ..

end Items

theorem itemsKeep (n : Nat) : ItemsKeep n := by
  induction n with
  | zero => constructor <;> intros <;> exact .exhausted
  | succ n ih =>
      exact {
        item := keeps_item ih
        module := keeps_module ih
        items := keeps_items ih }

end Stepwise

/-! ## Every entry -/

namespace Stage

theorem count_cons (k : Kind) (x : Stage) (xs : List Stage) :
    (count k (x :: xs) : Int) = (if x.kind = k then 1 else 0) + count k xs := by
  simp only [count, List.countP_cons, decide_eq_true_eq, Nat.cast_add, Nat.cast_ite, Nat.cast_one,
    Nat.cast_zero]
  exact Int.add_comm ..

theorem sum_weight (xs : List Stage) :
    (xs.map weight).sum = ((count (.call .expression) xs : Int) - count .nested xs,
      (count (.call .primary) xs : Int) - count (.call .line) xs - count .shift xs,
      (count (.call .line) xs : Int) + count (.call .item) xs + count (.call .argument) xs -
        count (.call .expression) xs - count .turn xs) := by
  induction xs with
  | nil => rfl
  | cons x xs ih =>
      rw [List.map_cons, List.sum_cons, ih]
      simp only [count_cons, weight]
      generalize x.kind = k
      cases k with
      | call parser =>
          cases parser <;> simp only [Kind.call.injEq, reduceCtorEq, if_true, if_false] <;>
            refine Prod.ext ?_ (Prod.ext ?_ ?_) <;> dsimp <;> omega
      | _ =>
          simp only [reduceCtorEq, if_true, if_false]
          refine Prod.ext ?_ (Prod.ext ?_ ?_) <;> dsimp <;> omega

theorem sum_closing (xs : List Stage) :
    (xs.map closing).sum = ((count .finish xs : Int) - count (.call .line) xs,
      (count .reduce xs : Int) - count .shift xs) := by
  induction xs with
  | nil => rfl
  | cons x xs ih =>
      rw [List.map_cons, List.sum_cons, ih]
      simp only [count_cons, closing]
      generalize x.kind = k
      cases k with
      | call parser =>
          cases parser <;> simp only [Kind.call.injEq, reduceCtorEq, if_true, if_false] <;>
            refine Prod.ext ?_ ?_ <;> dsimp <;> omega
      | _ =>
          simp only [reduceCtorEq, if_true, if_false]
          refine Prod.ext ?_ ?_ <;> dsimp <;> omega

/-- The steps of a parse that starts with the call of one parser.  Every other call has its cause: an
expression is called behind an opening bracket; an operand for a line or behind an operator; a line, a
declaration and an argument for an expression or in a turn of a loop. -/
structure Accounted (entry : Entry) (xs : List Stage) : Prop where
  expressions : count (.call .expression) xs = count .nested xs + if entry = .expression then 1 else 0
  operands : count (.call .primary) xs = count (.call .line) xs + count .shift xs +
    if entry = .primary then 1 else 0
  turns : count (.call .line) xs + count (.call .item) xs + count (.call .argument) xs =
    count (.call .expression) xs + count .turn xs +
      if entry = .line ∨ entry = .item ∨ entry = .argument then 1 else 0

end Stage

namespace Entry

/-- What the call of the entry itself leaves on the accounts. -/
def share : Entry → Int × Int × Int
  | expression => (1, 0, 0)
  | primary => (0, 1, 0)
  | line | item | argument => (0, 0, 1)
  | _ => 0

theorem keeps_watch (entry : Entry) (n : Nat) (r : Reader) : (entry.watch n r).Keeps entry.share 0 := by
  have expressions := Stepwise.expressionsKeep n
  have declarations := Stepwise.itemsKeep n
  cases entry with
  | program =>
      have parsed : (Stepwise.program n r).Keeps 0 0 :=
        (declarations.items .endOfFile [] r).note (.call .program)
      exact parsed.map _
  | item => exact (declarations.item r).map _
  | module => exact (declarations.module r).map _
  | function => exact (Stepwise.keeps_function n r).map _
  | argument => exact (Stepwise.keeps_argument r).map _
  | block => exact (expressions.block r).map _
  | expression => exact (expressions.expression r).map _
  | line => exact (expressions.line r).map _
  | primary => exact (expressions.primary r).map _
  | declaration =>
      have parsed : (Stepwise.declaration r).Keeps 0 0 :=
        (Watched.Keeps.ofOutcome _).note (.call .declaration)
      exact parsed.map _

variable {entry : Entry} {n : Nat} {r : Reader}

/-- **Every call but the first has its cause, and every cause its call.** -/
theorem watch_accounted (h : (entry.watch n r).ending ≠ .exhausted) :
    Stage.Accounted entry (entry.watch n r).stages := by
  have kept := (entry.keeps_watch n r).weights h
  rw [Stage.sum_weight, Prod.mk.injEq, Prod.mk.injEq] at kept
  obtain ⟨expressions, operands, turns⟩ := kept
  constructor <;> cases entry <;> simp [share] at expressions operands turns ⊢ <;> omega

/-- In a parse that succeeds every line comes to its end, and what was shifted is reduced. -/
theorem watch_settled {v : Parsed} {s : Reader} (h : (entry.watch n r).ending = .done v s) :
    Stage.count .finish (entry.watch n r).stages = Stage.count (.call .line) (entry.watch n r).stages ∧
      Stage.count .reduce (entry.watch n r).stages = Stage.count .shift (entry.watch n r).stages := by
  have kept := (entry.keeps_watch n r).closings v s h
  rw [Stage.sum_closing] at kept
  obtain ⟨ends, reductions⟩ := Prod.mk.inj kept
  constructor <;> omega

/-- The first step of a parser is its own call. -/
theorem watch_head (h : (entry.watch n r).ending ≠ .exhausted) :
    (entry.watch n r).stages.head? = some (.call entry) := by
  cases n with
  | zero =>
      cases entry <;> rw [watch, Watched.stages_map]
      case argument | declaration => rfl
      all_goals exact absurd rfl h
  | succ n =>
      cases entry <;> rw [watch, Watched.stages_map]
      case program | argument | declaration => rfl
      case module =>
        rw [Stepwise.module]
        rfl
      case function =>
        rw [Stepwise.function]
        rfl
      case block =>
        rw [Stepwise.block]
        rfl
      case expression =>
        rw [Stepwise.expression]
        rfl
      case line =>
        rw [Stepwise.line]
        rfl
      case item =>
        rw [Stepwise.item]
        cases Parse.Introducer.ofToken r.peek.1 <;> rfl
      case primary =>
        rw [Stepwise.primary]
        cases Parse.Operand.ofToken r.peek.1 <;> rfl

end Entry

/-! ## Depth -/

/-- The levels that blocks within each other take: a block calls an expression, which calls a line, which
calls an operand, which calls the next block. -/
def Expression.levels : Expression → Nat
  | block inner => inner.levels + 4
  | sequence first next => max first.levels next.levels
  | binary _ left right => max left.levels right.levels
  | _ => 0

mutual

/-- The same for a declaration, where a module calls the loop, which calls a declaration, which calls the
next module. -/
def Item.levels : Item → Nat
  | .module _ items => levelsOfItems items + 2
  | .function f => f.body.levels

def levelsOfItems : List Item → Nat
  | [] => 0
  | i :: is => max (i.levels + 1) (levelsOfItems is)

end

theorem levelsOfItems_lt_iff {is : List Item} {k : Nat} :
    levelsOfItems is < k ↔ 0 < k ∧ ∀ i ∈ is, i.levels + 1 < k := by
  induction is with
  | nil => simp [levelsOfItems]
  | cons i is ih =>
      rw [levelsOfItems, Nat.max_lt, ih, List.forall_mem_cons]
      tauto

def Parsed.levels : Parsed → Nat
  | program p => levelsOfItems p
  | item i => i.levels
  | argument _ => 0
  | expression e => e.levels

namespace Watched

variable {α β : Type} {m : Watched α} {P : α → Prop} {Q : β → Prop}

/-- What a parse yields has a property. -/
def Yields (m : Watched α) (P : α → Prop) : Prop := ∀ a s, m.ending = .done a s → P a

namespace Yields

theorem any (m : Watched α) : m.Yields fun _ => True := fun _ _ _ => trivial

theorem done {a : α} (h : P a) (r : Reader) : (Watched.done a r).Yields P := fun _ _ e => by
  cases e
  exact h

theorem exhausted : (Watched.exhausted : Watched α).Yields P := fun _ _ e => by cases e

theorem bind {f : α → Reader → Watched β} (h : m.Yields P) (hf : ∀ a s, P a → (f a s).Yields Q) :
    (m.bind f).Yields Q := by
  obtain ⟨ending, stages⟩ := m
  cases ending with
  | done a s => exact hf a s (h a s rfl)
  | refused expected found s => exact fun _ _ e => by cases e
  | exhausted => exact fun _ _ e => by cases e

theorem map {f : α → β} (h : m.Yields P) (hf : ∀ a, P a → Q (f a)) : (m.map f).Yields Q :=
  h.bind fun a s ha => .done (hf a ha) s

theorem mono {P' : α → Prop} (h : m.Yields P) (hP : ∀ a, P a → P' a) : m.Yields P' :=
  fun a s e => hP a (h a s e)

end Yields

end Watched

namespace Stepwise

open Watched (Yields)
open Parse (Operand Introducer)

theorem levels_of_leaf {t : Token} {e : Expression} (h : Operand.ofToken t = .leaf e) : e.levels = 0 := by
  unfold Operand.ofToken at h
  split at h
  · split at h <;> cases h
    rfl
  all_goals cases h
  all_goals rfl

/-- A loop yields nothing deeper than what it was called with or has read, so its bound is one of both. -/
structure ExpressionsReach (n : Nat) : Prop where
  expression : ∀ r, (expression n r).Yields fun e => e.levels + 3 ≤ n
  lines : ∀ earlier last r k, n ≤ k → (∀ x ∈ last :: earlier, x.levels + 2 ≤ k) →
    (lines n earlier last r).Yields fun e => e.levels + 2 ≤ k
  line : ∀ r, (line n r).Yields fun e => e.levels + 2 ≤ n
  loop : ∀ s r k, n ≤ k → (∀ x ∈ s.operands, x.levels + 1 ≤ k) →
    (loop n s r).Yields fun e => e.levels + 1 ≤ k
  primary : ∀ r, (primary n r).Yields fun e => e.levels + 1 ≤ n
  block : ∀ r, (block n r).Yields fun e => e.levels + 4 ≤ n

section Expressions

variable {n : Nat}

theorem reach_expression (h : ExpressionsReach n) (r : Reader) :
    (expression (n + 1) r).Yields fun e => e.levels + 3 ≤ n + 1 := by
  rw [expression]
  have parsed := (h.line r).bind fun e r₁ he =>
    h.lines [] e r₁ n (Nat.le_refl n) (by simpa using he)
  exact parsed.mono fun e he => by omega

theorem levels_foldl_sequence {earlier : List Expression} {last : Expression} {k : Nat}
    (h : ∀ x ∈ last :: earlier, x.levels + 2 ≤ k) :
    (earlier.foldl (fun next e => .sequence e next) last).levels + 2 ≤ k := by
  induction earlier generalizing last with
  | nil => exact h last List.mem_cons_self
  | cons e earlier ih =>
      refine ih fun x hx => ?_
      rcases List.mem_cons.1 hx with rfl | hx
      · have first := h e (by simp)
        have next := h last (by simp)
        simp only [Expression.levels]
        omega
      · exact h x (by simp [hx])

theorem reach_lines (h : ExpressionsReach n) {earlier : List Expression} {last : Expression} (r : Reader)
    {k : Nat} (hn : n + 1 ≤ k) (he : ∀ x ∈ last :: earlier, x.levels + 2 ≤ k) :
    (lines (n + 1) earlier last r).Yields fun e => e.levels + 2 ≤ k := by
  rw [lines]
  split
  · refine Yields.bind (h.line r.peek.2.skip) fun e r₁ hline => ?_
    exact h.lines _ e r₁ k (by omega) (List.forall_mem_cons.2 ⟨by omega, he⟩)
  · refine .done ?_ _
    exact levels_foldl_sequence he

theorem reach_line (h : ExpressionsReach n) (r : Reader) :
    (line (n + 1) r).Yields fun e => e.levels + 2 ≤ n + 1 := by
  rw [line]
  have parsed := (h.primary r).bind fun e r₁ he =>
    h.loop (.start e) r₁ n (Nat.le_refl n) (by simpa [Stacks.start] using he)
  exact parsed.mono fun e he => by omega

theorem reach_loop (h : ExpressionsReach n) {s : Stacks} (r : Reader) {k : Nat} (hn : n + 1 ≤ k)
    (hs : ∀ x ∈ s.operands, x.levels + 1 ≤ k) :
    (loop (n + 1) s r).Yields fun e => e.levels + 1 ≤ k := by
  rw [loop]
  cases turn : s.turn r.peek.1.kind.lookahead with
  | shift op =>
      refine Yields.bind (h.primary (s.seen r).skip) fun e r₁ he => ?_
      exact h.loop (s.push op e) r₁ k (by omega) (List.forall_mem_cons.2 ⟨by omega, hs⟩)
  | reduced s' =>
      obtain ⟨op, right, left, operands, hs', hs''⟩ := Stacks.operands_of_reduced turn
      rw [hs'] at hs
      refine h.loop s' (s.seen r) k (by omega) ?_
      rw [hs'']
      simp only [List.forall_mem_cons, Expression.levels] at hs ⊢
      exact ⟨by omega, hs.2.2⟩
  | finished e =>
      refine .done ?_ _
      exact hs e (by simp [Stacks.operands_of_finished turn])
  | stuck => exact fun _ _ e => by cases e

theorem reach_primary (h : ExpressionsReach n) (r : Reader) :
    (primary (n + 1) r).Yields fun e => e.levels + 1 ≤ n + 1 := by
  rw [primary]
  cases ho : Operand.ofToken r.peek.1 with
  | leaf e =>
      refine .done ?_ _
      rw [levels_of_leaf ho]
      omega
  | declaration => exact (Yields.any _).map fun d _ => by simp [Expression.levels]
  | group =>
      exact Yields.bind (h.expression r.peek.2.skip) fun e r₁ he => (Yields.any _).map fun _ _ => by omega
  | block => exact (h.block r.peek.2).map fun e he => by simp only [Expression.levels]; omega
  | none => exact .done (by simp [Expression.levels]) _

theorem reach_block (h : ExpressionsReach n) (r : Reader) :
    (block (n + 1) r).Yields fun e => e.levels + 4 ≤ n + 1 := by
  rw [block]
  exact Yields.bind (Yields.any _) fun _ r₁ _ => Yields.bind (h.expression r₁) fun e r₂ he =>
    (Yields.any _).map fun _ _ => by omega

end Expressions

theorem expressionsReach (n : Nat) : ExpressionsReach n := by
  induction n with
  | zero => constructor <;> intros <;> exact .exhausted
  | succ n ih =>
      exact {
        expression := reach_expression ih
        lines := fun earlier last r k => reach_lines ih r
        line := reach_line ih
        loop := fun s r k => reach_loop ih r
        primary := reach_primary ih
        block := reach_block ih }

theorem reach_function (n : Nat) (r : Reader) :
    (function n r).Yields fun f => f.body.levels + 5 ≤ n := by
  cases n with
  | zero => exact .exhausted
  | succ n =>
      rw [function]
      refine Yields.bind (.any _) fun name r₁ _ => Yields.bind (.any _) fun _ r₂ _ =>
        Yields.bind (.any _) fun args r₃ _ => Yields.bind (.any _) fun _ r₄ _ =>
        Yields.bind (.any _) fun returnType r₅ _ => ?_
      exact ((expressionsReach n).block r₅).map fun body hb => by simpa using hb

structure ItemsReach (n : Nat) : Prop where
  item : ∀ r, (item n r).Yields fun i => i.levels < n
  module : ∀ r, (module n r).Yields fun m => levelsOfItems m.2 + 1 < n
  items : ∀ stop earlier r k, n ≤ k → (∀ i ∈ earlier, i.levels + 1 < k) →
    (items n stop earlier r).Yields fun is => levelsOfItems is < k

section Items

variable {n : Nat}

theorem reach_item (h : ItemsReach n) (r : Reader) :
    (item (n + 1) r).Yields fun i => i.levels < n + 1 := by
  rw [item]
  cases Introducer.ofToken r.peek.1 with
  | module => exact (h.module r.peek.2).map fun m hm => by simp only [Item.levels]; omega
  | function => exact (reach_function n r.peek.2).map fun f hf => by simp only [Item.levels]; omega
  | none => exact fun _ _ e => by cases e

theorem reach_module (h : ItemsReach n) (r : Reader) :
    (module (n + 1) r).Yields fun m => levelsOfItems m.2 + 1 < n + 1 := by
  rw [module]
  refine Yields.bind (.any _) fun name r₁ _ => Yields.bind (.any _) fun _ r₂ _ =>
    Yields.bind (h.items _ [] r₂ n (Nat.le_refl n) (by simp)) fun is r₃ his => .done ?_ _
  exact Nat.succ_lt_succ his

theorem reach_items (h : ItemsReach n) (stop : TokenKind) {earlier : List Item} (r : Reader) {k : Nat}
    (hn : n + 1 ≤ k) (he : ∀ i ∈ earlier, i.levels + 1 < k) :
    (items (n + 1) stop earlier r).Yields fun is => levelsOfItems is < k := by
  rw [items]
  split
  · refine .done ?_ _
    exact levelsOfItems_lt_iff.2 ⟨by omega, by simpa using he⟩
  · refine Yields.bind (h.item r.peek.2) fun i r₁ hi => ?_
    exact h.items stop _ r₁ k (by omega) (List.forall_mem_cons.2 ⟨by omega, he⟩)

end Items

theorem itemsReach (n : Nat) : ItemsReach n := by
  induction n with
  | zero => constructor <;> intros <;> exact .exhausted
  | succ n ih =>
      exact {
        item := reach_item ih
        module := reach_module ih
        items := fun stop earlier r k => reach_items ih stop r }

end Stepwise

/-- **What was parsed is no deeper than the calls were allowed to be.** -/
theorem Entry.levels_le_depth {entry : Entry} {n : Nat} {r s : Reader} {v : Parsed}
    (h : (entry.watch n r).ending = .done v s) : v.levels ≤ n := by
  have expressions := Stepwise.expressionsReach n
  have declarations := Stepwise.itemsReach n
  have reach : (entry.watch n r).Yields fun v => v.levels ≤ n := by
    cases entry with
    | program =>
        have parsed := declarations.items .endOfFile [] r n (Nat.le_refl n) (by simp)
        exact Watched.Yields.map (m := Stepwise.program n r) parsed fun p hp => Nat.le_of_lt hp
    | item => exact (declarations.item r).map fun i hi => Nat.le_of_lt hi
    | module => exact (declarations.module r).map fun m hm => hm
    | function => exact (Stepwise.reach_function n r).map fun f hf => Nat.le_of_add_right_le hf
    | argument => exact (Watched.Yields.any _).map fun _ _ => Nat.zero_le n
    | block => exact (expressions.block r).map fun e he => he
    | expression => exact (expressions.expression r).map fun e he => Nat.le_of_add_right_le he
    | line => exact (expressions.line r).map fun e he => Nat.le_of_add_right_le he
    | primary => exact (expressions.primary r).map fun e he => Nat.le_of_add_right_le he
    | declaration => exact (Watched.Yields.any _).map fun _ _ => Nat.zero_le n
  exact reach v s h

end FrontEnd
