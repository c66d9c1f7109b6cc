import FrontEnd.Parse.Chain
import Mathlib.Data.List.Induction

/-!
# Grouping of operator chains

A line is a chain of operands with operators between them.  The strengths of the operators and the
side to which each associates leave one binary tree over the operands.

* `OpTree` — a binary tree over operands that count as atoms, whatever their own shape; `first` and
  `rest` are its in-order reading.
* `OpTree.Grouped` — at each node the operators of the children bind tighter, or as tight on the side
  to which the operator associates.
* `Grouped.unique`, `exists_grouped` — each reading has one grouped tree and no other.
* `assemble` — the tree that a stack of waiting operands gives if all of it is reduced.  That this
  tree is grouped is the invariant of the precedence parser: `settle_ready` says that reductions do
  not change it, and `grouped_assemble_shift` that a shift behind them keeps it grouped.
-/

namespace FrontEnd

inductive Side
  | left
  | right
deriving DecidableEq, Repr

namespace BinaryOperator

/-- The side to which the operator associates: the right for the assignment forms, and the left for
all others. -/
def side (op : BinaryOperator) : Side := if op.isAssignment then .right else .left

/-- `inner` may stand at the top of the operand of `op` on the side `s`: it is stronger, or as strong
and `op` associates to that side. -/
def Admits (op : BinaryOperator) (s : Side) (inner : BinaryOperator) : Prop :=
  op.strength < inner.strength ∨ op.strength = inner.strength ∧ op.side = s

theorem side_congr {a b : BinaryOperator} (h : a.strength = b.strength) : a.side = b.side := by
  unfold side isAssignment
  rw [h]

/-- Of two operators, one may stand left of the other or that one may stand right of it. -/
theorem admits_left_or_right (a b : BinaryOperator) : a.Admits .left b ∨ b.Admits .right a := by
  rcases Nat.lt_trichotomy a.strength b.strength with hlt | he | hgt
  · exact Or.inl (Or.inl hlt)
  · cases hs : a.side with
    | left => exact Or.inl (Or.inr ⟨he, hs⟩)
    | right => exact Or.inr (Or.inr ⟨he.symm, by rw [← side_congr he, hs]⟩)
  · exact Or.inr (Or.inl hgt)

theorem Admits.not_right {a b : BinaryOperator} (h : a.Admits .left b) : ¬ b.Admits .right a := by
  rintro (h' | ⟨h', hb⟩)
  · rcases h with h | ⟨h, -⟩ <;> omega
  · rcases h with h | ⟨h, ha⟩
    · omega
    · rw [side_congr h, hb] at ha
      cases ha

/-- The parser reduces just where the operator on the stack may stand on the left. -/
theorem next_eq_reduce_iff {top op : BinaryOperator} :
    Action.next (.operator top) (.operator op) = .reduce ↔ op.Admits .left top := by
  have pos := op.strength_pos
  show (if top.strength = 1 ∧ op.isAssignment = true then Action.shift op
    else if op.strength ≤ top.strength then .reduce else .shift op) = .reduce ↔ _
  rcases Nat.lt_trichotomy op.strength top.strength with hlt | he | hgt
  · rw [if_neg (by omega), if_pos (Nat.le_of_lt hlt)]
    exact iff_of_true rfl (Or.inl hlt)
  · by_cases ha : op.isAssignment = true
    · have hs : op.side = .right := if_pos ha
      rw [if_pos ⟨he.symm.trans ((isAssignment_iff op).1 ha), ha⟩]
      refine iff_of_false (by simp) ?_
      rintro (h | ⟨-, h⟩)
      · omega
      · rw [hs] at h
        cases h
    · have hs : op.side = .left := if_neg ha
      rw [if_neg fun hc => ha hc.2, if_pos (Nat.le_of_eq he)]
      exact iff_of_true rfl (Or.inr ⟨he, hs⟩)
  · rw [if_neg (Nat.not_le.2 hgt), ite_self]
    refine iff_of_false (by simp) ?_
    rintro (h | ⟨h, -⟩) <;> omega

end BinaryOperator

/-- A binary tree over operands that are not looked into. -/
inductive OpTree
  | atom (e : Expression)
  | node (op : BinaryOperator) (left right : OpTree)
deriving DecidableEq, Repr

namespace OpTree

def expression : OpTree → Expression
  | atom e => e
  | node op left right => .binary op left.expression right.expression

@[simp] theorem expression_atom (e : Expression) : (atom e).expression = e := rfl

@[simp] theorem expression_node (op : BinaryOperator) (l r : OpTree) :
    (node op l r).expression = .binary op l.expression r.expression := rfl

/-- The leftmost operand. -/
def first : OpTree → Expression
  | atom e => e
  | node _ left _ => left.first

/-- What follows the leftmost operand, from left to right. -/
def rest : OpTree → List (BinaryOperator × Expression)
  | atom _ => []
  | node op left right => left.rest ++ (op, right.first) :: right.rest

/-- The tree may be the operand of `op` on the side `s`. -/
def Fits (op : BinaryOperator) (s : Side) : OpTree → Prop
  | atom _ => True
  | node inner _ _ => op.Admits s inner

/-- At each node both operands fit the operator. -/
def Grouped : OpTree → Prop
  | atom _ => True
  | node op left right =>
    left.Fits op .left ∧ right.Fits op .right ∧ left.Grouped ∧ right.Grouped

/-! ## Uniqueness -/

/-- The operator at the top is at least so strong. -/
def AtLeast (n : Nat) : OpTree → Prop
  | atom _ => True
  | node op _ _ => n ≤ op.strength

theorem Fits.atLeast {op : BinaryOperator} {s : Side} {t : OpTree} (h : t.Fits op s) :
    t.AtLeast op.strength := by
  cases t with
  | atom e => trivial
  | node inner l r =>
    show op.strength ≤ inner.strength
    rcases h with h | ⟨h, -⟩ <;> omega

theorem Grouped.strength_ge {t : OpTree} {n : Nat} (g : t.Grouped) (h : t.AtLeast n) :
    ∀ x ∈ t.rest, n ≤ x.1.strength := by
  induction t generalizing n with
  | atom e => simp [rest]
  | node op l r ihl ihr =>
    obtain ⟨fl, fr, gl, gr⟩ := g
    have hn : n ≤ op.strength := h
    intro x hx
    simp only [rest, List.mem_append, List.mem_cons] at hx
    rcases hx with hx | rfl | hx
    · exact Nat.le_trans hn (ihl gl fl.atLeast x hx)
    · exact hn
    · exact Nat.le_trans hn (ihr gr fr.atLeast x hx)

/-- An operand of `op` holds only operators that may stand on its side. -/
theorem Grouped.admits {op : BinaryOperator} {s : Side} {t : OpTree} (g : t.Grouped)
    (h : t.Fits op s) : ∀ x ∈ t.rest, op.Admits s x.1 := by
  intro x hx
  cases t with
  | atom e => simp [rest] at hx
  | node inner l r =>
    rcases h with h | ⟨h, hs⟩
    · exact Or.inl (Nat.lt_of_succ_le (g.strength_ge (n := op.strength + 1) h x hx))
    · have := g.strength_ge (n := op.strength) (Nat.le_of_eq h) x hx
      rcases Nat.lt_or_eq_of_le this with hlt | he
      · exact Or.inl hlt
      · exact Or.inr ⟨he, hs⟩

/-- Two tops of one chain cannot stand at different places: each would lie inside the other. -/
theorem Grouped.same_place {op op' : BinaryOperator} {l r l' r' : OpTree}
    {mid : List (BinaryOperator × Expression)}
    (g : (node op l r).Grouped) (g' : (node op' l' r').Grouped)
    (hl : l'.rest = l.rest ++ mid) (hm : (op, r.first) :: r.rest = mid ++ (op', r'.first) :: r'.rest) :
    mid = [] := by
  obtain ⟨-, fr, -, gr⟩ := g
  obtain ⟨fl', -, gl', -⟩ := g'
  cases mid with
  | nil => rfl
  | cons x mid =>
    simp only [List.cons_append, List.cons.injEq] at hm
    have inLeft := gl'.admits fl' (op, r.first) (by simp [hl, ← hm.1])
    have inRight := gr.admits fr (op', r'.first) (by simp [hm.2])
    exact absurd inRight inLeft.not_right

/-- **One chain of operands has at most one grouped tree.** -/
theorem Grouped.unique {t u : OpTree} (ht : t.Grouped) (hu : u.Grouped) (hf : t.first = u.first)
    (hr : t.rest = u.rest) : t = u := by
  induction t generalizing u with
  | atom e =>
    cases u with
    | atom e' => simpa [first] using hf
    | node op l r => simp [rest] at hr
  | node op l r ihl ihr =>
    cases u with
    | atom e => simp [rest] at hr
    | node op' l' r' =>
      simp only [rest] at hr
      have parts : l.rest = l'.rest ∧ (op, r.first) :: r.rest = (op', r'.first) :: r'.rest := by
        rcases List.append_eq_append_iff.1 hr with ⟨mid, hl, hm⟩ | ⟨mid, hl, hm⟩
        · obtain rfl := ht.same_place hu hl hm
          exact ⟨by simpa using hl.symm, hm⟩
        · obtain rfl := hu.same_place ht hl hm
          exact ⟨by simpa using hl, hm.symm⟩
      obtain ⟨hl, hm⟩ := parts
      simp only [List.cons.injEq, Prod.mk.injEq] at hm
      obtain ⟨⟨rfl, hfr⟩, hr'⟩ := hm
      obtain ⟨-, -, gl, gr⟩ := ht
      obtain ⟨-, -, gl', gr'⟩ := hu
      rw [ihl gl gl' hf hl, ihr gr gr' hfr hr']

/-! ## Existence -/

instance (op : BinaryOperator) (s : Side) (inner : BinaryOperator) : Decidable (op.Admits s inner) :=
  inferInstanceAs (Decidable (_ ∨ _))

/-- The tree that reads one operand further.  The new operator takes the place of the first one on
the right edge that may stand on its left. -/
def snoc (op : BinaryOperator) (e : Expression) : OpTree → OpTree
  | atom a => node op (atom a) (atom e)
  | node inner l r =>
    if op.Admits .left inner then node op (node inner l r) (atom e) else node inner l (snoc op e r)

theorem first_snoc (op : BinaryOperator) (e : Expression) (t : OpTree) :
    (t.snoc op e).first = t.first := by
  cases t with
  | atom a => rfl
  | node inner l r =>
    unfold snoc
    split <;> rfl

theorem rest_snoc (op : BinaryOperator) (e : Expression) (t : OpTree) :
    (t.snoc op e).rest = t.rest ++ [(op, e)] := by
  induction t with
  | atom a => rfl
  | node inner l r _ ih =>
    unfold snoc
    split
    · rfl
    · simp [rest, ih, first_snoc]

theorem Fits.snoc {op inner : BinaryOperator} {t : OpTree} (h : t.Fits inner .right)
    (hop : inner.Admits .right op) (e : Expression) : (t.snoc op e).Fits inner .right := by
  cases t with
  | atom a => exact hop
  | node top l r =>
    unfold OpTree.snoc
    split
    · exact hop
    · exact h

theorem Grouped.snoc {t : OpTree} (g : t.Grouped) (op : BinaryOperator) (e : Expression) :
    (t.snoc op e).Grouped := by
  induction t with
  | atom a => exact ⟨trivial, trivial, trivial, trivial⟩
  | node inner l r _ ih =>
    unfold OpTree.snoc
    split
    · rename_i h
      exact ⟨h, trivial, g, trivial⟩
    · rename_i h
      obtain ⟨fl, fr, gl, gr⟩ := g
      exact ⟨fl, fr.snoc ((op.admits_left_or_right inner).resolve_left h) e, gl, ih gr⟩

/-- **Every chain of operands has a grouped tree.** -/
theorem exists_grouped (first : Expression) (ops : List (BinaryOperator × Expression)) :
    ∃ t : OpTree, t.first = first ∧ t.rest = ops ∧ t.Grouped := by
  induction ops using List.reverseRecOn with
  | nil => exact ⟨atom first, rfl, rfl, trivial⟩
  | append_singleton ops op ih =>
    obtain ⟨t, hf, hr, g⟩ := ih
    exact ⟨t.snoc op.1 op.2, by rw [first_snoc, hf], by rw [rest_snoc, hr], g.snoc op.1 op.2⟩

end OpTree

/-! ## Stacks as partly built trees -/

/-- A tree that waits for its right neighbour, with the operator behind it. -/
structure WaitingTree where
  left : OpTree
  op : BinaryOperator
deriving DecidableEq, Repr

def WaitingTree.entry (w : WaitingTree) : Waiting := ⟨w.left.expression, w.op⟩

/-- The tree that is left when the whole stack is reduced. -/
def assemble : List WaitingTree → OpTree → OpTree
  | [], t => t
  | w :: stack, t => assemble stack (.node w.op w.left t)

/-- The tree fits the operator on top of the stack. -/
def FitsOn (t : OpTree) (stack : List WaitingTree) : Prop :=
  ∀ w ∈ stack.head?, t.Fits w.op .right

theorem first_assemble_node (stack : List WaitingTree) (op : BinaryOperator) (t u : OpTree) :
    (assemble stack (.node op t u)).first = (assemble stack t).first := by
  induction stack generalizing op t u with
  | nil => rfl
  | cons w stack ih => simp only [assemble, ih]

theorem rest_assemble_node (stack : List WaitingTree) (op : BinaryOperator) (t u : OpTree) :
    (assemble stack (.node op t u)).rest = (assemble stack t).rest ++ (op, u.first) :: u.rest := by
  induction stack generalizing op t u with
  | nil => rfl
  | cons w stack ih =>
    simp only [assemble, ih, OpTree.first, OpTree.rest, List.append_assoc, List.cons_append]

/-- What stands on a stack whose tree is grouped is grouped itself and fits the stack. -/
theorem of_grouped_assemble {stack : List WaitingTree} {t : OpTree}
    (h : (assemble stack t).Grouped) : t.Grouped ∧ FitsOn t stack := by
  induction stack generalizing t with
  | nil => exact ⟨h, by simp [FitsOn]⟩
  | cons w stack ih =>
    obtain ⟨⟨-, fr, -, gr⟩, -⟩ := ih h
    exact ⟨gr, by simpa [FitsOn] using fr⟩

/-- What stands on the stack may be replaced by any grouped tree that fits. -/
theorem grouped_assemble_replace {stack : List WaitingTree} {t u : OpTree}
    (h : (assemble stack t).Grouped) (hu : u.Grouped) (fits : FitsOn u stack) :
    (assemble stack u).Grouped := by
  induction stack generalizing t u with
  | nil => exact hu
  | cons w stack ih =>
    have h : (assemble stack (.node w.op w.left t)).Grouped := h
    obtain ⟨⟨fl, -, gl, -⟩, on⟩ := of_grouped_assemble h
    have fr : u.Fits w.op .right := fits w (by simp)
    exact ih h ⟨fl, fr, gl, hu⟩ on

/-- **A shift behind finished reductions keeps the tree grouped.** -/
theorem grouped_assemble_shift {stack : List WaitingTree} {t : OpTree} {op : BinaryOperator}
    (h : (assemble stack t).Grouped) (left : t.Fits op .left)
    (on : ∀ w ∈ stack.head?, w.op.Admits .right op) (e : Expression) :
    (assemble (⟨t, op⟩ :: stack) (.atom e)).Grouped := by
  show (assemble stack (.node op t (.atom e))).Grouped
  exact grouped_assemble_replace h ⟨left, trivial, (of_grouped_assemble h).1, trivial⟩ on

/-- **The reductions before an operator leave the assembled tree as it is.**  Behind them the topmost
tree may be the left operand of the incoming operator, and that operator may stand to the right of
the one on the stack. -/
theorem settle_ready (op : BinaryOperator) (stack : List WaitingTree) (t : OpTree)
    (left : t.Fits op .left) :
    ∃ stack' t', (settle (.operator op) (stack.map WaitingTree.entry) t.expression).stack =
        stack'.map WaitingTree.entry ∧
      (settle (.operator op) (stack.map WaitingTree.entry) t.expression).operand = t'.expression ∧
      assemble stack' t' = assemble stack t ∧ t'.Fits op .left ∧
      ∀ w ∈ stack'.head?, w.op.Admits .right op := by
  induction stack generalizing t with
  | nil => exact ⟨[], t, rfl, rfl, rfl, left, by simp⟩
  | cons w stack ih =>
    by_cases h : op.Admits .left w.op
    · have reduce := BinaryOperator.next_eq_reduce_iff.2 h
      obtain ⟨stack', t', hs, ho, ha, fits, on⟩ := ih (.node w.op w.left t) h
      refine ⟨stack', t', ?_, ?_, ha, fits, on⟩
      · simpa [settle, WaitingTree.entry, reduce] using hs
      · simpa [settle, WaitingTree.entry, reduce] using ho
    · have shift : ¬ Action.next (.operator w.op) (.operator op) = .reduce :=
        fun e => h (BinaryOperator.next_eq_reduce_iff.1 e)
      refine ⟨w :: stack, t, ?_, ?_, rfl, left, ?_⟩
      · simp [settle, WaitingTree.entry, shift]
      · simp [settle, WaitingTree.entry, shift]
      · have := (op.admits_left_or_right w.op).resolve_left h
        simpa using this

/-- **At the end of the chain the assembled tree is what is left.** -/
theorem operand_settle_finish (stack : List WaitingTree) (t : OpTree) :
    (settle .finish (stack.map WaitingTree.entry) t.expression).operand =
      (assemble stack t).expression := by
  induction stack generalizing t with
  | nil => rfl
  | cons w stack ih =>
    simpa [settle, WaitingTree.entry, assemble, Action.next_operator_finish] using
      ih (.node w.op w.left t)

end FrontEnd
