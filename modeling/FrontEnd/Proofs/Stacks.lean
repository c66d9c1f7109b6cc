import FrontEnd.Proofs.Soundness
import Mathlib.Data.List.Chain

/-!
# The two stacks of the precedence parser

The loop of the line parser holds its operands on one stack and the operators between them on another,
with a floor below all of them.  A turn of the loop shifts an operator, reduces the topmost one or ends
with the last operand; where the stacks do not allow this it is stuck.

* `Stacks`, `Stacks.turn` — the stacks, and what a turn does at them.
* `Stacks.Ordered` — as many operands as operators, the floor at the bottom and nowhere else, and strengths
  that rise, but for assignments above each other.
* `Ordered.turn_cases` — what a turn does at ordered stacks: it is never stuck.
* `Stacks.ofWaiting` — the waiting operands of `chain` as two stacks; `chain_shift`, `chain_reduce` and
  `chain_finished` take `chain` apart, turn by turn.
* `Loop` — the states in which the loop of a line comes to its head, with the actions reported so far.
  `Loop.ordered` and `Loop.balance` say what holds of them all, and `line_loop` how a line ends.
-/

namespace FrontEnd

/-- The stacks of the precedence parser, their tops first. -/
structure Stacks where
  operands : List Expression
  operators : List StackTop
deriving DecidableEq, Repr

/-- How a turn of the loop goes on. -/
inductive Turn
  /-- take the operator and read its right operand -/
  | shift (op : BinaryOperator)
  | reduced (s : Stacks)
  | finished (e : Expression)
  /-- an operand or an operator is missing, or too many are left -/
  | stuck
deriving DecidableEq, Repr

namespace Stacks

/-- The stacks behind the first operand of a line. -/
def start (e : Expression) : Stacks := ⟨[e], [.start]⟩

def top (s : Stacks) : StackTop := s.operators.headD .start

def action (s : Stacks) (incoming : Lookahead) : Action := Action.next s.top incoming

def push (s : Stacks) (op : BinaryOperator) (e : Expression) : Stacks :=
  ⟨e :: s.operands, .operator op :: s.operators⟩

/-- One turn of the loop.  A reduction takes two operands and an operator from the stacks and puts back
one operand. -/
def turn (s : Stacks) (incoming : Lookahead) : Turn :=
  match s.action incoming with
  | .shift op => .shift op
  | .reduce =>
    match s.operands, s.operators with
    | right :: left :: operands, .operator op :: operators =>
      .reduced ⟨.binary op left right :: operands, operators⟩
    | _, _ => .stuck
  | .accept =>
    match s.operands with
    | [e] => .finished e
    | _ => .stuck

end Stacks

/-- On the operator stack `upper` may stand directly above `lower`: it is stronger, or both are
assignments. -/
def StackTop.Below (lower upper : StackTop) : Prop :=
  lower.strength < upper.strength ∨ ∃ op op' : BinaryOperator, lower = .operator op ∧
    upper = .operator op' ∧ op.isAssignment = true ∧ op'.isAssignment = true

/-- The decision before an operator, whatever stands on the stack. -/
theorem Action.next_operator (top : StackTop) (op : BinaryOperator) :
    Action.next top (.operator op) =
      if top.strength = BinaryOperator.assignmentStrength ∧ op.isAssignment then .shift op
      else if op.strength ≤ top.strength then .reduce else .shift op := by
  cases top <;> rfl

theorem Action.next_operator_ne_accept (top : StackTop) (op : BinaryOperator) :
    Action.next top (.operator op) ≠ .accept := by
  rw [Action.next_operator]
  split
  · simp
  · split <;> simp

/-- An operator that is shifted may stand where it is put. -/
theorem StackTop.Below.of_shift {top : StackTop} {incoming : Lookahead} {op : BinaryOperator}
    (h : Action.next top incoming = .shift op) :
    incoming = .operator op ∧ top.Below (.operator op) := by
  cases incoming with
  | finish => cases top <;> cases h
  | operator op' =>
      rw [Action.next_operator] at h
      split at h
      · rename_i both
        obtain ⟨weak, assigns⟩ := both
        cases h
        cases top with
        | start => cases weak
        | operator below =>
            exact ⟨rfl, Or.inr ⟨below, op, rfl, rfl, below.isAssignment_iff.2 weak, assigns⟩⟩
      · split at h
        · cases h
        · rename_i stronger
          cases h
          exact ⟨rfl, Or.inl (Nat.lt_of_not_le stronger)⟩

namespace Stacks

variable {s : Stacks} {incoming : Lookahead}

/-- There are as many operands as operators, the floor is at the bottom and nowhere else, and what stands
above something is stronger, or an assignment above an assignment. -/
structure Ordered (s : Stacks) : Prop where
  length_eq : s.operands.length = s.operators.length
  floor : ∃ above, s.operators = above ++ [.start] ∧ .start ∉ above
  rising : s.operators.IsChain fun upper lower => lower.Below upper

theorem ordered_start (e : Expression) : (start e).Ordered :=
  ⟨rfl, ⟨[], rfl, by simp⟩, List.isChain_singleton _⟩

theorem Ordered.length_pos (h : s.Ordered) : 1 ≤ s.operands.length := by
  obtain ⟨above, he, -⟩ := h.floor
  rw [h.length_eq, he]
  simp

theorem Ordered.push (h : s.Ordered) {op : BinaryOperator} (hb : s.top.Below (.operator op))
    (e : Expression) : (s.push op e).Ordered := by
  obtain ⟨above, he, hs⟩ := h.floor
  refine ⟨by simp [Stacks.push, h.length_eq], ⟨.operator op :: above, by simp [Stacks.push, he], ?_⟩, ?_⟩
  · simpa using hs
  · obtain ⟨top, rest, hr⟩ : ∃ top rest, s.operators = top :: rest := by
      cases above <;> exact ⟨_, _, he⟩
    have rising := h.rising
    simp only [Stacks.top, hr, List.headD_cons] at hb rising
    simpa [Stacks.push, hr] using ⟨hb, rising⟩

/-- Ordered stacks hold one operand above the floor, or an operator between two operands, and are ordered
below them. -/
theorem Ordered.cases (h : s.Ordered) : (∃ e, s = start e) ∨
    ∃ right left operands op operators, s = ⟨right :: left :: operands, .operator op :: operators⟩ ∧
      ∀ e, Ordered ⟨e :: operands, operators⟩ := by
  obtain ⟨operands, operators⟩ := s
  obtain ⟨hl, ⟨above, he, hs⟩, hr⟩ := h
  obtain rfl : operators = above ++ [.start] := he
  cases above with
  | nil =>
      obtain ⟨e, rfl⟩ := List.length_eq_one_iff.1 hl
      exact Or.inl ⟨e, rfl⟩
  | cons top above =>
      cases top with
      | start => simp at hs
      | operator op =>
          obtain ⟨right, rest, rfl⟩ := List.exists_cons_of_length_pos (l := operands) (by simp_all)
          obtain ⟨left, operands, rfl⟩ := List.exists_cons_of_length_pos (l := rest) (by simp_all)
          refine Or.inr ⟨right, left, operands, op, above ++ [.start], rfl, fun e => ⟨?_, ?_, ?_⟩⟩
          · simpa using hl
          · exact ⟨above, rfl, by simp_all⟩
          · exact hr.tail

/-- **What a turn does at ordered stacks.**  It shifts and leaves room for an operand, it finds what it
reduces, or it ends with the only operand. -/
theorem Ordered.turn_cases (h : s.Ordered) (incoming : Lookahead) :
    (∃ op, s.action incoming = .shift op ∧ s.turn incoming = .shift op ∧ incoming = .operator op ∧
      ∀ e, (s.push op e).Ordered) ∨
    (∃ right left operands op operators, s = ⟨right :: left :: operands, .operator op :: operators⟩ ∧
      s.action incoming = .reduce ∧
      s.turn incoming = .reduced ⟨.binary op left right :: operands, operators⟩ ∧
      Ordered ⟨.binary op left right :: operands, operators⟩) ∨
    (∃ e, s = start e ∧ s.action incoming = .accept ∧ s.turn incoming = .finished e) := by
  cases ha : s.action incoming with
  | shift op =>
      obtain ⟨hi, hb⟩ := StackTop.Below.of_shift ha
      exact Or.inl ⟨op, rfl, by simp [turn, ha], hi, h.push hb⟩
  | reduce =>
      rcases h.cases with ⟨e, rfl⟩ | ⟨right, left, operands, op, operators, rfl, below⟩
      · cases incoming with
        | finish => cases ha
        | operator op =>
            have shifted : (start e).action (.operator op) = .shift op := Action.next_start_operator op
            rw [shifted] at ha
            cases ha
      · exact Or.inr (Or.inl ⟨right, left, operands, op, operators, rfl, rfl, by simp [turn, ha],
          below _⟩)
  | accept =>
      rcases h.cases with ⟨e, rfl⟩ | ⟨right, left, operands, op, operators, rfl, -⟩
      · exact Or.inr (Or.inr ⟨e, rfl, rfl, by simp only [turn, ha]; rfl⟩)
      · cases incoming with
        | finish => cases ha
        | operator op' => exact absurd ha (Action.next_operator_ne_accept _ op')

theorem Ordered.of_reduced (h : s.Ordered) {s' : Stacks} (turn : s.turn incoming = .reduced s') :
    s'.Ordered ∧ s'.operands.length + 1 = s.operands.length := by
  rcases h.turn_cases incoming with
    ⟨op, -, ht, -⟩ | ⟨right, left, operands, op, operators, rfl, -, ht, reduced⟩ | ⟨e, -, -, ht⟩
  all_goals
    rw [ht] at turn
    cases turn
  exact ⟨reduced, rfl⟩

theorem Ordered.of_finished (h : s.Ordered) {e : Expression} (turn : s.turn incoming = .finished e) :
    s = start e := by
  rcases h.turn_cases incoming with
    ⟨op, -, ht, -⟩ | ⟨right, left, operands, op, operators, -, -, ht, -⟩ | ⟨x, rfl, -, ht⟩
  all_goals
    rw [ht] at turn
    cases turn
  rfl

theorem action_of_shift {op : BinaryOperator} (h : s.turn incoming = .shift op) :
    s.action incoming = .shift op := by
  unfold turn at h
  grind

theorem action_of_reduced {s' : Stacks} (h : s.turn incoming = .reduced s') :
    s.action incoming = .reduce := by
  unfold turn at h
  grind

theorem action_of_finished {e : Expression} (h : s.turn incoming = .finished e) :
    s.action incoming = .accept := by
  unfold turn at h
  grind

/-! ## Waiting operands as stacks -/

/-- Waiting operands with the operand behind them, as stacks. -/
def ofWaiting (stack : List Waiting) (e : Expression) : Stacks :=
  ⟨e :: stack.map (·.left), stack.map (fun w => .operator w.op) ++ [.start]⟩

theorem top_ofWaiting (stack : List Waiting) (e : Expression) :
    (ofWaiting stack e).top = stackTop stack := by
  cases stack <;> rfl

/-- The decision at the stacks, as it is reported. -/
def decision (s : Stacks) (incoming : Lookahead) : Event :=
  .decided s.top incoming (s.action incoming)

theorem decision_ofWaiting (stack : List Waiting) (e : Expression) (incoming : Lookahead) :
    (ofWaiting stack e).decision incoming = FrontEnd.decision stack incoming := by
  rw [decision, action, top_ofWaiting, FrontEnd.decision]

/-- The reader behind a turn: the next token was looked at, and the decision is noted. -/
def seen (s : Stacks) (r : Reader) : Reader :=
  r.peek.2.noteAll [s.decision r.peek.1.kind.lookahead]

end Stacks

/-- Before a decision that is no reduction the stack is as it should be. -/
theorem settle_of_ne_reduce {incoming : Lookahead} {stack : List Waiting} (e : Expression)
    (h : Action.next (stackTop stack) incoming ≠ .reduce) :
    settle incoming stack e = ⟨stack, e, [decision stack incoming]⟩ := by
  cases stack with
  | nil => rfl
  | cons w stack => exact if_neg h

theorem Reader.noteAll_noteAll (r : Reader) (es es' : List Event) :
    (r.noteAll es).noteAll es' = r.noteAll (es ++ es') := by
  have logs : r.log ++ es ++ es' = r.log ++ (es ++ es') := by
    apply Array.ext'
    simp
  simp [noteAll, logs]

/-- What was looked at is seen again, whatever was noted in between. -/
theorem Reader.peek_seen (r : Reader) (es : List Event) :
    (r.peek.2.noteAll es).peek = (r.peek.1, r.peek.2.noteAll es) := by
  show (r.get.2.last, r.peek.2.noteAll es) = _
  rw [r.last_get]
  rfl

namespace Parse

open Stacks (ofWaiting)

variable {r : Reader} {stack : List Waiting} {e : Expression} {s : Stacks}

/-- A turn that reduces goes on as the loop does from the reduced stacks. -/
theorem chain_reduce (h : (ofWaiting stack e).turn r.peek.1.kind.lookahead = .reduced s) :
    ∃ stack' e', s = ofWaiting stack' e' ∧ stack'.length < stack.length ∧
      chain stack e r = chain stack' e' ((ofWaiting stack e).seen r) := by
  cases stack with
  | nil =>
      have ha : Action.next .start r.peek.1.kind.lookahead = .reduce := Stacks.action_of_reduced h
      cases hi : r.peek.1.kind.lookahead with
      | finish =>
          rw [hi] at ha
          cases ha
      | operator op =>
          rw [hi, Action.next_start_operator] at ha
          cases ha
  | cons w stack =>
      have ha : Action.next (.operator w.op) r.peek.1.kind.lookahead = .reduce :=
        Stacks.action_of_reduced h
      have reduced : s = ofWaiting stack (.binary w.op w.left e) := by
        simp only [Stacks.turn, Stacks.action, Stacks.top_ofWaiting, stackTop, ha] at h
        cases h
        rfl
      refine ⟨stack, _, reduced, Nat.lt_succ_self _, ?_⟩
      rw [chain_eq, chain_eq, Stacks.seen, Reader.peek_seen]
      simp [settle, ha, Stacks.decision_ofWaiting, Reader.noteAll_noteAll]

theorem chain_shift {op : BinaryOperator}
    (h : (ofWaiting stack e).turn r.peek.1.kind.lookahead = .shift op) :
    chain stack e r = (primary ((ofWaiting stack e).seen r).skip).bind fun e' r' =>
      chain (⟨e, op⟩ :: stack) e' r' := by
  obtain ⟨hi, ha⟩ : r.peek.1.kind.lookahead = .operator op ∧
      Action.next (stackTop stack) r.peek.1.kind.lookahead = .shift op := by
    have decided := Stacks.action_of_shift h
    rw [Stacks.action, Stacks.top_ofWaiting] at decided
    exact ⟨(StackTop.Below.of_shift decided).1, decided⟩
  have settled := settle_of_ne_reduce e (by rw [ha]; simp)
  rw [chain_eq, settled, Stacks.seen, Stacks.decision_ofWaiting, hi]

theorem chain_finished {x : Expression}
    (h : (ofWaiting stack e).turn r.peek.1.kind.lookahead = .finished x) :
    chain stack e r = .done x ((ofWaiting stack e).seen r) := by
  have ha := Stacks.action_of_finished h
  rw [Stacks.action, Stacks.top_ofWaiting] at ha
  cases hi : r.peek.1.kind.lookahead with
  | operator op =>
      rw [hi] at ha
      exact absurd ha (Action.next_operator_ne_accept _ op)
  | finish =>
      cases stack with
      | cons w stack =>
          rw [hi] at ha
          cases ha
      | nil =>
          rw [hi] at h
          cases h
          rw [chain_eq, Stacks.seen, Stacks.decision_ofWaiting, hi]
          rfl

/-! ## The states of the loop -/

/-- The loop of the line that starts at `r` comes to its head with these stacks and this reader, having
reported these actions. -/
inductive Loop (r : Reader) : Stacks → Reader → List Action → Prop
  | enter {e : Expression} {q : Reader} (first : primary r = .done e q) : Loop r (.start e) q []
  | shift {s : Stacks} {q q' : Reader} {actions : List Action} {op : BinaryOperator} {e : Expression}
    (h : Loop r s q actions) (turn : s.turn q.peek.1.kind.lookahead = .shift op)
    (right : primary (s.seen q).skip = .done e q') :
    Loop r (s.push op e) q' (actions ++ [s.action q.peek.1.kind.lookahead])
  | reduce {s s' : Stacks} {q : Reader} {actions : List Action} (h : Loop r s q actions)
    (turn : s.turn q.peek.1.kind.lookahead = .reduced s') :
    Loop r s' (s.seen q) (actions ++ [s.action q.peek.1.kind.lookahead])

variable {q : Reader} {actions : List Action}

/-- **At every turn of the loop the stacks are ordered.** -/
theorem Loop.ordered (h : Loop r s q actions) : s.Ordered := by
  induction h with
  | enter first => exact Stacks.ordered_start _
  | @shift s q q' actions op e h turn right ih =>
      obtain ⟨-, below⟩ := StackTop.Below.of_shift (Stacks.action_of_shift turn)
      exact ih.push below e
  | reduce h turn ih => exact (ih.of_reduced turn).1

def shifts (actions : List Action) : Nat := actions.countP fun a => a matches .shift _

def reductions (actions : List Action) : Nat := actions.countP fun a => a matches .reduce

/-- At all times there were at least as many shifts as reductions. -/
def Ahead (actions : List Action) : Prop :=
  ∀ earlier, earlier <+: actions → reductions earlier ≤ shifts earlier

theorem Ahead.concat (h : Ahead actions) {a : Action}
    (ha : reductions (actions ++ [a]) ≤ shifts (actions ++ [a])) : Ahead (actions ++ [a]) := by
  intro earlier he
  rcases List.prefix_concat_iff.1 he with rfl | he
  · exact ha
  · exact h earlier he

/-- **The operands on the stack are the first one and those of the shifts that are not reduced yet**, and
the line is not complete. -/
theorem Loop.balance (h : Loop r s q actions) :
    shifts actions + 1 = reductions actions + s.operands.length ∧ Ahead actions ∧
      .accept ∉ actions := by
  induction h with
  | enter first => exact ⟨rfl, fun earlier he => by simp [List.prefix_nil.1 he, reductions], by simp⟩
  | @shift s q q' actions op e h turn right ih =>
      obtain ⟨balance, ahead, unfinished⟩ := ih
      have pos := h.ordered.length_pos
      rw [Stacks.action_of_shift turn]
      have shifted : shifts (actions ++ [.shift op]) = shifts actions + 1 := by simp [shifts]
      have same : reductions (actions ++ [.shift op]) = reductions actions := by simp [reductions]
      have one : (s.push op e).operands.length = s.operands.length + 1 := rfl
      refine ⟨by omega, ahead.concat (by omega), by simp [unfinished]⟩
  | @reduce s s' q actions h turn ih =>
      obtain ⟨balance, ahead, unfinished⟩ := ih
      rw [Stacks.action_of_reduced turn]
      have same : shifts (actions ++ [.reduce]) = shifts actions := by simp [shifts]
      have reduced : reductions (actions ++ [.reduce]) = reductions actions + 1 := by simp [reductions]
      obtain ⟨ordered, fewer⟩ := h.ordered.of_reduced turn
      have pos := ordered.length_pos
      refine ⟨by omega, ahead.concat (by omega), by simp [unfinished]⟩

theorem remaining_seen_skip {op : BinaryOperator} (hi : q.peek.1.kind.lookahead = .operator op) :
    (s.seen q).skip.remaining < q.remaining := by
  have kind := TokenKind.lookahead_eq_operator_iff.1 hi
  have used := Reader.remaining_skip_peek (r := q) (by simp [kind])
  simpa [Stacks.seen] using used

theorem remaining_seen_le (s : Stacks) (q : Reader) : (s.seen q).remaining ≤ q.remaining :=
  q.remaining_peek

/-- The loop goes on from its stacks as `chain` does from the waiting operands: it ends the line, or it
comes to a shift whose right operand is refused. -/
theorem Loop.ends {stack : List Waiting} {e : Expression} {q : Reader} {actions : List Action}
    (h : Loop r (ofWaiting stack e) q actions) :
    (∃ s q' actions' x, Loop r s q' actions' ∧ s.turn q'.peek.1.kind.lookahead = .finished x ∧
      chain stack e q = .done x (s.seen q')) ∨
    ∃ s q' actions' op error t, Loop r s q' actions' ∧
      s.turn q'.peek.1.kind.lookahead = .shift op ∧ primary (s.seen q').skip = .refused error t ∧
      chain stack e q = .refused error t := by
  rcases h.ordered.turn_cases q.peek.1.kind.lookahead with
    ⟨op, -, turn, hi, -⟩ | ⟨right, left, operands, op, operators, -, -, turn, -⟩ | ⟨x, -, -, turn⟩
  · rw [chain_shift turn]
    cases hp : primary ((ofWaiting stack e).seen q).skip with
    | refused error t => exact Or.inr ⟨_, q, actions, op, error, t, h, turn, hp, rfl⟩
    | done e' q' =>
        have used := remaining_seen_skip (s := ofWaiting stack e) hi
        have left := remaining_of_done hp (primary_leaves _)
        have shifted : Loop r (ofWaiting (⟨e, op⟩ :: stack) e') q' _ := h.shift turn hp
        exact shifted.ends
  · obtain ⟨stack', e', hs, shorter, same⟩ := chain_reduce turn
    have left := remaining_seen_le (ofWaiting stack e) q
    rw [same]
    exact Loop.ends (hs ▸ h.reduce turn)
  · exact Or.inl ⟨_, q, actions, x, h, turn, chain_finished turn⟩
termination_by 2 * q.remaining + stack.length
decreasing_by
  · simp only [List.length_cons]
    omega
  · omega

/-- **How a line ends.**  A line that is parsed ends with a turn of its loop that finishes.  A line that is
refused is so at its first operand, or behind a turn that shifts. -/
theorem line_loop (r : Reader) :
    (∀ e t, line r = .done e t → ∃ s q actions, Loop r s q actions ∧
      s.turn q.peek.1.kind.lookahead = .finished e ∧ t = s.seen q) ∧
    ∀ error t, line r = .refused error t → primary r = .refused error t ∨
      ∃ s q actions op, Loop r s q actions ∧ s.turn q.peek.1.kind.lookahead = .shift op ∧
        primary (s.seen q).skip = .refused error t := by
  rw [line_eq]
  cases hp : primary r with
  | refused error t => simp
  | done e q =>
      have entered : Loop r (ofWaiting [] e) q [] := .enter hp
      rcases entered.ends with ⟨s, q', actions, x, loop, turn, ended⟩ |
        ⟨s, q', actions, op, error, t, loop, turn, hq, ended⟩
      · refine ⟨fun x' t h => ?_, fun error t h => ?_⟩
        · obtain ⟨rfl, rfl⟩ : x = x' ∧ s.seen q' = t := by simpa [ended] using h
          exact ⟨s, q', actions, loop, turn, rfl⟩
        · simp [ended] at h
      · refine ⟨fun x' t h => ?_, fun error' t' h => ?_⟩
        · simp [ended] at h
        · obtain ⟨rfl, rfl⟩ : error = error' ∧ t = t' := by simpa [ended] using h
          exact Or.inr ⟨s, q', actions, op, loop, turn, hq⟩

end Parse

end FrontEnd
