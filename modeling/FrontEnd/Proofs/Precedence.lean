import FrontEnd.Proofs.Grouping
import FrontEnd.Proofs.TokenStream

/-!
# What a line is parsed into

* `Operands` — the operators and operands that lie ahead of a reader, each operand as `primary`
  returns it, up to a token that is no operator.
* `chain_of_operands` — the loop of the precedence parser, from any stack whose assembled tree is
  grouped, takes these operands and ends with a grouped tree that reads as before and on.
* `line_of_operands`, `line_grouped` — a line is parsed into a grouped tree over its operands, and
  into the only one.
-/

namespace FrontEnd

namespace Parse

/-- The operators and operands ahead of a reader, and the reader behind the last of them.  The next
token there is no operator. -/
inductive Operands : Reader → List (BinaryOperator × Expression) → Reader → Prop
  | nil {r : Reader} (h : r.peek.1.kind.lookahead = .finish) : Operands r [] r
  | cons {r r₁ r₂ : Reader} {op : BinaryOperator} {e : Expression}
    {ops : List (BinaryOperator × Expression)} (h : r.peek.1.kind.lookahead = .operator op)
    (he : primary r.peek.2.skip = .done e r₁) (tail : Operands r₁ ops r₂) :
    Operands r ((op, e) :: ops) r₂

/-- Operands depend on nothing but the stream of their reader. -/
theorem Operands.congr {r s r₂ : Reader} {ops : List (BinaryOperator × Expression)}
    (h : Operands r ops r₂) (hs : r.stream = s.stream) :
    ∃ s₂, Operands s ops s₂ ∧ s₂.stream = r₂.stream := by
  induction h generalizing s with
  | @nil r h =>
      rw [(peek_congr hs).1] at h
      exact ⟨s, .nil h, hs.symm⟩
  | cons h he tail ih =>
      obtain ⟨s₁, hp, hs₁⟩ := (primary_congr (s := s.peek.2.skip) (by simp [hs])).exists_done he
      obtain ⟨s₂, ho, hs₂⟩ := ih hs₁.symm
      rw [(peek_congr hs).1] at h
      exact ⟨s₂, .cons h hp ho, hs₂⟩

/-- Ahead of no operator the loop ends with the reduced stack and takes nothing. -/
theorem chain_finish {s : Reader} (stack : List Waiting) (e : Expression)
    (h : s.peek.1.kind.lookahead = .finish) :
    ∃ s', chain stack e s = .done (settle .finish stack e).operand s' ∧ s'.stream = s.stream := by
  rw [chain_eq, h]
  exact ⟨_, rfl, by simp⟩

/-- **The loop keeps the assembled tree grouped and reads on.**  The invariant of the induction is
that the operand behind the stack is an atom and that the assembled tree is grouped. -/
theorem chain_of_operands {r r₂ : Reader} {ops : List (BinaryOperator × Expression)}
    (h : Operands r ops r₂) :
    ∀ (stack : List WaitingTree) (e : Expression) (s : Reader), s.stream = r.stream →
      (assemble stack (.atom e)).Grouped →
      ∃ (t : OpTree) (s₂ : Reader), chain (stack.map WaitingTree.entry) e s = .done t.expression s₂ ∧
        s₂.stream = r₂.stream ∧ t.Grouped ∧ t.first = (assemble stack (.atom e)).first ∧
        t.rest = (assemble stack (.atom e)).rest ++ ops := by
  induction h with
  | nil h =>
      intro stack e s hs g
      rw [← (peek_congr hs).1] at h
      obtain ⟨s₂, hc, hs₂⟩ := chain_finish (stack.map WaitingTree.entry) e h
      refine ⟨assemble stack (.atom e), s₂, ?_, hs₂.trans hs, g, rfl, by simp⟩
      rw [hc]
      exact congrArg (Outcome.done · s₂) (operand_settle_finish stack (.atom e))
  | @cons r r₁ r₂ op e' ops h he tail ih =>
      intro stack e s hs g
      rw [← (peek_congr hs).1] at h
      obtain ⟨stack', t', hstack, hoperand, ha, fits, on⟩ := settle_ready op stack (.atom e) trivial
      rw [← ha] at g
      obtain ⟨s₁, hp, hs₁⟩ := (primary_congr (s := (s.peek.2.noteAll
        (settle (.operator op) (stack.map WaitingTree.entry) e).decisions).skip)
        (by simp [hs])).exists_done he
      obtain ⟨t, s₂, hc, hs₂, gt, hf, hr⟩ := ih (⟨t', op⟩ :: stack') e' s₁ hs₁
        (grouped_assemble_shift g fits on e')
      refine ⟨t, s₂, ?_, hs₂, gt, ?_, ?_⟩
      · rw [OpTree.expression_atom] at hstack hoperand
        rw [chain_eq]
        simp only [h, hp, Outcome.bind_done, hstack, hoperand]
        exact hc
      · rw [hf, assemble, first_assemble_node, ha]
      · rw [hr, assemble, rest_assemble_node, ha]
        simp [OpTree.first, OpTree.rest]

/-- A line of operands, followed by a token that is no operator, is parsed into a grouped tree over
them. -/
theorem line_of_operands {r r₁ r₂ : Reader} {first : Expression}
    {ops : List (BinaryOperator × Expression)} (hp : primary r = .done first r₁)
    (ho : Operands r₁ ops r₂) :
    ∃ (t : OpTree) (s : Reader), t.first = first ∧ t.rest = ops ∧ t.Grouped ∧
      line r = .done t.expression s ∧ s.stream = r₂.stream := by
  obtain ⟨t, s, hc, hs, g, hf, hr⟩ := chain_of_operands ho [] first r₁ rfl trivial
  refine ⟨t, s, hf, hr, g, ?_, hs⟩
  rw [line_eq, hp]
  exact hc

/-- **Precedence law.**  A line of operands with operators between them, followed by a token that is
no operator, is parsed into a tree over the operands that reads as the line and is grouped, and no
other tree reads so and is grouped. -/
theorem line_grouped {r r₁ r₂ : Reader} {first : Expression}
    {ops : List (BinaryOperator × Expression)} (hp : primary r = .done first r₁)
    (ho : Operands r₁ ops r₂) :
    ∃ t : OpTree, (t.first = first ∧ t.rest = ops ∧ t.Grouped) ∧
      (∀ u : OpTree, u.first = first → u.rest = ops → u.Grouped → u = t) ∧
      ∃ s, line r = .done t.expression s ∧ s.stream = r₂.stream := by
  obtain ⟨t, s, hf, hr, g, hline, hs⟩ := line_of_operands hp ho
  refine ⟨t, ⟨hf, hr, g⟩, ?_, s, hline, hs⟩
  intro u uf ur gu
  exact gu.unique g (uf.trans hf.symm) (ur.trans hr.symm)

/-- The tokens of `a = b - 1 - 2 * c`. -/
def mixedLine : List Token :=
  [⟨.identifier, "a"⟩, ⟨.operator .assign, "="⟩, ⟨.identifier, "b"⟩, ⟨.operator .minus, "-"⟩,
    ⟨.number, "1"⟩, ⟨.operator .minus, "-"⟩, ⟨.number, "2"⟩, ⟨.operator .times, "*"⟩,
    ⟨.identifier, "c"⟩]

theorem line_grouped_mixedLine :
    ∃ s, line (Reader.ofTokens mixedLine) = .done (.binary .assign (.identifier "a")
      (.binary .minus (.binary .minus (.identifier "b") (.number "1"))
        (.binary .times (.number "2") (.identifier "c")))) s := by
  have hp : primary (Reader.ofTokens mixedLine) =
      .done (.identifier "a") (Reader.ofTokens mixedLine).peek.2.skip := by
    rw [primary_eq]
    rfl
  have ho : ∃ r₂, Operands (Reader.ofTokens mixedLine).peek.2.skip
      [(.assign, .identifier "b"), (.minus, .number "1"), (.minus, .number "2"),
        (.times, .identifier "c")] r₂ :=
    ⟨_, .cons rfl (by rw [primary_eq]; rfl) (.cons rfl (by rw [primary_eq]; rfl)
      (.cons rfl (by rw [primary_eq]; rfl) (.cons rfl (by rw [primary_eq]; rfl) (.nil rfl))))⟩
  obtain ⟨r₂, ho⟩ := ho
  obtain ⟨t, -, unique, s, hs, -⟩ := line_grouped hp ho
  have ht := unique (.node .assign (.atom (.identifier "a"))
    (.node .minus (.node .minus (.atom (.identifier "b")) (.atom (.number "1")))
      (.node .times (.atom (.number "2")) (.atom (.identifier "c"))))) rfl rfl
    (by simp [OpTree.Grouped, OpTree.Fits, BinaryOperator.Admits]; decide)
  exact ⟨s, by rw [hs, ← ht]; rfl⟩

end Parse

end FrontEnd
