import FrontEnd.Proofs.Growth

/-!
# What a lowered expression looks like

* `Function.Holds` — a value of a function represents an expression: its blocks hold the statements in
  the order in which they are evaluated, its calls and literals are those of the expression, and the
  names of the expression stand for the given references, visit by visit.
* `Expression.spilled`, `Expression.visited` — the statements that an expression puts into the block
  around it, and the references that its names are lowered to.
* `Draft.lower_holds` — a lowered expression is represented, in the draft and in every function that
  agrees with it on what was added.
-/

namespace FrontEnd

open Hir

/-- In the function the value represents the expression.  `statements` are put into the block around
the expression, and `refs` are what its names stand for: each declaration, each identifier, and the
callee of each operator behind its operands. -/
inductive Hir.Function.Holds (f : Function) : Expression → Ref → List Ref → List Ref → Prop
  | block {inner : Expression} {v : Ref} {statements refs : List Ref} {id : ValueId} {s : ScopeId}
    (h : f.Holds inner v statements refs)
    (hv : f.values[id]? = some ⟨.block s (statements ++ [v]).toArray, none⟩) :
    f.Holds (.block inner) (.slot id) [] refs
  | sequence {first next : Expression} {v w : Ref} {statements more refs others : List Ref}
    (hf : f.Holds first v statements refs) (hn : f.Holds next w more others) :
    f.Holds (.sequence first next) w (statements ++ v :: more) (refs ++ others)
  | declaration {d : VariableDecl} {v : Ref} : f.Holds (.declaration d) v [] [v]
  | assignment {op : BinaryOperator} {left right : Expression} {l r callee : Ref}
    {statements more refs others : List Ref} {id : ValueId} (ho : op.isAssignment = true)
    (hr : f.Holds right r statements refs) (hl : f.Holds left l more others)
    (hv : f.values[id]? = some ⟨.call callee [l, r], none⟩) :
    f.Holds (.binary op left right) (.slot id) (statements ++ more) (refs ++ others ++ [callee])
  | binary {op : BinaryOperator} {left right : Expression} {l r callee : Ref}
    {statements more refs others : List Ref} {id : ValueId} (ho : op.isAssignment = false)
    (hl : f.Holds left l statements refs) (hr : f.Holds right r more others)
    (hv : f.values[id]? = some ⟨.call callee [l, r], none⟩) :
    f.Holds (.binary op left right) (.slot id) (statements ++ more) (refs ++ others ++ [callee])
  | identifier {name : String} {v : Ref} : f.Holds (.identifier name) v [] [v]
  | number {text : String} {id : ValueId} (hv : f.values[id]? = some ⟨.literal .int text, none⟩) :
    f.Holds (.number text) (.slot id) [] []
  | string {text : String} {id : ValueId} (hv : f.values[id]? = some ⟨.literal .string text, none⟩) :
    f.Holds (.string text) (.slot id) [] []
  | char {text : String} {id : ValueId} (hv : f.values[id]? = some ⟨.literal .char text, none⟩) :
    f.Holds (.char text) (.slot id) [] []
  | empty : f.Holds .empty .unit [] []

namespace Expression

/-- The values that lowering an expression puts into the block around it. -/
def spilled : Expression → Draft → List Ref
  | sequence first next, b =>
    first.spilled b ++
      (first.lower b).1 :: next.spilled ((first.lower b).2.append (first.lower b).1)
  | binary op left right, b =>
    if op.isAssignment then right.spilled b ++ left.spilled (right.lower b).2
    else left.spilled b ++ right.spilled (left.lower b).2
  | _, _ => []

/-- The references that the names of an expression are lowered to, visit by visit. -/
def visited : Expression → Draft → List Ref
  | block inner, b => inner.visited b.openBlock
  | sequence first next, b =>
    first.visited b ++ next.visited ((first.lower b).2.append (first.lower b).1)
  | declaration d, b => [(b.declare d).1]
  | binary op left right, b =>
    if op.isAssignment then
      right.visited b ++ left.visited (right.lower b).2 ++
        [((left.lower (right.lower b).2).2.reference operatorCallee).1]
    else
      left.visited b ++ right.visited (left.lower b).2 ++
        [((right.lower (left.lower b).2).2.reference operatorCallee).1]
  | identifier name, b => [(b.reference name).1]
  | _, _ => []

end Expression

namespace Hir

theorem Value.foldl_append (s : ScopeId) (type : Option TypeId) (more : List Ref)
    (statements : Array Ref) :
    more.foldl Value.append ⟨.block s statements, type⟩ =
      ⟨.block s (statements.toList ++ more).toArray, type⟩ := by
  induction more generalizing statements with
  | nil => simp
  | cons r more ih =>
      rw [List.foldl_cons]
      show more.foldl Value.append ⟨.block s (statements.push r), type⟩ = _
      rw [ih]
      simp

namespace Draft

variable {b : Draft} {v : Value}

/-- A draft that grows in a new cell keeps the block at work. -/
theorem Grows.value_current {b' : Draft} (h : b.Grows b.function.values.size b')
    (hv : b.function.values[b.current.value]? = some v) :
    b'.function.values[b.current.value]? = some v :=
  h.values _ v hv (Nat.ne_of_lt (Array.getElem?_eq_some_iff.1 hv).1)

theorem value_append (r : Ref) (hv : b.function.values[b.current.value]? = some v) :
    (b.append r).function.values[b.current.value]? = some (v.append r) := by
  show (b.function.append _ _).values[b.current.value]? = _
  rw [Function.values_append, if_pos rfl, hv]
  rfl

/-- Behind two operands that are lowered one after the other the operator is called. -/
theorem value_operands {first second : Expression}
    (h : ∀ (b : Draft) (v : Value), b.function.values[b.current.value]? = some v →
      (first.lower b).2.function.values[b.current.value]? =
        some ((first.spilled b).foldl Value.append v))
    (h' : ∀ (b : Draft) (v : Value), b.function.values[b.current.value]? = some v →
      (second.lower b).2.function.values[b.current.value]? =
        some ((second.spilled b).foldl Value.append v))
    (hv : b.function.values[b.current.value]? = some v) (l r : Ref) :
    ((second.lower (first.lower b).2).2.callOperator l r).2.function.values[b.current.value]? =
      some ((first.spilled b ++ second.spilled (first.lower b).2).foldl Value.append v) := by
  have h1 := h b v hv
  rw [← current_lower first b] at h1
  have h2 := h' (first.lower b).2 _ h1
  rw [← current_lower second (first.lower b).2] at h2
  rw [List.foldl_append, ← current_lower first b, ← current_lower second (first.lower b).2]
  exact (grows_callOperator _ _ l r).value_current h2

/-- **What an expression puts into the block at work are the values of its statements.** -/
theorem value_lower (e : Expression) (b : Draft) (v : Value)
    (hv : b.function.values[b.current.value]? = some v) :
    (e.lower b).2.function.values[b.current.value]? = some ((e.spilled b).foldl Value.append v) := by
  induction e generalizing b v with
  | block inner ih => exact (grows_block _ (grows_lower inner b.openBlock)).value_current hv
  | sequence first next ih ih' =>
      have hc : (first.lower b).2.current = b.current := current_lower first b
      have h1 := ih b v hv
      rw [← hc] at h1
      have h2 := ih' ((first.lower b).2.append (first.lower b).1) _
        (value_append (first.lower b).1 h1)
      unfold Expression.spilled
      rw [List.foldl_append, List.foldl_cons, ← hc]
      exact h2
  | declaration d => exact (grows_declare _ b d).value_current hv
  | binary op left right ih ih' =>
      unfold Expression.lower Expression.spilled
      split
      · exact value_operands ih' ih hv _ _
      · exact value_operands ih ih' hv _ _
  | identifier name => exact (grows_reference _ b name).value_current hv
  | number text => exact (grows_addValue _ b _).value_current hv
  | string text => exact (grows_addValue _ b _).value_current hv
  | char text => exact (grows_addValue _ b _).value_current hv
  | empty => exact hv

/-! ## Representation -/

/-- The function agrees with a draft on the values from a position on. -/
def Agrees (f : Function) (start : ValueId) (b : Draft) : Prop :=
  ∀ (id : ValueId) (v : Value), start ≤ id → b.function.values[id]? = some v →
    f.values[id]? = some v

/-- Agreement with a draft is agreement with what it has grown from, from a position behind the block
at work. -/
theorem Agrees.of_grows {f : Function} {b₁ b₂ : Draft} {start cell : ValueId}
    (h : Agrees f start b₂) (hg : b₁.Grows cell b₂) (hc : cell < start) : Agrees f start b₁ :=
  fun id v hs hv => h id v hs (hg.values id v hv (Nat.ne_of_gt (Nat.lt_of_lt_of_le hc hs)))

theorem Agrees.weaken {f : Function} {m n : ValueId} (h : Agrees f m b) (hmn : m ≤ n) :
    Agrees f n b := fun id v hs hv => h id v (Nat.le_trans hmn hs) hv

theorem value_literal (b : Draft) (kind : LiteralKind) (text : String) :
    (b.literal kind text).2.function.values[b.function.values.size]? =
      some ⟨.literal kind text, none⟩ :=
  (Function.values_addValue _ _ _).trans (if_pos rfl)

theorem value_callOperator (b : Draft) (l r : Ref) :
    ∃ id, (b.callOperator l r).1 = .slot id ∧ b.function.values.size ≤ id ∧
      (b.callOperator l r).2.function.values[id]? =
        some ⟨.call (b.reference operatorCallee).1 [l, r], none⟩ := by
  refine ⟨(b.reference operatorCallee).2.function.values.size, rfl,
    (grows_reference b.function.values.size b operatorCallee).size, ?_⟩
  exact (Function.values_addValue _ _ _).trans (if_pos rfl)

/-- The value of a block expression is the block that was opened for it. -/
theorem lower_block (inner : Expression) (b : Draft) :
    (Expression.block inner).lower b =
      (.slot b.function.values.size,
        { (inner.lower b.openBlock).2.append (inner.lower b.openBlock).1 with
          blocks := b.blocks }) := by
  have hb : ((inner.lower b.openBlock).2.append (inner.lower b.openBlock).1).blocks =
      ⟨b.function.values.size, b.function.scopes.size⟩ :: b.blocks := blocks_lower inner b.openBlock
  show closeBlock _ = _
  unfold closeBlock
  rw [hb]

/-- A block that is opened for an expression ends up with its statements and its value. -/
theorem value_block (inner : Expression) (b : Draft) :
    ((inner.lower b.openBlock).2.append (inner.lower b.openBlock).1).function.values[
        b.function.values.size]? =
      some ⟨.block b.function.scopes.size
        (inner.spilled b.openBlock ++ [(inner.lower b.openBlock).1]).toArray, none⟩ := by
  have opened : b.openBlock.function.values[b.openBlock.current.value]? =
      some (Value.emptyBlock b.function.scopes.size) :=
    (Function.values_addValue _ _ _).trans (if_pos rfl)
  have lowered := value_lower inner b.openBlock _ opened
  rw [← current_lower inner b.openBlock] at lowered
  have appended := value_append (inner.lower b.openBlock).1 lowered
  rw [current_lower] at appended
  refine appended.trans (congrArg some ?_)
  have folded := Value.foldl_append b.function.scopes.size none
    (inner.spilled b.openBlock ++ [(inner.lower b.openBlock).1]) #[]
  rw [List.foldl_append] at folded
  exact folded

/-! ### The parts of a lowered expression -/

theorem current_lt_lower (e : Expression) (hb : b.current.value < b.function.values.size) :
    (e.lower b).2.current.value < (e.lower b).2.function.values.size := by
  rw [current_lower]
  exact Nat.lt_of_lt_of_le hb (grows_lower e b).size

theorem current_lt_append (r : Ref) (hb : b.current.value < b.function.values.size) :
    (b.append r).current.value < (b.append r).function.values.size :=
  Nat.lt_of_lt_of_le hb (grows_append b r).size

theorem current_lt_openBlock (b : Draft) :
    b.openBlock.current.value < b.openBlock.function.values.size := by
  have opened : b.openBlock.function.values.size = b.function.values.size + 1 :=
    Function.size_values_addValue _ _
  rw [opened]
  exact Nat.lt_succ_self _

/-- Who agrees with a block agrees with what was lowered inside it. -/
theorem Agrees.inner {f : Function} {inner : Expression}
    (hf : Agrees f b.function.values.size ((Expression.block inner).lower b).2) :
    Agrees f b.openBlock.function.values.size (inner.lower b.openBlock).2 := by
  have opened : b.openBlock.function.values.size = b.function.values.size + 1 :=
    Function.size_values_addValue _ _
  have appended := grows_append (inner.lower b.openBlock).2 (inner.lower b.openBlock).1
  rw [current_lower] at appended
  rw [lower_block] at hf
  have filled : Agrees f (b.function.values.size + 1)
      ((inner.lower b.openBlock).2.append (inner.lower b.openBlock).1) :=
    fun id v hs hv => hf id v (Nat.le_of_succ_le hs) hv
  rw [opened]
  exact filled.of_grows appended (Nat.lt_succ_self _)

theorem Agrees.first {f : Function} {first next : Expression}
    (hf : Agrees f b.function.values.size ((Expression.sequence first next).lower b).2)
    (hb : b.current.value < b.function.values.size) :
    Agrees f b.function.values.size (first.lower b).2 := by
  have hc : (first.lower b).2.current = b.current := current_lower first b
  have appended := grows_append (first.lower b).2 (first.lower b).1
  have grown := grows_lower next ((first.lower b).2.append (first.lower b).1)
  rw [show ((first.lower b).2.append (first.lower b).1).current = b.current from hc] at grown
  rw [hc] at appended
  exact hf.of_grows (appended.trans grown (Or.inl rfl)) hb

theorem Agrees.next {f : Function} {first next : Expression}
    (hf : Agrees f b.function.values.size ((Expression.sequence first next).lower b).2) :
    Agrees f ((first.lower b).2.append (first.lower b).1).function.values.size
      (next.lower ((first.lower b).2.append (first.lower b).1)).2 :=
  hf.weaken (Nat.le_trans (grows_lower first b).size (grows_append _ _).size)

theorem Agrees.operands {f : Function} {first second : Expression} {l r : Ref}
    (hf : Agrees f b.function.values.size
      ((second.lower (first.lower b).2).2.callOperator l r).2)
    (hb : b.current.value < b.function.values.size) :
    Agrees f b.function.values.size (first.lower b).2 ∧
      Agrees f (first.lower b).2.function.values.size (second.lower (first.lower b).2).2 := by
  have grown := grows_lower second (first.lower b).2
  rw [current_lower] at grown
  have both := hf.of_grows (grows_callOperator b.current.value _ _ _) hb
  exact ⟨both.of_grows grown hb, both.weaken (grows_lower first b).size⟩

/-- Two operands that are lowered one after the other are represented, and so is the call behind
them. -/
theorem holds_operands {f : Function} {first second : Expression}
    (h : ∀ b : Draft, b.current.value < b.function.values.size →
      Agrees f b.function.values.size (first.lower b).2 →
      f.Holds first (first.lower b).1 (first.spilled b) (first.visited b))
    (h' : ∀ b : Draft, b.current.value < b.function.values.size →
      Agrees f b.function.values.size (second.lower b).2 →
      f.Holds second (second.lower b).1 (second.spilled b) (second.visited b))
    (hb : b.current.value < b.function.values.size) {l r : Ref}
    (hf : Agrees f b.function.values.size
      ((second.lower (first.lower b).2).2.callOperator l r).2) :
    f.Holds first (first.lower b).1 (first.spilled b) (first.visited b) ∧
      f.Holds second (second.lower (first.lower b).2).1 (second.spilled (first.lower b).2)
        (second.visited (first.lower b).2) ∧
      ∃ id, ((second.lower (first.lower b).2).2.callOperator l r).1 = .slot id ∧
        f.values[id]? = some ⟨.call
          ((second.lower (first.lower b).2).2.reference operatorCallee).1 [l, r], none⟩ := by
  obtain ⟨agrees, agrees'⟩ := hf.operands hb
  obtain ⟨id, hid, hle, hv⟩ := value_callOperator (second.lower (first.lower b).2).2 l r
  refine ⟨h b hb agrees, h' _ (current_lt_lower first hb) agrees', id, hid, hf id _ ?_ hv⟩
  exact Nat.le_trans (Nat.le_trans (grows_lower first b).size (grows_lower second _).size) hle

/-- **A lowered expression is represented** by the value that is handed out, in every function that
agrees with the draft on what the lowering has added. -/
theorem lower_holds (e : Expression) (b : Draft) (hb : b.current.value < b.function.values.size)
    {f : Function} (hf : Agrees f b.function.values.size (e.lower b).2) :
    f.Holds e (e.lower b).1 (e.spilled b) (e.visited b) := by
  induction e generalizing b with
  | block inner ih =>
      have represented := ih b.openBlock (current_lt_openBlock b) hf.inner
      rw [lower_block] at hf ⊢
      exact .block represented (hf _ _ (Nat.le_refl _) (value_block inner b))
  | sequence first next ih ih' =>
      exact .sequence (ih b hb (hf.first hb))
        (ih' _ (current_lt_append _ (current_lt_lower first hb)) hf.next)
  | declaration d => exact .declaration
  | binary op left right ih ih' =>
      by_cases ho : op.isAssignment = true
      · simp only [Expression.lower, Expression.spilled, Expression.visited, if_pos ho] at hf ⊢
        obtain ⟨hr, hl, id, hid, hv⟩ := holds_operands ih' ih hb hf
        rw [hid]
        exact .assignment ho hr hl hv
      · simp only [Expression.lower, Expression.spilled, Expression.visited, if_neg ho] at hf ⊢
        obtain ⟨hl, hr, id, hid, hv⟩ := holds_operands ih ih' hb hf
        rw [hid]
        exact .binary (Bool.eq_false_iff.2 ho) hl hr hv
  | identifier name => exact .identifier
  | number text => exact .number (hf _ _ (Nat.le_refl _) (value_literal b .int text))
  | string text => exact .string (hf _ _ (Nat.le_refl _) (value_literal b .string text))
  | char text => exact .char (hf _ _ (Nat.le_refl _) (value_literal b .char text))
  | empty => exact .empty

end Draft

end Hir

end FrontEnd
