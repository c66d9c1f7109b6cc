import FrontEnd.Proofs.Building
import FrontEnd.Proofs.Simulation

/-!
# How drafts grow

* `Draft.Grows` — a draft that was added to.  All that it stored keeps its place, and all but one cell,
  the block at work, keeps its content.
* `Draft.Grows.trans` — a later cell may be another one, if it is new.
* `Draft.grows_lower` — the lowering of an expression adds to the draft and writes to the block at
  work only; `Draft.blocks_lower` — it leaves the open blocks as they were.
* `Draft.Continues`, `Draft.continues_build` — what holds of all operations, those of the signature
  included: the function stays the same one, and `FunctionDecl.extends_lower` — names are only added.
-/

namespace FrontEnd

namespace Hir

namespace Draft

/-- The draft was added to, and of what it stored only the block in the cell may have changed. -/
structure Grows (cell : ValueId) (b b' : Draft) : Prop where
  id : b'.id = b.id
  names : b.names.Extends b'.names
  size : b.function.values.size ≤ b'.function.values.size
  values : ∀ (id : ValueId) (v : Value), b.function.values[id]? = some v → id ≠ cell →
    b'.function.values[id]? = some v
  stored : ∀ (id : ValueId) (x : Variable) (t : Option TypeId),
    b.function.values[id]? = some ⟨.var x, t⟩ → b'.function.values[id]? = some ⟨.var x, t⟩
  chain : ∀ s, s < b.function.scopes.size →
    s < b'.function.scopes.size ∧ b'.function.chain s = b.function.chain s
  parameters : ∀ (i : Nat) (p : Parameter), b.function.parameters[i]? = some p →
    b'.function.parameters[i]? = some p

variable {b b' b'' : Draft} {cell cell' : ValueId}

theorem Grows.trans (h : b.Grows cell b') (h' : b'.Grows cell' b'')
    (hc : cell' = cell ∨ b.function.values.size ≤ cell') : b.Grows cell b'' where
  id := h'.id.trans h.id
  names := h.names.trans h'.names
  size := Nat.le_trans h.size h'.size
  values := by
    intro id v hv hne
    refine h'.values id v (h.values id v hv hne) ?_
    rcases hc with rfl | hc
    · exact hne
    · exact Nat.ne_of_lt (Nat.lt_of_lt_of_le (Array.getElem?_eq_some_iff.1 hv).1 hc)
  stored := fun id x t hx => h'.stored id x t (h.stored id x t hx)
  chain := by
    intro s hs
    obtain ⟨hs', hc⟩ := h.chain s hs
    obtain ⟨hs'', hc'⟩ := h'.chain s hs'
    exact ⟨hs'', hc'.trans hc⟩
  parameters := fun i p hp => h'.parameters i p (h.parameters i p hp)

theorem Grows.refl (cell : ValueId) (b : Draft) : b.Grows cell b where
  id := rfl
  names := .refl _
  size := Nat.le_refl _
  values := fun _ _ hv _ => hv
  stored := fun _ _ _ hx => hx
  chain := fun _ hs => ⟨hs, rfl⟩
  parameters := fun _ _ hp => hp

theorem grows_withNames (cell : ValueId) (b : Draft) {n : Names} (hn : b.names.Extends n) :
    b.Grows cell { b with names := n } :=
  { Grows.refl cell b with names := hn }

theorem grows_push (cell : ValueId) (b : Draft) {f : Function} (v : Value)
    (hv : f.values = b.function.values.push v)
    (hc : ∀ s, s < b.function.scopes.size → s < f.scopes.size ∧ f.chain s = b.function.chain s)
    (hp : ∀ (i : Nat) (p : Parameter), b.function.parameters[i]? = some p →
      f.parameters[i]? = some p) : b.Grows cell { b with function := f } := by
  have old : ∀ (id : ValueId) (w : Value), b.function.values[id]? = some w →
      f.values[id]? = some w := by
    intro id w hw
    have hid : id ≠ b.function.values.size := Nat.ne_of_lt (Array.getElem?_eq_some_iff.1 hw).1
    rw [hv, Array.getElem?_push, if_neg hid, hw]
  exact {
    id := rfl
    names := .refl _
    size := by
      show b.function.values.size ≤ f.values.size
      rw [hv, Array.size_push]
      exact Nat.le_succ _
    values := fun id w hw _ => old id w hw
    stored := fun id x t hx => old id _ hx
    chain := hc
    parameters := hp }

theorem grows_addValue (cell : ValueId) (b : Draft) (v : Value) :
    b.Grows cell (b.addValue v).2 :=
  grows_push cell b v rfl (fun _ hs => ⟨hs, rfl⟩) fun _ _ hp => hp

theorem grows_addVariable (cell : ValueId) (b : Draft) (s : ScopeId) (x : Variable)
    (t : Option TypeId) : b.Grows cell { b with function := b.function.addVariable s x t } :=
  grows_push cell b ⟨.var x, t⟩ rfl
    (fun r hr => ⟨by rw [Function.size_scopes_addVariable]; exact hr,
      Function.chain_addVariable _ _ _ _ r⟩) fun _ _ hp => hp

theorem grows_openBlock (cell : ValueId) (b : Draft) : b.Grows cell b.openBlock := by
  have hc : ∀ s, s < b.function.scopes.size →
      s < (b.function.addScope b.current.scope).scopes.size ∧
        (b.function.addScope b.current.scope).chain s = b.function.chain s := by
    intro s hs
    rw [Function.size_scopes_addScope, Function.chain_addScope, if_neg (Nat.ne_of_lt hs)]
    exact ⟨Nat.lt_succ_of_lt hs, rfl⟩
  have pushed := grows_push cell b (Value.emptyBlock b.function.scopes.size)
    (f := (b.function.addScope b.current.scope).addValue (Value.emptyBlock b.function.scopes.size))
    rfl hc fun _ _ hp => hp
  exact { pushed with }

theorem grows_append (b : Draft) (r : Ref) : b.Grows b.current.value (b.append r) where
  id := rfl
  names := .refl _
  size := Nat.le_of_eq (Function.size_values_append _ _ _).symm
  values := by
    intro id v hv hne
    show (b.function.append _ _).values[id]? = _
    rw [Function.values_append, if_neg (Ne.symm hne), hv]
  stored := by
    intro id x t hx
    show (b.function.append _ _).values[id]? = _
    rw [Function.values_append, hx]
    split <;> rfl
  chain := fun _ hs => ⟨hs, rfl⟩
  parameters := fun _ _ hp => hp

theorem grows_closeBlock (cell : ValueId) (b : Draft) : b.Grows cell b.closeBlock.2 := by
  unfold closeBlock
  split
  · exact grows_withNames cell b ⟨fun _ _ h => h, Nat.le_refl _, fun _ _ h => h⟩
  · exact { Grows.refl cell b with }

theorem grows_declare (cell : ValueId) (b : Draft) (d : VariableDecl) :
    b.Grows cell (b.declare d).2 :=
  (grows_withNames cell b ((Names.extends_freshType? b.names d.typeName).trans
    (Names.extends_intern _ d.name))).trans (grows_addVariable cell _ _ _ _) (Or.inl rfl)

theorem grows_reference (cell : ValueId) (b : Draft) (name : String) :
    b.Grows cell (b.reference name).2 := by
  unfold reference
  dsimp only
  split
  · exact grows_withNames cell b (Names.extends_intern b.names name)
  · exact (grows_withNames cell b (Names.extends_register b.names name _ _)).trans
      (grows_addValue cell _ _) (Or.inl rfl)

theorem grows_callOperator (cell : ValueId) (b : Draft) (l r : Ref) :
    b.Grows cell (b.callOperator l r).2 :=
  (grows_reference cell b operatorCallee).trans (grows_addValue cell _ _) (Or.inl rfl)

theorem grows_addParameter (cell : ValueId) (b : Draft) (a : Argument) :
    b.Grows cell (b.addParameter a).2 := by
  have hn := (Names.extends_freshType b.names a.typeName).trans (Names.extends_intern _ a.name)
  refine (grows_withNames cell b hn).trans ?_ (Or.inl rfl)
  refine grows_push cell _ _ rfl (fun r hr => ⟨?_, ?_⟩) ?_
  · exact Nat.lt_of_lt_of_eq hr Array.size_modify.symm
  · exact Function.chain_addVariable b.function Function.rootScope
      ⟨((b.names.freshType a.typeName).2.intern a.name).1, false, .declared⟩
      (some (b.names.freshType a.typeName).1) r
  · intro i p hp
    refine Array.getElem?_push.trans ((if_neg ?_).trans hp)
    exact Nat.ne_of_lt (Array.getElem?_eq_some_iff.1 hp).1

theorem grows_declareReturn (cell : ValueId) (b : Draft) (typeName : String) :
    b.Grows cell (b.declareReturn typeName) :=
  { Grows.refl cell b with names := Names.extends_freshType b.names typeName }

/-! ## Lowering -/

theorem parameters_reference (b : Draft) (name : String) :
    (b.reference name).2.function.parameters = b.function.parameters := by
  unfold reference
  dsimp only
  split <;> rfl

theorem parameters_closeBlock (b : Draft) :
    b.closeBlock.2.function.parameters = b.function.parameters := by
  unfold closeBlock
  split <;> rfl

theorem parameters_lower (e : Expression) (b : Draft) :
    (e.lower b).2.function.parameters = b.function.parameters := by
  refine lower_keeps (P := fun b' => b'.function.parameters = b.function.parameters) ?_ e rfl
  intro b' op hop hb'
  refine Eq.trans ?_ hb'
  cases op with
  | addParameter a => cases hop
  | reference name => exact parameters_reference b' name
  | closeBlock => exact parameters_closeBlock b'
  | _ => rfl

theorem blocks_reference (b : Draft) (name : String) : (b.reference name).2.blocks = b.blocks := by
  unfold reference
  dsimp only
  split <;> rfl

theorem blocks_lower (e : Expression) (b : Draft) : (e.lower b).2.blocks = b.blocks := by
  induction e generalizing b with
  | block inner ih =>
      have hb : ((inner.lower b.openBlock).2.append (inner.lower b.openBlock).1).blocks =
          b.openBlock.blocks := ih b.openBlock
      show (closeBlock _).2.blocks = b.blocks
      unfold closeBlock
      rw [hb]
      rfl
  | sequence first next ih ih' =>
      show (next.lower ((first.lower b).2.append (first.lower b).1)).2.blocks = b.blocks
      rw [ih']
      exact ih b
  | binary op left right ih ih' =>
      unfold Expression.lower
      split
      · show (reference _ operatorCallee).2.blocks = b.blocks
        rw [blocks_reference, ih, ih']
      · show (reference _ operatorCallee).2.blocks = b.blocks
        rw [blocks_reference, ih', ih]
  | identifier name => exact blocks_reference b name
  | _ => rfl

theorem current_lower (e : Expression) (b : Draft) : (e.lower b).2.current = b.current := by
  rw [current_eq, current_eq, blocks_lower]

/-- What a block expression adds to a draft does not reach into the block at work. -/
theorem grows_block (cell : ValueId) {inner : Expression} {b : Draft}
    (h : b.openBlock.Grows b.openBlock.current.value (inner.lower b.openBlock).2) :
    b.Grows cell ((Expression.block inner).lower b).2 := by
  have hv : b.openBlock.current.value = b.function.values.size := rfl
  have lowered := (grows_openBlock cell b).trans h (Or.inr (Nat.le_of_eq hv.symm))
  have appended := lowered.trans
    (grows_append (inner.lower b.openBlock).2 (inner.lower b.openBlock).1)
    (Or.inr (by rw [current_lower]; exact Nat.le_of_eq hv.symm))
  exact appended.trans (grows_closeBlock cell _) (Or.inl rfl)

/-- **Lowering an expression writes to the block at work only.** -/
theorem grows_lower (e : Expression) (b : Draft) : b.Grows b.current.value (e.lower b).2 := by
  induction e generalizing b with
  | block inner ih => exact grows_block _ (ih b.openBlock)
  | sequence first next ih ih' =>
      have appended := grows_append (first.lower b).2 (first.lower b).1
      rw [current_lower] at appended
      have lowered := ih' ((first.lower b).2.append (first.lower b).1)
      have hc : ((first.lower b).2.append (first.lower b).1).current = b.current :=
        current_lower first b
      rw [hc] at lowered
      exact ((ih b).trans appended (Or.inl rfl)).trans lowered (Or.inl rfl)
  | declaration d => exact grows_declare _ b d
  | binary op left right ih ih' =>
      unfold Expression.lower
      split
      · have hl := ih (right.lower b).2
        rw [current_lower] at hl
        exact ((ih' b).trans hl (Or.inl rfl)).trans (grows_callOperator _ _ _ _) (Or.inl rfl)
      · have hr := ih' (left.lower b).2
        rw [current_lower] at hr
        exact ((ih b).trans hr (Or.inl rfl)).trans (grows_callOperator _ _ _ _) (Or.inl rfl)
  | identifier name => exact grows_reference _ b name
  | number text => exact grows_addValue _ b _
  | string text => exact grows_addValue _ b _
  | char text => exact grows_addValue _ b _
  | empty => exact .refl _ b

/-! ## A whole function -/

/-- It is still the same function of the same module, and names were added only. -/
structure Continues (b b' : Draft) : Prop where
  id : b'.id = b.id
  name : b'.function.name = b.function.name
  parent : b'.function.parent = b.function.parent
  names : b.names.Extends b'.names

theorem Continues.refl (b : Draft) : b.Continues b := ⟨rfl, rfl, rfl, .refl _⟩

theorem Continues.trans (h : b.Continues b') (h' : b'.Continues b'') : b.Continues b'' where
  id := h'.id.trans h.id
  name := h'.name.trans h.name
  parent := h'.parent.trans h.parent
  names := h.names.trans h'.names

theorem continues_perform (b : Draft) (op : DraftOp) : b.Continues (b.perform op).2 := by
  cases op with
  | declare d => exact ⟨rfl, rfl, rfl, (grows_declare b.current.value b d).names⟩
  | addParameter a => exact ⟨rfl, rfl, rfl, (grows_addParameter b.current.value b a).names⟩
  | declareReturn typeName => exact ⟨rfl, rfl, rfl, Names.extends_freshType b.names typeName⟩
  | closeBlock =>
      show b.Continues b.closeBlock.2
      unfold closeBlock
      split
      · exact ⟨rfl, rfl, rfl, Names.extends_note b.names _⟩
      · exact ⟨rfl, rfl, rfl, .refl _⟩
  | reference name =>
      have grown := grows_reference b.current.value b name
      show b.Continues (b.reference name).2
      refine ⟨grown.id, ?_, ?_, grown.names⟩ <;> unfold reference <;> dsimp only <;> split <;> rfl
  | _ => exact ⟨rfl, rfl, rfl, .refl _⟩

theorem continues_build (d : FunctionDecl) (b : Draft) : b.Continues (d.build b) :=
  build_keeps (fun _ op h => h.trans (continues_perform _ op)) d (.refl b)

end Draft

end Hir

open Hir

theorem Hir.CompilationUnit.extends_addModule (u : CompilationUnit) (parent : ModuleId) (name : String) :
    u.names.Extends (u.addModule parent name).2.names :=
  (Names.extends_note u.names _).trans (Names.extends_intern _ name)

/-- **Lowering a function adds names and changes none.** -/
theorem FunctionDecl.extends_lower (d : FunctionDecl) (parent : ModuleId) (u : CompilationUnit) :
    u.names.Extends (d.lower parent u).names := by
  have started : u.names.Extends (u.startFunction parent d.name).names :=
    (Names.extends_note u.names _).trans (Names.extends_intern _ d.name)
  exact started.trans (Draft.continues_build d (u.startFunction parent d.name)).names

end FrontEnd
