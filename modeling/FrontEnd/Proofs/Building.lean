import FrontEnd.Proofs.Interning
import FrontEnd.Proofs.WellFormed
import FrontEnd.Hir.Lowering

/-!
# The structure of drafts

* `Function.Nested` — the open blocks are blocks, and their scopes lie inside each other.
* `Draft.WellFormed` — a draft of a well-formed function, with nested open blocks and interned names.
* `Draft.Yields` — what an operation that hands out a value keeps: a well-formed draft, and a
  reference into it.
* `Draft.WellFormed.perform` — every operation keeps the structure, as long as the references that it
  is given lead to stored values.
* `Draft.WellFormed.lower` — so does the lowering of an expression.
* `Kept.lowerItems` — the induction over nested declarations, for all that units keep.
-/

namespace FrontEnd

namespace Hir

/-- The innermost of the open blocks, or the root block. -/
def innermost : List BlockFrame → BlockFrame
  | [] => ⟨Function.rootBlock, Function.rootScope⟩
  | block :: _ => block

/-- The open blocks are blocks of their scopes, and each scope lies directly inside the next one. -/
def Function.Nested (f : Function) : List BlockFrame → Prop
  | [] => True
  | block :: rest =>
    f.blockAt? block.value = some block.scope ∧
      f.parent? block.scope = some (innermost rest).scope ∧ f.Nested rest

theorem Function.Nested.mono {f g : Function} {blocks : List BlockFrame} (h : f.Nested blocks)
    (hb : ∀ id s, f.blockAt? id = some s → g.blockAt? id = some s)
    (hp : ∀ s p, f.parent? s = some p → g.parent? s = some p) : g.Nested blocks := by
  induction blocks with
  | nil => trivial
  | cons block rest ih => exact ⟨hb _ _ h.1, hp _ _ h.2.1, ih h.2.2⟩

namespace Draft

theorem current_eq (b : Draft) : b.current = innermost b.blocks := by
  unfold current
  split <;> rename_i h <;> rw [h] <;> rfl

/-- The structure of a draft. -/
structure WellFormed (b : Draft) : Prop where
  function : b.function.WellFormed
  blocks : b.function.Nested b.blocks
  interned : ∀ id x, b.function.varAt? id = some x → x.name < b.names.symbols.size

/-- The result of an operation that hands out a value: the draft is well-formed and has lost nothing,
and the value is stored in it. -/
structure Yields (b : Draft) (result : Ref × Draft) : Prop where
  wellFormed : result.2.WellFormed
  below : result.1.Below result.2.function.values.size
  size : b.function.values.size ≤ result.2.function.values.size

theorem Yields.of_size {b b' : Draft} (h : b'.WellFormed)
    (hs : b'.function.values.size = b.function.values.size + 1) :
    b.Yields (.slot b.function.values.size, b') where
  wellFormed := h
  below := by
    show b.function.values.size < b'.function.values.size
    omega
  size := by
    show b.function.values.size ≤ b'.function.values.size
    omega

theorem Yields.of_le {b b' : Draft} {result : Ref × Draft} (h : b'.Yields result)
    (hs : b.function.values.size ≤ b'.function.values.size) : b.Yields result :=
  ⟨h.wellFormed, h.below, Nat.le_trans hs h.size⟩

namespace WellFormed

variable {b : Draft}

/-- The current block is a block, so instructions are not lost. -/
theorem current (h : b.WellFormed) :
    b.function.blockAt? b.current.value = some b.current.scope := by
  rw [current_eq]
  obtain ⟨names, id, f, blocks⟩ := b
  cases blocks with
  | nil => exact h.function.blocks.root
  | cons block rest => exact h.blocks.1

theorem current_scope_lt (h : b.WellFormed) : b.current.scope < b.function.scopes.size :=
  h.function.blocks.scope _ _ h.current

theorem current_value_lt (h : b.WellFormed) : b.current.value < b.function.values.size :=
  Function.lt_size_of_blockAt? h.current

/-- Around the scope of an open block lies the scope of the next open block. -/
theorem chain_current (h : b.WellFormed) {block : BlockFrame} {rest : List BlockFrame}
    (hb : b.blocks = block :: rest) :
    b.function.chain b.current.scope =
      b.current.scope :: b.function.chain (innermost rest).scope := by
  have hs := h.current_scope_lt
  have hparent : b.function.parent? b.current.scope = some (innermost rest).scope := by
    have := h.blocks
    rw [hb] at this
    rw [current_eq, hb]
    exact this.2.1
  have hroot : b.current.scope ≠ Function.rootScope := by
    intro hr
    rw [hr, h.function.scopes.root.1] at hparent
    cases hparent
  obtain ⟨p, n, hp, -, -, -, hc, -⟩ := h.function.scopes.nested _ hs hroot
  rw [hparent] at hp
  cases hp
  exact hc

theorem withNames (h : b.WellFormed) {n : Names}
    (hn : b.names.symbols.size ≤ n.symbols.size) : ({ b with names := n } : Draft).WellFormed where
  function := h.function
  blocks := h.blocks
  interned := fun id x hx => Nat.lt_of_lt_of_le (h.interned id x hx) hn

theorem openBlock (h : b.WellFormed) : b.openBlock.WellFormed where
  function := h.function.addBlock h.current_scope_lt
  blocks := by
    refine ⟨?_, ?_, h.blocks.mono ?_ ?_⟩
    · exact (Function.blockAt?_addValue _ _ _).trans (if_pos rfl)
    · refine (Function.parent?_addScope b.function _ _).trans ?_
      rw [if_pos rfl, Function.chain_eq_cons h.current_scope_lt, ← current_eq]
      rfl
    · intro id s hs
      refine (Function.blockAt?_addValue _ _ _).trans ?_
      rw [if_neg]
      · exact hs
      · exact Nat.ne_of_lt (Function.lt_size_of_blockAt? hs)
    · intro s p hs
      refine (Function.parent?_addScope b.function _ _).trans ?_
      rw [if_neg (Nat.ne_of_lt (Function.lt_size_of_parent? hs)), hs]
  interned := by
    intro id x hx
    have hx := (Function.varAt?_addValue _ _ _).symm.trans hx
    split at hx
    · cases hx
    · exact h.interned id x hx

theorem append (h : b.WellFormed) {r : Ref} (hr : r.Below b.function.values.size) :
    (b.append r).WellFormed where
  function := h.function.append hr
  blocks := h.blocks.mono (fun id s hs => by rw [← hs]; exact Function.blockAt?_append _ _ _ _)
    fun _ _ hp => hp
  interned := by
    intro id x hx
    exact h.interned id x ((Function.varAt?_append _ _ _ _).symm.trans hx)

theorem addValue (h : b.WellFormed) {v : Value} (hb : v.blockScope? = none)
    (hx : ∀ x, v.asVariable? = some x → x.resolution = .unresolved ∧ x.name < b.names.symbols.size)
    (hv : v.RefersBelow b.function.values.size (b.function.values.size + 1)) :
    b.Yields (b.addValue v) := by
  refine Yields.of_size ⟨?_, ?_, ?_⟩ (Function.size_values_addValue _ _)
  · exact h.function.addValue hb (fun x hv => (hx x hv).1) hv
  · refine h.blocks.mono (fun id s hs => ?_) fun _ _ hp => hp
    rw [← hs]
    refine (Function.blockAt?_addValue _ _ _).trans (if_neg ?_)
    exact Nat.ne_of_lt (Function.lt_size_of_blockAt? hs)
  · intro id x hid
    have hid := (Function.varAt?_addValue _ _ _).symm.trans hid
    split at hid
    · exact (hx x hid).2
    · exact h.interned id x hid

theorem closeBlock (h : b.WellFormed) : b.Yields b.closeBlock := by
  have hcurrent := h.current_value_lt
  rw [current_eq] at hcurrent
  unfold Draft.closeBlock
  split
  · rename_i hb
    rw [hb] at hcurrent
    exact ⟨h.withNames (Nat.le_refl _), hcurrent, Nat.le_refl _⟩
  · rename_i block rest hb
    have hblocks := h.blocks
    rw [hb] at hcurrent hblocks
    exact ⟨⟨h.function, hblocks.2.2, h.interned⟩, hcurrent, Nat.le_refl _⟩

/-- A variable with an interned name is declared in a scope that exists. -/
theorem addVariable (h : b.WellFormed) {s : ScopeId} {x : Variable} {t : Option TypeId}
    (hs : s < b.function.scopes.size) (hr : x.resolution = .declared)
    (hx : x.name < b.names.symbols.size) :
    ({ b with function := b.function.addVariable s x t } : Draft).WellFormed where
  function := h.function.addVariable hs hr
  blocks := h.blocks.mono (fun id s hs => by rw [← hs]; exact Function.blockAt?_addVariable ..)
    fun s p hp => by rw [← hp]; exact Function.parent?_addVariable ..
  interned := by
    intro id y hid
    have hid := (Function.varAt?_addVariable _ _ _ _ _).symm.trans hid
    split at hid
    · cases hid
      exact hx
    · exact h.interned id y hid

theorem declareReturn (h : b.WellFormed) (typeName : String) :
    (b.declareReturn typeName).WellFormed where
  function := h.function.setReturnType
  blocks := h.blocks.mono (fun _ _ hs => hs) fun _ _ hp => hp
  interned := (h.withNames (Names.extends_freshType b.names typeName).size).interned

/-- A name has been interned behind a request for a type. -/
theorem lt_size_intern (n : Names) (name : String) :
    (n.intern name).1 < (n.intern name).2.symbols.size :=
  SymbolTable.lt_size_of_lookup SymbolTable.lookup_intern_self

theorem declare (h : b.WellFormed) (d : VariableDecl) : b.Yields (b.declare d) := by
  have hn := (Names.extends_freshType? b.names d.typeName).trans (Names.extends_intern _ d.name)
  refine Yields.of_size ?_ (Function.size_values_addVariable _ _ _ _)
  exact (h.withNames hn.size).addVariable h.current_scope_lt rfl (lt_size_intern _ _)

theorem addParameter (h : b.WellFormed) (a : Argument) : b.Yields (b.addParameter a) := by
  have hn := (Names.extends_freshType b.names a.typeName).trans (Names.extends_intern _ a.name)
  have hroot := Function.lt_size_of_depth? h.function.scopes.root.2
  obtain ⟨-, blocks, interned⟩ := (h.withNames hn.size).addVariable
    (x := ⟨((b.names.freshType a.typeName).2.intern a.name).1, false, .declared⟩)
    (t := some (b.names.freshType a.typeName).1) hroot rfl (lt_size_intern _ _)
  refine Yields.of_size ⟨?_, ?_, interned⟩ (Array.size_push _)
  · exact h.function.addParameter
  · exact blocks.mono (fun _ _ hs => hs) fun _ _ hp => hp

theorem literal (h : b.WellFormed) (kind : LiteralKind) (text : String) :
    b.Yields (b.literal kind text) :=
  h.addValue rfl (fun _ hx => by cases hx) trivial

theorem call (h : b.WellFormed) {callee : Ref} {arguments : List Ref}
    (hr : ∀ r ∈ callee :: arguments, r.Below b.function.values.size) :
    b.Yields (b.call callee arguments) :=
  h.addValue rfl (fun _ hx => by cases hx) hr

theorem reference (h : b.WellFormed) (name : String) : b.Yields (b.reference name) := by
  have hn := Names.extends_intern b.names name
  unfold Draft.reference
  dsimp only
  split
  · rename_i v hv
    obtain ⟨x, hx, -⟩ := h.function.varAt?_of_lookup hv
    exact ⟨h.withNames hn.size, Function.lt_size_of_varAt? hx, Nat.le_refl _⟩
  · have registered := h.withNames (Names.extends_register b.names name (.unresolvedVariable name)
      (.var b.id b.function.values.size (b.names.intern name).1)).size
    have stored := registered.addValue
      (v := ⟨.var ⟨(b.names.intern name).1, false, .unresolved⟩, none⟩) rfl
      (fun x hx => by cases hx; exact ⟨rfl, lt_size_intern b.names name⟩) trivial
    exact stored.of_le (Nat.le_refl _)

end WellFormed

end Draft

/-- The references that an operation puts into the function. -/
def DraftOp.references : DraftOp → List Ref
  | append instruction => [instruction]
  | call callee arguments => callee :: arguments
  | _ => []

namespace Draft

variable {b : Draft}

/-- **Every operation keeps the structure of a draft**, if the references that it is given lead to
stored values.  What it hands out leads to a stored value again, and no value is lost. -/
theorem WellFormed.perform (h : b.WellFormed) (op : DraftOp)
    (hr : ∀ r ∈ op.references, r.Below b.function.values.size) :
    (b.perform op).2.WellFormed ∧
      b.function.values.size ≤ (b.perform op).2.function.values.size ∧
      ∀ r, (b.perform op).1 = some r → r.Below (b.perform op).2.function.values.size := by
  have handOut : ∀ v : Ref × Draft, b.Yields v →
      (handOut v).2.WellFormed ∧ b.function.values.size ≤ (handOut v).2.function.values.size ∧
        ∀ r, (handOut v).1 = some r → r.Below (handOut v).2.function.values.size := by
    rintro v ⟨wellFormed, below, size⟩
    exact ⟨wellFormed, size, fun r hr => by cases hr; exact below⟩
  cases op with
  | openBlock =>
      refine ⟨h.openBlock, ?_, fun r hr => by cases hr⟩
      show b.function.values.size ≤ ((b.function.addScope _).addValue _).values.size
      rw [Function.size_values_addValue]
      exact Nat.le_succ _
  | closeBlock => exact handOut _ h.closeBlock
  | append v =>
      refine ⟨h.append (hr v List.mem_cons_self), ?_, fun r hr => by cases hr⟩
      exact Nat.le_of_eq (Function.size_values_append _ _ _).symm
  | declare d => exact handOut _ (h.declare d)
  | reference name => exact handOut _ (h.reference name)
  | literal kind text => exact handOut _ (h.literal kind text)
  | call callee arguments => exact handOut _ (h.call hr)
  | addParameter a => exact handOut _ (h.addParameter a)
  | declareReturn typeName =>
      exact ⟨h.declareReturn typeName, Nat.le_refl _, fun r hr => by cases hr⟩

/-! ## Lowering -/

theorem WellFormed.addParameters (h : b.WellFormed) (arguments : List Argument) :
    (b.addParameters arguments).WellFormed ∧
      b.function.values.size ≤ (b.addParameters arguments).function.values.size := by
  induction arguments generalizing b with
  | nil => exact ⟨h, Nat.le_refl _⟩
  | cons a rest ih =>
      obtain ⟨wellFormed, -, size⟩ := h.addParameter a
      obtain ⟨wellFormed', size'⟩ := ih wellFormed
      exact ⟨wellFormed', Nat.le_trans size size'⟩

/-- The value that was handed out is put into the current block. -/
theorem Yields.append {result : Ref × Draft} (h : b.Yields result) :
    (result.2.append result.1).WellFormed ∧
      b.function.values.size ≤ (result.2.append result.1).function.values.size := by
  refine ⟨h.wellFormed.append h.below, ?_⟩
  show _ ≤ (result.2.function.append _ _).values.size
  rw [Function.size_values_append]
  exact h.size

theorem WellFormed.callOperator (h : b.WellFormed) {l r : Ref}
    (hl : l.Below b.function.values.size) (hr : r.Below b.function.values.size) :
    b.Yields (b.callOperator l r) := by
  obtain ⟨wellFormed, below, size⟩ := h.reference operatorCallee
  refine (wellFormed.call fun x hx => ?_).of_le size
  rcases List.mem_cons.1 hx with rfl | hx
  · exact below
  rcases List.mem_cons.1 hx with rfl | hx
  · exact hl.mono size
  · rw [List.mem_singleton.1 hx]
    exact hr.mono size

/-- **Lowering an expression keeps the structure of a draft.** -/
theorem WellFormed.lower (h : b.WellFormed) (e : Expression) : b.Yields (e.lower b) := by
  induction e generalizing b with
  | block inner ih =>
      have hv := ih h.openBlock
      obtain ⟨wellFormed, size⟩ := hv.append
      refine wellFormed.closeBlock.of_le (Nat.le_trans ?_ size)
      show b.function.values.size ≤ ((b.function.addScope _).addValue _).values.size
      rw [Function.size_values_addValue]
      exact Nat.le_succ _
  | sequence first next ih ih' =>
      obtain ⟨wellFormed, size⟩ := (ih h).append
      exact (ih' wellFormed).of_le size
  | declaration d => exact h.declare d
  | binary op left right ih ih' =>
      unfold Expression.lower
      split
      · have hr := ih' h
        have hl := ih hr.wellFormed
        exact (hl.wellFormed.callOperator hl.below (hr.below.mono hl.size)).of_le
          (Nat.le_trans hr.size hl.size)
      · have hl := ih h
        have hr := ih' hl.wellFormed
        exact (hr.wellFormed.callOperator (hl.below.mono hr.size) hr.below).of_le
          (Nat.le_trans hl.size hr.size)
  | identifier name => exact h.reference name
  | number text => exact h.literal .int text
  | string text => exact h.literal .string text
  | char text => exact h.literal .char text
  | empty => exact ⟨h, trivial, Nat.le_refl _⟩

theorem wellFormed_start (u : CompilationUnit) (parent : ModuleId) (name : String) :
    (u.startFunction parent name).WellFormed where
  function := Function.wellFormed_fresh _ parent
  blocks := trivial
  interned := by
    intro id x hx
    cases (Function.varAt?_fresh id).symm.trans hx

theorem WellFormed.build (h : b.WellFormed) (f : FunctionDecl) : (f.build b).WellFormed :=
  (((h.addParameters f.arguments).1.declareReturn f.returnType).lower (.block f.body)).append.1

end Draft

end Hir

open Hir

/-- What a unit keeps when a module is made and when a function is lowered. -/
structure Kept (P : CompilationUnit → Prop) : Prop where
  addModule : ∀ u parent name, P u → P (u.addModule parent name).2
  lower : ∀ u parent (d : FunctionDecl), P u → P (d.lower parent u)

mutual

theorem Kept.lowerItem {P : CompilationUnit → Prop} (kept : Kept P) {u : CompilationUnit} (h : P u)
    (parent : ModuleId) : ∀ item : Item, P (item.lower parent u)
  | .module name items => by
      rw [Item.lower]
      exact kept.lowerItems (kept.addModule u parent name h) _ items
  | .function d => by
      rw [Item.lower]
      exact kept.lower u parent d h

/-- **What modules and functions keep, declarations keep**, however they are nested. -/
theorem Kept.lowerItems {P : CompilationUnit → Prop} (kept : Kept P) {u : CompilationUnit} (h : P u)
    (parent : ModuleId) : ∀ items : List Item, P (lowerItems parent items u)
  | [] => by
      rw [FrontEnd.lowerItems]
      exact h
  | item :: rest => by
      rw [FrontEnd.lowerItems]
      exact kept.lowerItems (kept.lowerItem h parent item) parent rest

end

end FrontEnd
