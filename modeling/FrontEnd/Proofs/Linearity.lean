import FrontEnd.Proofs.Elaboration
import FrontEnd.Proofs.ValueGraph

/-!
# Values are used linearly

While a function is built, some references are pending: values were handed out that nothing in the
function refers to yet, and blocks are open.

* `Function.Linear` — with the pending references counted in, nothing is referred to twice but declared
  variables, and all values are reached from the root block or from what is pending.
* `Linear.push`, `Linear.append` — a value takes the references in it from what is pending and becomes
  pending itself, and a block takes its instruction.
* `Function.Shapely` — calls are calls of the operator with two arguments, and what stands in a block is
  younger than the block, unless it is a variable.
* `Draft.Linear.lower` — lowering an expression keeps both, and its value is one more pending reference.
-/

namespace FrontEnd

namespace Hir

namespace Function

/-- The value at the position is a declared variable. -/
def Declares (f : Function) (id : ValueId) : Prop :=
  ∃ x, f.varAt? id = some x ∧ x.resolution = .declared

/-- The value at the position is the variable of an argument. -/
def HasArgument (f : Function) (id : ValueId) : Prop := ∃ p ∈ f.parameters, p.value = id

/-- How many references lead to a value, the pending ones included. -/
def holders (f : Function) (pending : List Ref) (id : ValueId) : Nat :=
  f.uses id + pending.count (.slot id)

/-- Each value is used once, in the function or by a pending reference.  The root block is used nowhere,
and only declared variables may be used more often. -/
structure Linear (f : Function) (pending : List Ref) : Prop where
  below : ∀ r ∈ pending, r.Below f.values.size
  root : f.holders pending rootBlock = 0
  once : ∀ id, id < f.values.size → id ≠ rootBlock → ¬ f.Declares id → f.holders pending id = 1
  declared : ∀ id, f.Declares id → ¬ f.HasArgument id → 0 < f.holders pending id
  reached : ∀ id, id < f.values.size → id ≠ rootBlock → ¬ f.HasArgument id →
    ∃ a, (a = rootBlock ∨ .slot a ∈ pending) ∧ f.Reaches a id

variable {f g : Function} {v : Value} {r : Ref} {id block : ValueId} {s : ScopeId} {p q : List Ref}

theorem WellFormed.rootBlock_lt (h : f.WellFormed) : rootBlock < f.values.size :=
  lt_size_of_blockAt? h.blocks.root

theorem Declares.ne_rootBlock (h : f.Declares id) (hw : f.WellFormed) : id ≠ rootBlock := by
  rintro rfl
  obtain ⟨x, hx, -⟩ := h
  have hs := hw.blocks.root
  unfold varAt? at hx
  unfold blockAt? at hs
  obtain ⟨⟨kind, type⟩, hv, hb⟩ := Option.bind_eq_some_iff.1 hs
  rw [hv] at hx
  cases kind with
  | block => cases hx
  | _ => cases hb

/-! ## What is pending -/

/-- What is pending matters up to order and unit values. -/
theorem Linear.congr (h : f.Linear p) (hc : ∀ id, q.count (.slot id) = p.count (.slot id)) :
    f.Linear q := by
  have same : f.holders q = f.holders p := by
    funext id
    unfold holders
    rw [hc]
  have mem : ∀ a, Ref.slot a ∈ q ↔ Ref.slot a ∈ p := by
    intro a
    rw [← List.count_pos_iff, hc, List.count_pos_iff]
  refine ⟨?_, ?_, ?_, ?_, ?_⟩
  · intro r hr
    cases r with
    | unit => trivial
    | slot a => exact h.below _ ((mem a).1 hr)
  · rw [same]
    exact h.root
  · rw [same]
    exact h.once
  · rw [same]
    exact h.declared
  · intro id hid hroot hargument
    obtain ⟨a, ha, path⟩ := h.reached id hid hroot hargument
    exact ⟨a, ha.imp_right (mem a).2, path⟩

theorem Linear.perm (h : f.Linear p) (hp : q.Perm p) : f.Linear q :=
  h.congr fun id => hp.count_eq (.slot id)

theorem Linear.unit (h : f.Linear p) : f.Linear (.unit :: p) :=
  h.congr fun id => List.count_cons_of_ne (by simp)

theorem Linear.take (h : f.Linear p) (hw : f.WellFormed) (hd : f.Declares id) :
    f.Linear (.slot id :: p) := by
  have other : ∀ a, a ≠ id → f.holders (.slot id :: p) a = f.holders p a := by
    intro a ha
    unfold holders
    rw [List.count_cons_of_ne (fun he => ha (Ref.slot.inj he).symm)]
  refine ⟨?_, ?_, ?_, ?_, ?_⟩
  · intro r hr
    rcases List.mem_cons.1 hr with rfl | hr
    · obtain ⟨x, hx, -⟩ := hd
      exact lt_size_of_varAt? hx
    · exact h.below r hr
  · rw [other _ (hd.ne_rootBlock hw).symm]
    exact h.root
  · intro a ha hroot hdeclared
    have hne : a ≠ id := fun he => hdeclared (he ▸ hd)
    rw [other a hne]
    exact h.once a ha hroot hdeclared
  · intro a ha hargument
    have := h.declared a ha hargument
    unfold holders at this ⊢
    rw [List.count_cons]
    omega
  · intro a ha hroot hargument
    obtain ⟨start, hs, path⟩ := h.reached a ha hroot hargument
    exact ⟨start, hs.imp_right (List.mem_cons_of_mem _), path⟩

/-! ## Storing a value -/

section

variable (hv : g.values = f.values.push v)

include hv

theorem size_values_push : g.values.size = f.values.size + 1 := by
  rw [hv, Array.size_push]

theorem lt_size_of_push (hid : id < g.values.size) (hne : id ≠ f.values.size) :
    id < f.values.size := by
  rw [size_values_push hv] at hid
  exact Nat.lt_of_le_of_ne (Nat.le_of_lt_succ hid) hne

theorem varAt?_push (hid : id ≠ f.values.size) : g.varAt? id = f.varAt? id := by
  unfold varAt?
  rw [values_push hv, if_neg hid]

theorem declares_push (hid : id ≠ f.values.size) : g.Declares id ↔ f.Declares id := by
  unfold Declares
  rw [varAt?_push hv hid]

theorem holders_push (p : List Ref) (hid : id ≠ f.values.size) :
    g.holders (.slot f.values.size :: p) id = f.holders (v.references ++ p) id := by
  unfold holders
  rw [uses_push hv, List.count_append, List.count_cons_of_ne (fun he => hid (Ref.slot.inj he).symm),
    Nat.add_assoc]

/-- Nothing but the pending reference leads to a new value. -/
theorem Linear.holders_push_self (h : f.Linear (v.references ++ p)) (hw : f.WellFormed) :
    g.holders (.slot f.values.size :: p) f.values.size = 1 := by
  have unused := hw.references.uses_eq_zero (Nat.le_refl f.values.size)
  have absent : (v.references ++ p).count (.slot f.values.size) = 0 :=
    List.count_eq_zero_of_not_mem fun hr => Nat.lt_irrefl _ (h.below _ hr)
  rw [List.count_append] at absent
  unfold holders
  rw [uses_push hv, List.count_cons_self]
  omega

/-- **A new value takes the references in it** from what is pending, and is pending itself. -/
theorem Linear.push (h : f.Linear (v.references ++ p)) (hw : f.WellFormed)
    (hp : g.parameters = f.parameters) : g.Linear (.slot f.values.size :: p) := by
  have new := h.holders_push_self hv hw
  have size := size_values_push hv
  have argument : ∀ id, g.HasArgument id ↔ f.HasArgument id := by
    intro id
    unfold HasArgument
    rw [hp]
  refine ⟨?_, ?_, ?_, ?_, ?_⟩
  · intro r hr
    rw [size]
    rcases List.mem_cons.1 hr with rfl | hr
    · exact Nat.lt_succ_self _
    · exact (h.below r (List.mem_append_right _ hr)).mono (Nat.le_succ _)
  · rw [holders_push hv p (Nat.ne_of_lt hw.rootBlock_lt)]
    exact h.root
  · intro id hid hroot hdeclared
    by_cases he : id = f.values.size
    · rw [he, new]
    · rw [holders_push hv p he]
      rw [declares_push hv he] at hdeclared
      exact h.once id (lt_size_of_push hv hid he) hroot hdeclared
  · intro id hdeclared hargument
    by_cases he : id = f.values.size
    · rw [he, new]
      exact Nat.zero_lt_one
    · rw [holders_push hv p he]
      rw [declares_push hv he] at hdeclared
      rw [argument] at hargument
      exact h.declared id hdeclared hargument
  · intro id hid hroot hargument
    by_cases he : id = f.values.size
    · exact ⟨id, .inr (he ▸ List.mem_cons_self), .refl⟩
    · rw [argument] at hargument
      obtain ⟨a, ha, path⟩ := h.reached id (lt_size_of_push hv hid he) hroot hargument
      have path := path.push hv
      rcases ha with ha | ha
      · exact ⟨a, .inl ha, path⟩
      rcases List.mem_append.1 ha with ha | ha
      · exact ⟨f.values.size, .inr List.mem_cons_self, .head (refersTo_push hv ha) path⟩
      · exact ⟨a, .inr (List.mem_cons_of_mem _ ha), path⟩

/-- The variable of an argument need not be used. -/
theorem Linear.pushArgument (h : f.Linear p) {a : Parameter} {x : Variable}
    (hx : v.asVariable? = some x) (hr : x.resolution = .declared)
    (hp : g.parameters = f.parameters.push a) (ha : a.value = f.values.size) : g.Linear p := by
  have same : ∀ id, g.holders p id = f.holders p id := by
    intro id
    unfold holders
    rw [uses_push hv, Value.references_of_asVariable? hx, List.count_nil, Nat.add_zero]
  have new : g.Declares f.values.size := by
    refine ⟨x, ?_, hr⟩
    unfold varAt?
    rw [values_push hv, if_pos rfl]
    exact hx
  have size := size_values_push hv
  have argument : ∀ id, ¬ g.HasArgument id → id ≠ f.values.size ∧ ¬ f.HasArgument id := by
    intro id hid
    rw [HasArgument, hp] at hid
    refine ⟨?_, ?_⟩
    · rintro rfl
      exact hid ⟨a, Array.mem_push_self, ha⟩
    · rintro ⟨b, hb, he⟩
      exact hid ⟨b, Array.mem_push_of_mem _ hb, he⟩
  refine ⟨?_, ?_, ?_, ?_, ?_⟩
  · intro r hr
    rw [size]
    exact (h.below r hr).mono (Nat.le_succ _)
  · rw [same]
    exact h.root
  · intro id hid hroot hdeclared
    have he : id ≠ f.values.size := fun he => hdeclared (he ▸ new)
    rw [declares_push hv he] at hdeclared
    rw [same]
    exact h.once id (lt_size_of_push hv hid he) hroot hdeclared
  · intro id hdeclared hargument
    obtain ⟨he, hargument⟩ := argument id hargument
    rw [declares_push hv he] at hdeclared
    rw [same]
    exact h.declared id hdeclared hargument
  · intro id hid hroot hargument
    obtain ⟨he, hargument⟩ := argument id hargument
    obtain ⟨start, hs, path⟩ := h.reached id (lt_size_of_push hv hid he) hroot hargument
    exact ⟨start, hs, path.push hv⟩

end

/-! ## An instruction in a block -/

/-- **A block takes its instruction** from what is pending, if it is the root block or pending itself. -/
theorem Linear.append (h : f.Linear (r :: p)) (hb : f.blockAt? block = some s)
    (hp : block = rootBlock ∨ .slot block ∈ p) : (f.append block r).Linear p := by
  have same : (f.append block r).holders p = f.holders (r :: p) := by
    funext id
    unfold holders
    rw [uses_append hb, Nat.add_assoc, ← List.count_append, List.singleton_append]
  have declares : (f.append block r).Declares = f.Declares := by
    funext id
    unfold Declares
    rw [varAt?_append]
  have size := size_values_append f block r
  refine ⟨?_, ?_, ?_, ?_, ?_⟩
  · intro x hx
    rw [size]
    exact h.below x (List.mem_cons_of_mem _ hx)
  · rw [same]
    exact h.root
  · rw [same, size, declares]
    exact h.once
  · rw [same, declares]
    exact h.declared
  · intro id hid hroot hargument
    rw [size] at hid
    obtain ⟨a, ha, path⟩ := h.reached id hid hroot hargument
    have path := path.append hb r
    rcases ha with ha | ha
    · exact ⟨a, .inl ha, path⟩
    rcases List.mem_cons.1 ha with rfl | ha
    · exact ⟨block, hp, .head (refersTo_append hb a) path⟩
    · exact ⟨a, .inr ha, path⟩

/-! ## The shape of the values -/

def IsOperator (n : Names) (f : Function) (r : Ref) : Prop :=
  ∃ id x, r = .slot id ∧ f.varAt? id = some x ∧ n.symbols.name? x.name = some operatorCallee

/-- The reference is the unit value or leads to a variable, or to a value behind the block. -/
def Inner (f : Function) (block : ValueId) : Ref → Prop
  | .unit => True
  | .slot id => (∃ x, f.varAt? id = some x) ∨ block < id

/-- The shape of the value at a position: a call is a call of the operator, with two arguments, and of
what stands in a block only variables may be older than the block. -/
def Shaped (n : Names) (f : Function) (id : ValueId) (v : Value) : Prop :=
  match v.kind with
  | .call callee arguments => f.IsOperator n callee ∧ arguments.length = 2
  | .block _ instructions => ∀ r ∈ instructions, f.Inner id r
  | _ => True

/-- All values have this shape. -/
def Shapely (n : Names) (f : Function) : Prop :=
  ∀ (id : ValueId) (v : Value), f.values[id]? = some v → f.Shaped n id v

variable {n n' : Names}

theorem IsOperator.mono (h : f.IsOperator n r) (hn : n.Extends n')
    (hx : ∀ id x, f.varAt? id = some x → g.varAt? id = some x) : g.IsOperator n' r := by
  obtain ⟨id, x, he, hid, hname⟩ := h
  rw [← SymbolTable.lookup_eq_some_iff] at hname
  exact ⟨id, x, he, hx id x hid, SymbolTable.lookup_eq_some_iff.1 (hn.symbols _ _ hname)⟩

theorem Inner.mono (h : f.Inner block r)
    (hx : ∀ id x, f.varAt? id = some x → g.varAt? id = some x) : g.Inner block r := by
  cases r with
  | unit => trivial
  | slot id =>
      rcases h with ⟨x, hid⟩ | hlt
      · exact .inl ⟨x, hx id x hid⟩
      · exact .inr hlt

theorem Shaped.mono (h : f.Shaped n id v) (hn : n.Extends n')
    (hx : ∀ id x, f.varAt? id = some x → g.varAt? id = some x) : g.Shaped n' id v := by
  obtain ⟨kind, type⟩ := v
  cases kind with
  | call callee arguments => exact ⟨h.1.mono hn hx, h.2⟩
  | block scope instructions => exact fun r hr => (h r hr).mono hx
  | _ => trivial

theorem Shapely.mono (h : f.Shapely n) (hn : n.Extends n') : f.Shapely n' :=
  fun id v hv => (h id v hv).mono hn fun _ _ hx => hx

theorem Shapely.push (h : f.Shapely n) (hv : g.values = f.values.push v)
    (hs : f.Shaped n f.values.size v) : g.Shapely n := by
  have grown : ∀ id x, f.varAt? id = some x → g.varAt? id = some x := by
    intro id x hx
    rw [varAt?_push hv (Nat.ne_of_lt (lt_size_of_varAt? hx)), hx]
  intro id w hw
  rw [values_push hv] at hw
  split at hw
  · rename_i he
    cases hw
    exact he ▸ hs.mono (.refl n) grown
  · exact (h id w hw).mono (.refl n) grown

theorem Shapely.append (h : f.Shapely n) (hr : f.Inner block r) : (f.append block r).Shapely n := by
  have grown : ∀ id x, f.varAt? id = some x → (f.append block r).varAt? id = some x := by
    intro id x hx
    rw [varAt?_append, hx]
  intro id w hw
  rw [values_append] at hw
  split at hw
  · rename_i he
    obtain ⟨v, hv, rfl⟩ := Option.map_eq_some_iff.1 hw
    have hs : f.Shaped n id (v.append r) := by
      have hs := h id v hv
      obtain ⟨kind, type⟩ := v
      cases kind with
      | block scope instructions =>
          intro x hx
          rcases Array.mem_push.1 hx with hx | rfl
          · exact hs x hx
          · exact he ▸ hr
      | _ => exact hs
    exact hs.mono (.refl n) grown
  · exact (h id w hw).mono (.refl n) grown

end Function

namespace Draft

/-- The open blocks, as references. -/
def opened (b : Draft) : List Ref := b.blocks.map fun block => .slot block.value

/-- The function under construction uses its values linearly, if the references in hand are put into it
yet and the open blocks are closed. -/
structure Linear (b : Draft) (hand : List Ref) : Prop where
  wellFormed : b.WellFormed
  linear : b.function.Linear (hand ++ b.opened)
  shapely : b.function.Shapely b.names

variable {b b' : Draft} {hand : List Ref} {v : Value} {r : Ref}

theorem Linear.withNames (h : b.Linear hand) {n : Names} (hn : b.names.Extends n) :
    ({ b with names := n } : Draft).Linear hand where
  wellFormed := h.wellFormed.withNames hn.size
  linear := h.linear
  shapely := h.shapely.mono hn

theorem Linear.unit (h : b.Linear hand) : b.Linear (.unit :: hand) :=
  { h with linear := h.linear.unit }

theorem Linear.perm (h : b.Linear hand) {hand' : List Ref} (hp : hand'.Perm hand) :
    b.Linear hand' :=
  { h with linear := h.linear.perm (hp.append_right _) }

theorem Linear.addValue (h : b.Linear (v.references ++ hand))
    (hw : (b.addValue v).2.WellFormed) (hs : b.function.Shaped b.names b.function.values.size v) :
    (b.addValue v).2.Linear ((b.addValue v).1 :: hand) where
  wellFormed := hw
  linear := by
    have pending := h.linear
    rw [List.append_assoc] at pending
    exact pending.push rfl h.wellFormed.function rfl
  shapely := h.shapely.push rfl hs

theorem Linear.literal (h : b.Linear hand) (kind : LiteralKind) (text : String) :
    (b.literal kind text).2.Linear ((b.literal kind text).1 :: hand) :=
  Linear.addValue (v := ⟨.literal kind text, none⟩) h (h.wellFormed.literal kind text).wellFormed trivial

theorem Linear.declare (h : b.Linear hand) (d : VariableDecl) :
    (b.declare d).2.Linear ((b.declare d).1 :: hand) where
  wellFormed := (h.wellFormed.declare d).wellFormed
  linear := Function.Linear.push (v := ⟨.var ⟨_, d.isMutable, .declared⟩, _⟩) rfl h.linear
    h.wellFormed.function rfl
  shapely := by
    have hn := (Names.extends_freshType? b.names d.typeName).trans (Names.extends_intern _ d.name)
    exact (h.shapely.mono hn).push (v := ⟨.var ⟨_, d.isMutable, .declared⟩, _⟩) rfl trivial

theorem Linear.call {callee : Ref} {arguments : List Ref} (h : b.Linear (callee :: arguments ++ hand))
    (ho : b.function.IsOperator b.names callee) (ha : arguments.length = 2) :
    (b.call callee arguments).2.Linear ((b.call callee arguments).1 :: hand) := by
  have below : ∀ r ∈ callee :: arguments, r.Below b.function.values.size :=
    fun r hr => h.linear.below r (List.mem_append_left _ (List.mem_append_left _ hr))
  exact Linear.addValue (v := ⟨.call callee arguments, none⟩) h (h.wellFormed.call below).wellFormed
    ⟨ho, ha⟩

/-- A name is lowered to a variable of that name. -/
theorem WellFormed.reference_named (h : b.WellFormed) (name : String) :
    ∃ id x, (b.reference name).1 = .slot id ∧ (b.reference name).2.function.varAt? id = some x ∧
      (b.reference name).2.names.symbols.name? x.name = some name := by
  have interned : (b.names.intern name).2.symbols.name? (b.names.intern name).1 = some name :=
    SymbolTable.lookup_eq_some_iff.1 SymbolTable.lookup_intern_self
  unfold Draft.reference
  dsimp only
  split
  · rename_i id hl
    obtain ⟨x, hx, -, hname⟩ := h.function.varAt?_of_lookup hl
    exact ⟨id, x, rfl, hx, hname ▸ interned⟩
  · exact ⟨_, _, rfl, (Function.varAt?_addValue _ _ _).trans (if_pos rfl), interned⟩

/-- A name that is bound is one more reference to its variable, and another name a new variable. -/
theorem Linear.reference (h : b.Linear hand) (name : String) :
    (b.reference name).2.Linear ((b.reference name).1 :: hand) := by
  have hw := (h.wellFormed.reference name).wellFormed
  cases hl : b.function.lookup b.current.scope (b.names.intern name).1 with
  | some id =>
      simp only [Draft.reference, hl]
      obtain ⟨x, hx, hr, -⟩ := h.wellFormed.function.varAt?_of_lookup hl
      exact { h.withNames (Names.extends_intern b.names name) with
        linear := h.linear.take h.wellFormed.function ⟨x, hx, hr⟩ }
  | none =>
      simp only [Draft.reference, hl] at hw ⊢
      have registered := h.withNames (Names.extends_register b.names name (.unresolvedVariable name)
        (.var b.id b.function.values.size (b.names.intern name).1))
      exact registered.addValue (v := ⟨.var ⟨_, false, .unresolved⟩, none⟩) hw trivial

theorem Linear.callOperator {left right : Ref} (h : b.Linear (left :: right :: hand)) :
    (b.callOperator left right).2.Linear ((b.callOperator left right).1 :: hand) :=
  (h.reference operatorCallee).call (h.wellFormed.reference_named operatorCallee) rfl

theorem Linear.openBlock (h : b.Linear hand) : b.openBlock.Linear hand where
  wellFormed := h.wellFormed.openBlock
  linear := by
    have pushed := Function.Linear.push (f := b.function) (g := b.openBlock.function)
      (v := Value.emptyBlock b.function.scopes.size) rfl h.linear h.wellFormed.function rfl
    exact pushed.perm List.perm_middle
  shapely := h.shapely.push (v := Value.emptyBlock b.function.scopes.size) rfl
    fun r hr => absurd hr (by simp)

theorem Linear.append (h : b.Linear (r :: hand)) (hr : b.function.Inner b.current.value r) :
    (b.append r).Linear hand where
  wellFormed := h.wellFormed.append (h.linear.below r List.mem_cons_self)
  linear := by
    refine Function.Linear.append (p := hand ++ b.opened) h.linear h.wellFormed.current ?_
    rw [current_eq, List.mem_append]
    unfold opened
    cases b.blocks with
    | nil => exact .inl rfl
    | cons block rest => exact .inr (.inr List.mem_cons_self)
  shapely := h.shapely.append hr

theorem Linear.closeBlock (h : b.Linear hand) (hb : b.blocks ≠ []) :
    b.closeBlock.2.Linear (b.closeBlock.1 :: hand) := by
  have wellFormed := h.wellFormed.closeBlock.wellFormed
  have linear := h.linear
  unfold opened at linear
  unfold Draft.closeBlock at wellFormed ⊢
  cases he : b.blocks with
  | nil => exact absurd he hb
  | cons block rest =>
      simp only [he] at wellFormed linear ⊢
      exact ⟨wellFormed, linear.perm List.perm_middle.symm, h.shapely⟩

/-- What an expression is lowered to is the unit value, a variable or new. -/
theorem WellFormed.inner_lower (h : b.WellFormed) (e : Expression) {block : ValueId}
    (hb : block < b.function.values.size) : (e.lower b).2.function.Inner block (e.lower b).1 := by
  have call : ∀ (b : Draft) (left right : Ref), block < b.function.values.size →
      (b.callOperator left right).2.function.Inner block (b.callOperator left right).1 := by
    intro b left right hb
    obtain ⟨id, hid, hle, -⟩ := value_callOperator b left right
    rw [hid]
    exact .inr (Nat.lt_of_lt_of_le hb hle)
  induction e generalizing b with
  | block inner =>
      rw [lower_block]
      exact .inr hb
  | sequence first next ih ih' =>
      obtain ⟨wellFormed, size⟩ := (h.lower first).append
      exact ih' wellFormed (Nat.lt_of_lt_of_le hb size)
  | declaration d => exact .inr hb
  | binary op left right =>
      unfold Expression.lower
      split
      · have hr := h.lower right
        have hl := hr.wellFormed.lower left
        exact call _ _ _ (Nat.lt_of_lt_of_le hb (Nat.le_trans hr.size hl.size))
      · have hl := h.lower left
        have hr := hl.wellFormed.lower right
        exact call _ _ _ (Nat.lt_of_lt_of_le hb (Nat.le_trans hl.size hr.size))
  | identifier name =>
      obtain ⟨id, x, hid, hx, -⟩ := h.reference_named name
      show (b.reference name).2.function.Inner block (b.reference name).1
      rw [hid]
      exact .inl ⟨x, hx⟩
  | number text => exact .inr hb
  | string text => exact .inr hb
  | char text => exact .inr hb
  | empty => trivial

/-- **Lowering an expression uses values linearly**, and its value is one more reference in hand. -/
theorem Linear.lower (h : b.Linear hand) (e : Expression) :
    (e.lower b).2.Linear ((e.lower b).1 :: hand) := by
  induction e generalizing b hand with
  | block inner ih =>
      have opened : b.openBlock.WellFormed := h.wellFormed.openBlock
      have current := current_lower inner b.openBlock
      refine ((ih h.openBlock).append ?_).closeBlock ?_
      · rw [current]
        exact opened.inner_lower inner opened.current_value_lt
      · show (inner.lower b.openBlock).2.blocks ≠ []
        rw [blocks_lower]
        exact List.cons_ne_nil _ _
  | sequence first next ih ih' =>
      refine ih' ((ih h).append ?_)
      rw [current_lower]
      exact h.wellFormed.inner_lower first h.wellFormed.current_value_lt
  | declaration d => exact h.declare d
  | binary op left right ih ih' =>
      unfold Expression.lower
      split
      · exact (ih (ih' h)).callOperator
      · exact ((ih' (ih h)).perm (List.Perm.swap _ _ _)).callOperator
  | identifier name => exact h.reference name
  | number text => exact h.literal .int text
  | string text => exact h.literal .string text
  | char text => exact h.literal .char text
  | empty => exact h.unit

end Draft

end Hir

end FrontEnd
