import FrontEnd.Proofs.Elaboration
import FrontEnd.Proofs.Reachable

/-!
# What an expression may touch

* `Names.StartOf`, `Scope.Extends` — names and a scope that were added to at their ends.
* `Draft.Spares` — all scopes but one are as they were, and that one was added to.  A later one may be
  another, if it is new (`Spares.trans`).
* `Draft.spares_lower` — the lowering of an expression spares all scopes but the current one;
  `Draft.scopes_block` — a block adds one child to it and nothing else.
* `Draft.Confined`, `Draft.Sealed` — what is kept by the lowering of every expression, and what moreover
  by the lowering of a block.
* `Workbench.Run.lowerExpression_confined` — so it is in every function that a run of commands builds.
-/

namespace FrontEnd

namespace Hir

/-! ## Names -/

namespace Names

/-- The second names start with the first ones: symbols, types and open names were only added. -/
structure StartOf (n n' : Names) : Prop where
  symbols : n.symbols.names.toList <+: n'.symbols.names.toList
  types : n.types.toList <+: n'.types.toList
  unresolved : n.unresolved.toList <+: n'.unresolved.toList

variable {n n' n'' : Names}

theorem StartOf.refl (n : Names) : n.StartOf n := ⟨List.prefix_rfl, List.prefix_rfl, List.prefix_rfl⟩

theorem StartOf.trans (h : n.StartOf n') (h' : n'.StartOf n'') : n.StartOf n'' :=
  ⟨h.symbols.trans h'.symbols, h.types.trans h'.types, h.unresolved.trans h'.unresolved⟩

theorem prefix_push {α : Type} (xs : Array α) (x : α) : xs.toList <+: (xs.push x).toList :=
  ⟨[x], Array.toList_push.symm⟩

theorem startOf_intern (n : Names) (name : String) : n.StartOf (n.intern name).2 := by
  refine ⟨?_, List.prefix_rfl, List.prefix_rfl⟩
  show n.symbols.names.toList <+: (n.symbols.intern name).2.names.toList
  cases h : n.symbols.lookup name with
  | some s =>
      have same : (n.symbols.intern name).2 = n.symbols := by rw [SymbolTable.intern_of_lookup h]
      exact same.symm ▸ List.prefix_rfl
  | none =>
      rw [(SymbolTable.names_intern_of_lookup h).2]
      exact prefix_push _ _

theorem startOf_note (n : Names) (e : Event) : n.StartOf (n.note e) :=
  ⟨List.prefix_rfl, List.prefix_rfl, List.prefix_rfl⟩

theorem startOf_register (n : Names) (u : OpenName) : n.StartOf (n.register u) :=
  ⟨List.prefix_rfl, List.prefix_rfl, prefix_push _ _⟩

theorem startOf_freshType (n : Names) (name : String) : n.StartOf (n.freshType name).2 := by
  have interned := n.startOf_intern name
  exact ⟨interned.symbols, prefix_push _ _, prefix_push _ _⟩

theorem startOf_freshType? (n : Names) (name : Option String) : n.StartOf (n.freshType? name).2 := by
  cases name with
  | none => exact .refl n
  | some name => exact n.startOf_freshType name

end Names

/-! ## Scopes -/

namespace Scope

/-- The scope was added to.  A name is bound as before, or to one of the variables added. -/
structure Extends (old new : Scope) : Prop where
  enclosing : new.enclosing = old.enclosing
  children : old.children.toList <+: new.children.toList
  declared : ∃ more, new.declared.toList = old.declared.toList ++ more ∧
    ∀ name, new.bindings.find? name = old.bindings.find? name ∨
      ∃ id ∈ more, new.bindings.find? name = some id

variable {s s' s'' : Scope}

theorem Extends.refl (s : Scope) : s.Extends s :=
  ⟨rfl, List.prefix_rfl, [], (List.append_nil _).symm, fun _ => Or.inl rfl⟩

theorem Extends.trans (h : s.Extends s') (h' : s'.Extends s'') : s.Extends s'' where
  enclosing := h'.enclosing.trans h.enclosing
  children := h.children.trans h'.children
  declared := by
    obtain ⟨more, declared, bound⟩ := h.declared
    obtain ⟨more', declared', bound'⟩ := h'.declared
    refine ⟨more ++ more', by rw [declared', declared, List.append_assoc], fun name => ?_⟩
    rcases bound' name with same | ⟨id, hid, found⟩
    · rcases bound name with old | ⟨id, hid, found⟩
      · exact Or.inl (same.trans old)
      · exact Or.inr ⟨id, List.mem_append_left _ hid, same.trans found⟩
    · exact Or.inr ⟨id, List.mem_append_right _ hid, found⟩

theorem extends_declare (s : Scope) (name : Symbol) (value : ValueId) :
    s.Extends (s.declare name value) where
  enclosing := rfl
  children := List.prefix_rfl
  declared := by
    refine ⟨[value], Array.toList_push, fun other => ?_⟩
    by_cases h : other = name
    · exact Or.inr ⟨value, List.mem_singleton_self _, (Bindings.find?_insert _ _ _ _).trans (if_pos h)⟩
    · exact Or.inl ((Bindings.find?_insert _ _ _ _).trans (if_neg h))

theorem extends_addChild (s : Scope) (child : ScopeId) :
    s.Extends { s with children := s.children.push child } :=
  ⟨rfl, Names.prefix_push _ _, [], (List.append_nil _).symm, fun _ => Or.inl rfl⟩

end Scope

/-- What a name means in a scope is told by the scopes on its chain. -/
theorem Function.lookup_congr {f g : Function} {s : ScopeId} {name : Symbol}
    (hc : g.chain s = f.chain s) (hb : ∀ t ∈ f.chain s, g.bound? name t = f.bound? name t) :
    g.lookup s name = f.lookup s name := by
  unfold lookup
  rw [hc]
  generalize f.chain s = chain at hb
  induction chain with
  | nil => rfl
  | cons t rest ih =>
      rw [List.findSome?_cons, List.findSome?_cons, hb t List.mem_cons_self,
        ih fun r hr => hb r (List.mem_cons_of_mem t hr)]

namespace Draft

/-- All scopes of the draft but `s` are as they were, and `s` was added to. -/
def Spares (s : ScopeId) (b b' : Draft) : Prop :=
  ∀ (t : ScopeId) (old : Scope), b.function.scopes[t]? = some old →
    ∃ new, b'.function.scopes[t]? = some new ∧ old.Extends new ∧ (t ≠ s → new = old)

variable {b b' b'' : Draft} {s s' : ScopeId}

theorem Spares.trans (h : b.Spares s b') (h' : b'.Spares s' b'')
    (hs : s' = s ∨ b.function.scopes.size ≤ s') : b.Spares s b'' := by
  intro t old hold
  obtain ⟨mid, hmid, extended, same⟩ := h t old hold
  obtain ⟨new, hnew, extended', same'⟩ := h' t mid hmid
  refine ⟨new, hnew, extended.trans extended', fun hts => ?_⟩
  have hts' : t ≠ s' := by
    rcases hs with rfl | hs
    · exact hts
    · exact Nat.ne_of_lt (Nat.lt_of_lt_of_le (Array.getElem?_eq_some_iff.1 hold).1 hs)
  exact (same' hts').trans (same hts)

/-- What makes no scope and declares nothing spares all scopes. -/
theorem spares_of_scopes_eq (s : ScopeId) (h : b'.function.scopes = b.function.scopes) :
    b.Spares s b' :=
  fun _ old hold => ⟨old, h ▸ hold, .refl old, fun _ => rfl⟩

theorem spares_declare (b : Draft) (d : VariableDecl) : b.Spares b.current.scope (b.declare d).2 := by
  intro t old hold
  have scopes := Function.scopes_addVariable b.function b.current.scope
    ⟨((b.names.freshType? d.typeName).2.intern d.name).1, d.isMutable, .declared⟩
    (b.names.freshType? d.typeName).1 t
  rw [hold] at scopes
  by_cases ht : b.current.scope = t
  · rw [if_pos ht] at scopes
    exact ⟨_, scopes, old.extends_declare _ _, fun hne => absurd ht.symm hne⟩
  · rw [if_neg ht] at scopes
    exact ⟨old, scopes, .refl old, fun _ => rfl⟩

theorem scopes_reference (b : Draft) (name : String) :
    (b.reference name).2.function.scopes = b.function.scopes := by
  unfold reference
  dsimp only
  split <;> rfl

theorem scopes_callOperator (b : Draft) (l r : Ref) :
    (b.callOperator l r).2.function.scopes = b.function.scopes := scopes_reference b operatorCallee

theorem scopes_openBlock {b : Draft} {t : ScopeId} {old : Scope}
    (hold : b.function.scopes[t]? = some old) :
    b.openBlock.function.scopes[t]? =
      some (if t = b.current.scope then
        { old with children := old.children.push b.function.scopes.size } else old) := by
  have ht := (Array.getElem?_eq_some_iff.1 hold).1
  refine (Function.scopes_addScope b.function b.current.scope t).trans ?_
  rw [if_neg (Nat.ne_of_lt ht), hold]
  by_cases hs : t = b.current.scope
  · rw [if_pos hs.symm, if_pos hs]
    rfl
  · rw [if_neg (Ne.symm hs), if_neg hs]

/-- **A block adds one child to the current scope** and leaves the other scopes as they were, if what
stands in it spares them. -/
theorem scopes_block {inner : Expression} {b : Draft}
    (h : b.openBlock.Spares b.openBlock.current.scope (inner.lower b.openBlock).2) {t : ScopeId}
    {old : Scope} (hold : b.function.scopes[t]? = some old) :
    ((Expression.block inner).lower b).2.function.scopes[t]? =
      some (if t = b.current.scope then
        { old with children := old.children.push b.function.scopes.size } else old) := by
  have ht : t ≠ b.openBlock.current.scope :=
    Nat.ne_of_lt (Array.getElem?_eq_some_iff.1 hold).1
  obtain ⟨new, hnew, -, same⟩ := h t _ (scopes_openBlock hold)
  rw [lower_block, ← same ht]
  exact hnew

theorem spares_operands {first second : Expression}
    (hfirst : ∀ b : Draft, b.Spares b.current.scope (first.lower b).2)
    (hsecond : ∀ b : Draft, b.Spares b.current.scope (second.lower b).2) (b : Draft) (l r : Ref) :
    b.Spares b.current.scope ((second.lower (first.lower b).2).2.callOperator l r).2 := by
  have next := hsecond (first.lower b).2
  rw [current_lower] at next
  exact ((hfirst b).trans next (Or.inl rfl)).trans
    (spares_of_scopes_eq _ (scopes_callOperator _ l r)) (Or.inl rfl)

/-- **Lowering an expression touches no scope but the current one.** -/
theorem spares_lower (e : Expression) (b : Draft) : b.Spares b.current.scope (e.lower b).2 := by
  induction e generalizing b with
  | block inner ih =>
      intro t old hold
      refine ⟨_, scopes_block (ih b.openBlock) hold, ?_, fun ht => if_neg ht⟩
      split
      · exact old.extends_addChild _
      · exact .refl old
  | sequence first next ih ih' =>
      have appended : (first.lower b).2.Spares b.current.scope
          ((first.lower b).2.append (first.lower b).1) := spares_of_scopes_eq _ rfl
      have lowered := ih' ((first.lower b).2.append (first.lower b).1)
      have hc : ((first.lower b).2.append (first.lower b).1).current = b.current :=
        current_lower first b
      rw [hc] at lowered
      exact ((ih b).trans appended (Or.inl rfl)).trans lowered (Or.inl rfl)
  | declaration d => exact spares_declare b d
  | binary op left right ih ih' =>
      unfold Expression.lower
      split
      · exact spares_operands ih' ih b _ _
      · exact spares_operands ih ih' b _ _
  | identifier name => exact spares_of_scopes_eq _ (scopes_reference b name)
  | _ => exact spares_of_scopes_eq _ rfl

/-! ## Names and signature -/

/-- It is the same function with the same signature, and its names were only added to. -/
structure Remains (b b' : Draft) : Prop where
  id : b'.id = b.id
  name : b'.function.name = b.function.name
  parent : b'.function.parent = b.function.parent
  parameters : b'.function.parameters = b.function.parameters
  returnType : b'.function.returnType = b.function.returnType
  names : b.names.StartOf b'.names

theorem Remains.refl (b : Draft) : b.Remains b := ⟨rfl, rfl, rfl, rfl, rfl, .refl _⟩

theorem Remains.trans (h : b.Remains b') (h' : b'.Remains b'') : b.Remains b'' :=
  ⟨h'.id.trans h.id, h'.name.trans h.name, h'.parent.trans h.parent,
    h'.parameters.trans h.parameters, h'.returnType.trans h.returnType, h.names.trans h'.names⟩

/-- No operation of a body touches the signature, and each only adds names. -/
theorem remains_perform (b : Draft) {op : DraftOp} (hop : op.isSignature = false) :
    b.Remains (b.perform op).2 := by
  cases op with
  | addParameter a => cases hop
  | declareReturn typeName => cases hop
  | declare d =>
      have names := (b.names.startOf_freshType? d.typeName).trans
        (Names.startOf_intern (b.names.freshType? d.typeName).2 d.name)
      exact ⟨rfl, rfl, rfl, rfl, rfl, names⟩
  | reference name =>
      have interned := b.names.startOf_intern name
      show b.Remains (b.reference name).2
      unfold reference
      dsimp only
      split
      · exact ⟨rfl, rfl, rfl, rfl, rfl, interned⟩
      · have noted := interned.trans (Names.startOf_note _ (.unresolvedVariable name))
        have registered := noted.trans (Names.startOf_register _
          (.var b.id b.function.values.size (b.names.intern name).1))
        exact ⟨rfl, rfl, rfl, rfl, rfl, registered⟩
  | closeBlock =>
      show b.Remains b.closeBlock.2
      unfold closeBlock
      split
      · exact ⟨rfl, rfl, rfl, rfl, rfl, Names.startOf_note _ _⟩
      · exact ⟨rfl, rfl, rfl, rfl, rfl, .refl _⟩
  | _ => exact ⟨rfl, rfl, rfl, rfl, rfl, .refl _⟩

theorem remains_lower (e : Expression) (b : Draft) : b.Remains (e.lower b).2 :=
  lower_keeps (P := b.Remains) (fun b' _ hop h => h.trans (remains_perform b' hop)) e (.refl b)

/-! ## Expressions and blocks -/

/-- The open blocks and the signature are as before.  Of the values and of the scopes only the current
block and its scope were touched, and these and the names were only added to. -/
structure Confined (b b' : Draft) : Prop where
  blocks : b'.blocks = b.blocks
  remains : b.Remains b'
  values : ∀ (id : ValueId) (v : Value), b.function.values[id]? = some v → id ≠ b.current.value →
    b'.function.values[id]? = some v
  block : ∃ instructions more type,
    b.function.values[b.current.value]? = some ⟨.block b.current.scope instructions, type⟩ ∧
      b'.function.values[b.current.value]? =
        some ⟨.block b.current.scope (instructions ++ more), type⟩
  scopes : ∀ (s : ScopeId) (old : Scope), b.function.scopes[s]? = some old → s ≠ b.current.scope →
    b'.function.scopes[s]? = some old
  scope : ∃ old new, b.function.scopes[b.current.scope]? = some old ∧
    b'.function.scopes[b.current.scope]? = some new ∧ old.Extends new

/-- Of all values and scopes only the current scope was touched: it has one more child.  What a name
means in a scope has not changed. -/
structure Sealed (b b' : Draft) : Prop where
  values : ∀ (id : ValueId) (v : Value), b.function.values[id]? = some v →
    b'.function.values[id]? = some v
  scope : ∃ old, b.function.scopes[b.current.scope]? = some old ∧
    b'.function.scopes[b.current.scope]? =
      some { old with children := old.children.push b.function.scopes.size }
  lookup : ∀ name symbol, b.names.symbols.lookup name = some symbol →
    b'.names.symbols.lookup name = some symbol ∧
      ∀ s < b.function.scopes.size, b'.function.lookup s symbol = b.function.lookup s symbol

/-- The instructions of the current block are those from before and what the expression has put there. -/
theorem WellFormed.block_lower (h : b.WellFormed) (e : Expression) : ∃ instructions more type,
    b.function.values[b.current.value]? = some ⟨.block b.current.scope instructions, type⟩ ∧
      (e.lower b).2.function.values[b.current.value]? =
        some ⟨.block b.current.scope (instructions ++ more), type⟩ := by
  obtain ⟨⟨kind, type⟩, stored, isBlock⟩ := Option.bind_eq_some_iff.1 h.current
  cases kind with
  | block scope instructions =>
      cases isBlock
      refine ⟨instructions, (e.spilled b).toArray, type, stored, ?_⟩
      rw [value_lower e b _ stored, Value.foldl_append]
      congr 3
      simp
  | _ => cases isBlock

/-- **Lowering an expression touches the current block and the current scope only.** -/
theorem WellFormed.confined_lower (h : b.WellFormed) (e : Expression) :
    b.Confined (e.lower b).2 where
  blocks := blocks_lower e b
  remains := remains_lower e b
  values := (grows_lower e b).values
  block := h.block_lower e
  scopes := by
    intro s old hold hs
    obtain ⟨new, hnew, -, same⟩ := spares_lower e b s old hold
    rw [hnew, same hs]
  scope := by
    have stored := Array.getElem?_eq_getElem h.current_scope_lt
    obtain ⟨new, hnew, extended, -⟩ := spares_lower e b _ _ stored
    exact ⟨_, new, stored, hnew, extended⟩

theorem WellFormed.lt_size_of_mem_chain (h : b.WellFormed) {s t : ScopeId}
    (hs : s < b.function.scopes.size) (ht : t ∈ b.function.chain s) : t < b.function.scopes.size := by
  rw [Function.chain_eq_cons hs] at ht
  rcases List.mem_cons.1 ht with rfl | ht
  · exact hs
  · exact Nat.lt_trans (h.function.scopes.chain_lt s t ht) hs

/-- A block leaves to every scope what is bound in it. -/
theorem bound?_block (inner : Expression) (b : Draft) (name : Symbol) {t : ScopeId}
    (ht : t < b.function.scopes.size) :
    ((Expression.block inner).lower b).2.function.bound? name t = b.function.bound? name t := by
  have stored := Array.getElem?_eq_getElem ht
  rw [Function.bound?_eq_elim, Function.bound?_eq_elim,
    scopes_block (spares_lower inner b.openBlock) stored, stored]
  split <;> rfl

/-- **Shadowing ends with the block.**  Lowering a block touches nothing but the children of the current
scope, and from no scope does a name mean anything else than before. -/
theorem WellFormed.sealed_lower (h : b.WellFormed) (inner : Expression) :
    b.Sealed ((Expression.block inner).lower b).2 where
  values := by
    intro id v hv
    have grown := grows_block b.function.values.size (grows_lower inner b.openBlock)
    exact grown.values id v hv (Nat.ne_of_lt (Array.getElem?_eq_some_iff.1 hv).1)
  scope := by
    have stored := Array.getElem?_eq_getElem h.current_scope_lt
    refine ⟨_, stored, ?_⟩
    rw [scopes_block (spares_lower inner b.openBlock) stored, if_pos rfl]
  lookup := by
    intro name symbol hsymbol
    have grown := grows_lower (.block inner) b
    refine ⟨grown.names.symbols name symbol hsymbol, fun s hs => ?_⟩
    exact Function.lookup_congr (grown.chain s hs).2 fun t ht =>
      bound?_block inner b symbol (h.lt_size_of_mem_chain hs ht)

end Draft

/-! ## Runs -/

namespace Workbench

variable {w : Workbench} {handed : List Ref} {b : Draft}

/-- **Lowering an expression touches the current block and the current scope only.**  In every function
that a run of commands has under construction, the open blocks stay open, older values and scopes are as
they were but for the current ones, to which is added, and names are only added.  A block does not even
touch the current block and gives the current scope one child, so no name means anything else behind it.
The rest of the unit stays as it is. -/
theorem Run.lowerExpression_confined (h : Run w handed) (hb : w.function = some b) (e : Expression) :
    let w' := (w.perform (.lowerExpression e)).2
    (∃ b', w'.function = some b' ∧ b.Confined b' ∧ ∀ inner, e = .block inner → b.Sealed b') ∧
      w'.modules = w.modules ∧ w'.view.modules = w.view.modules ∧
      w'.view.structs = w.view.structs ∧ w'.view.classes = w.view.classes ∧
      ∀ k, k ≠ w.unit.functions.size → w'.view.functions[k]? = w.view.functions[k]? := by
  have wellFormed := h.wellFormed.1.function b hb
  have lowered : (w.perform (.lowerExpression e)).2 = { w with function := some (e.lower b).2 } := by
    unfold perform
    rw [hb]
    rfl
  have view : w.view = w.unit.addFunction b := by
    unfold Workbench.view
    rw [hb]
  obtain ⟨-, remains, -⟩ := wellFormed.confined_lower e
  dsimp only
  rw [lowered, view]
  refine ⟨⟨_, rfl, wellFormed.confined_lower e, ?_⟩, rfl, ?_, rfl, rfl, fun k hk => ?_⟩
  · rintro inner rfl
    exact wellFormed.sealed_lower inner
  · show (w.unit.addFunction (e.lower b).2).modules = (w.unit.addFunction b).modules
    unfold CompilationUnit.addFunction
    rw [remains.parent, remains.name, remains.id]
  · show (w.unit.functions.push _)[k]? = (w.unit.functions.push _)[k]?
    rw [Array.getElem?_push, Array.getElem?_push, if_neg hk, if_neg hk]

/-- In a block that declares `x` a block is lowered that declares `x` anew: inside it the name means the
new variable, and behind it the old one. -/
theorem Run.lowerExpression_confined_shadowing :
    ∃ (w : Workbench) (handed : List Ref) (b b' : Draft), Run w handed ∧ w.function = some b ∧
      (w.perform (.lowerExpression (.block
        (.sequence (.declaration ⟨"x", none, true⟩) (.identifier "x"))))).2.function = some b' ∧
      b.Confined b' ∧ b.Sealed b' ∧ b'.names.symbols.lookup "x" = some 2 ∧
      b.function.lookup 1 2 = some 2 ∧ b'.function.lookup 2 2 = some 4 ∧
      b'.function.lookup 1 2 = some 2 := by
  have started := ((Run.fresh #[]).step .enterRoot (by decide)).step (.enterFunction "f") (by decide)
  have declared := (started.step (.build .openBlock) (by decide)).step
    (.build (.declare ⟨"x", none, true⟩)) (by decide)
  obtain ⟨⟨b', hb', confined, sealed⟩, -⟩ := declared.lowerExpression_confined rfl
    (.block (.sequence (.declaration ⟨"x", none, true⟩) (.identifier "x")))
  refine ⟨_, _, _, b', declared, rfl, hb', confined, sealed _ rfl, ?_, by decide +kernel, ?_, ?_⟩
  all_goals
    cases hb'
    decide +kernel

end Workbench

end Hir

end FrontEnd
