import FrontEnd.Proofs.Confinement
import FrontEnd.Proofs.LoweredFunction

/-!
# Scopes are nested as blocks are

* `Region`, `Nesting` — the place of a scope among the others; the blocks and the declarations of an
  expression in the order of evaluation.
* `Expression.nesting`, `FunctionDecl.nesting` — the nesting of a tree, read off the tree alone.
* `IsVariable`, `variablesAt` — the variable of a declaration, and the variables that belong to a scope.
* `Draft.Nests` — what a draft has more than another one is the given nesting.  `Nests.trans` joins what
  is evaluated first and what is evaluated next, `nests_block` goes into a block.
* `Draft.nests_lower` — the lowering of an expression adds its nesting.
* `Draft.Rooted`, `FunctionDecl.Laid` — a function before its body is lowered, and one that is laid out as
  its declaration is.
* `FunctionDecl.lower_nested` — the scopes of a declared function are its blocks.
-/

namespace FrontEnd

open Hir

/-! ## The nesting of a tree -/

/-- The place of a scope among the others. -/
structure Region where
  parent : Option ScopeId
  depth : Nat
  /-- the scopes directly inside, in order -/
  children : List ScopeId
deriving DecidableEq, Repr

/-- Blocks and declarations in the order of evaluation. -/
structure Nesting where
  /-- the blocks, in the order in which they are opened -/
  blocks : List Region
  /-- the numbers of the blocks that lie in no other one of them -/
  outermost : List ScopeId
  /-- the declarations, each with the number of the innermost block around it -/
  declarations : List (VariableDecl × ScopeId)
deriving DecidableEq, Repr

namespace Nesting

def empty : Nesting := ⟨[], [], []⟩

def append (n n' : Nesting) : Nesting :=
  ⟨n.blocks ++ n'.blocks, n.outermost ++ n'.outermost, n.declarations ++ n'.declarations⟩

@[simp] theorem append_empty (n : Nesting) : n.append empty = n := by simp [append, empty]

end Nesting

/-- The nesting of an expression in a block, which is given by its number and its depth.  The next block
that is opened gets the number `next`.  The right operand of an assignment is evaluated first. -/
def Expression.nesting (around : ScopeId) (depth : Nat) (next : ScopeId) : Expression → Nesting
  | block inner =>
    let n := inner.nesting next (depth + 1) (next + 1)
    ⟨⟨some around, depth + 1, n.outermost⟩ :: n.blocks, [next], n.declarations⟩
  | sequence first rest =>
    let n := first.nesting around depth next
    n.append (rest.nesting around depth (next + n.blocks.length))
  | declaration d => ⟨[], [], [(d, around)]⟩
  | binary op left right =>
    if op.isAssignment then
      let n := right.nesting around depth next
      n.append (left.nesting around depth (next + n.blocks.length))
    else
      let n := left.nesting around depth next
      n.append (right.nesting around depth (next + n.blocks.length))
  | _ => .empty

/-- The nesting of the body of a function.  Around it lies the root scope, which has the number 0. -/
def FunctionDecl.nesting (d : FunctionDecl) : Nesting :=
  (Expression.block d.body).nesting Function.rootScope 0 1

/-- Every declaration lies in the block `around` or in one that is numbered from `next` on. -/
def Nesting.Within (around next : ScopeId) (n : Nesting) : Prop :=
  ∀ p ∈ n.declarations, p.2 = around ∨ next ≤ p.2

theorem Nesting.Within.append {n n' : Nesting} {around next m : Nat} (h : n.Within around next)
    (h' : n'.Within around (next + m)) : (n.append n').Within around next := by
  intro p hp
  rcases List.mem_append.1 hp with hp | hp
  · exact h p hp
  · exact (h' p hp).imp_right fun hle => Nat.le_trans (Nat.le_add_right _ _) hle

theorem Expression.within_nesting (e : Expression) {around next : ScopeId} {depth : Nat} :
    (e.nesting around depth next).Within around next := by
  induction e generalizing around next depth with
  | block inner ih =>
      intro p hp
      rcases ih p hp with hp | hp
      · exact Or.inr (Nat.le_of_eq hp.symm)
      · exact Or.inr (Nat.le_of_succ_le hp)
  | sequence first rest ih ih' => exact .append ih ih'
  | declaration d =>
      intro p hp
      rw [List.mem_singleton.1 hp]
      exact Or.inl rfl
  | binary op left right ih ih' =>
      unfold nesting
      split
      · exact .append ih' ih
      · exact .append ih ih'
  | _ =>
      intro p hp
      cases hp

/-- In `{ { let a } = { let b; { } } }` the blocks on the right are opened before the one on the left. -/
example (a b : VariableDecl) (f : FunctionDecl) (hf : f.body = .binary .assign
      (.block (.declaration a)) (.block (.sequence (.declaration b) (.block .empty)))) :
    f.nesting = ⟨[⟨some 0, 1, [2, 4]⟩, ⟨some 1, 2, [3]⟩, ⟨some 2, 3, []⟩, ⟨some 1, 2, []⟩], [1],
      [(b, 2), (a, 4)]⟩ := by
  unfold FunctionDecl.nesting
  rw [hf]
  rfl

/-! ## Variables -/

/-- The value is the variable of the declaration and has the type that is named there, if one is. -/
def IsVariable (n : Names) (f : Function) (d : VariableDecl) (id : ValueId) : Prop :=
  ∃ symbol type, n.symbols.lookup d.name = some symbol ∧
    f.values[id]? = some ⟨.var ⟨symbol, d.isMutable, .declared⟩, type⟩ ∧
    Option.Rel (fun t name => ∃ s, n.symbols.lookup name = some s ∧ n.types[t]? = some s) type d.typeName

/-- Of the variables of the declarations, in their order, those that belong to a scope. -/
def variablesAt (s : ScopeId) (declarations : List (VariableDecl × ScopeId)) (ids : List ValueId) :
    List ValueId :=
  ((declarations.zip ids).filter fun p => p.1.2 == s).map (·.2)

theorem variablesAt_append {s : ScopeId} {ds ds' : List (VariableDecl × ScopeId)}
    {ids ids' : List ValueId} (h : ds.length = ids.length) :
    variablesAt s (ds ++ ds') (ids ++ ids') = variablesAt s ds ids ++ variablesAt s ds' ids' := by
  unfold variablesAt
  rw [List.zip_append h, List.filter_append, List.map_append]

theorem variablesAt_eq_nil {s : ScopeId} {ds : List (VariableDecl × ScopeId)} {ids : List ValueId}
    (h : ∀ p ∈ ds, p.2 ≠ s) : variablesAt s ds ids = [] := by
  unfold variablesAt
  rw [List.map_eq_nil_iff, List.filter_eq_nil_iff]
  intro p hp hs
  exact h p.1 (List.of_mem_zip hp).1 (beq_iff_eq.1 hs)

theorem IsVariable.grow {b b' : Draft} {cell : ValueId} {d : VariableDecl} {id : ValueId}
    (h : IsVariable b.names b.function d id) (hg : b.Grows cell b') :
    IsVariable b'.names b'.function d id := by
  obtain ⟨symbol, type, named, stored, typed⟩ := h
  refine ⟨symbol, type, hg.names.symbols _ _ named, hg.stored _ _ _ stored, ?_⟩
  generalize d.typeName = typeName at typed
  cases typed with
  | none => exact .none
  | some ht =>
      obtain ⟨s, hs, htype⟩ := ht
      exact .some ⟨s, hg.names.symbols _ _ hs, hg.names.types _ _ htype⟩

namespace Hir

/-- The place of a scope among the others, as the scope has it. -/
def Scope.region (s : Scope) : Region := ⟨s.parent, s.depth, s.children.toList⟩

namespace Function

def region? (f : Function) (s : ScopeId) : Option Region := f.scopes[s]?.map Scope.region

theorem region?_eq_some {f : Function} {s : ScopeId} {parent : Option ScopeId} {depth : Nat}
    (hp : f.parent? s = parent) (hd : f.depth? s = some depth) :
    f.region? s = some ⟨parent, depth, f.children s⟩ := by
  subst hp
  unfold depth? at hd
  unfold region? parent? children
  cases hs : f.scopes[s]? with
  | none =>
      rw [hs] at hd
      cases hd
  | some scope =>
      rw [hs] at hd
      cases hd
      rfl

theorem region?_addVariable (f : Function) (s : ScopeId) (x : Variable) (type : Option TypeId)
    (t : ScopeId) : (f.addVariable s x type).region? t = f.region? t := by
  unfold region?
  rw [scopes_addVariable]
  split
  · cases f.scopes[t]? <;> rfl
  · rfl

end Function

namespace Draft

/-! ## What a draft has more than another one -/

/-- The draft `b'` has the blocks and the declarations of `b`, and behind them those of the nesting, which
lies in the scope `s`.  The variables of the declarations are new, and each is in the scope of its
block. -/
structure Nests (s : ScopeId) (n : Nesting) (b b' : Draft) : Prop where
  size : b'.function.scopes.size = b.function.scopes.size + n.blocks.length
  outermost : b'.function.children s = b.function.children s ++ n.outermost
  blocks : ∀ i r, n.blocks[i]? = some r → b'.function.region? (b.function.scopes.size + i) = some r
  declarations : ∃ ids : List ValueId, ids.Pairwise (· < ·) ∧
    (∀ id ∈ ids, b.function.values.size ≤ id ∧ id < b'.function.values.size) ∧
    List.Forall₂ (fun p id => IsVariable b'.names b'.function p.1 id) n.declarations ids ∧
    ∀ t, b'.function.declared t = b.function.declared t ++ variablesAt t n.declarations ids

variable {b b' b'' : Draft} {s : ScopeId} {n n' : Nesting}

/-- What makes no scope and declares nothing adds the empty nesting. -/
theorem nests_empty (s : ScopeId) (h : b'.function.scopes = b.function.scopes) :
    b.Nests s .empty b' where
  size := by
    rw [h]
    rfl
  outermost := by
    unfold Function.children
    rw [h]
    exact (List.append_nil _).symm
  blocks := fun i r hr => by cases hr
  declarations := by
    refine ⟨[], .nil, (fun id hid => by cases hid), .nil, fun t => ?_⟩
    unfold Function.declared
    rw [h]
    exact (List.append_nil _).symm

theorem Spares.region? (spared : b.Spares s b') {t : ScopeId} (ht : t ≠ s) {r : Region}
    (h : b.function.region? t = some r) : b'.function.region? t = some r := by
  obtain ⟨old, stored, rfl⟩ := Option.map_eq_some_iff.1 h
  obtain ⟨new, stored', -, same⟩ := spared t old stored
  unfold Function.region?
  rw [stored', same ht]
  rfl

/-- The second step finds what the first one has added, and adds behind it. -/
theorem Nests.trans (h : b.Nests s n b') (h' : b'.Nests s n' b'') (hs : s < b.function.scopes.size)
    (spared : b'.Spares s b'') {cell cell' : ValueId} (grown : b.Grows cell b')
    (grown' : b'.Grows cell' b'') : b.Nests s (n.append n') b'' where
  size := by
    rw [h'.size, h.size, Nat.add_assoc, ← List.length_append]
    rfl
  outermost := by
    rw [h'.outermost, h.outermost, List.append_assoc]
    rfl
  blocks := by
    intro i r hr
    rcases Nat.lt_or_ge i n.blocks.length with hi | hi
    · have hr : n.blocks[i]? = some r := (List.getElem?_append_left hi).symm.trans hr
      -- the scopes of the first step are new, so the second one does not touch them
      have outside : b.function.scopes.size + i ≠ s :=
        Nat.ne_of_gt (Nat.lt_of_lt_of_le hs (Nat.le_add_right _ _))
      exact spared.region? outside (h.blocks i r hr)
    · have hr : n'.blocks[i - n.blocks.length]? = some r :=
        (List.getElem?_append_right hi).symm.trans hr
      have found := h'.blocks _ r hr
      rw [h.size] at found
      have place : b.function.scopes.size + n.blocks.length + (i - n.blocks.length) =
          b.function.scopes.size + i := by omega
      rwa [place] at found
  declarations := by
    obtain ⟨ids, increasing, within, named, declared⟩ := h.declarations
    obtain ⟨ids', increasing', within', named', declared'⟩ := h'.declarations
    refine ⟨ids ++ ids', ?_, ?_, ?_, fun t => ?_⟩
    · refine List.pairwise_append.2 ⟨increasing, increasing', fun id hid id' hid' => ?_⟩
      exact Nat.lt_of_lt_of_le (within id hid).2 (within' id' hid').1
    · intro id hid
      rcases List.mem_append.1 hid with hid | hid
      · exact ⟨(within id hid).1, Nat.lt_of_lt_of_le (within id hid).2 grown'.size⟩
      · exact ⟨Nat.le_trans grown.size (within' id hid).1, (within' id hid).2⟩
    · exact List.rel_append (named.imp fun _ _ hv => hv.grow grown') named'
    · rw [declared', declared, List.append_assoc]
      exact congrArg _ (variablesAt_append named.length_eq).symm

theorem nests_declare (h : b.WellFormed) (d : VariableDecl) :
    b.Nests b.current.scope ⟨[], [], [(d, b.current.scope)]⟩ (b.declare d).2 where
  size := Function.size_scopes_addVariable _ _ _ _
  outermost := by
    rw [List.append_nil]
    exact Function.children_addVariable _ _ _ _ _
  blocks := fun i r hr => by cases hr
  declarations := by
    have grown := grows_declare b.current.value b d
    refine ⟨[b.function.values.size], List.pairwise_singleton _ _, ?_, .cons ?_ .nil, fun t => ?_⟩
    · intro id hid
      rw [List.mem_singleton.1 hid]
      refine ⟨Nat.le_refl _, ?_⟩
      show _ < (b.function.addVariable _ _ _).values.size
      rw [Function.size_values_addVariable]
      exact Nat.lt_succ_self _
    · refine ⟨_, _, SymbolTable.lookup_intern_self,
        (Function.values_addVariable _ _ _ _ _).trans (if_pos rfl), ?_⟩
      obtain ⟨name, _ | typeName, isMutable⟩ := d
      · exact .none
      · obtain ⟨symbol, named, stored, -⟩ := Names.freshType_registered b.names typeName
        have interned := Names.extends_intern (b.names.freshType typeName).2 name
        exact .some ⟨symbol, interned.symbols _ _ named, interned.types _ _ stored⟩
    · refine (Function.declared_addVariable _ _ _ _ t).trans ?_
      by_cases ht : b.current.scope = t
      · rw [if_pos ⟨ht, ht ▸ h.current_scope_lt⟩]
        simp [variablesAt, ht]
      · rw [if_neg fun hc => ht hc.1]
        simp [variablesAt, ht]

theorem Nests.quiet (h : b.Nests s n b') (hs : s < b.function.scopes.size)
    (same : b''.function.scopes = b'.function.scopes) {cell cell' : ValueId}
    (grown : b.Grows cell b') (grown' : b'.Grows cell' b'') : b.Nests s n b'' := by
  have joined := h.trans (nests_empty s same) hs (spares_of_scopes_eq s same) grown grown'
  rwa [Nesting.append_empty] at joined

/-- The scope of a block keeps its place while the block is filled. -/
theorem region?_block (h : b.WellFormed) {depth : Nat}
    (hd : b.function.depth? b.current.scope = some depth)
    (spared : b.openBlock.Spares b.function.scopes.size b') :
    b'.function.region? b.function.scopes.size =
      some ⟨some b.current.scope, depth + 1, b'.function.children b.function.scopes.size⟩ := by
  have opened : b.openBlock.function.scopes[b.function.scopes.size]? =
      some (Scope.fresh (b.function.chain b.current.scope)) :=
    (Function.scopes_addScope b.function b.current.scope _).trans (if_pos rfl)
  obtain ⟨scope, stored, extended, -⟩ := spared _ _ opened
  have parent : scope.parent = some b.current.scope := by
    unfold Scope.parent
    rw [extended.enclosing]
    exact congrArg List.head? (Function.chain_eq_cons h.current_scope_lt)
  have deep : scope.depth = depth + 1 := by
    unfold Scope.depth
    rw [extended.enclosing]
    exact Function.depth?_eq_some hd
  unfold Function.region? Function.children
  rw [stored, ← parent, ← deep]
  rfl

/-- A block is the first of its own blocks, and those that lie directly in it are its children. -/
theorem nests_block (h : b.WellFormed) {depth : Nat}
    (hd : b.function.depth? b.current.scope = some depth) {inner : Expression}
    (hi : b.openBlock.Nests b.function.scopes.size n (inner.lower b.openBlock).2) :
    b.Nests b.current.scope
      ⟨⟨some b.current.scope, depth + 1, n.outermost⟩ :: n.blocks, [b.function.scopes.size],
        n.declarations⟩
      ((Expression.block inner).lower b).2 := by
  have size : b.openBlock.function.scopes.size = b.function.scopes.size + 1 :=
    Function.size_scopes_addScope _ _
  have same : ((Expression.block inner).lower b).2.function.scopes =
      (inner.lower b.openBlock).2.function.scopes := by
    rw [lower_block]
    rfl
  -- what is behind the last expression of the block adds nothing
  have closed := (grows_append (inner.lower b.openBlock).2 (inner.lower b.openBlock).1).trans
    (grows_closeBlock _ _) (Or.inl rfl)
  have filled : b.openBlock.Nests b.function.scopes.size n ((Expression.block inner).lower b).2 :=
    hi.quiet (size ▸ Nat.lt_succ_self _) same (grows_lower inner b.openBlock) closed
  have spared : b.openBlock.Spares b.function.scopes.size ((Expression.block inner).lower b).2 :=
    (spares_lower inner b.openBlock).trans (spares_of_scopes_eq _ same) (Or.inl rfl)
  refine ⟨?_, ?_, ?_, ?_⟩
  · rw [filled.size, size, List.length_cons]
    omega
  · have stored := Array.getElem?_eq_getElem h.current_scope_lt
    unfold Function.children
    rw [scopes_block (spares_lower inner b.openBlock) stored, stored, if_pos rfl]
    exact Array.toList_push
  · intro i r hr
    cases i with
    | zero =>
        cases hr
        have children : b.openBlock.function.children b.function.scopes.size = [] := by
          refine (Function.children_addScope b.function _ _).trans ?_
          rw [if_neg fun hc => Nat.lt_irrefl _ hc.2]
          unfold Function.children
          rw [Array.getElem?_eq_none (Nat.le_refl _)]
          rfl
        have region := region?_block h hd spared
        rwa [filled.outermost, children] at region
    | succ i =>
        have found := filled.blocks i r hr
        rwa [size, Nat.add_assoc, Nat.add_comm 1 i] at found
  · obtain ⟨ids, increasing, within, named, declared⟩ := filled.declarations
    refine ⟨ids, increasing, fun id hid => ⟨?_, (within id hid).2⟩, named, fun t => ?_⟩
    · exact Nat.le_trans (grows_openBlock b.current.value b).size (within id hid).1
    · rw [declared]
      exact congrArg (· ++ _) (Function.declared_addScope _ _ t)

/-- What is evaluated next finds the current scope at the same depth. -/
theorem Grows.depth? {cell : ValueId} (hg : b.Grows cell b') {depth : Nat}
    (hd : b.function.depth? s = some depth) : b'.function.depth? s = some depth := by
  obtain ⟨hs, chain⟩ := hg.chain s (Function.lt_size_of_depth? hd)
  have length := Function.depth?_eq_some hd
  rw [← chain, Function.chain_eq_elim, Array.getElem?_eq_getElem hs] at length
  unfold Function.depth?
  rw [Array.getElem?_eq_getElem hs]
  exact congrArg some (Nat.succ.inj length)

/-- The lowering of the expression adds its nesting to every draft. -/
def Lays (e : Expression) : Prop :=
  ∀ {b : Draft} {depth : Nat}, b.WellFormed → b.function.depth? b.current.scope = some depth →
    b.Nests b.current.scope (e.nesting b.current.scope depth b.function.scopes.size) (e.lower b).2

/-- What is evaluated next lies in the same scope, and its blocks are numbered from where the first ones
end. -/
theorem Nests.next (h : b.Nests b.current.scope n b') (hb : b.WellFormed) (hb' : b'.WellFormed)
    (hc : b'.current = b.current) {cell : ValueId} (grown : b.Grows cell b') {depth : Nat}
    (hd : b.function.depth? b.current.scope = some depth) {e : Expression} (he : Lays e) :
    b.Nests b.current.scope
      (n.append (e.nesting b.current.scope depth (b.function.scopes.size + n.blocks.length)))
      (e.lower b').2 := by
  have depth' : b'.function.depth? b'.current.scope = some depth := hc ▸ grown.depth? hd
  have added := he hb' depth'
  have spared := spares_lower e b'
  rw [hc] at added spared
  rw [← h.size]
  exact h.trans added hb.current_scope_lt spared grown (grows_lower e b')

theorem nests_operands (h : b.WellFormed) {depth : Nat}
    (hd : b.function.depth? b.current.scope = some depth) {first second : Expression}
    (hfirst : Lays first) (hsecond : Lays second) (l r : Ref) :
    let n := first.nesting b.current.scope depth b.function.scopes.size
    b.Nests b.current.scope
      (n.append (second.nesting b.current.scope depth (b.function.scopes.size + n.blocks.length)))
      ((second.lower (first.lower b).2).2.callOperator l r).2 := by
  intro n
  have grown := grows_lower first b
  have grown' := grows_lower second (first.lower b).2
  rw [current_lower] at grown'
  have both := (hfirst h hd).next h (h.lower first).wellFormed (current_lower first b) grown hd hsecond
  exact both.quiet h.current_scope_lt (scopes_callOperator _ l r) (grown.trans grown' (Or.inl rfl))
    (grows_callOperator b.current.value _ l r)

/-- **The lowering of an expression adds its nesting.** -/
theorem nests_lower (e : Expression) : Lays e := by
  induction e with
  | block inner ih =>
      intro b depth h hd
      have opened : b.openBlock.function.depth? b.function.scopes.size = some (depth + 1) := by
        refine (Function.depth?_addScope b.function b.current.scope _).trans ?_
        rw [if_pos rfl, Function.depth?_eq_some hd]
      have size : b.openBlock.function.scopes.size = b.function.scopes.size + 1 :=
        Function.size_scopes_addScope _ _
      have filled := ih h.openBlock opened
      rw [size] at filled
      exact nests_block h hd filled
  | sequence first next ih ih' =>
      intro b depth h hd
      have hc : ((first.lower b).2.append (first.lower b).1).current = b.current :=
        current_lower first b
      have grown := grows_lower first b
      have appended := grows_append (first.lower b).2 (first.lower b).1
      rw [current_lower] at appended
      have evaluated : b.Nests b.current.scope _ ((first.lower b).2.append (first.lower b).1) :=
        (ih h hd).quiet h.current_scope_lt rfl grown appended
      exact evaluated.next h (h.lower first).append.1 hc (grown.trans appended (Or.inl rfl)) hd ih'
  | declaration d =>
      intro b depth h hd
      exact nests_declare h d
  | binary op left right ih ih' =>
      intro b depth h hd
      unfold Expression.nesting Expression.lower
      split
      · exact nests_operands h hd ih' ih _ _
      · exact nests_operands h hd ih ih' _ _
  | identifier name =>
      intro b depth h hd
      exact nests_empty _ (scopes_reference b name)
  | _ =>
      intro b depth h hd
      exact nests_empty _ rfl

/-! ## Whole functions -/

/-- A draft that has arguments and nothing else: in its one scope are their variables. -/
structure Rooted (b : Draft) : Prop where
  size : b.function.scopes.size = 1
  region : b.function.region? Function.rootScope = some ⟨none, 0, []⟩
  declared : b.function.declared Function.rootScope = b.function.parameters.toList.map (·.value)

theorem Rooted.children (h : b.Rooted) : b.function.children Function.rootScope = [] := by
  obtain ⟨scope, stored, region⟩ := Option.map_eq_some_iff.1 h.region
  unfold Function.children
  rw [stored]
  exact congrArg Region.children region

theorem rooted_start (u : CompilationUnit) (parent : ModuleId) (name : String) :
    (u.startFunction parent name).Rooted := ⟨rfl, rfl, rfl⟩

theorem Rooted.addParameter (h : b.Rooted) (a : Argument) : (b.addParameter a).2.Rooted := by
  obtain ⟨x, type, p, added, value⟩ : ∃ x type p, (b.addParameter a).2.function =
      (b.function.addVariable Function.rootScope x type).addParameter p ∧
        p.value = b.function.values.size := ⟨_, _, _, rfl, rfl⟩
  refine ⟨?_, ?_, ?_⟩
  · rw [added]
    exact (Function.size_scopes_addVariable _ _ _ type).trans h.size
  · rw [added]
    exact (Function.region?_addVariable _ _ _ type _).trans h.region
  · rw [added]
    refine (Function.declared_addVariable _ _ _ type _).trans ?_
    rw [if_pos ⟨rfl, h.size ▸ Nat.zero_lt_one⟩, h.declared]
    show _ = (b.function.parameters.push p).toList.map _
    rw [Array.toList_push, List.map_append, ← value]
    rfl

theorem Rooted.addParameters (h : b.Rooted) (arguments : List Argument) :
    (b.addParameters arguments).Rooted := by
  induction arguments generalizing b with
  | nil => exact h
  | cons a rest ih => exact ih (h.addParameter a)

end Draft

end Hir

/-- The scopes of the function are the root scope and, behind it, those of the blocks of the declaration in
the order in which these are opened.  The root scope has the variables of the arguments.  The variables of
the declarations in the body are made in the order of evaluation, and each other scope has those of the
declarations whose innermost block is its own. -/
structure FunctionDecl.Laid (d : FunctionDecl) (n : Names) (f : Function) : Prop where
  regions : f.scopes.toList.map Scope.region = ⟨none, 0, [1]⟩ :: d.nesting.blocks
  arguments : List.Forall₂ (IsArgument n f) d.arguments f.parameters.toList
  root : f.declared Function.rootScope = f.parameters.toList.map (·.value)
  declarations : ∃ ids : List ValueId, ids.Pairwise (· < ·) ∧
    List.Forall₂ (fun p id => IsVariable n f p.1 id) d.nesting.declarations ids ∧
    ∀ s, s ≠ Function.rootScope → f.declared s = variablesAt s d.nesting.declarations ids

namespace Prepared

variable {u : CompilationUnit} {d : FunctionDecl} {asked : List Request} {b : Draft}

/-- The body of a function that has its arguments adds the nesting of the declaration. -/
theorem nests_addBody (h : Prepared u d.arguments asked b) (rooted : b.Rooted) :
    b.Nests Function.rootScope d.nesting (b.addBody d.body) := by
  have depth := h.wellFormed.function.scopes.root.2
  have current : b.current.scope = Function.rootScope := by rw [h.current]
  rw [← current] at depth
  have lowered := Draft.nests_lower (.block d.body) h.wellFormed depth
  have appended := Draft.grows_append ((Expression.block d.body).lower b).2
    ((Expression.block d.body).lower b).1
  have added : b.Nests b.current.scope _ (b.addBody d.body) :=
    lowered.quiet h.wellFormed.current_scope_lt rfl (Draft.grows_lower (.block d.body) b) appended
  rw [rooted.size, current] at added
  exact added

theorem regions_addBody (h : Prepared u d.arguments asked b) (rooted : b.Rooted) :
    (b.addBody d.body).function.scopes.toList.map Scope.region =
      ⟨none, 0, [1]⟩ :: d.nesting.blocks := by
  have nests := h.nests_addBody rooted
  have wellFormed : (b.addBody d.body).WellFormed := (h.wellFormed.lower (.block d.body)).append.1
  have root := Function.region?_eq_some wellFormed.function.scopes.root.1
    wellFormed.function.scopes.root.2
  rw [nests.outermost, rooted.children] at root
  refine List.ext_getElem? fun i => ?_
  rw [List.getElem?_map, Array.getElem?_toList]
  cases i with
  | zero => exact root
  | succ i =>
      cases hr : d.nesting.blocks[i]? with
      | some r =>
          have found := nests.blocks i r hr
          rw [rooted.size, Nat.add_comm] at found
          exact found.trans hr.symm
      | none =>
          have length := List.getElem?_eq_none_iff.1 hr
          have outside : (b.addBody d.body).function.scopes.size ≤ i + 1 := by
            rw [nests.size, rooted.size]
            omega
          rw [Array.getElem?_eq_none outside]
          exact hr.symm

/-- A function that has its arguments is laid out as the declaration is. -/
theorem laid (h : Prepared u d.arguments asked b) (rooted : b.Rooted) :
    d.Laid (b.addBody d.body).names (b.addBody d.body).function := by
  have nests := h.nests_addBody rooted
  have parameters : (b.addBody d.body).function.parameters = b.function.parameters :=
    Draft.parameters_lower (.block d.body) b
  obtain ⟨ids, increasing, -, named, declared⟩ := nests.declarations
  refine ⟨h.regions_addBody rooted, ?_, ?_, ids, increasing, named, fun s hs => ?_⟩
  · rw [parameters]
    exact h.parameters.imp fun a p hp => hp.grow (Draft.grows_addBody b d.body)
  · rw [declared, rooted.declared, parameters, variablesAt_eq_nil, List.append_nil]
    intro p hp hs
    rcases d.body.within_nesting p hp with hp | hp
    · exact absurd (hs.symm.trans hp) (by decide)
    · exact absurd (hs ▸ hp) (by decide)
  · have outside : b.function.scopes.size ≤ s := by
      rw [rooted.size]
      exact Nat.pos_of_ne_zero hs
    rw [declared]
    unfold Function.declared
    rw [Array.getElem?_eq_none outside]
    rfl

end Prepared

/-- **The scopes of a function are nested as the blocks of its body are.**  Whatever the unit holds, a
declared function gets one scope for each block of its body behind the root scope, numbered, placed and
filled as the tree says. -/
theorem FunctionDecl.lower_nested (d : FunctionDecl) (parent : ModuleId) (u : CompilationUnit) :
    ∃ f, (d.lower parent u).functions = u.functions.push f ∧ d.Laid (d.lower parent u).names f := by
  have prepared := ((Prepared.start u parent d.name).addParameters d.arguments).declareReturn
    d.returnType
  have rooted := (Draft.rooted_start u parent d.name).addParameters d.arguments
  exact ⟨_, rfl, prepared.laid ⟨rooted.size, rooted.region, rooted.declared⟩⟩

end FrontEnd
