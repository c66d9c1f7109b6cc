import FrontEnd.Compilation
import FrontEnd.Proofs.Linearity
import FrontEnd.Proofs.LoweredFunction

/-!
# Compiled functions are trees

* `Function.IsTree` — the values of a function are a tree under the root block, in which only declared
  variables are shared.
* `Prepared.isTree` — a function with its arguments is one when its body is put into it.
* `compile_isTree` — every function of every unit that a compilation makes is one.
-/

namespace FrontEnd

open Hir

/-- The values of a function are a tree, up to variables that are used in several places. -/
structure Hir.Function.IsTree (n : Names) (f : Function) : Prop where
  /-- the root block holds the block of the body, which was made behind the arguments, and nothing else -/
  body : f.body = #[.slot (f.parameters.size + 1)] ∧
    f.blockAt? (f.parameters.size + 1) = some 1 ∧ f.parent? 1 = some rootScope
  /-- nothing refers to the root block -/
  root : f.uses rootBlock = 0
  /-- one reference leads to each other value, unless it is a declared variable -/
  once : ∀ id, id < f.values.size → id ≠ rootBlock → ¬ f.Declares id → f.uses id = 1
  /-- a declared variable is used, unless it is an argument -/
  declared : ∀ id, f.Declares id → ¬ f.HasArgument id → 0 < f.uses id
  /-- all values but the root block and the arguments are reached from the root block -/
  reached : ∀ id, id < f.values.size → id ≠ rootBlock → ¬ f.HasArgument id → f.Reaches rootBlock id
  /-- a call is a call of the operator with two arguments, and all three are older than the call -/
  calls : ∀ (id : ValueId) (callee : Ref) (arguments : List Ref) (t : Option TypeId),
    f.values[id]? = some ⟨.call callee arguments, t⟩ →
      f.IsOperator n callee ∧ arguments.length = 2 ∧ ∀ r ∈ callee :: arguments, r.Below id
  /-- in a block stand unit values, variables, and values that are younger than the block -/
  blocks : ∀ (id : ValueId) (s : ScopeId) (instructions : Array Ref) (t : Option TypeId),
    f.values[id]? = some ⟨.block s instructions, t⟩ → ∀ r ∈ instructions, f.Inner id r
  /-- no value leads back to itself -/
  acyclic : ∀ id, ¬ Relation.TransGen f.RefersTo id id

namespace Hir

namespace Function

variable {f : Function} {n n' : Names} {id a b : ValueId}

theorem IsTree.mono (h : f.IsTree n) (hn : n.Extends n') : f.IsTree n' :=
  { h with
    calls := fun id callee arguments t hv => by
      obtain ⟨operator, others⟩ := h.calls id callee arguments t hv
      exact ⟨operator.mono hn fun _ _ hx => hx, others⟩ }

theorem varAt?_eq_none_of_refersTo (h : f.RefersTo a b) : f.varAt? a = none := by
  obtain ⟨v, hv, hr⟩ := h
  unfold varAt?
  rw [hv]
  cases hx : v.asVariable? with
  | none => exact hx
  | some x =>
      rw [Value.references_of_asVariable? hx] at hr
      cases hr

/-- The values of a function are a tree if they are used linearly and nothing is pending. -/
theorem WellFormed.isTree (hw : f.WellFormed) (hl : f.Linear []) (hs : f.Shapely n)
    (hb : f.body = #[.slot (f.parameters.size + 1)])
    (hone : f.blockAt? (f.parameters.size + 1) = some 1) : f.IsTree n := by
  have once : ∀ id, id < f.values.size → id ≠ rootBlock → ¬ f.Declares id → f.uses id = 1 :=
    hl.once
  have reached : ∀ id, id < f.values.size → id ≠ rootBlock → ¬ f.HasArgument id →
      f.Reaches rootBlock id := by
    intro id hid hroot hargument
    obtain ⟨a, ha, path⟩ := hl.reached id hid hroot hargument
    rcases ha with rfl | ha
    · exact path
    · cases ha
  have parent : f.parent? 1 = some rootScope := by
    obtain ⟨p, -, hp, hlt, -⟩ := hw.scopes.nested 1 (hw.blocks.scope _ _ hone) Nat.one_ne_zero
    rw [hp, Nat.lt_one_iff.1 hlt]
    rfl
  refine ⟨⟨hb, hone, parent⟩, hl.root, once, hl.declared, reached, ?_, ?_, ?_⟩
  · intro id callee arguments t hv
    obtain ⟨operator, two⟩ := hs id _ hv
    exact ⟨operator, two, hw.references id _ hv⟩
  · intro id s instructions t hv
    exact hs id _ hv
  · refine not_transGen_refersTo hl.root fun a b hab hroot => ?_
    have none := varAt?_eq_none_of_refersTo hab
    obtain ⟨v, hv, -⟩ := hab
    have ha := (Array.getElem?_eq_some_iff.1 hv).1
    refine ⟨once a ha hroot ?_, reached a ha hroot ?_⟩
    · rintro ⟨x, hx, -⟩
      rw [none] at hx
      cases hx
    · rintro ⟨p, hp, rfl⟩
      have stored := hw.parameters.stored p hp
      unfold varAt? at none
      rw [stored] at none
      cases none

end Function

namespace Draft

/-- A draft that has arguments and nothing else. -/
structure Bare (b : Draft) : Prop where
  linear : b.Linear []
  values : b.function.values.size = b.function.parameters.size + 1
  scopes : b.function.scopes.size = 1

variable {b : Draft}

theorem bare_start (u : CompilationUnit) (parent : ModuleId) (name : String) :
    (u.startFunction parent name).Bare := by
  refine ⟨⟨wellFormed_start u parent name, ⟨?_, ?_, ?_, ?_, ?_⟩, ?_⟩, rfl, rfl⟩
  · intro r hr
    cases hr
  · rfl
  · intro id hid hroot
    exact absurd (Nat.lt_one_iff.1 hid) hroot
  · rintro id ⟨x, hx, -⟩
    cases (Function.varAt?_fresh id).symm.trans hx
  · intro id hid hroot
    exact absurd (Nat.lt_one_iff.1 hid) hroot
  · intro id v hv
    cases id with
    | zero =>
        cases hv
        exact fun r hr => absurd hr (by simp)
    | succ id => cases hv

theorem Bare.addParameter (h : b.Bare) (a : Argument) : (b.addParameter a).2.Bare where
  linear := {
    wellFormed := (h.linear.wellFormed.addParameter a).wellFormed
    linear := Function.Linear.pushArgument (v := ⟨.var ⟨_, false, .declared⟩, _⟩) rfl h.linear.linear
      rfl rfl rfl rfl
    shapely := by
      have hn := (Names.extends_freshType b.names a.typeName).trans (Names.extends_intern _ a.name)
      exact (h.linear.shapely.mono hn).push (v := ⟨.var ⟨_, false, .declared⟩, _⟩) rfl trivial }
  values := by
    show (b.function.values.push _).size = (b.function.parameters.push _).size + 1
    rw [Array.size_push, Array.size_push, h.values]
  scopes := Array.size_modify.trans h.scopes

theorem Bare.addParameters (h : b.Bare) (arguments : List Argument) :
    (b.addParameters arguments).Bare := by
  induction arguments generalizing b with
  | nil => exact h
  | cons a rest ih => exact ih (h.addParameter a)

theorem Bare.declareReturn (h : b.Bare) (typeName : String) : (b.declareReturn typeName).Bare where
  linear := {
    wellFormed := h.linear.wellFormed.declareReturn typeName
    linear := { h.linear.linear with }
    shapely := h.linear.shapely.mono (Names.extends_freshType b.names typeName) }
  values := h.values
  scopes := h.scopes

end Draft

def CompilationUnit.Trees (u : CompilationUnit) : Prop := ∀ f ∈ u.functions, f.IsTree u.names

end Hir

variable {u : CompilationUnit} {arguments : List Argument} {asked : List Request} {b : Draft}

/-- The block of the body is the first one that is made. -/
theorem Prepared.blockAt?_body (h : Prepared u arguments asked b) (bare : b.Bare)
    (inner : Expression) :
    (b.addBody inner).function.blockAt? b.function.values.size = some 1 := by
  have stored : ((Expression.block inner).lower b).2.function.values[b.function.values.size]? =
      some ⟨.block b.function.scopes.size
        (inner.spilled b.openBlock ++ [(inner.lower b.openBlock).1]).toArray, none⟩ := by
    rw [Draft.lower_block]
    exact Draft.value_block inner b
  have appended := Draft.grows_append ((Expression.block inner).lower b).2
    ((Expression.block inner).lower b).1
  rw [Draft.current_lower] at appended
  have kept : (b.addBody inner).function.values[b.function.values.size]? = _ :=
    appended.values _ _ stored (Nat.ne_of_gt h.current_value_lt)
  unfold Function.blockAt?
  rw [kept, bare.scopes]
  rfl

/-- **The body makes a function with its arguments a tree.** -/
theorem Prepared.isTree (h : Prepared u arguments asked b) (bare : b.Bare) (inner : Expression) :
    (b.addBody inner).function.IsTree (b.addBody inner).names := by
  have inside : ((Expression.block inner).lower b).2.function.Inner
      ((Expression.block inner).lower b).2.current.value ((Expression.block inner).lower b).1 := by
    rw [Draft.current_lower]
    exact h.wellFormed.inner_lower (.block inner) h.current_value_lt
  have filled : (b.addBody inner).Linear [] := (bare.linear.lower (.block inner)).append inside
  -- no block is open, so nothing is pending
  have opened : (b.addBody inner).opened = [] :=
    congrArg (List.map _) ((Draft.blocks_lower (.block inner) b).trans h.blocks)
  have linear : (b.addBody inner).function.Linear ([] ++ (b.addBody inner).opened) := filled.linear
  rw [opened] at linear
  have parameters : (b.addBody inner).function.parameters = b.function.parameters :=
    Draft.parameters_lower (.block inner) b
  refine filled.wellFormed.function.isTree linear filled.shapely ?_ ?_
  · rw [h.body, Draft.lower_block, parameters, bare.values]
  · rw [parameters, ← bare.values]
    exact h.blockAt?_body bare inner

namespace Hir.CompilationUnit

theorem Trees.extend {u' : CompilationUnit} (h : u.Trees) (hn : u.names.Extends u'.names)
    (hf : u'.functions = u.functions) : u'.Trees := by
  intro f hmem
  rw [hf] at hmem
  exact (h f hmem).mono hn

theorem Trees.addFunction (h : u.Trees) (hn : u.names.Extends b.names)
    (hb : b.function.IsTree b.names) : (u.addFunction b).Trees := by
  intro f hf
  rcases Array.mem_push.1 hf with hf | rfl
  · exact (h f hf).mono hn
  · exact hb

theorem Trees.lowerFunction (h : u.Trees) (parent : ModuleId) (d : FunctionDecl) :
    (d.lower parent u).Trees := by
  have prepared := ((Prepared.start u parent d.name).addParameters d.arguments).declareReturn
    d.returnType
  have bare := ((Draft.bare_start u parent d.name).addParameters d.arguments).declareReturn
    d.returnType
  exact h.addFunction (d.extends_lower parent u) (prepared.isTree bare d.body)

theorem kept_trees : Kept Trees where
  addModule := fun u parent name h => h.extend (u.extends_addModule parent name) rfl
  lower := fun _ parent d h => h.lowerFunction parent d

end Hir.CompilationUnit

theorem compile_of_parsed {source : String} {sink : Sink} {p : Program}
    (h : (parseProgram source sink).1 = .ok p) :
    ∃ u, (compile source sink).result = .ok u ∧
      u.functions = (p.lower (parseProgram source sink).2.log).functions := by
  unfold compile
  split <;> rename_i hp <;> rw [hp] at h <;> cases h
  exact ⟨_, rfl, by rw [hp]; rfl⟩

/-- **Every compiled function is a tree of values.**  The root block holds the body and nothing else.  One
reference leads to each value but the declared variables, and to each of those one at least, unless it is
an argument.  All of them are reached from the root block, and no value leads back to itself. -/
theorem compile_isTree {source : String} {sink : Sink} (h : (compile source sink).result = .ok u) :
    ∀ f ∈ u.functions, f.IsTree u.names := by
  unfold compile at h
  split at h
  · rename_i p s hp
    cases h
    have start : (CompilationUnit.fresh s.log).Trees := by
      intro f hf
      cases hf
      contradiction
    have lowered := CompilationUnit.kept_trees.lowerItems start CompilationUnit.root p
    exact lowered.extend (Names.extends_note _ _) rfl
  · cases h

/-- The variable `b` is used twice in the block of this body, as the left operand and as the value, and
the statement `1` of the right operand stands in the block in front of the assignment. -/
theorem compile_isTree_sharedVariable :
    ∃ u, (compile "fn f(a: t) -> t \x7b let b = (1; a); b \x7d" (.empty none)).result = .ok u ∧
      (∀ f ∈ u.functions, f.IsTree u.names) ∧
      u.functions.map (fun f => (f.body, f.values[2]?, f.values[6]?)) =
        #[(#[.slot 2], some ⟨.block 1 #[.slot 3, .slot 6, .slot 4], none⟩,
          some ⟨.call (.slot 5) [.slot 4, .slot 1], none⟩)] := by
  have parsed : (parseProgram "fn f(a: t) -> t \x7b let b = (1; a); b \x7d" (.empty none)).1 =
      .ok [.function ⟨"f", [⟨"a", "t"⟩], "t", .sequence
        (.binary .assign (.declaration ⟨"b", none, false⟩) (.sequence (.number "1") (.identifier "a")))
        (.identifier "b")⟩] := by decide +kernel
  obtain ⟨u, compiled, functions⟩ := compile_of_parsed parsed
  refine ⟨u, compiled, compile_isTree compiled, ?_⟩
  rw [functions]
  decide +kernel

end FrontEnd
