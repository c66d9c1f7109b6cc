import FrontEnd.Hir.Draft

/-!
# What a function stores

A function is seen through a few questions, and each way in which a function grows has one law for each
question whose answer it touches.  Statements about functions are made in these questions, so no later
proof opens an array.

* `Function.parent?`, `Function.depth?`, `Function.children`, `Function.declared` — the scopes,
  together with `Function.chain` and `Function.bound?`.
* `Function.varAt?`, `Function.blockAt?` — the values.
* The laws of `addValue`, `append`, `addVariable` and `addScope`.
-/

namespace FrontEnd

namespace Hir

namespace Value

/-- The scope of the block that the value is. -/
def blockScope? (v : Value) : Option ScopeId :=
  match v.kind with
  | .block scope _ => some scope
  | _ => none

@[simp] theorem asVariable?_append (v : Value) (r : Ref) :
    (v.append r).asVariable? = v.asVariable? := by
  obtain ⟨kind, type⟩ := v
  cases kind <;> rfl

@[simp] theorem blockScope?_append (v : Value) (r : Ref) :
    (v.append r).blockScope? = v.blockScope? := by
  obtain ⟨kind, type⟩ := v
  cases kind <;> rfl

end Value

namespace Function

variable (f : Function)

def parent? (s : ScopeId) : Option ScopeId := f.scopes[s]?.elim none Scope.parent

def depth? (s : ScopeId) : Option Nat := f.scopes[s]?.elim none fun scope => some scope.depth

/-- The scopes directly inside a scope, in order of creation. -/
def children (s : ScopeId) : List ScopeId := f.scopes[s]?.elim [] (·.children.toList)

def declared (s : ScopeId) : List ValueId := f.scopes[s]?.elim [] (·.declared.toList)

def varAt? (id : ValueId) : Option Variable := f.values[id]?.bind Value.asVariable?

/-- The scope of the block that is stored at a position. -/
def blockAt? (id : ValueId) : Option ScopeId := f.values[id]?.bind Value.blockScope?

variable {f}

theorem lt_size_of_varAt? {id : ValueId} {x : Variable} (h : f.varAt? id = some x) :
    id < f.values.size := by
  obtain ⟨v, hv, -⟩ := Option.bind_eq_some_iff.1 h
  exact (Array.getElem?_eq_some_iff.1 hv).1

theorem lt_size_of_blockAt? {id : ValueId} {s : ScopeId} (h : f.blockAt? id = some s) :
    id < f.values.size := by
  obtain ⟨v, hv, -⟩ := Option.bind_eq_some_iff.1 h
  exact (Array.getElem?_eq_some_iff.1 hv).1

theorem chain_eq_elim (s : ScopeId) :
    f.chain s = f.scopes[s]?.elim [] fun scope => s :: scope.enclosing := by
  unfold chain
  cases f.scopes[s]? <;> rfl

theorem bound?_eq_elim (name : Symbol) (s : ScopeId) :
    f.bound? name s = f.scopes[s]?.elim none fun scope => scope.bindings.find? name := by
  unfold bound?
  cases f.scopes[s]? <;> rfl

theorem chain_eq_cons {s : ScopeId} (h : s < f.scopes.size) :
    f.chain s = s :: (f.chain s).tail := by
  rw [chain_eq_elim, Array.getElem?_eq_getElem h]
  rfl

/-! ## Storing a value -/

section

variable (f : Function) (v : Value)

@[simp] theorem declared_addValue (s : ScopeId) : (f.addValue v).declared s = f.declared s := rfl

@[simp] theorem bound?_addValue (name : Symbol) (s : ScopeId) :
    (f.addValue v).bound? name s = f.bound? name s := rfl

@[simp] theorem size_scopes_addValue : (f.addValue v).scopes.size = f.scopes.size := rfl

@[simp] theorem size_values_addValue : (f.addValue v).values.size = f.values.size + 1 :=
  Array.size_push v

theorem values_addValue (id : ValueId) :
    (f.addValue v).values[id]? = if id = f.values.size then some v else f.values[id]? :=
  Array.getElem?_push

theorem varAt?_addValue (id : ValueId) :
    (f.addValue v).varAt? id = if id = f.values.size then v.asVariable? else f.varAt? id := by
  unfold varAt?
  rw [values_addValue]
  split <;> rfl

variable {f} in
theorem values_addValue_of_some {id : ValueId} {w : Value} (h : f.values[id]? = some w) :
    (f.addValue v).values[id]? = some w := by
  rw [values_addValue, if_neg (Nat.ne_of_lt (Array.getElem?_eq_some_iff.1 h).1), h]

variable {f} in
theorem varAt?_addValue_of_some {id : ValueId} {x : Variable} (h : f.varAt? id = some x) :
    (f.addValue v).varAt? id = some x := by
  rw [varAt?_addValue, if_neg (Nat.ne_of_lt (lt_size_of_varAt? h)), h]

theorem blockAt?_addValue (id : ValueId) :
    (f.addValue v).blockAt? id =
      if id = f.values.size then v.blockScope? else f.blockAt? id := by
  unfold blockAt?
  rw [values_addValue]
  split <;> rfl

end

/-! ## An instruction in a block -/

section

variable (f : Function) (block : ValueId) (r : Ref)

@[simp] theorem declared_append (s : ScopeId) : (f.append block r).declared s = f.declared s := rfl

@[simp] theorem bound?_append (name : Symbol) (s : ScopeId) :
    (f.append block r).bound? name s = f.bound? name s := rfl

@[simp] theorem size_scopes_append : (f.append block r).scopes.size = f.scopes.size := rfl

@[simp] theorem size_values_append : (f.append block r).values.size = f.values.size :=
  Array.size_modify

theorem values_append (id : ValueId) :
    (f.append block r).values[id]? =
      if block = id then f.values[id]?.map (·.append r) else f.values[id]? :=
  Array.getElem?_modify

@[simp] theorem varAt?_append (id : ValueId) :
    (f.append block r).varAt? id = f.varAt? id := by
  unfold varAt?
  rw [values_append]
  split
  · cases f.values[id]? <;> simp
  · rfl

@[simp] theorem blockAt?_append (id : ValueId) :
    (f.append block r).blockAt? id = f.blockAt? id := by
  unfold blockAt?
  rw [values_append]
  split
  · cases f.values[id]? <;> simp
  · rfl

end

/-! ## A variable in a scope -/

section

variable (f : Function) (s : ScopeId) (x : Variable) (type : Option TypeId)

theorem scopes_addVariable (t : ScopeId) :
    (f.addVariable s x type).scopes[t]? =
      if s = t then f.scopes[t]?.map (·.declare x.name f.values.size) else f.scopes[t]? :=
  Array.getElem?_modify

/-- What a declaration does not change in its scope it does not change in any. -/
theorem elim_scopes_addVariable {α : Type} (a : α) (g : Scope → α) (t : ScopeId)
    (hg : ∀ (scope : Scope) (name : Symbol) (id : ValueId), g (scope.declare name id) = g scope) :
    (f.addVariable s x type).scopes[t]?.elim a g = f.scopes[t]?.elim a g := by
  rw [scopes_addVariable]
  split
  · cases f.scopes[t]? with
    | none => rfl
    | some scope => exact hg scope _ _
  · rfl

@[simp] theorem chain_addVariable (t : ScopeId) :
    (f.addVariable s x type).chain t = f.chain t := by
  rw [chain_eq_elim, chain_eq_elim]
  exact elim_scopes_addVariable f s x type _ _ t fun _ _ _ => rfl

@[simp] theorem parent?_addVariable (t : ScopeId) :
    (f.addVariable s x type).parent? t = f.parent? t :=
  elim_scopes_addVariable f s x type _ _ t fun _ _ _ => rfl

@[simp] theorem depth?_addVariable (t : ScopeId) :
    (f.addVariable s x type).depth? t = f.depth? t :=
  elim_scopes_addVariable f s x type _ _ t fun _ _ _ => rfl

@[simp] theorem children_addVariable (t : ScopeId) :
    (f.addVariable s x type).children t = f.children t :=
  elim_scopes_addVariable f s x type _ _ t fun _ _ _ => rfl

theorem declared_addVariable (t : ScopeId) :
    (f.addVariable s x type).declared t =
      if s = t ∧ t < f.scopes.size then f.declared t ++ [f.values.size] else f.declared t := by
  unfold declared
  rw [scopes_addVariable]
  by_cases h : t < f.scopes.size
  · rw [Array.getElem?_eq_getElem h]
    by_cases hs : s = t <;> simp [hs, h, Scope.declare]
  · rw [Array.getElem?_eq_none (Nat.le_of_not_lt h)]
    simp [h]

theorem mem_declared_addVariable (t : ScopeId) (id : ValueId) :
    id ∈ (f.addVariable s x type).declared t ↔
      id ∈ f.declared t ∨ (s = t ∧ t < f.scopes.size) ∧ id = f.values.size := by
  rw [declared_addVariable]
  split
  · rename_i h
    rw [List.mem_append, List.mem_singleton, and_iff_right h]
  · rename_i h
    rw [or_iff_left fun hc => h hc.1]

theorem bound?_addVariable (name : Symbol) (t : ScopeId) :
    (f.addVariable s x type).bound? name t =
      if s = t ∧ t < f.scopes.size ∧ name = x.name then some f.values.size
      else f.bound? name t := by
  unfold bound?
  rw [scopes_addVariable]
  by_cases h : t < f.scopes.size
  · rw [Array.getElem?_eq_getElem h]
    by_cases hs : s = t <;> simp [hs, h, Scope.declare, Bindings.find?_insert]
  · rw [Array.getElem?_eq_none (Nat.le_of_not_lt h)]
    simp [h]

@[simp] theorem size_scopes_addVariable :
    (f.addVariable s x type).scopes.size = f.scopes.size := Array.size_modify

@[simp] theorem size_values_addVariable :
    (f.addVariable s x type).values.size = f.values.size + 1 := Array.size_push _

theorem values_addVariable (id : ValueId) :
    (f.addVariable s x type).values[id]? =
      if id = f.values.size then some ⟨.var x, type⟩ else f.values[id]? :=
  Array.getElem?_push

theorem varAt?_addVariable (id : ValueId) :
    (f.addVariable s x type).varAt? id =
      if id = f.values.size then some x else f.varAt? id :=
  varAt?_addValue f ⟨.var x, type⟩ id

@[simp] theorem blockAt?_addVariable (id : ValueId) :
    (f.addVariable s x type).blockAt? id = f.blockAt? id := by
  have h : (f.addVariable s x type).blockAt? id =
      if id = f.values.size then none else f.blockAt? id :=
    blockAt?_addValue f ⟨.var x, type⟩ id
  rw [h]
  split
  · rename_i hid
    unfold blockAt?
    rw [hid, Array.getElem?_eq_none (Nat.le_refl _)]
    rfl
  · rfl

end

/-! ## A scope inside another one -/

section

variable (f : Function) (p : ScopeId)

theorem scopes_addScope (t : ScopeId) :
    (f.addScope p).scopes[t]? =
      if t = f.scopes.size then some (Scope.fresh (f.chain p))
      else if p = t then f.scopes[t]?.map fun s => { s with children := s.children.push f.scopes.size }
      else f.scopes[t]? := by
  unfold addScope
  rw [Array.getElem?_push, Array.size_modify, Array.getElem?_modify]

/-- What the children of a scope do not change in it is changed in no older scope. -/
theorem elim_scopes_addScope {α : Type} (a : α) (g : Scope → α) (t : ScopeId)
    (hg : ∀ (scope : Scope) (children : Array ScopeId),
      g { scope with children := children } = g scope) :
    (f.addScope p).scopes[t]?.elim a g =
      if t = f.scopes.size then g (Scope.fresh (f.chain p)) else f.scopes[t]?.elim a g := by
  rw [scopes_addScope]
  split
  · rfl
  split
  · cases f.scopes[t]? with
    | none => rfl
    | some scope => exact hg scope _
  · rfl

theorem chain_addScope (t : ScopeId) :
    (f.addScope p).chain t = if t = f.scopes.size then t :: f.chain p else f.chain t := by
  rw [chain_eq_elim, chain_eq_elim t]
  exact elim_scopes_addScope f p _ _ t fun _ _ => rfl

theorem parent?_addScope (t : ScopeId) :
    (f.addScope p).parent? t =
      if t = f.scopes.size then (f.chain p).head? else f.parent? t :=
  elim_scopes_addScope f p _ _ t fun _ _ => rfl

theorem depth?_addScope (t : ScopeId) :
    (f.addScope p).depth? t =
      if t = f.scopes.size then some (f.chain p).length else f.depth? t :=
  elim_scopes_addScope f p _ _ t fun _ _ => rfl

theorem children_addScope (t : ScopeId) :
    (f.addScope p).children t =
      if p = t ∧ t < f.scopes.size then f.children t ++ [f.scopes.size] else f.children t := by
  unfold children
  rw [scopes_addScope]
  by_cases h : t < f.scopes.size
  · rw [Array.getElem?_eq_getElem h, if_neg (Nat.ne_of_lt h)]
    by_cases hp : p = t <;> simp [hp, h]
  · rw [Array.getElem?_eq_none (Nat.le_of_not_lt h)]
    by_cases hp : p = t <;> by_cases ht : t = f.scopes.size <;> simp [hp, ht, h, Scope.fresh]

theorem mem_children_addScope (t c : ScopeId) :
    c ∈ (f.addScope p).children t ↔
      c ∈ f.children t ∨ (p = t ∧ t < f.scopes.size) ∧ c = f.scopes.size := by
  rw [children_addScope]
  split
  · rename_i h
    rw [List.mem_append, List.mem_singleton, and_iff_right h]
  · rename_i h
    rw [or_iff_left fun hc => h hc.1]

@[simp] theorem declared_addScope (t : ScopeId) : (f.addScope p).declared t = f.declared t := by
  unfold declared
  rw [elim_scopes_addScope f p _ _ t fun _ _ => rfl]
  split
  · rename_i ht
    rw [ht, Array.getElem?_eq_none (Nat.le_refl _)]
    rfl
  · rfl

@[simp] theorem bound?_addScope (name : Symbol) (t : ScopeId) :
    (f.addScope p).bound? name t = f.bound? name t := by
  rw [bound?_eq_elim, bound?_eq_elim, elim_scopes_addScope f p _ _ t fun _ _ => rfl]
  split
  · rename_i ht
    rw [ht, Array.getElem?_eq_none (Nat.le_refl _)]
    rfl
  · rfl

@[simp] theorem size_scopes_addScope : (f.addScope p).scopes.size = f.scopes.size + 1 := by
  unfold addScope
  rw [Array.size_push, Array.size_modify]

@[simp] theorem varAt?_addScope (id : ValueId) :
    (f.addScope p).varAt? id = f.varAt? id := rfl

@[simp] theorem blockAt?_addScope (id : ValueId) :
    (f.addScope p).blockAt? id = f.blockAt? id := rfl

end

end Function

end Hir

end FrontEnd
