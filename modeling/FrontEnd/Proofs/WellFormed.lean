import FrontEnd.Proofs.Storage

/-!
# The structure of a function

* `Function.ScopeTree` — the scopes are a tree that grows from the root scope.
* `Function.BlockPerScope` — each scope has one block.
* `Function.DeclaredOnce` — each declared variable is listed in one scope, once, and no other value is.
* `Function.LastNamed` — in each scope a name is bound to the last variable of that name.
* `Function.ParametersDeclared` — the arguments are variables of the root scope, in their order.
* `Function.RefersBack` — every reference leads to a stored value, and those of a call to older ones.
* `Function.WellFormed` — all six.  Each way in which a function grows keeps them.
-/

namespace FrontEnd

namespace Hir

/-- The reference is the unit value or leads to one of the first `n` values. -/
def Ref.Below (n : Nat) : Ref → Prop
  | unit => True
  | slot id => id < n

theorem Ref.Below.mono {r : Ref} {m n : Nat} (h : r.Below m) (hmn : m ≤ n) : r.Below n := by
  cases r with
  | unit => trivial
  | slot id => exact Nat.lt_of_lt_of_le h hmn

namespace Value

/-- The references in the value that is stored at `id` lead to stored values.  The callee and the
arguments of a call are older than the call. -/
def RefersBelow (id size : Nat) (v : Value) : Prop :=
  match v.kind with
  | .call callee arguments => ∀ r ∈ callee :: arguments, r.Below id
  | .block _ instructions => ∀ r ∈ instructions, r.Below size
  | _ => True

theorem RefersBelow.mono {v : Value} {id m n : Nat} (h : RefersBelow id m v) (hmn : m ≤ n) :
    RefersBelow id n v := by
  obtain ⟨kind, type⟩ := v
  cases kind with
  | block scope instructions => exact fun r hr => (h r hr).mono hmn
  | _ => exact h

theorem RefersBelow.append {v : Value} {id n : Nat} {r : Ref} (h : RefersBelow id n v)
    (hr : r.Below n) : RefersBelow id n (v.append r) := by
  obtain ⟨kind, type⟩ := v
  cases kind with
  | block scope instructions =>
      intro x hx
      rcases Array.mem_push.1 hx with hx | rfl
      · exact h x hx
      · exact hr
  | _ => exact h

end Value

namespace Function

/-- Only the root scope has no parent, and its depth is 0.  The parent of another scope is older, lies
one level higher and has the scope among its children, once, and no scope has other children. -/
structure ScopeTree (f : Function) : Prop where
  root : f.parent? rootScope = none ∧ f.depth? rootScope = some 0
  nested : ∀ s, s < f.scopes.size → s ≠ rootScope → ∃ p n, f.parent? s = some p ∧ p < s ∧
    f.depth? p = some n ∧ f.depth? s = some (n + 1) ∧ f.chain s = s :: f.chain p ∧
    (f.children p).count s = 1
  children : ∀ p c, c ∈ f.children p → f.parent? c = some p

/-- Blocks and scopes belong together, one block for each scope. -/
structure BlockPerScope (f : Function) : Prop where
  root : f.blockAt? rootBlock = some rootScope
  scope : ∀ id s, f.blockAt? id = some s → s < f.scopes.size
  unique : ∀ id id' s, f.blockAt? id = some s → f.blockAt? id' = some s → id = id'
  block : ∀ s, s < f.scopes.size → ∃ id, f.blockAt? id = some s

/-- The variables of the scopes are the declared ones.  Each stands in one scope, once. -/
structure DeclaredOnce (f : Function) : Prop where
  declared : ∀ s id, id ∈ f.declared s → ∃ x, f.varAt? id = some x ∧ x.resolution = .declared
  once : ∀ id x, f.varAt? id = some x → x.resolution = .declared →
    ∃ s, (f.declared s).count id = 1 ∧ ∀ t, id ∈ f.declared t → t = s

/-- Whether a variable of the given name is stored at the position. -/
def isNamed (f : Function) (name : Symbol) (id : ValueId) : Bool :=
  (f.varAt? id).any (·.name == name)

/-- In each scope a name is bound to the last variable of that name. -/
def LastNamed (f : Function) : Prop :=
  ∀ s name, f.bound? name s = ((f.declared s).filter (f.isNamed name)).getLast?

/-- The arguments are immutable variables of the root scope and stand there in their order. -/
structure ParametersDeclared (f : Function) : Prop where
  stored : ∀ p ∈ f.parameters,
    f.values[p.value]? = some ⟨.var ⟨p.name, false, .declared⟩, some p.type⟩
  root : (f.parameters.toList.map (·.value)).Sublist (f.declared rootScope)

/-- Every reference in a value leads to a stored value, in a call to one that is older. -/
def RefersBack (f : Function) : Prop :=
  ∀ (id : ValueId) (v : Value), f.values[id]? = some v → v.RefersBelow id f.values.size

/-- The structure of a function. -/
structure WellFormed (f : Function) : Prop where
  scopes : f.ScopeTree
  blocks : f.BlockPerScope
  declarations : f.DeclaredOnce
  bindings : f.LastNamed
  parameters : f.ParametersDeclared
  references : f.RefersBack

variable {f g : Function}

/-! ## Consequences -/

theorem depth?_eq_some {s : ScopeId} {n : Nat} (h : f.depth? s = some n) :
    (f.chain s).length = n + 1 := by
  unfold depth? at h
  rw [chain_eq_elim]
  cases hs : f.scopes[s]? with
  | none => simp [hs] at h
  | some scope =>
      rw [hs] at h
      cases h
      rfl

theorem lt_size_of_depth? {s : ScopeId} {n : Nat} (h : f.depth? s = some n) :
    s < f.scopes.size := by
  rcases Nat.lt_or_ge s f.scopes.size with hs | hs
  · exact hs
  · simp [depth?, Array.getElem?_eq_none hs] at h

theorem lt_size_of_parent? {s p : ScopeId} (h : f.parent? s = some p) : s < f.scopes.size := by
  rcases Nat.lt_or_ge s f.scopes.size with hs | hs
  · exact hs
  · simp [parent?, Array.getElem?_eq_none hs] at h

theorem ScopeTree.exists_depth? (h : f.ScopeTree) {s : ScopeId} (hs : s < f.scopes.size) :
    ∃ n, f.depth? s = some n := by
  by_cases hr : s = rootScope
  · exact ⟨0, hr ▸ h.root.2⟩
  · obtain ⟨p, n, -, -, -, hd, -⟩ := h.nested s hs hr
    exact ⟨n + 1, hd⟩

theorem ScopeTree.chain_root (h : f.ScopeTree) : f.chain rootScope = [rootScope] := by
  have hc := depth?_eq_some h.root.2
  rw [chain_eq_cons (lt_size_of_depth? h.root.2)] at hc ⊢
  rw [List.eq_nil_of_length_eq_zero (Nat.succ.inj hc)]

theorem ScopeTree.chain_lt (h : f.ScopeTree) (s : ScopeId) :
    ∀ t ∈ (f.chain s).tail, t < s := by
  induction s using Nat.strongRecOn with
  | _ s ih =>
      intro t ht
      rcases Nat.lt_or_ge s f.scopes.size with hs | hs
      · by_cases hr : s = rootScope
        · rw [hr, h.chain_root] at ht
          cases ht
        · obtain ⟨p, n, -, hp, hd, -, hc, -⟩ := h.nested s hs hr
          rw [hc, List.tail_cons, chain_eq_cons (lt_size_of_depth? hd)] at ht
          rcases List.mem_cons.1 ht with rfl | ht
          · exact hp
          · exact Nat.lt_trans (ih p hp t ht) hp
      · simp [chain_eq_elim, Array.getElem?_eq_none hs] at ht

theorem LastNamed.mem_declared (h : f.LastNamed) {name : Symbol} {s : ScopeId} {id : ValueId}
    (hb : f.bound? name s = some id) : id ∈ f.declared s ∧ f.isNamed name id = true := by
  rw [h s name] at hb
  exact List.mem_filter.1 (List.mem_of_getLast? hb)

/-- What a name is bound to is a declared variable of that name. -/
theorem WellFormed.varAt?_of_bound? (h : f.WellFormed) {name : Symbol} {s : ScopeId}
    {id : ValueId} (hb : f.bound? name s = some id) :
    ∃ x, f.varAt? id = some x ∧ x.resolution = .declared ∧ x.name = name := by
  obtain ⟨hmem, hname⟩ := h.bindings.mem_declared hb
  obtain ⟨x, hx, hr⟩ := h.declarations.declared s id hmem
  refine ⟨x, hx, hr, ?_⟩
  simpa [isNamed, hx] using hname

theorem WellFormed.varAt?_of_lookup (h : f.WellFormed) {name : Symbol} {s : ScopeId}
    {id : ValueId} (hl : f.lookup s name = some id) :
    ∃ x, f.varAt? id = some x ∧ x.resolution = .declared ∧ x.name = name := by
  obtain ⟨t, -, hb⟩ := List.exists_of_findSome?_eq_some hl
  exact h.varAt?_of_bound? hb

/-! ## The beginning -/

section

variable {name : Symbol} {parent : ModuleId}

theorem varAt?_fresh (id : ValueId) : (fresh name parent).varAt? id = none := by
  unfold varAt? fresh
  cases id <;> rfl

theorem eq_zero_of_blockAt?_fresh {id : ValueId} {s : ScopeId}
    (h : (fresh name parent).blockAt? id = some s) : id = rootBlock ∧ s = rootScope := by
  cases id with
  | zero =>
      cases h
      exact ⟨rfl, rfl⟩
  | succ id => cases h

theorem declared_fresh (s : ScopeId) : (fresh name parent).declared s = [] := by
  unfold declared fresh
  cases s <;> rfl

theorem wellFormed_fresh (name : Symbol) (parent : ModuleId) : (fresh name parent).WellFormed where
  scopes := by
    refine ⟨⟨rfl, rfl⟩, ?_, ?_⟩
    · intro s hs hr
      exact absurd (Nat.lt_one_iff.1 hs) hr
    · intro p c hc
      cases p <;> cases hc
  blocks := by
    refine ⟨rfl, ?_, ?_, ?_⟩
    · intro id s hs
      rw [(eq_zero_of_blockAt?_fresh hs).2]
      exact Nat.zero_lt_one
    · intro id id' s hs hs'
      rw [(eq_zero_of_blockAt?_fresh hs).1, (eq_zero_of_blockAt?_fresh hs').1]
    · intro s hs
      rw [Nat.lt_one_iff.1 hs]
      exact ⟨rootBlock, rfl⟩
  declarations := by
    constructor
    · intro s id hid
      rw [declared_fresh] at hid
      cases hid
    · intro id x hx
      rw [varAt?_fresh] at hx
      cases hx
  bindings := by
    intro s name'
    rw [declared_fresh]
    cases s <;> rfl
  parameters := by
    constructor
    · intro p hp
      cases hp
      contradiction
    · exact List.nil_sublist _
  references := by
    intro id v hv
    cases id with
    | zero =>
        cases hv
        exact fun r hr => absurd hr (by simp)
    | succ id => cases hv

end

/-! ## Preservation -/

theorem filter_isNamed_congr {name : Symbol} {ids : List ValueId}
    (h : ∀ id ∈ ids, g.varAt? id = f.varAt? id) :
    ids.filter (g.isNamed name) = ids.filter (f.isNamed name) := by
  refine List.filter_congr fun id hid => ?_
  unfold isNamed
  rw [h id hid]

/-- What is put at the end of a list that does not hold it stands there once. -/
theorem count_concat_self {ids : List Nat} {id : Nat} (h : id ∉ ids) :
    (ids ++ [id]).count id = 1 := by
  rw [List.count_append, List.count_eq_zero_of_not_mem h, List.count_singleton_self]

theorem count_concat_of_ne {ids : List Nat} {id new : Nat} (h : id ≠ new) :
    (ids ++ [new]).count id = ids.count id := by
  have hnew : id ∉ [new] := fun hc => h (List.mem_singleton.1 hc)
  rw [List.count_append, List.count_eq_zero_of_not_mem hnew, Nat.add_zero]

section

variable {v : Value} {r : Ref} {s p : ScopeId} {x : Variable} {type : Option TypeId}

theorem ScopeTree.addVariable (h : f.ScopeTree) : (f.addVariable s x type).ScopeTree where
  root := by simpa using h.root
  nested := by simpa using h.nested
  children := by simpa using h.children

theorem ScopeTree.addScope (h : f.ScopeTree) (hp : p < f.scopes.size) :
    (f.addScope p).ScopeTree where
  root := by
    have hr := lt_size_of_depth? h.root.2
    rw [parent?_addScope, depth?_addScope, if_neg (Nat.ne_of_lt hr), if_neg (Nat.ne_of_lt hr)]
    exact h.root
  nested := by
    intro s hs hr
    rw [size_scopes_addScope] at hs
    by_cases he : s = f.scopes.size
    · obtain ⟨n, hn⟩ := h.exists_depth? hp
      have hfresh : f.scopes.size ∉ f.children p :=
        fun hc => Nat.lt_irrefl _ (lt_size_of_parent? (h.children p _ hc))
      refine ⟨p, n, ?_, he ▸ hp, ?_, ?_, ?_, ?_⟩
      · rw [parent?_addScope, if_pos he, chain_eq_cons hp]
        rfl
      · rw [depth?_addScope, if_neg (Nat.ne_of_lt hp), hn]
      · rw [depth?_addScope, if_pos he, depth?_eq_some hn]
      · rw [chain_addScope, chain_addScope, if_pos he, if_neg (Nat.ne_of_lt hp)]
      · rw [children_addScope, if_pos ⟨rfl, hp⟩, he, count_concat_self hfresh]
    · obtain ⟨q, n, h1, h2, h3, h4, h5, h6⟩ :=
        h.nested s (Nat.lt_of_le_of_ne (Nat.le_of_lt_succ hs) he) hr
      have hq : q ≠ f.scopes.size := Nat.ne_of_lt (lt_size_of_depth? h3)
      refine ⟨q, n, ?_, h2, ?_, ?_, ?_, ?_⟩
      · rw [parent?_addScope, if_neg he, h1]
      · rw [depth?_addScope, if_neg hq, h3]
      · rw [depth?_addScope, if_neg he, h4]
      · rw [chain_addScope, chain_addScope, if_neg he, if_neg hq, h5]
      · rw [children_addScope]
        split
        · rw [count_concat_of_ne he, h6]
        · exact h6
  children := by
    intro q c hc
    rw [parent?_addScope]
    rcases (mem_children_addScope f p q c).1 hc with hc | ⟨hpq, hc⟩
    · have hq := h.children q c hc
      rw [if_neg (Nat.ne_of_lt (lt_size_of_parent? hq)), hq]
    · rw [if_pos hc, chain_eq_cons hp, ← hpq.1]
      rfl

theorem BlockPerScope.addValue (h : f.BlockPerScope) (hv : v.blockScope? = none) :
    (f.addValue v).BlockPerScope := by
  have hb : ∀ id, (f.addValue v).blockAt? id = f.blockAt? id := by
    intro id
    rw [blockAt?_addValue, hv]
    split
    · rename_i hid
      cases hs : f.blockAt? id with
      | none => rfl
      | some s => exact absurd hid (Nat.ne_of_lt (lt_size_of_blockAt? hs))
    · rfl
  constructor
  · rw [hb]
    exact h.root
  · intro id s
    rw [hb]
    exact h.scope id s
  · intro id id' s
    rw [hb, hb]
    exact h.unique id id' s
  · intro s hs
    obtain ⟨id, hid⟩ := h.block s hs
    exact ⟨id, by rw [hb, hid]⟩

theorem BlockPerScope.addBlock (h : f.BlockPerScope) :
    ((f.addScope p).addValue (Value.emptyBlock f.scopes.size)).BlockPerScope := by
  have hb : ∀ id, ((f.addScope p).addValue (Value.emptyBlock f.scopes.size)).blockAt? id =
      if id = f.values.size then some f.scopes.size else f.blockAt? id :=
    fun id => blockAt?_addValue _ _ id
  constructor
  · rw [hb, if_neg (Nat.ne_of_lt (lt_size_of_blockAt? h.root))]
    exact h.root
  · intro id s hs
    rw [hb] at hs
    rw [size_scopes_addValue, size_scopes_addScope]
    split at hs
    · cases hs
      exact Nat.lt_succ_self _
    · exact Nat.lt_succ_of_lt (h.scope id s hs)
  · intro id id' s hs hs'
    rw [hb] at hs hs'
    split at hs <;> split at hs'
    · rename_i hid hid'
      exact hid.trans hid'.symm
    · cases hs
      exact absurd (h.scope id' _ hs') (Nat.lt_irrefl _)
    · cases hs'
      exact absurd (h.scope id _ hs) (Nat.lt_irrefl _)
    · exact h.unique id id' s hs hs'
  · intro s hs
    rw [size_scopes_addValue, size_scopes_addScope] at hs
    by_cases he : s = f.scopes.size
    · exact ⟨f.values.size, by rw [hb, if_pos rfl, he]⟩
    · obtain ⟨id, hid⟩ := h.block s (Nat.lt_of_le_of_ne (Nat.le_of_lt_succ hs) he)
      exact ⟨id, by rw [hb, if_neg (Nat.ne_of_lt (lt_size_of_blockAt? hid)), hid]⟩

theorem DeclaredOnce.addValue (h : f.DeclaredOnce)
    (hv : ∀ x, v.asVariable? = some x → x.resolution = .unresolved) :
    (f.addValue v).DeclaredOnce where
  declared := by
    intro s id hid
    obtain ⟨x, hx, hr⟩ := h.declared s id hid
    exact ⟨x, varAt?_addValue_of_some v hx, hr⟩
  once := by
    intro id x hx hr
    rw [varAt?_addValue] at hx
    split at hx
    · rw [hv x hx] at hr
      cases hr
    · exact h.once id x hx hr

theorem DeclaredOnce.addVariable (h : f.DeclaredOnce) (hs : s < f.scopes.size)
    (hx : x.resolution = .declared) : (f.addVariable s x type).DeclaredOnce where
  declared := by
    intro t id hid
    rcases (mem_declared_addVariable f s x type t id).1 hid with hid | ⟨-, hid⟩
    · obtain ⟨y, hy, hr⟩ := h.declared t id hid
      exact ⟨y, varAt?_addValue_of_some ⟨.var x, type⟩ hy, hr⟩
    · exact ⟨x, by rw [varAt?_addVariable, if_pos hid], hx⟩
  once := by
    have fresh : ∀ t, f.values.size ∉ f.declared t := by
      intro t ht
      obtain ⟨y, hy, -⟩ := h.declared t _ ht
      exact Nat.lt_irrefl _ (lt_size_of_varAt? hy)
    intro id y hy hr
    rw [varAt?_addVariable] at hy
    split at hy
    · rename_i hid
      refine ⟨s, ?_, fun t ht => ?_⟩
      · rw [declared_addVariable, if_pos ⟨rfl, hs⟩, hid, count_concat_self (fresh s)]
      · rcases (mem_declared_addVariable f s x type t id).1 ht with ht | ⟨hst, -⟩
        · exact absurd (hid ▸ ht) (fresh t)
        · exact hst.1.symm
    · rename_i hid
      obtain ⟨t, hc, ht⟩ := h.once id y hy hr
      refine ⟨t, ?_, fun t' ht' => ?_⟩
      · rw [declared_addVariable]
        split
        · rw [count_concat_of_ne hid, hc]
        · exact hc
      · rcases (mem_declared_addVariable f s x type t' id).1 ht' with ht' | ⟨-, hc'⟩
        · exact ht t' ht'
        · exact absurd hc' hid

theorem LastNamed.addValue (h : f.LastNamed) (hd : f.DeclaredOnce) : (f.addValue v).LastNamed := by
  intro s name
  rw [bound?_addValue, declared_addValue, h s name, filter_isNamed_congr]
  intro id hid
  obtain ⟨x, hx, -⟩ := hd.declared s id hid
  rw [hx, varAt?_addValue_of_some v hx]

theorem LastNamed.addVariable (h : f.LastNamed) (hd : f.DeclaredOnce) :
    (f.addVariable s x type).LastNamed := by
  intro t name
  have old : (f.declared t).filter ((f.addVariable s x type).isNamed name) =
      (f.declared t).filter (f.isNamed name) := by
    refine filter_isNamed_congr fun id hid => ?_
    obtain ⟨y, hy, -⟩ := hd.declared t id hid
    rw [hy]
    exact varAt?_addValue_of_some ⟨.var x, type⟩ hy
  have new : (f.addVariable s x type).isNamed name f.values.size = (x.name == name) := by
    simp [isNamed, varAt?_addVariable]
  rw [bound?_addVariable, declared_addVariable, h t name]
  by_cases hst : s = t ∧ t < f.scopes.size
  · rw [if_pos hst, List.filter_append, old]
    by_cases hn : name = x.name
    · rw [if_pos ⟨hst.1, hst.2, hn⟩, List.filter_cons_of_pos (by rw [new, hn, beq_self_eq_true])]
      simp
    · rw [if_neg (fun hc => hn hc.2.2), List.filter_cons_of_neg (by simpa [new] using Ne.symm hn)]
      simp
  · rw [if_neg hst, if_neg (fun hc => hst ⟨hc.1, hc.2.1⟩), old]

theorem ParametersDeclared.addValue (h : f.ParametersDeclared) :
    (f.addValue v).ParametersDeclared where
  stored := fun p hp => values_addValue_of_some v (h.stored p hp)
  root := h.root

theorem ParametersDeclared.addVariable (h : f.ParametersDeclared) :
    (f.addVariable s x type).ParametersDeclared where
  stored := fun p hp => values_addValue_of_some ⟨.var x, type⟩ (h.stored p hp)
  root := by
    rw [declared_addVariable]
    split
    · exact h.root.trans (List.sublist_append_left _ _)
    · exact h.root

theorem ParametersDeclared.addParameter (h : f.ParametersDeclared) {name : Symbol} {t : TypeId}
    (hr : rootScope < f.scopes.size) :
    ((f.addVariable rootScope ⟨name, false, .declared⟩ (some t)).addParameter
      ⟨name, t, f.values.size⟩).ParametersDeclared where
  stored := by
    intro p hp
    rcases Array.mem_push.1 hp with hp | rfl
    · exact h.addVariable.stored p hp
    · exact (values_addVariable f rootScope _ _ _).trans (if_pos rfl)
  root := by
    show ((f.parameters.push _).toList.map _).Sublist
      ((f.addVariable rootScope ⟨name, false, .declared⟩ (some t)).declared rootScope)
    rw [declared_addVariable, if_pos ⟨rfl, hr⟩, Array.toList_push, List.map_append]
    exact h.root.append (List.Sublist.refl _)

theorem ParametersDeclared.append (h : f.ParametersDeclared) {block : ValueId} :
    (f.append block r).ParametersDeclared where
  stored := by
    intro p hp
    have := h.stored p hp
    rw [values_append, this]
    split <;> rfl
  root := h.root

theorem RefersBack.addValue (h : f.RefersBack)
    (hv : v.RefersBelow f.values.size (f.values.size + 1)) : (f.addValue v).RefersBack := by
  intro id w hw
  rw [values_addValue] at hw
  rw [size_values_addValue]
  split at hw
  · rename_i hid
    cases hw
    exact hid ▸ hv
  · exact (h id w hw).mono (Nat.le_succ _)

theorem RefersBack.append (h : f.RefersBack) {block : ValueId} (hr : r.Below f.values.size) :
    (f.append block r).RefersBack := by
  intro id w hw
  rw [values_append] at hw
  rw [size_values_append]
  split at hw
  · obtain ⟨w', hw', rfl⟩ := Option.map_eq_some_iff.1 hw
    exact (h id w' hw').append hr
  · exact h id w hw

/-! The same for all six together. -/

theorem WellFormed.addValue (h : f.WellFormed) (hb : v.blockScope? = none)
    (hx : ∀ x, v.asVariable? = some x → x.resolution = .unresolved)
    (hv : v.RefersBelow f.values.size (f.values.size + 1)) : (f.addValue v).WellFormed where
  scopes := ⟨h.scopes.root, h.scopes.nested, h.scopes.children⟩
  blocks := h.blocks.addValue hb
  declarations := h.declarations.addValue hx
  bindings := h.bindings.addValue h.declarations
  parameters := h.parameters.addValue
  references := h.references.addValue hv

theorem WellFormed.addVariable (h : f.WellFormed) (hs : s < f.scopes.size)
    (hx : x.resolution = .declared) : (f.addVariable s x type).WellFormed where
  scopes := h.scopes.addVariable
  blocks := by
    obtain ⟨root, scope, unique, block⟩ := h.blocks
    exact ⟨by simpa using root, by simpa using scope, by simpa using unique, by simpa using block⟩
  declarations := h.declarations.addVariable hs hx
  bindings := h.bindings.addVariable h.declarations
  parameters := h.parameters.addVariable
  references := h.references.addValue (v := ⟨.var x, type⟩) trivial

theorem WellFormed.addParameter (h : f.WellFormed) {name : Symbol} {t : TypeId} :
    ((f.addVariable rootScope ⟨name, false, .declared⟩ (some t)).addParameter
      ⟨name, t, f.values.size⟩).WellFormed := by
  have hr := lt_size_of_depth? h.scopes.root.2
  have declared : (f.addVariable rootScope ⟨name, false, .declared⟩ (some t)).WellFormed :=
    h.addVariable hr rfl
  obtain ⟨scopes, blocks, declarations, bindings, -, references⟩ := declared
  exact ⟨⟨scopes.root, scopes.nested, scopes.children⟩,
    ⟨blocks.root, blocks.scope, blocks.unique, blocks.block⟩,
    ⟨declarations.declared, declarations.once⟩, bindings, h.parameters.addParameter hr, references⟩

theorem WellFormed.addBlock (h : f.WellFormed) (hp : p < f.scopes.size) :
    ((f.addScope p).addValue (Value.emptyBlock f.scopes.size)).WellFormed := by
  obtain ⟨root, nested, children⟩ := h.scopes.addScope hp
  have declarations : (f.addScope p).DeclaredOnce :=
    ⟨by simpa using h.declarations.declared, by simpa using h.declarations.once⟩
  have bindings : (f.addScope p).LastNamed := by
    intro s name
    rw [bound?_addScope, declared_addScope]
    exact h.bindings s name
  have parameters : (f.addScope p).ParametersDeclared := ⟨h.parameters.stored, by
    rw [declared_addScope]
    exact h.parameters.root⟩
  have references : (f.addScope p).RefersBack := h.references
  exact {
    scopes := ⟨root, nested, children⟩
    blocks := h.blocks.addBlock
    declarations := declarations.addValue fun x hx => by cases hx
    bindings := bindings.addValue declarations
    parameters := parameters.addValue
    references := references.addValue fun r hr => absurd hr (by simp) }

theorem WellFormed.append (h : f.WellFormed) {block : ValueId} (hr : r.Below f.values.size) :
    (f.append block r).WellFormed where
  scopes := ⟨h.scopes.root, h.scopes.nested, h.scopes.children⟩
  blocks := by
    obtain ⟨root, scope, unique, block⟩ := h.blocks
    exact ⟨by simpa using root, by simpa using scope, by simpa using unique, by simpa using block⟩
  declarations := by
    obtain ⟨declared, once⟩ := h.declarations
    exact ⟨by simpa using declared, by simpa using once⟩
  bindings := by
    intro s name
    rw [bound?_append, declared_append, h.bindings s name]
    exact congrArg _ (filter_isNamed_congr fun id _ => varAt?_append f block r id).symm
  parameters := h.parameters.append
  references := h.references.append hr

theorem WellFormed.setReturnType (h : f.WellFormed) :
    ({ f with returnType := type } : Function).WellFormed where
  scopes := ⟨h.scopes.root, h.scopes.nested, h.scopes.children⟩
  blocks := ⟨h.blocks.root, h.blocks.scope, h.blocks.unique, h.blocks.block⟩
  declarations := ⟨h.declarations.declared, h.declarations.once⟩
  bindings := h.bindings
  parameters := ⟨h.parameters.stored, h.parameters.root⟩
  references := h.references

end

end Function

end Hir

end FrontEnd
