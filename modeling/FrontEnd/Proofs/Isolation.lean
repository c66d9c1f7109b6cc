import FrontEnd.Proofs.Growth
import Mathlib.Logic.Relator

/-!
# Functions are lowered in isolation

A function that is lowered into a unit with other contents is the function that is lowered alone, up to
the numbers of symbols and types.

* `Names.SameName` — two symbols, each in its own table, have the same name.
* `Function.Alike` — the same function, number for number, once symbols are replaced by their names and
  types are shifted.
* `Names.Alike` — to some names the same types and the same open names were added.
* `Draft.simulates_alike` — every operation keeps both.
* `FunctionDecl.Isolated`, `FunctionDecl.lower_isolated` — so lowering a function depends on nothing else
  in the unit, and changes nothing else but one entry in the table of the module around it.
-/

namespace FrontEnd

namespace Hir

/-! ## Arrays side by side -/

section

variable {α β : Type} {R T : α → α → Prop} {a a' base : Array α} {x x' : α}

/-- The arrays have the same positions, and what they hold at each is related. -/
structure Pointwise (R : α → α → Prop) (a a' : Array α) : Prop where
  size : a'.size = a.size
  each : ∀ (i : Nat) (x x' : α), a[i]? = some x → a'[i]? = some x' → R x x'

theorem Pointwise.imp (h : Pointwise R a a') (hR : ∀ x x', R x x' → T x x') : Pointwise T a a' where
  size := h.size
  each := fun i x x' hx hx' => hR x x' (h.each i x x' hx hx')

theorem Pointwise.empty : Pointwise R #[] #[] where
  size := rfl
  each := fun i x x' hx => by cases hx

theorem Pointwise.push (h : Pointwise R a a') (hx : R x x') : Pointwise R (a.push x) (a'.push x') where
  size := by rw [Array.size_push, Array.size_push, h.size]
  each := by
    intro i y y' hy hy'
    rw [Array.getElem?_push] at hy hy'
    rw [h.size] at hy'
    split at hy
    · rename_i hi
      rw [if_pos hi] at hy'
      cases hy
      cases hy'
      exact hx
    · rename_i hi
      rw [if_neg hi] at hy'
      exact h.each i y y' hy hy'

theorem Pointwise.modify (h : Pointwise R a a') {f f' : α → α} (i : Nat)
    (hf : ∀ x x', R x x' → R (f x) (f' x')) : Pointwise R (a.modify i f) (a'.modify i f') where
  size := by rw [Array.size_modify, Array.size_modify, h.size]
  each := by
    intro j y y' hy hy'
    rw [Array.getElem?_modify] at hy hy'
    split at hy
    · rename_i hj
      rw [if_pos hj] at hy'
      obtain ⟨x, hx, rfl⟩ := Option.map_eq_some_iff.1 hy
      obtain ⟨x', hx', rfl⟩ := Option.map_eq_some_iff.1 hy'
      exact hf x x' (h.each j x x' hx hx')
    · rename_i hj
      rw [if_neg hj] at hy'
      exact h.each j y y' hy hy'

/-- What is the same of related entries is the same of the arrays. -/
theorem Pointwise.elim (h : Pointwise R a a') {d : β} {g g' : α → β} (i : Nat)
    (hg : ∀ x x', R x x' → g' x' = g x) : a'[i]?.elim d g' = a[i]?.elim d g := by
  by_cases hi : i < a.size
  · have hi' : i < a'.size := Nat.lt_of_lt_of_eq hi h.size.symm
    have hx := Array.getElem?_eq_getElem hi
    have hx' := Array.getElem?_eq_getElem hi'
    rw [hx, hx']
    exact hg _ _ (h.each i _ _ hx hx')
  · have hi' : a'.size ≤ i := Nat.le_trans (Nat.le_of_eq h.size) (Nat.le_of_not_lt hi)
    rw [Array.getElem?_eq_none (Nat.le_of_not_lt hi), Array.getElem?_eq_none hi']
    rfl

/-- The second array holds what `base` holds, and behind it what the first array holds. -/
def Appended (R : α → α → Prop) (base a a' : Array α) : Prop :=
  ∃ added, a'.toList = base.toList ++ added ∧ List.Forall₂ R a.toList added

theorem Appended.imp (h : Appended R base a a') (hR : ∀ x x', R x x' → T x x') :
    Appended T base a a' := by
  obtain ⟨added, ha, each⟩ := h
  exact ⟨added, ha, each.imp hR⟩

theorem Appended.empty : Appended R base #[] base := ⟨[], (List.append_nil _).symm, .nil⟩

theorem Appended.push (h : Appended R base a a') (hx : R x x') :
    Appended R base (a.push x) (a'.push x') := by
  obtain ⟨added, ha, each⟩ := h
  refine ⟨added ++ [x'], ?_, ?_⟩
  · rw [Array.toList_push, ha, List.append_assoc]
  · rw [Array.toList_push]
    exact List.rel_append each (.cons hx .nil)

theorem Appended.size (h : Appended R base a a') : a'.size = a.size + base.size := by
  obtain ⟨added, ha, each⟩ := h
  have length := congrArg List.length ha
  rw [List.length_append, ← each.length_eq] at length
  simpa [Nat.add_comm] using length

end

/-! ## Names -/

namespace Names

/-- The symbols have the same name, each in its own table. -/
def SameName (n n' : Names) (s s' : Symbol) : Prop :=
  ∃ name, n.symbols.lookup name = some s ∧ n'.symbols.lookup name = some s'

variable {base n n' m m' : Names} {f f' : FunctionId}

/-- A symbol has one name, and a name one symbol. -/
theorem sameName_biUnique (n n' : Names) : Relator.BiUnique (n.SameName n') := by
  constructor
  · rintro s t s' ⟨name, hs, hs'⟩ ⟨other, ht, ht'⟩
    rw [SymbolTable.lookup_inj hs' ht', ht] at hs
    exact Option.some.inj hs.symm
  · rintro s s' t' ⟨name, hs, hs'⟩ ⟨other, ht, ht'⟩
    rw [SymbolTable.lookup_inj hs ht, ht'] at hs'
    exact Option.some.inj hs'.symm

theorem SameName.mono (hn : n.Extends m) (hn' : n'.Extends m') (s s' : Symbol)
    (h : n.SameName n' s s') : m.SameName m' s s' := by
  obtain ⟨name, hs, hs'⟩ := h
  exact ⟨name, hn.symbols name s hs, hn'.symbols name s' hs'⟩

theorem sameName_intern (n n' : Names) (name : String) :
    (n.intern name).2.SameName (n'.intern name).2 (n.intern name).1 (n'.intern name).1 :=
  ⟨name, SymbolTable.lookup_intern_self, SymbolTable.lookup_intern_self⟩

end Names

/-- The entries stand for the same name and for the same value or type, where types are shifted by `k`
and one entry belongs to the function `f` and the other to the function `f'`. -/
def OpenName.Alike (S : Symbol → Symbol → Prop) (k : Nat) (f f' : FunctionId) :
    OpenName → OpenName → Prop
  | var g v s, var g' v' s' => g = f ∧ g' = f' ∧ v' = v ∧ S s s'
  | type t s, type t' s' => t' = t + k ∧ S s s'
  | _, _ => False

theorem OpenName.Alike.imp {S T : Symbol → Symbol → Prop} {k : Nat} {f f' : FunctionId}
    (hS : ∀ s s', S s s' → T s s') (e e' : OpenName) (h : e.Alike S k f f' e') :
    e.Alike T k f f' e' := by
  cases e with
  | var g v s =>
      cases e' with
      | var g' v' s' => exact ⟨h.1, h.2.1, h.2.2.1, hS s s' h.2.2.2⟩
      | type t' s' => exact h
  | type t s =>
      cases e' with
      | var g' v' s' => exact h
      | type t' s' => exact ⟨h.1, hS s s' h.2⟩

namespace Names

/-- Behind the types and the open names of `base` stand those of `n`, for the functions `f'` and `f`. -/
structure Alike (base : Names) (f f' : FunctionId) (n n' : Names) : Prop where
  types : Appended (n.SameName n') base.types n.types n'.types
  unresolved : Appended (OpenName.Alike (n.SameName n') base.types.size f f') base.unresolved
    n.unresolved n'.unresolved

variable {base n n' m m' : Names} {f f' : FunctionId}

theorem Alike.extend (h : Alike base f f' n n') (hn : n.Extends m) (hn' : n'.Extends m')
    (ht : m.types = n.types) (ht' : m'.types = n'.types) (hu : m.unresolved = n.unresolved)
    (hu' : m'.unresolved = n'.unresolved) : Alike base f f' m m' where
  types := by
    rw [ht, ht']
    exact h.types.imp (SameName.mono hn hn')
  unresolved := by
    rw [hu, hu']
    exact h.unresolved.imp (OpenName.Alike.imp (SameName.mono hn hn'))

theorem Alike.note (h : Alike base f f' n n') (e : Event) : Alike base f f' (n.note e) (n'.note e) :=
  h.extend (extends_note n e) (extends_note n' e) rfl rfl rfl rfl

theorem Alike.intern (h : Alike base f f' n n') (name : String) :
    Alike base f f' (n.intern name).2 (n'.intern name).2 :=
  h.extend (extends_intern n name) (extends_intern n' name) rfl rfl rfl rfl

theorem Alike.register (h : Alike base f f' n n') {e e' : OpenName}
    (he : e.Alike (n.SameName n') base.types.size f f' e') :
    Alike base f f' (n.register e) (n'.register e') where
  types := h.types
  unresolved := h.unresolved.push he

/-- A type that is requested on both sides gets the shifted number. -/
theorem Alike.freshType (h : Alike base f f' n n') (name : String) :
    (n'.freshType name).1 = (n.freshType name).1 + base.types.size ∧
      Alike base f f' (n.freshType name).2 (n'.freshType name).2 := by
  have id := h.types.size
  have interned := h.intern name
  have same := sameName_intern n n' name
  have stored : Alike base f f'
      { (n.intern name).2 with types := (n.intern name).2.types.push (n.intern name).1 }
      { (n'.intern name).2 with types := (n'.intern name).2.types.push (n'.intern name).1 } :=
    ⟨interned.types.push same, interned.unresolved⟩
  exact ⟨id, stored.register ⟨id, same⟩⟩

theorem Alike.freshType? (h : Alike base f f' n n') (name : Option String) :
    (n'.freshType? name).1 = (n.freshType? name).1.map (· + base.types.size) ∧
      Alike base f f' (n.freshType? name).2 (n'.freshType? name).2 := by
  cases name with
  | none => exact ⟨rfl, h⟩
  | some name =>
      obtain ⟨id, asked⟩ := h.freshType name
      exact ⟨congrArg some id, asked⟩

end Names

/-! ## Functions -/

section

variable {S T : Symbol → Symbol → Prop} {k : Nat} {s s' : Symbol}

/-- The tables bind the same names, each to the same index. -/
structure Bindings.Alike (S : Symbol → Symbol → Prop) (b b' : Bindings) : Prop where
  there : ∀ s i, b.find? s = some i → ∃ s', S s s' ∧ b'.find? s' = some i
  back : ∀ s' i, b'.find? s' = some i → ∃ s, S s s' ∧ b.find? s = some i

namespace Bindings

variable {b b' : Bindings}

theorem Alike.imp (h : b.Alike S b') (hS : ∀ s s', S s s' → T s s') : b.Alike T b' where
  there := by
    intro s i hs
    obtain ⟨s', same, hs'⟩ := h.there s i hs
    exact ⟨s', hS s s' same, hs'⟩
  back := by
    intro s' i hs'
    obtain ⟨s, same, hs⟩ := h.back s' i hs'
    exact ⟨s, hS s s' same, hs⟩

theorem Alike.empty : empty.Alike S empty where
  there := fun s i hs => by cases hs
  back := fun s' i hs' => by cases hs'

theorem Alike.find?_eq (h : b.Alike S b') (one : Relator.BiUnique S) (hs : S s s') :
    b'.find? s' = b.find? s := by
  ext i
  constructor
  · intro hi
    obtain ⟨t, ht, hi⟩ := h.back s' i hi
    rwa [one.1 ht hs] at hi
  · intro hi
    obtain ⟨t', ht', hi⟩ := h.there s i hi
    rwa [one.2 ht' hs] at hi

theorem Alike.insert (h : b.Alike S b') (one : Relator.BiUnique S) (hs : S s s') (index : Nat) :
    (b.insert s index).Alike S (b'.insert s' index) where
  there := by
    intro t i ht
    rw [find?_insert] at ht
    split at ht
    · rename_i he
      rw [he]
      exact ⟨s', hs, by rw [find?_insert, if_pos rfl, ht]⟩
    · rename_i hne
      obtain ⟨t', same, ht'⟩ := h.there t i ht
      have hne' : t' ≠ s' := fun he => hne ((Relator.rel_eq one same hs).2 he)
      exact ⟨t', same, by rw [find?_insert, if_neg hne', ht']⟩
  back := by
    intro t' i ht'
    rw [find?_insert] at ht'
    split at ht'
    · rename_i he'
      rw [he']
      exact ⟨s, hs, by rw [find?_insert, if_pos rfl, ht']⟩
    · rename_i hne'
      obtain ⟨t, same, ht⟩ := h.back t' i ht'
      have hne : t ≠ s := fun he => hne' ((Relator.rel_eq one same hs).1 he)
      exact ⟨t, same, by rw [find?_insert, if_neg hne, ht]⟩

end Bindings

/-- The same variables; anything else is equal. -/
def Content.Alike (S : Symbol → Symbol → Prop) : Content → Content → Prop
  | .var x, .var x' => S x.name x'.name ∧ x'.isMutable = x.isMutable ∧ x'.resolution = x.resolution
  | kind, kind' => kind' = kind

/-- The same value, with its type shifted by `k`. -/
structure Value.Alike (S : Symbol → Symbol → Prop) (k : Nat) (v v' : Value) : Prop where
  kind : v.kind.Alike S v'.kind
  type : v'.type = v.type.map (· + k)

structure Scope.Alike (S : Symbol → Symbol → Prop) (s s' : Scope) : Prop where
  enclosing : s'.enclosing = s.enclosing
  children : s'.children = s.children
  declared : s'.declared = s.declared
  bindings : s.bindings.Alike S s'.bindings

structure Parameter.Alike (S : Symbol → Symbol → Prop) (k : Nat) (p p' : Parameter) : Prop where
  name : S p.name p'.name
  type : p'.type = p.type + k
  value : p'.value = p.value

/-- The same function, number for number: symbols correspond by `S`, and types are shifted by `k`.  The
modules around the functions are left aside. -/
structure Function.Alike (S : Symbol → Symbol → Prop) (k : Nat) (f f' : Function) : Prop where
  name : S f.name f'.name
  parameters : Pointwise (Parameter.Alike S k) f.parameters f'.parameters
  returnType : f'.returnType = f.returnType.map (· + k)
  scopes : Pointwise (Scope.Alike S) f.scopes f'.scopes
  values : Pointwise (Value.Alike S k) f.values f'.values

theorem Content.Alike.imp (hS : ∀ s s', S s s' → T s s') {c c' : Content} (h : c.Alike S c') :
    c.Alike T c' := by
  cases c with
  | var x =>
      cases c' with
      | var x' => exact ⟨hS _ _ h.1, h.2⟩
      | _ => cases h
  | _ => exact h

theorem Value.Alike.append {v v' : Value} (h : v.Alike S k v') (r : Ref) :
    (v.append r).Alike S k (v'.append r) := by
  obtain ⟨c, t⟩ := v
  obtain ⟨c', t'⟩ := v'
  obtain ⟨kind, type⟩ := h
  cases c with
  | var x =>
      cases c' with
      | var x' => exact ⟨kind, type⟩
      | _ => cases kind
  | _ =>
      cases kind
      exact ⟨rfl, type⟩

theorem Scope.Alike.declare {x x' : Scope} (h : x.Alike S x') (one : Relator.BiUnique S) (hs : S s s')
    (v : ValueId) : (x.declare s v).Alike S (x'.declare s' v) where
  enclosing := h.enclosing
  children := h.children
  declared := congrArg (·.push v) h.declared
  bindings := h.bindings.insert one hs v

namespace Function.Alike

variable {f f' : Function}

theorem imp (h : f.Alike S k f') (hS : ∀ s s', S s s' → T s s') : f.Alike T k f' where
  name := hS _ _ h.name
  parameters := h.parameters.imp fun _ _ hp => { hp with name := hS _ _ hp.name }
  returnType := h.returnType
  scopes := h.scopes.imp fun _ _ hs => { hs with bindings := hs.bindings.imp hS }
  values := h.values.imp fun _ _ hv => { hv with kind := hv.kind.imp hS }

theorem fresh (hs : S s s') (parent parent' : ModuleId) :
    (Function.fresh s parent).Alike S k (Function.fresh s' parent') where
  name := hs
  parameters := .empty
  returnType := rfl
  scopes := Pointwise.empty.push ⟨rfl, rfl, rfl, .empty⟩
  values := Pointwise.empty.push ⟨rfl, rfl⟩

theorem chain_eq (h : f.Alike S k f') (i : ScopeId) : f'.chain i = f.chain i := by
  rw [chain_eq_elim, chain_eq_elim]
  exact h.scopes.elim i fun _ _ hs => congrArg (i :: ·) hs.enclosing

theorem lookup_eq (h : f.Alike S k f') (one : Relator.BiUnique S) (hs : S s s') (i : ScopeId) :
    f'.lookup i s' = f.lookup i s := by
  have bound : f'.bound? s' = f.bound? s := by
    funext j
    rw [bound?_eq_elim, bound?_eq_elim]
    exact h.scopes.elim j fun _ _ same => same.bindings.find?_eq one hs
  unfold lookup
  rw [h.chain_eq, bound]

theorem addValue (h : f.Alike S k f') {v v' : Value} (hv : v.Alike S k v') :
    (f.addValue v).Alike S k (f'.addValue v') :=
  { h with values := h.values.push hv }

theorem append (h : f.Alike S k f') (block : ValueId) (r : Ref) :
    (f.append block r).Alike S k (f'.append block r) :=
  { h with values := h.values.modify block fun _ _ hv => hv.append r }

theorem addScope (h : f.Alike S k f') (p : ScopeId) : (f.addScope p).Alike S k (f'.addScope p) where
  name := h.name
  parameters := h.parameters
  returnType := h.returnType
  scopes := by
    unfold Function.addScope
    rw [h.chain_eq, h.scopes.size]
    refine Pointwise.push (h.scopes.modify p fun _ _ hs => ?_) ⟨rfl, rfl, rfl, .empty⟩
    exact { hs with children := congrArg (fun c : Array ScopeId => c.push f.scopes.size) hs.children }
  values := h.values

theorem addVariable (h : f.Alike S k f') (one : Relator.BiUnique S) (hs : S s s') (i : ScopeId)
    (isMutable : Bool) {t t' : Option TypeId} (ht : t' = t.map (· + k)) :
    (f.addVariable i ⟨s, isMutable, .declared⟩ t).Alike S k
      (f'.addVariable i ⟨s', isMutable, .declared⟩ t') where
  name := h.name
  parameters := h.parameters
  returnType := h.returnType
  scopes := by
    unfold Function.addVariable
    rw [h.values.size]
    exact h.scopes.modify i fun _ _ same => same.declare one hs _
  values := h.values.push ⟨⟨hs, rfl, rfl⟩, ht⟩

end Function.Alike

end

/-! ## Functions under construction -/

namespace Draft

/-- The same function under construction, in two units of which the second one had the names `base`. -/
structure Alike (base : Names) (b b' : Draft) : Prop where
  names : base.Alike b.id b'.id b.names b'.names
  function : b.function.Alike (b.names.SameName b'.names) base.types.size b'.function
  blocks : b'.blocks = b.blocks

variable {base : Names} {b b' : Draft}

theorem Alike.function_mono (h : b.Alike base b') {n n' : Names} (hn : b.names.Extends n)
    (hn' : b'.names.Extends n') : b.function.Alike (n.SameName n') base.types.size b'.function :=
  h.function.imp (Names.SameName.mono hn hn')

theorem Alike.current_eq (h : b.Alike base b') : b'.current = b.current := by
  unfold current
  rw [h.blocks]

theorem Alike.addValue (h : b.Alike base b') {v v' : Value}
    (hv : v.Alike (b.names.SameName b'.names) base.types.size v') :
    Agree (Alike base) (b.addValue v) (b'.addValue v') :=
  ⟨congrArg Ref.slot h.function.values.size, h.names, h.function.addValue hv, h.blocks⟩

theorem Alike.openBlock (h : b.Alike base b') : b.openBlock.Alike base b'.openBlock where
  names := h.names
  function := by
    unfold Draft.openBlock
    dsimp only
    rw [h.current_eq, h.function.scopes.size]
    exact (h.function.addScope b.current.scope).addValue ⟨rfl, rfl⟩
  blocks := by
    unfold Draft.openBlock
    dsimp only
    rw [h.function.scopes.size, h.function.values.size, h.blocks]

theorem Alike.append (h : b.Alike base b') (r : Ref) : (b.append r).Alike base (b'.append r) where
  names := h.names
  function := by
    unfold Draft.append
    dsimp only
    rw [h.current_eq]
    exact h.function.append _ r
  blocks := h.blocks

theorem Alike.closeBlock (h : b.Alike base b') : Agree (Alike base) b.closeBlock b'.closeBlock := by
  have blocks := h.blocks
  unfold Draft.closeBlock
  cases hb : b.blocks with
  | nil =>
      rw [hb] at blocks
      rw [blocks]
      exact ⟨rfl, h.names.note _, h.function, rfl⟩
  | cons block rest =>
      rw [hb] at blocks
      rw [blocks]
      exact ⟨rfl, h.names, h.function, rfl⟩

theorem Alike.declare (h : b.Alike base b') (d : VariableDecl) :
    Agree (Alike base) (b.declare d) (b'.declare d) := by
  obtain ⟨type, asked⟩ := h.names.freshType? d.typeName
  have function := h.function_mono (grows_declare 0 b d).names (grows_declare 0 b' d).names
  refine ⟨congrArg Ref.slot h.function.values.size, asked.intern d.name, ?_, h.blocks⟩
  unfold Draft.declare
  dsimp only
  rw [h.current_eq]
  exact function.addVariable (Names.sameName_biUnique _ _) (Names.sameName_intern _ _ _) _ _ type

theorem Alike.addParameter (h : b.Alike base b') (a : Argument) :
    Agree (Alike base) (b.addParameter a) (b'.addParameter a) := by
  obtain ⟨type, asked⟩ := h.names.freshType a.typeName
  have function := h.function_mono (grows_addParameter 0 b a).names (grows_addParameter 0 b' a).names
  have same := Names.sameName_intern (b.names.freshType a.typeName).2 (b'.names.freshType a.typeName).2
    a.name
  have declared := function.addVariable (t := some (b.names.freshType a.typeName).1)
    (Names.sameName_biUnique _ _) same Function.rootScope false (congrArg some type)
  refine ⟨congrArg Ref.slot h.function.values.size, asked.intern a.name, ?_, h.blocks⟩
  exact { declared with parameters := declared.parameters.push ⟨same, type, h.function.values.size⟩ }

theorem Alike.declareReturn (h : b.Alike base b') (typeName : String) :
    (b.declareReturn typeName).Alike base (b'.declareReturn typeName) where
  names := (h.names.freshType typeName).2
  function := by
    have function := h.function_mono (Names.extends_freshType b.names typeName)
      (Names.extends_freshType b'.names typeName)
    exact { function with returnType := congrArg some (h.names.freshType typeName).1 }
  blocks := h.blocks

/-- Both find the same variable, or neither finds one and both register the name. -/
theorem Alike.reference (h : b.Alike base b') (name : String) :
    Agree (Alike base) (b.reference name) (b'.reference name) := by
  have interned := h.names.intern name
  have same := Names.sameName_intern b.names b'.names name
  have function := h.function_mono (Names.extends_intern b.names name)
    (Names.extends_intern b'.names name)
  have found := function.lookup_eq (Names.sameName_biUnique _ _) same b.current.scope
  rw [← h.current_eq] at found
  cases hl : b.function.lookup b.current.scope (b.names.intern name).1 with
  | some v =>
      rw [h.current_eq, hl] at found
      rw [reference_of_lookup hl, reference_of_lookup (h.current_eq ▸ found)]
      exact ⟨rfl, interned, function, h.blocks⟩
  | none =>
      rw [h.current_eq, hl] at found
      rw [reference_of_lookup_eq_none hl, reference_of_lookup_eq_none (h.current_eq ▸ found)]
      have entry : OpenName.Alike ((b.names.intern name).2.SameName (b'.names.intern name).2)
          base.types.size b.id b'.id (.var b.id b.function.values.size (b.names.intern name).1)
          (.var b'.id b'.function.values.size (b'.names.intern name).1) :=
        ⟨rfl, rfl, h.function.values.size, same⟩
      have registered := (interned.note (.unresolvedVariable name)).register entry
      have value : Value.Alike ((b.names.intern name).2.SameName (b'.names.intern name).2)
          base.types.size ⟨.var ⟨(b.names.intern name).1, false, .unresolved⟩, none⟩
          ⟨.var ⟨(b'.names.intern name).1, false, .unresolved⟩, none⟩ := ⟨⟨same, rfl, rfl⟩, rfl⟩
      refine Alike.addValue ?_ value
      exact ⟨registered, function, h.blocks⟩

end Draft

/-- **Every operation does the same in both units.** -/
theorem DraftOp.simulates_alike (base : Names) (op : DraftOp) :
    op.Simulates id (Draft.Alike base) := by
  intro b b' h
  rw [op.rename_id]
  have handOut : ∀ v v' : Ref × Draft, Agree (Draft.Alike base) v v' →
      Agree (Draft.Alike base) (Draft.handOut v) (Draft.handOut v') :=
    fun v v' hv => ⟨congrArg some hv.1, hv.2⟩
  cases op with
  | openBlock => exact ⟨rfl, h.openBlock⟩
  | append r => exact ⟨rfl, h.append r⟩
  | closeBlock => exact handOut _ _ h.closeBlock
  | declare d => exact handOut _ _ (h.declare d)
  | reference name => exact handOut _ _ (h.reference name)
  | literal kind text =>
      exact handOut (b.literal kind text) (b'.literal kind text) (h.addValue ⟨rfl, rfl⟩)
  | call callee arguments =>
      exact handOut (b.call callee arguments) (b'.call callee arguments) (h.addValue ⟨rfl, rfl⟩)
  | addParameter a => exact handOut _ _ (h.addParameter a)
  | declareReturn typeName => exact ⟨rfl, h.declareReturn typeName⟩

theorem Draft.alike_start (u : CompilationUnit) (parent : ModuleId) (name : String) (log : Log) :
    ((CompilationUnit.fresh log).startFunction CompilationUnit.root name).Alike u.names
      (u.startFunction parent name) where
  names := by
    have nothing : u.names.Alike 0 u.functions.size (CompilationUnit.fresh log).names u.names :=
      ⟨.empty, .empty⟩
    exact (nothing.note (.createdFunction name)).intern name
  function := .fresh (Names.sameName_intern _ _ name) _ _
  blocks := rfl

end Hir

open Hir

/-- The unit `after` is the unit `u` with a function `g` in the module `parent`, and but for the numbers
of symbols and types the function is the only one, `f`, of the unit `alone`. -/
structure FunctionDecl.Isolated (d : FunctionDecl) (parent : ModuleId) (u alone after : CompilationUnit)
    (f g : Function) : Prop where
  single : alone.functions = #[f] ∧ f.parent = CompilationUnit.root
  functions : after.functions = u.functions.push g ∧ g.parent = parent
  /-- the functions are the same, with the types of `g` behind those of the unit -/
  same : f.Alike (alone.names.SameName after.names) u.names.types.size g
  /-- the types and the open names of the unit are kept, and behind them stand those of the function -/
  names : u.names.Alike 0 u.functions.size alone.names after.names
  /-- the names of the unit keep their symbols, and the name of the function has one -/
  symbols : u.names.Extends after.names ∧ after.names.symbols.lookup d.name = some g.name
  /-- the other modules are the same -/
  modules : after.modules.size = u.modules.size ∧
    ∀ m, m ≠ parent → after.modules[m]? = u.modules[m]?
  /-- the module around the function is the same but for its functions of this name -/
  table : ∀ m, u.modules[parent]? = some m →
    ∃ functions, after.modules[parent]? = some { m with functions := functions } ∧
      ∀ s, functions.find? s = if s = g.name then some u.functions.size else m.functions.find? s
  structs : after.structs = u.structs
  classes : after.classes = u.classes

/-- **Functions are lowered in isolation.**  Whatever a unit holds, a function is lowered into it as it is
lowered into the root module of a new unit, and all that the unit held is kept. -/
theorem FunctionDecl.lower_isolated (d : FunctionDecl) (parent : ModuleId) (u : CompilationUnit)
    (log : Log) :
    ∃ f g, d.Isolated parent u (d.lower CompilationUnit.root (CompilationUnit.fresh log))
      (d.lower parent u) f g := by
  let b := (CompilationUnit.fresh log).startFunction CompilationUnit.root d.name
  let b' := u.startFunction parent d.name
  have built := Draft.simulates_build (DraftOp.simulates_alike u.names) rfl d
    (Draft.alike_start u parent d.name log)
  rw [d.rename_id] at built
  have continued : b.Continues (d.build b) := Draft.continues_build d b
  have continued' : b'.Continues (d.build b') := Draft.continues_build d b'
  have modules : (d.lower parent u).modules = u.modules.modify parent fun m =>
      { m with functions := m.functions.insert (d.build b').function.name u.functions.size } := by
    unfold FunctionDecl.lower CompilationUnit.addFunction
    dsimp only
    rw [continued'.parent, continued'.id]
    rfl
  refine ⟨(d.build b).function, (d.build b').function, ⟨rfl, continued.parent⟩,
    ⟨rfl, continued'.parent⟩, built.function, ?_, ⟨d.extends_lower parent u, ?_⟩, ⟨?_, ?_⟩, ?_, rfl, rfl⟩
  · have names : u.names.Alike (d.build b).id (d.build b').id (d.build b).names (d.build b').names :=
      built.names
    rw [continued.id, continued'.id] at names
    exact names
  · rw [continued'.name]
    exact continued'.names.symbols d.name _ SymbolTable.lookup_intern_self
  · rw [modules, Array.size_modify]
  · intro m hm
    rw [modules, Array.getElem?_modify, if_neg (Ne.symm hm)]
  · intro m hm
    refine ⟨m.functions.insert (d.build b').function.name u.functions.size, ?_, ?_⟩
    · rw [modules, Array.getElem?_modify, if_pos rfl, hm]
      rfl
    · exact fun s => Bindings.find?_insert _ _ _ _

end FrontEnd
