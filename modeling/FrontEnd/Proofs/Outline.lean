import FrontEnd.Proofs.LoweredFunction
import Mathlib.Data.List.ReduceOption
import Mathlib.Order.Bounds.Basic

/-!
# The declarations of a unit

* `outlineItems`, `Program.outline` — the declarations of a program in the order in which they are
  written, each with the number of the module around it.
* `Bindings.Indexes` — a table has the last entry of each name.
* `Function.types`, `IsFunction` — the types that a function asked for, and the function that belongs to
  a declaration.
* `ModuleTree` — the modules are a tree, and their tables have what was declared last.
* `CompilationUnit.Outlined` — a unit of these declarations, in which each type belongs to one place.
* `Outlined.addModule`, `Outlined.lower`, `Outlined.lowerItems` — how the outline of a unit grows.
* `Program.lower_outlined` — a program is lowered to a unit of its outline.
-/

namespace FrontEnd

open Hir

/-! ## Outlines -/

/-- Declarations in the order in which they are written: those inside a module follow the module.  The
number of a module is its place among the modules, and the root module is the first one. -/
structure Outline where
  /-- names, with the number of the module around each, if there is one -/
  modules : List (String × Option ModuleId)
  /-- functions, with the number of the module around each -/
  functions : List (FunctionDecl × ModuleId)
deriving DecidableEq, Repr

namespace Outline

def empty : Outline := ⟨[], []⟩

def append (o o' : Outline) : Outline := ⟨o.modules ++ o'.modules, o.functions ++ o'.functions⟩

@[simp] theorem append_empty (o : Outline) : o.append empty = o := by simp [append, empty]

theorem append_assoc (o o' o'' : Outline) : (o.append o').append o'' = o.append (o'.append o'') := by
  simp [append, List.append_assoc]

end Outline

mutual

/-- The outline of a declaration inside a module.  The next module gets the number `next`. -/
def Item.outline (parent next : ModuleId) : Item → Outline
  | .module name items =>
    Outline.append ⟨[(name, some parent)], []⟩ (outlineItems next (next + 1) items)
  | .function d => ⟨[], [(d, parent)]⟩

def outlineItems (parent next : ModuleId) : List Item → Outline
  | [] => .empty
  | item :: rest =>
    let first := item.outline parent next
    first.append (outlineItems parent (next + first.modules.length) rest)

end

/-- The outline of a program, with the root module in front. -/
def Program.outline (p : Program) : Outline :=
  Outline.append ⟨[("root", none)], []⟩ (outlineItems CompilationUnit.root 1 p)

namespace Hir

/-! ## Tables -/

section

variable {α : Type} {a : Array α} {x : α} {p : α → Prop} {k : Nat}

/-- Where the entries with a property stand. -/
def positions (a : Array α) (p : α → Prop) : Set Nat := {k | ∃ x, a[k]? = some x ∧ p x}

theorem lt_size_of_positions (h : k ∈ positions a p) : k < a.size := by
  obtain ⟨x, hx, -⟩ := h
  exact (Array.getElem?_eq_some_iff.1 hx).1

theorem positions_push (a : Array α) (x : α) (p : α → Prop) :
    positions (a.push x) p = positions a p ∪ {k | k = a.size ∧ p x} := by
  ext k
  constructor
  · rintro ⟨y, hy, hp⟩
    rw [Array.getElem?_push] at hy
    split at hy
    · rename_i hk
      cases hy
      exact .inr ⟨hk, hp⟩
    · exact .inl ⟨y, hy, hp⟩
  · rintro (hk | ⟨rfl, hp⟩)
    · have hne : k ≠ a.size := Nat.ne_of_lt (lt_size_of_positions hk)
      obtain ⟨y, hy, hp⟩ := hk
      exact ⟨y, by rw [Array.getElem?_push, if_neg hne, hy], hp⟩
    · exact ⟨x, by rw [Array.getElem?_push, if_pos rfl], hp⟩

/-- An entry with the property is the last one when it is added. -/
theorem isGreatest_positions_push (hx : p x) : IsGreatest (positions (a.push x) p) a.size := by
  rw [positions_push]
  refine ⟨.inr ⟨rfl, hx⟩, ?_⟩
  rintro k (hk | ⟨rfl, -⟩)
  · exact Nat.le_of_lt (lt_size_of_positions hk)
  · exact Nat.le_refl _

theorem positions_push_of_not (hx : ¬ p x) : positions (a.push x) p = positions a p := by
  rw [positions_push]
  simp [hx]

/-- What a modified array holds. -/
theorem exists_of_getElem?_modify {f : α → α} {i : Nat} (h : (a.modify i f)[k]? = some x) :
    ∃ y, a[k]? = some y ∧ x = if i = k then f y else y := by
  rw [Array.getElem?_modify] at h
  by_cases hi : i = k
  · rw [if_pos hi] at h
    obtain ⟨y, hy, rfl⟩ := Option.map_eq_some_iff.1 h
    exact ⟨y, hy, (if_pos hi).symm⟩
  · rw [if_neg hi] at h
    exact ⟨x, h, (if_neg hi).symm⟩

/-- What a modified array holds when an entry was added to it: the new entry, or an old one. -/
theorem cases_of_getElem?_push {f : α → α} {i : Nat} {z : α} (h : ((a.modify i f).push x)[k]? = some z) :
    k = a.size ∧ z = x ∨ ∃ y, a[k]? = some y ∧ z = if i = k then f y else y := by
  rw [Array.getElem?_push, Array.size_modify] at h
  split at h
  · rename_i hk
    exact .inl ⟨hk, (Option.some.inj h).symm⟩
  · exact .inr (exists_of_getElem?_modify h)

/-- A relation that a change of one entry keeps. -/
theorem forall₂_modify {β : Type} {R : β → α → Prop} {l : List β} {l' : List α}
    (h : List.Forall₂ R l l') {f : α → α} (hf : ∀ x y, R x y → R x (f y)) (i : Nat) :
    List.Forall₂ R l (l'.modify i f) := by
  induction h generalizing i with
  | nil => simp
  | cons hxy rest ih =>
      cases i with
      | zero =>
          rw [List.modify_zero_cons]
          exact .cons (hf _ _ hxy) rest
      | succ i =>
          rw [List.modify_succ_cons]
          exact .cons hxy (ih i)

theorem positions_modify {f : α → α} (i : Nat) (hf : ∀ x, p (f x) ↔ p x) :
    positions (a.modify i f) p = positions a p := by
  ext k
  show (∃ x, (a.modify i f)[k]? = some x ∧ p x) ↔ ∃ x, a[k]? = some x ∧ p x
  rw [Array.getElem?_modify]
  split
  · simp [hf]
  · rfl

/-- The table has, for each symbol, the last entry with the property. -/
def Bindings.Indexes (table : Bindings) (a : Array α) (p : Symbol → α → Prop) : Prop :=
  ∀ s k, table.find? s = some k ↔ IsGreatest (positions a (p s)) k

namespace Bindings.Indexes

variable {table : Bindings} {p : Symbol → α → Prop}

theorem empty (h : ∀ x ∈ a, ∀ s, ¬ p s x) : Bindings.empty.Indexes a p := by
  intro s k
  rw [find?_empty]
  refine ⟨fun hk => (nomatch hk), ?_⟩
  rintro ⟨⟨x, hx, hp⟩, -⟩
  exact absurd hp (h x (Array.mem_of_getElem? hx) s)

theorem modify (h : table.Indexes a p) {f : α → α} (i : Nat) (hf : ∀ s x, p s (f x) ↔ p s x) :
    table.Indexes (a.modify i f) p := by
  intro s k
  rw [positions_modify i (hf s)]
  exact h s k

theorem push (h : table.Indexes a p) (hx : ∀ s, ¬ p s x) : table.Indexes (a.push x) p := by
  intro s k
  rw [positions_push_of_not (hx s)]
  exact h s k

theorem insert (h : table.Indexes a p) {s : Symbol} (hx : ∀ t, p t x ↔ t = s) :
    (table.insert s a.size).Indexes (a.push x) p := by
  intro t k
  rw [find?_insert]
  split
  · rename_i ht
    have last : IsGreatest (positions (a.push x) (p t)) a.size :=
      isGreatest_positions_push ((hx t).2 ht)
    constructor
    · intro hk
      cases hk
      exact last
    · intro hk
      rw [last.unique hk]
  · rename_i ht
    rw [positions_push_of_not fun hp => ht ((hx t).1 hp)]
    exact h t k

end Bindings.Indexes

end

/-! ## Modules -/

/-- The modules are a tree, in which each has a table of the modules and of the functions inside it. -/
structure ModuleTree (modules : Array Module) (functions : Array Function) : Prop where
  /-- only the root module stands in no other one -/
  root : ∀ (m : ModuleId) (x : Module), modules[m]? = some x →
    (x.parent = none ↔ m = CompilationUnit.root)
  /-- a module around another one has a smaller number -/
  nested : ∀ (m : ModuleId) (x : Module) (p : ModuleId), modules[m]? = some x → x.parent = some p → p < m
  owned : ∀ f ∈ functions, f.parent < modules.size
  /-- of the modules with one name in one module the table has the last one -/
  moduleTable : ∀ (m : ModuleId) (x : Module), modules[m]? = some x →
    x.modules.Indexes modules fun s inner => inner.parent = some m ∧ inner.name = s
  functionTable : ∀ (m : ModuleId) (x : Module), modules[m]? = some x →
    x.functions.Indexes functions fun s f => f.parent = m ∧ f.name = s

namespace ModuleTree

variable {modules : Array Module} {functions : Array Function} {parent : ModuleId}

theorem single (symbol : Symbol) : ModuleTree #[Module.fresh symbol none] #[] := by
  have only : ∀ (m : ModuleId) (x : Module), #[Module.fresh symbol none][m]? = some x →
      m = CompilationUnit.root ∧ x = Module.fresh symbol none := by
    intro m x hx
    cases m with
    | zero =>
        cases hx
        exact ⟨rfl, rfl⟩
    | succ m => cases hx
  have nothing : ∀ f : Function, f ∉ (#[] : Array Function) := fun f => by simp
  constructor
  case root =>
      intro m x hx
      obtain ⟨rfl, rfl⟩ := only m x hx
      exact ⟨fun _ => rfl, fun _ => rfl⟩
  case nested =>
      intro m x p hx hp
      obtain ⟨rfl, rfl⟩ := only m x hx
      cases hp
  case owned =>
      exact fun f hf => absurd hf (nothing f)
  case moduleTable =>
      intro m x hx
      obtain ⟨rfl, rfl⟩ := only m x hx
      refine .empty fun inner hinner s hp => ?_
      obtain ⟨k, hk⟩ := Array.getElem?_of_mem hinner
      obtain ⟨rfl, rfl⟩ := only k inner hk
      cases hp.1
  case functionTable =>
      intro m x hx
      obtain ⟨rfl, rfl⟩ := only m x hx
      exact .empty fun f hf => absurd hf (nothing f)

/-- Nothing stands in a module that is not there yet. -/
theorem parent_lt (h : ModuleTree modules functions) {x : Module} {p : ModuleId} (hx : x ∈ modules)
    (hp : x.parent = some p) : p < modules.size := by
  obtain ⟨k, hk⟩ := Array.getElem?_of_mem hx
  exact Nat.lt_trans (h.nested k x p hk hp) (Array.getElem?_eq_some_iff.1 hk).1

/-- A module that is made inside another one is the last one of its name there. -/
theorem addModule (h : ModuleTree modules functions) (hp : parent < modules.size) (symbol : Symbol) :
    ModuleTree ((modules.modify parent fun m =>
      { m with modules := m.modules.insert symbol modules.size }).push
        (Module.fresh symbol (some parent))) functions := by
  let bind := fun m : Module => { m with modules := m.modules.insert symbol modules.size }
  have size : (modules.modify parent bind).size = modules.size := Array.size_modify
  have old : ∀ (m : ModuleId) (y : Module),
      y.modules.Indexes modules (fun s inner => inner.parent = some m ∧ inner.name = s) →
      y.modules.Indexes (modules.modify parent bind)
        fun s inner => inner.parent = some m ∧ inner.name = s :=
    fun m y hy => hy.modify parent fun _ _ => Iff.rfl
  constructor
  case root =>
      intro m x hx
      rcases cases_of_getElem?_push hx with ⟨rfl, rfl⟩ | ⟨y, hy, rfl⟩
      · exact ⟨fun hn => (nomatch hn), fun hm => absurd hm (Nat.ne_of_gt (Nat.zero_lt_of_lt hp))⟩
      · split <;> exact h.root m y hy
  case nested =>
      intro m x p hx hparent
      rcases cases_of_getElem?_push hx with ⟨rfl, rfl⟩ | ⟨y, hy, rfl⟩
      · cases hparent
        exact hp
      · split at hparent <;> exact h.nested m y p hy hparent
  case owned =>
      intro f hf
      rw [Array.size_push]
      exact Nat.lt_succ_of_lt (Nat.lt_of_lt_of_eq (h.owned f hf) size.symm)
  case moduleTable =>
      intro m x hx
      rcases cases_of_getElem?_push hx with ⟨rfl, rfl⟩ | ⟨y, hy, rfl⟩
      · refine .empty fun inner hinner s hs => ?_
        obtain ⟨k, hk⟩ := Array.getElem?_of_mem hinner
        rcases cases_of_getElem?_push hk with ⟨-, rfl⟩ | ⟨y, hy, rfl⟩
        · exact Nat.ne_of_lt hp (Option.some.inj hs.1)
        · have inside : y.parent = some modules.size := by split at hs <;> exact hs.1
          exact Nat.lt_irrefl _ (h.parent_lt (Array.mem_of_getElem? hy) inside)
      · by_cases hm : parent = m
        · have inserted := (old m y (h.moduleTable m y hy)).insert (s := symbol)
            (x := Module.fresh symbol (some parent))
            fun t => ⟨fun ht => ht.2.symm, fun ht => ⟨congrArg some hm, ht.symm⟩⟩
          rw [size] at inserted
          rw [if_pos hm]
          exact inserted
        · rw [if_neg hm]
          exact (old m y (h.moduleTable m y hy)).push fun s hs => hm (Option.some.inj hs.1)
  case functionTable =>
      intro m x hx
      rcases cases_of_getElem?_push hx with ⟨rfl, rfl⟩ | ⟨y, hy, rfl⟩
      · exact .empty fun f hf s hs => absurd hs.1 (Nat.ne_of_lt (h.owned f hf))
      · split <;> exact h.functionTable m y hy

/-- A function in a module is the last one of its name there. -/
theorem addFunction (h : ModuleTree modules functions) {f : Function} (hp : f.parent < modules.size) :
    ModuleTree (modules.modify f.parent fun m =>
      { m with functions := m.functions.insert f.name functions.size }) (functions.push f) := by
  let bind := fun m : Module => { m with functions := m.functions.insert f.name functions.size }
  have size : (modules.modify f.parent bind).size = modules.size := Array.size_modify
  constructor
  case root =>
      intro m x hx
      obtain ⟨y, hy, rfl⟩ := exists_of_getElem?_modify hx
      split <;> exact h.root m y hy
  case nested =>
      intro m x p hx hparent
      obtain ⟨y, hy, rfl⟩ := exists_of_getElem?_modify hx
      split at hparent <;> exact h.nested m y p hy hparent
  case owned =>
      intro g hg
      rw [size]
      rcases Array.mem_push.1 hg with hg | rfl
      · exact h.owned g hg
      · exact hp
  case moduleTable =>
      intro m x hx
      obtain ⟨y, hy, rfl⟩ := exists_of_getElem?_modify hx
      have table := (h.moduleTable m y hy).modify (f := bind) f.parent fun _ _ => Iff.rfl
      split <;> exact table
  case functionTable =>
      intro m x hx
      obtain ⟨y, hy, rfl⟩ := exists_of_getElem?_modify hx
      by_cases hm : f.parent = m
      · rw [if_pos hm]
        exact (h.functionTable m y hy).insert fun t =>
          ⟨fun ht => ht.2.symm, fun ht => ⟨hm, ht.symm⟩⟩
      · rw [if_neg hm]
        exact (h.functionTable m y hy).push fun s hs => hm hs.1

end ModuleTree

/-! ## The types of a function -/

/-- The type was asked for by this name. -/
def Names.IsType (n : Names) (t : TypeId) (name : String) : Prop :=
  ∃ s, n.symbols.lookup name = some s ∧ n.types[t]? = some s

theorem Names.IsType.mono {n n' : Names} {t : TypeId} {name : String} (h : n.IsType t name)
    (hn : n.Extends n') : n'.IsType t name := by
  obtain ⟨s, hs, ht⟩ := h
  exact ⟨s, hn.symbols name s hs, hn.types t s ht⟩

theorem Names.isType_freshType (n : Names) (name : String) :
    (n.freshType name).2.IsType (n.freshType name).1 name := by
  obtain ⟨s, hs, ht, -⟩ := n.freshType_registered name
  exact ⟨s, hs, ht⟩

theorem Names.size_types_freshType (n : Names) (name : String) :
    (n.freshType name).2.types.size = n.types.size + 1 := Array.size_push _

namespace Function

def valueTypes (f : Function) : List (Option TypeId) := f.values.toList.map (·.type)

/-- The types of the arguments, the return type, and the types of the other variables.  The first values
are the root block and the variables of the arguments. -/
def types (f : Function) : List TypeId :=
  f.parameters.toList.map (·.type) ++ f.returnType.toList ++
    (f.valueTypes.drop (f.parameters.size + 1)).reduceOption

@[simp] theorem length_valueTypes (f : Function) : f.valueTypes.length = f.values.size := by
  simp [valueTypes]

theorem valueTypes_push {f g : Function} {v : Value} (h : g.values = f.values.push v) :
    g.valueTypes = f.valueTypes ++ [v.type] := by
  simp [valueTypes, h]

theorem valueTypes_append (f : Function) (block : ValueId) (r : Ref) :
    (f.append block r).valueTypes = f.valueTypes := by
  have type : ∀ v : Value, (v.append r).type = v.type := by
    rintro ⟨kind, t⟩
    cases kind <;> rfl
  refine List.ext_getElem? fun i => ?_
  unfold valueTypes
  simp only [List.getElem?_map, Array.getElem?_toList, values_append]
  split
  · cases f.values[i]? <;> simp [type]
  · rfl

end Function

namespace Draft

/-- Values were stored behind the others, and the types that they are bound to were asked for one after
the other. -/
structure Typed (b b' : Draft) : Prop where
  returnType : b'.function.returnType = b.function.returnType
  values : ∃ (more : List (Option TypeId)) (n : Nat),
    b'.function.valueTypes = b.function.valueTypes ++ more ∧
      more.reduceOption = List.range' b.names.types.size n ∧
      b'.names.types.size = b.names.types.size + n

variable {b b' b'' : Draft}

theorem Typed.trans (h : b.Typed b') (h' : b'.Typed b'') : b.Typed b'' := by
  obtain ⟨returnType, more, n, values, types, size⟩ := h
  obtain ⟨returnType', more', n', values', types', size'⟩ := h'
  refine ⟨returnType'.trans returnType, more ++ more', n + n', ?_, ?_, ?_⟩
  · rw [values', values, List.append_assoc]
  · rw [List.reduceOption_append, types, types', size, List.range'_append_1]
  · rw [size', size, Nat.add_assoc]

theorem Typed.still (hr : b'.function.returnType = b.function.returnType)
    (hv : b'.function.valueTypes = b.function.valueTypes) (ht : b'.names.types = b.names.types) :
    b.Typed b' :=
  ⟨hr, [], 0, by rw [hv, List.append_nil], rfl, by rw [ht, Nat.add_zero]⟩

theorem Typed.push {v : Value} (hr : b'.function.returnType = b.function.returnType)
    (hv : b'.function.values = b.function.values.push v) (hopen : v.type = none)
    (ht : b'.names.types = b.names.types) : b.Typed b' := by
  refine ⟨hr, [none], 0, ?_, rfl, by rw [ht, Nat.add_zero]⟩
  rw [Function.valueTypes_push hv, hopen]

theorem typed_declare (b : Draft) (d : VariableDecl) : b.Typed (b.declare d).2 := by
  obtain ⟨name, _ | typeName, isMutable⟩ := d
  · exact .push (v := ⟨.var _, none⟩) rfl rfl rfl rfl
  · have values : (b.declare ⟨name, some typeName, isMutable⟩).2.function.values =
        b.function.values.push ⟨.var ⟨_, isMutable, .declared⟩, some b.names.types.size⟩ := rfl
    exact ⟨rfl, [some b.names.types.size], 1, Function.valueTypes_push values, rfl,
      b.names.size_types_freshType typeName⟩

theorem typed_reference (b : Draft) (name : String) : b.Typed (b.reference name).2 := by
  unfold reference
  dsimp only
  split
  · exact .still rfl rfl rfl
  · exact .push rfl rfl rfl rfl

theorem typed_perform (b : Draft) (op : DraftOp) (hop : op.isSignature = false) :
    b.Typed (b.perform op).2 := by
  cases op with
  | openBlock => exact .push (v := Value.emptyBlock _) rfl rfl rfl rfl
  | closeBlock =>
      show b.Typed b.closeBlock.2
      unfold closeBlock
      split <;> exact .still rfl rfl rfl
  | append r => exact .still rfl (Function.valueTypes_append _ _ r) rfl
  | declare d => exact typed_declare b d
  | reference name => exact typed_reference b name
  | literal kind text => exact .push (v := ⟨.literal kind text, none⟩) rfl rfl rfl rfl
  | call callee arguments => exact .push (v := ⟨.call callee arguments, none⟩) rfl rfl rfl rfl
  | addParameter a => cases hop
  | declareReturn typeName => cases hop

/-- **A body binds its values to types of its own**, one after the other. -/
theorem typed_addBody (b : Draft) (inner : Expression) : b.Typed (b.addBody inner) := by
  have lowered : b.Typed ((Expression.block inner).lower b).2 :=
    lower_keeps (fun _ op hop h => h.trans (typed_perform _ op hop)) _ (.still rfl rfl rfl)
  exact lowered.trans (typed_perform _ (.append _) rfl)

/-- The function has these arguments and nothing else, and their types follow each other from `k` on. -/
structure Signature (k : Nat) (arguments : List Argument) (b : Draft) : Prop where
  values : b.function.values.size = b.function.parameters.size + 1
  named : List.Forall₂ (fun a p => b.names.IsType p.type a.typeName) arguments
    b.function.parameters.toList
  types : b.function.parameters.toList.map (·.type) = List.range' k arguments.length
  size : b.names.types.size = k + arguments.length

variable {k : Nat} {arguments : List Argument}

theorem signature_start (u : CompilationUnit) (parent : ModuleId) (name : String) :
    (u.startFunction parent name).Signature u.names.types.size [] := ⟨rfl, .nil, rfl, rfl⟩

theorem Signature.addParameter (h : b.Signature k arguments) (a : Argument) :
    (b.addParameter a).2.Signature k (arguments ++ [a]) := by
  have parameters : (b.addParameter a).2.function.parameters.toList = b.function.parameters.toList ++
      [⟨((b.names.freshType a.typeName).2.intern a.name).1, (b.names.freshType a.typeName).1,
        b.function.values.size⟩] := Array.toList_push
  have fresh : (b.names.freshType a.typeName).1 = k + arguments.length := h.size
  have grown := (grows_addParameter 0 b a).names
  refine ⟨?_, ?_, ?_, ?_⟩
  · show (b.function.values.push _).size = (b.function.parameters.push _).size + 1
    rw [Array.size_push, Array.size_push, h.values]
  · rw [parameters]
    refine List.rel_append (h.named.imp fun _ _ named => named.mono grown) (.cons ?_ .nil)
    exact (b.names.isType_freshType a.typeName).mono (Names.extends_intern _ a.name)
  · rw [parameters, List.map_append, h.types, List.map_singleton, fresh, List.length_append,
      ← List.range'_append_1]
    rfl
  · rw [List.length_append, ← Nat.add_assoc, ← h.size]
    exact b.names.size_types_freshType a.typeName

theorem Signature.addParameters {done : List Argument} (h : b.Signature k done)
    (arguments : List Argument) : (b.addParameters arguments).Signature k (done ++ arguments) := by
  induction arguments generalizing b done with
  | nil =>
      rw [List.append_nil]
      exact h
  | cons a rest ih =>
      have added := ih (h.addParameter a)
      rw [List.append_assoc] at added
      exact added

/-- The return type and the types of the body follow those of the arguments. -/
theorem Signature.types_addBody (h : b.Signature k arguments) (typeName : String) (inner : Expression) :
    ∃ n, ((b.declareReturn typeName).addBody inner).function.types = List.range' k n ∧
      ((b.declareReturn typeName).addBody inner).names.types.size = k + n := by
  obtain ⟨returned, more, n, values, types, size⟩ := typed_addBody (b.declareReturn typeName) inner
  have parameters : ((b.declareReturn typeName).addBody inner).function.parameters =
      b.function.parameters := parameters_lower (.block inner) (b.declareReturn typeName)
  have returnType : (b.declareReturn typeName).function.returnType = some (k + arguments.length) :=
    congrArg some h.size
  have asked : (b.declareReturn typeName).names.types.size = k + arguments.length + 1 := by
    rw [← h.size]
    exact b.names.size_types_freshType typeName
  have length : (b.declareReturn typeName).function.valueTypes.length =
      b.function.parameters.size + 1 := (Function.length_valueTypes _).trans h.values
  rw [asked] at types size
  refine ⟨arguments.length + 1 + n, ?_, ?_⟩
  · unfold Function.types
    rw [parameters, h.types, returned, returnType, values, List.drop_left' length, types,
      ← List.range'_append_1, ← List.range'_append_1]
    rfl
  · rw [size, Nat.add_assoc, Nat.add_assoc, Nat.add_assoc]

end Draft

end Hir

/-! ## The function of a declaration -/

/-- The unit has the function for the declaration, in the module with the number. -/
structure IsFunction (n : Names) (entry : FunctionDecl × ModuleId) (f : Function) : Prop where
  name : n.symbols.lookup entry.1.name = some f.name
  parent : f.parent = entry.2
  /-- the arguments stand in order, each with its variable -/
  arguments : List.Forall₂ (IsArgument n f) entry.1.arguments f.parameters.toList
  /-- their types were asked for by the names that are written -/
  types : List.Forall₂ (fun a p => n.IsType p.type a.typeName) entry.1.arguments f.parameters.toList
  returnType : ∃ t, f.returnType = some t ∧ n.IsType t entry.1.returnType

theorem IsFunction.mono {n n' : Names} {entry : FunctionDecl × ModuleId} {f : Function}
    (h : IsFunction n entry f) (hn : n.Extends n') : IsFunction n' entry f where
  name := hn.symbols _ _ h.name
  parent := h.parent
  arguments := h.arguments.imp fun _ _ ha => ⟨hn.symbols _ _ ha.1, ha.2⟩
  types := h.types.imp fun _ _ ht => ht.mono hn
  returnType := by
    obtain ⟨t, ht, named⟩ := h.returnType
    exact ⟨t, ht, named.mono hn⟩

/-- **A declared function is lowered to a function of its own**, and all types that were asked for
meanwhile belong to it, each to one place. -/
theorem FunctionDecl.build_isFunction (d : FunctionDecl) (parent : ModuleId) (u : CompilationUnit) :
    let b := d.build (u.startFunction parent d.name)
    IsFunction b.names (d, parent) b.function ∧
      ∃ n, b.function.types = List.range' u.names.types.size n ∧
        b.names.types.size = u.names.types.size + n := by
  intro b
  let start := u.startFunction parent d.name
  let signed := (start.addParameters d.arguments).declareReturn d.returnType
  have continued : start.Continues b := Draft.continues_build d start
  have signature : (start.addParameters d.arguments).Signature u.names.types.size d.arguments :=
    (Draft.signature_start u parent d.name).addParameters d.arguments
  have resolved := (((Prepared.start u parent d.name).addParameters d.arguments).declareReturn
    d.returnType).resolved
  have asked : (start.addParameters d.arguments).names.Extends signed.names :=
    Names.extends_freshType _ d.returnType
  have grown : signed.names.Extends b.names := (Draft.grows_addBody signed d.body).names
  have parameters : b.function.parameters = (start.addParameters d.arguments).function.parameters :=
    Draft.parameters_lower (.block d.body) signed
  refine ⟨⟨?_, continued.parent, resolved.parameters, ?_, ?_⟩,
    signature.types_addBody d.returnType d.body⟩
  · show b.names.symbols.lookup d.name = _
    rw [continued.name]
    exact continued.names.symbols d.name _ SymbolTable.lookup_intern_self
  · rw [parameters]
    exact signature.named.imp fun _ _ named => (named.mono asked).mono grown
  · exact ⟨_, (Draft.typed_addBody signed d.body).returnType,
      (Names.isType_freshType _ d.returnType).mono grown⟩

/-! ## Units -/

/-- The module has the name and stands in the module with the number. -/
def IsModule (n : Names) (entry : String × Option ModuleId) (m : Module) : Prop :=
  n.symbols.lookup entry.1 = some m.name ∧ m.parent = entry.2

theorem IsModule.mono {n n' : Names} {entry : String × Option ModuleId} {m : Module}
    (h : IsModule n entry m) (hn : n.Extends n') : IsModule n' entry m :=
  ⟨hn.symbols _ _ h.1, h.2⟩

namespace Hir.CompilationUnit

/-- The unit has these declarations, and its modules are a tree. -/
structure Outlined (u : CompilationUnit) (o : Outline) : Prop where
  /-- one module and one function for each, in order -/
  modules : List.Forall₂ (IsModule u.names) o.modules u.modules.toList
  functions : List.Forall₂ (IsFunction u.names) o.functions u.functions.toList
  /-- each type that was asked for belongs to one place in one function -/
  types : u.functions.toList.flatMap Function.types = List.range u.names.types.size
  tree : ModuleTree u.modules u.functions

variable {u : CompilationUnit} {o : Outline} {parent : ModuleId}

theorem Outlined.size_modules (h : u.Outlined o) : u.modules.size = o.modules.length :=
  h.modules.length_eq.symm

theorem outlined_fresh (log : Log) : (fresh log).Outlined ⟨[("root", none)], []⟩ where
  modules := .cons ⟨SymbolTable.lookup_intern_self, rfl⟩ .nil
  functions := .nil
  types := rfl
  tree := .single _

theorem Outlined.addModule (h : u.Outlined o) (hp : parent < u.modules.size) (name : String) :
    (u.addModule parent name).2.Outlined (o.append ⟨[(name, some parent)], []⟩) := by
  have extended := u.extends_addModule parent name
  refine ⟨?_, ?_, h.types, h.tree.addModule hp _⟩
  · show List.Forall₂ _ _ ((u.modules.modify parent _).push _).toList
    rw [Array.toList_push, Array.toList_modify]
    have old := h.modules.imp fun _ _ hm => hm.mono extended
    refine List.rel_append (forall₂_modify old ?_ parent) (.cons ?_ .nil)
    · exact fun _ _ hm => hm
    · exact ⟨SymbolTable.lookup_intern_self, rfl⟩
  · show List.Forall₂ _ (o.functions ++ []) u.functions.toList
    rw [List.append_nil]
    exact h.functions.imp fun _ _ hf => hf.mono extended

theorem Outlined.lower (h : u.Outlined o) (hp : parent < u.modules.size) (d : FunctionDecl) :
    (d.lower parent u).Outlined (o.append ⟨[], [(d, parent)]⟩) := by
  have extended := d.extends_lower parent u
  have id : (d.build (u.startFunction parent d.name)).id = u.functions.size :=
    (Draft.continues_build d (u.startFunction parent d.name)).id
  obtain ⟨built, n, types, size⟩ := d.build_isFunction parent u
  have owned : (d.build (u.startFunction parent d.name)).function.parent < u.modules.size := by
    rw [built.parent]
    exact hp
  refine ⟨?_, ?_, ?_, ?_⟩
  · show List.Forall₂ _ (o.modules ++ []) (u.modules.modify _ _).toList
    rw [List.append_nil, Array.toList_modify]
    have old := h.modules.imp fun _ _ hm => hm.mono extended
    refine forall₂_modify old ?_ _
    exact fun _ _ hm => hm
  · show List.Forall₂ _ _ (u.functions.push _).toList
    rw [Array.toList_push]
    exact List.rel_append (h.functions.imp fun _ _ hf => hf.mono extended) (.cons built .nil)
  · show (u.functions.push _).toList.flatMap _ = List.range (d.build _).names.types.size
    have joined := List.range'_append_1 (s := 0) (m := u.names.types.size) (n := n)
    rw [Nat.zero_add] at joined
    rw [Array.toList_push, List.flatMap_append, h.types, size, List.flatMap_singleton, types,
      List.range_eq_range', List.range_eq_range', joined]
  · have added := h.tree.addFunction owned
    rw [← id] at added
    exact added

mutual

theorem Outlined.lowerItem {u : CompilationUnit} {o : Outline} (h : u.Outlined o) {parent : ModuleId}
    (hp : parent < o.modules.length) : ∀ item : Item,
      (item.lower parent u).Outlined (o.append (item.outline parent o.modules.length))
  | .module name items => by
      rw [Item.lower, Item.outline, ← Outline.append_assoc]
      have made := h.addModule (Nat.lt_of_lt_of_eq hp h.size_modules.symm) name
      have id : (u.addModule parent name).1 = o.modules.length := h.size_modules
      have length : (o.append ⟨[(name, some parent)], []⟩).modules.length = o.modules.length + 1 :=
        List.length_append
      rw [id, ← length]
      exact made.lowerItems (by rw [length]; exact Nat.lt_succ_self _) items
  | .function d => by
      rw [Item.lower, Item.outline]
      exact h.lower (Nat.lt_of_lt_of_eq hp h.size_modules.symm) d

/-- **Declarations are added in the order of their outline**, however they are nested. -/
theorem Outlined.lowerItems {u : CompilationUnit} {o : Outline} (h : u.Outlined o) {parent : ModuleId}
    (hp : parent < o.modules.length) : ∀ items : List Item,
      (lowerItems parent items u).Outlined (o.append (outlineItems parent o.modules.length items))
  | [] => by
      rw [FrontEnd.lowerItems, outlineItems, Outline.append_empty]
      exact h
  | item :: rest => by
      rw [FrontEnd.lowerItems, outlineItems, ← Outline.append_assoc]
      have first := h.lowerItem hp item
      have length : (o.append (item.outline parent o.modules.length)).modules.length =
          o.modules.length + (item.outline parent o.modules.length).modules.length :=
        List.length_append
      rw [← length]
      exact first.lowerItems (by rw [length]; exact Nat.lt_add_right _ hp) rest

end

end Hir.CompilationUnit

/-- **A program is lowered to a unit of its declarations.**  There is a module or a function for each, in
the order in which they are written and in the module around it, so no declaration is lost when its name
is used again; the tables of a module have the last declaration of each name.  Every argument and every
result has a type of its own. -/
theorem Program.lower_outlined (p : Program) (log : Log) : (p.lower log).Outlined p.outline :=
  (CompilationUnit.outlined_fresh log).lowerItems Nat.zero_lt_one p

/-- The second module `a` is another one, and the module inside the first one has a smaller number. -/
example (d : FunctionDecl) :
    Program.outline [.module "a" [.module "b" [.function d], .function d], .module "a" [.function d]] =
      ⟨[("root", none), ("a", some 0), ("b", some 1), ("a", some 0)], [(d, 2), (d, 1), (d, 3)]⟩ := rfl

end FrontEnd
