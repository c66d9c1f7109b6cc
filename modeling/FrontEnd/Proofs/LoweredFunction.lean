import FrontEnd.Proofs.Resolution
import Mathlib.Data.List.Induction

/-!
# Declared functions

* `IsArgument` — an argument of a function with its variable.
* `FunctionDecl.Resolved` — what a unit holds of a declared function: the body represents the tree,
  and each name in it stands for the variable that the resolver finds for it.
* `Prepared` — a function under construction that has its arguments: `Prepared.addParameter` is the
  step, and `Prepared.resolved` says what the body adds.
* `FunctionDecl.lower_resolved` — every declared function is lowered so, into every unit.
-/

namespace FrontEnd

open Hir

/-- The parameter has the name of the argument, and a variable of its own. -/
def IsArgument (n : Names) (f : Function) (a : Argument) (p : Parameter) : Prop :=
  n.symbols.lookup a.name = some p.name ∧
    f.values[p.value]? = some ⟨.var ⟨p.name, false, .declared⟩, some p.type⟩

/-- The names that a declared function leaves open: the types of its arguments, its return type, and
what its body leaves open, where the visits were lowered to the given references. -/
def FunctionDecl.requests (d : FunctionDecl) (refs : List Ref) : List Request :=
  (d.arguments.map fun a => .type a.typeName) ++ [.type d.returnType] ++
    FrontEnd.requests d.visits refs

/-- The unit `u'` holds what the unit `u` holds and the function `f` for the declaration. -/
structure FunctionDecl.Resolved (d : FunctionDecl) (u u' : CompilationUnit) (f : Function)
    (refs : List Ref) : Prop where
  /-- the function is the last one of the unit -/
  functions : u'.functions = u.functions.push f
  /-- each argument has its variable -/
  parameters : List.Forall₂ (IsArgument u'.names f) d.arguments f.parameters.toList
  /-- the body is represented, and `refs` are what its names were lowered to -/
  body : ∃ v, f.body = #[v] ∧ f.Holds (.block d.body) v [] refs
  /-- these are the variables that the resolver finds -/
  answers : List.Forall₂ (Answers u'.names f refs) d.visits refs
  /-- the variables of the arguments, the declarations and the open names are all different -/
  increasing : (f.parameters.toList.map (·.value) ++ created d.visits refs).Pairwise (· < ·)
  /-- the register has grown by the names that the function leaves open, in order -/
  register : ∃ entries, u'.names.unresolved.toList = u.names.unresolved.toList ++ entries ∧
    List.Forall₂ (Registers u'.names u.functions.size) (d.requests refs) entries

theorem IsArgument.grow {b b' : Draft} {cell : ValueId} {a : Argument} {p : Parameter}
    (ha : IsArgument b.names b.function a p) (h : b.Grows cell b') :
    IsArgument b'.names b'.function a p :=
  ⟨h.names.symbols _ _ ha.1, h.stored _ _ _ ha.2⟩

/-- Lower the body of a function and put it into the root block. -/
def Hir.Draft.addBody (b : Draft) (inner : Expression) : Draft :=
  ((Expression.block inner).lower b).2.append ((Expression.block inner).lower b).1

theorem Hir.Draft.grows_addBody (b : Draft) (inner : Expression) :
    b.Grows b.current.value (b.addBody inner) := by
  have appended := Draft.grows_append ((Expression.block inner).lower b).2
    ((Expression.block inner).lower b).1
  rw [Draft.current_lower] at appended
  exact (Draft.grows_lower (.block inner) b).trans appended (Or.inl rfl)

/-- The draft of a function that has these arguments and no body yet. -/
structure Prepared (u : CompilationUnit) (arguments : List Argument) (asked : List Request)
    (b : Draft) : Prop where
  wellFormed : b.WellFormed
  id : b.id = u.functions.size
  /-- no block is open, and the root block is empty -/
  blocks : b.blocks = []
  root : b.function.values[Function.rootBlock]? = some (Value.emptyBlock Function.rootScope)
  /-- each argument has its variable, and they are different -/
  parameters : List.Forall₂ (IsArgument b.names b.function) arguments b.function.parameters.toList
  increasing : (b.function.parameters.toList.map (·.value)).Pairwise (· < ·)
  below : ∀ p ∈ b.function.parameters.toList, p.value < b.function.values.size
  /-- the frame at the bottom has the arguments -/
  tracks : Tracks u.names.unresolved.toList asked 0 ⟨[argumentFrame arguments], []⟩ [] b

namespace Prepared

variable {u : CompilationUnit} {arguments : List Argument} {asked : List Request} {b : Draft}

theorem start (u : CompilationUnit) (parent : ModuleId) (name : String) :
    Prepared u [] [] (u.startFunction parent name) where
  wellFormed := Draft.wellFormed_start u parent name
  id := rfl
  blocks := rfl
  root := rfl
  parameters := .nil
  increasing := .nil
  below := fun p hp => by cases hp
  tracks := {
    frames := by
      refine .cons (fun other => ?_) .nil
      unfold Draft.bound?
      cases (u.startFunction parent name).names.symbols.lookup other <;> rfl
    answers := .nil
    increasing := .nil
    within := fun id hid => by cases hid
    register := ⟨[], (List.append_nil _).symm, .nil⟩ }

theorem current (h : Prepared u arguments asked b) :
    b.current = ⟨Function.rootBlock, Function.rootScope⟩ := by
  rw [Draft.current_eq, h.blocks]
  rfl

/-- The register grows by an open type, while the function grows. -/
theorem register {b' : Draft} {cell : ValueId} (h : Prepared u arguments asked b)
    (hg : b.Grows cell b') {typeName : String}
    (hn : (b.names.freshType typeName).2.Extends b'.names)
    (hu : b'.names.unresolved = (b.names.freshType typeName).2.unresolved) :
    ∃ entries, b'.names.unresolved.toList = u.names.unresolved.toList ++ entries ∧
      List.Forall₂ (Registers b'.names b'.id) ((asked ++ [.type typeName]) ++ requests [] [])
        entries := by
  obtain ⟨entries, he, hr⟩ := h.tracks.register
  obtain ⟨s, hname, htype, registered⟩ := Names.freshType_registered b.names typeName
  have none : requests [] [] = [] := rfl
  rw [none, List.append_nil] at hr ⊢
  refine ⟨entries ++ [.type (b.names.freshType typeName).1 s], ?_, ?_⟩
  · rw [hu, registered, he, List.append_assoc]
  · refine List.rel_append (hr.imp fun request entry h => h.grow hg) ?_
    exact .cons ⟨hn.symbols _ s hname, hn.types _ s htype⟩ .nil

/-- The scopes reflect the frame of the arguments when one is added. -/
theorem frames_addParameter (h : Prepared u arguments asked b) (a : Argument) :
    List.Forall₂ ((b.addParameter a).2.Reflects [])
      ((b.addParameter a).2.function.chain Function.rootScope)
      [argumentFrame (arguments ++ [a])] := by
  have hg := Draft.grows_addParameter b.current.value b a
  have hroot := Function.lt_size_of_depth? h.wellFormed.function.scopes.root.2
  have hl : (b.addParameter a).2.names.symbols.lookup a.name =
      some ((b.names.freshType a.typeName).2.intern a.name).1 := SymbolTable.lookup_intern_self
  have hbound := h.wellFormed.bound?_addVariable (s := Function.rootScope)
    (x := ⟨((b.names.freshType a.typeName).2.intern a.name).1, false, .declared⟩)
    (t := some (b.names.freshType a.typeName).1) hg.names hl hroot fun _ _ => rfl
  have hsize : b.function.parameters.size = arguments.length := h.parameters.length_eq.symm
  have hd : (b.addParameter a).2.function.denote ([] ++ []) (.argument arguments.length) =
      some (.slot b.function.values.size) := by
    show ((b.function.parameters.push _)[arguments.length]?).map _ = _
    rw [Array.getElem?_push, if_pos hsize.symm]
    rfl
  have hframes := h.tracks.frames
  rw [h.current] at hframes
  obtain ⟨top, rest, hw, hbind⟩ := h.wellFormed.reflects_bind hroot hframes hg hbound hd
  cases hw
  rw [argumentFrame_append]
  exact hbind

theorem addParameter (h : Prepared u arguments asked b) (a : Argument) :
    Prepared u (arguments ++ [a]) (asked ++ [.type a.typeName]) (b.addParameter a).2 := by
  have hg := Draft.grows_addParameter b.function.values.size b a
  have size : (b.addParameter a).2.function.values.size = b.function.values.size + 1 :=
    Array.size_push _
  have parameters : (b.addParameter a).2.function.parameters.toList =
      b.function.parameters.toList ++ [⟨((b.names.freshType a.typeName).2.intern a.name).1,
        (b.names.freshType a.typeName).1, b.function.values.size⟩] := Array.toList_push
  have blocks : (b.addParameter a).2.blocks = [] := h.blocks
  refine ⟨(h.wellFormed.addParameter a).wellFormed, h.id, blocks, ?_, ?_, ?_, ?_, ?_⟩
  · exact hg.values _ _ h.root (Nat.ne_of_lt (Array.getElem?_eq_some_iff.1 h.root).1)
  · rw [parameters]
    refine List.rel_append (h.parameters.imp fun a p hp => hp.grow hg) (.cons ⟨?_, ?_⟩ .nil)
    · exact SymbolTable.lookup_intern_self
    · exact Array.getElem?_push.trans (if_pos rfl)
  · rw [parameters, List.map_append, List.pairwise_append]
    refine ⟨h.increasing, List.pairwise_singleton _ _, ?_⟩
    intro old hold id hid
    obtain ⟨p, hp, rfl⟩ := List.mem_map.1 hold
    cases List.mem_singleton.1 hid
    exact h.below p hp
  · intro p hp
    rw [parameters] at hp
    rw [size]
    rcases List.mem_append.1 hp with hp | hp
    · exact Nat.lt_succ_of_lt (h.below p hp)
    · cases List.mem_singleton.1 hp
      exact Nat.lt_succ_self _
  · refine ⟨?_, .nil, .nil, (fun id hid => by cases hid), ?_⟩
    · rw [Draft.current_eq, blocks]
      exact h.frames_addParameter a
    · exact h.register hg (Names.extends_intern (b.names.freshType a.typeName).2 a.name) rfl

theorem addParameters (h : Prepared u [] [] b) (arguments : List Argument) :
    Prepared u arguments (arguments.map fun a => .type a.typeName) (b.addParameters arguments) := by
  induction arguments using List.reverseRecOn with
  | nil => exact h
  | append_singleton arguments a ih =>
      have added := ih.addParameter a
      rw [List.map_append]
      unfold Draft.addParameters at added ⊢
      rw [List.foldl_append]
      exact added

theorem declareReturn (h : Prepared u arguments asked b) (typeName : String) :
    Prepared u arguments (asked ++ [.type typeName]) (b.declareReturn typeName) := by
  have hg := Draft.grows_declareReturn b.function.values.size b typeName
  refine ⟨h.wellFormed.declareReturn typeName, h.id, h.blocks, h.root,
    h.parameters.imp fun a p hp => hp.grow hg, h.increasing, h.below, ?_⟩
  refine ⟨?_, .nil, .nil, (fun id hid => by cases hid), h.register hg (.refl _) rfl⟩
  exact h.tracks.frames_same hg rfl (h.wellFormed.bound?_congr hg.names fun _ _ => rfl) []

theorem current_value_lt (h : Prepared u arguments asked b) :
    b.current.value < b.function.values.size := by
  rw [h.current]
  exact (Array.getElem?_eq_some_iff.1 h.root).1

theorem body (h : Prepared u arguments asked b) (inner : Expression) :
    (b.addBody inner).function.body = #[((Expression.block inner).lower b).1] := by
  have root : b.function.values[b.current.value]? = some (Value.emptyBlock Function.rootScope) := by
    rw [h.current]
    exact h.root
  have lowered := Draft.value_lower (.block inner) b _ root
  rw [← Draft.current_lower (.block inner) b] at lowered
  have filled := Draft.value_append ((Expression.block inner).lower b).1 lowered
  rw [Draft.current_lower, h.current] at filled
  unfold Function.body Draft.addBody
  rw [filled]
  rfl

theorem holds (h : Prepared u arguments asked b) (inner : Expression) :
    (b.addBody inner).function.Holds (.block inner) ((Expression.block inner).lower b).1 []
      ((Expression.block inner).visited b) := by
  have appended := Draft.grows_append ((Expression.block inner).lower b).2
    ((Expression.block inner).lower b).1
  rw [Draft.current_lower] at appended
  refine Draft.lower_holds (.block inner) b h.current_value_lt ?_
  exact Draft.Agrees.of_grows (fun id v _ hv => hv) appended h.current_value_lt

/-- The walk through the body starts with the frame of the arguments, and what the body creates lies
behind them. -/
theorem tracks_addBody (h : Prepared u arguments asked b) (inner : Expression) :
    Tracks u.names.unresolved.toList asked b.function.values.size
      ((Expression.block inner).walk ⟨[argumentFrame arguments], []⟩)
      ((Expression.block inner).visited b) (b.addBody inner) := by
  have started : Tracks u.names.unresolved.toList asked b.function.values.size
      ⟨[argumentFrame arguments], []⟩ [] b :=
    { h.tracks with within := fun id hid => by cases hid }
  have lowered := started.lower (.block inner) h.wellFormed (Nat.le_refl _)
  exact lowered.append (h.wellFormed.lower (.block inner)).wellFormed
    ((Expression.block inner).lower b).1

/-- A function with its arguments, its return type and its body is lowered as the resolver asks. -/
theorem resolved {d : FunctionDecl}
    (h : Prepared u d.arguments ((d.arguments.map fun a => .type a.typeName) ++ [.type d.returnType])
      b) :
    d.Resolved u (u.addFunction (b.addBody d.body)) (b.addBody d.body).function
      ((Expression.block d.body).visited b) := by
  have grown := Draft.grows_addBody b d.body
  have tracked := h.tracks_addBody d.body
  have parameters : (b.addBody d.body).function.parameters = b.function.parameters :=
    Draft.parameters_lower (.block d.body) b
  refine ⟨rfl, ?_, ⟨_, h.body d.body, h.holds d.body⟩, tracked.answers, ?_, ?_⟩
  · rw [parameters]
    exact h.parameters.imp fun a p hp => hp.grow grown
  · rw [parameters, List.pairwise_append]
    refine ⟨h.increasing, tracked.increasing, ?_⟩
    intro old hold id hid
    obtain ⟨p, hp, rfl⟩ := List.mem_map.1 hold
    exact Nat.lt_of_lt_of_le (h.below p hp) (tracked.within id hid).1
  · obtain ⟨entries, he, hr⟩ := tracked.register
    rw [grown.id, h.id] at hr
    exact ⟨entries, he, hr⟩

end Prepared

/-- **Names in a declared function are resolved by lexical scoping.**  Whatever the unit holds, the
function is lowered to one whose body represents the tree, and in it each name stands for the variable
of the argument or the declaration that the resolver finds, or for a fresh unresolved variable. -/
theorem FunctionDecl.lower_resolved (d : FunctionDecl) (parent : ModuleId) (u : CompilationUnit) :
    ∃ f refs, d.Resolved u (d.lower parent u) f refs := by
  have prepared := ((Prepared.start u parent d.name).addParameters d.arguments).declareReturn
    d.returnType
  exact ⟨_, _, prepared.resolved⟩

end FrontEnd
