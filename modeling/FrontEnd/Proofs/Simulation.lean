import FrontEnd.Hir.Lowering

/-!
# Two lowerings side by side

* `Expression.rename`, `FunctionDecl.rename`, `Item.rename` — a tree with a map applied to all its names.
  The texts of literals are no names.
* `DraftOp.rename`, `DraftOp.Simulates` — an operation with its names mapped, and what it means that the
  two keep a relation between drafts.
* `Draft.simulates_lower`, `Draft.simulates_build` — what the operations keep is kept by the lowering of
  an expression and of a function.
* `lower_keeps`, `build_keeps` — the same for one run: an invariant of the operations holds
  behind a lowering.
-/

namespace FrontEnd

/-! ## Renamed trees -/

def VariableDecl.rename (r : String → String) (d : VariableDecl) : VariableDecl :=
  ⟨r d.name, d.typeName.map r, d.isMutable⟩

def Argument.rename (r : String → String) (a : Argument) : Argument := ⟨r a.name, r a.typeName⟩

def Expression.rename (r : String → String) : Expression → Expression
  | block inner => block (inner.rename r)
  | sequence first next => sequence (first.rename r) (next.rename r)
  | declaration d => declaration (d.rename r)
  | binary op left right => binary op (left.rename r) (right.rename r)
  | identifier name => identifier (r name)
  | number text => number text
  | string text => string text
  | char text => char text
  | empty => empty

def FunctionDecl.rename (r : String → String) (d : FunctionDecl) : FunctionDecl :=
  ⟨r d.name, d.arguments.map (·.rename r), r d.returnType, d.body.rename r⟩

mutual

def Item.rename (r : String → String) : Item → Item
  | .module name items => .module (r name) (renameItems r items)
  | .function d => .function (d.rename r)

def renameItems (r : String → String) : List Item → List Item
  | [] => []
  | item :: rest => item.rename r :: renameItems r rest

end

@[simp] theorem VariableDecl.rename_id (d : VariableDecl) : d.rename id = d := by
  simp [rename]

@[simp] theorem Argument.rename_id (a : Argument) : a.rename id = a := rfl

@[simp] theorem Expression.rename_id (e : Expression) : e.rename id = e := by
  induction e with
  | block inner ih => rw [rename, ih]
  | sequence first next ih ih' => rw [rename, ih, ih']
  | binary op left right ih ih' => rw [rename, ih, ih']
  | declaration d => rw [rename, d.rename_id]
  | _ => rfl

@[simp] theorem FunctionDecl.rename_id (d : FunctionDecl) : d.rename id = d := by
  simp [rename]

namespace Hir

/-! ## Related operations -/

def DraftOp.rename (r : String → String) : DraftOp → DraftOp
  | declare d => declare (d.rename r)
  | reference name => reference (r name)
  | addParameter a => addParameter (a.rename r)
  | declareReturn typeName => declareReturn (r typeName)
  | op => op

@[simp] theorem DraftOp.rename_id (op : DraftOp) : op.rename id = op := by
  cases op <;> simp [rename]

/-- Whether the operation belongs to the signature of a function and not to its body. -/
def DraftOp.isSignature : DraftOp → Bool
  | addParameter _ | declareReturn _ => true
  | _ => false

/-- Both runs hand out the same, and their drafts are related. -/
def Agree {α : Type} (R : Draft → Draft → Prop) (v v' : α × Draft) : Prop := v'.1 = v.1 ∧ R v.2 v'.2

/-- On related drafts the operation and its renamed form agree. -/
def DraftOp.Simulates (r : String → String) (R : Draft → Draft → Prop) (op : DraftOp) : Prop :=
  ∀ b b', R b b' → Agree R (b.perform op) (b'.perform (op.rename r))

namespace Draft

variable {r : String → String} {R : Draft → Draft → Prop} {b b' : Draft}

/-- A name that is bound on the current chain means its variable. -/
theorem reference_of_lookup {name : String} {v : ValueId}
    (h : b.function.lookup b.current.scope (b.names.intern name).1 = some v) :
    b.reference name = (.slot v, { b with names := (b.names.intern name).2 }) := by
  unfold reference
  dsimp only
  rw [h]

theorem reference_of_lookup_eq_none {name : String}
    (h : b.function.lookup b.current.scope (b.names.intern name).1 = none) :
    b.reference name =
      let names := ((b.names.intern name).2.note (.unresolvedVariable name)).register
        (.var b.id b.function.values.size (b.names.intern name).1)
      ({ b with names := names } : Draft).addValue
        ⟨.var ⟨(b.names.intern name).1, false, .unresolved⟩, none⟩ := by
  unfold reference
  dsimp only
  rw [h]

/-- What is handed out in both runs is the same reference. -/
theorem agree_of_handOut {v v' : Ref × Draft} (h : Agree R (handOut v) (handOut v')) : Agree R v v' :=
  ⟨Option.some.inj h.1, h.2⟩

section

variable (h : ∀ op : DraftOp, op.isSignature = false → op.Simulates r R)
  (hr : r operatorCallee = operatorCallee)

include h

theorem simulates_append {v v' : Ref × Draft} (hv : Agree R v v') :
    R (v.2.append v.1) (v'.2.append v'.1) := by
  rw [hv.1]
  exact (h (.append v.1) rfl _ _ hv.2).2

include hr

theorem simulates_callOperator {left right left' right' : Ref} (hl : left' = left)
    (hright : right' = right) (hb : R b b') :
    Agree R (b.callOperator left right) (b'.callOperator left' right') := by
  have callee := agree_of_handOut (h (.reference operatorCallee) rfl _ _ hb)
  rw [hr] at callee
  unfold callOperator
  dsimp only
  rw [hl, hright, callee.1]
  exact agree_of_handOut (h (.call _ [left, right]) rfl _ _ callee.2)

/-- **What the operations of a body keep, the lowering of an expression keeps.** -/
theorem simulates_lower (e : Expression) (hb : R b b') :
    Agree R (e.lower b) ((e.rename r).lower b') := by
  induction e generalizing b b' with
  | block inner ih =>
      have opened := (h .openBlock rfl _ _ hb).2
      exact agree_of_handOut (h .closeBlock rfl _ _ (simulates_append h (ih opened)))
  | sequence first next ih ih' => exact ih' (simulates_append h (ih hb))
  | declaration d => exact agree_of_handOut (h (.declare d) rfl _ _ hb)
  | binary op left right ih ih' =>
      unfold Expression.rename Expression.lower
      split
      · have second := ih' hb
        have first := ih second.2
        exact simulates_callOperator h hr first.1 second.1 first.2
      · have first := ih hb
        have second := ih' first.2
        exact simulates_callOperator h hr first.1 second.1 second.2
  | identifier name => exact agree_of_handOut (h (.reference name) rfl _ _ hb)
  | number text => exact agree_of_handOut (h (.literal .int text) rfl _ _ hb)
  | string text => exact agree_of_handOut (h (.literal .string text) rfl _ _ hb)
  | char text => exact agree_of_handOut (h (.literal .char text) rfl _ _ hb)
  | empty => exact ⟨rfl, hb⟩

end

section

variable (h : ∀ op : DraftOp, op.Simulates r R)

include h

theorem simulates_addParameters (arguments : List Argument) (hb : R b b') :
    R (b.addParameters arguments) (b'.addParameters (arguments.map (·.rename r))) := by
  induction arguments generalizing b b' with
  | nil => exact hb
  | cons a rest ih => exact ih (h (.addParameter a) _ _ hb).2

/-- **What all operations keep, the lowering of a function keeps.** -/
theorem simulates_build (hr : r operatorCallee = operatorCallee) (d : FunctionDecl) (hb : R b b') :
    R (d.build b) ((d.rename r).build b') := by
  have signature := (h (.declareReturn d.returnType) _ _ (simulates_addParameters h d.arguments hb)).2
  have inner : ∀ op : DraftOp, op.isSignature = false → op.Simulates r R := fun op _ => h op
  exact simulates_append inner (simulates_lower inner hr (.block d.body) signature)

end

end Draft

/-! ## One run -/

section

variable {P : Draft → Prop} {b : Draft}

/-- An operation that keeps an invariant simulates itself on equal drafts of which it holds. -/
theorem DraftOp.simulates_of_keeps {op : DraftOp} (keeps : ∀ b, P b → P (b.perform op).2) :
    op.Simulates id fun b b' => b' = b ∧ P b := by
  rintro b b' ⟨rfl, hb⟩
  rw [op.rename_id]
  exact ⟨rfl, rfl, keeps b' hb⟩

/-- **An invariant of the operations of a body holds behind the lowering of an expression.** -/
theorem lower_keeps
    (keeps : ∀ (b : Draft) (op : DraftOp), op.isSignature = false → P b → P (b.perform op).2)
    (e : Expression) (hb : P b) : P (e.lower b).2 := by
  have simulated := Draft.simulates_lower
    (fun op hop => DraftOp.simulates_of_keeps fun b => keeps b op hop) rfl e ⟨rfl, hb⟩
  exact simulated.2.2

/-- **An invariant of all operations holds behind the lowering of a function.** -/
theorem build_keeps (keeps : ∀ (b : Draft) (op : DraftOp), P b → P (b.perform op).2)
    (d : FunctionDecl) (hb : P b) : P (d.build b) := by
  have simulated := Draft.simulates_build
    (fun op => DraftOp.simulates_of_keeps fun b => keeps b op) rfl d ⟨rfl, hb⟩
  exact simulated.2

end

end Hir

end FrontEnd
