import FrontEnd.Hir.Workbench
import FrontEnd.Proofs.Building

/-!
# Units built by hand

* `Workbench.Run` — the states of a workbench that a run of commands reaches from an empty unit.  The
  references that a run puts into a function are the unit value or were handed out before by the
  builder of that function.
* `Workbench.WellFormed` — all functions of the unit and the one under construction are well-formed.
* `Workbench.WellFormed.perform` — a command keeps this.
* `Workbench.Run.functions_wellFormed` — so does a run.
-/

namespace FrontEnd

namespace Hir

def CompilationUnit.WellFormed (u : CompilationUnit) : Prop := ∀ f ∈ u.functions, f.WellFormed

namespace CompilationUnit

variable {u : CompilationUnit}

theorem WellFormed.addFunction (h : u.WellFormed) {b : Draft} (hb : b.WellFormed) :
    (u.addFunction b).WellFormed := by
  intro f hf
  rcases Array.mem_push.1 hf with hf | rfl
  · exact h f hf
  · exact hb.function

theorem kept_wellFormed : Kept WellFormed where
  addModule := fun _ _ _ h => h
  lower := fun u parent d h => h.addFunction ((Draft.wellFormed_start u parent d.name).build d)

/-- **Lowering declarations keeps the functions of a unit well-formed.** -/
theorem WellFormed.lowerItems (h : u.WellFormed) (parent : ModuleId) (items : List Item) :
    (lowerItems parent items u).WellFormed :=
  kept_wellFormed.lowerItems h parent items

end CompilationUnit

/-- The references that a command puts into a function. -/
def Command.references : Command → List Ref
  | build op => op.references
  | _ => []

/-- The references that a reply hands out. -/
def Reply.references : Reply → List Ref
  | value v => [v]
  | _ => []

namespace Workbench

/-- The references that the builder of the entered function has handed out when a command is done: the
current block, what the command replies, and what was handed out before, if the function was entered
before. -/
def handedOut (w : Workbench) (c : Command) (before : List Ref) : List Ref :=
  match (w.perform c).2.function with
  | none => []
  | some b =>
    .slot b.current.value :: (w.perform c).1.references ++
      if w.function.isSome then before else []

/-- The workbench is reached by a run, and the builder of the entered function has handed out the given
references.  A command may put the unit value and these references into the function. -/
inductive Run : Workbench → List Ref → Prop
  | fresh (log : Log) : Run (Workbench.fresh log) []
  | step {w : Workbench} {before : List Ref} (h : Run w before) (c : Command)
    (hc : ∀ r ∈ c.references, r = .unit ∨ r ∈ before) : Run (w.perform c).2 (w.handedOut c before)

/-- All functions are well-formed, the one under construction included. -/
structure WellFormed (w : Workbench) : Prop where
  unit : w.unit.WellFormed
  function : ∀ b, w.function = some b → b.WellFormed

variable {w : Workbench} {c : Command}

theorem WellFormed.view (h : w.WellFormed) : w.view.WellFormed := by
  unfold Workbench.view
  split
  · rename_i b hb
    exact h.unit.addFunction (h.function b hb)
  · exact h.unit

theorem WellFormed.of_unit {w' : Workbench} (hu : w'.unit.WellFormed) (hf : w'.function = none) :
    w'.WellFormed :=
  ⟨hu, fun b hb => by rw [hf] at hb; cases hb⟩

theorem WellFormed.leave (h : w.WellFormed) : w.leave.WellFormed := by
  unfold Workbench.leave
  split
  · exact .of_unit h.view rfl
  · exact ⟨h.unit, h.function⟩

theorem WellFormed.performInUnit (h : w.WellFormed) (c : Command) :
    (w.performInUnit c).2.WellFormed := by
  unfold Workbench.performInUnit
  split
  all_goals exact ⟨h.unit, h.function⟩

theorem WellFormed.performInModule (h : w.WellFormed) (m : ModuleId) (c : Command) :
    (w.performInModule m c).2.WellFormed := by
  unfold Workbench.performInModule
  split
  case h_2 name =>
    refine ⟨h.unit, fun b hb => ?_⟩
    cases hb
    exact Draft.wellFormed_start w.unit m name
  case h_5 items => exact ⟨h.unit.lowerItems m items, h.function⟩
  all_goals exact ⟨h.unit, h.function⟩

theorem WellFormed.setFunction (h : w.WellFormed) {b : Draft} (hb : b.WellFormed) :
    ({ w with function := some b } : Workbench).WellFormed :=
  ⟨h.unit, fun b' hb' => by cases hb'; exact hb⟩

/-- Every reference leads into the draft at work. -/
def Stores (w : Workbench) (refs : List Ref) : Prop :=
  ∀ b, w.function = some b → ∀ r ∈ refs, r.Below b.function.values.size

theorem Stores.setFunction {b : Draft} {refs : List Ref}
    (h : ∀ r ∈ refs, r.Below b.function.values.size) :
    ({ w with function := some b } : Workbench).Stores refs := by
  intro b' hb' r hr
  cases hb'
  exact h r hr

/-- A command in a function keeps the structure of the draft.  What was stored before and what the
command replies is stored behind it. -/
theorem WellFormed.performInFunction (h : w.WellFormed) {b : Draft} (hb : w.function = some b)
    {before : List Ref} (hs : w.Stores before)
    (hc : ∀ r ∈ c.references, r.Below b.function.values.size) :
    (w.performInFunction b c).2.WellFormed ∧
      (w.performInFunction b c).2.Stores ((w.performInFunction b c).1.references ++ before) := by
  have hd := h.function b hb
  have keeps : ∀ (b' : Draft) (refs : List Ref),
      b.function.values.size ≤ b'.function.values.size →
      (∀ r ∈ refs, r.Below b'.function.values.size) →
      ∀ r ∈ refs ++ before, r.Below b'.function.values.size := by
    intro b' refs size below r hr
    rcases List.mem_append.1 hr with hr | hr
    · exact below r hr
    · exact (hs b hb r hr).mono size
  unfold Workbench.performInFunction
  split
  · rename_i op
    obtain ⟨wellFormed, size, below⟩ := hd.perform op hc
    split
    · rename_i v b' hp
      rw [hp] at wellFormed size below
      refine ⟨h.setFunction wellFormed, .setFunction (keeps b' _ size fun r hr => ?_)⟩
      rw [List.mem_singleton.1 hr]
      exact below v rfl
    · rename_i b' hp
      rw [hp] at wellFormed size
      exact ⟨h.setFunction wellFormed, .setFunction (keeps b' [] size fun r hr => by cases hr)⟩
  · rename_i arguments
    obtain ⟨wellFormed, size⟩ := hd.addParameters arguments
    exact ⟨h.setFunction wellFormed, .setFunction (keeps _ [] size fun r hr => by cases hr)⟩
  · rename_i e
    obtain ⟨wellFormed, below, size⟩ := hd.lower e
    refine ⟨h.setFunction wellFormed, .setFunction (keeps _ _ size fun r hr => ?_)⟩
    rw [List.mem_singleton.1 hr]
    exact below
  · exact ⟨h, fun b' hb' r hr => hs b' hb' r hr⟩

theorem stores_nil (w : Workbench) : w.Stores [] := fun _ _ _ hr => by cases hr

theorem references_performInUnit (w : Workbench) (c : Command) :
    (w.performInUnit c).1.references = [] := by
  unfold Workbench.performInUnit
  split <;> rfl

theorem references_performInModule (w : Workbench) (m : ModuleId) (c : Command) :
    (w.performInModule m c).1.references = [] := by
  unfold Workbench.performInModule
  split <;> rfl

theorem function_leave (w : Workbench) : w.leave.function = none := by
  unfold Workbench.leave
  split
  · rfl
  · assumption

/-- **A command keeps the structure of all functions**, if it puts only the unit value and references
into a function that were handed out before, and what is handed out then is stored. -/
theorem WellFormed.perform (h : w.WellFormed) {before : List Ref} (hs : w.Stores before)
    (hc : ∀ r ∈ c.references, r = .unit ∨ r ∈ before) :
    (w.perform c).2.WellFormed ∧ (w.perform c).2.Stores (w.handedOut c before) := by
  have replied : (w.perform c).2.WellFormed ∧ (w.perform c).2.Stores
      ((w.perform c).1.references ++ if w.function.isSome then before else []) := by
    unfold Workbench.perform
    split
    · refine ⟨h.leave, fun b hb => ?_⟩
      rw [function_leave] at hb
      cases hb
    · rename_i b _ hb
      rw [hb]
      refine h.performInFunction hb hs fun r hr => ?_
      rcases hc r hr with rfl | hr
      · trivial
      · exact hs b hb r hr
    · rename_i m _ _ hb _
      refine ⟨h.performInModule m _, ?_⟩
      rw [references_performInModule, hb]
      exact stores_nil _
    · rename_i hb _
      refine ⟨h.performInUnit _, ?_⟩
      rw [references_performInUnit, hb]
      exact stores_nil _
  refine ⟨replied.1, ?_⟩
  unfold handedOut
  split
  · exact stores_nil _
  · rename_i b hb
    intro b' hb' r hr
    have same : b = b' := Option.some.inj (hb.symm.trans hb')
    rcases List.mem_cons.1 hr with rfl | hr
    · rw [same]
      exact (replied.1.function b' hb').current_value_lt
    · exact replied.2 b' hb' r hr

/-- What a run of commands reaches is well-formed, and what was handed out is stored. -/
theorem Run.wellFormed {handed : List Ref} (h : Run w handed) : w.WellFormed ∧ w.Stores handed := by
  induction h with
  | fresh log =>
      refine ⟨.of_unit (fun f hf => ?_) rfl, fun b hb => by cases hb⟩
      cases hf
      contradiction
  | step _ c hc ih => exact ih.1.perform ih.2 hc

/-- **The functions of a unit are well-formed after every run of commands**, at every point of it.
The current block of a function under construction is a block, and the open blocks lie inside each
other. -/
theorem Run.functions_wellFormed {handed : List Ref} (h : Run w handed) :
    w.view.WellFormed ∧ ∀ b, w.function = some b →
      b.function.blockAt? b.current.value = some b.current.scope ∧ b.function.Nested b.blocks := by
  have hw := h.wellFormed.1
  exact ⟨hw.view, fun b hb => ⟨(hw.function b hb).current, (hw.function b hb).blocks⟩⟩

/-- A run that closes one block more than it has opened, and then adds an argument whose variable is
called with the unit value and the closed block. -/
theorem Run.functions_wellFormed_call :
    ∃ (w : Workbench) (handed : List Ref), Run w handed ∧ w.view.WellFormed ∧
      w.view.functions.map (fun f => (f.scopes.size, f.body, f.values[4]?)) =
        #[(2, #[.slot 1], some ⟨.call (.slot 3) [.unit, .slot 1], none⟩)] := by
  have started := ((Run.fresh #[]).step .enterRoot (by decide)).step (.enterFunction "f") (by decide)
  have opened := (started.step (.build .openBlock) (by decide)).step
    (.build (.declare ⟨"x", none, true⟩)) (by decide)
  have filled := opened.step (.build (.append (.slot 2))) (by decide +kernel)
  have closed := (filled.step (.build .closeBlock) (by decide)).step (.build .closeBlock) (by decide)
  have appended := closed.step (.build (.append (.slot 1))) (by decide +kernel)
  have added := appended.step (.build (.addParameter ⟨"x", "int"⟩)) (by decide)
  have called := added.step (.build (.call (.slot 3) [.unit, .slot 1])) (by decide +kernel)
  exact ⟨_, _, called, called.functions_wellFormed.1, by decide +kernel⟩

end Workbench

end Hir

end FrontEnd
