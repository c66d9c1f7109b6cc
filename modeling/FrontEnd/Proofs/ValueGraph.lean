import FrontEnd.Proofs.WellFormed
import Mathlib.Logic.Relation

/-!
# The graph of the values of a function

A value refers to others: a call to its callee and its arguments, a block to its instructions.

* `Value.references`, `Function.RefersTo`, `Function.Reaches` — the edges of the graph and its paths.
* `Function.uses` — how many references lead to a value, the same reference in two places counted twice.
* `uses_push`, `uses_append` and their companions — what storing a value and putting an instruction into
  a block change.
* `RefersTo.unique` — a value that is used once is used by one value.
* `not_transGen_refersTo` — a function has no cycles if all that refers to something is used once and is
  reached from the root block, and the root block is used nowhere.
-/

namespace FrontEnd

namespace Hir

def Value.references (v : Value) : List Ref :=
  match v.kind with
  | .call callee arguments => callee :: arguments
  | .block _ instructions => instructions.toList
  | _ => []

theorem Value.references_append {v : Value} {s : ScopeId} (h : v.blockScope? = some s) (r : Ref) :
    (v.append r).references = v.references ++ [r] := by
  obtain ⟨kind, type⟩ := v
  cases kind with
  | block scope instructions => exact Array.toList_push
  | _ => cases h

theorem Value.references_of_asVariable? {v : Value} {x : Variable} (h : v.asVariable? = some x) :
    v.references = [] := by
  obtain ⟨kind, type⟩ := v
  cases kind with
  | var => rfl
  | _ => cases h

namespace Function

def references (f : Function) : List Ref := f.values.toList.flatMap Value.references

/-- How many references lead to the value at a position. -/
def uses (f : Function) (id : ValueId) : Nat := f.references.count (.slot id)

/-- The value at `a` refers to the value at `b`. -/
def RefersTo (f : Function) (a b : ValueId) : Prop :=
  ∃ v, f.values[a]? = some v ∧ .slot b ∈ v.references

/-- References lead from `a` to `b`, in any number of steps. -/
def Reaches (f : Function) : ValueId → ValueId → Prop := Relation.ReflTransGen f.RefersTo

variable {f g : Function} {v : Value} {r : Ref} {id a b c : ValueId}

theorem uses_pos_iff : 0 < f.uses id ↔ ∃ a, f.RefersTo a id := by
  unfold uses references
  rw [List.count_pos_iff, List.mem_flatMap]
  constructor
  · rintro ⟨v, hv, hr⟩
    obtain ⟨a, ha⟩ := List.mem_iff_getElem?.1 hv
    exact ⟨a, v, by simpa using ha, hr⟩
  · rintro ⟨a, v, hv, hr⟩
    exact ⟨v, Array.mem_toList_iff.2 (Array.mem_of_getElem? hv), hr⟩

/-- References of two values in a list are counted apart. -/
theorem two_le_count_references {vs : List Value} {v w : Value} {i j : Nat} (hi : vs[i]? = some v)
    (hj : vs[j]? = some w) (hne : i ≠ j) (hv : r ∈ v.references) (hw : r ∈ w.references) :
    2 ≤ (vs.flatMap Value.references).count r := by
  induction vs generalizing i j with
  | nil => cases hi
  | cons x vs ih =>
      have behind : ∀ {k : Nat} {u : Value}, vs[k]? = some u → r ∈ u.references →
          0 < (vs.flatMap Value.references).count r := by
        intro k u hu hr
        exact List.count_pos_iff.2 (List.mem_flatMap.2 ⟨u, List.mem_of_getElem? hu, hr⟩)
      rw [List.flatMap_cons, List.count_append]
      cases i with
      | zero =>
          cases j with
          | zero => exact absurd rfl hne
          | succ j =>
              cases hi
              have here : 0 < v.references.count r := List.count_pos_iff.2 hv
              have := behind hj hw
              omega
      | succ i =>
          cases j with
          | zero =>
              cases hj
              have here : 0 < w.references.count r := List.count_pos_iff.2 hw
              have := behind hi hv
              omega
          | succ j =>
              have := ih hi hj fun he => hne (congrArg Nat.succ he)
              omega

/-- **A value that is used once is used by one value.** -/
theorem RefersTo.unique (ha : f.RefersTo a c) (hb : f.RefersTo b c) (h : f.uses c = 1) : a = b := by
  obtain ⟨v, hv, hr⟩ := ha
  obtain ⟨w, hw, hs⟩ := hb
  rw [← Array.getElem?_toList] at hv hw
  refine Classical.byContradiction fun hne => ?_
  have := two_le_count_references hv hw hne hr hs
  unfold uses references at h
  omega

theorem RefersBack.lt_size (h : f.RefersBack) (hr : f.RefersTo a b) : b < f.values.size := by
  obtain ⟨v, hv, hr⟩ := hr
  have below := h a v hv
  obtain ⟨kind, type⟩ := v
  cases kind with
  | call callee arguments =>
      exact Nat.lt_trans (below _ hr) (Array.getElem?_eq_some_iff.1 hv).1
  | block scope instructions => exact below _ (Array.mem_toList_iff.1 hr)
  | _ => cases hr

/-- Nothing refers to a position at which nothing is stored. -/
theorem RefersBack.uses_eq_zero (h : f.RefersBack) (hid : f.values.size ≤ id) : f.uses id = 0 := by
  rcases Nat.eq_zero_or_pos (f.uses id) with hu | hu
  · exact hu
  · obtain ⟨a, ha⟩ := uses_pos_iff.1 hu
    exact absurd (h.lt_size ha) (Nat.not_lt.2 hid)

/-! ## Storing a value -/

section

variable (hv : g.values = f.values.push v)

include hv

theorem values_push (id : ValueId) :
    g.values[id]? = if id = f.values.size then some v else f.values[id]? := by
  rw [hv]
  exact Array.getElem?_push

theorem values_push_of_some {w : Value} (h : f.values[id]? = some w) : g.values[id]? = some w := by
  rw [values_push hv, if_neg (Nat.ne_of_lt (Array.getElem?_eq_some_iff.1 h).1), h]

theorem uses_push (id : ValueId) : g.uses id = f.uses id + v.references.count (.slot id) := by
  unfold uses references
  rw [hv, Array.toList_push, List.flatMap_append, List.count_append, List.flatMap_singleton]

theorem RefersTo.push (h : f.RefersTo a b) : g.RefersTo a b := by
  obtain ⟨w, hw, hr⟩ := h
  exact ⟨w, values_push_of_some hv hw, hr⟩

theorem refersTo_push (h : .slot b ∈ v.references) : g.RefersTo f.values.size b :=
  ⟨v, (values_push hv _).trans (if_pos rfl), h⟩

theorem Reaches.push (h : f.Reaches a b) : g.Reaches a b :=
  Relation.ReflTransGen.mono (fun _ _ => RefersTo.push hv) _ _ h

end

/-! ## An instruction in a block -/

section

variable {block : ValueId} {s : ScopeId} (hb : f.blockAt? block = some s)

include hb

theorem uses_append (r : Ref) (id : ValueId) :
    (f.append block r).uses id = f.uses id + [r].count (.slot id) := by
  obtain ⟨v, hv, hs⟩ := Option.bind_eq_some_iff.1 hb
  have hlt : block < f.values.toList.length := (Array.getElem?_eq_some_iff.1 hv).1
  obtain ⟨before, w, behind, values, length, modified⟩ :=
    List.exists_of_modify (fun v : Value => v.append r) hlt
  obtain rfl : w = v := by
    have hw : f.values.toList[block]? = some w := by
      rw [values, ← length, List.getElem?_append_right (Nat.le_refl _), Nat.sub_self]
      rfl
    rw [Array.getElem?_toList, hv] at hw
    exact (Option.some.inj hw).symm
  unfold uses references
  show ((f.values.modify block _).toList.flatMap _).count _ = _
  rw [Array.toList_modify, modified, values]
  simp only [List.flatMap_append, List.flatMap_cons, List.count_append, Value.references_append hs]
  omega

theorem values_append_block (r : Ref) : ∃ v, f.values[block]? = some v ∧
    (f.append block r).values[block]? = some (v.append r) ∧
      (v.append r).references = v.references ++ [r] := by
  obtain ⟨v, hv, hs⟩ := Option.bind_eq_some_iff.1 hb
  refine ⟨v, hv, ?_, Value.references_append hs r⟩
  rw [values_append, if_pos rfl, hv]
  rfl

theorem RefersTo.append (r : Ref) (h : f.RefersTo a b) : (f.append block r).RefersTo a b := by
  obtain ⟨w, hw, hr⟩ := h
  by_cases ha : block = a
  · subst ha
    obtain ⟨v, hv, stored, references⟩ := values_append_block hb r
    obtain rfl : v = w := Option.some.inj (hv.symm.trans hw)
    exact ⟨v.append r, stored, references ▸ List.mem_append_left _ hr⟩
  · exact ⟨w, by rw [values_append, if_neg ha, hw], hr⟩

theorem refersTo_append (id : ValueId) : (f.append block (.slot id)).RefersTo block id := by
  obtain ⟨v, -, stored, references⟩ := values_append_block hb (.slot id)
  exact ⟨v.append (.slot id), stored, references ▸ List.mem_append_right _ List.mem_cons_self⟩

theorem Reaches.append (r : Ref) (h : f.Reaches a b) : (f.append block r).Reaches a b :=
  Relation.ReflTransGen.mono (fun _ _ => RefersTo.append hb r) _ _ h

end

/-! ## Cycles -/

/-- Where what refers to something is used at most once, a path that ends on a cycle begins on one: it
can enter the cycle nowhere. -/
theorem Reaches.transGen_self
    (once : ∀ a b c, f.RefersTo a b → f.RefersTo b c → f.uses b = 1) (h : f.Reaches a b)
    (cycle : Relation.TransGen f.RefersTo b b) : Relation.TransGen f.RefersTo a a := by
  induction h using Relation.ReflTransGen.head_induction_on with
  | refl => exact cycle
  | @head a c hac _ ih =>
      obtain ⟨next, hnext, -⟩ := Relation.TransGen.head'_iff.1 ih
      obtain ⟨last, hpath, hlast⟩ := Relation.TransGen.tail'_iff.1 ih
      obtain rfl : a = last := hac.unique hlast (once a c next hac hnext)
      exact .head' hac hpath

/-- **There are no cycles** where each value that refers to something is used once, unless it is the
root block, and is reached from the root block, and the root block is used nowhere. -/
theorem not_transGen_refersTo (root : f.uses rootBlock = 0)
    (once : ∀ a b, f.RefersTo a b → a ≠ rootBlock → f.uses a = 1 ∧ f.Reaches rootBlock a)
    (id : ValueId) : ¬ Relation.TransGen f.RefersTo id id := by
  have notRoot : ∀ a b, f.RefersTo a b → b ≠ rootBlock := by
    rintro a b hab rfl
    have := uses_pos_iff.2 ⟨a, hab⟩
    omega
  have notOnCycle : ¬ Relation.TransGen f.RefersTo rootBlock rootBlock := by
    intro cycle
    obtain ⟨last, -, hlast⟩ := Relation.TransGen.tail'_iff.1 cycle
    exact notRoot last rootBlock hlast rfl
  intro cycle
  obtain ⟨next, hnext, -⟩ := Relation.TransGen.head'_iff.1 cycle
  by_cases hid : id = rootBlock
  · exact notOnCycle (hid ▸ cycle)
  · refine notOnCycle ((once id next hnext hid).2.transGen_self (fun a b c hab hbc => ?_) cycle)
    exact (once b c hbc (notRoot a b hab)).1

end Function

end Hir

end FrontEnd
