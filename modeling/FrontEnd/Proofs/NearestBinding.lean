import FrontEnd.Proofs.Confinement
import Mathlib.Logic.Function.Iterate

/-!
# The nearest binding of a name

A name is looked for in one scope after the other, along the links from each scope to its parent.

* `Function.Search`, `Function.turn` — a search on its way, and what it does in one scope.
* `Function.Outward` — the scopes from one of them out to the root scope, read off the links alone.
  `ScopeTree.outward_iff` says that a scope tree has one such chain for each scope.
* `Function.Outward.iterate_turn` — a search ends within its chain, with what `Function.lookup` gives.
* `Function.FindsNearest` — the answer is the last variable of the name in the nearest scope that declares
  one, and the scopes beside the chain have no influence on it.
* `Workbench.Run.lookup_nearest` — this holds of every function that a run of commands builds.
-/

namespace FrontEnd

namespace Hir

namespace Function

/-! ## The search -/

/-- How far the search for a name has come. -/
inductive Search
  /-- the scope is looked at next -/
  | looking (s : ScopeId)
  | ended (found : Option ValueId)
deriving DecidableEq, Repr

/-- One turn of the search: it ends at a binding of the name and where no scope lies around the one that
is looked at, and goes on to the parent otherwise. -/
def turn (f : Function) (name : Symbol) : Search → Search
  | .looking s =>
    match f.bound? name s with
    | some v => .ended (some v)
    | none => (f.parent? s).elim (.ended none) .looking
  | .ended found => .ended found

/-- The scopes lead from `s` outwards: each lies directly inside the next one, and none lies around the
last one. -/
inductive Outward (f : Function) : ScopeId → List ScopeId → Prop
  | last {s : ScopeId} (hs : s < f.scopes.size) (hp : f.parent? s = none) : f.Outward s [s]
  | inside {s p : ScopeId} {chain : List ScopeId} (hp : f.parent? s = some p) (h : f.Outward p chain) :
    f.Outward s (s :: chain)

/-- The variables of a name that are declared in a scope, in order. -/
def named (f : Function) (name : Symbol) (s : ScopeId) : List ValueId :=
  (f.declared s).filter (f.isNamed name)

variable {f g : Function} {name : Symbol} {s : ScopeId} {chain other : List ScopeId}

theorem turn_of_bound? {v : ValueId} (h : f.bound? name s = some v) :
    f.turn name (.looking s) = .ended (some v) := by
  simp only [turn, h]

theorem turn_of_bound?_eq_none (h : f.bound? name s = none) :
    f.turn name (.looking s) = (f.parent? s).elim (.ended none) .looking := by
  simp only [turn, h]

theorem iterate_turn_ended (turns : Nat) (found : Option ValueId) :
    (f.turn name)^[turns] (.ended found) = .ended found :=
  Function.iterate_fixed rfl turns

/-! ## Chains -/

theorem Outward.lt_size (h : f.Outward s chain) : s < f.scopes.size := by
  cases h with
  | last hs => exact hs
  | inside hp => exact lt_size_of_parent? hp

theorem Outward.unique (h : f.Outward s chain) (h' : f.Outward s other) : other = chain := by
  induction h generalizing other with
  | last _ hp =>
      cases h' with
      | last => rfl
      | inside hp' => exact nomatch hp.symm.trans hp'
  | inside hp _ ih =>
      cases h' with
      | last _ hp' => exact nomatch hp.symm.trans hp'
      | inside hp' h' =>
          cases hp.symm.trans hp'
          rw [ih h']

/-- In a scope tree the way leads to the root scope. -/
theorem Outward.getLast?_eq_root (h : f.ScopeTree) (ho : f.Outward s chain) :
    chain.getLast? = some rootScope := by
  induction ho with
  | @last s hs hp =>
      by_cases hr : s = rootScope
      · rw [hr]
        rfl
      · obtain ⟨p, n, hp', -⟩ := h.nested s hs hr
        exact nomatch hp.symm.trans hp'
  | inside _ ho ih =>
      cases ho <;> exact ih

theorem ScopeTree.outward_chain (h : f.ScopeTree) (hs : s < f.scopes.size) :
    f.Outward s (f.chain s) := by
  induction s using Nat.strongRecOn with
  | _ s ih =>
      by_cases hr : s = rootScope
      · rw [hr, h.chain_root]
        exact .last (hr ▸ hs) h.root.1
      · obtain ⟨p, n, hp, older, hd, -, hc, -⟩ := h.nested s hs hr
        rw [hc]
        exact .inside hp (ih p older (lt_size_of_depth? hd))

/-- **Each scope of a scope tree has one way outwards.** -/
theorem ScopeTree.outward_iff (h : f.ScopeTree) (hs : s < f.scopes.size) :
    f.Outward s chain ↔ chain = f.chain s :=
  ⟨(h.outward_chain hs).unique, fun e => e ▸ h.outward_chain hs⟩

/-- **A search ends within its chain**, at the first binding that stands there. -/
theorem Outward.iterate_turn (h : f.Outward s chain) :
    (f.turn name)^[chain.length] (.looking s) = .ended (chain.findSome? (f.bound? name)) := by
  induction h with
  | @last s _ hp =>
      rw [List.findSome?_singleton]
      show f.turn name (.looking s) = _
      cases hb : f.bound? name s with
      | some v => exact turn_of_bound? hb
      | none => rw [turn_of_bound?_eq_none hb, hp]; rfl
  | @inside s p chain hp _ ih =>
      rw [List.length_cons, Function.iterate_succ_apply, List.findSome?_cons]
      cases hb : f.bound? name s with
      | some v => rw [turn_of_bound? hb]; exact iterate_turn_ended _ _
      | none => rw [turn_of_bound?_eq_none hb, hp]; exact ih

/-! ## Answers -/

/-- Along the chain the name means what its nearest declaration says. -/
structure FindsNearest (f : Function) (s : ScopeId) (name : Symbol) (chain : List ScopeId) : Prop where
  /-- a search that goes from scope to scope is over behind the chain -/
  ends : (f.turn name)^[chain.length] (.looking s) = .ended (f.lookup s name)
  /-- it finds the last variable of the name in the first scope that has one -/
  found : ∀ v, f.lookup s name = some v ↔ ∃ inner t outer, chain = inner ++ t :: outer ∧
    (∀ u ∈ inner, f.named name u = []) ∧ (f.named name t).getLast? = some v
  missed : f.lookup s name = none ↔ ∀ t ∈ chain, f.named name t = []
  /-- scopes beside the chain have no influence -/
  confined : ∀ g : Function, (∀ t ∈ chain, g.scopes[t]? = f.scopes[t]?) →
    g.lookup s name = f.lookup s name

theorem LastNamed.bound?_eq_none_iff (h : f.LastNamed) :
    f.bound? name s = none ↔ f.named name s = [] := by
  rw [h s name]
  exact List.getLast?_eq_none_iff

theorem LastNamed.bound?_eq_some_iff (h : f.LastNamed) {v : ValueId} :
    f.bound? name s = some v ↔ (f.named name s).getLast? = some v := by
  rw [h s name]
  rfl

/-- The answer is read off the scopes of the chain. -/
theorem lookup_of_scopes_eq (hs : s < f.scopes.size)
    (h : ∀ t ∈ f.chain s, g.scopes[t]? = f.scopes[t]?) : g.lookup s name = f.lookup s name := by
  have own : s ∈ f.chain s := by
    rw [chain_eq_cons hs]
    exact List.mem_cons_self
  refine lookup_congr ?_ fun t ht => ?_
  · rw [chain_eq_elim, chain_eq_elim, h s own]
  · rw [bound?_eq_elim, bound?_eq_elim, h t ht]

/-- **In a well-formed function every name is found at its nearest declaration.** -/
theorem WellFormed.findsNearest (h : f.WellFormed) (hs : s < f.scopes.size) (name : Symbol) :
    f.FindsNearest s name (f.chain s) where
  ends := (h.scopes.outward_chain hs).iterate_turn
  found := by
    intro v
    unfold lookup
    rw [List.findSome?_eq_some_iff]
    simp only [h.bindings.bound?_eq_none_iff, h.bindings.bound?_eq_some_iff]
    constructor
    · rintro ⟨inner, t, outer, hc, hv, hi⟩
      exact ⟨inner, t, outer, hc, hi, hv⟩
    · rintro ⟨inner, t, outer, hc, hi, hv⟩
      exact ⟨inner, t, outer, hc, hv, hi⟩
  missed := by
    unfold lookup
    rw [List.findSome?_eq_none_iff]
    simp only [h.bindings.bound?_eq_none_iff]
  confined := fun _ same => lookup_of_scopes_eq hs same

end Function

/-! ## Runs -/

namespace Workbench

variable {w : Workbench} {handed : List Ref} {f : Function} {s : ScopeId}

/-- **A name means its nearest declaration.**  In every function that a run of commands builds, at every
point of it, each scope has one way along its parents; it has one scope more than the scope has around it
and leads to the root scope.  Looking for a name on this way comes to an end, and the answer is the last
variable of the name in the first scope that has one, whatever stands beside the way. -/
theorem Run.lookup_nearest (h : Run w handed) (hf : f ∈ w.view.functions) (hs : s < f.scopes.size)
    (name : Symbol) :
    ∃ (n : Nat) (chain : List ScopeId), f.depth? s = some n ∧ chain.length = n + 1 ∧
      (∀ other, f.Outward s other ↔ other = chain) ∧ chain.getLast? = some Function.rootScope ∧
      f.FindsNearest s name chain := by
  have wellFormed : f.WellFormed := h.functions_wellFormed.1 f hf
  obtain ⟨n, depth⟩ := wellFormed.scopes.exists_depth? hs
  have outward := wellFormed.scopes.outward_chain hs
  exact ⟨n, f.chain s, depth, Function.depth?_eq_some depth, fun other => wellFormed.scopes.outward_iff hs,
    outward.getLast?_eq_root wellFormed.scopes, wellFormed.findsNearest hs name⟩

/-- Commands that put no reference into a function may go on with every run. -/
theorem Run.performAll (h : Run w handed) {cs : List Command} (hcs : ∀ c ∈ cs, c.references = []) :
    ∃ handed', Run (w.performAll cs).2 handed' := by
  induction cs generalizing w handed with
  | nil => exact ⟨handed, h⟩
  | cons c cs ih =>
      obtain ⟨hc, hcs⟩ := List.forall_mem_cons.1 hcs
      exact ih (h.step c fun r hr => by rw [hc] at hr; cases hr) hcs

/-- The name `x` is declared in the root scope and twice in the block inside it, then `y` in a block of that
block, and at last an argument `x` is added while another block is open.  In the scope of `y` the name `x`
means its second declaration in the block around; in the last scope it means the argument, and `y` means
nothing there. -/
theorem Run.lookup_nearest_lateArgument :
    let w := ((Workbench.fresh #[]).performAll [.enterRoot, .enterFunction "f",
      .build (.declare ⟨"x", none, false⟩), .build .openBlock, .build (.declare ⟨"x", none, false⟩),
      .build (.declare ⟨"x", none, true⟩), .build .openBlock, .build (.declare ⟨"y", none, false⟩),
      .build .closeBlock, .build .closeBlock, .build .openBlock,
      .build (.addParameter ⟨"x", "int"⟩)]).2
    ∃ (handed : List Ref) (f : Function), Run w handed ∧ f ∈ w.view.functions ∧ 2 < f.scopes.size ∧
      f.FindsNearest 2 2 [2, 1, 0] ∧
      f.lookup 2 2 = some 4 ∧ f.lookup 3 2 = some 8 ∧ f.lookup 3 3 = none := by
  intro w
  obtain ⟨handed, run⟩ : ∃ handed, Run w handed := (Run.fresh #[]).performAll (by decide)
  have mem := @Array.getElem_mem _ w.view.functions 0 (by decide +kernel)
  have size : 2 < w.view.functions[0].scopes.size := by decide +kernel
  obtain ⟨n, chain, -, -, outward, -, nearest⟩ := run.lookup_nearest mem size 2
  have way : w.view.functions[0].Outward 2 [2, 1, 0] :=
    .inside (by decide +kernel) (.inside (by decide +kernel) (.last (by decide +kernel) (by decide +kernel)))
  obtain rfl := (outward _).1 way
  exact ⟨handed, _, run, mem, size, nearest, by decide +kernel⟩

end Workbench

end Hir

end FrontEnd
