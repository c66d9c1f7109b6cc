import FrontEnd.Proofs.Elaboration
import FrontEnd.Proofs.Resolver
import Mathlib.Data.List.Forall2

/-!
# Names are resolved by lexical scoping

The lowering of an expression is compared with the walk of the resolver through it.

* `Function.denote`, `Answers` — the reference that a binder stands for, and what a visit asks of the
  reference to which it was lowered.
* `created`, `requests`, `Registers` — the variables that the visits create, and the entries that they
  leave in the register of open names.
* `Tracks` — the invariant: frame by frame and name by name, the scopes around the block at work bind
  what the frames of the walk bind.
* `Tracks.lower` — lowering an expression keeps up with the walk.
-/

namespace FrontEnd

open Hir

/-! ## What the visits ask for -/

/-- The reference that a binder stands for, where the visits were lowered to the given references. -/
def Hir.Function.denote (f : Function) (refs : List Ref) : Binder → Option Ref
  | .argument place => f.parameters[place]?.map fun p => .slot p.value
  | .visit place => refs[place]?

/-- A visit was lowered to the reference: a declaration to a variable of its name, a use of a declared
name to the variable that the binder stands for, and a use of an open name to an unresolved variable of
this name. -/
def Answers (n : Names) (f : Function) (refs : List Ref) : Visit → Ref → Prop
  | .declare d, v => ∃ s t, n.symbols.lookup d.name = some s ∧
    f.value? v = some ⟨.var ⟨s, d.isMutable, .declared⟩, t⟩
  | .use _ (some binder), v => f.denote refs binder = some v
  | .use name none, v => ∃ s, n.symbols.lookup name = some s ∧
    f.value? v = some ⟨.var ⟨s, false, .unresolved⟩, none⟩

/-- The variable that a visit creates. -/
def Visit.created? : Visit × Ref → Option ValueId
  | (.declare _, .slot id) => some id
  | (.use _ none, .slot id) => some id
  | _ => none

def created (visits : List Visit) (refs : List Ref) : List ValueId :=
  (visits.zip refs).filterMap Visit.created?

/-- A name that is left open: the name of a type, or a name in a function with its variable. -/
inductive Request
  | type (name : String)
  | use (name : String) (v : Ref)

/-- The name that a visit leaves open. -/
def Visit.request? : Visit × Ref → Option Request
  | (.declare d, _) => d.typeName.map .type
  | (.use _ (some _), _) => none
  | (.use name none, v) => some (.use name v)

def requests (visits : List Visit) (refs : List Ref) : List Request :=
  (visits.zip refs).filterMap Visit.request?

def Registers (n : Names) (id : FunctionId) : Request → OpenName → Prop
  | .type name, .type t s => n.symbols.lookup name = some s ∧ n.types[t]? = some s
  | .use name v, .var function value s =>
    n.symbols.lookup name = some s ∧ function = id ∧ v = .slot value
  | _, _ => False

theorem created_append {visits more : List Visit} {refs others : List Ref}
    (h : visits.length = refs.length) :
    created (visits ++ more) (refs ++ others) = created visits refs ++ created more others := by
  unfold created
  rw [List.zip_append h, List.filterMap_append]

theorem requests_append {visits more : List Visit} {refs others : List Ref}
    (h : visits.length = refs.length) :
    requests (visits ++ more) (refs ++ others) = requests visits refs ++ requests more others := by
  unfold requests
  rw [List.zip_append h, List.filterMap_append]

/-! ## What is kept as a draft grows -/

section

variable {b b' : Draft} {cell : ValueId} {refs : List Ref}

theorem Hir.Draft.Grows.denote (h : b.Grows cell b') {binder : Binder} {v : Ref}
    (hv : b.function.denote refs binder = some v) (more : List Ref) :
    b'.function.denote (refs ++ more) binder = some v := by
  cases binder with
  | argument place =>
      obtain ⟨p, hp, rfl⟩ := Option.map_eq_some_iff.1 hv
      exact Option.map_eq_some_iff.2 ⟨p, h.parameters place p hp, rfl⟩
  | visit place =>
      have hplace := (List.getElem?_eq_some_iff.1 hv).1
      exact (List.getElem?_append_left hplace).trans hv

theorem Hir.Draft.Grows.value? (h : b.Grows cell b') {v : Ref} {x : Variable} {t : Option TypeId}
    (hv : b.function.value? v = some ⟨.var x, t⟩) :
    b'.function.value? v = some ⟨.var x, t⟩ := by
  cases v with
  | unit => cases hv
  | slot id => exact h.stored id x t hv

theorem Answers.grow {visit : Visit} {v : Ref} (ha : Answers b.names b.function refs visit v)
    (h : b.Grows cell b') (more : List Ref) :
    Answers b'.names b'.function (refs ++ more) visit v := by
  rcases visit with d | ⟨name, _ | binder⟩
  · obtain ⟨s, t, hs, hv⟩ := ha
    exact ⟨s, t, h.names.symbols _ s hs, h.value? hv⟩
  · obtain ⟨s, hs, hv⟩ := ha
    exact ⟨s, h.names.symbols _ s hs, h.value? hv⟩
  · exact h.denote ha more

theorem Registers.grow {request : Request} {entry : OpenName}
    (hr : Registers b.names b.id request entry) (h : b.Grows cell b') :
    Registers b'.names b'.id request entry := by
  cases request with
  | type name =>
      cases entry with
      | type t s => exact ⟨h.names.symbols _ s hr.1, h.names.types t s hr.2⟩
      | var => exact hr
  | use name v =>
      cases entry with
      | type => exact hr
      | var function value s => exact ⟨h.names.symbols _ s hr.1, hr.2.1.trans h.id.symm, hr.2.2⟩

end

/-! ## Bindings by name -/

namespace Hir.Draft

variable {b b' : Draft} {refs : List Ref}

def bound? (b : Draft) (name : String) (s : ScopeId) : Option ValueId :=
  (b.names.symbols.lookup name).bind fun symbol => b.function.bound? symbol s

/-- A scope binds the names that a frame has, to the variables that their binders stand for. -/
def Reflects (b : Draft) (refs : List Ref) (s : ScopeId) (frame : Frame) : Prop :=
  ∀ name, (b.bound? name s).map (fun v => some (Ref.slot v)) =
    (frame.lookup name).map (b.function.denote refs)

/-- A name that was interned later is bound nowhere. -/
theorem WellFormed.bound?_eq (h : b.WellFormed) {n : Names} (hn : b.names.Extends n) {name : String}
    {symbol : Symbol} (hl : n.symbols.lookup name = some symbol) (s : ScopeId) :
    b.bound? name s = b.function.bound? symbol s := by
  unfold bound?
  cases ho : b.names.symbols.lookup name with
  | some symbol' =>
      have same : some symbol' = some symbol := (hn.symbols name symbol' ho).symm.trans hl
      cases same
      rfl
  | none =>
      cases hb : b.function.bound? symbol s with
      | none => rfl
      | some v =>
          obtain ⟨x, hx, -, rfl⟩ := h.function.varAt?_of_bound? hb
          obtain ⟨other, hother⟩ := SymbolTable.exists_lookup (h.interned v x hx)
          have same := SymbolTable.lookup_inj (hn.symbols other _ hother) hl
          rw [same, ho] at hother
          cases hother

theorem WellFormed.bound?_congr (h : b.WellFormed) (hn : b.names.Extends b'.names)
    (hb : ∀ symbol s, b'.function.bound? symbol s = b.function.bound? symbol s) (name : String)
    (s : ScopeId) : b'.bound? name s = b.bound? name s := by
  cases hl : b'.names.symbols.lookup name with
  | some symbol =>
      rw [h.bound?_eq hn hl s, bound?, hl]
      exact hb symbol s
  | none =>
      rw [bound?, bound?, hl, hn.lookup_eq_none hl]
      rfl

/-- A declaration binds its name in its scope and no other name, nor in another scope. -/
theorem WellFormed.bound?_addVariable (h : b.WellFormed) (hn : b.names.Extends b'.names)
    {s : ScopeId} {x : Variable} {t : Option TypeId} {name : String}
    (hl : b'.names.symbols.lookup name = some x.name) (hs : s < b.function.scopes.size)
    (hb : ∀ symbol r, b'.function.bound? symbol r =
      (b.function.addVariable s x t).bound? symbol r) (other : String) (r : ScopeId) :
    b'.bound? other r =
      if s = r ∧ other = name then some b.function.values.size else b.bound? other r := by
  cases ho : b'.names.symbols.lookup other with
  | some symbol =>
      rw [h.bound?_eq hn ho r, bound?, ho]
      show b'.function.bound? symbol r = _
      rw [hb, Function.bound?_addVariable]
      by_cases hr : s = r
      · by_cases hname : other = name
        · rw [hname, hl] at ho
          cases ho
          rw [if_pos ⟨hr, hr ▸ hs, rfl⟩, if_pos ⟨hr, hname⟩]
        · have hsymbol : symbol ≠ x.name := by
            rintro rfl
            exact hname (SymbolTable.lookup_inj ho hl)
          rw [if_neg fun hc => hsymbol hc.2.2, if_neg fun hc => hname hc.2]
      · rw [if_neg fun hc => hr hc.1, if_neg fun hc => hr hc.1]
  | none =>
      have hname : other ≠ name := by
        rintro rfl
        rw [hl] at ho
        cases ho
      rw [if_neg fun hc => hname hc.2, bound?, bound?, ho, hn.lookup_eq_none ho]
      rfl

/-- What a name means in a scope, by the names that the scopes on its chain bind. -/
theorem WellFormed.lookup_eq (h : b.WellFormed) {n : Names} (hn : b.names.Extends n) {name : String}
    {symbol : Symbol} (hl : n.symbols.lookup name = some symbol) (s : ScopeId) :
    b.function.lookup s symbol = (b.function.chain s).findSome? (b.bound? name) := by
  unfold Function.lookup
  congr 1
  funext r
  exact (h.bound?_eq hn hl r).symm

/-! ## Scopes and frames -/

theorem Reflects.grow {s : ScopeId} {frame : Frame} {cell : ValueId} (h : b.Reflects refs s frame)
    (hg : b.Grows cell b') (hb : ∀ name, b'.bound? name s = b.bound? name s) (more : List Ref) :
    b'.Reflects (refs ++ more) s frame := by
  intro name
  have hname := h name
  rw [hb name]
  cases hf : frame.lookup name with
  | none => rw [hname, hf]; rfl
  | some binder =>
      rw [hf] at hname
      obtain ⟨v, hv, hd⟩ := Option.map_eq_some_iff.1 hname
      rw [hv, Option.map_some, Option.map_some, hg.denote hd.symm more]

/-- A scope in which a name was bound reflects the frame in which it was bound. -/
theorem Reflects.bind {s : ScopeId} {top : Frame} {cell : ValueId} {name : String} {binder : Binder}
    {v : ValueId} {more : List Ref} (h : b.Reflects refs s top) (hg : b.Grows cell b')
    (hb : ∀ other, b'.bound? other s = if other = name then some v else b.bound? other s)
    (hd : b'.function.denote (refs ++ more) binder = some (.slot v)) :
    b'.Reflects (refs ++ more) s ((name, binder) :: top) := by
  intro other
  rw [hb]
  by_cases hname : other = name
  · rw [if_pos hname, hname, List.lookup_cons_self, Option.map_some, Option.map_some, hd]
  · have hne : (other == name) = false := beq_false_of_ne hname
    have hother := h other
    rw [if_neg hname]
    rw [List.lookup_cons, hne]
    show _ = (top.lookup other).map _
    cases hf : top.lookup other with
    | none => rw [hother, hf]; rfl
    | some binder' =>
        rw [hf] at hother
        obtain ⟨v', hv, hd'⟩ := Option.map_eq_some_iff.1 hother
        rw [hv, Option.map_some, Option.map_some, hg.denote hd'.symm more]

/-- A name is bound in the scope at the beginning of a chain, and in the innermost frame. -/
theorem WellFormed.reflects_bind (h : b.WellFormed) {s : ScopeId} {frames : List Frame}
    {cell : ValueId} {name : String} {binder : Binder} {v : ValueId} {more : List Ref}
    (hs : s < b.function.scopes.size)
    (hf : List.Forall₂ (b.Reflects refs) (b.function.chain s) frames) (hg : b.Grows cell b')
    (hb : ∀ other r, b'.bound? other r = if s = r ∧ other = name then some v else b.bound? other r)
    (hd : b'.function.denote (refs ++ more) binder = some (.slot v)) :
    ∃ top rest, frames = top :: rest ∧
      List.Forall₂ (b'.Reflects (refs ++ more)) (b'.function.chain s)
        (((name, binder) :: top) :: rest) := by
  have older := h.function.scopes.chain_lt s
  rw [(hg.chain s hs).2]
  rw [Function.chain_eq_cons hs] at hf ⊢
  cases frames with
  | nil => cases hf
  | cons top rest =>
      obtain ⟨htop, hrest⟩ := List.forall₂_cons.1 hf
      refine ⟨top, rest, rfl, .cons (htop.bind hg (fun other => ?_) hd) ?_⟩
      · rw [hb]
        simp
      · refine List.Forall₂.imp ?_ ((List.forall₂_and_left _ _).2 ⟨older, hrest⟩)
        rintro r frame ⟨hr, hreflects⟩
        refine hreflects.grow hg (fun other => ?_) more
        rw [hb, if_neg fun hc => Nat.ne_of_lt hr hc.1.symm]

/-- The innermost scope that binds a name corresponds to the innermost frame that has it. -/
theorem findSome?_reflects {chain : List ScopeId} {frames : List Frame}
    (h : List.Forall₂ (b.Reflects refs) chain frames) (name : String) :
    (chain.findSome? (b.bound? name)).map (fun v => some (Ref.slot v)) =
      (frames.findSome? fun frame => frame.lookup name).map (b.function.denote refs) := by
  induction h with
  | nil => rfl
  | @cons s frame chain frames hs _ ih =>
      have hname := hs name
      rw [List.findSome?_cons, List.findSome?_cons]
      cases hb : b.bound? name s with
      | none =>
          rw [hb] at hname
          rw [Option.map_eq_none_iff.1 hname.symm]
          exact ih
      | some v =>
          rw [hb] at hname
          obtain ⟨binder, hf, hd⟩ := Option.map_eq_some_iff.1 hname.symm
          rw [hf]
          exact hname.trans (congrArg _ hf)

end Hir.Draft

/-! ## The invariant -/

/-- The lowering has kept up with the walk: the scopes around the block at work reflect the frames, and
the visits were lowered to the references.  The variables that they have created are new, in their
order, and the names that they have left open stand in the register behind the entries `base`, after
those for the requests `asked`. -/
structure Tracks (base : List OpenName) (asked : List Request) (start : ValueId) (w : Walk)
    (refs : List Ref) (b : Draft) : Prop where
  frames : List.Forall₂ (b.Reflects refs) (b.function.chain b.current.scope) w.frames
  answers : List.Forall₂ (Answers b.names b.function refs) w.visits refs
  increasing : (created w.visits refs).Pairwise (· < ·)
  within : ∀ id ∈ created w.visits refs, start ≤ id ∧ id < b.function.values.size
  register : ∃ entries, b.names.unresolved.toList = base ++ entries ∧
    List.Forall₂ (Registers b.names b.id) (asked ++ requests w.visits refs) entries

namespace Tracks

variable {base : List OpenName} {asked : List Request} {start : ValueId} {w w' : Walk}
  {refs : List Ref} {b b' : Draft} {cell : ValueId}

theorem quiet (h : Tracks base asked start w refs b) (hg : b.Grows cell b')
    (hf : List.Forall₂ (b'.Reflects refs) (b'.function.chain b'.current.scope) w'.frames)
    (hv : w'.visits = w.visits) (hu : b'.names.unresolved = b.names.unresolved) :
    Tracks base asked start w' refs b' where
  frames := hf
  answers := by
    rw [hv]
    refine h.answers.imp fun visit v ha => ?_
    have := ha.grow hg []
    rwa [List.append_nil] at this
  increasing := by
    rw [hv]
    exact h.increasing
  within := by
    intro id hid
    rw [hv] at hid
    exact ⟨(h.within id hid).1, Nat.lt_of_lt_of_le (h.within id hid).2 hg.size⟩
  register := by
    obtain ⟨entries, he, hr⟩ := h.register
    rw [hv, hu]
    exact ⟨entries, he, hr.imp fun request entry h => h.grow hg⟩

theorem visit (h : Tracks base asked start w refs b) (hg : b.Grows cell b') {x : Visit} {v : Ref}
    (hf : List.Forall₂ (b'.Reflects (refs ++ [v])) (b'.function.chain b'.current.scope) w'.frames)
    (hv : w'.visits = w.visits ++ [x])
    (ha : Answers b'.names b'.function (refs ++ [v]) x v)
    (hc : ∀ id, Visit.created? (x, v) = some id →
      start ≤ id ∧ id = b.function.values.size ∧ id < b'.function.values.size)
    (hr : ∃ entries, b'.names.unresolved.toList = b.names.unresolved.toList ++ entries ∧
      List.Forall₂ (Registers b'.names b'.id) (requests [x] [v]) entries) :
    Tracks base asked start w' (refs ++ [v]) b' := by
  have hlength : w.visits.length = refs.length := h.answers.length_eq
  have hcreated : ∀ id, id ∈ created [x] [v] → Visit.created? (x, v) = some id := by
    intro id hid
    simpa [created] using hid
  refine ⟨hf, ?_, ?_, ?_, ?_⟩
  · rw [hv]
    refine List.rel_append (h.answers.imp fun _ _ ha => ha.grow hg [v]) ?_
    exact .cons ha .nil
  · rw [hv, created_append hlength, List.pairwise_append]
    refine ⟨h.increasing, ?_, ?_⟩
    · unfold created
      rw [List.zip_cons_cons, List.filterMap_cons]
      split <;> simp
    · intro old hold id hid
      rw [(hc id (hcreated id hid)).2.1]
      exact (h.within old hold).2
  · intro id hid
    rw [hv, created_append hlength] at hid
    rcases List.mem_append.1 hid with hid | hid
    · exact ⟨(h.within id hid).1, Nat.lt_of_lt_of_le (h.within id hid).2 hg.size⟩
    · obtain ⟨hs, -, hlt⟩ := hc id (hcreated id hid)
      exact ⟨hs, hlt⟩
  · obtain ⟨entries, he, hreg⟩ := h.register
    obtain ⟨more, hmore, hregmore⟩ := hr
    refine ⟨entries ++ more, by rw [hmore, he, List.append_assoc], ?_⟩
    rw [hv, requests_append hlength, ← List.append_assoc]
    exact List.rel_append (hreg.imp fun request entry h => h.grow hg) hregmore

/-- The scopes on the chain reflect the frames as before, where no binding has changed. -/
theorem frames_same (h : Tracks base asked start w refs b) (hg : b.Grows cell b')
    (hc : b'.function.chain b'.current.scope = b.function.chain b.current.scope)
    (hb : ∀ name s, b'.bound? name s = b.bound? name s) (more : List Ref) :
    List.Forall₂ (b'.Reflects (refs ++ more)) (b'.function.chain b'.current.scope) w.frames := by
  rw [hc]
  exact h.frames.imp fun s frame hs => hs.grow hg (fun name => hb name s) more

theorem still (h : Tracks base asked start w refs b) (hb : b.WellFormed) (hg : b.Grows cell b')
    (hblocks : b'.blocks = b.blocks)
    (hbound : ∀ symbol s, b'.function.bound? symbol s = b.function.bound? symbol s)
    (hu : b'.names.unresolved = b.names.unresolved) : Tracks base asked start w refs b' := by
  refine h.quiet hg ?_ rfl hu
  have same := h.frames_same hg (by
    rw [Draft.current_eq, Draft.current_eq, hblocks]
    exact (hg.chain _ (by rw [← Draft.current_eq]; exact hb.current_scope_lt)).2)
    (hb.bound?_congr hg.names hbound) []
  rwa [List.append_nil] at same

theorem append (h : Tracks base asked start w refs b) (hb : b.WellFormed) (r : Ref) :
    Tracks base asked start w refs (b.append r) :=
  h.still hb (Draft.grows_append b r) rfl (fun _ _ => rfl) rfl

theorem addValue (h : Tracks base asked start w refs b) (hb : b.WellFormed) (v : Value) :
    Tracks base asked start w refs (b.addValue v).2 :=
  h.still hb (Draft.grows_addValue b.current.value b v) rfl (fun _ _ => rfl) rfl

theorem openBlock (h : Tracks base asked start w refs b) (hb : b.WellFormed) :
    Tracks base asked start w.enter refs b.openBlock := by
  have hg := Draft.grows_openBlock b.current.value b
  have hbound : ∀ symbol s, b.openBlock.function.bound? symbol s = b.function.bound? symbol s :=
    fun symbol s => Function.bound?_addScope _ _ symbol s
  have hchain : b.openBlock.function.chain b.openBlock.current.scope =
      b.function.scopes.size :: b.function.chain b.current.scope :=
    (Function.chain_addScope _ _ _).trans (if_pos rfl)
  refine h.quiet hg ?_ rfl rfl
  rw [hchain]
  refine .cons (fun name => ?_) (h.frames.imp fun s frame hs => ?_)
  · rw [hb.bound?_congr hg.names hbound]
    unfold Draft.bound?
    cases b.names.symbols.lookup name with
    | none => rfl
    | some symbol =>
        show (b.function.bound? symbol _).map _ = none
        rw [Function.bound?_eq_elim, Array.getElem?_eq_none (Nat.le_refl _)]
        rfl
  · have same := hs.grow hg (fun name => hb.bound?_congr hg.names hbound name s) []
    rwa [List.append_nil] at same

theorem closeBlock (h : Tracks base asked start w refs b) (hb : b.WellFormed) {block : BlockFrame}
    {rest : List BlockFrame} (hblocks : b.blocks = block :: rest) :
    Tracks base asked start w.leave refs { b with blocks := rest } := by
  have hframes := h.frames
  rw [hb.chain_current hblocks] at hframes
  refine ⟨?_, h.answers, h.increasing, h.within, h.register⟩
  show List.Forall₂ _ (b.function.chain (Draft.current _).scope) w.frames.tail
  rw [Draft.current_eq]
  cases hw : w.frames with
  | nil =>
      rw [hw] at hframes
      cases hframes
  | cons top outer =>
      rw [hw] at hframes
      cases hframes with
      | cons _ houter => exact houter

theorem use (h : Tracks base asked start w refs b) (hb : b.WellFormed)
    (hs : start ≤ b.function.values.size) (name : String) :
    Tracks base asked start (w.use name) (refs ++ [(b.reference name).1]) (b.reference name).2 := by
  have hn := Names.extends_intern b.names name
  have hl : (b.names.intern name).2.symbols.lookup name = some (b.names.intern name).1 :=
    SymbolTable.lookup_intern_self
  have found := Draft.findSome?_reflects h.frames name
  rw [← hb.lookup_eq hn hl] at found
  unfold Draft.reference
  dsimp only
  cases hv : b.function.lookup b.current.scope (b.names.intern name).1 with
  | some v =>
      rw [hv] at found
      obtain ⟨binder, hbinder, hdenote⟩ := Option.map_eq_some_iff.1 found.symm
      have hg := Draft.grows_withNames b.current.value b hn
      refine h.visit (x := .use name (some binder)) hg ?_ ?_ ?_ ?_ ?_
      · exact h.frames_same hg rfl (hb.bound?_congr hg.names fun _ _ => rfl) _
      · show _ ++ [Visit.use name (w.frames.findSome? _)] = _
        rw [hbinder]
      · exact hg.denote hdenote _
      · intro id hid
        cases hid
      · exact ⟨[], (List.append_nil _).symm, .nil⟩
  | none =>
      rw [hv] at found
      have hg := (Draft.grows_withNames b.current.value b (Names.extends_register b.names name
        (.unresolvedVariable name) (.var b.id b.function.values.size (b.names.intern name).1))).trans
        (Draft.grows_addValue b.current.value _
          ⟨.var ⟨(b.names.intern name).1, false, .unresolved⟩, none⟩) (Or.inl rfl)
      refine h.visit (x := .use name none) hg ?_ ?_ ?_ ?_ ?_
      · exact h.frames_same hg rfl (hb.bound?_congr hg.names fun _ _ => rfl) _
      · show _ ++ [Visit.use name (w.frames.findSome? _)] = _
        rw [Option.map_eq_none_iff.1 found.symm]
      · exact ⟨_, hl, (Function.values_addValue _ _ _).trans (if_pos rfl)⟩
      · intro id hid
        cases hid
        refine ⟨hs, rfl, ?_⟩
        show b.function.values.size < (b.function.addValue _).values.size
        rw [Function.size_values_addValue]
        exact Nat.lt_succ_self _
      · exact ⟨[_], Array.toList_push, .cons ⟨hl, rfl, rfl⟩ .nil⟩

theorem declare (h : Tracks base asked start w refs b) (hb : b.WellFormed)
    (hs : start ≤ b.function.values.size) (d : VariableDecl) :
    Tracks base asked start (w.declare d) (refs ++ [(b.declare d).1]) (b.declare d).2 := by
  have hg := Draft.grows_declare b.current.value b d
  have hl : (b.declare d).2.names.symbols.lookup d.name =
      some ((b.names.freshType? d.typeName).2.intern d.name).1 := SymbolTable.lookup_intern_self
  have hbound := hb.bound?_addVariable hg.names hl hb.current_scope_lt fun _ _ => rfl
  refine h.visit (x := .declare d) hg ?_ rfl ?_ ?_ ?_
  · have hd : (b.declare d).2.function.denote (refs ++ [.slot b.function.values.size])
        (.visit w.visits.length) = some (.slot b.function.values.size) := by
      show (refs ++ [Ref.slot b.function.values.size])[w.visits.length]? = _
      rw [h.answers.length_eq, List.getElem?_concat_length]
    obtain ⟨top, rest, hw, hframes⟩ := hb.reflects_bind hb.current_scope_lt h.frames hg hbound hd
    unfold Walk.declare
    rw [hw]
    exact hframes
  · exact ⟨_, _, hl, (Function.values_addVariable _ _ _ _ _).trans (if_pos rfl)⟩
  · intro id hid
    cases hid
    refine ⟨hs, rfl, ?_⟩
    show b.function.values.size < (b.function.addVariable _ _ _).values.size
    rw [Function.size_values_addVariable]
    exact Nat.lt_succ_self _
  · obtain ⟨name, _ | typeName, isMutable⟩ := d
    · exact ⟨[], (List.append_nil _).symm, .nil⟩
    · obtain ⟨s, hname, htype, hu⟩ := Names.freshType_registered b.names typeName
      refine ⟨[_], hu, .cons ⟨?_, htype⟩ .nil⟩
      exact (Names.extends_intern (b.names.freshType typeName).2 name).symbols _ s hname

theorem callOperator (h : Tracks base asked start w refs b) (hb : b.WellFormed)
    (hs : start ≤ b.function.values.size) (l r : Ref) :
    Tracks base asked start (w.use operatorCallee) (refs ++ [(b.reference operatorCallee).1])
      (b.callOperator l r).2 :=
  (h.use hb hs operatorCallee).addValue (hb.reference operatorCallee).wellFormed _

theorem operands {first second : Expression}
    (hfirst : ∀ {w : Walk} {refs : List Ref} {b : Draft}, Tracks base asked start w refs b →
      b.WellFormed → start ≤ b.function.values.size →
      Tracks base asked start (first.walk w) (refs ++ first.visited b) (first.lower b).2)
    (hsecond : ∀ {w : Walk} {refs : List Ref} {b : Draft}, Tracks base asked start w refs b →
      b.WellFormed → start ≤ b.function.values.size →
      Tracks base asked start (second.walk w) (refs ++ second.visited b) (second.lower b).2)
    (h : Tracks base asked start w refs b) (hb : b.WellFormed) (hs : start ≤ b.function.values.size)
    (l r : Ref) :
    Tracks base asked start ((second.walk (first.walk w)).use operatorCallee)
      (refs ++ (first.visited b ++ second.visited (first.lower b).2 ++
        [((second.lower (first.lower b).2).2.reference operatorCallee).1]))
      ((second.lower (first.lower b).2).2.callOperator l r).2 := by
  have lowered := hb.lower first
  have lowered' := lowered.wellFormed.lower second
  have size := Nat.le_trans hs lowered.size
  have tracked := hsecond (hfirst h hb hs) lowered.wellFormed size
  have called := tracked.callOperator lowered'.wellFormed (Nat.le_trans size lowered'.size) l r
  rw [List.append_assoc, List.append_assoc, ← List.append_assoc (first.visited b)] at called
  exact called

/-- **The lowering of an expression keeps up with the walk through it.** -/
theorem lower (e : Expression) (h : Tracks base asked start w refs b) (hb : b.WellFormed)
    (hs : start ≤ b.function.values.size) :
    Tracks base asked start (e.walk w) (refs ++ e.visited b) (e.lower b).2 := by
  induction e generalizing w refs b with
  | block inner ih =>
      have size := (Draft.grows_openBlock b.current.value b).size
      have opened := ih (h.openBlock hb) hb.openBlock (Nat.le_trans hs size)
      have lowered := hb.openBlock.lower inner
      have filled := opened.append lowered.wellFormed (inner.lower b.openBlock).1
      rw [Draft.lower_block]
      exact filled.closeBlock lowered.append.1 (Draft.blocks_lower inner b.openBlock)
  | sequence first next ih ih' =>
      have lowered := hb.lower first
      have filled := (ih h hb hs).append lowered.wellFormed (first.lower b).1
      have rest := ih' filled lowered.append.1 (Nat.le_trans hs lowered.append.2)
      rw [List.append_assoc] at rest
      exact rest
  | declaration d => exact h.declare hb hs d
  | binary op left right ih ih' =>
      by_cases ho : op.isAssignment = true
      · simp only [Expression.walk, Expression.visited, Expression.lower, if_pos ho]
        exact h.operands ih' ih hb hs _ _
      · simp only [Expression.walk, Expression.visited, Expression.lower, if_neg ho]
        exact h.operands ih ih' hb hs _ _
  | identifier name => exact h.use hb hs name
  | number text => exact (List.append_nil refs).symm ▸ h.addValue hb _
  | string text => exact (List.append_nil refs).symm ▸ h.addValue hb _
  | char text => exact (List.append_nil refs).symm ▸ h.addValue hb _
  | empty => exact (List.append_nil refs).symm ▸ h

end Tracks

end FrontEnd
