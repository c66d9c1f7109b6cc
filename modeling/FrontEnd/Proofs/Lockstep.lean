import FrontEnd.Parse.Declaration

/-!
# Parsers in lockstep

A parser touches its reader in three ways only: it takes the next token, it looks at it, and it notes
the decisions of the precedence parser in the log.  What these three keep, every parser keeps.

* `Reader.Lockstep` — a relation between two readers that the three keep, as long as the first of
  them is not beyond some horizon; once beyond it, a reader stays beyond it.
* `Outcome.Matches` — two outcomes with one value or one error, and related readers behind them.
* `Outcome.InStep` — a parse that starts from related readers ends beyond the horizon or with outcomes
  that match.  `InStep.bind`, `Lockstep.get`, `Lockstep.peek` and `Lockstep.note` put it together as
  parsers are put together.
* `Lockstep.expression` and its companions — every parser runs in step with itself.
-/

namespace FrontEnd

/-- The token whose scan an event reports. -/
def Event.scannedToken? : Event → Option Token
  | .scanned t => some t
  | _ => none

def Quiet (es : List Event) : Prop := ∀ x ∈ es, x.scannedToken? = none

theorem quiet_decisions (incoming : Lookahead) (stack : List Waiting) (operand : Expression) :
    Quiet (settle incoming stack operand).decisions := by
  induction stack generalizing operand with
  | nil => simp [Quiet, settle, decision, Event.scannedToken?]
  | cons w stack ih =>
      unfold settle
      split
      · intro x hx
        rcases List.mem_cons.1 hx with rfl | hx
        · rfl
        · exact ih _ x hx
      · simp [Quiet, decision, Event.scannedToken?]

/-- Taking a token, looking at one and noting decisions keep readers together, unless they bring the
first reader beyond the horizon, from where none of them brings it back. -/
structure Reader.Lockstep (Beyond : Reader → Prop) (Together : Reader → Reader → Prop) : Prop where
  together_get : ∀ {r s : Reader}, Together r s →
    Beyond r.get.2 ∨ r.get.1 = s.get.1 ∧ Together r.get.2 s.get.2
  together_peek : ∀ {r s : Reader}, Together r s →
    Beyond r.peek.2 ∨ r.peek.1 = s.peek.1 ∧ Together r.peek.2 s.peek.2
  together_note : ∀ {r s : Reader} {es : List Event}, Quiet es → Together r s →
    Together (r.noteAll es) (s.noteAll es)
  beyond_get : ∀ {r : Reader}, Beyond r → Beyond r.get.2
  beyond_peek : ∀ {r : Reader}, Beyond r → Beyond r.peek.2
  beyond_note : ∀ {r : Reader} {es : List Event}, Quiet es → Beyond r → Beyond (r.noteAll es)

namespace Outcome

variable {α β : Type} {Beyond : Reader → Prop} {Together : Reader → Reader → Prop}

/-- The outcomes have one value or one error, and their readers are related. -/
inductive Matches (Together : Reader → Reader → Prop) : Outcome α → Outcome α → Prop
  | done {a : α} {r s : Reader} (h : Together r s) : Matches Together (done a r) (done a s)
  | refused {e : Mismatch} {r s : Reader} (h : Together r s) :
    Matches Together (refused e r) (refused e s)

/-- What parses from `r` and from `s` come to, if they run in lockstep. -/
structure InStep (Beyond : Reader → Prop) (Together : Reader → Reader → Prop) (r s : Reader)
    (o o' : Outcome α) : Prop where
  beyond : Beyond r → Beyond o.rest
  together : Together r s → Beyond o.rest ∨ o.Matches Together o'

namespace InStep

variable {r s : Reader} {o o' : Outcome α}

theorem done (a : α) : InStep Beyond Together r s (Outcome.done a r) (Outcome.done a s) :=
  ⟨id, fun h => Or.inr (.done h)⟩

theorem refused (e : Mismatch) :
    InStep Beyond Together r s (Outcome.refused e r : Outcome α) (Outcome.refused e s) :=
  ⟨id, fun h => Or.inr (.refused h)⟩

/-- What follows a parse in lockstep learns how few tokens the first reader has left. -/
theorem bind {f g : α → Reader → Outcome β} {k n : Nat} (h : InStep Beyond Together r s o o')
    (hl : o.Leaves k n)
    (hf : ∀ a r₁ s₁, r₁.remaining + k ≤ n → InStep Beyond Together r₁ s₁ (f a r₁) (g a s₁)) :
    InStep Beyond Together r s (o.bind f) (o'.bind g) := by
  have beyond : Beyond o.rest → Beyond (o.bind f).rest := by
    intro hb
    cases o with
    | done a r₁ => exact (hf a r₁ r₁ hl).beyond hb
    | refused e r₁ => exact hb
  refine ⟨fun hr => beyond (h.beyond hr), fun hrs => ?_⟩
  rcases h.together hrs with hb | hm
  · exact Or.inl (beyond hb)
  · cases hm with
    | done h₁ => exact (hf _ _ _ hl).together h₁
    | refused h₁ => exact Or.inr (.refused h₁)

theorem map (h : InStep Beyond Together r s o o') (f : α → β) :
    InStep Beyond Together r s (o.map f) (o'.map f) := by
  refine ⟨fun hr => ?_, fun hrs => ?_⟩
  · cases o with
    | done => exact h.beyond hr
    | refused => exact h.beyond hr
  · rcases h.together hrs with hb | hm
    · cases o with
      | done => exact Or.inl hb
      | refused => exact Or.inl hb
    · cases hm with
      | done h₁ => exact Or.inr (.done h₁)
      | refused h₁ => exact Or.inr (.refused h₁)

end InStep

end Outcome

open Outcome (InStep)

namespace Parse

/-- What follows an argument: another one behind a comma, or the end of the list. -/
def afterArgument (a : Argument) (r : Reader) : Outcome (List Argument) :=
  match r.get.1.kind with
  | .mark .comma => (argumentList r.get.2).map (a :: ·)
  | .mark .rightParen => .done [a] r.get.2
  | _ => .refused ⟨.argumentEnd, r.get.1⟩ r.get.2

theorem argumentList_eq_bind (r : Reader) :
    argumentList r = (argument r).bind afterArgument := argumentList_eq r

end Parse

namespace Reader.Lockstep

variable {α : Type} {Beyond : Reader → Prop} {Together : Reader → Reader → Prop} {r s : Reader}

theorem get (L : Lockstep Beyond Together) (parser : Reader → Outcome α)
    (h : ∀ s, r.get.1 = s.get.1 →
      InStep Beyond Together r.get.2 s.get.2 (parser r) (parser s)) :
    InStep Beyond Together r s (parser r) (parser s) := by
  refine ⟨fun hb => (h r rfl).beyond (L.beyond_get hb), fun hrs => ?_⟩
  rcases L.together_get hrs with hb | ⟨ht, hrs⟩
  · exact Or.inl ((h r rfl).beyond hb)
  · exact (h s ht).together hrs

theorem peek (L : Lockstep Beyond Together) (parser : Reader → Outcome α)
    (h : ∀ s, r.peek.1 = s.peek.1 →
      InStep Beyond Together r.peek.2 s.peek.2 (parser r) (parser s)) :
    InStep Beyond Together r s (parser r) (parser s) := by
  refine ⟨fun hb => (h r rfl).beyond (L.beyond_peek hb), fun hrs => ?_⟩
  rcases L.together_peek hrs with hb | ⟨ht, hrs⟩
  · exact Or.inl ((h r rfl).beyond hb)
  · exact (h s ht).together hrs

theorem skip (L : Lockstep Beyond Together) {o o' : Outcome α}
    (h : InStep Beyond Together r.skip s.skip o o') : InStep Beyond Together r s o o' := by
  refine ⟨fun hb => h.beyond (L.beyond_get hb), fun hrs => ?_⟩
  rcases L.together_get hrs with hb | ⟨-, hrs⟩
  · exact Or.inl (h.beyond hb)
  · exact h.together hrs

theorem note (L : Lockstep Beyond Together) {o o' : Outcome α} {es : List Event} (hes : Quiet es)
    (h : InStep Beyond Together (r.noteAll es) (s.noteAll es) o o') :
    InStep Beyond Together r s o o' :=
  ⟨fun hb => h.beyond (L.beyond_note hes hb), fun hrs => h.together (L.together_note hes hrs)⟩

/-! ## Expressions -/

open Parse

theorem expectMark (L : Lockstep Beyond Together) (m : Mark) (r s : Reader) :
    InStep Beyond Together r s (expectMark m r) (expectMark m s) := by
  refine L.get (FrontEnd.expectMark m) fun s ht => ?_
  unfold FrontEnd.expectMark
  rw [← ht]
  split
  · exact .done ()
  · exact .refused _

theorem expectName (L : Lockstep Beyond Together) (e : Expectation) (r s : Reader) :
    InStep Beyond Together r s (expectName e r) (expectName e s) := by
  refine L.get (FrontEnd.expectName e) fun s ht => ?_
  unfold FrontEnd.expectName
  rw [← ht]
  split
  · exact .done _
  · exact .refused _

theorem declaration (L : Lockstep Beyond Together) (r s : Reader) :
    InStep Beyond Together r s (declaration r) (declaration s) := by
  refine L.get Parse.declaration fun s ht => ?_
  unfold Parse.declaration
  rw [← ht]
  refine (L.expectName _ _ _).bind (expectName_leaves _ _) fun name r₁ s₁ _ => ?_
  refine L.peek (fun q => if q.peek.1.kind = .mark .colon then
    (FrontEnd.expectName .variableType q.peek.2.skip).map _ else .done _ q.peek.2) fun s₁ ht => ?_
  rw [← ht]
  split
  · exact L.skip ((L.expectName _ _ _).map _)
  · exact .done _

mutual

theorem expression (L : Lockstep Beyond Together) (r s : Reader) :
    InStep Beyond Together r s (expression r) (expression s) := by
  rw [expression_eq, expression_eq]
  refine (L.line r s).bind (Bounded.line r).leaves fun first r₁ s₁ hr₁ => ?_
  refine L.peek (fun q => if q.peek.1.kind = .mark .semicolon then
    (Parse.expression q.peek.2.skip).map _ else .done first q.peek.2) fun s₁ ht => ?_
  rw [← ht]
  split
  · rename_i hk
    have := Reader.remaining_skip_peek (r := r₁) (by simp [hk])
    exact L.skip ((L.expression _ _).map _)
  · exact .done _
termination_by 4 * r.remaining + 3

theorem line (L : Lockstep Beyond Together) (r s : Reader) :
    InStep Beyond Together r s (line r) (line s) := by
  rw [line_eq, line_eq]
  exact (L.primary r s).bind (Bounded.primary r).leaves fun first r₁ s₁ hr₁ =>
    L.chain [] first r₁ s₁
termination_by 4 * r.remaining + 2

theorem chain (L : Lockstep Beyond Together) (stack : List Waiting) (e : Expression)
    (r s : Reader) : InStep Beyond Together r s (chain stack e r) (chain stack e s) := by
  refine L.peek (Parse.chain stack e) fun s ht => ?_
  rw [chain_eq, chain_eq]
  dsimp only
  rw [← ht]
  refine L.note (quiet_decisions r.peek.1.kind.lookahead stack e) ?_
  split
  · exact .done _
  · rename_i op hk
    have hlt := Reader.remaining_skip_peek (r := r)
      (by simp [TokenKind.lookahead_eq_operator_iff.1 hk])
    refine L.skip ((L.primary _ _).bind (Bounded.primary _).leaves fun e' r₁ s₁ hr₁ => ?_)
    have : r₁.remaining < r.remaining := by simp at hr₁; omega
    exact L.chain _ e' r₁ s₁
termination_by 4 * r.remaining
decreasing_by all_goals simp; omega

theorem primary (L : Lockstep Beyond Together) (r s : Reader) :
    InStep Beyond Together r s (primary r) (primary s) := by
  refine L.peek Parse.primary fun s ht => ?_
  rw [primary_eq, primary_eq, ← ht]
  split
  · exact L.skip (.done _)
  · exact (L.declaration _ _).map _
  · rename_i hk
    have := Reader.remaining_skip_peek (r := r)
      fun e => by simp [Operand.ofToken_endOfFile e] at hk
    exact L.skip ((L.expression _ _).bind (expression_leaves _)
      fun _ _ _ _ => (L.expectMark _ _ _).map _)
  · have := r.remaining_peek
    exact (L.block _ _).map _
  · exact .done _
termination_by 4 * r.remaining + 1

theorem block (L : Lockstep Beyond Together) (r s : Reader) :
    InStep Beyond Together r s (block r) (block s) := by
  rw [block_eq, block_eq]
  exact (L.expectMark _ r s).bind (expectMark_leaves _ r) fun _ r₁ s₁ hr₁ =>
    (L.expression r₁ s₁).bind (expression_leaves r₁) fun _ _ _ _ => (L.expectMark _ _ _).map _
termination_by 4 * r.remaining

end

/-! ## Declarations -/

theorem argument (L : Lockstep Beyond Together) (r s : Reader) :
    InStep Beyond Together r s (argument r) (argument s) :=
  (L.expectName _ _ _).bind (expectName_leaves _ _) fun _ _ _ _ =>
    (L.expectMark _ _ _).bind (expectMark_leaves _ _) fun _ _ _ _ => (L.expectName _ _ _).map _

theorem argumentList (L : Lockstep Beyond Together) (r s : Reader) :
    InStep Beyond Together r s (argumentList r) (argumentList s) := by
  rw [argumentList_eq_bind, argumentList_eq_bind]
  refine (L.argument r s).bind (argument_leaves r) fun a r₁ s₁ hr₁ => ?_
  have := r₁.remaining_get_le
  refine L.get (afterArgument a) fun s₁ ht => ?_
  unfold afterArgument
  rw [← ht]
  split
  · exact (L.argumentList _ _).map _
  · exact .done _
  · exact .refused _
termination_by r.remaining

theorem arguments (L : Lockstep Beyond Together) (r s : Reader) :
    InStep Beyond Together r s (arguments r) (arguments s) := by
  refine L.peek Parse.arguments fun s ht => ?_
  unfold Parse.arguments
  rw [← ht]
  split
  · exact L.skip (.done _)
  · exact L.argumentList _ _

theorem function (L : Lockstep Beyond Together) (r s : Reader) :
    InStep Beyond Together r s (function r) (function s) :=
  L.skip <| (L.expectName _ _ _).bind (expectName_leaves _ _) fun _ _ _ _ =>
    (L.expectMark _ _ _).bind (expectMark_leaves _ _) fun _ _ _ _ =>
      (L.arguments _ _).bind (arguments_leaves _) fun _ _ _ _ =>
        (L.expectMark _ _ _).bind (expectMark_leaves _ _) fun _ _ _ _ =>
          (L.expectName _ _ _).bind (expectName_leaves _ _) fun _ _ _ _ => (L.block _ _).map _

mutual

theorem item (L : Lockstep Beyond Together) (r s : Reader) :
    InStep Beyond Together r s (item r) (item s) := by
  refine L.peek Parse.item fun s ht => ?_
  rw [item_eq, item_eq, ← ht]
  have := r.remaining_peek
  split
  · exact (L.module _ _).map _
  · exact (L.function _ _).map _
  · exact .refused _
termination_by 3 * r.remaining + 1

theorem module (L : Lockstep Beyond Together) (r s : Reader) :
    InStep Beyond Together r s (module r) (module s) := by
  rw [module_eq, module_eq]
  have hskip : r.skip.remaining ≤ r.remaining := r.remaining_get_le
  refine L.skip ((L.expectName _ _ _).bind (expectName_leaves _ _) fun name r₁ s₁ h₁ => ?_)
  refine (L.expectMark _ _ _).bind (expectMark_leaves _ _) fun _ r₂ s₂ h₂ => ?_
  refine (L.items _ r₂ s₂).bind (Bounded.items _ r₂).leaves fun is r₃ s₃ _ => ?_
  exact L.skip (.done _)
termination_by 3 * r.remaining

theorem items (L : Lockstep Beyond Together) (stop : TokenKind) (r s : Reader) :
    InStep Beyond Together r s (items stop r) (items stop s) := by
  refine L.peek (Parse.items stop) fun s ht => ?_
  rw [items_eq, items_eq, ← ht]
  have := r.remaining_peek
  split
  · exact .done _
  · refine (L.item _ _).bind (Bounded.item _).leaves fun i r₁ s₁ _ => ?_
    exact (L.items stop r₁ s₁).map _
termination_by 3 * r.remaining + 2

end

end Reader.Lockstep

end FrontEnd
