import FrontEnd.Proofs.StepCounts

/-!
# Every parse ends

The parsers that note their steps are held against the parsers proper.  A parse may spend seven steps on
each token that it uses up, and what a success has saved is there for what follows.

* `Reader.Takes.remaining`, `Reader.UsesUp.remaining_lt` — what is taken remains no longer.
* `Meets` — a parse ends with the given outcome, its steps are within an allowance, and each of them gets
  on; `Meets.bind` puts two such parses one behind the other.
* `Stepwise.expressionsMeet`, `Stepwise.itemsMeet` — the parsers meet what they are to parse at every depth
  that suffices, by induction on the depth.
* `Entry.watch_ends` — seven calls deep for each token, and six more, suffice for every entry, and so many
  steps.
* `Parse.line_disciplined` — the stacks of a line are in order at each of its turns, so no entry ever asks
  for a missing operand.
-/

namespace FrontEnd

namespace Reader

variable {r s : Reader} {ts : List Token}

theorem Takes.remaining (h : r.Takes ts s) :
    ts.countP (fun t => t.kind ≠ .endOfFile) + s.remaining ≤ r.remaining := by
  induction h with
  | here => simp
  | look _ ih => exact Nat.le_trans (Nat.add_le_add_left (remaining_peek _) _) ih
  | note _ _ ih => exact ih
  | @take ts s _ ih =>
      have taken := s.remaining_get
      have counted : [s.get.1].countP (fun t => t.kind ≠ .endOfFile) = weight s.get.1 := by
        by_cases hk : s.get.1.kind = .endOfFile <;> simp [weight, hk]
      rw [List.countP_append, counted]
      omega

theorem UsesUp.remaining_lt (h : r.UsesUp s) : s.remaining < r.remaining := by
  obtain ⟨ts, taken, t, ht, hk⟩ := h
  have counted : 0 < ts.countP (fun t => t.kind ≠ .endOfFile) :=
    List.countP_pos_iff.2 ⟨t, ht, by simpa using hk⟩
  have left := taken.remaining
  omega

end Reader

/-! ## The account of a parse -/

/-- How many steps a parse may take: seven for each token that it has used up, and some more.  A refused
parse may have used up all of them. -/
def Outcome.allowance {α : Type} (r : Reader) (a b : Int) : Outcome α → Int
  | done _ s => 7 * (r.remaining - s.remaining) + a
  | refused _ _ => 7 * r.remaining + b

/-- The parse ends with the outcome, within its allowance, and all of its steps get on. -/
structure Meets {α : Type} (m : Watched α) (o : Outcome α) (r : Reader) (a b : Int) : Prop where
  ending : m.ending = .ofOutcome o
  cost : (m.stages.length : Int) ≤ o.allowance r a b
  advances : ∀ x ∈ m.stages, x.Advances (∃ e s, o = .refused e s)

theorem Stage.Advances.mono {failed failed' : Prop} {x : Stage} (h : x.Advances failed)
    (hf : failed → failed') : x.Advances failed' := by
  cases x with
  | turn before after =>
      cases after with
      | none => exact hf h
      | some after => exact h
  | _ => exact h

namespace Meets

variable {α β : Type} {m : Watched α} {o : Outcome α} {r s : Reader} {a b a' b' : Int}

theorem weaken (h : Meets m o r a b) (ha : a ≤ a') (hb : b ≤ b') : Meets m o r a' b' where
  ending := h.ending
  cost := by
    have cost := h.cost
    cases o <;> simp only [Outcome.allowance] at cost ⊢ <;> omega
  advances := h.advances

/-- A parse that begins behind some tokens may take steps for them. -/
theorem behind (h : Meets m o s a b) {k : Nat} (hs : s.remaining + k ≤ r.remaining) :
    Meets m o r (a - 7 * k) (b - 7 * k) where
  ending := h.ending
  cost := by
    have cost := h.cost
    cases o <;> simp only [Outcome.allowance] at cost ⊢ <;> omega
  advances := h.advances

theorem done (x : α) (hs : s.remaining ≤ r.remaining) (b : Int) :
    Meets (.done x s) (.done x s) r 0 b where
  ending := rfl
  cost := by
    simp only [Watched.done, List.length_nil, Outcome.allowance]
    omega
  advances := by simp [Watched.done]

theorem refuse (e : Mismatch) (r s : Reader) (a : Int) :
    Meets (α := α) (.refuse e.expected.text e.found s) (.refused e s) r a 0 where
  ending := rfl
  cost := by
    simp only [Watched.refuse, List.length_nil, Outcome.allowance]
    omega
  advances := by simp [Watched.refuse]

theorem ofOutcome {k : Nat} (h : o.Leaves k r.remaining) :
    Meets (.ofOutcome o) o r (-7 * k) 0 where
  ending := rfl
  cost := by
    cases o with
    | done x s =>
        simp only [Outcome.leaves_done] at h
        simp only [Watched.ofOutcome, List.length_nil, Outcome.allowance]
        omega
    | refused e s =>
        simp only [Watched.ofOutcome, List.length_nil, Outcome.allowance]
        omega
  advances := by simp [Watched.ofOutcome]

/-- A step that gets on costs one. -/
theorem note (h : Meets m o r a b) {x : Stage} (hx : x.Advances False) :
    Meets (m.note x) o r (a + 1) (b + 1) where
  ending := h.ending
  cost := by
    have cost := h.cost
    cases o <;> simp only [Outcome.allowance, Watched.note, List.length_cons] at cost ⊢ <;>
      push_cast <;> omega
  advances := List.forall_mem_cons.2 ⟨hx.mono False.elim, h.advances⟩

theorem call (h : Meets m o r a b) {parser : Entry} (ha : a + 1 ≤ a') (hb : b + 1 ≤ b') :
    Meets (m.note (.call parser)) o r a' b' :=
  (h.note (x := .call parser) trivial).weaken ha hb

/-- A turn of a loop costs one, and gets on if its success uses up a token. -/
theorem asTurn (h : Meets m o r a b) (used : ∀ x t, o = .done x t → s.UsesUp t) :
    Meets (m.asTurn s) o r (a + 1) (b + 1) where
  ending := h.ending
  cost := by
    have cost := h.cost
    cases o <;> simp only [Outcome.allowance, Watched.asTurn, List.length_append,
      List.length_singleton] at cost ⊢ <;> push_cast <;> omega
  advances := by
    refine List.forall_mem_append.2 ⟨h.advances, List.forall_mem_singleton.2 ?_⟩
    rw [h.ending]
    cases o with
    | done x t => exact used x t rfl
    | refused e t => exact ⟨e, t, rfl⟩

/-- One parser behind another: what the first has saved may be spent by the second. -/
theorem bind {f : α → Reader → Watched β} {g : α → Reader → Outcome β} (h : Meets m o r a b)
    (hf : ∀ x s, o = .done x s → Meets (f x s) (g x s) s a' b') :
    Meets (m.bind f) (o.bind g) r (a + a') (max b (a + b')) := by
  have ending := h.ending
  have cost := h.cost
  have advances := h.advances
  cases o with
  | done x s =>
      obtain ⟨ending', cost', advances'⟩ := hf x s rfl
      simp only [Ending.ofOutcome] at ending
      simp only [Watched.bind, ending, Outcome.bind_done]
      refine ⟨ending', ?_, List.forall_mem_append.2 ⟨fun y hy => ?_, advances'⟩⟩
      · simp only [Outcome.allowance, List.length_append] at cost cost' ⊢
        generalize g x s = o' at cost' ⊢
        cases o' <;> simp only at cost' ⊢ <;> push_cast <;> omega
      · exact (advances y hy).mono (by simp)
  | refused e s =>
      simp only [Ending.ofOutcome] at ending
      simp only [Watched.bind, ending, Outcome.bind_refused]
      refine ⟨rfl, ?_, fun y hy => (advances y hy).mono fun _ => ⟨e, s, rfl⟩⟩
      simp only [Outcome.allowance] at cost ⊢
      omega

/-- The same, where of the first parse no more is needed than what it leaves. -/
theorem bindLeaves {k : Nat} {f : α → Reader → Watched β} {g : α → Reader → Outcome β}
    (h : Meets m o r a b) (hl : o.Leaves k r.remaining)
    (hf : ∀ x s, s.remaining + k ≤ r.remaining → Meets (f x s) (g x s) s a' b') :
    Meets (m.bind f) (o.bind g) r (a + a') (max b (a + b')) :=
  h.bind fun x s hs => hf x s (Parse.remaining_of_done hs hl)

theorem map (h : Meets m o r a b) (f : α → β) : Meets (m.map f) (o.map f) r a b := by
  have both := h.bind (f := fun x s => Watched.done (f x) s) (g := fun x s => .done (f x) s)
    fun x s _ => done (f x) (Nat.le_refl s.remaining) (b - a)
  exact both.weaken (by omega) (by omega)

end Meets

/-! ## Expressions -/

namespace Stepwise

open Parse (Operand chain_shift chain_reduce chain_finished remaining_seen_skip remaining_seen_le)
open Stacks (ofWaiting)

/-- What the parser of expressions does behind a line. -/
def behindLine (last : Expression) (r : Reader) : Outcome Expression :=
  if r.peek.1.kind = .mark .semicolon then (Parse.expression r.peek.2.skip).map (.sequence last)
  else .done last r.peek.2

/-- The lines before an expression, the latest first, with semicolons behind them. -/
def inFront (earlier : List Expression) (e : Expression) : Expression :=
  earlier.foldl (fun next e => .sequence e next) e

/-- At this depth the parsers of expressions meet what they are to parse.  Each needs seven calls for a
token, and as many more as it may make before it takes one: a block calls nothing, an operand may call a
block, a line calls an operand and spends a turn on each operator, and an expression calls a line and the
loop over the lines behind it. -/
structure ExpressionsMeet (n : Nat) : Prop where
  expression : ∀ r, 7 * r.remaining + 6 ≤ n →
    Meets (expression n r) (Parse.expression r) r 6 6
  lines : ∀ earlier last r, 7 * r.remaining + 1 ≤ n →
    Meets (lines n earlier last r) ((behindLine last r).map (inFront earlier)) r 1 1
  line : ∀ r, 7 * r.remaining + 4 ≤ n → Meets (line n r) (Parse.line r) r 4 4
  loop : ∀ stack e r, (ofWaiting stack e).Ordered → 7 * r.remaining + stack.length + 1 ≤ n →
    Meets (loop n (ofWaiting stack e) r) (Parse.chain stack e r) r (stack.length + 1)
      (stack.length + 1)
  primary : ∀ r, 7 * r.remaining + 2 ≤ n → Meets (primary n r) (Parse.primary r) r 2 2
  block : ∀ r, 7 * r.remaining + 1 ≤ n → Meets (block n r) (Parse.block r) r 1 1

variable {n : Nat} {r : Reader}

theorem map_inFront_nil (o : Outcome Expression) : o.map (inFront []) = o := by
  cases o <;> rfl

/-- What stands behind a semicolon is one more line, and what is behind that. -/
theorem behindLine_of_semicolon {last : Expression} (hk : r.peek.1.kind = .mark .semicolon)
    (earlier : List Expression) :
    (behindLine last r).map (inFront earlier) = (Parse.line r.peek.2.skip).bind fun e r₁ =>
      (behindLine e r₁).map (inFront (last :: earlier)) := by
  rw [behindLine, if_pos hk, Parse.expression_eq]
  cases Parse.line r.peek.2.skip with
  | refused e s => rfl
  | done e r₁ =>
      show ((behindLine e r₁).map _).map _ = (behindLine e r₁).map _
      cases behindLine e r₁ <;> rfl

theorem meets_expression (h : ExpressionsMeet n) (hr : 7 * r.remaining + 6 ≤ n + 1) :
    Meets (expression (n + 1) r) (Parse.expression r) r 6 6 := by
  rw [expression, Parse.expression_eq]
  have rest : ∀ e r₁, r₁.remaining + 0 ≤ r.remaining →
      Meets (lines n [] e r₁) (behindLine e r₁) r₁ 1 1 := by
    intro e r₁ left
    rw [← map_inFront_nil (behindLine e r₁)]
    exact h.lines [] e r₁ (by omega)
  have parsed := (h.line r (by omega)).bindLeaves (Parse.line_leaves r) rest
  exact parsed.call (by omega) (by omega)

theorem meets_lines (h : ExpressionsMeet n) {earlier : List Expression} {last : Expression}
    (hr : 7 * r.remaining + 1 ≤ n + 1) :
    Meets (lines (n + 1) earlier last r) ((behindLine last r).map (inFront earlier)) r 1 1 := by
  rw [lines]
  split
  · rename_i hk
    have used := Reader.remaining_skip_peek (r := r) (by simp [hk])
    rw [behindLine_of_semicolon hk]
    have parsed := ((h.line r.peek.2.skip (by omega)).behind (k := 1) used).asTurn (s := r)
      fun e t hline => by
        obtain ⟨ts, -, taken⟩ := Parse.line_sound hline
        exact ⟨_, r.takes_skip_peek.trans taken, r.peek.1, by simp, by simp [hk]⟩
    have rest : ∀ e r₁, Parse.line r.peek.2.skip = .done e r₁ →
        Meets (lines n (last :: earlier) e r₁)
          ((behindLine e r₁).map (inFront (last :: earlier))) r₁ 1 1 := by
      intro e r₁ hline
      have left := Parse.remaining_of_done hline (Parse.line_leaves _)
      exact h.lines _ e r₁ (by omega)
    exact (parsed.bind rest).weaken (by omega) (by omega)
  · rename_i hk
    rw [behindLine, if_neg hk]
    exact (Meets.done _ r.remaining_peek 0).weaken (by omega) (by omega)

theorem meets_line (h : ExpressionsMeet n) (hr : 7 * r.remaining + 4 ≤ n + 1) :
    Meets (line (n + 1) r) (Parse.line r) r 4 4 := by
  rw [line, Parse.line_eq]
  have rest : ∀ e r₁, r₁.remaining + 0 ≤ r.remaining →
      Meets (loop n (.start e) r₁) (Parse.chain [] e r₁) r₁ 1 1 := by
    intro e r₁ left
    exact h.loop [] e r₁ (Stacks.ordered_start e) (by simp only [List.length_nil]; omega)
  have parsed := (h.primary r (by omega)).bindLeaves (Parse.primary_leaves r) rest
  exact parsed.call (by omega) (by omega)

theorem meets_loop (h : ExpressionsMeet n) {stack : List Waiting} {e : Expression}
    (ordered : (ofWaiting stack e).Ordered) (hr : 7 * r.remaining + stack.length + 1 ≤ n + 1) :
    Meets (loop (n + 1) (ofWaiting stack e) r) (Parse.chain stack e r) r (stack.length + 1)
      (stack.length + 1) := by
  rw [loop]
  rcases ordered.turn_cases r.peek.1.kind.lookahead with
    ⟨op, -, turn, hi, pushed⟩ | ⟨right, left, operands, op, operators, hs, -, turn, reduced⟩ |
      ⟨x, -, -, turn⟩
  · rw [turn, chain_shift turn]
    have used := remaining_seen_skip (s := ofWaiting stack e) hi
    have rest : ∀ e' r₁, r₁.remaining + 0 ≤ ((ofWaiting stack e).seen r).skip.remaining →
        Meets (loop n ((ofWaiting stack e).push op e') r₁) (Parse.chain (⟨e, op⟩ :: stack) e' r₁)
          r₁ (stack.length + 1 + 1) (stack.length + 1 + 1) := by
      intro e' r₁ left
      have looped := h.loop (⟨e, op⟩ :: stack) e' r₁ (pushed e')
        (by simp only [List.length_cons]; omega)
      push_cast [List.length_cons] at looped
      exact looped
    have parsed := ((h.primary _ (by omega)).bindLeaves (Parse.primary_leaves _) rest).behind (k := 1)
      used
    have taken : r.Takes [r.peek.1] ((ofWaiting stack e).seen r).skip :=
      r.takes_skip_note (by simp [Quiet, Event.scannedToken?, Stacks.decision])
    exact (parsed.note (x := .shift r _) ⟨_, op, TokenKind.lookahead_eq_operator_iff.1 hi, taken⟩).weaken
      (by omega) (by omega)
  · obtain ⟨stack', e', same, shorter, ended⟩ := chain_reduce turn
    have left := remaining_seen_le (ofWaiting stack e) r
    rw [same] at turn reduced
    rw [turn, ended]
    have fewer : (ofWaiting stack' e').operators.length < (ofWaiting stack e).operators.length := by
      simpa [ofWaiting] using shorter
    have parsed := (h.loop stack' e' _ reduced (by omega)).behind (k := 0) left
    exact (parsed.note (x := .reduce _ _) fewer).weaken (by omega) (by omega)
  · rw [turn, chain_finished turn]
    have parsed := Meets.done x (remaining_seen_le (ofWaiting stack e) r) 0
    exact (parsed.note (x := .finish) trivial).weaken (by omega) (by omega)

theorem meets_expectMark (m : Mark) (r : Reader) :
    Meets (expectMark m r) (FrontEnd.expectMark m r) r (-7) 0 :=
  Meets.ofOutcome (expectMark_leaves m r)

theorem meets_expectName (e : Expectation) (r : Reader) :
    Meets (expectName e r) (FrontEnd.expectName e r) r (-7) 0 :=
  Meets.ofOutcome (expectName_leaves e r)

theorem meets_declaration (r : Reader) :
    Meets (declaration r) (Parse.declaration r) r (-6) 1 := by
  have parsed := Meets.ofOutcome (Parse.declaration_leaves r)
  exact parsed.call (by omega) (by omega)

/-- Behind an opening bracket an expression is parsed, and then the closing bracket. -/
theorem meets_nested (h : ExpressionsMeet n) {s : Reader} {t : Token} (ht : t.kind ≠ .endOfFile)
    (taken : r.Takes [t] s) (used : s.remaining + 1 ≤ r.remaining)
    (hr : 7 * r.remaining ≤ n + 1) (close : Mark) :
    Meets (((expression n s).note (.nested r s)).bind fun e r₁ => (expectMark close r₁).map fun _ => e)
      ((Parse.expression s).bind fun e r₁ => (FrontEnd.expectMark close r₁).map fun _ => e) r 0 0 := by
  have inner := (h.expression s (by omega)).note (x := .nested r s) ⟨[t], taken, t, by simp, ht⟩
  have closed : ∀ e r₁, Parse.expression s = .done e r₁ →
      Meets ((expectMark close r₁).map fun _ => e) ((FrontEnd.expectMark close r₁).map fun _ => e)
        r₁ (-7) 0 :=
    fun e r₁ _ => (meets_expectMark close r₁).map _
  exact ((inner.bind closed).behind (k := 1) used).weaken (by omega) (by omega)

theorem meets_primary (h : ExpressionsMeet n) (hr : 7 * r.remaining + 2 ≤ n + 1) :
    Meets (primary (n + 1) r) (Parse.primary r) r 2 2 := by
  rw [primary, Parse.primary_eq]
  cases ho : Operand.ofToken r.peek.1 with
  | leaf e =>
      have parsed := Meets.done e r.remaining_skip_peek_le 0
      exact parsed.call (by omega) (by omega)
  | declaration =>
      have parsed := (meets_declaration r.peek.2).behind (k := 0) r.remaining_peek
      exact (parsed.map Expression.declaration).call (by omega) (by omega)
  | group =>
      have ht : r.peek.1.kind ≠ .endOfFile := by simp [Parse.operand_group ho]
      have parsed := meets_nested h ht r.takes_skip_peek (Reader.remaining_skip_peek ht) (by omega)
        .rightParen
      exact parsed.call (by omega) (by omega)
  | block =>
      have left := r.remaining_peek
      have parsed := (h.block r.peek.2 (by omega)).behind (k := 0) left
      exact (parsed.map Expression.block).call (by omega) (by omega)
  | none =>
      have parsed := Meets.done Expression.empty r.remaining_peek 0
      exact parsed.call (by omega) (by omega)

theorem meets_block (h : ExpressionsMeet n) (hr : 7 * r.remaining + 1 ≤ n + 1) :
    Meets (block (n + 1) r) (Parse.block r) r 1 1 := by
  rw [block, Parse.block_eq, expectMark]
  cases hm : FrontEnd.expectMark .leftBrace r with
  | refused e s =>
      exact (Meets.refuse e r s 0).call (by omega) (by omega)
  | done u r₁ =>
      obtain ⟨l, hl, taken⟩ := Parse.expectMark_sound hm
      have used := Parse.remaining_of_done hm (expectMark_leaves _ r)
      have parsed := meets_nested h (by simp [hl]) taken used (by omega) .rightBrace
      exact parsed.call (by omega) (by omega)

/-- **The parsers of expressions meet what they are to parse at every depth that suffices.** -/
theorem expressionsMeet (n : Nat) : ExpressionsMeet n := by
  induction n with
  | zero => constructor <;> intros <;> omega
  | succ n ih =>
      exact {
        expression := fun r => meets_expression ih
        lines := fun earlier last r => meets_lines ih
        line := fun r => meets_line ih
        loop := fun stack e r => meets_loop ih
        primary := fun r => meets_primary ih
        block := fun r => meets_block ih }

/-! ## Declarations -/

/-- What was derived and is not empty uses up a token. -/
theorem usesUp_of_derives {φ : Phrase} {ts : List Token} {s : Reader}
    (derived : Derives OpTree.Grouped φ ts) (taken : r.Takes ts s) (hne : ts ≠ []) : r.UsesUp s := by
  obtain ⟨t, rest, rfl⟩ := List.exists_cons_of_ne_nil hne
  exact ⟨_, taken, t, List.mem_cons_self, derived.ne_endOfFile t List.mem_cons_self⟩

theorem meets_argument (r : Reader) : Meets (argument r) (Parse.argument r) r (-6) 1 := by
  have parsed := Meets.ofOutcome (Parse.argument_leaves r)
  exact parsed.call (by omega) (by omega)

def argumentTurnOutcome (r : Reader) : Outcome (Argument × Bool) :=
  (Parse.argument r).bind fun a r₁ =>
    match r₁.get.1.kind with
    | .mark .comma => .done (a, true) r₁.get.2
    | .mark .rightParen => .done (a, false) r₁.get.2
    | _ => .refused ⟨.argumentEnd, r₁.get.1⟩ r₁.get.2

theorem meets_argumentTurn (r : Reader) :
    Meets (argumentTurn r) (argumentTurnOutcome r) r (-6) 1 := by
  unfold argumentTurn argumentTurnOutcome
  have rest : ∀ a r₁, Parse.argument r = .done a r₁ →
      Meets (match r₁.get.1.kind with
        | .mark .comma => Watched.done (a, true) r₁.get.2
        | .mark .rightParen => .done (a, false) r₁.get.2
        | _ => .refuse Expectation.argumentEnd.text r₁.get.1 r₁.get.2)
        (match r₁.get.1.kind with
        | .mark .comma => Outcome.done (a, true) r₁.get.2
        | .mark .rightParen => .done (a, false) r₁.get.2
        | _ => .refused ⟨.argumentEnd, r₁.get.1⟩ r₁.get.2) r₁ 0 0 := by
    intro a r₁ _
    split
    · exact .done _ r₁.remaining_get_le 0
    · exact .done _ r₁.remaining_get_le 0
    · exact .refuse ⟨.argumentEnd, r₁.get.1⟩ _ _ 0
  exact ((meets_argument r).bind rest).weaken (by omega) (by omega)

theorem usesUp_argumentTurn {x : Argument × Bool} {t : Reader}
    (h : argumentTurnOutcome r = .done x t) : r.UsesUp t := by
  obtain ⟨a, r₁, ha, h⟩ := Outcome.bind_eq_done.1 h
  obtain ⟨ts, derived, taken⟩ := Parse.argument_sound ha
  obtain ⟨us, used, y, hy, hk⟩ := usesUp_of_derives derived taken (by cases derived; simp)
  have behind : t = r₁.get.2 := by
    split at h <;> cases h <;> rfl
  rw [behind]
  exact ⟨_, used.take, y, List.mem_append_left _ hy, hk⟩

theorem argumentList_eq_turn (r : Reader) :
    Parse.argumentList r = (argumentTurnOutcome r).bind fun a r₁ =>
      if a.2 then (Parse.argumentList r₁).map (a.1 :: ·) else .done [a.1] r₁ := by
  rw [Parse.argumentList_eq, argumentTurnOutcome]
  cases Parse.argument r with
  | refused e s => rfl
  | done a r₁ =>
      simp only [Outcome.bind_done]
      split <;> simp_all

theorem meets_argumentList (n : Nat) (earlier : List Argument) (r : Reader)
    (hr : 7 * r.remaining + 1 ≤ n) :
    Meets (argumentList n earlier r) ((Parse.argumentList r).map (earlier.reverse ++ ·)) r 0 2 := by
  induction n generalizing earlier r with
  | zero => omega
  | succ n ih =>
      rw [argumentList, argumentList_eq_turn]
      have parsed := (meets_argumentTurn r).asTurn (s := r) fun x t h => usesUp_argumentTurn h
      have rest : ∀ a r₁, argumentTurnOutcome r = .done a r₁ →
          Meets (if a.2 then argumentList n (a.1 :: earlier) r₁
            else .done (a.1 :: earlier).reverse r₁)
            ((if a.2 then (Parse.argumentList r₁).map (a.1 :: ·) else .done [a.1] r₁).map
              (earlier.reverse ++ ·)) r₁ 0 2 := by
        intro a r₁ ha
        have left := (usesUp_argumentTurn ha).remaining_lt
        split
        · have more := ih (a.1 :: earlier) r₁ (by omega)
          cases hl : Parse.argumentList r₁ <;> simpa [hl] using more
        · have last := Meets.done (a.1 :: earlier).reverse (Nat.le_refl r₁.remaining) 2
          simpa using last
      have all := (parsed.bind rest).weaken (show _ ≤ (0 : Int) by omega)
        (show _ ≤ (2 : Int) by omega)
      cases ht : argumentTurnOutcome r <;> simpa [ht] using all

theorem meets_arguments (n : Nat) (r : Reader) (hr : 7 * r.remaining + 1 ≤ n) :
    Meets (arguments n r) (Parse.arguments r) r 0 2 := by
  unfold arguments Parse.arguments
  split
  · exact .done _ r.remaining_skip_peek_le 2
  · have left := r.remaining_peek
    have parsed := (meets_argumentList n [] r.peek.2 (by omega)).behind (k := 0) left
    cases h : Parse.argumentList r.peek.2 <;> simpa [h] using parsed

/-- Behind its first token a function is parsed in at most so many steps. -/
theorem meets_function (hr : 7 * r.remaining + 1 ≤ n) :
    Meets (function n r) (Parse.function r) r (-12) 1 := by
  obtain ⟨n, rfl⟩ : ∃ m, n = m + 1 := ⟨n - 1, by omega⟩
  rw [function]
  unfold Parse.function
  have start : r.skip.remaining ≤ r.remaining := r.remaining_get_le
  have body : ∀ r₅, 7 * r₅.remaining + 1 ≤ n → Meets (block n r₅) (Parse.block r₅) r₅ 1 1 :=
    (expressionsMeet n).block
  have parsed := (meets_expectName .functionName r.skip).bindLeaves (expectName_leaves _ _)
    fun name r₁ h₁ => (meets_expectMark .leftParen r₁).bindLeaves (expectMark_leaves _ _)
    fun _ r₂ h₂ => (meets_arguments n r₂ (by omega)).bindLeaves (Parse.arguments_leaves _)
    fun args r₃ h₃ => (meets_expectMark .arrow r₃).bindLeaves (expectMark_leaves _ _)
    fun _ r₄ h₄ => (meets_expectName .returnType r₄).bindLeaves (expectName_leaves _ _)
    fun returnType r₅ h₅ => (body r₅ (by omega)).map fun body =>
      FunctionDecl.mk name args returnType body
  exact (parsed.behind (k := 0) start).call (by omega) (by omega)

/-- At this depth the parsers of declarations meet what they are to parse.  A declaration that is parsed
saves more than a turn of the loop around it spends. -/
structure ItemsMeet (n : Nat) : Prop where
  item : ∀ r, 7 * r.remaining + 2 ≤ n → Meets (item n r) (Parse.item r) r (-11) 2
  module : ∀ r, 7 * r.remaining + 1 ≤ n → Meets (module n r) (Parse.module r) r (-12) 1
  items : ∀ stop earlier r, 7 * r.remaining + 3 ≤ n →
    Meets (items n stop earlier r) ((Parse.items stop r).map (earlier.reverse ++ ·)) r 0 3

theorem meets_item (h : ItemsMeet n) (hr : 7 * r.remaining + 2 ≤ n + 1) :
    Meets (item (n + 1) r) (Parse.item r) r (-11) 2 := by
  have left := r.remaining_peek
  rw [item, Parse.item_eq]
  cases hi : Parse.Introducer.ofToken r.peek.1 with
  | module =>
      have parsed := (h.module r.peek.2 (by omega)).behind (k := 0) left
      exact (parsed.map fun m => Item.module m.1 m.2).call (by omega) (by omega)
  | function =>
      have parsed := (meets_function (n := n) (r := r.peek.2) (by omega)).behind (k := 0) left
      exact (parsed.map Item.function).call (by omega) (by omega)
  | none =>
      have refused := Meets.refuse (α := Item) ⟨.topLevel, r.peek.1⟩ r r.peek.2 (-12)
      exact refused.call (by omega) (by omega)

theorem map_reverse_nil (o : Outcome (List Item)) : o.map (([] : List Item).reverse ++ ·) = o := by
  cases o <;> rfl

theorem meets_module (h : ItemsMeet n) (hr : 7 * r.remaining + 1 ≤ n + 1) :
    Meets (module (n + 1) r) (Parse.module r) r (-12) 1 := by
  rw [module, Parse.module_eq]
  have start : r.skip.remaining ≤ r.remaining := r.remaining_get_le
  have inside : ∀ r₂, 7 * r₂.remaining + 3 ≤ n →
      Meets (items n (.mark .rightBrace) [] r₂) (Parse.items (.mark .rightBrace) r₂) r₂ 0 3 := by
    intro r₂ hr₂
    rw [← map_reverse_nil (Parse.items _ r₂)]
    exact h.items _ [] r₂ hr₂
  have parsed := (meets_expectName .moduleName r.skip).bindLeaves (expectName_leaves _ _)
    fun name r₁ h₁ => (meets_expectMark .leftBrace r₁).bindLeaves (expectMark_leaves _ _)
    fun _ r₂ h₂ => (inside r₂ (by omega)).bind
    fun is r₃ _ => Meets.done (name, is) (r := r₃) r₃.remaining_get_le 3
  exact (parsed.behind (k := 0) start).call (by omega) (by omega)

theorem usesUp_item {i : Item} {s : Reader} (h : Parse.item r.peek.2 = .done i s) : r.UsesUp s := by
  obtain ⟨ts, derived, taken⟩ := Parse.item_sound h
  refine usesUp_of_derives derived (r.takes_peek.trans taken) ?_
  cases derived with
  | functionItem derived => cases derived; simp
  | module => simp

theorem meets_items (h : ItemsMeet n) {stop : TokenKind} {earlier : List Item}
    (hr : 7 * r.remaining + 3 ≤ n + 1) :
    Meets (items (n + 1) stop earlier r) ((Parse.items stop r).map (earlier.reverse ++ ·)) r 0 3 := by
  have left := r.remaining_peek
  rw [items, Parse.items_eq]
  split
  · have stopped := Meets.done earlier.reverse left 3
    simpa using stopped
  · have parsed := ((h.item r.peek.2 (by omega)).behind (k := 0) left).asTurn (s := r)
      fun i s hi => usesUp_item hi
    have rest : ∀ i r₁, Parse.item r.peek.2 = .done i r₁ →
        Meets (items n stop (i :: earlier) r₁)
          (((Parse.items stop r₁).map (i :: ·)).map (earlier.reverse ++ ·)) r₁ 0 3 := by
      intro i r₁ hi
      have fewer := (usesUp_item hi).remaining_lt
      have more := h.items stop (i :: earlier) r₁ (by omega)
      cases hs : Parse.items stop r₁ <;> simpa [hs] using more
    have all := (parsed.bind rest).weaken (show _ ≤ (0 : Int) by omega) (show _ ≤ (3 : Int) by omega)
    cases hi : Parse.item r.peek.2 <;> simpa [hi] using all

/-- **The parsers of declarations meet what they are to parse at every depth that suffices.** -/
theorem itemsMeet (n : Nat) : ItemsMeet n := by
  induction n with
  | zero => constructor <;> intros <;> omega
  | succ n ih =>
      exact {
        item := fun r => meets_item ih
        module := fun r => meets_module ih
        items := fun stop earlier r => meets_items ih }

end Stepwise

/-! ## Every entry -/

theorem Entry.meets_watch (entry : Entry) {r : Reader} {n : Nat} (hr : 7 * r.remaining + 6 ≤ n) :
    Meets (entry.watch n r) (entry.parse r) r 6 6 := by
  have declarations := Stepwise.itemsMeet n
  have expressions := Stepwise.expressionsMeet n
  cases entry with
  | program =>
      have parsed := declarations.items .endOfFile [] r (by omega)
      rw [Stepwise.map_reverse_nil] at parsed
      have called : Meets (Stepwise.program n r) (Parse.program r) r 6 6 :=
        parsed.call (by omega) (by omega)
      exact called.map Parsed.program
  | item => exact ((declarations.item r (by omega)).map Parsed.item).weaken (by omega) (by omega)
  | module =>
      exact ((declarations.module r (by omega)).map fun m => Parsed.item (.module m.1 m.2)).weaken
        (by omega) (by omega)
  | function =>
      have parsed := Stepwise.meets_function (n := n) (r := r) (by omega)
      exact (parsed.map fun f => Parsed.item (.function f)).weaken (by omega) (by omega)
  | argument => exact ((Stepwise.meets_argument r).map Parsed.argument).weaken (by omega) (by omega)
  | block =>
      exact ((expressions.block r (by omega)).map fun e => Parsed.expression (.block e)).weaken
        (by omega) (by omega)
  | expression =>
      exact ((expressions.expression r hr).map Parsed.expression).weaken (by omega) (by omega)
  | line => exact ((expressions.line r (by omega)).map Parsed.expression).weaken (by omega) (by omega)
  | primary =>
      exact ((expressions.primary r (by omega)).map Parsed.expression).weaken (by omega) (by omega)
  | declaration =>
      exact ((Stepwise.meets_declaration r).map fun d => Parsed.expression (.declaration d)).weaken
        (by omega) (by omega)

/-- **Every parse ends.**  With a depth of seven calls for each token that is left, and six more, or with any
greater depth, no call is too deep: the parser of an entry ends as the entry does, with a tree or with an
error.  It takes no more steps than this either.  Each turn of a loop over declarations, arguments or lines
uses up a token other than the end of the file or ends the parse with an error, each nested expression
begins behind such a token, and each turn in a line takes an operator, makes the stack of operators shorter,
or ends the line.

The steps are all there: the first is the call of the entry, and of the calls that follow each expression
stands behind an opening bracket, each operand in a line or behind an operator, and each line, declaration or
argument in an expression or a turn; behind a success each line has ended, and what was shifted is reduced.
And the depth is spent: no entry succeeds with less than what its blocks and modules take. -/
theorem Entry.watch_ends (entry : Entry) (r : Reader) (more : Nat) :
    let m := entry.watch (7 * r.remaining + 6 + more) r
    m.ending = .ofOutcome (entry.parse r) ∧ m.stages.length ≤ 7 * r.remaining + 6 ∧
      (∀ x ∈ m.stages, x.Advances (∃ e s, entry.parse r = .refused e s)) ∧
      m.stages.head? = some (.call entry) ∧ Stage.Accounted entry m.stages ∧
      (∀ v s, entry.parse r = .done v s →
        Stage.count .finish m.stages = Stage.count (.call .line) m.stages ∧
        Stage.count .reduce m.stages = Stage.count .shift m.stages) ∧
      ∀ n v s, (entry.watch n r).ending = .done v s → v.levels ≤ n := by
  have met := entry.meets_watch (r := r) (n := 7 * r.remaining + 6 + more) (by omega)
  have finite : (entry.watch (7 * r.remaining + 6 + more) r).ending ≠ .exhausted := by
    rw [met.ending]
    cases entry.parse r <;> simp [Ending.ofOutcome]
  refine ⟨met.ending, ?_, met.advances, watch_head finite, watch_accounted finite, fun v s parsed => ?_,
    fun n v s => levels_le_depth⟩
  · have cost := met.cost
    cases h : entry.parse r <;> simp only [h, Outcome.allowance] at cost <;> omega
  · have ending := met.ending
    rw [parsed] at ending
    exact watch_settled ending

/-! ## The stacks of a line -/

/-- No wording of what is expected is the one for stacks that are not as they should be. -/
theorem Expectation.text_ne_expression (e : Expectation) : e.text ≠ "expression" := by
  cases e with
  | mark m => cases m <;> decide
  | _ => decide

/-- An outcome never refuses a token for an expression. -/
theorem Ending.expected_ne_expression {α : Type} {o : Outcome α} {expected : String} {found : Token}
    {s : Reader} (h : Ending.ofOutcome o = .refused expected found s) : expected ≠ "expression" := by
  cases o with
  | done a r => cases h
  | refused e r =>
      cases h
      exact e.expected.text_ne_expression

/-- **The stacks of a line are in order.**  Whenever its loop comes to its head there are as many operands as
operators and one at least, the floor is at the bottom and nowhere else, and the strengths rise but for
assignments above each other.  So a reduction finds two operands and an operator, the end finds one operand,
and no turn is stuck.  A parsed line has as many reductions as shifts, at no time more, and its end comes
last and once.  So no entry, watched or not, refuses a token for an expression. -/
theorem Parse.line_disciplined (r : Reader) :
    (∀ s q actions, Loop r s q actions →
      s.Ordered ∧ 1 ≤ s.operands.length ∧ s.turn q.peek.1.kind.lookahead ≠ .stuck ∧
      (s.action q.peek.1.kind.lookahead = .reduce → ∃ right left operands op operators,
        s = ⟨right :: left :: operands, .operator op :: operators⟩) ∧
      (s.action q.peek.1.kind.lookahead = .accept → ∃ e, s.operands = [e])) ∧
    (∀ e t, line r = .done e t → ∃ s q actions, Loop r s q actions ∧
      s.turn q.peek.1.kind.lookahead = .finished e ∧ t = s.seen q ∧
      s.action q.peek.1.kind.lookahead = .accept ∧ .accept ∉ actions ∧
      reductions (actions ++ [.accept]) = shifts (actions ++ [.accept]) ∧
      Ahead (actions ++ [.accept])) ∧
    ∀ (entry : Entry) (more : Nat),
      (entry.watch (7 * r.remaining + 6 + more) r).ending = .ofOutcome (entry.parse r) ∧
      (∀ expected found s, (entry.watch (7 * r.remaining + 6 + more) r).ending =
        .refused expected found s → expected ≠ "expression") ∧
      ∀ e s, entry.parse r = .refused e s → e.expected.text ≠ "expression" := by
  refine ⟨fun s q actions h => ?_, fun e t ended => ?_, fun entry more => ?_⟩
  · refine ⟨h.ordered, h.ordered.length_pos, ?_⟩
    rcases h.ordered.turn_cases q.peek.1.kind.lookahead with
      ⟨op, decided, turn, -⟩ | ⟨right, left, operands, op, operators, hs, decided, turn, -⟩ |
        ⟨e, rfl, decided, turn⟩
    · simp [decided, turn]
    · rw [turn, decided]
      exact ⟨by simp, fun _ => ⟨right, left, operands, op, operators, hs⟩, by simp⟩
    · rw [turn, decided]
      exact ⟨by simp, by simp, fun _ => ⟨e, rfl⟩⟩
  · obtain ⟨s, q, actions, loop, turn, rfl⟩ := (line_loop r).1 e t ended
    obtain ⟨balance, ahead, unfinished⟩ := loop.balance
    have one : s.operands.length = 1 := by rw [loop.ordered.of_finished turn]; rfl
    have even : reductions (actions ++ [.accept]) = shifts (actions ++ [.accept]) := by
      simp only [reductions, shifts, List.countP_append] at balance ⊢
      simp
      omega
    exact ⟨s, q, actions, loop, turn, rfl, Stacks.action_of_finished turn, unfinished, even,
      ahead.concat (Nat.le_of_eq even)⟩
  · have ending := (entry.meets_watch (r := r) (n := 7 * r.remaining + 6 + more) (by omega)).ending
    refine ⟨ending, fun expected found s refused => ?_, fun e s _ => e.expected.text_ne_expression⟩
    rw [ending] at refused
    exact Ending.expected_ne_expression refused

end FrontEnd
