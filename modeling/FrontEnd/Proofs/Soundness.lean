import FrontEnd.Proofs.Grammar
import FrontEnd.Proofs.Precedence
import FrontEnd.Proofs.Reading

/-!
# What the parsers accept

Each parser that succeeds has taken tokens that its phrase derives, and nothing else.

* `expectMark_sound`, `expectName_sound` — the two ways to take one token.
* `expression_sound` and its companions — the parsers of expressions.
* `item_sound` and its companions — the parsers of declarations.  A module or a function takes its
  first token unseen, whatever it is (`module_taken`, `function_taken`); the keyword that is derived
  there is the one at which `item` has looked.  The token that ends a list of declarations is only
  looked at.
-/

namespace FrontEnd

namespace Outcome

variable {α β : Type}

theorem bind_eq_done {o : Outcome α} {f : α → Reader → Outcome β} {b : β} {s : Reader} :
    o.bind f = .done b s ↔ ∃ a r, o = .done a r ∧ f a r = .done b s := by
  cases o with
  | done a r => simp
  | refused e r => simp

theorem map_eq_done {o : Outcome α} {f : α → β} {b : β} {s : Reader} :
    o.map f = .done b s ↔ ∃ a, o = .done a s ∧ f a = b := by
  cases o with
  | done a r => simp [and_comm]
  | refused e r => simp

end Outcome

open Outcome (bind_eq_done map_eq_done)

namespace Parse

variable {r s : Reader}

theorem expectMark_sound {m : Mark} {u : Unit} (h : expectMark m r = .done u s) :
    ∃ t : Token, t.kind = .mark m ∧ r.Takes [t] s := by
  unfold expectMark at h
  split at h
  · rename_i hk
    cases h
    exact ⟨r.get.1, hk, r.takes_get⟩
  · cases h

theorem expectName_sound {e : Expectation} {name : String} (h : expectName e r = .done name s) :
    r.Takes [nameToken name] s := by
  unfold expectName at h
  split at h
  · rename_i name' hn
    cases h
    have := r.takes_get
    rwa [Token.identifier?_eq_some_iff.1 hn] at this
  · cases h

/-- The first token of a variable declaration decides whether the variable is mutable, and nothing else:
with each keyword that decides the same in its place the tokens are derived. -/
theorem declaration_taken {d : VariableDecl} (h : declaration r = .done d s) :
    ∃ ts, r.Takes (r.get.1 :: ts) s ∧ ∀ k : Keyword, k.declares →
      (r.get.1.keyword? == some .kwVar) = (k == .kwVar) →
      Derives OpTree.Grouped (.primary (.declaration d)) (nameToken k.text :: ts) := by
  unfold declaration at h
  obtain ⟨name, r₁, hname, h⟩ := bind_eq_done.1 h
  have h1 := r.takes_get.trans (expectName_sound hname)
  split at h
  · rename_i hc
    obtain ⟨type, htype, rfl⟩ := map_eq_done.1 h
    refine ⟨_, (h1.trans r₁.takes_skip_peek).trans (expectName_sound htype), fun k hd hm => ?_⟩
    rw [hm]
    exact .typedDeclaration hd hc
  · cases h
    refine ⟨_, h1.look, fun k hd hm => ?_⟩
    rw [hm]
    exact .declaration hd

theorem declaration_sound {d : VariableDecl} (h : declaration r = .done d s)
    {k : Keyword} (hk : r.get.1 = nameToken k.text) (hd : k.declares) :
    ∃ ts, Derives OpTree.Grouped (.primary (.declaration d)) ts ∧ r.Takes ts s := by
  obtain ⟨ts, taken, derived⟩ := declaration_taken h
  have isMutable : (r.get.1.keyword? == some .kwVar) = (k == .kwVar) := by
    rw [Token.keyword?_eq_some_iff.2 hk]
    rfl
  exact ⟨_, derived k hd isMutable, hk ▸ taken⟩

theorem operand_leaf {t : Token} {e : Expression} (h : Operand.ofToken t = .leaf e) :
    Derives OpTree.Grouped (.primary e) [t] := by
  obtain ⟨kind, text⟩ := t
  cases kind with
  | identifier =>
      unfold Operand.ofToken at h
      dsimp only at h
      split at h
      · cases h
      · cases h
      · rename_i h1 h2
        cases h
        refine .identifier fun k hk he => ?_
        rcases hk with rfl | rfl
        · exact h1 (Token.keyword?_eq_some_iff.2 (by rw [he]))
        · exact h2 (Token.keyword?_eq_some_iff.2 (by rw [he]))
  | number =>
      cases h
      exact .number
  | string =>
      cases h
      exact .string
  | char =>
      cases h
      exact .char
  | mark m => cases m <;> cases h
  | _ => cases h

theorem operand_declaration {t : Token} (h : Operand.ofToken t = .declaration) :
    ∃ k : Keyword, k.declares ∧ t = nameToken k.text := by
  unfold Operand.ofToken at h
  split at h
  · split at h
    · rename_i hk
      exact ⟨_, Or.inl rfl, Token.keyword?_eq_some_iff.1 hk⟩
    · rename_i hk
      exact ⟨_, Or.inr rfl, Token.keyword?_eq_some_iff.1 hk⟩
    · cases h
  all_goals cases h

theorem operand_group {t : Token} (h : Operand.ofToken t = .group) : t.kind = .mark .leftParen := by
  unfold Operand.ofToken at h
  split at h
  · split at h <;> cases h
  all_goals first | assumption | cases h

/-- A successful parser leaves as many tokens as its bound says. -/
theorem remaining_of_done {α : Type} {o : Outcome α} {a : α} {k n : Nat} (h : o = .done a s)
    (hl : o.Leaves k n) : s.remaining + k ≤ n := by
  subst h
  exact hl

mutual

theorem expression_sound {r s : Reader} {e : Expression} (h : expression r = .done e s) :
    ∃ ts, Derives OpTree.Grouped (.expression e) ts ∧ r.Takes ts s := by
  rw [expression_eq] at h
  obtain ⟨first, r₁, hline, h⟩ := bind_eq_done.1 h
  have hle := remaining_of_done hline (line_leaves r)
  obtain ⟨ts, hts, h1⟩ := line_sound hline
  split at h
  · rename_i hk
    have hlt := Reader.remaining_skip_peek (r := r₁) (by simp [hk])
    obtain ⟨next, hnext, rfl⟩ := map_eq_done.1 h
    obtain ⟨us, hus, h2⟩ := expression_sound hnext
    exact ⟨_, .sequence hts hk hus, h1.trans (r₁.takes_skip_peek.trans h2)⟩
  · cases h
    exact ⟨ts, .lastLine hts, h1.look⟩
termination_by 4 * r.remaining + 3

theorem line_sound {r s : Reader} {e : Expression} (h : line r = .done e s) :
    ∃ ts, Derives OpTree.Grouped (.line e) ts ∧ r.Takes ts s := by
  have hline := h
  rw [line_eq] at h
  obtain ⟨first, r₁, hp, hc⟩ := bind_eq_done.1 h
  have hle := remaining_of_done hp (primary_leaves r)
  obtain ⟨ts, hts, h1⟩ := primary_sound hp
  obtain ⟨ops, r₂, us, ho, hus, h2⟩ := chain_sound hc
  obtain ⟨t, s', rfl, rfl, g, htree, -⟩ := line_of_operands hp ho
  rw [htree] at hline
  cases hline
  exact ⟨_, .line hts hus g, h1.trans h2⟩
termination_by 4 * r.remaining + 2

/-- The loop of the precedence parser takes operators and operands, and nothing else. -/
theorem chain_sound {r s : Reader} {stack : List Waiting} {e x : Expression}
    (h : chain stack e r = .done x s) :
    ∃ ops r₂ ts, Operands r ops r₂ ∧ Derives OpTree.Grouped (.operands ops) ts ∧ r.Takes ts s := by
  rw [chain_eq] at h
  dsimp only at h
  have quiet := quiet_decisions r.peek.1.kind.lookahead stack e
  split at h
  · rename_i hk
    cases h
    exact ⟨[], r, [], .nil hk, .noOperands, r.takes_peek.note quiet⟩
  · rename_i op hk
    have kind := TokenKind.lookahead_eq_operator_iff.1 hk
    have hlt := Reader.remaining_skip_peek (r := r) (by simp [kind])
    obtain ⟨e', r₁, hp, h⟩ := bind_eq_done.1 h
    have hle := remaining_of_done hp (primary_leaves _)
    have : r₁.remaining < r.remaining := by simp at hle; omega
    obtain ⟨ts, hts, h1⟩ := primary_sound hp
    obtain ⟨ops, r₂, us, ho, hus, h2⟩ := chain_sound h
    -- the operands are read off a reader that notes nothing
    obtain ⟨s₁, hp', hs₁⟩ := (primary_congr (s := r.peek.2.skip) (by simp)).exists_done hp
    obtain ⟨s₂, ho', -⟩ := ho.congr hs₁.symm
    exact ⟨(op, e') :: ops, s₂, _, .cons hk hp' ho', .moreOperands kind hts hus,
      (r.takes_skip_note quiet).trans (h1.trans h2)⟩
termination_by 4 * r.remaining
decreasing_by all_goals simp; omega

theorem primary_sound {r s : Reader} {e : Expression} (h : primary r = .done e s) :
    ∃ ts, Derives OpTree.Grouped (.primary e) ts ∧ r.Takes ts s := by
  rw [primary_eq] at h
  split at h
  · rename_i ho
    cases h
    exact ⟨_, operand_leaf ho, r.takes_skip_peek⟩
  · rename_i ho
    obtain ⟨k, hd, hk⟩ := operand_declaration ho
    obtain ⟨d, hdecl, rfl⟩ := map_eq_done.1 h
    obtain ⟨ts, hts, h1⟩ := declaration_sound hdecl (by rw [r.get_peek]; exact hk) hd
    exact ⟨ts, hts, r.takes_peek.trans h1⟩
  · rename_i ho
    have hlt := Reader.remaining_skip_peek (r := r) fun e => by
      simp [Operand.ofToken_endOfFile e] at ho
    obtain ⟨inner, r₁, hinner, h⟩ := bind_eq_done.1 h
    obtain ⟨u, hm, rfl⟩ := map_eq_done.1 h
    obtain ⟨ts, hts, h1⟩ := expression_sound hinner
    obtain ⟨t, ht, h2⟩ := expectMark_sound hm
    exact ⟨_, .group (operand_group ho) hts ht, r.takes_skip_peek.trans (h1.trans h2)⟩
  · obtain ⟨inner, hblock, rfl⟩ := map_eq_done.1 h
    have hle := r.remaining_peek
    obtain ⟨ts, hts, h1⟩ := block_sound hblock
    exact ⟨ts, .blockOperand hts, r.takes_peek.trans h1⟩
  · cases h
    exact ⟨[], .empty, r.takes_peek⟩
termination_by 4 * r.remaining + 1

theorem block_sound {r s : Reader} {e : Expression} (h : block r = .done e s) :
    ∃ ts, Derives OpTree.Grouped (.block e) ts ∧ r.Takes ts s := by
  rw [block_eq] at h
  obtain ⟨u, r₁, hl, h⟩ := bind_eq_done.1 h
  obtain ⟨inner, r₂, hinner, h⟩ := bind_eq_done.1 h
  obtain ⟨u', hr, rfl⟩ := map_eq_done.1 h
  have hle := remaining_of_done hl (expectMark_leaves _ r)
  obtain ⟨l, hl', h1⟩ := expectMark_sound hl
  obtain ⟨ts, hts, h2⟩ := expression_sound hinner
  obtain ⟨t, hr', h3⟩ := expectMark_sound hr
  exact ⟨_, .block hl' hts hr', h1.trans (h2.trans h3)⟩
termination_by 4 * r.remaining

end

/-! ## Declarations -/

theorem argument_sound {a : Argument} (h : argument r = .done a s) :
    ∃ ts, Derives OpTree.Grouped (.argument a) ts ∧ r.Takes ts s := by
  unfold argument at h
  obtain ⟨name, r₁, hname, h⟩ := bind_eq_done.1 h
  obtain ⟨u, r₂, hc, h⟩ := bind_eq_done.1 h
  obtain ⟨type, htype, rfl⟩ := map_eq_done.1 h
  obtain ⟨c, hc', h2⟩ := expectMark_sound hc
  exact ⟨_, .argument hc', (expectName_sound hname).trans (h2.trans (expectName_sound htype))⟩

theorem argumentList_sound {r s : Reader} {args : List Argument}
    (h : argumentList r = .done args s) :
    ∃ ts t, Derives OpTree.Grouped (.argumentList args) ts ∧
      t.kind = .mark .rightParen ∧ r.Takes (ts ++ [t]) s := by
  rw [argumentList_eq] at h
  obtain ⟨a, r₁, ha, h⟩ := bind_eq_done.1 h
  have hle := remaining_of_done ha (argument_leaves r)
  have := r₁.remaining_get_le
  obtain ⟨ts, hts, h1⟩ := argument_sound ha
  split at h
  · rename_i hk
    obtain ⟨rest, hrest, rfl⟩ := map_eq_done.1 h
    obtain ⟨us, t, hus, ht, h2⟩ := argumentList_sound hrest
    refine ⟨_, t, .moreArguments hts hk hus, ht, ?_⟩
    simpa using h1.trans (r₁.takes_get.trans h2)
  · rename_i hk
    cases h
    exact ⟨ts, r₁.get.1, .lastArgument hts, hk, h1.take⟩
  · cases h
termination_by r.remaining

theorem arguments_sound {args : List Argument} (h : arguments r = .done args s) :
    ∃ ts t, Derives OpTree.Grouped (.arguments args) ts ∧
      t.kind = .mark .rightParen ∧ r.Takes (ts ++ [t]) s := by
  unfold arguments at h
  split at h
  · rename_i hk
    cases h
    exact ⟨[], r.peek.1, .noArguments, hk, r.takes_skip_peek⟩
  · obtain ⟨ts, t, hts, ht, h1⟩ := argumentList_sound h
    exact ⟨ts, t, .someArguments hts, ht, r.takes_peek.trans h1⟩

/-- The first token of a function is taken unseen; with the keyword in its place the tokens are
derived. -/
theorem function_taken {f : FunctionDecl} (h : function r = .done f s) :
    ∃ ts, Derives OpTree.Grouped (.function f) (nameToken Keyword.kwFn.text :: ts) ∧
      r.Takes (r.get.1 :: ts) s := by
  unfold function at h
  obtain ⟨name, r₁, hname, h⟩ := bind_eq_done.1 h
  obtain ⟨u, r₂, hl, h⟩ := bind_eq_done.1 h
  obtain ⟨args, r₃, hargs, h⟩ := bind_eq_done.1 h
  obtain ⟨u', r₄, ha, h⟩ := bind_eq_done.1 h
  obtain ⟨type, r₅, htype, h⟩ := bind_eq_done.1 h
  obtain ⟨body, hbody, rfl⟩ := map_eq_done.1 h
  obtain ⟨l, hl', h2⟩ := expectMark_sound hl
  obtain ⟨ts, t, hts, ht, h3⟩ := arguments_sound hargs
  obtain ⟨a, ha', h4⟩ := expectMark_sound ha
  obtain ⟨us, hus, h5⟩ := block_sound hbody
  refine ⟨_, .function hl' hts ht ha' hus, ?_⟩
  have head : r.Takes [r.get.1, nameToken name, l] r₂ :=
    r.takes_get.trans ((expectName_sound hname).trans h2)
  simpa using head.trans (h3.trans (h4.trans ((expectName_sound htype).trans h5)))

theorem introducer_module {t : Token} (h : Introducer.ofToken t = .module) :
    t = nameToken Keyword.kwModule.text := by
  unfold Introducer.ofToken at h
  split at h
  · rename_i hk
    exact Token.keyword?_eq_some_iff.1 hk
  all_goals cases h

theorem introducer_function {t : Token} (h : Introducer.ofToken t = .function) :
    t = nameToken Keyword.kwFn.text := by
  unfold Introducer.ofToken at h
  split at h
  · cases h
  · rename_i hk
    exact Token.keyword?_eq_some_iff.1 hk
  · cases h

theorem item_leaves (r : Reader) : (item r).Leaves 1 r.remaining := (Bounded.item r).leaves

mutual

theorem item_sound {r s : Reader} {i : Item} (h : item r = .done i s) :
    ∃ ts, Derives OpTree.Grouped (.item i) ts ∧ r.Takes ts s := by
  rw [item_eq] at h
  split at h
  · rename_i hi
    have hle := r.remaining_peek
    obtain ⟨m, hm, rfl⟩ := map_eq_done.1 h
    obtain ⟨ts, hts, h1⟩ := module_taken hm
    have head : r.get.1 = nameToken _ := introducer_module hi
    rw [r.get_peek, head] at h1
    exact ⟨_, hts, r.takes_peek.trans h1⟩
  · rename_i hi
    obtain ⟨f, hf, rfl⟩ := map_eq_done.1 h
    obtain ⟨ts, hts, h1⟩ := function_taken hf
    have head : r.get.1 = nameToken _ := introducer_function hi
    rw [r.get_peek, head] at h1
    exact ⟨_, .functionItem hts, r.takes_peek.trans h1⟩
  · cases h
termination_by 3 * r.remaining + 1

theorem module_taken {r s : Reader} {m : String × List Item} (h : module r = .done m s) :
    ∃ ts, Derives OpTree.Grouped (.item (.module m.1 m.2))
        (nameToken Keyword.kwModule.text :: ts) ∧
      r.Takes (r.get.1 :: ts) s := by
  rw [module_eq] at h
  obtain ⟨name, r₁, hname, h⟩ := bind_eq_done.1 h
  obtain ⟨u, r₂, hl, h⟩ := bind_eq_done.1 h
  obtain ⟨is, r₃, his, h⟩ := bind_eq_done.1 h
  cases h
  have hskip : r.skip.remaining ≤ r.remaining := r.remaining_get_le
  have hle := remaining_of_done hname (expectName_leaves _ _)
  have hle' := remaining_of_done hl (expectMark_leaves _ _)
  obtain ⟨l, hl', h2⟩ := expectMark_sound hl
  obtain ⟨ts, q, hts, h3, stop, rfl⟩ := items_sound his
  have head : r.Takes [r.get.1, nameToken name, l] r₂ :=
    r.takes_get.trans ((expectName_sound hname).trans h2)
  exact ⟨_, .module hl' hts stop, head.trans (h3.trans q.takes_skip_peek)⟩
termination_by 3 * r.remaining

theorem items_sound {r s : Reader} {stop : TokenKind} {is : List Item}
    (h : items stop r = .done is s) :
    ∃ ts q, Derives OpTree.Grouped (.items is) ts ∧ r.Takes ts q ∧ q.peek.1.kind = stop ∧
      s = q.peek.2 := by
  rw [items_eq] at h
  split at h
  · rename_i hk
    cases h
    exact ⟨[], r, .noItems, .here, hk, rfl⟩
  · obtain ⟨i, r₁, hi, h⟩ := bind_eq_done.1 h
    obtain ⟨rest, hrest, rfl⟩ := map_eq_done.1 h
    have hpeek := r.remaining_peek
    have hle := remaining_of_done hi (item_leaves _)
    obtain ⟨ts, hts, h1⟩ := item_sound hi
    obtain ⟨us, q, hus, h2, h3, h4⟩ := items_sound hrest
    exact ⟨_, q, .moreItems hts hus, r.takes_peek.trans (h1.trans h2), h3, h4⟩
termination_by 3 * r.remaining + 2

end

end Parse

end FrontEnd
