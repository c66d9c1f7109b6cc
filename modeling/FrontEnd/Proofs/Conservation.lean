import FrontEnd.Proofs.EarliestError

/-!
# No token is lost

A reader holds back one token at most.  Whatever a parser does with it, the tokens that it has taken and
those that are still to come make up the tokens that there were.

* `Reader.held`, `Reader.Consumes` — from one reader to another some tokens were taken from the front of
  the stream, and what was scanned for this is what was taken and is held back now.
* `Entry.Reads` — the tokens that the production of an entry derives for a tree.
* `Outcome.Accounts` — a success has taken tokens and no more; a refusal stops at the refused token, which
  stays only where a declaration should have begun.  `Accounts.consumes` reads off that nothing is lost,
  and `expression_accounts` and its companions say of every parser that it accounts for its tokens.
* `Entry.parse_consumes` — what every entry takes from any reader.
* `Session.runAll_consumes` — the entries of a session take one token behind the other, errors or not.
-/

namespace FrontEnd

open Parse
open Stream' (append_append_stream)

namespace Reader

/-- The token that is handed out again, if there is one. -/
def held (r : Reader) : List Token := if r.pending then [r.last] else []

theorem stream_eq_held (r : Reader) : r.stream = r.held ++ₛ r.unread := append_append_stream _ _ _

/-- The reader `r` hands out `ts` and becomes `s`.  Together with what was held back before, the tokens
scanned meanwhile are those handed out and the one held back now. -/
structure Consumes (r : Reader) (ts : List Token) (s : Reader) : Prop where
  stream : r.stream = ts ++ₛ s.stream
  scanned : ∃ new : List Token, r.held ++ new = ts ++ s.held ∧ r.unread = new ++ₛ s.unread ∧
    s.log.scanned = r.log.scanned ++ new

variable {r q s : Reader} {ts us : List Token}

/-- What was scanned determines what is left of the stream. -/
theorem Consumes.of_scanned (new : List Token) (held : r.held ++ new = ts ++ s.held)
    (unread : r.unread = new ++ₛ s.unread) (log : s.log.scanned = r.log.scanned ++ new) :
    r.Consumes ts s := by
  refine ⟨?_, new, held, unread, log⟩
  rw [stream_eq_held, stream_eq_held, unread, ← append_append_stream, held, append_append_stream]

theorem Consumes.refl (r : Reader) : r.Consumes [] r :=
  .of_scanned [] (List.append_nil _) rfl (List.append_nil _).symm

theorem Consumes.trans (h : r.Consumes ts q) (h' : q.Consumes us s) : r.Consumes (ts ++ us) s := by
  obtain ⟨-, new, held, unread, log⟩ := h
  obtain ⟨-, new', held', unread', log'⟩ := h'
  refine .of_scanned (new ++ new') ?_ ?_ ?_
  · rw [← List.append_assoc, held, List.append_assoc, held', List.append_assoc]
  · rw [unread, unread', append_append_stream]
  · rw [log', log, List.append_assoc]

theorem consumes_get (r : Reader) : r.Consumes [r.get.1] r.get.2 := by
  unfold Reader.get
  split
  · rename_i hp
    exact .of_scanned [] (by simp [held, hp]) rfl (List.append_nil _).symm
  · rename_i hp
    refine .of_scanned [r.scanToken.1] ?_ ?_ r.scanned_scanToken
    · simp [held, pending_scanToken, hp]
    · rw [scanToken_fst, unread_scanToken]
      exact (Stream'.eta r.unread).symm

theorem consumes_peek (r : Reader) : r.Consumes [] r.peek.2 := by
  obtain ⟨-, new, held, unread, log⟩ := r.consumes_get
  refine .of_scanned new ?_ unread log
  rw [held]
  simp [Reader.held, pending_get, peek, unget, last_get]

theorem consumes_noteAll (r : Reader) {es : List Event} (hes : Quiet es) :
    r.Consumes [] (r.noteAll es) := by
  refine .of_scanned [] (List.append_nil _) rfl ?_
  rw [List.append_nil]
  exact scanned_append_quiet r.log hes

/-- What is taken, with looks and notes on the way, is consumed. -/
theorem Takes.consumes (h : r.Takes ts s) : r.Consumes ts s := by
  induction h with
  | here => exact .refl r
  | look _ ih => simpa using ih.trans (consumes_peek _)
  | note _ hes ih => simpa using ih.trans (consumes_noteAll _ hes)
  | take _ ih => exact ih.trans (consumes_get _)

end Reader

/-! ## Outcomes -/

namespace Outcome

variable {α β : Type} {r q : Reader} {o : Outcome α}

/-- The parse has taken tokens from `r`.  A refusal has taken the refused token as well, unless it stands
where a declaration should begin: there the parse has only looked at it. -/
def Accounts (r : Reader) : Outcome α → Prop
  | done _ s => ∃ ts, r.Takes ts s
  | refused e s => ∃ ts q, r.Takes ts q ∧ q.get.1 = e.found ∧
      s = if e.expected = .topLevel then q.peek.2 else q.get.2

theorem accounts_done (a : α) (r : Reader) : (done a r).Accounts r := ⟨[], .here⟩

theorem accounts_refused {x : Expectation} (hx : x ≠ .topLevel) (r : Reader) :
    (refused ⟨x, r.get.1⟩ r.get.2 : Outcome α).Accounts r :=
  ⟨[], r, .here, rfl, (if_neg hx).symm⟩

theorem Accounts.behind {ts : List Token} (h : o.Accounts q) (hq : r.Takes ts q) : o.Accounts r := by
  cases o with
  | done a s =>
      obtain ⟨us, hs⟩ := h
      exact ⟨_, hq.trans hs⟩
  | refused e s =>
      obtain ⟨us, p, hp, found, rest⟩ := h
      exact ⟨_, p, hq.trans hp, found, rest⟩

/-- What follows a parse learns how few tokens are left. -/
theorem Accounts.bind {f : α → Reader → Outcome β} {k n : Nat} (h : o.Accounts r)
    (hl : o.Leaves k n) (hf : ∀ a q, q.remaining + k ≤ n → (f a q).Accounts q) :
    (o.bind f).Accounts r := by
  cases o with
  | done a s =>
      obtain ⟨ts, hs⟩ := h
      exact (hf a s hl).behind hs
  | refused e s => exact h

theorem Accounts.map (h : o.Accounts r) (f : α → β) : (o.map f).Accounts r := by
  cases o with
  | done a s => exact h
  | refused e s => exact h

/-- A refusal names some token of the stream and goes on at it or behind it. -/
theorem Accounts.consumes_refused {e : Mismatch} {s : Reader}
    (h : (refused e s : Outcome α).Accounts r) :
    ∃ ts, r.stream.get ts.length = e.found ∧
      r.Consumes (if e.expected = .topLevel then ts else ts ++ [e.found]) s := by
  obtain ⟨ts, q, taken, found, rest⟩ := h
  refine ⟨ts, ?_, ?_⟩
  · rw [taken.stream, Stream'.get_append_length, ← found, q.get_fst]
  · rw [rest, ← found]
    split
    · exact taken.look.consumes
    · exact taken.take.consumes

/-- Whether it succeeds or not, a parse goes on in the stream where it has stopped. -/
theorem Accounts.consumes (h : o.Accounts r) : ∃ ts, r.Consumes ts o.rest := by
  cases o with
  | done a s =>
      obtain ⟨ts, taken⟩ := h
      exact ⟨ts, taken.consumes⟩
  | refused e s =>
      obtain ⟨ts, -, consumed⟩ := h.consumes_refused
      exact ⟨_, consumed⟩

end Outcome

open Outcome (accounts_done accounts_refused)

namespace Parse

/-! ## Expressions -/

theorem expectMark_accounts (m : Mark) (r : Reader) : (expectMark m r).Accounts r := by
  unfold expectMark
  split
  · exact ⟨_, r.takes_get⟩
  · exact accounts_refused (by simp) r

theorem expectName_accounts {x : Expectation} (hx : x ≠ .topLevel) (r : Reader) :
    (expectName x r).Accounts r := by
  unfold expectName
  split
  · exact ⟨_, r.takes_get⟩
  · exact accounts_refused hx r

theorem declaration_accounts (r : Reader) : (declaration r).Accounts r := by
  unfold declaration
  refine .behind ?_ r.takes_get
  refine (expectName_accounts (by simp) _).bind (expectName_leaves _ _) fun name r₁ _ => ?_
  split
  · exact ((expectName_accounts (by simp) _).map _).behind r₁.takes_skip_peek
  · exact ⟨_, r₁.takes_peek⟩

mutual

theorem expression_accounts (r : Reader) : (expression r).Accounts r := by
  rw [expression_eq]
  refine (line_accounts r).bind (line_leaves r) fun first r₁ hr₁ => ?_
  split
  · rename_i hk
    have := Reader.remaining_skip_peek (r := r₁) (by simp [hk])
    exact ((expression_accounts _).map _).behind r₁.takes_skip_peek
  · exact ⟨_, r₁.takes_peek⟩
termination_by 4 * r.remaining + 3

theorem line_accounts (r : Reader) : (line r).Accounts r := by
  rw [line_eq]
  exact (primary_accounts r).bind (primary_leaves r) fun first r₁ _ => chain_accounts [] first r₁
termination_by 4 * r.remaining + 2

theorem chain_accounts (stack : List Waiting) (operand : Expression) (r : Reader) :
    (chain stack operand r).Accounts r := by
  rw [chain_eq]
  dsimp only
  have quiet := quiet_decisions r.peek.1.kind.lookahead stack operand
  split
  · exact ⟨_, r.takes_peek.note quiet⟩
  · rename_i op hk
    have hlt := Reader.remaining_skip_peek (r := r)
      (by simp [TokenKind.lookahead_eq_operator_iff.1 hk])
    refine .behind ?_ (r.takes_skip_note quiet)
    refine (primary_accounts _).bind (primary_leaves _) fun e r₁ hr₁ => ?_
    have : r₁.remaining < r.remaining := by simp at hr₁; omega
    exact chain_accounts _ e r₁
termination_by 4 * r.remaining
decreasing_by all_goals simp; omega

theorem primary_accounts (r : Reader) : (primary r).Accounts r := by
  rw [primary_eq]
  split
  · exact ⟨_, r.takes_skip_peek⟩
  · exact ((declaration_accounts _).map _).behind r.takes_peek
  · rename_i hk
    have := Reader.remaining_skip_peek (r := r) fun e => by
      simp [Operand.ofToken_endOfFile e] at hk
    refine .behind ?_ r.takes_skip_peek
    exact (expression_accounts _).bind (expression_leaves _) fun inner r₁ _ =>
      (expectMark_accounts _ r₁).map _
  · have := r.remaining_peek
    exact ((block_accounts _).map _).behind r.takes_peek
  · exact ⟨_, r.takes_peek⟩
termination_by 4 * r.remaining + 1

theorem block_accounts (r : Reader) : (block r).Accounts r := by
  rw [block_eq]
  exact (expectMark_accounts _ r).bind (expectMark_leaves _ r) fun _ r₁ hr₁ =>
    (expression_accounts r₁).bind (expression_leaves r₁) fun inner r₂ _ =>
      (expectMark_accounts _ r₂).map _
termination_by 4 * r.remaining

end

/-! ## Declarations -/

theorem argument_accounts (r : Reader) : (argument r).Accounts r :=
  (expectName_accounts (by simp) r).bind (expectName_leaves _ _) fun _ r₁ _ =>
    (expectMark_accounts _ r₁).bind (expectMark_leaves _ _) fun _ r₂ _ =>
      (expectName_accounts (by simp) r₂).map _

theorem argumentList_accounts (r : Reader) : (argumentList r).Accounts r := by
  rw [argumentList_eq]
  refine (argument_accounts r).bind (argument_leaves r) fun a r₁ hr₁ => ?_
  have := r₁.remaining_get_le
  split
  · exact ((argumentList_accounts _).map _).behind r₁.takes_get
  · exact ⟨_, r₁.takes_get⟩
  · exact accounts_refused (by simp) r₁
termination_by r.remaining

theorem arguments_accounts (r : Reader) : (arguments r).Accounts r := by
  unfold arguments
  split
  · exact ⟨_, r.takes_skip_peek⟩
  · exact (argumentList_accounts _).behind r.takes_peek

theorem function_accounts (r : Reader) : (function r).Accounts r := by
  unfold function
  refine .behind ?_ r.takes_get
  exact (expectName_accounts (by simp) _).bind (expectName_leaves _ _) fun _ r₁ _ =>
    (expectMark_accounts _ r₁).bind (expectMark_leaves _ _) fun _ r₂ _ =>
      (arguments_accounts r₂).bind (arguments_leaves _) fun _ r₃ _ =>
        (expectMark_accounts _ r₃).bind (expectMark_leaves _ _) fun _ r₄ _ =>
          (expectName_accounts (by simp) r₄).bind (expectName_leaves _ _) fun _ r₅ _ =>
            (block_accounts r₅).map _

mutual

theorem item_accounts (r : Reader) : (item r).Accounts r := by
  rw [item_eq]
  have := r.remaining_peek
  split
  · exact ((module_accounts _).map _).behind r.takes_peek
  · exact ((function_accounts _).map _).behind r.takes_peek
  · exact ⟨[], r, .here, rfl, rfl⟩
termination_by 3 * r.remaining + 1

theorem module_accounts (r : Reader) : (module r).Accounts r := by
  rw [module_eq]
  have hskip : r.skip.remaining ≤ r.remaining := r.remaining_get_le
  refine .behind ?_ r.takes_get
  refine (expectName_accounts (by simp) r.skip).bind (expectName_leaves _ _) fun name r₁ h₁ => ?_
  refine (expectMark_accounts _ r₁).bind (expectMark_leaves _ _) fun _ r₂ h₂ => ?_
  refine (items_accounts _ r₂).bind (Bounded.items _ r₂).leaves fun is r₃ _ => ?_
  exact ⟨_, r₃.takes_get⟩
termination_by 3 * r.remaining

theorem items_accounts (stop : TokenKind) (r : Reader) : (items stop r).Accounts r := by
  rw [items_eq]
  have := r.remaining_peek
  split
  · exact ⟨_, r.takes_peek⟩
  · refine .behind ?_ r.takes_peek
    exact (item_accounts _).bind (item_leaves _) fun i r₁ _ => (items_accounts stop r₁).map _
termination_by 3 * r.remaining + 2

end

end Parse

/-! ## Entries -/

namespace Entry

/-- The production of the entry derives the tokens for what was parsed.  The first token of a module and
of a function may be any token instead of the keyword.  So may that of a variable declaration, as far as
it decides in the same way whether the variable is mutable. -/
inductive Reads : Entry → Parsed → List Token → Prop
  | program {p : Program} {ts : List Token} (h : Derives OpTree.Grouped (.items p) ts) :
    Reads program (.program p) ts
  | item {i : Item} {ts : List Token} (h : Derives OpTree.Grouped (.item i) ts) :
    Reads item (.item i) ts
  | module {name : String} {is : List Item} {first : Token} {ts : List Token}
    (h : Derives OpTree.Grouped (.item (.module name is)) (nameToken Keyword.kwModule.text :: ts)) :
    Reads module (.item (.module name is)) (first :: ts)
  | function {f : FunctionDecl} {first : Token} {ts : List Token}
    (h : Derives OpTree.Grouped (.function f) (nameToken Keyword.kwFn.text :: ts)) :
    Reads function (.item (.function f)) (first :: ts)
  | argument {a : Argument} {ts : List Token} (h : Derives OpTree.Grouped (.argument a) ts) :
    Reads argument (.argument a) ts
  | block {inner : Expression} {ts : List Token} (h : Derives OpTree.Grouped (.block inner) ts) :
    Reads block (.expression (.block inner)) ts
  | expression {e : Expression} {ts : List Token} (h : Derives OpTree.Grouped (.expression e) ts) :
    Reads expression (.expression e) ts
  | line {e : Expression} {ts : List Token} (h : Derives OpTree.Grouped (.line e) ts) :
    Reads line (.expression e) ts
  | primary {e : Expression} {ts : List Token} (h : Derives OpTree.Grouped (.primary e) ts) :
    Reads primary (.expression e) ts
  | declaration {d : VariableDecl} {k : Keyword} {first : Token} {ts : List Token}
    (hd : k.declares) (hm : (first.keyword? == some .kwVar) = (k == .kwVar))
    (h : Derives OpTree.Grouped (.primary (.declaration d)) (nameToken k.text :: ts)) :
    Reads declaration (.expression (.declaration d)) (first :: ts)

/-- The parser of an entry takes the tokens that its production derives. -/
theorem parse_sound {entry : Entry} {r s : Reader} {p : Parsed} (h : entry.parse r = .done p s) :
    ∃ ts, entry.Reads p ts ∧ r.Takes ts s := by
  cases entry <;> obtain ⟨a, ha, rfl⟩ := Outcome.map_eq_done.1 h
  case program =>
    obtain ⟨ts, q, hts, hq, -, rfl⟩ := items_sound ha
    exact ⟨ts, .program hts, hq.look⟩
  case item =>
    obtain ⟨ts, hts, taken⟩ := item_sound ha
    exact ⟨ts, .item hts, taken⟩
  case module =>
    obtain ⟨ts, hts, taken⟩ := module_taken ha
    exact ⟨_, .module hts, taken⟩
  case function =>
    obtain ⟨ts, hts, taken⟩ := function_taken ha
    exact ⟨_, .function hts, taken⟩
  case argument =>
    obtain ⟨ts, hts, taken⟩ := argument_sound ha
    exact ⟨ts, .argument hts, taken⟩
  case block =>
    obtain ⟨ts, hts, taken⟩ := block_sound ha
    exact ⟨ts, .block hts, taken⟩
  case expression =>
    obtain ⟨ts, hts, taken⟩ := expression_sound ha
    exact ⟨ts, .expression hts, taken⟩
  case line =>
    obtain ⟨ts, hts, taken⟩ := line_sound ha
    exact ⟨ts, .line hts, taken⟩
  case primary =>
    obtain ⟨ts, hts, taken⟩ := primary_sound ha
    exact ⟨ts, .primary hts, taken⟩
  case declaration =>
    obtain ⟨ts, taken, derived⟩ := declaration_taken ha
    cases hm : r.get.1.keyword? == some .kwVar with
    | true => exact ⟨_, .declaration (.inr rfl) hm (derived .kwVar (.inr rfl) hm), taken⟩
    | false => exact ⟨_, .declaration (.inl rfl) hm (derived .kwLet (.inl rfl) hm), taken⟩

theorem parse_accounts (entry : Entry) (r : Reader) : (entry.parse r).Accounts r := by
  cases entry with
  | program => exact (items_accounts _ r).map _
  | item => exact (item_accounts r).map _
  | module => exact (module_accounts r).map _
  | function => exact (function_accounts r).map _
  | argument => exact (argument_accounts r).map _
  | block => exact (block_accounts r).map _
  | expression => exact (expression_accounts r).map _
  | line => exact (line_accounts r).map _
  | primary => exact (primary_accounts r).map _
  | declaration => exact (declaration_accounts r).map _

/-- **A parser takes what its production derives, and loses nothing.**  From any reader, whether it holds
a token back or not, a success takes from the front of the stream the tokens that are derived for the
tree.  A refusal names some token of the stream and goes on behind it, or at it where a declaration was
expected.  Of the tokens that are left, one at most has been scanned. -/
theorem parse_consumes (entry : Entry) (r : Reader) :
    (∀ p s, entry.parse r = .done p s → ∃ ts, entry.Reads p ts ∧ r.Consumes ts s) ∧
    (∀ e s, entry.parse r = .refused e s → ∃ ts, r.stream.get ts.length = e.found ∧
      r.Consumes (if e.expected = .topLevel then ts else ts ++ [e.found]) s) := by
  refine ⟨fun p s h => ?_, fun e s h => ?_⟩
  · obtain ⟨ts, reads, taken⟩ := parse_sound h
    exact ⟨ts, reads, taken.consumes⟩
  · have accounts := entry.parse_accounts r
    rw [h] at accounts
    exact accounts.consumes_refused

end Entry

namespace Session

/-- Where the session stands in its source, with what has been reported since it began. -/
def position (s : Session) : Reader := { s.reader with log := s.log }

/-- A step that took tokens from its reader has moved the session by them. -/
theorem consumes_position {s s' : Session} {r : Reader} {ts : List Token}
    (h : s.reader.Consumes ts r) (fresh : s.reader.log = #[]) (rest : s'.reader = r.clearLog)
    (log : s'.log.scanned = s.log.scanned ++ r.log.scanned) : s.position.Consumes ts s'.position := by
  obtain ⟨-, new, held, unread, scanned⟩ := h
  have all : r.log.scanned = new := by
    rw [scanned, fresh]
    rfl
  obtain ⟨reader, sink, log'⟩ := s'
  cases rest
  exact .of_scanned new held unread (all ▸ log)

theorem scanned_append (log log' : Log) :
    Log.scanned (log ++ log') = log.scanned ++ log'.scanned := by
  simp [Log.scanned]

/-- A step goes on where the session stands, and it leaves the reader with an empty log. -/
theorem run_consumes (s : Session) (fresh : s.reader.log = #[]) (entry : Entry) :
    (∃ ts, s.position.Consumes ts (s.run fun r => entry.parse r).2.position) ∧
      (s.run fun r => entry.parse r).2.reader.log = #[] := by
  obtain ⟨ts, taken⟩ := (entry.parse_accounts s.reader).consumes
  cases h : entry.parse s.reader with
  | done p r =>
      rw [h] at taken
      simp only [Session.run, h]
      exact ⟨⟨ts, consumes_position taken fresh rfl (scanned_append _ _)⟩, rfl⟩
  | refused e r =>
      rw [h] at taken
      simp only [Session.run, h]
      split
      · refine ⟨⟨ts, consumes_position taken fresh rfl ?_⟩, rfl⟩
        rw [scanned_push _ rfl]
        exact scanned_append _ _
      · exact ⟨⟨ts, consumes_position taken fresh rfl (scanned_append _ _)⟩, rfl⟩

/-- **No token is lost between the steps of a session.**  Whatever entries are run and whether they fail
or not, what they have taken and what is left make up what there was, and each token of it was scanned
once. -/
theorem runAll_consumes (s : Session) (fresh : s.reader.log = #[]) (entries : List Entry) :
    ∃ ts, s.position.Consumes ts (s.runAll entries).2.position := by
  induction entries generalizing s with
  | nil => exact ⟨[], .refl _⟩
  | cons entry entries ih =>
      obtain ⟨⟨ts, step⟩, fresh'⟩ := s.run_consumes fresh entry
      obtain ⟨us, run⟩ := ih _ fresh'
      exact ⟨ts ++ us, step.trans run⟩

end Session

end FrontEnd
