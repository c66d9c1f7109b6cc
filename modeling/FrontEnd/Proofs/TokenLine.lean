import FrontEnd.Proofs.Conservation

/-!
# Reading along a line of tokens

A reader has one place for the token that it handed out last, for a token that is taken back and for a token
that is put back.  Used with care it behaves like a line of tokens from which tokens are taken at the front
and before which they are put.

* `TokenLine` — the line: the tokens that were taken, and those to come.  `TokenLine.perform` runs the
  operations of a reader on it.
* `Reader.allows` — nothing is put back while a token is held, and nothing is taken back before a token
  was handed out.
* `Reader.Stands.perform` — a step of a reader is a step along the line.
* `TokenLine.Inserted` — a line into which some tokens were put.
* `Reader.scanned_perform`, `Reader.exhausted_iff` — what holds of every use: no token is scanned twice,
  and the enumeration is over behind the end of the file that it has delivered itself.
* `Reader.performAll_alongLine` — all this for the runs of operations on a source.
-/

namespace FrontEnd

open Stream' (append_append_stream cons_append_stream)

/-! ## The line -/

/-- Tokens, one behind the other. -/
structure TokenLine where
  /-- the tokens to come -/
  ahead : Stream' Token
  /-- the tokens that were taken and not taken back, the last one first -/
  taken : List Token
  /-- whether the enumeration has delivered the end of the file -/
  ended : Bool

/-- Whether a token is fetched for the operation. -/
def Reader.Operation.fetches : Reader.Operation → Bool
  | .get | .peek | .skip | .next => true
  | .unget | .putBack _ => false

/-- The tokens that the operations put back, in order. -/
def Reader.putBacks (ops : List Reader.Operation) : List Token :=
  ops.filterMap fun
    | .putBack t => some t
    | _ => none

open Reader (Operation Delivery putBacks)

namespace TokenLine

def start (σ : Stream' Token) : TokenLine := ⟨σ, [], false⟩

def take (q : TokenLine) : TokenLine :=
  { q with ahead := q.ahead.tail, taken := q.ahead.head :: q.taken }

def put (q : TokenLine) (t : Token) : TokenLine := { q with ahead := Stream'.cons t q.ahead }

/-- Take the last token back: it stands in front again. -/
def giveBack (q : TokenLine) : TokenLine :=
  match q.taken with
  | [] => q
  | t :: ts => { q.put t with taken := ts }

def next (q : TokenLine) : Delivery × TokenLine :=
  if q.ended then (.exhausted, q)
  else (.token q.ahead.head, { q.take with ended := q.ahead.head.kind == .endOfFile })

def perform (q : TokenLine) : Operation → Delivery × TokenLine
  | .get => (.token q.ahead.head, q.take)
  | .peek => (.token q.ahead.head, q)
  | .skip => (.silent, q.take)
  | .unget => (.silent, q.giveBack)
  | .putBack t => (.silent, q.put t)
  | .next => q.next

def performAll (q : TokenLine) : List Operation → List Delivery × TokenLine
  | [] => ([], q)
  | op :: ops =>
    let d := q.perform op
    let ds := d.2.performAll ops
    (d.1 :: ds.1, ds.2)

/-- The tokens that were taken, in order, and behind them those to come. -/
def whole (q : TokenLine) : Stream' Token := q.taken.reverse ++ₛ q.ahead

/-- The line `σ` with some tokens put into it, one after the other. -/
inductive Inserted (σ : Stream' Token) : List Token → Stream' Token → Prop
  | none : Inserted σ [] σ
  | one {ts front : List Token} {rest : Stream' Token} {t : Token}
    (h : Inserted σ ts (front ++ₛ rest)) : Inserted σ (ts ++ [t]) (front ++ₛ Stream'.cons t rest)

variable {q : TokenLine} {σ : Stream' Token} {ts : List Token}

theorem whole_take (q : TokenLine) : q.take.whole = q.whole := by
  unfold whole take
  rw [List.reverse_cons, append_append_stream, cons_append_stream]
  exact congrArg (q.taken.reverse ++ₛ ·) (Stream'.eta q.ahead)

theorem whole_giveBack (q : TokenLine) : q.giveBack.whole = q.whole := by
  obtain ⟨ahead, taken, ended⟩ := q
  cases taken with
  | nil => rfl
  | cons t ts =>
      unfold whole
      rw [List.reverse_cons, append_append_stream]
      rfl

theorem whole_next (q : TokenLine) : q.next.2.whole = q.whole := by
  unfold next
  split
  · rfl
  · exact q.whole_take

/-- **A step along the line moves no token**, unless one is put back: it stands behind those that were
taken. -/
theorem Inserted.perform (h : Inserted σ ts q.whole) (op : Operation) :
    Inserted σ (ts ++ putBacks [op]) (q.perform op).2.whole := by
  have still : ∀ q' : TokenLine, q'.whole = q.whole → Inserted σ (ts ++ []) q'.whole := by
    intro q' same
    rw [List.append_nil, same]
    exact h
  cases op with
  | putBack t => exact h.one
  | get => exact still _ q.whole_take
  | skip => exact still _ q.whole_take
  | peek => exact still _ rfl
  | unget => exact still _ q.whole_giveBack
  | next => exact still _ q.whole_next

/-- What a run puts into the line are the tokens that it puts back. -/
theorem Inserted.performAll (h : Inserted σ ts q.whole) (ops : List Operation) :
    Inserted σ (ts ++ putBacks ops) (q.performAll ops).2.whole := by
  induction ops generalizing q ts with
  | nil =>
      rw [show putBacks [] = [] from rfl, List.append_nil]
      exact h
  | cons op ops ih =>
      have split : putBacks (op :: ops) = putBacks [op] ++ putBacks ops :=
        List.filterMap_append (l := [op])
      rw [split, ← List.append_assoc]
      exact ih (h.perform op)

theorem Inserted.eq {τ : Stream' Token} (h : Inserted σ ts τ) (hts : ts = []) : τ = σ := by
  cases h with
  | none => rfl
  | one => simp at hts

theorem performAll_append (q : TokenLine) (ops ops' : List Operation) :
    (q.performAll (ops ++ ops')).2 = ((q.performAll ops).2.performAll ops').2 := by
  induction ops generalizing q with
  | nil => rfl
  | cons op ops ih => exact ih (q.perform op).2

end TokenLine

/-! ## Readers -/

namespace Reader

variable {r : Reader} {q : TokenLine} {fetched : Bool}

/-- Whether the operation may be run: a token is put back only when none is held, and the last one is
taken back only if one was fetched. -/
def allows (r : Reader) (fetched : Bool) : Operation → Bool
  | .unget => !r.pending && fetched
  | .putBack _ => !r.pending
  | _ => true

/-- Whether all operations may be run, each when its turn comes. -/
def allowsAll (r : Reader) (fetched : Bool) : List Operation → Bool
  | [] => true
  | op :: ops => r.allows fetched op && (r.perform op).2.allowsAll (fetched || op.fetches) ops

theorem finished_get (r : Reader) : r.get.2.finished = r.finished := by
  unfold get scanToken
  split
  · rfl
  · split <;> rfl

/-- The reader stands where the line stands, and if it holds no token, it remembers the last one. -/
structure Stands (r : Reader) (fetched : Bool) (q : TokenLine) : Prop where
  ahead : q.ahead = r.stream
  ended : q.ended = r.finished
  last : r.pending = false → fetched = true → q.taken.head? = some r.last
  /-- the enumeration does not end before a token was fetched -/
  fetched : r.finished = true → fetched = true

theorem stands_start (ts : List Token) :
    (ofTokens ts).Stands false (.start (ts ++ₛ Stream'.const Token.endOfFile)) where
  ahead := (stream_ofTokens ts).symm
  ended := rfl
  last := fun _ h => nomatch h
  fetched := fun h => nomatch h

theorem stream_putBack (hp : r.pending = false) (t : Token) :
    (r.putBack t).stream = Stream'.cons t r.stream := by
  unfold stream
  rw [hp]
  rfl

theorem Stands.get_fst (h : r.Stands fetched q) : r.get.1 = q.ahead.head := by
  rw [h.ahead, r.get_fst]

theorem Stands.get_snd (h : r.Stands fetched q) : r.get.2.Stands true q.take where
  ahead := (congrArg Stream'.tail h.ahead).trans r.stream_get.symm
  ended := h.ended.trans r.finished_get.symm
  last := fun _ _ => by
    rw [r.last_get, h.get_fst]
    rfl
  fetched := fun _ => rfl

theorem Stands.peek (h : r.Stands fetched q) : r.peek.2.Stands true q where
  ahead := h.ahead.trans r.stream_peek.symm
  ended := h.ended.trans r.finished_get.symm
  last := fun hp => nomatch hp
  fetched := fun _ => rfl

theorem Stands.putBack (h : r.Stands fetched q) (hp : r.pending = false) (t : Token) :
    (r.putBack t).Stands fetched (q.put t) where
  ahead := (congrArg (Stream'.cons t) h.ahead).trans (stream_putBack hp t).symm
  ended := h.ended
  last := fun hp => nomatch hp
  fetched := h.fetched

/-- The token that is taken back is the last one that was taken. -/
theorem Stands.unget (h : r.Stands fetched q) (hp : r.pending = false) (hf : fetched = true) :
    r.unget.Stands fetched q.giveBack := by
  obtain ⟨ts, hts⟩ := List.head?_eq_some_iff.1 (h.last hp hf)
  have back : q.giveBack = { q.put r.last with taken := ts } := by
    unfold TokenLine.giveBack
    rw [hts]
  rw [back]
  have put := h.putBack hp r.last
  exact ⟨put.ahead, put.ended, fun hp => (nomatch hp), put.fetched⟩

theorem Stands.next (h : r.Stands fetched q) :
    r.next.1.elim .exhausted .token = q.next.1 ∧ r.next.2.Stands true q.next.2 := by
  unfold Reader.next TokenLine.next
  rw [h.ended]
  split
  · rename_i hf
    exact ⟨rfl, h.fetched hf ▸ h⟩
  · have taken := h.get_snd
    refine ⟨congrArg Delivery.token h.get_fst, taken.ahead, ?_, taken.last, fun _ => rfl⟩
    show _ = (r.get.1.kind == .endOfFile)
    rw [h.get_fst]

/-- **A step of a reader that is used with care is a step along the line.** -/
theorem Stands.perform (h : r.Stands fetched q) {op : Operation} (ho : r.allows fetched op = true) :
    (r.perform op).1 = (q.perform op).1 ∧
      (r.perform op).2.Stands (fetched || op.fetches) (q.perform op).2 := by
  cases op with
  | get =>
      simp only [Operation.fetches, Bool.or_true]
      exact ⟨congrArg Delivery.token h.get_fst, h.get_snd⟩
  | skip =>
      simp only [Operation.fetches, Bool.or_true]
      exact ⟨rfl, h.get_snd⟩
  | peek =>
      simp only [Operation.fetches, Bool.or_true]
      exact ⟨congrArg Delivery.token h.get_fst, h.peek⟩
  | next =>
      simp only [Operation.fetches, Bool.or_true]
      exact h.next
  | putBack t =>
      simp only [allows, Bool.not_eq_true'] at ho
      simp only [Operation.fetches, Bool.or_false]
      exact ⟨rfl, h.putBack ho t⟩
  | unget =>
      simp only [allows, Bool.and_eq_true, Bool.not_eq_true'] at ho
      simp only [Operation.fetches, Bool.or_false]
      exact ⟨rfl, h.unget ho.1 ho.2⟩

/-- **A run of a reader that is used with care is a walk along the line.** -/
theorem Stands.performAll (h : r.Stands fetched q) {ops : List Operation}
    (ho : r.allowsAll fetched ops = true) :
    (r.performAll ops).1 = (q.performAll ops).1 ∧
      ∃ fetched', (r.performAll ops).2.Stands fetched' (q.performAll ops).2 := by
  induction ops generalizing r q fetched with
  | nil => exact ⟨rfl, fetched, h⟩
  | cons op ops ih =>
      simp only [allowsAll, Bool.and_eq_true] at ho
      obtain ⟨delivered, stands⟩ := h.perform ho.1
      obtain ⟨rest, stands'⟩ := ih stands ho.2
      exact ⟨congrArg₂ List.cons delivered rest, stands'⟩

/-! ## Scanning and enumerating -/

/-- What was scanned, and what is left to scan. -/
theorem scanned_get (r : Reader) :
    r.get.2.log.scanned ++ₛ r.get.2.unread = r.log.scanned ++ₛ r.unread := by
  unfold Reader.get
  split
  · rfl
  · rw [scanned_scanToken, unread_scanToken, scanToken_fst, append_append_stream]
    exact congrArg (r.log.scanned ++ₛ ·) (Stream'.eta r.unread)

/-- **No operation scans a token twice or passes over one.** -/
theorem scanned_perform (r : Reader) (op : Operation) :
    (r.perform op).2.log.scanned ++ₛ (r.perform op).2.unread = r.log.scanned ++ₛ r.unread := by
  cases op with
  | get | skip | peek => exact r.scanned_get
  | unget | putBack => rfl
  | next =>
      unfold Reader.perform Reader.next
      dsimp only
      split
      · rfl
      · exact r.scanned_get

theorem scanned_performAll (r : Reader) (ops : List Operation) :
    (r.performAll ops).2.log.scanned ++ₛ (r.performAll ops).2.unread = r.log.scanned ++ₛ r.unread := by
  induction ops generalizing r with
  | nil => rfl
  | cons op ops ih => exact (ih (r.perform op).2).trans (r.scanned_perform op)

/-- The enumeration is over when it was over before or has delivered the end of the file now. -/
theorem finished_perform (r : Reader) (op : Operation) :
    (r.perform op).2.finished = true ↔ r.finished = true ∨
      op = .next ∧ ∃ t, (r.perform op).1 = .token t ∧ t.kind = .endOfFile := by
  cases op with
  | get | skip | peek => simp [Reader.perform, Reader.skip, Reader.peek, Reader.unget, finished_get]
  | unget | putBack => simp [Reader.perform, Reader.unget, Reader.putBack]
  | next => cases hf : r.finished <;> simp [Reader.perform, Reader.next, hf]

theorem perform_eq_exhausted (r : Reader) (op : Operation) :
    (r.perform op).1 = .exhausted ↔ op = .next ∧ r.finished = true := by
  cases op with
  | next => cases hf : r.finished <;> simp [Reader.perform, Reader.next, hf]
  | _ => simp [Reader.perform]

/-- **The enumeration is over once it has delivered the end of the file, and for ever**, whatever else is
done with the reader. -/
theorem exhausted_iff (r : Reader) (ops : List Operation) (i : Nat) :
    (r.performAll ops).1[i]? = some .exhausted ↔ ops[i]? = some .next ∧
      (r.finished = true ∨ ∃ j < i, ops[j]? = some .next ∧
        ∃ t, (r.performAll ops).1[j]? = some (.token t) ∧ t.kind = .endOfFile) := by
  induction ops generalizing r i with
  | nil => simp [Reader.performAll]
  | cons op ops ih =>
      cases i with
      | zero => simpa [Reader.performAll] using r.perform_eq_exhausted op
      | succ i =>
          have rest := ih (r.perform op).2 i
          rw [finished_perform, or_assoc] at rest
          rw [Nat.exists_lt_succ_left]
          simpa [Reader.performAll] using rest

end Reader

/-- **A reader that is used with care is a line of tokens.**  From the start of a source it delivers what is
delivered along the line of its tokens with the end of the file behind them for ever, and it has the same
tokens ahead.  What was taken along the line and what is ahead are the tokens of the source, each once and
in order, and those that were put back; between two of these nothing moves.  Every token that was scanned
was scanned once, and in order.  The enumeration is over from the call on behind the one in which it has
delivered an end of the file itself. -/
theorem Reader.performAll_alongLine (source : String) (ops : List Operation) :
    let σ := tokens source ++ₛ Stream'.const Token.endOfFile
    let read := (Reader.ofSource source).performAll ops
    let walk := fun ops => (TokenLine.start σ).performAll ops
    ((Reader.ofSource source).allowsAll false ops = true →
      read.1 = (walk ops).1 ∧ read.2.stream = (walk ops).2.ahead) ∧
    TokenLine.Inserted σ (putBacks ops) (walk ops).2.whole ∧
    (∀ before more, putBacks more = [] →
      (walk (before ++ more)).2.whole = (walk before).2.whole) ∧
    read.2.log.scanned ++ₛ read.2.unread = σ ∧
    ∀ i : Nat, read.1[i]? = some .exhausted ↔ ops[i]? = some .next ∧
      ∃ j < i, ops[j]? = some .next ∧ ∃ t, read.1[j]? = some (.token t) ∧ t.kind = .endOfFile := by
  intro σ read walk
  refine ⟨fun ho => ?_, ?_, fun before more hm => ?_, ?_, fun i => ?_⟩
  · obtain ⟨delivered, fetched, stands⟩ := (stands_start (tokens source)).performAll ho
    exact ⟨delivered, stands.ahead.symm⟩
  · have nothing : TokenLine.Inserted σ [] (TokenLine.start σ).whole := .none
    exact nothing.performAll ops
  · have nothing : TokenLine.Inserted (walk before).2.whole [] (walk before).2.whole := .none
    simp only [walk, TokenLine.performAll_append]
    exact (nothing.performAll more).eq hm
  · exact (Reader.ofSource source).scanned_performAll ops
  · have unfinished : (Reader.ofSource source).finished = false := rfl
    have enumerated := (Reader.ofSource source).exhausted_iff ops i
    rwa [unfinished, Bool.false_eq_true, false_or] at enumerated

/-- A semicolon is put back behind the first token, enumerated, taken back and enumerated again.  The end of
the file is enumerated as well, so the enumeration is over, though a token that is put back can still be
had. -/
theorem Reader.performAll_alongLine_putBack :
    let ops : List Operation := [.peek, .get, .putBack ⟨.mark .semicolon, ";"⟩, .next, .unget, .next,
      .skip, .next, .putBack ⟨.identifier, "c"⟩, .next, .get]
    let semicolon : Delivery := .token ⟨.mark .semicolon, ";"⟩
    (Reader.ofSource "a b").allowsAll false ops = true ∧
      ((TokenLine.start (tokens "a b" ++ₛ Stream'.const Token.endOfFile)).performAll ops).1 =
        [.token ⟨.identifier, "a"⟩, .token ⟨.identifier, "a"⟩, .silent, semicolon, .silent, semicolon,
          .silent, .token Token.endOfFile, .silent, .exhausted, .token ⟨.identifier, "c"⟩] := by
  intro ops semicolon
  have allowed : (Reader.ofSource "a b").allowsAll false ops = true := by decide +kernel
  have walked := ((Reader.performAll_alongLine "a b" ops).1 allowed).1
  exact ⟨allowed, walked.symm.trans (by decide +kernel)⟩

end FrontEnd
