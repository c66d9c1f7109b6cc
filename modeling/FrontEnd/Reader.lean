import FrontEnd.Lexeme
import FrontEnd.Event

/-!
# The token reader

A reader hands out the tokens of a source one by one and can take one token back.

* `Reader` — the tokens still in the source, the token handed out last, and whether that token is
  to be handed out again.
* `Reader.get`, `Reader.peek`, `Reader.unget`, `Reader.putBack`, `Reader.next` — its operations;
  `Reader.Operation` lists them as data and `Reader.perform` runs one of them.
* `Reader.remaining` — how many tokens other than the end of the file can still be had.  Taking such
  a token lowers it (`remaining_get`), and looking at one does not raise it (`remaining_peek`), so
  it is the measure by which every reading loop ends.
-/

namespace FrontEnd

/-- The state of reading a source. -/
structure Reader where
  /-- the tokens that were not yet taken from the source -/
  upcoming : List Token
  /-- the token handed out last -/
  last : Token
  /-- whether `last` is handed out again -/
  pending : Bool
  /-- whether the enumeration by `next` has delivered the end of the file -/
  finished : Bool
  /-- what has happened since the log was started -/
  log : Log
deriving DecidableEq, Repr

namespace Reader

def ofTokens (ts : List Token) : Reader := ⟨ts, Token.endOfFile, false, false, #[]⟩

def ofSource (source : String) : Reader := ofTokens (tokens source)

/-- Take a token from the source; behind its end there is the end of the file, for ever. -/
def scanToken (r : Reader) : Token × Reader :=
  match r.upcoming with
  | [] =>
    (Token.endOfFile,
      { r with last := Token.endOfFile, log := r.log.push (.scanned Token.endOfFile) })
  | t :: ts => (t, { r with upcoming := ts, last := t, log := r.log.push (.scanned t) })

/-- Hand out a token: the one taken back, if there is one, else one from the source. -/
def get (r : Reader) : Token × Reader :=
  if r.pending then (r.last, { r with pending := false }) else r.scanToken

/-- Take back the token handed out last. -/
def unget (r : Reader) : Reader := { r with pending := true }

/-- Put a token in the place of the one handed out last, to be handed out next. -/
def putBack (r : Reader) (t : Token) : Reader := { r with last := t, pending := true }

def peek (r : Reader) : Token × Reader := (r.get.1, r.get.2.unget)

def skip (r : Reader) : Reader := r.get.2

/-- Enumerate the tokens, the first end of the file included. -/
def next (r : Reader) : Option Token × Reader :=
  if r.finished then (none, r)
  else (some r.get.1, { r.get.2 with finished := r.get.1.kind == .endOfFile })

/-- Record events, the first of them first. -/
def noteAll (r : Reader) (es : List Event) : Reader := { r with log := r.log ++ es }

def clearLog (r : Reader) : Reader := { r with log := #[] }

inductive Operation
  | get
  | peek
  | skip
  | unget
  | putBack (t : Token)
  | next
deriving DecidableEq, Repr

/-- What an operation hands out. -/
inductive Delivery
  | token (t : Token)
  /-- the enumeration is over -/
  | exhausted
  /-- the operation hands out nothing -/
  | silent
deriving DecidableEq, Repr

def perform (r : Reader) : Operation → Delivery × Reader
  | .get => (.token r.get.1, r.get.2)
  | .peek => (.token r.peek.1, r.peek.2)
  | .skip => (.silent, r.skip)
  | .unget => (.silent, r.unget)
  | .putBack t => (.silent, r.putBack t)
  | .next => (r.next.1.elim .exhausted .token, r.next.2)

def performAll (r : Reader) : List Operation → List Delivery × Reader
  | [] => ([], r)
  | op :: ops =>
    let d := r.perform op
    let ds := d.2.performAll ops
    (d.1 :: ds.1, ds.2)

/-- One for a token that stands before the end of the file, none for the end of the file. -/
def weight (t : Token) : Nat := if t.kind = .endOfFile then 0 else 1

/-- How many tokens other than the end of the file the reader can still hand out. -/
def remaining (r : Reader) : Nat := (if r.pending then weight r.last else 0) + r.upcoming.length

theorem weight_le (t : Token) : weight t ≤ 1 := by unfold weight; split <;> omega

theorem remaining_scanToken (r : Reader) (h : r.pending = false) :
    r.scanToken.2.remaining + weight r.scanToken.1 ≤ r.remaining := by
  unfold scanToken
  split
  · rename_i e
    simp [remaining, weight, Token.endOfFile, h, e]
  · rename_i t ts e
    have := weight_le t
    simp [remaining, h, e]
    omega

/-- A token other than the end of the file is used up when it is handed out. -/
theorem remaining_get (r : Reader) : r.get.2.remaining + weight r.get.1 ≤ r.remaining := by
  unfold get
  split
  · rename_i h
    simp [remaining, h]
    omega
  · rename_i h
    exact remaining_scanToken r (by simpa using h)

theorem remaining_get_le (r : Reader) : r.get.2.remaining ≤ r.remaining := by
  have := remaining_get r
  omega

theorem remaining_get_lt {r : Reader} (h : r.get.1.kind ≠ .endOfFile) :
    r.get.2.remaining < r.remaining := by
  have := remaining_get r
  have e : weight r.get.1 = 1 := by simp [weight, h]
  omega

theorem last_get (r : Reader) : r.get.2.last = r.get.1 := by
  unfold get scanToken
  split
  · rfl
  · split <;> rfl

theorem pending_get (r : Reader) : r.get.2.pending = false := by
  unfold get scanToken
  split
  · rfl
  · rename_i h
    split <;> simpa using h

/-- Looking at a token uses nothing up. -/
theorem remaining_peek (r : Reader) : r.peek.2.remaining ≤ r.remaining := by
  have := remaining_get r
  have hp := pending_get r
  have hl := last_get r
  have e : r.peek.2.remaining = weight r.get.2.last + r.get.2.upcoming.length := by
    simp [peek, unget, remaining]
  have e' : r.get.2.remaining = r.get.2.upcoming.length := by simp [remaining, hp]
  rw [hl] at e
  omega

theorem get_unget {r : Reader} (h : r.pending = false) : r.unget.get = (r.last, r) := by
  obtain ⟨upcoming, last, pending, finished, log⟩ := r
  subst h
  rfl

/-- After a look, the next token is the one that was seen. -/
theorem get_peek (r : Reader) : r.peek.2.get = r.get := by
  have := get_unget (pending_get r)
  rw [last_get] at this
  exact this

theorem skip_peek (r : Reader) : r.peek.2.skip = r.skip := by
  simp [skip, get_peek]

theorem remaining_skip_peek_le (r : Reader) : r.peek.2.skip.remaining ≤ r.remaining := by
  rw [skip_peek]
  exact r.remaining_get_le

theorem remaining_skip_peek {r : Reader} (h : r.peek.1.kind ≠ .endOfFile) :
    r.peek.2.skip.remaining < r.remaining := by
  rw [skip_peek]
  exact remaining_get_lt h

@[simp] theorem remaining_noteAll_skip (r : Reader) (es : List Event) :
    (r.noteAll es).skip.remaining = r.skip.remaining := by
  unfold skip get scanToken noteAll
  dsimp only
  split
  · rfl
  · split <;> simp_all [remaining]

@[simp] theorem remaining_noteAll (r : Reader) (es : List Event) :
    (r.noteAll es).remaining = r.remaining := rfl

end Reader

end FrontEnd
