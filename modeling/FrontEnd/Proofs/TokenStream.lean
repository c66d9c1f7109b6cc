import FrontEnd.Proofs.Lockstep
import Mathlib.Data.Stream.Init

/-!
# Readers as token streams

What a reader will deliver is an endless stream: the token that was taken back, if there is one, the
tokens of the source, and then the end of the file for ever.

* `Reader.stream` — that stream.  `stream_get` says that a reader hands out its head and keeps its
  tail, and `stream_peek` that looking at a token leaves the stream as it is.
* `Outcome.Same` — two outcomes with one value or one error, and one stream behind them.
* `lockstep_stream`, `primary_congr` — a parser sees nothing of a reader but its stream: neither the
  log nor how the next token is held has any influence.
-/

namespace FrontEnd

namespace Reader

/-- The tokens that the reader will deliver. -/
def stream (r : Reader) : Stream' Token :=
  ((if r.pending then [r.last] else []) ++ r.upcoming) ++ₛ Stream'.const Token.endOfFile

/-- The next token is the head of the stream, and what is left is its tail. -/
theorem stream_eq_cons (r : Reader) : r.stream = Stream'.cons r.get.1 r.get.2.stream := by
  obtain ⟨upcoming, last, pending, finished, log⟩ := r
  cases pending with
  | true => simp [stream, get, Stream'.cons_append_stream]
  | false =>
    cases upcoming with
    | nil => simpa [stream, get, scanToken] using Stream'.const_eq Token.endOfFile
    | cons t ts => simp [stream, get, scanToken, Stream'.cons_append_stream]

theorem get_fst (r : Reader) : r.get.1 = r.stream.head := by
  rw [stream_eq_cons r]
  rfl

theorem stream_get (r : Reader) : r.get.2.stream = r.stream.tail := by
  rw [stream_eq_cons r]
  rfl

theorem peek_fst (r : Reader) : r.peek.1 = r.stream.head := r.get_fst

@[simp] theorem stream_peek (r : Reader) : r.peek.2.stream = r.stream := by
  rw [stream_eq_cons r.peek.2, get_peek, ← stream_eq_cons]

theorem stream_skip (r : Reader) : r.skip.stream = r.stream.tail := r.stream_get

@[simp] theorem stream_noteAll (r : Reader) (es : List Event) : (r.noteAll es).stream = r.stream :=
  rfl

@[simp] theorem stream_skip_peek (r : Reader) : r.peek.2.skip.stream = r.stream.tail := by
  rw [stream_skip, stream_peek]

/-- What is noted in the log between a look and the next token changes nothing. -/
@[simp] theorem stream_skip_noteAll_peek (r : Reader) (es : List Event) :
    (r.peek.2.noteAll es).skip.stream = r.stream.tail := by
  rw [stream_skip, stream_noteAll, stream_peek]

theorem stream_ofTokens (ts : List Token) :
    (ofTokens ts).stream = ts ++ₛ Stream'.const Token.endOfFile := rfl

end Reader

namespace Outcome

variable {α β : Type}

/-- The outcomes agree in all but the way in which their readers hold what is left. -/
inductive Same : Outcome α → Outcome α → Prop
  | done {a : α} {r s : Reader} (h : r.stream = s.stream) : Same (done a r) (done a s)
  | refused {e : Mismatch} {r s : Reader} (h : r.stream = s.stream) :
    Same (refused e r) (refused e s)

theorem Same.exists_done {o o' : Outcome α} {a : α} {r : Reader} (h : o.Same o')
    (ho : o = .done a r) : ∃ s, o' = .done a s ∧ s.stream = r.stream := by
  subst ho
  cases h with
  | done h => exact ⟨_, rfl, h.symm⟩

end Outcome

open Outcome (Same)

theorem get_congr {r s : Reader} (h : r.stream = s.stream) :
    r.get.1 = s.get.1 ∧ r.get.2.stream = s.get.2.stream := by
  rw [r.get_fst, s.get_fst, r.stream_get, s.stream_get, h]
  exact ⟨rfl, rfl⟩

theorem peek_congr {r s : Reader} (h : r.stream = s.stream) :
    r.peek.1 = s.peek.1 ∧ r.peek.2.stream = s.peek.2.stream := by
  rw [r.stream_peek, s.stream_peek]
  exact ⟨(get_congr h).1, h⟩

/-- Readers with one stream stay together for ever. -/
theorem Reader.lockstep_stream :
    Reader.Lockstep (fun _ => False) (fun r s => r.stream = s.stream) where
  together_get h := Or.inr (get_congr h)
  together_peek h := Or.inr (peek_congr h)
  together_note _ h := h
  beyond_get := id
  beyond_peek := id
  beyond_note _ := id

theorem Outcome.InStep.same {α : Type} {r s : Reader} {o o' : Outcome α}
    (h : o.InStep (fun _ => False) (fun r s => r.stream = s.stream) r s o')
    (hs : r.stream = s.stream) : o.Same o' := by
  rcases h.together hs with hf | hm
  · exact hf.elim
  · cases hm with
    | done h' => exact .done h'
    | refused h' => exact .refused h'

namespace Parse

theorem primary_leaves (r : Reader) : (primary r).Leaves 0 r.remaining := (Bounded.primary r).leaves

theorem line_leaves (r : Reader) : (line r).Leaves 0 r.remaining := (Bounded.line r).leaves

theorem primary_congr {r s : Reader} (h : r.stream = s.stream) : (primary r).Same (primary s) :=
  (Reader.lockstep_stream.primary r s).same h

end Parse

end FrontEnd
