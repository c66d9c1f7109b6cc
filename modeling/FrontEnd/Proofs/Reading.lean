import FrontEnd.Proofs.TokenStream

/-!
# What a reader has handed out

A parser looks at a token before it takes it, and it may leave a token at which it has looked.  The
token is scanned by the look, and it counts as handed out only when it is taken.

* `Reader.Takes` — a reader hands out some tokens and becomes another reader, with looks and notes on
  the way.  `Takes.stream` says that these tokens are what its stream has lost.
* `Reader.StopsAt` — behind these tokens one more was handed out, and perhaps taken back at once.
* `Log.scanned` — the tokens that a log reports as scanned.
* `Reader.Delivered` — the log of a reader reports the tokens handed out, and behind them the one that
  is held back.  `Takes.delivered` and `StopsAt.scanned` say how the two go on.
-/

namespace FrontEnd

open Stream' (append_append_stream cons_append_stream)

namespace Reader

/-- The reader `r` hands out `ts` and becomes `s`. -/
inductive Takes (r : Reader) : List Token → Reader → Prop
  | here : Takes r [] r
  | look {ts : List Token} {s : Reader} (h : Takes r ts s) : Takes r ts s.peek.2
  | note {ts : List Token} {s : Reader} {es : List Event} (h : Takes r ts s) (hes : Quiet es) :
    Takes r ts (s.noteAll es)
  | take {ts : List Token} {s : Reader} (h : Takes r ts s) : Takes r (ts ++ [s.get.1]) s.get.2

theorem takes_get (r : Reader) : r.Takes [r.get.1] r.get.2 := Takes.here.take

theorem takes_peek (r : Reader) : r.Takes [] r.peek.2 := Takes.here.look

theorem takes_skip_peek (r : Reader) : r.Takes [r.peek.1] r.peek.2.skip := by
  rw [r.skip_peek]
  exact r.takes_get

/-- Between the look and the drop decisions may be noted. -/
theorem takes_skip_note (r : Reader) {es : List Event} (hes : Quiet es) :
    r.Takes [r.peek.1] (r.peek.2.noteAll es).skip := by
  have ht : (r.peek.2.noteAll es).get.1 = r.peek.1 := r.last_get
  exact ht ▸ (r.takes_peek.note hes).take

theorem Takes.trans {r s t : Reader} {ts us : List Token} (h : r.Takes ts s) (h' : s.Takes us t) :
    r.Takes (ts ++ us) t := by
  induction h' with
  | here => simpa using h
  | look _ ih => exact ih.look
  | note _ hes ih => exact ih.note hes
  | take _ ih => simpa using ih.take

/-- What a reader hands out is what its stream loses. -/
theorem Takes.stream {r s : Reader} {ts : List Token} (h : r.Takes ts s) :
    r.stream = ts ++ₛ s.stream := by
  induction h with
  | here => rfl
  | look _ ih => rw [ih, stream_peek]
  | note _ _ ih => exact ih
  | @take ts s _ ih => rw [ih, s.stream_eq_cons, append_append_stream]; rfl

/-- Behind `ts` the reader `r` has handed out `t`.  The reader `s` may hold `t` back. -/
def StopsAt (r : Reader) (ts : List Token) (t : Token) (s : Reader) : Prop :=
  ∃ q, r.Takes ts q ∧ q.get.1 = t ∧ (s = q.get.2 ∨ s = q.peek.2)

theorem stopsAt_get (r : Reader) : r.StopsAt [] r.get.1 r.get.2 := ⟨r, .here, rfl, Or.inl rfl⟩

theorem stopsAt_peek (r : Reader) : r.StopsAt [] r.peek.1 r.peek.2 := ⟨r, .here, rfl, Or.inr rfl⟩

theorem Takes.stopsAt {r s q : Reader} {ts us : List Token} {t : Token} (h : r.Takes ts q)
    (h' : q.StopsAt us t s) : r.StopsAt (ts ++ us) t s := by
  obtain ⟨q', hq, ht, hs⟩ := h'
  exact ⟨q', h.trans hq, ht, hs⟩

end Reader

/-- The tokens that are reported as scanned, in order. -/
def Log.scanned (log : Log) : List Token := log.toList.filterMap Event.scannedToken?

namespace Reader

/-- The log reports the tokens `ts`, and behind them the token that is held back. -/
def Delivered (ts : List Token) (r : Reader) : Prop :=
  r.log.scanned = ts ++ (if r.pending then [r.last] else [])

theorem delivered_ofTokens (ts : List Token) : (ofTokens ts).Delivered [] := rfl

theorem scanned_push_scanned (log : Log) (t : Token) :
    Log.scanned (log.push (.scanned t)) = log.scanned ++ [t] := by
  simp [Log.scanned, Event.scannedToken?]

theorem scanned_append_quiet (log : Log) {es : List Event} (hes : Quiet es) :
    Log.scanned (log ++ es) = log.scanned := by
  have none : es.filterMap Event.scannedToken? = [] := List.filterMap_eq_nil_iff.2 hes
  simp [Log.scanned, none]

theorem scanned_scanToken (r : Reader) :
    r.scanToken.2.log.scanned = r.log.scanned ++ [r.scanToken.1] := by
  unfold scanToken
  split <;> exact scanned_push_scanned _ _

variable {r s : Reader} {ts us : List Token} {t : Token}

theorem Delivered.scanned_get (h : r.Delivered ts) :
    r.get.2.log.scanned = ts ++ [r.get.1] := by
  unfold Delivered at h
  unfold get
  split
  · rename_i hp
    simpa [hp] using h
  · rename_i hp
    rw [scanned_scanToken, h]
    simp [hp]

theorem Delivered.get (h : r.Delivered ts) : r.get.2.Delivered (ts ++ [r.get.1]) := by
  unfold Delivered
  rw [r.pending_get, h.scanned_get]
  simp

theorem Delivered.peek (h : r.Delivered ts) : r.peek.2.Delivered ts := by
  unfold Delivered
  show r.get.2.log.scanned = ts ++ [r.get.2.last]
  rw [r.last_get, h.scanned_get]

theorem Delivered.noteAll {es : List Event} (h : r.Delivered ts) (hes : Quiet es) :
    (r.noteAll es).Delivered ts :=
  (scanned_append_quiet r.log hes).trans h

/-- What a reader takes is added to what was delivered. -/
theorem Takes.delivered (h : r.Takes us s) (hr : r.Delivered ts) : s.Delivered (ts ++ us) := by
  induction h with
  | here => simpa using hr
  | look _ ih => exact ih.peek
  | note _ hes ih => exact ih.noteAll hes
  | take _ ih => simpa using ih.get

/-- **A reader that stops at a token has scanned that token and none behind it.** -/
theorem StopsAt.scanned (h : r.StopsAt us t s) (hr : r.Delivered ts) :
    s.log.scanned = ts ++ us ++ [t] := by
  obtain ⟨q, hq, rfl, rfl | rfl⟩ := h
  · exact (hq.delivered hr).scanned_get
  · exact (hq.delivered hr).scanned_get

end Reader

end FrontEnd
