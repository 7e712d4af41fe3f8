/-
# Every dedent brings a newline

A dedent and the newline after it are two tokens, and a host may do much between the two
calls that return them: it may call with sets that do not accept a newline, save the
scanner, and load other snapshots into it. Through all of this the newline waits in the
queue, because a call with something in the queue does not look at the text, and because a
snapshot says nothing about the queue. Only the empty snapshot clears it.
-/

import ContextLexer.Proofs.Offside.Account
import ContextLexer.Proofs.Passage

namespace ContextLexer.Offside

variable {taken : List (List UInt8)} {tokens : List Kind} {s later : State}
  {kind : Option Kind} {accepted : Acceptance Kind}

/-- Any bytes, valid or not, but the empty snapshot, which is a return to the beginning. -/
def Source.substantial : Source := fun _ bytes => bytes ≠ []

/-! ## The queue -/

/-- The queue that the tokens returned so far call for: a newline if the last of them is a
dedent. -/
def pending (tokens : List Kind) : List Kind :=
  if tokens.getLast? = some .dedent then [.newline] else []

theorem pending_eq_newline : pending tokens = [.newline] ↔ tokens.getLast? = some .dedent := by
  simp [pending]

theorem pending_concat_dedent (tokens : List Kind) : pending (tokens ++ [.dedent]) = [.newline] := by
  simp [pending]

theorem pending_concat {kind : Kind} (h : kind ≠ .dedent) : pending (tokens ++ [kind]) = [] := by
  simp [pending, h]

/-- A token that is returned from the queue is a newline, and it leaves the queue empty. -/
theorem pending_cons {kind : Kind} {queue : List Kind} (h : pending tokens = kind :: queue) :
    kind = .newline ∧ queue = [] := by
  rw [pending] at h
  split at h
  · cases h
    exact ⟨rfl, rfl⟩
  · cases h

/-- A call keeps the queue as the tokens call for it. -/
theorem Change.queue_eq (change : Change s later kind) (queue : s.queue = pending tokens) :
    later.queue = pending (tokens ++ kind.toList) := by
  cases change with
  | nothing | owing => simpa using queue
  | queued waiting =>
      obtain ⟨rfl, rfl⟩ := pending_cons (queue.symm.trans waiting)
      exact (pending_concat (by decide)).symm
  | ended idle | opened idle => exact idle.trans (pending_concat (by decide)).symm
  | owed | closed => exact (pending_concat_dedent tokens).symm

/-- After any run the queue is what the tokens of the run call for. -/
theorem Run.queue_eq (run : Run .substantial taken tokens s) : s.queue = pending tokens := by
  induction run with
  | begin => rfl
  | scan accepted origin _ ih => exact (change_call _ accepted origin).queue_eq ih
  | save capacity _ ih => exact ih
  | @load taken tokens s bytes permitted _ ih => exact (s.queue_load permitted).trans ih

/-! ## The tokens -/

/-- While a newline waits, a call returns nothing else. -/
theorem Change.kind_of_waiting (change : Change s later kind) (waiting : s.queue = [.newline]) :
    ∀ next ∈ kind, next = .newline := by
  cases change with
  | nothing | owing => simp
  | ended => simp
  | queued queue =>
      cases waiting.symm.trans queue
      simp
  | owed idle | opened idle | closed idle => cases waiting.symm.trans idle

/-- In the tokens of a run a dedent is followed by nothing but a newline. -/
theorem Run.pairs (run : Run .substantial taken tokens s) :
    tokens.IsChain fun first next => first = .dedent → next = .newline := by
  induction run with
  | begin => exact .nil
  | @scan taken tokens s accepted origin before ih =>
      refine List.isChain_append.mpr ⟨ih, ?_, ?_⟩
      · cases (Scanner.call s accepted origin).token.map Token.kind with
        | none => exact .nil
        | some kind => exact .singleton kind
      · rintro first hlast next hnext rfl
        have hwaiting : s.queue = [.newline] :=
          before.queue_eq.trans (pending_eq_newline.mpr hlast)
        exact (change_call s accepted origin).kind_of_waiting hwaiting next (by simpa using hnext)
  | save capacity _ ih => exact ih
  | load permitted _ ih => exact ih

/-! ## Waiting -/

/-- What can become of a scanner as long as no call accepts a newline. A save changes
nothing. -/
inductive Waits (s : State) : State → Prop
  /-- Nothing has happened. -/
  | begin : Waits s s
  /-- A call does not accept a newline. -/
  | scan {later : State} (accepted : Acceptance Kind) (origin : Place)
      (unwanted : .newline ∉ accepted) (before : Waits s later) :
      Waits s (Scanner.call later accepted origin).state
  /-- A snapshot is loaded, successfully or not. -/
  | load {later : State} (bytes : List UInt8) (substantial : bytes ≠ []) (before : Waits s later) :
      Waits s (Scanner.load later bytes).state

/-- A waiting newline is returned where the call begins, if it is accepted; otherwise the
call declines. The text does not matter. -/
theorem call_of_waiting (waiting : s.queue = [.newline]) (accepted : Acceptance Kind)
    (origin : Place) :
    Scanner.call s accepted origin =
      if .newline ∈ accepted then
        ⟨{ s with queue := [] }, some ⟨.newline, origin, origin⟩, origin⟩
      else ⟨s, none, origin⟩ := by
  have hscan : Scanner.scan s accepted (.begin origin) =
      s.handOut accepted (.begin origin) := by
    change s.scan accepted (.begin origin) = _
    rw [State.scan, if_neg (by simp [waiting])]
  rw [Scanner.call, hscan]
  by_cases h : .newline ∈ accepted
  · rw [State.handOut_of_mem waiting h, if_pos h]
    rw [settle, Cursor.token_begin]
    rfl
  · simp [State.handOut, waiting, h, settle]

/-- The newline goes on waiting until a call accepts it. -/
theorem Waits.queue_eq (waits : Waits s later) (waiting : s.queue = [.newline]) :
    later.queue = [.newline] := by
  induction waits with
  | begin => exact waiting
  | @scan later accepted origin unwanted _ ih =>
      rw [call_of_waiting ih, if_neg unwanted]
      exact ih
  | @load later bytes substantial _ ih => exact (later.queue_load substantial).trans ih

/-- Whatever a scanner has been through, short of the empty snapshot, its queue is empty or
holds one newline, and it holds the newline exactly if the last token returned is a dedent.
So among the tokens a dedent is followed by a newline. It is returned by the first call that
accepts it, where this call begins, and the cursor is not moved; every call before that one
declines and leaves the scanner as it was. -/
theorem dedents_bring_newlines (taken : List (List UInt8)) (tokens : List Kind) (s : State)
    (run : Run .substantial taken tokens s) :
    (s.queue = [] ∨ s.queue = [.newline]) ∧
    (s.queue = [.newline] ↔ tokens.getLast? = some .dedent) ∧
    (∀ earlier next others, tokens = earlier ++ .dedent :: next :: others → next = .newline) ∧
    (tokens.getLast? = some .dedent → ∀ later, Waits s later →
      ∀ (accepted : Acceptance Kind) (origin : Place),
        Scanner.call later accepted origin =
          if .newline ∈ accepted then
            ⟨{ later with queue := [] }, some ⟨.newline, origin, origin⟩, origin⟩
          else ⟨later, none, origin⟩) := by
  have hqueue := run.queue_eq
  refine ⟨?_, ?_, ?_, ?_⟩
  · rw [hqueue, pending]
    split
    · exact .inr rfl
    · exact .inl rfl
  · rw [hqueue, pending_eq_newline]
  · rintro earlier next others rfl
    have hchain := (List.isChain_append.mp run.pairs).2.1
    exact (List.isChain_cons_cons.mp hchain).1 rfl
  · intro hlast later waits accepted origin
    have hwaiting : s.queue = [.newline] := hqueue.trans (pending_eq_newline.mpr hlast)
    exact call_of_waiting (waits.queue_eq hwaiting) accepted origin

/-- A block closes in front of the second line. Bytes that are refused are loaded and a call
asks for an indent before the newline is asked for, at another place. -/
theorem dedents_bring_newlines_reloaded :
    let opened := Scanner.call State.initial .all (.first [' ', 'a', '\n', 'b'])
    let closed := Scanner.call opened.state .all ⟨['a', ' '], ['\n', 'b']⟩
    let loaded := (Scanner.load closed.state [0, 7]).state
    let declined := Scanner.call loaded (.ofList [.indent]) (.first ['b'])
    closed.token.map Token.kind = some .dedent ∧
      (Scanner.load closed.state [0, 7]).failure = some (.trailingBytes 1 1) ∧
      Scanner.call declined.state .all (.first ['c']) =
        ⟨{ declined.state with queue := [] }, some ⟨.newline, .first ['c'], .first ['c']⟩,
          .first ['c']⟩ := by
  intro opened closed loaded declined
  have run : Run .substantial [] [.indent, .dedent] closed.state :=
    .scan .all ⟨['a', ' '], ['\n', 'b']⟩ (.scan .all (.first [' ', 'a', '\n', 'b']) .begin)
  have waits : Waits closed.state declined.state :=
    .scan _ _ (by decide) (.load [0, 7] (by decide) .begin)
  refine ⟨by decide, by decide, ?_⟩
  have hcall := (dedents_bring_newlines _ _ _ run).2.2.2 rfl _ waits .all (.first ['c'])
  rwa [if_pos (by decide)] at hcall

end ContextLexer.Offside
