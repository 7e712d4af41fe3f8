/-
# The books of a layout scanner

A block that is opened is closed once, at once or after some calls in which its dedent is
owed. So over a run of calls the indents are as many as the dedents, the blocks that are
still open and the dedents that are still owed. The stack of widths moves at one end: a
call opens one wider block, or it closes inner blocks, and never the outermost.

A run may also save its state and load snapshots. What a run may load decides what can be
said about it: foreign bytes can set any widths, but always some, while snapshots of the
run itself bring back a stack that was built up by calls.
-/

import ContextLexer.Proofs.Offside.Change
import ContextLexer.Proofs.Offside.Loading

namespace ContextLexer.Offside

/-! ## Runs -/

/-- Which snapshots a run may load, given those that it has taken. -/
abbrev Source := (taken : List (List UInt8)) → (bytes : List UInt8) → Prop

namespace Source

/-- Any bytes. -/
def foreign : Source := fun _ _ => True

/-- The snapshots of the run, and the empty one, which is a return to the beginning. -/
def own : Source := fun taken bytes => bytes = [] ∨ bytes ∈ taken

/-- No snapshot. -/
def nothing : Source := fun _ _ => False

end Source

/-- The runs of a scanner that has just begun: the snapshots taken, latest first, the kinds
of the tokens returned, in their order, and the state after them. -/
inductive Run (source : Source) : List (List UInt8) → List Kind → State → Prop
  /-- Nothing has happened. -/
  | begin : Run source [] [] State.initial
  /-- The scanner is called at some place of some text. -/
  | scan {taken : List (List UInt8)} {tokens : List Kind} {s : State}
      (accepted : Acceptance Kind) (origin : Place) (before : Run source taken tokens s) :
      Run source taken
        (tokens ++ ((Scanner.call s accepted origin).token.map Token.kind).toList)
        (Scanner.call s accepted origin).state
  /-- A snapshot is taken. -/
  | save {taken : List (List UInt8)} {tokens : List Kind} {s : State} (capacity : Nat)
      (before : Run source taken tokens s) :
      Run source (Scanner.save s capacity :: taken) tokens s
  /-- A snapshot is loaded, successfully or not. -/
  | load {taken : List (List UInt8)} {tokens : List Kind} {s : State} {bytes : List UInt8}
      (permitted : source taken bytes) (before : Run source taken tokens s) :
      Run source taken tokens (Scanner.load s bytes).state

variable {source : Source} {taken : List (List UInt8)} {tokens : List Kind} {s later : State}
  {kind : Option Kind}

/-- A run that loads nothing is one that may load its own snapshots. -/
theorem Run.toOwn (run : Run .nothing taken tokens s) : Run .own taken tokens s := by
  induction run with
  | begin => exact .begin
  | scan accepted origin _ ih => exact .scan accepted origin ih
  | save capacity _ ih => exact .save capacity ih
  | load permitted _ _ => exact permitted.elim

/-! ## The queue -/

/-- Nothing waits between two calls but the newline after a dedent. -/
def State.Calm (s : State) : Prop := s.queue = [] ∨ s.queue = [.newline]

theorem Change.calm (change : Change s later kind) (calm : s.Calm) : later.Calm := by
  cases change with
  | nothing | ended => exact calm
  | owed | closed => exact .inr rfl
  | opened idle | owing idle => exact .inl idle
  | queued waiting =>
      rcases calm with idle | newline
      · cases waiting.symm.trans idle
      · cases waiting.symm.trans newline
        exact .inl rfl

/-- An indent is never kept waiting. -/
theorem State.Calm.kind_eq {waiting : Kind} {queue : List Kind} (calm : s.Calm)
    (h : s.queue = waiting :: queue) : waiting = .newline := by
  rcases calm with idle | newline
  · cases h.symm.trans idle
  · cases h.symm.trans newline
    rfl

/-! ## Accounts -/

/-- The blocks that are open, and those that are closed and owed. -/
def State.unpaid (s : State) : Nat := s.depth + s.owed

/-- A call changes what is unpaid by the token that it returns. -/
theorem Change.unpaid (change : Change s later kind) (calm : s.Calm) :
    kind.toList.count .dedent + later.unpaid = kind.toList.count .indent + s.unpaid := by
  cases change with
  | nothing | ended => rfl
  | queued waiting =>
      cases calm.kind_eq waiting
      rfl
  | owed idle due =>
      simp [State.unpaid, State.depth, due]
      omega
  | opened =>
      simp [State.unpaid, State.depth]
      omega
  | closed idle split =>
      simp [State.unpaid, State.depth, split]
      omega
  | owing idle split =>
      simp [State.unpaid, State.depth, split]
      omega

/-! ## The stack -/

/-- A stack of widths after a call: some outer widths are left, or one is added that is
larger than all others, and an indent tells of that. -/
def Restacks (before after : List UInt16) (kind : Option Kind) : Prop :=
  (after ≠ [] ∧ after <+: before ∧ kind ≠ some .indent) ∨
  (∃ width, after = before ++ [width] ∧ (∀ w ∈ before, w < width) ∧ kind = some .indent)

theorem State.widths_ne_nil (s : State) : s.widths ≠ [] := List.cons_ne_nil _ _

theorem State.widths_cons_blocks (s : State) (width : UInt16) :
    { s with blocks := width :: s.blocks }.widths = s.widths ++ [width] := by
  simp [State.widths]

theorem State.widths_prefix {inner outer : List UInt16} (split : s.blocks = inner ++ outer) :
    { s with blocks := outer }.widths <+: s.widths := by
  refine ⟨inner.reverse, ?_⟩
  simp [State.widths, split]

/-- In an increasing stack no width is larger than that of the innermost block. -/
theorem State.le_innermost (increasing : s.widths.Pairwise (· < ·)) :
    ∀ w ∈ s.widths, w ≤ s.innermost := by
  intro w hw
  rw [State.widths] at increasing hw
  rw [State.innermost]
  cases hblocks : s.blocks with
  | nil =>
      rw [hblocks] at hw
      simpa using UInt16.le_of_eq (List.mem_singleton.mp hw)
  | cons b blocks =>
      rw [hblocks, List.reverse_cons, ← List.cons_append] at increasing hw
      rcases List.mem_append.mp hw with hw | hw
      · exact UInt16.le_of_lt ((List.pairwise_append.mp increasing).2.2 w hw b (by simp))
      · exact UInt16.le_of_eq (List.mem_singleton.mp hw)

theorem Change.restacks (change : Change s later kind) (calm : s.Calm)
    (increasing : s.widths.Pairwise (· < ·)) : Restacks s.widths later.widths kind := by
  cases change with
  | nothing => exact .inl ⟨s.widths_ne_nil, List.prefix_rfl, by simp⟩
  | queued waiting =>
      cases calm.kind_eq waiting
      exact .inl ⟨State.widths_ne_nil _, List.prefix_rfl, by simp⟩
  | ended => exact .inl ⟨s.widths_ne_nil, List.prefix_rfl, by simp⟩
  | owed => exact .inl ⟨State.widths_ne_nil _, List.prefix_rfl, by simp⟩
  | @opened width idle wider =>
      refine .inr ⟨width, s.widths_cons_blocks width, ?_, rfl⟩
      intro w hw
      exact UInt16.lt_of_le_of_lt (State.le_innermost increasing w hw) wider
  | closed idle split =>
      exact .inl ⟨State.widths_ne_nil _, State.widths_prefix split, by simp⟩
  | owing idle split =>
      exact .inl ⟨State.widths_ne_nil _, State.widths_prefix split, by simp⟩

/-- What calls keep of a state: the stack grows from zero, and the queue is calm. -/
structure Sound (s : State) : Prop where
  base : s.widths.head? = some 0
  increasing : s.widths.Pairwise (· < ·)
  calm : s.Calm

theorem Sound.initial : Sound .initial where
  base := rfl
  increasing := List.pairwise_singleton _ _
  calm := .inl rfl

theorem Sound.change (sound : Sound s) (change : Change s later kind) : Sound later := by
  refine ⟨?_, ?_, change.calm sound.calm⟩
  · have hbase : later.base = s.base := by cases change <;> rfl
    simpa [State.widths, hbase] using sound.base
  · rcases change.restacks sound.calm sound.increasing with
      ⟨-, hprefix, -⟩ | ⟨width, hwidths, hlarger, -⟩
    · exact sound.increasing.sublist hprefix.sublist
    · rw [hwidths, List.pairwise_append]
      refine ⟨sound.increasing, List.pairwise_singleton _ _, ?_⟩
      intro w hw v hv
      rw [List.mem_singleton.mp hv]
      exact hlarger w hw

/-! ## Snapshots -/

/-- A save returns the bytes of the state or none. -/
theorem State.save_cases (s : State) (capacity : Nat) :
    Scanner.save s capacity = [] ∨ s.owed ≤ 255 ∧ Scanner.save s capacity = s.format := by
  rw [Scanner.save_eq s.writes_format]
  split
  · next h => exact .inr ⟨h.1, rfl⟩
  · exact .inl rfl

/-- Snapshots that are empty or tell of sound states. -/
def TellSound (taken : List (List UInt8)) : Prop :=
  ∀ bytes ∈ taken, bytes = [] ∨ ∃ saved : State, Sound saved ∧ saved.owed ≤ 255 ∧
    bytes = saved.format

/-- A run of calls and restores keeps its state and its snapshots sound. -/
theorem Run.sound (run : Run .own taken tokens s) : Sound s ∧ TellSound taken := by
  induction run with
  | begin => exact ⟨.initial, by simp [TellSound]⟩
  | scan accepted origin _ ih => exact ⟨ih.1.change (change_call _ accepted origin), ih.2⟩
  | @save taken tokens s capacity _ ih =>
      refine ⟨ih.1, ?_⟩
      intro bytes hbytes
      rcases List.mem_cons.mp hbytes with rfl | hbytes
      · rcases s.save_cases capacity with hempty | ⟨howed, hformat⟩
        · exact .inl hempty
        · exact .inr ⟨s, ih.1, howed, hformat⟩
      · exact ih.2 bytes hbytes
  | @load taken tokens s bytes permitted _ ih =>
      refine ⟨?_, ih.2⟩
      have htold : bytes = [] ∨ ∃ saved : State, Sound saved ∧ saved.owed ≤ 255 ∧
          bytes = saved.format := permitted.elim .inl (ih.2 bytes)
      rcases htold with rfl | ⟨saved, hsaved, howed, rfl⟩
      · exact .initial
      · have hload : Scanner.load s saved.format = ⟨{ saved with queue := s.queue }, none⟩ :=
          saved.load_format howed s
        rw [hload]
        exact ⟨hsaved.base, hsaved.increasing, ih.1.calm⟩

/-- The widths that a snapshot tells of: the words behind its first byte, and zero if there
is none. -/
def told (bytes : List UInt8) : List UInt16 :=
  if words bytes.tail = [] then [0] else words bytes.tail

/-- Loading any bytes sets the widths that they tell of, also if they are no snapshot. -/
theorem widths_load (s : State) (bytes : List UInt8) :
    (Scanner.load s bytes).state.widths = told bytes := by
  cases bytes with
  | nil => rfl
  | cons byte bytes =>
      have hload : Scanner.load s (byte :: bytes) = _ := s.load_cons byte bytes
      rw [hload]
      exact State.widths_setWidths _ _

theorem told_ne_nil (bytes : List UInt8) : told bytes ≠ [] := by
  rw [told]
  split
  · exact List.cons_ne_nil 0 []
  · assumption

/-! ## All runs -/

/-- The outermost block never closes. -/
theorem Change.head?_widths (change : Change s later kind) :
    later.widths.head? = s.widths.head? := by
  cases change <;> rfl

/-- Along a run without loads the indents pay for what is open and what is owed. -/
theorem Run.balance (run : Run .nothing taken tokens s) :
    tokens.count .indent = tokens.count .dedent + s.unpaid := by
  induction run with
  | begin => rfl
  | @scan taken tokens s accepted origin before ih =>
      have hcalm := before.toOwn.sound.1.calm
      have hunpaid := (change_call s accepted origin).unpaid hcalm
      rw [List.count_append, List.count_append]
      omega
  | save capacity _ ih => exact ih
  | load permitted _ _ => exact permitted.elim

/-- Whatever a run loads, there is an outermost block: a call never closes it, and any bytes
tell of one. If a run loads only snapshots of its own, the widths increase from zero. And
if it loads none, then after every call the indents returned are as many as the dedents,
the open blocks and the owed dedents, and the next call closes some inner blocks or opens
one that is wider than all others, which it does exactly when it returns an indent. In
particular no more dedents are ever owed than indents have been returned. -/
theorem runs_keep_books :
    (∀ taken tokens s, Run .foreign taken tokens s →
      s.widths ≠ [] ∧
      (∀ accepted origin,
        (Scanner.call s accepted origin).state.widths.head? = s.widths.head?) ∧
      ∀ bytes, (Scanner.load s bytes).state.widths = told bytes ∧ told bytes ≠ []) ∧
    (∀ taken tokens s, Run .own taken tokens s →
      s.widths.head? = some 0 ∧ s.widths.Pairwise (· < ·)) ∧
    (∀ taken tokens s, Run .nothing taken tokens s →
      tokens.count .indent = tokens.count .dedent + (s.depth + s.owed) ∧
      ∀ accepted origin,
        Restacks s.widths (Scanner.call s accepted origin).state.widths
          ((Scanner.call s accepted origin).token.map Token.kind)) := by
  refine ⟨?_, ?_, ?_⟩
  · intro taken tokens s _
    refine ⟨s.widths_ne_nil, ?_, fun bytes => ⟨widths_load s bytes, told_ne_nil bytes⟩⟩
    intro accepted origin
    exact (change_call s accepted origin).head?_widths
  · intro taken tokens s run
    exact ⟨run.sound.1.base, run.sound.1.increasing⟩
  · intro taken tokens s run
    refine ⟨run.balance, ?_⟩
    intro accepted origin
    have hsound := run.toOwn.sound.1
    exact (change_call s accepted origin).restacks hsound.calm hsound.increasing

/-- A deeper line opens a block, in front of its word the next call declines, and a snapshot
is taken and loaded. -/
theorem runs_keep_books_indented :
    let line := Scanner.call State.initial .all (.first [' ', 'a'])
    let word := Scanner.call line.state .all line.place
    let restored := (Scanner.load word.state (Scanner.save word.state 8)).state
    word.token = none ∧ word.state.widths = [0, 1] ∧ word.state.widths ≠ [] ∧
      restored.widths.Pairwise (· < ·) ∧
      [Kind.indent].count .indent = [Kind.indent].count .dedent + (word.state.depth + 0) := by
  intro line word restored
  have run (source : Source) : Run source [] [.indent] word.state :=
    .scan .all line.place (.scan .all (.first [' ', 'a']) .begin)
  have reloaded : Run .own [Scanner.save word.state 8] [.indent] restored :=
    .load (.inr (List.mem_singleton_self _)) (.save 8 (run .own))
  refine ⟨by decide, by decide, ?_, ?_, ?_⟩
  · exact (runs_keep_books.1 _ _ _ (run .foreign)).1
  · exact (runs_keep_books.2.1 _ _ _ reloaded).2
  · exact (runs_keep_books.2.2 _ _ _ (run .nothing)).1

end ContextLexer.Offside
