/-
# Replays

A host that may come back to any place saves the scanner before every call and restores it
from what was saved. If every state that comes up this way can be saved in full, nothing is
lost: the host sees the same rounds as without saving, whatever else the scanner has in
memory. The argument is a simulation. As long as the rounds so far agree, both hosts stand
at the same place in the same state, and the snapshot of that state brings it back, so the
next rounds agree as well.
-/

import ContextLexer.Proofs.Drives
import ContextLexer.Proofs.Snapshot.RoundTrip

namespace ContextLexer

open Snapshot

/-! ## States that are brought back -/

section

variable {σ κ : Type} [DecidableEq κ] [Vocabulary κ] [Scanner σ κ]

/-- Whether a state can be written within the standard capacity. -/
def Scanner.Saves (state : σ) : Prop :=
  ∃ writer, Scanner.write state ⟨Capacity.standard, []⟩ = .ok () writer

instance (state : σ) : Decidable (Scanner.Saves state) :=
  match h : Scanner.write state ⟨Capacity.standard, []⟩ with
  | .ok () writer => isTrue ⟨writer, h⟩
  | .error _ _ => isFalse fun ⟨_, hok⟩ => nomatch h.symm.trans hok

/-- The snapshot of a state that can be saved is its format. -/
theorem Scanner.Saves.snapshot_eq {state : σ} (saves : Saves state) {bytes : List UInt8}
    {legal : Prop} [Decidable legal] (writes : Writes (Scanner.write state) bytes legal) :
    legal ∧ snapshot state = bytes := by
  obtain ⟨writer, hok⟩ := saves
  by_cases hfits : legal ∧ bytes.length ≤ Capacity.standard
  · exact ⟨hfits.1, by rw [snapshot, save_eq writes, if_pos hfits]⟩
  · obtain ⟨error, later, hfails⟩ := writes.error ⟨Capacity.standard, []⟩ (Nat.zero_le _)
      fun hall => hfits ⟨hall.1, by simpa [Writer.HasRoom] using hall.2⟩
    cases hok.symm.trans hfails

namespace Resumption

/-- The scanner into which the snapshot of a state is restored. -/
def receiver (state : σ) : Resumption → σ
  | straight | restored => state
  | replaced => Scanner.initial

/-- Whether the snapshot of a state is accepted by its receiver, and brings the state back. -/
def Faithful (resumption : Resumption) (state : σ) : Prop :=
  Scanner.load (resumption.receiver state) (Scanner.snapshot state) = ⟨state, none⟩

variable {resumption : Resumption} {state : σ}

theorem Faithful.resume_eq (faithful : resumption.Faithful state) :
    resumption.resume state = state := by
  cases resumption with
  | straight => rfl
  | restored | replaced => exact congrArg Loaded.state faithful

theorem Faithful.complaint?_eq (faithful : resumption.Faithful state) :
    Scanner.complaint? (resumption.receiver state) (Scanner.snapshot state) = none := by
  rw [Scanner.complaint?, faithful]
  rfl

end Resumption

end

/-- The layout scanner is brought back if its receiver has the same tokens in its queue. -/
theorem Offside.State.faithful {s : State} (saves : Scanner.Saves s) {resumption : Resumption}
    (queue : (resumption.receiver s).queue = s.queue) : resumption.Faithful s := by
  obtain ⟨howed, hsnapshot⟩ := saves.snapshot_eq s.writes_format
  have hload : Scanner.load (resumption.receiver s) s.format =
      ⟨{ s with queue := (resumption.receiver s).queue }, none⟩ :=
    s.load_format howed (resumption.receiver s)
  rw [Resumption.Faithful, hsnapshot, hload, queue]

theorem Shell.State.faithful {s : State} (saves : Scanner.Saves s) (resumption : Resumption) :
    resumption.Faithful s := by
  obtain ⟨hlegal, hsnapshot⟩ := saves.snapshot_eq s.writes_format
  rw [Resumption.Faithful, hsnapshot]
  exact s.load_format hlegal

theorem Delimited.State.faithful {s : State} (saves : Scanner.Saves s)
    (resumption : Resumption) : resumption.Faithful s := by
  obtain ⟨-, hsnapshot⟩ := saves.snapshot_eq s.writes_format
  rw [Resumption.Faithful, hsnapshot]
  exact s.load_format

/-! ## Drives -/

namespace Host

variable {σ κ : Type} [DecidableEq σ] [DecidableEq κ] [Vocabulary κ] [Scanner σ κ]

/-- Whether something holds of the states in which the calls of a drive find the scanner.
The state before a call, and before it is saved there, is the one to which a drive of the
rounds before that call leads. -/
def Throughout (holds : σ → Prop) (stride : Stride) (resumption : Resumption)
    (sets : List (Acceptance κ)) (limit : Nat) (start : σ) (text : List Char) : Prop :=
  ∀ n < (drive stride resumption sets limit start text).1.length,
    holds (drive stride resumption sets n start text).2.state

instance (holds : σ → Prop) [DecidablePred holds] (stride : Stride) (resumption : Resumption)
    (sets : List (Acceptance κ)) (limit : Nat) (start : σ) (text : List Char) :
    Decidable (Throughout holds stride resumption sets limit start text) :=
  inferInstanceAs (Decidable (∀ n < _, _))

/-- A drive with a resumption goes like the one without: no snapshot is refused, the rounds
have the same tokens, host texts and states, and the host comes to the same place. -/
structure GoesStraight (stride : Stride) (resumption : Resumption)
    (sets : List (Acceptance κ)) (limit : Nat) (start : σ) (text : List Char) : Prop where
  accepted : Throughout
    (fun state => Scanner.complaint? (resumption.receiver state) (Scanner.snapshot state) = none)
    stride resumption sets limit start text
  same : drive stride resumption sets limit start text =
    drive stride .straight sets limit start text

variable {stride : Stride} {resumption : Resumption} {sets : List (Acceptance κ)}

/-- All that a round knows of the state is its resumption. -/
theorem round_of_resume (accepted : Acceptance κ) {now : Progress σ}
    (h : resumption.resume now.state = now.state) :
    round stride resumption accepted now = round stride .straight accepted now := by
  rw [round, h]
  rfl

theorem length_le_length_roundsFrom (limit : Nat) (played : List (Round σ κ))
    (now : Progress σ) :
    played.length ≤ (roundsFrom stride resumption sets limit played now).1.length := by
  induction limit generalizing played now with
  | zero => simp [roundsFrom]
  | succ limit ih =>
      rcases hround : round stride resumption (acceptedAfter sets played) now with
        ⟨latest, later, _ | _⟩
      · rw [roundsFrom_of_not_finished limit hround]
        exact Nat.le_of_succ_le (ih (latest :: played) later)
      · simp [roundsFrom_of_finished limit hround]

/-- A drive that has not come to its limit plays another round. -/
theorem length_lt_length_roundsFrom (limit : Nat) (played : List (Round σ κ))
    (now : Progress σ) :
    played.length < (roundsFrom stride resumption sets (limit + 1) played now).1.length := by
  rcases hround : round stride resumption (acceptedAfter sets played) now with
    ⟨latest, later, _ | _⟩
  · rw [roundsFrom_of_not_finished limit hround]
    exact length_le_length_roundsFrom limit (latest :: played) later
  · simp [roundsFrom_of_finished limit hround]

/-- If the state is brought back whenever the rounds so far agree, all rounds agree, and the
state is brought back before each of them. -/
theorem roundsFrom_eq_straight (limit : Nat) (played : List (Round σ κ)) (now : Progress σ)
    (faithful : ∀ n,
      played.length + n < (roundsFrom stride .straight sets limit played now).1.length →
      played.length + n < (roundsFrom stride resumption sets limit played now).1.length →
      roundsFrom stride resumption sets n played now =
        roundsFrom stride .straight sets n played now →
      resumption.Faithful (roundsFrom stride .straight sets n played now).2.state) :
    roundsFrom stride resumption sets limit played now =
        roundsFrom stride .straight sets limit played now ∧
      ∀ n, played.length + n < (roundsFrom stride resumption sets limit played now).1.length →
        resumption.Faithful (roundsFrom stride resumption sets n played now).2.state := by
  induction limit generalizing played now with
  | zero =>
      refine ⟨rfl, fun n hn => ?_⟩
      simp only [roundsFrom, List.length_reverse] at hn
      omega
  | succ limit ih =>
      have hnow : resumption.Faithful now.state := faithful 0
        (length_lt_length_roundsFrom limit played now)
        (length_lt_length_roundsFrom limit played now) rfl
      rcases hstraight : round stride .straight (acceptedAfter sets played) now with
        ⟨latest, later, _ | _⟩
      · -- The drive goes on, with one round more that agrees.
        have hround := (round_of_resume (acceptedAfter sets played) hnow.resume_eq).trans hstraight
        have hstep (n : Nat) := roundsFrom_of_not_finished n hround
        have hstraightStep (n : Nat) := roundsFrom_of_not_finished n hstraight
        have hcount (n : Nat) : played.length + (n + 1) = (latest :: played).length + n := by
          rw [List.length_cons]
          omega
        obtain ⟨hsame, hall⟩ := ih (latest :: played) later fun n hn hn' hagree => by
          have hfaithful := faithful (n + 1)
          rw [hstep, hstep, hstraightStep, hstraightStep, hcount] at hfaithful
          exact hfaithful hn hn' hagree
        rw [hstep, hstraightStep]
        refine ⟨hsame, fun n hn => ?_⟩
        cases n with
        | zero => exact hnow
        | succ n =>
            rw [hcount] at hn
            rw [hstep]
            exact hall n hn
      · -- This was the last round.
        have hround := (round_of_resume (acceptedAfter sets played) hnow.resume_eq).trans hstraight
        rw [roundsFrom_of_finished limit hround, roundsFrom_of_finished limit hstraight]
        refine ⟨rfl, fun n hn => ?_⟩
        obtain rfl : n = 0 := by
          simp only [List.length_reverse, List.length_cons] at hn
          omega
        exact hnow

/-- A drive goes like the straight one if the state is brought back whenever the two have
agreed so far. -/
theorem GoesStraight.of_faithful {limit : Nat} {start : σ} {text : List Char}
    (faithful : ∀ n,
      n < (drive stride .straight sets limit start text).1.length →
      n < (drive stride resumption sets limit start text).1.length →
      drive stride resumption sets n start text = drive stride .straight sets n start text →
      resumption.Faithful (drive stride .straight sets n start text).2.state) :
    GoesStraight stride resumption sets limit start text := by
  obtain ⟨hsame, hall⟩ := @roundsFrom_eq_straight _ _ _ _ _ _ stride resumption sets limit []
    ⟨start, Place.first text⟩ (by simpa [drive] using faithful)
  refine ⟨fun n hn => ?_, hsame⟩
  exact (hall n (by simpa [drive] using hn)).complaint?_eq

end Host

/-! ## All three -/

open Host

/-- A drive that restores its scanner before every call goes like one that does not, if all
states that are saved can be saved in full. For the layout scanner, whose queue is not part
of snapshots, this needs an idle queue as soon as snapshots are restored into a scanner that
has just begun; the other two are brought back by such a scanner as well. The state in which
the host begins is arbitrary, like one that a first snapshot has been restored into. -/
theorem replays_go_straight (stride : Stride) (limit : Nat) (text : List Char) :
    (∀ (sets : List (Acceptance Offside.Kind)) (start : Offside.State),
      Throughout Scanner.Saves stride .straight sets limit start text →
        GoesStraight stride .restored sets limit start text ∧
        (Throughout (fun s => s.queue = []) stride .replaced sets limit start text →
          GoesStraight stride .replaced sets limit start text)) ∧
    (∀ (sets : List (Acceptance Shell.Kind)) (start : Shell.State),
      Throughout Scanner.Saves stride .straight sets limit start text →
        GoesStraight stride .restored sets limit start text ∧
        GoesStraight stride .replaced sets limit start text) ∧
    (∀ (sets : List (Acceptance Delimited.Kind)) (start : Delimited.State),
      Throughout Scanner.Saves stride .straight sets limit start text →
        GoesStraight stride .restored sets limit start text ∧
        GoesStraight stride .replaced sets limit start text) := by
  refine ⟨?_, ?_, ?_⟩
  · intro sets start saves
    refine ⟨.of_faithful fun n hn _ _ => Offside.State.faithful (saves n hn) rfl, ?_⟩
    intro idle
    refine .of_faithful fun n hn hn' hagree => Offside.State.faithful (saves n hn) ?_
    have hidle := idle n hn'
    rw [hagree] at hidle
    exact hidle.symm
  · intro sets start saves
    exact ⟨.of_faithful fun n hn _ _ => Shell.State.faithful (saves n hn) _,
      .of_faithful fun n hn _ _ => Shell.State.faithful (saves n hn) _⟩
  · intro sets start saves
    exact ⟨.of_faithful fun n hn _ _ => Delimited.State.faithful (saves n hn) _,
      .of_faithful fun n hn _ _ => Delimited.State.faithful (saves n hn) _⟩

/-- A block is opened, a heredoc, and a quoted string. -/
theorem replays_go_straight_opening :
    GoesStraight .word .restored [.all] 2 Offside.State.initial [' ', 'a'] ∧
    GoesStraight .word .replaced [.all] 2 Offside.State.initial [' ', 'a'] ∧
    GoesStraight .character .replaced [.ofList [.arrow], .ofList [.heredocStart]] 2
      Shell.State.initial ['<', '<', 'E'] ∧
    GoesStraight .word .replaced [.ofList [.quotedOpening]] 2 Delimited.State.initial
      ['e', '|', 'x'] := by
  have layout : Throughout Scanner.Saves .word .straight [.all] 2 Offside.State.initial
      [' ', 'a'] := by decide
  have idle : Throughout (fun s => s.queue = []) .word .replaced [.all] 2
      Offside.State.initial [' ', 'a'] := by decide
  have shell : Throughout Scanner.Saves .character .straight
      [.ofList [.arrow], .ofList [.heredocStart]] 2 Shell.State.initial ['<', '<', 'E'] := by
    decide
  have quoted : Throughout Scanner.Saves .word .straight [.ofList [.quotedOpening]] 2
      Delimited.State.initial ['e', '|', 'x'] := by decide
  exact ⟨((replays_go_straight .word 2 [' ', 'a']).1 _ _ layout).1,
    ((replays_go_straight .word 2 [' ', 'a']).1 _ _ layout).2 idle,
    ((replays_go_straight .character 2 ['<', '<', 'E']).2.1 _ _ shell).2,
    ((replays_go_straight .word 2 ['e', '|', 'x']).2.2 _ _ quoted).2⟩

end ContextLexer
