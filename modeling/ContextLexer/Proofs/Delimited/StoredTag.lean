/-
# What the stored tag tells

The tag of a quoted string is stored when the string opens and forgotten when it closes. A
double quote leaves the tag alone, also where it is found inside of a quoted string and takes
the host out of it. Since no call changes the state but by the token that it returns, the
tokens of a run tell whether a tag has been left behind in this way. A snapshot brings back
the state in which it was taken, and with it what was returned until then.
-/

import ContextLexer.Proofs.Delimited.Change
import ContextLexer.Proofs.Snapshot.RoundTrip

namespace ContextLexer.Delimited

/-! ## Runs -/

/-- The runs of a scanner that has just begun: the snapshots that were taken, each with the
tokens whose state it is, the tokens of the present state, and this state. A state that does
not fit is saved as the empty snapshot, which loads as a reset. -/
inductive Run : List (List UInt8 × List (Token Kind)) → List (Token Kind) → State → Prop
  /-- Nothing has happened. -/
  | begin : Run [] [] .initial
  /-- The scanner is called at some place of some text. -/
  | scan {taken : List (List UInt8 × List (Token Kind))} {tokens : List (Token Kind)} {s : State}
      (accepted : Acceptance Kind) (origin : Place) (before : Run taken tokens s) :
      Run taken (tokens ++ (Scanner.call s accepted origin).token.toList)
        (Scanner.call s accepted origin).state
  /-- A snapshot is taken. -/
  | save {taken : List (List UInt8 × List (Token Kind))} {tokens : List (Token Kind)} {s : State}
      (capacity : Nat) (fits : Scanner.save s capacity ≠ []) (before : Run taken tokens s) :
      Run ((Scanner.save s capacity, tokens) :: taken) tokens s
  /-- A snapshot of the run is restored. -/
  | restore {taken : List (List UInt8 × List (Token Kind))} {tokens told : List (Token Kind)}
      {s : State} {bytes : List UInt8} (mem : (bytes, told) ∈ taken) (before : Run taken tokens s) :
      Run taken told (Scanner.load s bytes).state
  /-- The empty snapshot is restored. -/
  | reset {taken : List (List UInt8 × List (Token Kind))} {tokens : List (Token Kind)} {s : State}
      (before : Run taken tokens s) : Run taken [] (Scanner.load s []).state

variable {taken : List (List UInt8 × List (Token Kind))} {tokens later : List (Token Kind)}
  {s : State}

/-! ## The state that tokens tell of -/

/-- What a token makes of the state. -/
def State.after (s : State) (token : Token Kind) : State :=
  match token.kind with
  | .quotedOpening => ⟨true, token.text.dropLast⟩
  | .quotedClosing => .initial
  | .stringQuote => { s with inString := !s.inString }
  | .comment | .lineDirective | .nul => s

/-- The state after tokens that have been returned from the beginning on. -/
def standing (tokens : List (Token Kind)) : State := tokens.foldl State.after .initial

theorem Change.state_eq {accepted : Acceptance Kind} {origin : Place} {later : State}
    {token : Option (Token Kind)} (change : Change s accepted origin later token) :
    later = token.toList.foldl State.after s := by
  cases change with
  | nothing | nul => rfl
  | quotedOpening wanted letters text =>
      simp [State.after, Token.text, text.since_eq]
  | quotedClosing | stringQuote => rfl
  | outside either =>
      rcases either with rfl | rfl <;> rfl

/-- The tokens of a run tell its state, and those told with a snapshot the state in it. -/
theorem Run.state_eq (run : Run taken tokens s) :
    s = standing tokens ∧ ∀ bytes told, (bytes, told) ∈ taken → bytes = (standing told).format := by
  induction run with
  | begin => exact ⟨rfl, by simp⟩
  | @scan taken tokens s accepted origin _ ih =>
      refine ⟨?_, ih.2⟩
      rw [standing, List.foldl_append, ← standing, ← ih.1]
      exact (change_call s accepted origin).state_eq
  | @save taken tokens s capacity fits _ ih =>
      refine ⟨ih.1, ?_⟩
      intro bytes told hmem
      rcases List.mem_cons.mp hmem with hsaved | hmem
      · obtain ⟨rfl, rfl⟩ := Prod.mk.inj hsaved
        rw [Scanner.save_eq s.writes_format] at fits ⊢
        split
        · rw [← ih.1]
        case isFalse hlarge => exact absurd (if_neg hlarge) fits
      · exact ih.2 bytes told hmem
  | @restore taken tokens told s bytes mem _ ih =>
      refine ⟨?_, ih.2⟩
      have hload : Scanner.load s (standing told).format = ⟨standing told, none⟩ :=
        (standing told).load_format
      rw [ih.2 bytes told mem, hload]
  | reset _ ih => exact ⟨rfl, ih.2⟩

/-! ## Tags left behind -/

/-- Tokens that open or close quoted strings. -/
def Delimits (token : Token Kind) : Prop :=
  token.kind = .quotedOpening ∨ token.kind = .quotedClosing

/-- Among some tokens, the last one that opens or closes a quoted string opens one, with a tag
in front of its bar, and the double quotes behind it are odd in number. -/
def LeavesTag (tokens : List (Token Kind)) : Prop :=
  ∃ earlier opening later, tokens = earlier ++ opening :: later ∧
    opening.kind = .quotedOpening ∧ 1 < opening.text.length ∧
    (∀ token ∈ later, ¬ Delimits token) ∧ later.countP (·.kind = .stringQuote) % 2 = 1

/-- Tokens that neither open nor close a quoted string keep the tag, and the double quotes among
them take the host into a string and out of it again. -/
theorem foldl_after (within : ∀ token ∈ later, ¬ Delimits token) (s : State) :
    later.foldl State.after s =
      ⟨s.inString ^^ decide (later.countP (·.kind = .stringQuote) % 2 = 1), s.tag⟩ := by
  induction later generalizing s with
  | nil => simp
  | cons token later ih =>
      obtain ⟨htoken, hlater⟩ := List.forall_mem_cons.mp within
      rw [List.foldl_cons, ih hlater]
      by_cases hquote : token.kind = .stringQuote
      · have hafter : s.after token = { s with inString := !s.inString } := by
          simp [State.after, hquote]
        have hodd : decide ((later.countP (·.kind = .stringQuote) + 1) % 2 = 1) =
            !decide (later.countP (·.kind = .stringQuote) % 2 = 1) := by
          rw [← decide_not]
          exact decide_eq_decide.mpr (by omega)
        rw [hafter, List.countP_cons_of_pos (by simpa using hquote), hodd, Bool.not_xor,
          Bool.xor_not]
      · have hafter : s.after token = s := by
          obtain ⟨kind, start, stop⟩ := token
          cases kind with
          | quotedOpening => exact absurd (.inl rfl) htoken
          | quotedClosing => exact absurd (.inr rfl) htoken
          | stringQuote => exact absurd rfl hquote
          | comment | lineDirective | nul => rfl
        rw [hafter, List.countP_cons_of_neg (by simpa using hquote)]

/-- Either no token opens or closes a quoted string, or there is a last one. -/
theorem exists_last_delimiter (tokens : List (Token Kind)) :
    (∀ token ∈ tokens, ¬ Delimits token) ∨
    ∃ earlier last later, tokens = earlier ++ last :: later ∧ Delimits last ∧
      ∀ token ∈ later, ¬ Delimits token := by
  induction tokens with
  | nil => exact .inl (by simp)
  | cons token tokens ih =>
      rcases ih with hnone | ⟨earlier, last, later, rfl, hlast, hlater⟩
      · by_cases htoken : Delimits token
        · exact .inr ⟨[], token, tokens, rfl, htoken, hnone⟩
        · exact .inl (List.forall_mem_cons.mpr ⟨htoken, hnone⟩)
      · exact .inr ⟨token :: earlier, last, later, rfl, hlast, hlater⟩

/-- Behind the last token that opens or closes a quoted string the state is that of this token,
up to double quotes. -/
theorem standing_append_cons (earlier : List (Token Kind)) (last : Token Kind)
    (within : ∀ token ∈ later, ¬ Delimits token) :
    standing (earlier ++ last :: later) =
      ⟨((standing earlier).after last).inString ^^
          decide (later.countP (·.kind = .stringQuote) % 2 = 1),
        ((standing earlier).after last).tag⟩ := by
  rw [standing, List.foldl_append, List.foldl_cons, ← standing, foldl_after within]

/-- Outside of strings no tag is stored, unless it was left behind: the quoted string opened last
has one, and since then it was not closed, but double quotes were returned, odd in number. This
is so after any run, with snapshots restored or not, and a tag that was left behind is always
stored. -/
theorem tag_stored_outside_iff (run : Run taken tokens s) :
    (s.inString = false → s.tag = []) ↔ ¬ LeavesTag tokens := by
  rw [run.state_eq.1]
  constructor
  · rintro hempty ⟨earlier, opening, later, rfl, hkind, hlong, within, hodd⟩
    have hopened : (standing earlier).after opening = ⟨true, opening.text.dropLast⟩ := by
      simp [State.after, hkind]
    rw [standing_append_cons earlier opening within, hopened] at hempty
    have hnil : opening.text.dropLast = [] := hempty (by simp [hodd])
    have hlength := congrArg List.length hnil
    rw [List.length_dropLast, List.length_nil] at hlength
    omega
  · intro hnot houtside
    rcases exists_last_delimiter tokens with within | ⟨earlier, last, later, rfl, hlast, within⟩
    · rw [standing, foldl_after within]
      rfl
    · rw [standing_append_cons earlier last within] at houtside ⊢
      rcases hlast with hkind | hkind
      · have hopened : (standing earlier).after last = ⟨true, last.text.dropLast⟩ := by
          simp [State.after, hkind]
        rw [hopened] at houtside ⊢
        have hodd : later.countP (·.kind = .stringQuote) % 2 = 1 := by simpa using houtside
        have hshort : ¬ 1 < last.text.length := fun hlong =>
          hnot ⟨earlier, last, later, rfl, hkind, hlong, within, hodd⟩
        exact List.eq_nil_of_length_eq_zero (by rw [List.length_dropLast]; omega)
      · simp [State.after, hkind, State.initial]

/-- A quoted string is opened, a double quote takes the host out of it, and a snapshot taken
before brings it back in. -/
theorem tag_stored_outside_iff_restored :
    let opened := Scanner.call State.initial .all (.first ['i', 'd', '|', '\"'])
    let left := Scanner.call opened.state (.ofList [.stringQuote]) opened.place
    let restored := Scanner.load left.state (Scanner.save opened.state 8)
    restored.state = ⟨true, ['i', 'd']⟩ ∧
      (∃ taken, Run taken opened.token.toList restored.state) ∧
      ¬ LeavesTag opened.token.toList := by
  intro opened left restored
  have first : Run [] ([] ++ opened.token.toList) opened.state := .scan .all _ .begin
  have run : Run _ opened.token.toList restored.state :=
    .restore (List.mem_singleton_self _)
      (.scan (.ofList [.stringQuote]) opened.place (.save 8 (by decide) first))
  refine ⟨by decide, ⟨_, run⟩, ?_⟩
  exact (tag_stored_outside_iff run).mp fun houtside => absurd houtside (by decide)

/-- A double quote that is found inside of a quoted string leaves the tag behind, so there is a
run after which no string is open and a tag is stored. -/
theorem quote_leaves_tag :
    let opened := Scanner.call State.initial (.ofList [.quotedOpening])
      (.first ['i', 'd', '|', '\"'])
    let left := Scanner.call opened.state (.ofList [.stringQuote]) opened.place
    (∃ tokens, Run [] tokens left.state) ∧ left.token.map Token.kind = some .stringQuote ∧
      left.state.inString = false ∧ left.state.tag = ['i', 'd'] := by
  intro opened left
  have run : Run [] _ left.state := .scan (.ofList [.stringQuote]) opened.place
    (.scan (.ofList [.quotedOpening]) (.first ['i', 'd', '|', '\"']) .begin)
  exact ⟨⟨_, run⟩, by decide, by decide, by decide⟩

end ContextLexer.Delimited
