/-
# The token stream of a document

A host that accepts every layout token, and takes a word wherever the scanner declines,
sees exactly the stream that the widths of the lines call for. A line is worked off in
three stages: the first call closes all blocks that are wider than the line and owes the
dedents that it could not hand out; the calls after it pay them off, each with its
newline; and then the line opens a block of its own or the word is taken. At the end of
the text the remaining blocks close one per call instead.

Between two lines nothing is pending, so a scanner there is known by its blocks alone.
-/

import ContextLexer.Proofs.Offside.Document
import ContextLexer.Proofs.Passage
import Mathlib.Data.List.TakeWhile

namespace ContextLexer.Offside

open Host (Event Plays)

/-! ## Single calls -/

/-- The width of a line in front of which a text has been passed. -/
def widthAfter (passed : List Char) : UInt16 :=
  UInt16.ofNat (min (passed.reverse.takeWhile (· ≠ '\n')).length 65535)

namespace State

/-- A scanner with nothing pending. -/
def resting (blocks : List UInt16) : State := ⟨0, blocks, 0, []⟩

theorem handOut_all {s : State} {kind : Kind} {queue : List Kind}
    (h : s.queue = kind :: queue) (c : Cursor) :
    s.handOut .all c = ⟨{ s with queue }, some (kind, c)⟩ := by
  simp [handOut, h]

/-- A token that has been decided on is handed out without a look at the text. -/
theorem scan_of_queue {s : State} {kind : Kind} {queue : List Kind}
    (h : s.queue = kind :: queue) (c : Cursor) :
    s.scan .all c = ⟨{ s with queue }, some (kind, c)⟩ := by
  rw [scan, if_neg (by simp [h]), handOut_all h]

/-- An owed dedent is paid without a look at the text. -/
theorem scan_of_owed (blocks : List UInt16) (owed : Nat) (c : Cursor) :
    (State.mk 0 blocks (owed + 1) []).scan .all c =
      ⟨⟨0, blocks, owed, [.newline]⟩, some (.dedent, c)⟩ := by
  simp [scan, decideNext, handOut, closing]

/-! A line is as wide as the innermost block, wider, or narrower. -/

variable {blocks : List UInt16} {w : UInt16}

theorem decideAtLine_of_eq (h : w = blocks.headD 0) (crossed : Bool) :
    (resting blocks).decideAtLine .all w crossed =
      ⟨0, blocks, 0, if crossed then [.newline] else []⟩ := by
  have hinner : w = (resting blocks).innermost := h
  rw [decideAtLine, if_pos hinner]
  cases crossed <;> simp [resting]

theorem decideAtLine_of_lt (h : blocks.headD 0 < w) (crossed : Bool) :
    (resting blocks).decideAtLine .all w crossed = ⟨0, w :: blocks, 0, [.indent]⟩ := by
  have hinner : (resting blocks).innermost < w := h
  have hne : ¬ w = (resting blocks).innermost := fun h => UInt16.lt_irrefl _ (h ▸ hinner)
  rw [decideAtLine, if_neg hne, if_pos hinner, if_pos (Acceptance.mem_all _)]
  rfl

theorem decideAtLine_of_gt (h : w < blocks.headD 0) (crossed : Bool) {owed : Nat}
    (hclosed : blocks.length - (blocks.dropWhile (w < ·)).length = owed + 1) :
    (resting blocks).decideAtLine .all w crossed =
      ⟨0, blocks.dropWhile (w < ·), owed, closing⟩ := by
  have hinner : w < (resting blocks).innermost := h
  have hne : ¬ w = (resting blocks).innermost := fun h => UInt16.lt_irrefl _ (h ▸ hinner)
  rw [decideAtLine, if_neg hne, if_neg (UInt16.not_lt.mpr (UInt16.le_of_lt hinner)), narrow]
  simp [resting, hclosed]

/-- Where nothing waits and no dedent can be paid, a call decides by what follows the filler
in front of it. -/
theorem scan_idle {s : State} {accepted : Acceptance Kind} (idle : s.queue = [])
    (unpayable : ¬ (.dedent ∈ accepted ∧ 0 < s.owed)) (p : Place) :
    s.scan accepted (.begin p) =
      (if (p.skipWhile isFiller).atEnd then s.decideAtEnd accepted
        else s.decideAtLine accepted (widthAt (.begin (p.skipWhile isFiller)))
          ((p.ahead.takeWhile isFiller).contains '\n')).handOut accepted
        (.begin (p.skipWhile isFiller)) := by
  rw [scan, if_pos idle, decideNext, if_neg unpayable]
  dsimp only
  rw [Cursor.ignoreWhile_begin]
  by_cases hend : (p.skipWhile isFiller).atEnd = true
  · simp [Cursor.begin, hend]
  · simp [Cursor.begin, hend]

/-- A scanner with nothing pending decides by what follows the filler in front of it. -/
theorem scan_resting (blocks : List UInt16) (p : Place) :
    (resting blocks).scan .all (.begin p) =
      (if (p.skipWhile isFiller).atEnd then (resting blocks).decideAtEnd .all
        else (resting blocks).decideAtLine .all (widthAt (.begin (p.skipWhile isFiller)))
          ((p.ahead.takeWhile isFiller).contains '\n')).handOut .all
        (.begin (p.skipWhile isFiller)) :=
  scan_idle rfl (fun h => Nat.lt_irrefl 0 h.2) p

/-- A call in front of a line decides by the width of the line. -/
theorem scan_line (blocks : List UInt16) (before after : List Char) {gap : List Char} {x : Char}
    (filler : ∀ c ∈ gap, isFiller c = true) (hx : isFiller x = false) :
    (resting blocks).scan .all (.begin (.between before (gap ++ x :: after))) =
      ((resting blocks).decideAtLine .all (widthAfter (before ++ gap))
        (gap.contains '\n')).handOut .all (.begin (.between (before ++ gap) (x :: after))) := by
  have hskip : (Place.between before (gap ++ x :: after)).skipWhile isFiller =
      .between (before ++ gap) (x :: after) :=
    Place.skipWhile_between filler (by simpa using hx)
  have htake : (gap ++ x :: after).takeWhile isFiller = gap :=
    takeWhile_run filler (by simpa using hx)
  rw [scan_resting, hskip, Place.ahead_between, htake, Place.atEnd_between_cons]
  rfl

/-- A call in front of the end of the text decides by the open blocks. -/
theorem scan_end (blocks : List UInt16) (before : List Char) {gap : List Char}
    (filler : ∀ c ∈ gap, isFiller c = true) :
    (resting blocks).scan .all (.begin (.between before gap)) =
      ((resting blocks).decideAtEnd .all).handOut .all
        (.begin (.between (before ++ gap) [])) := by
  have hskip : (Place.between before (gap ++ [])).skipWhile isFiller =
      .between (before ++ gap) [] := Place.skipWhile_between filler (by simp)
  rw [List.append_nil] at hskip
  rw [scan_resting, hskip, Place.atEnd_between_nil, if_pos rfl]

end State

open State (resting)

/-! ## Stretches of the stream -/

/-- The host is at the end of the text and nothing is left to close or to hand out. -/
def Settled (now : Progress State) : Prop :=
  now.place.atEnd = true ∧ now.state.depth = 0 ∧ now.state.owed = 0 ∧ now.state.queue = []

/-- The host gets from one standing to another, none of those in between being settled,
and sees these events on the way. -/
def Streams (now : Progress State) (seen : List (Event Kind)) (later : Progress State) : Prop :=
  ∃ rounds, Plays .word .all Settled now rounds later ∧ rounds.flatMap Host.events = seen

namespace Streams

theorem refl (now : Progress State) : Streams now [] now := ⟨[], .rest now, rfl⟩

theorem trans {now middle later : Progress State} {seen others : List (Event Kind)}
    (first : Streams now seen middle) (second : Streams middle others later) :
    Streams now (seen ++ others) later := by
  obtain ⟨rounds, hplays, rfl⟩ := first
  obtain ⟨others, hothers, rfl⟩ := second
  exact ⟨rounds ++ others, hplays.append hothers, List.flatMap_append⟩

/-- A call that claims a token without moving on past its cursor. -/
theorem claim {s later : State} {p q : Place} {kind : Kind}
    (unsettled : ¬ Settled ⟨s, p⟩)
    (h : s.scan .all (.begin p) = ⟨later, some (kind, .begin q)⟩) :
    Streams ⟨s, p⟩ [.token kind] ⟨later, q⟩ := by
  obtain ⟨hnext, hevents⟩ := Host.round_of_claim s p h
  refine ⟨[_], .round unsettled (hnext ▸ .rest _), ?_⟩
  simpa using hevents

/-- A call that declines in front of a word. -/
theorem take {s : State} {before word after : List Char}
    (nonempty : word ≠ []) (solid : ∀ c ∈ word, isSpace c = false)
    (stops : ∀ c ∈ after.head?, isSpace c = true)
    (h : s.scan .all (.begin (.between before (word ++ after))) = ⟨s, none⟩) :
    Streams ⟨s, .between before (word ++ after)⟩ [.taken word]
      ⟨s, .between (before ++ word) after⟩ := by
  have hend : (Place.between before (word ++ after)).atEnd = false := by
    obtain ⟨x, text, rfl⟩ := List.exists_cons_of_ne_nil nonempty
    rfl
  have hskip : (Place.between before (word ++ after)).skipWord =
      .between (before ++ word) after :=
    Place.skipWhile_between (by simpa using solid) (by simpa using stops)
  obtain ⟨hnext, hevents⟩ := Host.round_of_decline s hend h
  rw [hskip] at hnext hevents
  refine ⟨[_], .round (fun hsettled => by simp_all [Settled]) (hnext ▸ .rest _), ?_⟩
  simpa [Place.since_between] using hevents

end Streams

theorem not_settled_of_atEnd {s : State} {p : Place} (h : p.atEnd = false) :
    ¬ Settled ⟨s, p⟩ := fun hsettled => by
  simp [Settled, h] at hsettled

/-! ## Lines -/

/-- Owed dedents are paid off, each with its newline. -/
theorem streams_owed (blocks : List UInt16) (owed : Nat) {p : Place} (hend : p.atEnd = false) :
    Streams ⟨⟨0, blocks, owed, []⟩, p⟩
      (shown (List.replicate owed [.dedent, .newline]).flatten) ⟨resting blocks, p⟩ := by
  induction owed with
  | zero => exact .refl _
  | succ owed ih =>
      have hdedent : Streams ⟨⟨0, blocks, owed + 1, []⟩, p⟩ [.token .dedent]
          ⟨⟨0, blocks, owed, [.newline]⟩, p⟩ :=
        .claim (not_settled_of_atEnd hend) (State.scan_of_owed blocks owed _)
      have hnewline : Streams ⟨⟨0, blocks, owed, [.newline]⟩, p⟩ [.token .newline]
          ⟨⟨0, blocks, owed, []⟩, p⟩ :=
        .claim (not_settled_of_atEnd hend) (State.scan_of_queue rfl _)
      simpa [shown, List.replicate_succ] using hdedent.trans (hnewline.trans ih)

variable {blocks : List UInt16} {before gap after : List Char} {w : UInt16}

theorem Word.exists_cons (word : Word) :
    ∃ x text, word.text = x :: text ∧ isFiller x = false := by
  obtain ⟨x, text, htext⟩ := List.exists_cons_of_ne_nil word.nonempty
  refine ⟨x, text, htext, ?_⟩
  have hx : isSpace x = false := word.solid x (by simp [htext])
  rw [Bool.eq_false_iff]
  intro hfiller
  simp only [isFiller, Bool.or_eq_true, decide_eq_true_eq] at hfiller
  rcases hfiller with ((rfl | rfl) | rfl) | rfl <;> revert hx <;> decide

/-- A word as wide as the innermost block, with nothing in front of it, is left to the
host. -/
theorem streams_word (hw : widthAfter before = blocks.headD 0) (word : Word)
    (stops : ∀ c ∈ after.head?, isSpace c = true) :
    Streams ⟨resting blocks, .between before (word.text ++ after)⟩ [.taken word.text]
      ⟨resting blocks, .between (before ++ word.text) after⟩ := by
  refine .take word.nonempty word.solid stops ?_
  obtain ⟨x, text, htext, hx⟩ := word.exists_cons
  have hscan := State.scan_line blocks before (text ++ after) (List.forall_mem_nil _) hx
  rw [List.append_nil, hw] at hscan
  rw [htext]
  rw [State.decideAtLine_of_eq rfl] at hscan
  exact hscan

/-- A line that closes nothing opens a block of its own, or else ends the line before it,
if there is one. -/
theorem streams_line_of_le (hw : widthAfter (before ++ gap) = w) (hle : blocks.headD 0 ≤ w)
    (hgap : gap = [] ∨ gap.contains '\n' = true ∨ blocks.headD 0 < w)
    (filler : ∀ c ∈ gap, isFiller c = true) (word : Word)
    (stops : ∀ c ∈ after.head?, isSpace c = true) :
    Streams ⟨resting blocks, .between before (gap ++ (word.text ++ after))⟩
      (shown (if blocks.headD 0 < w then [.indent]
        else if gap.contains '\n' then [.newline] else []) ++ [.taken word.text])
      ⟨resting (if blocks.headD 0 < w then w :: blocks else blocks),
        .between (before ++ gap ++ word.text) after⟩ := by
  obtain ⟨x, text, htext, hx⟩ := word.exists_cons
  have hscan := State.scan_line blocks before (text ++ after) filler hx
  rw [hw, ← List.cons_append, ← htext] at hscan
  have hend : (Place.between before (gap ++ (word.text ++ after))).atEnd = false := by
    simp [Place.atEnd, htext]
  by_cases hlt : blocks.headD 0 < w
  · have hindent : Streams ⟨resting blocks, .between before (gap ++ (word.text ++ after))⟩
        [.token .indent]
        ⟨resting (w :: blocks), .between (before ++ gap) (word.text ++ after)⟩ := by
      refine .claim (not_settled_of_atEnd hend) (hscan.trans ?_)
      rw [State.decideAtLine_of_lt hlt]
      exact State.handOut_all rfl _
    have hword := @streams_word (w :: blocks) _ _ hw word stops
    rw [if_pos hlt, if_pos hlt]
    exact hindent.trans hword
  · have heq : w = blocks.headD 0 := UInt16.le_antisymm (UInt16.not_lt.mp hlt) hle
    have hword := streams_word (hw.trans heq) word stops
    by_cases hcross : gap.contains '\n' = true
    · have hnewline : Streams ⟨resting blocks, .between before (gap ++ (word.text ++ after))⟩
          [.token .newline]
          ⟨resting blocks, .between (before ++ gap) (word.text ++ after)⟩ := by
        refine .claim (not_settled_of_atEnd hend) (hscan.trans ?_)
        rw [State.decideAtLine_of_eq heq, if_pos hcross]
        exact State.handOut_all rfl _
      rw [if_neg hlt, if_neg hlt, if_pos hcross]
      exact hnewline.trans hword
    · have hnil : gap = [] := (hgap.resolve_right fun h => h.elim hcross hlt)
      subst hnil
      rw [if_neg hlt, if_neg hlt, if_neg hcross]
      rw [List.append_nil] at hword ⊢
      exact hword

/-- The innermost block that a line keeps is not wider than the line. -/
theorem headD_dropWhile_le (blocks : List UInt16) (w : UInt16) :
    (blocks.dropWhile (w < ·)).headD 0 ≤ w := by
  induction blocks with
  | nil => exact UInt16.zero_le
  | cons b blocks ih =>
      by_cases hb : w < b
      · simpa [hb] using ih
      · simpa [hb] using UInt16.not_lt.mp hb

/-- The first call in front of a narrower line closes all blocks that are wider, and hands
out one dedent with its newline. -/
theorem streams_narrow (hw : widthAfter (before ++ gap) = w) (hlt : w < blocks.headD 0)
    (filler : ∀ c ∈ gap, isFiller c = true) (word : Word) (after : List Char) {owed : Nat}
    (hclosed : blocks.length - (blocks.dropWhile (w < ·)).length = owed + 1) :
    Streams ⟨resting blocks, .between before (gap ++ (word.text ++ after))⟩
      (shown [.dedent, .newline])
      ⟨⟨0, blocks.dropWhile (w < ·), owed, []⟩,
        .between (before ++ gap) (word.text ++ after)⟩ := by
  obtain ⟨x, text, htext, hx⟩ := word.exists_cons
  have hscan := State.scan_line blocks before (text ++ after) filler hx
  rw [hw, ← List.cons_append, ← htext] at hscan
  have hend (front back : List Char) :
      (Place.between front (back ++ (word.text ++ after))).atEnd = false := by
    simp [Place.atEnd, htext]
  have hdedent : Streams ⟨resting blocks, .between before (gap ++ (word.text ++ after))⟩
      [.token .dedent]
      ⟨⟨0, blocks.dropWhile (w < ·), owed, [.newline]⟩,
        .between (before ++ gap) (word.text ++ after)⟩ := by
    refine .claim (not_settled_of_atEnd (hend _ _)) (hscan.trans ?_)
    rw [State.decideAtLine_of_gt hlt _ hclosed]
    exact State.handOut_all rfl _
  exact hdedent.trans (.claim (not_settled_of_atEnd (hend _ [])) (State.scan_of_queue rfl _))

theorem closed_pos (h : w < blocks.headD 0) :
    ∃ owed, blocks.length - (blocks.dropWhile (w < ·)).length = owed + 1 := by
  cases blocks with
  | nil => exact absurd h (UInt16.not_lt.mpr UInt16.zero_le)
  | cons b blocks =>
      have hb : w < b := h
      have hle : (blocks.dropWhile (w < ·)).length ≤ blocks.length :=
        (List.dropWhile_sublist _).length_le
      refine ⟨blocks.length - (blocks.dropWhile (w < ·)).length, ?_⟩
      rw [List.dropWhile_cons_of_pos (by simpa using hb), List.length_cons]
      omega

theorem dropWhile_eq_self (h : ¬ w < blocks.headD 0) : blocks.dropWhile (w < ·) = blocks := by
  cases blocks with
  | nil => rfl
  | cons b blocks => exact List.dropWhile_cons_of_neg (by simpa using h)

/-- A line shows the layout tokens that its width calls for, and then its word. -/
theorem streams_line (nested : Nested blocks)
    (hwidth : (widthAfter (before ++ gap)).toNat = width gap)
    (hgap : gap = [] ∨ gap.contains '\n' = true ∨
      blocks.headD 0 < widthAfter (before ++ gap))
    (filler : ∀ c ∈ gap, isFiller c = true) (word : Word)
    (stops : ∀ c ∈ after.head?, isSpace c = true) :
    ∃ inner, Nested inner ∧ openWidths inner = align (width gap) (openWidths blocks) ∧
      Streams ⟨resting blocks, .between before (gap ++ (word.text ++ after))⟩
        (shown (announced (gap.contains '\n') (width gap) (openWidths blocks)) ++
          [.taken word.text])
        ⟨resting inner, .between (before ++ gap ++ word.text) after⟩ := by
  generalize hw : widthAfter (before ++ gap) = w at hwidth hgap
  have hkept := kept_openWidths nested w
  have hclosed := closed_openWidths nested w
  have hle := headD_dropWhile_le blocks w
  have hnested := nested.dropWhile (w < ·)
  rw [← hwidth]
  have hopens : opens w.toNat (openWidths blocks) ↔
      (blocks.dropWhile (w < ·)).headD 0 < w := by
    rw [opens, hkept, headD_openWidths]
    rfl
  refine ⟨if (blocks.dropWhile (w < ·)).headD 0 < w then w :: blocks.dropWhile (w < ·)
    else blocks.dropWhile (w < ·), ?_, ?_, ?_⟩
  · split
    · next h => exact hnested.cons h
    · exact hnested
  · simp only [align, hopens, hkept]
    split <;> rfl
  · simp only [announced, hopens, hclosed]
    by_cases hwide : w < blocks.headD 0
    · -- The first call closes blocks; what is left of the line then closes none.
      obtain ⟨owed, howed⟩ := closed_pos hwide
      obtain ⟨x, text, htext, -⟩ := word.exists_cons
      have hnarrow := streams_narrow hw hwide filler word after howed
      have hend : (Place.between (before ++ gap) (word.text ++ after)).atEnd = false := by
        simp [Place.atEnd, htext]
      have hw' : widthAfter (before ++ gap ++ []) = w := by rwa [List.append_nil]
      have hrest := streams_line_of_le hw' hle (.inl rfl) (List.forall_mem_nil _) word stops
      rw [List.append_nil] at hrest
      have hall := hnarrow.trans ((streams_owed _ owed hend).trans hrest)
      simpa [howed, shown, List.replicate_succ] using hall
    · rw [dropWhile_eq_self hwide, Nat.sub_self]
      have hall := streams_line_of_le hw (UInt16.not_lt.mp hwide) hgap filler word stops
      simpa using hall

/-! ## The end of the text -/

/-- A call at the end of the text closes the innermost block, and the next one hands out
the newline of its dedent. -/
theorem streams_close (b : UInt16) (blocks : List UInt16) (before : List Char)
    (filler : ∀ c ∈ gap, isFiller c = true) :
    Streams ⟨resting (b :: blocks), .between before gap⟩ (shown [.dedent, .newline])
      ⟨resting blocks, .between (before ++ gap) []⟩ := by
  have hscan := State.scan_end (b :: blocks) before filler
  have hdedent : Streams ⟨resting (b :: blocks), .between before gap⟩ [.token .dedent]
      ⟨⟨0, blocks, 0, [.newline]⟩, .between (before ++ gap) []⟩ := by
    refine .claim (fun hsettled => ?_) (hscan.trans ?_)
    · simp [Settled, State.depth, resting] at hsettled
    · rw [State.decideAtEnd, if_pos (by simp [resting])]
      exact State.handOut_all rfl _
  refine hdedent.trans (.claim (fun hsettled => ?_) (State.scan_of_queue rfl _))
  simp [Settled] at hsettled

theorem streams_close_all (blocks : List UInt16) (before : List Char) :
    Streams ⟨resting blocks, .between before []⟩
      (shown (List.replicate blocks.length [.dedent, .newline]).flatten)
      ⟨resting [], .between before []⟩ := by
  induction blocks with
  | nil => exact .refl _
  | cons b blocks ih =>
      have hclose := streams_close b blocks before (List.forall_mem_nil _)
      rw [List.append_nil] at hclose
      simpa [shown, List.replicate_succ] using hclose.trans ih

theorem dropWhile_zero (nested : Nested blocks) :
    blocks.dropWhile ((0 : UInt16) < ·) = [] := by
  induction blocks with
  | nil => rfl
  | cons b blocks ih =>
      obtain ⟨hless, hnested⟩ := nested_cons.mp nested
      have hb : (0 : UInt16) < b := hless 0 (by simp [openWidths])
      rw [List.dropWhile_cons_of_pos (by simpa using hb), ih hnested]

/-- The end of the text shows what a line of width zero would. -/
theorem streams_end (nested : Nested blocks) (gap : Break) :
    Streams ⟨resting blocks, .between before gap.text⟩
      (shown (announced true 0 (openWidths blocks)))
      ⟨resting [], .between (before ++ gap.text) []⟩ := by
  have hkept : kept 0 (openWidths blocks) = [0] := by
    have := kept_openWidths nested 0
    rwa [dropWhile_zero nested] at this
  have hclosed : closed 0 (openWidths blocks) = blocks.length := by
    have := closed_openWidths nested 0
    rwa [dropWhile_zero nested] at this
  have hopens : ¬ opens 0 (openWidths blocks) := Nat.not_lt_zero _
  rw [announced, hclosed, if_neg hopens]
  cases blocks with
  | nil =>
      have hscan := State.scan_end [] before gap.filler
      obtain ⟨x, text, htext⟩ := List.exists_cons_of_ne_nil (List.ne_nil_of_mem gap.breaks)
      refine .claim (not_settled_of_atEnd ?_) (hscan.trans ?_)
      · rw [htext, Place.atEnd_between_cons]
      · simp [State.decideAtEnd, resting, State.handOut]
  | cons b blocks =>
      have hone := streams_close b blocks before gap.filler
      have hothers := streams_close_all blocks (before ++ gap.text)
      simpa [shown, List.replicate_succ] using hone.trans hothers

/-! ## Documents -/

theorem isSpace_of_isFiller {c : Char} (h : isFiller c = true) : isSpace c = true := by
  simp only [isFiller, Bool.or_eq_true, decide_eq_true_eq] at h
  rcases h with ((rfl | rfl) | rfl) | rfl <;> decide

theorem isFiller_of_isBlank {c : Char} (h : isBlank c = true) : isFiller c = true := by
  simp only [isBlank, Bool.or_eq_true, decide_eq_true_eq] at h
  simp only [isFiller, Bool.or_eq_true, decide_eq_true_eq]
  exact .inl (.inl h)

/-- A word is followed by whitespace, because a break comes next. -/
theorem isSpace_of_head? (lines : List (Break × Word)) (final : Break) :
    ∀ c ∈ (linesText lines ++ final.text).head?, isSpace c = true := by
  have hhead (gap : Break) (rest : List Char) :
      ∀ c ∈ (gap.text ++ rest).head?, isSpace c = true := by
    intro c hc
    obtain ⟨x, text, htext⟩ := List.exists_cons_of_ne_nil (List.ne_nil_of_mem gap.breaks)
    obtain rfl : x = c := by simpa [htext] using hc
    exact isSpace_of_isFiller (gap.filler x (by simp [htext]))
  cases lines with
  | nil => simpa [linesText] using hhead final []
  | cons line lines =>
      have := hhead line.1 (line.2.text ++ (linesText lines ++ final.text))
      simpa [linesText] using this

/-- What was passed before the last line feed does not count for the width. -/
theorem toNat_widthAfter (before : List Char) (h : before = [] ∨ '\n' ∈ gap) :
    (widthAfter (before ++ gap)).toNat = width gap := by
  have hcolumn : (before ++ gap).reverse.takeWhile (· ≠ '\n') =
      gap.reverse.takeWhile (· ≠ '\n') := by
    rcases h with rfl | hbreak
    · rfl
    · have hlt : ¬ (gap.reverse.takeWhile (· ≠ '\n')).length = gap.reverse.length := by
        intro hlength
        have hall := List.IsPrefix.eq_of_length (List.takeWhile_prefix (· ≠ '\n')) hlength
        have hmem : '\n' ∈ gap.reverse.takeWhile (· ≠ '\n') := by
          rw [hall]
          exact List.mem_reverse.mpr hbreak
        simpa using List.mem_takeWhile_imp hmem
      rw [List.reverse_append, List.takeWhile_append, if_neg hlt]
  rw [widthAfter, hcolumn, width, Nat.min_comm, UInt16.toNat_ofNat']
  omega

/-- Lines show their stream one after the other, up to the end of the text. -/
theorem streams_lines (nested : Nested blocks) (lines : List (Break × Word)) (final : Break) :
    Streams ⟨resting blocks, .between before (linesText lines ++ final.text)⟩
      (linesStream (openWidths blocks) lines)
      ⟨resting [], .between (before ++ (linesText lines ++ final.text)) []⟩ := by
  induction lines generalizing blocks before with
  | nil => exact streams_end nested final
  | cons line lines ih =>
      obtain ⟨gap, word⟩ := line
      have hbreak : gap.text.contains '\n' = true := by simpa using gap.breaks
      obtain ⟨inner, hnested, halign, hline⟩ :=
        streams_line nested (toNat_widthAfter before (.inr gap.breaks)) (.inr (.inl hbreak))
          gap.filler word (isSpace_of_head? lines final)
      have hall := hline.trans (ih hnested)
      rw [halign, hbreak] at hall
      simpa [linesText, linesStream] using hall

/-- The first line is as wide as its margin is long. -/
theorem width_margin (margin : Margin) : width margin.text = min 65535 margin.text.length := by
  have hall : margin.text.reverse.takeWhile (· ≠ '\n') = margin.text.reverse := by
    refine List.takeWhile_eq_self_iff.mpr fun c hc => ?_
    have hblank := margin.blank c (List.mem_reverse.mp hc)
    simp only [decide_eq_true_eq]
    rintro rfl
    exact absurd hblank (by decide)
  rw [width, hall, List.length_reverse]

/-- A document shows its stream, and leaves the scanner as it was in the beginning. -/
theorem streams_document (d : Document) :
    Streams ⟨State.initial, .first d.text⟩ d.stream
      ⟨State.initial, .between d.text []⟩ := by
  have hfiller : ∀ c ∈ d.margin.text, isFiller c = true := fun c hc =>
    isFiller_of_isBlank (d.margin.blank c hc)
  have hfollows : d.margin.text.contains '\n' = false := by
    rw [List.contains_eq_mem, decide_eq_false_iff_not]
    exact fun hmem => absurd (d.margin.blank _ hmem) (by decide)
  have hwidth := @toNat_widthAfter d.margin.text [] (.inl rfl)
  have hgap : d.margin.text = [] ∨ d.margin.text.contains '\n' = true ∨
      ([] : List UInt16).headD 0 < widthAfter ([] ++ d.margin.text) := by
    by_cases hnil : d.margin.text = []
    · exact .inl hnil
    · refine .inr (.inr ?_)
      have hpos := List.length_pos_iff.mpr hnil
      rw [width_margin] at hwidth
      change 0 < (widthAfter ([] ++ d.margin.text)).toNat
      omega
  obtain ⟨inner, hnested, halign, hfirst⟩ :=
    streams_line nested_nil hwidth hgap hfiller d.first (isSpace_of_head? d.later d.final)
  have hall := hfirst.trans (streams_lines hnested d.later d.final)
  rw [halign, hfollows] at hall
  change Streams ⟨resting [], .between [] d.text⟩ d.stream ⟨resting [], .between d.text []⟩
  simpa [Document.text, Document.stream] using hall

/-- A host that accepts all layout tokens, and plays until it is at the end of the text
with nothing left to close or to hand out, gets there, sees the stream of the document,
and leaves the scanner as it was in the beginning. There is no other way for it to get
there. -/
theorem stream_of_document (d : Document) :
    ∃ rounds final,
      Plays .word .all Settled ⟨State.initial, .first d.text⟩ rounds final ∧
      Settled final ∧
      (∀ others other,
        Plays .word .all Settled ⟨State.initial, .first d.text⟩ others other →
          Settled other → others = rounds ∧ other = final) ∧
      rounds.flatMap Host.events = d.stream ∧
      final.state = State.initial ∧ final.state.widths = [0] := by
  obtain ⟨rounds, hplays, hevents⟩ := streams_document d
  have hsettled : Settled ⟨State.initial, .between d.text []⟩ := ⟨rfl, rfl, rfl, rfl⟩
  refine ⟨rounds, _, hplays, hsettled, ?_, hevents, rfl, rfl⟩
  intro others other hothers hother
  exact hothers.unique hother hplays hsettled

/-- A line between two others in width closes the block of the one and opens a block of its own
inside that of the other. The end of the text closes both. -/
theorem stream_of_document_between :
    let text : List Char :=
      [' ', 'a', '\r', '\n', ' ', ' ', ' ', 'b', '\n', '\n', '\t', ' ', 'c', '\n']
    ∃ rounds final,
      Plays .word .all Settled ⟨State.initial, .first text⟩ rounds final ∧
      rounds.flatMap Host.events =
        [.token .indent, .taken ['a'], .token .indent, .taken ['b'],
          .token .dedent, .token .newline, .token .indent, .taken ['c'],
          .token .dedent, .token .newline, .token .dedent, .token .newline] ∧
      final.state = State.initial := by
  intro text
  obtain ⟨rounds, final, hplays, -, -, hevents, hstate, -⟩ :=
    stream_of_document (default : Document)
  exact ⟨rounds, final, hplays, hevents, hstate⟩

end ContextLexer.Offside
