/-
# A host that stands still

Layout tokens are empty. A host that only calls, and takes nothing itself, is moved across
the fillers in front of the next line and no further, so whatever goes on after that goes on
inside of the scanner. It cannot go on for long: a token that is returned was in the queue,
or an owed dedent has brought it, or the line calls for it. These tokens can be counted
beforehand, and every call that returns one leaves fewer, whatever the host accepts. A host
that accepts everything is stopped by nothing else, so then the innermost block is as wide as
the line.
-/

import ContextLexer.Proofs.Offside.Pairing
import ContextLexer.Proofs.Offside.Stream
import ContextLexer.Proofs.Onward
import ContextLexer.Proofs.Readings

namespace ContextLexer.Offside

open Scanner (callFrom follow exists_declining)

variable {s : State} {blocks : List UInt16} {w : UInt16} {accepted : Acceptance Kind}
  {before gap after : List Char} {x : Char}

/-! ## What a line announces -/

theorem length_announced (follows : Bool) (width : Nat) (stack : List Nat) :
    (announced follows width stack).length =
      2 * closed width stack +
        if opens width stack then 1 else if closed width stack = 0 ∧ follows then 1 else 0 := by
  rw [announced, List.length_append, List.length_flatten, List.map_replicate]
  congr 1
  · simp [Nat.mul_comm]
  · split
    · rfl
    · split <;> rfl

/-- A line that is not narrower than the innermost block closes none. -/
theorem closed_of_le (nested : Nested blocks) (h : ¬ w < blocks.headD 0) :
    closed w.toNat (openWidths blocks) = 0 := by
  rw [closed_openWidths nested, dropWhile_eq_self h, Nat.sub_self]

theorem opens_iff (nested : Nested blocks) (w : UInt16) :
    opens w.toNat (openWidths blocks) ↔ (blocks.dropWhile (w < ·)).headD 0 < w := by
  rw [opens, kept_openWidths nested, headD_openWidths]
  rfl

/-- A line opens a block if it is wider than the innermost one. -/
theorem length_announced_of_lt (nested : Nested blocks) (h : blocks.headD 0 < w) (follows : Bool) :
    (announced follows w.toNat (openWidths blocks)).length = 1 := by
  have hle : ¬ w < blocks.headD 0 := UInt16.not_lt.mpr (UInt16.le_of_lt h)
  have hopens : opens w.toNat (openWidths blocks) := by
    rwa [opens_iff nested, dropWhile_eq_self hle]
  rw [length_announced, closed_of_le nested hle, if_pos hopens]

/-- A line as wide as the innermost block ends the line before it, if there is one. -/
theorem length_announced_of_eq (nested : Nested blocks) (h : w = blocks.headD 0) (follows : Bool) :
    (announced follows w.toNat (openWidths blocks)).length = if follows then 1 else 0 := by
  have hle : ¬ w < blocks.headD 0 := fun hlt => UInt16.lt_irrefl _ (h ▸ hlt)
  have hopens : ¬ opens w.toNat (openWidths blocks) := by
    rw [opens_iff nested, dropWhile_eq_self hle, ← h]
    exact UInt16.lt_irrefl w
  rw [length_announced, closed_of_le nested hle, if_neg hopens]
  simp

/-- A narrower line announces two tokens for every block that it closes, and then what it
announces to those that it keeps. -/
theorem length_announced_of_gt (nested : Nested blocks) {owed : Nat}
    (hclosed : blocks.length - (blocks.dropWhile (w < ·)).length = owed + 1) (follows : Bool) :
    (announced follows w.toNat (openWidths blocks)).length =
      2 * (owed + 1) +
        (announced false w.toNat (openWidths (blocks.dropWhile (w < ·)))).length := by
  have hkept := nested.dropWhile (w < ·)
  have hle : ¬ w < (blocks.dropWhile (w < ·)).headD 0 :=
    UInt16.not_lt.mpr (headD_dropWhile_le blocks w)
  have hopens : opens w.toNat (openWidths (blocks.dropWhile (w < ·))) ↔
      opens w.toNat (openWidths blocks) := by
    rw [opens_iff hkept, opens_iff nested, dropWhile_eq_self hle]
  have hmany : closed w.toNat (openWidths blocks) = owed + 1 := by
    rw [closed_openWidths nested, hclosed]
  rw [length_announced, length_announced, hmany, closed_of_le hkept hle]
  simp only [hopens]
  split <;> simp

theorem length_announced_le (nested : Nested blocks) (follows : Bool) :
    (announced follows w.toNat (openWidths blocks)).length ≤ 2 * blocks.length + 1 := by
  have hclosed : closed w.toNat (openWidths blocks) ≤ blocks.length := by
    rw [closed_openWidths nested]
    exact Nat.sub_le _ _
  rw [length_announced]
  split
  · omega
  split <;> omega

/-! ## What a state still has to say -/

/-- A stack that grows from zero is nested. -/
theorem Sound.nested (sound : Sound s) : s.base = 0 ∧ Nested s.blocks := by
  have hbase : s.base = 0 := by simpa [State.widths] using sound.base
  have hwidths : openWidths s.blocks = s.widths.reverse.map UInt16.toNat := by
    simp [State.widths, openWidths, hbase]
  refine ⟨hbase, ?_⟩
  rw [Nested, hwidths, List.pairwise_map, List.pairwise_reverse]
  exact sound.increasing

theorem Sound.innermost_eq (sound : Sound s) : s.innermost = s.blocks.headD 0 := by
  rw [State.innermost, sound.nested.1]

/-- The number of tokens that a scanner can still return in front of a line of some width,
where a line feed may or may not come first. -/
def State.unsaid (s : State) (crossed : Bool) (width : UInt16) : Nat :=
  s.queue.length + 2 * s.owed + (announced crossed width.toNat (openWidths s.blocks)).length

/-- There is one token at most in the queue, and a line closes at most all blocks and opens
one more. -/
theorem Sound.unsaid_le (sound : Sound s) (crossed : Bool) (width : UInt16) :
    s.unsaid crossed width ≤ 2 * (s.owed + s.depth) + 2 := by
  have hline := @length_announced_le s.blocks width sound.nested.2 crossed
  have hqueue : s.queue.length ≤ 1 := by
    rcases sound.calm with hqueue | hqueue <;> simp [hqueue]
  rw [State.unsaid, State.depth]
  omega

/-! ## Deciding about a line -/

/-- A token is handed out at a cursor and leaves less to say about a line, or the call
declines. A host that accepts everything is declined only where the innermost block is as
wide as the line. -/
def Eases (s : State) (accepted : Acceptance Kind) (crossed : Bool) (width : UInt16) (c : Cursor)
    (verdict : Verdict State Kind) : Prop :=
  (verdict.claim = none ∧ ((∀ kind, kind ∈ accepted) → verdict.state.innermost = width)) ∨
    ∃ kind, verdict.claim = some (kind, c) ∧
      verdict.state.unsaid false width < s.unsaid crossed width

namespace State

variable {c : Cursor} {crossed : Bool}

/-- A call that hands out nothing declines, which a host that accepts everything is told only
in front of a line as wide as the innermost block. -/
theorem eases_of_idle {later : State} (idle : later.queue = [])
    (h : (∀ kind, kind ∈ accepted) → later.innermost = w) :
    Eases s accepted crossed w c (later.handOut accepted c) := by
  rw [handOut_of_idle idle]
  exact .inl ⟨rfl, h⟩

theorem eases_equal (sound : Sound s) (idle : s.queue = []) (h : w = s.innermost) :
    Eases s accepted crossed w c
      ((if crossed ∧ .newline ∈ accepted then { s with queue := [.newline] } else s).handOut
        accepted c) := by
  split
  case isTrue hends =>
    have hline (follows : Bool) :=
      length_announced_of_eq sound.nested.2 (h.trans sound.innermost_eq) follows
    rw [handOut_of_mem rfl hends.2]
    refine .inr ⟨.newline, rfl, ?_⟩
    simp [unsaid, hline, idle, hends.1]
  case isFalse => exact eases_of_idle idle fun _ => h.symm

theorem eases_wider (sound : Sound s) (idle : s.queue = []) (h : s.innermost < w) :
    Eases s accepted crossed w c
      ((if .indent ∈ accepted then { s with blocks := w :: s.blocks, queue := [.indent] }
        else s).handOut accepted c) := by
  rw [sound.innermost_eq] at h
  split
  case isTrue hindent =>
    have hbefore := length_announced_of_lt sound.nested.2 h crossed
    have hafter := @length_announced_of_eq (w :: s.blocks) w (sound.nested.2.cons h) rfl false
    rw [handOut_of_mem rfl hindent]
    refine .inr ⟨.indent, rfl, ?_⟩
    simp only [unsaid, hbefore, hafter, idle, List.length_nil]
    simp
  case isFalse hindent => exact eases_of_idle idle fun hall => absurd (hall .indent) hindent

/-- The first dedent of a narrower line is handed out at once, and the others are owed. -/
theorem eases_narrow (sound : Sound s) (idle : s.queue = []) (h : w < s.innermost) :
    Eases s accepted crossed w c ((s.narrow accepted w).handOut accepted c) := by
  rw [sound.innermost_eq] at h
  obtain ⟨owed, howed⟩ := closed_pos h
  rw [narrow]
  simp only [howed]
  rw [if_neg (Nat.succ_ne_zero owed)]
  split
  case isTrue hdedent =>
    have hline := length_announced_of_gt sound.nested.2 howed crossed
    rw [handOut_of_mem rfl hdedent]
    refine .inr ⟨.dedent, rfl, ?_⟩
    simp only [unsaid, hline, idle, List.length_cons, List.length_nil]
    omega
  case isFalse hdedent => exact eases_of_idle idle fun hall => absurd (hall .dedent) hdedent

theorem eases_line (sound : Sound s) (idle : s.queue = []) :
    Eases s accepted crossed w c ((s.decideAtLine accepted w crossed).handOut accepted c) := by
  rw [decideAtLine]
  split
  case isTrue h => exact eases_equal sound idle h
  case isFalse hne =>
    split
    case isTrue h => exact eases_wider sound idle h
    case isFalse h =>
      exact eases_narrow sound idle (UInt16.lt_of_le_of_ne (UInt16.not_lt.mp h) hne)

end State

/-! ## Calls in front of a line -/

/-- Nothing but filler lies between a place and the beginning of a line. -/
def Faces (p : Place) (gap : List Char) (line : Place) : Prop :=
  p.Leads gap line ∧ (∀ c ∈ gap, isFiller c = true) ∧
    ∃ x after, line.ahead = x :: after ∧ isFiller x = false

/-- The place where a line begins faces it. -/
theorem Faces.line {p line : Place} (faces : Faces p gap line) : Faces line [] line :=
  ⟨.nothing line, by simp, faces.2.2⟩

theorem Faces.takeWhile_eq {p line : Place} (faces : Faces p gap line) :
    p.ahead.takeWhile isFiller = gap := by
  obtain ⟨leads, filler, x, after, hahead, hx⟩ := faces
  rw [leads.ahead_eq, hahead]
  exact takeWhile_run filler (by simpa using hx)

/-- The number of tokens that a scanner can still return where the host stands. -/
def unsaidBefore (line : Place) (now : Progress State) : Nat :=
  now.state.unsaid ((now.place.ahead.takeWhile isFiller).contains '\n') (widthAt (.begin line))

/-- A token that was decided on before, or that an owed dedent brings, leaves the host where
it is. -/
theorem unsaidBefore_lt (line : Place) {p : Place} {later : State}
    (hblocks : later.blocks = s.blocks)
    (hless : later.queue.length + 2 * later.owed < s.queue.length + 2 * s.owed) :
    unsaidBefore line ⟨later, p⟩ < unsaidBefore line ⟨s, p⟩ := by
  simp only [unsaidBefore, State.unsaid, hblocks]
  omega

theorem scan_of_line {p line : Place} (idle : s.queue = [])
    (unpayable : ¬ (.dedent ∈ accepted ∧ 0 < s.owed)) (faces : Faces p gap line) :
    s.scan accepted (.begin p) =
      (s.decideAtLine accepted (widthAt (.begin line)) (gap.contains '\n')).handOut accepted
        (.begin line) := by
  have htake := faces.takeWhile_eq
  obtain ⟨⟨before, rest, rfl, rfl⟩, filler, x, after, hahead, hx⟩ := faces
  obtain rfl : rest = x :: after := hahead
  have hskip : (Place.between before (gap ++ x :: after)).skipWhile isFiller =
      .between (before ++ gap) (x :: after) :=
    Place.skipWhile_between filler (by simpa using hx)
  rw [State.scan_idle idle unpayable, hskip, htake, Place.atEnd_between_cons]
  rfl

/-- A call in front of a line hands out an empty token, where it began or at the line, and
leaves less to say, or it declines. -/
theorem call_in_front {p line : Place} (sound : Sound s) (faces : Faces p gap line)
    (accepted : Acceptance Kind) :
    ((Scanner.call s accepted p).token = none ∧
      ((∀ kind, kind ∈ accepted) →
        (Scanner.call s accepted p).state.innermost = widthAt (.begin line))) ∨
    ∃ kind q, (q = p ∨ q = line) ∧ (Scanner.call s accepted p).token = some ⟨kind, q, q⟩ ∧
      unsaidBefore line ⟨(Scanner.call s accepted p).state, q⟩ < unsaidBefore line ⟨s, p⟩ := by
  by_cases idle : s.queue = []
  · by_cases hpay : .dedent ∈ accepted ∧ 0 < s.owed
    · obtain ⟨owed, howed⟩ := Nat.exists_eq_succ_of_ne_zero (Nat.ne_of_gt hpay.2)
      have hscan : Scanner.scan s accepted (.begin p) =
          ⟨{ s with owed, queue := [.newline] }, some (.dedent, .begin p)⟩ := by
        change s.scan accepted (.begin p) = _
        rw [State.scan, if_pos idle, State.decideNext, if_pos hpay, State.handOut_of_mem rfl hpay.1]
        simp [howed]
      refine .inr ⟨.dedent, p, .inl rfl, ?_, ?_⟩
      · rw [Scanner.call, hscan, settle, Cursor.token_begin]
      · rw [Scanner.call, hscan]
        exact unsaidBefore_lt line rfl (by simp [idle, howed]; omega)
    · have hscan : Scanner.scan s accepted (.begin p) = _ := scan_of_line idle hpay faces
      have hline := @State.eases_line s (widthAt (.begin line)) accepted (.begin line)
        (gap.contains '\n') sound idle
      rw [Scanner.call, hscan]
      rcases hline with ⟨hdecline, hinner⟩ | ⟨kind, hclaim, hless⟩
      · exact .inl ⟨by rw [hdecline]; rfl, hinner⟩
      · refine .inr ⟨kind, line, .inr rfl, by rw [hclaim, settle, Cursor.token_begin], ?_⟩
        rw [unsaidBefore, unsaidBefore, faces.takeWhile_eq, faces.line.takeWhile_eq]
        exact hless
  · have hwaiting : s.queue = [.newline] := sound.calm.resolve_left idle
    rw [call_of_waiting hwaiting]
    split
    · exact .inr ⟨.newline, p, .inl rfl, rfl, unsaidBefore_lt line rfl (by simp [hwaiting])⟩
    case isFalse hunwanted => exact .inl ⟨rfl, fun hall => absurd (hall .newline) hunwanted⟩

/-! ## Repeated calls -/

/-- A host stands in front of a line, with a scanner that calls have led there. -/
def Poised (line : Place) (now : Progress State) : Prop :=
  Sound now.state ∧ ∃ gap, Faces now.place gap line

/-- A call that returns a token leaves the host in front of the same line, with less to be
said. -/
theorem Poised.follow {line : Place} {now : Progress State} {token : Token Kind}
    (poised : Poised line now) (h : (callFrom accepted now).token = some token) :
    Poised line (follow accepted now) ∧
      unsaidBefore line (Scanner.follow accepted now) < unsaidBefore line now ∧
      token.start = token.stop ∧ (token.stop = now.place ∨ token.stop = line) := by
  obtain ⟨s, p⟩ := now
  obtain ⟨sound, gap, faces⟩ := poised
  have hlater := sound.change (change_call s accepted p)
  rcases call_in_front sound faces accepted with
    ⟨hdecline, -⟩ | ⟨kind, q, hq, htoken, hless⟩
  · cases hdecline.symm.trans h
  · obtain rfl := Option.some.inj (htoken.symm.trans h)
    have hplace : Scanner.follow accepted ⟨s, p⟩ = ⟨(Scanner.call s accepted p).state, q⟩ := by
      rw [Scanner.follow, callFrom, Scanner.place_call, htoken]
      rfl
    rw [hplace]
    refine ⟨⟨hlater, ?_⟩, hless, rfl, hq⟩
    rcases hq with rfl | rfl
    · exact ⟨gap, faces⟩
    · exact ⟨[], faces.line⟩

/-- Where a host that accepts everything is declined, the innermost block is as wide as the
line. -/
theorem Poised.innermost_eq {line : Place} {now : Progress State} (poised : Poised line now)
    (hall : ∀ kind, kind ∈ accepted) (h : (callFrom accepted now).token = none) :
    (callFrom accepted now).state.innermost = widthAt (.begin line) := by
  obtain ⟨s, p⟩ := now
  obtain ⟨sound, gap, faces⟩ := poised
  rcases call_in_front sound faces accepted with
    ⟨-, hinner⟩ | ⟨kind, q, hq, htoken, -⟩
  · exact hinner hall
  · cases htoken.symm.trans h

theorem toNat_widthAt (p : Place) : (widthAt (.begin p)).toNat = min 65535 p.column := by
  have hcolumn : (Cursor.begin p).column = p.column := rfl
  rw [widthAt, hcolumn, UInt16.toNat_ofNat']
  omega

/-- Whatever a scanner has been through, a host that only calls it in front of a line, with one
acceptance set, is soon declined: after no more tokens than two for every owed dedent, two for
every open block, and two. Each token is empty and lies where its call began or where the line
begins. If the host accepts everything, the innermost block is then as wide as the line. -/
theorem standstill_ends {taken : List (List UInt8)} {tokens : List Kind}
    (run : Run .own taken tokens s) (accepted : Acceptance Kind) (before after : List Char)
    (filler : ∀ c ∈ gap, isFiller c = true) (hx : isFiller x = false) :
    let line : Place := .between (before ++ gap) (x :: after)
    let now (i : Nat) : Progress State :=
      (follow accepted)^[i] ⟨s, .between before (gap ++ x :: after)⟩
    ∃ n ≤ 2 * (s.owed + s.depth) + 2,
      (∀ i < n, ∃ token, (callFrom accepted (now i)).token = some token ∧
        token.start = token.stop ∧ (token.stop = (now i).place ∨ token.stop = line)) ∧
      (callFrom accepted (now n)).token = none ∧
      ((∀ kind, kind ∈ accepted) →
        (callFrom accepted (now n)).state.innermost.toNat = min 65535 line.column) := by
  intro line now
  have sound := run.sound.1
  have hfirst : Poised line (now 0) :=
    ⟨sound, gap, ⟨before, x :: after, rfl, rfl⟩, filler, x, after, rfl, hx⟩
  obtain ⟨n, hn, hbefore, hthen, hdecline⟩ :=
    exists_declining (Poised line) (unsaidBefore line)
      (fun now token poised h => ⟨(poised.follow h).1, (poised.follow h).2.1⟩) hfirst
  refine ⟨n, Nat.le_trans hn (sound.unsaid_le _ _), ?_, hdecline, ?_⟩
  · intro i hi
    obtain ⟨poised, token, htoken⟩ := hbefore i hi
    exact ⟨token, htoken, (poised.follow htoken).2.2⟩
  · intro hall
    have hinner := congrArg UInt16.toNat (hthen.innermost_eq hall hdecline)
    exact hinner.trans (toNat_widthAt line)

/-- A newline waits and a block of width two is open when the host comes to a line of width one.
It gets the newline, a dedent with its newline, and an indent, which are as many tokens as it
can get at all, and then it is declined. -/
theorem standstill_ends_misaligned :
    let opened := Scanner.call State.initial .all (.first [' ', ' ', 'a'])
    let deeper := Scanner.call opened.state .all (.first [' ', ' ', ' ', ' ', 'b'])
    let closed := Scanner.call deeper.state .all (.first [' ', ' ', 'c'])
    let now (i : Nat) : Progress State :=
      (follow .all)^[i] ⟨closed.state, .between [] ([' '] ++ 'd' :: [])⟩
    closed.state.owed = 0 ∧ closed.state.depth = 1 ∧ (callFrom .all (now 3)).token.isSome ∧
      ∃ n ≤ 4, (callFrom .all (now n)).token = none ∧
        (callFrom .all (now n)).state.innermost.toNat = 1 := by
  intro opened deeper closed now
  have run : Run .own [] [.indent, .indent, .dedent] closed.state :=
    .scan .all (.first [' ', ' ', 'c'])
      (.scan .all (.first [' ', ' ', ' ', ' ', 'b'])
        (.scan .all (.first [' ', ' ', 'a']) .begin))
  have filler : ∀ c ∈ [' '], isFiller c = true := List.forall_mem_singleton.mpr (by decide)
  obtain ⟨n, hn, -, hdecline, hinner⟩ := standstill_ends run .all [] [] filler
    (by decide : isFiller 'd' = false)
  exact ⟨by decide, by decide, by decide, n, hn, hdecline, hinner Acceptance.mem_all⟩

end ContextLexer.Offside
