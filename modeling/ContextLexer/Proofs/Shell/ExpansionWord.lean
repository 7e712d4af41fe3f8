/-
# Words of expansions

A word inside an expansion goes on up to the closing brace or to another expansion, and must
not come to a quote. Its characters are looked at one after the other, but a dollar sign that
begins no expansion takes the next character along, and so does the group in parentheses with
which a word may begin. These characters are not asked whether they stop the word: a double quote
can stand there, and behind the group also another expansion. Otherwise a word holds nothing
that stops it.

What is read as a word is told here by a grammar, whose rules have the rest in front of which
the word ends as an index.
-/

import ContextLexer.Proofs.Onward
import ContextLexer.Proofs.Shell.Walk
import ContextLexer.Proofs.Sessions

namespace ContextLexer.Shell

open Scanner (Sees)

/-- The host accepts a word of an expansion, and nothing else. -/
def expansionWords : Accepted := .ofList [.expansionWord]

/-! ## The grammar -/

/-- An expansion comes next. -/
def ExpansionNext (text : List Char) : Prop := ∃ c, ['$', c] <+: text ∧ beginsExpansion c = true

/-- A text with which a word goes on, and the rest in front of which the word ends then. -/
inductive WordText : List Char → List Char → Prop
  /-- A closing brace ends the word. -/
  | brace (rest : List Char) : WordText [] ('}' :: rest)
  /-- So it does behind a dollar sign. -/
  | dollarBrace (rest : List Char) : WordText ['$'] ('}' :: rest)
  /-- An expansion ends the word. -/
  | expansion {rest : List Char} (next : ExpansionNext rest) : WordText [] rest
  /-- A character that does not stop the word. -/
  | plain {c : Char} {text rest : List Char} (seen : c ∉ ['\"', '$', '}', '\''])
      (later : WordText text rest) : WordText (c :: text) rest
  /-- A dollar sign and the character behind it, with which no expansion begins. -/
  | dollar {c : Char} {text rest : List Char} (bare : beginsExpansion c = false)
      (unbraced : c ≠ '}') (later : WordText text rest) : WordText ('$' :: c :: text) rest

/-- A text inside of a group, which neither closes the group nor holds an expansion. -/
structure GroupText (inside : List Char) : Prop where
  unclosed : ')' ∉ inside
  unexpanded : ∀ back, back <:+ inside → ¬ ExpansionNext back

/-- There is enough in a word, given what has been read in front of its text: in front of a brace
whitespace is enough, but not in front of an expansion. -/
def Suffices (solid spaced : Bool) (text rest : List Char) : Prop :=
  solid = true ∨ (∃ c ∈ text, isSpace c = false) ∨
    rest.head? = some '}' ∧ (spaced = true ∨ text ≠ [])

/-- What has been read of a word counts as much as what is still to come. -/
theorem suffices_cons_iff {solid spaced : Bool} {c : Char} {text rest : List Char} :
    Suffices solid spaced (c :: text) rest ↔
      Suffices (solid || !isSpace c) (spaced || isSpace c) text rest := by
  cases hspace : isSpace c <;> simp [Suffices, hspace]

/-- A whole word, and the rest in front of which it ends. -/
inductive WholeWord : List Char → List Char → Prop
  /-- A word that does not begin with a group. -/
  | plain {text rest : List Char} (ungrouped : text.head? ≠ some '(') (reads : WordText text rest)
      (enough : Suffices false false text rest) : WholeWord text rest
  /-- A group, a character behind it, and more of the word. -/
  | grouped {inside : List Char} {c : Char} {text rest : List Char} (group : GroupText inside)
      (goesOn : c ∉ ['}', '\'']) (reads : WordText text rest) :
      WholeWord ('(' :: inside ++ ')' :: c :: text) rest
  /-- A group that an expansion breaks off. -/
  | broken {inside rest : List Char} (group : GroupText inside)
      (solid : ∃ c ∈ inside, isSpace c = false) (next : ExpansionNext rest) :
      WholeWord ('(' :: inside) rest

variable {before text rest ahead inside : List Char} {c : Char} {start : Place}
  {mark : Option Place} {solid spaced : Bool} {claim : Claim Kind}

theorem GroupText.of_cons (h : GroupText (c :: inside)) : c ≠ ')' ∧ GroupText inside :=
  ⟨fun hc => h.unclosed (by simp [hc]), fun hmem => h.unclosed (by simp [hmem]),
    fun back hback => h.unexpanded back (hback.trans (List.suffix_cons c inside))⟩

theorem ExpansionNext.exists_cons (h : ExpansionNext text) :
    ∃ c rest, text = '$' :: c :: rest ∧ beginsExpansion c = true := by
  obtain ⟨c, ⟨rest, rfl⟩, hc⟩ := h
  exact ⟨c, rest, rfl, hc⟩

theorem expansionNext_cons_iff :
    ExpansionNext (c :: text) ↔ c = '$' ∧ ∃ d ∈ text.head?, beginsExpansion d = true := by
  constructor
  · intro h
    obtain ⟨d, rest, htext, hd⟩ := h.exists_cons
    cases htext
    exact ⟨rfl, d, rfl, hd⟩
  · rintro ⟨rfl, d, hd, hbegins⟩
    obtain ⟨rest, rfl⟩ := List.head?_eq_some_iff.mp hd
    exact ⟨d, ⟨rest, rfl⟩, hbegins⟩

/-- No expansion begins in a text of a group, and none at its end. -/
theorem GroupText.not_expansionNext (h : GroupText (c :: inside))
    (ends : ∀ c ∈ rest.head?, beginsExpansion c = false) :
    ¬ ExpansionNext (c :: (inside ++ rest)) := by
  rw [expansionNext_cons_iff]
  rintro ⟨rfl, d, hd, hbegins⟩
  cases inside with
  | nil => exact Bool.false_ne_true ((ends d hd).symm.trans hbegins)
  | cons e inside =>
      exact h.unexpanded _ List.suffix_rfl (expansionNext_cons_iff.mpr ⟨rfl, d, hd, hbegins⟩)

/-- A text begins with a text of a group, up to where the group is closed or an expansion breaks
it off. -/
theorem exists_group (text : List Char) :
    ∃ inside rest, text = inside ++ rest ∧ GroupText inside ∧
      (rest = [] ∨ rest.head? = some ')' ∨ ExpansionNext rest) := by
  have hnothing : GroupText [] := by
    refine ⟨List.not_mem_nil, ?_⟩
    rintro back hback ⟨c, hprefix, -⟩
    rw [List.suffix_nil.mp hback] at hprefix
    exact absurd (List.prefix_nil.mp hprefix) (by simp)
  induction text with
  | nil => exact ⟨[], [], rfl, hnothing, .inl rfl⟩
  | cons c text ih =>
      by_cases hcloser : c = ')'
      · exact ⟨[], c :: text, rfl, hnothing, .inr (.inl (by rw [hcloser]; rfl))⟩
      by_cases hnext : ExpansionNext (c :: text)
      · exact ⟨[], c :: text, rfl, hnothing, .inr (.inr hnext)⟩
      obtain ⟨inside, rest, rfl, group, hrest⟩ := ih
      refine ⟨c :: inside, rest, rfl, ⟨?_, fun back hback => ?_⟩, hrest⟩
      · rw [List.mem_cons, not_or]
        exact ⟨Ne.symm hcloser, group.unclosed⟩
      · rcases List.suffix_cons_iff.mp hback with rfl | hback
        · rintro ⟨d, hprefix, hd⟩
          exact hnext ⟨d, hprefix.trans (List.prefix_append (c :: inside) rest), hd⟩
        · exact group.unexpanded back hback

/-! ## What stops a word -/

/-- What has been read of a word behind its group ends where the next character is not asked
whether it stops the word. -/
def Unasked (group front : List Char) : Prop :=
  front.getLast? = some '$' ∨ front = [] ∧ group.getLast? = some ')'

/-- How a word splits into a group and what comes behind it. -/
inductive Opening : List Char → List Char → Prop
  /-- The word begins with no group. -/
  | none {body : List Char} (ungrouped : body.head? ≠ some '(') : Opening [] body
  /-- The group is closed. -/
  | closed {inside : List Char} (unclosed : ')' ∉ inside) (body : List Char) :
      Opening ('(' :: inside ++ [')']) body
  /-- The group is the whole word. -/
  | broken {inside : List Char} (unclosed : ')' ∉ inside) : Opening ('(' :: inside) []

theorem WordText.not_mem (h : WordText text rest) : '}' ∉ text ∧ '\'' ∉ text := by
  induction h with
  | brace | expansion => exact ⟨List.not_mem_nil, List.not_mem_nil⟩
  | dollarBrace => exact ⟨by decide, by decide⟩
  | @plain c text rest seen later ih =>
      simp only [List.mem_cons, List.not_mem_nil, or_false, not_or] at seen
      simp [ih, Ne.symm seen.2.2.1, Ne.symm seen.2.2.2]
  | @dollar c text rest bare unbraced later ih =>
      have hquote : '\'' ≠ c := by
        rintro rfl
        exact absurd bare (by decide)
      simp [ih, Ne.symm unbraced, hquote]

theorem WordText.stops (h : WordText text rest) : rest.head? = some '}' ∨ ExpansionNext rest := by
  induction h with
  | brace | dollarBrace => exact .inl rfl
  | expansion next => exact .inr next
  | plain _ _ ih | dollar _ _ _ ih => exact ih

/-- A double quote stands in a word only behind a dollar sign, and so does an expansion. -/
theorem WordText.getLast?_of_stops {front back : List Char} (h : WordText text rest)
    (hsplit : text = front ++ back) (hback : back.head? = some '\"' ∨ ExpansionNext back) :
    front.getLast? = some '$' := by
  have hcons {c : Char} {front : List Char} (hlast : front.getLast? = some '$') :
      (c :: front).getLast? = some '$' := by
    rw [List.getLast?_cons, hlast]
    rfl
  induction h generalizing front with
  | brace | expansion =>
      obtain ⟨-, rfl⟩ := List.nil_eq_append_iff.mp hsplit
      simp [ExpansionNext] at hback
  | dollarBrace =>
      rcases List.singleton_eq_append_iff.mp hsplit with ⟨-, rfl⟩ | ⟨rfl, -⟩
      · simp [expansionNext_cons_iff] at hback
      · rfl
  | @plain c text rest seen later ih =>
      rcases List.cons_eq_append_iff.mp hsplit with ⟨-, rfl⟩ | ⟨front, rfl, htext⟩
      · simp only [List.mem_cons, List.not_mem_nil, or_false, not_or] at seen
        simp [expansionNext_cons_iff, seen] at hback
      · exact hcons (ih htext)
  | @dollar c text rest bare unbraced later ih =>
      rcases List.cons_eq_append_iff.mp hsplit with ⟨-, rfl⟩ | ⟨front, rfl, htext⟩
      · simp [expansionNext_cons_iff, bare] at hback
      rcases List.cons_eq_append_iff.mp htext with ⟨rfl, -⟩ | ⟨front, rfl, hmore⟩
      · rfl
      · exact hcons (hcons (ih hmore))

/-- A word holds something and ends where it is stopped. Behind its group it holds nothing that
stops it, except where that is not asked. -/
theorem WholeWord.stops (h : WholeWord text rest) :
    text ≠ [] ∧ (rest.head? = some '}' ∨ ExpansionNext rest) ∧
    ∃ group body, text = group ++ body ∧ Opening group body ∧ '}' ∉ body ∧ '\'' ∉ body ∧
      ∀ front back, body = front ++ back → back.head? = some '\"' ∨ ExpansionNext back →
        Unasked group front := by
  cases h with
  | plain ungrouped reads enough =>
      obtain ⟨hbrace, hquote⟩ := reads.not_mem
      refine ⟨?_, reads.stops, [], text, rfl, .none ungrouped, hbrace, hquote,
        fun front back hsplit hback => .inl (reads.getLast?_of_stops hsplit hback)⟩
      rintro rfl
      simp [Suffices] at enough
  | @grouped inside c body rest group goesOn reads =>
      obtain ⟨hbrace, hquote⟩ := reads.not_mem
      simp only [List.mem_cons, List.not_mem_nil, or_false, not_or] at goesOn
      refine ⟨List.cons_ne_nil _ _, reads.stops, '(' :: inside ++ [')'], c :: body, by simp,
        .closed group.unclosed _, ?_, ?_, fun front back hsplit hback => ?_⟩
      · simp [hbrace, Ne.symm goesOn.1]
      · simp [hquote, Ne.symm goesOn.2]
      -- The character behind the group is not asked, and behind it the grammar goes on as usual.
      rcases List.cons_eq_append_iff.mp hsplit with ⟨rfl, -⟩ | ⟨front, rfl, hbody⟩
      · exact .inr ⟨rfl, List.getLast?_concat⟩
      · refine .inl ?_
        rw [List.getLast?_cons, reads.getLast?_of_stops hbody hback]
        rfl
  | @broken inside rest group solid next =>
      refine ⟨List.cons_ne_nil _ _, .inr next, '(' :: inside, [], by simp,
        .broken group.unclosed, List.not_mem_nil, List.not_mem_nil,
        fun front back hsplit hback => ?_⟩
      obtain ⟨-, rfl⟩ := List.nil_eq_append_iff.mp hsplit
      simp [ExpansionNext] at hback

/-! ## Turns -/

namespace ExpansionWord

section

-- What decides a word is thrown, and `simp` has to see through that.
variable {α β : Type}

@[simp] theorem throw_eq_error : (throw claim : Except (Claim Kind) α) = .error claim := rfl

@[simp] theorem pure_eq_ok (value : α) : (pure value : Except (Claim Kind) α) = .ok value := rfl

@[simp] theorem error_bind (next : α → Except (Claim Kind) β) :
    (Except.error claim : Except (Claim Kind) α) >>= next = .error claim := rfl

@[simp] theorem ok_bind (value : α) (next : α → Except (Claim Kind) β) :
    (Except.ok value : Except (Claim Kind) α) >>= next = next value := rfl

end

/-- A turn, one step after the other. -/
theorem turn_eq (now : ExpansionWord) :
    now.turn =
      if now.cursor.sees '\"' then .done none
      else
        match now.pastDollar with
        | .error claim => .done claim
        | .ok here =>
          if here.cursor.sees '}' then
            .done (claimIf (here.solid || here.spaced) here.cursor.markEnd)
          else
            match here.pastGroup with
            | .error claim => .done claim
            | .ok word =>
              if word.cursor.sees '\'' || word.cursor.atEnd then .done none
              else .again word.take := by
  rw [turn, advance]
  by_cases hquote : now.cursor.sees '\"' = true
  · simp [hquote]
  cases hdollar : now.pastDollar with
  | error claim => simp [hquote]
  | ok here =>
      by_cases hbrace : here.cursor.sees '}' = true
      · simp [hquote, hbrace]
      cases hgroup : here.pastGroup with
      | error claim => simp [hquote, hbrace, hgroup]
      | ok word =>
          by_cases hends : word.cursor.sees '\'' = true ∨ word.cursor.atEnd = true
          · simp [hquote, hbrace, hgroup, hends]
          · simp [hquote, hbrace, hgroup, hends]

/-- A parenthesis begins a group only where nothing has been read. -/
theorem pastGroup_eq_ok {now : ExpansionWord}
    (ungrouped : now.cursor.lookahead = '(' → (now.solid || now.spaced) = true) :
    now.pastGroup = .ok now := by
  refine if_neg ?_
  rintro ⟨hsees, hnothing⟩
  rw [ungrouped (of_decide_eq_true hsees)] at hnothing
  cases hnothing

/-- A word is read from any point of it. -/
def runFrom (now : ExpansionWord) : Claim Kind :=
  Turn.run turn (fun now => now.cursor.remaining) turn_shrinks now

theorem turn_over :
    turn ⟨⟨.between before [], start, mark⟩, solid, spaced⟩ = .done none := by
  simp [turn_eq, pastDollar, pastGroup]

theorem turn_quote (hc : c ∈ ['\"', '\'']) :
    turn ⟨⟨.between before (c :: rest), start, mark⟩, solid, spaced⟩ = .done none := by
  simp only [List.mem_cons, List.not_mem_nil, or_false] at hc
  rcases hc with rfl | rfl <;> simp [turn_eq, pastDollar, pastGroup]

theorem turn_brace :
    turn ⟨⟨.between before ('}' :: rest), start, mark⟩, solid, spaced⟩ =
      .done (claimIf (solid || spaced)
        ⟨.between before ('}' :: rest), start, some (.between before ('}' :: rest))⟩) := by
  simp [turn_eq, pastDollar]

theorem turn_expansion (begins : beginsExpansion c = true) :
    turn ⟨⟨.between before ('$' :: c :: rest), start, mark⟩, solid, spaced⟩ =
      .done (claimIf solid ⟨.between (before ++ ['$']) (c :: rest), start,
        some (.between before ('$' :: c :: rest))⟩) := by
  simp [turn_eq, pastDollar, takeDollar, begins]

theorem turn_dollar_over :
    turn ⟨⟨.between before ['$'], start, mark⟩, solid, spaced⟩ = .done none := by
  have hbare : beginsExpansion '\x00' = false := by decide
  simp [turn_eq, pastDollar, takeDollar, pastGroup, hbare]

theorem turn_dollar_brace :
    turn ⟨⟨.between before ('$' :: '}' :: rest), start, mark⟩, solid, spaced⟩ =
      .done (some (.expansionWord, ⟨.between (before ++ ['$']) ('}' :: rest), start,
        some (.between (before ++ ['$']) ('}' :: rest))⟩)) := by
  have hbare : beginsExpansion '}' = false := by decide
  simp [turn_eq, pastDollar, takeDollar, claimIf, hbare]

/-- A dollar sign takes the next character along. -/
theorem turn_dollar (bare : beginsExpansion c = false) (unbraced : c ≠ '}') :
    turn ⟨⟨.between before ('$' :: c :: rest), start, mark⟩, solid, spaced⟩ =
      .again ⟨⟨.between (before ++ ['$', c]) rest, start,
        some (.between before ('$' :: c :: rest))⟩, true, spaced || isSpace c⟩ := by
  have hquote : c ≠ '\'' := by
    rintro rfl
    simp [beginsExpansion] at bare
  simp [turn_eq, pastDollar, takeDollar, pastGroup, take, bare, unbraced, hquote]

theorem turn_plain (seen : c ∉ ['\"', '$', '}', '\''])
    (ungrouped : c = '(' → (solid || spaced) = true) :
    turn ⟨⟨.between before (c :: rest), start, mark⟩, solid, spaced⟩ =
      .again ⟨⟨.between (before ++ [c]) rest, start, mark⟩, solid || !isSpace c,
        spaced || isSpace c⟩ := by
  simp only [List.mem_cons, List.not_mem_nil, or_false, not_or] at seen
  have hgroup := @pastGroup_eq_ok ⟨⟨.between before (c :: rest), start, mark⟩, solid, spaced⟩
    ungrouped
  simp [turn_eq, pastDollar, hgroup, take, seen]

/-! ## The run -/

/-- Something is claimed that comes next in front of a rest. -/
def Claims (start : Place) (before text rest : List Char) (claim : Claim Kind) : Prop :=
  ∃ c, claim = some (.expansionWord, c) ∧ c.start = start ∧ c.stop = .between (before ++ text) rest

theorem claims_claimIf {condition : Bool} {c : Cursor} (h : condition = true)
    (hstart : c.start = start) (hstop : c.stop = .between (before ++ text) rest) :
    Claims start before text rest (claimIf condition c) :=
  ⟨c, by rw [claimIf, if_pos h], hstart, hstop⟩

/-- What is claimed behind a text is claimed in front of it together with the text. -/
theorem Claims.unit {unit : List Char} (h : Claims start (before ++ unit) text rest claim) :
    Claims start before (unit ++ text) rest claim := by
  obtain ⟨c, hclaim, hstart, hstop⟩ := h
  exact ⟨c, hclaim, hstart, by rw [hstop, List.append_assoc]⟩

/-- What the grammar reads with enough in it is claimed. -/
theorem claims_runFrom (reads : WordText text rest) (enough : Suffices solid spaced text rest)
    (ungrouped : text.head? = some '(' → (solid || spaced) = true) (before : List Char)
    (mark : Option Place) :
    Claims start before text rest
      (runFrom ⟨⟨.between before (text ++ rest), start, mark⟩, solid, spaced⟩) := by
  induction reads generalizing before mark solid spaced with
  | brace rest =>
      have hread : (solid || spaced) = true := by simpa [Suffices] using enough
      rw [List.nil_append, runFrom, Turn.run_of_done turn_brace]
      exact claims_claimIf hread rfl (by simp [Cursor.stop])
  | dollarBrace rest =>
      rw [List.singleton_append, runFrom, Turn.run_of_done turn_dollar_brace]
      exact ⟨_, rfl, rfl, rfl⟩
  | expansion next =>
      obtain ⟨c, rest, rfl, begins⟩ := next.exists_cons
      have hsolid : solid = true := by simpa [Suffices] using enough
      rw [List.nil_append, runFrom, Turn.run_of_done (turn_expansion begins)]
      exact claims_claimIf hsolid rfl (by simp [Cursor.stop])
  | @plain c text rest seen reads ih =>
      have hturn := @turn_plain before (text ++ rest) c start mark solid spaced seen
        fun hc => ungrouped (by rw [hc]; rfl)
      rw [List.cons_append, runFrom, Turn.run_of_again hturn]
      exact Claims.unit (ih (suffices_cons_iff.mp enough) (by cases isSpace c <;> simp) _ mark)
  | @dollar c text rest bare unbraced reads ih =>
      rw [List.cons_append, List.cons_append, runFrom,
        Turn.run_of_again (turn_dollar bare unbraced)]
      exact Claims.unit (ih (.inl rfl) (fun _ => rfl) _ _)

theorem of_mem_claimIf {condition : Bool} {c : Cursor} {found : Kind × Cursor}
    (h : found ∈ claimIf condition c) : condition = true := by
  cases condition with
  | false => cases h
  | true => rfl

/-- Nothing is claimed but what the grammar reads with enough in it. -/
theorem exists_wordText {found : Kind × Cursor}
    (ungrouped : ahead.head? = some '(' → (solid || spaced) = true)
    (hfound : found ∈ runFrom ⟨⟨.between before ahead, start, mark⟩, solid, spaced⟩) :
    ∃ text rest, ahead = text ++ rest ∧ WordText text rest ∧ Suffices solid spaced text rest := by
  -- A dollar sign takes two characters at once, so the induction is on how much is left.
  induction hlength : ahead.length using Nat.strongRecOn
    generalizing before ahead mark solid spaced with
  | _ length ih =>
  subst hlength
  rw [runFrom] at hfound
  cases ahead with
  | nil =>
      rw [Turn.run_of_done turn_over] at hfound
      cases hfound
  | cons c ahead =>
  by_cases hquote : c ∈ ['\"', '\'']
  · rw [Turn.run_of_done (turn_quote hquote)] at hfound
    cases hfound
  by_cases hbrace : c = '}'
  · subst hbrace
    rw [Turn.run_of_done turn_brace] at hfound
    have hread := of_mem_claimIf hfound
    exact ⟨[], '}' :: ahead, rfl, .brace ahead, by simpa [Suffices] using hread⟩
  by_cases hdollar : c = '$'
  · subst hdollar
    cases ahead with
    | nil =>
        rw [Turn.run_of_done turn_dollar_over] at hfound
        cases hfound
    | cons d ahead =>
    by_cases hbegins : beginsExpansion d = true
    · rw [Turn.run_of_done (turn_expansion hbegins)] at hfound
      have hsolid := of_mem_claimIf hfound
      have hnext : ExpansionNext ('$' :: d :: ahead) :=
        expansionNext_cons_iff.mpr ⟨rfl, d, rfl, hbegins⟩
      exact ⟨[], '$' :: d :: ahead, rfl, .expansion hnext, .inl hsolid⟩
    by_cases hclose : d = '}'
    · subst hclose
      exact ⟨['$'], '}' :: ahead, rfl, .dollarBrace ahead, by simp [Suffices]⟩
    have hbare : beginsExpansion d = false := by simpa using hbegins
    rw [Turn.run_of_again (turn_dollar hbare hclose)] at hfound
    have hless : ahead.length < ('$' :: d :: ahead).length := by
      simp only [List.length_cons]
      omega
    obtain ⟨text, rest, rfl, reads, -⟩ := ih ahead.length hless (fun _ => rfl) hfound rfl
    refine ⟨'$' :: d :: text, rest, rfl, .dollar hbare hclose reads, .inr (.inl ?_)⟩
    exact ⟨'$', by simp, by decide⟩
  · have hseen : c ∉ ['\"', '$', '}', '\''] := by
      simp only [List.mem_cons, List.not_mem_nil, or_false, not_or] at hquote ⊢
      exact ⟨hquote.1, hdollar, hbrace, hquote.2⟩
    have hturn := @turn_plain before ahead c start mark solid spaced hseen
      fun hc => ungrouped (by rw [hc]; rfl)
    rw [Turn.run_of_again hturn] at hfound
    obtain ⟨text, rest, rfl, reads, enough⟩ :=
      ih ahead.length (by simp) (by cases isSpace c <;> simp) hfound rfl
    exact ⟨c :: text, rest, rfl, .plain hseen reads, suffices_cons_iff.mpr enough⟩

/-! ## Groups -/

/-- The rest of a group is read from any point of it. -/
def runInside (now : ExpansionWord) : Except (Claim Kind) ExpansionWord :=
  Turn.run groupTurn (fun now => now.cursor.remaining) groupTurn_shrinks now

/-- What comes of a group whose text has been read. It has to be closed there, and the closing
brace must not come right behind it. -/
def closeGroup (closing : ExpansionWord) : Except (Claim Kind) ExpansionWord :=
  let after := closing.cursor.consume.markEnd
  if closing.cursor.sees ')' then
    if after.sees '}' then .error none else .ok { closing with cursor := after, solid := true }
  else .error none

theorem takeGroup_eq (now : ExpansionWord) :
    now.takeGroup =
      (runInside { now with cursor := now.cursor.markEnd.consume }) >>= closeGroup := by
  rw [takeGroup]
  dsimp only
  rw [← runInside]
  cases runInside { now with cursor := now.cursor.markEnd.consume } with
  | error claim => rfl
  | ok closing =>
      by_cases hcloser : closing.cursor.sees ')' = true
      · by_cases hbrace : closing.cursor.consume.markEnd.sees '}' = true
        · simp [closeGroup, hcloser, hbrace]
        · simp [closeGroup, hcloser, hbrace]
      · simp [closeGroup, hcloser]

theorem groupTurn_over :
    groupTurn ⟨⟨.between before [], start, mark⟩, solid, spaced⟩ =
      .done (.ok ⟨⟨.between before [], start, mark⟩, solid, spaced⟩) := by
  simp [groupTurn]

theorem groupTurn_closer :
    groupTurn ⟨⟨.between before (')' :: rest), start, mark⟩, solid, spaced⟩ =
      .done (.ok ⟨⟨.between before (')' :: rest), start, mark⟩, solid, spaced⟩) := by
  simp [groupTurn]

theorem groupTurn_expansion (begins : beginsExpansion c = true) :
    groupTurn ⟨⟨.between before ('$' :: c :: rest), start, mark⟩, solid, spaced⟩ =
      .done (.error (claimIf solid ⟨.between (before ++ ['$']) (c :: rest), start,
        some (.between before ('$' :: c :: rest))⟩)) := by
  simp [groupTurn, takeDollar, begins]

/-- A turn reads one character of a group, and remembers whether it was whitespace. -/
theorem groupTurn_inside (unclosed : c ≠ ')') (unexpanded : ¬ ExpansionNext (c :: rest))
    (before : List Char) (start : Place) (mark : Option Place) (solid spaced : Bool) :
    ∃ mark' spaced', groupTurn ⟨⟨.between before (c :: rest), start, mark⟩, solid, spaced⟩ =
      .again ⟨⟨.between (before ++ [c]) rest, start, mark'⟩, solid || !isSpace c, spaced'⟩ := by
  by_cases hdollar : c = '$'
  · subst hdollar
    have hspace : isSpace '$' = false := by decide
    have hbare : beginsExpansion (Place.between (before ++ ['$']) rest).lookahead = false := by
      refine Place.lookahead_between (beginsExpansion · = false) (by decide) fun d hd => ?_
      exact Bool.eq_false_iff.mpr fun hbegins =>
        unexpanded (expansionNext_cons_iff.mpr ⟨rfl, d, hd, hbegins⟩)
    exact ⟨some (.between before ('$' :: rest)), spaced, by
      simp [groupTurn, takeDollar, hbare, hspace]⟩
  · exact ⟨mark, spaced || isSpace c, by simp [groupTurn, take, unclosed, hdollar]⟩

/-- The text of a group is read up to its end. -/
theorem runInside_text (group : GroupText inside)
    (ends : ∀ c ∈ rest.head?, beginsExpansion c = false) (before : List Char) (start : Place)
    (mark : Option Place) (solid spaced : Bool) :
    ∃ mark' spaced',
      runInside ⟨⟨.between before (inside ++ rest), start, mark⟩, solid, spaced⟩ =
        runInside ⟨⟨.between (before ++ inside) rest, start, mark'⟩,
          solid || inside.any (!isSpace ·), spaced'⟩ := by
  induction inside generalizing before mark solid spaced with
  | nil => exact ⟨mark, spaced, by simp⟩
  | cons c inside ih =>
      obtain ⟨unclosed, hinside⟩ := group.of_cons
      obtain ⟨later, blank, hturn⟩ := groupTurn_inside unclosed (group.not_expansionNext ends)
        before start mark solid spaced
      obtain ⟨mark', spaced', hrun⟩ := ih hinside (before ++ [c]) later (solid || !isSpace c) blank
      refine ⟨mark', spaced', (Turn.run_of_again hturn).trans (hrun.trans ?_)⟩
      simp [Bool.or_assoc]

/-- A word that begins with a group is read on behind the text of the group. -/
theorem turn_opener (group : GroupText inside)
    (ends : ∀ c ∈ rest.head?, beginsExpansion c = false) (before : List Char) (start : Place)
    (mark : Option Place) :
    ∃ mark' spaced,
      turn ⟨⟨.between before ('(' :: (inside ++ rest)), start, mark⟩, false, false⟩ =
        match (runInside ⟨⟨.between (before ++ '(' :: inside) rest, start, mark'⟩,
          inside.any (!isSpace ·), spaced⟩) >>= closeGroup with
        | .error claim => .done claim
        | .ok word =>
          if word.cursor.sees '\'' || word.cursor.atEnd then .done none else .again word.take := by
  obtain ⟨mark', spaced, hrun⟩ := runInside_text group ends (before ++ ['(']) start
    (some (.between before ('(' :: (inside ++ rest)))) false false
  refine ⟨mark', spaced, ?_⟩
  have htake : takeGroup ⟨⟨.between before ('(' :: (inside ++ rest)), start, mark⟩, false, false⟩ =
      (runInside ⟨⟨.between (before ++ '(' :: inside) rest, start, mark'⟩,
        inside.any (!isSpace ·), spaced⟩) >>= closeGroup := by
    rw [takeGroup_eq]
    simpa using congrArg (· >>= closeGroup) hrun
  rw [turn_eq]
  simp [pastDollar, pastGroup, htake]

section

variable (group : GroupText inside) (before : List Char) (start : Place) (mark : Option Place)

include group

/-- A group that is not closed makes no word. -/
theorem turn_group_over :
    turn ⟨⟨.between before ('(' :: inside), start, mark⟩, false, false⟩ = .done none := by
  have hnone : ∀ c ∈ ([] : List Char).head?, beginsExpansion c = false := by simp
  obtain ⟨mark', spaced, hturn⟩ := turn_opener group hnone before start mark
  rw [runInside, Turn.run_of_done groupTurn_over, List.append_nil] at hturn
  simpa [closeGroup] using hturn

/-- An expansion breaks a group off. -/
theorem turn_group_broken (begins : beginsExpansion c = true) (rest : List Char) :
    turn ⟨⟨.between before ('(' :: (inside ++ '$' :: c :: rest)), start, mark⟩, false, false⟩ =
      .done (claimIf (inside.any (!isSpace ·))
        ⟨.between (before ++ '(' :: inside ++ ['$']) (c :: rest), start,
          some (.between (before ++ '(' :: inside) ('$' :: c :: rest))⟩) := by
  have hdollar : ∀ d ∈ ('$' :: c :: rest).head?, beginsExpansion d = false := by
    rintro _ ⟨⟩
    decide
  obtain ⟨mark', spaced, hturn⟩ := turn_opener group hdollar before start mark
  rw [runInside, Turn.run_of_done (groupTurn_expansion begins)] at hturn
  simpa using hturn

/-- A closed group takes the next character along. -/
theorem turn_group_closed (goesOn : c ∉ ['}', '\'']) (rest : List Char) :
    ∃ mark' spaced,
      turn ⟨⟨.between before ('(' :: (inside ++ ')' :: c :: rest)), start, mark⟩, false, false⟩ =
        .again ⟨⟨.between (before ++ ('(' :: inside ++ [')', c])) rest, start, mark'⟩, true,
          spaced⟩ := by
  have hcloser : ∀ d ∈ (')' :: c :: rest).head?, beginsExpansion d = false := by
    rintro _ ⟨⟩
    decide
  simp only [List.mem_cons, List.not_mem_nil, or_false, not_or] at goesOn
  obtain ⟨mark', spaced, hturn⟩ := turn_opener group hcloser before start mark
  rw [runInside, Turn.run_of_done groupTurn_closer] at hturn
  refine ⟨some (.between (before ++ '(' :: inside ++ [')']) (c :: rest)), spaced || isSpace c, ?_⟩
  simpa [closeGroup, take, goesOn] using hturn

/-- But not a closing brace or a quote. -/
theorem turn_group_stopped (stops : ∀ c ∈ rest.head?, c ∈ ['}', '\'']) :
    turn ⟨⟨.between before ('(' :: (inside ++ ')' :: rest)), start, mark⟩, false, false⟩ =
      .done none := by
  have hcloser : ∀ d ∈ (')' :: rest).head?, beginsExpansion d = false := by
    rintro _ ⟨⟩
    decide
  obtain ⟨mark', spaced, hturn⟩ := turn_opener group hcloser before start mark
  rw [runInside, Turn.run_of_done groupTurn_closer] at hturn
  cases rest with
  | nil => simpa [closeGroup] using hturn
  | cons c rest =>
      have hc := stops c rfl
      simp only [List.mem_cons, List.not_mem_nil, or_false] at hc
      rcases hc with rfl | rfl <;> simpa [closeGroup] using hturn

end

/-! ## Whole words -/

/-- A word of the grammar is claimed. -/
theorem claims_wholeWord (h : WholeWord text rest) (before : List Char) (start : Place)
    (mark : Option Place) :
    Claims start before text rest
      (runFrom ⟨⟨.between before (text ++ rest), start, mark⟩, false, false⟩) := by
  cases h with
  | plain ungrouped reads enough =>
      exact claims_runFrom reads enough (fun hopener => absurd hopener ungrouped) before mark
  | @grouped inside c text rest group goesOn reads =>
      obtain ⟨mark', spaced, hturn⟩ :=
        turn_group_closed group before start mark goesOn (text ++ rest)
      have hclaims := @claims_runFrom text rest start true spaced reads (.inl rfl) (fun _ => rfl)
        (before ++ ('(' :: inside ++ [')', c])) mark'
      rw [runFrom, ← Turn.run_of_again hturn] at hclaims
      simpa [runFrom] using Claims.unit hclaims
  | @broken inside rest group solid next =>
      obtain ⟨c, more, rfl, begins⟩ := next.exists_cons
      have hturn := turn_group_broken group before start mark begins more
      rw [List.cons_append, runFrom, Turn.run_of_done hturn]
      refine claims_claimIf ?_ rfl (by simp [Cursor.stop])
      obtain ⟨d, hd, hspace⟩ := solid
      exact List.any_eq_true.mpr ⟨d, hd, by simp [hspace]⟩

/-- Nothing is claimed but the words of the grammar. -/
theorem exists_wholeWord {found : Kind × Cursor}
    (hfound : found ∈ runFrom ⟨⟨.between before ahead, start, mark⟩, false, false⟩) :
    ∃ text rest, ahead = text ++ rest ∧ WholeWord text rest := by
  by_cases hopener : ahead.head? = some '('
  · obtain ⟨more, rfl⟩ := List.head?_eq_some_iff.mp hopener
    obtain ⟨inside, rest, rfl, group, hrest⟩ := exists_group more
    rw [runFrom] at hfound
    rcases hrest with rfl | hcloser | hnext
    · rw [List.append_nil, Turn.run_of_done (turn_group_over group before start mark)] at hfound
      cases hfound
    · obtain ⟨after, rfl⟩ := List.head?_eq_some_iff.mp hcloser
      by_cases hstops : ∀ c ∈ after.head?, c ∈ ['}', '\'']
      · rw [Turn.run_of_done (turn_group_stopped group before start mark hstops)] at hfound
        cases hfound
      · obtain ⟨c, hc, goesOn⟩ : ∃ c ∈ after.head?, c ∉ ['}', '\''] := by simpa using hstops
        obtain ⟨more, rfl⟩ := List.head?_eq_some_iff.mp hc
        obtain ⟨mark', spaced, hturn⟩ := turn_group_closed group before start mark goesOn more
        rw [Turn.run_of_again hturn] at hfound
        obtain ⟨text, rest, rfl, reads, -⟩ := exists_wordText (fun _ => rfl) hfound
        exact ⟨_, rest, by simp, .grouped group goesOn reads⟩
    · obtain ⟨c, more, rfl, begins⟩ := hnext.exists_cons
      rw [Turn.run_of_done (turn_group_broken group before start mark begins more)] at hfound
      obtain ⟨d, hd, hspace⟩ := List.any_eq_true.mp (of_mem_claimIf hfound)
      exact ⟨'(' :: inside, '$' :: c :: more, rfl,
        .broken group ⟨d, hd, by simpa using hspace⟩ hnext⟩
  · obtain ⟨text, rest, rfl, reads, enough⟩ :=
      exists_wordText (fun h => absurd h hopener) hfound
    refine ⟨text, rest, rfl, .plain (fun htext => hopener ?_) reads enough⟩
    rw [List.head?_append, htext]
    rfl

end ExpansionWord

/-! ## The call -/

open ExpansionWord

/-- A call for words keeps the state, and comes to what is read. -/
theorem scan_expansionWords (s : State) (p : Place) :
    s.scan expansionWords (.begin p) =
      ⟨s, (Ruling.ofClaim (runFrom ⟨.begin p, false, false⟩)).counted expansionWords⟩ := by
  have hasked : Resolver.expansionWord.asked s expansionWords := by
    simp [Resolver.asked, expansionWords]
  rw [State.scan_of_gate hasked (by simp [expansionWords, Resolver.gate])]
  rfl

/-- A call returns a word of the grammar. -/
theorem sees_wholeWord (h : WholeWord text rest) (s : State) (before : List Char) :
    Sees [.call expansionWords] ⟨s, .between before (text ++ rest)⟩
      [(some (.expansionWord, text), .between (before ++ text) rest)]
      ⟨s, .between (before ++ text) rest⟩ := by
  obtain ⟨c, hclaim, hstart, hstop⟩ :=
    claims_wholeWord h before (.between before (text ++ rest)) none
  have hscan := scan_expansionWords s (.between before (text ++ rest))
  rw [Cursor.begin, hclaim, Ruling.ofClaim, Ruling.counted, if_pos (by decide)] at hscan
  exact .of_yields (.claim hscan hstart hstop)

/-- What a call returns is a word of the grammar. -/
theorem wholeWord_of_call {s : State} {p : Place} {token : Token Kind}
    (h : (Scanner.call s expansionWords p).token = some token) :
    WholeWord token.text token.stop.ahead := by
  obtain ⟨c, hclaim, -⟩ := Scanner.exists_claim_of_token h
  have hscan : Scanner.scan s expansionWords (.begin p) = _ := scan_expansionWords s p
  rw [hscan] at hclaim
  have hfound := Ruling.eq_of_counted hclaim
  obtain ⟨before, hp⟩ := p.exists_between
  generalize p.ahead = ahead at hp
  subst hp
  obtain ⟨text, rest, rfl, whole⟩ := exists_wholeWord hfound
  obtain ⟨-, htext, hstop⟩ := (sees_wholeWord whole s before).token_eq h
  rw [htext, hstop]
  exact whole

/-- What the grammar reads, and only that, is what a call returns. -/
theorem sees_wholeWord_iff (s : State) (before : List Char) :
    Sees [.call expansionWords] ⟨s, .between before (text ++ rest)⟩
      [(some (.expansionWord, text), .between (before ++ text) rest)]
      ⟨s, .between (before ++ text) rest⟩ ↔ WholeWord text rest := by
  refine ⟨fun hsees => ?_, fun h => sees_wholeWord h s before⟩
  obtain ⟨c, hclaim⟩ := hsees.exists_claim
  have htoken : (Scanner.call s expansionWords (.between before (text ++ rest))).token =
      some (c.token .expansionWord) := by
    rw [Scanner.call, hclaim]
    rfl
  have hwhole := wholeWord_of_call htoken
  obtain ⟨-, htext, hstop⟩ := hsees.token_eq htoken
  rwa [htext, hstop] at hwhole

/-- A word is not empty and stops at a closing brace or an expansion. Behind a group with which it
begins it holds no single quote and no closing brace, and a double quote or an expansion only
where the character is not looked at: behind a dollar sign or right behind the group. -/
theorem word_holds_stops_unasked (s : State) (p : Place) (token : Token Kind)
    (h : (Scanner.call s expansionWords p).token = some token) :
    token.text ≠ [] ∧ (token.stop.ahead.head? = some '}' ∨ ExpansionNext token.stop.ahead) ∧
    ∃ group body, token.text = group ++ body ∧ Opening group body ∧ '}' ∉ body ∧ '\'' ∉ body ∧
      ∀ front back, body = front ++ back → back.head? = some '\"' ∨ ExpansionNext back →
        Unasked group front :=
  (wholeWord_of_call h).stops

/-- A double quote behind a group and another one behind a dollar sign. -/
theorem word_holds_stops_unasked_twice :
    let p : Place := .between ['x'] ['(', 'a', ')', '\"', 'b', '$', '\"', '$', '{']
    let token : Token Kind :=
      ⟨.expansionWord, p, .between ['x', '(', 'a', ')', '\"', 'b', '$', '\"'] ['$', '{']⟩
    (Scanner.call State.initial expansionWords p).token = some token ∧
    token.text ≠ [] ∧ (token.stop.ahead.head? = some '}' ∨ ExpansionNext token.stop.ahead) ∧
    ∃ group body, token.text = group ++ body ∧ Opening group body ∧ '}' ∉ body ∧ '\'' ∉ body ∧
      ∀ front back, body = front ++ back → back.head? = some '\"' ∨ ExpansionNext back →
        Unasked group front := by
  intro p token
  have htoken : (Scanner.call State.initial expansionWords p).token = some token := rfl
  exact ⟨htoken, word_holds_stops_unasked State.initial p token htoken⟩

/-- The quote behind a dollar sign and the expansion behind a group do not stop the word. -/
theorem stops_pass_unasked :
    Sees [.call expansionWords] ⟨State.initial, .between [] ['a', '$', '\"', 'b', '}']⟩
      [(some (.expansionWord, ['a', '$', '\"', 'b']), .between ['a', '$', '\"', 'b'] ['}'])]
      ⟨State.initial, .between ['a', '$', '\"', 'b'] ['}']⟩ ∧
    Sees [.call expansionWords] ⟨State.initial, .between [] ['(', 'a', ')', '$', 'x', '}']⟩
      [(some (.expansionWord, ['(', 'a', ')', '$', 'x']), .between ['(', 'a', ')', '$', 'x'] ['}'])]
      ⟨State.initial, .between ['(', 'a', ')', '$', 'x'] ['}']⟩ :=
  ⟨rfl, rfl⟩

end ContextLexer.Shell
