/-
# Calls for regexes

A host that accepts nothing but regexes asks the resolver for regexes and no other, and no
such call changes the state of the scanner. What the resolver makes of the input is told here
by the place at which it begins to read: whitespace in front of it is ignored, unless only a
slash can end the regex, and a quote there belongs to other constructs.
-/

import ContextLexer.Proofs.Sessions
import ContextLexer.Proofs.Shell.Pattern
import ContextLexer.Proofs.Shell.Walk

namespace ContextLexer.Shell

open Scanner (Sees)

/-- The host accepts regexes, and nothing else. -/
structure AcceptsRegexes (accepted : Accepted) : Prop where
  /-- It accepts some kind of regex. -/
  nonempty : ∃ kind, kind ∈ accepted
  /-- It accepts no other construct. -/
  only : ∀ kind ∈ accepted, kind ∈ [.regex, .regexNoSlash, .regexNoSpace]

variable {accepted : Accepted} {p : Place} {kind : Kind} {c : Cursor}

/-- A call for regexes keeps the state, and comes to what the resolver makes of the input. -/
theorem AcceptsRegexes.scan_eq (h : AcceptsRegexes accepted) (s : State) (c : Cursor) :
    s.scan accepted c = ⟨s, (resolveRegex accepted c).counted accepted⟩ := by
  have hasked : Resolver.regex.asked s accepted := by
    refine ⟨?_, fun hrecovering => ?_⟩
    · obtain ⟨kind, hkind⟩ := h.nonempty
      have hmem := h.only kind hkind
      simp only [List.mem_cons, List.not_mem_nil, or_false] at hmem
      rcases hmem with rfl | rfl | rfl <;> simp [hkind]
    · exact absurd (h.only _ hrecovering) (by decide)
  exact State.scan_of_gate hasked h.only

/-- A call for regexes returns the text that the resolver claims. -/
theorem AcceptsRegexes.sees (h : AcceptsRegexes accepted) {before text rest : List Char}
    (claims : (resolveRegex accepted (.begin p)).counted accepted = some (kind, c))
    (hstart : c.start = .between before (text ++ rest))
    (hstop : c.stop = .between (before ++ text) rest) (s : State) :
    Sees [.call accepted] ⟨s, p⟩ [(some (kind, text), .between (before ++ text) rest)]
      ⟨s, .between (before ++ text) rest⟩ := by
  have hscan : s.scan accepted (.begin p) = ⟨s, some (kind, c)⟩ := by
    rw [h.scan_eq, claims]
  exact .of_yields (.claim hscan hstart hstop)

/-- A call for regexes declines where the resolver claims nothing. -/
theorem AcceptsRegexes.sees_nothing (h : AcceptsRegexes accepted)
    (silent : (resolveRegex accepted (.begin p)).counted accepted = none) (s : State) :
    Sees [.call accepted] ⟨s, p⟩ [(none, p)] ⟨s, p⟩ := by
  refine .decline ?_
  rw [← silent]
  exact h.scan_eq s _

/-! ## Reading -/

/-- The rest of a regex is read from any point of it. -/
def runRegex (style : RegexStyle) (kind : Kind) (now : Regex) : Claim Kind :=
  Turn.run (regexTurn style kind) (fun now => now.cursor.remaining) (regexTurn_shrinks _ _) now

/-- A regex of which nothing has been read, in a token that may have begun before. -/
def freshRegex (start p : Place) : Regex := ⟨⟨p, start, some p⟩, .ofParens 0, false, false⟩

/-- The place where a regex begins. Whitespace is ignored, unless only a slash can end the
regex. -/
def regexPlace (accepted : Accepted) (p : Place) : Place :=
  if .regex ∈ accepted ∨ .regexNoSpace ∈ accepted then p.skipWhile isSpace else p

/-- What the resolver for regexes does, by the place where the regex begins. -/
theorem resolveRegex_begin (accepted : Accepted) (p : Place) :
    resolveRegex accepted (.begin p) =
      if isQuote (regexPlace accepted p).lookahead then .pass (.begin (regexPlace accepted p))
      else if .regexNoSlash ∈ accepted ∧ (regexPlace accepted p).lookahead = '$' then
        if (regexPlace accepted p).next.lookahead = '(' then .decline
        else .ofClaim (runRegex (regexStyle accepted) (regexKind accepted)
          (freshRegex (regexPlace accepted p) (regexPlace accepted p).next))
      else .ofClaim (runRegex (regexStyle accepted) (regexKind accepted)
        (freshRegex (regexPlace accepted p) (regexPlace accepted p))) := by
  have hbegin : (if .regex ∈ accepted ∨ .regexNoSpace ∈ accepted
      then (Cursor.begin p).ignoreWhile isSpace else .begin p) =
      .begin (regexPlace accepted p) := by
    rw [Cursor.ignoreWhile_begin, regexPlace]
    split <;> rfl
  have hquote (c : Cursor) : (c.sees '\"' || c.sees '\'') = isQuote c.lookahead :=
    Bool.or_comm _ _
  rw [resolveRegex, hbegin, hquote]
  simp [Cursor.begin, readRegex, runRegex, freshRegex]

/-- Whitespace in front of a regex is ignored, and a quote behind it is left to others. -/
theorem resolveRegex_between (spacious : .regex ∈ accepted ∨ .regexNoSpace ∈ accepted)
    (slashless : .regexNoSlash ∉ accepted) {space text : List Char}
    (blank : ∀ c ∈ space, isSpace c = true) (begins : ∀ c ∈ text.head?, isSpace c = false)
    (before : List Char) :
    resolveRegex accepted (.begin (.between before (space ++ text))) =
      if isQuote (Place.between (before ++ space) text).lookahead then
        .pass (.begin (.between (before ++ space) text))
      else .ofClaim (runRegex (regexStyle accepted) (regexKind accepted)
        (freshRegex (.between (before ++ space) text) (.between (before ++ space) text))) := by
  have hplace : regexPlace accepted (.between before (space ++ text)) =
      .between (before ++ space) text := by
    rw [regexPlace, if_pos spacious, Place.skipWhile_between blank begins]
  rw [resolveRegex_begin, hplace]
  simp only [slashless, false_and, if_false]

end ContextLexer.Shell
