/-
# Calls for heredocs

A host that reads a heredoc asks for its body first, then for the texts behind expansions or
the closing delimiter. Such a call comes down to a scan of the body, and which scan that is
depends on whether text of the body has been returned. Where the call asks for the delimiter
as well, it looks for that first, and the scan goes on from where the look has failed.
-/

import ContextLexer.Proofs.Sessions
import ContextLexer.Proofs.Shell.Heredoc.Body
import ContextLexer.Proofs.Shell.Heredoc.Outcome
import ContextLexer.Proofs.Shell.Walk

namespace ContextLexer.Shell

open Scanner (Sees Yields)

/-! ## What a host accepts -/

/-- The host accepts the body of a heredoc, whole or up to an expansion. -/
def bodies : Accepted := .ofList [.heredocBody, .heredocOpening]

/-- The host accepts the text behind an expansion, and the closing delimiter. -/
def contents : Accepted := .ofList [.heredocContent, .heredocEnd]

/-- The host accepts the closing delimiter. -/
def ends : Accepted := .ofList [.heredocEnd]

/-- The kinds of the parts of a body and of the delimiter that closes it. -/
def bodyKinds : List Kind := [.heredocBody, .heredocOpening, .heredocContent, .heredocEnd]

/-- The resolvers for bodies and for the delimiters that close them, in their order. -/
def bodyResolvers : List Resolver := [.heredocBody, .heredocEnd, .heredocContent]

variable {accepted : Accepted} {s later : State} {h after : Heredoc} {kind : Kind}
  {p : Place} {c d e : Cursor}

/-- A call that accepts only these kinds asks only these resolvers. -/
theorem not_asked_of_drawn (drawn : ∀ kind ∈ accepted, kind ∈ bodyKinds) {resolver : Resolver}
    (other : resolver ∉ bodyResolvers) (s : State) : ¬ resolver.asked s accepted := by
  have hnot (kind : Kind) (hkind : kind ∉ bodyKinds) : kind ∉ accepted :=
    fun h => hkind (drawn kind h)
  cases resolver with
  | heredocBody | heredocEnd | heredocContent => exact absurd (by decide) other
  | _ => simp [Resolver.asked, hnot, bodyKinds]

theorem scan_of_drawn (drawn : ∀ kind ∈ accepted, kind ∈ bodyKinds) :
    s.scan accepted c = walk accepted bodyResolvers none s c := by
  have hsilent (resolver : Resolver) (other : resolver ∉ bodyResolvers) (s : State) :
      ¬ resolver.asked s accepted := not_asked_of_drawn drawn other s
  have horder : Resolver.order =
      Resolver.heredocBody.earlier ++ (bodyResolvers ++
        [.heredocStart, .testOperator, .name, .bareDollar, .regex, .extendedGlob,
          .expansionWord, .braceRange]) := rfl
  rw [State.scan, horder, walk_append _ fun other hother => hsilent other ?_ s]
  · refine walk_append_silent bodyResolvers (fun other hother => hsilent other ?_) none
    revert other
    decide
  · revert other
    decide

/-! ## What a call shows -/

section

variable (before text rest : List Char)

/-- A call of the shell scanner that claims a text. -/
theorem yields_of_scan {before text rest : List Char}
    (hscan : s.scan accepted (.begin p) = ⟨later, some (kind, c)⟩)
    (hstart : c.start = .between before (text ++ rest))
    (hstop : c.stop = .between (before ++ text) rest) :
    Yields [accepted] ⟨s, p⟩ [(kind, text)] ⟨later, .between (before ++ text) rest⟩ :=
  Yields.claim hscan hstart hstop

/-- A call that claims a text shows it, and leaves the host behind it. -/
theorem sees_of_scan (hscan : s.scan accepted (.begin p) = ⟨later, some (kind, c)⟩)
    (hstart : c.start = .between before (text ++ rest))
    (hstop : c.stop = .between (before ++ text) rest) :
    Sees [.call accepted] ⟨s, p⟩ [(some (kind, text), .between (before ++ text) rest)]
      ⟨later, .between (before ++ text) rest⟩ :=
  .of_yields (yields_of_scan hscan hstart hstop)

end

/-! ## Bodies -/

/-- A call for a body claims the part that a scan of it returns. -/
theorem scan_part (s : State) (fresh : h.started = false)
    (reads : readBody .leading h c = (after, .part kind e))
    (counts : kind.isEmittable = true ∧ kind ∈ bodies) :
    (s.push h).scan bodies c = ⟨s.push after, some (kind, e)⟩ := by
  apply @State.scan_of_claim _ _ _ _ _ .heredocBody
  case silent => simp [Resolver.earlier, Resolver.order, Resolver.asked, bodies]
  case asked => simp [Resolver.asked, bodies, isRecovering, innermostStarted, State.push, fresh]
  case claims =>
    rw [Resolver.run, State.readBody]
    simp only [State.push, reads]
  case counts => exact counts

/-- A call for a body made of lines claims all of it, and ends in front of the delimiter. -/
theorem LinedBody.scan_body (b : LinedBody) (s : State) (before after : List Char) :
    (s.push b.heredoc).scan bodies
        (.begin (.between before ('\n' :: (b.text ++ (b.heredoc.delimiter ++ after))))) =
      ⟨s.push b.heredoc, some (.heredocBody,
        ⟨.between (before ++ ['\n'] ++ b.text ++ b.heredoc.delimiter) after,
          .between (before ++ ['\n']) (b.text ++ (b.heredoc.delimiter ++ after)),
          some (.between (before ++ ['\n'] ++ b.text) (b.heredoc.delimiter ++ after))⟩)⟩ :=
  scan_part s b.fresh (b.readBody_eq before after) (by decide)

/-- A part that such a call claims was returned by a scan of the body. -/
theorem reads_of_scan (fresh : h.started = false)
    (claims : (s.push h).scan bodies c = ⟨s.push after, some (kind, e)⟩) :
    readBody .leading h c = (after, .part kind e) := by
  have hdrawn : ∀ kind ∈ bodies, kind ∈ bodyKinds := by simp [bodies, bodyKinds]
  have hasked : Resolver.heredocBody.asked (s.push h) bodies := by
    simp [Resolver.asked, bodies, isRecovering, innermostStarted, State.push, fresh]
  rw [scan_of_drawn hdrawn, bodyResolvers, walk, if_neg (by simp),
    if_neg (not_not_intro hasked), Resolver.run, State.readBody] at claims
  simp only [State.push] at claims
  have hends := readBody_ends .leading h c
  generalize readBody .leading h c = result at claims hends
  obtain ⟨left, found⟩ := result
  cases found with
  | nothing => cases claims
  | closing => cases hends with
    | closing trailing => cases trailing
  | part found reached =>
      dsimp only at claims
      split at claims
      · simpa using claims
      · cases claims

/-! ## Texts behind expansions -/

/-- A call for a text goes on from where its look for the delimiter has failed. -/
theorem scan_contents_of_miss (s : State) (misses : meetDelimiter h.delimiter c = (false, d)) :
    (s.push h).scan contents c = walk contents [.heredocContent] none (s.push h) d := by
  have hdrawn : ∀ kind ∈ contents, kind ∈ bodyKinds := by simp [contents, bodyKinds]
  have hbody : ¬ Resolver.heredocBody.asked (s.push h) contents := by
    simp [Resolver.asked, contents]
  have hend : Resolver.heredocEnd.asked (s.push h) contents := by
    simp [Resolver.asked, contents, State.push]
  rw [scan_of_drawn hdrawn, bodyResolvers, walk_of_not_asked _ hbody]
  apply walk_of_pass _ hend
  rw [Resolver.run, State.closeHeredoc]
  simp only [State.push, misses]

theorem asked_content (s : State) (started : h.started = true) :
    Resolver.heredocContent.asked (s.push h) contents := by
  simp [Resolver.asked, contents, isRecovering, innermostStarted, State.push, started]

theorem scan_content (s : State) (started : h.started = true)
    (misses : meetDelimiter h.delimiter c = (false, d))
    (reads : readBody .trailing h d = (after, .part .heredocContent e)) :
    (s.push h).scan contents c = ⟨s.push after, some (.heredocContent, e)⟩ := by
  rw [scan_contents_of_miss s misses]
  refine walk_of_claim [] (asked_content s started) ?_ (by simp [contents, Kind.isEmittable])
  rw [Resolver.run, State.readBody]
  simp only [State.push, reads]

theorem scan_declines (s : State) (started : h.started = true)
    (misses : meetDelimiter h.delimiter c = (false, d))
    (reads : readBody .trailing h d = (after, .nothing)) :
    (s.push h).scan contents c = ⟨s.push after, none⟩ := by
  rw [scan_contents_of_miss s misses, walk, if_neg (by simp),
    if_neg (not_not_intro (asked_content s started)), Resolver.run, State.readBody]
  simp only [State.push, reads]

/-! ## Delimiters -/

/-- A call that asks for no body claims the delimiter where that comes next, and closes the
heredoc. -/
theorem scan_delimiter (s : State) (closes : CanClose h.delimiter)
    (silent : ∀ kind ∈ accepted, kind = .heredocContent ∨ kind = .heredocEnd)
    (counts : .heredocEnd ∈ accepted) (before after : List Char) :
    (s.push h).scan accepted (.begin (.between before (h.delimiter ++ after))) =
      ⟨s, some (.heredocEnd, ⟨.between (before ++ h.delimiter) after,
        .between before (h.delimiter ++ after), none⟩)⟩ := by
  have hnot (kind : Kind) (hkind : kind ≠ .heredocContent ∧ kind ≠ .heredocEnd) :
      kind ∉ accepted := fun haccepted => (silent kind haccepted).elim hkind.1 hkind.2
  apply @State.scan_of_claim _ _ _ _ _ .heredocEnd
  case silent => simp [Resolver.earlier, Resolver.order, Resolver.asked, hnot]
  case asked => simp [Resolver.asked, counts, State.push]
  case claims =>
    rw [Resolver.run, State.closeHeredoc]
    simp only [State.push]
    rw [Cursor.begin, meetDelimiter_of_next closes.solid]
  case counts => exact ⟨rfl, counts⟩

end ContextLexer.Shell
