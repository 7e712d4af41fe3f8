/-
# Texts and expansions in turn

The scanner returns the texts of an interpolated heredoc one by one, and the host reads the
expansions between them. Every call ends in front of the next expansion, and the last one in
front of the delimiter, which then closes the heredoc. This takes that no part of the
delimiter that is met in a line holds a dollar sign, since the scan steps over what it has
met.
-/

import ContextLexer.Proofs.Shell.Heredoc.Contents
import ContextLexer.Proofs.Shell.Heredoc.Opening

namespace ContextLexer.Shell

open PlainHeredoc (BeginsLine not_beginsLine)
open Scanner (Act Sees Sight)

namespace Part

/-- What a call reads behind the expansion of a part that others follow, or behind the last
one. The line feed in front of the delimiter belongs to the last text. -/
def shown (part : Part) (later : List Part) : List Char :=
  if later = [] then part.text ++ ['\n'] else part.text

/-- What the host does with a part: it takes the expansion, and calls for the text. -/
def acts (part : Part) : List (Act Kind) := [.take part.expansion.length, .call contents]

end Part

namespace InterpolatedHeredoc

variable {h : InterpolatedHeredoc}

/-! ## All texts -/

/-- What is left of a heredoc in front of some of its parts, with a text behind it. Where no
part is left, the line feed in front of the delimiter has been read. -/
def ahead (h : InterpolatedHeredoc) (after : List Char) : List Part → List Char
  | [] => h.delimiter ++ after
  | parts => partsText parts ++ '\n' :: (h.delimiter ++ after)

/-- What the host sees of the calls for the texts of some parts. -/
def seenOfParts (h : InterpolatedHeredoc) (after : List Char) :
    List Char → List Part → List (Sight Kind)
  | _, [] => []
  | before, part :: later =>
    let behind := before ++ part.expansion ++ part.shown later
    (reading (part.shown later), .between behind (h.ahead after later)) ::
      h.seenOfParts after behind later

/-- Where the calls for the texts of some parts lead. -/
def behindParts : List Char → List Part → List Char
  | before, [] => before
  | before, part :: later => behindParts (before ++ part.expansion ++ part.shown later) later

theorem exists_sequel (h : InterpolatedHeredoc) (after : List Char) (part : Part)
    (later : List Part) :
    ∃ shown, h.Sequel true shown (h.ahead after later) ∧ part.shown later = part.text ++ shown ∧
      shown ++ h.ahead after later = partsText later ++ '\n' :: (h.delimiter ++ after) := by
  cases later with
  | nil => exact ⟨['\n'], .closing rfl after, by simp [Part.shown], by simp [ahead]⟩
  | cons next later =>
      obtain ⟨x, inside, hexpansion, hx⟩ := next.expands.exists_cons
      refine ⟨[], ?_, by simp [Part.shown], by simp [ahead]⟩
      simpa [ahead, hexpansion] using @Sequel.expansion h true x hx _

/-- The calls for the texts of some parts read one text after the other. -/
theorem sees_parts {parts : List Part} (members : ∀ part ∈ parts, part ∈ h.parts)
    (lines : ∀ line ∈ behindFeeds (partsText parts), h.Harmless line) (before after : List Char)
    (s : State) :
    Sees (parts.flatMap Part.acts)
      ⟨s.push (h.context true), .between before (h.ahead after parts)⟩
      (h.seenOfParts after before parts)
      ⟨s.push (h.context true), .between (behindParts before parts) (h.delimiter ++ after)⟩ := by
  induction parts generalizing before with
  | nil => exact .nothing _
  | cons part later ih =>
      obtain ⟨hpart, hlater⟩ := List.forall_mem_cons.mp members
      obtain ⟨shown, sequel, hshown, hmore⟩ := h.exists_sequel after part later
      have readable : h.Readable part.text (shown ++ h.ahead after later) := by
        refine ⟨⟨part.plain, ?_⟩, h.unlike part hpart, h.distinct part hpart⟩
        intro line hline
        rw [hmore, ← List.append_assoc]
        refine (lines _ ?_).feed _
        rw [partsText_cons]
        exact behindFeeds_append part.expansion (partsText later) hline
      have begins : ¬ BeginsLine (before ++ part.expansion) := by
        obtain ⟨inside, x, hexpansion, hx⟩ := part.expands.exists_last
        rw [hexpansion, ← List.append_assoc]
        exact not_beginsLine hx
      have htake := Sees.take (s.push (h.context true)) before part.expansion
        (part.text ++ (shown ++ h.ahead after later))
      have htext := sees_text sequel readable begins s
      have ih := ih hlater (fun line hline => lines line (by
        rw [partsText_cons, ← List.append_assoc]
        exact behindFeeds_suffix _ hline)) (before ++ part.expansion ++ part.shown later)
      have hahead : h.ahead after (part :: later) =
          part.expansion ++ (part.text ++ (shown ++ h.ahead after later)) := by
        rw [hmore]
        simp [ahead]
      rw [hshown] at ih
      rw [List.flatMap_cons, hahead, seenOfParts, behindParts, hshown]
      exact (htake.append htext).append ih

/-! ## From the opener to the end -/

/-- The opener, which is an arrow with the delimiter. -/
def opener (h : InterpolatedHeredoc) : List Char := '<' :: '<' :: h.delimiter

/-- The body, without the line feed in front of the delimiter. -/
def body (h : InterpolatedHeredoc) : List Char := h.leading ++ partsText h.parts

/-- The heredoc as it is written. -/
def text (h : InterpolatedHeredoc) : List Char :=
  h.opener ++ '\n' :: (h.body ++ '\n' :: h.delimiter)

/-- What a host does that expects the heredoc. -/
def acts (h : InterpolatedHeredoc) : List (Act Kind) :=
  [.call arrows, .call words, .call bodies] ++ h.parts.flatMap Part.acts ++ [.call contents]

/-- What it is to see between two other texts: the arrow and the delimiter, the text in front
of the first expansion, the texts behind expansions, and the delimiter again. -/
def seen (h : InterpolatedHeredoc) (before after : List Char) : List (Sight Kind) :=
  let arrow := before ++ ['<', '<']
  let opener := before ++ h.opener
  let leading := opener ++ '\n' :: h.leading
  [(some (.arrow, ['<', '<']),
      .between arrow (h.delimiter ++ '\n' :: (h.leading ++ h.ahead after h.parts))),
    (some (.heredocStart, h.delimiter),
      .between opener ('\n' :: (h.leading ++ h.ahead after h.parts))),
    (some (.heredocOpening, h.leading), .between leading (h.ahead after h.parts))] ++
  h.seenOfParts after leading h.parts ++
  [(some (.heredocEnd, h.delimiter), .between (before ++ h.text) after)]

/-- No line of the body begins like the delimiter up to a dollar sign in it. -/
def KeepsDollars (h : InterpolatedHeredoc) : Prop :=
  ∀ line ∈ behindFeeds ('\n' :: h.body), ∀ met, met <+: h.delimiter → met <+: line → '$' ∉ met

theorem sees_opener (h : InterpolatedHeredoc) (s : State) (before after : List Char) :
    Sees [.call arrows, .call words]
      ⟨s, .between before (h.opener ++ '\n' :: after)⟩
      [(some (.arrow, ['<', '<']), .between (before ++ ['<', '<']) (h.delimiter ++ '\n' :: after)),
        (some (.heredocStart, h.delimiter), .between (before ++ h.opener) ('\n' :: after))]
      ⟨s.push (h.context false), .between (before ++ h.opener) ('\n' :: after)⟩ := by
  have harrow := sees_of_scan _ _ _ (h.bare.scan_arrow s before ('\n' :: after) 0) rfl rfl
  have hword := sees_of_scan _ _ _
    (h.bare.scan_word s (before ++ ['<', '<']) after (by decide : isSpace '\n' = true)) rfl rfl
  rw [List.replicate_zero, List.append_nil] at harrow
  have hboth := harrow.append hword
  have hopener : before ++ ['<', '<'] ++ h.bare.word = before ++ h.opener :=
    List.append_assoc before ['<', '<'] h.delimiter
  rw [hopener] at hboth
  exact hboth

/-- What comes behind a line feed in the body is harmless. -/
theorem harmless_of_mem (keeps : h.KeepsDollars) {line : List Char}
    (hline : line ∈ behindFeeds ('\n' :: h.body)) : h.Harmless line :=
  ⟨h.lines line hline, keeps line hline⟩

theorem sees_leading (h : InterpolatedHeredoc) (keeps : h.KeepsDollars) (s : State)
    (before after : List Char) :
    Sees [.call bodies]
      ⟨s.push (h.context false), .between before ('\n' :: (h.leading ++ h.ahead after h.parts))⟩
      [(some (.heredocOpening, h.leading),
        .between (before ++ '\n' :: h.leading) (h.ahead after h.parts))]
      ⟨s.push (h.context true),
        .between (before ++ '\n' :: h.leading) (h.ahead after h.parts)⟩ := by
  obtain ⟨part, later, hparts⟩ := List.exists_cons_of_ne_nil h.interpolated
  have hahead : h.ahead after h.parts = partsText h.parts ++ '\n' :: (h.delimiter ++ after) := by
    rw [hparts, ahead]
    simp
  have sequel : h.Sequel false [] (h.ahead after h.parts) := by
    obtain ⟨x, inside, hexpansion, hx⟩ := part.expands.exists_cons
    rw [hahead, hparts, partsText_cons, hexpansion]
    exact .expansion hx _
  have hfits : h.Fits ('\n' :: h.leading) ([] ++ h.ahead after h.parts) := by
    refine ⟨List.forall_mem_cons.mpr ⟨by decide, h.plain⟩, fun line hline => ?_⟩
    rw [List.nil_append, hahead, ← List.append_assoc]
    exact (harmless_of_mem keeps (behindFeeds_append [] (partsText h.parts) hline)).feed _
  obtain ⟨c, hstart, hstop, hreads⟩ := readBody_behind_feed sequel .leading hfits before
  have hsees := sees_of_scan (before ++ ['\n']) h.leading (h.ahead after h.parts)
    (scan_part s rfl hreads (by decide)) hstart (by simpa using hstop)
  simpa [BodyPart.middle] using hsees

theorem sees_closing (h : InterpolatedHeredoc) (s : State) (before after : List Char) :
    Sees [.call contents] ⟨s.push (h.context true), .between before (h.delimiter ++ after)⟩
      [(some (.heredocEnd, h.delimiter), .between (before ++ h.delimiter) after)]
      ⟨s, .between (before ++ h.delimiter) after⟩ :=
  sees_of_scan before h.delimiter after (h.scan_closing s before after) rfl rfl

/-- Behind all texts stands the whole body. -/
theorem behindParts_eq {parts : List Part} (nonempty : parts ≠ []) (before : List Char) :
    behindParts before parts = before ++ partsText parts ++ ['\n'] := by
  induction parts generalizing before with
  | nil => exact absurd rfl nonempty
  | cons part later ih =>
      rw [behindParts]
      cases later with
      | nil => simp [behindParts, Part.shown]
      | cons next later =>
          rw [ih (by simp)]
          simp [Part.shown]

/-- A host that expects the heredoc sees it in turn: the arrow, the delimiter, the text in
front of the first expansion, and the text behind each of them. Every call leaves it in front
of the next expansion, or of the delimiter, and a call declines only where expansions stand
next to each other. The delimiter closes the heredoc, and the state is as it was before. -/
theorem texts_in_turn (h : InterpolatedHeredoc) (keeps : h.KeepsDollars) (s : State)
    (before after : List Char) :
    Sees h.acts ⟨s, .between before (h.text ++ after)⟩ (h.seen before after)
      ⟨s, .between (before ++ h.text) after⟩ := by
  have hopener := h.sees_opener s before (h.leading ++ h.ahead after h.parts)
  have hleading := h.sees_leading keeps s (before ++ h.opener) after
  have hparts := sees_parts (fun part hpart => hpart)
    (fun line hline => harmless_of_mem keeps (behindFeeds_suffix ('\n' :: h.leading) hline))
    (before ++ h.opener ++ '\n' :: h.leading) after s
  have hclosing := h.sees_closing s
    (behindParts (before ++ h.opener ++ '\n' :: h.leading) h.parts) after
  have hwhole := ((hopener.append hleading).append hparts).append hclosing
  have hend : behindParts (before ++ h.opener ++ '\n' :: h.leading) h.parts ++ h.delimiter =
      before ++ h.text := by
    rw [behindParts_eq h.interpolated]
    simp [text, body]
  have hsource : h.text ++ after = h.opener ++ '\n' :: (h.leading ++ h.ahead after h.parts) := by
    obtain ⟨part, later, hparts⟩ := List.exists_cons_of_ne_nil h.interpolated
    rw [text, body, hparts, ahead]
    · simp
    · simp
  rw [hend] at hwhole
  rw [hsource]
  exact hwhole

/-- A heredoc with two expansions next to each other and a line between the last one and the
delimiter. -/
instance : Inhabited InterpolatedHeredoc where
  default :=
    { delimiter := ['E']
      leading := ['h', 'i', ' ']
      parts :=
        [{ expansion := ['$', 'x']
           text := []
           expands := .name (List.cons_ne_nil _ _) (List.forall_mem_singleton.mpr rfl)
           plain := by simp [IsText] },
          { expansion := ['$', '{', 'y', '}']
            text := ['\n', 'b']
            expands := .braced ['y']
            plain := by simp [IsText] }]
      nonempty := by simp
      solid := List.forall_mem_singleton.mpr (by decide)
      begins := by simp
      interpolated := by simp
      plain := by simp [IsText]
      lines := by decide
      unlike := by simp
      distinct := by simp [firstLine] }

example : (default : InterpolatedHeredoc).text = "<<E\nhi $x${y}\nb\nE".toList := by decide

/-- Nothing is read between two expansions that stand next to each other. -/
theorem texts_in_turn_adjacent :
    (default : InterpolatedHeredoc).KeepsDollars ∧
    Sees (default : InterpolatedHeredoc).acts
      ⟨State.initial, .between [] ((default : InterpolatedHeredoc).text ++ [])⟩
      ((default : InterpolatedHeredoc).seen [] [])
      ⟨State.initial, .between ([] ++ (default : InterpolatedHeredoc).text) []⟩ := by
  have hkeeps : (default : InterpolatedHeredoc).KeepsDollars := by
    intro line _ met hmet _ hdollar
    exact absurd (hmet.subset hdollar) (by decide)
  exact ⟨hkeeps, texts_in_turn default hkeeps State.initial [] []⟩

/-- A heredoc whose only line begins like the delimiter, up to the name of an expansion. -/
def lookalike : InterpolatedHeredoc where
  delimiter := ['a', '$', 'c']
  leading := ['a']
  parts :=
    [{ expansion := ['$', 'x']
       text := []
       expands := .name (List.cons_ne_nil _ _) (List.forall_mem_singleton.mpr rfl)
       plain := by simp [IsText] }]
  nonempty := by simp
  solid := by
    simp only [List.forall_mem_cons]
    exact ⟨by decide, by decide, by decide, by simp⟩
  begins := by simp
  interpolated := by simp
  plain := by simp [IsText]
  lines := by decide
  unlike := by simp
  distinct := by simp [firstLine]

/-- Its dollar sign is met as a part of the delimiter, and the expansion is passed over. -/
theorem lookalike_passes_expansion :
    (Scanner.session lookalike.acts
        ⟨State.initial, .between [] (lookalike.text ++ [])⟩).1[2]? =
      some (some (.heredocBody, ['a', '$', 'x', '\n']),
        .between ['<', '<', 'a', '$', 'c', '\n', 'a', '$', 'x', '\n'] ['a', '$', 'c']) ∧
    ¬ Sees lookalike.acts ⟨State.initial, .between [] (lookalike.text ++ [])⟩
      (lookalike.seen [] []) ⟨State.initial, .between ([] ++ lookalike.text) []⟩ := by
  have hthird : (Scanner.session lookalike.acts
      ⟨State.initial, .between [] (lookalike.text ++ [])⟩).1[2]? =
        some (some (.heredocBody, ['a', '$', 'x', '\n']),
          .between ['<', '<', 'a', '$', 'c', '\n', 'a', '$', 'x', '\n'] ['a', '$', 'c']) := by
    decide
  refine ⟨hthird, fun hsees => ?_⟩
  rw [Sees] at hsees
  rw [hsees] at hthird
  exact absurd hthird (by decide)

end InterpolatedHeredoc

end ContextLexer.Shell
