/-
# Patterns and their groups

A pattern is a sequence of units: single characters, and characters behind a backslash. Only
the single ones open and close groups. A text nests if, for each of the three sorts, no
beginning of it holds more closers than there are openers in it and groups that were open in
front. Just the texts that nest can be counted, character by character, and what a text
leaves open is the difference of its openers and closers.
-/

import ContextLexer.Proofs.Unicode.WhiteSpace
import ContextLexer.Shell.Groups

namespace ContextLexer.Shell

/-! ## Units -/

/-- A unit of a pattern. -/
inductive PatternUnit
  /-- A character on its own. -/
  | single (c : Char)
  /-- A character with a backslash in front of it. -/
  | escaped (c : Char)
  deriving DecidableEq, Repr

/-- A unit as it is written. -/
def PatternUnit.text : PatternUnit → List Char
  | single c => [c]
  | escaped c => ['\\', c]

/-- The character of a unit that has no backslash. -/
def PatternUnit.single? : PatternUnit → Option Char
  | single c => some c
  | escaped _ => none

/-- A pattern as it is written. -/
def patternText (units : List PatternUnit) : List Char := units.flatMap PatternUnit.text

/-- The single characters of a pattern. -/
def singles (units : List PatternUnit) : List Char := units.filterMap PatternUnit.single?

section

variable (unit : PatternUnit) (c : Char) (units others : List PatternUnit)

@[simp] theorem patternText_nil : patternText [] = [] := rfl

theorem patternText_cons : patternText (unit :: units) = unit.text ++ patternText units := rfl

@[simp] theorem patternText_single :
    patternText (.single c :: units) = c :: patternText units := rfl

@[simp] theorem patternText_escaped :
    patternText (.escaped c :: units) = '\\' :: c :: patternText units := rfl

@[simp] theorem patternText_append :
    patternText (units ++ others) = patternText units ++ patternText others :=
  List.flatMap_append

@[simp] theorem singles_nil : singles [] = [] := rfl

@[simp] theorem singles_single : singles (.single c :: units) = c :: singles units := rfl

@[simp] theorem singles_escaped : singles (.escaped c :: units) = singles units := rfl

@[simp] theorem singles_append : singles (units ++ others) = singles units ++ singles others :=
  List.filterMap_append

end

/-! ## Groups of one sort -/

/-- No beginning of a text holds more closers than there are openers in it and groups that are
open in front of the text. -/
def Nested (opener closer : Char) (depth : Nat) (text : List Char) : Prop :=
  ∀ front, front <+: text → front.count closer ≤ depth + front.count opener

namespace Nested

variable {opener closer x : Char} {depth : Nat} {text : List Char}

/-- Behind its first character a text is counted from the depth there. -/
theorem cons_iff :
    Nested opener closer depth (x :: text) ↔ ∀ front, front <+: text →
      (x :: front).count closer ≤ depth + (x :: front).count opener := by
  constructor
  · intro h front hfront
    exact h (x :: front) ((List.prefix_cons_inj x).mpr hfront)
  · intro h front hfront
    rcases List.prefix_cons_iff.mp hfront with rfl | ⟨rest, rfl, hrest⟩
    · simp
    · exact h rest hrest

theorem nil : Nested opener closer depth [] := by
  intro front hfront
  simp [List.prefix_nil.mp hfront]

/-- A beginning of a text nests if the text does. -/
theorem beginning {front : List Char} (h : Nested opener closer depth text)
    (hfront : front <+: text) : Nested opener closer depth front :=
  fun first hfirst => h first (hfirst.trans hfront)

/-- A nested text has no more closers than there are openers in it and open groups. -/
theorem count_le (h : Nested opener closer depth text) :
    text.count closer ≤ depth + text.count opener := h text List.prefix_rfl

theorem concat_iff :
    Nested opener closer depth (text ++ [x]) ↔
      Nested opener closer depth text ∧
        (text ++ [x]).count closer ≤ depth + (text ++ [x]).count opener := by
  constructor
  · intro h
    exact ⟨h.beginning (List.prefix_append _ _), h.count_le⟩
  · rintro ⟨htext, hlast⟩ front hfront
    rcases List.prefix_concat_iff.mp hfront with rfl | hfront
    · exact hlast
    · exact htext front hfront

theorem opener_cons_iff (distinct : opener ≠ closer) :
    Nested opener closer depth (opener :: text) ↔ Nested opener closer (depth + 1) text := by
  rw [cons_iff]
  refine forall_congr' fun front => imp_congr_right fun _ => ?_
  rw [List.count_cons_of_ne distinct, List.count_cons_self]
  omega

theorem closer_cons_iff (distinct : opener ≠ closer) :
    Nested opener closer depth (closer :: text) ↔
      ∃ less, depth = less + 1 ∧ Nested opener closer less text := by
  rw [cons_iff]
  constructor
  · intro h
    have hfirst := h [] List.nil_prefix
    rw [List.count_cons_of_ne distinct.symm, List.count_cons_self] at hfirst
    obtain ⟨less, rfl⟩ : ∃ less, depth = less + 1 := ⟨depth - 1, by simp at hfirst; omega⟩
    refine ⟨less, rfl, fun front hfront => ?_⟩
    have hfront := h front hfront
    rw [List.count_cons_of_ne distinct.symm, List.count_cons_self] at hfront
    omega
  · rintro ⟨less, rfl, h⟩ front hfront
    have hfront := h front hfront
    rw [List.count_cons_of_ne distinct.symm, List.count_cons_self]
    omega

theorem other_cons_iff (hopener : x ≠ opener) (hcloser : x ≠ closer) :
    Nested opener closer depth (x :: text) ↔ Nested opener closer depth text := by
  rw [cons_iff]
  refine forall_congr' fun front => imp_congr_right fun _ => ?_
  rw [List.count_cons_of_ne hopener, List.count_cons_of_ne hcloser]

end Nested

/-! ## Groups of all sorts -/

namespace Groups

/-- A text that closes only groups that were opened, in it or in front of it. -/
def Nests (groups : Groups) (text : List Char) : Prop :=
  Nested '(' ')' groups.parens text ∧ Nested '[' ']' groups.brackets text ∧
    Nested '{' '}' groups.braces text

theorem nests_nil (groups : Groups) : groups.Nests [] := ⟨.nil, .nil, .nil⟩

theorem Nests.beginning {groups : Groups} {text front : List Char} (h : groups.Nests text)
    (hfront : front <+: text) : groups.Nests front :=
  ⟨h.1.beginning hfront, h.2.1.beginning hfront, h.2.2.beginning hfront⟩

/-- A text nests just in case its first character can be counted, and the rest nests behind
that. -/
theorem nests_cons_iff {groups : Groups} {c : Char} {text : List Char} :
    groups.Nests (c :: text) ↔ ∃ later, groups.count c = some later ∧ later.Nests text := by
  obtain ⟨parens, brackets, braces⟩ := groups
  unfold Groups.count
  split
  · next hc => simp [Nests, hc, Nested.opener_cons_iff, Nested.other_cons_iff]
  split
  · next hc => simp [Nests, hc, Nested.opener_cons_iff, Nested.other_cons_iff]
  split
  · next hc => simp [Nests, hc, Nested.opener_cons_iff, Nested.other_cons_iff]
  split
  · next hc =>
    cases parens <;> simp [Nests, hc, close, Nested.closer_cons_iff, Nested.other_cons_iff]
  split
  · next hc =>
    cases brackets <;> simp [Nests, hc, close, Nested.closer_cons_iff, Nested.other_cons_iff]
  split
  · next hc =>
    cases braces <;> simp [Nests, hc, close, Nested.closer_cons_iff, Nested.other_cons_iff]
  · simp [Nests, Nested.other_cons_iff, *]

/-- The groups that are open behind a text, unless it closes one that was never opened. -/
def countAll (groups : Groups) : List Char → Option Groups
  | [] => some groups
  | c :: text =>
    match groups.count c with
    | none => none
    | some later => countAll later text

/-- Counting goes through just the texts that nest. -/
theorem isSome_countAll_iff {groups : Groups} {text : List Char} :
    (groups.countAll text).isSome = true ↔ groups.Nests text := by
  induction text generalizing groups with
  | nil => simp [nests_nil, countAll]
  | cons c text ih =>
      rw [nests_cons_iff, countAll]
      cases groups.count c with
      | none => simp
      | some later => simp [ih]

instance (groups : Groups) (text : List Char) : Decidable (groups.Nests text) :=
  decidable_of_iff _ isSome_countAll_iff

/-! ## Groups that stay open -/

/-- The groups that a text leaves open: of each sort, its openers less its closers. -/
def leftOpen (text : List Char) : Groups where
  parens := text.count '(' - text.count ')'
  brackets := text.count '[' - text.count ']'
  braces := text.count '{' - text.count '}'

/-- A closer whose own group is not open. -/
def Unopened (groups : Groups) (c : Char) : Prop :=
  c = ')' ∧ groups.parens = 0 ∨ c = ']' ∧ groups.brackets = 0 ∨ c = '}' ∧ groups.braces = 0

instance (groups : Groups) (c : Char) : Decidable (groups.Unopened c) :=
  inferInstanceAs (Decidable (_ ∨ _))

section

variable {groups : Groups} {text : List Char} {c : Char}

@[simp] theorem leftOpen_nil : leftOpen [] = ofParens 0 := rfl

theorem close_eq_none_iff {depth : Nat} : close depth = none ↔ depth = 0 := by
  cases depth <;> simp [close]

theorem close_sub {opened closed : Nat} (h : closed + 1 ≤ opened) :
    close (opened - closed) = some (opened - (closed + 1)) := by
  obtain ⟨more, rfl⟩ := Nat.exists_eq_add_of_le h
  rw [show closed + 1 + more - closed = more + 1 by omega, close]
  congr 1
  omega

/-- Just a closer whose own group is not open cannot be counted. -/
theorem count_eq_none_iff : groups.count c = none ↔ groups.Unopened c := by
  unfold Groups.count Unopened
  split
  · next hc => simp [hc]
  split
  · next hc => simp [hc]
  split
  · next hc => simp [hc]
  split
  · next hc => simp [hc, close_eq_none_iff]
  split
  · next hc => simp [hc, close_eq_none_iff]
  split
  · next hc => simp [hc, close_eq_none_iff]
  · simp [*]

theorem Nests.counts (h : (ofParens 0).Nests text) :
    text.count ')' ≤ text.count '(' ∧ text.count ']' ≤ text.count '[' ∧
      text.count '}' ≤ text.count '{' := by
  have hparens := h.1.count_le
  have hbrackets := h.2.1.count_le
  have hbraces := h.2.2.count_le
  simp only [ofParens] at hparens hbrackets hbraces
  omega

/-- In a text that nests, counting a character leads from what is open in front of it to what
is open behind it. -/
theorem count_leftOpen (h : (ofParens 0).Nests (text ++ [c])) :
    (leftOpen text).count c = some (leftOpen (text ++ [c])) := by
  have hfront := (h.beginning (List.prefix_append text [c])).counts
  have hall := h.counts
  unfold Groups.count
  split
  · next hc => subst hc; simp [leftOpen]; omega
  split
  · next hc => subst hc; simp [leftOpen]; omega
  split
  · next hc => subst hc; simp [leftOpen]; omega
  split
  · next hc =>
    subst hc
    have hlast : text.count ')' + 1 ≤ text.count '(' := by simpa using hall.1
    simp [leftOpen, close_sub hlast]
  split
  · next hc =>
    subst hc
    have hlast : text.count ']' + 1 ≤ text.count '[' := by simpa using hall.2.1
    simp [leftOpen, close_sub hlast]
  split
  · next hc =>
    subst hc
    have hlast : text.count '}' + 1 ≤ text.count '{' := by simpa using hall.2.2
    simp [leftOpen, close_sub hlast]
  · simp [leftOpen, *]

/-- A text goes on nesting with every character but a closer whose own group is not open. -/
theorem nests_concat_iff :
    (ofParens 0).Nests (text ++ [c]) ↔
      (ofParens 0).Nests text ∧ ¬ (leftOpen text).Unopened c := by
  constructor
  · intro h
    refine ⟨h.beginning (List.prefix_append text [c]), fun hclosed => ?_⟩
    rw [← count_eq_none_iff, count_leftOpen h] at hclosed
    cases hclosed
  · rintro ⟨⟨hparens, hbrackets, hbraces⟩, hopen⟩
    have hsort {opener closer : Char} (hnested : Nested opener closer 0 text)
        (hlast : c = closer → text.count opener - text.count closer ≠ 0) :
        Nested opener closer 0 (text ++ [c]) := by
      have hcount := hnested.count_le
      refine Nested.concat_iff.mpr ⟨hnested, ?_⟩
      rw [List.count_append, List.count_append, List.count_singleton]
      by_cases hc : c = closer
      · have := hlast hc
        simp only [hc, beq_self_eq_true, if_true]
        omega
      · simp only [beq_iff_eq, hc, if_false]
        omega
    simp only [Unopened, leftOpen, not_or, not_and] at hopen
    exact ⟨hsort hparens hopen.1, hsort hbrackets hopen.2.1, hsort hbraces hopen.2.2⟩

/-- Whitespace opens and closes nothing. -/
theorem count_of_isSpace (hspace : isSpace c = true) : groups.count c = some groups := by
  have hne {x : Char} (hx : isSpace x = false) : c ≠ x := ne_of_test hx hspace
  simp (disch := decide) only [count, if_neg, hne]

theorem leftOpen_concat_of_isSpace (hspace : isSpace c = true) :
    leftOpen (text ++ [c]) = leftOpen text := by
  have hcount {x : Char} (hx : isSpace x = false) : (text ++ [c]).count x = text.count x := by
    simp [ne_of_test hx hspace]
  simp (disch := decide) only [leftOpen, hcount]

end

end Groups

end ContextLexer.Shell
