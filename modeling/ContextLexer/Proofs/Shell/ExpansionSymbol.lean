/-
# Symbols in front of the end of an expansion

A symbol may be followed by more symbols and by whitespace up to the closing brace. The token
ends behind the first symbol, and what comes after it only decides the call. The symbols behind
it are consumed and leave the token alone. But the whitespace is ignored, and so the token starts
behind it: its start is pulled back to its end then, and the token is empty.
-/

import ContextLexer.Proofs.Sessions
import ContextLexer.Proofs.Shell.Walk
import ContextLexer.Proofs.Unicode.WhiteSpace

namespace ContextLexer.Shell

open Scanner (Sees)

/-- The host accepts the symbols, and nothing else. -/
def expansionSymbols : Accepted := .ofList [.symbolHash, .symbolBang, .symbolEqual]

/-- The symbols with their kinds. -/
inductive ExpansionSymbol : Char → Kind → Prop
  | hash : ExpansionSymbol '#' .symbolHash
  | bang : ExpansionSymbol '!' .symbolBang
  | equal : ExpansionSymbol '=' .symbolEqual

variable {x : Char} {kind : Kind} {symbols space rest : List Char}

theorem ExpansionSymbol.kind_eq (h : ExpansionSymbol x kind) : symbolKind? x = some kind := by
  cases h <;> rfl

theorem ExpansionSymbol.mem (h : ExpansionSymbol x kind) : kind ∈ expansionSymbols := by
  cases h <;> decide

theorem ExpansionSymbol.isEmittable (h : ExpansionSymbol x kind) : kind.isEmittable = true := by
  cases h <;> rfl

/-- The characters that count as symbols. -/
theorem isSome_symbolKind? (x : Char) :
    (symbolKind? x).isSome = decide (x ∈ ['#', '!', '=']) := by
  rw [symbolKind?]
  split
  · simp [*]
  split
  · simp [*]
  split <;> simp [*]

/-! ## The resolver -/

/-- A symbol is claimed if a closing brace comes behind the symbols and the whitespace, each of
which goes on as long as possible. -/
theorem resolveSymbol_between (symbol : ExpansionSymbol x kind)
    (alike : ∀ c ∈ symbols, c ∈ ['#', '!', '=']) (blank : ∀ c ∈ space, isSpace c = true)
    (unlike : ∀ c ∈ (space ++ rest).head?, c ∉ ['#', '!', '='])
    (solid : ∀ c ∈ rest.head?, isSpace c = false) (before : List Char) :
    let p := Place.between before (x :: (symbols ++ (space ++ rest)))
    let last := Place.between (before ++ [x] ++ symbols ++ space) rest
    resolveSymbol (.begin p) =
      .claimIf (decide (rest.head? = some '}')) kind
        ⟨last, if space = [] then p else last, some p.next⟩ := by
  intro p last
  have hbrace : decide (last.lookahead = '}') = decide (rest.head? = some '}') :=
    decide_eq_decide.mpr (Place.lookahead_eq_iff (by decide))
  have hsymbols : ∀ c ∈ symbols, (symbolKind? c).isSome = true := by
    simpa [isSome_symbolKind?] using alike
  have hstops : ∀ c ∈ (space ++ rest).head?, (symbolKind? c).isSome = false := by
    simpa [isSome_symbolKind?] using unlike
  rw [← hbrace, resolveSymbol]
  simp only [p, last, Cursor.begin, Cursor.lookahead_mk, Place.lookahead_between_cons,
    symbol.kind_eq, Cursor.consume_mk, Place.next_between_cons, Cursor.markEnd_mk,
    Cursor.consumeWhile_between hsymbols hstops, Cursor.ignoreWhile_between blank solid,
    Cursor.sees_mk]

/-! ## The call -/

/-- A call for symbols keeps the state, and comes to what the resolver makes of the input. -/
theorem scan_expansionSymbols (s : State) (c : Cursor) :
    s.scan expansionSymbols c = ⟨s, (resolveSymbol c).counted expansionSymbols⟩ := by
  have hasked : Resolver.expansionSymbol.asked s expansionSymbols := by
    simp [Resolver.asked, isRecovering, expansionSymbols]
  refine State.scan_of_only hasked fun kind hkind other hother => ?_
  have hmem : kind ∈ [Kind.symbolHash, .symbolBang, .symbolEqual] := Acceptance.mem_ofList.mp hkind
  simp only [List.mem_cons, List.not_mem_nil, or_false] at hmem
  rcases hmem with rfl | rfl | rfl <;> cases other <;> simp [Resolver.gate] at hother ⊢

/-- Neither whitespace nor a closing brace goes on with the symbols. -/
theorem unlike_of_brace (blank : ∀ c ∈ space, isSpace c = true) (rest : List Char) :
    ∀ c ∈ (space ++ '}' :: rest).head?, c ∉ ['#', '!', '='] := by
  cases space with
  | nil =>
      rintro _ ⟨⟩
      decide
  | cons c space =>
      rintro _ ⟨⟩
      have hc : isSpace c = true := blank c (by simp)
      have hne {y : Char} (hy : isSpace y = false) : c ≠ y := ne_of_test hy hc
      simp (disch := decide) [hne]

/-- Where the closing brace comes, the symbol is claimed. -/
theorem scan_symbol (symbol : ExpansionSymbol x kind)
    (alike : ∀ c ∈ symbols, c ∈ ['#', '!', '=']) (blank : ∀ c ∈ space, isSpace c = true)
    (s : State) (before rest : List Char) :
    let p := Place.between before (x :: (symbols ++ (space ++ '}' :: rest)))
    let last := Place.between (before ++ [x] ++ symbols ++ space) ('}' :: rest)
    s.scan expansionSymbols (.begin p) =
      ⟨s, some (kind, ⟨last, if space = [] then p else last, some p.next⟩)⟩ := by
  intro p last
  have hsolid : ∀ c ∈ ('}' :: rest).head?, isSpace c = false := by
    rintro _ ⟨⟩
    decide
  rw [scan_expansionSymbols,
    resolveSymbol_between symbol alike blank (unlike_of_brace blank rest) hsolid before]
  simp [Ruling.claimIf, Ruling.counted, symbol.mem, symbol.isEmittable, p, last]

/-- A symbol in front of a closing brace is returned by its kind, and the host is left directly
behind it. But its text is returned only if no whitespace stands in front of the brace, and
otherwise the token is empty. Where no brace comes, the call declines. The state is kept. -/
theorem symbol_extent (symbol : ExpansionSymbol x kind)
    (alike : ∀ c ∈ symbols, c ∈ ['#', '!', '=']) (blank : ∀ c ∈ space, isSpace c = true)
    (s : State) (before rest : List Char) :
    let closed := Place.between before (x :: (symbols ++ (space ++ '}' :: rest)))
    let unclosed := Place.between before (x :: (symbols ++ (space ++ rest)))
    (space = [] →
      Sees [.call expansionSymbols] ⟨s, closed⟩ [(some (kind, [x]), closed.next)]
        ⟨s, closed.next⟩) ∧
    (space ≠ [] →
      Sees [.call expansionSymbols] ⟨s, closed⟩ [(some (kind, []), closed.next)]
        ⟨s, closed.next⟩) ∧
    ((∀ c ∈ (space ++ rest).head?, c ∉ ['#', '!', '=']) → (∀ c ∈ rest.head?, isSpace c = false) →
      rest.head? ≠ some '}' →
      Sees [.call expansionSymbols] ⟨s, unclosed⟩ [(none, unclosed)] ⟨s, unclosed⟩) := by
  intro closed unclosed
  have hscan := scan_symbol symbol alike blank s before rest
  dsimp only at hscan
  refine ⟨fun hspace => ?_, fun hspace => ?_, fun unlike solid hbrace => ?_⟩
  · rw [if_pos hspace] at hscan
    exact .claim hscan rfl (.next rfl)
  · rw [if_neg hspace] at hscan
    exact .claim_empty hscan rfl ⟨symbols ++ space, before ++ [x], '}' :: rest, by simp [closed],
      by simp⟩
  · refine .decline ((scan_expansionSymbols s (.begin unclosed)).trans ?_)
    rw [resolveSymbol_between symbol alike blank unlike solid before, Ruling.claimIf, if_neg]
    · rfl
    · simpa using hbrace

/-- An exclamation mark, with another symbol and whitespace in front of the brace. -/
theorem symbol_extent_bang :
    ExpansionSymbol '!' .symbolBang ∧ (∀ c ∈ ['#'], c ∈ ['#', '!', '=']) ∧
    (∀ c ∈ [' ', '\n'], isSpace c = true) ∧ [' ', '\n'] ≠ [] ∧
    Sees [.call expansionSymbols]
      ⟨State.initial, .between ['$', '{', 'x'] ('!' :: (['#'] ++ ([' ', '\n'] ++ ['}'])))⟩
      [(some (.symbolBang, []), .between ['$', '{', 'x', '!'] ['#', ' ', '\n', '}'])]
      ⟨State.initial, .between ['$', '{', 'x', '!'] ['#', ' ', '\n', '}']⟩ := by
  have halike : ∀ c ∈ ['#'], c ∈ ['#', '!', '='] := by simp
  have hblank : ∀ c ∈ [' ', '\n'], isSpace c = true := List.all_eq_true.mp rfl
  have hspace : [' ', '\n'] ≠ [] := by decide
  have hextent := symbol_extent .bang halike hblank State.initial ['$', '{', 'x'] []
  exact ⟨.bang, halike, hblank, hspace, hextent.2.1 hspace⟩

/-- Whitespace in front of the brace makes the token of a hash sign empty. -/
theorem space_empties_symbol :
    Sees [.call expansionSymbols] ⟨State.initial, .between [] ['#', ' ', '}']⟩
      [(some (.symbolHash, []), .between ['#'] [' ', '}'])]
      ⟨State.initial, .between ['#'] [' ', '}']⟩ :=
  rfl

end ContextLexer.Shell
