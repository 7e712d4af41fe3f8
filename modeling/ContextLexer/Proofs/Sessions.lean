/-
# What a host sees that takes a part itself

A host does not ask for everything. Between calls it takes characters that its own grammar
reads, and the next call begins behind them. What matters of a call is the kind and text of
its token, if there is one, and where it leaves the host.
-/

import ContextLexer.Proofs.Onward
import ContextLexer.Proofs.Readings

namespace ContextLexer

namespace Scanner

variable {σ κ : Type} [DecidableEq κ] [Vocabulary κ] [Scanner σ κ]

/-- What a host does next. -/
inductive Act (κ : Type) [DecidableEq κ] [Vocabulary κ]
  /-- It makes a call. -/
  | call (accepted : Acceptance κ)
  /-- It takes a number of characters itself. -/
  | take (count : Nat)

/-- The kind and text of the token of a call, if it claimed one, and the place at which it
left the host. -/
abbrev Sight (κ : Type) := Option (κ × List Char) × Place

/-- What a host sees of its calls when it does one thing after the other. -/
def session : List (Act κ) → Progress σ → List (Sight κ) × Progress σ
  | [], now => ([], now)
  | .call accepted :: acts, now =>
    let call := Scanner.call now.state accepted now.place
    let later := session acts ⟨call.state, call.place⟩
    ((call.token.map fun token => (token.kind, token.text), call.place) :: later.1, later.2)
  | .take count :: acts, now => session acts ⟨now.state, now.place.skip count⟩

/-- Doing some things from one progress to another shows what is listed. -/
def Sees (acts : List (Act κ)) (now : Progress σ) (seen : List (Sight κ))
    (later : Progress σ) : Prop :=
  session acts now = (seen, later)

theorem session_append (acts others : List (Act κ)) (now : Progress σ) :
    session (acts ++ others) now =
      ((session acts now).1 ++ (session others (session acts now).2).1,
        (session others (session acts now).2).2) := by
  induction acts generalizing now with
  | nil => rfl
  | cons act acts ih => cases act <;> simp only [List.cons_append, session, ih]

namespace Sees

variable {acts others : List (Act κ)} {now middle later : Progress σ}
  {seen further : List (Sight κ)}

theorem nothing (now : Progress σ) : Sees [] now [] now := rfl

theorem append (first : Sees acts now seen middle)
    (second : Sees others middle further later) :
    Sees (acts ++ others) now (seen ++ further) later := by
  rw [Sees] at first second ⊢
  rw [session_append, first, second]

/-- The host takes a text that comes next. -/
theorem take (state : σ) (before text after : List Char) :
    Sees [.take text.length] ⟨state, .between before (text ++ after)⟩ []
      ⟨state, .between (before ++ text) after⟩ := by
  rw [Sees, session, Place.skip_between]
  rfl

/-- A call that reads a text leaves the host behind it. -/
theorem of_yields {accepted : Acceptance κ} {kind : κ} {text : List Char}
    (h : Yields [accepted] now [(kind, text)] later) :
    Sees [.call accepted] now [(some (kind, text), later.place)] later := by
  simp only [Yields, readings, List.map_cons, List.map_nil, Prod.mk.injEq, List.cons.injEq,
    and_true] at h
  obtain ⟨htoken, hlater⟩ := h
  simp only [Sees, session, htoken, ← hlater]

/-- A call that claims a token shows the text between the places that delimit it. -/
theorem claim {accepted : Acceptance κ} {state after : σ} {p q : Place} {kind : κ} {c : Cursor}
    {text : List Char} (h : Scanner.scan state accepted (.begin p) = ⟨after, some (kind, c)⟩)
    (hstop : c.stop = q) (leads : c.start.Leads text q) :
    Sees [.call accepted] ⟨state, p⟩ [(some (kind, text), q)] ⟨after, q⟩ := by
  obtain ⟨before, rest, hstart, rfl⟩ := leads
  exact .of_yields (.claim h hstart hstop)

/-- A token is empty if its start has come to lie behind its end. -/
theorem claim_empty {accepted : Acceptance κ} {state after : σ} {p q : Place} {kind : κ}
    {c : Cursor} (h : Scanner.scan state accepted (.begin p) = ⟨after, some (kind, c)⟩)
    (hstop : c.stop = q) (behind : q.Onward c.start) :
    Sees [.call accepted] ⟨state, p⟩ [(some (kind, []), q)] ⟨after, q⟩ := by
  subst hstop
  have hstart : c.tokenStart = c.stop := Cursor.tokenStart_of_stop_onward behind
  have hempty : c.stop.since c.stop = [] := (Place.Leads.nothing c.stop).since_eq
  simp [Sees, session, Scanner.call, h, settle, Cursor.token, Token.text, hstart, hempty]

/-- A call that declines leaves the host where it was. -/
theorem decline {accepted : Acceptance κ} {state after : σ} {p : Place}
    (h : Scanner.scan state accepted (.begin p) = ⟨after, none⟩) :
    Sees [.call accepted] ⟨state, p⟩ [(none, p)] ⟨after, p⟩ := by
  simp [Sees, session, Scanner.call, h, settle]

/-- A call that shows a token has claimed one of its kind. -/
theorem exists_claim {accepted : Acceptance κ} {state after : σ} {p q r : Place} {kind : κ}
    {text : List Char}
    (sees : Sees [.call accepted] ⟨state, p⟩ [(some (kind, text), q)] ⟨after, r⟩) :
    ∃ c, Scanner.scan state accepted (.begin p) = ⟨after, some (kind, c)⟩ := by
  simp only [Sees, session, Scanner.call, Prod.mk.injEq, List.cons.injEq, and_true,
    Progress.mk.injEq] at sees
  obtain ⟨⟨htoken, -⟩, hstate, -⟩ := sees
  generalize Scanner.scan state accepted (.begin p) = verdict at htoken hstate
  obtain ⟨left, claim⟩ := verdict
  subst hstate
  cases claim with
  | none => cases htoken
  | some found =>
      obtain ⟨found, c⟩ := found
      obtain ⟨rfl, -⟩ : found = kind ∧ (c.token found).text = text := by
        simpa [settle, Cursor.token] using htoken
      exact ⟨c, rfl⟩

/-- The token that a call returns is the one that is shown. -/
theorem token_eq {accepted : Acceptance κ} {state : σ} {p q : Place} {kind : κ} {text : List Char}
    {token : Token κ} (sees : Sees [.call accepted] ⟨state, p⟩ [(some (kind, text), q)] later)
    (h : (Scanner.call state accepted p).token = some token) :
    token.kind = kind ∧ token.text = text ∧ token.stop = q := by
  have hplace := place_call state accepted p
  simp only [Sees, session, h, Option.map_some, Option.getD_some, Prod.mk.injEq, List.cons.injEq,
    Option.some.injEq, and_true] at sees hplace
  obtain ⟨⟨⟨hkind, htext⟩, hq⟩, -⟩ := sees
  exact ⟨hkind, htext, hplace.symm.trans hq⟩

end Sees

end Scanner

end ContextLexer
