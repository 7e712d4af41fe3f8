/-
# How a drive divides the text

Every character that a host passes belongs to a token, is taken by the host itself, or is
part of the gap between the beginning of a call and its token. Here these stretches of the
text are listed as the rounds of a drive show them, and each of them begins where the one
before it has ended. Nothing is left out, however the calls rewind, mark an end early or
claim tokens without a character, and nothing belongs to two stretches.

All that this needs to know of a scanner is where its tokens lie: they are found onward from
the call, with filler in front of them and nothing else.
-/

import ContextLexer.Offside.Scanner
import ContextLexer.Proofs.Delimited.Change
import ContextLexer.Proofs.Drives

namespace ContextLexer

/-! ## Stretches of a text -/

/-- What a stretch of the text is to the host. -/
inductive Role (κ : Type)
  /-- It lies between the beginning of a call and the token of the call. -/
  | gap
  /-- It is a token. -/
  | token (kind : κ)
  /-- The host has taken it itself. -/
  | taken
  deriving DecidableEq, Repr

/-- A stretch of the text between two places. -/
structure Stretch (κ : Type) where
  /-- What it is to the host. -/
  role : Role κ
  /-- Where it starts. -/
  start : Place
  /-- The characters between its ends. -/
  text : List Char
  /-- Where it ends. -/
  stop : Place
  deriving DecidableEq, Repr

/-- The offsets at which a stretch starts and ends. -/
def Stretch.bounds {κ : Type} (stretch : Stretch κ) : List Nat :=
  [stretch.start.offset, stretch.stop.offset]

/-- Stretches lie one behind the other between two places, each with the text between its
own ends. -/
inductive Tiles {κ : Type} : Place → List (Stretch κ) → Place → Prop
  /-- No stretch lies between a place and itself. -/
  | nothing (p : Place) : Tiles p [] p
  /-- A stretch comes first, and the others begin where it ends. -/
  | stretch {role : Role κ} {p q r : Place} {text : List Char} {stretches : List (Stretch κ)}
      (leads : p.Leads text q) (later : Tiles q stretches r) :
      Tiles p (⟨role, p, text, q⟩ :: stretches) r

namespace Tiles

variable {κ : Type} {p q r : Place} {stretches others : List (Stretch κ)}

theorem single {text : List Char} (role : Role κ) (leads : p.Leads text q) :
    Tiles p [⟨role, p, text, q⟩] q :=
  .stretch leads (.nothing q)

theorem append (first : Tiles p stretches q) (second : Tiles q others r) :
    Tiles p (stretches ++ others) r := by
  induction first with
  | nothing => exact second
  | stretch leads _ ih => exact .stretch leads (ih second)

/-- The texts of the stretches make up the text between the two places. -/
theorem leads (tiles : Tiles p stretches q) : p.Leads (stretches.flatMap Stretch.text) q := by
  induction tiles with
  | nothing p => exact .nothing p
  | stretch leads _ ih => exact leads.trans ih

/-- The offsets at which stretches start and end do not decrease. -/
theorem sorted (tiles : Tiles p stretches q) :
    (p.offset :: stretches.flatMap Stretch.bounds).Pairwise (· ≤ ·) := by
  induction tiles with
  | nothing p => exact List.pairwise_singleton _ _
  | @stretch role p q r text stretches leads later ih =>
      have hle : p.offset ≤ q.offset := Place.Onward.offset_le ⟨text, leads⟩
      have hrest : ∀ offset ∈ stretches.flatMap Stretch.bounds, q.offset ≤ offset :=
        (List.pairwise_cons.mp ih).1
      simp only [List.flatMap_cons, Stretch.bounds, List.cons_append, List.nil_append,
        List.pairwise_cons, List.mem_cons, forall_eq_or_imp]
      exact ⟨⟨Nat.le_refl _, hle, fun offset h => Nat.le_trans hle (hrest offset h)⟩,
        ⟨hle, fun offset h => Nat.le_trans hle (hrest offset h)⟩, List.pairwise_cons.mp ih⟩

end Tiles

/-- What a call from a place adds to the division of the text. -/
def claimed {κ : Type} (origin : Place) : Option (Token κ) → List (Stretch κ)
  | none => []
  | some token =>
    [⟨.gap, origin, origin.since token.start, token.start⟩,
      ⟨.token token.kind, token.start, token.text, token.stop⟩]

/-- What a round adds to the division of the text: the gap and the token of its call, and
then the text that the host has taken from where the call has left it. -/
def Round.stretches {σ κ : Type} (round : Round σ κ) : List (Stretch κ) :=
  let behind := (round.token.map Token.stop).getD round.origin
  claimed round.origin round.token ++
    round.taken.toList.map fun text => ⟨.taken, behind, text, behind.skip text.length⟩

/-- The rounds up to a place divide the text in front of it. -/
structure Divides {σ κ : Type} (filler : Char → Bool) (text : List Char)
    (rounds : List (Round σ κ)) (final : Place) : Prop where
  /-- The stretches lie one behind the other, from the beginning of the text to the place. -/
  tiles : Tiles (.first text) (rounds.flatMap Round.stretches) final
  /-- Their texts make up the text up to the place. -/
  text_eq : (rounds.flatMap Round.stretches).flatMap Stretch.text ++ final.ahead = text
  /-- No stretch ends before it starts, or behind the start of a later one. -/
  sorted : ((rounds.flatMap Round.stretches).flatMap Stretch.bounds).Pairwise (· ≤ ·)
  /-- There is nothing but filler in the gaps. -/
  gaps : ∀ stretch ∈ rounds.flatMap Round.stretches, stretch.role = .gap →
    ∀ x ∈ stretch.text, filler x = true

/-! ## Where tokens lie -/

namespace Scanner

variable {σ κ : Type} [DecidableEq κ] [Vocabulary κ] [Scanner σ κ]

/-- A token lies onward from a place, with only filler in front of it. -/
def FoundBehind (filler : Char → Bool) (origin : Place) (token : Token κ) : Prop :=
  (∃ gap, (∀ x ∈ gap, filler x = true) ∧ origin.Leads gap token.start) ∧
    token.start.Onward token.stop

variable (σ) in
/-- Calls find all their tokens behind filler. -/
def FindsBehind (filler : Char → Bool) : Prop :=
  ∀ (state : σ) (accepted : Acceptance κ) (origin : Place),
    ∀ token ∈ (call state accepted origin).token, FoundBehind filler origin token

variable {filler : Char → Bool}

/-- What a call adds lies between where it begins and where the host goes on. -/
theorem tiles_claimed (finds : FindsBehind σ filler) (state : σ) (accepted : Acceptance κ)
    (origin : Place) :
    Tiles origin (claimed origin (call state accepted origin).token)
      (call state accepted origin).place := by
  rw [place_call]
  cases htoken : (call state accepted origin).token with
  | none => exact .nothing origin
  | some token =>
      obtain ⟨⟨gap, -, hgap⟩, text, htext⟩ := finds state accepted origin token htoken
      have hsince : origin.since token.start = gap := hgap.since_eq
      have hcovers : token.text = text := htext.since_eq
      rw [claimed, hsince, hcovers]
      exact .stretch hgap (.single _ htext)

end Scanner

/-! ## Drives -/

theorem Stride.advance_onward (stride : Stride) (p : Place) : p.Onward (stride.advance p) := by
  cases stride with
  | word => exact .skipWhile _ p
  | character => exact .next p

namespace Host

open Scanner (FindsBehind)

variable {σ κ : Type} [DecidableEq σ] [DecidableEq κ] [Vocabulary κ] [Scanner σ κ]
  {filler : Char → Bool} {stride : Stride} {resumption : Resumption}

/-- A round shows its call, and what the host has taken behind it, if anything. -/
theorem round_cases (stride : Stride) (resumption : Resumption) (accepted : Acceptance κ)
    (now : Progress σ) :
    let call := Scanner.call (resumption.resume now.state) accepted now.place
    let played := round stride resumption accepted now
    played.1.origin = now.place ∧ played.1.token = call.token ∧
      (played.1.taken = none ∧ played.2.1.place = call.place ∨
        played.1.taken = some (call.place.since (stride.advance call.place)) ∧
          played.2.1.place = stride.advance call.place) := by
  intro call played
  simp only [played, round]
  generalize (if call.state = _ then none else some call.state) = changed
  split
  · exact ⟨rfl, rfl, .inr ⟨rfl, rfl⟩⟩
  · exact ⟨rfl, rfl, .inl ⟨rfl, rfl⟩⟩

/-- What a round adds lies between where it begins and where the next one does. -/
theorem tiles_round (finds : FindsBehind σ filler) (accepted : Acceptance κ)
    (now : Progress σ) :
    Tiles now.place (round stride resumption accepted now).1.stretches
      (round stride resumption accepted now).2.1.place := by
  obtain ⟨horigin, htoken, htaken⟩ := round_cases stride resumption accepted now
  have hcall := Scanner.tiles_claimed finds (resumption.resume now.state) accepted now.place
  have hplace := Scanner.place_call (resumption.resume now.state) accepted now.place
  rw [Round.stretches, horigin, htoken, ← hplace]
  rcases htaken with ⟨htaken, hlater⟩ | ⟨htaken, hlater⟩
  · rw [htaken, hlater]
    simpa using hcall
  · -- The host goes on behind the text that it has taken from where the call left it.
    obtain ⟨text, htext⟩ := stride.advance_onward
      (Scanner.call (resumption.resume now.state) accepted now.place).place
    rw [htaken, hlater, htext.since_eq]
    refine hcall.append ?_
    simp only [Option.toList_some, List.map_cons, List.map_nil, htext.skip_eq]
    exact .single .taken htext

/-- There is nothing but filler in the gap of a round. -/
theorem gaps_round (finds : FindsBehind σ filler) (accepted : Acceptance κ)
    (now : Progress σ) :
    ∀ stretch ∈ (round stride resumption accepted now).1.stretches, stretch.role = .gap →
      ∀ x ∈ stretch.text, filler x = true := by
  intro stretch hmem hgap
  obtain ⟨horigin, htoken, -⟩ := round_cases stride resumption accepted now
  rw [Round.stretches, List.mem_append] at hmem
  rcases hmem with hclaimed | htaken
  · rw [horigin, htoken] at hclaimed
    cases hcall : (Scanner.call (resumption.resume now.state) accepted now.place).token with
    | none =>
        rw [hcall, claimed] at hclaimed
        cases hclaimed
    | some token =>
        obtain ⟨⟨gap, hfiller, hleads⟩, -⟩ := finds _ accepted now.place token hcall
        rw [hcall, claimed, List.mem_cons, List.mem_singleton] at hclaimed
        rcases hclaimed with rfl | rfl
        · rwa [← hleads.since_eq] at hfiller
        · cases hgap
  · obtain ⟨text, -, rfl⟩ := List.mem_map.mp htaken
    cases hgap

/-- Whatever is true of the tokens of all calls is true of the tokens of a drive. -/
theorem tokens_drive {fits : Token κ → Prop}
    (fit : ∀ (state : σ) (accepted : Acceptance κ) (origin : Place),
      ∀ token ∈ (Scanner.call state accepted origin).token, fits token)
    (sets : List (Acceptance κ)) (limit : Nat) (start : σ) (text : List Char) :
    ∀ round ∈ (drive stride resumption sets limit start text).1,
      ∀ token ∈ round.token, fits token := by
  refine drive_induction (fun rounds _ => ∀ round ∈ rounds, ∀ token ∈ round.token, fits token)
    (by simp) ?_ limit
  intro played accepted now hplayed round hmem token htoken
  rw [List.mem_append, List.mem_singleton] at hmem
  rcases hmem with hmem | rfl
  · exact hplayed round hmem token htoken
  · obtain ⟨-, hcall, -⟩ := round_cases stride resumption accepted now
    rw [hcall] at htoken
    exact fit _ accepted now.place token htoken

/-- A drive divides the text up to where it stops if all tokens are found behind filler. -/
theorem divides_drive (finds : FindsBehind σ filler) (sets : List (Acceptance κ))
    (limit : Nat) (start : σ) (text : List Char) :
    Divides filler text (drive stride resumption sets limit start text).1
      (drive stride resumption sets limit start text).2.place := by
  have htiles : Tiles (.first text)
      ((drive stride resumption sets limit start text).1.flatMap Round.stretches)
      (drive stride resumption sets limit start text).2.place := by
    refine drive_induction (fun rounds now => Tiles (.first text)
      (rounds.flatMap Round.stretches) now.place) (.nothing _) ?_ limit
    intro played accepted now hplayed
    rw [List.flatMap_append, List.flatMap_singleton]
    exact hplayed.append (tiles_round finds accepted now)
  refine ⟨htiles, htiles.leads.ahead_eq.symm, (List.pairwise_cons.mp htiles.sorted).2, ?_⟩
  refine drive_induction (fun rounds _ => ∀ stretch ∈ rounds.flatMap Round.stretches,
    stretch.role = .gap → ∀ x ∈ stretch.text, filler x = true) (by simp) ?_ limit
  intro played accepted now hplayed stretch hmem
  rw [List.flatMap_append, List.flatMap_singleton, List.mem_append] at hmem
  rcases hmem with hmem | hmem
  · exact hplayed stretch hmem
  · exact gaps_round finds accepted now stretch hmem

end Host

/-! ## The two scanners -/

/-- The tokens of the scanner for delimited literals are found behind whitespace. -/
theorem Delimited.findsBehind : Scanner.FindsBehind State isSpace := by
  intro s accepted origin token htoken
  have hchange := change_call s accepted origin
  rw [htoken] at hchange
  generalize (Scanner.call s accepted origin).state = later at hchange
  cases hchange with
  | quotedOpening _ _ text => exact ⟨BehindSpace.refl origin, _, text⟩
  | quotedClosing _ text _ => exact ⟨BehindSpace.refl origin, _, text⟩
  | stringQuote _ gap text => exact ⟨gap, _, text⟩
  | outside _ _ _ gap onward => exact ⟨gap, onward⟩
  | nul _ gap text => exact ⟨gap, _, text⟩

namespace Offside

variable {s : State} {accepted : Acceptance Kind} {origin : Place} {kind : Kind} {c d : Cursor}

theorem State.claim_handOut (h : (s.handOut accepted c).claim = some (kind, d)) : d = c := by
  rw [handOut] at h
  split at h
  · cases h
  split at h <;> cases h
  rfl

/-- A token is handed out where the call begins, or behind the filler there. -/
theorem State.claim_scan (h : (s.scan accepted (.begin origin)).claim = some (kind, c)) :
    c = .begin origin ∨ c = .begin (origin.skipWhile isFiller) := by
  rw [scan] at h
  split at h
  case isFalse => exact .inl (claim_handOut h)
  case isTrue =>
    rw [claim_handOut h, decideNext, Cursor.ignoreWhile_begin]
    split
    · exact .inl rfl
    dsimp only
    split <;> exact .inr rfl

/-- A token has no text, and only filler separates it from where the call began. -/
theorem exists_token {token : Token Kind}
    (h : token ∈ (Scanner.call s accepted origin).token) :
    ∃ kind gap place, token = ⟨kind, place, place⟩ ∧ (∀ x ∈ gap, isFiller x = true) ∧
      origin.Leads gap place := by
  cases hclaim : (s.scan accepted (.begin origin)).claim with
  | none => simp [Scanner.call, Scanner.scan, hclaim, settle] at h
  | some claim =>
      obtain ⟨kind, c⟩ := claim
      obtain rfl : c.token kind = token := by
        simpa [Scanner.call, Scanner.scan, hclaim, settle] using h
      rcases State.claim_scan hclaim with rfl | rfl
      · exact ⟨kind, [], origin, Cursor.token_begin origin kind, by simp, .nothing origin⟩
      · exact ⟨kind, _, _, Cursor.token_begin _ kind, List.all_eq_true.mp List.all_takeWhile,
          origin.leads_skipWhile isFiller⟩

/-- The tokens of the layout scanner are found behind filler. -/
theorem findsBehind : Scanner.FindsBehind State isFiller := by
  intro s accepted origin token htoken
  obtain ⟨kind, gap, place, rfl, hfiller, hleads⟩ := exists_token htoken
  exact ⟨⟨gap, hfiller, hleads⟩, .refl place⟩

theorem isEmpty_token (s : State) (accepted : Acceptance Kind) (origin : Place) :
    ∀ token ∈ (Scanner.call s accepted origin).token, token.isEmpty = true := by
  intro token htoken
  obtain ⟨kind, gap, place, rfl, -, -⟩ := exists_token htoken
  simp [Token.isEmpty]

end Offside

/-- Nothing of a text is lost or read twice. However a host drives the layout scanner or the
one for delimited literals, its rounds divide the text from the beginning to the place where
it stops into the tokens, the texts that it has taken itself, and gaps in front of tokens.
The gaps hold nothing but whitespace, which for the layout scanner is spaces, tabs, carriage
returns and line feeds, and the tokens of the layout scanner are empty. -/
theorem drives_divide (stride : Stride) (resumption : Resumption) (limit : Nat)
    (text : List Char) :
    (∀ (sets : List (Acceptance Offside.Kind)) (start : Offside.State),
      let (rounds, final) := Host.drive stride resumption sets limit start text
      Divides Offside.isFiller text rounds final.place ∧
        ∀ round ∈ rounds, ∀ token ∈ round.token, token.isEmpty = true) ∧
    (∀ (sets : List (Acceptance Delimited.Kind)) (start : Delimited.State),
      let (rounds, final) := Host.drive stride resumption sets limit start text
      Divides isSpace text rounds final.place) :=
  ⟨fun sets start => ⟨Host.divides_drive Offside.findsBehind sets limit start text,
      Host.tokens_drive Offside.isEmpty_token sets limit start text⟩,
    fun sets start => Host.divides_drive Delimited.findsBehind sets limit start text⟩

/-- An indented word. -/
theorem drives_divide_indented :
    let (rounds, final) :=
      Host.drive .word .straight [.all] 2 Offside.State.initial [' ', 'a']
    (rounds.flatMap Round.stretches).map
        (fun stretch => (stretch.role, stretch.text, stretch.bounds)) =
      [(.gap, [' '], [0, 1]), (.token .indent, [], [1, 1]), (.taken, ['a'], [1, 2])] ∧
    Divides Offside.isFiller [' ', 'a'] rounds final.place ∧
    ∀ round ∈ rounds, ∀ token ∈ round.token, token.isEmpty = true :=
  ⟨by decide, (drives_divide .word .straight 2 [' ', 'a']).1 [.all] Offside.State.initial⟩

/-- A word that the host takes, and a comment behind a space. -/
example :
    ((Host.drive .word .straight [.ofList [.comment]] 4 Delimited.State.initial
        ['a', ' ', '(', '*', '*', ')']).1.flatMap Round.stretches).map
        (fun stretch => (stretch.role, stretch.text, stretch.bounds)) =
      [(.taken, ['a'], [0, 1]), (.gap, [' '], [1, 2]),
        (.token .comment, ['(', '*', '*', ')'], [2, 6])] := by decide

end ContextLexer
