/-
# Steps that may fail, one after the other

A host need not give up where a step fails: it may go on from what the step has left behind.
Steps are kept as data here, so that any sequence of them can be taken. What comes of one is
its value or its failure, together with the writer or the reader after it.
-/

import ContextLexer.Proofs.Snapshot.Fields

namespace ContextLexer.Snapshot

/-! ## Going on -/

section

variable {ρ α β : Type}

/-- What comes of a step: its value or its failure, and what it leaves behind either way. -/
def outcome (step : EStateM Error ρ α) (now : ρ) : Except Error α × ρ :=
  match step now with
  | .ok value later => (.ok value, later)
  | .error error later => (.error error, later)

/-- Where steps lead if each is taken from where the one before it has ended, failed or not. -/
def goOn (steps : List (EStateM Error ρ α)) (now : ρ) : ρ :=
  steps.foldl (fun now step => (outcome step now).2) now

/-- What relates the end of every step to its beginning relates the end of all to theirs. -/
theorem goOn_relates {ι : Type} {step : ι → EStateM Error ρ α} {reaches : ρ → ρ → Prop}
    (refl : ∀ now, reaches now now)
    (trans : ∀ now middle later, reaches now middle → reaches middle later → reaches now later)
    (h : ∀ call now, reaches now (outcome (step call) now).2) (calls : List ι) (now : ρ) :
    reaches now (goOn (calls.map step) now) := by
  induction calls generalizing now with
  | nil => exact refl now
  | cons call calls ih => exact trans _ _ _ (h call now) (ih (outcome (step call) now).2)

theorem outcome_eq_ok {step : EStateM Error ρ α} {now later : ρ} {value : α} :
    outcome step now = (.ok value, later) ↔ step now = .ok value later := by
  unfold outcome
  cases step now <;> simp

theorem outcome_eq_error {step : EStateM Error ρ α} {now later : ρ} {error : Error} :
    outcome step now = (.error error, later) ↔ step now = .error error later := by
  unfold outcome
  cases step now <;> simp

theorem outcome_bind (first : EStateM Error ρ α) (next : α → EStateM Error ρ β) (now : ρ) :
    outcome (first >>= next) now =
      match outcome first now with
      | (.ok value, later) => outcome (next value) later
      | (.error error, later) => (.error error, later) := by
  simp only [outcome, Bind.bind, EStateM.bind]
  cases first now <;> rfl

theorem outcome_map (step : EStateM Error ρ α) (f : α → β) (now : ρ) :
    outcome (do return f (← step)) now = ((outcome step now).1.map f, (outcome step now).2) := by
  rw [outcome_bind]
  rcases outcome step now with ⟨_ | value, later⟩ <;> rfl

end

/-! ## Steps of a writer -/

/-- What a writer can be asked to append. -/
inductive Put
  | byte (n : UInt8)
  | flag (on : Bool)
  | word16 (n : UInt16)
  | word32 (n : UInt32)
  | count (what : String) (n : Nat)
  | sized (what : String) (bytes : List UInt8)
  | raw (bytes : List UInt8)
  deriving DecidableEq, Repr

namespace Put

/-- Append it. -/
def step : Put → Write Unit
  | .byte n => putByte n
  | .flag on => putFlag on
  | .word16 n => putWord16 n
  | .word32 n => putWord32 n
  | .count what n => putCount what n
  | .sized what bytes => putSized what bytes
  | .raw bytes => putRaw bytes

/-- The complaint about a count or a number of bytes that is too large for its width. -/
def complaint? : Put → Option Error
  | .count what n => if n < 2 ^ 8 then none else some (.countTooLarge what n (2 ^ 8 - 1))
  | .sized what bytes =>
    if bytes.length < 2 ^ 32 then none
    else some (.countTooLarge what bytes.length (2 ^ 32 - 1))
  | _ => none

/-- The number of bytes that sized bytes have in front. -/
def inFront : Put → List UInt8
  | .sized _ bytes => littleEndian 4 bytes.length
  | _ => []

/-- The bytes behind the number in front, or all bytes if there is none. -/
def payload : Put → List UInt8
  | .byte n => [n]
  | .flag on => [if on then 1 else 0]
  | .word16 n => littleEndian 2 n.toNat
  | .word32 n => littleEndian 4 n.toNat
  | .count _ n => [UInt8.ofNat n]
  | .sized _ bytes | .raw bytes => bytes

/-- All bytes that are appended. -/
def bytes (put : Put) : List UInt8 := put.inFront ++ put.payload

end Put

/-! ## Steps of a reader -/

/-- What a reader can be asked for. -/
inductive Get
  | byte
  | flag
  | word16
  | word32
  | sized
  | text
  | restText
  | raw (count : Nat)
  deriving DecidableEq, Repr

/-- What a reader returns. -/
inductive Value
  | number (n : Nat)
  | flag (on : Bool)
  | bytes (bytes : List UInt8)
  | text (text : List Char)
  deriving DecidableEq, Repr

/-- The text that bytes stand for; the offset is reported if they are no text. -/
def textOf (offset : Nat) (bytes : List UInt8) : Except Error (List Char) :=
  match Utf8.decode? bytes with
  | some text => .ok text
  | none => .error (.invalidUtf8 offset)

namespace Get

/-- Read it. -/
def step : Get → Read Value
  | .byte => return .number (← getByte).toNat
  | .flag => return .flag (← getFlag)
  | .word16 => return .number (← getWord16).toNat
  | .word32 => return .number (← getWord32).toNat
  | .sized => return .bytes (← getSized)
  | .text => return .text (← getText)
  | .restText => return .text (← getRestText)
  | .raw count => return .bytes (← getBytes count)

/-- How many bytes tell the number of those behind them. -/
def inFront : Get → Nat
  | .sized | .text => 4
  | _ => 0

/-- How many bytes are asked for behind the number in front, given what is left. -/
def payload (get : Get) (rest : List UInt8) : Nat :=
  match get with
  | .byte | .flag => 1
  | .word16 => 2
  | .word32 => 4
  | .sized | .text => ofLittleEndian (rest.take 4)
  | .restText => rest.length
  | .raw count => count

/-- What the bytes asked for stand for; the offset is where the call began. -/
def value (get : Get) (offset : Nat) (slice : List UInt8) : Except Error Value :=
  match get with
  | .byte | .word16 | .word32 => .ok (.number (ofLittleEndian slice))
  | .flag => .ok (.flag (ofLittleEndian slice ≠ 0))
  | .sized | .raw _ => .ok (.bytes slice)
  | .text | .restText => (textOf offset slice).map .text

end Get

end ContextLexer.Snapshot
