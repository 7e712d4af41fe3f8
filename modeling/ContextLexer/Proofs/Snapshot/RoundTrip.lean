/-
# Snapshots bring states back

Each of the three scanners has a format of its own, a list of bytes for every state. A
save within a capacity returns all of these bytes if they fit and their counts can be
told in the format, and none of them otherwise. Loading them into any scanner of the
same sort, whatever it was doing before, fills in the state that was saved. No state has
an empty format, so the empty snapshot is free to mean the initial state.
-/

import ContextLexer.Delimited.Scanner
import ContextLexer.Offside.Scanner
import ContextLexer.Proofs.Snapshot.Fields
import ContextLexer.Shell.Scanner

namespace ContextLexer

open Snapshot

namespace Scanner

variable {σ κ : Type} [DecidableEq κ] [Vocabulary κ] [Scanner σ κ]

/-- A save returns the bytes of a state in full or not at all. -/
theorem save_eq {state : σ} {bytes : List UInt8} {legal : Prop} [Decidable legal]
    (h : Writes (Scanner.write state) bytes legal) (capacity : Nat) :
    save state capacity = if legal ∧ bytes.length ≤ capacity then bytes else [] := by
  have hroom {count : Nat} : (Writer.mk capacity []).HasRoom count ↔ count ≤ capacity := by
    simp [Writer.HasRoom]
  by_cases hfits : legal ∧ bytes.length ≤ capacity
  · have hok := h.ok ⟨capacity, []⟩ hfits.1 (hroom.mpr hfits.2)
    rw [save, hok, if_pos hfits]
    rfl
  · obtain ⟨error, later, hfails⟩ := h.error ⟨capacity, []⟩ (hroom.mpr (Nat.zero_le _))
      fun hall => hfits ⟨hall.1, hroom.mp hall.2⟩
    rw [save, hfails, if_neg hfits]

variable (σ) in
/-- Snapshots of a scanner are taken exactly of the states that fit, and give every
receiver the state that was sent, up to what the receiver keeps for itself. -/
structure RoundTrips (fits : σ → (capacity : Nat) → Prop) (received : (sent receiver : σ) → σ) :
    Prop where
  /-- A snapshot is other than empty exactly if the state fits. -/
  saved : ∀ (sent : σ) (capacity : Nat), 0 < (save sent capacity).length ↔ fits sent capacity
  /-- A snapshot of a state that fits is accepted by every receiver. -/
  restored : ∀ (sent : σ) (capacity : Nat), fits sent capacity → ∀ receiver : σ,
    Scanner.load receiver (save sent capacity) = ⟨received sent receiver, none⟩
  /-- The empty snapshot takes every receiver back to the beginning. -/
  fresh : ∀ receiver : σ, Scanner.load receiver [] = ⟨Scanner.initial, none⟩

/-- Snapshots make the round trip if the format of every state is written and read. -/
theorem RoundTrips.of_format {format : σ → List UInt8} {legal : σ → Prop}
    [∀ state, Decidable (legal state)] {fits : σ → Nat → Prop} {received : σ → σ → σ}
    (hfits : ∀ sent capacity,
      fits sent capacity ↔ legal sent ∧ (format sent).length ≤ capacity)
    (hpos : ∀ sent, 0 < (format sent).length)
    (hwrite : ∀ sent, Writes (Scanner.write sent) (format sent) (legal sent))
    (hload : ∀ sent receiver, legal sent →
      Scanner.load receiver (format sent) = ⟨received sent receiver, none⟩)
    (hfresh : ∀ receiver : σ, Scanner.load receiver [] = ⟨Scanner.initial, none⟩) :
    RoundTrips σ fits received where
  saved sent capacity := by
    rw [hfits, save_eq (hwrite sent)]
    by_cases h : legal sent ∧ (format sent).length ≤ capacity
    · rw [if_pos h]
      exact iff_of_true (hpos sent) h
    · rw [if_neg h]
      exact iff_of_false (Nat.lt_irrefl 0) h
  restored sent capacity h receiver := by
    have h := (hfits sent capacity).mp h
    rw [save_eq (hwrite sent), if_pos h]
    exact hload sent receiver h.1
  fresh := hfresh

end Scanner

/-- The byte of a truth value. -/
def flagByte (flag : Bool) : UInt8 := if flag then 1 else 0

/-! ## The layout scanner -/

namespace Offside.State

/-- Two bytes for each width. -/
def widthBytes (widths : List UInt16) : List UInt8 :=
  widths.flatMap fun w => littleEndian 2 w.toNat

/-- The owed dedents, and then the widths, outermost first. -/
def format (s : State) : List UInt8 := UInt8.ofNat s.owed :: widthBytes s.widths

theorem length_widthBytes (widths : List UInt16) :
    (widthBytes widths).length = 2 * widths.length := by
  induction widths with
  | nil => rfl
  | cons w widths ih =>
      rw [widthBytes] at ih ⊢
      rw [List.flatMap_cons, List.length_append, length_littleEndian, ih, List.length_cons]
      omega

theorem length_format (s : State) : s.format.length = 1 + 2 * s.widths.length := by
  rw [format, List.length_cons, length_widthBytes, Nat.add_comm]

theorem writes_format (s : State) : Writes s.write s.format (s.owed ≤ 255) := by
  have h := (Writes.putCount "owed dedent" s.owed).bind
    (Writes.forM s.widths fun w => Writes.putWord16 w)
  have hlegal : ((¬ 255 < s.owed ∧ True) ∧ ∀ w ∈ s.widths, True) ↔ s.owed ≤ 255 := by
    simp
  rwa [hlegal] at h

theorem reads_widthBytes (widths : List UInt16) :
    Reads (getWidths widths.length) (widthBytes widths) widths := by
  induction widths with
  | nil => exact .pure []
  | cons w widths ih =>
      exact (Reads.getWord16 w).bind
        (fun width => do return width :: (← getWidths widths.length))
        (ih.map fun widths => w :: widths)

theorem loads_format (s : State) :
    Loads fields s.format []
      (setWidths s.widths ∘ fun state => { state with owed := (UInt8.ofNat s.owed).toNat }) := by
  change Loads fields ([UInt8.ofNat s.owed] ++ widthBytes s.widths) [] _
  refine Loads.field _ (Reads.getByte _) (.fill _ (.get fun offset state => ?_))
  have hcount : (Reader.mk offset (widthBytes s.widths ++ [])).remaining / 2 =
      s.widths.length := by
    rw [List.append_nil, Reader.remaining, length_widthBytes]
    omega
  have hwidths := Loads.field (fun widths => do
    fill (setWidths widths)
    field expectEnd) (reads_widthBytes s.widths) (.fill (setWidths s.widths) .expectEnd)
  rw [List.append_nil] at hwidths
  simp only [hcount]
  exact hwidths

/-- Loading keeps the queue and replaces everything else. -/
theorem load_format (s : State) (h : s.owed ≤ 255) (receiver : State) :
    load receiver s.format = ⟨{ s with queue := receiver.queue }, none⟩ := by
  have howed : (UInt8.ofNat s.owed).toNat = s.owed := by
    rw [UInt8.toNat_ofNat']
    omega
  have hrun := (loads_format s).run { initial with queue := receiver.queue }
  rw [load, if_neg (by simp [format]), hrun]
  simp [setWidths, widths, howed]

end Offside.State

/-! ## The shell scanner -/

namespace Shell.State

/-- Three modes, and the delimiter with the number of its bytes in front. -/
def heredocFormat (h : Heredoc) : List UInt8 :=
  [flagByte h.raw] ++ ([flagByte h.started] ++ ([flagByte h.indented] ++
    (littleEndian 4 (UInt32.ofNat (Utf8.encode h.delimiter).length).toNat ++
      Utf8.encode h.delimiter)))

/-- The heredocs one after the other. -/
def heredocBytes (heredocs : List Heredoc) : List UInt8 := heredocs.flatMap heredocFormat

/-- The depth of the glob, the number of heredocs, and the heredocs, outermost first. -/
def format (s : State) : List UInt8 :=
  [s.globDepth] ++ ([UInt8.ofNat s.heredocs.length] ++ heredocBytes s.heredocs.reverse)

/-- The number of bytes that a heredoc takes. -/
def heredocSize (h : Heredoc) : Nat := 7 + Utf8.size h.delimiter

/-- Whether the counts of a state can be told in a snapshot. -/
def legal (s : State) : Prop :=
  s.heredocs.length ≤ 255 ∧ ∀ h ∈ s.heredocs, Utf8.size h.delimiter < 2 ^ 32

instance (s : State) : Decidable s.legal := inferInstanceAs (Decidable (_ ∧ _))

theorem length_format (s : State) :
    s.format.length = 2 + (s.heredocs.map heredocSize).sum := by
  have hone (h : Heredoc) : (heredocFormat h).length = heredocSize h := by
    simp [heredocFormat, heredocSize, Utf8.length_encode]
    omega
  have hall (heredocs : List Heredoc) :
      (heredocBytes heredocs).length = (heredocs.map heredocSize).sum := by
    simp [heredocBytes, List.length_flatMap, hone]
  rw [format, List.length_append, List.length_append, hall, List.map_reverse,
    List.sum_reverse]
  simp only [List.length_singleton]
  omega

theorem writes_heredocFormat (h : Heredoc) :
    Writes (writeHeredoc h) (heredocFormat h) (Utf8.size h.delimiter < 2 ^ 32) := by
  have hwrites := (Writes.putFlag h.raw).bind ((Writes.putFlag h.started).bind
    ((Writes.putFlag h.indented).bind
      (Writes.putSized "heredoc delimiter" (Utf8.encode h.delimiter))))
  have hlegal : (True ∧ True ∧ True ∧
      ¬ 4294967295 < (Utf8.encode h.delimiter).length ∧ True ∧ True) ↔
      Utf8.size h.delimiter < 2 ^ 32 := by
    simp only [Utf8.length_encode, true_and, and_true]
    omega
  rwa [hlegal] at hwrites

theorem writes_format (s : State) : Writes s.write s.format s.legal := by
  have hwrites := (Writes.putByte s.globDepth).bind
    ((Writes.putCount "heredoc" s.heredocs.length).bind
      (Writes.forM s.heredocs.reverse writes_heredocFormat))
  have hlegal : (True ∧ (¬ 255 < s.heredocs.length ∧ True) ∧
      ∀ h ∈ s.heredocs.reverse, Utf8.size h.delimiter < 2 ^ 32) ↔ s.legal := by
    simp [legal]
  rwa [hlegal] at hwrites

theorem reads_heredocFormat (h : Heredoc) (hsize : Utf8.size h.delimiter < 2 ^ 32) :
    Reads getHeredoc (heredocFormat h) h := by
  have htext := Reads.getText h.delimiter (by omega)
  exact (Reads.getFlag h.raw).bind _ ((Reads.getFlag h.started).bind _
    ((Reads.getFlag h.indented).bind _ (htext.map fun delimiter =>
      Heredoc.mk h.raw h.started h.indented delimiter)))

/-- Heredocs are pushed in the order in which they are read, whatever tells of them. -/
theorem loads_heredocs {α : Type} {bytes : α → List UInt8} {heredoc : α → Heredoc}
    {items : List α} (hread : ∀ item ∈ items, Reads getHeredoc (bytes item) (heredoc item))
    (rest : List UInt8) :
    Loads (heredocFields items.length) (items.flatMap bytes) rest fun state =>
      { state with heredocs := (items.map heredoc).reverse ++ state.heredocs } := by
  induction items with
  | nil => exact .nothing rest
  | cons item items ih =>
      have ih := ih fun other hother => hread other (by simp [hother])
      have hload := Loads.field (fun h => do
        fill (push h)
        heredocFields items.length) (hread item (by simp)) (.fill (push (heredoc item)) ih)
      have hchange : (fun state : State =>
          { state with heredocs := ((item :: items).map heredoc).reverse ++ state.heredocs }) =
          (fun state => { state with
            heredocs := (items.map heredoc).reverse ++ state.heredocs }) ∘ push (heredoc item) := by
        funext state
        simp [push]
      rw [hchange]
      exact hload

/-- The depth of the glob, a count, and as many heredocs make up a state. -/
theorem load_heredocs {α : Type} {bytes : α → List UInt8} {heredoc : α → Heredoc}
    {items : List α} (hread : ∀ item ∈ items, Reads getHeredoc (bytes item) (heredoc item))
    (depth : UInt8) {count : UInt8} (hcount : count.toNat = items.length) :
    load (depth :: count :: items.flatMap bytes) =
      ⟨⟨depth, (items.map heredoc).reverse⟩, none⟩ := by
  have hheredocs := loads_heredocs hread []
  rw [← hcount] at hheredocs
  have hload : Loads fields ([depth] ++ ([count] ++ items.flatMap bytes)) [] _ :=
    Loads.field _ (Reads.getByte depth)
      (.fill _ (Loads.field _ (Reads.getByte count) hheredocs.bind_expectEnd))
  have hrun := hload.run initial
  simpa [load, initial] using hrun

/-- Loading replaces the whole state. -/
theorem load_format (s : State) (h : s.legal) : load s.format = ⟨s, none⟩ := by
  have hcount : (UInt8.ofNat s.heredocs.length).toNat = s.heredocs.reverse.length := by
    rw [UInt8.toNat_ofNat', List.length_reverse]
    have := h.1
    omega
  have hread : ∀ other ∈ s.heredocs.reverse, Reads getHeredoc (heredocFormat other) (id other) :=
    fun other hother => reads_heredocFormat other (h.2 other (List.mem_reverse.mp hother))
  have hload := load_heredocs hread s.globDepth hcount
  rwa [List.map_id, List.reverse_reverse] at hload

end Shell.State

/-! ## The scanner for delimited literals -/

namespace Delimited.State

/-- Whether a string is open, and then the tag. -/
def format (s : State) : List UInt8 := [flagByte s.inString] ++ Utf8.encode s.tag

theorem length_format (s : State) : s.format.length = 1 + Utf8.size s.tag := by
  rw [format, List.length_append, Utf8.length_encode, List.length_singleton]

theorem writes_format (s : State) : Writes s.write s.format True := by
  have hwrites := (Writes.putFlag s.inString).bind (Writes.putRaw (Utf8.encode s.tag))
  rwa [and_true] at hwrites

/-- Loading replaces the whole state. -/
theorem load_format (s : State) : load s.format = ⟨s, none⟩ := by
  have hload : Loads fields s.format [] _ :=
    Loads.field _ (Reads.getFlag s.inString) (.fill _ (Loads.restText (.fill _ .expectEnd)))
  rw [load, if_neg (by simp [format]), hload.run]
  rfl

end Delimited.State

/-! ## All three -/

/-- Every state of every scanner is brought back by its snapshot if it fits. The layout
scanner keeps its queue out of snapshots, and the receiver goes on with its own. -/
theorem snapshots_round_trip :
    Scanner.RoundTrips Offside.State
      (fun sent capacity => sent.owed ≤ 255 ∧ 1 + 2 * sent.widths.length ≤ capacity)
      (fun sent receiver => { sent with queue := receiver.queue }) ∧
    Scanner.RoundTrips Shell.State
      (fun sent capacity => sent.heredocs.length ≤ 255 ∧
        (∀ h ∈ sent.heredocs, Utf8.size h.delimiter < 2 ^ 32) ∧
        2 + (sent.heredocs.map fun h => 7 + Utf8.size h.delimiter).sum ≤ capacity)
      (fun sent _ => sent) ∧
    Scanner.RoundTrips Delimited.State
      (fun sent capacity => 1 + Utf8.size sent.tag ≤ capacity)
      (fun sent _ => sent) := by
  refine ⟨?_, ?_, ?_⟩
  · refine .of_format (fun sent capacity => ?_) (fun sent => ?_) Offside.State.writes_format
      (fun sent receiver h => sent.load_format h receiver) fun _ => rfl
    · rw [Offside.State.length_format]
    · rw [Offside.State.length_format]
      omega
  · refine .of_format (fun sent capacity => ?_) (fun sent => ?_) Shell.State.writes_format
      (fun sent _ h => sent.load_format h) fun _ => rfl
    · rw [Shell.State.length_format, Shell.State.legal, and_assoc]
      rfl
    · rw [Shell.State.length_format]
      omega
  · refine .of_format (fun sent capacity => ?_) (fun sent => ?_) Delimited.State.writes_format
      (fun sent _ _ => sent.load_format) fun _ => rfl
    · rw [Delimited.State.length_format, true_and]
    · rw [Delimited.State.length_format]
      omega

end ContextLexer
