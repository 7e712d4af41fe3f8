/-
# What can go wrong with a snapshot

Two kinds of failure are told apart. A state that does not fit its snapshot is no
mistake: the host cannot come back to this place. A snapshot whose length disagrees
with its structure was not produced by a save, and whoever restores it is told where
the disagreement lies.
-/

namespace ContextLexer.Snapshot

/-- A reason why a snapshot cannot be written or read. -/
inductive Error
  /-- The state needs more bytes than the snapshot may have. -/
  | overflow (needed capacity : Nat)
  /-- The snapshot ends inside a field. -/
  | truncated (offset needed remaining : Nat)
  /-- The snapshot goes on after its last field. -/
  | trailingBytes (offset extra : Nat)
  /-- A text field is not valid UTF-8. -/
  | invalidUtf8 (offset : Nat)
  /-- A count is too large for the width of its field. -/
  | countTooLarge (what : String) (count max : Nat)
  deriving DecidableEq, Repr

/-- The failure in words. -/
def Error.message : Error → String
  | overflow needed capacity =>
    s!"scanner state needs {needed} bytes but the snapshot buffer holds {capacity}"
  | truncated offset needed remaining =>
    s!"snapshot truncated: needed {needed} more bytes at offset {offset}, {remaining} left"
  | trailingBytes offset extra =>
    s!"snapshot has {extra} trailing bytes after offset {offset}"
  | invalidUtf8 offset => s!"snapshot text at offset {offset} is not valid UTF-8"
  | countTooLarge what count max => s!"{what} count {count} does not fit in {max}"

end ContextLexer.Snapshot
