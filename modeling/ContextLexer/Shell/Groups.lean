/-
# Nested groups

Regexes and globs may contain groups in parentheses, brackets and braces. The three are
counted apart. A closer whose own group was never opened ends the pattern.
-/

namespace ContextLexer.Shell

/-- The numbers of open groups of the three sorts. -/
structure Groups where
  /-- Open parentheses. -/
  parens : Nat
  /-- Open brackets. -/
  brackets : Nat
  /-- Open braces. -/
  braces : Nat
  deriving DecidableEq, Repr

namespace Groups

/-- Some parentheses are open, and nothing else. -/
def ofParens (parens : Nat) : Groups := ⟨parens, 0, 0⟩

/-- Close a group, if one is open. -/
def close : Nat → Option Nat
  | 0 => none
  | depth + 1 => some depth

/-- Count a character. There is no result for a closer whose group was never opened. -/
def count (groups : Groups) (c : Char) : Option Groups :=
  if c = '(' then some { groups with parens := groups.parens + 1 }
  else if c = '[' then some { groups with brackets := groups.brackets + 1 }
  else if c = '{' then some { groups with braces := groups.braces + 1 }
  else if c = ')' then (close groups.parens).map fun parens => { groups with parens }
  else if c = ']' then (close groups.brackets).map fun brackets => { groups with brackets }
  else if c = '}' then (close groups.braces).map fun braces => { groups with braces }
  else some groups

end Groups

end ContextLexer.Shell
