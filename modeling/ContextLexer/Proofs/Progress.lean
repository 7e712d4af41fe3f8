/-
# Every call ends

A call could go on for ever in a loop whose turns leave the cursor where it is, or by asking
the same resolvers again and again. Neither happens, whatever the text, the state and the
accepted kinds are.
-/

import ContextLexer.Proofs.Delimited.Loops
import ContextLexer.Proofs.Shell.Visits

namespace ContextLexer

/-- Every turn of a loop of the shell resolvers that goes on takes the cursor further in the
text, so that the loop ends. A call visits resolvers in their order and each of them once, and
reads a regex only if the host accepts regexes of some style; without a style, the loop would
stay for ever in front of any character that ends no regex. And every turn of a comment that
goes on leaves fewer characters, or as many and no pending one. -/
theorem loops_make_progress :
    Shell.LoopsProgress ∧ Shell.LoopsStop ∧
      (∀ accepted s c, Shell.WalksForward accepted s c) ∧
      (∀ accepted : Shell.Accepted,
        ¬ (.regex ∈ accepted ∨ .regexNoSlash ∈ accepted ∨ .regexNoSpace ∈ accepted) →
          ∀ kind (now : Shell.Regex), now.cursor.lookahead ∉ ['\x00', ')', ']', '}'] →
            ¬ ∃ n result, Turn.Stops (Shell.styledTurn (Shell.regexStyle? accepted) kind) now n
              result) ∧
      Delimited.CommentsProgress := by
  refine ⟨Shell.loopsProgress, Shell.loopsStop, Shell.walksForward, ?_, Delimited.commentsProgress⟩
  intro accepted hnone kind now hnext
  rw [Shell.regexStyle?_eq_none hnone]
  exact Shell.not_stops_styledTurn_none kind hnext

end ContextLexer
