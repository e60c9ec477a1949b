import Tinox.Lexer.Shifts

/-!
# The lexer reaches the end

No reader moves back behind the place where it started, whether it succeeds or
fails.  A token has at least one character and an error skips one, so the loop
over the tokens of a text ends with the text.
-/

namespace Tinox.Lexer

open Tinox.Syntax
open Read

theorem nextToken_before (s : Lexer) : s.Before (nextToken s).2 :=
  (inferInstance : Shifts [] SameKind nextToken nextToken).before s

theorem Step.progress {s s' : Lexer} {t : Token} (step : Step s t s') (unfinished : s.rest ≠ []) :
    s.pos < s'.pos := by
  have longer : ∀ cs, Moves s cs s' → cs ≠ [] → s.pos < s'.pos := by
    intro cs moves nonempty
    rw [moves.pos]
    exact Nat.lt_add_of_pos_right (List.length_pos_iff.mpr nonempty)
  have lexed : ∀ cs shape, Moves s cs s' → lexeme s.past.getLast? s.rest = (shape, s'.rest) →
      s.pos < s'.pos := by
    intro cs shape moves found
    rw [moves.rest] at found unfinished
    exact longer cs moves (lexeme_ne_nil unfinished found)
  cases step with
  | blank cs tracks trivia found => exact lexed cs _ tracks.toMoves found
  | flat cs moves kept span found =>
      exact lexed cs _ (moves.elim Tracks.toMoves Passes.toMoves) found
  | symbols cs passes kept span nonempty => exact longer cs passes.toMoves nonempty
  | slip slips found =>
      rcases slips.passes with ⟨cs, u, length, passes, flat, rest, bounds, rfl⟩
      exact lexed cs _
        ⟨passes.chars, passes.start, passes.startColumn, passes.pos, passes.rest⟩ found

theorem tokenizeLoop_isSome {count : Nat} {s : Lexer} (enough : s.rest.length < count) :
    (tokenizeLoop count s).isSome := by
  induction count generalizing s with
  | zero => cases enough
  | succ count ih =>
      -- Every round leaves less text.
      have shorter : ∀ s' : Lexer, s'.chars = s.chars → s.pos < s'.pos → s.rest ≠ [] →
          s'.rest.length < count := by
        intro s' chars further unfinished
        have some := List.length_pos_iff.mpr unfinished
        rw [Lexer.length_rest] at enough some ⊢
        rw [chars]
        omega
      have before := nextToken_before s
      rw [tokenizeLoop]
      by_cases finished : s.rest = []
      · rw [nextToken_end finished]
        rfl
      · rcases read : nextToken s with ⟨e | t, s'⟩
        · rw [read] at before
          have rest := ih (shorter { s' with pos := s'.pos + 1 } before.chars
            (Nat.lt_succ_of_le before.pos) finished)
          simp only [Option.isSome_map]
          exact rest
        · rcases nextToken_step finished read with ⟨step, inside⟩
          rw [read] at before
          have rest := ih (shorter s' before.chars (step.progress finished) finished)
          simp only [if_neg inside, Option.isSome_map]
          exact rest

end Tinox.Lexer
