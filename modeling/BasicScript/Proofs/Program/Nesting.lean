/-
  The limit on the levels of nesting.

  * `nestingTooDeep_iff`: a program is refused for its levels exactly if it cannot be derived with
    `maxNesting` of them.
  * `EntryPoint`: the parsers that can be called for themselves; `EntryPoint.depth_eq`: each closes all
    the levels it opened, whatever comes out and on all tokens.
  * `parseAll depth runs`: parses one after the other, each with the count of levels that the one
    before has left.
  * `nesting_limit_exact`: the limit is exact, and no parse leaves a trace on those after it.
-/
import Mathlib.Order.Nat
import BasicScript.Proofs.Program.Completeness
import BasicScript.Proofs.Program.Failures

namespace BasicScript

namespace Parser

/-! ## The limit -/

/-- The limit is on the levels that are open at once: the least number with which the program can be
derived. -/
theorem nestingTooDeep_iff {ts : List PlacedToken} {q : Program} {n : Nat}
    (h : IsLeast {m | BuildsProgram m ts q} n) (hkeys : (q.subroutines.map Subroutine.key).Nodup) :
    (∃ line, program.parseTokens ts = .error ⟨.nestingTooDeep, line⟩) ↔ maxNesting < n := by
  have hfresh : FreshKeys [] q.subroutines := ⟨hkeys, by simp⟩
  constructor
  · rintro ⟨line, herror⟩
    refine Nat.lt_of_not_le fun hle => ?_
    have hread := h.1.complete (d := 0) (by omega) [] ts (Nat.le_refl _) hfresh
    rw [parseTokens, program_eq_ok_iff.2 hread] at herror
    cases herror
  · intro hlt
    have hread : ComesTo True (topLevel [] ts ⟨ts, 0⟩) (.ok q ⟨[], 0⟩) :=
      h.1.comesTo (.inl trivial) [] ts (Nat.le_refl _) hfresh
    rcases hread with hok | ⟨-, line, s, herror⟩
    · -- what is read opens no more levels than it may
      obtain ⟨-, hq, -⟩ := topLevel_sound ts [] ts 0 q _ (Nat.le_refl _) hok
      exact absurd (h.2 hq) (Nat.not_le.2 hlt)
    · refine ⟨line, ?_⟩
      rw [parseTokens, program_eq, herror]
      rfl

/-- In `X = -...-1` the value is one level and each sign is another: 256 levels are read, 257 are
not. -/
example :
    let refused signs := match program.parseTokens ([⟨.name "X", 1⟩, ⟨.symbol .equals, 1⟩] ++
        List.replicate signs ⟨.symbol .minus, 1⟩ ++ [⟨.integer 1, 1⟩]) with
      | .error e => decide (e.fault = .nestingTooDeep)
      | .ok _ => false
    refused 255 = false ∧ refused 256 = true := by
  decide +kernel

/-! ## Entry points -/

/-- The parsers that can be called for themselves. -/
inductive EntryPoint where
  | program
  | subroutine
  | statement
  | letStatement
  | body (closes : Token → Bool) (line : Nat)
  | expression
  /-- Operands joined by the operators of the ranks below `n`, one operand if `n` is 0. -/
  | joined (n : Nat)
  | primary
  | nameOrCall (name : String) (line : Nat)
  | arguments (line : Nat)
  | parameters (line : Nat)

namespace EntryPoint

/-- What an entry point reads. -/
abbrev Tree : EntryPoint → Type
  | program => Program
  | subroutine => Subroutine
  | statement => Statement
  | letStatement => List Statement
  | body _ _ => List Statement × PlacedToken
  | expression | joined _ | primary | nameOrCall _ _ => Expr
  | arguments _ => List Expr
  | parameters _ => List String

/-- The parser behind an entry point. -/
def parser : (entry : EntryPoint) → Parser entry.Tree
  | program => Parser.program
  | subroutine => Parser.subroutine
  | statement => Parser.statement
  | letStatement => Parser.letStatement
  | body closes line => Parser.body closes line
  | expression => Parser.expression
  | joined n => atRank operand n
  | primary => Parser.primary Parser.expression
  | nameOrCall name line => Parser.nameOrCall Parser.expression name line
  | arguments line => commaList Parser.expression (.symbol .rightParen) line
  | parameters line => commaList nameToken (.symbol .rightParen) line

end EntryPoint

section
variable {α : Type}

/-- The state in which a parse ends, with a tree or with an error. -/
def endState : EStateM.Result ParseError ParserState α → ParserState
  | .ok _ s => s
  | .error _ s => s

/-- The tree and the tokens left over, or the error. -/
def outcome : EStateM.Result ParseError ParserState α → Except ParseError (α × List PlacedToken)
  | .ok a s => .ok (a, s.rest)
  | .error e _ => .error e

theorem outcome_eq_parseTokens (p : Parser α) (ts : List PlacedToken) :
    outcome (p ⟨ts, 0⟩) = p.parseTokens ts := by
  rw [parseTokens]
  cases p ⟨ts, 0⟩ <;> rfl

/-- All tokens stand on some line. -/
theorem on_some_line (ts : List PlacedToken) : On (fun _ => True) ts := fun _ _ => trivial

theorem Located.depth_eq {Q : α → Prop} {p : Parser α} (hp : Located (fun _ => True) Q p)
    (s : ParserState) : (endState (p s)).depth = s.depth := by
  have h := hp s (on_some_line s.rest)
  cases hctx : p s with
  | ok a s' =>
    rw [hctx] at h
    exact h.2.2
  | error e s' =>
    rw [hctx] at h
    exact h.2

end

/-- Every level that is opened is closed again. -/
theorem EntryPoint.depth_eq (entry : EntryPoint) (s : ParserState) :
    (endState (entry.parser s)).depth = s.depth := by
  cases entry with
  | program =>
    have h := program_located (P := fun _ => True) trivial (on_some_line s.rest)
    show (endState (Parser.program s)).depth = s.depth
    cases hctx : Parser.program s with
    | ok p s' =>
      rw [hctx] at h
      exact h
    | error e s' =>
      rw [hctx] at h
      exact h.2
  | subroutine => exact (subroutine_located trivial).depth_eq s
  | statement => exact (statementWith_placed (body_located trivial)).depth_eq s
  | letStatement => exact (letStatement_placed trivial).depth_eq s
  | body closes line => exact (body_located trivial closes line trivial).depth_eq s
  | expression => exact expression_placed.depth_eq s
  | joined n => exact (atRank_placed (operandAt_placed _) n).depth_eq s
  | primary => exact (primary_placed expression_placed).depth_eq s
  | nameOrCall name line => exact (nameOrCall_placed expression_placed name trivial).depth_eq s
  | arguments line => exact (commaList_placed expression_placed trivial).depth_eq s
  | parameters line => exact (commaList_placed nameToken_placed trivial).depth_eq s

/-! ## One parse after the other -/

/-- A call of an entry point on tokens. -/
structure Run where
  entry : EntryPoint
  tokens : List PlacedToken

/-- A call together with what came out of it. -/
abbrev Finished := (run : Run) × Except ParseError (run.entry.Tree × List PlacedToken)

/-- The call for itself, with no level open. -/
def Run.alone (run : Run) : Finished := ⟨run, run.entry.parser.parseTokens run.tokens⟩

/-- The calls in sequence, and the count of levels in the end; each call starts with the count that
the one before has left. -/
def parseAll : Nat → List Run → List Finished × Nat
  | depth, [] => ([], depth)
  | depth, run :: runs =>
    let result := run.entry.parser ⟨run.tokens, depth⟩
    let (finished, last) := parseAll (endState result).depth runs
    (⟨run, outcome result⟩ :: finished, last)

theorem parseAll_zero (runs : List Run) : parseAll 0 runs = (runs.map Run.alone, 0) := by
  induction runs with
  | nil => rfl
  | cons run runs ih =>
    rw [parseAll, run.entry.depth_eq, ih, outcome_eq_parseTokens]
    rfl

/-- **The limit on nesting is exact and leaves no trace.**  A program that can be derived is refused
for its nesting if and only if more than `maxNesting` levels are open at once in it, that is, if and
only if the least number of levels with which it can be derived is greater.  Whatever the tokens, all
levels are closed when a parser is done, so that parses in sequence give what each would give for
itself. -/
theorem nesting_limit_exact :
    (∀ ts q m, BuildsProgram m ts q → (q.subroutines.map Subroutine.key).Nodup →
      ∃ n, IsLeast {k | BuildsProgram k ts q} n ∧
        ((∃ line, program.parseTokens ts = .error ⟨.nestingTooDeep, line⟩) ↔ maxNesting < n)) ∧
    (∀ (entry : EntryPoint) (s : ParserState), (endState (entry.parser s)).depth = s.depth) ∧
    ∀ runs, parseAll 0 runs = (runs.map Run.alone, 0) := by
  classical
  refine ⟨fun ts q m h hkeys => ?_, EntryPoint.depth_eq, parseAll_zero⟩
  have hleast := Nat.isLeast_find (p := fun k => BuildsProgram k ts q) ⟨m, h⟩
  exact ⟨_, hleast, nestingTooDeep_iff hleast hkeys⟩

end Parser

end BasicScript
