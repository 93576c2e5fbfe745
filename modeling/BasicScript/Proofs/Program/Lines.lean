/-
  The lines of a program's statements and expressions.

  * `Expr.lines`, `Statement.lines` and `Program.lines` list the lines of all nodes of a tree,
    `Statement.aborts` and `Program.aborts` those of its `ABORT` statements.
  * `Standing P ts`: every token but the ends of lines stands on a line that satisfies `P`.
  * `Derives.lines`, `Builds.lines`, `BuildsProgram.lines`: then so do the lines of the tree.
  * `lines_of_parse`: the lines of a program are lines of its source.
-/
import BasicScript.Proofs.Program.Soundness
import BasicScript.Proofs.Token.Lines

namespace BasicScript

/-! ## Lines of trees -/

mutual

/-- The lines of an expression and of the expressions in it. -/
def Expr.lines : Expr → List Nat
  | .literal _ line | .name _ line => [line]
  | .index target key line => line :: (target.lines ++ key.lines)
  | .unary _ operand line => line :: operand.lines
  | .binary _ left right line => line :: (left.lines ++ right.lines)
  | .call _ arguments line => line :: Expr.linesAll arguments

/-- The lines of expressions. -/
def Expr.linesAll : List Expr → List Nat
  | [] => []
  | e :: es => e.lines ++ Expr.linesAll es

end

/-- The lines of an expression that may be missing. -/
def Expr.linesOption : Option Expr → List Nat
  | none => []
  | some e => e.lines

mutual

/-- The lines of a statement and of the statements and expressions in it. -/
def Statement.lines : Statement → List Nat
  | .assign _ indices value line => line :: (Expr.linesAll indices ++ value.lines)
  | .dim _ key line => line :: Expr.linesOption key
  | .if_ condition thenBody none line => line :: (condition.lines ++ Statement.linesAll thenBody)
  | .if_ condition thenBody (some elseBody) line =>
    line :: (condition.lines ++ Statement.linesAll thenBody ++ Statement.linesAll elseBody)
  | .while_ condition body line => line :: (condition.lines ++ Statement.linesAll body)
  | .for_ _ first last step body line =>
    line :: (first.lines ++ last.lines ++ Expr.linesOption step ++ Statement.linesAll body)
  | .return_ value line => line :: Expr.linesOption value
  | .call _ arguments line | .print arguments line | .command _ arguments line =>
    line :: Expr.linesAll arguments
  | .abort line | .remark _ line => [line]

/-- The lines of statements. -/
def Statement.linesAll : List Statement → List Nat
  | [] => []
  | s :: ss => s.lines ++ Statement.linesAll ss

end

mutual

/-- The lines of the `ABORT` statements in a statement. -/
def Statement.aborts : Statement → List Nat
  | .if_ _ thenBody none _ => Statement.abortsAll thenBody
  | .if_ _ thenBody (some elseBody) _ =>
    Statement.abortsAll thenBody ++ Statement.abortsAll elseBody
  | .while_ _ body _ | .for_ _ _ _ _ body _ => Statement.abortsAll body
  | .abort line => [line]
  | .assign _ _ _ _ | .dim _ _ _ | .return_ _ _ | .call _ _ _ | .print _ _ | .command _ _ _
  | .remark _ _ => []

/-- The lines of the `ABORT` statements in statements. -/
def Statement.abortsAll : List Statement → List Nat
  | [] => []
  | s :: ss => s.aborts ++ Statement.abortsAll ss

end

/-- The lines of the statements and expressions of a program, subroutines included. -/
def Program.lines (p : Program) : List Nat :=
  Statement.linesAll p.statements ++ p.subroutines.flatMap (Statement.linesAll ·.body)

/-- The lines of the `ABORT` statements of a program, subroutines included. -/
def Program.aborts (p : Program) : List Nat :=
  Statement.abortsAll p.statements ++ p.subroutines.flatMap (Statement.abortsAll ·.body)

theorem Statement.linesAll_append (ss more : List Statement) :
    Statement.linesAll (ss ++ more) = Statement.linesAll ss ++ Statement.linesAll more := by
  induction ss with
  | nil => rfl
  | cons s ss ih => rw [List.cons_append, linesAll, linesAll, ih, List.append_assoc]

/-! ## Lines of tokens -/

variable {P : Nat → Prop}

/-- The tokens stand on lines that satisfy `P`, the ends of lines excepted. -/
def Standing (P : Nat → Prop) (ts : List PlacedToken) : Prop :=
  ∀ t ∈ ts, t.token ≠ .symbol .newLine → P t.line

theorem standing_cons {t : PlacedToken} {ts : List PlacedToken} :
    Standing P (t :: ts) ↔ (t.token ≠ .symbol .newLine → P t.line) ∧ Standing P ts :=
  List.forall_mem_cons

theorem standing_append {ts us : List PlacedToken} :
    Standing P (ts ++ us) ↔ Standing P ts ∧ Standing P us :=
  List.forall_mem_append

/-- The lines of a tree of the grammar of expressions. -/
def Category.lines : (c : Category) → c.Tree → List Nat
  | .arguments => Expr.linesAll
  | .expression | .rank _ | .indexed | .primary => Expr.lines

theorem Literal.token_ne_newLine (value : Literal) : value.token ≠ .symbol .newLine := by
  cases value <;> exact nofun

/-- The line of each node of an expression is that of one of its tokens. -/
theorem Derives.lines {c : Category} {n : Nat} {ts : List PlacedToken} {t : c.Tree}
    (h : Derives c n ts t) (hts : Standing P ts) : ∀ l ∈ c.lines t, P l := by
  induction h with
  | expression _ ih | operand _ ih | indexed _ ih | primary _ ih => exact ih hts
  | binary hop _ _ ihl ihr =>
    obtain ⟨hleft, hop', hright⟩ := by simpa only [standing_append, standing_cons] using hts
    simp only [Category.lines, Expr.lines, List.forall_mem_cons, List.forall_mem_append]
    exact ⟨hop' (ne_of_mem_operators hop rfl), ihl hleft, ihr hright⟩
  | sign hop _ ih =>
    obtain ⟨hop', hoperand⟩ := standing_cons.1 hts
    simp only [Category.lines, Expr.lines, List.forall_mem_cons]
    exact ⟨hop' (ne_of_mem_signs hop rfl), ih hoperand⟩
  | index _ _ iht ihk =>
    simp only [standing_append, standing_cons] at hts
    obtain ⟨⟨htarget, hopening, hkey⟩, -⟩ := hts
    simp only [Category.lines, Expr.lines, List.forall_mem_cons, List.forall_mem_append]
    exact ⟨hopening nofun, iht htarget, ihk hkey⟩
  | literal value =>
    simp only [Category.lines, Expr.lines, List.forall_mem_singleton]
    exact (standing_cons.1 hts).1 value.token_ne_newLine
  | name name =>
    simp only [Category.lines, Expr.lines, List.forall_mem_singleton]
    exact (standing_cons.1 hts).1 nofun
  | callEmpty name =>
    simp only [Category.lines, Expr.lines, Expr.linesAll, List.forall_mem_singleton]
    exact (standing_cons.1 hts).1 nofun
  | call name _ ih =>
    simp only [List.cons_append, standing_append, standing_cons] at hts
    obtain ⟨hname, -, harguments, -⟩ := hts
    simp only [Category.lines, Expr.lines, List.forall_mem_cons]
    exact ⟨hname nofun, ih harguments⟩
  | group _ ih =>
    simp only [List.cons_append, standing_append, standing_cons] at hts
    exact ih hts.2.1
  | lastArgument _ ih =>
    simp only [Category.lines, Expr.linesAll, List.append_nil]
    exact ih hts
  | argument _ _ ihe ihes =>
    simp only [standing_append, standing_cons] at hts
    obtain ⟨he, -, hes⟩ := hts
    simp only [Category.lines, Expr.linesAll, List.forall_mem_append]
    exact ⟨ihe he, ihes hes⟩

section
variable {n line : Nat} {ts : List PlacedToken}

theorem BuildsArguments.lines {es : List Expr} (h : BuildsArguments n ts es)
    (hts : Standing P ts) : ∀ l ∈ Expr.linesAll es, P l := by
  cases h with
  | empty => exact nofun
  | list hes =>
    simp only [List.cons_append, standing_append, standing_cons] at hts
    exact hes.lines hts.2.1

theorem BuildsInvocation.lines {es : List Expr} (h : BuildsInvocation n ts es)
    (hts : Standing P ts) : ∀ l ∈ Expr.linesAll es, P l := by
  cases h with
  | bare => exact nofun
  | arguments hes => exact hes.lines hts

theorem BuildsIndices.lines {keys : List Expr} (h : BuildsIndices n ts keys)
    (hts : Standing P ts) : ∀ l ∈ Expr.linesAll keys, P l := by
  induction h with
  | none => exact nofun
  | index hkey _ ih =>
    simp only [List.cons_append, standing_append, standing_cons] at hts
    obtain ⟨-, hts, -, hus⟩ := hts
    simp only [Expr.linesAll, List.forall_mem_append]
    exact ⟨hkey.lines hts, ih hus⟩

theorem BuildsStep.lines {step : Option Expr} (h : BuildsStep n ts step) (hts : Standing P ts) :
    ∀ l ∈ Expr.linesOption step, P l := by
  cases h with
  | none => exact nofun
  | step he => exact he.lines (standing_cons.1 hts).2

/-- An assignment has no `ABORT`, and its line is the one it was given. -/
theorem BuildsAssignment.lines {s : Statement} (h : BuildsAssignment n line ts s) (hline : P line)
    (hts : Standing P ts) : ∀ l ∈ s.lines, P l := by
  cases h with
  | assign hkeys hvalue =>
    simp only [List.cons_append, standing_append, standing_cons] at hts
    obtain ⟨-, hts, -, hus⟩ := hts
    simp only [Statement.lines, List.forall_mem_cons, List.forall_mem_append]
    exact ⟨hline, hkeys.lines hts, hvalue.lines hus⟩

theorem BuildsLetTail.lines {ss : List Statement} (h : BuildsLetTail n ts ss)
    (hts : Standing P ts) : ∀ l ∈ Statement.linesAll ss, P l := by
  induction h with
  | done => exact nofun
  | assign hs _ ih =>
    obtain ⟨name, at_, more, hmore⟩ := hs.exists_head
    cases hmore
    simp only [List.cons_append, standing_append, standing_cons] at hts
    obtain ⟨-, hfirst, hmore, hus⟩ := hts
    simp only [Statement.linesAll, List.forall_mem_append]
    exact ⟨hs.lines (hfirst nofun) (standing_cons.2 ⟨hfirst, hmore⟩), ih hus⟩

end

/-- The lines of a part of a program. -/
def Part.lines : (p : Part) → p.Tree → List Nat
  | .statement => Statement.lines
  | .item | .sequence | .body => Statement.linesAll

/-- The line of each node of a statement is that of one of its tokens. -/
theorem Builds.lines {p : Part} {n : Nat} {ts : List PlacedToken} {t : p.Tree}
    (h : Builds p n ts t) (hts : Standing P ts) : ∀ l ∈ p.lines t, P l := by
  induction h with
  | printEmpty | dim | returnEmpty | abort | remark =>
    simp only [Part.lines, Statement.lines, Expr.linesAll, Expr.linesOption,
      List.forall_mem_singleton]
    exact (standing_cons.1 hts).1 nofun
  | print hes | return_ hes =>
    obtain ⟨hfirst, hts⟩ := standing_cons.1 hts
    simp only [Part.lines, Statement.lines, Expr.linesOption, List.forall_mem_cons]
    exact ⟨hfirst nofun, hes.lines hts⟩
  | dimKey hkey =>
    simp only [List.cons_append, standing_append, standing_cons] at hts
    obtain ⟨hfirst, -, -, hts, -⟩ := hts
    simp only [Part.lines, Statement.lines, Expr.linesOption, List.forall_mem_cons]
    exact ⟨hfirst nofun, hkey.lines hts⟩
  | if_ hcondition _ ih =>
    simp only [List.cons_append, List.append_assoc, standing_append, standing_cons] at hts
    obtain ⟨hfirst, hts, -, hus, -⟩ := hts
    simp only [Part.lines, Statement.lines, List.forall_mem_cons, List.forall_mem_append]
    exact ⟨hfirst nofun, hcondition.lines hts, ih hus⟩
  | ifElse hcondition _ _ iht ihe =>
    simp only [List.cons_append, List.append_assoc, standing_append, standing_cons] at hts
    obtain ⟨hfirst, hts, -, hus, -, hvs, -⟩ := hts
    simp only [Part.lines, Statement.lines, List.forall_mem_cons, List.forall_mem_append]
    exact ⟨hfirst nofun, ⟨hcondition.lines hts, iht hus⟩, ihe hvs⟩
  | for_ hfirst hlast hstep _ _ ih =>
    simp only [List.cons_append, List.append_assoc, standing_append, standing_cons] at hts
    obtain ⟨hword, -, -, hts, -, hus, hvs, hws, -⟩ := hts
    simp only [Part.lines, Statement.lines, List.forall_mem_cons, List.forall_mem_append]
    exact ⟨hword nofun, ⟨⟨hfirst.lines hts, hlast.lines hus⟩, hstep.lines hvs⟩, ih hws⟩
  | while_ hcondition _ ih =>
    simp only [List.cons_append, List.append_assoc, standing_append, standing_cons] at hts
    obtain ⟨hfirst, hts, hus, -⟩ := hts
    simp only [Part.lines, Statement.lines, List.forall_mem_cons, List.forall_mem_append]
    exact ⟨hfirst nofun, hcondition.lines hts, ih hus⟩
  | call hes | command hes =>
    obtain ⟨hfirst, hts⟩ := standing_cons.1 hts
    simp only [Part.lines, Statement.lines, List.forall_mem_cons]
    exact ⟨hfirst nofun, hes.lines (standing_cons.1 hts).2⟩
  | bareCall hes =>
    obtain ⟨hfirst, hts⟩ := standing_cons.1 hts
    simp only [Part.lines, Statement.lines, List.forall_mem_cons]
    exact ⟨hfirst nofun, hes.lines hts⟩
  | assign hs =>
    obtain ⟨name, at_, more, hmore⟩ := hs.exists_head
    cases hmore
    exact hs.lines ((standing_cons.1 hts).1 nofun) hts
  | single _ ih =>
    simp only [Part.lines, Statement.linesAll, List.append_nil]
    exact ih hts
  | let_ hs hss =>
    simp only [List.cons_append, standing_append, standing_cons] at hts
    obtain ⟨hfirst, hts, hus⟩ := hts
    simp only [Part.lines, Statement.linesAll, List.forall_mem_append]
    exact ⟨hs.lines (hfirst nofun) hts, hss.lines hus⟩
  | done => exact nofun
  | separator _ _ ih => exact ih (standing_cons.1 hts).2
  | cons _ _ _ ihs ihmore =>
    obtain ⟨hts, hus⟩ := standing_append.1 hts
    simp only [Part.lines, Statement.linesAll_append, List.forall_mem_append]
    exact ⟨ihs hts, ihmore hus⟩
  | body _ ih => exact ih hts

/-- The line of each node of a program is that of one of its tokens. -/
theorem BuildsProgram.lines {n : Nat} {ts : List PlacedToken} {p : Program}
    (h : BuildsProgram n ts p) (hts : Standing P ts) : ∀ l ∈ p.lines, P l := by
  induction h with
  | done => exact nofun
  | separator _ _ ih => exact ih (standing_cons.1 hts).2
  | item hitem _ _ ih =>
    obtain ⟨hts, hus⟩ := standing_append.1 hts
    have hrest := ih hus
    simp only [Program.lines, List.forall_mem_append] at hrest
    simp only [Program.lines, Statement.linesAll_append, List.forall_mem_append]
    exact ⟨⟨hitem.lines hts, hrest.1⟩, hrest.2⟩
  | subroutine hsub _ ih =>
    obtain ⟨hts, hus⟩ := standing_append.1 hts
    have hrest := ih hus
    simp only [Program.lines, List.forall_mem_append] at hrest
    simp only [Program.lines, List.flatMap_cons, List.forall_mem_append]
    refine ⟨hrest.1, ?_, hrest.2⟩
    cases hsub with
    | sub _ hbody =>
      simp only [List.cons_append, List.append_assoc, standing_append, standing_cons] at hts
      exact hbody.lines hts.2.2.2.1

/-- **The nodes of a program stand on lines of its source.** -/
theorem lines_of_parse {source : String} {p : Program} (h : Program.parse source = .ok p) :
    ∀ l ∈ p.lines, 1 ≤ l ∧ l ≤ lineCount source.toList := by
  rw [Program.parse_eq] at h
  split at h
  · cases h
  · next ts htokens =>
    split at h
    · next q s' hprogram =>
      cases h
      obtain ⟨-, hbuilds, -⟩ := Parser.topLevel_sound ts [] ts 0 p s' le_rfl
        (Parser.program_eq_ok_iff.1 hprogram)
      refine hbuilds.lines fun t ht hne => ?_
      exact ⟨(tokenize_within htokens t ht).1, le_lineCount_of_tokenize htokens t ht hne⟩
    · cases h

end BasicScript
