/-
  Where the parser fails, and that it closes its levels on every way out.

  * `Located P Q p`: on tokens whose lines satisfy `P`, the parser gives a result with `Q`, or fails
    on a line that satisfies `P` or at an end of input without a place; the tokens left over are
    again such tokens, and as many levels are open as before.
  * Each parser is located if those inside it are, as soon as `P` holds of the line it was given
    (`Located.bind`, `Located.nested`, `commaList_located`, ...); `operandAt_located` and
    `bodyAt_located` go by induction on the levels.
  * `program_located`: the parser of programs puts every end of input on a line.
  * `parse_error_within`: the line of a syntax error is a line of the source.
-/
import BasicScript.Proofs.Token.Lines
import BasicScript.Proofs.Program.Steps

namespace BasicScript

namespace Parser

variable {α β : Type} {P : Nat → Prop} {Q : α → Prop}

/-- The tokens stand on lines that satisfy `P`. -/
def On (P : Nat → Prop) (ts : List PlacedToken) : Prop := ∀ t ∈ ts, P t.line

/-- On tokens whose lines satisfy `P` there is a result with `Q` and such tokens are left over, or
an error on such a line or at an end of input without a place; either way the levels opened are
closed again. -/
def Located (P : Nat → Prop) (Q : α → Prop) (p : Parser α) : Prop :=
  ∀ s, On P s.rest → match p s with
    | .ok a s' => Q a ∧ On P s'.rest ∧ s'.depth = s.depth
    | .error e s' => (P e.line ∨ e.fault = .unexpectedEnd ∧ e.line = 0) ∧ s'.depth = s.depth

/-- A parser of which only the failures matter. -/
abbrev Placed (P : Nat → Prop) (p : Parser α) : Prop := Located P (fun _ => True) p

theorem Located.bind {R : β → Prop} {p : Parser α} {f : α → Parser β} (hp : Located P Q p)
    (hf : ∀ a, Q a → Located P R (f a)) : Located P R (p >>= f) := by
  intro s hs
  have h := hp s hs
  cases hctx : p s with
  | ok a s' =>
    rw [hctx] at h
    obtain ⟨ha, hs', hdepth⟩ := h
    rw [bind_of_ok hctx, ← hdepth]
    exact hf a ha s' hs'
  | error e s' =>
    rw [hctx] at h
    rw [bind_of_error hctx]
    exact h

/-! ## Single tokens -/

theorem pure_located {a : α} (ha : Q a) : Located P Q (pure a) := fun _ hs => ⟨ha, hs, rfl⟩

theorem pure_placed (a : α) : Placed P (pure a) := pure_located trivial

theorem fail_located {fault : ParseFault} {line : Nat} (hline : P line) :
    Located P Q (fail fault line) := fun _ _ => ⟨.inl hline, rfl⟩

theorem unexpected_located {what : Unexpected} {line : Nat} (hline : P line) :
    Located P Q (unexpected what line) := fail_located hline

theorem ranOut_located : Located P Q ranOut := fun _ _ => ⟨.inr ⟨rfl, rfl⟩, rfl⟩

theorem remaining_located : Located P (On P) remaining := fun _ hs => ⟨hs, hs, rfl⟩

theorem on_tail {ts : List PlacedToken} (h : On P ts) : On P ts.tail :=
  fun t ht => h t (List.mem_of_mem_tail ht)

theorem peek?_located : Located P (fun o => ∀ t, o = some t → P t.line) peek? :=
  fun _ hs => ⟨fun t ht => hs t (List.mem_of_mem_head? ht), hs, rfl⟩

theorem next?_located : Located P (fun o => ∀ t, o = some t → P t.line) next? :=
  fun _ hs => ⟨fun t ht => hs t (List.mem_of_mem_head? ht), on_tail hs, rfl⟩

theorem advance_placed : Placed P advance := fun _ hs => ⟨trivial, on_tail hs, rfl⟩

theorem skipSeparators_placed : Placed P skipSeparators :=
  fun _ hs => ⟨trivial, fun t ht => hs t ((List.dropWhile_sublist _).subset ht), rfl⟩

/-- The level that is opened is closed whatever comes out; none is opened at the end of input or past
the last level. -/
theorem Located.nested {p : Parser α} (hp : Located P Q p) : Located P Q (nested p) := by
  rintro ⟨ts, d⟩ hs
  cases ts with
  | nil => exact hp _ hs
  | cons t ts =>
    by_cases hd : d < maxNesting
    · have h := hp ⟨t :: ts, d + 1⟩ hs
      simp only [Parser.nested, if_pos hd]
      cases hctx : p ⟨t :: ts, d + 1⟩ with
      | ok a s' =>
        rw [hctx] at h
        obtain ⟨ha, hs', hdepth⟩ := h
        exact ⟨ha, hs', Nat.sub_eq_of_eq_add hdepth⟩
      | error e s' =>
        rw [hctx] at h
        obtain ⟨hline, hdepth⟩ := h
        exact ⟨hline, Nat.sub_eq_of_eq_add hdepth⟩
    · simp only [Parser.nested, if_neg hd]
      exact ⟨.inl (hs t List.mem_cons_self), trivial⟩

theorem expect_placed {expected : Token} {line : Nat} (hline : P line) :
    Placed P (expect expected line) := by
  refine next?_located.bind fun o ho => ?_
  cases o with
  | none => exact fail_located hline
  | some t =>
    dsimp only
    split
    · exact pure_placed ()
    · exact unexpected_located (ho t rfl)

theorem accept_placed (token : Token) : Placed P (accept token) := by
  refine peek?_located.bind fun o _ => ?_
  cases o with
  | none => exact pure_placed false
  | some t =>
    dsimp only
    split
    · exact advance_placed.bind fun _ _ => pure_placed true
    · exact pure_placed false

theorem nameToken_placed : Placed P nameToken := by
  refine next?_located.bind fun o ho => ?_
  split
  · exact pure_placed _
  · exact unexpected_located (ho _ rfl)
  · exact ranOut_located

theorem peekLine_located {fallback : Nat} (h : P fallback) : Located P P (peekLine fallback) := by
  refine peek?_located.bind fun o ho => ?_
  cases o with
  | none => exact pure_located h
  | some t => exact pure_located (ho t rfl)

theorem atStatementEnd_placed : Placed P atStatementEnd :=
  peek?_located.bind fun _ _ => pure_placed _

theorem expectStatementEnd_placed : Placed P expectStatementEnd := by
  refine peek?_located.bind fun o ho => ?_
  cases o with
  | none => exact pure_placed ()
  | some t =>
    dsimp only
    split
    · exact pure_placed ()
    · exact unexpected_located (ho t rfl)

/-! ## Lists -/

section
variable {item : Parser α} {closing : Token} {line : Nat}

theorem commaTail_placed (hitem : Placed P item) (hline : P line) (bound : List PlacedToken) :
    Placed P (commaTail item closing line bound) := by
  induction bound with
  | nil => exact fail_located hline
  | cons b bound ih =>
    refine next?_located.bind fun o ho => ?_
    cases o with
    | none => exact fail_located hline
    | some t =>
      dsimp only
      split
      · refine hitem.bind fun a _ => ?_
        exact ih.bind fun as _ => pure_placed _
      · split
        · exact pure_placed _
        · exact unexpected_located (ho t rfl)

theorem commaList_placed (hitem : Placed P item) (hline : P line) :
    Placed P (commaList item closing line) := by
  refine (accept_placed closing).bind fun closed _ => ?_
  split
  · exact pure_placed _
  · refine hitem.bind fun a _ => ?_
    refine remaining_located.bind fun bound _ => ?_
    exact (commaTail_placed hitem hline bound).bind fun as _ => pure_placed _

end

/-! ## Expressions -/

section
variable {operand expression : Parser Expr}

theorem peekOperator?_placed (rank : Nat) : Placed P (peekOperator? rank) := by
  refine peek?_located.bind fun o _ => ?_
  cases o with
  | none => exact pure_placed _
  | some t => exact pure_placed _

theorem chain_placed (ho : Placed P operand) (rank : Nat) (bound : List PlacedToken) :
    ∀ left, Placed P (chain operand rank bound left) := by
  induction bound with
  | nil => exact fun left => pure_placed _
  | cons b bound ih =>
    intro left
    refine (peekOperator?_placed rank).bind fun o _ => ?_
    split
    · exact pure_placed _
    · refine advance_placed.bind fun _ _ => ?_
      exact ho.bind fun right _ => ih _

theorem atRank_placed (ho : Placed P operand) (n : Nat) : Placed P (atRank operand n) := by
  induction n with
  | zero => exact ho
  | succ n ih =>
    refine ih.bind fun left _ => ?_
    exact remaining_located.bind fun bound _ => chain_placed ih n bound left

theorem indices_placed (he : Placed P expression) (bound : List PlacedToken) :
    ∀ target, Placed P (indices expression bound target) := by
  induction bound with
  | nil => exact fun target => pure_placed _
  | cons b bound ih =>
    intro target
    refine peek?_located.bind fun o ho => ?_
    split
    · refine advance_placed.bind fun _ _ => ?_
      refine he.bind fun key _ => ?_
      exact (expect_placed (ho _ rfl)).bind fun _ _ => ih _
    · exact pure_placed _

theorem nameOrCall_placed (he : Placed P expression) (name : String) {line : Nat}
    (hline : P line) : Placed P (nameOrCall expression name line) := by
  refine (accept_placed _).bind fun opened _ => ?_
  split
  · exact (commaList_placed he hline).bind fun arguments _ => pure_placed _
  · exact pure_placed _

theorem primary_placed (he : Placed P expression) : Placed P (primary expression) := by
  refine next?_located.bind fun o ho => ?_
  split
  · exact ranOut_located
  · refine he.bind fun e _ => ?_
    exact (expect_placed (ho _ rfl)).bind fun _ _ => pure_placed e
  · exact nameOrCall_placed he _ (ho _ rfl)
  · split
    · exact pure_placed _
    · exact unexpected_located (ho _ rfl)

theorem operandWith_placed (he : Placed P expression) (ho : Placed P operand) :
    Placed P (operandWith expression operand) := by
  refine peek?_located.bind fun o _ => ?_
  split
  · exact ranOut_located
  · split
    · refine advance_placed.bind fun _ _ => ?_
      exact ho.bind fun e _ => pure_placed _
    · refine (primary_placed he).bind fun e _ => ?_
      exact remaining_located.bind fun bound _ => indices_placed he bound e

theorem operandAt_placed (n : Nat) : Placed P (operandAt n) := by
  induction n with
  | zero => exact ranOut_located
  | succ n ih => exact operandWith_placed (atRank_placed ih _).nested ih.nested

end

theorem expression_placed : Placed P expression := (atRank_placed (operandAt_placed _) _).nested

/-! ## Statements -/

theorem targetIndices_placed (bound : List PlacedToken) : Placed P (targetIndices bound) := by
  induction bound with
  | nil => exact pure_placed _
  | cons b bound ih =>
    refine peek?_located.bind fun o ho => ?_
    split
    · refine advance_placed.bind fun _ _ => ?_
      refine expression_placed.bind fun key _ => ?_
      refine (expect_placed (ho _ rfl)).bind fun _ _ => ?_
      exact ih.bind fun keys _ => pure_placed _
    · exact pure_placed _

theorem printTail_placed (bound : List PlacedToken) : Placed P (printTail bound) := by
  induction bound with
  | nil => exact pure_placed _
  | cons b bound ih =>
    refine (accept_placed _).bind fun more _ => ?_
    split
    · refine expression_placed.bind fun e _ => ?_
      exact ih.bind fun es _ => pure_placed _
    · exact pure_placed _

theorem clause?_placed (word : Keyword) : Placed P (clause? word) := by
  refine (accept_placed _).bind fun there _ => ?_
  split
  · rw [map_eq_pure_bind]
    exact expression_placed.bind fun e _ => pure_placed _
  · exact pure_placed _

section
variable {line : Nat}

theorem printStatement_placed : Placed P (printStatement line) := by
  refine atStatementEnd_placed.bind fun ended _ => ?_
  split
  · exact pure_placed _
  · refine expression_placed.bind fun e _ => ?_
    refine remaining_located.bind fun bound _ => ?_
    exact (printTail_placed bound).bind fun es _ => pure_placed _

theorem returnStatement_placed : Placed P (returnStatement line) := by
  refine atStatementEnd_placed.bind fun ended _ => ?_
  split
  · exact pure_placed _
  · exact expression_placed.bind fun value _ => pure_placed _

variable (hline : P line)
include hline

theorem assignment_placed : Placed P (assignment line) := by
  refine nameToken_placed.bind fun name _ => ?_
  refine remaining_located.bind fun bound _ => ?_
  refine (targetIndices_placed bound).bind fun keys _ => ?_
  refine next?_located.bind fun o ho => ?_
  split
  · exact expression_placed.bind fun value _ => pure_placed _
  · exact unexpected_located (ho _ rfl)
  · exact fail_located hline

theorem invocation_placed : Placed P (invocation line) := by
  refine nameToken_placed.bind fun name _ => ?_
  refine (accept_placed _).bind fun opened _ => ?_
  split
  · exact (commaList_placed expression_placed hline).bind fun arguments _ => pure_placed _
  · exact pure_placed _

theorem letTail_placed (bound : List PlacedToken) : Placed P (letTail line bound) := by
  induction bound with
  | nil => exact pure_placed _
  | cons b bound ih =>
    refine (accept_placed _).bind fun more _ => ?_
    split
    · refine (peekLine_located hline).bind fun first hfirst => ?_
      refine (assignment_placed hfirst).bind fun s _ => ?_
      exact ih.bind fun ss _ => pure_placed _
    · exact pure_placed _

theorem nextName_placed (counter : String) : Placed P (nextName counter line) := by
  refine peek?_located.bind fun o _ => ?_
  split
  · split
    · exact advance_placed
    · exact fail_located hline
  · exact pure_placed _

theorem dimStatement_placed : Placed P (dimStatement line) := by
  refine nameToken_placed.bind fun name _ => ?_
  refine (accept_placed _).bind fun opened _ => ?_
  split
  · refine expression_placed.bind fun key _ => ?_
    exact (expect_placed hline).bind fun _ _ => pure_placed _
  · exact pure_placed _

theorem nameStatement_placed : Placed P (nameStatement line) := by
  refine remaining_located.bind fun ts _ => ?_
  split
  · exact (invocation_placed hline).bind fun call _ => pure_placed _
  · exact assignment_placed hline

end

theorem letStatement_placed (hone : P 1) : Placed P letStatement := by
  refine (peekLine_located hone).bind fun line hline => ?_
  refine (expect_placed hline).bind fun _ _ => ?_
  refine (assignment_placed hline).bind fun s _ => ?_
  refine remaining_located.bind fun bound _ => ?_
  refine (letTail_placed hline bound).bind fun ss _ => ?_
  exact expectStatementEnd_placed.bind fun _ _ => pure_placed _

/-- The parser of bodies is located, and so is the word that closes a body. -/
def LocatedBody (P : Nat → Prop) (body : BodyParser) : Prop :=
  ∀ closes line, P line → Located P (fun r => P r.2.line) (body closes line)

section
variable {body : BodyParser} (hbody : LocatedBody P body)
include hbody

theorem ifStatement_placed {line : Nat} (hline : P line) : Placed P (ifStatement body line) := by
  refine expression_placed.bind fun condition _ => ?_
  refine (expect_placed hline).bind fun _ _ => ?_
  refine (hbody _ line hline).bind fun r hr => ?_
  obtain ⟨thenBody, stop⟩ := r
  dsimp only
  split
  · exact (hbody _ stop.line hr).bind fun r _ => pure_placed _
  · exact pure_placed _

theorem whileStatement_placed {line : Nat} (hline : P line) :
    Placed P (whileStatement body line) := by
  refine expression_placed.bind fun condition _ => ?_
  exact (hbody _ line hline).bind fun r _ => pure_placed _

theorem forStatement_placed {line : Nat} (hline : P line) : Placed P (forStatement body line) := by
  rw [forStatement_eq]
  refine nameToken_placed.bind fun counter _ => ?_
  refine (expect_placed hline).bind fun _ _ => ?_
  refine expression_placed.bind fun first _ => ?_
  refine (expect_placed hline).bind fun _ _ => ?_
  refine expression_placed.bind fun last _ => ?_
  refine (clause?_placed .step).bind fun step _ => ?_
  refine (hbody _ line hline).bind fun r hr => ?_
  exact (nextName_placed hr counter).bind fun _ _ => pure_placed _

theorem statementForm_placed : Placed P (statementForm body) := by
  refine peek?_located.bind fun o ho => ?_
  split
  · exact ranOut_located
  · next token line =>
    have hline : P line := ho _ rfl
    cases token with
    | keyword word =>
      cases word with
      | print => exact advance_placed.bind fun _ _ => printStatement_placed
      | dim => exact advance_placed.bind fun _ _ => dimStatement_placed hline
      | if_ => exact advance_placed.bind fun _ _ => ifStatement_placed hbody hline
      | for_ => exact advance_placed.bind fun _ _ => forStatement_placed hbody hline
      | while_ => exact advance_placed.bind fun _ _ => whileStatement_placed hbody hline
      | return_ => exact advance_placed.bind fun _ _ => returnStatement_placed
      | call | command =>
        refine advance_placed.bind fun _ _ => ?_
        exact (invocation_placed hline).bind fun call _ => pure_placed _
      | abort => exact advance_placed.bind fun _ _ => pure_placed _
      | _ => exact fail_located hline
    | remark content => exact advance_placed.bind fun _ _ => pure_placed _
    | name name => exact nameStatement_placed hline
    | symbol symbol => cases symbol <;> exact fail_located hline
    | _ => exact fail_located hline

theorem statementWith_placed : Placed P (statementWith body) := by
  refine (statementForm_placed hbody).bind fun s _ => ?_
  exact expectStatementEnd_placed.bind fun _ _ => pure_placed s

theorem itemWith_placed (hone : P 1) : Placed P (itemWith body) := by
  refine peek?_located.bind fun o _ => ?_
  split
  · exact letStatement_placed hone
  · exact (statementWith_placed hbody).bind fun s _ => pure_placed [s]

end

/-! ## Bodies -/

theorem itemsUntil_located {item : Parser (List Statement)} (hitem : Placed P item)
    (closes : Token → Bool) {line : Nat} (hline : P line) (bound : List PlacedToken) :
    Located P (fun r => P r.2.line) (itemsUntil item closes line bound) := by
  induction bound with
  | nil => exact fail_located hline
  | cons b bound ih =>
    refine skipSeparators_placed.bind fun _ _ => ?_
    refine peek?_located.bind fun o ho => ?_
    cases o with
    | none => exact fail_located hline
    | some t =>
      dsimp only
      split
      · exact advance_placed.bind fun _ _ => pure_located (ho t rfl)
      · refine hitem.bind fun ss _ => ?_
        exact ih.bind fun r hr => pure_located hr

section
variable (hone : P 1)
include hone

theorem bodyAt_located (n : Nat) : LocatedBody P (bodyAt n) := by
  induction n with
  | zero => exact fun _ _ hline => fail_located hline
  | succ n ih =>
    intro closes line hline
    refine remaining_located.bind fun bound _ => ?_
    refine itemsUntil_located (itemWith_placed ?_ hone) closes hline bound
    exact fun closes line hline => (ih closes line hline).nested

theorem body_located : LocatedBody P body :=
  fun closes line hline => (bodyAt_located hone _ closes line hline).nested

/-! ## Programs -/

theorem subroutine_located : Located P (fun s => P s.line) subroutine := by
  refine (peekLine_located hone).bind fun line hline => ?_
  refine (expect_placed hline).bind fun _ _ => ?_
  refine nameToken_placed.bind fun name _ => ?_
  refine (accept_placed _).bind fun opened _ => ?_
  have rest : ∀ params, Located P (fun s => P s.line)
      (body (fun t => t = .keyword .endSub) line >>= fun r =>
        pure (⟨name, params, r.1, line⟩ : Subroutine)) := fun params =>
    (body_located hone _ line hline).bind fun r _ => pure_located hline
  split
  · exact (commaList_placed nameToken_placed hline).bind fun params _ => rest params
  · exact rest []

theorem topLevel_placed (bound : List PlacedToken) :
    ∀ known, Placed P (topLevel known bound) := by
  induction bound with
  | nil => exact fun known => pure_placed _
  | cons b bound ih =>
    intro known
    refine skipSeparators_placed.bind fun _ _ => ?_
    refine peek?_located.bind fun o _ => ?_
    split
    · exact pure_placed _
    · refine (subroutine_located hone).bind fun s hs => ?_
      split
      · exact fail_located hs
      · exact (ih _).bind fun p _ => pure_placed _
    · refine (itemWith_placed (body_located hone) hone).bind fun ss _ => ?_
      exact (ih known).bind fun p _ => pure_placed _

/-- **Every error of a program is on the line of a token**, or on the first line if there is no
token. -/
theorem program_located {s : ParserState} (hs : On P s.rest) : match program s with
    | .ok _ s' => s'.depth = s.depth
    | .error e s' => P e.line ∧ s'.depth = s.depth := by
  have hlast : P (lastLine s.rest) := by
    rw [lastLine]
    cases hlast : s.rest.getLast? with
    | none => exact hone
    | some t => exact hs t (List.mem_of_getLast? hlast)
  have htop := topLevel_placed hone s.rest [] s hs
  rw [program_eq]
  cases hctx : topLevel [] s.rest s with
  | ok p s' =>
    rw [hctx] at htop
    exact htop.2.2
  | error e s' =>
    rw [hctx] at htop
    refine ⟨?_, htop.2⟩
    rw [placeEnd]
    split
    · exact hlast
    · next hplaced => exact htop.1.resolve_right hplaced

end

end Parser

/-- **A syntax error is on a line of the source**: the first, or one behind a line feed.  In
particular none is on line 0, which stands for an end of input without a place. -/
theorem parse_error_within {source : String} {e : ParseError} (h : Program.parse source = .error e) :
    1 ≤ e.line ∧ e.line ≤ 1 + source.toList.count '\n' := by
  rw [Program.parse_eq] at h
  split at h
  · next e₁ htokens =>
    cases h
    exact tokenize_error_within htokens
  · next ts htokens =>
    split at h
    · cases h
    · next e₁ s' hprogram =>
      cases h
      have hline := Parser.program_located (P := Within source.toList) (within_one _)
        (s := ⟨ts, 0⟩) (tokenize_within htokens)
      rw [hprogram] at hline
      exact hline.1

/-- The input runs out behind a `LET` on the second of two lines. -/
theorem missing_target_on_last_line :
    let source := "X = 1\nLET"
    ∃ e, Program.parse source = .error e ∧ e = ⟨.unexpectedEnd, 2⟩ ∧
      1 ≤ e.line ∧ e.line ≤ 1 + source.toList.count '\n' := by
  intro source
  have hcheck : (match Program.parse source with
      | .error e => decide (e = ⟨.unexpectedEnd, 2⟩)
      | .ok _ => false) = true := by
    unfold source
    decide +kernel
  cases hparse : Program.parse source with
  | ok p =>
    rw [hparse] at hcheck
    cases hcheck
  | error e =>
    rw [hparse] at hcheck
    exact ⟨e, rfl, of_decide_eq_true hcheck, parse_error_within hparse⟩

end BasicScript
