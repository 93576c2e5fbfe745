/-
  What the parsers of statements do on the next tokens.

  There is an equation for each choice that a parser makes on the next token, as for expressions.

  * `nextName` is what a `FOR` does behind the body of its loop (`forStatement_eq`).
  * `exists_of_statementForm` lists what statements begin with, `exists_of_subroutine` what
    subroutines do.
-/
import BasicScript.Parser.Program
import BasicScript.Proofs.Parser.Steps
import BasicScript.Proofs.Program.Grammar

namespace BasicScript

theorem isSeparator_iff {token : Token} : token.isSeparator = true ↔ token ∈ separators := by
  cases token with
  | symbol sign => cases sign <;> simp [Token.isSeparator, separators]
  | _ => simp [Token.isSeparator, separators]

namespace Parser

theorem endsStatement_iff {token : Token} :
    endsStatement token = true ↔ token ∈ separators ∨ token ∈ closers := by
  cases token with
  | symbol sign => cases sign <;> simp [endsStatement, separators, closers]
  | keyword word => cases word <;> simp [endsStatement, separators, closers]
  | _ => simp [endsStatement, separators, closers]

variable {α : Type} {rest : List PlacedToken} {d line : Nat} {token : Token} {name : String}
  {b : PlacedToken} {bound : List PlacedToken}

/-! ## Names and ends of statements -/

theorem nameToken_cons {at_ : Nat} : nameToken ⟨⟨.name name, at_⟩ :: rest, d⟩ = .ok name ⟨rest, d⟩ := by
  rw [nameToken, bind_of_ok (m := next?) rfl]
  rfl

theorem nameToken_eq_ok {s' : ParserState} (h : nameToken ⟨rest, d⟩ = .ok name s') :
    s'.depth = d ∧ ∃ at_, rest = ⟨.name name, at_⟩ :: s'.rest := by
  rw [nameToken, bind_of_ok (m := next?) rfl] at h
  rcases rest with - | ⟨⟨token, at_⟩, rest⟩
  · cases h
  · cases token with
    | name found =>
      cases h
      exact ⟨rfl, at_, rfl⟩
    | _ => cases h

theorem atStatementEnd_of_ended (h : Ended rest) :
    atStatementEnd ⟨rest, d⟩ = .ok true ⟨rest, d⟩ := by
  rw [atStatementEnd, bind_of_ok (m := peek?) rfl]
  cases rest with
  | nil => rfl
  | cons t rest =>
    have ht : endsStatement t.token = true := endsStatement_iff.2 (ended_cons.1 h)
    simp only [List.head?_cons, Option.map_some, Option.getD_some, ht]
    rfl

theorem atStatementEnd_of_not_ended (h : ¬ Ended rest) :
    atStatementEnd ⟨rest, d⟩ = .ok false ⟨rest, d⟩ := by
  rw [atStatementEnd, bind_of_ok (m := peek?) rfl]
  cases rest with
  | nil => exact absurd ended_nil h
  | cons t rest =>
    have ht : endsStatement t.token = false :=
      Bool.eq_false_iff.2 fun ht => h (ended_cons.2 (endsStatement_iff.1 ht))
    simp only [List.head?_cons, Option.map_some, Option.getD_some, ht]
    rfl

theorem expectStatementEnd_of_ended (h : Ended rest) :
    expectStatementEnd ⟨rest, d⟩ = .ok () ⟨rest, d⟩ := by
  rw [expectStatementEnd, bind_of_ok (m := peek?) rfl]
  cases rest with
  | nil => rfl
  | cons t rest => exact congrFun (if_pos (endsStatement_iff.2 (ended_cons.1 h))) _

theorem expectStatementEnd_eq_ok {s' : ParserState} {u : Unit}
    (h : expectStatementEnd ⟨rest, d⟩ = .ok u s') : Ended rest ∧ s' = ⟨rest, d⟩ := by
  by_cases hend : Ended rest
  · cases (expectStatementEnd_of_ended hend).symm.trans h
    exact ⟨hend, rfl⟩
  · rw [expectStatementEnd, bind_of_ok (m := peek?) rfl] at h
    cases rest with
    | nil => exact absurd ended_nil hend
    | cons t rest =>
      have ht : ¬ endsStatement t.token = true := fun ht =>
        hend (ended_cons.2 (endsStatement_iff.1 ht))
      cases (congrFun (if_neg ht) _).symm.trans h

/-! ## Parts of statements -/

theorem targetIndices_cons {opening : Nat} :
    targetIndices (b :: bound) ⟨⟨.symbol .leftBracket, opening⟩ :: rest, d⟩ =
      (expression >>= fun key => expect (.symbol .rightBracket) opening >>= fun _ =>
        targetIndices bound >>= fun keys => pure (key :: keys)) ⟨rest, d⟩ := by
  rw [targetIndices, bind_of_ok (m := peek?) rfl]
  rfl

theorem targetIndices_of_headNot (h : HeadNot (· = .symbol .leftBracket) rest) :
    targetIndices bound ⟨rest, d⟩ = .ok [] ⟨rest, d⟩ := by
  cases bound with
  | nil => rfl
  | cons b bound =>
    rw [targetIndices, bind_of_ok (m := peek?) rfl]
    rcases rest with - | ⟨⟨token, l⟩, rest⟩
    · rfl
    · cases token with
      | symbol sign =>
        cases sign with
        | leftBracket => exact absurd (Eq.refl (Token.symbol .leftBracket)) (headNot_cons.1 h)
        | _ => rfl
      | _ => rfl

theorem printTail_cons {comma : Nat} :
    printTail (b :: bound) ⟨⟨.symbol .comma, comma⟩ :: rest, d⟩ =
      (expression >>= fun e => printTail bound >>= fun es => pure (e :: es)) ⟨rest, d⟩ := by
  rw [printTail, bind_of_ok accept_cons]
  rfl

theorem printTail_of_headNot (h : HeadNot (· = .symbol .comma) rest) :
    printTail bound ⟨rest, d⟩ = .ok [] ⟨rest, d⟩ := by
  cases bound with
  | nil => rfl
  | cons b bound =>
    rw [printTail, bind_of_ok (accept_of_headNot h)]
    rfl

theorem clause?_cons {word : Keyword} {at_ : Nat} :
    clause? word ⟨⟨.keyword word, at_⟩ :: rest, d⟩ = (some <$> expression) ⟨rest, d⟩ := by
  rw [clause?, bind_of_ok accept_cons]
  rfl

theorem clause?_of_headNot {word : Keyword} (h : HeadNot (· = .keyword word) rest) :
    clause? word ⟨rest, d⟩ = .ok none ⟨rest, d⟩ := by
  rw [clause?, bind_of_ok (accept_of_headNot h)]
  rfl

theorem letTail_cons {comma : Nat} {t : PlacedToken} :
    letTail line (b :: bound) ⟨⟨.symbol .comma, comma⟩ :: t :: rest, d⟩ =
      (assignment t.line >>= fun s => letTail line bound >>= fun ss => pure (s :: ss))
        ⟨t :: rest, d⟩ := by
  rw [letTail, bind_of_ok accept_cons]
  rfl

theorem letTail_of_headNot (h : HeadNot (· = .symbol .comma) rest) :
    letTail line bound ⟨rest, d⟩ = .ok [] ⟨rest, d⟩ := by
  cases bound with
  | nil => rfl
  | cons b bound =>
    rw [letTail, bind_of_ok (accept_of_headNot h)]
    rfl

theorem invocation_leftParen {at_ opening : Nat} :
    invocation line ⟨⟨.name name, at_⟩ :: ⟨.symbol .leftParen, opening⟩ :: rest, d⟩ =
      (commaList expression (.symbol .rightParen) line >>= fun es => pure (name, es))
        ⟨rest, d⟩ := by
  rw [invocation, bind_of_ok nameToken_cons, bind_of_ok accept_cons]
  rfl

theorem invocation_of_headNot {at_ : Nat} (h : HeadNot (· = .symbol .leftParen) rest) :
    invocation line ⟨⟨.name name, at_⟩ :: rest, d⟩ = .ok (name, []) ⟨rest, d⟩ := by
  rw [invocation, bind_of_ok nameToken_cons, bind_of_ok (accept_of_headNot h)]
  rfl

/-! ## Statements -/

section
variable {body : BodyParser}

theorem printStatement_of_ended (h : Ended rest) :
    printStatement line ⟨rest, d⟩ = .ok (.print [] line) ⟨rest, d⟩ := by
  rw [printStatement, bind_of_ok (atStatementEnd_of_ended h)]
  rfl

theorem printStatement_of_not_ended (h : ¬ Ended rest) :
    printStatement line ⟨rest, d⟩ =
      (expression >>= fun e => remaining >>= fun bound => printTail bound >>= fun es =>
        pure (.print (e :: es) line)) ⟨rest, d⟩ := by
  rw [printStatement, bind_of_ok (atStatementEnd_of_not_ended h)]
  rfl

theorem returnStatement_of_ended (h : Ended rest) :
    returnStatement line ⟨rest, d⟩ = .ok (.return_ none line) ⟨rest, d⟩ := by
  rw [returnStatement, bind_of_ok (atStatementEnd_of_ended h)]
  rfl

theorem returnStatement_of_not_ended (h : ¬ Ended rest) :
    returnStatement line ⟨rest, d⟩ =
      (expression >>= fun value => pure (.return_ (some value) line)) ⟨rest, d⟩ := by
  rw [returnStatement, bind_of_ok (atStatementEnd_of_not_ended h)]
  rfl

theorem dimStatement_leftBracket {at_ opening : Nat} :
    dimStatement line ⟨⟨.name name, at_⟩ :: ⟨.symbol .leftBracket, opening⟩ :: rest, d⟩ =
      (expression >>= fun key => expect (.symbol .rightBracket) line >>= fun _ =>
        pure (.dim name (some key) line)) ⟨rest, d⟩ := by
  rw [dimStatement, bind_of_ok nameToken_cons, bind_of_ok accept_cons]
  rfl

theorem dimStatement_of_headNot {at_ : Nat} (h : HeadNot (· = .symbol .leftBracket) rest) :
    dimStatement line ⟨⟨.name name, at_⟩ :: rest, d⟩ = .ok (.dim name none line) ⟨rest, d⟩ := by
  rw [dimStatement, bind_of_ok nameToken_cons, bind_of_ok (accept_of_headNot h)]
  rfl

/-- The counter behind `NEXT`, which may be left out. -/
def nextName (counter : String) (line : Nat) : Parser Unit := do
  match ← peek? with
  | some ⟨.name found, _⟩ =>
    if found = counter then advance else fail (.mismatchedNext counter found) line
  | _ => pure ()

theorem nextName_cons {counter : String} {at_ : Nat} :
    nextName counter line ⟨⟨.name counter, at_⟩ :: rest, d⟩ = .ok () ⟨rest, d⟩ := by
  rw [nextName, bind_of_ok (m := peek?) rfl]
  exact congrFun (if_pos rfl) _

theorem nextName_of_headNot {counter : String} (h : HeadNot (∃ name, · = .name name) rest) :
    nextName counter line ⟨rest, d⟩ = .ok () ⟨rest, d⟩ := by
  rw [nextName, bind_of_ok (m := peek?) rfl]
  rcases rest with - | ⟨⟨token, l⟩, rest⟩
  · rfl
  · cases token with
    | name name => exact absurd ⟨name, rfl⟩ (headNot_cons.1 h)
    | _ => rfl

theorem nextName_other {counter : String} {at_ : Nat} (hne : name ≠ counter) :
    nextName counter line ⟨⟨.name name, at_⟩ :: rest, d⟩ =
      .error ⟨.mismatchedNext counter name, line⟩ ⟨⟨.name name, at_⟩ :: rest, d⟩ := by
  rw [nextName, bind_of_ok (m := peek?) rfl]
  exact congrFun (if_neg hne) _

/-- The end of a loop as a parser of its own. -/
theorem forStatement_eq :
    forStatement body line = (nameToken >>= fun counter => expect (.symbol .equals) line >>=
      fun _ => expression >>= fun first => expect (.keyword .to_) line >>= fun _ =>
      expression >>= fun last => clause? .step >>= fun step =>
      body (fun t => t = .keyword .next_) line >>= fun r => nextName counter r.2.line >>= fun _ =>
        pure (.for_ counter first last step r.1 line)) := by
  rw [forStatement]
  refine bind_congr fun counter => bind_congr fun _ => bind_congr fun first =>
    bind_congr fun _ => bind_congr fun last => bind_congr fun step => bind_congr fun r => ?_
  simp only [nextName, bind_assoc]
  refine bind_congr fun next => ?_
  rcases next with - | ⟨⟨token, at_⟩⟩
  · rfl
  · cases token with
    | name found => by_cases hfound : found = counter <;> simp only [hfound, if_true, if_false]
    | _ => rfl

theorem nameStatement_leftParen {t : PlacedToken} {opening : Nat} :
    nameStatement line ⟨t :: ⟨.symbol .leftParen, opening⟩ :: rest, d⟩ =
      (invocation line >>= fun call => pure (.call call.1 call.2 line))
        ⟨t :: ⟨.symbol .leftParen, opening⟩ :: rest, d⟩ := by
  rw [nameStatement, bind_of_ok (m := remaining) rfl]

theorem nameStatement_of_headNot {t : PlacedToken} (h : HeadNot (· = .symbol .leftParen) rest) :
    nameStatement line ⟨t :: rest, d⟩ = assignment line ⟨t :: rest, d⟩ := by
  rw [nameStatement, bind_of_ok (m := remaining) rfl]
  rcases rest with - | ⟨⟨token, l⟩, rest⟩
  · rfl
  · cases token with
    | symbol sign =>
      cases sign with
      | leftParen => exact absurd (Eq.refl (Token.symbol .leftParen)) (headNot_cons.1 h)
      | _ => rfl
    | _ => rfl

/-! ### The forms of statements -/

theorem statementForm_print :
    statementForm body ⟨⟨.keyword .print, line⟩ :: rest, d⟩ = printStatement line ⟨rest, d⟩ :=
  rfl

theorem statementForm_dim :
    statementForm body ⟨⟨.keyword .dim, line⟩ :: rest, d⟩ = dimStatement line ⟨rest, d⟩ :=
  rfl

theorem statementForm_if :
    statementForm body ⟨⟨.keyword .if_, line⟩ :: rest, d⟩ = ifStatement body line ⟨rest, d⟩ :=
  rfl

theorem statementForm_for :
    statementForm body ⟨⟨.keyword .for_, line⟩ :: rest, d⟩ = forStatement body line ⟨rest, d⟩ :=
  rfl

theorem statementForm_while :
    statementForm body ⟨⟨.keyword .while_, line⟩ :: rest, d⟩ = whileStatement body line ⟨rest, d⟩ :=
  rfl

theorem statementForm_return :
    statementForm body ⟨⟨.keyword .return_, line⟩ :: rest, d⟩ = returnStatement line ⟨rest, d⟩ :=
  rfl

theorem statementForm_name :
    statementForm body ⟨⟨.name name, line⟩ :: rest, d⟩ =
      nameStatement line ⟨⟨.name name, line⟩ :: rest, d⟩ :=
  rfl

/-- What a statement begins with. -/
theorem exists_of_statementForm {s : Statement} {s' : ParserState}
    (h : statementForm body ⟨rest, d⟩ = .ok s s') :
    ∃ token line more, rest = ⟨token, line⟩ :: more ∧
      ((∃ word ∈ statementWords, token = .keyword word) ∨ (∃ content, token = .remark content) ∨
        ∃ name, token = .name name) := by
  rcases rest with - | ⟨⟨token, line⟩, more⟩
  · cases h
  · refine ⟨token, line, more, rfl, ?_⟩
    cases token with
    | keyword word =>
      refine .inl ⟨word, ?_, rfl⟩
      cases word with
      | print | dim | if_ | for_ | while_ | return_ | call | command | abort => decide
      | _ => cases h
    | symbol sign => cases sign <;> cases h
    | remark content => exact .inr (.inl ⟨content, rfl⟩)
    | name name => exact .inr (.inr ⟨name, rfl⟩)
    | _ => cases h

end

/-! ## Items and bodies -/

section
variable {body : BodyParser}

theorem itemWith_let :
    itemWith body ⟨⟨.keyword .let_, line⟩ :: rest, d⟩ =
      (assignment line >>= fun s => remaining >>= fun bound => letTail line bound >>= fun ss =>
        expectStatementEnd >>= fun _ => pure (s :: ss)) ⟨rest, d⟩ :=
  rfl

theorem itemWith_of_headNot (h : HeadNot (· = .keyword .let_) rest) :
    itemWith body ⟨rest, d⟩ = (statementWith body >>= fun s => pure [s]) ⟨rest, d⟩ := by
  rw [itemWith, bind_of_ok (m := peek?) rfl]
  rcases rest with - | ⟨⟨token, l⟩, rest⟩
  · rfl
  · cases token with
    | keyword word =>
      cases word with
      | let_ => exact absurd (Eq.refl (Token.keyword .let_)) (headNot_cons.1 h)
      | _ => rfl
    | _ => rfl

variable {item : Parser (List Statement)} {closes : Token → Bool}

theorem skipSeparators_eq :
    skipSeparators ⟨rest, d⟩ = .ok () ⟨rest.dropWhile (·.token.isSeparator), d⟩ :=
  rfl

theorem skipSeparators_separator {l : Nat} (hsep : token ∈ separators) :
    skipSeparators ⟨⟨token, l⟩ :: rest, d⟩ = skipSeparators ⟨rest, d⟩ := by
  have hdrop := List.dropWhile_cons_of_pos (p := (·.token.isSeparator)) (a := ⟨token, l⟩)
    (l := rest) (isSeparator_iff.2 hsep)
  rw [skipSeparators_eq, hdrop, skipSeparators_eq]

theorem skipSeparators_of_headNot (h : HeadNot (· ∈ separators) rest) :
    skipSeparators ⟨rest, d⟩ = .ok () ⟨rest, d⟩ := by
  cases rest with
  | nil => rfl
  | cons t rest =>
    have hdrop := List.dropWhile_cons_of_neg (p := (·.token.isSeparator)) (a := t) (l := rest)
      fun ht => headNot_cons.1 h (isSeparator_iff.1 ht)
    rw [skipSeparators_eq, hdrop]

theorem itemsUntil_separator {l : Nat} (hsep : token ∈ separators) :
    itemsUntil item closes line (b :: bound) ⟨⟨token, l⟩ :: rest, d⟩ =
      itemsUntil item closes line (b :: bound) ⟨rest, d⟩ := by
  simp only [itemsUntil, bind, EStateM.bind, skipSeparators_separator hsep]

theorem itemsUntil_closing {t : PlacedToken} (ht : t.token ∉ separators)
    (hcloses : closes t.token = true) :
    itemsUntil item closes line (b :: bound) ⟨t :: rest, d⟩ = .ok ([], t) ⟨rest, d⟩ := by
  rw [itemsUntil, bind_of_ok (skipSeparators_of_headNot (headNot_cons.2 ht)),
    bind_of_ok (m := peek?) rfl]
  simp only [List.head?_cons, hcloses, if_true]
  rfl

theorem itemsUntil_item {t : PlacedToken} (ht : t.token ∉ separators)
    (hcloses : ¬ closes t.token = true) :
    itemsUntil item closes line (b :: bound) ⟨t :: rest, d⟩ =
      (item >>= fun ss => itemsUntil item closes line bound >>= fun r =>
        pure (ss ++ r.1, r.2)) ⟨t :: rest, d⟩ := by
  rw [itemsUntil, bind_of_ok (skipSeparators_of_headNot (headNot_cons.2 ht)),
    bind_of_ok (m := peek?) rfl]
  simp only [List.head?_cons, hcloses]
  rfl

end

/-! ## Programs -/

theorem subroutine_leftParen {at_ opening : Nat} :
    subroutine ⟨⟨.keyword .sub, line⟩ :: ⟨.name name, at_⟩ :: ⟨.symbol .leftParen, opening⟩ :: rest,
        d⟩ =
      (commaList nameToken (.symbol .rightParen) line >>= fun params =>
        body (fun t => t = .keyword .endSub) line >>= fun r => pure ⟨name, params, r.1, line⟩)
        ⟨rest, d⟩ :=
  rfl

theorem subroutine_of_headNot {at_ : Nat} (h : HeadNot (· = .symbol .leftParen) rest) :
    subroutine ⟨⟨.keyword .sub, line⟩ :: ⟨.name name, at_⟩ :: rest, d⟩ =
      (body (fun t => t = .keyword .endSub) line >>= fun r => pure ⟨name, [], r.1, line⟩)
        ⟨rest, d⟩ := by
  rw [subroutine, bind_of_ok (m := peekLine 1) rfl, bind_of_ok expect_cons,
    bind_of_ok nameToken_cons, bind_of_ok (accept_of_headNot h)]
  rfl

/-- What a subroutine begins with. -/
theorem exists_of_subroutine {s : Subroutine} {s' : ParserState}
    (h : subroutine ⟨rest, d⟩ = .ok s s') :
    ∃ line name at_ more, rest = ⟨.keyword .sub, line⟩ :: ⟨.name name, at_⟩ :: more := by
  rw [subroutine, bind_of_ok (m := peekLine 1) rfl] at h
  obtain ⟨_, ⟨more, d₁⟩, hsub, h⟩ := bind_eq_ok_iff.1 h
  obtain ⟨-, line, rfl⟩ := expect_eq_ok hsub
  obtain ⟨name, s₁, hname, -⟩ := bind_eq_ok_iff.1 h
  obtain ⟨-, at_, rfl⟩ := nameToken_eq_ok hname
  exact ⟨line, name, at_, s₁.rest, rfl⟩

section
variable {known : List CallKey}

theorem topLevel_separator {l : Nat} (hsep : token ∈ separators) :
    topLevel known (b :: bound) ⟨⟨token, l⟩ :: rest, d⟩ =
      topLevel known (b :: bound) ⟨rest, d⟩ := by
  simp only [topLevel, bind, EStateM.bind, skipSeparators_separator hsep]

theorem topLevel_sub :
    topLevel known (b :: bound) ⟨⟨.keyword .sub, line⟩ :: rest, d⟩ =
      (subroutine >>= fun s =>
        if s.key ∈ known then fail (.duplicateSubroutine s.name s.params.length) s.line
        else topLevel (s.key :: known) bound >>= fun p =>
          pure { p with subroutines := s :: p.subroutines })
        ⟨⟨.keyword .sub, line⟩ :: rest, d⟩ :=
  rfl

theorem topLevel_item {t : PlacedToken} (ht : t.token ∉ separators)
    (hsub : t.token ≠ .keyword .sub) :
    topLevel known (b :: bound) ⟨t :: rest, d⟩ =
      (itemWith body >>= fun ss => topLevel known bound >>= fun p =>
        pure { p with statements := ss ++ p.statements }) ⟨t :: rest, d⟩ := by
  rw [topLevel, bind_of_ok (skipSeparators_of_headNot (headNot_cons.2 ht)),
    bind_of_ok (m := peek?) rfl]
  obtain ⟨token, l⟩ := t
  cases token with
  | keyword word =>
    cases word with
    | sub => exact absurd rfl hsub
    | _ => rfl
  | _ => rfl

/-- The line of the last token. -/
def lastLine (ts : List PlacedToken) : Nat := (ts.getLast?.map (·.line)).getD 1

/-- A program is what stands at the top level; only its errors are given a place. -/
theorem program_eq (s : ParserState) :
    program s = match topLevel [] s.rest s with
      | .ok p s' => .ok p s'
      | .error e s' => .error (placeEnd (lastLine s.rest) e) s' := by
  rw [program, bind_of_ok (m := remaining) rfl]
  show EStateM.tryCatch (topLevel [] s.rest) _ s = _
  delta EStateM.tryCatch
  cases topLevel [] s.rest s <;> rfl

theorem program_eq_ok_iff {p : Program} {s s' : ParserState} :
    program s = .ok p s' ↔ topLevel [] s.rest s = .ok p s' := by
  rw [program_eq]
  cases topLevel [] s.rest s <;> simp

end

end Parser

/-- A source is parsed if it gives tokens and these give a program. -/
theorem Program.parse_eq (source : String) :
    Program.parse source = match tokenize source with
      | .error e => .error e
      | .ok ts => match Parser.program ⟨ts, 0⟩ with
        | .ok p _ => .ok p
        | .error e _ => .error e := by
  rw [Program.parse]
  cases tokenize source with
  | error e => rfl
  | ok ts =>
    simp only [bind, Except.bind, Parser.parseTokens]
    cases Parser.program ⟨ts, 0⟩ <;> rfl

end BasicScript
