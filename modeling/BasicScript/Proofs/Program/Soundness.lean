/-
  What the parsers of statements and programs read is derived by the grammar.

  * Each parser of a part of a statement is sound for it (`assignment_sound`, `ifStatement_sound`,
    ...), the parsers of statements with bodies if the parser of bodies is (`SoundBody`).
  * `SoundItem item`: moreover the item is followed by an end of statement.
  * `bodyAt_sound`: so are the parsers of bodies, by induction on the levels; `body_sound` is the one
    of whole programs.
  * `topLevel_sound`: a program is read to its last token, and no two subroutines share a key.
-/
import BasicScript.Proofs.Parser.Soundness
import BasicScript.Proofs.Program.Steps

namespace BasicScript

namespace Parser

variable {α : Type}

/-! ## Parts of statements -/

theorem nameToken_sound :
    Sound (fun _ ts name => ∃ at_, ts = [⟨.name name, at_⟩]) nameToken := by
  intro rest d name s' h
  obtain ⟨hdepth, at_, rfl⟩ := nameToken_eq_ok h
  exact ⟨hdepth, [⟨.name name, at_⟩], rfl, at_, rfl⟩

section
variable {β : Type} {rest : List PlacedToken} {d : Nat} {b : β} {s' : ParserState}

/-- A name that was read when another parser goes on. -/
theorem exists_of_nameToken_bind {f : String → Parser β}
    (h : (nameToken >>= f) ⟨rest, d⟩ = .ok b s') :
    ∃ name at_ more, rest = ⟨.name name, at_⟩ :: more ∧ f name ⟨more, d⟩ = .ok b s' := by
  obtain ⟨name, _, more, rfl, ⟨at_, rfl⟩, hf⟩ := nameToken_sound.of_bind h
  exact ⟨name, at_, more, rfl, hf⟩

/-- A token that was due and read when another parser goes on. -/
theorem exists_of_expect_bind {token : Token} {line : Nat} {f : Unit → Parser β}
    (h : (expect token line >>= f) ⟨rest, d⟩ = .ok b s') :
    ∃ at_ more, rest = ⟨token, at_⟩ :: more ∧ f () ⟨more, d⟩ = .ok b s' := by
  obtain ⟨_, _, more, rfl, ⟨at_, rfl⟩, hf⟩ := (expect_sound _ _).of_bind h
  exact ⟨at_, more, rfl, hf⟩

end

theorem targetIndices_sound (bound : List PlacedToken) :
    Sound BuildsIndices (targetIndices bound) := by
  induction bound with
  | nil =>
    rintro rest d keys s' h
    cases h
    exact ⟨rfl, [], rfl, .none⟩
  | cons b bound ih =>
    rintro rest d keys s' h
    by_cases hhead : HeadNot (· = .symbol .leftBracket) rest
    · rw [targetIndices_of_headNot hhead] at h
      cases h
      exact ⟨rfl, [], rfl, .none⟩
    · obtain ⟨_, opening, rest, rfl, rfl⟩ := exists_of_not_headNot hhead
      rw [targetIndices_cons] at h
      obtain ⟨key, ts, more, rfl, hts, h⟩ := expression_sound.of_bind h
      obtain ⟨closing, more, rfl, h⟩ := exists_of_expect_bind h
      obtain ⟨keys, us, more, rfl, hus, h⟩ := ih.of_bind h
      cases h
      exact ⟨rfl, ⟨.symbol .leftBracket, opening⟩ :: ts ++ ⟨.symbol .rightBracket, closing⟩ :: us,
        by simp, .index hts hus⟩

theorem assignment_sound (line : Nat) : Sound (BuildsAssignment · line) (assignment line) := by
  intro rest d s s' h
  rw [assignment] at h
  obtain ⟨name, at_, more, rfl, hkeys⟩ := exists_of_nameToken_bind h
  rw [bind_of_ok (m := remaining) rfl] at hkeys
  obtain ⟨keys, ts, more, rfl, hts, h⟩ := (targetIndices_sound _).of_bind hkeys
  rw [bind_of_ok (m := next?) rfl] at h
  rcases more with - | ⟨⟨token, equals⟩, more⟩
  · cases h
  · cases token with
    | symbol sign =>
      cases sign with
      | equals =>
        obtain ⟨value, us, more, rfl, hus, h⟩ := expression_sound.of_bind h
        cases h
        exact ⟨rfl, ⟨.name name, at_⟩ :: ts ++ ⟨.symbol .equals, equals⟩ :: us, by simp,
          .assign hts hus⟩
      | _ => cases h
    | _ => cases h

theorem letTail_sound (line : Nat) (bound : List PlacedToken) :
    Sound BuildsLetTail (letTail line bound) := by
  induction bound with
  | nil =>
    rintro rest d ss s' h
    cases h
    exact ⟨rfl, [], rfl, .done⟩
  | cons b bound ih =>
    rintro rest d ss s' h
    by_cases hhead : HeadNot (· = .symbol .comma) rest
    · rw [letTail_of_headNot hhead] at h
      cases h
      exact ⟨rfl, [], rfl, .done⟩
    · obtain ⟨_, comma, rest, rfl, rfl⟩ := exists_of_not_headNot hhead
      cases rest with
      | nil =>
        cases h
      | cons t rest =>
        rw [letTail_cons] at h
        obtain ⟨s, ts, more, hmore, hts, htail⟩ := (assignment_sound t.line).of_bind h
        obtain ⟨name, at_, ts, rfl⟩ := hts.exists_head
        cases hmore
        obtain ⟨ss, us, more, rfl, hus, hdone⟩ := ih.of_bind htail
        cases hdone
        exact ⟨rfl, ⟨.symbol .comma, comma⟩ :: ⟨.name name, at_⟩ :: ts ++ us, by simp,
          .assign hts hus⟩

/-- A list of arguments behind its opening parenthesis. -/
theorem argumentsInParens_sound (line opening : Nat) :
    Sound (fun n ts es => BuildsArguments n (⟨.symbol .leftParen, opening⟩ :: ts) es)
      (commaList expression (.symbol .rightParen) line) := by
  intro rest d es s' h
  obtain ⟨hdepth, ts, rfl, closing, hts⟩ := arguments_sound expression_sound line _ _ _ _ h
  refine ⟨hdepth, ts, rfl, ?_⟩
  rcases hts with ⟨rfl, rfl⟩ | ⟨us, rfl, hus⟩
  · exact .empty
  · exact .list hus

theorem invocation_sound (line : Nat) :
    Sound (fun n ts (call : String × List Expr) => ∃ at_ us, ts = ⟨.name call.1, at_⟩ :: us ∧
      BuildsInvocation n us call.2) (invocation line) := by
  intro rest d call s' h
  obtain ⟨name, at_, more, rfl, -⟩ := exists_of_nameToken_bind h
  by_cases hhead : HeadNot (· = .symbol .leftParen) more
  · rw [invocation_of_headNot hhead] at h
    cases h
    exact ⟨rfl, [⟨.name name, at_⟩], rfl, at_, [], rfl, .bare⟩
  · obtain ⟨_, opening, more, rfl, rfl⟩ := exists_of_not_headNot hhead
    rw [invocation_leftParen] at h
    obtain ⟨es, us, more, rfl, hus, h⟩ := (argumentsInParens_sound line opening).of_bind h
    cases h
    exact ⟨rfl, ⟨.name name, at_⟩ :: ⟨.symbol .leftParen, opening⟩ :: us, rfl, at_, _, rfl,
      .arguments hus⟩

theorem printTail_sound (bound : List PlacedToken) :
    Sound (fun n us es => ∀ ts e, Derives .expression n ts e →
      Derives .arguments n (ts ++ us) (e :: es)) (printTail bound) := by
  induction bound with
  | nil =>
    rintro rest d es s' h
    cases h
    exact ⟨rfl, [], rfl, fun ts e hts => (List.append_nil ts).symm ▸ .lastArgument hts⟩
  | cons b bound ih =>
    rintro rest d es s' h
    by_cases hhead : HeadNot (· = .symbol .comma) rest
    · rw [printTail_of_headNot hhead] at h
      cases h
      exact ⟨rfl, [], rfl, fun ts e hts => (List.append_nil ts).symm ▸ .lastArgument hts⟩
    · obtain ⟨_, comma, rest, rfl, rfl⟩ := exists_of_not_headNot hhead
      rw [printTail_cons] at h
      obtain ⟨e', us, more, rfl, hus, h⟩ := expression_sound.of_bind h
      obtain ⟨es, vs, more, rfl, hvs, h⟩ := ih.of_bind h
      cases h
      exact ⟨rfl, ⟨.symbol .comma, comma⟩ :: us ++ vs, by simp, fun ts e hts =>
        .argument hts (hvs us e' hus)⟩

theorem step_sound : Sound BuildsStep (clause? .step) := by
  intro rest d step s' h
  by_cases hhead : HeadNot (· = .keyword .step) rest
  · rw [clause?_of_headNot hhead] at h
    cases h
    exact ⟨rfl, [], rfl, .none⟩
  · obtain ⟨_, word, rest, rfl, rfl⟩ := exists_of_not_headNot hhead
    rw [clause?_cons, map_eq_pure_bind] at h
    obtain ⟨e, ts, more, rfl, hts, h⟩ := expression_sound.of_bind h
    cases h
    exact ⟨rfl, ⟨.keyword .step, word⟩ :: ts, rfl, .step hts⟩

theorem nextName_sound (counter : String) (line : Nat) :
    Sound (fun _ ts _ => ∀ word, BuildsNext counter (⟨.keyword .next_, word⟩ :: ts))
      (nextName counter line) := by
  intro rest d u s' h
  by_cases hhead : HeadNot (∃ name, · = .name name) rest
  · rw [nextName_of_headNot hhead] at h
    cases h
    exact ⟨rfl, [], rfl, fun _ => .bare⟩
  · obtain ⟨_, at_, rest, rfl, name, rfl⟩ := exists_of_not_headNot hhead
    by_cases hname : name = counter
    · obtain rfl := hname
      rw [nextName_cons] at h
      cases h
      exact ⟨rfl, [⟨.name name, at_⟩], rfl, fun _ => .named⟩
    · rw [nextName_other hname] at h
      cases h

/-! ## Statements -/

/-- Statements whose parser begins behind their first token. -/
abbrev SoundBehind (t : PlacedToken) (p : Parser Statement) : Prop :=
  Sound (fun n ts s => Builds .statement n (t :: ts) s) p

theorem SoundBehind.statement {t : PlacedToken} {p : Parser Statement} {rest : List PlacedToken}
    {d : Nat} {s : Statement} {s' : ParserState} (hp : SoundBehind t p)
    (h : p ⟨rest, d⟩ = .ok s s') :
    s'.depth = d ∧ ∃ ts, t :: rest = ts ++ s'.rest ∧ Builds .statement (maxNesting - d) ts s := by
  obtain ⟨hdepth, ts, hrest, hts⟩ := hp _ _ _ _ h
  exact ⟨hdepth, t :: ts, congrArg (t :: ·) hrest, hts⟩

theorem printStatement_sound (line : Nat) :
    SoundBehind ⟨.keyword .print, line⟩ (printStatement line) := by
  intro rest d s s' h
  by_cases hend : Ended rest
  · rw [printStatement_of_ended hend] at h
    cases h
    exact ⟨rfl, [], rfl, .printEmpty⟩
  · rw [printStatement_of_not_ended hend] at h
    obtain ⟨e, ts, more, rfl, hts, h⟩ := expression_sound.of_bind h
    rw [bind_of_ok (m := remaining) rfl] at h
    obtain ⟨es, us, more, rfl, hus, h⟩ := (printTail_sound _).of_bind h
    cases h
    exact ⟨rfl, ts ++ us, by simp, .print (hus ts e hts)⟩

theorem returnStatement_sound (line : Nat) :
    SoundBehind ⟨.keyword .return_, line⟩ (returnStatement line) := by
  intro rest d s s' h
  by_cases hend : Ended rest
  · rw [returnStatement_of_ended hend] at h
    cases h
    exact ⟨rfl, [], rfl, .returnEmpty⟩
  · rw [returnStatement_of_not_ended hend] at h
    obtain ⟨value, ts, more, rfl, hts, h⟩ := expression_sound.of_bind h
    cases h
    exact ⟨rfl, ts, rfl, .return_ hts⟩

theorem dimStatement_sound (line : Nat) :
    SoundBehind ⟨.keyword .dim, line⟩ (dimStatement line) := by
  intro rest d s s' h
  obtain ⟨name, at_, more, rfl, -⟩ := exists_of_nameToken_bind h
  by_cases hhead : HeadNot (· = .symbol .leftBracket) more
  · rw [dimStatement_of_headNot hhead] at h
    cases h
    exact ⟨rfl, [⟨.name name, at_⟩], rfl, .dim⟩
  · obtain ⟨_, opening, more, rfl, rfl⟩ := exists_of_not_headNot hhead
    rw [dimStatement_leftBracket] at h
    obtain ⟨key, ts, more, rfl, hts, h⟩ := expression_sound.of_bind h
    obtain ⟨closing, more, rfl, h⟩ := exists_of_expect_bind h
    cases h
    refine ⟨rfl, ⟨.name name, at_⟩ :: ⟨.symbol .leftBracket, opening⟩ :: ts ++
      [⟨.symbol .rightBracket, closing⟩], by simp, ?_⟩
    exact .dimKey hts

/-- A name with its arguments behind the word of a statement. -/
theorem invocationStatement_sound {t : PlacedToken} {make : String → List Expr → Statement}
    (line : Nat) (hmake : ∀ {n at_ us name es}, BuildsInvocation n us es →
      Builds .statement n (t :: ⟨.name name, at_⟩ :: us) (make name es)) :
    SoundBehind t (invocation line >>= fun call => pure (make call.1 call.2)) := by
  intro rest d s s' h
  obtain ⟨⟨name, es⟩, _, more, rfl, ⟨at_, us, rfl, hus⟩, hcall⟩ :=
    (invocation_sound line).of_bind h
  cases hcall
  exact ⟨rfl, ⟨.name name, at_⟩ :: us, rfl, hmake hus⟩

theorem nameStatement_sound (name : String) (line : Nat) {rest : List PlacedToken} {d : Nat}
    {s : Statement} {s' : ParserState}
    (h : nameStatement line ⟨⟨.name name, line⟩ :: rest, d⟩ = .ok s s') :
    s'.depth = d ∧ ∃ ts, ⟨.name name, line⟩ :: rest = ts ++ s'.rest ∧
      Builds .statement (maxNesting - d) ts s := by
  by_cases hhead : HeadNot (· = .symbol .leftParen) rest
  · rw [nameStatement_of_headNot hhead] at h
    obtain ⟨hdepth, ts, hrest, hts⟩ := assignment_sound line _ _ _ _ h
    refine ⟨hdepth, ts, hrest, ?_⟩
    obtain ⟨_, _, more, rfl⟩ := hts.exists_head
    cases hrest
    exact .assign hts
  · obtain ⟨_, opening, more, rfl, rfl⟩ := exists_of_not_headNot hhead
    rw [nameStatement_leftParen] at h
    obtain ⟨call, s₁, hcall, h⟩ := bind_eq_ok_iff.1 h
    rw [invocation_leftParen] at hcall
    obtain ⟨es, us, more, rfl, hus, hcall⟩ := (argumentsInParens_sound line opening).of_bind hcall
    cases hcall
    cases h
    exact ⟨rfl, ⟨.name name, line⟩ :: ⟨.symbol .leftParen, opening⟩ :: us, rfl, .bareCall hus⟩

/-! ## Statements with bodies -/

/-- The parser of bodies reads a body and a token that closes it. -/
def SoundBody (body : BodyParser) : Prop :=
  ∀ closes line, Sound (fun n ts (r : List Statement × PlacedToken) => ∃ us, ts = us ++ [r.2] ∧
    closes r.2.token = true ∧ Builds .body n us r.1) (body closes line)

section
variable {body : BodyParser} (hbody : SoundBody body)
include hbody

/-- A body that was read when another parser goes on. -/
theorem SoundBody.of_bind {β : Type} {closes : Token → Bool} {line d : Nat}
    {f : List Statement × PlacedToken → Parser β} {rest : List PlacedToken} {b : β}
    {s' : ParserState} (h : (body closes line >>= f) ⟨rest, d⟩ = .ok b s') :
    ∃ ss token at_ us more, rest = us ++ ⟨token, at_⟩ :: more ∧ closes token = true ∧
      Builds .body (maxNesting - d) us ss ∧ f (ss, ⟨token, at_⟩) ⟨more, d⟩ = .ok b s' := by
  obtain ⟨⟨ss, token, at_⟩, _, more, rfl, ⟨us, rfl, hstop, hus⟩, hf⟩ := (hbody _ _).of_bind h
  exact ⟨ss, token, at_, us, more, by simp, hstop, hus, hf⟩

theorem whileStatement_sound (line : Nat) :
    SoundBehind ⟨.keyword .while_, line⟩ (whileStatement body line) := by
  intro rest d s s' h
  rw [whileStatement] at h
  obtain ⟨condition, ts, more, rfl, hts, h⟩ := expression_sound.of_bind h
  obtain ⟨ss, _, wend, us, more, rfl, hstop, hus, h⟩ := hbody.of_bind h
  obtain rfl := of_decide_eq_true hstop
  cases h
  refine ⟨rfl, ts ++ us ++ [⟨.keyword .wend, wend⟩], by simp, ?_⟩
  exact .while_ hts hus

theorem ifStatement_sound (line : Nat) :
    SoundBehind ⟨.keyword .if_, line⟩ (ifStatement body line) := by
  intro rest d s s' h
  rw [ifStatement] at h
  obtain ⟨condition, ts, more, rfl, hts, h⟩ := expression_sound.of_bind h
  obtain ⟨then_, more, rfl, h⟩ := exists_of_expect_bind h
  obtain ⟨thenBody, token, end_, us, more, rfl, hstop, hus, h⟩ := hbody.of_bind h
  have htoken : token = .keyword .else_ ∨ token = .keyword .endIf := by simpa using hstop
  rcases htoken with rfl | rfl
  · obtain ⟨elseBody, _, endIf, vs, more, rfl, hstop, hvs, h⟩ := hbody.of_bind h
    obtain rfl := of_decide_eq_true hstop
    cases h
    refine ⟨rfl, ts ++ ⟨.keyword .then_, then_⟩ :: us ++ ⟨.keyword .else_, end_⟩ :: vs ++
      [⟨.keyword .endIf, endIf⟩], by simp, ?_⟩
    exact .ifElse hts hus hvs
  · cases h
    refine ⟨rfl, ts ++ ⟨.keyword .then_, then_⟩ :: us ++ [⟨.keyword .endIf, end_⟩], by simp, ?_⟩
    exact .if_ hts hus

theorem forStatement_sound (line : Nat) :
    SoundBehind ⟨.keyword .for_, line⟩ (forStatement body line) := by
  intro rest d s s' h
  rw [forStatement_eq] at h
  obtain ⟨counter, at_, more, rfl, h⟩ := exists_of_nameToken_bind h
  obtain ⟨equals, more, rfl, h⟩ := exists_of_expect_bind h
  obtain ⟨first, ts, more, rfl, hts, h⟩ := expression_sound.of_bind h
  obtain ⟨to_, more, rfl, h⟩ := exists_of_expect_bind h
  obtain ⟨last, us, more, rfl, hus, h⟩ := expression_sound.of_bind h
  obtain ⟨step, vs, more, rfl, hvs, h⟩ := step_sound.of_bind h
  obtain ⟨ss, _, word, ws, more, rfl, hstop, hws, h⟩ := hbody.of_bind h
  obtain rfl := of_decide_eq_true hstop
  obtain ⟨_, xs, more, rfl, hxs, h⟩ := (nextName_sound counter _).of_bind h
  cases h
  refine ⟨rfl, ⟨.name counter, at_⟩ :: ⟨.symbol .equals, equals⟩ :: ts ++ ⟨.keyword .to_, to_⟩ ::
    us ++ vs ++ ws ++ ⟨.keyword .next_, word⟩ :: xs, by simp, ?_⟩
  exact .for_ hts hus hvs hws (hxs word)

/-! ## Items and bodies -/

theorem statementForm_sound : Sound (Builds .statement) (statementForm body) := by
  intro rest d s s' h
  obtain ⟨_, line, more, rfl, ⟨word, hword, rfl⟩ | ⟨content, rfl⟩ | ⟨name, rfl⟩⟩ :=
    exists_of_statementForm h
  · cases word with
    | print => exact (printStatement_sound line).statement h
    | dim => exact (dimStatement_sound line).statement h
    | if_ => exact (ifStatement_sound hbody line).statement h
    | for_ => exact (forStatement_sound hbody line).statement h
    | while_ => exact (whileStatement_sound hbody line).statement h
    | return_ => exact (returnStatement_sound line).statement h
    | call => exact (invocationStatement_sound line .call).statement h
    | command => exact (invocationStatement_sound line .command).statement h
    | abort =>
      cases h
      exact ⟨rfl, [⟨.keyword .abort, line⟩], rfl, .abort⟩
    | _ => exact absurd hword (by decide)
  · cases h
    exact ⟨rfl, [⟨.remark content, line⟩], rfl, .remark⟩
  · exact nameStatement_sound name line h

end

/-- The parser of items reads an item, and an end of statement comes next. -/
def SoundItem (item : Parser (List Statement)) : Prop :=
  ∀ rest d ss s', item ⟨rest, d⟩ = .ok ss s' → s'.depth = d ∧ Ended s'.rest ∧
    ∃ ts, rest = ts ++ s'.rest ∧ Builds .item (maxNesting - d) ts ss

/-- An item that was read when another parser goes on. -/
theorem SoundItem.of_bind {β : Type} {item : Parser (List Statement)} {d : Nat}
    {f : List Statement → Parser β} {rest : List PlacedToken} {b : β} {s' : ParserState}
    (hitem : SoundItem item) (h : (item >>= f) ⟨rest, d⟩ = .ok b s') :
    ∃ ss ts more, rest = ts ++ more ∧ Ended more ∧ Builds .item (maxNesting - d) ts ss ∧
      f ss ⟨more, d⟩ = .ok b s' := by
  obtain ⟨ss, ⟨more, d₁⟩, hss, hf⟩ := bind_eq_ok_iff.1 h
  obtain ⟨rfl, hend, ts, rfl, hts⟩ := hitem _ _ _ _ hss
  exact ⟨ss, ts, more, rfl, hend, hts, hf⟩

theorem letStatement_sound (line : Nat) {rest : List PlacedToken} {d : Nat} {ss : List Statement}
    {s' : ParserState} {body : BodyParser}
    (h : itemWith body ⟨⟨.keyword .let_, line⟩ :: rest, d⟩ = .ok ss s') :
    s'.depth = d ∧ Ended s'.rest ∧ ∃ ts, ⟨.keyword .let_, line⟩ :: rest = ts ++ s'.rest ∧
      Builds .item (maxNesting - d) ts ss := by
  rw [itemWith_let] at h
  obtain ⟨s, ts, more, rfl, hts, h⟩ := (assignment_sound line).of_bind h
  rw [bind_of_ok (m := remaining) rfl] at h
  obtain ⟨ss, us, more, rfl, hus, h⟩ := (letTail_sound line _).of_bind h
  obtain ⟨_, s₁, hcheck, h⟩ := bind_eq_ok_iff.1 h
  obtain ⟨hend, rfl⟩ := expectStatementEnd_eq_ok hcheck
  cases h
  exact ⟨rfl, hend, ⟨.keyword .let_, line⟩ :: ts ++ us, by simp, .let_ hts hus⟩

theorem itemWith_sound {body : BodyParser} (hbody : SoundBody body) : SoundItem (itemWith body) := by
  intro rest d ss s' h
  by_cases hhead : HeadNot (· = .keyword .let_) rest
  · rw [itemWith_of_headNot hhead] at h
    obtain ⟨s, s₁, hs, h⟩ := bind_eq_ok_iff.1 h
    cases h
    obtain ⟨s, ts, more, rfl, hts, h⟩ := (statementForm_sound hbody).of_bind hs
    obtain ⟨_, s₁, hcheck, h⟩ := bind_eq_ok_iff.1 h
    obtain ⟨hend, rfl⟩ := expectStatementEnd_eq_ok hcheck
    cases h
    exact ⟨rfl, hend, ts, rfl, .single hts⟩
  · obtain ⟨_, line, rest, rfl, rfl⟩ := exists_of_not_headNot hhead
    exact letStatement_sound line h

theorem itemsUntil_sound {item : Parser (List Statement)} (hitem : SoundItem item)
    (closes : Token → Bool) (line : Nat) (bound : List PlacedToken) :
    Sound (fun n ts (r : List Statement × PlacedToken) => ∃ us, ts = us ++ [r.2] ∧
      closes r.2.token = true ∧ Builds .sequence n us r.1) (itemsUntil item closes line bound) := by
  induction bound with
  | nil =>
    rintro rest d r s' h
    cases h
  | cons b bound ih =>
    intro rest
    induction rest with
    | nil =>
      rintro d r s' h
      cases h
    | cons t rest ihrest =>
      rintro d r s' h
      by_cases hsep : t.token ∈ separators
      · rw [itemsUntil_separator hsep] at h
        obtain ⟨hdepth, _, rfl, us, rfl, hstop, hus⟩ := ihrest _ _ _ h
        exact ⟨hdepth, t :: us ++ [r.2], by simp, t :: us, rfl, hstop, .separator hsep hus⟩
      · by_cases hcloses : closes t.token = true
        · rw [itemsUntil_closing hsep hcloses] at h
          cases h
          exact ⟨rfl, [t], rfl, [], rfl, hcloses, .done⟩
        · rw [itemsUntil_item hsep hcloses] at h
          obtain ⟨ss, ts, more, hrest, hend, hts, h⟩ := hitem.of_bind h
          obtain ⟨⟨more', stop⟩, _, rest', rfl, ⟨us, rfl, hstop, hus⟩, hdone⟩ := ih.of_bind h
          cases hdone
          refine ⟨rfl, ts ++ us ++ [stop], by simp [hrest], ts ++ us, rfl, hstop, ?_⟩
          rw [List.append_assoc] at hend
          exact .cons hts (Ended.of_append hend) hus

/-- A body derives within the levels that are left, however many the parser is made for. -/
theorem bodyAt_sound (n : Nat) : SoundBody fun closes line => nested (bodyAt n closes line) := by
  induction n with
  | zero =>
    intro closes line
    refine nested_sound (G := fun _ _ _ => False) ?_ ?_ ?_
    · rintro rest d r s' h
      cases h
    · exact fun _ _ h => h
    · exact fun _ _ _ h => h.elim
  | succ n ih =>
    intro closes line
    refine nested_sound (G := fun n ts (r : List Statement × PlacedToken) => ∃ us, ts = us ++ [r.2] ∧
      closes r.2.token = true ∧ Builds .sequence n us r.1) ?_ ?_ ?_
    · intro rest d r s' h
      exact itemsUntil_sound (itemWith_sound ih) closes line rest rest d r s' h
    · rintro m r ⟨us, hus, -⟩
      simp at hus
    · rintro m ts r ⟨us, rfl, hstop, hus⟩
      exact ⟨us, rfl, hstop, .body hus⟩

theorem body_sound : SoundBody body := bodyAt_sound (maxNesting + 1)

/-! ## Programs -/

theorem parameters_sound (line : Nat) :
    Sound (fun _ us names => ∀ opening, BuildsParameters (⟨.symbol .leftParen, opening⟩ :: us) names)
      (commaList nameToken (.symbol .rightParen) line) := by
  intro rest d names s' h
  obtain ⟨hdepth, us, rfl, closing, hus⟩ :=
    commaList_sound (L := fun _ ts names => BuildsNames ts names) nameToken_sound
      (by rintro _ _ name ⟨at_, rfl⟩; exact .last name)
      (by rintro _ _ _ _ name _ ⟨at_, rfl⟩ hus; exact .cons name hus) line _ _ _ _ h
  refine ⟨hdepth, us, rfl, fun opening => ?_⟩
  rcases hus with ⟨rfl, rfl⟩ | ⟨vs, rfl, hvs⟩
  · exact .empty
  · exact .list hvs

theorem subroutine_sound : Sound BuildsSubroutine subroutine := by
  intro rest d s s' h
  obtain ⟨line, name, at_, more, rfl⟩ := exists_of_subroutine h
  by_cases hhead : HeadNot (· = .symbol .leftParen) more
  · rw [subroutine_of_headNot hhead] at h
    obtain ⟨ss, _, endSub, us, more, rfl, hstop, hus, h⟩ := body_sound.of_bind h
    obtain rfl := of_decide_eq_true hstop
    cases h
    refine ⟨rfl, ⟨.keyword .sub, line⟩ :: ⟨.name name, at_⟩ :: [] ++ us ++
      [⟨.keyword .endSub, endSub⟩], by simp, ?_⟩
    exact .sub .bare hus
  · obtain ⟨_, opening, more, rfl, rfl⟩ := exists_of_not_headNot hhead
    rw [subroutine_leftParen] at h
    obtain ⟨params, ts, more, rfl, hts, h⟩ := (parameters_sound line).of_bind h
    obtain ⟨ss, _, endSub, us, more, rfl, hstop, hus, h⟩ := body_sound.of_bind h
    obtain rfl := of_decide_eq_true hstop
    cases h
    refine ⟨rfl, ⟨.keyword .sub, line⟩ :: ⟨.name name, at_⟩ ::
      (⟨.symbol .leftParen, opening⟩ :: ts) ++ us ++ [⟨.keyword .endSub, endSub⟩], by simp, ?_⟩
    exact .sub (hts opening) hus

/-- What is left behind tokens that were read is shorter. -/
theorem length_le_of_append {rest ts more bound : List PlacedToken} {b : PlacedToken}
    (hts : ts ≠ []) (hrest : rest = ts ++ more) (hlength : rest.length ≤ (b :: bound).length) :
    more.length ≤ bound.length := by
  have hpos := List.length_pos_iff.2 hts
  simp only [hrest, List.length_append, List.length_cons] at hlength
  omega

/-- The top level is read to the last token, if the bound is large enough. -/
theorem topLevel_sound (bound : List PlacedToken) : ∀ known rest d p s',
    rest.length ≤ bound.length → topLevel known bound ⟨rest, d⟩ = .ok p s' →
      s'.rest = [] ∧ BuildsProgram (maxNesting - d) rest p ∧ FreshKeys known p.subroutines := by
  induction bound with
  | nil =>
    rintro known rest d p s' hlength h
    obtain rfl := List.length_eq_zero_iff.1 (Nat.le_zero.1 hlength)
    cases h
    exact ⟨rfl, .done, freshKeys_nil⟩
  | cons b bound ih =>
    intro known rest
    induction rest with
    | nil =>
      rintro d p s' - h
      cases h
      exact ⟨rfl, .done, freshKeys_nil⟩
    | cons t rest ihrest =>
      rintro d p s' hlength h
      by_cases hsep : t.token ∈ separators
      · rw [topLevel_separator hsep] at h
        have hshort : rest.length ≤ (b :: bound).length := Nat.le_of_succ_le hlength
        obtain ⟨hend, hp, hkeys⟩ := ihrest _ _ _ hshort h
        exact ⟨hend, .separator hsep hp, hkeys⟩
      · by_cases hsub : t.token = .keyword .sub
        · obtain ⟨_, line⟩ := t
          obtain rfl := hsub
          rw [topLevel_sub] at h
          obtain ⟨s, ts, more, hrest, hts, h⟩ := subroutine_sound.of_bind h
          by_cases hkey : s.key ∈ known
          · cases (congrFun (if_pos hkey) _).symm.trans h
          · obtain ⟨q, s₁, hq, hdone⟩ := bind_eq_ok_iff.1 ((congrFun (if_neg hkey) _).symm.trans h)
            cases hdone
            have hshort := length_le_of_append hts.ne_nil hrest hlength
            obtain ⟨hend, hq, hkeys⟩ := ih _ _ _ _ _ hshort hq
            refine ⟨hend, ?_, freshKeys_cons.2 ⟨hkey, hkeys⟩⟩
            rw [hrest]
            exact .subroutine hts hq
        · rw [topLevel_item hsep hsub] at h
          obtain ⟨ss, ts, more, hrest, hend, hts, h⟩ := (itemWith_sound body_sound).of_bind h
          obtain ⟨q, s₁, hq, hdone⟩ := bind_eq_ok_iff.1 h
          cases hdone
          have hshort := length_le_of_append hts.item_ne_nil hrest hlength
          obtain ⟨hdone, hq, hkeys⟩ := ih _ _ _ _ _ hshort hq
          refine ⟨hdone, ?_, hkeys⟩
          rw [hrest]
          exact .item hts hend hq

end Parser

end BasicScript
