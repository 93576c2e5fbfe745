/-
  What the parsers of expressions do on the next token.

  There is one equation for each way a parser can go.

  * `HeadNot P rest`: the next token, if there is one, does not have the property `P`.
  * `ComesTo deep r r'`: the run `r` comes to `r'`, unless it gives up on too many levels of nesting,
    which it may only if `deep`; `ComesTo.bind`, `ComesTo.nested`: so for steps in sequence and for a
    level that is opened.
-/
import BasicScript.Proofs.Bind
import BasicScript.Proofs.Parser.Grammar

namespace BasicScript

/-- The first of the tokens, if there is one, does not have the property. -/
def HeadNot (P : Token → Prop) (rest : List PlacedToken) : Prop :=
  ∀ t ∈ rest.head?, ¬ P t.token

theorem headNot_nil {P : Token → Prop} : HeadNot P [] := nofun

theorem headNot_cons {P : Token → Prop} {t : PlacedToken} {more : List PlacedToken} :
    HeadNot P (t :: more) ↔ ¬ P t.token := by
  simp [HeadNot]

theorem exists_of_not_headNot {P : Token → Prop} {rest : List PlacedToken}
    (h : ¬ HeadNot P rest) : ∃ token line more, rest = ⟨token, line⟩ :: more ∧ P token := by
  cases rest with
  | nil => exact absurd headNot_nil h
  | cons t more =>
    refine ⟨t.token, t.line, more, rfl, Classical.byContradiction fun hP => h ?_⟩
    exact headNot_cons.2 hP

namespace Parser

variable {α : Type} {rest : List PlacedToken} {d line : Nat} {token : Token}

/-! ## Single tokens -/

theorem accept_cons : accept token ⟨⟨token, line⟩ :: rest, d⟩ = .ok true ⟨rest, d⟩ := by
  rw [accept, bind_of_ok (m := peek?) rfl]
  exact congrFun (if_pos rfl) _

theorem accept_of_headNot (h : HeadNot (· = token) rest) :
    accept token ⟨rest, d⟩ = .ok false ⟨rest, d⟩ := by
  rw [accept, bind_of_ok (m := peek?) rfl]
  cases rest with
  | nil => rfl
  | cons t rest => exact congrFun (if_neg (headNot_cons.1 h)) _

theorem expect_cons {closing : Nat} :
    expect token line ⟨⟨token, closing⟩ :: rest, d⟩ = .ok () ⟨rest, d⟩ := by
  rw [expect, bind_of_ok (m := next?) rfl]
  exact congrFun (if_pos rfl) _

theorem expect_eq_ok {s' : ParserState} {u : Unit} (h : expect token line ⟨rest, d⟩ = .ok u s') :
    s'.depth = d ∧ ∃ closing, rest = ⟨token, closing⟩ :: s'.rest := by
  rw [expect, bind_of_ok (m := next?) rfl] at h
  cases rest with
  | nil => cases h
  | cons t rest =>
    obtain ⟨found, closing⟩ := t
    by_cases ht : found = token
    · obtain rfl := ht
      have hrest := (congrFun (if_pos rfl) _).symm.trans h
      cases hrest
      exact ⟨rfl, closing, rfl⟩
    · cases (congrFun (if_neg ht) _).symm.trans h

/-! ## Nesting -/

theorem nested_of_lt {p : Parser α} {t : PlacedToken} {a : α} {rest' : List PlacedToken}
    (hd : d < maxNesting) (h : p ⟨t :: rest, d + 1⟩ = .ok a ⟨rest', d + 1⟩) :
    nested p ⟨t :: rest, d⟩ = .ok a ⟨rest', d⟩ := by
  simp only [nested, if_pos hd, h]
  rfl

theorem nested_of_error {p : Parser α} {t : PlacedToken} {e : ParseError} {s : ParserState}
    (hd : d < maxNesting) (h : p ⟨t :: rest, d + 1⟩ = .error e s) :
    nested p ⟨t :: rest, d⟩ = .error e { s with depth := s.depth - 1 } := by
  simp only [nested, if_pos hd, h]

theorem nested_of_le {p : Parser α} {t : PlacedToken} (hd : maxNesting ≤ d) :
    nested p ⟨t :: rest, d⟩ = .error ⟨.nestingTooDeep, t.line⟩ ⟨t :: rest, d⟩ := by
  simp only [nested, if_neg (Nat.not_lt.2 hd)]

/-- The one run comes to the other, unless it gives up on too many levels, which it may if `deep`. -/
def ComesTo (deep : Prop) (r r' : EStateM.Result ParseError ParserState α) : Prop :=
  r = r' ∨ deep ∧ ∃ line s, r = .error ⟨.nestingTooDeep, line⟩ s

section
variable {deep : Prop} {β : Type} {p : Parser α} {f : α → Parser β} {a : α} {s s' : ParserState}
  {r r' r'' : EStateM.Result ParseError ParserState α}

theorem ComesTo.refl (r : EStateM.Result ParseError ParserState α) : ComesTo deep r r := .inl rfl

theorem ComesTo.eq (hdeep : ¬ deep) (h : ComesTo deep r r') : r = r' :=
  h.resolve_right fun h => hdeep h.1

theorem ComesTo.trans (h : ComesTo deep r r') (h' : ComesTo deep r' r'') : ComesTo deep r r'' := by
  rcases h with rfl | hgivesUp
  · exact h'
  · exact .inr hgivesUp

theorem ComesTo.bind {r : EStateM.Result ParseError ParserState β}
    (h : ComesTo deep (p s) (.ok a s')) (h' : ComesTo deep (f a s') r) :
    ComesTo deep ((p >>= f) s) r := by
  rcases h with hok | ⟨hdeep, line, s₁, herror⟩
  · rwa [bind_of_ok hok]
  · exact .inr ⟨hdeep, line, s₁, bind_of_error herror⟩

/-- A level that is opened. -/
theorem ComesTo.nested {t : PlacedToken} {rest' : List PlacedToken} (hd : deep ∨ d < maxNesting)
    (h : d < maxNesting → ComesTo deep (p ⟨t :: rest, d + 1⟩) (.ok a ⟨rest', d + 1⟩)) :
    ComesTo deep (nested p ⟨t :: rest, d⟩) (.ok a ⟨rest', d⟩) := by
  by_cases hlt : d < maxNesting
  · rcases h hlt with hok | ⟨hdeep, line, s, herror⟩
    · exact .inl (nested_of_lt hlt hok)
    · exact .inr ⟨hdeep, line, _, nested_of_error hlt herror⟩
  · exact .inr ⟨hd.resolve_right hlt, _, _, nested_of_le (Nat.not_lt.1 hlt)⟩

end

/-! ## Binary operators -/

section
variable {operand : Parser Expr} {r : Nat} {left : Expr} {bound : List PlacedToken}
  {b : PlacedToken} {op : BinaryOp}

theorem chain_cons (hop : (token, op) ∈ operators r) :
    chain operand r (b :: bound) left ⟨⟨token, line⟩ :: rest, d⟩ =
      (operand >>= fun right => chain operand r bound (.binary op left right line)) ⟨rest, d⟩ := by
  obtain ⟨htoken, hrank⟩ := mem_operators_iff.1 hop
  have hpeek : peekOperator? r ⟨⟨token, line⟩ :: rest, d⟩ =
      .ok (some (op, line)) ⟨⟨token, line⟩ :: rest, d⟩ := by
    rw [peekOperator?, bind_of_ok (m := peek?) rfl]
    simp only [List.head?_cons, htoken, if_pos hrank]
    rfl
  rw [chain, bind_of_ok hpeek]
  rfl

theorem chain_of_headNot (h : HeadNot (fun token => ∃ op, (token, op) ∈ operators r) rest) :
    chain operand r bound left ⟨rest, d⟩ = .ok left ⟨rest, d⟩ := by
  cases bound with
  | nil => rfl
  | cons b bound =>
    have hpeek : peekOperator? r ⟨rest, d⟩ = .ok none ⟨rest, d⟩ := by
      rw [peekOperator?, bind_of_ok (m := peek?) rfl]
      cases rest with
      | nil => rfl
      | cons t rest =>
        cases hop : t.token.binaryOp? with
        | none => simp only [List.head?_cons, hop]; rfl
        | some op =>
          have hrank : op.rank ≠ r := fun hr => headNot_cons.1 h ⟨op, mem_operators_iff.2 ⟨hop, hr⟩⟩
          simp only [List.head?_cons, hop, if_neg hrank]
          rfl
    rw [chain, bind_of_ok hpeek]
    rfl

end

/-! ## Operands -/

section
variable {expression operand : Parser Expr} {target : Expr} {bound : List PlacedToken}
  {b : PlacedToken}

theorem indices_cons :
    indices expression (b :: bound) target ⟨⟨.symbol .leftBracket, line⟩ :: rest, d⟩ =
      (expression >>= fun key => expect (.symbol .rightBracket) line >>= fun _ =>
        indices expression bound (.index target key line)) ⟨rest, d⟩ := by
  rw [indices, bind_of_ok (m := peek?) rfl]
  rfl

theorem indices_of_headNot (h : HeadNot (· = .symbol .leftBracket) rest) :
    indices expression bound target ⟨rest, d⟩ = .ok target ⟨rest, d⟩ := by
  cases bound with
  | nil => rfl
  | cons b bound =>
    rw [indices, bind_of_ok (m := peek?) rfl]
    rcases rest with - | ⟨⟨token, l⟩, rest⟩
    · rfl
    · cases token with
      | symbol sign =>
        cases sign with
        | leftBracket => exact absurd (Eq.refl (Token.symbol .leftBracket)) (headNot_cons.1 h)
        | _ => rfl
      | _ => rfl

theorem nameOrCall_cons {name : String} {opening : Nat} :
    nameOrCall expression name line ⟨⟨.symbol .leftParen, opening⟩ :: rest, d⟩ =
      (commaList expression (.symbol .rightParen) line >>= fun es =>
        pure (.call name es line)) ⟨rest, d⟩ := by
  rw [nameOrCall, bind_of_ok accept_cons]
  rfl

theorem nameOrCall_of_headNot {name : String} (h : HeadNot (· = .symbol .leftParen) rest) :
    nameOrCall expression name line ⟨rest, d⟩ = .ok (.name name line) ⟨rest, d⟩ := by
  rw [nameOrCall, bind_of_ok (accept_of_headNot h)]
  rfl

theorem primary_leftParen :
    primary expression ⟨⟨.symbol .leftParen, line⟩ :: rest, d⟩ =
      (expression >>= fun e => expect (.symbol .rightParen) line >>= fun _ => pure e)
        ⟨rest, d⟩ := by
  rw [primary, bind_of_ok (m := next?) rfl]
  rfl

theorem primary_name {name : String} :
    primary expression ⟨⟨.name name, line⟩ :: rest, d⟩ =
      nameOrCall expression name line ⟨rest, d⟩ := by
  rw [primary, bind_of_ok (m := next?) rfl]
  rfl

theorem primary_literal {value : Literal} :
    primary expression ⟨⟨value.token, line⟩ :: rest, d⟩ =
      .ok (.literal value line) ⟨rest, d⟩ := by
  rw [primary, bind_of_ok (m := next?) rfl]
  cases value <;> rfl

/-- What a primary expression begins with. -/
theorem exists_of_primary {s' : ParserState} {e : Expr}
    (h : primary expression ⟨rest, d⟩ = .ok e s') :
    ∃ token line more, rest = ⟨token, line⟩ :: more ∧ (token = .symbol .leftParen ∨
      (∃ name, token = .name name) ∨ ∃ value : Literal, token = value.token) := by
  rw [primary, bind_of_ok (m := next?) rfl] at h
  rcases rest with - | ⟨⟨token, line⟩, more⟩
  · cases h
  · refine ⟨token, line, more, rfl, ?_⟩
    cases hvalue : token.literal? with
    | some value => exact .inr (.inr ⟨value, literal?_eq_some_iff.1 hvalue⟩)
    | none =>
      cases token with
      | name name => exact .inr (.inl ⟨name, rfl⟩)
      | symbol sign =>
        cases sign with
        | leftParen => exact .inl rfl
        | _ => cases h
      | keyword | remark => cases h
      | _ => cases hvalue

theorem operandWith_sign {op : UnaryOp} (hop : (token, op) ∈ signs) :
    operandWith expression operand ⟨⟨token, line⟩ :: rest, d⟩ =
      (operand >>= fun e => pure (.unary op e line)) ⟨rest, d⟩ := by
  rw [operandWith, bind_of_ok (m := peek?) rfl]
  simp only [List.head?_cons, mem_signs_iff.1 hop]
  rfl

theorem operandWith_primary {t : PlacedToken} (ht : t.token.unaryOp? = none) :
    operandWith expression operand ⟨t :: rest, d⟩ =
      (primary expression >>= fun e => remaining >>= fun bound => indices expression bound e)
        ⟨t :: rest, d⟩ := by
  rw [operandWith, bind_of_ok (m := peek?) rfl]
  simp only [List.head?_cons, ht]

end

/-! ## Lists -/

section
variable {item : Parser α} {closing : Token} {bound : List PlacedToken} {b : PlacedToken}
  {close : Nat}

theorem commaTail_comma :
    commaTail item closing line (b :: bound) ⟨⟨.symbol .comma, close⟩ :: rest, d⟩ =
      (item >>= fun a => commaTail item closing line bound >>= fun as => pure (a :: as))
        ⟨rest, d⟩ := by
  rw [commaTail, bind_of_ok (m := next?) rfl]
  rfl

theorem commaTail_closing (hne : closing ≠ .symbol .comma) :
    commaTail item closing line (b :: bound) ⟨⟨closing, close⟩ :: rest, d⟩ =
      .ok [] ⟨rest, d⟩ := by
  rw [commaTail, bind_of_ok (m := next?) rfl]
  simp only [List.head?_cons, if_neg hne, if_true]
  rfl

/-- What stands behind an item. -/
theorem exists_of_commaTail {s' : ParserState} {as : List α}
    (h : commaTail item closing line bound ⟨rest, d⟩ = .ok as s') :
    ∃ token l more, rest = ⟨token, l⟩ :: more ∧ (token = .symbol .comma ∨ token = closing) := by
  cases bound with
  | nil => cases h
  | cons b bound =>
    rw [commaTail, bind_of_ok (m := next?) rfl] at h
    rcases rest with - | ⟨⟨token, l⟩, more⟩
    · cases h
    · refine ⟨token, l, more, rfl, ?_⟩
      by_cases hcomma : token = .symbol .comma
      · exact .inl hcomma
      · by_cases hclosing : token = closing
        · exact .inr hclosing
        · simp only [List.head?_cons, if_neg hcomma, if_neg hclosing] at h
          cases h

theorem commaList_closing :
    commaList item closing line ⟨⟨closing, close⟩ :: rest, d⟩ = .ok [] ⟨rest, d⟩ := by
  rw [commaList, bind_of_ok accept_cons]
  rfl

theorem commaList_of_headNot (h : HeadNot (· = closing) rest) :
    commaList item closing line ⟨rest, d⟩ =
      (item >>= fun a => remaining >>= fun bound => commaTail item closing line bound >>= fun as =>
        pure (a :: as)) ⟨rest, d⟩ := by
  rw [commaList, bind_of_ok (accept_of_headNot h)]
  rfl

end

end Parser

end BasicScript
