/-
  The parser of expressions reads whatever the grammar derives.

  * `Closes r rest`: `rest` goes on with no operator of a rank below `r`, no index and no argument
    list.
  * `expressionAt k` is the parser of the expressions inside an operand with `k` levels.
  * `ReadsList item d ts as`: what a list of items in parentheses needs for being read.
  * `Complete deep c k d ts t`: what the parser of category `c` does on the tokens of `t`, which may
    be to give up on too many levels if `deep`.  Loops (`chain`, `indices`) are stated in the middle:
    the tokens bring the loop to the point where `t` is what it holds so far.
  * `Derives.comesTo`: by induction on derivations, all that is derived is read, or it has more levels
    than may be opened; the cases of the loops are lemmas of their own (`complete_binary`,
    `complete_index`, ...).  `Derives.complete`: what is derived within the levels left is read.
  * `Derives.unique`: so the grammar is unambiguous.
  * `expression_sound_and_complete`: the grammar derives what the parser reads, and the parser reads
    what the grammar derives.
-/
import BasicScript.Proofs.Parser.Soundness

namespace BasicScript

namespace Parser

/-! ## What follows -/

/-- The next token, if there is one, is neither a binary operator of a rank below `r` nor an opening
bracket or parenthesis. -/
def Closes (r : Nat) : List PlacedToken → Prop :=
  HeadNot fun token => token = .symbol .leftBracket ∨ token = .symbol .leftParen ∨
    ∃ k op, k < r ∧ (token, op) ∈ operators k

section
variable {r r' d line : Nat} {rest : List PlacedToken} {token : Token}

theorem Closes.mono (hle : r' ≤ r) (h : Closes r rest) : Closes r' rest := by
  intro t ht hopen
  refine h t ht ?_
  rcases hopen with hb | hp | ⟨k, op, hk, hmem⟩
  · exact .inl hb
  · exact .inr (.inl hp)
  · exact .inr (.inr ⟨k, op, by omega, hmem⟩)

theorem Closes.not_leftBracket (h : Closes r rest) : HeadNot (· = .symbol .leftBracket) rest :=
  fun t ht hb => h t ht (.inl hb)

theorem Closes.not_leftParen (h : Closes r rest) : HeadNot (· = .symbol .leftParen) rest :=
  fun t ht hp => h t ht (.inr (.inl hp))

theorem Closes.not_operator (h : Closes (r + 1) rest) :
    HeadNot (fun token => ∃ op, (token, op) ∈ operators r) rest := by
  rintro t ht ⟨op, hmem⟩
  exact h t ht (.inr (.inr ⟨r, op, Nat.lt_succ_self r, hmem⟩))

/-- Operators close operands of the ranks below their own. -/
theorem closes_operator {op : BinaryOp} (hop : (token, op) ∈ operators r) :
    Closes r (⟨token, line⟩ :: rest) := by
  obtain ⟨htoken, hrank⟩ := mem_operators_iff.1 hop
  refine headNot_cons.2 ?_
  rintro (rfl | rfl | ⟨k, op', hk, hmem⟩)
  · cases htoken
  · cases htoken
  · obtain ⟨htoken', hrank'⟩ := mem_operators_iff.1 hmem
    obtain rfl : op' = op := Option.some.inj (htoken'.symm.trans htoken)
    omega

/-- So do closing signs and commas, of all ranks. -/
theorem closes_of_binaryOp?_eq_none (hop : token.binaryOp? = none)
    (hbracket : token ≠ .symbol .leftBracket) (hparen : token ≠ .symbol .leftParen) :
    Closes r (⟨token, line⟩ :: rest) := by
  refine headNot_cons.2 ?_
  rintro (hb | hp | ⟨k, op, -, hmem⟩)
  · exact hbracket hb
  · exact hparen hp
  · have htoken := (mem_operators_iff.1 hmem).1
    rw [hop] at htoken
    cases htoken

end

/-! ## Lists -/

/-- The item and the loop behind it read a list, up to the closing parenthesis.  The loop is bounded
by the tokens left when it starts. -/
def ReadsList {α : Type} (deep : Prop) (item : Parser α) (d : Nat) (ts : List PlacedToken)
    (as : List α) : Prop :=
  ∀ line closing rest, ∃ a as' more, as = a :: as' ∧
    ComesTo deep (item ⟨ts ++ ⟨.symbol .rightParen, closing⟩ :: rest, d⟩) (.ok a ⟨more, d⟩) ∧
    more.length ≤ ts.length + 1 + rest.length ∧
    ∀ bound : List PlacedToken, more.length ≤ bound.length →
      ComesTo deep (commaTail item (.symbol .rightParen) line bound ⟨more, d⟩) (.ok as' ⟨rest, d⟩)

section
variable {α : Type} {deep : Prop} {item : Parser α} {d closing : Nat}
  {ts us rest : List PlacedToken} {a : α}

theorem readsList_last (h : ∀ closing rest,
    ComesTo deep (item ⟨ts ++ ⟨.symbol .rightParen, closing⟩ :: rest, d⟩)
      (.ok a ⟨⟨.symbol .rightParen, closing⟩ :: rest, d⟩)) : ReadsList deep item d ts [a] := by
  intro line closing rest
  refine ⟨a, [], ⟨.symbol .rightParen, closing⟩ :: rest, rfl, h closing rest, ?_, ?_⟩
  · simp only [List.length_cons]
    omega
  · intro bound hbound
    cases bound with
    | nil => simp at hbound
    | cons b bound =>
      have hne : Token.symbol .rightParen ≠ .symbol .comma := nofun
      exact .inl (commaTail_closing hne)

/-- One round of the list. -/
theorem readsList_cons {as : List α} {comma : Nat}
    (h : ∀ rest, ComesTo deep (item ⟨ts ++ ⟨.symbol .comma, comma⟩ :: rest, d⟩)
      (.ok a ⟨⟨.symbol .comma, comma⟩ :: rest, d⟩)) (has : ReadsList deep item d us as) :
    ReadsList deep item d (ts ++ ⟨.symbol .comma, comma⟩ :: us) (a :: as) := by
  intro line closing rest
  obtain ⟨a', as', more, rfl, hread, hlength, htail⟩ := has line closing rest
  refine ⟨a, a' :: as', ⟨.symbol .comma, comma⟩ :: (us ++ ⟨.symbol .rightParen, closing⟩ :: rest),
    rfl, ?_, ?_, fun bound hbound => ?_⟩
  · rw [List.append_assoc, List.cons_append]
    exact h _
  · simp only [List.length_cons, List.length_append]
    omega
  · cases bound with
    | nil => simp at hbound
    | cons b bound =>
      simp only [List.length_cons, List.length_append] at hbound
      rw [commaTail_comma]
      exact hread.bind ((htail bound (by omega)).bind (.refl _))

theorem ReadsList.commaList_comesTo {first : PlacedToken} {as : List α}
    (hfirst : first.token ≠ .symbol .rightParen) (h : ReadsList deep item d (first :: ts) as)
    (line : Nat) :
    ComesTo deep (commaList item (.symbol .rightParen) line
      ⟨first :: ts ++ ⟨.symbol .rightParen, closing⟩ :: rest, d⟩) (.ok as ⟨rest, d⟩) := by
  obtain ⟨a, as', more, rfl, hread, -, htail⟩ := h line closing rest
  rw [List.cons_append, commaList_of_headNot (headNot_cons.2 hfirst), ← List.cons_append]
  refine hread.bind ?_
  rw [bind_of_ok (m := remaining) rfl]
  exact (htail more (Nat.le_refl _)).bind (.refl _)

end

/-! ## Complete parsers -/

/-- The expressions inside an operand with `k` levels. -/
def expressionAt (k : Nat) : Parser Expr := nested (atRank (operandAt k) BinaryOp.ranks)

/-- What the parser of a category does on tokens that make up the tree `t`, with `d` levels open: it
gives `t`, or it goes on from there with the loop that has come to `t`; it may give up on too many
levels if `deep`. -/
def Complete (deep : Prop) : (c : Category) → (k d : Nat) → List PlacedToken → c.Tree → Prop
  | .expression, k, d, ts, e => ∀ rest, Closes BinaryOp.ranks rest →
    ComesTo deep (expressionAt k ⟨ts ++ rest, d⟩) (.ok e ⟨rest, d⟩)
  | .rank 0, k, d, ts, e => ∀ rest, Closes 0 rest →
    ComesTo deep (operandAt (k + 1) ⟨ts ++ rest, d⟩) (.ok e ⟨rest, d⟩)
  | .rank (r + 1), k, d, ts, e => ∀ rest, Closes r rest → ∃ bound, rest.length ≤ bound.length ∧
    ComesTo deep (atRank (operandAt (k + 1)) (r + 1) ⟨ts ++ rest, d⟩)
      (chain (atRank (operandAt (k + 1)) r) r bound e ⟨rest, d⟩)
  | .indexed, k, d, ts, e => ∀ rest, HeadNot (· = .symbol .leftParen) rest →
    ∃ bound, rest.length ≤ bound.length ∧
      ComesTo deep (operandAt (k + 1) ⟨ts ++ rest, d⟩)
        (indices (expressionAt k) bound e ⟨rest, d⟩)
  | .primary, k, d, ts, e => HeadNot (fun token => ∃ op, (token, op) ∈ signs) ts ∧
    ∀ rest, HeadNot (· = .symbol .leftParen) rest →
      ComesTo deep (primary (expressionAt k) ⟨ts ++ rest, d⟩) (.ok e ⟨rest, d⟩)
  | .arguments, k, d, ts, es => ReadsList deep (expressionAt k) d ts es

section
variable {deep : Prop} {r k d line closing : Nat} {ts us rest : List PlacedToken} {e : Expr}

/-- Operands of the ranks below `r` are read up to where they close. -/
theorem Complete.atRank_comesTo (h : Complete deep (.rank r) k d ts e) (hrest : Closes r rest) :
    ComesTo deep (atRank (operandAt (k + 1)) r ⟨ts ++ rest, d⟩) (.ok e ⟨rest, d⟩) := by
  cases r with
  | zero => exact h rest hrest
  | succ r =>
    obtain ⟨bound, -, hchain⟩ := h rest (hrest.mono (Nat.le_succ r))
    rwa [chain_of_headNot hrest.not_operator] at hchain

theorem complete_operand (h : Complete deep (.rank r) k d ts e) :
    Complete deep (.rank (r + 1)) k d ts e := by
  intro rest hrest
  refine ⟨rest, Nat.le_refl _, ?_⟩
  rw [atRank]
  refine (h.atRank_comesTo hrest).bind ?_
  rw [bind_of_ok (m := remaining) rfl]
  exact .refl _

/-- One round of a chain. -/
theorem complete_binary {token : Token} {op : BinaryOp} {left right : Expr}
    (hop : (token, op) ∈ operators r) (hleft : Complete deep (.rank (r + 1)) k d ts left)
    (hright : Complete deep (.rank r) k d us right) :
    Complete deep (.rank (r + 1)) k d (ts ++ ⟨token, line⟩ :: us) (.binary op left right line) := by
  intro rest hrest
  obtain ⟨bound, hbound, hchain⟩ := hleft (⟨token, line⟩ :: (us ++ rest)) (closes_operator hop)
  cases bound with
  | nil => simp at hbound
  | cons b bound =>
    simp only [List.length_cons, List.length_append] at hbound
    refine ⟨bound, by omega, ?_⟩
    rw [List.append_assoc, List.cons_append]
    refine hchain.trans ?_
    rw [chain_cons hop]
    exact (hright.atRank_comesTo hrest).bind (.refl _)

theorem complete_indexed (h : Complete deep .indexed k d ts e) :
    Complete deep (.rank 0) k d ts e := by
  intro rest hrest
  obtain ⟨bound, -, hindices⟩ := h rest hrest.not_leftParen
  rwa [indices_of_headNot hrest.not_leftBracket] at hindices

theorem complete_primary (hts : ts ≠ []) (h : Complete deep .primary k d ts e) :
    Complete deep .indexed k d ts e := by
  intro rest hrest
  refine ⟨rest, Nat.le_refl _, ?_⟩
  obtain ⟨hsign, hprimary⟩ := h
  obtain ⟨t, ts, rfl⟩ := List.exists_cons_of_ne_nil hts
  have ht : t.token.unaryOp? = none := not_sign_iff.1 (headNot_cons.1 hsign)
  have hread := hprimary rest hrest
  rw [List.cons_append] at hread
  rw [operandAt, List.cons_append, operandWith_primary ht]
  exact hread.bind (.refl _)

/-- One round of the indices. -/
theorem complete_index {target key : Expr} (htarget : Complete deep .indexed k d ts target)
    (hkey : Complete deep .expression k d us key) :
    Complete deep .indexed k d
      (ts ++ ⟨.symbol .leftBracket, line⟩ :: us ++ [⟨.symbol .rightBracket, closing⟩])
      (.index target key line) := by
  intro rest _
  have hopen : HeadNot (· = .symbol .leftParen) (⟨.symbol .leftBracket, line⟩ :: (us ++
      ⟨.symbol .rightBracket, closing⟩ :: rest)) := headNot_cons.2 nofun
  obtain ⟨bound, hbound, hindices⟩ := htarget _ hopen
  cases bound with
  | nil => simp at hbound
  | cons b bound =>
    simp only [List.length_cons, List.length_append] at hbound
    refine ⟨bound, by omega, ?_⟩
    have hclose : Closes BinaryOp.ranks (⟨.symbol .rightBracket, closing⟩ :: rest) :=
      closes_of_binaryOp?_eq_none rfl nofun nofun
    simp only [List.append_assoc, List.cons_append, List.nil_append]
    refine hindices.trans ?_
    rw [indices_cons]
    refine (hkey _ hclose).bind ?_
    rw [bind_of_ok expect_cons]
    exact .refl _

theorem complete_sign {token : Token} {op : UnaryOp} (hop : (token, op) ∈ signs) (hts : ts ≠ [])
    (hd : deep ∨ d < maxNesting)
    (h : d < maxNesting → ∃ k', k = k' + 1 ∧ Complete deep (.rank 0) k' (d + 1) ts e) :
    Complete deep (.rank 0) k d (⟨token, line⟩ :: ts) (.unary op e line) := by
  intro rest hrest
  obtain ⟨t, ts, rfl⟩ := List.exists_cons_of_ne_nil hts
  rw [operandAt, List.cons_append, operandWith_sign hop, List.cons_append]
  refine (ComesTo.nested hd fun hlt => ?_).bind (.refl _)
  obtain ⟨k, rfl, hinner⟩ := h hlt
  exact hinner rest hrest

theorem complete_expression (hts : ts ≠ []) (hd : deep ∨ d < maxNesting)
    (h : d < maxNesting → ∃ k', k = k' + 1 ∧
      Complete deep (.rank BinaryOp.ranks) k' (d + 1) ts e) :
    Complete deep .expression k d ts e := by
  intro rest hrest
  obtain ⟨t, ts, rfl⟩ := List.exists_cons_of_ne_nil hts
  rw [List.cons_append]
  refine ComesTo.nested hd fun hlt => ?_
  obtain ⟨k, rfl, hinner⟩ := h hlt
  exact hinner.atRank_comesTo hrest

/-! ### Primary expressions -/

theorem complete_literal (value : Literal) :
    Complete deep .primary k d [⟨value.token, line⟩] (.literal value line) := by
  refine ⟨headNot_cons.2 (not_sign_iff.2 ?_), fun rest _ => .inl primary_literal⟩
  cases value <;> rfl

theorem complete_name (name : String) :
    Complete deep .primary k d [⟨.name name, line⟩] (.name name line) := by
  refine ⟨headNot_cons.2 (not_sign_iff.2 rfl), fun rest hrest => .inl ?_⟩
  exact primary_name.trans (nameOrCall_of_headNot hrest)

theorem closes_rightParen : Closes r (⟨.symbol .rightParen, closing⟩ :: rest) :=
  closes_of_binaryOp?_eq_none rfl nofun nofun

/-- A call, once the list of arguments is read up to the closing parenthesis. -/
theorem complete_call (name : String) (ts : List PlacedToken) {opening : Nat} {es : List Expr}
    (h : ∀ rest, ComesTo deep (commaList (expressionAt k) (.symbol .rightParen) line
      ⟨ts ++ ⟨.symbol .rightParen, closing⟩ :: rest, d⟩) (.ok es ⟨rest, d⟩)) :
    Complete deep .primary k d (⟨.name name, line⟩ :: ⟨.symbol .leftParen, opening⟩ :: ts ++
      [⟨.symbol .rightParen, closing⟩]) (.call name es line) := by
  refine ⟨headNot_cons.2 (not_sign_iff.2 rfl), fun rest _ => ?_⟩
  simp only [List.append_assoc, List.cons_append, List.nil_append]
  rw [primary_name, nameOrCall_cons]
  exact (h rest).bind (.refl _)

theorem complete_group {opening : Nat} (h : Complete deep .expression k d ts e) :
    Complete deep .primary k d
      (⟨.symbol .leftParen, opening⟩ :: ts ++ [⟨.symbol .rightParen, closing⟩]) e := by
  refine ⟨headNot_cons.2 (not_sign_iff.2 rfl), fun rest _ => ?_⟩
  simp only [List.append_assoc, List.cons_append, List.nil_append]
  rw [primary_leftParen]
  refine (h _ closes_rightParen).bind ?_
  rw [bind_of_ok expect_cons]
  exact .refl _

/-! ### Arguments -/

theorem complete_lastArgument (h : Complete deep .expression k d ts e) :
    Complete deep .arguments k d ts [e] :=
  readsList_last fun _ _ => h _ closes_rightParen

theorem complete_argument {es : List Expr} (h : Complete deep .expression k d ts e)
    (hes : Complete deep .arguments k d us es) :
    Complete deep .arguments k d (ts ++ ⟨.symbol .comma, line⟩ :: us) (e :: es) :=
  readsList_cons (fun _ => h _ (closes_of_binaryOp?_eq_none rfl nofun nofun)) hes

theorem Complete.commaList_comesTo {es : List Expr} (hts : Derives .arguments r ts es)
    (h : Complete deep .arguments k d ts es) (line : Nat) :
    ComesTo deep (commaList (expressionAt k) (.symbol .rightParen) line
      ⟨ts ++ ⟨.symbol .rightParen, closing⟩ :: rest, d⟩) (.ok es ⟨rest, d⟩) := by
  obtain ⟨first, ts, rfl, hfirst⟩ := hts.exists_head
  exact ReadsList.commaList_comesTo hfirst h line

end

end Parser

open BasicScript.Parser

/-! ## Derivations -/

/-- The parsers read what is derived, if they are made for as many levels as may still be opened; they
give up only on a derivation that opens more. -/
theorem Derives.comesTo {deep : Prop} {c : Category} {n : Nat} {ts : List PlacedToken} {t : c.Tree}
    (h : Derives c n ts t) :
    ∀ k d, maxNesting ≤ k + d → deep ∨ d + n ≤ maxNesting → Complete deep c k d ts t := by
  induction h with
  | @expression n ts e h ih =>
    -- a level opens: one less is left to the parser inside, and one more is open
    intro k d hk hd
    refine complete_expression h.ne_nil (hd.imp_right fun hd => by omega) fun hlt => ?_
    exact ⟨k - 1, by omega, ih _ (d + 1) (by omega) (hd.imp_right fun hd => by omega)⟩
  | operand _ ih => exact fun k d hk hd => complete_operand (ih k d hk hd)
  | binary hop _ _ ihl ihr =>
    exact fun k d hk hd => complete_binary hop (ihl k d hk hd) (ihr k d hk hd)
  | @sign n ts token op line e hop h ih =>
    intro k d hk hd
    refine complete_sign hop h.ne_nil (hd.imp_right fun hd => by omega) fun hlt => ?_
    exact ⟨k - 1, by omega, ih _ (d + 1) (by omega) (hd.imp_right fun hd => by omega)⟩
  | indexed _ ih => exact fun k d hk hd => complete_indexed (ih k d hk hd)
  | primary h ih => exact fun k d hk hd => complete_primary h.ne_nil (ih k d hk hd)
  | index _ _ iht ihk => exact fun k d hk hd => complete_index (iht k d hk hd) (ihk k d hk hd)
  | literal value => exact fun k d _ _ => complete_literal value
  | name name => exact fun k d _ _ => complete_name name
  | callEmpty name =>
    exact fun k d _ _ => complete_call name [] fun rest => .inl commaList_closing
  | @call n line opening closing ts es name h ih =>
    exact fun k d hk hd => complete_call name ts fun rest => (ih k d hk hd).commaList_comesTo h line
  | group _ ih => exact fun k d hk hd => complete_group (ih k d hk hd)
  | lastArgument _ ih => exact fun k d hk hd => complete_lastArgument (ih k d hk hd)
  | argument _ _ ih ihs => exact fun k d hk hd => complete_argument (ih k d hk hd) (ihs k d hk hd)

/-- An expression derived within the levels left is read up to where it closes. -/
theorem Derives.complete {n : Nat} {ts : List PlacedToken} {e : Expr}
    (h : Derives .expression n ts e) (k d : Nat) (hk : maxNesting ≤ k + d)
    (hd : d + n ≤ maxNesting) (rest : List PlacedToken) (hrest : Closes BinaryOp.ranks rest) :
    expressionAt k ⟨ts ++ rest, d⟩ = .ok e ⟨rest, d⟩ := by
  have hread : Complete False .expression k d ts e := h.comesTo k d hk (.inr hd)
  exact (hread rest hrest).eq id

/-- The grammar is unambiguous. -/
theorem Derives.unique {n n' : Nat} {ts : List PlacedToken} {e e' : Expr}
    (h : Derives .expression n ts e) (h' : Derives .expression n' ts e') (hn : n ≤ maxNesting)
    (hn' : n' ≤ maxNesting) : e = e' := by
  have hread := h.complete maxNesting 0 (by omega) (by omega) [] headNot_nil
  have hread' := h'.complete maxNesting 0 (by omega) (by omega) [] headNot_nil
  cases hread.symm.trans hread'
  rfl

/-- **The parser of expressions reads what the grammar derives, and nothing else.** -/
theorem expression_sound_and_complete :
    (∀ s e s', expression s = .ok e s' → s'.depth = s.depth ∧
      ∃ ts, ts ≠ [] ∧ s.rest = ts ++ s'.rest ∧
        Derives .expression (maxNesting - s.depth) ts e) ∧
    (∀ n ts e, Derives .expression n ts e → ∀ d, d + n ≤ maxNesting →
      ∀ rest, Closes BinaryOp.ranks rest →
        expression ⟨ts ++ rest, d⟩ = .ok e ⟨rest, d⟩) := by
  constructor
  · intro s e s' h
    obtain ⟨hdepth, ts, hrest, hts⟩ := expression_sound s.rest s.depth e s' h
    exact ⟨hdepth, ts, hts.ne_nil, hrest, hts⟩
  · intro n ts e h d hd rest hrest
    exact h.complete (maxNesting + 1) d (by omega) hd rest hrest

end BasicScript
