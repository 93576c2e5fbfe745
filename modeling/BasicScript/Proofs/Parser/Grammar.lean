/-
  The grammar of expressions.

  * `Derives c n ts t`: the tokens `ts` make up the tree `t` of category `c`, with at most `n`
    levels of nesting.  An expression is one level, and so is the operand of a sign.
  * `operators` and `signs` are the tokens of the operators, `Literal.token` are those of the
    literals.
  * `mem_operators_iff`, `mem_signs_iff`, `literal?_eq_some_iff`: the parser goes by the same
    tables.
  * `Derives.exists_head`, `Derives.ne_nil`: what derivations begin with.
-/
import BasicScript.Parser.Expression

namespace BasicScript

/-! ## Tokens of the grammar -/

/-- The binary operators of a rank with their tokens. -/
def operators : Nat → List (Token × BinaryOp)
  | 0 => [(.symbol .star, .mul), (.symbol .slash, .div), (.symbol .percent, .mod)]
  | 1 => [(.symbol .plus, .add), (.symbol .minus, .sub)]
  | 2 => [(.symbol .less, .less), (.symbol .greater, .greater), (.symbol .lessEqual, .lessEqual),
      (.symbol .greaterEqual, .greaterEqual)]
  | 3 => [(.symbol .equals, .equal), (.symbol .equalEqual, .equal), (.symbol .bangEqual, .notEqual)]
  | 4 => [(.keyword .and_, .and_)]
  | 5 => [(.keyword .or_, .or_), (.keyword .xor, .xor)]
  | _ => []

/-- The unary operators with their tokens. -/
def signs : List (Token × UnaryOp) := [(.symbol .minus, .negate), (.keyword .not_, .not_)]

/-- The token of a literal. -/
def Literal.token : Literal → Token
  | integer n => .integer n
  | real x => .real x
  | bool b => .bool b
  | text s => .text s

/-- The parser takes each token for the operator that it stands for in the grammar. -/
theorem mem_operators_iff {r : Nat} {token : Token} {op : BinaryOp} :
    (token, op) ∈ operators r ↔ token.binaryOp? = some op ∧ op.rank = r := by
  constructor
  · intro h
    rcases r with _ | _ | _ | _ | _ | _ | r <;>
      simp only [operators, List.mem_cons, Prod.mk.injEq, List.not_mem_nil, or_false] at h
    · rcases h with ⟨rfl, rfl⟩ | ⟨rfl, rfl⟩ | ⟨rfl, rfl⟩ <;> exact ⟨rfl, rfl⟩
    · rcases h with ⟨rfl, rfl⟩ | ⟨rfl, rfl⟩ <;> exact ⟨rfl, rfl⟩
    · rcases h with ⟨rfl, rfl⟩ | ⟨rfl, rfl⟩ | ⟨rfl, rfl⟩ | ⟨rfl, rfl⟩ <;> exact ⟨rfl, rfl⟩
    · rcases h with ⟨rfl, rfl⟩ | ⟨rfl, rfl⟩ | ⟨rfl, rfl⟩ <;> exact ⟨rfl, rfl⟩
    · obtain ⟨rfl, rfl⟩ := h
      exact ⟨rfl, rfl⟩
    · rcases h with ⟨rfl, rfl⟩ | ⟨rfl, rfl⟩ <;> exact ⟨rfl, rfl⟩
  · rintro ⟨hop, rfl⟩
    cases token with
    | symbol sign => cases sign <;> cases hop <;> simp [operators, BinaryOp.rank]
    | keyword word => cases word <;> cases hop <;> simp [operators, BinaryOp.rank]
    | _ => cases hop

theorem mem_signs_iff {token : Token} {op : UnaryOp} :
    (token, op) ∈ signs ↔ token.unaryOp? = some op := by
  constructor
  · intro h
    simp only [signs, List.mem_cons, Prod.mk.injEq, List.not_mem_nil, or_false] at h
    rcases h with ⟨rfl, rfl⟩ | ⟨rfl, rfl⟩ <;> rfl
  · intro hop
    cases token with
    | symbol sign =>
      cases sign <;> cases hop
      simp [signs]
    | keyword word =>
      cases word <;> cases hop
      simp [signs]
    | _ => cases hop

theorem ne_of_mem_operators {r : Nat} {token other : Token} {op : BinaryOp}
    (h : (token, op) ∈ operators r) (hother : other.binaryOp? = none) : token ≠ other := by
  rintro rfl
  rw [(mem_operators_iff.1 h).1] at hother
  cases hother

theorem ne_of_mem_signs {token other : Token} {op : UnaryOp} (h : (token, op) ∈ signs)
    (hother : other.unaryOp? = none) : token ≠ other := by
  rintro rfl
  rw [mem_signs_iff.1 h] at hother
  cases hother

theorem not_sign_iff {token : Token} : (¬ ∃ op, (token, op) ∈ signs) ↔ token.unaryOp? = none := by
  simp only [mem_signs_iff, not_exists]
  exact Option.eq_none_iff_forall_ne_some.symm

theorem literal?_eq_some_iff {token : Token} {value : Literal} :
    token.literal? = some value ↔ token = value.token := by
  constructor
  · intro h
    cases token <;> cases h <;> rfl
  · rintro rfl
    cases value <;> rfl

/-! ## Derivations -/

/-- The categories of the grammar: an expression, operands joined by the operators of the ranks
below `n`, a primary expression with indices, a primary expression, and a list of arguments. -/
inductive Category where
  | expression
  | rank (n : Nat)
  | indexed
  | primary
  | arguments

/-- The trees of a category. -/
abbrev Category.Tree : Category → Type
  | arguments => List Expr
  | expression | rank _ | indexed | primary => Expr

/-- The tokens `ts` make up a tree, with at most `n` levels of nesting.  A node carries the line of
its own token: the operator, the opening bracket, the name or the literal. -/
inductive Derives : (c : Category) → Nat → List PlacedToken → c.Tree → Prop
  | expression {n : Nat} {ts : List PlacedToken} {e : Expr} :
      Derives (.rank BinaryOp.ranks) n ts e → Derives .expression (n + 1) ts e
  | operand {r n : Nat} {ts : List PlacedToken} {e : Expr} :
      Derives (.rank r) n ts e → Derives (.rank (r + 1)) n ts e
  /- The left operand may hold operators of the same rank, the right one may not. -/
  | binary {r n : Nat} {ts us : List PlacedToken} {token : Token} {op : BinaryOp} {line : Nat}
      {left right : Expr} : (token, op) ∈ operators r → Derives (.rank (r + 1)) n ts left →
      Derives (.rank r) n us right →
      Derives (.rank (r + 1)) n (ts ++ ⟨token, line⟩ :: us) (.binary op left right line)
  | sign {n : Nat} {ts : List PlacedToken} {token : Token} {op : UnaryOp} {line : Nat} {e : Expr} :
      (token, op) ∈ signs → Derives (.rank 0) n ts e →
      Derives (.rank 0) (n + 1) (⟨token, line⟩ :: ts) (.unary op e line)
  | indexed {n : Nat} {ts : List PlacedToken} {e : Expr} :
      Derives .indexed n ts e → Derives (.rank 0) n ts e
  | primary {n : Nat} {ts : List PlacedToken} {e : Expr} :
      Derives .primary n ts e → Derives .indexed n ts e
  | index {n : Nat} {ts us : List PlacedToken} {target key : Expr} {line closing : Nat} :
      Derives .indexed n ts target → Derives .expression n us key →
      Derives .indexed n
        (ts ++ ⟨.symbol .leftBracket, line⟩ :: us ++ [⟨.symbol .rightBracket, closing⟩])
        (.index target key line)
  | literal {n line : Nat} (value : Literal) :
      Derives .primary n [⟨value.token, line⟩] (.literal value line)
  | name {n line : Nat} (name : String) : Derives .primary n [⟨.name name, line⟩] (.name name line)
  | callEmpty {n line opening closing : Nat} (name : String) :
      Derives .primary n
        [⟨.name name, line⟩, ⟨.symbol .leftParen, opening⟩, ⟨.symbol .rightParen, closing⟩]
        (.call name [] line)
  | call {n line opening closing : Nat} {ts : List PlacedToken} {es : List Expr} (name : String) :
      Derives .arguments n ts es →
      Derives .primary n
        (⟨.name name, line⟩ :: ⟨.symbol .leftParen, opening⟩ :: ts ++
          [⟨.symbol .rightParen, closing⟩])
        (.call name es line)
  | group {n opening closing : Nat} {ts : List PlacedToken} {e : Expr} :
      Derives .expression n ts e →
      Derives .primary n
        (⟨.symbol .leftParen, opening⟩ :: ts ++ [⟨.symbol .rightParen, closing⟩]) e
  | lastArgument {n : Nat} {ts : List PlacedToken} {e : Expr} :
      Derives .expression n ts e → Derives .arguments n ts [e]
  | argument {n line : Nat} {ts us : List PlacedToken} {e : Expr} {es : List Expr} :
      Derives .expression n ts e → Derives .arguments n us es →
      Derives .arguments n (ts ++ ⟨.symbol .comma, line⟩ :: us) (e :: es)

/-- No derivation is empty, and none begins with a closing parenthesis. -/
theorem Derives.exists_head {c : Category} {n : Nat} {ts : List PlacedToken} {t : c.Tree}
    (h : Derives c n ts t) :
    ∃ first more, ts = first :: more ∧ first.token ≠ .symbol .rightParen := by
  induction h with
  | expression _ ih | operand _ ih | indexed _ ih | primary _ ih | lastArgument _ ih => exact ih
  | binary _ _ _ ih _ | index _ _ ih _ | argument _ _ ih _ =>
    obtain ⟨first, more, rfl, hne⟩ := ih
    exact ⟨first, _, rfl, hne⟩
  | sign hop _ _ =>
    refine ⟨_, _, rfl, ?_⟩
    rintro rfl
    exact nomatch mem_signs_iff.1 hop
  | literal value =>
    refine ⟨_, _, rfl, ?_⟩
    cases value <;> exact nofun
  | name | callEmpty | call | group => exact ⟨_, _, rfl, nofun⟩

theorem Derives.ne_nil {c : Category} {n : Nat} {ts : List PlacedToken} {t : c.Tree}
    (h : Derives c n ts t) : ts ≠ [] := by
  obtain ⟨first, more, rfl, -⟩ := h.exists_head
  exact List.cons_ne_nil first more

end BasicScript
