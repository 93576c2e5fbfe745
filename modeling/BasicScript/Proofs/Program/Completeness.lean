/-
  The parsers of statements and programs read whatever the grammar derives.

  * `Follows token`: what a body begins with or is closed by.  Such a token can stand right behind a
    condition or a range; it never goes on with the expression (`Follows.spec`).
  * `bodyParser k` is the parser of the bodies inside a statement with `k` levels.
  * `ReadsPart deep p k d ts t`: what the parser of part `p` does on the tokens of `t`, which may be to
    give up on too many levels if `deep`.
  * `Builds.comesTo`: by induction on derivations, all that is derived is read, or it has more levels
    than may be opened; the statements with bodies are lemmas of their own (`complete_if`,
    `complete_for`, ...).
  * `BuildsProgram.comesTo`: so it is for programs whose subroutines have different keys;
    `BuildsProgram.complete`: those within the levels left are read.
  * `program_sound_and_complete`: the grammar derives what the parser reads, and the parser reads
    what the grammar derives.
-/
import BasicScript.Proofs.Parser.Completeness
import BasicScript.Proofs.Program.Soundness

namespace BasicScript

/-! ## What follows -/

/-- What a body begins with or is closed by. -/
def Follows (token : Token) : Prop := token ∈ separators ∨ token ∈ closers ∨ Opens token

theorem Opens.not_separator {token : Token} (h : Opens token) : token ∉ separators := by
  cases h <;> simp [separators]

theorem Opens.not_closer {token : Token} (h : Opens token) : token ∉ closers := by
  cases h with
  | word hword =>
    intro hmem
    simp only [closers, List.mem_cons, Token.keyword.injEq, List.not_mem_nil, or_false] at hmem
    rcases hmem with rfl | rfl | rfl | rfl | rfl <;> exact absurd hword (by decide)
  | _ => simp [closers]

theorem Opens.ne_sub {token : Token} (h : Opens token) : token ≠ .keyword .sub := by
  rintro rfl
  cases h with
  | word hword => exact absurd hword (by decide)

/-- No such token goes on with an expression, a list or a `FOR`. -/
theorem Follows.spec {token : Token} (h : Follows token) :
    token.binaryOp? = none ∧ token ≠ .symbol .leftBracket ∧ token ≠ .symbol .leftParen ∧
      token ≠ .symbol .comma ∧ token ≠ .keyword .step := by
  rcases h with h | h | h
  · simp only [separators, List.mem_cons, List.not_mem_nil, or_false] at h
    rcases h with rfl | rfl <;> exact ⟨rfl, by simp⟩
  · simp only [closers, List.mem_cons, List.not_mem_nil, or_false] at h
    rcases h with rfl | rfl | rfl | rfl | rfl <;> exact ⟨rfl, by simp⟩
  · cases h with
    | word hword =>
      simp only [statementWords, List.mem_cons, List.not_mem_nil, or_false] at hword
      rcases hword with rfl | rfl | rfl | rfl | rfl | rfl | rfl | rfl | rfl <;>
        exact ⟨rfl, by simp⟩
    | _ => exact ⟨rfl, by simp⟩

/-- No expression begins where a statement ends. -/
theorem Derives.not_ended {c : Category} {n : Nat} {ts : List PlacedToken} {t : c.Tree}
    (h : Derives c n ts t) : ∀ rest, ¬ Ended (ts ++ rest) := by
  induction h with
  | expression _ ih | operand _ ih | indexed _ ih | primary _ ih | lastArgument _ ih => exact ih
  | binary _ _ _ ih _ | index _ _ ih _ | argument _ _ ih _ =>
    intro rest
    simpa only [List.append_assoc] using ih _
  | sign hop _ _ =>
    intro rest hend
    have hfirst := ended_cons.1 hend
    simp only [signs, List.mem_cons, Prod.mk.injEq, List.not_mem_nil, or_false] at hop
    rcases hop with ⟨rfl, -⟩ | ⟨rfl, -⟩ <;> simp [separators, closers] at hfirst
  | literal value =>
    intro rest hend
    have hfirst := ended_cons.1 hend
    cases value <;> simp [Literal.token, separators, closers] at hfirst
  | name | callEmpty | call | group =>
    intro rest hend
    have hfirst := ended_cons.1 hend
    simp [separators, closers] at hfirst

open BasicScript.Parser

/-- The next token, if there is one, begins or closes a body. -/
def FollowedBy (rest : List PlacedToken) : Prop := ∀ t ∈ rest.head?, Follows t.token

section
variable {token : Token} {ts rest : List PlacedToken} {t : PlacedToken} {n r : Nat}

theorem Ended.followedBy (h : Ended rest) : FollowedBy rest := by
  intro t ht
  rcases h t ht with hsep | hclose
  · exact .inl hsep
  · exact .inr (.inl hclose)

/-- Behind an expression, a body begins. -/
theorem followedBy_body {ss : List Statement} (h : Builds .body n ts ss) (ht : t.token ∈ closers) :
    FollowedBy (ts ++ t :: rest) := by
  cases h with
  | body h =>
    cases ts with
    | nil =>
      rintro u ⟨⟩
      exact .inr (.inl ht)
    | cons first ts =>
      rintro u ⟨⟩
      rcases h.sequence_head first rfl with hsep | hopens
      · exact .inl hsep
      · exact .inr (.inr hopens)

theorem FollowedBy.closes (h : FollowedBy rest) : Closes r rest := by
  rcases rest with - | ⟨⟨token, line⟩, rest⟩
  · exact headNot_nil
  · obtain ⟨hop, hbracket, hparen, -⟩ := (h _ rfl).spec
    exact closes_of_binaryOp?_eq_none hop hbracket hparen

theorem FollowedBy.not_leftBracket (h : FollowedBy rest) : HeadNot (· = .symbol .leftBracket) rest :=
  fun t ht => (h t ht).spec.2.1

theorem FollowedBy.not_leftParen (h : FollowedBy rest) : HeadNot (· = .symbol .leftParen) rest :=
  fun t ht => (h t ht).spec.2.2.1

theorem FollowedBy.not_comma (h : FollowedBy rest) : HeadNot (· = .symbol .comma) rest :=
  fun t ht => (h t ht).spec.2.2.2.1

theorem FollowedBy.not_step (h : FollowedBy rest) : HeadNot (· = .keyword .step) rest :=
  fun t ht => (h t ht).spec.2.2.2.2

theorem Ended.not_name (h : Ended rest) : HeadNot (∃ name, · = .name name) rest := by
  rintro t ht ⟨name, hname⟩
  have hend := h t ht
  rw [hname] at hend
  simp [separators, closers] at hend

end

/-! ## Parts of statements -/

section
variable {deep : Prop} {n d line : Nat} {ts us rest : List PlacedToken} {e : Expr} {es : List Expr}

theorem Derives.read (h : Derives .expression n ts e) (hd : deep ∨ d + n ≤ maxNesting)
    (hrest : Closes BinaryOp.ranks rest) :
    ComesTo deep (Parser.expression ⟨ts ++ rest, d⟩) (.ok e ⟨rest, d⟩) :=
  h.comesTo (maxNesting + 1) d (by omega) hd rest hrest

theorem BuildsIndices.read (h : BuildsIndices n ts es) (hd : deep ∨ d + n ≤ maxNesting)
    (hrest : HeadNot (· = .symbol .leftBracket) rest) :
    ∀ bound : List PlacedToken, ts.length ≤ bound.length →
      ComesTo deep (targetIndices bound ⟨ts ++ rest, d⟩) (.ok es ⟨rest, d⟩) := by
  induction h with
  | none => exact fun _ _ => .inl (targetIndices_of_headNot hrest)
  | @index opening closing ts us key keys hkey _ ih =>
    intro bound hbound
    cases bound with
    | nil => simp at hbound
    | cons b bound =>
      simp only [List.length_append, List.length_cons] at hbound
      have hclose : Closes BinaryOp.ranks (⟨.symbol .rightBracket, closing⟩ :: (us ++ rest)) :=
        closes_of_binaryOp?_eq_none rfl nofun nofun
      simp only [List.append_assoc, List.cons_append]
      rw [targetIndices_cons]
      refine (hkey.read hd hclose).bind ?_
      rw [bind_of_ok expect_cons]
      exact (ih bound (by omega)).bind (.refl _)

theorem BuildsAssignment.read {s : Statement} (h : BuildsAssignment n line ts s)
    (hd : deep ∨ d + n ≤ maxNesting) (hrest : Closes BinaryOp.ranks rest) :
    ComesTo deep (assignment line ⟨ts ++ rest, d⟩) (.ok s ⟨rest, d⟩) := by
  cases h with
  | @assign at_ equals ts us name keys value hkeys hvalue =>
    have hequals : HeadNot (· = .symbol .leftBracket)
        (⟨.symbol .equals, equals⟩ :: (us ++ rest)) := headNot_cons.2 nofun
    simp only [List.append_assoc, List.cons_append]
    rw [assignment, bind_of_ok nameToken_cons, bind_of_ok (m := remaining) rfl]
    refine (hkeys.read hd hequals _ (by simp)).bind ?_
    rw [bind_of_ok (m := next?) rfl]
    exact (hvalue.read hd hrest).bind (.refl _)

theorem BuildsLetTail.closes {ss : List Statement} (h : BuildsLetTail n ts ss)
    (hrest : Ended rest) : Closes BinaryOp.ranks (ts ++ rest) := by
  cases h with
  | done => exact hrest.followedBy.closes
  | assign => exact closes_of_binaryOp?_eq_none rfl nofun nofun

theorem BuildsLetTail.read {ss : List Statement} (h : BuildsLetTail n ts ss)
    (hd : deep ∨ d + n ≤ maxNesting) (hrest : Ended rest) :
    ∀ bound : List PlacedToken, ts.length ≤ bound.length →
      ComesTo deep (letTail line bound ⟨ts ++ rest, d⟩) (.ok ss ⟨rest, d⟩) := by
  induction h with
  | done => exact fun _ _ => .inl (letTail_of_headNot hrest.followedBy.not_comma)
  | @assign comma t ts us s ss hs hss ih =>
    intro bound hbound
    cases bound with
    | nil => simp at hbound
    | cons b bound =>
      simp only [List.length_append, List.length_cons] at hbound
      have hread := hs.read hd (hss.closes hrest)
      simp only [List.append_assoc, List.cons_append] at hread ⊢
      rw [letTail_cons]
      exact hread.bind ((ih bound (by omega)).bind (.refl _))

theorem BuildsArguments.read (h : BuildsArguments n ts es) (hd : deep ∨ d + n ≤ maxNesting) :
    ∃ opening us, ts = ⟨.symbol .leftParen, opening⟩ :: us ∧ ∀ line rest,
      ComesTo deep (commaList expression (.symbol .rightParen) line ⟨us ++ rest, d⟩)
        (.ok es ⟨rest, d⟩) := by
  cases h with
  | empty => exact ⟨_, _, rfl, fun line rest => .inl commaList_closing⟩
  | @list opening closing ts es hes =>
    refine ⟨opening, ts ++ [⟨.symbol .rightParen, closing⟩], rfl, fun line rest => ?_⟩
    rw [List.append_assoc]
    exact (hes.comesTo (maxNesting + 1) d (by omega) hd).commaList_comesTo hes line

theorem BuildsInvocation.read {name : String} {at_ : Nat} (h : BuildsInvocation n ts es)
    (hd : deep ∨ d + n ≤ maxNesting) (hrest : HeadNot (· = .symbol .leftParen) rest) :
    ComesTo deep (invocation line ⟨⟨.name name, at_⟩ :: ts ++ rest, d⟩)
      (.ok (name, es) ⟨rest, d⟩) := by
  cases h with
  | bare => exact .inl (invocation_of_headNot hrest)
  | arguments hes =>
    obtain ⟨opening, us, rfl, hread⟩ := hes.read hd
    simp only [List.cons_append]
    rw [invocation_leftParen]
    exact (hread line rest).bind (.refl _)

/-- The arguments of a `PRINT`, the first of which is read before the loop. -/
theorem Derives.readPrint (h : Derives .arguments n ts es) (hd : deep ∨ d + n ≤ maxNesting)
    (hrest : Ended rest) :
    ∃ e es' more, es = e :: es' ∧
      ComesTo deep (Parser.expression ⟨ts ++ rest, d⟩) (.ok e ⟨more, d⟩) ∧
      more.length ≤ ts.length + rest.length ∧
      ∀ bound : List PlacedToken, more.length ≤ bound.length + rest.length →
        ComesTo deep (printTail bound ⟨more, d⟩) (.ok es' ⟨rest, d⟩) := by
  induction es generalizing ts with
  | nil => cases h
  | cons e es ih =>
    cases h with
    | lastArgument h =>
      refine ⟨e, [], rest, rfl, h.read hd hrest.followedBy.closes, by omega, fun bound _ => ?_⟩
      exact .inl (printTail_of_headNot hrest.followedBy.not_comma)
    | @argument _ comma ts us _ _ h hes =>
      obtain ⟨e', es', more, rfl, hread, hlength, htail⟩ := ih hes
      have hcomma : Closes BinaryOp.ranks (⟨.symbol .comma, comma⟩ :: (us ++ rest)) :=
        closes_of_binaryOp?_eq_none rfl nofun nofun
      refine ⟨e, e' :: es', ⟨.symbol .comma, comma⟩ :: (us ++ rest), rfl, ?_, ?_,
        fun bound hbound => ?_⟩
      · rw [List.append_assoc, List.cons_append]
        exact h.read hd hcomma
      · simp only [List.length_cons, List.length_append]
        omega
      · simp only [List.length_cons, List.length_append] at hbound
        cases bound with
        | nil => simp only [List.length_nil] at hbound; omega
        | cons b bound =>
          simp only [List.length_cons] at hbound
          rw [printTail_cons]
          exact hread.bind ((htail bound (by omega)).bind (.refl _))

theorem BuildsStep.read {step : Option Expr} (h : BuildsStep n ts step)
    (hd : deep ∨ d + n ≤ maxNesting) (hrest : FollowedBy rest) :
    ComesTo deep (clause? .step ⟨ts ++ rest, d⟩) (.ok step ⟨rest, d⟩) := by
  cases h with
  | none => exact .inl (clause?_of_headNot hrest.not_step)
  | step he =>
    rw [List.cons_append, clause?_cons, map_eq_pure_bind]
    exact (he.read hd hrest.closes).bind (.refl _)

theorem BuildsStep.closes {step : Option Expr} (h : BuildsStep n ts step)
    (hrest : FollowedBy rest) : Closes BinaryOp.ranks (ts ++ rest) := by
  cases h with
  | none => exact hrest.closes
  | step => exact closes_of_binaryOp?_eq_none rfl nofun nofun

theorem BuildsNext.read {counter : String} (h : BuildsNext counter ts) (hrest : Ended rest) :
    ∃ word us, ts = ⟨.keyword .next_, word⟩ :: us ∧
      ∀ line, nextName counter line ⟨us ++ rest, d⟩ = .ok () ⟨rest, d⟩ := by
  cases h with
  | bare => exact ⟨_, _, rfl, fun line => nextName_of_headNot hrest.not_name⟩
  | named => exact ⟨_, _, rfl, fun line => nextName_cons⟩

end

/-! ## Statements and bodies -/

/-- The parser of bodies inside a statement with `k` levels. -/
def bodyParser (k : Nat) : BodyParser := fun closes line => nested (bodyAt k closes line)

/-- Only words that close bodies are accepted. -/
def ClosesBodies (closes : Token → Bool) : Prop := ∀ token, closes token = true → token ∈ closers

theorem closesBodies_word {word : Keyword} (h : .keyword word ∈ closers) :
    ClosesBodies (· = .keyword word) := by
  intro token htoken
  rwa [of_decide_eq_true htoken]

theorem closesBodies_then :
    ClosesBodies fun t => t = .keyword .else_ || t = .keyword .endIf := by
  intro token htoken
  have hword : token = .keyword .else_ ∨ token = .keyword .endIf := by simpa using htoken
  rcases hword with rfl | rfl <;> simp [closers]

/-- What the parser of a part does on tokens that make up the tree `t`, with `d` levels open: it
gives `t` and leaves what follows, or gives up on too many levels, which it may if `deep`.  Sequences
are read together with the word that closes them. -/
def ReadsPart (deep : Prop) : (p : Part) → (k d : Nat) → List PlacedToken → p.Tree → Prop
  | .statement, k, d, ts, s => ∀ rest, Ended rest →
    ComesTo deep (statementForm (bodyParser k) ⟨ts ++ rest, d⟩) (.ok s ⟨rest, d⟩)
  | .item, k, d, ts, ss => ∀ rest, Ended rest →
    ComesTo deep (itemWith (bodyParser k) ⟨ts ++ rest, d⟩) (.ok ss ⟨rest, d⟩)
  | .sequence, k, d, ts, ss => ∀ closes line stop rest, ClosesBodies closes →
    closes stop.token = true → ∀ bound : List PlacedToken, ts.length < bound.length →
      ComesTo deep (itemsUntil (itemWith (bodyParser k)) closes line bound ⟨ts ++ stop :: rest, d⟩)
        (.ok (ss, stop) ⟨rest, d⟩)
  | .body, k, d, ts, ss => ∀ closes line stop rest, ClosesBodies closes →
    closes stop.token = true →
      ComesTo deep (bodyParser k closes line ⟨ts ++ stop :: rest, d⟩) (.ok (ss, stop) ⟨rest, d⟩)

section
variable {deep : Prop} {n k d line : Nat} {ts us vs ws xs rest : List PlacedToken} {condition : Expr}

/-! ### Statements with bodies -/

theorem closes_then {then_ : Nat} : Closes BinaryOp.ranks (⟨.keyword .then_, then_⟩ :: rest) :=
  closes_of_binaryOp?_eq_none rfl nofun nofun

section
variable {body thenBody elseBody : List Statement} (hd : deep ∨ d + n ≤ maxNesting)
include hd

theorem complete_while {wend : Nat} (hts : Derives .expression n ts condition)
    (hus : Builds .body n us body) (h : ReadsPart deep .body k d us body) :
    ReadsPart deep .statement k d (⟨.keyword .while_, line⟩ :: ts ++ us ++ [⟨.keyword .wend, wend⟩])
      (.while_ condition body line) := by
  intro rest _
  have hwend : FollowedBy (us ++ ⟨.keyword .wend, wend⟩ :: rest) :=
    followedBy_body hus (by simp [closers])
  have hbody := h (fun t => t = .keyword .wend) line ⟨.keyword .wend, wend⟩ rest
    (closesBodies_word (by simp [closers])) rfl
  simp only [List.append_assoc, List.cons_append, List.nil_append]
  rw [statementForm_while, whileStatement]
  exact (hts.read hd hwend.closes).bind (hbody.bind (.refl _))

theorem complete_if {then_ endIf : Nat} (hts : Derives .expression n ts condition)
    (h : ReadsPart deep .body k d us thenBody) :
    ReadsPart deep .statement k d (⟨.keyword .if_, line⟩ :: ts ++ ⟨.keyword .then_, then_⟩ :: us ++
        [⟨.keyword .endIf, endIf⟩])
      (.if_ condition thenBody none line) := by
  intro rest _
  have hthen := h (fun t => t = .keyword .else_ || t = .keyword .endIf) line
    ⟨.keyword .endIf, endIf⟩ rest closesBodies_then rfl
  simp only [List.append_assoc, List.cons_append, List.nil_append]
  rw [statementForm_if, ifStatement]
  refine (hts.read hd closes_then).bind ?_
  rw [bind_of_ok expect_cons]
  exact hthen.bind (.refl _)

theorem complete_ifElse {then_ else_ endIf : Nat} (hts : Derives .expression n ts condition)
    (h : ReadsPart deep .body k d us thenBody) (h' : ReadsPart deep .body k d vs elseBody) :
    ReadsPart deep .statement k d (⟨.keyword .if_, line⟩ :: ts ++ ⟨.keyword .then_, then_⟩ :: us ++
        ⟨.keyword .else_, else_⟩ :: vs ++ [⟨.keyword .endIf, endIf⟩])
      (.if_ condition thenBody (some elseBody) line) := by
  intro rest _
  have hthen := h (fun t => t = .keyword .else_ || t = .keyword .endIf) line
    ⟨.keyword .else_, else_⟩ (vs ++ ⟨.keyword .endIf, endIf⟩ :: rest) closesBodies_then rfl
  have helse := h' (fun t => t = .keyword .endIf) else_ ⟨.keyword .endIf, endIf⟩ rest
    (closesBodies_word (by simp [closers])) rfl
  simp only [List.append_assoc, List.cons_append, List.nil_append]
  rw [statementForm_if, ifStatement]
  refine (hts.read hd closes_then).bind ?_
  rw [bind_of_ok expect_cons]
  exact hthen.bind (helse.bind (.refl _))

theorem complete_for {at_ equals to_ : Nat} {counter : String} {first last : Expr}
    {step : Option Expr} (hts : Derives .expression n ts first)
    (hus : Derives .expression n us last) (hvs : BuildsStep n vs step) (hws : Builds .body n ws body)
    (h : ReadsPart deep .body k d ws body) (hxs : BuildsNext counter xs) :
    ReadsPart deep .statement k d (⟨.keyword .for_, line⟩ :: ⟨.name counter, at_⟩ ::
        ⟨.symbol .equals, equals⟩ :: ts ++ ⟨.keyword .to_, to_⟩ :: us ++ vs ++ ws ++ xs)
      (.for_ counter first last step body line) := by
  intro rest hrest
  obtain ⟨word, xs, rfl, hnext⟩ := hxs.read (d := d) hrest
  have hto : Closes BinaryOp.ranks
      (⟨.keyword .to_, to_⟩ :: (us ++ (vs ++ (ws ++ ⟨.keyword .next_, word⟩ :: (xs ++ rest))))) :=
    closes_of_binaryOp?_eq_none rfl nofun nofun
  have hbody : FollowedBy (ws ++ ⟨.keyword .next_, word⟩ :: (xs ++ rest)) :=
    followedBy_body hws (by simp [closers])
  have hread := h (fun t => t = .keyword .next_) line ⟨.keyword .next_, word⟩ (xs ++ rest)
    (closesBodies_word (by simp [closers])) rfl
  simp only [List.append_assoc, List.cons_append]
  rw [statementForm_for, forStatement_eq, bind_of_ok nameToken_cons, bind_of_ok expect_cons]
  refine (hts.read hd hto).bind ?_
  rw [bind_of_ok expect_cons]
  refine (hus.read hd (hvs.closes hbody)).bind ((hvs.read hd hbody).bind (hread.bind ?_))
  rw [bind_of_ok (hnext word)]
  exact .refl _

/-! ### Other statements -/

theorem complete_print {es : List Expr} (h : Derives .arguments n ts es) :
    ReadsPart deep .statement k d (⟨.keyword .print, line⟩ :: ts) (.print es line) := by
  intro rest hrest
  obtain ⟨e, es, more, rfl, hread, -, htail⟩ := h.readPrint hd hrest
  rw [List.cons_append, statementForm_print, printStatement_of_not_ended (h.not_ended rest)]
  refine hread.bind ?_
  rw [bind_of_ok (m := remaining) rfl]
  exact (htail more (by simp)).bind (.refl _)

theorem complete_dimKey {at_ opening closing : Nat} {name : String} {key : Expr}
    (h : Derives .expression n ts key) :
    ReadsPart deep .statement k d (⟨.keyword .dim, line⟩ :: ⟨.name name, at_⟩ ::
        ⟨.symbol .leftBracket, opening⟩ :: ts ++ [⟨.symbol .rightBracket, closing⟩])
      (.dim name (some key) line) := by
  intro rest _
  have hclose : Closes BinaryOp.ranks (⟨.symbol .rightBracket, closing⟩ :: rest) :=
    closes_of_binaryOp?_eq_none rfl nofun nofun
  simp only [List.append_assoc, List.cons_append, List.nil_append]
  rw [statementForm_dim, dimStatement_leftBracket]
  refine (h.read hd hclose).bind ?_
  rw [bind_of_ok expect_cons]
  exact .refl _

theorem complete_return {value : Expr} (h : Derives .expression n ts value) :
    ReadsPart deep .statement k d (⟨.keyword .return_, line⟩ :: ts) (.return_ (some value) line) := by
  intro rest hrest
  rw [List.cons_append, statementForm_return, returnStatement_of_not_ended (h.not_ended rest)]
  exact (h.read hd hrest.followedBy.closes).bind (.refl _)

theorem complete_bareCall {name : String} {es : List Expr} (h : BuildsArguments n ts es) :
    ReadsPart deep .statement k d (⟨.name name, line⟩ :: ts) (.call name es line) := by
  intro rest hrest
  have hread : ComesTo deep (invocation line ⟨⟨.name name, line⟩ :: ts ++ rest, d⟩)
      (.ok (name, es) ⟨rest, d⟩) :=
    (BuildsInvocation.arguments h).read hd hrest.followedBy.not_leftParen
  obtain ⟨opening, us, rfl, -⟩ := h.read hd
  simp only [List.cons_append] at hread ⊢
  rw [statementForm_name, nameStatement_leftParen]
  exact hread.bind (.refl _)

theorem complete_assign {t : PlacedToken} {s : Statement}
    (h : BuildsAssignment n t.line (t :: ts) s) : ReadsPart deep .statement k d (t :: ts) s := by
  intro rest hrest
  have hread := h.read hd hrest.followedBy.closes
  cases h with
  | @assign at_ equals ts us name keys value hkeys _ =>
    have hhead : HeadNot (· = .symbol .leftParen)
        (ts ++ ⟨.symbol .equals, equals⟩ :: us ++ rest) := by
      cases hkeys with
      | none => exact headNot_cons.2 nofun
      | index => exact headNot_cons.2 nofun
    rw [List.cons_append, statementForm_name]
    exact ComesTo.trans (.inl (nameStatement_of_headNot hhead)) hread

end

/-! ### Items and bodies -/

theorem complete_single {s : Statement} (hs : Builds .statement n ts s)
    (h : ReadsPart deep .statement k d ts s) : ReadsPart deep .item k d ts [s] := by
  intro rest hrest
  obtain ⟨first, ts, rfl, -, hlet⟩ := hs.statement_head
  rw [List.cons_append, itemWith_of_headNot (headNot_cons.2 hlet), ← List.cons_append]
  refine ComesTo.bind ((h rest hrest).bind ?_) (.refl _)
  rw [bind_of_ok (expectStatementEnd_of_ended hrest)]
  exact .refl _

theorem complete_let {s : Statement} {ss : List Statement} (hd : deep ∨ d + n ≤ maxNesting)
    (hs : BuildsAssignment n line ts s) (hss : BuildsLetTail n us ss) :
    ReadsPart deep .item k d (⟨.keyword .let_, line⟩ :: ts ++ us) (s :: ss) := by
  intro rest hrest
  simp only [List.cons_append, List.append_assoc]
  rw [itemWith_let]
  refine (hs.read hd (hss.closes hrest)).bind ?_
  rw [bind_of_ok (m := remaining) rfl]
  refine (hss.read hd hrest _ (by simp)).bind ?_
  rw [bind_of_ok (expectStatementEnd_of_ended hrest)]
  exact .refl _

theorem not_separator_of_closer {token : Token} (h : token ∈ closers) : token ∉ separators := by
  simp only [closers, List.mem_cons, List.not_mem_nil, or_false] at h
  rcases h with rfl | rfl | rfl | rfl | rfl <;> simp [separators]

theorem complete_done : ReadsPart deep .sequence k d [] [] := by
  intro closes line stop rest hcloses hstop bound hbound
  cases bound with
  | nil => simp at hbound
  | cons b bound =>
    exact .inl (itemsUntil_closing (not_separator_of_closer (hcloses _ hstop)) hstop)

theorem complete_separator {token : Token} {ss : List Statement} (hsep : token ∈ separators)
    (h : ReadsPart deep .sequence k d ts ss) : ReadsPart deep .sequence k d (⟨token, line⟩ :: ts) ss := by
  intro closes line' stop rest hcloses hstop bound hbound
  cases bound with
  | nil => simp at hbound
  | cons b bound =>
    simp only [List.length_cons] at hbound
    rw [List.cons_append, itemsUntil_separator hsep]
    exact h closes line' stop rest hcloses hstop (b :: bound) (by simp only [List.length_cons]; omega)

/-- One item of a sequence; behind it there is a separator, another end of statement or the word that
closes the body. -/
theorem complete_cons {ss more : List Statement} (hts : Builds .item n ts ss) (hend : Ended us)
    (h : ReadsPart deep .item k d ts ss) (hmore : ReadsPart deep .sequence k d us more) :
    ReadsPart deep .sequence k d (ts ++ us) (ss ++ more) := by
  intro closes line stop rest hcloses hstop bound hbound
  obtain ⟨first, ts, rfl, hopens⟩ := hts.item_head
  cases bound with
  | nil => simp at hbound
  | cons b bound =>
    simp only [List.length_cons, List.length_append] at hbound
    have hstays : ¬ closes first.token = true := fun h => hopens.not_closer (hcloses _ h)
    have hitem := h (us ++ stop :: rest) (hend.append_closer (hcloses _ hstop))
    have hrest := hmore closes line stop rest hcloses hstop bound (by omega)
    simp only [List.append_assoc, List.cons_append] at hitem ⊢
    rw [itemsUntil_item hopens.not_separator hstays]
    exact hitem.bind (hrest.bind (.refl _))

theorem complete_body {ss : List Statement} (hd : deep ∨ d < maxNesting)
    (h : d < maxNesting → ∃ k', k = k' + 1 ∧ ReadsPart deep .sequence k' (d + 1) ts ss) :
    ReadsPart deep .body k d ts ss := by
  intro closes line stop rest hcloses hstop
  obtain ⟨first, more, htokens⟩ : ∃ first more, ts ++ stop :: rest = first :: more :=
    List.exists_cons_of_ne_nil (by simp)
  rw [htokens]
  refine ComesTo.nested hd fun hlt => ?_
  obtain ⟨k, rfl, hinner⟩ := h hlt
  rw [← htokens]
  exact hinner closes line stop rest hcloses hstop (ts ++ stop :: rest) (by simp)

end

/-- The parsers read what is derived, if they are made for as many levels as may still be opened; they
give up only on a derivation that opens more. -/
theorem Builds.comesTo {deep : Prop} {p : Part} {n : Nat} {ts : List PlacedToken} {t : p.Tree}
    (h : Builds p n ts t) :
    ∀ k d, maxNesting ≤ k + d → deep ∨ d + n ≤ maxNesting → ReadsPart deep p k d ts t := by
  induction h with
  | printEmpty => exact fun k d _ _ rest hrest => .inl (printStatement_of_ended hrest)
  | print h => exact fun k d _ hd => complete_print hd h
  | dim =>
    exact fun k d _ _ rest hrest => .inl (dimStatement_of_headNot hrest.followedBy.not_leftBracket)
  | dimKey h => exact fun k d _ hd => complete_dimKey hd h
  | if_ h _ ih => exact fun k d hk hd => complete_if hd h (ih k d hk hd)
  | ifElse h _ _ ih ih' => exact fun k d hk hd => complete_ifElse hd h (ih k d hk hd) (ih' k d hk hd)
  | for_ h h' hstep hbody hnext ih =>
    exact fun k d hk hd => complete_for hd h h' hstep hbody (ih k d hk hd) hnext
  | while_ h hbody ih => exact fun k d hk hd => complete_while hd h hbody (ih k d hk hd)
  | returnEmpty => exact fun k d _ _ rest hrest => .inl (returnStatement_of_ended hrest)
  | return_ h => exact fun k d _ hd => complete_return hd h
  | call h =>
    intro k d _ hd rest hrest
    exact (h.read hd hrest.followedBy.not_leftParen).bind (.refl _)
  | bareCall h => exact fun k d _ hd => complete_bareCall hd h
  | command h =>
    intro k d _ hd rest hrest
    exact (h.read hd hrest.followedBy.not_leftParen).bind (.refl _)
  | abort | remark => exact fun k d _ _ rest _ => .refl _
  | assign h => exact fun k d _ hd => complete_assign hd h
  | single hs ih => exact fun k d hk hd => complete_single hs (ih k d hk hd)
  | let_ hs hss => exact fun k d _ hd => complete_let hd hs hss
  | done => exact fun k d _ _ => complete_done
  | separator hsep _ ih => exact fun k d hk hd => complete_separator hsep (ih k d hk hd)
  | cons hts hend _ ih ih' =>
    exact fun k d hk hd => complete_cons hts hend (ih k d hk hd) (ih' k d hk hd)
  | @body n ts ss h ih =>
    -- a level opens: one less is left to the parser inside, and one more is open
    intro k d hk hd
    refine complete_body (hd.imp_right fun hd => by omega) fun hlt => ?_
    exact ⟨k - 1, by omega, ih _ (d + 1) (by omega) (hd.imp_right fun hd => by omega)⟩

/-! ## Programs -/

section
variable {deep : Prop} {n d line : Nat} {ts rest : List PlacedToken}

theorem BuildsNames.exists_head {names : List String} (h : BuildsNames ts names) :
    ∃ name at_ more, ts = ⟨.name name, at_⟩ :: more := by
  cases h <;> exact ⟨_, _, _, rfl⟩

theorem BuildsNames.reads {names : List String} (h : BuildsNames ts names) :
    ReadsList deep nameToken d ts names := by
  induction h with
  | last name => exact readsList_last fun _ _ => .inl nameToken_cons
  | @cons at_ comma ts names name _ ih =>
    have hname : ∀ rest, nameToken ⟨[⟨.name name, at_⟩] ++ ⟨.symbol .comma, comma⟩ :: rest, d⟩ =
        .ok name ⟨⟨.symbol .comma, comma⟩ :: rest, d⟩ := fun _ => nameToken_cons
    exact readsList_cons (fun rest => .inl (hname rest)) ih

theorem BuildsParameters.read {params : List String} (h : BuildsParameters ts params) :
    (ts = [] ∧ params = []) ∨ ∃ opening us, ts = ⟨.symbol .leftParen, opening⟩ :: us ∧
      ∀ line rest, ComesTo deep (commaList nameToken (.symbol .rightParen) line ⟨us ++ rest, d⟩)
        (.ok params ⟨rest, d⟩) := by
  cases h with
  | bare => exact .inl ⟨rfl, rfl⟩
  | empty => exact .inr ⟨_, _, rfl, fun line rest => .inl commaList_closing⟩
  | @list opening closing ts names hnames =>
    refine .inr ⟨opening, ts ++ [⟨.symbol .rightParen, closing⟩], rfl, fun line rest => ?_⟩
    rw [List.append_assoc]
    obtain ⟨name, at_, us, rfl⟩ := hnames.exists_head
    have hfirst : Token.name name ≠ .symbol .rightParen := nofun
    exact ReadsList.commaList_comesTo hfirst hnames.reads line

theorem BuildsSubroutine.read {s : Subroutine} (h : BuildsSubroutine n ts s)
    (hd : deep ∨ d + n ≤ maxNesting) :
    ComesTo deep (subroutine ⟨ts ++ rest, d⟩) (.ok s ⟨rest, d⟩) := by
  cases h with
  | @sub line at_ endSub ts us name params ss hparams hbody =>
    have hread := hbody.comesTo (maxNesting + 1) d (by omega) hd (fun t => t = .keyword .endSub)
      line ⟨.keyword .endSub, endSub⟩ rest (closesBodies_word (by simp [closers])) rfl
    have hhead : FollowedBy (us ++ ⟨.keyword .endSub, endSub⟩ :: rest) :=
      followedBy_body hbody (by simp [closers])
    rcases hparams.read with ⟨rfl, rfl⟩ | ⟨opening, vs, rfl, hlist⟩
    · simp only [List.append_assoc, List.cons_append, List.nil_append]
      rw [subroutine_of_headNot hhead.not_leftParen]
      exact hread.bind (.refl _)
    · simp only [List.append_assoc, List.cons_append, List.nil_append]
      rw [subroutine_leftParen]
      exact (hlist line _).bind (hread.bind (.refl _))

/-- The parser of programs reads a program whose subroutines have different keys, none of them known
before, or gives up on one that opens too many levels. -/
theorem BuildsProgram.comesTo {p : Program} (h : BuildsProgram n ts p)
    (hd : deep ∨ d + n ≤ maxNesting) :
    ∀ known (bound : List PlacedToken), ts.length ≤ bound.length →
      FreshKeys known p.subroutines →
        ComesTo deep (topLevel known bound ⟨ts, d⟩) (.ok p ⟨[], d⟩) := by
  induction h with
  | done =>
    intro known bound _ _
    cases bound <;> exact .refl _
  | separator hsep _ ih =>
    intro known bound hbound hkeys
    cases bound with
    | nil => simp at hbound
    | cons b bound =>
      rw [topLevel_separator hsep]
      exact ih known (b :: bound) (Nat.le_of_succ_le hbound) hkeys
  | item hts hend _ ih =>
    intro known bound hbound hkeys
    have hread := hts.comesTo (maxNesting + 1) d (by omega) hd _ hend
    obtain ⟨first, ts, rfl, hopens⟩ := hts.item_head
    cases bound with
    | nil => simp at hbound
    | cons b bound =>
      have hshort := length_le_of_append hts.item_ne_nil rfl hbound
      rw [List.cons_append] at hread ⊢
      rw [topLevel_item hopens.not_separator hopens.ne_sub]
      exact hread.bind ((ih known bound hshort hkeys).bind (.refl _))
  | @subroutine ts us s p hts _ ih =>
    intro known bound hbound hkeys
    have hread : ComesTo deep (Parser.subroutine ⟨ts ++ us, d⟩) (.ok s ⟨us, d⟩) := hts.read hd
    obtain ⟨hnew, hothers⟩ := freshKeys_cons.1 hkeys
    obtain ⟨line, more, rfl⟩ := hts.exists_head
    cases bound with
    | nil => simp at hbound
    | cons b bound =>
      have hshort := length_le_of_append (List.cons_ne_nil _ _) rfl hbound
      rw [List.cons_append] at hread ⊢
      rw [topLevel_sub]
      refine hread.bind ?_
      rw [if_neg hnew]
      exact (ih _ bound hshort hothers).bind (.refl _)

/-- A program within the levels left is read. -/
theorem BuildsProgram.complete {p : Program} (h : BuildsProgram n ts p) (hd : d + n ≤ maxNesting)
    (known : List CallKey) (bound : List PlacedToken) (hbound : ts.length ≤ bound.length)
    (hkeys : FreshKeys known p.subroutines) : topLevel known bound ⟨ts, d⟩ = .ok p ⟨[], d⟩ := by
  have hread : ComesTo False (topLevel known bound ⟨ts, d⟩) (.ok p ⟨[], d⟩) :=
    h.comesTo (.inr hd) known bound hbound hkeys
  exact hread.eq id

end

theorem findSubroutine?_eq_some_iff {table : List Subroutine}
    (hnodup : (table.map Subroutine.key).Nodup) {key : CallKey} {s : Subroutine} :
    findSubroutine? table key = some s ↔ s ∈ table ∧ s.key = key := by
  induction table with
  | nil => simp [findSubroutine?]
  | cons t table ih =>
    obtain ⟨hfirst, hnodup⟩ := List.nodup_cons.1 hnodup
    by_cases hkey : t.key = key
    · rw [findSubroutine?, List.find?_cons_of_pos (by simp [hkey])]
      constructor
      · rintro ⟨⟩
        exact ⟨List.mem_cons_self, hkey⟩
      · rintro ⟨hmem, hs⟩
        rcases List.mem_cons.1 hmem with rfl | hmem
        · rfl
        · exact absurd (List.mem_map.2 ⟨s, hmem, hs.trans hkey.symm⟩) hfirst
    · rw [findSubroutine?, List.find?_cons_of_neg (by simp [hkey]), ← findSubroutine?, ih hnodup]
      constructor
      · rintro ⟨hmem, hs⟩
        exact ⟨List.mem_cons_of_mem t hmem, hs⟩
      · rintro ⟨hmem, hs⟩
        rcases List.mem_cons.1 hmem with rfl | hmem
        · exact absurd hs hkey
        · exact ⟨hmem, hs⟩

/-- **The parser of programs reads what the grammar derives, to the last token, and nothing else.**
The program that it returns maps each name and number of parameters to its one definition. -/
theorem program_sound_and_complete :
    (∀ tokens p rest, Parser.program.parseTokens tokens = .ok (p, rest) ↔
      rest = [] ∧ BuildsProgram maxNesting tokens p ∧ (p.subroutines.map Subroutine.key).Nodup) ∧
    (∀ tokens p rest, Parser.program.parseTokens tokens = .ok (p, rest) →
      ∀ key s, findSubroutine? p.subroutines key = some s ↔ s ∈ p.subroutines ∧ s.key = key) := by
  have hsound : ∀ tokens p rest, Parser.program.parseTokens tokens = .ok (p, rest) →
      rest = [] ∧ BuildsProgram maxNesting tokens p ∧
        (p.subroutines.map Subroutine.key).Nodup := by
    intro tokens p rest h
    rw [Parser.parseTokens] at h
    cases hrun : Parser.program ⟨tokens, 0⟩ with
    | error e s => rw [hrun] at h; cases h
    | ok q s =>
      rw [hrun] at h
      cases h
      obtain ⟨hrest, hp, hnodup, -⟩ :=
        topLevel_sound tokens [] tokens 0 p s (Nat.le_refl _) (program_eq_ok_iff.1 hrun)
      exact ⟨hrest, hp, hnodup⟩
  refine ⟨fun tokens p rest => ⟨hsound tokens p rest, ?_⟩, fun tokens p rest h key s => ?_⟩
  · rintro ⟨rfl, hp, hnodup⟩
    have hread := hp.complete (d := 0) (by omega) [] tokens (Nat.le_refl _) ⟨hnodup, by simp⟩
    rw [Parser.parseTokens, program_eq_ok_iff.2 hread]
  · exact findSubroutine?_eq_some_iff (hsound tokens p rest h).2.2

end BasicScript
