/-
  The grammar of statements and programs.

  * `Builds p n ts t`: the tokens `ts` make up the tree `t` of part `p`: a statement, an item (a
    statement or a `LET` with its list of assignments), a sequence of items, or a body.  At most `n`
    levels of nesting are open at once; a body is one level, as is an expression.
  * `BuildsProgram n ts p`: they make up the program `p`, whose subroutines stand at the top level
    only.
  * `FreshKeys known ss`: the subroutines have different keys, none of which is known.
  * `Ended rest`: what comes next may follow an item: a separator, a word that closes a body, or
    nothing.  Items in a sequence or a program are followed by it.
  * `Builds.statement_head`, `Builds.item_head`, `Builds.sequence_head`: what parts begin with.
-/
import BasicScript.Proofs.Parser.Grammar
import BasicScript.Script.Program

namespace BasicScript

/-! ## Ends of statements -/

/-- The tokens between statements. -/
def separators : List Token := [.symbol .colon, .symbol .newLine]

/-- The words that close bodies. -/
def closers : List Token :=
  [.keyword .else_, .keyword .endIf, .keyword .next_, .keyword .wend, .keyword .endSub]

/-- A separator, a word that closes a body, or the end of input comes next. -/
def Ended (rest : List PlacedToken) : Prop :=
  ∀ t ∈ rest.head?, t.token ∈ separators ∨ t.token ∈ closers

theorem ended_nil : Ended [] := nofun

theorem ended_cons {t : PlacedToken} {rest : List PlacedToken} :
    Ended (t :: rest) ↔ t.token ∈ separators ∨ t.token ∈ closers := by
  simp [Ended]

theorem ended_of_closer {t : PlacedToken} {rest : List PlacedToken} (ht : t.token ∈ closers) :
    Ended (t :: rest) :=
  ended_cons.2 (.inr ht)

theorem Ended.of_append {ts us : List PlacedToken} (h : Ended (ts ++ us)) : Ended ts := by
  cases ts with
  | nil => exact ended_nil
  | cons t ts => exact ended_cons.2 (ended_cons.1 h)

theorem Ended.append_closer {ts rest : List PlacedToken} {t : PlacedToken} (h : Ended ts)
    (ht : t.token ∈ closers) : Ended (ts ++ t :: rest) := by
  cases ts with
  | nil => exact ended_of_closer ht
  | cons first ts => exact ended_cons.2 (ended_cons.1 h)

/-! ## Parts of statements -/

/-- A list of arguments in parentheses. -/
inductive BuildsArguments (n : Nat) : List PlacedToken → List Expr → Prop
  | empty {opening closing : Nat} :
      BuildsArguments n [⟨.symbol .leftParen, opening⟩, ⟨.symbol .rightParen, closing⟩] []
  | list {opening closing : Nat} {ts : List PlacedToken} {es : List Expr} :
      Derives .arguments n ts es →
      BuildsArguments n
        (⟨.symbol .leftParen, opening⟩ :: ts ++ [⟨.symbol .rightParen, closing⟩]) es

/-- A list of arguments that may be left out together with its parentheses. -/
inductive BuildsInvocation (n : Nat) : List PlacedToken → List Expr → Prop
  | bare : BuildsInvocation n [] []
  | arguments {ts : List PlacedToken} {es : List Expr} :
      BuildsArguments n ts es → BuildsInvocation n ts es

/-- Indices in brackets, one after the other. -/
inductive BuildsIndices (n : Nat) : List PlacedToken → List Expr → Prop
  | none : BuildsIndices n [] []
  | index {opening closing : Nat} {ts us : List PlacedToken} {key : Expr} {keys : List Expr} :
      Derives .expression n ts key → BuildsIndices n us keys →
      BuildsIndices n
        (⟨.symbol .leftBracket, opening⟩ :: ts ++ ⟨.symbol .rightBracket, closing⟩ :: us)
        (key :: keys)

/-- `name[i]...[j] = value`; the statement carries the line `line`. -/
inductive BuildsAssignment (n line : Nat) : List PlacedToken → Statement → Prop
  | assign {at_ equals : Nat} {ts us : List PlacedToken} {name : String} {keys : List Expr}
      {value : Expr} : BuildsIndices n ts keys → Derives .expression n us value →
      BuildsAssignment n line (⟨.name name, at_⟩ :: ts ++ ⟨.symbol .equals, equals⟩ :: us)
        (.assign name keys value line)

/-- Further assignments of a `LET`, each behind a comma and on the line of its first token. -/
inductive BuildsLetTail (n : Nat) : List PlacedToken → List Statement → Prop
  | done : BuildsLetTail n [] []
  | assign {comma : Nat} {t : PlacedToken} {ts us : List PlacedToken} {s : Statement}
      {ss : List Statement} : BuildsAssignment n t.line (t :: ts) s → BuildsLetTail n us ss →
      BuildsLetTail n (⟨.symbol .comma, comma⟩ :: t :: ts ++ us) (s :: ss)

/-- `STEP step`, or nothing. -/
inductive BuildsStep (n : Nat) : List PlacedToken → Option Expr → Prop
  | none : BuildsStep n [] none
  | step {word : Nat} {ts : List PlacedToken} {e : Expr} : Derives .expression n ts e →
      BuildsStep n (⟨.keyword .step, word⟩ :: ts) (some e)

/-- `NEXT counter`, or `NEXT` alone. -/
inductive BuildsNext (counter : String) : List PlacedToken → Prop
  | bare {word : Nat} : BuildsNext counter [⟨.keyword .next_, word⟩]
  | named {word at_ : Nat} :
      BuildsNext counter [⟨.keyword .next_, word⟩, ⟨.name counter, at_⟩]

/-- Names between commas. -/
inductive BuildsNames : List PlacedToken → List String → Prop
  | last {at_ : Nat} (name : String) : BuildsNames [⟨.name name, at_⟩] [name]
  | cons {at_ comma : Nat} {ts : List PlacedToken} {names : List String} (name : String) :
      BuildsNames ts names →
      BuildsNames (⟨.name name, at_⟩ :: ⟨.symbol .comma, comma⟩ :: ts) (name :: names)

/-- Parameters in parentheses, which may be left out if there are none. -/
inductive BuildsParameters : List PlacedToken → List String → Prop
  | bare : BuildsParameters [] []
  | empty {opening closing : Nat} :
      BuildsParameters [⟨.symbol .leftParen, opening⟩, ⟨.symbol .rightParen, closing⟩] []
  | list {opening closing : Nat} {ts : List PlacedToken} {names : List String} :
      BuildsNames ts names →
      BuildsParameters
        (⟨.symbol .leftParen, opening⟩ :: ts ++ [⟨.symbol .rightParen, closing⟩]) names

/-! ## Statements and bodies -/

/-- The parts of a program: a statement, a statement or `LET` list, a sequence of these, and a
sequence that is the body of a statement. -/
inductive Part where
  | statement
  | item
  | sequence
  | body

/-- The trees of a part; a `LET` is one assignment for each of its targets. -/
abbrev Part.Tree : Part → Type
  | statement => Statement
  | item | sequence | body => List Statement

/-- The tokens `ts` make up a tree, with at most `n` levels of nesting.  A statement carries the
line of its first token. -/
inductive Builds : (p : Part) → Nat → List PlacedToken → p.Tree → Prop
  | printEmpty {n line : Nat} : Builds .statement n [⟨.keyword .print, line⟩] (.print [] line)
  | print {n line : Nat} {ts : List PlacedToken} {es : List Expr} : Derives .arguments n ts es →
      Builds .statement n (⟨.keyword .print, line⟩ :: ts) (.print es line)
  | dim {n line at_ : Nat} {name : String} :
      Builds .statement n [⟨.keyword .dim, line⟩, ⟨.name name, at_⟩] (.dim name none line)
  | dimKey {n line at_ opening closing : Nat} {ts : List PlacedToken} {name : String} {key : Expr} :
      Derives .expression n ts key →
      Builds .statement n (⟨.keyword .dim, line⟩ :: ⟨.name name, at_⟩ ::
          ⟨.symbol .leftBracket, opening⟩ :: ts ++ [⟨.symbol .rightBracket, closing⟩])
        (.dim name (some key) line)
  | if_ {n line then_ endIf : Nat} {ts us : List PlacedToken} {condition : Expr}
      {thenBody : List Statement} :
      Derives .expression n ts condition → Builds .body n us thenBody →
      Builds .statement n (⟨.keyword .if_, line⟩ :: ts ++ ⟨.keyword .then_, then_⟩ :: us ++
          [⟨.keyword .endIf, endIf⟩])
        (.if_ condition thenBody none line)
  | ifElse {n line then_ else_ endIf : Nat} {ts us vs : List PlacedToken} {condition : Expr}
      {thenBody elseBody : List Statement} :
      Derives .expression n ts condition → Builds .body n us thenBody → Builds .body n vs elseBody →
      Builds .statement n (⟨.keyword .if_, line⟩ :: ts ++ ⟨.keyword .then_, then_⟩ :: us ++
          ⟨.keyword .else_, else_⟩ :: vs ++ [⟨.keyword .endIf, endIf⟩])
        (.if_ condition thenBody (some elseBody) line)
  | for_ {n line at_ equals to_ : Nat} {ts us vs ws xs : List PlacedToken} {counter : String}
      {first last : Expr} {step : Option Expr} {body : List Statement} :
      Derives .expression n ts first → Derives .expression n us last → BuildsStep n vs step →
      Builds .body n ws body → BuildsNext counter xs →
      Builds .statement n (⟨.keyword .for_, line⟩ :: ⟨.name counter, at_⟩ ::
          ⟨.symbol .equals, equals⟩ :: ts ++ ⟨.keyword .to_, to_⟩ :: us ++ vs ++ ws ++ xs)
        (.for_ counter first last step body line)
  | while_ {n line wend : Nat} {ts us : List PlacedToken} {condition : Expr}
      {body : List Statement} :
      Derives .expression n ts condition → Builds .body n us body →
      Builds .statement n (⟨.keyword .while_, line⟩ :: ts ++ us ++ [⟨.keyword .wend, wend⟩])
        (.while_ condition body line)
  | returnEmpty {n line : Nat} :
      Builds .statement n [⟨.keyword .return_, line⟩] (.return_ none line)
  | return_ {n line : Nat} {ts : List PlacedToken} {value : Expr} : Derives .expression n ts value →
      Builds .statement n (⟨.keyword .return_, line⟩ :: ts) (.return_ (some value) line)
  | call {n line at_ : Nat} {ts : List PlacedToken} {name : String} {es : List Expr} :
      BuildsInvocation n ts es →
      Builds .statement n (⟨.keyword .call, line⟩ :: ⟨.name name, at_⟩ :: ts) (.call name es line)
  | bareCall {n line : Nat} {ts : List PlacedToken} {name : String} {es : List Expr} :
      BuildsArguments n ts es → Builds .statement n (⟨.name name, line⟩ :: ts) (.call name es line)
  | command {n line at_ : Nat} {ts : List PlacedToken} {name : String} {es : List Expr} :
      BuildsInvocation n ts es →
      Builds .statement n (⟨.keyword .command, line⟩ :: ⟨.name name, at_⟩ :: ts)
        (.command name es line)
  | abort {n line : Nat} : Builds .statement n [⟨.keyword .abort, line⟩] (.abort line)
  | remark {n line : Nat} {content : String} :
      Builds .statement n [⟨.remark content, line⟩] (.remark content line)
  | assign {n : Nat} {t : PlacedToken} {ts : List PlacedToken} {s : Statement} :
      BuildsAssignment n t.line (t :: ts) s → Builds .statement n (t :: ts) s
  | single {n : Nat} {ts : List PlacedToken} {s : Statement} :
      Builds .statement n ts s → Builds .item n ts [s]
  | let_ {n line : Nat} {ts us : List PlacedToken} {s : Statement} {ss : List Statement} :
      BuildsAssignment n line ts s → BuildsLetTail n us ss →
      Builds .item n (⟨.keyword .let_, line⟩ :: ts ++ us) (s :: ss)
  | done {n : Nat} : Builds .sequence n [] []
  | separator {n line : Nat} {token : Token} {ts : List PlacedToken} {ss : List Statement} :
      token ∈ separators → Builds .sequence n ts ss →
      Builds .sequence n (⟨token, line⟩ :: ts) ss
  /- The last item of a body is followed by the word that closes the body. -/
  | cons {n : Nat} {ts us : List PlacedToken} {ss more : List Statement} :
      Builds .item n ts ss → Ended us → Builds .sequence n us more →
      Builds .sequence n (ts ++ us) (ss ++ more)
  | body {n : Nat} {ts : List PlacedToken} {ss : List Statement} :
      Builds .sequence n ts ss → Builds .body (n + 1) ts ss

/-! ### What parts begin with -/

/-- The words that statements begin with. -/
def statementWords : List Keyword :=
  [.print, .dim, .if_, .for_, .while_, .return_, .call, .command, .abort]

/-- The tokens that items begin with. -/
inductive Opens : Token → Prop
  | let_ : Opens (.keyword .let_)
  | word {word : Keyword} : word ∈ statementWords → Opens (.keyword word)
  | remark (content : String) : Opens (.remark content)
  | name (name : String) : Opens (.name name)

theorem BuildsAssignment.exists_head {n line : Nat} {ts : List PlacedToken} {s : Statement}
    (h : BuildsAssignment n line ts s) :
    ∃ name at_ more, ts = ⟨.name name, at_⟩ :: more := by
  cases h
  exact ⟨_, _, _, rfl⟩

theorem Builds.statement_head {n : Nat} {ts : List PlacedToken} {s : Statement}
    (h : Builds .statement n ts s) : ∃ first more, ts = first :: more ∧ Opens first.token ∧
      first.token ≠ .keyword .let_ := by
  cases h with
  | assign hassign =>
    obtain ⟨name, at_, more, hts⟩ := hassign.exists_head
    cases hts
    exact ⟨_, _, rfl, .name name, nofun⟩
  | bareCall => exact ⟨_, _, rfl, .name _, nofun⟩
  | remark => exact ⟨_, _, rfl, .remark _, nofun⟩
  | _ => exact ⟨_, _, rfl, .word (by decide), nofun⟩

theorem Builds.item_head {n : Nat} {ts : List PlacedToken} {ss : List Statement}
    (h : Builds .item n ts ss) : ∃ first more, ts = first :: more ∧ Opens first.token := by
  cases h with
  | single hs =>
    obtain ⟨first, more, rfl, hopens, -⟩ := hs.statement_head
    exact ⟨first, more, rfl, hopens⟩
  | let_ => exact ⟨_, _, rfl, .let_⟩

theorem Builds.item_ne_nil {n : Nat} {ts : List PlacedToken} {ss : List Statement}
    (h : Builds .item n ts ss) : ts ≠ [] := by
  obtain ⟨first, more, rfl, -⟩ := h.item_head
  exact List.cons_ne_nil first more

theorem Builds.sequence_head {n : Nat} {ts : List PlacedToken} {ss : List Statement}
    (h : Builds .sequence n ts ss) :
    ∀ t ∈ ts.head?, t.token ∈ separators ∨ Opens t.token := by
  cases h with
  | done => exact nofun
  | separator hsep =>
    rintro t ⟨⟩
    exact .inl hsep
  | cons hitem =>
    obtain ⟨first, more, rfl, hopens⟩ := hitem.item_head
    rintro t ⟨⟩
    exact .inr hopens

/-! ## Programs -/

/-- `SUB name(params) ... ENDSUB` -/
inductive BuildsSubroutine (n : Nat) : List PlacedToken → Subroutine → Prop
  | sub {line at_ endSub : Nat} {ts us : List PlacedToken} {name : String} {params : List String}
      {body : List Statement} : BuildsParameters ts params → Builds .body n us body →
      BuildsSubroutine n (⟨.keyword .sub, line⟩ :: ⟨.name name, at_⟩ :: ts ++ us ++
          [⟨.keyword .endSub, endSub⟩])
        ⟨name, params, body, line⟩

theorem BuildsSubroutine.exists_head {n : Nat} {ts : List PlacedToken} {s : Subroutine}
    (h : BuildsSubroutine n ts s) : ∃ line more, ts = ⟨.keyword .sub, line⟩ :: more := by
  cases h
  exact ⟨_, _, rfl⟩

theorem BuildsSubroutine.ne_nil {n : Nat} {ts : List PlacedToken} {s : Subroutine}
    (h : BuildsSubroutine n ts s) : ts ≠ [] := by
  obtain ⟨line, more, rfl⟩ := h.exists_head
  exact List.cons_ne_nil _ more

/-- The subroutines have different keys, and none of them is known already. -/
def FreshKeys (known : List CallKey) (ss : List Subroutine) : Prop :=
  (ss.map Subroutine.key).Nodup ∧ ∀ s ∈ ss, s.key ∉ known

theorem freshKeys_nil {known : List CallKey} : FreshKeys known [] := ⟨List.nodup_nil, nofun⟩

/-- The key of a subroutine is known to those that come after it. -/
theorem freshKeys_cons {known : List CallKey} {s : Subroutine} {ss : List Subroutine} :
    FreshKeys known (s :: ss) ↔ s.key ∉ known ∧ FreshKeys (s.key :: known) ss := by
  rw [FreshKeys, List.map_cons, List.nodup_cons, List.forall_mem_cons]
  simp only [FreshKeys, List.mem_map, List.mem_cons, not_or, not_exists, not_and]
  constructor
  · rintro ⟨⟨hfirst, hnodup⟩, hs, hss⟩
    exact ⟨hs, hnodup, fun s' hs' => ⟨hfirst s' hs', hss s' hs'⟩⟩
  · rintro ⟨hs, hnodup, hss⟩
    exact ⟨⟨fun s' hs' => (hss s' hs').1, hnodup⟩, hs, fun s' hs' => (hss s' hs').2⟩

/-- Items and subroutines in any order, with separators between them; only items have to be
followed by an end of statement. -/
inductive BuildsProgram (n : Nat) : List PlacedToken → Program → Prop
  | done : BuildsProgram n [] ⟨[], []⟩
  | separator {line : Nat} {token : Token} {ts : List PlacedToken} {p : Program} :
      token ∈ separators → BuildsProgram n ts p → BuildsProgram n (⟨token, line⟩ :: ts) p
  | item {ts us : List PlacedToken} {ss : List Statement} {p : Program} :
      Builds .item n ts ss → Ended us → BuildsProgram n us p →
      BuildsProgram n (ts ++ us) ⟨ss ++ p.statements, p.subroutines⟩
  | subroutine {ts us : List PlacedToken} {s : Subroutine} {p : Program} :
      BuildsSubroutine n ts s → BuildsProgram n us p →
      BuildsProgram n (ts ++ us) ⟨p.statements, s :: p.subroutines⟩

end BasicScript
