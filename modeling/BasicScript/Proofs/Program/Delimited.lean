/-
  Statements side by side.

  * `Separated rest`: a separator comes next, or nothing.
  * `Delimited p ts t`: the tokens `ts` make up the tree `t` of part `p`, and in all bodies in it each
    item is followed by a separator, or by the word that closes the body.
  * `DelimitedProgram After ts p`: so it is in the program `p`, and at the top level each item is
    followed by a separator or by nothing; what follows a subroutine satisfies `After`.
  * `Builds.delimited`, `BuildsProgram.delimited`: all that is derived is delimited; only what follows a
    subroutine is left open by the grammar.
  * `NoEndSub ts`: the word `ENDSUB` is not among the tokens, as in all items (`Delimited.noEndSub`), so
    that it stands at the ends of subroutines only (`DelimitedProgram.after_endSub`).
  * `colons_between`: between tokens of one line the separators are colons.
  * `programs_are_delimited`: what the parser accepts is delimited so.
-/
import BasicScript.Proofs.Program.Completeness
import BasicScript.Proofs.Token.Lines

namespace BasicScript

/-- A separator comes next, or nothing does. -/
def Separated (rest : List PlacedToken) : Prop := ∀ t ∈ rest.head?, t.token ∈ separators

/-- The statement has no bodies. -/
def Statement.IsPlain : Statement → Prop
  | .if_ _ _ _ _ | .while_ _ _ _ | .for_ _ _ _ _ _ _ => False
  | _ => True

/-- The tokens make up a tree, and in each body, however deep, an item that is not the last stands
before a separator; the last one may stand before the word that closes the body. -/
inductive Delimited : (p : Part) → List PlacedToken → p.Tree → Prop
  | plain {n : Nat} {ts : List PlacedToken} {s : Statement} :
      Builds .statement n ts s → s.IsPlain → Delimited .statement ts s
  | if_ {n line then_ endIf : Nat} {ts us : List PlacedToken} {condition : Expr}
      {thenBody : List Statement} :
      Derives .expression n ts condition → Delimited .body us thenBody →
      Delimited .statement (⟨.keyword .if_, line⟩ :: ts ++ ⟨.keyword .then_, then_⟩ :: us ++
          [⟨.keyword .endIf, endIf⟩])
        (.if_ condition thenBody none line)
  | ifElse {n line then_ else_ endIf : Nat} {ts us vs : List PlacedToken} {condition : Expr}
      {thenBody elseBody : List Statement} :
      Derives .expression n ts condition → Delimited .body us thenBody →
      Delimited .body vs elseBody →
      Delimited .statement (⟨.keyword .if_, line⟩ :: ts ++ ⟨.keyword .then_, then_⟩ :: us ++
          ⟨.keyword .else_, else_⟩ :: vs ++ [⟨.keyword .endIf, endIf⟩])
        (.if_ condition thenBody (some elseBody) line)
  | for_ {n line at_ equals to_ : Nat} {ts us vs ws xs : List PlacedToken} {counter : String}
      {first last : Expr} {step : Option Expr} {body : List Statement} :
      Derives .expression n ts first → Derives .expression n us last → BuildsStep n vs step →
      Delimited .body ws body → BuildsNext counter xs →
      Delimited .statement (⟨.keyword .for_, line⟩ :: ⟨.name counter, at_⟩ ::
          ⟨.symbol .equals, equals⟩ :: ts ++ ⟨.keyword .to_, to_⟩ :: us ++ vs ++ ws ++ xs)
        (.for_ counter first last step body line)
  | while_ {n line wend : Nat} {ts us : List PlacedToken} {condition : Expr}
      {body : List Statement} :
      Derives .expression n ts condition → Delimited .body us body →
      Delimited .statement (⟨.keyword .while_, line⟩ :: ts ++ us ++ [⟨.keyword .wend, wend⟩])
        (.while_ condition body line)
  | single {ts : List PlacedToken} {s : Statement} :
      Delimited .statement ts s → Delimited .item ts [s]
  | let_ {n line : Nat} {ts us : List PlacedToken} {s : Statement} {ss : List Statement} :
      BuildsAssignment n line ts s → BuildsLetTail n us ss →
      Delimited .item (⟨.keyword .let_, line⟩ :: ts ++ us) (s :: ss)
  | done : Delimited .sequence [] []
  | separator {line : Nat} {token : Token} {ts : List PlacedToken} {ss : List Statement} :
      token ∈ separators → Delimited .sequence ts ss →
      Delimited .sequence (⟨token, line⟩ :: ts) ss
  | cons {ts us : List PlacedToken} {ss more : List Statement} :
      Delimited .item ts ss → Separated us → Delimited .sequence us more →
      Delimited .sequence (ts ++ us) (ss ++ more)
  | body {ts : List PlacedToken} {ss : List Statement} :
      Delimited .sequence ts ss → Delimited .body ts ss

/-- The tokens make up a program whose items stand before separators, but for the last one; what
stands behind a subroutine satisfies `After`. -/
inductive DelimitedProgram (After : List PlacedToken → Prop) : List PlacedToken → Program → Prop
  | done : DelimitedProgram After [] ⟨[], []⟩
  | separator {line : Nat} {token : Token} {ts : List PlacedToken} {p : Program} :
      token ∈ separators → DelimitedProgram After ts p →
      DelimitedProgram After (⟨token, line⟩ :: ts) p
  | item {ts us : List PlacedToken} {ss : List Statement} {p : Program} :
      Delimited .item ts ss → Separated us → DelimitedProgram After us p →
      DelimitedProgram After (ts ++ us) ⟨ss ++ p.statements, p.subroutines⟩
  | subroutine {line at_ endSub : Nat} {ts us vs : List PlacedToken} {name : String}
      {params : List String} {body : List Statement} {p : Program} :
      BuildsParameters ts params → Delimited .body us body → After vs →
      DelimitedProgram After vs p →
      DelimitedProgram After (⟨.keyword .sub, line⟩ :: ⟨.name name, at_⟩ :: ts ++ us ++
          ⟨.keyword .endSub, endSub⟩ :: vs)
        ⟨p.statements, ⟨name, params, body, line⟩ :: p.subroutines⟩

/-! ## What is derived is delimited -/

theorem BuildsAssignment.isPlain {n line : Nat} {ts : List PlacedToken} {s : Statement}
    (h : BuildsAssignment n line ts s) : s.IsPlain := by
  cases h
  trivial

theorem Opens.not_ended {t : PlacedToken} {ts : List PlacedToken} (h : Opens t.token) :
    ¬ Ended (t :: ts) := by
  intro hend
  rcases ended_cons.1 hend with hsep | hclose
  · exact h.not_separator hsep
  · exact h.not_closer hclose

/-- Behind an item of a body no other begins at once: no item begins with a word that may end a
statement. -/
theorem Builds.separated {n : Nat} {ts : List PlacedToken} {ss : List Statement}
    (h : Builds .sequence n ts ss) (hend : Ended ts) : Separated ts := by
  intro t ht
  rcases h.sequence_head t ht with hsep | hopens
  · exact hsep
  · cases ts with
    | nil => cases ht
    | cons u us =>
      cases ht
      exact absurd hend hopens.not_ended

theorem Builds.delimited {part : Part} {n : Nat} {ts : List PlacedToken} {t : part.Tree}
    (h : Builds part n ts t) : Delimited part ts t := by
  induction h with
  | if_ hcondition _ ih => exact .if_ hcondition ih
  | ifElse hcondition _ _ ihThen ihElse => exact .ifElse hcondition ihThen ihElse
  | for_ hfirst hlast hstep _ hnext ih => exact .for_ hfirst hlast hstep ih hnext
  | while_ hcondition _ ih => exact .while_ hcondition ih
  | assign hassign => exact .plain (.assign hassign) hassign.isPlain
  | single _ ih => exact .single ih
  | let_ hassign htail => exact .let_ hassign htail
  | done => exact .done
  | separator hsep _ ih => exact .separator hsep ih
  | cons _ hend hmore ihItem ih => exact .cons ihItem (hmore.separated hend) ih
  | body _ ih => exact .body ih
  | @printEmpty n | @dim n | @returnEmpty n | @abort n | @remark n =>
    exact .plain (n := n) (by constructor) trivial
  | print h | dimKey h | return_ h | call h | bareCall h | command h =>
    exact .plain (by constructor; exact h) trivial

theorem BuildsProgram.separated {n : Nat} {ts : List PlacedToken} {p : Program}
    (h : BuildsProgram n ts p) (hend : Ended ts) : Separated ts := by
  cases h with
  | done => exact nofun
  | separator hsep =>
    rintro t ⟨⟩
    exact hsep
  | item hitem =>
    obtain ⟨first, more, rfl, hopens⟩ := hitem.item_head
    exact absurd hend hopens.not_ended
  | subroutine hsub =>
    obtain ⟨line, more, rfl⟩ := hsub.exists_head
    rcases ended_cons.1 hend with hsep | hclose
    · simp [separators] at hsep
    · simp [closers] at hclose

/-- A program is delimited as far as what stands behind each `ENDSUB` is. -/
theorem BuildsProgram.delimited {After : List PlacedToken → Prop} {n : Nat}
    {ts : List PlacedToken} {p : Program} (h : BuildsProgram n ts p)
    (hafter : ∀ t rest, t :: rest <:+ ts → t.token = .keyword .endSub → After rest) :
    DelimitedProgram After ts p := by
  induction h with
  | done => exact .done
  | separator hsep _ ih =>
    exact .separator hsep (ih fun t rest hsuffix =>
      hafter t rest (hsuffix.trans (List.suffix_cons _ _)))
  | item hitem hend hrest ih =>
    exact .item hitem.delimited (hrest.separated hend) (ih fun t rest hsuffix =>
      hafter t rest (hsuffix.trans (List.suffix_append _ _)))
  | @subroutine ts us s p hsub _ ih =>
    have hrest := ih fun t rest hsuffix => hafter t rest (hsuffix.trans (List.suffix_append _ _))
    cases hsub with
    | @sub line at_ endSub params us' name _ _ hparams hbody =>
      have hsuffix : (⟨.keyword .endSub, endSub⟩ :: us) <:+
          (⟨.keyword .sub, line⟩ :: ⟨.name name, at_⟩ :: params ++ us' ++
            [⟨.keyword .endSub, endSub⟩]) ++ us := by
        rw [List.append_assoc]
        exact List.suffix_append _ _
      rw [List.append_assoc]
      exact .subroutine hparams hbody.delimited (hafter _ us hsuffix rfl) hrest

/-! ## Where `ENDSUB` stands -/

/-- The word `ENDSUB` does not stand among the tokens. -/
def NoEndSub (ts : List PlacedToken) : Prop := ∀ t ∈ ts, t.token ≠ .keyword .endSub

@[simp]
theorem noEndSub_nil : NoEndSub [] := nofun

@[simp]
theorem noEndSub_cons {t : PlacedToken} {ts : List PlacedToken} :
    NoEndSub (t :: ts) ↔ t.token ≠ .keyword .endSub ∧ NoEndSub ts :=
  List.forall_mem_cons

@[simp]
theorem noEndSub_append {ts us : List PlacedToken} :
    NoEndSub (ts ++ us) ↔ NoEndSub ts ∧ NoEndSub us :=
  List.forall_mem_append

/-- A rest that begins with `ENDSUB` is one of the tokens behind those without it. -/
theorem NoEndSub.suffix {ts us rest : List PlacedToken} {t : PlacedToken} (hts : NoEndSub ts)
    (ht : t.token = .keyword .endSub) (h : t :: rest <:+ ts ++ us) : t :: rest <:+ us := by
  induction ts with
  | nil => exact h
  | cons first ts ih =>
    rw [noEndSub_cons] at hts
    rcases List.suffix_cons_iff.1 h with heq | htail
    · cases heq
      exact absurd ht hts.1
    · exact ih hts.2 htail

theorem ne_endSub_of_mem_separators {token : Token} (h : token ∈ separators) :
    token ≠ .keyword .endSub := by
  rintro rfl
  simp [separators] at h

theorem Derives.noEndSub {c : Category} {n : Nat} {ts : List PlacedToken} {t : c.Tree}
    (h : Derives c n ts t) : NoEndSub ts := by
  induction h with
  | expression _ ih | operand _ ih | indexed _ ih | primary _ ih | lastArgument _ ih => exact ih
  | binary hop _ _ ihLeft ihRight =>
    have hne : _ ≠ Token.keyword .endSub := ne_of_mem_operators hop rfl
    simp [ihLeft, ihRight, hne]
  | sign hop _ ih =>
    have hne : _ ≠ Token.keyword .endSub := ne_of_mem_signs hop rfl
    simp [ih, hne]
  | literal value => cases value <;> simp [Literal.token]
  | index _ _ ihTarget ihKey => simp [ihTarget, ihKey]
  | name | callEmpty => simp
  | call _ _ ih | group _ ih => simp [ih]
  | argument _ _ ihFirst ih => simp [ihFirst, ih]

section
variable {n line : Nat} {ts : List PlacedToken}

theorem BuildsArguments.noEndSub {es : List Expr} (h : BuildsArguments n ts es) :
    NoEndSub ts := by
  cases h with
  | empty => simp
  | list hes => simp [hes.noEndSub]

theorem BuildsInvocation.noEndSub {es : List Expr} (h : BuildsInvocation n ts es) :
    NoEndSub ts := by
  cases h with
  | bare => simp
  | arguments hes => exact hes.noEndSub

theorem BuildsIndices.noEndSub {keys : List Expr} (h : BuildsIndices n ts keys) :
    NoEndSub ts := by
  induction h with
  | none => simp
  | index hkey _ ih => simp [hkey.noEndSub, ih]

theorem BuildsAssignment.noEndSub {s : Statement} (h : BuildsAssignment n line ts s) :
    NoEndSub ts := by
  cases h with
  | assign hkeys hvalue => simp [hkeys.noEndSub, hvalue.noEndSub]

theorem BuildsLetTail.noEndSub {ss : List Statement} (h : BuildsLetTail n ts ss) :
    NoEndSub ts := by
  induction h with
  | done => simp
  | assign hs _ ih => simp [noEndSub_cons.1 hs.noEndSub, ih]

theorem BuildsStep.noEndSub {step : Option Expr} (h : BuildsStep n ts step) : NoEndSub ts := by
  cases h with
  | none => simp
  | step he => simp [he.noEndSub]

theorem BuildsNext.noEndSub {counter : String} (h : BuildsNext counter ts) : NoEndSub ts := by
  cases h <;> simp

theorem BuildsNames.noEndSub {names : List String} (h : BuildsNames ts names) : NoEndSub ts := by
  induction h with
  | last => simp
  | cons _ _ ih => simp [ih]

theorem BuildsParameters.noEndSub {names : List String} (h : BuildsParameters ts names) :
    NoEndSub ts := by
  cases h with
  | bare | empty => simp
  | list hnames => simp [hnames.noEndSub]

/-- Statements without bodies do not hold the word, ... -/
theorem Builds.noEndSub_of_isPlain {s : Statement} (h : Builds .statement n ts s)
    (hs : s.IsPlain) : NoEndSub ts := by
  cases h with
  | printEmpty | dim | returnEmpty | abort | remark => simp
  | print he | dimKey he | return_ he | call he | bareCall he | command he => simp [he.noEndSub]
  | assign hassign => exact hassign.noEndSub
  | if_ | ifElse | for_ | while_ => cases hs

/-- ... and neither do bodies: no subroutine is defined in them. -/
theorem Delimited.noEndSub {part : Part} {t : part.Tree} (h : Delimited part ts t) :
    NoEndSub ts := by
  induction h with
  | plain hs hplain => exact hs.noEndSub_of_isPlain hplain
  | if_ hcondition _ ih | while_ hcondition _ ih => simp [hcondition.noEndSub, ih]
  | ifElse hcondition _ _ ihThen ihElse => simp [hcondition.noEndSub, ihThen, ihElse]
  | for_ hfirst hlast hstep _ hnext ih =>
    simp [hfirst.noEndSub, hlast.noEndSub, hstep.noEndSub, hnext.noEndSub, ih]
  | single _ ih | body _ ih => exact ih
  | let_ hassign htail => simp [hassign.noEndSub, htail.noEndSub]
  | done => simp
  | separator hsep _ ih => exact noEndSub_cons.2 ⟨ne_endSub_of_mem_separators hsep, ih⟩
  | cons _ _ _ ihItem ih => simp [ihItem, ih]

end

/-- What stands behind an `ENDSUB` stands behind a subroutine. -/
theorem DelimitedProgram.after_endSub {After : List PlacedToken → Prop} {ts : List PlacedToken}
    {p : Program} (h : DelimitedProgram After ts p) {t : PlacedToken} {rest : List PlacedToken}
    (hsuffix : t :: rest <:+ ts) (ht : t.token = .keyword .endSub) : After rest := by
  induction h with
  | done => cases List.suffix_nil.1 hsuffix
  | separator hsep _ ih =>
    rcases List.suffix_cons_iff.1 hsuffix with heq | htail
    · cases heq
      exact absurd ht (ne_endSub_of_mem_separators hsep)
    · exact ih htail
  | item hitem _ _ ih => exact ih (hitem.noEndSub.suffix ht hsuffix)
  | @subroutine line at_ _ ts us _ name _ _ _ hparams hbody hafter _ ih =>
    have hbefore : NoEndSub (⟨.keyword .sub, line⟩ :: ⟨.name name, at_⟩ :: ts ++ us) := by
      simp [hparams.noEndSub, hbody.noEndSub]
    rcases List.suffix_cons_iff.1 (hbefore.suffix ht hsuffix) with heq | htail
    · cases heq
      exact hafter
    · exact ih htail

/-- A program is delimited exactly as far as what stands behind each `ENDSUB` is. -/
theorem BuildsProgram.delimited_iff {After : List PlacedToken → Prop} {n : Nat}
    {ts : List PlacedToken} {p : Program} (h : BuildsProgram n ts p) :
    DelimitedProgram After ts p ↔
      ∀ t rest, t :: rest <:+ ts → t.token = .keyword .endSub → After rest :=
  ⟨fun hp _ _ hsuffix ht => hp.after_endSub hsuffix ht, h.delimited⟩

/-! ## Lines -/

/-- An end of line leads to another line, so that between tokens of one line there are colons. -/
theorem colons_between {source : String} {ts gap : List PlacedToken} {t u : PlacedToken}
    (h : tokenize source = .ok ts) (hgap : t :: (gap ++ [u]) <:+: ts)
    (hsep : ∀ g ∈ gap, g.token ∈ separators) (hline : t.line = u.line) :
    ∀ g ∈ gap, g.token = .symbol .colon := by
  intro g hg
  obtain ⟨hfirst, hrest⟩ := List.pairwise_cons.1 ((tokenize_pairwise h).sublist hgap.sublist)
  have hle : t.line ≤ g.line := (hfirst g (List.mem_append_left _ hg)).1
  have hlast := (List.pairwise_append.1 hrest).2.2 g hg u (List.mem_singleton_self u)
  have hmem := hsep g hg
  simp only [separators, List.mem_cons, List.not_mem_nil, or_false] at hmem
  refine hmem.resolve_right fun hnewLine => ?_
  have hlt := hlast.2 hnewLine
  omega

/-! ## What is accepted -/

/-- **Statements are delimited, but behind `ENDSUB`.**  In every program that is accepted each item is
followed by a separator before the next one begins, at the top level and in all bodies, where the
last item may stand before the word that closes the body; what follows a subroutine is not checked.
So it is with subroutines as well exactly if a separator, or nothing, stands behind each `ENDSUB`.
If the tokens are those of a source, the separators between two tokens on one line are colons. -/
theorem programs_are_delimited {ts rest : List PlacedToken} {p : Program}
    (h : Parser.program.parseTokens ts = .ok (p, rest)) :
    DelimitedProgram (fun _ => True) ts p ∧
    (DelimitedProgram Separated ts p ↔
      ∀ t us, t :: us <:+ ts → t.token = .keyword .endSub → Separated us) ∧
    ∀ source, tokenize source = .ok ts → ∀ t gap u, t :: (gap ++ [u]) <:+: ts →
      (∀ g ∈ gap, g.token ∈ separators) → t.line = u.line →
        ∀ g ∈ gap, g.token = .symbol .colon := by
  have hp : BuildsProgram Parser.maxNesting ts p := by
    rw [Parser.parseTokens] at h
    cases hrun : Parser.program ⟨ts, 0⟩ with
    | error e s =>
      rw [hrun] at h
      cases h
    | ok q s =>
      rw [hrun] at h
      cases h
      have hread := Parser.program_eq_ok_iff.1 hrun
      exact (Parser.topLevel_sound ts [] ts 0 p s (Nat.le_refl _) hread).2.1
  exact ⟨hp.delimited fun _ _ _ _ => trivial, hp.delimited_iff,
    fun source hsource t gap u => colons_between hsource⟩

/-- A subroutine and a statement with a separator between them. -/
theorem programs_are_delimited_abort :
    let ts : List PlacedToken := [⟨.keyword .sub, 1⟩, ⟨.name "A", 1⟩, ⟨.keyword .endSub, 1⟩,
      ⟨.symbol .colon, 1⟩, ⟨.keyword .abort, 1⟩]
    let p : Program := ⟨[.abort 1], [⟨"A", [], [], 1⟩]⟩
    Parser.program.parseTokens ts = .ok (p, []) ∧ DelimitedProgram Separated ts p := by
  intro ts p
  have hparse : Parser.program.parseTokens ts = .ok (p, []) := rfl
  refine ⟨hparse, (programs_are_delimited hparse).2.1.2 fun t us hsuffix ht => ?_⟩
  simp only [ts, List.suffix_cons_iff, List.cons.injEq, List.suffix_nil] at hsuffix
  rcases hsuffix with ⟨rfl, rfl⟩ | ⟨rfl, rfl⟩ | ⟨rfl, rfl⟩ | ⟨rfl, rfl⟩ | ⟨rfl, rfl⟩ | hnil
  · cases ht
  · cases ht
  · rintro u ⟨⟩
    exact List.mem_cons_self
  · cases ht
  · cases ht
  · cases hnil

/-- A statement right behind `ENDSUB` is accepted, with no separator between them. -/
theorem statement_beside_subroutine :
    let ts : List PlacedToken := [⟨.keyword .sub, 1⟩, ⟨.name "A", 1⟩, ⟨.symbol .colon, 1⟩,
      ⟨.keyword .endSub, 1⟩, ⟨.keyword .print, 1⟩, ⟨.integer 1, 1⟩]
    let p : Program := ⟨[.print [.literal (.integer 1) 1] 1], [⟨"A", [], [], 1⟩]⟩
    Parser.program.parseTokens ts = .ok (p, []) ∧ ¬ DelimitedProgram Separated ts p := by
  refine ⟨rfl, fun h => ?_⟩
  have hsep : Separated [⟨.keyword .print, 1⟩, ⟨.integer 1, 1⟩] :=
    h.after_endSub (t := ⟨.keyword .endSub, 1⟩) (List.suffix_append [_, _, _] _) rfl
  exact absurd (hsep _ rfl) (by decide)

end BasicScript
