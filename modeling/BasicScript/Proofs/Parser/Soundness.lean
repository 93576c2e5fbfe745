/-
  What the parser of expressions reads is derived by the grammar.

  * `Sound G p`: on success `p` has read tokens that `G` relates to the result, at the levels of
    nesting that were left, and has closed all levels that it opened.
  * Each parser is sound for its category if those inside it are (`chain_sound`, `indices_sound`,
    `primary_sound`, ...); `operandAt_sound` puts them together, by induction on the levels.
  * `expression_sound`: so is the parser of expressions.
-/
import BasicScript.Proofs.Parser.Steps

namespace BasicScript

namespace Parser

variable {α : Type}

/-- On success the parser has read tokens that `G` relates to the result, with at most as many
levels of nesting as were left, and as many levels are open as before. -/
def Sound (G : Nat → List PlacedToken → α → Prop) (p : Parser α) : Prop :=
  ∀ rest d a s', p ⟨rest, d⟩ = .ok a s' →
    s'.depth = d ∧ ∃ ts, rest = ts ++ s'.rest ∧ G (maxNesting - d) ts a

/-- What a sound parser has read when another one goes on. -/
theorem Sound.of_bind {β : Type} {G : Nat → List PlacedToken → α → Prop} {p : Parser α}
    {f : α → Parser β} {rest : List PlacedToken} {d : Nat} {b : β} {s' : ParserState}
    (hp : Sound G p) (h : (p >>= f) ⟨rest, d⟩ = .ok b s') :
    ∃ a ts more, rest = ts ++ more ∧ G (maxNesting - d) ts a ∧ f a ⟨more, d⟩ = .ok b s' := by
  obtain ⟨a, ⟨more, d₁⟩, ha, hf⟩ := bind_eq_ok_iff.1 h
  obtain ⟨rfl, ts, rfl, hts⟩ := hp _ _ _ _ ha
  exact ⟨a, ts, more, rfl, hts, hf⟩

theorem expect_sound (token : Token) (line : Nat) :
    Sound (fun _ ts _ => ∃ closing, ts = [⟨token, closing⟩]) (expect token line) := by
  intro rest d u s' h
  obtain ⟨hdepth, closing, rfl⟩ := expect_eq_ok h
  exact ⟨hdepth, [⟨token, closing⟩], rfl, closing, rfl⟩

theorem nested_sound {G H : Nat → List PlacedToken → α → Prop} {p : Parser α} (hp : Sound G p)
    (hne : ∀ n a, ¬ G n [] a) (hH : ∀ n ts a, G n ts a → H (n + 1) ts a) :
    Sound H (nested p) := by
  intro rest d a s' h
  cases rest with
  | nil =>
    obtain ⟨-, ts, hts, hG⟩ := hp [] d a s' h
    obtain ⟨rfl, -⟩ := List.append_eq_nil_iff.1 hts.symm
    exact absurd hG (hne _ a)
  | cons t rest =>
    by_cases hd : d < maxNesting
    · simp only [nested, if_pos hd] at h
      cases hs : p ⟨t :: rest, d + 1⟩ with
      | ok b s₁ =>
        rw [hs] at h
        cases h
        obtain ⟨hdepth, ts, hts, hG⟩ := hp _ _ _ _ hs
        refine ⟨by simp [hdepth], ts, hts, ?_⟩
        have hleft : maxNesting - d = maxNesting - (d + 1) + 1 := by omega
        rw [hleft]
        exact hH _ ts a hG
      | error e s₁ =>
        rw [hs] at h
        cases h
    · simp only [nested, if_neg hd] at h
      cases h

/-! ## Lists -/

section
variable {item : Parser α} {G : Nat → List PlacedToken → α → Prop}
  {L : Nat → List PlacedToken → List α → Prop} (hitem : Sound G item)
  (hlast : ∀ {n : Nat} {ts : List PlacedToken} {a : α}, G n ts a → L n ts [a])
  (hcons : ∀ {n line : Nat} {ts us : List PlacedToken} {a : α} {as : List α}, G n ts a →
    L n us as → L n (ts ++ ⟨.symbol .comma, line⟩ :: us) (a :: as))
include hitem hlast hcons

/-- The items behind a first one, up to the closing parenthesis. -/
theorem commaTail_sound (line : Nat) (bound : List PlacedToken) :
    Sound (fun n us (as : List α) => ∀ ts a, G n ts a → ∃ vs closing,
        ts ++ us = vs ++ [⟨.symbol .rightParen, closing⟩] ∧ L n vs (a :: as))
      (commaTail item (.symbol .rightParen) line bound) := by
  induction bound with
  | nil =>
    rintro rest d es s' h
    cases h
  | cons b bound ih =>
    rintro rest d es s' h
    obtain ⟨token, l, more, rfl, htoken⟩ := exists_of_commaTail h
    rcases htoken with rfl | rfl
    · rw [commaTail_comma] at h
      obtain ⟨a, us, more, rfl, hus, h⟩ := hitem.of_bind h
      obtain ⟨as, ws, more, rfl, hws, h⟩ := ih.of_bind h
      cases h
      obtain ⟨vs, closing, hvs, hlist⟩ := hws us a hus
      refine ⟨rfl, ⟨.symbol .comma, l⟩ :: us ++ ws, by simp, fun ts e hts => ?_⟩
      refine ⟨ts ++ ⟨.symbol .comma, l⟩ :: vs, closing, ?_, hcons hts hlist⟩
      simp [hvs]
    · have hne : Token.symbol .rightParen ≠ .symbol .comma := nofun
      rw [commaTail_closing hne] at h
      cases h
      exact ⟨rfl, [⟨.symbol .rightParen, l⟩], rfl, fun ts e hts => ⟨ts, l, rfl, hlast hts⟩⟩

theorem commaList_sound (line : Nat) :
    Sound (fun n us as => ∃ closing, us = [⟨.symbol .rightParen, closing⟩] ∧ as = [] ∨
        ∃ vs, us = vs ++ [⟨.symbol .rightParen, closing⟩] ∧ L n vs as)
      (commaList item (.symbol .rightParen) line) := by
  intro rest d es s' h
  by_cases hhead : HeadNot (· = .symbol .rightParen) rest
  · rw [commaList_of_headNot hhead] at h
    obtain ⟨a, us, more, rfl, hus, h⟩ := hitem.of_bind h
    rw [bind_of_ok (m := remaining) rfl] at h
    obtain ⟨as, ws, more, rfl, hws, h⟩ := (commaTail_sound hitem hlast hcons line _).of_bind h
    cases h
    obtain ⟨vs, closing, hvs, hlist⟩ := hws us a hus
    exact ⟨rfl, us ++ ws, by simp, closing, .inr ⟨vs, hvs, hlist⟩⟩
  · obtain ⟨_, closing, more, rfl, rfl⟩ := exists_of_not_headNot hhead
    rw [commaList_closing] at h
    cases h
    exact ⟨rfl, [⟨.symbol .rightParen, closing⟩], rfl, closing, .inl ⟨rfl, rfl⟩⟩

end

/-! ## Binary operators -/

/-- Tokens that turn a derivation of `left` into one of the result. -/
def Extends (c : Category) (left : c.Tree) (n : Nat) (us : List PlacedToken) (e : c.Tree) : Prop :=
  ∀ ts, Derives c n ts left → Derives c n (ts ++ us) e

theorem extends_refl {c : Category} (left : c.Tree) (n : Nat) : Extends c left n [] left :=
  fun ts h => (List.append_nil ts).symm ▸ h

section
variable {operand : Parser Expr} {r : Nat}

theorem chain_sound (hop : Sound (Derives (.rank r)) operand) (bound : List PlacedToken) :
    ∀ left, Sound (Extends (.rank (r + 1)) left) (chain operand r bound left) := by
  induction bound with
  | nil =>
    rintro left rest d e s' h
    cases h
    exact ⟨rfl, [], rfl, extends_refl left _⟩
  | cons b bound ih =>
    rintro left rest d e s' h
    by_cases hhead : HeadNot (fun token => ∃ op, (token, op) ∈ operators r) rest
    · rw [chain_of_headNot hhead] at h
      cases h
      exact ⟨rfl, [], rfl, extends_refl left _⟩
    · obtain ⟨token, line, rest, rfl, op, hmem⟩ := exists_of_not_headNot hhead
      rw [chain_cons hmem] at h
      obtain ⟨right, us, more, rfl, hus, hchain⟩ := hop.of_bind h
      obtain ⟨hdepth, vs, rfl, hext⟩ := ih _ _ _ _ _ hchain
      refine ⟨hdepth, ⟨token, line⟩ :: us ++ vs, by simp, fun ts hts => ?_⟩
      have hbinary := hext _ (.binary hmem hts hus)
      simpa using hbinary

theorem atRank_sound (hop : Sound (Derives (.rank 0)) operand) (n : Nat) :
    Sound (Derives (.rank n)) (atRank operand n) := by
  induction n with
  | zero => exact hop
  | succ n ih =>
    intro rest d e s' h
    rw [atRank] at h
    obtain ⟨left, ts, more, rfl, hts, hchain⟩ := ih.of_bind h
    rw [bind_of_ok (m := remaining) rfl] at hchain
    obtain ⟨hdepth, us, rfl, hext⟩ := chain_sound ih _ left _ _ _ _ hchain
    exact ⟨hdepth, ts ++ us, (List.append_assoc _ _ _).symm, hext ts (.operand hts)⟩

end

/-! ## Operands -/

section
variable {expression operand : Parser Expr} (hexp : Sound (Derives .expression) expression)
include hexp

theorem indices_sound (bound : List PlacedToken) :
    ∀ target, Sound (Extends .indexed target) (indices expression bound target) := by
  induction bound with
  | nil =>
    rintro target rest d e s' h
    cases h
    exact ⟨rfl, [], rfl, extends_refl target _⟩
  | cons b bound ih =>
    rintro target rest d e s' h
    by_cases hhead : HeadNot (· = .symbol .leftBracket) rest
    · rw [indices_of_headNot hhead] at h
      cases h
      exact ⟨rfl, [], rfl, extends_refl target _⟩
    · obtain ⟨_, line, rest, rfl, rfl⟩ := exists_of_not_headNot hhead
      rw [indices_cons] at h
      obtain ⟨key, us, more, rfl, hus, h⟩ := hexp.of_bind h
      obtain ⟨_, _, more, rfl, ⟨closing, rfl⟩, hindices⟩ := (expect_sound _ _).of_bind h
      obtain ⟨hdepth, vs, rfl, hext⟩ := ih _ _ _ _ _ hindices
      refine ⟨hdepth,
        ⟨.symbol .leftBracket, line⟩ :: us ++ [⟨.symbol .rightBracket, closing⟩] ++ vs, by simp,
        fun ts hts => ?_⟩
      have hindex : Derives .indexed _ (ts ++ ⟨.symbol .leftBracket, line⟩ :: us ++
          [⟨.symbol .rightBracket, closing⟩]) (.index target key line) := .index hts hus
      simpa using hext _ hindex

theorem arguments_sound (line : Nat) :
    Sound (fun n us es => ∃ closing, us = [⟨.symbol .rightParen, closing⟩] ∧ es = [] ∨
        ∃ vs, us = vs ++ [⟨.symbol .rightParen, closing⟩] ∧ Derives .arguments n vs es)
      (commaList expression (.symbol .rightParen) line) :=
  commaList_sound hexp .lastArgument .argument line

theorem nameOrCall_sound (name : String) (line : Nat) :
    Sound (fun n us e => Derives .primary n (⟨.name name, line⟩ :: us) e)
      (nameOrCall expression name line) := by
  intro rest d e s' h
  by_cases hhead : HeadNot (· = .symbol .leftParen) rest
  · rw [nameOrCall_of_headNot hhead] at h
    cases h
    exact ⟨rfl, [], rfl, .name name⟩
  · obtain ⟨_, opening, more, rfl, rfl⟩ := exists_of_not_headNot hhead
    rw [nameOrCall_cons] at h
    obtain ⟨es, us, more, rfl, ⟨closing, hus⟩, h⟩ := (arguments_sound hexp line).of_bind h
    cases h
    refine ⟨rfl, ⟨.symbol .leftParen, opening⟩ :: us, rfl, ?_⟩
    rcases hus with ⟨rfl, rfl⟩ | ⟨vs, rfl, hvs⟩
    · exact .callEmpty name
    · exact .call name hvs

theorem primary_sound : Sound (Derives .primary) (primary expression) := by
  intro rest d e s' h
  obtain ⟨token, line, more, rfl, htoken⟩ := exists_of_primary h
  rcases htoken with rfl | ⟨name, rfl⟩ | ⟨value, rfl⟩
  · rw [primary_leftParen] at h
    obtain ⟨a, us, more, rfl, hus, h⟩ := hexp.of_bind h
    obtain ⟨_, _, more, rfl, ⟨closing, rfl⟩, h⟩ := (expect_sound _ _).of_bind h
    cases h
    refine ⟨rfl, ⟨.symbol .leftParen, line⟩ :: us ++ [⟨.symbol .rightParen, closing⟩], ?_, ?_⟩
    · simp
    · exact .group hus
  · rw [primary_name] at h
    obtain ⟨hdepth, us, rfl, hus⟩ := nameOrCall_sound hexp name line _ _ _ _ h
    exact ⟨hdepth, ⟨.name name, line⟩ :: us, rfl, hus⟩
  · rw [primary_literal] at h
    cases h
    exact ⟨rfl, [⟨value.token, line⟩], rfl, .literal value⟩

theorem operandWith_sound
    (hop : Sound (fun n ts e => ∃ m, n = m + 1 ∧ Derives (.rank 0) m ts e) operand) :
    Sound (Derives (.rank 0)) (operandWith expression operand) := by
  intro rest d e s' h
  cases rest with
  | nil => cases h
  | cons t rest =>
    obtain ⟨token, line⟩ := t
    cases hsign : token.unaryOp? with
    | some op =>
      rw [operandWith_sign (mem_signs_iff.2 hsign)] at h
      obtain ⟨a, us, more, rfl, ⟨m, hm, hus⟩, h⟩ := hop.of_bind h
      cases h
      refine ⟨rfl, ⟨token, line⟩ :: us, rfl, ?_⟩
      rw [hm]
      exact .sign (mem_signs_iff.2 hsign) hus
    | none =>
      rw [operandWith_primary hsign] at h
      obtain ⟨a, us, more, hrest, hus, h⟩ := (primary_sound hexp).of_bind h
      rw [bind_of_ok (m := remaining) rfl] at h
      obtain ⟨hdepth, vs, rfl, hext⟩ := indices_sound hexp _ a _ _ _ _ h
      exact ⟨hdepth, us ++ vs, by simp [hrest], .indexed (hext us (.primary hus))⟩

end

/-! ## Expressions -/

theorem level_sound {operand : Parser Expr} (hop : Sound (Derives (.rank 0)) operand) :
    Sound (Derives .expression) (nested (atRank operand BinaryOp.ranks)) := by
  refine nested_sound (atRank_sound hop _) ?_ ?_
  · exact fun _ _ h => h.ne_nil rfl
  · exact fun _ _ _ h => .expression h

/-- An operand derives within the levels that are left, however many the parser is made for. -/
theorem operandAt_sound (n : Nat) : Sound (Derives (.rank 0)) (operandAt n) := by
  induction n with
  | zero =>
    rintro rest d e s' h
    cases h
  | succ n ih =>
    refine operandWith_sound (level_sound ih) (nested_sound ih ?_ ?_)
    · exact fun _ _ h => h.ne_nil rfl
    · exact fun m _ _ h => ⟨m, rfl, h⟩

theorem expression_sound : Sound (Derives .expression) expression :=
  level_sound (operandAt_sound _)

end Parser

end BasicScript
