/-
  Errors point into the script.

  * `pointing P A`: the contract under which ordinary errors arise on lines with `P`, and `ABORT`s on
    lines with `A`; it is met in contexts without natives whose subroutines keep to these lines
    (`pointing_lawful`).
  * `failures_point_into_script`: an error that ends a program is on the line of one of its
    statements or expressions, which is a line of the source, and the program stops only at its own
    `ABORT`s.
-/
import BasicScript.Proofs.Machine.Contract

namespace BasicScript

open Machine

variable {σ : Type} {P A : Nat → Prop}

/-- Ordinary errors are on lines with `P`, and `ABORT`s on lines with `A`. -/
def pointing (σ : Type) (P A : Nat → Prop) : Contract σ where
  context c := c.arrays.Tidy ∧ c.natives = [] ∧ ∀ s ∈ c.subroutines,
    (∀ l ∈ Statement.linesAll s.body, P l) ∧ ∀ l ∈ Statement.abortsAll s.body, A l
  error e _ := e.fault ≠ .aborted ∧ P e.line ∨ e.fault = .aborted ∧ A e.line
  line := P
  abort := A

theorem pointing_lawful : (pointing σ P A).Lawful where
  tidy hc := hc.1
  same := by
    rintro c c' hc harrays hsubroutines hnatives
    simpa only [pointing, harrays, hsubroutines, hnatives] using hc
  allocation hc := ⟨hc.1.allocate, hc.2⟩
  change hc h f := ⟨hc.1.modify h f, hc.2⟩
  body hc hs := hc.2.2 _ (List.mem_of_find?_eq_some hs)
  fault _ hf hl := .inl ⟨hf.not_aborted, hl⟩
  aborted _ hl := .inr ⟨rfl, hl⟩
  native := by
    rintro c key f vs e host line ⟨-, hnatives, -⟩ hf
    rw [Context.native?, hnatives] at hf
    cases hf
  leave he := he

/-- The error that a step ends with, if any. -/
def Machine.errorOf? {α : Type} : EStateM.Result Stop (Context σ) α → Option RuntimeError
  | .error (.raised e) _ => some e
  | _ => none

theorem Machine.errorOf?_eq_some_iff {α : Type} {r : EStateM.Result Stop (Context σ) α}
    {e : RuntimeError} : errorOf? r = some e ↔ ∃ c, r = .error (.raised e) c := by
  constructor
  · intro h
    cases r with
    | ok => cases h
    | error s c =>
      cases s with
      | outOfFuel => cases h
      | raised e =>
        cases h
        exact ⟨c, rfl⟩
  · rintro ⟨c, rfl⟩
    rfl

/-- The context in which a program begins to run, without natives. -/
theorem pointing_load (p : Program) (limits : Limits) (host : σ) :
    (pointing σ (· ∈ p.lines) (· ∈ p.aborts)).context ((Context.new limits host).load p) := by
  refine ⟨Arena.tidy_empty, rfl, fun s hs => ⟨fun l hl => ?_, fun l hl => ?_⟩⟩
  all_goals
    have hs' : s ∈ p.subroutines := by simpa [Context.load, Context.new, install] using hs
    exact List.mem_append_right _ (List.mem_flatMap.2 ⟨s, hs', hl⟩)

/-- **Errors point into the script.**  An error that ends a program is no `ABORT`, and it is on the
line of one of the statements or expressions of the program, subroutines included, which is one of
the lines of the source.  If the program stops at an `ABORT`, that is one of its own. -/
theorem failures_point_into_script {source : String} {p : Program}
    (h : Program.parse source = .ok p) (limits : Limits) (host : σ) (fuel : Nat) :
    (∀ e c, execute fuel p (.new limits host) = .error (.raised e) c →
      e.fault ≠ .aborted ∧ e.line ∈ p.lines ∧ 1 ≤ e.line ∧ e.line ≤ lineCount source.toList) ∧
    ∀ l c, execute fuel p (.new limits host) = .ok (.aborted l) c → l ∈ p.aborts := by
  have hload := pointing_load p limits host
  have hlines : ∀ l ∈ Statement.linesAll p.statements, l ∈ p.lines := fun l hl =>
    List.mem_append_left _ hl
  have haborts : ∀ l ∈ Statement.abortsAll p.statements, l ∈ p.aborts := fun l hl =>
    List.mem_append_left _ hl
  refine ⟨fun e c hrun => ?_, fun l c hrun => ?_⟩
  · obtain ⟨hne, _, he, -⟩ := pointing_lawful.error_of_execute hload hlines haborts hrun
    have hline : e.line ∈ p.lines := (he.resolve_right fun hab => hne hab.1).2
    exact ⟨hne, hline, lines_of_parse h e.line hline⟩
  · rcases pointing_lawful.abort_of_execute hload hlines haborts hrun with hl | ⟨_, hab⟩
    · exact hl
    · exact (hab.resolve_left fun hne => hne.1 rfl).2

/-- A division by zero in a subroutine, on the second of four lines. -/
theorem division_in_subroutine :
    let source := "SUB HALF(X)\nRETURN X / 0\nENDSUB\nPRINT HALF(1)"
    ∃ p c, Program.parse source = .ok p ∧
      execute 9 p (.new {} ()) = .error (.raised ⟨.divisionByZero, 2⟩) c ∧ 2 ∈ p.lines ∧
      lineCount source.toList = 4 := by
  intro source
  have herror : (Program.parse source).toOption.bind
      (fun p => errorOf? (execute 9 p (.new {} ()))) = some ⟨.divisionByZero, 2⟩ := by
    unfold source
    decide +kernel
  obtain ⟨p, hp, hrun⟩ := Option.bind_eq_some_iff.1 herror
  obtain ⟨c, hrun⟩ := errorOf?_eq_some_iff.1 hrun
  have hparse : Program.parse source = .ok p := by
    cases h : Program.parse source with
    | error e =>
      rw [h] at hp
      cases hp
    | ok p' =>
      rw [h] at hp
      cases hp
      rfl
  have hline := ((failures_point_into_script hparse {} () 9).1 _ _ hrun).2.1
  exact ⟨p, c, hparse, hrun, hline, by unfold source; decide +kernel⟩

end BasicScript
