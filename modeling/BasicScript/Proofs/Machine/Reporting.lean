/-
  What runs report to the host.

  * `Context.Quiet c c'`: the events of `c'` are those of `c` and later ones, none of which is an
    error.
  * `tracks_quiet`: evaluations and statements are quiet, calls and natives in them included.
  * `Context.Reports message? c c'`: after events that are no errors the host sees this one error, or
    none.
  * `reports_conclude`: the end of a run reports the error of its statements, but no `ABORT`;
    `reports_run`: so does the run of a source text.
  * `run_of_parse`, `malformed_iff`: a run is that of the program that the source is, if it is one.
  * `run_reports_failure_once`: a run of a source text reports its failure once, at its end.
-/
import BasicScript.Proofs.Machine.Runs

namespace BasicScript

variable {σ : Type}

namespace Context

/-- There are events after those so far, but no errors. -/
def Quiet (c c' : Context σ) : Prop :=
  ∃ es, c'.trace = c.trace ++ es ∧ ∀ message, .error message ∉ es

theorem Quiet.of_events {c c' : Context σ} (h : c'.events = c.events) : c.Quiet c' :=
  ⟨[], by rw [trace, h, List.append_nil, trace], fun _ => nofun⟩

theorem Quiet.trans {c c' c'' : Context σ} (h : c.Quiet c') (h' : c'.Quiet c'') : c.Quiet c'' := by
  obtain ⟨es, htrace, hes⟩ := h
  obtain ⟨es', htrace', hes'⟩ := h'
  refine ⟨es ++ es', by rw [htrace', htrace, List.append_assoc], fun message hmem => ?_⟩
  exact (List.mem_append.1 hmem).elim (hes message) (hes' message)

theorem trace_emit (c : Context σ) (e : Event) : (c.emit e).trace = c.trace ++ [e] := by
  simp [trace, emit]

theorem quiet_emit (c : Context σ) {e : Event} (he : ∀ message, e ≠ .error message) :
    c.Quiet (c.emit e) :=
  ⟨[e], c.trace_emit e, fun message hmem => he message (List.mem_singleton.1 hmem).symm⟩

theorem events_leave (c : Context σ) : c.leave.events = c.events := by
  rw [leave]
  split <;> rfl

/-- After events that are no errors the host sees the error of this message, if there is one. -/
def Reports (message? : Option String) (c c' : Context σ) : Prop :=
  ∃ es, c'.trace = c.trace ++ es ++ (message?.map Event.error).toList ∧
    ∀ message, .error message ∉ es

theorem Quiet.reports_none {c c' : Context σ} (h : c.Quiet c') : c.Reports none c' := by
  obtain ⟨es, htrace, hes⟩ := h
  exact ⟨es, by rw [htrace]; simp, hes⟩

theorem Quiet.reports_some {c c' : Context σ} (h : c.Quiet c') (message : String) :
    c.Reports (some message) (c'.emit (.error message)) := by
  obtain ⟨es, htrace, hes⟩ := h
  exact ⟨es, by rw [trace_emit, htrace]; rfl, hes⟩

end Context

namespace Machine

open Context

/-- Only the end of a run shows errors. -/
theorem tracks_quiet : Tracks (σ := σ) Quiet fun _ => Quiet where
  refl _ := .of_events rfl
  trans _ _ _ h h' := h.trans h'
  event c _ he := c.quiet_emit he
  host _ _ := .of_events rfl
  allocation _ := .of_events rfl
  change _ _ _ _ := .of_events rfl
  statement _ _ _ h := h
  sequence _ _ _ _ h h' := h.trans h'
  assignment _ _ _ _ _ := .of_events rfl
  leave _ c frame c' h := by
    have henter : c.Quiet (c.enter frame) := .of_events rfl
    exact (henter.trans h).trans (.of_events c'.events_leave)

theorem quiet_block (fuel : Nat) (ss : List Statement) (ctx : Context σ) :
    ctx.Quiet (after (block fuel ss) ctx) :=
  (tracks_quiet.runs fuel).block _ ss (List.Subset.refl _) ctx

end Machine

/-- What a run that ends like this reports. -/
def RunResult.report? : RunResult → Option String
  | .malformed e => some e.message
  | .failed e => some e.message
  | .completed _ | .outOfFuel => none

/-- The outcome of a run whose program ends like this, and the context. -/
def RunResult.ofExecution :
    EStateM.Result Stop (Context σ) Completion → RunResult × Context σ
  | .ok c ctx => (.completed c, ctx)
  | .error (.raised e) ctx => (.failed e, ctx)
  | .error .outOfFuel ctx => (.outOfFuel, ctx)

theorem RunResult.ofExecution_ne_malformed (r : EStateM.Result Stop (Context σ) Completion)
    (e : ParseError) : (RunResult.ofExecution r).1 ≠ .malformed e := by
  rcases r with _ | ⟨_ | _, _⟩ <;> nofun

namespace Context

open Machine

theorem run_of_parse {source : String} {p : Program} (h : Program.parse source = .ok p)
    (fuel : Nat) (ctx : Context σ) :
    ctx.run fuel source = RunResult.ofExecution (execute fuel p ctx) := by
  rw [run, h]
  rfl

theorem run_of_parse_error {source : String} {e : ParseError}
    (h : Program.parse source = .error e) (fuel : Nat) (ctx : Context σ) :
    ctx.run fuel source = (.malformed e, ctx.emit (.error e.message)) := by
  rw [run, h]

/-- The end of a run reports the failure of its statements, unless it is an `ABORT`. -/
theorem reports_conclude {ctx c : Context σ} {m : Machine σ Flow} (h : ctx.Quiet (after m c)) :
    ctx.Reports (RunResult.ofExecution (conclude (m c))).1.report?
        (RunResult.ofExecution (conclude (m c))).2 ∧
      ∀ e, (RunResult.ofExecution (conclude (m c))).1 = .failed e → e.fault ≠ .aborted := by
  have hreset : ctx.Quiet (after m c).resetFrames := h.trans (.of_events rfl)
  cases hm : m c with
  | ok flow c' =>
    rw [after_of_ok hm] at hreset
    cases flow <;> exact ⟨hreset.reports_none, nofun⟩
  | error stop c' =>
    rw [after_of_error hm] at h hreset
    cases stop with
    | outOfFuel => exact ⟨h.reports_none, nofun⟩
    | raised e =>
      by_cases he : e.fault = .aborted
      · rw [conclude_of_aborted he]
        exact ⟨hreset.reports_none, nofun⟩
      · rw [conclude_of_ne_aborted he]
        refine ⟨hreset.reports_some e.message, ?_⟩
        rintro _ ⟨⟩
        exact he

/-- A run reports its failure, be it that of the source or of the program, but no `ABORT`. -/
theorem reports_run (fuel : Nat) (source : String) (ctx : Context σ) :
    ctx.Reports (ctx.run fuel source).1.report? (ctx.run fuel source).2 ∧
      ∀ e, (ctx.run fuel source).1 = .failed e → e.fault ≠ .aborted := by
  cases hp : Program.parse source with
  | error e =>
    have hquiet : ctx.Quiet ctx := .of_events rfl
    rw [run_of_parse_error hp]
    exact ⟨hquiet.reports_some e.message, nofun⟩
  | ok p =>
    have hload : ctx.Quiet (ctx.load p) := .of_events rfl
    rw [run_of_parse hp, execute_eq]
    exact reports_conclude (hload.trans (quiet_block fuel p.statements (ctx.load p)))

/-- A run ends with an error in its source just if the source is no program. -/
theorem malformed_iff (fuel : Nat) (source : String) (ctx : Context σ) (e : ParseError) :
    (ctx.run fuel source).1 = .malformed e ↔ Program.parse source = .error e := by
  cases hp : Program.parse source with
  | error e' => rw [run_of_parse_error hp, RunResult.malformed.injEq, Except.error.injEq]
  | ok p =>
    rw [run_of_parse hp]
    exact ⟨fun he => absurd he (RunResult.ofExecution_ne_malformed _ e), nofun⟩

/-- **A failure is reported once.**  A run that fails shows its host the message of the error, after
all other events and after no other error; a run that comes to its end or to an `ABORT`, in whatever
call, shows no error.  A source is refused just if it is no program, which changes nothing else; a
program comes to the outcome of its execution. -/
theorem run_reports_failure_once (fuel : Nat) (source : String) (ctx : Context σ) :
    ctx.Reports (ctx.run fuel source).1.report? (ctx.run fuel source).2 ∧
    (∀ e, (ctx.run fuel source).1 = .failed e → e.fault ≠ .aborted) ∧
    (∀ e, (ctx.run fuel source).1 = .malformed e →
      (ctx.run fuel source).2 = ctx.emit (.error e.message)) ∧
    (∀ e, (ctx.run fuel source).1 = .malformed e ↔ Program.parse source = .error e) ∧
    ∀ p, Program.parse source = .ok p →
      ctx.run fuel source = RunResult.ofExecution (execute fuel p ctx) := by
  obtain ⟨hreports, haborted⟩ := ctx.reports_run fuel source
  have hmalformed := ctx.malformed_iff fuel source
  refine ⟨hreports, haborted, fun e he => ?_, hmalformed, fun p hp => run_of_parse hp fuel ctx⟩
  rw [run_of_parse_error ((hmalformed e).1 he)]

end Context

end BasicScript
