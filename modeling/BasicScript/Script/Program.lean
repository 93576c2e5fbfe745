/-
  Programs: the statements at the top level and the subroutines.

  * `CallKey` identifies what can be called: a name and a number of arguments.
  * `Subroutine` is a definition, `Subroutine.key` its key.
  * `findSubroutine?` looks a key up in a table, `install` puts definitions in front of those they
    replace.
  * `Program.same` is equality of programs, whatever the order of their subroutines.
-/
import BasicScript.Script.Statement

namespace BasicScript

/-- What can be called: a name in upper case and a number of arguments. -/
structure CallKey where
  name : String
  arity : Nat
  deriving DecidableEq

/-- `SUB name(params) ... ENDSUB` -/
structure Subroutine where
  name : String
  params : List String
  body : List Statement
  line : Nat

/-- The key of a definition. -/
def Subroutine.key (s : Subroutine) : CallKey := ⟨s.name, s.params.length⟩

/-- Equality of definitions with numeric equality of reals. -/
def Subroutine.same (s t : Subroutine) : Bool :=
  s.name == t.name && s.params == t.params && Statement.sameAll s.body t.body && s.line == t.line

/-- The definition of a key in a table. -/
def findSubroutine? (table : List Subroutine) (key : CallKey) : Option Subroutine :=
  table.find? fun s => s.key = key

/-- A table with new definitions, which replace those of the same key. -/
def install (definitions table : List Subroutine) : List Subroutine :=
  definitions ++ table.filter fun s => !definitions.any fun d => d.key = s.key

theorem findSubroutine?_install (definitions table : List Subroutine) (key : CallKey) :
    findSubroutine? (install definitions table) key =
      (findSubroutine? definitions key).or (findSubroutine? table key) := by
  unfold findSubroutine? install
  rw [List.find?_append]
  cases h : definitions.find? (fun s => decide (s.key = key)) with
  | some d => rfl
  | none =>
    simp only [Option.none_or, List.find?_filter]
    congr 1
    funext s
    by_cases hs : s.key = key
    · have := List.find?_eq_none.1 h
      simp_all
    · simp [hs]

/-- A parsed source text: the statements outside of subroutines, and the subroutines, in order. -/
structure Program where
  statements : List Statement
  subroutines : List Subroutine

namespace Program

/-- The definition of a name in any case and a number of parameters. -/
def subroutine? (p : Program) (name : String) (arity : Nat) : Option Subroutine :=
  findSubroutine? p.subroutines ⟨name.toUpper, arity⟩

/-- Equality of programs; the subroutines are compared by key. -/
def same (p q : Program) : Bool :=
  Statement.sameAll p.statements q.statements &&
    p.subroutines.length == q.subroutines.length &&
    p.subroutines.all fun s => match findSubroutine? q.subroutines s.key with
      | some t => s.same t
      | none => false

end Program

end BasicScript
