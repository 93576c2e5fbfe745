/-
  The entries of one array: a finite map from keys to values, as a list in ascending key order.

  * `find?`, `insert` and `erase` are the operations of the map.
  * `handles` are the references to arrays among its values.
-/
import BasicScript.Value.Key

namespace BasicScript

/-- The entries of an array in ascending key order. -/
abbrev Entries := List (Key × Value)

namespace Entries

/-- The value of a key. -/
def find? (es : Entries) (k : Key) : Option Value :=
  (List.find? (fun e => k.compare e.1 == .eq) es).map (·.2)

/-- The entries with a value for a key, in place of the one it had. -/
def insert (k : Key) (v : Value) : Entries → Entries
  | [] => [(k, v)]
  | e :: es =>
    match k.compare e.1 with
    | .lt => (k, v) :: e :: es
    | .eq => (e.1, v) :: es
    | .gt => e :: insert k v es

/-- The entries without a key. -/
def erase (k : Key) (es : Entries) : Entries :=
  List.filter (fun e => k.compare e.1 != .eq) es

/-- The references to arrays among the values. -/
def handles (es : Entries) : List Handle := es.filterMap (·.2.handle?)

end Entries

end BasicScript
