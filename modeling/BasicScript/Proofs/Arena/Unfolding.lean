/-
  What the text of a value is.

  * `Arena.Unfolds a path v text`: the text of `v` inside the arrays of the path.  A live array is its
    entries in their order, unless it is on the path itself; arrays beside the path do not count.
  * `Unfolds.renderInto_eq`: this is what is written; `exists_unfolds`: every value has such a text,
    by induction on the arrays that are not open.  So `unfolds_iff`: it is what `render` gives.
  * `Arena.LeadsTo a roots v`: the value is a root, or in an array that the roots lead to;
    `Unfolds.collect`: a collection leaves its text as it is.
  * `render_unfolds_paths`: all of this together.
-/
import BasicScript.Proofs.Arena.OrderedMaps
import BasicScript.Arena.Render

namespace BasicScript

namespace Arena

/-! ## Texts along paths -/

/-- The text of an entry whose value is written by `write`. -/
def entryText (write : Value → String) (e : Key × Value) : String :=
  e.1.toText ++ ": " ++ write e.2

/-- The text of entries whose values are written by `write`. -/
def entriesText (write : Value → String) (es : Entries) : String :=
  "\x7b" ++ ", ".intercalate (es.map (entryText write)) ++ "\x7d"

/-- The text of a value inside the arrays on the path from the root. -/
inductive Unfolds (a : Arena) : List Handle → Value → String → Prop
  | plain {path v} : v.handle? = none → Unfolds a path v v.toText
  | stale {path h} : a.entries? h = none → Unfolds a path (.array h) h.text
  | again {path h es} : a.entries? h = some es → h ∈ path → Unfolds a path (.array h) ellipsis
  | array {path h es write} : a.entries? h = some es → h ∉ path →
      (∀ e ∈ es, Unfolds a (h :: path) e.2 (write e.2)) →
      Unfolds a path (.array h) (entriesText write es)

/-! ## What is written -/

variable {a : Arena} {h : Handle} {path visiting : List Handle} {v : Value} {text text' : String}
  {es : Entries} {n : Nat}

section
variable (hn : a.unopened visiting ≤ n) (r : RenderingIn visiting)

theorem put_empty : r.put "" = r := by
  refine Subtype.ext ?_
  simp [RenderingIn.put]

theorem put_put (s t : String) : (r.put s).put t = r.put (s ++ t) := by
  refine Subtype.ext ?_
  simp [RenderingIn.put, String.append_assoc]

theorem leave_put_enter (h : Handle) (s : String) :
    ((r.enter h).put s).leave = r.put ("\x7b" ++ s ++ "\x7d") := by
  refine Subtype.ext ?_
  simp [RenderingIn.put, RenderingIn.enter, RenderingIn.leave, String.append_assoc]

theorem renderInto_of_handle? (hv : v.handle? = none) :
    a.renderInto n hn v r = r.put v.toText := by
  cases v with
  | array h => cases hv
  | _ => cases n <;> rfl

theorem renderInto_of_stale (hes : a.entries? h = none) :
    a.renderInto n hn (.array h) r = r.put h.text := by
  cases n <;> rw [renderInto] <;> split <;> simp_all

theorem renderInto_of_mem (hes : a.entries? h = some es) (hh : h ∈ visiting) :
    a.renderInto n hn (.array h) r = r.put ellipsis := by
  have hr : h ∈ r.1.visiting := r.2.symm ▸ hh
  cases n <;> rw [renderInto] <;> split <;> simp_all

theorem renderInto_of_not_mem (hes : a.entries? h = some es) (hh : h ∉ visiting) :
    ∃ n' hn', a.renderInto n hn (.array h) r =
      (renderItems (a.renderInto n' hn') true es (r.enter h)).leave := by
  have hr : h ∉ r.1.visiting := fun hmem => hh (r.2 ▸ hmem)
  have hlt := unopened_cons_lt hes hh
  cases n with
  | zero => omega
  | succ n =>
    refine ⟨n, by omega, ?_⟩
    rw [renderInto]
    split
    · simp_all
    · next es' hes' =>
      obtain rfl := Option.some.inj (hes.symm.trans hes')
      rw [dif_neg hr]

end

/-- Items are written one after another, with commas between them. -/
theorem renderItems_cons_eq {write' : Value → RenderingIn visiting → RenderingIn visiting}
    {write : Value → String} (e : Key × Value) (es : Entries)
    (hw : ∀ e' ∈ e :: es, ∀ r, write' e'.2 r = r.put (write e'.2)) (first : Bool)
    (r : RenderingIn visiting) :
    renderItems write' first (e :: es) r =
      r.put ((if first then "" else ", ") ++ ", ".intercalate ((e :: es).map (entryText write))) := by
  induction es generalizing e first r with
  | nil =>
    rw [renderItems, renderItems, hw e List.mem_cons_self, put_put]
    simp [entryText, String.append_assoc]
  | cons e' es ih =>
    have htail := ih e' fun e'' he'' => hw e'' (List.mem_cons_of_mem _ he'')
    rw [renderItems, hw e List.mem_cons_self, put_put, htail, put_put]
    simp [entryText, String.append_assoc]

theorem renderItems_eq {write' : Value → RenderingIn visiting → RenderingIn visiting}
    {write : Value → String} (hw : ∀ e ∈ es, ∀ r, write' e.2 r = r.put (write e.2))
    (r : RenderingIn visiting) :
    renderItems write' true es r = r.put (", ".intercalate (es.map (entryText write))) := by
  cases es with
  | nil => exact (put_empty r).symm
  | cons e es => simpa using renderItems_cons_eq e es hw true r

/-- The text along the path is written, and the arrays that are open stay so. -/
theorem Unfolds.renderInto_eq (hu : Unfolds a visiting v text) (hn : a.unopened visiting ≤ n)
    (r : RenderingIn visiting) : a.renderInto n hn v r = r.put text := by
  induction hu generalizing n with
  | plain hv => exact renderInto_of_handle? hn r hv
  | stale hes => exact renderInto_of_stale hn r hes
  | again hes hh => exact renderInto_of_mem hn r hes hh
  | array hes hh _ ih =>
    obtain ⟨n', hn', heq⟩ := renderInto_of_not_mem hn r hes hh
    rw [heq, renderItems_eq fun e he => ih e he hn', leave_put_enter, entriesText]

/-- Every value has a text: an array that is opened leaves fewer that are not open. -/
theorem exists_unfolds (a : Arena) (path : List Handle) (v : Value) :
    ∃ text, Unfolds a path v text := by
  induction hm : a.unopened path using Nat.strong_induction_on generalizing path v with
  | h m ih =>
    cases v with
    | array h =>
      cases hes : a.entries? h with
      | none => exact ⟨_, .stale hes⟩
      | some es =>
        by_cases hh : h ∈ path
        · exact ⟨_, .again hes hh⟩
        · choose write hwrite using fun w => ih _ (hm ▸ unopened_cons_lt hes hh) (h :: path) w rfl
          exact ⟨_, .array hes hh fun e _ => hwrite e.2⟩
    | _ => exact ⟨_, .plain rfl⟩

theorem Unfolds.render_eq (hu : Unfolds a [] v text) : a.render v = text := by
  rw [render, hu.renderInto_eq]
  exact String.empty_append

/-- The text of a value is the one along the empty path. -/
theorem unfolds_iff : Unfolds a [] v text ↔ text = a.render v := by
  constructor
  · exact fun hu => hu.render_eq.symm
  · rintro rfl
    obtain ⟨text, hu⟩ := exists_unfolds a [] v
    exact hu.render_eq.symm ▸ hu

/-! ## Collections -/

/-- The value is a root, or stands in an array that the roots lead to. -/
def LeadsTo (a : Arena) (roots : List Value) (v : Value) : Prop :=
  v ∈ roots ∨ ∃ h es, a.Reachable roots h ∧ a.entries? h = some es ∧ ∃ e ∈ es, e.2 = v

theorem LeadsTo.reachable {roots : List Value} (hv : a.LeadsTo roots (.array h))
    (hes : a.entries? h = some es) : a.Reachable roots h := by
  have hl := isLive_of_entries? hes
  rcases hv with hroot | ⟨k, es', hk, hes', e, he, hev⟩
  · exact .root hroot hl
  · refine .entry hk hes' ?_ hl
    exact List.mem_filterMap.2 ⟨e, he, by rw [hev]; rfl⟩

/-- What a collection keeps has the same text afterwards. -/
theorem Unfolds.collect {roots : List Value} (hu : Unfolds a path v text)
    (hv : a.LeadsTo roots v) : Unfolds (a.collect roots).2 path v text := by
  have hc := collected_collect a roots
  have hkept : ∀ {h es}, a.LeadsTo roots (.array h) → a.entries? h = some es →
      (a.collect roots).2.entries? h = some es := by
    intro h es hv hes
    have hl := (hc.isLive_iff h).2 ⟨isLive_of_entries? hes, hv.reachable hes⟩
    rw [hc.entries?_eq, if_pos hl, hes]
  induction hu with
  | plain hplain => exact .plain hplain
  | stale hes =>
    refine .stale ?_
    rw [hc.entries?_eq, hes, ite_self]
  | again hes hh => exact .again (hkept hv hes) hh
  | array hes hh _ ih =>
    exact .array (hkept hv hes) hh fun e he => ih e he (.inr ⟨_, _, hv.reachable hes, hes, e, he, rfl⟩)

/-- **Rendering.**  The text of a value, whatever arrays contain themselves or each other, is the one
along paths: an array on the path from the root is an ellipsis, any other live one is written out in
full, a stale reference is its own text.  Within a text, the arrays that are open stay so.  Arrays are
written in key order, and a collection leaves the text of everything that it keeps as it is. -/
theorem render_unfolds_paths :
    (∀ (a : Arena) v text, Unfolds a [] v text ↔ text = a.render v) ∧
    (∀ (a : Arena) n visiting (hn : a.unopened visiting ≤ n) v (r : RenderingIn visiting),
      ∃ text, Unfolds a visiting v text ∧ a.renderInto n hn v r = r.put text) ∧
    (∀ ops : List Operation, (∀ op ∈ ops, op.Canonical) →
      ∀ h es, (run .empty ops).entries? h = some es →
        es.Pairwise fun e e' => e.1.compare e'.1 = .lt) ∧
    ∀ (a : Arena) roots v, a.LeadsTo roots v → (a.collect roots).2.render v = a.render v := by
  refine ⟨fun a v text => unfolds_iff, fun a n visiting hn v r => ?_, fun ops hops h es hes => ?_,
    fun a roots v hv => ?_⟩
  · obtain ⟨text, hu⟩ := exists_unfolds a visiting v
    exact ⟨text, hu, hu.renderInto_eq hn r⟩
  · exact (ordered_empty.run tidy_empty hops h es hes).ascending
  · exact ((unfolds_iff.2 rfl).collect hv).render_eq

end Arena

end BasicScript
