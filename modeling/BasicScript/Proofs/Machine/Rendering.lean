/-
  The text of arrays does not tell where they are.

  * `entriesText_eq`: related entries have the same text if related values in them do.
  * `Matched.text_eq`: in matched arenas related values have the same text inside related paths;
    `Matched.render_eq`: so they are rendered the same.
-/
import BasicScript.Proofs.Arena.Unfolding
import BasicScript.Proofs.Machine.Matching

namespace BasicScript

namespace Arena

variable {a b : Arena} {h k : Handle} {path path' : List Handle} {R : Handle → Handle → Prop}

theorem entriesText_eq {write write' : Value → String} {es es' : Entries}
    (h : TableRelated R es es')
    (hw : ∀ e ∈ es, ∀ e' ∈ es', e.2.Related R e'.2 → write e.2 = write' e'.2) :
    entriesText write es = entriesText write' es' := by
  have hmap : es.map (entryText write) = es'.map (entryText write') := by
    induction h with
    | nil => rfl
    | cons he _ ih =>
      have htail := ih fun e he e' he' =>
        hw e (List.mem_cons_of_mem _ he) e' (List.mem_cons_of_mem _ he')
      rw [List.map_cons, List.map_cons, htail, entryText, entryText, he.1,
        hw _ List.mem_cons_self _ List.mem_cons_self he.2]
  rw [entriesText, entriesText, hmap]

theorem mem_iff_of_related (hone : Value.OneToOne R) (hpath : List.Forall₂ R path path')
    (hk : R h k) : h ∈ path ↔ k ∈ path' := by
  induction hpath with
  | nil => simp
  | cons hh _ ih => rw [List.mem_cons, List.mem_cons, hone _ _ _ _ hk hh, ih]

/-- Related values have the same text inside related paths. -/
theorem Matched.text_eq (hm : Matched R a b) (hone : Value.OneToOne R) {v v' : Value}
    {text text' : String} (hpath : List.Forall₂ R path path') (hv : v.Related R v')
    (hu : Unfolds a path v text) (hu' : Unfolds b path' v' text') : text = text' := by
  induction hu generalizing path' v' text' with
  | plain hplain =>
    cases hv with
    | array hk => cases hplain
    | same _ =>
      cases hu' with
      | plain _ => rfl
      | _ => cases hplain
  | stale hes =>
    cases hv with
    | same hplain => cases hplain
    | array hk =>
      obtain ⟨es, es', hes', -⟩ := hm _ _ hk
      rw [hes] at hes'
      cases hes'
  | again hes hh =>
    cases hv with
    | same hplain => cases hplain
    | array hk =>
      obtain ⟨es, es', -, hes', -⟩ := hm _ _ hk
      have hmem := (mem_iff_of_related hone hpath hk).1 hh
      cases hu' with
      | plain hplain => cases hplain
      | stale hnone => cases hes'.symm.trans hnone
      | again _ _ => rfl
      | array _ hnot _ => exact absurd hmem hnot
  | array hes hh _ ih =>
    cases hv with
    | same hplain => cases hplain
    | array hk =>
      obtain ⟨es, es', hes₁, hes', hrel⟩ := hm _ _ hk
      obtain rfl := Option.some.inj (hes.symm.trans hes₁)
      cases hu' with
      | plain hplain => cases hplain
      | stale hnone => cases hes'.symm.trans hnone
      | again _ hmem => exact absurd ((mem_iff_of_related hone hpath hk).2 hmem) hh
      | array hes₂ _ hwrite =>
        obtain rfl := Option.some.inj (hes'.symm.trans hes₂)
        exact entriesText_eq hrel fun e he e' he' hee' =>
          ih e he (.cons hk hpath) hee' (hwrite e' he')

/-- Related values have the same text. -/
theorem Matched.render_eq (hm : Matched R a b) (hone : Value.OneToOne R) {v v' : Value}
    (hv : v.Related R v') : a.render v = b.render v' :=
  hm.text_eq hone .nil hv (unfolds_iff.2 rfl) (unfolds_iff.2 rfl)

end Arena

end BasicScript
