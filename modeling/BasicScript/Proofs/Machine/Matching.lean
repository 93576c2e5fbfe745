/-
  Arenas that hold the same arrays in different places.

  * `Arena.Matched R a b`: related references lead to related entries.
  * `extended R h k`: the relation `R` with one more pair.
  * `Matched.allocate`, `Matched.modify`: allocating in both arenas extends the relation by the new
    references, and the same change of both arrays keeps it.
  * `Matched.reachable`: what is reachable in one arena is related to what is reachable in the other.
-/
import BasicScript.Proofs.Arena.FreeList
import BasicScript.Proofs.Machine.Related

namespace BasicScript

variable {R : Handle → Handle → Prop}

/-- The relation with one more pair. -/
def extended (R : Handle → Handle → Prop) (h k h' k' : Handle) : Prop := R h' k' ∨ h' = h ∧ k' = k

/-- Related references lead to related entries. -/
def Arena.Matched (R : Handle → Handle → Prop) (a b : Arena) : Prop :=
  ∀ h k, R h k → ∃ es es', a.entries? h = some es ∧ b.entries? k = some es' ∧ TableRelated R es es'

theorem extended_of {h k h' k' : Handle} (hk : R h' k') : extended R h k h' k' := .inl hk

theorem extended_self (R : Handle → Handle → Prop) (h k : Handle) : extended R h k h k :=
  .inr ⟨rfl, rfl⟩

namespace Arena

variable {a b a' b' : Arena} {h k : Handle}

theorem Matched.alike (hm : Matched R a b) (hk : R h k) : a.Alike R b h k := by
  obtain ⟨es, es', hes, hes', hrel⟩ := hm h k hk
  exact .entries hes hes' hrel

theorem Matched.flip (hm : Matched R a b) : Matched (flip R) b a := by
  intro k h hk
  obtain ⟨es, es', hes, hes', hrel⟩ := hm h k hk
  exact ⟨es', es, hes', hes, hrel.flip⟩

/-! ## Allocation -/

/-- The new references are related to no other ones. -/
theorem Matched.extended_oneToOne (hm : Matched R a b) (hone : Value.OneToOne R)
    (ha : a.Allocated h a') (hb : b.Allocated k b') : Value.OneToOne (extended R h k) := by
  -- related references lead to arrays, while the new ones led to none before
  have hleft : ∀ {h₁ k₁}, R h₁ k₁ → h₁ ≠ h := by
    rintro h₁ k₁ hk rfl
    obtain ⟨es, es', hes, -⟩ := hm _ _ hk
    cases ha.entries?_new.symm.trans hes
  have hright : ∀ {h₁ k₁}, R h₁ k₁ → k₁ ≠ k := by
    rintro h₁ k₁ hk rfl
    obtain ⟨es, es', -, hes', -⟩ := hm _ _ hk
    cases hb.entries?_new.symm.trans hes'
  rintro h₁ k₁ h₂ k₂ (h₁k₁ | ⟨rfl, rfl⟩) (h₂k₂ | ⟨rfl, rfl⟩)
  · exact hone _ _ _ _ h₁k₁ h₂k₂
  · exact iff_of_false (hleft h₁k₁) (hright h₁k₁)
  · exact iff_of_false (hleft h₂k₂).symm (hright h₂k₂).symm
  · exact iff_of_true rfl rfl

theorem Matched.allocate (hm : Matched R a b) (ha : a.Allocated h a') (hb : b.Allocated k b') :
    Matched (extended R h k) a' b' := by
  rintro h₁ k₁ (hk | ⟨rfl, rfl⟩)
  · obtain ⟨es, es', hes, hes', hrel⟩ := hm h₁ k₁ hk
    refine ⟨es, es', ?_, ?_, hrel.mono fun _ _ => extended_of⟩
    · rw [ha.entries?_eq, if_neg, hes]
      rintro rfl
      cases ha.entries?_new.symm.trans hes
    · rw [hb.entries?_eq, if_neg, hes']
      rintro rfl
      cases hb.entries?_new.symm.trans hes'
  · refine ⟨[], [], ?_, ?_, List.Forall₂.nil⟩
    · rw [ha.entries?_eq, if_pos rfl]
    · rw [hb.entries?_eq, if_pos rfl]

/-! ## Changes of entries -/

theorem Matched.modify (hm : Matched R a b) (hone : Value.OneToOne R) (hk : R h k)
    {f f' : Entries → Entries}
    (hf : ∀ es es', TableRelated R es es' → TableRelated R (f es) (f' es')) :
    Matched R (a.modify h f) (b.modify k f') := by
  intro h₁ k₁ hk₁
  obtain ⟨es, es', hes, hes', hrel⟩ := hm h₁ k₁ hk₁
  rw [entries?_modify, entries?_modify]
  by_cases heq : h₁ = h
  · obtain rfl := heq
    obtain rfl := (hone _ _ _ _ hk₁ hk).1 rfl
    exact ⟨f es, f' es', by rw [if_pos rfl, hes]; rfl, by rw [if_pos rfl, hes']; rfl, hf es es' hrel⟩
  · have heq' := mt (hone _ _ _ _ hk₁ hk).2 heq
    exact ⟨es, es', by rw [if_neg heq, hes], by rw [if_neg heq', hes'], hrel⟩

/-! ## Reachability -/

/-- If the roots are related, so are the references to which they lead. -/
theorem Matched.reachable (hm : Matched R a b) {roots roots' : List Value}
    (hroots : ∀ h, .array h ∈ roots → ∃ k, .array k ∈ roots' ∧ R h k)
    (hr : a.Reachable roots h) : ∃ k, R h k ∧ b.Reachable roots' k := by
  have hlive : ∀ {h k}, R h k → b.isLive k = true := fun hk =>
    let ⟨_, _, _, hes', _⟩ := hm _ _ hk
    isLive_of_entries? hes'
  induction hr with
  | @root h hmem _ =>
    obtain ⟨k, hmem', hk⟩ := hroots h hmem
    exact ⟨k, hk, .root hmem' (hlive hk)⟩
  | @entry h h₁ es _ hes hh₁ _ ih =>
    obtain ⟨k, hk, hr'⟩ := ih
    obtain ⟨es₁, es', hes₁, hes', hrel⟩ := hm h k hk
    obtain rfl : es₁ = es := Option.some.inj (hes₁.symm.trans hes)
    obtain ⟨e, he, hh⟩ := Entries.mem_handles.1 hh₁
    obtain ⟨e', he', k₁, hk₁', hk₁⟩ := hrel.exists_handle he hh
    exact ⟨k₁, hk₁, .entry hr' hes' (Entries.mem_handles.2 ⟨e', he', hk₁'⟩) (hlive hk₁)⟩

end Arena

/-- The arrays in related frames are related. -/
theorem Frame.Related.exists_array {f f' : Frame} (hf : f.Related R f') {h : Handle}
    (hh : .array h ∈ f.values) : ∃ k, .array k ∈ f'.values ∧ R h k := by
  obtain ⟨e, he, hv⟩ := List.mem_map.1 hh
  obtain ⟨e', he', k, hv', hk⟩ := TableRelated.exists_handle hf he (by rw [hv]; rfl)
  exact ⟨k, List.mem_map.2 ⟨e', he', Value.handle?_eq_some_iff.1 hv'⟩, hk⟩

theorem Frame.Related.flip {f f' : Frame} (hf : f.Related R f') : f'.Related (flip R) f :=
  TableRelated.flip hf

end BasicScript
