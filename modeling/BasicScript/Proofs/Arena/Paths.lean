/-
  Writing through a path of keys.

  * `Arena.trail a x keys`: the slots, each an array and a key in it, that the keys lead through from
    the value `x` on, up to the first one that is no live array.
  * `Arena.Stores v a h key keys slots b`: writing `v` to `h[key][k]...` goes through `slots` and
    turns the arena `a` into `b`; a live array is gone through, and where there is none a new one is
    put.
  * `Arena.Written a x keys v slots b` says what such a write does to all arrays: those on the trail
    are kept, the others on the path are new, the last slot holds `v`, and of the arrays alive before
    one entry of one array is set.
  * `Stores.written`: by induction on the path.
  * `Arena.read? a x keys`: what the keys lead to from `x` on; `Written.read?_eq`: from each slot of the
    path it is what was written.
-/
import BasicScript.Proofs.Arena.Keys
import BasicScript.Proofs.Machine.Dangling
import Mathlib.Data.List.Chain

namespace BasicScript

namespace Arena

variable {a b : Arena} {x v : Value} {h i : Handle} {key k : Key} {keys : List Key}
  {slots : List (Handle × Key)} {es : Entries}

/-! ## Paths -/

/-- The live array that a value refers to. -/
def array? (a : Arena) (x : Value) : Option Handle := x.handle?.filter a.isLive

/-- The slots of live arrays that keys lead through from a value on. -/
def trail (a : Arena) : Value → List Key → List (Handle × Key)
  | _, [] => []
  | x, k :: ks =>
    match a.array? x with
    | none => []
    | some h => (h, k) :: a.trail (a.lookup h k) ks

theorem array?_eq_some_iff : a.array? x = some h ↔ x = .array h ∧ a.Live h := by
  rw [array?, Option.filter_eq_some_iff, Value.handle?_eq_some_iff]
  rfl

theorem trail_of_array? (hx : a.array? x = some h) :
    a.trail x (k :: keys) = (h, k) :: a.trail (a.lookup h k) keys := by
  rw [trail, hx]

theorem trail_of_none (hx : a.array? x = none) : a.trail x keys = [] := by
  cases keys with
  | nil => rfl
  | cons k keys => rw [trail, hx]

theorem trail_array (hl : a.Live h) :
    a.trail (.array h) (k :: keys) = (h, k) :: a.trail (a.lookup h k) keys :=
  trail_of_array? (array?_eq_some_iff.2 ⟨rfl, hl⟩)

/-- Where the trail ends before the keys do, there is no live array. -/
theorem array?_of_trail_last (hlast : (a.trail x keys).getLast? = some (h, k))
    (hlen : (a.trail x keys).length < keys.length) : a.array? (a.lookup h k) = none := by
  induction keys generalizing x with
  | nil => cases hlast
  | cons k₁ keys ih =>
    cases hx : a.array? x with
    | none =>
      rw [trail_of_none hx] at hlast
      cases hlast
    | some g =>
      rw [trail_of_array? hx] at hlast hlen
      rw [List.length_cons, List.length_cons, Nat.add_lt_add_iff_right] at hlen
      cases htail : a.trail (a.lookup g k₁) keys with
      | cons p ps =>
        refine ih ?_ hlen
        rw [htail] at hlast ⊢
        rwa [List.getLast?_cons_cons] at hlast
      | nil =>
        rw [htail] at hlast hlen
        cases hlast
        cases keys with
        | nil => cases hlen
        | cons k₂ keys =>
          by_contra hsome
          obtain ⟨g', hg'⟩ := Option.ne_none_iff_exists'.1 hsome
          rw [trail_of_array? hg'] at htail
          cases htail

/-- Writing `v` to `h[key][k]...` goes through `slots` and turns the arena `a` into `b`. -/
inductive Stores (v : Value) :
    Arena → Handle → Key → List Key → List (Handle × Key) → Arena → Prop
  | last {a : Arena} {h : Handle} {key : Key} :
      Stores v a h key [] [(h, key)] (a.modify h (·.insert key v))
  | through {a b : Arena} {h i : Handle} {key k : Key} {keys : List Key}
      {slots : List (Handle × Key)} : a.array? (a.lookup h key) = some i →
      Stores v a i k keys slots b → Stores v a h key (k :: keys) ((h, key) :: slots) b
  | create {a b : Arena} {h : Handle} {key k : Key} {keys : List Key}
      {slots : List (Handle × Key)} : a.array? (a.lookup h key) = none →
      Stores v (a.allocate.2.modify h (·.insert key (.array a.allocate.1))) a.allocate.1 k keys
        slots b →
      Stores v a h key (k :: keys) ((h, key) :: slots) b

/-! ## What is written -/

/-- What a write of `v` through `keys`, beginning with the value `x`, does to all arrays. -/
structure Written (a : Arena) (x : Value) (keys : List Key) (v : Value)
    (slots : List (Handle × Key)) (b : Arena) : Prop where
  keys_eq : slots.map (·.2) = keys
  /-- Live arrays on the path are kept. -/
  kept : a.trail x keys <+: slots
  /-- The others are new arrays, which hold the entry of the path and nothing else. -/
  fresh : ∀ p ∈ slots.drop (a.trail x keys).length,
    a.entries? p.1 = none ∧ ∃ w, b.entries? p.1 = some [(p.2, w)]
  distinct : ((slots.drop (a.trail x keys).length).map (·.1)).Nodup
  /-- Each slot leads to the array of the next one, unless it is the slot written last. -/
  chain : slots.IsChain fun p q => slots.getLast? ≠ some p → b.lookup p.1 p.2 = .array q.1
  last : ∀ p, slots.getLast? = some p → b.lookup p.1 p.2 = v
  /-- Of the arrays that were alive only the last one on the trail changes. -/
  same : ∀ h es, a.entries? h = some es → (∀ k, (a.trail x keys).getLast? ≠ some (h, k)) →
    b.entries? h = some es
  changed : ∀ h k es, a.entries? h = some es → (a.trail x keys).getLast? = some (h, k) →
    ∃ w, b.entries? h = some (es.insert k w)

section
variable (hw : a.Written x keys v slots b)
include hw

theorem Written.live (hl : a.Live h) : b.Live h := by
  obtain ⟨es, hes⟩ := Option.isSome_iff_exists.1 hl
  by_cases hlast : ∃ k, (a.trail x keys).getLast? = some (h, k)
  · obtain ⟨k, hk⟩ := hlast
    obtain ⟨w, hw⟩ := hw.changed h k es hes hk
    exact live_of_entries? hw
  · exact live_of_entries? (hw.same h es hes fun k hk => hlast ⟨k, hk⟩)

/-- All entries stay but the one at the end of the trail. -/
theorem Written.lookup_eq (hkeys : ∀ k ∈ keys, k.Canonical) (hl : a.Live h) (hk : k.Canonical)
    (hne : (a.trail x keys).getLast? ≠ some (h, k)) : b.lookup h k = a.lookup h k := by
  obtain ⟨es, hes⟩ := Option.isSome_iff_exists.1 hl
  by_cases hlast : ∃ k', (a.trail x keys).getLast? = some (h, k')
  · obtain ⟨k', hk'⟩ := hlast
    obtain ⟨w, hwes⟩ := hw.changed h k' es hes hk'
    have hmem : k' ∈ keys := by
      rw [← hw.keys_eq]
      exact List.mem_map_of_mem (hw.kept.subset (List.mem_of_getLast? hk'))
    have hkk' : k ≠ k' := by
      rintro rfl
      exact hne hk'
    rw [lookup, lookup, hwes, hes]
    exact congrArg (·.getD .empty)
      (Entries.find?_insert_of_ne (hkeys k' hmem) hk hkk' es w)
  · have hsame := hw.same h es hes fun k hk => hlast ⟨k, hk⟩
    rw [lookup, lookup, hsame, hes]

end

theorem Written.exists_cons (hw : a.Written (.array h) (key :: keys) v slots b) (hl : a.Live h) :
    ∃ rest, slots = (h, key) :: rest := by
  have hkept := hw.kept
  rw [trail_array hl] at hkept
  obtain ⟨rest, rfl⟩ := hkept
  exact ⟨_, rfl⟩

/-- A write that begins in a new array stays in new arrays. -/
theorem Written.of_fresh (hw : a.Written (.array i) (key :: keys) v slots b)
    (hi : a.entries? i = some []) :
    (∀ p ∈ slots, (p.1 = i ∨ a.entries? p.1 = none) ∧ ∃ w, b.entries? p.1 = some [(p.2, w)]) ∧
    (slots.map (·.1)).Nodup ∧
    ∀ h es, h ≠ i → a.entries? h = some es → b.entries? h = some es := by
  have hl : a.Live i := live_of_entries? hi
  have htrail : a.trail (.array i) (key :: keys) = [(i, key)] := by
    have hnone : a.array? (a.lookup i key) = none := by
      rw [lookup, hi]
      rfl
    rw [trail_array hl, trail_of_none hnone]
  obtain ⟨rest, rfl⟩ := hw.exists_cons hl
  have hfresh := hw.fresh
  have hdistinct := hw.distinct
  rw [htrail, List.length_singleton, List.drop_succ_cons, List.drop_zero] at hfresh hdistinct
  have hlast : (a.trail (.array i) (key :: keys)).getLast? = some (i, key) := by rw [htrail]; rfl
  refine ⟨fun p hp => ?_, ?_, fun h es hne hes => hw.same h es hes fun k hk => ?_⟩
  · rcases List.mem_cons.1 hp with rfl | hp
    · obtain ⟨w, hw⟩ := hw.changed i key [] hi hlast
      exact ⟨.inl rfl, w, hw⟩
    · exact ⟨.inr (hfresh p hp).1, (hfresh p hp).2⟩
  · rw [List.map_cons, List.nodup_cons]
    refine ⟨fun hmem => ?_, hdistinct⟩
    obtain ⟨p, hp, hpi⟩ := List.mem_map.1 hmem
    have hnone := (hfresh p hp).1
    rw [hpi, hi] at hnone
    cases hnone
  · rw [hlast] at hk
    cases hk
    exact hne rfl

/-- A write that begins with no live array begins in a new one. -/
theorem Written.of_allocate (htidy : a.Tidy) (hx : a.array? x = none)
    (hw : a.allocate.2.Written (.array a.allocate.1) (key :: keys) v slots b) :
    a.Written x (key :: keys) v slots b := by
  have halloc := htidy.allocated.1
  have hnew : a.allocate.2.entries? a.allocate.1 = some [] := by
    rw [halloc.entries?_eq, if_pos rfl]
  obtain ⟨hfresh, hdistinct, hsame⟩ := hw.of_fresh hnew
  have htrail : a.trail x (key :: keys) = [] := trail_of_none hx
  refine ⟨hw.keys_eq, ?_, fun p hp => ?_, ?_, hw.chain, hw.last, fun h es hes _ => ?_,
    fun h k es _ hk => ?_⟩
  · rw [htrail]
    exact List.nil_prefix
  · rw [htrail] at hp
    obtain ⟨hold, hentry⟩ := hfresh p hp
    refine ⟨?_, hentry⟩
    rcases hold with hp | hp
    · rw [hp]
      exact halloc.entries?_new
    · rw [halloc.entries?_eq] at hp
      split at hp
      · cases hp
      · exact hp
  · rw [htrail]
    exact hdistinct
  · have hne : h ≠ a.allocate.1 := by
      rintro rfl
      rw [halloc.entries?_new] at hes
      cases hes
    refine hsame h es hne ?_
    rw [halloc.entries?_eq, if_neg hne, hes]
  · rw [htrail] at hk
    cases hk

/-! ## Reading what was written -/

/-- What keys lead to from a value on: there is nothing in `empty`, and no other values than arrays
have entries. -/
def read? (a : Arena) : Value → List Key → Option Value
  | x, [] => some x
  | .array h, k :: ks => a.read? (a.lookup h k) ks
  | .empty, _ :: ks => a.read? .empty ks
  | _, _ :: _ => none

/-- Slots that lead on up to the last one, which is not among those before it. -/
theorem read?_of_chain {p last : Handle × Key} {rest : List (Handle × Key)}
    (hchain : (p :: rest).IsChain fun p q => some last ≠ some p → b.lookup p.1 p.2 = .array q.1)
    (hlast : (p :: rest).getLast? = some last) (hv : b.lookup last.1 last.2 = v)
    (hearly : ∀ early, p :: rest = early ++ [last] → last ∉ early) :
    b.read? (.array p.1) ((p :: rest).map (·.2)) = some v := by
  induction rest generalizing p with
  | nil =>
    rw [List.getLast?_singleton] at hlast
    cases hlast
    exact congrArg some hv
  | cons q rest ih =>
    rw [List.getLast?_cons_cons] at hlast
    rw [List.isChain_cons_cons] at hchain
    obtain ⟨early, hq⟩ := List.getLast?_eq_some_iff.1 hlast
    have hnot : last ∉ p :: early := hearly (p :: early) (by rw [hq]; rfl)
    have hne : some last ≠ some p := by
      rintro ⟨⟩
      exact hnot List.mem_cons_self
    rw [List.map_cons, read?, hchain.1 hne]
    refine ih hchain.2 hlast fun early hq hmem => ?_
    exact hearly (p :: early) (by rw [hq]; rfl) (List.mem_cons_of_mem _ hmem)

/-- From each slot of the path on the other keys lead to what was written. -/
theorem Written.read?_eq (hw : a.Written x keys v slots b) {first rest : List (Handle × Key)}
    {p : Handle × Key} (hslots : slots = first ++ p :: rest)
    (hearly : ∀ early q, p :: rest = early ++ [q] → q ∉ early) :
    b.read? (.array p.1) ((p :: rest).map (·.2)) = some v := by
  obtain ⟨last, hlast⟩ : ∃ last, (p :: rest).getLast? = some last := ⟨_, List.getLast?_cons⟩
  have hslots_last : slots.getLast? = some last := by
    rw [hslots, List.getLast?_append_cons, hlast]
  have hchain := hw.chain
  rw [hslots_last, hslots] at hchain
  exact read?_of_chain hchain.right_of_append hlast (hw.last last hslots_last)
    fun early h => hearly early last h

/-! ## One step of the path -/

theorem written_last (hl : a.Live h) :
    a.Written (.array h) [key] v [(h, key)] (a.modify h (·.insert key v)) := by
  have htrail : a.trail (.array h) [key] = [(h, key)] := trail_array hl
  refine ⟨rfl, htrail ▸ List.prefix_refl _, ?_, ?_, .singleton _, fun p hp => ?_,
    fun g es hes hg => ?_, fun g k es hes hg => ?_⟩
  · simp [htrail]
  · simp [htrail]
  · rw [List.getLast?_singleton] at hp
    cases hp
    obtain ⟨es, hes⟩ := Option.isSome_iff_exists.1 hl
    rw [lookup, entries?_modify_self, hes]
    exact congrArg (·.getD .empty) (es.find?_insert_self key v)
  · have hne : g ≠ h := by
      rintro rfl
      exact hg key (by rw [htrail]; rfl)
    rw [entries?_modify, if_neg hne, hes]
  · rw [htrail] at hg
    cases hg
    rw [entries?_modify_self, hes]
    exact ⟨v, rfl⟩

/-- A live array in front of a path. -/
theorem Written.through (hw : a.Written (.array i) (k :: keys) v slots b) (hl : a.Live h)
    (hkeys : ∀ k' ∈ key :: k :: keys, k'.Canonical) (hi : a.array? (a.lookup h key) = some i) :
    a.Written (.array h) (key :: k :: keys) v ((h, key) :: slots) b := by
  obtain ⟨hlookup, hil⟩ := array?_eq_some_iff.1 hi
  obtain ⟨rest, rfl⟩ := hw.exists_cons hil
  have htrail : a.trail (.array h) (key :: k :: keys) =
      (h, key) :: (i, k) :: a.trail (a.lookup i k) keys := by
    rw [trail_array hl, hlookup, trail_array hil]
  have hlast : (a.trail (.array h) (key :: k :: keys)).getLast? =
      (a.trail (.array i) (k :: keys)).getLast? := by
    rw [htrail, trail_array hil, List.getLast?_cons_cons]
  have hlen : (a.trail (.array h) (key :: k :: keys)).length =
      (a.trail (.array i) (k :: keys)).length + 1 := by
    rw [htrail, trail_array hil]
    rfl
  refine ⟨?_, ?_, ?_, ?_, ?_, ?_, ?_, ?_⟩
  · rw [List.map_cons, hw.keys_eq]
  · rw [htrail, ← trail_array hil, List.prefix_cons_inj]
    exact hw.kept
  · rw [hlen, List.drop_succ_cons]
    exact hw.fresh
  · rw [hlen, List.drop_succ_cons]
    exact hw.distinct
  · rw [List.getLast?_cons_cons, List.isChain_cons_cons]
    refine ⟨fun hne => ?_, hw.chain⟩
    rw [hw.lookup_eq (fun k' hk' => hkeys k' (List.mem_cons_of_mem _ hk')) hl
      (hkeys key List.mem_cons_self) ?_, hlookup]
    intro heq
    -- Either the trail is the whole path, or it ends where there is no live array.
    rcases Nat.lt_or_ge (a.trail (.array i) (k :: keys)).length (k :: keys).length with hlt | hge
    · rw [array?_of_trail_last heq hlt] at hi
      cases hi
    · have hslots := hw.kept.eq_of_length_le (by
        rw [← List.length_map (f := (·.2)), hw.keys_eq]
        exact hge)
      rw [hslots] at heq
      exact hne heq
  · rw [List.getLast?_cons_cons]
    exact hw.last
  · rw [hlast]
    exact hw.same
  · rw [hlast]
    exact hw.changed

/-- A new array in front of a path. -/
theorem Written.create (htidy : a.Tidy) (hl : a.Live h)
    (hi : a.array? (a.lookup h key) = none)
    (hw : (a.allocate.2.modify h (·.insert key (.array a.allocate.1))).Written
      (.array a.allocate.1) (k :: keys) v slots b) :
    a.Written (.array h) (key :: k :: keys) v ((h, key) :: slots) b := by
  have halloc := htidy.allocated.1
  have hne : a.allocate.1 ≠ h := by
    intro heq
    rw [Live, isLive, ← heq, halloc.entries?_new] at hl
    cases hl
  -- The arrays behind the first step: the new one is empty, and the array `h` has a new entry.
  have hmid : ∀ g, (a.allocate.2.modify h (·.insert key (.array a.allocate.1))).entries? g =
      if g = h then (a.entries? h).map (·.insert key (.array a.allocate.1))
      else if g = a.allocate.1 then some [] else a.entries? g := by
    intro g
    rw [entries?_modify, halloc.entries?_eq, halloc.entries?_eq, if_neg hne.symm]
  have hnew : (a.allocate.2.modify h (·.insert key (.array a.allocate.1))).entries? a.allocate.1 =
      some [] := by
    rw [hmid, if_neg hne, if_pos rfl]
  obtain ⟨hfresh, hdistinct, hsame⟩ := hw.of_fresh hnew
  obtain ⟨rest, rfl⟩ := hw.exists_cons (live_of_entries? hnew)
  have htrail : a.trail (.array h) (key :: k :: keys) = [(h, key)] := by
    rw [trail_array hl, trail_of_none hi]
  refine ⟨?_, ?_, fun p hp => ?_, ?_, ?_, ?_, fun g es hes hg => ?_, fun g k' es hes hg => ?_⟩
  · rw [List.map_cons, hw.keys_eq]
  · rw [htrail]
    exact ⟨_, rfl⟩
  · rw [htrail] at hp
    obtain ⟨hold, hentry⟩ := hfresh p hp
    refine ⟨?_, hentry⟩
    rcases hold with hp | hp
    · rw [hp]
      exact halloc.entries?_new
    · rw [hmid] at hp
      split at hp
      · next hph =>
        rw [hph]
        simpa using hp
      · split at hp
        · cases hp
        · exact hp
  · rw [htrail]
    exact hdistinct
  · rw [List.getLast?_cons_cons, List.isChain_cons_cons]
    refine ⟨fun _ => ?_, hw.chain⟩
    obtain ⟨es, hes⟩ := Option.isSome_iff_exists.1 hl
    have hb := hsame h (es.insert key (.array a.allocate.1)) hne.symm (by
      rw [hmid, if_pos rfl, hes]
      rfl)
    rw [lookup, hb]
    exact congrArg (·.getD .empty) (es.find?_insert_self key _)
  · rw [List.getLast?_cons_cons]
    exact hw.last
  · rw [htrail] at hg
    have hgh : g ≠ h := by
      rintro rfl
      exact hg key rfl
    have hgi : g ≠ a.allocate.1 := by
      rintro rfl
      rw [halloc.entries?_new] at hes
      cases hes
    refine hsame g es hgi ?_
    rw [hmid, if_neg hgh, if_neg hgi, hes]
  · rw [htrail] at hg
    cases hg
    refine ⟨.array a.allocate.1, hsame h _ hne.symm ?_⟩
    rw [hmid, if_pos rfl, hes]
    rfl

/-- **What a write through a path does to all arrays.** -/
theorem Stores.written (h₁ : Stores v a h key keys slots b) (htidy : a.Tidy) (hl : a.Live h)
    (hkeys : ∀ k ∈ key :: keys, k.Canonical) :
    a.Written (.array h) (key :: keys) v slots b := by
  induction h₁ with
  | last => exact written_last hl
  | through hi _ ih =>
    have hil := (array?_eq_some_iff.1 hi).2
    have hw := ih htidy hil fun k hk => hkeys k (List.mem_cons_of_mem _ hk)
    exact hw.through hl hkeys hi
  | @create a b h key k keys slots hi _ ih =>
    have hlive : (a.allocate.2.modify h (·.insert key (.array a.allocate.1))).Live
        a.allocate.1 := by
      rw [live_modify]
      exact htidy.allocated.1.live_iff.2 (.inl rfl)
    have hw := ih (htidy.allocate.modify h _) hlive fun k hk => hkeys k (List.mem_cons_of_mem _ hk)
    exact hw.create htidy hl hi

end Arena

end BasicScript
