/-
  Numbers that are one key.

  * `Binary64.toSafeInt?_eq_some_iff`: a real is taken for a whole number if that is its exact value
    and is at most `2^53 - 1` in size.
  * `Key.ofValue_real_eq_integer_iff`, `Key.ofValue_real_eq_real_iff`: when an integer and a real, or
    two reals, are one key.
  * `Twins e e' u w`: two expressions that do the same, except that the one gives `u` where the other
    gives `w`.
  * `SameRead u w`, `SameAssign u w`, `SameDim u w`, `SameHas u w`: no program can tell which of two
    twins stands as a key in a read, an assignment, a `DIM` or a `HAS`; `one_key_tfae`: each of them
    says that `u` and `w` are one key.
  * `Key.Apart k k'`: what is done to the entry of `k` does not show in that of `k'`.
  * `OneEntryIff same u w`: the two values name one entry exactly if `same` holds, and otherwise two
    entries that are apart; `numbers_name_one_entry`: when two numbers name one entry.
-/
import BasicScript.Proofs.Arena.Keys
import BasicScript.Proofs.Value.Numbers
import BasicScript.Proofs.Machine.Steps
import Mathlib.Data.List.TFAE

namespace BasicScript

/-! ## Reals that hold whole numbers -/

namespace Binary64

variable {x y : Binary64} {n : Int}

/-- The whole number that a real is taken for is its exact value, and one of the safe ones. -/
theorem toSafeInt?_eq_some_iff :
    x.toSafeInt? = some n ↔ x.units? = some (n * one) ∧ n.natAbs ≤ maxSafeInt := by
  cases x with
  | nan => exact ⟨nofun, nofun⟩
  | infinite a => exact ⟨nofun, nofun⟩
  | finite a m s hm =>
    simp only [toSafeInt?, units?, Option.some.injEq]
    generalize size m s = u
    constructor
    · intro h
      split at h
      · next hu =>
        obtain rfl := Option.some.inj h
        rw [natAbs_signed, ← signed_mul, Nat.div_mul_cancel (Nat.dvd_of_mod_eq_zero hu.1)]
        exact ⟨rfl, hu.2⟩
      · cases h
    · rintro ⟨hu, hn⟩
      obtain ⟨hsize, hsign⟩ := eq_of_signed_eq_mul_one hu
      have hdiv : u / one = n.natAbs := by rw [hsize, Nat.mul_div_cancel _ one_pos]
      rw [if_pos ⟨by rw [hsize, Nat.mul_mod_left], hdiv.le.trans hn⟩, hdiv, hsign]

theorem isNaN_of_units? {u : Int} (h : x.units? = some u) : x.isNaN = false := by
  cases x with
  | finite => rfl
  | _ => cases h

theorem compare?_self (hx : x.isNaN = false) : x.compare? x = some .eq := by
  cases x with
  | nan => cases hx
  | infinite a => simp [compare?]
  | finite a m s hm => exact congrArg some (Int.compare_eq_eq.2 rfl)

/-- Finite numbers compare as equal if they have the same exact value. -/
theorem compare?_of_units? {u : Int} (hx : x.units? = some u) (hy : y.units? = some u) :
    x.compare? y = some .eq := by
  cases x with
  | finite a m s hm =>
    cases y with
    | finite b n t hn =>
      exact congrArg some (Int.compare_eq_eq.2 (Option.some.inj (hx.trans hy.symm)))
    | _ => cases hy
  | _ => cases hx

theorem units?_eq_of_compare? (h : x.compare? y = some .eq) : x.units? = y.units? := by
  cases x <;> cases y
  case infinite.infinite => rfl
  case finite.finite => exact congrArg some (Int.compare_eq_eq.1 (Option.some.inj h))
  case infinite.finite a _ _ _ _ => cases a <;> cases h
  case finite.infinite _ _ _ _ b => cases b <;> cases h
  all_goals cases h

end Binary64

/-! ## Keys of numbers -/

namespace Key

variable {x y : Binary64}

/-- A whole number that a real is taken for fits into 64 bits. -/
theorem toInt_ofInt_of_safe {n : Int} (h : n.natAbs ≤ Binary64.maxSafeInt) :
    (Int64.ofInt n).toInt = n := by
  have hmax : Binary64.maxSafeInt = 2 ^ 53 - 1 := rfl
  exact Int64.toInt_ofInt_of_le (by omega) (by omega)

/-- The key of a real is the integer that it is taken for, or else the real itself. -/
theorem ofValue_real_cases (hx : x.isNaN = false) :
    (∃ n, x.toSafeInt? = some n ∧ ofValue (.real x) = .ok (.integer (.ofInt n))) ∨
      (x.toSafeInt? = none ∧ ofValue (.real x) = .ok (.real x)) := by
  simp only [ofValue, hx]
  cases x.toSafeInt? with
  | some n => exact .inl ⟨n, rfl, rfl⟩
  | none => exact .inr ⟨rfl, rfl⟩

theorem exists_key_of_real (hx : x.isNaN = false) : ∃ k, ofValue (.real x) = .ok k := by
  rcases ofValue_real_cases hx with ⟨n, -, hkey⟩ | ⟨-, hkey⟩
  · exact ⟨_, hkey⟩
  · exact ⟨_, hkey⟩

/-- The key of a real is an integer if the two are the same number, and a safe one. -/
theorem ofValue_real_eq_integer_iff (n : Int64) (hx : x.isNaN = false) :
    ofValue (.real x) = .ok (.integer n) ↔
      x.units? = some (n.toInt * Binary64.one) ∧ n.toInt.natAbs ≤ Binary64.maxSafeInt := by
  rw [← Binary64.toSafeInt?_eq_some_iff]
  rcases ofValue_real_cases hx with ⟨m, hm, hkey⟩ | ⟨hnone, hkey⟩
  · have hint := toInt_ofInt_of_safe (Binary64.toSafeInt?_eq_some_iff.1 hm).2
    rw [hkey, hm]
    constructor
    · rintro ⟨⟩
      rw [hint]
    · rintro ⟨⟩
      rw [Int64.ofInt_toInt]
  · rw [hkey, hnone]
    exact ⟨nofun, nofun⟩

/-- Two reals are one key if they are equal as numbers. -/
theorem ofValue_real_eq_real_iff (hx : x.isNaN = false) (hy : y.isNaN = false) :
    ofValue (.real x) = ofValue (.real y) ↔ x.compare? y = some .eq := by
  rcases ofValue_real_cases hx with ⟨n, -, hkey⟩ | ⟨hnone, hkey⟩
  · -- `y` has to be taken for the same integer
    have hn := (ofValue_real_eq_integer_iff _ hx).1 hkey
    rw [hkey, eq_comm, ofValue_real_eq_integer_iff _ hy]
    constructor
    · exact fun h => Binary64.compare?_of_units? hn.1 h.1
    · exact fun h => ⟨Binary64.units?_eq_of_compare? h ▸ hn.1, hn.2⟩
  · rw [hkey]
    constructor
    · intro h
      rcases ofValue_real_cases hy with ⟨_, -, hkey'⟩ | ⟨-, hkey'⟩
      · rw [hkey'] at h
        cases h
      · rw [hkey'] at h
        cases h
        exact Binary64.compare?_self hx
    · intro h
      rw [← Binary64.eq_of_compare?_eq (Binary64.isZero_of_toSafeInt?_eq_none hnone) h, hkey]

end Key

namespace Machine

variable {σ α : Type} {e e' : Expr} {u w : Value} {k k' : Key}

/-! ## Keys that no program tells apart -/

/-- Two expressions that do the same, except that the one gives `u` where the other gives `w`. -/
def Twins (e e' : Expr) (u w : Value) : Prop :=
  ∀ (σ : Type) (fuel : Nat) (c : Context σ),
    (∃ d, eval fuel e c = .ok u d ∧ eval fuel e' c = .ok w d) ∨
      ∃ s d, eval fuel e c = .error s d ∧ eval fuel e' c = .error s d

/-- Constants are twins. -/
theorem twins_literal (l l' : Literal) (line : Nat) :
    Twins (.literal l line) (.literal l' line) l.toValue l'.toValue := by
  intro σ fuel c
  cases fuel with
  | zero => exact .inr ⟨.outOfFuel, c, by rw [eval]; rfl, by rw [eval]; rfl⟩
  | succ fuel => exact .inl ⟨c, by rw [eval]; rfl, by rw [eval]; rfl⟩

/-- What takes the values of twins to the same, does the same behind them. -/
theorem Twins.bind (h : Twins e e' u w) {f f' : Value → Machine σ α} (hf : f u = f' w)
    (fuel : Nat) : (eval fuel e >>= f) = (eval fuel e' >>= f') := by
  funext c
  rcases h σ fuel c with ⟨d, he, he'⟩ | ⟨s, d, he, he'⟩
  · rw [bind_of_ok he, bind_of_ok he', hf]
  · rw [bind_of_error he, bind_of_error he']

/-- Reads `target[e]` give the same for twins. -/
def SameRead (u w : Value) : Prop :=
  ∀ e e', Twins e e' u w → ∀ (σ : Type) (fuel : Nat) (target : Expr) (line : Nat),
    eval (σ := σ) fuel (.index target e line) = eval fuel (.index target e' line)

/-- Assignments with twins among the keys do the same. -/
def SameAssign (u w : Value) : Prop :=
  ∀ e e', Twins e e' u w →
    ∀ (σ : Type) (fuel : Nat) (name : String) (before after : List Expr) (value : Expr) (line : Nat),
      exec (σ := σ) fuel (.assign name (before ++ e :: after) value line) =
        exec fuel (.assign name (before ++ e' :: after) value line)

/-- `DIM` of the entries of twins does the same. -/
def SameDim (u w : Value) : Prop :=
  ∀ e e', Twins e e' u w → ∀ (σ : Type) (fuel : Nat) (name : String) (line : Nat),
    exec (σ := σ) fuel (.dim name (some e) line) = exec fuel (.dim name (some e') line)

/-- `HAS` gives the same for both values, wherever the script has no callable of its own for it. -/
def SameHas (u w : Value) : Prop :=
  ∀ (σ : Type) (fuel : Nat) (target : Value) (line : Nat) (c : Context σ),
    findSubroutine? c.subroutines ⟨"HAS", 2⟩ = none → c.native? ⟨"HAS", 2⟩ = none →
      call fuel "HAS" [target, u] line c = call fuel "HAS" [target, w] line c

/-- The built-in `HAS` of a script without a callable of its own for it. -/
theorem call_has {c : Context σ} (hsub : findSubroutine? c.subroutines ⟨"HAS", 2⟩ = none)
    (hnative : c.native? ⟨"HAS", 2⟩ = none) (fuel : Nat) (target v : Value) (line : Nat) :
    call (fuel + 1) "HAS" [target, v] line c =
      onLine line ((has c.arrays target v).map .bool) c := by
  rw [call]
  simp only [List.length_cons, List.length_nil, bind_of_ok (m := get) rfl, Nat.zero_add,
    Nat.reduceAdd, hsub, hnative]
  rfl

section
variable (h : Key.ofValue u = Key.ofValue w)
include h

theorem sameRead_of_one_key : SameRead u w := by
  intro e e' he σ fuel target line
  cases fuel with
  | zero => rw [eval, eval]
  | succ fuel =>
    rw [eval, eval]
    congr 1
    funext t
    refine he.bind ?_ fuel
    cases t <;> simp only [readEntry, h]

theorem sameAssign_of_one_key : SameAssign u w := by
  intro e e' he σ fuel name before after value line
  -- the keys before are evaluated first
  have hkeys : ∀ fuel, evalKeys (σ := σ) fuel (before ++ e :: after) line =
      evalKeys fuel (before ++ e' :: after) line := by
    induction before with
    | nil =>
      intro fuel
      cases fuel with
      | zero => rw [evalKeys, evalKeys]
      | succ fuel =>
        rw [List.nil_append, List.nil_append, evalKeys, evalKeys]
        exact he.bind (by rw [h]) fuel
    | cons b before ih =>
      intro fuel
      cases fuel with
      | zero => rw [evalKeys, evalKeys]
      | succ fuel => rw [List.cons_append, List.cons_append, evalKeys, evalKeys, ih]
  cases fuel with
  | zero => rw [exec, exec]
  | succ fuel => rw [exec, exec, hkeys]

theorem sameDim_of_one_key : SameDim u w := by
  intro e e' he σ fuel name line
  cases fuel with
  | zero => rw [exec, exec]
  | succ fuel =>
    rw [exec, exec]
    exact he.bind (by rw [h]) fuel

theorem sameHas_of_one_key : SameHas u w := by
  intro σ fuel target line c hsub hnative
  cases fuel with
  | zero => rw [call, call]
  | succ fuel =>
    rw [call_has hsub hnative, call_has hsub hnative]
    cases target <;> simp only [has, h]

end

/-- A state in which the variable `A` holds an array with these entries. -/
def holding (es : Entries) : Context Unit :=
  { (Context.new {} ()).setVariable "A" (.array ⟨0, 0⟩) with arrays := ⟨#[⟨0, some es⟩], []⟩ }

theorem holding_inj {es es' : Entries} (h : holding es = holding es') : es = es' := by
  have harrays := congrArg Context.arrays h
  simpa [holding] using harrays

section
variable {l : Literal} (hl : Key.ofValue l.toValue = .ok k) (es : Entries)
include hl

theorem eval_holding :
    eval 2 (.index (.name "A" 0) (.literal l 0) 0) (holding es) =
      .ok ((es.find? k).getD .empty) (holding es) := by
  rw [eval, eval, eval]
  have hname : readVariable "A" (holding es) = .ok (.array ⟨0, 0⟩) (holding es) := rfl
  rw [bind_of_ok hname, pure_bind]
  simp only [readEntry, hl]
  rfl

theorem exec_assign_holding (v : Bool) :
    exec 3 (.assign "A" ([] ++ .literal l 0 :: []) (.literal (.bool v) 0) 0) (holding es) =
      .ok .next (holding (es.insert k (.bool v))) := by
  rw [exec, List.nil_append, evalKeys, evalKeys, eval, eval]
  simp only [pure_bind, hl, onLine]
  rfl

theorem exec_dim_holding :
    exec 2 (.dim "A" (some (.literal l 0)) 0) (holding es) = .ok .next (holding (es.erase k)) := by
  rw [exec, eval]
  simp only [pure_bind, hl, onLine]
  rfl

theorem call_has_holding :
    call 1 "HAS" [.array ⟨0, 0⟩, l.toValue] 0 (holding es) =
      .ok (.bool (es.find? k).isSome) (holding es) := by
  rw [call_has rfl rfl]
  simp only [has, hl]
  rfl

end

/-- The values that have a key are those of constants. -/
theorem exists_literal (h : Key.ofValue u = .ok k) : ∃ l : Literal, l.toValue = u := by
  cases u with
  | integer n => exact ⟨.integer n, rfl⟩
  | real x => exact ⟨.real x, rfl⟩
  | bool b => exact ⟨.bool b, rfl⟩
  | text s => exact ⟨.text s, rfl⟩
  | _ => cases h

/-- What a key leads to in an array with one entry. -/
theorem find?_singleton (hk : k'.Canonical) (v : Value) :
    Entries.find? [(k, v)] k' = if k' = k then some v else none := by
  rw [Entries.find?_cons, if_congr (Key.compare_eq_iff hk) rfl rfl]
  rfl

section
variable {l l' : Literal} (hu : Key.ofValue l.toValue = .ok k) (hw : Key.ofValue l'.toValue = .ok k')
include hu hw

/-! ### Each way to use a key tells different keys apart -/

theorem eq_of_sameRead (h : SameRead l.toValue l'.toValue) : k = k' := by
  have hread := congrFun (h _ _ (twins_literal l l' 0) Unit 2 (.name "A" 0) 0)
    (holding [(k, .bool true)])
  rw [eval_holding hu, eval_holding hw] at hread
  rw [find?_singleton ⟨_, hu⟩, if_pos rfl, find?_singleton ⟨_, hw⟩] at hread
  split at hread
  · next heq => exact heq.symm
  · cases hread

theorem eq_of_sameAssign (h : SameAssign l.toValue l'.toValue) : k = k' := by
  have hassign := congrFun
    (h _ _ (twins_literal l l' 0) Unit 3 "A" [] [] (.literal (.bool true) 0) 0) (holding [])
  rw [exec_assign_holding hu, exec_assign_holding hw] at hassign
  have hentries := holding_inj (EStateM.Result.ok.inj hassign).2
  exact (Prod.mk.inj (List.cons.inj hentries).1).1

theorem eq_of_sameDim (h : SameDim l.toValue l'.toValue) : k = k' := by
  have hdim := congrFun (h _ _ (twins_literal l l' 0) Unit 2 "A" 0) (holding [(k, .bool true)])
  rw [exec_dim_holding hu, exec_dim_holding hw] at hdim
  have hentries := holding_inj (EStateM.Result.ok.inj hdim).2
  have hfound := congrArg (Entries.find? · k) hentries
  simp only [Entries.find?_erase_self] at hfound
  by_contra hne
  -- the entry of `k` is there after the one of `k'` is gone
  rw [Entries.find?_erase_of_ne ⟨_, hw⟩ ⟨_, hu⟩ hne, find?_singleton ⟨_, hu⟩, if_pos rfl] at hfound
  cases hfound

theorem eq_of_sameHas (h : SameHas l.toValue l'.toValue) : k = k' := by
  have hhas := h Unit 1 (.array ⟨0, 0⟩) 0 (holding [(k, .bool true)]) rfl rfl
  rw [call_has_holding hu, call_has_holding hw] at hhas
  rw [find?_singleton ⟨_, hu⟩, if_pos rfl, find?_singleton ⟨_, hw⟩] at hhas
  split at hhas
  · next heq => exact heq.symm
  · cases hhas

end

/-- **Keys and programs.**  Two values are one key if and only if no program tells them apart as the
key of a read, of an assignment, of a `DIM`, or of a `HAS`. -/
theorem one_key_tfae (hu : Key.ofValue u = .ok k) (hw : Key.ofValue w = .ok k') :
    List.TFAE [Key.ofValue u = Key.ofValue w, SameRead u w, SameAssign u w, SameDim u w,
      SameHas u w] := by
  obtain ⟨l, rfl⟩ := exists_literal hu
  obtain ⟨l', rfl⟩ := exists_literal hw
  have hkeys : k = k' → Key.ofValue l.toValue = Key.ofValue l'.toValue := fun h => by rw [hu, hw, h]
  tfae_have 1 → 2 := sameRead_of_one_key
  tfae_have 1 → 3 := sameAssign_of_one_key
  tfae_have 1 → 4 := sameDim_of_one_key
  tfae_have 1 → 5 := sameHas_of_one_key
  tfae_have 2 → 1 := fun h => hkeys (eq_of_sameRead hu hw h)
  tfae_have 3 → 1 := fun h => hkeys (eq_of_sameAssign hu hw h)
  tfae_have 4 → 1 := fun h => hkeys (eq_of_sameDim hu hw h)
  tfae_have 5 → 1 := fun h => hkeys (eq_of_sameHas hu hw h)
  tfae_finish

end Machine

/-! ## Entries that have nothing to do with each other -/

/-- Whatever is done to the entry of `k`, in whatever array, does not show in the entry of `k'`. -/
def Key.Apart (k k' : Key) : Prop :=
  ∀ (a : Arena) (h g : Handle) (f : Entries → Entries),
    f = Entries.erase k ∨ (∃ v, f = Entries.insert k v) →
      (a.modify h f).lookup g k' = a.lookup g k' ∧
        (a.modify h f).containsKey g k' = a.containsKey g k'

theorem Key.apart_of_ne {k k' : Key} (hk : k.Canonical) (hk' : k'.Canonical) (hne : k' ≠ k) :
    k.Apart k' := by
  intro a h g f hf
  have hfind : ∀ es, Entries.find? (f es) k' = Entries.find? es k' := by
    intro es
    rcases hf with rfl | ⟨v, rfl⟩
    · exact Entries.find?_erase_of_ne hk hk' hne es
    · exact Entries.find?_insert_of_ne hk hk' hne es v
  have hentry : ((a.modify h f).entries? g).bind (·.find? k') = (a.entries? g).bind (·.find? k') := by
    rw [Arena.entries?_modify]
    split
    · next hg =>
      rw [hg]
      cases a.entries? h with
      | none => rfl
      | some es => exact hfind es
    · rfl
  exact ⟨congrArg (·.getD .empty) hentry, congrArg Option.isSome hentry⟩

/-- Two values name an entry in every array, and it is one entry exactly if `same` holds: then no
program tells them apart, and otherwise the two entries have nothing to do with each other. -/
structure OneEntryIff (same : Prop) (u w : Value) : Prop where
  tfae : List.TFAE [same, Machine.SameRead u w, Machine.SameAssign u w, Machine.SameDim u w,
    Machine.SameHas u w]
  apart : ∃ k k', Key.ofValue u = .ok k ∧ Key.ofValue w = .ok k' ∧
    (¬ same → k.Apart k' ∧ k'.Apart k)

theorem oneEntryIff {same : Prop} {u w : Value} {k k' : Key} (hu : Key.ofValue u = .ok k)
    (hw : Key.ofValue w = .ok k') (hsame : Key.ofValue u = Key.ofValue w ↔ same) :
    OneEntryIff same u w where
  tfae := by
    have htfae := Machine.one_key_tfae hu hw
    rwa [hsame] at htfae
  apart := by
    refine ⟨k, k', hu, hw, fun hne => ?_⟩
    have hkeys : k ≠ k' := by
      rintro rfl
      exact hne (hsame.1 (hu.trans hw.symm))
    exact ⟨Key.apart_of_ne ⟨u, hu⟩ ⟨w, hw⟩ hkeys.symm, Key.apart_of_ne ⟨w, hw⟩ ⟨u, hu⟩ hkeys⟩

/-- **Numbers as keys.**  An integer and a real name one entry, for reading, assigning, `DIM` and
`HAS` alike, exactly if they are the same number and at most `2^53 - 1` in size; two reals do exactly
if they are equal as numbers.  A real that holds a whole number of that size is the integer key; so a
real that is a key itself holds no whole number, or a larger one. -/
theorem numbers_name_one_entry :
    (∀ (n : Int64) (x : Binary64), x.isNaN = false →
      OneEntryIff
        (x.units? = some (n.toInt * Binary64.one) ∧ n.toInt.natAbs ≤ Binary64.maxSafeInt)
        (.integer n) (.real x)) ∧
    (∀ x y : Binary64, x.isNaN = false → y.isNaN = false →
      OneEntryIff (x.compare? y = some .eq) (.real x) (.real y)) ∧
    (∀ (x : Binary64) (n : Int), x.units? = some (n * Binary64.one) →
      n.natAbs ≤ Binary64.maxSafeInt → Key.ofValue (.real x) = .ok (.integer (.ofInt n))) ∧
    ∀ v x, Key.ofValue v = .ok (.real x) →
      x.isNaN = false ∧ ∀ n : Int, x.units? = some (n * Binary64.one) →
        Binary64.maxSafeInt < n.natAbs := by
  refine ⟨fun n x hx => ?_, fun x y hx hy => ?_, fun x n hn hsafe => ?_, fun v x hv => ?_⟩
  · obtain ⟨k, hk⟩ := Key.exists_key_of_real hx
    exact oneEntryIff rfl hk (eq_comm.trans (Key.ofValue_real_eq_integer_iff n hx))
  · obtain ⟨k, hk⟩ := Key.exists_key_of_real hx
    obtain ⟨k', hk'⟩ := Key.exists_key_of_real hy
    exact oneEntryIff hk hk' (Key.ofValue_real_eq_real_iff hx hy)
  · have hint := Key.toInt_ofInt_of_safe hsafe
    rw [Key.ofValue_real_eq_integer_iff _ (Binary64.isNaN_of_units? hn), hint]
    exact ⟨hn, hsafe⟩
  · obtain ⟨hnan, hnone⟩ := Key.Canonical.real ⟨v, hv⟩
    refine ⟨hnan, fun n hn => Nat.lt_of_not_le fun hsafe => ?_⟩
    rw [Binary64.toSafeInt?_eq_some_iff.2 ⟨hn, hsafe⟩] at hnone
    cases hnone

/-- From `2^53` on an integer and the same number as a real name two entries, and the real is a key
itself. -/
theorem beyond_safe_integers_apart :
    (Binary64.ofInt 9007199254740992).units? =
        some ((9007199254740992 : Int64).toInt * Binary64.one) ∧
      Key.ofValue (.real (.ofInt 9007199254740992)) = .ok (.real (.ofInt 9007199254740992)) ∧
      ¬ Machine.SameRead (.integer 9007199254740992) (.real (.ofInt 9007199254740992)) ∧
      ¬ Machine.SameAssign (.integer 9007199254740992) (.real (.ofInt 9007199254740992)) ∧
      ¬ Machine.SameDim (.integer 9007199254740992) (.real (.ofInt 9007199254740992)) ∧
      ¬ Machine.SameHas (.integer 9007199254740992) (.real (.ofInt 9007199254740992)) := by
  have hkey : Key.ofValue (.real (.ofInt 9007199254740992)) =
      .ok (.real (.ofInt 9007199254740992)) := by decide +kernel
  have htfae := Machine.one_key_tfae (u := .integer 9007199254740992) rfl hkey
  have hne : Key.ofValue (.integer 9007199254740992) ≠
      Key.ofValue (.real (.ofInt 9007199254740992)) := by
    rw [hkey]
    exact nofun
  refine ⟨by decide +kernel, hkey, ?_, ?_, ?_, ?_⟩
  · exact fun h => hne ((htfae.out 0 1).2 h)
  · exact fun h => hne ((htfae.out 0 2).2 h)
  · exact fun h => hne ((htfae.out 0 3).2 h)
  · exact fun h => hne ((htfae.out 0 4).2 h)

end BasicScript
