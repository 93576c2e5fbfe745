/-
  Values that are the same but for their references.

  * `Value.Related R v v'`: the values are the same, or arrays whose references `R` relates.
  * `TableRelated R t t'`: the tables have the same keys in the same order, with related values;
    frames and the entries of arrays are such tables.
  * `Arena.Alike R a b h k`: the references lead to related entries, or they are one and the same and
    lead nowhere.
  * The operators give the same result on related values (`Value.Related.unary_eq`, `binary_eq`,
    ...), except `+` on an array and a text; no result of an operator is an array.
-/
import BasicScript.Proofs.Machine.Joins
import Mathlib.Data.List.Forall2

namespace BasicScript

variable {R R' : Handle → Handle → Prop}

/-! ## Values -/

/-- The same value, or arrays whose references are related. -/
inductive Value.Related (R : Handle → Handle → Prop) : Value → Value → Prop
  | same {v : Value} : v.handle? = none → Related R v v
  | array {h k : Handle} : R h k → Related R (.array h) (.array k)

namespace Value

variable {a a' b b' v v' : Value}

theorem handle?_eq_some_iff {h : Handle} : v.handle? = some h ↔ v = .array h := by
  cases v <;> simp [handle?]

theorem Related.mono (hR : ∀ h k, R h k → R' h k) (h : v.Related R v') : v.Related R' v' := by
  cases h with
  | same hv => exact .same hv
  | array hk => exact .array (hR _ _ hk)

theorem Related.flip (h : v.Related R v') : v'.Related (flip R) v := by
  cases h with
  | same hv => exact .same hv
  | array hk => exact .array hk

theorem Related.exists_handle (hv : v.Related R v') {h : Handle} (hh : v.handle? = some h) :
    ∃ k, v'.handle? = some k ∧ R h k := by
  cases hv with
  | same hv => cases hv.symm.trans hh
  | array hk =>
    cases hh
    exact ⟨_, rfl, hk⟩

/-- Values are the same if references are related to themselves only. -/
theorem Related.eq (hR : ∀ h k, R h k → h = k) (h : v.Related R v') : v = v' := by
  cases h with
  | same => rfl
  | array hk => rw [hR _ _ hk]

theorem Related.truthy_eq (h : v.Related R v') : v.truthy = v'.truthy := by
  cases h <;> rfl

theorem Related.isText_eq (h : v.Related R v') : v.isText = v'.isText := by
  cases h <;> rfl

theorem Related.toNumber_eq (h : v.Related R v') : v.toNumber = v'.toNumber := by
  cases h <;> rfl

theorem Related.key_eq (h : v.Related R v') : Key.ofValue v = Key.ofValue v' := by
  cases h <;> rfl

theorem Related.unary_eq (h : v.Related R v') (op : UnaryOp) : unary op v = unary op v' := by
  cases op <;> simp only [unary, h.truthy_eq, h.toNumber_eq]

theorem Related.toNumbers_eq (ha : a.Related R a') (hb : b.Related R b') :
    toNumbers a b = toNumbers a' b' := by
  simp only [toNumbers, ha.toNumber_eq, hb.toNumber_eq]

/-- Only joining can tell references apart by their text. -/
theorem Related.arithmetic_eq (ha : a.Related R a') (hb : b.Related R b') {op : BinaryOp}
    (h : ¬ (op = .add ∧ a.joins b = true)) : arithmetic op a b = arithmetic op a' b' := by
  rw [arithmetic, arithmetic, ← ha.isText_eq, ← hb.isText_eq, ← ha.toNumbers_eq hb]
  by_cases hjoin : op = .add ∧ (a.isText ∨ b.isText)
  · rw [if_pos hjoin, if_pos hjoin]
    cases ha with
    | same =>
      cases hb with
      | same => rfl
      | array =>
        obtain ⟨hop, ha | hb⟩ := hjoin
        · exact absurd ⟨hop, by simp [joins, ha, handle?]⟩ h
        · cases hb
    | array =>
      obtain ⟨hop, ha | hb⟩ := hjoin
      · cases ha
      · exact absurd ⟨hop, by simp [joins, hb, handle?]⟩ h
  · rw [if_neg hjoin, if_neg hjoin]

/-- Relations that pair each reference with one other. -/
def OneToOne (R : Handle → Handle → Prop) : Prop :=
  ∀ h k h' k', R h k → R h' k' → (h = h' ↔ k = k')

theorem Related.looseEq_eq (hR : OneToOne R) (ha : a.Related R a') (hb : b.Related R b') :
    looseEq a b = looseEq a' b' := by
  cases ha with
  | same hv =>
    cases hb with
    | same => rfl
    | array => cases a <;> first | rfl | cases hv
  | array hk =>
    cases hb with
    | same hv => cases b <;> first | rfl | cases hv
    | array hk' => simp only [looseEq, hR _ _ _ _ hk hk']

theorem Related.order_eq (ha : a.Related R a') (hb : b.Related R b') : order a b = order a' b' := by
  cases ha with
  | same =>
    cases hb with
    | same => rfl
    | array => cases a <;> rfl
  | array => cases hb <;> rfl

theorem Related.comparison_eq (hR : OneToOne R) (ha : a.Related R a') (hb : b.Related R b')
    (op : BinaryOp) : comparison op a b = comparison op a' b' := by
  cases op <;> simp only [comparison, ha.looseEq_eq hR hb, ha.order_eq hb]

theorem Related.binary_eq (hR : OneToOne R) (ha : a.Related R a') (hb : b.Related R b')
    {op : BinaryOp} (h : ¬ (op = .add ∧ a.joins b = true)) : binary op a b = binary op a' b' := by
  cases op <;>
    simp only [binary, ha.arithmetic_eq hb h, ha.comparison_eq hR hb, logic, ha.truthy_eq,
      hb.truthy_eq]

/-! ### Results of operators -/

/-- The result, if there is one, is not an array. -/
def Plain (r : Except Fault Value) : Prop := ∀ v, r = .ok v → v.handle? = none

theorem plain_ok (hv : v.handle? = none) : Plain (.ok v) := by
  rintro _ ⟨⟩
  exact hv

theorem plain_error (fault : Fault) : Plain (.error fault) := nofun

theorem Plain.ite {p : Prop} [Decidable p] {r r' : Except Fault Value} (h : Plain r)
    (h' : Plain r') : Plain (if p then r else r') := by
  split
  · exact h
  · exact h'

theorem plain_bind {α : Type} {r : Except Fault α} {f : α → Except Fault Value}
    (hf : ∀ a, Plain (f a)) : Plain (r >>= f) := by
  cases r with
  | error fault => exact plain_error fault
  | ok a => exact hf a

theorem plain_map {α : Type} (r : Except Fault α) {f : α → Value} (hf : ∀ a, (f a).handle? = none) :
    Plain (r.map f) := by
  cases r with
  | error fault => exact plain_error fault
  | ok a => exact plain_ok (hf a)

theorem plain_inRange (n : Int) : Plain (inRange n) := by
  unfold inRange
  split
  · exact plain_ok rfl
  · exact plain_error _

theorem plain_integerArithmetic (op : BinaryOp) (m n : Int64) :
    Plain (integerArithmetic op m n) := by
  cases op with
  | add | sub | mul => exact plain_inRange _
  | div => exact (plain_error _).ite (plain_inRange _)
  | mod => exact (plain_error _).ite (plain_bind fun _ => plain_inRange _)
  | _ => exact plain_error _

theorem plain_realArithmetic (op : BinaryOp) (x y : Binary64) : Plain (realArithmetic op x y) := by
  cases op with
  | add | sub | mul => exact plain_ok rfl
  | div | mod => exact (plain_error _).ite (plain_ok rfl)
  | _ => exact plain_error _

theorem plain_arithmetic (op : BinaryOp) (a b : Value) : Plain (arithmetic op a b) := by
  refine (plain_ok rfl).ite (plain_bind fun numbers => ?_)
  split
  · exact plain_integerArithmetic op _ _
  · exact plain_realArithmetic op _ _

theorem plain_comparison (op : BinaryOp) (a b : Value) : Plain (comparison op a b) := by
  cases op with
  | equal | notEqual => exact plain_ok rfl
  | less | greater | lessEqual | greaterEqual => exact plain_map _ fun _ => rfl
  | _ => exact plain_error _

theorem plain_binary (op : BinaryOp) (a b : Value) : Plain (binary op a b) := by
  cases op with simp only [binary]
  | add | sub | mul | div | mod => exact plain_arithmetic _ a b
  | and_ | or_ | xor => exact plain_ok rfl
  | _ => exact plain_comparison _ a b

theorem plain_unary (op : UnaryOp) (v : Value) : Plain (unary op v) := by
  cases op with
  | not_ => exact plain_ok rfl
  | negate =>
    refine plain_bind fun n => ?_
    split
    · exact plain_inRange _
    · exact plain_ok rfl

end Value

/-! ## Tables -/

/-- The same keys in the same order, with related values. -/
def TableRelated {κ : Type} (R : Handle → Handle → Prop) : List (κ × Value) → List (κ × Value) → Prop :=
  List.Forall₂ fun e e' => e.1 = e'.1 ∧ e.2.Related R e'.2

section
variable {κ : Type} {t t' : List (κ × Value)} {k : κ} {v v' : Value}

theorem tableRelated_cons (hv : v.Related R v') (ht : TableRelated R t t') :
    TableRelated R ((k, v) :: t) ((k, v') :: t') :=
  List.Forall₂.cons ⟨rfl, hv⟩ ht

theorem TableRelated.flip (ht : TableRelated R t t') : TableRelated (flip R) t' t :=
  List.Forall₂.flip (ht.imp fun _ _ h => ⟨h.1.symm, h.2.flip⟩)

theorem TableRelated.mono (hR : ∀ h k, R h k → R' h k) (ht : TableRelated R t t') :
    TableRelated R' t t' :=
  ht.imp fun _ _ h => ⟨h.1, h.2.mono hR⟩

theorem TableRelated.length_eq (ht : TableRelated R t t') : t.length = t'.length :=
  List.Forall₂.length_eq ht

theorem TableRelated.find? (ht : TableRelated R t t') (p : κ → Bool) :
    Option.Rel (Value.Related R) ((t.find? fun e => p e.1).map (·.2))
      ((t'.find? fun e => p e.1).map (·.2)) := by
  induction ht with
  | nil => exact .none
  | @cons e e' t t' he ht ih =>
    obtain ⟨k, v⟩ := e
    obtain ⟨k', v'⟩ := e'
    obtain ⟨rfl, hv⟩ := he
    cases hp : p k with
    | true => simpa [List.find?_cons, hp] using Option.Rel.some hv
    | false => simpa [List.find?_cons, hp] using ih

/-- Each reference in a table has one that it is related to in the other table. -/
theorem TableRelated.exists_handle (ht : TableRelated R t t') {e : κ × Value} (he : e ∈ t)
    {h : Handle} (hh : e.2.handle? = some h) :
    ∃ e' ∈ t', ∃ k, e'.2.handle? = some k ∧ R h k := by
  induction ht with
  | nil => cases he
  | @cons e₁ e₁' t t' he₁ ht ih =>
    rcases List.mem_cons.1 he with rfl | he
    · exact ⟨e₁', List.mem_cons_self, he₁.2.exists_handle hh⟩
    · obtain ⟨e', he', hk⟩ := ih he
      exact ⟨e', List.mem_cons_of_mem _ he', hk⟩

theorem TableRelated.filter (ht : TableRelated R t t') (p : κ → Bool) :
    TableRelated R (t.filter fun e => p e.1) (t'.filter fun e => p e.1) := by
  induction ht with
  | nil => exact List.Forall₂.nil
  | @cons e e' t t' he ht ih =>
    obtain ⟨k, v⟩ := e
    obtain ⟨k', v'⟩ := e'
    obtain ⟨rfl, hv⟩ := he
    cases hp : p k with
    | true => simpa [List.filter_cons, hp] using tableRelated_cons hv ih
    | false => simpa [List.filter_cons, hp] using ih

end

theorem value_related_getD {o o' : Option Value} (h : Option.Rel (Value.Related R) o o') :
    (o.getD .empty).Related R (o'.getD .empty) := by
  cases h with
  | some hv => exact hv
  | none => exact .same rfl

theorem isSome_eq_of_rel {α β : Type} {r : α → β → Prop} {o : Option α} {o' : Option β}
    (h : Option.Rel r o o') : o.isSome = o'.isSome := by
  cases h <;> rfl

theorem option_rel_mono {α β : Type} {r s : α → β → Prop} {o : Option α} {o' : Option β}
    (h : Option.Rel r o o') (hrs : ∀ a b, r a b → s a b) : Option.Rel s o o' := by
  cases h with
  | some hr => exact .some (hrs _ _ hr)
  | none => exact .none

theorem Entries.mem_handles {es : Entries} {k : Handle} :
    k ∈ es.handles ↔ ∃ e ∈ es, e.2.handle? = some k := by
  simp [handles]

theorem Entries.related_insert {es es' : Entries} {v v' : Value} (k : Key) (hv : v.Related R v')
    (h : TableRelated R es es') : TableRelated R (es.insert k v) (es'.insert k v') := by
  induction h with
  | nil => exact tableRelated_cons hv .nil
  | @cons e e' es es' he hes ih =>
    obtain ⟨key, w⟩ := e
    obtain ⟨key', w'⟩ := e'
    obtain ⟨rfl, hw⟩ := he
    simp only [Entries.insert]
    split
    · exact tableRelated_cons hv (tableRelated_cons hw hes)
    · exact tableRelated_cons hv hes
    · exact tableRelated_cons hw ih

theorem Entries.related_erase {es es' : Entries} (k : Key) (h : TableRelated R es es') :
    TableRelated R (es.erase k) (es'.erase k) :=
  h.filter fun key => k.compare key != .eq

/-- Frames with the same variables, in the same order, and related values. -/
def Frame.Related (R : Handle → Handle → Prop) (f f' : Frame) : Prop :=
  TableRelated R f.bindings f'.bindings

theorem Frame.Related.mono {f f' : Frame} (hR : ∀ h k, R h k → R' h k) (h : f.Related R f') :
    f.Related R' f' :=
  TableRelated.mono hR h

theorem Frame.Related.find? {f f' : Frame} (h : f.Related R f') (name : String) :
    Option.Rel (Value.Related R) (f.find? name) (f'.find? name) :=
  TableRelated.find? h fun key => key = name

theorem Frame.Related.set {f f' : Frame} {v v' : Value} (h : f.Related R f') (name : String)
    (hv : v.Related R v') : (f.set name v).Related R (f'.set name v') :=
  tableRelated_cons hv (TableRelated.filter h fun key => key ≠ name)

theorem Frame.related_ofArguments {vs vs' : List Value} (params : List String)
    (h : List.Forall₂ (Value.Related R) vs vs') :
    (Frame.ofArguments params vs).Related R (.ofArguments params vs') := by
  have hfold : ∀ {vs vs' : List Value} (params : List String) {f f' : Frame},
      List.Forall₂ (Value.Related R) vs vs' → f.Related R f' →
      ((params.zip vs).foldl (fun f p => f.set p.1 p.2) f).Related R
        ((params.zip vs').foldl (fun f p => f.set p.1 p.2) f') := by
    intro vs vs' params f f' h
    induction h generalizing params f f' with
    | nil => simp
    | cons hv _ ih =>
      intro hf
      cases params with
      | nil => exact hf
      | cons name params => exact ih params (hf.set name hv)
  exact hfold params h List.Forall₂.nil

/-! ## Arrays -/

/-- The references lead to related entries, or they are one and the same and lead nowhere. -/
inductive Arena.Alike (R : Handle → Handle → Prop) (a b : Arena) : Handle → Handle → Prop
  | entries {h k : Handle} {es es' : Entries} : a.entries? h = some es → b.entries? k = some es' →
      TableRelated R es es' → Alike R a b h k
  | none {h : Handle} : a.entries? h = none → b.entries? h = none → Alike R a b h h

namespace Arena

variable {a b : Arena} {h k : Handle}

theorem Alike.isLive_eq (hk : a.Alike R b h k) : a.isLive h = b.isLive k := by
  cases hk with
  | entries hes hes' => simp [isLive, hes, hes']
  | none hes hes' => simp [isLive, hes, hes']

theorem Alike.length_eq (hk : a.Alike R b h k) : a.length h = b.length k := by
  cases hk with
  | entries hes hes' hr => simp [length, hes, hes', hr.length_eq]
  | none hes hes' => simp [length, hes, hes']

theorem Alike.find? (hk : a.Alike R b h k) (key : Key) :
    Option.Rel (Value.Related R) ((a.entries? h).bind (·.find? key))
      ((b.entries? k).bind (·.find? key)) := by
  cases hk with
  | entries hes hes' hr =>
    rw [hes, hes']
    exact hr.find? fun key' => key.compare key' == .eq
  | none hes hes' =>
    rw [hes, hes']
    exact .none

theorem Alike.lookup (hk : a.Alike R b h k) (key : Key) :
    (a.lookup h key).Related R (b.lookup k key) :=
  value_related_getD (hk.find? key)

theorem Alike.containsKey_eq (hk : a.Alike R b h k) (key : Key) :
    a.containsKey h key = b.containsKey k key :=
  isSome_eq_of_rel (hk.find? key)

end Arena

/-! ## Numbers -/

theorem Number.handle?_toValue (n : Number) : n.toValue.handle? = none := by
  cases n <;> rfl

/-- Adding a number joins nothing. -/
theorem Number.joins_toValue (n : Number) (v : Value) : v.joins n.toValue = false := by
  cases n <;> simp [Value.joins, toValue, Value.isText, Value.handle?]

namespace Machine

theorem counts_eq {v v' w w' : Value} (hR : Value.OneToOne R) (hv : v.Related R v')
    (hw : w.Related R w') (up : Bool) : counts up v w = counts up v' w' := by
  simp only [counts, hv.comparison_eq hR hw]

/-! ## Built-in functions -/

section
variable {a b : Arena} {v v' w w' : Value}

theorem lengthOf_eq (hR : ∀ h k, R h k → a.Alike R b h k) (hv : v.Related R v') :
    lengthOf a v = lengthOf b v' := by
  cases hv with
  | same hv => cases v <;> first | rfl | cases hv
  | array hk => exact (hR _ _ hk).length_eq

theorem has_eq (hR : ∀ h k, R h k → a.Alike R b h k) (hv : v.Related R v') (hw : w.Related R w') :
    has a v w = has b v' w' := by
  cases hv with
  | same hv => cases v <;> first | rfl | cases hv
  | array hk =>
    have hcontains : a.containsKey _ = b.containsKey _ :=
      funext fun key => (hR _ _ hk).containsKey_eq key
    simp only [has, hw.key_eq, hcontains]

theorem builtin?_eq (hR : ∀ h k, R h k → a.Alike R b h k) {vs vs' : List Value}
    (h : List.Forall₂ (Value.Related R) vs vs') (name : String) :
    builtin? a name vs = builtin? b name vs' := by
  cases h with
  | nil => rfl
  | cons hv h =>
    cases h with
    | nil => simp only [builtin?, lengthOf_eq hR hv]
    | cons hw h =>
      cases h with
      | nil => simp only [builtin?, has_eq hR hv hw]
      | cons => rfl

theorem plain_builtin? {name : String} {vs : List Value} {r : Except Fault Value}
    (h : builtin? a name vs = some r) : Value.Plain r := by
  unfold builtin? at h
  split at h
  · split at h <;> cases h
    exact Value.plain_map _ fun _ => rfl
  · split at h <;> cases h
    exact Value.plain_map _ fun _ => rfl
  · cases h

end

end Machine

end BasicScript
