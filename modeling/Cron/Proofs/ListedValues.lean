import Cron.Proofs.Acceptance
import Cron.Proofs.LastWrite
import Cron.Proofs.Meaning
import Cron.Proofs.PatternOrder
import Mathlib.Order.Bounds.Basic

/-!
# Fields set to listed values

An edit that lists values puts them in ascending order, writes them with commas
between them and reads this text like any other.  Reading checks each number
against the field, narrows it to a byte and arranges the items again, by a
comparison of patterns instead of numbers.  None of this can be seen from
outside: the field holds the distinct values in ascending order, and it matches
these values and no others.

Since the values are written in ascending order, the first that the field does
not cover is the least of them.  So the error does not depend on the order in
which the values were listed.

## Main results

* `Pattern.ofItems_map_value` — values that ascend as numbers ascend as items.
* `Edit.mapM_narrow_eq_ok`, `Edit.mapM_narrow_eq_error_iff` — ascending values are
  read one by one, up to the least that is out of bounds.
* `Schedule.on_keeps_distinct_values` — what an edit that lists values stores, and
  how it fails.
-/

namespace Cron

open Text

namespace Pattern

/-! ## Patterns of values -/

/-- The pattern of ascending values: a single one stands for itself. -/
def ofValues : List UInt8 → Pattern
  | [v] => value v
  | vs => list (vs.map value)

/-- The bytes are the distinct values of a list, in ascending order. -/
def AreDistinct (vs : List UInt8) (values : List UInt32) : Prop :=
  vs.Pairwise (· < ·) ∧ ∀ n, (∃ v ∈ vs, v.toNat = n) ↔ ∃ v ∈ values, v.toNat = n

/-- The leading value of a value is the value, and behind it nothing differs. -/
theorem listOrder_value_of_lt {v w : UInt8} (h : v < w) :
    listOrder (value v) (value w) = .lt :=
  (listOrder_eq_lt_iff _ _).2 (.inl h)

theorem ofItems_map_value {vs : List UInt8} (h : vs.Pairwise (· < ·)) :
    ofItems (vs.map value) = ofValues vs := by
  have hAscending : Ascending.IsAscending listOrder (vs.map value) := by
    rw [Ascending.IsAscending, List.isChain_map]
    exact (h.imp listOrder_value_of_lt).isChain
  rw [ofItems, Ascending.ofList_of_isAscending hAscending]
  cases vs with
  | nil => rfl
  | cons v rest => cases rest <;> rfl

theorem decides_ofValues {vs : List UInt8} (h : vs.Pairwise (· < ·)) (n : Nat) :
    (ofValues vs).Decides n (∃ v ∈ vs, v.toNat = n) := by
  have hEach : ∀ p ∈ vs.map value, p.Decides n (∃ v, p = value v ∧ v.toNat = n) := by
    intro p hMem
    obtain ⟨v, -, rfl⟩ := List.mem_map.1 hMem
    refine ⟨n == v.toNat, rfl, ?_⟩
    rw [beq_iff_eq]
    constructor
    · intro hEq
      exact ⟨v, rfl, hEq.symm⟩
    · intro ⟨w, hSame, hEq⟩
      rw [value.inj hSame, hEq]
  rw [← ofItems_map_value h]
  refine (decides_ofItems hEach).congr ?_
  simp

/-! ## Numbers that are written and read -/

/-- The digits of a number are read as this number, and no form is in the way. -/
theorem parseItem_write (f : Field) {n : Nat} (h : n ≤ Decimal.ceiling) :
    parseItem f (Decimal.write n) = (narrow f n).map value := by
  have hSpells : Item.Spells (Decimal.write n) (.value n) := .value (Decimal.isNumeral_write n)
  have hRead : Item.read? (Decimal.write n) = some (.value n) := by
    rw [Item.read?_of_spells hSpells, Item.capped, Nat.min_eq_left h]
  have hNoStep : Item.isStepLike (Decimal.write n) = false :=
    isStepLike_of_spells hSpells fun _ _ => Item.noConfusion
  rw [parseItem_of_read? (fun _ => hNoStep) hRead, ofItem]
  cases narrow f n <;> rfl

end Pattern

namespace Edit

open Pattern

/-! ## Values one by one -/

/-- The bytes of values that the field covers. -/
theorem mapM_narrow_eq_ok {f : Field} {us : List UInt32} (h : ∀ u ∈ us, f.Covers u.toNat) :
    us.mapM (fun u => (narrow f u.toNat).map value) =
      .ok ((us.map fun u => UInt8.ofNat u.toNat).map value) := by
  rw [mapM_eq_ok_iff, List.map_map, List.forall₂_map_right_iff, List.forall₂_same]
  intro u hMem
  have hCovers : f.min ≤ u.toNat ∧ u.toNat ≤ f.max := h u hMem
  rw [narrow, if_pos hCovers]
  rfl

/-- A single value is refused exactly if it is out of bounds. -/
theorem narrow_map_eq_error_iff {f : Field} {n : Nat} {e : Error} :
    (narrow f n).map value = .error e ↔ ¬ f.Covers n ∧ e = .outOfRange f n f.min f.max := by
  by_cases hCovers : f.min ≤ n ∧ n ≤ f.max
  · rw [narrow, if_pos hCovers]
    refine iff_of_false ?_ fun h => h.1 hCovers
    intro h
    cases h
  · rw [narrow, if_neg hCovers]
    show Except.error _ = Except.error e ↔ _
    rw [Except.error.injEq, eq_comm]
    exact (and_iff_right hCovers).symm

theorem isLeast_of_mapM_narrow_eq_error {f : Field} {us : List UInt32}
    (hAscending : us.Pairwise (· < ·)) {e : Error}
    (h : us.mapM (fun u => (narrow f u.toNat).map value) = .error e) :
    ∃ n, IsLeast {k | (∃ u ∈ us, u.toNat = k) ∧ ¬ f.Covers k} n ∧
      e = .outOfRange f n f.min f.max := by
  obtain ⟨before, u, after, rfl, hBefore, hError⟩ := mapM_eq_error_iff.1 h
  obtain ⟨hOut, rfl⟩ := narrow_map_eq_error_iff.1 hError
  refine ⟨u.toNat, ⟨⟨⟨u, by simp, rfl⟩, hOut⟩, ?_⟩, rfl⟩
  rintro _ ⟨⟨w, hMem, rfl⟩, hOther⟩
  -- what comes before is covered, and what comes behind is larger
  rcases List.mem_append.1 hMem with hFirst | hRest
  · obtain ⟨p, hRead⟩ := hBefore w hFirst
    have hFails := narrow_map_eq_error_iff.2 ⟨hOther, rfl⟩
    rw [hRead] at hFails
    cases hFails
  · rcases List.mem_cons.1 hRest with rfl | hAfter
    · exact Nat.le_refl _
    · have hTail := (List.pairwise_append.1 hAscending).2.1
      have hLess := (List.pairwise_cons.1 hTail).1 w hAfter
      exact Nat.le_of_lt (UInt32.lt_iff_toNat_lt.1 hLess)

/-- Of ascending values the first that is refused is the least. -/
theorem mapM_narrow_eq_error_iff {f : Field} {us : List UInt32}
    (hAscending : us.Pairwise (· < ·)) (e : Error) :
    us.mapM (fun u => (narrow f u.toNat).map value) = .error e ↔
      ∃ n, IsLeast {k | (∃ u ∈ us, u.toNat = k) ∧ ¬ f.Covers k} n ∧
        e = .outOfRange f n f.min f.max := by
  constructor
  · exact isLeast_of_mapM_narrow_eq_error hAscending
  · intro ⟨n, hLeast, hError⟩
    cases hRead : us.mapM fun u => (narrow f u.toNat).map value with
    | ok ps =>
        -- a value out of bounds is among them, so not all can be read
        obtain ⟨⟨u, hMem, hValue⟩, hOut⟩ := hLeast.1
        obtain ⟨p, hPattern⟩ := exists_mapM_iff.1 ⟨ps, hRead⟩ u hMem
        rw [hValue, narrow_map_eq_error_iff.2 ⟨hOut, rfl⟩] at hPattern
        cases hPattern
    | error e' =>
        obtain ⟨m, hFirst, hEq⟩ := isLeast_of_mapM_narrow_eq_error hAscending hRead
        rw [hError, hEq, hLeast.unique hFirst]

/-! ## The edit -/

/-- The values of a list in ascending order, each once. -/
def ascending (values : List UInt32) : List UInt32 := Ascending.ofList compare values

theorem mem_ascending {values : List UInt32} {v : UInt32} : v ∈ ascending values ↔ v ∈ values :=
  Ascending.mem_ofList (fun _ _ => Std.LawfulEqOrd.eq_of_compare) v values

theorem pairwise_ascending (values : List UInt32) : (ascending values).Pairwise (· < ·) :=
  (Ascending.isAscending_ofList values).pairwise.imp Std.compare_eq_lt.1

theorem ascending_ne_nil {values : List UInt32} (h : values ≠ []) : ascending values ≠ [] := by
  obtain ⟨v, hMem⟩ := List.exists_mem_of_ne_nil values h
  exact List.ne_nil_of_mem (mem_ascending.2 hMem)

theorem pattern_on_nil (f : Field) : (on f []).pattern = .error (.malformed f "") := by
  cases f <;> rfl

/-- The text that is written is cut at the commas that were put in. -/
theorem pattern_on {f : Field} {values : List UInt32} (h : values ≠ []) :
    (on f values).pattern =
      ((ascending values).mapM fun v => (narrow f v.toNat).map value).map ofItems := by
  have hNe : (ascending values).map (fun v => Decimal.write v.toNat) ≠ [] := by
    rw [ne_eq, List.map_eq_nil_iff]
    exact ascending_ne_nil h
  have hPieces : pieces (· == ',')
      ([','].intercalate ((ascending values).map fun v => Decimal.write v.toNat)) =
        (ascending values).map fun v => Decimal.write v.toNat := by
    apply pieces_intercalate rfl hNe
    intro part hPart
    obtain ⟨v, -, rfl⟩ := List.mem_map.1 hPart
    have hSpells : Item.Spells (Decimal.write v.toNat) (.value v.toNat) :=
      .value (Decimal.isNumeral_write v.toNat)
    exact fun c hc => (not_sep_of_spells hSpells c hc).1
  have hItem (v : UInt32) :
      parseItem f (Decimal.write v.toNat) = (narrow f v.toNat).map value :=
    parseItem_write f (Nat.le_of_lt_succ v.toNat_lt)
  show parseChars f
    ([','].intercalate ((ascending values).map fun v => Decimal.write v.toNat)) = _
  rw [parseChars, hPieces, List.mapM_map]
  simp only [Function.comp_def, hItem]
  cases (ascending values).mapM fun v => (narrow f v.toNat).map value <;> rfl

/-- The bytes of values that the field covers are these values. -/
theorem areDistinct_ascending {f : Field} {values : List UInt32}
    (h : ∀ v ∈ values, f.Covers v.toNat) :
    AreDistinct ((ascending values).map fun v => UInt8.ofNat v.toNat) values := by
  have hByte : ∀ v ∈ ascending values, (UInt8.ofNat v.toNat).toNat = v.toNat := by
    intro v hMem
    have hMax := f.max_lt
    have hUpTo := (h v (mem_ascending.1 hMem)).2
    rw [UInt8.toNat_ofNat']
    exact Nat.mod_eq_of_lt (by omega)
  constructor
  · rw [List.pairwise_map]
    refine (pairwise_ascending values).imp_of_mem ?_
    intro v w hv hw hLess
    rw [UInt8.lt_iff_toNat_lt, hByte v hv, hByte w hw]
    exact UInt32.lt_iff_toNat_lt.1 hLess
  · intro n
    constructor
    · intro ⟨b, hMem, hEq⟩
      obtain ⟨v, hv, rfl⟩ := List.mem_map.1 hMem
      exact ⟨v, mem_ascending.1 hv, (hByte v hv).symm.trans hEq⟩
    · intro ⟨v, hMem, hEq⟩
      have hv := mem_ascending.2 hMem
      exact ⟨_, List.mem_map_of_mem hv, (hByte v hv).trans hEq⟩

/-- Values that the field covers are stored, each once and in ascending order. -/
theorem exists_pattern_on {f : Field} {values : List UInt32} (hNe : values ≠ [])
    (h : ∀ v ∈ values, f.Covers v.toNat) :
    ∃ vs, AreDistinct vs values ∧ (on f values).pattern = .ok (ofValues vs) := by
  have hDistinct := areDistinct_ascending h
  refine ⟨_, hDistinct, ?_⟩
  rw [pattern_on hNe, mapM_narrow_eq_ok fun v hMem => h v (mem_ascending.1 hMem),
    ← ofItems_map_value hDistinct.1]
  rfl

theorem exists_pattern_on_iff {f : Field} {values : List UInt32} :
    (∃ p, (on f values).pattern = .ok p) ↔ values ≠ [] ∧ ∀ v ∈ values, f.Covers v.toNat := by
  constructor
  · intro ⟨p, hPattern⟩
    have hNe : values ≠ [] := by
      rintro rfl
      rw [pattern_on_nil] at hPattern
      cases hPattern
    rw [pattern_on hNe] at hPattern
    obtain ⟨ps, hRead, -⟩ := map_eq_ok_iff.1 hPattern
    refine ⟨hNe, fun v hMem => ?_⟩
    obtain ⟨q, hValue⟩ := exists_mapM_iff.1 ⟨ps, hRead⟩ v (mem_ascending.2 hMem)
    by_contra hOut
    rw [narrow_map_eq_error_iff.2 ⟨hOut, rfl⟩] at hValue
    cases hValue
  · intro ⟨hNe, hCovers⟩
    obtain ⟨vs, -, hPattern⟩ := exists_pattern_on hNe hCovers
    exact ⟨_, hPattern⟩

theorem pattern_on_eq_error_iff {f : Field} {values : List UInt32} (hNe : values ≠ [])
    (e : Error) :
    (on f values).pattern = .error e ↔
      ∃ n, IsLeast {k | (∃ v ∈ values, v.toNat = k) ∧ ¬ f.Covers k} n ∧
        e = .outOfRange f n f.min f.max := by
  rw [pattern_on hNe, map_eq_error_iff, mapM_narrow_eq_error_iff (pairwise_ascending values)]
  simp only [mem_ascending]

end Edit

namespace Schedule

open Pattern

/-- An edit that lists values succeeds exactly if there are any and the field covers
them all.  The field then holds the distinct ones in ascending order, a single one
not as a list, and it matches them and no other number.  Without values the empty
text is malformed, and otherwise the least value out of bounds is the error; the
schedule is left as it was. -/
theorem on_keeps_distinct_values (s : Schedule) (f : Field) (values : List UInt32) :
    ((∃ t, (Edit.on f values).apply s = .ok t) ↔
      values ≠ [] ∧ ∀ v ∈ values, f.Covers v.toNat) ∧
    (∀ t, (Edit.on f values).apply s = .ok t →
      (∃ vs, AreDistinct vs values ∧ t = s.put f (ofValues vs)) ∧
      ∀ x : UInt32, ∃ b, (t.field f).test x.toNat = .ok b ∧ (b = true ↔ x ∈ values)) ∧
    (values = [] → (Edit.on f values).apply s = .error (.malformed f "")) ∧
    (values ≠ [] → ∀ e, (Edit.on f values).apply s = .error e ↔
      ∃ n, IsLeast {k | (∃ v ∈ values, v.toNat = k) ∧ ¬ f.Covers k} n ∧
        e = .outOfRange f n f.min f.max) ∧
    (∀ e, (Edit.on f values).apply s = .error e → s.run (.on f values) = s) := by
  have hSucceeds : (∃ t, (Edit.on f values).apply s = .ok t) ↔
      values ≠ [] ∧ ∀ v ∈ values, f.Covers v.toNat := by
    rw [← Edit.exists_pattern_on_iff]
    simp [Edit.apply_eq, map_eq_ok_iff]
  refine ⟨hSucceeds, ?_, ?_, ?_, ?_⟩
  · intro t hStored
    obtain ⟨hNe, hCovers⟩ := hSucceeds.1 ⟨t, hStored⟩
    obtain ⟨vs, hDistinct, hPattern⟩ := Edit.exists_pattern_on hNe hCovers
    rw [Edit.apply_eq, hPattern] at hStored
    obtain rfl : s.put f (ofValues vs) = t := Except.ok.inj hStored
    refine ⟨⟨vs, hDistinct, rfl⟩, fun x => ?_⟩
    rw [field_put_self]
    refine (decides_ofValues hDistinct.1 x.toNat).congr ?_
    rw [hDistinct.2]
    simp only [UInt32.toNat_inj, exists_eq_right]
  · rintro rfl
    rw [Edit.apply_eq, Edit.pattern_on_nil]
    rfl
  · intro hNe e
    rw [Edit.apply_eq, map_eq_error_iff]
    exact Edit.pattern_on_eq_error_iff hNe e
  · intro e hError
    rw [run, hError]

/-- Sorted as numbers and not as texts, and the last value is too large for a byte. -/
example : ((Edit.on .dayOfMonth [31, 4, 10, 4]).apply {}).map (·.dayOfMonth) =
      .ok (.list [.value 4, .value 10, .value 31]) ∧
    (Edit.on .hour [4294967295, 7, 24, 256]).apply {} = .error (.outOfRange .hour 24 0 23) := by
  decide +kernel

end Schedule

end Cron
