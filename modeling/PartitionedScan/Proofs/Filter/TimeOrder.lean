/-
Ranges of days and points in time.

A range comparison of a column with a day or a point in time compares texts, as one of any two strings does
(`range_of_texts`). Where the texts stand in the order of time it is the comparison of the two numbers (`relates_eq_asks`).
Where they stand the other way round it is the opposite one: the earlier time counts as the later. Main result:
- `range_of_times`: what each range comparison says about any two times that have a text.
-/
import PartitionedScan.Proofs.Calendar.TextOrder
import PartitionedScan.Proofs.Filter.Evaluation

namespace PartitionedScan

/-! ## Texts -/

namespace Json

theorem order?_of_lt {s t : String} (h : s < t) : (string s).order? (string t) = some .lt := by
  simp [order?, compare, String.compare, compareOfLessAndEq, h]

theorem order?_of_gt {s t : String} (h : t < s) : (string s).order? (string t) = some .gt := by
  have hne : s ≠ t := fun heq => String.lt_irrefl t (heq ▸ h)
  simp [order?, compare, String.compare, compareOfLessAndEq, String.lt_asymm h, hne]

theorem order?_self (s : String) : (string s).order? (string s) = some .eq := by
  simp [order?, compare, String.compare, compareOfLessAndEq]

end Json

namespace Comparator

/-- what a range comparison asks of two numbers -/
def asks : Comparator → Int → Int → Bool
  | lt, x, y => x < y
  | le, x, y => x ≤ y
  | gt, x, y => x > y
  | ge, x, y => x ≥ y
  | _, _, _ => false

/-- texts that stand in the order of two numbers compare as the numbers do -/
theorem relates_eq_asks {c : Comparator} (hc : c.isRange = true) {x y : Int} {s t : String} (hlt : x < y → s < t)
    (heq : x = y → s = t) (hgt : y < x → t < s) : c.relates (.string s) (.string t) = c.asks x y := by
  revert hc
  rcases lt_trichotomy x y with h | h | h
  · have horder := Json.order?_of_lt (hlt h)
    cases c <;> simp [isRange, relates, asks, horder, h, h.le, h.not_gt, h.not_ge]
  · obtain rfl := heq h
    have horder := Json.order?_self s
    cases c <;> simp [isRange, relates, asks, horder, h]
  · have horder := Json.order?_of_gt (hgt h)
    cases c <;> simp [isRange, relates, asks, horder, h, h.le, h.not_gt, h.not_ge]

/-- texts that stand in the order of two numbers, or the other way round, compare as the numbers or the other way round -/
theorem relates_eq_asks_or {c : Comparator} (hc : c.isRange = true) {x y : Int} {s t : String} (reversed : Prop)
    [Decidable reversed] (hlt : x < y → if reversed then t < s else s < t) (heq : x = y → s = t)
    (hgt : y < x → if reversed then s < t else t < s) :
    c.relates (.string s) (.string t) = if reversed then c.asks y x else c.asks x y := by
  split_ifs at hlt hgt ⊢
  · exact relates_eq_asks hc hgt (fun h => heq h.symm) hlt
  · exact relates_eq_asks hc hlt heq hgt

end Comparator

/-! ## Filters -/

namespace Filter

open Calendar

/-- the column is one of this type, or nothing is known of the columns -/
def ColumnOf (schema : Option Schema) (attr : String) (type : DataType) : Prop :=
  ∀ s, schema = some s → ∃ field, s.field? attr = some field ∧ field.type = type

variable {schema : Option Schema} {attr : String} {c : Comparator} {v : Value}

theorem range_accepted (hattr : Text.isBlankText attr = false) (hc : c.isRange = true) {type : DataType}
    (hcolumn : ColumnOf schema attr type) (hliteral : c.refusal? attr v = none)
    (htype : (type.isOrderable && type.accepts v) = true) : Leaf.refusal? schema ⟨attr, c, [v]⟩ = none := by
  rw [Bool.and_eq_true] at htype
  have harity : c.arity.allows 1 = true := by
    cases c <;> first | rfl | cases hc
  have hschema : (schema.bind fun s => Leaf.schemaRefusal? s ⟨attr, c, [v]⟩) = none := by
    cases schema with
    | none => rfl
    | some s =>
      obtain ⟨field, hfield, rfl⟩ := hcolumn s rfl
      simp [Leaf.schemaRefusal?, hfield, htype]
  simp [Leaf.refusal?, hattr, harity, hliteral, hschema]

/-- a range comparison with a literal whose wire form is a text, on a row that holds a text -/
theorem range_of_texts (hc : c.isRange = true) (policy : FallbackPolicy)
    (hleaf : Leaf.refusal? schema ⟨attr, c, [v]⟩ = none) {t : String} (hv : v.toJson = .string t) :
    ∃ comp, (compare attr c v).compile schema policy = .ok comp ∧
      ∀ (row : JsonRow) (s : String), row.get? (columnKey attr) = some (.string s) →
        comp.document.truth ⟨SortedMap.ofList comp.bindings, row⟩ =
          .ok (some (c.relates (.string s) (.string t))) := by
  have hcompiled : compileFrom schema policy false 0 (compare attr c v) =
      .ok ⟨Leaf.document 0 ⟨attr, c, [v]⟩, [v], []⟩ := by
    rw [compare, compileFrom_leaf, Leaf.compile_eq_ok_iff]
    exact ⟨hleaf, rfl⟩
  refine ⟨_, compile_eq_ok_iff.2 ⟨_, hcompiled, rfl⟩, fun row s hrow => ?_⟩
  obtain ⟨truth, htruth, _, hexact⟩ := evaluates_widened ⟨SortedMap.ofList (literalBindings [v]), row⟩ hcompiled
    (Bound.of_literals SortedMap.empty [v])
  have hone : c ≠ .oneOf := by rintro rfl; cases hc
  have hdefined : c ≠ .isDefined := by rintro rfl; cases hc
  have hcell : Leaf.cell row ⟨attr, c, [v]⟩ = .string s := by rw [Leaf.cell, hrow]; rfl
  have hmeaning : (compare attr c v).truth row = some (c.relates (.string s) (.string t)) := by
    have hsingle := Leaf.truth_single (l := ⟨attr, c, [v]⟩) rfl hone hdefined row
    rw [hcell, hv] at hsingle
    exact hsingle
  rw [← hmeaning, ← hexact rfl]
  exact htruth

theorem range_of_numbers (hc : c.isRange = true) (policy : FallbackPolicy)
    (hleaf : Leaf.refusal? schema ⟨attr, c, [v]⟩ = none) {s t : String} (hv : v.toJson = .string t) {x y : Int}
    (reversed : Prop) [Decidable reversed] (hlt : x < y → if reversed then t < s else s < t) (heq : x = y → s = t)
    (hgt : y < x → if reversed then s < t else t < s) :
    ∃ comp, (compare attr c v).compile schema policy = .ok comp ∧
      ∀ row : JsonRow, row.get? (columnKey attr) = some (.string s) →
        comp.document.truth ⟨SortedMap.ofList comp.bindings, row⟩ =
          .ok (some (if reversed then c.asks y x else c.asks x y)) := by
  obtain ⟨comp, hcomp, htruth⟩ := range_of_texts hc policy hleaf hv
  refine ⟨comp, hcomp, fun row hrow => ?_⟩
  rw [htruth row s hrow, Comparator.relates_eq_asks_or hc reversed hlt heq hgt]

/-- **Ranges of times.** Compare a column with a day in one of the four orders. On a column of days, or without a schema,
the comparison compiles under either policy. On a row that holds the text of a day it says what it says of the two days,
unless both lie in different years before the year 0, where it says the opposite order. The same holds of points in time,
unless one is the other with its fraction cut off. -/
theorem range_of_times (attr : String) (hattr : Text.isBlankText attr = false) (c : Comparator) (hc : c.isRange = true)
    (schema : Option Schema) (policy : FallbackPolicy) (s t : String) :
    (ColumnOf schema attr .date → ∀ x y : Int32, formatDate x = some s → formatDate y = some t →
      ∃ comp, (compare attr c (.date y)).compile schema policy = .ok comp ∧
        ∀ row : JsonRow, row.get? (columnKey attr) = some (.string s) →
          comp.document.truth ⟨SortedMap.ofList comp.bindings, row⟩ = .ok (some (
            if ReversedDays x.toInt y.toInt then c.asks y.toInt x.toInt else c.asks x.toInt y.toInt))) ∧
    (ColumnOf schema attr .timestamp → ∀ x y : Int64, formatTimestamp x = some s → formatTimestamp y = some t →
      ∃ comp, (compare attr c (.dateTime y)).compile schema policy = .ok comp ∧
        ∀ row : JsonRow, row.get? (columnKey attr) = some (.string s) →
          comp.document.truth ⟨SortedMap.ofList comp.bindings, row⟩ = .ok (some (
            if ReversedTimes x.toInt y.toInt then c.asks y.toInt x.toInt else c.asks x.toInt y.toInt))) := by
  have htext : c.isTextMatch = false := by
    cases c <;> first | rfl | cases hc
  constructor
  · intro hcolumn x y hx hy
    have hliteral : c.refusal? attr (.date y) = none := by simp [Comparator.refusal?, htext]
    have hwire : (Value.date y).toJson = .string t := by rw [Value.toJson, hy]; rfl
    have hgt : y.toInt < x.toInt → if ReversedDays x.toInt y.toInt then s < t else t < s := fun hlt => by
      simpa only [reversedDays_comm] using formatDate_lt hy hx hlt
    have heq : x.toInt = y.toInt → s = t := fun heq => by
      rw [Int32.toInt_inj.1 heq, hy] at hx
      exact (Option.some.inj hx).symm
    exact range_of_numbers hc policy (range_accepted hattr hc hcolumn hliteral rfl) hwire _ (formatDate_lt hx hy) heq hgt
  · intro hcolumn x y hx hy
    have hliteral : c.refusal? attr (.dateTime y) = none := by simp [Comparator.refusal?, htext]
    have hwire : (Value.dateTime y).toJson = .string t := by rw [Value.toJson, hy]; rfl
    have hgt : y.toInt < x.toInt → if ReversedTimes x.toInt y.toInt then s < t else t < s := fun hlt => by
      simpa only [reversedTimes_comm] using formatTimestamp_lt hy hx hlt
    have heq : x.toInt = y.toInt → s = t := fun heq => by
      rw [Int64.toInt_inj.1 heq, hy] at hx
      exact (Option.some.inj hx).symm
    exact range_of_numbers hc policy (range_accepted hattr hc hcolumn hliteral rfl) hwire _ (formatTimestamp_lt hx hy) heq
      hgt

/-- a column of points in time and a column of days -/
def timeColumns : Schema :=
  ⟨[⟨"at", .timestamp, true⟩, ⟨"d", .date, true⟩]⟩

theorem range_of_times_successive :
    (∃ comp, (compare "t.d" .lt (.date 1)).compile none .strict = .ok comp ∧
      comp.document.truth ⟨SortedMap.ofList comp.bindings, SortedMap.ofList [("d", .string "1970-01-01")]⟩ =
        .ok (some true)) ∧
    ∃ comp, (compare "at" .ge (.dateTime 1)).compile (some timeColumns) .dropUnsupported = .ok comp ∧
      comp.document.truth
          ⟨SortedMap.ofList comp.bindings, SortedMap.ofList [("at", .string "1970-01-01T00:00:00.25Z")]⟩ =
        .ok (some true) := by
  have hcolumn : ColumnOf (some timeColumns) "at" .timestamp := fun s hs => by
    cases hs
    exact ⟨⟨"at", .timestamp, true⟩, by decide, rfl⟩
  obtain ⟨hdays, _⟩ :=
    range_of_times "t.d" (by decide) .lt rfl none .strict "1970-01-01" "1970-01-02"
  obtain ⟨_, htimes⟩ :=
    range_of_times "at" (by decide) .ge rfl (some timeColumns) .dropUnsupported "1970-01-01T00:00:00.25Z"
      "1970-01-01T00:00:00.000001Z"
  obtain ⟨comp, hcomp, htruth⟩ := hdays (fun s hs => by cases hs) 0 1 (by decide) (by decide)
  obtain ⟨comp', hcomp', htruth'⟩ := htimes hcolumn 250000 1 (by decide) (by decide)
  exact ⟨⟨comp, hcomp, htruth _ (by decide)⟩, ⟨comp', hcomp', htruth' _ (by decide)⟩⟩

/-- **Half a second past midnight is not after midnight**, and the last day of the year -2 is not before the first of the
year -1, in columns of times and of days. -/
theorem range_of_times_reversed :
    (∃ comp, (compare "at" .lt (.dateTime 500000)).compile (some timeColumns) .strict = .ok comp ∧
      formatTimestamp 0 = some "1970-01-01T00:00:00Z" ∧ (0 : Int64) < 500000 ∧
      comp.document.truth ⟨SortedMap.ofList comp.bindings, SortedMap.ofList [("at", .string "1970-01-01T00:00:00Z")]⟩ =
        .ok (some false)) ∧
    ∃ comp, (compare "d" .lt (.date (-719893))).compile (some timeColumns) .strict = .ok comp ∧
      formatDate (-719894) = some "-0002-12-31" ∧ (-719894 : Int32) < -719893 ∧
      comp.document.truth ⟨SortedMap.ofList comp.bindings, SortedMap.ofList [("d", .string "-0002-12-31")]⟩ =
        .ok (some false) :=
  ⟨⟨_, rfl, by decide, by decide, by decide⟩, ⟨_, rfl, by decide, by decide, by decide⟩⟩

end Filter

end PartitionedScan
