/-
Equality of cells and equality of decoded values.

A filter compares the cells of a row as the documents they are; a reader sees the values that they are decoded to. The two
agree where a cell is written as its value is (`DataType.Writes`): on every other cell, such as a number in a text or a day
with a plus sign, an equality is false whatever the value is. Documents of one kind are equal when they are the same, floats
when they stand for the same number, and a whole number is compared with a float cell as the float nearest to it
(`Value.EqualTo`), which below `2^53` makes no difference (`equalTo_int_iff`).
Main results:
- `relates_iff`: when a cell equals the wire form of a literal;
- `Filter.equality_of_decoded`: when a compiled `eq` or `in` is true on a row.
-/
import PartitionedScan.Proofs.Filter.TimeOrder
import PartitionedScan.Proofs.Read.Reencoding

namespace PartitionedScan

/-! ## Cells and literals -/

/-- the whole number of 64 bits that a cell is -/
def Json.int64? : Json → Option Int64
  | .number n => n.int64?
  | _ => none

/-- the cell is written as its value is; of floats every number is one -/
def DataType.Writes : DataType → Json → Value → Prop
  | .double, raw, _ => ∃ n, raw = .number n
  | _, raw, v => raw = v.toJson

/-- the value of a cell equals a literal. Floats stand for numbers; a whole number is itself where the cell is a whole
number of 64 bits, and the float nearest to it elsewhere. -/
def Value.EqualTo (raw : Json) : Value → Value → Prop
  | .float x, .float y => x.toRat = y.toRat
  | .float x, .int n => raw.int64?.elim (x.toRat = (Binary64.ofInt n.toInt).toRat) (· = n)
  | v, w => v = w

theorem Value.toJson_float {x : Binary64} (h : x.isFinite = true) : (float x).toJson = .number (.float x h) := dif_pos h

namespace Json

theorem order?_string_iff (j : Json) (s : String) : j.order? (.string s) = some .eq ↔ j = .string s := by
  cases j <;> simp [order?]

theorem order?_bool_iff (j : Json) (b : Bool) : j.order? (.bool b) = some .eq ↔ j = .bool b := by
  cases j <;> simp [order?]

namespace Number

theorem int64?_eq_some_iff {m : Number} {n : Int64} : m.int64? = some n ↔ m = ofInt64 n := by
  constructor
  · intro h
    cases m with
    | float x finite => cases h
    | int value bounded =>
      obtain ⟨hlt, heq⟩ := Option.ite_none_right_eq_some.1 h
      cases heq
      have hvalue : (Int64.ofInt value).toInt = value := by
        rw [FitsWord] at bounded
        exact Int64.toInt_ofInt_of_le bounded.1 hlt
      simp [ofInt64, hvalue]
  · rintro rfl
    exact DataType.int64?_ofInt64 n

theorem order?_ofInt64_iff (m : Number) (n : Int64) : m.order? (ofInt64 n) = some .eq ↔
    m.int64?.elim (m.toBinary64.toRat = (Binary64.ofInt n.toInt).toRat) (· = n) := by
  rw [order?, DataType.int64?_ofInt64]
  cases hm : m.int64? with
  | none => exact Binary64.order?_eq_iff (Binary64.isFinite_toBinary64 m) (Binary64.isFinite_toBinary64 (ofInt64 n))
  | some k => simp [Int64.toInt_inj]

end Number

end Json

variable {t : DataType} {raw : Json} {v w : Value}

/-- but for whole numbers beside floats, a type accepts values of its own -/
theorem DataType.isTypeOf_of_accepts (ht : t ≠ .double) (h : t.accepts w = true) : t.IsTypeOf w := by
  cases t <;> cases w <;> first | exact absurd rfl ht | constructor | cases h

theorem number_of_accepts (h : DataType.double.accepts w = true) (hwire : w.toJson ≠ .null) :
    (∃ n, w = .int n) ∨ ∃ y, ∃ hy : y.isFinite = true, w = .float y ∧ w.toJson = .number (.float y hy) := by
  cases w with
  | int n => exact .inl ⟨n, rfl⟩
  | float y =>
    have hfinite : y.isFinite = true := by
      by_contra hinfinite
      exact hwire (dif_neg hinfinite)
    exact .inr ⟨y, hfinite, rfl, Value.toJson_float hfinite⟩
  | _ => cases h

theorem Comparator.eq_relates_iff (a b : Json) : Comparator.eq.relates a b = true ↔ a.order? b = some .eq := beq_iff_eq

/-- but for floats, a cell equals the wire form of a literal when it is that wire form -/
theorem relates_iff_eq (ht : t ≠ .double) (hdecode : t.decode? raw = some v) (haccepts : t.accepts w = true)
    (hwire : w.toJson ≠ .null) : Comparator.eq.relates raw w.toJson = true ↔ raw = w.toJson := by
  rw [Comparator.eq_relates_iff]
  cases DataType.isTypeOf_of_accepts ht haccepts with
  | boolean b => exact Json.order?_bool_iff raw b
  | string s => exact Json.order?_string_iff raw s
  | binary data => exact Json.order?_string_iff raw _
  | date days =>
    rw [Value.toJson] at hwire ⊢
    obtain ⟨text, htext⟩ := Json.exists_of_ofOption_ne_null hwire
    rw [htext]
    exact Json.order?_string_iff raw text
  | timestamp micros =>
    rw [Value.toJson] at hwire ⊢
    obtain ⟨text, htext⟩ := Json.exists_of_ofOption_ne_null hwire
    rw [htext]
    exact Json.order?_string_iff raw text
  | long n =>
    cases raw with
    | number m =>
      obtain ⟨k, hk, _⟩ := Option.map_eq_some_iff.1 hdecode
      rw [Value.toJson, Json.order?, Json.Number.order?_ofInt64_iff, Json.number.injEq, ← Json.Number.int64?_eq_some_iff, hk,
        Option.elim_some, Option.some.injEq]
    | _ => simp [Json.order?, Value.toJson]
  | double x => exact absurd rfl ht

/-- a cell of a column of floats equals a literal when it is a number that equals it -/
theorem relates_iff_number (hdecode : DataType.double.decode? raw = some v) (haccepts : DataType.double.accepts w = true)
    (hwire : w.toJson ≠ .null) :
    Comparator.eq.relates raw w.toJson = true ↔ DataType.double.Writes raw v ∧ v.EqualTo raw w := by
  rw [Comparator.eq_relates_iff]
  have hliteral := number_of_accepts haccepts hwire
  cases raw with
  | number m =>
    cases hdecode
    rw [and_iff_right ⟨m, rfl⟩]
    rcases hliteral with ⟨n, rfl⟩ | ⟨y, hy, rfl, hform⟩
    · exact Json.Number.order?_ofInt64_iff m n
    · -- a float beside any number is compared as a float
      have horder : m.order? (.float y hy) = m.toBinary64.order? y := by
        rw [Json.Number.order?, show (Json.Number.float y hy).int64? = none from rfl]
        cases m.int64? <;> rfl
      rw [hform, Json.order?, horder]
      exact Binary64.order?_eq_iff (Binary64.isFinite_toBinary64 m) hy
  | string s =>
    have hnumber : ∃ m, w.toJson = .number m := by
      rcases hliteral with ⟨n, rfl⟩ | ⟨y, hy, rfl, hform⟩
      · exact ⟨_, rfl⟩
      · exact ⟨_, hform⟩
    obtain ⟨m, hm⟩ := hnumber
    simp [hm, Json.order?, DataType.Writes]
  | _ => cases hdecode

/-- **When a cell equals the wire form of a literal**: it is written as its value is, and the value equals the literal -/
theorem relates_iff (hdecode : t.decode? raw = some v) (haccepts : t.accepts w = true) (hwire : w.toJson ≠ .null) :
    Comparator.eq.relates raw w.toJson = true ↔ t.Writes raw v ∧ v.EqualTo raw w := by
  by_cases ht : t = .double
  · subst ht
    exact relates_iff_number hdecode haccepts hwire
  · have hliteral := DataType.decode?_toJson (DataType.isTypeOf_of_accepts ht haccepts) hwire
    have hequal : v.EqualTo raw w ↔ v = w := by
      cases DataType.isTypeOf_of_decode? hdecode <;> first | exact absurd rfl ht | rfl
    have hwrites : t.Writes raw v ↔ raw = v.toJson := by
      cases t <;> first | exact absurd rfl ht | rfl
    rw [relates_iff_eq ht hdecode haccepts hwire, hequal, hwrites]
    constructor
    · rintro rfl
      have hsame : v = w := by
        rw [hdecode] at hliteral
        exact Option.some.inj hliteral
      exact ⟨by rw [hsame], hsame⟩
    · rintro ⟨hraw, rfl⟩
      exact hraw

/-- **Below `2^53` a whole number equals the float that stands for it**, whatever the cell -/
theorem equalTo_int_iff {x : Binary64} {n : Int64} (hdecode : DataType.double.decode? raw = some (.float x))
    (hsmall : n.toInt.natAbs < 2 ^ 53) : (Value.float x).EqualTo raw (.int n) ↔ x.toRat = n.toInt := by
  rw [Value.EqualTo]
  cases hcell : raw.int64? with
  | none => rw [Option.elim_none, Binary64.toRat_ofInt hsmall]
  | some k =>
    rw [Option.elim_some]
    cases raw with
    | number m =>
      cases hdecode
      rw [Json.Number.int64?_eq_some_iff.1 hcell]
      exact (Int64.toInt_inj.symm).trans (Binary64.toRat_ofInt_eq_iff k.toInt hsmall).symm
    | _ => cases hcell

/-! ## Leaves -/

namespace Leaf

theorem truth_equality {l : Leaf} (hc : l.comparator = .eq ∨ l.comparator = .oneOf)
    (harity : l.comparator.arity.allows l.values.length = true) {row : JsonRow} (hcell : (l.cell row).isNull = false)
    (hwire : ∀ w ∈ l.values, w.toJson ≠ .null) :
    l.truth row = some true ↔ ∃ w ∈ l.values, Comparator.eq.relates (l.cell row) w.toJson = true := by
  obtain ⟨attr, comparator, values⟩ := l
  rcases hc with rfl | rfl
  · obtain ⟨w, rfl⟩ := List.length_eq_one_iff.1 (beq_iff_eq.1 harity)
    have hliteral : w.toJson.isNull = false := by
      have hw := hwire w List.mem_cons_self
      revert hw
      cases w.toJson <;> simp [Json.isNull]
    rw [truth_single rfl Comparator.noConfusion Comparator.noConfusion, hcell, hliteral]
    simp
  · rw [truth]
    simp only [hcell, Bool.false_eq_true, if_false, Option.some.injEq, List.any_eq_true]

end Leaf

theorem Comparator.refusal?_equality {c : Comparator} (hc : c = .eq ∨ c = .oneOf) (attr : String) (hwire : w.toJson ≠ .null) :
    c.refusal? attr w = none := by
  cases w with
  | null => exact absurd rfl hwire
  | float x =>
    have hfinite : x.isFinite = true := by
      by_contra hinfinite
      exact hwire (dif_neg hinfinite)
    rcases hc with rfl | rfl <;> simp [refusal?, hfinite, isTextMatch]
  | _ => rcases hc with rfl | rfl <;> rfl

theorem Leaf.refusal?_equality {schema : Option Schema} {l : Leaf} {type : DataType}
    (hc : l.comparator = .eq ∨ l.comparator = .oneOf) (harity : l.comparator.arity.allows l.values.length = true)
    (hattr : Text.isBlankText l.attr = false) (hcolumn : Filter.ColumnOf schema l.attr type)
    (hvalues : ∀ w ∈ l.values, type.accepts w = true ∧ w.toJson ≠ .null) : l.refusal? schema = none := by
  have hliterals : l.values.findSome? (l.comparator.refusal? l.attr) = none := by
    rw [List.findSome?_eq_none_iff]
    intro w hw
    exact Comparator.refusal?_equality hc l.attr (hvalues w hw).2
  have hschema : (schema.bind fun s => l.schemaRefusal? s) = none := by
    cases schema with
    | none => rfl
    | some s =>
      obtain ⟨field, hfield, rfl⟩ := hcolumn s rfl
      have hrange : l.comparator.isRange = false := by
        rcases hc with h | h <;> rw [h] <;> rfl
      have hfits : (l.values.find? fun w => !((!l.comparator.isRange || field.type.isOrderable) && field.type.accepts w)) =
          none := by
        rw [List.find?_eq_none]
        intro w hw
        simp [hrange, (hvalues w hw).1]
      rw [Option.bind_some, schemaRefusal?, hfield]
      simp only [hfits, Option.map_none]
  simp [refusal?, hattr, harity, hliterals, hschema]

namespace Filter

variable {schema : Option Schema} {policy : FallbackPolicy}

theorem compile_leaf {l : Leaf} {comp : Compilation} (h : (Filter.leaf l).compile schema policy = .ok comp) :
    comp.dropped = [] ∧ l.comparator.arity.allows l.values.length = true := by
  obtain ⟨r, hr, rfl⟩ := compile_eq_ok_iff.1 h
  rw [compileFrom_leaf, Leaf.compile_eq_ok_iff] at hr
  obtain ⟨hl, rfl⟩ := hr
  exact ⟨rfl, Leaf.arity_of_refusal? hl⟩

theorem columnKey_of_undotted {attr : String} (h : '.' ∉ attr.toList) : columnKey attr = attr := by
  rw [columnKey, if_neg]
  rw [List.count_eq_zero.2 h]
  decide

/-- **Equality of cells and of what they are decoded to.** Take a cell that a column without dots in its name decodes to a
value, and `eq` or `in` of that column with literals that its type accepts and that have a wire form. Such a leaf compiles,
and it is true on a row that holds the cell just when the cell is written as its value is and the value equals one of the
literals. Beside floats, a whole number below `2^53` equals the float that stands for it. -/
theorem equality_of_decoded {f : Field} (hname : '.' ∉ f.name.toList) {raw : Json} {v : Value}
    (hdecode : f.decode raw = .ok v) (hv : v ≠ .null) {l : Leaf} (hattr : l.attr = f.name)
    (hc : l.comparator = .eq ∨ l.comparator = .oneOf)
    (hvalues : ∀ w ∈ l.values, f.type.accepts w = true ∧ w.toJson ≠ .null) (schema : Option Schema)
    (policy : FallbackPolicy) :
    (Text.isBlankText f.name = false → ColumnOf schema f.name f.type →
      l.comparator.arity.allows l.values.length = true → ∃ comp, (Filter.leaf l).compile schema policy = .ok comp) ∧
    (∀ comp, (Filter.leaf l).compile schema policy = .ok comp → ∀ row : JsonRow, row.get? f.name = some raw →
      (comp.document.truth ⟨SortedMap.ofList comp.bindings, row⟩ = .ok (some true) ↔
        ∃ w ∈ l.values, f.type.Writes raw v ∧ v.EqualTo raw w)) ∧
    (∀ (x : Binary64) (n : Int64), f.type = .double → v = .float x → n.toInt.natAbs < 2 ^ 53 →
      (v.EqualTo raw (.int n) ↔ x.toRat = n.toInt)) := by
  obtain ⟨hraw, hcell⟩ := (Field.decode_eq_ok_iff hv).1 hdecode
  refine ⟨?_, ?_, ?_⟩
  · intro hblank hcolumn harity
    rw [← hattr] at hblank hcolumn
    have haccepted := Leaf.refusal?_equality hc harity hblank hcolumn hvalues
    refine ⟨_, compile_eq_ok_iff.2 ⟨⟨Leaf.document 0 l, l.values, []⟩, ?_, rfl⟩⟩
    rw [compileFrom_leaf, Leaf.compile_eq_ok_iff]
    exact ⟨haccepted, rfl⟩
  · intro comp hcomp row hrow
    obtain ⟨hdropped, harity⟩ := compile_leaf hcomp
    have hlookup : l.cell row = raw := by
      rw [Leaf.cell, hattr, columnKey_of_undotted hname, hrow, Option.getD_some]
    have hnull : (l.cell row).isNull = false := by
      rw [hlookup]
      revert hraw
      cases raw <;> simp [Json.isNull]
    rw [compile_preserves_meaning schema policy _ comp hcomp hdropped row, Except.ok.injEq, truth,
      Leaf.truth_equality hc harity hnull fun w hw => (hvalues w hw).2, hlookup]
    apply exists_congr
    intro w
    apply and_congr_right
    intro hw
    exact relates_iff hcell (hvalues w hw).1 (hvalues w hw).2
  · rintro x n hdouble rfl hsmall
    rw [hdouble] at hcell
    exact equalTo_int_iff hcell hsmall

/-- the number 2 as a float is among whole numbers, and a day with a plus sign is not the day that it is decoded to -/
theorem equality_of_decoded_spellings :
    (∃ comp, (Filter.leaf ⟨"x", .oneOf, [.int 1, .int 2]⟩).compile none .strict = .ok comp ∧
      comp.document.truth ⟨SortedMap.ofList comp.bindings, SortedMap.ofList [("x", (Value.float (.ofInt 2)).toJson)]⟩ =
        .ok (some true)) ∧
    ∃ comp, (compare "day" .eq (.date 0)).compile none .strict = .ok comp ∧
      comp.document.truth ⟨SortedMap.ofList comp.bindings, SortedMap.ofList [("day", .string "+1970-01-01")]⟩ ≠
        .ok (some true) := by
  constructor
  · have hfinite : (Binary64.ofInt 2).isFinite = true := Binary64.isFinite_ofInt (by decide)
    have hform : (Value.float (.ofInt 2)).toJson = .number (.float (.ofInt 2) hfinite) := Value.toJson_float hfinite
    have hdecode : Field.decode ⟨"x", .double, true⟩ (Value.float (.ofInt 2)).toJson = .ok (.float (.ofInt 2)) := by
      rw [hform]
      rfl
    obtain ⟨hcompiles, hequal, hsmall⟩ := equality_of_decoded (f := ⟨"x", .double, true⟩) (by decide) hdecode (by decide)
      (l := ⟨"x", .oneOf, [.int 1, .int 2]⟩) rfl (.inr rfl) (by decide) none .strict
    obtain ⟨comp, hcomp⟩ := hcompiles (by decide) (fun _ h => by cases h) (by decide)
    refine ⟨comp, hcomp, (hequal comp hcomp _ (by decide)).2 ⟨.int 2, by decide, ⟨_, hform⟩, ?_⟩⟩
    exact (hsmall (.ofInt 2) 2 rfl rfl (by decide)).2 (Binary64.toRat_ofInt (by decide))
  · have hdecode : Field.decode ⟨"day", .date, true⟩ (.string "+1970-01-01") = .ok (.date 0) := by decide +kernel
    obtain ⟨hcompiles, hequal, _⟩ := equality_of_decoded (f := ⟨"day", .date, true⟩) (by decide) hdecode (by decide)
      (l := ⟨"day", .eq, [.date 0]⟩) rfl (.inl rfl) (by decide) none .strict
    obtain ⟨comp, hcomp⟩ := hcompiles (by decide) (fun _ h => by cases h) (by decide)
    refine ⟨comp, hcomp, fun htrue => ?_⟩
    obtain ⟨_, _, hwrites, _⟩ := (hequal comp hcomp _ (by decide)).1 htrue
    exact absurd hwrites (by decide : Json.string "+1970-01-01" ≠ (Value.date 0).toJson)

/-- a number in a text is not equal to the number that it is decoded to -/
theorem unequal_to_decoded :
    ¬ ∀ (f : Field) (raw : Json) (v w : Value), '.' ∉ f.name.toList → f.decode raw = .ok v → v ≠ .null →
      f.type.accepts w = true → w.toJson ≠ .null → ∀ comp, (compare f.name .eq w).compile none .strict = .ok comp →
      (comp.document.truth ⟨SortedMap.ofList comp.bindings, SortedMap.ofList [(f.name, raw)]⟩ = .ok (some true) ↔
        v = w) := by
  intro h
  have hcell := h ⟨"id", .long, true⟩ (.string "2") (.int 2) (.int 2) (by decide) (by decide) (by decide) (by decide)
    (by decide) _ rfl
  exact absurd (hcell.2 rfl) (by decide)

end Filter

end PartitionedScan
