/-
Rows that are decoded from what they were encoded as.

A cell is decoded by the type of its column. Each wire form is read back by its own reader: bytes from base64
(`decode?_encode`), days and points in time from their texts, whole numbers from 64 bits. A row travels as an object by
field name, so names must differ for every field to find its own value (`get?_toObject`); a payload of such objects is read
back as a document, if the floats in it are. Main results:
- `Text.Base64.decode?_encode`: bytes are read back;
- `Field.decode_toJson`: so is every value that a column may hold;
- `Schema.decodePayload_payload`: so are the rows of a payload.
-/
import PartitionedScan.Proofs.Bindings
import PartitionedScan.Proofs.Calendar.Reading
import PartitionedScan.Proofs.Json.Canonical
import PartitionedScan.Proofs.Read.Payload

namespace PartitionedScan

/-! ## Bytes -/

namespace Text.Base64

theorem digit?_digit : ∀ n < 64, digit? (digit n) = some n := by decide

theorem digit_ne : ∀ n < 64, digit n ≠ '=' := by decide

/-- a group of four digits, the last of which is no padding -/
theorem decode?_digits {p q r s : Nat} (hp : p < 64) (hq : q < 64) (hr : r < 64) (hs : s < 64) (rest : List Char) :
    decode? (digit p :: digit q :: digit r :: digit s :: rest) = (decode? rest).map fun bytes =>
      UInt8.ofNat (p * 4 + q / 16) :: UInt8.ofNat (q % 16 * 16 + r / 4) :: UInt8.ofNat (r % 4 * 64 + s) :: bytes := by
  have hlast := digit_ne s hs
  rw [decode?, digit?_digit p hp, digit?_digit q hq, digit?_digit r hr, digit?_digit s hs]
  · cases decode? rest <;> rfl
  · intro _ heq _
    exact absurd heq hlast
  · intro heq _
    exact absurd heq hlast

theorem decode?_two {p q r : Nat} (hp : p < 64) (hq : q < 64) (hr : r < 64) (hrest : r % 4 = 0) :
    decode? [digit p, digit q, digit r, '='] =
      some [UInt8.ofNat (p * 4 + q / 16), UInt8.ofNat (q % 16 * 16 + r / 4)] := by
  have hthird := digit_ne r hr
  rw [decode?, digit?_digit p hp, digit?_digit q hq, digit?_digit r hr]
  · simp [hrest]
  · intro heq
    exact absurd heq hthird

theorem decode?_one {p q : Nat} (hp : p < 64) (hq : q < 64) (hrest : q % 16 = 0) :
    decode? [digit p, digit q, '=', '='] = some [UInt8.ofNat (p * 4 + q / 16)] := by
  rw [decode?, digit?_digit p hp, digit?_digit q hq]
  simp [hrest]

theorem ofNat_toNat {n : Nat} {b : UInt8} (h : n = b.toNat) : UInt8.ofNat n = b := by
  rw [h, UInt8.ofNat_toNat]

/-- **Bytes are read back from base64** -/
theorem decode?_encode : ∀ data : List UInt8, decode? (encode data) = some data
  | [] => rfl
  | [a] => by
    have ha := a.toNat_lt
    rw [encode, decode?_one (by omega) (by omega) (by omega), ofNat_toNat (b := a) (by omega)]
  | [a, b] => by
    have ha := a.toNat_lt
    have hb := b.toNat_lt
    rw [encode, decode?_two (by omega) (by omega) (by omega) (by omega), ofNat_toNat (b := a) (by omega),
      ofNat_toNat (b := b) (by omega)]
  | a :: b :: c :: r => by
    have ha := a.toNat_lt
    have hb := b.toNat_lt
    have hc := c.toNat_lt
    rw [encode, decode?_digits (by omega) (by omega) (by omega) (by omega), decode?_encode r, Option.map_some,
      ofNat_toNat (b := a) (by omega), ofNat_toNat (b := b) (by omega), ofNat_toNat (b := c) (by omega)]

end Text.Base64

/-! ## Cells -/

namespace DataType

/-- the value is one of this type -/
inductive IsTypeOf : DataType → Value → Prop where
  | boolean (b : Bool) : IsTypeOf .boolean (.bool b)
  | long (n : Int64) : IsTypeOf .long (.int n)
  | double (x : Binary64) : IsTypeOf .double (.float x)
  | string (s : String) : IsTypeOf .string (.string s)
  | binary (data : List UInt8) : IsTypeOf .binary (.bytes data)
  | date (days : Int32) : IsTypeOf .date (.date days)
  | timestamp (micros : Int64) : IsTypeOf .timestamp (.dateTime micros)

theorem int64?_ofInt64 (n : Int64) : (Json.Number.ofInt64 n).int64? = some n := by
  have hlt : n.toInt < 9223372036854775808 := n.toInt_lt
  rw [Json.Number.ofInt64, Json.Number.int64?, if_pos hlt, Int64.ofInt_toInt]

/-- a value that has a wire form is decoded from it by its own type -/
theorem decode?_toJson {t : DataType} {v : Value} (ht : t.IsTypeOf v) (hwire : v.toJson ≠ .null) :
    t.decode? v.toJson = some v := by
  cases ht with
  | boolean b => rfl
  | long n => rw [Value.toJson, decode?, int64?_ofInt64, Option.map_some]
  | double x =>
    rw [Value.toJson, Json.ofBinary64] at hwire ⊢
    split_ifs at hwire ⊢
    · rfl
    · exact absurd rfl hwire
  | string s => rfl
  | binary data => rw [Value.toJson, decode?, String.toList_ofList, Text.Base64.decode?_encode, Option.map_some]
  | date days =>
    rw [Value.toJson] at hwire ⊢
    obtain ⟨text, htext⟩ := Json.exists_of_ofOption_ne_null hwire
    rw [htext, Json.ofOption, decode?, Calendar.parseDate_formatDate htext, Option.map_some]
  | timestamp micros =>
    rw [Value.toJson] at hwire ⊢
    obtain ⟨text, htext⟩ := Json.exists_of_ofOption_ne_null hwire
    rw [htext, Json.ofOption, decode?, Calendar.parseTimestamp_formatTimestamp htext, Option.map_some]

end DataType

namespace Field

/-- what a cell of the column may hold: null where that is allowed, or a value of its type that has a wire form -/
def Holds (f : Field) (v : Value) : Prop :=
  v = .null ∧ f.nullable = true ∨ f.type.IsTypeOf v ∧ v.toJson ≠ .null

/-- **Every value that a column may hold is decoded from its wire form** -/
theorem decode_toJson {f : Field} {v : Value} (h : f.Holds v) : f.decode v.toJson = .ok v := by
  rcases h with ⟨rfl, hnullable⟩ | ⟨htype, hwire⟩
  · rw [decode, Value.toJson, Json.isNull, if_pos rfl, if_pos hnullable]
  · have hnull : v.toJson.isNull = false := by
      revert hwire
      cases v.toJson <;> simp [Json.isNull]
    rw [decode, hnull, if_neg Bool.false_ne_true, DataType.decode?_toJson htype hwire]

end Field

/-! ## Rows -/

/-- what is bound after binding several names was there before or is one of them -/
theorem SortedMap.mem_insertAll {α : Type} {entries : List (String × α)} {m : SortedMap α} {e : String × α}
    (h : e ∈ (m.insertAll entries).entries) : e ∈ m.entries ∨ e ∈ entries := by
  induction entries generalizing m with
  | nil => exact Or.inl h
  | cons d entries ih =>
    rcases ih (m := m.insert d.1 d.2) h with h | h
    · rcases SortedMap.mem_insertEntry h with rfl | h
      · exact Or.inr List.mem_cons_self
      · exact Or.inl h
    · exact Or.inr (List.mem_cons_of_mem _ h)

namespace Row

variable {schema : Schema} {row : Row}

theorem get?_toObject (hnames : (schema.fields.map Field.name).Nodup)
    (hlength : schema.fields.length = row.values.length) {f : Field} {v : Value}
    (h : (f, v) ∈ schema.fields.zip row.values) : (row.toObject schema).get? f.name = some v.toJson := by
  have hkeys : (((schema.fields.zip row.values).map fun cell => (cell.1.name, cell.2.toJson)).map Prod.fst).Nodup := by
    have hfields : (schema.fields.zip row.values).map Prod.fst = schema.fields := List.map_fst_zip hlength.le
    rw [← hfields, List.map_map] at hnames
    rw [List.map_map]
    exact hnames
  exact SortedMap.get?_insertAll_of_mem hkeys (e := (f.name, v.toJson)) (List.mem_map.2 ⟨(f, v), h, rfl⟩) .empty

theorem mem_toObject {e : String × Json} (h : e ∈ (row.toObject schema).entries) : ∃ v ∈ row.values, e.2 = v.toJson := by
  rcases SortedMap.mem_insertAll (m := .empty) h with h | h
  · cases h
  · obtain ⟨⟨f, v⟩, hmem, rfl⟩ := List.mem_map.1 h
    exact ⟨v, (List.of_mem_zip hmem).2, rfl⟩

end Row

theorem Schema.decodeRow_toObject {schema : Schema} {row : Row} (hnames : (schema.fields.map Field.name).Nodup)
    (hrow : List.Forall₂ Field.Holds schema.fields row.values) : schema.decodeRow (row.toObject schema) = .ok row := by
  obtain ⟨hlength, hcells⟩ := List.forall₂_iff_zip.1 hrow
  have hdecoded : schema.fields.mapM (fun f => f.decode (((row.toObject schema).get? f.name).getD .null)) =
      .ok row.values := by
    refine mapM_eq_ok_iff.2 (List.forall₂_iff_zip.2 ⟨hlength, fun {f v} hmem => ?_⟩)
    rw [Row.get?_toObject hnames hlength hmem, Option.getD_some, Field.decode_toJson (hcells hmem)]
  rw [decodeRow, hdecoded]
  rfl

/-! ## Payloads -/

namespace Json

theorem heightItems_le {n : Nat} {items : List Json} (h : ∀ x ∈ items, x.height ≤ n) : heightItems items ≤ n := by
  induction items with
  | nil => exact Nat.zero_le n
  | cons x xs ih =>
    rw [List.forall_mem_cons] at h
    exact max_le h.1 (ih h.2)

theorem heightMembers_le {n : Nat} {members : List (String × Json)} (h : ∀ m ∈ members, m.2.height ≤ n) :
    heightMembers members ≤ n := by
  induction members with
  | nil => exact Nat.zero_le n
  | cons m members ih =>
    rw [List.forall_mem_cons] at h
    exact max_le h.1 (ih h.2)

theorem canonical_ofStrings (texts : List String) : (ofStrings texts).canonical = ofStrings texts := by
  rw [ofStrings, canonical, canonicalItems_eq_map, List.map_map]
  rfl

theorem height_ofStrings (texts : List String) : (ofStrings texts).height ≤ 1 := by
  have hitems : heightItems (texts.map .string) ≤ 0 := heightItems_le (List.forall_mem_map.2 fun _ _ => le_rfl)
  exact Nat.succ_le_succ hitems

theorem numbers_ofStrings (texts : List String) : (ofStrings texts).numbers = [] := by
  induction texts with
  | nil => rfl
  | cons s texts ih => exact ih

end Json

/-- rows of free values, nested no deeper than the reader of payloads follows, are read back if the floats in them are -/
theorem ResultSet.readsBack_document {r : ResultSet}
    (h : ∀ row ∈ r.rows, ∀ e ∈ row.entries, e.2.canonical = e.2 ∧ e.2.height ≤ 124 ∧ e.2.FloatsReadBack) :
    r.document.ReadsBack := by
  refine ⟨Json.Tree.json?_render fun n hn => ?_, ?_, ?_⟩
  · rw [document, Json.numbers, Json.mem_numbersOfMembers] at hn
    simp only [List.mem_cons, List.not_mem_nil, or_false, exists_eq_or_imp, exists_eq_left, Json.numbers_ofStrings,
      false_or] at hn
    obtain ⟨x, hx, hn⟩ := Json.mem_numbersOfItems.1 hn
    obtain ⟨row, hrow, rfl⟩ := List.mem_map.1 hx
    obtain ⟨e, he, hn⟩ := Json.mem_numbersOfMembers.1 hn
    exact (h row hrow e he).2.2 n hn
  · have hrows : Json.canonicalItems (r.rows.map fun row => .object row.entries) =
        r.rows.map fun row => .object row.entries := by
      rw [Json.canonicalItems_eq_map, List.map_map]
      refine List.map_congr_left fun row hrow => ?_
      rw [Function.comp, Json.canonical, Json.canonicalMembers_entries fun e he => (h row hrow e he).1]
    have hkeys (c rows : Json) : (Json.object [("columns", c), ("rows", rows)]).canonical =
        .object [("columns", c.canonical), ("rows", rows.canonical)] := rfl
    rw [document, hkeys, Json.canonical_ofStrings, Json.canonical, hrows]
  · have hrows : Json.heightItems (r.rows.map fun row => .object row.entries) ≤ 125 := by
      refine Json.heightItems_le (List.forall_mem_map.2 fun row hrow => ?_)
      exact Nat.succ_le_succ (Json.heightMembers_le fun e he => (h row hrow e he).2.1)
    have hcolumns := Json.height_ofStrings r.columns
    simp only [document, Json.height, Json.heightMembers]
    omega

/-- a wire form is no container -/
theorem Value.wire_scalar (v : Value) : v.toJson.canonical = v.toJson ∧ v.toJson.height = 0 := by
  cases v with
  | float x =>
    rw [toJson, Json.ofBinary64]
    split <;> exact ⟨rfl, rfl⟩
  | date days =>
    rw [toJson]
    cases Calendar.formatDate days <;> exact ⟨rfl, rfl⟩
  | dateTime micros =>
    rw [toJson]
    cases Calendar.formatTimestamp micros <;> exact ⟨rfl, rfl⟩
  | _ => exact ⟨rfl, rfl⟩

/-- **The rows of a payload are decoded as they were encoded**: null where a column allows it, and every value of a column's
own type that has a wire form -/
theorem Schema.decodePayload_payload (schema : Schema) (rows : List Row) (columns : List String)
    (hnames : (schema.fields.map Field.name).Nodup)
    (hrows : ∀ row ∈ rows, List.Forall₂ Field.Holds schema.fields row.values)
    (hfloats : ∀ row ∈ rows, ∀ v ∈ row.values, v.toJson.FloatsReadBack) :
    schema.decodePayload (ResultSet.payload ⟨columns, rows.map fun row => row.toObject schema⟩) = .ok rows := by
  have hread : readPayload? (ResultSet.payload ⟨columns, rows.map fun row => row.toObject schema⟩) =
      some (rows.map fun row => row.toObject schema) := by
    refine readPayload?_payload (ResultSet.readsBack_document ?_)
    refine List.forall_mem_map.2 fun row hrow e he => ?_
    obtain ⟨v, hv, heq⟩ := Row.mem_toObject he
    obtain ⟨hfree, hheight⟩ := v.wire_scalar
    rw [heq]
    exact ⟨hfree, by omega, hfloats row hrow v hv⟩
  have hdecoded : (rows.map fun row => row.toObject schema).mapM schema.decodeRow = .ok rows := by
    refine mapM_eq_ok_iff.2 (List.forall₂_map_left_iff.2 (List.forall₂_same.2 fun row hrow => ?_))
    exact decodeRow_toObject hnames (hrows row hrow)
  simp only [decodePayload, hread, hdecoded]

/-- a column of every type, two of which need a value -/
def Schema.ofEveryType : Schema :=
  ⟨[⟨"flag", .boolean, false⟩, ⟨"id", .long, false⟩, ⟨"share", .double, true⟩, ⟨"name", .string, true⟩,
    ⟨"data", .binary, true⟩, ⟨"day", .date, true⟩, ⟨"at", .timestamp, true⟩]⟩

/-- 1.5, two bytes, the last day of the year -1 and half a second before 1970; and a row without what may be missing -/
theorem Schema.decodePayload_payload_types :
    let rows : List Row := [
      ⟨[.bool true, .int (-5), .float ⟨4609434218613702656⟩, .string "a\"b", .bytes [0, 255], .date (-719529),
        .dateTime (-500000)]⟩,
      ⟨[.bool false, .int 0, .null, .null, .null, .null, .null]⟩]
    ofEveryType.decodePayload (ResultSet.payload ⟨["id"], rows.map fun row => row.toObject ofEveryType⟩) = .ok rows := by
  intro rows
  refine decodePayload_payload ofEveryType rows ["id"] (by decide) ?_ (by decide +kernel)
  rw [List.forall_mem_cons, List.forall_mem_singleton]
  have hvalue {f : Field} {v : Value} (htype : f.type.IsTypeOf v) (hwire : v.toJson ≠ .null) : f.Holds v :=
    Or.inr ⟨htype, hwire⟩
  have hnull {f : Field} (hnullable : f.nullable = true) : f.Holds .null := Or.inl ⟨rfl, hnullable⟩
  constructor
  · exact .cons (hvalue (.boolean _) (by decide)) (.cons (hvalue (.long _) (by decide))
      (.cons (hvalue (.double _) (by decide)) (.cons (hvalue (.string _) (by decide))
      (.cons (hvalue (.binary _) (by decide)) (.cons (hvalue (.date _) (by decide))
      (.cons (hvalue (.timestamp _) (by decide)) .nil))))))
  · exact .cons (hvalue (.boolean _) (by decide)) (.cons (hvalue (.long _) (by decide))
      (.cons (hnull rfl) (.cons (hnull rfl) (.cons (hnull rfl) (.cons (hnull rfl) (.cons (hnull rfl) .nil))))))

end PartitionedScan
