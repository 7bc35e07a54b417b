/-
What decoding a payload comes to, cell by cell.

A payload lists elements, one raw row for each (`Lists`). A cell belongs to a raw row and a field: `Cell` says what it can
be decoded to, `BadCell` what is wrong with it otherwise. Rows and fields are two nested passes that both stop at the first
failure; together they are one pass over `cells`, the fields of the first row before those of the second. A value that is
decoded passes the type check that a literal of its column has to pass. Main results:
- `readPayload?_eq_some_iff`: the raw rows of a payload are its elements;
- `Field.decodeCell_exact`: what one cell is decoded to, and why it is not;
- `Schema.errorOf?_decodeRows`: the two passes are one;
- `Schema.decodes_exactly`: a payload is decoded to well-typed rows or to the error of its first bad cell.
-/
import PartitionedScan.Proofs.Filter.Validity
import PartitionedScan.Proofs.Read.Protocol
import PartitionedScan.Proofs.Read.Reencoding

namespace PartitionedScan

/-! ## Elements -/

/-- the raw rows of a payload, one for each element of its member `rows`; without the member there are none -/
inductive Lists (payload : String) : List (SortedMap Json) → Prop where
  | elements {document rows : Json.Tree} {items : List Json.Tree} {raws : List (SortedMap Json)}
      (read : Json.Tree.read? payload = some document) (member : document.fields? ["rows"] = some [some rows])
      (list : rows.items? = some items) (each : List.Forall₂ (fun item raw => item.row? 124 = some raw) items raws) :
      Lists payload raws
  | absent {document : Json.Tree} (read : Json.Tree.read? payload = some document)
      (member : document.fields? ["rows"] = some [none]) : Lists payload []

/-- **Elements are raw rows**, one for one -/
theorem readPayload?_eq_some_iff {payload : String} {raws : List (SortedMap Json)} :
    readPayload? payload = some raws ↔ Lists payload raws := by
  constructor
  · intro h
    obtain ⟨document, hread, h⟩ := Option.bind_eq_some_iff.1 h
    obtain ⟨fields, hfields, h⟩ := Option.bind_eq_some_iff.1 h
    split at h
    · obtain ⟨items, hitems, h⟩ := Option.bind_eq_some_iff.1 h
      exact .elements hread hfields hitems (mapM_eq_some_iff.1 h)
    · cases h
      exact .absent hread hfields
    · cases h
  · rintro (⟨hread, hmember, hlist, heach⟩ | ⟨hread, hmember⟩)
    · rw [readPayload?, hread, Option.bind_eq_bind, Option.bind_some, hmember, Option.bind_eq_bind, Option.bind_some]
      simp only
      rw [hlist]
      exact mapM_eq_some_iff.2 heach
    · rw [readPayload?, hread, Option.bind_eq_bind, Option.bind_some, hmember]
      rfl

/-! ## Cells -/

/-- a raw row has no value for a field -/
def Vacant (raw : SortedMap Json) (f : Field) : Prop :=
  raw.get? f.name = none ∨ raw.get? f.name = some .null

/-- what the cell of a raw row and a field is decoded to -/
inductive Cell (raw : SortedMap Json) (f : Field) : Value → Prop where
  | null (vacant : Vacant raw f) (nullable : f.nullable = true) : Cell raw f .null
  | value {j : Json} {v : Value} (found : raw.get? f.name = some j) (nonnull : j ≠ .null)
      (decoded : f.type.decode? j = some v) (accepted : f.type.accepts v = true) : Cell raw f v

/-- what is wrong with a cell that is not decoded -/
inductive BadCell (raw : SortedMap Json) (f : Field) : DecodeError → Prop where
  | missing (vacant : Vacant raw f) (required : f.nullable = false) : BadCell raw f (.missingValue f.name)
  | mismatch {j : Json} (found : raw.get? f.name = some j) (nonnull : j ≠ .null) (other : f.type.decode? j = none) :
      BadCell raw f (.mismatch f.name f.type j)

theorem DataType.accepts_of_isTypeOf {t : DataType} {v : Value} (h : t.IsTypeOf v) : t.accepts v = true := by
  cases h <;> rfl

namespace Field

/-- the value of the cell of a raw row -/
def decodeCell (f : Field) (raw : SortedMap Json) : Except DecodeError Value :=
  f.decode ((raw.get? f.name).getD .null)

variable {f : Field} {raw : SortedMap Json}

theorem decodeCell_of_vacant (h : Vacant raw f) :
    f.decodeCell raw = if f.nullable then .ok .null else .error (.missingValue f.name) := by
  rcases h with h | h <;> rw [decodeCell, h] <;> rfl

theorem decodeCell_of_found {j : Json} (hfound : raw.get? f.name = some j) (hnonnull : j ≠ .null) :
    f.decodeCell raw = (f.type.decode? j).elim (.error (.mismatch f.name f.type j)) .ok := by
  have hnull : j.isNull = false := by
    revert hnonnull
    cases j <;> simp [Json.isNull]
  rw [decodeCell, hfound, Option.getD_some, decode, hnull, if_neg Bool.false_ne_true]
  cases f.type.decode? j <;> rfl

theorem decodeCell_of_cell {v : Value} (h : Cell raw f v) : f.decodeCell raw = .ok v := by
  cases h with
  | null hvacant hnullable => rw [decodeCell_of_vacant hvacant, if_pos hnullable]
  | value hfound hnonnull hdecoded => rw [decodeCell_of_found hfound hnonnull, hdecoded, Option.elim_some]

theorem decodeCell_of_badCell {e : DecodeError} (h : BadCell raw f e) : f.decodeCell raw = .error e := by
  cases h with
  | missing hvacant hrequired => rw [decodeCell_of_vacant hvacant, hrequired, if_neg Bool.false_ne_true]
  | mismatch hfound hnonnull hother => rw [decodeCell_of_found hfound hnonnull, hother, Option.elim_none]

/-- a cell is good or bad -/
theorem cell_or_badCell (raw : SortedMap Json) (f : Field) : (∃ v, Cell raw f v) ∨ ∃ e, BadCell raw f e := by
  by_cases hvacant : Vacant raw f
  · cases hnullable : f.nullable with
    | true => exact Or.inl ⟨_, .null hvacant hnullable⟩
    | false => exact Or.inr ⟨_, .missing hvacant hnullable⟩
  · obtain ⟨hsome, hnonnull⟩ := not_or.1 hvacant
    obtain ⟨j, hfound⟩ := Option.ne_none_iff_exists'.1 hsome
    have hj : j ≠ .null := fun hnull => hnonnull (hnull ▸ hfound)
    cases hdecoded : f.type.decode? j with
    | some v =>
      have htype := DataType.isTypeOf_of_decode? hdecoded
      exact Or.inl ⟨v, .value hfound hj hdecoded (DataType.accepts_of_isTypeOf htype)⟩
    | none => exact Or.inr ⟨_, .mismatch hfound hj hdecoded⟩

/-- **One cell** is decoded to null where that is allowed and nothing is there, or to a value that its column accepts -/
theorem decodeCell_exact (raw : SortedMap Json) (f : Field) :
    (∀ v, f.decodeCell raw = .ok v ↔ Cell raw f v) ∧ ∀ e, f.decodeCell raw = .error e ↔ BadCell raw f e :=
  outcome_exact (fun _ => decodeCell_of_cell) (fun _ => decodeCell_of_badCell) (cell_or_badCell raw f)

end Field

/-- a value that is decoded may be compared with its own column -/
theorem Cell.comparable {s : Schema} {raw : SortedMap Json} {f : Field} {v : Value} (h : Cell raw f v) (hv : v ≠ .null)
    {l : Leaf} (hfield : s.field? l.attr = some f) (hrange : l.comparator.isRange = true → f.type.isOrderable = true)
    (hvalues : ∀ w ∈ l.values, w = v) : l.schemaRefusal? s = none := by
  refine Leaf.schemaRefusal?_of_fits hfield fun w hw => ?_
  obtain rfl := hvalues w hw
  cases h with
  | null => exact absurd rfl hv
  | value _ _ _ haccepted => exact ⟨haccepted, hrange⟩

/-! ## Rows -/

namespace Schema

/-- the cells of raw rows, row by row and field by field -/
def cells (s : Schema) (raws : List (SortedMap Json)) : List (SortedMap Json × Field) :=
  raws.flatMap fun raw => s.fields.map (Prod.mk raw)

/-- a row has one value for every field, in order, and each is what its cell is decoded to -/
def RowOf (s : Schema) (raw : SortedMap Json) (row : Row) : Prop :=
  List.Forall₂ (Cell raw) s.fields row.values

variable {s : Schema}

theorem decodeRow_eq_map (s : Schema) (raw : SortedMap Json) :
    s.decodeRow raw = (s.fields.mapM fun f => Field.decodeCell f raw).map Row.mk := by
  rw [decodeRow]
  unfold Field.decodeCell
  cases s.fields.mapM fun f => f.decode ((raw.get? f.name).getD .null) <;> rfl

theorem decodeRow_eq_ok_iff {raw : SortedMap Json} {row : Row} : s.decodeRow raw = .ok row ↔ s.RowOf raw row := by
  have hcells : (fun (f : Field) v => f.decodeCell raw = .ok v) = Cell raw :=
    funext fun f => funext fun v => propext ((Field.decodeCell_exact raw f).1 v)
  rw [decodeRow_eq_map, map_eq_ok_iff, RowOf, ← hcells]
  constructor
  · rintro ⟨values, hvalues, rfl⟩
    exact mapM_eq_ok_iff.1 hvalues
  · exact fun h => ⟨row.values, mapM_eq_ok_iff.2 h, rfl⟩

/-- raw rows are decoded to one row for each -/
theorem decodeRows_eq_ok_iff {raws : List (SortedMap Json)} {rows : List Row} :
    raws.mapM s.decodeRow = .ok rows ↔ List.Forall₂ s.RowOf raws rows := by
  simp only [mapM_eq_ok_iff, decodeRow_eq_ok_iff]

/-- **Two passes are one**: over rows and over fields, both up to the first failure -/
theorem errorOf?_decodeRows (s : Schema) (raws : List (SortedMap Json)) :
    errorOf? (raws.mapM s.decodeRow) = (s.cells raws).findSome? fun c => errorOf? (c.2.decodeCell c.1) := by
  rw [errorOf?_mapM, cells, findSome?_flatMap]
  congr 1
  funext raw
  rw [decodeRow_eq_map, errorOf?_map, errorOf?_mapM, List.findSome?_map]
  rfl

/-- raw rows fail with what is wrong with their first bad cell -/
theorem decodeRows_eq_error_iff {raws : List (SortedMap Json)} {e : DecodeError} :
    raws.mapM s.decodeRow = .error e ↔ ∃ before raw f after, s.cells raws = before ++ (raw, f) :: after ∧
      (∀ c ∈ before, ∃ v, Cell c.1 c.2 v) ∧ BadCell raw f e := by
  rw [← errorOf?_eq_some_iff, errorOf?_decodeRows, List.findSome?_eq_some_iff]
  simp only [errorOf?_eq_some_iff, errorOf?_eq_none_iff, (Field.decodeCell_exact _ _).1, (Field.decodeCell_exact _ _).2]
  constructor
  · rintro ⟨before, ⟨raw, f⟩, after, hsplit, hbad, hbefore⟩
    exact ⟨before, raw, f, after, hsplit, hbefore, hbad⟩
  · rintro ⟨before, raw, f, after, hsplit, hbefore, hbad⟩
    exact ⟨before, (raw, f), after, hsplit, hbad, hbefore⟩

/-! ## Payloads -/

/-- what the reader of a partition makes of a payload -/
def decodeFor (s : Schema) (partition : Nat) (payload : String) : Except ReadError (List Row) :=
  (s.decodePayload payload).mapError (.decode partition)

variable {partition : Nat} {payload : String} {raws : List (SortedMap Json)}

theorem decodeFor_of_lists (h : Lists payload raws) :
    s.decodeFor partition payload = (raws.mapM s.decodeRow).mapError (.decode partition) := by
  rw [decodeFor, decodePayload, readPayload?_eq_some_iff.2 h]

theorem decodeFor_of_unreadable (h : ∀ raws, ¬ Lists payload raws) :
    s.decodeFor partition payload = .error (.decode partition .invalidPayload) := by
  have hread : readPayload? payload = none :=
    Option.eq_none_iff_forall_ne_some.2 fun raws hraws => h raws (readPayload?_eq_some_iff.1 hraws)
  rw [decodeFor, decodePayload, hread]
  rfl

theorem decodeFor_eq_ok_iff {rows : List Row} :
    s.decodeFor partition payload = .ok rows ↔ ∃ raws, Lists payload raws ∧ List.Forall₂ s.RowOf raws rows := by
  constructor
  · intro h
    by_cases hlists : ∃ raws, Lists payload raws
    · obtain ⟨raws, hraws⟩ := hlists
      rw [decodeFor_of_lists hraws, mapError_eq_ok_iff] at h
      exact ⟨raws, hraws, decodeRows_eq_ok_iff.1 h⟩
    · rw [decodeFor_of_unreadable (not_exists.1 hlists)] at h
      cases h
  · rintro ⟨raws, hraws, hrows⟩
    rw [decodeFor_of_lists hraws, mapError_eq_ok_iff]
    exact decodeRows_eq_ok_iff.2 hrows

theorem decodeFor_eq_error_iff (h : Lists payload raws) {e : ReadError} : s.decodeFor partition payload = .error e ↔
    ∃ before raw f after cause, s.cells raws = before ++ (raw, f) :: after ∧ (∀ c ∈ before, ∃ v, Cell c.1 c.2 v) ∧
      BadCell raw f cause ∧ e = .decode partition cause := by
  rw [decodeFor_of_lists h, mapError_eq_error_iff]
  constructor
  · rintro ⟨cause, hcause, rfl⟩
    obtain ⟨before, raw, f, after, hsplit, hbefore, hbad⟩ := decodeRows_eq_error_iff.1 hcause
    exact ⟨before, raw, f, after, cause, hsplit, hbefore, hbad, rfl⟩
  · rintro ⟨before, raw, f, after, cause, hsplit, hbefore, hbad, rfl⟩
    exact ⟨cause, decodeRows_eq_error_iff.2 ⟨before, raw, f, after, hsplit, hbefore, hbad⟩, rfl⟩

/-- a fetch that brings a payload answers what is made of it for the partition of the reader -/
theorem fetch_decodes {σ : Type} {remote : Remote σ} {job : ReadJob} {b : Bucket} {r : Reader} {world world' world'' : σ}
    (hconnect : Reader.connect remote job r world = (.ok (), world'))
    (hfetch : remote.fetch (job.request b) world' = (.ok payload, world'')) :
    (Reader.fetch remote job b r world).1 = job.schema.decodeFor r.partition payload := by
  rw [Reader.fetch, hconnect]
  simp only
  rw [← ReadJob.request, hfetch]
  simp only
  rw [decodeFor]
  cases job.schema.decodePayload payload <;> rfl

/-- what decoding a payload for a partition comes to -/
structure DecodesExactly (s : Schema) (partition : Nat) (payload : String) : Prop where
  /-- rows stand for the elements and values for the fields, one for one and in order -/
  rows : ∀ rows, s.decodeFor partition payload = .ok rows ↔
    ∃ raws, Lists payload raws ∧ List.Forall₂ s.RowOf raws rows
  /-- the schema has nothing against comparing a column with a value that was decoded for it -/
  comparable : ∀ rows, s.decodeFor partition payload = .ok rows → ∀ row ∈ rows, ∀ f v, (f, v) ∈ s.fields.zip row.values →
    v ≠ .null → ∀ l : Leaf, s.field? l.attr = some f → (l.comparator.isRange = true → f.type.isOrderable = true) →
    (∀ w ∈ l.values, w = v) → l.schemaRefusal? s = none
  /-- the first cell, by row and then by field, that is bad decides the error -/
  firstBad : ∀ raws, Lists payload raws → ∀ e, s.decodeFor partition payload = .error e ↔
    ∃ before raw f after cause, s.cells raws = before ++ (raw, f) :: after ∧ (∀ c ∈ before, ∃ v, Cell c.1 c.2 v) ∧
      BadCell raw f cause ∧ e = .decode partition cause
  unreadable : (∀ raws, ¬ Lists payload raws) → s.decodeFor partition payload = .error (.decode partition .invalidPayload)
  /-- a fetch that brings the payload answers just this -/
  fetched : ∀ {σ : Type} (remote : Remote σ) (job : ReadJob) (b : Bucket) (r : Reader) (world world' world'' : σ),
    job.schema = s → r.partition = partition → Reader.connect remote job r world = (.ok (), world') →
    remote.fetch (job.request b) world' = (.ok payload, world'') →
    (Reader.fetch remote job b r world).1 = s.decodeFor partition payload

/-- **Decoding is well-typed and all or nothing.** For every schema, every text and every partition: a payload is decoded to
one row for each of its elements, in order, each with one value for every field, in order. A value is null on a nullable
field whose cell has none, or one that the type of the field accepts; so it may be compared with its own column. If a cell
is bad nothing is decoded, and the error is that of the first bad cell, row by row and field by field, with the partition. -/
theorem decodes_exactly (s : Schema) (partition : Nat) (payload : String) : s.DecodesExactly partition payload where
  rows _ := decodeFor_eq_ok_iff
  comparable rows h row hrow f v hmem hv l hfield hrange hvalues := by
    obtain ⟨raws, _, hall⟩ := decodeFor_eq_ok_iff.1 h
    obtain ⟨raw, _, hrowOf⟩ := exists_of_mem_right hall hrow
    have hcell : Cell raw f v := (List.forall₂_iff_zip.1 hrowOf).2 hmem
    exact hcell.comparable hv hfield hrange hvalues
  firstBad _ hraws _ := decodeFor_eq_error_iff hraws
  unreadable h := decodeFor_of_unreadable h
  fetched remote job b r world world' world'' hschema hpartition hconnect hfetch := by
    rw [← hschema, ← hpartition]
    exact fetch_decodes hconnect hfetch

/-- a number that has to be there, and a day -/
def numberedDays : Schema :=
  ⟨[⟨"id", .long, false⟩, ⟨"day", .date, true⟩]⟩

/-- a number as a text and a leap day; a row without a day -/
def daysPayload : String :=
  "\x7b\"rows\":[\x7b\"id\":\"7\",\"day\":\"2024-02-29\"\x7d,\x7b\"id\":8\x7d]\x7d"

/-- a day that is none, before a row without anything -/
def faultyPayload : String :=
  "\x7b\"rows\":[\x7b\"id\":1,\"day\":\"Monday\"\x7d,\x7b\x7d]\x7d"

theorem decodes_exactly_days :
    (∃ raws, Lists daysPayload raws ∧
      List.Forall₂ numberedDays.RowOf raws [⟨[.int 7, .date 19782]⟩, ⟨[.int 8, .null]⟩]) ∧
    ∃ raws, Lists faultyPayload raws ∧ ∃ before raw f after, numberedDays.cells raws = before ++ (raw, f) :: after ∧
      (∀ c ∈ before, ∃ v, Cell c.1 c.2 v) ∧ BadCell raw f (.mismatch "day" .date (.string "Monday")) := by
  have hrows : numberedDays.decodeFor 3 daysPayload = .ok [⟨[.int 7, .date 19782]⟩, ⟨[.int 8, .null]⟩] := by decide +kernel
  have herror : numberedDays.decodeFor 3 faultyPayload = .error (.decode 3 (.mismatch "day" .date (.string "Monday"))) := by
    decide +kernel
  have hread : (readPayload? faultyPayload).isSome = true := by decide +kernel
  refine ⟨((decodes_exactly numberedDays 3 daysPayload).rows _).1 hrows, ?_⟩
  obtain ⟨raws, hraws⟩ := Option.isSome_iff_exists.1 hread
  have hlists := readPayload?_eq_some_iff.1 hraws
  obtain ⟨before, raw, f, after, cause, hsplit, hbefore, hbad, heq⟩ :=
    ((decodes_exactly numberedDays 3 faultyPayload).firstBad raws hlists _).1 herror
  cases heq
  exact ⟨raws, hlists, before, raw, f, after, hsplit, hbefore, hbad⟩

end Schema

end PartitionedScan
