/-
The rows of a payload are read back from its text.

Printing and parsing are not opened here. A document `ReadsBack` when its text is read as that very document, its keys are
in order at every depth, and it nests no deeper than the reader of payloads follows. From this alone the rows come back
as they were (`readPayload?_payload`): the member `rows` is found, and neither the order of keys nor the depth of a row is
changed or refused on the way.
-/
import PartitionedScan.Engine.Basic
import PartitionedScan.Read.Row

namespace PartitionedScan

/-- the text of the document is read as the document; its keys are in order, and a payload may nest as deep -/
def Json.ReadsBack (j : Json) : Prop :=
  (Json.Tree.read? j.render).bind Json.Tree.json? = some j ∧ j.canonical = j ∧ j.height ≤ 127

instance (j : Json) : Decidable j.ReadsBack := by
  unfold Json.ReadsBack; infer_instance

/-- the document that is sent for a fetch -/
def ResultSet.document (r : ResultSet) : Json :=
  .object [("columns", .ofStrings r.columns), ("rows", .array (r.rows.map fun row => .object row.entries))]

theorem ResultSet.payload_eq (r : ResultSet) : r.payload = r.document.render := rfl

namespace Json.Tree

theorem list_of_json {t : Tree} {js : List Json} (h : t.json? = some (.array js)) :
    ∃ items, t = .list items ∧ jsonItems? items = some js := by
  cases t with
  | list items =>
    obtain ⟨js', hjs, heq⟩ := Option.map_eq_some_iff.1 h
    cases heq
    exact ⟨items, rfl, hjs⟩
  | _ => simp [json?] at h

theorem record_of_json {t : Tree} {ms : List (String × Json)} (h : t.json? = some (.object ms)) :
    ∃ members, t = .record members ∧ jsonMembers? members = some ms := by
  cases t with
  | record members =>
    obtain ⟨ms', hms, heq⟩ := Option.map_eq_some_iff.1 h
    cases heq
    exact ⟨members, rfl, hms⟩
  | _ => simp [json?] at h

theorem members_nil {members : List (Option String × Tree)} (h : jsonMembers? members = some []) : members = [] := by
  cases members with
  | nil => rfl
  | cons m rest => simp [jsonMembers?, Option.bind_eq_some_iff] at h

theorem members_cons {members : List (Option String × Tree)} {k : String} {j : Json} {ms : List (String × Json)}
    (h : jsonMembers? members = some ((k, j) :: ms)) :
    ∃ t rest, members = (some k, t) :: rest ∧ t.json? = some j ∧ jsonMembers? rest = some ms := by
  cases members with
  | nil => cases h
  | cons m rest =>
    obtain ⟨key, t⟩ := m
    rw [jsonMembers?] at h
    obtain ⟨k', hk, h⟩ := Option.bind_eq_some_iff.1 h
    obtain ⟨j', hj, h⟩ := Option.bind_eq_some_iff.1 h
    obtain ⟨ms', hms, h⟩ := Option.bind_eq_some_iff.1 h
    cases h
    exact ⟨t, rest, by rw [hk], hj, hms⟩

theorem items_nil {items : List Tree} (h : jsonItems? items = some []) : items = [] := by
  cases items with
  | nil => rfl
  | cons t rest => simp [jsonItems?, Option.bind_eq_some_iff] at h

theorem items_cons {items : List Tree} {j : Json} {js : List Json} (h : jsonItems? items = some (j :: js)) :
    ∃ t rest, items = t :: rest ∧ t.json? = some j ∧ jsonItems? rest = some js := by
  cases items with
  | nil => cases h
  | cons t rest =>
    rw [jsonItems?] at h
    obtain ⟨j', hj, h⟩ := Option.bind_eq_some_iff.1 h
    obtain ⟨js', hjs, h⟩ := Option.bind_eq_some_iff.1 h
    cases h
    exact ⟨t, rest, rfl, hj, hjs⟩

/-- objects whose keys are in order are read as the rows they were made of -/
theorem mapM_row {room : Nat} {items : List Tree} {rows : List (SortedMap Json)}
    (h : jsonItems? items = some (rows.map fun row => .object row.entries))
    (hcanonical : canonicalItems (rows.map fun row => .object row.entries) = rows.map fun row => .object row.entries)
    (hheight : heightItems (rows.map fun row => .object row.entries) ≤ room + 1) :
    items.mapM (row? room) = some rows := by
  induction rows generalizing items with
  | nil =>
    rw [items_nil h]
    rfl
  | cons row rows ih =>
    obtain ⟨t, rest, rfl, ht, hrest⟩ := items_cons h
    simp only [List.map_cons, canonicalItems, canonical, List.cons.injEq, Json.object.injEq] at hcanonical
    simp only [List.map_cons, heightItems, height, Nat.max_le] at hheight
    obtain ⟨hrow, hrows⟩ := hcanonical
    have hentries : canonicalMembers row.entries SortedMap.empty = row := by
      generalize canonicalMembers row.entries SortedMap.empty = made at hrow
      cases made
      cases row
      simpa using hrow
    have hread : t.row? room = some row := by
      rw [row?, ht]
      simp [Nat.le_of_succ_le_succ hheight.1, hentries]
    rw [List.mapM_cons, hread, ih hrest hrows hheight.2]
    rfl

end Json.Tree

/-- **A payload gives its rows back** when its text is read as the document it was made from. -/
theorem readPayload?_payload {r : ResultSet} (h : r.document.ReadsBack) : readPayload? r.payload = some r.rows := by
  obtain ⟨hread, hcanonical, hheight⟩ := h
  obtain ⟨t, ht, hjson⟩ := Option.bind_eq_some_iff.1 hread
  obtain ⟨members, rfl, hmembers⟩ := Json.Tree.record_of_json hjson
  obtain ⟨columns, _, rfl, _, hmembers⟩ := Json.Tree.members_cons hmembers
  obtain ⟨rows, _, rfl, hrows, hmembers⟩ := Json.Tree.members_cons hmembers
  obtain rfl := Json.Tree.members_nil hmembers
  obtain ⟨items, rfl, hitems⟩ := Json.Tree.list_of_json hrows
  have hordered : (Json.ofStrings r.columns).canonical = .ofStrings r.columns ∧
      Json.canonicalItems (r.rows.map fun row => .object row.entries) = r.rows.map fun row => .object row.entries := by
    have hkeys (c rows : Json) : ((SortedMap.empty.insert "columns" c).insert "rows" rows).entries =
        [("columns", c), ("rows", rows)] := rfl
    rw [ResultSet.document, Json.canonical, Json.canonicalMembers, Json.canonicalMembers, Json.canonicalMembers, hkeys]
      at hcanonical
    simpa only [Json.canonical, Json.object.injEq, List.cons.injEq, Prod.mk.injEq, true_and, and_true,
      Json.array.injEq] using hcanonical
  have hshallow : Json.heightItems (r.rows.map fun row => .object row.entries) ≤ 125 := by
    simp only [ResultSet.document, Json.height, Json.heightMembers] at hheight
    omega
  have hrows := Json.Tree.mapM_row hitems hordered.2 hshallow
  rw [readPayload?, ResultSet.payload_eq, ht]
  exact hrows

end PartitionedScan
