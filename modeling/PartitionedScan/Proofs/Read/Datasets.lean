/-
Rows of a dataset can be sent.

A row of a dataset holds free values that nest less deep than the reader of payloads follows (`Portable`), and whatever a
query does to rows, it keeps some of them and some of their cells. So what a query gives over a dataset is read back from
its payload as it was sent, and an engine that serves a dataset has neither faults nor a refused login. Main results:
- `portable_of_readDataset?`: every row of a dataset text is portable;
- `ResultSet.readsBack_of_portable`: portable rows are read back from their payload;
- `View.length_rows_ofData`, `View.mem_rows_ofData`: a view has the rows that were written.
-/
import PartitionedScan.Proofs.Decimal.ReadBack
import PartitionedScan.Proofs.Read.Decoding
import PartitionedScan.Proofs.Views

namespace PartitionedScan

/-! ## Free values -/

namespace Json

theorem height_le_of_mem_items {x : Json} {items : List Json} (h : x ∈ items) : x.height ≤ heightItems items := by
  induction items with
  | nil => cases h
  | cons y items ih =>
    rcases List.mem_cons.1 h with rfl | h
    · exact Nat.le_max_left _ _
    · exact (ih h).trans (Nat.le_max_right _ _)

theorem height_le_of_mem_members {m : String × Json} {members : List (String × Json)} (h : m ∈ members) :
    m.2.height ≤ heightMembers members := by
  induction members with
  | nil => cases h
  | cons y members ih =>
    rcases List.mem_cons.1 h with rfl | h
    · exact Nat.le_max_left _ _
    · exact (ih h).trans (Nat.le_max_right _ _)

/-- a document nests no deeper as a free value -/
theorem height_canonical_le (j : Json) : j.canonical.height ≤ j.height := by
  induction j using inductOn with
  | array items ih =>
    rw [canonical, canonicalItems_eq_map]
    apply Nat.succ_le_succ
    apply heightItems_le
    intro x hx
    obtain ⟨y, hy, rfl⟩ := List.mem_map.1 hx
    exact (ih y hy).trans (height_le_of_mem_items hy)
  | object members ih =>
    rw [canonical]
    apply Nat.succ_le_succ
    apply heightMembers_le
    intro e he
    rcases mem_canonicalMembers he with hdone | ⟨m, hm, rfl⟩
    · cases hdone
    · exact (ih m hm).trans (height_le_of_mem_members hm)
  | _ => exact le_rfl

end Json

/-! ## Portable rows -/

/-- the cells of a row are free values that nest no deeper than the reader of payloads follows -/
def Portable (row : JsonRow) : Prop :=
  ∀ e ∈ row.entries, e.2.canonical = e.2 ∧ e.2.height ≤ 124

theorem portable_of_row? {room : Nat} (hroom : room ≤ 124) {t : Json.Tree} {row : JsonRow} (h : t.row? room = some row) :
    Portable row := by
  obtain ⟨j, _, hread⟩ := Option.bind_eq_some_iff.1 h
  cases j with
  | object members =>
    obtain ⟨hheight, hrow⟩ := Option.ite_none_right_eq_some.1 hread
    cases hrow
    intro e he
    rcases Json.mem_canonicalMembers he with hdone | ⟨m, hm, rfl⟩
    · cases hdone
    · have hdeep : m.2.canonical.height ≤ room := by
        calc m.2.canonical.height
            ≤ m.2.height := m.2.height_canonical_le
          _ ≤ Json.heightMembers members := Json.height_le_of_mem_members hm
          _ ≤ room := hheight
      exact ⟨m.2.canonical_canonical, hdeep.trans hroom⟩
  | _ => cases hread

/-- leaving cells out changes nothing for the others -/
theorem Portable.filterKeys {row : JsonRow} (h : Portable row) (keep : String → Bool) : Portable (row.filterKeys keep) :=
  fun e he => h e (List.mem_of_mem_filter he)

/-- **Portable rows are read back from their payload** -/
theorem ResultSet.readsBack_of_portable {r : ResultSet} (h : ∀ row ∈ r.rows, Portable row) : r.document.ReadsBack := by
  apply readsBack_document
  intro row hrow e he
  obtain ⟨hfree, hheight⟩ := h row hrow e he
  exact ⟨hfree, hheight, e.2.floatsReadBack⟩

theorem portable_of_ofTree? {room : Nat} (hroom : room ≤ 124) {t : Json.Tree} {d : ViewData}
    (h : ViewData.ofTree? room t = some d) : ∀ row ∈ d.rows, Portable row := by
  unfold ViewData.ofTree? at h
  obtain ⟨fields, _, h⟩ := Option.bind_eq_some_iff.1 h
  split at h
  · -- whatever the schema is, the rows come last
    simp only at h
    split at h
    all_goals
      obtain ⟨schema, _, h⟩ := Option.bind_eq_some_iff.1 h
      obtain ⟨name, _, h⟩ := Option.bind_eq_some_iff.1 h
      obtain ⟨items, _, h⟩ := Option.bind_eq_some_iff.1 h
      obtain ⟨columns, _, h⟩ := Option.bind_eq_some_iff.1 h
      split at h
      · obtain ⟨trees, _, h⟩ := Option.bind_eq_some_iff.1 h
        obtain ⟨rows, hrows, h⟩ := Option.bind_eq_some_iff.1 h
        cases h
        intro row hrow
        obtain ⟨tree, _, hread⟩ := exists_of_mem_mapM hrows hrow
        exact portable_of_row? hroom hread
      · cases h
        exact fun row hrow => by cases hrow
  · cases h

/-- **Every row of a dataset text is portable** -/
theorem portable_of_readDataset? {text : String} {views : List ViewData} (h : readDataset? text = some views) :
    ∀ d ∈ views, ∀ row ∈ d.rows, Portable row := by
  obtain ⟨tree, _, h⟩ := Option.bind_eq_some_iff.1 h
  obtain ⟨fields, _, h⟩ := Option.bind_eq_some_iff.1 h
  split at h
  · obtain ⟨items, _, hviews⟩ := Option.bind_eq_some_iff.1 h
    intro d hd
    obtain ⟨item, _, hread⟩ := exists_of_mem_mapM hviews hd
    exact portable_of_ofTree? (by decide) hread
  · cases h

/-! ## Engines that serve a dataset -/

namespace View

theorem length_rows_ofData (d : ViewData) : (ofData d).rows.length = d.rows.length := by
  rw [(rows_ofData_perm d).length_eq, List.length_map, List.length_zipIdx]

theorem mem_rows_ofData {d : ViewData} {row : JsonRow} (h : row ∈ (ofData d).rows.map Prod.snd) : row ∈ d.rows := by
  rw [← rowsIn_full] at h
  exact (rowsIn_full_perm d).mem_iff.1 h

end View

namespace Engine

theorem calm_ofDataset (ds : List ViewData) : (ofDataset ds).faults = [] ∧ (ofDataset ds).authFailure = none := by
  induction ds using List.reverseRecOn with
  | nil => exact ⟨rfl, rfl⟩
  | append_singleton ds d ih =>
    rw [ofDataset, List.foldl_append]
    exact ih

theorem mem_views_ofDataset {ds : List ViewData} {v : View} (h : v ∈ (ofDataset ds).views) : ∃ d ∈ ds, v = .ofData d := by
  rw [views_ofDataset] at h
  obtain ⟨d, hd, rfl⟩ := List.mem_map.1 h
  exact ⟨d, List.pwFilter_subset _ hd, rfl⟩

end Engine

end PartitionedScan
