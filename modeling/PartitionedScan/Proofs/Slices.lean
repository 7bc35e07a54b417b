/-
Running a query range by range.

Without a limit a query treats every row on its own: a run over all rows that succeeds gives a partial map of rows, and
a run over some of those rows gives the image of just these (`RowWise`). A view keeps its rows by id, so the rows in tiles
of ids, one tile after another, are the rows in all of them (`View.rowsIn_tiles`); rows that share an id share a tile.
Main results:
- `Engine.slices_of_tiles`: the results over tiles, one after another, are the result over all ids;
- `Engine.answer_bindRange`: a fetch of a bound range is answered by the query run over that range.
-/
import PartitionedScan.Proofs.Coverage
import PartitionedScan.Proofs.Execution

namespace PartitionedScan

/-! ## Rows on their own -/

/-- steps that map some rows to rows, the same way whichever of them they are run on -/
def RowWise (params : SortedMap Value) (steps : List Operator) (r result : ResultSet) : Prop :=
  ∃ image : JsonRow → Option JsonRow, result.rows = r.rows.filterMap image ∧
    ∀ rows ⊆ r.rows, steps.foldlM (ResultSet.step params) { r with rows } =
      .ok { result with rows := rows.filterMap image }

namespace ResultSet

variable {params : SortedMap Value}

theorem holds_of_keepWhere {o : Operator} {rows kept : List JsonRow} (h : keepWhere params o rows = .ok kept) :
    ∀ row ∈ rows, ∃ b, o.holds ⟨params, row⟩ = .ok b := by
  induction rows generalizing kept with
  | nil => exact fun row hrow => by cases hrow
  | cons row rows ih =>
    rw [keepWhere] at h
    cases hb : o.holds ⟨params, row⟩ with
    | error e => rw [hb] at h; cases h
    | ok b =>
      cases hrest : keepWhere params o rows with
      | error e => rw [hb, hrest] at h; cases h
      | ok rest => exact List.forall_mem_cons.2 ⟨⟨b, hb⟩, ih hrest⟩

theorem step_rowWise {o : Operator} {r result : ResultSet} (hlimit : o.is "op" "limit" = false)
    (h : step params r o = .ok result) : RowWise params [o] r result := by
  unfold step at h
  split_ifs at h with hwhere hselect hlast
  · cases hc : o.children with
    | nil => rw [hc] at h; cases h
    | cons x xs =>
      rw [hc] at h
      cases hkept : keepWhere params x r.rows with
      | error e => simp only [hkept] at h; cases h
      | ok kept =>
        simp only [hkept] at h
        cases h
        choose! keep hkeep using holds_of_keepWhere hkept
        have hrun (rows : List JsonRow) (hrows : rows ⊆ r.rows) :
            keepWhere params x rows = .ok (rows.filterMap (Option.guard keep)) := by
          rw [keepWhere_eq_filter fun row hrow => hkeep row (hrows hrow), List.filterMap_eq_filter]
        refine ⟨Option.guard keep, ?_, ?_⟩
        · exact Except.ok.inj (hkept.symm.trans (hrun r.rows (List.Subset.refl _)))
        · intro rows hrows
          simp only [List.foldlM_cons, List.foldlM_nil, step, hwhere, if_true, hc, hrun rows hrows]
          rfl
  · cases hcolumns : o.selectedColumns with
    | error e => simp only [hcolumns] at h; cases h
    | ok columns =>
      simp only [hcolumns] at h
      cases h
      refine ⟨fun row => some (row.filterKeys columns.contains), ?_, ?_⟩
      · rw [List.filterMap_eq_map']
      · intro rows _
        simp only [List.foldlM_cons, List.foldlM_nil, step, hwhere, hselect, if_true, hcolumns, List.filterMap_eq_map']
        rfl
  · rw [hlimit] at hlast
    cases hlast

end ResultSet

theorem RowWise.cons {params : SortedMap Value} {o : Operator} {steps : List Operator} {r mid result : ResultSet}
    (h1 : RowWise params [o] r mid) (h2 : RowWise params steps mid result) : RowWise params (o :: steps) r result := by
  obtain ⟨f, hf, hfrun⟩ := h1
  obtain ⟨g, hg, hgrun⟩ := h2
  refine ⟨fun row => (f row).bind g, by rw [hg, hf, List.filterMap_filterMap], ?_⟩
  intro rows hrows
  have hstep := hfrun rows hrows
  simp only [List.foldlM_cons, List.foldlM_nil, bind_pure] at hstep
  have hsub : rows.filterMap f ⊆ mid.rows := hf ▸ List.filterMap_subset f hrows
  rw [List.foldlM_cons, hstep, ← List.filterMap_filterMap]
  exact hgrun _ hsub

/-- **Without a limit a query is row-wise**, if it succeeds -/
theorem rowWise_of_steps {params : SortedMap Value} {steps : List Operator}
    (hlimit : ∀ o ∈ steps, o.is "op" "limit" = false) {r result : ResultSet}
    (h : steps.foldlM (ResultSet.step params) r = .ok result) : RowWise params steps r result := by
  induction steps generalizing r with
  | nil =>
    cases h
    exact ⟨some, (List.filterMap_some).symm, fun rows _ => by rw [List.filterMap_some]; rfl⟩
  | cons o steps ih =>
    rw [List.forall_mem_cons] at hlimit
    rw [List.foldlM_cons] at h
    cases hmid : ResultSet.step params r o with
    | error e => rw [hmid] at h; cases h
    | ok mid =>
      rw [hmid] at h
      exact (ResultSet.step_rowWise hlimit.1 hmid).cons (ih hlimit.2 h)

/-! ## Rows by tiles -/

namespace View

theorem filter_append_filter {rows : List (UInt64 × JsonRow)} (ordered : rows.Pairwise fun a b => a.1 ≤ b.1)
    {lo mid hi : Nat} (h1 : lo ≤ mid) (h2 : mid ≤ hi) :
    rows.filter (fun r => decide (lo ≤ r.1.toNat ∧ r.1.toNat < mid)) ++
        rows.filter (fun r => decide (mid ≤ r.1.toNat ∧ r.1.toNat < hi)) =
      rows.filter fun r => decide (lo ≤ r.1.toNat ∧ r.1.toNat < hi) := by
  induction rows with
  | nil => rfl
  | cons r rows ih =>
    obtain ⟨hhead, htail⟩ := List.pairwise_cons.1 ordered
    have ih := ih htail
    by_cases hmid : r.1.toNat < mid
    · -- the row is in the first part if it is in any
      simp only [List.filter_cons, decide_eq_true_eq, show ¬ mid ≤ r.1.toNat by omega, false_and, if_false,
        show (lo ≤ r.1.toNat ∧ r.1.toNat < mid) ↔ lo ≤ r.1.toNat ∧ r.1.toNat < hi by omega]
      split_ifs
      · rw [List.cons_append, ih]
      · exact ih
    · -- all rows from here on are behind the first part
      have hnone (rest : List (UInt64 × JsonRow)) (hrest : ∀ s ∈ rest, r.1 ≤ s.1) :
          rest.filter (fun s => decide (lo ≤ s.1.toNat ∧ s.1.toNat < mid)) = [] := by
        rw [List.filter_eq_nil_iff]
        intro s hs
        have := UInt64.le_iff_toNat_le.1 (hrest s hs)
        simp only [decide_eq_true_eq]
        omega
      have hall : ∀ s ∈ r :: rows, r.1 ≤ s.1 := List.forall_mem_cons.2 ⟨UInt64.le_refl _, hhead⟩
      rw [hnone _ hhead, List.nil_append] at ih
      rw [hnone _ hall, List.nil_append, List.filter_cons, List.filter_cons, ih]
      simp only [decide_eq_true_eq, show (mid ≤ r.1.toNat ∧ r.1.toNat < hi) ↔ lo ≤ r.1.toNat ∧ r.1.toNat < hi by omega]

/-- the rows in tiles, one tile after another, are the rows in all of them -/
theorem filter_tiles {rows : List (UInt64 × JsonRow)} (ordered : rows.Pairwise fun a b => a.1 ≤ b.1) {lo hi : Nat}
    {tiles : List RowRange} (h : RowRange.Tiles lo hi tiles) :
    tiles.flatMap (fun t => rows.filter fun r => t.contains r.1) =
      rows.filter fun r => decide (lo ≤ r.1.toNat ∧ r.1.toNat < hi) := by
  induction tiles generalizing lo with
  | nil =>
    obtain rfl : lo = hi := h
    refine (List.filter_eq_nil_iff.2 fun r _ => ?_).symm
    simp only [decide_eq_true_eq]
    omega
  | cons t tiles ih =>
    obtain ⟨rfl, hle, hrest⟩ := h
    rw [List.flatMap_cons, ih hrest, ← filter_append_filter ordered (Nat.le_succ_of_le hle) hrest.le]
    simp only [RowRange.contains_eq]

/-- tiles of all ids give all rows -/
theorem rowsIn_tiles (v : View) {tiles : List RowRange} (h : RowRange.Tiles 0 Text.Integer.count64 tiles) :
    tiles.flatMap v.rowsIn = v.rowsIn .full := by
  have hrows := filter_tiles v.ordered h
  have hfull : v.rows.filter (fun r => decide (0 ≤ r.1.toNat ∧ r.1.toNat < Text.Integer.count64)) =
      v.rows.filter fun r => RowRange.full.contains r.1 := by
    simp only [RowRange.contains_eq]
    rfl
  rw [hfull] at hrows
  rw [rowsIn, ← hrows, List.map_flatMap]
  rfl

end View

/-! ## Results by tiles -/

namespace Query

theorem limit_free_of_hasLimit {q : Query} (h : q.hasLimit = false) : ∀ o ∈ q.steps, o.is "op" "limit" = false := by
  intro o ho
  rw [hasLimit, List.any_eq_false] at h
  refine Bool.eq_false_iff.2 (h o ?_)
  obtain ⟨a, ha, hao⟩ := List.mem_filterMap.1 ho
  exact List.mem_filterMap.2 ⟨a, List.mem_cons_of_mem _ ha, hao⟩

end Query

namespace Engine

variable {e : Engine} {q : Query} {result : ResultSet}

/-- the result of a query over a range, where it has one -/
def slice (e : Engine) (q : Query) (range : RowRange) : List JsonRow :=
  match e.execute q range with
  | .ok r => r.rows
  | .error _ => []

/-- **Slices make the whole.** When a query without a limit succeeds over all ids, it succeeds over every tile with the same
columns, and the rows over the tiles, one after another, are the rows over all ids. -/
theorem slices_of_tiles (h : e.execute q .full = .ok result) (hlimit : q.hasLimit = false) {tiles : List RowRange}
    (htiles : RowRange.Tiles 0 Text.Integer.count64 tiles) :
    (∀ t ∈ tiles, e.execute q t = .ok { result with rows := e.slice q t }) ∧
      tiles.flatMap (e.slice q) = result.rows := by
  obtain ⟨v, _, hexecute⟩ := e.view_of_execute h
  rw [hexecute] at h
  obtain ⟨image, hrows, hrun⟩ := rowWise_of_steps (Query.limit_free_of_hasLimit hlimit) h
  have hsub (t : RowRange) : v.rowsIn t ⊆ v.rowsIn .full := by
    refine List.map_subset _ fun r hr => ?_
    refine List.mem_filter.2 ⟨(List.mem_filter.1 hr).1, ?_⟩
    rw [RowRange.contains_eq]
    exact decide_eq_true ⟨Nat.zero_le _, r.1.toNat_lt⟩
  have hslice (t : RowRange) : e.execute q t = .ok { result with rows := (v.rowsIn t).filterMap image } := by
    rw [hexecute]
    exact hrun (v.rowsIn t) (hsub t)
  have himage : e.slice q = fun t => (v.rowsIn t).filterMap image := by
    funext t
    rw [slice, hslice]
  constructor
  · intro t _
    rw [hslice, himage]
  · rw [himage, hrows, ← v.rowsIn_tiles htiles, List.filterMap_flatMap]

end Engine

/-! ## Fetches -/

namespace Text.Integer

theorem readUInt64?_toString (id : UInt64) : readUInt64? (toString id.toNat).toList = some id := by
  have hlt : decide (id.toNat < count64) = true := decide_eq_true id.toNat_lt
  rw [toString_toList, readUInt64?, readBelow?, readUnsigned?_ofNat, Option.filter_some, if_pos hlt, Option.map_some,
    UInt64.ofNat_toNat]

end Text.Integer

namespace Query

theorem bindRange_eq (q : Query) (r : RowRange) :
    q.bindRange r = q.bindAll [(lowerParam, .string (toString r.lower.toNat)), (upperParam, .string (toString r.upper.toNat))] :=
  rfl

end Query

namespace Engine

theorem boundId_string {q : Query} {name : String} {id default : UInt64}
    (h : q.params.get? name = some (.string (toString id.toNat))) : boundId q name default = .ok id := by
  simp only [boundId, h, Text.Integer.readUInt64?_toString]

/-- a fetch asks for the range that was bound -/
theorem requestedRange_bindRange (q : Query) (r : RowRange) : requestedRange (q.bindRange r) = .ok r := by
  have hne : Query.lowerParam ≠ Query.upperParam := by decide
  have hlower : (q.bindRange r).params.get? Query.lowerParam = some (.string (toString r.lower.toNat)) :=
    (SortedMap.get?_insert_ne _ _ hne).trans (SortedMap.get?_insert_self _ _ _)
  have hupper : (q.bindRange r).params.get? Query.upperParam = some (.string (toString r.upper.toNat)) :=
    SortedMap.get?_insert_self _ _ _
  rw [requestedRange, boundId_string hlower, boundId_string hupper]
  rfl

/-- what an engine without faults answers a fetch -/
def answer (e : Engine) (q : Query) : Except RemoteError String :=
  (requestedRange q).bind fun range => (e.execute q range).map ResultSet.payload

theorem answer_bindRange (e : Engine) {q : Query} (hlower : ¬ q.Mentions Query.lowerParam)
    (hupper : ¬ q.Mentions Query.upperParam) (r : RowRange) :
    e.answer (q.bindRange r) = (e.execute q r).map ResultSet.payload := by
  rw [answer, requestedRange_bindRange, Query.bindRange_eq, Except.bind, execute_bindAll e (.of_not_mentions ?_)]
  intro b hb
  rcases List.mem_pair.1 hb with rfl | rfl
  · exact hlower
  · exact hupper

end Engine

end PartitionedScan
