/-
What a sequence of insertions leaves in an engine.

An insertion replaces the view with its own name and schema and goes to the end. So the views that an engine holds are
the insertions that no later one replaces (`ViewData.standing`), in the order in which they were made. A reference that
names a schema is met by one of them at most; one that names no schema is met by every view of its name, and the first
of these is served.
Main results:
- `Engine.views_ofDataset`: the views held after a run of insertions;
- `Engine.serves_last_written`: addresses are held once, and which insertion each of them is served from.
-/
import PartitionedScan.Engine.Basic
import Mathlib.Data.List.Induction
import Mathlib.Data.List.Pairwise
import Mathlib.Tactic

namespace PartitionedScan

/-! ## Insertions that stand -/

namespace ViewData

/-- the name and the schema that an insertion is filed under -/
def address (d : ViewData) : ViewName := ⟨d.schema, d.name⟩

/-- the insertions that no later one replaces, in the order in which they were made -/
def standing (ds : List ViewData) : List ViewData :=
  ds.pwFilter fun c d => c.address ≠ d.address

theorem exists_standing {d : ViewData} {ds : List ViewData} (h : d ∈ ds) : ∃ c ∈ standing ds, c.address = d.address := by
  by_contra hnone
  push Not at hnone
  have hall : ∀ c ∈ ds, d.address ≠ c.address := by
    apply (List.forall_mem_pwFilter (fun {x y z} hxz => ?_) d ds).1 fun c hc => (hnone c hc).symm
    by_cases hxy : x.address = y.address
    · exact .inr (hxy ▸ hxz)
    · exact .inl hxy
  exact hall d h rfl

theorem standing_cons (d : ViewData) (ds : List ViewData) :
    standing (d :: ds) = if d.address ∈ ds.map address then standing ds else d :: standing ds := by
  by_cases h : d.address ∈ ds.map address
  · rw [if_pos h]
    obtain ⟨c, hc, haddress⟩ := List.mem_map.1 h
    obtain ⟨b, hb, hbc⟩ := exists_standing hc
    exact List.pwFilter_cons_of_neg fun hall => hall b hb (haddress.symm.trans hbc.symm)
  · rw [if_neg h]
    exact List.pwFilter_cons_of_pos fun b hb heq =>
      h (List.mem_map.2 ⟨b, List.pwFilter_subset _ hb, heq.symm⟩)

/-- later insertions strike out the earlier ones at their addresses -/
theorem standing_append (before after : List ViewData) :
    standing (before ++ after) =
      (standing before).filter (fun c => c.address ∉ after.map address) ++ standing after := by
  induction before with
  | nil => rfl
  | cons d before ih =>
    rw [List.cons_append, standing_cons, standing_cons, ih, List.map_append]
    by_cases hafter : d.address ∈ after.map address
    · rw [if_pos (List.mem_append_right _ hafter)]
      split_ifs with hbefore
      · rfl
      · rw [List.filter_cons_of_neg (by simpa using hafter)]
    · by_cases hbefore : d.address ∈ before.map address
      · rw [if_pos (List.mem_append_left _ hbefore), if_pos hbefore]
      · rw [if_neg (by simp [List.mem_append, hbefore, hafter]), if_neg hbefore,
          List.filter_cons_of_pos (by simpa using hafter), List.cons_append]

/-- the last insertion at an address stands, after what is left of the earlier ones -/
theorem standing_split {before after : List ViewData} {d : ViewData} (h : d.address ∉ after.map address) :
    standing (before ++ d :: after) =
      (standing before).filter (fun c => c.address ∉ (d :: after).map address) ++ d :: standing after := by
  rw [standing_append, standing_cons, if_neg h]

end ViewData

open ViewData

/-! ## Views as written -/

namespace View

/-- the name and the schema that a view answers to -/
def address (v : View) : ViewName := ⟨v.schema, v.name⟩

@[simp] theorem address_ofData (d : ViewData) : (ofData d).address = d.address := rfl

theorem answersTo_qualified (v : View) {reference : ViewName} (h : reference.schema ≠ none) :
    v.answersTo reference = true ↔ v.address = reference := by
  rcases reference with ⟨_ | schema, name⟩
  · exact absurd rfl h
  · simp [answersTo, address, and_comm]

theorem answersTo_unqualified (v : View) (name : String) : v.answersTo ⟨none, name⟩ = (v.name == name) := by
  simp [answersTo]

/-- the rows of a view are those written, under the ids of their places -/
theorem rows_ofData_perm (d : ViewData) :
    (ofData d).rows.Perm (d.rows.zipIdx.map fun (row, place) => (rowId d.schema d.name place, row)) :=
  List.mergeSort_perm _ _

theorem rowsIn_full (v : View) : v.rowsIn .full = v.rows.map Prod.snd := by
  have hall : v.rows.filter (fun r => RowRange.full.contains r.1) = v.rows := by
    apply List.filter_eq_self.2
    intro r _
    simp [RowRange.contains, RowRange.full, UInt64.le_iff_toNat_le]
    have := r.1.toNat_lt
    omega
  rw [rowsIn, hall]

theorem rowsIn_full_perm (d : ViewData) : ((ofData d).rowsIn .full).Perm d.rows := by
  rw [rowsIn_full]
  apply ((rows_ofData_perm d).map Prod.snd).trans
  rw [List.map_map]
  exact List.Perm.of_eq (List.zipIdx_map_fst 0 d.rows)

theorem ids_ofData_perm (d : ViewData) :
    ((ofData d).rows.map Prod.fst).Perm ((List.range d.rows.length).map (rowId d.schema d.name)) := by
  apply ((rows_ofData_perm d).map Prod.fst).trans
  rw [List.map_map, List.range_eq_range', ← List.zipIdx_map_snd 0 d.rows, List.map_map]
  rfl

end View

namespace Engine

/-! ## Views held -/

theorem views_insertView (e : Engine) (v : View) :
    (e.insertView v).views = e.views.filter (fun w => w.address ≠ v.address) ++ [v] := by
  have hsame (w : View) : (!(w.name == v.name && w.schema == v.schema)) = decide (w.address ≠ v.address) := by
    by_cases hname : w.name = v.name <;> by_cases hschema : w.schema = v.schema <;>
      simp [View.address, hname, hschema]
  simp only [insertView, hsame]

/-- **After a run of insertions an engine holds those that stand**, in the order in which they were made -/
theorem views_ofDataset (ds : List ViewData) : (ofDataset ds).views = (standing ds).map .ofData := by
  induction ds using List.reverseRecOn with
  | nil => rfl
  | append_singleton ds d ih =>
    have hrun : ofDataset (ds ++ [d]) = (ofDataset ds).insertView (.ofData d) := by
      rw [ofDataset, List.foldl_append]
      rfl
    have hfilter : ((standing ds).map View.ofData).filter (fun w => w.address ≠ (View.ofData d).address) =
        ((standing ds).filter fun c => c.address ∉ [d].map address).map View.ofData := by
      rw [List.filter_map]
      apply congrArg (List.map View.ofData)
      apply List.filter_congr
      intro c _
      by_cases h : c.address = d.address <;> simp [h]
    calc (ofDataset (ds ++ [d])).views
        = (ofDataset ds).views.filter (fun w => w.address ≠ (View.ofData d).address) ++ [.ofData d] := by
          rw [hrun, views_insertView]
      _ = (standing (ds ++ [d])).map .ofData := by
          rw [ih, hfilter, standing_append, List.map_append]
          rfl

theorem nodup_addresses (ds : List ViewData) : ((ofDataset ds).views.map View.address).Nodup := by
  rw [views_ofDataset, List.map_map]
  exact List.pairwise_map.2 (List.pairwise_pwFilter ds)

/-! ## Views served -/

variable {before after : List ViewData} {d : ViewData}

theorem findView_ofDataset (ds : List ViewData) (reference : ViewName) :
    (ofDataset ds).findView reference =
      ((standing ds).find? fun d => (View.ofData d).answersTo reference).map .ofData := by
  rw [findView, views_ofDataset, List.find?_map]
  rfl

theorem findView_qualified (hlast : d.address ∉ after.map ViewData.address) (hschema : d.schema ≠ none) :
    (ofDataset (before ++ d :: after)).findView d.address = some (.ofData d) := by
  rw [findView_ofDataset, standing_split hlast, List.find?_append]
  have hbefore : ((standing before).filter fun c => c.address ∉ (d :: after).map ViewData.address).find?
      (fun c => (View.ofData c).answersTo d.address) = none := by
    apply List.find?_eq_none.2
    intro c hc hanswers
    rw [View.answersTo_qualified _ hschema, View.address_ofData] at hanswers
    have hfresh : c.address ∉ (d :: after).map ViewData.address := by
      simpa using (List.mem_filter.1 hc).2
    exact hfresh (by simp [hanswers])
  have hself : (View.ofData d).answersTo d.address = true := (View.answersTo_qualified _ hschema).2 rfl
  rw [hbefore, Option.none_or]
  simp only [List.find?_cons, hself, Option.map_some]

theorem findView_unqualified (ds : List ViewData) (name : String) :
    (ofDataset ds).findView ⟨none, name⟩ = ((standing ds).find? fun d => d.name == name).map .ofData := by
  simp only [findView_ofDataset, View.answersTo_unqualified]
  rfl

/-- every earlier insertion of its name is struck out by an insertion or by a later one -/
def Foremost (before : List ViewData) (d : ViewData) (after : List ViewData) : Prop :=
  ∀ c ∈ before, c.name = d.name → c.address ∈ (d :: after).map ViewData.address

theorem foremost_iff : Foremost before d after ↔
    ((standing before).filter fun c => c.address ∉ (d :: after).map ViewData.address).find? (fun c => c.name == d.name) =
      none := by
  rw [List.find?_eq_none]
  constructor
  · intro h c hc hname
    obtain ⟨hstands, hfresh⟩ := List.mem_filter.1 hc
    exact of_decide_eq_true hfresh (h c (List.pwFilter_subset _ hstands) (eq_of_beq hname))
  · intro h c hc hname
    by_contra hfresh
    obtain ⟨b, hb, haddress⟩ := exists_standing hc
    have hsame : b.name = c.name := congrArg ViewName.name haddress
    exact h b (List.mem_filter.2 ⟨hb, decide_eq_true (haddress ▸ hfresh)⟩) (by rw [hsame, hname, beq_self_eq_true])

/-- the schema, the row ids and the answers under a reference are those of an insertion -/
structure Serves (e : Engine) (reference : ViewName) (d : ViewData) : Prop where
  fields : e.viewSchema reference = some ⟨d.fields⟩
  ids : (e.rowIds reference).Perm ((List.range d.rows.length).map (View.rowId d.schema d.name))
  ordered : (e.rowIds reference).Pairwise (· ≤ ·)
  answers : ∀ q : Query, q.source = (Query.fromView reference).source → ∀ range, e.execute q range =
    q.steps.foldlM (ResultSet.step q.params) ⟨d.fields.map Field.name, (View.ofData d).rowsIn range⟩
  rows : ((View.ofData d).rowsIn .full).Perm d.rows

theorem sourceView_of_source {q : Query} {reference : ViewName} (h : q.source = (Query.fromView reference).source) :
    q.sourceView = some reference := by
  rw [Query.sourceView, h]
  rcases reference with ⟨_ | schema, name⟩ <;> rfl

theorem serves_of_findView {e : Engine} {reference : ViewName} {d : ViewData}
    (h : e.findView reference = some (.ofData d)) : e.Serves reference d where
  fields := by
    rw [viewSchema, h]
    rfl
  ids := by
    rw [rowIds, h]
    exact View.ids_ofData_perm d
  ordered := by
    rw [rowIds, h]
    exact List.pairwise_map.2 (View.ofData d).ordered
  answers := by
    intro q hq range
    rw [execute, sourceView_of_source hq]
    simp only [h]
    rfl
  rows := View.rowsIn_full_perm d

/-- **Addresses are held once, and an address with a schema is served as last written.** A name without a schema is served
from its foremost insertion: the last one at its address if every earlier one of that name has been struck out, else the
first one of that name that stands. -/
theorem serves_last_written (hlast : d.address ∉ after.map ViewData.address) :
    ((ofDataset (before ++ d :: after)).views.map View.address).Nodup ∧
    (d.schema ≠ none → (ofDataset (before ++ d :: after)).Serves d.address d) ∧
    (Foremost before d after → (ofDataset (before ++ d :: after)).Serves ⟨none, d.name⟩ d) ∧
    (¬ Foremost before d after → ∃ c ∈ before, c.address ∉ (d :: after).map ViewData.address ∧
      (standing (before ++ d :: after)).find? (fun c => c.name == d.name) = some c ∧
      (ofDataset (before ++ d :: after)).Serves ⟨none, d.name⟩ c) := by
  refine ⟨nodup_addresses _, ?_, ?_, ?_⟩
  · intro hschema
    exact serves_of_findView (findView_qualified hlast hschema)
  · intro hforemost
    apply serves_of_findView
    rw [findView_unqualified, standing_split hlast, List.find?_append, foremost_iff.1 hforemost, Option.none_or]
    simp only [List.find?_cons, beq_self_eq_true, Option.map_some]
  · intro hbehind
    rw [foremost_iff, ← ne_eq, Option.ne_none_iff_exists'] at hbehind
    obtain ⟨c, hc⟩ := hbehind
    obtain ⟨hstands, hfresh⟩ := List.mem_filter.1 (List.mem_of_find?_eq_some hc)
    have hfirst : (standing (before ++ d :: after)).find? (fun c => c.name == d.name) = some c := by
      rw [standing_split hlast, List.find?_append, hc, Option.some_or]
    refine ⟨c, List.pwFilter_subset _ hstands, of_decide_eq_true hfresh, hfirst, serves_of_findView ?_⟩
    rw [findView_unqualified, hfirst, Option.map_some]

/-- a view of a schema, written again after one of its name without a schema, leaves both served as last written -/
theorem serves_last_written_rewritten :
    (ofDataset [⟨some "s", "t", [], []⟩, ⟨none, "t", [], []⟩, ⟨some "s", "t", [⟨"a", .long, true⟩], []⟩]).Serves
      ⟨some "s", "t"⟩ ⟨some "s", "t", [⟨"a", .long, true⟩], []⟩ ∧
    (ofDataset [⟨some "s", "t", [], []⟩, ⟨none, "t", [], []⟩, ⟨some "s", "t", [⟨"a", .long, true⟩], []⟩]).Serves
      ⟨none, "t"⟩ ⟨none, "t", [], []⟩ := by
  constructor
  · exact (@serves_last_written [⟨some "s", "t", [], []⟩, ⟨none, "t", [], []⟩] [] ⟨some "s", "t", [⟨"a", .long, true⟩], []⟩
      (by decide)).2.1 (by decide)
  · exact (@serves_last_written [⟨some "s", "t", [], []⟩] [⟨some "s", "t", [⟨"a", .long, true⟩], []⟩] ⟨none, "t", [], []⟩
      (by decide)).2.2.1 (by simp [Foremost, ViewData.address])

/-- a name without a schema is not always served as last written: a view of that name in a schema may stand before it -/
theorem shadowed_by_schema :
    ¬ ∀ (before : List ViewData) (d : ViewData) (after : List ViewData), d.address ∉ after.map ViewData.address →
      (ofDataset (before ++ d :: after)).viewSchema d.address = some ⟨d.fields⟩ := by
  intro h
  have hserved := h [⟨some "s", "t", [⟨"a", .long, true⟩], []⟩] ⟨none, "t", [⟨"b", .long, true⟩], []⟩ [] (by decide)
  revert hserved
  decide

end Engine

end PartitionedScan
