/-
Which column a name means.

A name is looked at three times. A schema resolves it to the column that has it in full, else to the one named like its
last dotted segment; a reference to it counts its dots; and whoever reads the reference takes its last part
(`ReadsAs`, `reads_columnKey`). Schema and reference agree on names without dots. On a name with one or two dots they agree
unless a column has the name in full, and on a name with more dots only if one has (`Schema.Agrees`). Main results:
- `execute_addSelect`: what a select keeps;
- `Schema.decodeRow_select`: where schema and references agree, a select loses nothing that the projected schema decodes;
- `column_reads_field`: a reference reads the column that its name resolves to, just when the two agree.
-/
import PartitionedScan.Proofs.Execution
import PartitionedScan.Proofs.Filter.Evaluation
import PartitionedScan.Read.Row

namespace PartitionedScan

/-! ## Reading a reference -/

namespace SortedMap

variable {α : Type}

theorem get?_filterKeys (m : SortedMap α) {keep : String → Bool} {key : String} (h : keep key = true) :
    (m.filterKeys keep).get? key = m.get? key := by
  have hkept (e : String × α) : decide (keep e.1 = true ∧ (e.1 == key) = true) = (e.1 == key) := by
    by_cases he : e.1 = key
    · rw [he, h, beq_self_eq_true]
      rfl
    · rw [beq_false_of_ne he]
      exact decide_eq_false fun hboth => Bool.false_ne_true hboth.2
  rw [get?, get?, filterKeys, List.find?_filter]
  simp only [hkept]

end SortedMap

namespace Operator

theorem selectedColumns_select (attrs : List String) :
    (op "select" [.list (attrs.map fun attr => .ofOperator (column attr))]).selectedColumns = .ok (attrs.map columnKey) := by
  unfold selectedColumns
  simp only [op]
  induction attrs with
  | nil => rfl
  | cons attr attrs ih =>
    rw [List.map_cons, List.mapM_cons, ih]
    simp only [Arg.ofOperator, Arg.operator?, column_key]
    rfl

end Operator

theorem ResultSet.step_select (params : SortedMap Value) (r : ResultSet) (attrs : List String) :
    r.step params (.op "select" [.list (attrs.map fun attr => .ofOperator (.column attr))]) =
      .ok ⟨attrs.map columnKey, r.rows.map fun row => row.filterKeys (attrs.map columnKey).contains⟩ := by
  have hwhere : (Operator.op "select" [.list (attrs.map fun attr => .ofOperator (.column attr))]).is "op" "where" = false :=
    rfl
  have hselect : (Operator.op "select" [.list (attrs.map fun attr => .ofOperator (.column attr))]).is "op" "select" = true :=
    rfl
  rw [step, hwhere, if_neg Bool.false_ne_true, if_pos hselect, Operator.selectedColumns_select]
  rfl

theorem execute_addSelect (e : Engine) (q : Query) (attrs : List String) (range : RowRange) :
    e.execute (q.addSelect attrs) range = (e.execute q range).map fun r =>
      ⟨attrs.map columnKey, r.rows.map fun row => row.filterKeys (attrs.map columnKey).contains⟩ := by
  rw [Query.addSelect, e.execute_addOperator]
  cases e.execute q range with
  | error cause => rfl
  | ok r => exact ResultSet.step_select q.params r attrs

/-- whoever meets a reference to a name reads one key of a row: the evaluator as an operand, a select as a column to keep -/
structure ReadsAs (attr key : String) : Prop where
  operand : ∀ scope : Scope, (Operator.column attr).operand scope = .ok ((scope.row.get? key).getD .null)
  select : ∀ (e : Engine) (q : Query) (range : RowRange), e.execute (q.addSelect [attr]) range =
    (e.execute q range).map fun r => ⟨[key], r.rows.map fun row => row.filterKeys [key].contains⟩

theorem reads_columnKey (attr : String) : ReadsAs attr (columnKey attr) where
  operand _ := Operator.operand_column ⟨attr, .isDefined, []⟩
  select e q range := execute_addSelect e q [attr] range

theorem ReadsAs.unique {attr key key' : String} (h : ReadsAs attr key) (h' : ReadsAs attr key') : key = key' := by
  have hrow := (h.operand ⟨.empty, SortedMap.empty.insert key (.bool true)⟩).symm.trans (h'.operand _)
  rw [SortedMap.get?_insert_self, SortedMap.get?_insert] at hrow
  split_ifs at hrow with heq
  · exact heq.symm
  · cases hrow

/-! ## Resolving a name -/

namespace Schema

theorem shortName_eq_self_iff (name : String) : shortName name = name ↔ name.toList.count '.' = 0 := by
  rw [List.count_eq_zero, shortName, Text.lastSegment]
  cases h : Text.splitLast '.' name.toList with
  | none =>
    rw [String.ofList_toList]
    exact iff_of_true rfl (Text.splitLast_eq_none_iff.1 h)
  | some pieces =>
    obtain ⟨before, after⟩ := pieces
    obtain ⟨hname, hafter⟩ := Text.splitLast_eq_some h
    have hmem : '.' ∈ name.toList := by
      rw [hname]
      exact List.mem_append_right before List.mem_cons_self
    refine iff_of_false (fun heq => hafter ?_) (not_not_intro hmem)
    rw [← heq] at hmem
    simpa using hmem

/-- a name resolves to a column that has it in full or, if there is none, to one named like its last segment -/
theorem name_of_field? {s : Schema} {attr : String} {f : Field} (h : s.field? attr = some f) :
    f ∈ s.fields ∧ (f.name = attr ∨ attr ∉ s.fields.map Field.name ∧ f.name = shortName attr) := by
  have hfound {i : Nat} {name : String} (hi : s.fields.findIdx? (fun g => g.name == name) = some i)
      (hf : s.fields[i]? = some f) : f.name = name := by
    obtain ⟨hlt, hname, _⟩ := List.findIdx?_eq_some_iff_getElem.1 hi
    rw [List.getElem?_eq_getElem hlt, Option.some.injEq] at hf
    rw [← hf]
    exact beq_iff_eq.1 hname
  obtain ⟨i, hi, hf⟩ := Option.bind_eq_some_iff.1 h
  refine ⟨List.mem_of_getElem? hf, ?_⟩
  rw [indexOf?] at hi
  cases hfull : s.fields.findIdx? (fun g => g.name == attr) with
  | some j =>
    rw [hfull, Option.some_or, Option.some.injEq] at hi
    exact Or.inl (hfound (hi ▸ hfull) hf)
  | none =>
    rw [hfull, Option.none_or] at hi
    refine Or.inr ⟨fun hmem => ?_, hfound hi hf⟩
    obtain ⟨g, hg, hname⟩ := List.mem_map.1 hmem
    exact absurd (List.findIdx?_eq_none_iff.1 hfull g hg) (by simp [hname])

/-- the schema resolves the name to the column that a reference to it reads -/
def Agrees (s : Schema) (attr : String) : Prop :=
  attr.toList.count '.' = 0 ∨
    (attr.toList.count '.' = 1 ∨ attr.toList.count '.' = 2) ∧ attr ∉ s.fields.map Field.name ∨
    3 ≤ attr.toList.count '.' ∧ attr ∈ s.fields.map Field.name

instance (s : Schema) (attr : String) : Decidable (s.Agrees attr) :=
  inferInstanceAs (Decidable (_ ∨ _ ∨ _))

theorem columnKey_eq_name_iff {s : Schema} {attr : String} {f : Field} (h : s.field? attr = some f) :
    columnKey attr = f.name ↔ s.Agrees attr := by
  obtain ⟨hmem, hname⟩ := name_of_field? h
  have hdots := shortName_eq_self_iff attr
  unfold columnKey Agrees
  rcases hname with hname | ⟨hnone, hname⟩
  · -- the column has the name in full, so a reference must not shorten it
    have hfull : attr ∈ s.fields.map Field.name := List.mem_map.2 ⟨f, hmem, hname⟩
    rw [hname]
    split_ifs with hshort
    · rw [hdots]
      constructor
      · exact Or.inl
      · rintro (hzero | ⟨_, hnot⟩ | ⟨hmany, _⟩)
        · exact hzero
        · exact absurd hfull hnot
        · omega
    · refine iff_of_true rfl ?_
      by_cases hzero : attr.toList.count '.' = 0
      · exact Or.inl hzero
      · exact Or.inr (Or.inr ⟨by omega, hfull⟩)
  · -- the column has the last segment, so a reference must shorten a name with dots
    rw [hname]
    split_ifs with hshort
    · exact iff_of_true rfl (Or.inr (Or.inl ⟨hshort, hnone⟩))
    · rw [eq_comm, hdots]
      constructor
      · exact Or.inl
      · rintro (hzero | ⟨hshort', _⟩ | ⟨_, hfull⟩)
        · exact hzero
        · exact absurd hshort' hshort
        · exact absurd hfull hnone

/-! ## Projections -/

theorem decodeRow_filterKeys {s : Schema} {keep : String → Bool} (h : ∀ f ∈ s.fields, keep f.name = true) (row : JsonRow) :
    s.decodeRow (row.filterKeys keep) = s.decodeRow row := by
  have hcells : s.fields.mapM (fun f => f.decode (((row.filterKeys keep).get? f.name).getD .null)) =
      s.fields.mapM fun f => f.decode ((row.get? f.name).getD .null) := by
    apply mapM_congr
    intro f hf
    rw [SortedMap.get?_filterKeys row (h f hf)]
  rw [decodeRow, decodeRow, hcells]

theorem fields_of_project? {s t : Schema} {attrs : List String} (h : s.project? attrs = some t) :
    ∀ f ∈ t.fields, ∃ attr ∈ attrs, s.field? attr = some f := by
  obtain ⟨fields, hfields, rfl⟩ := Option.map_eq_some_iff.1 h
  clear h
  induction attrs generalizing fields with
  | nil =>
    cases hfields
    exact fun f hf => by cases hf
  | cons attr attrs ih =>
    rw [List.mapM_cons, Option.bind_eq_bind, Option.bind_eq_some_iff] at hfields
    obtain ⟨g, hg, hrest⟩ := hfields
    rw [Option.bind_eq_bind, Option.bind_eq_some_iff] at hrest
    obtain ⟨rest, hrest, heq⟩ := hrest
    cases heq
    refine List.forall_mem_cons.2 ⟨⟨attr, List.mem_cons_self, hg⟩, fun f hf => ?_⟩
    obtain ⟨attr', hattr', hf⟩ := ih rest hrest f hf
    exact ⟨attr', List.mem_cons_of_mem _ hattr', hf⟩

/-- **A select loses nothing that the projected schema decodes**, where the schema agrees with the references -/
theorem decodeRow_select {s t : Schema} {attrs : List String} (h : s.project? attrs = some t)
    (hagree : ∀ attr ∈ attrs, s.Agrees attr) (row : JsonRow) :
    t.decodeRow (row.filterKeys (attrs.map columnKey).contains) = t.decodeRow row := by
  apply decodeRow_filterKeys
  intro f hf
  obtain ⟨attr, hattr, hfield⟩ := fields_of_project? h f hf
  rw [List.contains_iff_mem, ← (columnKey_eq_name_iff hfield).2 (hagree attr hattr)]
  exact List.mem_map_of_mem hattr

end Schema

/-! ## Leaves -/

namespace Leaf

/-- the literals of a leaf that a schema has nothing against are of the type of the column that its name resolves to -/
theorem accepts_of_refusal? {s : Schema} {l : Leaf} {f : Field} (h : l.refusal? (some s) = none)
    (hf : s.field? l.attr = some f) : ∀ v ∈ l.values, f.type.accepts v = true := by
  have hschema : l.schemaRefusal? s = none := by
    unfold refusal? at h
    split_ifs at h
    exact (Option.or_eq_none_iff.1 h).2
  rw [schemaRefusal?, hf] at hschema
  intro v hv
  have hfits := List.find?_eq_none.1 (Option.map_eq_none_iff.1 hschema) v hv
  simp only [Bool.not_eq_true', Bool.not_eq_false, Bool.and_eq_true] at hfits
  exact hfits.2

end Leaf

/-- a reference reads the column that its name resolves to, just when schema and reference agree on the name -/
theorem reads_name_iff {s : Schema} {attr : String} {f : Field} (h : s.field? attr = some f) :
    ReadsAs attr f.name ↔ s.Agrees attr := by
  rw [← Schema.columnKey_eq_name_iff h]
  constructor
  · exact (reads_columnKey attr).unique
  · intro hkey
    rw [← hkey]
    exact reads_columnKey attr

/-- **A reference reads the column that its name resolves to, just when schema and reference agree on the name.** Then the
literals of a leaf that compiles are of that column's type, the leaf compares them with that column's cell, and selecting
the name keeps that column only, as the projected schema decodes it. -/
theorem column_reads_field (s : Schema) (attr : String) (f : Field) (h : s.field? attr = some f) :
    (ReadsAs attr f.name ↔ s.Agrees attr) ∧
    (s.Agrees attr →
      (∀ policy comparator values c, (Filter.leaf ⟨attr, comparator, values⟩).compile (some s) policy = .ok c →
        (∀ v ∈ values, f.type.accepts v = true) ∧
        ∃ column literals, c.document.args = .ofOperator column :: literals ∧
          ∀ scope, column.operand scope = .ok ((scope.row.get? f.name).getD .null)) ∧
      s.project? [attr] = some ⟨[f]⟩ ∧
      ∀ (e : Engine) (q : Query) (range : RowRange) (r : ResultSet), e.execute q range = .ok r →
        ∃ r', e.execute (q.addSelect [attr]) range = .ok r' ∧ r'.columns = [f.name] ∧
          r'.rows.mapM (Schema.decodeRow ⟨[f]⟩) = r.rows.mapM (Schema.decodeRow ⟨[f]⟩)) := by
  refine ⟨reads_name_iff h, fun hagree => ?_⟩
  have hreads : ReadsAs attr f.name := (reads_name_iff h).2 hagree
  have hproject : s.project? [attr] = some ⟨[f]⟩ := by
    rw [Schema.project?, List.mapM_cons, h]
    rfl
  refine ⟨fun policy comparator values c hc => ?_, hproject, fun e q range r hr => ?_⟩
  · obtain ⟨r, hr, rfl⟩ := Filter.compile_eq_ok_iff.1 hc
    rw [Filter.compileFrom_leaf, Leaf.compile_eq_ok_iff] at hr
    obtain ⟨haccepted, rfl⟩ := hr
    exact ⟨Leaf.accepts_of_refusal? haccepted h, _, _, rfl, hreads.operand⟩
  · refine ⟨_, by rw [hreads.select, hr]; rfl, rfl, ?_⟩
    have hrows := Schema.decodeRow_select hproject (List.forall_mem_singleton.2 hagree)
    rw [List.map_singleton, (Schema.columnKey_eq_name_iff h).2 hagree] at hrows
    simp only [List.mapM_map, Function.comp_def, hrows]

theorem column_reads_field_qualified :
    ReadsAs "t.d" "d" ∧
      Schema.project? ⟨[⟨"x.d", .string, true⟩, ⟨"d", .long, true⟩]⟩ ["t.d"] = some ⟨[⟨"d", .long, true⟩]⟩ := by
  have h := column_reads_field ⟨[⟨"x.d", .string, true⟩, ⟨"d", .long, true⟩]⟩ "t.d" ⟨"d", .long, true⟩ (by decide)
  exact ⟨h.1.2 (by decide), (h.2 (by decide)).2.1⟩

/-- **They may disagree.** The column that has a name with one dot in full is not the one that the reference reads, and no
more is the column that a name with three dots resolves to by its last segment. -/
theorem column_reads_other :
    Schema.field? ⟨[⟨"x.d", .long, true⟩]⟩ "x.d" = some ⟨"x.d", .long, true⟩ ∧ ¬ ReadsAs "x.d" "x.d" ∧
      Schema.field? ⟨[⟨"d", .long, true⟩]⟩ "c.s.t.d" = some ⟨"d", .long, true⟩ ∧ ¬ ReadsAs "c.s.t.d" "d" := by
  refine ⟨by decide, fun h => ?_, by decide, fun h => ?_⟩
  · exact absurd (h.unique (reads_columnKey "x.d")) (by decide)
  · exact absurd (h.unique (reads_columnKey "c.s.t.d")) (by decide)

end PartitionedScan
