/-
Applying compiled filters to a query.

A compiled filter joins a query as one more `where`, and its literals join the parameters of the query. The new condition
reads its own literals, whatever was bound before (`holds_applied`); but a condition that is there already may name the same
placeholders, since every compilation numbers its own from 0 on, and then reads the literals bound last. `Query.Spares` says
that the conditions of a query keep their parameters, and `Query.Undisturbed` that they do through a run of applications.
Main results:
- `paramNames_document`: a compiled filter names the placeholders that it binds, and no others;
- `execute_applied`: one application filters what the query comes to with the literals bound;
- `undisturbed_of_free`: over a query without placeholders two filters go together just when the literals of one begin with
  those of the other;
- `apply_filters`: an undisturbed run keeps the rows on which all filters are true, and all their literals.
-/
import PartitionedScan.Proofs.Execution
import PartitionedScan.Proofs.Filter.Evaluation

namespace PartitionedScan

/-! ## Placeholders of a document -/

theorem Operator.paramNames_column (attr : String) : (column attr).paramNames = [] := by
  unfold column
  split <;> simp [paramNames, op, Arg.ofOperator, Arg.text, Arg.paramNames, Arg.paramNamesAll]

theorem Leaf.paramNames_placeholders (next : Nat) (values : List Value) :
    Arg.paramNamesAll (placeholders next values) = (List.range' next values.length).map placeholder := by
  induction values generalizing next with
  | nil => rfl
  | cons v values ih =>
    rw [placeholders, Arg.paramNamesAll, ih, List.length_cons, List.range'_succ]
    rfl

namespace Filter

variable {schema : Option Schema} {policy : FallbackPolicy}

mutual

theorem paramNames_of_compileFrom : ∀ (f : Filter) {negated : Bool} {next : Nat} {r : Compiled Operator},
    compileFrom schema policy negated next f = .ok r →
    r.document.paramNames = (List.range' next r.values.length).map placeholder
  | .leaf l, negated, next, r, h => by
    rw [compileFrom_leaf, Leaf.compile_eq_ok_iff] at h
    obtain ⟨_, rfl⟩ := h
    have hparam : ¬ (l.comparator.ns = "op" ∧ l.comparator.functionName = "param") := by
      cases l.comparator <;> decide
    have hcolumn := Operator.paramNames_column l.attr
    rw [Operator.paramNames] at hcolumn
    rw [Operator.paramNames, Arg.ofOperator, Leaf.document, Arg.paramNames, if_neg hparam, Arg.paramNamesAll, hcolumn,
      Leaf.paramNames_placeholders]
    rfl
  | .composite function children, negated, next, r, h => by
    obtain ⟨_, rs, hrs, _, rfl⟩ := compileFrom_composite h
    have hparam : ¬ ("op" = "op" ∧ function.functionName = "param") := by
      cases function <;> decide
    rw [Operator.paramNames, Arg.ofOperator, Operator.op, Arg.paramNames, if_neg hparam,
      paramNames_of_compileAll children hrs]
    rfl

theorem paramNames_of_compileAll : ∀ (xs : List Filter) {drop negated : Bool} {next : Nat} {rs : Compiled (List Arg)},
    compileAll schema policy drop negated next xs = .ok rs →
    Arg.paramNamesAll rs.document = (List.range' next rs.values.length).map placeholder
  | [], drop, negated, next, rs, h => by
    rw [compileAll_nil] at h
    cases h
    rfl
  | x :: xs, drop, negated, next, rs, h => by
    rcases compileAll_cons h with ⟨r, rest, hx, hrest, rfl⟩ | ⟨_, rest, _, _, hrest, rfl⟩
    · have hhead := paramNames_of_compileFrom x hx
      rw [Operator.paramNames] at hhead
      rw [Arg.paramNamesAll, hhead, paramNames_of_compileAll xs hrest, List.length_append, ← List.map_append,
        List.range'_append_1]
    · have htail := paramNames_of_compileAll xs hrest
      exact htail

end

/-- **A compiled filter names the placeholders that it binds**, in order, and no others -/
theorem paramNames_document {f : Filter} {c : Compilation} (h : f.compile schema policy = .ok c) :
    c.document.paramNames = c.bindings.map Prod.fst := by
  obtain ⟨r, hr, rfl⟩ := compile_eq_ok_iff.1 h
  rw [literalBindings_names]
  exact paramNames_of_compileFrom f hr

/-- an applied filter reads its own literals, whatever was bound before -/
theorem holds_applied {f : Filter} {c : Compilation} (h : f.compile schema policy = .ok c) (hd : c.dropped = [])
    (params : SortedMap Value) (row : JsonRow) :
    c.document.holds ⟨params.insertAll c.bindings, row⟩ = .ok (f.truth row == some true) := by
  obtain ⟨r, hr, rfl⟩ := compile_eq_ok_iff.1 h
  obtain ⟨t, ht, _, heq⟩ := evaluates_widened ⟨params.insertAll (literalBindings r.values), row⟩ hr
    (Bound.of_literals params r.values)
  rw [Operator.holds, ht, heq hd]
  rfl

end Filter

/-! ## One application -/

namespace ResultSet

/-- the rows on which all filters are true -/
def satisfying (r : ResultSet) (fs : List Filter) : ResultSet :=
  { r with rows := r.rows.filter fun row => fs.all fun f => f.truth row == some true }

theorem satisfying_nil (r : ResultSet) : r.satisfying [] = r := by
  simp [satisfying]

theorem satisfying_cons (r : ResultSet) (f : Filter) (fs : List Filter) :
    (r.satisfying [f]).satisfying fs = r.satisfying (f :: fs) := by
  simp only [satisfying, List.filter_filter, List.all_cons, List.all_nil, Bool.and_true]
  rw [List.filter_congr fun row _ => Bool.and_comm _ _]

end ResultSet

namespace Query

variable {q : Query} {c : Compilation}

theorem applyFilter_eq (q : Query) (c : Compilation) :
    q.applyFilter c = (q.bindAll c.bindings).addOperator (.op "where" [.ofOperator c.document]) :=
  foldl_bind (q.addWhere c.document) c.bindings

theorem params_applyFilter (q : Query) (c : Compilation) : (q.applyFilter c).params = q.params.insertAll c.bindings := by
  rw [applyFilter_eq]
  rfl

theorem get?_applied {schema : Option Schema} {policy : FallbackPolicy} {f : Filter}
    (hc : f.compile schema policy = .ok c) {b : String × Value} (hb : b ∈ c.bindings) :
    (q.applyFilter c).params.get? b.1 = some b.2 := by
  obtain ⟨r, _, rfl⟩ := Filter.compile_eq_ok_iff.1 hc
  rw [params_applyFilter]
  exact SortedMap.get?_insertAll_of_mem (literalBindings_nodup r.values) hb q.params

theorem mentions_applyFilter {name : String} :
    (q.applyFilter c).Mentions name ↔ q.Mentions name ∨ name ∈ c.document.paramNames := by
  have hconditions : (q.applyFilter c).conditions = q.conditions ++ [c.document] := by
    rw [applyFilter_eq, conditions, steps_addOperator, List.filterMap_append]
    rfl
  unfold Mentions
  simp only [hconditions, List.mem_append, List.mem_singleton, or_and_right, exists_or, exists_eq_left]

theorem mentions_applied_iff {schema : Option Schema} {policy : FallbackPolicy} {f : Filter}
    (hc : f.compile schema policy = .ok c) {name : String} :
    (q.applyFilter c).Mentions name ↔ q.Mentions name ∨ ∃ v, (name, v) ∈ c.bindings := by
  rw [mentions_applyFilter, Filter.paramNames_document hc]
  simp only [List.mem_map, Prod.exists, exists_and_right, exists_eq_right]

/-- a query that names no placeholder is spared by every compiled filter -/
theorem spares_of_free (hfree : ∀ n, ¬ q.Mentions (placeholder n)) (values : List Value) :
    q.Spares (literalBindings values) := by
  refine .of_not_mentions fun b hb => ?_
  obtain ⟨n, _, hn⟩ := mem_literalBindings.1 hb
  rw [hn]
  exact hfree n

end Query

namespace Engine

variable {e : Engine} {q : Query} {c : Compilation}

theorem execute_applyFilter {keep : JsonRow → Bool}
    (hkeep : ∀ row, c.document.holds ⟨q.params.insertAll c.bindings, row⟩ = .ok (keep row)) (range : RowRange) :
    e.execute (q.applyFilter c) range =
      (e.execute (q.bindAll c.bindings) range).map fun r => { r with rows := r.rows.filter keep } := by
  have hwhere : (Operator.op "where" [.ofOperator c.document]).is "op" "where" = true := rfl
  have hchildren : (Operator.op "where" [.ofOperator c.document]).children = [c.document] := rfl
  rw [Query.applyFilter_eq, execute_addOperator]
  cases e.execute (q.bindAll c.bindings) range with
  | error cause => rfl
  | ok r =>
    simp only [Except.bind, ResultSet.step, hwhere, if_true, hchildren]
    rw [show (q.bindAll c.bindings).params = q.params.insertAll c.bindings from rfl,
      ResultSet.keepWhere_eq_filter fun row _ => hkeep row]
    rfl

/-- **One application filters what the query comes to with the literals bound** -/
theorem execute_applied {schema : Option Schema} {policy : FallbackPolicy} {f : Filter}
    (hc : f.compile schema policy = .ok c) (hd : c.dropped = []) (range : RowRange) :
    e.execute (q.applyFilter c) range = (e.execute (q.bindAll c.bindings) range).map fun r => r.satisfying [f] := by
  rw [execute_applyFilter fun row => Filter.holds_applied hc hd q.params row]
  simp only [ResultSet.satisfying, List.all_cons, List.all_nil, Bool.and_true]

end Engine

/-! ## Runs of applications -/

/-- of two lists one begins with the other if they have the same items wherever both have one -/
theorem prefix_or_prefix_iff {α : Type} {xs ys : List α} :
    xs <+: ys ∨ ys <+: xs ↔ ∀ (i : Nat) (x y : α), xs[i]? = some x → ys[i]? = some y → x = y := by
  induction xs generalizing ys with
  | nil => simp
  | cons x xs ih =>
    cases ys with
    | nil => simp
    | cons y ys =>
      rw [List.cons_prefix_cons, List.cons_prefix_cons, eq_comm (a := y), ← and_or_left, ih]
      constructor
      · rintro ⟨rfl, hrest⟩ i v w hv hw
        cases i with
        | zero =>
          cases hv
          cases hw
          rfl
        | succ i => exact hrest i v w hv hw
      · intro h
        exact ⟨h 0 x y rfl rfl, fun i v w hv hw => h (i + 1) v w hv hw⟩

namespace Query

variable {q : Query}

/-- applies compiled filters one after another -/
def applyFilters (q : Query) (cs : List Compilation) : Query :=
  cs.foldl applyFilter q

/-- every application spares the conditions that are there before it -/
def Undisturbed (q : Query) : List Compilation → Prop
  | [] => True
  | c :: cs => q.Spares c.bindings ∧ (q.applyFilter c).Undisturbed cs

instance decidableUndisturbed : ∀ (q : Query) (cs : List Compilation), Decidable (q.Undisturbed cs)
  | _, [] => inferInstanceAs (Decidable True)
  | q, c :: cs =>
    have := decidableUndisturbed (q.applyFilter c) cs
    inferInstanceAs (Decidable (_ ∧ _))

/-- parameters that a condition names keep their values through an undisturbed run -/
theorem Undisturbed.get?_params {cs : List Compilation} (h : q.Undisturbed cs) {name : String} (hname : q.Mentions name) :
    (q.applyFilters cs).params.get? name = q.params.get? name := by
  induction cs generalizing q with
  | nil => rfl
  | cons c cs ih =>
    obtain ⟨hspares, hrest⟩ := h
    have hfirst : (q.applyFilter c).params.get? name = q.params.get? name := by
      rw [params_applyFilter]
      apply SortedMap.get?_insertAll_of_same
      rintro b hb rfl
      exact hspares b hb hname
    exact (ih hrest (mentions_applyFilter.2 (Or.inl hname))).trans hfirst

theorem get?_applyFilters {fs : List (Filter × Compilation)}
    (hcompiled : ∀ x ∈ fs, ∃ schema, x.1.compile schema .strict = .ok x.2) (h : q.Undisturbed (fs.map Prod.snd)) :
    ∀ x ∈ fs, ∀ b ∈ x.2.bindings, (q.applyFilters (fs.map Prod.snd)).params.get? b.1 = some b.2 := by
  induction fs generalizing q with
  | nil => exact fun x hx => by cases hx
  | cons x fs ih =>
    rw [List.forall_mem_cons] at hcompiled ⊢
    obtain ⟨⟨schema, hx⟩, hfs⟩ := hcompiled
    obtain ⟨_, hrest⟩ := h
    refine ⟨fun b hb => ?_, ih hfs hrest⟩
    have hmentions : (q.applyFilter x.2).Mentions b.1 := (mentions_applied_iff hx).2 (Or.inr ⟨b.2, hb⟩)
    exact (hrest.get?_params hmentions).trans (get?_applied hx hb)

variable {schema : Option Schema} {policy : FallbackPolicy} {f : Filter} {c d : Compilation}

/-- a filter may follow another one just when the literals of one begin with those of the other, if the query named no
placeholder before -/
theorem spares_applyFilter_iff (hc : f.compile schema policy = .ok c) (values : List Value)
    (hfree : ∀ n, ¬ q.Mentions (placeholder n)) : (q.applyFilter c).Spares (literalBindings values) ↔
      values <+: c.bindings.map Prod.snd ∨ c.bindings.map Prod.snd <+: values := by
  obtain ⟨r, _, hr⟩ := Filter.compile_eq_ok_iff.1 hc
  have hbindings : c.bindings = literalBindings r.values := by rw [hr]
  have hmentions {i : Nat} : (q.applyFilter c).Mentions (placeholder i) ↔ ∃ v, r.values[i]? = some v := by
    simp only [mentions_applied_iff hc, hfree i, hbindings, placeholder_mem_literalBindings, false_or]
  have hget {i : Nat} {v : Value} (hv : r.values[i]? = some v) :
      (q.applyFilter c).params.get? (placeholder i) = some v :=
    get?_applied hc (b := (placeholder i, v)) (hbindings ▸ placeholder_mem_literalBindings.2 hv)
  rw [hbindings, literalBindings_literals, prefix_or_prefix_iff]
  constructor
  · intro hspares i w v hw hv
    have hkept := hspares (placeholder i, w) (placeholder_mem_literalBindings.2 hw) (hmentions.2 ⟨v, hv⟩)
    exact Option.some.inj (hkept.symm.trans (hget hv))
  · intro hsame b hb hname
    obtain ⟨i, hi, hb⟩ := mem_literalBindings.1 hb
    rw [hb] at hname ⊢
    obtain ⟨v, hv⟩ := hmentions.1 hname
    rw [hget hv, hsame i b.2 v hi hv]

/-- **Over a query that names no placeholder** one filter disturbs nothing, and two do not just when the literals of one
begin with those of the other -/
theorem undisturbed_of_free {schema' : Option Schema} {policy' : FallbackPolicy} {g : Filter}
    (hc : f.compile schema policy = .ok c) (hd : g.compile schema' policy' = .ok d)
    (hfree : ∀ n, ¬ q.Mentions (placeholder n)) :
    q.Undisturbed [c] ∧ (q.Undisturbed [c, d] ↔
      d.bindings.map Prod.snd <+: c.bindings.map Prod.snd ∨ c.bindings.map Prod.snd <+: d.bindings.map Prod.snd) := by
  obtain ⟨r, _, rfl⟩ := Filter.compile_eq_ok_iff.1 hc
  obtain ⟨s, _, rfl⟩ := Filter.compile_eq_ok_iff.1 hd
  have hfirst := spares_of_free hfree r.values
  have hsecond := spares_applyFilter_iff hc s.values hfree
  rw [literalBindings_literals s.values]
  refine ⟨⟨hfirst, trivial⟩, ?_⟩
  rw [← hsecond]
  constructor
  · rintro ⟨_, hspares, _⟩
    exact hspares
  · exact fun hspares => ⟨hfirst, hspares, trivial⟩

end Query

namespace Engine

variable {e : Engine} {q : Query}

theorem execute_applyFilters {fs : List (Filter × Compilation)}
    (hcompiled : ∀ x ∈ fs, ∃ schema, x.1.compile schema .strict = .ok x.2) (h : q.Undisturbed (fs.map Prod.snd))
    (range : RowRange) : e.execute (q.applyFilters (fs.map Prod.snd)) range =
      (e.execute q range).map fun r => r.satisfying (fs.map Prod.fst) := by
  induction fs generalizing q with
  | nil =>
    simp only [List.map_nil, ResultSet.satisfying_nil]
    exact (congrFun Except.map_id _).symm
  | cons x fs ih =>
    rw [List.forall_mem_cons] at hcompiled
    obtain ⟨⟨schema, hx⟩, hfs⟩ := hcompiled
    obtain ⟨hspares, hrest⟩ := h
    have hfirst := e.execute_applied (q := q) hx (Filter.dropped_of_strict hx) range
    rw [e.execute_bindAll hspares] at hfirst
    refine (ih hfs hrest).trans ?_
    rw [hfirst]
    cases e.execute q range with
    | error cause => rfl
    | ok r => exact congrArg Except.ok (r.satisfying_cons x.1 (fs.map Prod.fst))

end Engine

/-- **What applying compiled filters comes to.** A filter that compiles strictly keeps, of the rows that the query comes to
with the literals of the filter bound, those on which it is true, in their order. A run of applications that leaves the
parameters named before at their values keeps the rows of the query on which all filters are true, in their order, and
every literal that it bound stays bound. Over a query that names no placeholder, every single application is such a run, and
one after another is when the literals of one filter begin with those of the other, and only then. -/
theorem apply_filters (e : Engine) (q : Query) (range : RowRange) (fs : List (Filter × Compilation))
    (hcompiled : ∀ x ∈ fs, ∃ schema, x.1.compile schema .strict = .ok x.2) :
    (∀ x ∈ fs, e.execute (q.applyFilter x.2) range =
      (e.execute (q.bindAll x.2.bindings) range).map fun r => r.satisfying [x.1]) ∧
    (q.Undisturbed (fs.map Prod.snd) →
      e.execute (q.applyFilters (fs.map Prod.snd)) range =
        (e.execute q range).map (fun r => r.satisfying (fs.map Prod.fst)) ∧
      ∀ x ∈ fs, ∀ b ∈ x.2.bindings, (q.applyFilters (fs.map Prod.snd)).params.get? b.1 = some b.2) ∧
    ((∀ n, ¬ q.Mentions (placeholder n)) → ∀ x ∈ fs, ∀ y ∈ fs, q.Undisturbed [x.2] ∧ (q.Undisturbed [x.2, y.2] ↔
      y.2.bindings.map Prod.snd <+: x.2.bindings.map Prod.snd ∨
        x.2.bindings.map Prod.snd <+: y.2.bindings.map Prod.snd)) := by
  refine ⟨fun x hx => ?_, fun h => ?_, fun hfree x hx y hy => ?_⟩
  · obtain ⟨schema, hc⟩ := hcompiled x hx
    exact Engine.execute_applied hc (Filter.dropped_of_strict hc) range
  · exact ⟨Engine.execute_applyFilters hcompiled h range, Query.get?_applyFilters hcompiled h⟩
  · obtain ⟨_, hc⟩ := hcompiled x hx
    obtain ⟨_, hd⟩ := hcompiled y hy
    exact Query.undisturbed_of_free hc hd hfree

/-- an engine with one view of three rows, numbered by their only column -/
def Engine.ofThree : Engine :=
  let row (n : Nat) : JsonRow := SortedMap.ofList [("id", .ofNat n)]
  ⟨[⟨none, "three", [⟨"id", .long, false⟩], [(10, row 1), (20, row 2), (30, row 3)], by decide⟩], [], none, ⟨0, 0, 0, 0, 0⟩⟩

/-- the rows of `Engine.ofThree` with these numbers -/
def ResultSet.ofNumbers (ns : List Nat) : ResultSet :=
  ⟨["id"], ns.map fun n => SortedMap.ofList [("id", .ofNat n)]⟩

/-- the second filter repeats the literal of the first and adds one of its own -/
theorem apply_filters_prefix :
    ∃ c d, (Filter.compare "id" .ge (.int 2)).compile none .strict = .ok c ∧
      (Filter.leaf ⟨"id", .oneOf, [.int 2, .int 1]⟩).compile none .strict = .ok d ∧
      Engine.ofThree.execute ((Query.fromView ⟨none, "three"⟩).applyFilters [c, d]) .full = .ok (.ofNumbers [2]) := by
  obtain ⟨_, hrun, _⟩ := apply_filters .ofThree (.fromView ⟨none, "three"⟩) .full
    [(.compare "id" .ge (.int 2), _), (.leaf ⟨"id", .oneOf, [.int 2, .int 1]⟩, _)]
    (List.forall_mem_cons.2 ⟨⟨none, rfl⟩, List.forall_mem_singleton.2 ⟨none, rfl⟩⟩)
  refine ⟨_, _, rfl, rfl, ?_⟩
  exact (hrun (by decide +kernel)).1.trans (by decide +kernel)

/-- **A later application may disturb an earlier one.** Both filters number their only placeholder 0, so the first reads the
literal of the second: of the rows 1 and 2, on which both are true, only 2 is left. -/
theorem apply_filters_overwritten :
    ∃ c d, (Filter.compare "id" .ge (.int 1)).compile none .strict = .ok c ∧
      (Filter.compare "id" .le (.int 2)).compile none .strict = .ok d ∧
      Engine.ofThree.execute (.fromView ⟨none, "three"⟩) .full = .ok (.ofNumbers [1, 2, 3]) ∧
      (ResultSet.ofNumbers [1, 2, 3]).satisfying [.compare "id" .ge (.int 1), .compare "id" .le (.int 2)] = .ofNumbers [1, 2] ∧
      Engine.ofThree.execute (((Query.fromView ⟨none, "three"⟩).applyFilter c).applyFilter d) .full =
        .ok (.ofNumbers [2]) ∧
      c.bindings = [(placeholder 0, .int 1)] ∧
      (((Query.fromView ⟨none, "three"⟩).applyFilter c).applyFilter d).params.get? (placeholder 0) = some (.int 2) := by
  refine ⟨_, _, rfl, rfl, ?_, ?_, ?_, ?_, ?_⟩
  all_goals decide +kernel

end PartitionedScan
