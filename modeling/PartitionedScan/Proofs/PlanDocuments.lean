/-
Plan documents that are read back.

An argument is `Stable` when it is read as itself of its document taken as a free value, which is what a query prints and
reads. Operators over stable arguments are stable, so are texts and numbers, and whatever was read of a free value
(`stable_ofJson_canonical`); a list is when it holds operators, since no list of operators is taken for an operator. Everything
that a query is made of is one of these: its source, the columns of a `select`, the number of a `limit`, the document of
a compiled filter. Main results:
- `Query.parse_render_of_stable`: the plan of a query over stable arguments is read back;
- `Query.parse_render`: so is every plan that starts from a view or a parsed text and is edited.
-/
import PartitionedScan.Query
import PartitionedScan.Proofs.Filter.Compilation
import PartitionedScan.Proofs.Operator.Reading

namespace PartitionedScan

/-! ## Stable arguments -/

namespace Arg

/-- the argument is read of its document as a free value -/
def Stable (a : Arg) : Prop :=
  ofJson a.toJson.canonical = a

theorem stable_node_iff {ns name : String} {args : List Arg} :
    (Arg.node ns name args).Stable ↔ ∀ a ∈ args, a.Stable := by
  rw [Stable, ofJson_of_isOperator (isOperator_toJson ns name args).canonical, List.map_map, List.map_map]
  simp only [Arg.node.injEq, true_and]
  conv_lhs => rhs; rw [← List.map_id args]
  exact List.map_inj_left

theorem stable_text (s : String) : (Arg.text s).Stable := rfl

theorem stable_null : (Arg.scalar .null).Stable := rfl

theorem stable_number (n : Json.Number) : (Arg.scalar (.number n)).Stable := rfl

/-- a list of operators is no operator in the form of a list -/
theorem stable_operators {ops : List Operator} (h : ∀ o ∈ ops, (ofOperator o).Stable) :
    (Arg.list (ops.map ofOperator)).Stable := by
  have hlist : ∀ ns name args, ops.map (fun o => (ofOperator o).toJson) ≠ [.string ns, .string name, .array args] := by
    intro ns name args heq
    obtain ⟨o, rest, -, ho, -⟩ := List.map_eq_cons_iff.1 heq
    cases ho
  have hprinted : (Arg.list (ops.map ofOperator)).toJson.canonical =
      .array ((ops.map fun o => (ofOperator o).toJson).map Json.canonical) := by
    rw [toJson, toJsonAll_eq_map, List.map_map, Json.canonical, Json.canonicalItems_eq_map]
    rfl
  rw [Stable, hprinted, ofJson_map Json.keepsForm_canonical hlist, List.map_map]
  exact congrArg Arg.list (List.map_congr_left h)

/-- what was read of a free value is read of it again -/
theorem stable_ofJson_canonical (j : Json) : (ofJson j.canonical).Stable := by
  have hagain (k : Json) : ofJson (ofJson k.canonical).toJson = ofJson k.canonical := by
    rw [ofJson_toJson_ofJson, Json.canonical_canonical]
  rw [Stable, ← ofJson_toJson_ofJson, hagain, hagain]

end Arg

/-! ## Operators that queries are made of -/

namespace Operator

theorem stable_op {name : String} {args : List Arg} (h : ∀ a ∈ args, a.Stable) :
    (Arg.ofOperator (.op name args)).Stable :=
  Arg.stable_node_iff.2 h

theorem stable_column (attr : String) : (Arg.ofOperator (column attr)).Stable := by
  unfold column
  split <;> exact stable_op (by simp [Arg.stable_text])

theorem stable_param (name : String) : (Arg.ofOperator (param name)).Stable :=
  stable_op (by simp [Arg.stable_text])

end Operator

theorem Leaf.stable_placeholders (next : Nat) (values : List Value) : ∀ a ∈ placeholders next values, a.Stable := by
  induction values generalizing next with
  | nil => exact nofun
  | cons v values ih =>
    rw [placeholders, List.forall_mem_cons]
    exact ⟨Operator.stable_param _, ih (next + 1)⟩

namespace Filter

variable {schema : Option Schema} {policy : FallbackPolicy}

mutual

/-- the document of a filter is read back, at every depth -/
theorem stable_of_compileFrom : ∀ (f : Filter) {negated : Bool} {next : Nat} {r : Compiled Operator},
    compileFrom schema policy negated next f = .ok r → (Arg.ofOperator r.document).Stable
  | .leaf l, negated, next, r, h => by
    rw [compileFrom_leaf, Leaf.compile_eq_ok_iff] at h
    obtain ⟨_, rfl⟩ := h
    refine Arg.stable_node_iff.2 ?_
    rw [Leaf.document, List.forall_mem_cons]
    exact ⟨Operator.stable_column l.attr, Leaf.stable_placeholders next l.values⟩
  | .composite function children, negated, next, r, h => by
    obtain ⟨_, rs, hrs, _, rfl⟩ := compileFrom_composite h
    exact Operator.stable_op (stable_of_compileAll children hrs)

theorem stable_of_compileAll : ∀ (xs : List Filter) {drop negated : Bool} {next : Nat} {rs : Compiled (List Arg)},
    compileAll schema policy drop negated next xs = .ok rs → ∀ a ∈ rs.document, a.Stable
  | [], drop, negated, next, rs, h => by
    rw [compileAll_nil] at h
    cases h
    exact nofun
  | x :: xs, drop, negated, next, rs, h => by
    rcases compileAll_cons h with ⟨r, rest, hx, hrest, rfl⟩ | ⟨_, rest, _, _, hrest, rfl⟩
    · rw [List.forall_mem_cons]
      exact ⟨stable_of_compileFrom x hx, stable_of_compileAll xs hrest⟩
    · have htail := stable_of_compileAll xs hrest
      exact htail

end

theorem stable_document {f : Filter} {c : Compilation} (h : f.compile schema policy = .ok c) :
    (Arg.ofOperator c.document).Stable := by
  obtain ⟨r, hr, rfl⟩ := compile_eq_ok_iff.1 h
  exact stable_of_compileFrom f hr

end Filter

/-! ## Queries -/

namespace Query

/-- all arguments of the plan are stable -/
def Stable (q : Query) : Prop :=
  (∀ a ∈ q.source, a.Stable) ∧ ∀ a ∈ q.chain, a.Stable

variable {q : Query}

theorem stable_iff_plan : q.Stable ↔ (Arg.ofOperator q.plan).Stable := by
  rw [plan, Operator.op, Arg.ofOperator, Arg.stable_node_iff, List.forall_mem_cons, Arg.stable_node_iff, Stable]

theorem stable_fromView (view : ViewName) : (fromView view).Stable := by
  refine ⟨?_, nofun⟩
  obtain ⟨schema, name⟩ := view
  cases schema <;> simp [fromView, Arg.stable_text, Arg.stable_null]

theorem Stable.addOperator {o : Operator} (hq : q.Stable) (ho : (Arg.ofOperator o).Stable) : (q.addOperator o).Stable := by
  refine ⟨hq.1, ?_⟩
  rw [Query.addOperator, List.forall_mem_append, List.forall_mem_singleton]
  exact ⟨hq.2, ho⟩

theorem stable_foldl_bind (bindings : List (String × Value)) (hq : q.Stable) :
    (bindings.foldl (fun q b => q.bind b.1 b.2) q).Stable := by
  induction bindings generalizing q with
  | nil => exact hq
  | cons b bindings ih => exact ih hq

/-- the value found under a key of a free value is a free value -/
theorem exists_canonical_of_member? {j root : Json} {key : String} (h : j.canonical.member? key = some root) :
    ∃ k, root = Json.canonical k := by
  cases j with
  | object members =>
    rw [Json.canonical] at h
    rcases Json.mem_canonicalMembers (Json.mem_of_member? h) with hmem | ⟨m, _, heq⟩
    · cases hmem
    · exact ⟨m.2, congrArg Prod.snd heq⟩
  | _ => cases h

/-- the query of a plan over stable arguments has stable arguments -/
theorem stable_of_ofPlan {plan : Operator} (hplan : (Arg.ofOperator plan).Stable) (h : ofPlan plan = .ok q) :
    q.Stable := by
  rw [ofPlan] at h
  split_ifs at h
  split at h
  · next source chain hargs =>
    cases h
    rw [Arg.ofOperator, Arg.stable_node_iff, hargs, List.forall_mem_cons, Arg.stable_node_iff] at hplan
    exact hplan
  · cases h

/-- the plan of a text was read of a free value -/
theorem stable_of_parse {text : String} (h : parse text = .ok q) : q.Stable := by
  rw [parse] at h
  split at h
  · cases h
  · next doc hread =>
    split at h
    · cases h
    · next root hroot =>
      split at h
      · cases h
      · next plan hplan =>
        obtain ⟨j, _, rfl⟩ := Option.map_eq_some_iff.1 hread
        obtain ⟨k, rfl⟩ := exists_canonical_of_member? hroot
        refine stable_of_ofPlan ?_ h
        rw [← Operator.ofJson?_eq_some.1 hplan]
        exact Arg.stable_ofJson_canonical k

/-- **The plan of a query over stable arguments is read back** -/
theorem parse_render_of_stable (hq : q.Stable) (hfloats : q.toJson.FloatsReadBack) :
    parse q.render = .ok { q with params := .empty } := by
  have hfree : q.toJson.canonical = q.toJson := by
    have hroot : q.toJson.canonical = .object [(rootKey, q.plan.toJson.canonical.canonical)] := rfl
    rw [hroot, Json.canonical_canonical, toJson]
  have hread : Json.read? q.render = some q.toJson := by
    rw [Json.read?, render, Json.Tree.json?_render hfloats, Option.map_some, hfree]
  have hroot : q.toJson.member? rootKey = some q.plan.toJson.canonical := by
    simp [toJson, Json.member?]
  have hplan : Operator.ofJson? q.plan.toJson.canonical = some q.plan :=
    Operator.ofJson?_eq_some.2 (stable_iff_plan.1 hq)
  simp only [parse, hread, hroot, hplan]
  rfl

/-- the query starts from a view or a text and was edited since -/
inductive Built : Query → Prop where
  | fromView (view : ViewName) : Built (fromView view)
  | parse {text : String} {q : Query} (h : Query.parse text = .ok q) : Built q
  | addSelect {q : Query} (hq : Built q) (columns : List String) : Built (q.addSelect columns)
  | addLimit {q : Query} (hq : Built q) (limit : UInt64) : Built (q.addLimit limit)
  | applyFilter {q : Query} (hq : Built q) {schema : Option Schema} {policy : FallbackPolicy} {f : Filter} {c : Compilation}
      (h : f.compile schema policy = .ok c) : Built (q.applyFilter c)

theorem Built.stable (h : q.Built) : q.Stable := by
  induction h with
  | fromView view => exact stable_fromView view
  | parse h => exact stable_of_parse h
  | addSelect _ columns ih =>
    refine ih.addOperator (Operator.stable_op ?_)
    have hcolumns : (Arg.list ((columns.map Operator.column).map Arg.ofOperator)).Stable :=
      Arg.stable_operators (List.forall_mem_map.2 fun c _ => Operator.stable_column c)
    rw [List.map_map] at hcolumns
    exact List.forall_mem_singleton.2 hcolumns
  | addLimit _ limit ih =>
    exact ih.addOperator (Operator.stable_op (List.forall_mem_singleton.2 (Arg.stable_number _)))
  | applyFilter _ h ih =>
    refine stable_foldl_bind _ (ih.addOperator (Operator.stable_op ?_))
    exact List.forall_mem_singleton.2 (Filter.stable_document h)

/-- **Plan documents are read back**: the text of a query that starts from a view or a text, however it was edited since, is
read as a query with the same plan and no parameter bound -/
theorem parse_render (hq : q.Built) (hfloats : q.toJson.FloatsReadBack) :
    ∃ q', parse q.render = .ok q' ∧ q'.plan = q.plan ∧ q'.params = .empty :=
  ⟨{ q with params := .empty }, parse_render_of_stable hq.stable hfloats, rfl, rfl⟩

/-- the query of `{"$optic":["op","operators",[["op","from-view",[null,"t"]],["op","limit",[1.5]]]]}` -/
def limited : Query :=
  ⟨[.scalar .null, .text "t"],
    [.ofOperator (.op "limit" [.scalar (.number (.float ⟨4609434218613702656⟩ (by decide)))])], .empty⟩

/-- a plan with a float, edited in every way -/
theorem parse_render_edited :
    let text := "\x7b\"$optic\":[\"op\",\"operators\",[[\"op\",\"from-view\",[null,\"t\"]],[\"op\",\"limit\",[1.5]]]]\x7d"
    let f : Filter := .composite .not [.leaf ⟨"id", .oneOf, [.int 1, .int 2]⟩]
    let c : Compilation := ⟨.op "not" [.ofOperator (.op "in" [.ofOperator (.column "id"),
      .ofOperator (.param (placeholder 0)), .ofOperator (.param (placeholder 1))])],
      [(placeholder 0, .int 1), (placeholder 1, .int 2)], []⟩
    let q := ((limited.addSelect ["t.id", "name"]).addLimit 3).applyFilter c
    parse text = .ok limited ∧ f.compile none .strict = .ok c ∧ q.toJson.FloatsReadBack ∧
      ∃ q', parse q.render = .ok q' ∧ q'.plan = q.plan := by
  intro text f c q
  have hread : parse text = .ok limited := by decide +kernel
  have hcompile : f.compile none .strict = .ok c := by decide +kernel
  have hfloats : q.toJson.FloatsReadBack := by decide +kernel
  have hbuilt : q.Built := (((Built.parse hread).addSelect _).addLimit _).applyFilter hcompile
  obtain ⟨q', hparse, hplan, _⟩ := parse_render hbuilt hfloats
  exact ⟨hread, hcompile, hfloats, q', hparse, hplan⟩

end Query

end PartitionedScan
