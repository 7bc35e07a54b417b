/-
What the result of a query depends on.

An expression reads parameters only where it names them (`Arg.paramNames`), at any depth, and a query evaluates
expressions only in its `where` operators (`Query.conditions`). So binding names changes no result, as long as those that
a condition mentions keep their values (`Query.Spares`, `execute_bindAll`). An operator at the end of a query is one more
step on its result: `execute_addOperator`.
-/
import PartitionedScan.Proofs.Bindings
import PartitionedScan.Engine.Basic

namespace PartitionedScan

/-! ## Names -/

namespace Arg

mutual

/-- the names of the parameters in an argument, at any depth -/
def paramNames : Arg → List String
  | .node ns name args =>
    (if ns = "op" ∧ name = "param" then (args.head?.bind Arg.string?).toList else []) ++ paramNamesAll args
  | .list items => paramNamesAll items
  | .scalar _ => []

def paramNamesAll : List Arg → List String
  | [] => []
  | x :: xs => paramNames x ++ paramNamesAll xs

end

theorem paramNames_subset_all {a : Arg} {args : List Arg} (h : a ∈ args) : a.paramNames ⊆ paramNamesAll args := by
  induction args with
  | nil => cases h
  | cons x xs ih =>
    rw [paramNamesAll]
    rcases List.mem_cons.1 h with rfl | h
    · exact List.subset_append_left _ _
    · exact List.subset_append_of_subset_right _ (ih h)

end Arg

namespace Operator

/-- the names of the parameters in an operator, at any depth -/
def paramNames (o : Operator) : List String :=
  (Arg.ofOperator o).paramNames

/-- the expression of a `where` operator -/
def condition? (o : Operator) : Option Operator :=
  if o.is "op" "where" then o.children.head? else none

end Operator

namespace Query

/-- the expressions of the `where` operators -/
def conditions (q : Query) : List Operator :=
  q.steps.filterMap Operator.condition?

/-- some condition names the parameter -/
def Mentions (q : Query) (name : String) : Prop :=
  ∃ o ∈ q.conditions, name ∈ o.paramNames

instance (q : Query) (name : String) : Decidable (q.Mentions name) := by
  unfold Mentions; infer_instance

/-- binding the entries leaves every parameter that a condition names at its value -/
def Spares (q : Query) (entries : List (String × Value)) : Prop :=
  ∀ b ∈ entries, q.Mentions b.1 → q.params.get? b.1 = some b.2

instance (q : Query) (entries : List (String × Value)) : Decidable (q.Spares entries) := by
  unfold Spares; infer_instance

theorem Spares.of_not_mentions {q : Query} {entries : List (String × Value)} (h : ∀ b ∈ entries, ¬ q.Mentions b.1) :
    q.Spares entries :=
  fun b hb hmentions => absurd hmentions (h b hb)

end Query

/-- two bindings give the names of a list the same values -/
def Agree (p p' : SortedMap Value) (names : List String) : Prop :=
  ∀ name ∈ names, p.get? name = p'.get? name

namespace Agree

variable {p p' : SortedMap Value} {names rest : List String}

theorem mono (h : Agree p p' rest) (hs : names ⊆ rest) : Agree p p' names :=
  fun name hn => h name (hs hn)

theorem left (h : Agree p p' (names ++ rest)) : Agree p p' names :=
  h.mono (List.subset_append_left _ _)

theorem right (h : Agree p p' (names ++ rest)) : Agree p p' rest :=
  h.mono (List.subset_append_right _ _)

/-- binding other names, or these to the values that they have, keeps the values of these -/
theorem of_insertAll {entries : List (String × Value)} (h : ∀ e ∈ entries, e.1 ∈ names → p.get? e.1 = some e.2) :
    Agree (p.insertAll entries) p names := by
  intro name hn
  apply SortedMap.get?_insertAll_of_same
  rintro e he rfl
  exact h e he hn

end Agree

/-! ## Expressions -/

namespace Operator

variable {p p' : SortedMap Value} (row : JsonRow)

theorem operand_congr {o : Operator} (h : Agree p p' o.paramNames) : o.operand ⟨p, row⟩ = o.operand ⟨p', row⟩ := by
  unfold operand
  split_ifs with _ hparam
  · rfl
  · cases hname : o.args.head?.bind Arg.string? with
    | none => rfl
    | some name =>
      have hmem : name ∈ o.paramNames := by
        rw [is, Bool.and_eq_true, beq_iff_eq, beq_iff_eq] at hparam
        rw [paramNames, Arg.ofOperator, Arg.paramNames, if_pos hparam, hname]
        exact List.mem_append_left _ List.mem_cons_self
      simp only [h name hmem]
  · rfl

/-- the expressions of an operator are among its arguments -/
theorem mem_args_of_expressions {o x : Operator} {nodes : List Operator} (h : o.expressions = .ok nodes) (hx : x ∈ nodes) :
    Arg.ofOperator x ∈ o.args := by
  unfold expressions at h
  revert h hx
  generalize o.args = args
  induction args generalizing nodes with
  | nil => intro h hx; cases h; cases hx
  | cons a args ih =>
    intro h hx
    rw [List.mapM_cons] at h
    cases a with
    | node ns name sub =>
      simp only [Arg.operator?, bind, Except.bind, pure, Except.pure] at h
      split at h
      · cases h
      · next rest hrest =>
        cases h
        rcases List.mem_cons.1 hx with rfl | hx
        · exact List.mem_cons_self
        · exact List.mem_cons_of_mem _ (ih hrest hx)
    | list items => cases h
    | scalar value => cases h

theorem agree_of_expressions {o x : Operator} {nodes : List Operator} (h : Agree p p' (Arg.paramNamesAll o.args))
    (ho : o.expressions = .ok nodes) (hx : x ∈ nodes) : Agree p p' x.paramNames :=
  h.mono (Arg.paramNames_subset_all (mem_args_of_expressions ho hx))

theorem operands_congr {o : Operator} (h : Agree p p' (Arg.paramNamesAll o.args)) (count : Nat) :
    o.operands ⟨p, row⟩ count = o.operands ⟨p', row⟩ count := by
  unfold operands
  cases ho : o.expressions with
  | error e => rfl
  | ok nodes =>
    simp only [bind, Except.bind]
    split_ifs
    · exact mapM_congr fun x hx => operand_congr row (agree_of_expressions h ho hx)
    · rfl

theorem membership_congr {candidates : List Operator} (h : ∀ x ∈ candidates, Agree p p' x.paramNames) (column : Json) :
    membership ⟨p, row⟩ column candidates = membership ⟨p', row⟩ column candidates := by
  induction candidates with
  | nil => rfl
  | cons x xs ih =>
    rw [List.forall_mem_cons] at h
    rw [membership, membership, operand_congr row h.1, ih h.2]

theorem atom_congr {o : Operator} (h : Agree p p' (Arg.paramNamesAll o.args)) :
    o.atom ⟨p, row⟩ = o.atom ⟨p', row⟩ := by
  unfold atom
  refine ite_congr rfl (fun _ => ?_) fun _ => ite_congr rfl (fun _ => ?_) fun _ => ?_
  · rw [operands_congr row h]
  · cases ho : o.expressions with
    | error e => rfl
    | ok nodes =>
      cases nodes with
      | nil => rfl
      | cons column candidates =>
        simp only [bind, Except.bind]
        rw [operand_congr row (agree_of_expressions h ho List.mem_cons_self)]
        cases column.operand ⟨p', row⟩ with
        | error e => rfl
        | ok cell =>
          simp only
          rw [membership_congr row (fun x hx => agree_of_expressions h ho (List.mem_cons_of_mem _ hx)) cell]
  · split
    · unfold comparison
      rw [operands_congr row h]
    · rfl

end Operator

namespace Arg

variable {p p' : SortedMap Value} (row : JsonRow)

mutual

/-- the truth of an expression depends on the parameters it names -/
theorem truth_congr : ∀ a : Arg, Agree p p' a.paramNames → a.truth ⟨p, row⟩ = a.truth ⟨p', row⟩
  | .node ns name args, h => by
    rw [paramNames] at h
    have hargs := h.right
    rw [truth, truth, truthOfAll_congr args hargs, truthOfAny_congr args hargs, truthOfFirst_congr args hargs,
      Operator.atom_congr row (o := ⟨ns, name, args⟩) hargs]
  | .list items, _ => by rw [truth, truth] <;> exact nofun
  | .scalar value, _ => by rw [truth, truth] <;> exact nofun

theorem truthOfAll_congr : ∀ (args : List Arg), Agree p p' (paramNamesAll args) → ∀ (sofar : Truth),
    truthOfAll ⟨p, row⟩ sofar args = truthOfAll ⟨p', row⟩ sofar args
  | [], _, sofar => by rw [truthOfAll, truthOfAll]
  | x :: xs, h, sofar => by
    rw [paramNamesAll] at h
    rw [truthOfAll, truthOfAll, truth_congr x h.left, truthOfAll_congr xs h.right sofar, truthOfAll_congr xs h.right none]

theorem truthOfAny_congr : ∀ (args : List Arg), Agree p p' (paramNamesAll args) → ∀ (sofar : Truth),
    truthOfAny ⟨p, row⟩ sofar args = truthOfAny ⟨p', row⟩ sofar args
  | [], _, sofar => by rw [truthOfAny, truthOfAny]
  | x :: xs, h, sofar => by
    rw [paramNamesAll] at h
    rw [truthOfAny, truthOfAny, truth_congr x h.left, truthOfAny_congr xs h.right sofar, truthOfAny_congr xs h.right none]

theorem truthOfFirst_congr : ∀ (args : List Arg), Agree p p' (paramNamesAll args) →
    truthOfFirst ⟨p, row⟩ args = truthOfFirst ⟨p', row⟩ args
  | [], _ => by rw [truthOfFirst, truthOfFirst]
  | x :: xs, h => by
    rw [paramNamesAll] at h
    rw [truthOfFirst, truthOfFirst, truth_congr x h.left]

end

end Arg

theorem Operator.holds_congr {p p' : SortedMap Value} (row : JsonRow) {o : Operator} (h : Agree p p' o.paramNames) :
    o.holds ⟨p, row⟩ = o.holds ⟨p', row⟩ := by
  unfold holds truth
  rw [Arg.truth_congr row _ h]

/-! ## Queries -/

namespace ResultSet

variable {p p' : SortedMap Value}

theorem keepWhere_congr {o : Operator} (h : Agree p p' o.paramNames) (rows : List JsonRow) :
    keepWhere p o rows = keepWhere p' o rows := by
  induction rows with
  | nil => rfl
  | cons row rows ih => rw [keepWhere, keepWhere, o.holds_congr row h, ih]

theorem step_congr (r : ResultSet) {o : Operator} (h : ∀ x ∈ o.condition?, Agree p p' x.paramNames) :
    step p r o = step p' r o := by
  unfold step
  split_ifs with hwhere
  · cases hc : o.children with
    | nil => rfl
    | cons x xs =>
      have hx : x ∈ o.condition? := by rw [Operator.condition?, if_pos hwhere, hc]; rfl
      simp only [keepWhere_congr (h x hx)]
  · rfl
  · rfl
  · rfl

theorem steps_congr (r : ResultSet) {steps : List Operator}
    (h : ∀ x ∈ steps.filterMap Operator.condition?, Agree p p' x.paramNames) :
    steps.foldlM (step p) r = steps.foldlM (step p') r := by
  induction steps generalizing r with
  | nil => rfl
  | cons o steps ih =>
    have ho : ∀ x ∈ o.condition?, Agree p p' x.paramNames := fun x hx =>
      h x (List.mem_filterMap.2 ⟨o, List.mem_cons_self, hx⟩)
    have hsteps : ∀ x ∈ steps.filterMap Operator.condition?, Agree p p' x.paramNames := fun x hx => by
      obtain ⟨o', ho', hx⟩ := List.mem_filterMap.1 hx
      exact h x (List.mem_filterMap.2 ⟨o', List.mem_cons_of_mem _ ho', hx⟩)
    rw [List.foldlM_cons, List.foldlM_cons, step_congr r ho]
    exact bind_congr fun r' => ih r' hsteps

/-- a `where` whose expression has a truth on every row keeps the rows on which it is true -/
theorem keepWhere_eq_filter {o : Operator} {rows : List JsonRow} {keep : JsonRow → Bool}
    (h : ∀ row ∈ rows, o.holds ⟨p, row⟩ = .ok (keep row)) : keepWhere p o rows = .ok (rows.filter keep) := by
  induction rows with
  | nil => rfl
  | cons row rows ih =>
    rw [List.forall_mem_cons] at h
    rw [keepWhere, h.1, ih h.2]
    cases hk : keep row with
    | false => rw [List.filter_cons_of_neg (by simp [hk])]; rfl
    | true => rw [List.filter_cons_of_pos hk]; rfl

end ResultSet

namespace Query

/-- binds several parameters one after another -/
def bindAll (q : Query) (entries : List (String × Value)) : Query :=
  { q with params := q.params.insertAll entries }

theorem foldl_bind (q : Query) (entries : List (String × Value)) :
    entries.foldl (fun q b => q.bind b.1 b.2) q = q.bindAll entries := by
  induction entries generalizing q with
  | nil => rfl
  | cons b entries ih => exact ih (q.bind b.1 b.2)

theorem steps_addOperator (q : Query) (o : Operator) : (q.addOperator o).steps = q.steps ++ [o] := by
  simp only [steps, addOperator, List.filterMap_append]
  rfl

end Query

namespace Engine

variable (e : Engine)

/-- **Names that no condition mentions do not matter**, nor do bindings that are there already -/
theorem execute_bindAll {q : Query} {entries : List (String × Value)} (h : q.Spares entries) (range : RowRange) :
    e.execute (q.bindAll entries) range = e.execute q range := by
  have hsteps (r : ResultSet) :
      q.steps.foldlM (ResultSet.step (q.params.insertAll entries)) r = q.steps.foldlM (ResultSet.step q.params) r :=
    ResultSet.steps_congr r fun x hx => Agree.of_insertAll fun b hb hmem => h b hb ⟨x, hx, hmem⟩
  unfold execute
  rw [show (q.bindAll entries).sourceView = q.sourceView from rfl, show (q.bindAll entries).steps = q.steps from rfl,
    show (q.bindAll entries).params = q.params.insertAll entries from rfl]
  simp only [hsteps]

/-- an operator at the end takes one more step -/
theorem execute_addOperator (q : Query) (o : Operator) (range : RowRange) :
    e.execute (q.addOperator o) range = (e.execute q range).bind fun r => r.step q.params o := by
  unfold execute
  rw [show (q.addOperator o).sourceView = q.sourceView from rfl, Query.steps_addOperator,
    show (q.addOperator o).params = q.params from rfl]
  cases q.sourceView with
  | none => rfl
  | some reference =>
    simp only
    cases e.findView reference with
    | none => rfl
    | some v =>
      simp only [List.foldlM_append, List.foldlM_cons, List.foldlM_nil, bind_pure]
      rfl

/-- a query that succeeds over some range reads a view, the same over every range -/
theorem view_of_execute {q : Query} {range : RowRange} {result : ResultSet} (h : e.execute q range = .ok result) :
    ∃ v ∈ e.views, ∀ r, e.execute q r =
      q.steps.foldlM (ResultSet.step q.params) ⟨v.fields.map Field.name, v.rowsIn r⟩ := by
  unfold execute at h ⊢
  cases hsource : q.sourceView with
  | none => rw [hsource] at h; cases h
  | some reference =>
    rw [hsource] at h
    simp only at h ⊢
    cases hview : e.findView reference with
    | none => rw [hview] at h; cases h
    | some v => exact ⟨v, List.mem_of_find?_eq_some hview, fun r => rfl⟩

end Engine

end PartitionedScan
