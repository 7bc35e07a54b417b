/-
What an engine says of a query that it cannot run.

Every message is a fixed text around names, scalars and expressions of the plan, and none of the fixed texts has a `$`. So a
plan whose text for a reader has none is never answered with one (`execute_unmarked`); data does not show in messages at
all. `Unmarked` says this of an answer, and is kept by every step of the evaluator.
-/
import PartitionedScan.Proofs.Execution

namespace PartitionedScan

/-! ## Texts -/

/-- the text has no `$` -/
def Plain (s : String) : Prop :=
  '$' ∉ s.toList

instance (s : String) : Decidable (Plain s) :=
  inferInstanceAs (Decidable ('$' ∉ s.toList))

@[simp] theorem plain_append {s t : String} : Plain (s ++ t) ↔ Plain s ∧ Plain t := by
  simp [Plain, String.toList_append]

theorem plain_toString (n : Nat) : Plain (toString n) := by
  intro h
  have hdigit : Char.isDigit '$' = true := Nat.isDigit_of_mem_toDigits (b := 10) (n := n) (by decide) (by decide) (by simpa using h)
  cases hdigit

/-- printing a string keeps its `$` -/
theorem plain_of_render {s : String} (h : Plain (Json.string s).render) : Plain s := by
  intro hs
  refine h ?_
  rw [Json.render, String.toList_ofList, Json.write, Json.writeText]
  refine List.mem_cons_of_mem _ ?_
  generalize s.toList = cs at hs
  induction cs with
  | nil => cases hs
  | cons c cs ih =>
    rw [List.foldr_cons, List.mem_append]
    rcases List.mem_cons.1 hs with rfl | hs
    · exact Or.inl (by decide)
    · exact Or.inr (ih hs)

namespace Arg

mutual

theorem appendText_eq (done : String) : ∀ a : Arg, appendText done a = done ++ appendText "" a
  | .node ns name args => by
    rw [appendText, appendText, appendTexts_eq (done ++ _ ++ _ ++ _ ++ _), appendTexts_eq ("" ++ _ ++ _ ++ _ ++ _)]
    simp only [String.append_assoc, String.empty_append]
  | .list items => by
    rw [appendText, appendText, appendTexts_eq (done ++ _), appendTexts_eq ("" ++ _)]
    simp only [String.append_assoc, String.empty_append]
  | .scalar value => by rw [appendText, appendText, String.empty_append]

theorem appendTexts_eq (done : String) : ∀ (first : Bool) (args : List Arg),
    appendTexts done first args = done ++ appendTexts "" first args
  | _, [] => by rw [appendTexts, appendTexts, String.append_empty]
  | true, x :: xs => by
    rw [appendTexts, appendTexts, if_pos rfl, if_pos rfl]
    rw [appendTexts_eq (appendText done x), appendTexts_eq (appendText "" x), appendText_eq done x, String.append_assoc]
  | false, x :: xs => by
    rw [appendTexts, appendTexts, if_neg Bool.false_ne_true, if_neg Bool.false_ne_true, String.empty_append]
    rw [appendTexts_eq (appendText (done ++ ", ") x), appendTexts_eq (appendText ", " x), appendText_eq (done ++ ", ") x,
      appendText_eq ", " x]
    simp only [String.append_assoc]

end

theorem plain_texts (first : Bool) (args : List Arg) : Plain (appendTexts "" first args) ↔ ∀ a ∈ args, Plain a.display := by
  induction args generalizing first with
  | nil => simp [appendTexts, Plain]
  | cons x xs ih =>
    have hcomma : Plain (if first = true then "" else "" ++ ", ") := by cases first <;> decide
    rw [appendTexts, appendTexts_eq, appendText_eq, plain_append, plain_append, ih, List.forall_mem_cons, display]
    simp only [hcomma, true_and]

/-- a `$` in the text of an operator comes from its names or from its arguments -/
theorem plain_node (ns name : String) (args : List Arg) :
    Plain (display (.node ns name args)) ↔ Plain ns ∧ Plain name ∧ ∀ a ∈ args, Plain a.display := by
  have hfixed : Plain "" ∧ Plain ":" ∧ Plain "(" ∧ Plain ")" := by decide
  rw [display, appendText, appendTexts_eq]
  simp only [plain_append, plain_texts, hfixed, true_and, and_true]
  tauto

theorem plain_scalar (value : Json) : Plain (display (.scalar value)) ↔ Plain value.render := by
  rw [display, appendText, String.empty_append]

theorem plain_list (items : List Arg) : Plain (display (.list items)) ↔ ∀ a ∈ items, Plain a.display := by
  have hfixed : Plain "" ∧ Plain "[" ∧ Plain "]" := by decide
  rw [display, appendText, appendTexts_eq]
  simp only [plain_append, plain_texts, hfixed, true_and, and_true]

theorem plain_string? {a : Arg} (h : Plain a.display) {s : String} (hs : a.string? = some s) : Plain s := by
  cases a with
  | scalar value =>
    cases value with
    | string t =>
      cases hs
      exact plain_of_render ((plain_scalar _).1 h)
    | _ => cases hs
  | _ => cases hs

theorem eq_of_operator? {a : Arg} {o : Operator} (h : a.operator? = some o) : a = ofOperator o := by
  cases a <;> cases h
  rfl

end Arg

theorem Operator.mem_args_of_children {o x : Operator} (h : x ∈ o.children) : Arg.ofOperator x ∈ o.args := by
  obtain ⟨a, ha, hx⟩ := List.mem_filterMap.1 h
  rwa [← Arg.eq_of_operator? hx]

/-! ## Answers -/

/-- an answer that is no error, or an error whose message has no `$` -/
def Unmarked {α : Type} (answer : Except RemoteError α) : Prop :=
  ∀ cause, answer = .error cause → Plain cause.message

namespace Unmarked

variable {α β : Type}

theorem ok (a : α) : Unmarked (.ok a) := fun _ h => by cases h

theorem badPlan {message : String} (h : Plain message) : Unmarked (.error (.badPlan message) : Except RemoteError α) :=
  fun _ hcause => by cases hcause; exact h

theorem bind {x : Except RemoteError α} {f : α → Except RemoteError β} (hx : Unmarked x)
    (hf : ∀ a, x = .ok a → Unmarked (f a)) : Unmarked (x >>= f) := by
  cases x with
  | error cause => exact fun _ h => by cases h; exact hx cause rfl
  | ok a => exact hf a rfl

theorem mapM {f : α → Except RemoteError β} {l : List α} (h : ∀ a ∈ l, Unmarked (f a)) : Unmarked (l.mapM f) := by
  induction l with
  | nil => exact ok []
  | cons a l ih =>
    rw [List.forall_mem_cons] at h
    rw [List.mapM_cons]
    exact h.1.bind fun b _ => (ih h.2).bind fun bs _ => ok (b :: bs)

end Unmarked

/-! ## Expressions -/

namespace Operator

variable {o : Operator} (scope : Scope)

/-- the text of the operator for a reader has no `$` -/
def IsPlain (o : Operator) : Prop :=
  Plain o.display

theorem isPlain_iff : o.IsPlain ↔ Plain o.ns ∧ Plain o.name ∧ ∀ a ∈ o.args, Plain a.display :=
  Arg.plain_node o.ns o.name o.args

theorem IsPlain.title (h : o.IsPlain) : Plain o.title := by
  obtain ⟨hns, hname, _⟩ := isPlain_iff.1 h
  have hfixed : Plain ":" := by decide
  simp only [Operator.title, plain_append, hns, hname, hfixed, and_self]

theorem IsPlain.expressions (h : o.IsPlain) : Unmarked o.expressions := by
  obtain ⟨_, _, hargs⟩ := isPlain_iff.1 h
  refine Unmarked.mapM fun a ha => ?_
  cases a.operator? with
  | some child => exact .ok child
  | none =>
    have hfixed : Plain " expects expression arguments (found " ∧ Plain ")" := by decide
    exact .badPlan (by simp only [plain_append, h.title, hargs a ha, hfixed, and_self])

theorem IsPlain.of_expressions (h : o.IsPlain) {nodes : List Operator} (ho : o.expressions = .ok nodes) {x : Operator}
    (hx : x ∈ nodes) : x.IsPlain :=
  (isPlain_iff.1 h).2.2 _ (mem_args_of_expressions ho hx)

theorem IsPlain.operand (h : o.IsPlain) : Unmarked (o.operand scope) := by
  obtain ⟨_, _, hargs⟩ := isPlain_iff.1 h
  have hfixed : Plain "malformed column reference " ∧ Plain "unbound parameter '" ∧ Plain "'" ∧
      Plain "malformed parameter " ∧ Plain "unsupported operand " := by decide
  have hdisplay : Plain o.display := h
  unfold Operator.operand
  split_ifs
  · cases o.args.getLast?.bind Arg.string? with
    | some name => exact .ok _
    | none => exact .badPlan (by simp only [plain_append, hdisplay, hfixed, and_self])
  · cases hname : o.args.head?.bind Arg.string? with
    | some name =>
      obtain ⟨a, ha, hname⟩ := Option.bind_eq_some_iff.1 hname
      have hplain : Plain name := Arg.plain_string? (hargs a (List.mem_of_head? ha)) hname
      cases hvalue : scope.params.get? name with
      | some value => simp only [hvalue]; exact .ok _
      | none => simp only [hvalue]; exact .badPlan (by simp only [plain_append, hplain, hfixed, and_self])
    | none => exact .badPlan (by simp only [plain_append, hdisplay, hfixed, and_self])
  · exact .badPlan (by simp only [plain_append, hdisplay, hfixed, and_self])

theorem IsPlain.operands (h : o.IsPlain) (count : Nat) : Unmarked (o.operands scope count) := by
  refine h.expressions.bind fun nodes hnodes => ?_
  split_ifs
  · exact Unmarked.mapM fun x hx => (h.of_expressions hnodes hx).operand scope
  · have hfixed : Plain " expects " ∧ Plain " argument(s) (got " ∧ Plain ")" := by decide
    exact .badPlan (by simp only [plain_append, h.title, plain_toString, hfixed, and_self])

theorem membership_unmarked {candidates : List Operator} (h : ∀ x ∈ candidates, x.IsPlain) (column : Json) :
    Unmarked (membership scope column candidates) := by
  induction candidates with
  | nil => exact .ok _
  | cons x xs ih =>
    rw [List.forall_mem_cons] at h
    refine (h.1.operand scope).bind fun value _ => ?_
    split_ifs
    · exact .ok _
    · exact ih h.2

theorem IsPlain.atom (h : o.IsPlain) : Unmarked (o.atom scope) := by
  unfold Operator.atom
  by_cases hdefined : o.is "op" "is-defined" = true
  · rw [if_pos hdefined]
    refine (h.operands scope 1).bind fun values _ => ?_
    split <;> exact .ok _
  rw [if_neg hdefined]
  by_cases hin : o.is "op" "in" = true
  · rw [if_pos hin]
    refine h.expressions.bind fun nodes hnodes => ?_
    cases nodes with
    | nil => exact .badPlan (by decide)
    | cons column candidates =>
      refine ((h.of_expressions hnodes List.mem_cons_self).operand scope).bind fun cell _ => ?_
      split_ifs
      · exact .ok _
      · exact membership_unmarked scope (fun x hx => h.of_expressions hnodes (List.mem_cons_of_mem _ hx)) cell
  rw [if_neg hin]
  cases (if o.ns == "op" then Comparator.ofOrderName? o.name
    else if o.ns == "fn" then Comparator.ofTextName? o.name else none) with
  | some c =>
    refine (h.operands scope 2).bind fun values _ => ?_
    split <;> exact .ok _
  | none =>
    have hfixed : Plain "unknown function " := by decide
    exact .badPlan (by simp only [plain_append, h.title, hfixed, and_self])

end Operator

namespace Arg

variable (scope : Scope)

mutual

/-- evaluating an expression without `$` is never answered with one -/
theorem truth_unmarked : ∀ a : Arg, Plain a.display → Unmarked (a.truth scope)
  | .node ns name args, h => by
    have hoperator : (Operator.mk ns name args).IsPlain := h
    obtain ⟨_, _, hargs⟩ := (plain_node ns name args).1 h
    rw [truth]
    split_ifs
    · exact hoperator.expressions.bind fun _ _ => truthOfAll_unmarked args hargs (some true)
    · exact hoperator.expressions.bind fun _ _ => truthOfAny_unmarked args hargs (some false)
    · refine hoperator.expressions.bind fun nodes _ => ?_
      split
      · exact (truthOfFirst_unmarked args hargs).bind fun t _ => .ok _
      · exact .badPlan (by decide)
    · exact hoperator.atom scope
  | .list items, _ => by
    rw [truth]
    · exact .badPlan (by decide)
    · exact nofun
  | .scalar value, _ => by
    rw [truth]
    · exact .badPlan (by decide)
    · exact nofun

theorem truthOfAll_unmarked : ∀ (args : List Arg), (∀ a ∈ args, Plain a.display) → ∀ sofar : Truth,
    Unmarked (truthOfAll scope sofar args)
  | [], _, sofar => by
    rw [truthOfAll]
    exact .ok _
  | x :: xs, h, sofar => by
    rw [List.forall_mem_cons] at h
    rw [truthOfAll]
    refine (truth_unmarked x h.1).bind fun t _ => ?_
    split
    · exact .ok _
    · exact truthOfAll_unmarked xs h.2 none
    · exact truthOfAll_unmarked xs h.2 sofar

theorem truthOfAny_unmarked : ∀ (args : List Arg), (∀ a ∈ args, Plain a.display) → ∀ sofar : Truth,
    Unmarked (truthOfAny scope sofar args)
  | [], _, sofar => by
    rw [truthOfAny]
    exact .ok _
  | x :: xs, h, sofar => by
    rw [List.forall_mem_cons] at h
    rw [truthOfAny]
    refine (truth_unmarked x h.1).bind fun t _ => ?_
    split
    · exact .ok _
    · exact truthOfAny_unmarked xs h.2 none
    · exact truthOfAny_unmarked xs h.2 sofar

theorem truthOfFirst_unmarked : ∀ (args : List Arg), (∀ a ∈ args, Plain a.display) → Unmarked (truthOfFirst scope args)
  | [], _ => by
    rw [truthOfFirst]
    exact .ok _
  | x :: xs, h => by
    rw [List.forall_mem_cons] at h
    rw [truthOfFirst]
    exact truth_unmarked x h.1

end

end Arg

/-! ## Queries -/

namespace ResultSet

variable {o : Operator}

theorem keepWhere_unmarked (params : SortedMap Value) (h : o.IsPlain) (rows : List JsonRow) :
    Unmarked (keepWhere params o rows) := by
  induction rows with
  | nil => exact .ok _
  | cons row rows ih =>
    have hholds : Unmarked (o.holds ⟨params, row⟩) :=
      (Arg.truth_unmarked ⟨params, row⟩ (.ofOperator o) h).bind fun t _ => .ok _
    exact hholds.bind fun kept _ => ih.bind fun rest _ => .ok _

theorem selectedColumns_unmarked (h : o.IsPlain) : Unmarked o.selectedColumns := by
  obtain ⟨_, _, hargs⟩ := Operator.isPlain_iff.1 h
  have hfixed : Plain "malformed column reference " ∧ Plain "unsupported select item " := by decide
  unfold Operator.selectedColumns
  split
  · next items rest hlist =>
    have hitems := (Arg.plain_list items).1 (hargs _ (hlist ▸ List.mem_cons_self))
    refine Unmarked.mapM fun item hitem => ?_
    cases hcolumn : item.operator? with
    | none => exact .badPlan (by simp only [plain_append, hitems item hitem, hfixed, and_self])
    | some column =>
      have hdisplay : Plain column.display := by
        have := hitems item hitem
        rwa [Arg.eq_of_operator? hcolumn] at this
      dsimp only
      cases column.args.getLast?.bind Arg.string? with
      | some name => exact .ok _
      | none => exact .badPlan (by simp only [plain_append, hdisplay, hfixed, and_self])
  · exact .badPlan (by decide)

theorem limitCount_unmarked (h : o.IsPlain) : Unmarked o.limitCount := by
  obtain ⟨_, _, hargs⟩ := Operator.isPlain_iff.1 h
  have hfixed : Plain "invalid limit " := by decide
  unfold Operator.limitCount
  split
  · next value rest hscalar =>
    have hrender : Plain value.render := (Arg.plain_scalar value).1 (hargs _ (hscalar ▸ List.mem_cons_self))
    have hrefused : Plain ("invalid limit " ++ value.render) := by simp only [plain_append, hrender, hfixed, and_self]
    cases value with
    | number n =>
      dsimp only
      cases n.nat? with
      | some n => exact .ok _
      | none => exact .badPlan hrefused
    | _ => exact .badPlan hrefused
  · exact .badPlan (by decide)

theorem step_unmarked (params : SortedMap Value) (r : ResultSet) (h : o.IsPlain) : Unmarked (step params r o) := by
  unfold step
  split_ifs
  · cases hchildren : o.children with
    | nil => exact .badPlan (by decide)
    | cons x xs =>
      have hx : x.IsPlain := (Operator.isPlain_iff.1 h).2.2 _ (Operator.mem_args_of_children (hchildren ▸ List.mem_cons_self))
      exact (keepWhere_unmarked params hx r.rows).bind fun rows _ => .ok _
  · exact (selectedColumns_unmarked h).bind fun columns _ => .ok _
  · exact (limitCount_unmarked h).bind fun count _ => .ok _
  · have hfixed : Plain "unsupported operator " := by decide
    exact .badPlan (by simp only [plain_append, h.title, hfixed, and_self])

theorem steps_unmarked (params : SortedMap Value) {steps : List Operator} (h : ∀ o ∈ steps, o.IsPlain) (r : ResultSet) :
    Unmarked (steps.foldlM (step params) r) := by
  induction steps generalizing r with
  | nil => exact .ok _
  | cons o steps ih =>
    rw [List.forall_mem_cons] at h
    rw [List.foldlM_cons]
    exact (step_unmarked params r h.1).bind fun r' _ => ih h.2 r'

end ResultSet

/-- **No query without `$` is answered with one**, whatever the views and whatever the range -/
theorem Engine.execute_unmarked (e : Engine) {q : Query} (h : q.plan.IsPlain) (range : RowRange) :
    Unmarked (e.execute q range) := by
  obtain ⟨_, _, hargs⟩ := Operator.isPlain_iff.1 h
  obtain ⟨hfrom, hchain⟩ := List.forall_mem_cons.1 hargs
  obtain ⟨_, _, hsource⟩ := (Arg.plain_node _ _ _).1 hfrom
  unfold execute
  cases hview : q.sourceView with
  | none => exact .badPlan (by decide)
  | some reference =>
    dsimp only
    cases e.findView reference with
    | none =>
      obtain ⟨name, hname, rfl⟩ := Option.map_eq_some_iff.1 hview
      obtain ⟨a, ha, hname⟩ := Option.bind_eq_some_iff.1 hname
      have hplain : Plain name := Arg.plain_string? (hsource a (List.mem_of_getElem? ha)) hname
      have hfixed : Plain "SQL-TABLENOTFOUND: Unknown table: " := by decide
      intro cause hcause
      cases hcause
      simp only [RemoteError.message, plain_append, hplain, hfixed, and_self]
    | some v =>
      refine ResultSet.steps_unmarked _ (fun o ho => ?_) _
      obtain ⟨a, ha, hoperator⟩ := List.mem_filterMap.1 ho
      have := hchain a ha
      rwa [Arg.eq_of_operator? hoperator] at this

end PartitionedScan
