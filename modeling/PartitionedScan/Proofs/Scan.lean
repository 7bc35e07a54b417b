/-
Pushing predicates loses no row and keeps no wrong one.

Every predicate is compiled alone when it is offered and once more with all the others when the query is built. Both
compilations agree, because the numbers of placeholders are only names; so the conjunction of the pushed filters always
compiles, is true wherever all of them are, and where it is true so is every filter of which nothing was left out
(`Conjoins`). What the host still has to test is exactly the rest. Main result:
- `pushdown_sound`: any sequence of pushes builds; the report accounts for every predicate; a row of the base result
  passes all predicates when the built query keeps it and the returned predicates hold on it, and only then.
-/
import PartitionedScan.Proofs.Filter.Application
import PartitionedScan.Proofs.Predicate
import PartitionedScan.Scan

namespace PartitionedScan

namespace Filter

variable {schema : Option Schema} {policy : FallbackPolicy}

/-! ## Conjunctions of compiled filters -/

/-- a truth stands for the conjunction of filters: it is true when all of them are, and where it is true so is every
filter of which nothing is left out -/
structure Conjoins (schema : Option Schema) (policy : FallbackPolicy) (row : JsonRow) (fs : List Filter) (t : Truth) :
    Prop where
  complete : (∀ f ∈ fs, f.truth row = some true) → t = some true
  sound : t = some true → ∀ f ∈ fs, ∀ c, f.compile schema policy = .ok c → c.dropped = [] → f.truth row = some true

theorem Conjoins.nil (row : JsonRow) : Conjoins schema policy row [] (some true) :=
  ⟨fun _ => rfl, fun _ f hf => by cases hf⟩

/-- one compiled filter, numbered from anywhere, in front of a conjunction -/
theorem Conjoins.cons {row : JsonRow} {x : Filter} {xs : List Filter} {t ts : Truth} {next : Nat} {r : Compiled Operator}
    (hx : compileFrom schema policy false next x = .ok r) (hwidens : Truth.Widens false (x.truth row) t)
    (heq : r.dropped = [] → t = x.truth row) (h : Conjoins schema policy row xs ts) :
    Conjoins schema policy row (x :: xs) (Truth.conj t ts) := by
  constructor
  · intro hall
    rw [List.forall_mem_cons] at hall
    exact (Truth.conj_eq_true_iff t ts).2 ⟨Truth.eq_true_of_rank_le hwidens hall.1, h.complete hall.2⟩
  · intro htrue f hf c hc hd
    obtain ⟨ht, hts⟩ := (Truth.conj_eq_true_iff t ts).1 htrue
    rcases List.mem_cons.1 hf with rfl | hf
    · obtain ⟨s, hs, rfl⟩ := compile_eq_ok_iff.1 hc
      obtain ⟨s', hs', hcontents⟩ := compileFrom_ok_renumber hx 0
      rw [hs] at hs'
      cases hs'
      rw [← heq ((congrArg Prod.snd hcontents).trans hd)]
      exact ht
    · exact h.sound hts f hf c hc hd

/-- filters that compile alone compile side by side -/
theorem compileAll_conjoins {xs : List Filter} (h : ∀ x ∈ xs, ∃ c, x.compile schema policy = .ok c) (drop : Bool)
    (next : Nat) :
    ∃ rs, compileAll schema policy drop false next xs = .ok rs ∧ rs.document.length = xs.length ∧
      ∀ scope : Scope, Bound scope.params next rs.values → ∃ (ops : List Operator) (ts : List Truth),
        rs.document = ops.map Arg.ofOperator ∧
        Arg.Evaluates scope rs.document ts ∧ Conjoins schema policy scope.row xs (Truth.all ts) := by
  induction xs generalizing next with
  | nil => exact ⟨_, compileAll_nil, rfl, fun scope _ => ⟨[], [], rfl, .nil, .nil scope.row⟩⟩
  | cons x xs ih =>
    rw [List.forall_mem_cons] at h
    obtain ⟨c, hc⟩ := h.1
    obtain ⟨s, hs, _⟩ := compile_eq_ok_iff.1 hc
    obtain ⟨r, hr, _⟩ := compileFrom_ok_renumber hs next
    obtain ⟨rest, hrest, hlen, hconj⟩ := ih h.2 (next + r.values.length)
    refine ⟨⟨.ofOperator r.document :: rest.document, r.values ++ rest.values, r.dropped ++ rest.dropped⟩, ?_, ?_, ?_⟩
    · rw [compileAll, hr]
      simp only [hrest]
    · rw [List.length_cons, List.length_cons, hlen]
    · intro scope hb
      obtain ⟨t, ht, hwidens, heq⟩ := evaluates_widened scope hr hb.left
      obtain ⟨ops, ts, hops, hts, hall⟩ := hconj scope hb.right
      exact ⟨r.document :: ops, t :: ts, by rw [hops, List.map_cons], .cons ht hts, .cons hr hwidens heq hall⟩

end Filter

/-! ## Offers -/

namespace Predicate

/-- the filter of a predicate and its compilation, if it has both -/
def offer? (schema : Option Schema) (policy : FallbackPolicy) (p : Predicate) : Option (Filter × Compilation) :=
  match p.translate with
  | .error _ => none
  | .ok f =>
    match f.compile schema policy with
    | .error _ => none
    | .ok c => some (f, c)

/-- whether a predicate is pushed to the engine -/
def pushes (schema : Option Schema) (policy : FallbackPolicy) (p : Predicate) : Bool :=
  (p.offer? schema policy).isSome

/-- whether a predicate stays with the host: it has no compilation, or not all of it -/
def keeps (schema : Option Schema) (policy : FallbackPolicy) (p : Predicate) : Bool :=
  (p.offer? schema policy).elim true fun o => !o.2.isComplete

variable {schema : Option Schema} {policy : FallbackPolicy} {p : Predicate}

theorem offer?_eq_some_iff {f : Filter} {c : Compilation} :
    p.offer? schema policy = some (f, c) ↔ p.translate = .ok f ∧ f.compile schema policy = .ok c := by
  constructor
  · intro h
    unfold offer? at h
    split at h
    · cases h
    · next g hg =>
      split at h
      · cases h
      · next d hd =>
        cases h
        exact ⟨hg, hd⟩
  · rintro ⟨hf, hc⟩
    simp only [offer?, hf, hc]

/-- a predicate is pushed, or kept, or both; both when a part of it was left out -/
theorem pushes_or_keeps : (p.pushes schema policy = true ∨ p.keeps schema policy = true) ∧
    (p.pushes schema policy = true ∧ p.keeps schema policy = true ↔
      ∃ f c, p.translate = .ok f ∧ f.compile schema policy = .ok c ∧ c.dropped ≠ []) := by
  simp only [← and_assoc, ← offer?_eq_some_iff]
  unfold pushes keeps
  cases p.offer? schema policy with
  | none => simp
  | some o =>
    obtain ⟨f, c⟩ := o
    refine ⟨Or.inl rfl, ?_⟩
    simp only [Option.isSome_some, Option.elim_some, true_and, Option.some.injEq, Prod.mk.injEq, Compilation.isComplete,
      Bool.not_eq_true', List.isEmpty_eq_false_iff]
    constructor
    · intro h; exact ⟨f, c, ⟨rfl, rfl⟩, h⟩
    · rintro ⟨_, _, ⟨rfl, rfl⟩, h⟩; exact h

end Predicate

/-! ## Pushing -/

namespace Scan

/-- pushes several lists of predicates one after another and returns all that the host must still test -/
def pushCalls (s : Scan) : List (List Predicate) → Scan × List Predicate
  | [] => (s, [])
  | ps :: calls =>
    let (s, kept) := s.pushPredicates ps
    let (s, rest) := s.pushCalls calls
    (s, kept ++ rest)

theorem accept?_eq (s : Scan) (p : Predicate) :
    s.accept? p = (p.offer? s.schema s.policy).map fun o => (o.1, o.2.isComplete) := by
  unfold accept? Predicate.offer?
  cases p.translate with
  | error e => rfl
  | ok f =>
    simp only
    cases f.compile s.schema s.policy <;> rfl

/-- the scan after offers: what is pushed and what is kept is noted, the rest stays -/
def afterOffers (s : Scan) (ps : List Predicate) : Scan :=
  { s with
    filters := s.filters ++ ps.filterMap fun p => (p.offer? s.schema s.policy).map Prod.fst
    pushed := s.pushed ++ (ps.filter (Predicate.pushes s.schema s.policy)).map Predicate.display
    residual := s.residual ++ (ps.filter (Predicate.keeps s.schema s.policy)).map Predicate.display }

theorem afterOffers_nil (s : Scan) : s.afterOffers [] = s := by
  simp [afterOffers]

theorem afterOffers_append (s : Scan) (ps qs : List Predicate) :
    (s.afterOffers ps).afterOffers qs = s.afterOffers (ps ++ qs) := by
  simp [afterOffers]

theorem pushPredicate_eq (s : Scan) (p : Predicate) :
    s.pushPredicate p = (s.afterOffers [p], p.keeps s.schema s.policy) := by
  rw [pushPredicate, accept?_eq]
  unfold afterOffers Predicate.keeps
  cases ho : p.offer? s.schema s.policy with
  | none => simp [Predicate.pushes, ho]
  | some o =>
    obtain ⟨f, c⟩ := o
    cases hc : c.isComplete <;> simp [Predicate.pushes, ho, hc]

theorem pushPredicates_eq (s : Scan) (ps : List Predicate) :
    s.pushPredicates ps = (s.afterOffers ps, ps.filter (Predicate.keeps s.schema s.policy)) := by
  induction ps generalizing s with
  | nil => rw [pushPredicates, afterOffers_nil]; rfl
  | cons p ps ih =>
    rw [pushPredicates, pushPredicate_eq]
    simp only [ih]
    rw [afterOffers_append, List.filter_cons]
    rfl

/-- several calls come to one call with everything -/
theorem pushCalls_eq (s : Scan) (calls : List (List Predicate)) :
    s.pushCalls calls = (s.afterOffers calls.flatten, calls.flatten.filter (Predicate.keeps s.schema s.policy)) := by
  induction calls generalizing s with
  | nil => rw [pushCalls, List.flatten_nil, afterOffers_nil]; rfl
  | cons ps calls ih =>
    rw [pushCalls, pushPredicates_eq]
    simp only [ih]
    rw [afterOffers_append, List.flatten_cons, List.filter_append]
    rfl

/-! ## Building -/

/-- filters that compile alone have a conjunction that compiles, and it evaluates to a truth that stands for them -/
theorem combined_compiles {s : Scan} (hc : ∀ f ∈ s.filters, ∃ c, f.compile s.schema s.policy = .ok c)
    (hne : s.filters ≠ []) :
    ∃ f c values, s.combined? = some f ∧ f.compile s.schema s.policy = .ok c ∧ c.bindings = literalBindings values ∧
      ∀ scope : Scope, Bound scope.params 0 values → ∃ t, c.document.truth scope = .ok t ∧
        Filter.Conjoins s.schema s.policy scope.row s.filters t := by
  unfold combined?
  match hfs : s.filters with
  | [] => exact absurd hfs hne
  | [f] =>
    obtain ⟨c, hf⟩ := hc f (by rw [hfs]; exact List.mem_singleton_self f)
    obtain ⟨r, hr, rfl⟩ := Filter.compile_eq_ok_iff.1 hf
    refine ⟨f, _, r.values, rfl, hf, rfl, ?_⟩
    intro scope hb
    obtain ⟨t, ht, hwidens, heq⟩ := Filter.evaluates_widened scope hr hb
    have hconj := Filter.Conjoins.cons hr hwidens heq (.nil scope.row)
    rw [Truth.conj_true] at hconj
    exact ⟨t, ht, hconj⟩
  | f :: g :: fs =>
    rw [hfs] at hc
    obtain ⟨rs, hrs, hlen, hconj⟩ := Filter.compileAll_conjoins hc (Filter.droppable s.policy false .and) 0
    have harity : Combinator.and.arity.allows (f :: g :: fs).length = true := by
      simp [Combinator.arity, Arity.allows]
    have hdocument : rs.document ≠ [] := by
      intro hnil
      rw [hnil] at hlen
      cases hlen
    have hr := Filter.compileFrom_of_compileAll harity hrs hdocument
    refine ⟨_, _, rs.values, rfl, Filter.compile_eq_ok_iff.2 ⟨_, hr, rfl⟩, rfl, ?_⟩
    intro scope hb
    obtain ⟨ops, ts, hops, hts, hall⟩ := hconj scope hb
    refine ⟨Truth.all ts, ?_, hall⟩
    rw [hops] at hts hlen ⊢
    rw [← hlen, List.length_map] at harity
    exact Arg.truth_op harity hts

/-- the rows of a base query that pass the pushed filters of a scan -/
theorem build_filters {s : Scan} (hc : ∀ f ∈ s.filters, ∃ c, f.compile s.schema s.policy = .ok c)
    (hcolumns : s.columns = none) (hlimit : s.limit = none) (hfree : ∀ n, ¬ s.base.Mentions (placeholder n)) :
    ∃ built report, s.build = .ok (built, report) ∧ report.pushed = s.pushed ∧ report.residual = s.residual ∧
      ∀ (e : Engine) (range : RowRange) (result : ResultSet), e.execute s.base range = .ok result →
        ∃ keep : JsonRow → Bool, e.execute built range = .ok { result with rows := result.rows.filter keep } ∧
          ∀ row ∈ result.rows, ∃ t, (keep row = true ↔ t = some true) ∧
            Filter.Conjoins s.schema s.policy row s.filters t := by
  by_cases hne : s.filters = []
  · have hnone : s.combined? = none := by rw [combined?, hne]
    refine ⟨s.base, ⟨s.pushed, s.residual, s.columns, s.limit, []⟩, ?_, rfl, rfl, ?_⟩
    · simp [build, hnone, hcolumns, hlimit, bind, Except.bind, pure, Except.pure]
    · intro e range result hbase
      refine ⟨fun _ => true, ?_, fun row _ => ⟨some true, by simp, hne ▸ .nil row⟩⟩
      rw [hbase, List.filter_true]
  · obtain ⟨f, c, values, hf, hcompile, hbindings, heval⟩ := combined_compiles hc hne
    refine ⟨s.base.applyFilter c, ⟨s.pushed, s.residual, s.columns, s.limit, c.dropped⟩, ?_, rfl, rfl, ?_⟩
    · simp [build, hf, hcompile, hcolumns, hlimit, bind, Except.bind, pure, Except.pure]
    · intro e range result hbase
      have hbound := Bound.of_literals s.base.params values
      rw [← hbindings] at hbound
      choose t ht hconj using fun row => heval ⟨s.base.params.insertAll c.bindings, row⟩ hbound
      have hspares : s.base.Spares c.bindings := by
        rw [hbindings]
        exact Query.spares_of_free hfree values
      have hholds (row : JsonRow) :
          c.document.holds ⟨s.base.params.insertAll c.bindings, row⟩ = .ok (t row == some true) := by
        rw [Operator.holds, ht row]
        rfl
      refine ⟨fun row => t row == some true, ?_, fun row _ => ⟨t row, by simp, hconj row⟩⟩
      rw [Engine.execute_applyFilter hholds, e.execute_bindAll hspares, hbase]
      rfl

/-- **Pushdown accounting is sound.** Over a base query that mentions no placeholder, any sequence of pushes builds; every
predicate is noted as pushed or as residual, and as both just when a part of it was left out; and of the rows of the base
query, all predicates are true exactly on those that the built query keeps and on which every returned predicate is
true. -/
theorem pushdown_sound (base : Query) (schema : Option Schema) (policy : FallbackPolicy) (calls : List (List Predicate))
    (hfree : ∀ n, ¬ base.Mentions (placeholder n)) :
    ∃ built report, ((ofQuery base schema policy).pushCalls calls).1.build = .ok (built, report) ∧
      report.pushed = (calls.flatten.filter (Predicate.pushes schema policy)).map Predicate.display ∧
      report.residual = (calls.flatten.filter (Predicate.keeps schema policy)).map Predicate.display ∧
      ((ofQuery base schema policy).pushCalls calls).2 = calls.flatten.filter (Predicate.keeps schema policy) ∧
      (∀ p : Predicate, (p.pushes schema policy = true ∨ p.keeps schema policy = true) ∧
        (p.pushes schema policy = true ∧ p.keeps schema policy = true ↔
          ∃ f c, p.translate = .ok f ∧ f.compile schema policy = .ok c ∧ c.dropped ≠ [])) ∧
      ∀ (e : Engine) (range : RowRange) (result : ResultSet), e.execute base range = .ok result →
        ∃ keep : JsonRow → Bool, e.execute built range = .ok { result with rows := result.rows.filter keep } ∧
          ∀ row ∈ result.rows, ∀ unmapped : Predicate → Truth,
            (∀ p ∈ calls.flatten, p.truth unmapped row = some true) ↔
              keep row = true ∧
                ∀ p ∈ ((ofQuery base schema policy).pushCalls calls).2, p.truth unmapped row = some true := by
  rw [pushCalls_eq]
  set ps := calls.flatten
  have hmem {f : Filter} : f ∈ ((ofQuery base schema policy).afterOffers ps).filters ↔
      ∃ p ∈ ps, ∃ c, p.translate = .ok f ∧ f.compile schema policy = .ok c := by
    simp only [afterOffers, ofQuery, List.nil_append, List.mem_filterMap, Option.map_eq_some_iff, Prod.exists,
      exists_and_right, exists_eq_right, Predicate.offer?_eq_some_iff]
  have hcompiles : ∀ f ∈ ((ofQuery base schema policy).afterOffers ps).filters, ∃ c, f.compile schema policy = .ok c := by
    intro f hf
    obtain ⟨p, _, c, _, hc⟩ := hmem.1 hf
    exact ⟨c, hc⟩
  obtain ⟨built, report, hbuild, hpushed, hresidual, hrows⟩ := build_filters hcompiles rfl rfl hfree
  refine ⟨built, report, hbuild, hpushed, hresidual, rfl, fun p => Predicate.pushes_or_keeps, ?_⟩
  intro e range result hbase
  obtain ⟨keep, hbuilt, hkeep⟩ := hrows e range result hbase
  refine ⟨keep, hbuilt, ?_⟩
  intro row hrow unmapped
  obtain ⟨t, ht, hconj⟩ := hkeep row hrow
  rw [ht]
  constructor
  · intro hall
    constructor
    · apply hconj.complete
      intro f hf
      obtain ⟨p, hp, c, htranslate, _⟩ := hmem.1 hf
      rw [Predicate.truth_of_translate unmapped row htranslate]
      exact hall p hp
    · intro p hp
      exact hall p (List.mem_filter.1 hp).1
  · rintro ⟨htrue, hresidual⟩ p hp
    cases hk : p.keeps schema policy with
    | true => exact hresidual p (List.mem_filter.2 ⟨hp, hk⟩)
    | false =>
      -- a predicate that the host need not test was compiled as a whole
      unfold Predicate.keeps at hk
      cases ho : p.offer? schema policy with
      | none => rw [ho] at hk; cases hk
      | some o =>
        obtain ⟨f, c⟩ := o
        rw [ho] at hk
        obtain ⟨htranslate, hcompile⟩ := Predicate.offer?_eq_some_iff.1 ho
        rw [← Predicate.truth_of_translate unmapped row htranslate]
        exact hconj.sound htrue f (hmem.2 ⟨p, hp, c, htranslate, hcompile⟩) c hcompile
          (by simpa [Compilation.isComplete] using hk)

/-- two calls: one predicate loses a part, one has no filter, one is pushed as a whole -/
def offeredTwice : List (List Predicate) :=
  [[.and (.isNotNull "name") (.startsWith "" "A"), .alwaysTrue], [.isNull "zip"]]

theorem pushdown_sound_two_calls :
    (∀ n, ¬ (Query.fromView ⟨none, "people"⟩).Mentions (placeholder n)) ∧
    ∃ built report,
      ((ofQuery (.fromView ⟨none, "people"⟩) none .dropUnsupported).pushCalls offeredTwice).1.build = .ok (built, report) ∧
      report.pushed = ["And(IsNotNull(name),StringStartsWith(,A))", "IsNull(zip)"] ∧
      report.residual = ["And(IsNotNull(name),StringStartsWith(,A))", "AlwaysTrue"] := by
  have hfree (n : Nat) : ¬ (Query.fromView ⟨none, "people"⟩).Mentions (placeholder n) := by
    rintro ⟨o, ho, _⟩
    cases ho
  obtain ⟨built, report, hbuild, hpushed, hresidual, _⟩ :=
    pushdown_sound (.fromView ⟨none, "people"⟩) none .dropUnsupported offeredTwice hfree
  exact ⟨hfree, built, report, hbuild, hpushed, hresidual⟩

end Scan

end PartitionedScan
