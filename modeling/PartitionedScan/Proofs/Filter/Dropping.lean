/-
Leaving parts out of a filter never loses rows.

A place of the document leads back to a place of the filter: children that were left out are skipped, so the numbers of
the ones behind them shift. `origin` is that way back. Reading the document with the truths that the filter has at the
origins, the document moves only to the allowed side of the filter: up, or down under an odd number of `not`s. The
invariant is one lemma over both recursions of the compiler (`truthBy_widens` for trees, `truthsBy_thinned` for children);
parity enters only through `Combinator.combine_widens`. Main results:
- `at?_origin`: every part of the document is compiled from the part of the filter at its origin;
- `origin_injective`: two parts of the document never have one origin;
- `dropping_never_narrows`: what makes the filter true makes the document true.
-/
import PartitionedScan.Proofs.Filter.Compilation
import PartitionedScan.Proofs.Filter.Meaning

namespace PartitionedScan

namespace Arg

theorem truthBy_atom {a : Arg} (h : a.connective? = none) (v : Place → Truth) : a.truthBy v = v [] := by
  cases a with
  | node ns name args =>
    rw [truthBy]
    simp only [connective?] at h
    split_ifs at h ⊢
    · rw [Option.map_eq_none_iff] at h
      rw [h]
    · rfl
  | list items => rw [truthBy]; exact nofun
  | scalar value => rw [truthBy]; exact nofun

@[simp] theorem connective?_op (function : Combinator) (args : List Arg) :
    (ofOperator (.op function.functionName args)).connective? = some (function, args) := by
  simp [ofOperator, Operator.op, connective?]

theorem truthBy_op (function : Combinator) (args : List Arg) (v : Place → Truth) :
    (ofOperator (.op function.functionName args)).truthBy v =
      if function.arity.allows args.length then function.combine (truthsBy v 0 args) else v [] := by
  simp [ofOperator, Operator.op, truthBy]

end Arg

/-- no comparison has the name of a connective in the namespace of connectives -/
theorem Comparator.not_connective (c : Comparator) :
    (if c.ns = "op" then Combinator.ofName? c.functionName else none) = none := by
  cases c <;> decide

theorem Leaf.document_atom (l : Leaf) (next : Nat) : (Arg.ofOperator (l.document next)).connective? = none := by
  have h := l.comparator.not_connective
  simp only [document, Arg.ofOperator, Arg.connective?]
  split_ifs at h ⊢
  · rw [h]; rfl
  · rfl

namespace Filter

variable {schema : Option Schema} {policy : FallbackPolicy}

/-! ## Where the parts of a document come from -/

/-- whether a filter compiles -/
def compiles (schema : Option Schema) (policy : FallbackPolicy) (negated : Bool) (f : Filter) : Bool :=
  (compileFrom schema policy negated 0 f).isOk

/-- the children that compile, each with its number; the first child has number `k` -/
def survivors (schema : Option Schema) (policy : FallbackPolicy) (negated : Bool) (k : Nat) (xs : List Filter) :
    List (Filter × Nat) :=
  (xs.zipIdx k).filter fun x => compiles schema policy negated x.1

/-- the place in a filter of what stands at a place of its document -/
def origin (schema : Option Schema) (policy : FallbackPolicy) : Bool → Filter → Place → Place
  | _, _, [] => []
  | _, .leaf _, i :: p => i :: p
  | negated, .composite function children, i :: p =>
    match (survivors schema policy (negated ^^ (function == .not)) 0 children)[i]? with
    | some (x, k) => k :: origin schema policy (negated ^^ (function == .not)) x p
    | none => i :: p

theorem origin_nil (f : Filter) (negated : Bool) : f.origin schema policy negated [] = [] := by
  rw [origin]

theorem origin_cons_ne_nil (f : Filter) (negated : Bool) (i : Nat) (p : Place) :
    f.origin schema policy negated (i :: p) ≠ [] := by
  cases f with
  | leaf l => exact List.cons_ne_nil i p
  | composite function children =>
    rw [origin]
    split <;> exact List.cons_ne_nil _ _

theorem compiles_of_ok {negated : Bool} {next : Nat} {f : Filter} {r : Compiled Operator}
    (h : compileFrom schema policy negated next f = .ok r) : compiles schema policy negated f = true := by
  obtain ⟨s, hs, _⟩ := compileFrom_ok_renumber h 0
  rw [compiles, hs]
  rfl

theorem compiles_of_error {negated : Bool} {next : Nat} {f : Filter} {e : CompileError}
    (h : compileFrom schema policy negated next f = .error e) : compiles schema policy negated f = false := by
  rw [compiles]
  cases h0 : compileFrom schema policy negated 0 f with
  | error e' => rfl
  | ok r =>
    obtain ⟨s, hs, _⟩ := compileFrom_ok_renumber h0 next
    rw [h] at hs
    cases hs

theorem survivors_cons_ok {negated : Bool} {k : Nat} {x : Filter} {xs : List Filter}
    (h : compiles schema policy negated x = true) :
    survivors schema policy negated k (x :: xs) = (x, k) :: survivors schema policy negated (k + 1) xs := by
  simp [survivors, h]

theorem survivors_cons_error {negated : Bool} {k : Nat} {x : Filter} {xs : List Filter}
    (h : compiles schema policy negated x = false) :
    survivors schema policy negated k (x :: xs) = survivors schema policy negated (k + 1) xs := by
  simp [survivors, h]

/-- a survivor is the child with its number -/
theorem getElem?_of_survivors {negated : Bool} {xs : List Filter} {i k : Nat} {x : Filter}
    (h : (survivors schema policy negated 0 xs)[i]? = some (x, k)) : xs[k]? = some x := by
  have hmem := List.mem_of_getElem? h
  exact List.mem_zipIdx_iff_getElem?.1 (List.mem_filter.1 hmem).1

/-- no child survives twice -/
theorem survivors_injective {negated : Bool} {xs : List Filter} {i j k : Nat} {x y : Filter}
    (hi : (survivors schema policy negated 0 xs)[i]? = some (x, k))
    (hj : (survivors schema policy negated 0 xs)[j]? = some (y, k)) : i = j := by
  have hnodup : ((survivors schema policy negated 0 xs).map Prod.snd).Nodup := by
    refine List.Nodup.sublist (List.Sublist.map Prod.snd List.filter_sublist) ?_
    rw [List.zipIdx_map_snd]
    exact List.nodup_range'
  obtain ⟨hlt, _⟩ := List.getElem?_eq_some_iff.1 hi
  refine (List.getElem?_inj (by rwa [List.length_map]) hnodup).1 ?_
  rw [List.getElem?_map, List.getElem?_map, hi, hj]
  rfl

/-- an argument of a compiled composite is the document of the survivor with its number -/
theorem document_getElem? {drop negated : Bool} {next k i : Nat} {xs : List Filter} {rs : Compiled (List Arg)} {a : Arg}
    (h : compileAll schema policy drop negated next xs = .ok rs) (ha : rs.document[i]? = some a) :
    ∃ x m n r, (survivors schema policy negated k xs)[i]? = some (x, m) ∧
      compileFrom schema policy negated n x = .ok r ∧ a = .ofOperator r.document := by
  induction xs generalizing next k i rs with
  | nil =>
    rw [compileAll_nil] at h
    cases h
    cases ha
  | cons x xs ih =>
    rcases compileAll_cons h with ⟨r, rest, hx, hrest, rfl⟩ | ⟨e, rest, hx, _, hrest, rfl⟩
    · rw [survivors_cons_ok (compiles_of_ok hx)]
      cases i with
      | zero => exact ⟨x, k, next, r, rfl, hx, (Option.some.inj ha).symm⟩
      | succ i => exact ih hrest ha
    · rw [survivors_cons_error (compiles_of_error hx)]
      exact ih hrest ha

/-- **Every part has its origin.** What stands at a place of the document is compiled from what the filter has at the
origin of that place. -/
theorem at?_origin {negated : Bool} {next : Nat} {f : Filter} {r : Compiled Operator}
    (h : compileFrom schema policy negated next f = .ok r) {p : Place} {a : Arg}
    (ha : (Arg.ofOperator r.document).at? p = some a) :
    ∃ g below n s, f.at? (f.origin schema policy negated p) = some g ∧
      compileFrom schema policy below n g = .ok s ∧ a = .ofOperator s.document := by
  induction p generalizing negated next f r with
  | nil => exact ⟨f, negated, next, r, rfl, h, (Option.some.inj ha).symm⟩
  | cons i p ih =>
    cases f with
    | leaf l =>
      rw [compileFrom_leaf, Leaf.compile_eq_ok_iff] at h
      obtain ⟨_, rfl⟩ := h
      rw [Arg.at?, Leaf.document_atom] at ha
      cases ha
    | composite function children =>
      obtain ⟨_, rs, hrs, _, rfl⟩ := compileFrom_composite h
      rw [Arg.at?, Arg.connective?_op, Option.bind_some] at ha
      obtain ⟨b, hb, ha⟩ := Option.bind_eq_some_iff.1 ha
      obtain ⟨x, m, n, s, hx, hs, rfl⟩ := document_getElem? hrs hb (k := 0)
      obtain ⟨g, below, n', s', hg, hs', rfl⟩ := ih hs ha
      refine ⟨g, below, n', s', ?_, hs', rfl⟩
      simp only [origin, hx]
      rw [at?, child?, getElem?_of_survivors hx, Option.bind_some]
      exact hg

/-- **Origins are told apart.** Two parts of the document never come from one place of the filter. -/
theorem origin_injective {negated : Bool} {next : Nat} {f : Filter} {r : Compiled Operator}
    (h : compileFrom schema policy negated next f = .ok r) {p q : Place} {a b : Arg}
    (ha : (Arg.ofOperator r.document).at? p = some a) (hb : (Arg.ofOperator r.document).at? q = some b)
    (heq : f.origin schema policy negated p = f.origin schema policy negated q) : p = q := by
  induction p generalizing negated next f r q with
  | nil =>
    cases q with
    | nil => rfl
    | cons j q =>
      rw [origin_nil] at heq
      exact absurd heq.symm (origin_cons_ne_nil f negated j q)
  | cons i p ih =>
    cases f with
    | leaf l =>
      rw [compileFrom_leaf, Leaf.compile_eq_ok_iff] at h
      obtain ⟨_, rfl⟩ := h
      rw [Arg.at?, Leaf.document_atom] at ha
      cases ha
    | composite function children =>
      cases q with
      | nil => exact absurd heq (origin_cons_ne_nil _ negated i p)
      | cons j q =>
        obtain ⟨_, rs, hrs, _, rfl⟩ := compileFrom_composite h
        rw [Arg.at?, Arg.connective?_op, Option.bind_some] at ha hb
        obtain ⟨a', ha', ha⟩ := Option.bind_eq_some_iff.1 ha
        obtain ⟨b', hb', hq⟩ := Option.bind_eq_some_iff.1 hb
        obtain ⟨x, k, n, s, hx, hs, rfl⟩ := document_getElem? hrs ha' (k := 0)
        obtain ⟨y, m, _, t, hy, _, rfl⟩ := document_getElem? hrs hb' (k := 0)
        simp only [origin, hx, hy, List.cons.injEq] at heq
        obtain ⟨rfl, heq⟩ := heq
        obtain rfl := survivors_injective hx hy
        rw [hx] at hy
        cases hy
        rw [ha'] at hb'
        rw [← Option.some.inj hb'] at hq
        rw [ih hs ha hq heq]

/-! ## The reading of a document -/

mutual

/-- the document moves to the allowed side of its filter, and stays where it is when nothing was left out -/
theorem truthBy_widens : ∀ (f : Filter) {negated : Bool} {next : Nat} {r : Compiled Operator} (v : Place → Truth),
    compileFrom schema policy negated next f = .ok r →
    Truth.Widens negated (f.truthBy v)
        ((Arg.ofOperator r.document).truthBy fun p => v (f.origin schema policy negated p)) ∧
      (r.dropped = [] →
        (Arg.ofOperator r.document).truthBy (fun p => v (f.origin schema policy negated p)) = f.truthBy v)
  | .leaf l, negated, next, r, v, h => by
    rw [compileFrom_leaf, Leaf.compile_eq_ok_iff] at h
    obtain ⟨_, rfl⟩ := h
    rw [truthBy, Arg.truthBy_atom (l.document_atom next)]
    exact ⟨Truth.Widens.refl _ _, fun _ => rfl⟩
  | .composite function children, negated, next, r, v, h => by
    obtain ⟨harity, rs, hrs, harity', rfl⟩ := compileFrom_composite h
    obtain ⟨hthin, heq⟩ := truthsBy_thinned children (k := 0) (j := 0) (v := v) (w := fun p =>
      v ((composite function children).origin schema policy negated p)) hrs fun i x m hx p => by
        simp only [Nat.zero_add, origin, hx]
    rw [truthBy, if_pos harity, Arg.truthBy_op, if_pos harity']
    constructor
    · apply function.combine_widens _ hthin
      intro hd
      obtain ⟨hand, hneg, _⟩ := droppable_iff.1 hd
      exact ⟨hand, hneg⟩
    · intro hd
      rw [heq hd]

/-- the documents of children move to the allowed side of the children, except for those that were left out -/
theorem truthsBy_thinned : ∀ (xs : List Filter) {drop negated : Bool} {next k j : Nat} {rs : Compiled (List Arg)}
    {v w : Place → Truth}, compileAll schema policy drop negated next xs = .ok rs →
    (∀ i x m, (survivors schema policy negated k xs)[i]? = some (x, m) →
      ∀ p, w ((j + i) :: p) = v (m :: origin schema policy negated x p)) →
    Thinned drop negated (truthsBy v k xs) (Arg.truthsBy w j rs.document) ∧
      (rs.dropped = [] → Arg.truthsBy w j rs.document = truthsBy v k xs)
  | [], drop, negated, next, k, j, rs, v, w, h, hw => by
    rw [compileAll_nil] at h
    cases h
    exact ⟨.nil, fun _ => rfl⟩
  | x :: xs, drop, negated, next, k, j, rs, v, w, h, hw => by
    rcases compileAll_cons h with ⟨r, rest, hx, hrest, rfl⟩ | ⟨e, rest, hx, hd, hrest, rfl⟩
    · rw [survivors_cons_ok (compiles_of_ok hx)] at hw
      have hhead : (fun p => w (j :: p)) = fun p => v (k :: x.origin schema policy negated p) :=
        funext fun p => hw 0 x k rfl p
      obtain ⟨h1, h2⟩ := truthBy_widens x (fun p => v (k :: p)) hx
      obtain ⟨h3, h4⟩ := truthsBy_thinned xs (k := k + 1) (j := j + 1) (v := v) (w := w) hrest fun i y m hy p => by
        rw [← hw (i + 1) y m hy p, show j + (i + 1) = j + 1 + i by omega]
      rw [truthsBy, Arg.truthsBy, hhead]
      refine ⟨.keep h1 h3, ?_⟩
      intro hd
      obtain ⟨hr, hrs⟩ := List.append_eq_nil_iff.1 hd
      rw [h2 hr, h4 hrs]
    · rw [survivors_cons_error (compiles_of_error hx)] at hw
      obtain ⟨h3, _⟩ := truthsBy_thinned xs (k := k + 1) (j := j) (v := v) (w := w) hrest hw
      rw [truthsBy]
      exact ⟨.drop hd h3, fun hnil => by cases hnil⟩

end

/-- **Dropping never narrows.** When a filter compiles with parts left out, every part of the document is compiled from
the part of the filter at its origin, no two from the same, and truths for the leaves that make the filter true make the
document true with the same truths at what is left of it. -/
theorem dropping_never_narrows (schema : Option Schema) (f : Filter) (c : Compilation)
    (h : f.compile schema .dropUnsupported = .ok c) :
    (∀ p a, (Arg.ofOperator c.document).at? p = some a → ∃ g negated n r,
      f.at? (f.origin schema .dropUnsupported false p) = some g ∧
        compileFrom schema .dropUnsupported negated n g = .ok r ∧ a = .ofOperator r.document) ∧
    (∀ p q a b, (Arg.ofOperator c.document).at? p = some a → (Arg.ofOperator c.document).at? q = some b →
      f.origin schema .dropUnsupported false p = f.origin schema .dropUnsupported false q → p = q) ∧
    ∀ v : Place → Truth, f.truthBy v = some true →
      (Arg.ofOperator c.document).truthBy (fun p => v (f.origin schema .dropUnsupported false p)) = some true := by
  obtain ⟨r, hr, rfl⟩ := compile_eq_ok_iff.1 h
  refine ⟨fun p a ha => at?_origin hr ha, fun p q a b ha hb => origin_injective hr ha hb, ?_⟩
  intro v hv
  obtain ⟨hwidens, _⟩ := truthBy_widens f v hr
  exact Truth.eq_true_of_rank_le hwidens hv

/-- a conjunction whose second part loses a conjunct two levels down -/
def thinnedBelow : Filter :=
  .composite .and [.isDefined "id", .composite .or [.composite .and [.isDefined "", .isDefined "name"], .isDefined "zip"]]

/-- what is left of it -/
def thinnedBelowDocument : Operator :=
  .op "and" [.node "op" "is-defined" [.ofOperator (.column "id")], .node "op" "or"
    [.node "op" "and" [.node "op" "is-defined" [.ofOperator (.column "name")]],
      .node "op" "is-defined" [.ofOperator (.column "zip")]]]

theorem dropping_never_narrows_below :
    let v : Place → Truth := fun p => if p = [1, 1] then none else some true
    thinnedBelow.compile none .dropUnsupported = .ok ⟨thinnedBelowDocument, [], [.emptyAttribute "is-defined"]⟩ ∧
    thinnedBelow.origin none .dropUnsupported false [1, 0, 0] = [1, 0, 1] ∧ thinnedBelow.truthBy v = some true ∧
    (Arg.ofOperator thinnedBelowDocument).truthBy
      (fun p => v (thinnedBelow.origin none .dropUnsupported false p)) = some true :=
  ⟨by decide, by decide, by decide,
    (dropping_never_narrows none thinnedBelow ⟨thinnedBelowDocument, [], [.emptyAttribute "is-defined"]⟩
      (by decide)).2.2 (fun p => if p = [1, 1] then none else some true) (by decide)⟩

end Filter

end PartitionedScan
