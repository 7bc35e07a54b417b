/-
Leaving parts out is pruning first and compiling strictly after.

A filter that compiles with parts left out names, by its compiler alone, the places to cut: under every composite the children
that do not compile (`cuts`). Without them the filter compiles strictly, to the same document with the same literals. The
places are told apart as paths of child numbers: what holds of all of them together goes by the recursions of the compiler
(`compileFrom_without`, `errors_of_compileFrom`), what holds of one of them by induction on its path, with the parity of the
`not`s above it as the only memory (`Positive`). Main results:
- `compileFrom_of_strict`: what compiles strictly compiles to the same when parts may be left out;
- `compileFrom_without`: what is left of a filter compiles strictly;
- `cuts_of_survives`: what is left is cut as it would be on its own;
- `dropping_prunes`: leaving parts out, on a ledger or part by part, is pruning.
-/
import PartitionedScan.Proofs.Filter.Dropping
import PartitionedScan.Proofs.Filter.Rollback

namespace PartitionedScan

/-- at the first number where two places differ the one before has the smaller; so neither lies below the other -/
def Place.Before (p q : Place) : Prop :=
  ∃ (above : Place) (i j : Nat) (below below' : Place), i < j ∧ p = above ++ i :: below ∧ q = above ++ j :: below'

theorem Place.Before.cons {p q : Place} (h : Place.Before p q) (k : Nat) : Place.Before (k :: p) (k :: q) := by
  obtain ⟨above, i, j, below, below', hlt, rfl, rfl⟩ := h
  exact ⟨k :: above, i, j, below, below', hlt, rfl, rfl⟩

theorem Place.before_of_lt {i j : Nat} (h : i < j) (p q : Place) : Place.Before (i :: p) (j :: q) :=
  ⟨[], i, j, p, q, h, rfl, rfl⟩

namespace Filter

/-! ## Cutting parts out -/

mutual

/-- a filter without the parts at the places that are `gone`; the root stays -/
def without (gone : Place → Bool) : Filter → Filter
  | .leaf l => .leaf l
  | .composite function children => .composite function (withoutAll gone 0 children)

/-- children that are numbered from `k` on, without the parts at the places that are `gone` -/
def withoutAll (gone : Place → Bool) (k : Nat) : List Filter → List Filter
  | [] => []
  | x :: xs =>
    if gone [k] then withoutAll gone (k + 1) xs
    else without (fun p => gone (k :: p)) x :: withoutAll gone (k + 1) xs

end

/-- the root is a `not` -/
def isNot : Filter → Bool
  | .composite .not _ => true
  | _ => false

/-- the number of `not`s above a place -/
def nots (f : Filter) : Place → Nat
  | [] => 0
  | i :: p => (if f.isNot then 1 else 0) + (f.child? i).elim 0 fun x => x.nots p

mutual

/-- the places, from left to right, of the children that do not compile, under composites that do -/
def cuts (schema : Option Schema) (negated : Bool) : Filter → List Place
  | .leaf _ => []
  | .composite function children => cutsAll schema (negated ^^ (function == .not)) 0 children

/-- the same for children that are numbered from `k` on -/
def cutsAll (schema : Option Schema) (negated : Bool) (k : Nat) : List Filter → List Place
  | [] => []
  | x :: xs =>
    (if compiles schema .dropUnsupported negated x then (cuts schema negated x).map (k :: ·) else [[k]]) ++
      cutsAll schema negated (k + 1) xs

end

variable {schema : Option Schema}

/-! ## Membership -/

/-- what is cut of a child: the child itself, or what is cut inside it -/
def CutAt (schema : Option Schema) (negated : Bool) (x : Filter) (p : Place) : Prop :=
  if compiles schema .dropUnsupported negated x then p ∈ cuts schema negated x else p = []

theorem cons_mem_cutsAll_cons {negated : Bool} {k i : Nat} {p : Place} {x : Filter} {xs : List Filter} :
    i :: p ∈ cutsAll schema negated k (x :: xs) ↔
      (i = k ∧ CutAt schema negated x p) ∨ i :: p ∈ cutsAll schema negated (k + 1) xs := by
  rw [cutsAll, List.mem_append, CutAt]
  split_ifs
  · simp only [List.mem_map, List.cons.injEq, exists_eq_right_right, eq_comm (a := k)]
    rw [and_comm]
  · simp only [List.mem_singleton, List.cons.injEq]

theorem le_of_mem_cutsAll {negated : Bool} {k i : Nat} {p : Place} {xs : List Filter}
    (h : i :: p ∈ cutsAll schema negated k xs) : k ≤ i := by
  induction xs generalizing k with
  | nil => cases h
  | cons x xs ih =>
    rcases cons_mem_cutsAll_cons.1 h with ⟨rfl, _⟩ | h
    · exact le_rfl
    · exact (Nat.le_succ k).trans (ih h)

/-- nothing of the first child is among the cuts of the others -/
theorem cons_notMem_cutsAll (negated : Bool) (k : Nat) (p : Place) (xs : List Filter) :
    k :: p ∉ cutsAll schema negated (k + 1) xs := fun h => by
  have := le_of_mem_cutsAll h
  omega

theorem head_mem_cutsAll {negated : Bool} {k : Nat} {p : Place} {x : Filter} {xs : List Filter} :
    k :: p ∈ cutsAll schema negated k (x :: xs) ↔ CutAt schema negated x p := by
  simp [cons_mem_cutsAll_cons, cons_notMem_cutsAll]

theorem later_mem_cutsAll {negated : Bool} {k i : Nat} {p : Place} {x : Filter} {xs : List Filter} (hi : k < i) :
    i :: p ∈ cutsAll schema negated k (x :: xs) ↔ i :: p ∈ cutsAll schema negated (k + 1) xs := by
  simp [cons_mem_cutsAll_cons, Nat.ne_of_gt hi]

theorem cons_mem_cutsAll {negated : Bool} {k i : Nat} {p : Place} {xs : List Filter} :
    (k + i) :: p ∈ cutsAll schema negated k xs ↔ ∃ x, xs[i]? = some x ∧ CutAt schema negated x p := by
  induction xs generalizing k i with
  | nil => simp [cutsAll]
  | cons x xs ih =>
    cases i with
    | zero =>
      rw [Nat.add_zero, head_mem_cutsAll]
      simp
    | succ i => rw [later_mem_cutsAll (by omega), show k + (i + 1) = k + 1 + i by omega, ih, List.getElem?_cons_succ]

theorem cons_mem_cuts {negated : Bool} {function : Combinator} {children : List Filter} {i : Nat} {p : Place} :
    i :: p ∈ cuts schema negated (.composite function children) ↔
      ∃ x, children[i]? = some x ∧ CutAt schema (negated ^^ (function == .not)) x p := by
  rw [cuts, ← cons_mem_cutsAll, Nat.zero_add]

mutual

theorem nil_notMem_cuts : ∀ (negated : Bool) (f : Filter), [] ∉ cuts schema negated f
  | _, .leaf _ => List.not_mem_nil
  | negated, .composite function children => nil_notMem_cutsAll (negated ^^ (function == .not)) 0 children

theorem nil_notMem_cutsAll : ∀ (negated : Bool) (k : Nat) (xs : List Filter), [] ∉ cutsAll schema negated k xs
  | _, _, [] => List.not_mem_nil
  | negated, k, x :: xs => by
    rw [cutsAll, List.mem_append, not_or]
    refine ⟨?_, nil_notMem_cutsAll negated (k + 1) xs⟩
    split_ifs <;> simp

end

mutual

/-- **Cuts are apart**, and come from left to right -/
theorem cuts_before : ∀ (negated : Bool) (f : Filter), (cuts schema negated f).Pairwise Place.Before
  | _, .leaf _ => .nil
  | negated, .composite function children => cutsAll_before (negated ^^ (function == .not)) 0 children

theorem cutsAll_before : ∀ (negated : Bool) (k : Nat) (xs : List Filter),
    (cutsAll schema negated k xs).Pairwise Place.Before
  | _, _, [] => .nil
  | negated, k, x :: xs => by
    rw [cutsAll, List.pairwise_append]
    refine ⟨?_, cutsAll_before negated (k + 1) xs, ?_⟩
    · split_ifs
      · exact List.pairwise_map.2 ((cuts_before negated x).imp fun h => h.cons k)
      · exact List.pairwise_singleton _ _
    · intro p hp q hq
      have hne : q ≠ [] := fun hnil => nil_notMem_cutsAll negated (k + 1) xs (hnil ▸ hq)
      obtain ⟨i, q, rfl⟩ := List.exists_cons_of_ne_nil hne
      have hlt := le_of_mem_cutsAll hq
      split_ifs at hp
      · obtain ⟨p, _, rfl⟩ := List.mem_map.1 hp
        exact Place.before_of_lt hlt p q
      · rw [List.mem_singleton.1 hp]
        exact Place.before_of_lt hlt [] q

end

/-! ## What is left compiles strictly -/

theorem ne_nil_of_allows {function : Combinator} {args : List Arg} (h : function.arity.allows args.length = true) :
    args ≠ [] := by
  rintro rfl
  cases function <;> cases h

mutual

/-- **What is left of a filter compiles strictly**, to the same document with the same literals -/
theorem compileFrom_without : ∀ (f : Filter) {negated : Bool} {next : Nat} {r : Compiled Operator} {gone : Place → Bool},
    compileFrom schema .dropUnsupported negated next f = .ok r →
    (∀ p, gone p = true ↔ p ∈ cuts schema negated f) →
    compileFrom schema .strict negated next (f.without gone) = .ok ⟨r.document, r.values, []⟩
  | .leaf l, negated, next, r, gone, h, _ => by
    rw [compileFrom_leaf, Leaf.compile_eq_ok_iff] at h
    rw [without, compileFrom_leaf, Leaf.compile_eq_ok_iff]
    obtain ⟨hvalid, rfl⟩ := h
    exact ⟨hvalid, rfl⟩
  | .composite function children, negated, next, r, gone, h, hgone => by
    obtain ⟨_, rs, hrs, harity, rfl⟩ := compileFrom_composite h
    have hkept := compileAll_withoutAll children (k := 0) hrs fun i p _ => hgone (i :: p)
    have hlength := (compileAll_length hkept).2 rfl
    rw [without]
    rw [← not_droppable_strict negated function] at hkept
    exact compileFrom_of_compileAll (by rwa [← hlength]) hkept (ne_nil_of_allows harity)

theorem compileAll_withoutAll : ∀ (xs : List Filter) {drop negated : Bool} {next k : Nat} {rs : Compiled (List Arg)}
    {gone : Place → Bool}, compileAll schema .dropUnsupported drop negated next xs = .ok rs →
    (∀ i p, k ≤ i → (gone (i :: p) = true ↔ i :: p ∈ cutsAll schema negated k xs)) →
    compileAll schema .strict false negated next (withoutAll gone k xs) = .ok ⟨rs.document, rs.values, []⟩
  | [], drop, negated, next, k, rs, gone, h, _ => by
    rw [compileAll_nil] at h
    cases h
    rw [withoutAll, compileAll_nil]
  | x :: xs, drop, negated, next, k, rs, gone, h, hgone => by
    have hhead (p : Place) : gone (k :: p) = true ↔ CutAt schema negated x p :=
      (hgone k p le_rfl).trans head_mem_cutsAll
    have htail (i : Nat) (p : Place) (hi : k < i) : gone (i :: p) = true ↔ i :: p ∈ cutsAll schema negated (k + 1) xs :=
      (hgone i p hi.le).trans (later_mem_cutsAll hi)
    rcases compileAll_cons h with ⟨r, rest, hx, hrest, rfl⟩ | ⟨e, rest, hx, _, hrest, rfl⟩
    · have hcompiles := compiles_of_ok hx
      simp only [CutAt, hcompiles, if_true] at hhead
      have hstays : ¬ gone [k] = true := fun h => nil_notMem_cuts negated x ((hhead []).1 h)
      have hx' := compileFrom_without x hx hhead
      have hrest' := compileAll_withoutAll xs hrest htail
      rw [withoutAll, if_neg hstays, compileAll, hx']
      simp only [hrest', List.append_nil]
    · have hfails := compiles_of_error hx
      simp only [CutAt, hfails, Bool.false_eq_true, if_false] at hhead
      have hrest' := compileAll_withoutAll xs hrest htail
      rw [withoutAll, if_pos ((hhead []).2 rfl)]
      exact hrest'

end

mutual

/-- **What compiles strictly** compiles to the same when parts may be left out -/
theorem compileFrom_of_strict : ∀ (f : Filter) (policy : FallbackPolicy) {negated : Bool} {next : Nat}
    {r : Compiled Operator}, compileFrom schema .strict negated next f = .ok r →
    compileFrom schema policy negated next f = .ok r
  | .leaf l, policy, negated, next, r, h => by
    rw [compileFrom_leaf] at h ⊢
    exact h
  | .composite function children, policy, negated, next, r, h => by
    obtain ⟨harity, rs, hrs, hkept, rfl⟩ := compileFrom_composite h
    rw [not_droppable_strict] at hrs
    exact compileFrom_of_compileAll harity (compileAll_of_strict children policy _ hrs) (ne_nil_of_allows hkept)

theorem compileAll_of_strict : ∀ (xs : List Filter) (policy : FallbackPolicy) (drop : Bool) {negated : Bool} {next : Nat}
    {rs : Compiled (List Arg)}, compileAll schema .strict false negated next xs = .ok rs →
    compileAll schema policy drop negated next xs = .ok rs
  | [], policy, drop, negated, next, rs, h => by
    rw [compileAll_nil] at h ⊢
    exact h
  | x :: xs, policy, drop, negated, next, rs, h => by
    rcases compileAll_cons h with ⟨r, rest, hx, hrest, rfl⟩ | ⟨_, _, _, hdrop, _⟩
    · rw [compileAll, compileFrom_of_strict x policy hx]
      simp only [compileAll_of_strict xs policy drop hrest]
    · cases hdrop

end

/-! ## The errors of what is left out -/

/-- what fails from one number fails from every number, with the same error -/
theorem compileFrom_error_renumber {policy : FallbackPolicy} {f : Filter} {negated : Bool} {next : Nat} {e : CompileError}
    (h : compileFrom schema policy negated next f = .error e) (next' : Nat) :
    compileFrom schema policy negated next' f = .error e := by
  rcases except_map_eq (compileFrom_renumber f negated next next') with ⟨e', he, he'⟩ | ⟨r, s, hr, _, _⟩
  · rw [h] at he
    cases he
    exact he'
  · rw [h] at hr
    cases hr

theorem compile_eq_error_iff {policy : FallbackPolicy} {f : Filter} {e : CompileError} :
    f.compile schema policy = .error e ↔ compileFrom schema policy false 0 f = .error e := by
  rw [compile]
  cases compileFrom schema policy false 0 f with
  | error e' => simp
  | ok r => simp

/-- what a view of a filter has at a place fails, compiled on its own, with this error -/
def FailsAt (schema : Option Schema) (look : Place → Option Filter) (p : Place) (e : CompileError) : Prop :=
  ∃ x, look p = some x ∧ x.compile schema .dropUnsupported = .error e

mutual

/-- **Each report is the error of what was left out**, in order -/
theorem errors_of_compileFrom : ∀ (f : Filter) {negated : Bool} {next : Nat} {r : Compiled Operator},
    compileFrom schema .dropUnsupported negated next f = .ok r →
    List.Forall₂ (FailsAt schema f.at?) (cuts schema negated f) r.dropped
  | .leaf l, negated, next, r, h => by
    rw [compileFrom_leaf, Leaf.compile_eq_ok_iff] at h
    obtain ⟨_, rfl⟩ := h
    exact .nil
  | .composite function children, negated, next, r, h => by
    obtain ⟨_, rs, hrs, _, rfl⟩ := compileFrom_composite h
    refine errors_of_compileAll children hrs (fun hdrop => ?_) fun i p => by rw [Nat.zero_add, at?, child?]
    obtain ⟨rfl, rfl, _⟩ := droppable_iff.1 hdrop
    rfl

theorem errors_of_compileAll : ∀ (xs : List Filter) {drop negated : Bool} {next k : Nat} {rs : Compiled (List Arg)}
    {look : Place → Option Filter}, compileAll schema .dropUnsupported drop negated next xs = .ok rs →
    (drop = true → negated = false) →
    (∀ i p, look ((k + i) :: p) = (xs[i]?).bind fun x => x.at? p) →
    List.Forall₂ (FailsAt schema look) (cutsAll schema negated k xs) rs.dropped
  | [], drop, negated, next, k, rs, look, h, _, _ => by
    rw [compileAll_nil] at h
    cases h
    exact .nil
  | x :: xs, drop, negated, next, k, rs, look, h, hpositive, hlook => by
    have hhead (p : Place) : look (k :: p) = x.at? p := hlook 0 p
    have htail (i : Nat) (p : Place) : look ((k + 1 + i) :: p) = (xs[i]?).bind fun x => x.at? p := by
      rw [show k + 1 + i = k + (i + 1) by omega, hlook, List.getElem?_cons_succ]
    rw [cutsAll]
    rcases compileAll_cons h with ⟨r, rest, hx, hrest, rfl⟩ | ⟨e, rest, hx, hdrop, hrest, rfl⟩
    · rw [if_pos (compiles_of_ok hx)]
      refine List.rel_append ?_ (errors_of_compileAll xs hrest hpositive htail)
      refine List.forall₂_map_left_iff.2 ((errors_of_compileFrom x hx).imp fun p e hfails => ?_)
      rwa [FailsAt, hhead]
    · obtain rfl := hpositive hdrop
      rw [if_neg (by rw [compiles_of_error hx]; decide), List.singleton_append]
      refine .cons ⟨x, hhead [], ?_⟩ (errors_of_compileAll xs hrest hpositive htail)
      exact compile_eq_error_iff.2 (compileFrom_error_renumber hx 0)

end

/-! ## Which parts are left out -/

/-- with the flag `negated` at the root, a place under `n` more `not`s is under an even number of them -/
def Positive (negated : Bool) (n : Nat) : Prop :=
  Even n ↔ negated = false

theorem positive_false {n : Nat} : Positive false n ↔ Even n := by
  simp [Positive]

theorem positive_nil {negated : Bool} {f : Filter} : Positive negated (f.nots []) ↔ negated = false := by
  simp [Positive, nots]

theorem positive_cons {negated : Bool} {function : Combinator} {children : List Filter} {i : Nat} {x : Filter} {p : Place}
    (hx : children[i]? = some x) : Positive negated ((composite function children).nots (i :: p)) ↔
      Positive (negated ^^ (function == .not)) (x.nots p) := by
  rw [nots, child?, hx, Option.elim_some]
  cases function <;> cases negated <;> simp [Positive, isNot, Nat.even_add, -Nat.not_even_iff_odd]

/-- a child that does not compile is passed over only where it may be left out -/
theorem drop_of_fails {drop negated : Bool} {next : Nat} {xs : List Filter} {rs : Compiled (List Arg)}
    (h : compileAll schema .dropUnsupported drop negated next xs = .ok rs) {x : Filter} (hx : x ∈ xs)
    (hfails : compiles schema .dropUnsupported negated x = false) : drop = true := by
  induction xs generalizing next rs with
  | nil => cases hx
  | cons y xs ih =>
    rcases compileAll_cons h with ⟨r, rest, hy, hrest, _⟩ | ⟨_, _, _, hdrop, _, _⟩
    · rcases List.mem_cons.1 hx with rfl | hx
      · rw [compiles_of_ok hy] at hfails
        cases hfails
      · exact ih hrest hx
    · exact hdrop

theorem exists_of_compiles {policy : FallbackPolicy} {negated : Bool} {f : Filter}
    (h : compiles schema policy negated f = true) : ∃ r, compileFrom schema policy negated 0 f = .ok r := by
  rw [compiles] at h
  cases hf : compileFrom schema policy negated 0 f with
  | error e =>
    rw [hf] at h
    cases h
  | ok r => exact ⟨r, rfl⟩

/-- a composite compiles only if some child does, and a child that does not may be left out -/
theorem children_of_compiles {negated : Bool} {function : Combinator} {children : List Filter}
    (h : compiles schema .dropUnsupported negated (.composite function children) = true) :
    (∃ (i : Nat) (x : Filter), children[i]? = some x ∧
      compiles schema .dropUnsupported (negated ^^ (function == .not)) x = true) ∧
      ∀ x ∈ children, compiles schema .dropUnsupported (negated ^^ (function == .not)) x = false →
        function = .and ∧ negated = false := by
  obtain ⟨r, hr⟩ := exists_of_compiles h
  obtain ⟨_, rs, hrs, harity, _⟩ := compileFrom_composite hr
  constructor
  · obtain ⟨a, ha⟩ : ∃ a, rs.document[0]? = some a :=
      List.head?_eq_getElem? ▸ Option.ne_none_iff_exists'.1 (mt List.head?_eq_none_iff.1 (ne_nil_of_allows harity))
    obtain ⟨x, i, _, _, hi, hx, _⟩ := document_getElem? hrs ha (k := 0)
    exact ⟨i, x, getElem?_of_survivors hi, compiles_of_ok hx⟩
  · intro x hx hfails
    obtain ⟨hand, hpositive, _⟩ := droppable_iff.1 (drop_of_fails hrs hx hfails)
    exact ⟨hand, hpositive⟩

/-- every part that is cut is a child of an `and` under an even number of `not`s -/
theorem conjunct_of_mem_cuts {negated : Bool} {f : Filter} {p : Place}
    (hf : compiles schema .dropUnsupported negated f = true) (hp : p ∈ cuts schema negated f) :
    ∃ q i children, p = q ++ [i] ∧ f.at? q = some (.composite .and children) ∧ i < children.length ∧
      Positive negated (f.nots q) := by
  induction p generalizing negated f with
  | nil => exact absurd hp (nil_notMem_cuts negated f)
  | cons i p ih =>
    cases f with
    | leaf l => cases hp
    | composite function children =>
      obtain ⟨x, hx, hcut⟩ := cons_mem_cuts.1 hp
      rw [CutAt] at hcut
      split_ifs at hcut with hcompiles
      · obtain ⟨q, j, below, rfl, hq, hj, hpositive⟩ := ih hcompiles hcut
        refine ⟨i :: q, j, below, rfl, ?_, hj, (positive_cons hx).2 hpositive⟩
        rw [at?, child?, hx, Option.bind_some]
        exact hq
      · obtain ⟨rfl, hpositive⟩ := (children_of_compiles hf).2 x (List.mem_of_getElem? hx) (Bool.eq_false_iff.2 hcompiles)
        subst hcut
        exact ⟨[], i, children, rfl, rfl, (List.getElem?_eq_some_iff.1 hx).1, positive_nil.2 hpositive⟩

/-- nothing above a place, nor the place itself, is cut -/
def Survives (cut : List Place) (q : Place) : Prop :=
  ∀ p ∈ cut, ¬ p <+: q

/-- **What survives is cut as it would be on its own**, and compiles -/
theorem cuts_of_survives {negated : Bool} {f g : Filter} {q : Place}
    (hf : compiles schema .dropUnsupported negated f = true) (hq : f.at? q = some g)
    (hsurvives : Survives (cuts schema negated f) q) :
    ∃ below, compiles schema .dropUnsupported below g = true ∧ (Positive negated (f.nots q) ↔ below = false) ∧
      ∀ p, q ++ p ∈ cuts schema negated f ↔ p ∈ cuts schema below g := by
  induction q generalizing negated f with
  | nil =>
    cases hq
    exact ⟨negated, hf, positive_nil, fun _ => Iff.rfl⟩
  | cons i q ih =>
    cases f with
    | leaf l => cases hq
    | composite function children =>
      rw [at?, child?] at hq
      obtain ⟨x, hx, hq⟩ := Option.bind_eq_some_iff.1 hq
      have hmem (p : Place) : i :: p ∈ cuts schema negated (.composite function children) ↔
          CutAt schema (negated ^^ (function == .not)) x p := by
        rw [cons_mem_cuts, hx]
        simp
      simp only [CutAt] at hmem
      by_cases hcompiles : compiles schema .dropUnsupported (negated ^^ (function == .not)) x = true
      · simp only [hcompiles, if_true] at hmem
        have hbelow : Survives (cuts schema (negated ^^ (function == .not)) x) q := fun p hp hprefix =>
          hsurvives (i :: p) ((hmem p).2 hp) (List.cons_prefix_cons.2 ⟨rfl, hprefix⟩)
        obtain ⟨below, hg, hpositive, hcuts⟩ := ih hcompiles hq hbelow
        exact ⟨below, hg, (positive_cons hx).trans hpositive, fun p => (hmem (q ++ p)).trans (hcuts p)⟩
      · -- a child that was cut has nothing below it that survives
        simp only [hcompiles] at hmem
        exact absurd (List.cons_prefix_cons.2 ⟨rfl, List.nil_prefix⟩) (hsurvives [i] ((hmem []).2 rfl))

/-- a child is cut just when it does not compile -/
theorem singleton_mem_cuts {negated : Bool} {function : Combinator} {children : List Filter} {i : Nat} {x : Filter}
    (hx : children[i]? = some x) : [i] ∈ cuts schema negated (.composite function children) ↔
      compiles schema .dropUnsupported (negated ^^ (function == .not)) x = false := by
  rw [cons_mem_cuts, hx]
  simp only [Option.some.injEq, exists_eq_left', CutAt]
  split_ifs with hcompiles
  · simp [hcompiles, nil_notMem_cuts]
  · simp [hcompiles]

theorem compiles_eq_false_iff {x : Filter} : compiles schema .dropUnsupported false x = false ↔
    ∃ e, x.compile schema .dropUnsupported = .error e := by
  simp only [compile_eq_error_iff, compiles]
  cases compileFrom schema .dropUnsupported false 0 x with
  | error e => simp [Except.isOk, Except.toBool]
  | ok r => simp [Except.isOk, Except.toBool]

/-- compiling `f` with parts left out is cutting out the parts at the places `cut` and compiling strictly -/
structure PrunesTo (schema : Option Schema) (f : Filter) (cut : List Place) (c : Compilation) : Prop where
  /-- from left to right, and none inside another -/
  apart : cut.Pairwise Place.Before
  /-- each is a child of an `and` under an even number of `not`s -/
  conjuncts : ∀ p ∈ cut, ∃ q i children, p = q ++ [i] ∧ f.at? q = some (.composite .and children) ∧ i < children.length ∧
    Even (f.nots q)
  /-- what is left compiles strictly, to the same -/
  strict : (f.without cut.contains).compile schema .strict = .ok ⟨c.document, c.bindings, []⟩
  /-- there are as many as reports, and each on its own fails with the error reported for it -/
  errors : List.Forall₂ (FailsAt schema f.at?) cut c.dropped
  /-- of the children of such an `and` that is left exactly those are cut that fail on their own -/
  complete : ∀ q children, f.at? q = some (.composite .and children) → Survives cut q → Even (f.nots q) →
    ∀ i x, children[i]? = some x → (q ++ [i] ∈ cut ↔ ∃ e, x.compile schema .dropUnsupported = .error e)
  /-- an `and` that is left has children left -/
  inhabited : ∀ q children, f.at? q = some (.composite .and children) → Survives cut q →
    ∃ i < children.length, q ++ [i] ∉ cut

theorem prunesTo_cuts {f : Filter} {c : Compilation} (h : f.compile schema .dropUnsupported = .ok c) :
    f.PrunesTo schema (cuts schema false f) c := by
  obtain ⟨r, hr, rfl⟩ := compile_eq_ok_iff.1 h
  have hf := compiles_of_ok hr
  refine ⟨cuts_before false f, fun p hp => ?_, ?_, errors_of_compileFrom f hr, ?_, ?_⟩
  · obtain ⟨q, i, children, hpq, hq, hi, hpositive⟩ := conjunct_of_mem_cuts hf hp
    exact ⟨q, i, children, hpq, hq, hi, positive_false.1 hpositive⟩
  · exact compile_eq_ok_iff.2 ⟨_, compileFrom_without f hr fun p => List.contains_iff_mem, rfl⟩
  · intro q children hq hsurvives heven i x hx
    obtain ⟨below, _, hpositive, hcuts⟩ := cuts_of_survives hf hq hsurvives
    obtain rfl := hpositive.1 (positive_false.2 heven)
    rw [hcuts, singleton_mem_cuts hx]
    exact compiles_eq_false_iff
  · intro q children hq hsurvives
    obtain ⟨below, hand, _, hcuts⟩ := cuts_of_survives hf hq hsurvives
    obtain ⟨⟨i, x, hx, hcompiles⟩, _⟩ := children_of_compiles hand
    refine ⟨i, (List.getElem?_eq_some_iff.1 hx).1, ?_⟩
    rw [hcuts, singleton_mem_cuts hx, hcompiles]
    decide

/-- **Dropping is pruning**, also when it is done on one ledger that is rolled back after failures. A filter that compiles
strictly compiles to the same when parts may be left out, and nothing is. A filter that compiles with parts left out compiles
like what is left of it compiles strictly when exactly those parts are cut: disjoint children of `and`s under an even number
of `not`s, each failing on its own with the error reported for it; every such child that fails is cut, and no `and` that is
left loses all its children. -/
theorem dropping_prunes (schema : Option Schema) (f : Filter) :
    (∀ policy, f.compileInPlace schema policy = f.compile schema policy) ∧
    (∀ c, f.compile schema .strict = .ok c → f.compile schema .dropUnsupported = .ok c ∧ c.dropped = []) ∧
    ∀ c, f.compile schema .dropUnsupported = .ok c → ∃ cut, f.PrunesTo schema cut c := by
  refine ⟨fun policy => compileInPlace_eq schema policy f, fun c h => ⟨?_, dropped_of_strict h⟩, fun c h => ⟨_, prunesTo_cuts h⟩⟩
  obtain ⟨r, hr, rfl⟩ := compile_eq_ok_iff.1 h
  exact compile_eq_ok_iff.2 ⟨r, compileFrom_of_strict f .dropUnsupported hr, rfl⟩

/-- a conjunction that loses its first part whole, and from its last, under two `not`s, half of an alternative with it -/
def prunedTwice : Filter :=
  .composite .and [.isDefined "", .isDefined "id", .composite .not [.composite .not [.composite .and
    [.isDefined "name", .composite .or [.compare "zip" .eq (.int 1), .compare "zip" .lt .null]]]]]

/-- what is left of it -/
def prunedTwiceDocument : Operator :=
  .op "and" [.node "op" "is-defined" [.ofOperator (.column "id")], .node "op" "not" [.node "op" "not" [.node "op" "and"
    [.node "op" "is-defined" [.ofOperator (.column "name")]]]]]

theorem dropping_prunes_twice :
    prunedTwice.compile none .dropUnsupported =
      .ok ⟨prunedTwiceDocument, [], [.emptyAttribute "is-defined", .nullLiteral "lt" "zip"]⟩ ∧
    ∃ cut, prunedTwice.PrunesTo none cut
      ⟨prunedTwiceDocument, [], [.emptyAttribute "is-defined", .nullLiteral "lt" "zip"]⟩ :=
  ⟨by decide, (dropping_prunes none prunedTwice).2.2 _ (by decide)⟩

end Filter

end PartitionedScan
