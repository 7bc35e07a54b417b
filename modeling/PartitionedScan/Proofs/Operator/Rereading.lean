/-
Reading a printed operator again.

Printing an operator and reading it again reads every scalar of it again (`Operator.reread`). That changes a scalar only if
it is an object with the three members of an operator. Such a scalar comes of an object that repeats a key: as written it
is no operator, so it is read as a free value, in which the last member of each key stands, and those may be the three
members after all. Reading it again makes it an operator; from then on nothing changes. Main results:
- `Operator.parse?_render`: what a printed operator is read as, when this is the operator, and that it happens once;
- `Operator.parse?_render_repeated`: a text whose scalar becomes an operator.
-/
import PartitionedScan.Proofs.Operator.Reading

namespace PartitionedScan

namespace Arg

mutual

/-- the argument with every scalar read again -/
def reread : Arg → Arg
  | .node ns name args => .node ns name (rereadAll args)
  | .list items => .list (rereadAll items)
  | .scalar value => ofJson value

def rereadAll : List Arg → List Arg
  | [] => []
  | x :: xs => reread x :: rereadAll xs

end

mutual

/-- the scalars of an argument, in order -/
def scalars : Arg → List Json
  | .node _ _ args => scalarsAll args
  | .list items => scalarsAll items
  | .scalar value => [value]

def scalarsAll : List Arg → List Json
  | [] => []
  | x :: xs => scalars x ++ scalarsAll xs

end

theorem rereadAll_eq_map (args : List Arg) : rereadAll args = args.map reread := by
  induction args with
  | nil => rfl
  | cons x xs ih => rw [rereadAll, ih, List.map_cons]

theorem mem_scalarsAll {value : Json} {args : List Arg} : value ∈ scalarsAll args ↔ ∃ x ∈ args, value ∈ x.scalars := by
  induction args with
  | nil => simp [scalarsAll]
  | cons x xs ih => simp [scalarsAll, ih]

/-- what was read of a document, read again, is what is read of its free value -/
theorem reread_ofJson (j : Json) : (ofJson j).reread = ofJson j.canonical := by
  induction j using readingInduction with
  | operator j ns name items hop ih =>
    rw [ofJson_of_isOperator hop, ofJson_of_isOperator hop.canonical, reread, rereadAll_eq_map, List.map_map,
      List.map_map]
    exact congrArg _ (List.map_congr_left ih)
  | list items hlist ih =>
    rw [ofJson_array hlist, Json.canonical, Json.canonicalItems_eq_map, ofJson_map Json.keepsForm_canonical hlist,
      reread, rereadAll_eq_map, List.map_map]
    exact congrArg _ (List.map_congr_left ih)
  | scalar j hlist hop => rw [ofJson_scalar hlist hop, reread]

mutual

theorem reread_eq_self_iff : ∀ a : Arg, a.reread = a ↔ ∀ value ∈ a.scalars, ofJson value = .scalar value
  | .node _ _ args => by simp [reread, scalars, rereadAll_eq_self_iff args]
  | .list items => by simp [reread, scalars, rereadAll_eq_self_iff items]
  | .scalar _ => by simp [reread, scalars]

theorem rereadAll_eq_self_iff : ∀ args : List Arg,
    rereadAll args = args ↔ ∀ value ∈ scalarsAll args, ofJson value = .scalar value
  | [] => by simp [rereadAll, scalarsAll]
  | x :: xs => by
    simp [rereadAll, scalarsAll, reread_eq_self_iff x, rereadAll_eq_self_iff xs, or_imp, forall_and]

end

/-- a scalar that was read is no list, and it is a free value -/
theorem mem_scalars_ofJson {j value : Json} (h : value ∈ (ofJson j).scalars) :
    (∀ items, value ≠ .array items) ∧ value.canonical = value := by
  induction j using readingInduction with
  | operator j ns name items hop ih =>
    rw [ofJson_of_isOperator hop, scalars, mem_scalarsAll] at h
    obtain ⟨_, hmem, h⟩ := h
    obtain ⟨x, hx, rfl⟩ := List.mem_map.1 hmem
    exact ih x hx h
  | list items hlist ih =>
    rw [ofJson_array hlist, scalars, mem_scalarsAll] at h
    obtain ⟨_, hmem, h⟩ := h
    obtain ⟨x, hx, rfl⟩ := List.mem_map.1 hmem
    exact ih x hx h
  | scalar j hlist hop =>
    rw [ofJson_scalar hlist hop, scalars, List.mem_singleton] at h
    subst h
    refine ⟨fun items h => ?_, Json.canonical_canonical j⟩
    obtain ⟨xs, h, -⟩ := Json.canonical_eq_array.1 h
    exact hlist xs h

/-- such a value is read as an operator or stays a scalar -/
theorem ofJson_eq_scalar_iff {value : Json} (hlist : ∀ items, value ≠ .array items) (hfree : value.canonical = value) :
    ofJson value = .scalar value ↔ Operator.ofJson? value = none := by
  rw [Operator.ofJson?]
  by_cases hop : ∃ ns name items, value.IsOperator ns name items
  · obtain ⟨ns, name, items, hop⟩ := hop
    simp [ofJson_of_isOperator hop, operator?]
  · push Not at hop
    simp [ofJson_scalar hlist hop, hfree, operator?]

end Arg

namespace Operator

/-- the operator with every scalar read again -/
def reread (o : Operator) : Operator :=
  ⟨o.ns, o.name, o.args.map Arg.reread⟩

/-- the scalars below the operator, in order -/
def scalars (o : Operator) : List Json :=
  (Arg.ofOperator o).scalars

theorem ofOperator_reread (o : Operator) : Arg.ofOperator o.reread = (Arg.ofOperator o).reread := by
  rw [Arg.ofOperator, Arg.ofOperator, Arg.reread, Arg.rereadAll_eq_map, reread]

variable {j : Json} {o : Operator}

theorem ofJson?_canonical (h : ofJson? j = some o) : ofJson? j.canonical = some o.reread := by
  rw [ofJson?_eq_some, ofOperator_reread, ← ofJson?_eq_some.1 h, Arg.reread_ofJson]

theorem ofJson?_toJson (h : ofJson? j = some o) : ofJson? o.toJson = some o.reread := by
  rw [← ofJson?_canonical h, toJson, ← ofJson?_eq_some.1 h, ofJson?, ofJson?, Arg.ofJson_toJson_ofJson]

theorem reread_reread (h : ofJson? j = some o) : o.reread.reread = o.reread := by
  have hagain := ofJson?_canonical (ofJson?_canonical h)
  rw [Json.canonical_canonical, ofJson?_canonical h] at hagain
  exact (Option.some.inj hagain).symm

theorem numbers_toJson (h : ofJson? j = some o) : o.toJson.numbers ⊆ j.numbers := by
  rw [toJson, ← ofJson?_eq_some.1 h]
  exact Arg.numbers_toJson_ofJson j

theorem reread_eq_self_iff (h : ofJson? j = some o) : o.reread = o ↔ ∀ value ∈ o.scalars, ofJson? value = none := by
  have hargument : o.reread = o ↔ (Arg.ofOperator o).reread = .ofOperator o := by
    rw [← ofOperator_reread]
    cases o
    simp [Arg.ofOperator, reread]
  rw [hargument, Arg.reread_eq_self_iff, scalars]
  refine forall₂_congr fun value hvalue => ?_
  rw [← ofJson?_eq_some.1 h] at hvalue
  obtain ⟨hlist, hfree⟩ := Arg.mem_scalars_ofJson hvalue
  exact Arg.ofJson_eq_scalar_iff hlist hfree

theorem reread_of_distinctKeys (h : ofJson? j = some o) (hj : j.DistinctKeys) : o.reread = o := by
  have hagain := ofJson?_canonical h
  rw [ofJson?, Arg.ofJson_canonical hj, ← ofJson?, h] at hagain
  exact (Option.some.inj hagain).symm

/-- a printed operator is read as its document -/
theorem parse?_eq_ofJson? (hfloats : o.toJson.FloatsReadBack) : parse? o.render = ofJson? o.toJson := by
  rw [parse?, render, Json.Tree.json?_render hfloats, Option.bind_some]

/-- **A printed operator is read again**, and every scalar of it too. The result is the operator itself just when no scalar
of it shows an operator, which is the case when the text it was read of repeats no key; and reading changes it once at most -/
theorem parse?_render {text : String} (h : parse? text = some o) (hfloats : o.toJson.FloatsReadBack) :
    parse? o.render = some o.reread ∧
      (o.reread = o ↔ ∀ value ∈ o.scalars, ofJson? value = none) ∧
      (∀ j, (Json.Tree.read? text).bind Json.Tree.json? = some j → j.DistinctKeys → o.reread = o) ∧
      parse? o.reread.render = some o.reread := by
  obtain ⟨j, hread, hj⟩ := Option.bind_eq_some_iff.1 h
  have hprinted := ofJson?_toJson hj
  have hfloats' : o.reread.toJson.FloatsReadBack := fun n hn => hfloats n (numbers_toJson hprinted hn)
  refine ⟨(parse?_eq_ofJson? hfloats).trans hprinted, reread_eq_self_iff hj, fun j' hread' hdistinct => ?_, ?_⟩
  · cases hread.symm.trans hread'
    exact reread_of_distinctKeys hj hdistinct
  · rw [parse?_eq_ofJson? hfloats', ofJson?_toJson hprinted, reread_reread hj]

/-- the operator of `["op","f",[1.5,["a",null]]]` is printed as a record and read as itself -/
theorem parse?_render_float :
    let o : Operator := .op "f" [.scalar (.number (.float ⟨4609434218613702656⟩ (by decide))),
      .list [.text "a", .scalar .null]]
    parse? "[\"op\",\"f\",[1.5,[\"a\",null]]]" = some o ∧ o.toJson.FloatsReadBack ∧ parse? o.render = some o := by
  intro o
  have hread : parse? "[\"op\",\"f\",[1.5,[\"a\",null]]]" = some o := by decide +kernel
  have hfloats : o.toJson.FloatsReadBack := by decide +kernel
  obtain ⟨hrender, hsame, -⟩ := parse?_render hread hfloats
  have hscalars : o.reread = o := hsame.2 (by decide +kernel)
  exact ⟨hread, hfloats, hrender.trans (congrArg some hscalars)⟩

/-- an argument that repeats `ns` is a scalar; printed with the last `ns`, it is read as an operator -/
theorem parse?_render_repeated :
    let text := "\x7b\"ns\":\"op\",\"fn\":\"f\",\"args\":[\x7b\"ns\":\"op\",\"ns\":\"fn\",\"fn\":\"x\",\"args\":[]\x7d]\x7d"
    let o : Operator := .op "f" [.scalar (.object [("args", .array []), ("fn", .string "x"), ("ns", .string "fn")])]
    parse? text = some o ∧ o.toJson.FloatsReadBack ∧ parse? o.render = some (.op "f" [.node "fn" "x" []]) ∧
      parse? o.render ≠ some o := by
  decide +kernel

end Operator

end PartitionedScan
