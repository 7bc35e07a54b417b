/-
What reading an operator document tells apart.

A document is read as the operator that it shows, else, if it is a list, item by item, else as a free value
(`ofJson_of_isOperator`, `ofJson_array`, `ofJson_scalar`). The members of an operator may stand in any order, so
`Json.IsOperator` names them up to a permutation. Statements about what was read follow by induction along these three
cases (`readingInduction`), in which an operator comes with the arguments below it. Main results:
- `ofJson_toJson_ofJson`: reading what was printed comes to reading the document as a free value first;
- `ofJson_canonical`: where no key is repeated, that makes no difference.
-/
import PartitionedScan.Operator.Document
import PartitionedScan.Proofs.Json.Canonical

namespace PartitionedScan

namespace Json

/-- the document shows the function `ns:name` applied to `items`: as a record with these three members and no others,
or as a list of the three parts -/
inductive IsOperator : Json → String → String → List Json → Prop where
  | record {members : List (String × Json)} {ns name : String} {items : List Json}
      (perm : members.Perm [("ns", .string ns), ("fn", .string name), ("args", .array items)]) :
      IsOperator (.object members) ns name items
  | list (ns name : String) (items : List Json) :
      IsOperator (.array [.string ns, .string name, .array items]) ns name items

variable {j : Json} {members : List (String × Json)} {ns name : String} {items : List Json}

theorem mem_of_member? {members : List (String × Json)} {key : String} {x : Json}
    (h : (Json.object members).member? key = some x) : (key, x) ∈ members := by
  obtain ⟨⟨k, v⟩, hfind, rfl⟩ := Option.map_eq_some_iff.1 h
  have hkey : k = key := by simpa using List.find?_some hfind
  exact hkey ▸ List.mem_of_find?_eq_some hfind

/-- three members of these keys among three are all there are -/
theorem isOperator_of_mem (hlength : members.length = 3) (hns : ("ns", .string ns) ∈ members)
    (hname : ("fn", .string name) ∈ members) (hitems : ("args", .array items) ∈ members) :
    (Json.object members).IsOperator ns name items := by
  have hsub : [("ns", .string ns), ("fn", .string name), ("args", .array items)] ⊆ members := by
    simp [hns, hname, hitems]
  exact .record ((List.subperm_of_subset (by simp) hsub).perm_of_length_le hlength.le).symm

/-- the arguments stand in the document, in a list of their own -/
theorem IsOperator.sizeOf_lt (h : j.IsOperator ns name items) {x : Json} (hx : x ∈ items) : sizeOf x < sizeOf j := by
  have hitem := List.sizeOf_lt_of_mem hx
  cases h with
  | list =>
    simp only [Json.array.sizeOf_spec, List.cons.sizeOf_spec]
    omega
  | record perm =>
    have hmember := List.sizeOf_lt_of_mem (perm.mem_iff.2 (by simp : ("args", Json.array items) ∈ _))
    simp only [Prod.mk.sizeOf_spec, Json.array.sizeOf_spec] at hmember
    simp only [Json.object.sizeOf_spec]
    omega

theorem IsOperator.numbers_subset (h : j.IsOperator ns name items) {x : Json} (hx : x ∈ items) :
    x.numbers ⊆ j.numbers := by
  intro n hn
  have hitems : n ∈ (Json.array items).numbers := mem_numbersOfItems.2 ⟨x, hx, hn⟩
  cases h with
  | list => exact mem_numbersOfItems.2 ⟨_, by simp, hitems⟩
  | record perm => exact mem_numbersOfMembers.2 ⟨("args", .array items), perm.mem_iff.2 (by simp), hitems⟩

theorem IsOperator.distinctKeys (h : j.IsOperator ns name items) (hj : j.DistinctKeys) {x : Json} (hx : x ∈ items) :
    x.DistinctKeys := by
  have hitems : (Json.array items).DistinctKeys := by
    cases h with
    | list => exact distinctItems_iff.1 hj _ (by simp)
    | record perm => exact distinctMembers_iff.1 hj.2 ("args", .array items) (perm.mem_iff.2 (by simp))
  exact distinctItems_iff.1 hitems x hx

/-- what `f` makes a string was that string, and what it makes a list was a list -/
def KeepsForm (f : Json → Json) : Prop :=
  ∀ x, (∀ s, f x = .string s → x = .string s) ∧ ∀ ys, f x = .array ys → ∃ xs, x = .array xs

/-- a list shows an operator after such a change only if it did before -/
theorem KeepsForm.three_parts {f : Json → Json} (hf : KeepsForm f) {args : List Json}
    (h : items.map f = [.string ns, .string name, .array args]) :
    ∃ args, items = [.string ns, .string name, .array args] := by
  obtain ⟨x, rest, rfl, hx, h⟩ := List.map_eq_cons_iff.1 h
  obtain ⟨y, rest, rfl, hy, h⟩ := List.map_eq_cons_iff.1 h
  obtain ⟨z, rest, rfl, hz, h⟩ := List.map_eq_cons_iff.1 h
  obtain rfl := List.map_eq_nil_iff.1 h
  obtain ⟨args, rfl⟩ := (hf z).2 _ hz
  exact ⟨args, by rw [(hf x).1 _ hx, (hf y).1 _ hy]⟩

/-! ## As a free value -/

theorem canonical_eq_string {s : String} : j.canonical = .string s ↔ j = .string s := by
  cases j <;> simp [canonical]

theorem canonical_eq_array {ys : List Json} :
    j.canonical = .array ys ↔ ∃ xs, j = .array xs ∧ ys = xs.map canonical := by
  cases j <;> simp [canonical, canonicalItems_eq_map, eq_comm]

theorem keepsForm_canonical : KeepsForm canonical := fun _ =>
  ⟨fun _ h => canonical_eq_string.1 h, fun _ h => (canonical_eq_array.1 h).imp fun _ h => h.1⟩

theorem IsOperator.canonical (h : j.IsOperator ns name items) :
    j.canonical.IsOperator ns name (items.map Json.canonical) := by
  rw [← canonicalItems_eq_map]
  cases h with
  | list => exact .list ns name _
  | @record members _ _ _ perm =>
    have hkeys : (members.map Prod.fst).Nodup := (perm.map Prod.fst).nodup_iff.2 (by simp)
    exact .record ((canonical_object_perm hkeys).trans (perm.map _))

/-- where no key is repeated, a free value shows an operator only if the document does -/
theorem isOperator_of_canonical (hj : j.DistinctKeys) (h : j.canonical.IsOperator ns name items) :
    ∃ items, j.IsOperator ns name items := by
  cases j with
  | array xs =>
    rw [Json.canonical, canonicalItems_eq_map] at h
    generalize hys : xs.map Json.canonical = ys at h
    cases h
    obtain ⟨args, rfl⟩ := keepsForm_canonical.three_parts hys
    exact ⟨args, .list ns name args⟩
  | object members =>
    rw [Json.canonical] at h
    obtain ⟨perm⟩ := h
    have hperm := (canonical_object_perm hj.1).symm.trans perm
    have hmem (key : String) (y : Json)
        (h : (key, y) ∈ [("ns", .string ns), ("fn", .string name), ("args", .array items)]) :
        ∃ x, (key, x) ∈ members ∧ x.canonical = y := by
      obtain ⟨⟨k, x⟩, hx, hk⟩ := List.mem_map.1 (hperm.mem_iff.2 h)
      cases hk
      exact ⟨x, hx, rfl⟩
    obtain ⟨x, hns, hx⟩ := hmem "ns" (.string ns) (by simp)
    obtain ⟨y, hname, hy⟩ := hmem "fn" (.string name) (by simp)
    obtain ⟨z, hargs, hz⟩ := hmem "args" (.array items) (by simp)
    obtain rfl := canonical_eq_string.1 hx
    obtain rfl := canonical_eq_string.1 hy
    obtain ⟨items', rfl, -⟩ := canonical_eq_array.1 hz
    exact ⟨items', isOperator_of_mem (by simpa using hperm.length_eq) hns hname hargs⟩
  | _ => cases h

end Json

namespace Arg

/-! ## The three readings -/

theorem ofJsonAll_eq_map (items : List Json) : ofJsonAll items = items.map ofJson := by
  induction items with
  | nil => rfl
  | cons x xs ih => rw [ofJsonAll, ih, List.map_cons]

theorem toJsonAll_eq_map (args : List Arg) : toJsonAll args = args.map toJson := by
  induction args with
  | nil => rfl
  | cons x xs ih => rw [toJsonAll, ih, List.map_cons]

theorem perm_three {α : Type} {l : List α} {a b c : α} (h : l.Perm [a, b, c]) :
    l ∈ [[a, b, c], [b, a, c], [b, c, a], [a, c, b], [c, a, b], [c, b, a]] :=
  List.mem_permutations'.2 h

/-- the operator that a document shows is read, its members in any order -/
theorem ofJson_of_isOperator {j : Json} {ns name : String} {items : List Json} (h : j.IsOperator ns name items) :
    ofJson j = .node ns name (items.map ofJson) := by
  rw [← ofJsonAll_eq_map]
  cases h with
  | list => rfl
  | record perm =>
    have horder := perm_three perm
    simp only [List.mem_cons, List.not_mem_nil, or_false] at horder
    rcases horder with rfl | rfl | rfl | rfl | rfl | rfl <;> rfl

theorem ofJson_array {items : List Json} (h : ∀ ns name args, items ≠ [.string ns, .string name, .array args]) :
    ofJson (.array items) = .list (items.map ofJson) := by
  rw [← ofJsonAll_eq_map, ofJson]
  exact h

/-- a list that shows no operator stays one when its items keep their form -/
theorem ofJson_map {f : Json → Json} (hf : Json.KeepsForm f) {items : List Json}
    (h : ∀ ns name args, items ≠ [.string ns, .string name, .array args]) :
    ofJson (.array (items.map f)) = .list (items.map fun x => ofJson (f x)) := by
  rw [ofJson_array, List.map_map]
  · rfl
  · intro ns name args heq
    obtain ⟨args, heq⟩ := hf.three_parts heq
    exact h ns name args heq

theorem mem_of_parts? {members : List (String × Json)} {ns name : String} (h : parts? members = some (ns, name)) :
    members.length = 3 ∧ ("ns", .string ns) ∈ members ∧ ("fn", .string name) ∈ members := by
  rw [parts?] at h
  split at h
  · next a b c hkeys =>
    split_ifs at h
    split at h
    · next hns hname =>
      cases h
      exact ⟨by simpa using congrArg List.length hkeys, Json.mem_of_member? hns, Json.mem_of_member? hname⟩
    · cases h
  · cases h

theorem mem_of_argsOf? {members : List (String × Json)} {args : List Arg} (h : argsOf? members = some args) :
    ∃ items, ("args", .array items) ∈ members := by
  induction members with
  | nil => cases h
  | cons m members ih =>
    rw [argsOf?.eq_def] at h
    split at h
    · next heq => cases heq
    · next items _ heq =>
      cases heq
      exact ⟨items, List.mem_cons_self⟩
    · next heq =>
      cases heq
      exact (ih h).imp fun _ => List.mem_cons_of_mem _

theorem ofJson_scalar {j : Json} (hlist : ∀ items, j ≠ .array items)
    (hop : ∀ ns name items, ¬j.IsOperator ns name items) : ofJson j = .scalar j.canonical := by
  cases j with
  | array items => exact absurd rfl (hlist items)
  | object members =>
    rw [ofJson]
    split
    · next ns name args hparts hargs =>
      obtain ⟨hlength, hns, hname⟩ := mem_of_parts? hparts
      obtain ⟨items, hitems⟩ := mem_of_argsOf? hargs
      exact absurd (Json.isOperator_of_mem hlength hns hname hitems) (hop ns name items)
    · rfl
  | _ => rfl

/-- induction over a document as it is read: an operator and a list have the property when the arguments in them have -/
@[elab_as_elim]
theorem readingInduction {P : Json → Prop} (j : Json)
    (operator : ∀ j ns name items, j.IsOperator ns name items → (∀ x ∈ items, P x) → P j)
    (list : ∀ items, (∀ ns name args, items ≠ [.string ns, .string name, .array args]) → (∀ x ∈ items, P x) →
      P (.array items))
    (scalar : ∀ j, (∀ items, j ≠ .array items) → (∀ ns name items, ¬j.IsOperator ns name items) → P j) : P j := by
  by_cases hop : ∃ ns name items, j.IsOperator ns name items
  · obtain ⟨ns, name, items, hop⟩ := hop
    exact operator j ns name items hop fun x hx => readingInduction x operator list scalar
  · push Not at hop
    cases j with
    | array items =>
      refine list items (fun ns name args heq => hop ns name args (heq ▸ .list ns name args)) fun x hx => ?_
      exact readingInduction x operator list scalar
    | _ => exact scalar _ nofun hop
termination_by sizeOf j
decreasing_by
  · exact hop.sizeOf_lt hx
  · have hlt := List.sizeOf_lt_of_mem hx
    simp only [Json.array.sizeOf_spec]
    omega

/-! ## Reading what was printed -/

/-- what is read of a string is printed as it, and what is printed as a list was one -/
theorem keepsForm_toJson_ofJson : Json.KeepsForm fun j => (ofJson j).toJson := by
  intro j
  beta_reduce
  induction j using readingInduction with
  | operator j ns name items hop =>
    rw [ofJson_of_isOperator hop]
    exact ⟨nofun, nofun⟩
  | list items hlist =>
    rw [ofJson_array hlist]
    exact ⟨nofun, fun _ _ => ⟨items, rfl⟩⟩
  | scalar j hlist hop =>
    rw [ofJson_scalar hlist hop]
    exact Json.keepsForm_canonical j

theorem isOperator_toJson (ns name : String) (args : List Arg) :
    (Arg.node ns name args).toJson.IsOperator ns name (args.map toJson) := by
  rw [toJson, toJsonAll_eq_map]
  exact .record (.refl _)

/-- **Reading what was printed comes to reading the document as a free value first** -/
theorem ofJson_toJson_ofJson (j : Json) : ofJson (ofJson j).toJson = ofJson j.canonical := by
  induction j using readingInduction with
  | operator j ns name items hop ih =>
    rw [ofJson_of_isOperator hop, ofJson_of_isOperator (isOperator_toJson ..), ofJson_of_isOperator hop.canonical,
      List.map_map, List.map_map, List.map_map]
    exact congrArg _ (List.map_congr_left ih)
  | list items hlist ih =>
    have hprinted : (ofJson (.array items)).toJson = .array (items.map fun x => (ofJson x).toJson) := by
      rw [ofJson_array hlist, toJson, toJsonAll_eq_map, List.map_map]
      rfl
    rw [hprinted, ofJson_map keepsForm_toJson_ofJson hlist, Json.canonical, Json.canonicalItems_eq_map,
      ofJson_map Json.keepsForm_canonical hlist]
    exact congrArg _ (List.map_congr_left ih)
  | scalar j hlist hop => rw [ofJson_scalar hlist hop, toJson]

/-- where no key is repeated, a document is read like its free value -/
theorem ofJson_canonical {j : Json} (hj : j.DistinctKeys) : ofJson j.canonical = ofJson j := by
  induction j using readingInduction with
  | operator j ns name items hop ih =>
    rw [ofJson_of_isOperator hop, ofJson_of_isOperator hop.canonical, List.map_map]
    exact congrArg _ (List.map_congr_left fun x hx => ih x hx (hop.distinctKeys hj hx))
  | list items hlist ih =>
    rw [ofJson_array hlist, Json.canonical, Json.canonicalItems_eq_map, ofJson_map Json.keepsForm_canonical hlist]
    exact congrArg _ (List.map_congr_left fun x hx => ih x hx (Json.distinctItems_iff.1 hj x hx))
  | scalar j hlist hop =>
    have hlist' : ∀ items, j.canonical ≠ .array items := by
      intro items h
      obtain ⟨xs, h, -⟩ := Json.canonical_eq_array.1 h
      exact hlist xs h
    have hop' : ∀ ns name items, ¬j.canonical.IsOperator ns name items := by
      intro ns name items h
      obtain ⟨items, h⟩ := Json.isOperator_of_canonical hj h
      exact hop ns name items h
    rw [ofJson_scalar hlist hop, ofJson_scalar hlist' hop', Json.canonical_canonical]

/-- no number is printed that was not read -/
theorem numbers_toJson_ofJson (j : Json) : (ofJson j).toJson.numbers ⊆ j.numbers := by
  induction j using readingInduction with
  | operator j ns name items hop ih =>
    intro n hn
    rw [ofJson_of_isOperator hop, toJson, toJsonAll_eq_map, List.map_map] at hn
    have hn' : n ∈ Json.numbersOfItems (items.map (toJson ∘ ofJson)) := by
      simpa [Json.numbers, Json.numbersOfMembers] using hn
    obtain ⟨y, hy, hn⟩ := Json.mem_numbersOfItems.1 hn'
    obtain ⟨x, hx, rfl⟩ := List.mem_map.1 hy
    exact hop.numbers_subset hx (ih x hx hn)
  | list items hlist ih =>
    intro n hn
    rw [ofJson_array hlist, toJson, toJsonAll_eq_map, List.map_map] at hn
    obtain ⟨y, hy, hn⟩ := Json.mem_numbersOfItems.1 hn
    obtain ⟨x, hx, rfl⟩ := List.mem_map.1 hy
    exact Json.mem_numbersOfItems.2 ⟨x, hx, ih x hx hn⟩
  | scalar j hlist hop =>
    rw [ofJson_scalar hlist hop, toJson]
    exact Json.numbers_canonical j

end Arg

theorem Operator.ofJson?_eq_some {j : Json} {o : Operator} : ofJson? j = some o ↔ Arg.ofJson j = .ofOperator o := by
  rw [ofJson?]
  cases Arg.ofJson j with
  | node ns name args =>
    cases o
    simp [Arg.operator?, Arg.ofOperator]
  | _ => simp [Arg.operator?, Arg.ofOperator]

end PartitionedScan
