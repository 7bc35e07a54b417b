/-
Filter documents that are read back.

What is printed of a filter has the tree of its document, so it is enough to read that tree. Names come back from their
lists, whole numbers, texts and bytes without any condition, finite floats because their digits denote them; a float that
is not finite is printed as null, which no reader takes for a float. One such literal anywhere and the document is not
read at all (`ofTree?_toJson`). Main result:
- `parse?_eq_some_iff`: the text of a filter is read as that filter, at any depth, unless a literal in it is a float that
  is not finite, and never as another filter.
-/
import PartitionedScan.Filter.Document
import PartitionedScan.Proofs.Decimal.ReadBack
import PartitionedScan.Proofs.Outcomes

namespace PartitionedScan

namespace Filter

/-! ## Literals of a filter -/

mutual

/-- all literals of a filter, in order -/
def literals : Filter → List Value
  | .leaf l => l.values
  | .composite _ children => literalsAll children

def literalsAll : List Filter → List Value
  | [] => []
  | x :: xs => literals x ++ literalsAll xs

end

end Filter

/-! ## Numbers of a document -/

namespace Json.Tree

theorem number?_ofJson (n : Number) : (ofJson (.number n)).number? = some n :=
  n.readsBack.numeral.2

/-- a whole number is read where its bounds admit it -/
theorem int?_ofJson {least greatest value : Int} (bounded : FitsWord value) (h : least ≤ value ∧ value ≤ greatest) :
    (ofJson (.number (.int value bounded))).int? least greatest = some value := by
  rw [int?, number?_ofJson]
  exact if_pos h

theorem int?_ofInt64 (n : Int64) :
    (ofJson (.number (.ofInt64 n))).int? Int64.minValue.toInt Int64.maxValue.toInt = some n.toInt :=
  int?_ofJson _ ⟨n.minValue_le_toInt, n.toInt_le⟩

theorem int?_ofInt32 (n : Int32) :
    (ofJson (.number (.ofInt32 n))).int? Int32.minValue.toInt Int32.maxValue.toInt = some n.toInt :=
  int?_ofJson _ ⟨n.minValue_le_toInt, n.toInt_le⟩

theorem int?_byte (b : UInt8) : (ofJson (.ofNat b.toNat)).int? 0 255 = some (b.toNat : Int) := by
  have hbyte : b.toNat < 256 := b.toNat_lt
  have hword : (b.toNat : Int) < 18446744073709551616 := by omega
  have hbounds : (0 : Int) ≤ b.toNat ∧ (b.toNat : Int) ≤ 255 := by omega
  have hnumber : Json.ofNat b.toNat = .number (.int b.toNat ⟨by omega, hword⟩) := dif_pos hword
  rw [hnumber, int?_ofJson _ hbounds]

theorem mapM_byte (data : List UInt8) :
    ((ofItems (data.map fun b => Json.ofNat b.toNat)).mapM fun item =>
      (int? 0 255 item).map fun n => UInt8.ofNat n.toNat) = some data := by
  induction data with
  | nil => rfl
  | cons b data ih =>
    rw [List.map_cons, ofItems, List.mapM_cons, ih, int?_byte, Option.map_some, Int.toNat_natCast, UInt8.ofNat_toNat]
    rfl

end Json.Tree

/-! ## Literals of a document -/

namespace Value

/-- not a float that is infinite or no number -/
def isFinite : Value → Bool
  | .float x => x.isFinite
  | _ => true

/-- what stands beside the tag is read under the tag; null there is not a float -/
theorem ofContent?_content (v : Value) :
    ofContent? v.tag (Json.Tree.ofJson v.content) = if v.isFinite then some v else none := by
  cases v with
  | null => rfl
  | bool b => rfl
  | int n =>
    simp only [tag, content, ofContent?, Json.Tree.int?_ofInt64, Option.map_some, Int64.ofInt_toInt]
    rfl
  | float x =>
    by_cases h : x.isFinite = true
    · rw [isFinite, if_pos h]
      simp only [tag, content, ofContent?, Json.ofBinary64, dif_pos h, Json.Tree.number?_ofJson]
      rfl
    · -- null was written, and a number is asked for
      rw [isFinite, if_neg h]
      simp only [tag, content, ofContent?, Json.ofBinary64, dif_neg h]
      rfl
  | string s => rfl
  | bytes data =>
    simp only [tag, content, ofContent?, Json.Tree.ofJson, Json.Tree.mapM_byte]
    rfl
  | date days =>
    simp only [tag, content, ofContent?, Json.Tree.int?_ofInt32, Option.map_some, Int32.ofInt_toInt]
    rfl
  | dateTime micros =>
    simp only [tag, content, ofContent?, Json.Tree.int?_ofInt64, Option.map_some, Int64.ofInt_toInt]
    rfl

/-- a literal in tagged form is read back, unless it is a float that is not finite -/
theorem ofTagged?_toTagged (v : Value) :
    ofTagged? (Json.Tree.ofJson v.toTagged) = if v.isFinite then some v else none := by
  rw [← ofContent?_content]
  cases v <;> rfl

/-- one literal that is not read and none of them are -/
theorem mapM_ofTagged? (values : List Value) : (Json.Tree.ofItems (values.map toTagged)).mapM ofTagged? =
    if values.all isFinite then some values else none := by
  induction values with
  | nil => rfl
  | cons v values ih =>
    rw [List.map_cons, Json.Tree.ofItems, List.mapM_cons, ofTagged?_toTagged, ih, List.all_cons]
    cases v.isFinite <;> cases values.all isFinite <;> rfl

end Value

/-! ## Leaves and trees -/

namespace Leaf

theorem ofTree?_toJson (l : Leaf) :
    ofTree? (Json.Tree.ofJson l.toJson) = if l.values.all Value.isFinite then some l else none := by
  obtain ⟨attr, comparator, values⟩ := l
  have hfields : Json.Tree.fields? ["attribute", "comparator", "values"]
      (Json.Tree.ofJson (toJson ⟨attr, comparator, values⟩)) =
      some [some (.text (some attr)), some (.text (some comparator.functionName)),
        some (.list (Json.Tree.ofItems (values.map Value.toTagged)))] := rfl
  rw [ofTree?, hfields]
  simp only [Option.bind_eq_bind, Option.bind_some, Json.Tree.text?, Json.Tree.name?, Json.Tree.items?,
    Comparator.ofName?_functionName, Value.mapM_ofTagged?]
  cases values.all Value.isFinite <;> rfl

end Leaf

namespace Filter

theorem ofTree?_leaf (l : Leaf) :
    ofTree? (Json.Tree.ofJson (toJson (.leaf l))) = (Leaf.ofTree? (Json.Tree.ofJson l.toJson)).map .leaf := by
  rw [toJson, Json.Tree.ofJson, Json.Tree.ofMembers, Json.Tree.ofMembers, ofTree?]

theorem ofTree?_composite (function : Combinator) (children : List Filter) :
    ofTree? (Json.Tree.ofJson (toJson (.composite function children))) =
      (ofTrees? (Json.Tree.ofItems (toJsonAll children))).map (.composite function) := by
  -- the reader takes the function from the fields and looks for the children among the members
  let members : List (Option String × Json.Tree) := [(some "function", .text (some function.functionName)),
    (some "children", .list (Json.Tree.ofItems (toJsonAll children)))]
  have hfields : Json.Tree.fields? ["function", "children"] (.record members) =
    some [some (.text (some function.functionName)), some (.list (Json.Tree.ofItems (toJsonAll children)))] := rfl
  have hchildren : ofMembers? members = ofTrees? (Json.Tree.ofItems (toJsonAll children)) := by
    simp [members, ofMembers?]
  have hread : ofTree? (.record [(some "composite", .record members)]) =
      (ofMembers? members).map (.composite function) := by
    rw [Option.map_eq_bind]
    simp only [ofTree?, hfields, Option.bind_eq_bind, Option.bind_some, Json.Tree.name?, Combinator.ofName?_functionName]
    rfl
  rw [← hchildren, ← hread]
  rfl

mutual

/-- the tree of a filter's document is read as the filter, unless it holds a float that is not finite -/
theorem ofTree?_toJson : ∀ f : Filter,
    ofTree? (Json.Tree.ofJson f.toJson) = if f.literals.all Value.isFinite then some f else none
  | .leaf l => by
    rw [ofTree?_leaf, Leaf.ofTree?_toJson, literals]
    cases l.values.all Value.isFinite <;> rfl
  | .composite function children => by
    rw [ofTree?_composite, ofTrees?_toJsonAll children, literals]
    cases (literalsAll children).all Value.isFinite <;> rfl

theorem ofTrees?_toJsonAll : ∀ xs : List Filter,
    ofTrees? (Json.Tree.ofItems (toJsonAll xs)) = if (literalsAll xs).all Value.isFinite then some xs else none
  | [] => rfl
  | x :: xs => by
    rw [toJsonAll, Json.Tree.ofItems, ofTrees?, ofTree?_toJson x, ofTrees?_toJsonAll xs, literalsAll, List.all_append]
    cases x.literals.all Value.isFinite <;> cases (literalsAll xs).all Value.isFinite <;> rfl

end

/-- **Filter documents are read back**, nested to any depth: the text of a filter is read as that filter, and as no other,
just when every float among its literals is finite -/
theorem parse?_eq_some_iff (f g : Filter) :
    parse? f.render = some g ↔ g = f ∧ ∀ x, Value.float x ∈ f.literals → x.isFinite = true := by
  have hfinite : f.literals.all Value.isFinite = true ↔ ∀ x, Value.float x ∈ f.literals → x.isFinite = true := by
    rw [List.all_eq_true]
    constructor
    · exact fun h x hx => h _ hx
    · intro h v hv
      cases v with
      | float x => exact h x hv
      | _ => rfl
  rw [parse?, render, Json.Tree.read?_render (Json.floatsReadBack _), Option.bind_some, ofTree?_toJson, ← hfinite]
  split_ifs with h
  · rw [Option.some.injEq, eq_comm]
    exact (and_iff_left h).symm
  · exact ⟨nofun, fun hg => absurd hg.2 h⟩

/-- the float that is no number is written as null -/
example : parse? (compare "x" .lt (.float ⟨0x7FF8000000000000⟩)).render = none := by decide +kernel

end Filter

end PartitionedScan
