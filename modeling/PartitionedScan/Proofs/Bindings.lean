/-
Parameters and what is bound to them.

Placeholders are told apart by their numbers, so binding the literals of a compiled filter, one after another and over
whatever was bound before, gives every placeholder its own literal and leaves every other name alone. `Bound` is what an
evaluation needs to know of it: the placeholders from a number on stand for the literals in order.
-/
import PartitionedScan.Proofs.Outcomes
import PartitionedScan.Operator.Evaluation
import PartitionedScan.Filter.Compile

namespace PartitionedScan

/-! ## Binding several names -/

namespace SortedMap

variable {α : Type}

/-- binds the names of a list one after another -/
def insertAll (m : SortedMap α) (entries : List (String × α)) : SortedMap α :=
  entries.foldl (fun m e => m.insert e.1 e.2) m

/-- binding a name to the value that it has already changes nothing for it -/
theorem get?_insertAll_of_same {entries : List (String × α)} {m : SortedMap α} {key : String}
    (h : ∀ e ∈ entries, e.1 = key → m.get? key = some e.2) : (m.insertAll entries).get? key = m.get? key := by
  induction entries generalizing m with
  | nil => rfl
  | cons e entries ih =>
    rw [List.forall_mem_cons] at h
    have hfirst : (m.insert e.1 e.2).get? key = m.get? key := by
      by_cases hkey : e.1 = key
      · rw [h.1 hkey, ← hkey, get?_insert_self]
      · exact get?_insert_ne m e.2 (Ne.symm hkey)
    have hrest : ((m.insert e.1 e.2).insertAll entries).get? key = (m.insert e.1 e.2).get? key :=
      ih fun d hd hkey => hfirst.trans (h.2 d hd hkey)
    exact hrest.trans hfirst

theorem get?_insertAll_of_notMem {entries : List (String × α)} {key : String} (h : key ∉ entries.map Prod.fst)
    (m : SortedMap α) : (m.insertAll entries).get? key = m.get? key :=
  get?_insertAll_of_same fun _ he hkey => absurd (hkey ▸ List.mem_map_of_mem he) h

/-- a name that is bound once keeps its value -/
theorem get?_insertAll_of_mem {entries : List (String × α)} (hnodup : (entries.map Prod.fst).Nodup) {e : String × α}
    (h : e ∈ entries) (m : SortedMap α) : (m.insertAll entries).get? e.1 = some e.2 := by
  induction entries generalizing m with
  | nil => cases h
  | cons d entries ih =>
    rw [List.map_cons, List.nodup_cons] at hnodup
    rcases List.mem_cons.1 h with rfl | h
    · exact (get?_insertAll_of_notMem hnodup.1 _).trans (get?_insert_self m e.1 e.2)
    · exact ih hnodup.2 h (m.insert d.1 d.2)

end SortedMap

/-! ## Placeholders -/

theorem Text.Integer.ofNat_injective : Function.Injective Text.Integer.ofNat := by
  intro m n h
  have := Text.Integer.readNat?_ofNat m
  rw [h, Text.Integer.readNat?_ofNat] at this
  exact (Option.some.inj this).symm

theorem toString_toList (n : Nat) : (toString n).toList = Text.Integer.ofNat n := by
  rw [Text.Integer.ofNat]
  exact String.toList_ofList

theorem placeholder_injective : Function.Injective placeholder := by
  intro m n h
  have hs : toString m = toString n := (String.append_right_inj _).1 h
  apply Text.Integer.ofNat_injective
  rw [← toString_toList, ← toString_toList, hs]

/-- literals under their placeholders -/
def literalBindings (values : List Value) : List (String × Value) :=
  values.zipIdx.map fun (v, i) => (placeholder i, v)

theorem literalBindings_names (values : List Value) :
    (literalBindings values).map Prod.fst = (List.range' 0 values.length).map placeholder := by
  rw [← List.zipIdx_map_snd 0 values, literalBindings, List.map_map, List.map_map]
  rfl

theorem literalBindings_literals (values : List Value) : (literalBindings values).map Prod.snd = values := by
  rw [literalBindings, List.map_map]
  exact List.zipIdx_map_fst 0 values

theorem literalBindings_nodup (values : List Value) : ((literalBindings values).map Prod.fst).Nodup := by
  rw [literalBindings_names]
  exact List.Nodup.map placeholder_injective List.nodup_range'

/-- every literal is bound under the placeholder with its number -/
theorem mem_literalBindings {values : List Value} {b : String × Value} :
    b ∈ literalBindings values ↔ ∃ i, values[i]? = some b.2 ∧ b.1 = placeholder i := by
  obtain ⟨name, v⟩ := b
  simp only [literalBindings, List.mem_map, List.mem_zipIdx_iff_getElem?, Prod.exists, Prod.mk.injEq]
  constructor
  · rintro ⟨w, i, hw, rfl, rfl⟩
    exact ⟨i, hw, rfl⟩
  · rintro ⟨i, hv, rfl⟩
    exact ⟨v, i, hv, rfl, rfl⟩

theorem placeholder_mem_literalBindings {values : List Value} {i : Nat} {v : Value} :
    (placeholder i, v) ∈ literalBindings values ↔ values[i]? = some v := by
  rw [mem_literalBindings]
  constructor
  · rintro ⟨j, hj, hname⟩
    obtain rfl : i = j := placeholder_injective hname
    exact hj
  · exact fun hv => ⟨i, hv, rfl⟩

/-- the placeholders from `next` on stand for the literals, in order -/
def Bound (params : SortedMap Value) (next : Nat) (values : List Value) : Prop :=
  ∀ i v, values[i]? = some v → params.get? (placeholder (next + i)) = some v

namespace Bound

variable {params : SortedMap Value} {next : Nat}

theorem head {v : Value} {values : List Value} (h : Bound params next (v :: values)) :
    params.get? (placeholder next) = some v :=
  h 0 v rfl

theorem tail {v : Value} {values : List Value} (h : Bound params next (v :: values)) :
    Bound params (next + 1) values := by
  intro i w hw
  rw [show next + 1 + i = next + (i + 1) by omega]
  exact h (i + 1) w hw

theorem left {values rest : List Value} (h : Bound params next (values ++ rest)) : Bound params next values := by
  intro i v hv
  obtain ⟨hlt, _⟩ := List.getElem?_eq_some_iff.1 hv
  exact h i v (by rwa [List.getElem?_append_left hlt])

theorem right {values rest : List Value} (h : Bound params next (values ++ rest)) :
    Bound params (next + values.length) rest := by
  intro i v hv
  rw [Nat.add_assoc]
  exact h (values.length + i) v (by rwa [List.getElem?_append_right (Nat.le_add_right _ _), Nat.add_sub_cancel_left])

/-- the bindings of a compiled filter do their work over any parameters bound before -/
theorem of_literals (params : SortedMap Value) (values : List Value) :
    Bound (params.insertAll (literalBindings values)) 0 values := by
  intro i v hv
  rw [Nat.zero_add]
  exact SortedMap.get?_insertAll_of_mem (literalBindings_nodup values) (e := (placeholder i, v))
    (placeholder_mem_literalBindings.2 hv) params

end Bound

end PartitionedScan
