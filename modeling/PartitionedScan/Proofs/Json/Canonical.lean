/-
Documents as free values.

Taking a document as a free value sorts the members of every object and keeps the last of those with one key. Where no key
is repeated this only sorts (`canonical_object_perm`), and on a document that went through it already it does nothing
(`canonical_canonical`). Induction over a document goes over the values in its containers (`inductOn`). Main results:
- `canonical_canonical`: taking a document as a free value again changes nothing;
- `distinctKeys_canonical`: a free value repeats no key.
-/
import Mathlib.Tactic
import PartitionedScan.Proofs.Json.RoundTrip

namespace PartitionedScan

namespace SortedMap

variable {α : Type}

theorem insertEntry_perm {key : String} {l : List (String × α)} (h : key ∉ l.map Prod.fst) (value : α) :
    (insertEntry key value l).Perm ((key, value) :: l) := by
  induction l with
  | nil => exact .refl _
  | cons e l ih =>
    obtain ⟨k, v⟩ := e
    rw [List.map_cons, List.mem_cons, not_or] at h
    rw [insertEntry]
    split_ifs with hlt heq
    · exact .refl _
    · exact absurd heq h.1
    · exact ((ih h.2).cons _).trans (.swap ..)

/-- entries in strictly increasing order of their keys are determined by what they are -/
theorem entries_eq_of_perm {m m' : SortedMap α} (h : m.entries.Perm m'.entries) : m = m' := by
  have hentries : m.entries = m'.entries :=
    h.eq_of_pairwise (fun a b _ _ hab hba => absurd hab (String.lt_asymm hba)) m.increasing m'.increasing
  cases m
  cases m'
  cases hentries
  rfl

theorem nodup_keys (m : SortedMap α) : (m.entries.map Prod.fst).Nodup :=
  List.pairwise_map.2 (m.increasing.imp String.ne_of_lt)

end SortedMap

namespace Json

/-- induction over a document: a container has the property when all values in it have -/
@[elab_as_elim]
theorem inductOn {P : Json → Prop} (j : Json) (null : P .null) (bool : ∀ b, P (.bool b)) (number : ∀ n, P (.number n))
    (string : ∀ s, P (.string s)) (array : ∀ items, (∀ x ∈ items, P x) → P (.array items))
    (object : ∀ members, (∀ m ∈ members, P m.2) → P (.object members)) : P j :=
  match j with
  | .null => null
  | .bool b => bool b
  | .number n => number n
  | .string s => string s
  | .array items => array items fun x _hx => inductOn x null bool number string array object
  | .object members => object members fun m _hm => inductOn m.2 null bool number string array object
termination_by sizeOf j
decreasing_by
  · have hlt := List.sizeOf_lt_of_mem _hx
    simp only [Json.array.sizeOf_spec]
    omega
  · have hlt := List.sizeOf_lt_of_mem _hm
    have hvalue : sizeOf m.2 < sizeOf m := by
      cases m
      simp only [Prod.mk.sizeOf_spec]
      omega
    simp only [Json.object.sizeOf_spec]
    omega

/-! ## Containers as lists -/

theorem canonicalItems_eq_map (items : List Json) : canonicalItems items = items.map canonical := by
  induction items with
  | nil => rfl
  | cons x xs ih => rw [canonicalItems, ih, List.map_cons]

theorem mem_numbersOfItems {n : Number} {items : List Json} :
    n ∈ numbersOfItems items ↔ ∃ x ∈ items, n ∈ x.numbers := by
  induction items with
  | nil => simp [numbersOfItems]
  | cons x xs ih => simp [numbersOfItems, ih]

theorem mem_numbersOfMembers {n : Number} {members : List (String × Json)} :
    n ∈ numbersOfMembers members ↔ ∃ m ∈ members, n ∈ m.2.numbers := by
  induction members with
  | nil => simp [numbersOfMembers]
  | cons m members ih =>
    obtain ⟨k, x⟩ := m
    simp [numbersOfMembers, ih]

/-! ## Members in the order of their keys -/

theorem mem_canonicalMembers {members : List (String × Json)} {done : SortedMap Json} {e : String × Json}
    (h : e ∈ (canonicalMembers members done).entries) :
    e ∈ done.entries ∨ ∃ m ∈ members, e = (m.1, m.2.canonical) := by
  induction members generalizing done with
  | nil => exact Or.inl h
  | cons m members ih =>
    rw [canonicalMembers] at h
    rcases ih h with h | ⟨m', hm', h⟩
    · rcases SortedMap.mem_insertEntry h with h | h
      · exact Or.inr ⟨m, List.mem_cons_self, h⟩
      · exact Or.inl h
    · exact Or.inr ⟨m', List.mem_cons_of_mem _ hm', h⟩

/-- where no key is repeated, the sorted members are the members in another order -/
theorem canonicalMembers_perm {members : List (String × Json)} {done : SortedMap Json}
    (h : ((members.map Prod.fst) ++ (done.entries.map Prod.fst)).Nodup) :
    (canonicalMembers members done).entries.Perm
      (members.map (fun m => (m.1, m.2.canonical)) ++ done.entries) := by
  induction members generalizing done with
  | nil => exact .refl _
  | cons m members ih =>
    obtain ⟨k, x⟩ := m
    rw [List.map_cons, List.cons_append, List.nodup_cons] at h
    obtain ⟨hkey, hrest⟩ := h
    rw [List.mem_append, not_or] at hkey
    have hinsert := SortedMap.insertEntry_perm hkey.2 x.canonical
    have hkeys := (hinsert.map Prod.fst).append_left (members.map Prod.fst)
    have hnodup : ((members.map Prod.fst) ++ ((done.insert k x.canonical).entries.map Prod.fst)).Nodup := by
      refine hkeys.nodup_iff.2 ?_
      rw [List.map_cons]
      exact List.perm_middle.nodup_iff.2 (List.nodup_cons.2 ⟨by simp [hkey], hrest⟩)
    rw [canonicalMembers, List.map_cons, List.cons_append]
    exact (ih hnodup).trans ((hinsert.append_left _).trans List.perm_middle)

theorem canonical_object_perm {members : List (String × Json)} (h : (members.map Prod.fst).Nodup) :
    (canonicalMembers members .empty).entries.Perm (members.map fun m => (m.1, m.2.canonical)) := by
  have hnodup : ((members.map Prod.fst) ++ ((SortedMap.empty : SortedMap Json).entries.map Prod.fst)).Nodup := by
    simpa [SortedMap.empty] using h
  simpa [SortedMap.empty] using canonicalMembers_perm hnodup

/-- sorted members that are free values already stay as they are -/
theorem canonicalMembers_entries {m : SortedMap Json} (h : ∀ e ∈ m.entries, e.2.canonical = e.2) :
    canonicalMembers m.entries .empty = m := by
  have hsame : m.entries.map (fun e => (e.1, e.2.canonical)) = m.entries := by
    conv_rhs => rw [← List.map_id m.entries]
    exact List.map_congr_left fun e he => by rw [h e he]; rfl
  have hperm := canonical_object_perm m.nodup_keys
  rw [hsame] at hperm
  exact SortedMap.entries_eq_of_perm hperm

/-- **Taking a document as a free value again changes nothing** -/
theorem canonical_canonical (j : Json) : j.canonical.canonical = j.canonical := by
  induction j using inductOn with
  | null | bool | number | string => rfl
  | array items ih =>
    rw [canonical, canonical, canonicalItems_eq_map, canonicalItems_eq_map, List.map_map]
    exact congrArg Json.array (List.map_congr_left ih)
  | object members ih =>
    have hvalues : ∀ e ∈ (canonicalMembers members .empty).entries, e.2.canonical = e.2 := by
      intro e he
      rcases mem_canonicalMembers he with he | ⟨m, hm, rfl⟩
      · cases he
      · exact ih m hm
    rw [canonical, canonical, canonicalMembers_entries hvalues]

/-- a free value has no numbers but those of the document -/
theorem numbers_canonical (j : Json) : j.canonical.numbers ⊆ j.numbers := by
  induction j using inductOn with
  | null | bool | number | string => exact fun _ h => h
  | array items ih =>
    intro n hn
    rw [canonical, canonicalItems_eq_map, numbers, mem_numbersOfItems] at hn
    obtain ⟨x', hx', hn⟩ := hn
    obtain ⟨x, hx, rfl⟩ := List.mem_map.1 hx'
    exact mem_numbersOfItems.2 ⟨x, hx, ih x hx hn⟩
  | object members ih =>
    intro n hn
    rw [canonical, numbers, mem_numbersOfMembers] at hn
    obtain ⟨e, he, hn⟩ := hn
    rcases mem_canonicalMembers he with he | ⟨m, hm, rfl⟩
    · cases he
    · exact mem_numbersOfMembers.2 ⟨m, hm, ih m hm hn⟩

/-! ## Repeated keys -/

mutual

/-- no object of the document repeats a key -/
def DistinctKeys : Json → Prop
  | .array items => DistinctItems items
  | .object members => (members.map Prod.fst).Nodup ∧ DistinctMembers members
  | _ => True

def DistinctItems : List Json → Prop
  | [] => True
  | x :: xs => DistinctKeys x ∧ DistinctItems xs

def DistinctMembers : List (String × Json) → Prop
  | [] => True
  | (_, x) :: xs => DistinctKeys x ∧ DistinctMembers xs

end

theorem distinctItems_iff {items : List Json} : DistinctItems items ↔ ∀ x ∈ items, x.DistinctKeys := by
  induction items with
  | nil => simp [DistinctItems]
  | cons x xs ih => simp [DistinctItems, ih]

theorem distinctMembers_iff {members : List (String × Json)} :
    DistinctMembers members ↔ ∀ m ∈ members, m.2.DistinctKeys := by
  induction members with
  | nil => simp [DistinctMembers]
  | cons m members ih =>
    obtain ⟨k, x⟩ := m
    simp [DistinctMembers, ih]

/-- **A free value repeats no key** -/
theorem distinctKeys_canonical (j : Json) : j.canonical.DistinctKeys := by
  induction j using inductOn with
  | null | bool | number | string => trivial
  | array items ih =>
    rw [canonical, DistinctKeys, canonicalItems_eq_map, distinctItems_iff, List.forall_mem_map]
    exact ih
  | object members ih =>
    rw [canonical, DistinctKeys, distinctMembers_iff]
    refine ⟨SortedMap.nodup_keys _, fun e he => ?_⟩
    rcases mem_canonicalMembers he with he | ⟨m, hm, rfl⟩
    · cases he
    · exact ih m hm

end Json

end PartitionedScan
