/-
Finite maps from text to values, kept in key order.

A map is the list of its entries with strictly increasing keys, so equal maps have equal lists and an answer that lists
a map lists it by key (code point by code point). `insert` replaces, `insertMissing` and `mergeMissing` never do.
-/

namespace PartitionedScan

/-- entries in strictly increasing order of their keys -/
structure SortedMap (α : Type) where
  entries : List (String × α)
  increasing : entries.Pairwise fun a b => a.1 < b.1
  deriving DecidableEq, Repr

namespace SortedMap

variable {α β : Type}

/-! ## Entry lists -/

/-- insertion into an entry list; an entry with the same key is replaced -/
def insertEntry (key : String) (value : α) : List (String × α) → List (String × α)
  | [] => [(key, value)]
  | (k, v) :: rest =>
    if key < k then (key, value) :: (k, v) :: rest
    else if key = k then (key, value) :: rest
    else (k, v) :: insertEntry key value rest

theorem mem_insertEntry {key : String} {value : α} {e : String × α} {l : List (String × α)}
    (h : e ∈ insertEntry key value l) : e = (key, value) ∨ e ∈ l := by
  induction l with
  | nil => exact Or.inl (by simpa [insertEntry] using h)
  | cons hd rest ih =>
    obtain ⟨k, v⟩ := hd
    rw [insertEntry] at h
    split at h
    · simpa using h
    · split at h
      · rcases List.mem_cons.1 h with h | h
        · exact Or.inl h
        · exact Or.inr (List.mem_cons_of_mem _ h)
      · rcases List.mem_cons.1 h with h | h
        · exact Or.inr (h ▸ List.mem_cons_self)
        · exact (ih h).imp id (List.mem_cons_of_mem _)

theorem insertEntry_increasing (key : String) (value : α) {l : List (String × α)}
    (h : l.Pairwise fun a b => a.1 < b.1) : (insertEntry key value l).Pairwise fun a b => a.1 < b.1 := by
  induction l with
  | nil => simp [insertEntry]
  | cons hd rest ih =>
    obtain ⟨k, v⟩ := hd
    obtain ⟨hhead, htail⟩ := List.pairwise_cons.1 h
    rw [insertEntry]
    split
    · next hlt =>
      refine List.pairwise_cons.2 ⟨fun e he => ?_, h⟩
      rcases List.mem_cons.1 he with he | he
      · exact he ▸ hlt
      · exact String.lt_trans hlt (hhead e he)
    · next hnlt =>
      split
      · next heq =>
        subst heq
        exact List.pairwise_cons.2 ⟨hhead, htail⟩
      · next hne =>
        refine List.pairwise_cons.2 ⟨fun e he => ?_, ih htail⟩
        rcases mem_insertEntry he with he | he
        · subst he
          by_cases hk : k < key
          · exact hk
          · exact absurd (String.le_antisymm (String.not_lt.1 hk) (String.not_lt.1 hnlt)) hne
        · exact hhead e he

/-! ## Maps -/

def empty : SortedMap α := ⟨[], List.Pairwise.nil⟩

instance : Inhabited (SortedMap α) := ⟨empty⟩

/-- the value stored under a key -/
def get? (m : SortedMap α) (key : String) : Option α :=
  (m.entries.find? fun e => e.1 == key).map Prod.snd

/-- stores a value, in place of the one stored before -/
def insert (m : SortedMap α) (key : String) (value : α) : SortedMap α :=
  ⟨insertEntry key value m.entries, insertEntry_increasing key value m.increasing⟩

/-- stores a value unless the key has one -/
def insertMissing (m : SortedMap α) (key : String) (value : α) : SortedMap α :=
  if (m.get? key).isSome then m else m.insert key value

/-- every entry of `other` whose key is not stored yet -/
def mergeMissing (m other : SortedMap α) : SortedMap α :=
  other.entries.foldl (fun acc e => acc.insertMissing e.1 e.2) m

/-- the entries one after another; a later one replaces an earlier one with its key -/
def ofList (entries : List (String × α)) : SortedMap α :=
  entries.foldl (fun acc e => acc.insert e.1 e.2) empty

/-- the entries whose key passes -/
def filterKeys (m : SortedMap α) (keep : String → Bool) : SortedMap α :=
  ⟨m.entries.filter fun e => keep e.1, m.increasing.filter _⟩

/-! ## Laws -/

theorem find?_insertEntry_self (key : String) (value : α) (l : List (String × α)) :
    (insertEntry key value l).find? (fun e => e.1 == key) = some (key, value) := by
  induction l with
  | nil => simp [insertEntry]
  | cons hd rest ih =>
    obtain ⟨k, v⟩ := hd
    rw [insertEntry]
    split
    · simp
    · split
      · simp
      · next hne => simp [Ne.symm hne, ih]

theorem find?_insertEntry_ne {key other : String} (value : α) (h : other ≠ key) (l : List (String × α)) :
    (insertEntry key value l).find? (fun e => e.1 == other) = l.find? (fun e => e.1 == other) := by
  induction l with
  | nil => simp [insertEntry, Ne.symm h]
  | cons hd rest ih =>
    obtain ⟨k, v⟩ := hd
    rw [insertEntry]
    split
    · simp [List.find?_cons, Ne.symm h]
    · split
      · next heq => subst heq; simp [Ne.symm h]
      · simp [List.find?_cons, ih]

@[simp] theorem get?_empty (key : String) : (empty : SortedMap α).get? key = none := rfl

@[simp] theorem get?_insert_self (m : SortedMap α) (key : String) (value : α) :
    (m.insert key value).get? key = some value := by
  simp [get?, insert, find?_insertEntry_self]

theorem get?_insert_ne (m : SortedMap α) {key other : String} (value : α) (h : other ≠ key) :
    (m.insert key value).get? other = m.get? other := by
  simp [get?, insert, find?_insertEntry_ne value h]

theorem get?_insert (m : SortedMap α) (key other : String) (value : α) :
    (m.insert key value).get? other = if other = key then some value else m.get? other := by
  by_cases h : other = key
  · subst h; simp
  · simp [h, get?_insert_ne m value h]

theorem get?_insertMissing (m : SortedMap α) (key other : String) (value : α) :
    (m.insertMissing key value).get? other = (m.get? other).or (if other = key then some value else none) := by
  rw [insertMissing]
  split
  · next h =>
    by_cases ho : other = key
    · subst ho
      obtain ⟨v, hv⟩ := Option.isSome_iff_exists.1 h
      simp [hv]
    · simp [ho]
  · next h =>
    rw [get?_insert]
    by_cases ho : other = key
    · subst ho
      have : m.get? other = none := by simpa using h
      simp [this]
    · simp [ho]

/-- merging keeps what is there and takes the rest -/
theorem get?_mergeMissing (m other : SortedMap α) (key : String) :
    (m.mergeMissing other).get? key = (m.get? key).or (other.get? key) := by
  have hentries (entries : List (String × α)) (m : SortedMap α) :
      (entries.foldl (fun acc e => acc.insertMissing e.1 e.2) m).get? key =
        (m.get? key).or ((entries.find? fun e => e.1 == key).map Prod.snd) := by
    induction entries generalizing m with
    | nil => simp
    | cons e entries ih =>
      rw [List.foldl_cons, ih, get?_insertMissing, Option.or_assoc, List.find?_cons]
      by_cases h : key = e.1
      · simp [h]
      · rw [if_neg h, beq_false_of_ne (Ne.symm h), Option.none_or]
  exact hentries other.entries m

end SortedMap

end PartitionedScan
