/-
A printed document is read back.

Printing and reading meet in the tree of a text: `Tree.ofJson` is the tree that the text of a document has. The characters
are cut into the tokens of that tree (`spells_write`), the machine that reads tokens comes back to the tree
(`ofTokens?_tokens`, of every tree), and the tree stands for the document (`json?_ofJson`). Whole numbers and strings need no
assumption. Whether a float is read as it was printed is a property of its digits, and it is asked for in that place only
(`FloatsReadBack`). Main results:
- `read?_render`: the text of a document is read as the document;
- `ofTokens?_tokens`: the tokens of any tree are read as that tree.
-/
import PartitionedScan.Json.Tree
import PartitionedScan.Proofs.Json.Tokens

namespace PartitionedScan.Json

/-! ## Numbers of a document -/

mutual

/-- all numbers of a document -/
def numbers : Json → List Number
  | .number n => [n]
  | .array items => numbersOfItems items
  | .object members => numbersOfMembers members
  | _ => []

def numbersOfItems : List Json → List Number
  | [] => []
  | x :: xs => numbers x ++ numbersOfItems xs

def numbersOfMembers : List (String × Json) → List Number
  | [] => []
  | (_, x) :: xs => numbers x ++ numbersOfMembers xs

end

/-- the text of every float of the document is read as that float -/
def FloatsReadBack (j : Json) : Prop :=
  ∀ n ∈ j.numbers, n.isFloat = true → n.ReadsBack

instance (j : Json) : Decidable j.FloatsReadBack :=
  inferInstanceAs (Decidable (∀ n ∈ j.numbers, n.isFloat = true → n.ReadsBack))

theorem FloatsReadBack.numbers {j : Json} (h : j.FloatsReadBack) : ∀ n ∈ j.numbers, n.ReadsBack := by
  intro n hn
  cases n with
  | int value bounded => exact Number.readsBack_int value bounded
  | float x finite => exact h _ hn rfl

namespace Tree

/-! ## Trees and their tokens -/

mutual

/-- the tokens of a tree, in front of a rest -/
def tokens : Tree → List Token → List Token
  | .null, rest => .null :: rest
  | .bool b, rest => .bool b :: rest
  | .numeral n, rest => .numeral n :: rest
  | .text s, rest => .text s :: rest
  | .list [], rest => .openBracket :: .closeBracket :: rest
  | .list (x :: xs), rest => .openBracket :: tokens x (itemTokens xs rest)
  | .record [], rest => .openBrace :: .closeBrace :: rest
  | .record ((k, x) :: xs), rest => .openBrace :: .text k :: .colon :: tokens x (memberTokens xs rest)

/-- the tokens of the items after the first one -/
def itemTokens : List Tree → List Token → List Token
  | [], rest => .closeBracket :: rest
  | x :: xs, rest => .comma :: tokens x (itemTokens xs rest)

/-- the tokens of the members after the first one -/
def memberTokens : List (Option String × Tree) → List Token → List Token
  | [], rest => .closeBrace :: rest
  | (k, x) :: xs, rest => .comma :: .text k :: .colon :: tokens x (memberTokens xs rest)

end

theorem tokens_head (t : Tree) (rest : List Token) :
    ∃ first more, tokens t rest = first :: more ∧ first ≠ .closeBracket := by
  cases t with
  | list items => cases items <;> exact ⟨_, _, rfl, by simp⟩
  | record members => cases members <;> exact ⟨_, _, rfl, by simp⟩
  | _ => exact ⟨_, _, rfl, by simp⟩

/-- a first item is read like any value -/
theorem firstItem_tokens (t : Tree) (stack : List Frame) (rest : List Token) :
    (tokens t rest).foldlM Reading.step? ⟨stack, .firstItem⟩ =
      (tokens t rest).foldlM Reading.step? ⟨.list [] :: stack, .value⟩ := by
  obtain ⟨first, more, htokens, hfirst⟩ := tokens_head t rest
  have hstep : Reading.step? ⟨stack, .firstItem⟩ first = Reading.step? ⟨.list [] :: stack, .value⟩ first := by
    cases first with
    | closeBracket => exact absurd rfl hfirst
    | _ => rfl
  rw [htokens, List.foldlM_cons, List.foldlM_cons, hstep]

mutual

/-- where a value is due, the tokens of a tree are read as the tree -/
theorem value_tokens : ∀ (t : Tree) (stack : List Frame) (rest : List Token),
    (tokens t rest).foldlM Reading.step? ⟨stack, .value⟩ = rest.foldlM Reading.step? (.place stack t)
  | .null, _, _ => rfl
  | .bool _, _, _ => rfl
  | .numeral _, _, _ => rfl
  | .text _, _, _ => rfl
  | .list [], _, _ => rfl
  | .list (x :: xs), stack, rest => by
    have hfirst : (tokens (.list (x :: xs)) rest).foldlM Reading.step? ⟨stack, .value⟩ =
        (tokens x (itemTokens xs rest)).foldlM Reading.step? ⟨stack, .firstItem⟩ := rfl
    rw [hfirst, firstItem_tokens, value_tokens x]
    exact item_tokens xs [x] stack rest
  | .record [], _, _ => rfl
  | .record ((k, x) :: xs), stack, rest => by
    have hfirst : (tokens (.record ((k, x) :: xs)) rest).foldlM Reading.step? ⟨stack, .value⟩ =
        (tokens x (memberTokens xs rest)).foldlM Reading.step? ⟨.record [] k :: stack, .value⟩ := rfl
    rw [hfirst, value_tokens x]
    exact member_tokens xs [(k, x)] stack rest

theorem item_tokens : ∀ (xs done : List Tree) (stack : List Frame) (rest : List Token),
    (itemTokens xs rest).foldlM Reading.step? ⟨stack, .listEnd done⟩ =
      rest.foldlM Reading.step? (.place stack (.list (done.reverse ++ xs)))
  | [], done, stack, rest => by
    rw [List.append_nil]
    rfl
  | x :: xs, done, stack, rest => by
    have hfirst : (itemTokens (x :: xs) rest).foldlM Reading.step? ⟨stack, .listEnd done⟩ =
        (tokens x (itemTokens xs rest)).foldlM Reading.step? ⟨.list done :: stack, .value⟩ := rfl
    have hrest := item_tokens xs (x :: done) stack rest
    rw [List.reverse_cons, List.append_assoc] at hrest
    rw [hfirst, value_tokens x]
    exact hrest

theorem member_tokens : ∀ (xs done : List (Option String × Tree)) (stack : List Frame) (rest : List Token),
    (memberTokens xs rest).foldlM Reading.step? ⟨stack, .recordEnd done⟩ =
      rest.foldlM Reading.step? (.place stack (.record (done.reverse ++ xs)))
  | [], done, stack, rest => by
    rw [List.append_nil]
    rfl
  | (k, x) :: xs, done, stack, rest => by
    have hfirst : (memberTokens ((k, x) :: xs) rest).foldlM Reading.step? ⟨stack, .recordEnd done⟩ =
        (tokens x (memberTokens xs rest)).foldlM Reading.step? ⟨.record done k :: stack, .value⟩ := rfl
    have hrest := member_tokens xs ((k, x) :: done) stack rest
    rw [List.reverse_cons, List.append_assoc] at hrest
    rw [hfirst, value_tokens x]
    exact hrest

end

/-- **The tokens of a tree are read as the tree** -/
theorem ofTokens?_tokens (t : Tree) : ofTokens? (tokens t []) = some t := by
  rw [ofTokens?, value_tokens]
  rfl

/-! ## The tree of a document -/

mutual

/-- the tree that the text of a document has -/
def ofJson : Json → Tree
  | .null => .null
  | .bool b => .bool b
  | .number n => .numeral n.numeral
  | .string s => .text (some s)
  | .array items => .list (ofItems items)
  | .object members => .record (ofMembers members)

def ofItems : List Json → List Tree
  | [] => []
  | x :: xs => ofJson x :: ofItems xs

def ofMembers : List (String × Json) → List (Option String × Tree)
  | [] => []
  | (k, x) :: xs => (some k, ofJson x) :: ofMembers xs

end

mutual

/-- the tree of a document stands for the document -/
theorem json?_ofJson : ∀ (j : Json), (∀ n ∈ j.numbers, n.ReadsBack) → (ofJson j).json? = some j
  | .null, _ => rfl
  | .bool _, _ => rfl
  | .number n, h => by
    have hn : n.ReadsBack := h n (by simp [numbers])
    rw [ofJson, json?, hn.numeral.2]
    rfl
  | .string _, _ => rfl
  | .array items, h => by
    rw [ofJson, json?, jsonItems?_ofItems items h]
    rfl
  | .object members, h => by
    rw [ofJson, json?, jsonMembers?_ofMembers members h]
    rfl

theorem jsonItems?_ofItems : ∀ (xs : List Json), (∀ n ∈ numbersOfItems xs, n.ReadsBack) →
    jsonItems? (ofItems xs) = some xs
  | [], _ => rfl
  | x :: xs, h => by
    rw [numbersOfItems, List.forall_mem_append] at h
    rw [ofItems, jsonItems?, json?_ofJson x h.1, jsonItems?_ofItems xs h.2]
    rfl

theorem jsonMembers?_ofMembers : ∀ (xs : List (String × Json)), (∀ n ∈ numbersOfMembers xs, n.ReadsBack) →
    jsonMembers? (ofMembers xs) = some xs
  | [], _ => rfl
  | (k, x) :: xs, h => by
    rw [numbersOfMembers, List.forall_mem_append] at h
    rw [ofMembers, jsonMembers?, json?_ofJson x h.1, jsonMembers?_ofMembers xs h.2]
    rfl

end

/-! ## The text of a document -/

theorem endsBefore_items (xs : List Json) (rest : List Char) : Numeral.EndsBefore (writeItems xs rest) := by
  cases xs <;> exact Numeral.endsBefore_cons _ (by decide)

theorem endsBefore_members (xs : List (String × Json)) (rest : List Char) :
    Numeral.EndsBefore (writeMembers xs rest) := by
  cases xs <;> exact Numeral.endsBefore_cons _ (by decide)

mutual

/-- the text of a document is cut into the tokens of its tree -/
theorem spells_write : ∀ (j : Json), (∀ n ∈ j.numbers, n.ReadsBack) → ∀ {rest : List Char} {ts : List Token},
    Numeral.EndsBefore rest → Token.Spells rest ts → Token.Spells (write j rest) (tokens (ofJson j) ts)
  | .null, _, _, _, _, h => .cons rfl rfl (by simp only [List.length_cons]; omega) h
  | .bool true, _, _, _, _, h => .cons rfl rfl (by simp only [List.length_cons]; omega) h
  | .bool false, _, _, _, _, h => .cons rfl rfl (by simp only [List.length_cons]; omega) h
  | .number n, hread, _, _, hends, h => .number (hread n (by simp [numbers])) hends h
  | .string s, _, _, _, _, h => .text s h
  | .array [], _, _, _, _, h => .cons rfl rfl (by simp) (.cons rfl rfl le_rfl h)
  | .array (x :: xs), hread, rest, ts, _, h => by
    rw [numbers, numbersOfItems, List.forall_mem_append] at hread
    exact .cons rfl rfl le_rfl (spells_write x hread.1 (endsBefore_items xs rest) (spells_writeItems xs hread.2 h))
  | .object [], _, _, _, _, h => .cons rfl rfl (by simp) (.cons rfl rfl le_rfl h)
  | .object ((k, x) :: xs), hread, rest, ts, _, h => by
    rw [numbers, numbersOfMembers, List.forall_mem_append] at hread
    exact .cons rfl rfl le_rfl (.text k (.cons rfl rfl le_rfl
      (spells_write x hread.1 (endsBefore_members xs rest) (spells_writeMembers xs hread.2 h))))

theorem spells_writeItems : ∀ (xs : List Json), (∀ n ∈ numbersOfItems xs, n.ReadsBack) →
    ∀ {rest : List Char} {ts : List Token}, Token.Spells rest ts →
      Token.Spells (writeItems xs rest) (itemTokens (ofItems xs) ts)
  | [], _, _, _, h => .cons rfl rfl le_rfl h
  | x :: xs, hread, rest, ts, h => by
    rw [numbersOfItems, List.forall_mem_append] at hread
    exact .cons rfl rfl le_rfl (spells_write x hread.1 (endsBefore_items xs rest) (spells_writeItems xs hread.2 h))

theorem spells_writeMembers : ∀ (xs : List (String × Json)), (∀ n ∈ numbersOfMembers xs, n.ReadsBack) →
    ∀ {rest : List Char} {ts : List Token}, Token.Spells rest ts →
      Token.Spells (writeMembers xs rest) (memberTokens (ofMembers xs) ts)
  | [], _, _, _, h => .cons rfl rfl le_rfl h
  | (k, x) :: xs, hread, rest, ts, h => by
    rw [numbersOfMembers, List.forall_mem_append] at hread
    exact .cons rfl rfl le_rfl (.text k (.cons rfl rfl le_rfl
      (spells_write x hread.1 (endsBefore_members xs rest) (spells_writeMembers xs hread.2 h))))

end

/-- **The text of a document has its tree** -/
theorem read?_render {j : Json} (h : j.FloatsReadBack) : read? j.render = some (ofJson j) := by
  have hspells := spells_write j h.numbers Numeral.endsBefore_nil .nil
  rw [read?, render, String.toList_ofList, hspells.scan?, Option.bind_some, ofTokens?_tokens]

/-- **A printed document is read back**, its members in the order in which they were printed -/
theorem json?_render {j : Json} (h : j.FloatsReadBack) : (read? j.render).bind json? = some j := by
  rw [read?_render h, Option.bind_some, json?_ofJson j h.numbers]

end Tree

end PartitionedScan.Json
