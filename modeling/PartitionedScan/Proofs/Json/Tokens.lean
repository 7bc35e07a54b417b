/-
The words of a printed document.

`Spells` says that characters are cut into tokens; it is put together from one token in front of a rest (`Spells.cons`). A
number is one token wherever nothing follows that could be part of it (`Numeral.scan?_append`), because the scanner only
looks at what comes next. A whole number is read as it was written (`readsBack_int`); for a float this is a property of its
text, `Number.ReadsBack`. A string is written character by character and read piece by piece (`next?_writeText`).
-/
import Mathlib.Tactic
import PartitionedScan.Decimal.Reader
import PartitionedScan.Json.Printer
import PartitionedScan.Json.Token

namespace PartitionedScan.Json

/-! ## Numbers -/

namespace Numeral

/-- nothing in front of the rest could be part of a number -/
def EndsBefore (rest : List Char) : Prop :=
  ∀ c r, rest = c :: r → c.isDigit = false ∧ c ≠ '.' ∧ c ≠ 'e' ∧ c ≠ 'E'

theorem endsBefore_nil : EndsBefore [] := fun _ _ h => by cases h

theorem endsBefore_cons {c : Char} (r : List Char) (h : c.isDigit = false ∧ c ≠ '.' ∧ c ≠ 'e' ∧ c ≠ 'E') :
    EndsBefore (c :: r) := fun _ _ heq => by
  cases heq
  exact h

variable {rest : List Char}

theorem spanDigits_cons (c : Char) (cs : List Char) :
    spanDigits (c :: cs) = if c.isDigit then (c :: (spanDigits cs).1, (spanDigits cs).2) else ([], c :: cs) := by
  unfold spanDigits
  rw [List.span_eq_takeWhile_dropWhile, List.span_eq_takeWhile_dropWhile, List.takeWhile_cons, List.dropWhile_cons]
  split_ifs <;> rfl

theorem spanDigits_append (h : EndsBefore rest) (cs : List Char) :
    spanDigits (cs ++ rest) = ((spanDigits cs).1, (spanDigits cs).2 ++ rest) := by
  induction cs with
  | nil =>
    cases rest with
    | nil => rfl
    | cons c r =>
      rw [List.nil_append, spanDigits_cons, (h c r rfl).1]
      rfl
  | cons c cs ih =>
    rw [List.cons_append, spanDigits_cons, spanDigits_cons, ih]
    split_ifs <;> rfl

theorem spanDigits_of_all {cs : List Char} (h : ∀ c ∈ cs, c.isDigit = true) : spanDigits cs = (cs, []) := by
  induction cs with
  | nil => rfl
  | cons c cs ih =>
    rw [List.forall_mem_cons] at h
    rw [spanDigits_cons, if_pos h.1, ih h.2]

theorem scanFraction?_of_ne {c : Char} (h : c ≠ '.') (cs : List Char) : scanFraction? (c :: cs) = some (none, c :: cs) := by
  rw [scanFraction?]
  exact fun _ heq => h (List.cons.inj heq).1

theorem scanFraction?_append (h : EndsBefore rest) {cs r : List Char} {fraction : Option (List Char)}
    (hscan : scanFraction? cs = some (fraction, r)) : scanFraction? (cs ++ rest) = some (fraction, r ++ rest) := by
  cases cs with
  | nil =>
    cases hscan
    cases rest with
    | nil => rfl
    | cons c s => exact scanFraction?_of_ne (h c s rfl).2.1 s
  | cons c cs =>
    by_cases hpoint : c = '.'
    · subst hpoint
      simp only [List.cons_append, scanFraction?, spanDigits_append h] at hscan ⊢
      split_ifs at hscan ⊢
      cases hscan
      rfl
    · rw [scanFraction?_of_ne hpoint] at hscan
      cases hscan
      rw [List.cons_append, scanFraction?_of_ne hpoint]

theorem scanExponent?_of_ne {c : Char} (h : ¬ (c = 'e' ∨ c = 'E')) (cs : List Char) :
    scanExponent? (c :: cs) = some (none, c :: cs) := by
  unfold scanExponent?
  exact if_neg h

/-- the digits of an exponent and what follows them, after its sign -/
def exponentOf? (negative : Bool) (span : List Char × List Char) : Option (Option Int × List Char) :=
  if span.1.isEmpty then none
  else some (some (if negative then -(Text.Integer.value span.1 : Int) else Text.Integer.value span.1), span.2)

theorem scanExponent?_of_mark {c : Char} (h : c = 'e' ∨ c = 'E') (cs : List Char) :
    scanExponent? (c :: cs) = exponentOf? (Binary64.splitSign cs).1 (spanDigits (Binary64.splitSign cs).2) := by
  unfold scanExponent?
  exact if_pos h

theorem splitSign_append {cs : List Char} (h : cs ≠ []) (rest : List Char) :
    Binary64.splitSign (cs ++ rest) = ((Binary64.splitSign cs).1, (Binary64.splitSign cs).2 ++ rest) := by
  unfold Binary64.splitSign
  cases cs with
  | nil => exact absurd rfl h
  | cons c cs =>
    rw [List.cons_append]
    split <;> simp_all

theorem scanExponent?_append (h : EndsBefore rest) {cs r : List Char} {exponent : Option Int}
    (hscan : scanExponent? cs = some (exponent, r)) : scanExponent? (cs ++ rest) = some (exponent, r ++ rest) := by
  cases cs with
  | nil =>
    cases hscan
    cases rest with
    | nil => rfl
    | cons c s =>
      obtain ⟨_, _, he, hE⟩ := h c s rfl
      exact scanExponent?_of_ne (by simp [he, hE]) s
  | cons c cs =>
    by_cases hmark : c = 'e' ∨ c = 'E'
    · -- a mark has digits after it, so the exponent is complete before the rest begins
      have hne : cs ≠ [] := fun hnil => by
        rw [hnil, scanExponent?_of_mark hmark] at hscan
        cases hscan
      rw [scanExponent?_of_mark hmark] at hscan
      rw [List.cons_append, scanExponent?_of_mark hmark, splitSign_append hne, spanDigits_append h]
      unfold exponentOf? at hscan ⊢
      dsimp only
      split_ifs at hscan ⊢ <;> cases hscan <;> rfl
    · rw [scanExponent?_of_ne hmark] at hscan
      cases hscan
      rw [List.cons_append, scanExponent?_of_ne hmark]

/-- a number after its sign -/
def scanUnsigned? (negative : Bool) (cs : List Char) : Option (Numeral × List Char) :=
  if (spanDigits cs).1.isEmpty || (1 < (spanDigits cs).1.length && (spanDigits cs).1.head? == some '0') then none
  else
    (scanFraction? (spanDigits cs).2).bind fun (fraction, cs') =>
      (scanExponent? cs').bind fun (exponent, r) =>
        some (⟨negative, Text.Integer.value ((spanDigits cs).1 ++ fraction.getD []),
          exponent.getD 0 - (fraction.getD []).length, fraction.isNone && exponent.isNone⟩, r)

theorem scan?_minus (cs : List Char) : scan? ('-' :: cs) = scanUnsigned? true cs := rfl

theorem scan?_of_ne {c : Char} (h : c ≠ '-') (cs : List Char) : scan? (c :: cs) = scanUnsigned? false (c :: cs) := by
  unfold scan? scanUnsigned?
  split
  rename_i heq
  split at heq
  · next hminus => exact absurd (List.cons.inj hminus).1 h
  · cases heq
    rfl

theorem scanUnsigned?_append (h : EndsBefore rest) {negative : Bool} {cs r : List Char} {n : Numeral}
    (hscan : scanUnsigned? negative cs = some (n, r)) : scanUnsigned? negative (cs ++ rest) = some (n, r ++ rest) := by
  unfold scanUnsigned? at hscan ⊢
  rw [spanDigits_append h]
  split_ifs at hscan ⊢
  obtain ⟨⟨fraction, cs'⟩, hfraction, hscan⟩ := Option.bind_eq_some_iff.1 hscan
  obtain ⟨⟨exponent, r'⟩, hexponent, hscan⟩ := Option.bind_eq_some_iff.1 hscan
  rw [scanFraction?_append h hfraction, Option.bind_some]
  dsimp only
  rw [scanExponent?_append h hexponent]
  cases hscan
  rfl

/-- **A number is read where it ends**, whatever follows, as long as that is no part of a number -/
theorem scan?_append (h : EndsBefore rest) {cs r : List Char} {n : Numeral} (hscan : scan? cs = some (n, r)) :
    scan? (cs ++ rest) = some (n, r ++ rest) := by
  cases cs with
  | nil => cases hscan
  | cons c cs =>
    rw [List.cons_append]
    by_cases hminus : c = '-'
    · subst hminus
      rw [scan?_minus] at hscan ⊢
      exact scanUnsigned?_append h hscan
    · rw [scan?_of_ne hminus] at hscan ⊢
      exact scanUnsigned?_append h hscan

end Numeral

namespace Number

/-- the number that a text is -/
def ofChars? (cs : List Char) : Option Number :=
  match Numeral.scan? cs with
  | some (n, []) => n.number?
  | _ => none

/-- the text of the number is read as the number -/
def ReadsBack (n : Number) : Prop :=
  ofChars? n.chars = some n

instance (n : Number) : Decidable n.ReadsBack :=
  inferInstanceAs (Decidable (ofChars? n.chars = some n))

def isFloat : Number → Bool
  | int _ _ => false
  | float _ _ => true

/-- the numeral that the text of a number is -/
def numeral (n : Number) : Numeral :=
  ((Numeral.scan? n.chars).map Prod.fst).getD ⟨false, 0, 0, true⟩

theorem ReadsBack.numeral {n : Number} (h : n.ReadsBack) :
    Numeral.scan? n.chars = some (n.numeral, []) ∧ n.numeral.number? = some n := by
  unfold ReadsBack ofChars? at h
  unfold Number.numeral
  split at h
  · next m hm =>
    rw [hm]
    exact ⟨rfl, h⟩
  · cases h

/-! ### Whole numbers -/

theorem head?_toDigits_ne (n : Nat) (h : n ≠ 0) : (Nat.toDigits 10 n).head? ≠ some '0' := by
  induction n using Nat.strong_induction_on with
  | _ n ih =>
    rw [Nat.toDigits_eq_if (by decide)]
    split_ifs with hsmall
    · have hdigit : ∀ d < 10, d ≠ 0 → Nat.digitChar d ≠ '0' := by decide
      simpa using hdigit n hsmall h
    · have hrest := ih (n / 10) (by omega) (by omega)
      rw [List.head?_append]
      cases hhead : (Nat.toDigits 10 (n / 10)).head? with
      | none => exact absurd (List.head?_eq_none_iff.1 hhead) Nat.toDigits_ne_nil
      | some c =>
        rw [hhead] at hrest
        simpa using hrest

theorem scanUnsigned?_ofNat (negative : Bool) (n : Nat) :
    Numeral.scanUnsigned? negative (Text.Integer.ofNat n) = some (⟨negative, n, 0, true⟩, []) := by
  have hne : (Text.Integer.ofNat n).isEmpty = false := List.isEmpty_eq_false_iff.2 (Text.Integer.ofNat_ne_nil n)
  have hzero : (decide (1 < (Text.Integer.ofNat n).length) && (Text.Integer.ofNat n).head? == some '0') = false := by
    by_cases h : n = 0
    · subst h
      decide
    · simp [Text.Integer.ofNat, head?_toDigits_ne n h]
  unfold Numeral.scanUnsigned?
  rw [Numeral.spanDigits_of_all (Text.Integer.isDigit_ofNat n)]
  simp only [hne, hzero, Bool.or_self, Bool.false_eq_true, if_false]
  simp [Numeral.scanFraction?, Numeral.scanExponent?]

/-- **A whole number is read as it was written** -/
theorem readsBack_int (value : Int) (bounded : FitsWord value) : (int value bounded).ReadsBack := by
  have hnumber : Numeral.number? ⟨decide (value < 0), value.natAbs, 0, true⟩ = some (int value bounded) := by
    have hvalue : (if decide (value < 0) = true then -(value.natAbs : Int) else value.natAbs) = value := by
      split_ifs with h
      · rw [decide_eq_true_eq] at h
        omega
      · rw [decide_eq_true_eq] at h
        omega
    unfold Numeral.number?
    simp only [hvalue]
    rw [dif_pos ⟨trivial, by simp; omega, bounded⟩]
  have hscan : Numeral.scan? (int value bounded).chars = some (⟨decide (value < 0), value.natAbs, 0, true⟩, []) := by
    rw [chars, Text.Integer.ofInt]
    split_ifs with h
    · rw [Numeral.scan?_minus, scanUnsigned?_ofNat, decide_eq_true h]
    · obtain ⟨c, cs, hcs⟩ := List.exists_cons_of_ne_nil (Text.Integer.ofNat_ne_nil value.natAbs)
      have hdigit : c.isDigit = true := Text.Integer.isDigit_ofNat value.natAbs c (hcs ▸ List.mem_cons_self)
      have hminus : c ≠ '-' := by
        rintro rfl
        cases hdigit
      have hunsigned := scanUnsigned?_ofNat false value.natAbs
      rw [hcs] at hunsigned ⊢
      rw [Numeral.scan?_of_ne hminus, hunsigned, decide_eq_false h]
  rw [ReadsBack, ofChars?, hscan]
  exact hnumber

end Number

/-! ## Strings -/

namespace Token

theorem hexFour?_control : ∀ n < 32, hexFour? '0' '0' (Nat.digitChar (n / 16)) (Nat.digitChar (n % 16)) = some n := by
  decide

theorem ofNat_control : ∀ n < 32, Piece.ofNat n = .char (Char.ofNat n) := by decide

/-- one character is read as the character, however it is escaped -/
theorem scanString?_escape (c : Char) (done : List Piece) (rest : List Char) :
    scanString? done (escape c ++ rest) = scanString? (.char c :: done) rest := by
  unfold escape
  split_ifs with hquote hback hline hreturn htab hbell hfeed hcontrol
  · rw [hquote]
    rfl
  · rw [hback]
    rfl
  · rw [hline]
    rfl
  · rw [hreturn]
    rfl
  · rw [htab]
    rfl
  · rw [show c = '\x08' from Char.toNat_inj.1 hbell]
    rfl
  · rw [show c = '\x0c' from Char.toNat_inj.1 hfeed]
    rfl
  · simp only [List.cons_append, List.nil_append]
    rw [scanString?, hexFour?_control _ hcontrol]
    simp only [ofNat_control _ hcontrol, Char.ofNat_toNat]
  · rw [List.singleton_append, scanString?, if_neg (not_or.2 ⟨hback, hcontrol⟩)]
    · exact hquote
    · exact fun _ _ _ _ _ h => absurd h hback
    · exact fun _ _ h => absurd h hback

theorem scanString?_escapes (cs : List Char) (done : List Piece) (rest : List Char) :
    scanString? done (cs.foldr (fun c text => escape c ++ text) ('"' :: rest)) =
      some ((cs.map Piece.char).reverse ++ done, rest) := by
  induction cs generalizing done with
  | nil => rfl
  | cons c cs ih =>
    rw [List.foldr_cons, scanString?_escape, ih, List.map_cons, List.reverse_cons, List.append_assoc]
    rfl

theorem joinPieces_chars (cs done : List Char) : joinPieces (cs.map Piece.char) done = some (cs.reverse ++ done) := by
  induction cs generalizing done with
  | nil => rfl
  | cons c cs ih =>
    rw [List.map_cons, joinPieces, ih, List.reverse_cons, List.append_assoc]
    rfl

/-- **A string is read as it was written** -/
theorem next?_writeText (s : String) (rest : List Char) : next? (writeText s rest) = some (.text (some s), rest) := by
  rw [writeText, next?, scanString?_escapes]
  simp only [List.append_nil]
  rw [← List.map_reverse, joinPieces_chars, List.reverse_reverse, List.append_nil]
  simp

/-! ## Tokens -/

/-- a number starts with its sign or a digit -/
theorem head_of_scan? {c : Char} {cs r : List Char} {n : Numeral} (h : Numeral.scan? (c :: cs) = some (n, r)) :
    c = '-' ∨ c.isDigit = true := by
  by_cases hminus : c = '-'
  · exact Or.inl hminus
  · right
    rw [Numeral.scan?_of_ne hminus, Numeral.scanUnsigned?, Numeral.spanDigits_cons] at h
    by_contra hdigit
    rw [if_neg hdigit] at h
    cases h

theorem next?_of_scan? {c : Char} {cs r : List Char} {n : Numeral} (h : Numeral.scan? (c :: cs) = some (n, r)) :
    next? (c :: cs) = some (.numeral n, r) := by
  have hhead := head_of_scan? h
  unfold next?
  split
  case h_11 =>
    rw [h]
    rfl
  -- every other word starts with another character
  all_goals
    next heq =>
      cases heq
      exact absurd hhead (by decide)

/-- the characters are cut into these tokens -/
def Spells (cs : List Char) (tokens : List Token) : Prop :=
  ∀ fuel done, cs.length ≤ fuel → scanFrom? fuel done cs = some (done.reverse ++ tokens)

namespace Spells

theorem nil : Spells [] [] := fun fuel done _ => by
  cases fuel <;> simp [scanFrom?]

/-- a token in front of a rest -/
theorem cons {c : Char} {cs rest : List Char} {t : Token} {tokens : List Token} (hspace : isSpace c = false)
    (hnext : next? (c :: cs) = some (t, rest)) (hlen : rest.length ≤ cs.length) (h : Spells rest tokens) :
    Spells (c :: cs) (t :: tokens) := by
  intro fuel done hfuel
  cases fuel with
  | zero => cases hfuel
  | succ fuel =>
    rw [scanFrom?, hspace]
    simp only [Bool.false_eq_true, if_false, hnext]
    rw [h fuel (t :: done) (hlen.trans (Nat.le_of_succ_le_succ hfuel)), List.reverse_cons, List.append_assoc]
    rfl

theorem number {n : Number} (hread : n.ReadsBack) {rest : List Char} {tokens : List Token}
    (hends : Numeral.EndsBefore rest) (h : Spells rest tokens) : Spells (n.chars ++ rest) (.numeral n.numeral :: tokens) := by
  have hscan := Numeral.scan?_append hends hread.numeral.1
  rw [List.nil_append] at hscan
  cases hchars : n.chars with
  | nil =>
    rw [Number.ReadsBack, Number.ofChars?, hchars] at hread
    cases hread
  | cons c cs =>
    rw [hchars, List.cons_append] at hscan
    have hspace : isSpace c = false := by
      rcases head_of_scan? hscan with rfl | hdigit
      · rfl
      · by_contra hspace
        simp only [isSpace, Bool.not_eq_false, Bool.or_eq_true, beq_iff_eq] at hspace
        rcases hspace with ((rfl | rfl) | rfl) | rfl <;> cases hdigit
    exact cons hspace (next?_of_scan? hscan) (by simp) h

theorem text (s : String) {rest : List Char} {tokens : List Token} (h : Spells rest tokens) :
    Spells (writeText s rest) (.text (some s) :: tokens) := by
  refine cons rfl (next?_writeText s rest) ?_ h
  induction s.toList with
  | nil => exact Nat.le_succ _
  | cons c cs ih =>
    rw [List.foldr_cons, List.length_append]
    exact ih.trans (Nat.le_add_left _ _)

theorem scan? {cs : List Char} {tokens : List Token} (h : Spells cs tokens) : Token.scan? cs = some tokens :=
  h cs.length [] le_rfl

end Spells

end Token

end PartitionedScan.Json
