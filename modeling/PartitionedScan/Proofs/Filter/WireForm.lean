/-
Which bound literals have a wire form.

A comparison refuses null and floats that are not finite, so whatever a compiled filter binds is another literal
(`admitted_of_compileFrom`). Of these only a day or a point in time outside the years that have a text is null on the wire:
nothing checks the calendar when a filter is compiled. Main result:
- `wire_null_iff`: a bound literal is null on the wire just when it lies outside the calendar.
-/
import PartitionedScan.Proofs.Calendar.Years
import PartitionedScan.Proofs.Filter.Compilation

namespace PartitionedScan

namespace Value

/-- a literal that a comparison accepts: neither null nor a float that is not finite -/
def Admitted : Value → Prop
  | .null => False
  | .float x => x.isFinite = true
  | _ => True

/-- a day or a point in time within the years that have a text; any other literal -/
def InCalendar : Value → Prop
  | .date days => Calendar.firstDay ≤ days.toInt ∧ days.toInt ≤ Calendar.lastDay
  | .dateTime micros => Calendar.firstMicros ≤ micros.toInt ∧ micros.toInt ≤ Calendar.lastMicros
  | _ => True

instance : (v : Value) → Decidable v.InCalendar
  | .date days => inferInstanceAs (Decidable (Calendar.firstDay ≤ days.toInt ∧ days.toInt ≤ Calendar.lastDay))
  | .dateTime micros =>
    inferInstanceAs (Decidable (Calendar.firstMicros ≤ micros.toInt ∧ micros.toInt ≤ Calendar.lastMicros))
  | .null | .bool _ | .int _ | .float _ | .string _ | .bytes _ => .isTrue trivial

theorem ofOption_eq_null_iff {α : Type} {f : α → Json} (hf : ∀ a, f a ≠ .null) {o : Option α} :
    Json.ofOption f o = .null ↔ o = none := by
  cases o with
  | none => simp [Json.ofOption]
  | some a => simp [Json.ofOption, hf a]

/-- an accepted literal is null on the wire just when it lies outside the calendar -/
theorem toJson_eq_null_iff {v : Value} (h : v.Admitted) : v.toJson = .null ↔ ¬ v.InCalendar := by
  cases v with
  | null => exact absurd h id
  | float x =>
    have hfinite : x.isFinite = true := h
    simp [toJson, Json.ofBinary64, hfinite, InCalendar]
  | date days => exact (ofOption_eq_null_iff (by simp)).trans (Calendar.formatDate_eq_none_iff days)
  | dateTime micros => exact (ofOption_eq_null_iff (by simp)).trans (Calendar.formatTimestamp_eq_none_iff micros)
  | _ => simp [toJson, InCalendar]

end Value

theorem Comparator.admitted_of_refusal? {c : Comparator} {attr : String} {v : Value} (h : c.refusal? attr v = none) :
    v.Admitted := by
  cases v with
  | null => cases h
  | float x =>
    unfold refusal? at h
    by_contra hfinite
    have : x.isFinite = false := by simpa [Value.Admitted] using hfinite
    simp [this] at h
  | _ => trivial

theorem Leaf.admitted_of_refusal? {schema : Option Schema} {l : Leaf} (h : l.refusal? schema = none) :
    ∀ v ∈ l.values, v.Admitted := by
  intro v hv
  unfold refusal? at h
  split_ifs at h
  have hnone : l.values.findSome? (l.comparator.refusal? l.attr) = none := (Option.or_eq_none_iff.1 h).1
  exact Comparator.admitted_of_refusal? (List.findSome?_eq_none_iff.1 hnone v hv)

namespace Filter

variable {schema : Option Schema} {policy : FallbackPolicy}

mutual

/-- every literal of a compiled filter passed the check of its leaf, whatever was left out around it -/
theorem admitted_of_compileFrom : ∀ (f : Filter) {negated : Bool} {next : Nat} {r : Compiled Operator},
    compileFrom schema policy negated next f = .ok r → ∀ v ∈ r.values, v.Admitted
  | .leaf l, negated, next, r, h => by
    rw [compileFrom_leaf, Leaf.compile_eq_ok_iff] at h
    obtain ⟨hl, rfl⟩ := h
    exact Leaf.admitted_of_refusal? hl
  | .composite function children, negated, next, r, h => by
    obtain ⟨_, rs, hrs, _, rfl⟩ := compileFrom_composite h
    exact admitted_of_compileAll children hrs

theorem admitted_of_compileAll : ∀ (xs : List Filter) {drop negated : Bool} {next : Nat} {rs : Compiled (List Arg)},
    compileAll schema policy drop negated next xs = .ok rs → ∀ v ∈ rs.values, v.Admitted
  | [], drop, negated, next, rs, h => by
    rw [compileAll_nil] at h
    cases h
    exact fun v hv => (by cases hv)
  | x :: xs, drop, negated, next, rs, h => by
    rcases compileAll_cons h with ⟨r, rest, hx, hrest, rfl⟩ | ⟨_, rest, _, _, hrest, rfl⟩
    · intro v hv
      rcases List.mem_append.1 hv with hv | hv
      · exact admitted_of_compileFrom x hx v hv
      · exact admitted_of_compileAll xs hrest v hv
    · have htail := admitted_of_compileAll xs hrest
      exact htail

end

/-- **Null on the wire.** Take any compiled filter, parts left out or not, with or without a schema. A literal that it binds
is null on the wire just when it is a day before the year -9999 or after the year 9999, or a point in time before the year 0
or after the year 9999. Everything else that is bound keeps a value. -/
theorem wire_null_iff (schema : Option Schema) (policy : FallbackPolicy) (f : Filter) (c : Compilation)
    (h : f.compile schema policy = .ok c) : ∀ b ∈ c.bindings, (b.2.toJson = .null ↔ ¬ b.2.InCalendar) := by
  obtain ⟨r, hr, rfl⟩ := compile_eq_ok_iff.1 h
  intro b hb
  have hliteral : b.2 ∈ r.values := by
    rw [← literalBindings_literals r.values]
    exact List.mem_map_of_mem hb
  exact Value.toJson_eq_null_iff (admitted_of_compileFrom f hr b.2 hliteral)

/-- the last day and the first point in time that have a text, beside a part that is left out -/
def edgesOfCalendar : Filter :=
  .composite .and [.compare "d" .le (.date 2932896), .compare "d" .eq .null, .compare "t" .ge (.dateTime (-62167219200000000))]

theorem wire_null_iff_edges :
    ∃ c, edgesOfCalendar.compile none .dropUnsupported = .ok c ∧ c.bindings.length = 2 ∧
      ∀ b ∈ c.bindings, b.2.toJson ≠ .null := by
  refine ⟨_, rfl, rfl, ?_⟩
  intro b hb hnull
  have hcalendar : ∀ b ∈ literalBindings [.date 2932896, .dateTime (-62167219200000000)], b.2.InCalendar := by decide
  exact (wire_null_iff none .dropUnsupported edgesOfCalendar _ rfl b hb).1 hnull (hcalendar b hb)

/-- **The day after the last one is bound and is null on the wire**, although its column is a column of days. -/
theorem wire_null_after_calendar :
    ∃ c, (compare "d" .le (.date 2932897)).compile (some ⟨[⟨"d", .date, true⟩]⟩) .strict = .ok c ∧
      c.bindings = [("shardscan_param_0", .date 2932897)] ∧ (Value.date 2932897).toJson = .null :=
  ⟨_, rfl, by decide, by decide⟩

end Filter

end PartitionedScan
