/-
What a reader of one partition may do, as seen from outside.

A log has an event for each request to the engine, connections included, for each answer of `advance`, and for each call of
`close`. Only a fetch whose payload decodes brings rows (`reads`), so a log tells which bucket is due, which rows were
received and which were handed out. `Allowed` says what may come next after a log, one constructor for each kind of event;
a log is `Lawful` when each of its events was allowed when it came. Main results, for lawful logs:
- `Lawful.produced_prefix`: rows are handed out in the order in which they were received;
- `Lawful.reads_eq`: buckets are read one after another, none twice;
- `Lawful.fetches_le`: there are no more fetches than buckets and errors together;
- `Lawful.streams`: all of what a reader promises between two calls.
-/
import Mathlib.Tactic
import PartitionedScan.Proofs.Slices
import PartitionedScan.Read.Reader

namespace PartitionedScan

/-! ## Logs -/

/-- what can be seen of a reader -/
inductive Event where
  /-- a connection was asked for -/
  | connected (answer : Except RemoteError Unit)
  /-- the rows of a query were asked for -/
  | fetched (query : Query) (answer : Except RemoteError String)
  /-- `advance` came back, with the row that is current after it -/
  | answered (result : Except ReadError (Option Row)) (current : Option Row)
  | closed
  deriving DecidableEq

namespace Event

/-- a call of the engine -/
def isRequest : Event → Bool
  | connected _ => true
  | fetched .. => true
  | _ => false

def isFetch : Event → Bool
  | fetched .. => true
  | _ => false

/-- an answer of `advance`, with the row that is current after it -/
def answer? : Event → Option (Except ReadError (Option Row) × Option Row)
  | answered result current => some (result, current)
  | _ => none

def isErrorAnswer : Event → Bool
  | answered (.error _) _ => true
  | _ => false

/-- the row that was handed out -/
def row? : Event → Option Row
  | answered (.ok row) _ => row
  | _ => none

end Event

/-- the rows handed out -/
def produced (log : List Event) : List Row :=
  log.filterMap Event.row?

/-- the row handed out last -/
def lastRow (log : List Event) : Option Row :=
  (produced log).getLast?

/-- neither closed nor at the end -/
def Live (log : List Event) : Prop :=
  .closed ∉ log ∧ ∀ current, .answered (.ok none) current ∉ log

namespace ReadJob

/-- a fetch whose payload decodes: its query and the rows -/
def read? (job : ReadJob) : Event → Option (Query × List Row)
  | .fetched query (.ok payload) => (job.schema.decodePayload payload).toOption.map (query, ·)
  | _ => none

/-- the fetches that brought rows, with these rows -/
def reads (job : ReadJob) (log : List Event) : List (Query × List Row) :=
  log.filterMap job.read?

/-- the rows received so far, those of the first bucket first -/
def received (job : ReadJob) (log : List Event) : List Row :=
  (job.reads log).flatMap Prod.snd

/-- the query for the rows of a bucket -/
def request (job : ReadJob) (b : Bucket) : Query :=
  job.query.bindRange b.range

theorem requestedRange_request (job : ReadJob) (b : Bucket) : Engine.requestedRange (job.request b) = .ok b.range :=
  Engine.requestedRange_bindRange job.query b.range

/-- why a request made for a bucket failed, if it did -/
def failure? (job : ReadJob) (partition : Nat) (b : Bucket) : Event → Option ReadError
  | .connected (.error e) => some (.fetch partition b.index e)
  | .fetched _ (.error e) => some (.fetch partition b.index e)
  | .fetched _ (.ok payload) =>
    match job.schema.decodePayload payload with
    | .error e => some (.decode partition e)
    | .ok _ => none
  | _ => none

/-- the first bucket that was not read yet -/
def due? (job : ReadJob) (p : Partition) (log : List Event) : Option Bucket :=
  p.buckets[(job.reads log).length]?

/-- the failure that the call under way has to answer with -/
def unanswered? (job : ReadJob) (p : Partition) (log : List Event) : Option ReadError :=
  log.getLast?.bind fun ev => (job.due? p log).bind fun b => job.failure? p.id b ev

/-- a bucket is due: all rows received before it were handed out, and no failure is to be answered -/
structure Due (job : ReadJob) (p : Partition) (log : List Event) (b : Bucket) : Prop where
  live : Live log
  settled : job.unanswered? p log = none
  bucket : job.due? p log = some b
  drained : produced log = job.received log

/-- what may come next -/
inductive Allowed (job : ReadJob) (p : Partition) (log : List Event) : Event → Prop
  | connected {b : Bucket} (due : job.Due p log b) (answer : Except RemoteError Unit) : Allowed job p log (.connected answer)
  | fetched {b : Bucket} (due : job.Due p log b) (answer : Except RemoteError String) :
      Allowed job p log (.fetched (job.request b) answer)
  | row {row : Row} {rest : List Row} (live : Live log) (settled : job.unanswered? p log = none)
      (next : produced log ++ row :: rest = job.received log) : Allowed job p log (.answered (.ok (some row)) (some row))
  | ended (open' : .closed ∉ log) (settled : job.unanswered? p log = none)
      (all : (job.reads log).length = p.buckets.length) (drained : produced log = job.received log) :
      Allowed job p log (.answered (.ok none) (lastRow log))
  | failed {e : ReadError} (live : Live log) (pending : job.unanswered? p log = some e) :
      Allowed job p log (.answered (.error e) (lastRow log))
  | refused (closed : .closed ∈ log) : Allowed job p log (.answered (.error (.readerClosed p.id)) (lastRow log))
  | closed (settled : job.unanswered? p log = none) : Allowed job p log .closed

/-- every event was allowed when it came -/
inductive Lawful (job : ReadJob) (p : Partition) : List Event → Prop
  | nil : Lawful job p []
  | snoc {log : List Event} {ev : Event} (before : Lawful job p log) (allowed : job.Allowed p log ev) :
      Lawful job p (log ++ [ev])

end ReadJob

/-! ## Growing logs -/

theorem produced_append (log log' : List Event) : produced (log ++ log') = produced log ++ produced log' :=
  List.filterMap_append

theorem ReadJob.reads_append (job : ReadJob) (log log' : List Event) :
    job.reads (log ++ log') = job.reads log ++ job.reads log' :=
  List.filterMap_append

theorem ReadJob.received_append (job : ReadJob) (log log' : List Event) :
    job.received (log ++ log') = job.received log ++ job.received log' := by
  rw [received, reads_append, List.flatMap_append]
  rfl

theorem produced_snoc_none {ev : Event} (h : ev.row? = none) (log : List Event) : produced (log ++ [ev]) = produced log := by
  simp [produced, h]

theorem lastRow_snoc_none {ev : Event} (h : ev.row? = none) (log : List Event) : lastRow (log ++ [ev]) = lastRow log := by
  rw [lastRow, produced_snoc_none h, lastRow]

theorem answers_of_requests {events : List Event} (h : ∀ ev ∈ events, ev.isRequest = true) :
    events.filterMap Event.answer? = [] := by
  refine List.filterMap_eq_nil_iff.2 fun ev hev => ?_
  have := h ev hev
  cases ev <;> first | rfl | cases this

theorem Live.snoc {log : List Event} (h : Live log) {ev : Event} (hclosed : ev ≠ .closed)
    (hend : ∀ current, ev ≠ .answered (.ok none) current) : Live (log ++ [ev]) := by
  constructor
  · simpa [h.1] using hclosed.symm
  · intro current
    simpa [h.2 current] using (hend current).symm

namespace ReadJob

variable {job : ReadJob} {p : Partition} {log : List Event}

/-- what a log with one more event leaves to answer -/
theorem unanswered?_snoc (ev : Event) :
    job.unanswered? p (log ++ [ev]) = (job.due? p (log ++ [ev])).bind fun b => job.failure? p.id b ev := by
  rw [unanswered?, List.getLast?_concat, Option.bind_some]

/-- only a request leaves something to answer -/
theorem unanswered?_of_not_request {ev : Event} (h : ev.isRequest = false) : job.unanswered? p (log ++ [ev]) = none := by
  rw [unanswered?_snoc]
  cases job.due? p (log ++ [ev]) with
  | none => rfl
  | some b => cases ev <;> first | rfl | cases h

theorem reads_snoc_none {ev : Event} (h : job.read? ev = none) : job.reads (log ++ [ev]) = job.reads log := by
  simp [reads, h]

theorem reads_snoc_some {ev : Event} {read : Query × List Row} (h : job.read? ev = some read) :
    job.reads (log ++ [ev]) = job.reads log ++ [read] := by
  simp [reads, h]

theorem received_snoc_none {ev : Event} (h : job.read? ev = none) : job.received (log ++ [ev]) = job.received log := by
  rw [received, reads_snoc_none h, received]

/-- an event that brings no rows leaves the bucket due -/
theorem due?_snoc {ev : Event} (h : job.read? ev = none) : job.due? p (log ++ [ev]) = job.due? p log := by
  rw [due?, reads_snoc_none h, due?]

theorem read?_of_not_fetch {ev : Event} (h : ¬ ev.isFetch = true) : job.read? ev = none := by
  cases ev <;> first | rfl | exact absurd rfl h

theorem query_of_read? {query : Query} {answer : Except RemoteError String} {read : Query × List Row}
    (h : job.read? (.fetched query answer) = some read) : read.1 = query := by
  cases answer with
  | error e => cases h
  | ok payload =>
    obtain ⟨rows, _, rfl⟩ := Option.map_eq_some_iff.1 h
    rfl

/-- a fetch that brings no rows failed -/
theorem failure?_of_read?_eq_none (partition : Nat) (b : Bucket) {query : Query} {answer : Except RemoteError String}
    (h : job.read? (.fetched query answer) = none) : ∃ e, job.failure? partition b (.fetched query answer) = some e := by
  cases answer with
  | error e => exact ⟨_, rfl⟩
  | ok payload =>
    cases hdecode : job.schema.decodePayload payload with
    | error e => exact ⟨.decode partition e, by simp only [failure?, hdecode]⟩
    | ok rows => simp [read?, hdecode, Except.toOption] at h

/-- a failure is answered at once -/
theorem Allowed.isErrorAnswer {ev : Event} (h : job.Allowed p log ev) {e : ReadError}
    (hpending : job.unanswered? p log = some e) : ev.isErrorAnswer = true := by
  cases h with
  | failed | refused => rfl
  | connected due | fetched due => rw [due.settled] at hpending; cases hpending
  | row _ settled | ended _ settled | closed settled => rw [settled] at hpending; cases hpending

/-! ## Lawful logs -/

namespace Lawful

/-- what came before was lawful, too -/
theorem of_append (h : job.Lawful p log) {pre post : List Event} (hlog : log = pre ++ post) : job.Lawful p pre := by
  induction h generalizing post with
  | nil =>
    obtain ⟨rfl, _⟩ := List.append_eq_nil_iff.1 hlog.symm
    exact nil
  | snoc before allowed ih =>
    rcases List.eq_nil_or_concat post with rfl | ⟨post, last, rfl⟩
    · rw [List.append_nil] at hlog
      rw [← hlog]
      exact before.snoc allowed
    · rw [List.concat_eq_append, ← List.append_assoc] at hlog
      exact ih (List.append_inj' hlog rfl).1

theorem allowed (h : job.Lawful p log) {pre post : List Event} {ev : Event} (hlog : log = pre ++ ev :: post) :
    job.Allowed p pre ev := by
  rw [List.append_cons] at hlog
  generalize hlast : pre ++ [ev] = upto at hlog
  cases h.of_append hlog with
  | nil => simp at hlast
  | snoc before allowed =>
    obtain ⟨rfl, hev⟩ := List.append_inj' hlast rfl
    cases hev
    exact allowed

/-- **Rows are handed out in the order in which they were received** -/
theorem produced_prefix (h : job.Lawful p log) : produced log <+: job.received log := by
  induction h with
  | nil => exact List.prefix_refl _
  | @snoc log ev _ allowed ih =>
    rw [produced_append, received_append]
    cases allowed with
    | row _ _ next =>
      rw [← next]
      exact ⟨_, by simp [produced, Event.row?]; rfl⟩
    | _ =>
      have hnone : ∀ rows, produced log ++ [] <+: job.received log ++ rows := fun rows => by
        rw [List.append_nil]
        exact ih.trans (List.prefix_append _ _)
      exact hnone _

/-- **Buckets are read one after another, none twice** -/
theorem reads_eq (h : job.Lawful p log) :
    (job.reads log).map Prod.fst = (p.buckets.take (job.reads log).length).map job.request := by
  induction h with
  | nil => rfl
  | @snoc log ev _ allowed ih =>
    cases hread : job.read? ev with
    | none => rwa [reads_snoc_none hread]
    | some read =>
      -- only a fetch for the bucket that is due brings rows
      cases allowed with
      | @fetched b due answer =>
        have hbucket : p.buckets[(job.reads log).length]? = some b := due.bucket
        rw [reads_snoc_some hread, List.map_append, List.length_append, List.length_singleton, List.take_add_one, hbucket,
          List.map_append, ih, List.map_singleton, query_of_read? hread]
        rfl
      | _ => cases hread

theorem reads_le (h : job.Lawful p log) : (job.reads log).length ≤ p.buckets.length := by
  have := congrArg List.length h.reads_eq
  rw [List.length_map, List.length_map, List.length_take] at this
  omega

/-- every fetch brought rows or failed, and a failure was answered or is still to be answered -/
theorem fetches_le_reads (h : job.Lawful p log) : log.countP Event.isFetch ≤
    (job.reads log).length + log.countP Event.isErrorAnswer + (job.unanswered? p log).toList.length := by
  induction h with
  | nil => exact Nat.zero_le _
  | @snoc log ev _ allowed ih =>
    rw [List.countP_append, List.countP_append, List.countP_singleton, List.countP_singleton]
    by_cases hfetch : ev.isFetch = true
    · cases allowed with
      | @fetched b due answer =>
        rw [due.settled] at ih
        cases hread : job.read? (.fetched (job.request b) answer) with
        | some read =>
          rw [if_pos hfetch, reads_snoc_some hread, List.length_append, List.length_singleton]
          simp only [Option.toList_none, List.length_nil] at ih
          omega
        | none =>
          obtain ⟨e, he⟩ := failure?_of_read?_eq_none p.id b hread
          rw [if_pos hfetch, reads_snoc_none hread, unanswered?_snoc, due?_snoc hread, due.bucket, Option.bind_some, he]
          simp only [Option.toList_none, Option.toList_some, List.length_nil, List.length_singleton] at ih ⊢
          omega
      | _ => cases hfetch
    · rw [if_neg hfetch, reads_snoc_none (read?_of_not_fetch hfetch)]
      cases hpending : job.unanswered? p log with
      | none =>
        rw [hpending, Option.toList_none, List.length_nil] at ih
        omega
      | some e =>
        rw [hpending, Option.toList_some, List.length_singleton] at ih
        rw [if_pos (allowed.isErrorAnswer hpending)]
        omega

/-- **Fetches are bounded**: where no failure is left to answer there are no more of them than buckets and errors -/
theorem fetches_le (h : job.Lawful p log) (hsettled : job.unanswered? p log = none) :
    log.countP Event.isFetch ≤ p.buckets.length + log.countP Event.isErrorAnswer := by
  have hfetches := h.fetches_le_reads
  have hreads := h.reads_le
  rw [hsettled] at hfetches
  simp only [Option.toList_none, List.length_nil] at hfetches
  omega

end Lawful

/-! ## Streams -/

/-- what holds of the log of a reader between two calls -/
structure Streams (job : ReadJob) (p : Partition) (log : List Event) : Prop where
  /-- rows are handed out in the order of the buckets -/
  order : produced log <+: job.received log
  /-- buckets are read in their order, each once -/
  once : (job.reads log).map Prod.fst = (p.buckets.take (job.reads log).length).map job.request
  /-- what an engine finds in the queries is the range of each bucket -/
  ranges : (job.reads log).map (fun read => Engine.requestedRange read.1) =
    (p.buckets.take (job.reads log).length).map fun b => .ok b.range
  /-- a request is for the first bucket not read yet, carries just its range, and comes when all rows received were handed
  out -/
  request : ∀ pre ev post, log = pre ++ ev :: post → ev.isRequest = true → Live pre ∧ produced pre = job.received pre ∧
    ∃ b, job.due? p pre = some b ∧ ∀ query answer, ev = .fetched query answer →
      query = job.request b ∧ Engine.requestedRange query = .ok b.range
  /-- a failed request is answered with its error and the row that was current; what comes later are the rows of the same
  bucket and those after it -/
  failure : ∀ pre ev post b e, log = pre ++ ev :: post → job.due? p pre = some b → job.failure? p.id b ev = some e →
    ∃ later, post = .answered (.error e) (lastRow pre) :: later ∧ produced later <+: job.received later ∧
      (job.reads later).map Prod.fst =
        ((p.buckets.drop (job.reads pre).length).take (job.reads later).length).map job.request
  /-- an error is that of the request just made, or tells that the reader is closed -/
  error : ∀ pre e current post, log = pre ++ .answered (.error e) current :: post → current = lastRow pre ∧
    ((∃ before ev b, pre = before ++ [ev] ∧ job.due? p before = some b ∧ job.failure? p.id b ev = some e) ∨
      .closed ∈ pre ∧ e = .readerClosed p.id)
  /-- a row that is handed out is current -/
  row : ∀ pre row current post, log = pre ++ .answered (.ok (some row)) current :: post → Live pre ∧ current = some row
  /-- the end is told when every bucket was read and all its rows were handed out -/
  ended : ∀ pre current post, log = pre ++ .answered (.ok none) current :: post → .closed ∉ pre ∧ current = lastRow pre ∧
    (job.reads pre).length = p.buckets.length ∧ produced pre = job.received pre
  /-- after the end, until it is closed, a reader only tells that it is at the end -/
  afterEnd : ∀ pre ev post, log = pre ++ ev :: post → (∃ current, .answered (.ok none) current ∈ pre) → .closed ∉ pre →
    ev = .closed ∨ ev = .answered (.ok none) (lastRow pre)
  /-- a closed reader only tells that it is closed -/
  afterClose : ∀ pre ev post, log = pre ++ ev :: post → .closed ∈ pre →
    ev = .closed ∨ ev = .answered (.error (.readerClosed p.id)) (lastRow pre)
  /-- there are no more fetches than buckets and errors -/
  bounded : log.countP Event.isFetch ≤ p.buckets.length + log.countP Event.isErrorAnswer

theorem read?_of_failure? {partition : Nat} {b : Bucket} {ev : Event} {e : ReadError}
    (h : job.failure? partition b ev = some e) : job.read? ev = none := by
  cases ev with
  | fetched query answer =>
    cases answer with
    | error cause => rfl
    | ok payload =>
      cases hdecode : job.schema.decodePayload payload with
      | error cause => simp [read?, hdecode, Except.toOption]
      | ok rows => simp [failure?, hdecode] at h
  | _ => rfl

theorem failure?_of_read? {partition : Nat} {b : Bucket} {ev : Event} {read : Query × List Row}
    (h : job.read? ev = some read) : job.failure? partition b ev = none := by
  cases hfailure : job.failure? partition b ev with
  | none => rfl
  | some e =>
    rw [read?_of_failure? hfailure] at h
    cases h

theorem Allowed.request {ev : Event} (h : job.Allowed p log ev) (hev : ev.isRequest = true) :
    ∃ b, job.Due p log b ∧ ∀ query answer, ev = .fetched query answer →
      query = job.request b ∧ Engine.requestedRange query = .ok b.range := by
  cases h with
  | connected due => exact ⟨_, due, fun _ _ h => by cases h⟩
  | @fetched b due =>
    refine ⟨b, due, fun _ _ h => ?_⟩
    cases h
    exact ⟨rfl, job.requestedRange_request b⟩
  | _ => cases hev

namespace Lawful

/-- after a failure the log goes on as if the bucket had not been asked for -/
theorem failure (h : job.Lawful p log) (hsettled : job.unanswered? p log = none) {pre post : List Event} {ev : Event}
    {b : Bucket} {e : ReadError} (hlog : log = pre ++ ev :: post) (hdue : job.due? p pre = some b)
    (hfailure : job.failure? p.id b ev = some e) :
    ∃ later, post = .answered (.error e) (lastRow pre) :: later ∧ produced later <+: job.received later ∧
      (job.reads later).map Prod.fst =
        ((p.buckets.drop (job.reads pre).length).take (job.reads later).length).map job.request := by
  have hread := read?_of_failure? hfailure
  have hpending : job.unanswered? p (pre ++ [ev]) = some e := by
    rw [unanswered?_snoc, due?_snoc hread, hdue, Option.bind_some, hfailure]
  have hrequest : ev.isRequest = true := by
    cases ev <;> first | rfl | cases hfailure
  obtain ⟨b', due, _⟩ := (h.allowed hlog).request hrequest
  cases post with
  | nil =>
    rw [hlog, hpending] at hsettled
    cases hsettled
  | cons next later =>
    rw [List.append_cons] at hlog
    have hproduced : produced (pre ++ [ev]) = produced pre := by
      refine produced_snoc_none ?_ pre
      cases ev <;> first | rfl | cases hrequest
    have hanswer : next = .answered (.error e) (lastRow pre) := by
      cases h.allowed hlog with
      | failed live pending =>
        rw [hpending] at pending
        cases pending
        rw [lastRow, hproduced, lastRow]
      | refused closed =>
        rcases List.mem_append.1 closed with closed | closed
        · exact absurd closed due.live.1
        · rw [← List.mem_singleton.1 closed] at hrequest
          cases hrequest
      | connected due | fetched due => rw [due.settled] at hpending; cases hpending
      | row _ settled | ended _ settled | closed settled => rw [settled] at hpending; cases hpending
    subst hanswer
    -- neither event brings or hands out a row, so the rest of the log has the rest of the rows
    have hreads : job.reads log = job.reads pre ++ job.reads later := by
      rw [hlog, reads_append, reads_snoc_none hread]
      rfl
    have hrows : produced log = produced pre ++ produced later := by
      rw [hlog, produced_append, hproduced]
      rfl
    have horder := h.produced_prefix
    rw [received, hreads, List.flatMap_append, ← received, ← received, hrows, due.drained,
      List.prefix_append_right_inj] at horder
    have honce := h.reads_eq
    rw [hreads, List.map_append, List.length_append, List.take_add, List.map_append,
      (h.of_append (List.append_assoc .. ▸ hlog)).reads_eq] at honce
    exact ⟨later, rfl, horder, List.append_cancel_left honce⟩

/-- the failure that is to be answered is the one of the last event -/
theorem failure_of_unanswered? (h : job.Lawful p log) {e : ReadError} (hpending : job.unanswered? p log = some e) :
    ∃ before ev b, log = before ++ [ev] ∧ job.due? p before = some b ∧ job.failure? p.id b ev = some e := by
  rcases List.eq_nil_or_concat log with rfl | ⟨before, ev, rfl⟩
  · cases hpending
  · rw [List.concat_eq_append] at hpending ⊢
    rw [unanswered?_snoc] at hpending
    obtain ⟨b, hdue, hfailure⟩ := Option.bind_eq_some_iff.1 hpending
    rw [due?_snoc (read?_of_failure? hfailure)] at hdue
    exact ⟨before, ev, b, rfl, hdue, hfailure⟩

theorem ranges_eq (h : job.Lawful p log) : (job.reads log).map (fun read => Engine.requestedRange read.1) =
    (p.buckets.take (job.reads log).length).map fun b => .ok b.range :=
  calc (job.reads log).map (fun read => Engine.requestedRange read.1)
      = ((job.reads log).map Prod.fst).map Engine.requestedRange := by rw [List.map_map]; rfl
    _ = (p.buckets.take (job.reads log).length).map fun b => Engine.requestedRange (job.request b) := by
        rw [h.reads_eq, List.map_map]
        rfl
    _ = (p.buckets.take (job.reads log).length).map fun b => .ok b.range := by simp only [requestedRange_request]

/-- **A lawful log in which no failure is left to answer is a stream** -/
theorem streams (h : job.Lawful p log) (hsettled : job.unanswered? p log = none) : job.Streams p log where
  order := h.produced_prefix
  once := h.reads_eq
  ranges := h.ranges_eq
  bounded := h.fetches_le hsettled
  failure _ _ _ _ _ hlog := h.failure hsettled hlog
  request pre ev post hlog hev := by
    obtain ⟨b, due, hquery⟩ := (h.allowed hlog).request hev
    exact ⟨due.live, due.drained, b, due.bucket, hquery⟩
  error pre e current post hlog := by
    cases h.allowed hlog with
    | failed live pending => exact ⟨rfl, Or.inl ((h.of_append hlog).failure_of_unanswered? pending)⟩
    | refused closed => exact ⟨rfl, Or.inr ⟨closed, rfl⟩⟩
  row pre row current post hlog := by
    cases h.allowed hlog with
    | row live => exact ⟨live, rfl⟩
  ended pre current post hlog := by
    cases h.allowed hlog with
    | ended hopen _ all drained => exact ⟨hopen, rfl, all, drained⟩
  afterEnd pre ev post hlog hend hopen := by
    obtain ⟨current, hend⟩ := hend
    cases h.allowed hlog with
    | connected due | fetched due => exact absurd hend (due.live.2 current)
    | row live | failed live => exact absurd hend (live.2 current)
    | ended => exact Or.inr rfl
    | refused closed => exact absurd closed hopen
    | closed => exact Or.inl rfl
  afterClose pre ev post hlog hclosed := by
    cases h.allowed hlog with
    | connected due | fetched due => exact absurd hclosed due.live.1
    | row live | failed live => exact absurd hclosed live.1
    | ended hopen => exact absurd hclosed hopen
    | refused => exact Or.inr rfl
    | closed => exact Or.inl rfl

end Lawful

end ReadJob

end PartitionedScan
