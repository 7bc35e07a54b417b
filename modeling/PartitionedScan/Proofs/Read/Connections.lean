/-
Connections of one engine.

An engine is used by any number of opened reads and readers, their calls in any order, while it gets new views, faults and
refused logins (`Use`, `EngineState`). In a `Traffic` every open call and every reader runs on a record of what it asks of
the engine (`Remote.recording`), and whether a reader was closed or dropped is read off the calls, not off the reader;
without its records a traffic is the engine with its readers (`plain_run`). The counters of the engine are compared with the
records, the calls and the settings of the calls (`Balanced`). The first fetch of a reader opens its connection and every
later one finds it open, whatever came of the fetches in between (`Asks`); closing gives it back. Main result:
- `run_balanced`: the counters agree with what was called and asked for.
-/
import PartitionedScan.Engine.Basic
import PartitionedScan.Proofs.Read.Streaming

namespace PartitionedScan

/-! ## What the engine counts -/

/-- the engine with a record -/
abbrev Engine.recorded : Remote (Engine × List Event) := Engine.remote.recording

/-- from `w` to `w'` a caller makes `n` fetches; it is connected before and after as `c` and `c'` say, and a connection is
opened just when it was not connected -/
structure Asks (c : Bool) (w : Engine × List Event) (n : Nat) (c' : Bool) (w' : Engine × List Event) : Prop where
  fetches : w'.1.stats.fetches = w.1.stats.fetches + n
  logged : w'.2.countP Event.isFetch = w.2.countP Event.isFetch + n
  opened : w'.1.stats.opened + c.toNat = w.1.stats.opened + c'.toNat
  live : w'.1.stats.live + c.toNat = w.1.stats.live + c'.toNat
  estimates : w'.1.stats.estimates = w.1.stats.estimates
  connected : c' = (c || decide (0 < n))

namespace Asks

variable {c c' c'' : Bool} {w w' w'' : Engine × List Event} {m n : Nat}

theorem refl (c : Bool) (w : Engine × List Event) : Asks c w 0 c w :=
  ⟨rfl, rfl, rfl, rfl, rfl, by simp⟩

theorem trans (h : Asks c w m c' w') (h' : Asks c' w' n c'' w'') : Asks c w (m + n) c'' w'' where
  fetches := by rw [h'.fetches, h.fetches, Nat.add_assoc]
  logged := by rw [h'.logged, h.logged, Nat.add_assoc]
  opened := by
    have := h.opened
    have := h'.opened
    omega
  live := by
    have := h.live
    have := h'.live
    omega
  estimates := h'.estimates.trans h.estimates
  connected := by simp only [h'.connected, h.connected, Bool.or_assoc, ← Bool.decide_or, Nat.add_pos_iff_pos_or_pos]

end Asks

namespace Engine

theorem stats_fetch (q : Query) (e : Engine) :
    (fetch q e).2.stats.fetches = e.stats.fetches + 1 ∧ (fetch q e).2.stats.opened = e.stats.opened ∧
      (fetch q e).2.stats.live = e.stats.live ∧ (fetch q e).2.stats.estimates = e.stats.estimates := by
  unfold fetch
  dsimp only
  cases requestedRange q with
  | error cause => exact ⟨rfl, rfl, rfl, rfl⟩
  | ok range =>
    dsimp only
    cases takeFault range.lower e.faults with
    | some fault => exact ⟨rfl, rfl, rfl, rfl⟩
    | none =>
      dsimp only
      split <;> exact ⟨rfl, rfl, rfl, rfl⟩

/-- asking for rows on an open connection -/
theorem asks_fetch (q : Query) (w : Engine × List Event) : Asks true w 1 true (recorded.fetch q w).2 := by
  obtain ⟨hfetches, hopened, hlive, hestimates⟩ := stats_fetch q w.1
  refine ⟨hfetches, ?_, by rw [← hopened]; rfl, by rw [← hlive]; rfl, hestimates, rfl⟩
  exact List.countP_append

end Engine

namespace Reader

variable (job : ReadJob)

/-- connecting unless it is connected, and then asking for rows, is one fetch -/
theorem asks_connect_fetch (r : Reader) (w : Engine × List Event) (q : Query) :
    ∃ w1, connect Engine.recorded job r w = (.ok (), w1) ∧ Asks r.connected w 1 true (Engine.recorded.fetch q w1).2 := by
  by_cases hconnected : r.connected = true
  · refine ⟨w, by rw [connect, if_pos hconnected], ?_⟩
    rw [hconnected]
    exact Engine.asks_fetch q w
  · rw [Bool.not_eq_true] at hconnected
    let w1 := (Engine.recorded.connect job.connection w).2
    have hasks := Engine.asks_fetch q w1
    have hlogged : w1.2.countP Event.isFetch = w.2.countP Event.isFetch := List.countP_append
    refine ⟨w1, by rw [connect, hconnected]; rfl, ?_⟩
    rw [hconnected]
    exact ⟨hasks.fetches, hasks.logged.trans (congrArg (· + 1) hlogged), Nat.succ.inj hasks.opened, Nat.succ.inj hasks.live,
      hasks.estimates, rfl⟩

/-- **One attempt to fetch** is one fetch and leaves the reader connected, whatever comes of it -/
theorem asks_fetch (b : Bucket) (r : Reader) (w : Engine × List Event) :
    Asks r.connected w 1 (fetch Engine.recorded job b r w).2.1.connected (fetch Engine.recorded job b r w).2.2 ∧
      (fetch Engine.recorded job b r w).2.1.phase = r.phase := by
  obtain ⟨w1, hconnect, hasks⟩ := asks_connect_fetch job r w (job.query.bindRange b.range)
  unfold fetch
  rw [hconnect]
  dsimp only
  rcases hfetch : Engine.recorded.fetch (job.query.bindRange b.range) w1 with ⟨_ | payload, w2⟩
  · rw [hfetch] at hasks
    exact ⟨hasks, rfl⟩
  · rw [hfetch] at hasks
    dsimp only
    cases job.schema.decodePayload payload <;> exact ⟨hasks, rfl⟩

theorem asks_advanceOver (pending : List Bucket) (r : Reader) (w : Engine × List Event) (hopen : r.phase ≠ .closed) :
    ∃ n, Asks r.connected w n (advanceOver Engine.recorded job pending r w).2.1.connected
        (advanceOver Engine.recorded job pending r w).2.2 ∧
      (advanceOver Engine.recorded job pending r w).2.1.phase ≠ .closed := by
  induction pending generalizing r w with
  | nil =>
    unfold advanceOver
    cases r.buffer <;> exact ⟨0, Asks.refl _ _, by simp⟩
  | cons b rest ih =>
    unfold advanceOver
    cases r.buffer with
    | cons row buffer => exact ⟨0, Asks.refl _ _, by simp⟩
    | nil =>
      dsimp only
      obtain ⟨hasks, hphase⟩ := asks_fetch job b r w
      rcases hfetch : fetch Engine.recorded job b r w with ⟨_ | rows, r1, w1⟩
      · rw [hfetch] at hasks
        exact ⟨1, hasks, by simp⟩
      · rw [hfetch] at hasks hphase
        obtain ⟨n, hrest, hclosed⟩ := ih { r1 with buffer := rows } w1 (hphase ▸ hopen)
        exact ⟨1 + n, hasks.trans hrest, hclosed⟩

/-- **One call of `advance`** asks on the connection that the reader has, or on one that it opens; a closed reader asks for
nothing -/
theorem asks_advance (r : Reader) (w : Engine × List Event) :
    ∃ n, Asks r.connected w n (advance Engine.recorded job r w).2.1.connected (advance Engine.recorded job r w).2.2 ∧
      ((advance Engine.recorded job r w).2.1.phase = .closed ↔ r.phase = .closed) ∧ (r.phase = .closed → n = 0) := by
  unfold advance
  cases hphase : r.phase with
  | closed => exact ⟨0, Asks.refl _ _, by simp [hphase], fun _ => rfl⟩
  | exhausted => exact ⟨0, Asks.refl _ _, by simp [hphase], nofun⟩
  | awaitingBucket | iteratingRows =>
    obtain ⟨n, hasks, hopen⟩ := asks_advanceOver job r.pending r w (by simp [hphase])
    exact ⟨n, hasks, by simp [hopen], nofun⟩

end Reader

/-! ## Readers -/

/-- a reader with the record of what it asked for -/
structure LoggedReader where
  job : ReadJob
  reader : Reader
  log : List Event
  /-- no call closed or dropped it -/
  isOpen : Bool

namespace LoggedReader

/-- how many fetches it attempted -/
def fetches (h : LoggedReader) : Nat := h.log.countP Event.isFetch

def attempted (h : LoggedReader) : Bool := 0 < h.fetches

/-- a reader of a partition that has not asked for anything -/
def ofPartition (job : ReadJob) (p : Partition) : LoggedReader :=
  ⟨job, .ofPartition p, [], true⟩

/-- a call of `advance` -/
def advance (h : LoggedReader) (e : Engine) : LoggedReader × Engine :=
  let (_, reader, e, log) := h.reader.advance Engine.recorded h.job (e, h.log)
  ({ h with reader, log }, e)

/-- a call of `close`, or a drop, which closes -/
def close (h : LoggedReader) (e : Engine) : LoggedReader × Engine :=
  let (_, reader, e, log) := h.reader.close Engine.recorded (e, h.log)
  ({ h with reader, log, isOpen := false }, e)

theorem advance_forgets (h : LoggedReader) (e : Engine) :
    ((h.advance e).1.reader, (h.advance e).2) = (h.reader.advance Engine.remote h.job e).2 := by
  obtain ⟨events, _, heq⟩ := Reader.advance_forget Engine.remote h.job h.reader e h.log
  rw [advance, heq]

theorem close_forgets (h : LoggedReader) (e : Engine) :
    ((h.close e).1.reader, (h.close e).2) = (h.reader.close Engine.remote e).2 := by
  rw [close, Reader.close_forget]

/-- the reader knows whether a call closed it, and is connected just when none did and it has attempted a fetch -/
structure Sound (h : LoggedReader) : Prop where
  phase : h.reader.phase = .closed ↔ h.isOpen = false
  connected : h.reader.connected = (h.isOpen && h.attempted)

/-- the counts of the engine move with what one reader does -/
structure Moves (h : LoggedReader) (e : Engine) (h' : LoggedReader) (e' : Engine) : Prop where
  sound : h'.Sound
  live : e'.stats.live + (h.isOpen && h.attempted).toNat = e.stats.live + (h'.isOpen && h'.attempted).toNat
  opened : e'.stats.opened + h.attempted.toNat = e.stats.opened + h'.attempted.toNat
  estimates : e'.stats.estimates = e.stats.estimates
  fetches : e'.stats.fetches + h.fetches = e.stats.fetches + h'.fetches

variable {h : LoggedReader} {e : Engine}

theorem moves_advance (hsound : h.Sound) : Moves h e (h.advance e).1 (h.advance e).2 := by
  obtain ⟨n, hasks, hclosed, hnone⟩ := Reader.asks_advance h.job h.reader (e, h.log)
  have hfetches : (h.advance e).1.fetches = h.fetches + n := hasks.logged
  have hattempted : (h.advance e).1.attempted = (h.attempted || decide (0 < n)) := by
    simp only [attempted, hfetches, Nat.add_pos_iff_pos_or_pos, Bool.decide_or]
  have hopen : (h.advance e).1.isOpen = h.isOpen := rfl
  have hphase : (h.advance e).1.reader.phase = .closed ↔ (h.advance e).1.isOpen = false := hclosed.trans hsound.phase
  have hconnected : (h.advance e).1.reader.connected = (h.reader.connected || decide (0 < n)) := hasks.connected
  have hopened : (h.advance e).2.stats.opened + h.reader.connected.toNat =
      e.stats.opened + (h.advance e).1.reader.connected.toNat := hasks.opened
  have hlive : (h.advance e).2.stats.live + h.reader.connected.toNat =
      e.stats.live + (h.advance e).1.reader.connected.toNat := hasks.live
  have htotal : (h.advance e).2.stats.fetches + h.fetches = e.stats.fetches + (h.advance e).1.fetches := by
    rw [hfetches, Nat.add_comm h.fetches, ← Nat.add_assoc]
    exact congrArg (· + h.fetches) hasks.fetches
  rw [hconnected, hsound.connected] at hopened hlive
  cases hflag : h.isOpen with
  | true =>
    rw [hflag, Bool.true_and, ← hattempted] at hopened hlive
    refine ⟨⟨hphase, ?_⟩, ?_, hopened, hasks.estimates, htotal⟩
    · rw [hconnected, hsound.connected, hopen, hflag, Bool.true_and, Bool.true_and, hattempted]
    · rwa [hopen, hflag, Bool.true_and, Bool.true_and]
  | false =>
    obtain rfl : n = 0 := hnone (hsound.phase.2 hflag)
    have hsame : (h.advance e).1.attempted = h.attempted := by simpa using hattempted
    rw [hflag, Bool.false_and] at hopened hlive
    refine ⟨⟨hphase, ?_⟩, ?_, ?_, hasks.estimates, htotal⟩
    · rw [hconnected, hsound.connected, hopen, hflag]
      rfl
    · rw [hopen, hflag]
      exact hlive
    · rw [hsame]
      exact congrArg (· + h.attempted.toNat) hopened

/-- closing gives the connection back, if there is one -/
theorem moves_close (hsound : h.Sound) (hlive : (h.isOpen && h.attempted).toNat ≤ e.stats.live) :
    Moves h e (h.close e).1 (h.close e).2 := by
  have hconnected := hsound.connected
  unfold LoggedReader.close Reader.close
  cases hflag : h.isOpen with
  | false =>
    have hphase : h.reader.phase = .closed := hsound.phase.2 hflag
    rw [hflag, Bool.false_and] at hconnected
    rw [if_pos hphase]
    refine ⟨⟨iff_of_true hphase rfl, hconnected⟩, ?_, rfl, rfl, rfl⟩
    rw [hflag]
    rfl
  | true =>
    have hphase : h.reader.phase ≠ .closed := fun hclosed => by
      rw [hsound.phase.1 hclosed] at hflag
      cases hflag
    rw [hflag, Bool.true_and] at hconnected hlive
    rw [if_neg hphase]
    cases hattempted : h.attempted with
    | true =>
      rw [hattempted] at hconnected hlive
      rw [if_pos hconnected]
      refine ⟨⟨iff_of_true rfl rfl, rfl⟩, ?_, rfl, rfl, rfl⟩
      rw [hflag, hattempted]
      exact Nat.sub_add_cancel hlive
    | false =>
      rw [hattempted] at hconnected
      rw [if_neg (by simp [hconnected])]
      refine ⟨⟨iff_of_true rfl rfl, rfl⟩, ?_, rfl, rfl, rfl⟩
      rw [hflag, hattempted]
      rfl

end LoggedReader

/-! ## Open calls -/

/-- a call that opens a read: its settings, the engine before and after it, and what it asked of the engine -/
structure Opening where
  settings : ReadSettings
  before : Engine
  after : Engine
  log : List Event

namespace Opening

/-- the call with these arguments -/
def of (query : Query) (schema : Schema) (connection : Connection) (settings : ReadSettings) (e : Engine) : Opening :=
  let (_, after, log) := ReadJob.prepare Engine.recorded query schema connection settings (e, [])
  ⟨settings, e, after, log⟩

/-- the settings passed validation -/
def isValid (o : Opening) : Bool := o.settings.validate.isOk

/-- the engine accepted the login too -/
def isAccepted (o : Opening) : Bool := o.isValid && o.before.check.connected

/-- the call fetched nothing, by its record and by the counter of the engine -/
def IsSilent (o : Opening) : Prop :=
  (∀ ev ∈ o.log, ev.isFetch = false) ∧ o.after.stats.fetches = o.before.stats.fetches

/-- planning with valid settings asks for the state of the connection and, if it is good, for one estimate -/
theorem planOn_world {σ : Type} (remote : Remote σ) (query : Query) {settings : ReadSettings}
    (hvalid : settings.validate = .ok ()) (world : σ) :
    (ReadJob.planOn remote query settings world).2 =
      if (remote.check world).1.connected then (remote.estimate query (remote.check world).2).2
      else (remote.check world).2 := by
  rw [ReadJob.planOn]
  rcases remote.check world with ⟨status, world1⟩
  dsimp only
  split_ifs
  · rw [Remote.plan, hvalid]
    dsimp only
    cases (remote.estimate query world1).1 with
    | ok rows => rfl
    | error cause =>
      dsimp only
      cases cause.classify <;> rfl
  · rfl

/-- an open call connects if its settings are valid, plans, and gives the connection back -/
theorem of_eq (query : Query) (schema : Schema) (connection : Connection) {settings : ReadSettings}
    (hvalid : settings.validate = .ok ()) (e : Engine) :
    of query schema connection settings e =
      let w := Engine.recorded.release
        (ReadJob.planOn Engine.recorded query settings (Engine.recorded.connect connection (e, [])).2).2
      ⟨settings, e, w.1, w.2⟩ := by
  simp only [of, ReadJob.prepare, hvalid]
  rfl

theorem of_forgets (query : Query) (schema : Schema) (connection : Connection) (settings : ReadSettings) (e : Engine) :
    (of query schema connection settings e).after =
      (ReadJob.prepare Engine.remote query schema connection settings e).2 := by
  cases hvalid : settings.validate with
  | error cause => simp only [of, ReadJob.prepare, hvalid]
  | ok _ =>
    have hplain : (ReadJob.prepare Engine.remote query schema connection settings e).2 = Engine.remote.release
        (ReadJob.planOn Engine.remote query settings (Engine.remote.connect connection e).2).2 := by
      simp only [ReadJob.prepare, hvalid]
      rfl
    rw [of_eq query schema connection hvalid, hplain, planOn_world _ _ hvalid, planOn_world _ _ hvalid]
    have hchecked : (Engine.recorded.check (Engine.recorded.connect connection (e, [])).2).1 =
        (Engine.remote.check (Engine.remote.connect connection e).2).1 := rfl
    rw [hchecked]
    split_ifs <;> rfl

/-- **What one open call counts for**: a connection if the settings are valid, which it gives back, and an estimate if the
login is accepted too; never a fetch -/
theorem of_counts (query : Query) (schema : Schema) (connection : Connection) (settings : ReadSettings) (e : Engine) :
    let o := of query schema connection settings e
    o.after.stats.live = e.stats.live ∧ o.after.stats.opened = e.stats.opened + o.isValid.toNat ∧
      o.after.stats.estimates = e.stats.estimates + o.isAccepted.toNat ∧ o.IsSilent := by
  intro o
  cases hvalid : settings.validate with
  | error cause =>
    have ho : o = ⟨settings, e, e, []⟩ := by simp only [o, of, ReadJob.prepare, hvalid]
    rw [ho, isAccepted, isValid, hvalid]
    exact ⟨rfl, rfl, rfl, nofun, rfl⟩
  | ok _ =>
    have ho : o = _ := of_eq query schema connection hvalid e
    rw [planOn_world _ _ hvalid] at ho
    have hchecked : (Engine.recorded.check (Engine.recorded.connect connection (e, [])).2).1 = e.check := rfl
    rw [hchecked] at ho
    cases hcheck : e.check.connected with
    | false | true =>
      rw [hcheck] at ho
      rw [ho, isAccepted, isValid, hvalid, hcheck]
      exact ⟨rfl, rfl, rfl, List.forall_mem_singleton.2 rfl, rfl⟩

end Opening

/-! ## Counting -/

theorem exists_set_eq {α : Type} {xs : List α} {i : Nat} {a : α} (h : xs[i]? = some a) :
    ∃ before after, xs = before ++ a :: after ∧ ∀ b, xs.set i b = before ++ b :: after := by
  obtain ⟨hlt, rfl⟩ := List.getElem?_eq_some_iff.1 h
  refine ⟨xs.take i, xs.drop (i + 1), ?_, fun b => ?_⟩
  · rw [List.getElem_cons_drop, List.take_append_drop]
  · rw [List.set_eq_take_append_cons_drop, if_pos hlt]

theorem countP_middle {α : Type} (p : α → Bool) (before after : List α) (a : α) :
    (before ++ a :: after).countP p = before.countP p + after.countP p + (p a).toNat := by
  rw [List.countP_append, List.countP_cons, ← Nat.add_assoc]
  cases p a <;> rfl

theorem countP_concat {α : Type} (p : α → Bool) (xs : List α) (a : α) :
    (xs ++ [a]).countP p = xs.countP p + (p a).toNat :=
  countP_middle p xs [] a

/-! ## Any use of an engine -/

/-- what can be done with an engine and the readers on it; readers are numbered in the order of their creation -/
inductive Use where
  | insertView (v : View)
  | failFetches (range : RowRange) (times : Nat) (message : String)
  | rejectAuth (message : String)
  /-- a call that opens a read -/
  | openRead (query : Query) (schema : Schema) (connection : Connection) (settings : ReadSettings)
  /-- a new reader, of any partition and for any read -/
  | create (job : ReadJob) (p : Partition)
  | advance (i : Nat)
  | close (i : Nat)
  | drop (i : Nat)

/-- an engine and the readers on it, each with the read that it is for -/
structure EngineState where
  engine : Engine
  readers : List (ReadJob × Reader)

namespace EngineState

/-- an engine without views, and nothing done with it yet -/
def start : EngineState := ⟨.empty, []⟩

/-- what the reader with a number does -/
def onReader (s : EngineState) (i : Nat) (act : ReadJob → Reader → Engine → Reader × Engine) : EngineState :=
  match s.readers[i]? with
  | none => s
  | some (job, r) =>
    let (r, engine) := act job r s.engine
    ⟨engine, s.readers.set i (job, r)⟩

def step (s : EngineState) : Use → EngineState
  | .insertView v => { s with engine := s.engine.insertView v }
  | .failFetches range times message => { s with engine := s.engine.failFetches range times message }
  | .rejectAuth message => { s with engine := s.engine.rejectAuth message }
  | .openRead query schema connection settings =>
    { s with engine := (ReadJob.prepare Engine.remote query schema connection settings s.engine).2 }
  | .create job p => { s with readers := s.readers ++ [(job, .ofPartition p)] }
  | .advance i => s.onReader i fun job r e => (r.advance Engine.remote job e).2
  -- dropping a reader closes it
  | .close i | .drop i => s.onReader i fun _ r e => (r.close Engine.remote e).2

/-- one use after another -/
def run (uses : List Use) : EngineState :=
  uses.foldl step start

end EngineState

/-- an engine, the open calls it has answered, and the readers on it, with records -/
structure Traffic where
  engine : Engine
  openings : List Opening
  readers : List LoggedReader

namespace Traffic

def start : Traffic := ⟨.empty, [], []⟩

/-- what the reader with a number does -/
def onReader (s : Traffic) (i : Nat) (act : LoggedReader → Engine → LoggedReader × Engine) : Traffic :=
  match s.readers[i]? with
  | none => s
  | some h => { s with engine := (act h s.engine).2, readers := s.readers.set i (act h s.engine).1 }

def step (s : Traffic) : Use → Traffic
  | .insertView v => { s with engine := s.engine.insertView v }
  | .failFetches range times message => { s with engine := s.engine.failFetches range times message }
  | .rejectAuth message => { s with engine := s.engine.rejectAuth message }
  | .openRead query schema connection settings =>
    let o := Opening.of query schema connection settings s.engine
    { s with engine := o.after, openings := s.openings ++ [o] }
  | .create job p => { s with readers := s.readers ++ [.ofPartition job p] }
  | .advance i => s.onReader i LoggedReader.advance
  | .close i | .drop i => s.onReader i LoggedReader.close

/-- one use after another -/
def run (uses : List Use) : Traffic :=
  uses.foldl step start

/-! ### Without records -/

/-- the engine and the readers without their records -/
def plain (s : Traffic) : EngineState :=
  ⟨s.engine, s.readers.map fun h => (h.job, h.reader)⟩

/-- a call that goes on alike without its record does so in the traffic -/
theorem plain_onReader (s : Traffic) (i : Nat) {act : LoggedReader → Engine → LoggedReader × Engine}
    {bare : ReadJob → Reader → Engine → Reader × Engine} (hjob : ∀ h e, (act h e).1.job = h.job)
    (hact : ∀ h e, ((act h e).1.reader, (act h e).2) = bare h.job h.reader e) :
    (s.onReader i act).plain = s.plain.onReader i bare := by
  unfold onReader EngineState.onReader plain
  rw [List.getElem?_map]
  cases s.readers[i]? with
  | none => rfl
  | some h => simp only [Option.map_some, ← hact, List.map_set, hjob]

theorem plain_step (s : Traffic) (use : Use) : (s.step use).plain = s.plain.step use := by
  cases use with
  | insertView | failFetches | rejectAuth => rfl
  | openRead query schema connection settings =>
    rw [Traffic.step, EngineState.step, plain, plain, Opening.of_forgets]
  | create job p =>
    rw [Traffic.step, EngineState.step, plain, plain, List.map_append]
    rfl
  | advance i =>
    rw [Traffic.step, EngineState.step]
    exact s.plain_onReader i (fun _ _ => rfl) LoggedReader.advance_forgets
  | close i | drop i =>
    rw [Traffic.step, EngineState.step]
    exact s.plain_onReader i (fun _ _ => rfl) LoggedReader.close_forgets

/-- **Records change nothing**: the engine and its readers are what they are without them -/
theorem plain_run (uses : List Use) : (run uses).plain = .run uses := by
  have hrun (s : Traffic) : (uses.foldl step s).plain = uses.foldl EngineState.step s.plain := by
    induction uses generalizing s with
    | nil => rfl
    | cons use uses ih => rw [List.foldl_cons, List.foldl_cons, ih, plain_step]
  exact hrun start

/-! ### Counters -/

/-- the counters of the engine agree with what was called and what was asked of it -/
structure Balanced (s : Traffic) : Prop where
  /-- one open connection for every reader that no call closed or dropped and that has attempted a fetch -/
  live : s.engine.stats.live = s.readers.countP fun h => h.isOpen && h.attempted
  /-- one connection for every open call with valid settings, and one for every reader that ever attempted a fetch -/
  opened : s.engine.stats.opened = s.openings.countP Opening.isValid + s.readers.countP LoggedReader.attempted
  /-- one estimate for every open call with valid settings and an accepted login -/
  estimates : s.engine.stats.estimates = s.openings.countP Opening.isAccepted
  /-- as many fetches as all readers attempted -/
  fetches : s.engine.stats.fetches = (s.readers.map LoggedReader.fetches).sum
  /-- no open call fetches -/
  silent : ∀ o ∈ s.openings, o.IsSilent

/-- the counters agree, and every reader is connected when it should be -/
structure Sound (s : Traffic) : Prop extends Balanced s where
  readers : ∀ h ∈ s.readers, h.Sound

variable {s : Traffic}

theorem Sound.same_stats (hs : s.Sound) {e : Engine} (he : e.stats = s.engine.stats) :
    Sound { s with engine := e } where
  live := by rw [he]; exact hs.live
  opened := by rw [he]; exact hs.opened
  estimates := by rw [he]; exact hs.estimates
  fetches := by rw [he]; exact hs.fetches
  silent := hs.silent
  readers := hs.readers

theorem Sound.openRead (hs : s.Sound) (query : Query) (schema : Schema) (connection : Connection) (settings : ReadSettings) :
    (s.step (.openRead query schema connection settings)).Sound := by
  obtain ⟨hlive, hopened, hestimates, hsilent⟩ := Opening.of_counts query schema connection settings s.engine
  rw [Traffic.step]
  refine ⟨⟨hlive.trans hs.live, hopened.trans ?_, hestimates.trans ?_, hsilent.2.trans hs.fetches, ?_⟩, hs.readers⟩
  · dsimp only
    rw [hs.opened, countP_concat, Nat.add_right_comm]
  · dsimp only
    rw [hs.estimates, countP_concat]
  · exact List.forall_mem_append.2 ⟨hs.silent, List.forall_mem_singleton.2 hsilent⟩

theorem Sound.create (hs : s.Sound) (job : ReadJob) (p : Partition) : (s.step (.create job p)).Sound := by
  rw [Traffic.step]
  refine ⟨⟨hs.live.trans ?_, hs.opened.trans ?_, hs.estimates, hs.fetches.trans ?_, hs.silent⟩, ?_⟩
  · dsimp only
    rw [countP_concat]
    rfl
  · dsimp only
    rw [countP_concat]
    rfl
  · dsimp only
    rw [List.map_append, List.sum_append]
    rfl
  · exact List.forall_mem_append.2 ⟨hs.readers, List.forall_mem_singleton.2 ⟨iff_of_false nofun nofun, rfl⟩⟩

/-- what one reader does moves the counters with it, and the other readers stay as they are -/
theorem Sound.onReader (hs : s.Sound) (i : Nat) {act : LoggedReader → Engine → LoggedReader × Engine}
    (hact : ∀ h ∈ s.readers, (h.isOpen && h.attempted).toNat ≤ s.engine.stats.live →
      LoggedReader.Moves h s.engine (act h s.engine).1 (act h s.engine).2) : (s.onReader i act).Sound := by
  unfold Traffic.onReader
  split
  · exact hs
  · next h hfound =>
    obtain ⟨before, after, hreaders, hset⟩ := exists_set_eq hfound
    obtain ⟨⟨hlive, hopened, hestimates, hfetches, hsilent⟩, hsound⟩ := hs
    rw [hreaders, countP_middle] at hlive hopened
    rw [hreaders, List.map_append, List.map_cons, List.sum_append, List.sum_cons] at hfetches
    rw [hreaders, List.forall_mem_append, List.forall_mem_cons] at hsound
    have hmoves := hact h (hreaders ▸ by simp) (by omega)
    have hmlive := hmoves.live
    have hmopened := hmoves.opened
    have hmfetches := hmoves.fetches
    refine ⟨⟨?_, ?_, hmoves.estimates.trans hestimates, ?_, hsilent⟩, ?_⟩
    · dsimp only
      rw [hset, countP_middle]
      omega
    · dsimp only
      rw [hset, countP_middle]
      omega
    · dsimp only
      rw [hset, List.map_append, List.map_cons, List.sum_append, List.sum_cons]
      omega
    · rw [hset, List.forall_mem_append, List.forall_mem_cons]
      exact ⟨hsound.1, hmoves.sound, hsound.2.2⟩

/-- **Every use of an engine keeps its counters in agreement** -/
theorem Sound.step (hs : s.Sound) (use : Use) : (s.step use).Sound := by
  cases use with
  | insertView v => exact hs.same_stats rfl
  | failFetches range times message => exact hs.same_stats rfl
  | rejectAuth message => exact hs.same_stats rfl
  | openRead query schema connection settings => exact hs.openRead query schema connection settings
  | create job p => exact hs.create job p
  | advance i => exact hs.onReader i fun h hh _ => LoggedReader.moves_advance (hs.readers h hh)
  | close i | drop i => exact hs.onReader i fun h hh hlive => LoggedReader.moves_close (hs.readers h hh) hlive

theorem sound_start : start.Sound where
  live := rfl
  opened := rfl
  estimates := rfl
  fetches := rfl
  silent := nofun
  readers := nofun

/-- **Connections are neither leaked nor opened early**: whatever is done with an engine, in any order, its counters agree
with what was called and what was asked of it. The records that tell change nothing in the engine and its readers. -/
theorem run_balanced (uses : List Use) : (run uses).plain = .run uses ∧ (run uses).Balanced := by
  have hrun (s : Traffic) (hs : s.Sound) : (uses.foldl step s).Sound := by
    induction uses generalizing s with
    | nil => exact hs
    | cons use uses ih => exact ih (s.step use) (hs.step use)
  exact ⟨plain_run uses, (hrun start sound_start).toBalanced⟩

end Traffic

end PartitionedScan
