/-
Tasks of several workers, mixed call by call.

A worker takes the next partition that nobody took, makes the steps of its task, and puts the report into the slot of the
partition; it stops when no partition is left. A turn is one step of one worker: it takes a number, or makes at most one
call of the engine, or fills a slot, so between any two calls of one task there may be calls of all others. `Moves` says once
what a turn can do; the invariant `Sound` and the bound `load` are read off it. What one task does to the engine may be hidden
from the others (`Remote.Isolates`): each then finds the engine as if it were alone. Main results:
- `finishes`: on every remote, failing ones included, every fair schedule comes to an end;
- `run_one_worker`: one worker does what `ReadJob.run` does, on every remote;
- `reports_of_run`: where tasks are isolated every schedule that comes to an end has the reports of the tasks run alone;
- `results_of_run`: over a steady remote these have the rows of the partitions, or their errors;
- `run_alone`: so has the sequential run.
-/
import PartitionedScan.Proofs.Read.Schedule
import PartitionedScan.Proofs.Read.TaskSteps

namespace PartitionedScan

variable {σ : Type}

/-- what a worker is doing -/
inductive TaskWorker where
  /-- about to take a partition -/
  | idle
  /-- at the task of a partition, for its slot -/
  | busy (slot : Nat) (partition : Partition) (task : TaskState)
  /-- no partition was left -/
  | stopped

/-- where the worker sits -/
def TaskWorker.seat : TaskWorker → TaskPool.Seat
  | .idle => .free
  | .busy slot _ _ => .on slot
  | .stopped => .left

/-- the workers of a job, what they share, and what they have reported -/
structure TaskPool (σ : Type) where
  world : σ
  /-- the number of the partition that is taken next -/
  next : Nat
  /-- the report of each partition -/
  slots : List (Option TaskReport)
  workers : List TaskWorker

namespace TaskPool

/-- workers before their first turn: as many as asked for, at least one, and no more than there are partitions -/
def start (workers : Nat) (ps : List Partition) (world : σ) : TaskPool σ :=
  ⟨world, 0, ps.map fun _ => none, List.replicate (min (max workers 1) ps.length) .idle⟩

/-- the reports in the order of the partitions -/
def reports (pool : TaskPool σ) : List TaskReport :=
  pool.slots.filterMap id

/-- every worker has stopped -/
def Finished (pool : TaskPool σ) : Prop :=
  ∀ w ∈ pool.workers, w = .stopped

/-- where the workers sit -/
def seats (pool : TaskPool σ) : List Seat :=
  pool.workers.map TaskWorker.seat

/-- one turn of worker `w` -/
def turn (remote : Remote σ) (job : ReadJob) (maxAttempts : Nat) (ps : List Partition) (pool : TaskPool σ) (w : Nat) :
    TaskPool σ :=
  match pool.workers[w]? with
  | some .idle =>
    match ps[pool.next]? with
    | some p =>
      { pool with next := pool.next + 1, workers := pool.workers.set w (.busy pool.next p (.start p)) }
    | none => { pool with next := pool.next + 1, workers := pool.workers.set w .stopped }
  | some (.busy slot _ (.reported t)) =>
    { pool with slots := pool.slots.set slot (some t), workers := pool.workers.set w .idle }
  | some (.busy slot p task) =>
    let (task, world) := TaskState.step remote job maxAttempts p (task, pool.world)
    { pool with world, workers := pool.workers.set w (.busy slot p task) }
  | _ => pool

/-- the turns of a schedule, one after another -/
def run (remote : Remote σ) (job : ReadJob) (maxAttempts : Nat) (ps : List Partition) (pool : TaskPool σ)
    (schedule : List Nat) : TaskPool σ :=
  schedule.foldl (turn remote job maxAttempts ps) pool

/-- the pool after the first `k` turns of an endless schedule -/
def after (remote : Remote σ) (job : ReadJob) (maxAttempts : Nat) (ps : List Partition) (pool : TaskPool σ)
    (schedule : Nat → Nat) (k : Nat) : TaskPool σ :=
  run remote job maxAttempts ps pool ((List.range k).map schedule)

variable {remote : Remote σ} {job : ReadJob} {maxAttempts : Nat} {ps : List Partition}

theorem run_cons (pool : TaskPool σ) (w : Nat) (s : List Nat) :
    run remote job maxAttempts ps pool (w :: s) =
      run remote job maxAttempts ps (turn remote job maxAttempts ps pool w) s := rfl

theorem run_append (pool : TaskPool σ) (s t : List Nat) :
    run remote job maxAttempts ps pool (s ++ t) = run remote job maxAttempts ps (run remote job maxAttempts ps pool s) t :=
  List.foldl_append

theorem after_succ (pool : TaskPool σ) (schedule : Nat → Nat) (k : Nat) :
    after remote job maxAttempts ps pool schedule (k + 1) =
      turn remote job maxAttempts ps (after remote job maxAttempts ps pool schedule k) (schedule k) := by
  simp [after, run, List.range_succ, List.foldl_append]

/-! ## What a turn can do -/

/-- the moves of worker `w` -/
inductive Moves (remote : Remote σ) (job : ReadJob) (maxAttempts : Nat) (ps : List Partition) (pool : TaskPool σ) (w : Nat) :
    TaskPool σ → Prop
  | none (h : pool.workers[w]? = none ∨ pool.workers[w]? = some .stopped) :
      Moves remote job maxAttempts ps pool w pool
  | stop (h : pool.workers[w]? = some .idle) (behind : ps.length ≤ pool.next) :
      Moves remote job maxAttempts ps pool w
        { pool with next := pool.next + 1, workers := pool.workers.set w .stopped }
  | take {p : Partition} (h : pool.workers[w]? = some .idle) (hp : ps[pool.next]? = some p) :
      Moves remote job maxAttempts ps pool w
        { pool with next := pool.next + 1, workers := pool.workers.set w (.busy pool.next p (.start p)) }
  | step {slot : Nat} {p : Partition} {task : TaskState} (h : pool.workers[w]? = some (.busy slot p task))
      (unreported : ∀ t, task ≠ .reported t) :
      Moves remote job maxAttempts ps pool w
        { pool with
          world := (TaskState.step remote job maxAttempts p (task, pool.world)).2
          workers := pool.workers.set w (.busy slot p (TaskState.step remote job maxAttempts p (task, pool.world)).1) }
  | fill {slot : Nat} {p : Partition} {t : TaskReport} (h : pool.workers[w]? = some (.busy slot p (.reported t))) :
      Moves remote job maxAttempts ps pool w
        { pool with slots := pool.slots.set slot (some t), workers := pool.workers.set w .idle }

/-- **A turn is one of the moves.** -/
theorem turn_moves (pool : TaskPool σ) (w : Nat) :
    Moves remote job maxAttempts ps pool w (turn remote job maxAttempts ps pool w) := by
  unfold turn
  cases hw : pool.workers[w]? with
  | none => exact .none (Or.inl hw)
  | some worker =>
    cases worker with
    | stopped => exact .none (Or.inr hw)
    | idle =>
      simp only
      cases hp : ps[pool.next]? with
      | none => exact .stop hw (List.getElem?_eq_none_iff.1 hp)
      | some p => exact .take hw hp
    | busy slot p task =>
      cases task with
      | reading made rows pending l => exact .step hw nofun
      | ended made result l => exact .step hw nofun
      | reported t => exact .fill hw

/-! ## Who sits where -/

theorem seats_getElem? (pool : TaskPool σ) {w : Nat} {worker : TaskWorker} (hw : pool.workers[w]? = some worker) :
    pool.seats[w]? = some worker.seat := by
  rw [seats, List.getElem?_map, hw]
  rfl

/-- numbers and slots are in order -/
def InOrder (ps : List Partition) (pool : TaskPool σ) : Prop :=
  Booked ps.length pool.next pool.slots pool.seats

theorem inOrder_start (workers : Nat) (ps : List Partition) (world : σ) : InOrder ps (start workers ps world) := by
  have h := Booked.start (α := TaskReport) ps.length (min (max workers 1) ps.length)
  unfold InOrder seats start
  rwa [List.map_replicate, List.map_const']

theorem InOrder.move {pool pool' : TaskPool σ} (h : InOrder ps pool) {w : Nat}
    (hmove : Moves remote job maxAttempts ps pool w pool') : InOrder ps pool' := by
  unfold InOrder seats at *
  cases hmove with
  | none _ => exact h
  | stop hw behind =>
    rw [List.map_set]
    exact h.leave (pool.seats_getElem? hw) behind
  | take hw hp =>
    rw [List.map_set]
    exact h.take (pool.seats_getElem? hw) (List.getElem?_eq_some_iff.1 hp).1
  | @step slot p task hw _ =>
    -- the worker stays where it is
    have hsame : pool.seats.set w (.on slot) = pool.seats := set_eq_self (pool.seats_getElem? hw)
    rw [List.map_set]
    exact hsame.symm ▸ h
  | fill hw =>
    rw [List.map_set]
    exact h.fill (pool.seats_getElem? hw) _

theorem workers_length_move {pool pool' : TaskPool σ} {w : Nat} (hmove : Moves remote job maxAttempts ps pool w pool') :
    pool'.workers.length = pool.workers.length := by
  cases hmove with
  | none _ => rfl
  | _ => exact List.length_set

theorem workers_length_run (pool : TaskPool σ) (schedule : List Nat) :
    (run remote job maxAttempts ps pool schedule).workers.length = pool.workers.length := by
  induction schedule generalizing pool with
  | nil => rfl
  | cons w schedule ih =>
    rw [run_cons, ih]
    exact workers_length_move (turn_moves pool w)

/-! ## Coming to an end -/

/-- an upper bound for the turns that a worker still takes before it looks for the next partition, and for that one -/
def workerLoad (maxAttempts : Nat) : TaskWorker → Nat
  | .idle => 1
  | .busy _ p task => task.remaining maxAttempts p + 2
  | .stopped => 0

/-- an upper bound for the turns that workers still take before all of them have stopped -/
def load (maxAttempts : Nat) (ps : List Partition) (pool : TaskPool σ) : Nat :=
  (pool.workers.map (workerLoad maxAttempts)).sum +
    ((ps.drop pool.next).map fun p => (TaskState.start p).remaining maxAttempts p + 2).sum

/-- a move of a worker that has not stopped takes something off the load -/
theorem load_move {pool pool' : TaskPool σ} {w : Nat} {worker : TaskWorker}
    (hmove : Moves remote job maxAttempts ps pool w pool') (hw : pool.workers[w]? = some worker)
    (hne : worker ≠ .stopped) : load maxAttempts ps pool' < load maxAttempts ps pool := by
  cases hmove with
  | none h =>
    rcases h with h | h
    · rw [hw] at h
      cases h
    · rw [hw] at h
      cases h
      exact absurd rfl hne
  | stop h behind =>
    have hsum := sum_map_set (workerLoad maxAttempts) h .stopped
    simp only [workerLoad] at hsum
    simp only [load, List.drop_eq_nil_of_le behind, List.drop_eq_nil_of_le (Nat.le_succ_of_le behind)]
    omega
  | @take p h hp =>
    have hsum := sum_map_set (workerLoad maxAttempts) h (.busy pool.next p (.start p))
    obtain ⟨hlt, hget⟩ := List.getElem?_eq_some_iff.1 hp
    simp only [workerLoad] at hsum
    simp only [load]
    rw [List.drop_eq_getElem_cons hlt, hget, List.map_cons, List.sum_cons]
    omega
  | @step slot p task h unreported =>
    have hsum := sum_map_set (workerLoad maxAttempts) h
      (.busy slot p (TaskState.step remote job maxAttempts p (task, pool.world)).1)
    have hstep := TaskState.remaining_step remote job maxAttempts p unreported pool.world
    simp only [workerLoad] at hsum
    simp only [load]
    omega
  | @fill slot p t h =>
    have hsum := sum_map_set (workerLoad maxAttempts) h .idle
    simp only [workerLoad] at hsum
    simp only [load]
    omega

theorem turn_eq_self {pool : TaskPool σ} {w : Nat} (h : ∀ worker, pool.workers[w]? = some worker → worker = .stopped) :
    turn remote job maxAttempts ps pool w = pool := by
  unfold turn
  cases hw : pool.workers[w]? with
  | none => rfl
  | some worker => rw [h worker hw]

/-- **Fair schedules come to an end**, whatever the engine answers -/
theorem finishes (pool : TaskPool σ) {schedule : Nat → Nat} (fair : Fair pool.workers.length schedule) :
    ∃ k, (after remote job maxAttempts ps pool schedule k).Finished := by
  refine fair.all_stop (after remote job maxAttempts ps pool schedule) TaskPool.workers .stopped (load maxAttempts ps)
    (fun k => workers_length_run pool _) (fun k hidle => ?_) fun k worker hw hne => ?_
  · rw [after_succ, turn_eq_self hidle]
  · rw [after_succ]
    exact load_move (turn_moves _ _) hw hne

/-! ## One worker -/

theorem run_task (ps : List Partition) {n : Nat} {p : Partition} {task : TaskState} {world world' : σ} {t : TaskReport}
    (h : (TaskState.step remote job maxAttempts p)^[n] (task, world) = (.reported t, world')) (next slot : Nat)
    (slots : List (Option TaskReport)) :
    ∃ schedule, run remote job maxAttempts ps ⟨world, next, slots, [.busy slot p task]⟩ schedule =
      ⟨world', next, slots.set slot (some t), [.idle]⟩ := by
  induction n generalizing task world with
  | zero =>
    cases h
    exact ⟨[0], rfl⟩
  | succ n ih =>
    rw [Function.iterate_succ_apply] at h
    generalize hstep : TaskState.step remote job maxAttempts p (task, world) = stepped at h
    obtain ⟨task', world1⟩ := stepped
    obtain ⟨schedule, hschedule⟩ := ih h
    cases task with
    | reported t' =>
      -- the report is there, and the steps to come would not change it
      cases hstep
      exact ⟨schedule, hschedule⟩
    | _ =>
      refine ⟨0 :: schedule, Eq.trans ?_ hschedule⟩
      simp only [run_cons, turn, List.getElem?_cons_zero, hstep, List.set_cons_zero]

/-- **One worker is the sequential read.** On every remote, failing ones included, a schedule of one worker comes to the
reports and the world of `ReadJob.run`. -/
theorem run_one_worker (remote : Remote σ) (job : ReadJob) (maxAttempts : Nat) (ps : List Partition) (world : σ)
    (hne : ps ≠ []) :
    ∃ schedule, run remote job maxAttempts ps (start 1 ps world) schedule =
      ⟨(ReadJob.run remote job maxAttempts ps world).2, ps.length + 1,
        (ReadJob.run remote job maxAttempts ps world).1.map some, [.stopped]⟩ := by
  suffices ∀ (rest done : List Partition) (filled : List TaskReport) (world : σ), ps = done ++ rest →
      filled.length = done.length →
      ∃ schedule, run remote job maxAttempts ps
          ⟨world, done.length, filled.map some ++ rest.map fun _ => none, [.idle]⟩ schedule =
        ⟨(ReadJob.run remote job maxAttempts rest world).2, ps.length + 1,
          (filled ++ (ReadJob.run remote job maxAttempts rest world).1).map some, [.stopped]⟩ by
    have hone : min (max 1 1) ps.length = 1 := by
      have := List.length_pos_of_ne_nil hne
      omega
    have h := this ps [] [] world rfl rfl
    rw [start, hone]
    exact h
  intro rest
  induction rest with
  | nil =>
    intro done filled world hps hlen
    rw [List.append_nil] at hps
    subst hps
    refine ⟨[0], ?_⟩
    simp [run, turn, ReadJob.run]
  | cons p rest ih =>
    intro done filled world hps hlen
    have hp : ps[done.length]? = some p := by
      rw [hps]
      simp
    obtain ⟨n, htask⟩ := TaskState.leads_runTask remote job maxAttempts p world
    obtain ⟨turns, hturns⟩ := run_task ps htask (done.length + 1) done.length
      (filled.map some ++ (p :: rest).map fun _ => none)
    obtain ⟨more, hmore⟩ := ih (done ++ [p]) (filled ++ [(ReadJob.runTask remote job maxAttempts p world).1])
      (ReadJob.runTask remote job maxAttempts p world).2 (by rw [hps]; simp) (by simp [hlen])
    have hslots : (filled.map some ++ (p :: rest).map fun _ => none).set done.length
        (some (ReadJob.runTask remote job maxAttempts p world).1) =
        (filled ++ [(ReadJob.runTask remote job maxAttempts p world).1]).map some ++ rest.map fun _ => none := by
      simp [← hlen, List.set_append_right]
    refine ⟨0 :: turns ++ more, ?_⟩
    have htake : turn remote job maxAttempts ps
        ⟨world, done.length, filled.map some ++ (p :: rest).map fun _ => none, [.idle]⟩ 0 =
        ⟨world, done.length + 1, filled.map some ++ (p :: rest).map fun _ => none,
          [.busy done.length p (.start p)]⟩ := by
      simp only [turn, List.getElem?_cons_zero, hp, List.set_cons_zero]
    rw [List.cons_append, run_cons, htake, run_append, hturns, hslots]
    rw [List.length_append, List.length_singleton] at hmore
    rw [hmore]
    simp [ReadJob.run]

end TaskPool

/-! ## Isolated tasks -/

/-- what a task does to the engine does not show to the others; `same i` is what worlds have in common that look alike to the
task of partition `i` -/
structure Remote.Isolates (remote : Remote σ) (job : ReadJob) (ps : List Partition) (same : Nat → σ → σ → Prop) : Prop where
  own : ∀ i p, ps[i]? = some p → remote.Related remote (same i) (job.Asks p)
  others : ∀ i j p world, i ≠ j → ps[j]? = some p → remote.Keeps (same i world) (job.Asks p)

variable {remote : Remote σ} {job : ReadJob} {maxAttempts : Nat} {ps : List Partition} {same : Nat → σ → σ → Prop}
  {world : σ}

/-- a steady remote whose clock stands still tells no task of another: to all of them its calm worlds look alike -/
theorem Steady.isolates {calm : σ → Prop} {answer : Query → Except RemoteError String} (steady : Steady remote calm answer)
    (hclock : ∀ world world', remote.clock world = remote.clock world') (job : ReadJob) (ps : List Partition) :
    remote.Isolates job ps fun _ world world' => calm world ∧ calm world' where
  own _ _ _ :=
    { connect := fun c world world' h => by
        obtain ⟨hopen, hcalm⟩ := steady.connect c world h.1
        obtain ⟨hopen', hcalm'⟩ := steady.connect c world' h.2
        exact ⟨hopen.trans hopen'.symm, hcalm, hcalm'⟩
      fetch := fun q world world' _ h => by
        obtain ⟨hanswer, hcalm⟩ := steady.fetch q world h.1
        obtain ⟨hanswer', hcalm'⟩ := steady.fetch q world' h.2
        exact ⟨hanswer.trans hanswer'.symm, hcalm, hcalm'⟩
      release := fun world world' h => ⟨steady.release world h.1, steady.release world' h.2⟩
      clock := fun world world' _ => hclock world world' }
  others _ _ _ _ _ _ :=
    { connect := fun c world h => ⟨h.1, (steady.connect c world h.2).2⟩
      fetch := fun q world _ h => ⟨h.1, (steady.fetch q world h.2).2⟩
      release := fun world h => ⟨h.1, steady.release world h.2⟩ }

/-- the task comes to this state when it is alone with the engine as it was, in a world that looks to it like this one -/
def TaskState.AsAlone (remote : Remote σ) (job : ReadJob) (maxAttempts : Nat) (same : Nat → σ → σ → Prop) (world : σ)
    (slot : Nat) (p : Partition) (task : TaskState) (now : σ) : Prop :=
  ∃ n, ((step remote job maxAttempts p)^[n] (start p, world)).1 = task ∧
    same slot ((step remote job maxAttempts p)^[n] (start p, world)).2 now

/-- a step of the task alone is a step of the task among others -/
theorem TaskState.AsAlone.step (isolates : remote.Isolates job ps same) {slot : Nat} {p : Partition} (hp : ps[slot]? = some p)
    {task : TaskState} {now : σ} (h : AsAlone remote job maxAttempts same world slot p task now) :
    AsAlone remote job maxAttempts same world slot p (step remote job maxAttempts p (task, now)).1
      (step remote job maxAttempts p (task, now)).2 := by
  obtain ⟨n, htask, hsame⟩ := h
  have hwithin := within_iterate remote job maxAttempts p world n
  refine ⟨n + 1, ?_⟩
  rw [Function.iterate_succ_apply']
  generalize (TaskState.step remote job maxAttempts p)^[n] (start p, world) = x at htask hsame hwithin ⊢
  obtain ⟨task', alone⟩ := x
  obtain rfl : task' = task := htask
  exact step_related (isolates.own slot p hp) hwithin hsame

theorem TaskState.AsAlone.within {slot : Nat} {p : Partition} {task : TaskState} {now : σ}
    (h : AsAlone remote job maxAttempts same world slot p task now) : task.Within p := by
  obtain ⟨n, rfl, _⟩ := h
  exact within_iterate remote job maxAttempts p world n

theorem TaskState.AsAlone.report {slot : Nat} {p : Partition} {t : TaskReport} {now : σ}
    (h : AsAlone remote job maxAttempts same world slot p (.reported t) now) :
    t = (ReadJob.runTask remote job maxAttempts p world).1 := by
  obtain ⟨n, htask, _⟩ := h
  exact (reported_unique ⟨n, Prod.ext htask rfl⟩ (leads_runTask remote job maxAttempts p world)).1

namespace TaskPool

/-- every task is where it would be alone with the engine as it was at first -/
structure Sound (remote : Remote σ) (job : ReadJob) (maxAttempts : Nat) (ps : List Partition) (same : Nat → σ → σ → Prop)
    (world : σ) (pool : TaskPool σ) : Prop where
  order : InOrder ps pool
  untaken : ∀ i, pool.next ≤ i → i < ps.length → same i world pool.world
  busy : ∀ (w slot : Nat) (p : Partition) (task : TaskState), pool.workers[w]? = some (.busy slot p task) →
    ps[slot]? = some p ∧ task.AsAlone remote job maxAttempts same world slot p pool.world
  reports : ∀ (i : Nat) (t : TaskReport), pool.slots[i]? = some (some t) →
    ∃ p, ps[i]? = some p ∧ t = (ReadJob.runTask remote job maxAttempts p world).1

theorem sound_start (workers : Nat) (hsame : ∀ i < ps.length, same i world world) :
    Sound remote job maxAttempts ps same world (start workers ps world) where
  order := inOrder_start workers ps world
  untaken i _ hi := hsame i hi
  busy w _ _ _ hw := by cases List.eq_of_mem_replicate (List.mem_of_getElem? hw)
  reports i t ht := by
    obtain ⟨p, _, hp⟩ := List.mem_map.1 (List.mem_of_getElem? ht)
    cases hp

section Sound

variable {pool pool' : TaskPool σ} {w slot : Nat} {p : Partition} {task : TaskState}

theorem Sound.stop (h : Sound remote job maxAttempts ps same world pool) (hw : pool.workers[w]? = some .idle)
    (behind : ps.length ≤ pool.next) :
    Sound remote job maxAttempts ps same world
      { pool with next := pool.next + 1, workers := pool.workers.set w .stopped } where
  order := h.order.move (Moves.stop hw behind : Moves remote job maxAttempts ps pool w _)
  untaken i hi := h.untaken i (Nat.le_of_succ_le hi)
  busy v slot p task hv := h.busy v slot p task (getElem?_of_set hv nofun)
  reports := h.reports

theorem Sound.take (h : Sound remote job maxAttempts ps same world pool) (hw : pool.workers[w]? = some .idle)
    (hp : ps[pool.next]? = some p) :
    Sound remote job maxAttempts ps same world
      { pool with next := pool.next + 1, workers := pool.workers.set w (.busy pool.next p (.start p)) } where
  order := h.order.move (Moves.take hw hp : Moves remote job maxAttempts ps pool w _)
  untaken i hi := h.untaken i (Nat.le_of_succ_le hi)
  busy v slot p' task hv := by
    rcases getElem?_set_cases hv with ⟨_, hnew⟩ | ⟨_, hold⟩
    · cases hnew
      exact ⟨hp, 0, rfl, h.untaken pool.next le_rfl (List.getElem?_eq_some_iff.1 hp).1⟩
    · exact h.busy v slot p' task hold
  reports := h.reports

/-- a step of one task does not show to that of any other partition -/
theorem Sound.same_step (isolates : remote.Isolates job ps same) (h : Sound remote job maxAttempts ps same world pool)
    (hw : pool.workers[w]? = some (.busy slot p task)) {i : Nat} (hi : i ≠ slot) {before : σ}
    (hsame : same i before pool.world) :
    same i before (TaskState.step remote job maxAttempts p (task, pool.world)).2 := by
  obtain ⟨hp, halone⟩ := h.busy w slot p task hw
  exact TaskState.step_keeps (isolates.others i slot p before hi hp) halone.within hsame

theorem Sound.step (isolates : remote.Isolates job ps same) (h : Sound remote job maxAttempts ps same world pool)
    (hw : pool.workers[w]? = some (.busy slot p task)) (unreported : ∀ t, task ≠ .reported t) :
    Sound remote job maxAttempts ps same world
      { pool with
        world := (TaskState.step remote job maxAttempts p (task, pool.world)).2
        workers := pool.workers.set w (.busy slot p (TaskState.step remote job maxAttempts p (task, pool.world)).1) } where
  order := h.order.move (Moves.step hw unreported)
  untaken i hi hlen := by
    have htaken : slot < pool.next := h.order.below w slot (pool.seats_getElem? hw)
    exact h.same_step isolates hw (Nat.ne_of_gt (htaken.trans_le hi)) (h.untaken i hi hlen)
  busy v slot' p' task' hv := by
    rcases getElem?_set_cases hv with ⟨_, hnew⟩ | ⟨hne, hold⟩
    · cases hnew
      obtain ⟨hp, halone⟩ := h.busy w slot p task hw
      exact ⟨hp, halone.step isolates hp⟩
    · obtain ⟨hp', n, htask, hsame⟩ := h.busy v slot' p' task' hold
      have hslot : slot' ≠ slot := by
        rintro rfl
        exact hne (h.order.alone v w slot' (pool.seats_getElem? hold) (pool.seats_getElem? hw))
      exact ⟨hp', n, htask, h.same_step isolates hw hslot hsame⟩
  reports := h.reports

theorem Sound.fill (h : Sound remote job maxAttempts ps same world pool) {t : TaskReport}
    (hw : pool.workers[w]? = some (.busy slot p (.reported t))) :
    Sound remote job maxAttempts ps same world
      { pool with slots := pool.slots.set slot (some t), workers := pool.workers.set w .idle } where
  order := h.order.move (Moves.fill hw : Moves remote job maxAttempts ps pool w _)
  untaken := h.untaken
  busy v slot p task hv := h.busy v slot p task (getElem?_of_set hv nofun)
  reports i t' ht' := by
    rcases getElem?_set_cases ht' with ⟨rfl, hnew⟩ | ⟨_, hold⟩
    · cases hnew
      obtain ⟨hp, halone⟩ := h.busy w i p (.reported t) hw
      exact ⟨p, hp, halone.report⟩
    · exact h.reports i t' hold

/-- **A move keeps every task where it would be alone** -/
theorem Sound.move (isolates : remote.Isolates job ps same) (h : Sound remote job maxAttempts ps same world pool)
    (hmove : Moves remote job maxAttempts ps pool w pool') : Sound remote job maxAttempts ps same world pool' := by
  cases hmove with
  | none _ => exact h
  | stop hw behind => exact h.stop hw behind
  | take hw hp => exact h.take hw hp
  | step hw unreported => exact h.step isolates hw unreported
  | fill hw => exact h.fill hw

end Sound

theorem Sound.run (isolates : remote.Isolates job ps same) {pool : TaskPool σ}
    (h : Sound remote job maxAttempts ps same world pool) (schedule : List Nat) :
    Sound remote job maxAttempts ps same world (run remote job maxAttempts ps pool schedule) := by
  induction schedule generalizing pool with
  | nil => exact h
  | cons w schedule ih => exact ih (h.move isolates (turn_moves pool w))

/-- **Every schedule has the reports of the tasks run alone**, when it comes to an end, one for each partition and in their
order -/
theorem reports_of_run (isolates : remote.Isolates job ps same) (hsame : ∀ i < ps.length, same i world world) (workers : Nat)
    (schedule : List Nat) (hfinished : (run remote job maxAttempts ps (start workers ps world) schedule).Finished) :
    (run remote job maxAttempts ps (start workers ps world) schedule).reports =
      ps.map fun p => (ReadJob.runTask remote job maxAttempts p world).1 := by
  have hsound : Sound remote job maxAttempts ps same world _ := (sound_start workers hsame).run isolates schedule
  have hseats : ∀ s ∈ (run remote job maxAttempts ps (start workers ps world) schedule).seats, s = .left := by
    intro s hs
    obtain ⟨worker, hmem, rfl⟩ := List.mem_map.1 hs
    rw [hfinished worker hmem]
    rfl
  have hworkers : ps.length ≠ 0 → (run remote job maxAttempts ps (start workers ps world) schedule).seats ≠ [] := by
    intro hne
    refine List.ne_nil_of_length_pos ?_
    rw [seats, List.length_map, workers_length_run, start, List.length_replicate]
    omega
  have hall := filterMap_filled id (fun p => (ReadJob.runTask remote job maxAttempts p world).1) hsound.order.size
    fun i p hp => by
      obtain ⟨t, ht⟩ := hsound.order.filled hseats hworkers (List.getElem?_eq_some_iff.1 hp).1
      obtain ⟨p', hp', hreport⟩ := hsound.reports i t ht
      rw [hp] at hp'
      cases hp'
      exact ⟨t, ht, hreport⟩
  rwa [List.map_id] at hall

/-- over a steady remote the reports have the rows of the partitions, or their errors -/
theorem results_of_run {calm : σ → Prop} {answer : Query → Except RemoteError String} (steady : Steady remote calm answer)
    (hclock : ∀ world world', remote.clock world = remote.clock world') (hcalm : calm world) (workers : Nat)
    (schedule : List Nat) (hfinished : (run remote job maxAttempts ps (start workers ps world) schedule).Finished) :
    (run remote job maxAttempts ps (start workers ps world) schedule).reports.map (fun t => t.outcome.result) =
      ps.map (job.partitionRows answer) := by
  rw [reports_of_run (steady.isolates hclock job ps) (fun _ _ => ⟨hcalm, hcalm⟩) workers schedule hfinished, List.map_map]
  exact List.map_congr_left fun p _ => (ReadJob.runTaskFrom_steady job steady p 0 (maxAttempts - 1) hcalm).2.1

end TaskPool

/-- **The sequential run** has the reports of the tasks run alone -/
theorem ReadJob.run_alone (isolates : remote.Isolates job ps same) (hsame : ∀ i < ps.length, same i world world) :
    (run remote job maxAttempts ps world).1 = ps.map fun p => (runTask remote job maxAttempts p world).1 := by
  suffices ∀ (rest done : List Partition) (now : σ), ps = done ++ rest →
      (∀ i, done.length ≤ i → i < ps.length → same i world now) →
      (run remote job maxAttempts rest now).1 = rest.map fun p => (runTask remote job maxAttempts p world).1 from
    this ps [] world rfl fun i _ hi => hsame i hi
  intro rest
  induction rest with
  | nil => exact fun _ _ _ _ => rfl
  | cons p rest ih =>
    intro done now hps hnow
    have hp : ps[done.length]? = some p := by
      rw [hps]
      simp
    have hlen := (List.getElem?_eq_some_iff.1 hp).1
    obtain ⟨hreport, _⟩ := runTask_related (isolates.own done.length p hp) maxAttempts (hnow done.length le_rfl hlen)
    have hrest := ih (done ++ [p]) (runTask remote job maxAttempts p now).2 (by rw [hps, List.append_assoc]; rfl)
      fun i hi hlen => runTask_keeps (isolates.others i done.length p world (by
        rw [List.length_append, List.length_singleton] at hi
        omega) hp) maxAttempts (hnow i (by
        rw [List.length_append, List.length_singleton] at hi
        omega) hlen)
    simp only [run, List.map_cons, hreport, hrest]

end PartitionedScan
