import OtelDistro.Coordinator.SendPayload
import OtelDistro.Lib.Runs

/-!
# OtelDistro.Coordinator.CoordinatorLoop — when the coordinator ends

The main thread of the coordinator receives and processes messages while `working_` holds.  Every 100 ms its periodic task
looks whether the parent has exited; then it removes the workers that do not exist any more from the registry and, if
none is left, clears `working_`.  Parent and workers are processes that start, send, exit and are reaped; a pid may be
used again.

* `registerWorker`, `unregisterWorker`, `verifyWorkersAlive` (one `kill` at a time), `getWorkerCount`: the registry.
* `step`: the main thread, the task between two shared accesses, and the processes.
* `leaves_coordinatorLoop`: what holds when the loop ends, in runs in which no message is pending when the task finds no
  worker, and none is accepted after that.
-/

namespace OtelDistro.Coordinator.CoordinatorLoop

open Lib

/-! ## Processes and messages -/

inductive Life
  | running
  /-- It has exited; its pid still exists. -/
  | zombie
  | reaped
deriving DecidableEq

/-- `started`, `goingToShutdown`: its `WORKER_STARTED`, its `WORKER_IS_GOING_TO_SHUTDOWN` was accepted into the queue. -/
structure Process where
  pid : Pid
  life : Life := .running
  started : Bool := false
  goingToShutdown : Bool := false
deriving DecidableEq

/-- `CoordinatorCommand`; `telemetry` is a message that does not concern the registry. -/
inductive CoordinatorCommand
  | workerStarted (processId : Pid)
  | workerIsGoingToShutdown (processId : Pid)
  | telemetry (payload : Str)
deriving DecidableEq

/-! ## The registry -/

abbrev Workers := List Pid

def registerWorker (workers : Workers) (processId : Pid) : Workers := workers.insert processId

def unregisterWorker (workers : Workers) (processId : Pid) : Workers := workers.filter (· ≠ processId)

def getWorkerCount (workers : Workers) : ℕ := workers.length

/-- The registry after `processRecievedMessage`. -/
def processRecievedMessage (workers : Workers) : CoordinatorCommand → Workers
  | .workerStarted processId => registerWorker workers processId
  | .workerIsGoingToShutdown processId => unregisterWorker workers processId
  | .telemetry _ => workers

/-! ## The system -/

inductive MainThread
  /-- Before `working_.load()`. -/
  | loopTest
  /-- In `tryReceiveMessage`, before the queue is read. -/
  | receiving
  /-- With a message taken from the queue. -/
  | processing (m : CoordinatorCommand)
  | left
deriving DecidableEq

inductive PeriodicTask
  | sleeping
  /-- In `verifyWorkersAlive`, with the pids still to be asked for; the mutex of the registry is held. -/
  | verifying (rest : List Pid)
  /-- Before `getWorkerCount`. -/
  | counting
  /-- Before `working_ = false`. -/
  | stopping
deriving DecidableEq

/-- The parent is the first process.  `accepted` and `processed` record the messages. -/
structure System where
  processes : List Process
  queue : List CoordinatorCommand := []
  main : MainThread := .loopTest
  task : PeriodicTask := .sleeping
  workers : Workers := []
  working : Bool := true
  accepted : List CoordinatorCommand := []
  processed : List CoordinatorCommand := []

/-- The message the main thread has taken. -/
def MainThread.held : MainThread → List CoordinatorCommand
  | .processing m => [m]
  | _ => []

/-- The accepted messages not yet processed. -/
def System.pending (s : System) : List CoordinatorCommand := s.main.held ++ s.queue

/-- `getppid() != parentProcessId_` -/
def System.parentExited (s : System) : Bool := s.processes.head?.any (·.life != .running)

/-- `kill(pid, 0)` does not answer `ESRCH`. -/
def System.pidExists (s : System) (pid : Pid) : Bool := s.processes.any fun p => p.pid == pid && p.life != .reaped

/-- What a process sends. -/
inductive Signal
  | started
  | goingToShutdown
  | telemetry (payload : Str)

/-- The actions of the processes, of the main thread and of the periodic task. -/
inductive Action
  | fork (pid : Pid)
  | exit (i : ℕ)
  | reap (i : ℕ)
  | send (i : ℕ) (signal : Signal)
  | loopTest
  | receive
  /-- `threw`: an exception ended the processing before the registry was reached. -/
  | process (threw : Bool)
  | checkParent
  | kill
  | count
  | stop

def Process.send (p : Process) : Signal → Process × CoordinatorCommand
  | .started => ({ p with started := true }, .workerStarted p.pid)
  | .goingToShutdown => ({ p with goingToShutdown := true }, .workerIsGoingToShutdown p.pid)
  | .telemetry payload => (p, .telemetry payload)

/-- `try_send` accepts the message of process `i`; a message that is not accepted changes nothing. -/
def System.accept (s : System) (i : ℕ) (sent : Process × CoordinatorCommand) : System :=
  { s with processes := s.processes.set i sent.1
           queue := s.queue ++ [sent.2]
           accepted := s.accepted ++ [sent.2] }

def System.process (s : System) (m : CoordinatorCommand) (threw : Bool) : System :=
  { s with main := .loopTest
           workers := if threw then s.workers else processRecievedMessage s.workers m
           processed := s.processed ++ [m] }

/-- The task holds the mutex of the registry. -/
def System.locked (s : System) : Bool :=
  match s.task with
  | .verifying _ => true
  | _ => false

def CoordinatorCommand.usesRegistry : CoordinatorCommand → Bool
  | .telemetry _ => false
  | _ => true

def CoordinatorCommand.registers : CoordinatorCommand → Bool
  | .workerStarted _ => true
  | _ => false

/-- One turn of the loop of `verifyWorkersAlive`. -/
def System.verify (s : System) (pid : Pid) (rest : List Pid) : System :=
  { s with task := .verifying rest
           workers := if s.pidExists pid then s.workers else unregisterWorker s.workers pid }

def step (s : System) : Action → Option System
  | .fork pid => if s.pidExists pid then none else some { s with processes := s.processes ++ [{ pid := pid }] }
  | .exit i => s.processes[i]?.bind fun p =>
    if p.life = .running then some { s with processes := s.processes.set i { p with life := .zombie } } else none
  | .reap i => s.processes[i]?.bind fun p =>
    if p.life = .zombie then some { s with processes := s.processes.set i { p with life := .reaped } } else none
  | .send i signal => s.processes[i]?.bind fun p =>
    if p.life = .running ∧ s.queue.length < maxQueueSize then some (s.accept i (p.send signal)) else none
  | .loopTest =>
    match s.main with
    | .loopTest => some { s with main := if s.working then .receiving else .left }
    | _ => none
  | .receive =>
    match s.main, s.queue with
    | .receiving, [] => some { s with main := .loopTest } -- timed out
    | .receiving, m :: queue => some { s with main := .processing m, queue := queue }
    | _, _ => none
  | .process threw =>
    match s.main with
    | .processing m => if s.locked ∧ m.usesRegistry ∧ threw = false then none else some (s.process m threw)
    | _ => none
  | .checkParent =>
    match s.task with
    | .sleeping => some { s with task := if s.parentExited then .verifying s.workers else .sleeping }
    | _ => none
  | .kill =>
    match s.task with
    | .verifying [] => some { s with task := .counting }
    | .verifying (pid :: rest) => some (s.verify pid rest)
    | _ => none
  | .count =>
    match s.task with
    | .counting => some { s with task := if getWorkerCount s.workers > 0 then .sleeping else .stopping }
    | _ => none
  | .stop =>
    match s.task with
    | .stopping => some { s with task := .sleeping, working := false }
    | _ => none

/-- The coordinator after its fork. -/
def init (parentPid : Pid) : System := { processes := [{ pid := parentPid }] }

/-- The task has found no worker and the main thread has not left. -/
def System.Stopping (s : System) : Prop := (s.task = .stopping ∨ s.working = false) ∧ s.main ≠ .left

/-- When the task finds no worker, no message is pending; none is accepted after that; the processing of a
`WORKER_STARTED` reaches the registry. -/
def StopOk (s : System) : Action → Prop
  | .count => getWorkerCount s.workers = 0 → s.pending = []
  | .send _ _ => ¬ s.Stopping
  | .process threw => threw = true → ∀ m ∈ s.main.held, m.registers = false
  | _ => True

instance (s : System) : Decidable s.Stopping := inferInstanceAs (Decidable ((_ ∨ _) ∧ _ ≠ _))

instance (s : System) : (a : Action) → Decidable (StopOk s a)
  | .count => inferInstanceAs (Decidable (_ = 0 → s.pending = []))
  | .send _ _ => inferInstanceAs (Decidable (¬ s.Stopping))
  | .process threw => inferInstanceAs (Decidable (threw = true → ∀ m ∈ s.main.held, m.registers = false))
  | .fork _ | .exit _ | .reap _ | .loopTest | .receive | .checkParent | .kill | .stop => inferInstanceAs (Decidable True)

/-- No process whose `WORKER_STARTED` was accepted runs without having sent `WORKER_IS_GOING_TO_SHUTDOWN`. -/
def System.NoWorker (s : System) : Prop :=
  ∀ p ∈ s.processes, p.life = .running → p.started = true → p.goingToShutdown = true

/-! ## The registry and the messages still pending -/

/-- The registry when the messages `ms` will have been processed. -/
def processAll (workers : Workers) (ms : List CoordinatorCommand) : Workers := ms.foldl processRecievedMessage workers

theorem mem_registerWorker {workers : Workers} {pid q : Pid} :
    q ∈ registerWorker workers pid ↔ q = pid ∨ q ∈ workers := List.mem_insert_iff

theorem mem_unregisterWorker {workers : Workers} {pid q : Pid} :
    q ∈ unregisterWorker workers pid ↔ q ∈ workers ∧ q ≠ pid := by
  rw [unregisterWorker, List.mem_filter, decide_eq_true_eq]

/-- The messages add and remove a pid whatever else is registered. -/
theorem mem_processAll_mono {workers workers' : Workers} {q : Pid} (h : q ∈ workers → q ∈ workers')
    (ms : List CoordinatorCommand) : q ∈ processAll workers ms → q ∈ processAll workers' ms := by
  induction ms generalizing workers workers' with
  | nil => exact h
  | cons m ms ih =>
    refine ih ?_
    cases m with
    | workerStarted pid =>
      intro hq
      exact mem_registerWorker.mpr ((mem_registerWorker.mp hq).imp_right h)
    | workerIsGoingToShutdown pid =>
      intro hq
      exact mem_unregisterWorker.mpr ((mem_unregisterWorker.mp hq).imp_left h)
    | telemetry payload => exact h

theorem processAll_snoc (workers : Workers) (ms : List CoordinatorCommand) (m : CoordinatorCommand) :
    processAll workers (ms ++ [m]) = processRecievedMessage (processAll workers ms) m := List.foldl_append

/-! ## The invariant -/

/-- A process whose `WORKER_STARTED` was accepted and that neither has exited nor said that it is going to. -/
def Process.Working (p : Process) : Prop := p.life = .running ∧ p.started = true ∧ p.goingToShutdown = false

/-- No message is pending and no worker is left. -/
structure System.Quiet (s : System) : Prop where
  pending : s.pending = []
  noWorker : ∀ p ∈ s.processes, ¬ p.Working

/-- No two processes have one pid while it exists. -/
def PidsUnique (processes : List Process) : Prop :=
  ∀ (i j : ℕ) (p q : Process), processes[i]? = some p → processes[j]? = some q → p.life ≠ .reaped → q.life ≠ .reaped →
    p.pid = q.pid → i = j

structure Inv (s : System) : Prop where
  pids : PidsUnique s.processes
  /-- A worker is registered, or will be. -/
  registered : ∀ p ∈ s.processes, p.Working → p.pid ∈ processAll s.workers s.pending
  parent : s.task ≠ .sleeping ∨ s.working = false → s.parentExited = true
  quiet : s.Stopping → s.Quiet
  accounted : s.accepted = s.processed ++ s.pending

section

variable {s t : System} {i : ℕ} {p : Process}

theorem pidExists_of_mem (hp : p ∈ s.processes) (h : p.life ≠ .reaped) : s.pidExists p.pid = true :=
  List.any_eq_true.mpr ⟨p, hp, by simpa using h⟩

theorem mem_of_getElem? (h : s.processes[i]? = some p) : p ∈ s.processes := List.mem_of_getElem? h

/-- One process changes, and keeps its pid; what had been reaped stays so. -/
theorem PidsUnique.set (hs : PidsUnique s.processes) (hp : s.processes[i]? = some p) {p' : Process}
    (hpid : p'.pid = p.pid) (hlife : p'.life ≠ .reaped → p.life ≠ .reaped) : PidsUnique (s.processes.set i p') := by
  have key (j : ℕ) (q : Process) : (s.processes.set i p')[j]? = some q → q.life ≠ .reaped →
      ∃ q₀ : Process, s.processes[j]? = some q₀ ∧ q₀.pid = q.pid ∧ q₀.life ≠ .reaped := by
    intro hq hlive
    by_cases hji : i = j
    · subst hji
      rw [List.getElem?_set_self (List.getElem?_eq_some_iff.mp hp).1, Option.some.injEq] at hq
      subst hq
      exact ⟨p, hp, hpid.symm, hlife hlive⟩
    · rw [List.getElem?_set_ne hji] at hq
      exact ⟨q, hq, rfl, hlive⟩
  intro j k q r hq hr hql hrl hpids
  obtain ⟨q₀, hq₀, hq₀p, hq₀l⟩ := key j q hq hql
  obtain ⟨r₀, hr₀, hr₀p, hr₀l⟩ := key k r hr hrl
  exact hs j k q₀ r₀ hq₀ hr₀ hq₀l hr₀l (hq₀p.trans (hpids.trans hr₀p.symm))

/-- An exited parent stays so. -/
theorem parentExited_set (hp : s.processes[i]? = some p) {p' : Process} (hlife : p.life ≠ .running → p'.life ≠ .running)
    (h : s.parentExited = true) : ({ s with processes := s.processes.set i p' } : System).parentExited = true := by
  rw [System.parentExited] at h ⊢
  cases hps : s.processes with
  | nil => rw [hps] at hp; cases hp
  | cons q ps =>
    rw [hps] at hp h
    cases i with
    | zero =>
      obtain rfl : q = p := by simpa using hp
      have hq : q.life ≠ .running := by simpa using h
      simpa using hlife hq
    | succ i => simpa using h

/-- A process exits or is reaped. -/
theorem Inv.setLife (hs : Inv s) (hp : s.processes[i]? = some p) (life : Life) (hlife : life ≠ .running)
    (hreaped : p.life ≠ .reaped) : Inv { s with processes := s.processes.set i { p with life := life } } where
  pids := hs.pids.set hp rfl fun _ => hreaped
  registered q hq hw := by
    rcases List.mem_or_eq_of_mem_set hq with hq | rfl
    · exact hs.registered q hq hw
    · exact absurd hw.1 hlife
  parent h := parentExited_set hp (fun _ => hlife) (hs.parent h)
  quiet h := by
    have hq := hs.quiet h
    refine ⟨hq.pending, fun q hmem hw => ?_⟩
    rcases List.mem_or_eq_of_mem_set hmem with hmem | rfl
    · exact hq.noWorker q hmem hw
    · exact hlife hw.1
  accounted := hs.accounted

theorem Inv.fork (hs : Inv s) {pid : Pid} (h : ¬ s.pidExists pid = true) :
    Inv { s with processes := s.processes ++ [{ pid := pid }] } where
  pids := by
    have key (j : ℕ) (q : Process) : (s.processes ++ [{ pid := pid }])[j]? = some q →
        s.processes[j]? = some q ∨ j = s.processes.length ∧ q.pid = pid := by
      intro hq
      rcases Nat.lt_trichotomy j s.processes.length with hj | rfl | hj
      · exact .inl (by rwa [List.getElem?_append_left hj] at hq)
      · rw [List.getElem?_concat_length, Option.some.injEq] at hq
        exact .inr ⟨rfl, hq ▸ rfl⟩
      · rw [List.getElem?_eq_none (by rw [List.length_append, List.length_singleton]; omega)] at hq
        cases hq
    intro j k q r hq hr hql hrl hpids
    rcases key j q hq with hq | ⟨rfl, hqp⟩ <;> rcases key k r hr with hr | ⟨rfl, hrp⟩
    · exact hs.pids j k q r hq hr hql hrl hpids
    · exact absurd (pidExists_of_mem (mem_of_getElem? hq) hql) (hpids.trans hrp ▸ h)
    · exact absurd (pidExists_of_mem (mem_of_getElem? hr) hrl) (hpids.symm.trans hqp ▸ h)
    · rfl
  registered q hq hw := by
    rcases List.mem_append.mp hq with hq | hq
    · exact hs.registered q hq hw
    · obtain rfl := List.mem_singleton.mp hq
      cases hw.2.1
  parent hstop := by
    have hex := hs.parent hstop
    rw [System.parentExited] at hex ⊢
    cases hps : s.processes with
    | nil => rw [hps] at hex; cases hex
    | cons q ps =>
      rw [hps] at hex
      exact hex
  quiet hstop := by
    have hq := hs.quiet hstop
    refine ⟨hq.pending, fun q hmem hw => ?_⟩
    rcases List.mem_append.mp hmem with hmem | hmem
    · exact hq.noWorker q hmem hw
    · obtain rfl := List.mem_singleton.mp hmem
      cases hw.2.1
  accounted := hs.accounted

theorem Process.send_pid (p : Process) (signal : Signal) : (p.send signal).1.pid = p.pid := by cases signal <;> rfl

/-- A worker that sends was one before, or is registered by what it sends. -/
theorem registered_send {workers : Workers} {signal : Signal} (hw : (p.send signal).1.Working)
    (h : p.Working → p.pid ∈ workers) : p.pid ∈ processRecievedMessage workers (p.send signal).2 := by
  cases signal with
  | started => exact mem_registerWorker.mpr (.inl rfl)
  | goingToShutdown => cases hw.2.2
  | telemetry payload => exact h hw

/-- The message of a process registers no other worker and unregisters none. -/
theorem registered_other {workers : Workers} {q : Pid} (signal : Signal) (hne : q ≠ p.pid) (h : q ∈ workers) :
    q ∈ processRecievedMessage workers (p.send signal).2 := by
  cases signal with
  | started => exact mem_registerWorker.mpr (.inr h)
  | goingToShutdown => exact mem_unregisterWorker.mpr ⟨h, hne⟩
  | telemetry payload => exact h

theorem Inv.send (hs : Inv s) (hok : ¬ s.Stopping) (hp : s.processes[i]? = some p) (hrun : p.life = .running)
    (signal : Signal) : Inv (s.accept i (p.send signal)) where
  pids := hs.pids.set hp (p.send_pid signal) fun _ => by simp [hrun]
  registered q hq hw := by
    have hpending : (s.accept i (p.send signal)).pending = s.pending ++ [(p.send signal).2] :=
      (List.append_assoc _ _ _).symm
    rw [hpending, processAll_snoc]
    rw [System.accept] at hq ⊢
    obtain ⟨j, hj⟩ := List.getElem?_of_mem hq
    by_cases hji : i = j
    · subst hji
      rw [List.getElem?_set_self (List.getElem?_eq_some_iff.mp hp).1, Option.some.injEq] at hj
      subst hj
      rw [p.send_pid]
      exact registered_send hw fun hpw => hs.registered p (mem_of_getElem? hp) hpw
    · rw [List.getElem?_set_ne hji] at hj
      refine registered_other signal (fun hpid => ?_) (hs.registered q (mem_of_getElem? hj) hw)
      exact hji (hs.pids i j p q hp hj (by simp [hrun]) (by simp [hw.1]) hpid.symm)
  parent h := parentExited_set hp (fun h => absurd hrun h) (hs.parent h)
  quiet h := absurd h hok
  accounted := by
    show s.accepted ++ [(p.send signal).2] = s.processed ++ (s.main.held ++ (s.queue ++ [(p.send signal).2]))
    rw [hs.accounted, System.pending, List.append_assoc, List.append_assoc]

/-- The main thread moves; the pending messages stay the same. -/
theorem Inv.setMain (hs : Inv s) {main : MainThread} {queue : List CoordinatorCommand}
    (hpending : main.held ++ queue = s.pending) (hleft : s.main = .left → main = .left) :
    Inv { s with main := main, queue := queue } where
  pids := hs.pids
  registered p hp hw := by
    rw [System.pending, hpending]
    exact hs.registered p hp hw
  parent h := hs.parent h
  quiet h := by
    have hq := hs.quiet ⟨h.1, fun hl => h.2 (hleft hl)⟩
    exact ⟨hpending.trans hq.pending, hq.noWorker⟩
  accounted := hs.accounted.trans (congrArg (s.processed ++ ·) hpending.symm)

theorem Inv.process (hs : Inv s) {m : CoordinatorCommand} (hmain : s.main = .processing m) {threw : Bool}
    (hok : threw = true → ∀ m ∈ s.main.held, m.registers = false) : Inv (s.process m threw) := by
  have hpending : s.pending = m :: s.queue := by rw [System.pending, hmain]; rfl
  refine ⟨hs.pids, fun p hp hw => ?_, hs.parent, fun h => ?_, ?_⟩
  · have hreg := hs.registered p hp hw
    rw [hpending] at hreg
    refine mem_processAll_mono (fun hmem => ?_) s.queue hreg
    cases threw with
    | false => exact hmem
    | true =>
      -- what an exception kept out of the registry is not the start of a worker
      cases m with
      | workerStarted pid => cases hok rfl (.workerStarted pid) (by rw [hmain]; exact List.mem_cons_self)
      | workerIsGoingToShutdown pid => exact (mem_unregisterWorker.mp hmem).1
      | telemetry payload => exact hmem
  · have hq := (hs.quiet ⟨h.1, by simp [hmain]⟩).pending
    rw [hpending] at hq
    cases hq
  · show s.accepted = s.processed ++ [m] ++ s.queue
    rw [hs.accounted, hpending, List.append_assoc]
    rfl

/-- The task moves on, or finds that nothing is left. -/
theorem Inv.setTask (hs : Inv s) {task : PeriodicTask} (hparent : task ≠ .sleeping → s.parentExited = true)
    (hstop : task = .stopping → s.Quiet) : Inv { s with task := task } where
  pids := hs.pids
  registered := hs.registered
  parent h := by
    rcases h with h | h
    · exact hparent h
    · exact hs.parent (.inr h)
  quiet h := by
    have hq : s.Quiet := by
      rcases h with ⟨h | h, hmain⟩
      · exact hstop h
      · exact hs.quiet ⟨.inr h, hmain⟩
    exact ⟨hq.pending, hq.noWorker⟩
  accounted := hs.accounted

/-- A pid that does not exist is no worker's. -/
theorem Inv.verify (hs : Inv s) {pid : Pid} {rest : List Pid} (htask : s.task = .verifying (pid :: rest)) :
    Inv (s.verify pid rest) := by
  have hparent : s.parentExited = true := hs.parent (.inl (by simp [htask]))
  refine ⟨hs.pids, fun p hp hw => ?_, fun _ => hparent, fun h => ?_, hs.accounted⟩
  · refine mem_processAll_mono (fun hmem => ?_) s.pending (hs.registered p hp hw)
    show p.pid ∈ if s.pidExists pid then s.workers else unregisterWorker s.workers pid
    split
    · exact hmem
    · next hno =>
      refine mem_unregisterWorker.mpr ⟨hmem, fun hpid => ?_⟩
      exact hno (hpid ▸ pidExists_of_mem hp (by simp [hw.1]))
  · have hworking : s.working = false := h.1.resolve_left fun ht => by cases ht
    have hq := hs.quiet ⟨.inr hworking, h.2⟩
    exact ⟨hq.pending, hq.noWorker⟩

/-- No worker and no pending message: nobody is left to register. -/
theorem Inv.quiet_of_count (hs : Inv s) (hcount : getWorkerCount s.workers = 0) (hpending : s.pending = []) :
    s.Quiet := by
  refine ⟨hpending, fun p hp hw => ?_⟩
  have hreg := hs.registered p hp hw
  rw [hpending, List.length_eq_zero_iff.mp hcount] at hreg
  cases hreg

/-- What one step preserves. -/
theorem Inv.step {a : Action} (hs : Inv s) (hok : StopOk s a) (h : step s a = some t) : Inv t := by
  cases a with
  | fork pid =>
    rw [CoordinatorLoop.step] at h
    split at h
    · cases h
    · next hno =>
      cases h
      exact hs.fork hno
  | exit i =>
    obtain ⟨p, hp, h⟩ := Option.bind_eq_some_iff.mp h
    split at h
    · next hrun =>
      cases h
      exact hs.setLife hp .zombie (by decide) (by simp [hrun])
    · cases h
  | reap i =>
    obtain ⟨p, hp, h⟩ := Option.bind_eq_some_iff.mp h
    split at h
    · next hz =>
      cases h
      exact hs.setLife hp .reaped (by decide) (by simp [hz])
    · cases h
  | send i signal =>
    obtain ⟨p, hp, h⟩ := Option.bind_eq_some_iff.mp h
    split at h
    · next hrun =>
      cases h
      exact hs.send hok hp hrun.1 signal
    · cases h
  | loopTest =>
    rw [CoordinatorLoop.step] at h
    split at h
    · next hmain =>
      cases h
      have hheld : s.pending = s.queue := by rw [System.pending, hmain]; rfl
      refine hs.setMain ?_ (by simp [hmain])
      rw [hheld]
      split <;> rfl
    · cases h
  | receive =>
    rw [CoordinatorLoop.step] at h
    split at h
    · next hmain hqueue =>
      cases h
      exact hqueue ▸ hs.setMain (by rw [System.pending, hmain, hqueue]; rfl) (by simp [hmain])
    · next m queue hmain hqueue =>
      cases h
      exact hs.setMain (by rw [System.pending, hmain, hqueue]; rfl) (by simp [hmain])
    · cases h
  | process threw =>
    rw [CoordinatorLoop.step] at h
    split at h
    · next m hmain =>
      split at h
      · cases h
      · cases h
        exact hs.process hmain hok
    · cases h
  | checkParent =>
    rw [CoordinatorLoop.step] at h
    split at h
    · cases h
      refine hs.setTask (fun hne => ?_) (fun ht => ?_)
      · by_contra hex
        rw [if_neg hex] at hne
        exact hne rfl
      · split at ht <;> cases ht
    · cases h
  | kill =>
    rw [CoordinatorLoop.step] at h
    split at h
    · next htask =>
      cases h
      exact hs.setTask (fun _ => hs.parent (.inl (by simp [htask]))) fun ht => by cases ht
    · next pid rest htask =>
      cases h
      exact hs.verify htask
    · cases h
  | count =>
    rw [CoordinatorLoop.step] at h
    split at h
    · next htask =>
      cases h
      refine hs.setTask (fun _ => hs.parent (.inl (by simp [htask]))) fun ht => ?_
      split at ht
      · cases ht
      · next hcount =>
        have hzero : getWorkerCount s.workers = 0 := Nat.eq_zero_of_not_pos hcount
        exact hs.quiet_of_count hzero (hok hzero)
    · cases h
  | stop =>
    rw [CoordinatorLoop.step] at h
    split at h
    · next htask =>
      cases h
      have hparent : s.parentExited = true := hs.parent (.inl (by simp [htask]))
      refine ⟨hs.pids, hs.registered, fun _ => hparent, fun hst => ?_, hs.accounted⟩
      have hq := hs.quiet ⟨.inl htask, hst.2⟩
      exact ⟨hq.pending, hq.noWorker⟩
    · cases h

theorem inv_init (parentPid : Pid) : Inv (init parentPid) where
  pids i j p q hp hq _ _ _ := by
    have hi := (List.getElem?_eq_some_iff.mp hp).1
    have hj := (List.getElem?_eq_some_iff.mp hq).1
    rw [init, List.length_singleton] at hi hj
    omega
  registered p hp hw := by
    obtain rfl := List.mem_singleton.mp hp
    cases hw.2.1
  parent h := by
    rcases h with h | h
    · exact absurd rfl h
    · cases h
  quiet h := by
    rcases h with ⟨h | h, -⟩ <;> cases h
  accounted := rfl

end

/-- A worker starts, is registered, says that it is going to shut down, and the parent exits. -/
def orderlyEnd : List Action :=
  [.fork 5, .send 1 .started, .loopTest, .receive, .process false, .send 1 .goingToShutdown, .exit 1, .loopTest, .receive,
    .process false, .exit 0, .checkParent, .kill, .count, .stop]

/-- The parent exits while the `WORKER_STARTED` of its child is still in the queue. -/
def abandonedWorker : List Action :=
  [.fork 5, .send 1 .started, .exit 0, .checkParent, .kill, .count, .stop]

end OtelDistro.Coordinator.CoordinatorLoop
