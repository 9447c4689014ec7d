import OtelDistro.Lib.Runs

/-!
# OtelDistro.Util.PeriodicTaskExecutor — the thread that calls the registered tasks

One thread, the owner, calls the methods; the other runs `work`.  What a thread does while it holds the mutex is one step, and
storing a flag and the `notify_all` behind it are two.  A run is any order of the steps; `wait` may also return unasked.

* `PeriodicTaskExecutor`, `step`: the executor, the place of either thread and what has happened so far.
* `Inv`: a thread that waits although it could go on is about to be notified (`inv_run`).
* `Schedule`: what the component is for, without threads; `schedule_of_run`: every run keeps to it.
* `rounds_while_suspended`: what is still called after `suspendPeriodicTasks`.
-/

namespace OtelDistro.Util

open Lib

namespace PeriodicTaskExecutor

/-- Where the thread stands in `work`. -/
inductive Work (Task : Type)
  /-- There is no thread, it was joined. -/
  | gone
  /-- Created, `workerInit_` is to come. -/
  | starting
  /-- Before it has the mutex, at the head of the loop or inside `wait`. -/
  | locking
  /-- Blocked in `pauseCondition_.wait`. -/
  | waiting
  /-- The mutex is released again, before `sleep_for`. -/
  | passed
  | sleeping
  /-- Going through the snapshot, `rest` is to come. -/
  | running (rest : List Task)
  | exited

/-- What the owner is in the middle of. -/
inductive Call
  | idle
  /-- The flag is stored, `notify_all` is to come. -/
  | notifying
  /-- `shutdown` of `prefork` or of the destructor (`final`), `notify_all` is to come. -/
  | stopping (final : Bool)
  | joining (final : Bool)
  /-- Between `prefork` and `postfork`. -/
  | forking
  /-- In `postfork`, before the thread is created. -/
  | restarting
  | destroyed
deriving DecidableEq

inductive Event (Task : Type)
  | added (task : Task)
  | interval (ms : Int64)
  | resumed
  | suspended
  | shutdown
  | joined
  | forked
  | started
  | workerInit
  /-- The thread found `resumed_` set. -/
  | passed
  | slept (ms : Int64)
  /-- The snapshot of a round. -/
  | round (tasks : List Task)
  | ran (task : Task)
deriving DecidableEq

inductive Action (Task : Type)
  | addTask (task : Task)
  | setInterval (interval : Int64)
  | resumePeriodicTasks
  | suspendPeriodicTasks
  | prefork
  | postfork
  | destroy
  /-- The owner goes on with its call. -/
  | proceed
  /-- The thread goes on. -/
  | work
  | spuriousWakeUp

/-- `notify_all`: a thread that waits goes for the mutex. -/
def Work.notified {Task : Type} : Work Task → Work Task
  | .waiting => .locking
  | w => w

/-- The thread is about to take the mutex, at the head of the loop or inside `wait`. -/
def Work.atLoop {Task : Type} : Work Task → Bool
  | .locking | .running [] => true
  | _ => false

end PeriodicTaskExecutor

/-- `log` has the latest event last. -/
structure PeriodicTaskExecutor (Task : Type) where
  sleepInterval : Int64 := 20
  periodicTasks : List Task
  working : Bool := true
  resumed : Bool := false
  thread : PeriodicTaskExecutor.Work Task := .starting
  call : PeriodicTaskExecutor.Call := .idle
  log : List (PeriodicTaskExecutor.Event Task) := []

namespace PeriodicTaskExecutor

variable {Task : Type}

def emit (s : PeriodicTaskExecutor Task) (e : Event Task) : PeriodicTaskExecutor Task := { s with log := s.log ++ [e] }

/-- With the mutex held: `while (working_)`, the predicate of `wait` and the `break` behind it. -/
def look (s : PeriodicTaskExecutor Task) : PeriodicTaskExecutor Task :=
  if !s.working then { s with thread := .exited }
  else if s.resumed then { s with thread := .passed }.emit .passed
  else { s with thread := .waiting }

def work (s : PeriodicTaskExecutor Task) : Option (PeriodicTaskExecutor Task) :=
  match s.thread with
  | .gone | .waiting | .exited => none
  | .starting => some ({ s with thread := .locking }.emit .workerInit)
  | .locking => some s.look
  | .passed => some ({ s with thread := .sleeping }.emit (.slept s.sleepInterval))
  | .sleeping => some ({ s with thread := .running s.periodicTasks }.emit (.round s.periodicTasks))
  | .running [] => some s.look
  | .running (task :: rest) => some ({ s with thread := .running rest }.emit (.ran task))

def wakeUp (s : PeriodicTaskExecutor Task) : Option (PeriodicTaskExecutor Task) :=
  match s.thread with
  | .waiting => some { s with thread := .locking }
  | _ => none

def notifyAll (s : PeriodicTaskExecutor Task) : PeriodicTaskExecutor Task := { s with thread := s.thread.notified }

/-- `if (thread_.joinable()) thread_.join()`. -/
def join (s : PeriodicTaskExecutor Task) : Option (PeriodicTaskExecutor Task) :=
  match s.thread with
  | .gone => some s
  | .exited => some ({ s with thread := .gone }.emit .joined)
  | _ => none

/-- The rest of the call that the owner is in. -/
def proceed (s : PeriodicTaskExecutor Task) : Option (PeriodicTaskExecutor Task) :=
  match s.call with
  | .notifying => some { s.notifyAll with call := .idle }
  | .stopping final => some { s.notifyAll with call := .joining final }
  | .joining final => s.join.map fun s => { s with call := if final then .destroyed else .forking }
  | .restarting => some ({ s with thread := .starting, call := .notifying }.emit .started)
  | _ => none

/-- A call may begin when the one before has returned. -/
def begin (s : PeriodicTaskExecutor Task) (t : PeriodicTaskExecutor Task) : Option (PeriodicTaskExecutor Task) :=
  if s.call = .idle then some t else none

def step (s : PeriodicTaskExecutor Task) : Action Task → Option (PeriodicTaskExecutor Task)
  | .addTask task => s.begin ({ s with periodicTasks := s.periodicTasks ++ [task] }.emit (.added task))
  | .setInterval interval => s.begin ({ s with sleepInterval := interval }.emit (.interval interval))
  | .resumePeriodicTasks => s.begin ({ s with resumed := true, call := .notifying }.emit .resumed)
  | .suspendPeriodicTasks => s.begin ({ s with resumed := false, call := .notifying }.emit .suspended)
  | .prefork => s.begin ({ s with working := false, call := .stopping false }.emit .shutdown)
  | .destroy => s.begin ({ s with working := false, call := .stopping true }.emit .shutdown)
  | .postfork =>
    if s.call = .forking then some ({ s with working := true, call := .restarting }.emit .forked) else none
  | .proceed => s.proceed
  | .work => s.work
  | .spuriousWakeUp => s.wakeUp

/-! ## The steps, one by one -/

/-- Everything a step can do. -/
inductive Moves (s : PeriodicTaskExecutor Task) : Action Task → PeriodicTaskExecutor Task → Prop
  | addTask (task : Task) : s.call = .idle →
      Moves s (.addTask task) ({ s with periodicTasks := s.periodicTasks ++ [task] }.emit (.added task))
  | setInterval (interval : Int64) : s.call = .idle →
      Moves s (.setInterval interval) ({ s with sleepInterval := interval }.emit (.interval interval))
  | resume : s.call = .idle →
      Moves s .resumePeriodicTasks ({ s with resumed := true, call := .notifying }.emit .resumed)
  | suspend : s.call = .idle →
      Moves s .suspendPeriodicTasks ({ s with resumed := false, call := .notifying }.emit .suspended)
  | prefork : s.call = .idle →
      Moves s .prefork ({ s with working := false, call := .stopping false }.emit .shutdown)
  | destroy : s.call = .idle →
      Moves s .destroy ({ s with working := false, call := .stopping true }.emit .shutdown)
  | postfork : s.call = .forking →
      Moves s .postfork ({ s with working := true, call := .restarting }.emit .forked)
  | notify : s.call = .notifying → Moves s .proceed { s.notifyAll with call := .idle }
  | notifyStop (final : Bool) : s.call = .stopping final → Moves s .proceed { s.notifyAll with call := .joining final }
  | joined (final : Bool) : s.call = .joining final → s.thread = .exited →
      Moves s .proceed { { s with thread := .gone }.emit .joined with call := if final then .destroyed else .forking }
  | notJoinable (final : Bool) : s.call = .joining final → s.thread = .gone →
      Moves s .proceed { s with call := if final then .destroyed else .forking }
  | restart : s.call = .restarting →
      Moves s .proceed ({ s with thread := .starting, call := .notifying }.emit .started)
  | workerInit : s.thread = .starting → Moves s .work ({ s with thread := .locking }.emit .workerInit)
  | stop : s.thread.atLoop → s.working = false → Moves s .work { s with thread := .exited }
  | pass : s.thread.atLoop → s.working = true → s.resumed = true →
      Moves s .work ({ s with thread := .passed }.emit .passed)
  | wait : s.thread.atLoop → s.working = true → s.resumed = false → Moves s .work { s with thread := .waiting }
  | sleep : s.thread = .passed → Moves s .work ({ s with thread := .sleeping }.emit (.slept s.sleepInterval))
  | snapshot : s.thread = .sleeping →
      Moves s .work ({ s with thread := .running s.periodicTasks }.emit (.round s.periodicTasks))
  | run (task : Task) (rest : List Task) : s.thread = .running (task :: rest) →
      Moves s .work ({ s with thread := .running rest }.emit (.ran task))
  | wakeUp : s.thread = .waiting → Moves s .spuriousWakeUp { s with thread := .locking }

section Inversion

variable {s t : PeriodicTaskExecutor Task} {a : Action Task}

theorem moves_look (h : s.thread.atLoop) : Moves s .work s.look := by
  unfold look
  split_ifs with hw hr
  · exact .stop h (by simpa using hw)
  · exact .pass h (by simpa using hw) hr
  · exact .wait h (by simpa using hw) (by simpa using hr)

theorem moves_work (h : s.work = some t) : Moves s .work t := by
  unfold work at h
  split at h
  case h_1 | h_2 | h_3 => cases h
  case h_4 hs => exact Option.some.inj h ▸ .workerInit hs
  case h_5 hs => exact Option.some.inj h ▸ moves_look (by rw [hs]; rfl)
  case h_6 hs => exact Option.some.inj h ▸ .sleep hs
  case h_7 hs => exact Option.some.inj h ▸ .snapshot hs
  case h_8 hs => exact Option.some.inj h ▸ moves_look (by rw [hs]; rfl)
  case h_9 hs => exact Option.some.inj h ▸ .run _ _ hs

/-- Only a thread that waits or is over cannot go on. -/
theorem step_work_isSome (hg : s.thread ≠ .gone) (hw : s.thread ≠ .waiting) (he : s.thread ≠ .exited) :
    (step s .work).isSome := by
  show s.work.isSome
  unfold work
  split
  case h_1 h => exact absurd h hg
  case h_2 h => exact absurd h hw
  case h_3 h => exact absurd h he
  all_goals rfl

theorem moves_proceed (h : s.proceed = some t) : Moves s .proceed t := by
  unfold proceed at h
  split at h
  case h_1 hs => exact Option.some.inj h ▸ .notify hs
  case h_2 hs => exact Option.some.inj h ▸ .notifyStop _ hs
  case h_3 hs =>
    obtain ⟨u, hu, rfl⟩ := Option.map_eq_some_iff.mp h
    unfold join at hu
    split at hu
    case h_1 hg => exact Option.some.inj hu ▸ .notJoinable _ hs hg
    case h_2 he => exact Option.some.inj hu ▸ .joined _ hs he
    case h_3 => cases hu
  case h_4 hs => exact Option.some.inj h ▸ .restart hs
  case h_5 => cases h

theorem moves_wakeUp (h : s.wakeUp = some t) : Moves s .spuriousWakeUp t := by
  unfold wakeUp at h
  split at h
  case h_1 hs => exact Option.some.inj h ▸ .wakeUp hs
  case h_2 => cases h

theorem begin_eq_some (h : s.begin t = some u) : s.call = .idle ∧ u = t := by
  unfold begin at h
  split_ifs at h with hc
  exact ⟨hc, (Option.some.inj h).symm⟩

theorem moves_of_step (h : step s a = some t) : Moves s a t := by
  cases a with
  | addTask task => obtain ⟨hc, rfl⟩ := begin_eq_some h; exact .addTask task hc
  | setInterval interval => obtain ⟨hc, rfl⟩ := begin_eq_some h; exact .setInterval interval hc
  | resumePeriodicTasks => obtain ⟨hc, rfl⟩ := begin_eq_some h; exact .resume hc
  | suspendPeriodicTasks => obtain ⟨hc, rfl⟩ := begin_eq_some h; exact .suspend hc
  | prefork => obtain ⟨hc, rfl⟩ := begin_eq_some h; exact .prefork hc
  | destroy => obtain ⟨hc, rfl⟩ := begin_eq_some h; exact .destroy hc
  | postfork =>
    simp only [step] at h
    split_ifs at h with hc
    exact Option.some.inj h ▸ .postfork hc
  | proceed => exact moves_proceed h
  | work => exact moves_work h
  | spuriousWakeUp => exact moves_wakeUp h

end Inversion

/-! ## Small facts about the operations -/

section Fields

variable (s : PeriodicTaskExecutor Task) (e : Event Task)

@[simp] theorem emit_call : (s.emit e).call = s.call := rfl
@[simp] theorem emit_thread : (s.emit e).thread = s.thread := rfl
@[simp] theorem emit_working : (s.emit e).working = s.working := rfl
@[simp] theorem emit_resumed : (s.emit e).resumed = s.resumed := rfl
@[simp] theorem emit_tasks : (s.emit e).periodicTasks = s.periodicTasks := rfl
@[simp] theorem emit_interval : (s.emit e).sleepInterval = s.sleepInterval := rfl
@[simp] theorem emit_log : (s.emit e).log = s.log ++ [e] := rfl

end Fields

@[simp] theorem notifyAll_thread (s : PeriodicTaskExecutor Task) : s.notifyAll.thread = s.thread.notified := rfl
@[simp] theorem notifyAll_working (s : PeriodicTaskExecutor Task) : s.notifyAll.working = s.working := rfl
@[simp] theorem notifyAll_resumed (s : PeriodicTaskExecutor Task) : s.notifyAll.resumed = s.resumed := rfl
@[simp] theorem notifyAll_tasks (s : PeriodicTaskExecutor Task) : s.notifyAll.periodicTasks = s.periodicTasks := rfl
@[simp] theorem notifyAll_interval (s : PeriodicTaskExecutor Task) : s.notifyAll.sleepInterval = s.sleepInterval := rfl
@[simp] theorem notifyAll_log (s : PeriodicTaskExecutor Task) : s.notifyAll.log = s.log := rfl

theorem Work.notified_ne_waiting (w : Work Task) : w.notified ≠ .waiting := by
  cases w <;> simp [Work.notified]

theorem Work.notified_eq_gone {w : Work Task} : w.notified = .gone ↔ w = .gone := by
  cases w <;> simp [Work.notified]

theorem Work.notified_eq_exited {w : Work Task} : w.notified = .exited ↔ w = .exited := by
  cases w <;> simp [Work.notified]

theorem Work.atLoop_cases {w : Work Task} (h : w.atLoop) : w = .locking ∨ w = .running [] := by
  unfold Work.atLoop at h
  split at h
  case h_1 => exact .inl rfl
  case h_2 => exact .inr rfl
  case h_3 => cases h

theorem Work.ne_gone_of_atLoop {w : Work Task} (h : w.atLoop) : w ≠ .gone := by
  obtain rfl | rfl := Work.atLoop_cases h <;> simp

/-! ## The invariant -/

/-- `notify_all` is still to come. -/
def Call.willNotify : Call → Bool
  | .notifying | .stopping _ | .restarting => true
  | _ => false

/-- There is no thread. -/
def Call.threadless : Call → Bool
  | .forking | .restarting | .destroyed => true
  | _ => false

/-- `working_` is cleared. -/
def Call.stopped : Call → Bool
  | .stopping _ | .joining _ | .forking | .destroyed => true
  | _ => false

structure Inv (s : PeriodicTaskExecutor Task) : Prop where
  /-- No wake-up is lost. -/
  notified : s.thread = .waiting → s.resumed = true ∨ s.working = false → s.call.willNotify = true
  gone : s.thread = .gone ↔ s.call.threadless = true
  working : s.working = !s.call.stopped
  exited : s.thread = .exited → s.working = false

theorem inv_start (tasks : List Task) : Inv { periodicTasks := tasks } where
  notified := by simp
  gone := by simp [Call.threadless]
  working := rfl
  exited := by simp

section Invariant

variable {s t : PeriodicTaskExecutor Task} {a : Action Task}

theorem Inv.working_of_idle (hs : Inv s) (hc : s.call = .idle) : s.working = true := by
  rw [hs.working, hc]
  rfl

/-- A call of the owner that stores a flag. -/
theorem Inv.begin (hs : Inv s) (hc : s.call = .idle) (hcall : t.call.willNotify = true ∧ t.call.threadless = false)
    (hthread : t.thread = s.thread) (hworking : t.working = !t.call.stopped) : Inv t where
  notified _ _ := hcall.1
  gone := by rw [hthread, hs.gone, hc, hcall.2]; simp [Call.threadless]
  working := hworking
  exited he := by
    have hw := hs.exited (hthread ▸ he)
    rw [hs.working_of_idle hc] at hw
    cases hw

/-- A step of the thread that is not its last. -/
theorem Inv.goOn (hs : Inv s) (hgo : s.thread ≠ .gone) (hcall : t.call = s.call) (hworking : t.working = s.working)
    (hwait : t.thread = .waiting → s.resumed = false ∧ s.working = true ∧ t.resumed = s.resumed) (hgone : t.thread ≠ .gone)
    (hexited : t.thread = .exited → s.working = false) : Inv t where
  notified hw hor := by
    obtain ⟨hr, hk, he⟩ := hwait hw
    rw [he, hworking, hr, hk] at hor
    simp at hor
  gone := by
    rw [hcall, ← hs.gone]
    exact iff_of_false hgone hgo
  working := by rw [hworking, hcall, hs.working]
  exited he := by rw [hworking, hexited he]

theorem inv_step (hs : Inv s) (h : step s a = some t) : Inv t := by
  cases moves_of_step h with
  | addTask task hc => exact ⟨hs.notified, hs.gone, hs.working, hs.exited⟩
  | setInterval interval hc => exact ⟨hs.notified, hs.gone, hs.working, hs.exited⟩
  | resume hc => exact hs.begin hc ⟨rfl, rfl⟩ rfl (hs.working_of_idle hc)
  | suspend hc => exact hs.begin hc ⟨rfl, rfl⟩ rfl (hs.working_of_idle hc)
  | prefork hc => exact hs.begin hc ⟨rfl, rfl⟩ rfl rfl
  | destroy hc => exact hs.begin hc ⟨rfl, rfl⟩ rfl rfl
  | postfork hc =>
    have hg : s.thread = .gone := hs.gone.mpr (by rw [hc]; rfl)
    exact ⟨fun _ _ => rfl, by simp [hg, Call.threadless], rfl, by simp [hg]⟩
  | notify hc =>
    have hk : s.working = true := by rw [hs.working, hc]; rfl
    have hg := hs.gone
    have he := hs.exited
    rw [hc] at hg
    refine ⟨fun hw => absurd hw (Work.notified_ne_waiting _), ?_, by simp [hk, Call.stopped], ?_⟩
    · simpa [Work.notified_eq_gone, Call.threadless] using hg
    · simpa [Work.notified_eq_exited] using he
  | notifyStop final hc =>
    have hk : s.working = false := by rw [hs.working, hc]; rfl
    have hg := hs.gone
    rw [hc] at hg
    refine ⟨fun hw => absurd hw (Work.notified_ne_waiting _), ?_, by simp [hk, Call.stopped], fun _ => hk⟩
    simpa [Work.notified_eq_gone, Call.threadless] using hg
  | joined final hc he =>
    have hk : s.working = false := hs.exited he
    cases final <;> exact ⟨by simp, by simp [Call.threadless], by simp [hk, Call.stopped], by simp⟩
  | notJoinable final hc hg =>
    have hthreadless := hs.gone.mp hg
    rw [hc] at hthreadless
    cases hthreadless
  | restart hc =>
    have hk : s.working = true := by rw [hs.working, hc]; rfl
    exact ⟨by simp, by simp [Call.threadless], by simp [hk, Call.stopped], by simp⟩
  | workerInit hw => exact hs.goOn (by simp [hw]) rfl rfl (by simp) (by simp) (by simp)
  | stop hw hk => exact hs.goOn (Work.ne_gone_of_atLoop hw) rfl rfl (by simp) (by simp) (fun _ => hk)
  | pass hw hk hr => exact hs.goOn (Work.ne_gone_of_atLoop hw) rfl rfl (by simp) (by simp) (by simp)
  | wait hw hk hr => exact hs.goOn (Work.ne_gone_of_atLoop hw) rfl rfl (fun _ => ⟨hr, hk, rfl⟩) (by simp) (by simp)
  | sleep hw => exact hs.goOn (by simp [hw]) rfl rfl (by simp) (by simp) (by simp)
  | snapshot hw => exact hs.goOn (by simp [hw]) rfl rfl (by simp) (by simp) (by simp)
  | run task rest hw => exact hs.goOn (by simp [hw]) rfl rfl (by simp) (by simp) (by simp)
  | wakeUp hw => exact hs.goOn (by simp [hw]) rfl rfl (by simp) (by simp) (by simp)

theorem inv_run {tasks : List Task} {as : List (Action Task)} (h : Lib.run step { periodicTasks := tasks } as = some s) :
    Inv s := run_invariant (fun _ _ _ hI hst => inv_step hI hst) h (inv_start tasks)

end Invariant

/-! ## What the component is for -/

inductive Phase (Task : Type)
  | gone
  /-- A thread was created. -/
  | fresh
  /-- A round is due. -/
  | due
  /-- The interval runs. -/
  | asleep
  /-- In a round with `rest` to come; between the rounds when `rest` is empty. -/
  | round (rest : List Task)
deriving DecidableEq

/-- Rounds of the registered tasks, each an interval after a moment at which they were resumed. -/
structure Schedule (Task : Type) where
  tasks : List Task
  interval : Int64 := 20
  resumed : Bool := false
  working : Bool := true
  phase : Phase Task := .fresh

section Schedule

variable [DecidableEq Task]

/-- Nothing else may happen: a round has the tasks registered by then, and calls them in order, each once. -/
def Schedule.step (x : Schedule Task) : Event Task → Option (Schedule Task)
  | .added task => if x.working then some { x with tasks := x.tasks ++ [task] } else none
  | .interval ms => if x.working then some { x with interval := ms } else none
  | .resumed => if x.working then some { x with resumed := true } else none
  | .suspended => if x.working then some { x with resumed := false } else none
  | .shutdown => if x.working then some { x with working := false } else none
  | .joined => if x.working = false ∧ x.phase = .round [] then some { x with phase := .gone } else none
  | .forked => if x.working = false ∧ x.phase = .gone then some { x with working := true } else none
  | .started => if x.working = true ∧ x.phase = .gone then some { x with phase := .fresh } else none
  | .workerInit => if x.phase = .fresh then some { x with phase := .round [] } else none
  | .passed =>
    if x.working = true ∧ x.resumed = true ∧ x.phase = .round [] then some { x with phase := .due } else none
  | .slept ms => if x.phase = .due ∧ ms = x.interval then some { x with phase := .asleep } else none
  | .round tasks => if x.phase = .asleep ∧ tasks = x.tasks then some { x with phase := .round tasks } else none
  | .ran task =>
    match x.phase with
    | .round (first :: rest) => if task = first then some { x with phase := .round rest } else none
    | _ => none

omit [DecidableEq Task] in
/-- The executor as a schedule. -/
def Work.phase : Work Task → Phase Task
  | .gone => .gone
  | .starting => .fresh
  | .passed => .due
  | .sleeping => .asleep
  | .running rest => .round rest
  | .locking | .waiting | .exited => .round []

omit [DecidableEq Task] in
def schedule (s : PeriodicTaskExecutor Task) : Schedule Task :=
  ⟨s.periodicTasks, s.sleepInterval, s.resumed, s.working, s.thread.phase⟩

omit [DecidableEq Task] in
theorem Work.phase_notified (w : Work Task) : w.notified.phase = w.phase := by cases w <;> rfl

omit [DecidableEq Task] in
theorem Work.phase_of_atLoop {w : Work Task} (h : w.atLoop) : w.phase = .round [] := by
  obtain rfl | rfl := Work.atLoop_cases h <;> rfl

variable {s t : PeriodicTaskExecutor Task} {a : Action Task} {as : List (Action Task)}

/-- What happens from `s` to `t` is a run of the schedule, and resumed is only what the owner resumes. -/
def Keeps (s : PeriodicTaskExecutor Task) (as : List (Action Task)) (t : PeriodicTaskExecutor Task) : Prop :=
  ∃ es, t.log = s.log ++ es ∧ run Schedule.step s.schedule es = some t.schedule ∧
    (.resumed ∈ es → .resumePeriodicTasks ∈ as)

/-- One event, as one step of the schedule. -/
theorem keeps_of_event {e : Event Task} (hlog : t.log = s.log ++ [e]) (h : s.schedule.step e = some t.schedule)
    (he : .resumed = e → .resumePeriodicTasks = a) : Keeps s [a] t :=
  ⟨[e], hlog, by rw [run_cons, h]; rfl, by simpa using he⟩

/-- A step that the schedule does not see. -/
theorem keeps_of_eq (hlog : t.log = s.log) (h : t.schedule = s.schedule) : Keeps s as t :=
  ⟨[], by rw [hlog, List.append_nil], by rw [h]; rfl, by simp⟩

theorem Keeps.trans {u : PeriodicTaskExecutor Task} {bs : List (Action Task)} (h : Keeps s as u) (h' : Keeps u bs t) :
    Keeps s (as ++ bs) t := by
  obtain ⟨es, hes, hrun, hre⟩ := h
  obtain ⟨fs, hfs, hrest, hrf⟩ := h'
  refine ⟨es ++ fs, by rw [hfs, hes, List.append_assoc], by rw [run_append_of hrun, hrest], fun hmem => ?_⟩
  rw [List.mem_append] at hmem ⊢
  exact hmem.imp hre hrf

/-- **Simulation.** -/
theorem schedule_step (hs : Inv s) (h : step s a = some t) : Keeps s [a] t := by
  cases moves_of_step h with
  | addTask task hc => exact keeps_of_event rfl (by simp [schedule, Schedule.step, hs.working_of_idle hc]) (by simp)
  | setInterval interval hc => exact keeps_of_event rfl (by simp [schedule, Schedule.step, hs.working_of_idle hc]) (by simp)
  | resume hc => exact keeps_of_event rfl (by simp [schedule, Schedule.step, hs.working_of_idle hc]) (by simp)
  | suspend hc => exact keeps_of_event rfl (by simp [schedule, Schedule.step, hs.working_of_idle hc]) (by simp)
  | prefork hc => exact keeps_of_event rfl (by simp [schedule, Schedule.step, hs.working_of_idle hc]) (by simp)
  | destroy hc => exact keeps_of_event rfl (by simp [schedule, Schedule.step, hs.working_of_idle hc]) (by simp)
  | postfork hc =>
    have hk : s.working = false := by rw [hs.working, hc]; rfl
    have hg : s.thread = .gone := hs.gone.mpr (by rw [hc]; rfl)
    exact keeps_of_event rfl (by simp [schedule, Schedule.step, Work.phase, hk, hg]) (by simp)
  | notify hc => exact keeps_of_eq rfl (by simp [schedule, Work.phase_notified])
  | notifyStop final hc => exact keeps_of_eq rfl (by simp [schedule, Work.phase_notified])
  | joined final hc he =>
    exact keeps_of_event rfl (by simp [schedule, Schedule.step, Work.phase, hs.exited he, he]) (by simp)
  | notJoinable final hc hg => exact keeps_of_eq rfl rfl
  | restart hc =>
    have hk : s.working = true := by rw [hs.working, hc]; rfl
    have hg : s.thread = .gone := hs.gone.mpr (by rw [hc]; rfl)
    exact keeps_of_event rfl (by simp [schedule, Schedule.step, Work.phase, hk, hg]) (by simp)
  | workerInit hw => exact keeps_of_event rfl (by simp [schedule, Schedule.step, Work.phase, hw]) (by simp)
  | stop hw hk =>
    have hp : s.thread.phase = Work.exited.phase := Work.phase_of_atLoop hw
    exact keeps_of_eq rfl (by simp only [schedule, hp])
  | pass hw hk hr =>
    have hp := Work.phase_of_atLoop hw
    exact keeps_of_event rfl (by simp only [schedule, Schedule.step, hp, hk, hr]; rfl) (by simp)
  | wait hw hk hr =>
    have hp : s.thread.phase = Work.waiting.phase := Work.phase_of_atLoop hw
    exact keeps_of_eq rfl (by simp only [schedule, hp])
  | sleep hw => exact keeps_of_event rfl (by simp [schedule, Schedule.step, Work.phase, hw]) (by simp)
  | snapshot hw => exact keeps_of_event rfl (by simp [schedule, Schedule.step, Work.phase, hw]) (by simp)
  | run task rest hw => exact keeps_of_event rfl (by simp [schedule, Schedule.step, Work.phase, hw]) (by simp)
  | wakeUp hw => exact keeps_of_eq rfl (by simp [schedule, Work.phase, hw])

theorem schedule_steps (hs : Inv s) (h : run step s as = some t) : Keeps s as t := by
  induction as generalizing s with
  | nil =>
    rw [run_nil, Option.some.injEq] at h
    exact h ▸ keeps_of_eq rfl rfl
  | cons a as ih =>
    rw [run_cons, Option.bind_eq_some_iff] at h
    obtain ⟨u, hu, h⟩ := h
    exact (schedule_step hs hu).trans (ih (inv_step hs hu) h)

/-- Whatever the order of the steps, what happens keeps to the schedule, and the executor is where the schedule is. -/
theorem schedule_of_run {tasks : List Task} (h : run step { periodicTasks := tasks } as = some s) :
    run Schedule.step { tasks } s.log = some s.schedule := by
  obtain ⟨es, hlog, hrun, -⟩ := schedule_steps (inv_start tasks) h
  rw [List.nil_append] at hlog
  rw [hlog]
  exact hrun

/-- The owner resumes before the thread is up; the thread makes a round and waits for the next. -/
theorem schedule_of_run_first_round :
    ∃ s, run step { periodicTasks := [7] } [.resumePeriodicTasks, .work, .proceed, .work, .work, .work, .work, .work] = some s ∧
      s.log = [.resumed, .workerInit, .passed, .slept 20, .round [7], .ran 7, .passed] ∧
      run Schedule.step { tasks := [7] } s.log = some s.schedule := by
  have h : (run step { periodicTasks := [7] }
      [.resumePeriodicTasks, .work, .proceed, .work, .work, .work, .work, .work]).isSome := rfl
  obtain ⟨s, hs⟩ := Option.isSome_iff_exists.mp h
  refine ⟨s, hs, ?_, schedule_of_run hs⟩
  exact congrArg log (Option.some.inj hs).symm

/-! ## After a suspension -/

omit [DecidableEq Task] in
def Event.isRound : Event Task → Bool
  | .round _ => true
  | _ => false

omit [DecidableEq Task] in
/-- A round is still to begin although nothing is resumed any more. -/
def Phase.owed : Phase Task → ℕ
  | .due | .asleep => 1
  | _ => 0

/-- A step of a suspended schedule begins a round only by paying for it with the one that was due. -/
theorem Schedule.owed_step {x y : Schedule Task} {e : Event Task} (hx : x.resumed = false) (he : e ≠ .resumed)
    (h : x.step e = some y) : y.resumed = false ∧ y.phase.owed + e.isRound.toNat ≤ x.phase.owed := by
  unfold Schedule.step at h
  split at h
  case h_3 => exact absurd rfl he
  case h_13 =>
    split at h
    · split_ifs at h
      obtain rfl := Option.some.inj h
      simp_all [Phase.owed, Event.isRound]
    · cases h
  all_goals
    split_ifs at h with hc
    obtain rfl := Option.some.inj h
    simp_all [Phase.owed, Event.isRound]

theorem Schedule.rounds_le {x y : Schedule Task} {es : List (Event Task)} (hx : x.resumed = false) (hes : .resumed ∉ es)
    (h : run Schedule.step x es = some y) : y.phase.owed + es.countP Event.isRound ≤ x.phase.owed := by
  induction es generalizing x with
  | nil =>
    rw [run_nil, Option.some.injEq] at h
    exact h ▸ Nat.le_refl _
  | cons e es ih =>
    rw [run_cons, Option.bind_eq_some_iff] at h
    obtain ⟨z, hz, h⟩ := h
    rw [List.mem_cons, not_or] at hes
    obtain ⟨hzr, hone⟩ := Schedule.owed_step hx (Ne.symm hes.1) hz
    have hrest := ih hzr hes.2 h
    rw [List.countP_cons]
    cases hr : e.isRound <;> simp [hr] at hone ⊢ <;> omega

/-- From a moment at which it is suspended until it is resumed, the executor begins at most the round that was due. -/
theorem rounds_while_suspended {tasks : List Task} {bs : List (Action Task)}
    (h : run step { periodicTasks := tasks } as = some s) (hs : s.resumed = false) (hbs : .resumePeriodicTasks ∉ bs)
    (ht : run step s bs = some t) :
    ∃ es, t.log = s.log ++ es ∧ t.thread.phase.owed + es.countP Event.isRound ≤ s.thread.phase.owed := by
  obtain ⟨es, hlog, hrun, hre⟩ := schedule_steps (inv_run h) ht
  exact ⟨es, hlog, Schedule.rounds_le hs (fun hmem => hbs (hre hmem)) hrun⟩

/-- It is suspended while the interval runs, and one round follows. -/
theorem rounds_while_suspended_in_sleep :
    ∃ s t, run step { periodicTasks := [7] } [.work, .resumePeriodicTasks, .proceed, .work, .work, .suspendPeriodicTasks] = some s ∧
      run step s [.proceed, .work, .work, .work] = some t ∧ s.thread.phase.owed = 1 ∧
      ∃ es, t.log = s.log ++ es ∧ t.thread.phase.owed + es.countP Event.isRound ≤ s.thread.phase.owed := by
  have h : (run step { periodicTasks := [7] } [.work, .resumePeriodicTasks, .proceed, .work, .work, .suspendPeriodicTasks]).isSome :=
    rfl
  obtain ⟨s, hs⟩ := Option.isSome_iff_exists.mp h
  have he := Option.some.inj hs
  have h' : (run step s [.proceed, .work, .work, .work]).isSome := by rw [← he]; rfl
  obtain ⟨t, ht⟩ := Option.isSome_iff_exists.mp h'
  exact ⟨s, t, hs, ht, by rw [← he]; rfl, rounds_while_suspended hs (by rw [← he]; rfl) (by simp) ht⟩

end Schedule

end PeriodicTaskExecutor

end OtelDistro.Util
