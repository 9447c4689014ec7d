import OtelDistro.Lifecycle.RequestScope
import OtelDistro.Util.PeriodicTaskExecutor

/-!
# OtelDistro.Lifecycle.SamplingThread — the requests of a worker and its sampling thread

`RequestScope` resumes and suspends the executor whose only task is `tryRequestInterrupt`; the executor is created when it is
first asked for.  The thread takes its steps at any time, the process may fork between two callbacks of the engine.

* `System`: the worker, the executor and the calls of the last callback that the executor has not had yet.
* `Agrees`: when it has had them it is resumed exactly when the requests say so.
* `parked_run`: between two requests it is suspended, and begins at most the round that was due.
-/

namespace OtelDistro.Lifecycle

open Lib Util

namespace SamplingThread

inductive Task
  | tryRequestInterrupt
deriving DecidableEq

abbrev Executor := PeriodicTaskExecutor Task

/-- `AgentGlobals::getPeriodicTaskExecutor` makes one. -/
def newExecutor : Executor := { periodicTasks := [.tryRequestInterrupt] }

/-- `todo` are calls of the last callback. -/
structure System where
  worker : Worker := {}
  executor : Option Executor := none
  todo : List Event := []

/-- The call on the executor. -/
def executorAction : Event → Option (PeriodicTaskExecutor.Action Task)
  | .executorSetInterval interval => some (.setInterval interval)
  | .resumePeriodicTasks => some .resumePeriodicTasks
  | .suspendPeriodicTasks => some .suspendPeriodicTasks
  | _ => none

/-- What the executor does by itself, and at a fork. -/
inductive OwnAction
  | proceed
  | work
  | spuriousWakeUp
  | prefork
  | postfork

def OwnAction.action : OwnAction → PeriodicTaskExecutor.Action Task
  | .proceed => .proceed
  | .work => .work
  | .spuriousWakeUp => .spuriousWakeUp
  | .prefork => .prefork
  | .postfork => .postfork

inductive Action
  | callback (a : Lifecycle.Action)
  /-- The next call of the callback. -/
  | call
  | executor (a : OwnAction)

/-- The owner of the executor is in none of its methods. -/
def System.free (s : System) : Bool := s.executor.all fun x => x.call = .idle

def step (s : System) : Action → Option System
  | .callback a =>
    if s.todo = [] ∧ s.free = true then
      (Lifecycle.step s.worker a).map fun w =>
        { s with worker := w
                 todo := (w.calls.drop s.worker.calls.length).filter fun e => (executorAction e).isSome }
    else none
  | .call =>
    match s.todo with
    | [] => none
    | e :: todo => (executorAction e).bind fun a =>
        ((s.executor.getD newExecutor).step a).map fun x => { s with executor := some x, todo }
  | .executor a => s.executor.bind fun x => (x.step a.action).map fun y => { s with executor := some y }

def System.resumed (s : System) : Bool := (s.executor.map PeriodicTaskExecutor.resumed).getD false

def System.log (s : System) : List (PeriodicTaskExecutor.Event Task) := (s.executor.map PeriodicTaskExecutor.log).getD []

/-- A round is due although the executor is suspended. -/
def System.owed (s : System) : ℕ := (s.executor.map fun x => x.thread.phase.owed).getD 0

/-! ## The calls of a callback -/

section Calls

variable {w w' : Worker} {a : Lifecycle.Action}

theorem executor_filter (es : List Event) (resumed : Bool) :
    (es.filter fun e => (executorAction e).isSome).foldl Event.executor resumed = es.foldl Event.executor resumed := by
  induction es generalizing resumed with
  | nil => rfl
  | cons e es ih =>
    rw [List.foldl_cons, List.filter_cons]
    split
    · rw [List.foldl_cons, ih]
    · next h =>
      rw [ih]
      congr 1
      cases e <;> first | rfl | exact absurd rfl h

theorem onRequestShutdown_calls (s : RequestScope) : ∃ es, s.onRequestShutdown.calls = s.calls ++ es := by
  unfold RequestScope.onRequestShutdown
  split_ifs
  · exact ⟨[], (List.append_nil _).symm⟩
  · exact ⟨[], (List.append_nil _).symm⟩
  · exact ⟨[.suspendPeriodicTasks, .callPHPSideExitPoint], List.append_assoc _ _ _⟩
  · exact ⟨[.callPHPSideExitPoint], rfl⟩

theorem calls_onRequestPostDeactivate (h : Lifecycle.step w .onRequestPostDeactivate = some w') :
    w'.calls = w.calls ++ [.guardOnRequestShutdown, .clearHooks] := by
  simp only [Lifecycle.step, Option.ite_none_right_eq_some, Option.some.injEq] at h
  obtain ⟨-, rfl⟩ := h
  rw [Worker.calls, Worker.calls, List.flatMap_append, List.flatMap_singleton, List.append_nil, List.append_assoc]
  congr 1
  exact List.append_assoc _ _ _

/-- A callback adds to the calls of all requests. -/
theorem calls_step (hI : Inv w) (h : Lifecycle.step w a = some w') : ∃ es, w'.calls = w.calls ++ es := by
  cases a with
  | onRequestInit answers =>
    simp only [Lifecycle.step, Option.ite_none_right_eq_some, Option.some.injEq] at h
    obtain ⟨hidle, rfl⟩ := h
    refine ⟨(w.scope.onRequestInit answers).calls, ?_⟩
    rw [Worker.calls, Worker.calls, (hI.idle hidle).2, List.append_nil]
  | onRequestShutdown =>
    simp only [Lifecycle.step, Option.ite_none_right_eq_some, Option.some.injEq] at h
    obtain ⟨-, rfl⟩ := h
    obtain ⟨es, hes⟩ := onRequestShutdown_calls w.scope
    exact ⟨es, by rw [Worker.calls, Worker.calls, hes, List.append_assoc]⟩
  | onRequestPostDeactivate => exact ⟨_, calls_onRequestPostDeactivate h⟩

/-- Between two requests nothing is resumed. -/
theorem executorResumed_of_not_started (hI : Inv w) (hp : w.phase ≠ .started) : w.executorResumed = false := by
  have hhistory : ∀ r ∈ w.history, Paired r.config r.calls := fun r hr => paired_of_controls (hI.history r hr)
  rw [Worker.executorResumed, Worker.calls, List.foldl_append, executor_history hhistory]
  cases hphase : w.phase with
  | idle => rw [(hI.idle hphase).2]; rfl
  | started => exact absurd hphase hp
  | shutDown =>
    obtain ⟨-, hc⟩ | ⟨-, hc⟩ := hI.shutDown hphase
    · exact (paired_of_controls (.inl hc) : Paired w.scope.config w.scope.calls).suspended
    · exact (paired_of_controls (.inr hc)).suspended

end Calls

/-! ## The executor follows the requests -/

structure Agrees (s : System) : Prop where
  worker : Inv s.worker
  executor : ∀ x ∈ s.executor, x.Inv
  /-- What it has had and what it is still to have. -/
  resumed : s.todo.foldl Event.executor s.resumed = s.worker.executorResumed

section Steps

variable {s t : System} {x y : Executor} {a : Action}

theorem newExecutor_inv : newExecutor.Inv := PeriodicTaskExecutor.inv_start _

/-- The thread and a fork leave alone what the owner has set. -/
theorem resumed_own {a : OwnAction} (h : x.step a.action = some y) : y.resumed = x.resumed := by
  cases a with
  | proceed =>
    cases PeriodicTaskExecutor.moves_of_step h <;> rfl
  | work =>
    cases PeriodicTaskExecutor.moves_of_step h <;> rfl
  | spuriousWakeUp =>
    cases PeriodicTaskExecutor.moves_of_step h
    rfl
  | prefork =>
    cases PeriodicTaskExecutor.moves_of_step h
    rfl
  | postfork =>
    cases PeriodicTaskExecutor.moves_of_step h
    rfl

theorem resumed_call {e : Event} {b : PeriodicTaskExecutor.Action Task} (hb : executorAction e = some b)
    (h : x.step b = some y) : y.resumed = e.executor x.resumed := by
  cases e with
  | executorSetInterval interval =>
    obtain rfl := Option.some.inj hb
    cases PeriodicTaskExecutor.moves_of_step h
    rfl
  | resumePeriodicTasks =>
    obtain rfl := Option.some.inj hb
    cases PeriodicTaskExecutor.moves_of_step h
    rfl
  | suspendPeriodicTasks =>
    obtain rfl := Option.some.inj hb
    cases PeriodicTaskExecutor.moves_of_step h
    rfl
  | _ => cases hb

theorem Agrees.getD (hs : Agrees s) : (s.executor.getD newExecutor).Inv := by
  cases hx : s.executor with
  | none => exact newExecutor_inv
  | some x => exact hs.executor x hx

theorem resumed_getD (s : System) : (s.executor.getD newExecutor).resumed = s.resumed := by
  rw [System.resumed]
  cases s.executor <;> rfl

theorem agrees_step (hs : Agrees s) (h : step s a = some t) : Agrees t := by
  cases a with
  | callback a =>
    simp only [step, Option.ite_none_right_eq_some, Option.map_eq_some_iff] at h
    obtain ⟨⟨htodo, -⟩, w, hw, rfl⟩ := h
    obtain ⟨es, hes⟩ := calls_step hs.worker hw
    refine ⟨inv_step hs.worker hw, hs.executor, ?_⟩
    have hold : s.resumed = s.worker.executorResumed := by simpa [htodo] using hs.resumed
    show (List.filter _ _).foldl Event.executor s.resumed = _
    rw [executor_filter, hes, List.drop_left, hold, Worker.executorResumed, Worker.executorResumed, hes, List.foldl_append]
  | call =>
    cases htodo : s.todo with
    | nil => simp [step, htodo] at h
    | cons e todo =>
      simp only [step, htodo, Option.bind_eq_some_iff, Option.map_eq_some_iff] at h
      obtain ⟨b, hb, y, hy, rfl⟩ := h
      refine ⟨hs.worker, fun z hz => ?_, ?_⟩
      · obtain rfl := Option.some.inj hz
        exact PeriodicTaskExecutor.inv_step hs.getD hy
      · have hnow := hs.resumed
        rw [htodo, List.foldl_cons] at hnow
        show todo.foldl Event.executor y.resumed = _
        rw [resumed_call hb hy, resumed_getD, hnow]
  | executor a =>
    simp only [step, Option.bind_eq_some_iff, Option.map_eq_some_iff] at h
    obtain ⟨x, hx, y, hy, rfl⟩ := h
    refine ⟨hs.worker, fun z hz => ?_, ?_⟩
    · obtain rfl := Option.some.inj hz
      exact PeriodicTaskExecutor.inv_step (hs.executor x hx) hy
    · have hnow := hs.resumed
      rw [System.resumed, hx] at hnow
      show s.todo.foldl Event.executor y.resumed = _
      rw [resumed_own hy]
      exact hnow

theorem agrees_run {as : List Action} (h : run step {} as = some s) : Agrees s := by
  refine run_invariant (fun _ _ _ hI hst => agrees_step hI hst) h ⟨?_, fun x hx => ?_, rfl⟩
  · exact inv_run (show run Lifecycle.step {} [] = some _ from rfl)
  · cases hx

/-! ## Between two requests -/

/-- The callbacks that do not begin a request. -/
def Action.betweenRequests : Action → Bool
  | .callback (.onRequestInit _) => false
  | _ => true

structure Parked (s : System) : Prop where
  agrees : Agrees s
  ended : s.worker.phase ≠ .started
  todo : s.todo = []

theorem Parked.resumed (h : Parked s) : s.resumed = false := by
  have hnow := h.agrees.resumed
  rw [h.todo, executorResumed_of_not_started h.agrees.worker h.ended] at hnow
  exact hnow

/-- A step of the executor, suspended, begins no round but the one that was due. -/
theorem parked_executor {a : OwnAction} (hI : x.Inv) (hr : x.resumed = false) (h : x.step a.action = some y) :
    ∃ es, y.log = x.log ++ es ∧
      y.thread.phase.owed + es.countP PeriodicTaskExecutor.Event.isRound ≤ x.thread.phase.owed := by
  obtain ⟨es, hlog, hrun, hre⟩ := PeriodicTaskExecutor.schedule_step hI h
  refine ⟨es, hlog, PeriodicTaskExecutor.Schedule.rounds_le hr (fun hmem => ?_) hrun⟩
  have hre := List.mem_singleton.mp (hre hmem)
  cases a <;> cases hre

theorem parked_step (hs : Parked s) (ha : a.betweenRequests = true) (h : step s a = some t) :
    Parked t ∧ ∃ es, t.log = s.log ++ es ∧ t.owed + es.countP PeriodicTaskExecutor.Event.isRound ≤ s.owed := by
  have ht := agrees_step hs.agrees h
  cases a with
  | callback a =>
    simp only [step, Option.ite_none_right_eq_some, Option.map_eq_some_iff] at h
    obtain ⟨-, w, hw, rfl⟩ := h
    cases a with
    | onRequestInit answers => cases ha
    | onRequestShutdown =>
      simp only [Lifecycle.step, Option.ite_none_right_eq_some, Option.some.injEq] at hw
      exact absurd hw.1 hs.ended
    | onRequestPostDeactivate =>
      have hcalls := calls_onRequestPostDeactivate hw
      have hidle : w.phase ≠ .started := by
        simp only [Lifecycle.step, Option.ite_none_right_eq_some, Option.some.injEq] at hw
        rw [← hw.2]
        simp
      refine ⟨⟨ht, hidle, ?_⟩, [], (List.append_nil _).symm, Nat.le_refl _⟩
      show List.filter _ (w.calls.drop s.worker.calls.length) = []
      rw [hcalls, List.drop_left]
      rfl
  | call => simp [step, hs.todo] at h
  | executor a =>
    simp only [step, Option.bind_eq_some_iff, Option.map_eq_some_iff] at h
    obtain ⟨x, hx, y, hy, rfl⟩ := h
    have hr : x.resumed = false := by
      have hr := hs.resumed
      rw [System.resumed, hx] at hr
      exact hr
    obtain ⟨es, hlog, hle⟩ := parked_executor (hs.agrees.executor x hx) hr hy
    refine ⟨⟨ht, hs.ended, hs.todo⟩, es, ?_, ?_⟩
    · show y.log = _
      rw [System.log, hx]
      exact hlog
    · show y.thread.phase.owed + _ ≤ _
      rw [System.owed, hx]
      exact hle

theorem parked_steps {as : List Action} (hs : Parked s) (has : ∀ a ∈ as, a.betweenRequests = true) (h : run step s as = some t) :
    Parked t ∧ ∃ es, t.log = s.log ++ es ∧ t.owed + es.countP PeriodicTaskExecutor.Event.isRound ≤ s.owed := by
  induction as generalizing s with
  | nil =>
    rw [run_nil, Option.some.injEq] at h
    exact h ▸ ⟨hs, [], (List.append_nil _).symm, Nat.le_refl _⟩
  | cons a as ih =>
    rw [run_cons, Option.bind_eq_some_iff] at h
    obtain ⟨u, hu, h⟩ := h
    rw [List.forall_mem_cons] at has
    obtain ⟨hpu, es, hes, hle⟩ := parked_step hs has.1 hu
    obtain ⟨hpt, fs, hfs, hle'⟩ := ih hpu has.2 h
    refine ⟨hpt, es ++ fs, by rw [hfs, hes, List.append_assoc], ?_⟩
    rw [List.countP_append]
    omega

/-- From the end of `onRequestShutdown` until the next request the executor is suspended, whatever its thread and the process
do, and of the rounds only the one that was due may still begin. -/
theorem parked_run {as bs : List Action} (h : run step {} as = some s) (hover : s.worker.phase ≠ .started) (htodo : s.todo = [])
    (hbs : ∀ a ∈ bs, a.betweenRequests = true) (ht : run step s bs = some t) :
    t.resumed = false ∧ ∃ es, t.log = s.log ++ es ∧ t.owed + es.countP PeriodicTaskExecutor.Event.isRound ≤ s.owed := by
  obtain ⟨hp, hrounds⟩ := parked_steps ⟨agrees_run h, hover, htodo⟩ hbs ht
  exact ⟨hp.resumed, hrounds⟩

/-- A request with inferred spans is over while its thread sleeps. -/
theorem parked_run_in_sleep :
    ∃ s t, run step {} [.callback (.onRequestInit { config := { inferred_spans_enabled := true } }), .call, .call,
        .executor .proceed, .executor .work, .executor .work, .executor .work, .callback .onRequestShutdown, .call] = some s ∧
      run step s [.executor .work, .executor .proceed, .callback .onRequestPostDeactivate, .executor .work, .executor .work] =
        some t ∧ s.owed = 1 ∧ t.resumed = false := by
  have hs : (run step {} [.callback (.onRequestInit { config := { inferred_spans_enabled := true } }), .call, .call,
      .executor .proceed, .executor .work, .executor .work, .executor .work, .callback .onRequestShutdown, .call]).isSome := by
    decide
  obtain ⟨s, hs⟩ := Option.isSome_iff_exists.mp hs
  have he := Option.some.inj hs
  have ht : (run step s [.executor .work, .executor .proceed, .callback .onRequestPostDeactivate, .executor .work,
      .executor .work]).isSome := by
    rw [← he]
    decide
  obtain ⟨t, ht⟩ := Option.isSome_iff_exists.mp ht
  refine ⟨s, t, hs, ht, by rw [← he]; rfl, (parked_run hs ?_ ?_ ?_ ht).1⟩
  · rw [← he]
    decide
  · rw [← he]
    rfl
  · decide

end Steps

end SamplingThread

end OtelDistro.Lifecycle
