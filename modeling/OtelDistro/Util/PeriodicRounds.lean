import OtelDistro.Util.PeriodicTaskExecutor

/-!
# OtelDistro.Util.PeriodicRounds — the executor gets on

* `Going`: it stays resumed.  `round_within`: the thread is never blocked, and a round is over after a bounded number of steps.
* `Stopping`: `prefork` or the destructor is on its way.  `stop_inevitable`: it returns, with no thread left.
-/

namespace OtelDistro.Util

open Lib

namespace PeriodicTaskExecutor

variable {Task : Type}

/-! ## While it is resumed -/

/-- The owner neither suspends nor stops the executor. -/
def Action.keepsGoing : Action Task → Bool
  | .suspendPeriodicTasks | .prefork | .destroy => false
  | _ => true

def Action.isWork : Action Task → Bool
  | .work => true
  | _ => false

def Action.isAddTask : Action Task → Bool
  | .addTask _ => true
  | _ => false

/-- The tasks that were called. -/
def Event.task? : Event Task → Option Task
  | .ran task => some task
  | _ => none

def called (es : List (Event Task)) : List Task := es.filterMap Event.task?

/-- What is left of the round. -/
def Work.toCall : Work Task → List Task
  | .running rest => rest
  | _ => []

/-- The steps of the thread until the next round begins. -/
def Work.untilRound : Work Task → ℕ
  | .starting => 4
  | .locking => 3
  | .passed => 2
  | .sleeping => 1
  | .running rest => rest.length + 3
  | .gone | .waiting | .exited => 0

/-- The rounds that have begun. -/
def begun (s : PeriodicTaskExecutor Task) : ℕ := s.log.countP Event.isRound

/-- The thread is not blocked, and will not be. -/
structure Going (s : PeriodicTaskExecutor Task) : Prop where
  inv : Inv s
  resumed : s.resumed = true
  call : s.call = .idle ∨ s.call = .notifying
  awake : s.thread ≠ .waiting

section Going

variable {s t u : PeriodicTaskExecutor Task} {a : Action Task} {as bs : List (Action Task)}

theorem Inv.going (hs : Inv s) (hc : s.call = .idle) (hr : s.resumed = true) : Going s where
  inv := hs
  resumed := hr
  call := .inl hc
  awake hw := by
    have hn := hs.notified hw (.inl hr)
    rw [hc] at hn
    cases hn

theorem Going.working (hs : Going s) : s.working = true := by
  rw [hs.inv.working]
  obtain hc | hc := hs.call <;> rw [hc] <;> rfl

theorem Going.ne_gone (hs : Going s) : s.thread ≠ .gone := by
  intro hg
  have ht := hs.inv.gone.mp hg
  obtain hc | hc := hs.call <;> rw [hc] at ht <;> cases ht

theorem Going.ne_exited (hs : Going s) : s.thread ≠ .exited := by
  intro he
  have hw := hs.inv.exited he
  rw [hs.working] at hw
  cases hw

theorem Going.work_isSome (hs : Going s) : (step s .work).isSome := step_work_isSome hs.ne_gone hs.awake hs.ne_exited

/-- Going on keeps to what the owner may be doing. -/
theorem going_step (hs : Going s) (hok : a.keepsGoing = true) (h : step s a = some t) : Going t := by
  have ht := inv_step hs.inv h
  have hcall : ∀ c, s.call = c → c = .idle ∨ c = .notifying := fun c hc => hc ▸ hs.call
  cases moves_of_step h with
  | addTask task hc => exact ⟨ht, hs.resumed, hs.call, hs.awake⟩
  | setInterval interval hc => exact ⟨ht, hs.resumed, hs.call, hs.awake⟩
  | resume hc => exact ⟨ht, rfl, .inr rfl, hs.awake⟩
  | suspend hc => cases hok
  | prefork hc => cases hok
  | destroy hc => cases hok
  | postfork hc => simpa using hcall _ hc
  | notify hc => exact ⟨ht, hs.resumed, .inl rfl, Work.notified_ne_waiting _⟩
  | notifyStop final hc => simpa using hcall _ hc
  | joined final hc he => simpa using hcall _ hc
  | notJoinable final hc hg => simpa using hcall _ hc
  | restart hc => simpa using hcall _ hc
  | workerInit hw => exact ⟨ht, hs.resumed, hs.call, by simp⟩
  | stop hw hk =>
    rw [hs.working] at hk
    cases hk
  | pass hw hk hr => exact ⟨ht, hs.resumed, hs.call, by simp⟩
  | wait hw hk hr =>
    rw [hs.resumed] at hr
    cases hr
  | sleep hw => exact ⟨ht, hs.resumed, hs.call, by simp⟩
  | snapshot hw => exact ⟨ht, hs.resumed, hs.call, by simp⟩
  | run task rest hw => exact ⟨ht, hs.resumed, hs.call, by simp⟩
  | wakeUp hw => exact absurd hw hs.awake

/-- Since `s` the tasks registered there have all been called, in order and one after the other. -/
def Done (s t : PeriodicTaskExecutor Task) : Prop := ∃ new, t.log = s.log ++ new ∧ s.periodicTasks <:+: called new

/-- Between `s` and the end of the first round that begins after it. -/
structure Within (s t : PeriodicTaskExecutor Task) : Prop where
  going : Going t
  tasks : s.periodicTasks <+: t.periodicTasks
  since : ∃ new, t.log = s.log ++ new ∧ (t.begun = s.begun ∨
    t.begun = s.begun + 1 ∧ (∃ before now, called new = before ++ now ∧ s.periodicTasks <+: now ++ t.thread.toCall) ∨
    s.periodicTasks <:+: called new)

/-- The steps of the thread until that round ends. -/
def remaining (s t : PeriodicTaskExecutor Task) : ℕ :=
  if t.begun = s.begun then t.thread.untilRound + t.periodicTasks.length
  else if t.begun = s.begun + 1 then t.thread.toCall.length else 0

theorem called_append (es fs : List (Event Task)) : called (es ++ fs) = called es ++ called fs := List.filterMap_append

theorem Done.extend {es : List (Event Task)} (hlog : u.log = t.log ++ es) (h : Done s t) : Done s u := by
  obtain ⟨new, hnew, before, after, hin⟩ := h
  refine ⟨new ++ es, by rw [hlog, hnew, List.append_assoc], before, after ++ called es, ?_⟩
  rw [called_append, ← hin]
  simp only [List.append_assoc]

theorem Within.done_of_toCall (h : Within s t) (hb : t.begun = s.begun + 1) (hn : t.thread.toCall = []) : Done s t := by
  obtain ⟨new, hnew, hsame | ⟨-, before, now, hcalled, after, hin⟩ | hdone⟩ := h.since
  · omega
  · rw [hn, List.append_nil] at hin
    exact ⟨new, hnew, before, after, by rw [hcalled, ← hin, List.append_assoc]⟩
  · exact ⟨new, hnew, hdone⟩

theorem Within.begun_or_done (h : Within s t) : t.begun = s.begun ∨ t.begun = s.begun + 1 ∨ Done s t := by
  obtain ⟨new, hnew, hsame | ⟨hnext, -⟩ | hdone⟩ := h.since
  · exact .inl hsame
  · exact .inr (.inl hnext)
  · exact .inr (.inr ⟨new, hnew, hdone⟩)

theorem begun_append {es : List (Event Task)} (hlog : u.log = t.log ++ es) : u.begun = t.begun + es.countP Event.isRound := by
  rw [begun, hlog, List.countP_append, begun]

theorem Going.untilRound_pos (h : Going t) : 0 < t.thread.untilRound := by
  have hg := h.ne_gone
  have hw := h.awake
  have he := h.ne_exited
  cases ht : t.thread <;> simp_all [Work.untilRound]

/-- Short of the end of the round there is something left. -/
theorem Within.remaining_pos (h : Within s t) (hnd : ¬ Done s t) : 0 < remaining s t := by
  obtain hsame | hnext | hdone := h.begun_or_done
  · have hpos := h.going.untilRound_pos
    rw [remaining, if_pos hsame]
    omega
  · have hcall : t.thread.toCall ≠ [] := fun hn => hnd (h.done_of_toCall hnext hn)
    rw [remaining, if_neg (by omega), if_pos hnext]
    exact List.length_pos_of_ne_nil hcall
  · exact absurd hdone hnd

/-- A step that neither begins a round nor calls a task. -/
theorem Within.quiet {es : List (Event Task)} (h : Within s t) (hu : Going u) (hlog : u.log = t.log ++ es)
    (hround : es.countP Event.isRound = 0) (hcalled : called es = []) (htasks : t.periodicTasks <+: u.periodicTasks)
    (hcall : u.thread.toCall = t.thread.toCall) (hwork : a.isWork = true → t.thread.toCall = [])
    (hrank : u.thread.untilRound + u.periodicTasks.length + a.isWork.toNat ≤
      t.thread.untilRound + t.periodicTasks.length + a.isAddTask.toNat) :
    Within s u ∧ (Done s t → Done s u) ∧
      (¬ Done s u → remaining s u + a.isWork.toNat ≤ remaining s t + a.isAddTask.toNat) := by
  have hb : u.begun = t.begun := by rw [begun_append hlog, hround, Nat.add_zero]
  refine ⟨⟨hu, h.tasks.trans htasks, ?_⟩, Done.extend hlog, fun hnd => ?_⟩
  · obtain ⟨new, hnew, hor⟩ := h.since
    refine ⟨new ++ es, by rw [hlog, hnew, List.append_assoc], ?_⟩
    rw [called_append, hcalled, List.append_nil, hb, hcall]
    exact hor
  · obtain hsame | hnext | hdone := h.begun_or_done
    · simpa [remaining, hb, hsame] using hrank
    · have hnw : a.isWork = false := by
        by_contra hw
        exact hnd (Done.extend hlog (h.done_of_toCall hnext (hwork (by simpa using hw))))
      simp [remaining, hb, hnext, hcall, hnw]
    · exact absurd (Done.extend hlog hdone) hnd

/-- The step that begins a round. -/
theorem Within.snapshot (h : Within s t) (hu : Going u) (hw : t.thread = .sleeping)
    (he : u = { t with thread := .running t.periodicTasks }.emit (.round t.periodicTasks)) :
    Within s u ∧ (Done s t → Done s u) ∧ (¬ Done s u → remaining s u + 1 ≤ remaining s t) := by
  have hlog : u.log = t.log ++ [.round t.periodicTasks] := by rw [he]; rfl
  have hthread : u.thread = .running t.periodicTasks := by rw [he]; rfl
  have hb : u.begun = t.begun + 1 := begun_append hlog
  have htasks : u.periodicTasks = t.periodicTasks := by rw [he]; rfl
  refine ⟨⟨hu, htasks ▸ h.tasks, ?_⟩, Done.extend hlog, fun hnd => ?_⟩
  · obtain ⟨new, hnew, hsame | ⟨hnext, -⟩ | hdone⟩ := h.since
    · refine ⟨new ++ [.round t.periodicTasks], by rw [hlog, hnew, List.append_assoc], .inr (.inl ⟨by omega, called new, [], ?_, ?_⟩)⟩
      · rw [called_append]; rfl
      · rw [hthread]; exact h.tasks
    · -- the round before this one is over
      obtain ⟨new', hnew', hin⟩ := Done.extend hlog (h.done_of_toCall hnext (by rw [hw]; rfl))
      exact ⟨new', hnew', .inr (.inr hin)⟩
    · obtain ⟨new', hnew', hin⟩ := Done.extend hlog ⟨new, hnew, hdone⟩
      exact ⟨new', hnew', .inr (.inr hin)⟩
  · obtain hsame | hnext | hdone := h.begun_or_done
    · rw [remaining, if_neg (by omega), if_pos (by omega), remaining, if_pos hsame, hthread, hw]
      show t.periodicTasks.length + 1 ≤ 1 + t.periodicTasks.length
      omega
    · exact absurd (Done.extend hlog (h.done_of_toCall hnext (by rw [hw]; rfl))) hnd
    · exact absurd (Done.extend hlog hdone) hnd

/-- The step that calls a task. -/
theorem Within.call {task : Task} {rest : List Task} (h : Within s t) (hu : Going u) (hw : t.thread = .running (task :: rest))
    (he : u = { t with thread := .running rest }.emit (.ran task)) :
    Within s u ∧ (Done s t → Done s u) ∧ (¬ Done s u → remaining s u + 1 ≤ remaining s t) := by
  have hlog : u.log = t.log ++ [.ran task] := by rw [he]; rfl
  have hthread : u.thread = .running rest := by rw [he]; rfl
  have hb : u.begun = t.begun := begun_append hlog
  have htasks : u.periodicTasks = t.periodicTasks := by rw [he]; rfl
  refine ⟨⟨hu, htasks ▸ h.tasks, ?_⟩, Done.extend hlog, fun hnd => ?_⟩
  · obtain ⟨new, hnew, hsame | ⟨hnext, before, now, hcalled, hpre⟩ | hdone⟩ := h.since
    · exact ⟨new ++ [.ran task], by rw [hlog, hnew, List.append_assoc], .inl (by rw [hb, hsame])⟩
    · refine ⟨new ++ [.ran task], by rw [hlog, hnew, List.append_assoc], .inr (.inl ⟨by rw [hb, hnext], before, now ++ [task], ?_, ?_⟩)⟩
      · rw [called_append, hcalled, List.append_assoc]; rfl
      · rw [hw] at hpre
        rw [hthread]
        simpa [Work.toCall] using hpre
    · obtain ⟨new', hnew', hin⟩ := Done.extend hlog ⟨new, hnew, hdone⟩
      exact ⟨new', hnew', .inr (.inr hin)⟩
  · obtain hsame | hnext | hdone := h.begun_or_done
    · rw [remaining, if_pos (by omega), remaining, if_pos hsame, hthread, hw, htasks]
      show rest.length + 3 + t.periodicTasks.length + 1 ≤ rest.length + 1 + 3 + t.periodicTasks.length
      omega
    · simp [remaining, hb, hnext, hthread, hw, Work.toCall]
    · exact absurd (Done.extend hlog hdone) hnd

theorem within_step (h : Within s t) (hok : a.keepsGoing = true) (hst : step t a = some u) :
    Within s u ∧ (Done s t → Done s u) ∧
      (¬ Done s u → remaining s u + a.isWork.toNat ≤ remaining s t + a.isAddTask.toNat) := by
  have hu := going_step h.going hok hst
  cases moves_of_step hst with
  | addTask task hc =>
    refine h.quiet hu rfl rfl rfl (List.prefix_append _ _) rfl (by simp [Action.isWork]) ?_
    show t.thread.untilRound + (t.periodicTasks ++ [task]).length + 0 ≤ t.thread.untilRound + t.periodicTasks.length + 1
    rw [List.length_append, List.length_singleton]
    omega
  | setInterval interval hc => exact h.quiet hu rfl rfl rfl (List.prefix_refl _) rfl (by simp [Action.isWork]) (Nat.le_refl _)
  | resume hc => exact h.quiet hu rfl rfl rfl (List.prefix_refl _) rfl (by simp [Action.isWork]) (Nat.le_refl _)
  | suspend hc => cases hok
  | prefork hc => cases hok
  | destroy hc => cases hok
  | postfork hc => exact absurd (h.going.call) (by simp [hc])
  | notify hc =>
    have hn : t.thread.notified = t.thread := by
      cases hw : t.thread <;> first | rfl | exact absurd hw h.going.awake
    exact h.quiet hu (List.append_nil _).symm rfl rfl (List.prefix_refl _) (by rw [notifyAll_thread, hn])
      (by simp [Action.isWork]) (by simp [hn, Action.isWork])
  | notifyStop final hc => exact absurd (h.going.call) (by simp [hc])
  | joined final hc he => exact absurd (h.going.call) (by simp [hc])
  | notJoinable final hc hg => exact absurd (h.going.call) (by simp [hc])
  | restart hc => exact absurd (h.going.call) (by simp [hc])
  | workerInit hw =>
    refine h.quiet hu rfl rfl rfl (List.prefix_refl _) (by rw [hw]; rfl) (fun _ => by rw [hw]; rfl) ?_
    rw [hw]
    show 3 + t.periodicTasks.length + 1 ≤ 4 + t.periodicTasks.length + 0
    omega
  | stop hw hk => exact absurd hk (by simp [h.going.working])
  | pass hw hk hr =>
    obtain hl | hl := Work.atLoop_cases hw <;>
    · refine h.quiet hu rfl rfl rfl (List.prefix_refl _) (by rw [hl]; rfl) (fun _ => by rw [hl]; rfl) ?_
      rw [hl]
      show 2 + t.periodicTasks.length + 1 ≤ 3 + t.periodicTasks.length + 0
      omega
  | wait hw hk hr => exact absurd hr (by simp [h.going.resumed])
  | sleep hw =>
    refine h.quiet hu rfl rfl rfl (List.prefix_refl _) (by rw [hw]; rfl) (fun _ => by rw [hw]; rfl) ?_
    rw [hw]
    show 1 + t.periodicTasks.length + 1 ≤ 2 + t.periodicTasks.length + 0
    omega
  | snapshot hw => exact h.snapshot hu hw rfl
  | run task rest hw => exact h.call hu hw rfl
  | wakeUp hw => exact absurd hw h.going.awake

/-- While it stays resumed the thread is never blocked, and a whole round of the tasks that are registered now is over before the
thread has made more steps than are left of the last round, of the way to the next one and of that one. -/
theorem round_within {tasks : List Task} (h : run step { periodicTasks := tasks } as = some s) (hc : s.call = .idle)
    (hr : s.resumed = true) (ht : Path step (fun _ a => a.keepsGoing = true) s bs t) :
    (step t .work).isSome ∧
      (s.thread.untilRound + s.periodicTasks.length + bs.countP Action.isAddTask ≤ bs.countP Action.isWork → Done s t) := by
  have hs : Within s s := ⟨(inv_run h).going hc hr, List.prefix_refl _, [], (List.append_nil _).symm, .inl rfl⟩
  obtain ⟨hw, -, hrank⟩ := ht.potential (fun _ _ _ hI hok hst => within_step hI hok hst) hs
  refine ⟨hw.going.work_isSome, fun hle => ?_⟩
  by_contra hnd
  have hpos := hw.remaining_pos hnd
  have hlt := hrank hnd
  rw [show remaining s s = s.thread.untilRound + s.periodicTasks.length from if_pos rfl] at hlt
  omega

/-- A task that is added on the way is called in the same round. -/
theorem round_within_first :
    ∃ s t, run step { periodicTasks := [7] } [.work, .work, .resumePeriodicTasks, .proceed] = some s ∧
      run step s [.work, .addTask 8, .work, .work, .work, .work] = some t ∧ (step t .work).isSome ∧ Done s t := by
  have h : (run step { periodicTasks := [7] } [.work, .work, .resumePeriodicTasks, .proceed]).isSome := rfl
  obtain ⟨s, hs⟩ := Option.isSome_iff_exists.mp h
  have he := Option.some.inj hs
  have h' : (run step s [.work, .addTask 8, .work, .work, .work, .work]).isSome := by rw [← he]; rfl
  obtain ⟨t, ht⟩ := Option.isSome_iff_exists.mp h'
  obtain ⟨hsome, hdone⟩ := round_within hs (by rw [← he]) (by rw [← he]; rfl) (path_of_run ht (by decide))
  refine ⟨s, t, hs, ht, hsome, hdone ?_⟩
  rw [← he]
  decide

end Going

/-! ## Stopping -/

/-- The steps of the thread until it ends, with `working_` cleared. -/
def Work.untilExit (tasks : List Task) : Work Task → ℕ
  | .gone | .exited => 0
  | .locking => 1
  | .starting | .waiting => 2
  | .running rest => rest.length + 1
  | .sleeping => tasks.length + 2
  | .passed => tasks.length + 3

/-- What `prefork` and the destructor keep, since `s`. -/
structure Kept (s t : PeriodicTaskExecutor Task) : Prop where
  inv : Inv t
  tasks : t.periodicTasks = s.periodicTasks
  interval : t.sleepInterval = s.sleepInterval
  resumed : t.resumed = s.resumed
  rounds : ∃ es, t.log = s.log ++ es ∧ t.thread.phase.owed + es.countP Event.isRound ≤ s.thread.phase.owed

/-- `prefork` (`final = false`) or the destructor has returned. -/
def Stopped (final : Bool) (t : PeriodicTaskExecutor Task) : Prop :=
  t.thread = .gone ∧ t.call = if final then .destroyed else .forking

/-- One of them is on its way. -/
def Stopping (final : Bool) (t : PeriodicTaskExecutor Task) : Prop := t.call = .stopping final ∨ t.call = .joining final

/-- The steps of the owner until the call returns. -/
def Call.untilReturn : Call → ℕ
  | .stopping _ => 2
  | .joining _ => 1
  | _ => 0

def stopRank (t : PeriodicTaskExecutor Task) : ℕ := t.thread.untilExit t.periodicTasks + t.call.untilReturn

section Stopping

variable {s t u : PeriodicTaskExecutor Task} {a : Action Task} {as : List (Action Task)} {final : Bool}

theorem Kept.refl (h : Inv s) : Kept s s := ⟨h, rfl, rfl, rfl, [], (List.append_nil _).symm, Nat.le_refl _⟩

theorem Kept.trans (h : Kept s t) (h' : Kept t u) : Kept s u := by
  obtain ⟨es, hes, hle⟩ := h.rounds
  obtain ⟨fs, hfs, hle'⟩ := h'.rounds
  refine ⟨h'.inv, h'.tasks.trans h.tasks, h'.interval.trans h.interval, h'.resumed.trans h.resumed, es ++ fs,
    by rw [hfs, hes, List.append_assoc], ?_⟩
  rw [List.countP_append]
  omega

theorem Stopping.working (h : Stopping final t) (hI : Inv t) : t.working = false := by
  rw [hI.working]
  obtain hc | hc := h <;> rw [hc] <;> rfl

theorem Stopping.not_idle (h : Stopping final t) : t.call ≠ .idle := by
  obtain hc | hc := h <;> rw [hc] <;> simp

/-- A step of the thread on the way. -/
theorem Stopping.thread (hs : Stopping final t) (hu : Inv u) {es : List (Event Task)} (hlog : u.log = t.log ++ es)
    (htasks : u.periodicTasks = t.periodicTasks) (hinterval : u.sleepInterval = t.sleepInterval) (hresumed : u.resumed = t.resumed)
    (hcall : u.call = t.call) (howed : u.thread.phase.owed + es.countP Event.isRound ≤ t.thread.phase.owed)
    (hrank : u.thread.untilExit t.periodicTasks < t.thread.untilExit t.periodicTasks) :
    Kept t u ∧ (Stopped final u ∨ Stopping final u) ∧ stopRank u < stopRank t := by
  refine ⟨⟨hu, htasks, hinterval, hresumed, es, hlog, howed⟩, .inr ?_, ?_⟩
  · rwa [Stopping, hcall]
  · rw [stopRank, stopRank, htasks, hcall]
    omega

/-- Every step on the way keeps the executor's data and comes nearer to the end. -/
theorem stopping_step (hI : Inv t) (hs : Stopping final t) (hst : step t a = some u) :
    Kept t u ∧ (Stopped final u ∨ Stopping final u) ∧ stopRank u < stopRank t := by
  have hu := inv_step hI hst
  have hidle := hs.not_idle
  have hk := hs.working hI
  cases moves_of_step hst with
  | addTask task hc => exact absurd hc hidle
  | setInterval interval hc => exact absurd hc hidle
  | resume hc => exact absurd hc hidle
  | suspend hc => exact absurd hc hidle
  | prefork hc => exact absurd hc hidle
  | destroy hc => exact absurd hc hidle
  | postfork hc => exact absurd hs (by simp [Stopping, hc])
  | notify hc => exact absurd hs (by simp [Stopping, hc])
  | notifyStop f hc =>
    have hf : f = final := by simpa [Stopping, hc] using hs
    have hle : t.thread.notified.untilExit t.periodicTasks ≤ t.thread.untilExit t.periodicTasks := by
      cases t.thread <;> simp [Work.notified, Work.untilExit]
    refine ⟨⟨hu, rfl, rfl, rfl, [], (List.append_nil _).symm, ?_⟩, .inr (.inr (hf ▸ rfl)), ?_⟩
    · simp [Work.phase_notified]
    · simp only [stopRank, hc, Call.untilReturn, notifyAll_thread, notifyAll_tasks]
      omega
  | joined f hc he =>
    have hf : f = final := by simpa [Stopping, hc] using hs
    refine ⟨⟨hu, rfl, rfl, rfl, [.joined], rfl, by simp [Work.phase, Phase.owed, Event.isRound]⟩, .inl ⟨rfl, hf ▸ rfl⟩, ?_⟩
    cases f <;> simp [stopRank, hc, Call.untilReturn, he, Work.untilExit]
  | notJoinable f hc hg =>
    have hf : f = final := by simpa [Stopping, hc] using hs
    refine ⟨⟨hu, rfl, rfl, rfl, [], (List.append_nil _).symm, Nat.le_refl _⟩, .inl ⟨hg, hf ▸ rfl⟩, ?_⟩
    cases f <;> simp [stopRank, hc, Call.untilReturn, hg, Work.untilExit]
  | restart hc => exact absurd hs (by simp [Stopping, hc])
  | workerInit hw =>
    exact hs.thread hu rfl rfl rfl rfl rfl (by simp [hw, Work.phase, Phase.owed, Event.isRound]) (by simp [hw, Work.untilExit])
  | stop hw hk' =>
    obtain hl | hl := Work.atLoop_cases hw <;>
      exact hs.thread hu (List.append_nil _).symm rfl rfl rfl rfl (by simp [Work.phase, Phase.owed]) (by simp [hl, Work.untilExit])
  | pass hw hk' hr => simp [hk] at hk'
  | wait hw hk' hr => simp [hk] at hk'
  | sleep hw =>
    exact hs.thread hu rfl rfl rfl rfl rfl (by simp [hw, Work.phase, Phase.owed, Event.isRound]) (by simp [hw, Work.untilExit])
  | snapshot hw =>
    exact hs.thread hu rfl rfl rfl rfl rfl (by simp [hw, Work.phase, Phase.owed, Event.isRound]) (by simp [hw, Work.untilExit])
  | run task rest hw =>
    exact hs.thread hu rfl rfl rfl rfl rfl (by simp [hw, Work.phase, Phase.owed, Event.isRound]) (by simp [hw, Work.untilExit])
  | wakeUp hw =>
    exact hs.thread hu (List.append_nil _).symm rfl rfl rfl rfl (by simp [hw, Work.phase, Phase.owed]) (by simp [hw, Work.untilExit])

/-- Somebody can always go on: no thread waits for a notification that does not come. -/
theorem stopping_go (hI : Inv t) (hs : Stopping final t) : ∃ a u, step t a = some u := by
  obtain hc | hc := hs
  · exact ⟨.proceed, _, by simp only [step, proceed, hc]; rfl⟩
  · have hk : t.working = false := (show Stopping final t from .inr hc).working hI
    have hg : t.thread ≠ .gone := fun hg => by simpa [hc, Call.threadless] using hI.gone.mp hg
    have hw : t.thread ≠ .waiting := fun hw => by simpa [hc, Call.willNotify] using hI.notified hw (.inr hk)
    by_cases he : t.thread = .exited
    · exact ⟨.proceed, _, by simp only [step, proceed, hc, join, he]; rfl⟩
    · exact ⟨.work, Option.isSome_iff_exists.mp (step_work_isSome hg hw he)⟩

/-- `prefork` and the destructor return, whichever steps the threads take: the thread is joined, the registered tasks, the interval
and whether they are resumed are as they were, and no round begins but the one that was due. -/
theorem stop_inevitable {tasks : List Task} (h : run step { periodicTasks := tasks } as = some s) (hs : Stopping final s) :
    Inevitable step (fun _ _ => True) (fun t => Kept s t ∧ Stopped final t) s := by
  refine inevitable_of_rank (I := fun t => Kept s t ∧ (Stopped final t ∨ Stopping final t)) stopRank ?_ ?_
    ⟨.refl (inv_run h), .inr hs⟩
  · rintro t ⟨hk, hd | hs⟩ hng
    · exact absurd ⟨hk, hd⟩ hng
    · obtain ⟨a, u, hu⟩ := stopping_go hk.inv hs
      exact ⟨a, u, trivial, hu⟩
  · rintro t a u ⟨hk, hd | hs⟩ hng - hu
    · exact absurd ⟨hk, hd⟩ hng
    · obtain ⟨hk', hor, hlt⟩ := stopping_step hk.inv hs hu
      exact ⟨⟨hk.trans hk', hor⟩, hlt⟩

/-- `prefork` is called while the thread waits. -/
theorem stop_inevitable_of_prefork :
    ∃ s, run step { periodicTasks := [7] } [.work, .work, .prefork] = some s ∧ s.thread = .waiting ∧
      Inevitable step (fun _ _ => True) (fun t => Kept s t ∧ Stopped false t) s := by
  have h : (run step { periodicTasks := [7] } [.work, .work, .prefork]).isSome := rfl
  obtain ⟨s, hs⟩ := Option.isSome_iff_exists.mp h
  have he := Option.some.inj hs
  exact ⟨s, hs, by rw [← he]; rfl, stop_inevitable hs (.inl (by rw [← he]; rfl))⟩

end Stopping

end PeriodicTaskExecutor

end OtelDistro.Util
