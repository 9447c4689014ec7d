import Mathlib.Data.List.Perm.Subperm
import OtelDistro.Transport.FlushOnDestruction

/-!
# OtelDistro.Transport.AttemptOrder — payloads through the queue, in a family of processes

A process forks between `prefork` and `postfork`; the child has a copy of the transport and drops the queue.  A family is a
process and those that descend from it by `fork`.

* `taken_step`: a step of a transport takes payloads from the end of the queue only, and adds to it what is enqueued.
* `attempts_in_family`: whatever the processes do, what one of them attempts was enqueued in that order, and together they attempt
  no payload more often than it was enqueued.
-/

namespace OtelDistro.Transport

open Lib

/-! ## One process -/

/-- The payload of an `enqueue`. -/
def Action.enqueued : Action → List Payload
  | .enqueue _ p => [p]
  | _ => []

section One

variable {s t : HttpTransportAsync} {a : Action}

theorem taken_of_idle (hs : s.thread.inFlight = []) : s.taken = s.attempted ++ s.payloadsToSend.items := by
  rw [HttpTransportAsync.taken, hs, List.append_nil]

theorem taken_wait (s : HttpTransportAsync) : s.wait.taken = s.attempted ++ s.payloadsToSend.items := by
  unfold HttpTransportAsync.wait
  split_ifs
  · exact taken_of_idle rfl
  · exact taken_of_idle rfl
  · exact (sends_sendNext s).taken

theorem taken_asyncSender (s : HttpTransportAsync) : s.asyncSender.taken = s.attempted ++ s.payloadsToSend.items := by
  unfold HttpTransportAsync.asyncSender
  split_ifs
  · exact taken_wait s
  · exact taken_of_idle rfl

/-- The sender thread moves payloads on, and loses none. -/
theorem taken_senderStep {timedOut : Bool} (h : s.senderStep timedOut = some t) : t.taken = s.taken := by
  unfold HttpTransportAsync.senderStep at h
  cases hthread : s.thread with
  | absent => simp [hthread] at h
  | exited => simp [hthread] at h
  | created =>
    simp only [hthread, Option.some.injEq] at h
    rw [← h, taken_asyncSender, taken_of_idle (by rw [hthread]; rfl)]
  | waiting =>
    simp only [hthread, Option.some.injEq] at h
    rw [← h, taken_wait, taken_of_idle (by rw [hthread]; rfl)]
  | sending p =>
    have htaken : s.taken = (s.attempted ++ [p]) ++ s.payloadsToSend.items := by
      rw [HttpTransportAsync.taken, hthread]
      rfl
    simp only [hthread] at h
    split_ifs at h
    · rw [← Option.some.inj h, taken_asyncSender, htaken]
    · rw [← Option.some.inj h, (sends_sendNext _).taken, htaken]

theorem inFlight_startThread (s : HttpTransportAsync) : s.startThread.thread.inFlight = s.thread.inFlight := by
  cases h : s.thread <;> simp [HttpTransportAsync.startThread, h, SenderThread.inFlight]

theorem taken_startThread (s : HttpTransportAsync) : s.startThread.taken = s.taken := by
  rw [HttpTransportAsync.taken, HttpTransportAsync.taken, inFlight_startThread]
  rfl

/-- `join` returns when there is no thread, or none any more. -/
theorem join_cases {final : Bool} (h : s.join final = some t) : s.thread.inFlight = [] ∧
    t = { s with thread := .absent, owner := if final then .destroyed else .forking } := by
  unfold HttpTransportAsync.join at h
  cases hthread : s.thread with
  | absent => exact ⟨rfl, by simpa only [hthread, Option.some.injEq] using h.symm⟩
  | exited => exact ⟨rfl, by simpa only [hthread, Option.some.injEq] using h.symm⟩
  | created => simp [hthread] at h
  | waiting => simp [hthread] at h
  | sending p => simp [hthread] at h

theorem join_of_step (h : step s .join = some t) : ∃ final, s.join final = some t := by
  cases howner : s.owner with
  | joining final => exact ⟨final, by simpa only [step, howner] using h⟩
  | running => simp [step, howner] at h
  | forking => simp [step, howner] at h
  | destructing => simp [step, howner] at h
  | destroyed => simp [step, howner] at h

theorem taken_join {final : Bool} (h : s.join final = some t) : t.taken = s.taken := by
  obtain ⟨hnone, rfl⟩ := join_cases h
  rw [HttpTransportAsync.taken, HttpTransportAsync.taken, hnone]
  rfl

/-- A step keeps the order, and adds at the end what is enqueued. -/
theorem taken_step (h : step s a = some t) : t.taken.Sublist (s.taken ++ a.enqueued) := by
  have hsame : t.taken = s.taken → t.taken.Sublist (s.taken ++ a.enqueued) := fun he =>
    he ▸ List.sublist_append_left _ _
  cases a with
  | initializeConnection added =>
    simp only [step, Option.ite_none_right_eq_some, Option.some.injEq] at h
    obtain ⟨-, rfl⟩ := h
    cases added
    · exact hsame rfl
    · exact hsame (taken_startThread s)
  | enqueue max p =>
    simp only [step, Option.ite_none_left_eq_some, Option.some.injEq] at h
    obtain ⟨-, rfl⟩ := h
    obtain ⟨hthread, -, -, -, hattempted⟩ := enqueue_frame s max p
    rw [HttpTransportAsync.taken, hthread, hattempted, accepted_items, ← List.append_assoc]
    refine List.Sublist.append (List.Sublist.refl _) ?_
    unfold HttpTransportAsync.accepted
    split_ifs
    · exact List.nil_sublist _
    · exact List.Sublist.refl _
    · exact List.nil_sublist _
  | sender timedOut => exact hsame (taken_senderStep h)
  | prefork =>
    simp only [step, Option.ite_none_right_eq_some, Option.some.injEq] at h
    exact hsame (h.2 ▸ rfl)
  | destruct =>
    simp only [step, Option.ite_none_right_eq_some, Option.some.injEq] at h
    exact hsame (h.2 ▸ rfl)
  | shutdown =>
    simp only [step, Option.ite_none_right_eq_some, Option.some.injEq] at h
    exact hsame (h.2 ▸ rfl)
  | join =>
    obtain ⟨final, h⟩ := join_of_step h
    exact hsame (taken_join h)
  | postfork child =>
    simp only [step, Option.ite_none_right_eq_some, Option.some.injEq] at h
    obtain ⟨-, rfl⟩ := h
    cases child
    · exact hsame (taken_startThread _)
    · show (HttpTransportAsync.startThread _).taken.Sublist _
      rw [taken_startThread]
      exact (List.Sublist.append (List.Sublist.refl _) (List.nil_sublist _)).trans (List.sublist_append_left _ _)

/-- So does a run. -/
theorem taken_run {as : List Action} (h : run step s as = some t) : t.taken.Sublist (s.taken ++ as.flatMap Action.enqueued) := by
  induction as generalizing s with
  | nil =>
    rw [← Option.some.inj h]
    exact List.sublist_append_left _ _
  | cons a as ih =>
    rw [run_cons, Option.bind_eq_some_iff] at h
    obtain ⟨u, hu, h⟩ := h
    rw [List.flatMap_cons, ← List.append_assoc]
    exact (ih h).trans ((taken_step hu).append (List.Sublist.refl _))

end One

/-! ## The family -/

/-- `enqueued` records what was enqueued in any of the processes. -/
structure Family where
  processes : List HttpTransportAsync := [{}]
  enqueued : List Payload := []

/-- `fork i` is the `fork` of process `i` up to the end of `postfork` in the child; the parent has its `postfork` to come. -/
inductive FamilyAction
  | inProcess (i : ℕ) (a : Action)
  | fork (i : ℕ)

/-- The child, with nothing attempted yet. -/
def HttpTransportAsync.child (s : HttpTransportAsync) : HttpTransportAsync := { s.postfork true with attempted := [] }

def Family.step (f : Family) : FamilyAction → Option Family
  | .inProcess i a =>
    (f.processes[i]?).bind fun s =>
      (Transport.step s a).map fun t => ⟨f.processes.set i t, f.enqueued ++ a.enqueued⟩
  | .fork i =>
    (f.processes[i]?).bind fun s =>
      if s.owner = .forking then some { f with processes := f.processes ++ [s.child] } else none

/-- No thread of a process survives into a fork. -/
def HttpTransportAsync.Joined (s : HttpTransportAsync) : Prop := s.owner = .forking → s.thread = .absent

structure Family.Inv (f : Family) : Prop where
  joined : ∀ s ∈ f.processes, s.Joined
  order : ∀ s ∈ f.processes, s.taken.Sublist f.enqueued
  once : (f.processes.flatMap HttpTransportAsync.taken).Subperm f.enqueued

section Many

variable {f g : Family} {s t : HttpTransportAsync} {i : ℕ}

theorem owner_wait (s : HttpTransportAsync) : s.wait.owner = s.owner := by
  unfold HttpTransportAsync.wait
  split_ifs
  · rfl
  · rfl
  · exact (sends_sendNext s).owner

theorem owner_asyncSender (s : HttpTransportAsync) : s.asyncSender.owner = s.owner := by
  unfold HttpTransportAsync.asyncSender
  split_ifs
  · exact owner_wait s
  · rfl

theorem owner_senderStep {timedOut : Bool} (h : s.senderStep timedOut = some t) : t.owner = s.owner := by
  unfold HttpTransportAsync.senderStep at h
  cases hthread : s.thread with
  | absent => simp [hthread] at h
  | exited => simp [hthread] at h
  | created =>
    simp only [hthread, Option.some.injEq] at h
    rw [← h, owner_asyncSender]
  | waiting =>
    simp only [hthread, Option.some.injEq] at h
    rw [← h, owner_wait]
  | sending p =>
    simp only [hthread] at h
    split_ifs at h
    · rw [← Option.some.inj h, owner_asyncSender]
    · rw [← Option.some.inj h, (sends_sendNext _).owner]

theorem joined_join {final : Bool} (h : s.join final = some t) : t.Joined := by
  obtain ⟨-, rfl⟩ := join_cases h
  exact fun _ => rfl

theorem joined_step {a : Action} (hs : s.Joined) (h : Transport.step s a = some t) : t.Joined := by
  cases a with
  | initializeConnection added =>
    simp only [Transport.step, Option.ite_none_right_eq_some, Option.some.injEq] at h
    obtain ⟨hrun, rfl⟩ := h
    intro hf
    cases added <;> simp [HttpTransportAsync.startThread, hrun] at hf
  | enqueue max p =>
    simp only [Transport.step, Option.ite_none_left_eq_some, Option.some.injEq] at h
    obtain ⟨-, rfl⟩ := h
    obtain ⟨hthread, -, -, howner, -⟩ := enqueue_frame s max p
    intro hf
    rw [hthread]
    exact hs (howner ▸ hf)
  | sender timedOut =>
    intro hf
    have habsent := hs (owner_senderStep h ▸ hf)
    simp [Transport.step, HttpTransportAsync.senderStep, habsent] at h
  | prefork =>
    simp only [Transport.step, Option.ite_none_right_eq_some, Option.some.injEq] at h
    obtain ⟨-, rfl⟩ := h
    intro hf
    cases hf
  | destruct =>
    simp only [Transport.step, Option.ite_none_right_eq_some, Option.some.injEq] at h
    obtain ⟨-, rfl⟩ := h
    intro hf
    cases hf
  | shutdown =>
    simp only [Transport.step, Option.ite_none_right_eq_some, Option.some.injEq] at h
    obtain ⟨-, rfl⟩ := h
    intro hf
    cases hf
  | join =>
    obtain ⟨final, h⟩ := join_of_step h
    exact joined_join h
  | postfork child =>
    simp only [Transport.step, Option.ite_none_right_eq_some, Option.some.injEq] at h
    obtain ⟨-, rfl⟩ := h
    intro hf
    cases hf

/-- The thread was joined before the fork, so the child starts with nothing. -/
theorem child_taken (hs : s.thread.inFlight = []) : s.child.taken = [] := by
  have hthread : s.child.thread.inFlight = s.thread.inFlight := inFlight_startThread { s with payloadsToSend := {} }
  rw [HttpTransportAsync.taken, hthread, hs]
  rfl

theorem Family.Inv.inProcess (h : f.Inv) {a : Action} (hi : f.processes[i]? = some s) (hst : Transport.step s a = some t) :
    Family.Inv ⟨f.processes.set i t, f.enqueued ++ a.enqueued⟩ := by
  have htaken := taken_step hst
  have hmem := List.mem_of_getElem? hi
  refine ⟨fun u hu => ?_, fun u hu => ?_, ?_⟩
  · obtain hu | rfl := List.mem_or_eq_of_mem_set hu
    · exact h.joined u hu
    · exact joined_step (h.joined s hmem) hst
  · obtain hu | rfl := List.mem_or_eq_of_mem_set hu
    · exact (h.order u hu).trans (List.sublist_append_left _ _)
    · exact htaken.trans ((h.order s hmem).append (List.Sublist.refl _))
  · obtain ⟨hlt, hget⟩ := List.getElem?_eq_some_iff.mp hi
    have hsplit : ∀ u : HttpTransportAsync, f.processes.set i u = f.processes.take i ++ u :: f.processes.drop (i + 1) := by
      intro u
      rw [List.set_eq_take_append_cons_drop, if_pos hlt]
    have hself : f.processes = f.processes.take i ++ s :: f.processes.drop (i + 1) := by
      rw [← hsplit s, ← hget, List.set_getElem_self]
    have honce := h.once
    rw [hself, List.flatMap_append, List.flatMap_cons] at honce
    show ((f.processes.set i t).flatMap _).Subperm _
    rw [hsplit t, List.flatMap_append, List.flatMap_cons]
    have hmore := (List.Sublist.refl ((f.processes.take i).flatMap HttpTransportAsync.taken)).append
      (htaken.append (List.Sublist.refl ((f.processes.drop (i + 1)).flatMap HttpTransportAsync.taken)))
    refine hmore.subperm.trans (List.Subperm.trans (List.Perm.subperm ?_) (honce.append (List.Subperm.refl a.enqueued)))
    rw [List.append_assoc, List.append_assoc, List.append_assoc]
    exact ((List.perm_append_comm).append_left _).append_left _

theorem Family.Inv.fork (h : f.Inv) (hi : f.processes[i]? = some s) (hs : s.owner = .forking) :
    Family.Inv { f with processes := f.processes ++ [s.child] } := by
  have hthread := h.joined s (List.mem_of_getElem? hi) hs
  have htaken : s.child.taken = [] := child_taken (by rw [hthread]; rfl)
  refine ⟨fun u hu => ?_, fun u hu => ?_, ?_⟩
  · obtain hu | hu := List.mem_append.mp hu
    · exact h.joined u hu
    · rw [List.mem_singleton.mp hu]
      intro hf
      cases hf
  · obtain hu | hu := List.mem_append.mp hu
    · exact h.order u hu
    · rw [List.mem_singleton.mp hu, htaken]
      exact List.nil_sublist _
  · show ((f.processes ++ [s.child]).flatMap _).Subperm _
    rw [List.flatMap_append, List.flatMap_singleton, htaken, List.append_nil]
    exact h.once

theorem Family.Inv.step {e : FamilyAction} (h : f.Inv) (hst : f.step e = some g) : g.Inv := by
  cases e with
  | inProcess i a =>
    simp only [Family.step, Option.bind_eq_some_iff, Option.map_eq_some_iff] at hst
    obtain ⟨s, hi, t, hs, rfl⟩ := hst
    exact h.inProcess hi hs
  | fork i =>
    simp only [Family.step, Option.bind_eq_some_iff, Option.ite_none_right_eq_some, Option.some.injEq] at hst
    obtain ⟨s, hi, hs, rfl⟩ := hst
    exact h.fork hi hs

theorem Family.inv_init : Family.Inv {} := by
  refine ⟨fun s hs => ?_, fun s hs => ?_, List.Subperm.refl _⟩
  · rw [List.mem_singleton.mp hs]
    intro hf
    cases hf
  · rw [List.mem_singleton.mp hs]
    exact List.Sublist.refl _

/-- In every run of a family what a process attempts, then what it sends and what it has in its queue, was enqueued in that
order, and all processes together have and attempt each payload at most as often as it was enqueued. -/
theorem attempts_in_family {es : List FamilyAction} (h : run Family.step {} es = some f) :
    (∀ s ∈ f.processes, s.taken.Sublist f.enqueued) ∧ (f.processes.flatMap HttpTransportAsync.taken).Subperm f.enqueued := by
  have hI := run_invariant (fun _ _ _ hI hst => hI.step hst) h Family.inv_init
  exact ⟨hI.order, hI.once⟩

/-- A payload is in the queue when the process forks; the parent sends it. -/
theorem attempts_in_family_of_fork :
    ∃ f, run Family.step {} [.inProcess 0 (.enqueue 100 tenBytes), .inProcess 0 .prefork, .inProcess 0 .join, .fork 0,
        .inProcess 0 (.postfork false), .inProcess 1 (.sender false), .inProcess 0 (.sender false)] = some f ∧
      f.processes.length = 2 ∧ (f.processes.flatMap HttpTransportAsync.taken).Subperm f.enqueued := by
  have hsome : (run Family.step {} [.inProcess 0 (.enqueue 100 tenBytes), .inProcess 0 .prefork, .inProcess 0 .join, .fork 0,
      .inProcess 0 (.postfork false), .inProcess 1 (.sender false), .inProcess 0 (.sender false)]).isSome := by decide
  obtain ⟨f, hf⟩ := Option.isSome_iff_exists.mp hsome
  exact ⟨f, hf, by rw [← Option.some.inj hf]; rfl, (attempts_in_family hf).2⟩

end Many

end OtelDistro.Transport
