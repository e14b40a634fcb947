import GoUblksrv.Queue.Holders
import GoUblksrv.Queue.WakeUp

/-!
The queue while its thread submits and sleeps. In the kernel it sleeps with an empty SQ and no
request held. On `q->cond` it sleeps with the commits of the requests that were completed first,
until the last one is; only when requests are delivered one by one does no commit wait.
-/

namespace GoUblksrv.Queue

variable {info : DevInfo} {s s' : State} {a : Act} {t t' : Task} {q q' : Memory} {ev : List Event}
  {tag : ℕ} {failed : Bool}

theorem TaskStep.sq_eq (h : TaskStep q t failed q' t' ev) (hp : t.pc.call ≠ some .fill) :
    q'.ring.sq = q.ring.sq := by
  cases h with
  | failCall q' pc pc' hpc hc | call q' pc pc' hpc hc =>
    cases hc with
    | fill =>
      rw [hpc] at hp
      exact absurd rfl hp
    | _ => rfl
  | _ => rfl

theorem not_atFill (h : (machine info).Reach NoDrift s) (hp : s.thread.passed = true) : ¬ s.AtFill tag := by
  rintro (hpc | ⟨t, ht, -, hpc⟩)
  · simp [Thread.passed, hpc] at hp
  · have hf := NoDrift.noFailure h
    have hok := (wf_reach hf).tasks t ht
    have hq : t.queued = [] := by
      have hc := hok.cap
      rcases hpc with hpc | hpc <;> simpa [Task.cap, hpc, failed_reach hf t ht] using hc
    have hsubs := hok.subs
    have hne := (passed_reach h hp).1 t ht
    simp [hq] at hsubs
    simp [Task.inflight, hsubs.1] at hne

theorem waitCqe_reach (h : (machine info).Reach NoDrift s) : s.thread.pc = .waitCqe → s.mem.ring.sq = [] := by
  refine h.invariant (I := fun s => s.thread.pc = .waitCqe → s.mem.ring.sq = []) ?_ ?_
  · rintro t ⟨qId, buf, mem, q, -, rfl⟩
    simp [start]
  · intro s a s' hr hi _ hs
    cases step_cases hs with
    | submitAll => exact fun _ => rfl
    | task i t failed q' t' ev hg hst =>
      intro hpc
      change s.thread.pc = .waitCqe at hpc
      have hno : ¬ s.AtFill t.tag := not_atFill hr (by simp [Thread.passed, hpc])
      refine (hst.sq_eq ?_).trans (hi hpc)
      intro hcall
      refine hno (.inr ⟨t, List.mem_of_getElem? hg, rfl, ?_⟩)
      unfold TaskPc.call at hcall
      split at hcall
      · exact .inl (by rw [‹t.pc = _›, Option.some.inj hcall])
      · exact .inr (by rw [‹t.pc = _›, Option.some.inj hcall])
      · cases hcall
    | spurious hpc => simp [hpc]
    | reapTarget i c res iod hpc | reapOther i c res iod hpc => simp [State.taken, hpc]
    | enter | waitCqe => simp
    | _ => simp [State.goto, afterReap]

/-- A goroutine that has filled its SQE counts until its `fetch_sub`, and it holds `q->lock`. -/
structure Quiescent (s : State) : Prop where
  counter : s.thread.pc.inHandleCqe = false → s.mem.tgtIoInflight =
    s.tasks.countP Task.unqueued + s.tasks.countP Task.atSub + s.dropped
  between : s.tasks.countP Task.atSub ≤ s.mem.lock.toNat
  passed : s.thread.passed = true → (∀ t ∈ s.tasks, t.inflight = false) ∧ s.dropped = 0
  filling : s.thread.passed = true → ∀ tag, ¬ s.AtFill tag
  sleeping : s.thread.pc = .waitCqe → s.mem.ring.sq = []
  pages : s.thread.pc = .reap → .discardPages ∈ (settle s).2 → ∀ t ∈ s.tasks, t.inflight = false

theorem atSub_le (h : (machine info).Reach NoDrift s) : s.tasks.countP Task.atSub ≤ s.mem.lock.toNat := by
  have hle := lockers_reach h
  have hmono : s.tasks.countP Task.atSub ≤ s.tasks.countP Task.locked := by
    apply List.countP_mono_left
    intro t _ hat
    unfold Task.atSub at hat
    split at hat
    · simp [Task.locked, TaskPc.call, *, IoCmdPc.locked]
    · simp [Task.locked, TaskPc.call, *, IoCmdPc.locked]
    · cases hat
  rw [lockers] at hle
  omega

theorem quiescent_reach (h : (machine info).Reach NoDrift s) : Quiescent s := by
  refine ⟨?_, atSub_le h, passed_reach h, fun hp _ => not_atFill h hp, waitCqe_reach h, ?_⟩
  · intro hpc
    have hne : s.thread.pc ≠ .fetchAdd := by
      intro he
      simp [he, ThreadPc.inHandleCqe] at hpc
    rw [inflight_eq h, inflight_split (NoDrift.noFailure h), if_neg hne]
    push_cast
    omega
  · intro hpc hd
    have hr := settle_discardPages s hd
    exact (passed_reach h (by simp [Thread.passed, hpc, hr])).1

def Cleared (s : State) : Prop :=
  s.dropped = 0 ∧ (∀ t ∈ s.tasks, t.queued ≠ []) ∧ ∀ e ∈ s.mem.ring.sq, e.cmd.result = none

instance (s : State) : Decidable (Cleared s) :=
  inferInstanceAs (Decidable (_ ∧ (∀ t ∈ s.tasks, t.queued ≠ []) ∧ ∀ e ∈ s.mem.ring.sq, e.cmd.result = none))

def Act.delivers : Act → Bool
  | .reap _ res _ => res == ublkIoResOk
  | _ => false

/-- Besides, a request is delivered only when the ones before it are out of the way. -/
def OneByOne (s : State) (a : Act) : Prop := NoDrift s a ∧ (a.delivers = true → Cleared s)

instance (s : State) (a : Act) : Decidable (OneByOne s a) :=
  inferInstanceAs (Decidable (a.drifts = false ∧ (_ → _)))

/-- The requests whose commit is not queued. -/
def State.held (s : State) : ℕ :=
  s.tasks.countP Task.mayFill + s.dropped + s.thread.pc.pending.isSome.toNat

structure Single (s : State) : Prop where
  one : s.held ≤ 1
  clear : s.held ≠ 0 → ∀ e ∈ s.mem.ring.sq, e.cmd.result = none

theorem Single.next (hi : Single s) (hh : s'.held ≤ s.held)
    (hsq : ∀ e ∈ s'.mem.ring.sq, e ∈ s.mem.ring.sq ∨ e.cmd.result = none) : Single s' := by
  refine ⟨hh.trans hi.one, ?_⟩
  intro hne e he
  rcases hsq e he with he | hnone
  · exact hi.clear (by omega) e he
  · exact hnone

theorem Cleared.mayFill (hc : Cleared s) (h : (machine info).Reach NoFailure s) :
    s.tasks.countP Task.mayFill = 0 := by
  rw [List.countP_eq_zero]
  intro t ht hm
  have hh := holds_of_mayFill h ht hm
  simp only [Task.holds, Bool.and_eq_true, List.isEmpty_iff] at hh
  exact hc.2.1 t ht hh.1

theorem Single.step (h : (machine info).Reach NoDrift s) (hi : Single s) (hc : OneByOne s a) (hs : Step s a s') :
    Single s' := by
  have hf := NoDrift.noFailure h
  have hcall := (noGetData_reach h).2
  have quiet : (∀ i failed, a ≠ .task i failed) → (∀ n, a ≠ .submit n) → s'.held ≤ s.held → Single s' :=
    fun ht hn hh => hi.next hh (Step.commits hf hs ht hn).2
  cases hs with
  | task i t failed q' t' ev hg hst =>
    obtain rfl : failed = false := hc.1
    have hcount := List.countP_set_of_get (b := t') (p := Task.mayFill) hg
    have moved : t'.mayFill = t.mayFill → q'.ring.sq = s.mem.ring.sq →
        Single { s with mem := q', tasks := s.tasks.set i t', log := s.log ++ ev } := by
      intro hm hsq
      refine hi.next ?_ fun e he => .inl (hsq ▸ he)
      simp only [State.held]
      rw [hm] at hcount
      omega
    cases hpc : t.pc.call with
    | none =>
      obtain ⟨hring, hm, -⟩ := outside_cases hf hg hpc hst
      exact moved hm (by rw [hring])
    | some pc =>
      obtain ⟨-, ⟨hsq, hm, -⟩ | ⟨-, hfill, hm⟩⟩ := call_cases hf hg (by rw [hpc]; rfl) hst
      · exact moved hm hsq
      · -- the last request that was held is held no more
        have hold : t.mayFill = true := by simp [Task.mayFill, hfill]
        have hone := hi.one
        rw [hm, hold] at hcount
        simp only [Bool.toNat_true, Bool.toNat_false] at hcount
        have hzero : State.held { s with mem := q', tasks := s.tasks.set i t', log := s.log ++ ev } = 0 := by
          simp only [State.held] at hone ⊢
          omega
        exact ⟨hzero.le.trans (Nat.zero_le 1), fun hne => absurd hzero hne⟩
  | submitAll hpc => exact ⟨by simpa [State.held, State.goto, ThreadPc.pending, hpc] using hi.one, by simp⟩
  | submitPart n hpc hn =>
    refine hi.next ?_ fun e he => .inl (List.mem_of_mem_drop he)
    simp [State.held, State.goto, ThreadPc.pending, hpc]
  | reapOk i c iod hpc hcd =>
    have hclear := hc.2 rfl
    refine ⟨?_, ?_⟩
    · simp [State.held, State.goto, State.taken, hclear.mayFill hf, hclear.1, ThreadPc.pending]
    · intro _ e he
      exact hclear.2.2 e (by simpa using he)
  | request tag rid hpc =>
    apply quiet (by simp) (by simp)
    simp [State.held, State.goto, ThreadPc.pending, hpc, Task.mayFill]
    omega
  | drop tag rid hpc =>
    apply quiet (by simp) (by simp)
    simp [State.held, State.goto, ThreadPc.pending, hpc]
    omega
  | reapGetData => cases hc.1
  | getData tag q' pc pc' hpc | getDataRet tag r hpc => simp [hpc, ThreadPc.call] at hcall
  | reapTarget i c res iod hpc | reapOther i c res iod hpc =>
    apply quiet (by simp) (by simp)
    simp [State.held, State.taken]
  | spurious hpc =>
    apply quiet (by simp) (by simp)
    simp [State.held]
  | done hpc | enter hpc | lockCond hpc | loadWait hpc | loadPass hpc | sleep hpc | wake hpc | unlockCond hpc
  | fetchAdd hpc | waitCqe timedOut hpc | reapEnd hpc =>
    apply quiet (by simp) (by simp)
    simp [State.held, State.goto, afterReap, ThreadPc.pending, hpc]

theorem single_reach (h : (machine info).Reach OneByOne s) : Single s := by
  have hno : ∀ {s}, (machine info).Reach OneByOne s → (machine info).Reach NoDrift s :=
    fun h => h.mono fun _ _ hc => hc.1
  refine h.invariant ?_ fun t a t' hr hi hc hs => hi.step (hno hr) hc (step_cases hs)
  rintro t ⟨qId, buf, mem, q, -, rfl⟩
  constructor <;> simp [State.held, start, ThreadPc.pending]

def State.Waking (s : State) : Prop :=
  ∃ t ∈ s.tasks, t.signals = true ∨ t.atSub = true ∧ s.mem.tgtIoInflight = 1

theorem inflight_atSub (h : (machine info).Reach NoDrift s) (ht : t ∈ s.tasks) (hi : t.inflight = true)
    (hm : t.mayFill = false) : t.atSub = true := by
  have hsubs := ((wf_reach h).tasks t ht).subs
  have hone := committed_reach (NoDrift.noFailure h) t ht hm
  have hzero : t.subs = 0 := by simpa [Task.inflight] using hi
  cases hat : t.atSub with
  | true => rfl
  | false =>
    simp only [hat, Bool.toNat_false] at hsubs
    omega

/-- While a commit lies in the SQ, the thread does not sleep on for another request. -/
theorem waking_reach (h : (machine info).Reach OneByOne s) (hpc : s.thread.pc = .blocked)
    (hcond : s.mem.cond = .asleep) (he : ∃ e ∈ s.mem.ring.sq, e.cmd.result ≠ none) : s.Waking := by
  have hno : (machine info).Reach NoDrift s := h.mono fun _ _ hc => hc.1
  obtain ⟨e, he, hcommit⟩ := he
  have hheld : s.held = 0 := by
    by_contra hne
    exact hcommit ((single_reach h).clear hne e he)
  simp only [State.held] at hheld
  have hmay : ∀ t ∈ s.tasks, t.mayFill = false := by
    have hzero : s.tasks.countP Task.mayFill = 0 := by omega
    simpa using List.countP_eq_zero.mp hzero
  have hat : s.tasks.countP Task.inflight ≤ s.tasks.countP Task.atSub :=
    List.countP_mono_left fun t ht hi => inflight_atSub hno ht hi (hmay t ht)
  have hone := (atSub_le hno).trans (Bool.toNat_le _)
  rcases signalled_reach h (.inr ⟨hpc, hcond⟩) with hpos | ⟨t, ht, hs⟩
  · have hcount := inflight_eq hno
    rw [if_neg (by simp [hpc])] at hcount
    have hlive : 0 < s.tasks.countP Task.atSub := by omega
    obtain ⟨t, ht, hsub⟩ := List.countP_pos_iff.mp hlive
    exact ⟨t, ht, .inr ⟨hsub, by omega⟩⟩
  · exact ⟨t, ht, .inl hs⟩

theorem quiescent (info : DevInfo) :
    (∀ s, (machine info).Reach NoDrift s → Quiescent s) ∧
    ∀ s, (machine info).Reach OneByOne s → s.thread.pc = .blocked → s.mem.cond = .asleep →
      (∃ e ∈ s.mem.ring.sq, e.cmd.result ≠ none) → s.Waking :=
  ⟨fun _ h => quiescent_reach h, fun _ h => waking_reach h⟩

/-- A read is completed, and the thread sleeps in the kernel until the next one. -/
def sleepAfterCommit : List Act :=
  deliverRead ++ List.replicate 13 (.task 0 false) ++ List.replicate 4 .thread ++ [.submit 1]

def submitCommit : State := (runFrom oneTag sleepAfterCommit).get (by decide)

/-- The thread sleeps on `q->cond` as the goroutine fills its SQE. -/
def wakeUnderWay : State :=
  (runFromIf (fun s a => decide (OneByOne s a)) oneTag
    (deliverRead ++ List.replicate 4 .thread ++ List.replicate 6 (.task 0 false))).get (by decide)

theorem quiescent_submitCommit : submitCommit.thread.pc = .waitCqe ∧ Quiescent submitCommit ∧
    wakeUnderWay.mem.ring.sq.length = 1 ∧ wakeUnderWay.Waking := by
  have hq := quiescent oneTag
  refine ⟨by decide, hq.1 _ (runFrom_reach ?_ (Option.some_get _).symm), by decide, hq.2 _ ?_ ?_ ?_ ?_⟩
  · exact fun a ha _ => (by decide : ∀ a ∈ sleepAfterCommit, a.drifts = false) a ha
  · exact runFromIf_reach (fun _ _ => of_decide_eq_true) (Option.some_get _).symm
  · decide
  · decide
  · decide

/-- Two requests are delivered, the handler of the first fails and both its commits are queued, so
that the thread submits while the second is with its handler. -/
def doubleDecrement : State :=
  (runFrom twoTags ([.thread, .thread, .thread, .thread, .submit 2, .waitCqe false,
    .reap 0 ublkIoResOk ⟨0, 8, 0, 4096⟩, .onRequest true, .thread,
    .reap 0 ublkIoResOk ⟨0, 8, 0, 8192⟩, .onRequest true, .thread, .reapEnd] ++
      List.replicate 17 (.task 0 true) ++ List.replicate 4 .thread)).get (by decide)

def firstDone : List Act :=
  [.thread, .thread, .thread, .thread, .submit 2, .waitCqe false,
    .reap 0 ublkIoResOk ⟨0, 8, 0, 4096⟩, .onRequest true, .thread,
    .reap 0 ublkIoResOk ⟨0, 8, 0, 8192⟩, .onRequest true, .thread, .reapEnd] ++
      List.replicate 4 .thread ++ List.replicate 10 (.task 0 false)

/-- Without any failure the commit of the first request waits in the SQ for the second. -/
def commitWaits : State := (runFrom twoTags firstDone).get (by decide)

instance (s : State) : Decidable s.Waking :=
  inferInstanceAs (Decidable (∃ t ∈ s.tasks, t.signals = true ∨ t.atSub = true ∧ s.mem.tgtIoInflight = 1))

theorem not_quiescent_doubleDecrement :
    ¬ (∀ info s, (machine info).Reach Machine.Free s → Quiescent s) ∧
    ¬ ∀ info s, (machine info).Reach NoDrift s → s.thread.pc = .blocked → s.mem.cond = .asleep →
      (∃ e ∈ s.mem.ring.sq, e.cmd.result ≠ none) → s.Waking := by
  constructor
  · intro h
    have hr : (machine twoTags).Reach Machine.Free doubleDecrement :=
      runFrom_reach (fun _ _ _ => trivial) (Option.some_get _).symm
    exact absurd ((h _ _ hr).passed (by decide)).1 (by decide)
  · intro h
    have hok : ∀ a ∈ firstDone, a.drifts = false := by decide
    have hr : (machine twoTags).Reach NoDrift commitWaits :=
      runFrom_reach (fun a ha _ => hok a ha) (Option.some_get _).symm
    exact absurd (h _ _ hr (by decide) (by decide) (by decide)) (by decide)

end GoUblksrv.Queue
