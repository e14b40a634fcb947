import GoUblksrv.Queue.Counter
import GoUblksrv.Queue.Holders

/-!
The exit of the queue thread. `ublksrv_queue_is_done` is tested before the wait for the
requests in flight, so an exit is safe when SQEs were waiting for the next submit as the
queue stopped, or when no request had been delivered since the last wait.
-/

namespace GoUblksrv.Queue

variable {info : DevInfo} {C : State → Act → Prop} {s s' : State} {a : Act} {t t' : Task}
  {q q' : Memory} {ev : List Event}

def State.AtExit (s : State) : Prop :=
  s.thread.pc = .processIo ∧ ublksrvQueueIsDone s.mem = true

def AllCommitted (s : State) : Prop :=
  ∀ rid < s.served, ∃ t ∈ s.tasks, t.rid = rid ∧ IoCmdOp.commitAndFetchReq ∈ t.queued

/-- A CQE that stops the queue, or comes after one that did, finds SQEs prepared; or neither it
nor a CQE before it in its batch delivers a request. -/
def StopsClean (s : State) : Act → Prop
  | .reap _ res _ => s.mem.stopping = true ∨ res = ublkIoResAbort → s.mem.ring.sq = [] →
      res ≠ ublkIoResOk ∧ s.batch = 0
  | _ => True

def SafeStop (s : State) (a : Act) : Prop := NoDrift s a ∧ StopsClean s a

instance (s : State) : Decidable (AllCommitted s) :=
  inferInstanceAs (Decidable (∀ rid < s.served, ∃ t ∈ s.tasks, t.rid = rid ∧ _ ∈ t.queued))

instance (s : State) : ∀ a, Decidable (StopsClean s a)
  | .reap _ res _ => inferInstanceAs (Decidable (_ ∨ res = _ → _ → res ≠ _ ∧ s.batch = 0))
  | .thread | .spurious | .submit _ | .waitCqe _ | .reapEnd | .onRequest _ | .task _ _ => isTrue trivial

instance (s : State) (a : Act) : Decidable (SafeStop s a) :=
  inferInstanceAs (Decidable (a.drifts = false ∧ _))

theorem SafeStop.noDrift (h : (machine info).Reach SafeStop s) : (machine info).Reach NoDrift s :=
  h.mono fun _ _ hc => hc.1

section

variable {tag : ℕ} {pc pc' : IoCmdPc}

theorem CallStep.sq_grows (h : CallStep q tag pc q' pc') : q.ring.sq <+: q'.ring.sq := by
  cases h with
  | fill => exact List.prefix_append _ _
  | _ => exact List.prefix_rfl

theorem CallStep.stopping (h : CallStep q tag pc q' pc') : q'.stopping = q.stopping := by
  cases h <;> rfl

end

section

variable {failed : Bool}

theorem TaskStep.sq_grows (h : TaskStep q t failed q' t' ev) : q.ring.sq <+: q'.ring.sq := by
  cases h with
  | failCall _ _ _ _ hc | call _ _ _ _ hc => exact hc.sq_grows
  | _ => exact List.prefix_rfl

theorem TaskStep.stopping (h : TaskStep q t failed q' t' ev) : q'.stopping = q.stopping := by
  cases h with
  | failCall _ _ _ _ hc | call _ _ _ _ hc => exact hc.stopping
  | _ => rfl

end

theorem AllCommitted.step (h : AllCommitted s) (hs : Step s a s') (hserved : s'.served = s.served) :
    AllCommitted s' := by
  intro rid hrid
  obtain ⟨t, ht, htr, htq⟩ := h rid (hserved ▸ hrid)
  cases hs with
  | task i u failed q' u' ev hi hst =>
    obtain ⟨j, hj⟩ := List.mem_iff_getElem?.mp ht
    by_cases hij : i = j
    · subst hij
      obtain rfl : u = t := Option.some_injective _ (hi.symm.trans hj)
      have hlt := (List.getElem?_eq_some_iff.mp hi).1
      exact ⟨u', List.mem_set hlt _, hst.rid_eq.trans htr, hst.queued_grows.subset htq⟩
    · refine ⟨t, List.mem_iff_getElem?.mpr ⟨j, ?_⟩, htr, htq⟩
      rw [List.getElem?_set_ne hij]
      exact hj
  | request tag rid hpc => exact ⟨t, List.mem_append_left _ ht, htr, htq⟩
  | _ => exact ⟨t, ht, htr, htq⟩

theorem served_reach (h : (machine info).Reach C s) : ∀ rid < s.served,
    (∃ t ∈ s.tasks, t.rid = rid) ∨ (∃ tag, s.thread.pc = .onRequest tag rid) ∨ s.dropped ≠ 0 := by
  refine h.invariant (I := fun s => ∀ rid < s.served,
    (∃ t ∈ s.tasks, t.rid = rid) ∨ (∃ tag, s.thread.pc = .onRequest tag rid) ∨ s.dropped ≠ 0) ?_ ?_
  · rintro t ⟨qId, buf, mem, q, -, rfl⟩
    simp [start]
  · intro s a s' hr hi _ hs rid hrid
    have keep : (∀ tag, s.thread.pc ≠ .onRequest tag rid) → rid < s.served → s'.tasks = s.tasks →
        s'.dropped = s.dropped → (∃ t ∈ s'.tasks, t.rid = rid) ∨
          (∃ tag, s'.thread.pc = .onRequest tag rid) ∨ s'.dropped ≠ 0 := by
      intro hpc hlt ht hd
      rcases hi rid hlt with hmem | ⟨tag, hp⟩ | hne
      · exact .inl (ht ▸ hmem)
      · exact absurd hp (hpc tag)
      · exact .inr (.inr (hd ▸ hne))
    cases step_cases hs with
    | reapOk i c iod hpc hcd =>
      rcases Nat.lt_succ_iff_lt_or_eq.mp hrid with hlt | rfl
      · exact keep (by simp [hpc]) hlt rfl rfl
      · exact .inr (.inl ⟨c.tag, rfl⟩)
    | request tag rid' hpc =>
      rcases hi rid hrid with ⟨t, ht, htr⟩ | ⟨tag', hp⟩ | hne
      · exact .inl ⟨t, List.mem_append_left _ ht, htr⟩
      · rw [hpc] at hp
        cases hp
        exact .inl ⟨_, List.mem_append_right _ (List.mem_singleton.mpr rfl), rfl⟩
      · exact .inr (.inr hne)
    | drop => exact .inr (.inr (Nat.succ_ne_zero _))
    | task i t failed q' t' ev hg hst =>
      rcases hi rid hrid with ⟨u, hu, hur⟩ | hrest
      · obtain ⟨j, hj⟩ := List.mem_iff_getElem?.mp hu
        by_cases hij : i = j
        · subst hij
          obtain rfl : t = u := Option.some.inj (hg.symm.trans hj)
          exact .inl ⟨t', List.mem_set (List.getElem?_eq_some_iff.mp hg).1 _, hst.rid_eq.trans hur⟩
        · exact .inl ⟨u, List.mem_iff_getElem?.mpr ⟨j, (List.getElem?_set_ne hij).trans hj⟩, hur⟩
      · exact .inr hrest
    | done hpc | enter hpc | lockCond hpc | loadWait hpc | loadPass hpc | sleep hpc | wake hpc | unlockCond hpc
    | fetchAdd hpc | getDataRet _ _ hpc | getData _ _ _ _ hpc | spurious hpc | submitAll hpc
    | submitPart _ hpc | waitCqe _ hpc | reapTarget _ _ _ _ hpc | reapGetData _ _ _ hpc
    | reapOther _ _ _ _ hpc | reapEnd hpc => exact keep (by simp [hpc]) hrid rfl rfl

theorem queued_reach (h : (machine info).Reach NoFailure s) :
    ∀ t ∈ s.tasks, ∀ op ∈ t.queued, op = .commitAndFetchReq := by
  refine h.invariant (I := fun s => ∀ t ∈ s.tasks, ∀ op ∈ t.queued, op = .commitAndFetchReq) ?_ ?_
  · rintro t ⟨qId, buf, mem, q, -, rfl⟩
    simp [start]
  · intro s a s' hr hi hc hs
    cases step_cases hs with
    | request tag rid hpc =>
      intro t ht
      simp only [List.mem_append, List.mem_singleton] at ht
      rcases ht with ht | rfl
      · exact hi t ht
      · exact fun _ hop => by cases hop
    | task i t failed q' t' ev hg hst =>
      have hmem := List.mem_of_getElem? hg
      apply List.forall_mem_set hi
      have hold := hi t hmem
      have hnot := not_atFail hr hmem
      cases hst with
      | failCall q' pc pc' hp => simp [Task.atFail, hp] at hnot
      | call q' pc pc' hp hcall =>
        intro op hop
        rcases List.mem_append.mp hop with hop | hop
        · exact hold op hop
        · cases pc with
          | fill =>
            simp only [queuedOp, needs_commit hr hmem hp, Option.mem_toList] at hop
            split_ifs at hop
            exact (Option.some.inj hop).symm
          | _ => cases hop
      | _ => exact hold
    | _ => exact hi

theorem allCommitted_of_calm (h : (machine info).Reach NoDrift s) (hc : s.calm = true) : AllCommitted s := by
  obtain ⟨hdone, hd⟩ := calm_reach h hc
  intro rid hrid
  rcases served_reach h rid hrid with ⟨t, ht, htr⟩ | ⟨tag, hpc⟩ | hne
  · have hsubs := ((wf_reach h).tasks t ht).subs
    have hpos : t.subs ≠ 0 := by simpa [Task.inflight] using hdone t ht
    obtain ⟨op, hop⟩ : ∃ op, op ∈ t.queued := List.exists_mem_of_length_pos (by omega)
    exact ⟨t, ht, htr, queued_reach (NoDrift.noFailure h) t ht op hop ▸ hop⟩
  · simp [State.calm, hpc] at hc
  · exact absurd hd hne

/-- In this round of `ublksrv_process_io` the thread has not left the wait loop. -/
def ThreadPc.beforeSubmit : ThreadPc → Bool
  | .unlockCond | .submit | .waitCqe | .exited => false
  | _ => true

/-- While the queue stops, every request is committed, or the prepared SQEs keep the thread from
leaving before the next wait. -/
def StopSafe (s : State) : Prop :=
  s.mem.stopping = true →
    AllCommitted s ∨ s.mem.ring.sq ≠ [] ∧ s.thread.pc.beforeSubmit = true

theorem ne_nil_of_grows {l l' : List Sqe} (h : l <+: l') (hl : l ≠ []) : l' ≠ [] := by
  rintro rfl
  exact hl (List.prefix_nil.mp h)

theorem StopSafe.step (h : (machine info).Reach SafeStop s) (h' : (machine info).Reach SafeStop s')
    (hi : StopSafe s) (hc : SafeStop s a) (hs : Step s a s') : StopSafe s' := by
  have keep : s'.served = s.served → s'.mem.stopping = s.mem.stopping →
      s.mem.ring.sq <+: s'.mem.ring.sq →
      (s.thread.pc.beforeSubmit = true → s'.thread.pc.beforeSubmit = true) → StopSafe s' := by
    intro hserved hstop hsq hpc hst
    rcases hi (hstop ▸ hst) with hall | ⟨hne, hbefore⟩
    · exact .inl (hall.step hs hserved)
    · exact .inr ⟨ne_nil_of_grows hsq hne, hpc hbefore⟩
  have calm : s'.calm = true → StopSafe s' := fun hcalm _ => .inl (allCommitted_of_calm (SafeStop.noDrift h') hcalm)
  cases hs with
  | done hpc hd =>
    intro hst
    simp only [ublksrvQueueIsDone, Bool.and_eq_true, List.isEmpty_iff] at hd
    rcases hi hst with hall | ⟨hne, -⟩
    · exact .inl hall
    · exact absurd hd.2 hne
  | loadPass | unlockCond | submitAll => exact calm rfl
  | submitPart => exact calm rfl
  | waitCqe timedOut hpc =>
    intro _
    have hcalm : s.calm = true := by simp [State.calm, hpc]
    have hall := allCommitted_of_calm (SafeStop.noDrift h) hcalm
    exact .inl (hall.step (.waitCqe timedOut hpc) rfl)
  | reapOk i c iod hpc hcd =>
    intro hst
    have hor : s.mem.stopping = true ∨ ublkIoResOk = ublkIoResAbort := by
      simpa [stopUnlessFetch_stopping] using hst
    refine .inr ⟨?_, rfl⟩
    intro hnil
    exact absurd rfl (hc.2 hor (by simpa using hnil)).1
  | reapGetData => cases hc.1
  | reapOther i c res iod hpc hcd ho hg =>
    intro hst
    have hor : s.mem.stopping = true ∨ res = ublkIoResAbort := by
      simpa [setFlags, setIo, stopUnlessFetch_stopping] using hst
    by_cases hnil : s.mem.ring.sq = []
    · have hcalm : s.calm = true := by simp [State.calm, hpc, (hc.2 hor hnil).2]
      have hall := allCommitted_of_calm (SafeStop.noDrift h) hcalm
      exact .inl (hall.step (.reapOther i c res iod hpc hcd ho hg) rfl)
    · exact .inr ⟨by simpa [setFlags, setIo] using hnil, by simp [State.taken, hpc, ThreadPc.beforeSubmit]⟩
  | getData tag q' pc pc' hpc hcall => exact keep rfl hcall.stopping hcall.sq_grows fun _ => rfl
  | task i t failed q' t' ev hg hst => exact keep rfl hst.stopping hst.sq_grows id
  | reapTarget => exact keep rfl rfl List.prefix_rfl id
  | spurious => exact keep rfl rfl List.prefix_rfl id
  | _ => exact keep rfl rfl List.prefix_rfl fun _ => rfl

theorem stopSafe_reach (h : (machine info).Reach SafeStop s) : StopSafe s := by
  induction h with
  | init hi =>
    obtain ⟨qId, buf, mem, q, hq, rfl⟩ := hi
    intro hst
    rw [start, (ublksrvQueueInit_initialised hq).stopping] at hst
    cases hst
  | step hr hc hs ih => exact ih.step hr (hr.step hc hs) hc (step_cases hs)

theorem rid_lt_reach (h : (machine info).Reach C s) :
    (∀ t ∈ s.tasks, t.rid < s.served) ∧ ∀ tag rid, s.thread.pc = .onRequest tag rid → rid < s.served := by
  refine h.invariant (I := fun s => (∀ t ∈ s.tasks, t.rid < s.served) ∧
    ∀ tag rid, s.thread.pc = .onRequest tag rid → rid < s.served) ?_ ?_
  · rintro t ⟨qId, buf, mem, q, -, rfl⟩
    simp [start]
  · rintro s a s' - ⟨ht, hp⟩ - hs
    cases step_cases hs with
    | reapOk i c iod hpc hc =>
      refine ⟨fun t hm => Nat.lt_succ_of_lt (ht t hm), fun tag rid he => ?_⟩
      cases he
      exact Nat.lt_succ_self _
    | request tag rid hpc =>
      refine ⟨fun t hm => ?_, by simp [State.goto]⟩
      simp only [List.mem_append, List.mem_singleton] at hm
      rcases hm with hm | rfl
      · exact ht t hm
      · exact hp tag rid hpc
    | task i t failed q' t' ev hg hst =>
      exact ⟨List.forall_mem_set ht (hst.rid_eq ▸ ht t (List.mem_of_getElem? hg)), hp⟩
    | reapTarget | reapOther | spurious => exact ⟨ht, hp⟩
    | _ => exact ⟨ht, by simp [State.goto, afterReap]⟩

theorem batch_le_served (h : (machine info).Reach C s) : s.batch ≤ s.served := by
  apply h.invariant (I := fun s => s.batch ≤ s.served)
  · rintro t ⟨qId, buf, mem, q, -, rfl⟩
    exact le_rfl
  · intro s a s' _ hi _ hs
    cases step_cases hs with
    | submitAll | submitPart => exact Nat.zero_le _
    | reapOk => exact Nat.succ_le_succ hi
    | _ => exact hi

theorem driverIo_reach (h : (machine info).Reach C s) : s.Sqes fun e => isTargetIo e.userData = false := by
  apply h.invariant (I := fun s => s.Sqes fun e => isTargetIo e.userData = false)
  · rintro t ⟨qId, buf, mem, q, hq, rfl⟩
    exact ⟨(ublksrvQueueInit_initialised hq).driverIo, by simp [start]⟩
  · intro s a s' _ hi _ hs
    exact (step_cases hs).sqes (fun tag op _ => prepSqe_driverIo s.mem tag op) hi

theorem run_reapEnd (h : s.thread.pc = .reap) : (machine info).run s [.reapEnd] = some (afterReap s) := by
  simp [Machine.run, machine, step, h]

theorem TaskStep.queued_eq {failed : Bool} (h : TaskStep q t failed q' t' ev) :
    t'.queued = t.queued ∨ q'.ring.sq ≠ [] := by
  cases h with
  | failCall q' pc pc' hp hc | call q' pc pc' hp hc =>
    cases hc with
    | fill => exact .inr (by simp [filled])
    | noWork hn => exact .inl (by simp [Task.called, queuedOp_noWork hn])
    | noSqe op hn hr => exact .inl (by simp [Task.called, queuedOp_noSqe hr])
    | _ => exact .inl (by simp [Task.called, queuedOp])
  | _ => exact .inl rfl

theorem batch_sq (h : (machine info).Reach C s) :
    ∀ t ∈ s.tasks, s.served ≤ t.rid + s.batch → t.queued ≠ [] → s.mem.ring.sq ≠ [] := by
  refine h.invariant
    (I := fun s => ∀ t ∈ s.tasks, s.served ≤ t.rid + s.batch → t.queued ≠ [] → s.mem.ring.sq ≠ []) ?_ ?_
  · rintro t ⟨qId, buf, mem, q, -, rfl⟩
    simp [start]
  · intro s a s' hr hi _ hs
    cases step_cases hs with
    | submitAll | submitPart =>
      intro t ht hle
      have hlt := (rid_lt_reach hr).1 t ht
      simp only [State.goto] at hle
      omega
    | reapOk i c iod hpc hcd =>
      intro t ht hle hq
      simpa using hi t ht (by simpa [State.goto, State.taken, ← Nat.add_assoc] using hle) hq
    | reapGetData | reapOther =>
      intro t ht hle hq
      simpa [setFlags, setIo] using hi t ht hle hq
    | request tag rid hpc =>
      intro t ht
      simp only [List.mem_append, List.mem_singleton] at ht
      rcases ht with ht | rfl
      · exact hi t ht
      · exact fun _ hne => absurd rfl hne
    | getData tag q' pc pc' hpc hcall =>
      exact fun t ht hle hq => ne_nil_of_grows hcall.sq_grows (hi t ht hle hq)
    | task i t failed q' t' ev hg hst =>
      have hmem := List.mem_of_getElem? hg
      apply List.forall_mem_set
      · exact fun u hu hle hq => ne_nil_of_grows hst.sq_grows (hi u hu hle hq)
      · intro hle hq
        rcases hst.queued_eq with he | hne
        · rw [hst.rid_eq] at hle
          exact ne_nil_of_grows hst.sq_grows (hi t hmem hle (he ▸ hq))
        · exact hne
    | _ => exact hi

/-- From any step that stops the queue otherwise, the thread can leave with a request abandoned. -/
theorem exit_of_not_stopsClean (h : (machine info).Reach SafeStop s) (hd : NoDrift s a) (hc : ¬ StopsClean s a)
    (hs : step s a = some s') :
    ∃ as u, (machine info).run s' as = some u ∧ u.AtExit ∧ ¬ AllCommitted u := by
  cases step_cases hs with
  | reapTarget i c res iod hpc hcd ht =>
    have hio := (driverIo_reach h).2 c (List.mem_of_getElem? hcd)
    simp [ht] at hio
  | reapOk i c iod hpc hcd =>
    simp only [StopsClean, not_forall] at hc
    obtain ⟨hor, hsq, -⟩ := hc
    have hst : s.mem.stopping = true := hor.resolve_right (by decide)
    refine ⟨[.onRequest true, .thread, .reapEnd], _, rfl, ⟨rfl, ?_⟩, ?_⟩
    · simp [ublksrvQueueIsDone, afterReap, State.goto, stopUnlessFetch_stopping, hst, hsq]
    · intro hall
      obtain ⟨t, ht, hrid, hq⟩ := hall s.served (Nat.lt_succ_self _)
      simp only [State.goto, State.taken, afterReap, List.mem_append, List.mem_singleton] at ht
      rcases ht with ht | rfl
      · exact absurd hrid (Nat.ne_of_lt ((rid_lt_reach h).1 t ht))
      · simp at hq
  | reapGetData => cases hd
  | reapOther i c res iod hpc hcd ho hg =>
    simp only [StopsClean, not_forall] at hc
    obtain ⟨hor, hsq, hno⟩ := hc
    have hbatch : s.batch ≠ 0 := fun hz => hno ⟨ho, hz⟩
    refine ⟨[.reapEnd], _, run_reapEnd hpc, ⟨rfl, ?_⟩, ?_⟩
    · have hst : (s.mem.stopping || res == ublkIoResAbort) = true := by simpa using hor
      simp [ublksrvQueueIsDone, afterReap, State.goto, setFlags, setIo, stopUnlessFetch_stopping, hst, hsq]
    · intro hall
      have hpos := batch_le_served h
      obtain ⟨t, ht, hrid, hq⟩ := hall (s.served - 1) (by simp [afterReap, State.goto, State.taken]; omega)
      exact batch_sq h t ht (by omega) (List.ne_nil_of_mem hq) hsq
  | _ => exact absurd trivial hc

theorem exit_committed (info : DevInfo) :
    (∀ s, (machine info).Reach SafeStop s → s.AtExit → AllCommitted s ∧ s.mem.ring.sq = []) ∧
    ∀ s a s', (machine info).Reach SafeStop s → step s a = some s' → NoDrift s a → ¬ StopsClean s a →
      ∃ as u, (machine info).run s' as = some u ∧ u.AtExit ∧ ¬ AllCommitted u := by
  constructor
  · rintro s h ⟨hpc, hd⟩
    simp only [ublksrvQueueIsDone, Bool.and_eq_true, List.isEmpty_iff] at hd
    rcases stopSafe_reach h hd.1 with hall | ⟨hne, -⟩
    · exact ⟨hall, hd.2⟩
    · exact absurd hd.2 hne
  · intro s a s' h hs hd hc
    exact exit_of_not_stopsClean h hd hc hs

def stopAfterCommit : State :=
  (runFromIf (fun s a => decide (SafeStop s a)) oneTag (deliverRead ++ List.replicate 13 (.task 0 false) ++
    List.replicate 4 .thread ++ [.submit 1, .waitCqe false, .reap 0 ublkIoResAbort ⟨0, 0, 0, 0⟩, .reapEnd])).get
      (by decide)

theorem exit_committed_stopAfterCommit : stopAfterCommit.AtExit ∧ stopAfterCommit.served = 1 ∧
    AllCommitted stopAfterCommit ∧ stopAfterCommit.mem.ring.sq = [] := by
  have hr : (machine oneTag).Reach SafeStop stopAfterCommit :=
    runFromIf_reach (fun _ _ => of_decide_eq_true) (Option.some_get _).symm
  have hexit : stopAfterCommit.AtExit := by unfold State.AtExit; decide
  exact ⟨hexit, by decide, (exit_committed oneTag).1 _ hr hexit⟩

def stopWhileHeld : State :=
  (runFrom twoTags [.thread, .thread, .thread, .thread, .submit 2, .waitCqe false,
    .reap 0 ublkIoResOk ⟨0, 8, 0, 4096⟩, .onRequest true, .thread,
    .reap 0 ublkIoResAbort ⟨0, 0, 0, 0⟩, .reapEnd]).get (by decide)

theorem exit_abandons_stopWhileHeld : ¬ ∀ info s, (machine info).Reach Machine.Free s → s.AtExit →
    AllCommitted s ∧ s.mem.ring.sq = [] := by
  intro h
  have hr : (machine twoTags).Reach Machine.Free stopWhileHeld :=
    runFrom_reach (fun _ _ _ => trivial) (Option.some_get _).symm
  have hexit : stopWhileHeld.AtExit := by unfold State.AtExit; decide
  exact absurd (h _ _ hr hexit).1 (by decide)

end GoUblksrv.Queue
