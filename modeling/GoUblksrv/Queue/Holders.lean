import GoUblksrv.Queue.Locks
import GoUblksrv.Queue.Ownership

/-!
While no goroutine finds `Result == -1`, a tag has one holder: a goroutine that has not filled
its SQE shares the tag with no command, no other such goroutine, and not with the queue thread.
-/

namespace GoUblksrv.Queue

variable {info : DevInfo} {s s' : State} {t u : Task} {i j tag : ℕ} {c e : Sqe}

theorem setFlags_result (q : Memory) (tag : ℕ) (f : IoFlags) (j : ℕ) :
    ((setFlags q tag f).ios j).result = (q.ios j).result := by
  by_cases hj : j = tag
  · simp [setFlags, setIo, hj]
  · exact congrArg UblkIo.result (Function.update_of_ne hj _ _)

theorem stopUnlessFetch_result (q : Memory) (tag : ℕ) (res : Int32) (j : ℕ) :
    ((stopUnlessFetch q tag res).ios j).result = (q.ios j).result := by
  unfold stopUnlessFetch
  split_ifs
  · rfl
  · exact setFlags_result q tag _ j

theorem stopUnlessFetch_ioCmdBuf (q : Memory) (tag : ℕ) (res : Int32) (j : ℕ) :
    (stopUnlessFetch q tag res).ioCmdBuf j = q.ioCmdBuf j := by
  unfold stopUnlessFetch
  split_ifs <;> rfl

theorem cmdTag_reach {C : State → Act → Prop} (h : (machine info).Reach C s) :
    s.Sqes fun e => e.cmd.tag = e.tag := by
  apply h.invariant (I := fun s => s.Sqes fun e => e.cmd.tag = e.tag)
  · rintro t ⟨qId, buf, mem, q, hq, rfl⟩
    have hi := ublksrvQueueInit_initialised hq
    have hmap : q.ring.sq.map (fun e => e.cmd.tag) = q.ring.sq.map Sqe.tag := hi.cmdTags.trans hi.tags.symm
    exact ⟨List.map_inj_left.mp hmap, by simp [start]⟩
  · intro s a s' hr hi _ hs
    apply (step_cases hs).sqes _ hi
    intro tag op huses
    have hw := wf_reach hr
    have hlt : tag < 2 ^ 16 := by
      rcases huses with hp | ⟨t, ht, rfl⟩
      · exact hw.thread tag hp
      · exact (hw.tasks t ht).tag
    rw [prepSqe_tag _ _ hlt]
    rfl

theorem fetchLoop_results {q₀ q : Memory} {n : ℕ} (hn : n ≤ 2 ^ 16) (h0 : q₀.ring.sq = [])
    (hf : ∀ i < n, (q₀.ios i).flags = { needFetchRq := true, ioFree := true })
    (hr : n ≤ q₀.ring.sqEntries) (h : fetchLoop q₀ n = some q) : ∀ e ∈ q.ring.sq, e.cmd.result = none := by
  induction n generalizing q with
  | zero =>
    cases h
    simp [h0]
  | succ n ih =>
    have hf' : ∀ i < n, (q₀.ios i).flags = { needFetchRq := true, ioFree := true } := fun i hi => hf i (by omega)
    rw [fetchLoop_succ] at h
    obtain ⟨q₁, h₁, h₂⟩ := Option.bind_eq_some_iff.mp h
    obtain ⟨⟨r, q₂⟩, hc, rfl⟩ := Option.map_eq_some_iff.mp h₂
    have hq₁ := fetchLoop_fetched (by omega) h0 hf' (by omega) h₁
    have hlen : q₁.ring.sq.length = n := by simpa using congrArg List.length hq₁.tags
    have hop : neededOp (q₁.ios n).flags = some .fetchReq := by
      rw [hq₁.rest n (le_refl n), hf n (by omega)]
      rfl
    have hroom : ¬ q₁.ring.sqEntries ≤ q₁.ring.sq.length := by
      rw [hq₁.sqEntries, hlen]
      omega
    rw [ublksrvQueueIoCmd_eq, hop] at hc
    simp only [hroom, if_false] at hc
    split_ifs at hc
    cases hc
    intro e he
    rcases List.mem_append.mp he with he | he
    · exact ih (by omega) hf' (by omega) h₁ e he
    · rw [List.mem_singleton.mp he]
      rfl

theorem ublksrvQueueInit_results {qId : ℕ} {buf : ℕ → UInt64} {mem q : Memory}
    (h : ublksrvQueueInit (ublksrvDevInit info) qId buf mem = some q) : ∀ e ∈ q.ring.sq, e.cmd.result = none := by
  have hring := (calculateDepths_devInit info).1
  rw [ublksrvQueueInit_eq] at h
  obtain ⟨q₁, hq₁, rfl⟩ := Option.map_eq_some_iff.mp h
  have hnone : ∀ e ∈ q₁.ring.sq, e.cmd.result = none := by
    refine fetchLoop_results info.queueDepth.toNat_lt.le rfl ?_ ?_ hq₁
    · intro i hi
      simp [prepared, hi]
    · exact (by omega : _ ≤ _).trans (le_sqEntriesOf _)
  exact hnone

section

variable (h : (machine info).Reach NoFailure s)

include h

theorem one_holder (tag : ℕ) : tokens (· == tag) s ≤ 1 := tokens_tag_le_one h (surplus_eq_zero _ h)

theorem holds_of_mayFill (ht : t ∈ s.tasks) (hm : t.mayFill = true) : t.holds = true := by
  have hok := (wf_reach h).tasks t ht
  have hfail := failed_reach h t ht
  apply holds_of_cap hok hm
  unfold Task.mayFill at hm
  unfold Task.cap
  split <;> simp_all

theorem absent_of_mayFill (hi : s.tasks[i]? = some t) (hm : t.mayFill = true) :
    Absent { s with tasks := s.tasks.eraseIdx i } t.tag :=
  absent_task (one_holder h t.tag) hi (holds_of_mayFill h (List.mem_of_getElem? hi) hm)

theorem sq_apart (ht : t ∈ s.tasks) (hm : t.mayFill = true) (he : e ∈ s.mem.ring.sq) : e.tag ≠ t.tag := by
  obtain ⟨i, hi⟩ := List.mem_iff_getElem?.mp ht
  exact (absent_of_mayFill h hi hm).sq e he

theorem tasks_apart (hi : s.tasks[i]? = some t) (hm : t.mayFill = true) (hj : s.tasks[j]? = some u)
    (hn : u.mayFill = true) (hne : j ≠ i) : u.tag ≠ t.tag := by
  apply (absent_of_mayFill h hi hm).tasks
  · exact List.mem_eraseIdx_iff_getElem?.mpr ⟨j, hne, hj⟩
  · exact holds_of_mayFill h (List.mem_of_getElem? hj) hn

theorem pending_apart (hp : tag ∈ s.thread.pc.pending) :
    (∀ t ∈ s.tasks, t.mayFill = true → t.tag ≠ tag) ∧ ∀ e ∈ s.mem.ring.sq, e.tag ≠ tag := by
  have ha := absent_goto .reap (one_holder h tag) hp rfl
  exact ⟨fun t ht hm => ha.tasks t ht (holds_of_mayFill h ht hm), ha.sq⟩

theorem sq_nodup : (s.mem.ring.sq.map Sqe.tag).Nodup := by
  rw [List.nodup_iff_count_le_one]
  intro tag
  have hone := one_holder h tag
  rw [List.count, List.countP_map]
  change s.mem.ring.sq.countP (fun e => e.tag == tag) ≤ 1
  rw [tokens] at hone
  omega

theorem take_apart {n : ℕ} {e f : Sqe} (he : e ∈ s.mem.ring.sq.take n) (hf : f ∈ s.mem.ring.sq.drop n) :
    e.tag ≠ f.tag := by
  have hall := sq_nodup h
  rw [← List.take_append_drop n s.mem.ring.sq, List.map_append, List.nodup_append] at hall
  exact hall.2.2 _ (List.mem_map_of_mem he) _ (List.mem_map_of_mem hf)

theorem not_atFail (ht : t ∈ s.tasks) : t.atFail = false := by
  cases hf : t.atFail with
  | false => rfl
  | true =>
    have hfailed := ((wf_reach h).tasks t ht).failed hf
    rw [failed_reach h t ht] at hfailed
    cases hfailed

theorem needs_commit (ht : t ∈ s.tasks) (hp : t.pc = .cmd .fill) :
    neededOp (s.mem.ios t.tag).flags = some .commitAndFetchReq := by
  obtain ⟨o, -, hl⟩ := linked_reach h
  have hm : t.mayFill = true := by simp [Task.mayFill, hp]
  obtain ⟨-, hget, hset⟩ := hl.tasks t ht (holds_of_mayFill h ht hm)
  obtain ⟨hcommit, hfree⟩ := hset (by simp [Task.marked, hp])
  rw [State.flags] at hget hcommit hfree
  simp [neededOp, hget, hcommit, hfree]

theorem fill_commits {q' : Memory} {pc' : IoCmdPc} (hi : s.tasks[i]? = some t) (hp : t.pc = .cmd .fill)
    (hc : CallStep s.mem t.tag .fill q' pc') : q' = filled s.mem t.tag .commitAndFetchReq ∧ pc' = .sub := by
  have ht := List.mem_of_getElem? hi
  have hop := needs_commit h ht hp
  have hroom := room_at_fill h (.inr ⟨t, ht, rfl, .inr hp⟩)
  cases hc with
  | noWork hn =>
    rw [hop] at hn
    cases hn
  | noSqe op hn hr => omega
  | fill op hn hr =>
    obtain rfl : op = .commitAndFetchReq := Option.some.inj (hn.symm.trans hop)
    exact ⟨rfl, rfl⟩

theorem driver_apart (hc : s.driver[i]? = some c) (ht : t ∈ s.tasks) (hm : t.mayFill = true) :
    t.tag ≠ c.tag :=
  (absent_taken (one_holder h c.tag) hc).tasks t ht (holds_of_mayFill h ht hm)

end

section

variable {q q' : Memory} {pc pc' : IoCmdPc} {a : Act} {ev : List Event} {failed : Bool} {t' : Task}

theorem CallStep.ioCmdBuf (h : CallStep q tag pc q' pc') : q'.ioCmdBuf = q.ioCmdBuf := by
  cases h <;> rfl

theorem CallStep.result (h : CallStep q tag pc q' pc') (j : ℕ) : (q'.ios j).result = (q.ios j).result := by
  cases h with
  | fill op => exact setFlags_result q tag _ j
  | _ => rfl

theorem TaskStep.ioCmdBuf (h : TaskStep q t failed q' t' ev) : q'.ioCmdBuf = q.ioCmdBuf := by
  cases h with
  | failCall _ _ _ _ hc | call _ _ _ _ hc => exact hc.ioCmdBuf
  | _ => rfl

theorem TaskStep.opType (h : TaskStep q t failed q' t' ev) : t'.opType = t.opType := by
  cases h <;> rfl

theorem TaskStep.result (h : TaskStep q t failed q' t' ev) {j : ℕ} (hj : j ≠ t.tag) :
    (q'.ios j).result = (q.ios j).result := by
  cases h with
  | failCall _ _ _ _ hc | call _ _ _ _ hc => exact hc.result j
  | failMark | mark => exact congrArg UblkIo.result (Function.update_of_ne hj _ _)
  | _ => rfl

/-- The queue thread and the kernel touch no goroutine and no result, and write the descriptor only
of a tag that the driver has a command for. -/
structure Apart (s s' : State) : Prop where
  tasks : s'.tasks = s.tasks
  result : ∀ j, (s'.mem.ios j).result = (s.mem.ios j).result
  desc : ∀ j, (∀ (i : ℕ) (c : Sqe), s.driver[i]? = some c → j ≠ c.tag) → s'.mem.ioCmdBuf j = s.mem.ioCmdBuf j

theorem Step.apart (h : Step s a s') (ha : ∀ r, a ≠ .onRequest r) (ht : ∀ i failed, a ≠ .task i failed) :
    Apart s s' := by
  cases h with
  | request | drop => exact absurd rfl (ha _)
  | task => exact absurd rfl (ht _ _)
  | reapOk i c iod hpc hc =>
    constructor
    · rfl
    · exact stopUnlessFetch_result _ _ _
    · intro j hj
      exact (Function.update_of_ne (hj i c hc) _ _).trans (stopUnlessFetch_ioCmdBuf _ _ _ j)
  | reapGetData i c iod hpc hc | reapOther i c res iod hpc hc =>
    constructor
    · rfl
    · intro j
      exact (setFlags_result _ _ _ j).trans (stopUnlessFetch_result _ _ _ j)
    · intro j _
      exact stopUnlessFetch_ioCmdBuf _ _ _ j
  | getData tag q' pc pc' hpc hc =>
    constructor
    · rfl
    · exact hc.result
    · intro j _
      exact congrFun hc.ioCmdBuf j
  | _ => exact ⟨rfl, fun _ => rfl, fun _ _ => rfl⟩

theorem Step.asked {P : IoDesc → Prop} (h : Step s a s') (hd : ∀ i iod, a = .reap i ublkIoResOk iod → P iod)
    (hp : ∀ tag rid, s.thread.pc = .onRequest tag rid → P (s.mem.ioCmdBuf tag)) (tag rid : ℕ)
    (hpc : s'.thread.pc = .onRequest tag rid) : P (s'.mem.ioCmdBuf tag) := by
  cases h with
  | task i t failed q' t' ev hi hst =>
    change P (q'.ioCmdBuf tag)
    rw [hst.ioCmdBuf]
    exact hp tag rid hpc
  | reapOk i c iod hpc' hc =>
    obtain ⟨rfl, rfl⟩ := ThreadPc.onRequest.inj hpc
    simp only [Function.update_self]
    exact hd i iod rfl
  | spurious => exact hp tag rid hpc
  | reapTarget i c res iod hpc' | reapOther i c res iod hpc' =>
    change s.thread.pc = _ at hpc
    rw [hpc'] at hpc
    cases hpc
  | submitAll | submitPart | waitCqe | done | enter | lockCond | loadWait | loadPass | sleep | wake | unlockCond
  | fetchAdd | getDataRet | getData | reapGetData | reapEnd | request | drop => cases hpc

theorem Step.commits (h : (machine info).Reach NoFailure s) (hs : Step s a s')
    (ht : ∀ i failed, a ≠ .task i failed) (hn : ∀ n, a ≠ .submit n) :
    s.mem.ring.sq <+: s'.mem.ring.sq ∧ ∀ e ∈ s'.mem.ring.sq, e ∈ s.mem.ring.sq ∨ e.cmd.result = none := by
  have same : ∀ {l : List Sqe}, l = s.mem.ring.sq →
      s.mem.ring.sq <+: l ∧ ∀ e ∈ l, e ∈ s.mem.ring.sq ∨ e.cmd.result = none := by
    rintro l rfl
    exact ⟨List.prefix_rfl, fun e he => .inl he⟩
  cases hs with
  | task => exact absurd rfl (ht _ _)
  | submitAll | submitPart => exact absurd rfl (hn _)
  | getData tag q' pc pc' hpc hc =>
    cases hc with
    | fill op hop hr =>
      obtain ⟨o, -, hl⟩ := linked_reach h
      have hgood := hl.thread (tag, .getData) (by rw [hpc]; rfl)
      obtain rfl : op = .needGetData := Option.some.inj (hop.symm.trans hgood.2)
      refine ⟨List.prefix_append _ _, ?_⟩
      intro e he
      rcases List.mem_append.mp he with he | he
      · exact .inl he
      · rw [List.mem_singleton.mp he]
        exact .inr rfl
    | _ => exact same rfl
  | reapOk | reapOther | reapGetData =>
    apply same
    simp [setFlags, setIo]
  | _ => exact same rfl

theorem call_cases (h : (machine info).Reach NoFailure s) (hi : s.tasks[i]? = some t)
    (hc : t.pc.call.isSome = true) (hs : TaskStep s.mem t false q' t' ev) :
    (∀ j, (q'.ios j).result = (s.mem.ios j).result) ∧
      (q'.ring.sq = s.mem.ring.sq ∧ t'.mayFill = t.mayFill ∧ (t.mayFill = true → t.pc = .cmd .lock) ∨
        q'.ring.sq = s.mem.ring.sq ++ [prepSqe s.mem t.tag .commitAndFetchReq] ∧ t.pc = .cmd .fill ∧
          t'.mayFill = false) := by
  have hfail := not_atFail h (List.mem_of_getElem? hi)
  cases hs with
  | verdict hp | failMark hp | copyOut hp | finalUnmap hp | finalRes hp | mark res hp | putMsg hp =>
    rw [hp] at hc
    cases hc
  | failCall _ _ _ hp | failRet _ hp => simp [Task.atFail, hp] at hfail
  | ret r hp => exact ⟨fun _ => rfl, .inl ⟨rfl, by simp [Task.mayFill, hp], by simp [Task.mayFill, hp]⟩⟩
  | call m pc pc' hp hcall =>
    refine ⟨hcall.result, ?_⟩
    cases pc with
    | fill =>
      obtain ⟨rfl, rfl⟩ := fill_commits h hi hp hcall
      exact .inr ⟨rfl, hp, rfl⟩
    | _ =>
      left
      cases hcall <;> exact ⟨rfl, by simp [Task.mayFill, Task.called, hp], by simp [Task.mayFill, hp]⟩

theorem outside_cases (h : (machine info).Reach NoFailure s) (hi : s.tasks[i]? = some t)
    (hc : t.pc.call = none) (hs : TaskStep s.mem t false q' t' ev) :
    q'.ring = s.mem.ring ∧ t'.mayFill = t.mayFill ∧
      (∀ j, (j = t.tag → t.mayFill = false) → (q'.ios j).result = (s.mem.ios j).result) ∧
      (t'.pc = .cmd .lock ∨ t'.pc = .cmd .fill →
        ∃ res : Int32, t.pc = .mark res ∧ (q'.ios t.tag).result.toInt32 = res) := by
  have hfail := not_atFail h (List.mem_of_getElem? hi)
  cases hs with
  | failCall _ _ _ hp | failRet _ hp | failMark hp => simp [Task.atFail, hp] at hfail
  | ret _ hp | call _ _ _ hp =>
    rw [hp] at hc
    cases hc
  | mark res hp =>
    refine ⟨rfl, by simp [Task.mayFill, hp], ?_, ?_⟩
    · intro j hj
      have hne : j ≠ t.tag := by
        intro he
        have hm := hj he
        simp [Task.mayFill, hp] at hm
      exact congrArg UblkIo.result (Function.update_of_ne hne _ _)
    · intro _
      refine ⟨res, hp, ?_⟩
      simp [ublksrvMarkIoDone, setIo]
  | verdict hp | copyOut hp | finalUnmap hp | finalRes hp | putMsg hp =>
    exact ⟨rfl, by simp [Task.mayFill, hp], fun _ _ => rfl, by simp⟩

end

end GoUblksrv.Queue
