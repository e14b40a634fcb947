import GoUblksrv.Queue.Locks
import GoUblksrv.Queue.Ownership

/-!
The meaning of `tgt_io_inflight`. In every run it is the number of delivered requests
less the number of commands queued for them, so that a second commit of a request or a
command for NEED_GET_DATA lets it drift; without these it counts the requests whose
commit is not queued.
-/

namespace GoUblksrv.Queue

variable {s s' : State} {a : Act} {t t' : Task} {q q' : Memory} {ev : List Event}

/-- The delivered requests less the decrements made, before the counter wraps. -/
def State.due (s : State) : ℤ :=
  s.tasks.length + s.dropped - (s.tasks.map Task.subs).sum - s.getDatas -
    if s.thread.pc = .fetchAdd then 1 else 0

def State.subtracts (s : State) : Act → Bool
  | .thread => s.thread.pc.call == some .sub
  | .task i _ => (s.tasks[i]?.bind fun t => t.pc.call) == some .sub
  | _ => false

theorem wrapInt_add (n k : ℤ) : wrapInt (wrapInt n + k) = wrapInt (n + k) := by
  simp [wrapInt]

theorem CallStep.inflight {tag : ℕ} {pc pc' : IoCmdPc} (h : CallStep q tag pc q' pc') :
    q'.tgtIoInflight = if pc = .sub then wrapInt (q.tgtIoInflight - 1) else q.tgtIoInflight := by
  cases h <;> simp [filled, setFlags, setIo]

theorem TaskStep.inflight {failed : Bool} (h : TaskStep q t failed q' t' ev) :
    t'.subs = t.subs ∧ q'.tgtIoInflight = q.tgtIoInflight ∨
      t.pc.call = some .sub ∧ t'.subs = t.subs + 1 ∧
        q'.tgtIoInflight = wrapInt (q.tgtIoInflight - 1) := by
  cases h with
  | failCall q' pc pc' hp hc | call q' pc pc' hp hc =>
    have hi := hc.inflight
    simp only [Task.called]
    split_ifs at hi ⊢ with hs
    · exact .inr ⟨by rw [hp, hs]; rfl, rfl, hi⟩
    · exact .inl ⟨rfl, hi⟩
  | verdict => exact .inl ⟨rfl, rfl⟩
  | _ => exact .inl ⟨rfl, rfl⟩

theorem due_step (h : Step s a s') :
    s'.due = s.due ∧ s'.mem.tgtIoInflight = s.mem.tgtIoInflight ∨
      ∃ k, (0 ≤ k ∨ k = -1 ∧ s.subtracts a = true) ∧ s'.due = s.due + k ∧
        s'.mem.tgtIoInflight = wrapInt (s.mem.tgtIoInflight + k) := by
  cases h with
  | task i t failed q' t' ev hi hs =>
    have hsum := List.sum_map_set_of_get (b := t') (f := Task.subs) hi
    simp only [State.due, List.length_set]
    rcases hs.inflight with ⟨hsubs, hin⟩ | ⟨hsub, hsubs, hin⟩
    · exact .inl ⟨by omega, hin⟩
    · exact .inr ⟨-1, .inr ⟨rfl, by simp [State.subtracts, hi, hsub]⟩, by omega, hin⟩
  | getData tag q' pc pc' hpc hc =>
    have hi := hc.inflight
    simp only [State.due, State.goto, hpc, reduceCtorEq, ↓reduceIte]
    split_ifs at hi ⊢ with hs
    · exact .inr ⟨-1, .inr ⟨rfl, by simp [State.subtracts, ThreadPc.call, hpc, hs]⟩, by omega, hi⟩
    · exact .inl ⟨rfl, hi⟩
  | fetchAdd hpc =>
    refine .inr ⟨1, .inl (by omega), ?_, rfl⟩
    simp only [State.due, State.goto, hpc, reduceCtorEq, ↓reduceIte]
    omega
  | request tag rid hpc | drop tag rid hpc =>
    refine .inl ⟨?_, rfl⟩
    simp [State.due, State.goto, hpc]
    omega
  | reapTarget => exact .inl ⟨rfl, rfl⟩
  | reapOk i c iod hpc | reapGetData i c iod hpc | reapOther i c res iod hpc =>
    exact .inl ⟨by simp [State.due, State.taken, State.goto, hpc], by simp [setFlags, setIo]⟩
  | _ => exact .inl ⟨by simp_all [State.due, State.goto, afterReap], rfl⟩

section

variable {info : DevInfo} {C : State → Act → Prop}

theorem inflight_reach (h : (machine info).Reach C s) : s.mem.tgtIoInflight = wrapInt s.due := by
  induction h with
  | init hi =>
    obtain ⟨qId, buf, mem, q, hq, rfl⟩ := hi
    simp [State.due, start, (ublksrvQueueInit_initialised hq).inflight, wrapInt]
  | step _ _ hs ih =>
    rcases due_step (step_cases hs) with ⟨hd, hin⟩ | ⟨k, -, hd, hin⟩
    · rw [hin, hd, ih]
    · rw [hin, hd, ih, wrapInt_add]

theorem tokens_dropped_step (hw : Wf s) (h : Step s a s') :
    tokens (fun _ => true) s' + s'.dropped + surplus (fun _ => true) s ≤
      tokens (fun _ => true) s + s.dropped + surplus (fun _ => true) s' := by
  have ht := tokens_step (p := fun _ => true) hw h
  cases h with
  | drop tag rid hpc =>
    simp [tokens, surplus, State.goto, ThreadPc.pending, hpc]
    omega
  | _ =>
    simp only [State.goto, State.taken, afterReap] at ht ⊢
    omega

theorem tokens_dropped_le (h : (machine info).Reach C s) :
    tokens (fun _ => true) s + s.dropped ≤
      info.queueDepth.toNat + surplus (fun _ => true) s := by
  induction h with
  | init hi =>
    obtain ⟨qId, buf, mem, q, hq, rfl⟩ := hi
    have ht := tokens_start (p := fun _ => true) (ublksrvQueueInit_initialised hq)
    simp only [List.countP_true, List.length_range] at ht
    simp only [start] at ht ⊢
    omega
  | step hr _ hs ih =>
    have := tokens_dropped_step (wf_reach hr) (step_cases hs)
    omega

def Task.inflight (t : Task) : Bool := t.subs == 0

def Task.unqueued (t : Task) : Bool := t.queued.isEmpty

theorem queued_le_one (h : (machine info).Reach NoFailure s) : ∀ t ∈ s.tasks, t.queued.length ≤ 1 := by
  intro t ht
  have hz := surplus_eq_zero (fun _ => true) h
  rw [surplus, List.countP_eq_zero] at hz
  have := hz t ht
  simp only [Bool.and_true, decide_eq_true_eq] at this
  omega

theorem committed_reach (h : (machine info).Reach NoFailure s) :
    ∀ t ∈ s.tasks, t.mayFill = false → t.queued.length = 1 := by
  apply h.invariant (I := fun s => ∀ t ∈ s.tasks, t.mayFill = false → t.queued.length = 1)
  · rintro t ⟨qId, buf, mem, q, -, rfl⟩
    simp [start]
  · intro s a s' hr hi hc hs
    cases step_cases hs with
    | request tag rid hpc =>
      intro t ht hm
      simp only [List.mem_append, List.mem_singleton] at ht
      rcases ht with ht | rfl
      · exact hi t ht hm
      · simp [Task.mayFill] at hm
    | task i t failed q' t' ev hg hst =>
      have hmem := List.mem_of_getElem? hg
      have hold := hi t hmem
      have hok := (wf_reach hr).tasks t hmem
      have hfail := failed_reach hr t hmem
      refine List.forall_mem_set hi fun hm => ?_
      cases hst with
      | call q' pc pc' hp hcall =>
        cases hcall with
        | lock => simp [Task.mayFill, Task.called] at hm
        | fill op hn hroom =>
          have hq : t.queued = [] := by simpa [Task.cap, hp, hfail] using hok.cap
          simp [Task.called, hq, queuedOp_fill hn hroom]
        | noSqe op hn hroom =>
          have hfill : s.AtFill t.tag := .inr ⟨t, hmem, rfl, .inr hp⟩
          have := room_at_fill hr hfill
          omega
        | noWork hn =>
          obtain ⟨o, -, hl⟩ := linked_reach hr
          have hh := holds_of_cap hok (by simp [Task.mayFill, hp]) (by simp [Task.cap, hp, hfail])
          obtain ⟨-, hget, hset⟩ := hl.tasks t hmem hh
          obtain ⟨hcommit, hfree⟩ := hset (by simp [Task.marked, hp])
          rw [State.flags] at hget hcommit hfree
          simp [neededOp, hget, hcommit, hfree] at hn
        | _ => simpa [Task.called, queuedOp] using hold (by simp [Task.mayFill, hp])
      | ret r hp | putMsg hp => exact hold (by simp [Task.mayFill, hp])
      | verdict hp => cases failed <;> simp [Task.mayFill] at hm
      | _ => simp [Task.mayFill, Task.called] at hm
    | _ => exact hi

theorem inflight_holds (h : (machine info).Reach NoFailure s) {t : Task} (ht : t ∈ s.tasks)
    (hi : t.inflight = true) : t.holds = true ∨ t.locked = true := by
  have hok := (wf_reach h).tasks t ht
  have hsubs : t.subs = 0 := by simpa [Task.inflight] using hi
  have hcount := hok.subs
  cases hm : t.mayFill with
  | false =>
    have hone := committed_reach h t ht hm
    have hat : t.atSub = true := by
      cases hs : t.atSub
      · simp [hs, hsubs] at hcount
        omega
      · rfl
    right
    unfold Task.atSub at hat
    split at hat
    · simp [Task.locked, TaskPc.call, *, IoCmdPc.locked]
    · simp [Task.locked, TaskPc.call, *, IoCmdPc.locked]
    · cases hat
  | true =>
    left
    have hat : t.atSub = false := by
      have hfail := failed_reach h t ht
      have hnot : t.atFail = false := by
        by_contra hc
        exact Bool.false_ne_true (hfail.symm.trans (hok.failed (by simpa using hc)))
      unfold Task.atSub
      split
      · simp [Task.atFail, *] at hnot
      · simp [Task.mayFill, *] at hm
      · rfl
    simp [hat, hsubs] at hcount
    simp [Task.holds, hm, List.eq_nil_of_length_eq_zero hcount.symm]

theorem inflight_dropped_le (h : (machine info).Reach NoFailure s) :
    s.tasks.countP Task.inflight + s.dropped ≤ info.queueDepth.toNat + 1 := by
  have hk := tokens_dropped_le h
  rw [surplus_eq_zero _ h] at hk
  have hlock := lockers_reach h
  have hone : s.mem.lock.toNat ≤ 1 := Bool.toNat_le _
  have hle : s.tasks.countP Task.inflight ≤
      s.tasks.countP Task.holds + s.tasks.countP Task.locked :=
    List.countP_le_add fun t ht hi => inflight_holds h ht hi
  simp only [tokens, Bool.and_true] at hk
  change _ + s.tasks.countP Task.holds + _ + _ ≤ _ at hk
  simp only [lockers] at hlock
  omega

theorem sum_subs {l : List Task} (h : ∀ t ∈ l, t.subs ≤ 2) :
    l.length + l.countP (fun t => decide (2 ≤ t.subs)) =
      (l.map Task.subs).sum + l.countP Task.inflight := by
  induction l with
  | nil => rfl
  | cons t l ih =>
    have hl := ih fun u hu => h u (by simp [hu])
    have ht := h t (by simp)
    simp only [List.map_cons, List.sum_cons, List.countP_cons, List.length_cons, Task.inflight,
      beq_iff_eq, decide_eq_true_eq]
    split_ifs <;> omega

def NoDrift (_ : State) (a : Act) : Prop := a.drifts = false

theorem NoDrift.noFailure (h : (machine info).Reach NoDrift s) : (machine info).Reach NoFailure s := by
  refine h.mono fun t a ha => ?_
  cases a with
  | task i failed => exact ha
  | _ => rfl

theorem noGetData_reach (h : (machine info).Reach NoDrift s) :
    s.getDatas = 0 ∧ s.thread.pc.call = none := by
  apply h.invariant (I := fun s => s.getDatas = 0 ∧ s.thread.pc.call = none)
  · rintro t ⟨qId, buf, mem, q, -, rfl⟩
    exact ⟨rfl, rfl⟩
  · rintro s a s' - ⟨h0, hcall⟩ hc hs
    cases step_cases hs with
    | getData tag q' pc pc' hpc => simp [hpc, ThreadPc.call] at hcall
    | reapGetData => simp [NoDrift, Act.drifts] at hc
    | reapTarget | reapOther | spurious | task => exact ⟨h0, hcall⟩
    | _ => exact ⟨h0, rfl⟩

theorem due_eq (h : (machine info).Reach NoDrift s) : s.due =
    s.tasks.countP Task.inflight + s.dropped - if s.thread.pc = .fetchAdd then 1 else 0 := by
  have hf := NoDrift.noFailure h
  have hsubs : ∀ t ∈ s.tasks, t.subs ≤ 1 := by
    intro t ht
    have hq := queued_le_one hf t ht
    have hs := ((wf_reach hf).tasks t ht).subs
    omega
  have hsum := sum_subs fun t ht => (hsubs t ht).trans (by decide)
  have htwice : s.tasks.countP (fun t => decide (2 ≤ t.subs)) = 0 := by
    rw [List.countP_eq_zero]
    intro t ht h2
    have := hsubs t ht
    have := of_decide_eq_true h2
    omega
  have hget := (noGetData_reach h).1
  simp only [State.due]
  omega

theorem inflight_eq (h : (machine info).Reach NoDrift s) : s.mem.tgtIoInflight =
    s.tasks.countP Task.inflight + s.dropped - if s.thread.pc = .fetchAdd then 1 else 0 := by
  have hle := inflight_dropped_le (NoDrift.noFailure h)
  have hd := info.queueDepth.toNat_lt
  rw [inflight_reach h, due_eq h]
  apply wrapInt_eq <;> split_ifs <;> omega

def ThreadPc.inHandleCqe : ThreadPc → Bool
  | .onRequest _ _ | .fetchAdd | .getData _ _ => true
  | _ => false

/-- The queue thread passed the wait loop and has reaped no CQE since. -/
def Thread.passed (t : Thread) : Bool :=
  match t.pc with
  | .unlockCond | .submit | .waitCqe => true
  | .reap => t.reapped == 0
  | _ => false

/-- The queue thread passed the wait loop and has delivered no request since. -/
def State.calm (s : State) : Bool :=
  match s.thread.pc with
  | .unlockCond | .submit | .waitCqe => true
  | .reap => s.batch == 0
  | _ => false

def ThreadPc.reaping : ThreadPc → Bool
  | .waitCqe | .reap | .onRequest .. | .fetchAdd | .getData .. => true
  | _ => false

theorem batch_le_reapped (h : (machine info).Reach C s) :
    s.thread.pc.reaping = true → s.batch ≤ s.thread.reapped := by
  apply h.invariant (I := fun s => s.thread.pc.reaping = true → s.batch ≤ s.thread.reapped)
  · rintro t ⟨qId, buf, mem, q, -, rfl⟩
    simp [start, ThreadPc.reaping]
  · intro s a s' _ hi _ hs
    cases step_cases hs with
    | submitAll | submitPart => exact fun _ => Nat.zero_le _
    | waitCqe timedOut hpc => exact fun _ => hi (by simp [hpc, ThreadPc.reaping])
    | reapTarget i c res iod hpc | reapGetData i c iod hpc | reapOther i c res iod hpc =>
      exact fun _ => Nat.le_succ_of_le (hi (by simp [hpc, ThreadPc.reaping]))
    | reapOk i c iod hpc => exact fun _ => Nat.succ_le_succ (hi (by simp [hpc, ThreadPc.reaping]))
    | request tag rid hpc | drop tag rid hpc | fetchAdd hpc | getDataRet tag r hpc | getData tag q' pc pc' hpc =>
      exact fun _ => hi (by simp [hpc, ThreadPc.reaping])
    | task => exact hi
    | spurious => exact hi
    | _ => simp [State.goto, afterReap, ThreadPc.reaping]

def ThreadPc.delivering : ThreadPc → Bool
  | .onRequest .. | .fetchAdd => true
  | _ => false

theorem batch_reach (h : (machine info).Reach C s) : s.thread.pc.delivering = true → s.batch ≠ 0 := by
  apply h.invariant (I := fun s => s.thread.pc.delivering = true → s.batch ≠ 0)
  · rintro t ⟨qId, buf, mem, q, -, rfl⟩
    simp [start, ThreadPc.delivering]
  · intro s a s' _ hi _ hs
    cases step_cases hs with
    | reapOk => exact fun _ => Nat.succ_ne_zero _
    | request tag rid hpc | drop tag rid hpc => exact fun _ => hi (by simp [hpc, ThreadPc.delivering])
    | reapTarget i c res iod hpc | reapOther i c res iod hpc =>
      simp [State.taken, hpc, ThreadPc.delivering]
    | task => exact hi
    | spurious => exact hi
    | _ => simp [State.goto, afterReap, ThreadPc.delivering]

theorem TaskStep.inflight_mono {failed : Bool} (h : TaskStep q t failed q' t' ev)
    (hi : t'.inflight = true) : t.inflight = true := by
  rcases h.inflight with ⟨hs, -⟩ | ⟨-, hs, -⟩ <;> simp_all [Task.inflight]

theorem calm_reach (h : (machine info).Reach NoDrift s) :
    s.calm = true → (∀ t ∈ s.tasks, t.inflight = false) ∧ s.dropped = 0 := by
  refine h.invariant (I := fun s => s.calm = true →
    (∀ t ∈ s.tasks, t.inflight = false) ∧ s.dropped = 0) ?_ ?_
  · rintro t ⟨qId, buf, mem, q, -, rfl⟩
    simp [start, State.calm]
  · intro s a s' hr hi _ hs
    cases step_cases hs with
    | loadPass hpc hle =>
      intro _
      have heq := inflight_eq hr
      simp only [hpc, reduceCtorEq, ↓reduceIte] at heq
      have hz : s.tasks.countP Task.inflight = 0 := by omega
      rw [List.countP_eq_zero] at hz
      refine ⟨fun t ht => by simpa using hz t ht, ?_⟩
      simp only [State.goto]
      omega
    | unlockCond hpc | submitAll hpc | submitPart n hpc hn | waitCqe timedOut hpc =>
      exact fun _ => hi (by simp [State.calm, hpc])
    | task i t failed q' t' ev hg hst =>
      intro hp
      obtain ⟨ht, hd⟩ := hi hp
      refine ⟨List.forall_mem_set ht ?_, hd⟩
      cases hb : t'.inflight
      · rfl
      · exact absurd (hst.inflight_mono hb) (by simp [ht t (List.mem_of_getElem? hg)])
    | fetchAdd hpc =>
      have hb := batch_reach hr (by simp [hpc, ThreadPc.delivering])
      simp [State.calm, State.goto, hb]
    | getDataRet tag r hpc =>
      have hcall := (noGetData_reach hr).2
      simp [hpc, ThreadPc.call] at hcall
    | reapTarget i c res iod hpc | reapOther i c res iod hpc =>
      intro hp
      exact hi (by simpa [State.calm, State.taken, hpc] using hp)
    | spurious hpc => simp [State.calm, hpc]
    | _ => simp [State.calm, State.goto, afterReap]

theorem passed_reach (h : (machine info).Reach NoDrift s) (hp : s.thread.passed = true) :
    (∀ t ∈ s.tasks, t.inflight = false) ∧ s.dropped = 0 := by
  apply calm_reach h
  unfold Thread.passed at hp
  unfold State.calm
  split at hp
  · simp [*]
  · simp [*]
  · simp [*]
  · rename_i hpc
    have hle := batch_le_reapped h (by simp [hpc, ThreadPc.reaping])
    have hzero : s.thread.reapped = 0 := by simpa using hp
    rw [hzero] at hle
    simp [Nat.le_zero.mp hle]
  · cases hp

theorem inflight_split (h : (machine info).Reach NoFailure s) :
    s.tasks.countP Task.inflight = s.tasks.countP Task.unqueued + s.tasks.countP Task.atSub := by
  have each : ∀ t ∈ s.tasks, t.inflight = (t.unqueued || t.atSub) ∧ (t.atSub = true → t.unqueued = false) := by
    intro t ht
    have hone := queued_le_one h t ht
    have hsubs := ((wf_reach h).tasks t ht).subs
    cases hq : t.queued with
    | nil =>
      rw [hq, List.length_nil] at hsubs
      have hzero : t.subs = 0 := by omega
      cases hat : t.atSub
      · simp [Task.inflight, Task.unqueued, hq, hzero]
      · simp [hat] at hsubs
    | cons op l =>
      rw [hq, List.length_cons] at hone hsubs
      cases hat : t.atSub
      · have hpos : t.subs ≠ 0 := by
          simp only [hat, Bool.toNat_false] at hsubs
          omega
        simp [Task.inflight, Task.unqueued, hq, hpos]
      · have hzero : t.subs = 0 := by
          simp only [hat, Bool.toNat_true] at hsubs
          omega
        simp [Task.inflight, Task.unqueued, hq, hzero]
  apply le_antisymm
  · exact List.countP_le_add fun t ht hi => by simpa [(each t ht).1] using hi
  · rw [Nat.add_comm]
    exact List.countP_add_le fun t ht =>
      ⟨fun hat => ⟨by simp [(each t ht).1, hat], (each t ht).2 hat⟩, fun hu => by simp [(each t ht).1, hu]⟩

end

end GoUblksrv.Queue
