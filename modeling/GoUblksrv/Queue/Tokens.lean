import GoUblksrv.Queue.Init

/-!
A tag is either with the driver, in a prepared SQE, in the hands of the queue thread, or
held by the goroutine of a delivered request. Counting the tags in these four places
bounds the SQ and shows that no two of them share a tag; the count only grows when a
goroutine queues a second SQE for the same request.
-/

namespace GoUblksrv.Queue

variable {s s' : State} {a : Act} {t t' : Task} {q q' : Memory} {ev : List Event}

/-- How many SQEs a goroutine can have queued when it stands at `t.pc`. -/
def Task.cap (t : Task) : ℕ :=
  match t.pc with
  | .handling | .failMark | .failCmd .lock | .failCmd .fill => 0
  | .failCmd _ | .copyOut | .finalRes | .mark _ | .cmd .lock | .cmd .fill => if t.failed then 1 else 0
  | .cmd _ | .putMsg | .ended => if t.failed then 2 else 1

def Task.mayFill (t : Task) : Bool :=
  match t.pc with
  | .cmd .lock | .cmd .fill => true
  | .cmd _ | .putMsg | .ended => false
  | _ => true

def Task.atSub (t : Task) : Bool :=
  match t.pc with
  | .failCmd .sub | .cmd .sub => true
  | _ => false

def Task.atFail (t : Task) : Bool :=
  match t.pc with
  | .failMark | .failCmd _ => true
  | _ => false

structure Task.Ok (t : Task) : Prop where
  cap : t.queued.length ≤ t.cap
  failed : t.atFail = true → t.failed = true
  subs : t.subs + t.atSub.toNat = t.queued.length
  tag : t.tag < 2 ^ 16

theorem queuedOp_fill {q : Memory} {tag : ℕ} {op : IoCmdOp} (h : neededOp (q.ios tag).flags = some op)
    (hr : q.ring.sq.length < q.ring.sqEntries) : queuedOp q tag .fill = some op := by
  simp [queuedOp, hr, h]

theorem queuedOp_noWork {q : Memory} {tag : ℕ} (h : neededOp (q.ios tag).flags = none) :
    queuedOp q tag .fill = none := by simp [queuedOp, h]

theorem queuedOp_noSqe {q : Memory} {tag : ℕ} (hr : q.ring.sqEntries ≤ q.ring.sq.length) :
    queuedOp q tag .fill = none := by simp [queuedOp, Nat.not_lt.mpr hr]

theorem Task.Ok.step {failed : Bool} (ht : t.Ok) (h : TaskStep q t failed q' t' ev) : t'.Ok := by
  obtain ⟨hc, hf, hs, htag⟩ := ht
  cases h with
  | verdict hp =>
    cases failed <;> constructor <;> simp_all [Task.cap, Task.atSub, Task.atFail]
  | failCall q' pc pc' hp hcall =>
    have hfail : t.failed = true := hf (by simp [Task.atFail, hp])
    cases hcall with
    | noWork hn =>
      constructor <;> simp_all [Task.cap, Task.atSub, Task.atFail, Task.called, queuedOp_noWork]
    | noSqe op hn hr =>
      constructor <;> simp_all [Task.cap, Task.atSub, Task.atFail, Task.called, queuedOp_noSqe]
    | fill op hn hr =>
      constructor <;> simp_all [Task.cap, Task.atSub, Task.atFail, Task.called, queuedOp_fill hn hr]
    | _ => constructor <;> simp_all [Task.cap, Task.atSub, Task.atFail, Task.called, queuedOp]
  | call q' pc pc' hp hcall =>
    cases hcall with
    | noWork hn =>
      constructor <;> simp_all [Task.cap, Task.atSub, Task.atFail, Task.called, queuedOp_noWork]
      split_ifs at hc ⊢ <;> omega
    | noSqe op hn hr =>
      constructor <;> simp_all [Task.cap, Task.atSub, Task.atFail, Task.called, queuedOp_noSqe]
      split_ifs at hc ⊢ <;> omega
    | fill op hn hr =>
      constructor <;> simp_all [Task.cap, Task.atSub, Task.atFail, Task.called, queuedOp_fill hn hr]
      split_ifs at hc ⊢ <;> omega
    | _ => constructor <;> simp_all [Task.cap, Task.atSub, Task.atFail, Task.called, queuedOp]
  | _ => constructor <;> simp_all [Task.cap, Task.atSub, Task.atFail]

def ThreadPc.tag? : ThreadPc → Option ℕ
  | .onRequest tag _ => some tag
  | .getData tag _ => some tag
  | _ => none

/-- The tag that the queue thread has taken from a CQE and not yet passed on. -/
def ThreadPc.pending : ThreadPc → Option ℕ
  | .onRequest tag _ => some tag
  | .getData tag .lock => some tag
  | .getData tag .fill => some tag
  | _ => none

/-- The tags that a step may queue a command for. -/
def State.Uses (s : State) (tag : ℕ) : Prop := tag ∈ s.thread.pc.tag? ∨ ∃ t ∈ s.tasks, t.tag = tag

def State.Sqes (s : State) (P : Sqe → Prop) : Prop :=
  (∀ e ∈ s.mem.ring.sq, P e) ∧ ∀ e ∈ s.driver, P e

section

variable {P : Sqe → Prop}

theorem CallStep.sqes {tag : ℕ} {pc pc' : IoCmdPc} (h : CallStep q tag pc q' pc')
    (hnew : ∀ op, P (prepSqe q tag op)) (hi : ∀ e ∈ q.ring.sq, P e) : ∀ e ∈ q'.ring.sq, P e := by
  cases h with
  | fill op =>
    intro e he
    simp only [filled, List.mem_append, List.mem_singleton] at he
    rcases he with he | rfl
    · exact hi e he
    · exact hnew op
  | _ => exact hi

theorem Step.sqes (h : Step s a s') (hnew : ∀ tag op, s.Uses tag → P (prepSqe s.mem tag op))
    (hi : s.Sqes P) : s'.Sqes P := by
  obtain ⟨hsq, hd⟩ := hi
  cases h with
  | getData tag q' pc pc' hpc hcall =>
    refine ⟨hcall.sqes (fun op => hnew tag op (.inl ?_)) hsq, hd⟩
    simp [hpc, ThreadPc.tag?]
  | task i t failed q' t' ev hg hst =>
    refine ⟨?_, hd⟩
    have huses : s.Uses t.tag := .inr ⟨t, List.mem_of_getElem? hg, rfl⟩
    cases hst with
    | failCall _ _ _ _ hcall | call _ _ _ _ hcall => exact hcall.sqes (fun op => hnew t.tag op huses) hsq
    | _ => exact hsq
  | submitAll hpc =>
    constructor
    · intro e he
      cases he
    · intro e he
      rcases List.mem_append.mp he with he | he
      · exact hd e he
      · exact hsq e he
  | submitPart n hpc hn =>
    constructor
    · intro e he
      exact hsq e (List.mem_of_mem_drop he)
    · intro e he
      rcases List.mem_append.mp he with he | he
      · exact hd e he
      · exact hsq e (List.mem_of_mem_take he)
  | reapTarget | reapOk | reapGetData | reapOther =>
    constructor
    · simpa [State.taken, setFlags, setIo] using hsq
    · intro e he
      exact hd e (List.mem_of_mem_eraseIdx he)
  | _ => exact ⟨hsq, hd⟩

end

structure Wf (s : State) : Prop where
  tasks : ∀ t ∈ s.tasks, t.Ok
  thread : ∀ tag ∈ s.thread.pc.tag?, tag < 2 ^ 16

theorem Wf.step (hw : Wf s) (h : Step s a s') : Wf s' := by
  obtain ⟨ht, hp⟩ := hw
  cases h with
  | request tag rid hpc =>
    refine ⟨?_, by simp [State.goto, ThreadPc.tag?]⟩
    intro t hm
    simp only [List.mem_append, List.mem_singleton] at hm
    rcases hm with hm | rfl
    · exact ht t hm
    · exact ⟨by simp [Task.cap], by simp [Task.atFail], by simp [Task.atSub],
        hp tag (by simp [hpc, ThreadPc.tag?])⟩
  | task i t failed q' t' ev hi hs =>
    exact ⟨List.forall_mem_set ht ((ht t (List.mem_of_getElem? hi)).step hs), hp⟩
  | getData tag q' pc pc' hpc hcall =>
    exact ⟨ht, by simpa [State.goto, ThreadPc.tag?, hpc] using hp⟩
  | reapOk i c iod hpc hc =>
    exact ⟨ht, by simpa [State.goto, ThreadPc.tag?] using c.tag_lt⟩
  | reapGetData i c iod hpc hc =>
    exact ⟨ht, by simpa [State.goto, ThreadPc.tag?] using c.tag_lt⟩
  | reapTarget _ _ _ _ hpc | reapOther _ _ _ _ hpc =>
    exact ⟨ht, by simp [State.taken, ThreadPc.tag?, hpc]⟩
  | spurious hpc => exact ⟨ht, by simp [ThreadPc.tag?, hpc]⟩
  | _ => exact ⟨ht, by simp [State.goto, afterReap, ThreadPc.tag?]⟩

def Task.holds (t : Task) : Bool := t.queued.isEmpty && t.mayFill

section

variable (p : ℕ → Bool)

/-- How many of the four places hold a tag of `p`. -/
def tokens (s : State) : ℕ :=
  s.mem.ring.sq.countP (fun e => p e.tag) + s.driver.countP (fun e => p e.tag) +
    s.tasks.countP (fun t => t.holds && p t.tag) + (s.thread.pc.pending.any p).toNat

/-- The goroutines that queued a second SQE for a request with a tag of `p`. -/
def surplus (s : State) : ℕ := s.tasks.countP (fun t => decide (2 ≤ t.queued.length) && p t.tag)

variable {p}

theorem CallStep.sq_count {tag : ℕ} {pc pc' : IoCmdPc} (h : CallStep q tag pc q' pc')
    (ht : tag < 2 ^ 16) : q'.ring.sq.countP (fun e => p e.tag) =
      q.ring.sq.countP (fun e => p e.tag) + (queuedOp q tag pc).toList.length * (p tag).toNat := by
  cases h with
  | noWork hn => simp [queuedOp_noWork hn]
  | noSqe op hn hr => simp [queuedOp_noSqe hr]
  | fill op hn hr =>
    cases hp : p tag <;> simp [queuedOp_fill hn hr, filled, prepSqe_tag q op ht, hp]
  | _ => simp [queuedOp]

theorem TaskStep.sq_count {failed : Bool} (h : TaskStep q t failed q' t' ev) (ht : t.Ok) :
    q'.ring.sq.countP (fun e => p e.tag) + (t'.holds && p t.tag).toNat +
        (decide (2 ≤ t.queued.length) && p t.tag).toNat ≤
      q.ring.sq.countP (fun e => p e.tag) + (t.holds && p t.tag).toNat +
        (decide (2 ≤ t'.queued.length) && p t.tag).toNat := by
  have hc := ht.cap
  cases h with
  | verdict hp => cases failed <;> simp [Task.holds, Task.mayFill, hp]
  | failCall q' pc pc' hp hcall =>
    rw [hcall.sq_count ht.tag]
    cases hcall with
    | noWork hn => simp [Task.holds, Task.mayFill, Task.called, hp, queuedOp_noWork hn]
    | noSqe op hn hr => simp [Task.holds, Task.mayFill, Task.called, hp, queuedOp_noSqe hr]
    | fill op hn hr =>
      have hq : t.queued = [] := by simpa [Task.cap, hp] using hc
      simp [Task.holds, Task.mayFill, Task.called, hp, hq, queuedOp_fill hn hr]
    | _ => simp [Task.holds, Task.mayFill, Task.called, hp, queuedOp]
  | call q' pc pc' hp hcall =>
    rw [hcall.sq_count ht.tag]
    cases hcall with
    | noWork hn => simp [Task.holds, Task.mayFill, Task.called, hp, queuedOp_noWork hn]
    | noSqe op hn hr => simp [Task.holds, Task.mayFill, Task.called, hp, queuedOp_noSqe hr]
    | fill op hn hr =>
      have hq : t.queued.length ≤ 1 := by
        simp only [Task.cap, hp] at hc
        split_ifs at hc <;> omega
      match hx : t.queued with
      | [] => simp [Task.holds, Task.mayFill, Task.called, hp, hx, queuedOp_fill hn hr]
      | [x] =>
        simp [Task.holds, Task.mayFill, Task.called, hp, hx, queuedOp_fill hn hr]
      | x :: y :: l => simp [hx] at hq
    | _ => simp [Task.holds, Task.mayFill, Task.called, hp, queuedOp]
  | _ => simp_all [Task.holds, Task.mayFill, ublksrvMarkIoDone, setIo]

theorem TaskStep.tag_eq {failed : Bool} (h : TaskStep q t failed q' t' ev) : t'.tag = t.tag := by
  cases h <;> rfl

theorem tokens_step (hw : Wf s) (h : Step s a s') :
    tokens p s' + surplus p s ≤ tokens p s + surplus p s' := by
  cases h with
  | task i t failed q' t' ev hi hs =>
    have hcount := hs.sq_count (p := p) (hw.tasks t (List.mem_of_getElem? hi))
    have hheld := List.countP_set_of_get (b := t') (p := fun t => t.holds && p t.tag) hi
    have hsur := List.countP_set_of_get (b := t')
      (p := fun t => decide (2 ≤ t.queued.length) && p t.tag) hi
    simp only [hs.tag_eq] at hheld hsur
    simp only [tokens, surplus]
    omega
  | submitAll hpc =>
    simp only [tokens, surplus, State.goto, List.countP_append, List.countP_nil, ThreadPc.pending, hpc,
      Option.any_none, Bool.toNat_false]
    omega
  | submitPart n hpc hn =>
    have hsplit : (s.mem.ring.sq.take n ++ s.mem.ring.sq.drop n).countP (fun e => p e.tag) =
        (s.mem.ring.sq.take n).countP (fun e => p e.tag) +
          (s.mem.ring.sq.drop n).countP (fun e => p e.tag) := List.countP_append
    rw [List.take_append_drop] at hsplit
    simp only [tokens, surplus, State.goto, List.countP_append, ThreadPc.pending, hpc, Option.any_none,
      Bool.toNat_false]
    omega
  | getData tag q' pc pc' hpc hcall =>
    have ht := hw.thread tag (by simp [hpc, ThreadPc.tag?])
    have hcount := hcall.sq_count (p := p) ht
    cases hcall with
    | noWork hn =>
      simp [tokens, surplus, State.goto, ThreadPc.pending, hpc]
    | noSqe op hn hr =>
      simp [tokens, surplus, State.goto, ThreadPc.pending, hpc]
    | fill op hn hr =>
      simp only [queuedOp_fill hn hr, Option.toList_some, List.length_singleton, one_mul] at hcount
      simp [tokens, surplus, State.goto, ThreadPc.pending, hpc, hcount]
      omega
    | _ => simp [tokens, surplus, State.goto, ThreadPc.pending, hpc]
  | reapTarget i c res iod hpc hc htg =>
    have hd := List.countP_eraseIdx_of_get (p := fun e : Sqe => p e.tag) hc
    simp only [tokens, surplus, State.taken]
    omega
  | reapOk i c iod hpc hc =>
    have hd := List.countP_eraseIdx_of_get (p := fun e : Sqe => p e.tag) hc
    simp [tokens, surplus, State.taken, State.goto, ThreadPc.pending, hpc]
    omega
  | reapGetData i c iod hpc hc =>
    have hd := List.countP_eraseIdx_of_get (p := fun e : Sqe => p e.tag) hc
    simp [tokens, surplus, State.taken, State.goto, ThreadPc.pending, setFlags, setIo, hpc]
    omega
  | reapOther i c res iod hpc hc ho hg =>
    have hd := List.countP_eraseIdx_of_get (p := fun e : Sqe => p e.tag) hc
    simp [tokens, surplus, State.taken, ThreadPc.pending, setFlags, setIo, hpc]
    omega
  | request tag rid hpc =>
    cases hp : p tag
    all_goals
      simp [tokens, surplus, State.goto, ThreadPc.pending, hpc, hp, Task.holds, Task.mayFill]
      try omega
  | drop tag rid hpc => simp [tokens, surplus, State.goto, ThreadPc.pending]
  | spurious hpc => simp [tokens, surplus, ThreadPc.pending, hpc]
  | loadWait hpc | loadPass hpc | getDataRet _ _ hpc =>
    simp [tokens, surplus, State.goto, ThreadPc.pending, hpc]
  | _ => simp_all [tokens, surplus, State.goto, afterReap, ThreadPc.pending]

theorem tokens_start {info : DevInfo} (h : Initialised info q) :
    tokens p (start q) = (List.range info.queueDepth.toNat).countP p := by
  have hm := List.countP_map (p := p) (f := Sqe.tag) (l := q.ring.sq)
  rw [h.tags] at hm
  simp only [tokens, start, ThreadPc.pending, List.countP_nil, Option.any_none, Bool.toNat_false]
  exact hm.symm

end

section

variable {info : DevInfo} {C : State → Act → Prop}

theorem wf_reach (h : (machine info).Reach C s) : Wf s := by
  refine h.invariant ?_ fun t a t' _ hi _ hs => hi.step (step_cases hs)
  rintro t ⟨qId, buf, mem, q, -, rfl⟩
  exact ⟨by simp [start], by simp [start, ThreadPc.tag?]⟩

theorem tokens_reach (p : ℕ → Bool) (h : (machine info).Reach C s) :
    tokens p s ≤ (List.range info.queueDepth.toNat).countP p + surplus p s := by
  induction h with
  | init hi =>
    obtain ⟨qId, buf, mem, q, hq, rfl⟩ := hi
    rw [tokens_start (ublksrvQueueInit_initialised hq)]
    exact Nat.le_add_right _ _
  | step hr _ hs ih =>
    have := tokens_step (p := p) (wf_reach hr) (step_cases hs)
    omega

theorem tokens_tag_le_one {tag : ℕ} (h : (machine info).Reach C s) (hs : surplus (· == tag) s = 0) :
    tokens (· == tag) s ≤ 1 := by
  have hk := tokens_reach (· == tag) h
  have hd : (List.range info.queueDepth.toNat).countP (· == tag) ≤ 1 :=
    List.nodup_iff_count_le_one.mp List.nodup_range tag
  omega

theorem tokens_all_le (h : (machine info).Reach C s) :
    tokens (fun _ => true) s ≤ info.queueDepth.toNat + surplus (fun _ => true) s := by
  simpa using tokens_reach (fun _ => true) h

theorem sqEntries_reach (h : (machine info).Reach C s) :
    s.mem.ring.sqEntries =
      sqEntriesOf (ublksrvCalculateDepths (ublksrvDevInit info)).ringDepth.toNat := by
  induction h with
  | init hi =>
    obtain ⟨qId, buf, mem, q, hq, rfl⟩ := hi
    exact (ublksrvQueueInit_initialised hq).sqEntries
  | step _ _ hs ih => rw [(step_cases hs).sqEntries, ih]

/-- No goroutine finds `msgObj.Result == -1`: neither its own handler call nor an earlier one with
the same `Request` returned an error. -/
def NoFailure (_ : State) (a : Act) : Prop := a.fails = false

theorem failed_reach (h : (machine info).Reach NoFailure s) : ∀ t ∈ s.tasks, t.failed = false := by
  apply h.invariant (I := fun s => ∀ t ∈ s.tasks, t.failed = false)
  · rintro t ⟨qId, buf, mem, q, -, rfl⟩
    simp [start]
  · intro s a s' _ hi hc hs
    cases step_cases hs with
    | request tag rid hpc =>
      intro t ht
      simp only [List.mem_append, List.mem_singleton] at ht
      rcases ht with ht | rfl
      · exact hi t ht
      · rfl
    | task i t failed q' t' ev hg hst =>
      obtain rfl : failed = false := hc
      apply List.forall_mem_set hi
      have := hi t (List.mem_of_getElem? hg)
      cases hst <;> first | rfl | exact this
    | _ => exact hi

theorem surplus_eq_zero (p : ℕ → Bool) (h : (machine info).Reach NoFailure s) : surplus p s = 0 := by
  rw [surplus, List.countP_eq_zero]
  intro t ht hq
  have hf := failed_reach h t ht
  have hc := ((wf_reach h).tasks t ht).cap
  have hle : t.cap ≤ 1 := by
    unfold Task.cap
    split <;> simp [hf]
  simp only [Bool.and_eq_true, decide_eq_true_eq] at hq
  omega

end

end GoUblksrv.Queue
