import GoUblksrv.Queue.Tokens

namespace GoUblksrv.Queue

variable {info : DevInfo} {C : State → Act → Prop} {s : State}

/-- A thread holds `q->lock` and is about to call `io_uring_get_sqe` for `tag`. -/
def State.AtFill (s : State) (tag : ℕ) : Prop :=
  s.thread.pc = .getData tag .fill ∨
    ∃ t ∈ s.tasks, t.tag = tag ∧ (t.pc = .failCmd .fill ∨ t.pc = .cmd .fill)

structure SqCapacity (info : DevInfo) (s : State) : Prop where
  depth : (s.mem.ring.sq.length : ℤ) ≤ (ublksrvCalculateDepths (ublksrvDevInit info)).ringDepth
  room : ∀ tag, s.AtFill tag → fillSqe s.mem tag ≠ .error (-1)

theorem fillSqe_ne_full {q : Memory} {tag : ℕ} (h : q.ring.sq.length < q.ring.sqEntries) :
    fillSqe q tag ≠ .error (-1) := by
  unfold fillSqe
  split
  · simp
  · simp [h]

theorem sq_length_le (h : (machine info).Reach NoFailure s) :
    s.mem.ring.sq.length + (s.thread.pc.pending.isSome).toNat + s.tasks.countP Task.holds ≤
      info.queueDepth.toNat := by
  have hk := tokens_all_le h
  rw [surplus_eq_zero _ h] at hk
  have hp : s.thread.pc.pending.any (fun _ => true) = s.thread.pc.pending.isSome := by
    cases s.thread.pc.pending <;> rfl
  simp only [tokens, hp, List.countP_true, Bool.and_true] at hk
  change _ + _ + s.tasks.countP Task.holds + _ ≤ _ at hk
  omega

theorem depth_le_sqEntries (h : (machine info).Reach C s) :
    info.queueDepth.toNat ≤ s.mem.ring.sqEntries := by
  have hd := (calculateDepths_devInit info).1
  rw [sqEntries_reach h]
  exact (by omega : _ ≤ _).trans (le_sqEntriesOf _)

theorem room_at_fill {tag : ℕ} (h : (machine info).Reach NoFailure s) (hf : s.AtFill tag) :
    s.mem.ring.sq.length < s.mem.ring.sqEntries := by
  have hl := sq_length_le h
  have he := depth_le_sqEntries h
  rcases hf with hp | ⟨t, ht, -, hp⟩
  · have : (s.thread.pc.pending.isSome).toNat = 1 := by simp [hp, ThreadPc.pending]
    omega
  · have hfail := failed_reach h t ht
    have hok := (wf_reach h).tasks t ht
    have hq : t.queued = [] := by
      have hc := hok.cap
      rcases hp with hp | hp <;> simpa [Task.cap, hp, hfail] using hc
    have : 0 < s.tasks.countP Task.holds := by
      refine List.countP_pos_iff.mpr ⟨t, ht, ?_⟩
      rcases hp with hp | hp <;> simp [Task.holds, Task.mayFill, hq, hp]
    omega

theorem sq_capacity (info : DevInfo) :
    (∀ qId buf mem q, ublksrvQueueInit (ublksrvDevInit info) qId buf mem = some q →
      q.ring.sq.map Sqe.tag = List.range info.queueDepth.toNat) ∧
    ∀ s, (machine info).Reach NoFailure s → SqCapacity info s := by
  refine ⟨fun _ _ _ _ hq => (ublksrvQueueInit_initialised hq).tags, fun s h => ⟨?_, ?_⟩⟩
  · have hl := sq_length_le h
    have hd := (calculateDepths_devInit info).1
    omega
  · intro tag hf
    exact fillSqe_ne_full (room_at_fill h hf)

def oneTag : DevInfo := ⟨1, false, false, false⟩

/-- A read of eight sectors is delivered on the only tag of the queue. -/
def deliverRead : List Act :=
  [.thread, .thread, .thread, .thread, .submit 1, .waitCqe false, .reap 0 ublkIoResOk ⟨0, 8, 0, 4096⟩,
    .onRequest true, .thread, .reapEnd]

def firstCommit : State :=
  (runFrom oneTag (deliverRead ++ List.replicate 5 (.task 0 false))).get (by decide)

theorem firstCommit_reach : (machine oneTag).Reach NoFailure firstCommit :=
  runFrom_reach (fun a ha _ => (by decide : ∀ a ∈ deliverRead ++ List.replicate 5 (Act.task 0 false),
    a.fails = false) a ha) (Option.some_get _).symm

theorem sq_capacity_firstCommit : firstCommit.AtFill 0 ∧ SqCapacity oneTag firstCommit :=
  ⟨.inr (by decide), (sq_capacity oneTag).2 firstCommit firstCommit_reach⟩

/-- The handler failed, the commit with -EIO fills the SQ, and the goroutine commits again. -/
def secondCommit : State :=
  (runFrom oneTag (deliverRead ++ List.replicate 14 (.task 0 true))).get (by decide)

theorem secondCommit_reach : (machine oneTag).Reach Machine.Free secondCommit :=
  runFrom_reach (fun _ _ _ => trivial) (Option.some_get _).symm

theorem sq_capacity_overflow : ¬ ∀ info s, (machine info).Reach Machine.Free s → SqCapacity info s := by
  intro h
  have hfill : secondCommit.AtFill 0 := .inr (by decide)
  exact (h oneTag secondCommit secondCommit_reach).room 0 hfill rfl

end GoUblksrv.Queue
