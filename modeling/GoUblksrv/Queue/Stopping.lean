import GoUblksrv.Queue.Progress
import GoUblksrv.Queue.Quiescence
import GoUblksrv.Queue.Shutdown

/-!
How a queue ends. A driver whose device goes away completes the commands of the queue with ABORT, and
one of them is enough. A command that fails in another way leaves its tag without a command, and the
thread of a queue that has lost all of its tags so stays in its call of the kernel.
-/

namespace GoUblksrv.Queue

variable {info : DevInfo} {C : State → Act → Prop} {s s' : State} {a : Act} {t t' : Task} {q q' : Memory}
  {ev : List Event} {i : ℕ}

def Act.closes : Act → Bool
  | .submit _ | .waitCqe _ => true
  | .reap _ res _ => res == ublkIoResAbort
  | a => a.own

def Event.isComplete : Event → Bool
  | .complete _ => true
  | _ => false

/-- The commands that were completed without a request. -/
def State.lost (s : State) : ℕ := s.log.countP Event.isComplete

theorem orderly_closes (ha : a.closes = true) (s : State) : Orderly s a := by
  cases a with
  | submit | waitCqe => exact ⟨rfl, nofun⟩
  | reap i res iod =>
    obtain rfl : res = ublkIoResAbort := by simpa [Act.closes] using ha
    have hdrift : (ublkIoResAbort == ublkIoResNeedGetData) = false := by decide
    exact ⟨hdrift, nofun⟩
  | thread => exact orderly_own (a := .thread) rfl s
  | reapEnd => exact orderly_own (a := .reapEnd) rfl s
  | spurious => cases ha
  | onRequest | task => exact orderly_own ha s

theorem closes_of_own (ha : Own a) : a.closes = true := by
  cases a with
  | submit | waitCqe | reap => cases ha
  | _ => exact ha

theorem tokens_all (s : State) : tokens (fun _ => true) s =
    s.mem.ring.sq.length + s.driver.length + s.tasks.countP Task.holds + s.thread.pc.pending.isSome.toNat := by
  have hp : s.thread.pc.pending.any (fun _ => true) = s.thread.pc.pending.isSome := by
    cases s.thread.pc.pending <;> rfl
  simp only [tokens, hp, List.countP_true, Bool.and_true]

theorem lost_append (log ev : List Event) (hev : ∀ e ∈ ev, e.isComplete = false) :
    (log ++ ev).countP Event.isComplete = log.countP Event.isComplete := by
  have hnone : ev.countP Event.isComplete = 0 := by
    rw [List.countP_eq_zero]
    intro e he
    rw [hev e he]
    exact Bool.false_ne_true
  rw [List.countP_append, hnone, Nat.add_zero]

theorem queueEvents_isComplete {tag : ℕ} {rid : Option ℕ} {pc : IoCmdPc} :
    ∀ e ∈ queueEvents q tag rid pc, e.isComplete = false := by
  intro e he
  obtain ⟨op, -, rfl⟩ := Option.map_eq_some_iff.mp (Option.mem_toList.mp he)
  rfl

theorem settle_isComplete : ∀ e ∈ (settle s).2, e.isComplete = false := by
  intro e he
  rcases settle_events s he with rfl | ⟨fd, rfl⟩ <;> rfl

theorem TaskStep.events {failed : Bool} (h : TaskStep q t failed q' t' ev) : ∀ e ∈ ev, e.isComplete = false := by
  intro e he
  cases h with
  | failCall | call => exact queueEvents_isComplete e he
  | copyOut =>
    split_ifs at he
    · obtain rfl := List.mem_singleton.mp he
      rfl
    · cases he
  | finalRes =>
    obtain rfl := List.mem_singleton.mp he
    rfl
  | _ => cases he

theorem TaskStep.conserved (h : TaskStep q t false q' t' ev) (hok : t.Ok) (hf : t.failed = false)
    (hcan : t.pc = .cmd .fill → canIssue q t.tag = true) :
    q'.ring.sq.length + t'.holds.toNat = q.ring.sq.length + t.holds.toNat := by
  have hnot : t.atFail = false := by
    cases hfail : t.atFail with
    | false => rfl
    | true =>
      rw [hok.failed hfail] at hf
      cases hf
  cases h with
  | failMark hp | failCall _ _ _ hp | failRet _ hp => simp [Task.atFail, hp] at hnot
  | call q' pc pc' hp hcall =>
    cases hcall with
    | noWork hn =>
      obtain ⟨⟨op, hop⟩, -⟩ := canIssue_iff.mp (hcan hp)
      rw [hn] at hop
      cases hop
    | noSqe op hn hr =>
      have hlt := (canIssue_iff.mp (hcan hp)).2
      omega
    | fill op hn hr =>
      have hq : t.queued = [] := by simpa [Task.cap, hp, hf] using hok.cap
      simp [Task.holds, Task.mayFill, Task.called, hp, hq, queuedOp_fill hn hr, filled]
    | _ => simp [Task.holds, Task.mayFill, Task.called, hp, queuedOp]
  | verdict hp | copyOut hp | finalUnmap hp | finalRes hp | mark _ hp | ret _ hp | putMsg hp =>
    simp [Task.holds, Task.mayFill, ublksrvMarkIoDone, setIo, hp]

theorem conserved_step (h : (machine info).Reach Orderly s) (hc : Orderly s a) (hs : Step s a s') :
    tokens (fun _ => true) s' + s'.lost = tokens (fun _ => true) s + s.lost := by
  rw [tokens_all, tokens_all]
  cases hs with
  | task i t failed q' t' ev hg hst =>
    obtain rfl : failed = false := hc.1
    have hmem := List.mem_of_getElem? hg
    have hlen := hst.conserved ((wf_reach h).tasks t hmem) (unfailed h hmem) (by
      intro hp
      have hissue := issues_orderly h (.task i false)
      simpa [Issues, State.filling, hg, hp, TaskPc.call] using hissue)
    have hheld := List.countP_set_of_get (b := t') (p := Task.holds) hg
    simp only [State.lost, lost_append _ _ hst.events]
    omega
  | submitAll hpc =>
    simp [State.lost, State.goto, ThreadPc.pending, hpc]
    omega
  | submitPart n hpc hn =>
    simp only [State.lost, State.goto, List.length_drop, List.length_append, List.length_take, ThreadPc.pending, hpc]
    omega
  | getData tag q' pc pc' hpc =>
    have hcall := (noGetData_reach (noDrift_reach h)).2
    simp [hpc, ThreadPc.call] at hcall
  | getDataRet tag r hpc => simp [hpc, State.lost, State.goto, ThreadPc.pending]
  | reapTarget i c res iod hpc hcd ht =>
    rw [(driverIo_reach h).2 c (List.mem_of_getElem? hcd)] at ht
    cases ht
  | reapOk i c iod hpc hcd =>
    have hlen := List.length_eraseIdx_add_one (List.getElem?_eq_some_iff.mp hcd).1
    simp [State.lost, State.taken, State.goto, ThreadPc.pending, hpc, Event.isComplete]
    omega
  | reapGetData i c iod hpc hcd => cases hc.1
  | reapOther i c res iod hpc hcd =>
    have hlen := List.length_eraseIdx_add_one (List.getElem?_eq_some_iff.mp hcd).1
    simp [State.lost, State.taken, setFlags, setIo, Event.isComplete]
    omega
  | request tag rid hpc =>
    simp [State.lost, State.goto, ThreadPc.pending, hpc, Task.holds, Task.mayFill]
    omega
  | drop tag rid hpc => exact absurd rfl hc.2
  | reapEnd hpc =>
    simp only [State.lost, afterReap, lost_append _ _ settle_isComplete, State.goto, ThreadPc.pending, hpc]
  | done hpc => simp [State.lost, State.goto, ThreadPc.pending, hpc, Event.isComplete]
  | spurious hpc => simp [State.lost]
  | enter hpc | lockCond hpc | loadWait hpc | loadPass hpc | sleep hpc | wake hpc | unlockCond hpc
  | waitCqe timedOut hpc | fetchAdd hpc => simp [State.lost, State.goto, ThreadPc.pending, hpc]

theorem conserved (h : (machine info).Reach Orderly s) :
    tokens (fun _ => true) s + s.lost = info.queueDepth.toNat := by
  induction h with
  | init hi =>
    obtain ⟨qId, buf, mem, q, hq, rfl⟩ := hi
    have hlog : (start q).lost = 0 := by
      simp [State.lost, start, List.countP_map, Function.comp_def, Event.isComplete]
    rw [tokens_start (ublksrvQueueInit_initialised hq), hlog, List.countP_true, List.length_range, Nat.add_zero]
  | step hr hc hs ih => rw [conserved_step hr hc (step_cases hs), ih]

/-- The thread is between the test of `ublksrv_queue_is_done` and the CQEs that it reaps next. -/
def ThreadPc.inRound : ThreadPc → Bool
  | .lockCond | .loadInflight | .condWait | .blocked | .unlockCond | .submit | .waitCqe => true
  | _ => false

/-- A queue that stops goes into another round only for the commands in its SQ. -/
def StopsBusy (s : State) : Prop :=
  (s.thread.pc = .exited → s.mem.stopping = true) ∧
    (s.mem.stopping = true → s.thread.pc.inRound = true → s.driver ++ s.mem.ring.sq ≠ [])

theorem StopsBusy.step (hi : StopsBusy s) (hs : Step s a s') : StopsBusy s' := by
  have keep (hpc : s'.thread.pc = s.thread.pc) (hstop : s'.mem.stopping = s.mem.stopping)
      (hd : s'.driver = s.driver) (hsq : s.mem.ring.sq <+: s'.mem.ring.sq) : StopsBusy s' := by
    refine ⟨?_, ?_⟩
    · rw [hpc, hstop]
      exact hi.1
    · intro hst hround
      have hgrows : s.driver ++ s.mem.ring.sq <+: s'.driver ++ s'.mem.ring.sq := by
        rw [hd]
        exact (List.prefix_append_right_inj _).mpr hsq
      exact ne_nil_of_grows hgrows (hi.2 (hstop ▸ hst) (hpc ▸ hround))
  have inside (hpc : s.thread.pc.inRound = true) (hpc' : s'.thread.pc.inRound = true)
      (hstop : s'.mem.stopping = s.mem.stopping)
      (hsq : s'.driver ++ s'.mem.ring.sq = s.driver ++ s.mem.ring.sq) : StopsBusy s' := by
    refine ⟨?_, ?_⟩
    · intro he
      rw [he] at hpc'
      cases hpc'
    · intro hst _
      rw [hsq]
      exact hi.2 (hstop ▸ hst) hpc
  have outside (hpc : s'.thread.pc.inRound = false) (he : s'.thread.pc ≠ .exited) : StopsBusy s' := by
    refine ⟨fun h => absurd h he, ?_⟩
    intro _ hround
    rw [hpc] at hround
    cases hround
  cases hs with
  | done hpc hd =>
    simp only [ublksrvQueueIsDone, Bool.and_eq_true] at hd
    refine ⟨fun _ => hd.1, ?_⟩
    intro _ hround
    cases hround
  | enter hpc hd =>
    refine ⟨by rintro ⟨⟩, ?_⟩
    intro hst _ hnil
    have hdone : ublksrvQueueIsDone s.mem = true := by
      rw [ublksrvQueueIsDone, (List.append_eq_nil_iff.mp hnil).2]
      simpa using hst
    rw [hd] at hdone
    cases hdone
  | lockCond hpc | loadWait hpc | loadPass hpc | sleep hpc | wake hpc | unlockCond hpc =>
    exact inside (by simp [hpc, ThreadPc.inRound]) rfl rfl rfl
  | submitAll hpc => exact inside (by simp [hpc, ThreadPc.inRound]) rfl rfl (by simp)
  | spurious => exact keep rfl rfl rfl List.prefix_rfl
  | task i t failed q' t' ev hg hst => exact keep rfl hst.stopping rfl hst.sq_grows
  | reapTarget i c res iod hpc | reapOther i c res iod hpc =>
    exact outside (by simp [State.taken, hpc, ThreadPc.inRound]) (by simp [State.taken, hpc])
  | submitPart | waitCqe | reapOk | reapGetData | fetchAdd | getDataRet | getData | reapEnd | request | drop =>
    exact outside rfl (by rintro ⟨⟩)

theorem stopsBusy_reach (h : (machine info).Reach C s) : StopsBusy s := by
  apply h.invariant
  · rintro t ⟨qId, buf, mem, q, hq, rfl⟩
    refine ⟨nofun, ?_⟩
    intro _ hround
    cases hround
  · exact fun s a s' _ hi _ hs => hi.step (step_cases hs)

/-- One command is aborted, and the thread leaves. -/
def lastRound : List Act := [.waitCqe false, .reap 0 ublkIoResAbort ⟨0, 0, 0, 0⟩, .reapEnd, .thread]

def finish (s : State) : List Act :=
  if s.thread.pc = .submit then .submit s.mem.ring.sq.length :: lastRound else lastRound

theorem closes_finish (s : State) : ∀ a ∈ finish s, a.closes = true := by
  unfold finish
  split_ifs <;> simp [lastRound, Act.closes, Act.own]

theorem length_finish_le (s : State) : (finish s).length ≤ 5 := by
  unfold finish
  split_ifs <;> simp [lastRound]

def allSubmitted (s : State) : State :=
  { s.goto .waitCqe with
    mem := { s.mem with ring := { s.mem.ring with sq := [] } }
    driver := s.driver ++ s.mem.ring.sq
    batch := 0 }

def firstAborted (s : State) (c : Sqe) (cs : List Sqe) : State :=
  { s with
    thread := ⟨.reap, s.thread.waitsForever, false, s.thread.reapped + 1⟩
    mem := setFlags (stopUnlessFetch s.mem c.tag ublkIoResAbort) c.tag { ioFree := true }
    driver := cs
    log := s.log ++ [.complete c.tag] }

theorem step_submitAll (hpc : s.thread.pc = .submit) :
    step s (.submit s.mem.ring.sq.length) = some (allSubmitted s) := by
  simp [step, hpc, allSubmitted]

theorem run_firstAborted {c : Sqe} {cs : List Sqe} (hpc : s.thread.pc = .waitCqe) (hcs : s.driver = c :: cs)
    (hc : isTargetIo c.userData = false) :
    (machine info).run s [.waitCqe false, .reap 0 ublkIoResAbort ⟨0, 0, 0, 0⟩] = some (firstAborted s c cs) := by
  have hok : ublkIoResAbort ≠ ublkIoResOk := by decide
  have hget : ublkIoResAbort ≠ ublkIoResNeedGetData := by decide
  simp only [Machine.run_cons, Machine.run_nil, machine, step, hpc, hcs, ublksrvHandleCqe]
  simp [hc, hok, hget, firstAborted, Sqe.tag]

theorem firstAborted_done (hsq : s.mem.ring.sq = []) (c : Sqe) (cs : List Sqe) :
    ublksrvQueueIsDone (afterReap (firstAborted s c cs)).mem = true := by
  simp [ublksrvQueueIsDone, afterReap, firstAborted, setFlags, setIo, stopUnlessFetch_stopping, hsq]

theorem run_lastRound {c : Sqe} {cs : List Sqe} (hpc : s.thread.pc = .waitCqe) (hsq : s.mem.ring.sq = [])
    (hcs : s.driver = c :: cs) (hc : isTargetIo c.userData = false) :
    (machine info).run s lastRound = some { (afterReap (firstAborted s c cs)).goto .exited with
      log := (afterReap (firstAborted s c cs)).log ++ [.exit] } := by
  have hend : step (firstAborted s c cs) .reapEnd = some (afterReap (firstAborted s c cs)) := rfl
  have hleave : step (afterReap (firstAborted s c cs)) .thread =
      some { (afterReap (firstAborted s c cs)).goto .exited with
        log := (afterReap (firstAborted s c cs)).log ++ [.exit] } := by
    have hend' : (afterReap (firstAborted s c cs)).thread.pc = .processIo := rfl
    rw [step, hend', threadStep, if_pos (firstAborted_done hsq c cs)]
  have hsplit : lastRound = [.waitCqe false, .reap 0 ublkIoResAbort ⟨0, 0, 0, 0⟩] ++ [.reapEnd, .thread] := rfl
  rw [hsplit, Machine.run_append, run_firstAborted hpc hcs hc, Option.bind_some]
  simp only [Machine.run_cons, Machine.run_nil, machine, hend, hleave, Option.bind_some]

theorem Settled.left (hset : Settled s) (c : Sqe) (cs : List Sqe) (log : List Event) :
    Settled { (afterReap (firstAborted s c cs)).goto .exited with log := log } := by
  constructor
  · exact .inr rfl
  · exact hset.ended
  · simpa [State.goto, afterReap, firstAborted, setFlags, setIo] using hset.counter
  · simpa [State.goto, afterReap, firstAborted, setFlags, setIo] using hset.lock
  · simpa [State.goto, afterReap, firstAborted, setFlags, setIo] using hset.condMutex

theorem Settled.submitted (hset : Settled s) : Settled (allSubmitted s) :=
  ⟨.inl rfl, hset.ended, hset.counter, hset.lock, hset.condMutex⟩

section

variable (h : (machine info).Reach Orderly s)

include h

theorem commands_at_rest (hset : Settled s) (hpc : s.thread.pc.inKernel = true)
    (hl : s.mem.stopping = true ∨ s.lost < info.queueDepth.toNat) : s.driver ++ s.mem.ring.sq ≠ [] := by
  rcases hl with hst | hl
  · apply (stopsBusy_reach h).2 hst
    rcases inKernel_cases hpc with hpc | hpc <;> simp [hpc, ThreadPc.inRound]
  · have hnone : s.tasks.countP Task.holds = 0 := by
      rw [List.countP_eq_zero]
      intro t ht
      simp [Task.holds, Task.mayFill, (hset.ended t ht).1]
    have hpend : s.thread.pc.pending = none := by
      rcases inKernel_cases hpc with hpc | hpc <;> simp [hpc, ThreadPc.pending]
    have hsum := conserved h
    rw [tokens_all, hnone, hpend] at hsum
    simp only [Option.isSome_none, Bool.toNat_false] at hsum
    apply List.ne_nil_of_length_pos
    rw [List.length_append]
    omega

theorem exits_from_wait (hset : Settled s) (hpc : s.thread.pc = .waitCqe) (hsq : s.mem.ring.sq = [])
    (hne : s.driver ≠ []) :
    ∃ t, (machine info).run s lastRound = some t ∧ t.thread.pc = .exited ∧ Settled t := by
  obtain ⟨c, cs, hcs⟩ := List.exists_cons_of_ne_nil hne
  have hc : isTargetIo c.userData = false := (driverIo_reach h).2 c (hcs ▸ List.mem_cons_self)
  exact ⟨_, run_lastRound hpc hsq hcs hc, rfl, hset.left c cs _⟩

theorem exits_from_rest (hset : Settled s) (hpc : s.thread.pc.inKernel = true)
    (hne : s.driver ++ s.mem.ring.sq ≠ []) :
    ∃ t, (machine info).run s (finish s) = some t ∧ t.thread.pc = .exited ∧ Settled t := by
  rcases inKernel_cases hpc with hpc | hpc
  · have hstep := step_submitAll hpc
    have hr : (machine info).Reach Orderly (allSubmitted s) :=
      h.step (orderly_closes (a := .submit s.mem.ring.sq.length) rfl s) hstep
    obtain ⟨t, ht, hexit⟩ := exits_from_wait hr hset.submitted rfl rfl hne
    refine ⟨t, ?_, hexit⟩
    rw [finish, if_pos hpc, Machine.run_cons]
    exact Option.bind_eq_some_iff.mpr ⟨_, hstep, ht⟩
  · have hsq := waitCqe_reach (noDrift_reach h) hpc
    rw [hsq, List.append_nil] at hne
    rw [finish, if_neg (by rw [hpc]; nofun)]
    exact exits_from_wait h hset hpc hsq hne

end

theorem own_keeps (ha : Own a) (hs : Step s a s') : s'.mem.stopping = s.mem.stopping ∧ s'.lost = s.lost := by
  cases hs with
  | task i t failed q' t' ev hg hst => exact ⟨hst.stopping, lost_append _ _ hst.events⟩
  | getData tag q' pc pc' hpc hcall => exact ⟨hcall.stopping, lost_append _ _ queueEvents_isComplete⟩
  | reapEnd hpc => exact ⟨rfl, lost_append _ _ settle_isComplete⟩
  | done hpc => exact ⟨rfl, lost_append _ _ (by simp [Event.isComplete])⟩
  | spurious | submitAll | submitPart | waitCqe | reapTarget | reapOk | reapGetData | reapOther | drop => cases ha
  | _ => exact ⟨rfl, rfl⟩

theorem exited_step (hpc : s.thread.pc = .exited) (hs : Step s a s') : s'.thread.pc = .exited := by
  cases hs with
  | task => exact hpc
  | spurious hp | submitAll hp | submitPart _ hp | waitCqe _ hp | done hp | enter hp | lockCond hp | loadWait hp
  | loadPass hp | sleep hp | wake hp | unlockCond hp | fetchAdd hp | getDataRet _ _ hp | getData _ _ _ _ hp
  | reapTarget _ _ _ _ hp | reapOk _ _ _ hp | reapGetData _ _ _ hp | reapOther _ _ _ _ hp | reapEnd hp
  | request _ _ hp | drop _ _ hp =>
    rw [hpc] at hp
    cases hp

def Reaches (info : DevInfo) (stopping : Bool) (lost : ℕ) (s : State) : Prop :=
  (machine info).Reach Orderly s ∧ s.mem.stopping = stopping ∧ s.lost = lost

theorem Reaches.own {stopping : Bool} {n : ℕ} (hi : Reaches info stopping n s) (ha : Own a)
    (hs : step s a = some s') : Reaches info stopping n s' := by
  obtain ⟨h, hst, hl⟩ := hi
  have hkeep := own_keeps ha (step_cases hs)
  exact ⟨h.step (orderly_own ha _) hs, hkeep.1.trans hst, hkeep.2.trans hl⟩

theorem lowers_reaches {stopping : Bool} {n : ℕ} :
    (machine info).Lowers Own (Reaches info stopping n) State.potential where
  keeps _ _ _ hi ha hs := hi.own ha hs
  lowers _ _ _ _ ha hs := potential_step (step_cases hs) ha

/-- With all tags lost the driver has nothing to complete any more. -/
theorem Reaches.hopeless {n : ℕ} (hi : Reaches info false n s) (hn : info.queueDepth.toNat ≤ n) (ha : a.closes = true)
    (hs : step s a = some s') : Reaches info false n s' := by
  obtain ⟨h, hst, hl⟩ := hi
  have hdriver : s.driver = [] := by
    have hsum := conserved h
    rw [tokens_all, hl] at hsum
    apply List.eq_nil_of_length_eq_zero
    omega
  cases a with
  | submit n | waitCqe timedOut =>
    have hr := h.step (orderly_closes ha s) hs
    cases step_cases hs <;> exact ⟨hr, hst, hl⟩
  | reap i res iod =>
    simp [step, hdriver] at hs
  | thread => exact Reaches.own (a := .thread) ⟨h, hst, hl⟩ rfl hs
  | reapEnd => exact Reaches.own (a := .reapEnd) ⟨h, hst, hl⟩ rfl hs
  | spurious => cases ha
  | onRequest | task => exact Reaches.own ⟨h, hst, hl⟩ ha hs

theorem Reaches.never_exits {n : ℕ} {as : List Act} (hi : Reaches info false n s) (hn : info.queueDepth.toNat ≤ n)
    (ha : ∀ a ∈ as, a.closes = true) (hr : (machine info).run s as = some s') : s'.thread.pc ≠ .exited := by
  induction as generalizing s with
  | nil =>
    cases hr
    intro he
    have hst := (stopsBusy_reach hi.1).1 he
    rw [hi.2.1] at hst
    cases hst
  | cons a as ih =>
    obtain ⟨s₁, hs, hr⟩ := Option.bind_eq_some_iff.mp hr
    have hi₁ := hi.hopeless hn (ha a List.mem_cons_self) hs
    exact ih hi₁ (fun b hb => ha b (List.mem_cons_of_mem a hb)) hr

theorem exits_of_commands (h : (machine info).Reach Orderly s)
    (hl : s.mem.stopping = true ∨ s.lost < info.queueDepth.toNat) :
    ∃ as t, (∀ a ∈ as, a.closes = true) ∧ as.length ≤ s.potential + 5 ∧ (machine info).run s as = some t ∧
      t.thread.pc = .exited ∧ Settled t := by
  have hi : Reaches info s.mem.stopping s.lost s := ⟨h, rfl, rfl⟩
  obtain ⟨as, u, has, hu, hq⟩ := lowers_reaches.exists_quiet hi
  obtain ⟨⟨hru, hst, hlost⟩, hlen⟩ := lowers_reaches.run_add_le hi has hu
  have hset := settled_of_quiet hru hq
  have hown : ∀ a ∈ as, a.closes = true := fun a ha => closes_of_own (has a ha)
  rcases hset.thread with hpc | hpc
  · have hne := commands_at_rest hru hset hpc (by rwa [hst, hlost])
    obtain ⟨t, ht, he, hsett⟩ := exits_from_rest hru hset hpc hne
    refine ⟨as ++ finish u, t, ?_, ?_, ?_, he, hsett⟩
    · rw [List.forall_mem_append]
      exact ⟨hown, closes_finish u⟩
    · rw [List.length_append]
      exact Nat.add_le_add (by omega) (length_finish_le u)
    · rw [Machine.run_append, hu]
      exact ht
  · exact ⟨as, u, hown, by omega, hu, hpc, hset⟩

end GoUblksrv.Queue
