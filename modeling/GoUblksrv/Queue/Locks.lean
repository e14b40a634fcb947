import GoUblksrv.Queue.Tokens

namespace GoUblksrv.Queue

def IoCmdPc.locked : IoCmdPc → Bool
  | .lock | .ret _ => false
  | _ => true

def IoCmdPc.condHeld : IoCmdPc → Bool
  | .condSignal | .condUnlock => true
  | _ => false

def TaskPc.call : TaskPc → Option IoCmdPc
  | .failCmd pc | .cmd pc => some pc
  | _ => none

def ThreadPc.call : ThreadPc → Option IoCmdPc
  | .getData _ pc => some pc
  | _ => none

def ThreadPc.condHeld : ThreadPc → Bool
  | .loadInflight | .condWait | .unlockCond => true
  | .getData _ pc => pc.condHeld
  | _ => false

def Task.locked (t : Task) : Bool := t.pc.call.any IoCmdPc.locked

def Task.condHeld (t : Task) : Bool := t.pc.call.any IoCmdPc.condHeld

def lockers (s : State) : ℕ :=
  s.tasks.countP Task.locked + (s.thread.pc.call.any IoCmdPc.locked).toNat

def condHolders (s : State) : ℕ :=
  s.tasks.countP Task.condHeld + s.thread.pc.condHeld.toNat

variable {s s' : State} {a : Act} {t t' : Task} {q q' : Memory} {ev : List Event}

section

variable {tag : ℕ} {pc pc' : IoCmdPc}

theorem CallStep.locked (h : CallStep q tag pc q' pc') :
    pc'.locked.toNat + q.lock.toNat ≤ pc.locked.toNat + q'.lock.toNat := by
  cases h with
  | lock hl => simp [IoCmdPc.locked, hl]
  | unlock => simp [IoCmdPc.locked, Bool.toNat_le]
  | _ => simp [IoCmdPc.locked, filled, setFlags, setIo]

theorem CallStep.condHeld (h : CallStep q tag pc q' pc')
    (hc : pc.condHeld = true → q.condMutex = true) :
    pc'.condHeld.toNat + q.condMutex.toNat = pc.condHeld.toNat + q'.condMutex.toNat := by
  cases h with
  | condLock hl => simp [IoCmdPc.condHeld, hl]
  | condUnlock => simp [IoCmdPc.condHeld, hc rfl]
  | _ => simp [IoCmdPc.condHeld, filled, setFlags, setIo]

end

theorem TaskStep.locked {failed : Bool} (h : TaskStep q t failed q' t' ev) :
    t'.locked.toNat + q.lock.toNat ≤ t.locked.toNat + q'.lock.toNat := by
  cases h with
  | failCall q' pc pc' hp hc | call q' pc pc' hp hc =>
    simpa [Task.locked, TaskPc.call, Task.called, hp] using hc.locked
  | verdict hp => cases failed <;> simp [Task.locked, TaskPc.call, hp]
  | _ => simp_all [Task.locked, TaskPc.call, IoCmdPc.locked, ublksrvMarkIoDone, setIo]

theorem TaskStep.condHeld {failed : Bool} (h : TaskStep q t failed q' t' ev)
    (hc : t.condHeld = true → q.condMutex = true) :
    t'.condHeld.toNat + q.condMutex.toNat = t.condHeld.toNat + q'.condMutex.toNat := by
  cases h with
  | failCall q' pc pc' hp hcall | call q' pc pc' hp hcall =>
    simp only [Task.condHeld, TaskPc.call, Task.called, hp, Option.any_some] at hc ⊢
    exact hcall.condHeld hc
  | verdict hp => cases failed <;> simp [Task.condHeld, TaskPc.call, hp]
  | _ => simp_all [Task.condHeld, TaskPc.call, IoCmdPc.condHeld, ublksrvMarkIoDone, setIo]

theorem lockers_step (h : Step s a s') :
    lockers s' + s.mem.lock.toNat ≤ lockers s + s'.mem.lock.toNat := by
  cases h with
  | task i t failed q' t' ev hi hs =>
    have hl := hs.locked
    have hc := List.countP_set_of_get (b := t') (p := Task.locked) hi
    simp only [lockers]
    omega
  | getData tag q' pc pc' hpc hcall =>
    have hl := hcall.locked
    simp only [lockers, State.goto, ThreadPc.call, hpc, Option.any_some]
    omega
  | request tag rid hpc =>
    simp [lockers, State.goto, ThreadPc.call, hpc, List.countP_append, Task.locked, TaskPc.call]
  | getDataRet tag r hpc =>
    simp [lockers, State.goto, ThreadPc.call, hpc, IoCmdPc.locked]
  | reapGetData i c iod hpc hc =>
    simp [lockers, State.goto, State.taken, ThreadPc.call, hpc, IoCmdPc.locked, setFlags, setIo]
  | reapOther i c res iod hpc hc ho hg =>
    simp [lockers, State.taken, ThreadPc.call, hpc, setFlags, setIo]
  | _ => simp_all [lockers, State.goto, State.taken, afterReap, ThreadPc.call]

theorem condHolders_step (hi : condHolders s = s.mem.condMutex.toNat) (h : Step s a s') :
    condHolders s' = s'.mem.condMutex.toNat := by
  have hheld : 0 < condHolders s → s.mem.condMutex = true := by
    intro hpos
    cases hm : s.mem.condMutex
    · simp [hm] at hi
      omega
    · rfl
  cases h with
  | task i t failed q' t' ev hg hs =>
    have hc := List.countP_set_of_get (b := t') (p := Task.condHeld) hg
    have hl := hs.condHeld fun ht => hheld (by
      have := List.countP_pos_of_get hg ht
      simp only [condHolders]
      omega)
    simp only [condHolders] at hi ⊢
    omega
  | getData tag q' pc pc' hpc hcall =>
    have hl := hcall.condHeld fun ht => hheld (by simp [condHolders, ThreadPc.condHeld, hpc, ht])
    simp only [condHolders, State.goto, ThreadPc.condHeld, hpc] at hi ⊢
    omega
  | request tag rid hpc =>
    simpa [condHolders, State.goto, ThreadPc.condHeld, hpc, List.countP_append, Task.condHeld,
      TaskPc.call] using hi
  | getDataRet tag r hpc =>
    simpa [condHolders, State.goto, ThreadPc.condHeld, hpc, IoCmdPc.condHeld] using hi
  | reapGetData i c iod hpc hc =>
    simpa [condHolders, State.goto, State.taken, ThreadPc.condHeld, hpc, IoCmdPc.condHeld, setFlags,
      setIo] using hi
  | reapOther i c res iod hpc hc ho hg =>
    simpa [condHolders, State.taken, ThreadPc.condHeld, hpc, setFlags, setIo] using hi
  | sleep hpc | unlockCond hpc =>
    have := hheld (by simp [condHolders, ThreadPc.condHeld, hpc])
    simpa [condHolders, State.goto, ThreadPc.condHeld, hpc, this] using hi
  | _ => simp_all [condHolders, State.goto, State.taken, afterReap, ThreadPc.condHeld]

variable {info : DevInfo} {C : State → Act → Prop}

theorem lockers_reach (h : (machine info).Reach C s) : lockers s ≤ s.mem.lock.toNat := by
  induction h with
  | init hi =>
    obtain ⟨qId, buf, mem, q, -, rfl⟩ := hi
    simp [lockers, start, ThreadPc.call]
  | step _ _ hs ih =>
    have := lockers_step (step_cases hs)
    omega

theorem condHolders_reach (h : (machine info).Reach C s) :
    condHolders s = s.mem.condMutex.toNat := by
  induction h with
  | init hi =>
    obtain ⟨qId, buf, mem, q, hq, rfl⟩ := hi
    simp [condHolders, start, ThreadPc.condHeld, (ublksrvQueueInit_initialised hq).condMutex]
  | step _ _ hs ih => exact condHolders_step ih (step_cases hs)

end GoUblksrv.Queue
