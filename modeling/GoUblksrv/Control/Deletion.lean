import GoUblksrv.Control.Commands
import GoUblksrv.Device.Actors
import GoUblksrv.Lib.ListCount

/-!
`DeleteDevice` with the control commands of its `cmd_dev_del`, in a process that has any
queue threads: of the device, of other devices, or none. The driver's answers to the
commands of a call are arbitrary; no command is issued twice in a call.

The fields `stopped` and `deleted` of a call record the commands that succeeded.
-/

namespace GoUblksrv.Deletion

open Control
open Device (ThreadPc DeletePc)

variable (number : Int32) (ctrlInit : Bool) (ans : CtrlCmd → Response)

def queried (number : Int32) : CtrlDevInfo := ⟨0, number.toUInt32, 0⟩

/-- `ctrlInit` is whether `ublksrv_ctrl_init` returned a device. -/
def cmdDevDel : Ctrl Int32 :=
  if !ctrlInit then pure eopnotsupp
  else do
    let (ret, info) ← ublksrvCtrlGetInfo (queried number)
    -- `ret = 0` before `goto fail`
    if ret < 0 then pure 0
    else do
      let ret ← ublksrvCtrlStopDev info
      if ret < 0 then pure ret else ublksrvCtrlDelDev info

def infoFails : Bool := ctrlInit && decide (((ublksrvCtrlGetInfo (queried number)).eval ans).1 < 0)

def stepFails : Bool :=
  let (ret, info) := (ublksrvCtrlGetInfo (queried number)).eval ans
  !ctrlInit || decide (ret < 0) || decide ((ublksrvCtrlStopDev info).eval ans < 0) ||
    decide ((ublksrvCtrlDelDev info).eval ans < 0)

variable {number ctrlInit ans}

theorem cmdDevDel_eval : (cmdDevDel number ctrlInit).eval ans =
    if ctrlInit = false then eopnotsupp
    else if ((ublksrvCtrlGetInfo (queried number)).eval ans).1 < 0 then 0
    else
      let info := ((ublksrvCtrlGetInfo (queried number)).eval ans).2
      if (ublksrvCtrlStopDev info).eval ans < 0 then (ublksrvCtrlStopDev info).eval ans
      else (ublksrvCtrlDelDev info).eval ans := by
  cases ctrlInit
  · rfl
  · rw [if_neg (by simp), cmdDevDel, Bool.not_true, if_neg (by simp), Program.eval_bind]
    by_cases hinfo : ((ublksrvCtrlGetInfo (queried number)).eval ans).1 < 0
    · simp only [if_pos hinfo, Program.eval_pure]
    · simp only [if_neg hinfo, Program.eval_bind]
      split_ifs <;> rfl

theorem cmdDevDel_neg_iff :
    ((cmdDevDel number ctrlInit).eval ans < 0 ↔ stepFails number ctrlInit ans = true) ↔
      infoFails number ctrlInit ans = false := by
  rw [cmdDevDel_eval]
  unfold stepFails infoFails
  cases ctrlInit
  · simp [show eopnotsupp < 0 by decide]
  · by_cases hinfo : ((ublksrvCtrlGetInfo (queried number)).eval ans).1 < 0
    · simp [hinfo]
    · by_cases hstop :
        (ublksrvCtrlStopDev ((ublksrvCtrlGetInfo (queried number)).eval ans).2).eval ans < 0
      · simp [hinfo, hstop]
      · simp [hinfo, hstop]

def succeeds (nr : CmdNr) (ans : CtrlCmd → Response) (c : CtrlCmd) : Bool :=
  c.cmdOp.nr == nr && decide (0 ≤ (ans c).res)

theorem stop_succeeds {info : CtrlDevInfo} (h : ¬ (ublksrvCtrlStopDev info).eval ans < 0) :
    ((ublksrvCtrlStopDev info).trace ans).any (succeeds .stopDev ans) = true := by
  simp only [ublksrvCtrlStopDev, Program.eval_bind, ctrlCmd_eval, Program.eval_pure] at h
  simp [ublksrvCtrlStopDev, succeeds, ublksrvCtrlInitCmd_nr, unPrivilegedPrepData_cmdOp,
    Int32.not_lt.mp h]

theorem del_succeeds {info : CtrlDevInfo} (h : ¬ (ublksrvCtrlDelDev info).eval ans < 0) :
    ((ublksrvCtrlDelDev info).trace ans).any (succeeds .delDev ans) = true := by
  simp only [ublksrvCtrlDelDev, Program.eval_bind, ctrlCmd_eval, Program.eval_pure] at h
  simp [ublksrvCtrlDelDev, succeeds, ublksrvCtrlInitCmd_nr, unPrivilegedPrepData_cmdOp,
    Int32.not_lt.mp h]

theorem cmdDevDel_trace (h : stepFails number ctrlInit ans = false) :
    ((cmdDevDel number ctrlInit).trace ans).any (succeeds .stopDev ans) = true ∧
      ((cmdDevDel number ctrlInit).trace ans).any (succeeds .delDev ans) = true := by
  unfold stepFails at h
  simp only [Bool.or_eq_false_iff, Bool.not_eq_false', decide_eq_false_iff_not] at h
  obtain ⟨⟨⟨rfl, hinfo⟩, hstop⟩, hdel⟩ := h
  simp only [cmdDevDel, Bool.not_true, Bool.false_eq_true, ↓reduceIte, Program.trace_bind, if_neg hinfo,
    if_neg hstop, List.any_append, stop_succeeds hstop, del_succeeds hdel, Bool.or_true, Bool.true_or,
    and_self]

structure Thread where
  id : UInt32
  pc : ThreadPc
  stopped : Bool
  deriving DecidableEq, Repr

structure Call where
  id : Int32
  ctrlInit : Bool
  ans : CtrlCmd → Response
  caller : DeletePc
  goroutine : Ctrl Int32
  stopped : Bool
  deleted : Bool

structure State where
  threads : List Thread
  calls : List Call

inductive Act
  | spawn (id : UInt32)
  | thread (j : ℕ) (ok : Bool)
  | removed (id : UInt32)
  | delete (id : Int32) (ctrlInit : Bool) (ans : CtrlCmd → Response)
  | devDel (m : ℕ)
  | handshake (m j : ℕ)
  | remove (m : ℕ) (ok : Bool)

variable (s : State)

def Thread.stop (id : UInt32) (t : Thread) : Thread := if t.id = id then { t with stopped := true } else t

def State.stopDev (id : UInt32) : State := { s with threads := s.threads.map (Thread.stop id) }

def State.setCall (m : ℕ) (x : Call) : State := { s with calls := s.calls.set m x }

/-- `demo_null_io_handler_fn` up to the send in `notifyShutdown`. -/
def threadStep (t : Thread) (ok : Bool) : Option Thread :=
  match t.pc with
  | .init => some { t with pc := if ok then .running else .failed }
  | .running => if t.stopped then some { t with pc := .notify } else none
  | _ => none

def Call.issue (x : Call) (c : CtrlCmd) (k : Response → Ctrl Int32) : Call :=
  { x with
    goroutine := k (x.ans c)
    stopped := x.stopped || succeeds .stopDev x.ans c
    deleted := x.deleted || succeeds .delDev x.ans c }

def step : Act → Option State
  | .spawn id => some { s with threads := s.threads ++ [⟨id, .init, false⟩] }
  | .thread j ok =>
    s.threads[j]?.bind fun t =>
      (threadStep t ok).map fun t' => { s with threads := s.threads.set j t' }
  | .removed id => some (s.stopDev id)
  | .delete id ctrlInit ans =>
    some { s with
      calls := s.calls ++ [⟨id, ctrlInit, ans, .waiting, cmdDevDel id ctrlInit, false, false⟩] }
  | .devDel m =>
    s.calls[m]?.bind fun x =>
      match x.goroutine with
      | .done _ => none
      | .ask c k =>
        if succeeds .stopDev x.ans c then some ((s.stopDev c.devId).setCall m (x.issue c k))
        else some (s.setCall m (x.issue c k))
  | .handshake m j =>
    s.calls[m]?.bind fun x =>
      s.threads[j]?.bind fun t =>
        if x.caller = .waiting ∧ t.pc = .notify then
          some { threads := s.threads.set j { t with pc := .exited }
                 calls := s.calls.set m { x with caller := .remove } }
        else none
  | .remove m ok =>
    s.calls[m]?.bind fun x =>
      if x.caller = .remove then some (s.setCall m { x with caller := .returned (!ok) }) else none

def machine : Machine State Act where
  init s := s = ⟨[], []⟩
  step := step

def Act.internal : Act → Bool
  | .thread .. | .devDel .. | .handshake .. | .remove .. => true
  | _ => false

/-- Nothing goes on until there is a new call or a new event outside. -/
def Quiet : Prop := ∀ a, a.internal = true → step s a = none

/-- What the caller and the user are told about the deletions is what happened. -/
structure Truthful : Prop where
  ret : ∀ x ∈ s.calls, ∀ r, x.goroutine = .done r →
    (r < 0 ↔ stepFails x.id x.ctrlInit x.ans = true)
  nil : ∀ x ∈ s.calls, x.caller = .returned false → x.stopped = true ∧ x.deleted = true
  returns : Quiet s → ∀ x ∈ s.calls, x.caller ≠ .waiting

/-- A call receives from `Done` only after its goroutine has ended, and no step of it failed. -/
def AfterDel (s : State) : Act → Prop
  | .handshake m _ =>
    ∀ x ∈ s.calls[m]?, x.goroutine.isDone = true ∧ stepFails x.id x.ctrlInit x.ans = false
  | _ => True

inductive Step (s : State) : Act → State → Prop
  | spawn (id : UInt32) : Step s (.spawn id) { s with threads := s.threads ++ [⟨id, .init, false⟩] }
  | thread (j : ℕ) (ok : Bool) (t t' : Thread) : s.threads[j]? = some t → threadStep t ok = some t' →
      Step s (.thread j ok) { s with threads := s.threads.set j t' }
  | removed (id : UInt32) : Step s (.removed id) (s.stopDev id)
  | delete (id : Int32) (ctrlInit : Bool) (ans : CtrlCmd → Response) :
      Step s (.delete id ctrlInit ans)
        { s with
          calls := s.calls ++ [⟨id, ctrlInit, ans, .waiting, cmdDevDel id ctrlInit, false, false⟩] }
  | issue (m : ℕ) (x : Call) (c : CtrlCmd) (k : Response → Ctrl Int32) (threads : List Thread) :
      s.calls[m]? = some x → x.goroutine = .ask c k →
      (threads = s.threads ∨ threads = s.threads.map (Thread.stop c.devId)) →
      Step s (.devDel m) { threads := threads, calls := s.calls.set m (x.issue c k) }
  | handshake (m j : ℕ) (x : Call) (t : Thread) : s.calls[m]? = some x → s.threads[j]? = some t →
      x.caller = .waiting → t.pc = .notify →
      Step s (.handshake m j)
        { threads := s.threads.set j { t with pc := .exited }
          calls := s.calls.set m { x with caller := .remove } }
  | remove (m : ℕ) (ok : Bool) (x : Call) : s.calls[m]? = some x → x.caller = .remove →
      Step s (.remove m ok) (s.setCall m { x with caller := .returned (!ok) })

variable {s} {s' : State} {a : Act} {x : Call} {C : State → Act → Prop}

theorem step_cases (h : step s a = some s') : Step s a s' := by
  cases a with
  | spawn id => exact Option.some.inj h ▸ .spawn id
  | thread j ok =>
    obtain ⟨t, hj, h⟩ := Option.bind_eq_some_iff.mp h
    obtain ⟨t', ht, rfl⟩ := Option.map_eq_some_iff.mp h
    exact .thread j ok t t' hj ht
  | removed id => exact Option.some.inj h ▸ .removed id
  | delete id ctrlInit ans => exact Option.some.inj h ▸ .delete id ctrlInit ans
  | devDel m =>
    obtain ⟨x, hm, h⟩ := Option.bind_eq_some_iff.mp h
    cases hg : x.goroutine with
    | done r => simp [hg] at h
    | ask c k =>
      simp only [hg] at h
      split_ifs at h <;> cases h
      · exact .issue m x c k _ hm hg (.inr rfl)
      · exact .issue m x c k _ hm hg (.inl rfl)
  | handshake m j =>
    obtain ⟨x, hm, h⟩ := Option.bind_eq_some_iff.mp h
    obtain ⟨t, hj, h⟩ := Option.bind_eq_some_iff.mp h
    split_ifs at h with hc
    exact Option.some.inj h ▸ .handshake m j x t hm hj hc.1 hc.2
  | remove m ok =>
    obtain ⟨x, hm, h⟩ := Option.bind_eq_some_iff.mp h
    split_ifs at h with hc
    exact Option.some.inj h ▸ .remove m ok x hm hc

def Thread.exited (t : Thread) : Bool := t.pc == .exited

def Thread.notifies (t : Thread) : Bool := t.pc == .notify

def Thread.left (t : Thread) : Bool := t.notifies || t.exited

def Call.waits (x : Call) : Bool := x.caller == .waiting

def Call.received (x : Call) : Bool := x.caller != .waiting

theorem countP_stop (id : UInt32) (l : List Thread) (p : ThreadPc → Bool) :
    (l.map (Thread.stop id)).countP (fun t => p t.pc) = l.countP fun t => p t.pc := by
  rw [List.countP_map]
  congr 1
  funext t
  simp only [Function.comp, Thread.stop]
  split_ifs <;> rfl

theorem threadStep_exited {t t' : Thread} {ok : Bool} (h : threadStep t ok = some t') :
    t'.exited = t.exited := by
  unfold threadStep at h
  cases hp : t.pc with
  | init =>
    simp only [hp, Option.some.injEq] at h
    subst h
    cases ok <;> simp [Thread.exited, hp]
  | running =>
    simp only [hp] at h
    split_ifs at h
    cases h
    simp [Thread.exited, hp]
  | notify | exited | failed => simp [hp] at h

theorem received_step (hi : s.threads.countP Thread.exited = s.calls.countP Call.received)
    (h : Step s a s') : s'.threads.countP Thread.exited = s'.calls.countP Call.received := by
  cases h with
  | spawn id => simpa [List.countP_append, Thread.exited] using hi
  | thread j ok t t' hj ht => exact (List.countP_set_keep hj (threadStep_exited ht)).trans hi
  | removed id => exact (countP_stop id s.threads (· == .exited)).trans hi
  | delete id ctrlInit ans => simpa [List.countP_append, Call.received] using hi
  | issue m x c k threads hm hg ht =>
    have hthreads : threads.countP Thread.exited = s.threads.countP Thread.exited := by
      rcases ht with rfl | rfl
      · rfl
      · exact countP_stop c.devId s.threads (· == .exited)
    have hcalls : (s.calls.set m (x.issue c k)).countP Call.received = s.calls.countP Call.received :=
      List.countP_set_keep hm rfl
    exact (hthreads.trans hi).trans hcalls.symm
  | handshake m j x t hm hj hc hp =>
    have ht := List.countP_set_of_get (b := { t with pc := .exited }) (p := Thread.exited) hj
    have hx := List.countP_set_of_get (b := { x with caller := .remove }) (p := Call.received) hm
    have hexited : t.exited = false := by simp [Thread.exited, hp]
    have hreceived : x.received = false := by simp [Call.received, hc]
    rw [hexited] at ht
    rw [hreceived] at hx
    change _ + 0 = _ + 1 at ht
    change _ + 0 = _ + 1 at hx
    dsimp only
    omega
  | remove m ok x hm hc =>
    refine hi.trans (Eq.symm (List.countP_set_keep hm ?_))
    rw [Call.received, Call.received, hc]
    cases ok <;> rfl

theorem received_reach (h : machine.Reach C s) :
    s.threads.countP Thread.exited = s.calls.countP Call.received := by
  induction h with
  | init hi =>
    cases hi
    rfl
  | step _ _ hs ih => exact received_step ih (step_cases hs)

structure Call.Runs (x : Call) : Prop where
  eval : x.goroutine.eval x.ans = (cmdDevDel x.id x.ctrlInit).eval x.ans
  stopped : (x.stopped || (x.goroutine.trace x.ans).any (succeeds .stopDev x.ans)) =
    ((cmdDevDel x.id x.ctrlInit).trace x.ans).any (succeeds .stopDev x.ans)
  deleted : (x.deleted || (x.goroutine.trace x.ans).any (succeeds .delDev x.ans)) =
    ((cmdDevDel x.id x.ctrlInit).trace x.ans).any (succeeds .delDev x.ans)

theorem Call.Runs.issue {c : CtrlCmd} {k : Response → Ctrl Int32} (hi : x.Runs)
    (hg : x.goroutine = .ask c k) : (x.issue c k).Runs := by
  obtain ⟨heval, hstopped, hdeleted⟩ := hi
  rw [hg] at heval hstopped hdeleted
  constructor
  · exact heval
  · simpa [Call.issue, Bool.or_assoc] using hstopped
  · simpa [Call.issue, Bool.or_assoc] using hdeleted

theorem runs_step (hi : ∀ x ∈ s.calls, x.Runs) (h : Step s a s') : ∀ x ∈ s'.calls, x.Runs := by
  have hget : ∀ {m : ℕ} {x : Call}, s.calls[m]? = some x → x.Runs :=
    fun hm => hi _ (List.mem_of_getElem? hm)
  cases h with
  | spawn | thread | removed => exact hi
  | delete id ctrlInit ans =>
    intro x hx
    rcases List.mem_append.mp hx with hx | hx
    · exact hi x hx
    · rw [List.mem_singleton.mp hx]
      exact ⟨rfl, rfl, rfl⟩
  | issue m x c k threads hm hg => exact List.forall_mem_set hi ((hget hm).issue hg)
  | handshake m j x t hm | remove m ok x hm =>
    exact List.forall_mem_set hi ⟨(hget hm).eval, (hget hm).stopped, (hget hm).deleted⟩

theorem runs_reach (h : machine.Reach C s) : ∀ x ∈ s.calls, x.Runs := by
  refine h.invariant (I := fun s => ∀ x ∈ s.calls, x.Runs) ?_ fun t a t' _ hi _ hs =>
    runs_step hi (step_cases hs)
  rintro t rfl
  simp

theorem Call.Runs.gone (hi : x.Runs) (hd : x.goroutine.isDone = true)
    (hf : stepFails x.id x.ctrlInit x.ans = false) : x.stopped = true ∧ x.deleted = true := by
  obtain ⟨r, hr⟩ : ∃ r, x.goroutine = .done r := by
    cases hg : x.goroutine with
    | done r => exact ⟨r, rfl⟩
    | ask c k =>
      rw [hg] at hd
      cases hd
  have hstopped := hi.stopped
  have hdeleted := hi.deleted
  rw [hr, (cmdDevDel_trace hf).1] at hstopped
  rw [hr, (cmdDevDel_trace hf).2] at hdeleted
  constructor
  · simpa using hstopped
  · simpa using hdeleted

theorem gone_step (hi : ∀ x ∈ s.calls, x.received = true → x.stopped = true ∧ x.deleted = true)
    (hr : ∀ x ∈ s.calls, x.Runs) (hc : AfterDel s a) (h : Step s a s') :
    ∀ x ∈ s'.calls, x.received = true → x.stopped = true ∧ x.deleted = true := by
  cases h with
  | spawn | thread | removed => exact hi
  | delete id ctrlInit ans =>
    intro x hx hw
    rcases List.mem_append.mp hx with hx | hx
    · exact hi x hx hw
    · rw [List.mem_singleton.mp hx] at hw
      cases hw
  | issue m x c k threads hm hg =>
    apply List.forall_mem_set hi
    intro hw
    obtain ⟨hstopped, hdeleted⟩ := hi x (List.mem_of_getElem? hm) hw
    simp [Call.issue, hstopped, hdeleted]
  | handshake m j x t hm =>
    apply List.forall_mem_set hi
    intro _
    obtain ⟨hd, hf⟩ := hc x hm
    exact (hr x (List.mem_of_getElem? hm)).gone hd hf
  | remove m ok x hm hw =>
    apply List.forall_mem_set hi
    intro _
    exact hi x (List.mem_of_getElem? hm) (by simp [Call.received, hw])

theorem gone_reach (h : machine.Reach AfterDel s) :
    ∀ x ∈ s.calls, x.received = true → x.stopped = true ∧ x.deleted = true := by
  refine h.invariant
    (I := fun s => ∀ x ∈ s.calls, x.received = true → x.stopped = true ∧ x.deleted = true) ?_
    fun t a t' hr hi hc hs => gone_step hi (runs_reach hr) hc (step_cases hs)
  rintro t rfl
  simp

theorem quiet_notifies (hq : Quiet s) (hx : x ∈ s.calls) (hw : x.caller = .waiting) :
    s.threads.countP Thread.notifies = 0 := by
  rw [List.countP_eq_zero]
  intro t ht hn
  obtain ⟨m, hm⟩ := List.mem_iff_getElem?.mp hx
  obtain ⟨j, hj⟩ := List.mem_iff_getElem?.mp ht
  have hstep := hq (.handshake m j) rfl
  have hp : t.pc = .notify := eq_of_beq hn
  simp [step, hm, hj, hw, hp] at hstep

theorem countP_left (l : List Thread) :
    l.countP Thread.left = l.countP Thread.notifies + l.countP Thread.exited := by
  induction l with
  | nil => rfl
  | cons t l ih =>
    obtain ⟨id, pc, stopped⟩ := t
    simp only [List.countP_cons, ih, Thread.left, Thread.notifies, Thread.exited]
    cases pc <;> simp <;> omega

theorem quiet_waits (hr : s.threads.countP Thread.exited = s.calls.countP Call.received)
    (hq : Quiet s) :
    (∀ x ∈ s.calls, x.caller ≠ .waiting) ↔ s.calls.length ≤ s.threads.countP Thread.left := by
  have hleft := countP_left s.threads
  have hlen := List.length_eq_countP_add_countP Call.received (l := s.calls)
  constructor
  · intro h
    have hnone : s.calls.countP (fun x => decide ¬ x.received = true) = 0 := by
      rw [List.countP_eq_zero]
      intro x hx hw
      simp [Call.received, h x hx] at hw
    omega
  · intro hle x hx hw
    have h0 := quiet_notifies hq hx hw
    have hpos : 0 < s.calls.countP (fun x => decide ¬ x.received = true) := by
      rw [List.countP_pos_iff]
      exact ⟨x, hx, by simp [Call.received, hw]⟩
    omega

theorem delete_truthful : ∀ s, machine.Reach AfterDel s →
    (Truthful s ↔
      (∀ x ∈ s.calls, x.goroutine.isDone = true → infoFails x.id x.ctrlInit x.ans = false) ∧
      (Quiet s → s.calls.length ≤ s.threads.countP Thread.left)) := by
  intro s h
  have hruns := runs_reach h
  constructor
  · intro ht
    constructor
    · intro x hx hd
      cases hg : x.goroutine with
      | ask c k =>
        rw [hg] at hd
        cases hd
      | done r =>
        have heval := (hruns x hx).eval
        rw [hg] at heval
        have hret := ht.ret x hx r hg
        rw [show r = _ from heval] at hret
        exact cmdDevDel_neg_iff.mp hret
    · intro hq
      exact (quiet_waits (received_reach h) hq).mp (ht.returns hq)
  · rintro ⟨hinfo, hcount⟩
    constructor
    · intro x hx r hg
      have heval := (hruns x hx).eval
      rw [hg] at heval
      rw [show r = _ from heval]
      apply cmdDevDel_neg_iff.mpr
      apply hinfo x hx
      rw [hg]
      rfl
    · intro x hx hc
      exact gone_reach h x hx (by simp [Call.received, hc])
    · intro hq
      exact (quiet_waits (received_reach h) hq).mpr (hcount hq)

instance : Decidable (AfterDel s a) :=
  match a with
  | .handshake m _ =>
    inferInstanceAs (Decidable (∀ x ∈ s.calls[m]?, x.goroutine.isDone = true ∧ stepFails _ _ _ = false))
  | .spawn _ | .thread .. | .removed _ | .delete .. | .devDel _ | .remove .. => .isTrue trivial

def always (res : Int32) (c : CtrlCmd) : Response := ⟨res, ⟨1, c.devId, 0⟩, fun _ => 0⟩

def deleteServed : List Act :=
  [.spawn 0, .thread 0 true, .delete 0 true (always 0), .devDel 0, .devDel 0, .devDel 0, .thread 0 true,
    .handshake 0 0, .remove 0 true]

theorem deleteServed_runs : (machine.runIf (fun s a => decide (AfterDel s a)) ⟨[], []⟩
    deleteServed).isSome = true := by decide +kernel

def deletedServed : State := (machine.runIf (fun s a => decide (AfterDel s a)) ⟨[], []⟩
  deleteServed).get deleteServed_runs

theorem delete_truthful_served : deletedServed.calls.length = 1 ∧ Truthful deletedServed := by
  constructor
  · decide +kernel
  · apply (delete_truthful deletedServed (.of_runIf (.init rfl) (fun _ _ => of_decide_eq_true)
      (Option.some_get _).symm)).mpr
    exact ⟨by decide +kernel, fun _ => by decide +kernel⟩

/-- No device has id 7, and the process has no queue thread. -/
def deleteMissing : List Act :=
  [.delete 7 true (always (-19)), .devDel 0, .devDel 0, .devDel 0, .devDel 0]

def missing : Call := ⟨7, true, always (-19), .waiting, .done 0, false, false⟩

theorem deleteMissing_runs : machine.run ⟨[], []⟩ deleteMissing = some ⟨[], [missing]⟩ := by
  rfl

/-- `cmd_dev_del` returns 0 after four failed commands, and `DeleteDevice` waits. -/
theorem not_delete_truthful_missing :
    ¬ ∀ s, machine.Reach Machine.Free s → Truthful s := by
  intro h
  have hr : machine.Reach Machine.Free ⟨[], [missing]⟩ :=
    .of_run (.init rfl) (fun _ _ _ => trivial) deleteMissing_runs
  have hret := (h _ hr).ret missing (List.mem_singleton_self _) 0 rfl
  exact absurd (hret.mpr (by decide +kernel)) (by decide)

end GoUblksrv.Deletion
