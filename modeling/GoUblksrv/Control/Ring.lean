import GoUblksrv.Control.Commands

/-!
`__ublksrv_ctrl_cmd` on the ring of a control device. The function submits one command and
takes one CQE without a look at its `user_data`; each exit between the two leaves one
command behind, and from then on the CQE that it takes need not be its own.

A submit that fails leaves the SQEs where they are, a wait that fails leaves the commands
with the driver, and the CQ is a queue. The driver completes commands in any order.
-/

namespace GoUblksrv.Control

abbrev ctrlSqEntries : ℕ := 32

/-- A prepared command; `serial` counts the commands of the device. -/
structure Sqe where
  serial : ℕ
  cmd : CtrlCmd
  deriving DecidableEq, Repr

structure Cqe where
  sqe : Sqe
  res : Int32
  deriving DecidableEq, Repr

/-- The ring, and the history in the last three fields. -/
structure CtrlDev where
  sq : List Sqe
  inflight : List Sqe
  cq : List Cqe
  issued : ℕ
  failures : ℕ
  executed : List Cqe
  deriving DecidableEq, Repr

/-- What happens during one call: the results of `io_uring_submit` and of the rounds of
`io_uring_wait_cqe`, the completions by the driver, and what is then in the command's buffer. -/
structure Env where
  submit : Int32
  completions : List (ℕ × Int32)
  waits : List Int32
  info : CtrlDevInfo
  cpus : ℕ → UInt8

variable (d : CtrlDev) (c : CtrlCmd) (e : Env)

def CtrlDev.prepare : CtrlDev :=
  { d with sq := d.sq ++ [⟨d.issued, c⟩], issued := d.issued + 1 }

def CtrlDev.submitted : CtrlDev := { d with sq := [], inflight := d.inflight ++ d.sq }

def CtrlDev.fail : CtrlDev := { d with failures := d.failures + 1 }

def CtrlDev.complete (i : ℕ) (res : Int32) : Option CtrlDev :=
  d.inflight[i]?.map fun x =>
    { d with
      inflight := d.inflight.eraseIdx i
      cq := d.cq ++ [⟨x, res⟩]
      executed := d.executed ++ [⟨x, res⟩] }

def driver : Machine CtrlDev (ℕ × Int32) where
  init _ := True
  step d a := d.complete a.1 a.2

/-- The returned value, and the CQE that it was taken from. -/
def ublksrvCtrlCmd : Option (CtrlDev × Int32 × Option Cqe) :=
  if d.sq.length < ctrlSqEntries then
    if e.submit < 0 then some ((d.prepare c).fail, e.submit, none)
    else
      (driver.run (d.prepare c).submitted e.completions).bind fun d =>
        (e.waits.find? (· != eintr)).bind fun ret =>
          if ret < 0 then some (d.fail, ret, none)
          else
            match d.cq with
            | [] => none
            | x :: rest => some ({ d with cq := rest }, x.res, some x)
  else some (d, einval, none)

inductive Call : CtrlDev → Int32 → Option Cqe → Prop
  | full : ctrlSqEntries ≤ d.sq.length → Call d einval none
  | submitFails (ret : Int32) : d.sq.length < ctrlSqEntries → ret < 0 →
      Call (d.prepare c).fail ret none
  | waitFails (as : List (ℕ × Int32)) (d₁ : CtrlDev) (ret : Int32) : d.sq.length < ctrlSqEntries →
      driver.run (d.prepare c).submitted as = some d₁ → ret < 0 → Call d₁.fail ret none
  | reaps (as : List (ℕ × Int32)) (d₁ : CtrlDev) (x : Cqe) (rest : List Cqe) :
      d.sq.length < ctrlSqEntries → driver.run (d.prepare c).submitted as = some d₁ →
      d₁.cq = x :: rest → Call { d₁ with cq := rest } x.res (some x)

variable {d c e} {d' d₁ : CtrlDev} {ret : Int32} {x : Option Cqe}

theorem ublksrvCtrlCmd_cases (h : ublksrvCtrlCmd d c e = some (d', ret, x)) : Call d c d' ret x := by
  unfold ublksrvCtrlCmd at h
  by_cases hsq : d.sq.length < ctrlSqEntries
  · rw [if_pos hsq] at h
    by_cases hsub : e.submit < 0
    · rw [if_pos hsub] at h
      cases h
      exact .submitFails e.submit hsq hsub
    · rw [if_neg hsub] at h
      obtain ⟨d₁, hrun, h⟩ := Option.bind_eq_some_iff.mp h
      obtain ⟨r, -, h⟩ := Option.bind_eq_some_iff.mp h
      by_cases hr : r < 0
      · rw [if_pos hr] at h
        cases h
        exact .waitFails e.completions d₁ _ hsq hrun hr
      · rw [if_neg hr] at h
        split at h
        · cases h
        · rename_i y rest hcq
          cases h
          exact .reaps e.completions d₁ y rest hsq hrun hcq
  · rw [if_neg hsq] at h
    cases h
    exact .full (by omega)

/-- The commands that a call did not get an answer for. -/
def CtrlDev.leftover (d : CtrlDev) : ℕ := d.sq.length + d.inflight.length + d.cq.length

structure Only (P : Sqe → Prop) (d : CtrlDev) : Prop where
  inflight : ∀ y ∈ d.inflight, P y
  cq : ∀ y ∈ d.cq, P y.sqe

structure Completes (d d₁ : CtrlDev) : Prop where
  sq : d₁.sq = d.sq
  issued : d₁.issued = d.issued
  failures : d₁.failures = d.failures
  leftover : d₁.leftover = d.leftover
  only : ∀ P, Only P d → Only P d₁
  executed : (∀ y ∈ d.cq, y ∈ d.executed) → ∀ y ∈ d₁.cq, y ∈ d₁.executed

theorem Completes.refl (d : CtrlDev) : Completes d d := ⟨rfl, rfl, rfl, rfl, fun _ => id, id⟩

theorem Completes.step {a : ℕ × Int32} (h : Completes d d₁) (hs : driver.step d₁ a = some d') :
    Completes d d' := by
  obtain ⟨y, hy, rfl⟩ := Option.map_eq_some_iff.mp hs
  have hmem := List.mem_of_getElem? hy
  have hlt := (List.getElem?_eq_some_iff.mp hy).1
  constructor
  · exact h.sq
  · exact h.issued
  · exact h.failures
  · rw [← h.leftover]
    simp only [CtrlDev.leftover, List.length_eraseIdx_of_lt hlt, List.length_append, List.length_singleton]
    omega
  · intro P hP
    obtain ⟨hi, hq⟩ := h.only P hP
    constructor
    · intro z hz
      exact hi z (List.mem_of_mem_eraseIdx hz)
    · intro z hz
      rcases List.mem_append.mp hz with hz | hz
      · exact hq z hz
      · rw [List.mem_singleton.mp hz]
        exact hi y hmem
  · intro hex z hz
    apply List.mem_append.mpr
    rcases List.mem_append.mp hz with hz | hz
    · exact .inl (h.executed hex z hz)
    · exact .inr hz

theorem run_completes {as : List (ℕ × Int32)} (h : driver.run d as = some d₁) : Completes d d₁ :=
  driver.run_invariant (I := Completes d) (fun _ _ _ hi hs => hi.step hs) (.refl d) h

/-- Every command left behind is an earlier one, and there are as many as calls that failed. -/
structure Ring (d : CtrlDev) : Prop where
  leftover : d.leftover = d.failures
  sq : ∀ y ∈ d.sq, y.serial < d.issued
  old : Only (fun y => y.serial < d.issued) d
  executed : ∀ y ∈ d.cq, y ∈ d.executed

theorem Ring.submitted_only (hi : Ring d) (c : CtrlCmd) :
    Only (fun y => y.serial < d.issued + 1) (d.prepare c).submitted := by
  constructor
  · intro y hy
    simp only [CtrlDev.submitted, CtrlDev.prepare, List.mem_append, List.mem_singleton] at hy
    rcases hy with hy | hy | rfl
    · exact Nat.lt_succ_of_lt (hi.old.inflight y hy)
    · exact Nat.lt_succ_of_lt (hi.sq y hy)
    · exact Nat.lt_succ_self _
  · intro y hy
    exact Nat.lt_succ_of_lt (hi.old.cq y hy)

theorem leftover_submitted (d : CtrlDev) (c : CtrlCmd) :
    (d.prepare c).submitted.leftover = d.leftover + 1 := by
  simp only [CtrlDev.leftover, CtrlDev.submitted, CtrlDev.prepare, List.length_append,
    List.length_singleton, List.length_nil]
  omega

theorem Ring.completed {as : List (ℕ × Int32)} (hi : Ring d)
    (h : driver.run (d.prepare c).submitted as = some d₁) :
    d₁.leftover = d₁.failures + 1 ∧ d₁.sq = [] ∧ Only (fun y => y.serial < d₁.issued) d₁ ∧
      ∀ y ∈ d₁.cq, y ∈ d₁.executed := by
  have hd := run_completes h
  have hissued : d₁.issued = d.issued + 1 := hd.issued
  have hfailures : d₁.failures = d.failures := hd.failures
  refine ⟨?_, hd.sq, ?_, hd.executed hi.executed⟩
  · rw [hd.leftover, leftover_submitted, hi.leftover, hfailures]
  · rw [hissued]
    exact hd.only _ (hi.submitted_only c)

theorem Ring.call (hi : Ring d) (h : Call d c d' ret x) : Ring d' := by
  cases h with
  | full => exact hi
  | submitFails =>
    constructor
    · have := hi.leftover
      simp only [CtrlDev.leftover, CtrlDev.fail, CtrlDev.prepare, List.length_append,
        List.length_singleton] at this ⊢
      omega
    · intro y hy
      rcases List.mem_append.mp hy with hy | hy
      · exact Nat.lt_succ_of_lt (hi.sq y hy)
      · rw [List.mem_singleton.mp hy]
        exact Nat.lt_succ_self _
    · constructor
      · intro y hy
        exact Nat.lt_succ_of_lt (hi.old.inflight y hy)
      · intro y hy
        exact Nat.lt_succ_of_lt (hi.old.cq y hy)
    · exact hi.executed
  | waitFails as d₁ ret hsq hrun =>
    obtain ⟨hleft, hempty, hold, hex⟩ := hi.completed hrun
    constructor
    · exact hleft
    · intro y hy
      change y ∈ d₁.sq at hy
      rw [hempty] at hy
      cases hy
    · exact ⟨hold.inflight, hold.cq⟩
    · exact hex
  | reaps as d₁ x rest hsq hrun hcq =>
    obtain ⟨hleft, hempty, hold, hex⟩ := hi.completed hrun
    have hsub : ∀ y ∈ rest, y ∈ d₁.cq := by
      intro y hy
      rw [hcq]
      exact List.mem_cons_of_mem x hy
    constructor
    · change d₁.sq.length + d₁.inflight.length + rest.length = d₁.failures
      simp only [CtrlDev.leftover, hcq, List.length_cons] at hleft
      omega
    · intro y hy
      change y ∈ d₁.sq at hy
      rw [hempty] at hy
      cases hy
    · exact ⟨hold.inflight, fun y hy => hold.cq y (hsub y hy)⟩
    · intro y hy
      exact hex y (hsub y hy)

def CtrlDev.new : CtrlDev := ⟨[], [], [], 0, 0, []⟩

def machine : Machine CtrlDev (CtrlCmd × Env) where
  init d := d = .new
  step d a := (ublksrvCtrlCmd d a.1 a.2).map Prod.fst

variable {C : CtrlDev → CtrlCmd × Env → Prop}

theorem ring_reach (h : machine.Reach C d) : Ring d := by
  induction h with
  | init hi =>
    cases hi
    exact ⟨rfl, nofun, ⟨nofun, nofun⟩, nofun⟩
  | step _ _ hs ih =>
    obtain ⟨⟨d', ret, x⟩, hc, rfl⟩ := Option.map_eq_some_iff.mp hs
    exact ih.call (ublksrvCtrlCmd_cases hc)

def answer (d : CtrlDev) (c : CtrlCmd) (e : Env) : Option (CtrlDev × Response) :=
  (ublksrvCtrlCmd d c e).map fun r => (r.1, ⟨r.2.1, e.info, e.cpus⟩)

/-- Between the commands of a control function the device is one that the machine reaches. -/
theorem exec_reach {α : Type} {p : Ctrl α} {a : α} {es es' : List Env}
    (hd : machine.Reach Machine.Free d) (h : p.exec answer d es = some (d', a, es')) :
    machine.Reach Machine.Free d' := by
  refine Program.exec_reach ?_ hd (fun _ _ => trivial) h
  intro s q e
  rw [answer, Option.map_map]
  rfl

/-- Whatever command comes next: the CQE is its own, and a success is one of the driver. -/
def OwnAnswer (d : CtrlDev) : Prop :=
  ∀ c e d' ret x, ublksrvCtrlCmd d c e = some (d', ret, x) →
    (∀ y, x = some y → y.sqe.serial = d.issued) ∧
    (0 ≤ ret → ⟨⟨d.issued, c⟩, ret⟩ ∈ d'.executed)

theorem Ring.own (hi : Ring d) (h0 : d.failures = 0) (h : Call d c d' ret x) :
    (∀ y, x = some y → y.sqe.serial = d.issued) ∧ (0 ≤ ret → ⟨⟨d.issued, c⟩, ret⟩ ∈ d'.executed) := by
  cases h with
  | full =>
    refine ⟨nofun, ?_⟩
    intro h
    exact absurd h (by decide)
  | submitFails ret hsq hr | waitFails as d₁ ret hsq hrun hr =>
    refine ⟨nofun, ?_⟩
    intro h
    exact absurd h (Int32.not_le.mpr hr)
  | reaps as d₁ y rest hsq hrun hcq =>
    have hl := hi.leftover
    rw [h0, CtrlDev.leftover] at hl
    have hd := run_completes hrun
    have hown : Only (· = ⟨d.issued, c⟩) (d.prepare c).submitted := by
      constructor
      · intro z hz
        have hsq : d.sq = [] := List.length_eq_zero_iff.mp (by omega)
        have hin : d.inflight = [] := List.length_eq_zero_iff.mp (by omega)
        simpa [CtrlDev.submitted, CtrlDev.prepare, hsq, hin] using hz
      · intro z hz
        have hq : d.cq = [] := List.length_eq_zero_iff.mp (by omega)
        simp [CtrlDev.submitted, CtrlDev.prepare, hq] at hz
    have hy : y ∈ d₁.cq := hcq ▸ List.mem_cons_self
    have hsqe := (hd.only _ hown).cq y hy
    constructor
    · intro z hz
      rw [← Option.some.inj hz, hsqe]
    · intro _
      have hex := hd.executed hi.executed y hy
      rw [← hsqe]
      exact hex

theorem ublksrvCtrlCmd_reaps {as : List (ℕ × Int32)} {y : Cqe} {rest : List Cqe}
    (hsq : d.sq.length < ctrlSqEntries) (hrun : driver.run (d.prepare c).submitted as = some d₁)
    (hcq : d₁.cq = y :: rest) :
    ublksrvCtrlCmd d c ⟨0, as, [0], ⟨0, 0, 0⟩, fun _ => 0⟩ =
      some ({ d₁ with cq := rest }, y.res, some y) := by
  have hsub : ¬ (0 : Int32) < 0 := by decide
  have hwait : [(0 : Int32)].find? (· != eintr) = some 0 := by decide
  rw [ublksrvCtrlCmd, if_pos hsq, if_neg hsub]
  simp only [hrun, hwait, Option.bind_some, hcq, if_neg hsub]

theorem Ring.stale (hi : Ring d) (h0 : d.failures ≠ 0) (hsq : d.sq.length < ctrlSqEntries) (c : CtrlCmd) :
    ∃ e d' y, ublksrvCtrlCmd d c e = some (d', y.res, some y) ∧ y.sqe.serial < d.issued := by
  cases hq : d.cq with
  | cons y rest =>
    have hy := hi.old.cq y (hq ▸ List.mem_cons_self)
    exact ⟨_, _, y, ublksrvCtrlCmd_reaps hsq (driver.run_nil) hq, hy⟩
  | nil =>
    have hl := hi.leftover
    simp only [CtrlDev.leftover, hq, List.length_nil, Nat.add_zero] at hl
    obtain ⟨z, zs, hz⟩ : ∃ z zs, d.inflight ++ d.sq = z :: zs := by
      apply List.exists_cons_of_length_pos
      rw [List.length_append]
      omega
    have hold : z.serial < d.issued := by
      have hmem : z ∈ d.inflight ++ d.sq := hz ▸ List.mem_cons_self
      rcases List.mem_append.mp hmem with hmem | hmem
      · exact hi.old.inflight z hmem
      · exact hi.sq z hmem
    have hin : (d.prepare c).submitted.inflight[0]? = some z := by
      simp only [CtrlDev.submitted, CtrlDev.prepare]
      rw [← List.append_assoc, hz]
      rfl
    have hrun : driver.run (d.prepare c).submitted [(0, 0)] =
        (d.prepare c).submitted.complete 0 0 := by
      rw [Machine.run_cons]
      simp only [Machine.run_nil, Option.bind_fun_some]
      rfl
    rw [CtrlDev.complete, hin] at hrun
    have hcq : (d.prepare c).submitted.cq ++ [⟨z, 0⟩] = [⟨z, (0 : Int32)⟩] := by
      change d.cq ++ _ = _
      rw [hq]
      rfl
    exact ⟨_, _, ⟨z, 0⟩, ublksrvCtrlCmd_reaps hsq hrun hcq, hold⟩

theorem own_answer (d : CtrlDev) (h : machine.Reach Machine.Free d) :
    OwnAnswer d ↔ d.failures = 0 ∨ ctrlSqEntries ≤ d.sq.length := by
  have hi := ring_reach h
  constructor
  · intro hown
    by_contra hc
    rw [not_or, Nat.not_le] at hc
    obtain ⟨e, d', y, he, hy⟩ := hi.stale hc.1 hc.2 ⟨⟨.delDev, false⟩, 0, none, none⟩
    have := (hown _ e d' y.res (some y) he).1 y rfl
    omega
  · rintro (h0 | hfull) c e d' ret x hc
    · exact hi.own h0 (ublksrvCtrlCmd_cases hc)
    · have hcall := ublksrvCtrlCmd_cases hc
      cases hcall with
      | full =>
        refine ⟨nofun, ?_⟩
        intro h
        exact absurd h (by decide)
      | submitFails | waitFails | reaps => omega

def stopCmd : CtrlCmd := ⟨⟨.stopDev, false⟩, 0, none, none⟩

/-- `__ublksrv_ctrl_add_dev` of device 0. -/
def addCmd (ioctl : Bool) : CtrlCmd := ⟨⟨.addDev, ioctl⟩, 0, some (.devInfo, sizeofDevInfo), none⟩

def Env.of (submit : Int32) (completions : List (ℕ × Int32)) : Env :=
  ⟨submit, completions, [0], ⟨0, 0, 0⟩, fun _ => 0⟩

def stopped : CtrlDev := ⟨[], [], [], 1, 0, [⟨⟨0, stopCmd⟩, 0⟩]⟩

theorem own_answer_stopped : stopped.issued = 1 ∧ OwnAnswer stopped := by
  have h : machine.Reach Machine.Free stopped :=
    .step (a := (stopCmd, Env.of 1 [(0, 0)])) (.init rfl) trivial (by decide)
  exact ⟨rfl, (own_answer stopped h).mpr (.inl rfl)⟩

/-- The submit of the first `ADD_DEV` failed, so that it goes to the driver together with the retry. -/
def unsubmitted : CtrlDev := ⟨[⟨0, addCmd true⟩], [], [], 1, 1, []⟩

theorem unsubmitted_reach : machine.Reach Machine.Free unsubmitted :=
  .step (a := (addCmd true, Env.of (-11) [])) (.init rfl) trivial (by decide)

/-- The retry of `ublksrv_ctrl_add_dev` returns 0, which is the result of the first `ADD_DEV`; the driver
answered it with -EEXIST. -/
theorem not_own_answer_unsubmitted : ¬ ∀ d, machine.Reach Machine.Free d → OwnAnswer d := by
  intro h
  have hretry : ublksrvCtrlCmd unsubmitted (addCmd false) (Env.of 2 [(0, 0), (0, -17)]) =
      some (⟨[], [], [⟨⟨1, addCmd false⟩, -17⟩], 2, 1,
        [⟨⟨0, addCmd true⟩, 0⟩, ⟨⟨1, addCmd false⟩, -17⟩]⟩, 0, some ⟨⟨0, addCmd true⟩, 0⟩) := by decide
  have hown := h unsubmitted unsubmitted_reach (addCmd false) _ _ _ _ hretry
  exact absurd (hown.1 _ rfl) (by decide)

end GoUblksrv.Control
