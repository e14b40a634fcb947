import GoUblksrv.Control.Slots
import GoUblksrv.Lib.Shards

/-!
Sessions of any number of processes, interleaved command by command, with a driver that keeps its
devices apart. A session sends all of its commands to one device, so sessions of different devices
do not notice one another.
-/

namespace GoUblksrv.Control

open Deletion (queried)

/-- The number that asks the driver for a free one. -/
abbrev newDevId : UInt32 := 0xffffffff

def SessionCmd.devId : SessionCmd → UInt32
  | .ctrl c => c.devId
  | .params c => c.devId

def Session.devId : Session → UInt32
  | .startup info .. => info.devId
  | .getDeviceInfo id .. => id.toUInt32
  | .cmdDevDel number => number.toUInt32

/-- `startupC` asks for number 0. -/
def Session.Numbered : Session → Prop
  | .startup info .. => info.devId ≠ newDevId
  | _ => True

/-- The driver returns the record of the device that it was asked for. -/
def Names (c : CtrlCmd) (r : Response) : Prop :=
  c.cmdOp.nr = .addDev ∧ c.devId ≠ newDevId ∨ c.cmdOp.nr = .getDevInfo ∨ c.cmdOp.nr = .getDevInfo2 →
    0 ≤ r.res → r.info.devId = c.devId

def SessionCmd.Names : SessionCmd → SessionAnswer → Prop
  | .ctrl c, r => Control.Names c r.1
  | .params _, _ => True

variable {info : CtrlDevInfo} {n : UInt32}

theorem ctrlCmd_ensures (hn : info.devId = n) (data : CtrlCmdData) :
    (ctrlCmd info data).Ensures (·.devId = n) Names fun r => Names (ublksrvCtrlInitCmd info data) r :=
  ⟨hn, fun _ hx => hx⟩

theorem names_info {data : CtrlCmdData} {r : Response} (hn : info.devId = n)
    (hop : data.cmdOp.nr = .addDev ∧ n ≠ newDevId ∨ data.cmdOp.nr = .getDevInfo ∨ data.cmdOp.nr = .getDevInfo2)
    (h : Names (ublksrvCtrlInitCmd info data) r) (hres : 0 ≤ r.res) : r.info.devId = n := by
  rw [← hn]
  apply h _ hres
  rw [ublksrvCtrlInitCmd_nr]
  change _ ∧ info.devId ≠ newDevId ∨ _
  rw [hn]
  exact hop

theorem addDev_ensures (hn : info.devId = n) (hnew : n ≠ newDevId) :
    (ublksrvCtrlAddDev info).Ensures (·.devId = n) Names fun r => 0 ≤ r.res → r.info.devId = n := by
  have hcall (op : CmdOp) (hop : op.nr = .addDev) :
      (addDevNoTrans info op).Ensures (·.devId = n) Names fun r => 0 ≤ r.res → r.info.devId = n :=
    (ctrlCmd_ensures hn _).mono fun r hr hres => names_info hn (.inl ⟨hop, hnew⟩) hr hres
  apply (hcall ⟨.addDev, true⟩ rfl).bind
  intro r hr
  split_ifs
  · exact hcall ⟨.addDev, false⟩ rfl
  · exact Program.ensures_pure hr

theorem getInfoNoTrans_ensures (hn : info.devId = n) (op : CmdOp)
    (hop : op.nr = .getDevInfo ∨ op.nr = .getDevInfo2) :
    (ublksrvCtrlGetInfoNoTrans info op).Ensures (·.devId = n) Names fun r => r.2.devId = n := by
  unfold ublksrvCtrlGetInfoNoTrans
  by_cases hu : (ublkIsUnprivileged info && op.nr == .getDevInfo) = true
  · rw [if_pos hu]
    exact Program.ensures_pure hn
  · rw [if_neg hu]
    apply (ctrlCmd_ensures hn _).bind
    intro r hr
    apply Program.ensures_pure
    dsimp only
    by_cases hres : 0 ≤ r.res
    · rw [if_pos hres]
      refine names_info hn (.inr ?_) hr hres
      split_ifs <;> exact hop
    · rw [if_neg hres]
      exact hn

theorem getInfoOp_ensures (hn : info.devId = n) (nr : CmdNr) (hnr : nr = .getDevInfo ∨ nr = .getDevInfo2) :
    (getInfoOp info nr).Ensures (·.devId = n) Names fun r => r.2.devId = n := by
  apply (getInfoNoTrans_ensures hn (legacyOpToIoctl ⟨nr, false⟩) hnr).bind
  rintro ⟨ret, got⟩ hgot
  dsimp only at hgot ⊢
  split_ifs
  · exact getInfoNoTrans_ensures hgot ⟨nr, false⟩ hnr
  · exact Program.ensures_pure hgot

theorem getInfo_ensures (hn : info.devId = n) :
    (ublksrvCtrlGetInfo info).Ensures (·.devId = n) Names fun r => r.2.devId = n := by
  apply (getInfoOp_ensures hn .getDevInfo2 (.inr rfl)).bind
  rintro ⟨ret, got⟩ hgot
  dsimp only at hgot ⊢
  split_ifs
  · exact Program.ensures_pure hgot
  · exact getInfoOp_ensures hgot .getDevInfo (.inl rfl)
  · exact Program.ensures_pure hgot

theorem stopDev_ensures (hn : info.devId = n) :
    (ublksrvCtrlStopDev info).Ensures (·.devId = n) Names fun _ => True :=
  (ctrlCmd_ensures hn _).bind fun _ _ => trivial

theorem delDev_ensures (hn : info.devId = n) :
    (ublksrvCtrlDelDev info).Ensures (·.devId = n) Names fun _ => True :=
  (ctrlCmd_ensures hn _).bind fun _ _ => trivial

theorem startDev_ensures (hn : info.devId = n) (pid : UInt64) :
    (ublksrvCtrlStartDev info pid).Ensures (·.devId = n) Names fun _ => True :=
  (ctrlCmd_ensures hn _).bind fun _ _ => trivial

theorem affinityLoop_ensures (hn : info.devId = n) (m i : ℕ) (buf : Bytes) :
    (affinityLoop info m i buf).Ensures (·.devId = n) Names fun _ => True := by
  induction m generalizing i buf with
  | zero => trivial
  | succ m ih =>
    refine ⟨hn, ?_⟩
    intro r _
    dsimp only
    split_ifs
    · trivial
    · exact ih (i + 1) _

theorem getAffinity_ensures (hn : info.devId = n) (mem old : Option Bytes) :
    (ublksrvCtrlGetAffinity info mem old).Ensures (·.devId = n) Names fun _ => True := by
  cases mem with
  | none => trivial
  | some buf =>
    apply (affinityLoop_ensures hn _ _ buf).bind
    rintro ⟨ret, got⟩ -
    dsimp only
    split_ifs <;> trivial

theorem setParams_ensures (hn : info.devId = n) (host : Pool.Host) (buf params : Bytes) :
    (ublksrvCtrlSetParams info host buf params).Ensures (·.devId = n) (fun _ _ => True) fun _ => True := by
  unfold ublksrvCtrlSetParams
  split_ifs <;> exact ⟨hn, fun _ _ => trivial⟩

theorem getParams_ensures (hn : info.devId = n) (host : Pool.Host) (params : Bytes) :
    (ublksrvCtrlGetParams info host params).Ensures (·.devId = n) (fun _ _ => True) fun _ => True := by
  unfold ublksrvCtrlGetParams
  split_ifs
  · refine ⟨hn, ?_⟩
    intro r _
    change Program.Ensures _ _ _ (if 0 ≤ r.res then _ else _)
    split_ifs <;> trivial
  · exact ⟨hn, fun _ _ => trivial⟩

theorem ofCtrl_ensures {α : Type} {p : Ctrl α} {φ : α → Prop} (h : p.Ensures (·.devId = n) Names φ) :
    (ofCtrl p).Ensures (·.devId = n) SessionCmd.Names φ :=
  h.embed (fun _ hq => hq) fun _ _ hx => hx

theorem ofParams_ensures {α : Type} {p : ParamsProg α} {φ : α → Prop}
    (h : p.Ensures (·.devId = n) (fun _ _ => True) φ) : (ofParams p).Ensures (·.devId = n) SessionCmd.Names φ :=
  h.embed (fun _ hq => hq) fun _ _ _ => trivial

theorem startDaemon_ensures (hn : info.devId = n) (mem : Option Bytes) (ready : Bool) (pid : UInt64) :
    (ublksrvStartDaemon info mem ready pid).Ensures (·.devId = n) SessionCmd.Names fun _ => True := by
  apply (ofCtrl_ensures (getAffinity_ensures hn mem none)).bind
  rintro ⟨ret, cpuset⟩ -
  dsimp only
  split_ifs
  · trivial
  · exact ofCtrl_ensures (startDev_ensures hn pid)
  · trivial

theorem session_ensures (s : Session) (hs : s.Numbered) :
    s.prog.Ensures (·.devId = s.devId) SessionCmd.Names fun _ => True := by
  cases s with
  | startup info host buf params mem ready pid =>
    apply (ofCtrl_ensures (addDev_ensures rfl hs)).bind
    intro r hr
    dsimp only
    have hgot : (if 0 ≤ r.res then r.info else info).devId = info.devId := by
      split_ifs with hres
      · exact hr hres
      · rfl
    apply (ofParams_ensures (setParams_ensures hgot host buf params)).bind
    intro _ _
    exact startDaemon_ensures hgot mem ready pid
  | getDeviceInfo id host params =>
    apply (ofCtrl_ensures (getInfo_ensures (rfl : (queried id).devId = id.toUInt32))).bind
    rintro ⟨ret, got⟩ hgot
    dsimp only
    split_ifs
    · trivial
    · exact (ofParams_ensures (getParams_ensures hgot host params)).bind fun _ _ => trivial
  | cmdDevDel number =>
    apply ofCtrl_ensures
    apply (getInfo_ensures (rfl : (queried number).devId = number.toUInt32)).bind
    rintro ⟨ret, got⟩ hgot
    dsimp only
    split_ifs
    · trivial
    · apply (stopDev_ensures hgot).bind
      intro ret _
      split_ifs
      · trivial
      · exact delDev_ensures hgot

/-- A driver that keeps a state for each number, and chooses freely otherwise. -/
structure Driver (σ ε : Type) where
  serve : σ → SessionCmd → ε → σ × SessionAnswer
  names : ∀ (p : σ) (c : SessionCmd) (e : ε), c.Names (serve p c e).2

variable {ι σ ε : Type}

def Driver.shards (D : Driver σ ε) : Shards UInt32 SessionCmd SessionAnswer σ ε := ⟨SessionCmd.devId, D.serve⟩

abbrev Sessions (ι σ : Type) := Shards.State UInt32 ι σ SessionCmd SessionAnswer Int32

/-- All the sessions, none of which has sent a command. -/
def atFirst (devices : UInt32 → σ) (sessions : ι → Session) : Sessions ι σ := ⟨devices, fun i => (sessions i).prog⟩

theorem kept_atFirst (D : Driver σ ε) (devices : UInt32 → σ) {sessions : ι → Session}
    (hs : ∀ i, (sessions i).Numbered) :
    D.shards.Kept SessionCmd.Names (fun i => (sessions i).devId) (atFirst devices sessions) :=
  fun i => session_ensures (sessions i) (hs i)

variable [DecidableEq ι]

def Driver.machine (D : Driver σ ε) (devices : UInt32 → σ) (sessions : ι → Session) : Machine (Sessions ι σ) (ι × ε) :=
  D.shards.machine (atFirst devices sessions)

theorem sessions_isolated (D : Driver σ ε) (devices : UInt32 → σ) (sessions : ι → Session)
    (hs : ∀ i, (sessions i).Numbered) (as : List (ι × ε)) (s : Sessions ι σ)
    (hr : (D.machine devices sessions).run (atFirst devices sessions) as = some s) (n : UInt32) :
    ∃ t, (D.machine devices sessions).run (atFirst devices sessions)
        (as.filter fun a => (sessions a.1).devId = n) = some t ∧
      t.parts n = s.parts n ∧ (∀ i, (sessions i).devId = n → t.progs i = s.progs i) ∧
      ∀ m ≠ n, t.parts m = devices m := by
  obtain ⟨t, hrun, hsame, hothers⟩ := Shards.run_filter (kept_atFirst D devices hs) D.names hr n
  refine ⟨t, hrun, hsame.1.symm, ?_, ?_⟩
  · intro i hi
    exact (hsame.2 i hi).symm
  · intro m hm
    exact (hothers m hm).1

/-- The state of a number is whether there is a device. -/
def presence : Driver Bool Unit where
  serve present c _ :=
    match c with
    | .ctrl c =>
      let here := present || c.cmdOp.nr == .addDev
      (here && c.cmdOp.nr != .delDev, ⟨if here then 0 else enodev, ⟨1, c.devId, 0⟩, fun _ => 0⟩, ⟨0, fun _ => 0⟩)
    | .params c => (present, zeroAnswer ⟨0, 0, 0⟩, ⟨if present then 0 else enodev, c.mem⟩)
  names _ c _ := by
    cases c with
    | ctrl c => exact fun _ _ => rfl
    | params c => trivial

/-- Device 3 is deleted while device 5 is asked for. -/
def deleteAndInfo (b : Bool) : Session := if b then .cmdDevDel 3 else .getDeviceInfo 5 .little fun _ => 0

def bothThere (n : UInt32) : Bool := n == 3 || n == 5

theorem sessions_isolated_deleteAndInfo :
    ∃ s, (presence.machine bothThere deleteAndInfo).run (atFirst bothThere deleteAndInfo)
        [(true, ()), (false, ()), (true, ()), (true, ()), (false, ())] = some s ∧
      ∃ t, (presence.machine bothThere deleteAndInfo).run (atFirst bothThere deleteAndInfo)
          ([(true, ()), (false, ()), (true, ()), (true, ()), (false, ())].filter
            fun a => (deleteAndInfo a.1).devId = 3) = some t ∧
        t.parts 3 = s.parts 3 ∧ (∀ b, (deleteAndInfo b).devId = 3 → t.progs b = s.progs b) ∧
        ∀ m ≠ 3, t.parts m = bothThere m :=
  ⟨_, rfl, sessions_isolated presence bothThere deleteAndInfo (fun b => by cases b <;> trivial) _ _ rfl 3⟩

end GoUblksrv.Control
