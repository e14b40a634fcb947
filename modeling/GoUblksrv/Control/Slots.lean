import GoUblksrv.Control.Deletion
import GoUblksrv.Control.Params
import GoUblksrv.Control.Ring
import GoUblksrv.Lib.Slots
import Mathlib.Data.List.NodupEquivFin

/-!
The entries of a control ring are reused: `ublksrv_ctrl_init_cmd` writes the address and the
length of an entry with `CTRL_CMD_HAS_BUF` only, and `data[0]` and `dev_path_len` with
`CTRL_CMD_HAS_DATA` only. What the driver finds in the fields that a command leaves alone, for
all uses of a control device.
-/

namespace GoUblksrv.Control

open Deletion (queried)
open Pool (Host)

inductive SessionCmd
  | ctrl (c : CtrlCmd)
  | params (c : ParamsCmd)

abbrev SessionAnswer := Response × ParamsAnswer

abbrev SessionProg := Program SessionCmd SessionAnswer

def ofCtrl {α : Type} (p : Ctrl α) : SessionProg α := p.embed .ctrl Prod.fst

def ofParams {α : Type} (p : ParamsProg α) : SessionProg α := p.embed .params Prod.snd

/-- `ready` is whether `calloc` and `ublksrv_dev_init` succeed in `demo_null_io_handler`. -/
def ublksrvStartDaemon (info : CtrlDevInfo) (mem : Option Bytes) (ready : Bool) (pid : UInt64) : SessionProg Int32 := do
  let (ret, _) ← ofCtrl (ublksrvCtrlGetAffinity info mem none)
  if ret < 0 then pure (-1)
  else if ready then ofCtrl (ublksrvCtrlStartDev info pid) else pure enomem

/-- What the control device of a call of `Start`, `GetInfo` or `DeleteDevice` is used for. -/
inductive Session
  | startup (info : CtrlDevInfo) (host : Host) (buf params : Bytes) (mem : Option Bytes) (ready : Bool) (pid : UInt64)
  | getDeviceInfo (id : Int32) (host : Host) (params : Bytes)
  | cmdDevDel (number : Int32)

def Session.prog : Session → SessionProg Int32
  | .startup info host buf params mem ready pid => do
    let r ← ofCtrl (ublksrvCtrlAddDev info)
    -- the goroutine goes on after an error of this command and of the next one
    let info := if 0 ≤ r.res then r.info else info
    let _ ← ofParams (ublksrvCtrlSetParams info host buf params)
    ublksrvStartDaemon info mem ready pid
  | .getDeviceInfo id host params => do
    let (ret, info) ← ofCtrl (ublksrvCtrlGetInfo (queried id))
    if ret < 0 then pure ret
    else do
      let (ret, _) ← ofParams (ublksrvCtrlGetParams info host params)
      pure ret
  | .cmdDevDel number => ofCtrl (Deletion.cmdDevDel number true)

/-- The fields of an entry that are written together. -/
inductive Part
  | addr
  | data
  deriving DecidableEq, Repr

inductive Place
  | null
  | ctrl (b : Buffer)
  | params
  deriving DecidableEq, Repr

abbrev Value : Part → Type
  | .addr => Place × ℕ
  | .data => UInt64 × ℕ

def zeroes : (i : Part) → Value i
  | .addr => (.null, 0)
  | .data => (0, 0)

def SessionCmd.writes : SessionCmd → (i : Part) → Option (Value i)
  | .ctrl c, .addr => c.buf.map fun b => (.ctrl b.1, b.2)
  | .ctrl c, .data => c.data
  | .params c, .addr => some (.params, c.len)
  | .params c, .data => c.data

def SessionCmd.isStart : SessionCmd → Bool
  | .ctrl c => c.cmdOp.nr == .startDev
  | .params _ => false

/-- Later versions of `io_uring_get_sqe` clear `addr3` and the word behind it, where the address
and the length of a command are. -/
def keeps (clears : Bool) : Part → Bool
  | .addr => !clears
  | .data => true

def entries (clears : Bool) (cmds : List SessionCmd) : List ((i : Part) → Value i) :=
  Slots.sent ctrlSqEntries (keeps clears) zeroes (cmds.map SessionCmd.writes)

def leftOver (clears : Bool) (cmds : List SessionCmd) (k : ℕ) (c : SessionCmd) : Value .addr :=
  if !clears ∧ c.isStart ∧ ctrlSqEntries ≤ k then
    (cmds[k - ctrlSqEntries]?.bind fun d => d.writes .addr).getD (zeroes .addr)
  else zeroes .addr

def entryOf (clears : Bool) (cmds : List SessionCmd) (k : ℕ) (c : SessionCmd) : (i : Part) → Value i
  | .addr => (c.writes .addr).getD (leftOver clears cmds k c)
  | .data => (c.writes .data).getD (zeroes .data)

/-- Only the last command of a session may leave a field of a used entry alone. -/
def Late (cmds : List SessionCmd) : Prop :=
  ∀ (k : ℕ) (c : SessionCmd), ctrlSqEntries ≤ k → cmds[k]? = some c → (c.writes .data).isSome ∧
    ((c.writes .addr).isSome ∨
      c.isStart ∧ ∀ j < k, ∀ d : SessionCmd, cmds[j]? = some d → (d.writes .addr).isSome)

variable {clears : Bool} {cmds cmds' front mid last : List SessionCmd} {info : CtrlDevInfo}
  {ans : CtrlCmd → Response} {k : ℕ} {c : SessionCmd}

theorem late_of_length (h : cmds.length ≤ ctrlSqEntries) : Late cmds := by
  intro k c hk hc
  have hlt := (List.getElem?_eq_some_iff.mp hc).1
  omega

theorem Late.sublist (h : Late cmds) (hsub : cmds'.Sublist cmds) : Late cmds' := by
  obtain ⟨f, hf⟩ := List.sublist_iff_exists_orderEmbedding_getElem?_eq.mp hsub
  intro k c hk hc
  rw [hf] at hc
  obtain ⟨hdata, haddr⟩ := h (f k) c (hk.trans f.strictMono.le_apply) hc
  refine ⟨hdata, haddr.imp_right fun hstart => ⟨hstart.1, ?_⟩⟩
  intro j hj d hd
  rw [hf] at hd
  exact hstart.2 (f j) (f.strictMono hj) d hd

theorem late_append (hfront : front.length ≤ ctrlSqEntries) (hlast : last.length ≤ 1)
    (haddr : ∀ c ∈ front ++ mid, (c.writes .addr).isSome) (hdata : ∀ c ∈ mid ++ last, (c.writes .data).isSome)
    (hstart : ∀ c ∈ last, c.isStart) : Late (front ++ mid ++ last) := by
  intro k c hk hc
  have hc' := hc
  rw [List.append_assoc, List.getElem?_append_right (hfront.trans hk)] at hc'
  refine ⟨hdata c (List.mem_of_getElem? hc'), ?_⟩
  by_cases hend : k < (front ++ mid).length
  · rw [List.getElem?_append_left hend] at hc
    exact .inl (haddr c (List.mem_of_getElem? hc))
  · rw [List.getElem?_append_right (by omega)] at hc
    have hlt := (List.getElem?_eq_some_iff.mp hc).1
    refine .inr ⟨hstart c (List.mem_of_getElem? hc), ?_⟩
    intro j hj d hd
    rw [List.getElem?_append_left (by omega)] at hd
    exact haddr d (List.mem_of_getElem? hd)

theorem fill_of_isSome {keeps : Part → Bool} {r : (i : Part) → Value i} {w : (i : Part) → Option (Value i)} {i : Part}
    {v : Value i} (h : (w i).isSome) : Slots.fill keeps zeroes r w i = (w i).getD v := by
  obtain ⟨x, hx⟩ := Option.isSome_iff_exists.mp h
  rw [Slots.fill, hx, Option.getD_some, Option.getD_some]

theorem entries_get (hc : cmds[k]? = some c) : (entries clears cmds)[k]? =
    some (Slots.fill (keeps clears) zeroes (Slots.before ctrlSqEntries zeroes (entries clears cmds) k) c.writes) := by
  apply Slots.sent_get (by decide)
  rw [List.getElem?_map, hc]
  rfl

theorem entryOf_eq (h : Late cmds) (hc : cmds[k]? = some c) :
    Slots.fill (keeps clears) zeroes (Slots.before ctrlSqEntries zeroes (entries clears cmds) k) c.writes =
      entryOf clears cmds k c := by
  funext i
  by_cases hw : (c.writes i).isSome
  · cases i <;> exact fill_of_isSome hw
  · rw [Option.not_isSome_iff_eq_none] at hw
    by_cases hk : ctrlSqEntries ≤ k
    · obtain ⟨hdata, haddr⟩ := h k c hk hc
      cases i with
      | data =>
        rw [hw] at hdata
        cases hdata
      | addr =>
        rw [hw] at haddr
        obtain ⟨hstart, hearlier⟩ := haddr.resolve_left (by simp)
        have hlt := (List.getElem?_eq_some_iff.mp hc).1
        -- the command that used the entry before wrote its address
        obtain ⟨d, hd⟩ : ∃ d, cmds[k - ctrlSqEntries]? = some d :=
          ⟨_, List.getElem?_eq_getElem (by omega)⟩
        have hwrites := hearlier _ (Nat.sub_lt_of_pos_le (by decide) hk) d hd
        have hbefore : Slots.before ctrlSqEntries zeroes (entries clears cmds) k .addr =
            (d.writes .addr).getD (zeroes .addr) := by
          rw [Slots.before, if_pos hk, entries_get hd, Option.getD_some, fill_of_isSome hwrites]
        rw [Slots.fill, entryOf, hw, Option.getD_none, Option.getD_none, hbefore, leftOver, hd]
        cases clears with
        | false => simp [keeps, hstart, hk]
        | true => simp [keeps]
    · have hbefore : Slots.before ctrlSqEntries zeroes (entries clears cmds) k = zeroes := if_neg hk
      rw [Slots.fill, hw, hbefore, ite_self, Option.getD_none]
      cases i with
      | addr =>
        rw [entryOf, hw, leftOver, if_neg (fun hc => hk hc.2.2), Option.getD_none]
      | data => rw [entryOf, hw, Option.getD_none]

theorem entries_eq (h : Late cmds) : entries clears cmds = cmds.mapIdx (entryOf clears cmds) := by
  apply List.ext_getElem?
  intro k
  rw [List.getElem?_mapIdx]
  cases hc : cmds[k]? with
  | none =>
    have hlen : (entries clears cmds).length = cmds.length := by
      rw [entries, Slots.sent_length (by decide), List.length_map]
    rw [List.getElem?_eq_none_iff] at hc
    rw [Option.map_none, List.getElem?_eq_none_iff, hlen]
    exact hc
  | some c => rw [entries_get hc, entryOf_eq h hc, Option.map_some]

theorem affinityLoop_writes {n i : ℕ} {buf : Bytes} {q : CtrlCmd} (hq : q ∈ (affinityLoop info n i buf).trace ans)
    (p : Part) : ((SessionCmd.ctrl q).writes p).isSome := by
  induction n generalizing i buf with
  | zero => cases hq
  | succ n ih =>
    rw [affinityLoop, Program.trace_ask] at hq
    rcases List.mem_cons.mp hq with rfl | hq
    · cases p <;> rfl
    · split_ifs at hq
      · cases hq
      · exact ih hq

theorem getAffinity_writes {mem old : Option Bytes} {q : CtrlCmd}
    (hq : q ∈ (ublksrvCtrlGetAffinity info mem old).trace ans) (p : Part) :
    ((SessionCmd.ctrl q).writes p).isSome := by
  cases mem with
  | none => cases hq
  | some buf =>
    simp only [ublksrvCtrlGetAffinity, Program.trace_bind, List.mem_append] at hq
    rcases hq with hq | hq
    · exact affinityLoop_writes hq p
    · split_ifs at hq <;> cases hq

theorem addDev_writes {q : CtrlCmd} (hq : q ∈ (ublksrvCtrlAddDev info).trace ans) :
    ((SessionCmd.ctrl q).writes .addr).isSome := by
  simp only [ublksrvCtrlAddDev, addDevNoTrans, Program.trace_bind, ctrlCmd_trace, List.mem_append,
    List.mem_singleton] at hq
  rcases hq with rfl | hq
  · rfl
  · split_ifs at hq
    · obtain rfl := List.mem_singleton.mp hq
      rfl
    · cases hq

theorem addDev_length : ((ublksrvCtrlAddDev info).trace ans).length ≤ 2 := by
  apply Program.trace_bind_length (m := 1) (n := 1) le_rfl
  intro r
  split_ifs
  · exact le_rfl
  · exact Nat.zero_le 1

theorem setParams_trace (info : CtrlDevInfo) (host : Host) (buf params : Bytes) (ans : ParamsCmd → ParamsAnswer) :
    ∃ q, (ublksrvCtrlSetParams info host buf params).trace ans = [q] := by
  unfold ublksrvCtrlSetParams
  split_ifs <;> exact ⟨_, rfl⟩

theorem getParams_trace (info : CtrlDevInfo) (host : Host) (params : Bytes) (ans : ParamsCmd → ParamsAnswer) :
    ∃ q, (ublksrvCtrlGetParams info host params).trace ans = [q] := by
  unfold ublksrvCtrlGetParams
  split_ifs with hu
  · refine ⟨paramsCmd info .getParams (behindPath info (fun _ => 0) (setLen host params)), ?_⟩
    simp only [paramsCall, Program.trace_bind, Program.trace_ask, Program.trace_done]
    split_ifs <;> rfl
  · exact ⟨_, rfl⟩

theorem startDev_trace (info : CtrlDevInfo) (pid : UInt64) (ans : CtrlCmd → Response) :
    ∃ q, (ublksrvCtrlStartDev info pid).trace ans = [q] ∧ (SessionCmd.ctrl q).isStart = true ∧
      ((SessionCmd.ctrl q).writes .data).isSome := by
  refine ⟨_, rfl, ?_, ?_⟩
  · rw [SessionCmd.isStart, ublksrvCtrlInitCmd_nr, unPrivilegedPrepData_cmdOp]
    rfl
  · unfold unPrivilegedPrepData
    split_ifs <;> rfl

theorem getInfoNoTrans_length (op : CmdOp) : ((ublksrvCtrlGetInfoNoTrans info op).trace ans).length ≤ 1 := by
  unfold ublksrvCtrlGetInfoNoTrans
  split_ifs
  · exact Nat.zero_le 1
  · exact le_rfl
  · exact le_rfl

theorem getInfoOp_length (nr : CmdNr) : ((getInfoOp info nr).trace ans).length ≤ 2 := by
  apply Program.trace_bind_length (n := 1) (getInfoNoTrans_length _)
  rintro ⟨ret, info⟩
  dsimp only
  split_ifs
  · exact getInfoNoTrans_length _
  · exact Nat.zero_le 1

theorem getInfo_length : ((ublksrvCtrlGetInfo info).trace ans).length ≤ 4 := by
  apply Program.trace_bind_length (n := 2) (getInfoOp_length _)
  rintro ⟨ret, info⟩
  dsimp only
  split_ifs
  · exact Nat.zero_le 2
  · exact getInfoOp_length _
  · exact Nat.zero_le 2

theorem cmdDevDel_length (number : Int32) : ((Deletion.cmdDevDel number true).trace ans).length ≤ 6 := by
  apply Program.trace_bind_length (n := 2) getInfo_length
  rintro ⟨ret, info⟩
  dsimp only
  split_ifs
  · exact Nat.zero_le 2
  · apply Program.trace_bind_length (m := 1) (n := 1) le_rfl
    intro ret
    split_ifs
    · exact Nat.zero_le 1
    · exact le_rfl

theorem startDaemon_trace (info : CtrlDevInfo) (mem : Option Bytes) (ready : Bool) (pid : UInt64)
    (ans : SessionCmd → SessionAnswer) :
    ∃ mid last : List SessionCmd, (ublksrvStartDaemon info mem ready pid).trace ans = mid ++ last ∧ last.length ≤ 1 ∧
      (∀ c ∈ mid, ∀ p, (c.writes p).isSome) ∧ ∀ c ∈ last, c.isStart = true ∧ (c.writes .data).isSome := by
  have hmid : ∀ c ∈ (ofCtrl (ublksrvCtrlGetAffinity info mem none)).trace ans, ∀ p, (c.writes p).isSome := by
    intro c hc p
    rw [ofCtrl, Program.trace_embed] at hc
    obtain ⟨q, hq, rfl⟩ := List.mem_map.mp hc
    exact getAffinity_writes hq p
  have hnone : ∀ c ∈ ([] : List SessionCmd), c.isStart = true ∧ (c.writes .data).isSome := by
    intro c hc
    cases hc
  simp only [ublksrvStartDaemon, Program.trace_bind]
  split_ifs
  · exact ⟨_, _, rfl, Nat.zero_le 1, hmid, hnone⟩
  · obtain ⟨q, hq, hstart, hdata⟩ := startDev_trace info pid fun q => (ans (.ctrl q)).1
    refine ⟨_, [.ctrl q], ?_, le_rfl, hmid, ?_⟩
    · rw [ofCtrl, ofCtrl, Program.trace_embed _ _ _ (ublksrvCtrlStartDev info pid), hq]
      rfl
    · intro c hc
      obtain rfl := List.mem_singleton.mp hc
      exact ⟨hstart, hdata⟩
  · exact ⟨_, _, rfl, Nat.zero_le 1, hmid, hnone⟩

theorem late_startup (info : CtrlDevInfo) (host : Host) (buf params : Bytes) (mem : Option Bytes) (ready : Bool)
    (pid : UInt64) (ans : SessionCmd → SessionAnswer) :
    Late ((Session.startup info host buf params mem ready pid).prog.trace ans) := by
  obtain ⟨info', htrace⟩ : ∃ info', (Session.startup info host buf params mem ready pid).prog.trace ans =
      (ofCtrl (ublksrvCtrlAddDev info)).trace ans ++
        ((ofParams (ublksrvCtrlSetParams info' host buf params)).trace ans ++
          (ublksrvStartDaemon info' mem ready pid).trace ans) := by
    simp only [Session.prog, Program.trace_bind]
    exact ⟨_, rfl⟩
  obtain ⟨mid, last, hdaemon, hlast, hmid, hstart⟩ := startDaemon_trace info' mem ready pid ans
  obtain ⟨q, hq⟩ := setParams_trace info' host buf params fun q => (ans (.params q)).2
  rw [htrace, hdaemon, ofCtrl, ofParams, Program.trace_embed, Program.trace_embed, hq, ← List.append_assoc,
    ← List.append_assoc]
  have hfront : ∀ c ∈ ((ublksrvCtrlAddDev info).trace fun q => (ans (.ctrl q)).1).map SessionCmd.ctrl ++
      [q].map SessionCmd.params, (c.writes .addr).isSome := by
    intro c hc
    rcases List.mem_append.mp hc with hc | hc
    · obtain ⟨r, hr, rfl⟩ := List.mem_map.mp hc
      exact addDev_writes hr
    · obtain rfl := List.mem_singleton.mp hc
      rfl
  apply late_append
  · rw [List.length_append, List.length_map, List.length_map]
    exact (Nat.add_le_add_right addDev_length 1).trans (by decide)
  · exact hlast
  · intro c hc
    rcases List.mem_append.mp hc with hc | hc
    · exact hfront c hc
    · exact hmid c hc .addr
  · intro c hc
    rcases List.mem_append.mp hc with hc | hc
    · exact hmid c hc .data
    · exact (hstart c hc).2
  · exact fun c hc => (hstart c hc).1

theorem late_session (s : Session) (ans : SessionCmd → SessionAnswer) : Late (s.prog.trace ans) := by
  cases s with
  | startup info host buf params mem ready pid => exact late_startup info host buf params mem ready pid ans
  | getDeviceInfo id host params =>
    apply late_of_length
    have hlen : ((Session.getDeviceInfo id host params).prog.trace ans).length ≤ 4 + 1 := by
      apply Program.trace_bind_length
      · rw [ofCtrl, Program.trace_embed, List.length_map]
        exact getInfo_length
      · rintro ⟨ret, info⟩
        dsimp only
        split_ifs
        · exact Nat.zero_le 1
        · apply Program.trace_bind_length (m := 1) (n := 0)
          · rw [ofParams, Program.trace_embed, List.length_map]
            obtain ⟨q, hq⟩ := getParams_trace info host params fun q => (ans (.params q)).2
            rw [hq]
            exact le_rfl
          · intro r
            exact le_rfl
    exact hlen.trans (by decide)
  | cmdDevDel number =>
    apply late_of_length
    rw [Session.prog, ofCtrl, Program.trace_embed, List.length_map]
    exact (cmdDevDel_length number).trans (by decide)

theorem no_stale_field (clears : Bool) (s : Session) (ans : SessionCmd → SessionAnswer) (cmds : List SessionCmd)
    (h : cmds.Sublist (s.prog.trace ans)) : entries clears cmds = cmds.mapIdx (entryOf clears cmds) :=
  entries_eq ((late_session s ans).sublist h)

/-- A device of 33 queues, whose commands all succeed. -/
def manyQueues : SessionCmd → SessionAnswer := fun _ => (zeroAnswer ⟨33, 0, 0⟩, ⟨0, fun _ => 0⟩)

def manyQueuesStartup : Session :=
  .startup ⟨33, 0, 0⟩ .little (fun _ => 0) (fun _ => 0) (some fun _ => 0) true 1

theorem no_stale_field_manyQueues :
    let cmds := manyQueuesStartup.prog.trace manyQueues
    entries false cmds = cmds.mapIdx (entryOf false cmds) :=
  no_stale_field false manyQueuesStartup manyQueues _ (List.Sublist.refl _)

example : ((entries false (manyQueuesStartup.prog.trace manyQueues))[35]?).map (· .addr) =
    some (.ctrl (.cpuset 128), 128) := by rfl

end GoUblksrv.Control
