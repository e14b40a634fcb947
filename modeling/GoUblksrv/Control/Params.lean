import GoUblksrv.Control.Affinity
import GoUblksrv.Lib.Layout
import GoUblksrv.Pool.Ranges

namespace GoUblksrv.Control

open Pool (Host)

abbrev sizeofParams : ℕ := 112

inductive ParamsOp
  | setParams
  | getParams
  deriving DecidableEq, Repr

/-- A command with what its buffer holds; `data` is there with `CTRL_CMD_HAS_DATA`. -/
structure ParamsCmd where
  op : ParamsOp
  ioctl : Bool
  devId : UInt32
  data : Option (UInt64 × ℕ)
  len : ℕ
  mem : Bytes

structure ParamsAnswer where
  res : Int32
  mem : Bytes

abbrev ParamsProg := Program ParamsCmd ParamsAnswer

def isBig (host : Host) : Bool := host == .big

/-- The fields of `struct ublk_params` that `init_params` sets; the rest is zero. -/
def paramsFields (p : Pool.Params) : List Layout.Field :=
  [⟨0, 4, p.len.toNat⟩,
    ⟨4, 4, p.types.toNat⟩,
    ⟨8, 4, p.basic.attrs.toNat⟩,
    ⟨12, 1, p.basic.logicalBsShift.toNat⟩,
    ⟨13, 1, p.basic.physicalBsShift.toNat⟩,
    ⟨14, 1, p.basic.ioOptShift.toNat⟩,
    ⟨15, 1, p.basic.ioMinShift.toNat⟩,
    ⟨16, 4, p.basic.maxSectors.toNat⟩,
    ⟨24, 8, p.basic.devSectors.toNat⟩,
    ⟨44, 4, p.discard.discardGranularity.toNat⟩,
    ⟨48, 4, p.discard.maxDiscardSectors.toNat⟩,
    ⟨56, 2, p.discard.maxDiscardSegments.toNat⟩]

def encodeParams (host : Host) (p : Pool.Params) : Bytes :=
  Layout.render (isBig host) (paramsFields p) fun _ => 0

def decodeParams (host : Host) (m : Bytes) : Pool.Params where
  len := .ofNat (Layout.read (isBig host) 0 4 m)
  types := .ofNat (Layout.read (isBig host) 4 4 m)
  basic :=
    { attrs := .ofNat (Layout.read (isBig host) 8 4 m)
      logicalBsShift := .ofNat (Layout.read (isBig host) 12 1 m)
      physicalBsShift := .ofNat (Layout.read (isBig host) 13 1 m)
      ioOptShift := .ofNat (Layout.read (isBig host) 14 1 m)
      ioMinShift := .ofNat (Layout.read (isBig host) 15 1 m)
      maxSectors := .ofNat (Layout.read (isBig host) 16 4 m)
      devSectors := .ofNat (Layout.read (isBig host) 24 8 m) }
  discard :=
    { discardGranularity := .ofNat (Layout.read (isBig host) 44 4 m)
      maxDiscardSectors := .ofNat (Layout.read (isBig host) 48 4 m)
      maxDiscardSegments := .ofNat (Layout.read (isBig host) 56 2 m) }

/-- `params->len = sizeof(*params)`, the first field of the struct. -/
def setLen (host : Host) (params : Bytes) : Bytes := Layout.put (isBig host) ⟨0, 4, sizeofParams⟩ params

variable (info : CtrlDevInfo)

/-- `snprintf` of the path into `buf` and `memcpy` of the parameters behind it. -/
def behindPath (buf params : Bytes) : Bytes :=
  store (store buf 0 (devPath info).length fun j => (devPath info).getD j 0) ublkcPathMax sizeofParams params

def paramsCmd (op : ParamsOp) (mem : Bytes) : ParamsCmd where
  op := op
  ioctl := info.flags &&& ublkFCmdIoctlEncode != 0
  devId := info.devId
  data := if ublkIsUnprivileged info then some (0, ublkcPathMax) else none
  len := if ublkIsUnprivileged info then ublkcPathMax + sizeofParams else sizeofParams
  mem := mem

def paramsCall (c : ParamsCmd) : ParamsProg ParamsAnswer := .ask c .done

/-- The result and `*params` after it; `buf` is what the stack holds. -/
def ublksrvCtrlSetParams (host : Host) (buf params : Bytes) : ParamsProg (Int32 × Bytes) :=
  let params := setLen host params
  if ublkIsUnprivileged info then do
    let r ← paramsCall (paramsCmd info .setParams (behindPath info buf params))
    pure (r.res, params)
  else do
    let r ← paramsCall (paramsCmd info .setParams params)
    pure (r.res, r.mem)

def ublksrvCtrlGetParams (host : Host) (params : Bytes) : ParamsProg (Int32 × Bytes) :=
  let params := setLen host params
  if ublkIsUnprivileged info then do
    let r ← paramsCall (paramsCmd info .getParams (behindPath info (fun _ => 0) params))
    if 0 ≤ r.res then pure (r.res, store params 0 sizeofParams fun j => r.mem (ublkcPathMax + j))
    else pure (r.res, params)
  else do
    let r ← paramsCall (paramsCmd info .getParams params)
    pure (r.res, r.mem)

/-- Where the parameters are in the buffer: behind `dev_path_len` bytes. -/
def ParamsCmd.paramsAt (c : ParamsCmd) : ℕ := c.data.elim 0 Prod.snd

/-- The byte belongs to `basic` or to `discard`: `devt` cannot be set, and `len` and `types` the
driver may change. -/
def Settable (j : ℕ) : Prop := 8 ≤ j ∧ j < 60

/-- A driver in any state, that answers at its own choice. -/
abbrev ParamsDriver (δ β : Type) := δ → ParamsCmd → β → δ × ParamsAnswer

variable {δ β : Type}

/-- The buffer is laid out as the device has it, and `len` covers the whole struct. -/
structure ParamsCmd.Placed (host : Host) (unprivileged : UInt32 → Bool) (c : ParamsCmd) : Prop where
  path : c.data.isSome = unprivileged c.devId
  len : Layout.read (isBig host) c.paramsAt 4 c.mem = sizeofParams
  room : c.paramsAt + sizeofParams ≤ c.len

/-- All that is relied on: an accepted SET_PARAMS leaves the device with the parameters of the buffer,
an accepted GET_PARAMS returns those it has, and nothing else changes them. -/
structure ParamsDriver.Keeps (V : ParamsDriver δ β) (host : Host) (unprivileged : UInt32 → Bool)
    (held : δ → UInt32 → Bytes) : Prop where
  set : ∀ d c b, c.op = .setParams → c.Placed host unprivileged → 0 ≤ (V d c b).2.res →
    ∀ j, Settable j → held (V d c b).1 c.devId j = c.mem (c.paramsAt + j)
  get : ∀ d c b, c.op = .getParams → c.Placed host unprivileged → 0 ≤ (V d c b).2.res →
    ∀ j, Settable j → (V d c b).2.mem (c.paramsAt + j) = held d c.devId j
  other : ∀ d c b n, (c.op = .setParams → c.devId ≠ n) →
    ∀ j, Settable j → held (V d c b).1 n j = held d n j

inductive ParamsUse
  | set (info : CtrlDevInfo) (buf params : Bytes)
  | get (info : CtrlDevInfo) (params : Bytes)

def ParamsUse.prog (host : Host) : ParamsUse → ParamsProg (Int32 × Bytes)
  | .set info buf params => ublksrvCtrlSetParams info host buf params
  | .get info params => ublksrvCtrlGetParams info host params

def ParamsUse.sets : ParamsUse → Option UInt32
  | .set info _ _ => some info.devId
  | .get _ _ => none

def perform (V : ParamsDriver δ β) (host : Host) (d : δ) (u : ParamsUse) (b : β) :
    Option (δ × (Int32 × Bytes) × List β) :=
  (u.prog host).exec (fun d c b => some (V d c b)) d [b]

def paramsMachine (V : ParamsDriver δ β) (host : Host) (d : δ) : Machine δ (ParamsUse × β) where
  init s := s = d
  step s a := (perform V host s a.1 a.2).map Prod.fst

variable {info info' : CtrlDevInfo} {host : Host} {buf params params' : Bytes} {V : ParamsDriver δ β} {d d' : δ}
  {b : β} {unprivileged : UInt32 → Bool} {held : δ → UInt32 → Bytes} {op : ParamsOp} {n : UInt32}

def sent (info : CtrlDevInfo) (buf params : Bytes) : Bytes :=
  if ublkIsUnprivileged info then behindPath info buf params else params

theorem sent_params {j : ℕ} (hj : j < sizeofParams) : sent info buf params (pathLen info + j) = params j := by
  unfold sent pathLen
  split_ifs
  · exact store_inside _ _ _ _ hj
  · rw [Nat.zero_add]

theorem paramsCmd_len : (paramsCmd info op mem).len = pathLen info + sizeofParams := by
  unfold paramsCmd pathLen
  split_ifs
  · rfl
  · rw [Nat.zero_add]

theorem paramsCmd_at (mem : Bytes) : (paramsCmd info op mem).paramsAt = pathLen info := by
  unfold ParamsCmd.paramsAt paramsCmd pathLen
  split_ifs <;> rfl

theorem readLen_sent :
    Layout.read (isBig host) (pathLen info) 4 (sent info buf (setLen host params)) = sizeofParams := by
  have hsame : Layout.read (isBig host) (pathLen info) 4 (sent info buf (setLen host params)) =
      Layout.read (isBig host) 0 4 (setLen host params) := by
    apply Layout.number_congr
    intro j hj
    rw [sent_params (hj.trans (by decide)), Nat.zero_add]
  rw [hsame]
  exact Layout.read_put (isBig host) ⟨0, 4, sizeofParams⟩ params

theorem placed_sent (hk : ublkIsUnprivileged info = unprivileged info.devId) :
    (paramsCmd info op (sent info buf (setLen host params))).Placed host unprivileged where
  path := by
    rw [show (paramsCmd info op (sent info buf (setLen host params))).devId = info.devId from rfl, ← hk,
      paramsCmd]
    split_ifs with hu
    · exact hu.symm
    · exact (Bool.eq_false_iff.mpr hu).symm
  len := by
    rw [paramsCmd_at]
    exact readLen_sent
  room := by rw [paramsCmd_len, paramsCmd_at]

def ParamsUse.cmd (host : Host) : ParamsUse → ParamsCmd
  | .set info buf params => paramsCmd info .setParams (sent info buf (setLen host params))
  | .get info params => paramsCmd info .getParams (sent info (fun _ => 0) (setLen host params))

def received (info : CtrlDevInfo) (r : ParamsAnswer) (params : Bytes) : Bytes :=
  if ublkIsUnprivileged info then
    if 0 ≤ r.res then store params 0 sizeofParams fun j => r.mem (ublkcPathMax + j) else params
  else r.mem

theorem perform_set : ∃ left, perform V host d (.set info buf params) b =
    let r := V d ((ParamsUse.set info buf params).cmd host) b
    some (r.1, (r.2.res, left), []) := by
  by_cases hu : ublkIsUnprivileged info = true
  · refine ⟨setLen host params, ?_⟩
    simp only [perform, ParamsUse.prog, ublksrvCtrlSetParams, ParamsUse.cmd, sent, if_pos hu]
    rfl
  · refine ⟨(V d ((ParamsUse.set info buf params).cmd host) b).2.mem, ?_⟩
    simp only [perform, ParamsUse.prog, ublksrvCtrlSetParams, ParamsUse.cmd, sent, if_neg hu]
    rfl

theorem exec_call (c : ParamsCmd) (g : ParamsAnswer → ParamsProg (Int32 × Bytes)) :
    (paramsCall c >>= g).exec (fun d c b => some (V d c b)) d [b] =
      (g (V d c b).2).exec (fun d c b => some (V d c b)) (V d c b).1 [] := rfl

theorem perform_get : perform V host d (.get info params) b =
    let r := V d ((ParamsUse.get info params).cmd host) b
    some (r.1, (r.2.res, received info r.2 (setLen host params)), []) := by
  by_cases hu : ublkIsUnprivileged info = true
  · simp only [perform, ParamsUse.prog, ublksrvCtrlGetParams, ParamsUse.cmd, sent, received, if_pos hu,
      exec_call]
    split_ifs <;> rfl
  · simp only [perform, ParamsUse.prog, ublksrvCtrlGetParams, ParamsUse.cmd, sent, received, if_neg hu]
    rfl

theorem perform_cmd (V : ParamsDriver δ β) (host : Host) (d : δ) (u : ParamsUse) (b : β) :
    ∃ got, perform V host d u b = some ((V d (u.cmd host) b).1, ((V d (u.cmd host) b).2.res, got), []) := by
  cases u with
  | set info buf params => exact perform_set
  | get info params => exact ⟨_, perform_get⟩

theorem received_eq {r : ParamsAnswer} (hr : 0 ≤ r.res) {j : ℕ} (hj : j < sizeofParams) :
    received info r params j = r.mem (pathLen info + j) := by
  unfold received pathLen
  split_ifs
  · have h := store_inside params 0 sizeofParams (fun j => r.mem (ublkcPathMax + j)) hj
    rw [Nat.zero_add] at h
    exact h
  · rw [Nat.zero_add]

theorem cmd_other {u : ParamsUse} (hu : u.sets ≠ some n) :
    (u.cmd host).op = .setParams → (u.cmd host).devId ≠ n := by
  intro hop hdev
  cases u with
  | set info buf params => exact hu (congrArg some hdev)
  | get info params => cases hop

theorem ParamsDriver.Keeps.run (hV : V.Keeps host unprivileged held) {ops : List (ParamsUse × β)}
    (h : ∀ o ∈ ops, o.1.sets ≠ some n) (d₀ : δ) (hrun : (paramsMachine V host d₀).run d ops = some d') :
    ∀ j, Settable j → held d' n j = held d n j := by
  induction ops generalizing d with
  | nil =>
    cases hrun
    exact fun _ _ => rfl
  | cons o ops ih =>
    obtain ⟨got, hgot⟩ := perform_cmd V host d o.1 o.2
    have hstep : (paramsMachine V host d₀).step d o = some (V d (o.1.cmd host) o.2).1 := by
      change (perform V host d o.1 o.2).map Prod.fst = _
      rw [hgot, Option.map_some]
    rw [Machine.run_cons, hstep, Option.bind_some] at hrun
    intro j hj
    rw [ih (fun o ho => h o (List.mem_cons_of_mem _ ho)) hrun j hj]
    exact hV.other d _ _ n (cmd_other (h o List.mem_cons_self)) j hj

theorem settable_lt {j : ℕ} (hj : Settable j) : j < sizeofParams := hj.2.trans (by decide)

theorem ParamsDriver.Keeps.set_held (hV : V.Keeps host unprivileged held)
    (hk : ublkIsUnprivileged info = unprivileged info.devId) {r : Int32 × Bytes}
    (hset : perform V host d (.set info buf params) b = some (d', r, [])) (hr : 0 ≤ r.1) :
    ∀ j, Settable j → held d' info.devId j = setLen host params j := by
  obtain ⟨left, heq⟩ : ∃ left, perform V host d (.set info buf params) b = _ := perform_set
  cases heq.symm.trans hset
  intro j hj
  have hheld := hV.set d ((ParamsUse.set info buf params).cmd host) b rfl (placed_sent hk) hr j hj
  refine hheld.trans ?_
  rw [ParamsUse.cmd, paramsCmd_at]
  exact sent_params (settable_lt hj)

theorem ParamsDriver.Keeps.get_held (hV : V.Keeps host unprivileged held)
    (hk : ublkIsUnprivileged info = unprivileged info.devId) {r : Int32 × Bytes}
    (hget : perform V host d (.get info params) b = some (d', r, [])) (hr : 0 ≤ r.1) :
    ∀ j, Settable j → r.2 j = held d info.devId j := by
  have heq : perform V host d (.get info params) b = _ := perform_get
  cases heq.symm.trans hget
  intro j hj
  have hheld := hV.get d ((ParamsUse.get info params).cmd host) b rfl (placed_sent hk) hr j hj
  rw [ParamsUse.cmd, paramsCmd_at] at hheld
  exact (received_eq hr (settable_lt hj)).trans hheld

theorem paramsFields_apart (p : Pool.Params) : (paramsFields p).Pairwise Layout.Field.Apart := by
  simp [paramsFields, Layout.Field.Apart]

theorem paramsFields_settable {p : Pool.Params} {f : Layout.Field} (hf : f ∈ (paramsFields p).drop 2) :
    8 ≤ f.offset ∧ f.offset + f.size ≤ 60 := by
  revert f
  simp [paramsFields]

theorem ofNat_mod8 (x : UInt8) : UInt8.ofNat (x.toNat % 256 ^ 1) = x := by
  have hx : x.toNat < 256 ^ 1 := x.toNat_lt
  rw [Nat.mod_eq_of_lt hx, UInt8.ofNat_toNat]

theorem ofNat_mod16 (x : UInt16) : UInt16.ofNat (x.toNat % 256 ^ 2) = x := by
  have hx : x.toNat < 256 ^ 2 := x.toNat_lt
  rw [Nat.mod_eq_of_lt hx, UInt16.ofNat_toNat]

theorem ofNat_mod32 (x : UInt32) : UInt32.ofNat (x.toNat % 256 ^ 4) = x := by
  have hx : x.toNat < 256 ^ 4 := x.toNat_lt
  rw [Nat.mod_eq_of_lt hx, UInt32.ofNat_toNat]

theorem ofNat_mod64 (x : UInt64) : UInt64.ofNat (x.toNat % 256 ^ 8) = x := by
  have hx : x.toNat < 256 ^ 8 := x.toNat_lt
  rw [Nat.mod_eq_of_lt hx, UInt64.ofNat_toNat]

theorem decodeParams_eq {p : Pool.Params} {m : Bytes}
    (hm : ∀ j, Settable j → m j = setLen host (encodeParams host p) j) :
    (decodeParams host m).basic = p.basic ∧ (decodeParams host m).discard = p.discard := by
  have hfield : ∀ f ∈ (paramsFields p).drop 2,
      Layout.read (isBig host) f.offset f.size m = f.value % 256 ^ f.size := by
    intro f hf
    obtain ⟨hlow, hhigh⟩ := paramsFields_settable hf
    have hsame : Layout.read (isBig host) f.offset f.size m =
        Layout.read (isBig host) f.offset f.size (setLen host (encodeParams host p)) := by
      apply Layout.read_congr
      intro j hj
      exact hm _ ⟨by omega, by omega⟩
    have hapart : Layout.Field.Apart ⟨0, 4, sizeofParams⟩ f := .inl (by simp only; omega)
    rw [hsame, setLen, Layout.read_put_apart hapart, encodeParams,
      Layout.read_render (paramsFields_apart p) (List.mem_of_mem_drop hf)]
  simp only [paramsFields, List.drop_succ_cons, List.drop_zero, List.forall_mem_cons, List.not_mem_nil] at hfield
  obtain ⟨h₁, h₂, h₃, h₄, h₅, h₆, h₇, h₈, h₉, h₁₀, -⟩ := hfield
  constructor
  · simp only [decodeParams, h₁, h₂, h₃, h₄, h₅, h₆, h₇, ofNat_mod8, ofNat_mod32, ofNat_mod64]
  · simp only [decodeParams, h₈, h₉, h₁₀, ofNat_mod16, ofNat_mod32]

/-- A driver that keeps the struct of each device and adds `UBLK_PARAM_TYPE_DEVT` to the `types` it returns. -/
def recorder : ParamsDriver (UInt32 → Bytes) Bool := fun d c refuse =>
  if refuse then (d, ⟨einval, c.mem⟩)
  else
    match c.op with
    | .setParams => (Function.update d c.devId fun j => c.mem (c.paramsAt + j), ⟨0, c.mem⟩)
    | .getParams =>
      (d, ⟨0, store c.mem c.paramsAt sizeofParams fun j => if j = 4 then d c.devId j ||| 4 else d c.devId j⟩)

theorem recorder_keeps (unprivileged : UInt32 → Bool) : recorder.Keeps .little unprivileged id where
  set d c refuse hop _ hr j _ := by
    cases refuse with
    | true => exact absurd (show (0 : Int32) ≤ einval from hr) (by decide)
    | false => simp [recorder, hop]
  get d c refuse hop _ hr j hj := by
    cases refuse with
    | true => exact absurd (show (0 : Int32) ≤ einval from hr) (by decide)
    | false =>
      have hne : j ≠ 4 := by have := hj.1; omega
      simp [recorder, hop, store_inside _ _ _ _ (settable_lt hj), hne]
  other d c refuse n hc j _ := by
    cases refuse with
    | true => rfl
    | false =>
      cases hop : c.op with
      | setParams => simp [recorder, hop, Function.update_of_ne (hc hop).symm]
      | getParams => simp [recorder, hop]

def session (n : UInt32) (unprivileged : Bool) : CtrlDevInfo :=
  ⟨1, n, if unprivileged then ublkFUnprivilegedDev else 0⟩

/-- The other device is set meanwhile, and device 7, an unprivileged one, is asked for. -/
def meanwhile : List (ParamsUse × Bool) :=
  [(.set (session 0 false) (fun _ => 1) (fun _ => 2), false), (.set (session 0 false) (fun _ => 3) (fun _ => 4), true),
    (.get (session 7 true) (fun _ => 5), false)]

end GoUblksrv.Control
