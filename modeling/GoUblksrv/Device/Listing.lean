import GoUblksrv.Device.Geometry
import GoUblksrv.Lib.Decimal

namespace GoUblksrv.Listing

open GoUblksrv.Geometry (CtrlDevInfo DeviceInfo Call Reply Prog getDeviceInfo decodeInfo zeroParams infoData)

/-- The code points that Go's scanner takes for a space. -/
def isSpace (c : Char) : Bool :=
  let n := c.toNat
  9 ≤ n && n ≤ 13 || n == 0x20 || n == 0x85 || n == 0xa0 || n == 0x1680 || 0x2000 ≤ n && n ≤ 0x200a ||
    n == 0x2028 || n == 0x2029 || n == 0x202f || n == 0x205f || n == 0x3000

/-- A line break in the input is an error where the format has none. -/
def skipSpace : List Char → Option (List Char)
  | [] => some []
  | c :: cs => if c = '\n' then none else if isSpace c then skipSpace cs else some (c :: cs)

/-- `strconv.ParseInt` of 64 bits. -/
def parseInt (z : ℤ) : Option Int64 :=
  if -2 ^ 63 ≤ z ∧ z < 2 ^ 63 then some (.ofInt z) else none

/-- `fmt.Sscanf(name, "ublkc%d", &id)`, which does not look at what follows the number. -/
def sscanf (name : String) : Option Int64 := do
  let cs ← "ublkc".toList.isPrefixOf? name.toList
  let cs ← skipSpace cs
  let (z, _) ← Decimal.readInt cs
  parseInt z

def listLoop : List (Option Int64) → List DeviceInfo → Prog (List DeviceInfo)
  | [], devices => pure devices
  | none :: ids, devices => listLoop ids devices
  | some id :: ids, devices => do
    let info ← getDeviceInfo id
    match info with
    | .error _ => listLoop ids devices
    | .ok info => listLoop ids (devices ++ [info])

/-- The numbers that are tried, with `none` for an entry whose name is none of a device. -/
def candidates : Option (List String) → List (Option Int64)
  | none => (List.range 64).map fun i => some (.ofNat i)
  | some entries => entries.map sscanf

/-- `entries` is what `os.ReadDir("/sys/class/ublk")` returned, if it did. -/
def listDevices (entries : Option (List String)) : Prog (List DeviceInfo) :=
  listLoop (candidates entries) []

structure Device where
  info : CtrlDevInfo
  params : Pool.Params
  deriving DecidableEq, Repr

/-- The driver at the time of one command. It may refuse any, and what it returns otherwise is
of a device that it then has. -/
structure Moment where
  devices : UInt32 → Option Device
  ans : Call → Reply
  named : ∀ id d, devices id = some d → d.info.devId = id
  info : ∀ op id, 0 ≤ (ans (.getDevInfo op id)).res →
    ∃ d, devices id = some d ∧ (ans (.getDevInfo op id)).info = d.info
  params : ∀ id, 0 ≤ (ans (.getParams id)).res →
    ∃ d, devices id = some d ∧ (ans (.getParams id)).params = d.params

def number (id : Int64) : UInt32 := id.toInt32.toUInt32

/-- The driver has the device `d`, and answers what is asked about it with the opcode `op`. -/
structure Moment.Serves (m : Moment) (op : Control.CmdOp) (id : UInt32) (d : Device) : Prop where
  device : m.devices id = some d
  opened : 0 ≤ (m.ans .openCtrl).res ∧ 0 ≤ (m.ans .ringInit).res
  info : 0 ≤ (m.ans (.getDevInfo op id)).res
  params : 0 ≤ (m.ans (.getParams id)).res

/-- The record was read at one moment, and the parameters, if at all, at a later one. -/
def Read (ms : List Moment) (id : UInt32) (info : DeviceInfo) : Prop :=
  ∃ before m after, ms = before ++ m :: after ∧ ∃ d, m.devices id = some d ∧
    (info = decodeInfo d.info zeroParams ∨
      ∃ m' ∈ after, ∃ d', m'.devices id = some d' ∧ info = decodeInfo d.info d'.params)

variable {ms : List Moment} {m : Moment} {id : Int64} {info got : CtrlDevInfo} {ret : Int32} {d : Device}
  {op : Control.CmdOp} {nr : Control.CmdNr} {shown : DeviceInfo} {devs acc : List DeviceInfo}
  {ids : List (Option Int64)}

theorem meets_call {c : Call} {r : Reply} :
    (Geometry.call c).Meets Moment.ans ms r ↔ ∃ m, ms = [m] ∧ r = m.ans c := by
  rw [Geometry.call, Program.meets_ask]
  constructor
  · rintro ⟨m, es, rfl, rfl, rfl⟩
    exact ⟨m, rfl, rfl⟩
  · rintro ⟨m, rfl, rfl⟩
    exact ⟨m, [], rfl, rfl, rfl⟩

/-- A query failed and left the record, or read it at one of the moments. -/
def Got (ms : List Moment) (info : CtrlDevInfo) (p : Int32 × CtrlDevInfo) : Prop :=
  p.1 < 0 ∧ p.2 = info ∨ 0 ≤ p.1 ∧ ∃ m ∈ ms, ∃ d, m.devices info.devId = some d ∧ p.2 = d.info

theorem getInfoNoTrans_got {p : Int32 × CtrlDevInfo}
    (h : (Geometry.getInfoNoTrans info op).Meets Moment.ans ms p) : Got ms info p := by
  unfold Geometry.getInfoNoTrans at h
  split_ifs at h
  · obtain ⟨-, rfl⟩ := h
    exact .inl ⟨(by decide : Control.einval < 0), rfl⟩
  · obtain ⟨ms₁, ms₂, r, rfl, hr, rfl, rfl⟩ := Program.meets_bind.mp h
    obtain ⟨m, rfl, rfl⟩ := meets_call.mp hr
    by_cases hneg : (m.ans (.getDevInfo op info.devId)).res < 0
    · exact .inl ⟨hneg, if_pos hneg⟩
    · obtain ⟨d, hd, hinfo⟩ := m.info op info.devId (Int32.not_lt.mp hneg)
      refine .inr ⟨Int32.not_lt.mp hneg, m, by simp, d, hd, ?_⟩
      exact (if_neg hneg).trans hinfo

theorem Got.mono {ms' : List Moment} {p : Int32 × CtrlDevInfo} (h : Got ms info p) (hs : ms ⊆ ms') :
    Got ms' info p := by
  rcases h with h | ⟨hpos, m, hm, h⟩
  · exact .inl h
  · exact .inr ⟨hpos, m, hs hm, h⟩

theorem getInfoOp_got {p : Int32 × CtrlDevInfo}
    (h : (Geometry.getInfoOp info nr).Meets Moment.ans ms p) : Got ms info p := by
  obtain ⟨ms₁, ms₂, ⟨ret, got⟩, rfl, hfirst, hrest⟩ := Program.meets_bind.mp h
  rcases getInfoNoTrans_got hfirst with ⟨hneg, hsame⟩ | ⟨hpos, hm⟩
  · dsimp only at hneg hsame hrest
    rw [if_pos hneg, hsame] at hrest
    exact (getInfoNoTrans_got hrest).mono (List.subset_append_right _ _)
  · dsimp only at hpos hrest
    rw [if_neg (Int32.not_lt.mpr hpos)] at hrest
    obtain ⟨rfl, rfl⟩ := hrest
    exact Got.mono (.inr ⟨hpos, hm⟩) (List.subset_append_left _ _)

theorem ublksrvCtrlGetInfo_got {p : Int32 × CtrlDevInfo}
    (h : (Geometry.ublksrvCtrlGetInfo info).Meets Moment.ans ms p) : Got ms info p := by
  obtain ⟨ms₁, ms₂, ⟨ret, got⟩, rfl, hfirst, hrest⟩ := Program.meets_bind.mp h
  rcases getInfoOp_got hfirst with ⟨hneg, hsame⟩ | ⟨hpos, hm⟩
  · dsimp only at hneg hsame hrest
    rw [if_pos hneg, hsame] at hrest
    split_ifs at hrest
    · obtain ⟨rfl, rfl⟩ := hrest
      exact .inl ⟨hneg, rfl⟩
    · exact (getInfoOp_got hrest).mono (List.subset_append_right _ _)
  · dsimp only at hpos hrest
    rw [if_neg (Int32.not_lt.mpr hpos)] at hrest
    obtain ⟨rfl, rfl⟩ := hrest
    exact Got.mono (.inr ⟨hpos, hm⟩) (List.subset_append_left _ _)

theorem ublksrvCtrlInit_meets {data : Geometry.DevData} {dev : Option CtrlDevInfo}
    (h : (Geometry.ublksrvCtrlInit data).Meets Moment.ans ms dev) : dev = none ∨ dev = some data.info := by
  obtain ⟨ms₁, ms₂, fd, rfl, -, h⟩ := Program.meets_bind.mp h
  split_ifs at h
  · exact .inl h.2.symm
  · obtain ⟨ms₃, ms₄, ring, rfl, -, h⟩ := Program.meets_bind.mp h
    split_ifs at h
    · exact .inl h.2.symm
    · exact .inr h.2.symm

theorem getDeviceInfo_read (h : (getDeviceInfo id).Meets Moment.ans ms (.ok shown)) :
    Read ms (number id) shown := by
  obtain ⟨ms₁, ms₂, dev, rfl, hinit, h⟩ := Program.meets_bind.mp h
  rcases ublksrvCtrlInit_meets hinit with rfl | rfl
  · cases h.2
  · obtain ⟨ms₃, ms₄, ⟨ret, got⟩, rfl, hinfo, h⟩ := Program.meets_bind.mp h
    dsimp only at h
    split_ifs at h with hret
    · cases h.2
    · rcases ublksrvCtrlGetInfo_got hinfo with ⟨hneg, -⟩ | ⟨-, m, hm, d, hd, hgot⟩
      · exact absurd hneg hret
      · obtain ⟨ms₅, ms₆, r, rfl, hr, rfl, hshown⟩ := Program.meets_bind.mp h
        obtain ⟨m', rfl, rfl⟩ := meets_call.mp hr
        obtain rfl := Except.ok.inj hshown
        obtain ⟨pre, post, rfl⟩ := List.append_of_mem hm
        dsimp only at hgot
        subst hgot
        refine ⟨ms₁ ++ pre, m, post ++ [m'], by simp, d, hd, ?_⟩
        by_cases hneg : (m'.ans (.getParams d.info.devId)).res < 0
        · left
          rw [if_pos hneg]
        · obtain ⟨d', hd', hparams⟩ := m'.params _ (Int32.not_lt.mp hneg)
          rw [m.named _ _ hd] at hd'
          refine .inr ⟨m', by simp, d', hd', ?_⟩
          rw [if_neg hneg, hparams]

theorem Read.mono {ms' : List Moment} {n : UInt32} (h : Read ms n shown) (hs : ms <:+: ms') :
    Read ms' n shown := by
  obtain ⟨pre, post, rfl⟩ := hs
  obtain ⟨before, m, after, rfl, d, hd, hshown⟩ := h
  refine ⟨pre ++ before, m, after ++ post, by simp, d, hd, ?_⟩
  rcases hshown with h | ⟨m', hm', d', h⟩
  · exact .inl h
  · exact .inr ⟨m', List.mem_append_left _ hm', d', h⟩

theorem infoData_privileged (id : Int64) : Geometry.ublkIsUnprivileged (infoData id).info = false := by
  simp [Geometry.ublkIsUnprivileged, infoData, Geometry.DevData.info]

section

variable (hs : ∀ m ∈ ms, m.Serves op (number id) d)

include hs

theorem getInfoNoTrans_serves {p : Int32 × CtrlDevInfo} (hid : info.devId = number id)
    (hflags : Geometry.ublkIsUnprivileged info = false)
    (h : (Geometry.getInfoNoTrans info op).Meets Moment.ans ms p) : 0 ≤ p.1 := by
  rw [Geometry.getInfoNoTrans, hflags, Bool.false_and, if_neg Bool.false_ne_true] at h
  obtain ⟨ms₁, ms₂, r, rfl, hr, rfl, rfl⟩ := Program.meets_bind.mp h
  obtain ⟨m, rfl, rfl⟩ := meets_call.mp hr
  rw [hid]
  exact (hs m (by simp)).info

theorem getInfoOp_serves {p : Int32 × CtrlDevInfo} (hid : info.devId = number id)
    (hflags : Geometry.ublkIsUnprivileged info = false)
    (h : (Geometry.getInfoOp info op.nr).Meets Moment.ans ms p) : 0 ≤ p.1 := by
  obtain ⟨ms₁, ms₂, ⟨ret, got⟩, rfl, hfirst, hrest⟩ := Program.meets_bind.mp h
  have hs₁ : ∀ m ∈ ms₁, m.Serves op (number id) d := fun m hm => hs m (List.mem_append_left _ hm)
  have hs₂ : ∀ m ∈ ms₂, m.Serves op (number id) d := fun m hm => hs m (List.mem_append_right _ hm)
  obtain ⟨nr, ioctl⟩ := op
  dsimp only at hrest hfirst
  by_cases hneg : ret < 0
  · rw [if_pos hneg] at hrest
    rcases getInfoNoTrans_got hfirst with ⟨-, hsame⟩ | ⟨hpos, -⟩
    · dsimp only at hsame
      subst hsame
      cases ioctl with
      | true => exact absurd hneg (Int32.not_lt.mpr (getInfoNoTrans_serves hs₁ hid hflags hfirst))
      | false => exact getInfoNoTrans_serves hs₂ hid hflags hrest
    · exact absurd hneg (Int32.not_lt.mpr hpos)
  · rw [if_neg hneg] at hrest
    obtain ⟨-, rfl⟩ := hrest
    exact Int32.not_lt.mp hneg

theorem ublksrvCtrlGetInfo_serves {p : Int32 × CtrlDevInfo} (hid : info.devId = number id)
    (hflags : Geometry.ublkIsUnprivileged info = false) (hop : op.nr = .getDevInfo2 ∨ op.nr = .getDevInfo)
    (h : (Geometry.ublksrvCtrlGetInfo info).Meets Moment.ans ms p) : 0 ≤ p.1 := by
  obtain ⟨ms₁, ms₂, ⟨ret, got⟩, rfl, hfirst, hrest⟩ := Program.meets_bind.mp h
  have hs₁ : ∀ m ∈ ms₁, m.Serves op (number id) d := fun m hm => hs m (List.mem_append_left _ hm)
  have hs₂ : ∀ m ∈ ms₂, m.Serves op (number id) d := fun m hm => hs m (List.mem_append_right _ hm)
  dsimp only at hrest
  by_cases hneg : ret < 0
  · rcases getInfoOp_got hfirst with ⟨-, hsame⟩ | ⟨hpos, -⟩
    · dsimp only at hsame
      subst hsame
      rw [if_pos hneg, hflags, if_neg Bool.false_ne_true] at hrest
      rcases hop with hop | hop
      · rw [← hop] at hfirst
        exact absurd hneg (Int32.not_lt.mpr (getInfoOp_serves hs₁ hid hflags hfirst))
      · rw [← hop] at hrest
        exact getInfoOp_serves hs₂ hid hflags hrest
    · exact absurd hneg (Int32.not_lt.mpr hpos)
  · rw [if_neg hneg] at hrest
    obtain ⟨-, rfl⟩ := hrest
    exact Int32.not_lt.mp hneg

theorem ublksrvCtrlInit_serves {data : Geometry.DevData} {dev : Option CtrlDevInfo}
    (h : (Geometry.ublksrvCtrlInit data).Meets Moment.ans ms dev) : dev = some data.info := by
  obtain ⟨ms₁, ms₂, fd, rfl, hfd, h⟩ := Program.meets_bind.mp h
  obtain ⟨m, rfl, rfl⟩ := meets_call.mp hfd
  rw [if_neg (Int32.not_lt.mpr (hs m (by simp)).opened.1)] at h
  obtain ⟨ms₃, ms₄, ring, rfl, hring, h⟩ := Program.meets_bind.mp h
  obtain ⟨m', rfl, rfl⟩ := meets_call.mp hring
  rw [if_neg (Int32.not_lt.mpr (hs m' (by simp)).opened.2)] at h
  exact h.2.symm

theorem getDeviceInfo_serves {r : Except String DeviceInfo} (hop : op.nr = .getDevInfo2 ∨ op.nr = .getDevInfo)
    (h : (getDeviceInfo id).Meets Moment.ans ms r) : r = .ok (decodeInfo d.info d.params) := by
  obtain ⟨ms₁, ms₂, dev, rfl, hinit, h⟩ := Program.meets_bind.mp h
  have hs₁ : ∀ m ∈ ms₁, m.Serves op (number id) d := fun m hm => hs m (List.mem_append_left _ hm)
  obtain rfl := ublksrvCtrlInit_serves hs₁ hinit
  obtain ⟨ms₃, ms₄, ⟨ret, got⟩, rfl, hinfo, h⟩ := Program.meets_bind.mp h
  have hs₃ : ∀ m ∈ ms₃, m.Serves op (number id) d := fun m hm => hs m (by simp [hm])
  have hret := ublksrvCtrlGetInfo_serves hs₃ rfl (infoData_privileged id) hop hinfo
  dsimp only at h hret
  rw [if_neg (Int32.not_lt.mpr hret)] at h
  obtain ⟨ms₅, ms₆, q, rfl, hq, rfl, rfl⟩ := Program.meets_bind.mp h
  obtain ⟨m', rfl, rfl⟩ := meets_call.mp hq
  rcases ublksrvCtrlGetInfo_got hinfo with ⟨hneg, -⟩ | ⟨-, m, hm, d₁, hd₁, hgot⟩
  · exact absurd hneg (Int32.not_lt.mpr hret)
  · obtain rfl : d = d₁ := Option.some.inj ((hs₃ m hm).device.symm.trans hd₁)
    dsimp only at hgot
    subst hgot
    have hserves := hs m' (by simp)
    have hid : d.info.devId = number id := m'.named _ _ hserves.device
    rw [hid, if_neg (Int32.not_lt.mpr hserves.params)]
    obtain ⟨d₂, hd₂, hparams⟩ := m'.params _ hserves.params
    obtain rfl : d = d₂ := Option.some.inj (hserves.device.symm.trans hd₂)
    rw [hparams]

end

/-- The number that `DeviceInfo` shows for a candidate. -/
def shownId (n : UInt32) : Int64 := n.toUInt64.toInt64

theorem Read.id_eq {n : UInt32} (h : Read ms n shown) : shown.id = shownId n := by
  obtain ⟨before, m, after, rfl, d, hd, hshown⟩ := h
  have hid : d.info.devId = n := m.named _ _ hd
  rcases hshown with rfl | ⟨m', -, d', -, rfl⟩ <;> exact congrArg shownId hid

/-- What a listing says of the driver during the whole of it, when `ids` are tried. -/
structure Consistent (ids : List (Option Int64)) (ms : List Moment) (devs : List DeviceInfo) : Prop where
  read : ∀ shown ∈ devs, ∃ id, some id ∈ ids ∧ Read ms (number id) shown
  found : ∀ id, some id ∈ ids → ∀ op d, op.nr = .getDevInfo2 ∨ op.nr = .getDevInfo →
    (∀ m ∈ ms, m.Serves op (number id) d) → decodeInfo d.info d.params ∈ devs
  order : (devs.map DeviceInfo.id).Sublist (ids.filterMap fun id => id.map fun id => shownId (number id))

theorem Consistent.skip (h : Consistent ids ms devs) : Consistent (none :: ids) ms devs where
  read shown hmem := by
    obtain ⟨id, hid, hr⟩ := h.read shown hmem
    exact ⟨id, List.mem_cons_of_mem _ hid, hr⟩
  found id hid op d hop hs := by
    rcases List.mem_cons.mp hid with hid | hid
    · cases hid
    · exact h.found id hid op d hop hs
  order := h.order

theorem Consistent.error {ms₁ ms₂ : List Moment} {err : String} (h : Consistent ids ms₂ devs)
    (he : (getDeviceInfo id).Meets Moment.ans ms₁ (.error err)) :
    Consistent (some id :: ids) (ms₁ ++ ms₂) devs where
  read shown hmem := by
    obtain ⟨id', hid, hr⟩ := h.read shown hmem
    exact ⟨id', List.mem_cons_of_mem _ hid, hr.mono (List.suffix_append ms₁ ms₂).isInfix⟩
  found id' hid op d hop hs := by
    rcases List.mem_cons.mp hid with hid | hid
    · obtain rfl := Option.some.inj hid
      cases getDeviceInfo_serves (fun m hm => hs m (List.mem_append_left _ hm)) hop he
    · exact h.found id' hid op d hop fun m hm => hs m (List.mem_append_right _ hm)
  order := h.order.trans (List.sublist_cons_self _ _)

theorem Consistent.ok {ms₁ ms₂ : List Moment} (h : Consistent ids ms₂ devs)
    (he : (getDeviceInfo id).Meets Moment.ans ms₁ (.ok shown)) :
    Consistent (some id :: ids) (ms₁ ++ ms₂) (shown :: devs) where
  read shown' hmem := by
    rcases List.mem_cons.mp hmem with rfl | hmem
    · exact ⟨id, List.mem_cons_self, (getDeviceInfo_read he).mono (List.prefix_append ms₁ ms₂).isInfix⟩
    · obtain ⟨id', hid, hr⟩ := h.read shown' hmem
      exact ⟨id', List.mem_cons_of_mem _ hid, hr.mono (List.suffix_append ms₁ ms₂).isInfix⟩
  found id' hid op d hop hs := by
    rcases List.mem_cons.mp hid with hid | hid
    · obtain rfl := Option.some.inj hid
      have hok := getDeviceInfo_serves (fun m hm => hs m (List.mem_append_left _ hm)) hop he
      rw [← Except.ok.inj hok]
      exact List.mem_cons_self
    · exact List.mem_cons_of_mem _ (h.found id' hid op d hop fun m hm => hs m (List.mem_append_right _ hm))
  order := by
    rw [List.map_cons, (getDeviceInfo_read he).id_eq]
    exact h.order.cons_cons _

theorem listLoop_consistent (h : (listLoop ids acc).Meets Moment.ans ms devs) :
    ∃ added, devs = acc ++ added ∧ Consistent ids ms added := by
  induction ids generalizing ms acc with
  | nil =>
    obtain ⟨rfl, rfl⟩ := h
    exact ⟨[], by simp, by simp, by simp, by simp⟩
  | cons id ids ih =>
    cases id with
    | none =>
      obtain ⟨added, rfl, hc⟩ := ih h
      exact ⟨added, rfl, hc.skip⟩
    | some id =>
      obtain ⟨ms₁, ms₂, info, rfl, hinfo, h⟩ := Program.meets_bind.mp h
      cases info with
      | error err =>
        obtain ⟨added, rfl, hc⟩ := ih h
        exact ⟨added, rfl, hc.error hinfo⟩
      | ok shown =>
        obtain ⟨added, rfl, hc⟩ := ih h
        exact ⟨shown :: added, by simp, hc.ok hinfo⟩

/-- A driver that refuses nothing. -/
def Moment.of (devices : UInt32 → Option Device) (named : ∀ n d, devices n = some d → d.info.devId = n) :
    Moment where
  devices := devices
  ans
    | .getDevInfo _ n | .getParams n =>
      (devices n).elim ⟨-19, (infoData 0).info, zeroParams, ""⟩ fun d => ⟨0, d.info, d.params, ""⟩
    | _ => ⟨0, (infoData 0).info, zeroParams, ""⟩
  named := named
  info _ n hres := by
    cases hd : devices n with
    | none =>
      simp only [hd] at hres
      cases hres
    | some d => exact ⟨d, rfl, by simp [hd]⟩
  params n hres := by
    cases hd : devices n with
    | none =>
      simp only [hd] at hres
      cases hres
    | some d => exact ⟨d, rfl, by simp [hd]⟩

def plain (n : UInt32) : Device := ⟨{ (infoData 0).info with devId := n }, Pool.initParams 524288 8192⟩

def holding (ns : List UInt32) : Moment :=
  .of (fun n => if n ∈ ns then some (plain n) else none) fun n d hd => by
    split_ifs at hd
    cases hd
    rfl

theorem listDevices_consistent (entries : Option (List String)) (ms : List Moment) (devs : List DeviceInfo)
    (h : (listDevices entries).Meets Moment.ans ms devs) : Consistent (candidates entries) ms devs := by
  obtain ⟨added, rfl, hc⟩ := listLoop_consistent h
  exact hc

/-- Device 2 is deleted between the two commands that ask for it, and device 10 added. -/
def replaced : List Moment :=
  [holding [2], holding [2], holding [2], holding [10], holding [10], holding [10], holding [10], holding [10]]

theorem listDevices_consistent_replaced :
    Consistent (candidates (some ["ublkc2", "control", "ublkc10"])) replaced
      [decodeInfo (plain 2).info zeroParams, decodeInfo (plain 10).info (plain 10).params] :=
  listDevices_consistent _ _ _ ⟨rfl, rfl⟩

/-- The name of the character device of a number, as the driver registers it. -/
def entryName (n : UInt32) : String := "ublkc" ++ toString n.toNat

theorem number_ofInt (n : UInt32) : number (.ofInt n.toNat) = n := by
  unfold number
  apply UInt32.toBitVec_inj.mp
  simp

theorem number_ofNat (i : ℕ) : number (.ofNat i) = .ofNat i := by
  unfold number
  apply UInt32.toBitVec_inj.mp
  simp

theorem isSpace_of_isDigit {c : Char} (hc : c.isDigit = true) : isSpace c = false := by
  have h := Decimal.toNat_of_isDigit hc
  simp only [isSpace, Bool.or_eq_false_iff, Bool.and_eq_false_iff, decide_eq_false_iff_not, beq_eq_false_iff_ne]
  omega

theorem skipSpace_toDigits (n : ℕ) : skipSpace (Nat.toDigits 10 n) = some (Nat.toDigits 10 n) := by
  cases hds : Nat.toDigits 10 n with
  | nil => rfl
  | cons c cs =>
    have hc : c.isDigit = true := Decimal.isDigit_toDigits (hds ▸ List.mem_cons_self)
    rw [skipSpace, isSpace_of_isDigit hc, if_neg, if_neg Bool.false_ne_true]
    rintro rfl
    cases hc

theorem sscanf_entryName (n : UInt32) : sscanf (entryName n) = some (.ofInt n.toNat) := by
  have htext : (entryName n).toList = "ublkc".toList ++ Nat.toDigits 10 n.toNat := by
    rw [entryName, String.toList_append, Nat.toString_eq_repr, Nat.toList_repr]
  have hread := Decimal.readInt_toString (n.toNat : ℤ) Decimal.ends_nil
  rw [List.append_nil, Int.toString_eq_repr, Int.repr_eq_if, if_pos (by omega), Int.toNat_natCast,
    Nat.toList_repr] at hread
  have hparse : parseInt (n.toNat : ℤ) = some (.ofInt n.toNat) := by
    have hlt := n.toNat_lt
    rw [parseInt, if_pos]
    omega
  rw [sscanf, htext]
  change ((skipSpace (Nat.toDigits 10 n.toNat)).bind fun cs =>
    (Decimal.readInt cs).bind fun r => parseInt r.1) = _
  rw [skipSpace_toDigits, Option.bind_some, hread, Option.bind_some, hparse]

/-- A directory of the devices that the driver has. Other names are of nothing that is listed. -/
structure Lists (entries : List String) (m : Moment) : Prop where
  nodup : entries.Nodup
  named : ∀ n d, m.devices n = some d → entryName n ∈ entries
  others : ∀ name ∈ entries, (∃ n d, m.devices n = some d ∧ name = entryName n) ∨ sscanf name = none

theorem getDeviceInfo_number (ans : Call → Reply) {id' : Int64} (h : number id = number id') :
    ((getDeviceInfo id).eval ans).toOption = ((getDeviceInfo id').eval ans).toOption := by
  have hdata : infoData id = infoData id' := by
    rw [infoData, infoData, show id.toInt32 = id'.toInt32 from congrArg UInt32.toInt32 h]
  rw [getDeviceInfo, getDeviceInfo, hdata, Program.eval_bind, Program.eval_bind]
  generalize (Geometry.ublksrvCtrlInit (infoData id')).eval ans = dev
  cases dev with
  | none =>
    dsimp only
    rw [Program.eval_pure, Program.eval_pure, Except.toOption, Except.toOption]
  | some info =>
    rw [Program.eval_bind, Program.eval_bind]
    generalize (Geometry.ublksrvCtrlGetInfo info).eval ans = got
    obtain ⟨ret, got⟩ := got
    dsimp only
    split_ifs
    · rw [Program.eval_pure, Program.eval_pure, Except.toOption, Except.toOption]
    · rfl

theorem listLoop_eval (ans : Call → Reply) : (listLoop ids acc).eval ans =
    acc ++ ids.filterMap fun id => id.bind fun id => ((getDeviceInfo id).eval ans).toOption := by
  induction ids generalizing acc with
  | nil => simp [listLoop]
  | cons id ids ih =>
    cases id with
    | none =>
      rw [listLoop, ih]
      rfl
    | some id =>
      rw [listLoop, Program.eval_bind]
      cases hr : (getDeviceInfo id).eval ans with
      | error err =>
        dsimp only
        rw [ih, List.filterMap_cons_none]
        rw [Option.bind_some, hr]
        rfl
      | ok shown =>
        dsimp only
        rw [ih, List.filterMap_cons_some, List.append_assoc]
        · rfl
        · rw [Option.bind_some, hr]
          rfl

def Shows (m : Moment) (n : UInt32) (shown : DeviceInfo) : Prop :=
  ((getDeviceInfo (.ofInt n.toNat)).eval m.ans).toOption = some shown

theorem Shows.read {n : UInt32} (h : Shows m n shown) : ∃ k, Read (List.replicate k m) n shown := by
  obtain ⟨k, hk⟩ := Program.exists_meets_eval Moment.ans (getDeviceInfo (.ofInt n.toNat)) m
  cases hr : (getDeviceInfo (.ofInt n.toNat)).eval m.ans with
  | error err =>
    rw [Shows, hr] at h
    cases h
  | ok got =>
    rw [Shows, hr] at h
    cases h
    rw [hr] at hk
    exact ⟨k, number_ofInt n ▸ getDeviceInfo_read hk⟩

theorem Shows.device {n : UInt32} (h : Shows m n shown) : ∃ d, m.devices n = some d := by
  obtain ⟨k, before, m', after, he, d, hd, -⟩ := h.read
  have hmem : m' ∈ List.replicate k m := by
    rw [he]
    simp
  exact ⟨d, List.eq_of_mem_replicate hmem ▸ hd⟩

theorem Shows.id_eq {n : UInt32} (h : Shows m n shown) : shown.id = shownId n := by
  obtain ⟨k, hk⟩ := h.read
  exact hk.id_eq

theorem shows_number : Shows m (number id) shown ↔ ((getDeviceInfo id).eval m.ans).toOption = some shown := by
  rw [Shows, getDeviceInfo_number m.ans (number_ofInt (number id))]

theorem shownId_toInt (n : UInt32) : (shownId n).toInt = n.toNat := by
  have hlt := n.toNat_lt
  have hn : (n.toBitVec.setWidth 64).toNat = n.toNat := by
    rw [BitVec.toNat_setWidth, UInt32.toNat_toBitVec, Nat.mod_eq_of_lt (by omega)]
  change (n.toBitVec.setWidth 64).toInt = _
  rw [BitVec.toInt_eq_toNat_of_lt (by omega), hn]

theorem shownId_injective : Function.Injective shownId := by
  intro n n' h
  apply UInt32.toNat_inj.mp
  have hint := congrArg Int64.toInt h
  rw [shownId_toInt, shownId_toInt] at hint
  omega

theorem shownId_lt (n : UInt32) : shownId n < 64 ↔ n.toNat < 64 := by
  rw [Int64.lt_iff_toInt_lt, shownId_toInt]
  change (n.toNat : ℤ) < 64 ↔ _
  omega

theorem mem_listDevices (m : Moment) (entries : Option (List String)) :
    shown ∈ (listDevices entries).eval m.ans ↔ ∃ id, some id ∈ candidates entries ∧ Shows m (number id) shown := by
  rw [listDevices, listLoop_eval, List.nil_append, List.mem_filterMap]
  constructor
  · rintro ⟨id, hid, h⟩
    obtain ⟨id, rfl, h⟩ := Option.bind_eq_some_iff.mp h
    exact ⟨id, hid, shows_number.mpr h⟩
  · rintro ⟨id, hid, h⟩
    exact ⟨some id, hid, shows_number.mp h⟩

theorem mem_scan (P : UInt32 → Prop) :
    (∃ id, some id ∈ candidates none ∧ P (number id)) ↔ ∃ n : UInt32, n.toNat < 64 ∧ P n := by
  constructor
  · rintro ⟨id, hid, h⟩
    obtain ⟨i, hi, he⟩ := List.mem_map.mp hid
    obtain rfl := Option.some.inj he
    have hlt := List.mem_range.mp hi
    refine ⟨number (.ofNat i), ?_, h⟩
    rw [number_ofNat, UInt32.toNat_ofNat_of_lt' (hlt.trans (by decide))]
    exact hlt
  · rintro ⟨n, hn, h⟩
    refine ⟨.ofNat n.toNat, List.mem_map.mpr ⟨n.toNat, List.mem_range.mpr hn, rfl⟩, ?_⟩
    rw [number_ofNat, UInt32.ofNat_toNat]
    exact h

theorem mem_entries {entries : List String} (hl : Lists entries m) :
    (∃ id, some id ∈ candidates (some entries) ∧ Shows m (number id) shown) ↔ ∃ n, Shows m n shown := by
  constructor
  · rintro ⟨id, -, h⟩
    exact ⟨number id, h⟩
  · rintro ⟨n, h⟩
    obtain ⟨d, hd⟩ := h.device
    refine ⟨.ofInt n.toNat, ?_, ?_⟩
    · exact List.mem_map.mpr ⟨entryName n, hl.named n d hd, sscanf_entryName n⟩
    · rw [number_ofInt]
      exact h

theorem nodup_listDevices {entries : Option (List String)}
    (h : ((candidates entries).filterMap fun id => id.map fun id => shownId (number id)).Nodup) (m : Moment) :
    ((listDevices entries).eval m.ans).Nodup := by
  obtain ⟨n, hn⟩ := Program.exists_meets_eval Moment.ans (listDevices entries) m
  exact (h.sublist (listDevices_consistent _ _ _ hn).order).of_map

theorem nodup_scan : ((candidates none).filterMap fun id => id.map fun id => shownId (number id)).Nodup := by
  decide

theorem nodup_entries {entries : List String} (hl : Lists entries m) :
    ((candidates (some entries)).filterMap fun id => id.map fun id => shownId (number id)).Nodup := by
  rw [candidates, List.filterMap_map, List.Nodup, List.pairwise_filterMap]
  refine hl.nodup.imp_of_mem ?_
  intro name name' hname hname' hne x hx y hy hxy
  obtain ⟨id, hid, rfl⟩ := Option.map_eq_some_iff.mp hx
  obtain ⟨id', hid', rfl⟩ := Option.map_eq_some_iff.mp hy
  rcases hl.others name hname with ⟨n, -, -, rfl⟩ | hnone
  · rcases hl.others name' hname' with ⟨n', -, -, rfl⟩ | hnone
    · obtain rfl := Option.some.inj ((sscanf_entryName n).symm.trans hid)
      obtain rfl := Option.some.inj ((sscanf_entryName n').symm.trans hid')
      rw [number_ofInt, number_ofInt] at hxy
      exact hne (congrArg entryName (shownId_injective hxy))
    · cases hnone.symm.trans hid'
  · cases hnone.symm.trans hid

theorem paths_agree (m : Moment) (entries : List String) (hl : Lists entries m) :
    ((listDevices none).eval m.ans).Perm
      (((listDevices (some entries)).eval m.ans).filter fun shown => shown.id < 64) := by
  rw [List.perm_ext_iff_of_nodup (nodup_listDevices nodup_scan m)
    ((nodup_listDevices (nodup_entries hl) m).filter _)]
  intro shown
  rw [List.mem_filter, mem_listDevices, mem_listDevices,
    mem_scan fun n => Shows m n shown, mem_entries hl, decide_eq_true_iff]
  constructor
  · rintro ⟨n, hn, h⟩
    rw [h.id_eq, shownId_lt]
    exact ⟨⟨n, h⟩, hn⟩
  · rintro ⟨⟨n, h⟩, hn⟩
    rw [h.id_eq, shownId_lt] at hn
    exact ⟨n, hn, h⟩

theorem lists_three : Lists ["control", "ublkc10", "ublkc2", "ublkc70"] (holding [2, 10, 70]) where
  nodup := by decide
  named n d hd := by
    have hn : n ∈ ([2, 10, 70] : List UInt32) := by
      by_contra hn
      cases (if_neg hn).symm.trans hd
    simp only [List.mem_cons, List.not_mem_nil, or_false] at hn
    rcases hn with rfl | rfl | rfl <;> decide
  others name hname := by
    simp only [List.mem_cons, List.not_mem_nil, or_false] at hname
    rcases hname with rfl | rfl | rfl | rfl
    · exact .inr (by decide)
    · exact .inl ⟨10, plain 10, rfl, by decide⟩
    · exact .inl ⟨2, plain 2, rfl, by decide⟩
    · exact .inl ⟨70, plain 70, rfl, by decide⟩

theorem paths_agree_three : ((listDevices none).eval (holding [2, 10, 70]).ans).Perm
    (((listDevices (some ["control", "ublkc10", "ublkc2", "ublkc70"])).eval (holding [2, 10, 70]).ans).filter
      fun shown => shown.id < 64) :=
  paths_agree _ _ lists_three

end GoUblksrv.Listing
