import GoUblksrv.Queue.Bounds
import GoUblksrv.Lib.Words
import Mathlib.Order.CompletePartialOrder
import Mathlib.Order.Interval.Set.Disjoint

/-!
The windows of the command buffers in the file of the device: the stride and the length come
from two calls of `round_up`, one in `size_t` and one in `unsigned`. A signed operation whose
value does not fit in an `int` has no result.
-/

namespace GoUblksrv.Queue

abbrev sizeofIoDesc : UInt64 := 24
abbrev ublksrvCmdBufOffset : Int32 := 0
abbrev ublksrvIoBufOffset : ℕ := 0x80000000

def fitsInt (n : ℤ) : Option Int32 := if -2 ^ 31 ≤ n ∧ n < 2 ^ 31 then some (.ofInt n) else none

/-- `round_up` of a `size_t` by an `unsigned int`: the complement is taken before it is widened. -/
def roundUpSize (val : UInt64) (rnd : UInt32) : UInt64 :=
  (val + (rnd - 1).toUInt64) &&& (~~~(rnd - 1)).toUInt64

/-- The local `size` of `ublksrv_queue_cmd_buf_sz`. -/
def ioDescsSize (qDepth : Int32) : Int32 := (qDepth.toInt64.toUInt64 * sizeofIoDesc).toUInt32.toInt32

def ublksrvQueueCmdBufSz (qDepth pagesize : Int32) : Int32 :=
  (roundUp (ioDescsSize qDepth).toUInt32 pagesize.toUInt32).toInt32

def queueMaxCmdBufSz (pagesize : Int32) : Int32 :=
  (roundUpSize (.ofNat ublkMaxQueueDepth * sizeofIoDesc) pagesize.toUInt32).toUInt32.toInt32

/-- What `ublksrv_queue_init` passes to `mmap`. -/
structure Window where
  off : UInt64
  len : UInt64
  deriving DecidableEq, Repr

def cmdBufWindow (depth qId : UInt16) (pagesize : Int32) : Option Window := do
  let stride ← fitsInt (qId.toNat * (queueMaxCmdBufSz pagesize).toInt)
  let off ← fitsInt (ublksrvCmdBufOffset.toInt + stride.toInt)
  pure
    { off := off.toInt64.toUInt64
      len := (ublksrvQueueCmdBufSz depth.toUInt32.toInt32 pagesize).toInt64.toUInt64 }

def ublksrvGetIod (ioCmdBuf : UInt64) (tag : Int32) : UInt64 := ioCmdBuf + tag.toInt64.toUInt64 * sizeofIoDesc

def Window.bytes (w : Window) : Set ℕ := Set.Ico w.off.toNat (w.off.toNat + w.len.toNat)

/-- The bytes of the file behind the descriptor of a tag, when the window is mapped at `ioCmdBuf`. -/
def Window.iodBytes (w : Window) (ioCmdBuf : UInt64) (tag : Int32) : Set ℕ :=
  Set.Ico (w.off.toNat + (ublksrvGetIod ioCmdBuf tag - ioCmdBuf).toNat)
    (w.off.toNat + (ublksrvGetIod ioCmdBuf tag - ioCmdBuf).toNat + sizeofIoDesc.toNat)

variable {x pagesize tag : Int32} {n k : ℕ} {depth qId : UInt16}

theorem toNat_toUInt32_of_toInt (h : x.toInt = n) : x.toUInt32.toNat = n := Words.toNat_of_toInt h

theorem toNat_toUInt64_of_toInt (h : x.toInt = n) : x.toInt64.toUInt64.toNat = n := by
  rw [← Int32.toInt_toInt64] at h
  exact Words.toNat_of_toInt h

theorem toInt_toInt32_of_lt {v : UInt32} (h : v.toNat < 2 ^ 31) : v.toInt32.toInt = v.toNat := by
  have hv : v.toInt32.toInt = v.toBitVec.toInt := rfl
  rw [hv, BitVec.toInt_eq_toNat_of_lt]
  · rfl
  · rw [UInt32.toNat_toBitVec]
    omega

theorem fitsInt_eq (h : n < 2 ^ 31) : ∃ y, fitsInt n = some y ∧ y.toInt = n := by
  refine ⟨.ofInt n, ?_, Int32.toInt_ofInt_of_le (by omega) (by omega)⟩
  rw [fitsInt, if_pos]
  omega

theorem roundUp_toNat (val : UInt32) {rnd : UInt32} (hr : rnd.toNat = 2 ^ k) (hv : val.toNat + 2 ^ k ≤ 2 ^ 32) :
    (roundUp val rnd).toNat = Words.ceilTo val.toNat (2 ^ k) := by
  have hbits : (roundUp val rnd).toBitVec =
      (val.toBitVec + (rnd.toBitVec - 1#32)) &&& ~~~(rnd.toBitVec - 1#32) := rfl
  rw [← UInt32.toNat_toBitVec, hbits]
  exact Words.toNat_roundUp val.toBitVec hr hv

theorem roundUpSize_toNat (val : UInt64) {rnd : UInt32} (hr : rnd.toNat = 2 ^ k)
    (hv : val.toNat + 2 ^ k ≤ 2 ^ 32) :
    (roundUpSize val rnd).toNat = Words.ceilTo val.toNat (2 ^ k) := by
  have hbits : (roundUpSize val rnd).toBitVec =
      (val.toBitVec + (rnd.toBitVec - 1#32).setWidth 64) &&& (~~~(rnd.toBitVec - 1#32)).setWidth 64 := rfl
  rw [← UInt64.toNat_toBitVec, hbits]
  exact Words.toNat_roundUp_setWidth val.toBitVec hr (by decide) hv

theorem ioDescsSize_toInt (hx : x.toInt = n) (hn : n ≤ ublkMaxQueueDepth) :
    (ioDescsSize x).toInt = (n * 24 : ℕ) := by
  have hsize : sizeofIoDesc.toNat = 24 := rfl
  change n ≤ 4096 at hn
  have hmul : (x.toInt64.toUInt64 * sizeofIoDesc).toUInt32.toNat = n * 24 := by
    rw [UInt64.toNat_toUInt32, UInt64.toNat_mul, toNat_toUInt64_of_toInt hx, hsize]
    omega
  rw [ioDescsSize, toInt_toInt32_of_lt (by omega), hmul]

theorem ceilTo_le (hk : k ≤ 20) (hn : n ≤ 2 ^ 20) : Words.ceilTo n (2 ^ k) ≤ 2 ^ 20 :=
  (Words.ceilTo_le_iff (Nat.two_pow_pos k) (pow_dvd_pow 2 hk)).mpr hn

theorem ublksrvQueueCmdBufSz_toInt (hx : x.toInt = n) (hn : n ≤ ublkMaxQueueDepth)
    (hp : pagesize.toInt = (2 ^ k : ℕ)) (hk : k ≤ 20) :
    (ublksrvQueueCmdBufSz x pagesize).toInt = Words.ceilTo (n * 24) (2 ^ k) := by
  have hpow : 2 ^ k ≤ 2 ^ 20 := Nat.pow_le_pow_right (by decide) hk
  have hsize := toNat_toUInt32_of_toInt (ioDescsSize_toInt hx hn)
  change n ≤ 4096 at hn
  have hle := ceilTo_le hk (show n * 24 ≤ 2 ^ 20 by omega)
  have hround := roundUp_toNat (ioDescsSize x).toUInt32 (toNat_toUInt32_of_toInt hp) (by omega)
  rw [hsize] at hround
  rw [ublksrvQueueCmdBufSz, toInt_toInt32_of_lt (by omega), hround]

theorem queueMaxCmdBufSz_toInt (hp : pagesize.toInt = (2 ^ k : ℕ)) (hk : k ≤ 20) :
    (queueMaxCmdBufSz pagesize).toInt = Words.ceilTo (ublkMaxQueueDepth * 24) (2 ^ k) := by
  have hpow : 2 ^ k ≤ 2 ^ 20 := Nat.pow_le_pow_right (by decide) hk
  have hmax : (UInt64.ofNat ublkMaxQueueDepth * sizeofIoDesc).toNat = ublkMaxQueueDepth * 24 := rfl
  have hle := ceilTo_le hk (show ublkMaxQueueDepth * 24 ≤ 2 ^ 20 by decide)
  have hround := roundUpSize_toNat (.ofNat ublkMaxQueueDepth * sizeofIoDesc)
    (toNat_toUInt32_of_toInt hp) (by rw [hmax]; change 98304 + _ ≤ _; omega)
  have hnarrow : (roundUpSize (.ofNat ublkMaxQueueDepth * sizeofIoDesc) pagesize.toUInt32).toUInt32.toNat =
      Words.ceilTo (ublkMaxQueueDepth * 24) (2 ^ k) := by
    rw [UInt64.toNat_toUInt32, hround, hmax]
    omega
  rw [queueMaxCmdBufSz, toInt_toInt32_of_lt (by omega), hnarrow]

def Tag (depth : UInt16) (tag : Int32) : Prop := 0 ≤ tag.toInt ∧ tag.toInt < depth.toNat

/-- `win` gives the windows of a device whose queues are `depth` deep. -/
structure WindowsApart (depth : UInt16) (pagesize : Int32) (win : UInt16 → Window) : Prop where
  noOverflow : ∀ q, q.toNat < maxNrHwQueues → cmdBufWindow depth q pagesize = some (win q)
  size : (ioDescsSize depth.toUInt32.toInt32).toInt = depth.toNat * 24
  stride : (queueMaxCmdBufSz pagesize).toInt = Words.ceilTo (ublkMaxQueueDepth * 24) pagesize.toInt.toNat
  length : ∀ q, q.toNat < maxNrHwQueues →
    (win q).len.toNat = Words.ceilTo (depth.toNat * 24) pagesize.toInt.toNat
  aligned : ∀ q, q.toNat < maxNrHwQueues →
    pagesize.toInt.toNat ∣ (win q).off.toNat ∧ pagesize.toInt.toNat ∣ (win q).len.toNat
  below : ∀ q, q.toNat < maxNrHwQueues → (win q).off.toNat + (win q).len.toNat ≤ ublksrvIoBufOffset
  disjoint : ∀ q r, q.toNat < maxNrHwQueues → r.toNat < maxNrHwQueues → q ≠ r →
    Disjoint (win q).bytes (win r).bytes
  iodInside : ∀ q, q.toNat < maxNrHwQueues → ∀ ioCmdBuf tag, Tag depth tag →
    (win q).iodBytes ioCmdBuf tag ⊆ (win q).bytes
  iodsDisjoint : ∀ q ioCmdBuf tag tag', Tag depth tag → Tag depth tag' → tag ≠ tag' →
    Disjoint ((win q).iodBytes ioCmdBuf tag) ((win q).iodBytes ioCmdBuf tag')

theorem depth_toInt : depth.toUInt32.toInt32.toInt = depth.toNat := by
  have hlt := depth.toNat_lt
  rw [toInt_toInt32_of_lt] <;> rw [UInt16.toNat_toUInt32]
  omega

theorem cmdBufWindow_eq (hp : pagesize.toInt = (2 ^ k : ℕ)) (hk : k ≤ 20)
    (hd : depth.toNat ≤ ublkMaxQueueDepth) (hq : qId.toNat < maxNrHwQueues) :
    ∃ w, cmdBufWindow depth qId pagesize = some w ∧
      w.off.toNat = qId.toNat * Words.ceilTo (ublkMaxQueueDepth * 24) (2 ^ k) ∧
      w.len.toNat = Words.ceilTo (depth.toNat * 24) (2 ^ k) := by
  have hle := ceilTo_le hk (show ublkMaxQueueDepth * 24 ≤ 2 ^ 20 by decide)
  change qId.toNat < 32 at hq
  have hmul : qId.toNat * Words.ceilTo (ublkMaxQueueDepth * 24) (2 ^ k) ≤ 31 * 2 ^ 20 :=
    Nat.mul_le_mul (by omega) hle
  obtain ⟨stride, hstride, hval⟩ :=
    fitsInt_eq (n := qId.toNat * Words.ceilTo (ublkMaxQueueDepth * 24) (2 ^ k)) (by omega)
  obtain ⟨off, hoff, hval'⟩ := fitsInt_eq
    (n := qId.toNat * Words.ceilTo (ublkMaxQueueDepth * 24) (2 ^ k)) (by omega)
  refine ⟨⟨off.toInt64.toUInt64, (ublksrvQueueCmdBufSz depth.toUInt32.toInt32 pagesize).toInt64.toUInt64⟩,
    ?_, toNat_toUInt64_of_toInt hval', toNat_toUInt64_of_toInt (ublksrvQueueCmdBufSz_toInt depth_toInt hd hp hk)⟩
  have hzero : ublksrvCmdBufOffset.toInt = 0 := rfl
  rw [cmdBufWindow, queueMaxCmdBufSz_toInt hp hk, ← Nat.cast_mul, hstride, hzero]
  simp only [Option.bind_eq_bind, Option.bind_some, zero_add, hval, hoff, Option.pure_def]

theorem ublksrvGetIod_sub (ioCmdBuf : UInt64) (ht : Tag depth tag) :
    ∃ t : ℕ, tag.toInt = t ∧ t < depth.toNat ∧ (ublksrvGetIod ioCmdBuf tag - ioCmdBuf).toNat = t * 24 := by
  obtain ⟨hlo, hhi⟩ := ht
  obtain ⟨t, ht⟩ := Int.eq_ofNat_of_zero_le hlo
  have hsize : sizeofIoDesc.toNat = 24 := rfl
  have hlt := depth.toNat_lt
  refine ⟨t, ht, by omega, ?_⟩
  rw [ublksrvGetIod, add_sub_cancel_left, UInt64.toNat_mul, toNat_toUInt64_of_toInt ht, hsize]
  omega

theorem ico_disjoint {a b c d : ℕ} (h : b ≤ c ∨ d ≤ a) : Disjoint (Set.Ico a b) (Set.Ico c d) := by
  rw [Set.Ico_disjoint_Ico]
  omega

theorem mul_add_le_mul {q r stride len : ℕ} (h : q < r) (hl : len ≤ stride) :
    q * stride + len ≤ r * stride := by
  have hle : (q + 1) * stride ≤ r * stride := Nat.mul_le_mul_right stride h
  rw [Nat.succ_mul] at hle
  omega

theorem Window.iodBytes_subset {w : Window} (ioCmdBuf : UInt64) (hl : depth.toNat * 24 ≤ w.len.toNat)
    (ht : Tag depth tag) : w.iodBytes ioCmdBuf tag ⊆ w.bytes := by
  obtain ⟨t, -, hlt, hsub⟩ := ublksrvGetIod_sub ioCmdBuf ht
  have hsize : sizeofIoDesc.toNat = 24 := rfl
  apply Set.Ico_subset_Ico
  · exact Nat.le_add_right _ _
  · rw [hsub, hsize]
    omega

theorem Window.iodBytes_disjoint {w : Window} (ioCmdBuf : UInt64) {tag' : Int32} (ht : Tag depth tag)
    (ht' : Tag depth tag') (hne : tag ≠ tag') : Disjoint (w.iodBytes ioCmdBuf tag) (w.iodBytes ioCmdBuf tag') := by
  obtain ⟨t, hval, -, hsub⟩ := ublksrvGetIod_sub ioCmdBuf ht
  obtain ⟨t', hval', -, hsub'⟩ := ublksrvGetIod_sub ioCmdBuf ht'
  have hdiff : t ≠ t' := by
    rintro rfl
    exact hne (Int32.toInt_inj.mp (hval.trans hval'.symm))
  have hsize : sizeofIoDesc.toNat = 24 := rfl
  apply ico_disjoint
  rw [hsub, hsub', hsize]
  omega

theorem cmdBufWindows_apart (hp : pagesize.toInt = (2 ^ k : ℕ)) (hk : k ≤ 20)
    (hd : depth.toNat ≤ ublkMaxQueueDepth) : ∃ win, WindowsApart depth pagesize win := by
  have hex : ∀ q : UInt16, ∃ w, q.toNat < maxNrHwQueues → cmdBufWindow depth q pagesize = some w ∧
      w.off.toNat = q.toNat * Words.ceilTo (ublkMaxQueueDepth * 24) (2 ^ k) ∧
      w.len.toNat = Words.ceilTo (depth.toNat * 24) (2 ^ k) := by
    intro q
    by_cases hq : q.toNat < maxNrHwQueues
    · obtain ⟨w, hw⟩ := cmdBufWindow_eq hp hk hd hq
      exact ⟨w, fun _ => hw⟩
    · exact ⟨⟨0, 0⟩, fun h => absurd h hq⟩
  choose win hwin using hex
  have hpage : pagesize.toInt.toNat = 2 ^ k := by rw [hp, Int.toNat_natCast]
  have hpos : 0 < 2 ^ k := Nat.two_pow_pos k
  have hlen : Words.ceilTo (depth.toNat * 24) (2 ^ k) ≤ Words.ceilTo (ublkMaxQueueDepth * 24) (2 ^ k) :=
    Words.ceilTo_mono hpos (Nat.mul_le_mul_right 24 hd)
  have hstride := ceilTo_le hk (show ublkMaxQueueDepth * 24 ≤ 2 ^ 20 by decide)
  refine ⟨win, ?_⟩
  constructor
  · intro q hq
    exact (hwin q hq).1
  · exact ioDescsSize_toInt depth_toInt hd
  · rw [hpage]
    exact queueMaxCmdBufSz_toInt hp hk
  · intro q hq
    rw [hpage]
    exact (hwin q hq).2.2
  · intro q hq
    obtain ⟨-, hoff, hl⟩ := hwin q hq
    rw [hpage, hoff, hl]
    exact ⟨Dvd.dvd.mul_left Words.dvd_ceilTo _, Words.dvd_ceilTo⟩
  · intro q hq
    obtain ⟨-, hoff, hl⟩ := hwin q hq
    have hmul := mul_add_le_mul hq hlen
    rw [hoff, hl]
    have hall : maxNrHwQueues * Words.ceilTo (ublkMaxQueueDepth * 24) (2 ^ k) ≤ ublksrvIoBufOffset :=
      (Nat.mul_le_mul_left _ hstride).trans (by decide)
    omega
  · intro q r hq hr hne
    obtain ⟨-, hoff, hl⟩ := hwin q hq
    obtain ⟨-, hoff', hl'⟩ := hwin r hr
    apply ico_disjoint
    rw [hoff, hl, hoff', hl']
    rcases lt_or_gt_of_ne fun h => hne (UInt16.toNat_inj.mp h) with hlt | hgt
    · exact .inl (mul_add_le_mul hlt hlen)
    · exact .inr (mul_add_le_mul hgt hlen)
  · intro q hq ioCmdBuf tag ht
    apply Window.iodBytes_subset ioCmdBuf _ ht
    rw [(hwin q hq).2.2]
    exact Words.le_ceilTo hpos
  · intro q ioCmdBuf tag tag' ht ht' hne
    exact Window.iodBytes_disjoint ioCmdBuf ht ht' hne

/-- Pages of 4 KiB and queues of the default depth. -/
theorem cmdBufWindows_apart_default : ∃ win, WindowsApart 128 4096 win :=
  cmdBufWindows_apart (k := 12) (by decide) (by decide) (by decide)

end GoUblksrv.Queue
