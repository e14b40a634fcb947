import GoUblksrv.Header
import GoUblksrv.Lib.Words
import Mathlib.Data.Nat.Bitwise
import Mathlib.Data.Set.Function

namespace GoUblksrv.Queue

variable (tag op tgtData flag : UInt32) (userData : UInt64)

theorem buildUserDataAsserts_iff : buildUserDataAsserts tag op tgtData = true ↔
    tag.toNat < 2 ^ 16 ∧ op.toNat < 2 ^ 8 ∧ tgtData.toNat < 2 ^ 16 := by
  have shift : ∀ (x k : UInt32), k.toNat < 32 → (x >>> k = 0 ↔ x.toNat < 2 ^ k.toNat) := by
    intro x k hk
    rw [← UInt32.toNat_inj, UInt32.toNat_shiftRight, Nat.mod_eq_of_lt hk, Nat.shiftRight_eq_div_pow]
    exact Nat.div_eq_zero_iff_lt (Nat.two_pow_pos _)
  simp only [buildUserDataAsserts, Bool.and_eq_true, beq_iff_eq, shift _ _ (by decide : (16 : UInt32).toNat < 32),
    shift _ _ (by decide : (8 : UInt32).toNat < 32), and_assoc]
  rfl

/-- The arguments share one 32-bit word; the flag has bit 63 to itself. -/
theorem buildUserData_word : (buildUserData tag op tgtData flag).toNat =
    (tag ||| op <<< 16 ||| tgtData <<< 24).toNat + flag.toNat % 2 * 2 ^ 63 := by
  have hbits : (buildUserData tag op tgtData flag).toBitVec =
      (tag ||| op <<< 16 ||| tgtData <<< 24).toBitVec.setWidth 64 ||| flag.toBitVec.setWidth 64 <<< 63 := rfl
  have hword : ((tag ||| op <<< 16 ||| tgtData <<< 24).toBitVec.setWidth 64).toNat =
      (tag ||| op <<< 16 ||| tgtData <<< 24).toNat := by
    rw [← UInt32.toNat_toBitVec, BitVec.toNat_setWidth]
    omega
  have hlt := (tag ||| op <<< 16 ||| tgtData <<< 24).toNat_lt
  have hflag := flag.toNat_lt
  rw [← UInt64.toNat_toBitVec, hbits, Words.toNat_or_shiftLeft, hword, BitVec.toNat_setWidth,
    UInt32.toNat_toBitVec]
  · omega
  · omega

/-- The assertion admits 16 bits of `tgt_data`, the shift by 24 keeps 8 of them. -/
theorem buildUserData_toNat (ht : tag.toNat < 2 ^ 16) (ho : op.toNat < 2 ^ 8) :
    (buildUserData tag op tgtData flag).toNat =
      tag.toNat + op.toNat * 2 ^ 16 + tgtData.toNat % 2 ^ 8 * 2 ^ 24 + flag.toNat % 2 * 2 ^ 63 := by
  have hbits : (tag ||| op <<< 16 ||| tgtData <<< 24).toBitVec =
      tag.toBitVec ||| op.toBitVec <<< 16 ||| tgtData.toBitVec <<< 24 := rfl
  have hop : (tag.toBitVec ||| op.toBitVec <<< 16).toNat = tag.toNat + op.toNat * 2 ^ 16 := by
    rw [Words.toNat_or_shiftLeft _ _ ht, UInt32.toNat_toBitVec, UInt32.toNat_toBitVec, Nat.mod_eq_of_lt]
    omega
  rw [buildUserData_word, ← UInt32.toNat_toBitVec, hbits, Words.toNat_or_shiftLeft _ _ (by omega), hop,
    UInt32.toNat_toBitVec]
  omega

theorem userDataToTag_toNat : (userDataToTag userData).toNat = userData.toNat % 2 ^ 16 := by
  have hand : (userData &&& 0xffff).toNat = userData.toNat % 2 ^ 16 := by
    rw [UInt64.toNat_and]
    exact Nat.and_two_pow_sub_one_eq_mod userData.toNat 16
  rw [userDataToTag, UInt64.toNat_toUInt32, hand]
  omega

theorem userDataToOp_toNat : (userDataToOp userData).toNat = userData.toNat / 2 ^ 16 % 2 ^ 8 := by
  have hand : ((userData >>> 16) &&& 0xff).toNat = userData.toNat / 2 ^ 16 % 2 ^ 8 := by
    rw [UInt64.toNat_and, UInt64.toNat_shiftRight, Nat.shiftRight_eq_div_pow]
    exact Nat.and_two_pow_sub_one_eq_mod _ 8
  rw [userDataToOp, UInt64.toNat_toUInt32, hand]
  omega

theorem isTargetIo_eq : isTargetIo userData = userData.toNat.testBit 63 := by
  have hand : (userData &&& ((1 : UInt64) <<< 63)).toNat = (userData.toNat.testBit 63).toNat * 2 ^ 63 := by
    rw [UInt64.toNat_and]
    exact Nat.and_two_pow userData.toNat 63
  have hne : userData &&& ((1 : UInt64) <<< 63) ≠ 0 ↔ userData.toNat.testBit 63 = true := by
    rw [ne_eq, ← UInt64.toNat_inj, hand]
    cases userData.toNat.testBit 63 <;> simp
  apply Bool.eq_iff_iff.mpr
  rw [isTargetIo, bne_iff_ne, hne]

variable {tag op tgtData flag}

theorem userDataToTag_build (ht : tag.toNat < 2 ^ 16) (ho : op.toNat < 2 ^ 8) :
    userDataToTag (buildUserData tag op tgtData flag) = tag := by
  apply UInt32.toNat_inj.mp
  rw [userDataToTag_toNat, buildUserData_toNat _ _ _ _ ht ho]
  omega

theorem userDataToOp_build (ht : tag.toNat < 2 ^ 16) (ho : op.toNat < 2 ^ 8) :
    userDataToOp (buildUserData tag op tgtData flag) = op := by
  apply UInt32.toNat_inj.mp
  rw [userDataToOp_toNat, buildUserData_toNat _ _ _ _ ht ho]
  omega

theorem isTargetIo_build : isTargetIo (buildUserData tag op tgtData flag) = decide (flag.toNat % 2 = 1) := by
  have hlt := (tag ||| op <<< 16 ||| tgtData <<< 24).toNat_lt
  rw [isTargetIo_eq, buildUserData_word, Nat.testBit_eq_decide_div_mod_eq]
  apply decide_eq_decide.mpr
  omega

/-- The arguments that the assertion admits, with either value of the flag. -/
@[ext] structure UserData where
  tag : UInt32
  op : UInt32
  tgtData : UInt32
  isTarget : Bool
  asserted : buildUserDataAsserts tag op tgtData = true

namespace UserData

def build (u : UserData) : UInt64 := buildUserData u.tag u.op u.tgtData (if u.isTarget then 1 else 0)

structure Recovered (u : UserData) : Prop where
  tag : userDataToTag u.build = u.tag
  op : userDataToOp u.build = u.op
  isTarget : isTargetIo u.build = u.isTarget

structure Lossless (u v : UserData) : Prop where
  left : u.Recovered
  right : v.Recovered
  injective : u.build = v.build → u = v

variable {u v : UserData}

theorem bounds (u : UserData) :
    u.tag.toNat < 2 ^ 16 ∧ u.op.toNat < 2 ^ 8 ∧ u.tgtData.toNat < 2 ^ 16 :=
  (buildUserDataAsserts_iff _ _ _).mp u.asserted

theorem build_toNat (u : UserData) :
    u.build.toNat =
      u.tag.toNat + u.op.toNat * 2 ^ 16 + u.tgtData.toNat % 2 ^ 8 * 2 ^ 24 + u.isTarget.toNat * 2 ^ 63 := by
  obtain ⟨ht, ho, -⟩ := u.bounds
  rw [build, buildUserData_toNat _ _ _ _ ht ho]
  cases u.isTarget <;> rfl

theorem recovered (u : UserData) : u.Recovered := by
  obtain ⟨ht, ho, -⟩ := u.bounds
  constructor
  · exact userDataToTag_build ht ho
  · exact userDataToOp_build ht ho
  · rw [build, isTargetIo_build]
    cases u.isTarget <;> rfl

theorem build_eq_iff : u.build = v.build ↔
    u.tag = v.tag ∧ u.op = v.op ∧ u.isTarget = v.isTarget ∧
      u.tgtData.toNat % 2 ^ 8 = v.tgtData.toNat % 2 ^ 8 := by
  constructor
  · intro h
    have htag : u.tag = v.tag := by rw [← u.recovered.tag, h, v.recovered.tag]
    have hop : u.op = v.op := by rw [← u.recovered.op, h, v.recovered.op]
    have hflag : u.isTarget = v.isTarget := by rw [← u.recovered.isTarget, h, v.recovered.isTarget]
    have hsum : u.build.toNat = v.build.toNat := congrArg _ h
    rw [build_toNat, build_toNat, htag, hop, hflag] at hsum
    exact ⟨htag, hop, hflag, by omega⟩
  · rintro ⟨htag, hop, hflag, hlow⟩
    apply UInt64.toNat_inj.mp
    rw [build_toNat, build_toNat, htag, hop, hflag, hlow]

theorem build_injOn : Set.InjOn build {u | u.tgtData.toNat < 2 ^ 8} := by
  intro u hu v hv h
  obtain ⟨htag, hop, hflag, hlow⟩ := build_eq_iff.mp h
  rw [Nat.mod_eq_of_lt hu, Nat.mod_eq_of_lt hv] at hlow
  exact UserData.ext htag hop (UInt32.toNat_inj.mp hlow) hflag

theorem lossless_iff (u v : UserData) : u.Lossless v ↔
    ¬ (u.tag = v.tag ∧ u.op = v.op ∧ u.isTarget = v.isTarget ∧ u.tgtData ≠ v.tgtData ∧
      u.tgtData.toNat % 2 ^ 8 = v.tgtData.toNat % 2 ^ 8) := by
  constructor
  · rintro h ⟨htag, hop, hflag, hne, hlow⟩
    apply hne
    rw [h.injective (build_eq_iff.mpr ⟨htag, hop, hflag, hlow⟩)]
  · intro h
    apply Lossless.mk u.recovered v.recovered
    intro heq
    obtain ⟨htag, hop, hflag, hlow⟩ := build_eq_iff.mp heq
    have htgt : u.tgtData = v.tgtData := by
      by_contra hne
      exact h ⟨htag, hop, hflag, hne, hlow⟩
    exact UserData.ext htag hop htgt hflag

/-- Two admitted arguments with one encoding: `tgt_data` is 0 in one and 256 in the other. -/
theorem not_lossless : ¬ ∀ u v : UserData, u.Lossless v := by
  intro h
  have heq := (h ⟨0, 0, 0, false, by decide⟩ ⟨0, 0, 256, false, by decide⟩).injective (by decide)
  cases congrArg tgtData heq

end UserData

end GoUblksrv.Queue
