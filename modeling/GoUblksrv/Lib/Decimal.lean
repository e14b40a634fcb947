import Mathlib.Data.Int.Notation
import Mathlib.Data.Nat.Notation
import Mathlib.Tactic.SplitIfs

namespace Decimal

def dropSign : List Char → Bool × List Char
  | '-' :: cs => (true, cs)
  | '+' :: cs => (false, cs)
  | cs => (false, cs)

/-- The digits at the front as a number, and what follows them. -/
def readNat (cs : List Char) : Option (ℕ × List Char) :=
  if cs.takeWhile Char.isDigit = [] then none
  else some (Nat.ofDigitChars 10 (cs.takeWhile Char.isDigit) 0, cs.dropWhile Char.isDigit)

def readInt (cs : List Char) : Option (ℤ × List Char) :=
  (readNat (dropSign cs).2).map fun r => (if (dropSign cs).1 then -r.1 else r.1, r.2)

/-- Nothing that follows a number belongs to it. -/
def Ends (rest : List Char) : Prop := ∀ c ∈ rest.head?, c.isDigit = false

variable {n : ℕ} {cs rest : List Char}

theorem isDigit_toDigits {c : Char} (hc : c ∈ Nat.toDigits 10 n) : c.isDigit = true :=
  Nat.isDigit_of_mem_toDigits (by decide) (by decide) hc

theorem toNat_of_isDigit {c : Char} (hc : c.isDigit = true) : 48 ≤ c.toNat ∧ c.toNat ≤ 57 := by
  simpa [Char.isDigit, UInt32.le_iff_toNat_le] using hc

theorem takeWhile_append (hcs : ∀ c ∈ cs, c.isDigit = true) (hr : Ends rest) :
    (cs ++ rest).takeWhile Char.isDigit = cs := by
  rw [List.takeWhile_append_of_pos hcs]
  cases rest with
  | nil => simp
  | cons c rest => simp [hr c rfl]

theorem dropWhile_append (hcs : ∀ c ∈ cs, c.isDigit = true) (hr : Ends rest) :
    (cs ++ rest).dropWhile Char.isDigit = rest := by
  rw [List.dropWhile_append_of_pos hcs]
  cases rest with
  | nil => simp
  | cons c rest => simp [hr c rfl]

theorem readNat_toDigits (n : ℕ) (hr : Ends rest) :
    readNat (Nat.toDigits 10 n ++ rest) = some (n, rest) := by
  have hall : ∀ c ∈ Nat.toDigits 10 n, c.isDigit = true := fun c hc => isDigit_toDigits hc
  rw [readNat, takeWhile_append hall hr, dropWhile_append hall hr, if_neg, Nat.ofDigitChars_ten_toDigits]
  exact List.ne_nil_of_length_pos Nat.length_toDigits_pos

theorem dropSign_toDigits (n : ℕ) (rest : List Char) :
    dropSign (Nat.toDigits 10 n ++ rest) = (false, Nat.toDigits 10 n ++ rest) := by
  cases hds : Nat.toDigits 10 n with
  | nil => exact absurd hds (List.ne_nil_of_length_pos Nat.length_toDigits_pos)
  | cons c cs =>
    have hc : c.isDigit = true := isDigit_toDigits (hds ▸ List.mem_cons_self)
    rw [List.cons_append, dropSign]
    · intro ds he
      cases he
      cases hc
    · intro ds he
      cases he
      cases hc

theorem readInt_toString (z : ℤ) (hr : Ends rest) : readInt ((toString z).toList ++ rest) = some (z, rest) := by
  rw [Int.toString_eq_repr, Int.repr_eq_if]
  split_ifs with hz
  · rw [Nat.toList_repr, readInt, dropSign_toDigits, readNat_toDigits _ hr]
    simp [Int.toNat_of_nonneg hz]
  · rw [String.toList_append, Nat.toList_repr, List.append_assoc, readInt]
    change (readNat (Nat.toDigits 10 (-z).toNat ++ rest)).map _ = _
    rw [readNat_toDigits _ hr]
    have hneg : ((-z).toNat : ℤ) = -z := Int.toNat_of_nonneg (by omega)
    simp [dropSign, hneg]

theorem ends_nil : Ends [] := by
  intro c hc
  cases hc

end Decimal
