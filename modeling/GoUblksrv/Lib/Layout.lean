import Mathlib.Algebra.BigOperators.Intervals
import Mathlib.Data.Nat.ModEq
import Mathlib.Tactic.SplitIfs

namespace Layout

def digit (big : Bool) (size v j : ℕ) : UInt8 := .ofNat (v / 256 ^ (if big then size - 1 - j else j))

def number (big : Bool) (size : ℕ) (m : ℕ → UInt8) : ℕ :=
  ∑ j ∈ Finset.range size, (m j).toNat * 256 ^ (if big then size - 1 - j else j)

structure Field where
  offset : ℕ
  size : ℕ
  value : ℕ
  deriving DecidableEq, Repr

def Field.Apart (f g : Field) : Prop := f.offset + f.size ≤ g.offset ∨ g.offset + g.size ≤ f.offset

def put (big : Bool) (f : Field) (m : ℕ → UInt8) : ℕ → UInt8 := fun x =>
  if f.offset ≤ x ∧ x < f.offset + f.size then digit big f.size f.value (x - f.offset) else m x

def render (big : Bool) (fs : List Field) (m : ℕ → UInt8) : ℕ → UInt8 := fs.foldr (put big) m

def read (big : Bool) (offset size : ℕ) (m : ℕ → UInt8) : ℕ := number big size fun j => m (offset + j)

variable {big : Bool} {size offset v : ℕ} {m m' : ℕ → UInt8} {f g : Field} {fs : List Field}

theorem number_congr (h : ∀ j < size, m j = m' j) : number big size m = number big size m' := by
  apply Finset.sum_congr rfl
  intro j hj
  rw [h j (Finset.mem_range.mp hj)]

theorem number_reverse (size : ℕ) (m : ℕ → UInt8) :
    number true size m = number false size fun j => m (size - 1 - j) := by
  unfold number
  rw [← Finset.sum_range_reflect]
  apply Finset.sum_congr rfl
  intro j hj
  have hlt := Finset.mem_range.mp hj
  rw [if_pos rfl, if_neg Bool.false_ne_true, Nat.sub_sub_self (by omega)]

theorem number_succ (size : ℕ) (m : ℕ → UInt8) :
    number false (size + 1) m = number false size m + (m size).toNat * 256 ^ size :=
  Finset.sum_range_succ (fun j => (m j).toNat * 256 ^ j) size

theorem number_digit_little (size v : ℕ) : number false size (digit false size v) = v % 256 ^ size := by
  induction size with
  | zero => rw [number, Finset.sum_range_zero, pow_zero, Nat.mod_one]
  | succ size ih =>
    have hlow : number false size (digit false (size + 1) v) = v % 256 ^ size := ih
    have htop : (digit false (size + 1) v size).toNat = v / 256 ^ size % 256 := UInt8.toNat_ofNat'
    rw [number_succ, hlow, htop, Nat.mod_pow_succ, Nat.mul_comm (256 ^ size)]

theorem number_digit (big : Bool) (size v : ℕ) : number big size (digit big size v) = v % 256 ^ size := by
  cases big with
  | false => exact number_digit_little size v
  | true =>
    rw [number_reverse, ← number_digit_little]
    apply number_congr
    intro j hj
    rw [digit, digit, if_pos rfl, if_neg Bool.false_ne_true, Nat.sub_sub_self (by omega)]

theorem read_congr (h : ∀ j < size, m (offset + j) = m' (offset + j)) :
    read big offset size m = read big offset size m' := number_congr h

theorem put_inside {j : ℕ} (hj : j < f.size) : put big f m (f.offset + j) = digit big f.size f.value j := by
  rw [put, if_pos (by omega), Nat.add_sub_cancel_left]

theorem put_outside {x : ℕ} (hx : x < f.offset ∨ f.offset + f.size ≤ x) : put big f m x = m x := by
  rw [put, if_neg (by omega)]

theorem read_put (big : Bool) (f : Field) (m : ℕ → UInt8) :
    read big f.offset f.size (put big f m) = f.value % 256 ^ f.size := by
  rw [← number_digit big]
  apply number_congr
  intro j hj
  exact put_inside hj

theorem read_put_apart (h : g.Apart f) : read big f.offset f.size (put big g m) = read big f.offset f.size m := by
  apply read_congr
  intro j hj
  apply put_outside
  rcases h with h | h
  · exact .inr (by omega)
  · exact .inl (by omega)

theorem read_render (h : fs.Pairwise Field.Apart) (hf : f ∈ fs) :
    read big f.offset f.size (render big fs m) = f.value % 256 ^ f.size := by
  induction fs with
  | nil => cases hf
  | cons g fs ih =>
    obtain ⟨hg, h⟩ := List.pairwise_cons.mp h
    rcases List.mem_cons.mp hf with rfl | hf
    · exact read_put big f _
    · exact (read_put_apart (hg f hf)).trans (ih h hf)

end Layout
