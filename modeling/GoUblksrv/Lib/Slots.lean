import Mathlib.Data.Nat.ModEq
import Mathlib.Data.List.Induction
import Mathlib.Logic.Function.Basic

/-!
A ring of records that are written in turn, each write to some of the parts of a record. A part
that a write leaves alone still holds what the last write to the same place put there.
-/

namespace Slots

universe u v

variable {ι : Type u} {V : ι → Type v} (n : ℕ) (keeps : ι → Bool) (zero : (i : ι) → V i)

/-- The records of the ring, and those that were handed over, in their order. -/
structure Ring (V : ι → Type v) where
  slots : ℕ → (i : ι) → V i
  out : List ((i : ι) → V i)

/-- Parts that are not kept are cleared when the record is handed out. -/
def fill (r : (i : ι) → V i) (c : (i : ι) → Option (V i)) (i : ι) : V i :=
  (c i).getD (if keeps i then r i else zero i)

def push (r : Ring V) (c : (i : ι) → Option (V i)) : Ring V :=
  let e := fill keeps zero (r.slots (r.out.length % n)) c
  ⟨Function.update r.slots (r.out.length % n) e, r.out ++ [e]⟩

def start : Ring V := ⟨fun _ => zero, []⟩

def sent (cs : List ((i : ι) → Option (V i))) : List ((i : ι) → V i) :=
  (cs.foldl (push n keeps zero) (start zero)).out

/-- What the record of entry `k` holds before it is written. -/
def before (out : List ((i : ι) → V i)) (k : ℕ) : (i : ι) → V i :=
  if n ≤ k then (out[k - n]?).getD zero else zero

structure Inv (cs : List ((i : ι) → Option (V i))) (r : Ring V) : Prop where
  length : r.out.length = cs.length
  slots : ∀ k, r.out.length ≤ k → k < r.out.length + n → r.slots (k % n) = before n zero r.out k
  out : ∀ (k : ℕ) (c : (i : ι) → Option (V i)), cs[k]? = some c →
    r.out[k]? = some (fill keeps zero (before n zero r.out k) c)

variable {n keeps zero} {cs : List ((i : ι) → Option (V i))} {r : Ring V}

theorem inv_start : Inv n keeps zero [] (start zero) := by
  constructor
  · rfl
  · intro k _ hk
    have hlt : ¬ n ≤ k := by
      simp only [start, List.length_nil] at hk
      omega
    rw [before, if_neg hlt]
    rfl
  · intro k c hc
    cases hc

theorem before_append {out : List ((i : ι) → V i)} {e : (i : ι) → V i} {k : ℕ}
    (hk : k < out.length + n) : before n zero (out ++ [e]) k = before n zero out k := by
  unfold before
  by_cases hle : n ≤ k
  · rw [if_pos hle, if_pos hle, List.getElem?_append_left (by omega)]
  · rw [if_neg hle, if_neg hle]

theorem Inv.push (hn : 0 < n) (h : Inv n keeps zero cs r) (c : (i : ι) → Option (V i)) :
    Inv n keeps zero (cs ++ [c]) (push n keeps zero r c) := by
  have hnow := h.slots r.out.length le_rfl (by omega)
  constructor
  · simp [Slots.push, h.length]
  · intro k hlow hhigh
    simp only [Slots.push, List.length_append, List.length_singleton] at hlow hhigh ⊢
    by_cases hk : k = r.out.length + n
    · subst hk
      rw [Nat.add_mod_right, Function.update_self, before, if_pos (by omega), Nat.add_sub_cancel,
        List.getElem?_concat_length, Option.getD_some]
    · have hne : k % n ≠ r.out.length % n := by
        intro he
        have hdvd : n ∣ k - r.out.length := (Nat.modEq_iff_dvd' (by omega)).mp (Eq.symm he)
        have hle := Nat.le_of_dvd (by omega) hdvd
        omega
      rw [Function.update_of_ne hne, before_append (by omega)]
      exact h.slots k (by omega) (by omega)
  · intro k d hd
    simp only [Slots.push]
    by_cases hk : k < cs.length
    · rw [List.getElem?_append_left hk] at hd
      rw [List.getElem?_append_left (h.length ▸ hk), before_append (by rw [h.length]; omega)]
      exact h.out k d hd
    · have hlast : k = cs.length := by
        have hlt := (List.getElem?_eq_some_iff.mp hd).1
        rw [List.length_append, List.length_singleton] at hlt
        omega
      subst hlast
      rw [List.getElem?_concat_length] at hd
      obtain rfl := Option.some.inj hd
      rw [← h.length, List.getElem?_concat_length, before_append (by omega), hnow]

theorem inv_pushes (hn : 0 < n) (cs : List ((i : ι) → Option (V i))) :
    Inv n keeps zero cs (cs.foldl (Slots.push n keeps zero) (start zero)) := by
  induction cs using List.reverseRecOn with
  | nil => exact inv_start
  | append_singleton cs c ih =>
    rw [List.foldl_append]
    exact ih.push hn c

theorem sent_length (hn : 0 < n) : (sent n keeps zero cs).length = cs.length := (inv_pushes hn cs).length

theorem sent_get (hn : 0 < n) {k : ℕ} {c : (i : ι) → Option (V i)} (hc : cs[k]? = some c) :
    (sent n keeps zero cs)[k]? =
      some (fill keeps zero (before n zero (sent n keeps zero cs) k) c) := (inv_pushes hn cs).out k c hc

end Slots
