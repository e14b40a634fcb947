import Mathlib.Data.List.Basic
import Mathlib.Data.List.Count

/-!
Resources that are taken and given back: what is held after a list of entries, and which
releases were of something not held.
-/

inductive Entry (ρ : Type*)
  | acquire (r : ρ)
  | release (r : ρ)
  deriving DecidableEq, Repr

namespace Ledger

variable {ρ : Type*} [DecidableEq ρ]

def held (h : List ρ) : List (Entry ρ) → List ρ
  | [] => h
  | .acquire r :: es => held (r :: h) es
  | .release r :: es => held (h.erase r) es

def strays (h : List ρ) : List (Entry ρ) → List ρ
  | [] => []
  | .acquire r :: es => strays (r :: h) es
  | .release r :: es => if r ∈ h then strays (h.erase r) es else r :: strays h es

/-- Everything taken is given back, and nothing else is. -/
structure Settled (es : List (Entry ρ)) : Prop where
  held : held [] es = []
  strays : strays [] es = []

variable (h : List ρ) (es : List (Entry ρ)) (rs : List ρ) (r : ρ)

@[simp] theorem held_nil : held h [] = h := rfl

@[simp] theorem held_acquire : held h (.acquire r :: es) = held (r :: h) es := rfl

@[simp] theorem held_release : held h (.release r :: es) = held (h.erase r) es := rfl

@[simp] theorem strays_nil : strays h [] = [] := rfl

@[simp] theorem strays_acquire : strays h (.acquire r :: es) = strays (r :: h) es := rfl

theorem strays_release_of_mem {h : List ρ} (hr : r ∈ h) :
    strays h (.release r :: es) = strays (h.erase r) es := if_pos hr

theorem strays_release_of_not_mem {h : List ρ} (hr : r ∉ h) :
    strays h (.release r :: es) = r :: strays h es := if_neg hr

theorem held_append (es' : List (Entry ρ)) : held h (es ++ es') = held (held h es) es' := by
  induction es generalizing h with
  | nil => rfl
  | cons e es ih => cases e <;> exact ih _

theorem strays_append (es' : List (Entry ρ)) :
    strays h (es ++ es') = strays h es ++ strays (held h es) es' := by
  induction es generalizing h with
  | nil => rfl
  | cons e es ih =>
    cases e with
    | acquire r => exact ih _
    | release r =>
      by_cases hr : r ∈ h
      · rw [List.cons_append, strays_release_of_mem _ _ hr, strays_release_of_mem _ _ hr, ih, held_release]
      · rw [List.cons_append, strays_release_of_not_mem _ _ hr, strays_release_of_not_mem _ _ hr, ih,
          held_release, List.erase_of_not_mem hr, List.cons_append]

theorem count_held : (held h es).count r + es.count (.release r) =
    h.count r + es.count (.acquire r) + (strays h es).count r := by
  induction es generalizing h with
  | nil => simp
  | cons e es ih =>
    cases e with
    | acquire q =>
      have hq := ih (q :: h)
      simp only [held_acquire, strays_acquire, List.count_cons, beq_iff_eq, reduceCtorEq, if_false,
        Entry.acquire.injEq] at hq ⊢
      omega
    | release q =>
      by_cases hm : q ∈ h
      · have hq := ih (h.erase q)
        rw [held_release, strays_release_of_mem _ _ hm, List.count_cons, List.count_cons]
        by_cases hr : q = r
        · subst hr
          have hpos := List.count_pos_iff.mpr hm
          rw [List.count_erase_self] at hq
          simp only [beq_self_eq_true, if_true, beq_iff_eq, reduceCtorEq, if_false]
          omega
        · rw [List.count_erase_of_ne (Ne.symm hr)] at hq
          simp only [beq_iff_eq, Entry.release.injEq, hr, reduceCtorEq, if_false]
          omega
      · have hq := ih h
        rw [held_release, List.erase_of_not_mem hm, strays_release_of_not_mem _ _ hm]
        simp only [List.count_cons, beq_iff_eq, Entry.release.injEq, reduceCtorEq, if_false]
        omega

theorem Settled.count_eq {es : List (Entry ρ)} (hs : Settled es) :
    es.count (.release r) = es.count (.acquire r) := by
  have hc := count_held [] es r
  rw [hs.held, hs.strays] at hc
  simpa using hc

theorem held_map_acquire : held h (rs.map .acquire) = rs.reverse ++ h := by
  induction rs generalizing h with
  | nil => rfl
  | cons r rs ih => simp [ih]

theorem settled_map_acquire_iff : Settled (rs.map .acquire) ↔ rs = [] := by
  constructor
  · intro hs
    apply List.eq_nil_iff_forall_not_mem.mpr
    intro r hr
    have hcount := hs.count_eq r
    have hpos : 0 < (rs.map Entry.acquire).count (.acquire r) :=
      List.count_pos_iff.mpr (List.mem_map_of_mem hr)
    have hnone : (rs.map Entry.acquire).count (.release r) = 0 := by
      apply List.count_eq_zero.mpr
      simp
    omega
  · rintro rfl
    exact ⟨rfl, rfl⟩

end Ledger
