import Mathlib.Algebra.GroupWithZero.Nat
import Mathlib.Data.List.Basic
import Mathlib.Data.List.Count
import Mathlib.Tactic.SplitIfs

namespace List

variable {α : Type*} {l : List α} {i : ℕ} {a b : α} {p : α → Bool}

theorem countP_set_of_get (h : l[i]? = some a) :
    (l.set i b).countP p + (p a).toNat = l.countP p + (p b).toNat := by
  induction l generalizing i with
  | nil => simp at h
  | cons c l ih =>
    cases i with
    | zero =>
      simp only [getElem?_cons_zero, Option.some.injEq] at h
      subst h
      cases hc : p c <;> cases hb : p b <;> simp [hc, hb]
    | succ i =>
      have := ih (by simpa using h)
      simp only [set_cons_succ, countP_cons]
      omega

theorem countP_set_keep (h : l[i]? = some a) (hp : p b = p a) : (l.set i b).countP p = l.countP p := by
  have := countP_set_of_get (b := b) (p := p) h
  rw [hp] at this
  omega

theorem countP_eraseIdx_of_get (h : l[i]? = some a) :
    (l.eraseIdx i).countP p + (p a).toNat = l.countP p := by
  induction l generalizing i with
  | nil => simp at h
  | cons c l ih =>
    cases i with
    | zero =>
      simp only [getElem?_cons_zero, Option.some.injEq] at h
      subst h
      cases hc : p c <;> simp [hc]
    | succ i =>
      have := ih (by simpa using h)
      simp only [eraseIdx_cons_succ, countP_cons]
      omega

theorem sum_map_set_of_get {f : α → ℕ} (h : l[i]? = some a) :
    ((l.set i b).map f).sum + f a = (l.map f).sum + f b := by
  induction l generalizing i with
  | nil => simp at h
  | cons c l ih =>
    cases i with
    | zero =>
      simp only [getElem?_cons_zero, Option.some.injEq] at h
      subst h
      simp only [set_cons_zero, map_cons, sum_cons]
      omega
    | succ i =>
      have := ih (by simpa using h)
      simp only [set_cons_succ, map_cons, sum_cons]
      omega

theorem sum_map_eraseIdx_of_get {f : α → ℕ} (h : l[i]? = some a) :
    ((l.eraseIdx i).map f).sum + f a = (l.map f).sum := by
  induction l generalizing i with
  | nil => simp at h
  | cons c l ih =>
    cases i with
    | zero =>
      simp only [getElem?_cons_zero, Option.some.injEq] at h
      subst h
      simp only [eraseIdx_cons_zero, map_cons, sum_cons]
      omega
    | succ i =>
      have := ih (by simpa using h)
      simp only [eraseIdx_cons_succ, map_cons, sum_cons]
      omega

theorem countP_le_add {q r : α → Bool} (h : ∀ x ∈ l, p x = true → q x = true ∨ r x = true) :
    l.countP p ≤ l.countP q + l.countP r := by
  induction l with
  | nil => simp
  | cons c l ih =>
    have hl := ih fun x hx => h x (by simp [hx])
    have hc := h c (by simp)
    simp only [countP_cons]
    split_ifs at * <;> first | omega | simp_all

theorem countP_add_le {q r : α → Bool}
    (h : ∀ x ∈ l, (p x = true → r x = true ∧ q x = false) ∧ (q x = true → r x = true)) :
    l.countP p + l.countP q ≤ l.countP r := by
  induction l with
  | nil => simp
  | cons c l ih =>
    have hl := ih fun x hx => h x (by simp [hx])
    have hc := h c (by simp)
    simp only [countP_cons]
    split_ifs at * <;> first | omega | simp_all

theorem countP_modify (f : α → α) (h : ∀ x, p (f x) = p x) : (l.modify i f).countP p = l.countP p := by
  induction l generalizing i with
  | nil => simp
  | cons c l ih =>
    cases i with
    | zero => simp [countP_cons, h]
    | succ i => simp [countP_cons, ih]

theorem get_set_cases {j : ℕ} {x : α} (h : (l.set i b)[j]? = some x) :
    j = i ∧ x = b ∨ j ≠ i ∧ l[j]? = some x := by
  rw [getElem?_set] at h
  split_ifs at h with hij
  · exact .inl ⟨hij.symm, (Option.some.inj h).symm⟩
  · exact .inr ⟨fun he => hij he.symm, h⟩

theorem get_append_cases {j : ℕ} {x : α} (h : (l ++ [b])[j]? = some x) :
    l[j]? = some x ∨ j = l.length ∧ x = b := by
  rw [getElem?_append] at h
  split_ifs at h with hj
  · exact .inl h
  · rw [getElem?_singleton] at h
    split_ifs at h with h0
    exact .inr ⟨by omega, (Option.some.inj h).symm⟩

theorem elim_set_of_get {β : Type*} {z : β} {f : α → β} (h : l[i]? = some a) (j : ℕ) :
    (l.set i b)[j]?.elim z f = if j = i then f b else l[j]?.elim z f := by
  split_ifs with hj
  · subst hj
    rw [getElem?_set_self (getElem?_eq_some_iff.mp h).1]
    rfl
  · rw [getElem?_set_ne (Ne.symm hj)]

theorem countP_pos_of_get (h : l[i]? = some a) (hp : p a = true) : 0 < l.countP p :=
  countP_pos_iff.mpr ⟨a, mem_of_getElem? h, hp⟩

theorem forall_mem_set {P : α → Prop} (h : ∀ x ∈ l, P x) (hb : P b) : ∀ x ∈ l.set i b, P x := by
  intro x hx
  rcases mem_or_eq_of_mem_set hx with hx | rfl
  · exact h x hx
  · exact hb

theorem mem_eraseIdx_of_ne {x : α} (h : l[i]? = some a) (hx : x ∈ l) (hne : x ≠ a) :
    x ∈ l.eraseIdx i := by
  obtain ⟨j, hj⟩ := mem_iff_getElem?.mp hx
  have hij : j ≠ i := by
    rintro rfl
    exact hne (Option.some.inj (hj.symm.trans h))
  exact mem_eraseIdx_iff_getElem?.mpr ⟨j, hij, hj⟩

theorem mem_set_of_ne {x : α} (h : l[i]? = some a) (hx : x ∈ l) (hne : x ≠ a) : x ∈ l.set i b := by
  obtain ⟨j, hj⟩ := mem_iff_getElem?.mp hx
  have hij : i ≠ j := by
    rintro rfl
    exact hne (Option.some.inj (hj.symm.trans h))
  exact mem_iff_getElem?.mpr ⟨j, (getElem?_set_ne hij).trans hj⟩

theorem mem_set_of_eraseIdx {x : α} (h : x ∈ l.set i b) : x = b ∨ x ∈ l.eraseIdx i := by
  induction l generalizing i with
  | nil => simp at h
  | cons c l ih =>
    cases i with
    | zero =>
      simp only [set_cons_zero, mem_cons] at h
      exact h
    | succ i =>
      simp only [set_cons_succ, mem_cons] at h
      rcases h with rfl | h
      · exact .inr (by simp)
      · rcases ih h with rfl | h
        · exact .inl rfl
        · exact .inr (by simp [h])

end List
