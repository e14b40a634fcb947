import GoUblksrv.Lib.Machine

/-!
Runs that must end. The actions of a set `A` are those that the system takes by itself;
a measure that each of them lowers bounds the runs they make, and such a run can always be
carried on to a state where none of them is possible.
-/

namespace Machine

variable {σ α : Type*} {M : Machine σ α} {A : α → Prop} {I : σ → Prop} {μ : σ → ℕ} {s s' : σ}
  {as bs : List α}

def Quiet (M : Machine σ α) (A : α → Prop) (s : σ) : Prop := ∀ a, A a → M.step s a = none

/-- Every step by an action of `A` lowers `μ`, and keeps the invariant that this rests on. -/
structure Lowers (M : Machine σ α) (A : α → Prop) (I : σ → Prop) (μ : σ → ℕ) : Prop where
  keeps : ∀ s a s', I s → A a → M.step s a = some s' → I s'
  lowers : ∀ s a s', I s → A a → M.step s a = some s' → μ s' < μ s

theorem Lowers.run_add_le (h : M.Lowers A I μ) (hi : I s) (ha : ∀ a ∈ as, A a)
    (hr : M.run s as = some s') : I s' ∧ as.length + μ s' ≤ μ s := by
  induction as generalizing s with
  | nil =>
    cases hr
    exact ⟨hi, by simp⟩
  | cons a as ih =>
    rw [run_cons, Option.bind_eq_some_iff] at hr
    obtain ⟨t, ht, hr⟩ := hr
    have hA := ha a List.mem_cons_self
    have hlt := h.lowers s a t hi hA ht
    obtain ⟨hi', hle⟩ := ih (h.keeps s a t hi hA ht) (fun b hb => ha b (List.mem_cons_of_mem a hb)) hr
    refine ⟨hi', ?_⟩
    rw [List.length_cons]
    omega

theorem Lowers.run_length_le (h : M.Lowers A I μ) (hi : I s) (ha : ∀ a ∈ as, A a)
    (hr : M.run s as = some s') : as.length ≤ μ s := by
  have hle := (h.run_add_le hi ha hr).2
  omega

theorem Lowers.exists_quiet (h : M.Lowers A I μ) (hi : I s) :
    ∃ as s', (∀ a ∈ as, A a) ∧ M.run s as = some s' ∧ M.Quiet A s' := by
  induction hn : μ s using Nat.strongRecOn generalizing s with
  | ind n ih =>
    by_cases hq : M.Quiet A s
    · exact ⟨[], s, by simp, rfl, hq⟩
    · simp only [Quiet, not_forall] at hq
      obtain ⟨a, ha, hs⟩ := hq
      obtain ⟨t, ht⟩ := Option.ne_none_iff_exists'.mp hs
      have hlt := h.lowers s a t hi ha ht
      obtain ⟨as, s', has, hr, hq⟩ := ih (μ t) (by omega) (h.keeps s a t hi ha ht) rfl
      refine ⟨a :: as, s', ?_, ?_, hq⟩
      · intro b hb
        rcases List.mem_cons.mp hb with rfl | hb
        · exact ha
        · exact has b hb
      · rw [run_cons, ht]
        exact hr

end Machine
