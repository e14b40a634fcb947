import GoUblksrv.Lib.Machine

/-!
Forward simulation. A step of `M` is matched by a run of `N`, which may be empty, so what holds
in every state of `N` is known of the states that `M` reaches.
-/

namespace Machine

variable {σ τ α β : Type*}

structure Simulates (M : Machine σ α) (N : Machine τ β) (C : σ → α → Prop) (R : σ → τ → Prop) : Prop where
  init : ∀ s, M.init s → ∃ t, N.init t ∧ R s t
  step : ∀ s a s' t, M.Reach C s → C s a → M.step s a = some s' → R s t →
    ∃ bs t', N.run t bs = some t' ∧ R s' t'

variable {M : Machine σ α} {N : Machine τ β} {C : σ → α → Prop} {R : σ → τ → Prop} {s : σ}

theorem Simulates.reach (h : M.Simulates N C R) (hr : M.Reach C s) : ∃ t, N.Reach Free t ∧ R s t := by
  induction hr with
  | init hi =>
    obtain ⟨t, ht, hR⟩ := h.init _ hi
    exact ⟨t, .init ht, hR⟩
  | step hr hc hs ih =>
    obtain ⟨t, ht, hR⟩ := ih
    obtain ⟨bs, t', hrun, hR'⟩ := h.step _ _ _ t hr hc hs hR
    exact ⟨t', .of_run ht (fun _ _ _ => trivial) hrun, hR'⟩

end Machine
