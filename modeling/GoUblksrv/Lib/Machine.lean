import Mathlib.Data.List.Basic
import Mathlib.Data.Option.Basic

/-!
Step machines: a state type, the actions of the scheduler and of the
environment, and a partial step function. A run is conditional on a predicate
`C` of the state and the action of each of its steps, so that a property can be
stated for the runs that never leave `C`.
-/

structure Machine (σ α : Type*) where
  init : σ → Prop
  step : σ → α → Option σ

namespace Machine

variable {σ α : Type*} {M : Machine σ α} {C D : σ → α → Prop} {s s' : σ} {a : α}

/-- The states of the runs of `M` all of whose steps satisfy `C`. -/
inductive Reach (M : Machine σ α) (C : σ → α → Prop) : σ → Prop
  | init {s : σ} : M.init s → Reach M C s
  | step {s s' : σ} {a : α} : Reach M C s → C s a → M.step s a = some s' → Reach M C s'

def Free : σ → α → Prop := fun _ _ => True

theorem Reach.mono (h : M.Reach C s) (hcd : ∀ t a, C t a → D t a) : M.Reach D s := by
  induction h with
  | init hi => exact .init hi
  | step _ hc hs ih => exact .step ih (hcd _ _ hc) hs

theorem Reach.free (h : M.Reach C s) : M.Reach Free s := h.mono fun _ _ _ => trivial

theorem Reach.invariant {I : σ → Prop} (h : M.Reach C s) (h0 : ∀ t, M.init t → I t)
    (hs : ∀ t a t', M.Reach C t → I t → C t a → M.step t a = some t' → I t') : I s := by
  induction h with
  | init hi => exact h0 _ hi
  | step hr hc hst ih => exact hs _ _ _ hr ih hc hst

def run (M : Machine σ α) (s : σ) (as : List α) : Option σ := as.foldlM M.step s

@[simp] theorem run_nil : M.run s [] = some s := rfl

theorem run_cons (as : List α) : M.run s (a :: as) = (M.step s a).bind (fun t => M.run t as) := rfl

theorem run_append (as bs : List α) :
    M.run s (as ++ bs) = (M.run s as).bind (fun t => M.run t bs) := by
  simp only [run, List.foldlM_append]
  rfl

theorem run_invariant {I : σ → Prop} {as : List α} (hs : ∀ t a t', I t → M.step t a = some t' → I t')
    (h : I s) (hr : M.run s as = some s') : I s' := by
  induction as generalizing s with
  | nil =>
    cases hr
    exact h
  | cons a as ih =>
    rw [run_cons, Option.bind_eq_some_iff] at hr
    obtain ⟨t, ht, hr⟩ := hr
    exact ih (hs s a t h ht) hr

theorem Reach.of_run {as : List α} (h : M.Reach C s) (hc : ∀ a ∈ as, ∀ t, C t a)
    (hr : M.run s as = some s') : M.Reach C s' := by
  induction as generalizing s with
  | nil =>
    simp only [run_nil, Option.some.injEq] at hr
    exact hr ▸ h
  | cons a as ih =>
    rw [run_cons, Option.bind_eq_some_iff] at hr
    obtain ⟨t, ht, hr⟩ := hr
    exact ih (.step h (hc a (by simp) s) ht) (fun b hb => hc b (by simp [hb])) hr

def runIf (M : Machine σ α) (c : σ → α → Bool) (s : σ) (as : List α) : Option σ :=
  as.foldlM (fun t a => if c t a then M.step t a else none) s

theorem Reach.of_runIf {c : σ → α → Bool} {as : List α} (h : M.Reach C s)
    (hc : ∀ t a, c t a = true → C t a) (hr : M.runIf c s as = some s') : M.Reach C s' := by
  induction as generalizing s with
  | nil =>
    simp only [runIf, List.foldlM_nil, Option.pure_def, Option.some.injEq] at hr
    exact hr ▸ h
  | cons a as ih =>
    simp only [runIf, List.foldlM_cons] at hr
    obtain ⟨t, ht, hr⟩ := Option.bind_eq_some_iff.mp hr
    split_ifs at ht with hca
    exact ih (.step h (hc s a hca) ht) hr

/-- `M` with a history variable, which no step reads. -/
def observe {η : Type*} (M : Machine σ α) (h₀ : η) (next : σ → α → η → η) : Machine (σ × η) α where
  init p := M.init p.1 ∧ p.2 = h₀
  step p a := (M.step p.1 a).map fun s => (s, next p.1 a p.2)

theorem Reach.of_observe {η : Type*} {h₀ : η} {next : σ → α → η → η} {C : σ × η → α → Prop} {p : σ × η}
    (h : (M.observe h₀ next).Reach C p) : M.Reach Free p.1 := by
  induction h with
  | init hi => exact .init hi.1
  | step _ _ hs ih =>
    obtain ⟨t, ht, rfl⟩ := Option.map_eq_some_iff.mp hs
    exact .step ih trivial ht

theorem run_congr {β : Type*} {f : σ → β} {I : σ → Prop} (hI : ∀ s a t, I s → M.step s a = some t → I t)
    (hf : ∀ s t a, I s → I t → f s = f t → (M.step s a).map f = (M.step t a).map f) (as : List α)
    {t : σ} (hs : I s) (ht : I t) (h : f s = f t) : (M.run s as).map f = (M.run t as).map f := by
  induction as generalizing s t with
  | nil => simp [h]
  | cons a as ih =>
    have hstep := hf s t a hs ht h
    rw [run_cons, run_cons]
    cases hs' : M.step s a with
    | none =>
      cases ht' : M.step t a with
      | none => rfl
      | some t' => simp [hs', ht'] at hstep
    | some s' =>
      cases ht' : M.step t a with
      | none => simp [hs', ht'] at hstep
      | some t' =>
        rw [hs', ht'] at hstep
        exact ih (hI s a s' hs hs') (hI t a t' ht ht') (Option.some.inj hstep)

end Machine
