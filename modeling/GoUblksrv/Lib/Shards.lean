import GoUblksrv.Lib.Program
import Mathlib.Logic.Function.Basic

/-!
Programs side by side in an environment of several parts. A query goes to one part, and its answer
depends on that part and changes it alone. What programs that keep to a part do, and what is then
in it, does not depend on the programs that keep to other parts.
-/

universe u

structure Shards (κ : Type*) (Q A : Type u) (σ ε : Type*) where
  key : Q → κ
  serve : σ → Q → ε → σ × A

namespace Shards

variable {κ ι σ ε : Type*} {Q A α : Type u} [DecidableEq κ] [DecidableEq ι]

structure State (κ ι σ : Type*) (Q A α : Type u) where
  parts : κ → σ
  progs : ι → Program Q A α

def step (E : Shards κ Q A σ ε) (s : State κ ι σ Q A α) (a : ι × ε) : Option (State κ ι σ Q A α) :=
  match s.progs a.1 with
  | .done _ => none
  | .ask q k =>
    let r := E.serve (s.parts (E.key q)) q a.2
    some ⟨Function.update s.parts (E.key q) r.1, Function.update s.progs a.1 (k r.2)⟩

def machine (E : Shards κ Q A σ ε) (s₀ : State κ ι σ Q A α) : Machine (State κ ι σ Q A α) (ι × ε) where
  init s := s = s₀
  step := E.step

variable {E : Shards κ Q A σ ε} {R : Q → A → Prop} {group : ι → κ} {n : κ} {s s' t s₀ : State κ ι σ Q A α}
  {i : ι} {e : ε} {as : List (ι × ε)}

theorem step_cases (h : E.step s (i, e) = some s') : ∃ q k, s.progs i = .ask q k ∧
    s' = ⟨Function.update s.parts (E.key q) (E.serve (s.parts (E.key q)) q e).1,
      Function.update s.progs i (k (E.serve (s.parts (E.key q)) q e).2)⟩ := by
  unfold step at h
  cases hp : s.progs i with
  | done a =>
    rw [hp] at h
    cases h
  | ask q k =>
    rw [hp] at h
    exact ⟨q, k, rfl, (Option.some.inj h).symm⟩

/-- Every program asks its own part only, with answers that satisfy `R`. -/
def Kept (E : Shards κ Q A σ ε) (R : Q → A → Prop) (group : ι → κ) (s : State κ ι σ Q A α) : Prop :=
  ∀ i, (s.progs i).Ensures (fun q => E.key q = group i) R fun _ => True

theorem Kept.step (h : E.Kept R group s) (hR : ∀ p q e, R q (E.serve p q e).2)
    (hs : E.step s (i, e) = some s') : E.Kept R group s' := by
  obtain ⟨q, k, hp, rfl⟩ := step_cases hs
  intro j
  by_cases hj : j = i
  · subst hj
    have hask := h j
    rw [hp] at hask
    dsimp only
    rw [Function.update_self]
    exact hask.2 _ (hR _ _ _)
  · dsimp only
    rw [Function.update_of_ne hj]
    exact h j

def Alike (group : ι → κ) (n : κ) (s t : State κ ι σ Q A α) : Prop :=
  s.parts n = t.parts n ∧ ∀ i, group i = n → s.progs i = t.progs i

theorem Alike.own (h : Alike group n s t) (hk : E.Kept R group s) (hi : group i = n)
    (hs : E.step s (i, e) = some s') : ∃ t', E.step t (i, e) = some t' ∧ Alike group n s' t' := by
  obtain ⟨q, k, hp, rfl⟩ := step_cases hs
  have hkey : E.key q = n := by
    have hask := hk i
    rw [hp] at hask
    exact hask.1.trans hi
  have hpt : t.progs i = .ask q k := (h.2 i hi).symm.trans hp
  refine ⟨_, by rw [step, hpt], ?_, ?_⟩
  · rw [hkey, h.1]
    simp
  · intro j hj
    rw [hkey, h.1]
    dsimp only
    by_cases hji : j = i
    · rw [hji, Function.update_self, Function.update_self]
    · rw [Function.update_of_ne hji, Function.update_of_ne hji]
      exact h.2 j hj

theorem Alike.other (h : Alike group n s t) (hk : E.Kept R group s) (hi : group i ≠ n)
    (hs : E.step s (i, e) = some s') : Alike group n s' t := by
  obtain ⟨q, k, hp, rfl⟩ := step_cases hs
  have hkey : E.key q = group i := by
    have hask := hk i
    rw [hp] at hask
    exact hask.1
  refine ⟨?_, ?_⟩
  · dsimp only
    rw [hkey, Function.update_of_ne hi.symm]
    exact h.1
  · intro j hj
    have hji : j ≠ i := fun he => hi (he ▸ hj)
    dsimp only
    rw [Function.update_of_ne hji]
    exact h.2 j hj

theorem Alike.run (h : Alike group n s t) (hk : E.Kept R group s) (hR : ∀ p q e, R q (E.serve p q e).2)
    (hr : (E.machine s₀).run s as = some s') :
    ∃ t', (E.machine s₀).run t (as.filter fun a => group a.1 = n) = some t' ∧ Alike group n s' t' := by
  induction as generalizing s t with
  | nil =>
    cases hr
    exact ⟨t, rfl, h⟩
  | cons a as ih =>
    rw [Machine.run_cons, Option.bind_eq_some_iff] at hr
    obtain ⟨s₁, hs, hr⟩ := hr
    have hk₁ : E.Kept R group s₁ := hk.step hR hs
    by_cases hi : group a.1 = n
    · obtain ⟨t₁, ht, h₁⟩ := h.own hk hi hs
      obtain ⟨t', hrun, h'⟩ := ih h₁ hk₁ hr
      refine ⟨t', ?_, h'⟩
      rw [List.filter_cons_of_pos (by simpa using hi), Machine.run_cons]
      exact Option.bind_eq_some_iff.mpr ⟨t₁, ht, hrun⟩
    · obtain ⟨t', hrun, h'⟩ := ih (h.other hk hi hs) hk₁ hr
      refine ⟨t', ?_, h'⟩
      rw [List.filter_cons_of_neg (by simpa using hi)]
      exact hrun

theorem still (hk : E.Kept R group s) (hR : ∀ p q e, R q (E.serve p q e).2)
    (hr : (E.machine s₀).run s as = some s') (hn : ∀ a ∈ as, group a.1 ≠ n) : Alike group n s' s := by
  have hrefl : Alike group n s s := ⟨rfl, fun _ _ => rfl⟩
  obtain ⟨t, hrun, h⟩ := hrefl.run hk hR hr
  have hnone : as.filter (fun a => group a.1 = n) = [] := by
    rw [List.filter_eq_nil_iff]
    intro a ha
    simpa using hn a ha
  rw [hnone] at hrun
  cases hrun
  exact h

theorem run_filter (hk : E.Kept R group s) (hR : ∀ p q e, R q (E.serve p q e).2)
    (hr : (E.machine s₀).run s as = some s') (n : κ) :
    ∃ t, (E.machine s₀).run s (as.filter fun a => group a.1 = n) = some t ∧ Alike group n s' t ∧
      ∀ m ≠ n, Alike group m t s := by
  have hrefl : Alike group n s s := ⟨rfl, fun _ _ => rfl⟩
  obtain ⟨t, hrun, h⟩ := hrefl.run hk hR hr
  refine ⟨t, hrun, h, ?_⟩
  intro m hm
  apply still hk hR hrun
  intro a ha
  have hown : group a.1 = n := by simpa using (List.mem_filter.mp ha).2
  rw [hown]
  exact hm.symm

end Shards
