import GoUblksrv.Lib.Machine
import Mathlib.Data.List.Nodup
import Mathlib.Logic.Function.Basic

/-!
Objects whose operations overlap in time. `Linearization` says that a history of invocations
and responses could as well come from the operations one after the other, in an order that
keeps each operation between its invocation and its response. The machine is the object that
applies an operation at one moment between the two; its histories all have a linearization, so
a system has one as soon as this machine simulates it.
-/

namespace Atomic

variable {σ ι ρ : Type*}

inductive Event (ι ρ : Type*)
  | invoke (k : ℕ) (op : ι)
  | respond (k : ℕ) (r : ρ)

structure Entry (ι ρ : Type*) where
  id : ℕ
  op : ι
  result : ρ

def Precedes {α : Type*} (l : List α) (x y : α) : Prop := List.Sublist [x, y] l

/-- The operations one after the other, each with the result that it has there. -/
def Legal (apply : σ → ι → σ × ρ) : σ → List (Entry ι ρ) → σ → Prop
  | v, [], w => v = w
  | v, e :: l, w => (apply v e.op).2 = e.result ∧ Legal apply (apply v e.op).1 l w

structure Linearization (apply : σ → ι → σ × ρ) (v w : σ) (history : List (Event ι ρ))
    (order : List (Entry ι ρ)) : Prop where
  legal : Legal apply v order w
  once : (order.map Entry.id).Nodup
  invoked : ∀ e ∈ order, .invoke e.id e.op ∈ history
  responded : ∀ k r, .respond k r ∈ history → ∃ op, ⟨k, op, r⟩ ∈ order
  realTime : ∀ e ∈ order, ∀ f ∈ order,
    Precedes history (.respond e.id e.result) (.invoke f.id f.op) → Precedes order e f

def Linearizable (apply : σ → ι → σ × ρ) (v w : σ) (history : List (Event ι ρ)) : Prop :=
  ∃ order, Linearization apply v w history order

inductive Phase (ι ρ : Type*)
  | idle
  | pending (op : ι)
  | applied (op : ι) (r : ρ)
  | done

structure State (σ ι ρ : Type*) where
  value : σ
  phase : ℕ → Phase ι ρ
  order : List (Entry ι ρ)
  history : List (Event ι ρ)

inductive Act (ι : Type*)
  | invoke (k : ℕ) (op : ι)
  | perform (k : ℕ)
  | respond (k : ℕ)

variable (apply : σ → ι → σ × ρ)

section

variable (s : State σ ι ρ) (k : ℕ) (op : ι) (r : ρ)

def State.invoke : State σ ι ρ :=
  { s with
    phase := Function.update s.phase k (.pending op)
    history := s.history ++ [.invoke k op] }

def State.perform : State σ ι ρ :=
  { s with
    value := (apply s.value op).1
    phase := Function.update s.phase k (.applied op (apply s.value op).2)
    order := s.order ++ [⟨k, op, (apply s.value op).2⟩] }

def State.respond : State σ ι ρ :=
  { s with
    phase := Function.update s.phase k .done
    history := s.history ++ [.respond k r] }

@[simp] theorem invoke_phase :
    (s.invoke k op).phase = Function.update s.phase k (.pending op) := rfl

@[simp] theorem invoke_order : (s.invoke k op).order = s.order := rfl

@[simp] theorem invoke_history : (s.invoke k op).history = s.history ++ [.invoke k op] := rfl

@[simp] theorem perform_phase :
    (s.perform apply k op).phase = Function.update s.phase k (.applied op (apply s.value op).2) := rfl

@[simp] theorem perform_order :
    (s.perform apply k op).order = s.order ++ [⟨k, op, (apply s.value op).2⟩] := rfl

@[simp] theorem perform_history : (s.perform apply k op).history = s.history := rfl

@[simp] theorem respond_phase : (s.respond k r).phase = Function.update s.phase k .done := rfl

@[simp] theorem respond_order : (s.respond k r).order = s.order := rfl

@[simp] theorem respond_history : (s.respond k r).history = s.history ++ [.respond k r] := rfl

end

def step (s : State σ ι ρ) : Act ι → Option (State σ ι ρ)
  | .invoke k op =>
    match s.phase k with
    | .idle => some (s.invoke k op)
    | _ => none
  | .perform k =>
    match s.phase k with
    | .pending op => some (s.perform apply k op)
    | _ => none
  | .respond k =>
    match s.phase k with
    | .applied _ r => some (s.respond k r)
    | _ => none

def start (v : σ) : State σ ι ρ := ⟨v, fun _ => .idle, [], []⟩

def machine (v : σ) : Machine (State σ ι ρ) (Act ι) where
  init s := s = start v
  step := step apply

section

variable {α : Type*} {l : List α} {x y z : α}

theorem Precedes.append (h : Precedes l x y) : Precedes (l ++ [z]) x y :=
  List.Sublist.trans h (List.sublist_append_left l [z])

theorem precedes_last (h : x ∈ l) : Precedes (l ++ [z]) x z :=
  (List.singleton_sublist.mpr h).append (List.Sublist.refl [z])

theorem Precedes.of_append (h : Precedes (l ++ [z]) x y) : Precedes l x y ∨ x ∈ l ∧ y = z := by
  obtain ⟨l₁, l₂, he, h₁, h₂⟩ := List.sublist_append_iff.mp h
  rcases List.sublist_singleton.mp h₂ with rfl | rfl
  · left
    rw [List.append_nil] at he
    rw [← he] at h₁
    exact h₁
  · right
    rw [← List.singleton_append] at he
    obtain ⟨hx, hy⟩ := List.append_inj' he rfl
    rw [← hx] at h₁
    exact ⟨List.singleton_sublist.mp h₁, List.singleton_inj.mp hy⟩

theorem Precedes.left_mem (h : Precedes l x y) : x ∈ l := h.subset List.mem_cons_self

end

variable {apply} {v w : σ} {s s' : State σ ι ρ} {a : Act ι}

theorem Legal.append {l : List (Entry ι ρ)} {e : Entry ι ρ} (h : Legal apply v l w)
    (he : (apply w e.op).2 = e.result) : Legal apply v (l ++ [e]) (apply w e.op).1 := by
  induction l generalizing v with
  | nil =>
    cases h
    exact ⟨he, rfl⟩
  | cons d l ih => exact ⟨h.1, ih h.2⟩

/-- How the phase of an operation is seen in the order and in the history. -/
structure Phased (s : State σ ι ρ) : Prop where
  fresh : ∀ k, s.phase k = .idle → (∀ e ∈ s.order, e.id ≠ k) ∧ ∀ op, .invoke k op ∉ s.history
  pending : ∀ k op, s.phase k = .pending op → .invoke k op ∈ s.history ∧ ∀ e ∈ s.order, e.id ≠ k
  applied : ∀ k op r, s.phase k = .applied op r → ⟨k, op, r⟩ ∈ s.order
  done : ∀ k r, .respond k r ∈ s.history → s.phase k = .done
  answered : ∀ k, s.phase k = .done → ∃ r, .respond k r ∈ s.history

structure Inv (apply : σ → ι → σ × ρ) (v : σ) (s : State σ ι ρ) : Prop where
  phased : Phased s
  linear : Linearization apply v s.value s.history s.order

theorem inv_start : Inv apply v (start v) where
  phased := ⟨by simp [start], by simp [start], by simp [start], by simp [start], by simp [start]⟩
  linear := ⟨rfl, by simp [start], by simp [start], by simp [start], by simp [start]⟩

/-- A step is seen only in the phase of its own operation. -/
structure Elsewhere (s s' : State σ ι ρ) (k : ℕ) : Prop where
  phase : ∀ j, j ≠ k → s'.phase j = s.phase j
  order : ∀ e : Entry ι ρ, e.id ≠ k → (e ∈ s'.order ↔ e ∈ s.order)
  invoke : ∀ j op, j ≠ k → (.invoke j op ∈ s'.history ↔ .invoke j op ∈ s.history)
  respond : ∀ j r, j ≠ k → (.respond j r ∈ s'.history ↔ .respond j r ∈ s.history)

section

variable {k : ℕ} {op : ι} {r : ρ}

theorem elsewhere_invoke : Elsewhere s (s.invoke k op) k where
  phase j hj := Function.update_of_ne hj _ _
  order _ _ := Iff.rfl
  invoke j op' hj := by simp [hj]
  respond j r hj := by simp

theorem elsewhere_perform : Elsewhere s (s.perform apply k op) k where
  phase j hj := Function.update_of_ne hj _ _
  order e he := by
    have hne : e ≠ ⟨k, op, (apply s.value op).2⟩ := by
      rintro rfl
      exact he rfl
    simp [hne]
  invoke _ _ _ := Iff.rfl
  respond _ _ _ := Iff.rfl

theorem elsewhere_respond : Elsewhere s (s.respond k r) k where
  phase j hj := Function.update_of_ne hj _ _
  order _ _ := Iff.rfl
  invoke j op hj := by simp
  respond j r' hj := by simp [hj]

end

theorem Phased.step {k : ℕ} (h : Phased s) (he : Elsewhere s s' k)
    (hfresh : s'.phase k = .idle → (∀ e ∈ s'.order, e.id ≠ k) ∧ ∀ op, .invoke k op ∉ s'.history)
    (hpending : ∀ op, s'.phase k = .pending op → .invoke k op ∈ s'.history ∧ ∀ e ∈ s'.order, e.id ≠ k)
    (happlied : ∀ op r, s'.phase k = .applied op r → ⟨k, op, r⟩ ∈ s'.order)
    (hdone : ∀ r, .respond k r ∈ s'.history → s'.phase k = .done)
    (hanswered : s'.phase k = .done → ∃ r, .respond k r ∈ s'.history) : Phased s' := by
  have horder : ∀ j, j ≠ k → (∀ e ∈ s.order, e.id ≠ j) → ∀ e ∈ s'.order, e.id ≠ j := by
    rintro j hj hall e hmem rfl
    exact hall e ((he.order e hj).mp hmem) rfl
  constructor
  · intro j hj
    by_cases hjk : j = k
    · subst hjk
      exact hfresh hj
    · obtain ⟨hord, hinv⟩ := h.fresh j ((he.phase j hjk).symm.trans hj)
      exact ⟨horder j hjk hord, fun op => mt (he.invoke j op hjk).mp (hinv op)⟩
  · intro j op hj
    by_cases hjk : j = k
    · subst hjk
      exact hpending op hj
    · obtain ⟨hinv, hord⟩ := h.pending j op ((he.phase j hjk).symm.trans hj)
      exact ⟨(he.invoke j op hjk).mpr hinv, horder j hjk hord⟩
  · intro j op r hj
    by_cases hjk : j = k
    · subst hjk
      exact happlied op r hj
    · exact (he.order ⟨j, op, r⟩ hjk).mpr (h.applied j op r ((he.phase j hjk).symm.trans hj))
  · intro j r hj
    by_cases hjk : j = k
    · subst hjk
      exact hdone r hj
    · exact (he.phase j hjk).trans (h.done j r ((he.respond j r hjk).mp hj))
  · intro j hj
    by_cases hjk : j = k
    · subst hjk
      exact hanswered hj
    · obtain ⟨r, hr⟩ := h.answered j ((he.phase j hjk).symm.trans hj)
      exact ⟨r, (he.respond j r hjk).mpr hr⟩

theorem Phased.undone {k : ℕ} (h : Phased s) (hk : s.phase k ≠ .done) (r : ρ) : .respond k r ∉ s.history :=
  fun hr => hk (h.done k r hr)

theorem Inv.invoke {k : ℕ} {op : ι} (hi : Inv apply v s) (hp : s.phase k = .idle) :
    Inv apply v (s.invoke k op) := by
  obtain ⟨hfresh, hnew⟩ := hi.phased.fresh k hp
  constructor
  · apply hi.phased.step elsewhere_invoke
    · simp
    · intro op' hk
      obtain rfl : op = op' := by simpa using hk
      exact ⟨by simp, hfresh⟩
    · simp
    · intro r hr
      exact absurd (by simpa using hr) (hi.phased.undone (by simp [hp]) r)
    · simp
  · constructor
    · exact hi.linear.legal
    · exact hi.linear.once
    · intro e he
      exact List.mem_append_left _ (hi.linear.invoked e he)
    · intro j r hj
      exact hi.linear.responded j r (by simpa using hj)
    · intro e he f hf h
      rcases h.of_append with h | ⟨-, h⟩
      · exact hi.linear.realTime e he f hf h
      · cases h
        exact absurd rfl (hfresh f hf)

theorem Inv.perform {k : ℕ} {op : ι} (hi : Inv apply v s) (hp : s.phase k = .pending op) :
    Inv apply v (s.perform apply k op) := by
  obtain ⟨hinv, hfresh⟩ := hi.phased.pending k op hp
  have hundone : ∀ r, .respond k r ∉ s.history := hi.phased.undone (by simp [hp])
  constructor
  · apply hi.phased.step elsewhere_perform
    · simp
    · simp
    · intro op' r hk
      obtain ⟨rfl, rfl⟩ : op = op' ∧ (apply s.value op).2 = r := by simpa using hk
      simp
    · intro r hr
      exact absurd hr (hundone r)
    · simp
  · constructor
    · exact hi.linear.legal.append rfl
    · rw [perform_order, List.map_append, List.map_singleton, List.nodup_append]
      refine ⟨hi.linear.once, List.nodup_singleton _, ?_⟩
      intro i hi' j hj
      obtain ⟨e, he, rfl⟩ := List.mem_map.mp hi'
      rw [List.mem_singleton.mp hj]
      exact hfresh e he
    · intro e he
      rcases List.mem_append.mp he with he | he
      · exact hi.linear.invoked e he
      · rw [List.mem_singleton.mp he]
        exact hinv
    · intro j r hj
      obtain ⟨op', hop⟩ := hi.linear.responded j r hj
      exact ⟨op', List.mem_append_left _ hop⟩
    · intro e he f hf h
      rcases List.mem_append.mp he with he | he
      · rcases List.mem_append.mp hf with hf | hf
        · exact (hi.linear.realTime e he f hf h).append
        · rw [List.mem_singleton.mp hf]
          exact precedes_last he
      · rw [List.mem_singleton.mp he] at h
        exact absurd h.left_mem (hundone _)

theorem Inv.respond {k : ℕ} {op : ι} {r : ρ} (hi : Inv apply v s) (hp : s.phase k = .applied op r) :
    Inv apply v (s.respond k r) := by
  have hmem := hi.phased.applied k op r hp
  constructor
  · apply hi.phased.step elsewhere_respond
    · simp
    · simp
    · simp
    · simp
    · intro _
      exact ⟨r, by simp⟩
  · constructor
    · exact hi.linear.legal
    · exact hi.linear.once
    · intro e he
      exact List.mem_append_left _ (hi.linear.invoked e he)
    · intro j r' hj
      rcases List.mem_append.mp hj with hj | hj
      · exact hi.linear.responded j r' hj
      · cases List.mem_singleton.mp hj
        exact ⟨op, hmem⟩
    · intro e he f hf h
      rcases h.of_append with h | ⟨-, h⟩
      · exact hi.linear.realTime e he f hf h
      · cases h

theorem Inv.step (hi : Inv apply v s) (h : Atomic.step apply s a = some s') : Inv apply v s' := by
  cases a with
  | invoke k op =>
    simp only [Atomic.step] at h
    split at h
    · rename_i hp
      cases h
      exact hi.invoke hp
    · cases h
  | perform k =>
    simp only [Atomic.step] at h
    split at h
    · rename_i op hp
      cases h
      exact hi.perform hp
    · cases h
  | respond k =>
    simp only [Atomic.step] at h
    split at h
    · rename_i op r hp
      cases h
      exact hi.respond hp
    · cases h

theorem inv_reach (h : (machine apply v).Reach Machine.Free s) : Inv apply v s := by
  apply h.invariant
  · rintro t rfl
    exact inv_start
  · intro t b t' _ hi _ hs
    exact hi.step hs

section

variable {k : ℕ} {op : ι} {r : ρ}

theorem run_invoke (h : s.phase k = .idle) :
    (machine apply v).run s [.invoke k op] = some (s.invoke k op) := by
  simp only [Machine.run_cons, Machine.run_nil, machine, Atomic.step, h]
  rfl

theorem run_perform (h : s.phase k = .pending op) :
    (machine apply v).run s [.perform k] = some (s.perform apply k op) := by
  simp only [Machine.run_cons, Machine.run_nil, machine, Atomic.step, h]
  rfl

theorem run_respond (h : s.phase k = .applied op r) :
    (machine apply v).run s [.respond k] = some (s.respond k r) := by
  simp only [Machine.run_cons, Machine.run_nil, machine, Atomic.step, h]
  rfl

end

theorem linearizable_reach (h : (machine apply v).Reach Machine.Free s) :
    Linearizable apply v s.value s.history :=
  ⟨s.order, (inv_reach h).linear⟩

end Atomic
