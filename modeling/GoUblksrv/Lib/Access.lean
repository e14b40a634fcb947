import Mathlib.Data.Set.Insert

inductive Access (φ : Type*)
  | read (f : φ)
  | write (f : φ)

namespace Access

variable {φ : Type*} {w v : Set φ} {l m : List (Access φ)} {f : φ}

/-- Every read is of a cell in `w` or of one written before. -/
def WrittenFirst (w : Set φ) : List (Access φ) → Prop
  | [] => True
  | .read f :: l => f ∈ w ∧ WrittenFirst w l
  | .write f :: l => WrittenFirst (insert f w) l

def written (w : Set φ) : List (Access φ) → Set φ
  | [] => w
  | .read _ :: l => written w l
  | .write f :: l => written (insert f w) l

theorem mem_written : f ∈ written w l ↔ f ∈ w ∨ .write f ∈ l := by
  induction l generalizing w with
  | nil => simp [written]
  | cons a l ih =>
    cases a with
    | read g => simp [written, ih]
    | write g => simp [written, ih, or_assoc, or_left_comm]

theorem subset_written : w ⊆ written w l := fun _ h => mem_written.mpr (.inl h)

theorem writtenFirst_append :
    WrittenFirst w (l ++ m) ↔ WrittenFirst w l ∧ WrittenFirst (written w l) m := by
  induction l generalizing w with
  | nil => simp [WrittenFirst, written]
  | cons a l ih =>
    cases a with
    | read g => simp [WrittenFirst, written, ih, and_assoc]
    | write g => simp [WrittenFirst, written, ih]

def ReadsIn (w : Set φ) (l : List (Access φ)) : Prop := ∀ f, .read f ∈ l → f ∈ w

@[simp] theorem readsIn_nil : ReadsIn w [] := by simp [ReadsIn]

@[simp] theorem readsIn_read : ReadsIn w (.read f :: l) ↔ f ∈ w ∧ ReadsIn w l := by
  simp [ReadsIn]

@[simp] theorem readsIn_write : ReadsIn w (.write f :: l) ↔ ReadsIn w l := by simp [ReadsIn]

@[simp] theorem readsIn_append : ReadsIn w (l ++ m) ↔ ReadsIn w l ∧ ReadsIn w m := by
  simp [ReadsIn, or_imp, forall_and]

@[simp] theorem readsIn_ite {c : Prop} [Decidable c] :
    ReadsIn w (if c then l else m) ↔ (c → ReadsIn w l) ∧ (¬ c → ReadsIn w m) := by
  by_cases hc : c
  · simp [hc]
  · simp [hc]

theorem readsIn_map {ι : Type*} {is : List ι} {g : ι → φ} (h : ∀ i ∈ is, g i ∈ w) :
    ReadsIn w (is.map fun i => .read (g i)) := by
  intro f hf
  obtain ⟨i, hi, he⟩ := List.mem_map.mp hf
  cases he
  exact h i hi

theorem ReadsIn.writtenFirst (h : ReadsIn w l) : WrittenFirst w l := by
  induction l generalizing w with
  | nil => trivial
  | cons a l ih =>
    cases a with
    | read g =>
      rw [readsIn_read] at h
      exact ⟨h.1, ih h.2⟩
    | write g =>
      apply ih
      intro f hf
      exact Set.mem_insert_of_mem _ (h f (by simp [hf]))

theorem WrittenFirst.head (h : WrittenFirst w (l ++ .read f :: m)) (hl : .write f ∉ l) : f ∈ w := by
  have hread := (writtenFirst_append.mp h).2.1
  exact (mem_written.mp hread).resolve_right hl

end Access
