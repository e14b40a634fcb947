import GoUblksrv.Lib.Atomic

/-!
Two histories of the same operations, of the object and of whoever uses it through some
medium. Outside an operation begins no later and ends no earlier, and then what is a
linearization inside is one outside.
-/

namespace Atomic

variable {σ ι ρ : Type*} {apply : σ → ι → σ × ρ} {v w : σ} {outer inner : List (Event ι ρ)}
  {order : List (Entry ι ρ)} {k : ℕ} {r : ρ}

/-- The operation that the event belongs to. -/
def Event.id : Event ι ρ → ℕ
  | .invoke k _ | .respond k _ => k

/-- The operation that the event ends. -/
def Event.ends : Event ι ρ → Option ℕ
  | .invoke .. => none
  | .respond k _ => some k

theorem mem_ends {l : List (Event ι ρ)} : k ∈ l.filterMap Event.ends ↔ ∃ r, .respond k r ∈ l := by
  constructor
  · intro h
    obtain ⟨e, he, hk⟩ := List.mem_filterMap.mp h
    cases e with
    | invoke => cases hk
    | respond j r =>
      cases hk
      exact ⟨r, he⟩
  · rintro ⟨r, hr⟩
    exact List.mem_filterMap.mpr ⟨_, hr, rfl⟩

theorem nodup_ends {l : List (Event ι ρ)} {new : List (ℕ × ρ)} (h : (l.filterMap Event.ends).Nodup)
    (hnew : (new.map Prod.fst).Nodup) (hopen : ∀ x ∈ new, ∀ r, .respond x.1 r ∉ l) :
    ((l ++ new.map fun x => (.respond x.1 x.2 : Event ι ρ)).filterMap Event.ends).Nodup := by
  have hends : (new.map fun x => (.respond x.1 x.2 : Event ι ρ)).filterMap Event.ends = new.map Prod.fst := by
    induction new with
    | nil => rfl
    | cons x new ih =>
      have hrest := ih (List.nodup_cons.mp hnew).2 fun y hy => hopen y (List.mem_cons_of_mem x hy)
      exact congrArg (x.1 :: ·) hrest
  rw [List.filterMap_append, hends, List.nodup_append]
  refine ⟨h, hnew, ?_⟩
  rintro j hj k hk rfl
  obtain ⟨r, hr⟩ := mem_ends.mp hj
  obtain ⟨x, hx, rfl⟩ := List.mem_map.mp hk
  exact hopen x hx r hr

structure Encloses (outer inner : List (Event ι ρ)) : Prop where
  invoked : ∀ k op, .invoke k op ∈ inner → .invoke k op ∈ outer
  responded : ∀ k r, .respond k r ∈ outer → .respond k r ∈ inner
  order : ∀ j r k op, Precedes outer (.respond j r) (.invoke k op) → .invoke k op ∈ inner →
    Precedes inner (.respond j r) (.invoke k op)

theorem encloses_nil : Encloses ([] : List (Event ι ρ)) [] where
  invoked _ _ h := h
  responded _ _ h := h
  order _ _ _ _ h _ := h

theorem Encloses.invoke (h : Encloses outer inner) (k : ℕ) (op : ι) :
    Encloses (outer ++ [.invoke k op]) (inner ++ [.invoke k op]) where
  invoked j o hm := by
    rcases List.mem_append.mp hm with hm | hm
    · exact List.mem_append_left _ (h.invoked j o hm)
    · exact List.mem_append_right _ hm
  responded j r hm := by
    rcases List.mem_append.mp hm with hm | hm
    · exact List.mem_append_left _ (h.responded j r hm)
    · cases List.mem_singleton.mp hm
  order j r i o hp hm := by
    have last : ∀ {l : List (Event ι ρ)}, Event.respond j r ∈ l → (.invoke i o : Event ι ρ) = .invoke k op →
        Precedes (l ++ [.invoke k op]) (.respond j r) (.invoke i o) := by
      intro l hl he
      rw [he]
      exact precedes_last hl
    rcases hp.of_append with hp | ⟨hr, he⟩
    · rcases List.mem_append.mp hm with hm | hm
      · exact (h.order j r i o hp hm).append
      · exact last (h.responded j r hp.left_mem) (List.mem_singleton.mp hm)
    · exact last (h.responded j r hr) he

theorem Encloses.perform (h : Encloses outer inner) (k : ℕ) (r : ρ) :
    Encloses outer (inner ++ [.respond k r]) where
  invoked j o hm := by
    rcases List.mem_append.mp hm with hm | hm
    · exact h.invoked j o hm
    · cases List.mem_singleton.mp hm
  responded j q hm := List.mem_append_left _ (h.responded j q hm)
  order j q i o hp hm := by
    rcases List.mem_append.mp hm with hm | hm
    · exact (h.order j q i o hp hm).append
    · cases List.mem_singleton.mp hm

theorem Encloses.respond (h : Encloses outer inner) (hr : .respond k r ∈ inner) :
    Encloses (outer ++ [.respond k r]) inner where
  invoked j o hm := List.mem_append_left _ (h.invoked j o hm)
  responded j q hm := by
    rcases List.mem_append.mp hm with hm | hm
    · exact h.responded j q hm
    · rw [List.mem_singleton.mp hm]
      exact hr
  order j q i o hp hm := by
    rcases hp.of_append with hp | ⟨-, he⟩
    · exact h.order j q i o hp hm
    · cases he

theorem Encloses.responds (h : Encloses outer inner) {l : List (ℕ × ρ)}
    (hl : ∀ x ∈ l, .respond x.1 x.2 ∈ inner) : Encloses (outer ++ l.map fun x => .respond x.1 x.2) inner := by
  induction l generalizing outer with
  | nil =>
    rw [List.map_nil, List.append_nil]
    exact h
  | cons x l ih =>
    have hx := h.respond (hl x List.mem_cons_self)
    have hrest := ih hx fun y hy => hl y (List.mem_cons_of_mem x hy)
    rwa [List.append_assoc] at hrest

theorem Linearization.encloses (h : Linearization apply v w inner order) (he : Encloses outer inner) :
    Linearization apply v w outer order where
  legal := h.legal
  once := h.once
  invoked e hm := he.invoked _ _ (h.invoked e hm)
  responded k r hm := h.responded k r (he.responded k r hm)
  realTime e hm f hf hp := h.realTime e hm f hf (he.order _ _ _ _ hp (h.invoked f hf))

theorem Linearizable.encloses (h : Linearizable apply v w inner) (he : Encloses outer inner) :
    Linearizable apply v w outer := by
  obtain ⟨order, ho⟩ := h
  exact ⟨order, ho.encloses he⟩

end Atomic
