import GoUblksrv.Queue.Threads

/-!
Who owns a tag. The protocol is the purpose of the command stream, not a translation
of the code: a tag has at most one command with the driver, a delivered request owns
its tag until its commit is queued, and only the owner reads the descriptor, writes
the buffer and commits.
-/

namespace GoUblksrv.Queue

def Event.commits (rid : ℕ) : Event → Bool
  | .queue _ (some r) .commitAndFetchReq _ => r == rid
  | _ => false

def Event.uses (rid : ℕ) : Event → Bool
  | .queue _ (some r) _ _ => r == rid
  | .readDesc _ r => r == rid
  | .writeBuf _ r => r == rid
  | _ => false

inductive Phase
  | idle
  | driver
  | request (rid : ℕ)
  deriving DecidableEq, Repr

structure Ownership where
  phase : ℕ → Phase
  served : ℕ

namespace Ownership

def set (o : Ownership) (tag : ℕ) (ph : Phase) : Ownership :=
  { o with phase := Function.update o.phase tag ph }

def next (o : Ownership) : Event → Option Ownership
  | .queue tag (some rid) .commitAndFetchReq _ =>
    if o.phase tag = .request rid then some (o.set tag .driver) else none
  | .queue tag none op _ =>
    if o.phase tag = .idle ∧ op ≠ .commitAndFetchReq then some (o.set tag .driver) else none
  | .queue _ (some _) _ _ => none
  | .deliver tag rid =>
    if o.phase tag = .driver ∧ rid = o.served then
      some { o.set tag (.request rid) with served := o.served + 1 }
    else none
  | .complete tag => if o.phase tag = .driver then some (o.set tag .idle) else none
  | .readDesc tag rid | .writeBuf tag rid => if o.phase tag = .request rid then some o else none
  | .discardPages | .writeFd _ | .exit => some o

def protocol : Machine Ownership Event where
  init o := o = ⟨fun _ => .idle, 0⟩
  step := next

def Accepts (log : List Event) : Prop := ∃ o, protocol.run ⟨fun _ => .idle, 0⟩ log = some o

variable {o o' : Ownership} {e : Event} {rid : ℕ}

theorem run_settle (s : State) (o : Ownership) : protocol.run o (settle s).2 = some o := by
  have hrun : ∀ l : List Event, (∀ e ∈ l, next o e = some o) → protocol.run o l = some o := by
    intro l hl
    induction l with
    | nil => rfl
    | cons e l ih =>
      have hn : protocol.step o e = some o := hl e (by simp)
      rw [Machine.run_cons, hn]
      exact ih fun x hx => hl x (by simp [hx])
  refine hrun _ fun e he => ?_
  rcases settle_events s he with rfl | ⟨fd, rfl⟩ <;> rfl

theorem run_fetches (l : List Sqe) (hi : ∀ e ∈ l, o.phase e.cmd.tag = .idle)
    (hn : (l.map fun e => e.cmd.tag).Nodup) :
    ∃ o', protocol.run o (l.map fun e => .queue e.cmd.tag none .fetchReq e.cmd.result) = some o' ∧
      o'.served = o.served ∧ (∀ e ∈ l, o'.phase e.cmd.tag = .driver) ∧
      ∀ tag ∉ l.map (fun e => e.cmd.tag), o'.phase tag = o.phase tag := by
  induction l generalizing o with
  | nil => exact ⟨o, rfl, rfl, by simp, fun _ _ => rfl⟩
  | cons e l ih =>
    rw [List.map_cons, List.nodup_cons] at hn
    have hne : ∀ x ∈ l, x.cmd.tag ≠ e.cmd.tag := fun x hx he =>
      hn.1 (he ▸ List.mem_map_of_mem (f := fun e : Sqe => e.cmd.tag) hx)
    obtain ⟨o', hr, hs, hd, hrest⟩ := ih (o := o.set e.cmd.tag .driver)
      (fun x hx => by simpa [Ownership.set, hne x hx] using hi x (by simp [hx])) hn.2
    refine ⟨o', ?_, hs, ?_, ?_⟩
    · simpa [Machine.run_cons, protocol, next, hi e (by simp)] using hr
    · intro x hx
      rcases List.mem_cons.mp hx with rfl | hx
      · rw [hrest _ hn.1]
        simp [Ownership.set]
      · exact hd x hx
    · intro tag ht
      simp only [List.map_cons, List.mem_cons, not_or] at ht
      rw [hrest tag ht.2]
      simp [Ownership.set, ht.1]

structure Sound (o : Ownership) : Prop where
  served : ∀ tag rid, o.phase tag = .request rid → rid < o.served
  unique : ∀ i j rid, o.phase i = .request rid → o.phase j = .request rid → i = j

structure Released (o : Ownership) (rid : ℕ) : Prop where
  served : rid < o.served
  phase : ∀ tag, o.phase tag ≠ .request rid

inductive Moves (o : Ownership) : Event → Ownership → Prop
  | stay (e : Event) : (∀ rid, e.commits rid = false) →
      (∀ rid, e.uses rid = true → ∃ tag, o.phase tag = .request rid) → Moves o e o
  | command (tag : ℕ) (op : IoCmdOp) (res : Option Int32) :
      Moves o (.queue tag none op res) (o.set tag .driver)
  | commit (tag rid : ℕ) (res : Option Int32) : o.phase tag = .request rid →
      Moves o (.queue tag (some rid) .commitAndFetchReq res) (o.set tag .driver)
  | complete (tag : ℕ) : Moves o (.complete tag) (o.set tag .idle)
  | deliver (tag : ℕ) :
      Moves o (.deliver tag o.served) { o.set tag (.request o.served) with served := o.served + 1 }

theorem next_cases (h : next o e = some o') : Moves o e o' := by
  cases e with
  | queue tag r op res =>
    cases r with
    | none =>
      simp only [next] at h
      split_ifs at h
      cases h
      exact .command tag op res
    | some r =>
      cases op <;> simp only [next] at h <;> try cases h
      split_ifs at h with hp
      cases h
      exact .commit tag r res hp
  | deliver tag r =>
    simp only [next] at h
    split_ifs at h with hp
    cases h
    obtain ⟨-, rfl⟩ := hp
    exact .deliver tag
  | complete tag =>
    simp only [next] at h
    split_ifs at h
    cases h
    exact .complete tag
  | readDesc tag r | writeBuf tag r =>
    simp only [next] at h
    split_ifs at h with hp
    cases h
    refine .stay _ (fun _ => rfl) fun rid hu => ⟨tag, ?_⟩
    simp only [Event.uses, beq_iff_eq] at hu
    exact hu ▸ hp
  | discardPages | writeFd _ | exit =>
    cases h
    exact .stay _ (fun _ => rfl) (by simp [Event.uses])

theorem set_phase_request {tag i : ℕ} {ph : Phase} (hp : ∀ r, ph ≠ .request r)
    (h : (o.set tag ph).phase i = .request rid) : i ≠ tag ∧ o.phase i = .request rid := by
  by_cases hi : i = tag
  · subst hi
    simp [Ownership.set, hp rid] at h
  · exact ⟨hi, by simpa [Ownership.set, hi] using h⟩

theorem Sound.set {tag : ℕ} {ph : Phase} (h : Sound o) (hp : ∀ r, ph ≠ .request r) :
    Sound (o.set tag ph) :=
  ⟨fun _ _ hi => h.served _ _ (set_phase_request hp hi).2,
    fun _ _ _ hi hj => h.unique _ _ _ (set_phase_request hp hi).2 (set_phase_request hp hj).2⟩

theorem Sound.next (h : Sound o) (hn : next o e = some o') : Sound o' := by
  cases next_cases hn with
  | stay => exact h
  | command | commit | complete => exact h.set (by simp)
  | deliver tag =>
    have hold : ∀ i r, i ≠ tag → Function.update o.phase tag (.request o.served) i = .request r →
        r < o.served := by
      intro i r hi hr
      exact h.served i r (by simpa [hi] using hr)
    constructor
    · intro i r hr
      simp only [Ownership.set] at hr ⊢
      by_cases hi : i = tag
      · subst hi
        simp only [Function.update_self, Phase.request.injEq] at hr
        omega
      · have := hold i r hi hr
        omega
    · intro i j r hi hj
      simp only [Ownership.set] at hi hj
      by_cases hit : i = tag <;> by_cases hjt : j = tag
      · exact hit.trans hjt.symm
      · have := hold j r hjt hj
        rw [hit, Function.update_self, Phase.request.injEq] at hi
        omega
      · have := hold i r hit hi
        rw [hjt, Function.update_self, Phase.request.injEq] at hj
        omega
      · exact h.unique i j r (by simpa [hit] using hi) (by simpa [hjt] using hj)

theorem Released.next (h : Released o rid) (hn : next o e = some o') :
    Released o' rid ∧ e.uses rid = false := by
  have hset : ∀ tag ph, (∀ r, ph ≠ .request r) → Released (o.set tag ph) rid := fun tag ph hp =>
    ⟨h.served, fun i hi => h.phase i (set_phase_request hp hi).2⟩
  cases next_cases hn with
  | stay e _ hu =>
    refine ⟨h, ?_⟩
    by_contra hc
    obtain ⟨tag, ht⟩ := hu rid (by simpa using hc)
    exact h.phase tag ht
  | command => exact ⟨hset _ _ (by simp), rfl⟩
  | complete => exact ⟨hset _ _ (by simp), rfl⟩
  | commit tag r res hp =>
    refine ⟨hset _ _ (by simp), ?_⟩
    simp only [Event.uses, beq_eq_false_iff_ne]
    rintro rfl
    exact h.phase tag hp
  | deliver tag =>
    have hs := h.served
    refine ⟨⟨by simp only; omega, fun i hi => ?_⟩, rfl⟩
    simp only [Ownership.set] at hi
    by_cases hit : i = tag
    · subst hit
      simp only [Function.update_self, Phase.request.injEq] at hi
      omega
    · exact h.phase i (by simpa [hit] using hi)

theorem released_of_commit (h : Sound o) (hn : next o e = some o') (hc : e.commits rid = true) :
    Released o' rid := by
  cases next_cases hn with
  | stay e hno => simp [hno rid] at hc
  | commit tag r res hp =>
    obtain rfl : r = rid := by simpa [Event.commits] using hc
    refine ⟨h.served tag r hp, fun i hi => ?_⟩
    obtain ⟨hne, hi⟩ := set_phase_request (by simp) hi
    exact hne (h.unique i tag r hi hp)
  | command | complete | deliver => simp [Event.commits] at hc

theorem uses_of_commits (h : e.commits rid = true) : e.uses rid = true := by
  unfold Event.commits at h
  split at h
  · exact h
  · cases h

variable {l : List Event}

theorem Released.run (h : Released o rid) (hr : protocol.run o l = some o') :
    ∀ e ∈ l, e.uses rid = false := by
  induction l generalizing o with
  | nil => simp
  | cons e l ih =>
    rw [Machine.run_cons, Option.bind_eq_some_iff] at hr
    obtain ⟨o₁, hn, hr⟩ := hr
    obtain ⟨h₁, hu⟩ := h.next hn
    simpa [hu] using ih h₁ hr

theorem Sound.run (h : Sound o) (hr : protocol.run o l = some o') : Sound o' := by
  induction l generalizing o with
  | nil =>
    cases hr
    exact h
  | cons e l ih =>
    rw [Machine.run_cons, Option.bind_eq_some_iff] at hr
    obtain ⟨o₁, hn, hr⟩ := hr
    exact ih (h.next hn) hr

theorem Sound.commits_le_one (h : Sound o) (hr : protocol.run o l = some o') (rid : ℕ) :
    l.countP (Event.commits rid) ≤ 1 := by
  induction l generalizing o with
  | nil => simp
  | cons e l ih =>
    rw [Machine.run_cons, Option.bind_eq_some_iff] at hr
    obtain ⟨o₁, hn, hr⟩ := hr
    cases hc : e.commits rid with
    | false => simpa [hc] using ih (h.next hn) hr
    | true =>
      have hrest : l.countP (Event.commits rid) = 0 := by
        rw [List.countP_eq_zero]
        intro x hx hxc
        have := (released_of_commit h hn hc).run hr x hx
        simp [uses_of_commits hxc] at this
      simp [hc, hrest]

theorem sound_init : Sound ⟨fun _ => .idle, 0⟩ := ⟨by simp, by simp⟩

theorem Accepts.commits_le_one (h : Accepts l) (rid : ℕ) : l.countP (Event.commits rid) ≤ 1 := by
  obtain ⟨o, hr⟩ := h
  exact sound_init.commits_le_one hr rid

theorem Accepts.after_commit {l₁ l₂ : List Event} (h : Accepts (l₁ ++ e :: l₂))
    (hc : e.commits rid = true) : ∀ x ∈ l₂, x.uses rid = false := by
  obtain ⟨o, hr⟩ := h
  rw [Machine.run_append, Option.bind_eq_some_iff] at hr
  obtain ⟨o₁, h₁, hr⟩ := hr
  rw [Machine.run_cons, Option.bind_eq_some_iff] at hr
  obtain ⟨o₂, hn, hr⟩ := hr
  exact (released_of_commit (sound_init.run h₁) hn hc).run hr

end Ownership

end GoUblksrv.Queue
