import GoUblksrv.Queue.Stopping
import GoUblksrv.Service.Progress

namespace GoUblksrv.Service

open Store (IOHandler Disk)
open Queue (twoTags)

variable {τ : Type*} {H : IOHandler τ} {info : Queue.DevInfo} {s s' u : State τ} {a : Act} {v₀ : τ}
  {size : Int64} {I : τ → Prop} {contents : τ → Disk} {punch : Disk → ℕ → ℕ → Disk}
  {maxIoBufBytes : UInt32} {Q Q' : Queue.State} {q : ℕ}

def Act.closes : Act → Bool
  | .queue _ (.submit _) | .queue _ (.waitCqe _) => true
  | .queue _ (.reap _ res _) => res == ublkIoResAbort
  | a => a.own

/-- The driver can still stop the queue: it has stopped, or one of its tags is not lost. -/
def Stoppable (info : Queue.DevInfo) (Q : Queue.State) : Prop :=
  Q.mem.stopping = true ∨ Q.lost < info.queueDepth.toNat

theorem closes_of_own (ha : Own a) : a.closes = true := by
  cases a with
  | queue q b => cases b <;> first | exact ha | cases ha
  | request | go | call | task => rfl

theorem orderly_closes (ha : a.closes = true) : Orderly size maxIoBufBytes s a := by
  cases a with
  | queue q b =>
    cases b with
    | submit | waitCqe => exact ⟨rfl, rfl⟩
    | reap i res iod =>
      obtain rfl : res = ublkIoResAbort := by simpa [Act.closes] using ha
      have hok : (ublkIoResAbort != ublkIoResOk) = true := by decide
      have hdrift : (ublkIoResAbort == ublkIoResNeedGetData) = false := by decide
      exact ⟨by rw [Within, admitted, hok, Bool.true_or], hdrift⟩
    | thread | reapEnd => exact ⟨rfl, rfl⟩
    | spurious | onRequest | task => cases ha
  | request | go | call | task => exact ⟨rfl, rfl⟩

theorem reach_closes {as : List Act} (h : (machine H info v₀).Reach (Orderly size maxIoBufBytes) s)
    (ha : ∀ a ∈ as, a.closes = true) (hr : (machine H info v₀).run s as = some s') :
    (machine H info v₀).Reach (Orderly size maxIoBufBytes) s' :=
  .of_run h (fun a hm _ => orderly_closes (ha a hm)) hr

/-- A step of the server is at most one step of the process for each queue. -/
def Moved (Q Q' : Queue.State) : Prop := Q' = Q ∨ ∃ b, Queue.Own b ∧ Queue.step Q b = some Q'

theorem moved_set {b : Queue.Act} (hQ : s.queues[q]? = some Q) (hb : Queue.Own b) (hst : Queue.step Q b = some Q')
    {r : ℕ} {R' : Queue.State} (hR : (s.queues.set q Q')[r]? = some R') : ∃ R, s.queues[r]? = some R ∧ Moved R R' := by
  rcases List.get_set_cases hR with ⟨rfl, rfl⟩ | ⟨-, hR⟩
  · exact ⟨Q, hQ, .inr ⟨b, hb, hst⟩⟩
  · exact ⟨R', hR, .inl rfl⟩

theorem Moved.stoppable (hm : Moved Q Q') (h : Stoppable info Q) : Stoppable info Q' := by
  rcases hm with rfl | ⟨b, hb, hst⟩
  · exact h
  · obtain ⟨hstop, hlost⟩ := Queue.own_keeps hb (Queue.step_cases hst)
    rwa [Stoppable, hstop, hlost]

theorem Moved.exited (hm : Moved Q Q') (h : Q.thread.pc = .exited) : Q'.thread.pc = .exited := by
  rcases hm with rfl | ⟨b, -, hst⟩
  · exact h
  · exact Queue.exited_step h (Queue.step_cases hst)

theorem step_solo (H : IOHandler τ) {b : Queue.Act} (hsolo : solo b = true) (hQ : s.queues[q]? = some Q)
    (hst : Queue.step Q b = some Q') : ∃ acks, step H s (.queue q b) =
      some { s with queues := s.queues.set q Q', acks := acks } := by
  refine ⟨s.acks ++ (s.committed q Q b).map fun x => .respond x.1 x.2, ?_⟩
  simp [step, hsolo, hQ, hst]

theorem run_solo (H : IOHandler τ) (v₀ : τ) {as : List Queue.Act} (ha : ∀ b ∈ as, solo b = true)
    (hQ : s.queues[q]? = some Q) (hr : (Queue.machine info).run Q as = some Q') : ∃ acks, (machine H info v₀).run s (as.map (.queue q)) =
      some { s with queues := s.queues.set q Q', acks := acks } := by
  induction as generalizing s Q with
  | nil =>
    cases hr
    obtain ⟨hlt, rfl⟩ := List.getElem?_eq_some_iff.mp hQ
    exact ⟨s.acks, by rw [List.set_getElem_self hlt]; rfl⟩
  | cons b as ih =>
    obtain ⟨Q₁, hst, hr⟩ := Option.bind_eq_some_iff.mp hr
    obtain ⟨acks₁, hstep⟩ := step_solo H (ha b List.mem_cons_self) hQ hst
    have hlt := (List.getElem?_eq_some_iff.mp hQ).1
    have hQ₁ : (s.queues.set q Q₁)[q]? = some Q₁ := List.getElem?_set_self hlt
    obtain ⟨acks, hrun⟩ := ih (s := { s with queues := s.queues.set q Q₁, acks := acks₁ })
      (fun c hc => ha c (List.mem_cons_of_mem b hc)) hQ₁ hr
    refine ⟨acks, ?_⟩
    rw [List.map_cons, Machine.run_cons]
    refine Option.bind_eq_some_iff.mpr ⟨_, hstep, ?_⟩
    rw [hrun, List.set_set]

section

variable (hH : H.Stores size.toInt I contents punch) (hI : I v₀) (hs : 0 ≤ size.toInt)
  (hb : maxIoBufBytes.toNat ≤ defBufSize)

include hH hI hs hb

theorem moved_of_own (h : (machine H info v₀).Reach (Orderly size maxIoBufBytes) s) (ha : Own a)
    (hstep : step H s a = some s') {r : ℕ} {R' : Queue.State} (hR : s'.queues[r]? = some R') :
    ∃ R, s.queues[r]? = some R ∧ Moved R R' := by
  have hj := joint_reach hH hI hs hb (within_reach h)
  cases step_cases hstep with
  | queue q b Q Q' hsolo hQ hq =>
    have hown : Queue.Own b := by cases b <;> first | rfl | cases ha
    exact moved_set hQ hown hq hR
  | request q buf i Q Q' tag rid o hQ hpc ho hq => exact moved_set (b := .onRequest true) hQ rfl hq hR
  | go | call | exchange => exact ⟨R', hR, .inl rfl⟩
  | inside k t q i Q Q' u ht hx hQ hu hc hq => exact moved_set (b := .task i false) hQ rfl hq hR
  | both k t q i Q Q' u failed st ht hx hQ hu hw hc hf hst hq =>
    obtain rfl := hj.sound hH hI hs hb ht hf hst
    exact moved_set (b := .task i false) hQ rfl hq hR

theorem rests_keeping {P : Queue.State → Prop} (hP : ∀ Q Q', Moved Q Q' → P Q → P Q')
    (h : (machine H info v₀).Reach (Orderly size maxIoBufBytes) s)
    (hall : ∀ (q : ℕ) (Q : Queue.State), s.queues[q]? = some Q → P Q) :
    ∃ as t, (∀ a ∈ as, a.closes = true) ∧ (machine H info v₀).run s as = some t ∧ AtRest t ∧
      ∀ (q : ℕ) (Q : Queue.State), t.queues[q]? = some Q → P Q := by
  have hlow : (machine H info v₀).Lowers Own (fun s => (machine H info v₀).Reach (Orderly size maxIoBufBytes) s ∧
      ∀ (q : ℕ) (Q : Queue.State), s.queues[q]? = some Q → P Q) State.potential := by
    constructor
    · rintro t a t' ⟨ht, hPt⟩ ha hst
      refine ⟨ht.step (orderly_own ha) hst, ?_⟩
      intro q Q' hQ'
      obtain ⟨Q, hQ, hm⟩ := moved_of_own hH hI hs hb ht ha hst hQ'
      exact hP Q Q' hm (hPt q Q hQ)
    · rintro t a t' ⟨ht, -⟩ ha hst
      exact (lowers hH hI hs hb).lowers t a t' ht ha hst
  obtain ⟨as, t, has, ht, hq⟩ := hlow.exists_quiet ⟨h, hall⟩
  obtain ⟨⟨hr, hPt⟩, -⟩ := hlow.run_add_le ⟨h, hall⟩ has ht
  exact ⟨as, t, fun a ha => closes_of_own (has a ha), ht, atRest_of_quiet hH hI hs hb hr hq, hPt⟩

theorem leaves (h : (machine H info v₀).Reach (Orderly size maxIoBufBytes) u) (hrest : AtRest u)
    (hQ : u.queues[q]? = some Q) (hstop : Stoppable info Q) : ∃ (as : List Queue.Act) (Q' : Queue.State),
      (∀ b ∈ as, solo b = true ∧ (Act.queue q b).closes = true) ∧ (Queue.machine info).run Q as = some Q' ∧
        Q'.thread.pc = .exited := by
  have hset := hrest.settled q Q hQ
  rcases hset.thread with hpc | hpc
  · have hr := orderly_queues hH hI hs hb h q Q hQ
    obtain ⟨Q', hrun, hexit, -⟩ :=
      Queue.exits_from_rest hr hset hpc (Queue.commands_at_rest hr hset hpc hstop)
    refine ⟨Queue.finish Q, Q', ?_, hrun, hexit⟩
    unfold Queue.finish
    split_ifs <;> simp [Queue.lastRound, solo, Act.closes, Act.own]
  · exact ⟨[], Q, by simp, rfl, hpc⟩

theorem leave_first (h : (machine H info v₀).Reach (Orderly size maxIoBufBytes) u) (hrest : AtRest u)
    (hstop : ∀ (q : ℕ) (Q : Queue.State), u.queues[q]? = some Q → Stoppable info Q) (n : ℕ) :
    ∃ as t, (∀ a ∈ as, a.closes = true) ∧ (machine H info v₀).run u as = some t ∧
      ∀ (q : ℕ) (Q : Queue.State), t.queues[q]? = some Q →
        if q < n then Q.thread.pc = .exited else u.queues[q]? = some Q := by
  induction n with
  | zero => exact ⟨[], u, by simp, rfl, by simp⟩
  | succ n ih =>
    obtain ⟨as, t, has, ht, hqueues⟩ := ih
    cases hQ : t.queues[n]? with
    | none =>
      refine ⟨as, t, has, ht, ?_⟩
      intro q Q hq
      have hlt := (List.getElem?_eq_some_iff.mp hq).1
      rw [List.getElem?_eq_none_iff] at hQ
      have hfirst := hqueues q Q hq
      rw [if_pos (by omega)] at hfirst ⊢
      exact hfirst
    | some Q =>
      have hold := hqueues n Q hQ
      rw [if_neg (Nat.lt_irrefl n)] at hold
      obtain ⟨bs, Q', hbs, hrun, hexit⟩ := leaves hH hI hs hb h hrest hold (hstop n Q hold)
      obtain ⟨acks, hround⟩ := run_solo H v₀ (fun b hmem => (hbs b hmem).1) hQ hrun
      refine ⟨as ++ bs.map (.queue n), { t with queues := t.queues.set n Q', acks := acks }, ?_, ?_, ?_⟩
      · rw [List.forall_mem_append, List.forall_mem_map]
        exact ⟨has, fun b hmem => (hbs b hmem).2⟩
      · rw [Machine.run_append, ht]
        exact hround
      · intro r R hR
        rcases List.get_set_cases hR with ⟨rfl, rfl⟩ | ⟨hne, hR⟩
        · rw [if_pos (Nat.lt_succ_self _)]
          exact hexit
        · have hr := hqueues r R hR
          split_ifs at hr ⊢ with h₁ h₂ h₂
          · exact hr
          · omega
          · omega
          · exact hr

end

theorem server_shuts_down (H : IOHandler τ) (size : Int64) (I : τ → Prop) (contents : τ → Disk)
    (punch : Disk → ℕ → ℕ → Disk) (hH : H.Stores size.toInt I contents punch) (v₀ : τ) (hI : I v₀)
    (maxIoBufBytes : UInt32) (hs : 0 ≤ size.toInt) (hb : maxIoBufBytes.toNat ≤ defBufSize)
    (info : Queue.DevInfo) (s : State τ) (h : (machine H info v₀).Reach (Orderly size maxIoBufBytes) s)
    (hstop : ∀ (q : ℕ) (Q : Queue.State), s.queues[q]? = some Q → Stoppable info Q) :
    ∃ as t, (∀ a ∈ as, a.closes = true) ∧ (machine H info v₀).run s as = some t ∧ AtRest t ∧
      ∀ (q : ℕ) (Q : Queue.State), t.queues[q]? = some Q → Q.thread.pc = .exited := by
  obtain ⟨as, u, has, hu, hrest, hstop⟩ :=
    rests_keeping hH hI hs hb (P := Stoppable info) (fun _ _ hm hQ => hm.stoppable hQ) h hstop
  have hru := reach_closes h has hu
  obtain ⟨bs, t, hbs, ht, hqueues⟩ := leave_first hH hI hs hb hru hrest hstop u.queues.length
  have hexit : ∀ (q : ℕ) (Q : Queue.State), t.queues[q]? = some Q → Q.thread.pc = .exited := by
    intro q Q hQ
    have hq := hqueues q Q hQ
    split_ifs at hq with hlt
    · exact hq
    · exact absurd (List.getElem?_eq_some_iff.mp hq).1 hlt
  obtain ⟨cs, t', hcs, ht', hrest', hexit'⟩ := rests_keeping hH hI hs hb
    (P := fun Q => Q.thread.pc = .exited) (fun _ _ hm hQ => hm.exited hQ) (reach_closes hru hbs ht) hexit
  refine ⟨as ++ (bs ++ cs), t', ?_, ?_, hrest', hexit'⟩
  · rw [List.forall_mem_append, List.forall_mem_append]
    exact ⟨has, hbs, hcs⟩
  · rw [Machine.run_append, hu, Option.bind_some, Machine.run_append, ht, Option.bind_some, ht']

theorem server_shuts_down_served : ∃ as t, (∀ a ∈ as, a.closes = true) ∧
    (machine (Store.memoryHandler 8192) twoTags Store.blank).run (served.get served_runs) as = some t ∧ AtRest t ∧
      ∀ (q : ℕ) (Q : Queue.State), t.queues[q]? = some Q → Q.thread.pc = .exited := by
  apply server_shuts_down (Store.memoryHandler 8192) 8192 (fun _ => True) id Store.zeroing
    (Store.memoryHandler_stores (by decide)) Store.blank trivial 524288 (by decide) (by decide) twoTags _
    served_orderly
  have hlost : (served.get served_runs).queues.all fun Q => decide (Q.lost < 2) := by decide +kernel
  intro q Q hQ
  exact .inr (of_decide_eq_true (List.all_eq_true.mp hlost Q (List.mem_of_getElem? hQ)))

end GoUblksrv.Service
