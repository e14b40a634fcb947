import GoUblksrv.Store.Linear

namespace GoUblksrv.Store

open Pool (Reply Method Handler Task sectors initParams)

variable {τ : Type*} {H : IOHandler τ} {s s' : State τ} {v₀ : τ} {a : Act} {size : Int64}
  {I : τ → Prop} {contents : τ → Disk} {punch : Disk → ℕ → ℕ → Disk} {maxIoBufBytes : UInt32}

def Internal (a : Act) : Prop := a.delivers = false

theorem within_internal (ha : Internal a) : Within size maxIoBufBytes s a := by
  cases a with
  | call => trivial
  | pool b =>
    cases b with
    | deliver => cases ha
    | _ => rfl

theorem lowers : (machine H v₀).Lowers Internal (fun s => Pool.Custody s.pool) fun s => s.pool.remaining where
  keeps s a s' hc _ hs := by
    cases step_cases hs with
    | pool b p _ hp => exact hc.step (Pool.step_cases hp)
    | call j g p _ hp => exact hc.step (Pool.step_cases hp)
  lowers s a s' _ ha hs := by
    cases step_cases hs with
    | pool b p _ hp => exact Pool.remaining_step (Pool.step_cases hp) ha
    | call j g p _ hp => exact Pool.remaining_step (Pool.step_cases hp) rfl

theorem history_step (h : Step H s a s') : s.history <+: s'.history := by
  cases h with
  | pool => exact List.prefix_append _ _
  | call => exact List.prefix_rfl

theorem history_run {as : List Act} (h : (machine H v₀).run s as = some s') : s.history <+: s'.history := by
  apply Machine.run_invariant (I := fun t => s.history <+: t.history) _ List.prefix_rfl h
  intro t b t' ht hs
  exact ht.trans (history_step (step_cases hs))

theorem drained_of_quiet (hH : H.Stores size.toInt I contents punch) (hI : I v₀) (hs : 0 ≤ size.toInt)
    (hb : maxIoBufBytes.toNat ≤ defBufSize) (h : (machine H v₀).Reach (Within size maxIoBufBytes) s)
    (hq : (machine H v₀).Quiet Internal s) : Pool.Drained s.pool := by
  obtain ⟨hIs, hpool⟩ := pool_reach hH hI hs hb h
  have hc := Pool.custody_reach hpool
  have hu : Pool.machine.Quiet (fun a => a.unaided = true) s.pool := by
    intro b hb'
    have hnone : step H s (.pool b) = none := by
      apply hq
      cases b <;> first | rfl | cases hb'
    cases b with
    | deliver | handle => cases hb'
    | dispatch | dispatchSend | handlerSend | task => exact Option.map_eq_none_iff.mp hnone
  apply Pool.drained_of_handlers (sound_timely hpool) hu
  rw [List.eq_nil_iff_forall_not_mem]
  intro g hg
  obtain ⟨j, hj⟩ := List.mem_iff_getElem?.mp hg
  have hsend := Pool.quiet_handlers hc hu g hg
  obtain ⟨t, -, -, -, hcall⟩ := called_handler hs hb hpool hg
  have hok := answer_ok hH hIs hcall
  have henabled : (Pool.step s.pool (.handle j (answer H s.pool s.backing g).2)).isSome = true :=
    hc.handle_enabled hj hsend fun hm => (hok.n hm).le
  obtain ⟨p, hp⟩ := Option.isSome_iff_exists.mp henabled
  have hnone : step H s (.call j) = none := hq (.call j) rfl
  simp only [step, hj, Option.bind_some, hp, Option.map_some] at hnone
  cases hnone

theorem drained_answered (hH : H.Stores size.toInt I contents punch) (hI : I v₀) (hs : 0 ≤ size.toInt)
    (hb : maxIoBufBytes.toNat ≤ defBufSize) (h : (machine H v₀).Reach (Within size maxIoBufBytes) s)
    (hd : Pool.Drained s.pool) {k : ℕ} {op : Op} (hop : .invoke k op ∈ s.history) :
    ∃ r, .respond k r ∈ s.history := by
  obtain ⟨c, hc, hR⟩ := (simulates hH hI hs hb).reach h
  have hphase : c.phase k ≠ .idle := by
    intro hidle
    rw [← hR.history] at hop
    exact ((Atomic.inv_reach hc).phased.fresh k hidle).2 op hop
  rw [hR.phase, State.phase] at hphase
  cases ht : s.pool.tasks[k]? with
  | none =>
    rw [ht] at hphase
    exact absurd rfl hphase
  | some t =>
    apply delivered_answered hR hc ht
    intro hn
    have hrep := hd.reported t (List.mem_of_getElem? ht)
    rw [Pool.Task.results, hn] at hrep
    split_ifs at hrep <;> simp at hrep

theorem completes (H : IOHandler τ) (size : Int64) (I : τ → Prop) (contents : τ → Disk)
    (punch : Disk → ℕ → ℕ → Disk) (hH : H.Stores size.toInt I contents punch) (v₀ : τ) (hI : I v₀)
    (maxIoBufBytes : UInt32) (hs : 0 ≤ size.toInt) (hb : maxIoBufBytes.toNat ≤ defBufSize) (s : State τ)
    (h : (machine H v₀).Reach (Within size maxIoBufBytes) s) :
    (∀ as s', (∀ a ∈ as, Internal a) → (machine H v₀).run s as = some s' → as.length ≤ 5632 ∧
      ((machine H v₀).Quiet Internal s' → Pool.Drained s'.pool)) ∧
    ∃ as s', (∀ a ∈ as, Internal a) ∧ (machine H v₀).run s as = some s' ∧
      (∀ t ∈ s'.pool.tasks, t.results = [t.finalRes]) ∧
      ∀ k op, .invoke k op ∈ s.history → ∃ r, .respond k r ∈ s'.history := by
  have hc := Pool.custody_reach (pool_reach hH hI hs hb h).2
  have hlow : (machine H v₀).Lowers Internal (fun s => Pool.Custody s.pool) fun s => s.pool.remaining :=
    lowers
  have hreach : ∀ {as s'}, (∀ a ∈ as, Internal a) → (machine H v₀).run s as = some s' →
      (machine H v₀).Reach (Within size maxIoBufBytes) s' := by
    intro as s' has hr
    exact .of_run h (fun a ha t => within_internal (has a ha)) hr
  constructor
  · intro as s' has hr
    refine ⟨(hlow.run_length_le hc has hr).trans hc.remaining_le, ?_⟩
    exact drained_of_quiet hH hI hs hb (hreach has hr)
  · obtain ⟨as, s', has, hr, hq⟩ := hlow.exists_quiet hc
    have h' := hreach has hr
    have hd := drained_of_quiet hH hI hs hb h' hq
    refine ⟨as, s', has, hr, ?_, ?_⟩
    · intro t ht
      have hrep := hd.reported t ht
      rw [((facts_reach hs hb (pool_reach hH hI hs hb h').2).transfer t ht).sound] at hrep
      exact hrep
    · intro k op hop
      exact drained_answered hH hI hs hb h' hd ((history_run hr).subset hop)

def blank : Disk := fun _ => 0

/-- A read is delivered while a write of the same sectors is under way, and overtakes it. -/
def overtaking : List Act :=
  [.pool (.deliver 0 0 ⟨1, 8, 0, 0⟩ (fun _ => 7) 0), .pool (.task 0), .pool .dispatch,
    .pool (.deliver 0 1 ⟨0, 8, 0, 0⟩ (fun _ => 0) 0), .pool (.task 1), .pool .dispatch, .call 1, .call 0,
    .pool (.handlerSend 0)] ++ List.replicate 5 (.pool (.task 0))

def overtaken : Option (State Disk) :=
  (machine (memoryHandler 8192) blank).runIf (fun s a => decide (Within 8192 524288 s a))
    ⟨Pool.start (fun _ _ => ⟨0, 0, 0, 0⟩) fun _ _ _ => 0, blank, []⟩ overtaking

set_option maxRecDepth 8000

theorem overtaken_runs : overtaken.isSome = true := by decide +kernel

theorem overtaken_reach :
    (machine (memoryHandler 8192) blank).Reach (Within 8192 524288) (overtaken.get overtaken_runs) :=
  .of_runIf (.init ⟨_, _, rfl⟩) (fun _ _ => of_decide_eq_true) (Option.some_get _).symm

theorem linearizable_overtaken :
    Atomic.Linearizable (Disk.apply zeroing) blank (overtaken.get overtaken_runs).backing
        (overtaken.get overtaken_runs).history ∧
      ∀ (k : ℕ) (t : Task), (overtaken.get overtaken_runs).pool.tasks[k]? = some t → t.commits ≠ [] →
        ∃ r, .respond k r ∈ (overtaken.get overtaken_runs).history :=
  linearizable (memoryHandler 8192) 8192 (fun _ => True) id zeroing (memoryHandler_stores (by decide)) blank
    trivial 524288 (by decide) (by decide) _ overtaken_reach

theorem completes_overtaken :
    ∃ as s', (∀ a ∈ as, Internal a) ∧
      (machine (memoryHandler 8192) blank).run (overtaken.get overtaken_runs) as = some s' ∧
      (∀ t ∈ s'.pool.tasks, t.results = [t.finalRes]) ∧
      ∀ k op, .invoke k op ∈ (overtaken.get overtaken_runs).history → ∃ r, .respond k r ∈ s'.history :=
  (completes (memoryHandler 8192) 8192 (fun _ => True) id zeroing (memoryHandler_stores (by decide)) blank
    trivial 524288 (by decide) (by decide) _ overtaken_reach).2

end GoUblksrv.Store
