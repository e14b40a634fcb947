import GoUblksrv.Device.Startup

namespace GoUblksrv.Device

variable {queues : ℕ → ℤ} {ids : ℤ → Bool} {s s' : State} {a : Act} {σ σ' : Session} {k : ℕ}

def StartupPc.fallible : StartupPc → Bool
  | .getAffinity | .infoArray | .devInit | .startDev => true
  | _ => false

def State.daemonFails (s : State) (a : Act) (k : ℕ) : Bool :=
  match a with
  | .startup j ans => j == k && !ans.ok && (s.sessions[k]?).any fun σ => σ.pc.fallible
  | _ => false

/-- The machine with the sessions whose `ublksrv_start_daemon` has returned a negative value. -/
def observed (queues : ℕ → ℤ) : Machine (State × (ℕ → Bool)) Act :=
  (machine queues).observe (fun _ => false) fun s a failed k => failed k || s.daemonFails a k

/-- What a normal exit of the daemon leaves. -/
structure CleanedUp (s : State) (σ : Session) : Prop where
  threads : ∀ p ∈ σ.threads, p.done = true
  registry : s.devices σ.info.devId ≠ some σ.dev
  closed : (s.devs σ.dev).daemonDone = true

theorem Session.Track.not_mkdir (hi : σ.Track) (hp : σ.pc = .ended) : σ.caller ≠ .mkdir := by
  have hborn : σ.pc ≠ .unborn := by
    rw [hp]
    simp
  rcases hi.born hborn with hc | ⟨err, hc⟩ <;> simp [hc]

theorem Local.ended (h : Local queues ids σ σ') (hi : σ.Track) (hp : σ.pc = .ended) :
    σ'.pc = .ended ∧ σ'.dev = σ.dev := by
  cases h with
  | mkdirOk hc | mkdirErr hc => exact absurd hc (hi.not_mkdir hp)
  | recv | threadInit | threadStop => exact ⟨hp, rfl⟩
  | send err pc hpc => rcases hpc with ⟨h, -⟩ | ⟨h, -⟩ | ⟨h, -⟩ | ⟨h, -⟩ <;> rw [h] at hp <;> cases hp
  | ctrlInitOk h | ctrlInitErr h | addDevErr h | initParamsOk h | initParamsErr h | getAffinity ok h
  | infoArray ok h | devInitOk h | devInitErr h | createThread h | threadsCreated h | startDevOk h
  | startDevErr h | join h =>
    rw [h] at hp
    cases hp

def Keeps (s s' : State) : Prop :=
  ∀ (k : ℕ) (σ : Session), s.sessions[k]? = some σ → σ.pc = .ended →
    ∃ σ', s'.sessions[k]? = some σ' ∧ σ'.pc = .ended ∧ σ'.dev = σ.dev

theorem keeps_of_eq (h : s'.sessions = s.sessions) : Keeps s s' := by
  intro k σ hk hp
  exact ⟨σ, h ▸ hk, hp, rfl⟩

theorem keeps_set (hs : s'.sessions = s.sessions.set k σ') (hk : s.sessions[k]? = some σ)
    (h : σ.pc = .ended → σ'.pc = .ended ∧ σ'.dev = σ.dev) : Keeps s s' := by
  intro j τ hj hp
  rw [hs]
  by_cases hjk : j = k
  · subst hjk
    rw [hk] at hj
    cases hj
    have hlt := (List.getElem?_eq_some_iff.mp hk).1
    exact ⟨σ', List.getElem?_set_self hlt, h hp⟩
  · exact ⟨τ, (List.getElem?_set_ne (Ne.symm hjk)).trans hj, hp, rfl⟩

theorem keeps_stop (id : ℤ) (hs : s'.sessions = s.sessions.map (Session.stop id)) : Keeps s s' := by
  intro k σ hk hp
  refine ⟨σ.stop id, ?_, ?_⟩
  · rw [hs, List.getElem?_map, hk]
    rfl
  · unfold Session.stop
    split_ifs <;> exact ⟨hp, rfl⟩

theorem keeps_step (hi : ∀ σ ∈ s.sessions, σ.Track) (h : Step queues s a s') : Keeps s s' := by
  have hget : ∀ {k : ℕ} {σ : Session}, s.sessions[k]? = some σ → σ.Track :=
    fun hk => hi _ (List.mem_of_getElem? hk)
  cases h with
  | start d =>
    intro k σ hk hp
    have hlt := (List.getElem?_eq_some_iff.mp hk).1
    exact ⟨σ, (List.getElem?_append_left hlt).trans hk, hp, rfl⟩
  | fill k ok σ i hk => exact keeps_set rfl hk fun hp => ⟨hp, rfl⟩
  | locally _ k σ σ' hk hl => exact keeps_set rfl hk (hl.ended (hget hk))
  | addDevOk k ans σ hk hp | setId k ans σ hk hp | register k ans σ hk hp | unregister k ans σ hk hp
  | closeDone k ans σ hk hp =>
    apply keeps_set rfl hk
    intro he
    rw [hp] at he
    cases he
  | handshake m k j x σ hm hk => exact keeps_set rfl hk fun hp => ⟨hp, rfl⟩
  | request | takeMsg | putMsg | delete | devDelMove | delDev | remove => exact keeps_of_eq rfl
  | stopDev m x hm => exact keeps_stop x.id rfl
  | removed id => exact keeps_stop id rfl

theorem closes_step (h : Step queues s a s') {d : ℕ} (hd : (s'.devs d).daemonDone = true) :
    (s.devs d).daemonDone = true ∨ ∃ k ans σ σ', a = .startup k ans ∧ s.sessions[k]? = some σ ∧
      σ.pc = .closeDone ∧ s'.sessions[k]? = some σ' ∧ σ'.pc = .ended ∧ σ'.dev = d := by
  have keep : ∀ {u : State} {e : ℕ} {r : Dev}, (u.devs d).daemonDone = true →
      u.devs = Function.update s.devs e r → r.daemonDone = (s.devs e).daemonDone →
      (s.devs d).daemonDone = true := by
    intro u e r hu he hr
    rw [he, Function.update_apply] at hu
    split_ifs at hu with he
    · rw [he, ← hr]
      exact hu
    · exact hu
  cases h with
  | fill k ok σ i hk => exact .inl (keep hd rfl rfl)
  | setId k ans σ hk => exact .inl (keep hd rfl rfl)
  | takeMsg e | putMsg e => exact .inl (keep hd rfl rfl)
  | closeDone k ans σ hk hp =>
    by_cases he : d = σ.dev
    · have hlt := (List.getElem?_eq_some_iff.mp hk).1
      exact .inr ⟨k, ans, σ, _, rfl, hk, hp, List.getElem?_set_self hlt, rfl, he.symm⟩
    · left
      change (Function.update s.devs σ.dev _ d).daemonDone = true at hd
      rw [Function.update_of_ne he] at hd
      exact hd
  | _ => exact .inl hd

theorem daemonFails_eq_false (hk : s.sessions[k]? = some σ) (hp : σ.pc.fallible = false) :
    s.daemonFails a k = false := by
  cases a with
  | startup j ans => simp [State.daemonFails, hk, hp]
  | _ => rfl

theorem daemonFails_step (hs : step s queues a = some s') (hf : s.daemonFails a k = true) :
    ∃ σ', s'.sessions[k]? = some σ' ∧ σ'.pc = .ended := by
  cases a with
  | startup j ans =>
    simp only [State.daemonFails, Bool.and_eq_true, beq_iff_eq, Bool.not_eq_true'] at hf
    obtain ⟨⟨rfl, hans⟩, hany⟩ := hf
    obtain ⟨σ, hk, hs⟩ := Option.bind_eq_some_iff.mp hs
    have hlt := (List.getElem?_eq_some_iff.mp hk).1
    rw [hk] at hany
    have hp : σ.pc.fallible = true := hany
    cases hpc : σ.pc with
    | getAffinity | infoArray | devInit | startDev =>
      simp only [startupStep, hpc, hans, Bool.false_eq_true, ↓reduceIte, Option.some.injEq] at hs
      subst hs
      exact ⟨_, List.getElem?_set_self hlt, rfl⟩
    | _ =>
      rw [hpc] at hp
      cases hp
  | _ => cases hf

structure Failed (p : State × (ℕ → Bool)) : Prop where
  ended : ∀ k, p.2 k = true → ∃ σ, p.1.sessions[k]? = some σ ∧ σ.pc = .ended
  closed : ∀ d, (p.1.devs d).daemonDone = true →
    ∃ k σ, p.1.sessions[k]? = some σ ∧ σ.pc = .ended ∧ σ.dev = d ∧ p.2 k = false

theorem failed_reach {C : State × (ℕ → Bool) → Act → Prop} {p : State × (ℕ → Bool)}
    (h : (observed queues).Reach C p) : Failed p := by
  apply h.invariant
  · rintro ⟨t, f⟩ ⟨⟨devices, ids, rfl⟩, rfl⟩
    constructor
    · intro k hk
      cases hk
    · intro d hd
      cases hd
  · rintro ⟨s, failed⟩ a p' hr hi _ hs
    obtain ⟨s', hstep, rfl⟩ := Option.map_eq_some_iff.mp hs
    have hkeep := keeps_step (track_reach hr.of_observe) (step_cases hstep)
    constructor
    · intro k hk
      rcases Bool.or_eq_true_iff.mp hk with hk | hk
      · obtain ⟨σ, hσ, hp⟩ := hi.ended k hk
        obtain ⟨σ', hσ', hp', -⟩ := hkeep k σ hσ hp
        exact ⟨σ', hσ', hp'⟩
      · exact daemonFails_step hstep hk
    · intro d hd
      rcases closes_step (step_cases hstep) hd with hd | ⟨k, ans, σ, σ', rfl, hk, hp, hk', hp', hdev⟩
      · obtain ⟨k, σ, hσ, hp, hdev, hnot⟩ := hi.closed d hd
        obtain ⟨σ', hσ', hp', hdev'⟩ := hkeep k σ hσ hp
        have hfall : σ.pc.fallible = false := by
          rw [hp]
          rfl
        exact ⟨k, σ', hσ', hp', hdev'.trans hdev,
          Bool.or_eq_false_iff.mpr ⟨hnot, daemonFails_eq_false hσ hfall⟩⟩
      · have hfall : σ.pc.fallible = false := by
          rw [hp]
          rfl
        have hnot : failed k = false := by
          rw [← Bool.not_eq_true]
          intro hk₁
          obtain ⟨τ, hτ, hpτ⟩ := hi.ended k hk₁
          rw [hk] at hτ
          cases hτ
          rw [hp] at hpτ
          cases hpτ
        exact ⟨k, σ', hk', hp', hdev,
          Bool.or_eq_false_iff.mpr ⟨hnot, daemonFails_eq_false hk hfall⟩⟩

/-- No other call of `Start` is for the device of the session. -/
def StartedOnce (s : State) (k : ℕ) (σ : Session) : Prop :=
  ∀ (j : ℕ) (τ : Session), s.sessions[j]? = some τ → τ.dev = σ.dev → j = k

theorem failed_daemon (queues : ℕ → ℤ) : ∀ p, (observed queues).Reach Machine.Free p →
    ∀ (k : ℕ) (σ : Session), p.1.sessions[k]? = some σ → StartedOnce p.1 k σ → p.2 k = true →
      ¬ CleanedUp p.1 σ := by
  intro p h k σ hk honce hf hc
  obtain ⟨j, τ, hj, -, hdev, hnot⟩ := (failed_reach h).closed σ.dev hc.closed
  have hjk := honce j τ hj hdev
  rw [hjk, hf] at hnot
  cases hnot

/-- `START_DEV` fails while the queue thread has not yet read its `info_array` entry. -/
def startDevFails : List Act := startUp ++ List.replicate 4 (.startup 0 yes) ++ [.startup 0 no]

theorem startDevFails_runs : ((observed oneQueue).run
    (boot (fun _ => none) fun _ => false, fun _ => false) startDevFails).isSome = true := by decide +kernel

def unstarted : State × (ℕ → Bool) := ((observed oneQueue).run
  (boot (fun _ => none) fun _ => false, fun _ => false) startDevFails).get startDevFails_runs

theorem unstarted_reach : (observed oneQueue).Reach Machine.Free unstarted :=
  .of_run (.init ⟨⟨_, _, rfl⟩, rfl⟩) (fun _ _ _ => trivial) (Option.some_get _).symm

def unstartedSession : Session := { startedSession with pc := .ended, threads := [.init] }

theorem unstarted_sessions : unstarted.1.sessions = [unstartedSession] := by decide +kernel

theorem unstarted_failed : unstarted.2 0 = true := by decide +kernel

theorem failed_daemon_unstarted : ¬ CleanedUp unstarted.1 unstartedSession := by
  apply failed_daemon oneQueue unstarted unstarted_reach 0 unstartedSession
  · rw [unstarted_sessions]
    rfl
  · intro j τ hj _
    rw [unstarted_sessions] at hj
    exact Nat.lt_one_iff.mp (List.getElem?_eq_some_iff.mp hj).1
  · exact unstarted_failed

theorem not_cleanedUp_unstarted :
    ¬ ∀ queues p, (observed queues).Reach Machine.Free p →
      ∀ (k : ℕ) (σ : Session), p.1.sessions[k]? = some σ → p.2 k = true → CleanedUp p.1 σ := by
  intro h
  have hk : unstarted.1.sessions[0]? = some unstartedSession := by
    rw [unstarted_sessions]
    rfl
  have hc := h oneQueue unstarted unstarted_reach 0 unstartedSession hk unstarted_failed
  exact absurd (hc.threads .init (.head _)) (by decide)

end GoUblksrv.Device
