import GoUblksrv.Device.Actors

namespace GoUblksrv.Device

/-- The steps of a session that read and write its own record alone, but for the ids. -/
inductive Local (queues : ℕ → ℤ) (ids : ℤ → Bool) (σ : Session) : Session → Prop
  | mkdirOk : σ.caller = .mkdir → Local queues ids σ { σ with caller := .recv, pc := .ctrlInit }
  | mkdirErr : σ.caller = .mkdir →
      Local queues ids σ { σ with caller := .returned true, fails := { σ.fails with mkdir := true } }
  | recv (err : Bool) (rest : List Bool) : σ.caller = .recv → σ.initDone = err :: rest →
      Local queues ids σ { σ with caller := .returned err, initDone := rest }
  | ctrlInitOk : σ.pc = .ctrlInit →
      Local queues ids σ
        { σ with info := ublksrvCtrlInit (startupData (queues σ.dev)), pc := .addDev }
  | ctrlInitErr : σ.pc = .ctrlInit →
      Local queues ids σ { σ with fails := { σ.fails with ctrlInit := true }, pc := .sendInitErr }
  | addDevErr : σ.pc = .addDev →
      Local queues ids σ { σ with fails := { σ.fails with addDev := true }, pc := .sendAddErr }
  | initParamsOk : σ.pc = .initParams → Local queues ids σ { σ with pc := .setId }
  | initParamsErr : σ.pc = .initParams →
      Local queues ids σ { σ with fails := { σ.fails with initParams := true }, pc := .sendParamsErr }
  | send (err : Bool) (pc : StartupPc) :
      (σ.pc = .sendInitErr ∧ err = true ∧ pc = .ended) ∨
      (σ.pc = .sendAddErr ∧ err = true ∧ pc = .initParams) ∨
      (σ.pc = .sendParamsErr ∧ err = true ∧ pc = .setId) ∨
      (σ.pc = .sendNil ∧ err = false ∧ pc = .getAffinity) →
      σ.initDone.length < initDoneCap →
      Local queues ids σ { σ with initDone := σ.initDone ++ [err], sent := σ.sent + 1, pc := pc }
  | getAffinity (ok : Bool) : σ.pc = .getAffinity →
      Local queues ids σ { σ with daemon := true, pc := if ok then .infoArray else .ended }
  | infoArray (ok : Bool) : σ.pc = .infoArray →
      Local queues ids σ { σ with infoArray := ok, pc := if ok then .devInit else .ended }
  | devInitOk : σ.pc = .devInit → ids σ.info.devId = true →
      Local queues ids σ { σ with pc := .createThreads }
  | devInitErr : σ.pc = .devInit → Local queues ids σ { σ with infoArray := false, pc := .ended }
  | createThread : σ.pc = .createThreads → σ.threads.length < σ.info.nrHwQueues →
      Local queues ids σ { σ with threads := σ.threads ++ [.init] }
  | threadsCreated : σ.pc = .createThreads → ¬ σ.threads.length < σ.info.nrHwQueues →
      Local queues ids σ { σ with pc := .startDev }
  | startDevOk : σ.pc = .startDev → Local queues ids σ { σ with pc := .join }
  | startDevErr : σ.pc = .startDev → Local queues ids σ { σ with infoArray := false, pc := .ended }
  | join : σ.pc = .join → σ.threads.all ThreadPc.done = true →
      Local queues ids σ { σ with infoArray := false, pc := .unregister }
  | threadInit (j : ℕ) (ok : Bool) : σ.threads[j]? = some .init →
      Local queues ids σ { σ with threads := σ.threads.set j (if ok then .running else .failed) }
  | threadStop (j : ℕ) : σ.threads[j]? = some .running → σ.stopped = true →
      Local queues ids σ { σ with threads := σ.threads.set j .notify }

inductive Step (queues : ℕ → ℤ) (s : State) : Act → State → Prop
  | start (d : ℕ) : Step queues s (.start d) { s with sessions := s.sessions ++ [.new d] }
  | fill (k : ℕ) (ok : Bool) (σ : Session) (i : ℕ) : s.sessions[k]? = some σ → σ.caller = .fill i →
      (s.devs σ.dev).msgChan < msgChanCap →
      Step queues s (.caller k ok)
        ((s.setDev σ.dev { s.devs σ.dev with msgChan := (s.devs σ.dev).msgChan + 1 }).setSession k
          { σ with
            caller := if i + 1 < nrMessages then .fill (i + 1) else .mkdir
            pushed := σ.pushed + 1 })
  | locally (a : Act) (k : ℕ) (σ σ' : Session) : s.sessions[k]? = some σ →
      Local queues s.ids σ σ' → Step queues s a (s.setSession k σ')
  | addDevOk (k : ℕ) (ans : Answer) (σ : Session) : s.sessions[k]? = some σ → σ.pc = .addDev →
      adds s.ids σ.info.devId ans.devId = true →
      Step queues s (.startup k ans)
        { s.setSession k
            { σ with info := ⟨ans.devId, min σ.info.nrHwQueues ans.nrHwQueues⟩, pc := .initParams } with
          ids := Function.update s.ids ans.devId true }
  | setId (k : ℕ) (ans : Answer) (σ : Session) : s.sessions[k]? = some σ → σ.pc = .setId →
      Step queues s (.startup k ans)
        ((s.setDev σ.dev { s.devs σ.dev with id := σ.info.devId }).setSession k { σ with pc := .register })
  | register (k : ℕ) (ans : Answer) (σ : Session) : s.sessions[k]? = some σ → σ.pc = .register →
      Step queues s (.startup k ans)
        ((registerDevice s (s.devs σ.dev).id σ.dev).setSession k
          { σ with registered := true, pc := .sendNil })
  | unregister (k : ℕ) (ans : Answer) (σ : Session) : s.sessions[k]? = some σ → σ.pc = .unregister →
      Step queues s (.startup k ans)
        ((unregisterDevice s (s.devs σ.dev).id).setSession k { σ with pc := .closeDone })
  | closeDone (k : ℕ) (ans : Answer) (σ : Session) : s.sessions[k]? = some σ → σ.pc = .closeDone →
      (s.devs σ.dev).daemonDone = false →
      Step queues s (.startup k ans)
        ((s.setDev σ.dev { s.devs σ.dev with daemonDone := true }).setSession k { σ with pc := .ended })
  | request (k j : ℕ) (σ : Session) : s.sessions[k]? = some σ → σ.threads[j]? = some .running →
      Step queues s (.request k j)
        { s with routed := s.routed ++ [⟨σ.dev, s.devices σ.info.devId⟩] }
  | takeMsg (d : ℕ) : 0 < (s.devs d).msgChan →
      Step queues s (.takeMsg d)
        (s.setDev d
          { s.devs d with msgChan := (s.devs d).msgChan - 1, inUse := (s.devs d).inUse + 1 })
  | putMsg (d : ℕ) : 0 < (s.devs d).inUse → (s.devs d).msgChan < msgChanCap →
      Step queues s (.putMsg d)
        (s.setDev d
          { s.devs d with msgChan := (s.devs d).msgChan + 1, inUse := (s.devs d).inUse - 1 })
  | delete (d : ℕ) :
      Step queues s (.delete d)
        { s with deletes := s.deletes ++
          [{ dev := d, id := (s.devs d).id, caller := .waiting, pc := .ctrlInit, got := none }] }
  | devDelMove (m : ℕ) (ok : Bool) (x : Deletion) (pc : DevDelPc) : s.deletes[m]? = some x →
      Step queues s (.devDel m ok) (s.setDelete m { x with pc := pc })
  | stopDev (m : ℕ) (x : Deletion) : s.deletes[m]? = some x → x.pc = .stop →
      Step queues s (.devDel m true) ((s.stopDev x.id).setDelete m { x with pc := .del })
  | delDev (m : ℕ) (x : Deletion) : s.deletes[m]? = some x → x.pc = .del →
      Step queues s (.devDel m true)
        { s.setDelete m { x with pc := .ended } with ids := Function.update s.ids x.id false }
  | handshake (m k j : ℕ) (x : Deletion) (σ : Session) : s.deletes[m]? = some x →
      s.sessions[k]? = some σ → x.caller = .waiting → σ.threads[j]? = some .notify →
      Step queues s (.handshake m k j)
        ((s.setSession k { σ with threads := σ.threads.set j .exited }).setDelete m
          { x with caller := .remove, got := some σ.dev })
  | remove (m : ℕ) (ok : Bool) (x : Deletion) : s.deletes[m]? = some x → x.caller = .remove →
      Step queues s (.remove m ok) (s.setDelete m { x with caller := .returned (!ok) })
  | removed (id : ℤ) :
      Step queues s (.removed id) { s.stopDev id with ids := Function.update s.ids id false }

variable {queues : ℕ → ℤ} {s s' : State} {a : Act} {k : ℕ} {σ σ' : Session}

theorem callerStep_cases {ok : Bool} (hk : s.sessions[k]? = some σ)
    (h : callerStep s k σ ok = some s') : Step queues s (.caller k ok) s' := by
  cases hp : σ.caller with
  | fill i =>
    simp only [callerStep, hp] at h
    by_cases hc : (s.devs σ.dev).msgChan < msgChanCap
    · rw [if_pos hc] at h
      exact Option.some.inj h ▸ .fill k ok σ i hk hp hc
    · rw [if_neg hc] at h
      cases h
  | mkdir =>
    simp only [callerStep, hp, Option.some.injEq] at h
    subst h
    cases ok
    · exact .locally _ k σ _ hk (.mkdirErr hp)
    · exact .locally _ k σ _ hk (.mkdirOk hp)
  | recv =>
    simp only [callerStep, hp] at h
    split at h
    · cases h
    · rename_i err rest hd
      cases h
      exact .locally _ k σ _ hk (.recv err rest hp hd)
  | returned err => simp [callerStep, hp] at h

theorem send_cases {err : Bool} {pc : StartupPc} (h : σ.send err pc = some σ') :
    σ.initDone.length < initDoneCap ∧
      σ' = { σ with initDone := σ.initDone ++ [err], sent := σ.sent + 1, pc := pc } := by
  unfold Session.send at h
  split_ifs at h with hc
  exact ⟨hc, (Option.some.inj h).symm⟩

theorem startupStep_cases {ans : Answer} (hk : s.sessions[k]? = some σ)
    (h : startupStep s queues k σ ans = some s') : Step queues s (.startup k ans) s' := by
  have own : ∀ {σ'}, Local queues s.ids σ σ' → Step queues s (.startup k ans) (s.setSession k σ') :=
    fun hl => .locally _ k σ _ hk hl
  have sends : ∀ {err pc}, (σ.send err pc).map (s.setSession k) = some s' →
      (σ.initDone.length < initDoneCap →
        Local queues s.ids σ { σ with initDone := σ.initDone ++ [err], sent := σ.sent + 1, pc := pc }) →
      Step queues s (.startup k ans) s' := by
    intro err pc h hl
    obtain ⟨τ, hs, rfl⟩ := Option.map_eq_some_iff.mp h
    obtain ⟨hc, rfl⟩ := send_cases hs
    exact own (hl hc)
  cases hp : σ.pc with
  | unborn | ended => simp [startupStep, hp] at h
  | ctrlInit =>
    simp only [startupStep, hp, Option.some.injEq] at h
    subst h
    split_ifs
    · exact own (.ctrlInitOk hp)
    · exact own (.ctrlInitErr hp)
  | sendInitErr =>
    simp only [startupStep, hp] at h
    exact sends h (.send true .ended (.inl ⟨hp, rfl, rfl⟩))
  | addDev =>
    simp only [startupStep, hp] at h
    split_ifs at h with ho ha <;> cases h
    · exact .addDevOk k ans σ hk hp ha
    · exact own (.addDevErr hp)
  | sendAddErr =>
    simp only [startupStep, hp] at h
    exact sends h (.send true .initParams (.inr (.inl ⟨hp, rfl, rfl⟩)))
  | initParams =>
    simp only [startupStep, hp, Option.some.injEq] at h
    subst h
    split_ifs
    · exact own (.initParamsOk hp)
    · exact own (.initParamsErr hp)
  | sendParamsErr =>
    simp only [startupStep, hp] at h
    exact sends h (.send true .setId (.inr (.inr (.inl ⟨hp, rfl, rfl⟩))))
  | setId =>
    simp only [startupStep, hp, Option.some.injEq] at h
    exact h ▸ .setId k ans σ hk hp
  | register =>
    simp only [startupStep, hp, Option.some.injEq] at h
    exact h ▸ .register k ans σ hk hp
  | sendNil =>
    simp only [startupStep, hp] at h
    exact sends h (.send false .getAffinity (.inr (.inr (.inr ⟨hp, rfl, rfl⟩))))
  | getAffinity =>
    simp only [startupStep, hp, Option.some.injEq] at h
    exact h ▸ own (.getAffinity ans.ok hp)
  | infoArray =>
    simp only [startupStep, hp, Option.some.injEq] at h
    exact h ▸ own (.infoArray ans.ok hp)
  | devInit =>
    simp only [startupStep, hp] at h
    split_ifs at h with ho hi <;> cases h
    · exact own (.devInitOk hp hi)
    · exact own (.devInitErr hp)
  | createThreads =>
    simp only [startupStep, hp, Option.some.injEq] at h
    subst h
    split_ifs with hc
    · simpa only [hp] using own (.createThread hp hc)
    · exact own (.threadsCreated hp hc)
  | startDev =>
    simp only [startupStep, hp, Option.some.injEq] at h
    subst h
    split_ifs
    · exact own (.startDevOk hp)
    · exact own (.startDevErr hp)
  | join =>
    simp only [startupStep, hp] at h
    split_ifs at h with hc
    cases h
    exact own (.join hp hc)
  | unregister =>
    simp only [startupStep, hp, Option.some.injEq] at h
    exact h ▸ .unregister k ans σ hk hp
  | closeDone =>
    simp only [startupStep, hp] at h
    split_ifs at h with hc
    cases h
    exact .closeDone k ans σ hk hp (by simpa using hc)

theorem threadStep_cases {j : ℕ} {ok : Bool} {ids : ℤ → Bool} (h : threadStep σ j ok = some σ') :
    Local queues ids σ σ' := by
  unfold threadStep at h
  split at h
  · rename_i hj
    cases h
    exact .threadInit j ok hj
  · rename_i hj
    split_ifs at h with hs
    cases h
    exact .threadStop j hj hs
  · cases h

theorem cmdDevDel_cases {m : ℕ} {x : Deletion} {ok : Bool} (hm : s.deletes[m]? = some x)
    (h : cmdDevDel s m x ok = some s') : Step queues s (.devDel m ok) s' := by
  cases hp : x.pc with
  | ctrlInit =>
    simp only [cmdDevDel, hp, Option.some.injEq] at h
    exact h ▸ .devDelMove m ok x _ hm
  | getInfo =>
    simp only [cmdDevDel, hp] at h
    split_ifs at h <;> cases h <;> exact .devDelMove m _ x _ hm
  | stop =>
    simp only [cmdDevDel, hp, Option.some.injEq] at h
    subst h
    cases ok
    · exact .devDelMove m false x .ended hm
    · exact .stopDev m x hm hp
  | del =>
    simp only [cmdDevDel, hp, Option.some.injEq] at h
    subst h
    cases ok
    · exact .devDelMove m false x .ended hm
    · exact .delDev m x hm hp
  | ended => simp [cmdDevDel, hp] at h

theorem step_cases (h : step s queues a = some s') : Step queues s a s' := by
  cases a with
  | start d => exact Option.some.inj h ▸ .start d
  | caller k ok =>
    obtain ⟨σ, hk, h⟩ := Option.bind_eq_some_iff.mp h
    exact callerStep_cases hk h
  | startup k ans =>
    obtain ⟨σ, hk, h⟩ := Option.bind_eq_some_iff.mp h
    exact startupStep_cases hk h
  | thread k j ok =>
    obtain ⟨σ, hk, h⟩ := Option.bind_eq_some_iff.mp h
    obtain ⟨σ', hs, rfl⟩ := Option.map_eq_some_iff.mp h
    exact .locally _ k σ σ' hk (threadStep_cases hs)
  | request k j =>
    obtain ⟨σ, hk, h⟩ := Option.bind_eq_some_iff.mp h
    split_ifs at h with hj
    exact Option.some.inj h ▸ .request k j σ hk hj
  | takeMsg d =>
    simp only [step] at h
    split_ifs at h with hc
    exact Option.some.inj h ▸ .takeMsg d hc
  | putMsg d =>
    simp only [step] at h
    split_ifs at h with hc
    exact Option.some.inj h ▸ .putMsg d hc.1 hc.2
  | delete d => exact Option.some.inj h ▸ .delete d
  | devDel m ok =>
    obtain ⟨x, hm, h⟩ := Option.bind_eq_some_iff.mp h
    exact cmdDevDel_cases hm h
  | handshake m k j =>
    obtain ⟨x, hm, h⟩ := Option.bind_eq_some_iff.mp h
    obtain ⟨σ, hk, h⟩ := Option.bind_eq_some_iff.mp h
    split_ifs at h with hc
    exact Option.some.inj h ▸ .handshake m k j x σ hm hk hc.1 hc.2
  | remove m ok =>
    obtain ⟨x, hm, h⟩ := Option.bind_eq_some_iff.mp h
    split_ifs at h with hc
    exact Option.some.inj h ▸ .remove m ok x hm hc
  | removed id => exact Option.some.inj h ▸ .removed id

end GoUblksrv.Device
