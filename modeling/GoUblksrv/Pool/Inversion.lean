import GoUblksrv.Pool.Actors

namespace GoUblksrv.Pool

inductive Step (s : State) : Act → State → Prop
  | deliver (q tag : ℕ) (iod : IoDesc) (buf : ℕ → UInt8) (i o : ℕ) : issued iod = true →
      s.tagFree q tag = true → s.msgChan[i]? = some o →
      Step s (.deliver q tag iod buf i)
        { onRequestAsync s q tag iod o i with
          iods := Function.update s.iods q (Function.update (s.iods q) tag iod)
          bufs := Function.update s.bufs q (Function.update (s.bufs q) tag buf)
          inFlight := Function.update s.inFlight q (Function.update (s.inFlight q) tag (some s.tasks.length)) }
  | spawn (o : ℕ) (rest : List ℕ) (m : Method) : s.dispatching = none → s.requests = o :: rest →
      methodOf (s.objs o).type = some m →
      Step s .dispatch { s with requests := rest, handlers := s.handlers ++ [⟨o, m, false⟩] }
  | unknown (o : ℕ) (rest : List ℕ) : s.dispatching = none → s.requests = o :: rest →
      methodOf (s.objs o).type = none →
      Step s .dispatch { s with requests := rest, dispatching := some o }
  | dispatchSend (o : ℕ) : s.dispatching = some o → (s.objs o).complete < 1 →
      Step s .dispatchSend
        { s.setObj o { s.objs o with complete := (s.objs o).complete + 1 } with dispatching := none }
  | handle (j : ℕ) (h : Handler) (reply : Reply) (r : Request) : s.handlers[j]? = some h →
      h.sending = false → runMethod (s.objs h.obj) h.method reply = some r →
      Step s (.handle j reply)
        { s.setObj h.obj r with
          handlers := s.handlers.set j { h with sending := true }
          tasks := s.record h.obj reply }
  | handlerSend (j : ℕ) (h : Handler) : s.handlers[j]? = some h → h.sending = true →
      (s.objs h.obj).complete < 1 →
      Step s (.handlerSend j)
        { s.setObj h.obj { s.objs h.obj with complete := (s.objs h.obj).complete + 1 } with
          handlers := s.handlers.eraseIdx j }
  | sendRequest (k : ℕ) (t : Task) : s.tasks[k]? = some t → t.pc = .sendRequest →
      s.requests.length < chanCap →
      Step s (.task k)
        { s.setTask k { t with pc := .recvComplete } with requests := s.requests ++ [t.obj] }
  | recvComplete (k : ℕ) (t : Task) : s.tasks[k]? = some t → t.pc = .recvComplete →
      0 < (s.objs t.obj).complete →
      Step s (.task k)
        ((s.setTask k { t with pc := .check }).setObj t.obj
          { s.objs t.obj with complete := (s.objs t.obj).complete - 1 })
  | check (k : ℕ) (t : Task) (failed : Bool) : s.tasks[k]? = some t → t.pc = .check →
      failed = decide ((s.objs t.obj).result = -1) →
      Step s (.task k)
        (s.setTask k { t with failed := failed, pc := if failed then .failComplete else .copyOut })
  | failComplete (k : ℕ) (t : Task) : s.tasks[k]? = some t → t.pc = .failComplete →
      Step s (.task k) (s.completeIo k t eio .copyOut)
  | copyRead (k : ℕ) (t : Task) : s.tasks[k]? = some t → t.pc = .copyOut →
      t.opType = longhornCmdTypeRead →
      Step s (.task k)
        { s.setTask k
            { t with
              pc := .finalRes
              copied := some (min t.dataLen (s.objs t.obj).rLen, (s.objs t.obj).rData) } with
          bufs := Function.update s.bufs t.q (Function.update (s.bufs t.q) t.tag
            (copyOut (s.bufs t.q t.tag) t.dataLen (s.objs t.obj))) }
  | copySkip (k : ℕ) (t : Task) : s.tasks[k]? = some t → t.pc = .copyOut →
      t.opType ≠ longhornCmdTypeRead →
      Step s (.task k) (s.setTask k { t with pc := .finalRes })
  | finalRes (k : ℕ) (t : Task) (res : Int32) : s.tasks[k]? = some t → t.pc = .finalRes →
      res = (if t.opType = longhornCmdTypeUnmap then (0 : Int32)
        else (getNrSectors (s.iods t.q t.tag) <<< 9).toInt32) →
      Step s (.task k) (s.setTask k { t with pc := .complete res })
  | complete (k : ℕ) (t : Task) (res : Int32) : s.tasks[k]? = some t → t.pc = .complete res →
      Step s (.task k) (s.completeIo k t res .putMsg)
  | putMsg (k : ℕ) (t : Task) : s.tasks[k]? = some t → t.pc = .putMsg →
      s.msgChan.length < chanCap →
      Step s (.task k) { s.setTask k { t with pc := .ended } with msgChan := s.msgChan ++ [t.obj] }

theorem taskStep_cases {s s' : State} {k : ℕ} {t : Task} (ht : s.tasks[k]? = some t)
    (h : taskStep s k t = some s') : Step s (.task k) s' := by
  cases hp : t.pc with
  | sendRequest =>
    simp only [taskStep, hp] at h
    split_ifs at h with hc
    cases h
    exact .sendRequest k t ht hp hc
  | recvComplete =>
    simp only [taskStep, hp] at h
    split_ifs at h with hc
    cases h
    exact .recvComplete k t ht hp hc
  | check =>
    simp only [taskStep, hp, Option.some.injEq] at h
    exact h ▸ .check k t _ ht hp rfl
  | failComplete =>
    simp only [taskStep, hp, Option.some.injEq] at h
    exact h ▸ .failComplete k t ht hp
  | copyOut =>
    simp only [taskStep, hp] at h
    split_ifs at h with hc <;> cases h
    · exact .copyRead k t ht hp hc
    · exact .copySkip k t ht hp hc
  | finalRes =>
    simp only [taskStep, hp, Option.some.injEq] at h
    exact h ▸ .finalRes k t _ ht hp rfl
  | complete res =>
    simp only [taskStep, hp, Option.some.injEq] at h
    exact h ▸ .complete k t res ht hp
  | putMsg =>
    simp only [taskStep, hp] at h
    split_ifs at h with hc
    cases h
    exact .putMsg k t ht hp hc
  | ended => simp [taskStep, hp] at h

theorem step_cases {s s' : State} {a : Act} (h : step s a = some s') : Step s a s' := by
  cases a with
  | deliver q tag iod buf i =>
    simp only [step] at h
    split_ifs at h with hc
    obtain ⟨o, ho, rfl⟩ := Option.map_eq_some_iff.mp h
    simp only [Bool.and_eq_true] at hc
    exact .deliver q tag iod buf i o hc.1 hc.2 ho
  | dispatch =>
    simp only [step] at h
    unfold handleRequests at h
    split at h
    · rename_i o rest hd hr
      split at h
      · rename_i m hm
        cases h
        exact .spawn o rest m hd hr hm
      · rename_i hm
        cases h
        exact .unknown o rest hd hr hm
    · cases h
  | dispatchSend =>
    simp only [step] at h
    obtain ⟨o, ho, h⟩ := Option.bind_eq_some_iff.mp h
    split_ifs at h with hc
    cases h
    exact .dispatchSend o ho hc
  | handle j reply =>
    simp only [step] at h
    obtain ⟨hd, hj, h⟩ := Option.bind_eq_some_iff.mp h
    split_ifs at h with hs
    obtain ⟨r, hr, rfl⟩ := Option.map_eq_some_iff.mp h
    exact .handle j hd reply r hj (by simpa using hs) hr
  | handlerSend j =>
    simp only [step] at h
    obtain ⟨hd, hj, h⟩ := Option.bind_eq_some_iff.mp h
    split_ifs at h with hs
    cases h
    exact .handlerSend j hd hj hs.1 hs.2
  | task k =>
    simp only [step] at h
    obtain ⟨t, ht, h⟩ := Option.bind_eq_some_iff.mp h
    exact taskStep_cases ht h

end GoUblksrv.Pool
