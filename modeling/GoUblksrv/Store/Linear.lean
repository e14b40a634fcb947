import GoUblksrv.Lib.Simulation
import GoUblksrv.Store.Served

namespace GoUblksrv.Store

open Pool (Reply Method Handler Task sectors initParams)
open Atomic (Event Phase)

variable {τ : Type*} {H : IOHandler τ} {s s' : State τ} {v₀ : τ} {a : Act} {size : Int64}
  {I : τ → Prop} {contents : τ → Disk} {punch : Disk → ℕ → ℕ → Disk} {maxIoBufBytes : UInt32}
  {p p' : Pool.State} {t t' : Task} {k : ℕ}

def resultOf (t : Task) (reply : Reply) : Result where
  res := t.finalRes.toInt
  data := if ublksrvGetOp t.iod = ublkIoOpRead then bytes reply.p t.dataLen else []

/-- How far a request has come, for the disk. -/
def phaseOf (p : Pool.State) (t : Task) : Phase Op Result :=
  if t.commits = [] then
    match t.reply with
    | none => .pending (Op.of t.iod (p.bufs t.q t.tag))
    | some reply => .applied (Op.of t.iod (p.bufs t.q t.tag)) (resultOf t reply)
  else .done

def State.phase (p : Pool.State) (k : ℕ) : Phase Op Result := p.tasks[k]?.elim .idle (phaseOf p)

structure Sim (contents : τ → Disk) (s : State τ) (c : Atomic.State Disk Op Result) : Prop where
  value : c.value = contents s.backing
  history : c.history = s.history
  phase : ∀ k, c.phase k = State.phase s.pool k

/-- What is known of the goroutines when the handler answers every call. -/
structure Facts (size : Int64) (p : Pool.State) : Prop where
  custody : Pool.Custody p
  stage : ∀ t ∈ p.tasks, Pool.Stage p t
  report : ∀ t ∈ p.tasks, Pool.Report p t
  exclusive : Pool.Exclusive p
  free : ∀ q tag, p.tagFree q tag = true → ∀ t ∈ p.tasks, t.q = q → t.tag = tag → t.commits ≠ []
  transfer : ∀ t ∈ p.tasks, Pool.Transfer p t
  bounded : ∀ t ∈ p.tasks, Pool.Bounded size t.iod

theorem sound_timely {prm : Pool.Params} (h : Pool.machine.Reach (Sound prm) p) :
    Pool.machine.Reach Pool.Timely p :=
  Pool.faithful_timely (h.mono fun _ _ hc => hc.2.2)

theorem facts_reach (hs : 0 ≤ size.toInt) (hb : maxIoBufBytes.toNat ≤ defBufSize)
    (h : Pool.machine.Reach (Sound (initParams maxIoBufBytes (sectors size))) p) : Facts size p where
  custody := Pool.custody_reach h
  stage := Pool.stage_reach h
  report := Pool.report_reach (sound_timely h)
  exclusive := Pool.exclusive_reach (sound_timely h)
  free _ _ hfr _ ht := Pool.tagFree_commits (sound_timely h) hfr ht
  transfer := Pool.transfer_reach (h.mono fun _ _ hc => hc.2.2)
  bounded := bounded_tasks hs hb h

theorem bytes_congr {b c : ℕ → UInt8} {n : ℕ} (h : ∀ i < n, b i = c i) : bytes b n = bytes c n := by
  apply List.map_congr_left
  intro i hi
  exact h i (List.mem_range.mp hi)

theorem Disk.write_bytes (v : Disk) (off n : ℕ) (b : ℕ → UInt8) :
    (v.write off (bytes b n).length fun i => (bytes b n).getD i 0) = v.write off n b := by
  have hlen : (bytes b n).length = n := by rw [bytes, List.length_map, List.length_range]
  funext i
  rw [Disk.write, Disk.write, hlen]
  split_ifs with hi
  · have hlt : i - off < n := by omega
    rw [bytes, List.getD_eq_getElem?_getD, List.getElem?_map, List.getElem?_range hlt]
    rfl
  · rfl

theorem Op.of_congr {iod : IoDesc} {b c : ℕ → UInt8} (h : ublksrvGetOp iod = ublkIoOpWrite → b = c) :
    Op.of iod b = Op.of iod c := by
  by_cases hw : ublksrvGetOp iod = ublkIoOpWrite
  · rw [h hw]
  · simp only [Op.of, if_neg hw]

theorem phaseOf_congr
    (h : t.commits = [] → ublksrvGetOp t.iod = ublkIoOpWrite → p'.bufs t.q t.tag = p.bufs t.q t.tag) :
    phaseOf p' t = phaseOf p t := by
  by_cases hc : t.commits = []
  · simp only [phaseOf, if_pos hc, Op.of_congr (h hc)]
  · simp only [phaseOf, if_neg hc]

theorem phase_same (htasks : p'.tasks = p.tasks) (hb : p'.bufs = p.bufs) (j : ℕ) :
    State.phase p' j = State.phase p j := by
  have hphase : phaseOf p' = phaseOf p := by
    funext t
    exact phaseOf_congr fun _ _ => by rw [hb]
  rw [State.phase, State.phase, htasks, hphase]

theorem phase_set (ht : p.tasks[k]? = some t) (htasks : p'.tasks = p.tasks.set k t')
    (hother : ∀ j u, j ≠ k → p.tasks[j]? = some u → phaseOf p' u = phaseOf p u) (j : ℕ) :
    State.phase p' j = if j = k then phaseOf p' t' else State.phase p j := by
  rw [State.phase, htasks, List.elim_set_of_get ht]
  split_ifs with hj
  · rfl
  · rw [State.phase]
    cases hu : p.tasks[j]? with
    | none => rfl
    | some u => exact hother j u hj hu

theorem phase_move (ht : p.tasks[k]? = some t) (htasks : p'.tasks = p.tasks.set k t')
    (hb : p'.bufs = p.bufs) (hp : phaseOf p t' = phaseOf p t) (j : ℕ) :
    State.phase p' j = State.phase p j := by
  have hsame : ∀ u, phaseOf p' u = phaseOf p u := fun u => phaseOf_congr fun _ _ => by rw [hb]
  rw [phase_set ht htasks fun j u _ _ => hsame u]
  split_ifs with hj
  · rw [hsame, hp, State.phase, hj, ht]
    rfl
  · rfl

section

variable {c : Atomic.State Disk Op Result}

/-- Some run of the disk matches a step of the device to `s'`. -/
def Matched (contents : τ → Disk) (punch : Disk → ℕ → ℕ → Disk) (v : Disk)
    (c : Atomic.State Disk Op Result) (s' : State τ) : Prop :=
  ∃ bs c', (Atomic.machine (Disk.apply punch) v).run c bs = some c' ∧ Sim contents s' c'

theorem Sim.quiet {v : Disk} (hR : Sim contents s c) (hbk : s'.backing = s.backing)
    (hh : s'.history = s.history) (hp : ∀ j, State.phase s'.pool j = State.phase s.pool j) :
    Matched contents punch v c s' := by
  refine ⟨[], c, rfl, ?_⟩
  constructor
  · rw [hR.value, hbk]
  · rw [hR.history, hh]
  · intro j
    rw [hR.phase, hp]

theorem Sim.deliver {v : Disk} (hR : Sim contents s c) {q tag i o : ℕ} {iod : IoDesc}
    {buf : ℕ → UInt8} (hfree : ∀ u ∈ s.pool.tasks, u.q = q → u.tag = tag → u.commits ≠ [])
    (hbk : s'.backing = s.backing)
    (hh : s'.history = s.history ++ [.invoke s.pool.tasks.length (Op.of iod buf)])
    (hpool : s'.pool = { Pool.onRequestAsync s.pool q tag iod o i with
      iods := Function.update s.pool.iods q (Function.update (s.pool.iods q) tag iod)
      bufs := Function.update s.pool.bufs q (Function.update (s.pool.bufs q) tag buf)
      inFlight := Function.update s.pool.inFlight q
        (Function.update (s.pool.inFlight q) tag (some s.pool.tasks.length)) }) :
    Matched contents punch v c s' := by
  have hidle : c.phase s.pool.tasks.length = .idle := by
    rw [hR.phase, State.phase, List.getElem?_eq_none (le_refl _)]
    rfl
  refine ⟨[.invoke s.pool.tasks.length (Op.of iod buf)], _, Atomic.run_invoke hidle, ?_⟩
  constructor
  · exact hR.value.trans (congrArg contents hbk.symm)
  · rw [hh, ← hR.history]
    rfl
  · intro j
    rw [Atomic.invoke_phase, State.phase, hpool]
    change _ = (s.pool.tasks ++ [_])[j]?.elim _ _
    rcases Nat.lt_trichotomy j s.pool.tasks.length with hj | hj | hj
    · rw [Function.update_of_ne (by omega), List.getElem?_append_left hj, hR.phase, State.phase]
      cases hu : s.pool.tasks[j]? with
      | none => rfl
      | some u =>
        refine (phaseOf_congr ?_).symm
        intro hn _
        exact Pool.update_tag fun hq htag => hfree u (List.mem_of_getElem? hu) hq htag hn
    · subst hj
      rw [Function.update_self, List.getElem?_concat_length]
      simp [phaseOf]
    · rw [Function.update_of_ne (by omega), List.getElem?_eq_none (by simp; omega), hR.phase,
        State.phase, List.getElem?_eq_none (by omega)]
      rfl

theorem Sim.respond {v : Disk} (hR : Sim contents s c) (ht : s.pool.tasks[k]? = some t)
    {reply : Reply} (hn : t.commits = []) (hreply : t.reply = some reply)
    (hbk : s'.backing = s.backing) (hh : s'.history = s.history ++ [.respond k (resultOf t reply)])
    (htasks : s'.pool.tasks = s.pool.tasks.set k t') (hb : s'.pool.bufs = s.pool.bufs)
    (hdone : t'.commits ≠ []) : Matched contents punch v c s' := by
  have happlied : c.phase k =
      .applied (Op.of t.iod (s.pool.bufs t.q t.tag)) (resultOf t reply) := by
    rw [hR.phase, State.phase, ht, Option.elim_some, phaseOf, if_pos hn, hreply]
  refine ⟨_, _, Atomic.run_respond happlied, ?_⟩
  constructor
  · exact hR.value.trans (congrArg contents hbk.symm)
  · rw [hh, ← hR.history]
    rfl
  · intro j
    rw [Atomic.respond_phase, phase_set ht htasks fun j u _ _ => phaseOf_congr fun _ _ => by rw [hb]]
    by_cases hj : j = k
    · rw [hj, Function.update_self, if_pos rfl, phaseOf, if_neg hdone]
    · rw [Function.update_of_ne hj, if_neg hj, hR.phase]

theorem Sim.perform {v : Disk} (hR : Sim contents s c) (ht : s.pool.tasks[k]? = some t)
    {reply : Reply} (hn : t.commits = []) (hnone : t.reply = none) (hh : s'.history = s.history)
    (htasks : s'.pool.tasks = s.pool.tasks.set k { t with reply := some reply })
    (hb : s'.pool.bufs = s.pool.bufs)
    (happly : Disk.apply punch (contents s.backing) (Op.of t.iod (s.pool.bufs t.q t.tag)) =
      (contents s'.backing, resultOf t reply)) : Matched contents punch v c s' := by
  have hpending : c.phase k = .pending (Op.of t.iod (s.pool.bufs t.q t.tag)) := by
    rw [hR.phase, State.phase, ht, Option.elim_some, phaseOf, if_pos hn, hnone]
  rw [← hR.value] at happly
  refine ⟨_, _, Atomic.run_perform hpending, ?_⟩
  constructor
  · exact congrArg Prod.fst happly
  · exact hR.history.trans hh.symm
  · intro j
    rw [Atomic.perform_phase, phase_set ht htasks fun j u _ _ => phaseOf_congr fun _ _ => by rw [hb], happly]
    by_cases hj : j = k
    · rw [hj, Function.update_self, if_pos rfl, phaseOf]
      change _ = if t.commits = [] then _ else _
      rw [if_pos hn, hb]
      rfl
    · rw [Function.update_of_ne hj, if_neg hj, hR.phase]

theorem Facts.op (hf : Facts size p) {g : Handler} (hg : g ∈ p.handlers) (ht : p.tasks[k]? = some t)
    (ha : t.active = true) (ho : t.obj = g.obj) :
    (g.method = .read ∧ ublksrvGetOp t.iod = ublkIoOpRead) ∨
      (g.method = .write ∧ ublksrvGetOp t.iod = ublkIoOpWrite ∧ t.opType = longhornCmdTypeWrite) ∨
      (g.method = .unmap ∧ ublksrvGetOp t.iod = ublkIoOpDiscard ∧ t.opType = longhornCmdTypeUnmap) := by
  have hop := (hf.custody.captured k t ht).opType
  have hmeth := hf.custody.methods g hg
  rw [← ho, (hf.custody.loaded k t ht ha).type, hop] at hmeth
  rcases reqToLonghornCmdType_cases t.iod with ⟨h, hty⟩ | ⟨h, hty⟩ | ⟨h, hty⟩ | hty
  · rw [hty] at hmeth
    exact .inl ⟨(Option.some.inj hmeth).symm, h⟩
  · rw [hty] at hmeth hop
    exact .inr (.inl ⟨(Option.some.inj hmeth).symm, h, hop⟩)
  · rw [hty] at hmeth hop
    exact .inr (.inr ⟨(Option.some.inj hmeth).symm, h, hop⟩)
  · have hnone : Pool.methodOf (-1 : Int32).toUInt32 = none := rfl
    rw [hty, hnone] at hmeth
    cases hmeth

theorem Facts.supported (hf : Facts size p) (ht : p.tasks[k]? = some t) : t.opType ≠ -1 := by
  have hop := (hf.custody.captured k t ht).opType
  rw [hop]
  rcases (hf.bounded t (List.mem_of_getElem? ht)).op with ⟨hrw, -⟩ | hd
  · rcases Pool.reqToLonghornCmdType_readWrite hrw with h | h <;> rw [h] <;> decide
  · rw [Pool.reqToLonghornCmdType_discard hd]
    decide

theorem not_write_of_read {iod : IoDesc} (h : ublksrvGetOp iod = ublkIoOpRead) :
    ublksrvGetOp iod ≠ ublkIoOpWrite := by
  rw [h]
  decide

theorem Facts.apply_answer (hf : Facts size p) {g : Handler} {v : τ} {x : τ × Reply} (hg : g ∈ p.handlers)
    (ht : p.tasks[k]? = some t) (ha : t.active = true) (ho : t.obj = g.obj)
    (hcall : Pool.Called size t.iod (p.objs g.obj) g.method) (hok : AnswerOk I contents punch p g v x) :
    Disk.apply punch (contents v) (Op.of t.iod (p.bufs t.q t.tag)) =
      (contents x.1, resultOf t x.2) := by
  have hcap := hf.custody.captured k t ht
  have hload := hf.custody.loaded k t ht ha
  have hlen : t.dataLen = t.iod.nrSectors.toNat * 512 := by
    rw [hcap.dataLen, Pool.iovLen, Pool.shl9_toNat (hf.bounded t (List.mem_of_getElem? ht)).nrSectors]
  have hoff : (p.objs g.obj).offset.toInt.toNat = t.iod.startSector.toNat * 512 := by
    have := hcall.offset
    omega
  rw [hok.bytes]
  rcases hf.op hg ht ha ho with ⟨hm, hop⟩ | ⟨hm, hop, hty⟩ | ⟨hm, hop, hty⟩
  · have hres := Pool.finalRes_dataLen hcap (.inl hop)
    simp only [Op.of, if_pos hop, Disk.apply, effect, hm, resultOf, hres, hlen]
    congr 2
    apply bytes_congr
    intro i hi
    rw [hok.read hm i (hcall.reqSize ▸ hi), hoff]
  · have hres := Pool.finalRes_dataLen hcap (.inr hop)
    have hread : ublksrvGetOp t.iod ≠ ublkIoOpRead := by
      rw [hop]
      decide
    have hw : (p.objs g.obj).wData = ⟨t.q, t.tag, t.dataLen⟩ := ho ▸ hload.wData hty
    simp only [Op.of, if_neg hread, if_pos hop, Disk.apply, effect, hm, resultOf, hres, Disk.write_bytes,
      hw, hoff, hlen]
    simp [bytes]
  · have hread : ublksrvGetOp t.iod ≠ ublkIoOpRead := by
      rw [hop]
      decide
    have hwrite : ublksrvGetOp t.iod ≠ ublkIoOpWrite := by
      rw [hop]
      decide
    have hzero : t.finalRes = 0 := if_pos hty
    simp only [Op.of, if_neg hread, if_neg hwrite, Disk.apply, effect, hm, resultOf, hzero, hoff,
      hcall.reqSize]
    rfl

theorem Facts.call {v : Disk} (hf : Facts size s.pool) (hR : Sim contents s c)
    (hcalled : ∀ g ∈ s.pool.handlers, ∃ t ∈ s.pool.tasks, t.obj = g.obj ∧ t.pc = .recvComplete ∧
      Pool.Called size t.iod (s.pool.objs g.obj) g.method)
    (hH : H.Stores size.toInt I contents punch) (hI : I s.backing) {j : ℕ} {g : Handler}
    (hg : s.pool.handlers[j]? = some g)
    (hst : Pool.Step s.pool (.handle j (answer H s.pool s.backing g).2) p) :
    Matched contents punch v c { s with pool := p, backing := (answer H s.pool s.backing g).1 } := by
  cases hst with
  | handle _ g' _ r hg' hs hr =>
    obtain rfl : g = g' := Option.some.inj (hg.symm.trans hg')
    have hmem := List.mem_of_getElem? hg
    obtain ⟨t, hm, hto, hp, hcall⟩ := hcalled g hmem
    obtain ⟨k, ht⟩ := List.mem_iff_getElem?.mp hm
    have ha : t.active = true := by simp [Pool.Task.active, hp]
    have hrid : (s.pool.objs g.obj).rid = k := hto ▸ hf.custody.rid k t ht ha
    have hnone := (hf.stage t hm).fresh hp (.inr ⟨g, hmem, hto.symm, hs⟩)
    have hn : t.commits = [] := by
      have hrep := (hf.report t hm).reported
      rw [Pool.Task.Reported, hp] at hrep
      exact List.map_eq_nil_iff.mp hrep
    have hok := answer_ok hH hI hcall
    have htasks : s.pool.record g.obj (answer H s.pool s.backing g).2 = _ :=
      Pool.record_eq_set (hrid.symm ▸ ht)
    rw [hrid] at htasks
    exact hR.perform ht hn hnone rfl htasks rfl (hf.apply_answer hmem ht ha hto hcall hok)

theorem Facts.seen (hf : Facts size p) (ht : p.tasks[k]? = some t) {res : Int32} (hp : t.pc = .complete res) :
    t.commits = [] ∧ ∃ reply, t.reply = some reply ∧ seen p t res = resultOf t reply := by
  have hm := List.mem_of_getElem? ht
  have htr := hf.transfer t hm
  have hrep := (hf.report t hm).reported
  have hcap := hf.custody.captured k t ht
  rw [Pool.Task.Reported, hp] at hrep
  have hres : res = t.finalRes := hrep.2 htr.sound
  have hn := Pool.uncommitted (hf.report t hm).reported htr.sound (.inl (by rw [hp]; rfl))
  obtain ⟨reply, hreply, -⟩ := (hf.stage t hm).received (by rw [hp]; rfl) (hf.supported ht)
  refine ⟨hn, reply, hreply, ?_⟩
  rw [Store.seen, resultOf, hres]
  by_cases hop : ublksrvGetOp t.iod = ublkIoOpRead
  · have hread : t.opType = longhornCmdTypeRead := by rw [hcap.opType, reqToLonghornCmdType, if_pos hop]
    obtain ⟨reply', hreply', -, hb⟩ := htr.held hread (by rw [hp]; rfl)
    obtain rfl : reply = reply' := Option.some.inj (hreply.symm.trans hreply')
    rw [if_pos hop, if_pos hop, Pool.finalRes_dataLen hcap (.inl hop), Int.toNat_natCast, bytes_congr hb]
  · rw [if_neg hop, if_neg hop]

theorem Facts.pool {v : Disk} (hf : Facts size s.pool) (hR : Sim contents s c) {b : Pool.Act}
    (hb : ∀ j reply, b ≠ .handle j reply) (hst : Pool.Step s.pool b p) :
    Matched contents punch v c { s with pool := p, history := s.history ++ events s.pool b } := by
  have quiet : events s.pool b = [] → (∀ j, State.phase p j = State.phase s.pool j) →
      Matched contents punch v c { s with pool := p, history := s.history ++ events s.pool b } := by
    intro he hphase
    refine hR.quiet rfl ?_ hphase
    rw [he]
    exact List.append_nil _
  have silent : ∀ {k : ℕ} {t : Task}, s.pool.tasks[k]? = some t → t.pc ≠ .failComplete →
      (∀ res, t.pc ≠ .complete res) → events s.pool (.task k) = [] := by
    intro k t ht hfail hcomp
    rw [events, ht, Option.elim_some]
    split
    · exact absurd ‹_› hfail
    · exact absurd ‹_› (hcomp _)
    · rfl
  cases hst with
  | deliver q tag iod buf i o hiss hfree ho => exact hR.deliver (hf.free q tag hfree) rfl rfl rfl
  | spawn | unknown | dispatchSend | handlerSend =>
    apply quiet rfl
    exact phase_same rfl rfl
  | handle j g reply r hg hs hr => exact absurd rfl (hb j reply)
  | sendRequest k t ht hp | recvComplete k t ht hp | check k t _ ht hp | finalRes k t _ ht hp
  | putMsg k t ht hp | copySkip k t ht hp =>
    apply quiet (silent ht (by simp [hp]) (by simp [hp]))
    exact phase_move ht rfl rfl rfl
  | failComplete k t ht hp =>
    -- no goroutine comes here, as no call has failed
    have hrep := (hf.report t (List.mem_of_getElem? ht)).reported
    rw [Pool.Task.Reported, hp] at hrep
    rw [(hf.transfer t (List.mem_of_getElem? ht)).sound] at hrep
    exact absurd hrep.2 (by decide)
  | copyRead k t ht hp hop =>
    apply quiet (silent ht (by simp [hp]) (by simp [hp]))
    have hm := List.mem_of_getElem? ht
    have hn := Pool.uncommitted (hf.report t hm).reported (hf.transfer t hm).sound (.inr hp)
    have hread : ublksrvGetOp t.iod = ublkIoOpRead := by
      have hty := (hf.custody.captured k t ht).opType
      rw [hop] at hty
      rcases reqToLonghornCmdType_cases t.iod with ⟨h, -⟩ | ⟨-, h⟩ | ⟨-, h⟩ | h
      · exact h
      · exact absurd (hty.trans h) (by decide)
      · exact absurd (hty.trans h) (by decide)
      · exact absurd (hty.trans h) (by decide)
    intro j
    rw [phase_set ht rfl]
    · split_ifs with hj
      · rw [State.phase, hj, ht]
        exact phaseOf_congr fun _ hw => absurd hw (not_write_of_read hread)
      · rfl
    · intro i u hi hu
      apply phaseOf_congr
      intro hnu _
      exact Pool.update_tag fun hq htag => hi (hf.exclusive i k u t hu ht hnu hn hq htag)
  | complete k t res ht hp =>
    obtain ⟨hn, reply, hreply, hseen⟩ := hf.seen ht hp
    have he : events s.pool (.task k) = [.respond k (resultOf t reply)] := by
      rw [events, ht, Option.elim_some, hp, ← hseen]
    rw [he]
    refine hR.respond ht hn hreply rfl rfl rfl rfl ?_
    simp [Pool.Task.completeIo]

end

theorem simulates (hH : H.Stores size.toInt I contents punch) (hI : I v₀) (hs : 0 ≤ size.toInt)
    (hb : maxIoBufBytes.toNat ≤ defBufSize) :
    (machine H v₀).Simulates (Atomic.machine (Disk.apply punch) (contents v₀)) (Within size maxIoBufBytes)
      (Sim contents) where
  init := by
    rintro s ⟨iods, bufs, rfl⟩
    refine ⟨Atomic.start (contents v₀), rfl, rfl, rfl, ?_⟩
    intro k
    rfl
  step := by
    intro s a s' c hr hc hst hR
    obtain ⟨hIs, hpool⟩ := pool_reach hH hI hs hb hr
    have hf := facts_reach hs hb hpool
    cases step_cases hst with
    | pool b p hb' hp => exact hf.pool hR hb' (Pool.step_cases hp)
    | call j g p hg hp =>
      exact hf.call hR (fun g hg => called_handler hs hb hpool hg) hH hIs hg (Pool.step_cases hp)

theorem delivered_answered {c : Atomic.State Disk Op Result} {v : Disk} (hR : Sim contents s c)
    (hc : (Atomic.machine (Disk.apply punch) v).Reach Machine.Free c) (ht : s.pool.tasks[k]? = some t)
    (hn : t.commits ≠ []) : ∃ r, .respond k r ∈ s.history := by
  have hdone : c.phase k = .done := by
    rw [hR.phase, State.phase, ht, Option.elim_some, phaseOf, if_neg hn]
  rw [← hR.history]
  exact (Atomic.inv_reach hc).phased.answered k hdone

theorem linearizable (H : IOHandler τ) (size : Int64) (I : τ → Prop) (contents : τ → Disk)
    (punch : Disk → ℕ → ℕ → Disk) (hH : H.Stores size.toInt I contents punch) (v₀ : τ) (hI : I v₀)
    (maxIoBufBytes : UInt32) (hs : 0 ≤ size.toInt) (hb : maxIoBufBytes.toNat ≤ defBufSize) (s : State τ)
    (h : (machine H v₀).Reach (Within size maxIoBufBytes) s) :
    Atomic.Linearizable (Disk.apply punch) (contents v₀) (contents s.backing) s.history ∧
      ∀ (k : ℕ) (t : Task), s.pool.tasks[k]? = some t → t.commits ≠ [] → ∃ r, .respond k r ∈ s.history := by
  obtain ⟨c, hc, hR⟩ := (simulates hH hI hs hb).reach h
  constructor
  · rw [← hR.value, ← hR.history]
    exact Atomic.linearizable_reach hc
  · intro k t ht hn
    exact delivered_answered hR hc ht hn

end GoUblksrv.Store
