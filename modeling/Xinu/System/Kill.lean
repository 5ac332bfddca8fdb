import Xinu.Refine.WellFormed
import Xinu.Sched.Frame

/-!
# Killing a thread

`kill` tells the victim's parent and then tears the victim down: it frees the stack, takes the
victim off its queue and frees the slot. Between the two other threads may run. The tear-down does
what it should for a victim that runs, is ready, suspended, waits on a semaphore or for a message.
A victim on the sleep queue stays there with a free slot: for `THRSLEEP` the slot is already free
when `unsleep` looks at it, and `THRTMOUT` has no case of its own. A parent that waits for a message
gets on the ready list.

## Main results

* `kill_tornDown_iff`: which victims are torn down
-/

namespace Xinu

set_option maxRecDepth 8000

open Function KeyedList Kernel

namespace Kernel

/-- The time a sleeping thread has left: the sum of the delays up to its own. -/
def remaining (s : Kernel) (t : Int) : Int :=
  due (fun i => (s.quetab i).key) (s.queue s.sleepq) t

/-- The thread `tid` is free and on no queue, each queue holds the other threads in the same order
(but for the thread that now has the processor), the sleeping threads have as much time left as
before, the processor has stayed where it was or has gone to the first thread that was ready, and
the state is well formed. -/
structure TornDown (s s' : Kernel) (tid : Int) : Prop where
  free : s'.state tid = .free
  off : ∀ q, IsQueue q → tid ∉ s'.queue q
  queue : ∀ q, IsQueue q → s'.queue q = ((s.queue q).erase tid).erase s'.thrcurrent
  remaining : ∀ t ∈ s.queue s.sleepq, t ≠ tid → s'.remaining t = s.remaining t
  next : s'.thrcurrent = s.thrcurrent ∨ (s.queue s.readylist).head? = some s'.thrcurrent
  wellFormed : s'.WellFormed

/-- The thread waits for a message. -/
def Awaits (s : Kernel) (t : Int) : Prop :=
  ¬ s.isbadtid t ∧ (s.thrtab t).hasmsg = false ∧ (s.state t = .recv ∨ s.state t = .tmout)
deriving Decidable

end Kernel

/-! ## On lists -/

namespace Sched

variable {v v' : Sched} {t : Int} {evs : List Event} {k : Context}

/-- `t` is free and has left its queue, and so has the thread that now has the processor. -/
structure TornDown (v v' : Sched) (t : Int) : Prop where
  free : v'.state t = .free
  queue : ∀ q, IsQueue q → v'.queue q = ((v.queue q).erase t).erase v'.thrcurrent
  sleepq : v'.queue v'.sleepq = (v.queue v.sleepq).erase t
  key : v'.key = v.key
  next : v'.thrcurrent = v.thrcurrent ∨ (v.queue v.readylist).head? = some v'.thrcurrent

/-- The events of a tear-down, for a victim that is not on the sleep queue. -/
theorem Script.kill_cases (h : v.Script .cont evs k) (hctx : v.self.ctx = .kill t)
    (hfree : v.state t ≠ .free) : ∃ e, t = v.thrcurrent ∧ evs = [.heap e, .free t, .resched] ∨
      (∃ i st c, evs = [.heap e, .sem i st c, .free t]) ∨ evs = [.heap e, .free t] := by
  cases h with
  | refused h => exact h.elim
  | suicide h =>
    obtain rfl : v.thrcurrent = t := by simpa [h] using hctx
    exact ⟨_, .inl ⟨rfl, rfl⟩⟩
  | killWaiting h =>
    obtain rfl : _ = t := by simpa [h] using hctx
    exact ⟨_, .inr (.inl ⟨_, _, _, rfl⟩)⟩
  | killOther h =>
    obtain rfl : _ = t := by simpa [h] using hctx
    exact ⟨_, .inr (.inr rfl)⟩
  | killFree h _ hst =>
    obtain rfl : _ = t := by simpa [h] using hctx
    exact absurd hst hfree
  | idle h | «return» h | suspendRest h | receiveRest h | recvtimeRest h | timeout h =>
    simp [h] at hctx

/-- **The tear-down of a victim that is not on the sleep queue.** -/
theorem Step.tornDown (h : v.Step .cont k v') (S : v.Sound)
    (hrun : v.Running) (hctx : v.self.ctx = .kill t)
    (hfree : v.state t ≠ .free) : TornDown v v' t := by
  obtain ⟨evs, hscript, r⟩ := h
  have hstate : ∀ (w : Sched) (k : Context) (c : Int), (w.apply (.ctx c k)).state t = w.state t :=
    fun w k c => state_apply w _ t
  obtain ⟨e, ⟨rfl, rfl⟩ | ⟨i, st, c, rfl⟩ | rfl⟩ := hscript.kill_cases hctx hfree
  · -- the thread has killed itself, and the first ready thread gets the processor
    obtain ⟨w, r₁, -, rfl⟩ := Machine.run_snoc_iff.mp r
    obtain ⟨u, r₂, -, rfl⟩ := (Machine.run_snoc_iff
        (l := [Event.heap e, Event.free v.thrcurrent])).mp r₁
    have hu : u = (v.apply (.heap e)).apply (.free v.thrcurrent) := r₂.eq_after
    have hufree : u.state u.thrcurrent = .free := by
      rw [hu]
      exact state_modThr_self _ _ _
    have hcur : u.thrcurrent = v.thrcurrent := by rw [hu]; rfl
    have hqueue : ∀ q, u.queue q = (v.queue q).erase v.thrcurrent := by rw [hu]; exact fun _ => rfl
    have hcontend : u.contend = u := contend_of_ne (by rw [hufree]; simp)
    rcases (S.run r₂).resched_cases with ⟨hl, -⟩ | ⟨-, h, l, hq, heq⟩
    · exact absurd hl.1 (by rw [hufree]; simp)
    · rw [hcontend] at hq heq
      have U := S.run r₂
      have hmem : h ∈ u.queue u.readylist := hq ▸ List.mem_cons_self ..
      have hready := U.layout.isQueue_readylist
      have hne : v.thrcurrent ≠ h := by
        intro hh
        rw [U.mem_readylist (U.placed.range _ hready h hmem), ← hh, ← hcur, hufree] at hmem
        simp at hmem
      have hasleep : h ∉ u.queue u.sleepq :=
        U.placed.disjoint hready U.layout.isQueue_sleepq U.layout.readylist_ne_sleepq hmem
      change TornDown v (u.resched.apply (.ctx v.thrcurrent k)) v.thrcurrent
      rw [heq]
      refine ⟨?_, fun q _ => ?_, ?_, ?_, .inr ?_⟩
      · rw [hstate]
        change (u.select h).state v.thrcurrent = .free
        rw [state_select_of_ne u hne, ← hcur, hufree]
      · change (u.queue q).erase h = _
        rw [hqueue]
        rfl
      · change (u.queue u.sleepq).erase h = _
        rw [List.erase_of_not_mem hasleep, hqueue, hu]
        rfl
      · change u.key = _
        rw [hu]
        rfl
      · rw [hqueue, List.erase_of_not_mem
          (S.placed.not_mem S.thrcurrent (Globals.home_of_curr hrun) hready), hu] at hq
        exact congrArg List.head? hq
  all_goals
    rw [r.eq_after]
    refine ⟨(hstate _ k _).trans (state_modThr_self _ t _), fun q hq => ?_, rfl, rfl, .inl rfl⟩
    refine (List.erase_of_not_mem fun hmem => ?_).symm
    exact S.placed.not_mem S.thrcurrent (Globals.home_of_curr hrun) hq (List.mem_of_mem_erase hmem)

theorem Sound.live_run {u : Int} (S : v.Sound) (r : schedMachine.Run v evs v')
    (h : v.state u ≠ .free) (hne : ∀ e ∈ evs, e ≠ .free u) : v'.state u ≠ .free := by
  induction r with
  | nil => exact h
  | snoc r hi ih =>
    exact (S.run r).live_apply hi (ih fun e he => hne e (List.mem_append_left _ he))
      (hne _ (by simp))

/-- The first part of `kill` frees nobody. -/
theorem Step.live_of_kill {u : Int} (h : v.Step (.kill t) k v') (S : v.Sound)
    (hu : v.state u ≠ .free) : v'.state u ≠ .free := by
  obtain ⟨evs, hscript, r⟩ := h
  refine S.live_run r hu ?_
  cases hscript with
  | refused => simp
  | killLast => simp
  | kill =>
    unfold sendEvents
    split_ifs <;> simp

/-- A parent that waits for the message is ready afterwards, if the processor stays where it was. -/
theorem Step.ready_of_awaits {p : Int} (h : v.Step (.kill t) k v') (S : v.Sound) (hrun : v.Running)
    (hlive : v.Live t) (hnull : NULLTHREAD ≠ t) (hcount : 1 < v.thrcount - 1)
    (hp : (v.thrtab t).parent = p) (hplive : v.Live p) (hbox : (v.thrtab p).hasmsg = false)
    (hst : v.state p = .recv ∨ v.state p = .tmout) (hcur : v'.thrcurrent = v.thrcurrent) :
    v'.state p = .ready := by
  obtain ⟨evs, hscript, r⟩ := h
  have S' := S.run r
  cases hscript with
  | refused h => exact (h.elim (fun h => h hlive) fun h => hnull h).elim
  | killLast _ _ hlast => omega
  | kill =>
    rw [hp] at r
    obtain ⟨pre, hevs⟩ : ∃ pre, v.sendEvents p t = pre ++ [.ready p, .resched] := by
      rw [sendEvents, if_neg (by simp [hplive, hbox])]
      rcases hst with h | h
      · exact ⟨[.message p t true], by rw [if_pos h]; rfl⟩
      · exact ⟨[.message p t true, .lend p], by rw [if_neg (by rw [h]; simp), if_pos h]; rfl⟩
    rw [hevs] at r
    obtain ⟨w, r₁, -, rfl⟩ := Machine.run_snoc_iff.mp r
    obtain ⟨u, r₂, -, rfl⟩ := (Machine.run_snoc_iff
      (l := .thrcount (v.thrcount - 1) :: (pre ++ [Event.ready p]))).mp (by simpa using r₁)
    obtain ⟨x, -, -, rfl⟩ := (Machine.run_snoc_iff
      (l := .thrcount (v.thrcount - 1) :: pre)).mp (by simpa using r₂)
    -- it is ready before the threads contend, and does not get the processor
    have hready : (x.apply (.ready p)).state p = .ready := (state_apply _ _ _).trans (if_pos rfl)
    refine (state_apply _ _ _).trans ?_
    rcases (S.run r₂).state_resched p with h | ⟨h, -⟩ | ⟨-, h⟩
    · exact h.trans hready
    · exact absurd (h.symm.trans hready) (by simp)
    · have hcurr := S'.curr p hplive.1 ((state_apply _ _ _).trans h)
      rw [hcurr, hcur, show v.state v.thrcurrent = .curr from hrun] at hst
      simp at hst

end Sched

/-! ## In the kernel -/

section

variable {s s' s₁ : Kernel} {v v' : Sched} {tid : Int}

theorem Models.remaining (M : Models s v) (t : Int) :
    s.remaining t = due v.key (v.queue v.sleepq) t := by
  have hq := M.sound.layout.isQueue_sleepq
  rw [Kernel.remaining, M.rep.sleepq, M.queue hq]
  exact due_congr (fun y hy => M.rep.links.key y (M.rep.links.range _ hq y hy)) t

theorem Models.live_iff (M : Models s v) : ¬ s.isbadtid tid ↔ v.Live tid := by
  rw [M.rep.isbadtid, not_not]

theorem Models.state (M : Models s v) (t : Int) : s.state t = v.state t := by
  rw [Globals.state, M.rep.thrtab, Globals.state]

theorem Models.kill_cont (M : Models s v) (hctx : v.self.ctx = .kill tid) (hlive : v.Live tid)
    (hnull : tid ≠ NULLTHREAD) (hsleep : v.state tid ≠ .sleep) (htmout : v.state tid ≠ .tmout) :
    ∃ v', Models (s.exec .cont) v' ∧ v.TornDown v' tid := by
  have horderly : v.Orderly .cont := by
    intro _
    refine ⟨fun t ht => ?_, fun t ht => by simp [hctx] at ht⟩
    obtain rfl : tid = t := by simpa [hctx] using ht
    exact ⟨hlive.1, hnull, hsleep, htmout⟩
  obtain ⟨v', hstep, M'⟩ := M.exec (show s.Admissible .cont from ⟨fun _ h => h, trivial⟩) horderly
  exact ⟨v', M', hstep.tornDown M.sound M.running hctx hlive.2⟩

/-- A victim that is not on the sleep queue is torn down. -/
theorem Models.tornDown (M : Models s v) (hctx : v.self.ctx = .kill tid) (hlive : v.Live tid)
    (hnull : tid ≠ NULLTHREAD) (hsleep : v.state tid ≠ .sleep) (htmout : v.state tid ≠ .tmout) :
    s.TornDown (s.exec .cont) tid := by
  obtain ⟨v', M', T⟩ := M.kill_cont hctx hlive hnull hsleep htmout
  have hsleepq : v'.queue v'.sleepq = v.queue v.sleepq := by
    rw [T.sleepq, List.erase_of_not_mem]
    rw [M.sound.mem_sleepq hlive.1, not_or]
    exact ⟨hsleep, htmout⟩
  refine ⟨(M'.state tid).trans T.free, fun q hq => ?_, fun q hq => ?_, fun t _ _ => ?_, ?_,
    M'.wellFormed⟩
  · rw [M'.queue hq]
    refine M'.sound.placed.not_mem hlive.1 (Globals.home_eq_none ?_ ?_ ?_ ?_) hq <;> simp [T.free]
  · rw [M'.queue hq, M.queue hq, T.queue q hq, M'.rep.thrcurrent]
  · rw [M'.remaining, M.remaining, hsleepq, T.key]
  · rw [M'.rep.thrcurrent, M.rep.thrcurrent, M.rep.readylist,
      M.queue M.sound.layout.isQueue_readylist]
    exact T.next

/-- A victim on the sleep queue stays there: `kill` does not touch the queue table. -/
theorem Kernel.quetab_exec_kill (hctx : (s.thrtab s.thrcurrent).ctx = .kill tid)
    (hst : s.state tid = .sleep ∨ s.state tid = .tmout) :
    (s.exec .cont).quetab = s.quetab ∧ (s.exec .cont).sleepq = s.sleepq := by
  have hbad : ∀ w : Kernel, (w.setState tid .free).isbadtid tid := fun w =>
    .inr (.inr (by simp [setState, modThr, store]))
  simp only [exec, call, hctx, resumeCall, killRest]
  rcases hst with h | h <;> rw [Globals.state] at h <;> rw [h]
  · simp only [killSwitch, unsleep, if_pos (hbad _)]
    exact ⟨rfl, rfl⟩
  · exact ⟨rfl, rfl⟩

theorem Kernel.call_kill (hbad : ¬ s.isbadtid tid) (hnull : NULLTHREAD ≠ tid)
    (hcount : 1 < s.thrcount - 1) : s.call (.kill tid) =
      (({ s with thrcount := s.thrcount - 1 }.send (s.thrtab tid).parent tid).1, .kill tid) := by
  simp only [call, kill, if_neg (not_or.mpr ⟨hbad, hnull⟩), if_neg (not_le.mpr hcount)]

/-- While nobody waits for its message, the first part of `kill` leaves the queues alone. -/
theorem Kernel.exec_kill_quiet (hbad : ¬ s.isbadtid tid) (hnull : NULLTHREAD ≠ tid)
    (hcount : 1 < s.thrcount - 1) (hparent : ¬ s.Awaits (s.thrtab tid).parent) :
    (s.exec (.kill tid)).quetab = s.quetab ∧ (s.exec (.kill tid)).sleepq = s.sleepq ∧
      (s.exec (.kill tid)).thrcurrent = s.thrcurrent ∧
      (∀ t, (s.exec (.kill tid)).state t = s.state t) ∧
      ((s.exec (.kill tid)).thrtab s.thrcurrent).ctx = .kill tid := by
  -- the message is left in the box, or nothing is done
  have hsend : ∃ tab, (∀ t, (tab t).state = (s.thrtab t).state) ∧
      ({ s with thrcount := s.thrcount - 1 }.send (s.thrtab tid).parent tid).1 =
        { s with thrcount := s.thrcount - 1, thrtab := tab } := by
    unfold send
    by_cases hb : ({ s with thrcount := s.thrcount - 1 } : Kernel).isbadtid (s.thrtab tid).parent
    · exact ⟨s.thrtab, fun _ => rfl, by rw [if_pos hb]⟩
    rw [if_neg hb]
    by_cases hm : ({ s with thrcount := s.thrcount - 1 }.thrtab (s.thrtab tid).parent).state =
        .free ∨
        ({ s with thrcount := s.thrcount - 1 }.thrtab (s.thrtab tid).parent).hasmsg = true
    · exact ⟨s.thrtab, fun _ => rfl, by rw [if_pos hm]⟩
    rw [if_neg hm]
    have hst : (s.thrtab (s.thrtab tid).parent).state ≠ .recv ∧
        (s.thrtab (s.thrtab tid).parent).state ≠ .tmout := by
      refine not_or.mp fun h => hparent ⟨hb, ?_, h⟩
      simpa using fun h' => hm (.inr h')
    have hself : ∀ f : ThrEnt → ThrEnt, (({ s with thrcount := s.thrcount - 1 } : Kernel).modThr
        (s.thrtab tid).parent f).thrtab (s.thrtab tid).parent =
          f (s.thrtab (s.thrtab tid).parent) :=
      fun f => if_pos rfl
    refine ⟨store s.thrtab (s.thrtab tid).parent
      { s.thrtab (s.thrtab tid).parent with msg := tid, hasmsg := true }, fun t => ?_, ?_⟩
    · unfold store
      split_ifs with ht
      · rw [ht]
      · rfl
    · simp only [hself, if_neg hst.1, if_neg hst.2]
      rfl
  obtain ⟨tab, htab, hsend⟩ := hsend
  rw [exec, call_kill hbad hnull hcount, hsend]
  refine ⟨rfl, rfl, rfl, fun t => ?_, ?_⟩
  · rw [Globals.state, Globals.state, ← htab t]
    simp only [setCtx, modThr, store]
    split_ifs with ht
    · rw [ht]
    · rfl
  · simp [setCtx, modThr, store]

/-- The first part of `kill` leads to a state that represents a sound one. -/
theorem Models.kill (M : Models s v) (tid : Int) : ∃ v', Models (s.exec (.kill tid)) v' := by
  obtain ⟨v', -, M'⟩ := M.exec (show s.Admissible (.kill tid) from ⟨fun _ h => h, trivial⟩)
    (by rintro ⟨⟩)
  exact ⟨v', M'⟩

/-- A victim that has left the queues was not on the sleep queue. -/
theorem Models.awake_of_off (M : Models s v) (hctx : (s.thrtab s.thrcurrent).ctx = .kill tid)
    (htid : IsTid tid) (hoff : tid ∉ (s.exec .cont).queue s.sleepq) :
    s.state tid ≠ .sleep ∧ s.state tid ≠ .tmout := by
  by_contra h
  have hst : s.state tid = .sleep ∨ s.state tid = .tmout := by
    by_contra hno
    exact h (not_or.mp hno)
  obtain ⟨hquetab, hsleepq⟩ := quetab_exec_kill hctx hst
  refine hoff ?_
  rw [Kernel.queue, Kernel.firstid, hquetab]
  exact (M.wellFormed.sleep tid htid).mp hst

/-- `kill` behind its `send` tears down exactly the victims that are not on the sleep queue. -/
theorem Models.tornDown_iff (M : Models s v) (hctx : (s.thrtab s.thrcurrent).ctx = .kill tid)
    (hbad : ¬ s.isbadtid tid) (hnull : tid ≠ NULLTHREAD) :
    s.TornDown (s.exec .cont) tid ↔ s.state tid ≠ .sleep ∧ s.state tid ≠ .tmout := by
  have hlive := M.live_iff.mp hbad
  constructor
  · exact fun T => M.awake_of_off hctx hlive.1 (T.off _ M.wellFormed.layout.isQueue_sleepq)
  · rintro ⟨hsleep, htmout⟩
    rw [M.state] at hsleep htmout
    exact M.tornDown (M.rep.self ▸ hctx) hlive hnull hsleep htmout

/-- A parent that waits for the message is put on the ready list. -/
theorem Models.not_tornDown_of_awaits (M : Models s v) (hbad : ¬ s.isbadtid tid)
    (hnull : tid ≠ NULLTHREAD) (hcount : 1 < s.thrcount - 1)
    (hawaits : s.Awaits (s.thrtab tid).parent) (hparent : (s.thrtab tid).parent ≠ tid)
    (hcur : (s.exec (.kill tid)).thrcurrent = s.thrcurrent) :
    ¬ s.TornDown ((s.exec (.kill tid)).exec .cont) tid := by
  intro T
  have hlive := M.live_iff.mp hbad
  obtain ⟨hpbad, hbox, hst⟩ := hawaits
  have hplive := M.live_iff.mp hpbad
  have hctx : ((s.exec (.kill tid)).thrtab s.thrcurrent).ctx = .kill tid := by
    rw [Kernel.exec, call_kill hbad hnull.symm hcount]
    simp [setCtx, modThr, store]
  obtain ⟨v₁, hstep, M₁⟩ := M.exec (show s.Admissible (.kill tid) from ⟨fun _ h => h, trivial⟩)
    (by rintro ⟨⟩)
  generalize hp : (s.thrtab tid).parent = p at *
  rw [M.rep.thrtab] at hp hbox
  rw [M.state] at hst
  have hready : v₁.state p = .ready := by
    refine hstep.ready_of_awaits M.sound M.running hlive hnull.symm ?_ hp hplive hbox hst ?_
    · rw [← congrArg Globals.thrcount M.rep.globals]
      exact hcount
    · rw [← M₁.rep.thrcurrent, hcur, M.rep.thrcurrent]
  -- so it is on the ready list, and stays there
  have hawake := M₁.awake_of_off (hcur ▸ hctx) hlive.1
    (T.off _ M₁.wellFormed.layout.isQueue_sleepq)
  rw [M₁.state] at hawake
  have hcur₁ : v₁.thrcurrent = s.thrcurrent := M₁.rep.thrcurrent.symm.trans hcur
  have hlive₁ : v₁.Live tid := ⟨hlive.1, hstep.live_of_kill M.sound hlive.2⟩
  obtain ⟨v₂, M₂, T₂⟩ := M₁.kill_cont (M₁.rep.self ▸ hcur ▸ hctx) hlive₁ hnull hawake.1 hawake.2
  have hnot : p ∉ s.queue v.readylist := by
    rw [M.queue M.sound.layout.isQueue_readylist]
    exact M.sound.not_mem_readylist hplive.1 (by rcases hst with h | h <;> simp [h])
  -- it stays there, or gets the processor
  have hp₂ : v₂.thrcurrent = p := by
    by_contra hne
    have hq := M₁.sound.layout.isQueue_readylist
    have hmem : p ∈ v₂.queue v₁.readylist := by
      rw [T₂.queue _ hq, List.mem_erase_of_ne (Ne.symm hne), List.mem_erase_of_ne hparent]
      exact (M₁.sound.mem_readylist hplive.1).mpr hready
    rw [← M₂.queue hq, T.queue _ hq, M₁.sound.layout.readylist, ← M.sound.layout.readylist] at hmem
    exact hnot (List.mem_of_mem_erase (List.mem_of_mem_erase hmem))
  rcases T.next with h | h
  · rw [M₂.rep.thrcurrent, hp₂, M.rep.thrcurrent] at h
    rw [h, show v.state v.thrcurrent = .curr from M.running] at hst
    simp at hst
  · rw [M₂.rep.thrcurrent, hp₂, M.rep.readylist] at h
    exact hnot (List.mem_of_mem_head? h)

/-- If nobody waits for the message the two parts are one. -/
theorem Models.tornDown_of_quiet (M : Models s v) (hbad : ¬ s.isbadtid tid)
    (hnull : tid ≠ NULLTHREAD) (hcount : 1 < s.thrcount - 1)
    (hparent : ¬ s.Awaits (s.thrtab tid).parent) :
    s.TornDown ((s.exec (.kill tid)).exec .cont) tid ↔
      s.state tid ≠ .sleep ∧ s.state tid ≠ .tmout := by
  obtain ⟨v', M'⟩ := M.kill tid
  obtain ⟨hquetab, hsleepq, hcur, hstate, hctx⟩ := exec_kill_quiet hbad hnull.symm hcount hparent
  generalize s.exec (.kill tid) = s₁ at *
  have hbad₁ : ¬ s₁.isbadtid tid := by
    rw [isbadtid, show (s₁.thrtab tid).state = (s.thrtab tid).state from hstate tid]
    exact hbad
  have hqueue : ∀ q, s₁.queue q = s.queue q := by
    intro q
    rw [Kernel.queue, Kernel.queue, Kernel.firstid, Kernel.firstid, hquetab]
  have hremaining : ∀ t, s₁.remaining t = s.remaining t := by
    intro t
    rw [Kernel.remaining, Kernel.remaining, hsleepq, hqueue, hquetab]
  have hready : s₁.readylist = s.readylist :=
    M'.wellFormed.layout.readylist.trans M.wellFormed.layout.readylist.symm
  have hiff : s.TornDown (s₁.exec .cont) tid ↔ s₁.TornDown (s₁.exec .cont) tid := by
    constructor
    all_goals
      rintro ⟨h₁, h₂, h₃, h₄, h₅, h₆⟩
      exact ⟨h₁, h₂, by simpa only [hqueue] using h₃,
        by simpa only [hqueue, hremaining, hsleepq] using h₄,
        by simpa only [hqueue, hcur, hready] using h₅, h₆⟩
  rw [hiff, M'.tornDown_iff (hcur ▸ hctx) hbad₁ hnull, hstate]

end

/-- **Which victims `kill` tears down.** From every well-formed state its first part, up to the
`send`, leads to a well-formed state. Its second part, run in a well-formed state, does what it
should if and only if the victim is then not on the sleep queue. If no other thread runs in between,
the whole call does what it should if and only if the victim is not on the sleep queue and its
parent does not wait for the message. -/
theorem kill_tornDown_iff {s : Kernel} {tid : Int} (W : s.WellFormed) (h : s.Settled)
    (hbad : ¬ s.isbadtid tid) (hnull : tid ≠ NULLTHREAD) :
    ((s.exec (.kill tid)).WellFormed ∧ (s.exec (.kill tid)).Settled) ∧
    ((s.thrtab s.thrcurrent).ctx = .kill tid →
      (s.TornDown (s.exec .cont) tid ↔ s.state tid ≠ .sleep ∧ s.state tid ≠ .tmout)) ∧
    (1 < s.thrcount - 1 →
      (¬ s.Awaits (s.thrtab tid).parent → (s.exec (.kill tid)).thrcurrent = s.thrcurrent) ∧
      ((s.thrtab tid).parent ≠ tid → (s.exec (.kill tid)).thrcurrent = s.thrcurrent →
        (s.TornDown ((s.exec (.kill tid)).exec .cont) tid ↔
          (s.state tid ≠ .sleep ∧ s.state tid ≠ .tmout) ∧ ¬ s.Awaits (s.thrtab tid).parent))) := by
  have M := W.models h
  obtain ⟨v', M'⟩ := M.kill tid
  refine ⟨⟨M'.wellFormed, M'.settled⟩, fun hctx => M.tornDown_iff hctx hbad hnull, fun hcount =>
    ⟨fun hparent => (exec_kill_quiet hbad hnull.symm hcount hparent).2.2.1, fun hne hcur => ?_⟩⟩
  by_cases hparent : s.Awaits (s.thrtab tid).parent
  · exact iff_of_false (M.not_tornDown_of_awaits hbad hnull hcount hparent hne hcur)
      fun h => h.2 hparent
  · rw [M.tornDown_of_quiet hbad hnull hcount hparent, and_iff_left hparent]

/-- The thread 1 sleeps, the thread 2 is suspended, and the null thread runs. -/
def sleeping : Kernel :=
  (kernelMachine.restrict Kernel.Regular).after board
    [.create 128 20, .cont, .create 128 10, .cont, .resume 1, .sleep 1000, .cont]

theorem models_sleeping : ∃ v, Models sleeping v :=
  models_of_run Machine.run_after

/-- A thread that is suspended is torn down, one that sleeps is not. -/
theorem kill_tornDown_iff_sleeping :
    sleeping.TornDown ((sleeping.exec (.kill 2)).exec .cont) 2 ∧
      ¬ sleeping.TornDown ((sleeping.exec (.kill 1)).exec .cont) 1 := by
  obtain ⟨v, M⟩ := models_sleeping
  refine ⟨(((kill_tornDown_iff M.wellFormed M.settled ?_ ?_).2.2 ?_).2 ?_ ?_).mpr ?_,
    (((kill_tornDown_iff M.wellFormed M.settled ?_ ?_).2.2 ?_).2 ?_ ?_).not.mpr ?_⟩
  all_goals decide

/-- **A sleeping victim stays on the sleep queue with a free slot.** -/
theorem kill_sleeping_not_tornDown :
    sleeping.WellFormed ∧ sleeping.Settled ∧ ¬ sleeping.isbadtid 1 ∧
      ((sleeping.exec (.kill 1)).exec .cont).state 1 = .free ∧
      1 ∈ ((sleeping.exec (.kill 1)).exec .cont).queue sleeping.sleepq ∧
      ¬ sleeping.TornDown ((sleeping.exec (.kill 1)).exec .cont) 1 := by
  obtain ⟨v, M⟩ := models_sleeping
  have hq : IsQueue sleeping.sleepq := M.wellFormed.layout.isQueue_sleepq
  have hmem : 1 ∈ ((sleeping.exec (.kill 1)).exec .cont).queue sleeping.sleepq := by decide
  exact ⟨M.wellFormed, M.settled, by decide, by decide, hmem, fun T => T.off _ hq hmem⟩

end Xinu
