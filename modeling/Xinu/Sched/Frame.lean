import Xinu.Sched.Script

/-!
# What an event leaves alone

Each event changes little: which queues, which fields of which thread, which variables. These are
the frame rules from which the invariants of the system calls follow.

## Main results

* `Sched.Sound.queue_apply`: what an event does to a queue other than the ready list
* `Sched.semtab_apply`, `Sched.readied_apply`: what it does to the semaphores and the history
* `Sched.thrtab_apply`, `Sched.state_apply`: what it does to the entry of a thread
* `Sched.Sound.state_resched`: what `resched` does to the states of the threads
* `Sched.Step.ctx`: what a step does to the contexts
-/

namespace Xinu

open List Function KeyedList

namespace Sched

variable {v v' : Sched} {t u q : Int} {e : Event} {evs : List Event} {op : Op} {k : Context}

/-! ## Rescheduling -/

theorem contend_frame (v : Sched) :
    v.contend.toGlobals = { v.toGlobals with thrtab := v.contend.thrtab } := by
  unfold contend
  split_ifs <;> rfl

theorem resched_frame (v : Sched) : v.resched.toGlobals =
    { v.toGlobals with
      thrtab := v.resched.thrtab, thrcurrent := v.resched.thrcurrent,
      rescheds := v.resched.rescheds } := by
  unfold resched
  split_ifs
  · rfl
  · split
    · rfl
    · rename_i h _ _
      simp only [dispatched, select, setState, modThr, leave]
      rw [contend_frame]

/-- **What `resched` does to the state of a thread**: nothing, or the running thread is ready, or a
ready thread runs. -/
theorem Sound.state_resched (S : v.Sound) (t : Int) : v.resched.state t = v.state t ∨
    v.state t = .curr ∧ v.resched.state t = .ready ∨ v.state t = .ready ∧
      v.resched.state t = .curr := by
  rcases S.resched_cases with ⟨-, heq⟩ | ⟨-, h, l, hq, heq⟩
  · rw [heq]
    exact .inl rfl
  · have hmem : h ∈ v.contend.queue v.contend.readylist := by
      rw [readylist_contend, hq]
      exact mem_cons_self ..
    have hh := S.contend.placed.range _ S.contend.layout.isQueue_readylist h hmem
    have hready := (S.contend.mem_readylist hh).mp hmem
    -- the state of `t` while the threads contend
    have hcontend : v.contend.state t = v.state t ∨
        v.state t = .curr ∧ v.contend.state t = .ready ∧ t = v.thrcurrent := by
      by_cases hc : v.state v.thrcurrent = .curr
      · rw [contend_of_curr hc]
        by_cases htc : t = v.thrcurrent
        · subst htc
          exact .inr ⟨hc, state_makeReady_self .., rfl⟩
        · left
          rw [Globals.state, thrtab_makeReady_of_ne v htc, Globals.state]
      · rw [contend_of_ne hc]
        exact .inl rfl
    have hsel : v.resched.state t = (v.contend.select h).state t := by rw [heq]; rfl
    rw [hsel]
    by_cases hth : t = h
    · subst hth
      rw [state_select_self]
      rcases hcontend with hc | ⟨hc, -, -⟩
      · exact .inr (.inr ⟨hc ▸ hready, rfl⟩)
      · exact .inl hc.symm
    · rw [state_select_of_ne _ hth]
      rcases hcontend with hc | ⟨hc, hr, -⟩
      · exact .inl hc
      · exact .inr (.inl ⟨hc, hr⟩)

/-- A thread that neither runs nor is ready is left alone. -/
theorem Sound.state_resched_of_ne (S : v.Sound) {st : ThrState} (h : v.state t = st)
    (hcurr : st ≠ .curr) (hready : st ≠ .ready) : v.resched.state t = st := by
  subst h
  rcases S.state_resched t with hs | ⟨hs, -⟩ | ⟨hs, -⟩
  · exact hs
  · exact absurd hs hcurr
  · exact absurd hs hready

theorem thrtab_resched (v : Sched) (t : Int) :
    v.resched.thrtab t = { v.thrtab t with state := v.resched.state t } := by
  have hcontend : v.contend.thrtab t = { v.thrtab t with state := v.contend.state t } := by
    unfold contend
    split_ifs
    · by_cases htc : t = v.thrcurrent
      · subst htc
        rw [thrtab_makeReady_self, state_makeReady_self]
      · rw [Globals.state, thrtab_makeReady_of_ne v htc]
    · rfl
  unfold resched
  split_ifs
  · rfl
  · split
    · rfl
    · rename_i h _ _
      change (v.contend.select h).thrtab t =
        { v.thrtab t with state := (v.contend.select h).state t }
      by_cases hth : t = h
      · subst hth
        rw [state_select_self, select]
        rw [setState, thrtab_modThr_self]
        change { v.contend.thrtab t with state := .curr } = _
        rw [hcontend]
      · rw [thrtab_select_of_ne _ hth, state_select_of_ne _ hth, hcontend]

theorem Sound.queue_resched (S : v.Sound) (hq : IsQueue q) (hne : q ≠ v.readylist) :
    v.resched.queue q = v.queue q := by
  have hcontend : v.contend.queue q = v.queue q := by
    unfold Sched.contend
    split_ifs with hc
    · rw [queue_makeReady, update_of_ne hne,
        erase_of_not_mem (S.placed.not_mem S.thrcurrent (Globals.home_of_curr hc) hq)]
    · rfl
  rcases S.resched_cases with ⟨-, heq⟩ | ⟨-, h, l, hl, heq⟩
  · rw [heq]
    rfl
  · have hmem : h ∈ v.contend.queue v.contend.readylist := by
      rw [readylist_contend, hl]
      exact mem_cons_self ..
    rw [heq]
    change (v.contend.queue q).erase h = _
    rw [erase_of_not_mem, hcontend]
    exact S.contend.placed.disjoint S.contend.layout.isQueue_readylist hq
      (by rw [readylist_contend]; exact hne.symm) hmem

/-! ## Events -/

/-- A queue other than the ready list after an event. -/
def queueAfter (v : Sched) (q : Int) : Event → List Int
  | .ready t => (v.queue q).erase t
  | .free t => (v.queue q).erase t
  | .enqueue i => if q = (v.semtab i).queue then v.queue q ++ [v.thrcurrent] else v.queue q
  | .doze d _ =>
    if q = v.sleepq then (insertDelta v.key (v.queue q) v.thrcurrent d).1 else v.queue q
  | _ => v.queue q

/-- **What an event does to a queue other than the ready list.** -/
theorem Sound.queue_apply (S : v.Sound) (he : v.Enabled e) (hq : IsQueue q)
    (hne : q ≠ v.readylist) : (v.apply e).queue q = v.queueAfter q e := by
  have hoff : ∀ {t : Int}, IsTid t → v.home t = none → (v.queue q).erase t = v.queue q :=
    fun ht hn => erase_of_not_mem (S.placed.not_mem ht hn hq)
  cases e with
  | ready t =>
    change (v.makeReady t).queue q = _
    rw [queue_makeReady, update_of_ne hne, queueAfter]
  | hold t =>
    refine erase_of_not_mem fun hmem => ?_
    have hst := S.state_of_mem hq hne hmem
    rw [he.2.2] at hst
    simp at hst
  | block st => exact hoff S.thrcurrent (Globals.home_of_curr he.1)
  | enqueue i =>
    change update v.queue (v.semtab i).queue _ q = _
    rw [queueAfter, update_apply]
    split_ifs with h
    · rw [h]
      rfl
    · rfl
  | doze d st =>
    change update v.queue v.sleepq _ q = _
    rw [queueAfter, update_apply]
    split_ifs with h
    · rw [h]
    · rfl
  | spawn t e =>
    refine hoff he.1 (Globals.home_eq_none ?_ ?_ ?_ ?_) <;> simp [he.2.1]
  | resched => exact S.queue_resched hq hne
  | free _ | lend _ | tick | prio _ _ | message _ _ _ | ctx _ _ | sem _ _ _ | heap _ | thrcount _
  | nexttid _ | nextsem _ | clock _ _ | halt => rfl

section

variable (v : Sched) (e : Event)

/-- What an event does to the semaphores. -/
theorem semtab_apply : (v.apply e).semtab =
      match e with
      | .sem i st c => update v.semtab i { v.semtab i with state := st, count := c }
      | _ => v.semtab := by
  cases e with
  | resched =>
    change v.resched.semtab = _
    rw [resched_frame]
  | _ => rfl

/-- The threads made ready by an event. -/
theorem readied_apply : (v.apply e).readied =
      match e with
      | .ready t => v.readied ++ [t]
      | _ => v.readied := by
  cases e with
  | resched =>
    change v.resched.readied = _
    rw [resched_frame]
  | _ => rfl

theorem layout_apply : (v.apply e).readylist = v.readylist ∧ (v.apply e).sleepq = v.sleepq := by
  cases e with
  | resched =>
    change v.resched.readylist = _ ∧ v.resched.sleepq = _
    rw [resched_frame]
    exact ⟨rfl, rfl⟩
  | _ => exact ⟨rfl, rfl⟩

/-- The state of a thread after an event. -/
def stateAfter (v : Sched) (t : Int) : Event → ThrState
  | .ready u => if t = u then .ready else v.state t
  | .hold u => if t = u then .susp else v.state t
  | .block st => if t = v.thrcurrent then st else v.state t
  | .enqueue _ => if t = v.thrcurrent then .wait else v.state t
  | .doze _ st => if t = v.thrcurrent then st else v.state t
  | .resched => v.resched.state t
  | .free u => if t = u then .free else v.state t
  | .spawn u x => if t = u then x.state else v.state t
  | _ => v.state t

/-- **What an event does to the entry of a thread**, up to the thread's state. -/
theorem thrtab_apply (t : Int) : (v.apply e).thrtab t =
      match e with
      | .spawn u x => if t = u then x else v.thrtab t
      | .enqueue i =>
        if t = v.thrcurrent then { v.thrtab t with state := .wait, sem := i } else v.thrtab t
      | .prio u p => if t = u then { v.thrtab t with prio := p } else v.thrtab t
      | .message u m has =>
        if t = u then { v.thrtab t with msg := m, hasmsg := has } else v.thrtab t
      | .ctx u k => if t = u then { v.thrtab t with ctx := k } else v.thrtab t
      | _ => { v.thrtab t with state := v.stateAfter t e } := by
  have hmod : ∀ (w : Sched) (u : Int) (f : ThrEnt → ThrEnt), w.thrtab = v.thrtab →
      (w.modThr u f).thrtab t = if t = u then f (v.thrtab t) else v.thrtab t := by
    intro w u f hw
    rw [thrtab_modThr, hw]
  have hstate : ∀ (w : Sched) (u : Int) (st : ThrState), w.thrtab = v.thrtab →
      (w.setState u st).thrtab t =
        { v.thrtab t with state := if t = u then st else v.state t } := by
    intro w u st hw
    rw [setState, hmod w u _ hw]
    split_ifs <;> rfl
  cases e with
  | ready u => exact hstate (v.leave u) u .ready rfl
  | hold u => exact hstate (v.leave u) u .susp rfl
  | block st => exact hstate (v.leave v.thrcurrent) v.thrcurrent st rfl
  | enqueue i => exact hmod v v.thrcurrent (fun e => { e with state := .wait, sem := i }) rfl
  | doze d st => exact hstate (v.delay v.thrcurrent d) v.thrcurrent st rfl
  | free u => exact hstate (v.leave u) u .free rfl
  | spawn u x => exact hmod (v.leave u) u (fun _ => x) rfl
  | prio u p => exact hmod v u (fun e => { e with prio := p }) rfl
  | message u m has => exact hmod v u (fun e => { e with msg := m, hasmsg := has }) rfl
  | ctx u k => exact hmod v u (fun e => { e with ctx := k }) rfl
  | resched => exact thrtab_resched v t
  | lend _ | tick | sem _ _ _ | heap _ | thrcount _ | nexttid _ | nextsem _ | clock _ _ | halt =>
    rfl

end

theorem state_apply (v : Sched) (e : Event) (t : Int) : (v.apply e).state t = v.stateAfter t e := by
  rw [Globals.state, thrtab_apply]
  cases e with
  | spawn _ _ | enqueue _ | prio _ _ | message _ _ _ | ctx _ _ =>
    dsimp only [stateAfter]
    split_ifs <;> rfl
  | _ => rfl

/-- A free slot stays free until it is given to a new thread. -/
theorem Sound.free_apply (S : v.Sound) (he : v.Enabled e) (h : v.state t = .free) :
    (v.apply e).state t = .free ∨ ∃ x, e = .spawn t x := by
  have hne : ∀ {u : Int}, v.state u ≠ .free → t ≠ u := by
    rintro u hu rfl
    exact hu h
  rw [state_apply]
  cases e with
  | ready u =>
    refine .inl ((if_neg (hne ?_)).trans h)
    rcases he.2.2 with h | h | h | h | h <;> rw [h] <;> simp
  | hold u => exact .inl ((if_neg (hne (by rw [he.2.2]; simp))).trans h)
  | block st => exact .inl ((if_neg (hne (by rw [he.1]; simp))).trans h)
  | enqueue i => exact .inl ((if_neg (hne (by rw [he.1]; simp))).trans h)
  | doze d st => exact .inl ((if_neg (hne (by rw [he.1]; simp))).trans h)
  | resched => exact .inl (S.state_resched_of_ne h (by simp) (by simp))
  | free u =>
    left
    rw [stateAfter]
    split_ifs
    · rfl
    · exact h
  | spawn u x =>
    by_cases htu : t = u
    · exact .inr ⟨x, by rw [htu]⟩
    · exact .inl ((if_neg htu).trans h)
  | lend _ | tick | prio _ _ | message _ _ _ | ctx _ _ | sem _ _ _ | heap _ | thrcount _ | nexttid _
  | nextsem _ | clock _ _ | halt => exact .inl h

/-- A thread that is in the system stays there until it is freed. -/
theorem Sound.live_apply (S : v.Sound) {t : Int} (he : v.Enabled e) (h : v.state t ≠ .free)
    (hne : e ≠ .free t) : (v.apply e).state t ≠ .free := by
  rw [state_apply]
  cases e with
  | ready u | hold u | enqueue i =>
    rw [stateAfter]
    split_ifs
    · simp
    · exact h
  | block st =>
    rw [stateAfter]
    split_ifs
    · rcases he.2.2 with rfl | rfl <;> simp
    · exact h
  | doze d st =>
    rw [stateAfter]
    split_ifs
    · rcases he.2.2.2 with rfl | rfl <;> simp
    · exact h
  | resched =>
    rw [stateAfter]
    rcases S.state_resched t with hs | ⟨-, hs⟩ | ⟨-, hs⟩
    · rwa [hs]
    · simp [hs]
    · simp [hs]
  | free u =>
    rw [stateAfter]
    rw [if_neg (by rintro rfl; exact hne rfl)]
    exact h
  | spawn u x =>
    rw [stateAfter]
    rw [if_neg (by rintro rfl; exact h he.2.1)]
    exact h
  | lend _ | tick | prio _ _ | message _ _ _ | ctx _ _ | sem _ _ _ | heap _ | thrcount _ | nexttid _
  | nextsem _ | clock _ _ | halt => exact h

/-! ## Contexts -/

theorem mem_sendEvents {m : Int} (h : e ∈ v.sendEvents t m) :
    e = .message t m true ∨ e = .lend t ∨ e = .ready t ∨ e = .resched := by
  unfold sendEvents at h
  split_ifs at h <;> simp at h <;> tauto

/-- Only the end of a step sets a context. -/
theorem Script.ctx_not_mem (h : v.Script op evs k) (u : Int) (k' : Context) :
    Event.ctx u k' ∉ evs := by
  intro hmem
  cases h with
  | send => simpa using mem_sendEvents hmem
  | kill => simpa using mem_sendEvents ((mem_cons.mp hmem).resolve_left nofun)
  | _ => simp [tickEvents] at hmem

/-- An event other than a change of context leaves the context of a thread alone, or starts a new
thread in its own code. -/
theorem ctx_apply (he : v.Enabled e) (hctx : ∀ u k, e ≠ .ctx u k) (t : Int) :
    ((v.apply e).thrtab t).ctx = (v.thrtab t).ctx ∨
      ((v.apply e).thrtab t).ctx = .user ∧ ∃ x, e = .spawn t x := by
  rw [thrtab_apply]
  cases e with
  | ctx u k => exact absurd rfl (hctx u k)
  | spawn u x =>
    by_cases htu : t = u
    · subst htu
      exact .inr ⟨by simpa using he.2.2.2.2.2, x, rfl⟩
    · exact .inl (by simp [htu])
  | enqueue i | prio u p | message u m has =>
    left
    dsimp only
    split_ifs <;> rfl
  | _ => exact .inl rfl

/-- **A step sets the context of its caller** and leaves those of the others alone, or starts a new
thread in its own code. -/
theorem Step.ctx (h : v.Step op k v') :
    (v'.thrtab v.thrcurrent).ctx = k ∧ ∀ t, t ≠ v.thrcurrent →
      (v'.thrtab t).ctx = (v.thrtab t).ctx ∨ (v'.thrtab t).ctx = .user := by
  obtain ⟨evs, hscript, r⟩ := h
  obtain ⟨w, r₀, -, rfl⟩ := Machine.run_snoc_iff.mp r
  have hrun : ∀ {w : Sched} {evs : List Event}, schedMachine.Run v evs w →
      (∀ u k, Event.ctx u k ∉ evs) → ∀ t, (w.thrtab t).ctx = (v.thrtab t).ctx ∨
        (w.thrtab t).ctx = .user := by
    intro w evs r hno t
    induction r with
    | nil => exact .inl rfl
    | @snoc w evs e r he ih =>
      have hw := ih fun u k h => hno u k (mem_append_left _ h)
      rcases ctx_apply he (fun u k heq => hno u k (by rw [heq]; simp)) t with h | ⟨h, -⟩
      · exact hw.imp h.trans h.trans
      · exact .inr h
  refine ⟨?_, fun t ht => ?_⟩
  · change ((w.apply (.ctx v.thrcurrent k)).thrtab v.thrcurrent).ctx = k
    rw [thrtab_apply]
    simp
  · change ((w.apply (.ctx v.thrcurrent k)).thrtab t).ctx = _ ∨
      ((w.apply (.ctx v.thrcurrent k)).thrtab t).ctx = _
    rw [thrtab_apply]
    simpa [ht] using hrun r₀ hscript.ctx_not_mem t

/-! ## Histories along a run -/

end Sched

/-- The thread that an event makes ready. -/
def Event.readied : Event → Option Int
  | .ready t => some t
  | _ => none

namespace Sched

variable {v v' : Sched} {evs : List Event}

/-- The history of a run records the threads that its events make ready. -/
theorem readied_run (r : schedMachine.Run v evs v') :
    v'.readied = v.readied ++ evs.filterMap Event.readied := by
  induction r with
  | nil => simp
  | @snoc w evs e r he ih =>
    change (w.apply e).readied = _
    rw [readied_apply, filterMap_append, ← append_assoc, ← ih]
    cases e <;> simp [Event.readied]

theorem readied_step {t : Int} {k : Context} (r : schedMachine.Run v (evs ++ [.ctx t k]) v') :
    v'.readied = v.readied ++ evs.filterMap Event.readied := by
  rw [readied_run r, filterMap_append, show [Event.ctx t k].filterMap Event.readied = [] from rfl,
    append_nil]

end Sched

end Xinu
