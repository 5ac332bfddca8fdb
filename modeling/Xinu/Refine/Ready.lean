import Xinu.Refine.Queues
import Xinu.Sched.Script

/-!
# `ready` and `resched` refine their events

A thread that has left its queue is made ready, and the processor goes where `resched` says. The
loops of `signaln`, `semfree` and `wakeup` take threads off a queue one after the other and make
each of them ready.

## Main results

* `Rep.resched`, `Rep.ready`, `Rep.dequeue_ready`
* `Rep.signalnLoop`, `Rep.semfreeLoop`, `Rep.wakeupLoop`
-/

namespace Xinu

open List Function KeyedList Sched

variable {i : Nat} {q t : Int} {s : Kernel} {v : Sched}

/-- The events `evs` lead from `v` to a state that `s` represents. -/
def Does (v : Sched) (evs : List Event) (s : Kernel) : Prop :=
  ∃ v', schedMachine.Run v evs v' ∧ Rep s v'

theorem Kernel.ready_true (s : Kernel) (t : Int) (h : ¬ s.isbadtid t) :
    (s.ready t true).1 = (s.ready t false).1.resched := by
  simp only [Kernel.ready, if_neg h, if_true, Bool.false_eq_true, if_false]

theorem Rep.does (R : Rep s v) : Does v [] s := ⟨v, .nil v, R⟩

variable {e : Event} {evs : List Event}

theorem does_cons : Does v (e :: evs) s ↔ v.Enabled e ∧ Does (v.apply e) evs s := by
  constructor
  · rintro ⟨v', r, R⟩
    obtain ⟨he, r⟩ := Machine.run_cons_iff.mp r
    exact ⟨he, v', r, R⟩
  · rintro ⟨he, v', r, R⟩
    exact ⟨v', Machine.Run.cons he r, R⟩

theorem Does.cons (he : v.Enabled e)
    (h : Does (v.apply e) evs s) : Does v (e :: evs) s := does_cons.mpr ⟨he, h⟩

theorem Rep.does_one (he : v.Enabled e) (R : Rep s (v.apply e)) : Does v [e] s := .cons he R.does

theorem Does.snoc {s' : Kernel} (h : Does v evs s)
    (hstep : ∀ v', schedMachine.Run v evs v' → Rep s v' → v'.Enabled e ∧ Rep s' (v'.apply e)) :
    Does v (evs ++ [e]) s' := by
  obtain ⟨v', r, R⟩ := h
  exact ⟨v'.apply e, r.snoc (hstep v' r R).1, (hstep v' r R).2⟩

namespace Rep

section

variable (R : Rep s v)
include R

theorem thrtab : s.thrtab = v.thrtab := congrArg Globals.thrtab R.globals

theorem semtab : s.semtab = v.semtab := congrArg Globals.semtab R.globals

theorem thrcurrent : s.thrcurrent = v.thrcurrent :=
  congrArg Globals.thrcurrent R.globals

theorem readylist : s.readylist = v.readylist :=
  congrArg Globals.readylist R.globals

theorem sleepq : s.sleepq = v.sleepq := congrArg Globals.sleepq R.globals

theorem resdefer : s.resdefer = v.resdefer := congrArg Globals.resdefer R.globals

theorem isbadtid : s.isbadtid t ↔ ¬ v.Live t := by
  rw [R.isbadtid_iff, Globals.Live, IsTid]
  constructor
  · rintro (h | h | h) ⟨⟨h₁, h₂⟩, h₃⟩
    · omega
    · omega
    · exact h₃ h
  · intro h
    by_contra hno
    simp only [not_or, not_le, not_lt] at hno
    exact h ⟨⟨hno.2.1, hno.1⟩, hno.2.2⟩

theorem isbadsem : s.isbadsem i ↔ ¬ v.SemLive i := by
  rw [Kernel.isbadsem, Globals.SemLive, R.semtab, not_and_or, not_lt, not_not]

/-- Changes of the variables other than the queue table. -/
theorem modSem (i : Nat) (f : SemEnt → SemEnt) (st : SemState) (c : Int)
    (h : f (v.semtab i) = { v.semtab i with state := st, count := c }) :
    Rep (s.modSem i f) (v.apply (.sem i st c)) := by
  obtain ⟨g, Q, K⟩ := v
  obtain ⟨rfl, L⟩ := R
  refine ⟨?_, L⟩
  simp only [Kernel.modSem, store_eq_update, apply]
  rw [show f (s.semtab i) = _ from h]

theorem modThr_eq (t : Int) (f f' : ThrEnt → ThrEnt)
    (h : f (v.thrtab t) = f' (v.thrtab t)) : Rep (s.modThr t f) (v.modThr t f') := by
  have hv : v.modThr t f' = v.modThr t f := by
    simp only [Sched.modThr, h]
  rw [hv]
  exact R.modThr t f

end

/-! ## Making a thread ready -/

/-- **`ready`** puts a thread that has left its queue on the ready list. -/
theorem ready (R : Rep s (v.leave t)) (S : v.Sound) (ht : v.Live t) :
    (s.ready t false).2 = OK ∧ Rep (s.ready t false).1 (v.apply (.ready t)) := by
  have hnot : ∀ q, IsQueue q → t ∉ (v.leave t).queue q := fun q hq =>
    (S.placed.nodup q hq).not_mem_erase
  have hlive : ¬ s.isbadtid t := by
    rw [R.isbadtid, not_not]
    exact ht
  have R₁ : Rep ((s.setState t .ready).noted t) (((v.leave t).setState t .ready).noted t) := by
    have R₀ := R.setState t .ready
    generalize (v.leave t).setState t .ready = w at R₀
    obtain ⟨g, Q, K⟩ := w
    obtain ⟨hg, L⟩ := R₀
    obtain rfl : _ = g := hg
    exact ⟨rfl, L⟩
  have hself : (((v.leave t).setState t .ready).noted t).thrtab t =
      { v.thrtab t with state := .ready } :=
    thrtab_modThr_self (v.leave t) t fun e => { e with state := .ready }
  have hprio : (((s.setState t .ready).noted t).thrtab t).prio = (v.thrtab t).prio := by
    rw [R₁.thrtab, hself]
  have hq : ((s.setState t .ready).noted t).readylist = v.readylist := R₁.readylist
  have hfree : (((v.leave t).setState t .ready).noted t).state t ≠ .free := by
    rw [Globals.state, hself]
    simp
  rw [Kernel.ready, if_neg hlive]
  refine ⟨rfl, ?_⟩
  simp only [Bool.false_eq_true, if_false]
  rw [hprio, hq]
  exact R₁.insert S.layout.isQueue_readylist ht.1 hfree hnot (S.prio t ht.1)

theorem dispatched (R : Rep s v) : Rep (s.dispatched false) v.dispatched := by
  obtain ⟨g, Q, K⟩ := v
  obtain ⟨rfl, L⟩ := R
  exact ⟨rfl, L⟩

/-- The current thread, if it runs, is inserted into the ready list. -/
theorem contend (R : Rep s v) (S : v.Sound) :
    Rep (if (s.thrtab s.thrcurrent).state = .curr then
      ((s.setState s.thrcurrent .ready).insert s.thrcurrent s.readylist
        (s.thrtab s.thrcurrent).prio).1 else s) v.contend := by
  have hstate : (s.thrtab s.thrcurrent).state = v.state v.thrcurrent := by
    rw [R.thrtab, R.thrcurrent, Globals.state]
  by_cases hcurr : v.state v.thrcurrent = .curr
  · rw [hstate, if_pos hcurr, contend_of_curr hcurr, R.thrcurrent, R.readylist, R.thrtab]
    have hnone := Globals.home_of_curr hcurr
    have R₁ := (R.leave fun q hq => S.placed.not_mem S.thrcurrent hnone hq).setState v.thrcurrent
      .ready
    have hfree : ((v.leave v.thrcurrent).setState v.thrcurrent .ready).state v.thrcurrent ≠
        .free := by
      rw [show ((v.leave v.thrcurrent).setState v.thrcurrent .ready).state
        v.thrcurrent = .ready from
        state_modThr_self (v.leave v.thrcurrent) _ fun e => { e with state := .ready }]
      simp
    exact R₁.insert S.layout.isQueue_readylist S.thrcurrent hfree
      (fun q hq => (S.placed.nodup q hq).not_mem_erase) (S.prio _ S.thrcurrent)
  · rw [hstate, if_neg hcurr, contend_of_ne hcurr]
    exact R

theorem select {h : Int} (R : Rep s (v.leave h)) (h' : Int) (hh : h' = h) :
    Rep ({ s with thrcurrent := h' }.setState h' .curr) (v.select h) := by
  subst hh
  have R₁ := R.setState h' .curr
  generalize hw : (v.leave h').setState h' .curr = w at R₁
  obtain ⟨g, Q, K⟩ := w
  obtain ⟨hg, L⟩ := R₁
  obtain rfl : _ = g := hg
  refine ⟨?_, ?_⟩
  · rw [Sched.select, hw]
    rfl
  · rw [Sched.select, hw]
    exact L

/-- **`resched`** gives the processor to the first thread of the ready list, unless the current
thread leads. -/
theorem resched (R : Rep s v) (S : v.Sound) : Rep s.resched v.resched := by
  have hq := S.layout.isQueue_readylist
  have hdefer : ¬ 0 < s.resdefer := by
    rw [R.resdefer, S.resdefer]
    omega
  have hleads : ((s.thrtab s.thrcurrent).state = .curr ∧ s.nonempty s.readylist ∧
      s.firstkey s.readylist < (s.thrtab s.thrcurrent).prio) ↔ v.Leads := by
    rw [R.readylist, R.nonempty_iff hq, R.thrtab, R.thrcurrent, Sched.Leads]
    refine and_congr_right fun _ => ?_
    rcases hl : v.queue v.readylist with _ | ⟨h, l⟩
    · simp
    · rw [R.firstkey hq hl]
      simp
  rw [Kernel.resched, if_neg hdefer, Sched.resched]
  simp only [hleads]
  by_cases hlead : v.Leads
  · rw [if_pos hlead, if_pos hlead]
    exact R.dispatched
  · rw [if_neg hlead, if_neg hlead]
    -- the current thread contends if it still runs
    generalize hs₁ : (if (s.thrtab s.thrcurrent).state = .curr then
      ((s.setState s.thrcurrent .ready).insert s.thrcurrent s.readylist
        (s.thrtab s.thrcurrent).prio).1 else s) = s₁
    have R₁ : Rep s₁ v.contend := by
      rw [← hs₁]
      exact R.contend S
    have hready : s₁.readylist = v.readylist := R₁.readylist.trans v.readylist_contend
    rcases hl : v.contend.queue v.readylist with _ | ⟨h, l⟩
    · exact absurd hl S.contend_ne_nil
    · have hempty : ¬ s₁.isempty v.readylist := by
        rw [R₁.isempty_iff hq, hl]
        simp
      obtain ⟨hid, R₂⟩ := R₁.dequeue hq hl
      simp only [hready, hempty, decide_false]
      generalize s₁.dequeue v.readylist = r at hid R₂ ⊢
      obtain ⟨s₂, h'⟩ := r
      obtain rfl : h' = h := hid
      exact (R₂.select h' rfl).dispatched

/-! ## Taking threads off a queue -/

/-- **`ready(dequeue(q))`** makes the first thread of a queue ready. -/
theorem dequeue_ready (R : Rep s v) (S : v.Sound) (hq : IsQueue q) (hne : q ≠ v.readylist) {h : Int}
    {l : List Int} (hl : v.queue q = h :: l) :
    v.Enabled (.ready h) ∧ ¬ (s.dequeue q).1.isbadtid (s.dequeue q).2 ∧
      Rep ((s.dequeue q).1.ready (s.dequeue q).2 false).1 (v.apply (.ready h)) := by
  have hmem : h ∈ v.queue q := hl ▸ mem_cons_self ..
  have htid := S.placed.range q hq h hmem
  have hstate := S.state_of_mem hq hne hmem
  have hlive : v.Live h := ⟨htid, by rcases hstate with hs | hs | hs <;> simp [hs]⟩
  obtain ⟨hid, R'⟩ := R.dequeue hq hl
  rw [hid]
  refine ⟨⟨htid, ?_, ?_⟩, ?_, (R'.ready S hlive).2⟩
  · intro hr
    rcases hstate with hs | hs | hs <;> simp [hs] at hr
  · rcases hstate with hs | hs | hs <;> simp [hs]
  · rw [R'.isbadtid, not_not]
    exact hlive

end Rep

namespace Sched

variable {u : Int}

theorem queue_ready_of_ne (h : q ≠ v.readylist) :
    (v.apply (.ready t)).queue q = (v.queue q).erase t := update_of_ne h _ _

theorem key_ready_of_ne (h : u ≠ t) : (v.apply (.ready t)).key u = v.key u := update_of_ne h _ _

/-- Setting a semaphore and making a thread ready do not depend on each other. -/
theorem apply_sem_ready (v : Sched) (i : Nat) (st : SemState) (c t : Int) :
    (v.apply (.sem i st c)).apply (.ready t) = (v.apply (.ready t)).apply (.sem i st c) := rfl

theorem apply_sem_sem (v : Sched) (i : Nat) (st : SemState) (c d : Int) :
    (v.apply (.sem i st c)).apply (.sem i st d) = v.apply (.sem i st d) := by
  simp [apply]

theorem apply_sem_self (v : Sched) (i : Nat) :
    v.apply (.sem i (v.semtab i).state (v.semtab i).count) = v := by
  simp [apply]

end Sched

namespace Rep

/-- The loop of `semfree` makes all waiting threads ready. -/
theorem semfreeLoop (R : Rep s v) (S : v.Sound) (hi : i < NSEM) {fuel : Nat}
    (hfuel : (v.queue (v.semtab i).queue).length < fuel) :
    Does v ((v.queue (v.semtab i).queue).map .ready) (Kernel.semfreeLoop i fuel s) := by
  have hq := S.layout.isQueue_sem hi
  have hne := S.layout.sem_ne_readylist hi
  generalize hl : v.queue (v.semtab i).queue = l at hfuel ⊢
  induction l, fuel, hfuel using fuel_induction generalizing s v with
  | nil fuel =>
    rw [Kernel.semfreeLoop, if_neg]
    · exact R.does
    · rw [R.semtab, R.nonempty_iff hq, hl]
      simp
  | cons h l fuel hfuel ih =>
    obtain ⟨he, -, R'⟩ := R.dequeue_ready S hq hne hl
    rw [Kernel.semfreeLoop, if_pos, R.semtab]
    · refine .cons he (ih R' (S.apply he) hq hne ?_)
      rw [show ((v.apply (.ready h)).semtab i).queue = (v.semtab i).queue from rfl,
        queue_ready_of_ne hne, hl, erase_cons_head]
    · rw [R.semtab, R.nonempty_iff hq, hl]
      simp

/-- The loop of `wakeup` makes the threads ready whose delay has run out. -/
theorem wakeupLoop (R : Rep s v) (S : v.Sound) {fuel : Nat}
    (hfuel : (v.queue v.sleepq).length < fuel) :
    Does v (((v.queue v.sleepq).takeWhile fun t => decide (v.key t ≤ 0)).map .ready)
      (Kernel.wakeupLoop fuel s) := by
  have hq := S.layout.isQueue_sleepq
  have hne := S.layout.readylist_ne_sleepq.symm
  have hnodup := S.placed.nodup _ hq
  generalize hl : v.queue v.sleepq = l at hfuel hnodup ⊢
  induction l, fuel, hfuel using fuel_induction generalizing s v with
  | nil fuel =>
    rw [Kernel.wakeupLoop, if_neg]
    · exact R.does
    · rw [R.sleepq, R.nonempty_iff hq, hl]
      simp
  | cons h l fuel hfuel ih =>
    obtain ⟨he, -, R'⟩ := R.dequeue_ready S hq hne hl
    obtain ⟨hnot, hnodup'⟩ := nodup_cons.mp hnodup
    have hcond : (s.nonempty s.sleepq ∧ s.firstkey s.sleepq ≤ 0) ↔ v.key h ≤ 0 := by
      rw [R.sleepq, R.nonempty_iff hq, R.firstkey hq hl, hl]
      simp
    rw [Kernel.wakeupLoop]
    by_cases hkey : v.key h ≤ 0
    · rw [if_pos (hcond.mpr hkey), R.sleepq, takeWhile_cons_of_pos (by simpa using hkey)]
      have hqueue : (v.apply (.ready h)).queue v.sleepq = l := by
        rw [queue_ready_of_ne hne, hl, erase_cons_head]
      have hrest := ih R' (S.apply he) hq hne hqueue hnodup'
      -- the keys of the others have not changed
      have hkeys : (l.takeWhile fun t => decide ((v.apply (.ready h)).key t ≤ 0)) =
          l.takeWhile fun t => decide (v.key t ≤ 0) := by
        refine takeWhile_congr fun t ht => ?_
        have hne' : t ≠ h := fun heq => hnot (heq ▸ ht)
        rw [key_ready_of_ne hne']
      rw [hkeys] at hrest
      exact .cons he hrest
    · rw [if_neg (hcond.not.mpr hkey), takeWhile_cons_of_neg (by simpa using hkey)]
      exact R.does

theorem signalnLoop_none {n : Nat} {c : Int} {st : SemState}
    (hsem : ((v.apply (.sem i st (c + 1))).released i n) = [])
    (hrel : v.released i (n + 1) = []) {s' : Kernel}
    (h : Does (v.apply (.sem i st (c + 1))) (.sem i st (c + 1 + n) ::
      ((v.apply (.sem i st (c + 1))).released i n).map .ready) s') :
    Does v (.sem i st (c + 1 + n) :: (v.released i (n + 1)).map .ready) s' := by
  rw [hsem] at h
  rw [hrel]
  obtain ⟨-, h⟩ := does_cons.mp h
  rw [apply_sem_sem] at h
  exact .cons trivial h

/-- The loop of `signaln` adds to the count and makes the first waiting threads ready. -/
theorem signalnLoop (R : Rep s v) (S : v.Sound) (hi : i < NSEM) (n : Nat) :
    Does v (.sem i (v.semtab i).state ((v.semtab i).count + n) :: (v.released i n).map .ready)
      (Kernel.signalnLoop i n s) := by
  have hq := S.layout.isQueue_sem hi
  have hne := S.layout.sem_ne_readylist hi
  induction n generalizing s v with
  | zero =>
    have hself : v.apply (.sem i (v.semtab i).state ((v.semtab i).count + (0 : Nat))) = v := by
      rw [Nat.cast_zero, add_zero, v.apply_sem_self]
    refine .cons trivial ?_
    rw [hself]
    simpa [released, Kernel.signalnLoop] using R.does
  | succ n ih =>
    generalize hst : (v.semtab i).state = st
    generalize hc : (v.semtab i).count = c
    have hcount : c + ((n + 1 : Nat) : Int) = c + 1 + n := by
      push_cast
      omega
    have R₁ : Rep (s.modSem i fun e => { e with count := e.count + 1 })
        (v.apply (.sem i st (c + 1))) := R.modSem i _ _ _ (by rw [← hst, ← hc])
    have S₁ : (v.apply (.sem i st (c + 1))).Sound := S.apply trivial
    have hsem₁ := v.semtab_sem_self i st (c + 1)
    have hqueue₁ : ((v.apply (.sem i st (c + 1))).semtab i).queue = (v.semtab i).queue := by
      rw [hsem₁]
    have hrest : ∀ {s'}, Rep s' (v.apply (.sem i st (c + 1))) →
        Does (v.apply (.sem i st (c + 1))) (.sem i st (c + 1 + n) ::
          ((v.apply (.sem i st (c + 1))).released i n).map .ready) (Kernel.signalnLoop i n s') := by
      intro s' R'
      have := ih R' S₁ (by rw [hqueue₁]; exact hq) (by rw [hqueue₁]; exact hne)
      rwa [hsem₁] at this
    rw [Kernel.signalnLoop, R.semtab, hc]
    simp only [hcount]
    by_cases hneg : c < 0
    · rw [if_pos hneg, R₁.semtab, hqueue₁]
      rcases hl : v.queue (v.semtab i).queue with _ | ⟨h, l⟩
      · -- there is nobody to release
        have hnil : ∀ m, v.released i m = [] := fun m => by simp [released, hl]
        have hnil₁ : (v.apply (.sem i st (c + 1))).released i n = [] := by
          rw [released, hqueue₁, show (v.apply (.sem i st (c + 1))).queue = v.queue from rfl,
            hl, take_nil]
        have hbad : (s.modSem i fun e => { e with count := e.count + 1 }).isbadtid EMPTY :=
          .inr (.inl (by decide))
        rw [R₁.dequeue_nil hq hl]
        simp only [Kernel.ready, if_pos hbad]
        exact signalnLoop_none hnil₁ (hnil _) (hrest R₁)
      · -- the first waiting thread is released
        obtain ⟨he, -, R₂⟩ := R₁.dequeue_ready S₁ hq hne hl
        have S₂ := S₁.apply he
        rw [apply_sem_ready] at R₂ S₂
        have hsem₂ : ((v.apply (.ready h)).apply (.sem i st (c + 1))).semtab i =
            { v.semtab i with state := st, count := c + 1 } := hsem₁
        have h₂ := ih R₂ S₂ (by rw [hsem₂]; exact hq) (by rw [hsem₂]; exact hne)
        rw [hsem₂] at h₂
        obtain ⟨-, h₂⟩ := does_cons.mp h₂
        rw [apply_sem_sem, ← apply_sem_ready] at h₂
        have hqueue₂ : (v.apply (.ready h)).queue (v.semtab i).queue = l := by
          rw [queue_ready_of_ne hne, hl, erase_cons_head]
        have hrel : v.released i (n + 1) =
            h :: ((v.apply (.ready h)).apply (.sem i st (c + 1))).released i n := by
          obtain ⟨k, hk⟩ : ∃ k, (-c).toNat = k + 1 := ⟨(-c).toNat - 1, by omega⟩
          have hk' : (-(c + 1)).toNat = k := by omega
          rw [released, released, hc, hl, hk, Nat.add_min_add_right, take_succ_cons,
            hsem₂]
          simp only [hk']
          rw [show ((v.apply (.ready h)).apply (.sem i st (c + 1))).queue =
            (v.apply (.ready h)).queue from rfl, hqueue₂]
        rw [hrel]
        exact .cons trivial (.cons he h₂)
    · rw [if_neg hneg]
      have hzero : (-c).toNat = 0 := by omega
      refine signalnLoop_none ?_ ?_ (hrest R₁)
      · rw [released, hsem₁]
        simp only [show (-(c + 1)).toNat = 0 by omega, Nat.min_zero, take_zero]
      · rw [released, hc, hzero, Nat.min_zero, take_zero]

end Rep

end Xinu
