import Xinu.Sched.Events

/-!
# Every thread is where its state says

The invariant of the scheduler on lists: a thread is on the queue that its state names and on no
other, only the current thread runs, the ready list is sorted by descending key, and the null
thread runs or is ready. Every event keeps it, so every sequence of events does.

## Main results

* `Placed.move`: one thread changes its queue
* `Sched.Sound.resched_cases`: what `resched` does
* `Sched.Sound.apply`: every event keeps the invariant
* `Sched.Sound.running_resched`: the processor is never left without a thread
-/

namespace Xinu

open List Function KeyedList Globals

variable {g g' : Globals} {i : Nat} {q t : Int} {v' : Sched}

/-- The queue ids that `sysinit` hands out. -/
structure Globals.Layout (g : Globals) : Prop where
  readylist : g.readylist = NTHREAD + 2 * NSEM
  sleepq : g.sleepq = NTHREAD + 2 * (NSEM + 1 : Nat)
  semqueue : ∀ i < NSEM, (g.semtab i).queue = NTHREAD + 2 * i

namespace Globals.Layout

section

variable (L : g.Layout)
include L

theorem isQueue_readylist : IsQueue g.readylist := ⟨NSEM, by omega, L.readylist⟩

theorem isQueue_sleepq : IsQueue g.sleepq := ⟨NSEM + 1, by omega, L.sleepq⟩

theorem isQueue_sem (hi : i < NSEM) : IsQueue (g.semtab i).queue :=
  ⟨i, by omega, L.semqueue i hi⟩

theorem readylist_ne_sleepq : g.readylist ≠ g.sleepq := by
  rw [L.readylist, L.sleepq]
  omega

theorem sem_ne_readylist (hi : i < NSEM) : (g.semtab i).queue ≠ g.readylist := by
  rw [L.semqueue i hi, L.readylist]
  omega

theorem sem_ne_sleepq (hi : i < NSEM) : (g.semtab i).queue ≠ g.sleepq := by
  rw [L.semqueue i hi, L.sleepq]
  omega

theorem sem_injective {j : Nat} (hi : i < NSEM) (hj : j < NSEM)
    (h : (g.semtab i).queue = (g.semtab j).queue) : i = j := by
  rw [L.semqueue i hi, L.semqueue j hj] at h
  omega

end

end Globals.Layout

theorem isTid_null : IsTid NULLTHREAD := by decide

/-- The slots of the thread table. -/
def tids : List Int := (List.range NTHREAD.toNat).map Int.ofNat

theorem mem_tids : t ∈ tids ↔ IsTid t := by
  simp only [tids, mem_map, mem_range, IsTid]
  constructor
  · rintro ⟨n, h, rfl⟩
    simp only [Int.ofNat_eq_natCast]
    omega
  · rintro ⟨h₀, h₁⟩
    exact ⟨t.toNat, by omega, Int.toNat_of_nonneg h₀⟩

theorem nodup_tids : tids.Nodup := nodup_range.map fun _ _ h => Int.ofNat.inj h

/-! ## Placement -/

/-- Each thread is on the queue it belongs on, once, and on no other. -/
structure Placed (g : Globals) (Q : Int → List Int) : Prop where
  range : ∀ q, IsQueue q → ∀ t ∈ Q q, IsTid t
  nodup : ∀ q, IsQueue q → (Q q).Nodup
  home : ∀ t, IsTid t → ∀ q, IsQueue q → (t ∈ Q q ↔ g.home t = some q)

namespace Placed

variable {Q Q' : Int → List Int}

section

variable (P : Placed g Q)
include P

/-- **One thread changes its queue**: the others stay where they are. -/
theorem move (ht : IsTid t) (hhome : ∀ u, u ≠ t → g'.home u = g.home u)
    (hQ : ∀ q, IsQueue q → (Q' q).Nodup ∧
      ∀ u, u ∈ Q' q ↔ u ≠ t ∧ u ∈ Q q ∨ u = t ∧ g'.home t = some q) : Placed g' Q' := by
  refine ⟨fun q hq u hu => ?_, fun q hq => (hQ q hq).1, fun u hu q hq => ?_⟩
  · rcases ((hQ q hq).2 u).mp hu with ⟨-, hu⟩ | ⟨rfl, -⟩
    · exact P.range q hq u hu
    · exact ht
  · rw [(hQ q hq).2 u]
    by_cases hut : u = t
    · subst hut
      simp
    · rw [hhome u hut, ← P.home u hu q hq]
      simp [hut]

theorem congr (hhome : ∀ u, g'.home u = g.home u) : Placed g' Q :=
  ⟨P.range, P.nodup, fun u hu q hq => by rw [hhome u, P.home u hu q hq]⟩

theorem not_mem (ht : IsTid t) (h : g.home t = none) (hq : IsQueue q) : t ∉ Q q := by
  rw [P.home t ht q hq, h]
  simp

theorem disjoint {q' : Int} (hq : IsQueue q) (hq' : IsQueue q') (hne : q ≠ q')
    (ht : t ∈ Q q) : t ∉ Q q' := by
  intro ht'
  have htid := P.range q hq t ht
  have h₁ := (P.home t htid q hq).mp ht
  have h₂ := (P.home t htid q' hq').mp ht'
  exact hne (Option.some.inj (h₁.symm.trans h₂))

theorem leave (ht : IsTid t) (hhome : ∀ u, u ≠ t → g'.home u = g.home u)
    (hnone : g'.home t = none) : Placed g' fun q => (Q q).erase t := by
  refine P.move ht hhome fun q hq => ⟨(P.nodup q hq).erase t, fun u => ?_⟩
  rw [(P.nodup q hq).mem_erase_iff, hnone]
  simp

/-- `t` leaves its queue and enters `q₀`, at any place of it. -/
theorem enter (ht : IsTid t) (hhome : ∀ u, u ≠ t → g'.home u = g.home u)
    (q₀ : Int) (hsome : g'.home t = some q₀) (hin : (Q' q₀).Perm (t :: (Q q₀).erase t))
    (hout : ∀ q, IsQueue q → q ≠ q₀ → Q' q = (Q q).erase t) : Placed g' Q' := by
  refine P.move ht hhome fun q hq => ?_
  have hnodup := P.nodup q hq
  by_cases hqq : q = q₀
  · subst hqq
    rw [hin.nodup_iff, hsome]
    refine ⟨nodup_cons.mpr ⟨hnodup.not_mem_erase, hnodup.erase t⟩, fun u => ?_⟩
    rw [hin.mem_iff, mem_cons, hnodup.mem_erase_iff]
    tauto
  · rw [hout q hq hqq, hsome]
    refine ⟨hnodup.erase t, fun u => ?_⟩
    rw [hnodup.mem_erase_iff]
    simp [Ne.symm hqq]

theorem join (ht : IsTid t) (hnone : g.home t = none)
    (hhome : ∀ u, u ≠ t → g'.home u = g.home u) {q₀ : Int} (hq₀ : IsQueue q₀)
    (hsome : g'.home t = some q₀) {l : List Int} (hl : l.Perm (t :: Q q₀)) :
    Placed g' (update Q q₀ l) := by
  have hid : ∀ q, IsQueue q → (Q q).erase t = Q q :=
    fun q hq => erase_of_not_mem (P.not_mem ht hnone hq)
  refine P.enter ht hhome _ hsome ?_ fun q hq hne => ?_
  · rw [update_self, hid q₀ hq₀]
    exact hl
  · rw [update_of_ne hne, hid q hq]

end

end Placed

/-! ## The invariant -/

/-- The invariant of the scheduler. -/
structure Sched.Sound (v : Sched) : Prop where
  layout : v.Layout
  thrcurrent : IsTid v.thrcurrent
  placed : Placed v.toGlobals v.queue
  sem : ∀ t, IsTid t → v.state t = .wait → (v.thrtab t).sem < NSEM
  curr : ∀ t, IsTid t → v.state t = .curr → t = v.thrcurrent
  sorted : Descending v.key (v.queue v.readylist)
  null : v.state NULLTHREAD = .curr ∨ v.state NULLTHREAD = .ready
  prio : ∀ t, IsTid t → MINKEY < (v.thrtab t).prio
  resdefer : v.resdefer = 0

/-- The current thread is running. -/
def Sched.Running (v : Sched) : Prop := v.state v.thrcurrent = .curr

theorem Globals.home_congr (hstate : g'.state t = g.state t)
    (hsem : (g'.thrtab t).sem = (g.thrtab t).sem) (hready : g'.readylist = g.readylist)
    (hsleep : g'.sleepq = g.sleepq) (hqueue : ∀ i, (g'.semtab i).queue = (g.semtab i).queue) :
    g'.home t = g.home t := by
  unfold home
  rw [hstate, hsem, hready, hsleep, hqueue]

theorem Globals.home_of_thrtab (hthr : g'.thrtab t = g.thrtab t)
    (hsemtab : g'.semtab = g.semtab := by rfl) (hready : g'.readylist = g.readylist := by rfl)
    (hsleep : g'.sleepq = g.sleepq := by rfl) : g'.home t = g.home t :=
  home_congr (congrArg ThrEnt.state hthr) (congrArg ThrEnt.sem hthr) hready hsleep
    fun i => by rw [hsemtab]

theorem Globals.home_eq_none (h : g.state t ≠ .ready := by simp [*])
    (hw : g.state t ≠ .wait := by simp [*]) (hs : g.state t ≠ .sleep := by simp [*])
    (hm : g.state t ≠ .tmout := by simp [*]) : g.home t = none := by
  unfold home
  cases hst : g.state t <;> simp_all

/-- The current thread is on no queue while it runs. -/
theorem Globals.home_of_curr (h : g.state t = .curr) : g.home t = none :=
  home_eq_none

namespace Sched

variable {v : Sched} {u : Int}

@[simp] theorem thrtab_modThr_self (v : Sched) (t : Int) (f : ThrEnt → ThrEnt) :
    (v.modThr t f).thrtab t = f (v.thrtab t) := update_self ..

theorem thrtab_modThr_of_ne (v : Sched) (f : ThrEnt → ThrEnt) (h : u ≠ t) :
    (v.modThr t f).thrtab u = v.thrtab u := update_of_ne h ..

theorem thrtab_modThr (v : Sched) (t : Int) (f : ThrEnt → ThrEnt) (u : Int) :
    (v.modThr t f).thrtab u = if u = t then f (v.thrtab u) else v.thrtab u := by
  split_ifs with h
  · rw [h, thrtab_modThr_self]
  · exact thrtab_modThr_of_ne v f h

theorem modThr_of_eq {f : ThrEnt → ThrEnt} (h : f (v.thrtab t) = v.thrtab t) :
    v.modThr t f = v := by
  rw [modThr, h, update_eq_self]

@[simp] theorem state_modThr_self (v : Sched) (t : Int) (f : ThrEnt → ThrEnt) :
    (v.modThr t f).state t = (f (v.thrtab t)).state := by
  rw [state, thrtab_modThr_self]

@[simp] theorem semtab_sem_self (v : Sched) (i : Nat) (st : SemState) (c : Int) :
    (v.apply (.sem i st c)).semtab i = { v.semtab i with state := st, count := c } :=
  update_self ..

theorem semtab_sem_of_ne (v : Sched) {j : Nat} (st : SemState) (c : Int) (h : j ≠ i) :
    (v.apply (.sem i st c)).semtab j = v.semtab j := update_of_ne h ..

theorem semtab_sem_queue (v : Sched) (i j : Nat) (st : SemState) (c : Int) :
    ((v.apply (.sem i st c)).semtab j).queue = (v.semtab j).queue := by
  by_cases hij : j = i
  · subst hij
    rw [semtab_sem_self]
  · rw [semtab_sem_of_ne v st c hij]

/-! ## Steps that keep the invariant -/

section

variable (S : v.Sound)
include S

/-- What no queue depends on may change. -/
theorem Sound.data (hstate : ∀ t, v'.state t = v.state t)
    (hsem : ∀ t, (v'.thrtab t).sem = (v.thrtab t).sem)
    (hprio : ∀ t, IsTid t → MINKEY < (v'.thrtab t).prio)
    (hsemtab : ∀ i, (v'.semtab i).queue = (v.semtab i).queue)
    (hready : v'.readylist = v.readylist) (hsleep : v'.sleepq = v.sleepq)
    (hcur : v'.thrcurrent = v.thrcurrent) (hdefer : v'.resdefer = v.resdefer)
    (hqueue : v'.queue = v.queue) (hkey : ∀ t ∈ v.queue v.readylist, v'.key t = v.key t) :
    v'.Sound where
  layout := ⟨hready.trans S.layout.readylist, hsleep.trans S.layout.sleepq,
    fun i hi => (hsemtab i).trans (S.layout.semqueue i hi)⟩
  thrcurrent := hcur ▸ S.thrcurrent
  placed := by
    rw [hqueue]
    exact S.placed.congr fun u => home_congr (hstate u) (hsem u) hready hsleep hsemtab
  sem t ht hw := by
    rw [hsem t]
    exact S.sem t ht (hstate t ▸ hw)
  curr t ht hc := by
    rw [hcur]
    exact S.curr t ht (hstate t ▸ hc)
  sorted := by
    rw [hqueue, hready]
    exact S.sorted.congr hkey
  null := by
    rw [hstate]
    exact S.null
  prio := hprio
  resdefer := hdefer.trans S.resdefer

/-- One thread changes its state and its queue, and does not run. -/
theorem Sound.change (t : Int) (hthr : ∀ u, u ≠ t → v'.thrtab u = v.thrtab u)
    (hplaced : Placed v'.toGlobals v'.queue)
    (hsem : v'.state t = .wait → (v'.thrtab t).sem < NSEM) (hcurr : v'.state t ≠ .curr)
    (hnull : t = NULLTHREAD → v'.state t = .ready) (hprio : MINKEY < (v'.thrtab t).prio)
    (hsorted : Descending v'.key (v'.queue v.readylist)) (hsemtab : v'.semtab = v.semtab := by rfl)
    (hready : v'.readylist = v.readylist := by rfl) (hsleep : v'.sleepq = v.sleepq := by rfl)
    (hcur : v'.thrcurrent = v.thrcurrent := by rfl) (hdefer : v'.resdefer = v.resdefer := by rfl) :
    v'.Sound where
  layout := ⟨hready.trans S.layout.readylist, hsleep.trans S.layout.sleepq,
    fun i hi => hsemtab ▸ S.layout.semqueue i hi⟩
  thrcurrent := hcur ▸ S.thrcurrent
  placed := hplaced
  sem u hu hw := by
    by_cases hut : u = t
    · subst hut
      exact hsem hw
    · rw [state, hthr u hut] at hw
      rw [hthr u hut]
      exact S.sem u hu hw
  curr u hu hc := by
    by_cases hut : u = t
    · subst hut
      exact absurd hc hcurr
    · rw [state, hthr u hut] at hc
      rw [hcur]
      exact S.curr u hu hc
  sorted := hready ▸ hsorted
  null := by
    by_cases hut : NULLTHREAD = t
    · subst hut
      exact .inr (hnull rfl)
    · rw [state, hthr _ hut]
      exact S.null
  prio u hu := by
    by_cases hut : u = t
    · subst hut
      exact hprio
    · rw [hthr u hut]
      exact S.prio u hu
  resdefer := hdefer.trans S.resdefer

theorem Sound.not_mem_readylist (ht : IsTid t) (h : v.state t ≠ .ready) :
    t ∉ v.queue v.readylist := by
  rw [S.placed.home t ht _ S.layout.isQueue_readylist]
  have hlayout := S.layout
  unfold home
  cases hst : v.state t <;> simp_all
  · exact hlayout.readylist_ne_sleepq.symm
  · exact hlayout.sem_ne_readylist (S.sem t ht hst)
  · exact hlayout.readylist_ne_sleepq.symm

theorem Sound.mem_readylist (ht : IsTid t) : t ∈ v.queue v.readylist ↔ v.state t = .ready := by
  refine ⟨fun hm => by_contra fun h => S.not_mem_readylist ht h hm, fun h => ?_⟩
  rw [S.placed.home t ht _ S.layout.isQueue_readylist, home, h]

theorem Sound.mem_sleepq (ht : IsTid t) :
    t ∈ v.queue v.sleepq ↔ v.state t = .sleep ∨ v.state t = .tmout := by
  rw [S.placed.home t ht _ S.layout.isQueue_sleepq, home]
  cases hst : v.state t <;> simp
  · exact S.layout.readylist_ne_sleepq
  · exact S.layout.sem_ne_sleepq (S.sem t ht hst)

/-- The threads on the other queues wait for a semaphore or for the clock. -/
theorem Sound.state_of_mem (hq : IsQueue q) (hne : q ≠ v.readylist)
    (ht : t ∈ v.queue q) : v.state t = .wait ∨ v.state t = .sleep ∨ v.state t = .tmout := by
  have hhome := (S.placed.home t (S.placed.range q hq t ht) q hq).mp ht
  unfold home at hhome
  cases hst : v.state t <;> simp_all

theorem Sound.sorted_leave (t : Int) :
    Descending v.key ((v.queue v.readylist).erase t) := S.sorted.sublist erase_sublist

end

theorem thrtab_makeReady_of_ne (v : Sched) (h : u ≠ t) : (v.makeReady t).thrtab u = v.thrtab u :=
  update_of_ne h ..

section

variable (v : Sched) (t : Int)

@[simp] theorem thrtab_makeReady_self :
    (v.makeReady t).thrtab t = { v.thrtab t with state := .ready } := update_self ..

@[simp] theorem state_makeReady_self : (v.makeReady t).state t = .ready := by
  rw [state, thrtab_makeReady_self]

theorem queue_makeReady : (v.makeReady t).queue = update (fun q => (v.queue q).erase t) v.readylist
      (insertBy v.key (v.thrtab t).prio t ((v.queue v.readylist).erase t)) := rfl

theorem key_makeReady : (v.makeReady t).key = update v.key t (v.thrtab t).prio := rfl

end

/-- **Making a thread ready** keeps the invariant, whatever its state was. -/
theorem Sound.makeReady (S : v.Sound) (ht : IsTid t) : (v.makeReady t).Sound := by
  have hnodup := S.placed.nodup _ S.layout.isQueue_readylist
  refine S.change t (fun u hu => thrtab_makeReady_of_ne v hu) ?_ ?_ ?_ ?_ ?_ ?_
  · refine S.placed.enter ht
      (fun u hu => home_of_thrtab (thrtab_makeReady_of_ne v hu)) v.readylist
      ?_ ?_ ?_
    · rw [home, state_makeReady_self]
      rfl
    · rw [queue_makeReady, update_self]
      exact insertBy_perm _ _ _ _
    · intro q _ hne
      rw [queue_makeReady, update_of_ne hne]
  · simp
  · simp
  · simp
  · simpa using S.prio t ht
  · rw [queue_makeReady, update_self, key_makeReady]
    refine (S.sorted_leave t).insertBy (update_self ..) fun y hy => update_of_ne ?_ _ _
    rintro rfl
    exact hnodup.not_mem_erase hy

theorem Sound.depart (S : v.Sound) (ht : IsTid t) (f : ThrEnt → ThrEnt) (hnull : t ≠ NULLTHREAD)
    (hst : (f (v.thrtab t)).state = .susp ∨ (f (v.thrtab t)).state = .recv ∨
      (f (v.thrtab t)).state = .free) (hprio : MINKEY < (f (v.thrtab t)).prio) :
    ((v.leave t).modThr t f).Sound := by
  have hstate : ((v.leave t).modThr t f).state t = (f (v.thrtab t)).state := state_modThr_self ..
  have hhome : ((v.leave t).modThr t f).home t = none := by
    rcases hst with h | h | h <;> exact home_eq_none
  have hthr : ∀ u, u ≠ t → ((v.leave t).modThr t f).thrtab u = v.thrtab u :=
    fun u hu => thrtab_modThr_of_ne (v.leave t) _ hu
  refine S.change t hthr ?_ ?_ ?_ ?_ ?_ ?_
  · exact S.placed.leave ht (fun u hu => home_of_thrtab (hthr u hu)) hhome
  · rw [hstate]
    rcases hst with h | h | h <;> simp [h]
  · rw [hstate]
    rcases hst with h | h | h <;> simp [h]
  · exact fun h => absurd h hnull
  · simpa [leave] using hprio
  · exact S.sorted_leave t

section

variable (S : v.Sound) (hcurr : v.state v.thrcurrent = .curr) (hnull : v.thrcurrent ≠ NULLTHREAD)
include S hcurr hnull

theorem Sound.enqueue (hi : i < NSEM) : (v.apply (.enqueue i)).Sound := by
  have ht := S.thrcurrent
  have hthr : ∀ u, u ≠ v.thrcurrent → (v.apply (.enqueue i)).thrtab u = v.thrtab u :=
    fun u hu => update_of_ne hu _ _
  have hself : (v.apply (.enqueue i)).thrtab v.thrcurrent =
      { v.thrtab v.thrcurrent with state := .wait, sem := i } := update_self ..
  refine S.change v.thrcurrent hthr ?_ ?_ ?_ ?_ ?_ ?_
  · refine S.placed.join ht (home_of_curr hcurr)
      (fun u hu => home_of_thrtab (hthr u hu)) (S.layout.isQueue_sem hi) ?_
      (perm_append_singleton _ _)
    rw [home, state, hself]
    rfl
  · intro _
    rw [hself]
    exact hi
  · rw [state, hself]
    simp
  · exact fun h => absurd h hnull
  · rw [hself]
    exact S.prio _ ht
  · have hq : (v.apply (.enqueue i)).queue v.readylist = v.queue v.readylist :=
      update_of_ne (S.layout.sem_ne_readylist hi).symm _ _
    rw [hq]
    exact S.sorted

theorem Sound.doze {d : Int} {st : ThrState}
    (hst : st = .sleep ∨ st = .tmout) : (v.apply (.doze d st)).Sound := by
  have ht := S.thrcurrent
  have hthr : ∀ u, u ≠ v.thrcurrent → (v.apply (.doze d st)).thrtab u = v.thrtab u :=
    fun u hu => update_of_ne hu _ _
  have hself : (v.apply (.doze d st)).thrtab v.thrcurrent =
      { v.thrtab v.thrcurrent with state := st } := update_self ..
  have hnot := S.not_mem_readylist ht (by rw [hcurr]; simp)
  refine S.change v.thrcurrent hthr ?_ ?_ ?_ ?_ ?_ ?_
  · refine S.placed.join ht (home_of_curr hcurr)
      (fun u hu => home_of_thrtab (hthr u hu)) S.layout.isQueue_sleepq ?_
      (insertDelta_perm _ _ _ _)
    rw [home, state, hself]
    rcases hst with rfl | rfl <;> rfl
  · rw [state, hself]
    rcases hst with rfl | rfl <;> simp
  · rw [state, hself]
    rcases hst with rfl | rfl <;> simp
  · exact fun h => absurd h hnull
  · rw [hself]
    exact S.prio _ ht
  · have hq : (v.apply (.doze d st)).queue v.readylist = v.queue v.readylist :=
      update_of_ne S.layout.readylist_ne_sleepq _ _
    rw [hq]
    refine S.sorted.congr fun y hy => insertDelta_key_of_not_mem ?_ ?_
    · rintro rfl
      exact hnot hy
    · exact S.placed.disjoint S.layout.isQueue_readylist S.layout.isQueue_sleepq
        S.layout.readylist_ne_sleepq hy

end

/-! ## Rescheduling -/

theorem contend_of_curr (h : v.state v.thrcurrent = .curr) :
    v.contend = v.makeReady v.thrcurrent := if_pos h

theorem contend_of_ne (h : v.state v.thrcurrent ≠ .curr) : v.contend = v := if_neg h

theorem readylist_contend (v : Sched) : v.contend.readylist = v.readylist := by
  unfold contend
  split_ifs <;> rfl

theorem Sound.contend (S : v.Sound) : v.contend.Sound := by
  unfold Sched.contend
  split_ifs
  · exact S.makeReady S.thrcurrent
  · exact S

/-- While the threads contend for the processor none of them runs. -/
theorem Sound.contend_state_ne (S : v.Sound) (ht : IsTid t) : v.contend.state t ≠ .curr := by
  by_cases h : v.state v.thrcurrent = .curr
  · rw [contend_of_curr h]
    intro hc
    by_cases htc : t = v.thrcurrent
    · subst htc
      simp at hc
    · rw [state, thrtab_makeReady_of_ne v htc] at hc
      exact htc (S.curr t ht hc)
  · rw [contend_of_ne h]
    intro hc
    exact h (S.curr t ht hc ▸ hc)

theorem Sound.contend_ne_nil (S : v.Sound) : v.contend.queue v.readylist ≠ [] := by
  intro hnil
  have hnull := S.contend.null.resolve_left (S.contend_state_ne isTid_null)
  have hmem := (S.contend.mem_readylist isTid_null).mpr hnull
  rw [readylist_contend, hnil] at hmem
  simp at hmem

@[simp] theorem state_select_self (v : Sched) (h : Int) : (v.select h).state h = .curr :=
  state_modThr_self (v.leave h) h fun e => { e with state := .curr }

theorem thrtab_select_of_ne (v : Sched) (h : u ≠ t) : (v.select t).thrtab u = v.thrtab u :=
  update_of_ne h ..

theorem state_select_of_ne (v : Sched) (h : u ≠ t) : (v.select t).state u = v.state u := by
  rw [state, thrtab_select_of_ne v h, state]

/-- The first thread of the ready list gets the processor. -/
theorem Sound.select (S : v.Sound) {h : Int} {l : List Int} (hq : v.queue v.readylist = h :: l)
    (hcurr : ∀ t, IsTid t → v.state t ≠ .curr) : (v.select h).Sound := by
  have hmem : h ∈ v.queue v.readylist := hq ▸ mem_cons_self ..
  have ht := S.placed.range _ S.layout.isQueue_readylist h hmem
  have hthr : ∀ u, u ≠ h → (v.select h).thrtab u = v.thrtab u :=
    fun u hu => thrtab_select_of_ne v hu
  have hself : (v.select h).thrtab h = { v.thrtab h with state := .curr } := update_self ..
  have hstate : (v.select h).state h = .curr := state_select_self v h
  refine ⟨⟨S.layout.readylist, S.layout.sleepq, S.layout.semqueue⟩, ht, ?_, ?_, ?_,
    S.sorted_leave h, ?_, ?_, S.resdefer⟩
  · exact S.placed.leave ht (fun u hu => home_of_thrtab (hthr u hu))
      (home_of_curr hstate)
  · intro u hu hw
    by_cases huh : u = h
    · subst huh
      simp [hstate] at hw
    · rw [hthr u huh]
      exact S.sem u hu (by rwa [state, hthr u huh] at hw)
  · intro u hu hc
    by_contra huh
    rw [state, hthr u huh] at hc
    exact hcurr u hu hc
  · by_cases hn : NULLTHREAD = h
    · subst hn
      exact .inl hstate
    · rw [state, hthr _ hn]
      exact S.null
  · intro u hu
    by_cases huh : u = h
    · subst huh
      rw [hself]
      exact S.prio u hu
    · rw [hthr u huh]
      exact S.prio u hu

theorem Sound.dispatched (S : v.Sound) : v.dispatched.Sound :=
  S.data (fun _ => rfl) (fun _ => rfl) S.prio (fun _ => rfl) rfl rfl rfl rfl rfl fun _ _ => rfl

/-- **What `resched` does**: the current thread keeps the processor ahead of the ready list, or the
first thread of the ready list gets it. -/
theorem Sound.resched_cases (S : v.Sound) :
    v.Leads ∧ v.resched = v.dispatched ∨
      ¬ v.Leads ∧ ∃ h l, v.contend.queue v.readylist = h :: l ∧
        v.resched = (v.contend.select h).dispatched := by
  unfold resched
  by_cases hl : v.Leads
  · exact .inl ⟨hl, if_pos hl⟩
  · right
    rw [if_neg hl]
    rcases hq : v.contend.queue v.readylist with _ | ⟨h, l⟩
    · exact absurd hq S.contend_ne_nil
    · exact ⟨hl, h, l, rfl, rfl⟩

theorem Sound.resched (S : v.Sound) : v.resched.Sound := by
  rcases S.resched_cases with ⟨-, heq⟩ | ⟨-, h, l, hq, heq⟩
  · rw [heq]
    exact S.dispatched
  · rw [heq]
    rw [← readylist_contend] at hq
    exact (S.contend.select hq fun t ht => S.contend_state_ne ht).dispatched

/-- **The processor is never left without a thread.** -/
theorem Sound.running_resched (S : v.Sound) : v.resched.Running := by
  rcases S.resched_cases with ⟨hl, heq⟩ | ⟨-, h, l, hq, heq⟩
  · rw [heq]
    exact hl.1
  · rw [heq]
    exact state_select_self v.contend h

/-! ## Events -/

/-- **Every event keeps the invariant.** -/
theorem Sound.apply (S : v.Sound) {e : Event} (he : v.Enabled e) : (v.apply e).Sound := by
  have hreadylist := S.layout.isQueue_readylist
  -- a change of one entry that leaves the state alone
  have hmod : ∀ (t : Int) (f : ThrEnt → ThrEnt), (∀ e, (f e).state = e.state) →
      (∀ e, (f e).sem = e.sem) → (IsTid t → MINKEY < (f (v.thrtab t)).prio) →
      (v.modThr t f).Sound := by
    intro t f hstate hsem hprio
    refine S.data (fun u => ?_) (fun u => ?_) (fun u hu => ?_) (fun _ => rfl) rfl rfl rfl rfl rfl
      fun _ _ => rfl
    · rw [state, thrtab_modThr]
      split_ifs
      · exact hstate _
      · rfl
    · rw [thrtab_modThr]
      split_ifs
      · exact hsem _
      · rfl
    · rw [thrtab_modThr]
      split_ifs with hut
      · exact hut ▸ hprio (hut ▸ hu)
      · exact S.prio u hu
  -- a key of the sleep queue is no key of the ready list
  have hkeys : ∀ y ∈ v.queue v.readylist, y ∉ v.queue v.sleepq := fun y hy =>
    S.placed.disjoint hreadylist S.layout.isQueue_sleepq S.layout.readylist_ne_sleepq hy
  cases e with
  | ready t =>
    have S' := S.makeReady he.1
    exact S'.data (fun _ => rfl) (fun _ => rfl) S'.prio (fun _ => rfl) rfl rfl rfl rfl rfl
      fun _ _ => rfl
  | hold t =>
    exact S.depart he.1 (fun e => { e with state := .susp }) he.2.1 (.inl rfl) (S.prio t he.1)
  | block st =>
    refine S.depart S.thrcurrent (fun e => { e with state := st }) he.2.1 ?_ (S.prio _ S.thrcurrent)
    rcases he.2.2 with rfl | rfl <;> simp
  | enqueue i => exact S.enqueue he.1 he.2.1 he.2.2
  | doze d st => exact S.doze he.1 he.2.1 he.2.2.2
  | lend t =>
    exact S.data (fun _ => rfl) (fun _ => rfl) S.prio (fun _ => rfl) rfl rfl rfl rfl rfl
      fun y hy => lend_of_not_mem (hkeys y hy)
  | tick =>
    exact S.data (fun _ => rfl) (fun _ => rfl) S.prio (fun _ => rfl) rfl rfl rfl rfl rfl
      fun y hy => addAt_of_not_mem (fun _ => mem_of_mem_head?) (hkeys y hy)
  | resched => exact S.resched
  | free t =>
    exact S.depart he.1 (fun e => { e with state := .free }) he.2.1 (.inr (.inr rfl))
      (S.prio t he.1)
  | spawn t e =>
    refine S.depart he.1 (fun _ => e) ?_ (.inl he.2.2.1) he.2.2.2.1
    rintro rfl
    rcases S.null with h | h <;> simp [he.2.1] at h
  | prio t p =>
    exact hmod t (fun e => { e with prio := p }) (fun _ => rfl) (fun _ => rfl) fun _ => he
  | message t m has =>
    exact hmod t (fun e => { e with msg := m, hasmsg := has }) (fun _ => rfl) (fun _ => rfl)
      fun ht => S.prio t ht
  | ctx t k =>
    exact hmod t (fun e => { e with ctx := k }) (fun _ => rfl) (fun _ => rfl) fun ht => S.prio t ht
  | sem i st c =>
    exact S.data (fun _ => rfl) (fun _ => rfl) S.prio (fun j => v.semtab_sem_queue i j st c) rfl
      rfl rfl rfl rfl fun _ _ => rfl
  | heap h | thrcount n | nexttid n | nextsem n | clock a b | halt =>
    exact S.data (fun _ => rfl) (fun _ => rfl) S.prio (fun _ => rfl) rfl rfl rfl rfl rfl
      fun _ _ => rfl

/-- **Every sequence of events keeps the invariant.** -/
theorem Sound.run {evs : List Event} (S : v.Sound) (r : schedMachine.Run v evs v') : v'.Sound :=
  r.invariant (fun _ _ S he => S.apply he) S

end Sched

end Xinu
