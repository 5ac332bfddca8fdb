import Xinu.Sched.Frame

/-!
# Priorities and the ready list

The ready list is sorted by keys, which are the priorities its threads had when they were put on
it. As long as no priority is changed behind the back of the list, the thread that `resched` leaves
running has the highest priority. Among threads of equal priority the processor goes round: the
thread that gives it up goes behind those whose keys are not smaller.

## Main results

* `Sched.Step.keyed`: which steps keep the keys right
* `Sched.Keyed.lawful_resched`: `resched` with the right keys
* `Sched.Split.resched`: `resched` moves on to the next thread of `A` and the running one
-/

namespace Xinu

open List Function KeyedList

variable {A B T : List Int} {e : Event} {evs : List Event} {h t : Int} {k : Context} {op : Op}
variable {v v' : Sched}

/-- No ready thread has a higher priority than the one that runs. -/
def Dispatch.Lawful (d : Dispatch) : Prop :=
  ∀ t, IsTid t → (d.thrtab t).state = .ready → (d.thrtab t).prio ≤ (d.thrtab d.thrcurrent).prio

namespace Sched

/-! ## The history of rescheduling -/

theorem Sound.rescheds_resched (S : v.Sound) :
    v.resched.rescheds = v.rescheds ++ [⟨false, v.resched.thrcurrent, v.resched.thrtab⟩] := by
  rcases S.resched_cases with ⟨-, heq⟩ | ⟨-, h, l, -, heq⟩
  · rw [heq]
    rfl
  · have hframe : v.contend.rescheds = v.rescheds := by rw [contend_frame]
    rw [heq, ← hframe]
    rfl

theorem rescheds_apply (h : e ≠ .resched) : (v.apply e).rescheds = v.rescheds := by
  cases e with
  | resched => exact absurd rfl h
  | _ => rfl

/-- The ready list was never empty when a thread was taken from it. -/
theorem Sound.rescheds_run (S : v.Sound) (r : schedMachine.Run v evs v')
    (h : ∀ d ∈ v.rescheds, d.empty = false) : ∀ d ∈ v'.rescheds, d.empty = false := by
  induction r with
  | nil => exact h
  | @snoc w evs e r he ih =>
    intro d hd
    change d ∈ (w.apply e).rescheds at hd
    by_cases hres : e = .resched
    · subst hres
      change d ∈ w.resched.rescheds at hd
      rw [(S.run r).rescheds_resched] at hd
      rcases mem_append.mp hd with hd | hd
      · exact ih d hd
      · rw [mem_singleton.mp hd]
    · rw [rescheds_apply hres] at hd
      exact ih d hd

/-! ## Keys and priorities -/

/-- The key of every thread on the ready list is its priority. -/
def Keyed (v : Sched) : Prop := ∀ t ∈ v.queue v.readylist, v.key t = (v.thrtab t).prio

/-- The priority of a thread is changed only by its own events. -/
theorem prio_apply (hspawn : ∀ x, e ≠ .spawn t x := by simp)
    (hprio : ∀ p, e ≠ .prio t p := by simp) :
    ((v.apply e).thrtab t).prio = (v.thrtab t).prio := by
  rw [thrtab_apply]
  cases e with
  | spawn u x =>
    dsimp only
    rw [if_neg]
    rintro rfl
    exact hspawn x rfl
  | prio u p =>
    dsimp only
    rw [if_neg]
    rintro rfl
    exact hprio p rfl
  | enqueue _ | message _ _ _ | ctx _ _ =>
    dsimp only
    split_ifs <;> rfl
  | _ => rfl

theorem prio_select (v : Sched) (h t : Int) : ((v.select h).thrtab t).prio = (v.thrtab t).prio := by
  by_cases hth : t = h
  · subst hth
    change (((v.leave t).setState t .curr).thrtab t).prio = _
    rw [setState, thrtab_modThr_self]
    rfl
  · rw [thrtab_select_of_ne v hth]

section

variable (K : v.Keyed)
include K

theorem Keyed.makeReady (u : Int) : (v.makeReady u).Keyed := by
  intro t ht
  change t ∈ (v.makeReady u).queue v.readylist at ht
  rw [queue_makeReady, update_self, mem_insertBy] at ht
  by_cases htu : t = u
  · subst htu
    rw [key_makeReady, update_self, thrtab_makeReady_self]
  · rw [key_makeReady, update_of_ne htu, thrtab_makeReady_of_ne v htu]
    exact K t (mem_of_mem_erase (ht.resolve_left htu))

theorem Keyed.contend : v.contend.Keyed := by
  unfold Sched.contend
  split_ifs
  · exact K.makeReady _
  · exact K

theorem Keyed.resched (S : v.Sound) : v.resched.Keyed := by
  rcases S.resched_cases with ⟨-, heq⟩ | ⟨-, h, l, -, heq⟩
  · rw [heq]
    exact K
  · rw [heq]
    intro t ht
    have htc : t ∈ v.contend.queue v.contend.readylist := mem_of_mem_erase ht
    exact (K.contend t htc).trans (prio_select v.contend h t).symm

/-- **An event keeps the keys right** unless it changes the priority of a ready thread. -/
theorem Keyed.apply (S : v.Sound) (he : v.Enabled e)
    (hprio : ∀ t p, e = .prio t p → v.state t = .ready → p = (v.thrtab t).prio) :
    (v.apply e).Keyed := by
  have hready := S.layout.isQueue_readylist
  -- the threads on the list were there before, with the same keys and priorities
  have hkeep : ∀ {w : Sched}, (∀ t ∈ w.queue w.readylist, t ∈ v.queue v.readylist ∧
      w.key t = v.key t ∧ (w.thrtab t).prio = (v.thrtab t).prio) → w.Keyed := by
    intro w h t ht
    obtain ⟨hmem, hkey, hp⟩ := h t ht
    rw [hkey, hp, K t hmem]
  have hstate : ∀ {t}, t ∈ v.queue v.readylist → v.state t = .ready :=
    fun ht => (S.mem_readylist (S.placed.range _ hready _ ht)).mp ht
  have hnotsleep : ∀ {t}, t ∈ v.queue v.readylist → t ∉ v.queue v.sleepq :=
    fun ht => S.placed.disjoint hready S.layout.isQueue_sleepq S.layout.readylist_ne_sleepq ht
  cases e with
  | ready u => exact K.makeReady u
  | resched => exact K.resched S
  | hold u | block st | free u =>
    exact hkeep fun t ht => ⟨mem_of_mem_erase ht, rfl, prio_apply⟩
  | enqueue i =>
    refine hkeep fun t ht => ?_
    change t ∈ update v.queue (v.semtab i).queue _ v.readylist at ht
    rw [update_of_ne (S.layout.sem_ne_readylist he.2.2).symm] at ht
    exact ⟨ht, rfl, prio_apply⟩
  | doze d st =>
    refine hkeep fun t ht => ?_
    change t ∈ update v.queue v.sleepq _ v.readylist at ht
    rw [update_of_ne S.layout.readylist_ne_sleepq] at ht
    refine ⟨ht, insertDelta_key_of_not_mem ?_ (hnotsleep ht), prio_apply⟩
    rintro rfl
    have := hstate ht
    simp [he.1] at this
  | lend u =>
    exact hkeep fun t ht => ⟨ht, lend_of_not_mem (hnotsleep ht), prio_apply⟩
  | tick =>
    exact hkeep fun t ht =>
      ⟨ht, addAt_of_not_mem (fun _ => mem_of_mem_head?) (hnotsleep ht), prio_apply⟩
  | spawn u x =>
    refine hkeep fun t ht => ?_
    have htv : t ∈ v.queue v.readylist := mem_of_mem_erase ht
    refine ⟨htv, rfl, prio_apply ?_ (by simp)⟩
    rintro y ⟨⟩
    have := hstate htv
    simp [he.2.1] at this
  | prio u p =>
    refine hkeep fun t ht => ⟨ht, rfl, ?_⟩
    change ((v.modThr u _).thrtab t).prio = _
    rw [thrtab_modThr]
    split_ifs with htu
    · exact hprio t p (htu ▸ rfl) (hstate ht)
    · rfl
  | message _ _ _ | ctx _ _ | sem _ _ _ | heap _ | thrcount _ | nexttid _ | nextsem _ | clock _ _
  | halt => exact hkeep fun t ht => ⟨ht, rfl, prio_apply⟩

/-- **`resched` with the right keys** leaves a thread of the highest priority running. -/
theorem Keyed.lawful_resched (S : v.Sound) :
    Dispatch.Lawful ⟨false, v.resched.thrcurrent, v.resched.thrtab⟩ := by
  intro t ht hst
  have hmem := (S.resched.mem_readylist ht).mpr hst
  have hkey := K.resched S t hmem
  rw [← hkey]
  rcases S.resched_cases with ⟨⟨-, u, hu, hlt⟩, heq⟩ | ⟨-, h, l, hq, heq⟩
  · rw [heq] at hmem ⊢
    change t ∈ v.queue v.readylist at hmem
    have hsorted := S.sorted
    rw [eq_cons_of_mem_head? hu] at hmem hsorted
    rcases mem_cons.mp hmem with rfl | hmem
    · exact hlt.le
    · exact ((pairwise_cons.mp hsorted).1 t hmem).trans hlt.le
  · rw [heq] at hmem ⊢
    have hsorted := S.contend.sorted
    rw [readylist_contend, hq] at hsorted
    have hh : v.contend.key h = (v.contend.thrtab h).prio :=
      K.contend h (by rw [readylist_contend, hq]; exact mem_cons_self ..)
    change v.contend.key t ≤ ((v.contend.select h).thrtab h).prio
    rw [prio_select, ← hh]
    change t ∈ (v.contend.queue v.contend.readylist).erase h at hmem
    rw [readylist_contend, hq, erase_cons_head] at hmem
    exact (pairwise_cons.mp hsorted).1 t hmem

/-- A run of events none of which changes a priority. -/
theorem Keyed.run (S : v.Sound) (r : schedMachine.Run v evs v')
    (hno : ∀ t p, .prio t p ∉ evs) (hlaw : ∀ d ∈ v.rescheds, d.Lawful) :
    v'.Keyed ∧ ∀ d ∈ v'.rescheds, d.Lawful := by
  induction r with
  | nil => exact ⟨K, hlaw⟩
  | @snoc w evs e r he ih =>
    obtain ⟨Kw, hw⟩ := ih fun t p h => hno t p (mem_append_left _ h)
    have Sw := S.run r
    refine ⟨Kw.apply Sw he ?_, fun d hd => ?_⟩
    · rintro t p rfl
      exact absurd (mem_append_right _ (mem_singleton_self _)) (hno t p)
    · change d ∈ (w.apply e).rescheds at hd
      by_cases hres : e = .resched
      · subst hres
        change d ∈ w.resched.rescheds at hd
        rw [Sw.rescheds_resched] at hd
        rcases mem_append.mp hd with hd | hd
        · exact hw d hd
        · rw [mem_singleton.mp hd]
          exact Kw.lawful_resched Sw
      · rw [rescheds_apply hres] at hd
        exact hw d hd

end

theorem Script.prio_mem (h : v.Script op evs k) {p : Int} (hmem : .prio t p ∈ evs) :
    op = .chprio t p ∧ evs = [.prio t p] := by
  cases h with
  | send => simpa using mem_sendEvents hmem
  | kill => simpa using mem_sendEvents ((List.mem_cons.mp hmem).resolve_left nofun)
  | chprio =>
    obtain ⟨rfl, rfl⟩ := Event.prio.inj (mem_singleton.mp hmem)
    exact ⟨rfl, rfl⟩
  | _ => simp [tickEvents] at hmem

/-- **Every step but a `chprio` of a ready thread keeps the keys right**, and dispatches lawfully.
-/
theorem Step.keyed (h : v.Step op k v') (S : v.Sound) (K : v.Keyed)
    (hop : ∀ t p, op = .chprio t p → v.state t = .ready → p = (v.thrtab t).prio)
    (hlaw : ∀ d ∈ v.rescheds, d.Lawful) : v'.Keyed ∧ ∀ d ∈ v'.rescheds, d.Lawful := by
  obtain ⟨evs, hscript, r⟩ := h
  by_cases hchprio : ∃ t p, .prio t p ∈ evs
  · obtain ⟨t, p, hmem⟩ := hchprio
    obtain ⟨rfl, rfl⟩ := hscript.prio_mem hmem
    obtain ⟨he, r'⟩ := Machine.run_cons_iff.mp r
    have K' : (v.apply (.prio t p)).Keyed := by
      refine K.apply S he ?_
      rintro t' p' ⟨⟩
      exact hop t p rfl
    exact K'.run (S.apply he) r' (by simp) hlaw
  · refine K.run S r (fun t p hmem => ?_) hlaw
    rcases mem_append.mp hmem with hmem | hmem
    · exact hchprio ⟨t, p, hmem⟩
    · simp at hmem

/-! ## Taking turns -/

/-- The ready list is `A`, with keys that are at least the priority of the running thread, followed
by `B`, with smaller ones. -/
structure Split (v : Sched) (A B : List Int) : Prop where
  queue : v.queue v.readylist = A ++ B
  front : ∀ t ∈ A, (v.thrtab v.thrcurrent).prio ≤ v.key t
  back : ∀ t ∈ B, v.key t < (v.thrtab v.thrcurrent).prio

theorem Sound.exists_split (S : v.Sound) : ∃ A B, v.Split A B :=
  ⟨_, _, takeWhile_append_dropWhile.symm, fun _ ht => le_of_mem_takeWhile ht,
    fun _ ht => S.sorted.lt_of_mem_dropWhile ht⟩

/-- What the order of the ready threads depends on is the same. -/
structure SameOrder (v v' : Sched) : Prop where
  thrcurrent : v'.thrcurrent = v.thrcurrent
  queue : v'.queue v'.readylist = v.queue v.readylist
  key : ∀ t ∈ v.queue v.readylist, v'.key t = v.key t
  prio : ∀ t, (v'.thrtab t).prio = (v.thrtab t).prio
  state : ∀ t, v'.state t = v.state t
  rescheds : v'.rescheds = v.rescheds
  halted : v'.halted = v.halted

theorem SameOrder.refl (v : Sched) : v.SameOrder v :=
  ⟨rfl, rfl, fun _ _ => rfl, fun _ => rfl, fun _ => rfl, rfl, rfl⟩

theorem SameOrder.trans {w : Sched} (h : v.SameOrder w) (h' : w.SameOrder v') : v.SameOrder v' :=
  ⟨h'.thrcurrent.trans h.thrcurrent, h'.queue.trans h.queue,
    fun t ht => (h'.key t (h.queue ▸ ht)).trans (h.key t ht), fun t => (h'.prio t).trans (h.prio t),
    fun t => (h'.state t).trans (h.state t), h'.rescheds.trans h.rescheds, h'.halted.trans h.halted⟩

theorem Split.congr (hs : v.Split A B) (h : v.SameOrder v') : v'.Split A B := by
  have hmem : ∀ t ∈ A ++ B, t ∈ v.queue v.readylist := fun t ht => hs.queue ▸ ht
  refine ⟨h.queue.trans hs.queue, fun t ht => ?_, fun t ht => ?_⟩
  · rw [h.thrcurrent, h.prio, h.key t (hmem t (mem_append_left _ ht))]
    exact hs.front t ht
  · rw [h.thrcurrent, h.prio, h.key t (hmem t (mem_append_right _ ht))]
    exact hs.back t ht

end Sched

/-- The events that leave the order of the ready threads alone. -/
def Event.Calm : Event → Prop
  | .tick | .clock _ _ | .message _ _ _ | .ctx _ _ => True
  | _ => False

namespace Sched

theorem Sound.calm_apply (S : v.Sound) (he : e.Calm) : v.SameOrder (v.apply e) := by
  have hstate : ∀ t, (v.apply e).state t = v.state t := by
    intro t
    rw [state_apply]
    cases e <;> first | rfl | exact he.elim
  have hprio : ∀ t, ((v.apply e).thrtab t).prio = (v.thrtab t).prio := by
    intro t
    refine prio_apply ?_ ?_
    · rintro x rfl
      exact he
    · rintro p rfl
      exact he
  cases e with
  | tick =>
    refine ⟨rfl, rfl, fun t ht => ?_, hprio, hstate, rfl, rfl⟩
    exact addAt_of_not_mem (fun _ => mem_of_mem_head?) (S.placed.disjoint
      S.layout.isQueue_readylist S.layout.isQueue_sleepq S.layout.readylist_ne_sleepq ht)
  | clock _ _ | message _ _ _ | ctx _ _ =>
    exact ⟨rfl, rfl, fun _ _ => rfl, hprio, hstate, rfl, rfl⟩
  | _ => exact he.elim

theorem Sound.calm_run (S : v.Sound) (r : schedMachine.Run v evs v') (hcalm : ∀ e ∈ evs, e.Calm) :
    v.SameOrder v' := by
  induction r with
  | nil => exact SameOrder.refl v
  | @snoc w evs e r _ ih =>
    have hw := ih fun e he => hcalm e (mem_append_left _ he)
    exact hw.trans ((S.run r).calm_apply (hcalm e (by simp)))

/-- **`resched` among equals**: the processor goes to the first of the threads with keys that are
not smaller than the priority of the running one, which goes behind them. -/
theorem Split.resched (hs : v.Split A B) (S : v.Sound) (hrun : v.Running)
    (hring : A ++ [v.thrcurrent] = h :: T) : v.resched.thrcurrent = h ∧
      ((v.thrtab h).prio = (v.thrtab v.thrcurrent).prio → v.resched.Split T B) := by
  set c := v.thrcurrent
  set p := (v.thrtab c).prio
  have hready := S.layout.isQueue_readylist
  have hnot : c ∉ A ++ B := by
    rw [← hs.queue]
    exact S.placed.not_mem S.thrcurrent (Globals.home_of_curr hrun) hready
  -- the ready list and the keys while the running thread contends
  have hq : v.contend.queue v.readylist = A ++ c :: B := by
    rw [contend_of_curr hrun, queue_makeReady, update_self, hs.queue, erase_of_not_mem hnot]
    exact insertBy_append hs.front hs.back
  have hkey : ∀ t, t ≠ c → v.contend.key t = v.key t := by
    intro t ht
    rw [contend_of_curr hrun, key_makeReady]
    exact update_of_ne ht _ _
  have hkeyc : v.contend.key c = p := by
    rw [contend_of_curr hrun, key_makeReady]
    exact update_self ..
  have hprio : (v.resched.thrtab h).prio = (v.thrtab h).prio := by rw [thrtab_resched]
  rcases S.resched_cases with ⟨⟨-, u, hu, hlt⟩, heq⟩ | ⟨hlead, h', l, hq', heq⟩
  · -- the running thread stays ahead of `B`
    have hA : A = [] := by
      cases A with
      | nil => rfl
      | cons a A =>
        rw [hs.queue] at hu
        obtain rfl := Option.some_inj.mp hu
        exact absurd hlt (not_lt.mpr (hs.front a mem_cons_self))
    subst hA
    obtain ⟨rfl, rfl⟩ := cons.inj hring
    rw [heq]
    exact ⟨rfl, fun _ => ⟨hs.queue, hs.front, hs.back⟩⟩
  · have hthr : v.resched.thrcurrent = h' := by rw [heq]; rfl
    have hqueue : v.resched.queue v.resched.readylist = l := by
      rw [heq]
      change (v.contend.queue v.contend.readylist).erase h' = l
      rw [readylist_contend, hq', erase_cons_head]
    have hl : h' = h ∧ l = T ++ B := by
      rw [hq, append_cons, hring] at hq'
      exact ⟨(cons.inj hq').1.symm, (cons.inj hq').2.symm⟩
    obtain ⟨rfl, rfl⟩ := hl
    refine ⟨hthr, fun hph => ⟨hqueue, fun t ht => ?_, fun t ht => ?_⟩⟩
    · rw [hthr, hprio, hph]
      have hk : v.resched.key t = v.contend.key t := by rw [heq]; rfl
      rw [hk]
      have hmem : t ∈ A ++ [c] := by
        rw [hring]
        exact mem_cons_of_mem _ ht
      rcases mem_append.mp hmem with htA | htc
      · rw [hkey t (by rintro rfl; exact hnot (mem_append_left _ htA))]
        exact hs.front t htA
      · rw [mem_singleton.mp htc, hkeyc]
    · rw [hthr, hprio, hph]
      have hk : v.resched.key t = v.contend.key t := by rw [heq]; rfl
      rw [hk, hkey t (by rintro rfl; exact hnot (mem_append_right _ ht))]
      exact hs.back t ht

/-- `yield`, and a clock tick that wakes no thread, do no more than reschedule. -/
theorem Step.turn (hstep : v.Step op k v') (S : v.Sound)
    (hop : op = .yield ∨ op = .clkhandler ∧ v'.readied = v.readied) :
    ∃ w, w.Sound ∧ v.SameOrder w ∧ w.resched.SameOrder v' ∧ k.inKill = false := by
  obtain ⟨evs, hscript, r⟩ := hstep
  have hend : ∀ evs' : List Event, evs = evs' ++ [.resched] → (∀ e ∈ evs', e.Calm) →
      ∃ w, w.Sound ∧ v.SameOrder w ∧ w.resched.SameOrder v' := by
    rintro evs' rfl hcalm
    obtain ⟨u, r₁, -, rfl⟩ := Machine.run_snoc_iff.mp r
    obtain ⟨w, r₂, -, rfl⟩ := Machine.run_snoc_iff.mp r₁
    have Sw := S.run r₂
    exact ⟨w, Sw, S.calm_run r₂ hcalm, Sw.resched.calm_apply (e := .ctx v.thrcurrent k) trivial⟩
  rcases hop with rfl | ⟨rfl, hwake⟩
  · cases hscript with
    | yield =>
      obtain ⟨w, h⟩ := hend [] rfl (by simp)
      exact ⟨w, h.1, h.2.1, h.2.2, rfl⟩
    | refused href => exact href.elim
  · cases hscript with
    | @clkhandler ticks time =>
      have hnone : v.expired = [] := by
        rw [readied_run r] at hwake
        have hnil := append_right_eq_self.mp hwake
        simp only [tickEvents, filterMap_append, append_eq_nil_iff, cons_append,
          filterMap_cons, Event.readied, filterMap_map] at hnil
        cases hexp : v.expired with
        | nil => rfl
        | cons t l => simp [hexp, Event.readied] at hnil
      obtain ⟨w, h⟩ := hend [.clock ticks time, .tick] (by simp [tickEvents, hnone])
        (by simp [Event.Calm])
      exact ⟨w, h.1, h.2.1, h.2.2, rfl⟩
    | refused href => exact href.elim

/-- Going on with a call other than `kill` leaves the order of the ready threads alone. -/
theorem Step.cont (hstep : v.Step .cont k v') (S : v.Sound) (hk : v.self.ctx.inKill = false) :
    v.SameOrder v' ∧ k.inKill = false ∧ (k = .user ∨ ∃ r, k = .ret r) ∧
      ((∃ r, v.self.ctx = .ret r) → k = .user) := by
  obtain ⟨evs, hscript, r⟩ := hstep
  have hrun : (∀ e ∈ evs, e.Calm) → v.SameOrder v' := by
    intro hcalm
    refine S.calm_run r fun e he => ?_
    rcases mem_append.mp he with he | he
    · exact hcalm e he
    · rw [mem_singleton.mp he]
      trivial
  cases hscript with
  | refused href => exact href.elim
  | idle hctx | «return» hctx => exact ⟨hrun (by simp), rfl, .inl rfl, fun _ => rfl⟩
  | suspendRest hctx | receiveRest hctx | recvtimeRest hctx | timeout hctx =>
    exact ⟨hrun (by simp [Event.Calm]), rfl, .inr ⟨_, rfl⟩, by rintro ⟨r, hr⟩; simp [hctx] at hr⟩
  | suicide hctx | killWaiting hctx | killOther hctx | killFree hctx =>
    simp [hctx, Context.inKill] at hk

end Sched

end Xinu
