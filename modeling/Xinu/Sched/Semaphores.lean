import Xinu.Sched.Frame

/-!
# What a step does to a semaphore

A step creates or frees a semaphore, passes or blocks on it, signals it, kills a thread that waits
on it, or leaves it alone. In each case the count and the queue change together.

## Main results

* `Sched.Step.sem`: every step does one of these things
-/

namespace Xinu

open List Function KeyedList Machine

namespace Sched

variable {v v' : Sched} {op : Op} {evs : List Event} {k : Context} {e : Event} {t q : Int} {i : Nat}

/-- The threads that wait on the semaphore `i`. -/
def waiting (v : Sched) (i : Nat) : List Int := v.queue (v.semtab i).queue

theorem Sound.mem_waiting (S : v.Sound) (hi : i < NSEM) (ht : IsTid t) :
    t ∈ v.waiting i ↔ v.state t = .wait ∧ (v.thrtab t).sem = i := by
  rw [waiting, S.placed.home t ht _ (S.layout.isQueue_sem hi), Globals.home]
  have hready := S.layout.sem_ne_readylist hi
  have hsleep := S.layout.sem_ne_sleepq hi
  cases hst : v.state t <;> simp [hready.symm, hsleep.symm]
  exact ⟨fun h => S.layout.sem_injective (S.sem t ht hst) hi h, fun h => by rw [h]⟩

end Sched

/-- The events that leave the semaphore `i` and its queue `Q` alone. -/
def Event.Foreign (i : Nat) (Q : List Int) : Event → Prop
  | .ready t => t ∉ Q
  | .free t => t ∉ Q
  | .enqueue j => j ≠ i
  | .sem j _ _ => j ≠ i
  | _ => True

namespace Sched

variable {v v' : Sched} {op : Op} {evs : List Event} {k : Context} {e : Event} {t q : Int} {i : Nat}

theorem waiting_eq (h : v'.semtab i = v.semtab i) : v'.waiting i = v'.queue (v.semtab i).queue := by
  rw [waiting, h]

theorem Sound.foreign_apply (S : v.Sound) (hi : i < NSEM) (he : v.Enabled e)
    (hf : e.Foreign i (v.waiting i)) :
    (v.apply e).waiting i = v.waiting i ∧ (v.apply e).semtab i = v.semtab i := by
  have hsem : (v.apply e).semtab i = v.semtab i := by
    rw [semtab_apply]
    cases e with
    | sem j st c => exact update_of_ne (Ne.symm hf) _ _
    | _ => rfl
  refine ⟨?_, hsem⟩
  rw [waiting_eq hsem, S.queue_apply he (S.layout.isQueue_sem hi) (S.layout.sem_ne_readylist hi)]
  cases e with
  | ready t | free t => exact erase_of_not_mem hf
  | enqueue j => exact if_neg fun h => hf (S.layout.sem_injective hi he.2.2 h).symm
  | doze d st => exact if_neg (S.layout.sem_ne_sleepq hi)
  | _ => rfl

/-- **Foreign events leave the semaphore alone.** -/
theorem Sound.foreign_run (S : v.Sound) (hi : i < NSEM) (r : schedMachine.Run v evs v')
    (hf : ∀ e ∈ evs, e.Foreign i (v.waiting i)) :
    v'.waiting i = v.waiting i ∧ v'.semtab i = v.semtab i := by
  induction r with
  | nil => exact ⟨rfl, rfl⟩
  | @snoc w evs e r he ih =>
    obtain ⟨hq, hsem⟩ := ih fun e he => hf e (mem_append_left _ he)
    obtain ⟨hq', hsem'⟩ := (S.run r).foreign_apply hi he (hq ▸ hf e (by simp))
    exact ⟨hq'.trans hq, hsem'.trans hsem⟩

/-- Threads made ready from the front of a queue leave the rest of it. -/
theorem Sound.ready_run (S : v.Sound) (hq : IsQueue q) (hne : q ≠ v.readylist) {l rest : List Int}
    (hl : v.queue q = l ++ rest) (r : schedMachine.Run v (l.map .ready) v') :
    v'.queue q = rest ∧ v'.semtab = v.semtab := by
  induction l generalizing v with
  | nil =>
    obtain rfl := run_nil_iff.mp r
    exact ⟨hl, rfl⟩
  | cons h l ih =>
    obtain ⟨he, r⟩ := run_cons_iff.mp r
    refine ih (v := v.apply (.ready h)) (S.apply he) hne ?_ r
    rw [S.queue_apply (e := .ready h) he hq hne, queueAfter, hl, cons_append, erase_cons_head]

end Sched

/-- What a step `op` from `v` to `v'` that has made the threads `new` ready has done to the
semaphore `i`. -/
inductive SemEffect (v : Sched) (i : Nat) (op : Op) (v' : Sched) (new : List Int) : Prop
  /-- nothing -/
  | none (hsem : v'.semtab i = v.semtab i) (hq : v'.waiting i = v.waiting i)
      (hnew : ∀ t ∈ new, t ∉ v.waiting i)
      (hwait : op = .wait i → ¬ v.SemLive i) (hsignal : op = .signal i → ¬ v.SemLive i)
      (hsignaln : ∀ n, op = .signaln i n → ¬ v.SemLive i ∨ n ≤ 0)
      (hkill : op = .cont → ∀ t, v.self.ctx = .kill t → t ∉ v.waiting i)
  /-- the slot is taken -/
  | create (hop : ∃ c, op = .semcreate c ∧
      (v'.semtab i).count = if 0 ≤ c then c else (v.semtab i).count)
      (hfree : (v.semtab i).state = .free) (hused : (v'.semtab i).state = .used)
      (hq : v'.waiting i = v.waiting i)
  /-- the slot is given back and nobody waits any more -/
  | free (hop : op = .semfree i) (hfree : (v'.semtab i).state = .free) (hq : v'.waiting i = [])
  /-- the caller gets through -/
  | pass (hop : op = .wait i) (hl : v.SemLive i) (hst : (v'.semtab i).state = (v.semtab i).state)
      (hcount : (v'.semtab i).count = (v.semtab i).count - 1) (hpos : 0 ≤ (v.semtab i).count - 1)
      (hq : v'.waiting i = v.waiting i) (hnew : new = []) (hstate : v'.state v.thrcurrent ≠ .wait)
  /-- the caller blocks -/
  | block (hop : op = .wait i) (hl : v.SemLive i) (hst : (v'.semtab i).state = (v.semtab i).state)
      (hcount : (v'.semtab i).count = (v.semtab i).count - 1) (hneg : (v.semtab i).count - 1 < 0)
      (hq : v'.waiting i = v.waiting i ++ [v.thrcurrent]) (hnew : new = [])
      (hstate : v'.state v.thrcurrent = .wait)
  /-- `n` signals release the threads in front -/
  | signal (n : Nat) (hop : op = .signal i ∧ n = 1 ∨ op = .signaln i n) (hl : v.SemLive i)
      (hst : (v'.semtab i).state = (v.semtab i).state)
      (hcount : (v'.semtab i).count = (v.semtab i).count + n)
      (hnew : new = v.released i n) (hq : v.waiting i = v.released i n ++ v'.waiting i)
  /-- a waiting thread is killed -/
  | kill (t : Int) (hop : op = .cont) (hctx : v.self.ctx = .kill t) (ht : t ∈ v.waiting i)
      (hst : (v'.semtab i).state = (v.semtab i).state)
      (hcount : (v'.semtab i).count = (v.semtab i).count + 1)
      (hq : v'.waiting i = (v.waiting i).erase t) (hnew : new = [])

namespace Sched

variable {v v' : Sched} {op : Op} {evs : List Event}
    {k : Context} {e : Event} {t q : Int} {i n : Nat}
variable {c : Int} {st : SemState}

theorem Sound.not_waiting (S : v.Sound) (hi : i < NSEM) (h : v.state t ≠ .wait) :
    t ∉ v.waiting i := by
  intro hmem
  have ht := S.placed.range _ (S.layout.isQueue_sem hi) t hmem
  exact h ((S.mem_waiting hi ht).mp hmem).1

/-- A step of foreign events does nothing to the semaphore. -/
theorem Sound.semEffect_none (S : v.Sound) (hi : i < NSEM)
    (r : schedMachine.Run v (evs ++ [.ctx c k]) v')
    (hf : ∀ e ∈ evs, e.Foreign i (v.waiting i) := by simp [Event.Foreign, *])
    (hwait : op = .wait i → ¬ v.SemLive i := by simp [*])
    (hsignal : op = .signal i → ¬ v.SemLive i := by simp [*])
    (hsignaln : ∀ n, op = .signaln i n → ¬ v.SemLive i ∨ n ≤ 0 := by simp [*])
    (hkill : op = .cont → ∀ t, v.self.ctx = .kill t → t ∉ v.waiting i := by simp [*]) :
    SemEffect v i op v' (evs.filterMap Event.readied) := by
  obtain ⟨hq, hsem⟩ := S.foreign_run hi r fun e he => by
    rcases mem_append.mp he with he | he
    · exact hf e he
    · rw [mem_singleton.mp he]
      trivial
  refine .none hsem hq (fun t ht => ?_) hwait hsignal hsignaln hkill
  obtain ⟨e, he, het⟩ := mem_filterMap.mp ht
  cases e with
  | ready u =>
    obtain rfl : u = t := Option.some.inj het
    exact hf _ he
  | _ => simp [Event.readied] at het

/-- The events of `send` are foreign: whoever they make ready waits for a message. -/
theorem Sound.foreign_sendEvents (S : v.Sound) (hi : i < NSEM) (t m : Int) :
    ∀ e ∈ v.sendEvents t m, e.Foreign i (v.waiting i) := by
  unfold sendEvents
  split_ifs with h₁ h₂ h₃
  · simp
  · have := S.not_waiting hi (show v.state t ≠ .wait by simp [h₂])
    simpa [Event.Foreign] using this
  · have := S.not_waiting hi (show v.state t ≠ .wait by simp [h₃])
    simpa [Event.Foreign] using this
  · simp [Event.Foreign]

theorem foreign_ready {l : List Int} (hl : ∀ t ∈ l, t ∉ v.waiting i) :
    ∀ e ∈ l.map Event.ready, e.Foreign i (v.waiting i) := by
  intro e he
  obtain ⟨t, ht, rfl⟩ := mem_map.mp he
  exact hl t ht

/-- Threads on another queue do not wait on the semaphore. -/
theorem Sound.waiting_disjoint (S : v.Sound) (hi : i < NSEM) (hq : IsQueue q)
    (hne : q ≠ (v.semtab i).queue) (ht : t ∈ v.queue q) : t ∉ v.waiting i :=
  S.placed.disjoint hq (S.layout.isQueue_sem hi) hne ht

/-- The count and the state of a semaphore that is set and then left alone. -/
theorem Sound.sem_then_foreign (S : v.Sound) (hi : i < NSEM)
    (evs : List Event) (r : schedMachine.Run v (.sem i st c :: evs) v')
    (hf : ∀ e ∈ evs, e.Foreign i (v.waiting i)) :
    v'.waiting i = v.waiting i ∧ (v'.semtab i).state = st ∧ (v'.semtab i).count = c := by
  obtain ⟨he, r⟩ := run_cons_iff.mp r
  have hw : (v.apply (.sem i st c)).waiting i = v.waiting i := by
    rw [waiting, semtab_sem_self]
    rfl
  obtain ⟨hq, hsem⟩ := Sound.foreign_run (v := v.apply (.sem i st c)) (S.apply he) hi r (hw ▸ hf)
  rw [hq, hsem, semtab_sem_self]
  exact ⟨hw, rfl, rfl⟩

theorem Sound.sem_then_ready (S : v.Sound) (hi : i < NSEM)
    {l rest : List Int} (hl : v.waiting i = l ++ rest) (evs : List Event)
    (r : schedMachine.Run v (.sem i st c :: l.map .ready ++ evs) v')
    (hf : ∀ e ∈ evs, e.Foreign i rest) :
    v'.waiting i = rest ∧ (v'.semtab i).state = st ∧ (v'.semtab i).count = c := by
  obtain ⟨w, r₁, r₂⟩ := run_append_iff.mp r
  obtain ⟨he, r₁⟩ := run_cons_iff.mp r₁
  have S₀ : (v.apply (.sem i st c)).Sound := S.apply he
  obtain ⟨hq, hsem⟩ := Sound.ready_run S₀
    (S.layout.isQueue_sem hi) (S.layout.sem_ne_readylist hi) hl r₁
  have hwi : w.semtab i = { v.semtab i with state := st, count := c } := by
    rw [hsem, semtab_sem_self]
  have hwaiting : w.waiting i = rest := by
    rw [waiting, hwi]
    exact hq
  obtain ⟨hq', hsem'⟩ := (S₀.run r₁).foreign_run hi r₂ (hwaiting ▸ hf)
  rw [hq', hsem', hwaiting, hwi]
  exact ⟨rfl, rfl, rfl⟩

theorem released_append (v : Sched) (i n : Nat) :
    ∃ rest, v.waiting i = v.released i n ++ rest := ⟨_, (take_append_drop _ _).symm⟩

theorem mem_of_mem_released (h : t ∈ v.released i n) : t ∈ v.waiting i := mem_of_mem_take h

theorem Sound.sem_then_free (S : v.Sound) (hi : i < NSEM)
    (r : schedMachine.Run v [.sem i st c, .free t, .ctx v.thrcurrent k] v') :
    v'.waiting i = (v.waiting i).erase t ∧ (v'.semtab i).state = st ∧ (v'.semtab i).count = c := by
  obtain ⟨he₁, r⟩ := run_cons_iff.mp r
  obtain ⟨he₂, r⟩ := run_cons_iff.mp r
  change (v.apply (.sem i st c)).Enabled (.free t) at he₂
  have S₁ : (v.apply (.sem i st c)).Sound := S.apply he₁
  obtain ⟨hq, hsem⟩ := (S₁.apply he₂).foreign_run hi r (by simp [Event.Foreign])
  have hsem₂ : ((v.apply (.sem i st c)).apply (.free t)).semtab i =
      { v.semtab i with state := st, count := c } := v.semtab_sem_self i st c
  rw [hq, hsem, hsem₂, waiting, hsem₂]
  exact ⟨rfl, rfl, rfl⟩

theorem Sound.sem_then_enqueue (S : v.Sound) (hi : i < NSEM)
    (r : schedMachine.Run v [.sem i st c, .enqueue i, .resched, .ctx v.thrcurrent k] v') :
    v'.waiting i = v.waiting i ++ [v.thrcurrent] ∧ (v'.semtab i).state = st ∧
      (v'.semtab i).count = c ∧ v'.state v.thrcurrent = .wait := by
  obtain ⟨he₁, r⟩ := run_cons_iff.mp r
  obtain ⟨he₂, r⟩ := run_cons_iff.mp r
  change (v.apply (.sem i st c)).Enabled (.enqueue i) at he₂
  change schedMachine.Run ((v.apply (.sem i st c)).apply (.enqueue i)) _ v' at r
  have S₁ : (v.apply (.sem i st c)).Sound := S.apply he₁
  have hsem₁ := v.semtab_sem_self i st c
  generalize hv₁ : v.apply (.sem i st c) = v₁ at *
  have hcur₁ : v₁.thrcurrent = v.thrcurrent := by rw [← hv₁]; rfl
  have hq₁ : v₁.queue = v.queue := by rw [← hv₁]; rfl
  have S₂ := S₁.apply he₂
  have hsem₂ : (v₁.apply (.enqueue i)).semtab i = v₁.semtab i := by rw [semtab_apply]
  have hw₂ : (v₁.apply (.enqueue i)).waiting i = v.waiting i ++ [v.thrcurrent] := by
    rw [waiting_eq hsem₂, S₁.queue_apply he₂ (S₁.layout.isQueue_sem hi)
      (S₁.layout.sem_ne_readylist hi), queueAfter, if_pos rfl, hsem₁, hq₁, hcur₁]
    rfl
  have hst₂ : (v₁.apply (.enqueue i)).state v.thrcurrent = .wait := by
    rw [state_apply, stateAfter, if_pos hcur₁.symm]
  generalize v₁.apply (.enqueue i) = v₂ at *
  obtain ⟨hq, hsem⟩ := S₂.foreign_run hi r (by simp [Event.Foreign])
  refine ⟨hq.trans hw₂, by rw [hsem, hsem₂, hsem₁], by rw [hsem, hsem₂, hsem₁], ?_⟩
  -- `resched` leaves a waiting thread alone
  rw [r.eq_after]
  change ((v₂.apply .resched).apply (.ctx v.thrcurrent k)).state v.thrcurrent = .wait
  rw [state_apply]
  exact S₂.state_resched_of_ne hst₂ (by simp) (by simp)

/-- **Every step does one of these things to a semaphore.** -/
theorem Step.sem (h : v.Step op k v') (S : v.Sound) (hrun : v.Running) (hi : i < NSEM) :
    ∃ new, v'.readied = v.readied ++ new ∧ SemEffect v i op v' new := by
  obtain ⟨evs, hscript, r⟩ := h
  refine ⟨_, readied_step r, ?_⟩
  have hoff : ∀ {t : Int} {st : ThrState}, v.state t = st → st ≠ .wait → t ∉ v.waiting i :=
    fun h hne => S.not_waiting hi (by rw [h]; exact hne)
  have hother : ∀ {j : Nat} {t : Int}, v.SemLive j → j ≠ i → t ∈ v.waiting j → t ∉ v.waiting i :=
    fun hl hji => S.waiting_disjoint hi (S.layout.isQueue_sem hl.1) fun h =>
      hji (S.layout.sem_injective hl.1 hi h)
  cases hscript with
  | refused href =>
    refine S.semEffect_none hi r (by simp) ?_ ?_ ?_ ?_
    · rintro rfl
      exact href
    · rintro rfl
      exact href
    · rintro n rfl
      exact href
    · rintro rfl
      exact href.elim
  | @pass j hl hpos =>
    by_cases hji : j = i
    · subst hji
      obtain ⟨hq, hst, hcount⟩ := S.sem_then_foreign hi [_] r (by simp [Event.Foreign])
      obtain ⟨hrun', hcur⟩ := hrun.run r (by simp [Event.Quiet])
      refine .pass rfl hl hst hcount hpos hq rfl ?_
      rw [← hcur, hrun']
      simp
    · exact S.semEffect_none hi r
  | @wait j hl hneg =>
    by_cases hji : j = i
    · subst hji
      obtain ⟨hq, hst, hcount, hstate⟩ := S.sem_then_enqueue hi r
      exact .block rfl hl hst hcount hneg hq rfl hstate
    · exact S.semEffect_none hi r
  | @signalNone j hl hrel =>
    by_cases hji : j = i
    · subst hji
      obtain ⟨hq, hst, hcount⟩ := S.sem_then_foreign hi [_] r (by simp [Event.Foreign])
      exact .signal 1 (Or.inl ⟨rfl, rfl⟩) hl hst hcount hrel.symm (by rw [hrel, hq]; rfl)
    · exact S.semEffect_none hi r
  | @signal j t hl hrel =>
    by_cases hji : j = i
    · subst hji
      obtain ⟨rest, hrest⟩ := v.released_append j 1
      rw [hrel] at hrest
      obtain ⟨hq, hst, hcount⟩ := S.sem_then_ready hi hrest [.resched, _] r
        (by simp [Event.Foreign])
      exact .signal 1 (Or.inl ⟨rfl, rfl⟩) hl hst hcount hrel.symm (by rw [hrel, hq, hrest])
    · have ht : t ∉ v.waiting i := hother hl hji (mem_of_mem_released (n := 1) (by rw [hrel]; simp))
      exact S.semEffect_none hi r
  | @signaln j n hl hn =>
    by_cases hji : j = i
    · subst hji
      obtain ⟨rest, hrest⟩ := v.released_append j n
      rw [append_assoc] at r
      obtain ⟨hq, hst, hcount⟩ := S.sem_then_ready hi hrest [.resched, _] r
        (by simp [Event.Foreign])
      refine .signal n (Or.inr rfl) hl hst hcount ?_ (by rw [hq, hrest])
      rw [filterMap_append, filterMap_cons, filterMap_map]
      simp [Event.readied, Function.comp_def]
    · refine S.semEffect_none hi r ?_
      refine forall_mem_append.mpr ⟨forall_mem_cons.mpr ⟨hji, ?_⟩, by simp [Event.Foreign]⟩
      exact foreign_ready fun t ht => hother hl hji (mem_of_mem_released ht)
  | @semcreate c j hj hfree hc | @semcreateNeg c j hj hfree hc =>
    by_cases hji : j = i
    · subst hji
      obtain ⟨he, r⟩ := run_cons_iff.mp r
      obtain ⟨hq, hst, hcount⟩ := Sound.sem_then_foreign (v := v.apply (.nextsem j)) (S.apply he) hi
        [_] r (by simp [Event.Foreign])
      exact .create ⟨c, rfl, by rw [hcount]; split_ifs <;> omega⟩ hfree hst hq
    · exact S.semEffect_none hi r
  | @semfree j hl =>
    by_cases hji : j = i
    · subst hji
      rw [append_assoc] at r
      obtain ⟨w, r₁, r₂⟩ := run_append_iff.mp r
      obtain ⟨hq, hsem⟩ := S.ready_run (S.layout.isQueue_sem hi) (S.layout.sem_ne_readylist hi)
        (append_nil _).symm r₁
      have hw : w.waiting j = [] := by rw [waiting, hsem, hq]
      obtain ⟨hq', hst, -⟩ := (S.run r₁).sem_then_foreign hi [_] r₂
        (by simp [Event.Foreign])
      exact .free rfl hst (hq'.trans hw)
    · refine S.semEffect_none hi r ?_
      refine forall_mem_append.mpr ⟨?_, by simpa [Event.Foreign] using hji⟩
      exact foreign_ready fun t ht => hother hl hji ht
  | suicide hctx hnull =>
    have hcur : v.thrcurrent ∉ v.waiting i := hoff hrun (by simp)
    exact S.semEffect_none hi r
  | @killWaiting t hctx ht hnull hst =>
    by_cases hji : (v.thrtab t).sem = i
    · have hmem : t ∈ v.waiting i := (S.mem_waiting hi ht).mpr ⟨hst, hji⟩
      subst hji
      obtain ⟨he, r⟩ := run_cons_iff.mp r
      obtain ⟨hq, hst', hcount⟩ := Sound.sem_then_free (v := v.apply (.heap _)) (S.apply he) hi r
      exact .kill t rfl hctx hmem hst' hcount hq rfl
    · have hmem : t ∉ v.waiting i := fun h => hji ((S.mem_waiting hi ht).mp h).2
      exact S.semEffect_none hi r
  | @killOther t hctx ht hnull hst =>
    have hmem : t ∉ v.waiting i := by
      rcases hst with h | h | h <;> exact hoff h (by simp)
    exact S.semEffect_none hi r
  | killFree | ready | readyResched | resume => exact S.semEffect_none hi r
  | send hl hmsg =>
    exact S.semEffect_none hi r (S.foreign_sendEvents hi _ _)
  | kill hl hn hc =>
    refine S.semEffect_none hi r ?_
    exact forall_mem_cons.mpr ⟨trivial, S.foreign_sendEvents hi _ _⟩
  | clkhandler =>
    refine S.semEffect_none hi r ?_
    refine forall_mem_append.mpr ⟨forall_mem_cons.mpr ⟨trivial,
      forall_mem_cons.mpr ⟨trivial, ?_⟩⟩, by simp [Event.Foreign]⟩
    exact foreign_ready fun t ht => S.waiting_disjoint hi S.layout.isQueue_sleepq
      (S.layout.sem_ne_sleepq hi).symm ((takeWhile_sublist _).subset ht)
  | idle hctx | «return» hctx | suspendRest hctx | receiveRest hctx | recvtimeRest hctx
  | timeout hctx =>
    exact S.semEffect_none hi r
  | _ => exact S.semEffect_none hi r

end Sched

end Xinu
