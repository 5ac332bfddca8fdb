import Xinu.Sched.Semaphores
import Xinu.System.Runs

/-!
# Semaphores: conservation and order of release

An observer follows a semaphore from its creation on and notes which calls of `wait` get through,
how often it is signalled, and who blocks on it and who is released. In every run, however the calls
are interleaved, the count tells how many threads wait, no more calls of `wait` get through than the
initial count and the signals allow, and the threads are released in the order in which they
blocked.

## Main results

* `SemTally.step`: every step keeps the tally
* `semaphore_conserved`: what holds of every run
* `semcreate_clean_iff`: when a call of `semcreate` leaves no trace if it fails
-/

namespace Xinu

set_option maxRecDepth 8000

open List Function KeyedList

/-- The threads on the queue of the semaphore `i`. -/
def Kernel.waiters (s : Kernel) (i : Nat) : List Int := s.queue (s.semtab i).queue

/-- The last `t` struck out of a list. -/
def strike (t : Int) (l : List Int) : List Int := (l.reverse.erase t).reverse

/-- What an observer of a semaphore has noted. -/
structure SemLog where
  /-- calls of `wait` that have got through, at once or when they were released -/
  passed : Nat := 0
  /-- signals, each of the `n` of a `signaln` counted -/
  signals : Nat := 0
  /-- threads that have blocked, in order; one that is killed while it waits is struck out -/
  blocked : List Int := []
  /-- threads that have been released, in order -/
  released : List Int := []
deriving DecidableEq, Repr

/-- The waiting threads that the step `op` makes ready. -/
def Kernel.woken (s : Kernel) (i : Nat) (op : Op) : List Int :=
  ((s.exec op).readied.drop s.readied.length).filter (· ∈ s.waiters i)

/-- The threads `l` are released. -/
def SemLog.release (l : List Int) (log : SemLog) : SemLog :=
  { log with passed := log.passed + l.length, released := log.released ++ l }

/-- What the observer of the semaphore `i` notes of the step `op`. -/
def SemLog.observe (i : Nat) (s : Kernel) (op : Op) (log : SemLog) : SemLog :=
  let log := log.release (s.woken i op)
  match op with
  | .wait j =>
    if j = i then
      if (s.exec op).state s.thrcurrent = .wait then
        { log with blocked := log.blocked ++ [s.thrcurrent] }
      else { log with passed := log.passed + 1 }
    else log
  | .signal j => if j = i then { log with signals := log.signals + 1 } else log
  | .signaln j n => if j = i then { log with signals := log.signals + n.toNat } else log
  | .cont =>
    match (s.thrtab s.thrcurrent).ctx with
    | .kill t =>
      if t ∈ s.waiters i then { log with blocked := strike t log.blocked } else log
    | _ => log
  | _ => log

/-- The kernel with the observer of the semaphore `i`, until the semaphore is freed. -/
def semMachine (i : Nat) : Machine (Kernel × SemLog) Op where
  enabled p op := kernelMachine.enabled p.1 op ∧ p.1.Orderly op ∧ op ≠ .semfree i
  next p op := (p.1.exec op, p.2.observe i p.1 op)

/-- What holds of the semaphore `i`, created with the count `c`, and its log. -/
structure SemSound (c : Int) (i : Nat) (s : Kernel) (log : SemLog) : Prop where
  idle : 0 ≤ (s.semtab i).count → s.waiters i = []
  waiting : (s.semtab i).count < 0 →
    ((s.waiters i).length : Int) = -(s.semtab i).count ∧
      ∀ t ∈ s.waiters i, s.state t = .wait ∧ (s.thrtab t).sem = i
  passed : (log.passed : Int) ≤ c + log.signals
  fifo : log.released ++ s.waiters i = log.blocked

/-! ## The tally -/

/-- Striking out a thread that waits takes it off the queue. -/
theorem strike_append {l q : List Int} {t : Int} (hq : q.Nodup) (ht : t ∈ q) :
    strike t (l ++ q) = l ++ q.erase t := by
  rw [strike, reverse_append, erase_append_left _ (mem_reverse.mpr ht),
    reverse_append, reverse_reverse, (nodup_reverse.mpr hq).erase_eq_filter,
    hq.erase_eq_filter, ← filter_reverse, reverse_reverse]

/-- The tally of a semaphore: the count and the calls that have got through, and the order. -/
structure SemTally (c : Int) (v : Sched) (i : Nat) (log : SemLog) : Prop where
  live : v.SemLive i
  length : (v.waiting i).length = (-(v.semtab i).count).toNat
  balance : (log.passed : Int) + (v.waiting i).length + (v.semtab i).count = c + log.signals
  fifo : log.released ++ v.waiting i = log.blocked

section

variable {s : Kernel} {v v' : Sched} {c : Int} {i : Nat} {log : SemLog} {op : Op} {new : List Int}

theorem Models.waiters (M : Models s v) (hi : i < NSEM) : s.waiters i = v.waiting i := by
  rw [Kernel.waiters, M.rep.semtab, M.queue (M.sound.layout.isQueue_sem hi), Sched.waiting]

theorem SemLog.release_nil (log : SemLog) : log.release [] = log := by
  simp [SemLog.release]

/-- The observer notes nothing of a step that does nothing to the semaphore. -/
theorem SemLog.observe_eq_self (hw : s.waiters i = v.waiting i)
    (hself : s.thrtab s.thrcurrent = v.self)
    (hwoken : s.woken i op = []) (hl : v.SemLive i) (hwait : op = .wait i → ¬ v.SemLive i)
    (hsignal : op = .signal i → ¬ v.SemLive i)
    (hsignaln : ∀ n, op = .signaln i n → ¬ v.SemLive i ∨ n ≤ 0)
    (hkill : op = .cont → ∀ t, v.self.ctx = .kill t → t ∉ v.waiting i) :
    log.observe i s op = log := by
  unfold SemLog.observe
  rw [hwoken, SemLog.release_nil]
  cases op with
  | wait j => exact if_neg fun hj => hwait (by rw [hj]) hl
  | signal j => exact if_neg fun hj => hsignal (by rw [hj]) hl
  | signaln j n =>
    dsimp only
    split_ifs with hj
    · have hn := (hsignaln n (by rw [hj])).resolve_left (not_not.mpr hl)
      rw [Int.toNat_of_nonpos hn, Nat.add_zero]
    · rfl
  | cont =>
    rw [hself, hw]
    cases hctx : v.self.ctx with
    | kill t => exact if_neg (hkill rfl t hctx)
    | _ => rfl
  | _ => rfl

/-- **Every step keeps the tally.** -/
theorem SemTally.step (T : SemTally c v i log) (M : Models s v) (M' : Models (s.exec op) v')
    (hnew : v'.readied = v.readied ++ new) (heff : SemEffect v i op v' new)
    (hop : op ≠ .semfree i) : SemTally c v' i (log.observe i s op) := by
  have hi := T.live.1
  have hnodup : (v.waiting i).Nodup := M.sound.placed.nodup _ (M.sound.layout.isQueue_sem hi)
  have hw := M.waiters hi
  have hread : s.woken i op = new.filter (· ∈ v.waiting i) := by
    rw [Kernel.woken, show (s.exec op).readied = v'.readied from
      congrArg Globals.readied M'.rep.globals, hnew, show s.readied = v.readied from
      congrArg Globals.readied M.rep.globals, drop_left, hw]
  have hstate : (s.exec op).state s.thrcurrent = v'.state v.thrcurrent := by
    rw [Globals.state, M'.rep.thrtab, M.rep.thrcurrent, Globals.state]
  have hlive : (v'.semtab i).state = (v.semtab i).state → v'.SemLive i :=
    fun h => ⟨hi, by rw [h]; exact T.live.2⟩
  have hlen := T.length
  have hbal := T.balance
  cases heff with
  | none hsem hq hnot hwait hsignal hsignaln hkill =>
    have hwoken : s.woken i op = [] := by
      rw [hread, filter_eq_nil_iff]
      intro t ht
      simpa using hnot t ht
    rw [SemLog.observe_eq_self hw M.rep.self hwoken T.live hwait hsignal hsignaln hkill]
    refine ⟨hlive (by rw [hsem]), ?_, ?_, ?_⟩
    · rw [hq, hsem, hlen]
    · rw [hq, hsem, hbal]
    · rw [hq, T.fifo]
  | create hop' hfree => exact absurd hfree T.live.2
  | free hop' => exact absurd hop' hop
  | pass hop' hl hst hcount hpos hq hnil hs =>
    subst hop' hnil
    have hobs : log.observe i s (.wait i) = { log with passed := log.passed + 1 } := by
      simp only [SemLog.observe, hread, filter_nil, SemLog.release_nil, if_pos, hstate, if_neg hs]
    rw [hobs]
    refine ⟨hlive hst, ?_, ?_, ?_⟩
    · rw [hq, hcount, hlen]
      omega
    · rw [hq, hcount]
      push_cast
      omega
    · rw [hq]
      exact T.fifo
  | block hop' hl hst hcount hneg hq hnil hs =>
    subst hop' hnil
    have hobs : log.observe i s (.wait i) =
        { log with blocked := log.blocked ++ [v.thrcurrent] } := by
      simp only [SemLog.observe, hread, filter_nil, SemLog.release_nil, if_pos, hstate, hs]
      rw [M.rep.thrcurrent]
    rw [hobs]
    refine ⟨hlive hst, ?_, ?_, ?_⟩
    · rw [hq, hcount, length_append, hlen, length_singleton]
      omega
    · rw [hq, hcount, length_append, length_singleton]
      push_cast
      omega
    · rw [hq, ← append_assoc, T.fifo]
  | signal n hop' hl hst hcount hnew' hq =>
    have hwoken : s.woken i op = v.released i n := by
      rw [hread, hnew', filter_eq_self]
      intro t ht
      simpa using Sched.mem_of_mem_released ht
    have hobs : log.observe i s op =
        { log.release (v.released i n) with signals := log.signals + n } := by
      rcases hop' with ⟨rfl, rfl⟩ | rfl
      · simp only [SemLog.observe, hwoken, if_pos, SemLog.release]
      · simp only [SemLog.observe, hwoken, if_pos, SemLog.release, Int.toNat_natCast]
    have hrel : (v.released i n).length = min n (-(v.semtab i).count).toNat := by
      rw [Sched.released, length_take]
      change min _ (v.waiting i).length = _
      rw [hlen]
      omega
    have hsplit : (v.waiting i).length = (v.released i n).length + (v'.waiting i).length := by
      conv_lhs => rw [hq, length_append]
    rw [hobs]
    refine ⟨hlive hst, ?_, ?_, ?_⟩
    · rw [hcount]
      omega
    · simp only [SemLog.release]
      push_cast
      omega
    · simp only [SemLog.release]
      rw [append_assoc, ← hq, T.fifo]
  | kill t hop' hctx ht hst hcount hq hnil =>
    subst hop' hnil
    have hobs : log.observe i s .cont = { log with blocked := strike t log.blocked } := by
      simp only [SemLog.observe, hread, filter_nil, SemLog.release_nil, M.rep.self, hctx, hw,
        if_pos ht]
    have hpos : 0 < (v.waiting i).length := length_pos_of_mem ht
    rw [hobs]
    refine ⟨hlive hst, ?_, ?_, ?_⟩
    · rw [hq, hcount, length_erase_of_mem ht, hlen]
      omega
    · rw [hq, hcount, length_erase_of_mem ht]
      push_cast [hpos]
      omega
    · rw [hq, ← T.fifo, strike_append hnodup ht]

/-- The tally says what it should. -/
theorem SemTally.sound (T : SemTally c v i log) (M : Models s v) : SemSound c i s log := by
  have hi := T.live.1
  have hlen := T.length
  have hbal := T.balance
  have hq := M.sound.layout.isQueue_sem hi
  have hcount : (s.semtab i).count = (v.semtab i).count := by rw [M.rep.semtab]
  refine ⟨fun h => ?_, fun h => ⟨?_, fun t ht => ?_⟩, ?_, ?_⟩
  · rw [M.waiters hi, ← length_eq_zero_iff, hlen]
    omega
  · rw [M.waiters hi, hlen]
    omega
  · rw [M.waiters hi] at ht
    rw [Globals.state, M.rep.thrtab]
    exact (M.sound.mem_waiting hi (M.sound.placed.range _ hq t ht)).mp ht
  · omega
  · rw [M.waiters hi, T.fifo]

/-- Nobody waits on a semaphore that is not in use. -/
def Sched.Unused (v : Sched) : Prop :=
  ∀ i < NSEM, (v.semtab i).state = .free → v.waiting i = []

theorem Sched.Unused.step (U : v.Unused) (hstep : ∀ i < NSEM, ∃ new, SemEffect v i op v' new) :
    v'.Unused := by
  intro i hi hfree
  obtain ⟨new, heff⟩ := hstep i hi
  cases heff with
  | none hsem hq => rw [hq, U i hi (hsem ▸ hfree)]
  | create _ _ hused => simp [hfree] at hused
  | free _ _ hq => exact hq
  | pass _ hl hst | block _ hl hst | signal _ _ hl hst => exact absurd (hst ▸ hfree) hl.2
  | kill t _ _ ht hst =>
    rw [U i hi (hst ▸ hfree)] at ht
    simp at ht

theorem Models.orderly_step_sem (M : Models s v) (C : v.Contexts) (h : s.Orderly op) :
    ∃ v', v.Step op (s.call op).2 v' ∧ Models (s.exec op) v' ∧ v'.Contexts ∧
      ∀ i < NSEM, ∃ new, v'.readied = v.readied ++ new ∧ SemEffect v i op v' new := by
  obtain ⟨v', hstep, M', C'⟩ := M.orderly_step C h
  exact ⟨v', hstep, M', C', fun i hi => hstep.sem M.sound M.running hi⟩

/-- In every orderly run from the state of `sysinit` nobody waits on an unused semaphore. -/
theorem unused_of_run {endaddr memheap maxaddr : Nat} {mem : Nat → MemBlock} {ops : List Op}
    (r : orderlyMachine.Run (Kernel.sysinit endaddr memheap maxaddr mem) ops s) :
    ∃ v, Models s v ∧ v.Contexts ∧ v.Unused := by
  obtain ⟨v₀, M₀, C₀, hq₀⟩ := Kernel.orderly_sysinit endaddr memheap maxaddr mem
  refine r.invariant (I := fun s => ∃ v, Models s v ∧ v.Contexts ∧ v.Unused) ?_
    ⟨v₀, M₀, C₀, fun _ _ _ => hq₀ _⟩
  rintro s op ⟨v, M, C, U⟩ ⟨-, h⟩
  obtain ⟨v', -, M', C', hsem⟩ := M.orderly_step_sem C h
  exact ⟨v', M', C', U.step fun i hi => (hsem i hi).imp fun _ h => h.2⟩

theorem SemTally.create (hc : 0 ≤ c) (U : v.Unused) (hstep : v.Step (.semcreate c) (.ret i) v') :
    SemTally c v' i {} := by
  obtain ⟨evs, hscript, r⟩ := hstep
  generalize hop : Op.semcreate c = op at hscript
  generalize hk : Context.ret (i : Int) = k at hscript r
  have hsys : (i : Int) ≠ SYSERR := by
    have : SYSERR = -1 := rfl
    omega
  cases hscript with
  | semcreate hj hfree hc' =>
    obtain rfl := Op.semcreate.inj hop
    obtain rfl := Int.ofNat_inj.mp (Context.ret.inj hk)
    have hsem : v'.semtab i = { v.semtab i with state := .used, count := c } := by
      rw [r.eq_after]
      exact Sched.semtab_sem_self _ i .used c
    have hw : v'.waiting i = [] := by
      rw [Sched.waiting, hsem, r.eq_after]
      exact U i hj hfree
    refine ⟨⟨hj, by rw [hsem]; simp⟩, ?_, ?_, ?_⟩
    · rw [hw, hsem, length_nil, Int.toNat_of_nonpos (neg_nonpos.mpr hc)]
    · rw [hw, hsem]
      simp
    · rw [hw]
      rfl
  | refused href =>
    subst hop
    exact href.elim
  | semcreateFails | semcreateNeg => exact absurd (Context.ret.inj hk) hsys
  | _ => simp at hop

end

/-- **Semaphores are conserved, and release in order.** Let a semaphore be created with the count
`c` in any orderly run, and then be used in any way until it is freed. At every step the queue is
empty while the count is not negative, and holds as many threads as the negative count says, all
waiting on this semaphore; no more calls of `wait` have got through than the count and the signals
allow; and the threads have been released in the order in which they blocked, those killed left
out. -/
theorem semaphore_conserved {endaddr memheap maxaddr : Nat}
    {mem : Nat → MemBlock} {ops₀ ops : List Op}
    {s₀ : Kernel} {c : Int} {i : Nat} {p : Kernel × SemLog}
    (r₀ : orderlyMachine.Run (Kernel.sysinit endaddr memheap maxaddr mem) ops₀ s₀)
    (hc : 0 ≤ c) (hcreate : (s₀.call (.semcreate c)).2 = .ret i)
    (r : (semMachine i).Run (s₀.exec (.semcreate c), {}) ops p) : SemSound c i p.1 p.2 := by
  obtain ⟨v₀, M₀, C₀, U₀⟩ := unused_of_run r₀
  have horderly : s₀.Orderly (.semcreate c) := ⟨⟨fun _ h => h, trivial⟩, by rintro ⟨⟩⟩
  obtain ⟨v₁, hstep₁, M₁, C₁, -⟩ := M₀.orderly_step_sem C₀ horderly
  rw [hcreate] at hstep₁
  have T₁ := SemTally.create hc U₀ hstep₁
  obtain ⟨v, M, -, T⟩ := r.invariant
    (I := fun p => ∃ v, Models p.1 v ∧ v.Contexts ∧ SemTally c v i p.2)
    (by
      rintro ⟨s, log⟩ op ⟨v, M, C, T⟩ ⟨-, h, hop⟩
      obtain ⟨v', -, M', C', hsem⟩ := M.orderly_step_sem C h
      obtain ⟨new, hnew, heff⟩ := hsem i T.live.1
      exact ⟨v', M', C', T.step M M' hnew heff hop⟩)
    ⟨v₁, M₁, C₁, T₁⟩
  exact T.sound M

instance (i : Nat) (p : Kernel × SemLog) (op : Op) : Decidable ((semMachine i).enabled p op) :=
  inferInstanceAs (Decidable (_ ∧ _ ∧ _))

/-- Two threads are created, and then a semaphore with the count 0. -/
def twoThreads : Kernel :=
  orderlyMachine.after board [.create 128 20, .cont, .create 128 10, .cont]

/-- Threads 1 and 2 block on the semaphore, and a signal releases the first. -/
def twoWaits : Kernel × SemLog :=
  (semMachine 1).after (twoThreads.exec (.semcreate 0), {})
    [.cont, .resume 1, .wait 1, .cont, .resume 2, .wait 1, .cont, .signal 1]

theorem semaphore_conserved_twoWaits :
    twoWaits.2 = ⟨1, 1, [1, 2], [1]⟩ ∧ SemSound 0 1 twoWaits.1 twoWaits.2 := by
  have r₀ : orderlyMachine.Run board _ twoThreads := Machine.run_after
  have r : (semMachine 1).Run (twoThreads.exec (.semcreate 0), {}) _ twoWaits :=
    Machine.run_after
  exact ⟨by decide, semaphore_conserved r₀ le_rfl (by decide) r⟩

/-! ## Creating semaphores -/

/-- No entry of the table is free. -/
def Kernel.SemFull (s : Kernel) : Prop := ∀ i < NSEM, (s.semtab i).state ≠ .free

/-- `semcreate(c)` takes a free entry into use with the count, or fails for a reason and leaves
everything but the place where the next search begins. -/
def Kernel.CreatesCleanly (s : Kernel) (c : Int) : Prop :=
  (∃ i < NSEM, (s.semtab i).state = .free ∧ s.semcreate c =
    ({ s with nextsem := i }.modSem i fun e => { e with state := .used, count := c }, .ret i)) ∨
  ∃ n, s.semcreate c = ({ s with nextsem := n }, .ret SYSERR) ∧ (c < 0 ∨ s.SemFull)

/-- The calls of `semcreate` that fail. -/
def failingCreates : Machine Kernel Int where
  enabled s c := (s.semcreate c).2 = .ret SYSERR
  next s c := (s.semcreate c).1

instance (s : Kernel) (c : Int) : Decidable (failingCreates.enabled s c) :=
  inferInstanceAs (Decidable (_ = _))

/-- **`semcreate` is clean** exactly when the count is not negative or the table is full, and then
no number of failing calls changes the table. -/
theorem semcreate_clean_iff (s : Kernel) :
    (∀ c, s.CreatesCleanly c ↔ 0 ≤ c ∨ s.SemFull) ∧
      ∀ cs s', (failingCreates.restrict fun s c => 0 ≤ c ∨ s.SemFull).Run s cs s' →
        s'.semtab = s.semtab := by
  have hclean : ∀ (s : Kernel) c, s.CreatesCleanly c ↔ 0 ≤ c ∨ s.SemFull := by
    intro s c
    rcases s.semallocLoop_cases NSEM with ⟨m, hloop, hall⟩ | ⟨i, hi, hfree, hloop⟩
    · have hfull : s.SemFull := fun i hi => Kernel.every_slot hall hi
      refine iff_of_true (.inr ⟨m, ?_, .inr hfull⟩) (.inr hfull)
      simp only [Kernel.semcreate, hloop]
    · have hnot : ¬ s.SemFull := fun h => h i hi hfree
      by_cases hc : 0 ≤ c
      · refine iff_of_true (.inl ⟨i, hi, hfree, ?_⟩) (.inl hc)
        simp only [Kernel.semcreate, hloop, if_pos hc, Kernel.modSem, store_eq_update, update_self,
          update_idem]
      · refine iff_of_false ?_ (by simp [hc, hnot])
        simp only [Kernel.CreatesCleanly, Kernel.semcreate, hloop, if_neg hc]
        rintro (⟨j, -, -, hj⟩ | ⟨n, hn, -⟩)
        · cases (Prod.mk.inj hj).2
        · have hstate := congrArg (fun r => (r.1.semtab i).state) hn
          simp [Kernel.modSem, store, hfree] at hstate
  refine ⟨hclean s, fun cs s' r => ?_⟩
  refine r.invariant (I := fun s' => s'.semtab = s.semtab) ?_ rfl
  rintro t c ht ⟨hfail, hc⟩
  rcases (hclean t c).mpr hc with ⟨i, -, -, hi⟩ | ⟨n, hn, -⟩
  · have hret : Context.ret i = .ret SYSERR := by rw [← hfail, hi]
    cases hret
  · exact (congrArg (·.1.semtab) hn).trans ht

/-- 100 calls with the count -1 fail, and have then taken all the entries. -/
theorem semcreate_exhausts : ¬ board.SemFull ∧ ∃ s,
    failingCreates.Run board (replicate NSEM (-1)) s ∧ s.SemFull := by
  unfold Kernel.SemFull
  exact ⟨by decide, _, Machine.run_after, by decide⟩

end Xinu
