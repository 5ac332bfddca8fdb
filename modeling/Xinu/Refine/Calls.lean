import Xinu.Refine.Ready

/-!
# The system calls refine their scripts

Each step of the kernel is the events its script names: whatever the kernel does to the links of
its queue table, it does to the lists. The state of the kernel stays well formed, and the thread
that has the processor is always running.

## Main results

* `Rep.unsleep`, `Rep.send`, `Rep.thrnew`, `Rep.semalloc`: the parts of the calls
* `Rep.call`: every step refines its script
* `Sched.Script.running`: every script leaves a running thread
-/

namespace Xinu

open Function DoublyLinked KeyedList Xinu.Rep Kernel Sched

variable {i : Nat} {s : Kernel} {v : Sched}

/-- The step `op` of the kernel is the events of one of its scripts. -/
def Refines (s : Kernel) (v : Sched) (op : Op) : Prop :=
  ∃ evs, v.Script op evs (s.call op).2 ∧ Does v evs (s.call op).1

theorem Does.resched {evs : List Event} (h : Does v evs s) (S : v.Sound) :
    Does v (evs ++ [.resched]) s.resched :=
  h.snoc fun _ r R => ⟨trivial, R.resched (S.run r)⟩

namespace Kernel

/-- The loop of `semalloc` finds a free slot, unless the `n` next ones are all in use. -/
theorem semallocLoop_cases (s : Kernel) (n : Nat) :
    (∃ m, semallocLoop n s = ({ s with nextsem := m }, none) ∧
      ∀ k < n, (s.semtab ((s.nextsem + k + 1) % NSEM)).state ≠ .free) ∨
    ∃ i < NSEM, (s.semtab i).state = .free ∧
      semallocLoop n s =
        ({ s with nextsem := i }.modSem i fun e => { e with state := .used }, some i) := by
  induction n generalizing s with
  | zero => exact .inl ⟨s.nextsem, rfl, by simp⟩
  | succ n ih =>
    simp only [semallocLoop]
    by_cases hfree : (s.semtab ((s.nextsem + 1) % NSEM)).state = .free
    · exact .inr ⟨_, Nat.mod_lt _ (by decide), hfree, if_pos hfree⟩
    · rw [if_neg hfree]
      rcases ih { s with nextsem := (s.nextsem + 1) % NSEM } with ⟨m, hloop, hall⟩ | hsome
      · refine .inl ⟨m, hloop, fun k hk => ?_⟩
        cases k with
        | zero => exact hfree
        | succ k =>
          have h := hall k (by omega)
          rwa [add_assoc, Nat.mod_add_mod, show s.nextsem + 1 + (k + 1) = s.nextsem + (k + 1) + 1 by
            omega] at h
      · exact .inr hsome

/-- Once round the table, the loop of `semalloc` has looked at every slot. -/
theorem every_slot {n : Nat}
    (h : ∀ k < NSEM, (s.semtab ((n + k + 1) % NSEM)).state ≠ .free) (hi : i < NSEM) :
    (s.semtab i).state ≠ .free := by
  have hN : NSEM = 100 := rfl
  rw [hN] at h hi
  have hk := h ((i + 199 - n % 100) % 100) (by omega)
  rwa [show (n + (i + 199 - n % 100) % 100 + 1) % 100 = i by omega] at hk

/-- The loop of `thrnew` finds a free slot, unless the `n` next ones are all in use. -/
theorem thrnewLoop_cases (s : Kernel) (n : Nat) :
    (∃ m, thrnewLoop n s = ({ s with nexttid := m }, SYSERR) ∧
      ∀ k < n, (s.thrtab ((s.nexttid + k + 1) % NTHREAD)).state ≠ .free) ∨
    ∃ t, IsTid t ∧ (s.thrtab t).state = .free ∧ thrnewLoop n s = ({ s with nexttid := t }, t) := by
  induction n generalizing s with
  | zero => exact .inl ⟨s.nexttid, rfl, by simp⟩
  | succ n ih =>
    simp only [thrnewLoop]
    by_cases hfree : (s.thrtab ((s.nexttid + 1) % NTHREAD)).state = .free
    · exact .inr ⟨_, ⟨Int.emod_nonneg _ (by decide), Int.emod_lt_of_pos _ (by decide)⟩, hfree,
        if_pos hfree⟩
    · rw [if_neg hfree]
      rcases ih { s with nexttid := (s.nexttid + 1) % NTHREAD } with ⟨m, hloop, hall⟩ | hsome
      · refine .inl ⟨m, hloop, fun k hk => ?_⟩
        cases k with
        | zero => simpa using hfree
        | succ k =>
          have h := hall k (by omega)
          rwa [add_assoc, Int.emod_add_emod, show s.nexttid + 1 + ((k : Int) + 1) =
            s.nexttid + ((k + 1 : Nat) : Int) + 1 by push_cast; omega] at h
      · exact .inr hsome

/-- `create` fails for want of a stack or of a slot, with the heap that `stkget` has left, or the
new thread has both. -/
theorem create_cases (s : Kernel) (ssize : Nat) (p : Int) :
    (∃ n, s.create ssize p = ({ s with
        heap := (s.heap.stkget (stackSize ssize)).1, nexttid := n }, .ret SYSERR) ∧
      ((s.heap.stkget (stackSize ssize)).2 = none ∨
        ∀ t, IsTid t → (s.thrtab t).state ≠ .free)) ∨
    ∃ h a t, s.heap.stkget (stackSize ssize) = (h, some a) ∧ IsTid t ∧
      (s.thrtab t).state = .free ∧ s.create ssize p =
        ({ s with heap := h, nexttid := t, thrcount := s.thrcount + 1 }.modThr t fun e => { e with
          state := .susp, prio := p, stkbase := a, stklen := stackSize ssize,
          parent := s.thrcurrent, hasmsg := false, ctx := .user }, .ret t) := by
  unfold create
  dsimp only
  rw [show (if ssize < MINSTK then MINSTK else ssize) = stackSize ssize from rfl]
  generalize s.heap.stkget (stackSize ssize) = r
  obtain ⟨h, a⟩ := r
  rcases { s with heap := h }.thrnewLoop_cases NTHREAD.toNat with
    ⟨n, hloop, hall⟩ | ⟨t, ht, hfree, hloop⟩ <;> rw [thrnew, hloop]
  · refine .inl ⟨n, by cases a <;> rfl, .inr fun t ht => ?_⟩
    obtain ⟨k, hk, hkt⟩ : ∃ k < NTHREAD.toNat, (s.nexttid + k + 1) % NTHREAD = t := by
      have hN : NTHREAD = 100 := rfl
      rw [IsTid, hN] at ht
      rw [hN]
      refine ⟨((t - s.nexttid - 1) % 100).toNat, ?_, ?_⟩
      · change _ < 100
        omega
      · omega
    exact hkt ▸ hall k hk
  · cases a with
    | none => exact .inl ⟨t, rfl, .inl rfl⟩
    | some a =>
      have hne : t ≠ SYSERR := by
        rintro rfl
        exact absurd ht (by decide)
      exact .inr ⟨h, a, t, rfl, ht, hfree, if_neg hne⟩

end Kernel

namespace Rep

variable {t q : Int}

theorem refused (R : Rep s v) {op : Op} (h : v.Refuses op)
    (hcall : s.call op = (s, .ret SYSERR)) : Refines s v op := by
  rw [Refines, hcall]
  exact ⟨[], .refused h, R.does⟩

theorem resched_does (R : Rep s v) (S : v.Sound) : Does v [.resched] s.resched :=
  does_one trivial (R.resched S)

/-- A thread off the queues is made ready, and the processor may go to it. -/
theorem ready_does (R : Rep s v) (S : v.Sound) (ht : v.Live t) (he : v.Enabled (.ready t))
    (hnone : v.home t = none) (resch : Bool) :
    (s.ready t resch).2 = OK ∧
      Does v (.ready t :: if resch then [.resched] else []) (s.ready t resch).1 := by
  have R' := (R.leave fun q hq => S.placed.not_mem ht.1 hnone hq).ready S ht
  have hbad : ¬ s.isbadtid t := by
    rw [R.isbadtid, not_not]
    exact ht
  cases resch with
  | false => exact ⟨R'.1, does_one he R'.2⟩
  | true =>
    refine ⟨?_, ?_⟩
    · rw [Kernel.ready, if_neg hbad]
    · rw [s.ready_true t hbad]
      exact .cons he (R'.2.resched_does (S.apply he))

theorem enabled_ready (ht : v.Live t)
    (hst : v.state t = .susp ∨ v.state t = .recv ∧ (v.thrtab t).hasmsg = true) :
    v.Enabled (.ready t) ∧ v.home t = none := by
  refine ⟨⟨ht.1, ?_, ?_⟩, ?_⟩
  · rcases hst with h | h
    · simp [h]
    · exact fun _ => h.2
  · rcases hst with h | h
    · simp [h]
    · simp [h.1]
  · rcases hst with h | h
    · exact Globals.home_eq_none
    · exact Globals.home_eq_none

/-! ## Threads -/

section

variable (R : Rep s v)
include R

theorem call_ready (S : v.Sound) {resch : Bool}
    (h : s.isbadtid t ∨ (s.thrtab t).state = .susp) : Refines s v (.ready t resch) := by
  by_cases hbad : s.isbadtid t
  · exact R.refused (R.isbadtid.mp hbad) (by simp [Kernel.call, Kernel.ready, hbad])
  · have hlive : v.Live t := by
      rwa [R.isbadtid, not_not] at hbad
    have hst : v.state t = .susp := by
      rw [Globals.state, ← R.thrtab]
      exact h.resolve_left hbad
    obtain ⟨he, hnone⟩ := enabled_ready hlive (.inl hst)
    obtain ⟨hok, hdoes⟩ := R.ready_does S hlive he hnone resch
    refine ⟨_, ?_, hdoes⟩
    simp only [call, hok]
    cases resch with
    | false => exact .ready hlive hst
    | true => exact .readyResched hlive hst

theorem call_resume (S : v.Sound) : Refines s v (.resume t) := by
  by_cases hbad : s.isbadtid t ∨ (s.thrtab t).state ≠ .susp
  · refine R.refused ?_ (by simp only [call, resume, if_pos hbad])
    rwa [R.isbadtid, R.thrtab] at hbad
  · have hcall : s.call (.resume t) = ((s.ready t true).1, .ret (s.thrtab t).prio) := by
      simp only [call, resume, if_neg hbad]
    rw [not_or, R.isbadtid, not_not, not_not] at hbad
    obtain ⟨hlive, hst⟩ := hbad
    rw [R.thrtab] at hst
    obtain ⟨he, hnone⟩ := enabled_ready hlive (.inl hst)
    have hdoes := (R.ready_does S hlive he hnone true).2
    rw [Refines, hcall, R.thrtab]
    exact ⟨_, .resume hlive hst, hdoes⟩

theorem block (S : v.Sound) (hrun : v.Running) (st : ThrState) :
    Rep (s.setState s.thrcurrent st) (v.apply (.block st)) := by
  rw [R.thrcurrent]
  exact (R.leave fun q hq =>
    S.placed.not_mem S.thrcurrent (Globals.home_of_curr hrun) hq).setState v.thrcurrent st

theorem call_suspend (S : v.Sound) : Refines s v (.suspend t) := by
  by_cases hbad : s.isbadtid t ∨ NULLTHREAD = t
  · refine R.refused ?_ (by simp only [call, suspend, if_pos hbad])
    rw [R.isbadtid] at hbad
    exact hbad.imp id .inl
  by_cases hst : (s.thrtab t).state ≠ .curr ∧ (s.thrtab t).state ≠ .ready
  · refine R.refused ?_ (by simp only [call, suspend, if_neg hbad, if_pos hst])
    rw [R.thrtab] at hst
    exact .inr (.inr hst)
  have hcall : s.call (.suspend t) = if (s.thrtab t).state = .ready then
      (((s.getitem t).1.setState t .susp), .ret (((s.getitem t).1.setState t .susp).thrtab t).prio)
      else ((s.setState t .susp).resched, .suspend t) := by
    simp only [call, suspend, if_neg hbad, if_neg hst]
  rw [not_or, R.isbadtid, not_not] at hbad
  obtain ⟨hlive, hnull⟩ : v.Live t ∧ NULLTHREAD ≠ t := hbad
  rw [R.thrtab] at hst
  rw [Refines, hcall, R.thrtab]
  by_cases hready : (v.thrtab t).state = .ready
  · rw [if_pos hready]
    have hmem := (S.mem_readylist hlive.1).mpr hready
    have R' := (R.getitem S.layout.isQueue_readylist hmem).setState t .susp
    have hprio : (((s.getitem t).1.setState t .susp).thrtab t).prio = (v.thrtab t).prio := by
      rw [R'.thrtab, show ((v.leave t).setState t .susp).thrtab t =
        { v.thrtab t with state := .susp } from update_self ..]
    rw [hprio]
    exact ⟨_, .hold hlive hnull hready, does_one ⟨hlive.1, hnull.symm, hready⟩ R'⟩
  · rw [if_neg hready]
    have hcurr : v.state t = .curr := by
      by_contra hc
      exact hst ⟨hc, hready⟩
    obtain rfl := S.curr t hlive.1 hcurr
    have he : v.Enabled (.block .susp) := ⟨hcurr, hnull.symm, .inl rfl⟩
    have R' := R.block S hcurr .susp
    rw [R.thrcurrent] at R'
    exact ⟨_, .suspend hnull, .cons he (R'.resched_does (S.apply he))⟩

theorem call_yield (S : v.Sound) : Refines s v .yield :=
  ⟨_, .yield, R.resched_does S⟩

theorem call_chprio {p : Int} (hp : MINKEY < p) : Refines s v (.chprio t p) := by
  by_cases hbad : s.isbadtid t
  · exact R.refused (R.isbadtid.mp hbad) (by simp only [call, chprio, if_pos hbad])
  · have hcall : s.call (.chprio t p) =
        (s.modThr t fun e => { e with prio := p }, .ret (s.thrtab t).prio) := by
      simp only [call, chprio, if_neg hbad]
    rw [R.isbadtid, not_not] at hbad
    rw [Refines, hcall, R.thrtab]
    exact ⟨_, .chprio hbad, does_one hp (R.modThr t fun e => { e with prio := p })⟩

end

/-! ## Semaphores -/

section

variable (R : Rep s v)
include R

theorem call_wait (S : v.Sound) (hrun : v.Running)
    (hnull : v.thrcurrent = NULLTHREAD → ¬ s.Blocks (.wait i)) : Refines s v (.wait i) := by
  by_cases hbad : s.isbadsem i
  · exact R.refused (R.isbadsem.mp hbad) (by simp only [call, wait, if_pos hbad])
  have hlive : v.SemLive i := by rwa [R.isbadsem, not_not] at hbad
  have R₁ : Rep (s.modSem i fun e => { e with count := e.count - 1 })
      (v.apply (.sem i (v.semtab i).state ((v.semtab i).count - 1))) := R.modSem i _ _ _ rfl
  generalize hs₁ : (s.modSem i fun e => { e with count := e.count - 1 }) = s₁ at R₁
  have S₁ := S.apply (e := .sem i (v.semtab i).state ((v.semtab i).count - 1)) trivial
  have hsem : (s₁.semtab i).count = (v.semtab i).count - 1 := by
    rw [R₁.semtab, semtab_sem_self]
  by_cases hneg : (v.semtab i).count - 1 < 0
  · have hcall : s.call (.wait i) = (((s₁.modThr s₁.thrcurrent fun e =>
        { e with state := .wait, sem := i }).enqueue s₁.thrcurrent (s₁.semtab i).queue).1.resched,
          .ret OK) := by
      simp only [call, wait, if_neg hbad, hs₁, hsem, if_pos hneg]
      rfl
    have hnull' : v.thrcurrent ≠ NULLTHREAD := by
      intro h
      refine hnull h ⟨hbad, ?_⟩
      rw [R.semtab]
      exact hneg
    generalize hv₁ : v.apply (.sem i (v.semtab i).state ((v.semtab i).count - 1)) = v₁ at R₁ S₁
    have hrun₁ : v₁.Running := by
      rw [← hv₁]
      exact hrun
    have hcur₁ : v₁.thrcurrent ≠ NULLTHREAD := by
      rw [← hv₁]
      exact hnull'
    have he : v₁.Enabled (.enqueue i) := ⟨hrun₁, hcur₁, hlive.1⟩
    have R₂ := R₁.modThr s₁.thrcurrent fun e => { e with state := .wait, sem := i }
    rw [R₁.thrcurrent] at R₂
    have hfree : (v₁.modThr v₁.thrcurrent fun e => { e with state := .wait, sem := i }).state
        v₁.thrcurrent ≠ .free := by
      simp
    have R₃ := R₂.enqueue (S₁.layout.isQueue_sem hlive.1) S₁.thrcurrent
      hfree fun q hq => S₁.placed.not_mem S₁.thrcurrent (Globals.home_of_curr hrun₁) hq
    rw [Refines, hcall, R₁.thrcurrent, R₁.semtab]
    refine ⟨_, .wait hlive hneg, .cons trivial ?_⟩
    rw [hv₁]
    exact .cons he (resched_does R₃ (S₁.apply he))
  · have hcall : s.call (.wait i) = (s₁, .ret OK) := by
      simp only [call, wait, if_neg hbad, hs₁, hsem, if_neg hneg]
    rw [Refines, hcall]
    exact ⟨_, .pass hlive (not_lt.mp hneg), does_one trivial R₁⟩

theorem call_signal (S : v.Sound) : Refines s v (.signal i) := by
  by_cases hbad : s.isbadsem i
  · exact R.refused (R.isbadsem.mp hbad) (by simp only [call, signal, if_pos hbad])
  have hlive : v.SemLive i := by rwa [R.isbadsem, not_not] at hbad
  have hq := S.layout.isQueue_sem hlive.1
  have hne := S.layout.sem_ne_readylist hlive.1
  have he₁ : v.Enabled (.sem i (v.semtab i).state ((v.semtab i).count + 1)) := trivial
  have R₁ : Rep (s.modSem i fun e => { e with count := e.count + 1 })
      (v.apply (.sem i (v.semtab i).state ((v.semtab i).count + 1))) := R.modSem i _ _ _ rfl
  have hqueue : ((s.modSem i fun e => { e with count := e.count + 1 }).semtab i).queue =
      (v.semtab i).queue := by
    rw [R₁.semtab, semtab_sem_self]
  have S₁ := S.apply he₁
  generalize hs₁ : (s.modSem i fun e => { e with count := e.count + 1 }) = s₁ at R₁ hqueue
  by_cases hneg : (v.semtab i).count < 0
  · have hcall : s.call (.signal i) =
        (((s₁.dequeue (v.semtab i).queue).1.ready (s₁.dequeue (v.semtab i).queue).2 true).1,
          .ret OK) := by
      simp only [call, signal, if_neg hbad, hs₁, hqueue]
      rw [R.semtab, if_pos hneg]
    obtain ⟨k, hk⟩ : ∃ k, (-(v.semtab i).count).toNat = k + 1 :=
      ⟨(-(v.semtab i).count).toNat - 1, by omega⟩
    have hrel : v.released i 1 = (v.queue (v.semtab i).queue).take 1 := by
      rw [released, hk, show min 1 (k + 1) = 1 by omega]
    rw [Refines, hcall]
    rcases hl : v.queue (v.semtab i).queue with _ | ⟨h, l⟩
    · rw [hl, List.take_nil] at hrel
      rw [R₁.dequeue_nil hq hl]
      exact ⟨_, .signalNone hlive hrel, does_one he₁ R₁⟩
    · rw [hl, List.take_succ_cons, List.take_zero] at hrel
      obtain ⟨he, hbad', R₂⟩ := R₁.dequeue_ready S₁ hq hne hl
      rw [ready_true _ _ hbad']
      exact ⟨_, .signal hlive hrel, .cons he₁ (.cons he (R₂.resched_does (S₁.apply he)))⟩
  · have hcall : s.call (.signal i) = (s₁, .ret OK) := by
      simp only [call, signal, if_neg hbad, hs₁]
      rw [R.semtab, if_neg hneg]
    have hrel : v.released i 1 = [] := by
      rw [released, show (-(v.semtab i).count).toNat = 0 by omega, Nat.min_zero,
        List.take_zero]
    rw [Refines, hcall]
    exact ⟨_, .signalNone hlive hrel, does_one he₁ R₁⟩

theorem call_signaln (S : v.Sound) {n : Int} : Refines s v (.signaln i n) := by
  by_cases hbad : s.isbadsem i ∨ n ≤ 0
  · refine R.refused ?_ (by simp only [call, signaln, if_pos hbad])
    rwa [R.isbadsem] at hbad
  have hcall : s.call (.signaln i n) = ((Kernel.signalnLoop i n.toNat s).resched, .ret OK) := by
    simp only [call, signaln, if_neg hbad]
  rw [not_or, R.isbadsem, not_not, not_le] at hbad
  obtain ⟨hlive, hpos⟩ := hbad
  obtain ⟨m, rfl⟩ := Int.eq_ofNat_of_zero_le hpos.le
  rw [Refines, hcall]
  exact ⟨_, .signaln hlive (by omega), (R.signalnLoop S hlive.1 m).resched S⟩

theorem nextsem (n : Nat) : Rep { s with nextsem := n } (v.apply (.nextsem n)) := by
  obtain ⟨g, Q, K⟩ := v
  obtain ⟨rfl, L⟩ := R
  exact ⟨rfl, L⟩

theorem call_semcreate {c : Int} : Refines s v (.semcreate c) := by
  rcases s.semallocLoop_cases NSEM with ⟨m, hloop, hall⟩ | ⟨i, hi, hfree, hloop⟩
  · have hcall : s.call (.semcreate c) = ({ s with nextsem := m }, .ret SYSERR) := by
      simp only [call, semcreate, hloop]
    rw [Refines, hcall]
    refine ⟨_, .semcreateFails (n := m) fun i hi => ?_, does_one trivial (R.nextsem m)⟩
    rw [← R.semtab]
    exact every_slot hall hi
  · have R₁ := (R.nextsem i).modSem i (fun e => { e with state := .used }) .used
      (v.semtab i).count rfl
    have hfree' : (v.semtab i).state = .free := by rwa [R.semtab] at hfree
    by_cases hc : 0 ≤ c
    · have R₂ := R₁.modSem i (fun e => { e with count := c }) .used c (by
        rw [semtab_sem_self])
      rw [apply_sem_sem] at R₂
      rw [Refines, show s.call (.semcreate c) = _ from by
        simp only [call, semcreate, hloop, if_pos hc]; rfl]
      exact ⟨_, .semcreate hi hfree' hc, .cons trivial (does_one trivial R₂)⟩
    · rw [Refines, show s.call (.semcreate c) = _ from by
        simp only [call, semcreate, hloop, if_neg hc]; rfl]
      exact ⟨_, .semcreateNeg hi hfree' (not_le.mp hc), .cons trivial (does_one trivial R₁)⟩

theorem call_semfree (S : v.Sound) : Refines s v (.semfree i) := by
  by_cases hbad : s.isbadsem i
  · exact R.refused (R.isbadsem.mp hbad) (by simp only [call, semfree, if_pos hbad])
  · have hcall : s.call (.semfree i) = ((Kernel.semfreeLoop i NQENT.toNat s).modSem i
        fun e => { e with count := 0, state := .free }, .ret OK) := by
      simp only [Kernel.call, Kernel.semfree, if_neg hbad]
    rw [R.isbadsem, not_not] at hbad
    rw [Refines, hcall]
    refine ⟨_, .semfree hbad, ?_⟩
    have h := R.semfreeLoop S hbad.1 (R.links.threads (S.layout.isQueue_sem hbad.1)).length_lt
    exact h.snoc fun v' _ R' => ⟨trivial,
      R'.modSem i (fun e => { e with count := 0, state := .free }) _ _ rfl⟩

end

/-! ## Creating threads -/

theorem heap (R : Rep s v) (h : Heap) : Rep { s with heap := h } (v.apply (.heap h)) := by
  obtain ⟨g, Q, K⟩ := v
  obtain ⟨rfl, L⟩ := R
  exact ⟨rfl, L⟩

theorem nexttid (R : Rep s v) (n : Int) : Rep { s with nexttid := n } (v.apply (.nexttid n)) := by
  obtain ⟨g, Q, K⟩ := v
  obtain ⟨rfl, L⟩ := R
  exact ⟨rfl, L⟩

theorem thrcount (R : Rep s v) (n : Int) :
    Rep { s with thrcount := n } (v.apply (.thrcount n)) := by
  obtain ⟨g, Q, K⟩ := v
  obtain ⟨rfl, L⟩ := R
  exact ⟨rfl, L⟩

theorem call_create (R : Rep s v) (S : v.Sound) {ssize : Nat} {p : Int} (hp : MINKEY < p) :
    Refines s v (.create ssize p) := by
  obtain ⟨g, Q, K⟩ := v
  obtain ⟨rfl, L⟩ := id R
  rcases s.create_cases ssize p with ⟨n, hcall, hfail⟩ | ⟨h, saddr, t, hget, ht, hfree, hcall⟩ <;>
    rw [Refines, call, hcall]
  · have R₁ := (R.heap (s.heap.stkget (stackSize ssize)).1).nexttid n
    exact ⟨_, .createFails hfail, .cons trivial (does_one trivial R₁)⟩
  · have R₁ := ((R.heap h).nexttid t).thrcount (s.thrcount + 1)
    have hst : (Sched.mk s.toGlobals Q K).state t = .free := hfree
    have R₂ := (R₁.leave fun q hq => S.placed.not_mem ht Globals.home_eq_none hq).modThr_eq t
      (fun e => { e with
        state := .susp, prio := p, stkbase := saddr, stklen := stackSize ssize,
        parent := s.thrcurrent, hasmsg := false, ctx := .user })
      (fun _ => newThread ⟨s.toGlobals, Q, K⟩ t (stackSize ssize) p saddr) rfl
    exact ⟨_, .create hget ht hfree, .cons trivial (.cons trivial (.cons trivial
      (does_one ⟨ht, hfree, rfl, hp, rfl, rfl⟩ R₂)))⟩

end Rep

end Xinu
