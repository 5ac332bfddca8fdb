import Xinu.Kernel.System
import Xinu.Sched.Sound

/-!
# The system calls as events

Which events each system call is, in each of its cases, and where its caller goes on. This is what
the calls mean on lists; that the kernel's code does this is the subject of the refinement.

## Main results

* `Sched.Script.resched_or_quiet`: a step reschedules at its end, or leaves the processor where it
  is
* `Sched.Step.sound`: a step keeps the invariant
-/

namespace Xinu

open Function KeyedList

namespace Globals

variable (g : Globals)

/-- A thread that is in the system. -/
def Live (t : Int) : Prop := IsTid t ∧ g.state t ≠ .free
deriving Decidable

/-- A semaphore that is in use. -/
def SemLive (i : Nat) : Prop := i < NSEM ∧ (g.semtab i).state ≠ .free
deriving Decidable

end Globals

/-- The thread that a call of `kill` in progress is about. -/
def Context.victim : Context → Option Int
  | .kill t => some t
  | _ => none

/-- Inside a call of `kill`. -/
def Context.inKill : Context → Bool
  | .kill _ => true
  | .killed _ => true
  | _ => false

namespace Sched

/-- The calls that return `SYSERR` without doing anything. -/
def Refuses (v : Sched) : Op → Prop
  | .ready t _ => ¬ v.Live t
  | .resume t => ¬ v.Live t ∨ v.state t ≠ .susp
  | .suspend t => ¬ v.Live t ∨ NULLTHREAD = t ∨ v.state t ≠ .curr ∧ v.state t ≠ .ready
  | .chprio t _ => ¬ v.Live t
  | .wait i => ¬ v.SemLive i
  | .signal i => ¬ v.SemLive i
  | .signaln i n => ¬ v.SemLive i ∨ n ≤ 0
  | .semfree i => ¬ v.SemLive i
  | .send t _ => ¬ v.Live t ∨ (v.thrtab t).hasmsg = true
  | .recvtime d => d < 0
  | .kill t => ¬ v.Live t ∨ NULLTHREAD = t
  | _ => False

/-- The events of `send`, which starts a receiver that waits. -/
def sendEvents (v : Sched) (t m : Int) : List Event :=
  if ¬ v.Live t ∨ (v.thrtab t).hasmsg = true then []
  else if v.state t = .recv then [.message t m true, .ready t, .resched]
  else if v.state t = .tmout then [.message t m true, .lend t, .ready t, .resched]
  else [.message t m true]

/-- The threads whose delay runs out with the next clock tick. -/
def expired (v : Sched) : List Int :=
  (v.queue v.sleepq).takeWhile fun t => decide ((v.apply .tick).key t ≤ 0)

/-- The events of a clock tick on the sleep queue. -/
def tickEvents (v : Sched) : List Event := .tick :: v.expired.map .ready

/-- The threads that `n` signals release. -/
def released (v : Sched) (i n : Nat) : List Int :=
  (v.queue (v.semtab i).queue).take (min n (-(v.semtab i).count).toNat)

/-- The entry of a new thread in the slot `t`. -/
def newThread (v : Sched) (t : Int) (ssize : Nat) (prio : Int) (saddr : Nat) : ThrEnt :=
  { v.thrtab t with
    state := .susp, prio := prio, stkbase := saddr, stklen := ssize,
    parent := v.thrcurrent, hasmsg := false, ctx := .user }

/-- The size of a new thread's stack. -/
def stackSize (ssize : Nat) : Nat := if ssize < MINSTK then MINSTK else ssize

/-- The entry of the current thread. -/
def self (v : Sched) : ThrEnt := v.thrtab v.thrcurrent

/-- In `v` the step `op` is the events `evs`, and its caller goes on at `k`. -/
inductive Script (v : Sched) : Op → List Event → Context → Prop
  | refused {op : Op} : v.Refuses op → Script v op [] (.ret SYSERR)
  | createFails {ssize : Nat} {prio : Int} {n : Int} :
      (v.heap.stkget (stackSize ssize)).2 = none ∨ (∀ t, IsTid t → v.state t ≠ .free) →
      Script v (.create ssize prio)
        [.heap (v.heap.stkget (stackSize ssize)).1, .nexttid n] (.ret SYSERR)
  | create {ssize : Nat} {prio t : Int} {h : Heap} {a : Nat} :
      v.heap.stkget (stackSize ssize) = (h, some a) → IsTid t → v.state t = .free →
      Script v (.create ssize prio)
        [.heap h, .nexttid t, .thrcount (v.thrcount + 1),
          .spawn t (v.newThread t (stackSize ssize) prio a)] (.ret t)
  | ready {t : Int} : v.Live t → v.state t = .susp →
      Script v (.ready t false) [.ready t] (.ret OK)
  | readyResched {t : Int} : v.Live t → v.state t = .susp →
      Script v (.ready t true) [.ready t, .resched] (.ret OK)
  | resume {t : Int} : v.Live t → v.state t = .susp →
      Script v (.resume t) [.ready t, .resched] (.ret (v.thrtab t).prio)
  | hold {t : Int} : v.Live t → NULLTHREAD ≠ t → v.state t = .ready →
      Script v (.suspend t) [.hold t] (.ret (v.thrtab t).prio)
  | suspend : NULLTHREAD ≠ v.thrcurrent →
      Script v (.suspend v.thrcurrent) [.block .susp, .resched] (.suspend v.thrcurrent)
  | yield : Script v .yield [.resched] (.ret OK)
  | chprio {t p : Int} : v.Live t → Script v (.chprio t p) [.prio t p] (.ret (v.thrtab t).prio)
  | pass {i : Nat} : v.SemLive i → 0 ≤ (v.semtab i).count - 1 →
      Script v (.wait i) [.sem i (v.semtab i).state ((v.semtab i).count - 1)] (.ret OK)
  | wait {i : Nat} : v.SemLive i → (v.semtab i).count - 1 < 0 →
      Script v (.wait i)
        [.sem i (v.semtab i).state ((v.semtab i).count - 1), .enqueue i, .resched] (.ret OK)
  | signalNone {i : Nat} : v.SemLive i → v.released i 1 = [] →
      Script v (.signal i) [.sem i (v.semtab i).state ((v.semtab i).count + 1)] (.ret OK)
  | signal {i : Nat} {t : Int} : v.SemLive i → v.released i 1 = [t] →
      Script v (.signal i)
        [.sem i (v.semtab i).state ((v.semtab i).count + 1), .ready t, .resched] (.ret OK)
  | signaln {i n : Nat} : v.SemLive i → 0 < n →
      Script v (.signaln i n)
        (.sem i (v.semtab i).state ((v.semtab i).count + n) ::
          (v.released i n).map .ready ++ [.resched]) (.ret OK)
  | semcreateFails {c : Int} {n : Nat} : (∀ i < NSEM, (v.semtab i).state ≠ .free) →
      Script v (.semcreate c) [.nextsem n] (.ret SYSERR)
  | semcreate {c : Int} {i : Nat} : i < NSEM → (v.semtab i).state = .free → 0 ≤ c →
      Script v (.semcreate c) [.nextsem i, .sem i .used c] (.ret i)
  | semcreateNeg {c : Int} {i : Nat} : i < NSEM → (v.semtab i).state = .free → c < 0 →
      Script v (.semcreate c) [.nextsem i, .sem i .used (v.semtab i).count] (.ret SYSERR)
  | semfree {i : Nat} : v.SemLive i →
      Script v (.semfree i) ((v.queue (v.semtab i).queue).map .ready ++ [.sem i .free 0]) (.ret OK)
  | sleepZero {ms : Nat} : ms * CLKTICKS_PER_SEC % 2 ^ 32 / 1000 = 0 →
      Script v (.sleep ms) [.resched] (.ret OK)
  | sleep {ms d : Nat} : d = ms * CLKTICKS_PER_SEC % 2 ^ 32 / 1000 → 0 < d →
      Script v (.sleep ms) [.doze d .sleep, .resched] (.ret OK)
  | send {t m : Int} : v.Live t → (v.thrtab t).hasmsg = false →
      Script v (.send t m) (v.sendEvents t m) (.ret OK)
  | receive : v.self.hasmsg = false → Script v .receive [.block .recv, .resched] .receive
  | receiveNow : v.self.hasmsg = true →
      Script v .receive [.message v.thrcurrent v.self.msg false] (.ret v.self.msg)
  | recvtime {d : Int} : 0 ≤ d → v.self.hasmsg = false →
      Script v (.recvtime d) [.doze d .tmout, .resched] .recvtime
  | recvtimeNow {d : Int} : 0 ≤ d → v.self.hasmsg = true →
      Script v (.recvtime d) [.message v.thrcurrent v.self.msg false] (.ret v.self.msg)
  | recvclr : Script v .recvclr [.message v.thrcurrent v.self.msg false]
      (.ret (if v.self.hasmsg = true then v.self.msg else NOMSG))
  | kill {t : Int} : v.Live t → NULLTHREAD ≠ t → 1 < v.thrcount - 1 →
      Script v (.kill t)
        (.thrcount (v.thrcount - 1) :: v.sendEvents (v.thrtab t).parent t) (.kill t)
  | killLast {t : Int} : v.Live t → NULLTHREAD ≠ t → v.thrcount - 1 ≤ 1 →
      Script v (.kill t) [.thrcount (v.thrcount - 1), .halt] (.kill t)
  | clkhandler {ticks time : Nat} :
      Script v .clkhandler (.clock ticks time :: v.tickEvents ++ [.resched]) .user
  | idle : v.self.ctx = .user → Script v .cont [] .user
  | return {r : Int} : v.self.ctx = .ret r → Script v .cont [] .user
  | suspendRest {t : Int} : v.self.ctx = .suspend t → Script v .cont [] (.ret (v.thrtab t).prio)
  | receiveRest : v.self.ctx = .receive →
      Script v .cont [.message v.thrcurrent v.self.msg false] (.ret v.self.msg)
  | recvtimeRest : v.self.ctx = .recvtime → v.self.hasmsg = true →
      Script v .cont [.message v.thrcurrent v.self.msg false] (.ret v.self.msg)
  | timeout : v.self.ctx = .recvtime → v.self.hasmsg = false → Script v .cont [] (.ret TIMEOUT)
  | suicide : v.self.ctx = .kill v.thrcurrent → v.thrcurrent ≠ NULLTHREAD →
      Script v .cont
        [.heap (v.heap.stkfree v.self.stkbase v.self.stklen).1, .free v.thrcurrent, .resched]
        (.killed v.thrcurrent)
  | killWaiting {t : Int} : v.self.ctx = .kill t → IsTid t → t ≠ NULLTHREAD → v.state t = .wait →
      Script v .cont
        [.heap (v.heap.stkfree (v.thrtab t).stkbase (v.thrtab t).stklen).1,
          .sem (v.thrtab t).sem (v.semtab (v.thrtab t).sem).state
            ((v.semtab (v.thrtab t).sem).count + 1), .free t] (.ret OK)
  | killOther {t : Int} : v.self.ctx = .kill t → IsTid t → t ≠ NULLTHREAD →
      v.state t = .ready ∨ v.state t = .susp ∨ v.state t = .recv →
      Script v .cont
        [.heap (v.heap.stkfree (v.thrtab t).stkbase (v.thrtab t).stklen).1, .free t] (.ret OK)
  | killFree {t : Int} : v.self.ctx = .kill t → IsTid t → v.state t = .free →
      Script v .cont [.heap (v.heap.stkfree (v.thrtab t).stkbase (v.thrtab t).stklen).1] (.ret OK)

/-- A step that goes on with `kill` finds a victim that is not on the sleep queue, and no thread
comes back from its own end. -/
def Orderly (v : Sched) (op : Op) : Prop :=
  op = .cont → (∀ t, v.self.ctx = .kill t →
      IsTid t ∧ t ≠ NULLTHREAD ∧ v.state t ≠ .sleep ∧ v.state t ≠ .tmout) ∧
    ∀ t, v.self.ctx ≠ .killed t

/-- One step of the scheduler on lists: its events, and the context its caller is left in. -/
def Step (v : Sched) (op : Op) (k : Context) (v' : Sched) : Prop :=
  ∃ evs, v.Script op evs k ∧ schedMachine.Run v (evs ++ [.ctx v.thrcurrent k]) v'

/-! ## The processor -/

end Sched

/-- The events that leave the processor with the running thread `t`. -/
def Event.Quiet (t : Int) : Event → Prop
  | .block _ => False
  | .enqueue _ => False
  | .doze _ _ => False
  | .resched => False
  | .free u => u ≠ t
  | _ => True

namespace Sched

variable {v v' : Sched} {op : Op} {evs : List Event} {k : Context} {e : Event}

/-- A quiet event leaves the running thread alone. -/
theorem Running.apply (hrun : v.Running) (he : v.Enabled e) (hq : e.Quiet v.thrcurrent) :
    (v.apply e).Running ∧ (v.apply e).thrcurrent = v.thrcurrent := by
  have hrun' : (v.thrtab v.thrcurrent).state = .curr := hrun
  -- the entry of another thread is changed, or the state is kept
  have hmod : ∀ {w : Sched} (t : Int) (f : ThrEnt → ThrEnt), w.thrtab = v.thrtab →
      w.thrcurrent = v.thrcurrent → (t = v.thrcurrent → (f (v.thrtab t)).state = .curr) →
      (w.modThr t f).Running ∧ (w.modThr t f).thrcurrent = v.thrcurrent := by
    intro w t f hthr hcur hf
    refine ⟨?_, hcur⟩
    change ((w.modThr t f).thrtab w.thrcurrent).state = .curr
    rw [hcur]
    by_cases ht : t = v.thrcurrent
    · rw [← ht, thrtab_modThr_self, hthr]
      exact hf ht
    · rw [thrtab_modThr_of_ne w f (Ne.symm ht), hthr]
      exact hrun
  have hother : ∀ {t : Int} {st : ThrState}, v.state t = st → st ≠ .curr → t ≠ v.thrcurrent := by
    rintro t st hst hne rfl
    exact hne (hst.symm.trans hrun)
  cases e with
  | block _ => exact hq.elim
  | enqueue _ => exact hq.elim
  | doze _ _ => exact hq.elim
  | resched => exact hq.elim
  | ready t =>
    refine hmod t (fun e => { e with state := .ready }) rfl rfl fun ht => ?_
    have := he.2.2
    rw [ht, Globals.state, hrun'] at this
    simp at this
  | hold t =>
    exact hmod t (fun e => { e with state := .susp }) rfl rfl fun ht =>
      absurd ht (hother he.2.2 (by simp))
  | free t =>
    exact hmod t (fun e => { e with state := .free }) rfl rfl fun ht => absurd ht hq
  | spawn t e =>
    exact hmod t (fun _ => e) rfl rfl fun ht =>
      absurd ht (hother he.2.1 (by simp))
  | prio t p => exact hmod t (fun e => { e with prio := p }) rfl rfl fun ht => ht ▸ hrun'
  | message t m has =>
    exact hmod t (fun e => { e with msg := m, hasmsg := has }) rfl rfl fun ht => ht ▸ hrun'
  | ctx t k => exact hmod t (fun e => { e with ctx := k }) rfl rfl fun ht => ht ▸ hrun'
  | lend _ | tick | sem _ _ _ | heap _ | thrcount _ | nexttid _ | nextsem _ | clock _ _ | halt =>
    exact ⟨hrun, rfl⟩

theorem Running.run (hrun : v.Running) (r : schedMachine.Run v evs v')
    (hq : ∀ e ∈ evs, e.Quiet v.thrcurrent) : v'.Running ∧ v'.thrcurrent = v.thrcurrent := by
  induction r with
  | nil => exact ⟨hrun, rfl⟩
  | snoc r he ih =>
    obtain ⟨hrun', hcur⟩ := ih fun e he => hq e (List.mem_append_left _ he)
    have h := hrun'.apply he (hcur ▸ hq _ (by simp))
    exact ⟨h.1, h.2.trans hcur⟩

/-- **A step reschedules at its end, or leaves the processor where it is.** -/
theorem Script.resched_or_quiet (h : v.Script op evs k) (hrun : v.Running) :
    (∃ evs', evs = evs' ++ [.resched]) ∨ ∀ e ∈ evs, e.Quiet v.thrcurrent := by
  have hsend : ∀ t m, (∃ evs', v.sendEvents t m = evs' ++ [.resched]) ∨
      ∀ e ∈ v.sendEvents t m, e.Quiet v.thrcurrent := by
    intro t m
    unfold sendEvents
    split_ifs
    · exact .inr (by simp)
    · exact .inl ⟨[_, _], rfl⟩
    · exact .inl ⟨[_, _, _], rfl⟩
    · exact .inr (by simp [Event.Quiet])
  have hother : ∀ {t : Int}, v.state t ≠ .curr → t ≠ v.thrcurrent := by
    rintro t hst rfl
    exact hst hrun
  cases h with
  | readyResched | resume => exact .inl ⟨[_], rfl⟩
  | suspend | receive | recvtime | sleep => exact .inl ⟨[_], rfl⟩
  | yield | sleepZero => exact .inl ⟨[], rfl⟩
  | wait | signal | suicide => exact .inl ⟨[_, _], rfl⟩
  | signaln | clkhandler => exact .inl ⟨_, rfl⟩
  | send => exact hsend _ _
  | kill =>
    rcases hsend (v.thrtab _).parent _ with ⟨evs', heq⟩ | hq
    · exact .inl ⟨_ :: evs', by rw [heq]; rfl⟩
    · exact .inr (List.forall_mem_cons.mpr ⟨trivial, hq⟩)
  | semfree =>
    refine .inr (List.forall_mem_append.mpr ⟨fun e he => ?_, by simp [Event.Quiet]⟩)
    obtain ⟨t, -, rfl⟩ := List.mem_map.mp he
    trivial
  | killWaiting _ _ _ hst =>
    have := hother (by rw [hst]; simp)
    exact .inr (by simpa [Event.Quiet] using this)
  | killOther _ _ _ hst =>
    have := hother (by rcases hst with h | h | h <;> rw [h] <;> simp)
    exact .inr (by simpa [Event.Quiet] using this)
  | _ => exact .inr (by simp [Event.Quiet])

/-- **A step keeps the invariant, and the processor is never left without a thread.** -/
theorem Step.sound (h : v.Step op k v') (S : v.Sound) (hrun : v.Running) :
    v'.Sound ∧ v'.Running := by
  obtain ⟨evs, hscript, r⟩ := h
  refine ⟨S.run r, ?_⟩
  obtain ⟨w, r₁, he, rfl⟩ := Machine.run_snoc_iff.mp r
  have hw : w.Running := by
    rcases hscript.resched_or_quiet hrun with ⟨evs', rfl⟩ | hq
    · obtain ⟨u, r₂, -, rfl⟩ := Machine.run_snoc_iff.mp r₁
      exact (S.run r₂).running_resched
    · exact (hrun.run r₁ hq).1
  exact (hw.apply (e := .ctx v.thrcurrent k) he trivial).1

end Sched

end Xinu
