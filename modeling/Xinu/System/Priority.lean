import Xinu.Sched.Priority
import Xinu.System.Runs

/-!
# Priority scheduling

`resched` orders the ready threads by the keys they were put on the ready list with, and `chprio`
does not touch the keys. In runs in which the priority of a ready thread is never changed, every
call of `resched` leaves a thread of the highest priority running.

## Main results

* `priority_law`: what holds of every call of `resched` in a run
-/

namespace Xinu

set_option maxRecDepth 8000

/-- The step does not change the priority of a thread on the ready list. -/
def Kernel.Steady (s : Kernel) : Op → Prop
  | .chprio t p => s.state t = .ready → p = (s.thrtab t).prio
  | _ => True

instance (s : Kernel) : ∀ op : Op, Decidable (s.Steady op) := by
  rintro ⟨⟩ <;> unfold Kernel.Steady <;> infer_instance

/-- The kernel in orderly runs without such a change. -/
def steadyMachine : Machine Kernel Op := orderlyMachine.restrict Kernel.Steady

instance (s : Kernel) (op : Op) : Decidable (steadyMachine.enabled s op) :=
  inferInstanceAs (Decidable (_ ∧ _))

theorem Models.rescheds {s : Kernel} {v : Sched} (M : Models s v) : s.rescheds = v.rescheds :=
  congrArg Globals.rescheds M.rep.globals

theorem Kernel.rescheds_sysinit (endaddr memheap maxaddr : Nat) (mem : Nat → MemBlock) :
    (sysinit endaddr memheap maxaddr mem).rescheds = [] := by
  obtain ⟨semtab, nextqid, hg, -⟩ := sysinit_spec endaddr memheap maxaddr mem
  rw [hg]
  rfl

/-- **The law of priority scheduling.** In every orderly run from the state of `sysinit` there is
always a thread to dispatch; and as long as no priority of a ready thread is changed, every call of
`resched` leaves a thread running whose priority is at least that of every ready thread. -/
theorem priority_law {endaddr memheap maxaddr : Nat} {mem : Nat → MemBlock} {ops : List Op}
    {s : Kernel} (r : orderlyMachine.Run (Kernel.sysinit endaddr memheap maxaddr mem) ops s) :
    (∀ d ∈ s.rescheds, d.empty = false) ∧
      (steadyMachine.Run (Kernel.sysinit endaddr memheap maxaddr mem) ops s →
        ∀ d ∈ s.rescheds, d.Lawful) := by
  obtain ⟨v₀, M₀, C₀, hq₀⟩ := Kernel.orderly_sysinit endaddr memheap maxaddr mem
  have hnil : v₀.rescheds = [] := M₀.rescheds ▸ Kernel.rescheds_sysinit endaddr memheap maxaddr mem
  constructor
  · obtain ⟨v, M, -, h⟩ := r.invariant
      (I := fun s => ∃ v, Models s v ∧ v.Contexts ∧ ∀ d ∈ v.rescheds, d.empty = false)
      (by
        rintro s op ⟨v, M, C, h⟩ ⟨-, horderly⟩
        obtain ⟨v', ⟨evs, hscript, r⟩, M', C'⟩ := M.orderly_step C horderly
        exact ⟨v', M', C', M.sound.rescheds_run r h⟩)
      ⟨v₀, M₀, C₀, by simp [hnil]⟩
    rw [M.rescheds]
    exact h
  · intro r
    obtain ⟨v, M, -, -, h⟩ := r.invariant
      (I := fun s => ∃ v, Models s v ∧ v.Contexts ∧ v.Keyed ∧ ∀ d ∈ v.rescheds, d.Lawful)
      (by
        rintro s op ⟨v, M, C, K, h⟩ ⟨⟨-, horderly⟩, hsteady⟩
        obtain ⟨v', hstep, M', C'⟩ := M.orderly_step C horderly
        obtain ⟨K', h'⟩ := hstep.keyed M.sound K
          (by
            rintro t p rfl
            rw [Kernel.Steady, Globals.state, M.rep.thrtab] at hsteady
            exact hsteady) h
        exact ⟨v', M', C', K', h'⟩)
      ⟨v₀, M₀, C₀, by simp [Sched.Keyed, hq₀], by simp [hnil]⟩
    rw [M.rescheds]
    exact h

/-- Thread 1 resumes thread 2, which has a lower priority, and yields. -/
def oneYield : Kernel :=
  steadyMachine.after board
    [.create 128 20, .cont, .create 128 10, .cont, .resume 1, .resume 2, .cont, .yield]

theorem priority_law_oneYield : oneYield.rescheds.length = 3 ∧
    (∀ d ∈ oneYield.rescheds, d.empty = false) ∧ ∀ d ∈ oneYield.rescheds, d.Lawful := by
  have r : steadyMachine.Run board _ oneYield := Machine.run_after
  have h := priority_law r.of_restrict
  exact ⟨by decide, h.1, h.2 r⟩

/-- Thread 1 resumes thread 2, raises its priority above its own, and yields. -/
def raised : Kernel :=
  orderlyMachine.after board
    [.create 128 20, .cont, .create 128 10, .cont, .resume 1, .resume 2, .cont, .chprio 2 50, .cont,
      .yield]

/-- **`chprio` of a ready thread** does not move it on the ready list: thread 1 keeps the processor
though the priority of thread 2 is higher. -/
theorem raised_not_lawful : (∃ ops, orderlyMachine.Run board ops raised) ∧
    ∃ d ∈ raised.rescheds, ¬ d.Lawful := by
  have r : orderlyMachine.Run board _ raised := Machine.run_after
  have hlast : ∃ d ∈ raised.rescheds, d.thrcurrent = 1 ∧ (d.thrtab 1).prio = 20 ∧
      (d.thrtab 2).state = .ready ∧ (d.thrtab 2).prio = 50 := by decide
  obtain ⟨d, hd, hcur, hp, hst, hp'⟩ := hlast
  refine ⟨⟨_, r⟩, d, hd, fun h => ?_⟩
  have := h 2 (by decide) hst
  rw [hcur, hp, hp'] at this
  omega

end Xinu
