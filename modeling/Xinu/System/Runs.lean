import Xinu.Refine.WellFormed
import Xinu.Sched.Frame

/-!
# Runs with `kill`

The tear-down of a thread on the sleep queue leaves the queue table in disorder. In runs in which
this does not happen every state is well formed, however the calls of `kill` are interleaved with
the rest.

## Main results

* `Sched.Step.contexts`: every step keeps the contexts in order
* `orderly_run`: every orderly run from the state of `sysinit` is well formed
* `kernel_refines_lists`: an orderly run is a run of the scheduler on lists
-/

namespace Xinu

set_option maxRecDepth 8000

open Function KeyedList

namespace Kernel

/-- The step does not tear down a thread on the sleep queue. -/
def Spares (s : Kernel) (op : Op) : Prop :=
  op = .cont → ∀ t ∈ (s.thrtab s.thrcurrent).ctx.victim, s.state t ≠ .sleep ∧ s.state t ≠ .tmout
deriving Decidable

/-- The steps by callers that keep to the rules, without the tear-down of a sleeping thread. -/
def Orderly (s : Kernel) (op : Op) : Prop := s.Admissible op ∧ s.Spares op
deriving Decidable

end Kernel

/-- The kernel in orderly runs. -/
def orderlyMachine : Machine Kernel Op := kernelMachine.restrict Kernel.Orderly

instance (s : Kernel) (op : Op) : Decidable (orderlyMachine.enabled s op) :=
  inferInstanceAs (Decidable (_ ∧ _))

namespace Sched

variable {v v' : Sched} {op : Op} {evs : List Event} {k : Context} {e : Event} {t u : Int}

/-- The context of a live thread: a call of `kill` is about a thread other than the null thread, and
no thread is behind its own end. -/
def ContextOk (v : Sched) (u : Int) : Prop :=
  v.state u ≠ .free → (∀ t, (v.thrtab u).ctx = .kill t → IsTid t ∧ t ≠ NULLTHREAD) ∧
    ∀ t, (v.thrtab u).ctx ≠ .killed t

/-- The contexts of all live threads are in order. -/
def Contexts (v : Sched) : Prop := ∀ u, v.ContextOk u

/-- The contexts in which a step leaves its caller inside `kill`. -/
theorem Script.kill_ctx (h : v.Script op evs k) :
    (∀ t, k = .kill t → v.Live t ∧ NULLTHREAD ≠ t ∧ op = .kill t) ∧
      ∀ t, k = .killed t → t = v.thrcurrent ∧ ∃ h, evs = [.heap h, .free t, .resched] := by
  cases h with
  | kill hl hn | killLast hl hn => exact ⟨by rintro t ⟨⟩; exact ⟨hl, hn, rfl⟩, by simp⟩
  | suicide => exact ⟨by simp, by rintro t ⟨⟩; exact ⟨rfl, _, rfl⟩⟩
  | _ => exact ⟨by simp, by simp⟩

theorem ContextOk.apply (C : v.ContextOk t) (S : v.Sound) (he : v.Enabled e)
    (hctx : ∀ u k, e ≠ .ctx u k) : (v.apply e).ContextOk t := by
  intro hlive
  rcases ctx_apply he hctx t with h | ⟨h, -⟩
  · rw [h]
    by_cases hfree : v.state t = .free
    · rcases S.free_apply he hfree with h' | ⟨x, rfl⟩
      · exact absurd h' hlive
      · have hx : ((v.apply (.spawn t x)).thrtab t).ctx = .user := by
          rw [thrtab_apply]
          simpa using he.2.2.2.2.2
        rw [← h, hx]
        exact ⟨by simp, by simp⟩
    · exact C hfree
  · rw [h]
    exact ⟨by simp, by simp⟩

theorem Contexts.run (C : v.Contexts) (S : v.Sound) (r : schedMachine.Run v evs v')
    (hctx : ∀ u k, Event.ctx u k ∉ evs) : v'.Contexts := by
  induction r with
  | nil => exact C
  | @snoc w evs e r he ih =>
    have hw := ih fun u k hmem => hctx u k (List.mem_append_left _ hmem)
    refine fun u => (hw u).apply (S.run r) he fun u' k' heq => hctx u' k' ?_
    rw [heq]
    simp

/-- **Every step keeps the contexts in order.** -/
theorem Step.contexts (h : v.Step op k v') (S : v.Sound) (C : v.Contexts) : v'.Contexts := by
  obtain ⟨evs, hscript, r⟩ := h
  obtain ⟨w, r₀, -, rfl⟩ := Machine.run_snoc_iff.mp r
  have hw := C.run S r₀ hscript.ctx_not_mem
  intro u
  change (w.apply (.ctx v.thrcurrent k)).ContextOk u
  by_cases hu : u = v.thrcurrent
  · subst hu
    intro hlive
    have hself : ((w.apply (.ctx v.thrcurrent k)).thrtab v.thrcurrent).ctx = k := by
      rw [thrtab_apply]
      simp
    rw [state_apply] at hlive
    rw [hself]
    refine ⟨fun t ht => ?_, fun t ht => ?_⟩
    · obtain ⟨hl, hn, -⟩ := hscript.kill_ctx.1 t ht
      exact ⟨hl.1, hn.symm⟩
    · -- a thread that has freed itself is not live
      obtain ⟨rfl, h, rfl⟩ := hscript.kill_ctx.2 t ht
      obtain ⟨x, r₁, -, rfl⟩ :=
        (Machine.run_snoc_iff (l := [Event.heap h, .free v.thrcurrent])).mp r₀
      have hx : x.state v.thrcurrent = .free := by
        rw [r₁.eq_after]
        change ((v.apply (.heap h)).apply (.free v.thrcurrent)).state v.thrcurrent = .free
        rw [state_apply]
        exact if_pos rfl
      rcases (S.run r₁).free_apply (e := .resched) trivial hx with hf | ⟨y, hy⟩
      · exact hlive hf
      · simp at hy
  · have hthr : (w.apply (.ctx v.thrcurrent k)).thrtab u = w.thrtab u := by
      rw [thrtab_apply]
      simp [hu]
    unfold ContextOk
    rw [Globals.state, hthr]
    exact hw u

end Sched

/-! ## Orderly runs -/

theorem Models.orderly_step {s : Kernel} {v : Sched} (M : Models s v) (C : v.Contexts) {op : Op}
    (h : s.Orderly op) : ∃ v', v.Step op (s.call op).2 v' ∧
      Models (s.exec op) v' ∧ v'.Contexts := by
  have hlive : v.state v.thrcurrent ≠ .free := by
    rw [M.running]
    simp
  obtain ⟨hkill, hkilled⟩ := C v.thrcurrent hlive
  have horderly : v.Orderly op := by
    rintro rfl
    refine ⟨fun t ht => ?_, hkilled⟩
    have hspares := h.2 rfl t (by rw [M.rep.self, ht]; rfl)
    rw [Globals.state, M.rep.thrtab] at hspares
    exact ⟨(hkill t ht).1, (hkill t ht).2, hspares⟩
  obtain ⟨v', hstep, M'⟩ := M.exec h.1 horderly
  exact ⟨v', hstep, M', hstep.contexts M.sound C⟩

theorem contexts_of_user {v : Sched} (h : ∀ u, (v.thrtab u).ctx = .user) : v.Contexts := by
  intro u _
  rw [h u]
  exact ⟨by simp, by simp⟩

theorem Kernel.ctx_sysinit (endaddr memheap maxaddr : Nat) (mem : Nat → MemBlock) (u : Int) :
    ((sysinit endaddr memheap maxaddr mem).thrtab u).ctx = .user := by
  obtain ⟨semtab, nextqid, hg, -⟩ := sysinit_spec endaddr memheap maxaddr mem
  rw [hg]
  simp only [nullinit, modThr, store]
  split_ifs <;> rfl

theorem Kernel.orderly_sysinit (endaddr memheap maxaddr : Nat) (mem : Nat → MemBlock) :
    ∃ v, Models (sysinit endaddr memheap maxaddr mem) v ∧ v.Contexts ∧ ∀ q, v.queue q = [] :=
  ⟨_, models_sysinit .., contexts_of_user fun u => ctx_sysinit _ _ _ _ u, fun _ => rfl⟩

/-- **Every orderly run from the state of `sysinit` is well formed.** -/
theorem orderly_run {endaddr memheap maxaddr : Nat} {mem : Nat → MemBlock} {ops : List Op}
    {s : Kernel} (r : orderlyMachine.Run (Kernel.sysinit endaddr memheap maxaddr mem) ops s) :
    ∃ v, Models s v ∧ v.Contexts := by
  obtain ⟨v₀, M₀, C₀, -⟩ := Kernel.orderly_sysinit endaddr memheap maxaddr mem
  refine r.invariant (I := fun s => ∃ v, Models s v ∧ v.Contexts) ?_ ⟨v₀, M₀, C₀⟩
  rintro s op ⟨v, M, C⟩ ⟨-, h⟩
  obtain ⟨v', -, M', C'⟩ := M.orderly_step C h
  exact ⟨v', M', C'⟩

/-- From `v` to `v'`, the scheduler on lists gives the same answers as the kernel from `s`. -/
def Sched.Follows (v : Sched) (s : Kernel) : List Op → Sched → Prop
  | [], v' => v' = v
  | op :: ops, v' => ∃ w, v.Step op (s.call op).2 w ∧ w.Follows (s.exec op) ops v'

/-- **The kernel refines the scheduler on lists**: an orderly run, on queues that are links in an
array, is a run on lists with the same answers to the same calls, and ends in a well-formed state.
-/
theorem kernel_refines_lists {s s' : Kernel} {v : Sched} {ops : List Op} (M : Models s v)
    (C : v.Contexts) (r : orderlyMachine.Run s ops s') :
    (∃ v', v.Follows s ops v' ∧ Models s' v') ∧ s'.WellFormed := by
  induction ops generalizing s v with
  | nil =>
    obtain rfl := Machine.run_nil_iff.mp r
    exact ⟨⟨v, rfl, M⟩, M.wellFormed⟩
  | cons op ops ih =>
    obtain ⟨⟨-, h⟩, r⟩ := Machine.run_cons_iff.mp r
    obtain ⟨w, hstep, M', C'⟩ := M.orderly_step C h
    obtain ⟨⟨v', hsteps, Mv⟩, W⟩ := ih M' C' r
    exact ⟨⟨v', ⟨w, hstep, hsteps⟩, Mv⟩, W⟩

/-- One thread goes to sleep, another one waits on a semaphore. -/
def twoBlocked : List Op :=
  [.create 128 20, .cont, .create 128 10, .cont, .resume 1, .sleep 1000, .cont, .resume 2,
    .semcreate 0, .cont, .wait 1, .cont]

theorem kernel_refines_lists_twoBlocked :
    ∃ v₀ v : Sched, v₀.Follows board twoBlocked v ∧ v.queue v.sleepq = [1] ∧
      v.queue (v.semtab 1).queue = [2] := by
  have r : orderlyMachine.Run board twoBlocked _ := Machine.run_after
  obtain ⟨v₀, M, C, -⟩ := Kernel.orderly_sysinit 4096 8192 65536 fun _ => ⟨0, 0⟩
  obtain ⟨⟨v, h, M'⟩, -⟩ := kernel_refines_lists M C r
  refine ⟨v₀, v, h, ?_, ?_⟩
  · rw [← M'.queue M'.sound.layout.isQueue_sleepq, ← M'.rep.sleepq]
    decide
  · rw [← M'.queue (M'.sound.layout.isQueue_sem (by decide)), ← M'.rep.semtab]
    decide

end Xinu
