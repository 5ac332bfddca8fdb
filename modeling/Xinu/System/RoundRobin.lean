import Xinu.Foundations.Rounds
import Xinu.Sched.Priority
import Xinu.System.Runs

/-!
# Round robin among equals

When the threads only yield and are interrupted by clock ticks that wake nobody, the processor
should go round among the running thread and the ready threads of its priority. It does so exactly
when the keys on the ready list tell these threads from the others.

## Main results

* `Sched.Turns.turn`: one turn
* `roundRobin_iff`: when the processor goes round
-/

namespace Xinu

set_option maxRecDepth 8000

open List KeyedList Rounds

variable {B R : List Int} {m : Nat} {op : Op} {s : Kernel} {v v₀ : Sched}

/-- `yield`, a clock tick that wakes no thread, and going on with a call other than `kill`. -/
def Kernel.Turn (s : Kernel) (op : Op) : Prop :=
  op = .yield ∨ (op = .clkhandler ∧ (s.exec .clkhandler).readied = s.readied) ∨
    op = .cont ∧ (s.thrtab s.thrcurrent).ctx.inKill = false
deriving Decidable

/-- The kernel with threads that only give up the processor. -/
def turnMachine : Machine Kernel Op := kernelMachine.restrict Kernel.Turn

instance (s : Kernel) (op : Op) : Decidable (turnMachine.enabled s op) :=
  inferInstanceAs (Decidable (_ ∧ _))

namespace Kernel

/-- The threads that `resched` has left running on the way from `s` to `s'`. -/
def selected (s s' : Kernel) : List Int :=
  (s'.rescheds.drop s.rescheds.length).map Dispatch.thrcurrent

/-- The ready threads that have the priority of the running one, and that one. -/
def ring (s : Kernel) : List Int :=
  (s.queue s.readylist).filter
    (fun t => (s.thrtab t).prio = (s.thrtab s.thrcurrent).prio) ++ [s.thrcurrent]

/-- **Round robin**: however the threads take turns, the processor goes round the ring, so any
window of the length of the ring holds each of its threads once. -/
structure RoundRobin (s : Kernel) : Prop where
  cyclic : ∀ {ops : List Op} {s' : Kernel}, turnMachine.Run s ops s' →
    s.selected s' = rounds s.ring (s.selected s').length
  window : ∀ {ops : List Op} {s' : Kernel}, turnMachine.Run s ops s' → ∀ i,
    i + s.ring.length ≤ (s.selected s').length →
      (((s.selected s').drop i).take s.ring.length).Perm s.ring

end Kernel

/-! ## Turns -/

namespace Sched

variable {v' : Sched} {k : Context}

/-- The state `v` after `m` turns from `v₀`, round the threads `R`. -/
structure Turns (v₀ : Sched) (R B : List Int) (m : Nat) (v : Sched) : Prop where
  split : ∃ A, v.Split A B ∧ A ++ [v.thrcurrent] = R.rotate m
  prio : ∀ t, (v.thrtab t).prio = (v₀.thrtab t).prio
  top : (v₀.thrtab v.thrcurrent).prio = (v₀.thrtab v₀.thrcurrent).prio
  noKill : ∀ t, IsTid t → v.state t = .curr ∨ v.state t = .ready →
    (v.thrtab t).ctx.inKill = false
  halted : v.halted = false
  rescheds : ∃ D, v.rescheds = v₀.rescheds ++ D ∧ D.map Dispatch.thrcurrent = rounds R m

/-- No thread that may run is inside `kill`. -/
theorem Turns.noKill_step (T : Turns v₀ R B m v) (hstep : v.Step op k v') (hk : k.inKill = false)
    (hstate : ∀ t, v'.state t = .curr ∨ v'.state t = .ready → v.state t = .curr ∨
      v.state t = .ready) :
    ∀ t, IsTid t → v'.state t = .curr ∨ v'.state t = .ready → (v'.thrtab t).ctx.inKill = false := by
  intro t htid ht
  obtain ⟨hself, hother⟩ := hstep.ctx
  by_cases htc : t = v.thrcurrent
  · rw [htc, hself, hk]
  · rcases hother t htc with h | h
    · rw [h]
      exact T.noKill t htid (hstate t ht)
    · rw [h]
      rfl

theorem Turns.cont (T : Turns v₀ R B m v) (S : v.Sound) (hrun : v.Running)
    (hstep : v.Step .cont k v') :
    Turns v₀ R B m v' ∧ (k = .user ∨ ∃ r, k = .ret r) ∧
      ((∃ r, v.self.ctx = .ret r) → k = .user) := by
  obtain ⟨hsame, hk, hcases⟩ := hstep.cont S (T.noKill _ S.thrcurrent (.inl hrun))
  obtain ⟨A, hsplit, hA⟩ := T.split
  refine ⟨⟨⟨A, hsplit.congr hsame, by rw [hsame.thrcurrent, hA]⟩,
    fun t => (hsame.prio t).trans (T.prio t), by rw [hsame.thrcurrent, T.top],
    T.noKill_step hstep hk fun t ht => by rwa [hsame.state] at ht, hsame.halted.trans T.halted, ?_⟩,
    hcases⟩
  rw [hsame.rescheds]
  exact T.rescheds

/-- **One turn**: the processor goes to the next thread of the ring. -/
theorem Turns.turn (T : Turns v₀ R B m v) (S : v.Sound) (hrun : v.Running)
    (hstep : v.Step op k v') (hop : op = .yield ∨ op = .clkhandler ∧ v'.readied = v.readied) :
    ∃ h rest, R.rotate m = h :: rest ∧
      (∃ D, v'.rescheds = v₀.rescheds ++ D ∧ D.map Dispatch.thrcurrent = rounds R (m + 1)) ∧
      ((v₀.thrtab h).prio = (v₀.thrtab v₀.thrcurrent).prio → Turns v₀ R B (m + 1) v') := by
  obtain ⟨w, Sw, hw, hw', hk⟩ := hstep.turn S hop
  obtain ⟨A, hsplit, hA⟩ := T.split
  obtain ⟨h, rest, hring⟩ : ∃ h rest, A ++ [v.thrcurrent] = h :: rest := by
    cases A with
    | nil => exact ⟨_, _, rfl⟩
    | cons a A => exact ⟨_, _, rfl⟩
  have hrot : R.rotate m = h :: rest := by rw [← hA, hring]
  have hrunw : w.Running := by
    rw [Running, hw.thrcurrent, hw.state]
    exact hrun
  obtain ⟨hcur, hsplit'⟩ := (hsplit.congr hw).resched Sw hrunw (by rw [hw.thrcurrent, hring])
  have hcur' : v'.thrcurrent = h := hw'.thrcurrent.trans hcur
  have hprio : ∀ t, (v'.thrtab t).prio = (v₀.thrtab t).prio := by
    intro t
    rw [hw'.prio, thrtab_resched]
    exact (hw.prio t).trans (T.prio t)
  have hdisp : ∃ D, v'.rescheds = v₀.rescheds ++ D ∧
      D.map Dispatch.thrcurrent = rounds R (m + 1) := by
    obtain ⟨D, hD, hmap⟩ := T.rescheds
    refine ⟨D ++ [⟨false, w.resched.thrcurrent, w.resched.thrtab⟩], ?_, ?_⟩
    · rw [hw'.rescheds, Sw.rescheds_resched, hw.rescheds, hD, append_assoc]
    · rw [map_append, hmap, rounds_succ hrot, ← hcur]
      rfl
  refine ⟨h, rest, hrot, hdisp, fun hh => ⟨⟨rest, (hsplit' ?_).congr hw', ?_⟩, hprio, ?_,
    ?_, ?_, hdisp⟩⟩
  · rw [hw.prio, T.prio, hh, hw.thrcurrent, hw.prio, T.prio, T.top]
  · rw [hcur', ← rotate_rotate, hrot, rotate_cons_succ, rotate_zero]
  · rw [hcur', hh]
  · refine T.noKill_step hstep hk fun t ht => ?_
    rw [hw'.state] at ht
    rw [← hw.state]
    rcases Sw.state_resched t with hs | ⟨hs, -⟩ | ⟨hs, -⟩
    · rwa [hs] at ht
    · exact .inl hs
    · exact .inr hs
  · rw [hw'.halted, resched_frame]
    exact hw.halted.trans T.halted

end Sched

/-! ## Turns of the kernel -/

section

/-- A turn of the kernel is a step of the scheduler on lists. -/
theorem Models.turn_step (M : Models s v) (hop : s.Turn op) :
    ∃ v', v.Step op (s.call op).2 v' ∧ Models (s.exec op) v' := by
  refine M.exec ?_ (M.orderly ?_)
  · rcases hop with rfl | ⟨rfl, -⟩ | ⟨rfl, -⟩ <;> exact ⟨fun _ h => h, trivial⟩
  · rcases hop with rfl | ⟨rfl, -⟩ | ⟨rfl, h⟩ <;> simp [Kernel.Kills, *]

theorem Models.halted (M : Models s v) : s.halted = v.halted :=
  congrArg Globals.halted M.rep.globals

/-- A thread that goes on with a call comes back to its own code. -/
theorem Models.settle (M : Models s v) (T : Sched.Turns v₀ R B m v) :
    ∃ ops s' v', turnMachine.Run s ops s' ∧ Models s' v' ∧ Sched.Turns v₀ R B m v' ∧
      v'.self.ctx = .user := by
  -- one step, unless the thread is in its own code already
  have hstep : ∀ {s : Kernel} {v : Sched}, Models s v → Sched.Turns v₀ R B m v →
      v.self.ctx ≠ .user → ∃ v' k, turnMachine.enabled s .cont ∧ Models (s.exec .cont) v' ∧
        Sched.Turns v₀ R B m v' ∧ v'.self.ctx = k ∧ (k = .user ∨ ∃ r, k = .ret r) ∧
        ((∃ r, v.self.ctx = .ret r) → k = .user) := by
    intro s v M T hctx
    have hturn : s.Turn .cont :=
      .inr (.inr ⟨rfl, by rw [M.rep.self]; exact T.noKill _ M.sound.thrcurrent (.inl M.running)⟩)
    obtain ⟨v', hst, M'⟩ := M.turn_step hturn
    obtain ⟨T', hk, hret⟩ := T.cont M.sound M.running hst
    have hcur : v'.thrcurrent = v.thrcurrent :=
      (hst.cont M.sound (T.noKill _ M.sound.thrcurrent (.inl M.running))).1.thrcurrent
    refine ⟨v', _, ⟨⟨M.halted.trans T.halted, ?_⟩, hturn⟩, M', T', ?_, hk, hret⟩
    · rw [M.rep.self]
      simpa using hctx
    · rw [Sched.self, hcur]
      exact hst.ctx.1
  by_cases hctx : v.self.ctx = .user
  · exact ⟨[], s, v, .nil s, M, T, hctx⟩
  obtain ⟨v₁, k₁, hen₁, M₁, T₁, hk₁, hcases, -⟩ := hstep M T hctx
  have r₁ : turnMachine.Run s [.cont] (s.exec .cont) := .cons hen₁ (.nil _)
  rcases hcases with rfl | ⟨r, rfl⟩
  · exact ⟨_, _, v₁, r₁, M₁, T₁, hk₁⟩
  · obtain ⟨v₂, k₂, hen₂, M₂, T₂, hk₂, -, huser⟩ := hstep M₁ T₁ (by simp [hk₁])
    exact ⟨_, _, v₂, r₁.snoc hen₂, M₂, T₂, hk₂.trans (huser ⟨r, hk₁⟩)⟩

theorem Models.exists_turn (M : Models s v) (T : Sched.Turns v₀ R B m v) :
    ∃ ops s' v' h rest, turnMachine.Run s ops s' ∧ Models s' v' ∧ R.rotate m = h :: rest ∧
      (∃ D, v'.rescheds = v₀.rescheds ++ D ∧ D.map Dispatch.thrcurrent = rounds R (m + 1)) ∧
      ((v₀.thrtab h).prio = (v₀.thrtab v₀.thrcurrent).prio → Sched.Turns v₀ R B (m + 1) v') := by
  obtain ⟨ops, s₁, v₁, r, M₁, T₁, huser⟩ := M.settle T
  have hturn : s₁.Turn .yield := .inl rfl
  obtain ⟨v₂, hst, M₂⟩ := M₁.turn_step hturn
  have hen : turnMachine.enabled s₁ .yield := by
    refine ⟨⟨M₁.halted.trans T₁.halted, ?_⟩, hturn⟩
    rw [M₁.rep.self, huser]
    simp
  obtain ⟨h, rest, hrot, hD, hT⟩ := T₁.turn M₁.sound M₁.running hst (.inl rfl)
  exact ⟨_, _, v₂, h, rest, r.snoc hen, M₂, hrot, hD, hT⟩

theorem Models.selected {s₀ : Kernel} (M₀ : Models s₀ v₀) (M : Models s v)
    (h : ∃ D, v.rescheds = v₀.rescheds ++ D ∧ D.map Dispatch.thrcurrent = rounds R m) :
    s₀.selected s = rounds R m := by
  obtain ⟨D, hD, hmap⟩ := h
  have h₀ : s₀.rescheds = v₀.rescheds := congrArg Globals.rescheds M₀.rep.globals
  have h₁ : s.rescheds = v.rescheds := congrArg Globals.rescheds M.rep.globals
  rw [Kernel.selected, h₀, h₁, hD, drop_left, hmap]

end

/-! ## The keys and the ring -/

section

variable {A : List Int}

theorem Kernel.ring_ne_nil (s : Kernel) : s.ring ≠ [] := by simp [Kernel.ring]

theorem Kernel.prio_of_mem_ring {t : Int} (ht : t ∈ s.ring) :
    (s.thrtab t).prio = (s.thrtab s.thrcurrent).prio := by
  rcases mem_append.mp ht with ht | ht
  · simpa using (mem_filter.mp ht).2
  · rw [mem_singleton.mp ht]

/-- One more turn, when the processor goes round: the next thread is the next one of the ring. -/
theorem Kernel.RoundRobin.next (hrr : s.RoundRobin) (M : Models s s.lists) (hR : R ≠ [])
    {ops : List Op} {s₁ : Kernel} {v₁ : Sched} (r : turnMachine.Run s ops s₁) (M₁ : Models s₁ v₁)
    (T : Sched.Turns s.lists R B m v₁) :
    ∃ ops s₂ v₂ h, turnMachine.Run s ops s₂ ∧ Models s₂ v₂ ∧ R[m % R.length]? = some h ∧
      s.ring[m % s.ring.length]? = some h ∧ Sched.Turns s.lists R B (m + 1) v₂ := by
  obtain ⟨ops', s₂, v₂, h, rest, r₂, M₂, hrot, hD, hT⟩ := M₁.exists_turn T
  have hcyc := hrr.cyclic (r.append r₂)
  rw [M.selected M₂ hD, length_rounds hR] at hcyc
  have hR' : R[m % R.length]? = some h := by
    rw [← head?_rotate (Nat.mod_lt _ (length_pos_iff.mpr hR)), rotate_mod, hrot]
    rfl
  have hring : s.ring[m % s.ring.length]? = some h := by
    rw [← getElem?_rounds s.ring_ne_nil (Nat.lt_succ_self m), ← hcyc,
      getElem?_rounds hR (Nat.lt_succ_self m), hR']
  exact ⟨_, s₂, v₂, h, r.append r₂, M₂, hR', hring,
    hT (Kernel.prio_of_mem_ring (mem_of_getElem? hring))⟩

/-- When the processor goes round, the threads in front of the ready list are those of the ring. -/
theorem Kernel.RoundRobin.split (hrr : s.RoundRobin) (W : s.WellFormed) (M : Models s s.lists)
    (hsplit : s.lists.Split A B) (T : Sched.Turns s.lists (A ++ [s.thrcurrent]) B 0 s.lists) :
    (∀ t ∈ A, (s.thrtab t).prio = (s.thrtab s.thrcurrent).prio) ∧
      ∀ t ∈ B, (s.thrtab t).prio ≠ (s.thrtab s.thrcurrent).prio := by
  have hR : A ++ [s.thrcurrent] ≠ [] := by simp
  -- the first turns go through `A`
  have hturns : ∀ m ≤ A.length, (∃ ops s' v', turnMachine.Run s ops s' ∧ Models s' v' ∧
      Sched.Turns s.lists (A ++ [s.thrcurrent]) B m v') ∧
      ∀ i < m, ∀ t ∈ A[i]?, (s.thrtab t).prio = (s.thrtab s.thrcurrent).prio := by
    intro m hm
    induction m with
    | zero => exact ⟨⟨[], s, s.lists, .nil s, M, T⟩, by simp⟩
    | succ m ih =>
      obtain ⟨⟨ops, s₁, v₁, r₁, M₁, T₁⟩, hA⟩ := ih (by omega)
      obtain ⟨ops', s₂, v₂, h, r₂, M₂, hnext, hring, T₂⟩ := hrr.next M hR r₁ M₁ T₁
      rw [Nat.mod_eq_of_lt (by simp; omega), getElem?_append_left (by omega)] at hnext
      refine ⟨⟨_, s₂, v₂, r₂, M₂, T₂⟩, fun i hi t ht => ?_⟩
      rcases Nat.lt_succ_iff_lt_or_eq.mp hi with hi | rfl
      · exact hA i hi t ht
      · rw [hnext] at ht
        obtain rfl := Option.some_inj.mp ht
        exact Kernel.prio_of_mem_ring (mem_of_getElem? hring)
  obtain ⟨⟨ops, s₁, v₁, r₁, M₁, T₁⟩, hA⟩ := hturns A.length le_rfl
  have hfront : ∀ t ∈ A, (s.thrtab t).prio = (s.thrtab s.thrcurrent).prio := by
    intro t ht
    obtain ⟨i, hi, rfl⟩ := mem_iff_getElem.mp ht
    exact hA i hi _ (getElem?_eq_getElem hi)
  refine ⟨hfront, ?_⟩
  -- the next turn is that of the running thread, so the ring ends here
  obtain ⟨ops', s₂, v₂, h, r₂, M₂, hnext, hring, T₂⟩ := hrr.next M hR r₁ M₁ T₁
  have hqueue : s.queue s.readylist = A ++ B := hsplit.queue
  have hringeq : s.ring = A ++
      (B.filter (fun t => (s.thrtab t).prio = (s.thrtab s.thrcurrent).prio) ++ [s.thrcurrent]) := by
    rw [Kernel.ring, hqueue, filter_append, filter_eq_self.mpr, append_assoc]
    intro t ht
    simpa using hfront t ht
  rw [Nat.mod_eq_of_lt (by simp), getElem?_append_right le_rfl, Nat.sub_self] at hnext
  rw [Nat.mod_eq_of_lt (by rw [hringeq]; simp), hringeq, getElem?_append_right le_rfl,
    Nat.sub_self] at hring
  rcases hfilter : B.filter fun t => (s.thrtab t).prio =
      (s.thrtab s.thrcurrent).prio with _ | ⟨b, l⟩
  · intro t ht
    simpa using filter_eq_nil_iff.mp hfilter t ht
  · rw [hfilter] at hring
    have hb : s.thrcurrent = b := (Option.some_inj.mp hnext).trans (Option.some_inj.mp hring).symm
    have hbB : b ∈ B := (mem_filter.mp (hfilter ▸ mem_cons_self ..)).1
    have hmem : s.thrcurrent ∈ s.queue s.readylist := by
      rw [hqueue, hb]
      exact mem_append_right _ hbB
    have hst := (W.ready _ W.thrcurrent).mpr hmem
    rw [(W.curr _ W.thrcurrent).mpr rfl] at hst
    simp at hst

/-- When the threads in front of the ready list are those of the ring, the processor goes round. -/
theorem roundRobin_of_split (M : Models s s.lists)
    (T : Sched.Turns s.lists (A ++ [s.thrcurrent]) B 0 s.lists)
    (hring : s.ring = A ++ [s.thrcurrent]) : s.RoundRobin := by
  have hprio : ∀ {m h rest}, s.ring.rotate m = h :: rest →
      (s.thrtab h).prio = (s.thrtab s.thrcurrent).prio := by
    intro m h rest hrot
    refine Kernel.prio_of_mem_ring ?_
    rw [← mem_rotate (n := m), hrot]
    exact mem_cons_self ..
  have hcyclic : ∀ {ops s'}, turnMachine.Run s ops s' → ∃ m, s.selected s' = rounds s.ring m := by
    intro ops s' r
    obtain ⟨v, m, M', T⟩ := r.invariant
      (I := fun s' => ∃ v m, Models s' v ∧ Sched.Turns s.lists s.ring B m v)
      (by
        rintro s₁ op ⟨v, m, M₁, T₁⟩ ⟨-, hturn⟩
        obtain ⟨v', hst, M'⟩ := M₁.turn_step hturn
        have hstep : op = .yield ∨ op = .clkhandler ∧ v'.readied = v.readied →
            ∃ v m, Models (s₁.exec op) v ∧ Sched.Turns s.lists s.ring B m v := by
          intro hop
          obtain ⟨h, rest, hrot, -, hT⟩ := T₁.turn M₁.sound M₁.running hst hop
          exact ⟨v', m + 1, M', hT (hprio hrot)⟩
        rcases hturn with rfl | ⟨rfl, hwake⟩ | ⟨rfl, -⟩
        · exact hstep (Or.inl rfl)
        · refine hstep (Or.inr ⟨rfl, ?_⟩)
          rw [← congrArg Globals.readied M'.rep.globals, ← congrArg Globals.readied M₁.rep.globals]
          exact hwake
        · exact ⟨v', m, M', (T₁.cont M₁.sound M₁.running hst).1⟩)
      ⟨s.lists, 0, M, hring ▸ T⟩
    exact ⟨m, M.selected M' T.rescheds⟩
  refine ⟨fun r => ?_, fun r i hi => ?_⟩
  · obtain ⟨m, hm⟩ := hcyclic r
    rw [hm, length_rounds s.ring_ne_nil]
  · obtain ⟨m, hm⟩ := hcyclic r
    rw [hm, length_rounds s.ring_ne_nil] at hi
    rw [hm, take_drop_rounds s.ring_ne_nil hi]
    exact rotate_perm _ _

end

/-- **When the processor goes round.** In a well-formed state in which no thread that may run is
inside `kill`, the processor goes round among the running thread and the ready threads of its
priority exactly when these are the ready threads whose keys are not below that priority. -/
theorem roundRobin_iff {s : Kernel} (W : s.WellFormed)
    (hset : s.Settled) (hhalted : s.halted = false)
    (hkill : ∀ t, IsTid t → s.state t = .curr ∨ s.state t = .ready →
      (s.thrtab t).ctx.inKill = false) : s.RoundRobin ↔ ∀ t, IsTid t → s.state t = .ready →
      ((s.thrtab t).prio = (s.thrtab s.thrcurrent).prio ↔
        (s.thrtab s.thrcurrent).prio ≤ (s.quetab t).key) := by
  have M := W.models hset
  obtain ⟨A, B, hsplit⟩ := M.sound.exists_split
  have hqueue : s.queue s.readylist = A ++ B := hsplit.queue
  have hfront : ∀ t ∈ A, (s.thrtab s.thrcurrent).prio ≤ (s.quetab t).key := hsplit.front
  have hback : ∀ t ∈ B, (s.quetab t).key < (s.thrtab s.thrcurrent).prio := hsplit.back
  have T : Sched.Turns s.lists (A ++ [s.thrcurrent]) B 0 s.lists :=
    ⟨⟨A, hsplit, by rw [rotate_zero]; rfl⟩, fun _ => rfl, rfl, hkill, hhalted, [], by simp, rfl⟩
  constructor
  · intro hrr t ht hst
    obtain ⟨hA, hB⟩ := hrr.split W M hsplit T
    have hmem : t ∈ A ++ B := hqueue ▸ (W.ready t ht).mp hst
    rcases mem_append.mp hmem with hmem | hmem
    · exact iff_of_true (hA t hmem) (hfront t hmem)
    · exact iff_of_false (hB t hmem) (not_le.mpr (hback t hmem))
  · intro hkeys
    have hready : ∀ t ∈ A ++ B, IsTid t ∧ s.state t = .ready := by
      intro t ht
      rw [← hqueue] at ht
      have htid := W.range _ W.layout.isQueue_readylist t ht
      exact ⟨htid, (W.ready t htid).mpr ht⟩
    refine roundRobin_of_split M T ?_
    rw [Kernel.ring, hqueue, filter_append, filter_eq_self.mpr, filter_eq_nil_iff.mpr, append_nil]
    · intro t ht
      obtain ⟨htid, hst⟩ := hready t (mem_append_right _ ht)
      simpa using fun h => absurd ((hkeys t htid hst).mp h) (not_le.mpr (hback t ht))
    · intro t ht
      obtain ⟨htid, hst⟩ := hready t (mem_append_left _ ht)
      simpa using (hkeys t htid hst).mpr (hfront t ht)

/-- Threads 1 and 2 have the same priority, and 1 resumes 2. -/
def twoEquals : Kernel :=
  orderlyMachine.after board
    [.create 128 20, .cont, .create 128 20, .cont, .resume 1, .resume 2]

theorem roundRobin_iff_twoEquals : twoEquals.ring = [1, 2] ∧ twoEquals.RoundRobin := by
  have r : orderlyMachine.Run board _ twoEquals := Machine.run_after
  obtain ⟨v, M, -⟩ := orderly_run r
  have hkill : ∀ t ∈ tids, (twoEquals.thrtab t).ctx.inKill = false := by decide
  have hkeys : ∀ t ∈ tids, twoEquals.state t = .ready →
      ((twoEquals.thrtab t).prio = (twoEquals.thrtab twoEquals.thrcurrent).prio ↔
        (twoEquals.thrtab twoEquals.thrcurrent).prio ≤ (twoEquals.quetab t).key) := by decide
  exact ⟨by decide, (roundRobin_iff M.wellFormed M.settled (by decide)
    fun t ht _ => hkill t (mem_tids.mpr ht)).mpr fun t ht => hkeys t (mem_tids.mpr ht)⟩

/-- Thread 1 resumes thread 2, which has a lower priority, and then gives it its own priority. -/
def promoted : Kernel :=
  orderlyMachine.after board
    [.create 128 20, .cont, .create 128 10, .cont, .resume 1, .resume 2, .cont, .chprio 2 20, .cont]

/-- **A ready thread whose priority was raised gets no turn**: threads 1 and 2 have the same
priority, but when thread 1 yields it is selected again. -/
theorem promoted_not_roundRobin : promoted.WellFormed ∧ promoted.Settled ∧ promoted.ring = [2, 1] ∧
    promoted.selected (promoted.exec .yield) = [1] ∧ ¬ promoted.RoundRobin := by
  have r : orderlyMachine.Run board _ promoted := Machine.run_after
  obtain ⟨v, M, -⟩ := orderly_run r
  have hring : promoted.ring = [2, 1] := by decide
  have hsel : promoted.selected (promoted.exec .yield) = [1] := by decide
  refine ⟨M.wellFormed, M.settled, hring, hsel, fun hrr => ?_⟩
  have hyield : turnMachine.Run promoted [.yield] (promoted.exec .yield) :=
    .cons (by decide) (.nil _)
  have hcyc := hrr.cyclic hyield
  rw [hsel, hring] at hcyc
  exact absurd hcyc (by decide)

end Xinu
