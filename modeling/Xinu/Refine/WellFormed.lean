import Xinu.Refine.Steps

/-!
# Well-formed states

The queue table of a well-formed state decomposes into one doubly-linked list for each queue, and
each thread is on the list that its state names. A well-formed state represents a sound state of
the scheduler on lists, so every step of the kernel that is not part of a `kill` leads to a
well-formed state again, and so does every run of such steps from the state of `sysinit`.

## Main results

* `Kernel.WellFormed.models`, `Models.wellFormed`: well-formed states represent sound ones
* `Models.exec`: one step of the kernel
* `Kernel.models_sysinit`: the state of `sysinit`
* `wellFormed_exec_and_run`: every operation other than `kill` keeps well-formedness
-/

namespace Xinu

set_option maxRecDepth 8000

open Function DoublyLinked KeyedList

namespace Kernel

/-- The threads on the queue `q`, found by walking the links from its head to its tail. -/
def queue (s : Kernel) (q : Int) : List Int :=
  walk (fun i => (s.quetab i).next) (q + 1) NQENT.toNat (s.firstid q)

/-- The state with its queues as lists. -/
def lists (s : Kernel) : Sched := ⟨s.toGlobals, s.queue, fun t => (s.quetab t).key⟩

/-- The queue table decomposes into disjoint doubly-linked lists, and the states of the threads
agree with it. -/
structure WellFormed (s : Kernel) : Prop where
  /-- the queues are those that `sysinit` has set up -/
  layout : s.Layout
  /-- the links of a queue are mutually inverse -/
  linked : ∀ q, IsQueue q →
    Linked (fun i => (s.quetab i).next) (fun i => (s.quetab i).prev) (q :: s.queue q ++ [q + 1])
  /-- the sentinels are intact -/
  head : ∀ q, IsQueue q → (s.quetab q).prev = EMPTY ∧ (s.quetab q).key = MAXKEY
  tail : ∀ q, IsQueue q → (s.quetab (q + 1)).next = EMPTY ∧ (s.quetab (q + 1)).key = MINKEY
  /-- a thread is on at most one list, and once -/
  range : ∀ q, IsQueue q → ∀ t ∈ s.queue q, IsTid t
  nodup : ∀ q, IsQueue q → (s.queue q).Nodup
  disjoint : ∀ q q', IsQueue q → IsQueue q' → q ≠ q' → ∀ t ∈ s.queue q, t ∉ s.queue q'
  /-- `thrcurrent` is the only running thread -/
  thrcurrent : IsTid s.thrcurrent
  curr : ∀ t, IsTid t → (s.state t = .curr ↔ t = s.thrcurrent)
  ready : ∀ t, IsTid t → (s.state t = .ready ↔ t ∈ s.queue s.readylist)
  wait : ∀ t, IsTid t → (s.state t = .wait ↔
    (s.thrtab t).sem < NSEM ∧ t ∈ s.queue (s.semtab (s.thrtab t).sem).queue)
  sleep : ∀ t, IsTid t → (s.state t = .sleep ∨ s.state t = .tmout ↔ t ∈ s.queue s.sleepq)
  /-- the other threads are on no list -/
  off : ∀ t, IsTid t →
    s.state t = .curr ∨ s.state t = .susp ∨ s.state t = .recv ∨ s.state t = .free →
    ∀ q, IsQueue q → t ∉ s.queue q
  sorted : (s.queue s.readylist).Pairwise fun a b => (s.quetab b).key ≤ (s.quetab a).key

/-- Scheduling is not deferred, the priorities lie above the key of the tail sentinels, and the
null thread remains ready to run. -/
structure Settled (s : Kernel) : Prop where
  resdefer : s.resdefer = 0
  prio : ∀ t, IsTid t → MINKEY < (s.thrtab t).prio
  null : s.state NULLTHREAD = .curr ∨ s.state NULLTHREAD = .ready

end Kernel

/-- The step is a call of `kill`, or goes on with one. -/
def Kernel.Kills (s : Kernel) (op : Op) : Prop :=
  (∃ t, op = .kill t) ∨ op = .cont ∧ (s.thrtab s.thrcurrent).ctx.inKill = true

instance (op : Op) : Decidable (∃ t, op = .kill t) :=
  match op with
  | .kill t => isTrue ⟨t, rfl⟩
  | .create .. | .ready .. | .resume _ | .suspend _ | .yield | .chprio .. | .wait _ | .signal _
  | .signaln .. | .semcreate _ | .semfree _ | .sleep _ | .send .. | .receive | .recvtime _
  | .recvclr | .clkhandler | .cont => isFalse (by simp)

instance (s : Kernel) (op : Op) : Decidable (s.Kills op) := inferInstanceAs (Decidable (_ ∨ _))

/-- `s` represents the sound state `v` of the scheduler on lists. -/
structure Models (s : Kernel) (v : Sched) : Prop where
  rep : Rep s v
  sound : v.Sound
  running : v.Running

/-! ## Well-formed states represent sound ones -/

namespace Kernel.WellFormed

variable {s : Kernel}

theorem rep (W : s.WellFormed) : Rep s s.lists :=
  ⟨rfl, ⟨W.linked, W.range, W.nodup, W.disjoint, W.head, W.tail, fun _ _ => rfl⟩⟩

theorem placed (W : s.WellFormed) : Placed s.toGlobals s.queue := by
  refine ⟨W.range, W.nodup, fun t ht q hq => ?_⟩
  have hsame : ∀ q', IsQueue q' → t ∈ s.queue q' → (t ∈ s.queue q ↔ some q' = some q) := by
    intro q' hq' hmem
    rw [Option.some_inj]
    refine ⟨fun h => by_contra fun hne => W.disjoint q' q hq' hq hne t hmem h, ?_⟩
    rintro rfl
    exact hmem
  have hnone : ∀ {st : ThrState}, s.state t = st → (st = .curr ∨ st = .susp ∨ st = .recv ∨
      st = .free) → (t ∈ s.queue q ↔ (none : Option Int) = some q) := by
    rintro st rfl hst
    simpa using W.off t ht hst q hq
  unfold Globals.home
  cases hst : s.state t with
  | ready => exact hsame _ W.layout.isQueue_readylist ((W.ready t ht).mp hst)
  | wait =>
    obtain ⟨hsem, hmem⟩ := (W.wait t ht).mp hst
    exact hsame _ (W.layout.isQueue_sem hsem) hmem
  | sleep => exact hsame _ W.layout.isQueue_sleepq ((W.sleep t ht).mp (.inl hst))
  | tmout => exact hsame _ W.layout.isQueue_sleepq ((W.sleep t ht).mp (.inr hst))
  | curr | susp | recv | free => exact hnone hst (by simp)

/-- **A well-formed state represents a sound one.** -/
theorem models (W : s.WellFormed) (h : s.Settled) : Models s s.lists where
  rep := W.rep
  sound :=
    { layout := W.layout
      thrcurrent := W.thrcurrent
      placed := W.placed
      sem := fun t ht hw => ((W.wait t ht).mp hw).1
      curr := fun t ht => (W.curr t ht).mp
      sorted := W.sorted
      null := h.null
      prio := h.prio
      resdefer := h.resdefer }
  running := (W.curr _ W.thrcurrent).mpr rfl

end Kernel.WellFormed

namespace Models

variable {s : Kernel} {v : Sched}

section

variable (M : Models s v)
include M

theorem queue {q : Int} (hq : IsQueue q) : s.queue q = v.queue q :=
  (M.rep.links.linked q hq).walk_eq
    (fun h => ((M.rep.links.range q hq _ h).ne_of_isQueue hq).2 rfl)
      (M.rep.links.threads hq).length_lt

/-- A state that represents a sound one is well formed. -/
theorem wellFormed : s.WellFormed := by
  have hq : ∀ q, IsQueue q → s.queue q = v.queue q := fun q hq => M.queue hq
  obtain ⟨⟨hg, L⟩, S, hrun⟩ := M
  obtain ⟨g, Q, K⟩ := v
  obtain rfl : s.toGlobals = g := hg
  have hlayout : s.Layout := S.layout
  have hready := hq _ hlayout.isQueue_readylist
  have hsleepq := hq _ hlayout.isQueue_sleepq
  have hhome : ∀ t, IsTid t → ∀ q, IsQueue q → (t ∈ s.queue q ↔ s.home t = some q) := by
    intro t ht q h
    rw [hq q h]
    exact S.placed.home t ht q h
  refine ⟨S.layout, fun q h => ?_, L.head, L.tail, fun q h => ?_, fun q h => ?_,
    fun q q' h h' => ?_, S.thrcurrent, fun t ht => ⟨S.curr t ht, ?_⟩, fun t ht => ?_,
    fun t ht => ⟨fun hw => ?_, ?_⟩, fun t ht => ?_, fun t ht hst q h => ?_, ?_⟩
  · rw [hq q h]
    exact L.linked q h
  · rw [hq q h]
    exact L.range q h
  · rw [hq q h]
    exact L.nodup q h
  · rw [hq q h, hq q' h']
    exact L.disjoint q q' h h'
  · rintro rfl
    exact hrun
  · rw [hready]
    exact (S.mem_readylist ht).symm
  · have hsem := S.sem t ht hw
    refine ⟨hsem, ?_⟩
    rw [hhome t ht _ (hlayout.isQueue_sem hsem), Globals.home, hw]
  · rintro ⟨hsem, hmem⟩
    rw [hhome t ht _ (hlayout.isQueue_sem hsem)] at hmem
    unfold Globals.home at hmem
    cases hst : s.state t <;> simp only [hst, Option.some_inj, reduceCtorEq] at hmem
    · exact absurd hmem (hlayout.sem_ne_readylist hsem).symm
    · exact absurd hmem (hlayout.sem_ne_sleepq hsem).symm
    · rfl
    · exact absurd hmem (hlayout.sem_ne_sleepq hsem).symm
  · rw [hsleepq]
    exact (S.mem_sleepq ht).symm
  · rw [hhome t ht q h]
    have hnone : s.home t = none := by
      rcases hst with h | h | h | h <;> exact Globals.home_eq_none
    simp [hnone]
  · rw [hready]
    refine S.sorted.imp_of_mem fun ha hb hab => ?_
    have htid := fun t => L.range _ hlayout.isQueue_readylist t
    rwa [L.key _ (htid _ ha), L.key _ (htid _ hb)]

theorem settled : s.Settled := by
  obtain ⟨⟨hg, -⟩, S, -⟩ := M
  obtain ⟨g, Q, K⟩ := v
  obtain rfl : s.toGlobals = g := hg
  exact ⟨S.resdefer, S.prio, S.null⟩

/-- **One step of the kernel is one step of the scheduler on lists.** -/
theorem exec {op : Op} (hadm : s.Admissible op) (horderly : v.Orderly op) :
    ∃ v', v.Step op (s.call op).2 v' ∧ Models (s.exec op) v' := by
  obtain ⟨v', hstep, R⟩ := M.rep.exec M.sound M.running hadm horderly
  obtain ⟨S, hrun⟩ := hstep.sound M.sound M.running
  exact ⟨v', hstep, R, S, hrun⟩

/-- A step that has nothing to do with `kill` is orderly. -/
theorem orderly {op : Op} (h : ¬ s.Kills op) : v.Orderly op := by
  rintro rfl
  rw [Kernel.Kills, M.rep.self] at h
  refine ⟨fun t ht => absurd (.inr ⟨rfl, ?_⟩) h, fun t ht => h (.inr ⟨rfl, ?_⟩)⟩
  · rw [ht]
    rfl
  · rw [ht]
    rfl

end

end Models

/-! ## The start of the system -/

namespace Kernel

/-- The first `n` queues are set up and empty. -/
structure Fresh (n : Nat) (s : Kernel) : Prop where
  nextqid : s.nextqid = NTHREAD + 2 * n
  head : ∀ i < n, s.quetab (NTHREAD + 2 * i) = ⟨MAXKEY, NTHREAD + 2 * i + 1, EMPTY⟩
  tail : ∀ i < n, s.quetab (NTHREAD + 2 * i + 1) = ⟨MINKEY, EMPTY, NTHREAD + 2 * i⟩

variable {n : Nat} {s : Kernel}

theorem globals_queinit (s : Kernel) :
    s.queinit.1.toGlobals = { s.toGlobals with nextqid := s.queinit.1.nextqid } := by
  unfold queinit
  split_ifs <;> rfl

/-- **`queinit`** sets up one more queue. -/
theorem Fresh.queinit (h : Fresh n s) (hn : n < NSEM + 2) :
    s.queinit.2 = NTHREAD + 2 * n ∧ Fresh (n + 1) s.queinit.1 := by
  have hfull : ¬ NQENT < s.nextqid := by
    rw [h.nextqid, NQENT]
    omega
  have hq : s.queinit.1.quetab = update (update s.quetab s.nextqid
      ⟨MAXKEY, s.nextqid + 1, EMPTY⟩) (s.nextqid + 1) ⟨MINKEY, EMPTY, s.nextqid⟩ := by
    rw [Kernel.queinit, if_neg hfull]
    funext i
    simp only [setNext, setPrev, setKey, modQue, store, update_apply]
    split_ifs <;> rfl
  have hold : ∀ i < n, NTHREAD + 2 * (i : Int) ≠ s.nextqid + 1 ∧
      NTHREAD + 2 * (i : Int) ≠ s.nextqid ∧
      NTHREAD + 2 * (i : Int) + 1 ≠ s.nextqid + 1 ∧ NTHREAD + 2 * (i : Int) + 1 ≠ s.nextqid := by
    intro i hi
    rw [h.nextqid]
    omega
  refine ⟨?_, ?_, fun i hi => ?_, fun i hi => ?_⟩
  · rw [Kernel.queinit, if_neg hfull]
    exact h.nextqid
  · rw [Kernel.queinit, if_neg hfull]
    change s.nextqid + 2 = _
    rw [h.nextqid]
    push_cast
    omega
  · rw [hq]
    rcases Nat.lt_succ_iff_lt_or_eq.mp hi with hi | rfl
    · rw [update_of_ne (hold i hi).1, update_of_ne (hold i hi).2.1, h.head i hi]
    · rw [← h.nextqid, update_of_ne (by omega), update_self]
  · rw [hq]
    rcases Nat.lt_succ_iff_lt_or_eq.mp hi with hi | rfl
    · rw [update_of_ne (hold i hi).2.2.1, update_of_ne (hold i hi).2.2.2, h.tail i hi]
    · rw [← h.nextqid, update_self]

/-- The state after `n` calls of `queinit` in a row. -/
def queinits (s : Kernel) (n : Nat) : Kernel := (fun s => s.queinit.1)^[n] s

/-- `n` calls of `queinit` in a row stay inside the table: a queue that is returned passes the test
of its users, its nodes are none of a thread's or of another queue's, and a call that finds no room
for two nodes fails and changes nothing. -/
structure QueuesInside (s : Kernel) (n : Nat) : Prop where
  valid : ∀ i < n, (s.queinits i).queinit.2 ≠ SYSERR → ¬ isbadqid (s.queinits i).queinit.2
  range : ∀ i < n, (s.queinits i).queinit.2 ≠ SYSERR →
    NTHREAD ≤ (s.queinits i).queinit.2 ∧ (s.queinits i).queinit.2 + 1 < NQENT
  apart : ∀ i < n, (s.queinits i).queinit.2 ≠ SYSERR → ∀ j < i,
    (s.queinits j).queinit.2 ≠ (s.queinits i).queinit.2 ∧
    (s.queinits j).queinit.2 ≠ (s.queinits i).queinit.2 + 1 ∧
    (s.queinits j).queinit.2 + 1 ≠ (s.queinits i).queinit.2
  full : ∀ i < n, NQENT < (s.queinits i).nextqid + 2 →
    (s.queinits i).queinit = (s.queinits i, SYSERR)

theorem Fresh.queinits (h : Fresh 0 s) (hn : n ≤ NSEM + 2) : Fresh n (s.queinits n) := by
  induction n with
  | zero => exact h
  | succ n ih =>
    rw [Kernel.queinits, Function.iterate_succ_apply']
    exact ((ih (by omega)).queinit (by omega)).2

theorem Fresh.queinits_id (h : Fresh 0 s) (hn : n < NSEM + 2) :
    (s.queinits n).queinit.2 = NTHREAD + 2 * n := ((h.queinits hn.le).queinit hn).1

/-- The test of `queinit` lets one more queue pass than the table has room for. -/
theorem Fresh.queinits_full (h : Fresh 0 s) :
    (s.queinits (NSEM + 2)).nextqid = NQENT ∧ (s.queinits (NSEM + 2)).queinit.2 = NQENT := by
  have hnext : (s.queinits (NSEM + 2)).nextqid = NQENT := (h.queinits le_rfl).nextqid
  refine ⟨hnext, ?_⟩
  rw [Kernel.queinit, if_neg (by rw [hnext]; exact lt_irrefl _)]
  exact hnext

/-- **`queinit` stays inside the table** exactly while there are no more calls than queues. -/
theorem queuesInside_iff (h : s.nextqid = NTHREAD) : s.QueuesInside n ↔ n ≤ NSEM + 2 := by
  have h₀ : Fresh 0 s := ⟨h, by simp, by simp⟩
  constructor
  · intro hin
    by_contra hn
    obtain ⟨hnext, hid⟩ := h₀.queinits_full
    have hfull := hin.full (NSEM + 2) (by omega) (by rw [hnext]; omega)
    rw [hfull] at hid
    exact absurd hid (by decide : SYSERR ≠ NQENT)
  · intro hn
    have hNQ : NQENT = NTHREAD + 2 * (NSEM + 2 : Nat) := rfl
    have hid : ∀ i < n, (s.queinits i).queinit.2 = NTHREAD + 2 * i :=
      fun i hi => h₀.queinits_id (by omega)
    refine ⟨fun i hi _ => ?_, fun i hi _ => ?_, fun i hi _ j hj => ?_, fun i hi hlt => ?_⟩
    · rw [hid i hi]
      exact IsQueue.not_isbadqid ⟨i, by omega, rfl⟩
    · rw [hid i hi]
      omega
    · rw [hid i hi, hid j (by omega)]
      omega
    · rw [(h₀.queinits (by omega)).nextqid] at hlt
      omega

/-- As many queues as `sysinit` makes. -/
theorem queuesInside_nullinit : (nullinit 0 0 0 fun _ => ⟨0, 0⟩).QueuesInside (NSEM + 2) :=
  (queuesInside_iff rfl).mpr le_rfl

/-- The call after these returns `NQENT`, which no user of a queue accepts. -/
theorem queuesInside_broken : ¬ (nullinit 0 0 0 fun _ => ⟨0, 0⟩).QueuesInside (NSEM + 3) ∧
    ((nullinit 0 0 0 fun _ => ⟨0, 0⟩).queinits (NSEM + 2)).queinit.2 = NQENT ∧ isbadqid NQENT := by
  have h₀ : Fresh 0 (nullinit 0 0 0 fun _ => ⟨0, 0⟩) := ⟨rfl, by simp, by simp⟩
  have hid := h₀.queinits_full.2
  refine ⟨fun hin => ?_, hid, by decide⟩
  have hvalid := hin.valid (NSEM + 2) (by omega) (by rw [hid]; decide)
  rw [hid] at hvalid
  exact hvalid (by decide)

theorem Fresh.congr {s' : Kernel} (h : Fresh n s) (hq : s'.quetab = s.quetab)
    (hn : s'.nextqid = s.nextqid) : Fresh n s' :=
  ⟨hn ▸ h.nextqid, hq ▸ h.head, hq ▸ h.tail⟩

theorem globals_seminit (n : Nat) (s : Kernel) :
    (seminit n s).toGlobals =
      { s.toGlobals with semtab := (seminit n s).semtab, nextqid := (seminit n s).nextqid } := by
  induction n with
  | zero => rfl
  | succ n ih =>
    simp only [seminit, modSem]
    rw [globals_queinit, ih]

/-- The loop of `sysinit` gives each semaphore its queue. -/
theorem Fresh.seminit (h : Fresh 0 s) (hn : n ≤ NSEM) :
    Fresh n (seminit n s) ∧ ∀ i < n, ((Kernel.seminit n s).semtab i).queue = NTHREAD + 2 * i := by
  induction n with
  | zero => exact ⟨h, by simp⟩
  | succ n ih =>
    obtain ⟨hfresh, hsem⟩ := ih (by omega)
    obtain ⟨hid, hfresh'⟩ := hfresh.queinit (by omega)
    refine ⟨hfresh'.congr rfl rfl, fun i hi => ?_⟩
    simp only [Kernel.seminit, modSem, store_eq_update]
    by_cases hin : i = n
    · subst hin
      rw [update_self, hid]
    · rw [update_of_ne hin, globals_queinit]
      exact hsem i (by omega)

section

variable (endaddr memheap maxaddr : Nat) (mem : Nat → MemBlock)

/-- `sysinit` sets up the queues and leaves the rest as it is. -/
theorem sysinit_spec : ∃ semtab nextqid,
    (sysinit endaddr memheap maxaddr mem).toGlobals =
      { (nullinit endaddr memheap maxaddr mem).toGlobals with
        semtab := semtab, nextqid := nextqid,
        readylist := NTHREAD + 2 * NSEM, sleepq := NTHREAD + 2 * (NSEM + 1 : Nat) } ∧
    (∀ i < NSEM, (semtab i).queue = NTHREAD + 2 * i) ∧
    Fresh (NSEM + 2) (sysinit endaddr memheap maxaddr mem) := by
  have hinit : Fresh 0 (nullinit endaddr memheap maxaddr mem) := ⟨rfl, by simp, by simp⟩
  obtain ⟨hfresh₀, hsem⟩ := hinit.seminit le_rfl
  have hg₀ := globals_seminit NSEM (nullinit endaddr memheap maxaddr mem)
  have hsys : sysinit endaddr memheap maxaddr mem =
      let r := (seminit NSEM (nullinit endaddr memheap maxaddr mem)).queinit
      let s := { r.1 with readylist := r.2 }
      { s.queinit.1 with sleepq := s.queinit.2, clkticks := 0 } := by
    simp only [sysinit]
  generalize seminit NSEM (nullinit endaddr memheap maxaddr mem) = s₀ at hfresh₀ hsem hg₀ hsys
  obtain ⟨hid₁, hfresh₁⟩ := hfresh₀.queinit (by omega)
  have hg₁ := s₀.globals_queinit
  have hfresh₂ : Fresh (NSEM + 1) { s₀.queinit.1 with readylist := s₀.queinit.2 } :=
    hfresh₁.congr rfl rfl
  obtain ⟨hid₃, hfresh₃⟩ := hfresh₂.queinit (by omega)
  have hg₃ := globals_queinit { s₀.queinit.1 with readylist := s₀.queinit.2 }
  simp only at hsys
  generalize ({ s₀.queinit.1 with readylist := s₀.queinit.2 } : Kernel).queinit = r at *
  refine ⟨s₀.semtab, r.1.nextqid, ?_, hsem, ?_⟩
  · rw [hsys]
    rw [hg₃]
    simp only
    rw [hg₁]
    rw [hg₀, hid₁, hid₃]
    rfl
  · rw [hsys]
    exact hfresh₃.congr rfl rfl

/-- **The state of `sysinit`** represents a state with empty queues. -/
theorem models_sysinit : Models (sysinit endaddr memheap maxaddr mem)
    ⟨(sysinit endaddr memheap maxaddr mem).toGlobals, fun _ => [],
      fun t => ((sysinit endaddr memheap maxaddr mem).quetab t).key⟩ := by
  obtain ⟨semtab, nextqid, hg, hsem, hfresh⟩ := sysinit_spec endaddr memheap maxaddr mem
  generalize sysinit endaddr memheap maxaddr mem = s at hg hfresh ⊢
  have hthr : ∀ t, t ≠ NULLTHREAD → s.thrtab t = ⟨.free, 0, 0, 0, 0, 0, 0, false, .user⟩ := by
    intro t ht
    rw [hg]
    exact if_neg ht
  have hnull : s.state NULLTHREAD = .curr ∧ (s.thrtab NULLTHREAD).prio = 0 := by
    rw [Globals.state, hg]
    exact ⟨rfl, rfl⟩
  have hcur : s.thrcurrent = NULLTHREAD := by rw [hg]; rfl
  have hstate : ∀ t, s.state t = .curr ∧ t = NULLTHREAD ∨ s.state t = .free := by
    intro t
    by_cases ht : t = NULLTHREAD
    · exact .inl ⟨ht ▸ hnull.1, ht⟩
    · right
      rw [Globals.state, hthr t ht]
  have hhome : ∀ t, s.home t = none := by
    intro t
    refine Globals.home_eq_none ?_ ?_ ?_ ?_ <;> rcases hstate t with ⟨h, -⟩ | h <;> simp [h]
  refine ⟨⟨rfl, ?_⟩, ?_, ?_⟩
  · refine ⟨?_, by simp, by simp, by simp, ?_, ?_, fun _ _ => rfl⟩
    · rintro q ⟨i, hi, rfl⟩
      exact List.isChain_pair.mpr
        ⟨congrArg QueEnt.next (hfresh.head i hi), congrArg QueEnt.prev (hfresh.tail i hi)⟩
    · rintro q ⟨i, hi, rfl⟩
      rw [hfresh.head i hi]
      exact ⟨rfl, rfl⟩
    · rintro q ⟨i, hi, rfl⟩
      rw [hfresh.tail i hi]
      exact ⟨rfl, rfl⟩
  · refine ⟨⟨by rw [hg], by rw [hg], by rw [hg]; exact hsem⟩, hcur ▸ isTid_null, ?_, ?_, ?_,
      List.Pairwise.nil, .inl hnull.1, ?_, by rw [hg]; rfl⟩
    · exact ⟨by simp, by simp, fun t _ q _ => by rw [hhome t]; simp⟩
    · intro t _ hw
      rcases hstate t with ⟨h, -⟩ | h <;> simp [Globals.state] at h hw <;> simp [h] at hw
    · intro t _ hc
      rcases hstate t with h | h
      · exact h.2.trans hcur.symm
      · simp [h] at hc
    · intro t _
      by_cases ht : t = NULLTHREAD
      · rw [ht, hnull.2]
        decide
      · rw [hthr t ht]
        decide
  · change s.state s.thrcurrent = .curr
    rw [hcur]
    exact hnull.1

end

end Kernel

/-! ## Every operation other than `kill` -/

/-- The steps that have nothing to do with `kill`, by callers that keep to the rules. -/
def Kernel.Regular (s : Kernel) (op : Op) : Prop := s.Admissible op ∧ ¬ s.Kills op

instance (s : Kernel) (op : Op) : Decidable (s.Regular op) := inferInstanceAs (Decidable (_ ∧ _))

theorem Models.regular {s : Kernel} {v : Sched} (M : Models s v) {op : Op} (h : s.Regular op) :
    ∃ v', v.Step op (s.call op).2 v' ∧ Models (s.exec op) v' := M.exec h.1 (M.orderly h.2)

/-- Every run of regular steps from the state of `sysinit` represents a sound state. -/
theorem models_of_run {endaddr memheap maxaddr : Nat} {mem : Nat → MemBlock} {ops : List Op}
    {s : Kernel} (r : (kernelMachine.restrict Kernel.Regular).Run
      (Kernel.sysinit endaddr memheap maxaddr mem) ops s) : ∃ v, Models s v := by
  refine r.invariant (I := fun s => ∃ v, Models s v) ?_ ⟨_, Kernel.models_sysinit ..⟩
  rintro s op ⟨v, M⟩ ⟨-, hreg⟩
  obtain ⟨v', -, M'⟩ := M.regular hreg
  exact ⟨v', M'⟩

/-- **Well-formedness is kept by every operation other than `kill`**: by one step from any
well-formed state, and so by every run from the state of `sysinit`. -/
theorem wellFormed_exec_and_run :
    (∀ (s : Kernel) (op : Op), s.WellFormed → s.Settled → s.Regular op →
      (s.exec op).WellFormed ∧ (s.exec op).Settled) ∧
    ∀ (endaddr memheap maxaddr : Nat) (mem : Nat → MemBlock) (ops : List Op) (s : Kernel),
      (kernelMachine.restrict Kernel.Regular).Run
        (Kernel.sysinit endaddr memheap maxaddr mem) ops s →
        s.WellFormed := by
  refine ⟨fun s op W h hreg => ?_, fun _ _ _ _ _ s r => ?_⟩
  · obtain ⟨v', -, M⟩ := (W.models h).regular hreg
    exact ⟨M.wellFormed, M.settled⟩
  · obtain ⟨v, M⟩ := models_of_run r
    exact M.wellFormed

/-- A thread is created, resumed, goes to sleep for two ticks, and is woken. -/
theorem wellFormed_exec_and_run_board :
    (board.exec (.create 128 20)).WellFormed ∧
    ((kernelMachine.restrict Kernel.Regular).after board
      [.create 128 20, .cont, .resume 1, .sleep 200, .cont, .clkhandler, .clkhandler]).WellFormed :=
  have M := Kernel.models_sysinit 4096 8192 65536 fun _ => ⟨0, 0⟩
  ⟨(wellFormed_exec_and_run.1 board _ M.wellFormed M.settled (by decide)).1,
    wellFormed_exec_and_run.2 _ _ _ _ _ _ Machine.run_after⟩

end Xinu
