import Xinu.Sched.Sleep
import Xinu.System.Runs

/-!
# Timed waits

An observer notes for each thread that goes to sleep its delay and its turn, and counts the clock
ticks since. A sleeping thread is made ready by the tick that its delay names, and threads that are
due together in the order in which they went to sleep, in every run in which no tick finds a thread
without delay in front of one with a delay left. In a run in which that happens the others are late.

## Main results

* `Schedule.step`: every punctual step keeps the deadlines
* `sleep_on_time`: when the sleeping threads are made ready
* `deltaQueue_refines_map`: what `insertd` and `unsleep` do to the map
-/

namespace Xinu

set_option maxRecDepth 8000

open List Function KeyedList

/-- The threads on the sleep queue. -/
def Kernel.sleepers (s : Kernel) : List Int := s.queue s.sleepq

/-- The threads that a clock tick makes ready. -/
def Kernel.wakes (s : Kernel) : List Int := (s.exec .clkhandler).readied.drop s.readied.length

/-- What an observer of the sleep queue has noted. -/
structure SleepLog where
  /-- the delay with which each thread last went to sleep -/
  delay : Int → Int := fun _ => 0
  /-- the clock ticks since -/
  age : Int → Nat := fun _ => 0
  /-- when it went to sleep, as a position among all that did -/
  turn : Int → Nat := fun _ => 0
  count : Nat := 0

namespace SleepLog

/-- The caller of `op` is now on the sleep queue, with the delay `d`, unless it did not block. -/
def note (s : Kernel) (op : Op) (d : Int) (log : SleepLog) : SleepLog :=
  if (s.exec op).state s.thrcurrent = .sleep ∨ (s.exec op).state s.thrcurrent = .tmout then
    { delay := store log.delay s.thrcurrent d
      age := store log.age s.thrcurrent 0
      turn := store log.turn s.thrcurrent log.count
      count := log.count + 1 }
  else log

/-- What the observer notes of the step `op`. -/
def observe (s : Kernel) (op : Op) (log : SleepLog) : SleepLog :=
  match op with
  | .clkhandler => { log with age := fun t => log.age t + 1 }
  | .sleep ms => log.note s op (ms * CLKTICKS_PER_SEC % 2 ^ 32 / 1000 : Nat)
  | .recvtime d => log.note s op d
  | _ => log

/-- The time a thread still has to sleep. -/
def left (log : SleepLog) (t : Int) : Int := log.delay t - log.age t

end SleepLog

/-- The step is not a tick that finds a thread with nothing left to sleep in front of one that has.
-/
def Kernel.Punctual (s : Kernel) (op : Op) : Prop :=
  op = .clkhandler → (∀ t ∈ s.sleepers.head?, 0 < (s.quetab t).key) ∨
    ∀ t ∈ s.sleepers, (s.quetab t).key = 0
deriving Decidable

/-- The kernel with the observer of the sleep queue, in orderly and punctual runs. -/
def sleepMachine : Machine (Kernel × SleepLog) Op where
  enabled p op := kernelMachine.enabled p.1 op ∧ p.1.Orderly op ∧ p.1.Punctual op
  next p op := (p.1.exec op, p.2.observe p.1 op)

/-- What holds of the sleeping threads and the log. -/
structure OnTime (s : Kernel) (log : SleepLog) : Prop where
  /-- nobody has slept for its whole delay, or for a tick if it has none -/
  early : ∀ t ∈ s.sleepers, log.age t < max (log.delay t) 1
  /-- the next tick makes those ready for which it completes the delay -/
  due : ∀ t, t ∈ s.wakes ↔ t ∈ s.sleepers ∧ log.age t + 1 = max (log.delay t) 1
  /-- in the order in which they went to sleep -/
  order : s.wakes.Pairwise fun t u => log.turn t < log.turn u

/-! ## Deadlines -/

/-- The sleep queue keeps the deadlines of the log. -/
structure Schedule (v : Sched) (log : SleepLog) : Prop where
  keeps : Keeps v.key v.sleepers log.left
  inOrder : InOrder log.left log.turn v.sleepers
  early : ∀ t ∈ v.sleepers, log.age t < max (log.delay t) 1
  turn : ∀ t ∈ v.sleepers, log.turn t < log.count

section

variable {s : Kernel} {v v' : Sched} {log : SleepLog} {op : Op} {new : List Int}

theorem Models.sleepers (M : Models s v) : s.sleepers = v.sleepers := by
  rw [Kernel.sleepers, show s.sleepq = v.sleepq from congrArg Globals.sleepq M.rep.globals,
    M.queue M.sound.layout.isQueue_sleepq, Sched.sleepers]

theorem Models.key_sleeper (M : Models s v) {t : Int} (ht : t ∈ v.sleepers) :
    (s.quetab t).key = v.key t :=
  M.rep.links.key t (M.sound.isTid_of_sleeper ht)

/-- The observer notes nothing of a step after which its caller does not sleep. -/
theorem SleepLog.observe_eq_self (M : Models s v) (M' : Models (s.exec op) v')
    (hop : op ≠ .clkhandler) (hcur : v.thrcurrent ∉ v'.sleepers) : log.observe s op = log := by
  have hnote : ∀ d, log.note s op d = log := by
    intro d
    refine if_neg fun h => hcur ?_
    rw [M.rep.thrcurrent, Globals.state, M'.rep.thrtab] at h
    exact (M'.sound.mem_sleepers M.sound.thrcurrent).mpr h
  cases op with
  | clkhandler => exact absurd rfl hop
  | sleep ms => exact hnote _
  | recvtime d => exact hnote _
  | _ => rfl

/-- The observer notes that the caller has gone to sleep. -/
theorem SleepLog.observe_insert (M : Models s v) (M' : Models (s.exec op) v') {d : Int}
    (hop : (∃ ms : Nat, op = .sleep ms ∧ d = (ms * CLKTICKS_PER_SEC % 2 ^ 32 / 1000 : Nat)) ∨
      op = .recvtime d) (hcur : v.thrcurrent ∈ v'.sleepers) :
    log.observe s op =
      { delay := update log.delay v.thrcurrent d, age := update log.age v.thrcurrent 0,
        turn := update log.turn v.thrcurrent log.count, count := log.count + 1 } := by
  have hnote : log.note s op d =
      { delay := update log.delay v.thrcurrent d, age := update log.age v.thrcurrent 0,
        turn := update log.turn v.thrcurrent log.count, count := log.count + 1 } := by
    have hst := (M'.sound.mem_sleepers M.sound.thrcurrent).mp hcur
    rw [Globals.state, ← M'.rep.thrtab, ← M.rep.thrcurrent, ← Globals.state] at hst
    rw [SleepLog.note, if_pos hst, store_eq_update, store_eq_update, store_eq_update,
      M.rep.thrcurrent]
  rcases hop with ⟨ms, rfl, rfl⟩ | rfl <;> exact hnote

/-- What a punctual clock tick does: all deadlines come closer, and those go that are due, all with
the same time left. -/
theorem Schedule.tick (C : Schedule v log) (hp : (∀ t ∈ v.sleepers.head?, 0 < v.key t) ∨
      ∀ t ∈ v.sleepers, v.key t = 0) :
    Keeps (addAt v.key v.sleepers.head? (-1))
        (v.sleepers.dropWhile fun t => decide (addAt v.key v.sleepers.head? (-1) t ≤ 0))
        (fun t => log.left t - 1) ∧
      (∀ t ∈ v.sleepers, t ∈ v.expired ↔ log.age t + 1 = max (log.delay t) 1) ∧
      ∃ c, ∀ t ∈ v.expired, log.left t = c := by
  have hearly := C.early
  rcases hp with hhead | hzero
  · obtain ⟨hkeeps, hdue⟩ := C.keeps.tick hhead
    have hpos : ∀ t ∈ v.sleepers, 0 < log.left t := by
      -- the first key is part of every sum
      intro t ht
      rw [← C.keeps.due t ht]
      rcases hl : v.sleepers with _ | ⟨h, l⟩
      · rw [hl] at ht
        simp at ht
      · have hk : 0 < v.key h := hhead h (by rw [hl]; rfl)
        have hrest : 0 ≤ due v.key l t := due_nonneg (fun y hy => C.keeps.nonneg y (by
          rw [hl]
          exact mem_cons_of_mem _ hy)) t
        rw [due]
        split_ifs <;> omega
    refine ⟨hkeeps, fun t ht => (hdue t ht).trans ?_, 1, fun t ht => ?_⟩
    · have h₀ := hearly t ht
      have h₁ := hpos t ht
      unfold SleepLog.left at h₁ ⊢
      omega
    · have hmem : t ∈ v.sleepers := (takeWhile_sublist _).subset ht
      have h₀ := (hdue t hmem).mp ht
      have h₁ := hpos t hmem
      omega
  · -- everybody is due
    have hle : ∀ t ∈ v.sleepers, addAt v.key v.sleepers.head? (-1) t ≤ 0 := by
      intro t ht
      rw [addAt, hzero t ht]
      split_ifs <;> simp
    have htake : v.expired = v.sleepers :=
      takeWhile_eq_self_iff.mpr fun t ht => decide_eq_true (hle t ht)
    have hdrop : (v.sleepers.dropWhile fun t =>
        decide (addAt v.key v.sleepers.head? (-1) t ≤ 0)) = [] :=
      dropWhile_eq_nil_iff.mpr fun t ht => decide_eq_true (hle t ht)
    have hdue : ∀ t ∈ v.sleepers, log.left t = 0 := by
      intro t ht
      have hzero' : ∀ y ∈ v.sleepers, v.key y = (fun _ : Int => (0 : Int)) y := hzero
      rw [← C.keeps.due t ht, due_congr hzero']
      generalize v.sleepers = l
      induction l with
      | nil => rfl
      | cons y l ih =>
        rw [due, ih]
        split_ifs <;> rfl
    refine ⟨?_, fun t ht => ?_, 0, fun t ht => hdue t (htake ▸ ht)⟩
    · rw [hdrop]
      exact ⟨nodup_nil, by simp, by simp⟩
    · have h₀ := hdue t ht
      have h₁ := hearly t ht
      unfold SleepLog.left at h₀
      rw [htake]
      simp only [ht, true_iff]
      omega

/-- **Every punctual step keeps the deadlines.** -/
theorem Schedule.step (C : Schedule v log) (M : Models s v) (M' : Models (s.exec op) v')
    (heff : SleepEffect v op v' new) (hp : s.Punctual op) : Schedule v' (log.observe s op) := by
  have hcur : v.thrcurrent ∉ v.sleepers :=
    M.sound.not_sleeper (by rw [M.running]; simp) (by rw [M.running]; simp)
  cases heff with
  | none hop hq hkey =>
    rw [SleepLog.observe_eq_self M M' hop (hq ▸ hcur)]
    refine ⟨?_, hq ▸ C.inOrder, hq ▸ C.early, hq ▸ C.turn⟩
    rw [hq]
    exact C.keeps.congr hkey fun _ _ => rfl
  | insert d hd hop hq hkey =>
    have hmem : ∀ t, t ∈ v'.sleepers ↔ t = v.thrcurrent ∨ t ∈ v.sleepers := by
      intro t
      rw [hq, mem_insertDelta]
    rw [SleepLog.observe_insert M M' hop ((hmem _).mpr (.inl rfl))]
    have hleft : SleepLog.left
        { delay := update log.delay v.thrcurrent d, age := update log.age v.thrcurrent 0,
          turn := update log.turn v.thrcurrent log.count, count := log.count + 1 } =
        update log.left v.thrcurrent d := by
      funext t
      unfold SleepLog.left
      by_cases ht : t = v.thrcurrent
      · subst ht
        simp
      · simp [ht]
    refine ⟨?_, ?_, fun t ht => ?_, fun t ht => ?_⟩
    · rw [hleft, hq]
      exact (C.keeps.insert hcur hd).congr (fun t ht => hkey t (hq ▸ ht)) fun _ _ => rfl
    · rw [hleft, hq]
      exact C.inOrder.insert C.keeps hcur C.turn
    · rcases (hmem t).mp ht with rfl | ht
      · simp
      · have hne : t ≠ v.thrcurrent := fun h => hcur (h ▸ ht)
        simpa [hne] using C.early t ht
    · rcases (hmem t).mp ht with rfl | ht
      · simp
      · have hne : t ≠ v.thrcurrent := fun h => hcur (h ▸ ht)
        simpa [hne] using (C.turn t ht).trans (Nat.lt_succ_self _)
  | remove t ht hop hmsg hq hkey =>
    have hsub : ∀ u ∈ v'.sleepers, u ∈ v.sleepers := fun u hu =>
      mem_of_mem_erase (hq ▸ hu : u ∈ v.sleepers.erase t)
    rw [SleepLog.observe_eq_self M M' hop fun h => hcur (hsub _ h)]
    refine ⟨?_, ?_, fun u hu => C.early u (hsub u hu), fun u hu => C.turn u (hsub u hu)⟩
    · rw [hq]
      exact (C.keeps.remove ht).congr (fun u hu => hkey u (hq ▸ hu)) fun _ _ => rfl
    · rw [hq]
      exact C.inOrder.sublist erase_sublist
  | tick hop hnew hq hkey =>
    subst hop
    have hsub : ∀ u ∈ v'.sleepers, u ∈ v.sleepers := fun u hu =>
      (dropWhile_sublist _).subset (hq ▸ hu)
    obtain ⟨hkeeps, hdue, -⟩ := C.tick <| (hp rfl).imp
      (fun h t ht => by
        rw [← M.key_sleeper (mem_of_mem_head? ht)]
        exact h t (M.sleepers ▸ ht))
      fun h t ht => by
        rw [← M.key_sleeper ht]
        exact h t (M.sleepers ▸ ht)
    have hleft : ∀ t, SleepLog.left { log with age := fun t => log.age t + 1 } t =
        log.left t - 1 := by
      intro t
      unfold SleepLog.left
      dsimp only
      omega
    refine ⟨?_, ?_, fun t ht => ?_, fun t ht => C.turn t (hsub t ht)⟩
    · rw [hq]
      exact hkeeps.congr (fun t ht => hkey t (hq ▸ ht)) fun t _ => hleft t
    · have hmono : InOrder (SleepLog.left { log with age := fun t => log.age t + 1 }) log.turn
          v.sleepers := by
        refine C.inOrder.imp fun {a b} hab => ?_
        rw [hleft, hleft]
        omega
      rw [hq]
      exact hmono.sublist (dropWhile_sublist _)
    · -- whoever stays was not due
      have hnot : t ∉ v.expired := by
        intro hexp
        have hnd : (v.expired ++ v'.sleepers).Nodup := by
          rw [hq]
          exact (takeWhile_append_dropWhile).symm ▸ M.sound.nodup_sleepers
        exact disjoint_of_nodup_append hnd hexp ht
      have h₀ := C.early t (hsub t ht)
      have h₁ := mt (hdue t (hsub t ht)).mpr hnot
      change log.age t + 1 < max (log.delay t) 1
      omega

/-- The deadlines say when the threads are made ready. -/
theorem Schedule.onTime (C : Schedule v log) (M : Models s v) (Ctx : v.Contexts)
    (hp : s.Punctual .clkhandler) : OnTime s log := by
  have horderly : s.Orderly .clkhandler := ⟨⟨fun _ h => h, trivial⟩, by rintro ⟨⟩⟩
  obtain ⟨v', hstep, M', -⟩ := M.orderly_step Ctx horderly
  obtain ⟨new, hnew, heff⟩ := hstep.sleep M.sound
  have hwakes : s.wakes = v.expired := by
    cases heff with
    | none hop => exact absurd rfl hop
    | insert d hd hop => simp at hop
    | remove t ht hop => exact absurd rfl hop
    | tick hop heq hq hkey =>
      rw [Kernel.wakes, show (s.exec .clkhandler).readied = v'.readied from
        congrArg Globals.readied M'.rep.globals, hnew, show s.readied = v.readied from
        congrArg Globals.readied M.rep.globals, drop_left, heq]
  obtain ⟨-, hdue, c, hsame⟩ := C.tick <| (hp rfl).imp
    (fun h t ht => by
      rw [← M.key_sleeper (mem_of_mem_head? ht)]
      exact h t (M.sleepers ▸ ht))
    fun h t ht => by
      rw [← M.key_sleeper ht]
      exact h t (M.sleepers ▸ ht)
  have hsub : v.expired.Sublist v.sleepers := takeWhile_sublist _
  refine ⟨?_, fun t => ?_, ?_⟩
  · rw [M.sleepers]
    exact C.early
  · rw [hwakes, M.sleepers]
    exact ⟨fun h => ⟨hsub.subset h, (hdue t (hsub.subset h)).mp h⟩, fun h => (hdue t h.1).mpr h.2⟩
  · rw [hwakes]
    -- all that are due have the same time left
    refine (C.inOrder.sublist hsub).imp_of_mem fun {a b} ha hb hab => ?_
    have h₁ := hsame a ha
    have h₂ := hsame b hb
    omega

end

/-- **Timed waits expire at the right tick.** In every orderly run in which no tick finds a thread
with nothing left to sleep in front of one that has, and at every state of it in which a tick would
not find that either: no thread sleeps any more that has slept for its delay, the next tick makes
exactly those ready for which it is the tick that the delay names, counted from when they went to
sleep, and it makes them ready in the order in which they went to sleep. -/
theorem sleep_on_time {endaddr memheap maxaddr : Nat} {mem : Nat → MemBlock} {ops : List Op}
    {p : Kernel × SleepLog}
    (r : sleepMachine.Run (Kernel.sysinit endaddr memheap maxaddr mem, {}) ops p)
    (hp : p.1.Punctual .clkhandler) : OnTime p.1 p.2 := by
  obtain ⟨v₀, M₀, C₀, hq₀⟩ := Kernel.orderly_sysinit endaddr memheap maxaddr mem
  have hnil : v₀.sleepers = [] := hq₀ _
  obtain ⟨v, M, C, D⟩ := r.invariant
    (I := fun p => ∃ v, Models p.1 v ∧ v.Contexts ∧ Schedule v p.2)
    (by
      rintro ⟨s, log⟩ op ⟨v, M, C, D⟩ ⟨-, h, hp⟩
      obtain ⟨v', hstep, M', C'⟩ := M.orderly_step C h
      obtain ⟨new, -, heff⟩ := hstep.sleep M.sound
      exact ⟨v', M', C', D.step M M' heff hp⟩)
    ⟨v₀, M₀, C₀, by
      refine ⟨?_, ?_, ?_, ?_⟩ <;> rw [hnil]
      · exact ⟨nodup_nil, by simp, by simp⟩
      · exact List.Pairwise.nil
      · simp
      · simp⟩
  exact D.onTime M C hp

instance (p : Kernel × SleepLog) (op : Op) : Decidable (sleepMachine.enabled p op) :=
  inferInstanceAs (Decidable (_ ∧ _ ∧ _))

/-- Threads 1 and 2 go to sleep, for two ticks and for three, and a tick goes by. -/
def twoSleepers : Kernel × SleepLog :=
  sleepMachine.after (board, {})
    [.create 128 20, .cont, .create 128 10, .cont, .resume 1, .sleep 200, .cont, .resume 2,
      .recvtime 3, .cont, .clkhandler]

theorem sleep_on_time_twoSleepers : twoSleepers.1.sleepers = [1, 2] ∧
    twoSleepers.1.wakes = [1] ∧ OnTime twoSleepers.1 twoSleepers.2 := by
  have r : sleepMachine.Run (board, {}) _ twoSleepers := Machine.run_after
  exact ⟨by decide, by decide, sleep_on_time r (by decide)⟩

/-- Thread 1 goes to sleep for one tick, and then thread 2 waits for a message for no time at all.
-/
def sleepAndPoll : Kernel × SleepLog :=
  sleepMachine.after (board, {})
    [.create 128 20, .cont, .create 128 10, .cont, .resume 1, .sleep 100, .cont, .resume 2,
      .recvtime 0, .cont]

/-- **A wait without delay makes the others late**: the tick that thread 1 waits for makes only
thread 2 ready. -/
theorem sleepAndPoll_not_onTime : sleepMachine.Run (board, {})
      [.create 128 20, .cont, .create 128 10, .cont, .resume 1, .sleep 100, .cont, .resume 2,
        .recvtime 0, .cont] sleepAndPoll ∧
    1 ∈ sleepAndPoll.1.sleepers ∧ sleepAndPoll.2.age 1 + 1 = max (sleepAndPoll.2.delay 1) 1 ∧
    sleepAndPoll.1.wakes = [2] ∧ ¬ OnTime sleepAndPoll.1 sleepAndPoll.2 := by
  have r : sleepMachine.Run (board, {}) _ sleepAndPoll := Machine.run_after
  have hmem : 1 ∈ sleepAndPoll.1.sleepers := by decide
  have hdue : sleepAndPoll.2.age 1 + 1 = max (sleepAndPoll.2.delay 1) 1 := by decide
  have hwakes : sleepAndPoll.1.wakes = [2] := by decide
  refine ⟨r, hmem, hdue, hwakes, fun h => ?_⟩
  have := (h.due 1).mpr ⟨hmem, hdue⟩
  rw [hwakes] at this
  simp at this

/-! ## The queue as a map -/

/-- The list `l` is threaded on the queue `q`, and no key of it is negative. -/
structure DeltaQueue (s : Kernel) (q : Int) (l : List Int) : Prop extends
    Threads s.quetab q l where
  isQueue : IsQueue q
  nonneg : ∀ t ∈ l, 0 ≤ (s.quetab t).key

/-- The map that a delta queue stands for: each member, with the sum of the keys up to it. -/
def Kernel.ticksLeft (s : Kernel) (l : List Int) (t : Int) : Option Int :=
  if t ∈ l then some (due (fun i => (s.quetab i).key) l t) else none

theorem Kernel.ticksLeft_eq {s : Kernel} {l : List Int} {D : Int → Int}
    (h : Keeps (fun i => (s.quetab i).key) l D) (t : Int) :
    s.ticksLeft l t = if t ∈ l then some (D t) else none := by
  unfold Kernel.ticksLeft
  split_ifs with ht
  · rw [h.due t ht]
  · rfl

/-- `unsleep` gives the delay of a member to the one behind it and takes the member off. -/
theorem Threads.unsleep {s : Kernel} {q t : Int} {pre post : List Int}
    (h : Threads s.quetab q (pre ++ t :: post)) (hq : IsQueue q)
    (hst : s.state t = .sleep ∨ s.state t = .tmout) :
    (s.unsleep t).2 = OK ∧ Threads (s.unsleep t).1.quetab q (pre ++ post) ∧
      ∀ i, ((s.unsleep t).1.quetab i).key =
        addAt (fun i => (s.quetab i).key) post.head? (s.quetab t).key i := by
  rw [h.unsleep_eq hq hst]
  generalize hs₁ : post.head?.elim s _ = s₁
  have hkept : (∀ i, (s₁.quetab i).next = (s.quetab i).next) ∧
      (∀ i, (s₁.quetab i).prev = (s.quetab i).prev) ∧ ∀ i, (s₁.quetab i).key =
        addAt (fun i => (s.quetab i).key) post.head? (s.quetab t).key i := by
    subst hs₁
    cases post with
    | nil => exact ⟨fun _ => rfl, fun _ => rfl, fun _ => rfl⟩
    | cons b post =>
      refine ⟨fun i => s.next_setKey .., fun i => s.prev_setKey .., fun i => ?_⟩
      rw [head?_cons, Option.elim_some, Kernel.key_setKey, addAt]
      rcases eq_or_ne i b with rfl | hib
      · rw [if_pos rfl, if_pos rfl]
      · rw [if_neg hib, if_neg fun he => hib (Option.some.inj he).symm]
  obtain ⟨hnext₁, hprev₁, hkey₁⟩ := hkept
  have h₁ : Threads s₁.quetab q (pre ++ t :: post) :=
    ⟨h.linked.congr (fun i _ => hnext₁ i) fun i _ => hprev₁ i, h.range, h.nodup⟩
  exact ⟨rfl, (h₁.unlink hq (s₁.next_getitem t) (s₁.prev_getitem t)).2.2,
    fun i => (s₁.key_getitem t i).trans (hkey₁ i)⟩

/-- **A delta queue refines a map** from threads to the ticks they have left. `insertd` adds a
thread to it, behind all that are due no later, and `unsleep` takes one out; what the others have
left, and their order, stays. -/
theorem deltaQueue_refines_map {s : Kernel} {q : Int} {l : List Int} (h : DeltaQueue s q l)
    (t : Int) :
    (∀ k, ¬ s.isbadtid t → t ∉ l → 0 ≤ k → (s.insertd t q k).2 = OK ∧ ∃ pre post,
      l = pre ++ post ∧ (∀ u ∈ pre, ∀ d ∈ s.ticksLeft l u, d ≤ k) ∧
      (∀ u ∈ post, ∀ d ∈ s.ticksLeft l u, k < d) ∧
      DeltaQueue (s.insertd t q k).1 q (pre ++ t :: post) ∧
      (s.insertd t q k).1.ticksLeft (pre ++ t :: post) = update (s.ticksLeft l) t (some k)) ∧
    (t ∈ l → s.state t = .sleep ∨ s.state t = .tmout → (s.unsleep t).2 = OK ∧
      DeltaQueue (s.unsleep t).1 q (l.erase t) ∧
      (s.unsleep t).1.ticksLeft (l.erase t) = update (s.ticksLeft l) t none) := by
  have hD : KeyedList.Keeps (fun i => (s.quetab i).key) l _ := keeps_due h.nodup h.nonneg
  refine ⟨fun k hbad hnot hk => ?_, fun hin hst => ?_⟩
  · obtain ⟨hok, -, hnext, hprev, hkey⟩ := h.insertd h.isQueue hbad hnot (fun _ _ => rfl) k
    have hD' := (hD.insert hnot hk).congr (fun u _ => hkey u) fun _ _ => rfl
    obtain ⟨hpre, hpost⟩ := deltaSplit_due hD.nodup hD.nonneg
    have hsplit := deltaSplit_append (fun i => (s.quetab i).key) l k
    have htid : IsTid t := by
      unfold Kernel.isbadtid at hbad
      unfold IsTid
      omega
    have hread : ∀ u, ∀ d ∈ s.ticksLeft l u, due (fun i => (s.quetab i).key) l u = d := by
      intro u d hd
      unfold Kernel.ticksLeft at hd
      split_ifs at hd
      · exact Option.some.inj hd
      · cases hd
    refine ⟨hok, _, _, hsplit.symm, fun u hu d hd => hread u d hd ▸ hpre u hu,
      fun u hu d hd => hread u d hd ▸ hpost u hu, ⟨?_, h.isQueue, hD'.nonneg⟩, ?_⟩
    · refine Threads.splice h.isQueue ?_ htid ?_ hnext hprev <;> rw [hsplit]
      · exact h.toThreads
      · exact hnot
    · funext u
      refine (Kernel.ticksLeft_eq hD' u).trans ?_
      rcases eq_or_ne u t with rfl | hne
      · simp
      · simp [hne, Kernel.ticksLeft]
  · obtain ⟨pre, post, rfl⟩ := append_of_mem hin
    obtain ⟨hok, hT, hkey⟩ := h.toThreads.unsleep h.isQueue hst
    have hD' := hD.remove_append.congr (fun u _ => hkey u) fun _ _ => rfl
    have hnot : t ∉ pre ++ post := (nodup_cons.mp (perm_middle.nodup_iff.mp h.nodup)).1
    rw [mem_append, not_or] at hnot
    rw [erase_append_right _ hnot.1, erase_cons_head]
    refine ⟨hok, ⟨hT, h.isQueue, hD'.nonneg⟩, ?_⟩
    funext u
    rw [Kernel.ticksLeft_eq hD']
    rcases eq_or_ne u t with rfl | hne
    · simp [hnot]
    · simp [hne, Kernel.ticksLeft]

theorem deltaQueue_refines_map_twoSleepers : twoSleepers.1.ticksLeft [1, 2] 2 = some 2 ∧
    (twoSleepers.1.unsleep 1).1.ticksLeft [2] = update (twoSleepers.1.ticksLeft [1, 2]) 1 none := by
  have h : DeltaQueue twoSleepers.1 twoSleepers.1.sleepq [1, 2] :=
    ⟨⟨by unfold DoublyLinked.Linked; decide, by decide, by decide⟩,
      ⟨101, by decide, by decide⟩, by decide⟩
  exact ⟨by decide, ((deltaQueue_refines_map h 1).2 (by simp) (by decide)).2.2⟩

end Xinu
