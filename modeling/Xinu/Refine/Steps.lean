import Xinu.Refine.Calls

/-!
# Every step refines its script

The remaining calls: sleeping and the clock interrupt, messages, killing, and going on with a
call. Together they show that whatever a step of the kernel does to the links of the queue table,
it does to the lists.

## Main results

* `Rep.doze`, `Rep.unsleep`, `Rep.clktick`, `Rep.send`: the parts of the calls
* `Rep.call`: every step refines its script
-/

namespace Xinu

open Function KeyedList Xinu.Rep Globals

theorem Threads.unsleep_eq {s : Kernel} {q t : Int} {pre post : List Int}
    (h : Threads s.quetab q (pre ++ t :: post)) (hq : IsQueue q)
    (hst : s.state t = .sleep ∨ s.state t = .tmout) :
    s.unsleep t = (((post.head?.elim s fun b =>
      s.setKey b ((s.quetab b).key + (s.quetab t).key)).getitem t).1, OK) := by
  have htid := h.range t (by simp)
  have hbad : ¬ s.isbadtid t := by
    rintro (hge | hneg | hfree)
    · exact absurd htid.2 (not_lt.mpr hge)
    · exact absurd htid.1 (not_le.mpr hneg)
    · rcases hst with hs | hs <;> simp [state, hfree] at hs
  have hasleep : ¬ ((s.thrtab t).state ≠ .sleep ∧ (s.thrtab t).state ≠ .tmout) :=
    fun hno => hst.elim hno.1 hno.2
  have hnext := (h.unlink hq (s.next_getitem t) (s.prev_getitem t)).2.1
  rw [Kernel.unsleep, if_neg hbad, if_neg hasleep, hnext]
  dsimp only
  cases post with
  | nil =>
    rw [List.headD_nil, if_neg (by have := hq.le; omega)]
    rfl
  | cons b post =>
    rw [List.headD_cons, if_pos (h.range b (by simp)).2]
    rfl

namespace Rep

variable {s : Kernel} {v : Sched} {t q : Int}

/-! ## The clock -/

section

variable (R : Rep s v)
include R

/-- **The current thread goes on the sleep queue.** -/
theorem doze (S : v.Sound) (hrun : v.Running) (d : Int) (st : ThrState) :
    (s.insertd s.thrcurrent s.sleepq d).2 = OK ∧
      Rep ((s.insertd s.thrcurrent s.sleepq d).1.setState
        (s.insertd s.thrcurrent s.sleepq d).1.thrcurrent st) (v.apply (.doze d st)) := by
  have hfree : v.state v.thrcurrent ≠ .free := by
    rw [hrun]
    simp
  have h := R.insertd S.layout.isQueue_sleepq S.thrcurrent hfree
    (fun q hq => S.placed.not_mem S.thrcurrent (home_of_curr hrun) hq) d
  rw [R.thrcurrent, R.sleepq]
  refine ⟨h.1, ?_⟩
  rw [h.2.thrcurrent]
  exact h.2.setState v.thrcurrent st

theorem call_sleep (S : v.Sound) (hrun : v.Running) {ms : Nat}
    (hnull : v.thrcurrent = NULLTHREAD → ¬ s.Blocks (.sleep ms)) : Refines s v (.sleep ms) := by
  have hok : OK ≠ SYSERR := by decide
  generalize hd : ms * CLKTICKS_PER_SEC % 2 ^ 32 / 1000 = d
  by_cases hpos : 0 < d
  · obtain ⟨hins, R₁⟩ := R.doze S hrun d .sleep
    have he : v.Enabled (.doze d .sleep) :=
      ⟨hrun, fun h => hnull h (by rw [Kernel.Blocks, hd]; exact hpos), by omega, .inl rfl⟩
    have hcall : s.call (.sleep ms) = (((s.insertd s.thrcurrent s.sleepq d).1.setState
        (s.insertd s.thrcurrent s.sleepq d).1.thrcurrent .sleep).resched, .ret OK) := by
      simp only [Kernel.call, Kernel.sleep, hd, if_pos hpos, hins, if_neg hok]
    rw [Refines, hcall]
    exact ⟨_, .sleep hd.symm hpos, .cons he (R₁.resched_does (S.apply he))⟩
  · have hcall : s.call (.sleep ms) = (s.resched, .ret OK) := by
      simp only [Kernel.call, Kernel.sleep, hd, if_neg hpos]
    rw [Refines, hcall]
    exact ⟨_, .sleepZero (by omega), R.resched_does S⟩

/-- **`unsleep`** gives the delay of a thread to the one behind it and takes the thread off. -/
theorem unsleep (S : v.Sound) (ht : IsTid t) (hst : v.state t = .sleep ∨ v.state t = .tmout) :
    Rep (s.unsleep t).1 ((v.apply (.lend t)).leave t) := by
  have hq := S.layout.isQueue_sleepq
  have hmem : t ∈ v.queue v.sleepq := by
    rw [S.placed.home t ht _ hq, home]
    rcases hst with h | h <;> rw [h]
  obtain ⟨pre, post, hsplit⟩ := List.append_of_mem hmem
  have hT := R.links.threads hq
  rw [hsplit] at hT
  have hpre : t ∉ pre := fun h => (List.nodup_append.mp hT.nodup).2.2 t h t (by simp) rfl
  have hsucc : successor (v.queue v.sleepq) t = post.head? := by
    rw [hsplit, successor_append hpre]
  rw [hT.unsleep_eq hq (by rw [state, R.thrtab]; exact hst)]
  cases post with
  | nil =>
    have hlend : v.apply (.lend t) = v := by
      simp only [Sched.apply, lend, hsucc]
      congr 1
    rw [hlend]
    exact R.getitem hq hmem
  | cons b post =>
    have hb : IsTid b := hT.range b (by simp)
    have hlend : v.apply (.lend t) = { v with key := addAt v.key (some b) (v.key t) } := by
      simp only [Sched.apply, lend, hsucc, List.head?_cons]
    rw [hlend]
    refine (R.setKey hb ?_).getitem hq hmem
    rw [R.links.key b hb, R.links.key t ht]

theorem clkadvance : ∃ ticks time, Rep s.clkadvance (v.apply (.clock ticks time)) := by
  obtain ⟨g, Q, K⟩ := v
  obtain ⟨rfl, L⟩ := R
  unfold Kernel.clkadvance
  simp only
  split_ifs
  · exact ⟨_, _, rfl, L⟩
  · exact ⟨_, _, rfl, L⟩

/-- **A clock tick** brings the first sleeping thread closer and wakes those that are due. -/
theorem clktick (S : v.Sound) :
    ∃ ticks time, Does v (.clock ticks time :: v.tickEvents) s.clktick := by
  obtain ⟨ticks, time, R₁⟩ := R.clkadvance
  have he₁ : v.Enabled (.clock ticks time) := trivial
  have S₁ := S.apply he₁
  refine ⟨ticks, time, .cons he₁ ?_⟩
  rw [show v.tickEvents = (v.apply (.clock ticks time)).tickEvents from rfl]
  unfold Kernel.clktick
  generalize s.clkadvance = s₁ at R₁
  generalize v.apply (.clock ticks time) = w at R₁ S₁
  have hq := S₁.layout.isQueue_sleepq
  have he₂ : w.Enabled .tick := trivial
  have S₂ := S₁.apply he₂
  simp only [R₁.sleepq]
  rcases hl : w.queue w.sleepq with _ | ⟨h, l⟩
  · have hempty : ¬ s₁.nonempty w.sleepq := by
      rw [R₁.nonempty_iff hq, hl]
      simp
    have htick : w.apply .tick = w := by
      simp only [Sched.apply, hl]
      congr 1
    have hexp : w.expired = [] := by
      rw [Sched.expired, hl, List.takeWhile_nil]
    rw [if_neg hempty, Sched.tickEvents, hexp]
    refine does_one he₂ ?_
    rw [htick]
    exact R₁
  · have hne : s₁.nonempty w.sleepq := by
      rw [R₁.nonempty_iff hq, hl]
      simp
    have hh : IsTid h := R₁.links.range _ hq h (by rw [hl]; simp)
    have hfirst : s₁.firstid w.sleepq = h := by rw [R₁.firstid hq, hl, List.headD_cons]
    have htick : w.apply .tick = { w with key := addAt w.key (some h) (-1) } := by
      simp only [Sched.apply, hl, List.head?_cons]
    have R₂ : Rep (s₁.setKey h (s₁.firstkey w.sleepq - 1)) (w.apply .tick) := by
      rw [htick]
      refine R₁.setKey hh ?_
      rw [R₁.firstkey hq hl, sub_eq_add_neg]
    rw [if_pos hne, hfirst, R₂.sleepq]
    have hkey := R₂.firstkey hq hl
    rw [show (w.apply .tick).sleepq = w.sleepq from rfl, hkey, Sched.tickEvents]
    refine .cons he₂ ?_
    by_cases hdue : (w.apply .tick).key h ≤ 0
    · rw [if_pos hdue]
      exact R₂.wakeupLoop S₂ (R₂.links.threads hq).length_lt
    · have hexp : w.expired = [] := by
        rw [Sched.expired, hl, List.takeWhile_cons_of_neg (by simpa using hdue)]
      rw [if_neg hdue, hexp]
      exact R₂.does

theorem call_clkhandler (S : v.Sound) : Refines s v .clkhandler := by
  obtain ⟨ticks, time, h⟩ := R.clktick S
  exact ⟨_, .clkhandler, h.resched S⟩

end

/-! ## Messages -/

section

variable (R : Rep s v)
include R

/-- **`send`** leaves the message and starts a receiver that waits. -/
theorem send (S : v.Sound) (t m : Int) :
    Does v (v.sendEvents t m) (s.send t m).1 ∧
      (s.send t m).2 = if ¬ v.Live t ∨ (v.thrtab t).hasmsg = true then SYSERR else OK := by
  by_cases hbad : ¬ v.Live t ∨ (v.thrtab t).hasmsg = true
  · have hsend : s.send t m = (s, SYSERR) := by
      by_cases hb : s.isbadtid t
      · simp only [Kernel.send, if_pos hb]
      · have hmsg : (s.thrtab t).state = .free ∨ (s.thrtab t).hasmsg = true := by
          rw [R.thrtab]
          rw [R.isbadtid] at hb
          exact .inr (hbad.resolve_left hb)
        simp only [Kernel.send, if_neg hb, if_pos hmsg]
    rw [hsend, Sched.sendEvents, if_pos hbad, if_pos hbad]
    exact ⟨R.does, rfl⟩
  · have hb : ¬ s.isbadtid t := by
      rw [R.isbadtid]
      exact fun h => hbad (.inl h)
    have hmsg : ¬ ((s.thrtab t).state = .free ∨ (s.thrtab t).hasmsg = true) := by
      rw [R.thrtab]
      rintro (h | h)
      · exact hbad (.inl fun hl => hl.2 h)
      · exact hbad (.inr h)
    have R₁ := R.modThr t fun e => { e with msg := m, hasmsg := true }
    have he₁ : v.Enabled (.message t m true) := trivial
    have S₁ := S.apply he₁
    have hself : (v.apply (.message t m true)).thrtab t =
        { v.thrtab t with msg := m, hasmsg := true } := v.thrtab_modThr_self t _
    have hstate : (v.apply (.message t m true)).state t = v.state t := by
      rw [state, hself, state]
    have hlive : v.Live t := not_not.mp fun h => hbad (.inl h)
    have hlive₁ : (v.apply (.message t m true)).Live t := ⟨hlive.1, hstate ▸ hlive.2⟩
    have hst₁ : ((s.modThr t fun e => { e with msg := m, hasmsg := true }).thrtab t).state =
        v.state t := by
      rw [R₁.thrtab]
      exact hstate
    simp only [Kernel.send, if_neg hb, if_neg hmsg, hst₁]
    generalize (s.modThr t fun e => { e with msg := m, hasmsg := true }) = s₁ at R₁
    rw [Sched.sendEvents, if_neg hbad, if_neg hbad]
    by_cases hrecv : v.state t = .recv
    · obtain ⟨he, hnone⟩ := enabled_ready hlive₁ (.inr ⟨hstate.trans hrecv, by rw [hself]⟩)
      rw [if_pos hrecv, if_pos hrecv]
      exact ⟨.cons he₁ (ready_does R₁ S₁ hlive₁ he hnone true).2, rfl⟩
    rw [if_neg hrecv, if_neg hrecv]
    by_cases htmout : v.state t = .tmout
    · have he₂ : (v.apply (.message t m true)).Enabled (.lend t) := trivial
      have S₂ := S₁.apply he₂
      have R₂ := Rep.unsleep R₁ S₁ hlive.1 (.inr (hstate.trans htmout))
      have R₃ := R₂.ready S₂ hlive₁
      have he₃ : ((v.apply (.message t m true)).apply (.lend t)).Enabled (.ready t) := by
        refine ⟨hlive.1, fun h => absurd (hstate.symm.trans h) hrecv, ?_⟩
        exact .inr (.inr (.inr (.inr (hstate.trans htmout))))
      have hbad₂ : ¬ (s₁.unsleep t).1.isbadtid t := by
        rw [R₂.isbadtid, not_not]
        exact hlive₁
      rw [if_pos htmout, if_pos htmout, Kernel.ready_true _ t hbad₂]
      exact ⟨.cons he₁ (.cons he₂ (.cons he₃ (R₃.2.resched_does (S₂.apply he₃)))), rfl⟩
    · rw [if_neg htmout, if_neg htmout]
      exact ⟨does_one he₁ R₁, rfl⟩

theorem call_send (S : v.Sound) {m : Int} : Refines s v (.send t m) := by
  obtain ⟨hdoes, hret⟩ := R.send S t m
  by_cases hbad : ¬ v.Live t ∨ (v.thrtab t).hasmsg = true
  · rw [if_pos hbad] at hret
    rw [Sched.sendEvents, if_pos hbad] at hdoes
    refine ⟨[], ?_, hdoes⟩
    simp only [Kernel.call, hret]
    exact .refused hbad
  · rw [if_neg hbad] at hret
    rw [not_or, not_not, Bool.not_eq_true] at hbad
    refine ⟨_, ?_, hdoes⟩
    simp only [Kernel.call, hret]
    exact .send hbad.1 hbad.2

theorem self : s.thrtab s.thrcurrent = v.self := by
  rw [R.thrtab, R.thrcurrent, Sched.self]

theorem take : Rep (s.modThr s.thrcurrent fun e => { e with hasmsg := false })
    (v.apply (.message v.thrcurrent v.self.msg false)) := by
  rw [R.thrcurrent]
  exact R.modThr_eq v.thrcurrent _ _ rfl

theorem call_receive (S : v.Sound) (hrun : v.Running)
    (hnull : v.thrcurrent = NULLTHREAD → ¬ s.Blocks .receive) : Refines s v .receive := by
  by_cases hmsg : v.self.hasmsg = false
  · have he : v.Enabled (.block .recv) :=
      ⟨hrun, fun h => hnull h (by rw [Kernel.Blocks, R.self]; exact hmsg), .inr rfl⟩
    have hcall : s.call .receive = ((s.setState s.thrcurrent .recv).resched, .receive) := by
      simp only [Kernel.call, Kernel.receive, R.self, if_pos hmsg]
    rw [Refines, hcall]
    exact ⟨_, .receive hmsg, .cons he ((R.block S hrun .recv).resched_does (S.apply he))⟩
  · have hcall : s.call .receive = s.receiveRest := by
      simp only [Kernel.call, Kernel.receive, R.self, if_neg hmsg]
    rw [Refines, hcall, Kernel.receiveRest, R.self]
    exact ⟨_, .receiveNow (by simpa using hmsg), does_one trivial R.take⟩

theorem recvtimeRest :
    s.recvtimeRest = if v.self.hasmsg = true then
      (s.modThr s.thrcurrent fun e => { e with hasmsg := false }, .ret v.self.msg)
      else (s, .ret TIMEOUT) := by
  rw [Kernel.recvtimeRest, R.self]

theorem call_recvtime (S : v.Sound) (hrun : v.Running) {d : Int}
    (hnull : v.thrcurrent = NULLTHREAD → ¬ s.Blocks (.recvtime d)) : Refines s v (.recvtime d) := by
  have hok : OK ≠ SYSERR := by decide
  by_cases hd : d < 0
  · exact R.refused hd (by simp only [Kernel.call, Kernel.recvtime, if_pos hd])
  by_cases hmsg : v.self.hasmsg = false
  · obtain ⟨hins, R₁⟩ := R.doze S hrun d .tmout
    have he : v.Enabled (.doze d .tmout) := by
      refine ⟨hrun, fun h => hnull h ?_, by omega, .inr rfl⟩
      rw [Kernel.Blocks, R.self]
      exact ⟨by omega, hmsg⟩
    have hcall : s.call (.recvtime d) = (((s.insertd s.thrcurrent s.sleepq d).1.setState
        (s.insertd s.thrcurrent s.sleepq d).1.thrcurrent .tmout).resched, .recvtime) := by
      simp only [Kernel.call, Kernel.recvtime, if_neg hd, R.self, if_pos hmsg, hins, if_neg hok]
    rw [Refines, hcall]
    exact ⟨_, .recvtime (by omega) hmsg, .cons he (R₁.resched_does (S.apply he))⟩
  · have hmsg' : v.self.hasmsg = true := by simpa using hmsg
    have hcall : s.call (.recvtime d) = s.recvtimeRest := by
      simp only [Kernel.call, Kernel.recvtime, if_neg hd, R.self, if_neg hmsg]
    rw [Refines, hcall, R.recvtimeRest, if_pos hmsg']
    exact ⟨_, .recvtimeNow (by omega) hmsg', does_one trivial R.take⟩

theorem call_recvclr : Refines s v .recvclr := by
  have hcall : s.call .recvclr = (s.modThr s.thrcurrent fun e => { e with hasmsg := false },
      .ret (if v.self.hasmsg = true then v.self.msg else NOMSG)) := by
    simp only [Kernel.call, Kernel.recvclr, R.self]
  rw [Refines, hcall]
  exact ⟨_, .recvclr, does_one trivial R.take⟩

end

/-! ## Killing threads -/

theorem call_kill (R : Rep s v) (S : v.Sound) : Refines s v (.kill t) := by
  by_cases hbad : s.isbadtid t ∨ NULLTHREAD = t
  · refine R.refused ?_ (by simp only [Kernel.call, Kernel.kill, if_pos hbad])
    rwa [R.isbadtid] at hbad
  have hcount : s.thrcount = v.thrcount := congrArg Globals.thrcount R.globals
  have R₁ := R.thrcount (s.thrcount - 1)
  have he₁ : v.Enabled (.thrcount (v.thrcount - 1)) := trivial
  have hcall : s.call (.kill t) = if v.thrcount - 1 ≤ 1 then
      ({ s with thrcount := s.thrcount - 1 }.xdone, .kill t)
      else (({ s with thrcount := s.thrcount - 1 }.send (v.thrtab t).parent t).1, .kill t) := by
    simp only [Kernel.call, Kernel.kill, if_neg hbad, hcount, R.thrtab]
  rw [not_or, R.isbadtid, not_not] at hbad
  obtain ⟨hlive, hnull⟩ : v.Live t ∧ NULLTHREAD ≠ t := hbad
  rw [Refines, hcall]
  generalize ({ s with thrcount := s.thrcount - 1 } : Kernel) = s₁ at R₁
  rw [hcount] at R₁
  by_cases hlast : v.thrcount - 1 ≤ 1
  · rw [if_pos hlast]
    refine ⟨_, .killLast hlive hnull hlast, .cons he₁ (does_one trivial ?_)⟩
    generalize v.apply (.thrcount (v.thrcount - 1)) = w at R₁
    obtain ⟨g, Q, K⟩ := w
    obtain ⟨rfl, L⟩ := R₁
    exact ⟨rfl, L⟩
  · rw [if_neg hlast]
    exact ⟨_, .kill hlive hnull (not_le.mp hlast),
      .cons he₁ (Rep.send R₁ (S.apply he₁) (v.thrtab t).parent t).1⟩

theorem killDefault (R : Rep s v) (h : ∀ q, IsQueue q → t ∉ v.queue q) :
    Rep (s.killDefault t) (v.apply (.free t)) := (R.leave h).setState t .free

theorem killReady (R : Rep s v) (hq : IsQueue q) (ht : t ∈ v.queue q) :
    Rep (s.killReady t) (v.apply (.free t)) := (R.getitem hq ht).setState t .free

/-- `kill` behind its `send`, for a victim that is not on the sleep queue. -/
theorem killRest (R : Rep s v) (S : v.Sound) (hctx : v.self.ctx = .kill t) (ht : IsTid t)
    (hnull : t ≠ NULLTHREAD) (hsleep : v.state t ≠ .sleep) (htmout : v.state t ≠ .tmout) :
    ∃ evs, v.Script .cont evs (s.killRest t).2 ∧ Does v evs (s.killRest t).1 := by
  have hheap : s.heap = v.heap := congrArg Globals.heap R.globals
  have R₁ := R.heap (v.heap.stkfree (v.thrtab t).stkbase (v.thrtab t).stklen).1
  have he₁ : v.Enabled (.heap (v.heap.stkfree (v.thrtab t).stkbase (v.thrtab t).stklen).1) :=
    trivial
  have S₁ := S.apply he₁
  have hrest : s.killRest t = Kernel.killSwitch
      { s with heap := (v.heap.stkfree (v.thrtab t).stkbase (v.thrtab t).stklen).1 } t
      (v.state t) := by
    rw [state, ← R.thrtab, ← hheap]
    rfl
  rw [hrest]
  generalize ({ s with heap := (v.heap.stkfree (v.thrtab t).stkbase (v.thrtab t).stklen).1 } :
    Kernel) = s₁ at R₁
  -- a victim in one of the states without a queue
  have hoff : (v.state t = .susp ∨ v.state t = .recv ∨ v.state t = .curr) →
      ∀ q, IsQueue q → t ∉ v.queue q := by
    intro hst q hq
    refine S.placed.not_mem ht (home_eq_none ?_ ?_ ?_ ?_) hq <;>
      rcases hst with h | h | h <;> simp [h]
  have hfree : v.state t ≠ .free → v.Enabled (.free t) := fun h => ⟨ht, hnull, h, hsleep, htmout⟩
  have hother : v.state t = .susp ∨ v.state t = .recv →
      Does v [.heap (v.heap.stkfree (v.thrtab t).stkbase (v.thrtab t).stklen).1, .free t]
        (s₁.killDefault t) := by
    intro hst
    refine .cons he₁ (does_one (hfree ?_) (.killDefault R₁ (hoff ?_)))
    · rcases hst with h | h <;> simp [h]
    · rcases hst with h | h <;> simp [h]
  cases hst : v.state t with
  | sleep => exact absurd hst hsleep
  | tmout => exact absurd hst htmout
  | curr =>
    have hcur : t = v.thrcurrent := S.curr t ht hst
    have he₂ : (v.apply (.heap (v.heap.stkfree (v.thrtab t).stkbase
      (v.thrtab t).stklen).1)).Enabled (.free t) := hfree (by rw [hst]; simp)
    have R₂ := Rep.killDefault R₁ (hoff (.inr (.inr hst)))
    have hdoes := Does.cons he₁ (Does.cons he₂ (R₂.resched_does (S₁.apply he₂)))
    subst hcur
    exact ⟨_, .suicide hctx hnull, hdoes⟩
  | wait =>
    have hi := S.sem t ht hst
    have hq := S.layout.isQueue_sem hi
    have hmem : t ∈ v.queue (v.semtab (v.thrtab t).sem).queue := by
      rw [S.placed.home t ht _ hq, home, hst]
    have R₂ := R₁.modSem (v.thrtab t).sem (fun e => { e with count := e.count + 1 })
      (v.semtab (v.thrtab t).sem).state ((v.semtab (v.thrtab t).sem).count + 1) rfl
    have R₃ := R₂.killReady hq hmem
    simp only [Kernel.killSwitch, Kernel.killWait, R₁.thrtab]
    exact ⟨_, .killWaiting hctx ht hnull hst, .cons he₁ (.cons trivial
      (does_one (hfree (by rw [hst]; simp)) R₃))⟩
  | ready =>
    have hmem := (S.mem_readylist ht).mpr hst
    exact ⟨_, .killOther hctx ht hnull (.inl hst), .cons he₁ (does_one
      (hfree (by rw [hst]; simp))
      (.killReady R₁ S.layout.isQueue_readylist hmem))⟩
  | susp =>
    exact ⟨_, .killOther hctx ht hnull (.inr (.inl hst)), hother (.inl hst)⟩
  | recv =>
    exact ⟨_, .killOther hctx ht hnull (.inr (.inr hst)), hother (.inr hst)⟩
  | free =>
    -- the slot is free already
    have hself : ({ v.thrtab t with state := .free } : ThrEnt) = v.thrtab t := by
      rw [← hst, state]
    have R₂ := Rep.setState R₁ t .free
    rw [Sched.setState, Sched.modThr_of_eq hself] at R₂
    exact ⟨_, .killFree hctx ht hst, does_one he₁ R₂⟩

theorem call_cont (R : Rep s v) (S : v.Sound) (horderly : v.Orderly .cont) : Refines s v .cont := by
  obtain ⟨hkill, hkilled⟩ := horderly rfl
  rw [Refines, Kernel.call, R.self]
  cases hk : v.self.ctx with
  | user => exact ⟨_, .idle hk, R.does⟩
  | ret r => exact ⟨_, .return hk, R.does⟩
  | suspend t =>
    simp only [Kernel.resumeCall, Kernel.suspendRest, R.thrtab]
    exact ⟨_, .suspendRest hk, R.does⟩
  | receive =>
    simp only [Kernel.resumeCall, Kernel.receiveRest, R.self]
    exact ⟨_, .receiveRest hk, does_one trivial R.take⟩
  | recvtime =>
    simp only [Kernel.resumeCall, R.recvtimeRest]
    by_cases hmsg : v.self.hasmsg = true
    · rw [if_pos hmsg]
      exact ⟨_, .recvtimeRest hk hmsg, does_one trivial R.take⟩
    · rw [if_neg hmsg]
      exact ⟨_, .timeout hk (by simpa using hmsg), R.does⟩
  | kill t =>
    obtain ⟨ht, hnull, hsleep, htmout⟩ := hkill t hk
    exact R.killRest S hk ht hnull hsleep htmout
  | killed t => exact absurd hk (hkilled t)

/-! ## All steps -/

/-- **Every step refines its script.** -/
theorem call (R : Rep s v) (S : v.Sound) (hrun : v.Running) {op : Op} (hadm : s.Admissible op)
    (horderly : v.Orderly op) : Refines s v op := by
  have hnull : v.thrcurrent = NULLTHREAD → ¬ s.Blocks op := fun h => hadm.1 (R.thrcurrent.trans h)
  cases op with
  | create ssize p => exact R.call_create S hadm.2
  | ready t resch => exact R.call_ready S hadm.2
  | resume t => exact R.call_resume S
  | suspend t => exact R.call_suspend S
  | yield => exact R.call_yield S
  | chprio t p => exact R.call_chprio hadm.2
  | wait i => exact R.call_wait S hrun hnull
  | signal i => exact R.call_signal S
  | signaln i n => exact R.call_signaln S
  | semcreate c => exact R.call_semcreate
  | semfree i => exact R.call_semfree S
  | sleep ms => exact R.call_sleep S hrun hnull
  | send t m => exact R.call_send S
  | receive => exact R.call_receive S hrun hnull
  | recvtime d => exact R.call_recvtime S hrun hnull
  | recvclr => exact R.call_recvclr
  | kill t => exact R.call_kill S
  | clkhandler => exact R.call_clkhandler S
  | cont => exact R.call_cont S horderly

/-- **One step of the kernel is one step of the scheduler on lists.** -/
theorem exec (R : Rep s v) (S : v.Sound) (hrun : v.Running) {op : Op} (hadm : s.Admissible op)
    (horderly : v.Orderly op) : ∃ v', v.Step op (s.call op).2 v' ∧ Rep (s.exec op) v' := by
  obtain ⟨evs, hscript, v', r, R'⟩ := R.call S hrun hadm horderly
  refine ⟨_, ⟨evs, hscript, r.snoc trivial⟩, ?_⟩
  rw [Kernel.exec, R.thrcurrent]
  exact R'.modThr v.thrcurrent _

end Rep

end Xinu
