import Xinu.Sched.Sleep
import Xinu.System.Runs

/-!
# Messages are delivered exactly once

An observer of a thread notes the messages that calls of `send` to it have left with it, and the
values it has obtained. In every run in which the thread is not torn down the messages obtained, and
the one that waits, are the messages sent, in order. `receive` never comes back without a message,
and `recvtime` only when its time is over.

## Main results

* `Mailed.step`: every step keeps the account
* `messages_exactly_once`: what holds of every run
-/

namespace Xinu

set_option maxRecDepth 8000

open Function KeyedList

/-- What an observer of a thread's messages has noted. -/
structure MailLog where
  /-- the messages of the calls of `send` that returned `OK` -/
  accepted : List Int := []
  /-- the values the thread has obtained -/
  got : List Int := []
  /-- the limit of the last `recvtime` in which the thread blocked -/
  delay : Int := 0
  /-- the clock ticks since -/
  ticks : Nat := 0
deriving DecidableEq, Repr

/-- The message of a call of `send` to `t` that returns `OK` in the step `op`. -/
def Kernel.accepts (s : Kernel) (op : Op) (t : Int) : List Int :=
  match s.sends op with
  | some (u, m) => if u = t ∧ (s.send u m).2 = OK then [m] else []
  | none => []

/-- What the observer of `t` notes of the step `op`. -/
def MailLog.observe (t : Int) (s : Kernel) (op : Op) (log : MailLog) : MailLog where
  accepted := log.accepted ++ s.accepts op t
  got := log.got ++
    if s.thrcurrent = t then s.obtained op (s.call op).2 (s.exec op).toGlobals else []
  delay :=
    match op with
    | .recvtime d => if s.thrcurrent = t ∧ (s.call op).2 = .recvtime then d else log.delay
    | _ => log.delay
  ticks :=
    match op with
    | .clkhandler => log.ticks + 1
    | .recvtime _ => if s.thrcurrent = t ∧ (s.call op).2 = .recvtime then 0 else log.ticks
    | _ => log.ticks

/-- The kernel with the observer of `t`, as long as `t` is not torn down. -/
def mailMachine (t : Int) : Machine (Kernel × MailLog) Op where
  enabled p op := kernelMachine.enabled p.1 op ∧ p.1.Orderly op ∧
    (op = .cont → (p.1.thrtab p.1.thrcurrent).ctx ≠ .kill t)
  next p op := (p.1.exec op, p.2.observe t p.1 op)

/-- What holds of the messages of `t` and its log. -/
structure ExactlyOnce (t : Int) (s : Kernel) (log : MailLog) : Prop where
  /-- what was obtained and what waits is what was sent -/
  conserved : log.got ++ (s.box t).toList = log.accepted
  /-- `send` fails only for a bad target or while a message waits there -/
  refused : ∀ u m, (s.call (.send u m)).2 = .ret SYSERR →
    s.isbadtid u ∨ s.state u = .free ∨ (s.thrtab u).hasmsg = true
  /-- when `receive` returns, it has consumed a message -/
  receive : s.thrcurrent = t → ∀ op r, (mailMachine t).enabled (s, log) op →
    s.reader op = some .receive → (s.call op).2 = .ret r →
      s.box t = some r ∧ (s.exec op).box t = none
  /-- when `recvtime` returns, it has consumed a message, or its time is over and none waits, or it
  was called with a negative limit -/
  recvtime : s.thrcurrent = t → ∀ op r, (mailMachine t).enabled (s, log) op →
    s.reader op = some .recvtime → (s.call op).2 = .ret r →
      s.box t = some r ∧ (s.exec op).box t = none ∨
      r = TIMEOUT ∧ s.box t = none ∧ max log.delay 1 ≤ log.ticks ∨
      r = SYSERR ∧ ∃ d < 0, op = .recvtime d

/-! ## The account -/

/-- The account of the messages of `t`. -/
structure Mailed (t : Int) (v : Sched) (log : MailLog) : Prop where
  isTid : IsTid t
  alive : v.state t ≠ .free
  conserved : log.got ++ (v.box t).toList = log.accepted
  receive : (v.thrtab t).ctx = .receive → v.Awaits t
  recvtime : (v.thrtab t).ctx = .recvtime →
    (t ∈ v.sleepers ∧ log.delay - log.ticks ≤ due v.key v.sleepers t) ∨ (v.box t).isSome ∨
      max log.delay 1 ≤ log.ticks

section

variable {s : Kernel} {v v' : Sched} {t : Int} {log : MailLog} {op : Op} {new : List Int}

theorem Kernel.send_ok {s : Kernel} {u m : Int} :
    (s.send u m).2 = OK ↔ ¬ s.isbadtid u ∧ (s.thrtab u).hasmsg = false := by
  have hok : SYSERR ≠ OK := by decide
  unfold send
  by_cases hbad : s.isbadtid u
  · rw [if_pos hbad]
    simp [hok, hbad]
  · have hfree : (s.thrtab u).state ≠ .free := fun h => hbad (.inr (.inr h))
    rw [if_neg hbad]
    by_cases hmsg : (s.thrtab u).hasmsg = true
    · rw [if_pos (.inr hmsg)]
      simp [hok, hmsg]
    · rw [if_neg (by tauto)]
      dsimp only
      split_ifs <;> simp [hbad, hmsg]

theorem Models.accepts (M : Models s v) (op : Op) (t : Int) :
    s.accepts op t = v.deposited op t := by
  rw [Kernel.accepts, Globals.deposited, M.rep.globals]
  cases v.sends op with
  | none => rfl
  | some p =>
    refine if_congr (and_congr_right ?_) rfl rfl
    rintro rfl
    rw [Kernel.send_ok, M.rep.isbadtid, not_not, M.rep.thrtab, Globals.box]
    split_ifs with h <;> simp [h]

/-- The clock of the observer, unless a new call of `recvtime` has set it. -/
theorem MailLog.observe_clock (log : MailLog) (h : s.thrcurrent = t → (s.call op).2 ≠ .recvtime) :
    (log.observe t s op).delay = log.delay ∧
      (log.observe t s op).ticks = log.ticks + if op = .clkhandler then 1 else 0 := by
  cases op with
  | recvtime d =>
    have hno : ¬ (s.thrcurrent = t ∧ (s.call (.recvtime d)).2 = .recvtime) := fun h' => h h'.1 h'.2
    exact ⟨if_neg hno, if_neg hno⟩
  | _ => exact ⟨rfl, rfl⟩

/-- Whoever has the processor does not wait for a message any more. -/
theorem Mailed.boxed (L : Mailed t v log) (M : Models s v) (ht : v.thrcurrent = t)
    (hctx : v.self.ctx = .receive) : (v.box t).isSome := by
  subst ht
  refine (L.receive hctx).resolve_left ?_
  rw [M.running]
  simp

/-- **Every step keeps the account.** -/
theorem Mailed.step (L : Mailed t v log) (M : Models s v) (M' : Models (s.exec op) v')
    (D : v.Delayed) (hstep : v.Step op (s.call op).2 v') (heff : SleepEffect v op v' new)
    (hspares : op = .cont → v.self.ctx ≠ .kill t) : Mailed t v' (log.observe t s op) := by
  obtain ⟨hself, hother⟩ := hstep.ctx
  obtain ⟨hrecv, htmout⟩ := hstep.blocked M.sound
  have hcurrent : s.thrcurrent = v.thrcurrent := M.rep.thrcurrent
  obtain ⟨halive, hmail⟩ := hstep.mail M.sound L.alive hspares (L.boxed M)
  refine ⟨L.isTid, halive, ?_, fun hctx => ?_, fun hctx => ?_⟩
  · have hgot : (log.observe t s op).got = log.got ++
        if v.thrcurrent = t then v.obtained op (s.call op).2 v'.toGlobals else [] := by
      rw [← M.rep.globals, ← M'.rep.globals]
      rfl
    have hacc : (log.observe t s op).accepted = log.accepted ++ v.deposited op t := by
      rw [← M.accepts]
      rfl
    rw [hgot, hacc, ← L.conserved, List.append_assoc, List.append_assoc, hmail]
  · by_cases ht : t = v.thrcurrent
    · subst ht
      exact .inl (hrecv (hself.symm.trans hctx))
    · refine hstep.awaits M.sound L.alive hspares ht (L.receive ?_)
      rcases hother t ht with h | h
      · exact h.symm.trans hctx
      · simp [h] at hctx
  · by_cases ht : t = v.thrcurrent
    · -- the caller has just gone to sleep, with its limit as delay
      subst ht
      have hk : (s.call op).2 = .recvtime := hself.symm.trans hctx
      obtain ⟨d, rfl, hst⟩ := htmout hk
      have hmem : v.thrcurrent ∈ v'.sleepers := (M'.sound.mem_sleepers L.isTid).mpr (.inr hst)
      have hcur : v.thrcurrent ∉ v.sleepers :=
        M.sound.not_sleeper (by rw [M.running]; simp) (by rw [M.running]; simp)
      have hdelay : (log.observe v.thrcurrent s (.recvtime d)).delay = d := if_pos ⟨hcurrent, hk⟩
      have hticks : (log.observe v.thrcurrent s (.recvtime d)).ticks = 0 := if_pos ⟨hcurrent, hk⟩
      refine .inl ⟨hmem, ?_⟩
      rw [hdelay, hticks]
      cases heff with
      | insert d' hd hop hq hkey =>
        obtain rfl : d = d' := by simpa using hop
        have hdue := ((keeps_due M.sound.nodup_sleepers D).insert hcur hd).due _ (hq ▸ hmem)
        rw [update_self, ← hq] at hdue
        rw [due_congr hkey, hdue]
        simp
      | none hop hq hkey => exact absurd (hq ▸ hmem) hcur
      | remove u hu hop hmsg hq hkey => exact absurd (List.mem_of_mem_erase (hq ▸ hmem)) hcur
      | tick hop => simp at hop
    · have hctx₀ : (v.thrtab t).ctx = .recvtime := by
        rcases hother t ht with h | h
        · exact h.symm.trans hctx
        · simp [h] at hctx
      have hcall : s.thrcurrent = t → (s.call op).2 ≠ .recvtime := fun h =>
        absurd (h.symm.trans hcurrent) ht
      obtain ⟨hdelay, hticks⟩ := log.observe_clock hcall
      rw [hdelay, hticks]
      rcases L.recvtime hctx₀ with ⟨hmem, hle⟩ | hbox | hover
      · rcases heff.due M.sound M.running D hmem with ⟨hmem', hdue⟩ | hmsg | ⟨hop, hdue⟩
        · refine .inl ⟨hmem', ?_⟩
          split_ifs at hdue ⊢ <;> push_cast <;> omega
        · refine .inr (.inl ?_)
          rw [Globals.box, if_pos hmsg]
          rfl
        · refine .inr (.inr ?_)
          rw [if_pos hop]
          push_cast
          omega
      · refine .inr (.inl ?_)
        rw [Sched.Balanced, if_neg (Ne.symm ht), List.nil_append] at hmail
        by_contra hnone
        rw [Option.not_isSome_iff_eq_none] at hnone
        rw [hnone] at hmail
        cases hb : v.box t with
        | none => simp [hb] at hbox
        | some m => simp [hb] at hmail
      · refine .inr (.inr ?_)
        push_cast
        omega

theorem Sched.Step.recvtime_ret {k : Context} {r : Int} (h : v.Step op k v') (S : v.Sound)
    (hrun : v.Running) (hread : v.reader op = some .recvtime) (hk : k = .ret r) :
    v.box v.thrcurrent = some r ∧ v'.box v.thrcurrent = none ∨
      r = TIMEOUT ∧ v.box v.thrcurrent = none ∧ v.self.ctx = .recvtime ∨
      r = SYSERR ∧ ∃ d < 0, op = .recvtime d := by
  obtain ⟨evs, hscript, hevs⟩ := h
  have halive : v.state v.thrcurrent ≠ .free := by
    rw [hrun]
    simp
  have hbox : ∀ {c : Int},
      schedMachine.Run v [.message v.thrcurrent v.self.msg false, .ctx c k] v' →
      v'.box v.thrcurrent = none := by
    intro c hevs
    rw [(S.mail_run hevs halive (by simp)).2.1]
    simp [Event.post]
  have hfull : v.self.hasmsg = true → v.box v.thrcurrent = some v.self.msg := fun h => if_pos h
  have hempty : v.self.hasmsg = false → v.box v.thrcurrent = none :=
    fun h => if_neg (by simp [show (v.thrtab v.thrcurrent).hasmsg = false from h])
  have hctx : ∀ {c : Context}, v.self.ctx = c → op = .cont → c = .recvtime := by
    rintro c hc rfl
    rw [Globals.reader, show (v.thrtab v.thrcurrent).ctx = c from hc] at hread
    cases c <;> simp at hread
    rfl
  cases hscript with
  | refused href =>
    cases op with
    | recvtime d => exact .inr (.inr ⟨(Context.ret.inj hk).symm, d, href, rfl⟩)
    | cont => exact href.elim
    | _ => simp [Globals.reader] at hread
  | recvtime => simp at hk
  | recvtimeNow hd hmsg | recvtimeRest hc hmsg =>
    refine .inl ⟨?_, hbox hevs⟩
    rw [hfull hmsg, Context.ret.inj hk]
  | timeout hc hmsg =>
    exact .inr (.inl ⟨(Context.ret.inj hk).symm, hempty hmsg, hc⟩)
  | idle hc | «return» hc | suspendRest hc | receiveRest hc | suicide hc | killWaiting hc
  | killOther hc | killFree hc => simpa using hctx hc rfl
  | _ => simp [Globals.reader] at hread

/-- The account says what it should. -/
theorem Mailed.exactlyOnce (L : Mailed t v log) (M : Models s v) (C : v.Contexts) :
    ExactlyOnce t s log := by
  have hboxes : s.box t = v.box t := by rw [M.rep.globals]
  refine ⟨?_, fun u m h => ?_, ?_, ?_⟩
  · rw [hboxes]
    exact L.conserved
  · have hne : (s.send u m).2 ≠ OK := by
      have h' : (s.send u m).2 = SYSERR := Context.ret.inj h
      rw [h']
      decide
    rw [ne_eq, Kernel.send_ok, not_and_or, not_not] at hne
    rcases hne with h | h
    · exact .inl h
    · exact .inr (.inr (by simpa using h))
  · rintro rfl op r ⟨-, horderly, hspares⟩ hread hret
    obtain ⟨v', hstep, M', -⟩ := M.orderly_step C horderly
    rw [M.rep.thrcurrent] at *
    obtain ⟨-, hmail⟩ := hstep.mail M.sound L.alive (by rwa [← M.rep.self, M.rep.thrcurrent])
      (L.boxed M)
    rw [M.rep.globals] at hread
    have hdep : v.deposited op v.thrcurrent = [] := by
      cases op <;> simp_all [Globals.reader, Globals.deposited, Globals.sends]
    rw [Sched.Balanced, if_pos rfl, hdep, List.append_nil, Globals.obtained, hread, hret] at hmail
    rw [M.rep.globals, M'.rep.globals]
    cases hb : v.box v.thrcurrent <;> cases hb' : v'.box v.thrcurrent <;>
      simp_all [Context.value]
  · rintro rfl op r ⟨-, horderly, -⟩ hread hret
    obtain ⟨v', hstep, M', -⟩ := M.orderly_step C horderly
    rw [M.rep.globals] at hread
    rw [M.rep.thrcurrent] at *
    rw [M.rep.globals, M'.rep.globals]
    rcases hstep.recvtime_ret M.sound M.running hread hret with h | ⟨hr, hbox, hctx⟩ | h
    · exact .inl h
    · refine .inr (.inl ⟨hr, hbox, ?_⟩)
      rcases L.recvtime hctx with ⟨hmem, -⟩ | hsome | hover
      · exact absurd hmem (M.sound.not_sleeper (by rw [M.running]; simp) (by rw [M.running]; simp))
      · simp [hbox] at hsome
      · exact hover
    · exact .inr (.inr h)

end

/-- **Messages are delivered exactly once.** Let a thread `t` be in its own code in any orderly run,
and observe it from there on, as long as it is not torn down. At every step the values it has
obtained and the message that waits for it, if any, are the message that waited at first and those
of the calls of `send` that returned `OK`, in order; `send` fails only for a bad target or one that
has a message; `receive` returns only with a message; and `recvtime` returns with a message, or when
its time is over and no message waits. -/
theorem messages_exactly_once {endaddr memheap maxaddr : Nat} {mem : Nat → MemBlock}
    {ops₀ ops : List Op} {s₀ : Kernel} {t : Int} {p : Kernel × MailLog}
    (r₀ : orderlyMachine.Run (Kernel.sysinit endaddr memheap maxaddr mem) ops₀ s₀)
    (ht : s₀.Live t) (hctx : (s₀.thrtab t).ctx = .user)
    (r : (mailMachine t).Run (s₀, { accepted := (s₀.box t).toList }) ops p) :
    ExactlyOnce t p.1 p.2 := by
  obtain ⟨v₀, M₀, C₀, hq₀⟩ := Kernel.orderly_sysinit endaddr memheap maxaddr mem
  have hnil : v₀.sleepers = [] := hq₀ _
  obtain ⟨v₁, M₁, C₁, D₁⟩ := r₀.invariant
    (I := fun s => ∃ v, Models s v ∧ v.Contexts ∧ v.Delayed)
    (by
      rintro s op ⟨v, M, C, D⟩ ⟨-, h⟩
      obtain ⟨v', hstep, M', C'⟩ := M.orderly_step C h
      obtain ⟨new, -, heff⟩ := hstep.sleep M.sound
      exact ⟨v', M', C', heff.nonneg M.sound M.running D⟩)
    ⟨v₀, M₀, C₀, by simp [Sched.Delayed, hnil]⟩
  have L₁ : Mailed t v₁ { accepted := (s₀.box t).toList } := by
    rw [M₁.rep.globals] at ht ⊢
    rw [M₁.rep.thrtab] at hctx
    exact ⟨ht.1, ht.2, rfl, by simp [hctx], by simp [hctx]⟩
  obtain ⟨v, M, C, -, L⟩ := r.invariant
    (I := fun p => ∃ v, Models p.1 v ∧ v.Contexts ∧ v.Delayed ∧ Mailed t v p.2)
    (by
      rintro ⟨s, log⟩ op ⟨v, M, C, D, L⟩ ⟨-, h, hspares⟩
      obtain ⟨v', hstep, M', C'⟩ := M.orderly_step C h
      obtain ⟨new, -, heff⟩ := hstep.sleep M.sound
      refine ⟨v', M', C', heff.nonneg M.sound M.running D, L.step M M' D hstep heff fun hop => ?_⟩
      rw [← M.rep.self]
      exact hspares hop)
    ⟨v₁, M₁, C₁, D₁, L₁⟩
  exact L.exactlyOnce M C

instance (t : Int) (p : Kernel × MailLog) (op : Op) : Decidable ((mailMachine t).enabled p op) :=
  inferInstanceAs (Decidable (_ ∧ _ ∧ (_ → _)))

/-- Two threads have been created. -/
def twoCreated : Kernel :=
  orderlyMachine.after board [.create 128 20, .cont, .create 128 10, .cont]

/-- Thread 1 waits for a message, and thread 2 sends it two. -/
def twoSends : Kernel × MailLog :=
  (mailMachine 1).after (twoCreated, { accepted := (twoCreated.box 1).toList })
    [.resume 1, .receive, .cont, .resume 2, .send 1 5, .cont, .cont, .recvtime 1, .cont, .send 1 7]

theorem messages_exactly_once_twoSends :
    twoSends.2.got = [5] ∧ twoSends.1.box 1 = some 7 ∧ ExactlyOnce 1 twoSends.1 twoSends.2 := by
  have r₀ : orderlyMachine.Run board _ twoCreated := Machine.run_after
  have r : (mailMachine 1).Run (twoCreated, { accepted := (twoCreated.box 1).toList }) _ twoSends :=
    Machine.run_after
  have h := messages_exactly_once r₀ (by decide) (by decide) r
  exact ⟨by decide, by decide, h⟩

end Xinu
