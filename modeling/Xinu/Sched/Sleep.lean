import Xinu.Foundations.DeltaList
import Xinu.Sched.Messages

/-!
# What a step does to the sleep queue

A step puts its caller on the sleep queue, takes a sleeping thread off it before its time, counts
down for a clock tick, or leaves the sleep queue alone.

## Main results

* `Sched.Step.sleep`: every step does one of these things
* `SleepEffect.nonneg`, `SleepEffect.due`: no thread is woken early
-/

namespace Xinu

open List Function KeyedList Machine

variable {c t : Int} {e : Event} {evs : List Event} {k : Context} {new : List Int} {op : Op}
variable {v v' : Sched}

/-- The events that leave a sleep queue with the threads `L` alone. -/
def Event.Restful (L : List Int) : Event → Prop
  | .ready t => t ∉ L
  | .doze _ _ => False
  | .lend _ => False
  | .tick => False
  | _ => True

namespace Sched

/-- The threads on the sleep queue. -/
def sleepers (v : Sched) : List Int := v.queue v.sleepq

section

variable (S : v.Sound)
include S

theorem Sound.nodup_sleepers : v.sleepers.Nodup :=
  S.placed.nodup _ S.layout.isQueue_sleepq

theorem Sound.isTid_of_sleeper (ht : t ∈ v.sleepers) : IsTid t :=
  S.placed.range _ S.layout.isQueue_sleepq t ht

theorem Sound.mem_sleepers (ht : IsTid t) :
    t ∈ v.sleepers ↔ v.state t = .sleep ∨ v.state t = .tmout := S.mem_sleepq ht

theorem Sound.not_sleeper (h : v.state t ≠ .sleep) (h' : v.state t ≠ .tmout) :
    t ∉ v.sleepers := fun ht =>
  ((S.mem_sleepers (S.isTid_of_sleeper ht)).mp ht).elim h h'

/-- `resched` changes no key but that of the thread that gives up the processor. -/
theorem Sound.key_resched (ht : v.state v.thrcurrent = .curr → t ≠ v.thrcurrent) :
    v.resched.key t = v.key t := by
  have hcontend : v.contend.key t = v.key t := by
    unfold Sched.contend
    split_ifs with hc
    · rw [key_makeReady, update_of_ne (ht hc)]
    · rfl
  rcases S.resched_cases with ⟨-, heq⟩ | ⟨-, h, l, -, heq⟩
  · rw [heq]
    rfl
  · rw [heq]
    exact hcontend

/-- A restful event leaves the sleep queue and its keys alone. -/
theorem Sound.restful_apply (he : v.Enabled e) (hr : e.Restful v.sleepers) :
    (v.apply e).sleepers = v.sleepers ∧ ∀ t ∈ v.sleepers, (v.apply e).key t = v.key t := by
  have hne : v.sleepq ≠ v.readylist := S.layout.readylist_ne_sleepq.symm
  have hqueue : (v.apply e).sleepers = v.queueAfter v.sleepq e := by
    rw [sleepers, (layout_apply v e).2, S.queue_apply he S.layout.isQueue_sleepq hne]
  rw [hqueue]
  cases e with
  | ready t =>
    refine ⟨erase_of_not_mem hr, fun u hu => ?_⟩
    have hut : u ≠ t := fun h => hr (h ▸ hu)
    exact update_of_ne hut _ _
  | free t =>
    exact ⟨erase_of_not_mem (S.not_sleeper he.2.2.2.1 he.2.2.2.2), fun _ _ => rfl⟩
  | enqueue i => exact ⟨if_neg (S.layout.sem_ne_sleepq he.2.2).symm, fun _ _ => rfl⟩
  | resched =>
    refine ⟨rfl, fun u hu => S.key_resched fun hc => ?_⟩
    rintro rfl
    exact S.not_sleeper (by rw [hc]; simp) (by rw [hc]; simp) hu
  | doze _ _ | lend _ | tick => exact hr.elim
  | _ => exact ⟨rfl, fun _ _ => rfl⟩

/-- **Restful events leave the sleep queue alone.** -/
theorem Sound.restful_run (r : schedMachine.Run v evs v') (hr : ∀ e ∈ evs, e.Restful v.sleepers) :
    v'.sleepers = v.sleepers ∧ ∀ t ∈ v.sleepers, v'.key t = v.key t := by
  induction r with
  | nil => exact ⟨rfl, fun _ _ => rfl⟩
  | @snoc w evs e r he ih =>
    obtain ⟨hq, hkey⟩ := ih fun e he => hr e (mem_append_left _ he)
    obtain ⟨hq', hkey'⟩ := (S.run r).restful_apply he (hq ▸ hr e (by simp))
    exact ⟨hq'.trans hq, fun t ht => (hkey' t (hq ▸ ht)).trans (hkey t ht)⟩

/-- A sleeping thread that is made ready leaves the sleep queue, and the keys of the rest alone. -/
theorem Sound.ready_sleeper (he : v.Enabled (.ready t)) :
    (v.apply (.ready t)).sleepers = v.sleepers.erase t ∧
      ∀ u ∈ v.sleepers.erase t, (v.apply (.ready t)).key u = v.key u := by
  refine ⟨?_, fun u hu => update_of_ne ?_ _ _⟩
  · rw [sleepers, (layout_apply v _).2, S.queue_apply he S.layout.isQueue_sleepq
      S.layout.readylist_ne_sleepq.symm]
    rfl
  · rintro rfl
    exact S.nodup_sleepers.not_mem_erase hu

/-- Threads made ready from the front of the sleep queue leave the rest of it. -/
theorem Sound.ready_sleepers {l rest : List Int} (hl : v.sleepers = l ++ rest)
    (r : schedMachine.Run v (l.map .ready) v') :
    v'.sleepers = rest ∧ ∀ t ∈ rest, v'.key t = v.key t := by
  induction l generalizing v with
  | nil =>
    obtain rfl := run_nil_iff.mp r
    exact ⟨hl, fun _ _ => rfl⟩
  | cons h l ih =>
    obtain ⟨he, r⟩ := run_cons_iff.mp r
    obtain ⟨hq, hkey⟩ := S.ready_sleeper he
    rw [hl, cons_append, erase_cons_head] at hq hkey
    obtain ⟨hq', hkey'⟩ := ih (v := v.apply (.ready h)) (S.apply he) hq r
    exact ⟨hq', fun t ht => (hkey' t ht).trans (hkey t (mem_append_right _ ht))⟩

end

end Sched

/-- What a step `op` from `v` to `v'` that has made the threads `new` ready has done to the sleep
queue. -/
inductive SleepEffect (v : Sched) (op : Op) (v' : Sched) (new : List Int) : Prop
  /-- nothing -/
  | none (hop : op ≠ .clkhandler) (hq : v'.sleepers = v.sleepers)
      (hkey : ∀ t ∈ v.sleepers, v'.key t = v.key t)
  /-- the caller goes to sleep -/
  | insert (d : Int) (hd : 0 ≤ d)
      (hop : (∃ ms : Nat, op = .sleep ms ∧ d = (ms * CLKTICKS_PER_SEC % 2 ^ 32 / 1000 : Nat)) ∨
        op = .recvtime d)
      (hq : v'.sleepers = (insertDelta v.key v.sleepers v.thrcurrent d).1)
      (hkey : ∀ t ∈ v'.sleepers, v'.key t = (insertDelta v.key v.sleepers v.thrcurrent d).2 t)
  /-- a sleeping thread gets a message -/
  | remove (t : Int) (ht : t ∈ v.sleepers) (hop : op ≠ .clkhandler)
      (hmsg : (v'.thrtab t).hasmsg = true) (hq : v'.sleepers = v.sleepers.erase t)
      (hkey : ∀ u ∈ v'.sleepers, v'.key u = lend v.key v.sleepers t u)
  /-- a clock tick -/
  | tick (hop : op = .clkhandler) (hnew : new = v.expired)
      (hq : v'.sleepers = v.sleepers.dropWhile fun t =>
        decide (addAt v.key v.sleepers.head? (-1) t ≤ 0))
      (hkey : ∀ t ∈ v'.sleepers, v'.key t = addAt v.key v.sleepers.head? (-1) t)

namespace Sched

/-- A step of restful events does nothing to the sleep queue. -/
theorem Sound.sleepEffect_none (S : v.Sound)
    (r : schedMachine.Run v (evs ++ [.ctx c k]) v') (hop : op ≠ .clkhandler := by simp)
    (hr : ∀ e ∈ evs, e.Restful v.sleepers := by simp [Event.Restful, *]) :
    SleepEffect v op v' new := by
  obtain ⟨hq, hkey⟩ := S.restful_run r
    (forall_mem_append.mpr ⟨hr, by simp [Event.Restful]⟩)
  exact .none hop hq hkey

theorem Sound.doze_run (S : v.Sound) {d : Int} {st : ThrState}
    (r : schedMachine.Run v [.doze d st, .resched, .ctx c k] v') :
    v'.sleepers = (insertDelta v.key v.sleepers v.thrcurrent d).1 ∧
      ∀ t ∈ v'.sleepers, v'.key t = (insertDelta v.key v.sleepers v.thrcurrent d).2 t := by
  obtain ⟨he, r⟩ := run_cons_iff.mp r
  have hq₁ : (v.apply (.doze d st)).sleepers = (insertDelta v.key v.sleepers v.thrcurrent d).1 := by
    exact if_pos rfl
  have hkey₁ : (v.apply (.doze d st)).key = (insertDelta v.key v.sleepers v.thrcurrent d).2 := rfl
  obtain ⟨hq, hkey⟩ := Sound.restful_run (v := v.apply (.doze d st)) (S.apply he) r
    (by simp [Event.Restful])
  exact ⟨hq.trans hq₁, fun t ht => by rw [hkey t (hq ▸ ht), hkey₁]⟩

/-- What `send` does to the sleep queue: nothing, or it takes off a thread that waits for a message
with a time limit. -/
theorem Sound.send_sleep (S : v.Sound) {u m : Int}
    (r : schedMachine.Run v (v.sendEvents u m ++ [.ctx c k]) v') (hop : op ≠ .clkhandler) :
    SleepEffect v op v' new := by
  unfold sendEvents at r
  split_ifs at r with hbad hrecv htmout
  · exact S.sleepEffect_none r hop
  · have := S.not_sleeper (by rw [hrecv]; simp) (by rw [hrecv]; simp)
    exact S.sleepEffect_none r hop
  · have hlive : v.Live u := by_contra fun h => hbad (.inl h)
    have hu : u ∈ v.sleepers := (S.mem_sleepers hlive.1).mpr (.inr htmout)
    obtain ⟨he₁, r⟩ := run_cons_iff.mp r
    obtain ⟨he₂, r⟩ := run_cons_iff.mp r
    obtain ⟨he₃, r⟩ := run_cons_iff.mp r
    change ((v.apply (.message u m true)).apply (.lend u)).Enabled (.ready u) at he₃
    change schedMachine.Run (((v.apply (.message u m true)).apply (.lend u)).apply (.ready u)) _ v'
      at r
    -- the message and the keys change nothing else about the sleep queue
    have S₁ : (v.apply (.message u m true)).Sound := S.apply he₁
    have S₂ : ((v.apply (.message u m true)).apply (.lend u)).Sound := S₁.apply he₂
    have hkey₂ : ((v.apply (.message u m true)).apply (.lend u)).key =
        lend v.key v.sleepers u := rfl
    have hq₂ : ((v.apply (.message u m true)).apply (.lend u)).sleepers = v.sleepers := rfl
    have hmsg₂ : (((v.apply (.message u m true)).apply (.lend u)).thrtab u).hasmsg = true := by
      rw [hasmsg_apply (e := .lend u) not_false, thrtab_apply]
      simp
    generalize (v.apply (.message u m true)).apply (.lend u) = w at *
    obtain ⟨hq₃, hkey₃⟩ := S₂.ready_sleeper he₃
    obtain ⟨hq, hkey⟩ := Sound.restful_run (S₂.apply he₃) r
      (by simp [Event.Restful])
    rw [hq₂] at hq₃ hkey₃
    have hmsg : (v'.thrtab u).hasmsg = true := by
      rw [r.eq_after]
      change (((w.apply (.ready u)).apply .resched).apply (.ctx c k) |>.thrtab u).hasmsg = true
      rw [hasmsg_apply (e := .ctx c k) not_false, hasmsg_apply (e := .resched) not_false,
        hasmsg_apply (e := .ready u) not_false, hmsg₂]
    refine .remove u hu hop hmsg (hq.trans hq₃) fun t ht => ?_
    rw [hq] at ht
    rw [hkey t ht, hkey₃ t (hq₃ ▸ ht), hkey₂]
  · exact S.sleepEffect_none r hop

/-- A clock tick counts down and lets those go that are due. -/
theorem Sound.tick_run (S : v.Sound) {ticks time : Nat}
    (r : schedMachine.Run v (.clock ticks time :: v.tickEvents ++ [.resched] ++ [.ctx c k]) v') :
    v'.sleepers = (v.sleepers.dropWhile fun t =>
        decide (addAt v.key v.sleepers.head? (-1) t ≤ 0)) ∧
      ∀ t ∈ v'.sleepers, v'.key t = addAt v.key v.sleepers.head? (-1) t := by
  rw [tickEvents, append_assoc] at r
  obtain ⟨w, r₁, r₂⟩ := run_append_iff.mp r
  obtain ⟨he₁, r₁⟩ := run_cons_iff.mp r₁
  obtain ⟨he₂, r₁⟩ := run_cons_iff.mp r₁
  have S₁ : (v.apply (.clock ticks time)).Sound := S.apply he₁
  have S₂ : ((v.apply (.clock ticks time)).apply .tick).Sound := S₁.apply he₂
  have hkey₂ : ((v.apply (.clock ticks time)).apply .tick).key =
      addAt v.key v.sleepers.head? (-1) := rfl
  have hq₂ : ((v.apply (.clock ticks time)).apply .tick).sleepers = v.expired ++
      v.sleepers.dropWhile fun t => decide (addAt v.key v.sleepers.head? (-1) t ≤ 0) :=
    takeWhile_append_dropWhile.symm
  obtain ⟨hq₃, hkey₃⟩ := S₂.ready_sleepers hq₂ r₁
  obtain ⟨hq, hkey⟩ := (S₂.run r₁).restful_run r₂ (by simp [Event.Restful])
  refine ⟨hq.trans hq₃, fun t ht => ?_⟩
  rw [hq] at ht
  rw [hkey t ht, hkey₃ t (hq₃ ▸ ht), hkey₂]

theorem restful_ready {l : List Int} (hl : ∀ t ∈ l, t ∉ v.sleepers) :
    ∀ e ∈ l.map Event.ready, e.Restful v.sleepers := by
  intro e he
  obtain ⟨t, ht, rfl⟩ := mem_map.mp he
  exact hl t ht

/-- **Every step does one of these things to the sleep queue.** -/
theorem Step.sleep (h : v.Step op k v') (S : v.Sound) :
    ∃ new, v'.readied = v.readied ++ new ∧ SleepEffect v op v' new := by
  obtain ⟨evs, hscript, r⟩ := h
  refine ⟨_, readied_step r, ?_⟩
  have hoff : ∀ {t : Int} {st : ThrState}, v.state t = st → st ≠ .sleep → st ≠ .tmout →
      t ∉ v.sleepers := fun h h₁ h₂ => S.not_sleeper (by rwa [h]) (by rwa [h])
  -- whoever waits on a semaphore does not sleep
  have hwaits : ∀ {i : Nat} {t : Int}, i < NSEM → t ∈ v.queue (v.semtab i).queue → t ∉ v.sleepers :=
    fun hi => S.placed.disjoint (S.layout.isQueue_sem hi) S.layout.isQueue_sleepq
      (S.layout.sem_ne_sleepq hi)
  cases hscript with
  | ready hl hst | readyResched hl hst | resume hl hst =>
    exact S.sleepEffect_none r
  | @signal i t hl hrel =>
    have ht : t ∈ v.released i 1 := by rw [hrel]; simp
    have := hwaits hl.1 (mem_of_mem_take ht)
    exact S.sleepEffect_none r
  | signaln hl hn =>
    refine S.sleepEffect_none r nofun (forall_mem_append.mpr
      ⟨forall_mem_cons.mpr ⟨trivial, ?_⟩, by simp [Event.Restful]⟩)
    exact restful_ready fun t ht => hwaits hl.1 (mem_of_mem_take ht)
  | semfree hl =>
    refine S.sleepEffect_none r nofun (forall_mem_append.mpr ⟨?_, by simp [Event.Restful]⟩)
    exact restful_ready fun t ht => hwaits hl.1 ht
  | @sleep ms d hd hpos =>
    obtain ⟨hq, hkey⟩ := S.doze_run r
    exact .insert d (by omega) (.inl ⟨ms, rfl, by rw [hd]⟩) hq hkey
  | recvtime hd hmsg =>
    obtain ⟨hq, hkey⟩ := S.doze_run r
    exact .insert _ hd (.inr rfl) hq hkey
  | send hl hmsg => exact S.send_sleep r (by simp)
  | @kill t hl hn hc =>
    obtain ⟨he, r⟩ := run_cons_iff.mp r
    -- `kill` counts the threads before it sends
    have heff : SleepEffect (v.apply (.thrcount (v.thrcount - 1))) (.kill t) v' [] :=
      Sound.send_sleep (v := v.apply (.thrcount (v.thrcount - 1))) (S.apply he) r (by simp)
    cases heff with
    | none hop hq hkey => exact .none hop hq hkey
    | insert d hd hop => simp at hop
    | remove t ht hop hmsg hq hkey => exact .remove t ht hop hmsg hq hkey
    | tick hop => simp at hop
  | clkhandler =>
    obtain ⟨hq, hkey⟩ := S.tick_run r
    refine .tick rfl ?_ hq hkey
    rw [tickEvents, filterMap_append, filterMap_cons, filterMap_cons, filterMap_map]
    simp [Event.readied, Function.comp_def]
  | refused href =>
    refine S.sleepEffect_none r ?_
    rintro rfl
    exact href
  | _ => exact S.sleepEffect_none r

end Sched

/-! ## Delays -/

section

/-- No thread on the sleep queue has a negative delay. -/
def Sched.Delayed (v : Sched) : Prop := ∀ t ∈ v.sleepers, 0 ≤ v.key t

section

variable (h : SleepEffect v op v' new) (S : v.Sound) (hrun : v.Running) (D : v.Delayed)
include h S hrun D

/-- **No step makes a delay negative.** -/
theorem SleepEffect.nonneg : v'.Delayed := by
  have hcur : v.thrcurrent ∉ v.sleepers := S.not_sleeper (by rw [hrun]; simp) (by rw [hrun]; simp)
  have K := keeps_due S.nodup_sleepers D
  intro u hu
  cases h with
  | none hop hq hkey => exact hkey u (hq ▸ hu) ▸ D u (hq ▸ hu)
  | insert d hd hop hq hkey =>
    rw [hkey u hu]
    exact (K.insert hcur hd).nonneg u (hq ▸ hu)
  | remove u' hu' hop hmsg hq hkey =>
    rw [hkey u hu]
    exact (K.remove hu').nonneg u (hq ▸ hu)
  | tick hop hnew hq hkey =>
    rw [hkey u hu]
    exact ((tick_nonneg_and_le S.nodup_sleepers D).1 u (hq ▸ hu)).1

/-- **No thread is woken early**: a sleeping thread goes on sleeping, and only a clock tick brings
its time closer, or it has got a message, or a tick finds it with no more than one tick to go. -/
theorem SleepEffect.due (ht : t ∈ v.sleepers) :
    (t ∈ v'.sleepers ∧ (due v.key v.sleepers t - if op = .clkhandler then 1 else 0) ≤
        due v'.key v'.sleepers t) ∨
      (v'.thrtab t).hasmsg = true ∨ op = .clkhandler ∧ due v.key v.sleepers t ≤ 1 := by
  have hcur : v.thrcurrent ∉ v.sleepers := S.not_sleeper (by rw [hrun]; simp) (by rw [hrun]; simp)
  have K := keeps_due S.nodup_sleepers D
  cases h with
  | none hop hq hkey =>
    left
    rw [hq, if_neg hop, due_congr hkey]
    exact ⟨ht, by omega⟩
  | insert d hd hop hq hkey =>
    left
    have hmem : t ∈ v'.sleepers := by
      rw [hq, mem_insertDelta]
      exact .inr ht
    have hne : t ≠ v.thrcurrent := fun h => hcur (h ▸ ht)
    have hop' : op ≠ .clkhandler := by
      rintro rfl
      simp at hop
    have hdue := (K.insert hcur hd).due t (hq ▸ hmem)
    rw [update_of_ne hne, ← hq] at hdue
    rw [if_neg hop', due_congr hkey, hdue]
    exact ⟨hmem, by omega⟩
  | remove u hu hop hmsg hq hkey =>
    by_cases htu : t = u
    · subst htu
      exact .inr (.inl hmsg)
    · left
      have hmem : t ∈ v'.sleepers := by
        rw [hq, S.nodup_sleepers.mem_erase_iff]
        exact ⟨htu, ht⟩
      have hdue := (K.remove hu).due t (hq ▸ hmem)
      rw [← hq] at hdue
      rw [if_neg hop, due_congr hkey, hdue]
      exact ⟨hmem, by omega⟩
  | tick hop hnew hq hkey =>
    obtain ⟨hstay, hgo⟩ := tick_nonneg_and_le S.nodup_sleepers D
    rcases mem_append.mp ((takeWhile_append_dropWhile (l := v.sleepers)).symm ▸ ht) with
      hmem | hmem
    · exact .inr (.inr ⟨hop, hgo t hmem⟩)
    · left
      have hle := (hstay t hmem).2
      rw [← hq] at hmem hle
      rw [if_pos hop, due_congr hkey]
      exact ⟨hmem, hle⟩

end

end

end Xinu
