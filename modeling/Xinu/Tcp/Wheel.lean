import Mathlib.Algebra.Order.BigOperators.Group.List
import Mathlib.Algebra.Order.Group.Int
import Xinu.Kernel.System
import Xinu.Tcp.TimerQueue

/-!
# The timer wheel

The timer queue is a delta list, so that the time an event has left is a sum over the events in
front of it. Scheduling an event and letting time pass are exact. `tcpTimerPurge` is exact unless
two events that it takes out are next to each other, and the time that it reports is that of the
whole queue only for an event with nothing in front of it. No time ever passes: the ticks between
two readings of the clock are counted right, and multiplied by a ratio that is zero.

## Main results

* `Timer.timer_wheel`: scheduling an event, and a pass of the processing loop
* `Timer.purge_exact`, `Timer.purge_result_iff`: what `tcpTimerPurge` takes out, and what it returns
* `elapsed_iff`: the time that passes
-/

namespace Xinu.Tcp

open List Function KeyedList SinglyLinked

namespace Timer

/-- The inner loop of `tcpTimer`, which triggers the events with nothing left. The queue is read
again after each of them. -/
def fireLoop (trigger : Nat × EvtType → Timer → Timer) :
    Nat → Timer → List (Nat × EvtType) → Timer × List (Nat × EvtType)
  | 0, t, fired => (t, fired)
  | n + 1, t, fired =>
    match (t.tcptimertab TCP_EVT_HEAD).next with
    | none => (t, fired)
    | some first =>
      if (t.tcptimertab first).remain ≤ 0 then
        fireLoop trigger n (trigger (t.kind first) t.take.1) (fired ++ [t.kind first])
      else (t, fired)

/-- The processing loop of `tcpTimer`, with the events that it has triggered. -/
def processLoop (trigger : Nat × EvtType → Timer → Timer) :
    Nat → Nat → Timer → List (Nat × EvtType) → Timer × List (Nat × EvtType)
  | 0, _, t, fired => (t, fired)
  | n + 1, elapse, t, fired =>
    match (t.tcptimertab TCP_EVT_HEAD).next with
    | none => (t, fired)
    | some first =>
      if elapse = 0 then (t, fired)
      else
        -- the time that remains is compared as an unsigned number
        let remain := ((t.tcptimertab first).remain % 2 ^ 32).toNat
        if elapse < remain then
          (t.modEvt first fun e => { e with remain := e.remain - elapse }, fired)
        else
          let t := t.modEvt first fun e => { e with remain := 0 }
          let r := fireLoop trigger TCP_NEVENTS t fired
          processLoop trigger n (sub32 elapse remain) r.1 r.2

/-- The records of the queue, the head among those that are used. No event has less than nothing
left, or more than it was scheduled for, which is an `int`. -/
structure Delta (t : Timer) (q : List Nat) : Prop extends Queue t q where
  head : (t.tcptimertab TCP_EVT_HEAD).used = true
  nonneg : ∀ i ∈ q, 0 ≤ t.remains i
  due : ∀ i ∈ q, due t.remains q i ≤ (t.tcptimertab i).time ∧ (t.tcptimertab i).time < 2 ^ 31

variable {t t' : Timer} {q l r : List Nat} {i m n p : Nat} {D : Nat → Int}

theorem Delta.keeps (h : t.Delta q) : KeyedList.Keeps t.remains q (KeyedList.due t.remains q) :=
  keeps_due (nodup_cons.mp h.nodup).2 h.nonneg

/-- An operation that leaves the times of the events alone, and the records but for the queue. -/
theorem Delta.of_keeps (h : t.Delta q) (hq : t'.Queue l) (hsub : ∀ i ∈ l, i ∈ q) (ha : Alike t t')
    (hk : KeyedList.Keeps t'.remains l D) (hD : ∀ i ∈ l, D i ≤ KeyedList.due t.remains q i) :
    t'.Delta l := by
  refine ⟨hq, ha.head.trans h.head, hk.nonneg, fun i hi => ?_⟩
  obtain ⟨hdue, htime⟩ := h.due i (hsub i hi)
  rw [hk.due i hi, ha.time i]
  exact ⟨(hD i hi).trans hdue, htime⟩

/-- Three events, of two connections: one due in 300, one in 500 and one in 600. -/
def threeEvents : Timer :=
  ((((Device.closed 0 [] 0).timer.tcpTimerSched 300 1 .rxt).1.tcpTimerSched 500 0
    .rxt).1.tcpTimerSched
    600 0 .persist).1

theorem threeEvents_delta : threeEvents.Delta [2, 4, 6] where
  chained := by
    unfold Chained Chained Chained Chained
    decide
  nodup := by decide
  record := by decide
  only := by decide
  head := rfl
  nonneg := by decide
  due := by decide

/-! ## Taking events out -/

/-- The links of the records that the loop neither starts from nor passes stay. -/
theorem purgeLoop_next {type : Option EvtType} {result : Int}
    (hq : Chained (fun i => (t.tcptimertab i).next) p q) (hnd : (p :: q).Nodup)
    (hhead : TCP_EVT_HEAD ∉ q) (hi : i ∉ p :: q) :
    ((purgeLoop m type n p (t.tcptimertab p).next result t).1.tcptimertab i).next =
      (t.tcptimertab i).next := by
  induction n generalizing t p q result with
  | zero => rfl
  | succ n ih =>
    rw [hq.next_eq]
    cases q with
    | nil => rfl
    | cons cur q =>
      obtain ⟨hp, hnd'⟩ := nodup_cons.mp hnd
      have hip : i ≠ p := fun h => hi (h ▸ mem_cons_self)
      have hiq : i ∉ cur :: q := fun h => hi (mem_cons_of_mem p h)
      have hhead' : TCP_EVT_HEAD ∉ q := fun h => hhead (mem_cons_of_mem cur h)
      rw [head?_cons, purgeLoop]
      by_cases hm : Matches m type (t.tcptimertab cur)
      · rw [if_pos hm]
        have hne : cur ≠ p := fun h => hp (h ▸ mem_cons_self)
        obtain ⟨-, hnext, -⟩ := t.unlink_record hne fun h => hhead (h ▸ mem_cons_self)
        -- the record that is taken out keeps its link, so that the loop goes on behind it
        rw [← hnext i hip]
        exact ih (hq.2.congr fun j hj => hnext j fun heq => hp (heq ▸ hj)) hnd' hhead' hiq
      · rw [if_neg hm]
        exact ih hq.2 hnd' hhead' hiq

/-- Of two events that match and are next to each other the second stays linked, behind the record
in front of the first. That record stays too: it is the one that the loop starts from only if the
first event matches. -/
theorem purgeLoop_second {type : Option EvtType} (result : Int)
    (hq : Chained (fun i => (t.tcptimertab i).next) p q) (hnd : (p :: q).Nodup)
    (hhead : TCP_EVT_HEAD ∉ q) (hn : q.length ≤ n) (hnot : ¬ Apart m type (q.map t.kind)) :
    ∃ x y, (x = p ∧ (∀ c ∈ q.head?, Matches m type (t.tcptimertab c)) ∨
        x ∈ q ∧ ¬ Matches m type (t.tcptimertab x)) ∧ Matches m type (t.tcptimertab y) ∧
      ((purgeLoop m type n p (t.tcptimertab p).next result t).1.tcptimertab x).next = some y := by
  induction n generalizing t p q result with
  | zero =>
    obtain rfl := eq_nil_of_length_eq_zero (Nat.le_zero.mp hn)
    exact absurd isChain_nil hnot
  | succ n ih =>
    cases q with
    | nil => exact absurd isChain_nil hnot
    | cons cur q =>
      obtain ⟨hp, hnd'⟩ := nodup_cons.mp hnd
      have hhead' : TCP_EVT_HEAD ∉ q := fun h => hhead (mem_cons_of_mem cur h)
      have hn' : q.length ≤ n := Nat.le_of_succ_le_succ hn
      rw [hq.next_eq, head?_cons, purgeLoop]
      by_cases hm : Matches m type (t.tcptimertab cur)
      · rw [if_pos hm]
        have hne : cur ≠ p := fun h => hp (h ▸ mem_cons_self)
        obtain ⟨hlast, hnext, -, -, -, halike⟩ :=
          t.unlink_record hne fun h => hhead (h ▸ mem_cons_self)
        have hq' := hq.2.congr (fun j hj => hnext j fun heq => hp (heq ▸ hj))
        have hsame := halike.matches_iff m type
        by_cases hsnd : ∃ d ∈ q.head?, Matches m type (t.tcptimertab d)
        · obtain ⟨d, hd, hmd⟩ := hsnd
          refine ⟨p, d, .inl ⟨rfl, fun c hc => Option.some.inj hc ▸ hm⟩, hmd, ?_⟩
          exact (purgeLoop_next hq' hnd' hhead' hp).trans (hlast.trans (hq.2.next_eq.trans hd))
        · -- the event behind it does not match, and the two are further on
          have hrest : ¬ Apart m type (q.map (t.unlink p cur).kind) := by
            rw [funext halike.kind]
            refine fun h => hnot (isChain_cons.mpr ⟨fun b hb hboth => hsnd ?_, h⟩)
            rw [head?_map, Option.mem_def, Option.map_eq_some_iff] at hb
            obtain ⟨d, hd, rfl⟩ := hb
            exact ⟨d, hd, hboth.2⟩
          obtain ⟨x, y, hx, hy, hlink⟩ := ih _ hq' hnd' hhead' hn' hrest
          simp only [hsame] at hx hy
          refine ⟨x, y, .inr ?_, hy, hlink⟩
          rcases hx with ⟨-, hall⟩ | ⟨hx, hxm⟩
          · cases q with
            | nil => exact absurd isChain_nil hrest
            | cons d q => exact absurd ⟨d, rfl, hall d rfl⟩ hsnd
          · exact ⟨mem_cons_of_mem cur hx, hxm⟩
      · rw [if_neg hm]
        have hrest : ¬ Apart m type (q.map t.kind) := fun h =>
          hnot (isChain_cons.mpr ⟨fun b hb hboth => hm hboth.1, h⟩)
        obtain ⟨x, y, hx, hy, hlink⟩ := ih _ hq.2 hnd' hhead' hn' hrest
        refine ⟨x, y, .inr ?_, hy, hlink⟩
        rcases hx with ⟨rfl, -⟩ | ⟨hx, hxm⟩
        · exact ⟨mem_cons_self, hm⟩
        · exact ⟨mem_cons_of_mem cur hx, hxm⟩

/-- **`tcpTimerPurge` takes exactly the events out that match**, with the others queued in their
order and due when they were and the records in use those of the queue, exactly if no two events
that match are next to each other. -/
theorem purge_exact {type : Option EvtType} (h : t.Delta q) :
    ((t.tcpTimerPurge m type).1.Delta (q.filter fun i => ¬ Matches m type (t.tcptimertab i)) ∧
      ∀ i ∈ q.filter fun i => ¬ Matches m type (t.tcptimertab i),
        due (t.tcpTimerPurge m type).1.remains
            (q.filter fun i => ¬ Matches m type (t.tcptimertab i)) i = due t.remains q i ∧
          (t.tcpTimerPurge m type).1.kind i = t.kind i) ↔
      Apart m type (q.map t.kind) := by
  constructor
  · rintro ⟨hdelta, -⟩
    by_contra hnot
    obtain ⟨x, y, hx, hy, hlink⟩ := purgeLoop_second SYSERR h.chained h.nodup
      (nodup_cons.mp h.nodup).1 h.length_lt.le hnot
    have hmem : x ∈ TCP_EVT_HEAD :: q.filter fun i => ¬ Matches m type (t.tcptimertab i) := by
      rcases hx with ⟨rfl, -⟩ | ⟨hx, hxm⟩
      · exact mem_cons_self
      · exact mem_cons_of_mem _ (mem_filter.mpr ⟨hx, by simpa using hxm⟩)
    have := mem_filter.mp (hdelta.chained.next_mem hmem hlink)
    simp [hy] at this
  · intro hapart
    obtain ⟨hq, halike, hkeeps⟩ := h.toQueue.purge hapart
    have hk := hkeeps _ h.keeps
    exact ⟨h.of_keeps hq (fun i hi => (mem_filter.mp hi).1) halike hk fun i _ => le_rfl,
      fun i hi => ⟨hk.due i hi, halike.kind i⟩⟩
theorem purge_exact_rxt :
    (threeEvents.tcpTimerPurge 0 (some .rxt)).1.Delta [2, 6] ∧
      due (threeEvents.tcpTimerPurge 0 (some .rxt)).1.remains [2, 6] 6 = 600 := by
  have h := (purge_exact threeEvents_delta).mpr (show Apart 0 (some .rxt) _ by
    unfold Apart
    decide)
  have hq : [2, 4, 6].filter (fun i => ¬ Matches 0 (some .rxt) (threeEvents.tcptimertab i)) =
      [2, 6] := rfl
  rw [hq] at h
  exact ⟨h.1, (h.2 6 (by simp)).1.trans (rfl)⟩

/-- **Of two events that are next to each other the second stays.** It is linked behind the head
with a record that is free to be allocated again. -/
theorem purge_leaves_second :
    threeEvents.Delta [2, 4, 6] ∧
      ((threeEvents.tcpTimerPurge 0 none).1.tcptimertab TCP_EVT_HEAD).next = some 2 ∧
      ((threeEvents.tcpTimerPurge 0 none).1.tcptimertab 2).next = some 6 ∧
      (threeEvents.tcpTimerPurge 0 none).1.kind 6 = (0, .persist) ∧
      ((threeEvents.tcpTimerPurge 0 none).1.tcptimertab 6).used = false :=
  ⟨threeEvents_delta, by decide⟩

theorem purgeLoop_snd {type : Option EvtType} {result : Int} (hne : result ≠ SYSERR) (p : Nat)
    (o : Option Nat) : (purgeLoop m type n p o result t).2 = result := by
  induction n generalizing p o t with
  | zero => rfl
  | succ n ih =>
    cases o with
    | none => rfl
    | some cur =>
      rw [purgeLoop]
      split_ifs
      · exact ih ..
      · exact ih ..

theorem waited_ne (h : t.remains i ≤ (t.tcptimertab i).time) :
    (t.tcptimertab i).time - t.remains i ≠ SYSERR := by
  unfold SYSERR
  omega

/-- The time that `tcpTimerPurge` returns is that of the first event that matches. -/
theorem purgeLoop_first {type : Option EvtType} {p : Nat}
    (hq : Chained (fun i => (t.tcptimertab i).next) p q) (hn : q.length < n)
    (hle : ∀ i ∈ q, t.remains i ≤ (t.tcptimertab i).time) :
    (purgeLoop m type n p (t.tcptimertab p).next SYSERR t).2 =
      (q.find? fun i => Matches m type (t.tcptimertab i)).elim SYSERR fun i =>
        (t.tcptimertab i).time - t.remains i := by
  induction q, n, hn using fuel_induction generalizing p with
  | nil n =>
    rw [show (t.tcptimertab p).next = none from hq]
    rfl
  | cons j q n hn ih =>
    obtain ⟨hj, hle⟩ := forall_mem_cons.mp hle
    rw [show (t.tcptimertab p).next = some j from hq.1, purgeLoop]
    by_cases hm : Matches m type (t.tcptimertab j)
    · rw [if_pos hm, if_pos rfl, find?_cons_of_pos (by simpa using hm)]
      exact purgeLoop_snd (waited_ne hj) ..
    · rw [if_neg hm, find?_cons_of_neg (by simpa using hm)]
      exact ih hq.2 hle

theorem remainLoop_first {type : EvtType} {p : Nat} (time : Int)
    (hq : Chained (fun i => (t.tcptimertab i).next) p (l ++ i :: r)) (hn : l.length < n)
    (hl : ∀ j ∈ l, ¬ ((t.tcptimertab j).tcbptr = m ∧ (t.tcptimertab j).type = type))
    (hi : (t.tcptimertab i).tcbptr = m ∧ (t.tcptimertab i).type = type) :
    t.remainLoop m type n (l ++ i :: r).head? time =
      time + (l.map t.remains).sum + t.remains i := by
  induction l, n, hn using fuel_induction generalizing p time with
  | nil n =>
    rw [nil_append, head?_cons, remainLoop, if_pos hi, map_nil, sum_nil, add_zero]
    rfl
  | cons j l n hn ih =>
    obtain ⟨hj, hl⟩ := forall_mem_cons.mp hl
    rw [cons_append, head?_cons, remainLoop, if_neg hj,
      show (t.tcptimertab j).next = (l ++ i :: r).head? from hq.2.next_eq, ih _ hq.2 hl,
        map_cons, sum_cons]
    unfold remains
    omega

/-- The estimate of `tcpRecvRtt` after a sample. -/
def smoothed (sndrtt rtt : Int) : Int :=
  (if sndrtt = 0 then rtt * 8 else sndrtt) + (rtt - (if sndrtt = 0 then rtt * 8 else sndrtt) / 8)

theorem smoothed_inj {s a b : Int} : smoothed s a = smoothed s b ↔ a = b := by
  unfold smoothed
  split_ifs <;> omega

/-- **A sample is real for an event with nothing in front of it**: the time that `tcpTimerPurge`
returns for the first event that it takes out, and with it the sample of `tcpRecvRtt`, is the time
since the event was scheduled exactly if the events in front of it are due at once. -/
theorem purge_result_iff {type : Option EvtType} (h : t.Delta (l ++ i :: r))
    (hl : ∀ j ∈ l, ¬ Matches m type (t.tcptimertab j)) (hi : Matches m type (t.tcptimertab i)) :
    ((t.tcpTimerPurge m type).2 =
        (t.tcptimertab i).time - t.tcpTimerRemain m (t.tcptimertab i).type ↔
      ∀ j ∈ l, t.remains j = 0) ∧
    ∀ d : Device, d.timer = t → d.minor = m → type = some .rxt → d.tcb.snd.rxtcount = 0 →
      (d.tcpRecvRtt.tcb.snd.sndrtt = smoothed d.tcb.snd.sndrtt
          ((t.tcptimertab i).time - t.tcpTimerRemain m (t.tcptimertab i).type) ↔
        ∀ j ∈ l, t.remains j = 0) := by
  have hmem : i ∈ l ++ i :: r := mem_append_right _ mem_cons_self
  have hfuel : l.length < TCP_NEVENTS := by
    have := h.length_lt
    rw [length_append] at this
    omega
  have hle : ∀ j ∈ l ++ i :: r, t.remains j ≤ (t.tcptimertab j).time := fun j hj =>
    (key_le_due h.nonneg hj).trans (h.due j hj).1
  have hpurge : (t.tcpTimerPurge m type).2 = (t.tcptimertab i).time - t.remains i := by
    refine (purgeLoop_first h.chained h.length_lt hle).trans ?_
    rw [find?_append, find?_eq_none.mpr (by simpa using hl), find?_cons_of_pos (by simpa using hi)]
    rfl
  have hremain : t.tcpTimerRemain m (t.tcptimertab i).type =
      (l.map t.remains).sum + t.remains i := by
    have := remainLoop_first 0 h.chained hfuel (fun j hj hboth => hl j hj ⟨hboth.1, ?_⟩) ⟨hi.1, rfl⟩
    · rwa [← h.chained.next_eq, zero_add] at this
    · rw [hboth.2]
      exact hi.2
  have hsum : (l.map t.remains).sum = 0 ↔ ∀ j ∈ l, t.remains j = 0 := by
    refine ⟨fun hsum j hj => ?_, fun hzero => ?_⟩
    · refine all_zero_of_le_zero_le_of_sum_eq_zero (fun x hx => ?_) hsum (mem_map_of_mem hj)
      obtain ⟨k, hk, rfl⟩ := mem_map.mp hx
      exact h.nonneg k (mem_append_left _ hk)
    · refine sum_eq_zero fun x hx => ?_
      obtain ⟨k, hk, rfl⟩ := mem_map.mp hx
      exact hzero k hk
  have hiff : (t.tcptimertab i).time - t.remains i =
      (t.tcptimertab i).time - t.tcpTimerRemain m (t.tcptimertab i).type ↔
        ∀ j ∈ l, t.remains j = 0 := by
    rw [← hsum, hremain]
    omega
  refine ⟨by rw [hpurge, hiff], ?_⟩
  rintro d rfl rfl rfl hcount
  have hrtt : d.tcpRecvRtt.tcb.snd.sndrtt =
      smoothed d.tcb.snd.sndrtt (d.timer.tcpTimerPurge d.minor (some .rxt)).2 := by
    unfold Device.tcpRecvRtt Device.tcpTimerPurge
    dsimp only
    rw [if_pos ⟨hpurge ▸ waited_ne (hle i hmem), hcount⟩]
    rfl
  rw [hrtt, smoothed_inj, hpurge, hiff]

theorem purge_result_first :
    (threeEvents.tcpTimerPurge 1 (some .rxt)).2 =
      (threeEvents.tcptimertab 2).time - threeEvents.tcpTimerRemain 1 .rxt :=
  (purge_result_iff (l := []) threeEvents_delta (by simp)
    (show Matches 1 (some .rxt) _ by decide)).1.mpr (by simp)

/-- **A sample of 300 when no time has passed**, because an event of another connection is in front.
-/
theorem purge_result_wrong :
    threeEvents.Delta [2, 4, 6] ∧ threeEvents.kind 4 = (0, .rxt) ∧
      (threeEvents.tcptimertab 4).time = 500 ∧ threeEvents.tcpTimerRemain 0 .rxt = 500 ∧
      (threeEvents.tcpTimerPurge 0 (some .rxt)).2 = 300 ∧
      { Device.closed 0 [] 0 with timer := threeEvents }.tcpRecvRtt.tcb.snd.sndrtt = 2400 :=
  ⟨threeEvents_delta, by decide⟩

/-! ## The wheel -/

theorem fireLoop_spec {key : Nat → Int} (fired : List (Nat × EvtType)) (hn : q.length < n)
    (hq : t.Queue q) (hkey : ∀ i ∈ q, t.remains i = key i) :
    let r := fireLoop (fun _ t => t) n t fired
    r.2 = fired ++ (q.takeWhile fun i => decide (key i ≤ 0)).map t.kind ∧
      r.1.Queue (q.dropWhile fun i => decide (key i ≤ 0)) ∧ r.1.remains = t.remains ∧
      Alike t r.1 := by
  induction n generalizing t q fired with
  | zero => omega
  | succ n ih =>
    rw [fireLoop, hq.chained.next_eq]
    cases q with
    | nil => exact ⟨(append_nil _).symm, hq, rfl, .of_eq rfl⟩
    | cons i q =>
      obtain ⟨hi, hkey⟩ := forall_mem_cons.mp hkey
      dsimp only [head?_cons]
      by_cases hzero : key i ≤ 0
      · obtain ⟨-, hq', hrem, halike⟩ := hq.take
        have := ih (fired ++ [t.kind i]) (Nat.lt_of_succ_lt_succ hn) hq' fun j hj => by
          rw [hrem]
          exact hkey j hj
        rw [hrem, show t.take.1.kind = t.kind from funext halike.kind, append_assoc] at this
        rw [if_pos (show (t.tcptimertab i).remain ≤ 0 from hi.trans_le hzero), takeWhile_cons_of_pos
          (by simpa using hzero),
          dropWhile_cons_of_pos (by simpa using hzero)]
        exact ⟨this.1, this.2.1, this.2.2.1, halike.trans this.2.2.2⟩
      · rw [if_neg fun h : (t.tcptimertab i).remain ≤ 0 => hzero (hi ▸ h), takeWhile_cons_of_neg
          (by simpa using hzero),
          dropWhile_cons_of_neg (by simpa using hzero)]
        exact ⟨(append_nil _).symm, hq, rfl, .of_eq rfl⟩

/-- The processing loop splits the queue at the time that has passed. After the first round the
first event may have time left and none may have passed. -/
theorem processLoop_spec {key : Nat → Int} {e : Nat} (fired : List (Nat × EvtType))
    (hn : q.length < n) (hq : t.Queue q) (hkey : ∀ i ∈ q, t.remains i = key i)
    (hbound : ∀ i ∈ q, 0 ≤ key i ∧ key i < 2 ^ 32) (he : e < 2 ^ 32)
    (hpos : 0 < e ∨ ∀ i ∈ q.head?, 0 < key i) : let r := processLoop (fun _ t => t) n e t fired
    let x := deltaSplit key q e
    r.2 = fired ++ x.1.map t.kind ∧ r.1.Queue x.2.1 ∧
      (∀ i ∈ x.2.1, r.1.remains i = addAt key x.2.1.head? (-x.2.2) i) ∧ Alike t r.1 := by
  induction n generalizing t q fired e with
  | zero => omega
  | succ n ih =>
    rw [processLoop, hq.chained.next_eq]
    cases q with
    | nil => exact ⟨(append_nil _).symm, hq, by simp [deltaSplit], .of_eq rfl⟩
    | cons i q =>
      obtain ⟨hi, hkey'⟩ := forall_mem_cons.mp hkey
      obtain ⟨⟨hi0, hilt⟩, hbound'⟩ := forall_mem_cons.mp hbound
      have hremain : ((t.tcptimertab i).remain % 2 ^ 32).toNat = (key i).toNat := by
        rw [show (t.tcptimertab i).remain = key i from hi, Int.emod_eq_of_lt hi0 hilt]
      dsimp only [head?_cons]
      rw [hremain, deltaSplit]
      split_ifs with hzero hlt hle hle
      · have := hpos.resolve_left (by omega) i rfl
        omega
      · refine ⟨(append_nil _).symm, hq, fun j hj => ?_, .of_eq rfl⟩
        rw [hkey j hj, addAt, hzero]
        split_ifs <;> simp
      · omega
      · -- the first event has time left
        refine ⟨(append_nil _).symm, hq.handOn (some i) (-e), fun j hj => ?_,
          .handOn t (some i) (-e)⟩
        change (t.handOn (some i) (-e)).remains j = _
        rw [remains_handOn, head?_cons, addAt, addAt, hkey j hj]
      · -- the first event is triggered, and with it those that have nothing left behind it
        have hnot : i ∉ q := (nodup_cons.mp (nodup_cons.mp hq.nodup).2).1
        have hq₁ : (t.modEvt i fun e => { e with remain := 0 }).Queue (i :: q) :=
          hq.congr (setRemain_field (·.next) (fun _ _ => rfl) _ _ _)
            (setRemain_field (·.used) (fun _ _ => rfl) _ _ _)
        have ha₁ : Alike t (t.modEvt i fun e => { e with remain := 0 }) :=
          .modEvt _ _ (fun _ => rfl) (fun _ => rfl) fun _ _ => rfl
        have hrem₁ := remains_modEvt t i fun e => { e with remain := 0 }
        have hzero₁ : ((t.modEvt i fun e => { e with remain := 0 }).tcptimertab i).remain ≤ 0 := by
          rw [modEvt_self]
        generalize (t.modEvt i fun e => { e with remain := 0 }) = t₁ at hq₁ ha₁ hrem₁ hzero₁
        obtain ⟨-, hq₂, hrem₂, ha₂⟩ := hq₁.take
        have hfire : fireLoop (fun _ t => t) TCP_NEVENTS t₁ fired =
            fireLoop (fun _ t => t) (3 * NTCP) t₁.take.1 (fired ++ [t₁.kind i]) := by
          change fireLoop (fun _ t => t) (3 * NTCP + 1) t₁ fired = _
          rw [fireLoop, hq₁.chained.next_eq]
          exact if_pos hzero₁
        have hkey₂ : ∀ j ∈ q, t₁.take.1.remains j = key j := fun j hj => by
          rw [hrem₂, hrem₁, update_of_ne fun h : j = i => hnot (h ▸ hj)]
          exact hkey' j hj
        have hlen : q.length < 3 * NTCP := Nat.lt_of_succ_lt_succ hq.length_lt
        obtain ⟨hfired, hq₃, hrem₃, ha₃⟩ := fireLoop_spec (fired ++ [t₁.kind i]) hlen hq₂ hkey₂
        rw [hfire]
        have ha := (ha₁.trans ha₂).trans ha₃
        generalize fireLoop (fun _ t => t) (3 * NTCP) t₁.take.1 (fired ++ [t₁.kind i]) = y at *
        have hsub : ∀ j ∈ q.dropWhile fun i => decide (key i ≤ 0), j ∈ q :=
          fun j hj => (dropWhile_sublist _).subset hj
        have hcast : (e : Int) - key i = (sub32 e (key i).toNat : Nat) := by
          unfold sub32
          omega
        have hnext : ∀ j ∈ (q.dropWhile fun i => decide (key i ≤ 0)).head?, 0 < key j := by
          intro j hj
          have := head?_dropWhile_not (fun i => decide (key i ≤ 0)) q
          rw [hj] at this
          simpa using this
        obtain ⟨h₁, h₂, h₃, h₄⟩ := ih (e := sub32 e (key i).toNat) y.2
          ((dropWhile_sublist _).length_le.trans_lt (Nat.lt_of_succ_lt_succ hn)) hq₃
          (fun j hj => by rw [hrem₃, hkey₂ j (hsub j hj)]) (fun j hj => hbound' j (hsub j hj))
          (Nat.mod_lt _ (by decide)) (Or.inr hnext)
        rw [hcast, deltaSplit_dropWhile (fun j hj => (hbound' j hj).1) (Int.natCast_nonneg _)]
        refine ⟨?_, h₂, h₃, ha.trans h₄⟩
        rw [h₁, hfired, show y.1.kind = t.kind from funext ha.kind,
          show t₁.take.1.kind = t.kind from funext (ha₁.trans ha₂).kind, ha₁.kind]
        simp
      · omega

/-- **The timer queue is a timer wheel.** An event that is scheduled is put behind all events due no
later and is due at its time; a pass of the processing loop, with triggers that leave the queue
alone, triggers those events that are due within the time that has passed, in their order, and
brings the others that much closer. -/
theorem timer_wheel (h : t.Delta q) :
    (∀ (time : Int) (m : Nat) (type : EvtType), time < 2 ^ 31 →
      (t.tcpTimerSched time m type).2 = OK → ∃ l evt r, q = l ++ r ∧ evt ∉ q ∧
        (t.tcpTimerSched time m type).1.Delta (l ++ evt :: r) ∧
        (t.tcpTimerSched time m type).1.kind evt = (m, type) ∧
        due (t.tcpTimerSched time m type).1.remains (l ++ evt :: r) evt = time ∧
        (∀ i ∈ l, due t.remains q i ≤ time) ∧ (∀ i ∈ r, time < due t.remains q i) ∧
        ∀ i ∈ q, due (t.tcpTimerSched time m type).1.remains (l ++ evt :: r) i = due t.remains q i ∧
          (t.tcpTimerSched time m type).1.kind i = t.kind i) ∧
    ∀ e n, 0 < e → e < 2 ^ 32 → q.length < n →
      (processLoop (fun _ t => t) n e t []).2 =
          (q.filter fun i => due t.remains q i ≤ e).map t.kind ∧
        (processLoop (fun _ t => t) n e t []).1.Delta (q.filter fun i => e < due t.remains q i) ∧
        ∀ i ∈ q.filter fun i => e < due t.remains q i,
          due (processLoop (fun _ t => t) n e t []).1.remains
              (q.filter fun i => e < due t.remains q i) i = due t.remains q i - e ∧
            (processLoop (fun _ t => t) n e t []).1.kind i = t.kind i := by
  have hnd := (nodup_cons.mp h.nodup).2
  refine ⟨fun time m type htime hok => ?_, fun e n hpos he hn => ?_⟩
  · rcases h.toQueue.sched time m type with ⟨-, hfail, -⟩ | ⟨evt, hout, hnonneg, -, hq,
        hrem, halike⟩
    · exact absurd (hok.symm.trans hfail) (by decide)
    · have hout' : evt ∉ q := fun hin => hout (mem_cons_of_mem _ hin)
      have hk := h.keeps.insert hout' hnonneg
      obtain ⟨hbefore, hbehind⟩ := deltaSplit_due (k := time) hnd h.nonneg
      have hsame : ∀ i ∈ TCP_EVT_HEAD :: q,
          (t.fill evt time m type).tcptimertab i = t.tcptimertab i := fun i hi =>
        modEvt_of_ne _ _ fun heq => hout (heq ▸ hi)
      have hself : (t.fill evt time m type).tcptimertab evt =
          { t.tcptimertab evt with used := true, time := time, type := type, tcbptr := m } :=
        modEvt_self ..
      rw [← hrem] at hk
      generalize (t.tcpTimerSched time m type).1 = t' at hq hrem halike hk
      have hdue : ∀ i ∈ q, due t'.remains (insertDelta t.remains q evt time).1 i =
          due t.remains q i := fun i hi => by
        rw [hk.due i (mem_insertDelta.mpr (Or.inr hi)),
          update_of_ne fun heq : i = evt => hout' (heq ▸ hi)]
      have hevt : due t'.remains (insertDelta t.remains q evt time).1 evt = time := by
        rw [hk.due evt (mem_insertDelta.mpr (Or.inl rfl)), update_self]
      refine ⟨_, evt, _, (deltaSplit_append t.remains q time).symm, hout',
        ⟨hq, ?_, hk.nonneg, fun i hi => ?_⟩, ?_, hevt, hbefore, hbehind,
        fun i hi => ⟨hdue i hi, ?_⟩⟩
      · rw [halike.head, hsame _ mem_cons_self]
        exact h.head
      · rw [halike.time]
        rcases mem_insertDelta.mp hi with rfl | hi
        · rw [hself]
          exact ⟨hevt.le, htime⟩
        · rw [hsame i (mem_cons_of_mem _ hi)]
          exact (hdue i hi).symm ▸ h.due i hi
      · rw [halike.kind, kind, hself]
      · rw [halike.kind, kind, kind, hsame i (mem_cons_of_mem _ hi)]
  · obtain ⟨hfront, hrest⟩ := deltaSplit_eq_filter hnd h.nonneg e
    have hbound : ∀ i ∈ q, 0 ≤ t.remains i ∧ t.remains i < 2 ^ 32 := fun i hi => by
      have := key_le_due h.nonneg hi
      have := h.due i hi
      exact ⟨h.nonneg i hi, by omega⟩
    obtain ⟨hfired, hq, hrem, halike⟩ := processLoop_spec [] hn h.toQueue (fun _ _ => rfl) hbound he
      (Or.inl hpos)
    have hk := (h.keeps.pass e).congr hrem fun _ _ => rfl
    rw [hrest] at hq hk
    rw [hfront] at hfired
    have hsub : ∀ i ∈ q.filter fun i => (e : Int) < due t.remains q i, i ∈ q :=
      fun i hi => (mem_filter.mp hi).1
    exact ⟨hfired, h.of_keeps hq hsub halike hk fun i _ => by omega,
      fun i hi => ⟨hk.due i hi, halike.kind i⟩⟩

/-- Within 550 two of three events are due, and an event at 400 goes between them. -/
theorem timer_wheel_three :
    (processLoop (fun _ t => t) TCP_NEVENTS 550 threeEvents []).2 = [(1, .rxt), (0, .rxt)] ∧
      ∃ l evt r, [2, 4, 6] = l ++ r ∧ due (threeEvents.tcpTimerSched 400 0 .timewt).1.remains
        (l ++ evt :: r) evt = 400 := by
  obtain ⟨hsched, hpass⟩ := timer_wheel threeEvents_delta
  refine ⟨(hpass 550 TCP_NEVENTS (by decide) (by decide) (by decide)).1.trans (rfl), ?_⟩
  obtain ⟨l, evt, r, hq, -, -, -, hdue, -⟩ := hsched 400 0 .timewt (by decide) (rfl)
  exact ⟨l, evt, r, hq, hdue⟩

end Timer

/-! ## The time that passes -/

/-- The ticks that `calcElapsed` counts. -/
def calcTicks (lastticks lasttime : Nat) (s : Kernel) : Nat :=
  if lasttime = s.clktime then sub32 s.clkticks lastticks
  else
    let ticks := sub32 CLKTICKS_PER_SEC lastticks
    let ticks := add32 ticks (sub32 (sub32 s.clktime lasttime) 1 * CLKTICKS_PER_SEC % 2 ^ 32)
    add32 ticks s.clkticks

/-- `calcElapsed`: the number of milliseconds elapsed, as it is computed. -/
def calcElapsed (lastticks lasttime : Nat) (s : Kernel) : Nat :=
  calcTicks lastticks lasttime s * (CLKTICKS_PER_SEC / 1000) % 2 ^ 32

theorem clkadvance_iterate {s : Kernel} (hs : s.clkticks < CLKTICKS_PER_SEC)
    (ht : s.clktime < 2 ^ 32) (n : Nat) :
    (Kernel.clkadvance^[n] s).clkticks = (s.clkticks + n) % CLKTICKS_PER_SEC ∧
      (Kernel.clkadvance^[n] s).clktime =
        (s.clktime + (s.clkticks + n) / CLKTICKS_PER_SEC) % 2 ^ 32 := by
  unfold CLKTICKS_PER_SEC at hs ⊢
  induction n with
  | zero =>
    rw [iterate_zero, id]
    omega
  | succ n ih =>
    rw [iterate_succ_apply', Kernel.clkadvance]
    dsimp only
    unfold CLKTICKS_PER_SEC
    split <;> dsimp only <;> omega

/-- **No time passes.** The ticks between two readings of the clock are counted right, but the time
is zero, which is right only if there is no tick in between; and for no time the processing loop of
`tcpTimer` does nothing. -/
theorem elapsed_iff {s : Kernel} (hs : s.clkticks < CLKTICKS_PER_SEC) (ht : s.clktime < 2 ^ 32)
    (n : Nat) :
    (n < 2 ^ 32 → calcTicks s.clkticks s.clktime (Kernel.clkadvance^[n] s) = n) ∧
      (calcElapsed s.clkticks s.clktime (Kernel.clkadvance^[n] s) = 1000 / CLKTICKS_PER_SEC * n ↔
        n = 0) ∧
      ∀ trigger fuel t, Timer.processLoop trigger fuel
        (calcElapsed s.clkticks s.clktime (Kernel.clkadvance^[n] s)) t [] = (t, []) := by
  have hzero : calcElapsed s.clkticks s.clktime (Kernel.clkadvance^[n] s) = 0 := by
    unfold calcElapsed CLKTICKS_PER_SEC
    omega
  rw [hzero]
  refine ⟨fun hn => ?_, ?_, fun trigger fuel t => ?_⟩
  · obtain ⟨hticks, htime⟩ := clkadvance_iterate hs ht n
    unfold calcTicks
    rw [hticks, htime]
    dsimp only
    unfold CLKTICKS_PER_SEC at hs ⊢
    unfold add32 sub32
    split <;> omega
  · unfold CLKTICKS_PER_SEC
    omega
  · cases fuel with
    | zero => rfl
    | succ fuel =>
      rw [Timer.processLoop]
      split
      · rfl
      · exact if_pos rfl

/-- The kernel when the clock is started. -/
def clockStart : Kernel := Kernel.nullinit 0 0 0 fun _ => ⟨0, 0⟩

/-- The clock seven ticks after a second has begun, and 25 ticks later. -/
theorem elapsed_start :
    calcTicks 7 100 (Kernel.clkadvance^[25] { clockStart with clkticks := 7, clktime := 100 }) =
      25 ∧
      calcElapsed 7 100 (Kernel.clkadvance^[25] { clockStart with clkticks := 7, clktime := 100 }) ≠
        1000 / CLKTICKS_PER_SEC * 25 := by
  obtain ⟨hticks, hiff, -⟩ := elapsed_iff (s := { clockStart with clkticks := 7, clktime := 100 })
    (by decide) (by decide) 25
  exact ⟨hticks (by decide), fun h => absurd (hiff.mp h) (by decide)⟩

/-- **A second goes by**, ten ticks of the clock, and no millisecond is counted. -/
theorem elapsed_second :
    calcTicks clockStart.clkticks clockStart.clktime (Kernel.clkadvance^[10] clockStart) = 10 ∧
      calcElapsed clockStart.clkticks clockStart.clktime (Kernel.clkadvance^[10] clockStart) = 0 ∧
      1000 / CLKTICKS_PER_SEC * 10 = 1000 := by decide

end Xinu.Tcp
