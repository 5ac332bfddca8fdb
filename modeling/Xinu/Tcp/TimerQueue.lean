import Mathlib.Data.List.Chain
import Mathlib.Data.List.Perm.Subperm
import Xinu.Foundations.DeltaList
import Xinu.Foundations.SinglyLinked
import Xinu.Tcp.Frame

/-!
# The timer queue as a list

The events that are queued, in the order in which they are due, each with its control block and its
type. Scheduling an event puts it somewhere into the list, and the timer takes the first.
`tcpTimerPurge` takes all events out that match, if no two of them are next to each other: having
taken an event out, it goes on behind its record, which is not linked any more, so that it cannot
take out the next one. That event stays linked, with a record that is free to be allocated again.

## Main results

* `Timer.Holds.sched`, `Timer.Holds.purge`, `Timer.Holds.take`, `Timer.Holds.elapse`: what the
  operations do to the list
* `Timer.Holds.remain`: whether an event is found
-/

namespace Xinu.Tcp

open List Function KeyedList SinglyLinked

namespace Timer

variable {cur i m p : Nat}

/-- The control block and the type of an event. -/
def kind (t : Timer) (i : Nat) : Nat × EvtType := ((t.tcptimertab i).tcbptr, (t.tcptimertab i).type)

/-- The times that remain, each counted from the event in front. -/
def remains (t : Timer) (i : Nat) : Int := (t.tcptimertab i).remain

/-- The records of the queue. -/
structure Queue (t : Timer) (q : List Nat) : Prop where
  chained : Chained (fun i => (t.tcptimertab i).next) TCP_EVT_HEAD q
  nodup : (TCP_EVT_HEAD :: q).Nodup
  record : ∀ i ∈ q, i < TCP_NEVENTS ∧ (t.tcptimertab i).used = true
  only : ∀ i < TCP_NEVENTS, i ≠ TCP_EVT_HEAD → (t.tcptimertab i).used = true → i ∈ q

/-- The events that are queued. -/
def Holds (t : Timer) (es : List (Nat × EvtType)) : Prop := ∃ q, t.Queue q ∧ es = q.map t.kind

/-- There is a record for another event. -/
def Spare (t : Timer) : Prop := ∃ i < TCP_NEVENTS, i ≠ TCP_EVT_HEAD ∧ (t.tcptimertab i).used = false

instance (t : Timer) : Decidable t.Spare :=
  inferInstanceAs (Decidable (∃ i < TCP_NEVENTS, i ≠ TCP_EVT_HEAD ∧ (t.tcptimertab i).used = false))

variable {t t' : Timer} {q : List Nat} {es : List (Nat × EvtType)} {type : EvtType}
variable {α : Type} {l r : List Nat}

/-! ## Writes into a record -/

theorem modEvt_self (t : Timer) (i : Nat) (f : TcpEvent → TcpEvent) :
    (t.modEvt i f).tcptimertab i = f (t.tcptimertab i) := by
  exact update_self ..

theorem modEvt_of_ne (t : Timer) {j : Nat} (f : TcpEvent → TcpEvent) (h : j ≠ i) :
    (t.modEvt i f).tcptimertab j = t.tcptimertab j := by
  unfold modEvt
  rw [store_eq_update]
  exact update_of_ne h ..

/-- A write that leaves a field of the record alone. -/
theorem modEvt_field (g : TcpEvent → α) {f : TcpEvent → TcpEvent}
    (hg : ∀ e, g (f e) = g e) (t : Timer) (i j : Nat) :
    g ((t.modEvt i f).tcptimertab j) = g (t.tcptimertab j) := by
  by_cases hj : j = i
  · rw [hj, modEvt_self, hg]
  · rw [modEvt_of_ne _ _ hj]

theorem setNext_field (g : TcpEvent → α) (hg : ∀ e x, g { e with next := x } = g e)
    (t : Timer) (i : Nat) (x : Option Nat) (j : Nat) :
    g ((t.modEvt i fun e => { e with next := x }).tcptimertab j) = g (t.tcptimertab j) :=
  modEvt_field g (fun e => hg e x) t i j

theorem setUsed_field (g : TcpEvent → α) (hg : ∀ e x, g { e with used := x } = g e)
    (t : Timer) (i : Nat) (x : Bool) (j : Nat) :
    g ((t.modEvt i fun e => { e with used := x }).tcptimertab j) = g (t.tcptimertab j) :=
  modEvt_field g (fun e => hg e x) t i j

theorem setRemain_field (g : TcpEvent → α) (hg : ∀ e x, g { e with remain := x } = g e)
    (t : Timer) (i : Nat) (x : TcpEvent → Int) (j : Nat) :
    g ((t.modEvt i fun e => { e with remain := x e }).tcptimertab j) = g (t.tcptimertab j) :=
  modEvt_field g (fun e => hg e (x e)) t i j

theorem remains_modEvt (t : Timer) (i : Nat) (f : TcpEvent → TcpEvent) :
    (t.modEvt i f).remains = update t.remains i (f (t.tcptimertab i)).remain := by
  funext j
  unfold remains
  by_cases hj : j = i
  · rw [hj, modEvt_self, update_self]
  · rw [modEvt_of_ne _ _ hj, update_of_ne hj]

/-- Everything but the links, the marks of the records and the times that remain is the same. -/
structure Alike (t t' : Timer) : Prop where
  kind : ∀ i, t'.kind i = t.kind i
  time : ∀ i, (t'.tcptimertab i).time = (t.tcptimertab i).time
  head : (t'.tcptimertab TCP_EVT_HEAD).used = (t.tcptimertab TCP_EVT_HEAD).used

theorem Alike.of_eq (h : t'.tcptimertab = t.tcptimertab) : Alike t t' := by
  constructor <;> simp only [Timer.kind, h, implies_true]

theorem Alike.trans {t'' : Timer} (h : Alike t t') (h' : Alike t' t'') : Alike t t'' :=
  ⟨fun i => (h'.kind i).trans (h.kind i), fun i => (h'.time i).trans (h.time i),
    h'.head.trans h.head⟩

theorem Alike.modEvt (t : Timer) (i : Nat) {f : TcpEvent → TcpEvent}
    (hkind : ∀ e, ((f e).tcbptr, (f e).type) = (e.tcbptr, e.type))
    (htime : ∀ e, (f e).time = e.time)
    (hused : i = TCP_EVT_HEAD → ∀ e, (f e).used = e.used) : Alike t (t.modEvt i f) := by
  refine ⟨modEvt_field (fun e => (e.tcbptr, e.type)) hkind t i, modEvt_field (·.time) htime t i, ?_⟩
  by_cases hi : i = TCP_EVT_HEAD
  · exact modEvt_field (·.used) (hused hi) t i _
  · rw [modEvt_of_ne _ _ (Ne.symm hi)]

theorem Queue.holds (h : t'.Queue q) (ha : Alike t t') : t'.Holds (q.map t.kind) :=
  ⟨q, h, map_congr_left fun i _ => (ha.kind i).symm⟩

theorem Queue.congr (h : t.Queue q) (hnext : ∀ i, (t'.tcptimertab i).next = (t.tcptimertab i).next)
    (hused : ∀ i, (t'.tcptimertab i).used = (t.tcptimertab i).used) : t'.Queue q := by
  refine ⟨h.chained.congr fun i _ => hnext i, h.nodup, fun i hi => ?_, fun i hi => ?_⟩
  · rw [hused i]
    exact h.record i hi
  · rw [hused i]
    exact h.only i hi

/-- Time is added to an event, if there is one. -/
def handOn (t : Timer) (o : Option Nat) (k : Int) : Timer :=
  match o with
  | none => t
  | some i => t.modEvt i fun e => { e with remain := e.remain + k }

theorem handOn_field (g : TcpEvent → α) (hg : ∀ e x, g { e with remain := x } = g e)
    (t : Timer) (o : Option Nat) (k : Int) (i : Nat) :
    g ((t.handOn o k).tcptimertab i) = g (t.tcptimertab i) := by
  cases o with
  | none => rfl
  | some j => exact setRemain_field g hg t j (fun e => e.remain + k) i

theorem remains_handOn (t : Timer) (o : Option Nat) (k : Int) :
    (t.handOn o k).remains = addAt t.remains o k := by
  funext i
  cases o with
  | none => exact (addAt_of_ne (by simp)).symm
  | some j =>
    unfold handOn
    rw [remains_modEvt]
    by_cases hi : i = j
    · rw [hi, update_self, addAt_self]
      rfl
    · rw [update_of_ne hi, addAt_of_ne fun h => hi (Option.some.inj h).symm]

theorem Alike.handOn (t : Timer) (o : Option Nat) (k : Int) : Alike t (t.handOn o k) :=
  ⟨handOn_field (fun e => (e.tcbptr, e.type)) (fun _ _ => rfl) t o k,
    handOn_field (·.time) (fun _ _ => rfl) t o k, handOn_field (·.used) (fun _ _ => rfl) t o k _⟩

theorem Queue.handOn (h : t.Queue q) (o : Option Nat) (k : Int) : (t.handOn o k).Queue q :=
  h.congr (handOn_field (·.next) (fun _ _ => rfl) t o k)
    (handOn_field (·.used) (fun _ _ => rfl) t o k)

/-! ## Scheduling -/

theorem Queue.length_lt (h : t.Queue q) : q.length < TCP_NEVENTS := by
  have hsub : TCP_EVT_HEAD :: q ⊆ range TCP_NEVENTS := by
    intro i hi
    rw [mem_range]
    rcases mem_cons.mp hi with rfl | hi
    · decide
    · exact (h.record i hi).1
  have := (subperm_of_subset h.nodup hsub).length_le
  rwa [length_cons, length_range] at this

/-- `allocEvent` marks a record that was not in use, or leaves the table alone. -/
theorem allocLoop_spec (n : Nat) (t : Timer) :
    ((allocLoop n t).2 = none ∧ (allocLoop n t).1.tcptimertab = t.tcptimertab) ∨
      ∃ i, (allocLoop n t).2 = some i ∧ i < TCP_NEVENTS ∧ i ≠ TCP_EVT_HEAD ∧
        (t.tcptimertab i).used = false ∧
        (allocLoop n t).1.tcptimertab =
          (t.modEvt i fun e => { e with used := true }).tcptimertab := by
  induction n generalizing t with
  | zero => exact .inl ⟨rfl, rfl⟩
  | succ n ih =>
    rw [allocLoop]
    dsimp only
    have ih := ih { t with nextevt := (t.nextevt + 1) % (3 * NTCP) + 1 }
    split_ifs with hhead hused
    · exact ih
    · have hlt : (t.nextevt + 1) % (3 * NTCP) < 3 * NTCP := Nat.mod_lt _ (by decide)
      refine .inr ⟨_, rfl, ?_, hhead, hused, rfl⟩
      unfold TCP_NEVENTS
      omega
    · exact ih

/-- Where the allocator looks in its turn number `k`. -/
def turn (start k : Nat) : Nat := (start - 1 + 2 * k) % (3 * NTCP) + 1

/-- The allocator goes through the table in steps of two, which reaches every record because their
number is odd. -/
theorem allocLoop_finds (n : Nat) (t : Timer) (hfree : (t.tcptimertab i).used = false)
    (hturn : ∃ k < n, turn ((t.nextevt + 1) % (3 * NTCP) + 1) k = i) :
    (allocLoop n t).2.isSome = true := by
  induction n generalizing t with
  | zero =>
    omega
  | succ n ih =>
    obtain ⟨k, hk, hki⟩ := hturn
    rw [allocLoop]
    generalize hj : (t.nextevt + 1) % (3 * NTCP) + 1 = j at hki ⊢
    have hpos : j ≠ TCP_EVT_HEAD := by
      unfold TCP_EVT_HEAD
      omega
    rw [if_neg hpos]
    split_ifs with hused
    · rfl
    · -- this record is in use, so that the free one comes later
      refine ih _ hfree ?_
      dsimp only
      unfold turn NTCP at *
      rcases k with _ | k
      · refine absurd ?_ hused
        have : i = j := by omega
        rw [← this]
        exact hfree
      · exact ⟨k, by omega, by omega⟩

theorem Spare.allocEvent (h : t.Spare) : t.allocEvent.2.isSome = true := by
  obtain ⟨i, hlt, hi, hfree⟩ := h
  refine allocLoop_finds TCP_NEVENTS t hfree ?_
  unfold TCP_NEVENTS TCP_EVT_HEAD NTCP at *
  unfold turn NTCP
  generalize hy : (t.nextevt + 1) % (3 * 7) = y
  -- 11 is the inverse of 2 modulo 21
  refine ⟨11 * (i - 1 + 21 - y) % 21, by omega, ?_⟩
  omega

/-- `tcpTimerSched` finds the place of an event that is due at `time`. -/
theorem schedLoop_eq (n : Nat) (time : Int) (hn : q.length ≤ n)
    (hq : Chained (fun i => (t.tcptimertab i).next) p q) :
    t.schedLoop n p q.head? time = ((deltaSplit t.remains q time).1.getLastD p,
      (deltaSplit t.remains q time).2.1.head?, (deltaSplit t.remains q time).2.2) := by
  induction n generalizing p q time with
  | zero =>
    obtain rfl := eq_nil_of_length_eq_zero (Nat.le_zero.mp hn)
    rfl
  | succ n ih =>
    cases q with
    | nil => rfl
    | cons i q =>
      rw [head?_cons, schedLoop, deltaSplit]
      change (if t.remains i ≤ time then _ else _) = _
      split_ifs
      · rw [hq.2.next_eq, ih _ (Nat.le_of_succ_le_succ hn) hq.2, getLastD_cons]
        rfl
      · rfl

/-- A record is linked in behind another. -/
def link (t : Timer) (p evt : Nat) (next : Option Nat) : Timer :=
  (t.modEvt evt fun e => { e with next := next }).modEvt p fun e => { e with next := some evt }

/-- A record that was not in use has been marked, and is linked in. -/
theorem Queue.link (h : t.Queue q) {evt : Nat} (hq : l ++ r = q)
    (hlt : evt < TCP_NEVENTS) (hout : evt ∉ TCP_EVT_HEAD :: q)
    (hused : (t'.tcptimertab evt).used = true)
    (hsame : ∀ i, i ≠ evt → t'.tcptimertab i = t.tcptimertab i) :
    (t'.link (l.getLastD TCP_EVT_HEAD) evt r.head?).Queue (l ++ evt :: r) ∧
      (t'.link (l.getLastD TCP_EVT_HEAD) evt r.head?).remains = t'.remains ∧
      Alike t' (t'.link (l.getLastD TCP_EVT_HEAD) evt r.head?) := by
  subst hq
  have hlast : evt ≠ l.getLastD TCP_EVT_HEAD := fun heq => hout <| by
    rw [heq, ← cons_append]
    exact mem_append_left r (getLastD_mem l TCP_EVT_HEAD)
  -- what the two writes do to a record
  have hfield : ∀ {α : Type} (g : TcpEvent → α), (∀ e x, g { e with next := x } = g e) → ∀ i,
      g ((t'.link (l.getLastD TCP_EVT_HEAD) evt r.head?).tcptimertab i) = g (t'.tcptimertab i) :=
    fun g hg i => (setNext_field g hg _ _ _ i).trans (setNext_field g hg _ _ _ i)
  have hused' := hfield (·.used) (fun _ _ => rfl)
  have hnext : ∀ i, i ≠ evt → i ≠ l.getLastD TCP_EVT_HEAD →
      (t'.link (l.getLastD TCP_EVT_HEAD) evt r.head?).tcptimertab i = t'.tcptimertab i :=
    fun i hi hi' => by rw [link, modEvt_of_ne _ _ hi', modEvt_of_ne _ _ hi]
  have hmem : ∀ i ∈ TCP_EVT_HEAD :: (l ++ r), i ≠ evt := fun i hi heq => hout (heq ▸ hi)
  refine ⟨⟨?_, ?_, fun i hi => ?_, fun i hi hi' hu => ?_⟩,
    funext (hfield (·.remain) fun _ _ => rfl),
    hfield (fun e => (e.tcbptr, e.type)) (fun _ _ => rfl), hfield (·.time) (fun _ _ => rfl),
    hused' _⟩
  · refine h.chained.insert h.nodup ?_ ?_ fun i hi hi' => ?_
    · rw [link, modEvt_self]
    · rw [link, modEvt_of_ne _ _ hlast, modEvt_self]
    · rw [hnext i (hmem i hi) hi', hsame i (hmem i hi)]
  · rw [← cons_append, nodup_middle, cons_append]
    exact nodup_cons.mpr ⟨hout, h.nodup⟩
  · rw [hused' i]
    rcases perm_middle.mem_iff.mp hi with _ | ⟨_, hi⟩
    · exact ⟨hlt, hused⟩
    · rw [hsame i (hmem i (mem_cons_of_mem _ hi))]
      exact h.record i hi
  · rw [perm_middle.mem_iff]
    by_cases heq : i = evt
    · exact heq ▸ mem_cons_self
    · rw [hused' i, hsame i heq] at hu
      exact mem_cons_of_mem _ (h.only i hi hi' hu)

/-- A record with an event of its own. -/
def fill (t : Timer) (evt : Nat) (time : Int) (m : Nat) (type : EvtType) : Timer :=
  t.modEvt evt fun e => { e with used := true, time := time, type := type, tcbptr := m }

/-- `tcpTimerSched`, once there is a record. -/
theorem tcpTimerSched_of_alloc {t₁ : Timer} {evt : Nat} {time : Int} (htime : ¬ time < 0)
    (halloc : t.allocEvent = (t₁, some evt)) (m : Nat) (type : EvtType) :
    let t₂ := t₁.modEvt evt fun e => { e with time := time, type := type, tcbptr := m }
    let r := t₂.schedLoop TCP_NEVENTS TCP_EVT_HEAD (t₂.tcptimertab TCP_EVT_HEAD).next time
    t.tcpTimerSched time m type = (((t₂.link r.1 evt r.2.1).modEvt evt fun e =>
      { e with remain := r.2.2 }).handOn r.2.1 (-r.2.2), OK) := by
  unfold tcpTimerSched
  rw [if_neg htime, halloc]
  dsimp only
  generalize schedLoop _ _ _ _ _ = r
  obtain ⟨prev, _ | next, k⟩ := r <;> rfl

/-- **Scheduling**: the event gets its place among the times that remain if the time is not negative
and there is a spare record, and nothing happens otherwise. -/
theorem Queue.sched (h : t.Queue q) (time : Int) (m : Nat) (type : EvtType) :
    ((t.tcpTimerSched time m type).1.tcptimertab = t.tcptimertab ∧
        (t.tcpTimerSched time m type).2 = SYSERR ∧ (time < 0 ∨ ¬ t.Spare)) ∨
      ∃ evt ∉ TCP_EVT_HEAD :: q, 0 ≤ time ∧ (t.tcpTimerSched time m type).2 = OK ∧
        (t.tcpTimerSched time m type).1.Queue (insertDelta t.remains q evt time).1 ∧
        (t.tcpTimerSched time m type).1.remains = (insertDelta t.remains q evt time).2 ∧
        Alike (t.fill evt time m type) (t.tcpTimerSched time m type).1 := by
  by_cases htime : time < 0
  · unfold tcpTimerSched
    rw [if_pos htime]
    exact .inl ⟨rfl, rfl, .inl htime⟩
  rcases allocLoop_spec TCP_NEVENTS t with ⟨hnone, htab⟩ | ⟨evt, hsome, hlt, hhead, hfree, htab⟩
  · -- no record
    have halloc : t.allocEvent = ((allocLoop TCP_NEVENTS t).1, none) := Prod.ext rfl hnone
    unfold tcpTimerSched
    rw [if_neg htime, halloc]
    refine .inl ⟨htab, rfl, .inr fun hs => ?_⟩
    have := hs.allocEvent
    rw [halloc] at this
    exact absurd this (by simp)
  · have halloc : t.allocEvent = ((allocLoop TCP_NEVENTS t).1, some evt) := Prod.ext rfl hsome
    rw [tcpTimerSched_of_alloc htime halloc]
    generalize (allocLoop TCP_NEVENTS t).1 = t₁ at htab
    -- the record is marked and filled in, which the queue does not see
    generalize ht₂ : (t₁.modEvt evt fun e =>
        { e with time := time, type := type, tcbptr := m }) = t₂
    have hne₂ : ∀ i, i ≠ evt → t₂.tcptimertab i = t.tcptimertab i := fun i hi => by
      rw [← ht₂, modEvt_of_ne _ _ hi, htab, modEvt_of_ne _ _ hi]
    have hfill : t₂.tcptimertab = (t.fill evt time m type).tcptimertab := by
      funext i
      by_cases hi : i = evt
      · rw [← ht₂, hi, modEvt_self, htab, modEvt_self, fill, modEvt_self]
      · rw [hne₂ i hi, fill, modEvt_of_ne _ _ hi]
    have hself₂ : t₂.tcptimertab evt =
        { t.tcptimertab evt with used := true, time := time, type := type, tcbptr := m } := by
      rw [hfill, fill, modEvt_self]
    have hout : evt ∉ TCP_EVT_HEAD :: q := by
      intro hin
      rcases mem_cons.mp hin with heq | hin
      · exact hhead heq
      · exact absurd (hfree.symm.trans (h.record evt hin).2) (by simp)
    have hsame₂ : ∀ {α : Type} (g : TcpEvent → α),
        g (t₂.tcptimertab evt) = g (t.tcptimertab evt) → ∀ i, g (t₂.tcptimertab i) =
          g (t.tcptimertab i) := by
      intro α g hg i
      by_cases hi : i = evt
      · rw [hi, hg]
      · rw [hne₂ i hi]
    have hrem : t₂.remains = t.remains := funext (hsame₂ (·.remain) (by rw [hself₂]))
    have hchained : Chained (fun i => (t₂.tcptimertab i).next) TCP_EVT_HEAD q :=
      h.chained.congr fun i _ => hsame₂ (·.next) (by rw [hself₂]) i
    have hloop := schedLoop_eq TCP_NEVENTS time h.length_lt.le hchained
    rw [← hchained.next_eq, hrem] at hloop
    rw [hloop]
    obtain ⟨hlink, hkeep, halike⟩ := h.link (deltaSplit_append t.remains q time) hlt hout
      (by rw [hself₂]) hne₂
    -- the rest of the writes is about the times
    have hset : ∀ {u : Timer} (k : Int), u.Queue (insertDelta t.remains q evt time).1 →
        (u.modEvt evt fun e => { e with remain := k }).Queue (insertDelta t.remains q evt time).1 :=
      fun k hu => hu.congr (setRemain_field (·.next) (fun _ _ => rfl) _ _ _)
        (setRemain_field (·.used) (fun _ _ => rfl) _ _ _)
    refine .inr ⟨evt, hout, not_lt.mp htime, rfl, (hset _ hlink).handOn _ _, ?_,
      ((Alike.of_eq hfill).trans halike).trans (Alike.trans ?_ (.handOn ..))⟩
    · rw [remains_handOn, remains_modEvt, hkeep, hrem]
      rfl
    · exact .modEvt _ _ (fun _ => rfl) (fun _ => rfl) fun _ _ => rfl

/-- **Scheduling**: the event is put somewhere into the queue if the time is not negative and there
is a spare record, and nothing happens otherwise. -/
theorem Holds.sched (h : t.Holds es) (time : Int) (m : Nat) (type : EvtType) :
    ((t.tcpTimerSched time m type).1.Holds es ∧ (time < 0 ∨ ¬ t.Spare)) ∨
      ∃ l r, es = l ++ r ∧ (t.tcpTimerSched time m type).1.Holds (l ++ (m, type) :: r) := by
  obtain ⟨q, hq, rfl⟩ := h
  rcases hq.sched time m type with ⟨htab, -, hno⟩ | ⟨evt, hout, -, -, hq', -, halike⟩
  · refine .inl ⟨(hq.congr (fun i => ?_) fun i => ?_).holds (.of_eq htab), hno⟩ <;> rw [htab]
  · have happ := deltaSplit_append t.remains q time
    have hkind : ∀ i ∈ q, (t.fill evt time m type).kind i = t.kind i := fun i hi => by
      unfold kind fill
      rw [modEvt_of_ne _ _ fun heq : i = evt => hout (mem_cons_of_mem _ (heq ▸ hi))]
    refine .inr ⟨(deltaSplit t.remains q time).1.map t.kind,
      (deltaSplit t.remains q time).2.1.map t.kind, by rw [← map_append, happ], ?_⟩
    have hholds := hq'.holds halike
    rw [insertDelta, map_append, map_cons] at hholds
    rw [map_congr_left fun i hi => hkind i (happ ▸ mem_append_left _ hi),
      map_congr_left fun i hi => hkind i (happ ▸ mem_append_right _ hi)] at hholds
    have hevt : (t.fill evt time m type).kind evt = (m, type) := by
      unfold kind fill
      rw [modEvt_self]
    rwa [hevt] at hholds

/-! ## Taking events out -/

/-- No two events that match are next to each other. -/
def Apart (m : Nat) (type : Option EvtType) (es : List (Nat × EvtType)) : Prop :=
  es.IsChain fun a b => ¬ ((a.1 = m ∧ (type = none ∨ type = some a.2)) ∧
    (b.1 = m ∧ (type = none ∨ type = some b.2)))

/-- The events that stay. -/
def others (m : Nat) (type : Option EvtType) (es : List (Nat × EvtType)) : List (Nat × EvtType) :=
  es.filter fun a => ¬ (a.1 = m ∧ (type = none ∨ type = some a.2))

/-- An event is taken out of the queue: `p` is the one in front of it. -/
def unlink (t : Timer) (p cur : Nat) : Timer :=
  let e := t.tcptimertab cur
  let t :=
    match e.next with
    | none => t
    | some next => t.modEvt next fun e' => { e' with remain := e'.remain + e.remain }
  let t := t.modEvt p fun e' => { e' with next := e.next }
  t.modEvt cur fun e' => { e' with used := false }

theorem unlink_record (t : Timer) (hne : cur ≠ p) (hhead : cur ≠ TCP_EVT_HEAD) :
    ((t.unlink p cur).tcptimertab p).next = (t.tcptimertab cur).next ∧
      (∀ i, i ≠ p → ((t.unlink p cur).tcptimertab i).next = (t.tcptimertab i).next) ∧
      (∀ i, i ≠ cur → ((t.unlink p cur).tcptimertab i).used = (t.tcptimertab i).used) ∧
      ((t.unlink p cur).tcptimertab cur).used = false ∧
      (t.unlink p cur).remains = addAt t.remains (t.tcptimertab cur).next (t.remains cur) ∧
      Alike t (t.unlink p cur) := by
  have hunlink : t.unlink p cur = ((t.handOn (t.tcptimertab cur).next (t.remains cur)).modEvt p
      fun e => { e with next := (t.tcptimertab cur).next }).modEvt cur fun e =>
        { e with used := false } := by
    unfold unlink handOn remains
    dsimp only
  have hnext := handOn_field (·.next) (fun _ _ => rfl) t (t.tcptimertab cur).next (t.remains cur)
  have hused := handOn_field (·.used) (fun _ _ => rfl) t (t.tcptimertab cur).next (t.remains cur)
  rw [hunlink]
  refine ⟨?_, fun i hi => ?_, fun i hi => ?_, by rw [modEvt_self], ?_,
    (Alike.handOn ..).trans (Alike.trans (.modEvt _ p ?_ ?_ ?_) (.modEvt _ cur ?_ ?_ ?_))⟩
  · rw [modEvt_of_ne _ _ hne.symm, modEvt_self]
  · rw [setUsed_field (·.next) fun _ _ => rfl, modEvt_of_ne _ _ hi]
    exact hnext i
  · rw [modEvt_of_ne _ _ hi, setNext_field (·.used) fun _ _ => rfl]
    exact hused i
  · rw [← remains_handOn]
    funext i
    exact (setUsed_field (·.remain) (fun _ _ => rfl) ..).trans
      (setNext_field (·.remain) (fun _ _ => rfl) ..)
  · exact fun _ => rfl
  · exact fun _ => rfl
  · exact fun _ _ => rfl
  · exact fun _ => rfl
  · exact fun _ => rfl
  · exact fun h => absurd h hhead

/-- The records of a queue, and the one of an event in it. -/
theorem Queue.apart (h : t.Queue (l ++ cur :: r)) :
    cur ≠ l.getLastD TCP_EVT_HEAD ∧ (∀ i ∈ TCP_EVT_HEAD :: (l ++ r), i ≠ cur) ∧
      (TCP_EVT_HEAD :: (l ++ r)).Nodup ∧ (t.tcptimertab cur).next = r.head? := by
  have hnd := h.nodup
  rw [← cons_append, nodup_middle, nodup_cons, cons_append] at hnd
  refine ⟨fun heq => hnd.1 ?_, fun i hi heq => hnd.1 (heq ▸ hi), hnd.2, h.chained.behind.2.next_eq⟩
  rw [heq, ← cons_append]
  exact mem_append_left r (getLastD_mem l TCP_EVT_HEAD)

/-- The queue without an event, once the link in front of it leads behind it. -/
theorem Queue.removed (h : t.Queue (l ++ cur :: r))
    (hlast : (t'.tcptimertab (l.getLastD TCP_EVT_HEAD)).next = (t.tcptimertab cur).next)
    (hnext : ∀ i, i ≠ l.getLastD TCP_EVT_HEAD → (t'.tcptimertab i).next = (t.tcptimertab i).next)
    (hused : ∀ i, i ≠ cur → (t'.tcptimertab i).used = (t.tcptimertab i).used)
    (hcur' : (t'.tcptimertab cur).used = false) : t'.Queue (l ++ r) := by
  obtain ⟨-, hne, hnd, hcur⟩ := h.apart
  refine ⟨h.chained.remove h.nodup (hlast.trans hcur) fun i _ hi => hnext i hi, hnd, fun i hi => ?_,
    fun i hi hi' hu => ?_⟩
  · rw [hused i (hne i (mem_cons_of_mem _ hi))]
    exact h.record i (perm_middle.mem_iff.mpr (mem_cons_of_mem cur hi))
  · by_cases heq : i = cur
    · rw [heq, hcur'] at hu
      exact absurd hu (by simp)
    · rw [hused i heq] at hu
      exact mem_of_ne_of_mem heq (perm_middle.mem_iff.mp (h.only i hi hi' hu))

theorem Queue.unlink (h : t.Queue (l ++ cur :: r)) :
    (t.unlink (l.getLastD TCP_EVT_HEAD) cur).Queue (l ++ r) ∧
      ((t.unlink (l.getLastD TCP_EVT_HEAD) cur).tcptimertab cur).next = r.head? ∧
      (t.unlink (l.getLastD TCP_EVT_HEAD) cur).remains = addAt t.remains r.head? (t.remains cur) ∧
      Alike t (t.unlink (l.getLastD TCP_EVT_HEAD) cur) := by
  obtain ⟨hne, hout, -, hcur⟩ := h.apart
  obtain ⟨hlast, hnext, hused, hcur', hrem, halike⟩ :=
    t.unlink_record hne (hout _ mem_cons_self).symm
  exact ⟨h.removed hlast hnext hused hcur', (hnext cur hne).trans hcur, hcur ▸ hrem, halike⟩

theorem Alike.matches_iff (h : Alike t t') (m : Nat) (type : Option EvtType) (i : Nat) :
    Matches m type (t'.tcptimertab i) ↔ Matches m type (t.tcptimertab i) := by
  obtain ⟨hm, htype⟩ := Prod.mk.inj (h.kind i)
  unfold Matches
  rw [hm, htype]

/-- The loop of `tcpTimerPurge` over the rest of the queue. The record it has come from is the last
one that stays, or has been taken out; then the next event does not match. -/
theorem purgeLoop_spec (m : Nat) (type : Option EvtType) (n : Nat)
    (result : Int) (hn : r.length ≤ n) (hq : t.Queue (l ++ r))
    (hapart : Apart m type (r.map t.kind))
    (hp : p = l.getLastD TCP_EVT_HEAD ∨ ∀ c ∈ r.head?, ¬ Matches m type (t.tcptimertab c)) :
    (purgeLoop m type n p r.head? result t).1.Queue
        (l ++ r.filter fun c => ¬ Matches m type (t.tcptimertab c)) ∧
      Alike t (purgeLoop m type n p r.head? result t).1 ∧
      ∀ D, Keeps t.remains (l ++ r) D → Keeps (purgeLoop m type n p r.head? result t).1.remains
        (l ++ r.filter fun c => ¬ Matches m type (t.tcptimertab c)) D := by
  induction n generalizing l r p result t with
  | zero =>
    obtain rfl := eq_nil_of_length_eq_zero (Nat.le_zero.mp hn)
    exact ⟨hq, .of_eq rfl, fun D h => h⟩
  | succ n ih =>
    cases r with
    | nil => exact ⟨hq, .of_eq rfl, fun D h => h⟩
    | cons cur r =>
      have hn' : r.length ≤ n := Nat.le_of_succ_le_succ hn
      obtain ⟨hnext, hrest⟩ := isChain_cons.mp hapart
      rw [head?_cons, purgeLoop]
      by_cases hm : Matches m type (t.tcptimertab cur)
      · rw [if_pos hm]
        -- the record in front of it is in the queue
        obtain rfl := hp.resolve_right fun h => h cur rfl hm
        obtain ⟨hq', hcur, hrem, halike⟩ := hq.unlink
        have hsame := halike.matches_iff m type
        have hmap : r.map (t.unlink (l.getLastD TCP_EVT_HEAD) cur).kind = r.map t.kind :=
          map_congr_left fun i _ => halike.kind i
        have hback : ∀ c ∈ r.head?,
            ¬ Matches m type ((t.unlink (l.getLastD TCP_EVT_HEAD) cur).tcptimertab c) := by
          intro c hc hmc
          refine hnext (t.kind c) ?_ ⟨hm, (hsame c).mp hmc⟩
          rw [head?_map, hc]
          rfl
        have := ih (p := cur) (if result = SYSERR then
          (t.tcptimertab cur).time - (t.tcptimertab cur).remain else result) hn' hq'
          (by rw [hmap]; exact hrest) (Or.inr hback)
        rw [← hcur] at this
        rw [filter_cons_of_neg (by simpa using hm)]
        simp only [hsame] at this
        refine ⟨this.1, halike.trans this.2.1, fun D hD => this.2.2 D ?_⟩
        rw [hrem]
        exact hD.remove_append
      · rw [if_neg hm]
        rw [append_cons] at hq
        have hcur : (t.tcptimertab cur).next = r.head? := by
          have := hq.chained.behind.next_eq
          rwa [getLastD_concat] at this
        have := ih result hn' hq hrest (.inl (by rw [getLastD_concat]))
        rw [← hcur] at this
        rw [filter_cons_of_pos (by simpa using hm), append_cons l cur r,
          append_cons l cur (r.filter _)]
        exact this

theorem Holds.length_le (h : t.Holds es) : es.length ≤ 3 * NTCP := by
  obtain ⟨q, hq, rfl⟩ := h
  rw [length_map]
  exact Nat.le_of_lt_succ hq.length_lt

/-- There is a spare record exactly if not every record is in the queue. -/
theorem Holds.spare_iff (h : t.Holds es) : t.Spare ↔ es.length < 3 * NTCP := by
  obtain ⟨q, hq, rfl⟩ := h
  rw [length_map]
  constructor
  · rintro ⟨i, hi, hhead, hfree⟩
    -- with the free record, the queue still fits into the table
    have hout : i ∉ TCP_EVT_HEAD :: q := by
      intro hin
      rcases mem_cons.mp hin with heq | hin
      · exact hhead heq
      · exact absurd (hfree.symm.trans (hq.record i hin).2) (by simp)
    have hsub : i :: TCP_EVT_HEAD :: q ⊆ range TCP_NEVENTS := by
      intro j hj
      rw [mem_range]
      rcases mem_cons.mp hj with rfl | hj
      · exact hi
      · rcases mem_cons.mp hj with rfl | hj
        · decide
        · exact (hq.record j hj).1
    have := (subperm_of_subset (nodup_cons.mpr ⟨hout, hq.nodup⟩) hsub).length_le
    rw [length_cons, length_cons, length_range] at this
    unfold TCP_NEVENTS at this
    omega
  · intro hlt
    by_contra hno
    have hsub : range TCP_NEVENTS ⊆ TCP_EVT_HEAD :: q := by
      intro j hj
      by_cases hhead : j = TCP_EVT_HEAD
      · exact hhead ▸ mem_cons_self
      · refine mem_cons_of_mem _ (hq.only j (mem_range.mp hj) hhead ?_)
        by_contra hu
        exact hno ⟨j, mem_range.mp hj, hhead, Bool.not_eq_true _ ▸ hu⟩
    have := (subperm_of_subset nodup_range hsub).length_le
    rw [length_cons, length_range] at this
    unfold TCP_NEVENTS at this
    omega

/-- **Purging**: the events that match are taken out, if no two of them are next to each other, and
the others are due when they were. -/
theorem Queue.purge (h : t.Queue q) {type : Option EvtType} (hapart : Apart m type (q.map t.kind)) :
    (t.tcpTimerPurge m type).1.Queue (q.filter fun c => ¬ Matches m type (t.tcptimertab c)) ∧
      Alike t (t.tcpTimerPurge m type).1 ∧
      ∀ D, Keeps t.remains q D → Keeps (t.tcpTimerPurge m type).1.remains
        (q.filter fun c => ¬ Matches m type (t.tcptimertab c)) D := by
  have hpurge := purgeLoop_spec m type TCP_NEVENTS (l := []) (p := TCP_EVT_HEAD) SYSERR
    h.length_lt.le h hapart (Or.inl rfl)
  rw [← h.chained.next_eq] at hpurge
  exact hpurge

theorem Holds.purge (h : t.Holds es) {type : Option EvtType} (hapart : Apart m type es) :
    (t.tcpTimerPurge m type).1.Holds (others m type es) := by
  obtain ⟨q, hq, rfl⟩ := h
  obtain ⟨hq', halike, -⟩ := hq.purge hapart
  unfold others
  rw [filter_map]
  exact hq'.holds halike

/-- **The timer** takes the first event. -/
theorem Queue.take (h : t.Queue (i :: q)) :
    t.take.2 = some (t.tcptimertab i) ∧ t.take.1.Queue q ∧ t.take.1.remains = t.remains ∧
      Alike t t.take.1 := by
  have hne : i ≠ TCP_EVT_HEAD := (h.apart (l := [])).1
  have htake : t.take = ((t.modEvt i fun e => { e with used := false }).modEvt TCP_EVT_HEAD fun e =>
      { e with next := (t.tcptimertab i).next }, some (t.tcptimertab i)) := by
    unfold Timer.take
    rw [h.chained.next_eq]
    rfl
  rw [htake]
  dsimp only
  refine ⟨rfl, h.removed (l := []) ?_ (fun j hj => ?_) (fun j hj => ?_) ?_, ?_,
    Alike.trans (.modEvt _ i ?_ ?_ ?_) (.modEvt _ _ ?_ ?_ ?_)⟩
  · rw [getLastD_nil, modEvt_self]
  · have hj : j ≠ TCP_EVT_HEAD := hj
    rw [modEvt_of_ne _ _ hj, setUsed_field (·.next) fun _ _ => rfl]
  · rw [setNext_field (·.used) fun _ _ => rfl, modEvt_of_ne _ _ hj]
  · rw [modEvt_of_ne _ _ hne, modEvt_self]
  · funext j
    exact (setNext_field (·.remain) (fun _ _ => rfl) ..).trans
      (setUsed_field (·.remain) (fun _ _ => rfl) ..)
  · exact fun _ => rfl
  · exact fun _ => rfl
  · exact fun h => absurd h hne
  · exact fun _ => rfl
  · exact fun _ => rfl
  · exact fun _ _ => rfl

theorem Holds.take (h : t.Holds es) :
    (es = [] ∧ t.take = (t, none)) ∨
      ∃ e rest, es = (e.tcbptr, e.type) :: rest ∧ t.take.2 = some e ∧ t.take.1.Holds rest := by
  obtain ⟨q, hq, rfl⟩ := h
  cases q with
  | nil =>
    refine .inl ⟨rfl, ?_⟩
    unfold take
    rw [hq.chained.next_eq]
    rfl
  | cons i q =>
    obtain ⟨hsome, hq', -, halike⟩ := hq.take
    exact .inr ⟨_, _, rfl, hsome, hq'.holds halike⟩

/-- **Time** passes, and the events stay. -/
theorem Holds.elapse (h : t.Holds es) (time : Nat) : (t.elapse time).Holds es := by
  obtain ⟨q, hq, rfl⟩ := h
  unfold elapse
  split
  · exact ⟨q, hq, rfl⟩
  · split_ifs
    · exact ⟨q, hq, rfl⟩
    · exact (hq.handOn (some _) (-time)).holds (.handOn t _ _)

/-! ## Finding an event -/

theorem remainLoop_spec (n : Nat) (time : Int) (m : Nat) (type : EvtType)
    (hq : Chained (fun i => (t.tcptimertab i).next) p q)
    (hno : (m, type) ∉ q.map t.kind) : t.remainLoop m type n q.head? time = 0 := by
  induction n generalizing p q time with
  | zero => rfl
  | succ n ih =>
    cases q with
    | nil => rfl
    | cons i q =>
      rw [map_cons, mem_cons, not_or] at hno
      rw [head?_cons, remainLoop, if_neg fun h => hno.1 (Prod.ext h.1 h.2).symm, hq.2.next_eq]
      exact ih _ hq.2 hno.2

/-- **Remaining time**: an event with time left is in the queue. -/
theorem Holds.remain (h : t.Holds es) (hpos : 0 < t.tcpTimerRemain m type) : (m, type) ∈ es := by
  obtain ⟨q, hq, rfl⟩ := h
  by_contra hno
  have := remainLoop_spec TCP_NEVENTS 0 m type hq.chained hno
  rw [← hq.chained.next_eq] at this
  unfold tcpTimerRemain at hpos
  omega

/-! ## Events in the list -/

/-- A record of an event of the control block with the type is in use. -/
def Queued (t : Timer) (m : Nat) (type : EvtType) : Prop :=
  ∃ i < TCP_NEVENTS, i ≠ TCP_EVT_HEAD ∧ (t.tcptimertab i).used = true ∧ t.kind i = (m, type)

instance (t : Timer) (m : Nat) (type : EvtType) : Decidable (t.Queued m type) :=
  inferInstanceAs (Decidable (∃ i < TCP_NEVENTS, _ ∧ _ ∧ _))

theorem Holds.queued_iff (h : t.Holds es) : t.Queued m type ↔ (m, type) ∈ es := by
  obtain ⟨q, hq, rfl⟩ := h
  rw [mem_map]
  constructor
  · rintro ⟨i, hi, hhead, hused, hkind⟩
    exact ⟨i, hq.only i hi hhead hused, hkind⟩
  · rintro ⟨i, hi, hkind⟩
    refine ⟨i, (hq.record i hi).1, ?_, (hq.record i hi).2, hkind⟩
    exact fun heq => (nodup_cons.mp hq.nodup).1 (heq ▸ hi)

theorem holds_nil (hhead : (t.tcptimertab TCP_EVT_HEAD).next = none)
    (hfree : ∀ i < TCP_NEVENTS, i ≠ TCP_EVT_HEAD → (t.tcptimertab i).used = false) : t.Holds [] :=
  ⟨[], ⟨hhead, nodup_singleton _, by simp, fun i hi hne hu =>
    absurd ((hfree i hi hne).symm.trans hu) (by simp)⟩, rfl⟩

theorem apart_of_count_le_one (h : es.count (m, type) ≤ 1) : Apart m (some type) es := by
  have hkey : ∀ a : Nat × EvtType, (a.1 = m ∧ (some type = none ∨ some type = some a.2)) →
      a = (m, type) := by
    rintro ⟨x, y⟩ ⟨hx, hy⟩
    exact Prod.ext hx (Option.some.inj (hy.resolve_left (by simp))).symm
  induction es with
  | nil => exact isChain_nil
  | cons a l ih =>
    refine isChain_cons.mpr ⟨fun y hy hboth => ?_, ih ?_⟩
    · -- two events that are next to each other are two events
      obtain ⟨l', rfl⟩ : ∃ l', l = y :: l' := by
        cases l with
        | nil => exact absurd hy (by simp)
        | cons z l' => exact ⟨l', by rw [Option.some.inj hy]⟩
      rw [hkey a hboth.1, hkey y hboth.2, count_cons_self, count_cons_self] at h
      omega
    · exact (count_le_count_cons ..).trans h

/-- The events that stay when those of one type are taken out. -/
theorem mem_others_some {x : Nat × EvtType} :
    x ∈ others m (some type) es ↔ x ∈ es ∧ x ≠ (m, type) := by
  unfold others
  rw [mem_filter]
  refine and_congr_right fun _ => ?_
  obtain ⟨a, b⟩ := x
  simp only [decide_not, Bool.not_eq_eq_eq_not, Bool.not_true, decide_eq_false_iff_not, ne_eq,
    Prod.mk.injEq, reduceCtorEq, false_or, Option.some.injEq]
  rw [eq_comm (a := type)]

theorem length_others_le (m : Nat) (type : Option EvtType) (es : List (Nat × EvtType)) :
    (others m type es).length ≤ es.length := length_filter_le ..

theorem count_others_le (m : Nat) (type : Option EvtType) (es : List (Nat × EvtType))
    (x : Nat × EvtType) : (others m type es).count x ≤ es.count x :=
  (filter_sublist ..).count_le x

theorem count_others_of_ne {x : Nat × EvtType} (hx : x ≠ (m, type)) :
    (others m (some type) es).count x = es.count x := by
  refine count_filter ?_
  rw [decide_eq_true_eq]
  rintro ⟨hm, htype⟩
  exact hx (Prod.ext hm (Option.some.inj (htype.resolve_left (by simp))).symm)

end Timer

end Xinu.Tcp
