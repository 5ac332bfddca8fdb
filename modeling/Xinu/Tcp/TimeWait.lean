import Xinu.Tcp.Rearming

/-!
# The end of TIME-WAIT

A connection in TIME-WAIT ends by a timer event. It is scheduled where the FIN of the other side is
processed in FINWT2, after all events of the control block have been purged, and where the FIN of
this side is acknowledged in CLOSING. The state TIMEWT itself is never reached: CLOSING goes on to
FINWT2, and where FINWT1 would go to TIMEWT the acknowledgement has already taken it to FINWT2.

`tcpTimerPurge` does not take out the second of two events that stand next to each other. What is
left of a connection that way stays in the queue for the next connection of the same control block.
Where no purge finds two such events, and the table is not exhausted when TIME-WAIT begins, there is
one event for its end in every run.

## Main results

* `Kept.received`, `Kept.tcpOpen`, `Kept.tcpClose`, `Kept.expire`: what the steps make of the events
* `timewait_has_one_event`: exactly one event in TIME-WAIT, in every run of tidy steps
-/

namespace Xinu.Tcp

open List SinglyLinked Device

variable {c : Call} {n : Nat} {pkt : TcpPkt} {es : List (Nat × EvtType)}

/-! ## The events in the queue -/

namespace Timer

/-- The events from a record on. -/
def walk (t : Timer) : Nat → Option Nat → List (Nat × EvtType)
  | 0, _ => []
  | _ + 1, none => []
  | n + 1, some i => t.kind i :: t.walk n (t.tcptimertab i).next

/-- The events that `tcpTimer` will come to. -/
def events (t : Timer) : List (Nat × EvtType) :=
  t.walk TCP_NEVENTS (t.tcptimertab TCP_EVT_HEAD).next

variable {t : Timer} {m : Nat} {type : EvtType}

theorem walk_of_chained {p : Nat} {q : List Nat}
    (h : Chained (fun i => (t.tcptimertab i).next) p q) (hn : q.length ≤ n) :
    t.walk n (t.tcptimertab p).next = q.map t.kind := by
  induction q generalizing p n with
  | nil =>
    rw [show (t.tcptimertab p).next = none from h.next_eq]
    cases n <;> rfl
  | cons i q ih =>
    cases n with
    | zero => simp at hn
    | succ n =>
      rw [show (t.tcptimertab p).next = some i from h.next_eq, walk, map_cons]
      rw [ih h.2 (Nat.le_of_succ_le_succ hn)]

theorem Holds.events (h : t.Holds es) : t.events = es := by
  obtain ⟨q, hq, rfl⟩ := h
  exact walk_of_chained hq.chained hq.length_lt.le

/-- Taking events of the control block out brings none of those that are left together. -/
theorem Apart.others (h : Apart m none es) (type : EvtType) :
    Apart m none (others m (some type) es) := by
  -- an event that is taken out has none of its kind next to it
  have hfilter : ∀ (l : List (Nat × EvtType)) (a : Nat × EvtType), Apart m none (a :: l) →
      Apart m none (a :: Timer.others m (some type) l) := by
    intro l
    induction l with
    | nil => exact fun a _ => isChain_singleton a
    | cons b l ih =>
      intro a hab
      obtain ⟨hfirst, hrest⟩ := isChain_cons_cons.mp hab
      have hb := ih b hrest
      unfold Timer.others at hb ⊢
      by_cases hkeep : b.1 = m ∧ (some type = none ∨ some type = some b.2)
      · rw [filter_cons_of_neg (by rw [decide_eq_true_eq]; exact not_not.mpr hkeep)]
        have ha : a.1 ≠ m := fun ha => hfirst ⟨⟨ha, .inl rfl⟩, hkeep.1, .inl rfl⟩
        refine isChain_cons.mpr ⟨fun y _ hown => ha hown.1.1, ?_⟩
        exact (isChain_cons.mp hb).2
      · rw [filter_cons, if_pos (decide_eq_true hkeep)]
        exact isChain_cons_cons.mpr ⟨hfirst, hb⟩
  cases es with
  | nil => exact h
  | cons a l =>
    have ha := hfilter l a h
    unfold Timer.others at ha ⊢
    rw [filter_cons]
    split
    · exact ha
    · exact (isChain_cons.mp ha).2

/-- An event that could not be scheduled is not in the queue. -/
theorem Holds.sched_failed (h : t.Holds es) {time : Int}
    (hf : (t.tcpTimerSched time m type).2 = SYSERR) : (t.tcpTimerSched time m type).1.Holds es := by
  obtain ⟨q, hq, rfl⟩ := h
  have hok : OK ≠ SYSERR := by decide
  rcases hq.sched time m type with ⟨htab, -⟩ | ⟨_, -, -, hsched, -⟩
  · refine (hq.congr (fun i => ?_) fun i => ?_).holds (.of_eq htab) <;> rw [htab]
  · exact absurd (hsched.symm.trans hf) hok

theorem count_others_none (m : Nat) (es : List (Nat × EvtType)) (type : EvtType) :
    (others m none es).count (m, type) = 0 := by
  refine count_eq_zero.mpr fun hin => ?_
  simp [others] at hin

end Timer

/-! ## The number of events for the end of TIME-WAIT -/

/-- The queue holds the events `es`, and `n` of them are for the end of TIME-WAIT. -/
structure Kept (n : Nat) (d : Device) (es : List (Nat × EvtType)) : Prop where
  holds : d.timer.Holds es
  count : es.count (d.minor, .timewt) = n

/-- There are `n` events for the end of TIME-WAIT. -/
def Keeps (n : Nat) (d : Device) : Prop := ∃ es, Kept n d es

variable {d d' : Device}

section

variable (h : Kept n d es)
include h

theorem Kept.same (hs : (d'.timer, d'.minor) = (d.timer, d.minor)) : Kept n d' es := by
  obtain ⟨ht, hm⟩ := Prod.mk.inj hs
  refine ⟨?_, ?_⟩
  · rw [ht]
    exact h.holds
  · rw [hm]
    exact h.count

theorem Kept.calm (hc : Calm d d') : Kept n d' es := h.same (Prod.ext hc.timer hc.minor)

theorem Kept.sched (time : Int) (type : EvtType) (hne : type ≠ .timewt) :
    ∃ es', Kept n (d.tcpTimerSched time type).1 es' := by
  obtain ⟨es', hholds, hadds, -⟩ := h.holds.adds time d.minor type
  exact ⟨es', hholds, (hadds.same _ fun heq => hne (Prod.mk.inj heq).2.symm).trans h.count⟩

theorem Kept.purge (type : EvtType) (hne : type ≠ .timewt) (hone : es.count (d.minor, type) ≤ 1) :
    Kept n (d.tcpTimerPurge (some type)).1 (Timer.others d.minor (some type) es) := by
  refine ⟨h.holds.purge (Timer.apart_of_count_le_one hone), ?_⟩
  exact (Timer.count_others_of_ne fun heq => hne (Prod.mk.inj heq).2.symm).trans h.count

theorem Kept.purgeAll (hapart : Timer.Apart d.minor none es) :
    Kept 0 (d.tcpTimerPurge none).1 (Timer.others d.minor none es) :=
  ⟨h.holds.purge hapart, Timer.count_others_none ..⟩

theorem Kept.schedTimewt (hspare : es.length < 3 * NTCP) :
    ∃ es', Kept (n + 1) (d.tcpTimerSched TCP_TWOMSL .timewt).1 es' ∧
      es'.length ≤ es.length + 1 := by
  obtain ⟨es', hholds, hadds, hcount⟩ := h.holds.adds TCP_TWOMSL d.minor .timewt
  exact ⟨es', ⟨hholds, (hcount (by decide) hspare).trans (by rw [h.count])⟩, hadds.length⟩

end

namespace Keeps

section

variable (h : Keeps n d)
include h

theorem calm (hc : Calm d d') : Keeps n d' := h.imp fun _ he => he.calm hc

theorem same (hs : (d'.timer, d'.minor) = (d.timer, d.minor)) : Keeps n d' :=
  h.imp fun _ he => he.same hs

theorem ite {c : Prop} {_ : Decidable c} (h' : Keeps n d') : Keeps n (if c then d else d') := by
  split_ifs
  · exact h
  · exact h'

theorem sched (time : Int) (type : EvtType) (hne : type ≠ .timewt) :
    Keeps n (d.tcpTimerSched time type).1 := by
  obtain ⟨es, he⟩ := h
  exact he.sched time type hne

theorem transmit (ctrl : Control) (wndused tosend : Nat) :
    Keeps n (d.transmit ctrl wndused tosend).1 := by
  obtain ⟨e, he, hcalm⟩ := d.transmit_cases ctrl wndused tosend
  have hsent := h.same (Prod.ext he.timer he.minor)
  exact .calm (.ite (hsent.sched _ .rxt nofun) hsent) hcalm

theorem tcpSendData : Keeps n d.tcpSendData.1 := by
  unfold Device.tcpSendData
  dsimp only
  split_ifs
  · exact h
  · exact h
  · exact h
  · have hset : Keeps n (d.modSnd fun s => { s with
        sndflg := { s.sndflg with persist := true }, psttime := TCP_PST_INITTIME }) :=
      h.same rfl
    exact hset.sched _ .persist nofun
  · exact h
  · exact h.sched _ .rxt nofun
  · exact h
  · exact (h.calm (d.calm_noteTosend _)).transmit _ _ _

theorem respond : Keeps n d.respond := by
  have hdata : Keeps n (if d.tcb.snd.sndflg.snddata = true then d.tcpSendData.1 else d) :=
    .ite h.tcpSendData h
  exact hdata.calm (.ite (calm_tcpSendAck _) (.refl _))

theorem closeSend : Keeps n d.closeSend.1 := by
  have hdata : Keeps n (if d.tcb.snd.sndflg.snddata = true then d.tcpSendData.1 else d) :=
    .ite h.tcpSendData h
  exact hdata.same rfl

theorem tcpSendSyn : Keeps n d.tcpSendSyn.1 := by
  obtain ⟨e, he, hsyn | hsyn⟩ := d.tcpSendSyn_cases <;> rw [hsyn]
  · exact h.calm he
  · have hset : Keeps n e.numberSyn := (h.calm he).same rfl
    exact hset.sched _ .rxt nofun

end

end Keeps

/-! ## Acknowledgements -/

/-- At most one event of each type that a segment purges. -/
def Timer.Single (m : Nat) (es : List (Nat × EvtType)) : Prop :=
  es.count (m, .rxt) ≤ 1 ∧ es.count (m, .persist) ≤ 1
deriving Decidable

theorem Kept.tcpRecvAck (h : Kept n d es) (hone : Timer.Single d.minor es) (pkt : TcpPkt) :
    ∃ es', Kept n (d.tcpRecvAck pkt) es' ∧ (d.tcpRecvAck pkt).minor = d.minor ∧
      es'.length ≤ es.length + 1 := by
  obtain ⟨e, he, hcalm⟩ := d.tcpRecvAck_cases pkt
  have hack : ∃ es', Kept n e es' ∧ e.minor = d.minor ∧ es'.count (d.minor, .persist) ≤ 1 ∧
      es'.length ≤ es.length + 1 := by
    rcases he with rfl | rfl
    · exact ⟨es, h, rfl, hone.2, Nat.le_succ _⟩
    · obtain ⟨es', ha⟩ := d.acknowledge_events h.holds hone.1 pkt.acknum
      refine ⟨es', ⟨ha.holds, ?_⟩, ha.minor, (ha.others _ (by simp)).trans_le hone.2, ha.length⟩
      rw [ha.minor, ha.others _ (by simp)]
      exact h.count
  obtain ⟨es', hes', hminor, hone', hlen⟩ := hack
  obtain ⟨hsame | ⟨htimer, -⟩, hminor', -⟩ := e.updateWindow_cases pkt
  · exact ⟨es', (hes'.same (Prod.ext hsame.timer hsame.minor)).calm hcalm,
      hcalm.minor.trans (hminor'.trans hminor), hlen⟩
  · have hpurge := hes'.purge .persist (by simp) (by rw [hminor]; exact hone')
    exact ⟨_, (hpurge.same (Prod.ext htimer hminor')).calm hcalm,
      hcalm.minor.trans (hminor'.trans hminor),
      (Timer.length_others_le ..).trans hlen⟩

/-- What an acknowledgement makes of the state. -/
structure Answers (d d' : Device) : Prop where
  timewt : d'.tcb.state ≠ .timewt
  finwt1 : d'.tcb.state = .finwt1 → ¬ seqlt d'.tcb.snd.sndfin d'.tcb.snd.snduna
  finwt2 : d.tcb.state = .finwt2 → d'.tcb.state = .finwt2
  closed : d'.tcb.state = .closed → d.tcb.state = .closed

theorem seqlte_of_seqlt {a b : Nat} (h : seqlt a b) : seqlte a b := by
  unfold seqlte
  unfold seqlt at h
  omega

theorem Answers.of_finwt2 (h : d'.tcb.state = .finwt2) : Answers d d' :=
  ⟨by simp [h], by simp [h], fun _ => h, by simp [h]⟩

theorem Answers.of_state (hst : d'.tcb.state = d.tcb.state)
    (h1 : d.tcb.state ≠ .finwt1) (ht : d.tcb.state ≠ .timewt) : Answers d d' where
  timewt := by rw [hst]; exact ht
  finwt1 := fun h => absurd (hst.symm.trans h) h1
  finwt2 := hst.trans
  closed := fun h => hst.symm.trans h

theorem Device.Answer.answers {r : Device × Option Int} (h : d.Answer pkt r)
    (hst : d.tcb.state ≠ .timewt) : Answers d r.1 := by
  cases h with
  | left hcalm h1 => exact .of_state hcalm.state h1 hst
  | opened hs =>
    have hst' := (quiet_tcpRecvAck (d.setState .estab).signalOpenclose pkt).state
    generalize (d.setState .estab).signalOpenclose.tcpRecvAck pkt = e at hst'
    have he : e.tcb.state = .estab := hst'
    exact ⟨by simp [he], by simp [he], by simp [hs], by simp [he]⟩
  | acked hcalm hfin =>
    have hst' := hcalm.state.trans (d.quiet_tcpRecvAck pkt).state
    refine ⟨hst' ▸ hst, fun h1 hlt => ?_, hst'.trans, hst'.symm.trans⟩
    exact hfin (hst'.symm.trans h1) (seqlte_of_seqlt hlt)
  | finished | turned => exact .of_finwt2 rfl

/-- The acknowledgement of a segment, where it does not begin TIME-WAIT. -/
theorem Kept.recvAckState (h : Kept n d es) (hone : Timer.Single d.minor es)
    (hst : d.tcb.state ≠ .timewt) (pkt : TcpPkt)
    (hno : d.tcb.state = .closing → (d.recvAckState pkt).1.tcb.state ≠ .finwt2) :
    ∃ es', Kept n (d.recvAckState pkt).1 es' ∧ es'.length ≤ es.length + 1 := by
  obtain ⟨es', hes', -, hlen⟩ := h.tcpRecvAck hone pkt
  have hanswer := d.answer_recvAckState hst pkt
  generalize d.recvAckState pkt = r at hno hanswer
  cases hanswer with
  | left hcalm => exact ⟨es, h.calm hcalm, Nat.le_succ _⟩
  | opened =>
    have hopen : Kept n (d.setState .estab).signalOpenclose es := h.same rfl
    obtain ⟨es', hes', -, hlen⟩ := hopen.tcpRecvAck hone pkt
    exact ⟨es', hes', hlen⟩
  | acked hcalm => exact ⟨es', hes'.calm hcalm, hlen⟩
  | finished => exact ⟨es', hes'.same rfl, hlen⟩
  | turned hs => exact absurd rfl (hno hs)

/-- Where the acknowledgement ends the processing of the segment, nothing has happened. -/
theorem Device.Answer.calm {x : Int} (h : d.Answer pkt (e, some x)) :
    Calm d e ∧ e.tcb.state ≠ .finwt2 := by
  cases h with
  | left hcalm h1 h2 => exact ⟨hcalm, hcalm.state ▸ h2⟩

/-- In CLOSING the acknowledgement begins TIME-WAIT. -/
theorem Kept.recvAckState_closing (h : Kept n d es) (hone : Timer.Single d.minor es)
    (hs : d.tcb.state = .closing) (pkt : TcpPkt)
    (hturn : (d.recvAckState pkt).1.tcb.state = .finwt2) (hspare : es.length + 1 < 3 * NTCP) :
    ∃ es', Kept (n + 1) (d.recvAckState pkt).1 es' ∧ es'.length ≤ es.length + 2 := by
  obtain ⟨es', hes', hminor, hlen⟩ := h.tcpRecvAck hone pkt
  have hstate := (d.quiet_tcpRecvAck pkt).state
  unfold Device.recvAckState at hturn ⊢
  rw [hs] at hturn ⊢
  dsimp only at hturn ⊢
  generalize d.tcpRecvAck pkt = e at hes' hminor hturn hstate
  split_ifs at hturn ⊢
  · have hset : Kept n (e.signalOpenclose.setState .finwt2) es' := hes'.same rfl
    obtain ⟨es'', hes'', hlen''⟩ := hset.schedTimewt (by omega)
    exact ⟨es'', hes'', by omega⟩
  · rw [hstate, hs] at hturn
    exact absurd hturn (by simp)

/-! ## The FIN of the other side -/

/-- The FIN of the other side is processed with the segment. -/
def Device.FinTaken (d : Device) (pkt : TcpPkt) : Prop :=
  let r := d.recvText pkt
  r.2.2 = true ∧ r.1.tcb.rcv.rcvnxt =
    if r.1.tcb.rcv.rcvflg.fin = true then r.1.tcb.rcv.rcvfin else seqadd pkt.seqnum r.2.1
deriving Decidable

/-- What the data of a segment makes of the state. -/
structure Goes (d d' : Device) : Prop where
  timewt : d'.tcb.state ≠ .timewt
  finwt2 : d'.tcb.state = .finwt2 ↔ d.tcb.state = .finwt2
  closed : d'.tcb.state = .closed → d.tcb.state = .closed

theorem Goes.of_state (hst : d'.tcb.state = d.tcb.state) (ht : d.tcb.state ≠ .timewt) :
    Goes d d' := by
  refine ⟨?_, ?_, ?_⟩ <;> rw [hst]
  · exact ht
  · exact id

theorem Goes.of_set {a b : TcpState} (hst' : d'.tcb.state = b) (hst : d.tcb.state = a)
    (h : a ≠ .finwt2) (h2 : b ≠ .finwt2) (ht : b ≠ .timewt) (hc : b ≠ .closed) : Goes d d' := by
  subst hst' hst
  exact ⟨ht, ⟨fun h' => absurd h' h2, fun h' => absurd h' h⟩, fun h' => absurd h' hc⟩

theorem Goes.trans_state {d'' : Device} (h : Goes d d') (hst : d''.tcb.state = d'.tcb.state) :
    Goes d d'' := by
  obtain ⟨ht, h2, hc⟩ := h
  rw [← hst] at ht h2 hc
  exact ⟨ht, h2, hc⟩

/-- **The FIN is processed.** In FINWT2 all events are purged, and TIME-WAIT begins. -/
theorem Kept.processFin (h : Kept n d es) (hst : d.tcb.state ≠ .timewt)
    (h1 : d.tcb.state = .finwt1 → ¬ seqlt d.tcb.snd.sndfin d.tcb.snd.snduna)
    (h2 : d.tcb.state = .finwt2 → Timer.Apart d.minor none es ∧ es.length < 3 * NTCP) :
    Keeps (if d.tcb.state = .finwt2 then 1 else n) d.processFin ∧ Goes d d.processFin := by
  obtain ⟨k, hsignal⟩ := d.released_readers
  unfold Device.processFin
  rw [hsignal]
  dsimp only
  have hk := h.calm (d.calm_signalReaders k)
  have hstate : (d.signalReaders k).tcb.state = d.tcb.state := rfl
  rw [hstate]
  cases hs : d.tcb.state with
  | closed | listen | synsent | closewt | closing | lastack =>
    exact ⟨⟨es, hk.same rfl⟩, .of_state hstate hst⟩
  | synrecv | estab =>
    exact ⟨⟨es, hk.same rfl⟩, .of_set rfl hs nofun nofun nofun nofun⟩
  | finwt1 =>
    refine (if_neg (h1 hs)).symm ▸ ?_
    exact ⟨⟨es, hk.same rfl⟩, .of_set rfl hs nofun nofun nofun nofun⟩
  | finwt2 =>
    obtain ⟨hapart, hspare⟩ := h2 hs
    have hnext : Kept n ((d.signalReaders k).modRcv fun r =>
        { r with rcvnxt := seqadd r.rcvnxt 1 }) es := hk.same rfl
    have hpurge := hnext.purgeAll hapart
    obtain ⟨es', hwait, -⟩ := hpurge.schedTimewt ((Timer.length_others_le ..).trans_lt hspare)
    refine ⟨?_, ?_⟩
    · rw [if_pos rfl]
      exact ⟨es', hwait.same rfl⟩
    · exact .of_state hstate hst
  | timewt => exact absurd hs hst

theorem Device.recvFin_cases (e : Device) (seqnum seglen : Nat) :
    ∃ e', Calm e e' ∧
      ((e.tcb.rcv.rcvnxt = if e.tcb.rcv.rcvflg.fin = true then e.tcb.rcv.rcvfin
        else seqadd seqnum seglen) → e.recvFin seqnum seglen = e'.processFin) ∧
      ((¬ e.tcb.rcv.rcvnxt = if e.tcb.rcv.rcvflg.fin = true then e.tcb.rcv.rcvfin
        else seqadd seqnum seglen) → e.recvFin seqnum seglen = e') := by
  have hcalm := e.calm_storeFin seqnum seglen
  refine ⟨_, hcalm, ?_⟩
  unfold recvFin
  by_cases hfin : e.tcb.rcv.rcvflg.fin = true
  · rw [if_pos hfin, if_pos hfin]
    exact ⟨fun h => if_pos h, fun h => if_neg h⟩
  · rw [if_neg hfin, if_neg hfin]
    exact ⟨fun h => if_pos h, fun h => if_neg h⟩

theorem Kept.tcpRecvData (h : Kept n d es) (pkt : TcpPkt) (hst : d.tcb.state ≠ .timewt)
    (h1 : d.tcb.state = .finwt1 → ¬ seqlt d.tcb.snd.sndfin d.tcb.snd.snduna)
    (h2 : d.tcb.state = .finwt2 → d.FinTaken pkt →
      Timer.Apart d.minor none es ∧ es.length < 3 * NTCP) :
    (d.tcb.state = .finwt2 → d.FinTaken pkt → Keeps 1 (d.tcpRecvData pkt).1) ∧
      (¬ (d.tcb.state = .finwt2 ∧ d.FinTaken pkt) → Keeps n (d.tcpRecvData pkt).1) ∧
      Goes d (d.tcpRecvData pkt).1 := by
  have htext := d.calm_recvText pkt
  have hedge : ∀ e : Device, Calm d e → e.tcb.snd.sndfin = d.tcb.snd.sndfin ∧
      e.tcb.snd.snduna = d.tcb.snd.snduna := fun e he => by
    rw [he.snd]
    exact ⟨rfl, rfl⟩
  unfold Device.FinTaken at h2 ⊢
  unfold Device.tcpRecvData
  dsimp only at h2 ⊢
  generalize d.recvText pkt = r at htext h2 ⊢
  by_cases hfin : r.2.2 = true
  · rw [if_pos hfin]
    obtain ⟨e, he, htaken, hleft⟩ := r.1.recvFin_cases pkt.seqnum r.2.1
    have hcalm := htext.trans he
    by_cases hdue : r.1.tcb.rcv.rcvnxt = if r.1.tcb.rcv.rcvflg.fin = true then r.1.tcb.rcv.rcvfin
        else seqadd pkt.seqnum r.2.1
    · rw [htaken hdue]
      have hproc := (h.calm hcalm).processFin (by rw [hcalm.state]; exact hst)
        (by rw [hcalm.state, (hedge e hcalm).1, (hedge e hcalm).2]; exact h1)
        (by rw [hcalm.state, hcalm.minor]; exact fun hs => h2 hs ⟨hfin, hdue⟩)
      rw [hcalm.state] at hproc
      obtain ⟨hkeep, hgo⟩ := hproc
      have hgo' : Goes d e.processFin :=
        ⟨hgo.timewt, by rw [← hcalm.state]; exact hgo.finwt2,
          by rw [← hcalm.state]; exact hgo.closed⟩
      refine ⟨fun hs _ => ?_, fun hno => ?_, hgo'.trans_state (outputs_respond _).state⟩
      · rw [if_pos hs] at hkeep
        exact hkeep.respond
      · rw [if_neg fun hs => hno ⟨hs, hfin, hdue⟩] at hkeep
        exact hkeep.respond
    · rw [hleft hdue]
      have hkeep : Keeps n e := ⟨es, h.calm hcalm⟩
      refine ⟨fun _ hd => absurd hd.2 hdue, fun _ => hkeep.respond, ?_⟩
      exact (Goes.of_state hcalm.state hst).trans_state (outputs_respond _).state
  · rw [if_neg hfin]
    have hkeep : Keeps n r.1 := ⟨es, h.calm htext⟩
    refine ⟨fun _ hd => absurd hd.1 hfin, fun _ => hkeep.respond, ?_⟩
    exact (Goes.of_state htext.state hst).trans_state (outputs_respond _).state

/-! ## Segments -/

theorem Kept.tcpFree (h : Kept n d es)
    (hapart : d.tcb.state ≠ .closed → Timer.Apart d.minor none es)
    (hn : d.tcb.state = .closed → n = 0) : Keeps 0 d.tcpFree.1 := by
  unfold Device.tcpFree
  split_ifs with hc
  · exact ⟨es, hn hc ▸ h.same rfl⟩
  · exact ⟨_, (h.purgeAll (hapart hc)).same rfl⟩

/-- What a step makes of a connection: where `b` holds it begins TIME-WAIT, and where it does not
the number of events stays. -/
structure Settled (n : Nat) (b : Prop) (d d' : Device) : Prop where
  timewt : d'.tcb.state ≠ .timewt
  finwt2 : d.tcb.state = .finwt2 → d'.tcb.state = .finwt2
  begins : b → d'.tcb.state = .finwt2 ∧ Keeps 1 d'
  keeps : ¬ b → Keeps n d'

theorem Settled.of_not {b : Prop} (hb : ¬ b) (hst : d'.tcb.state ≠ .timewt)
    (h2 : d.tcb.state = .finwt2 → d'.tcb.state = .finwt2) (h : Keeps n d') : Settled n b d d' :=
  ⟨hst, h2, fun h => absurd h hb, fun _ => h⟩

/-- The segment gets as far as its acknowledgement. -/
def Device.Acked (d : Device) (pkt : TcpPkt) : Prop :=
  (d.tcb.rcv.tcpRecvValid pkt).2 = true ∧ (d.tcb.rcv.tcpRecvValid pkt).1.control.rst = false ∧
    (d.tcb.rcv.tcpRecvValid pkt).1.control.syn = false ∧
    (d.tcb.rcv.tcpRecvValid pkt).1.control.ack = true
deriving Decidable

/-- The FIN of the other side is processed in FINWT2. -/
def Device.TakesFin (d : Device) (pkt : TcpPkt) : Prop :=
  d.Acked pkt ∧ (d.answering pkt).tcb.state = .finwt2 ∧
    (d.answering pkt).FinTaken (d.tcb.rcv.tcpRecvValid pkt).1
deriving Decidable

/-- The FIN of this side is acknowledged in CLOSING. -/
def Device.Turns (d : Device) (pkt : TcpPkt) : Prop :=
  d.Acked pkt ∧ d.tcb.state = .closing ∧ (d.answering pkt).tcb.state = .finwt2
deriving Decidable

section

variable (h : Kept n d es)
include h

theorem Kept.opts (pkt : TcpPkt) :
    Kept n (d.waitMutex.modSnd fun s => s.tcpRecvOpts pkt) es := h.same rfl

/-- **A segment** from SYNRECV on: the connection is reset, or it may begin TIME-WAIT. -/
theorem Kept.received (hone : Timer.Single d.minor es)
    (hst : d.tcb.state ≠ .timewt) (hn : d.tcb.state ≠ .finwt2 → n = 0)
    (hlen : d.TakesFin pkt ∨ d.Turns pkt → es.length + 2 < 3 * NTCP) (hapart : d.TakesFin pkt →
      Timer.Apart (d.answering pkt).minor none (d.answering pkt).timer.events)
    (hfree : (d.received pkt).2 = TCP_ERR_RESET → Timer.Apart d.minor none es)
    (hopen : d.tcb.state ≠ .closed) :
    ((d.received pkt).2 = TCP_ERR_RESET → Keeps 0 (d.received pkt).1.tcpFree.1) ∧
      ((d.received pkt).2 ≠ TCP_ERR_RESET →
        Settled n (d.TakesFin pkt ∨ d.Turns pkt) d (d.received pkt).1) := by
  have hk : Kept n (d.readOpts pkt) es := h.opts pkt
  have hst' : (d.readOpts pkt).tcb.state = d.tcb.state := rfl
  have hrcv : (d.readOpts pkt).tcb.rcv = d.tcb.rcv := rfl
  have hminor : (d.readOpts pkt).minor = d.minor := rfl
  have hmid : d.answering pkt = ((d.readOpts pkt).recvAckState
    (d.tcb.rcv.tcpRecvValid pkt).1).1 := rfl
  have hbegins : d.TakesFin pkt ∨ d.Turns pkt → d.Acked pkt := fun hb => hb.elim And.left And.left
  rw [show d.received pkt = (d.readOpts pkt).tcpRecvOther pkt from rfl] at hfree ⊢
  unfold tcpRecvOther at hfree ⊢
  dsimp only at hfree ⊢
  generalize d.readOpts pkt = e at hk hst' hrcv hminor hmid hfree ⊢
  rw [hrcv] at hfree ⊢
  generalize hv : d.tcb.rcv.tcpRecvValid pkt = v at hmid hfree ⊢
  have hacked : d.Acked pkt ↔ v.2 = true ∧ v.1.control.rst = false ∧ v.1.control.syn = false ∧
      v.1.control.ack = true := by rw [Device.Acked, hv]
  -- a segment that is not taken leaves the events alone
  have hleft : ∀ e' : Device, ¬ d.Acked pkt → Calm e e' →
      Settled n (d.TakesFin pkt ∨ d.Turns pkt) d e' := by
    intro e' hno hcalm
    refine .of_not (fun hb => hno (hbegins hb)) ?_ ?_ ⟨es, hk.calm hcalm⟩ <;>
      rw [hcalm.state, hst']
    · exact hst
    · exact id
  have hreset : ∀ e' : Device, Calm e e' → Timer.Apart d.minor none es → Keeps 0 e'.tcpFree.1 := by
    intro e' hcalm ha
    refine (hk.calm hcalm).tcpFree (fun _ => by rw [hcalm.minor, hminor]; exact ha) fun hc => ?_
    rw [hcalm.state, hst'] at hc
    exact absurd hc hopen
  have hok : OK ≠ TCP_ERR_RESET := by decide
  by_cases hbad : v.2 = false
  · have hno : ¬ d.Acked pkt := fun ha => by simp [hbad] at hacked; exact hacked ha
    rw [if_pos hbad]
    split_ifs
    · exact ⟨fun hr => absurd hr hok, fun _ => hleft e hno (.refl e)⟩
    · exact ⟨fun hr => absurd hr hok, fun _ => hleft _ hno e.calm_tcpSendAck⟩
  rw [if_neg hbad] at hfree ⊢
  by_cases hrst : v.1.control.rst = true
  · have hno : ¬ d.Acked pkt := fun ha => by simp [hrst] at hacked; exact hacked ha
    rw [if_pos hrst] at hfree ⊢
    by_cases hsynrecv : e.tcb.state = .synrecv
    · rw [if_pos hsynrecv] at hfree ⊢
      have hcount : Kept n (e.modSnd fun s => { s with rxtcount := 0 }) es := hk.same rfl
      have hpurge := hcount.purge .rxt (by simp) (by rw [show
        (e.modSnd fun s => { s with rxtcount := 0 }).minor = d.minor from hminor]; exact hone.1)
      rw [show (e.modSnd fun s => { s with rxtcount := 0 }).minor = d.minor from hminor] at hpurge
      generalize hf : ((e.modSnd fun s => { s with rxtcount := 0 }).tcpTimerPurge (some .rxt)).1 = f
        at hpurge hfree
      have hfst : f.tcb.state = .synrecv := by rw [← hf]; exact hsynrecv
      have hfm : f.minor = d.minor := by rw [← hf]; exact hminor
      have hdst : d.tcb.state = .synrecv := hst'.symm.trans hsynrecv
      split_ifs at hfree ⊢
      · refine ⟨fun hr => absurd hr hok, fun _ => .of_not (fun hb => hno (hbegins hb)) ?_ ?_ ?_⟩
        · exact fun hc => by simp [setState] at hc
        · exact fun hc => by simp [hdst] at hc
        · exact ⟨_, hpurge.same rfl⟩
      · refine ⟨fun hr => hpurge.tcpFree (fun _ => ?_) fun hc => ?_, fun hr => absurd rfl hr⟩
        · rw [hfm]
          exact (hfree rfl).others .rxt
        · simp [hfst] at hc
    · rw [if_neg hsynrecv] at hfree ⊢
      exact ⟨fun hr => hreset e (.refl e) (hfree rfl), fun hr => absurd rfl hr⟩
  rw [if_neg hrst] at hfree ⊢
  by_cases hsyn : v.1.control.syn = true
  · rw [if_pos hsyn] at hfree ⊢
    exact ⟨fun hr => hreset _ (e.calm_sndrst true) (hfree rfl), fun hr => absurd rfl hr⟩
  rw [if_neg hsyn] at hfree ⊢
  by_cases hack : v.1.control.ack = false
  · have hno : ¬ d.Acked pkt := fun ha => by simp [hack] at hacked; exact hacked ha
    rw [if_pos hack]
    exact ⟨fun hr => absurd hr hok, fun _ => hleft e hno (.refl e)⟩
  rw [if_neg hack] at hfree ⊢
  have hyes : d.Acked pkt := hacked.mpr ⟨Bool.eq_true_of_not_eq_false hbad,
    Bool.eq_false_of_not_eq_true hrst, Bool.eq_false_of_not_eq_true hsyn,
    Bool.eq_true_of_not_eq_false hack⟩
  have hanswer := e.answer_recvAckState (hst' ▸ hst) v.1
  have hans := hanswer.answers (hst' ▸ hst)
  have hone' : Timer.Single e.minor es := by rw [hminor]; exact hone
  -- TIME-WAIT has begun in CLOSING, or not
  have hkept : ∃ k es', Kept k (e.recvAckState v.1).1 es' ∧ es'.length ≤ es.length + 2 ∧
      (d.Turns pkt → k = 1) ∧ (¬ d.Turns pkt → k = n) := by
    by_cases hturn : d.Turns pkt
    · have hclosing := hturn.2.1
      obtain ⟨es', hes', hle⟩ := hk.recvAckState_closing hone' (hst'.trans hclosing) v.1
        (by rw [← hmid]; exact hturn.2.2) (by have := hlen (.inr hturn); omega)
      have hzero : n = 0 := hn (by simp [hclosing])
      exact ⟨n + 1, es', hes', hle, fun _ => by omega, fun h => absurd hturn h⟩
    · obtain ⟨es', hes', hle⟩ := hk.recvAckState hone' (by rw [hst']; exact hst) v.1
        fun hc hf => hturn ⟨hyes, hst'.symm.trans hc, by rw [hmid]; exact hf⟩
      exact ⟨n, es', hes', by omega, fun h => absurd h hturn, fun _ => rfl⟩
  obtain ⟨k, es', hk', hle, hk1, hkn⟩ := hkept
  have hfinwt2 : d.tcb.state = .finwt2 → (e.recvAckState v.1).1.tcb.state = .finwt2 :=
    fun hs => hans.finwt2 (hst'.trans hs)
  have htakes : d.TakesFin pkt ↔ d.Acked pkt ∧ (d.answering pkt).tcb.state = .finwt2 ∧
      (d.answering pkt).FinTaken v.1 := by rw [Device.TakesFin, hv]
  have hturns : d.Turns pkt → (d.answering pkt).tcb.state = .finwt2 := fun hb => hb.2.2
  rw [hmid] at htakes hturns hapart
  generalize e.recvAckState v.1 = r at hk' hans hanswer hfinwt2 htakes hturns hapart hfree
  obtain ⟨f, result⟩ := r
  cases result with
  | some result =>
    obtain ⟨hcalm, hne⟩ := hanswer.calm
    refine ⟨fun hr => hreset f hcalm (hfree hr), fun _ => .of_not ?_ ?_ hfinwt2 ⟨es, hk.calm hcalm⟩⟩
    · rintro (hb | hb)
      · exact hne (htakes.mp hb).2.1
      · exact hne (hturns hb)
    · rw [hcalm.state, hst']
      exact hst
  | none =>
    obtain ⟨hfin, hleave, hgoes⟩ := hk'.tcpRecvData v.1 hans.timewt hans.finwt1
      fun hs ht => by
        have hb : d.TakesFin pkt := htakes.mpr ⟨hyes, hs, ht⟩
        have hev := hapart hb
        rw [hk'.holds.events] at hev
        exact ⟨hev, by have := hlen (.inl hb); omega⟩
    refine ⟨fun hr => absurd hr hok,
      fun _ => ⟨hgoes.timewt, fun hs => ?_, fun hb => ?_, fun hb => ?_⟩⟩
    · exact hgoes.finwt2.mpr (hfinwt2 hs)
    · have hs : f.tcb.state = .finwt2 :=
        hb.elim (fun hb => (htakes.mp hb).2.1) hturns
      refine ⟨hgoes.finwt2.mpr hs, ?_⟩
      by_cases ht : f.FinTaken v.1
      · exact hfin hs ht
      · have hturn : d.Turns pkt := hb.resolve_left fun hb => ht (htakes.mp hb).2.2
        exact hk1 hturn ▸ hleave fun hd => ht hd.2
    · exact hkn (fun h => hb (.inr h)) ▸
        hleave fun hd => hb (.inl (htakes.mpr ⟨hyes, hd.1, hd.2⟩))

theorem Kept.tcpRecvListen (pkt : TcpPkt) (hs : d.tcb.state = .listen) (src : NetAddr) :
    Keeps n (d.tcpRecvListen pkt src).1 ∧ (d.tcpRecvListen pkt src).1.tcb.state ≠ .timewt ∧
      (d.tcpRecvListen pkt src).2 = OK := by
  have hleft : ∀ e : Device, Calm d e → Keeps n e ∧ e.tcb.state ≠ .timewt ∧ OK = OK :=
    fun e he => ⟨⟨es, h.calm he⟩, by rw [he.state, hs]; simp, rfl⟩
  unfold Device.tcpRecvListen
  split_ifs
  · exact hleft _ (.refl d)
  · exact hleft _ (d.calm_sndrst true)
  · -- a SYN is sent in answer
    dsimp only
    generalize he : (modSnd _ fun s : Send =>
      { s with sndwnd := pkt.window, sndwl1 := pkt.seqnum }) = e
    have hk : Keeps n e := ⟨es, h.same (by rw [← he]; rfl)⟩
    have hsyn := hk.tcpSendSyn
    generalize e.tcpSendSyn.1 = f at hsyn
    have hack : Keeps n (if f.tcb.snd.sndflg.sndack then f.tcpSendAck.1 else f) :=
      hsyn.calm (.ite (calm_tcpSendAck _) (.refl _))
    generalize (if f.tcb.snd.sndflg.sndack then f.tcpSendAck.1 else f) = g at hack
    obtain ⟨es', hg⟩ := hack
    have hset : Kept n (g.setState .synrecv) es' := hg.same rfl
    have hst : (g.setState .synrecv).tcb.state = .synrecv := rfl
    obtain ⟨-, hkeep, hgoes⟩ := hset.tcpRecvData pkt (by simp [hst])
      (fun h => by simp [hst] at h) (fun h => by simp [hst] at h)
    exact ⟨hkeep fun h => by simp [hst] at h, hgoes.timewt, rfl⟩
  · exact hleft _ (.refl d)

theorem Kept.synchronize (pkt : TcpPkt) (hone : Timer.Single d.minor es) (ackAccept : Bool) :
    Keeps n (d.synchronize pkt ackAccept).1 ∧ (d.synchronize pkt ackAccept).1.tcb.state ≠ .timewt ∧
      (d.synchronize pkt ackAccept).2 = OK := by
  have hdata : ∀ e : Device, Keeps n e → (e.tcb.state = .estab ∨ e.tcb.state = .synrecv) →
      Keeps n (e.tcpRecvData pkt).1 ∧ (e.tcpRecvData pkt).1.tcb.state ≠ .timewt ∧
        (e.tcpRecvData pkt).2 = OK := by
    rintro e ⟨es', hes'⟩ hst
    obtain ⟨-, hkeep, hgoes⟩ := hes'.tcpRecvData pkt
      (by rcases hst with hst | hst <;> simp [hst])
      (fun h => by rcases hst with hst | hst <;> simp [hst] at h)
      (fun h => by rcases hst with hst | hst <;> simp [hst] at h)
    exact ⟨hkeep fun h => by rcases hst with hst | hst <;> simp [hst] at h, hgoes.timewt, rfl⟩
  unfold Device.synchronize
  dsimp only
  generalize he : (modSnd _ fun s : Send => { s with
      sndwnd := pkt.window, sndwl1 := pkt.seqnum, sndflg := { s.sndflg with sndack := true }
      snduna := if ackAccept then pkt.acknum else s.snduna
      sndwl2 := if ackAccept then pkt.acknum else s.sndwl2
      rxtcount := 0 }) = e
  have hm : e.minor = d.minor := by rw [← he]; rfl
  have hk : Kept n e es := h.same (Prod.ext (by rw [← he]; rfl) hm)
  have hpurge := hk.purge .rxt (by simp) (by rw [hm]; exact hone.1)
  generalize (e.tcpTimerPurge (some .rxt)).1 = f at hpurge
  have hrxt : Keeps n (if seqlt f.tcb.snd.snduna f.tcb.snd.sndnxt then
      (f.tcpTimerSched f.tcb.snd.rxttime .rxt).1 else f) :=
    .ite (.sched ⟨_, hpurge⟩ _ .rxt nofun) ⟨_, hpurge⟩
  generalize (if seqlt f.tcb.snd.snduna f.tcb.snd.sndnxt then
      (f.tcpTimerSched f.tcb.snd.rxttime .rxt).1 else f) = g at hrxt
  split_ifs
  · exact hdata _ (hrxt.same rfl) (.inl rfl)
  · have hcalm := (g.setState .synrecv).calm_tcpSend { syn := true, ack := true }
      (g.setState .synrecv).tcb.snd.iss (g.setState .synrecv).tcb.rcv.rcvnxt 0 1
    have hset : Keeps n (g.setState .synrecv) := hrxt.same rfl
    exact hdata _ (hset.calm hcalm) (.inr hcalm.state)

theorem Kept.tcpRecvSynsent (pkt : TcpPkt) (hone : Timer.Single d.minor es)
    (hs : d.tcb.state = .synsent) :
    ((d.tcpRecvSynsent pkt).2 = TCP_ERR_RESET → (d.tcpRecvSynsent pkt).1 = d) ∧
      Keeps n (d.tcpRecvSynsent pkt).1 ∧ (d.tcpRecvSynsent pkt).1.tcb.state ≠ .timewt := by
  have hok : OK ≠ TCP_ERR_RESET := by decide
  have hleft : Keeps n d ∧ d.tcb.state ≠ .timewt := ⟨⟨es, h⟩, by simp [hs]⟩
  unfold Device.tcpRecvSynsent
  dsimp only
  split
  · split
    · exact ⟨fun _ => rfl, hleft⟩
    · exact ⟨fun hr => absurd hr hok, ⟨es, h.calm (d.calm_sndrst true)⟩, hleft.2⟩
  · split
    · exact ⟨fun _ => rfl, hleft⟩
    · split
      · obtain ⟨hkeep, htime, hres⟩ := h.synchronize pkt hone (decide
          (pkt.control.ack = true ∧ seqlte d.tcb.snd.snduna pkt.acknum ∧
            seqlte pkt.acknum d.tcb.snd.sndnxt))
        exact ⟨fun hr => absurd (hres.symm.trans hr) hok, hkeep, htime⟩
      · exact ⟨fun _ => rfl, hleft⟩

end

/-! ## Opening, closing and the timer -/

theorem Device.tcpSendSyn_state (d : Device) : d.tcpSendSyn.1.tcb.state = d.tcb.state := by
  obtain ⟨e, he, hsyn | hsyn⟩ := d.tcpSendSyn_cases <;> rw [hsyn] <;> exact he.state

/-- A SYN that could not be sent leaves the events as they are. -/
theorem Kept.tcpSendSyn_failed (h : Kept n d es) (hf : d.tcpSendSyn.2 = SYSERR) :
    Kept n d.tcpSendSyn.1 es := by
  obtain ⟨e, he, hsyn | hsyn⟩ := d.tcpSendSyn_cases <;> rw [hsyn] at hf ⊢
  · exact h.calm he
  · have hset : Kept n e.numberSyn es := (h.calm he).same rfl
    refine ⟨hset.holds.sched_failed ?_, hset.count⟩
    have hok : OK ≠ SYSERR := by decide
    by_contra hne
    have hne' : ¬ (e.numberSyn.tcpTimerSched e.tcb.snd.rxttime .rxt).2 = SYSERR := hne
    rw [if_neg hne'] at hf
    exact absurd hf hok

theorem Keeps.tcpOpenActive (h : Keeps n d) : Keeps n d.tcpOpenActive.1 ∧
    (d.tcpOpenActive.1.tcb.state = d.tcb.state ∨ d.tcpOpenActive.1.tcb.state = .synsent) := by
  have hsyn := h.tcpSendSyn
  have hst := d.tcpSendSyn_state
  unfold Device.tcpOpenActive
  dsimp only
  split_ifs
  · exact ⟨h, .inl rfl⟩
  · exact ⟨hsyn, .inl hst⟩
  · exact ⟨hsyn.same rfl, .inr rfl⟩

theorem Kept.tcpOpenActive_failed (h : Kept n d es) (hf : d.tcpOpenActive.2 = SYSERR) :
    Kept n d.tcpOpenActive.1 es ∧ d.tcpOpenActive.1.tcb.state = d.tcb.state := by
  unfold tcpOpenActive at hf ⊢
  dsimp only at hf ⊢
  split_ifs at hf ⊢ with hspec hsyn
  · exact ⟨h, rfl⟩
  · exact ⟨h.tcpSendSyn_failed hsyn, d.tcpSendSyn_state⟩
  · have hok : OK ≠ SYSERR := by decide
    exact absurd hf hok

/-- What is left of a connection that has been freed. -/
def Freed (d : Device) : Prop := d.tcb.state = .closed ∧ Keeps 0 d

theorem Kept.freed (h : Kept n d' es) (hst : d'.tcb.state = d.tcb.state) (hm : d'.minor = d.minor)
    (hn : d.tcb.state = .closed → n = 0)
    (hapart : d.tcb.state ≠ .closed → d'.tcpFree.1.tcb.state = .closed →
      Timer.Apart d.minor none es) :
    Freed d'.tcpFree.1 := by
  refine ⟨d'.tcpFree_state, h.tcpFree (fun hc => ?_) fun hc => hn (hst ▸ hc)⟩
  rw [hm]
  exact hapart (hst ▸ hc) d'.tcpFree_state

/-- **`tcpOpen`**, where an open that frees the control block finds its events apart. -/
theorem Kept.tcpOpen (h : Kept n d es) (a : OpenArgs) (hst : d.tcb.state ≠ .timewt)
    (hn : d.tcb.state ≠ .finwt2 → n = 0)
    (hapart : d.tcb.state ≠ .closed → (d.tcpOpen a).1.tcb.state = .closed →
      Timer.Apart d.minor none es) : Freed (d.tcpOpen a).1 ∨ Settled n False d (d.tcpOpen a).1 := by
  unfold Device.tcpOpen at hapart ⊢
  dsimp only at hapart ⊢
  split_ifs at hapart ⊢ with hbusy
  · exact .inr (.of_not id hst id ⟨es, h.same rfl⟩)
  · have hopen : d.tcb.state = .closed ∨ d.tcb.state = .listen := by
      by_contra hne
      exact hbusy (not_or.mp hne)
    have h2 : d.tcb.state ≠ .finwt2 := by rcases hopen with h | h <;> simp [h]
    cases hip : a.localip with
    | none => exact .inr (.of_not id hst id ⟨es, h.same rfl⟩)
    | some localip =>
      rw [hip] at hapart
      unfold openWith at hapart ⊢
      dsimp only at hapart ⊢
      generalize he : tcpSetup _ a.clktime a.sems = r at hapart ⊢
      have hk : Kept n r.1 es := h.same (by rw [← he]; rfl)
      have hrs : r.1.tcb.state = d.tcb.state := by rw [← he]; rfl
      have hrm : r.1.minor = d.minor := by rw [← he]; rfl
      by_cases hfail : r.2 = SYSERR
      · rw [if_pos hfail] at hapart ⊢
        exact .inl (hk.freed hrs hrm (fun _ => hn h2) hapart)
      rw [if_neg hfail] at hapart ⊢
      by_cases hpassive : a.mode = 0
      · rw [if_pos hpassive]
        refine .inr (.of_not id (fun hc => ?_) (fun hc => absurd hc h2) ⟨es, hk.same rfl⟩)
        have hlisten : TcpState.listen = .timewt := hc
        simp at hlisten
      rw [if_neg hpassive] at hapart ⊢
      by_cases hactive : a.mode = 1
      · rw [if_pos hactive] at hapart ⊢
        obtain ⟨hkeep, hstate⟩ := Keeps.tcpOpenActive ⟨es, hk⟩
        by_cases hsyn : r.1.tcpOpenActive.2 = SYSERR
        · rw [if_pos hsyn] at hapart ⊢
          obtain ⟨hk', hst'⟩ := hk.tcpOpenActive_failed hsyn
          have hminor := (held_tcpOpenActive r.1).minor.trans hrm
          exact .inl (hk'.freed (hst'.trans hrs) hminor (fun _ => hn h2) hapart)
        · rw [if_neg hsyn]
          refine .inr (.of_not id ?_ (fun hc => absurd hc h2) (hkeep.same rfl))
          change r.1.tcpOpenActive.1.tcb.state ≠ .timewt
          rcases hstate with hs | hs <;> rw [hs]
          · rw [hrs]
            exact hst
          · simp
      · rw [if_neg hactive] at hapart ⊢
        exact .inl (hk.freed hrs hrm (fun _ => hn h2) hapart)

/-- **`tcpClose`**, where a close that frees the control block finds its events apart. -/
theorem Kept.tcpClose (h : Kept n d es) (hst : d.tcb.state ≠ .timewt)
    (hn : d.tcb.state ≠ .finwt2 → n = 0)
    (hapart : d.tcb.state ≠ .closed → d.tcpClose.1.tcb.state = .closed →
      Timer.Apart d.minor none es) : Freed d.tcpClose.1 ∨ Settled n False d d.tcpClose.1 := by
  -- the control block is freed
  have hfree : ∀ e : Device, Calm d e → d.tcb.state ≠ .finwt2 → (d.tcb.state ≠ .closed →
      e.tcpFree.1.closeSend.1.tcb.state = .closed → Timer.Apart d.minor none es) →
      Freed e.tcpFree.1.closeSend.1 := by
    intro e hcalm h2 ha
    have hclosed := (outputs_closeSend e.tcpFree.1).state.trans e.tcpFree_state
    exact ⟨hclosed, ((h.calm hcalm).freed hcalm.state hcalm.minor (fun _ => hn h2)
      fun hc _ => ha hc hclosed).2.closeSend⟩
  -- the FIN is requested, and the state goes on
  have hgoes : ∀ e : Device, Keeps n e → d.tcb.state ≠ .finwt2 → e.tcb.state ≠ .timewt →
      Settled n False d e.closeSend.1 := by
    intro e he h2 ht
    refine .of_not id ?_ (fun hc => absurd hc h2) he.closeSend
    rw [(outputs_closeSend e).state]
    exact ht
  unfold Device.tcpClose at hapart ⊢
  dsimp only at hapart ⊢
  cases hs : d.tcb.state with
  | closed =>
    refine .inr (.of_not id (fun hc => ?_) (fun hc => absurd hc (by simp [hs])) ⟨es, h.same rfl⟩)
    have hclosed : TcpState.closed = .timewt := hc
    simp at hclosed
  | listen =>
    rw [hs] at hapart
    exact .inl (hfree _ d.calm_releaseReaders (by simp [hs]) fun _ => hapart (by simp))
  | synsent =>
    rw [hs] at hapart
    have hcalm := d.calm_releaseWriters.trans d.releaseWriters.calm_releaseReaders
    exact .inl (hfree _ hcalm (by simp [hs]) fun _ => hapart (by simp))
  | synrecv =>
    right
    split_ifs
    · exact hgoes _ ⟨es, h.same rfl⟩ (by simp [hs]) (by simp [setState])
    · refine hgoes _ ⟨es, h.same rfl⟩ (by simp [hs]) ?_
      change d.tcb.state ≠ _
      simp [hs]
  | estab | closewt =>
    exact .inr (hgoes _ ⟨es, h.same rfl⟩ (by simp [hs]) (by simp [setState]))
  | finwt1 | finwt2 | closing | lastack | timewt =>
    exact .inr (.of_not id hst id ⟨es, h.same rfl⟩)

theorem Keeps.retransmit (h : Keeps n d) (first : Bool) : Keeps n (d.retransmit first).1 := by
  have hsched := h.sched (min (d.tcb.snd.rxttime * 2 ^ d.tcb.snd.rxtcount) TCP_RXT_MAXTIME)
    .rxt (by simp)
  unfold Device.retransmit
  dsimp only
  generalize (d.tcpTimerSched (min (d.tcb.snd.rxttime * 2 ^ d.tcb.snd.rxtcount) TCP_RXT_MAXTIME)
    .rxt).1 = e at hsched
  have hback : ∀ e', Keeps n e' → Keeps n (e'.modSnd fun s => s.backOff first).signalMutex :=
    fun e' he => he.same rfl
  split_ifs
  · exact (hsched.calm (e.calm_tcpSend ..)).same rfl
  · exact hback _ (hsched.calm (e.calm_tcpSend ..))

/-- **A timer event**: the connection is freed, or its state and the events of TIME-WAIT stay. -/
theorem Kept.expire (h : Kept n d es) (hn : d.tcb.state ≠ .finwt2 → n = 0)
    (hapart : d.tcb.state ≠ .closed → d.expire.tcb.state = .closed →
      Timer.Apart d.minor none d.timer.take.1.events) :
    Freed d.expire ∨ (d.expire.tcb.state = d.tcb.state ∧ Keeps n d.expire) := by
  unfold Device.expire at hapart ⊢
  dsimp only at hapart ⊢
  rcases h.holds.take with ⟨rfl, htake⟩ | ⟨e, rest, rfl, hsome, hrest⟩
  · rw [htake]
    exact .inr ⟨rfl, [], h⟩
  rw [hrest.events] at hapart
  rw [hsome] at hapart ⊢
  dsimp only at hapart ⊢
  have hcount := h.count
  by_cases hown : e.tcbptr = d.minor
  · rw [if_pos hown] at hapart ⊢
    rw [hown] at hcount
    generalize hf : ({ d with timer := d.timer.take.1 } : Device).waitMutex = f at hapart
    have hft : f.timer = d.timer.take.1 := by rw [← hf]; rfl
    have hfm : f.minor = d.minor := by rw [← hf]; rfl
    have hfs : f.tcb.state = d.tcb.state := by rw [← hf]; rfl
    have hholds : f.timer.Holds rest := by rw [hft]; exact hrest
    cases htype : e.type with
    | timewt =>
      rw [htype, count_cons_self] at hcount
      rw [htype] at hapart
      refine .inl (Kept.freed (n := n - 1) ⟨hholds, ?_⟩ hfs hfm (fun hc => ?_) hapart)
      · rw [hfm]
        omega
      · have := hn (by simp [hc])
        omega
    | rxt =>
      rw [htype, count_cons_of_ne (by simp)] at hcount
      rw [htype] at hapart
      have hk : Kept n f rest := ⟨hholds, by rw [hfm]; exact hcount⟩
      change Freed f.tcpSendRxt.1 ∨ f.tcpSendRxt.1.tcb.state = _ ∧ Keeps n f.tcpSendRxt.1
      change _ → f.tcpSendRxt.1.tcb.state = .closed → _ at hapart
      unfold tcpSendRxt at hapart ⊢
      dsimp only at hapart ⊢
      split_ifs at hapart ⊢
      · exact .inr ⟨hfs, rest, hk.same rfl⟩
      · exact .inl (Kept.freed (hk.same rfl) hfs hfm (fun hc => hn (by simp [hc])) hapart)
      · have hset : Kept n (f.modSnd fun s => { s with rxtcount := s.rxtcount + 1 }) rest :=
          hk.same rfl
        refine .inr ⟨?_, .retransmit ⟨rest, hset⟩ _⟩
        rw [(outputs_retransmit _ _).state]
        exact hfs
    | persist =>
      rw [htype, count_cons_of_ne (by simp)] at hcount
      have hk : Kept n f rest := ⟨hholds, by rw [hfm]; exact hcount⟩
      refine .inr ⟨((outputs_tcpSendPersist f).state).trans hfs, ?_⟩
      change Keeps n f.tcpSendPersist.1
      unfold tcpSendPersist
      split_ifs
      · exact ⟨rest, hk.same rfl⟩
      · have hset : Keeps n (f.modSnd fun s =>
            { s with psttime := min (s.psttime * 2) TCP_PST_MAXTIME }) := ⟨rest, hk.same rfl⟩
        exact ((hset.sched _ .persist nofun).calm (calm_tcpSend ..)).same rfl
  · rw [if_neg hown]
    refine .inr ⟨rfl, rest, hrest, ?_⟩
    rw [count_cons_of_ne fun heq => hown (Prod.mk.inj heq).1] at hcount
    exact hcount

/-! ## Reading and writing -/

theorem Settled.of_calm (h : Keeps n d) (hst : d.tcb.state ≠ .timewt) (hc : Calm d d') :
    Settled n False d d' := by
  refine .of_not id ?_ ?_ (h.calm hc) <;> rw [hc.state]
  · exact hst
  · exact id

theorem Settled.same_state {b : Prop} {d'' : Device} (h : Settled n b d d')
    (hsame : (d''.tcb.state, d''.timer, d''.minor) = (d'.tcb.state, d'.timer, d'.minor)) :
    Settled n b d d'' := by
  obtain ⟨htime, h2, hb, hk⟩ := h
  obtain ⟨hst, hs⟩ := Prod.mk.inj hsame
  rw [← hst] at htime h2 hb
  exact ⟨htime, h2, fun h => ⟨(hb h).1, (hb h).2.same hs⟩, fun h => (hk h).same hs⟩

section

variable (h : Keeps n d) (hst : d.tcb.state ≠ .timewt)
include h hst

/-- The check of `tcpWrite`, which may open the connection. -/
theorem Keeps.writeStateCheck : Settled n False d d.writeStateCheck.1 := by
  have hkept : Settled n False d d.signalMutex := .of_not id hst id (h.same rfl)
  unfold Device.writeStateCheck
  dsimp only
  cases hs : d.tcb.state with
  | listen =>
    have h2 : d.tcb.state ≠ .finwt2 := by simp [hs]
    have hset : Keeps n (d.setState .synsent) := h.same rfl
    obtain ⟨hopen, hstate⟩ := hset.tcpOpenActive
    have hsynsent : (d.setState .synsent).tcpOpenActive.1.tcb.state = .synsent :=
      hstate.elim (fun h => h) fun h => h
    generalize (d.setState .synsent).tcpOpenActive = r at hopen hsynsent
    have hsyn := hopen.tcpSendSyn
    have hsyn' := r.1.tcpSendSyn_state.trans hsynsent
    have hleft : ∀ e : Device, Keeps n e → e.tcb.state = .synsent → Settled n False d e :=
      fun e he hes => .of_not id (by simp [hes]) (fun hc => absurd hc h2) he
    split_ifs
    · exact hleft _ (hopen.same rfl) hsynsent
    · exact hleft _ (hsyn.same rfl) hsyn'
    · exact hleft _ (hopen.same rfl) hsynsent
    · exact hkept
  | closed | finwt1 | finwt2 | closing | lastack | timewt => exact hkept
  | synsent | synrecv | estab | closewt => exact .of_not id hst id h

theorem Keeps.tcpWriteRound (buffer : List UInt8) :
    Settled n False d (d.tcpWriteRound buffer).1 := by
  have hcheck := h.writeStateCheck hst
  unfold Device.tcpWriteRound
  generalize d.writeStateCheck = r at hcheck
  by_cases hfail : r.2 ≠ OK
  · rw [if_pos hfail]
    exact hcheck.same_state rfl
  · rw [if_neg hfail]
    -- what is written, and then sent
    have hpush : ∀ e : Device, Settled n False d e →
        Settled n False d (if e.tcb.state = .estab ∨ e.tcb.state = .closewt then e.tcpSendData.1
          else e).signalMutex := by
      intro e he
      have hsend : Settled n False d e.tcpSendData.1 := by
        refine .of_not id ?_ ?_ (he.keeps id).tcpSendData <;>
          rw [(outputs_tcpSendData e).state]
        · exact he.timewt
        · exact he.finwt2
      split_ifs
      · exact hsend.same_state rfl
      · exact he.same_state rfl
    refine hpush _ ?_
    split_ifs
    · exact hcheck.same_state rfl
    · exact hcheck.same_state rfl

theorem Keeps.tcpReadRound (len : Nat) : Settled n False d (d.tcpReadRound len).1 := by
  obtain ⟨e, he, hround⟩ := d.calm_tcpReadRound len
  rw [hround]
  exact (Settled.of_calm h hst he).same_state rfl

end

/-! ## Runs -/

/-- A device, and whether its connection is in TIME-WAIT: the FIN of the other side has been
processed and that of this side acknowledged, in either order. -/
structure Watch where
  device : Device
  waits : Bool

/-- TIME-WAIT begins with the step. -/
def Device.Begins (d : Device) : Call → Prop
  | .recv pkt _ => d.TakesFin pkt ∨ d.Turns pkt
  | _ => False

instance (d : Device) : ∀ c : Call, Decidable (d.Begins c) := by
  rintro ⟨⟩ <;> unfold Device.Begins <;> infer_instance

/-- The device with an observer that notes when TIME-WAIT begins, and that it ends with the
connection. Of the events of other control blocks on the common queue only the expiry is a step:
their devices do not start or purge any meanwhile. -/
def watchMachine : Machine Watch Call where
  enabled w c := w.device.Enabled c
  next w c :=
    ⟨w.device.exec c, decide ((w.device.exec c).tcb.state = .finwt2) &&
      (w.waits || decide (w.device.Begins c))⟩

/-- The step frees the control block. -/
def Device.Frees (d : Device) (c : Call) : Prop :=
  d.tcb.state ≠ .closed ∧ (d.exec c).tcb.state = .closed
deriving Decidable

instance (m : Nat) (type : Option EvtType) (es : List (Nat × EvtType)) :
    Decidable (Timer.Apart m type es) := inferInstanceAs (Decidable (List.IsChain _ _))

/-- The step purges no two events that stand next to each other, and there is room in the table
where TIME-WAIT begins. -/
def Device.Tidy (d : Device) : Call → Prop
  | .recv pkt src => Timer.Single d.minor d.timer.events ∧
      (d.TakesFin pkt ∨ d.Turns pkt → d.timer.events.length + 2 < 3 * NTCP) ∧
      (d.TakesFin pkt → Timer.Apart (d.answering pkt).minor none (d.answering pkt).timer.events) ∧
      (d.Frees (.recv pkt src) → Timer.Apart d.minor none d.timer.events)
  | .expire => d.Frees .expire → Timer.Apart d.minor none d.timer.take.1.events
  | .open args => d.Frees (.open args) → Timer.Apart d.minor none d.timer.events
  | .close => d.Frees .close → Timer.Apart d.minor none d.timer.events
  | _ => True

instance (d : Device) : ∀ c : Call, Decidable (d.Tidy c) := by
  rintro ⟨⟩ <;> unfold Device.Tidy <;> infer_instance

/-- The runs in which every step is tidy. -/
def tidyMachine : Machine Watch Call := watchMachine.restrict fun w c => w.device.Tidy c

instance (w : Watch) (c : Call) : Decidable (watchMachine.enabled w c) :=
  inferInstanceAs (Decidable (w.device.Enabled c))

instance (w : Watch) (c : Call) : Decidable (tidyMachine.enabled w c) :=
  inferInstanceAs (Decidable (w.device.Enabled c ∧ w.device.Tidy c))

/-- Before SYNRECV no TIME-WAIT begins. -/
theorem Device.not_begins (hst : d.tcb.state = .listen ∨ d.tcb.state = .synsent) :
    ¬ (d.TakesFin pkt ∨ d.Turns pkt) := by
  have hmid : (d.answering pkt).tcb.state = d.tcb.state := by
    have hst' : (d.readOpts pkt).tcb.state = d.tcb.state := rfl
    unfold answering recvAckState
    dsimp only
    rw [hst']
    rcases hst with hs | hs <;> rw [hs] <;> exact hs
  rintro (⟨-, h2, -⟩ | ⟨-, -, h2⟩) <;> rw [hmid] at h2 <;> rcases hst with hs | hs <;>
    simp [hs] at h2

/-- **Every segment** ends the connection, or leaves its events in order. -/
theorem Kept.recv (h : Kept n d es) (hone : Timer.Single d.minor es)
    (hst : d.tcb.state ≠ .timewt) (hn : d.tcb.state ≠ .finwt2 → n = 0)
    (hlen : d.TakesFin pkt ∨ d.Turns pkt → es.length + 2 < 3 * NTCP) (hapart : d.TakesFin pkt →
      Timer.Apart (d.answering pkt).minor none (d.answering pkt).timer.events) (src : NetAddr)
    (hfree : d.Frees (.recv pkt src) → Timer.Apart d.minor none es) :
    Freed (d.exec (.recv pkt src)) ∨
      Settled n (d.TakesFin pkt ∨ d.Turns pkt) d (d.exec (.recv pkt src)) := by
  have hk := h.opts pkt
  have hst' : (d.waitMutex.modSnd fun s => s.tcpRecvOpts pkt).tcb.state = d.tcb.state := rfl
  have hm : (d.waitMutex.modSnd fun s => s.tcpRecvOpts pkt).minor = d.minor := rfl
  have hok : OK ≠ TCP_ERR_RESET := by decide
  by_cases hclosed : d.tcb.state = .closed
  · have hkeep : Freed (d.exec (.recv pkt src)) := by
      change Freed (d.waitMutex.tcpRecv pkt src).1
      unfold tcpRecv
      rw [if_pos (show d.waitMutex.tcb.state = .closed from hclosed)]
      exact ⟨hclosed, es, hn (by simp [hclosed]) ▸ h.same rfl⟩
    exact .inl hkeep
  by_cases hlisten : d.tcb.state = .listen
  · right
    change Settled n _ d (d.waitMutex.tcpRecv pkt src).1
    unfold tcpRecv
    rw [if_neg (show ¬ d.waitMutex.tcb.state = .closed from hclosed)]
    dsimp only
    generalize (d.waitMutex.modSnd fun s => s.tcpRecvOpts pkt) = e at hk hst'
    rw [hst', hlisten]
    obtain ⟨hkeep, htime, hres⟩ := hk.tcpRecvListen pkt (hst'.trans hlisten) src
    rw [if_neg (by rw [hres]; exact hok)]
    refine .of_not (not_begins (.inl hlisten)) htime ?_ (hkeep.same rfl)
    exact fun hc => absurd hc (by simp [hlisten])
  by_cases hsynsent : d.tcb.state = .synsent
  · have hexec : d.exec (.recv pkt src) = (d.waitMutex.tcpRecv pkt src).1 := rfl
    unfold Device.Frees at hfree
    rw [hexec] at hfree ⊢
    have hno : ¬ (d.TakesFin pkt ∨ d.Turns pkt) := not_begins (.inr hsynsent)
    unfold tcpRecv at hfree ⊢
    rw [if_neg (show ¬ d.waitMutex.tcb.state = .closed from hclosed)] at hfree ⊢
    dsimp only at hfree ⊢
    generalize (d.waitMutex.modSnd fun s => s.tcpRecvOpts pkt) = e at hk hst' hm hfree
    rw [hst', hsynsent] at hfree ⊢
    have hleft : ∀ f : Device, Keeps n f → f.tcb.state ≠ .timewt →
        Settled n (d.TakesFin pkt ∨ d.Turns pkt) d f := fun f hf ht =>
      .of_not hno ht (fun hc => absurd hc (by simp [hsynsent])) hf
    obtain ⟨hsame, hkeep, htime⟩ :=
      hk.tcpRecvSynsent pkt (by rw [hm]; exact hone) (hst'.trans hsynsent)
    generalize e.tcpRecvSynsent pkt = r at hsame hkeep htime hfree
    by_cases hr : r.2 = TCP_ERR_RESET
    · rw [if_pos hr] at hfree ⊢
      have ha := hfree ⟨by simp, tcpFree_state _⟩
      rw [hsame hr]
      exact .inl (hk.freed hst' hm (fun hc => absurd hc hclosed) fun _ _ => ha)
    · rw [if_neg hr]
      exact .inr (hleft _ (hkeep.same rfl) htime)
  · rw [exec_recv pkt src ⟨hclosed, hlisten, hsynsent⟩]
    have hreset : (d.received pkt).2 = TCP_ERR_RESET → Timer.Apart d.minor none es := by
      intro hr
      refine hfree ⟨hclosed, ?_⟩
      rw [exec_recv pkt src ⟨hclosed, hlisten, hsynsent⟩, if_pos hr]
      exact tcpFree_state _
    obtain ⟨hfreed, hsettled⟩ := h.received hone hst hn hlen hapart hreset hclosed
    split_ifs with hr
    · exact .inl ⟨tcpFree_state _, hfreed hr⟩
    · exact .inr ((hsettled hr).same_state rfl)

/-- One event for the end of TIME-WAIT while it lasts, and none otherwise. -/
structure Waiting (w : Watch) : Prop where
  timewt : w.device.tcb.state ≠ .timewt
  finwt2 : w.waits = true → w.device.tcb.state = .finwt2
  keeps : Keeps w.waits.toNat w.device

theorem Waiting.of_freed {w : Watch} (h : Freed (w.device.exec c)) :
    Waiting (watchMachine.next w c) := by
  obtain ⟨hst, hk⟩ := h
  have hwaits : (watchMachine.next w c).waits = false := by
    change (decide ((w.device.exec c).tcb.state = .finwt2) && _) = false
    rw [hst]
    rfl
  refine ⟨?_, fun hw => absurd (hw.symm.trans hwaits) (by simp), ?_⟩
  · change (w.device.exec c).tcb.state ≠ _
    rw [hst]
    simp
  · rw [hwaits]
    exact hk

theorem Waiting.of_settled {w : Watch} (h : Waiting w)
    (hs : Settled w.waits.toNat (w.device.Begins c) w.device (w.device.exec c)) :
    Waiting (watchMachine.next w c) := by
  have hnext : (watchMachine.next w c).waits =
      (decide ((w.device.exec c).tcb.state = .finwt2) &&
        (w.waits || decide (w.device.Begins c))) := rfl
  refine ⟨hs.timewt, fun hw => ?_, ?_⟩
  · rw [hnext, Bool.and_eq_true, decide_eq_true_eq] at hw
    exact hw.1
  by_cases hb : w.device.Begins c
  · obtain ⟨h2, hk⟩ := hs.begins hb
    rw [hnext, decide_eq_true h2, decide_eq_true hb, Bool.or_true]
    exact hk
  · have hk := hs.keeps hb
    rw [hnext, decide_eq_false hb, Bool.or_false]
    cases hw : w.waits with
    | false =>
      rw [hw] at hk
      rw [Bool.and_false]
      exact hk
    | true =>
      rw [hw] at hk
      rw [decide_eq_true (hs.finwt2 (h.finwt2 hw))]
      exact hk

/-- **Every tidy step** keeps one event for the end of TIME-WAIT while it lasts. -/
theorem Waiting.step {w : Watch} (h : Waiting w) (he : tidyMachine.enabled w c) :
    Waiting (tidyMachine.next w c) := by
  obtain ⟨-, htidy⟩ := he
  obtain ⟨es, hk⟩ := id h.keeps
  have hev := hk.holds.events
  have hn : w.device.tcb.state ≠ .finwt2 → w.waits.toNat = 0 := fun hne => by
    cases hw : w.waits with
    | false => rfl
    | true => exact absurd (h.finwt2 hw) hne
  have hwait : Kept w.waits.toNat w.device.waitMutex es := hk.same rfl
  have hst : w.device.waitMutex.tcb.state ≠ .timewt := h.timewt
  -- the steps that free nothing and begin nothing
  have hcalm : ∀ c, (w.device.Begins c ↔ False) →
      Settled w.waits.toNat False w.device (w.device.exec c) → Waiting (watchMachine.next w c) :=
    fun c hb hs => h.of_settled (by rw [hb]; exact hs)
  cases c with
  | «open» args =>
    change w.device.Frees (.open args) →
      Timer.Apart w.device.minor none w.device.timer.events at htidy
    rw [hev] at htidy
    rcases hwait.tcpOpen args hst hn fun h₁ h₂ => htidy ⟨h₁, h₂⟩ with hf | hs
    · exact .of_freed hf
    · exact hcalm _ Iff.rfl ⟨hs.timewt, hs.finwt2, hs.begins, hs.keeps⟩
  | close =>
    change w.device.Frees .close → Timer.Apart w.device.minor none w.device.timer.events at htidy
    rw [hev] at htidy
    rcases hwait.tcpClose hst hn fun h₁ h₂ => htidy ⟨h₁, h₂⟩ with hf | hs
    · exact .of_freed hf
    · exact hcalm _ Iff.rfl ⟨hs.timewt, hs.finwt2, hs.begins, hs.keeps⟩
  | writeCheck =>
    have hs := Keeps.writeStateCheck ⟨es, hwait⟩ hst
    exact hcalm _ Iff.rfl ⟨hs.timewt, hs.finwt2, False.elim, fun hb => (hs.keeps hb).same rfl⟩
  | writeWait => exact hcalm _ Iff.rfl (.of_calm h.keeps h.timewt (calm_signalWriters _ _))
  | write buffer =>
    have hs := Keeps.tcpWriteRound ⟨es, hwait⟩ hst buffer
    exact hcalm _ Iff.rfl ⟨hs.timewt, hs.finwt2, hs.begins, hs.keeps⟩
  | readCheck =>
    refine hcalm _ Iff.rfl ?_
    change Settled _ _ _ w.device.waitMutex.tcpReadCheck.1
    rw [tcpReadCheck_fst]
    exact .of_not id h.timewt id (h.keeps.same rfl)
  | readWait => exact hcalm _ Iff.rfl (.of_calm h.keeps h.timewt (calm_signalReaders _ _))
  | read len =>
    have hs := Keeps.tcpReadRound ⟨es, hwait⟩ hst len
    exact hcalm _ Iff.rfl ⟨hs.timewt, hs.finwt2, hs.begins, hs.keeps⟩
  | recv pkt src =>
    obtain ⟨hone, hlen, hapart, hfree⟩ := htidy
    rw [hev] at hone hlen hfree
    rcases hk.recv hone h.timewt hn hlen hapart src hfree with hf | hs
    · exact .of_freed hf
    · exact h.of_settled hs
  | expire =>
    rcases hk.expire hn fun h₁ h₂ => htidy ⟨h₁, h₂⟩ with hf | ⟨hsame, hkeep⟩
    · exact .of_freed hf
    · refine hcalm _ Iff.rfl (.of_not id ?_ ?_ hkeep)
      · exact fun hc => h.timewt (hsame.symm.trans hc)
      · exact hsame.trans
  | elapse time =>
    exact hcalm _ Iff.rfl (.of_not id h.timewt id ⟨es, hk.holds.elapse time, hk.count⟩)

/-- **TIME-WAIT has exactly one event**, in every run of tidy steps of a device and its timer: if
the connection is in the state TIMEWT, or has processed the FIN of the other side and had its own
acknowledged. -/
theorem timewait_has_one_event {minor nextseq : Nat} {net : List Sending} {calls : List Call}
    {w : Watch} (r : tidyMachine.Run ⟨Device.closed minor net nextseq, false⟩ calls w)
    (hw : w.device.tcb.state = .timewt ∨ w.waits = true) :
    w.device.timer.events.count (w.device.minor, .timewt) = 1 := by
  have hstep : ∀ w c, Waiting w → tidyMachine.enabled w c → Waiting (tidyMachine.next w c) :=
    fun w c h he => h.step he
  have hstart : Waiting ⟨closed minor net nextseq, false⟩ := by
    refine ⟨by simp [closed], by simp, [], Timer.holds_nil rfl fun i _ hi => ?_, rfl⟩
    exact decide_eq_false hi
  have hinv := r.invariant hstep hstart
  have hwaits : w.waits = true := hw.resolve_left hinv.timewt
  obtain ⟨es, hk⟩ := hinv.keeps
  rw [hk.holds.events, hk.count, hwaits]
  rfl

/-- A segment of the other side. -/
def incoming (seqnum acknum window : Nat) (control : Control) : Call :=
  .recv (emptySegment seqnum acknum window control) ⟨1, []⟩

/-- A connection is closed, its FIN acknowledged, and the FIN of the other side comes in. -/
theorem timewait_has_one_event_session :
    ∃ w, tidyMachine.Run ⟨unopened, false⟩ (handshake 1905 ++ [.close,
        incoming 5001 1906 1000 { ack := true },
        incoming 5001 1906 1000 { ack := true, fin := true }]) w ∧
      w.waits = true ∧ w.device.timer.events.count (w.device.minor, .timewt) = 1 := by
  have r : tidyMachine.Run ⟨unopened, false⟩ (handshake 1905 ++ [.close,
      incoming 5001 1906 1000 { ack := true },
      incoming 5001 1906 1000 { ack := true, fin := true }]) _ :=
    Machine.run_after
  have hw : (tidyMachine.after ⟨unopened, false⟩ (handshake 1905 ++ [.close,
      incoming 5001 1906 1000 { ack := true },
      incoming 5001 1906 1000 { ack := true, fin := true }])).waits = true := by decide
  exact ⟨_, r, hw, timewait_has_one_event r (.inr hw)⟩

/-- A connection that leaves an event for the end of TIME-WAIT behind: its window is closed when it
is closed, so that TIME-WAIT begins with its FIN still to be sent. When the FIN is sent a
retransmission event stands in front of the other, and the reset that follows purges the first of
the two only. -/
def remnant : List Call :=
  [.open (passive 0 none), incoming 5000 0 0 { syn := true }, incoming 5001 1905 0 { ack := true },
    .close, incoming 5001 1905 0 { ack := true, fin := true },
    incoming 5002 1905 100 { ack := true }, incoming 5002 1905 100 { ack := true, rst := true }]

/-- A second connection of the device. Its SYN is sent twice, and with it two retransmission events
are scheduled, of which each acknowledgement purges one. -/
def second : List Call :=
  [.open (passive 7 (some ⟨1, []⟩)), .writeCheck, incoming 5000 0 1000 { syn := true },
    .write [1, 2], incoming 5001 2809 1000 { ack := true }, .close,
    incoming 5001 2812 1000 { ack := true, fin := true }]

/-- **Two events for the end of one TIME-WAIT.** The second connection has its FIN acknowledged and
processes the FIN of the other side, but the purge leaves the event of the first connection in the
queue, behind a retransmission event. -/
theorem timewait_has_two_events :
    ∃ w, watchMachine.Run ⟨unopened, false⟩ (remnant ++ second) w ∧ w.waits = true ∧
      w.device.tcb.state = .finwt2 ∧ w.device.tcb.snd.sndfin = 2811 ∧
      w.device.tcb.snd.snduna = 2812 ∧
      w.device.timer.events = [(w.device.minor, .timewt), (w.device.minor, .timewt)] :=
  ⟨_, Machine.run_after, by decide⟩

end Xinu.Tcp
