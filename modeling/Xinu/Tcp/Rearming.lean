import Xinu.Tcp.PeerFin
import Xinu.Tcp.Wheel

/-!
# The retransmission event

What has been sent and not acknowledged is to be sent again if it gets lost, for which a
retransmission event has to be queued. The event is lost when it fires while the window is closed:
`tcpSendRxt` then does nothing, and the persist event that is queued instead is purged as soon as
the window opens, even if it does not open far enough for `tcpSendData` to send anything. As long as
this does not happen, and the event is never scheduled a second time, there is a retransmission
event whenever something is in flight.

An acknowledgement purges the event, and the time for which it has been queued is taken as a round
trip, also where what is acknowledged has been sent twice.

## Main results

* `Covered.tcpSendData`, `Covered.tcpRecvAck`, `Covered.expire`: what the parts of the code keep
* `inflight_covered`: something in flight has an event queued, in every run of such steps
* `sampled_eq_iff`: which round trips leave the estimate as it is
* `karn_iff`: when the acknowledgements of what has been sent twice do
-/

namespace Xinu.Tcp

open List Device Timer

variable {d d' : Device}

/-- The events of the control block: at most one retransmission event, and at most one persist
event, which is only there in the persist state. -/
structure Timed (d : Device) (es : List (Nat × EvtType)) : Prop where
  holds : d.timer.Holds es
  rxt : es.count (d.minor, .rxt) ≤ 1
  persist : es.count (d.minor, .persist) ≤ d.tcb.snd.sndflg.persist.toNat
  rxttime : 0 ≤ d.tcb.snd.rxttime
  psttime : 0 ≤ d.tcb.snd.psttime

/-- Something is in flight. -/
def Send.InFlight (s : Send) : Prop := seqlt s.snduna s.sndnxt
deriving Decidable

/-- And there is a retransmission event if something is in flight. -/
structure Covered (d : Device) (es : List (Nat × EvtType)) : Prop extends Timed d es where
  inflight : d.tcb.snd.InFlight → (d.minor, .rxt) ∈ es

/-! ## What leaves the events alone -/

/-- The timer, the times and the persist flag are the same. -/
structure SameClock (d d' : Device) : Prop where
  minor : d'.minor = d.minor
  timer : d'.timer = d.timer
  persist : d'.tcb.snd.sndflg.persist = d.tcb.snd.sndflg.persist
  rxttime : d'.tcb.snd.rxttime = d.tcb.snd.rxttime
  psttime : d'.tcb.snd.psttime = d.tcb.snd.psttime

namespace SameClock

variable {d'' : Device}

theorem refl (d : Device) : SameClock d d := ⟨rfl, rfl, rfl, rfl, rfl⟩

theorem trans (h : SameClock d d') (h' : SameClock d' d'') : SameClock d d'' :=
  ⟨h'.minor.trans h.minor, h'.timer.trans h.timer, h'.persist.trans h.persist,
    h'.rxttime.trans h.rxttime, h'.psttime.trans h.psttime⟩

theorem ite {c : Prop} {_ : Decidable c} (h : SameClock d d') (h' : SameClock d d'') :
    SameClock d (if c then d' else d'') := by
  split_ifs
  · exact h
  · exact h'

end SameClock

theorem Device.sameClock_modSnd (d : Device) (f : Send → Send)
    (hp : (f d.tcb.snd).sndflg.persist = d.tcb.snd.sndflg.persist)
    (hr : (f d.tcb.snd).rxttime = d.tcb.snd.rxttime)
    (ht : (f d.tcb.snd).psttime = d.tcb.snd.psttime) : SameClock d (d.modSnd f) :=
  ⟨rfl, rfl, hp, hr, ht⟩

theorem Device.sameClock_signalMutex (d : Device) : SameClock d d.signalMutex :=
  ⟨rfl, rfl, rfl, rfl, rfl⟩

theorem Calm.sameClock (h : Calm d d') : SameClock d d' :=
  ⟨h.minor, h.timer, h.persist, by rw [h.snd], by rw [h.snd]⟩

theorem Calm.inFlight (h : Calm d d') : d'.tcb.snd.InFlight ↔ d.tcb.snd.InFlight := by
  unfold Send.InFlight
  rw [h.snd]

variable {es : List (Nat × EvtType)}

theorem Timed.same (h : Timed d es) (hs : SameClock d d') : Timed d' es := by
  refine ⟨?_, ?_, ?_, ?_, ?_⟩
  · rw [hs.timer]
    exact h.holds
  · rw [hs.minor]
    exact h.rxt
  · rw [hs.minor, hs.persist]
    exact h.persist
  · rw [hs.rxttime]
    exact h.rxttime
  · rw [hs.psttime]
    exact h.psttime

theorem Covered.same (h : Covered d es) (hs : SameClock d d')
    (hi : d'.tcb.snd.InFlight → d.tcb.snd.InFlight) : Covered d' es := by
  refine ⟨h.toTimed.same hs, fun h' => ?_⟩
  rw [hs.minor]
  exact h.inflight (hi h')

theorem Covered.calm (h : Covered d es) (hc : Calm d d') : Covered d' es :=
  h.same hc.sameClock hc.inFlight.mp

/-! ## Scheduling and purging -/

/-- The events after one has been scheduled, or could not be. -/
structure Timer.Adds (x : Nat × EvtType) (es es' : List (Nat × EvtType)) : Prop where
  length : es'.length ≤ es.length + 1
  same : ∀ y, y ≠ x → es'.count y = es.count y
  count : es'.count x ≤ es.count x + 1
  kept : x ∉ es' → es'.length ≤ es.length

/-- **Scheduling** adds the event where the table has a spare record. -/
theorem Timer.Holds.adds {t : Timer} (h : t.Holds es) (time : Int) (m : Nat) (type : EvtType) :
    ∃ es', (t.tcpTimerSched time m type).1.Holds es' ∧ Adds (m, type) es es' ∧
      (0 ≤ time → es.length < 3 * NTCP → es'.count (m, type) = es.count (m, type) + 1) := by
  rcases h.sched time m type with ⟨hholds, hno⟩ | ⟨l, r, rfl, hholds⟩
  · refine ⟨es, hholds, ⟨Nat.le_succ _, fun _ _ => rfl, Nat.le_succ _, fun _ => le_rfl⟩, ?_⟩
    intro htime hspare
    rw [h.spare_iff] at hno
    omega
  · have hcount : (l ++ (m, type) :: r).count (m, type) = (l ++ r).count (m, type) + 1 := by
      rw [perm_middle.count_eq, count_cons_self]
    refine ⟨_, hholds, ⟨perm_middle.length_eq.le, fun y hy => ?_, hcount.le, fun hno => ?_⟩,
      fun _ _ => hcount⟩
    · rw [perm_middle.count_eq, count_cons_of_ne hy.symm]
    · exact absurd (mem_append_right l mem_cons_self) hno

/-- The retransmission event is scheduled when there is none. -/
theorem Timed.schedRxt (h : Timed d es) {time : Int} (htime : 0 ≤ time)
    (hno : (d.minor, .rxt) ∉ es) (hspare : es.length < 3 * NTCP) :
    ∃ es', Timed (d.tcpTimerSched time .rxt).1 es' ∧ (d.minor, .rxt) ∈ es' := by
  obtain ⟨es', hholds, hadds, hcount⟩ := h.holds.adds time d.minor .rxt
  have hone := hcount htime hspare
  rw [count_eq_zero.mpr hno] at hone
  refine ⟨es', ⟨hholds, hone.le, ?_, h.rxttime, h.psttime⟩, count_pos_iff.mp (hone ▸ one_pos)⟩
  exact (hadds.same (d.minor, .persist) (by simp)).trans_le h.persist

/-- The persist event is scheduled when there is none, and in the persist state. -/
theorem Timed.schedPersist (h : Timed d es) (time : Int) (hno : (d.minor, .persist) ∉ es)
    (hflag : d.tcb.snd.sndflg.persist = true) :
    ∃ es', Timed (d.tcpTimerSched time .persist).1 es' ∧
      ((d.minor, .rxt) ∈ es → (d.minor, .rxt) ∈ es') := by
  obtain ⟨es', hholds, hadds, -⟩ := h.holds.adds time d.minor .persist
  have hsame := hadds.same (d.minor, .rxt) (by simp)
  refine ⟨es', ⟨hholds, hsame.trans_le h.rxt, hadds.count.trans ?_, h.rxttime, h.psttime⟩, ?_⟩
  · change _ ≤ d.tcb.snd.sndflg.persist.toNat
    rw [count_eq_zero.mpr hno, hflag]
    exact le_rfl
  · rw [← count_pos_iff, ← count_pos_iff, hsame]
    exact id

theorem Timed.purge (h : Timed d es) (type : EvtType) (hone : es.count (d.minor, type) ≤ 1) :
    Timed (d.tcpTimerPurge (some type)).1 (Timer.others d.minor (some type) es) :=
  ⟨h.holds.purge (apart_of_count_le_one hone), (count_others_le ..).trans h.rxt,
    (count_others_le ..).trans h.persist, h.rxttime, h.psttime⟩

/-! ## Sending data -/

/-- A retransmission event that is queued is not due yet. -/
def Device.InTime (d : Device) : Prop :=
  d.timer.Queued d.minor .rxt → 0 < d.tcpTimerRemain .rxt
deriving Decidable

theorem Device.InTime.remain (h : d.InTime) (hd : d.timer.Holds es) :
    d.tcpTimerRemain .rxt ≤ 0 ↔ (d.minor, .rxt) ∉ es := by
  constructor
  · intro hle hin
    have := h (hd.queued_iff.mpr hin)
    omega
  · intro hno
    by_contra hpos
    exact hno (hd.remain (by unfold tcpTimerRemain at hpos; omega))

theorem Moves.sameClock (h : Moves d d') : SameClock d d' := by
  refine ⟨h.minor, h.timer, ?_, ?_, ?_⟩ <;> rw [h.snd]

/-- **Sending leaves a retransmission event behind.** -/
theorem Timed.transmit (h : Timed d es) (ht : d.InTime)
    (hspare : (d.minor, .rxt) ∉ es → es.length < 3 * NTCP) (ctrl : Control) (wndused tosend : Nat) :
    ∃ es', Covered (d.transmit ctrl wndused tosend).1 es' := by
  obtain ⟨e, hmoves, hcalm⟩ := d.transmit_cases ctrl wndused tosend
  have hsent := hmoves.sameClock
  have he := h.same hsent
  have hremain : e.tcpTimerRemain .rxt ≤ 0 ↔ (e.minor, .rxt) ∉ es := by
    unfold Device.tcpTimerRemain
    rw [hsent.timer, hsent.minor]
    exact ht.remain h.holds
  have hsched : ∃ es', Timed (if e.tcpTimerRemain .rxt ≤ 0 then
      (e.tcpTimerSched e.tcb.snd.rxttime .rxt).1 else e) es' ∧ (e.minor, .rxt) ∈ es' := by
    split_ifs with hr
    · rw [hremain] at hr
      exact he.schedRxt he.rxttime hr (hspare (hsent.minor ▸ hr))
    · exact ⟨es, he, not_not.mp fun hno => hr (hremain.mpr hno)⟩
  have hminor : (if e.tcpTimerRemain .rxt ≤ 0 then
      (e.tcpTimerSched e.tcb.snd.rxttime .rxt).1 else e).minor = e.minor := by split_ifs <;> rfl
  obtain ⟨es', he', hin⟩ := hsched
  exact ⟨es', Covered.calm ⟨he', fun _ => hminor ▸ hin⟩ hcalm⟩

section

variable (h : Covered d es) (ht : d.InTime) (hspare : (d.minor, .rxt) ∉ es → es.length < 3 * NTCP)
include h ht hspare

/-- **`tcpSendData`** keeps the events in order, where the retransmission event is not due already.
-/
theorem Covered.tcpSendData : ∃ es', Covered d.tcpSendData.1 es' := by
  unfold Device.tcpSendData
  dsimp only
  split_ifs with hmss hfin hbusy hwnd hfull hall hrxt
  · exact ⟨es, h⟩
  · exact ⟨es, h⟩
  · exact ⟨es, h⟩
  · -- the window is closed
    have hflag : d.tcb.snd.sndflg.persist = false := by
      rw [not_or] at hbusy
      exact Bool.not_eq_true _ ▸ hbusy.2
    have hno : (d.minor, .persist) ∉ es := by
      have := h.persist
      rw [hflag] at this
      exact count_eq_zero.mp (Nat.le_zero.mp this)
    have hset : Timed (d.modSnd fun s =>
        { s with sndflg := { s.sndflg with persist := true }, psttime := TCP_PST_INITTIME })
        es := by
      refine ⟨h.holds, h.rxt, h.persist.trans ?_, h.rxttime,
        (by decide : (0 : Int) ≤ TCP_PST_INITTIME)⟩
      rw [hflag]
      exact Nat.zero_le _
    obtain ⟨es', hes', hkeep⟩ := hset.schedPersist TCP_PST_INITTIME hno rfl
    exact ⟨es', hes', fun hi => hkeep (h.inflight hi)⟩
  · exact ⟨es, h⟩
  · -- something is in flight, so that there is an event
    exact absurd (h.inflight hrxt.1) ((ht.remain h.holds).mp hrxt.2)
  · exact ⟨es, h⟩
  · have hnote := d.calm_noteTosend ⟨d.tcb.snd.pending, d.tcb.snd.wndused, d.tcb.snd.tosend⟩
    exact (h.toTimed.same hnote.sameClock).transmit ht hspare ..

/-- The end of the processing of a segment. -/
theorem Covered.respond : ∃ es', Covered d.respond es' := by
  have hdata : ∃ es', Covered (if d.tcb.snd.sndflg.snddata = true then d.tcpSendData.1 else d)
      es' := by
    split_ifs
    · exact h.tcpSendData ht hspare
    · exact ⟨es, h⟩
  obtain ⟨es', hes'⟩ := hdata
  exact ⟨es', hes'.calm (.ite (calm_tcpSendAck _) (.refl _))⟩

end

/-! ## Acknowledgements -/

theorem rxttime_nonneg (x : Int) : 0 ≤ if x < TCP_RXT_MINTIME then TCP_RXT_MINTIME else x := by
  unfold TCP_RXT_MINTIME
  split_ifs
  · omega
  · omega

/-- The estimate of the round trip time purges the retransmission event. -/
theorem Device.tcpRecvRtt_spec (d : Device) :
    d.tcpRecvRtt.timer = (d.tcpTimerPurge (some .rxt)).1.timer ∧ d.tcpRecvRtt.minor = d.minor ∧
      d.tcpRecvRtt.tcb.snd.sndflg = d.tcb.snd.sndflg ∧
      d.tcpRecvRtt.tcb.snd.psttime = d.tcb.snd.psttime ∧
      (0 ≤ d.tcb.snd.rxttime → 0 ≤ d.tcpRecvRtt.tcb.snd.rxttime) := by
  unfold tcpRecvRtt
  dsimp only
  split_ifs
  · exact ⟨rfl, rfl, rfl, rfl, fun _ => rxttime_nonneg _⟩
  · exact ⟨rfl, rfl, rfl, rfl, id⟩

/-- What an acknowledgement makes of the events: the retransmission event is scheduled anew if there
is more in flight. -/
structure Acknowledges (d d' : Device) (es es' : List (Nat × EvtType)) : Prop where
  holds : d'.timer.Holds es'
  minor : d'.minor = d.minor
  rxt : es'.count (d.minor, .rxt) ≤ 1
  others : ∀ x, x ≠ (d.minor, .rxt) → es'.count x = es.count x
  length : es'.length ≤ es.length + 1
  persist : d'.tcb.snd.sndflg.persist = d.tcb.snd.sndflg.persist
  psttime : d'.tcb.snd.psttime = d.tcb.snd.psttime
  rxttime : 0 ≤ d.tcb.snd.rxttime → 0 ≤ d'.tcb.snd.rxttime
  inflight : 0 ≤ d.tcb.snd.rxttime → es.length < 3 * NTCP → d'.tcb.snd.InFlight →
    (d.minor, .rxt) ∈ es'
  spare : es.length < 3 * NTCP → (d.minor, .rxt) ∉ es' → es'.length < 3 * NTCP

theorem Device.acknowledge_events (hd : d.timer.Holds es) (hone : es.count (d.minor, .rxt) ≤ 1)
    (acknum : Nat) : ∃ es', Acknowledges d (d.acknowledge acknum) es es' := by
  unfold acknowledge
  dsimp only
  -- up to the round trip time, only the buffer and the edge change
  generalize he : (modSnd _ fun s : Send => { s with snduna := acknum, rxtcount := 0 }) = e
  have hsame : SameClock d e := by
    rw [← he]
    refine SameClock.trans ?_ (sameClock_modSnd _ _ rfl rfl rfl)
    refine SameClock.trans ?_ (.ite (calm_signalWriters _ _).sameClock (.refl _))
    exact (d.calm_noteAcked _).sameClock.trans (sameClock_modSnd _ _ rfl rfl rfl)
  obtain ⟨htimer, hminor, hflg, hpst, hrxt⟩ := e.tcpRecvRtt_spec
  have hholds : e.tcpRecvRtt.timer.Holds (others d.minor (some .rxt) es) := by
    rw [htimer]
    change (e.timer.tcpTimerPurge e.minor (some .rxt)).1.Holds _
    rw [hsame.timer, hsame.minor]
    exact hd.purge (apart_of_count_le_one hone)
  rw [hsame.minor] at hminor
  rw [hsame.rxttime] at hrxt
  replace hpst := hpst.trans hsame.psttime
  replace hflg := (congrArg Flags.persist hflg).trans hsame.persist
  generalize e.tcpRecvRtt = e' at hholds hminor hflg hpst hrxt
  have hlen := length_others_le d.minor (some .rxt) es
  have hcount : ∀ x, x ≠ (d.minor, .rxt) → (others d.minor (some .rxt) es).count x = es.count x :=
    fun x hx => count_others_of_ne hx
  have hzero : (others d.minor (some .rxt) es).count (d.minor, .rxt) = 0 :=
    count_eq_zero.mpr fun hin => (mem_others_some.mp hin).2 rfl
  split_ifs with hflight
  · obtain ⟨es', hes', hadds, hin⟩ := hholds.adds e'.tcb.snd.rxttime e'.minor .rxt
    rw [hminor, hzero] at hin
    rw [hminor] at hadds
    have hmem : 0 ≤ d.tcb.snd.rxttime → es.length < 3 * NTCP → (d.minor, .rxt) ∈ es' :=
      fun ht hs => count_pos_iff.mp (hin (hrxt ht) (hlen.trans_lt hs) ▸ one_pos)
    refine ⟨es', hes', hminor, hadds.count.trans (by rw [hzero]), fun x hx => ?_,
      hadds.length.trans (Nat.succ_le_succ hlen), hflg, hpst, hrxt, fun ht hs _ => hmem ht hs,
      fun hs hno => ?_⟩
    · exact (hadds.same x hx).trans (hcount x hx)
    · exact (hadds.kept hno).trans_lt (hlen.trans_lt hs)
  · exact ⟨_, hholds, hminor, by rw [hzero]; exact Nat.zero_le _, hcount,
      hlen.trans (Nat.le_succ _),
      hflg, hpst, hrxt, fun _ _ hi => absurd hi hflight, fun hs _ => hlen.trans_lt hs⟩

/-- An acknowledgement of something in flight: the event is scheduled anew if there is more. -/
theorem Timed.acknowledge (h : Timed d es) (hspare : es.length < 3 * NTCP) (acknum : Nat) :
    ∃ es', Covered (d.acknowledge acknum) es' ∧ (d.acknowledge acknum).minor = d.minor ∧
      ((d.minor, .rxt) ∉ es' → es'.length < 3 * NTCP) := by
  obtain ⟨es', ha⟩ := d.acknowledge_events h.holds h.rxt acknum
  refine ⟨es', ⟨⟨ha.holds, ?_, ?_, ha.rxttime h.rxttime, ?_⟩, fun hi => ?_⟩, ha.minor,
    ha.spare hspare⟩
  · rw [ha.minor]
    exact ha.rxt
  · rw [ha.minor, ha.others _ (by simp), ha.persist]
    exact h.persist
  · rw [ha.psttime]
    exact h.psttime
  · rw [ha.minor]
    exact ha.inflight h.rxttime hspare hi

/-- The window is updated: if it has increased, the persist event is purged. -/
theorem Device.updateWindow_cases (d : Device) (pkt : TcpPkt) :
    (SameClock d (d.updateWindow pkt) ∨
      (d.updateWindow pkt).timer = (d.tcpTimerPurge (some .persist)).1.timer ∧
      (d.updateWindow pkt).tcb.snd.rxttime = d.tcb.snd.rxttime ∧
      (d.updateWindow pkt).tcb.snd.psttime = d.tcb.snd.psttime) ∧
      (d.updateWindow pkt).minor = d.minor ∧
      ((d.updateWindow pkt).tcb.snd.InFlight ↔ d.tcb.snd.InFlight) := by
  unfold updateWindow
  dsimp only
  split
  · split
    · exact ⟨.inr ⟨rfl, rfl, rfl⟩, rfl, Iff.rfl⟩
    · exact ⟨.inl (d.sameClock_modSnd _ rfl rfl rfl), rfl, Iff.rfl⟩
  · exact ⟨.inl (.refl d), rfl, Iff.rfl⟩

theorem Covered.updateWindow (h : Covered d es) (pkt : TcpPkt) :
    ∃ es', Covered (d.updateWindow pkt) es' ∧ (d.updateWindow pkt).minor = d.minor ∧
      ((d.minor, .rxt) ∈ es → (d.minor, .rxt) ∈ es') ∧ es'.length ≤ es.length := by
  obtain ⟨hsame | ⟨htimer, hrxt, hpst⟩, hminor, hflight⟩ := d.updateWindow_cases pkt
  · exact ⟨es, h.same hsame hflight.mp, hminor, id, le_rfl⟩
  · have hpurge := h.toTimed.purge .persist (h.persist.trans (Bool.toNat_le _))
    have hmem : (d.minor, EvtType.rxt) ∈ es →
        (d.minor, EvtType.rxt) ∈ others d.minor (some .persist) es := fun hin =>
      mem_others_some.mpr ⟨hin, by simp⟩
    refine ⟨others d.minor (some .persist) es, ⟨⟨htimer ▸ hpurge.holds, ?_, ?_, ?_, ?_⟩,
      fun hi => ?_⟩, hminor, hmem, length_others_le ..⟩
    · rw [hminor]
      exact hpurge.rxt
    · rw [hminor]
      refine (count_eq_zero.mpr fun hin => ?_).trans_le (Nat.zero_le _)
      exact (mem_others_some.mp hin).2 rfl
    · exact hrxt ▸ h.rxttime
    · exact hpst ▸ h.psttime
    · rw [hminor]
      exact hmem (h.inflight (hflight.mp hi))

/-- `tcpRecvAck` acknowledges, if there is something to acknowledge, and updates the window. -/
theorem Device.tcpRecvAck_cases (d : Device) (pkt : TcpPkt) :
    ∃ e, (e = d ∨ e = d.acknowledge pkt.acknum) ∧ Calm (e.updateWindow pkt) (d.tcpRecvAck pkt) := by
  refine ⟨_, ?_, .ite (calm_sndack _ _) (.refl _)⟩
  split_ifs
  · exact .inr rfl
  · exact .inl rfl

/-- **`tcpRecvAck`** keeps the events in order. -/
theorem Covered.tcpRecvAck (h : Covered d es) (hspare : es.length < 3 * NTCP) (pkt : TcpPkt) :
    ∃ es', Covered (d.tcpRecvAck pkt) es' ∧ (d.tcpRecvAck pkt).minor = d.minor ∧
      ((d.minor, .rxt) ∉ es' → es'.length < 3 * NTCP) := by
  obtain ⟨e, he, hcalm⟩ := d.tcpRecvAck_cases pkt
  have hack : ∃ es', Covered e es' ∧ e.minor = d.minor ∧
      ((d.minor, .rxt) ∉ es' → es'.length < 3 * NTCP) := by
    rcases he with rfl | rfl
    · exact ⟨es, h, rfl, fun _ => hspare⟩
    · exact h.toTimed.acknowledge hspare pkt.acknum
  obtain ⟨es₁, hes₁, hminor₁, hlen₁⟩ := hack
  obtain ⟨es₂, hes₂, hminor₂, hmem, hlen₂⟩ := hes₁.updateWindow pkt
  rw [hminor₁] at hminor₂ hmem
  refine ⟨es₂, hes₂.calm hcalm, hcalm.minor.trans hminor₂, fun hno => ?_⟩
  exact hlen₂.trans_lt (hlen₁ fun hin => hno (hmem hin))

/-! ## The timer -/

theorem Timed.drop {x : Nat × EvtType} {rest : List (Nat × EvtType)} {t : Timer}
    (h : Timed d (x :: rest)) (ht : t.Holds rest) : Timed { d with timer := t } rest :=
  ⟨ht, (count_le_count_cons ..).trans h.rxt, (count_le_count_cons ..).trans h.persist,
    h.rxttime, h.psttime⟩

section

variable (h : Timed d es) (hno : (d.minor, .rxt) ∉ es) (hspare : es.length < 3 * NTCP)
include h hno hspare

/-- What is sent again is covered by a new event. -/
theorem Timed.retransmit (first : Bool) : ∃ es', Covered (d.retransmit first).1 es' := by
  have htime : 0 ≤ min (d.tcb.snd.rxttime * 2 ^ d.tcb.snd.rxtcount) TCP_RXT_MAXTIME := by
    refine le_min (Int.mul_nonneg h.rxttime ?_) (by decide)
    exact Int.pow_nonneg (by decide)
  obtain ⟨es', hes', hin⟩ := h.schedRxt htime hno hspare
  have hminor : (d.tcpTimerSched (min (d.tcb.snd.rxttime * 2 ^ d.tcb.snd.rxtcount) TCP_RXT_MAXTIME)
    .rxt).1.minor = d.minor := rfl
  unfold Device.retransmit
  dsimp only
  generalize (d.tcpTimerSched (min (d.tcb.snd.rxttime * 2 ^ d.tcb.snd.rxtcount) TCP_RXT_MAXTIME)
    .rxt).1 = e at hes' hminor
  rw [← hminor] at hin
  have hkeep : ∀ e', SameClock e e' → Covered e' es' := fun e' hs =>
    ⟨hes'.same hs, fun _ => hs.minor ▸ hin⟩
  split_ifs
  · exact ⟨es', hkeep _ ((e.calm_tcpSend ..).sameClock.trans (sameClock_signalMutex _))⟩
  · have hback : ∀ e', SameClock e e' →
        Covered (e'.modSnd fun s => s.backOff first).signalMutex es' := fun e' hs =>
      hkeep _ (hs.trans ⟨rfl, rfl, rfl, rfl, rfl⟩)
    exact ⟨es', hback _ (e.calm_tcpSend ..).sameClock⟩

/-- The retransmission event has fired. -/
theorem Timed.tcpSendRxt (hlost : d.tcb.snd.sndflg.persist = true → ¬ d.tcb.snd.InFlight) :
    d.tcpSendRxt.1.tcb.state = .closed ∨ ∃ es', Covered d.tcpSendRxt.1 es' := by
  unfold Device.tcpSendRxt
  dsimp only
  split_ifs with hquiet hcount
  · -- nothing is in flight
    refine .inr ⟨es, h.same ⟨rfl, rfl, rfl, rfl, rfl⟩, fun hi => ?_⟩
    rcases hquiet with hnot | hflag
    · exact absurd hi hnot
    · exact absurd hi (hlost hflag)
  · exact .inl (tcpFree_state _)
  · exact .inr ((h.same (d.sameClock_modSnd _ rfl rfl rfl)).retransmit hno hspare _)

end

theorem Covered.tcpSendPersist (h : Covered d es) (hno : (d.minor, .persist) ∉ es)
    (hflag : d.tcb.snd.sndflg.persist = true) : ∃ es', Covered d.tcpSendPersist.1 es' := by
  unfold Device.tcpSendPersist
  split_ifs
  · refine ⟨es, ⟨⟨h.holds, h.rxt, ?_, h.rxttime, h.psttime⟩, h.inflight⟩⟩
    exact Nat.le_zero.mpr (count_eq_zero.mpr hno)
  · have htime : 0 ≤ min (d.tcb.snd.psttime * 2) TCP_PST_MAXTIME :=
      le_min (Int.mul_nonneg h.psttime (by decide)) (by decide)
    have hset : Timed (d.modSnd fun s => { s with psttime := min (s.psttime * 2) TCP_PST_MAXTIME })
        es := ⟨h.holds, h.rxt, h.persist, h.rxttime, htime⟩
    obtain ⟨es', hes', hkeep⟩ :=
      hset.schedPersist (min (d.tcb.snd.psttime * 2) TCP_PST_MAXTIME) hno hflag
    have hcovered : Covered _ es' := ⟨hes', fun hi => hkeep (h.inflight hi)⟩
    exact ⟨es', (hcovered.calm (calm_tcpSend ..)).same (sameClock_signalMutex _) id⟩

/-- **A timer event** keeps the events in order, if no retransmission event is lost. -/
theorem Covered.expire (h : Covered d es)
    (hlost : ∀ e ∈ d.timer.take.2, e.tcbptr = d.minor → e.type = .rxt →
      d.tcb.snd.sndflg.persist = true → ¬ d.tcb.snd.InFlight) :
    d.expire.tcb.state = .closed ∨ ∃ es', Covered d.expire es' := by
  unfold Device.expire
  dsimp only
  rcases h.holds.take with ⟨rfl, htake⟩ | ⟨e, rest, rfl, hsome, hrest⟩
  · rw [htake]
    exact .inr ⟨_, h⟩
  rw [hsome]
  dsimp only
  have hdrop := h.toTimed.drop hrest
  have hspare : rest.length < 3 * NTCP := Nat.lt_of_succ_le h.holds.length_le
  -- an event that is not the one taken is still there
  have hmem : d.tcb.snd.InFlight → (e.tcbptr, e.type) ≠ (d.minor, .rxt) →
      (d.minor, .rxt) ∈ rest := fun hi hne =>
    (mem_cons.mp (h.inflight hi)).resolve_left hne.symm
  by_cases hown : e.tcbptr = d.minor
  · rw [if_pos hown]
    have hwait : SameClock { d with timer := d.timer.take.1 }
        ({ d with timer := d.timer.take.1 } : Device).waitMutex := ⟨rfl, rfl, rfl, rfl, rfl⟩
    have hd := hdrop.same hwait
    cases htype : e.type with
    | timewt => exact .inl (tcpFree_state _)
    | rxt =>
      have hone := h.rxt
      rw [hown, htype, count_cons_self] at hone
      have hno : (d.minor, EvtType.rxt) ∉ rest := count_eq_zero.mp (by omega)
      exact hd.tcpSendRxt hno hspare fun hflag => hlost e hsome hown htype hflag
    | persist =>
      have hone := h.persist
      rw [hown, htype, count_cons_self] at hone
      have hflag : d.tcb.snd.sndflg.persist = true := by
        by_contra hf
        rw [Bool.not_eq_true] at hf
        rw [hf, Bool.toNat_false] at hone
        omega
      rw [hflag, Bool.toNat_true] at hone
      have hno : (d.minor, EvtType.persist) ∉ rest := count_eq_zero.mp (by omega)
      refine .inr (Covered.tcpSendPersist ⟨hd, fun hi => hmem hi ?_⟩ hno hflag)
      rw [htype]
      simp
  · rw [if_neg hown]
    exact .inr ⟨rest, hdrop, fun hi => hmem hi fun heq => hown (Prod.mk.inj heq).1⟩

/-! ## Connections -/

/-- The states of a connection that the FIN of the other side has not brought to CLOSING or further.
-/
def TcpState.Connected (st : TcpState) : Prop :=
  st = .synrecv ∨ st = .estab ∨ st = .finwt1 ∨ st = .finwt2 ∨ st = .closewt ∨ st = .lastack
deriving Decidable

theorem TcpState.Connected.opened {st : TcpState} (h : st.Connected) :
    st ≠ .closed ∧ st ≠ .listen ∧ st ≠ .synsent := by
  rcases h with rfl | rfl | rfl | rfl | rfl | rfl <;> simp

/-- The connection has been freed, or its events are in order. -/
def Rearmed (d : Device) : Prop :=
  d.tcb.state = .closed ∨ d.tcb.state.Connected ∧ ∃ es, Covered d es

theorem Rearmed.same (h : Rearmed d) (hs : SameClock d d') (hst : d'.tcb.state = d.tcb.state)
    (hi : d'.tcb.snd.InFlight → d.tcb.snd.InFlight) : Rearmed d' := by
  unfold Rearmed
  rw [hst]
  exact h.imp id fun ⟨hc, es, hes⟩ => ⟨hc, es, hes.same hs hi⟩

theorem Rearmed.calm (h : Rearmed d) (hc : Calm d d') : Rearmed d' :=
  h.same hc.sameClock hc.state hc.inFlight.mp

theorem Rearmed.signalMutex (h : Rearmed d) : Rearmed d.signalMutex :=
  h.same ⟨rfl, rfl, rfl, rfl, rfl⟩ rfl id

section

variable (hst : d.tcb.state.Connected)
include hst

section

variable (h : Covered d es) (hspare : es.length < 3 * NTCP) (ht : d.InTime)
include h hspare ht

theorem Rearmed.tcpSendData : Rearmed d.tcpSendData.1 := by
  refine .inr ⟨?_, h.tcpSendData ht fun _ => hspare⟩
  rw [(outputs_tcpSendData d).state]
  exact hst

theorem Rearmed.closeSend : Rearmed d.closeSend.1 := by
  have hdata : Rearmed (if d.tcb.snd.sndflg.snddata = true then d.tcpSendData.1 else d) := by
    split_ifs
    · exact .tcpSendData hst h hspare ht
    · exact .inr ⟨hst, es, h⟩
  exact hdata.signalMutex.calm (calm_waitOpenclose _)

/-- **`tcpClose`** sends the FIN, if it can. -/
theorem Rearmed.tcpClose : Rearmed d.tcpClose.1 := by
  have hfin : SameClock d d.requestFin := d.sameClock_modSnd _ rfl rfl rfl
  -- the connection with its FIN requested, in the state it goes to
  have hsend : ∀ st : TcpState, st.Connected → Rearmed
      ((d.requestFin.modFlg fun f => { f with snddata := true }).setState st).closeSend.1 :=
    fun st hst' => .closeSend hst' (h.same (hfin.trans ⟨rfl, rfl, rfl, rfl, rfl⟩) id) hspare ht
  have hkept : Rearmed d.signalMutex := .signalMutex (.inr ⟨hst, es, h⟩)
  unfold Device.tcpClose
  rcases id hst with hs | hs | hs | hs | hs | hs <;> rw [hs] <;> dsimp only
  · split_ifs
    · exact hsend .finwt1 (by decide)
    · exact .closeSend hst (h.same hfin id) hspare ht
  · exact hsend .finwt1 (by decide)
  · exact hkept
  · exact hkept
  · exact hsend .lastack (by decide)
  · exact hkept

end

end

/-! ## Reading and writing -/

theorem Rearmed.tcpReadRound (h : Rearmed d) (len : Nat) : Rearmed (d.tcpReadRound len).1 := by
  obtain ⟨e, he, hround⟩ := d.calm_tcpReadRound len
  rw [hround]
  exact (h.calm he).signalMutex

theorem Rearmed.push (h : Covered d es) (hst : d.tcb.state.Connected)
    (hspare : es.length < 3 * NTCP) (ht : d.InTime) :
    let d₁ := if d.tcb.snd.ocount < TCP_OBLEN then d.signalWriters 1 else d
    Rearmed (if d₁.tcb.state = .estab ∨ d₁.tcb.state = .closewt then d₁.tcpSendData.1
      else d₁).signalMutex := by
  intro d₁
  have hcalm : Calm d d₁ := .ite (calm_signalWriters _ _) (.refl _)
  have hst' : d₁.tcb.state.Connected := by
    rw [hcalm.state]
    exact hst
  have ht' : d₁.InTime := by
    unfold Device.InTime Device.tcpTimerRemain
    rw [hcalm.timer, hcalm.minor]
    exact ht
  refine .signalMutex ?_
  split_ifs
  · exact .tcpSendData hst' (h.calm hcalm) hspare ht'
  · exact .inr ⟨hst', es, h.calm hcalm⟩

/-- **A round of `tcpWrite`** sends what it has taken, if it can. -/
theorem Rearmed.tcpWriteRound (hst : d.tcb.state.Connected) (h : Covered d es)
    (hspare : es.length < 3 * NTCP) (ht : d.InTime) (buffer : List UInt8) :
    Rearmed (d.tcpWriteRound buffer).1 := by
  have hkept : Rearmed d.signalMutex := .signalMutex (.inr ⟨hst, es, h⟩)
  unfold Device.tcpWriteRound
  rcases writeStateCheck_cases hst.opened.2.1 with ⟨hcheck, -⟩ | ⟨err, herr, hcheck⟩ <;>
    rw [hcheck] <;> dsimp only
  · rw [if_neg (by decide)]
    -- the loop only touches the buffer
    have hloop := Send.writeLoop_eq d.tcb.snd buffer
    generalize d.tcb.snd.writeLoop buffer = w at hloop
    have hsame : SameClock d { (d.modSnd fun _ => w.1) with
        hist := { d.hist with written := d.hist.written ++ buffer.take w.2 } } := by
      refine ⟨rfl, rfl, ?_, ?_, ?_⟩
      · exact (congrArg (fun s : Send => s.sndflg.persist) hloop :)
      · exact (congrArg (fun s : Send => s.rxttime) hloop :)
      · exact (congrArg (fun s : Send => s.psttime) hloop :)
    have hflight : w.1.InFlight → d.tcb.snd.InFlight := by
      rw [hloop]
      exact id
    exact (Rearmed.push (h.same hsame hflight) hst hspare ht :)
  · rw [if_pos herr]
    exact hkept.calm (calm_signalWriters _ _)

/-! ## Segments -/

theorem Send.tcpRecvOpts_eq (s : Send) (pkt : TcpPkt) :
    s.tcpRecvOpts pkt = { s with sndmss := (s.tcpRecvOpts pkt).sndmss } := by
  unfold Send.tcpRecvOpts
  dsimp only
  split_ifs <;> rfl

/-- The device when a segment that is acceptable has had its acknowledgement processed. -/
def Device.answering (d : Device) (pkt : TcpPkt) : Device :=
  let d := d.waitMutex.modSnd fun s => s.tcpRecvOpts pkt
  (d.recvAckState (d.tcb.rcv.tcpRecvValid pkt).1).1

/-- The segment has no RST and no SYN, and no FIN is processed with it. -/
def Device.Plain (d : Device) (pkt : TcpPkt) : Prop :=
  (d.tcb.rcv.tcpRecvValid pkt).1.control.rst = false ∧
    (d.tcb.rcv.tcpRecvValid pkt).1.control.syn = false ∧
    ((d.answering pkt).recvText (d.tcb.rcv.tcpRecvValid pkt).1).2.2 = false
deriving Decidable

/-- What the acknowledgement of a segment does outside TIME-WAIT: nothing, or `tcpRecvAck`, behind
which a FIN that is acknowledged leads to FINWT2, from CLOSING too. -/
inductive Device.Answer (d : Device) (pkt : TcpPkt) : Device × Option Int → Prop
  | left (hcalm : Calm d e) (h1 : d.tcb.state ≠ .finwt1) (h2 : d.tcb.state ≠ .finwt2) :
    Answer d pkt (e, result)
  | opened (hst : d.tcb.state = .synrecv) :
    Answer d pkt (((d.setState .estab).signalOpenclose).tcpRecvAck pkt, none)
  | acked (hcalm : Calm (d.tcpRecvAck pkt) e)
    (hfin : d.tcb.state = .finwt1 → ¬ seqlte e.tcb.snd.sndfin e.tcb.snd.snduna) :
    Answer d pkt (e, none)
  | finished (hst : d.tcb.state = .finwt1) :
    Answer d pkt ((d.tcpRecvAck pkt).signalOpenclose.setState .finwt2, none)
  | turned (hst : d.tcb.state = .closing) : Answer d pkt
    ((((d.tcpRecvAck pkt).signalOpenclose.setState .finwt2).tcpTimerSched TCP_TWOMSL .timewt).1,
      none)

theorem Device.answer_recvAckState (d : Device) (hst : d.tcb.state ≠ .timewt) (pkt : TcpPkt) :
    d.Answer pkt (d.recvAckState pkt) := by
  unfold recvAckState
  dsimp only
  cases hs : d.tcb.state with
  | closed | listen | synsent => exact .left (.refl d) (by simp [hs]) (by simp [hs])
  | synrecv =>
    dsimp only
    split_ifs
    · exact .opened hs
    · exact .left (d.calm_sndrst true) (by simp [hs]) (by simp [hs])
  | estab | closewt => exact .acked (.refl _) (by simp [hs])
  | finwt1 =>
    dsimp only
    split_ifs with hacked
    · exact .finished hs
    · exact .acked (.refl _) fun _ => hacked
  | finwt2 => exact .acked (.ite (calm_signalOpenclose _) (.refl _)) (by simp [hs])
  | closing =>
    dsimp only
    split_ifs
    · exact .turned hs
    · exact .acked (.refl _) (by simp [hs])
  | lastack =>
    dsimp only
    split_ifs
    · exact .left (calm_signalOpenclose _) (by simp [hs]) (by simp [hs])
    · exact .left (.refl d) (by simp [hs]) (by simp [hs])
  | timewt => exact absurd hs hst

/-- The acknowledgement of a segment in each state. -/
theorem Covered.recvAckState (h : Covered d es) (hst : d.tcb.state.Connected)
    (hspare : es.length < 3 * NTCP) (pkt : TcpPkt) :
    (∃ es', Covered (d.recvAckState pkt).1 es' ∧
        (((d.recvAckState pkt).1.minor, .rxt) ∉ es' → es'.length < 3 * NTCP)) ∧
      (d.recvAckState pkt).1.tcb.state.Connected := by
  obtain ⟨es', hes', hminor, hlen⟩ := h.tcpRecvAck hspare pkt
  have hanswer := d.answer_recvAckState (fun hs => by simp [hs, TcpState.Connected] at hst) pkt
  generalize d.recvAckState pkt = r at hanswer
  cases hanswer with
  | left hcalm =>
    exact ⟨⟨es, h.calm hcalm, fun _ => hspare⟩, hcalm.state ▸ hst⟩
  | opened =>
    have hopen : Covered ((d.setState .estab).signalOpenclose) es :=
      h.same ⟨rfl, rfl, rfl, rfl, rfl⟩ id
    obtain ⟨es', hes', hminor, hlen⟩ := hopen.tcpRecvAck hspare pkt
    refine ⟨⟨es', hes', hminor ▸ hlen⟩, ?_⟩
    rw [(quiet_tcpRecvAck _ pkt).state]
    exact .inr (.inl rfl)
  | acked hcalm =>
    refine ⟨⟨es', hes'.calm hcalm, ?_⟩, ?_⟩
    · rw [hcalm.minor, hminor]
      exact hlen
    · rw [hcalm.state, (d.quiet_tcpRecvAck pkt).state]
      exact hst
  | finished =>
    refine ⟨⟨es', hes'.same ⟨rfl, rfl, rfl, rfl, rfl⟩ id, hminor ▸ hlen⟩, ?_⟩
    exact (by decide : TcpState.finwt2.Connected)
  | turned hs => simp [hs, TcpState.Connected] at hst

section

variable {pkt : TcpPkt} (hst : d.tcb.state.Connected) (h : Covered d es)
    (hspare : es.length < 3 * NTCP)
include hst h hspare

theorem Rearmed.tcpRecvOther
    (hrst : (d.tcb.rcv.tcpRecvValid pkt).1.control.rst = false)
    (hsyn : (d.tcb.rcv.tcpRecvValid pkt).1.control.syn = false)
    (hfin : ((d.recvAckState (d.tcb.rcv.tcpRecvValid pkt).1).1.recvText
      (d.tcb.rcv.tcpRecvValid pkt).1).2.2 = false)
    (ht : (d.recvAckState (d.tcb.rcv.tcpRecvValid pkt).1).1.InTime) :
    Rearmed (d.tcpRecvOther pkt).1 := by
  have hkept : Rearmed d := .inr ⟨hst, es, h⟩
  unfold Device.tcpRecvOther
  dsimp only
  generalize d.tcb.rcv.tcpRecvValid pkt = v at hrst hsyn hfin ht ⊢
  rw [hrst, hsyn, if_neg Bool.false_ne_true, if_neg Bool.false_ne_true, if_neg Bool.false_ne_true]
  split
  · exact hkept.calm d.calm_tcpSendAck
  split
  · exact hkept
  obtain ⟨⟨es', hes', hlen⟩, hst'⟩ := h.recvAckState hst hspare v.1
  generalize d.recvAckState v.1 = r at hes' hlen hst' hfin ht
  obtain ⟨e, result⟩ := r
  cases result with
  | some result => exact .inr ⟨hst', es', hes'⟩
  | none =>
    -- the text of the segment is taken, and an answer is sent
    have htext := e.calm_recvText v.1
    unfold tcpRecvData
    dsimp only
    rw [hfin, if_neg Bool.false_ne_true]
    generalize (e.recvText v.1).1 = e' at htext
    have ht' : e'.InTime := by
      unfold Device.InTime Device.tcpTimerRemain
      rw [htext.timer, htext.minor]
      exact ht
    refine .inr ⟨?_, (hes'.calm htext).respond ht' (by rw [htext.minor]; exact hlen)⟩
    rw [(outputs_respond e').state, htext.state]
    exact hst'

/-- **A segment** that brings no FIN keeps the events in order. -/
theorem Rearmed.recv (hplain : d.Plain pkt) (ht : (d.answering pkt).InTime)
    (src : NetAddr) : Rearmed (d.exec (.recv pkt src)) := by
  obtain ⟨hrst, hsyn, hfin⟩ := hplain
  rw [exec_recv pkt src hst.opened]
  split_ifs with hreset
  · exact .inl (tcpFree_state _)
  refine .signalMutex ?_
  have hopts : Covered (d.readOpts pkt) es := by
    have heq := d.tcb.snd.tcpRecvOpts_eq pkt
    refine h.same ⟨rfl, rfl, ?_, ?_, ?_⟩ ?_
    · exact (congrArg (fun s : Send => s.sndflg.persist) heq :)
    · exact (congrArg (fun s : Send => s.rxttime) heq :)
    · exact (congrArg (fun s : Send => s.psttime) heq :)
    · change (d.tcb.snd.tcpRecvOpts pkt).InFlight → _
      rw [heq]
      exact id
  exact .tcpRecvOther hst hopts hspare hrst hsyn hfin ht

end

/-! ## Runs -/

/-- The steps of the connection: no open, and segments that bring no FIN. -/
def Device.Ongoing (d : Device) : Call → Prop
  | .open _ => False
  | .recv pkt _ => d.Plain pkt
  | _ => True

instance (d : Device) : ∀ c : Call, Decidable (d.Ongoing c) := by
  rintro ⟨⟩ <;> unfold Device.Ongoing <;> infer_instance

/-- The step loses no retransmission event: none fires in the persist state while something is in
flight, and none is due when data is sent. -/
def Device.Rearms (d : Device) : Call → Prop
  | .expire => ∀ e ∈ d.timer.take.2, e.tcbptr = d.minor → e.type = .rxt →
      d.tcb.snd.sndflg.persist = true → ¬ d.tcb.snd.InFlight
  | .close | .write _ => d.InTime
  | .recv pkt _ => (d.answering pkt).InTime
  | _ => True

instance (d : Device) : ∀ c : Call, Decidable (d.Rearms c) := by
  rintro ⟨⟩ <;> unfold Device.Rearms <;> infer_instance

/-- The steps of a connection while the table of the events is not exhausted. An event is taken off
the queue and triggered in one step, and the devices of other control blocks start and purge no
events meanwhile. -/
def connectionMachine : Machine Device Call :=
  tcpMachine.restrict fun d c => d.timer.Spare ∧ d.Ongoing c

/-- And none of them loses a retransmission event. -/
def rearmingMachine : Machine Device Call := connectionMachine.restrict Device.Rearms

instance (d : Device) (c : Call) : Decidable (connectionMachine.enabled d c) :=
  inferInstanceAs (Decidable (d.Enabled c ∧ d.timer.Spare ∧ d.Ongoing c))

instance (d : Device) (c : Call) : Decidable (rearmingMachine.enabled d c) :=
  inferInstanceAs (Decidable (connectionMachine.enabled d c ∧ d.Rearms c))

/-- A device that is closed stays closed until it is opened. -/
theorem Device.exec_closed (hst : d.tcb.state = .closed) (c : Call) (hc : ∀ args, c ≠ .open args) :
    (d.exec c).tcb.state = .closed := by
  by_cases he : c = .expire
  · subst he
    exact (outputs_expire d).elim (fun h => h.state.trans hst) id
  · exact (still_exec_closed (P := fun _ => True) hst c hc he).state.trans hst

/-- **Every step** of a connection keeps its events in order, if it loses no retransmission event.
-/
theorem Rearmed.step (h : Rearmed d) {c : Call} (he : rearmingMachine.enabled d c) :
    Rearmed (rearmingMachine.next d c) := by
  obtain ⟨⟨-, hspare, hgo⟩, hkeep⟩ := he
  rcases id h with hclosed | ⟨hst, es, hes⟩
  · exact Or.inl (exec_closed hclosed c fun args heq => by subst heq; exact hgo)
  rw [hes.holds.spare_iff] at hspare
  have hwait : Covered d.waitMutex es := hes.same ⟨rfl, rfl, rfl, rfl, rfl⟩ id
  have hst' : d.waitMutex.tcb.state.Connected := hst
  cases c with
  | «open» args => exact absurd hgo id
  | close => exact .tcpClose hst hwait hspare hkeep
  | writeCheck =>
    change Rearmed d.waitMutex.writeStateCheck.1.signalMutex
    rcases writeStateCheck_cases (d := d.waitMutex) hst.opened.2.1 with
      ⟨hcheck, -⟩ | ⟨err, -, hcheck⟩ <;> rw [hcheck]
    · exact .signalMutex (Or.inr ⟨hst, es, hwait⟩)
    · exact .signalMutex (.signalMutex (Or.inr ⟨hst, es, hwait⟩))
  | writeWait => exact h.calm (d.calm_signalWriters _)
  | write buffer => exact .tcpWriteRound hst' hwait hspare hkeep buffer
  | readCheck =>
    have hw : Rearmed d.waitMutex := Or.inr ⟨hst, es, hwait⟩
    change Rearmed d.waitMutex.tcpReadCheck.1
    rw [tcpReadCheck_fst]
    exact hw.signalMutex
  | readWait => exact h.calm (d.calm_signalReaders _)
  | read len => exact .tcpReadRound (Or.inr ⟨hst', es, hwait⟩) len
  | recv pkt src => exact .recv hst hes hspare hgo hkeep src
  | expire =>
    rcases hes.expire hkeep with hclosed | hes'
    · exact Or.inl hclosed
    · refine (outputs_expire d).symm.imp id fun hout => ⟨?_, hes'⟩
      change d.expire.tcb.state.Connected
      rw [hout.state]
      exact hst
  | elapse time =>
    exact Or.inr ⟨hst, es, ⟨hes.holds.elapse time, hes.rxt, hes.persist, hes.rxttime, hes.psttime⟩,
      hes.inflight⟩

/-- **Something in flight has an event queued** that sends it again, in every run of a connection
that loses no retransmission event. -/
theorem inflight_covered {d₀ d : Device} {es : List (Nat × EvtType)} {calls : List Call}
    (hst : d₀.tcb.state.Connected) (h₀ : Covered d₀ es) (r : rearmingMachine.Run d₀ calls d)
    (hi : d.tcb.snd.InFlight) (hopen : d.tcb.state ≠ .closed) :
    ∃ es', d.timer.Holds es' ∧ ((d.minor, .rxt) ∈ es' ∨ (d.minor, .persist) ∈ es') := by
  have hstep : ∀ d c, Rearmed d → rearmingMachine.enabled d c →
      Rearmed (rearmingMachine.next d c) := fun d c h he => h.step he
  obtain ⟨-, es', hes'⟩ := (r.invariant hstep (.inr ⟨hst, es, h₀⟩)).resolve_left hopen
  exact ⟨es', hes'.holds, .inl (hes'.inflight hi)⟩

/-- A connection that has just been established. -/
def connected : Device := tcpMachine.after unopened (handshake 1905)

theorem covered_connected : Covered connected [] where
  holds := holds_nil (by decide) (by decide)
  rxt := by simp
  persist := by simp
  rxttime := by decide
  psttime := by decide
  inflight := fun h => absurd h (by decide)

/-- An acknowledgement with the given window. -/
def ackIn (acknum window : Nat) : Call :=
  .recv (emptySegment 5001 acknum window { ack := true }) ⟨1, []⟩

/-- Three octets are sent, one is acknowledged, the others are sent again, and the FIN behind them.
-/
theorem inflight_covered_session :
    ∃ d es, rearmingMachine.Run connected
        [.write [10, 20, 30], ackIn 1906 100, .expire, .close] d ∧
      d.tcb.snd.snduna = 1906 ∧ d.tcb.snd.sndnxt = 1908 ∧ d.timer.Holds es ∧
      ((d.minor, .rxt) ∈ es ∨ (d.minor, .persist) ∈ es) := by
  have r : rearmingMachine.Run connected
      [.write [10, 20, 30], ackIn 1906 100, .expire, .close] _ :=
    Machine.run_after
  obtain ⟨es, hes, hin⟩ := inflight_covered (by decide) covered_connected r
    (by decide) (by decide)
  exact ⟨_, es, r, by decide, by decide, hes, hin⟩

/-- **The last event is lost.** Three octets are in flight when the window is closed and a fourth is
written, for which a persist event is queued. The retransmission event fires and does nothing, since
the connection is in the persist state. Then the window opens again for two octets: the persist
event is purged, and there is no room to send anything. The queue is empty, and nothing is ever sent
again. -/
theorem inflight_forgotten :
    ∃ d, connectionMachine.Run connected [.write [10, 20, 30], ackIn 1905 0, .write [40],
        .expire, ackIn 1905 2] d ∧
      d.tcb.snd.snduna = 1905 ∧ d.tcb.snd.sndnxt = 1908 ∧ d.tcb.state = .estab ∧ d.timer.Holds [] :=
  ⟨_, Machine.run_after, by decide, by decide, by decide, holds_nil (by decide) (by decide)⟩

/-! ## The round trip time -/

/-- The estimate of the round trip time, and the timeout that follows from it. -/
def Send.timing (s : Send) : Int × Int × Int := (s.sndrtt, s.sndrtd, s.rxttime)

/-- The estimate after a round trip of the given time. -/
def Send.sampled (s : Send) (rtt : Int) : Int × Int × Int :=
  let sndrtt := if s.sndrtt = 0 then rtt * 8 else s.sndrtt
  let delta := rtt - sndrtt / 8
  let sndrtd := s.sndrtd + ((delta.natAbs : Int) - s.sndrtd / 4)
  let rxttime := ((sndrtt + delta) / 4 + sndrtd) / 2
  (sndrtt + delta, sndrtd, if rxttime < TCP_RXT_MINTIME then TCP_RXT_MINTIME else rxttime)

/-- The estimate behind `tcpRecvRtt`, for the control block that it starts with. -/
def Device.measured (d : Device) : Int × Int × Int :=
  if (d.tcpTimerPurge (some .rxt)).2 = SYSERR then d.tcb.snd.timing
  else d.tcb.snd.sampled (d.tcpTimerPurge (some .rxt)).2

theorem Device.timing_tcpRecvRtt (h0 : d.tcb.snd.rxtcount = 0) :
    d.tcpRecvRtt.tcb.snd.timing = d.measured := by
  have h0' : (d.tcpTimerPurge (some .rxt)).1.tcb.snd.rxtcount = 0 := h0
  unfold tcpRecvRtt measured
  dsimp only
  by_cases hrtt : (d.tcpTimerPurge (some .rxt)).2 = SYSERR
  · rw [if_neg fun h => h.1 hrtt, if_pos hrtt]
    rfl
  · rw [if_pos ⟨hrtt, h0'⟩, if_neg hrtt]
    rfl

/-- **The estimate stays as it is** only if the round trip took just as long, the deviation is too
small to shrink, and the timeout is the one that follows from the two. -/
theorem Send.sampled_eq_iff (s : Send) (rtt : Int) : s.sampled rtt = s.timing ↔
    rtt = s.sndrtt / 8 ∧ (0 ≤ s.sndrtd ∧ s.sndrtd < 4) ∧
      s.rxttime = max TCP_RXT_MINTIME ((s.sndrtt / 4 + s.sndrtd) / 2) := by
  simp only [sampled, timing, Prod.mk.injEq]
  split_ifs <;> omega

/-- A segment carries the octet with a sequence number. -/
def Segment.Has (seg : Segment) (p : Nat) : Prop := sub32 p seg.seqnum < seg.data.length
deriving Decidable

/-- An octet that is in flight and that the acknowledgement covers has been sent twice. -/
def Device.Resent (d : Device) (acknum : Nat) : Prop :=
  ∃ p, seqlte d.tcb.snd.snduna p ∧ seqlt p acknum ∧ 2 ≤ d.hist.sent.countP (·.Has p)

/-- The acknowledgement of something in flight. -/
def Send.Acks (s : Send) (acknum : Nat) : Prop := seqlt s.snduna acknum ∧ seqlte acknum s.sndnxt
deriving Decidable

section

variable {q : List Nat}
  (hq : SinglyLinked.Chained (fun i => (d.timer.tcptimertab i).next) TCP_EVT_HEAD q)
  (hn : q.length < TCP_NEVENTS)
  (hle : ∀ i ∈ q, d.timer.remains i ≤ (d.timer.tcptimertab i).time)
include hq hn hle

/-- Every acknowledgement of something in flight measures a round trip if a retransmission event is
queued: `rxtcount` is cleared before it is tested. -/
theorem Device.timing_tcpRecvAck {pkt : TcpPkt} (hack : d.tcb.snd.Acks pkt.acknum) :
    (d.tcpRecvAck pkt).tcb.snd.timing = d.tcb.snd.timing ↔
      ∀ i, q.find? (fun i => Matches d.minor (some .rxt) (d.timer.tcptimertab i)) = some i →
        d.tcb.snd.sampled ((d.timer.tcptimertab i).time - d.timer.remains i) =
          d.tcb.snd.timing := by
  have hlater : ∀ e : Device, e.tcb.snd.timing = d.measured →
      ((if seqlt e.tcb.snd.snduna e.tcb.snd.sndnxt then (e.tcpTimerSched e.tcb.snd.rxttime .rxt).1
        else e).modFlg fun f => { f with snddata := true }).tcb.snd.timing = d.measured := by
    intro e he
    split_ifs <;> exact he
  have hacked : (d.acknowledge pkt.acknum).tcb.snd.timing = d.measured := by
    refine hlater _ ((timing_tcpRecvRtt rfl).trans ?_)
    split_ifs <;> exact (rfl : measured { d with tcb := _, hist := _ } = _)
  have htiming : (d.tcpRecvAck pkt).tcb.snd.timing = d.measured := by
    have hwindow (e : Device) : (e.updateWindow pkt).tcb.snd.timing = e.tcb.snd.timing := by
      unfold updateWindow
      dsimp only
      split_ifs <;> rfl
    unfold tcpRecvAck
    rw [if_pos (show _ ∧ _ from hack), ← hacked, ← hwindow (d.acknowledge _)]
    dsimp only
    split_ifs <;> rfl
  have hwaited : (d.tcpTimerPurge (some .rxt)).2 = _ := purgeLoop_first hq hn hle
  rw [htiming, measured, hwaited]
  cases hi : q.find? fun i => Matches d.minor (some .rxt) (d.timer.tcptimertab i) with
  | none => simp
  | some i => simp [waited_ne (hle i (mem_of_find?_eq_some hi))]

/-- **When what has been sent twice is not measured.** At a point of a run, with whatever has been
sent up to it, no acknowledgement of octets that have been sent twice changes the estimate of the
round trip time exactly if there are no such octets in flight, no retransmission event is queued,
or the time for which the first one has been queued is the round trip time that the estimate
already has. -/
theorem karn_iff :
    (∀ pkt : TcpPkt, d.tcb.snd.Acks pkt.acknum → d.Resent pkt.acknum →
      (d.tcpRecvAck pkt).tcb.snd.timing = d.tcb.snd.timing) ↔
    ((∃ acknum, d.tcb.snd.Acks acknum ∧ d.Resent acknum) →
      ∀ i, q.find? (fun i => Matches d.minor (some .rxt) (d.timer.tcptimertab i)) = some i →
        (d.timer.tcptimertab i).time - d.timer.remains i = d.tcb.snd.sndrtt / 8 ∧
        (0 ≤ d.tcb.snd.sndrtd ∧ d.tcb.snd.sndrtd < 4) ∧
        d.tcb.snd.rxttime =
          max TCP_RXT_MINTIME ((d.tcb.snd.sndrtt / 4 + d.tcb.snd.sndrtd) / 2)) := by
  simp only [← Send.sampled_eq_iff]
  constructor
  · rintro h ⟨acknum, hack, hresent⟩
    exact (timing_tcpRecvAck hq hn hle hack).mp
      (h (emptySegment 0 acknum 0 { ack := true }) hack hresent)
  · intro h pkt hack hresent
    exact (timing_tcpRecvAck hq hn hle hack).mpr (h ⟨_, hack, hresent⟩)

end

/-- A round trip of 40 ms is measured; then an octet is sent twice, and 40 ms after that it is
acknowledged. -/
def steady : List Call :=
  [.write [10, 20, 30], .elapse 40, ackIn 1908 1000, .write [40], .expire, .elapse 40]

theorem karn_iff_steady :
    ∃ d, connectionMachine.Run connected steady d ∧ d.tcb.snd.sndrtt = 320 ∧ d.Resent 1909 ∧
      (d.tcpRecvAck (emptySegment 5001 1909 1000 { ack := true })).tcb.snd.timing =
        d.tcb.snd.timing := by
  have hresent : (connectionMachine.after connected steady).Resent 1909 := ⟨1908, by decide⟩
  refine ⟨_, Machine.run_after, by decide, hresent, ?_⟩
  refine (karn_iff (q := [8]) ⟨by decide, show _ = none by decide⟩ (by decide) (by decide)).mpr
    (fun _ i hi => ?_) _ (by decide) hresent
  obtain rfl : i = 8 := by simpa using mem_of_find?_eq_some hi
  decide

/-- **What has been sent again is measured**: three octets are acknowledged that have been sent
twice, and the estimate changes. -/
theorem karn_broken :
    ∃ d, connectionMachine.Run connected [.write [10, 20, 30], .expire, .elapse 50] d ∧
      (d.hist.sent.map fun seg => (seg.seqnum, seg.data)).drop 1 =
        [(1905, [10, 20, 30]), (1905, [10, 20, 30])] ∧
      (d.tcpRecvAck (emptySegment 5001 1908 1000 { ack := true })).tcb.snd.timing ≠
        d.tcb.snd.timing :=
  ⟨_, Machine.run_after, by decide, by decide⟩

end Xinu.Tcp
