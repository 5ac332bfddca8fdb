import Xinu.Tcp.Frame

/-!
# What is not about sending

Much of the code only receives, sends a segment that is given, or tells somebody about something. It
leaves the timer, the state of the connection, the mutex and the send variables alone, but for the
flags that say what is to be sent and the semaphore of the writers. The code that sends something
new moves the number of the next octet and schedules an event. Nothing that is done for a segment
touches the mutex, and nothing but an acknowledgement the variables of the congestion control.

## Main results

* `Device.calm_tcpSend`, `Device.calm_tcpSendAck`, `Device.calm_recvText`: the code that is calm
* `Device.transmit_cases`, `Device.tcpSendSyn_cases`: what the code that is not calm does to the
  timer and the send variables
* `Device.held_tcpRecvData`, `Device.held_tcpRecvListen`, `Device.held_tcpRecvSynsent`
-/

namespace Xinu.Tcp

variable {d d' d'' : Device}

/-- From `d` to `d'` the timer, the state, the mutex and the send variables stay as they are, but
for the flags that say what is to be sent and the semaphore of the writers. -/
structure Calm (d d' : Device) : Prop where
  minor : d'.minor = d.minor
  timer : d'.timer = d.timer
  state : d'.tcb.state = d.tcb.state
  mutex : d'.tcb.mutex = d.tcb.mutex
  snd : d'.tcb.snd =
    { d.tcb.snd with sndflg := d'.tcb.snd.sndflg, writers := d'.tcb.snd.writers }
  syn : d'.tcb.snd.sndflg.syn = d.tcb.snd.sndflg.syn
  fin : d'.tcb.snd.sndflg.fin = d.tcb.snd.sndflg.fin
  persist : d'.tcb.snd.sndflg.persist = d.tcb.snd.sndflg.persist

namespace Calm

theorem of_eq (hminor : d'.minor = d.minor) (htimer : d'.timer = d.timer)
    (hstate : d'.tcb.state = d.tcb.state) (hmutex : d'.tcb.mutex = d.tcb.mutex)
    (hsnd : d'.tcb.snd = d.tcb.snd) : Calm d d' := by
  refine ⟨hminor, htimer, hstate, hmutex, ?_, ?_, ?_, ?_⟩ <;> rw [hsnd]

theorem refl (d : Device) : Calm d d := of_eq rfl rfl rfl rfl rfl

theorem trans (h : Calm d d') (h' : Calm d' d'') : Calm d d'' := by
  refine ⟨h'.minor.trans h.minor, h'.timer.trans h.timer, h'.state.trans h.state,
    h'.mutex.trans h.mutex, ?_, h'.syn.trans h.syn, h'.fin.trans h.fin, h'.persist.trans h.persist⟩
  conv_lhs => rw [h'.snd, h.snd]

theorem ite {c : Prop} {_ : Decidable c} (h : Calm d d') (h' : Calm d d'') :
    Calm d (if c then d' else d'') := by
  split_ifs
  · exact h
  · exact h'

end Calm

namespace Device

variable (d : Device)

theorem calm_modRcv (f : Recv → Recv) : Calm d (d.modRcv f) := .of_eq rfl rfl rfl rfl rfl

theorem calm_modFlg (f : Flags → Flags) (hsyn : (f d.tcb.snd.sndflg).syn = d.tcb.snd.sndflg.syn)
    (hfin : (f d.tcb.snd.sndflg).fin = d.tcb.snd.sndflg.fin)
    (hpersist : (f d.tcb.snd.sndflg).persist = d.tcb.snd.sndflg.persist) : Calm d (d.modFlg f) :=
  ⟨rfl, rfl, rfl, rfl, rfl, hsyn, hfin, hpersist⟩

theorem calm_sndack (b : Bool) : Calm d (d.modFlg fun f => { f with sndack := b }) :=
  d.calm_modFlg _ rfl rfl rfl

theorem calm_snddata (b : Bool) : Calm d (d.modFlg fun f => { f with snddata := b }) :=
  d.calm_modFlg _ rfl rfl rfl

theorem calm_sndrst (b : Bool) : Calm d (d.modFlg fun f => { f with sndrst := b }) :=
  d.calm_modFlg _ rfl rfl rfl

theorem calm_signalOpenclose : Calm d d.signalOpenclose := .of_eq rfl rfl rfl rfl rfl

theorem calm_waitOpenclose : Calm d d.waitOpenclose := .of_eq rfl rfl rfl rfl rfl

theorem calm_signalReaders (n : Int) : Calm d (d.signalReaders n) := calm_modRcv ..

theorem calm_signalWriters (n : Int) : Calm d (d.signalWriters n) :=
  ⟨rfl, rfl, rfl, rfl, rfl, rfl, rfl, rfl⟩

theorem calm_noteAcked (x : Acked) : Calm d (d.noteAcked x) := .of_eq rfl rfl rfl rfl rfl

theorem calm_noteTosend (x : Tosend) : Calm d (d.noteTosend x) := .of_eq rfl rfl rfl rfl rfl

theorem calm_tcpSend (ctrl : Control) (seqnum acknum datastart datalen : Nat) :
    Calm d (d.tcpSend ctrl seqnum acknum datastart datalen).1 := by
  rcases d.tcpSend_cases ctrl seqnum acknum datastart datalen with h | h | h
  · rw [h]
    exact .refl d
  · rw [h]
    exact .of_eq rfl rfl rfl rfl rfl
  · rw [h]
    exact .of_eq rfl rfl rfl rfl rfl

theorem calm_tcpSendAck : Calm d d.tcpSendAck.1 :=
  (d.calm_sndack false).trans (calm_tcpSend ..)

theorem calm_advance (n : Nat) : Calm d (d.advance n).1 := by
  refine Calm.trans ?_ (calm_sndack ..)
  refine .ite (Calm.trans ?_ (calm_signalReaders ..)) ?_
  · exact (calm_modRcv ..).trans (calm_modRcv ..)
  · exact (calm_modRcv ..).trans (calm_modRcv ..)

theorem calm_recvText (pkt : TcpPkt) : Calm d (d.recvText pkt).1 := by
  unfold recvText
  dsimp only
  split_ifs
  · exact (calm_modRcv ..).trans (calm_advance ..)
  · exact calm_modRcv ..
  · exact .refl d

theorem calm_releaseReaders : Calm d d.releaseReaders :=
  .ite (calm_signalReaders ..) (.refl d)

theorem calm_releaseWriters : Calm d d.releaseWriters :=
  .ite (calm_signalWriters ..) (.refl d)

theorem calm_storeFin (seqnum seglen : Nat) :
    Calm d (if d.tcb.rcv.rcvflg.fin = true then d else d.modRcv fun r =>
        { r with rcvfin := seqadd seqnum seglen, rcvflg := { r.rcvflg with fin := true } }) :=
  .ite (.refl d) (calm_modRcv ..)

theorem calm_tcpReadRound (len : Nat) : ∃ e, Calm d e ∧ (d.tcpReadRound len).1 = e.signalMutex := by
  unfold tcpReadRound
  rcases d.readStateCheck_cases with hcheck | ⟨err, herr, hcheck⟩ <;> rw [hcheck] <;> dsimp only
  · rw [if_neg (by decide)]
    refine ⟨_, ?_, rfl⟩
    have hread : Calm d { (d.modRcv fun _ => (d.tcb.rcv.readLoop len).1) with
        hist := { d.hist with delivered := d.hist.delivered ++ (d.tcb.rcv.readLoop len).2 } } :=
      .of_eq rfl rfl rfl rfl rfl
    exact .ite (hread.trans (calm_signalReaders ..)) hread
  · rw [if_pos herr]
    exact ⟨d, .refl d, rfl⟩

end Device

/-! ## The next octet -/

/-- From `d` to `d'` nothing of this has changed but the number of the next octet. -/
structure Moves (d d' : Device) : Prop where
  minor : d'.minor = d.minor
  timer : d'.timer = d.timer
  mutex : d'.tcb.mutex = d.tcb.mutex
  snd : d'.tcb.snd = { d.tcb.snd with sndnxt := d'.tcb.snd.sndnxt }

theorem Moves.trans (h : Moves d d') (h' : Moves d' d'') : Moves d d'' := by
  refine ⟨h'.minor.trans h.minor, h'.timer.trans h.timer, h'.mutex.trans h.mutex, ?_⟩
  conv_lhs => rw [h'.snd, h.snd]

namespace Device

variable (d : Device)

theorem moves_tcpSend (ctrl : Control) (seqnum acknum datastart datalen : Nat) :
    Moves d (d.tcpSend ctrl seqnum acknum datastart datalen).1 := by
  have h := d.calm_tcpSend ctrl seqnum acknum datastart datalen
  refine ⟨h.minor, h.timer, h.mutex, ?_⟩
  rw [snd_tcpSend]

theorem moves_sendLoop (n wndused tosend sent : Nat) (d : Device) :
    Moves d (sendLoop n wndused tosend sent d).1 := by
  induction n generalizing wndused tosend sent d with
  | zero => exact ⟨rfl, rfl, rfl, rfl⟩
  | succ n ih =>
    rw [sendLoop]
    split_ifs
    · refine Moves.trans ?_ (ih _ _ _ _)
      exact (d.moves_tcpSend ..).trans ⟨rfl, rfl, rfl, rfl⟩
    · exact ⟨rfl, rfl, rfl, rfl⟩

/-- **Sending data** moves the number of the next octet, and schedules a retransmission if there is
none. -/
theorem transmit_cases (ctrl : Control) (wndused tosend : Nat) :
    ∃ e, Moves d e ∧
      Calm (if e.tcpTimerRemain .rxt ≤ 0 then (e.tcpTimerSched e.tcb.snd.rxttime .rxt).1 else e)
        (d.transmit ctrl wndused tosend).1 := by
  have hloop := moves_sendLoop tosend wndused tosend 0 d
  unfold transmit
  generalize sendLoop tosend wndused tosend 0 d = r at hloop ⊢
  refine ⟨_, ?_, Calm.trans (.ite (calm_sndack ..) (.refl _)) (calm_snddata ..)⟩
  exact hloop.trans ((r.1.moves_tcpSend ..).trans ⟨rfl, rfl, rfl, rfl⟩)

/-- The SYN takes a number. -/
def numberSyn : Device :=
  d.modSnd fun s => { s with sndnxt := add32 s.sndnxt 1, sndflg := { s.sndflg with syn := true } }

/-- **Sending a SYN** fails, or the SYN takes a number and a retransmission is scheduled. -/
theorem tcpSendSyn_cases :
    ∃ e, Calm d e ∧ (d.tcpSendSyn = (e, SYSERR) ∨
      d.tcpSendSyn = ((e.numberSyn.tcpTimerSched e.tcb.snd.rxttime .rxt).1,
        if (e.numberSyn.tcpTimerSched e.tcb.snd.rxttime .rxt).2 = SYSERR then SYSERR else OK)) := by
  unfold tcpSendSyn
  dsimp only
  generalize he : (if d.tcb.snd.sndflg.sndack = true then d.modFlg fun f =>
      { f with sndack := false }
    else d) = e
  have hack : Calm d e := he ▸ .ite (calm_sndack ..) (.refl d)
  refine ⟨_, hack.trans (e.calm_tcpSend { syn := true, ack := d.tcb.snd.sndflg.sndack }
    e.tcb.snd.sndnxt e.tcb.rcv.rcvnxt 0 1), ?_⟩
  split
  · exact .inl rfl
  · exact .inr rfl

end Device

/-! ## What stays while a segment is processed -/

/-- The variables of the congestion control. -/
structure Congestion where
  sndmss : Nat
  sndcwn : Nat
  sndsst : Nat

/-- The variables of the congestion control. -/
def Device.congestion (d : Device) : Congestion :=
  ⟨d.tcb.snd.sndmss, d.tcb.snd.sndcwn, d.tcb.snd.sndsst⟩

/-- The mutex and the variables of the congestion control are the same. -/
structure Held (d d' : Device) : Prop where
  minor : d'.minor = d.minor
  mutex : d'.tcb.mutex = d.tcb.mutex
  congestion : d'.congestion = d.congestion

namespace Held

theorem refl (d : Device) : Held d d := ⟨rfl, rfl, rfl⟩

theorem trans (h : Held d d') (h' : Held d' d'') : Held d d'' :=
  ⟨h'.minor.trans h.minor, h'.mutex.trans h.mutex, h'.congestion.trans h.congestion⟩

theorem ite {c : Prop} {_ : Decidable c} (h : Held d d') (h' : Held d d'') :
    Held d (if c then d' else d'') := by
  split_ifs
  · exact h
  · exact h'

end Held

theorem Calm.held (h : Calm d d') : Held d d' := by
  refine ⟨h.minor, h.mutex, ?_⟩
  unfold Device.congestion
  rw [h.snd]

theorem Moves.held (h : Moves d d') : Held d d' := by
  refine ⟨h.minor, h.mutex, ?_⟩
  unfold Device.congestion
  rw [h.snd]

namespace Device

variable (d : Device)

theorem held_setState (st : TcpState) : Held d (d.setState st) := ⟨rfl, rfl, rfl⟩

theorem held_tcpTimerSched (time : Int) (type : EvtType) :
    Held d (d.tcpTimerSched time type).1 := ⟨rfl, rfl, rfl⟩

theorem held_transmit (ctrl : Control) (wndused tosend : Nat) :
    Held d (d.transmit ctrl wndused tosend).1 := by
  obtain ⟨e, he, hcalm⟩ := d.transmit_cases ctrl wndused tosend
  exact he.held.trans (Held.trans (.ite (held_tcpTimerSched ..) (.refl e)) hcalm.held)

theorem held_tcpSendData : Held d d.tcpSendData.1 := by
  unfold tcpSendData
  dsimp only
  split_ifs
  · exact .refl d
  · exact .refl d
  · exact .refl d
  · exact ⟨rfl, rfl, rfl⟩
  · exact .refl d
  · exact held_tcpTimerSched ..
  · exact .refl d
  · exact (calm_noteTosend ..).held.trans (held_transmit ..)

theorem held_respond : Held d d.respond :=
  Held.trans (.ite d.held_tcpSendData (.refl d)) (.ite (calm_tcpSendAck _).held (.refl _))

theorem held_tcpSendSyn : Held d d.tcpSendSyn.1 := by
  obtain ⟨e, he, h | h⟩ := d.tcpSendSyn_cases <;> rw [h]
  · exact he.held
  · exact he.held.trans ⟨rfl, rfl, rfl⟩

theorem held_tcpOpenActive : Held d d.tcpOpenActive.1 := by
  unfold tcpOpenActive
  dsimp only
  split_ifs
  · exact .refl d
  · exact d.held_tcpSendSyn
  · exact d.held_tcpSendSyn.trans ⟨rfl, rfl, rfl⟩

theorem held_processFin : Held d d.processFin := by
  obtain ⟨k, hk⟩ := d.released_readers
  unfold processFin
  rw [hk]
  dsimp only
  refine (d.calm_signalReaders k).held.trans ?_
  cases (d.signalReaders k).tcb.state with
  | finwt1 =>
    split_ifs <;> exact ⟨rfl, rfl, rfl⟩
  | _ => exact ⟨rfl, rfl, rfl⟩

section

variable (pkt : TcpPkt)

theorem held_tcpRecvData : Held d (d.tcpRecvData pkt).1 := by
  refine Held.trans ?_ (held_respond _)
  refine (calm_recvText d pkt).held.trans (.ite ?_ (.refl _))
  exact (calm_storeFin ..).held.trans (.ite (held_processFin _) (.refl _))

theorem held_tcpRecvListen (src : NetAddr) : Held d (d.tcpRecvListen pkt src).1 := by
  unfold tcpRecvListen
  split
  · exact .refl d
  split
  · exact (d.calm_sndrst true).held
  split
  · refine Held.trans ?_ (held_tcpRecvData _ pkt)
    refine Held.trans ?_ (held_setState _ .synrecv)
    refine Held.trans ?_ (.ite (calm_tcpSendAck _).held (.refl _))
    refine Held.trans ?_ (held_tcpSendSyn _)
    exact ⟨rfl, rfl, rfl⟩
  · exact .refl d

theorem held_synchronize (ackAccept : Bool) : Held d (d.synchronize pkt ackAccept).1 := by
  -- the connection is open, or the SYN is sent again
  have hrest : ∀ e : Device, Held d e → Held d (if seqlt e.tcb.snd.iss e.tcb.snd.snduna then
      ((e.setState .estab).signalOpenclose.modFlg fun f =>
        { f with snddata := true }).tcpRecvData pkt
      else ((e.setState .synrecv).tcpSend { syn := true, ack := true } e.tcb.snd.iss
        e.tcb.rcv.rcvnxt 0 1).1.tcpRecvData pkt).1 := by
    intro e he
    split_ifs
    · refine Held.trans (he.trans ?_) (held_tcpRecvData _ pkt)
      exact ⟨rfl, rfl, rfl⟩
    · refine Held.trans ?_ (held_tcpRecvData _ pkt)
      exact he.trans ((e.held_setState .synrecv).trans (calm_tcpSend ..).held)
  refine hrest _ ?_
  exact .ite ⟨rfl, rfl, rfl⟩ ⟨rfl, rfl, rfl⟩

theorem held_tcpRecvSynsent : Held d (d.tcpRecvSynsent pkt).1 := by
  unfold tcpRecvSynsent
  dsimp only
  split_ifs
  all_goals first | exact held_synchronize .. | exact ⟨rfl, rfl, rfl⟩

theorem held_updateWindow : Held d (d.updateWindow pkt) := by
  unfold updateWindow
  dsimp only
  split_ifs <;> exact ⟨rfl, rfl, rfl⟩

end

end Device

end Xinu.Tcp
