import Mathlib.Logic.Relation
import Xinu.Tcp.Calls

/-!
# What the parts of the code leave alone

Sending segments touches the receive variables only through `tcpSendWindow`, which may move the end
of the window, and leaves the state of the connection alone. The send variables change only where a
function says so.

## Main results

* `outputs_tcpSend`, `outputs_tcpSendAck`, `outputs_transmit`, `outputs_tcpSendData`
-/

namespace Xinu.Tcp

variable {P : Segment → Prop} {d d' d'' : Device}

/-- The device when `tcpRecv` holds the mutex and has processed the options of a segment. -/
abbrev Device.readOpts (d : Device) (pkt : TcpPkt) : Device :=
  d.waitMutex.modSnd fun s => s.tcpRecvOpts pkt

/-! ## Windows -/

/-- The receive variables after some calls of `tcpSendWindow`. -/
def Windows (st : TcpState) : Recv → Recv → Prop :=
  Relation.ReflTransGen fun r r' => r' = (r.tcpSendWindow st).1

/-- What `tcpSendWindow` keeps, any number of its calls keeps. -/
theorem Windows.keeps {st : TcpState} {P : Recv → Prop} {r r' : Recv} (h : Windows st r r')
    (hstep : ∀ r, P r → P (r.tcpSendWindow st).1) (hr : P r) : P r' := by
  induction h with
  | refl => exact hr
  | tail _ hb ih => rw [hb]; exact hstep _ ih

theorem Recv.tcpSendWindow_eq (r : Recv) (st : TcpState) :
    (r.tcpSendWindow st).1 = { r with rcvwnd := (r.tcpSendWindow st).1.rcvwnd } := by
  unfold Recv.tcpSendWindow
  cases st <;> dsimp only <;> split_ifs <;> rfl

/-! ## Sending -/

/-- What a function that sends leaves behind: the state of the connection and the streams are the
same, the receive variables have a new end of the window at most, and the segments it has sent have
the property `P`. -/
structure Outputs (P : Segment → Prop) (d d' : Device) : Prop where
  state : d'.tcb.state = d.tcb.state
  rcv : Windows d.tcb.state d.tcb.rcv d'.tcb.rcv
  written : d'.hist.written = d.hist.written
  delivered : d'.hist.delivered = d.hist.delivered
  sent : ∃ new, d'.hist.sent = d.hist.sent ++ new ∧ ∀ seg ∈ new, P seg

namespace Outputs

variable {Q : Segment → Prop}

theorem refl (P : Segment → Prop) (d : Device) : Outputs P d d :=
  ⟨rfl, .refl, rfl, rfl, [], by simp, by simp⟩

section

variable (h : Outputs P d d')
include h

theorem trans (h' : Outputs P d' d'') : Outputs P d d'' := by
  obtain ⟨new, hnew, hP⟩ := h.sent
  obtain ⟨new', hnew', hP'⟩ := h'.sent
  refine ⟨h'.state.trans h.state, h.rcv.trans (h.state ▸ h'.rcv), h'.written.trans h.written,
    h'.delivered.trans h.delivered, new ++ new', ?_, ?_⟩
  · rw [hnew', hnew, List.append_assoc]
  · intro seg hseg
    rcases List.mem_append.mp hseg with hseg | hseg
    · exact hP seg hseg
    · exact hP' seg hseg

theorem mono (hPQ : ∀ seg, P seg → Q seg) : Outputs Q d d' := by
  obtain ⟨new, hnew, hP⟩ := h.sent
  exact ⟨h.state, h.rcv, h.written, h.delivered, new, hnew, fun seg hseg => hPQ _ (hP seg hseg)⟩

theorem any : Outputs (fun _ => True) d d' := h.mono fun _ _ => trivial

theorem ite {c : Prop} {_ : Decidable c} (h' : Outputs P d d'') :
    Outputs P d (if c then d' else d'') := by
  split_ifs
  · exact h
  · exact h'

end

end Outputs

/-- What a function that sends nothing leaves behind: of the connection only the send variables, the
semaphores and the timers are different. -/
structure Quiet (d d' : Device) : Prop where
  state : d'.tcb.state = d.tcb.state
  rcv : d'.tcb.rcv = d.tcb.rcv
  written : d'.hist.written = d.hist.written
  delivered : d'.hist.delivered = d.hist.delivered
  sent : d'.hist.sent = d.hist.sent
  tosends : d'.hist.tosends = d.hist.tosends

namespace Quiet

theorem refl (d : Device) : Quiet d d := ⟨rfl, rfl, rfl, rfl, rfl, rfl⟩

theorem trans (h : Quiet d d') (h' : Quiet d' d'') : Quiet d d'' :=
  ⟨h'.state.trans h.state, h'.rcv.trans h.rcv, h'.written.trans h.written,
    h'.delivered.trans h.delivered, h'.sent.trans h.sent, h'.tosends.trans h.tosends⟩

theorem ite {c : Prop} {_ : Decidable c} (h : Quiet d d') (h' : Quiet d d'') :
    Quiet d (if c then d' else d'') := by
  split_ifs
  · exact h
  · exact h'

theorem outputs (h : Quiet d d') (P : Segment → Prop) : Outputs P d d' := by
  refine ⟨h.state, ?_, h.written, h.delivered, [], by rw [h.sent, List.append_nil], by simp⟩
  rw [h.rcv]
  exact .refl

end Quiet

namespace Device

/-! ## Writes into the control block -/

/-- What is written to the send variables depends on their values at the time. -/
theorem modSnd_congr {f g : Send → Send} (h : f d.tcb.snd = g d.tcb.snd) :
    d.modSnd f = d.modSnd g := by
  unfold modSnd
  rw [h]

section

variable (d : Device)

theorem quiet_modSnd (f : Send → Send) : Quiet d (d.modSnd f) :=
  ⟨rfl, rfl, rfl, rfl, rfl, rfl⟩

theorem quiet_modFlg (f : Flags → Flags) : Quiet d (d.modFlg f) := quiet_modSnd ..

theorem quiet_signalMutex : Quiet d d.signalMutex := ⟨rfl, rfl, rfl, rfl, rfl, rfl⟩

theorem quiet_waitMutex : Quiet d d.waitMutex := ⟨rfl, rfl, rfl, rfl, rfl, rfl⟩

theorem quiet_waitOpenclose : Quiet d d.waitOpenclose :=
  ⟨rfl, rfl, rfl, rfl, rfl, rfl⟩

theorem quiet_tcpTimerSched (time : Int) (type : EvtType) :
    Quiet d (d.tcpTimerSched time type).1 := ⟨rfl, rfl, rfl, rfl, rfl, rfl⟩

theorem quiet_tcpTimerPurge (type : Option EvtType) :
    Quiet d (d.tcpTimerPurge type).1 := ⟨rfl, rfl, rfl, rfl, rfl, rfl⟩

theorem quiet_noteAcked (x : Acked) : Quiet d (d.noteAcked x) :=
  ⟨rfl, rfl, rfl, rfl, rfl, rfl⟩

theorem outputs_modSnd (f : Send → Send) : Outputs P d (d.modSnd f) :=
  (quiet_modSnd ..).outputs P

theorem outputs_modFlg (f : Flags → Flags) : Outputs P d (d.modFlg f) :=
  (quiet_modFlg ..).outputs P

theorem outputs_signalMutex : Outputs P d d.signalMutex :=
  (quiet_signalMutex d).outputs P

theorem outputs_tcpTimerSched (time : Int) (type : EvtType) :
    Outputs P d (d.tcpTimerSched time type).1 := (quiet_tcpTimerSched ..).outputs P

end

/-! ## Segments -/

/-- The data of a segment that `tcpSend` sends. -/
def octets (d : Device) (ctrl : Control) (datastart datalen : Nat) : List UInt8 :=
  (List.range (dataLength ctrl datalen)).map fun i => d.tcb.snd.outbuf ((datastart + i) % TCP_OBLEN)

section

variable (d : Device) (ctrl : Control) (seqnum acknum datastart datalen : Nat)

/-- `tcpSend` drops the segment, because it is too long or there is no buffer for it, or emits it.
-/
theorem tcpSend_cases : (d.tcpSend ctrl seqnum acknum datastart datalen).1 = d ∨
      (d.tcpSend ctrl seqnum acknum datastart datalen).1 = { d with net := d.net.tail } ∨
      (d.tcpSend ctrl seqnum acknum datastart datalen).1 =
        { d with net := d.net.tail }.emit ctrl seqnum acknum datastart
          (dataLength ctrl datalen) := by
  unfold tcpSend
  by_cases h : NET_MAX_PKTLEN <
      (TCP_HDR_LEN + dataLength ctrl datalen + if ctrl.syn = true then 8 else 0) % 2 ^ 16
  · rw [if_pos h]
    exact .inl rfl
  · rw [if_neg h]
    cases d.sending with
    | nobuf => exact .inr (.inl rfl)
    | sent result => exact .inr (.inr rfl)

/-- **What `tcpSend` does**: at most one segment, with the number, the control bits and the octets
it is given. -/
theorem outputs_tcpSend : Outputs (fun seg => seg.seqnum = seqnum ∧ seg.control = ctrl ∧
        seg.data = d.octets ctrl datastart datalen)
      d (d.tcpSend ctrl seqnum acknum datastart datalen).1 := by
  rcases d.tcpSend_cases ctrl seqnum acknum datastart datalen with h | h | h
  · rw [h]
    exact .refl _ d
  · rw [h]
    exact ⟨rfl, .refl, rfl, rfl, [], by simp, by simp⟩
  · rw [h]
    refine ⟨rfl, .single rfl, rfl, rfl, [_], rfl, fun seg hseg => ?_⟩
    rw [List.mem_singleton.mp hseg]
    exact ⟨rfl, rfl, rfl⟩

@[simp] theorem snd_tcpSend :
    (d.tcpSend ctrl seqnum acknum datastart datalen).1.tcb.snd = d.tcb.snd := by
  rcases d.tcpSend_cases ctrl seqnum acknum datastart datalen with h | h | h <;> rw [h]
  rfl

@[simp] theorem tosends_tcpSend :
    (d.tcpSend ctrl seqnum acknum datastart datalen).1.hist.tosends = d.hist.tosends := by
  rcases d.tcpSend_cases ctrl seqnum acknum datastart datalen with h | h | h <;> rw [h]
  rfl

@[simp] theorem acks_tcpSend :
    (d.tcpSend ctrl seqnum acknum datastart datalen).1.hist.acks = d.hist.acks := by
  rcases d.tcpSend_cases ctrl seqnum acknum datastart datalen with h | h | h <;> rw [h]
  rfl

end

/-- An ACK carries no data. -/
theorem outputs_tcpSendAck (d : Device) :
    Outputs (fun seg => seg.control = { ack := true } ∧ seg.data = []) d d.tcpSendAck.1 := by
  refine (outputs_modFlg d _).trans ((outputs_tcpSend ..).mono fun seg h => ?_)
  exact ⟨h.2.1, h.2.2⟩

/-! ## Data -/

theorem outputs_sendLoop (n wndused tosend sent : Nat) (d : Device) :
    Outputs (fun _ => True) d (sendLoop n wndused tosend sent d).1 := by
  induction n generalizing wndused tosend sent d with
  | zero => exact .refl _ d
  | succ n ih =>
    rw [sendLoop]
    split_ifs
    · refine .trans ?_ (ih _ _ _ _)
      exact (outputs_tcpSend ..).any.trans (outputs_modSnd ..)
    · exact .refl _ d

theorem outputs_transmit (d : Device) (ctrl : Control) (wndused tosend : Nat) :
    Outputs (fun _ => True) d (d.transmit ctrl wndused tosend).1 := by
  unfold transmit
  dsimp only
  refine .trans ?_ (outputs_modFlg ..)
  have h₁ := outputs_sendLoop tosend wndused tosend 0 d
  refine h₁.trans (.trans ?_ (.ite (outputs_modFlg ..) (.refl _ _)))
  refine .trans ?_ (.ite (outputs_tcpTimerSched ..) (.refl _ _))
  exact (outputs_tcpSend ..).any.trans (outputs_modSnd ..)

theorem outputs_noteTosend (d : Device) (x : Tosend) : Outputs P d (d.noteTosend x) :=
  ⟨rfl, .refl, rfl, rfl, [], by simp [noteTosend], by simp⟩

theorem outputs_tcpSendData (d : Device) : Outputs (fun _ => True) d d.tcpSendData.1 := by
  unfold tcpSendData
  dsimp only
  split_ifs
  · exact .refl _ d
  · exact .refl _ d
  · exact .refl _ d
  · exact (outputs_modSnd ..).trans (outputs_tcpTimerSched ..)
  · exact .refl _ d
  · exact outputs_tcpTimerSched ..
  · exact .refl _ d
  · exact (outputs_noteTosend ..).trans (outputs_transmit ..)

theorem outputs_respond (d : Device) : Outputs (fun _ => True) d d.respond := by
  refine .trans (.ite (outputs_tcpSendData d) (.refl _ d)) (.ite ?_ (.refl _ _))
  exact (outputs_tcpSendAck _).any

/-! ## Acknowledgements -/

theorem quiet_tcpRecvRtt (d : Device) : Quiet d d.tcpRecvRtt := by
  unfold tcpRecvRtt
  refine Quiet.trans ?_ (quiet_modSnd ..)
  refine Quiet.trans ?_ (.ite (quiet_modSnd ..) (.refl _))
  exact quiet_tcpTimerPurge ..

theorem quiet_acknowledge (d : Device) (acknum : Nat) : Quiet d (d.acknowledge acknum) := by
  unfold acknowledge
  refine Quiet.trans ?_ (quiet_modFlg ..)
  refine Quiet.trans ?_ (.ite (quiet_tcpTimerSched ..) (.refl _))
  refine Quiet.trans ?_ (quiet_tcpRecvRtt _)
  refine Quiet.trans ?_ (quiet_modSnd ..)
  refine Quiet.trans ?_ (.ite (quiet_modSnd ..) (.refl _))
  exact (quiet_noteAcked ..).trans (quiet_modSnd ..)

theorem quiet_updateWindow (d : Device) (pkt : TcpPkt) : Quiet d (d.updateWindow pkt) := by
  refine .ite ?_ (.refl d)
  refine .ite ?_ (quiet_modSnd ..)
  exact (quiet_modSnd ..).trans ((quiet_tcpTimerPurge ..).trans (quiet_modFlg ..))

/-- `tcpRecvAck` sends nothing and leaves the receive variables alone. -/
theorem quiet_tcpRecvAck (d : Device) (pkt : TcpPkt) : Quiet d (d.tcpRecvAck pkt) := by
  refine Quiet.trans ?_ (.ite (quiet_modFlg ..) (.refl _))
  refine Quiet.trans ?_ (quiet_updateWindow _ pkt)
  exact .ite (quiet_acknowledge ..) (.refl d)

/-! ## The end of a connection and the timer -/

section

variable (d : Device)

theorem tcpFree_state : d.tcpFree.1.tcb.state = .closed := by
  unfold tcpFree
  split_ifs with h
  · exact h
  · rfl

theorem tcpOpen_of_open {d : Device} (args : OpenArgs) (h : d.tcb.state ≠ .closed ∧
    d.tcb.state ≠ .listen) :
    d.tcpOpen args = ({ d with tcb := { d.tcb with devstate := true } }.signalMutex, SYSERR) :=
  if_pos h

theorem outputs_retransmit (first : Bool) : Outputs (fun _ => True) d (d.retransmit first).1 := by
  unfold retransmit
  dsimp only
  split_ifs
  · refine .trans ?_ (outputs_signalMutex _)
    refine .trans ?_ (outputs_tcpSend ..).any
    exact outputs_tcpTimerSched ..
  · refine .trans ?_ (outputs_signalMutex _)
    refine .trans ?_ (outputs_modSnd ..)
    refine .trans ?_ (outputs_tcpSend ..).any
    exact outputs_tcpTimerSched ..

/-- A retransmission sends, or gives the connection up. -/
theorem outputs_tcpSendRxt :
    Outputs (fun _ => True) d d.tcpSendRxt.1 ∨ d.tcpSendRxt.1.tcb.state = .closed := by
  unfold tcpSendRxt
  dsimp only
  split_ifs
  · exact .inl (outputs_signalMutex d)
  · exact .inr (tcpFree_state _)
  · exact .inl ((outputs_modSnd ..).trans (outputs_retransmit ..))

theorem outputs_tcpSendPersist : Outputs (fun _ => True) d d.tcpSendPersist.1 := by
  unfold tcpSendPersist
  split_ifs
  · exact (outputs_modFlg ..).trans (outputs_signalMutex _)
  · refine .trans ?_ (outputs_signalMutex _)
    refine .trans ?_ (outputs_tcpSend ..).any
    exact (outputs_modSnd ..).trans (outputs_tcpTimerSched ..)

theorem outputs_tcpTimerTrigger (type : EvtType) :
    Outputs (fun _ => True) d (d.tcpTimerTrigger type).1 ∨
      (d.tcpTimerTrigger type).1.tcb.state = .closed := by
  cases type with
  | timewt => exact .inr (tcpFree_state d)
  | rxt => exact outputs_tcpSendRxt d
  | persist => exact .inl (outputs_tcpSendPersist d)

theorem outputs_expire : Outputs (fun _ => True) d d.expire ∨ d.expire.tcb.state = .closed := by
  have htake : Outputs (fun _ => True) d { d with timer := d.timer.take.1 } :=
    ⟨rfl, .refl, rfl, rfl, [], by simp, by simp⟩
  have hwait := htake.trans ((quiet_waitMutex _).outputs _)
  exact expire_rule (Q := fun d' => Outputs _ d d' ∨ d'.tcb.state = .closed) (Or.inl htake)
    fun type => (outputs_tcpTimerTrigger _ type).imp hwait.trans id

theorem outputs_closeSend : Outputs (fun _ => True) d d.closeSend.1 := by
  refine .trans ?_ ((quiet_waitOpenclose _).outputs _)
  refine .trans ?_ (outputs_signalMutex _)
  exact .ite (outputs_tcpSendData d) (.refl _ d)

end

end Device

/-! ## Calls in the states that take data -/

/-- The states in which `tcpRecvData` takes data. -/
def TcpState.TakesData (st : TcpState) : Prop := st = .estab ∨ st = .finwt1 ∨ st = .finwt2
deriving Decidable

/-- A segment of which neither data nor a FIN is taken. -/
theorem Device.tcpRecvData_of_skip {d : Device} {pkt : TcpPkt} (hfin : pkt.control.fin = false)
    (h : ¬ (0 < pkt.seglen ∧ d.tcb.state.TakesData)) : (d.tcpRecvData pkt).1 = d.respond := by
  have htext : d.recvText pkt = (d, pkt.seglen, pkt.control.fin) := if_neg h
  unfold tcpRecvData
  rw [htext, hfin]
  rfl

/-- A property of the receive variables and of the octets handed to readers that sending, signalling
and reading keep. -/
structure ReceiveInvariant (I : Recv → List UInt8 → Prop) : Prop where
  window : ∀ st : TcpState, st.TakesData → ∀ r l, I r l → I (r.tcpSendWindow st).1 l
  readers : ∀ r l n, I r l → I { r with readers := n } l
  read : ∀ r l len, I r l → I (r.readLoop len).1 (l ++ (r.readLoop len).2)

/-- The connection takes data, and `I` holds of its receive variables. -/
def Device.Receives (I : Recv → List UInt8 → Prop) (d : Device) : Prop :=
  d.tcb.state.TakesData ∧ I d.tcb.rcv d.hist.delivered

namespace ReceiveInvariant

variable {I : Recv → List UInt8 → Prop}

theorem outputs (hI : ReceiveInvariant I) (hst : d.tcb.state.TakesData)
    (h : I d.tcb.rcv d.hist.delivered) (ho : Outputs P d d') : d'.Receives I := by
  rw [Device.Receives, ho.state, ho.delivered]
  exact ⟨hst, ho.rcv.keeps (fun r => hI.window _ hst r _) h⟩

theorem readStateCheck (hst : d.tcb.state.TakesData) : d.readStateCheck = (d, OK) := by
  unfold Device.readStateCheck
  rcases hst with hst | hst | hst <;> rw [hst]

theorem writeStateCheck (hst : d.tcb.state.TakesData) :
    d.writeStateCheck = (d, OK) ∨ d.writeStateCheck = (d.signalMutex, TCP_ERR_CLOSING) := by
  unfold Device.writeStateCheck
  rcases hst with hst | hst | hst <;> rw [hst]
  · exact .inl rfl
  · exact .inr rfl
  · exact .inr rfl

section

variable (hI : ReceiveInvariant I)
include hI

section

variable (hst : d.tcb.state.TakesData) (h : I d.tcb.rcv d.hist.delivered)
include hst h

theorem close : d.tcpClose.1.Receives I := by
  unfold Device.tcpClose
  rcases hst with h' | h' | h' <;> rw [h'] <;> dsimp only
  · refine hI.outputs ?_ ?_ (Device.outputs_closeSend _)
    · exact .inr (.inl rfl)
    · exact h
  · exact ⟨.inr (.inl h'), h⟩
  · exact ⟨.inr (.inr h'), h⟩

theorem write (buffer : List UInt8) : (d.tcpWriteRound buffer).1.Receives I := by
  unfold Device.tcpWriteRound
  rcases writeStateCheck hst with hcheck | hcheck <;> rw [hcheck] <;> dsimp only
  · rw [if_neg (by simp)]
    refine hI.outputs ?_ ?_ (.trans
      (.ite (Device.outputs_tcpSendData _) (.refl _ _)) (Device.outputs_signalMutex _))
    all_goals split_ifs
    exacts [hst, hst, h, h]
  · rw [if_pos (by decide)]
    exact ⟨hst, h⟩

theorem tcpReadRound (len : Nat) : (d.tcpReadRound len).1.Receives I := by
  unfold Device.tcpReadRound
  rw [readStateCheck hst]
  dsimp only
  rw [if_neg (by simp)]
  have h' := hI.read _ _ len h
  split_ifs
  · exact ⟨hst, hI.readers _ _ _ h'⟩
  · exact ⟨hst, h'⟩

/-- **A call that is not a segment** keeps the property, or ends the connection. -/
theorem exec (c : Call) (hc : ∀ pkt src, c ≠ .recv pkt src) :
    (d.exec c).tcb.state = .closed ∨ (d.exec c).Receives I := by
  cases c with
  | «open» args =>
    -- the device is open already
    have hopen : d.tcb.state ≠ .closed ∧ d.tcb.state ≠ .listen := by
      rcases hst with hst | hst | hst <;> rw [hst] <;> simp
    change _ ∨ (d.waitMutex.tcpOpen args).1.Receives I
    rw [Device.tcpOpen_of_open (d := d.waitMutex) args hopen]
    exact .inr ⟨hst, h⟩
  | close => exact .inr (hI.close hst h)
  | writeCheck =>
    change _ ∨ d.waitMutex.tcpWriteCheck.1.Receives I
    unfold Device.tcpWriteCheck
    rcases writeStateCheck (d := d.waitMutex) hst with hcheck | hcheck <;> rw [hcheck] <;>
      exact .inr ⟨hst, h⟩
  | writeWait => exact .inr ⟨hst, h⟩
  | write buffer => exact Or.inr (hI.write (d := d.waitMutex) hst h buffer)
  | readCheck =>
    change _ ∨ d.waitMutex.tcpReadCheck.1.Receives I
    rw [Device.tcpReadCheck_fst]
    exact .inr ⟨hst, h⟩
  | readWait => exact .inr ⟨hst, hI.readers _ _ _ h⟩
  | read len => exact Or.inr (hI.tcpReadRound (d := d.waitMutex) hst h len)
  | recv pkt src => exact absurd rfl (hc pkt src)
  | expire =>
    rcases d.outputs_expire with ho | hclosed
    · exact .inr (hI.outputs hst h ho)
    · exact .inl hclosed
  | elapse time => exact .inr ⟨hst, h⟩

end

end

end ReceiveInvariant

end Xinu.Tcp
