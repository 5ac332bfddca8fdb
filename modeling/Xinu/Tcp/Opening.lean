import Xinu.Tcp.Streaming

/-!
# Opening a connection

Before the SYN has been acknowledged nothing of the stream has been sent, and the accounts are those
of a stream that starts behind the SYN. They carry over into ESTAB if the segment that leads there
acknowledges the SYN. That is not all the code lets in: it takes an ACK of the initial sequence
number itself, it lets the connection be closed before the SYN is acknowledged, it goes back to
LISTEN with the send variables as they are, and `tcpWrite` sends a second SYN.
-/

namespace Xinu.Tcp

open Device

variable {P : Segment → Prop} {d d' : Device} {hi lo p : Nat} {pkt : TcpPkt}

/-- The accounts before the SYN is acknowledged. -/
structure Fresh (lo hi p : Nat) (d : Device) : Prop where
  una : d.tcb.snd.snduna = d.tcb.snd.iss
  nxt : d.tcb.snd.sndnxt = d.base
  fin : d.tcb.snd.sndflg.fin = false
  snddata : d.tcb.snd.sndflg.snddata = false
  account : Account d.hist.written d.base p 0 { d.tcb.snd.books with snduna := d.base }
  lower : lo ≤ d.tcb.snd.iss
  upper : d.tcb.snd.iss + d.hist.written.length + 2 + 2 ^ 16 ≤ hi
  healthy : Healthy d

/-- A connection before the SYN is acknowledged. -/
structure Opening (lo hi p : Nat) (d : Device) : Prop where
  state : d.tcb.state = .listen ∨ d.tcb.state = .synsent ∨ d.tcb.state = .synrecv
  listen : d.tcb.state = .listen → d.tcb.snd.sndflg.syn = false ∧ d.hist.written = []
  fresh : Fresh lo hi p d

namespace Device

/-- **`tcpSendSyn`** sends nothing, or the SYN takes a sequence number. -/
theorem still_tcpSendSyn (d : Device) :
    Still (fun _ => True) d d.tcpSendSyn.1 ∨
      Still (fun _ => True)
        (d.modSnd fun s =>
          { s with sndnxt := add32 s.sndnxt 1, sndflg := { s.sndflg with syn := true } })
        d.tcpSendSyn.1 := by
  have hflag : Still (fun _ => True) d
      (if d.tcb.snd.sndflg.sndack then d.modFlg fun f => { f with sndack := false } else d) :=
    .ite (still_modFlg d fun _ => ⟨rfl, rfl, rfl⟩) (.refl d)
  unfold tcpSendSyn
  dsimp only
  generalize (if d.tcb.snd.sndflg.sndack = true then d.modFlg fun f => { f with sndack := false }
    else d) = d₁ at hflag
  have hsend := hflag.trans ((d₁.still_tcpSend { syn := true, ack := d.tcb.snd.sndflg.sndack }
    d₁.tcb.snd.sndnxt d₁.tcb.rcv.rcvnxt 0 1).any)
  generalize d₁.tcpSend { syn := true, ack := d.tcb.snd.sndflg.sndack } d₁.tcb.snd.sndnxt
    d₁.tcb.rcv.rcvnxt 0 1 = r at hsend
  by_cases herr : r.2 = SYSERR
  · rw [if_pos herr]
    exact .inl hsend
  · rw [if_neg herr]
    refine .inr (Still.trans ?_ (still_tcpTimerSched ..))
    refine ⟨hsend.state, ?_, hsend.snddata, hsend.sndwnd, hsend.written, hsend.tosends, hsend.acks,
      hsend.sent⟩
    exact congrArg (fun b : Books => { b with sndnxt := add32 b.sndnxt 1, syn := true }) hsend.books

/-- `tcpWrite` on a passive connection that has no partner yet. -/
theorem writeStateCheck_of_listen (hst : d.tcb.state = .listen)
    (h : d.tcb.remotept = 0 ∨ d.tcb.remoteip.type = 0) :
    d.writeStateCheck = (d.signalMutex, TCP_ERR_NOSPEC) := by
  unfold writeStateCheck
  rw [hst]
  rw [if_neg (by tauto)]

theorem tcpOpenActive_cases (d : Device) :
    d.tcpOpenActive = (d, TCP_ERR_NOSPEC) ∨ d.tcpOpenActive = (d.tcpSendSyn.1, SYSERR) ∨
      d.tcpOpenActive = (d.tcpSendSyn.1.setState .synsent, OK) := by
  unfold tcpOpenActive
  dsimp only
  split_ifs
  · exact .inl rfl
  · exact .inr (.inl rfl)
  · exact .inr (.inr rfl)

/-- The segment with the SYN, if it has no FIN, in the state SYNRECV. -/
theorem tcpRecvData_of_synrecv (hst : d.tcb.state = .synrecv)
    (hfin : pkt.control.fin = false) : (d.tcpRecvData pkt).1 = d.respond := by
  refine tcpRecvData_of_skip hfin fun hn => ?_
  rw [hst] at hn
  exact absurd hn.2 (by decide)

/-- `tcpRecvSynsent` when it has processed the SYN, before it changes the state. -/
def adopt (d : Device) (pkt : TcpPkt) (ackAccept : Bool) : Device :=
  let d := d.modRcv fun r =>
    { r with
      rcvnxt := seqadd pkt.seqnum 1, rcvwnd := seqadd pkt.seqnum TCP_INIT_WND
      rcvflg := { r.rcvflg with syn := true } }
  let d := d.modSnd fun s =>
    { s with
      sndwnd := pkt.window, sndwl1 := pkt.seqnum, sndflg := { s.sndflg with sndack := true }
      snduna := if ackAccept then pkt.acknum else s.snduna
      sndwl2 := if ackAccept then pkt.acknum else s.sndwl2
      rxtcount := 0 }
  let d := (d.tcpTimerPurge (some .rxt)).1
  if seqlt d.tcb.snd.snduna d.tcb.snd.sndnxt then (d.tcpTimerSched d.tcb.snd.rxttime .rxt).1 else d

theorem still_adopt (d : Device) (pkt : TcpPkt) (ackAccept : Bool) :
    Still (fun _ => True)
      (d.modSnd fun s =>
        { s with sndwnd := pkt.window, snduna := if ackAccept then pkt.acknum else s.snduna })
      (d.adopt pkt ackAccept) := by
  refine Still.trans ?_ (.ite (still_tcpTimerSched ..) (.refl _))
  exact .of_hist rfl rfl rfl rfl rfl

theorem synchronize_of_lt {ackAccept : Bool}
    (h : seqlt (d.adopt pkt ackAccept).tcb.snd.iss (d.adopt pkt ackAccept).tcb.snd.snduna) :
    d.synchronize pkt ackAccept =
      ((((d.adopt pkt ackAccept).setState .estab).signalOpenclose).modFlg fun f =>
        { f with snddata := true }).tcpRecvData pkt := if_pos h

theorem synchronize_of_not_lt {ackAccept : Bool}
    (h : ¬ seqlt (d.adopt pkt ackAccept).tcb.snd.iss (d.adopt pkt ackAccept).tcb.snd.snduna) :
    d.synchronize pkt ackAccept =
      (((d.adopt pkt ackAccept).setState .synrecv).tcpSend { syn := true, ack := true }
        (d.adopt pkt ackAccept).tcb.snd.iss (d.adopt pkt ackAccept).tcb.rcv.rcvnxt 0
          1).1.tcpRecvData
          pkt := if_neg h

/-- A timer event sends, or frees the device. -/
theorem still_tcpTimerTrigger (d : Device) (type : EvtType) :
    Still (fun _ => True) d (d.tcpTimerTrigger type).1 ∨
      ∃ d₁, Still (fun _ => True) d d₁ ∧ (d.tcpTimerTrigger type).1 = d₁.tcpFree.1 := by
  cases type with
  | timewt => exact .inr ⟨d, .refl d, rfl⟩
  | rxt => exact still_tcpSendRxt (fun _ _ _ => trivial) fun _ _ _ _ => trivial
  | persist => exact .inl (still_tcpSendPersist fun _ _ _ => trivial)

end Device

namespace Fresh

section

variable (h : Fresh lo hi p d)
include h

theorem still (hs : Still (fun _ => True) d d') : Fresh lo hi p d' := by
  obtain ⟨hiss, huna, hnxt, -, hsyn, hfin, -⟩ := Books.mk.inj hs.books
  have hbase : d'.base = d.base := by rw [base, hiss, hsyn, base]
  refine ⟨?_, ?_, hfin.trans h.fin, hs.snddata.trans h.snddata, ?_, ?_, ?_,
    h.healthy.sends hs.sends⟩
  · rw [huna, hiss]
    exact h.una
  · rw [hnxt, hbase]
    exact h.nxt
  · rw [hs.written, hs.books, hbase]
    exact h.account
  · rw [hiss]
    exact h.lower
  · rw [hiss, hs.written]
    exact h.upper

theorem setState (st : TcpState) : Fresh lo hi p (d.setState st) :=
  ⟨h.una, h.nxt, h.fin, h.snddata, h.account, h.lower, h.upper,
    ⟨h.healthy.sndwnd, h.healthy.tosends, h.healthy.acks⟩⟩

theorem tcpSendSyn (E : Exact lo hi) (hsyn : d.tcb.snd.sndflg.syn = false) :
    Fresh lo hi p d.tcpSendSyn.1 := by
  have hbase : d.base = d.tcb.snd.iss := by rw [base, hsyn]; rfl
  have hupper := h.upper
  have hlt := E.lt (by omega)
  have hnxt : add32 d.tcb.snd.sndnxt 1 = d.tcb.snd.iss + 1 := by
    rw [h.nxt, hbase, add32_eq]
  rcases d.still_tcpSendSyn with hs | hs
  · exact h.still hs
  · refine Fresh.still ?_ hs
    refine ⟨h.una, hnxt, h.fin, h.snddata, ?_, h.lower, h.upper,
      ⟨h.healthy.sndwnd, h.healthy.tosends, h.healthy.acks⟩⟩
    have ha := h.account
    exact ⟨ha.total, ha.room, ha.ostart, ha.held, .inl rfl, hnxt.ge,
      by
        change add32 d.tcb.snd.sndnxt 1 ≤ _
        rw [hnxt]
        exact Nat.le_add_right_of_le (Nat.le_add_right _ _),
      fun hf => absurd (h.fin.symm.trans hf) (by simp)⟩

theorem setWindow {window : Nat} (wl1 : Nat) (hwnd : window < 2 ^ 16) :
    Fresh lo hi p (d.modSnd fun s => { s with sndwnd := window, sndwl1 := wl1 }) :=
  ⟨h.una, h.nxt, h.fin, h.snddata, h.account, h.lower, h.upper,
    ⟨hwnd, h.healthy.tosends, h.healthy.acks⟩⟩

theorem tcpSendAck : Fresh lo hi p d.tcpSendAck.1 := h.still d.still_tcpSendAck.any

theorem sendAckIfDue :
    Fresh lo hi p (if d.tcb.snd.sndflg.sndack = true then d.tcpSendAck.1 else d) := by
  split_ifs
  · exact h.tcpSendAck
  · exact h

theorem respond : Fresh lo hi p d.respond := by
  have hdata : ¬ d.tcb.snd.sndflg.snddata = true := by simp [h.snddata]
  unfold Device.respond
  rw [if_neg hdata]
  exact h.sendAckIfDue

/-- **The SYN is acknowledged**, and the connection is synchronized. -/
theorem streaming {d₁ : Device}
    (hbooks : d₁.tcb.snd.books = { d.tcb.snd.books with snduna := d.base })
    (hstage : d₁.tcb.state.stage = some false) (hwritten : d₁.hist.written = d.hist.written)
    (hhealthy : Healthy d₁) : Streaming lo hi d₁.hist.sent.length d.base p 0 d₁ := by
  have hiss : d₁.tcb.snd.iss = d.tcb.snd.iss := congrArg Books.iss hbooks
  have hfin : d₁.tcb.snd.sndflg.fin = d.tcb.snd.sndflg.fin := congrArg Books.fin hbooks
  have hsyn : d₁.tcb.snd.sndflg.syn = d.tcb.snd.sndflg.syn := congrArg Books.syn hbooks
  have hupper := h.upper
  have hlower := h.lower
  have hle := Bool.toNat_le d.tcb.snd.sndflg.syn
  refine ⟨?_, ?_, ?_, ?_, ?_, hhealthy, le_rfl, ?_⟩
  · rw [hfin, h.fin]
    exact hstage
  · rw [base, hiss, hsyn, base]
  · rw [hwritten, hbooks]
    exact h.account
  · rw [base]
    omega
  · rw [hwritten, base]
    omega
  · rw [List.drop_length]
    simp

/-- A connection whose SYN has not been sent counts as synchronized. -/
theorem streaming_of_syn (hsyn : d.tcb.snd.sndflg.syn = false)
    (hstage : d.tcb.state.stage = some false) :
    Streaming lo hi d.hist.sent.length d.base p 0 d := by
  have hbase : d.base = d.tcb.snd.snduna := by rw [base, hsyn, h.una]; rfl
  refine h.streaming ?_ hstage rfl h.healthy
  rw [hbase]
  rfl

/-- **The ACK of the SYN** acknowledges nothing of the stream. -/
theorem acknowledge (E : Exact lo hi) (hsyn : d.tcb.snd.sndflg.syn = true)
    (hstage : d.tcb.state.stage = some false) :
    Streaming lo hi d.hist.sent.length d.base p 0 (d.acknowledge d.base) := by
  have hbase : d.base = d.tcb.snd.iss + 1 := by rw [base, hsyn]; rfl
  have hupper := h.upper
  have hroom : d.tcb.snd.ocount ≤ TCP_OBLEN := h.account.room
  have hoblen : TCP_OBLEN = 16384 := rfl
  have hostart : d.tcb.snd.ostart = Ring.slot TCP_OBLEN p 0 := h.account.ostart
  -- one sequence number, and that is the SYN's
  have hamt : d.tcb.snd.ackedAmount d.base = 0 := by
    have hfin : ¬ (d.tcb.snd.sndflg.fin = true ∧ seqlt d.tcb.snd.sndfin d.base) := by simp [h.fin]
    unfold Send.ackedAmount
    rw [if_neg hfin, if_pos ⟨hsyn, h.una⟩, hbase, h.una,
      E.tcpSeqdiff_eq (by omega) h.lower, sub32_eq]
    omega
  have hs := d.still_acknowledge (P := fun _ => False) d.base
  rw [hamt] at hs
  have hbooks : (d.acknowledge d.base).tcb.snd.books =
      { d.tcb.snd.books with snduna := d.base } := by
    rw [hs.books]
    change { d.tcb.snd.books with
      snduna := d.base, ostart := (d.tcb.snd.ostart + 0) % TCP_OBLEN
      ocount := sub32 d.tcb.snd.ocount 0 } = _
    rw [hostart, Ring.slot_add, sub32_eq (Nat.zero_le _), Nat.sub_zero, Nat.add_zero, ← hostart]
    rfl
  have hhealthy : Healthy (d.acknowledge d.base) := by
    refine Healthy.sends ?_ hs.sends
    refine ⟨h.healthy.sndwnd, h.healthy.tosends, fun x hx => ?_⟩
    rcases List.mem_append.mp hx with hx | hx
    · exact h.healthy.acks x hx
    · rw [List.mem_singleton.mp hx]
      exact Nat.zero_le _
  have hsent : (d.acknowledge d.base).hist.sent = d.hist.sent := (d.quiet_acknowledge d.base).sent
  rw [← hsent]
  exact h.streaming hbooks (by rw [hs.state]; exact hstage) hs.written hhealthy

/-- **The inner loop of `tcpWrite`** works as it does on a synchronized connection. -/
theorem filled {buffer : List UInt8}
    (hroom : d.tcb.snd.iss + (d.hist.written.length + buffer.length) + 2 + 2 ^ 16 ≤ hi) :
    Fresh lo hi p (d.filled buffer) := by
  have heq := d.tcb.snd.writeLoop_eq buffer
  have hlen := List.length_take_le' (d.tcb.snd.writeLoop buffer).2 buffer
  have hflg : (d.tcb.snd.writeLoop buffer).1.sndflg = d.tcb.snd.sndflg := by rw [heq]
  have hiss : (d.tcb.snd.writeLoop buffer).1.iss = d.tcb.snd.iss := by rw [heq]
  have huna : (d.tcb.snd.writeLoop buffer).1.snduna = d.tcb.snd.snduna := by rw [heq]
  have hnxt : (d.tcb.snd.writeLoop buffer).1.sndnxt = d.tcb.snd.sndnxt := by rw [heq]
  have hwnd : (d.tcb.snd.writeLoop buffer).1.sndwnd = d.tcb.snd.sndwnd := by rw [heq]
  have hbase : (d.filled buffer).base = d.base := by
    change (d.tcb.snd.writeLoop buffer).1.iss + (d.tcb.snd.writeLoop buffer).1.sndflg.syn.toNat = _
    rw [hiss, hflg, base]
  have haccount : Account d.hist.written d.base p 0 { d.tcb.snd with snduna := d.base }.books :=
    h.account
  have hwrite := haccount.writeLoop h.fin buffer
  rw [Send.writeLoop_setUna] at hwrite
  refine ⟨?_, ?_, ?_, ?_, ?_, ?_, ?_, ⟨?_, h.healthy.tosends, h.healthy.acks⟩⟩
  · exact huna.trans (h.una.trans hiss.symm)
  · exact hnxt.trans (h.nxt.trans hbase.symm)
  · change (d.tcb.snd.writeLoop buffer).1.sndflg.fin = false
    rw [hflg]
    exact h.fin
  · change (d.tcb.snd.writeLoop buffer).1.sndflg.snddata = false
    rw [hflg]
    exact h.snddata
  · rw [hbase]
    exact hwrite
  · change lo ≤ (d.tcb.snd.writeLoop buffer).1.iss
    rw [hiss]
    exact h.lower
  · change (d.tcb.snd.writeLoop buffer).1.iss +
      (d.hist.written ++ buffer.take (d.tcb.snd.writeLoop buffer).2).length + 2 + 2 ^ 16 ≤ hi
    rw [hiss, List.length_append]
    omega
  · change (d.tcb.snd.writeLoop buffer).1.sndwnd < 2 ^ 16
    rw [hwnd]
    exact h.healthy.sndwnd

end

end Fresh

/-! ## Steps before the connection is synchronized -/

/-- A connection with its accounts, synchronized or not. -/
def Active (lo hi : Nat) (d : Device) : Prop :=
  (∃ p, Opening lo hi p d) ∨ ∃ n base p A, Streaming lo hi n base p A d

/-- A device with its accounts. -/
def Accounted (lo hi : Nat) (d : Device) : Prop := Active lo hi d ∨ Idle d

/-- The sequence numbers of a step are where the helpers are exact. -/
def InRange (lo hi : Nat) (d : Device) : Call → Prop
  | .open args =>
    lo ≤ d.tcpIss args.clktime ∧ d.tcpIss args.clktime + 2 + 2 ^ 16 ≤ hi
  | .write buffer =>
    d.tcb.snd.iss + (d.hist.written.length + buffer.length) + 2 + 2 ^ 16 ≤ hi
  | .recv pkt _ => pkt.Inside lo hi
  | _ => True

/-- A step that does not confuse the accounts: the connection is not closed before its SYN is
acknowledged, `tcpWrite` does not make an active connection of a passive one, a SYN that comes first
has no FIN, and in SYNRECV no RST takes a passive connection back to LISTEN and no segment
acknowledges the sequence number before the SYN. -/
def Careful (d : Device) : Call → Prop
  | .close => d.tcb.state ≠ .synrecv
  | .writeCheck | .write _ =>
    d.tcb.state = .listen → d.tcb.remotept = 0 ∨ d.tcb.remoteip.type = 0
  | .recv pkt _ =>
    (d.tcb.state = .listen ∨ d.tcb.state = .synsent ∧ pkt.control.ack = false →
      pkt.control.syn = true → pkt.control.fin = false) ∧
    (d.tcb.state = .synrecv → (pkt.control.rst = true → d.tcb.opentype ≠ 0) ∧
      (pkt.control.ack = true → d.tcb.snd.sndflg.syn = true → pkt.acknum ≠ d.tcb.snd.iss))
  | _ => True

namespace Opening

theorem ne_closed (h : Opening lo hi p d) : d.tcb.state ≠ .closed := by
  rcases h.state with hst | hst | hst <;> rw [hst] <;> simp

theorem still (h : Opening lo hi p d) (hs : Still (fun _ => True) d d') : Opening lo hi p d' := by
  obtain ⟨-, -, -, -, hsyn, -⟩ := Books.mk.inj hs.books
  refine ⟨?_, ?_, h.fresh.still hs⟩
  · rw [hs.state]
    exact h.state
  · rw [hs.state, hsyn, hs.written]
    exact h.listen

theorem of_synrecv (hst : d.tcb.state = .synrecv) (h : Fresh lo hi p d) : Opening lo hi p d :=
  ⟨.inr (.inr hst), fun hl => absurd (hst.symm.trans hl) (by simp), h⟩

section

variable (h : Opening lo hi p d)
include h

section

variable (E : Exact lo hi)
include E

/-- **A SYN comes in** for a passive connection. -/
theorem tcpRecvListen (hst : d.tcb.state = .listen)
    (hwnd : pkt.window < 2 ^ 16) (hfin : pkt.control.syn = true → pkt.control.fin = false)
    (src : NetAddr) : Opening lo hi p (d.tcpRecvListen pkt src).1 := by
  unfold Device.tcpRecvListen
  by_cases hrst : pkt.control.rst = true
  · rw [if_pos hrst]
    exact h
  rw [if_neg hrst]
  by_cases hack : pkt.control.ack = true
  · rw [if_pos hack]
    dsimp only
    exact h.still (still_modFlg d fun _ => ⟨rfl, rfl, rfl⟩)
  rw [if_neg hack]
  by_cases hsyn : pkt.control.syn = true
  · rw [if_pos hsyn]
    rw [tcpRecvData_of_synrecv rfl (hfin hsyn)]
    refine of_synrecv (outputs_respond _).state (Fresh.respond (Fresh.setState ?_ _))
    refine Fresh.sendAckIfDue (Fresh.tcpSendSyn (Fresh.setWindow ?_ _ hwnd) E (h.listen hst).1)
    exact h.fresh.still (.of_hist rfl rfl rfl rfl rfl)
  · rw [if_neg hsyn]
    exact h

/-- The SYN of the other side acknowledges ours: the connection is synchronized. -/
theorem synchronize_ack (hp : pkt.Inside lo hi)
    (hack : pkt.acknum = d.base) (hsyn : d.tcb.snd.sndflg.syn = true) :
    ∃ n, Streaming lo hi n d.base p 0 (d.synchronize pkt true).1 := by
  have hbase : d.base = d.tcb.snd.iss + 1 := by rw [base, hsyn]; rfl
  have hs := d.still_adopt pkt true
  have hupper := h.fresh.upper
  have hbooks : (d.adopt pkt true).tcb.snd.books = { d.tcb.snd.books with snduna := d.base } := by
    rw [hs.books, ← hack]
    rfl
  have hiss : (d.adopt pkt true).tcb.snd.iss = d.tcb.snd.iss := congrArg Books.iss hbooks
  have huna : (d.adopt pkt true).tcb.snd.snduna = d.base := congrArg Books.snduna hbooks
  have hlower := h.fresh.lower
  have hlt : seqlt (d.adopt pkt true).tcb.snd.iss (d.adopt pkt true).tcb.snd.snduna := by
    rw [hiss, huna, hbase, E.seqlt_iff hlower]
    omega
  rw [synchronize_of_lt hlt]
  have hhealthy : Healthy (d.adopt pkt true) := by
    refine Healthy.sends ?_ hs.sends
    exact ⟨hp.window, h.fresh.healthy.tosends, h.fresh.healthy.acks⟩
  have hstream : Streaming lo hi _ d.base p 0
      ((((d.adopt pkt true).setState .estab).signalOpenclose).modFlg fun f =>
        { f with snddata := true }) :=
    h.fresh.streaming hbooks rfl hs.written
      ⟨hhealthy.sndwnd, hhealthy.tosends, hhealthy.acks⟩
  exact ⟨_, hstream.tcpRecvData E pkt⟩

/-- It does not: the connection waits for the acknowledgement. -/
theorem synchronize_noack (hp : pkt.Inside lo hi)
    (hfin : pkt.control.fin = false) : Opening lo hi p (d.synchronize pkt false).1 := by
  have hs := d.still_adopt pkt false
  have hwnd : Fresh lo hi p (d.adopt pkt false) := by
    refine Fresh.still ?_ hs
    exact h.fresh.setWindow d.tcb.snd.sndwl1 hp.window
  have hupper := hwnd.upper
  have hlt : ¬ seqlt (d.adopt pkt false).tcb.snd.iss (d.adopt pkt false).tcb.snd.snduna := by
    rw [hwnd.una, E.seqlt_iff hwnd.lower (by omega) hwnd.lower]
    omega
  rw [synchronize_of_not_lt hlt]
  have hsend := ((d.adopt pkt false).setState .synrecv).still_tcpSend { syn := true, ack := true }
    (d.adopt pkt false).tcb.snd.iss (d.adopt pkt false).tcb.rcv.rcvnxt 0 1
  rw [tcpRecvData_of_synrecv hsend.state hfin]
  refine of_synrecv ((outputs_respond _).state.trans hsend.state) (Fresh.respond ?_)
  exact (hwnd.setState .synrecv).still hsend.any

theorem tcpRecvSynsent (hp : pkt.Inside lo hi)
    (hfin : pkt.control.ack = false → pkt.control.syn = true → pkt.control.fin = false) :
    Active lo hi (d.tcpRecvSynsent pkt).1 := by
  have hself : Active lo hi d := .inl ⟨p, h⟩
  have hupper := h.fresh.upper
  have hlower := h.fresh.lower
  have hnxt := h.fresh.nxt
  have hle := Bool.toNat_le d.tcb.snd.sndflg.syn
  rw [base] at hnxt
  unfold Device.tcpRecvSynsent
  dsimp only
  split_ifs with hbad hrst hrst hacc hsyn
  · exact hself
  · refine .inl ⟨p, h.still ?_⟩
    dsimp only
    exact still_modFlg d fun _ => ⟨rfl, rfl, rfl⟩
  · exact hself
  · exact hself
  · by_cases hack : pkt.control.ack = true
    · -- the ACK is of the SYN, as there is nothing else that has been sent
      obtain ⟨hlo, hhi⟩ := hp.acknum hack
      have hgood : ¬ (seqlte pkt.acknum d.tcb.snd.iss ∨ seqlt d.tcb.snd.sndnxt pkt.acknum) :=
        fun hn => hbad ⟨hack, hn⟩
      rw [E.seqlte_iff hlo hhi, E.seqlt_iff (by omega) (by omega) hlo hhi] at hgood
      have hflag : d.tcb.snd.sndflg.syn = true := by
        cases hf : d.tcb.snd.sndflg.syn with
        | true => rfl
        | false =>
          rw [hf, Bool.toNat_false] at hnxt
          omega
      have hbase : pkt.acknum = d.base := by
        rw [base, hflag, Bool.toNat_true]
        omega
      have haccept : pkt.control.ack = true ∧ seqlte d.tcb.snd.snduna pkt.acknum ∧
          seqlte pkt.acknum d.tcb.snd.sndnxt := by
        refine ⟨hack, ?_, ?_⟩
        · rw [h.fresh.una, E.seqlte_iff (by omega) (by omega) hlo hhi]
          omega
        · rw [E.seqlte_iff hlo hhi]
          omega
      rw [decide_eq_true haccept]
      obtain ⟨n, hs⟩ := h.synchronize_ack E hp hbase hflag
      exact .inr ⟨n, _, p, 0, hs⟩
    · have haccept : ¬ (pkt.control.ack = true ∧ seqlte d.tcb.snd.snduna pkt.acknum ∧
          seqlte pkt.acknum d.tcb.snd.sndnxt) := fun hn => hack hn.1
      rw [decide_eq_false haccept]
      exact .inl ⟨p, h.synchronize_noack E hp (hfin (by simpa using hack) hsyn)⟩
  · exact hself

/-- **The acknowledgement of the SYN comes in.** -/
theorem recvAckState (hst : d.tcb.state = .synrecv)
    (hp : pkt.Inside lo hi) (hack : pkt.control.ack = true)
    (hnew : d.tcb.snd.sndflg.syn = true → pkt.acknum ≠ d.tcb.snd.iss) :
    (∃ n base p A, Streaming lo hi n base p A (d.recvAckState pkt).1) ∨
      (∃ p, Opening lo hi p (d.recvAckState pkt).1) ∧ (d.recvAckState pkt).2 = some OK := by
  obtain ⟨hlo, hhi⟩ := hp.acknum hack
  have hupper := h.fresh.upper
  have hlower := h.fresh.lower
  have hnxt := h.fresh.nxt
  have huna := h.fresh.una
  have hle := Bool.toNat_le d.tcb.snd.sndflg.syn
  rw [base] at hnxt
  unfold Device.recvAckState
  rw [hst]
  dsimp only
  split_ifs with hin
  · rw [E.seqlte_iff (by omega) (by omega) hlo hhi, E.seqlte_iff hlo hhi] at hin
    refine .inl ?_
    have hfresh : Fresh lo hi p (d.setState .estab).signalOpenclose :=
      (h.fresh.setState .estab).still (still_signalOpenclose _)
    cases hf : d.tcb.snd.sndflg.syn with
    | false =>
      obtain ⟨A, hs⟩ := (hfresh.streaming_of_syn hf rfl).tcpRecvAck E hp hack
      exact ⟨_, _, p, A, hs⟩
    | true =>
      have hbase : pkt.acknum = (d.setState .estab).signalOpenclose.base := by
        change pkt.acknum = d.tcb.snd.iss + d.tcb.snd.sndflg.syn.toNat
        have := hnew hf
        omega
      have hs := hfresh.acknowledge E hf rfl
      rw [← hbase] at hs
      have hcond : seqlt (d.setState .estab).signalOpenclose.tcb.snd.snduna pkt.acknum ∧
          seqlte pkt.acknum (d.setState .estab).signalOpenclose.tcb.snd.sndnxt := by
        change seqlt d.tcb.snd.snduna pkt.acknum ∧ seqlte pkt.acknum d.tcb.snd.sndnxt
        have := hnew hf
        rw [E.seqlt_iff (by omega) (by omega) hlo hhi, E.seqlte_iff hlo hhi]
        omega
      have hstep : Streaming lo hi (d.setState .estab).signalOpenclose.hist.sent.length
          pkt.acknum p 0
          ((d.setState .estab).signalOpenclose.tcpRecvAck pkt) := by
        unfold tcpRecvAck
        rw [if_pos hcond]
        exact hs.afterAck hp
      exact ⟨_, _, p, 0, hstep⟩
  · refine .inr ⟨⟨p, h.still ?_⟩, rfl⟩
    dsimp only
    exact still_modFlg d fun _ => ⟨rfl, rfl, rfl⟩

theorem tcpRecvOther (hst : d.tcb.state = .synrecv)
    (hp : pkt.Inside lo hi) (hrst : pkt.control.rst = true → d.tcb.opentype ≠ 0)
    (hnew : pkt.control.ack = true → d.tcb.snd.sndflg.syn = true → pkt.acknum ≠ d.tcb.snd.iss) :
    Active lo hi (d.tcpRecvOther pkt).1 := by
  have hself : Active lo hi d := .inl ⟨p, h⟩
  have hp' := hp.tcpRecvValid d.tcb.rcv
  have hsame := d.tcb.rcv.tcpRecvValid_header pkt
  unfold Device.tcpRecvOther
  dsimp only
  generalize d.tcb.rcv.tcpRecvValid pkt = v at hp' hsame
  obtain ⟨hackbit, hrstbit, hacknum⟩ := hsame
  split_ifs with hbad hr hr hpassive hsyn hack
  · exact hself
  · exact .inl ⟨p, h.still d.still_tcpSendAck.any⟩
  · exact absurd hpassive (hrst (hrstbit ▸ hr))
  · refine .inl ⟨p, h.still ?_⟩
    refine Still.trans ?_ (still_tcpTimerPurge ..)
    exact still_modSnd d (fun _ => rfl) (fun _ => rfl) fun _ => rfl
  · refine .inl ⟨p, h.still ?_⟩
    dsimp only
    exact still_modFlg d fun _ => ⟨rfl, rfl, rfl⟩
  · exact hself
  · have hack' : v.1.control.ack = true := by simpa using hack
    rcases h.recvAckState E hst hp' hack' (hacknum ▸ hnew (hackbit ▸ hack')) with
      ⟨n, base, q, A, hs⟩ | ⟨ho, hok⟩
    · generalize d.recvAckState v.1 = r at hs
      obtain ⟨d', result⟩ := r
      cases result with
      | some result => exact .inr ⟨n, base, q, A, hs⟩
      | none => exact .inr ⟨n, base, q, A, hs.tcpRecvData E v.1⟩
    · generalize d.recvAckState v.1 = r at ho hok
      obtain ⟨d', result⟩ := r
      cases hok
      exact .inl ho

end

theorem tcpFree : Idle d.tcpFree.1 := h.fresh.healthy.tcpFree h.ne_closed

/-- A round of `tcpWrite` before the connection is synchronized only fills the buffer. -/
theorem write (buffer : List UInt8)
    (hlisten : d.tcb.state = .listen → d.tcb.remotept = 0 ∨ d.tcb.remoteip.type = 0)
    (hroom : d.tcb.snd.iss + (d.hist.written.length + buffer.length) + 2 + 2 ^ 16 ≤ hi) :
    Opening lo hi p (d.exec (.write buffer)) := by
  have hwait := h.still (still_waitMutex d)
  change d.waitMutex.tcb.snd.iss + (d.waitMutex.hist.written.length + buffer.length) + 2 +
    2 ^ 16 ≤ hi
    at hroom
  change d.waitMutex.tcb.state = .listen →
    d.waitMutex.tcb.remotept = 0 ∨ d.waitMutex.tcb.remoteip.type = 0 at hlisten
  change Opening lo hi p (d.waitMutex.tcpWriteRound buffer).1
  generalize d.waitMutex = d at hwait hroom hlisten
  by_cases hst : d.tcb.state = .listen
  · have hround : (d.tcpWriteRound buffer).1 = d.signalMutex.signalWriters 1 := by
      unfold tcpWriteRound
      rw [writeStateCheck_of_listen hst (hlisten hst)]
      rfl
    rw [hround]
    exact hwait.still
      ((still_signalMutex d).trans (still_signalWriters ..))
  have hcheck : d.writeStateCheck = (d, OK) := by
    unfold writeStateCheck
    rcases hwait.state with hs | hs | hs
    · exact absurd hs hst
    · rw [hs]
    · rw [hs]
  have hnosend : ¬ ((d.filled buffer).tcb.state = .estab ∨
      (d.filled buffer).tcb.state = .closewt) := by
    change ¬ (d.tcb.state = .estab ∨ d.tcb.state = .closewt)
    rcases hwait.state with hs | hs | hs <;> rw [hs] <;> simp
  have hafter : Still (fun _ => True) (d.filled buffer) (d.filled buffer).afterWrite := by
    refine Still.trans ?_ (still_signalMutex _)
    split_ifs with hspace hstate
    · exact absurd hstate hnosend
    · exact still_signalWriters ..
    · exact .refl _
  rw [tcpWriteRound_of_check hcheck]
  refine Opening.still ?_ hafter
  exact ⟨hwait.state, fun hl => absurd hl hst, hwait.fresh.filled hroom⟩

end

end Opening

theorem Active.tcpFree (h : Active lo hi d) : Idle d.tcpFree.1 := by
  rcases h with ⟨p, h⟩ | ⟨n, base, p, A, h⟩
  · exact h.tcpFree
  · exact h.tcpFree.idle

theorem Active.still (h : Active lo hi d)
    (hs : Still (fun _ => False) d d') : Active lo hi d' := by
  rcases h with ⟨p, h⟩ | ⟨n, base, p, A, h⟩
  · exact .inl ⟨p, h.still hs.any⟩
  · exact .inr ⟨n, base, p, A, h.still (hs.mono fun _ hf => hf.elim)⟩

namespace Idle

theorem still (h : Idle d) (hs : Still (fun _ => True) d d') : Idle d' := by
  obtain ⟨hiss, huna, hnxt, -, hsyn, -, -, hcount, -⟩ := Books.mk.inj hs.books
  refine ⟨hs.state.trans h.state, ?_, hcount.trans h.ocount, h.healthy.sends hs.sends⟩
  rw [hnxt, huna, hsyn, hiss]
  exact h.inflight

end Idle

/-! ## Opening -/

namespace Fresh

theorem tcpSetup (h : Healthy d) {clktime : Nat} (hlo : lo ≤ d.tcpIss clktime)
    (hhi : d.tcpIss clktime + 2 + 2 ^ 16 ≤ hi) (sems : Bool) :
    Fresh lo hi 0 (d.tcpSetup clktime sems).1 := by
  have hbase : (d.tcpSetup clktime sems).1.base = d.tcpIss clktime := add_zero _
  have hwritten : (d.tcpSetup clktime sems).1.hist.written = [] := rfl
  have hiss : (d.tcpSetup clktime sems).1.tcb.snd.iss = d.tcpIss clktime := rfl
  have hwnd : (d.tcpSetup clktime sems).1.tcb.snd.sndwnd = d.tcb.snd.sndwnd := by
    simp only [Device.tcpSetup]
  refine ⟨rfl, hbase.symm, rfl, rfl, ?_, hlo, ?_, ⟨?_, h.tosends, h.acks⟩⟩
  · rw [hbase, hwritten]
    have hnxt : (d.tcpSetup clktime sems).1.tcb.snd.sndnxt = d.tcpIss clktime := rfl
    exact ⟨rfl, Nat.zero_le _, (Nat.zero_mod _).symm, fun k _ hk => absurd hk (Nat.not_lt_zero k),
      .inl (add_zero _).symm, hnxt.ge,
      hnxt.le.trans (Nat.le_add_right_of_le (Nat.le_add_right _ _)),
      fun hf => absurd hf Bool.false_ne_true⟩
  · rw [hwritten, hiss, List.length_nil, add_zero]
    exact hhi
  · rw [hwnd]
    exact h.sndwnd

/-- A device that is still closed, with nothing written. -/
theorem idle (h : Fresh lo hi p d) (hst : d.tcb.state = .closed) (hw : d.hist.written = []) :
    Idle d := by
  refine ⟨hst, ?_, ?_, h.healthy⟩
  · have hnxt := h.nxt
    rw [base] at hnxt
    rw [hnxt, h.una]
    cases d.tcb.snd.sndflg.syn with
    | false => exact .inl rfl
    | true => exact .inr ⟨rfl, rfl, rfl⟩
  · have htotal : 0 + d.tcb.snd.ocount = d.hist.written.length := h.account.total
    rw [hw] at htotal
    simpa using htotal

theorem tcpFree (h : Fresh lo hi p d) (hw : d.hist.written = []) : Idle d.tcpFree.1 := by
  by_cases hst : d.tcb.state = .closed
  · have hfree : d.tcpFree.1 = d.signalMutex := by
      unfold Device.tcpFree
      rw [if_pos hst]
    rw [hfree]
    exact (h.idle hst hw).still (still_signalMutex d)
  · exact h.healthy.tcpFree hst

/-- A device that is closed or listens, and has sent no SYN. -/
theorem accounted (h : Fresh lo hi p d) (hst : d.tcb.state = .closed ∨ d.tcb.state = .listen)
    (hsyn : d.tcb.snd.sndflg.syn = false) (hw : d.hist.written = []) : Accounted lo hi d := by
  rcases hst with hst | hst
  · exact .inr (h.idle hst hw)
  · exact .inl (.inl ⟨p, .inl hst, fun _ => ⟨hsyn, hw⟩, h⟩)

end Fresh

namespace Accounted

theorem still (h : Accounted lo hi d) (hs : Still (fun _ => False) d d') : Accounted lo hi d' :=
  h.imp (fun h => h.still hs) fun h => h.still hs.any

/-- `tcpOpenActive`, on a control block as `tcpSetup` leaves it. -/
theorem openActive (h : Fresh lo hi 0 d) (E : Exact lo hi)
    (hst : d.tcb.state = .closed ∨ d.tcb.state = .listen) (hsyn : d.tcb.snd.sndflg.syn = false)
    (hw : d.hist.written = []) :
    Accounted lo hi
      (if d.tcpOpenActive.2 = SYSERR then (d.tcpOpenActive.1.tcpFree.1, SYSERR)
      else (d.tcpOpenActive.1.signalMutex.waitOpenclose, OK)).1 := by
  have hleave : ∀ d : Device, Still (fun _ => False) d d.signalMutex.waitOpenclose :=
    fun d => (still_signalMutex d).trans (still_waitOpenclose _)
  have hsend := h.tcpSendSyn E hsyn
  have hw' : d.tcpSendSyn.1.hist.written = [] := by
    rcases d.still_tcpSendSyn with hs | hs <;> exact hs.written.trans hw
  rcases d.tcpOpenActive_cases with hr | hr | hr
  · rw [hr, if_neg (show TCP_ERR_NOSPEC ≠ SYSERR by decide)]
    exact (h.accounted hst hsyn hw).still (hleave d)
  · rw [hr, if_pos rfl]
    exact .inr (hsend.tcpFree hw')
  · rw [hr, if_neg (show OK ≠ SYSERR by decide)]
    refine Accounted.still ?_ (hleave _)
    refine .inl (.inl ⟨0, .inr (.inl rfl), fun hl => ?_, hsend.setState .synsent⟩)
    exact absurd hl (by simp [setState])

/-- **`tcpOpen`.** -/
theorem tcpOpen {args : OpenArgs} (h : Accounted lo hi d) (E : Exact lo hi)
    (hlo : lo ≤ d.tcpIss args.clktime) (hhi : d.tcpIss args.clktime + 2 + 2 ^ 16 ≤ hi)
    (hst : d.tcb.state = .closed ∨ d.tcb.state = .listen) : Accounted lo hi (d.tcpOpen args).1 := by
  have hhealthy : Healthy d := by
    rcases h with (⟨p, h⟩ | ⟨n, base, p, A, h⟩) | h
    · exact h.fresh.healthy
    · exact h.healthy
    · exact h.healthy
  unfold Device.tcpOpen
  rw [if_neg (by rcases hst with hst | hst <;> simp [hst])]
  cases hip : args.localip with
  | none => exact h.still (.of_hist rfl rfl rfl rfl rfl)
  | some localip =>
    have hset : ∀ r : Device × Int, Fresh lo hi 0 r.1 →
        (r.1.tcb.state = .closed ∨ r.1.tcb.state = .listen) → r.1.tcb.snd.sndflg.syn = false →
        r.1.hist.written = [] → Accounted lo hi
          (if r.2 = SYSERR then (r.1.tcpFree.1, SYSERR)
          else if args.mode = 0 then ((r.1.setState .listen).signalMutex.waitOpenclose, OK)
          else if args.mode = 1 then
            if r.1.tcpOpenActive.2 = SYSERR then (r.1.tcpOpenActive.1.tcpFree.1, SYSERR)
            else (r.1.tcpOpenActive.1.signalMutex.waitOpenclose, OK)
          else (r.1.tcpFree.1, SYSERR)).1 := by
      intro r hf hst₁ hsyn₁ hw₁
      by_cases herr : r.2 = SYSERR
      · rw [if_pos herr]
        exact .inr (hf.tcpFree hw₁)
      rw [if_neg herr]
      by_cases hpassive : args.mode = 0
      · rw [if_pos hpassive]
        refine Accounted.still ?_
          ((still_signalMutex _).trans (still_waitOpenclose _))
        exact .inl (.inl ⟨0, .inl rfl, fun _ => ⟨hsyn₁, hw₁⟩, hf.setState .listen⟩)
      rw [if_neg hpassive]
      by_cases hactive : args.mode = 1
      · rw [if_pos hactive]
        exact openActive hf E hst₁ hsyn₁ hw₁
      · rw [if_neg hactive]
        exact .inr (hf.tcpFree hw₁)
    refine hset _ (Fresh.tcpSetup ?_ ?_ ?_ _) hst rfl rfl
    · exact ⟨hhealthy.sndwnd, hhealthy.tosends, hhealthy.acks⟩
    · exact hlo
    · exact hhi

end Accounted

/-! ## Steps -/

theorem Streaming.room_of_inRange {n base A : Nat} {buffer : List UInt8}
    (h : Streaming lo hi n base p A d) (hr : InRange lo hi d (.write buffer)) :
    base + (d.hist.written.length + buffer.length) + 1 + 2 ^ 16 ≤ hi := by
  have hle := Bool.toNat_le d.tcb.snd.sndflg.syn
  have hstart := h.start
  rw [Device.base] at hstart
  change d.tcb.snd.iss + (d.hist.written.length + buffer.length) + 2 + 2 ^ 16 ≤ hi at hr
  omega

namespace Opening

section

variable (h : Opening lo hi p d)
include h

/-- **A segment comes in.** -/
theorem recv (E : Exact lo hi) (hp : pkt.Inside lo hi) {src : NetAddr}
    (hc : Careful d (.recv pkt src)) : Accounted lo hi (d.exec (.recv pkt src)) := by
  obtain ⟨hfin, hsynrecv⟩ := hc
  have hopts : Opening lo hi p (d.readOpts pkt) :=
    (h.still (still_waitMutex d)).still
      (still_tcpRecvOpts ..)
  have hend : ∀ r : Device × Int, Active lo hi r.1 →
      Accounted lo hi (if r.2 = TCP_ERR_RESET then r.1.tcpFree else (r.1.signalMutex, r.2)).1 := by
    intro r hr
    split_ifs
    · exact Or.inr hr.tcpFree
    · exact Or.inl (hr.still (still_signalMutex _))
  have hstate : (d.readOpts pkt).tcb.state = d.tcb.state := rfl
  have hopen : (d.readOpts pkt).tcb.opentype = d.tcb.opentype := rfl
  have hbooks := (still_tcpRecvOpts (P := fun _ => True) d.waitMutex pkt).books
  have hsyn : (d.readOpts pkt).tcb.snd.sndflg.syn =
    d.tcb.snd.sndflg.syn := congrArg Books.syn hbooks
  have hiss : (d.readOpts pkt).tcb.snd.iss = d.tcb.snd.iss :=
    congrArg Books.iss hbooks
  change Accounted lo hi (d.waitMutex.tcpRecv pkt src).1
  unfold tcpRecv
  dsimp only
  rw [if_neg (show d.waitMutex.tcb.state ≠ .closed from h.ne_closed), hstate]
  refine hend _ ?_
  rcases h.state with hst | hst | hst
  · rw [hst]
    exact Or.inl ⟨p, hopts.tcpRecvListen E (hstate.trans hst) hp.window (hfin (Or.inl hst)) src⟩
  · rw [hst]
    exact hopts.tcpRecvSynsent E hp fun hack => hfin (Or.inr ⟨hst, hack⟩)
  · rw [hst]
    obtain ⟨hrst, hnew⟩ := hsynrecv hst
    rw [← hsyn, ← hiss] at hnew
    exact hopts.tcpRecvOther E (hstate.trans hst) hp (hopen ▸ hrst) hnew

/-- **A timer event.** -/
theorem expire : Accounted lo hi d.expire := by
  have htake : Opening lo hi p { d with timer := d.timer.take.1 } :=
    h.still (.of_hist rfl rfl rfl rfl rfl)
  refine expire_rule (.inl (.inl ⟨p, htake⟩)) fun type => ?_
  have hwait := htake.still (still_waitMutex _)
  rcases still_tcpTimerTrigger _ type with hs | ⟨d₁, hs, hd₁⟩
  · exact .inl (.inl ⟨p, hwait.still hs⟩)
  · rw [hd₁]
    exact .inr (hwait.still hs).tcpFree

/-- **`tcpClose`** of a connection that waits. -/
theorem close (hst : d.tcb.state ≠ .synrecv) : Idle (d.exec .close) := by
  have hwait := h.still (still_waitMutex d)
  have hsend : ∀ d : Device, Idle d → d.tcb.snd.sndflg.snddata = false → Idle d.closeSend.1 := by
    intro d hd hdata
    unfold closeSend
    rw [if_neg (by rw [hdata]; simp)]
    exact hd.still
      ((still_signalMutex d).trans (still_waitOpenclose _))
  have hfree : ∀ d : Device, d.tcb.state ≠ .closed →
      d.tcpFree.1.tcb.snd.sndflg.snddata = false := by
    intro d hd
    unfold Device.tcpFree
    rw [if_neg hd]
    rfl
  have hrelease : ∀ d, Opening lo hi p d → Opening lo hi p d.releaseReaders ∧
      Opening lo hi p d.releaseWriters := fun d hd =>
    ⟨hd.still (.ite (still_signalReaders ..) (.refl d)),
      hd.still (.ite (still_signalWriters ..) (.refl d))⟩
  change Idle d.waitMutex.tcpClose.1
  have hst' : d.waitMutex.tcb.state ≠ .synrecv := hst
  generalize d.waitMutex = d at hwait hst'
  unfold tcpClose
  rcases hwait.state with hs | hs | hs
  · rw [hs]
    have hr := (hrelease d hwait).1
    exact hsend _ hr.tcpFree (hfree _ hr.ne_closed)
  · rw [hs]
    have hr := (hrelease _ (hrelease d hwait).2).1
    exact hsend _ hr.tcpFree (hfree _ hr.ne_closed)
  · exact absurd hs hst'

/-- **Every careful step of a connection that is not synchronized yet.** -/
theorem step (E : Exact lo hi) (c : Call) (hr : InRange lo hi d c)
    (hc : Careful d c) : Accounted lo hi (d.exec c) := by
  have hwait := h.still (still_waitMutex d)
  have hstill : ∀ d', Still (fun _ => True) d.waitMutex d' → Accounted lo hi d' :=
    fun d' hs => .inl (.inl ⟨p, hwait.still hs⟩)
  cases c with
  | «open» args =>
    by_cases hst : d.waitMutex.tcb.state = .listen
    · exact Accounted.tcpOpen (.inl (.inl ⟨p, hwait⟩)) E hr.1 hr.2 (.inr hst)
    · exact hstill _ (still_tcpOpen hwait.ne_closed hst args)
  | close => exact .inr (h.close hc)
  | writeCheck =>
    change Accounted lo hi d.waitMutex.tcpWriteCheck.1
    unfold tcpWriteCheck
    by_cases hst : d.waitMutex.tcb.state = .listen
    · rw [writeStateCheck_of_listen hst (hc hst)]
      exact hstill _ ((still_signalMutex _).trans (still_signalMutex _))
    · exact hstill _ ((still_writeStateCheck hst).trans (still_signalMutex _))
  | writeWait =>
    exact .inl (.inl ⟨p, h.still (still_signalWriters ..)⟩)
  | write buffer => exact .inl (.inl ⟨p, h.write buffer hc hr⟩)
  | readCheck => exact hstill _ (still_tcpReadCheck _)
  | readWait =>
    exact .inl (.inl ⟨p, h.still (still_signalReaders ..)⟩)
  | read len => exact hstill _ (still_tcpReadRound _ len)
  | recv pkt src => exact h.recv E hr hc
  | expire => exact h.expire
  | elapse time =>
    exact .inl (.inl ⟨p, h.still (.of_hist rfl rfl rfl rfl rfl)⟩)

end

end Opening

namespace Idle

/-- A timer event that has been left behind. -/
theorem expire (h : Idle d) : Idle d.expire := by
  have htake : Idle { d with timer := d.timer.take.1 } :=
    h.still (.of_hist rfl rfl rfl rfl rfl)
  have hfree : ∀ d : Device, Idle d → Idle d.tcpFree.1 := by
    intro d hd
    have heq : d.tcpFree.1 = d.signalMutex := by
      unfold tcpFree
      rw [if_pos hd.state]
    rw [heq]
    exact hd.still (still_signalMutex d)
  refine expire_rule htake fun type => ?_
  have hwait := htake.still (still_waitMutex _)
  rcases still_tcpTimerTrigger _ type with hs | ⟨d₁, hs, hd₁⟩
  · exact hwait.still hs
  · rw [hd₁]
    exact hfree _ (hwait.still hs)

/-- **Every step of a closed device.** -/
theorem step (h : Idle d) (E : Exact lo hi) (c : Call) (hr : InRange lo hi d c) :
    Accounted lo hi (d.exec c) := by
  have hstill := fun hopen hexpire =>
    h.still (still_exec_closed (P := fun _ => True) h.state c hopen hexpire)
  cases c with
  | «open» args =>
    exact Accounted.tcpOpen (.inr (h.still (still_waitMutex d))) E hr.1 hr.2 (.inl h.state)
  | expire => exact .inr h.expire
  | close | writeCheck | writeWait | write | readCheck | readWait | read | recv | elapse =>
    exact .inr (hstill nofun nofun)

end Idle

/-- **Every careful step keeps the accounts.** -/
theorem Accounted.step (h : Accounted lo hi d) (E : Exact lo hi) (c : Call)
    (hr : InRange lo hi d c) (hc : Careful d c) : Accounted lo hi (d.exec c) := by
  rcases h with (⟨p, h⟩ | ⟨n, base, p, A, h⟩) | h
  · exact h.step E c hr hc
  · refine (h.step E c ?_ ?_).elim (fun ⟨A', h'⟩ => .inl (.inr ⟨n, base, p, A', h'⟩))
      fun h' => .inr h'.idle
    · rintro pkt src rfl
      exact hr
    · rintro buffer rfl
      exact h.room_of_inRange hr
  · exact h.step E c hr

end Xinu.Tcp
