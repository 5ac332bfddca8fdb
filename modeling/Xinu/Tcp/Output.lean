import Xinu.Tcp.Timer

/-!
# Sending

The functions that send segments. Each runs with the mutex of the control block held; the two that
the timer triggers take it first and are translated from there on.
-/

namespace Xinu.Tcp

/-- `tcpSendWindow`: the window size to advertise in an outgoing packet. -/
def Recv.tcpSendWindow (r : Recv) (state : TcpState) : Recv × Nat :=
  -- set proposed window to maximum possible
  let window := sub32 TCP_IBLEN r.icount % 2 ^ 16
  match state with
  | .closed => (r, 0)
  | .listen | .synsent | .synrecv => ({ r with rcvwnd := seqadd r.rcvnxt window }, window)
  | _ =>
    -- unused portion of currently advertised window
    let unused := tcpSeqdiff r.rcvwnd r.rcvnxt % 2 ^ 16
    let window := if window * 4 < TCP_IBLEN ∨ window < r.rcvmss then 0 else window
    if unused < window then ({ r with rcvwnd := seqadd r.rcvnxt window }, window)
    else (r, unused)

namespace Device

/-- What becomes of the next segment. -/
def sending (d : Device) : Sending := d.net.headD (.sent OK)

/-- `tcpSend` from the point where it has a packet buffer: fill in the segment and hand it on. -/
def emit (d : Device) (ctrl : Control) (seqnum acknum datastart datalen : Nat) : Device :=
  let w := d.tcb.rcv.tcpSendWindow d.tcb.state
  let d := d.modRcv fun _ => w.1
  let seg : Segment :=
    { localip := d.tcb.localip, remoteip := d.tcb.remoteip, srcpt := d.tcb.localpt
      dstpt := d.tcb.remotept, seqnum := seqnum, acknum := acknum, control := ctrl, window := w.2
      mss := if ctrl.syn then some (d.tcb.rcv.rcvmss + TCP_HDR_LEN) else none
      data := (List.range datalen).map fun i => d.tcb.snd.outbuf ((datastart + i) % TCP_OBLEN) }
  { d with hist := { d.hist with sent := d.hist.sent ++ [seg] } }

/-- The octets of data in a segment: `datalen` counts a SYN and a FIN. -/
def dataLength (ctrl : Control) (datalen : Nat) : Nat :=
  let datalen := datalen % 2 ^ 16
  let datalen := if ctrl.syn then sub16 datalen 1 else datalen
  if ctrl.fin then sub16 datalen 1 else datalen

/-- `tcpSend`: sends a TCP packet. -/
def tcpSend (d : Device) (ctrl : Control) (seqnum acknum datastart datalen : Nat) : Device × Int :=
  let datalen := dataLength ctrl datalen
  -- a SYN carries the option MSS
  let msslen := if ctrl.syn then 8 else 0
  let tcplen := (TCP_HDR_LEN + datalen + msslen) % 2 ^ 16
  if NET_MAX_PKTLEN < tcplen then (d, SYSERR)
  else
    match d.sending with
    | .nobuf => ({ d with net := d.net.tail }, SYSERR)
    | .sent result =>
      ({ d with net := d.net.tail }.emit ctrl seqnum acknum datastart datalen, result)

/-- `tcpSendAck`: sends an ACK to acknowledge all received data. -/
def tcpSendAck (d : Device) : Device × Int :=
  let d := d.modFlg fun f => { f with sndack := false }
  d.tcpSend { ack := true } d.tcb.snd.sndnxt d.tcb.rcv.rcvnxt 0 0

/-- `tcpSendSyn`: sends a SYN to establish a connection. -/
def tcpSendSyn (d : Device) : Device × Int :=
  let control : Control := { syn := true, ack := d.tcb.snd.sndflg.sndack }
  let d := if d.tcb.snd.sndflg.sndack then d.modFlg fun f => { f with sndack := false } else d
  let r := d.tcpSend control d.tcb.snd.sndnxt d.tcb.rcv.rcvnxt 0 1
  if r.2 = SYSERR then (r.1, SYSERR)
  else
    let d := r.1.modSnd fun s =>
      { s with sndnxt := add32 s.sndnxt 1, sndflg := { s.sndflg with syn := true } }
    let r := d.tcpTimerSched d.tcb.snd.rxttime .rxt
    (r.1, if r.2 = SYSERR then SYSERR else OK)

/-! ## Data -/

/-- The loop of `tcpSendData`: send as many maximum size segments as possible. It returns the window
used, the amount left and the amount sent. -/
def sendLoop : Nat → Nat → Nat → Nat → Device → Device × Nat × Nat × Nat
  | 0, wndused, tosend, sent, d => (d, wndused, tosend, sent)
  | n + 1, wndused, tosend, sent, d =>
    let snd := d.tcb.snd
    if snd.sndmss < tosend then
      let d := (d.tcpSend { ack := true } snd.sndnxt d.tcb.rcv.rcvnxt
        ((snd.ostart + wndused) % TCP_OBLEN) snd.sndmss).1
      let d := d.modSnd fun s => { s with sndnxt := seqadd s.sndnxt s.sndmss }
      sendLoop n (add32 wndused snd.sndmss) (tosend - snd.sndmss) (add32 sent snd.sndmss) d
    else (d, wndused, tosend, sent)

/-- `tcpSendData` from the point where the amount to send is known. -/
def transmit (d : Device) (ctrl : Control) (wndused tosend : Nat) : Device × Int :=
  let r := sendLoop tosend wndused tosend 0 d
  let d := r.1
  -- send the remainder of the sendable data
  let d := (d.tcpSend ctrl d.tcb.snd.sndnxt d.tcb.rcv.rcvnxt
    ((d.tcb.snd.ostart + r.2.1) % TCP_OBLEN) r.2.2.1).1
  let sent := add32 r.2.2.2 r.2.2.1
  let d := d.modSnd fun s => { s with sndnxt := seqadd s.sndnxt r.2.2.1 }
  -- if one does not already exist, schedule a retransmission event
  let d := if d.tcpTimerRemain .rxt ≤ 0 then (d.tcpTimerSched d.tcb.snd.rxttime .rxt).1 else d
  let d := if 0 < sent then d.modFlg fun f => { f with sndack := false } else d
  (d.modFlg fun f => { f with snddata := false }, sent)

end Device

namespace Send

/-- The amount of data pending ACK or transmission, a FIN included. -/
def pending (s : Send) : Nat := if s.sndflg.fin then add32 s.ocount 1 else s.ocount

/-- The amount of window filled with data pending ACK. -/
def wndused (s : Send) : Nat := tcpSeqdiff s.sndnxt s.snduna

/-- The part of `tcpSendRxt` that adjusts the sender congestion window. -/
def backOff (s : Send) (first : Bool) : Send :=
  let sndsst := if first then s.sndcwn else s.sndsst
  let sndsst := if s.sndwnd < sndsst then s.sndwnd / 2 else sndsst / 2
  { s with sndsst := if sndsst < s.sndmss then s.sndmss else sndsst, sndcwn := s.sndmss }

/-- How much data to send. -/
def tosend (s : Send) : Nat :=
  if s.sndwnd < s.pending then sub32 s.sndwnd s.wndused else sub32 s.pending s.wndused

end Send

namespace Device

/-- Record a computation of the amount to send in the history. -/
def noteTosend (d : Device) (x : Tosend) : Device :=
  { d with hist := { d.hist with tosends := d.hist.tosends ++ [x] } }

/-- `tcpSendData`: sends pending outbound data, including a FIN, if new data is ready for
transmission. -/
def tcpSendData (d : Device) : Device × Int :=
  let s := d.tcb.snd
  if s.sndmss = 0 then (d, SYSERR)
  -- if FIN was already sent, then cannot send more data
  else if s.sndflg.fin = true ∧ seqlt s.sndfin s.sndnxt then (d, SYSERR)
  -- if in retransmission or persist, cannot send data
  else if 0 < s.rxtcount ∨ s.sndflg.persist = true then (d, 0)
  -- if the send window is zero, schedule a persist event
  else if s.sndwnd = 0 then
    let d := d.modSnd fun s =>
      { s with sndflg := { s.sndflg with persist := true }, psttime := TCP_PST_INITTIME }
    ((d.tcpTimerSched d.tcb.snd.psttime .persist).1, 0)
  -- if (SNDNXT >= SNDUNA + SNDWND), then can't send data
  else if seqlte (seqadd s.snduna s.sndwnd) s.sndnxt then (d, 0)
  else if s.pending = s.wndused then
    if seqlt s.snduna s.sndnxt ∧ d.tcpTimerRemain .rxt ≤ 0 then
      ((d.tcpTimerSched s.rxttime .rxt).1, 0)
    else (d, 0)
  else
    let d := d.noteTosend ⟨s.pending, s.wndused, s.tosend⟩
    -- there is data to send and space in the window to send it
    d.transmit { ack := true, fin := s.sndflg.fin && decide (s.pending ≤ s.sndwnd) }
      s.wndused s.tosend

/-! ## The end of a connection and the timer -/

/-- `tcpFree`: free the control block. -/
def tcpFree (d : Device) : Device × Int :=
  if d.tcb.state = .closed then (d.signalMutex, SYSERR)
  else
    let d := (d.tcpTimerPurge none).1
    ({ d with tcb := { mutex := d.tcb.mutex } }.signalMutex, OK)

/-- `tcpSendRxt` behind the check of the number of retransmissions: send again what is not
acknowledged. -/
def retransmit (d : Device) (first : Bool) : Device × Int :=
  let s := d.tcb.snd
  -- reschedule retransmit event
  let d := (d.tcpTimerSched (min (s.rxttime * 2 ^ s.rxtcount) TCP_RXT_MAXTIME) .rxt).1
  -- check if the SYN needs to be resent
  if s.sndflg.syn = true ∧ s.snduna = s.iss then
    let control : Control := { syn := true, ack := d.tcb.rcv.rcvflg.syn }
    ((d.tcpSend control s.snduna d.tcb.rcv.rcvnxt 0 1).1.signalMutex, 1)
  else
    let pending := tcpSeqdiff s.sndnxt s.snduna
    -- determine if FIN is pending ACK
    let fin := decide (s.sndflg.fin = true ∧ seqlte s.snduna s.sndfin ∧ seqlt s.sndfin s.sndnxt)
    -- amount of data to send; a FIN beyond it is left out
    let tosend := min pending s.sndmss
    let control : Control := { ack := true, fin := fin && decide (pending ≤ s.sndmss) }
    let d := (d.tcpSend control s.snduna d.tcb.rcv.rcvnxt s.ostart tosend).1
    ((d.modSnd fun s => s.backOff first).signalMutex, tosend)

/-- `tcpSendRxt`: retransmits a segment of pending outbound data, including a SYN and a FIN. -/
def tcpSendRxt (d : Device) : Device × Int :=
  let s := d.tcb.snd
  -- verify there is data to retransmit and not in persist output state
  if ¬ seqlt s.snduna s.sndnxt ∨ s.sndflg.persist = true then (d.signalMutex, SYSERR)
  else
    let d := d.modSnd fun s => { s with rxtcount := s.rxtcount + 1 }
    if TCP_RXT_MAXCOUNT < d.tcb.snd.rxtcount then (d.tcpFree.1, 0)
    else d.retransmit (s.rxtcount = 0)

/-- `tcpSendPersist`: send a segment to probe a receiver who advertised a window size of 0. -/
def tcpSendPersist (d : Device) : Device × Int :=
  if d.tcb.snd.ocount = 0 then
    ((d.modFlg fun f => { f with persist := false }).signalMutex, SYSERR)
  else
    let d := d.modSnd fun s => { s with psttime := min (s.psttime * 2) TCP_PST_MAXTIME }
    let d := (d.tcpTimerSched d.tcb.snd.psttime .persist).1
    -- send as much as possible
    let s := d.tcb.snd
    let tosend := min s.ocount s.sndmss
    ((d.tcpSend { ack := true } s.snduna d.tcb.rcv.rcvnxt s.ostart tosend).1.signalMutex, tosend)

/-- `tcpTimerTrigger`: processes a timer event of the control block, once it has the mutex. -/
def tcpTimerTrigger (d : Device) : EvtType → Device × Int
  | .timewt => d.tcpFree
  | .rxt => d.tcpSendRxt
  | .persist => d.tcpSendPersist

end Device

end Xinu.Tcp
