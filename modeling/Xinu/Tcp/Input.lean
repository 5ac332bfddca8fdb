import Xinu.Tcp.Output

/-!
# Receiving

The functions that process a segment, from the point where `tcpRecv` has the mutex of the control
block. A result of `TCP_ERR_RESET` makes `tcpRecv` free the control block.
-/

namespace Xinu.Tcp

/-- `tcpRecvValid`: checks if an incoming segment is valid. Of a segment that finds no window only
ACK, URG and RST are left. -/
def Recv.tcpRecvValid (r : Recv) (pkt : TcpPkt) : TcpPkt × Bool :=
  let seglen := (pkt.seglen + pkt.control.syn.toNat + pkt.control.fin.toNat) % 2 ^ 16
  let availwnd := tcpSeqdiff r.rcvwnd r.rcvnxt
  let inWindow := fun seq => decide (seqlte r.rcvnxt seq ∧ seqlt seq r.rcvwnd)
  let result :=
    if seglen = 0 then
      if availwnd = 0 then decide (pkt.seqnum = r.rcvnxt) else inWindow pkt.seqnum
    else if availwnd = 0 then false
    else inWindow pkt.seqnum || inWindow (seqadd pkt.seqnum (seglen - 1))
  let pkt :=
    if availwnd = 0 then
      { pkt with
        control := { pkt.control with psh := false, syn := false, fin := false }
        tcplen := sub16 pkt.tcplen seglen }
    else pkt
  (pkt, result)

/-! ## Options -/

/-- The loop of `tcpRecvOpts` from the octet number `i` of the header on. -/
def optsLoop (octet : Nat → UInt8) (endopt : Nat) : Nat → Nat → Nat → Nat
  | 0, _, sndmss => sndmss
  | n + 1, i, sndmss =>
    -- until the end of the option list is encountered
    if (octet i).toNat ≠ 0 ∧ i < endopt then
      if (octet i).toNat = 2 then
        let mss := ((octet (i + 2)).toNat + (octet (i + 3)).toNat * 2 ^ 8) % 2 ^ 16
        optsLoop octet endopt n (i + 4) (sub16 mss TCP_HDR_LEN)
      else optsLoop octet endopt n (i + 1) sndmss
    else sndmss

/-- `tcpRecvOpts`: processes the options in an incoming packet. -/
def Send.tcpRecvOpts (s : Send) (pkt : TcpPkt) : Send :=
  let endopt := offset2octets pkt.offset
  if endopt = TCP_HDR_LEN then s
  else { s with sndmss := optsLoop pkt.octet endopt endopt TCP_HDR_LEN s.sndmss }

namespace Device

/-! ## Acknowledgements -/

/-- `tcpRecvRtt`: handle round trip time estimates based on an incoming acknowledgement. -/
def tcpRecvRtt (d : Device) : Device :=
  let r := d.tcpTimerPurge (some .rxt)
  let rtt := r.2
  let d := r.1
  let d :=
    if rtt ≠ SYSERR ∧ d.tcb.snd.rxtcount = 0 then
      d.modSnd fun s =>
        let sndrtt := if s.sndrtt = 0 then rtt * 8 else s.sndrtt
        let delta := rtt - sndrtt / 8
        let sndrtt := sndrtt + delta
        let sndrtd := s.sndrtd + ((delta.natAbs : Int) - s.sndrtd / 4)
        let rxttime := (sndrtt / 4 + sndrtd) / 2
        { s with
          sndrtt := sndrtt, sndrtd := sndrtd
          rxttime := if rxttime < TCP_RXT_MINTIME then TCP_RXT_MINTIME else rxttime }
    else d
  -- handle slow start/congestion window increase
  d.modSnd fun s =>
    { s with
      sndcwn :=
        if s.sndcwn < s.sndsst then add32 s.sndcwn s.sndmss
        else add32 s.sndcwn (s.sndmss * s.sndmss % 2 ^ 32 / s.sndcwn) }

/-- Record an adjustment of the send buffer in the history. -/
def noteAcked (d : Device) (x : Acked) : Device :=
  { d with hist := { d.hist with acks := d.hist.acks ++ [x] } }

end Device

/-- The amount of data that an ACK acknowledges, without the SYN and the FIN. -/
def Send.ackedAmount (s : Send) (acknum : Nat) : Nat :=
  let amt := tcpSeqdiff acknum s.snduna
  let amt := if s.sndflg.syn = true ∧ s.snduna = s.iss then sub32 amt 1 else amt
  if s.sndflg.fin = true ∧ seqlt s.sndfin acknum then sub32 amt 1 else amt

namespace Device

/-- The part of `tcpRecvAck` for an ACK of something sent and not yet acknowledged. -/
def acknowledge (d : Device) (acknum : Nat) : Device :=
  let amt := d.tcb.snd.ackedAmount acknum
  let d := d.noteAcked ⟨d.tcb.snd.ocount, amt⟩
  -- adjust send buffer
  let d := d.modSnd fun s =>
    { s with
      ostart := (s.ostart + amt) % TCP_OBLEN
      ocount := sub32 s.ocount amt
      obytes := add32 s.obytes amt }
  let d := if d.tcb.snd.ocount < TCP_OBLEN then d.signalWriters 1 else d
  let d := d.modSnd fun s => { s with snduna := acknum, rxtcount := 0 }
  -- remove any segments from retransmission queue which are ACKed
  let d := d.tcpRecvRtt
  let d :=
    if seqlt d.tcb.snd.snduna d.tcb.snd.sndnxt then
      (d.tcpTimerSched d.tcb.snd.rxttime .rxt).1
    else d
  d.modFlg fun f => { f with snddata := true }

/-- The part of `tcpRecvAck` that updates the send window. -/
def updateWindow (d : Device) (pkt : TcpPkt) : Device :=
  let s := d.tcb.snd
  -- if packet is not out of order
  if seqlt s.sndwl1 pkt.seqnum ∨ s.sndwl1 = pkt.seqnum ∧ seqlte s.sndwl2 pkt.acknum then
    let oldend := seqadd s.sndwl2 s.sndwnd
    let newend := seqadd pkt.acknum pkt.window
    let d := d.modSnd fun s =>
      { s with sndwnd := pkt.window, sndwl1 := pkt.seqnum, sndwl2 := pkt.acknum }
    -- if window increased, clear persist event
    if ¬ seqlte newend oldend then
      (d.tcpTimerPurge (some .persist)).1.modFlg fun f =>
        { f with persist := false, snddata := true }
    else d
  else d

/-- `tcpRecvAck`: process an acknowledgement of data in an incoming segment. -/
def tcpRecvAck (d : Device) (pkt : TcpPkt) : Device :=
  let d :=
    if seqlt d.tcb.snd.snduna pkt.acknum ∧ seqlte pkt.acknum d.tcb.snd.sndnxt then
      d.acknowledge pkt.acknum
    else d
  let d := d.updateWindow pkt
  -- send ACK in response to ACK of something not yet sent
  if seqlt d.tcb.snd.sndnxt pkt.acknum then d.modFlg fun f => { f with sndack := true } else d

/-! ## Data -/

end Device

namespace Recv

/-- The loop of `tcpRecvData` "copy data into buffer". -/
def copyLoop (start : Nat) (data : Nat → UInt8) : Nat → Recv → Recv
  | 0, r => r
  | n + 1, r =>
    let r := copyLoop start data n r
    let index := (start + n) % TCP_IBLEN
    { r with inbuf := store r.inbuf index (data n), imark := store r.imark index true }

/-- The loop of `tcpRecvData` "keep going until data is missing", and whether it has reached the
FIN. -/
def markLoop : Nat → Recv → Recv × Bool
  | 0, r => (r, false)
  | n + 1, r =>
    if r.icount < TCP_IBLEN ∧ r.imark r.inxt = true then
      let r :=
        { r with
          icount := r.icount + 1, ibytes := add32 r.ibytes 1, inxt := (r.inxt + 1) % TCP_IBLEN
          rcvnxt := seqadd r.rcvnxt 1 }
      -- if FIN has been seen, stop when we reach it
      if r.rcvflg.fin = true ∧ r.rcvnxt = r.rcvfin then (r, true) else markLoop n r
    else (r, false)

/-- Where a segment goes: its first octet to keep, its length from there, the place in the buffer,
and the octets of window left from there. -/
structure Fit where
  skip : Nat
  seglen : Nat
  start : Nat
  window : Nat

/-- Copy only part of the data if there is not enough buffer space. -/
def Fit.kept (x : Fit) : Nat := if x.window < x.seglen then x.window else x.seglen

/-- Calculate where to start in segment and buffer. -/
def fit (r : Recv) (pkt : TcpPkt) : Fit :=
  let window := tcpSeqdiff r.rcvwnd r.rcvnxt
  if seqlt pkt.seqnum r.rcvnxt then
    let offset := tcpSeqdiff r.rcvnxt pkt.seqnum
    ⟨offset, sub16 pkt.seglen offset, r.inxt, sub32 window offset⟩
  else
    let offset := tcpSeqdiff pkt.seqnum r.rcvnxt
    ⟨0, pkt.seglen, (r.inxt + offset) % TCP_IBLEN, sub32 window offset⟩

end Recv

namespace Device

/-- The part of `tcpRecvData` for a segment that starts at the beginning of the window. It returns
whether the FIN has been reached. -/
def advance (d : Device) (seglen : Nat) : Device × Bool :=
  -- ACK at least current data
  let d := d.modRcv fun r =>
    { r with
      icount := add32 r.icount seglen, ibytes := add32 r.ibytes seglen
      inxt := (r.inxt + seglen) % TCP_IBLEN, rcvnxt := seqadd r.rcvnxt seglen }
  let l := d.tcb.rcv.markLoop TCP_IBLEN
  let d := d.modRcv fun _ => l.1
  -- signal readers
  let d := if d.tcb.rcv.readers < 1 then d.signalReaders 1 else d
  (d.modFlg fun f => { f with sndack := true }, l.2)

/-- The part of `tcpRecvData` that processes data. It returns the length that is left of the
segment, and its FIN bit. -/
def recvText (d : Device) (pkt : TcpPkt) : Device × Nat × Bool :=
  if 0 < pkt.seglen ∧ (d.tcb.state = .estab ∨ d.tcb.state = .finwt1 ∨ d.tcb.state = .finwt2) then
    let x := d.tcb.rcv.fit pkt
    -- a segment that is cut off has lost its FIN
    let fin := pkt.control.fin && decide (x.seglen ≤ x.window)
    let inxt := d.tcb.rcv.inxt
    let d := d.modRcv fun r => r.copyLoop x.start (fun i => pkt.data (x.skip + i)) x.kept
    -- if started at beginning of window, we can ACK
    if x.start = inxt then
      let r := d.advance x.kept
      (r.1, x.kept, fin || r.2)
    else (d, x.kept, fin)
  else (d, pkt.seglen, pkt.control.fin)

/-- The part of `tcpRecvData` for a FIN that is expected next. -/
def processFin (d : Device) : Device :=
  let d := if d.tcb.rcv.readers < 0 then d.signalReaders (-d.tcb.rcv.readers) else d
  let next := fun d : Device => d.modRcv fun r => { r with rcvnxt := seqadd r.rcvnxt 1 }
  let again := fun d : Device => ((d.tcpTimerPurge none).1.tcpTimerSched TCP_TWOMSL .timewt).1
  let d :=
    match d.tcb.state with
    | .synrecv | .estab => (next d).setState .closewt
    | .finwt1 =>
      let d := next d
      if seqlt d.tcb.snd.sndfin d.tcb.snd.snduna then
        ((d.tcpTimerSched TCP_TWOMSL .timewt).1.tcpTimerPurge none).1.setState .timewt
      else d.setState .closing
    | .finwt2 => again (next d)
    | .timewt => again d
    | _ => d
  d.modFlg fun f => { f with sndack := true }

/-- Releasing the readers that wait changes their semaphore at most. -/
theorem released_readers (d : Device) : ∃ k,
    (if d.tcb.rcv.readers < 0 then d.signalReaders (-d.tcb.rcv.readers) else d) =
      d.signalReaders k := by
  split
  · exact ⟨_, rfl⟩
  · refine ⟨0, ?_⟩
    unfold signalReaders modRcv
    dsimp only
    rw [Int.add_zero]

/-- The part of `tcpRecvData` that processes the FIN bit of a segment with `seglen` octets. -/
def recvFin (d : Device) (seqnum seglen : Nat) : Device :=
  -- if FIN was not received previously, store FIN sequence number
  let d :=
    if d.tcb.rcv.rcvflg.fin = true then d
    else d.modRcv fun r =>
      { r with rcvfin := seqadd seqnum seglen, rcvflg := { r.rcvflg with fin := true } }
  -- if FIN is expected next, process the FIN now
  if d.tcb.rcv.rcvnxt = d.tcb.rcv.rcvfin then d.processFin else d

/-- The end of `tcpRecvData`: send data and an ACK if needed. -/
def respond (d : Device) : Device :=
  let d := if d.tcb.snd.sndflg.snddata = true then d.tcpSendData.1 else d
  if d.tcb.snd.sndflg.sndack = true then d.tcpSendAck.1 else d

/-- `tcpRecvData`: processes the data in an incoming packet. -/
def tcpRecvData (d : Device) (pkt : TcpPkt) : Device × Int :=
  let r := d.recvText pkt
  let d := if r.2.2 then r.1.recvFin pkt.seqnum r.2.1 else r.1
  (d.respond, OK)

/-! ## Segments -/

/-- `tcpRecvListen`: processes an incoming packet in the LISTEN state. -/
def tcpRecvListen (d : Device) (pkt : TcpPkt) (src : NetAddr) : Device × Int :=
  if pkt.control.rst then (d, OK)
  -- should not receive ACK, send reset if received
  else if pkt.control.ack then (d.modFlg fun f => { f with sndrst := true }, OK)
  else if pkt.control.syn then
    -- update receive information
    let d := d.modRcv fun r =>
      { r with
        rcvnxt := seqadd pkt.seqnum 1, rcvwnd := seqadd pkt.seqnum TCP_INIT_WND
        rcvflg := { r.rcvflg with syn := true } }
    let d := d.modFlg fun f => { f with sndack := true }
    -- finish specifying connection, if not already set
    let d := { d with tcb := { d.tcb with
      remotept := if d.tcb.remotept = 0 then pkt.srcpt else d.tcb.remotept
      remoteip := if d.tcb.remoteip.type = 0 then src else d.tcb.remoteip } }
    -- update send information
    let d := d.modSnd fun s => { s with sndwnd := pkt.window, sndwl1 := pkt.seqnum }
    let d := d.tcpSendSyn.1
    let d := if d.tcb.snd.sndflg.sndack then d.tcpSendAck.1 else d
    (d.setState .synrecv).tcpRecvData pkt
  else (d, OK)

/-- `tcpRecvSynsent` from the point where it processes the SYN. -/
def synchronize (d : Device) (pkt : TcpPkt) (ackAccept : Bool) : Device × Int :=
  let d := d.modRcv fun r =>
    { r with
      rcvnxt := seqadd pkt.seqnum 1, rcvwnd := seqadd pkt.seqnum TCP_INIT_WND
      rcvflg := { r.rcvflg with syn := true } }
  let d := d.modSnd fun s =>
    { s with
      sndwnd := pkt.window, sndwl1 := pkt.seqnum, sndflg := { s.sndflg with sndack := true }
      snduna := if ackAccept then pkt.acknum else s.snduna
      sndwl2 := if ackAccept then pkt.acknum else s.sndwl2
      rxtcount := 0 }
  -- remove any segments from retransmission queue which are ACKed
  let d := (d.tcpTimerPurge (some .rxt)).1
  let d :=
    if seqlt d.tcb.snd.snduna d.tcb.snd.sndnxt then
      (d.tcpTimerSched d.tcb.snd.rxttime .rxt).1
    else d
  if seqlt d.tcb.snd.iss d.tcb.snd.snduna then
    -- signal connection open
    let d := (d.setState .estab).signalOpenclose
    (d.modFlg fun f => { f with snddata := true }).tcpRecvData pkt
  else
    let d := d.setState .synrecv
    -- this send is like a retransmission
    let d := (d.tcpSend { syn := true, ack := true } d.tcb.snd.iss d.tcb.rcv.rcvnxt 0 1).1
    d.tcpRecvData pkt

/-- `tcpRecvSynsent`: processes an incoming packet in the SYNSENT state. -/
def tcpRecvSynsent (d : Device) (pkt : TcpPkt) : Device × Int :=
  let s := d.tcb.snd
  -- if ACK is unacceptable send reset
  if pkt.control.ack = true ∧ (seqlte pkt.acknum s.iss ∨ seqlt s.sndnxt pkt.acknum) then
    if pkt.control.rst then (d, OK) else (d.modFlg fun f => { f with sndrst := true }, OK)
  else
    let ackAccept := decide
      (pkt.control.ack = true ∧ seqlte s.snduna pkt.acknum ∧ seqlte pkt.acknum s.sndnxt)
    if pkt.control.rst then (d, if ackAccept then TCP_ERR_RESET else OK)
    else if pkt.control.syn then d.synchronize pkt ackAccept
    else (d, OK)

/-- The switch of `tcpRecvOther` that processes the ACK bit; `none` where it goes on with the
data. -/
def recvAckState (d : Device) (pkt : TcpPkt) : Device × Option Int :=
  let s := d.tcb.snd
  match d.tcb.state with
  | .synrecv =>
    if seqlte s.snduna pkt.acknum ∧ seqlte pkt.acknum s.sndnxt then
      (((d.setState .estab).signalOpenclose).tcpRecvAck pkt, none)
    else (d.modFlg fun f => { f with sndrst := true }, some OK)
  | .closewt | .estab => (d.tcpRecvAck pkt, none)
  | .finwt1 =>
    let d := d.tcpRecvAck pkt
    -- if FIN is now acknowledged, enter FINWT2 state
    if seqlte d.tcb.snd.sndfin d.tcb.snd.snduna then (d.signalOpenclose.setState .finwt2, none)
    else (d, none)
  | .finwt2 =>
    let d := d.tcpRecvAck pkt
    -- if no retransmissions remain, acknowledge close as OK
    (if d.tcpTimerRemain .rxt ≤ 0 then d.signalOpenclose else d, none)
  | .closing =>
    let d := d.tcpRecvAck pkt
    -- if FIN is now acknowledged, enter TIMEWT state
    if seqlte d.tcb.snd.sndfin d.tcb.snd.snduna then
      (((d.signalOpenclose.setState .finwt2).tcpTimerSched TCP_TWOMSL .timewt).1, none)
    else (d, none)
  | .lastack =>
    -- if FIN is now acknowledged, delete TCB and close
    if seqlte s.sndfin s.snduna then (d.signalOpenclose, some TCP_ERR_RESET) else (d, none)
  | .timewt => (((d.tcpTimerPurge none).1.tcpTimerSched TCP_TWOMSL .timewt).1, none)
  | _ => (d, none)

/-- `tcpRecvOther`: processes an incoming packet in the states from SYNRECV on. -/
def tcpRecvOther (d : Device) (pkt : TcpPkt) : Device × Int :=
  let v := d.tcb.rcv.tcpRecvValid pkt
  let pkt := v.1
  if v.2 = false then
    -- if segment is unacceptable, drop it, and ACK unless RST bit is set
    if pkt.control.rst then (d, OK) else (d.tcpSendAck.1, OK)
  else if pkt.control.rst then
    if d.tcb.state = .synrecv then
      let d := ((d.modSnd fun s => { s with rxtcount := 0 }).tcpTimerPurge (some .rxt)).1
      if d.tcb.opentype = 0 then (d.setState .listen, OK) else (d, TCP_ERR_RESET)
    else (d, TCP_ERR_RESET)
  -- SYN must be in the window, this is an error
  else if pkt.control.syn then (d.modFlg fun f => { f with sndrst := true }, TCP_ERR_RESET)
  -- ACK bit should be set, drop segment if not
  else if pkt.control.ack = false then (d, OK)
  else
    match d.recvAckState pkt with
    | (d, some result) => (d, result)
    | (d, none) => d.tcpRecvData pkt

/-- `tcpRecv`: processes an incoming packet, once it has the mutex. -/
def tcpRecv (d : Device) (pkt : TcpPkt) (src : NetAddr) : Device × Int :=
  if d.tcb.state = .closed then (d.signalMutex, OK)
  else
    let d := d.modSnd fun s => s.tcpRecvOpts pkt
    let r :=
      match d.tcb.state with
      | .closed => (d, 0)
      | .listen => d.tcpRecvListen pkt src
      | .synsent => d.tcpRecvSynsent pkt
      | _ => d.tcpRecvOther pkt
    -- if connection was reset, close the connection
    if r.2 = TCP_ERR_RESET then r.1.tcpFree else (r.1.signalMutex, r.2)

end Device

end Xinu.Tcp
