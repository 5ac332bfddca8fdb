import Xinu.Tcp.Input

/-!
# The calls of a TCP device

Opening, closing, reading and writing, and the device as a machine. `tcpRead` and `tcpWrite` work in
rounds, each with the mutex of the control block held; a round is one step, and so is the check that
comes before the first. A segment that comes in is a step, and so is a timer event.
-/

namespace Xinu.Tcp

/-- The arguments of `tcpOpen`, with what it is given on the way: the port of `allocPort`, the time,
and whether the semaphores can be created. -/
structure OpenArgs where
  localip : Option NetAddr
  remoteip : Option NetAddr
  localpt : Nat
  remotept : Nat
  mode : Nat
  port : Nat
  clktime : Nat
  sems : Bool
deriving DecidableEq

namespace Device

/-- `tcpIss`: provides an initial send sequence number. -/
def tcpIss (d : Device) (clktime : Nat) : Nat :=
  add32 (if d.nextseq = 0 then clktime else d.nextseq) TCP_SEQINCR

/-- `tcpSetup`: initializes a transmission control block. -/
def tcpSetup (d : Device) (clktime : Nat) (sems : Bool) : Device × Int :=
  let iss := d.tcpIss clktime
  let tcb := { d.tcb with
    openclose := 0
    rcv := { d.tcb.rcv with
      istart := 0, inxt := 0, icount := 0, ibytes := 0, readers := 0
      rcvmss := TCP_INIT_MSS - TCP_HDR_LEN, rcvflg := {} }
    snd := { d.tcb.snd with
      ostart := 0, ocount := 0, obytes := 0, writers := 1
      iss := iss, snduna := iss, sndnxt := iss, sndwl2 := iss
      sndmss := TCP_INIT_MSS, sndflg := {}, sndcwn := TCP_INIT_MSS, sndsst := TCP_MAX_WND
      rxttime := TCP_RXT_INITTIME, rxtcount := 0, psttime := TCP_PST_INITTIME } }
  ({ d with tcb := tcb, nextseq := iss, hist := { d.hist with written := [], delivered := [] } },
    if sems then OK else SYSERR)

/-- `tcpOpenActive`: actively opens a connection. -/
def tcpOpenActive (d : Device) : Device × Int :=
  -- verify connection is fully specified
  if d.tcb.remotept = 0 ∨ d.tcb.remoteip.type = 0 ∨ d.tcb.localip.type = 0 then
    (d, TCP_ERR_NOSPEC)
  else
    let r := d.tcpSendSyn
    if r.2 = SYSERR then (r.1, SYSERR) else (r.1.setState .synsent, OK)

/-- `tcpOpen` behind its checks, up to its call of `wait` for the other side. -/
def openWith (d : Device) (a : OpenArgs) (localip : NetAddr) : Device × Int :=
  let d := { d with tcb := { d.tcb with
    localpt := if a.localpt = 0 then a.port else a.localpt
    localip := localip
    remotept := a.remotept
    remoteip := a.remoteip.getD { d.tcb.remoteip with type := 0 }
    opentype := a.mode } }
  let r := d.tcpSetup a.clktime a.sems
  let d := r.1
  if r.2 = SYSERR then (d.tcpFree.1, SYSERR)
  -- perform appropriate action and change state
  else if a.mode = 0 then ((d.setState .listen).signalMutex.waitOpenclose, OK)
  else if a.mode = 1 then
    let r := d.tcpOpenActive
    if r.2 = SYSERR then (r.1.tcpFree.1, SYSERR) else (r.1.signalMutex.waitOpenclose, OK)
  else (d.tcpFree.1, SYSERR)

/-- `tcpOpen`: associate a tcp with a network device. -/
def tcpOpen (d : Device) (a : OpenArgs) : Device × Int :=
  let d := { d with tcb := { d.tcb with devstate := true } }
  -- verify device is not already open
  if d.tcb.state ≠ .closed ∧ d.tcb.state ≠ .listen then (d.signalMutex, SYSERR)
  else
    match a.localip with
    | none => ({ d with tcb := { d.tcb with devstate := false } }.signalMutex, SYSERR)
    | some localip => d.openWith a localip

/-- `sndfin` and the flag, where `tcpClose` sets them. -/
def requestFin (d : Device) : Device :=
  d.modSnd fun s =>
    { s with sndfin := seqadd s.snduna s.ocount, sndflg := { s.sndflg with fin := true } }

/-- `signaln` on the semaphore of the readers or writers, to return those that wait with an error.
-/
def releaseReaders (d : Device) : Device :=
  if d.tcb.rcv.readers < 0 then d.signalReaders (-d.tcb.rcv.readers) else d

def releaseWriters (d : Device) : Device :=
  if d.tcb.snd.writers < 0 then d.signalWriters (-d.tcb.snd.writers) else d

/-- The end of `tcpClose`: send data if needed, and wait for the other side. -/
def closeSend (d : Device) : Device × Int :=
  let d := if d.tcb.snd.sndflg.snddata = true then d.tcpSendData.1 else d
  (d.signalMutex.waitOpenclose, OK)

/-- `tcpClose`: close a TCP device. -/
def tcpClose (d : Device) : Device × Int :=
  let data := fun d : Device => d.modFlg fun f => { f with snddata := true }
  match d.tcb.state with
  | .closed => ({ d with tcb := { d.tcb with devstate := false } }.signalMutex, SYSERR)
  | .synsent => d.releaseWriters.releaseReaders.tcpFree.1.closeSend
  | .listen => d.releaseReaders.tcpFree.1.closeSend
  | .synrecv =>
    let d := d.requestFin
    if d.tcb.snd.ocount = 0 then ((data d).setState .finwt1).closeSend else d.closeSend
  | .estab => ((data d.requestFin).setState .finwt1).closeSend
  | .closewt => ((data d.requestFin).setState .lastack).closeSend
  | .finwt1 | .finwt2 | .closing | .lastack | .timewt => (d.signalMutex, SYSERR)

/-! ## Writing -/

/-- `stateCheck` of `tcpWrite`: verifies the connection is in an appropriate state. -/
def writeStateCheck (d : Device) : Device × Int :=
  match d.tcb.state with
  | .closed => (d.signalMutex, TCP_ERR_NOCONN)
  | .listen =>
    -- if foreign socket is specified change to active connection
    if d.tcb.remotept ≠ 0 ∧ d.tcb.remoteip.type ≠ 0 then
      let r := (d.setState .synsent).tcpOpenActive
      if r.2 ≠ OK then (r.1.signalMutex, SYSERR)
      else
        -- attempt to send SYN
        let d := if r.1.tcb.snd.sndflg.syn = true then r.1.tcpSendSyn.1 else r.1
        (d.signalMutex, TCP_ERR_NOSPEC)
    else (d.signalMutex, TCP_ERR_NOSPEC)
  | .finwt1 | .finwt2 | .closing | .lastack | .timewt => (d.signalMutex, TCP_ERR_CLOSING)
  | .synsent | .synrecv | .estab | .closewt => (d, OK)

/-- `tcpWrite` up to its loop. -/
def tcpWriteCheck (d : Device) : Device × Int :=
  let r := d.writeStateCheck
  (r.1.signalMutex, r.2)

end Device

/-- The inner loop of `tcpWrite`: the send variables, and how many octets it has taken. -/
def Send.writeLoop : List UInt8 → Send → Send × Nat
  | [], s => (s, 0)
  | ch :: buffer, s =>
    if s.ocount < TCP_OBLEN then
      let r := Send.writeLoop buffer
        { s with
          outbuf := store s.outbuf ((s.ostart + s.ocount) % TCP_OBLEN) ch
          ocount := s.ocount + 1 }
      (r.1, r.2 + 1)
    else (s, 0)

namespace Device

/-- One round of the loop of `tcpWrite` with what is left of its buffer. -/
def tcpWriteRound (d : Device) (buffer : List UInt8) : Device × Int :=
  let r := d.writeStateCheck
  let d := r.1
  if r.2 ≠ OK then (d.signalWriters 1, r.2)
  else
    let w := d.tcb.snd.writeLoop buffer
    let d := d.modSnd fun _ => w.1
    let d := { d with hist := { d.hist with written := d.hist.written ++ buffer.take w.2 } }
    -- if space remains, another writer can write
    let d := if d.tcb.snd.ocount < TCP_OBLEN then d.signalWriters 1 else d
    let d := if d.tcb.state = .estab ∨ d.tcb.state = .closewt then d.tcpSendData.1 else d
    (d.signalMutex, w.2)

/-! ## Reading -/

/-- `stateCheck` of `tcpRead`. -/
def readStateCheck (d : Device) : Device × Int :=
  match d.tcb.state with
  | .closed => (d.signalMutex, TCP_ERR_NOCONN)
  | .closewt =>
    -- no more data will come, but satisfy with already received data
    if 0 < d.tcb.rcv.icount then (d, OK) else (d.signalMutex, TCP_ERR_CLOSING)
  | .closing | .lastack | .timewt => (d.signalMutex, TCP_ERR_CLOSING)
  | .listen | .synsent | .synrecv | .estab | .finwt1 | .finwt2 => (d, OK)

/-- `tcpRead` up to its loop. -/
def tcpReadCheck (d : Device) : Device × Int :=
  let r := d.readStateCheck
  if r.2 ≠ OK then (r.1, SYSERR) else (r.1.signalMutex, OK)

end Device

/-- The inner loop of `tcpRead`: the receive variables, and the octets it has taken. -/
def Recv.readLoop : Nat → Recv → Recv × List UInt8
  | 0, r => (r, [])
  | len + 1, r =>
    if 0 < r.icount then
      let ch := r.inbuf r.istart
      let l := Recv.readLoop len
        { r with
          imark := store r.imark r.istart false
          istart := (r.istart + 1) % TCP_IBLEN
          icount := r.icount - 1 }
      (l.1, ch :: l.2)
    else (r, [])

namespace Device

/-- One round of the loop of `tcpRead` with room for `len` octets. -/
def tcpReadRound (d : Device) (len : Nat) : Device × Int :=
  let r := d.readStateCheck
  let d := r.1
  if r.2 ≠ OK then (d, SYSERR)
  else
    let l := d.tcb.rcv.readLoop len
    let d := d.modRcv fun _ => l.1
    let d := { d with hist := { d.hist with delivered := d.hist.delivered ++ l.2 } }
    -- if data remains, another reader can read
    let d := if 0 < d.tcb.rcv.icount ∧ d.tcb.rcv.readers < 1 then d.signalReaders 1 else d
    (d.signalMutex, l.2.length)

/-! ## What the checks do -/

/-- A check of `tcpRead` that fails gives the mutex back. -/
theorem readStateCheck_cases (d : Device) :
    d.readStateCheck = (d, OK) ∨ ∃ err, err ≠ OK ∧ d.readStateCheck = (d.signalMutex, err) := by
  unfold readStateCheck
  cases d.tcb.state with
  | closed => exact .inr ⟨_, by decide, rfl⟩
  | closewt =>
    dsimp only
    split
    · exact .inl rfl
    · exact .inr ⟨_, by decide, rfl⟩
  | closing | lastack | timewt => exact .inr ⟨_, by decide, rfl⟩
  | listen | synsent | synrecv | estab | finwt1 | finwt2 => exact .inl rfl

theorem tcpReadCheck_fst (d : Device) : d.tcpReadCheck.1 = d.signalMutex := by
  unfold tcpReadCheck
  rcases d.readStateCheck_cases with hcheck | ⟨err, herr, hcheck⟩ <;> rw [hcheck]
  · rfl
  · exact congrArg Prod.fst (if_pos herr)

/-- A check of `tcpWrite` that fails gives the mutex back; of a device that listens it may open the
connection. -/
theorem writeStateCheck_cases {d : Device} (hst : d.tcb.state ≠ .listen) :
    (d.writeStateCheck = (d, OK) ∧ d.tcb.state ≠ .closed) ∨
      ∃ err, err ≠ OK ∧ d.writeStateCheck = (d.signalMutex, err) := by
  unfold writeStateCheck
  cases h : d.tcb.state with
  | listen => exact absurd h hst
  | closed | finwt1 | finwt2 | closing | lastack | timewt => exact .inr ⟨_, by decide, rfl⟩
  | synsent | synrecv | estab | closewt => exact .inl ⟨rfl, nofun⟩

/-! ## The machine -/

/-- `tcpTimer` takes the first event off the queue; one of this control block is triggered. The code
releases `tcpmutex` in between, so that a call can come before the trigger; here the two are one
step. -/
def expire (d : Device) : Device :=
  let r := d.timer.take
  let d := { d with timer := r.1 }
  match r.2 with
  | none => d
  | some e => if e.tcbptr = d.minor then (d.waitMutex.tcpTimerTrigger e.type).1 else d

/-- What holds whether or not the event taken off is triggered. -/
theorem expire_rule {Q : Device → Prop} {d : Device} (htake : Q { d with timer := d.timer.take.1 })
    (htrigger : ∀ type,
      Q (({ d with timer := d.timer.take.1 } : Device).waitMutex.tcpTimerTrigger type).1) :
    Q d.expire := by
  unfold expire
  dsimp only
  cases d.timer.take.2 with
  | none => exact htake
  | some e =>
    dsimp only
    split_ifs
    · exact htrigger e.type
    · exact htake

end Device

/-- The steps of a TCP device. -/
inductive Call
  | open (args : OpenArgs)
  | close
  /-- the check of `tcpWrite`, its wait for space, and a round of its loop -/
  | writeCheck
  | writeWait
  | write (buffer : List UInt8)
  /-- the check of `tcpRead`, its wait for data, and a round of its loop -/
  | readCheck
  | readWait
  | read (len : Nat)
  /-- a segment comes in -/
  | recv (pkt : TcpPkt) (src : NetAddr)
  /-- the first timer event expires -/
  | expire
  /-- time passes -/
  | elapse (time : Nat)

namespace Device

/-- One step of the device. -/
def exec (d : Device) : Call → Device
  | .open args => (d.waitMutex.tcpOpen args).1
  | .close => d.waitMutex.tcpClose.1
  | .writeCheck => d.waitMutex.tcpWriteCheck.1
  | .writeWait => d.signalWriters (-1)
  | .write buffer => (d.waitMutex.tcpWriteRound buffer).1
  | .readCheck => d.waitMutex.tcpReadCheck.1
  | .readWait => d.signalReaders (-1)
  | .read len => (d.waitMutex.tcpReadRound len).1
  | .recv pkt src => (d.waitMutex.tcpRecv pkt src).1
  | .expire => d.expire
  | .elapse time => { d with timer := d.timer.elapse time }

/-- A step that needs the mutex finds it free. -/
def Enabled (d : Device) : Call → Prop
  | .writeWait | .readWait | .elapse _ => True
  | .expire => ∀ e ∈ d.timer.take.2, e.tcbptr = d.minor → 0 < d.tcb.mutex
  | _ => 0 < d.tcb.mutex

instance (d : Device) : ∀ c : Call, Decidable (d.Enabled c) := by
  rintro ⟨⟩ <;> unfold Device.Enabled <;> infer_instance

/-- A TCP device before it is opened, with an empty timer queue. -/
def closed (minor : Nat) (net : List Sending) (nextseq : Nat) : Device where
  minor := minor
  tcb := { mutex := 1 }
  timer := ⟨fun i => ⟨decide (i = TCP_EVT_HEAD), 0, 0, .timewt, 0, none⟩, 0⟩
  net := net
  nextseq := nextseq
  hist := {}

end Device

/-- A TCP device with its callers, its network and its timer. -/
def tcpMachine : Machine Device Call where
  enabled := Device.Enabled
  next := Device.exec

instance (d : Device) (c : Call) : Decidable (tcpMachine.enabled d c) :=
  inferInstanceAs (Decidable (d.Enabled c))

end Xinu.Tcp
