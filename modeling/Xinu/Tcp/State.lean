import Xinu.Kernel.State
import Xinu.Tcp.Seq

/-!
# The state of a TCP connection

A transmission control block, the timer events that belong to it, and the segments it exchanges with
the other side. The fields of `struct tcb` are grouped as the header groups them, into what is about
receiving and what is about sending. Its semaphores are their counts.
-/

namespace Xinu.Tcp

/-! ## Constants -/

/-- Number of TCP devices, from the platforms' configuration. -/
def NTCP : Nat := 7

def TCP_HDR_LEN : Nat := 20

/-- Size of the input and of the output buffer. -/
def TCP_IBLEN : Nat := 16384
def TCP_OBLEN : Nat := 16384

/-- Initial sizes. -/
def TCP_INIT_MSS : Nat := 1440 + TCP_HDR_LEN
def TCP_INIT_WND : Nat := TCP_INIT_MSS
def TCP_MAX_WND : Nat := 65535

/-- Largest packet of the network. -/
def NET_MAX_PKTLEN : Nat := 1598

/-- Amount by which successive connections increment the initial sequence number. -/
def TCP_SEQINCR : Nat := 904

/-- Timer durations. -/
def TCP_TWOMSL : Int := 5 * 1000
def TCP_PST_INITTIME : Int := 3 * 1000
def TCP_PST_MAXTIME : Int := 64 * 1000
def TCP_RXT_MAXCOUNT : Nat := 10
def TCP_RXT_INITTIME : Int := 500
def TCP_RXT_MINTIME : Int := 100
def TCP_RXT_MAXTIME : Int := 32 * 1000

/-- Errors. -/
def TCP_ERR_RESET : Int := -2
def TCP_ERR_CLOSING : Int := -4
def TCP_ERR_NOCONN : Int := -5
def TCP_ERR_NOSPEC : Int := -6

/-- Difference of two 16-bit words. -/
def sub16 (a b : Nat) : Nat := (a + (2 ^ 16 - b % 2 ^ 16)) % 2 ^ 16

/-- `offset2octets`. -/
def offset2octets (x : Nat) : Nat := x / 16 * 4

/-! ## States, flags and control bits -/

/-- The connection states `TCP_CLOSED` to `TCP_TIMEWT`. -/
inductive TcpState
  | closed
  | listen
  | synsent
  | synrecv
  | estab
  | finwt1
  | finwt2
  | closewt
  | closing
  | lastack
  | timewt
deriving DecidableEq, Repr, Inhabited

/-- The flags `TCP_FLG_SYN` to `TCP_FLG_PERSIST` of `sndflg` and `rcvflg`. -/
structure Flags where
  /-- SYN has been sent or received -/
  syn : Bool := false
  /-- FIN has been sent or received -/
  fin : Bool := false
  /-- need to send an ACK -/
  sndack : Bool := false
  /-- need to send data -/
  snddata : Bool := false
  /-- need to send a RST -/
  sndrst : Bool := false
  /-- in persist output state -/
  persist : Bool := false
deriving DecidableEq, Repr, Inhabited

/-- The control bits `TCP_CTRL_URG` to `TCP_CTRL_FIN`. -/
structure Control where
  urg : Bool := false
  ack : Bool := false
  psh : Bool := false
  rst : Bool := false
  syn : Bool := false
  fin : Bool := false
deriving DecidableEq, Repr, Inhabited

/-- `struct netaddr`: the type, `NULL` if the address is not given, and the address. -/
structure NetAddr where
  type : Nat
  addr : List Nat
deriving DecidableEq, Repr, Inhabited

/-! ## Segments -/

/-- `struct tcpPkt` as it comes in, its header in host order. The octets count from the start of the
header, and there are `tcplen` of them. -/
structure TcpPkt where
  srcpt : Nat
  seqnum : Nat
  acknum : Nat
  offset : Nat
  control : Control
  window : Nat
  tcplen : Nat
  octet : Nat → UInt8

/-- `tcpSeglen`, as the `ushort` it is assigned to. -/
def TcpPkt.seglen (pkt : TcpPkt) : Nat := sub16 pkt.tcplen (offset2octets pkt.offset)

/-- The octet number `i` of the data. -/
def TcpPkt.data (pkt : TcpPkt) (i : Nat) : UInt8 := pkt.octet (offset2octets pkt.offset + i)

/-- A segment that `tcpSend` hands to `ipv4Send`. -/
structure Segment where
  localip : NetAddr
  remoteip : NetAddr
  srcpt : Nat
  dstpt : Nat
  seqnum : Nat
  acknum : Nat
  control : Control
  window : Nat
  /-- the option of a SYN -/
  mss : Option Nat
  data : List UInt8
deriving DecidableEq, Repr

/-- What becomes of a segment: there is no packet buffer for it, or it is sent with a result. -/
inductive Sending
  | nobuf
  | sent (result : Int)
deriving DecidableEq, Repr

/-! ## The transmission control block -/

/-- The receive variables and the receive buffer of `struct tcb`. -/
structure Recv where
  rcvnxt : Nat := 0
  rcvwnd : Nat := 0
  rcvfin : Nat := 0
  rcvmss : Nat := 0
  rcvflg : Flags := {}
  readers : Int := 0
  istart : Nat := 0
  icount : Nat := 0
  inxt : Nat := 0
  inbuf : Nat → UInt8 := fun _ => 0
  imark : Nat → Bool := fun _ => false
  ibytes : Nat := 0

/-- The send variables and the send buffer of `struct tcb`. -/
structure Send where
  snduna : Nat := 0
  sndnxt : Nat := 0
  sndwnd : Nat := 0
  sndcwn : Nat := 0
  sndsst : Nat := 0
  sndwl1 : Nat := 0
  sndwl2 : Nat := 0
  iss : Nat := 0
  sndfin : Nat := 0
  sndmss : Nat := 0
  sndflg : Flags := {}
  sndrtt : Int := 0
  sndrtd : Int := 0
  rxttime : Int := 0
  rxtcount : Nat := 0
  psttime : Int := 0
  writers : Int := 0
  ostart : Nat := 0
  ocount : Nat := 0
  outbuf : Nat → UInt8 := fun _ => 0
  obytes : Nat := 0

/-- `struct tcb`. -/
structure Tcb where
  state : TcpState := .closed
  /-- `TCP_ALLOC` rather than `TCP_FREE` -/
  devstate : Bool := false
  mutex : Int
  localpt : Nat := 0
  remotept : Nat := 0
  localip : NetAddr := ⟨0, []⟩
  remoteip : NetAddr := ⟨0, []⟩
  /-- `TCP_PASSIVE` is 0 and `TCP_ACTIVE` is 1 -/
  opentype : Nat := 0
  openclose : Int := 0
  rcv : Recv := {}
  snd : Send := {}

/-! ## Timer events -/

/-- The events `TCP_EVT_TIMEWT`, `TCP_EVT_RXT` and `TCP_EVT_PERSIST`. -/
inductive EvtType
  | timewt
  | rxt
  | persist
deriving DecidableEq, Repr, Inhabited

/-- `struct tcpEvent`; `tcbptr` is the index of the control block in `tcptab`. -/
structure TcpEvent where
  used : Bool
  time : Int
  remain : Int
  type : EvtType
  tcbptr : Nat
  next : Option Nat
deriving DecidableEq, Repr, Inhabited

/-- The table of timer events with the position of its allocator. -/
structure Timer where
  tcptimertab : Nat → TcpEvent
  nextevt : Nat

/-! ## The device -/

/-- One computation of the amount to send: the amount pending, the window used, and the result. -/
structure Tosend where
  pending : Nat
  wndused : Nat
  tosend : Nat
deriving DecidableEq, Repr

/-- One adjustment of the send buffer: the octets in it and the amount acknowledged. -/
structure Acked where
  ocount : Nat
  amt : Nat
deriving DecidableEq, Repr

/-- What the code has done. No code reads it. -/
structure History where
  /-- segments handed to `ipv4Send` -/
  sent : List Segment := []
  /-- octets that `tcpWrite` has put into the buffer since `tcpSetup` -/
  written : List UInt8 := []
  /-- octets that `tcpRead` has taken out of the buffer since `tcpSetup` -/
  delivered : List UInt8 := []
  /-- computations of `tosend` -/
  tosends : List Tosend := []
  /-- adjustments of the send buffer -/
  acks : List Acked := []
deriving DecidableEq

/-- A TCP device with the timer table and the outcomes of the segments it will send. -/
structure Device where
  minor : Nat
  tcb : Tcb
  timer : Timer
  /-- what becomes of the coming segments, all sent if there is no more -/
  net : List Sending
  /-- the static variable of `tcpIss` -/
  nextseq : Nat
  hist : History

namespace Device

/-- Writes into the receive and into the send variables. -/
def modRcv (d : Device) (f : Recv → Recv) : Device :=
  { d with tcb := { d.tcb with rcv := f d.tcb.rcv } }

def modSnd (d : Device) (f : Send → Send) : Device :=
  { d with tcb := { d.tcb with snd := f d.tcb.snd } }

/-- `tcbptr->state = state`. -/
def setState (d : Device) (state : TcpState) : Device :=
  { d with tcb := { d.tcb with state := state } }

/-- Writes into `sndflg`. -/
def modFlg (d : Device) (f : Flags → Flags) : Device :=
  d.modSnd fun s => { s with sndflg := f s.sndflg }

/-- `signal` on the semaphores of the control block. -/
def signalMutex (d : Device) : Device := { d with tcb := { d.tcb with mutex := d.tcb.mutex + 1 } }

def signalOpenclose (d : Device) : Device :=
  { d with tcb := { d.tcb with openclose := d.tcb.openclose + 1 } }

def signalReaders (d : Device) (n : Int) : Device :=
  d.modRcv fun r => { r with readers := r.readers + n }

def signalWriters (d : Device) (n : Int) : Device :=
  d.modSnd fun s => { s with writers := s.writers + n }

/-- `wait` on the semaphores of the control block, as far as their counts are concerned. -/
def waitMutex (d : Device) : Device := { d with tcb := { d.tcb with mutex := d.tcb.mutex - 1 } }

def waitOpenclose (d : Device) : Device :=
  { d with tcb := { d.tcb with openclose := d.tcb.openclose - 1 } }

end Device

end Xinu.Tcp
