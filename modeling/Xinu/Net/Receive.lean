import Xinu.Arp.Table
import Xinu.Ipv4.Fragment

/-!
# Receiving packets

A receive thread takes a packet buffer from the pool, reads a frame into it and passes it to the
protocol of the frame. Each function that gets the buffer has to free it or to put it into a queue.
Who has which buffer is kept in a ledger; what a function reads apart from the packet (the
interfaces, the sockets, the ARP table) comes with each frame, so that nothing is assumed about how
it changes in between. The results of the functions are left out, since their callers ignore them.

`netRecv` itself frees nothing. A read that fails, a frame for another station and a frame of a type
it does not know cost a buffer each, and so does a packet of a protocol that is not configured.

## Main results

* `ipv4RecvValid_coherent_iff`: what is not known of the lengths of an accepted packet
* `netRecv_spec`: what an iteration does to the buffers
* `netRecv_conserves_iff`: no buffer is lost exactly if each frame is one whose buffer is kept
-/

namespace Xinu.Net

set_option maxRecDepth 20000

open List

open Tcp (NetAddr)
open Ipv4 (IPv4_IHL IPv4_FROFF IPv4_FLAG_MF headerLength)

variable {b : Nat} {p : Packet}

/-! ## The ledger -/

/-- Who can have a packet buffer. -/
inductive Owner
  /-- it is free -/
  | pool
  /-- the mailboxes of the daemons -/
  | arpqueue
  | icmpqueue
  | rtqueue
  /-- the ring of a raw socket -/
  | raw (i : Nat)
  /-- the queue of a thread that waits for echo replies -/
  | echo (i : Nat)
  /-- the mailbox of a capture -/
  | capture
  /-- a thread that reads from a queue, or that sends a packet -/
  | thread
deriving DecidableEq

/-- Who has which buffer, the one that was given last first. -/
abbrev Ledger := List (Owner × Nat)

namespace Ledger

/-- The buffers that are accounted for. -/
def buffers (s : Ledger) : List Nat := s.map Prod.snd

/-- The buffers of an owner. -/
def queue (s : Ledger) (o : Owner) : List Nat := (s.filter fun x => x.1 = o).map Prod.snd

/-- An owner gets a buffer. -/
def give (s : Ledger) (o : Owner) (b : Nat) : Ledger := (o, b) :: s

/-- `netFreebuf`: returns the buffer to the pool. -/
def netFreebuf (s : Ledger) (b : Nat) : Ledger := s.give .pool b

/-- `netGetbuf`: the buffer that was freed last. If the pool is empty the thread waits. -/
def netGetbuf (s : Ledger) : Option (Nat × Ledger) :=
  (s.find? fun x => x.1 = .pool).map fun x => (x.2, s.erase x)

/-- A packet is sent: a buffer is taken from the pool and freed. -/
def sendPacket (s : Ledger) : Option Ledger := s.netGetbuf.map fun x => x.2.netFreebuf x.1

/-- Some packets are sent one after the other. -/
def sendPackets (s : Ledger) : Nat → Option Ledger
  | 0 => some s
  | n + 1 => s.sendPacket.bind fun s => s.sendPackets n

end Ledger

/-! ## What a frame meets -/

/-- `struct netif`, with the fields that are used on receipt. -/
structure Iface extends Netif where
  ip : NetAddr
  hwbrc : NetAddr

/-- A capture on the interface: `snoopFilter`, and whether its mailbox is there. -/
structure Capture where
  filter : Packet → Bool
  alive : Bool

/-- The addresses of a socket, as far as the search for the socket of a packet reads them. For a raw
socket, `localpt` is the protocol. -/
structure Socket where
  used : Bool
  localpt : Nat
  remotept : Nat
  localip : NetAddr
  remoteip : NetAddr
  /-- number of packets in the input buffer of a UDP socket -/
  icount : Nat

/-- What the functions read apart from the packet. `NUDP`, `NTCP` and `NRAW` are the lengths of the
tables. -/
structure Env where
  /-- the interface of the receive thread -/
  nif : Iface
  capture : Option Capture
  netiftab : List Iface
  arp : Arp
  /-- the threads of the echo queues -/
  echotab : List Int
  udptab : List Socket
  tcptab : List Socket
  rawtab : List Socket
  /-- `udpGetbuf` succeeds -/
  udpbuf : Bool
  /-- the connection is closed when `tcpRecv` gets its mutex -/
  tcpclosed : Bool
  /-- number of packets that the handler of the segment sends -/
  tcpsent : Nat
  /-- `TCP_FLG_SNDRST` is set after it -/
  tcprst : Bool

/-- What `read` returns, and the memory after it. -/
structure Read where
  result : Int
  mem : Mem

/-- The address in a packet. -/
def addrAt (type : Nat) (m : Mem) (a : Int) (n : Nat) : NetAddr :=
  ⟨type, (octets m a n).map UInt8.toNat⟩

def NETADDR_ETHERNET : Nat := 1
def NETADDR_IPv4 : Nat := ETHER_TYPE_IPv4
def ETH_ADDR_LEN : Nat := 6
def IPv4_ADDR_LEN : Nat := 4
def ETHER_TYPE_ARP : Nat := 0x0806

/-! ## Sockets -/

/-- Cycle through a table to find the best match: a rule of a higher level replaces what was found.
-/
def demux {α : Type} (rules : List (Nat × (α → Bool))) (table : List α) : Option Nat :=
  (table.zipIdx.foldl (fun found x => rules.foldl
    (fun found rule => if found.2 < rule.1 ∧ rule.2 x.1 = true then (some x.2, rule.1) else found)
    found) ((none, 0) : Option Nat × Nat)).1

/-- The rules of `udpDemux` and of `tcpDemux`. -/
def portRules (dstpt srcpt : Nat) (dstip srcip : NetAddr) : List (Nat × (Socket → Bool)) :=
  [(3, fun x => x.used && x.localpt == dstpt && x.remotept == srcpt && x.remoteip == srcip &&
      x.localip == dstip),
   (2, fun x => x.used && x.localpt == dstpt && x.remotept == srcpt && x.localip == dstip &&
      x.remoteip.type == 0),
   (1, fun x => x.used && x.localpt == dstpt && x.remotept == 0 && x.localip == dstip &&
      x.remoteip.type == 0)]

/-- `udpDemux`. -/
def udpDemux (e : Env) (dstpt srcpt : Nat) (dstip srcip : NetAddr) : Option Nat :=
  demux (portRules dstpt srcpt dstip srcip) e.udptab

/-- `tcpDemux`. -/
def tcpDemux (e : Env) (dstpt srcpt : Nat) (dstip srcip : NetAddr) : Option Nat :=
  demux (portRules dstpt srcpt dstip srcip) e.tcptab

/-- `rawDemux`. -/
def rawDemux (e : Env) (src dst : NetAddr) (proto : Nat) : Option Nat :=
  demux
    [(4, fun x => x.used && proto == x.localpt && src == x.remoteip && dst == x.localip),
     (3, fun x => x.used && proto == x.localpt && (src == x.remoteip && x.localip.type == 0 ||
        dst == x.localip && x.remoteip.type == 0)),
     (2, fun x => x.used && proto == x.localpt && x.remoteip.type == 0 && x.localip.type == 0),
     (1, fun x => x.used && x.localpt == 0 && x.remoteip.type == 0 && x.localip.type == 0)]
    e.rawtab

/-! ## The protocols -/

def ARP_HWTYPE_ETHERNET : Nat := 1
def ARP_OP_RQST : Nat := 1
def ARP_NQUEUE : Nat := 32
def RT_NQUEUE : Nat := 32
def SNOOP_QLEN : Nat := 100
def RAW_IBLEN : Nat := 100
def UDP_MAX_PKTS : Nat := 100
def NPINGHOLD : Nat := 10
def ICMP_ECHOREPLY : Nat := 0
def ICMP_ECHO : Nat := 8
def IPv4_PROTO_ICMP : Nat := 1
def IPv4_PROTO_TCP : Nat := 6
def IPv4_PROTO_UDP : Nat := 17
def IPv4_MIN_IHL : Nat := 5
def IPv4_MAX_IHL : Nat := 15
def IPv4_VERSION : Nat := 4
def TCP_CTRL_RST : Nat := 4

/-- Length of the pseudo headers of UDP and of TCP. -/
def PSEUDO_LEN : Nat := 12

/-- The sum over the packet with a pseudo header in front of it, which is `udpChksum` and
`tcpChksum` for the two protocols. -/
def pseudoChksum (proto : Nat) (p : Packet) (len : Nat) (src dst : NetAddr) : Nat :=
  let pseudo := addrOctets src ++ addrOctets dst ++
    [0, UInt8.ofNat proto, UInt8.ofNat (len / 256), UInt8.ofNat len]
  netChksum (copy p.mem (p.curr - PSEUDO_LEN) pseudo) (p.curr - PSEUDO_LEN) (len + PSEUDO_LEN)

namespace Ledger

/-- `snoopCapture`: a copy of the packet is put into the mailbox of the capture. -/
def snoopCapture (s : Ledger) (c : Capture) (p : Packet) : Option Ledger :=
  if c.filter p = false then some s
  else
    s.netGetbuf.map fun x =>
      if SNOOP_QLEN ≤ (x.2.queue .capture).length then x.2.netFreebuf x.1
      else if c.alive = false then x.2.netFreebuf x.1
      else x.2.give .capture x.1

/-- `arpRecv`. A request for this interface is put into the mailbox of the daemon. -/
def arpRecv (s : Ledger) (e : Env) (b : Nat) (p : Packet) : Ledger :=
  if word p.mem p.curr ≠ ARP_HWTYPE_ETHERNET ∨ (p.mem (p.curr + 4)).toNat ≠ ETH_ADDR_LEN then
    s.netFreebuf b
  else if word p.mem (p.curr + 2) ≠ ETHER_TYPE_IPv4 ∨
      (p.mem (p.curr + 5)).toNat ≠ IPv4_ADDR_LEN then s.netFreebuf b
  else
    let spa := addrAt ETHER_TYPE_IPv4 p.mem (p.curr + 14) IPv4_ADDR_LEN
    let dpa := addrAt ETHER_TYPE_IPv4 p.mem (p.curr + 24) IPv4_ADDR_LEN
    let r := e.arp.arpGetEntry spa
    if e.nif.ip = dpa then
      -- if the entry did not already exist, then it is added
      if r.2 = none ∧ r.1.arpAlloc.2 = none then s.netFreebuf b
      else if word p.mem (p.curr + 6) = ARP_OP_RQST then
        if ARP_NQUEUE ≤ (s.queue .arpqueue).length then s.netFreebuf b else s.give .arpqueue b
      else s.netFreebuf b
    else s.netFreebuf b

/-- `rtRecv`: packets for other stations are put into the mailbox of the route daemon. -/
def rtRecv (s : Ledger) (b : Nat) : Ledger :=
  if RT_NQUEUE ≤ (s.queue .rtqueue).length then s.netFreebuf b else s.give .rtqueue b

/-- `icmpRecv`. An echo request waits for the daemon, where the receive thread waits for space in
its mailbox; an echo reply is given to the thread that waits for it. -/
def icmpRecv (s : Ledger) (e : Env) (b : Nat) (p : Packet) : Ledger :=
  let type := (p.mem p.curr).toNat
  if type = ICMP_ECHOREPLY then
    let id : Int := word p.mem (p.curr + 4)
    if id < NTHREAD then
      match e.echotab.findIdx? fun tid => tid = id with
      | some i =>
        if NPINGHOLD ≤ (s.queue (.echo i)).length + 1 then s.netFreebuf b else s.give (.echo i) b
      | none => s.netFreebuf b
    else s.netFreebuf b
  else if type = ICMP_ECHO then s.give .icmpqueue b
  else s.netFreebuf b

/-- `udpRecv`: the packet is copied into a buffer of the socket. -/
def udpRecv (s : Ledger) (e : Env) (b : Nat) (p : Packet) (src dst : NetAddr) : Option Ledger :=
  if pseudoChksum IPv4_PROTO_UDP p (word p.mem (p.curr + 4)) src dst ≠ 0 then some (s.netFreebuf b)
  else
    match udpDemux e (word p.mem (p.curr + 2)) (word p.mem p.curr) dst src with
    -- send ICMP port unreachable message
    | none => s.sendPacket.map fun s => s.netFreebuf b
    | some i =>
      if ∃ x ∈ e.udptab[i]?, UDP_MAX_PKTS ≤ x.icount then some (s.netFreebuf b)
      else if e.udpbuf = false then some (s.netFreebuf b)
      else some (s.netFreebuf b)

/-- `tcpSendRst`: no reset is sent in response to a reset. -/
def tcpSendRst (s : Ledger) (p : Packet) : Option Ledger :=
  if (p.mem (p.curr + 13)).toNat &&& TCP_CTRL_RST ≠ 0 then some s else s.sendPacket

/-- `tcpRecv`. -/
def tcpRecv (s : Ledger) (e : Env) (b : Nat) (p : Packet) (src dst : NetAddr) : Option Ledger :=
  let tcplen := ((p.len - p.curr) % 2 ^ 16).toNat
  if pseudoChksum IPv4_PROTO_TCP p tcplen src dst ≠ 0 then some (s.netFreebuf b)
  else
    match tcpDemux e (word p.mem (p.curr + 2)) (word p.mem p.curr) dst src with
    | none => (s.tcpSendRst p).map fun s => s.netFreebuf b
    | some _ =>
      if e.tcpclosed then (s.tcpSendRst p).map fun s => s.netFreebuf b
      else
        (s.sendPackets e.tcpsent).bind fun s =>
          (if e.tcprst then s.tcpSendRst p else some s).map fun s => s.netFreebuf b

/-- `rawRecv`: the packet is put into the ring of the socket. -/
def rawRecv (s : Ledger) (e : Env) (b : Nat) (src dst : NetAddr) (proto : Nat) : Option Ledger :=
  match rawDemux e src dst proto with
  | none => s.sendPacket.map fun s => s.netFreebuf b
  | some i =>
    if RAW_IBLEN ≤ (s.queue (.raw i)).length then some (s.netFreebuf b)
    else some (s.give (.raw i) b)

end Ledger

/-! ## Internet packets -/

/-- The fields of a header are stored in network order, and the hosts here have the other one. -/
def swap16 (x : Nat) : Nat := x % 256 * 256 + x / 256 % 256

/-- `ipv4RecvValid` on a host of either byte order. The length is compared as it is stored. -/
def validOn (big : Bool) (m : Mem) (ip : Int) : Bool :=
  let ihl := (m ip).toNat &&& IPv4_IHL
  let len := if big then word m (ip + 2) else swap16 (word m (ip + 2))
  netChksum m ip (4 * ihl) = 0 && (m ip).toNat / 16 = IPv4_VERSION &&
    !decide (len < IPv4_MIN_IHL * 4) &&
      !(decide (ihl < IPv4_MIN_IHL) || decide (IPv4_MAX_IHL < ihl))

/-- `ipv4RecvValid`. -/
def ipv4RecvValid (m : Mem) (ip : Int) : Bool := validOn false m ip

/-- `ipv4RecvDemux`: the address is one of an open interface. -/
def ipv4RecvDemux (e : Env) (dst : NetAddr) : Bool :=
  e.netiftab.any fun n => n.state && (dst == n.ip || dst == n.ipbrc)

/-- The packet is a fragment. -/
def fragmented (m : Mem) (ip : Int) : Bool :=
  decide (IPv4_FLAG_MF &&& word m (ip + 6) ≠ 0) || decide (word m (ip + 6) &&& IPv4_FROFF ≠ 0)

/-- The packet without what the driver has added to it, and its pointer behind the header. -/
def transport (e : Env) (p : Packet) : Packet :=
  let iplen := word p.mem (p.curr + 2)
  { p with
    len :=
      if iplen < (p.len - e.nif.linkhdrlen : Int) % 2 ^ 32 then e.nif.linkhdrlen + iplen else p.len
    curr := p.curr + headerLength p.mem p.curr }

/-- `ipv4Recv`. The cases of UDP, TCP and the other protocols are compiled only if there are such
devices. -/
def Ledger.ipv4Recv (s : Ledger) (e : Env) (b : Nat) (p : Packet) : Option Ledger :=
  let dst := addrAt NETADDR_IPv4 p.mem (p.curr + 16) IPv4_ADDR_LEN
  let src := addrAt NETADDR_IPv4 p.mem (p.curr + 12) IPv4_ADDR_LEN
  let proto := (p.mem (p.curr + 9)).toNat
  if ipv4RecvValid p.mem p.curr = false then some (s.netFreebuf b)
  else if ipv4RecvDemux e dst = false then some (s.rtRecv b)
  else if fragmented p.mem p.curr = true then some (s.netFreebuf b)
  else if proto = IPv4_PROTO_ICMP then some (s.icmpRecv e b (transport e p))
  else if proto = IPv4_PROTO_UDP then
    if e.udptab = [] then some s else s.udpRecv e b (transport e p) src dst
  else if proto = IPv4_PROTO_TCP then
    if e.tcptab = [] then some s else s.tcpRecv e b (transport e p) src dst
  else if e.rawtab = [] then some s
  else s.rawRecv e b src dst proto

/-! ## The lengths of an accepted packet -/

/-- The checksum, the version and the length of the header pass. -/
def HeaderOk (m : Mem) (ip : Int) : Prop :=
  netChksum m ip (headerLength m ip) = 0 ∧ (m ip).toNat / 16 = IPv4_VERSION ∧
    IPv4_MIN_IHL * 4 ≤ headerLength m ip
deriving Decidable

theorem headerLength_le (m : Mem) (ip : Int) : headerLength m ip ≤ IPv4_MAX_IHL * 4 :=
  Nat.mul_le_mul_right 4 Nat.and_le_right

theorem word_eq (m : Mem) (ip : Int) :
    word m (ip + 2) = 256 * (m (ip + 2)).toNat + (m (ip + 3)).toNat := by
  rw [word, add_assoc, Nat.mul_comm]
  rfl

/-- On a host that does not have the network order, the total length passes as it is stored unless
its low octet is 0. -/
theorem validOn_iff {big : Bool} {m : Mem} {ip : Int} : validOn big m ip = true ↔
    HeaderOk m ip ∧ if big then 20 ≤ word m (ip + 2)
      else (m (ip + 3)).toNat = 0 → 20 ≤ (m (ip + 2)).toNat := by
  have hmax := headerLength_le m ip
  have hswap : swap16 (word m (ip + 2)) = 256 * (m (ip + 3)).toNat + (m (ip + 2)).toNat := by
    have hhi := (m (ip + 2)).toNat_lt
    have hlo := (m (ip + 3)).toNat_lt
    rw [word_eq, swap16]
    omega
  have hhdr : 4 * ((m ip).toNat &&& IPv4_IHL) = headerLength m ip := Nat.mul_comm ..
  simp only [validOn, HeaderOk, Bool.and_eq_true, Bool.not_eq_true', Bool.or_eq_false_iff,
    decide_eq_false_iff_not, decide_eq_true_eq, hhdr, hswap, Nat.not_lt]
  unfold IPv4_MIN_IHL IPv4_MAX_IHL at *
  cases big <;> simp only [if_true, if_false, Bool.false_eq_true] <;> omega

/-- **The lengths that `ipv4RecvValid` lets through.** That a packet is accepted means that its
total length covers the header and stays inside the `n` octets received, so that what is passed on
has a length that is not negative and lies in the packet, but for two kinds of headers that are
right otherwise. The total length stored as `hi`, `lo` does not cover the header, and is not below
20 on a host of network order, or not 0 on another; or it is above `n`, and on a host of another
order not one of those with `lo` 0 that are taken for a length below 20. -/
theorem ipv4RecvValid_coherent_iff {big : Bool} {e : Env} {p : Packet} {n : Nat} (hn : 20 ≤ n)
    (hcurr : p.curr = e.nif.linkhdrlen) (hlen : p.len = e.nif.linkhdrlen + n)
    (hfits : p.len < 2 ^ 32) :
    (validOn big p.mem p.curr = true →
      20 ≤ headerLength p.mem p.curr ∧ headerLength p.mem p.curr ≤ word p.mem (p.curr + 2) ∧
        word p.mem (p.curr + 2) ≤ n ∧ (transport e p).curr ≤ (transport e p).len ∧
        (transport e p).len ≤ p.len) ↔
      (HeaderOk p.mem p.curr →
        let hi := (p.mem (p.curr + 2)).toNat
        let lo := (p.mem (p.curr + 3)).toNat
        (hi = 0 → lo < headerLength p.mem p.curr → lo < if big then 20 else 1) ∧
          (n < 256 * hi + lo → big = false ∧ lo = 0 ∧ hi < 20)) := by
  have hword := word_eq p.mem p.curr
  have hmax := headerLength_le p.mem p.curr
  unfold IPv4_MAX_IHL at hmax
  -- what is passed on follows from the lengths
  have hlengths : headerLength p.mem p.curr ≤ word p.mem (p.curr + 2) →
      word p.mem (p.curr + 2) ≤ n → (transport e p).curr ≤ (transport e p).len ∧
        (transport e p).len ≤ p.len := by
    intro hlow hhigh
    unfold transport
    dsimp only
    split_ifs <;> omega
  rw [validOn_iff]
  refine ⟨fun hclaim hok => ?_, fun hcond ⟨hok, hstored⟩ => ?_⟩
  · have hbad := fun hstored => hclaim ⟨hok, hstored⟩
    cases big <;>
      simp only [if_true, if_false, Bool.false_eq_true, reduceCtorEq, true_and,
        false_and] at hbad ⊢ <;>
      omega
  · have hhdr : 20 ≤ headerLength p.mem p.curr := hok.2.2
    have hboth : headerLength p.mem p.curr ≤ word p.mem (p.curr + 2) ∧
        word p.mem (p.curr + 2) ≤ n := by
      have := hcond hok
      cases big <;>
        simp only [if_true, if_false, Bool.false_eq_true, reduceCtorEq, true_and, false_and,
          imp_false, Nat.not_lt] at this hstored <;>
        omega
    exact ⟨hhdr, hboth.1, hboth.2, hlengths hboth.1 hboth.2⟩

/-- A frame that holds a header with a given length and checksum, and nothing else. -/
def bare (len chksum : Nat) : Packet :=
  ⟨setWord (setWord (copy (fun _ => 0) 14
    [0x45, 0, 0, 0, 0, 0, 0, 0, 64, 17, 0, 0, 10, 0, 0, 1, 10, 0, 0, 2]) 16 len) 24 chksum, 14, 34⟩

/-! ## The receive thread -/

/-- The length that the thread stores, an unsigned number. -/
def Read.len (r : Read) : Nat := (r.result % 2 ^ 32).toNat

/-- The read has failed, or has returned nothing. An error is looked for in the low 16 bits. -/
def Read.failed (r : Read) : Prop := r.len = 0 ∨ r.len % 2 ^ 16 = 2 ^ 16 - 1
deriving Decidable

/-- The hardware address of the frame is that of the interface or the broadcast address. -/
def Env.mine (e : Env) (m : Mem) : Prop :=
  addrAt NETADDR_ETHERNET m 0 ETH_ADDR_LEN = e.nif.hwaddr ∨
    addrAt NETADDR_ETHERNET m 0 ETH_ADDR_LEN = e.nif.hwbrc
deriving Decidable

/-- The type of the frame. -/
def etherType (m : Mem) : Nat := word m 12

/-- One iteration of `netRecv`, which ends only when there are buffers for the packets it makes. -/
def netRecv (e : Env) (r : Read) (s : Ledger) : Option Ledger :=
  s.netGetbuf.bind fun x =>
    let b := x.1
    let s := x.2
    if r.failed then some s
    else
      let p : Packet := ⟨r.mem, 0, r.len⟩
      -- snoop if we are in promiscuous mode
      (match e.capture with
      | some c => s.snoopCapture c p
      | none => some s).bind fun s =>
        if e.mine r.mem then
          let p := { p with curr := (e.nif.linkhdrlen : Int) }
          if etherType r.mem = ETHER_TYPE_IPv4 then s.ipv4Recv e b p
          else if etherType r.mem = ETHER_TYPE_ARP then some (s.arpRecv e b p)
          else some s
        else some s

/-! ## What happens to the buffer -/

namespace Ledger

/-- The buffer is freed or put into a queue, once, and all others stay accounted for. -/
def Takes (b : Nat) (s s' : Ledger) : Prop := s'.buffers.Perm (b :: s.buffers)

/-- The same buffers are accounted for. -/
def Keeps (s s' : Ledger) : Prop := s'.buffers.Perm s.buffers

variable {s s' s'' : Ledger} {e : Env} {src dst : NetAddr}

theorem takes_give (s : Ledger) (o : Owner) (b : Nat) : Takes b s (s.give o b) := List.Perm.refl _

theorem Keeps.takes (h : s.Keeps s') (h' : Takes b s' s'') : Takes b s s'' := h'.trans (h.cons b)

/-- A buffer from the pool is not accounted for any more. -/
theorem takes_of_netGetbuf (h : s.netGetbuf = some (b, s')) : Takes b s' s := by
  obtain ⟨x, hx, heq⟩ := Option.map_eq_some_iff.mp h
  cases heq
  exact (perm_cons_erase (mem_of_find?_eq_some hx)).map Prod.snd

/-- A buffer is taken, and given to an owner. -/
theorem keeps_of_netGetbuf (h : s.netGetbuf = some (b, s')) (h' : Takes b s' s'') : s.Keeps s'' :=
  h'.trans (takes_of_netGetbuf h).symm

theorem keeps_sendPacket (h : s.sendPacket = some s') : s.Keeps s' := by
  obtain ⟨x, hx, rfl⟩ := Option.map_eq_some_iff.mp h
  exact keeps_of_netGetbuf hx (takes_give ..)

theorem keeps_sendPackets (n : Nat) (h : s.sendPackets n = some s') : s.Keeps s' := by
  induction n generalizing s with
  | zero =>
    cases h
    exact List.Perm.refl _
  | succ n ih =>
    obtain ⟨x, hx, hrest⟩ := Option.bind_eq_some_iff.mp h
    exact (ih hrest).trans (keeps_sendPacket hx)

theorem keeps_snoopCapture {c : Capture} (h : s.snoopCapture c p = some s') : s.Keeps s' := by
  unfold snoopCapture at h
  split at h
  · cases h
    exact List.Perm.refl _
  · obtain ⟨x, hx, rfl⟩ := Option.map_eq_some_iff.mp h
    refine keeps_of_netGetbuf hx ?_
    split_ifs <;> exact takes_give ..

/-! ### The protocols -/

theorem takes_arpRecv (s : Ledger) (e : Env) (b : Nat) (p : Packet) :
    Takes b s (s.arpRecv e b p) := by
  unfold arpRecv
  dsimp only
  split_ifs <;> exact takes_give ..

theorem takes_rtRecv (s : Ledger) (b : Nat) : Takes b s (s.rtRecv b) := by
  unfold rtRecv
  split_ifs <;> exact takes_give ..

theorem takes_icmpRecv (s : Ledger) (e : Env) (b : Nat) (p : Packet) :
    Takes b s (s.icmpRecv e b p) := by
  unfold icmpRecv
  dsimp only
  split_ifs
  · split
    · split_ifs <;> exact takes_give ..
    · exact takes_give ..
  · exact takes_give ..
  · exact takes_give ..
  · exact takes_give ..

/-- A function that sends something, and then frees the buffer. -/
theorem takes_map_netFreebuf {o : Option Ledger} (ho : ∀ x, o = some x → s.Keeps x)
    (h : o.map (fun s => s.netFreebuf b) = some s') : Takes b s s' := by
  obtain ⟨x, hx, rfl⟩ := Option.map_eq_some_iff.mp h
  exact (ho x hx).takes (takes_give ..)

theorem takes_some_give {o : Owner} (h : some (s.give o b) = some s') : Takes b s s' := by
  cases h
  exact takes_give ..

theorem takes_udpRecv (h : s.udpRecv e b p src dst = some s') : Takes b s s' := by
  unfold udpRecv at h
  split at h
  · exact takes_some_give h
  · split at h
    · exact takes_map_netFreebuf (fun _ => keeps_sendPacket) h
    · split_ifs at h <;> exact takes_some_give h

theorem keeps_tcpSendRst (h : s.tcpSendRst p = some s') : s.Keeps s' := by
  unfold tcpSendRst at h
  split_ifs at h
  · cases h
    exact List.Perm.refl _
  · exact keeps_sendPacket h

theorem takes_tcpRecv (h : s.tcpRecv e b p src dst = some s') : Takes b s s' := by
  unfold tcpRecv at h
  dsimp only at h
  split at h
  · exact takes_some_give h
  · split at h
    · exact takes_map_netFreebuf (fun _ => keeps_tcpSendRst) h
    · split at h
      · exact takes_map_netFreebuf (fun _ => keeps_tcpSendRst) h
      · -- the handler sends its packets, and then a reset may be sent
        obtain ⟨x, hx, hrest⟩ := Option.bind_eq_some_iff.mp h
        refine (keeps_sendPackets _ hx).takes (takes_map_netFreebuf (fun y hy => ?_) hrest)
        split at hy
        · exact keeps_tcpSendRst hy
        · cases hy
          exact List.Perm.refl _

theorem takes_rawRecv {proto : Nat} (h : s.rawRecv e b src dst proto = some s') : Takes b s s' := by
  unfold rawRecv at h
  split at h
  · exact takes_map_netFreebuf (fun _ => keeps_sendPacket) h
  · split_ifs at h <;> exact takes_some_give h

end Ledger

/-- There are devices of the protocol of a packet for this station. -/
def Configured (e : Env) (p : Packet) : Prop :=
  ipv4RecvValid p.mem p.curr = true →
    ipv4RecvDemux e (addrAt NETADDR_IPv4 p.mem (p.curr + 16) IPv4_ADDR_LEN) = true →
    fragmented p.mem p.curr = false →
      let proto := (p.mem (p.curr + 9)).toNat
      proto = IPv4_PROTO_ICMP ∨ proto = IPv4_PROTO_UDP ∧ e.udptab ≠ [] ∨
        proto = IPv4_PROTO_TCP ∧ e.tcptab ≠ [] ∨
        proto ≠ IPv4_PROTO_UDP ∧ proto ≠ IPv4_PROTO_TCP ∧ e.rawtab ≠ []
deriving Decidable

/-- The frames whose buffer is not lost: the read has succeeded, the frame is for this interface or
for all, and it is an ARP packet or an Internet packet of a protocol that is configured. -/
def Kept (e : Env) (r : Read) : Prop :=
  ¬ r.failed ∧ e.mine r.mem ∧
    (etherType r.mem = ETHER_TYPE_ARP ∨
      etherType r.mem = ETHER_TYPE_IPv4 ∧ Configured e ⟨r.mem, e.nif.linkhdrlen, r.len⟩)
deriving Decidable

/-- `ipv4Recv` frees or queues the buffer, unless the protocol is not configured. -/
theorem ipv4Recv_spec {s s' : Ledger} {e : Env} (h : s.ipv4Recv e b p = some s') :
    (Configured e p → s.Takes b s') ∧ (¬ Configured e p → s' = s) := by
  have hyes : ∀ {s' : Ledger}, Configured e p → s.Takes b s' →
      (Configured e p → s.Takes b s') ∧ (¬ Configured e p → s' = s) :=
    fun hc ht => ⟨fun _ => ht, fun hn => absurd hc hn⟩
  have hno : ∀ {s' : Ledger}, ¬ Configured e p → some s = some s' →
      (Configured e p → s.Takes b s') ∧ (¬ Configured e p → s' = s) :=
    fun hn heq => ⟨fun hc => absurd hc hn, fun _ => (Option.some.inj heq).symm⟩
  unfold Ledger.ipv4Recv at h
  dsimp only at h
  split at h
  · rename_i hv
    exact hyes (fun h => absurd (hv.symm.trans h) (by simp)) (Ledger.takes_some_give h)
  split at h
  · rename_i hd
    cases h
    exact hyes (fun _ h => absurd (hd.symm.trans h) (by simp)) (Ledger.takes_rtRecv s b)
  split at h
  · rename_i hf
    exact hyes (fun _ _ h => absurd (hf.symm.trans h) (by simp)) (Ledger.takes_some_give h)
  -- the packet is for this station and whole: its protocol decides
  rename_i hv hd hf
  rw [Bool.not_eq_false] at hv hd
  rw [Bool.not_eq_true] at hf
  split at h
  · rename_i hp
    cases h
    exact hyes (fun _ _ _ => .inl hp) (Ledger.takes_icmpRecv ..)
  split at h
  · rename_i hi hp
    split at h
    · rename_i ht
      refine hno (fun hc => ?_) h
      have := hc hv hd hf
      rw [hp] at this
      simp [ht, IPv4_PROTO_UDP, IPv4_PROTO_ICMP, IPv4_PROTO_TCP] at this
    · rename_i ht
      exact hyes (fun _ _ _ => .inr (.inl ⟨hp, ht⟩)) (Ledger.takes_udpRecv h)
  split at h
  · rename_i hi hu hp
    split at h
    · rename_i ht
      refine hno (fun hc => ?_) h
      have := hc hv hd hf
      rw [hp] at this
      simp [ht, IPv4_PROTO_UDP, IPv4_PROTO_ICMP, IPv4_PROTO_TCP] at this
    · rename_i ht
      exact hyes (fun _ _ _ => .inr (.inr (.inl ⟨hp, ht⟩))) (Ledger.takes_tcpRecv h)
  split at h
  · rename_i hi hu hp ht
    refine hno (fun hc => ?_) h
    rcases hc hv hd hf with h | h | h | h
    · exact hi h
    · exact hu h.1
    · exact hp h.1
    · exact h.2.2 ht
  · rename_i hi hu hp ht
    exact hyes (fun _ _ _ => .inr (.inr (.inr ⟨hu, hp, ht⟩))) (Ledger.takes_rawRecv h)

/-- **What an iteration does to the buffers.** It loses the one it takes for the frame, unless the
frame is one whose buffer is kept. -/
theorem netRecv_spec {s s' : Ledger} {e : Env} {r : Read} (h : netRecv e r s = some s') :
    (Kept e r → s.Keeps s') ∧ (¬ Kept e r → ∃ b, s'.Takes b s) := by
  obtain ⟨⟨b, s₁⟩, hget, h⟩ := Option.bind_eq_some_iff.mp h
  have htake := Ledger.takes_of_netGetbuf hget
  split at h
  · rename_i hf
    cases h
    exact ⟨fun hk => absurd hf hk.1, fun _ => ⟨b, htake⟩⟩
  rename_i hf
  obtain ⟨s₂, hcapture, h⟩ := Option.bind_eq_some_iff.mp h
  have hkeeps : s₁.Keeps s₂ := by
    split at hcapture
    · exact Ledger.keeps_snoopCapture hcapture
    · cases hcapture
      exact List.Perm.refl _
  -- the buffer is lost if it is not taken from here on
  have hlost : ∀ {x : Ledger}, x = s₂ → x.Takes b s := by
    rintro x rfl
    exact htake.trans (hkeeps.symm.cons b)
  have hkept : ∀ {x : Ledger}, s₂.Takes b x → s.Keeps x := fun ht =>
    Ledger.keeps_of_netGetbuf hget (hkeeps.takes ht)
  split at h
  · rename_i hm
    split at h
    · rename_i ht
      obtain ⟨hyes, hno⟩ := ipv4Recv_spec h
      have hiff : Kept e r ↔ Configured e ⟨r.mem, e.nif.linkhdrlen, r.len⟩ := by
        unfold Kept
        rw [ht]
        simp [hf, hm, ETHER_TYPE_ARP, ETHER_TYPE_IPv4]
      rw [hiff]
      exact ⟨fun hc => hkept (hyes hc), fun hn => ⟨b, hlost (hno hn)⟩⟩
    · rename_i ht
      split at h
      · rename_i ha
        cases h
        exact ⟨fun _ => hkept (Ledger.takes_arpRecv ..), fun hn => absurd ⟨hf, hm, .inl ha⟩ hn⟩
      · rename_i ha
        refine ⟨fun hk => ?_, fun _ => ⟨b, hlost (Option.some.inj h).symm⟩⟩
        exact hk.2.2.elim (fun h => absurd h ha) fun h => absurd h.1 ht
  · rename_i hm
    exact ⟨fun hk => absurd hk.2.1 hm, fun _ => ⟨b, hlost (Option.some.inj h).symm⟩⟩

/-! ## Runs -/

/-- Number of packet buffers. -/
def NET_POOLSIZE : Nat := 512

namespace Ledger

/-- Every buffer of the pool has one owner. -/
def Accounted (s : Ledger) : Prop := s.buffers.Perm (List.range NET_POOLSIZE)

/-- All buffers are free. -/
def start : Ledger := (List.range NET_POOLSIZE).map fun b => (.pool, b)

theorem accounted_start : start.Accounted := by
  unfold Accounted buffers start
  rw [map_map]
  exact List.Perm.of_eq (map_id _)

/-- A buffer goes from one owner to another. -/
def move (s : Ledger) (o o' : Owner) (b : Nat) : Ledger := give (List.erase s (o, b)) o' b

theorem keeps_move {s : Ledger} {o o' : Owner} (h : (o, b) ∈ s) : s.Keeps (s.move o o' b) :=
  ((perm_cons_erase h).map Prod.snd).symm

end Ledger

/-- What can happen to the buffers. -/
inductive Step
  /-- an iteration of a receive thread -/
  | frame (e : Env) (r : Read)
  /-- a thread takes a packet from a queue -/
  | dequeue (o : Owner) (b : Nat)
  /-- a thread gets a buffer from the pool -/
  | getbuf
  /-- a thread frees a buffer that it has got -/
  | freebuf (b : Nat)

/-- One step; an iteration that cannot end is none. -/
def step (s : Ledger) : Step → Ledger
  | .frame e r => (netRecv e r s).getD s
  | .dequeue o b => s.move o .thread b
  | .getbuf => (s.netGetbuf.map fun x => x.2.give .thread x.1).getD s
  | .freebuf b => s.move .thread .pool b

/-- There are buffers for the iteration to end, and the buffer is where it is taken from. -/
def Enabled (s : Ledger) : Step → Prop
  | .frame e r => (netRecv e r s).isSome = true
  | .dequeue o b => (o, b) ∈ s
  | .getbuf => s.netGetbuf.isSome = true
  | .freebuf b => (.thread, b) ∈ s

instance (s : Ledger) : ∀ i : Step, Decidable (Enabled s i) := by
  rintro ⟨⟩ <;> unfold Enabled <;> infer_instance

/-- The packet buffers. -/
def netMachine : Machine Ledger Step where
  enabled := Enabled
  next := step

instance (s : Ledger) (i : Step) : Decidable (netMachine.enabled s i) :=
  inferInstanceAs (Decidable (Enabled s i))

/-- The buffer of the frame is kept. -/
def Step.Kept : Step → Prop
  | .frame e r => Net.Kept e r
  | _ => True

/-- A step loses no buffer, or one that nobody gets back. -/
theorem step_spec {s : Ledger} {i : Step} (h : Enabled s i) :
    (i.Kept → s.Keeps (step s i)) ∧ (¬ i.Kept → ∃ b, (step s i).Takes b s) := by
  cases i with
  | frame e r =>
    obtain ⟨s', hs'⟩ := Option.isSome_iff_exists.mp h
    dsimp only [step]
    rw [hs']
    exact netRecv_spec hs'
  | dequeue o b => exact ⟨fun _ => Ledger.keeps_move h, fun hn => absurd trivial hn⟩
  | getbuf =>
    obtain ⟨x, hx⟩ := Option.isSome_iff_exists.mp h
    dsimp only [step]
    rw [hx]
    exact ⟨fun _ => Ledger.keeps_of_netGetbuf hx (Ledger.takes_give ..),
      fun hn => absurd trivial hn⟩
  | freebuf b => exact ⟨fun _ => Ledger.keeps_move h, fun hn => absurd trivial hn⟩

/-- A run loses one buffer for each frame whose buffer is not kept. -/
theorem run_spec {s s' : Ledger} {l : List Step} (r : netMachine.Run s l s') :
    ∃ lost : List Nat, s.buffers.Perm (lost ++ s'.buffers) ∧ (lost = [] ↔ ∀ i ∈ l, i.Kept) := by
  induction r with
  | nil => exact ⟨[], List.Perm.refl _, by simp⟩
  | @snoc l s' i _ hi ih =>
    obtain ⟨lost, hperm, hiff⟩ := ih
    obtain ⟨hkept, hlost⟩ := step_spec hi
    by_cases hk : i.Kept
    · refine ⟨lost, hperm.trans ((hkept hk).symm.append_left lost), ?_⟩
      rw [hiff]
      simp [or_imp, forall_and, hk]
    · obtain ⟨b, hb⟩ := hlost hk
      refine ⟨b :: lost, ?_, by simp [or_imp, forall_and, hk]⟩
      exact hperm.trans ((hb.append_left lost).trans perm_middle)

/-- **Which frames cost no buffer.** In every run of the receive threads, with frames of any content
and length, and of the threads that take packets from the queues and send packets, from any state in
which every buffer of the pool has one owner: each buffer still has one owner at the end exactly if
each frame is one whose buffer is kept. -/
theorem netRecv_conserves_iff {s s' : Ledger} {l : List Step} (hs : s.Accounted)
    (r : netMachine.Run s l s') : s'.Accounted ↔ ∀ i ∈ l, i.Kept := by
  obtain ⟨lost, hperm, hiff⟩ := run_spec r
  rw [← hiff]
  constructor
  · intro hs'
    -- as many buffers are accounted for as before
    have hlen := hperm.length_eq
    rw [length_append, hs.length_eq, hs'.length_eq] at hlen
    exact eq_nil_of_length_eq_zero (by omega)
  · rintro rfl
    exact hperm.symm.trans hs

/-- An interface with one address, and nothing else. -/
def station : Env where
  nif := { state := true, mtu := 1500, linkhdrlen := 14, ipbrc := ⟨NETADDR_IPv4, [10, 0, 0, 255]⟩,
           hwaddr := ⟨NETADDR_ETHERNET, [2, 0, 0, 0, 0, 9]⟩, ip := ⟨NETADDR_IPv4, [10, 0, 0, 9]⟩,
           hwbrc := ⟨NETADDR_ETHERNET, [255, 255, 255, 255, 255, 255]⟩ }
  capture := none
  netiftab := []
  arp := Arp.start
  echotab := []
  udptab := []
  tcptab := []
  rawtab := []
  udpbuf := true
  tcpclosed := false
  tcpsent := 0
  tcprst := false

/-- A datagram of eight octets in a frame that the driver has filled up to 60. -/
def padded : Packet := ⟨copy (bare 28 0x66cf).mem 34 [0, 7, 0, 7, 0, 8, 250, 220], 14, 60⟩

theorem ipv4RecvValid_coherent_padded :
    validOn false padded.mem 14 = true ∧ word padded.mem 16 ≤ 46 ∧
      (transport station padded).curr = 34 ∧ (transport station padded).len = 42 ∧
      (transport station padded).curr ≤ (transport station padded).len :=
  have hvalid : validOn false padded.mem 14 = true := by decide
  have hcond := (ipv4RecvValid_coherent_iff (e := station) (p := padded) (n := 46)
    (by decide) rfl rfl (by decide)).mpr (by decide) hvalid
  ⟨hvalid, hcond.2.2.1, by decide, by decide, hcond.2.2.2.1⟩

/-- **The header ends behind the packet.** A total length of 16 passes where it is compared as
stored, and the transport layer gets a packet of -4 octets; one of 1500 passes on every host, of
which 20 octets have been received. -/
theorem ipv4RecvValid_incoherent :
    (ipv4RecvValid (bare 16 0x66db).mem 14 = true ∧
      ((transport station (bare 16 0x66db)).len : Int) - (transport station (bare 16 0x66db)).curr =
        -4) ∧
      (∀ big, validOn big (bare 1500 0x610f).mem 14 = true) ∧
        word (bare 1500 0x610f).mem 16 = 1500 := by
  decide

/-- An ARP request for the station, in a frame with a given hardware address. -/
def request (dst : List UInt8) : Read where
  result := 42
  mem := copy (fun _ => 0) 0 (dst ++ [2, 0, 0, 0, 0, 7, 8, 6] ++ [0, 1, 8, 0, 6, 4, 0, 1] ++
    [2, 0, 0, 0, 0, 7, 10, 0, 0, 7] ++ [0, 0, 0, 0, 0, 0, 10, 0, 0, 9])

/-- The request is broadcast, and the daemon takes it and frees its buffer. -/
def broadcastRun : List Step :=
  [.frame station (request [255, 255, 255, 255, 255, 255]), .dequeue .arpqueue 0, .freebuf 0]

/-- In that run, the buffer waits in the mailbox of the daemon, and none is lost. -/
theorem netRecv_conserves_broadcast :
    (step Ledger.start (.frame station (request [255, 255, 255, 255, 255, 255]))).queue .arpqueue =
        [0] ∧
      (netMachine.after Ledger.start broadcastRun).Accounted := by
  refine ⟨by decide, ?_⟩
  refine (netRecv_conserves_iff Ledger.accounted_start (Machine.run_after)).mpr ?_
  intro i hi
  simp only [broadcastRun, mem_cons, not_mem_nil, or_false] at hi
  rcases hi with rfl | rfl | rfl
  · exact (by decide : Kept station (request [255, 255, 255, 255, 255, 255]))
  · trivial
  · trivial

/-- **Frames for others drain the pool.** The same request, addressed to another station, is read
and its buffer has no owner afterwards; and after as many such frames as there are buffers the pool
is empty and no packet can be received or sent any more. -/
theorem netRecv_drained :
    (∃ s, netMachine.Run Ledger.start [.frame station (request [2, 0, 0, 0, 0, 8])] s ∧
      0 ∉ s.buffers ∧ s.buffers.length + 1 = NET_POOLSIZE) ∧
    ∃ s, netMachine.Run Ledger.start
        (List.replicate NET_POOLSIZE (.frame station (request [2, 0, 0, 0, 0, 8]))) s ∧
      s = [] ∧ ∀ e r, ¬ netMachine.enabled s (.frame e r) := by
  refine ⟨⟨_, Machine.run_after, by decide⟩, ⟨[], ?_, rfl, fun _ _ h => nomatch h⟩⟩
  have hempty : netMachine.after .start
      (List.replicate NET_POOLSIZE (.frame station (request [2, 0, 0, 0, 0, 8]))) = [] := by
    decide
  rw [← hempty]
  exact Machine.run_after

end Xinu.Net
