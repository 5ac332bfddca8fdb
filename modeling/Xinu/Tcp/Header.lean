import Xinu.Ipv4.Fragment
import Xinu.Tcp.Reassembly

/-!
# Headers of segments

What the code does with the header of a segment: whether it is acceptable, the option with the
maximum segment size, and the place of the headers in a packet buffer. Each of the three misses
what it is for in a corner. A segment that ends at the last sequence number is taken for one that
ends at 0, and one that finds no window is shortened by its SYN and FIN too. The octets of the
maximum segment size are written in one order and read in the other, with a gap behind them. And the
length that `tcpSend` compares with the buffer is not the length of what is put there.

## Main results

* `tcpRecvValid_table_iff`: when `tcpRecvValid` follows the table
* `mss_never_agreed`: the option with the segment size is never right
* `headers_fit_iff`: when the headers stay inside the buffer
-/

namespace Xinu.Tcp

open Net Ipv4

/-! ## Acceptable segments -/

/-- How many sequence numbers the segment takes. -/
def TcpPkt.seqlen (pkt : TcpPkt) : Nat :=
  pkt.seglen + pkt.control.syn.toNat + pkt.control.fin.toNat

/-- A sequence number is in the window, modulo `2 ^ 32`. -/
def Recv.InWindow (r : Recv) (seq : Nat) : Prop :=
  sub32 seq r.rcvnxt < sub32 r.rcvwnd r.rcvnxt
deriving Decidable

/-- The table of the comments of `tcpRecvValid`, modulo `2 ^ 32`. -/
def Recv.Acceptable (r : Recv) (seq len : Nat) : Prop :=
  (len = 0 ∧ sub32 r.rcvwnd r.rcvnxt = 0 ∧ seq = r.rcvnxt) ∨
    (len = 0 ∧ 0 < sub32 r.rcvwnd r.rcvnxt ∧ r.InWindow seq) ∨
    (0 < len ∧ 0 < sub32 r.rcvwnd r.rcvnxt ∧ (r.InWindow seq ∨ r.InWindow (add32 seq (len - 1))))
deriving Decidable

/-- `tcpRecvValid` follows the table, and takes the payload off a segment that finds no window. -/
structure Recv.FollowsTable (r : Recv) (pkt : TcpPkt) : Prop where
  result : (r.tcpRecvValid pkt).2 = true ↔ r.Acceptable pkt.seqnum pkt.seqlen
  payload : sub32 r.rcvwnd r.rcvnxt = 0 →
    (r.tcpRecvValid pkt).1.tcplen = sub16 pkt.tcplen pkt.seglen

/-- The receive variables are words, and the window is not larger than the buffer. -/
structure Recv.Words (r : Recv) : Prop where
  rcvnxt : r.rcvnxt < 2 ^ 32
  rcvwnd : r.rcvwnd < 2 ^ 32
  window : sub32 r.rcvwnd r.rcvnxt ≤ TCP_IBLEN

namespace Recv.Words

variable {r : Recv}

/-- `tcpSeqdiff` is wrong about the size of a window, but not about there being one. -/
theorem availwnd_eq_zero (h : r.Words) :
    tcpSeqdiff r.rcvwnd r.rcvnxt = 0 ↔ sub32 r.rcvwnd r.rcvnxt = 0 := by
  obtain ⟨h₁, h₂, h₃⟩ := h
  unfold tcpSeqdiff add32 sub32 TCP_MAXSEQ TCP_IBLEN at *
  split_ifs <;> omega

/-- In a window the comparisons of the code are exact. -/
theorem inWindow_iff (h : r.Words) {seq : Nat} (_ : seq < 2 ^ 32)
    (hw : 0 < sub32 r.rcvwnd r.rcvnxt) :
    (seqlte r.rcvnxt seq ∧ seqlt seq r.rcvwnd) ↔ r.InWindow seq := by
  obtain ⟨h₁, h₂, h₃⟩ := h
  unfold seqlte seqlt Recv.InWindow sub32 TCP_IBLEN at *
  omega

/-- The number that `seqadd` skips is in the window where 0 is not, or the other way round, exactly
if the window begins or ends there. -/
theorem inWindow_last_iff (h : r.Words) (hw : 0 < sub32 r.rcvwnd r.rcvnxt) :
    (r.InWindow 0 ↔ r.InWindow (2 ^ 32 - 1)) ↔ r.rcvnxt ≠ 0 ∧ r.rcvwnd ≠ 0 := by
  obtain ⟨h₁, h₂, h₃⟩ := h
  unfold Recv.InWindow sub32 TCP_IBLEN at *
  omega

end Recv.Words

theorem seqadd_eq_ite {a b : Nat} :
    seqadd a b = if add32 a b = 2 ^ 32 - 1 then 0 else add32 a b := by
  unfold seqadd add32 TCP_MAXSEQ
  split_ifs <;> omega

/-- A segment reaches the last sequence number from outside of a window that begins or ends
there. -/
def Recv.AtEnd (r : Recv) (pkt : TcpPkt) : Prop :=
  0 < pkt.seqlen ∧ add32 pkt.seqnum (pkt.seqlen - 1) = 2 ^ 32 - 1 ∧ ¬ r.InWindow pkt.seqnum ∧
    (r.rcvnxt = 0 ∨ r.rcvwnd = 0)
deriving Decidable

/-- **`tcpRecvValid` follows the table** unless a segment with SYN or FIN finds no window, or one
reaches the last sequence number from outside of a window that begins or ends there. -/
theorem tcpRecvValid_table_iff {r : Recv} {pkt : TcpPkt} (hr : r.Words) (hpkt : pkt.WellFormed)
    (hseq : pkt.seqnum < 2 ^ 32) :
    r.FollowsTable pkt ↔
      if sub32 r.rcvwnd r.rcvnxt = 0 then pkt.control.syn = false ∧ pkt.control.fin = false
      else ¬ r.AtEnd pkt := by
  have hlen := hpkt.length_lt
  rw [← hpkt.seglen_eq] at hlen
  have hbits := pkt.control.syn.toNat_le
  have hbits' := pkt.control.fin.toNat_le
  have hmod : (pkt.seglen + pkt.control.syn.toNat + pkt.control.fin.toNat) % 2 ^ 16 = pkt.seqlen :=
    Nat.mod_eq_of_lt (by omega)
  split_ifs with hw
  · -- no window: the table asks for an empty segment, and the length for one without flags
    have havail := hr.availwnd_eq_zero.mpr hw
    have hres : (r.tcpRecvValid pkt).2 = true ↔ r.Acceptable pkt.seqnum pkt.seqlen := by
      unfold Recv.tcpRecvValid Recv.Acceptable
      rw [hmod, havail, hw]
      by_cases h0 : pkt.seqlen = 0 <;> simp [h0]
    have htake : (r.tcpRecvValid pkt).1.tcplen = sub16 pkt.tcplen pkt.seqlen := by
      unfold Recv.tcpRecvValid
      dsimp only
      rw [hmod, if_pos havail]
    have hflags : sub16 pkt.tcplen pkt.seqlen = sub16 pkt.tcplen pkt.seglen ↔
        pkt.control.syn = false ∧ pkt.control.fin = false := by
      rw [← Bool.toNat_eq_zero, ← Bool.toNat_eq_zero]
      unfold TcpPkt.seqlen sub16
      omega
    rw [← hflags, ← htake]
    exact ⟨fun h => h.payload hw, fun h => ⟨hres, fun _ => h⟩⟩
  · have hw' : 0 < sub32 r.rcvwnd r.rcvnxt := Nat.pos_of_ne_zero hw
    have havail := mt hr.availwnd_eq_zero.mp hw
    have hfirst := hr.inWindow_iff hseq hw'
    have hlast := hr.inWindow_iff (show seqadd pkt.seqnum (pkt.seqlen - 1) < 2 ^ 32 by
      unfold seqadd add32 TCP_MAXSEQ
      omega) hw'
    have hres : (r.tcpRecvValid pkt).2 = true ↔ r.InWindow pkt.seqnum ∨
        (0 < pkt.seqlen ∧ r.InWindow (seqadd pkt.seqnum (pkt.seqlen - 1))) := by
      unfold Recv.tcpRecvValid
      dsimp only
      rw [hmod, if_neg havail, if_neg havail]
      by_cases h0 : pkt.seqlen = 0
      · simp [h0, hfirst]
      · simp [h0, hfirst, hlast, Nat.pos_of_ne_zero h0]
    have htable : r.Acceptable pkt.seqnum pkt.seqlen ↔ r.InWindow pkt.seqnum ∨
        (0 < pkt.seqlen ∧ r.InWindow (add32 pkt.seqnum (pkt.seqlen - 1))) := by
      unfold Recv.Acceptable
      by_cases h0 : pkt.seqlen = 0
      · simp [h0, hw, hw']
      · simp [h0, hw', Nat.pos_of_ne_zero h0]
    have hfollows : r.FollowsTable pkt ↔
        ((r.tcpRecvValid pkt).2 = true ↔ r.Acceptable pkt.seqnum pkt.seqlen) :=
      ⟨fun h => h.result, fun h => ⟨h, fun h' => absurd h' hw⟩⟩
    have hends := hr.inWindow_last_iff hw'
    rw [hfollows, hres, htable, seqadd_eq_ite]
    unfold Recv.AtEnd
    split_ifs with hsum
    · rw [hsum]
      clear hres htable hfollows hfirst hlast
      grind
    · exact iff_of_true Iff.rfl fun hend => hsum hend.2.1

/-- An octet behind the window of an established connection. -/
theorem tcpRecvValid_table_iff_outside :
    (⟨100, 200, 0, 0, {}, 0, 0, 0, 0, fun _ => 0, fun _ => false, 0⟩ : Recv).FollowsTable
      ⟨80, 200, 0, 0x50, {}, 0, 21, fun _ => 0⟩ :=
  (tcpRecvValid_table_iff ⟨by decide, by decide, by decide⟩ (by decide) (by decide)).mpr
    (by decide)

/-- **A FIN that finds no window** takes an octet off the header: the segment has no data, and 19 of
its 20 octets are left. -/
theorem tcpRecvValid_shortens_header :
    ¬ (⟨100, 100, 0, 0, {}, 0, 0, 0, 0, fun _ => 0, fun _ => false, 0⟩ : Recv).FollowsTable
      ⟨80, 100, 0, 0x50, { fin := true }, 0, 20, fun _ => 0⟩ :=
  fun h => absurd (h.payload (by decide)) (by decide)

/-! ## The maximum segment size -/

def TCP_OPT_END : Nat := 0
def TCP_OPT_NOP : Nat := 1
def TCP_OPT_MSS : Nat := 2
def TCP_OPT_MSS_SIZE : Nat := 6
def TCP_OPT_MSS_LEN : Nat := 4

/-- The length of the options of a SYN. -/
def msslen : Nat := (3 + TCP_OPT_MSS_SIZE) / 4 * 4

/-- `tcpSend` adds options: the octets it writes, by their places in the option area. The value is
in network order. -/
def synOptions (rcvmss : Nat) : List (Nat × UInt8) :=
  let value := (rcvmss + TCP_HDR_LEN) % 2 ^ 16
  let nops := TCP_OPT_MSS_LEN % 4 - 1
  let data := 2 + TCP_OPT_MSS_LEN
  [(0, .ofNat TCP_OPT_MSS), (1, .ofNat TCP_OPT_MSS_LEN), (2, .ofNat (value / 256)),
    (3, .ofNat value)] ++ (List.range nops).map (fun i => (data + i, .ofNat TCP_OPT_NOP)) ++
    [(data + nops, .ofNat TCP_OPT_END)]

/-- The SYN as the other side sees it. The buffer was all zero before the options were written. -/
def synPkt (rcvmss : Nat) : TcpPkt where
  srcpt := 0
  seqnum := 0
  acknum := 0
  offset := (TCP_HDR_LEN + msslen) / 4 * 16
  control := { syn := true }
  window := 0
  tcplen := TCP_HDR_LEN + msslen
  octet i := ((synOptions rcvmss).lookup (i - TCP_HDR_LEN)).getD 0

theorem sndmss_synPkt (s : Send) {rcvmss : Nat} (h : rcvmss + TCP_HDR_LEN < 2 ^ 16) :
    (s.tcpRecvOpts (synPkt rcvmss)).sndmss = sub16
      ((rcvmss + TCP_HDR_LEN) / 256 + (rcvmss + TCP_HDR_LEN) % 256 * 256) TCP_HDR_LEN := by
  have hkind : (synPkt rcvmss).octet 20 = 2 := rfl
  have hhigh : (synPkt rcvmss).octet 22 = .ofNat ((rcvmss + TCP_HDR_LEN) % 2 ^ 16 / 256) := rfl
  have hlow : (synPkt rcvmss).octet 23 = .ofNat ((rcvmss + TCP_HDR_LEN) % 2 ^ 16) := rfl
  have hend : (synPkt rcvmss).octet 24 = 0 := rfl
  have hopts : offset2octets ((TCP_HDR_LEN + msslen) / 4 * 16) = 28 := by decide
  unfold Send.tcpRecvOpts
  rw [show (synPkt rcvmss).offset = (TCP_HDR_LEN + msslen) / 4 * 16 from rfl, hopts,
    if_neg (by decide)]
  dsimp only
  change optsLoop _ 28 28 20 s.sndmss = _
  rw [optsLoop, hkind, if_pos (by decide), if_pos (by decide)]
  simp only [Nat.reduceAdd]
  rw [optsLoop, hend, if_neg (by decide), hhigh, hlow, UInt8.toNat_ofNat', UInt8.toNat_ofNat',
    Nat.mod_eq_of_lt h]
  have hoct : (rcvmss + TCP_HDR_LEN) / 256 < 2 ^ 8 := by omega
  rw [Nat.mod_eq_of_lt hoct]
  congr 1
  exact Nat.mod_eq_of_lt (by omega)

/-- The other side gets the maximum segment size, and the options fill their area. -/
structure MssAgreed (s : Send) (rcvmss : Nat) : Prop where
  sndmss : (s.tcpRecvOpts (synPkt rcvmss)).sndmss = rcvmss
  filled : (synOptions rcvmss).map Prod.fst = List.range msslen

/-- **The maximum segment size is never agreed upon.** The options do not fill their area: the
pointer goes on four octets behind the value, so that two octets and the last one are not written.
Nor does the value get across, as its two octets are read the wrong way round, unless they are
equal. -/
theorem mss_never_agreed (s : Send) {rcvmss : Nat} (h : rcvmss + TCP_HDR_LEN < 2 ^ 16) :
    ¬ MssAgreed s rcvmss ∧ ((s.tcpRecvOpts (synPkt rcvmss)).sndmss = rcvmss ↔
      (rcvmss + TCP_HDR_LEN) % 256 = (rcvmss + TCP_HDR_LEN) / 256) := by
  refine ⟨fun hm => absurd (congrArg List.length hm.filled) ?_, ?_⟩
  · change 5 ≠ 8
    decide
  · rw [sndmss_synPkt s h]
    unfold sub16 TCP_HDR_LEN at *
    omega

theorem mss_never_agreed_ethernet : ¬ MssAgreed (Device.closed 0 [] 0).tcb.snd 1460 :=
  (mss_never_agreed _ (by decide)).1

/-- The segment size of an Ethernet is taken for 51185. -/
theorem mss_swapped :
    ((Device.closed 0 [] 0).tcb.snd.tcpRecvOpts (synPkt 1460)).sndmss = 51185 ∧
      (synOptions 1460).map Prod.fst = [0, 1, 2, 3, 6] ∧ msslen = 8 :=
  ⟨sndmss_synPkt _ (by decide), rfl, rfl⟩

/-! ## The place of the headers -/

/-- The length of the TCP packet. SYN and FIN are not included in `datalen`. -/
def tcplen (ctrl : Control) (datalen : Nat) : Nat :=
  (TCP_HDR_LEN + sub16 (sub16 datalen ctrl.syn.toNat) ctrl.fin.toNat +
    if ctrl.syn then msslen else 0) % 2 ^ 16

/-- `tcpSend` gets space to construct the packet: it backs off the end of a new buffer. -/
def tcpSendSpace (ctrl : Control) (datalen : Nat) : Option Packet :=
  if NET_MAX_PKTLEN < tcplen ctrl datalen then none
  else some ⟨fun _ => 0, NET_MAX_PKTLEN - round8 (tcplen ctrl datalen + 7), tcplen ctrl datalen⟩

/-- `ipv4Send` sets up the outgoing packet header. -/
def ipv4SendSpace (p : Packet) : Packet :=
  { p with curr := p.curr - IPv4_HDR_LEN, len := p.len + IPv4_HDR_LEN }

/-- **The headers fit exactly if there is room for them behind the rounding**, with an Ethernet for
packets of up to 1560 octets, while `tcpSend` only asks that the TCP packet be not larger than the
buffer. -/
theorem headers_fit_iff {nif : Netif} (hstate : nif.state = true) {ctrl : Control} {datalen : Nat}
    {p : Packet} (h : tcpSendSpace ctrl datalen = some p) (hwaddr : Option NetAddr) (type : Nat)
    (x : Delivery) :
    0 ≤ ((ipv4SendSpace p).netSend nif hwaddr type x).1.curr ↔
      round8 (tcplen ctrl datalen + 7) + IPv4_HDR_LEN + nif.linkhdrlen ≤ NET_MAX_PKTLEN := by
  have hcurr : ((ipv4SendSpace p).netSend nif hwaddr type x).1.curr =
      p.curr - IPv4_HDR_LEN - nif.linkhdrlen := by
    unfold Packet.netSend
    rw [if_neg (by simp [hstate])]
    split <;> rfl
  unfold tcpSendSpace at h
  split_ifs at h with hlen
  cases h
  rw [hcurr]
  dsimp only
  omega

theorem headers_fit_full_segment :
    0 ≤ ((ipv4SendSpace ⟨fun _ => 0, 118, 1480⟩).netSend (ethernet 1500) none ETHER_TYPE_IPv4
      delivered).1.curr :=
  (headers_fit_iff rfl (show tcpSendSpace {} 1460 = some _ from rfl) none _ _).mpr (by decide)

/-- A packet that fills the buffer. Its own header begins two octets before the buffer. -/
theorem headers_before_buffer :
    ∃ p, tcpSendSpace {} 1578 = some p ∧ p.curr = -2 ∧
      ((ipv4SendSpace p).netSend (ethernet 1500) none ETHER_TYPE_IPv4 delivered).1.curr = -36 :=
  ⟨_, rfl, rfl, rfl⟩

end Xinu.Tcp
