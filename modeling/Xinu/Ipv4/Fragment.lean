import Xinu.Net.Packet

/-!
# Fragmentation

`ipv4SendFrag` sends a packet that fits into the interface's transmission unit as it is. Of a longer
one it sends the front in place and the rest from a second buffer, fragment by fragment. The flags
and the offset of a fragment share a field, and the code combines them with a bitwise and where it
means a bitwise or, so that the field is 0 in every fragment. What the fragments have to be is
stated without reference to how they are made: every octet is placed where it was, once.

## Main results

* `ipv4SendFrag_invertible_iff`: the fragments make up the packet exactly if it needs none
-/

namespace Xinu.Ipv4

open List Net
open Tcp (NetAddr)

variable {nif : Netif} {pkt : Packet}

/-! ## The code -/

/-- Masks to point to a section of the packet, and flags. -/
def IPv4_IHL : Nat := 0x0F
def IPv4_FLAGS : Nat := 0xE000
def IPv4_FROFF : Nat := 0x1FFF
def IPv4_FLAG_MF : Nat := 0x2000
def IPv4_FLAG_DF : Nat := 0x4000

/-- Length of a header without options. -/
def IPv4_HDR_LEN : Nat := 20

/-- `x & ~0x7`. -/
def round8 (x : Nat) : Nat := x / 8 * 8

/-- The length of the header at an address. -/
def headerLength (m : Mem) (ip : Int) : Nat := ((m ip).toNat &&& IPv4_IHL) * 4

/-- The checksum is cleared and computed over the header. -/
def setChksum (m : Mem) (ip : Int) (hlen : Nat) : Mem :=
  let m := setWord m (ip + 10) 0
  setWord m (ip + 10) (netChksum m ip hlen)

/-- The loop of `ipv4SendFrag`: the packets it hands to `netSend`. The header is written at `outip`
each time, while `netSend` moves the pointer of the packet. The octets of the original packet, from
`data` on, are in `src`. -/
def fragLoop (nif : Netif) (src : Mem) (outip : Int) (lastFlag : Nat) (x : Nat → Delivery) :
    Nat → Packet → Int → Nat → Nat → List (List UInt8)
  | 0, _, _, _, _ => []
  | n + 1, outpkt, data, dRem, froff =>
    if dRem = 0 then []
    else
      let dLen := (if add32 nif.mtu IPv4_HDR_LEN < round8 (dRem + 7) then
        round8 (sub32 nif.mtu IPv4_HDR_LEN) else dRem) % 2 ^ 16
      -- copy data segment
      let mem := copy outpkt.mem (outip + 20) (octets src data dLen)
      -- set more fragments flag
      let mem := setWord mem (outip + 6)
        (if dLen = dRem then lastFlag &&& froff else IPv4_FLAG_MF &&& froff)
      -- update fields
      let mem := setWord mem (outip + 2) (IPv4_HDR_LEN + dLen)
      let mem := setChksum mem outip IPv4_HDR_LEN
      let outpkt : Packet := ⟨mem, outpkt.curr, word mem (outip + 2)⟩
      outpkt.bytes :: fragLoop nif src outip lastFlag x n
        (outpkt.netSend nif none ETHER_TYPE_IPv4 (x n)).1 (data + dLen) (dRem - dLen)
        ((froff + dLen / 8) % 2 ^ 16)

/-- What becomes of a packet: the packets handed to `netSend`, whether an ICMP message says that it
could not be fragmented, and the result. -/
structure Sent where
  handed : List (List UInt8)
  unreach : Bool
  result : Int

/-- `ipv4SendFrag` behind the checks: fragment the packet. `first` is what the first call of
`netSend` meets, `x` what the later ones do, and `buf` whether there is a buffer. -/
def sendFragments (nif : Netif) (pkt : Packet) (first : Delivery)
    (x : Nat → Delivery) (buf : Bool) :
    Sent :=
  let ip := pkt.curr
  let ihl := headerLength pkt.mem ip
  let dRem := sub32 (word pkt.mem (ip + 2)) ihl
  let froff := word pkt.mem (ip + 6) &&& IPv4_FROFF
  let lastFlag := word pkt.mem (ip + 6) &&& IPv4_FLAGS
  -- MTU - header length, rounded down to nearest multiple of 8 bytes
  let dLen := round8 (sub32 nif.mtu ihl) % 2 ^ 16
  let mem := setWord pkt.mem (ip + 2) (ihl + dLen)
  -- set more fragments flag
  let mem := setWord mem (ip + 6) (IPv4_FLAG_MF &&& froff)
  let mem := setChksum mem ip ihl
  let pkt : Packet := ⟨mem, ip, ihl + dLen⟩
  let sent := (pkt.netSend nif none ETHER_TYPE_IPv4 first).1
  if buf = false then ⟨[pkt.bytes], false, SYSERR⟩
  else
    let outip : Int := Tcp.NET_MAX_PKTLEN - nif.mtu
    let outpkt : Packet := ⟨copy (fun _ => 0) outip (octets sent.mem ip IPv4_HDR_LEN), outip, 0⟩
    ⟨pkt.bytes :: fragLoop nif sent.mem outip lastFlag x dRem outpkt (ip + ihl + dLen)
      (sub32 dRem dLen) ((froff + dLen / 8) % 2 ^ 16), false, OK⟩

/-- `ipv4SendFrag`: fragments a packet into chunks of the size of the transmission unit. -/
def ipv4SendFrag (nif : Netif) (pkt : Packet) (nxthop : NetAddr) (first : Delivery)
    (x : Nat → Delivery) (buf : Bool) : Sent :=
  if word pkt.mem (pkt.curr + 2) ≤ nif.mtu then
    -- a subnet broadcast needs no lookup
    let hwaddr : Option NetAddr :=
      if nif.ipbrc = nxthop then some ⟨1, [255, 255, 255, 255, 255, 255]⟩ else none
    ⟨[pkt.bytes], false, (pkt.netSend nif hwaddr ETHER_TYPE_IPv4 first).2⟩
  -- verify header does not have DF
  else if word pkt.mem (pkt.curr + 6) &&& IPv4_FLAG_DF ≠ 0 then ⟨[], true, SYSERR⟩
  else sendFragments nif pkt first x buf

/-! ## What the fragments have to be -/

/-- What a receiver reads in a packet: its place, whether more follow, its octets, and whether the
checksum of the header verifies. -/
structure Fragment where
  froff : Nat
  more : Bool
  data : List UInt8
  verifies : Bool
deriving DecidableEq

/-- The octets of a packet as memory. -/
def area (b : List UInt8) : Mem := fun i => b.getD i.toNat 0

/-- Reading a packet. -/
def fragment (b : List UInt8) : Fragment where
  froff := word (area b) 6 &&& IPv4_FROFF
  more := decide (word (area b) 6 &&& IPv4_FLAG_MF ≠ 0)
  data := (b.take (word (area b) 2)).drop (headerLength (area b) 0)
  verifies := decide (netChksum (area b) 0 (headerLength (area b) 0) = 0)

/-- The octets that some fragments place at a position of the original data. -/
def placed (fs : List Fragment) (n : Nat) : List UInt8 :=
  fs.flatMap fun f =>
    if 8 * f.froff ≤ n ∧ n < 8 * f.froff + f.data.length then
      [f.data.getD (n - 8 * f.froff) 0]
    else []

/-- The fragments make up the original: placed by their offsets they give every octet of it once and
no other, all but the last say that more follow and the last says what the original said, each has
the offset of the octets before it, and each header verifies. -/
structure Invertible (f : Fragment) (fs : List Fragment) : Prop where
  cover : ∀ n, placed fs n = placed [f] n
  more : ∀ k g, fs[k]? = some g → g.more = (decide (k + 1 < fs.length) || f.more)
  offset : ∀ k g, fs[k]? = some g →
    g.froff = f.froff + ((fs.take k).flatMap Fragment.data).length / 8
  verifies : ∀ g ∈ fs, g.verifies = true

/-- A packet that is sent as it is. -/
theorem Invertible.self {f : Fragment} (h : f.verifies = true) : Invertible f [f] := by
  have honly : ∀ {k g}, [f][k]? = some g → k = 0 ∧ f = g := by
    intro k g hg
    cases k with
    | zero => exact ⟨rfl, by simpa using hg⟩
    | succ k => simp at hg
  refine ⟨fun _ => rfl, fun k g hg => ?_, fun k g hg => ?_, fun g hg => ?_⟩
  · obtain ⟨rfl, rfl⟩ := honly hg
    simp
  · obtain ⟨rfl, rfl⟩ := honly hg
    simp
  · rw [mem_singleton.mp hg]
    exact h

/-! ## Packets -/

/-- A packet whose header lies inside it: between 20 and 60 octets of header, and the length that
the header gives. -/
structure WellFormed (pkt : Packet) : Prop where
  header : IPv4_HDR_LEN ≤ headerLength pkt.mem pkt.curr
  length : pkt.len = word pkt.mem (pkt.curr + 2)

theorem word_lt (m : Mem) (a : Int) : word m a < 2 ^ 16 := by
  unfold word
  have h₁ := (m a).toNat_lt
  have h₂ := (m (a + 1)).toNat_lt
  omega

/-- The header of a packet that is read is that of the packet. -/
theorem word_area {p : Packet} {i : Nat} (h : i + 1 < p.len) :
    word (area p.bytes) i = word p.mem (p.curr + i) := by
  have h₁ : area p.bytes i = p.mem (p.curr + i) := by
    rw [area, Int.toNat_natCast, Packet.bytes, getD_octets (by omega)]
  have h₂ : area p.bytes (i + 1) = p.mem (p.curr + i + 1) := by
    rw [area, show ((i : Int) + 1).toNat = i + 1 by omega, Packet.bytes, getD_octets h]
    congr 1
    omega
  rw [word, word, h₁, h₂]

theorem headerLength_area {p : Packet} (h : 0 < p.len) :
    headerLength (area p.bytes) 0 = headerLength p.mem p.curr := by
  have h₁ : area p.bytes 0 = p.mem p.curr := by
    rw [area, Packet.bytes, Int.toNat_zero, getD_octets h]
    exact congrArg p.mem (add_zero _)
  rw [headerLength, headerLength, h₁]

/-- The field of the flags is 0: the flag and the offset have no bit in common. -/
theorem flag_and_froff (w : Nat) : IPv4_FLAG_MF &&& (w &&& IPv4_FROFF) = 0 := by
  rw [Nat.and_comm w, ← Nat.and_assoc]
  exact Nat.zero_and w

/-! ## The first fragment -/

section First

/-- The packet as it is sent first, with `dLen` octets of data. -/
def firstFragment (pkt : Packet) (dLen : Nat) : Packet :=
  let ihl := headerLength pkt.mem pkt.curr
  let mem := setWord pkt.mem (pkt.curr + 2) (ihl + dLen)
  let mem := setWord mem (pkt.curr + 6)
    (IPv4_FLAG_MF &&& (word pkt.mem (pkt.curr + 6) &&& IPv4_FROFF))
  ⟨setChksum mem pkt.curr ihl, pkt.curr, ihl + dLen⟩

theorem firstFragment_header (dLen : Nat) :
    headerLength (firstFragment pkt dLen).mem pkt.curr = headerLength pkt.mem pkt.curr := by
  unfold firstFragment setChksum headerLength
  dsimp only
  rw [setWord_of_ne, setWord_of_ne, setWord_of_ne, setWord_of_ne]

theorem firstFragment_flags (dLen : Nat) :
    word (firstFragment pkt dLen).mem (pkt.curr + 6) = 0 := by
  unfold firstFragment setChksum
  rw [word_setWord_of_ne, word_setWord_of_ne, flag_and_froff, word_setWord (by decide)]

theorem firstFragment_len {dLen : Nat} (h : headerLength pkt.mem pkt.curr + dLen < 2 ^ 16) :
    word (firstFragment pkt dLen).mem (pkt.curr + 2) = headerLength pkt.mem pkt.curr + dLen := by
  unfold firstFragment setChksum
  rw [word_setWord_of_ne, word_setWord_of_ne, word_setWord_of_ne, word_setWord h]

/-- **What a receiver reads in the first fragment**: the offset 0, no more fragments, and `dLen`
octets of data. -/
theorem fragment_firstFragment {dLen : Nat} (h : IPv4_HDR_LEN ≤ headerLength pkt.mem pkt.curr)
    (hlen : headerLength pkt.mem pkt.curr + dLen < 2 ^ 16) :
    (fragment (firstFragment pkt dLen).bytes).froff = 0 ∧
      (fragment (firstFragment pkt dLen).bytes).more = false ∧
      (fragment (firstFragment pkt dLen).bytes).data.length = dLen := by
  have hl : (firstFragment pkt dLen).len = headerLength pkt.mem pkt.curr + dLen := rfl
  unfold IPv4_HDR_LEN at h
  have hflags : word (area (firstFragment pkt dLen).bytes) 6 = 0 := by
    rw [← (firstFragment_flags dLen : word (firstFragment pkt dLen).mem (pkt.curr + 6) = 0)]
    exact word_area (i := 6) (by omega)
  have hword : word (area (firstFragment pkt dLen).bytes) 2 =
      headerLength pkt.mem pkt.curr + dLen := by
    rw [← firstFragment_len hlen]
    exact word_area (i := 2) (by omega)
  have hhead : headerLength (area (firstFragment pkt dLen).bytes) 0 =
      headerLength pkt.mem pkt.curr := by
    rw [headerLength_area (by omega)]
    exact firstFragment_header dLen
  refine ⟨?_, ?_, ?_⟩
  · rw [fragment, hflags]
    rfl
  · rw [fragment, hflags]
    rfl
  · rw [fragment, hword, hhead, length_drop, length_take, Packet.bytes, length_octets, hl]
    omega

end First

/-- The fragments begin with the first one; if there is a buffer, more follow. -/
theorem sendFragments_handed {first : Delivery} {x : Nat → Delivery}
    {buf : Bool} (hmtu : headerLength pkt.mem pkt.curr + 8 ≤ nif.mtu)
    (hlong : nif.mtu < word pkt.mem (pkt.curr + 2)) :
    ∃ dLen rest, (sendFragments nif pkt first x buf).handed =
      (firstFragment pkt dLen).bytes :: rest ∧
      headerLength pkt.mem pkt.curr + dLen < word pkt.mem (pkt.curr + 2) ∧
      (buf = true → rest ≠ []) ∧ (buf = false → rest = []) := by
  have hword := word_lt pkt.mem (pkt.curr + 2)
  have hround : round8 (sub32 nif.mtu (headerLength pkt.mem pkt.curr)) % 2 ^ 16 ≤
      nif.mtu - headerLength pkt.mem pkt.curr := by
    rw [sub32_eq]
    unfold round8
    omega
  have hrem : sub32 (word pkt.mem (pkt.curr + 2)) (headerLength pkt.mem pkt.curr) =
      word pkt.mem (pkt.curr + 2) - headerLength pkt.mem pkt.curr := by
    rw [sub32_eq]
  unfold sendFragments
  dsimp only
  rw [hrem]
  generalize hdLen : round8 (sub32 nif.mtu (headerLength pkt.mem pkt.curr)) % 2 ^ 16 =
      dLen at hround ⊢
  by_cases hbuf : buf = false
  · rw [if_pos hbuf]
    exact ⟨dLen, [], rfl, by omega, fun hb => absurd (hbuf.symm.trans hb) (by simp), fun _ => rfl⟩
  · rw [if_neg hbuf]
    refine ⟨dLen, _, rfl, by omega, fun _ => ?_, fun hb => absurd hb hbuf⟩
    -- something is left, so the loop sends it
    have hleft : sub32 (word pkt.mem (pkt.curr + 2) - headerLength pkt.mem pkt.curr) dLen ≠ 0 := by
      rw [sub32_eq]
      omega
    obtain ⟨n, hn⟩ : ∃ n, word pkt.mem (pkt.curr + 2) - headerLength pkt.mem pkt.curr = n + 1 :=
      ⟨word pkt.mem (pkt.curr + 2) - headerLength pkt.mem pkt.curr - 1, by omega⟩
    rw [hn] at hleft ⊢
    rw [fragLoop, if_neg hleft]
    exact cons_ne_nil _ _

/-- **Fragmentation is invertible for the packets that need none.** For every packet without DF,
with any header, any payload, offset and flag, and every transmission unit that holds the header and
eight octets, the packets handed to `netSend` make up the packet exactly if it fits into the
transmission unit and its own header verifies. -/
theorem ipv4SendFrag_invertible_iff {nif : Netif}
    {pkt : Packet} {nxthop : NetAddr} {first : Delivery}
    {x : Nat → Delivery} {buf : Bool} (hp : WellFormed pkt)
    (hmtu : headerLength pkt.mem pkt.curr + 8 ≤ nif.mtu)
    (hdf : word pkt.mem (pkt.curr + 6) &&& IPv4_FLAG_DF = 0) :
    Invertible (fragment pkt.bytes)
        ((ipv4SendFrag nif pkt nxthop first x buf).handed.map fragment) ↔
      word pkt.mem (pkt.curr + 2) ≤ nif.mtu ∧ (fragment pkt.bytes).verifies = true := by
  unfold ipv4SendFrag
  by_cases hfits : word pkt.mem (pkt.curr + 2) ≤ nif.mtu
  · rw [if_pos hfits]
    refine ⟨fun h => ⟨hfits, h.verifies _ (mem_singleton_self _)⟩, fun h => ?_⟩
    exact .self h.2
  rw [if_neg hfits, if_neg (by simpa using hdf)]
  refine ⟨fun h => absurd h ?_, fun h => absurd h.1 hfits⟩
  obtain ⟨dLen, rest, hhanded, hshort, hmore, hnone⟩ :=
    sendFragments_handed hmtu (by omega)
  have hword := word_lt pkt.mem (pkt.curr + 2)
  have hlen : headerLength pkt.mem pkt.curr + dLen < 2 ^ 16 := by omega
  obtain ⟨hfroff, hflag, hlen⟩ := fragment_firstFragment hp.header hlen
  rw [hhanded, map_cons]
  generalize fragment (firstFragment pkt dLen).bytes = f at hfroff hflag hlen ⊢
  intro hinv
  -- the offset of the first fragment is that of the packet
  have hoff : (fragment pkt.bytes).froff = 0 := by
    have := hinv.offset 0 f rfl
    rw [hfroff, take_zero] at this
    simpa using this.symm
  cases hbuf : buf with
  | true =>
    -- more fragments follow, and the first one does not say so
    have := hinv.more 0 f rfl
    rw [hflag, length_cons] at this
    simp [hmore hbuf] at this
  | false =>
    -- the octet behind the first fragment is not sent
    have hcover := hinv.cover dLen
    have hdata : dLen < (fragment pkt.bytes).data.length := by
      have hl := hp.length
      have hw : word (area pkt.bytes) 2 = word pkt.mem (pkt.curr + 2) :=
        word_area (p := pkt) (i := 2) (by omega)
      rw [fragment, hw, headerLength_area (by omega), length_drop, length_take,
        Packet.bytes, length_octets, hl]
      omega
    rw [hnone hbuf, map_nil] at hcover
    simp only [placed, flatMap_cons, flatMap_nil, hoff, hfroff, hlen] at hcover
    rw [if_neg (by omega), if_pos (by omega)] at hcover
    exact absurd hcover (by simp)

/-- A packet from 10.0.0.1 to 10.0.0.2 with a header of 20 octets and the given payload. -/
def udpPacket (chksum : Nat) (payload : List UInt8) : Packet where
  mem := setWord (setWord (area ([0x45, 0, 0, 0, 0, 0, 0, 0, 64, 17, 0, 0, 10, 0, 0, 1,
    10, 0, 0, 2] ++
    payload)) 2 (20 + payload.length)) 10 chksum
  curr := 0
  len := 20 + payload.length

/-- An interface with the given transmission unit. -/
def ethernet (mtu : Nat) : Netif :=
  ⟨true, mtu, 14, ⟨0x800, [10, 0, 0, 255]⟩, ⟨1, [2, 0, 0, 0, 0, 1]⟩⟩

/-- The lookup of the next hop succeeds, and the device takes the packet. -/
def delivered : Delivery := ⟨.ok ⟨1, [2, 0, 0, 0, 0, 2]⟩, true⟩

/-- A packet of 28 octets, over an interface that takes 1500. -/
theorem ipv4SendFrag_whole :
    (udpPacket 0x66CF [1, 2, 3, 4, 5, 6, 7, 8]).bytes.length ≤ 1500 ∧
      Invertible (fragment (udpPacket 0x66CF [1, 2, 3, 4, 5, 6, 7, 8]).bytes)
        ((ipv4SendFrag (ethernet 1500) (udpPacket 0x66CF [1, 2, 3, 4, 5, 6, 7, 8])
          ⟨0x800, [10, 0, 0, 2]⟩
          delivered (fun _ => delivered) true).handed.map fragment) :=
  ⟨by decide, (ipv4SendFrag_invertible_iff ⟨by decide, by decide⟩
    (by decide) (by decide)).mpr ⟨by decide, by decide⟩⟩

/-- A packet with 80 octets of payload. -/
def long : Packet := udpPacket 0x6687 ((List.range 80).map UInt8.ofNat)

/-- What is handed to `netSend` for it, over an interface that takes 28 octets. -/
def longHanded : List (List UInt8) :=
  (ipv4SendFrag (ethernet 28) long ⟨0x800, [10, 0, 0, 2]⟩ delivered
    (fun _ => delivered) true).handed

/-- **Fragments without offset and without flag.** All fragments of the packet have the offset 0 and
say that they are the last. From the third on a packet begins before its header, with the link-level
headers of the ones before it, and the fifth is longer than the transmission unit. -/
theorem ipv4SendFrag_scattered :
    WellFormed long ∧ headerLength long.mem long.curr + 8 ≤ (ethernet 28).mtu ∧
      word long.mem (long.curr + 6) = 0 ∧ (fragment long.bytes).verifies = true ∧
      (longHanded.take 2).map fragment =
        [⟨0, false, [0, 1, 2, 3, 4, 5, 6, 7], true⟩,
          ⟨0, false, [8, 9, 10, 11, 12, 13, 14, 15], true⟩] ∧
      (longHanded[2]?.map fun b => b.take 16) =
        some [2, 0, 0, 0, 0, 2, 2, 0, 0, 0, 0, 1, 8, 0, 0x45, 0] ∧
      longHanded.map List.length = [28, 28, 28, 28, 68] ∧
      ¬ Invertible (fragment long.bytes) (longHanded.map fragment) := by
  refine ⟨⟨by decide, by decide⟩, by decide, by decide,
    by decide +kernel, by decide +kernel, by decide +kernel, by decide +kernel, fun h => ?_⟩
  -- the first fragment says that no more follow
  have hfirst : (longHanded.map fragment)[0]? =
      some ⟨0, false, [0, 1, 2, 3, 4, 5, 6, 7], true⟩ := by
    decide
  have hmore := h.more 0 _ hfirst
  exact absurd hmore (by decide)

end Xinu.Ipv4
