import Xinu.Tcp.State

/-!
# Packets

A packet buffer is an area of memory with a pointer `curr` to the part in use, which moves towards
the start of the area as headers are put in front. The fields of a header lie in the area in network
order. The sum of the words that `netChksum` computes does not depend on the byte order of the host,
so the words are taken in network order.
-/

namespace Xinu.Net

open Tcp (NetAddr)

/-- Ether packet types. -/
def ETHER_TYPE_IPv4 : Nat := 0x0800

/-- An area of memory. -/
abbrev Mem := Int → UInt8

/-- The 16-bit field at an address, in network order. -/
def word (m : Mem) (a : Int) : Nat := (m a).toNat * 256 + (m (a + 1)).toNat

/-- Writes a 16-bit field. -/
def setWord (m : Mem) (a : Int) (x : Nat) : Mem :=
  store (store m a (UInt8.ofNat (x / 256))) (a + 1) (UInt8.ofNat x)

/-- `memcpy` of some octets to an address. -/
def copy (m : Mem) (a : Int) (l : List UInt8) : Mem :=
  fun i => if a ≤ i ∧ i < a + l.length then l.getD (i - a).toNat 0 else m i

/-- The `n` octets from an address on. -/
def octets (m : Mem) (a : Int) (n : Nat) : List UInt8 :=
  (List.range n).map fun i : Nat => m (a + i)

/-! ## The checksum -/

/-- Add data to the sum. -/
def chksumLoop (m : Mem) : Nat → Int → Nat → Nat → Nat
  | 0, _, _, sum => sum
  | n + 1, a, len, sum =>
    if 1 < len then chksumLoop m n (a + 2) (len - 2) (add32 sum (word m a))
    -- add left-over byte, if any
    else if 0 < len then add32 sum ((m a).toNat * 256)
    else sum

/-- Fold the 32-bit sum into 16 bits. -/
def foldSum : Nat → Nat → Nat
  | 0, sum => sum
  | n + 1, sum => if sum / 2 ^ 16 ≠ 0 then foldSum n (sum / 2 ^ 16 + sum % 2 ^ 16) else sum

/-- `netChksum`: a sum of 32 bits is folded after two rounds. -/
def netChksum (m : Mem) (a : Int) (len : Nat) : Nat :=
  2 ^ 16 - 1 - foldSum 3 (chksumLoop m (len + 1) a len 0) % 2 ^ 16

/-! ## Sending -/

/-- `struct netif`, as far as it is used. -/
structure Netif where
  /-- `NET_ALLOC` rather than `NET_FREE` -/
  state : Bool
  mtu : Nat
  linkhdrlen : Nat
  ipbrc : NetAddr
  hwaddr : NetAddr
deriving DecidableEq

/-- `struct packet`, without the interface. -/
structure Packet where
  mem : Mem
  curr : Int
  len : Nat

/-- The octets in use. -/
def Packet.bytes (p : Packet) : List UInt8 := octets p.mem p.curr p.len

/-- What `netSend` meets: the result of `arpLookup`, and whether the device takes the packet. -/
structure Delivery where
  lookup : Except Int NetAddr
  written : Bool

/-- The octets of an address. -/
def addrOctets (a : NetAddr) : List UInt8 := a.addr.map UInt8.ofNat

/-- `netSend`: puts the link-level header in front and writes the packet to the device. -/
def Packet.netSend (p : Packet) (nif : Netif)
    (hwaddr : Option NetAddr) (type : Nat) (x : Delivery) :
    Packet × Int :=
  if nif.state = false then (p, SYSERR)
  else
    -- make space for the link-level header
    let curr := p.curr - nif.linkhdrlen
    let mem := setWord p.mem (curr + 12) type
    let mem := copy mem (curr + 6) (addrOctets nif.hwaddr)
    let len := add32 p.len nif.linkhdrlen
    match (match hwaddr with | some a => Except.ok a | none => x.lookup) with
    | .error result => (⟨mem, curr, len⟩, result)
    | .ok a => (⟨copy mem curr (addrOctets a), curr, len⟩, if x.written then OK else SYSERR)

/-! ## Reading back -/

variable {m : Mem}

theorem setWord_of_ne {a i : Int} {x : Nat} (h : i ≠ a := by omega) (h' : i ≠ a + 1 := by omega) :
    setWord m a x i = m i := by
  unfold setWord
  rw [store_eq_update, store_eq_update, Function.update_of_ne h', Function.update_of_ne h]

theorem word_setWord {a : Int} {x : Nat} (h : x < 2 ^ 16) : word (setWord m a x) a = x := by
  unfold word setWord
  rw [store_eq_update, store_eq_update, Function.update_of_ne (by omega), Function.update_self,
    Function.update_self, UInt8.toNat_ofNat', UInt8.toNat_ofNat']
  omega

theorem word_setWord_of_ne {a b : Int} {x : Nat} (h : b + 1 < a ∨ a + 1 < b := by omega) :
    word (setWord m a x) b = word m b := by
  unfold word
  rw [setWord_of_ne, setWord_of_ne]

theorem length_octets (m : Mem) (a : Int) (n : Nat) : (octets m a n).length = n := by
  rw [octets, List.length_map, List.length_range]

theorem getD_octets {a : Int} {n i : Nat} (h : i < n) : (octets m a n).getD i 0 = m (a + i) := by
  rw [octets, List.getD_eq_getElem?_getD, List.getElem?_map, List.getElem?_range h]
  rfl

end Xinu.Net
