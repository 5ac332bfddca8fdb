import Xinu.Foundations.Ring
import Xinu.Tcp.Frame

/-!
# The receive stream

The octets of the peer's stream have their places in the ring `in`, whatever the order in which they
come. Of the stream `S`, whose first octet has the sequence number `base`, the reader has taken `R`
octets and `N` octets have come in without a gap. What lies between is in the ring, and of what lies
beyond the octets that are marked are there.

## Main results

* `Reassembly.recvText`, `Reassembly.readLoop`: a segment and a reader keep it
* `receive_stream_integrity`: what holds of every run
-/

namespace Xinu.Tcp

open List Function Ring Device

variable {N R a base hi lo n p : Nat} {S : List UInt8} {d : Device} {data : Nat → UInt8}
variable {pkt : TcpPkt} {r : Recv}

/-- The octet number `k` of a stream. -/
def octetAt (S : List UInt8) (k : Nat) : UInt8 := S.getD k 0

theorem take_succ_octetAt {k : Nat} (h : k < S.length) :
    S.take (k + 1) = S.take k ++ [octetAt S k] := by
  rw [take_add_one, octetAt, getD_eq_getElem?_getD, getElem?_eq_getElem h]
  rfl

/-- What holds of the receive variables when `N` octets have come in without a gap and `R` of them
have been read. -/
structure Reassembly (S : List UInt8) (base p R N : Nat) (r : Recv) : Prop where
  rcvnxt : r.rcvnxt = base + N
  next_le : base + N ≤ r.rcvwnd
  wnd_le : r.rcvwnd ≤ base + R + TCP_IBLEN
  count : r.icount + R = N
  istart : r.istart = Ring.slot TCP_IBLEN p R
  inxt : r.inxt = Ring.slot TCP_IBLEN p N
  length : N ≤ S.length
  held : Ring.Holds r.inbuf TCP_IBLEN p (octetAt S) R N
  marked : ∀ k, N ≤ k → k < R + TCP_IBLEN → r.imark (Ring.slot TCP_IBLEN p k) = true →
    k < S.length ∧ base + k < r.rcvwnd ∧ r.inbuf (Ring.slot TCP_IBLEN p k) = octetAt S k

/-- The stream lies in a range of exact comparisons, with room for a window behind it. -/
structure Within (lo hi base : Nat) (S : List UInt8) : Prop where
  exact : Exact lo hi
  lower : lo ≤ base
  upper : base + S.length + TCP_IBLEN ≤ hi

namespace Reassembly

section

variable (h : Reassembly S base p R N r)
include h

theorem le_add : N ≤ R + TCP_IBLEN := by
  have h₁ := h.next_le
  have h₂ := h.wnd_le
  omega

/-- Nothing but the variables of the ring and of the window matters. -/
theorem congr {r' : Recv} (hnxt : r'.rcvnxt = r.rcvnxt) (hwnd : r'.rcvwnd = r.rcvwnd)
    (hcount : r'.icount = r.icount) (hstart : r'.istart = r.istart) (hinxt : r'.inxt = r.inxt)
    (hbuf : r'.inbuf = r.inbuf) (hmark : r'.imark = r.imark) :
    Reassembly S base p R N r' := by
  refine ⟨hnxt ▸ h.rcvnxt, hwnd ▸ h.next_le, hwnd ▸ h.wnd_le, hcount ▸ h.count, hstart ▸ h.istart,
    hinxt ▸ h.inxt, h.length, hbuf ▸ h.held, ?_⟩
  rw [hwnd, hbuf, hmark]
  exact h.marked

/-- The window an outgoing segment advertises never ends earlier, and fits into the ring. -/
theorem window (W : Within lo hi base S) {st : TcpState} (hst : st.TakesData) :
    Reassembly S base p R N (r.tcpSendWindow st).1 := by
  obtain ⟨E, hlo, hhi⟩ := W
  have hlen := h.length
  have hcount := h.count
  have hle := h.le_add
  have hwindow : sub32 TCP_IBLEN r.icount % 2 ^ 16 = R + TCP_IBLEN - N := by
    rw [sub32_eq (by omega) (by decide), Nat.mod_eq_of_lt (by unfold TCP_IBLEN at *; omega)]
    omega
  have hbound := h.wnd_le
  have hunused : tcpSeqdiff r.rcvwnd r.rcvnxt % 2 ^ 16 = r.rcvwnd - (base + N) := by
    rw [h.rcvnxt, E.tcpSeqdiff_eq (by omega) (by omega) h.next_le,
      Nat.mod_eq_of_lt (by unfold TCP_IBLEN at *; omega)]
  have hadd : ∀ w ≤ TCP_IBLEN, seqadd r.rcvnxt w = base + N + w := by
    intro w hw
    rw [h.rcvnxt, E.seqadd_eq]
  have hswitch : r.tcpSendWindow st = r.tcpSendWindow .estab := by
    rcases hst with rfl | rfl | rfl <;> rfl
  rw [hswitch]
  simp only [Recv.tcpSendWindow, hwindow, hunused]
  generalize hw : (if (R + TCP_IBLEN - N) * 4 < TCP_IBLEN ∨ R + TCP_IBLEN - N < r.rcvmss then 0
    else R + TCP_IBLEN - N) = w
  have hw' : w ≤ R + TCP_IBLEN - N := by
    rw [← hw]
    split_ifs <;> omega
  by_cases hlt : r.rcvwnd - (base + N) < w
  · rw [if_pos hlt, hadd w (by omega)]
    refine ⟨h.rcvnxt, by dsimp only; omega, by dsimp only; omega, h.count, h.istart, h.inxt,
      h.length, h.held, fun k hk hk' hm => ?_⟩
    obtain ⟨h₁, h₂, h₃⟩ := h.marked k hk hk' hm
    exact ⟨h₁, by dsimp only; omega, h₃⟩
  · rw [if_neg hlt]
    exact h

end

end Reassembly

theorem Recv.copyLoop_eq (start : Nat) (data : Nat → UInt8) (n : Nat) (r : Recv) :
    r.copyLoop start data n =
      { r with
        inbuf := (r.copyLoop start data n).inbuf
        imark := (r.copyLoop start data n).imark } := by
  induction n with
  | zero => rfl
  | succ n ih =>
    rw [copyLoop]
    rw [ih]

namespace Reassembly

section

variable (h : Reassembly S base p R N r)
include h

/-- **Copying octets of the stream into the ring**: they have places of their own there. -/
theorem copyLoop (ha : N ≤ a) (hroom : base + a + n ≤ r.rcvwnd)
    (hlen : a + n ≤ S.length) (hdata : ∀ i < n, data i = octetAt S (a + i)) :
    Reassembly S base p R N (r.copyLoop (Ring.slot TCP_IBLEN p a) data n) ∧
      Ring.Holds (r.copyLoop (Ring.slot TCP_IBLEN p a) data n).inbuf TCP_IBLEN p (octetAt S)
        a (a + n) := by
  have hwnd := h.wnd_le
  have hcount := h.count
  -- octet by octet: what is unread lies behind, what is marked keeps its place
  induction n with
  | zero => exact ⟨h, Ring.Holds.empty _ _ _ _ a⟩
  | succ n ih =>
    obtain ⟨h', hheld⟩ := ih (by omega) (by omega) fun i hi => hdata i (by omega)
    have hrcv : (r.copyLoop (Ring.slot TCP_IBLEN p a) data n).rcvwnd = r.rcvwnd := by
      rw [Recv.copyLoop_eq]
    rw [Recv.copyLoop]
    rw [slot_add, hdata n (by omega), store_eq_update, store_eq_update]
    refine ⟨⟨h'.rcvnxt, h'.next_le, h'.wnd_le, h'.count, h'.istart, h'.inxt, h'.length,
      h'.held.write (by omega) (by omega), fun k hk hk' hm => ?_⟩, hheld.push (by omega) ?_⟩
    · dsimp only at hm ⊢
      by_cases hka : k = a + n
      · subst hka
        rw [update_self]
        exact ⟨by omega, by omega, rfl⟩
      · have hne : Ring.slot TCP_IBLEN p k ≠ Ring.slot TCP_IBLEN p (a + n) := fun heq =>
          hka ((slot_inj (by omega : R ≤ k) hk' (by omega) (by omega)).mp heq)
        rw [update_of_ne hne] at hm ⊢
        exact h'.marked k hk hk' hm
    · omega

/-- **The octets that have come in without a gap become ready for the reader.** -/
theorem advance (W : Within lo hi base S) (hroom : base + N + n ≤ r.rcvwnd)
    (hlen : N + n ≤ S.length)
    (hheld : Ring.Holds r.inbuf TCP_IBLEN p (octetAt S) N (N + n)) (ibytes : Nat) :
    Reassembly S base p R (N + n)
      { r with
        icount := add32 r.icount n, ibytes := ibytes, inxt := (r.inxt + n) % TCP_IBLEN
        rcvnxt := seqadd r.rcvnxt n } := by
  obtain ⟨E, hlo, hhi⟩ := W
  have hcount := h.count
  have hlt := E.lt hhi
  refine ⟨?_, by dsimp only; omega, h.wnd_le, ?_, h.istart, ?_, hlen, ?_, ?_⟩
  · rw [h.rcvnxt, E.seqadd_eq, add_assoc]
  · change add32 r.icount n + R = N + n
    rw [add32_eq]
    omega
  · change (r.inxt + n) % TCP_IBLEN = _
    rw [h.inxt, slot_add]
  · intro k hk hk'
    rcases lt_or_ge k N with hkN | hkN
    · exact h.held k hk hkN
    · exact hheld k hkN hk'
  · exact fun k hk hk' hm => h.marked k (by omega) hk' hm

/-- **The loop over the marks** stops at the first octet that is missing, or at the FIN. -/
theorem markLoop (W : Within lo hi base S) (fuel : Nat) :
    ∃ N', N ≤ N' ∧ Reassembly S base p R N' (r.markLoop fuel).1 := by
  induction fuel generalizing r N with
  | zero => exact ⟨N, le_rfl, h⟩
  | succ fuel ih =>
    rw [Recv.markLoop]
    by_cases hmark : r.icount < TCP_IBLEN ∧ r.imark r.inxt = true
    · rw [if_pos hmark]
      have hcount := h.count
      rw [h.inxt] at hmark
      obtain ⟨hlen, hwnd, hoct⟩ := h.marked N le_rfl (by omega) hmark.2
      have h' := h.advance W (n := 1) (by omega) (by omega)
        (fun k hk hk' => by rw [show k = N by omega]; exact hoct) (add32 r.ibytes 1)
      rw [add32_eq (by have := hmark.1; unfold TCP_IBLEN at this; omega)] at h'
      dsimp only
      split_ifs
      · exact ⟨N + 1, by omega, h'⟩
      · obtain ⟨N', hN', h''⟩ := ih h'
        exact ⟨N', by omega, h''⟩
    · rw [if_neg hmark]
      exact ⟨N, le_rfl, h⟩

/-- **The reader takes the octets of the stream in order**, and clears their marks. -/
theorem readLoop (len : Nat) :
    ∃ R', Reassembly S base p R' N (r.readLoop len).1 ∧
      S.take R ++ (r.readLoop len).2 = S.take R' := by
  induction len generalizing r R with
  | zero => exact ⟨R, h, by rw [Recv.readLoop, append_nil]⟩
  | succ len ih =>
    have hcount := h.count
    rw [Recv.readLoop]
    by_cases hpos : 0 < r.icount
    · rw [if_pos hpos]
      have h' : Reassembly S base p (R + 1) N
          { r with
            imark := store r.imark r.istart false
            istart := (r.istart + 1) % TCP_IBLEN
            icount := r.icount - 1 } := by
        have hwnd := h.wnd_le
        refine ⟨h.rcvnxt, h.next_le, by dsimp only; omega, by dsimp only; omega, ?_, h.inxt,
          h.length, h.held.mono (by omega) le_rfl, fun k hk hk' hm => ?_⟩
        · rw [h.istart, slot_add]
        · dsimp only at hm ⊢
          rw [h.istart, store_eq_update] at hm
          by_cases hkR : k = R + TCP_IBLEN
          · -- the place of the octet just read belongs to a new one, which has not come in
            have hslot : Ring.slot TCP_IBLEN p k = Ring.slot TCP_IBLEN p R := by
              rw [hkR, Ring.slot, Ring.slot, ← Nat.add_assoc, Nat.add_mod_right]
            rw [hslot, update_self] at hm
            exact absurd hm (by simp)
          · rw [update_of_ne (slot_ne).symm] at hm
            exact h.marked k hk (by omega) hm
      obtain ⟨R', h'', htake⟩ := ih h'
      refine ⟨R', h'', ?_⟩
      have hlen := h.length
      have hoct : r.inbuf r.istart = octetAt S R := by
        rw [h.istart, h.held R le_rfl (by omega)]
      rw [← htake, hoct, take_succ_octetAt (by omega), append_assoc, singleton_append]
    · rw [if_neg hpos]
      exact ⟨R, h, append_nil _⟩

end

end Reassembly

/-! ## Segments -/

namespace TcpPkt

/-- The header of the segment lies inside it. -/
def WellFormed (pkt : TcpPkt) : Prop :=
  TCP_HDR_LEN ≤ offset2octets pkt.offset ∧ offset2octets pkt.offset ≤ pkt.tcplen ∧
    pkt.tcplen < 2 ^ 16
deriving Decidable

/-- The number of octets of data. -/
def length (pkt : TcpPkt) : Nat := pkt.tcplen - offset2octets pkt.offset

theorem WellFormed.seglen_eq (h : pkt.WellFormed) : pkt.seglen = pkt.length := by
  obtain ⟨-, h₂, h₃⟩ := h
  unfold seglen length sub16
  omega

theorem WellFormed.length_lt (h : pkt.WellFormed) : pkt.length + 20 < 2 ^ 16 := by
  obtain ⟨h₁, h₂, h₃⟩ := h
  unfold length
  unfold TCP_HDR_LEN at h₁
  omega

/-- The data of the segment agrees with the stream `S`, whose first octet has the sequence number
`base`. Octets of an earlier time may stand in front. -/
structure PartOf (S : List UInt8) (base lo : Nat) (pkt : TcpPkt) : Prop where
  header : pkt.WellFormed
  first : lo ≤ pkt.seqnum
  last : pkt.seqnum + pkt.length ≤ base + S.length
  data : ∀ i < pkt.length, base ≤ pkt.seqnum + i → pkt.data i = octetAt S (pkt.seqnum + i - base)

instance (S : List UInt8) (base lo : Nat) (pkt : TcpPkt) : Decidable (pkt.PartOf S base lo) :=
  decidable_of_iff (pkt.WellFormed ∧ lo ≤ pkt.seqnum ∧ pkt.seqnum + pkt.length ≤ base + S.length ∧
      ∀ i < pkt.length, base ≤ pkt.seqnum + i → pkt.data i = octetAt S (pkt.seqnum + i - base))
    ⟨fun h => ⟨h.1, h.2.1, h.2.2.1, h.2.2.2⟩, fun h => ⟨h.header, h.first, h.last, h.data⟩⟩

end TcpPkt

/-- The segment begins in the window, or it begins before the window and ends in it, its FIN counted
as an octet. -/
def Reaches (next wnd : Nat) (pkt : TcpPkt) : Prop :=
  next ≤ pkt.seqnum ∧ pkt.seqnum < wnd ∨
    pkt.seqnum < next ∧ next < pkt.seqnum + pkt.length + pkt.control.fin.toNat ∧
      pkt.seqnum + pkt.length + pkt.control.fin.toNat ≤ wnd

theorem Recv.Fit.kept_le (x : Recv.Fit) : x.kept ≤ x.seglen ∧ x.kept ≤ x.window := by
  unfold Recv.Fit.kept
  split_ifs <;> omega

namespace Recv

section

variable (E : Exact lo hi) (hlo : lo ≤ r.rcvnxt) (hle : r.rcvnxt ≤ r.rcvwnd) (hhi : r.rcvwnd ≤ hi)
    (hfirst : lo ≤ pkt.seqnum)
include E hlo hle hhi hfirst

/-- When a segment is acceptable, without the circle of the sequence numbers. -/
theorem tcpRecvValid_cases {n : Nat} (hn : (pkt.seglen + pkt.control.fin.toNat) % 2 ^ 16 = n)
    (hlast : pkt.seqnum + n ≤ hi) (hv : (r.tcpRecvValid pkt).2 = true)
    (hsyn : (r.tcpRecvValid pkt).1.control.syn = false) :
    (r.rcvwnd = r.rcvnxt ∧ pkt.seqnum = r.rcvnxt ∧
        (pkt.seglen + pkt.control.syn.toNat + pkt.control.fin.toNat) % 2 ^ 16 = 0 ∧
        (r.tcpRecvValid pkt).1 = { pkt with
          control := { pkt.control with psh := false, syn := false, fin := false }
          tcplen := sub16 pkt.tcplen 0 }) ∨
      (r.tcpRecvValid pkt).1 = pkt ∧ (r.rcvnxt ≤ pkt.seqnum ∧ pkt.seqnum < r.rcvwnd ∨
        0 < n ∧ r.rcvnxt < pkt.seqnum + n ∧ pkt.seqnum + n ≤ r.rcvwnd) := by
  have hin : ∀ seq, lo ≤ seq → seq ≤ hi →
      (seqlte r.rcvnxt seq ∧ seqlt seq r.rcvwnd ↔ r.rcvnxt ≤ seq ∧ seq < r.rcvwnd) := by
    intro seq h₁ h₂
    rw [E.seqlte_iff hlo (by omega) h₁ h₂, E.seqlt_iff h₁ h₂]
  simp only [tcpRecvValid, E.tcpSeqdiff_eq hhi hlo hle] at hv hsyn ⊢
  by_cases hzero : r.rcvwnd - r.rcvnxt = 0
  · -- only a segment without length is acceptable, and its FIN is dropped
    simp only [hzero, if_true] at hv ⊢
    by_cases hnil : (pkt.seglen + pkt.control.syn.toNat + pkt.control.fin.toNat) % 2 ^ 16 = 0
    · rw [if_pos hnil, decide_eq_true_eq] at hv
      exact .inl ⟨by omega, hv, hnil, by rw [hnil]⟩
    · rw [if_neg hnil] at hv
      exact absurd hv (by simp)
  · simp only [hzero, if_false] at hv hsyn ⊢
    rw [hsyn, Bool.toNat_false, add_zero, hn] at hv
    refine .inr ⟨trivial, ?_⟩
    by_cases hnil : n = 0
    · rw [if_pos hnil, decide_eq_true_eq, hin _ hfirst (by omega)] at hv
      exact .inl hv
    · rw [if_neg hnil, E.seqadd_eq (by omega), Bool.or_eq_true, decide_eq_true_eq,
        decide_eq_true_eq,
        hin _ hfirst (by omega), hin _ (by omega) (by omega)] at hv
      omega

/-- Where a segment goes, without the circle of the sequence numbers. -/
theorem fit_cases (hlast : pkt.seqnum ≤ hi) :
    pkt.seqnum < r.rcvnxt ∧ r.fit pkt = ⟨r.rcvnxt - pkt.seqnum,
        sub16 pkt.seglen (r.rcvnxt - pkt.seqnum), r.inxt,
        sub32 (r.rcvwnd - r.rcvnxt) (r.rcvnxt - pkt.seqnum)⟩ ∨
      r.rcvnxt ≤ pkt.seqnum ∧ r.fit pkt = ⟨0, pkt.seglen,
        (r.inxt + (pkt.seqnum - r.rcvnxt)) % TCP_IBLEN,
        sub32 (r.rcvwnd - r.rcvnxt) (pkt.seqnum - r.rcvnxt)⟩ := by
  unfold fit
  rw [E.tcpSeqdiff_eq hhi hlo hle]
  by_cases hold : seqlt pkt.seqnum r.rcvnxt
  · rw [if_pos hold]
    rw [E.seqlt_iff hfirst hlast hlo] at hold
    exact .inl ⟨hold, by rw [E.tcpSeqdiff_eq (by omega) hfirst hold.le]⟩
  · rw [if_neg hold]
    rw [E.seqlt_iff hfirst hlast hlo, not_lt] at hold
    exact .inr ⟨hold, by rw [E.tcpSeqdiff_eq hlast hlo hold]⟩

end

end Recv

namespace Reassembly

section

variable (h : Reassembly S base p R N r) (W : Within lo hi base S) (hp : pkt.PartOf S base lo)
include h W hp

/-- **An acceptable segment** reaches into the window; if there is none, nothing is left of it. -/
theorem tcpRecvValid
    (hv : (r.tcpRecvValid pkt).2 = true) (hsyn : (r.tcpRecvValid pkt).1.control.syn = false) :
    (r.tcpRecvValid pkt).1 = pkt ∧ Reaches (base + N) r.rcvwnd pkt ∨
      (r.tcpRecvValid pkt).1.seglen = 0 ∧ (r.tcpRecvValid pkt).1.control.fin = false := by
  obtain ⟨E, hlo, hhi⟩ := W
  have hlen := h.length
  have hnxt := h.rcvnxt
  have hnext := h.next_le
  have hwnd := h.wnd_le
  have hcount := h.count
  have hlast := hp.last
  have hlt := hp.header.length_lt
  have hfin : pkt.control.fin.toNat ≤ 1 := Bool.toNat_le _
  have hiblen : TCP_IBLEN = 16384 := rfl
  have hn : (pkt.seglen + pkt.control.fin.toNat) % 2 ^ 16 = pkt.length + pkt.control.fin.toNat := by
    rw [hp.header.seglen_eq, Nat.mod_eq_of_lt (by omega)]
  rcases Recv.tcpRecvValid_cases E (by omega) (by omega) (by omega) hp.first hn (by omega)
      hv hsyn with
    ⟨-, -, hseglen, hpkt⟩ | ⟨hpkt, hin⟩
  · right
    rw [hpkt]
    have hsyn' : pkt.control.syn.toNat ≤ 1 := Bool.toNat_le _
    have hoff := hp.header.2.1
    refine ⟨?_, rfl⟩
    change sub16 (sub16 pkt.tcplen 0) (offset2octets pkt.offset) = 0
    rw [hp.header.seglen_eq] at hseglen
    unfold TcpPkt.length at hseglen hlt
    unfold sub16
    omega
  · refine .inl ⟨hpkt, ?_⟩
    unfold Reaches
    omega

/-- **Where a segment goes.** The part of it that is kept begins at the octet number `a`, beyond
what has come in without a gap, and ends in the window. -/
theorem fit (hr : Reaches (base + N) r.rcvwnd pkt) :
    ∃ a, N ≤ a ∧ (r.fit pkt).start = Ring.slot TCP_IBLEN p a ∧
      ((r.fit pkt).start = r.inxt ↔ a = N) ∧ base + a = pkt.seqnum + (r.fit pkt).skip ∧
      (r.fit pkt).skip + (r.fit pkt).seglen = pkt.length ∧ base + a + (r.fit pkt).kept ≤ r.rcvwnd ∧
      (base + N ≤ pkt.seqnum → (r.fit pkt).skip = 0) := by
  obtain ⟨E, hlo, hhi⟩ := W
  have hlen := h.length
  have hnxt := h.rcvnxt
  have hnext := h.next_le
  have hwnd := h.wnd_le
  have hcount := h.count
  have hlast := hp.last
  have hfirst := hp.first
  have hlt := hp.header.length_lt
  have hfin : pkt.control.fin.toNat ≤ 1 := Bool.toNat_le _
  have hkept := (r.fit pkt).kept_le
  revert hkept
  rcases Recv.fit_cases (r := r) E (by omega) (by omega) (by omega) hfirst (by omega) with
    ⟨hlt', hfit⟩ | ⟨hge, hfit⟩
  · -- the front of the segment has come in before
    have hend := (hr.resolve_left (by omega)).2
    rw [hfit, hp.header.seglen_eq]
    rintro ⟨hn, -⟩
    refine ⟨N, le_rfl, h.inxt, by simp, by dsimp only; omega, ?_⟩
    have hsub : sub16 pkt.length (r.rcvnxt - pkt.seqnum) =
        pkt.length - (r.rcvnxt - pkt.seqnum) := by
      unfold sub16
      omega
    dsimp only at hn ⊢
    omega
  · have hin := (hr.resolve_right (by omega)).2
    rw [hfit, hp.header.seglen_eq, sub32_eq (by omega) (by have := E.lt (by omega); omega)]
    rintro ⟨hn, hn'⟩
    dsimp only at hn hn' ⊢
    refine ⟨pkt.seqnum - base, by omega, ?_, ?_, by omega, by omega⟩
    · rw [h.inxt, slot_add]
      congr 1
      omega
    · rw [h.inxt, slot_add, slot_inj (show N ≤ _ by omega) (by omega) le_rfl (by omega)]
      omega

end

end Reassembly

/-! ## The device -/

namespace Device

theorem advance_state (d : Device) (n : Nat) : (d.advance n).1.tcb.state = d.tcb.state := by
  unfold advance
  dsimp only
  split_ifs <;> rfl

theorem advance_hist (d : Device) (n : Nat) : (d.advance n).1.hist = d.hist := by
  unfold advance
  dsimp only
  split_ifs <;> rfl

theorem recvText_state (d : Device) (pkt : TcpPkt) :
    (d.recvText pkt).1.tcb.state = d.tcb.state := by
  unfold recvText
  dsimp only
  split_ifs
  · exact advance_state ..
  · rfl
  · rfl

theorem recvText_hist (d : Device) (pkt : TcpPkt) : (d.recvText pkt).1.hist = d.hist := by
  unfold recvText
  dsimp only
  split_ifs
  · exact advance_hist ..
  · rfl
  · rfl

end Device

namespace Reassembly

section

variable (h : Reassembly S base p R N d.tcb.rcv) (W : Within lo hi base S)
include h W

/-- The octets behind the current data that have come in already follow. -/
theorem device_advance (hroom : base + N + n ≤ d.tcb.rcv.rcvwnd) (hlen : N + n ≤ S.length)
    (hheld : Ring.Holds d.tcb.rcv.inbuf TCP_IBLEN p (octetAt S) N (N + n)) :
    ∃ N', N ≤ N' ∧ Reassembly S base p R N' (d.advance n).1.tcb.rcv := by
  have h' := h.advance W hroom hlen hheld (add32 d.tcb.rcv.ibytes n)
  obtain ⟨N', hN', h''⟩ := h'.markLoop W TCP_IBLEN
  refine ⟨N', by omega, ?_⟩
  unfold Device.advance
  dsimp only
  split_ifs
  · exact h''.congr rfl rfl rfl rfl rfl rfl rfl
  · exact h''

/-- **A segment that agrees with the stream keeps the receive variables in order.** -/
theorem recvText (hp : pkt.PartOf S base lo) (hr : Reaches (base + N) d.tcb.rcv.rcvwnd pkt) :
    ∃ N', N ≤ N' ∧ Reassembly S base p R N' (d.recvText pkt).1.tcb.rcv := by
  obtain ⟨a, ha, hstart, hinxt, hskip, hseglen, hroom, -⟩ := h.fit W hp hr
  have hkept := (d.tcb.rcv.fit pkt).kept_le.1
  have hlast := hp.last
  unfold Device.recvText
  dsimp only
  generalize d.tcb.rcv.fit pkt = x at hstart hinxt hskip hseglen hkept hroom ⊢
  have hdata : ∀ i < x.kept, (fun i => pkt.data (x.skip + i)) i = octetAt S (a + i) := by
    intro i hi
    dsimp only
    rw [hp.data _ (by omega) (by omega)]
    congr 1
    omega
  obtain ⟨h', hheld⟩ := h.copyLoop ha hroom (by omega) hdata
  rw [← hstart] at h' hheld
  have hwnd : (d.tcb.rcv.copyLoop x.start (fun i => pkt.data (x.skip + i)) x.kept).rcvwnd =
      d.tcb.rcv.rcvwnd := by
    rw [Recv.copyLoop_eq]
  split_ifs with h₁ h₂
  · obtain rfl := hinxt.mp h₂
    exact device_advance h' W (by rw [← hwnd] at hroom; exact hroom)
      (by omega) hheld
  · exact ⟨N, le_rfl, h'⟩
  · exact ⟨N, le_rfl, h⟩

end

end Reassembly

/-! ## Runs -/

/-- The octets in the ring that are ready for the reader. -/
def Recv.unread (r : Recv) : List UInt8 :=
  (List.range r.icount).map fun i => r.inbuf ((r.istart + i) % TCP_IBLEN)

/-- A segment that comes in agrees with the stream `S`. -/
def Call.Agrees (S : List UInt8) (base lo : Nat) : Call → Prop
  | .recv pkt _ => pkt.PartOf S base lo
  | _ => True

instance (S : List UInt8) (base lo : Nat) : ∀ c : Call, Decidable (c.Agrees S base lo) := by
  rintro ⟨⟩ <;> unfold Call.Agrees <;> infer_instance

/-- The device in the state ESTAB, with a peer whose segments agree with the stream `S`. -/
def peerMachine (S : List UInt8) (base lo : Nat) : Machine Device Call :=
  tcpMachine.restrict fun d c => d.tcb.state = .estab ∧ c.Agrees S base lo

instance (S : List UInt8) (base lo : Nat) (d : Device) (c : Call) :
    Decidable ((peerMachine S base lo).enabled d c) := inferInstanceAs (Decidable (_ ∧ _ ∧ _))

/-- A connection that has just been established, before any data. -/
structure Established (d : Device) : Prop where
  state : d.tcb.state = .estab
  istart : d.tcb.rcv.istart < TCP_IBLEN
  inxt : d.tcb.rcv.inxt = d.tcb.rcv.istart
  icount : d.tcb.rcv.icount = 0
  imark : ∀ i < TCP_IBLEN, d.tcb.rcv.imark i = false
  next_le : d.tcb.rcv.rcvnxt ≤ d.tcb.rcv.rcvwnd
  wnd_le : d.tcb.rcv.rcvwnd ≤ d.tcb.rcv.rcvnxt + TCP_IBLEN
  delivered : d.hist.delivered = []

/-- The octets handed to readers, followed by those in the ring, are the stream as far as it has
come in, and the indices of the ring agree with its count. -/
structure StreamSound (S : List UInt8) (base : Nat) (d : Device) : Prop where
  bounded : d.tcb.rcv.icount ≤ TCP_IBLEN
  ring : d.tcb.rcv.inxt = (d.tcb.rcv.istart + d.tcb.rcv.icount) % TCP_IBLEN
  stream : d.hist.delivered ++ d.tcb.rcv.unread = S.take (d.tcb.rcv.rcvnxt - base)

/-- At least `N₀` octets of the stream have come in without a gap, and the octets read so far have
been delivered. -/
def Received (S : List UInt8) (base p N₀ : Nat) (r : Recv) (delivered : List UInt8) : Prop :=
  ∃ R N, N₀ ≤ N ∧ Reassembly S base p R N r ∧ delivered = S.take R

theorem Received.invariant (p N₀ : Nat) (W : Within lo hi base S) :
    ReceiveInvariant (Received S base p N₀) where
  window st hst r l := by
    rintro ⟨R, N, hN, hr, hl⟩
    exact ⟨R, N, hN, hr.window W hst, hl⟩
  readers r l n := by
    rintro ⟨R, N, hN, hr, hl⟩
    exact ⟨R, N, hN, hr.congr rfl rfl rfl rfl rfl rfl rfl, hl⟩
  read r l len := by
    rintro ⟨R, N, hN, hr, hl⟩
    obtain ⟨R', hr', htake⟩ := hr.readLoop len
    exact ⟨R', N, hN, hr', by rw [hl, htake]⟩

/-- While the connection is established, at least `N₀` octets have come in without a gap, and the
octets read so far have been delivered. -/
def Receiving (S : List UInt8) (base p N₀ : Nat) (d : Device) : Prop :=
  d.tcb.state = .estab → ∃ R N, N₀ ≤ N ∧ Reassembly S base p R N d.tcb.rcv ∧
    d.hist.delivered = S.take R

namespace Receiving

variable {N₀ : Nat} {d' : Device}

theorem of_closed (h : d.tcb.state ≠ .estab) : Receiving S base p N₀ d := fun h' => absurd h' h

section

variable (h : Receiving S base p N₀ d)
include h

theorem outputs {P : Segment → Prop} (W : Within lo hi base S) (ho : Outputs P d d') :
    Receiving S base p N₀ d' := by
  intro hst
  rw [ho.state] at hst
  exact ((Received.invariant p N₀ W).outputs (.inl hst) (h hst) ho).2

theorem recvFin (seqnum seglen : Nat) (hst : d.tcb.state = .estab) :
    Receiving S base p N₀ (d.recvFin seqnum seglen) := by
  have hclose : ∀ d : Device, d.tcb.state = .estab → d.processFin.tcb.state = .closewt := by
    intro d hd
    unfold processFin
    split_ifs <;> simp only [signalReaders, modRcv, hd] <;> rfl
  obtain ⟨R, N, hN, hr, hd⟩ := h hst
  have hr' : Reassembly S base p R N { d.tcb.rcv with
      rcvfin := seqadd seqnum seglen, rcvflg := { d.tcb.rcv.rcvflg with fin := true } } :=
    hr.congr rfl rfl rfl rfl rfl rfl rfl
  unfold Device.recvFin
  dsimp only
  split_ifs
  · exact of_closed (by rw [hclose d hst]; simp)
  · exact h
  · exact of_closed (by rw [hclose (d.modRcv _) hst]; simp)
  · exact fun _ => ⟨R, N, hN, hr', hd⟩

section

variable (W : Within lo hi base S)
include W

theorem tcpRecvData (hst : d.tcb.state = .estab) (hp : pkt.PartOf S base lo)
    (hr : Reaches d.tcb.rcv.rcvnxt d.tcb.rcv.rcvwnd pkt) :
    Receiving S base p N₀ (d.tcpRecvData pkt).1 := by
  have htext : Receiving S base p N₀ (d.recvText pkt).1 := by
    obtain ⟨R, N, hN, hreas, hd⟩ := h hst
    rw [hreas.rcvnxt] at hr
    obtain ⟨N', hN', hreas'⟩ := hreas.recvText W hp hr
    exact fun _ => ⟨R, N', hN.trans hN', hreas', by rw [recvText_hist]; exact hd⟩
  have hst' := (d.recvText_state pkt).trans hst
  refine Receiving.outputs ?_ W (outputs_respond _)
  split_ifs
  · exact htext.recvFin _ _ hst'
  · exact htext

theorem tcpRecvData_nil (hlen : pkt.seglen = 0)
    (hfin : pkt.control.fin = false) : Receiving S base p N₀ (d.tcpRecvData pkt).1 := by
  rw [tcpRecvData_of_skip hfin (by omega)]
  exact h.outputs W (outputs_respond _)

/-- **A segment that comes in.** -/
theorem tcpRecvOther (hst : d.tcb.state = .estab)
    (hp : pkt.PartOf S base lo) : Receiving S base p N₀ (d.tcpRecvOther pkt).1 := by
  obtain ⟨R, N, hN, hreas, hd⟩ := h hst
  have hvalid := hreas.tcpRecvValid W hp
  unfold Device.tcpRecvOther
  dsimp only
  generalize d.tcb.rcv.tcpRecvValid pkt = v at hvalid ⊢
  split_ifs with hbad hrst hrst hsynrecv hpassive hsyn hack
  · exact h
  · exact h.outputs W (outputs_tcpSendAck d)
  · simp [hst] at hsynrecv
  · simp [hst] at hsynrecv
  · exact h
  · exact fun hst => h hst
  · exact h
  · -- the ACK leaves the receive variables alone
    have hack' : d.recvAckState v.1 = (d.tcpRecvAck v.1, none) := by
      unfold recvAckState
      rw [hst]
    rw [hack']
    have h' := h.outputs W ((d.quiet_tcpRecvAck v.1).outputs fun _ => True)
    have hst' := (d.quiet_tcpRecvAck v.1).state.trans hst
    rcases hvalid (by simpa using hbad) (by simpa using hsyn) with ⟨hpkt, hr⟩ | ⟨hlen, hfin⟩
    · rw [← hreas.rcvnxt, ← (d.quiet_tcpRecvAck v.1).rcv, ← hpkt] at hr
      exact h'.tcpRecvData W hst' (hpkt ▸ hp) hr
    · exact h'.tcpRecvData_nil W hlen hfin

theorem recv (hst : d.tcb.state = .estab) (hp : pkt.PartOf S base lo) (src : NetAddr) :
    Receiving S base p N₀ (d.exec (.recv pkt src)) := by
  have h' : Receiving S base p N₀ (d.readOpts pkt) :=
    fun hst => h hst
  have hother := h'.tcpRecvOther W hst hp
  change Receiving S base p N₀ (d.waitMutex.tcpRecv pkt src).1
  have hstate : d.waitMutex.tcb.state = .estab := hst
  unfold tcpRecv
  rw [if_neg (by rw [hstate]; simp)]
  dsimp only
  have hstate' : (d.readOpts pkt).tcb.state = .estab := hst
  rw [hstate']
  split_ifs
  · exact of_closed (by rw [tcpFree_state]; simp)
  · exact hother.outputs W (outputs_signalMutex (P := fun _ => True) _)

/-- **Every step keeps the stream.** -/
theorem step (hst : d.tcb.state = .estab) (c : Call)
    (hc : c.Agrees S base lo) : Receiving S base p N₀ (d.exec c) := by
  by_cases hrecv : ∃ pkt src, c = .recv pkt src
  · obtain ⟨pkt, src, rfl⟩ := hrecv
    exact h.recv W hst hc src
  · have hother : ∀ pkt src, c ≠ .recv pkt src := fun pkt src heq => hrecv ⟨pkt, src, heq⟩
    rcases (Received.invariant p N₀ W).exec (.inl hst) (h hst) c hother with h' | h'
    · exact of_closed (by rw [h']; simp)
    · exact fun _ => h'.2

end

end

end Receiving

theorem take_add_octetAt {k : Nat} (h : k + n ≤ S.length) :
    S.take (k + n) = S.take k ++ (range n).map fun i => octetAt S (k + i) := by
  induction n with
  | zero => simp
  | succ n ih =>
    rw [← add_assoc, take_succ_octetAt (by omega), ih (by omega), range_succ,
      map_append, append_assoc]
    rfl

/-- What the receive variables say about the stream. -/
theorem Reassembly.sound
    (h : Reassembly S base p R N d.tcb.rcv) (hd : d.hist.delivered = S.take R) :
    StreamSound S base d := by
  have hcount := h.count
  have hle := h.le_add
  have hlen := h.length
  refine ⟨by omega, ?_, ?_⟩
  · rw [h.inxt, h.istart, slot_add]
    congr 1
    omega
  · have hunread : d.tcb.rcv.unread =
        (range d.tcb.rcv.icount).map fun i => octetAt S (R + i) := by
      refine map_congr_left fun i hi => ?_
      rw [mem_range] at hi
      rw [h.istart, slot_add]
      exact h.held _ (by omega) (by omega)
    rw [hunread, hd, ← take_add_octetAt (by omega), h.rcvnxt]
    congr 1
    omega

/-- Before any data has come in. -/
theorem Reassembly.start (hstart : r.istart < TCP_IBLEN)
    (hinxt : r.inxt = r.istart) (hcount : r.icount = 0) (hmark : ∀ i < TCP_IBLEN, r.imark i = false)
    (hnext : r.rcvnxt ≤ r.rcvwnd) (hwnd : r.rcvwnd ≤ r.rcvnxt + TCP_IBLEN) :
    Reassembly S r.rcvnxt r.istart 0 0 r := by
  have hzero : Ring.slot TCP_IBLEN r.istart 0 = r.istart := Nat.mod_eq_of_lt hstart
  refine ⟨rfl, hnext, hwnd, hcount, hzero.symm, hinxt.trans hzero.symm, Nat.zero_le _,
    Ring.Holds.empty _ _ _ _ 0, fun k _ _ hm => ?_⟩
  rw [hmark _ (slot_lt (by decide) _ k)] at hm
  exact absurd hm (by simp)

theorem Established.receiving (h : Established d) :
    Receiving S d.tcb.rcv.rcvnxt d.tcb.rcv.istart 0 d :=
  fun _ => ⟨0, 0, le_rfl, .start h.istart h.inxt h.icount h.imark h.next_le h.wnd_le, h.delivered⟩

/-- **The receive stream is intact.** Let a connection be established, and let the segments of the
peer agree with a stream `S` that starts at `rcvnxt`, in any order, with any duplication and overlap
and however far beyond the window, between any calls of `tcpRead` and whatever else is done with the
device. While the connection stays established, the ring never holds more than its size and its
indices agree with its count, the octets handed to readers followed by those in the ring are the
stream up to `rcvnxt`, and what was in the ring at any earlier time has been handed to readers or is
still there. -/
theorem receive_stream_integrity {S : List UInt8} {lo hi : Nat} {d₀ d₁ d₂ : Device}
    {calls₁ calls₂ : List Call} (E : Exact lo hi) (h₀ : Established d₀)
    (hlo : lo ≤ d₀.tcb.rcv.rcvnxt) (hhi : d₀.tcb.rcv.rcvnxt + S.length + TCP_IBLEN ≤ hi)
    (r₁ : (peerMachine S d₀.tcb.rcv.rcvnxt lo).Run d₀ calls₁ d₁)
    (r₂ : (peerMachine S d₀.tcb.rcv.rcvnxt lo).Run d₁ calls₂ d₂) (hst : d₂.tcb.state = .estab) :
    StreamSound S d₀.tcb.rcv.rcvnxt d₂ ∧
      d₁.hist.delivered ++ d₁.tcb.rcv.unread <+: d₂.hist.delivered ++ d₂.tcb.rcv.unread := by
  have hst₁ : d₁.tcb.state = .estab := by
    cases calls₂ with
    | nil => rwa [Machine.run_nil_iff.mp r₂] at hst
    | cons c calls => exact (Machine.run_cons_iff.mp r₂).1.2.1
  have hstep : ∀ N₀ d c, Receiving S d₀.tcb.rcv.rcvnxt d₀.tcb.rcv.istart N₀ d →
      (peerMachine S d₀.tcb.rcv.rcvnxt lo).enabled d c →
      Receiving S d₀.tcb.rcv.rcvnxt d₀.tcb.rcv.istart N₀
        ((peerMachine S d₀.tcb.rcv.rcvnxt lo).next d c) :=
    fun N₀ d c h he => h.step ⟨E, hlo, hhi⟩ he.2.1 c he.2.2
  obtain ⟨R₁, N₁, -, hr₁, hd₁⟩ := r₁.invariant (hstep 0) h₀.receiving hst₁
  -- from the state in between on, no fewer octets have come in than there
  obtain ⟨R₂, N₂, hN, hr₂, hd₂⟩ :=
    r₂.invariant (hstep N₁) (fun _ => ⟨R₁, N₁, le_rfl, hr₁, hd₁⟩) hst
  have hs₁ := hr₁.sound hd₁
  have hs₂ := hr₂.sound hd₂
  refine ⟨hs₂, ?_⟩
  rw [hs₁.stream, hs₂.stream, hr₁.rcvnxt, hr₂.rcvnxt]
  exact take_prefix_take_left (by omega)

/-- A connection established with the first octet number 1001. -/
def established : Device :=
  let d := Device.closed 0 [] 0
  { d with tcb := { d.tcb with
    state := .estab, rcv := { rcvnxt := 1001, rcvwnd := 1001 + TCP_IBLEN, rcvmss := 1440 } } }

/-- A segment of three octets of data, of which the first is given. -/
def threeOctets (seqnum : Nat) (first : UInt8) : TcpPkt where
  srcpt := 80
  seqnum := seqnum
  acknum := 0
  offset := 0x50
  control := { ack := true }
  window := 1000
  tcplen := 23
  octet := fun i => first + UInt8.ofNat (i - 20)

/-- Two segments come in the wrong order and overlap; the reader takes four of the five octets. -/
theorem receive_stream_integrity_overlap :
    ∃ d, (peerMachine [1, 2, 3, 4, 5] 1001 1000).Run established
        [.recv (threeOctets 1003 3) ⟨0, []⟩, .recv (threeOctets 1001 1) ⟨0, []⟩, .read 4] d ∧
      StreamSound [1, 2, 3, 4, 5] 1001 d ∧ d.tcb.rcv.unread = [5] := by
  have r : (peerMachine [1, 2, 3, 4, 5] 1001 1000).Run established
      [.recv (threeOctets 1003 3) ⟨0, []⟩, .recv (threeOctets 1001 1) ⟨0, []⟩, .read 4] _ :=
    Machine.run_after
  have h₀ : Established established :=
    ⟨rfl, by decide, rfl, rfl, fun _ _ => rfl, by decide, by decide, rfl⟩
  have h := receive_stream_integrity (by decide : Exact 1000 100000) h₀ (by decide) (by decide)
    (.nil _) r (by decide)
  exact ⟨_, r, h.1, by decide⟩

end Xinu.Tcp
