import Xinu.Tcp.PeerFin

/-!
# The window on offer

The right edge `rcvwnd` of the receive window is moved when a segment is sent, while segments that
come in move `rcvnxt` and `icount`, and readers move `icount`. What is on offer fits into the free
part of the ring as long as no octet is marked beyond the edge and no FIN is counted beyond it. A
FIN behind data that fills the window exactly is the case that breaks this: the data is kept, the
FIN with it, and `rcvnxt` moves past the edge. What the segments contain does not matter.

## Main results

* `Device.Offers.exec`, `Device.Offers.recv`: calls and segments keep it
* `window_honest`: the edge never moves left, and what is on offer is free
-/

namespace Xinu.Tcp

set_option maxRecDepth 8000

open Device

variable {w lo hi n : Nat} {st : TcpState} {r r' : Recv} {d d' : Device} {pkt : TcpPkt}

/-- The states from ESTAB on. -/
def TcpState.Synchronized (st : TcpState) : Prop :=
  st ≠ .closed ∧ st ≠ .listen ∧ st ≠ .synsent ∧ st ≠ .synrecv
deriving Decidable

/-- The states that the FIN of the other side leads to. -/
def TcpState.FinSeen (st : TcpState) : Prop :=
  st = .closewt ∨ st = .closing ∨ st = .lastack ∨ st = .timewt

/-- What is on offer to the other side fits into the free part of the ring, and a FIN that is
expected lies in the window. -/
structure Honest (r : Recv) : Prop where
  next_le : r.rcvnxt ≤ r.rcvwnd
  space : r.rcvwnd + r.icount ≤ r.rcvnxt + TCP_IBLEN
  fin : r.rcvflg.fin = true → r.rcvfin < r.rcvwnd

/-- The indices of the ring agree with its count, and an octet that is marked beyond what has come
in without a gap lies in the window. -/
structure Marks (r : Recv) : Prop where
  istart : r.istart < TCP_IBLEN
  inxt : r.inxt = (r.istart + r.icount) % TCP_IBLEN
  marked : ∀ k, k + r.icount < TCP_IBLEN → r.imark ((r.inxt + k) % TCP_IBLEN) = true →
    r.rcvnxt + k < r.rcvwnd

/-- The number of the FIN has been passed. -/
def PastFin (r : Recv) : Prop := r.rcvflg.fin = true ∧ r.rcvfin < r.rcvnxt
deriving Decidable

/-- Data may still come in. -/
def Live (st : TcpState) (r : Recv) : Prop := st.TakesData ∧ (st = .finwt2 → ¬ PastFin r)

/-- The window of a connection from ESTAB on, whose edge is not before `w`. -/
structure Offering (w : Nat) (st : TcpState) (r : Recv) : Prop where
  state : st.Synchronized
  edge : w ≤ r.rcvwnd
  honest : Honest r
  marks : Live st r → Marks r
  past : st.FinSeen → PastFin r

/-! ## Sending -/

theorem Recv.tcpSendWindow_of_synchronized (h : st.Synchronized) (r : Recv) :
    r.tcpSendWindow st = r.tcpSendWindow .estab := by
  obtain ⟨h₁, h₂, h₃, h₄⟩ := h
  cases st <;> first | rfl | exact absurd rfl (by assumption)

/-- **`tcpSendWindow` offers what is free**: the edge stays, or moves right to the end of what is
free. -/
theorem Honest.tcpSendWindow (h : Honest r) (E : Exact lo hi)
    (hlo : lo ≤ r.rcvnxt) (hhi : r.rcvnxt + TCP_IBLEN ≤ hi) (hst : st.Synchronized) :
    r.rcvwnd ≤ (r.tcpSendWindow st).1.rcvwnd ∧
      (r.tcpSendWindow st).1.rcvwnd + r.icount ≤ r.rcvnxt + TCP_IBLEN := by
  have hle := h.next_le
  have hspace := h.space
  have hiblen : TCP_IBLEN = 16384 := rfl
  have hwindow : sub32 TCP_IBLEN r.icount % 2 ^ 16 = TCP_IBLEN - r.icount := by
    rw [sub32_eq (by omega) (by decide), Nat.mod_eq_of_lt (by omega)]
  have hunused : tcpSeqdiff r.rcvwnd r.rcvnxt % 2 ^ 16 = r.rcvwnd - r.rcvnxt := by
    rw [E.tcpSeqdiff_eq (by omega) hlo hle, Nat.mod_eq_of_lt (by omega)]
  rw [Recv.tcpSendWindow_of_synchronized hst]
  simp only [Recv.tcpSendWindow, hwindow, hunused]
  generalize hx : (if (TCP_IBLEN - r.icount) * 4 < TCP_IBLEN ∨ TCP_IBLEN - r.icount <
      r.rcvmss then 0
    else TCP_IBLEN - r.icount) = x
  have hx' : x ≤ TCP_IBLEN - r.icount := by
    rw [← hx]
    split_ifs <;> omega
  split_ifs with hlt
  · dsimp only
    rw [E.seqadd_eq]
    omega
  · exact ⟨le_rfl, hspace⟩

namespace Offering

theorem widen (h : Offering w st r) {x : Nat} (hx : r.rcvwnd ≤ x)
    (hfree : x + r.icount ≤ r.rcvnxt + TCP_IBLEN) : Offering w st { r with rcvwnd := x } := by
  refine ⟨h.state, h.edge.trans hx, ⟨h.honest.next_le.trans hx, hfree, fun hf => ?_⟩,
    fun hl => ⟨(h.marks hl).istart, (h.marks hl).inxt, fun k hk hm => ?_⟩, h.past⟩
  · exact (h.honest.fin hf).trans_le hx
  · exact ((h.marks hl).marked k hk hm).trans_le hx

theorem windows (h : Offering w st r) (E : Exact lo hi) (hlo : lo ≤ r.rcvnxt)
    (hhi : r.rcvnxt + TCP_IBLEN ≤ hi) (hw : Windows st r r') :
    Offering w st r' ∧ r'.rcvnxt = r.rcvnxt := by
  refine hw.keeps (P := fun x => Offering w st x ∧ x.rcvnxt = r.rcvnxt) ?_ ⟨h, rfl⟩
  rintro x ⟨hx, hnxt⟩
  have hwin := hx.honest.tcpSendWindow E (by omega) (by omega) h.state
  rw [x.tcpSendWindow_eq st]
  exact ⟨hx.widen hwin.1 hwin.2, hnxt⟩

theorem readers (h : Offering w st r) (n : Int) : Offering w st { r with readers := n } :=
  ⟨h.state, h.edge, ⟨h.honest.next_le, h.honest.space, h.honest.fin⟩,
    fun hl => ⟨(h.marks hl).istart, (h.marks hl).inxt, (h.marks hl).marked⟩, h.past⟩

end Offering

/-! ## Reading -/

theorem add_mod_inj {b s i j : Nat} (hi : i < b) (hj : j < b) (h : (s + i) % b = (s + j) % b) :
    i = j := by
  have := Nat.ModEq.add_left_cancel' s (show s + i ≡ s + j [MOD b] from h)
  exact this.eq_of_lt_of_lt hi hj

/-- The reader clears the mark of the octet that it takes. -/
theorem Marks.pop (h : Marks r) (hpos : 0 < r.icount) : Marks { r with
      imark := store r.imark r.istart false
      istart := (r.istart + 1) % TCP_IBLEN
      icount := r.icount - 1 } := by
  refine ⟨Nat.mod_lt _ (by decide), ?_, fun k hk hm => ?_⟩
  · dsimp only
    rw [h.inxt, Nat.mod_add_mod]
    congr 1
    omega
  · dsimp only at hk hm ⊢
    rw [store_eq_update] at hm
    by_cases hlast : k + r.icount = TCP_IBLEN
    · -- the place that becomes free is that of the octet taken
      have hslot : (r.inxt + k) % TCP_IBLEN = r.istart := by
        rw [h.inxt, Nat.mod_add_mod, show r.istart + r.icount + k = r.istart + TCP_IBLEN by omega,
          Nat.add_mod_right, Nat.mod_eq_of_lt h.istart]
      rw [hslot, Function.update_self] at hm
      exact absurd hm (by simp)
    · by_cases hslot : (r.inxt + k) % TCP_IBLEN = r.istart
      · rw [hslot, Function.update_self] at hm
        exact absurd hm (by simp)
      · rw [Function.update_of_ne hslot] at hm
        exact h.marked k (by omega) hm

theorem Offering.readLoop (h : Offering w st r) (len : Nat) :
    Offering w st (r.readLoop len).1 := by
  induction len generalizing r with
  | zero => exact h
  | succ len ih =>
    rw [Recv.readLoop]
    by_cases hpos : 0 < r.icount
    · rw [if_pos hpos]
      have hspace := h.honest.space
      refine ih ⟨h.state, h.edge, ⟨h.honest.next_le, by dsimp only; omega, h.honest.fin⟩,
        fun hl => (h.marks hl).pop hpos, h.past⟩
    · rw [if_neg hpos]
      exact h

/-! ## Calls -/

/-- The window of a device. -/
def Device.Offers (w : Nat) (d : Device) : Prop := Offering w d.tcb.state d.tcb.rcv

/-- The numbers of the receiver lie where the helpers are exact, for this step. -/
def Spanned (lo hi : Nat) (r : Recv) : Prop := lo ≤ r.rcvnxt ∧ r.rcvnxt + 2 * TCP_IBLEN < hi
deriving Decidable

namespace Device.Offers

variable {P : Segment → Prop}

section

variable (h : d.Offers w)
include h

theorem outputs (E : Exact lo hi) (hlo : lo ≤ d.tcb.rcv.rcvnxt)
    (hhi : d.tcb.rcv.rcvnxt + TCP_IBLEN ≤ hi) (ho : Outputs P d d') : d'.Offers w := by
  unfold Device.Offers
  rw [ho.state]
  exact (h.windows E hlo hhi ho.rcv).1

theorem quiet (hq : Quiet d d') : d'.Offers w := by
  unfold Device.Offers
  rw [hq.state, hq.rcv]
  exact h

/-- A state that a close leads to: data may come in as before. -/
theorem close_state
    (hst : d.tcb.state = .estab ∧ st = .finwt1 ∨ d.tcb.state = .closewt ∧ st = .lastack) :
    Offering w st d.tcb.rcv := by
  have hpast := h.past
  have hmarks := h.marks
  rcases hst with ⟨hd, rfl⟩ | ⟨hd, rfl⟩
  · rw [hd] at hmarks
    exact ⟨by decide, h.edge, h.honest, fun _ => hmarks ⟨.inl rfl, by simp⟩,
      fun hf => absurd hf (by simp [TcpState.FinSeen])⟩
  · rw [hd] at hpast
    exact ⟨by decide, h.edge, h.honest, fun hl => absurd hl.1 (by decide),
      fun _ => hpast (.inl rfl)⟩

theorem tcpClose (E : Exact lo hi) (hlo : lo ≤ d.tcb.rcv.rcvnxt)
    (hhi : d.tcb.rcv.rcvnxt + TCP_IBLEN ≤ hi) : d.tcpClose.1.Offers w := by
  unfold Device.tcpClose
  cases hst : d.tcb.state with
  | closed | listen | synsent | synrecv => exact absurd h.state (by rw [hst]; decide)
  | estab =>
    have h' :
        ((d.requestFin.modFlg fun f => { f with snddata := true }).setState .finwt1).Offers w :=
      h.close_state (.inl ⟨hst, rfl⟩)
    exact h'.outputs E hlo hhi (outputs_closeSend _)
  | closewt =>
    have h' :
        ((d.requestFin.modFlg fun f => { f with snddata := true }).setState .lastack).Offers w :=
      h.close_state (.inr ⟨hst, rfl⟩)
    exact h'.outputs E hlo hhi (outputs_closeSend _)
  | finwt1 | finwt2 | closing | lastack | timewt => exact h.quiet (quiet_signalMutex d)

/-- The check of `tcpWrite` changes the mutex at most. -/
theorem quiet_writeStateCheck : Quiet d d.writeStateCheck.1 := by
  rcases writeStateCheck_cases h.state.2.1 with ⟨hcheck, -⟩ | ⟨err, -, hcheck⟩ <;> rw [hcheck]
  · exact .refl d
  · exact quiet_signalMutex d

theorem tcpWriteRound (E : Exact lo hi) (hlo : lo ≤ d.tcb.rcv.rcvnxt)
    (hhi : d.tcb.rcv.rcvnxt + TCP_IBLEN ≤ hi) (buffer : List UInt8) :
    (d.tcpWriteRound buffer).1.Offers w := by
  have hq := h.quiet_writeStateCheck
  have h' := h.quiet hq
  unfold Device.tcpWriteRound
  rw [← hq.rcv] at hlo hhi
  generalize d.writeStateCheck = x at h' hlo hhi
  by_cases hok : x.2 ≠ OK
  · rw [if_pos hok]
    exact h'
  rw [if_neg hok]
  have hput : ∀ e : Device, e.tcb.state = x.1.tcb.state → e.tcb.rcv = x.1.tcb.rcv →
      (if e.tcb.state = .estab ∨ e.tcb.state = .closewt then e.tcpSendData.1
        else e).signalMutex.Offers w := by
    intro e hst hrcv
    have he : e.Offers w := by
      unfold Device.Offers
      rw [hst, hrcv]
      exact h'
    refine he.outputs E (by rw [hrcv]; exact hlo) (by rw [hrcv]; exact hhi)
      (Outputs.trans (P := fun _ => True) ?_ (outputs_signalMutex _))
    exact .ite (outputs_tcpSendData e) (.refl _ e)
  refine hput _ ?_ ?_
  · split_ifs <;> rfl
  · split_ifs <;> rfl

theorem tcpReadRound (len : Nat) : (d.tcpReadRound len).1.Offers w := by
  unfold Device.tcpReadRound
  rcases d.readStateCheck_cases with hcheck | ⟨err, herr, hcheck⟩ <;> rw [hcheck] <;> dsimp only
  · rw [if_neg (by decide)]
    split_ifs
    · exact (h.readLoop len).readers _
    · exact h.readLoop len
  · rw [if_pos herr]
    exact h

/-- **A call that is not a segment** keeps the window, or ends the connection. -/
theorem exec (E : Exact lo hi) (hs : Spanned lo hi d.tcb.rcv) (c : Call)
    (hc : ∀ pkt src, c ≠ .recv pkt src) : (d.exec c).tcb.state = .closed ∨ (d.exec c).Offers w := by
  obtain ⟨hlo, hhi⟩ := hs
  have hhi' : d.tcb.rcv.rcvnxt + TCP_IBLEN ≤ hi := by omega
  have hw : d.waitMutex.Offers w := h
  cases c with
  | «open» args =>
    -- the device is open already
    change _ ∨ (d.waitMutex.tcpOpen args).1.Offers w
    rw [tcpOpen_of_open args ⟨hw.state.1, hw.state.2.1⟩]
    exact .inr h
  | close => exact .inr (hw.tcpClose E hlo hhi')
  | writeCheck => exact .inr (hw.quiet (hw.quiet_writeStateCheck.trans (quiet_signalMutex _)))
  | writeWait => exact .inr h
  | write buffer => exact .inr (hw.tcpWriteRound E hlo hhi' buffer)
  | readCheck =>
    change _ ∨ d.waitMutex.tcpReadCheck.1.Offers w
    rw [tcpReadCheck_fst]
    exact .inr h
  | readWait => exact .inr (Offering.readers h _)
  | read len => exact .inr (hw.tcpReadRound len)
  | recv pkt src => exact absurd rfl (hc pkt src)
  | expire =>
    rcases d.outputs_expire with ho | hclosed
    · exact .inr (h.outputs E hlo hhi' ho)
    · exact .inl hclosed
  | elapse time => exact .inr h

end

end Device.Offers

/-! ## Data -/

theorem Recv.imark_copyLoop {start i : Nat} {data : Nat → UInt8}
    (h : (r.copyLoop start data n).imark i = true) :
    r.imark i = true ∨ ∃ j < n, i = (start + j) % TCP_IBLEN := by
  induction n with
  | zero => exact .inl h
  | succ n ih =>
    rw [Recv.copyLoop] at h
    dsimp only at h
    rw [store_eq_update] at h
    by_cases hi : i = (start + n) % TCP_IBLEN
    · exact .inr ⟨n, by omega, hi⟩
    · rw [Function.update_of_ne hi] at h
      obtain hold | ⟨j, hj, heq⟩ := ih h
      · exact .inl hold
      · exact .inr ⟨j, by omega, heq⟩

/-- The receive variables after data has come in: the window still fits, and its end and the FIN are
where they were. -/
structure Fills (r r' : Recv) : Prop where
  honest : Honest r'
  marks : Marks r'
  rcvwnd : r'.rcvwnd = r.rcvwnd
  rcvflg : r'.rcvflg = r.rcvflg
  rcvfin : r'.rcvfin = r.rcvfin
  next_le : r.rcvnxt ≤ r'.rcvnxt

namespace Fills

variable {r'' : Recv}

theorem refl (h : Honest r) (hm : Marks r) : Fills r r := ⟨h, hm, rfl, rfl, rfl, le_rfl⟩

theorem readers (h : Fills r r') (n : Int) : Fills r { r' with readers := n } :=
  ⟨⟨h.honest.next_le, h.honest.space, h.honest.fin⟩, ⟨h.marks.istart, h.marks.inxt, h.marks.marked⟩,
    h.rcvwnd, h.rcvflg, h.rcvfin, h.next_le⟩

/-- **Copying octets into the window** marks places that lie in it. -/
theorem copyLoop (h : Fills r r') {off : Nat} (data : Nat → UInt8)
    (hroom : r'.rcvnxt + off + n ≤ r'.rcvwnd) :
    Fills r (r'.copyLoop ((r'.inxt + off) % TCP_IBLEN) data n) := by
  have hspace := h.honest.space
  have hmarked : ∀ k, k + r'.icount < TCP_IBLEN →
      (r'.copyLoop ((r'.inxt + off) % TCP_IBLEN) data n).imark ((r'.inxt + k) % TCP_IBLEN) = true →
      r'.rcvnxt + k < r'.rcvwnd := by
    intro k hk hm
    rcases Recv.imark_copyLoop hm with hold | ⟨j, hj, heq⟩
    · exact h.marks.marked k hk hold
    · rw [Nat.mod_add_mod, Nat.add_assoc] at heq
      have := add_mod_inj (by omega) (by omega) heq
      omega
  rw [Recv.copyLoop_eq]
  exact ⟨⟨h.honest.next_le, h.honest.space, h.honest.fin⟩, ⟨h.marks.istart, h.marks.inxt, hmarked⟩,
    h.rcvwnd, h.rcvflg, h.rcvfin, h.next_le⟩

/-- **Octets become ready for the reader**: what is on offer shrinks by as much as is in the ring.
-/
theorem advance (h : Fills r r') (E : Exact lo hi) (hhi : r'.rcvwnd ≤ hi)
    (hroom : r'.rcvnxt + n ≤ r'.rcvwnd) (ibytes : Nat) :
    Fills r { r' with
      icount := add32 r'.icount n, ibytes := ibytes, inxt := (r'.inxt + n) % TCP_IBLEN
      rcvnxt := seqadd r'.rcvnxt n } := by
  have hspace := h.honest.space
  have hle := h.next_le
  have hiblen : TCP_IBLEN = 16384 := rfl
  rw [E.seqadd_eq, add32_eq]
  refine ⟨⟨hroom, by dsimp only; omega, h.honest.fin⟩, ⟨h.marks.istart, ?_, fun k hk hm => ?_⟩,
    h.rcvwnd, h.rcvflg, h.rcvfin, by dsimp only; omega⟩
  · rw [h.marks.inxt, Nat.mod_add_mod, Nat.add_assoc]
  · dsimp only at hk hm ⊢
    rw [Nat.mod_add_mod, Nat.add_assoc] at hm
    have := h.marks.marked (n + k) (by omega) hm
    omega

/-- **The loop over the marks** stays in the window. -/
theorem markLoop (h : Fills r r') (E : Exact lo hi) (hhi : r'.rcvwnd ≤ hi) (fuel : Nat) :
    Fills r (r'.markLoop fuel).1 := by
  induction fuel generalizing r' with
  | zero => exact h
  | succ fuel ih =>
    rw [Recv.markLoop]
    by_cases hmark : r'.icount < TCP_IBLEN ∧ r'.imark r'.inxt = true
    · rw [if_pos hmark]
      have hslot : (r'.inxt + 0) % TCP_IBLEN = r'.inxt := by
        rw [h.marks.inxt, Nat.add_zero, Nat.mod_mod]
      have hroom := h.marks.marked 0 (by omega) (by rw [hslot]; exact hmark.2)
      have h' := h.advance E hhi (n := 1) (by omega) (add32 r'.ibytes 1)
      rw [add32_eq (by have := hmark.1; unfold TCP_IBLEN at this; omega)] at h'
      dsimp only
      split_ifs
      · exact h'
      · exact ih h' hhi
    · rw [if_neg hmark]
      exact h

end Fills

/-! ## Segments -/

/-- Where an acceptable segment lies: it begins in the window, with its FIN not at the edge, or it
begins before the window and ends in it. -/
def Arrives (r : Recv) (pkt : TcpPkt) : Prop :=
  r.rcvnxt ≤ pkt.seqnum ∧ pkt.seqnum ≤ r.rcvwnd ∧ (pkt.seqnum = r.rcvwnd → r.rcvnxt = r.rcvwnd) ∧
      (pkt.control.fin = true → pkt.seqnum < r.rcvwnd ∧ pkt.seqnum + pkt.seglen ≠ r.rcvwnd) ∨
    pkt.seqnum < r.rcvnxt ∧ r.rcvnxt < pkt.seqnum + pkt.seglen + pkt.control.fin.toNat ∧
      pkt.seqnum + pkt.seglen + pkt.control.fin.toNat ≤ r.rcvwnd

theorem TcpPkt.seglen_lt (pkt : TcpPkt) : pkt.seglen < 2 ^ 16 := Nat.mod_lt _ (by decide)

/-- The segment does not end at the edge with a FIN, and while the connection goes into FINWT2 or is
there, it has no data behind a FIN. -/
def Fitting (d : Device) (pkt : TcpPkt) : Prop :=
  (pkt.control.fin = true → pkt.seqnum + pkt.seglen ≠ d.tcb.rcv.rcvwnd) ∧
    (d.tcb.state = .finwt1 ∨ d.tcb.state = .finwt2 ∨ d.tcb.state = .closing → PastFin d.tcb.rcv →
      (d.tcb.rcv.tcpRecvValid pkt).2 = true → pkt.seglen = 0)
deriving Decidable

section Segment

section

variable (h : Honest r) (E : Exact lo hi) (hs : Spanned lo hi r)
    (hp : lo ≤ pkt.seqnum ∧ pkt.seqnum + 2 ^ 16 ≤ hi)
include h E hs hp

/-- **An acceptable segment** reaches into the window. -/
theorem Honest.arrives (hfin : pkt.control.fin = true → pkt.seqnum + pkt.seglen ≠ r.rcvwnd)
    (hv : (r.tcpRecvValid pkt).2 = true) (hsyn : (r.tcpRecvValid pkt).1.control.syn = false) :
    Arrives r (r.tcpRecvValid pkt).1 ∧
      (pkt.seglen = 0 → (r.tcpRecvValid pkt).1.seglen = 0) := by
  have hle := h.next_le
  have hspace := h.space
  have hlt := pkt.seglen_lt
  have hflag := Bool.toNat_le pkt.control.fin
  obtain ⟨hlo, hhi⟩ := hs
  obtain ⟨hfirst, hlast⟩ := hp
  rcases Recv.tcpRecvValid_cases E hlo hle (by omega) hfirst rfl (by omega) hv hsyn with
    ⟨hwnd, hseq, hnil, hpkt⟩ | ⟨hpkt, hin⟩
  · -- there is no window: the segment has no length, and begins at the edge
    rw [hpkt]
    have hedge : pkt.seqnum ≤ r.rcvwnd := by omega
    refine ⟨.inl ⟨hseq.ge, hedge, fun _ => hwnd.symm, fun hf => absurd hf (by simp)⟩, fun h0 => ?_⟩
    change sub16 (sub16 pkt.tcplen 0) (offset2octets pkt.offset) = 0
    unfold TcpPkt.seglen at h0
    unfold sub16 at h0 ⊢
    omega
  · rw [hpkt]
    refine ⟨?_, id⟩
    by_cases hnew : r.rcvnxt ≤ pkt.seqnum
    · exact .inl ⟨hnew, by omega, fun _ => by omega, fun hf => ⟨by omega, hfin hf⟩⟩
    · exact .inr (by omega)

/-- **Where a segment goes.** The part of it that is kept ends in the window, and a FIN behind it
does not lie at the edge. -/
theorem Honest.fit (ha : Arrives r pkt) (hinxt : r.inxt < TCP_IBLEN) :
    ∃ off, (r.fit pkt).start = (r.inxt + off) % TCP_IBLEN ∧
      r.rcvnxt + off + (r.fit pkt).kept ≤ r.rcvwnd ∧ ((r.fit pkt).start = r.inxt → off = 0) ∧
      (pkt.control.fin = true → (r.fit pkt).seglen ≤ (r.fit pkt).window →
        pkt.seqnum + (r.fit pkt).kept < r.rcvwnd) := by
  have hle := h.next_le
  have hspace := h.space
  have hlt := pkt.seglen_lt
  have hflag := Bool.toNat_le pkt.control.fin
  obtain ⟨hlo, hhi⟩ := hs
  obtain ⟨hfirst, hlast⟩ := hp
  have hbound := E.lt hhi.le
  have hkept := (r.fit pkt).kept_le
  revert hkept
  rcases Recv.fit_cases E hlo hle (by omega) hfirst (by omega) with ⟨hlt', hfit⟩ | ⟨hge, hfit⟩
  · -- the front of the segment has come in before
    obtain ⟨-, hreach, hend⟩ := ha.resolve_left (by omega)
    have hsub : sub16 pkt.seglen (r.rcvnxt - pkt.seqnum) =
        pkt.seglen - (r.rcvnxt - pkt.seqnum) := by
      unfold sub16
      omega
    rw [hfit, hsub]
    rintro ⟨hn, -⟩
    dsimp only at hn ⊢
    refine ⟨0, by rw [Nat.add_zero, Nat.mod_eq_of_lt hinxt], by omega, fun _ => rfl, fun hf _ => ?_⟩
    rw [hf, Bool.toNat_true] at hend
    omega
  · obtain ⟨-, hin, hedge, hfin⟩ := ha.resolve_right (by omega)
    rw [hfit, sub32_eq]
    rintro ⟨hn, hn'⟩
    dsimp only at hn hn' ⊢
    refine ⟨pkt.seqnum - r.rcvnxt, rfl, by omega, fun heq => ?_, fun hf hfits => ?_⟩
    · refine add_mod_inj (s := r.inxt) (by omega) (by omega : 0 < TCP_IBLEN) ?_
      rw [heq, Nat.add_zero, Nat.mod_eq_of_lt hinxt]
    · have := hfin hf
      omega

end

end Segment

namespace Device

/-- The octets behind the current data that have come in already follow. -/
theorem fills_advance (h : Fills r d.tcb.rcv) (E : Exact lo hi)
    (hhi : d.tcb.rcv.rcvwnd ≤ hi) (hroom : d.tcb.rcv.rcvnxt + n ≤ d.tcb.rcv.rcvwnd) :
    Fills r (d.advance n).1.tcb.rcv ∧ ((d.advance n).2 = true → r.rcvflg.fin = true) := by
  have h' := h.advance E hhi hroom (add32 d.tcb.rcv.ibytes n)
  unfold advance modRcv
  dsimp only
  generalize hrcv : ({ d.tcb.rcv with
    icount := add32 d.tcb.rcv.icount n, ibytes := add32 d.tcb.rcv.ibytes n
    inxt := (d.tcb.rcv.inxt + n) % TCP_IBLEN
    rcvnxt := seqadd d.tcb.rcv.rcvnxt n } : Recv) = r' at h' ⊢
  have hwnd : r'.rcvwnd ≤ hi := by
    rw [h'.rcvwnd, ← h.rcvwnd]
    exact hhi
  have h'' := h'.markLoop E hwnd TCP_IBLEN
  have hfin := (Recv.markLoop_fin TCP_IBLEN r').2.2.1
  refine ⟨?_, fun hl => ?_⟩
  · split_ifs
    · exact h''.readers _
    · exact h''
  · rw [← h'.rcvflg]
    exact (hfin hl).1

/-- **The data of an acceptable segment** leaves the window in order, and a FIN that is left of the
segment lies in it. -/
theorem fills_recvText (h : Honest d.tcb.rcv) (hm : Marks d.tcb.rcv) (E : Exact lo hi)
    (hs : Spanned lo hi d.tcb.rcv) (hp : lo ≤ pkt.seqnum ∧ pkt.seqnum + 2 ^ 16 ≤ hi)
    (ha : Arrives d.tcb.rcv pkt) (hst : d.tcb.state.TakesData) :
    Fills d.tcb.rcv (d.recvText pkt).1.tcb.rcv ∧
      ((d.recvText pkt).2.2 = true → d.tcb.rcv.rcvflg.fin = true ∨
        pkt.seqnum + (d.recvText pkt).2.1 < d.tcb.rcv.rcvwnd) := by
  have hinxt : d.tcb.rcv.inxt < TCP_IBLEN := by
    rw [hm.inxt]
    exact Nat.mod_lt _ (by decide)
  have hspace := h.space
  have hwnd : d.tcb.rcv.rcvwnd ≤ hi := by
    have := hs.2
    omega
  obtain ⟨off, hstart, hroom, hzero, hfin⟩ := h.fit E hs hp ha hinxt
  unfold recvText
  by_cases htext : 0 < pkt.seglen ∧
      (d.tcb.state = .estab ∨ d.tcb.state = .finwt1 ∨ d.tcb.state = .finwt2)
  · rw [if_pos htext]
    generalize d.tcb.rcv.fit pkt = x at hstart hroom hzero hfin ⊢
    have hcopy := (Fills.refl h hm).copyLoop (fun i => pkt.data (x.skip + i)) hroom
    rw [← hstart] at hcopy
    -- a FIN that is left of the segment lies in the window
    have hleft : (pkt.control.fin && decide (x.seglen ≤ x.window)) = true →
        pkt.seqnum + x.kept < d.tcb.rcv.rcvwnd := by
      intro hf
      rw [Bool.and_eq_true, decide_eq_true_eq] at hf
      exact hfin hf.1 hf.2
    by_cases hnow : x.start = d.tcb.rcv.inxt
    · rw [if_pos hnow]
      have hrcv : (d.tcb.rcv.copyLoop x.start (fun i => pkt.data (x.skip + i)) x.kept).rcvnxt =
          d.tcb.rcv.rcvnxt := by rw [Recv.copyLoop_eq]
      have hadv := fills_advance
        (d := d.modRcv fun r => r.copyLoop x.start (fun i => pkt.data (x.skip + i)) x.kept)
        (n := x.kept) hcopy E (hcopy.rcvwnd.trans_le hwnd) (by
          change (d.tcb.rcv.copyLoop _ _ _).rcvnxt + _ ≤ (d.tcb.rcv.copyLoop _ _ _).rcvwnd
          rw [hcopy.rcvwnd, hrcv]
          omega)
      refine ⟨hadv.1, fun hf => ?_⟩
      rw [Bool.or_eq_true] at hf
      exact hf.elim (fun hf => Or.inr (hleft hf)) fun hf => Or.inl (hadv.2 hf)
    · rw [if_neg hnow]
      exact ⟨hcopy, fun hf => Or.inr (hleft hf)⟩
  · rw [if_neg htext]
    refine ⟨.refl h hm, fun hf => Or.inr ?_⟩
    -- the segment has no data, and its FIN lies in the window
    have hnil : pkt.seglen = 0 := by
      by_contra hne
      exact htext ⟨Nat.pos_of_ne_zero hne, hst⟩
    rw [hnil]
    rcases ha with ⟨-, -, -, ha⟩ | ⟨-, ha, ha'⟩
    · exact (ha hf).1
    · have hflag : pkt.control.fin = true := hf
      rw [hnil, hflag, Bool.toNat_true] at ha'
      change pkt.seqnum + 0 < _
      omega

end Device

/-! ## The FIN -/

/-- The FIN that is expected next is counted, and lies in the window. -/
theorem Offering.passFin {st' : TcpState} (h : Offering w st r)
    (E : Exact lo hi) (hhi : r.rcvnxt + 1 ≤ hi) (hfin : r.rcvflg.fin = true)
    (hnow : r.rcvnxt = r.rcvfin)
    (hst : st' = .closewt ∨ st' = .closing ∨ st' = .timewt ∨ st' = .finwt2) :
    Offering w st' { r with rcvnxt := seqadd r.rcvnxt 1 } := by
  have hin := h.honest.fin hfin
  have hspace := h.honest.space
  rw [E.seqadd_eq hhi]
  have hpast : PastFin { r with rcvnxt := r.rcvnxt + 1 } := ⟨hfin, by dsimp only; omega⟩
  refine ⟨?_, h.edge, ⟨by dsimp only; omega, by dsimp only; omega, h.honest.fin⟩, fun hl => ?_,
    fun _ => hpast⟩
  · rcases hst with rfl | rfl | rfl | rfl <;> decide
  · -- no data is taken any more
    rcases hst with rfl | rfl | rfl | rfl
    · exact absurd hl.1 (by decide)
    · exact absurd hl.1 (by decide)
    · exact absurd hl.1 (by decide)
    · exact absurd hpast (hl.2 rfl)

namespace Device.Offers

section

variable (h : d.Offers w) (E : Exact lo hi) (hhi : d.tcb.rcv.rcvnxt + 1 ≤ hi)
include h E hhi

theorem processFin
    (hfin : d.tcb.rcv.rcvflg.fin = true) (hnow : d.tcb.rcv.rcvnxt = d.tcb.rcv.rcvfin) :
    d.processFin.Offers w := by
  obtain ⟨k, hk⟩ := d.released_readers
  unfold Device.processFin
  rw [hk]
  dsimp only
  have he : (d.signalReaders k).Offers w := Offering.readers h _
  have hhi : (d.signalReaders k).tcb.rcv.rcvnxt + 1 ≤ hi := hhi
  have hfin : (d.signalReaders k).tcb.rcv.rcvflg.fin = true := hfin
  have hnow : (d.signalReaders k).tcb.rcv.rcvnxt = (d.signalReaders k).tcb.rcv.rcvfin := hnow
  generalize d.signalReaders k = e at he hhi hfin hnow
  refine Device.Offers.quiet ?_ (quiet_modFlg ..)
  cases hst : e.tcb.state with
  | closed | listen | synsent | synrecv => exact absurd he.state (by rw [hst]; decide)
  | estab => exact he.passFin E hhi hfin hnow (.inl rfl)
  | finwt1 =>
    split_ifs
    · exact he.passFin E hhi hfin hnow (.inr (.inr (.inl rfl)))
    · exact he.passFin E hhi hfin hnow (.inr (.inl rfl))
  | finwt2 =>
    change Offering w e.tcb.state { e.tcb.rcv with rcvnxt := seqadd e.tcb.rcv.rcvnxt 1 }
    rw [hst]
    exact he.passFin E hhi hfin hnow (by simp)
  | closewt | closing | lastack | timewt => exact he

/-- The FIN of a segment is stored where the window holds it, and processed if it is expected next.
-/
theorem recvFin (seqnum seglen : Nat)
    (hin : d.tcb.rcv.rcvflg.fin = true ∨ d.tcb.state.TakesData ∧ seqnum + seglen < d.tcb.rcv.rcvwnd)
    (hwnd : d.tcb.rcv.rcvwnd ≤ hi) : (d.recvFin seqnum seglen).Offers w := by
  unfold Device.recvFin
  by_cases hfin : d.tcb.rcv.rcvflg.fin = true
  · rw [if_pos hfin]
    by_cases hnow : d.tcb.rcv.rcvnxt = d.tcb.rcv.rcvfin
    · rw [if_pos hnow]
      exact h.processFin E hhi hfin hnow
    · rw [if_neg hnow]
      exact h
  · rw [if_neg hfin]
    obtain ⟨hst, hlt⟩ := hin.resolve_left hfin
    have h' : (d.modRcv fun r => { r with
        rcvfin := seqadd seqnum seglen, rcvflg := { r.rcvflg with fin := true } }).Offers w := by
      refine ⟨h.state, h.edge, ⟨h.honest.next_le, h.honest.space, fun _ => ?_⟩, fun hl => ?_,
        fun hs => absurd hst ?_⟩
      · change seqadd seqnum seglen < _
        rw [E.seqadd_eq]
        exact hlt
      · -- before the FIN was stored there was none to pass
        have hm := h.marks ⟨hl.1, fun _ hp => hfin hp.1⟩
        exact ⟨hm.istart, hm.inxt, hm.marked⟩
      · change d.tcb.state.FinSeen at hs
        rcases hs with hs | hs | hs | hs <;> rw [hs] <;> decide
    by_cases hnow : (d.modRcv fun r => { r with
        rcvfin := seqadd seqnum seglen, rcvflg := { r.rcvflg with fin := true } }).tcb.rcv.rcvnxt =
        (d.modRcv fun r => { r with
          rcvfin := seqadd seqnum seglen, rcvflg := { r.rcvflg with fin := true } }).tcb.rcv.rcvfin
    · rw [if_pos hnow]
      exact h'.processFin E hhi rfl hnow
    · rw [if_neg hnow]
      exact h'

end

/-- Counting octets and a FIN moves `rcvnxt` by what was on offer at most. -/
theorem rcvnxt_recvFin (d : Device) (E : Exact lo hi) (hhi : d.tcb.rcv.rcvnxt + 1 ≤ hi)
    (seqnum seglen : Nat) :
    d.tcb.rcv.rcvnxt ≤ (d.recvFin seqnum seglen).tcb.rcv.rcvnxt ∧
      (d.recvFin seqnum seglen).tcb.rcv.rcvnxt ≤ d.tcb.rcv.rcvnxt + 1 := by
  have hfin : ∀ e : Device, e.tcb.rcv.rcvnxt = d.tcb.rcv.rcvnxt →
      d.tcb.rcv.rcvnxt ≤ e.processFin.tcb.rcv.rcvnxt ∧
        e.processFin.tcb.rcv.rcvnxt ≤ d.tcb.rcv.rcvnxt + 1 := by
    intro e he
    have hadd : seqadd e.tcb.rcv.rcvnxt 1 = d.tcb.rcv.rcvnxt + 1 := by
      rw [he, E.seqadd_eq hhi]
    obtain ⟨k, hk⟩ := e.released_readers
    unfold Device.processFin
    rw [hk]
    dsimp only
    have hf : (e.signalReaders k).tcb.rcv.rcvnxt = e.tcb.rcv.rcvnxt := rfl
    generalize e.signalReaders k = f at hf
    rw [← hf] at hadd he
    cases f.tcb.state with
    | finwt1 =>
      split_ifs
      · change _ ≤ seqadd f.tcb.rcv.rcvnxt 1 ∧ seqadd f.tcb.rcv.rcvnxt 1 ≤ _
        omega
      · change _ ≤ seqadd f.tcb.rcv.rcvnxt 1 ∧ seqadd f.tcb.rcv.rcvnxt 1 ≤ _
        omega
    | estab | synrecv | finwt2 =>
      change _ ≤ seqadd f.tcb.rcv.rcvnxt 1 ∧ seqadd f.tcb.rcv.rcvnxt 1 ≤ _
      omega
    | closed | listen | synsent | closewt | closing | lastack | timewt =>
      change _ ≤ f.tcb.rcv.rcvnxt ∧ f.tcb.rcv.rcvnxt ≤ _
      omega
  unfold Device.recvFin
  dsimp only
  split_ifs
  · exact hfin d rfl
  · omega
  · exact hfin _ rfl
  · change _ ≤ d.tcb.rcv.rcvnxt ∧ d.tcb.rcv.rcvnxt ≤ _
    omega

/-- Behind the FIN of the other side, a segment without data or in a state that takes none changes
nothing. -/
theorem recvFin_past (hpast : PastFin d.tcb.rcv) (seqnum seglen : Nat) :
    d.recvFin seqnum seglen = d := by
  unfold Device.recvFin
  rw [if_pos hpast.1, if_neg]
  have := hpast.2
  omega

/-- **The data and the FIN of an acceptable segment.** -/
theorem tcpRecvData (h : d.Offers w) (E : Exact lo hi) (hs : Spanned lo hi d.tcb.rcv)
    (hp : lo ≤ pkt.seqnum ∧ pkt.seqnum + 2 ^ 16 ≤ hi) (ha : Arrives d.tcb.rcv pkt)
    (hpast : d.tcb.state = .finwt2 → PastFin d.tcb.rcv → pkt.seglen = 0) :
    (d.tcpRecvData pkt).1.Offers w := by
  have hspace := h.honest.space
  obtain ⟨hlo, hhi⟩ := id hs
  unfold Device.tcpRecvData
  dsimp only
  by_cases hl : Live d.tcb.state d.tcb.rcv
  · obtain ⟨hf, hfin⟩ := fills_recvText h.honest (h.marks hl) E hs hp ha hl.1
    have hst := d.recvText_state pkt
    have htext : (d.recvText pkt).1.Offers w := by
      refine ⟨hst ▸ h.state, h.edge.trans_eq hf.rcvwnd.symm, hf.honest, fun _ => hf.marks, ?_⟩
      -- a state that takes data is not one behind the FIN
      intro hseen
      rw [hst] at hseen
      have hno : ¬ d.tcb.state.FinSeen := by
        rcases hl.1 with h' | h' | h' <;> rw [h'] <;> simp [TcpState.FinSeen]
      exact absurd hseen hno
    have hnxt := hf.honest.next_le
    have hnxt' := hf.next_le
    rw [hf.rcvwnd] at hnxt
    rw [← hf.rcvflg, ← hf.rcvwnd] at hfin
    rw [← hst] at hl
    have hwnd : (d.recvText pkt).1.tcb.rcv.rcvwnd ≤ hi := by
      rw [hf.rcvwnd]
      omega
    generalize d.recvText pkt = x at htext hfin hnxt hnxt' hwnd hl
    by_cases hflag : x.2.2 = true
    · rw [if_pos hflag]
      have hfin' := htext.recvFin E (by omega) pkt.seqnum x.2.1
        ((hfin hflag).imp id fun hlt => ⟨hl.1, hlt⟩) hwnd
      have hn := rcvnxt_recvFin x.1 E (by omega) pkt.seqnum x.2.1
      exact hfin'.outputs E (by omega) (by omega) (outputs_respond _)
    · rw [if_neg hflag]
      exact htext.outputs E (by omega) (by omega) (outputs_respond _)
  · -- no data is taken, and there is no FIN to come
    have hpast' : PastFin d.tcb.rcv := by
      by_cases htakes : d.tcb.state.TakesData
      · by_contra hn
        exact hl ⟨htakes, fun _ => hn⟩
      · refine h.past ?_
        obtain ⟨h₁, h₂, h₃, h₄⟩ := h.state
        cases hst : d.tcb.state <;>
          first
          | exact absurd hst (by assumption)
          | exact absurd (show d.tcb.state.TakesData by rw [hst]; decide) htakes
          | simp [TcpState.FinSeen]
    have htext : d.recvText pkt = (d, pkt.seglen, pkt.control.fin) := by
      refine if_neg ?_
      rintro ⟨hpos, htakes⟩
      have hfw : d.tcb.state = .finwt2 := by
        by_contra hne
        exact hl ⟨htakes, fun h' => absurd h' hne⟩
      have := hpast hfw hpast'
      omega
    rw [htext]
    rw [recvFin_past hpast', ite_self]
    exact h.outputs E hlo (by omega) (outputs_respond _)

/-- **The acknowledgement of a segment** leaves the receive variables alone. From CLOSING the
connection goes back to FINWT2, with the FIN of the other side passed. -/
theorem recvAckState (h : d.Offers w) (pkt : TcpPkt) :
    (d.recvAckState pkt).1.Offers w ∧ (d.recvAckState pkt).1.tcb.rcv = d.tcb.rcv ∧
      ((d.recvAckState pkt).1.tcb.state = .finwt2 →
        d.tcb.state = .finwt1 ∨ d.tcb.state = .finwt2 ∨ d.tcb.state = .closing) := by
  have hq := d.quiet_tcpRecvAck pkt
  have hquiet := h.quiet hq
  unfold Device.recvAckState
  cases hst : d.tcb.state with
  | closed | listen | synsent | synrecv => exact absurd h.state (by rw [hst]; decide)
  | closewt | estab =>
    exact ⟨hquiet, hq.rcv, fun hs => absurd (hq.state.symm.trans hs) (by rw [hst]; simp)⟩
  | finwt1 =>
    dsimp only
    split_ifs
    · refine ⟨⟨(by decide : TcpState.finwt2.Synchronized), hquiet.edge, hquiet.honest,
        fun hl => ?_, fun hs => ?_⟩, hq.rcv, by simp⟩
      · refine hquiet.marks ?_
        rw [hq.state, hst]
        exact ⟨.inr (.inl rfl), by simp⟩
      · exact absurd hs (by simp [TcpState.FinSeen, setState])
    · exact ⟨hquiet, hq.rcv, by simp⟩
  | finwt2 =>
    dsimp only
    refine ⟨?_, ?_, by simp⟩
    · split_ifs
      · exact hquiet
      · exact hquiet
    · split_ifs
      · exact hq.rcv
      · exact hq.rcv
  | closing =>
    have hpast : PastFin d.tcb.rcv := h.past (by rw [hst]; exact .inr (.inl rfl))
    rw [← hq.rcv] at hpast
    dsimp only
    split_ifs
    · refine ⟨⟨(by decide : TcpState.finwt2.Synchronized), hquiet.edge, hquiet.honest,
        fun hl => absurd hpast (hl.2 rfl), fun hs => ?_⟩, hq.rcv, by simp⟩
      exact absurd hs (by simp [TcpState.FinSeen, setState, tcpTimerSched])
    · exact ⟨hquiet, hq.rcv, by simp⟩
  | lastack =>
    dsimp only
    split_ifs
    · exact ⟨h, rfl, fun hs => absurd (hst.symm.trans hs) (by simp)⟩
    · exact ⟨h, rfl, fun hs => absurd (hst.symm.trans hs) (by simp)⟩
  | timewt => exact ⟨h, rfl, fun hs => absurd (hst.symm.trans hs) (by simp)⟩

section

variable (h : d.Offers w) (E : Exact lo hi) (hs : Spanned lo hi d.tcb.rcv)
    (hp : lo ≤ pkt.seqnum ∧ pkt.seqnum + 2 ^ 16 ≤ hi) (hfit : Fitting d pkt)
include h E hs hp hfit

/-- **A segment that comes in.** -/
theorem tcpRecvOther : (d.tcpRecvOther pkt).1.Offers w := by
  have harrives := h.honest.arrives E hs hp hfit.1
  have hdata := hfit.2
  have hseq : (d.tcb.rcv.tcpRecvValid pkt).1.seqnum = pkt.seqnum := by
    unfold Recv.tcpRecvValid
    dsimp only
    split_ifs <;> rfl
  unfold Device.tcpRecvOther
  dsimp only
  generalize d.tcb.rcv.tcpRecvValid pkt = v at harrives hdata hseq ⊢
  split_ifs with hbad hrst hrst hsynrecv hpassive hsyn hack
  · exact h
  · exact h.outputs E hs.1 (by have := hs.2; omega) (outputs_tcpSendAck d)
  · exact absurd hsynrecv h.state.2.2.2
  · exact absurd hsynrecv h.state.2.2.2
  · exact h
  · exact h
  · exact h
  · obtain ⟨harr, hnil⟩ := harrives (by simpa using hbad) (by simpa using hsyn)
    obtain ⟨hoffers, hrcv, hfw⟩ := h.recvAckState v.1
    generalize d.recvAckState v.1 = x at hoffers hrcv hfw
    obtain ⟨e, result⟩ := x
    cases result with
    | some result => exact hoffers
    | none =>
      refine hoffers.tcpRecvData E (by rw [hrcv]; exact hs) (by rw [hseq]; exact hp)
        (by rw [hrcv]; exact harr) fun hst hpast => ?_
      rw [hrcv] at hpast
      exact hnil (hdata (hfw hst) hpast (by simpa using hbad))

theorem recv (src : NetAddr) :
    (d.exec (.recv pkt src)).tcb.state = .closed ∨ (d.exec (.recv pkt src)).Offers w := by
  have h' : (d.readOpts pkt).Offers w := h
  have hother := h'.tcpRecvOther E hs hp hfit
  rw [exec_recv pkt src ⟨h.state.1, h.state.2.1, h.state.2.2.1⟩]
  split_ifs
  · exact .inl (tcpFree_state _)
  · exact .inr (hother.quiet (quiet_signalMutex _))

end

end Device.Offers

/-! ## Runs -/

/-- The sequence numbers of a step lie where the helpers are exact, and a segment is one that fits.
-/
def Call.Fits (lo hi : Nat) (d : Device) : Call → Prop
  | .recv pkt _ =>
    Spanned lo hi d.tcb.rcv ∧ (lo ≤ pkt.seqnum ∧ pkt.seqnum + 2 ^ 16 ≤ hi) ∧ Fitting d pkt
  | _ => Spanned lo hi d.tcb.rcv

instance (lo hi : Nat) (d : Device) : ∀ c : Call, Decidable (c.Fits lo hi d) := by
  rintro ⟨⟩ <;> unfold Call.Fits <;> infer_instance

/-- A connection until it is freed, with segments that fit. -/
def windowMachine (lo hi : Nat) : Machine Device Call :=
  tcpMachine.restrict fun d c => d.tcb.state ≠ .closed ∧ c.Fits lo hi d

instance (lo hi : Nat) (d : Device) (c : Call) : Decidable ((windowMachine lo hi).enabled d c) :=
  inferInstanceAs (Decidable (_ ∧ _ ∧ _))

/-- The window is kept by every run of a connection. -/
theorem offers_run {calls : List Call} (E : Exact lo hi)
    (h : d.Offers w) (r : (windowMachine lo hi).Run d calls d') :
    d'.tcb.state = .closed ∨ d'.Offers w := by
  have hstep : ∀ d c, d.tcb.state = .closed ∨ d.Offers w → (windowMachine lo hi).enabled d c →
      ((windowMachine lo hi).next d c).tcb.state = .closed ∨
        ((windowMachine lo hi).next d c).Offers w := by
    rintro d c h ⟨-, hopen, hfits⟩
    have h := h.resolve_left hopen
    by_cases hrecv : ∃ pkt src, c = .recv pkt src
    · obtain ⟨pkt, src, rfl⟩ := hrecv
      exact h.recv E hfits.1 hfits.2.1 hfits.2.2 src
    · have hother : ∀ pkt src, c ≠ .recv pkt src := fun pkt src heq => hrecv ⟨pkt, src, heq⟩
      refine h.exec E ?_ c hother
      cases c with
      | recv pkt src => exact absurd rfl (hother pkt src)
      | _ => exact hfits
  exact Machine.Run.invariant (I := fun d => d.tcb.state = .closed ∨ d.Offers w) hstep r (Or.inr h)

/-- **The window is honest and never shrinks.** From a connection in ESTAB whose window is in order,
in every run in which no segment has its FIN at the edge of the window and none has data behind the
FIN, until the connection is freed: the edge does not move left, `rcvnxt` is not beyond it, and what
is on offer fits into the free part of the ring. -/
theorem window_honest {lo hi : Nat} {calls calls' : List Call} {d₀ d d' : Device} (E : Exact lo hi)
    (hst : d₀.tcb.state = .estab) (h₀ : Honest d₀.tcb.rcv) (hm₀ : Marks d₀.tcb.rcv)
    (r : (windowMachine lo hi).Run d₀ calls d) (r' : (windowMachine lo hi).Run d calls' d')
    (hopen : d'.tcb.state ≠ .closed) :
    d.tcb.rcv.rcvwnd ≤ d'.tcb.rcv.rcvwnd ∧ d'.tcb.rcv.rcvnxt ≤ d'.tcb.rcv.rcvwnd ∧
      d'.tcb.rcv.rcvwnd - d'.tcb.rcv.rcvnxt ≤ TCP_IBLEN - d'.tcb.rcv.icount := by
  have hoff : d₀.Offers 0 := by
    refine ⟨by rw [hst]; decide, Nat.zero_le _, h₀, fun _ => hm₀, fun hs => absurd hs ?_⟩
    rw [hst]
    simp [TcpState.FinSeen]
  rcases offers_run E hoff r with hclosed | h
  · -- nothing follows in a run behind the end of the connection
    have hstep : ∀ e c, e.tcb.state = .closed → (windowMachine lo hi).enabled e c →
        ((windowMachine lo hi).next e c).tcb.state = .closed :=
      fun e c he hen => absurd he hen.2.1
    exact absurd (Machine.Run.invariant hstep r' hclosed) hopen
  · have hedge : d.Offers d.tcb.rcv.rcvwnd := ⟨h.state, le_rfl, h.honest, h.marks, h.past⟩
    have h' := (offers_run E hedge r').resolve_left hopen
    have hle := h'.honest.next_le
    have hspace := h'.honest.space
    exact ⟨h'.edge, hle, by omega⟩

/-- A connection that waits for its first data has a window in order. -/
theorem Awaiting.honest (h : Awaiting d) : Honest d.tcb.rcv := by
  have hwnd := h.wnd_le
  refine ⟨h.next_le, by rw [h.icount]; exact hwnd, fun hf => ?_⟩
  exact absurd (h.fin.symm.trans hf) (by simp)

theorem Awaiting.marks (h : Awaiting d) : Marks d.tcb.rcv := by
  refine ⟨h.istart, ?_, fun k _ hm => ?_⟩
  · rw [h.icount, h.inxt, Nat.add_zero, Nat.mod_eq_of_lt h.istart]
  · exact absurd (h.imark _ (Nat.mod_lt _ (by decide))) (by rw [hm]; simp)

/-- Data out of order, a reader, and a FIN. -/
theorem window_honest_session :
    ∃ d d', (windowMachine 1000 200000).Run connection [octetsIn 5003 3 3 { ack := true }] d ∧
      (windowMachine 1000 200000).Run d [octetsIn 5001 3 1 { ack := true }, .read 4,
        octetsIn 5006 0 0 { ack := true, fin := true }] d' ∧
      d'.tcb.state = .closewt ∧ d'.tcb.rcv.rcvnxt = 5007 ∧ d'.tcb.rcv.icount = 1 ∧
      d.tcb.rcv.rcvwnd ≤ d'.tcb.rcv.rcvwnd ∧ d'.tcb.rcv.rcvnxt ≤ d'.tcb.rcv.rcvwnd ∧
      d'.tcb.rcv.rcvwnd - d'.tcb.rcv.rcvnxt ≤ TCP_IBLEN - d'.tcb.rcv.icount := by
  have r : (windowMachine 1000 200000).Run connection [octetsIn 5003 3 3 { ack := true }] _ :=
    Machine.run_after
  have r' : (windowMachine 1000 200000).Run
      ((windowMachine 1000 200000).after connection [octetsIn 5003 3 3 { ack := true }])
      [octetsIn 5001 3 1 { ack := true }, .read 4,
        octetsIn 5006 0 0 { ack := true, fin := true }] _ :=
    Machine.run_after
  exact ⟨_, _, r, r', by decide, by decide, by decide,
    window_honest (by decide) (by decide) awaiting_connection.honest
      awaiting_connection.marks r r' (by decide)⟩

/-- A connection opened from this side, whose first ACK finds no packet buffer: the window is still
that of the SYN. -/
def narrow : Device :=
  tcpMachine.after (Device.closed 0 [.sent OK, .nobuf] 1000)
    [.open { passive 7 (some ⟨1, [10, 0, 0, 2]⟩) with mode := 1 },
      .recv (emptySegment 5000 1905 1000 { syn := true, ack := true }) ⟨1, []⟩]

/-- **A FIN at the edge of the window is counted beyond it.** The data of a segment fills the window
exactly, and the FIN behind it is processed: `rcvnxt` passes the edge, and the acknowledgement
offers 65535 octets. -/
theorem window_passed :
    narrow.tcb.state = .estab ∧
      ∃ d, tcpMachine.Run narrow [octetsIn 5001 1459 1 { ack := true, fin := true }] d ∧
        narrow.tcb.rcv.rcvwnd = 6460 ∧ d.tcb.state = .closewt ∧ d.tcb.rcv.rcvnxt = 6461 ∧
        d.tcb.rcv.rcvwnd = 6460 ∧ d.tcb.rcv.icount = 1459 ∧
        (d.hist.sent.map fun seg => (seg.acknum, seg.window)).getLast? = some (6461, 65535) := by
  refine ⟨by decide, _, Machine.run_after, by decide⟩

end Xinu.Tcp
