import Xinu.Tcp.Closing

/-!
# The FIN of the peer

The FIN of the peer stands behind the last octet of its stream. When it comes in, its number is
stored in `rcvfin`; it is processed when `rcvnxt` has reached that number, and then the state
changes. The code gets three cases wrong. The number is computed from what is left of a segment of
which the front has come in before. In the state FINWT2 the FIN is processed and the state stays.
And a segment without FIN that brings the last octets in leaves a FIN that has come earlier where it
is, unless the loop over the marks comes to it.

## Main results

* `Incoming.tcpRecvData`: what a segment does to the receive variables
* `peer_fin_processed`: what holds of every run
-/

namespace Xinu.Tcp

open Device

variable {S : List UInt8} {base hi lo p : Nat} {d d' : Device} {pkt : TcpPkt}

/-! ## The loop over the marks, and the FIN -/

/-- The loop does not change what is known of the FIN. It reports the FIN when it has come to it,
and if it does not and `rcvnxt` is there, then it was there before. -/
theorem Recv.markLoop_fin (fuel : Nat) (r : Recv) :
    (r.markLoop fuel).1.rcvflg = r.rcvflg ∧ (r.markLoop fuel).1.rcvfin = r.rcvfin ∧
      ((r.markLoop fuel).2 = true → r.rcvflg.fin = true ∧ (r.markLoop fuel).1.rcvnxt = r.rcvfin) ∧
      ((r.markLoop fuel).2 = false → r.rcvflg.fin = true →
        (r.markLoop fuel).1.rcvnxt = r.rcvfin → (r.markLoop fuel).1.rcvnxt = r.rcvnxt) := by
  induction fuel generalizing r with
  | zero => exact ⟨rfl, rfl, fun h => absurd h (by simp [Recv.markLoop]), fun _ _ _ => rfl⟩
  | succ fuel ih =>
    rw [Recv.markLoop]
    dsimp only
    split_ifs with hmark hfin
    · exact ⟨rfl, rfl, fun _ => hfin, fun h => absurd h (by simp)⟩
    · obtain ⟨hflg, hnum, hdone, hopen⟩ := ih _
      refine ⟨hflg, hnum, hdone, fun h₁ h₂ h₃ => ?_⟩
      -- the loop has not come any further, so the test above has seen this number
      exact absurd ⟨h₂, (hopen h₁ h₂ h₃).symm.trans h₃⟩ hfin
    · exact ⟨rfl, rfl, fun h => absurd h (by simp), fun _ _ _ => rfl⟩

theorem Recv.readLoop_fin (len : Nat) (r : Recv) :
    (r.readLoop len).1.rcvflg = r.rcvflg ∧ (r.readLoop len).1.rcvfin = r.rcvfin := by
  induction len generalizing r with
  | zero => exact ⟨rfl, rfl⟩
  | succ len ih =>
    rw [Recv.readLoop]
    split_ifs
    · exact ih _
    · exact ⟨rfl, rfl⟩

theorem Recv.tcpSendWindow_fin (r : Recv) (st : TcpState) :
    (r.tcpSendWindow st).1.rcvnxt = r.rcvnxt ∧ (r.tcpSendWindow st).1.rcvflg = r.rcvflg ∧
      (r.tcpSendWindow st).1.rcvfin = r.rcvfin := by
  unfold Recv.tcpSendWindow
  cases st <;> dsimp only <;> (try split_ifs) <;> exact ⟨rfl, rfl, rfl⟩

namespace Device

theorem advance_fin (d : Device) (n : Nat) :
    (d.advance n).1.tcb.rcv.rcvflg = d.tcb.rcv.rcvflg ∧
      (d.advance n).1.tcb.rcv.rcvfin = d.tcb.rcv.rcvfin ∧
      ((d.advance n).2 = true →
        d.tcb.rcv.rcvflg.fin = true ∧ (d.advance n).1.tcb.rcv.rcvnxt = d.tcb.rcv.rcvfin) ∧
      ((d.advance n).2 = false → d.tcb.rcv.rcvflg.fin = true →
        (d.advance n).1.tcb.rcv.rcvnxt = d.tcb.rcv.rcvfin →
        (d.advance n).1.tcb.rcv.rcvnxt = seqadd d.tcb.rcv.rcvnxt n) := by
  have hloop := Recv.markLoop_fin TCP_IBLEN { d.tcb.rcv with
    icount := add32 d.tcb.rcv.icount n, ibytes := add32 d.tcb.rcv.ibytes n
    inxt := (d.tcb.rcv.inxt + n) % TCP_IBLEN, rcvnxt := seqadd d.tcb.rcv.rcvnxt n }
  unfold advance
  dsimp only
  split_ifs <;> exact hloop

/-- The text of a segment with data: what is left of it, and when the FIN is reported. -/
theorem recvText_fin (hst : d.tcb.state.TakesData) (hlen : 0 < pkt.seglen) :
    (d.recvText pkt).1.tcb.rcv.rcvflg = d.tcb.rcv.rcvflg ∧
      (d.recvText pkt).1.tcb.rcv.rcvfin = d.tcb.rcv.rcvfin ∧
      (d.recvText pkt).2.1 = (d.tcb.rcv.fit pkt).kept ∧
      ((d.recvText pkt).2.2 = true → d.tcb.rcv.rcvflg.fin = false →
        pkt.control.fin = true ∧ (d.tcb.rcv.fit pkt).seglen ≤ (d.tcb.rcv.fit pkt).window) ∧
      ((d.recvText pkt).2.2 = false → d.tcb.rcv.rcvflg.fin = true →
        (d.recvText pkt).1.tcb.rcv.rcvnxt = d.tcb.rcv.rcvfin →
        (d.recvText pkt).1.tcb.rcv.rcvnxt = d.tcb.rcv.rcvnxt ∨
          (d.tcb.rcv.fit pkt).start = d.tcb.rcv.inxt ∧
          (d.recvText pkt).1.tcb.rcv.rcvnxt = seqadd d.tcb.rcv.rcvnxt (d.tcb.rcv.fit pkt).kept ∧
          (pkt.control.fin = true → (d.tcb.rcv.fit pkt).window < (d.tcb.rcv.fit pkt).seglen)) := by
  unfold recvText
  rw [if_pos ⟨hlen, hst⟩]
  dsimp only
  generalize d.tcb.rcv.fit pkt = x
  have hcopy := Recv.copyLoop_eq x.start (fun i => pkt.data (x.skip + i)) x.kept d.tcb.rcv
  obtain ⟨hflg, hnum, hdone, hopen⟩ := advance_fin
    (d.modRcv fun r => r.copyLoop x.start (fun i => pkt.data (x.skip + i)) x.kept) x.kept
  have hflg' : (d.modRcv fun r => r.copyLoop x.start (fun i => pkt.data (x.skip + i))
      x.kept).tcb.rcv
      = d.tcb.rcv.copyLoop x.start (fun i => pkt.data (x.skip + i)) x.kept := rfl
  rw [hflg', hcopy] at hflg hnum hdone hopen
  split_ifs with hstart
  · refine ⟨hflg, hnum, rfl, fun h₁ h₂ => ?_, fun h₁ h₂ h₃ => .inr ⟨hstart, ?_, fun h₄ => ?_⟩⟩
    · rw [Bool.or_eq_true, Bool.and_eq_true, decide_eq_true_eq] at h₁
      refine h₁.resolve_right fun hd => ?_
      rw [(hdone hd).1] at h₂
      exact absurd h₂ (by simp)
    · exact hopen (Bool.or_eq_false_iff.mp h₁).2 h₂ h₃
    · have h₅ := (Bool.or_eq_false_iff.mp h₁).1
      rw [h₄, Bool.true_and, decide_eq_false_iff_not] at h₅
      omega
  · rw [hflg', hcopy]
    refine ⟨rfl, rfl, rfl, fun h₁ _ => ?_, fun _ _ _ => .inl rfl⟩
    rwa [Bool.and_eq_true, decide_eq_true_eq] at h₁

theorem advance_congr (hrcv : d'.tcb.rcv = d.tcb.rcv) (n : Nat) :
    (d'.advance n).2 = (d.advance n).2 ∧
      (d'.advance n).1.tcb.rcv.rcvnxt = (d.advance n).1.tcb.rcv.rcvnxt := by
  unfold advance modRcv
  dsimp only
  rw [hrcv]
  split_ifs <;> exact ⟨rfl, rfl⟩

/-- In the states that take data, the text of a segment depends on the receive variables only. -/
theorem recvText_congr (hst : d.tcb.state.TakesData) (hst' : d'.tcb.state.TakesData)
    (hrcv : d'.tcb.rcv = d.tcb.rcv) (pkt : TcpPkt) :
    (d'.recvText pkt).2 = (d.recvText pkt).2 ∧
      (d'.recvText pkt).1.tcb.rcv.rcvnxt = (d.recvText pkt).1.tcb.rcv.rcvnxt := by
  unfold recvText
  rw [hrcv]
  by_cases hlen : 0 < pkt.seglen
  · have htext : 0 < pkt.seglen ∧ d.tcb.state.TakesData := ⟨hlen, hst⟩
    have htext' : 0 < pkt.seglen ∧ d'.tcb.state.TakesData := ⟨hlen, hst'⟩
    unfold TcpState.TakesData at htext htext'
    dsimp only
    generalize d.tcb.rcv.fit pkt = x
    have hcopy :
        (d'.modRcv fun r => r.copyLoop x.start (fun i => pkt.data (x.skip + i)) x.kept).tcb.rcv =
          (d.modRcv fun r => r.copyLoop x.start (fun i => pkt.data (x.skip + i)) x.kept).tcb.rcv :=
      congrArg (Recv.copyLoop x.start (fun i => pkt.data (x.skip + i)) x.kept) hrcv
    have hadv := advance_congr hcopy x.kept
    split_ifs
    · rw [hadv.1]
      exact ⟨rfl, hadv.2⟩
    · exact ⟨rfl, congrArg
        (fun r => (Recv.copyLoop x.start (fun i => pkt.data (x.skip + i)) x.kept r).rcvnxt) hrcv⟩
  · rw [if_neg fun h => hlen h.1, if_neg fun h => hlen h.1]
    exact ⟨rfl, congrArg Recv.rcvnxt hrcv⟩

/-- A FIN that is expected next ends the states ESTAB and FINWT1. -/
theorem processFin_rcv (hst : d.tcb.state = .estab ∨ d.tcb.state = .finwt1) :
    (d.processFin.tcb.state = .closewt ∨ d.processFin.tcb.state = .closing ∨
        d.processFin.tcb.state = .timewt) ∧
      d.processFin.tcb.rcv.rcvnxt = seqadd d.tcb.rcv.rcvnxt 1 ∧
      d.processFin.tcb.rcv.rcvfin = d.tcb.rcv.rcvfin := by
  obtain ⟨k, hk⟩ := d.released_readers
  unfold processFin
  rw [hk]
  dsimp only
  rw [show (d.signalReaders k).tcb.state = d.tcb.state from rfl]
  rcases hst with hst | hst <;> rw [hst] <;> dsimp only
  · exact ⟨.inl rfl, rfl, rfl⟩
  · split_ifs
    · exact ⟨.inr (.inr rfl), rfl, rfl⟩
    · exact ⟨.inr (.inl rfl), rfl, rfl⟩

end Device

/-! ## The receive variables and the FIN -/

/-- With the text of the segment, everything before the FIN has come in. -/
def FinDue (d : Device) (pkt : TcpPkt) : Prop :=
  (d.recvText pkt).2.2 = true ∧
    (d.recvText pkt).1.tcb.rcv.rcvnxt =
      if d.tcb.rcv.rcvflg.fin = true then d.tcb.rcv.rcvfin
      else seqadd pkt.seqnum (d.recvText pkt).2.1
deriving Decidable

/-- The segment is not one of those that lose the FIN: one with FIN of which the front has come in
before, or one without FIN that brings the last octets before a FIN that has come earlier. -/
structure Recv.FinClear (r : Recv) (pkt : TcpPkt) : Prop where
  whole : pkt.control.fin = true → r.rcvflg.fin = false → 0 < pkt.length →
    (r.fit pkt).seglen ≤ (r.fit pkt).window → r.rcvnxt ≤ pkt.seqnum
  short : pkt.control.fin = false → r.rcvflg.fin = true → pkt.seqnum ≤ r.rcvnxt →
    pkt.seqnum + pkt.length ≠ r.rcvfin

/-- The data of the segment is processed in the state FINWT2. -/
def InFinwt2 (d : Device) (pkt : TcpPkt) : Prop :=
  d.tcb.state = .finwt2 ∨
    d.tcb.state = .finwt1 ∧ seqlte d.tcb.snd.sndfin (d.tcb.snd.ackedEdge pkt.acknum)
deriving Decidable

/-- The segment, if its data is processed, is not one of those that lose the FIN, and does not make
it due in the state FINWT2. -/
def FinGoes (d : Device) (pkt : TcpPkt) : Prop :=
  Acceptable d pkt → pkt.control.rst = false → pkt.control.syn = false →
    d.tcb.rcv.FinClear pkt ∧ (InFinwt2 d pkt → ¬ FinDue d pkt)

theorem FinDue.congr (h : FinDue d pkt) (hst : d.tcb.state.TakesData)
    (hst' : d'.tcb.state.TakesData) (hrcv : d'.tcb.rcv = d.tcb.rcv) : FinDue d' pkt := by
  obtain ⟨htext, hnext⟩ := recvText_congr hst hst' hrcv pkt
  unfold FinDue
  rw [htext, hnext, hrcv]
  exact h

/-- In the states that take data, the ACK of a segment leaves the receive variables alone. -/
theorem Device.recvAckState_of_takesData (hst : d.tcb.state.TakesData) (pkt : TcpPkt) :
    ∃ d', d.recvAckState pkt = (d', none) ∧ d'.tcb.rcv = d.tcb.rcv ∧ d'.tcb.state.TakesData ∧
      (d'.tcb.state = .finwt2 → InFinwt2 d pkt) := by
  have hquiet := d.quiet_tcpRecvAck pkt
  obtain ⟨huna, hfin⟩ := d.edge_tcpRecvAck pkt
  unfold recvAckState InFinwt2
  rw [← huna, ← hfin]
  generalize d.tcpRecvAck pkt = d₁ at hquiet
  have hstate := hquiet.state
  rcases hst with hst | hst | hst <;> rw [hst] at hstate ⊢ <;> dsimp only
  · exact ⟨d₁, rfl, hquiet.rcv, .inl hstate, fun h => absurd (hstate.symm.trans h) (by simp)⟩
  · split_ifs with hacked
    · exact ⟨_, rfl, hquiet.rcv, .inr (.inr rfl), fun _ => .inr ⟨rfl, hacked⟩⟩
    · refine ⟨_, rfl, hquiet.rcv, .inr (.inl hstate), fun h => ?_⟩
      exact absurd (hstate.symm.trans h) (by simp)
  · refine ⟨_, rfl, ?_, ?_, fun _ => .inl rfl⟩
    · split_ifs <;> exact hquiet.rcv
    · split_ifs <;> exact .inr (.inr hstate)

theorem FinGoes.tcpRecvOpts (h : FinGoes d pkt) (hst : d.tcb.state.TakesData) :
    FinGoes (d.readOpts pkt) pkt := by
  obtain ⟨hedge, hfin, -⟩ := ackedEdge_tcpRecvOpts d pkt pkt.acknum
  intro hacc hrst hsyn
  obtain ⟨hc, hdue⟩ := h ⟨hacc.valid, hacc.ack⟩ hrst hsyn
  refine ⟨hc, fun hin hd => hdue ?_ (FinDue.congr hd hst hst rfl)⟩
  unfold InFinwt2 at hin
  rwa [hedge, hfin] at hin

/-! ## Runs -/

/-- A segment that comes in agrees with the stream `S`, and its FIN stands behind the last octet. -/
def Call.Finishes (S : List UInt8) (base lo : Nat) : Call → Prop
  | .recv pkt _ => pkt.PartOf S base lo ∧
      (pkt.control.fin = true → pkt.seqnum + pkt.length = base + S.length)
  | _ => True

def Call.FinGoes (d : Device) : Call → Prop
  | .recv pkt _ => Tcp.FinGoes d pkt
  | _ => True

/-- The device in the states that take data, with a peer that sends the stream `S` and a FIN. -/
def finMachine (S : List UInt8) (base lo : Nat) : Machine Device Call :=
  tcpMachine.restrict fun d c => d.tcb.state.TakesData ∧ c.Finishes S base lo

/-- The same, with segments that the code takes as it should. -/
def clearMachine (S : List UInt8) (base lo : Nat) : Machine Device Call :=
  (finMachine S base lo).restrict fun d c => c.FinGoes d

instance (d : Device) (pkt : TcpPkt) : Decidable (Acceptable d pkt) :=
  decidable_of_iff ((d.tcb.rcv.tcpRecvValid pkt).2 = true ∧ pkt.control.ack = true)
    ⟨fun h => ⟨h.1, h.2⟩, fun h => ⟨h.valid, h.ack⟩⟩

instance (r : Recv) (pkt : TcpPkt) : Decidable (r.FinClear pkt) :=
  decidable_of_iff
    ((pkt.control.fin = true → r.rcvflg.fin = false → 0 < pkt.length →
        (r.fit pkt).seglen ≤ (r.fit pkt).window → r.rcvnxt ≤ pkt.seqnum) ∧
      (pkt.control.fin = false → r.rcvflg.fin = true → pkt.seqnum ≤ r.rcvnxt →
        pkt.seqnum + pkt.length ≠ r.rcvfin))
    ⟨fun h => ⟨h.1, h.2⟩, fun h => ⟨h.whole, h.short⟩⟩

instance (d : Device) (pkt : TcpPkt) : Decidable (FinGoes d pkt) :=
  inferInstanceAs (Decidable (_ → _ → _ → _ ∧ (_ → ¬ _)))

instance (S : List UInt8) (base lo : Nat) : ∀ c : Call, Decidable (c.Finishes S base lo) := by
  rintro ⟨⟩ <;> unfold Call.Finishes <;> infer_instance

instance (d : Device) : ∀ c : Call, Decidable (c.FinGoes d) := by
  rintro ⟨⟩ <;> unfold Call.FinGoes <;> infer_instance

instance (S : List UInt8) (base lo : Nat) (d : Device) (c : Call) :
    Decidable ((finMachine S base lo).enabled d c) := inferInstanceAs (Decidable (_ ∧ _ ∧ _))

instance (S : List UInt8) (base lo : Nat) (d : Device) (c : Call) :
    Decidable ((clearMachine S base lo).enabled d c) :=
  inferInstanceAs (Decidable ((finMachine S base lo).enabled d c ∧ c.FinGoes d))

/-- The stream comes in, and a FIN that has come stands behind it, further on. -/
def Pending (S : List UInt8) (base p : Nat) (r : Recv) : Prop :=
  ∃ R N, Reassembly S base p R N r ∧
    (r.rcvflg.fin = true → r.rcvfin = base + S.length ∧ N < S.length)

/-- The FIN has been processed. -/
structure FinTaken (S : List UInt8) (base : Nat) (d : Device) : Prop where
  state : d.tcb.state = .closewt ∨ d.tcb.state = .closing ∨ d.tcb.state = .timewt
  rcvfin : d.tcb.rcv.rcvfin = base + S.length
  rcvnxt : d.tcb.rcv.rcvnxt = base + S.length + 1

/-- The stream comes in, or its FIN has been processed, or the connection has been ended. -/
def Incoming (S : List UInt8) (base p : Nat) (d : Device) : Prop :=
  d.tcb.state.TakesData ∧ Pending S base p d.tcb.rcv ∨ FinTaken S base d ∨ d.tcb.state = .closed

namespace Pending

theorem invariant (p : Nat) (W : Within lo hi base S) :
    ReceiveInvariant fun r _ => Pending S base p r where
  window st hst r l := by
    rintro ⟨R, N, hr, hfin⟩
    obtain ⟨-, hflg, hnum⟩ := r.tcpSendWindow_fin st
    exact ⟨R, N, hr.window W hst, by rw [hflg, hnum]; exact hfin⟩
  readers r l n := by
    rintro ⟨R, N, hr, hfin⟩
    exact ⟨R, N, hr.congr rfl rfl rfl rfl rfl rfl rfl, hfin⟩
  read r l len := by
    rintro ⟨R, N, hr, hfin⟩
    obtain ⟨hflg, hnum⟩ := r.readLoop_fin len
    obtain ⟨R', hr', -⟩ := hr.readLoop len
    exact ⟨R', N, hr', by rw [hflg, hnum]; exact hfin⟩

end Pending

namespace Incoming

theorem outputs {P : Segment → Prop} (h : Incoming S base p d) (W : Within lo hi base S)
    (ho : Outputs P d d') : Incoming S base p d' := by
  rcases h with ⟨hst, h⟩ | h | h
  · exact Or.inl ((Pending.invariant p W).outputs hst h ho)
  · have hrcv : d'.tcb.rcv.rcvfin = base + S.length ∧ d'.tcb.rcv.rcvnxt = base + S.length + 1 := by
      refine ho.rcv.keeps
        (P := fun r => r.rcvfin = base + S.length ∧ r.rcvnxt = base + S.length + 1)
        (fun r hr => ?_) ⟨h.rcvfin, h.rcvnxt⟩
      obtain ⟨hnxt, -, hnum⟩ := r.tcpSendWindow_fin d.tcb.state
      rwa [hnxt, hnum]
    exact Or.inr (Or.inl ⟨by rw [ho.state]; exact h.state, hrcv.1, hrcv.2⟩)
  · exact Or.inr (Or.inr (ho.state.trans h))

/-- **The FIN**, stored before with its number or stored now: it is processed if it is expected
next. -/
theorem recvFin {R N seqnum seglen : Nat} (hr : Reassembly S base p R N d.tcb.rcv)
    (W : Within lo hi base S) (hst : d.tcb.state.TakesData)
    (hnum : (if d.tcb.rcv.rcvflg.fin = true then d.tcb.rcv.rcvfin else seqadd seqnum seglen) =
      base + S.length) (hfinwt2 : d.tcb.state = .finwt2 → d.tcb.rcv.rcvnxt ≠ base + S.length) :
    Incoming S base p (d.recvFin seqnum seglen) := by
  obtain ⟨E, hlo, hhi⟩ := W
  have hlen := hr.length
  -- with the number stored, whether the FIN is due is a matter of `rcvnxt`
  have hstored : ∀ d' : Device, d'.tcb.state = d.tcb.state → Reassembly S base p R N d'.tcb.rcv →
      d'.tcb.rcv.rcvfin = base + S.length →
      Incoming S base p (if d'.tcb.rcv.rcvnxt = d'.tcb.rcv.rcvfin then d'.processFin else d') := by
    intro d' hst' hr' hnum'
    have hnext := hr'.rcvnxt
    split_ifs with hdue
    · have hopen : d'.tcb.state = .estab ∨ d'.tcb.state = .finwt1 := by
        rw [hst']
        rcases hst with h | h | h
        · exact .inl h
        · exact .inr h
        · exact absurd (hr.rcvnxt.trans (hnext.symm.trans (hdue.trans hnum'))) (hfinwt2 h)
      obtain ⟨hstate, hrcvnxt, hrcvfin⟩ := processFin_rcv hopen
      refine .inr (.inl ⟨hstate, hrcvfin.trans hnum', ?_⟩)
      rw [hrcvnxt, hdue, hnum', E.seqadd_eq (by unfold TCP_IBLEN at hhi; omega)]
    · refine .inl ⟨hst' ▸ hst, R, N, hr', fun _ => ⟨hnum', ?_⟩⟩
      omega
  unfold Device.recvFin
  by_cases hflg : d.tcb.rcv.rcvflg.fin = true
  · rw [if_pos hflg] at hnum
    rw [if_pos hflg]
    exact hstored d rfl hr hnum
  · rw [if_neg hflg] at hnum
    rw [if_neg hflg]
    exact hstored _ rfl (hr.congr rfl rfl rfl rfl rfl rfl rfl) hnum

/-- **The text of a segment and the FIN.** A FIN that is reported for the first time has the number
behind the stream; as long as none is reported, a FIN that has come stands further on. -/
theorem recvText_fin {R N : Nat} (hr : Reassembly S base p R N d.tcb.rcv)
    (W : Within lo hi base S) (hst : d.tcb.state.TakesData)
    (hfin : d.tcb.rcv.rcvflg.fin = true → d.tcb.rcv.rcvfin = base + S.length ∧ N < S.length)
    (hp : pkt.PartOf S base lo)
    (hend : pkt.control.fin = true → pkt.seqnum + pkt.length = base + S.length)
    (hreach : Reaches (base + N) d.tcb.rcv.rcvwnd pkt) (hclear : d.tcb.rcv.FinClear pkt) :
    (d.recvText pkt).1.tcb.rcv.rcvflg = d.tcb.rcv.rcvflg ∧
      (d.recvText pkt).1.tcb.rcv.rcvfin = d.tcb.rcv.rcvfin ∧
      ((d.recvText pkt).2.2 = true → d.tcb.rcv.rcvflg.fin = false →
        seqadd pkt.seqnum (d.recvText pkt).2.1 = base + S.length) ∧
      ((d.recvText pkt).2.2 = false → d.tcb.rcv.rcvflg.fin = true →
        (d.recvText pkt).1.tcb.rcv.rcvnxt ≠ base + S.length) := by
  obtain ⟨E, hlo, hhi⟩ := id W
  have hlast := hp.last
  have hrange : base + S.length ≤ hi := by omega
  by_cases hlen : 0 < pkt.seglen
  · obtain ⟨a, ha, -, hinxt, hskip, hseglen, -, hzero⟩ := hr.fit W hp hreach
    obtain ⟨hflg, hnum, hleft, hdone, hopen⟩ := Device.recvText_fin hst hlen
    have hkept := (d.tcb.rcv.fit pkt).kept_le
    rw [hp.header.seglen_eq] at hlen
    refine ⟨hflg, hnum, fun h₁ h₂ => ?_, fun h₁ h₂ hdue => ?_⟩
    · obtain ⟨hctl, hfit⟩ := hdone h₁ h₂
      have hwhole := hclear.whole hctl h₂ hlen hfit
      rw [hr.rcvnxt] at hwhole
      have hall : (d.tcb.rcv.fit pkt).kept = (d.tcb.rcv.fit pkt).seglen := if_neg (by omega)
      have hskip₀ := hzero hwhole
      have hlast' := hend hctl
      rw [hleft, hall, E.seqadd_eq]
      omega
    · -- in-order data has come to the FIN, and no octet was waiting behind it
      obtain ⟨hnum', hlt⟩ := hfin h₂
      rcases hopen h₁ h₂ (hdue.trans hnum'.symm) with hnext | ⟨hstart, hnext, hcut⟩
      · rw [hdue, hr.rcvnxt] at hnext
        omega
      · obtain rfl := hinxt.mp hstart
        rw [hdue, hr.rcvnxt, E.seqadd_eq] at hnext
        have hctl : pkt.control.fin = false := by
          refine Bool.eq_false_of_not_eq_true fun hctl => ?_
          have := hcut hctl
          omega
        refine hclear.short hctl h₂ ?_ ?_
        · rw [hr.rcvnxt]
          omega
        · rw [hnum']
          omega
  · have htext : d.recvText pkt = (d, pkt.seglen, pkt.control.fin) := if_neg fun h => hlen h.1
    have hnil : pkt.seglen = 0 := by omega
    rw [htext]
    refine ⟨rfl, rfl, fun h₁ _ => ?_, fun _ h₂ => ?_⟩
    · have hlast' := hend h₁
      rw [← hp.header.seglen_eq, hnil] at hlast'
      dsimp only
      rw [hnil, E.seqadd_eq]
      exact hlast'
    · have := (hfin h₂).2
      rw [hr.rcvnxt]
      omega

/-- **The data of a segment that is acceptable.** -/
theorem tcpRecvData (h : Pending S base p d.tcb.rcv)
    (W : Within lo hi base S) (hst : d.tcb.state.TakesData)
    (hp : pkt.PartOf S base lo)
    (hend : pkt.control.fin = true → pkt.seqnum + pkt.length = base + S.length)
    (hreach : Reaches d.tcb.rcv.rcvnxt d.tcb.rcv.rcvwnd pkt) (hclear : d.tcb.rcv.FinClear pkt)
    (hfinwt2 : d.tcb.state = .finwt2 → ¬ FinDue d pkt) :
    Incoming S base p (d.tcpRecvData pkt).1 := by
  obtain ⟨R, N, hr, hfin⟩ := h
  rw [hr.rcvnxt] at hreach
  obtain ⟨N', hN', hr'⟩ := hr.recvText W hp hreach
  obtain ⟨hflg, hnum, hdone, hopen⟩ := recvText_fin hr W hst hfin hp hend hreach hclear
  have hst' : (d.recvText pkt).1.tcb.state = d.tcb.state := d.recvText_state pkt
  refine Incoming.outputs ?_ W (outputs_respond _)
  split_ifs with hbit
  · have hnumber : (if d.tcb.rcv.rcvflg.fin = true then d.tcb.rcv.rcvfin
        else seqadd pkt.seqnum (d.recvText pkt).2.1) = base + S.length := by
      split_ifs with h'
      · exact (hfin h').1
      · exact hdone hbit (by simpa using h')
    refine recvFin hr' W (hst' ▸ hst) (by rw [hflg, hnum]; exact hnumber) fun h₂ hdue => ?_
    exact hfinwt2 (hst'.symm.trans h₂) ⟨hbit, hdue.trans hnumber.symm⟩
  · refine .inl ⟨hst' ▸ hst, R, N', hr', ?_⟩
    rw [hflg, hnum]
    intro h'
    have hlen := hr'.length
    have hne := hopen (by simpa using hbit) h'
    rw [hr'.rcvnxt] at hne
    exact ⟨(hfin h').1, by omega⟩

/-- A segment of which nothing is left but its ACK. -/
theorem tcpRecvData_nil (h : Incoming S base p d) (W : Within lo hi base S) (hlen : pkt.seglen = 0)
    (hfin : pkt.control.fin = false) : Incoming S base p (d.tcpRecvData pkt).1 := by
  rw [tcpRecvData_of_skip hfin (by omega)]
  exact h.outputs W (outputs_respond _)

section

variable (h : Pending S base p d.tcb.rcv)
include h

section

variable (W : Within lo hi base S) (hst : d.tcb.state.TakesData) (hp : pkt.PartOf S base lo)
    (hend : pkt.control.fin = true → pkt.seqnum + pkt.length = base + S.length)
    (hclear : FinGoes d pkt)
include W hst hp hend hclear

/-- **A segment that comes in** resets the connection, or is taken into account. -/
theorem tcpRecvOther :
    (d.tcpRecvOther pkt).2 = TCP_ERR_RESET ∨ Incoming S base p (d.tcpRecvOther pkt).1 := by
  have hin : Incoming S base p d := .inl ⟨hst, h⟩
  obtain ⟨R, N, hr, hfin⟩ := id h
  have hvalid := hr.tcpRecvValid W hp
  obtain ⟨hack', hrst', hacknum⟩ := d.tcb.rcv.tcpRecvValid_header pkt
  have hacc : (d.tcb.rcv.tcpRecvValid pkt).2 = true → pkt.control.ack = true → Acceptable d pkt :=
    fun h₁ h₂ => ⟨h₁, h₂⟩
  unfold Device.tcpRecvOther
  dsimp only
  generalize d.tcb.rcv.tcpRecvValid pkt = v at hvalid hack' hrst' hacknum hacc ⊢
  have hsynrecv : d.tcb.state ≠ .synrecv := by
    rcases hst with h | h | h <;> rw [h] <;> simp
  split_ifs with hbad hrst hrst hsyn hack
  · exact .inr hin
  · exact .inr (hin.outputs W (outputs_tcpSendAck d))
  · exact .inl rfl
  · exact .inl rfl
  · exact .inr hin
  · right
    obtain ⟨d₂, hd₂, hrcv, hst₂, hfinwt2⟩ := d.recvAckState_of_takesData hst v.1
    rw [hd₂]
    have h₂ : Pending S base p d₂.tcb.rcv := by rwa [hrcv]
    rcases hvalid (by simpa using hbad) (by simpa using hsyn) with ⟨hpkt, hreach⟩ | ⟨hlen, hbit⟩
    · obtain ⟨hc, hdue⟩ := hclear (hacc (by simpa using hbad) (by simpa [hack'] using hack))
        (by simpa [hrst'] using hrst) (by simpa [hpkt] using hsyn)
      rw [hpkt] at hfinwt2 ⊢
      refine tcpRecvData h₂ W hst₂ hp hend ?_ (by rwa [hrcv]) fun hf hd => ?_
      · rw [hrcv, hr.rcvnxt]
        exact hreach
      · exact hdue (hfinwt2 hf) (hd.congr hst₂ hst hrcv.symm)
    · exact tcpRecvData_nil (.inl ⟨hst₂, h₂⟩) W hlen hbit

theorem recv (src : NetAddr) : Incoming S base p (d.exec (.recv pkt src)) := by
  have hopen : d.tcb.state ≠ .closed ∧ d.tcb.state ≠ .listen ∧ d.tcb.state ≠ .synsent := by
    rcases hst with h | h | h <;> rw [h] <;> simp
  have hother := tcpRecvOther (d := d.readOpts pkt) h W hst hp
    hend (hclear.tcpRecvOpts hst)
  rw [exec_recv pkt src hopen]
  split_ifs with hreset
  · exact Or.inr (Or.inr (tcpFree_state _))
  · exact (hother.resolve_left hreset).outputs W
      (outputs_signalMutex (P := fun _ => True) _)

end

/-- **Every step** takes the stream further, or processes its FIN, or ends the connection. -/
theorem step (W : Within lo hi base S) (hst : d.tcb.state.TakesData) (c : Call)
    (hc : c.Finishes S base lo) (hg : c.FinGoes d) : Incoming S base p (d.exec c) := by
  by_cases hrecv : ∃ pkt src, c = .recv pkt src
  · obtain ⟨pkt, src, rfl⟩ := hrecv
    exact recv h W hst hc.1 hc.2 hg src
  · have hother : ∀ pkt src, c ≠ .recv pkt src := fun pkt src heq => hrecv ⟨pkt, src, heq⟩
    rcases (Pending.invariant p W).exec hst h c hother with h' | h'
    · exact .inr (.inr h')
    · exact .inl h'

end

end Incoming

/-- A connection in which no data has come in. -/
structure Awaiting (d : Device) : Prop where
  state : d.tcb.state.TakesData
  istart : d.tcb.rcv.istart < TCP_IBLEN
  inxt : d.tcb.rcv.inxt = d.tcb.rcv.istart
  icount : d.tcb.rcv.icount = 0
  imark : ∀ i < TCP_IBLEN, d.tcb.rcv.imark i = false
  next_le : d.tcb.rcv.rcvnxt ≤ d.tcb.rcv.rcvwnd
  wnd_le : d.tcb.rcv.rcvwnd ≤ d.tcb.rcv.rcvnxt + TCP_IBLEN
  fin : d.tcb.rcv.rcvflg.fin = false

theorem Awaiting.pending (h : Awaiting d) (S : List UInt8) :
    Pending S d.tcb.rcv.rcvnxt d.tcb.rcv.istart d.tcb.rcv := by
  refine ⟨0, 0, ?_, fun hf => absurd (h.fin.symm.trans hf) (by simp)⟩
  exact .start h.istart h.inxt h.icount h.imark h.next_le h.wnd_le

/-- The FIN of the stream `S` is stored with its number; and if it is stored and all octets before
it have come in, then it has been processed. -/
structure FinSound (S : List UInt8) (base : Nat) (d : Device) : Prop where
  stored : d.tcb.rcv.rcvflg.fin = true → d.tcb.rcv.rcvfin = base + S.length
  processed : d.tcb.rcv.rcvflg.fin = true → d.tcb.rcv.rcvfin ≤ d.tcb.rcv.rcvnxt →
    d.tcb.rcv.rcvnxt = d.tcb.rcv.rcvfin + 1 ∧
      (d.tcb.state = .closewt ∨ d.tcb.state = .closing ∨ d.tcb.state = .timewt)

theorem Incoming.sound (h : Incoming S base p d) : d.tcb.state = .closed ∨ FinSound S base d := by
  rcases h with ⟨-, R, N, hr, hfin⟩ | h | h
  · refine .inr ⟨fun hf => (hfin hf).1, fun hf hle => ?_⟩
    obtain ⟨hnum, hlt⟩ := hfin hf
    rw [hnum, hr.rcvnxt] at hle
    omega
  · refine .inr ⟨fun _ => h.rcvfin, fun _ _ => ⟨?_, h.state⟩⟩
    rw [h.rcvnxt, h.rcvfin]
  · exact .inl h

/-- **The FIN of the peer is processed when the data before it is complete.** Let no data have come
in, and let the segments of the peer agree with a stream `S` that starts at `rcvnxt`, in any order
and with any overlap, the FIN behind its last octet. In every run without the three cases, the
number that is stored is that of the FIN, and once all octets before it have come in it has been
processed; unless the connection has been freed. -/
theorem peer_fin_processed {S : List UInt8} {lo hi : Nat} {d₀ d : Device} {calls : List Call}
    (E : Exact lo hi) (h₀ : Awaiting d₀) (hlo : lo ≤ d₀.tcb.rcv.rcvnxt)
    (hhi : d₀.tcb.rcv.rcvnxt + S.length + TCP_IBLEN ≤ hi)
    (r : (clearMachine S d₀.tcb.rcv.rcvnxt lo).Run d₀ calls d) :
    d.tcb.state = .closed ∨ FinSound S d₀.tcb.rcv.rcvnxt d := by
  have hstep : ∀ d c, Incoming S d₀.tcb.rcv.rcvnxt d₀.tcb.rcv.istart d →
      (clearMachine S d₀.tcb.rcv.rcvnxt lo).enabled d c →
      Incoming S d₀.tcb.rcv.rcvnxt d₀.tcb.rcv.istart
        ((clearMachine S d₀.tcb.rcv.rcvnxt lo).next d c) := by
    rintro d c h ⟨⟨-, hst, hc⟩, hg⟩
    rcases h with ⟨-, h⟩ | h | h
    · exact Incoming.step h ⟨E, hlo, hhi⟩ hst c hc hg
    · -- the FIN has been processed: no state that takes data
      exact absurd hst (by rcases h.state with h | h | h <;> rw [h] <;> decide)
    · exact absurd hst (by rw [h]; decide)
  exact (r.invariant hstep (.inl ⟨h₀.state, h₀.pending S⟩)).sound

/-! ### Segments that lose the FIN -/

/-- A connection with a peer whose stream starts at the number 5001. -/
def connection : Device := tcpMachine.after unopened (handshake 1905)

/-- A segment of `len` octets of data, of which the first is given. -/
def octetsIn (seqnum len : Nat) (first : UInt8) (control : Control) : Call :=
  .recv { emptySegment seqnum 1905 1000 control with
    tcplen := 20 + len, octet := fun i => first + UInt8.ofNat (i - 20) } ⟨1, []⟩

theorem awaiting_connection : Awaiting connection :=
  ⟨by decide, by decide, by decide, by decide, fun _ _ => rfl, by decide, by decide, by decide⟩

/-- The FIN comes first, with the last octets, and is processed when the first ones have come. -/
theorem peer_fin_processed_early :
    ∃ d, (clearMachine [1, 2, 3, 4, 5] 5001 5000).Run connection
        [octetsIn 5003 3 3 { ack := true, fin := true }, octetsIn 5001 3 1 { ack := true }] d ∧
      d.tcb.state = .closewt ∧ FinSound [1, 2, 3, 4, 5] 5001 d := by
  have r : (clearMachine [1, 2, 3, 4, 5] 5001 5000).Run connection
      [octetsIn 5003 3 3 { ack := true, fin := true }, octetsIn 5001 3 1 { ack := true }] _ :=
    Machine.run_after
  have hnext : connection.tcb.rcv.rcvnxt = 5001 := by decide
  have h := peer_fin_processed (S := [1, 2, 3, 4, 5]) (by decide : Exact 5000 100000)
    awaiting_connection (by rw [hnext]; decide) (by rw [hnext]; decide) (by rw [hnext]; exact r)
  refine ⟨_, r, by decide, h.resolve_left (by decide)⟩

/-- **The FIN is lost.** A segment with FIN repeats an octet that has come in: the number stored is
one too low, and the connection stays in ESTAB. A FIN comes in FINWT2: it is processed and the state
stays. A FIN comes before the data: the data comes in and the connection stays in ESTAB. -/
theorem peer_fin_lost :
    (∃ d, (finMachine [1, 2, 3, 4, 5] 5001 5000).Run connection
        [octetsIn 5001 3 1 { ack := true }, octetsIn 5003 3 3 { ack := true, fin := true }] d ∧
      d.tcb.state = .estab ∧ d.tcb.rcv.rcvnxt = 5006 ∧ d.tcb.rcv.rcvfin = 5005 ∧
      ¬ FinSound [1, 2, 3, 4, 5] 5001 d) ∧
    (∃ d, (finMachine [] 5001 5000).Run connection
        [.close, segmentIn 1906 { ack := true }, segmentIn 1906 { ack := true, fin := true }] d ∧
      d.tcb.state = .finwt2 ∧ d.tcb.rcv.rcvnxt = 5002 ∧ d.tcb.rcv.rcvfin = 5001 ∧
      ¬ FinSound [] 5001 d) ∧
    ∃ d, (finMachine [1, 2, 3] 5001 5000).Run connection
        [octetsIn 5004 0 0 { ack := true, fin := true }, octetsIn 5001 3 1 { ack := true }] d ∧
      d.tcb.state = .estab ∧ d.tcb.rcv.rcvnxt = 5004 ∧ d.tcb.rcv.rcvfin = 5004 ∧
      ¬ FinSound [1, 2, 3] 5001 d := by
  refine ⟨⟨_, Machine.run_after, by decide, by decide, by decide, fun h => ?_⟩,
    ⟨_, Machine.run_after, by decide, by decide, by decide, fun h => ?_⟩,
    ⟨_, Machine.run_after, by decide, by decide, by decide, fun h => ?_⟩⟩
  · exact absurd (h.stored (by decide)) (by decide)
  · exact absurd (h.processed (by decide) (by decide)).2 (by decide)
  · exact absurd (h.processed (by decide) (by decide)).1 (by decide)

end Xinu.Tcp
