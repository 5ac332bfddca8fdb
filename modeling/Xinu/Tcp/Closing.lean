import Xinu.Tcp.Calm
import Xinu.Tcp.Sender

/-!
# The acknowledgement of the FIN

A close makes progress when the other side has acknowledged the FIN. The code tests whether `snduna`
has reached `sndfin`, which is the number of the FIN itself, so that an acknowledgement of the data
before it is enough; and in the state LASTACK it tests before it has processed the acknowledgement.

## Main results

* `fin_acknowledged_iff`: the close goes on as it should for exactly the segments that are clear
-/

namespace Xinu.Tcp

open Device

variable {d d' : Device} {pkt : TcpPkt}

/-! ## What data and FIN leave alone -/

/-- The edge and the number of the FIN are the same. -/
structure SameEdge (d d' : Device) : Prop where
  snduna : d'.tcb.snd.snduna = d.tcb.snd.snduna
  sndfin : d'.tcb.snd.sndfin = d.tcb.snd.sndfin

namespace SameEdge

variable {d'' : Device}

theorem refl (d : Device) : SameEdge d d := ⟨rfl, rfl⟩

theorem trans (h : SameEdge d d') (h' : SameEdge d' d'') : SameEdge d d'' :=
  ⟨h'.snduna.trans h.snduna, h'.sndfin.trans h.sndfin⟩

theorem ite {c : Prop} {_ : Decidable c} (h : SameEdge d d') (h' : SameEdge d d'') :
    SameEdge d (if c then d' else d'') := by
  split_ifs
  · exact h
  · exact h'

end SameEdge

theorem Still.sameEdge {P : Segment → Prop} (h : Still P d d') : SameEdge d d' :=
  ⟨congrArg Books.snduna h.books, congrArg Books.sndfin h.books⟩

theorem Calm.sameEdge (h : Calm d d') : SameEdge d d' := by
  constructor <;> rw [h.snd]

theorem Moves.sameEdge (h : Moves d d') : SameEdge d d' := by
  constructor <;> rw [h.snd]

namespace Device

theorem sameEdge_transmit (d : Device) (ctrl : Control) (wndused tosend : Nat) :
    SameEdge d (d.transmit ctrl wndused tosend).1 := by
  obtain ⟨e, he, hcalm⟩ := d.transmit_cases ctrl wndused tosend
  refine he.sameEdge.trans (SameEdge.trans (.ite ?_ (.refl e)) hcalm.sameEdge)
  exact ⟨rfl, rfl⟩

theorem sameEdge_tcpSendData (d : Device) : SameEdge d d.tcpSendData.1 := by
  unfold tcpSendData
  dsimp only
  split_ifs
  · exact .refl d
  · exact .refl d
  · exact .refl d
  · exact ⟨rfl, rfl⟩
  · exact .refl d
  · exact ⟨rfl, rfl⟩
  · exact .refl d
  · exact (calm_noteTosend ..).sameEdge.trans (sameEdge_transmit ..)

theorem sameEdge_respond (d : Device) : SameEdge d d.respond := by
  refine SameEdge.trans (.ite (sameEdge_tcpSendData d) (.refl d)) (.ite ?_ (.refl _))
  exact (still_tcpSendAck _).sameEdge

/-- The states in which a close waits, with those that a FIN of the other side leads to. -/
theorem processFin_spec (d : Device) :
    SameEdge d d.processFin ∧
      (d.tcb.state = .finwt1 → d.processFin.tcb.state = .closing ∨
        d.processFin.tcb.state = .timewt) ∧
      (d.tcb.state = .finwt2 ∨ d.tcb.state = .closing ∨ d.tcb.state = .lastack →
        d.processFin.tcb.state = d.tcb.state) := by
  obtain ⟨k, hk⟩ := d.released_readers
  unfold processFin
  rw [hk]
  dsimp only
  rw [show (d.signalReaders k).tcb.state = d.tcb.state from rfl]
  cases hst : d.tcb.state with
  | finwt1 =>
    split_ifs
    · exact ⟨⟨rfl, rfl⟩, fun _ => .inr rfl, by simp⟩
    · exact ⟨⟨rfl, rfl⟩, fun _ => .inl rfl, by simp⟩
  | finwt2 => exact ⟨⟨rfl, rfl⟩, by simp, fun _ => hst⟩
  | synrecv | estab | timewt => exact ⟨⟨rfl, rfl⟩, by simp, by simp⟩
  | closed | listen | synsent | closewt | closing | lastack =>
    exact ⟨⟨rfl, rfl⟩, by simp, fun _ => hst⟩

/-- The data of a segment moves no edge, and the state only out of ESTAB and FINWT1. -/
def Stays (d d' : Device) : Prop :=
  SameEdge d d' ∧ (d.tcb.state = .finwt1 → d'.tcb.state ≠ .finwt2) ∧
    (d.tcb.state = .finwt2 ∨ d.tcb.state = .closing ∨ d.tcb.state = .lastack →
      d'.tcb.state = d.tcb.state)

theorem tcpRecvData_spec (d : Device) (pkt : TcpPkt) : d.Stays (d.tcpRecvData pkt).1 := by
  have htext := still_recvText (P := fun _ => False) d pkt
  unfold tcpRecvData
  dsimp only
  generalize d.recvText pkt = r at htext
  have hfin : d.Stays (if r.2.2 then r.1.recvFin pkt.seqnum r.2.1 else r.1) := by
    have hkeep : ∀ d', Still (fun _ => False) d d' → d.Stays d' := by
      intro d' hs
      refine ⟨hs.sameEdge, fun hst => ?_, fun _ => hs.state⟩
      rw [hs.state, hst]
      simp
    have hmove : ∀ d', Still (fun _ => False) d d' → d.Stays d'.processFin := by
      intro d' hs
      obtain ⟨hedge, hone, hother⟩ := d'.processFin_spec
      rw [hs.state] at hone hother
      refine ⟨hs.sameEdge.trans hedge, fun hst => ?_, hother⟩
      rcases hone hst with h | h <;> rw [h] <;> simp
    unfold recvFin
    dsimp only
    split_ifs
    · exact hmove _ htext
    · exact hkeep _ htext
    · exact hmove _ (htext.trans (still_modRcv ..))
    · exact hkeep _ (htext.trans (still_modRcv ..))
    · exact hkeep _ htext
  generalize (if r.2.2 = true then r.1.recvFin pkt.seqnum r.2.1 else r.1) = d₁ at hfin
  unfold Stays at hfin ⊢
  rw [(outputs_respond d₁).state]
  exact ⟨hfin.1.trans d₁.sameEdge_respond, hfin.2⟩

end Device

/-! ## The acknowledgement -/

/-- The edge `snduna` after an acknowledgement. -/
def Send.ackedEdge (s : Send) (acknum : Nat) : Nat :=
  if seqlt s.snduna acknum ∧ seqlte acknum s.sndnxt then acknum else s.snduna

/-- `tcpRecvAck` moves the edge and leaves the number of the FIN alone. -/
theorem Device.edge_tcpRecvAck (d : Device) (pkt : TcpPkt) :
    (d.tcpRecvAck pkt).tcb.snd.snduna = d.tcb.snd.ackedEdge pkt.acknum ∧
      (d.tcpRecvAck pkt).tcb.snd.sndfin = d.tcb.snd.sndfin := by
  unfold tcpRecvAck
  dsimp only
  generalize hd₁ : (if seqlt d.tcb.snd.snduna pkt.acknum ∧ seqlte pkt.acknum d.tcb.snd.sndnxt then
    d.acknowledge pkt.acknum else d) = d₁
  have hack : d₁.tcb.snd.snduna = d.tcb.snd.ackedEdge pkt.acknum ∧
      d₁.tcb.snd.sndfin = d.tcb.snd.sndfin := by
    rw [← hd₁]
    unfold Send.ackedEdge
    split_ifs
    · have hedge := (d.still_acknowledge (P := fun _ => False) pkt.acknum).sameEdge
      exact ⟨hedge.snduna, hedge.sndfin⟩
    · exact ⟨rfl, rfl⟩
  have hbooks := (d₁.updateWindow_spec pkt).1
  generalize d₁.updateWindow pkt = d₂ at hbooks
  have hedge : SameEdge d₁ d₂ := ⟨congrArg Books.snduna hbooks, congrArg Books.sndfin hbooks⟩
  have hlast : SameEdge d₁ (if seqlt d₂.tcb.snd.sndnxt pkt.acknum then
      d₂.modFlg fun f => { f with sndack := true } else d₂) :=
    hedge.trans (.ite ⟨rfl, rfl⟩ (.refl _))
  exact ⟨hlast.snduna.trans hack.1, hlast.sndfin.trans hack.2⟩

theorem Recv.tcpRecvValid_syn (r : Recv) (h : pkt.control.syn = false) :
    (r.tcpRecvValid pkt).1.control.syn = false := by
  unfold Recv.tcpRecvValid
  dsimp only
  split_ifs
  · rfl
  · exact h

/-- A segment that the code processes up to its ACK bit. -/
structure Acceptable (d : Device) (pkt : TcpPkt) : Prop where
  valid : (d.tcb.rcv.tcpRecvValid pkt).2 = true
  ack : pkt.control.ack = true

/-- The device after a segment, before `tcpRecv` frees it, and the result. -/
def Device.received (d : Device) (pkt : TcpPkt) : Device × Int :=
  (d.waitMutex.modSnd fun s => s.tcpRecvOpts pkt).tcpRecvOther pkt

/-- A close goes on: from FINWT1 into FINWT2, out of CLOSING, or from LASTACK to the end. -/
def Progress (d d' : Device) : Prop :=
  match d.tcb.state with
  | .finwt1 => d'.tcb.state = .finwt2
  | .closing => d'.tcb.state ≠ .closing
  | .lastack => d'.tcb.state = .closed
  | _ => False

/-- The close goes on only if the other side has acknowledged the FIN, and whenever an acceptable
segment acknowledges it. -/
structure FinFirst (d : Device) (pkt : TcpPkt) (src : NetAddr) : Prop where
  only : Progress d (d.exec (.recv pkt src)) →
    seqlt d.tcb.snd.sndfin (d.received pkt).1.tcb.snd.snduna
  does : Acceptable d pkt → seqlt d.tcb.snd.snduna pkt.acknum →
    seqlte pkt.acknum d.tcb.snd.sndnxt → pkt.acknum = add32 d.tcb.snd.sndfin 1 →
    Progress d (d.exec (.recv pkt src))

/-- The edge is not at the FIN, and in LASTACK the segment does not acknowledge the FIN. -/
def Clear (d : Device) (pkt : TcpPkt) : Prop :=
  match d.tcb.state with
  | .lastack =>
    d.tcb.snd.snduna ≠ d.tcb.snd.sndfin ∧
      (seqlt d.tcb.snd.sndfin d.tcb.snd.snduna ∨
        ¬ (seqlt d.tcb.snd.snduna pkt.acknum ∧ seqlte pkt.acknum d.tcb.snd.sndnxt ∧
          pkt.acknum = add32 d.tcb.snd.sndfin 1))
  | _ => d.tcb.snd.ackedEdge pkt.acknum ≠ d.tcb.snd.sndfin

theorem seqlte_iff_lt_or_eq {a b : Nat} (ha : a < 2 ^ 32) (hb : b < 2 ^ 32) :
    seqlte a b ↔ seqlt a b ∨ a = b := by
  unfold seqlte seqlt sub32
  omega

theorem not_seqlt_self (a : Nat) : ¬ seqlt a a := by
  unfold seqlt sub32
  omega

theorem seqlt_succ (a : Nat) : seqlt a (add32 a 1) := by
  unfold seqlt sub32 add32
  omega

namespace Device

/-- A segment once the connection is under way: the device is freed, or not. -/
theorem exec_recv (pkt : TcpPkt) (src : NetAddr)
    (hst : d.tcb.state ≠ .closed ∧ d.tcb.state ≠ .listen ∧ d.tcb.state ≠ .synsent) :
    d.exec (.recv pkt src) =
      if (d.received pkt).2 = TCP_ERR_RESET then (d.received pkt).1.tcpFree.1
      else (d.received pkt).1.signalMutex := by
  have hwait : d.waitMutex.tcb.state = d.tcb.state := rfl
  have hopts : (d.readOpts pkt).tcb.state = d.tcb.state := rfl
  have hrecv : d.waitMutex.tcpRecv pkt src =
      if (d.received pkt).2 = TCP_ERR_RESET then (d.received pkt).1.tcpFree
      else ((d.received pkt).1.signalMutex, (d.received pkt).2) := by
    unfold tcpRecv received
    dsimp only
    rw [hwait, hopts]
    obtain ⟨h₁, h₂, h₃⟩ := hst
    cases h : d.tcb.state <;> first | exact absurd h (by assumption) | rw [if_neg (by simp)]
  change (d.waitMutex.tcpRecv pkt src).1 = _
  rw [hrecv]
  split_ifs <;> rfl

theorem exec_recv_state (pkt : TcpPkt) (src : NetAddr)
    (hst : d.tcb.state = .finwt1 ∨ d.tcb.state = .closing ∨ d.tcb.state = .lastack) :
    (d.exec (.recv pkt src)).tcb.state =
      if (d.received pkt).2 = TCP_ERR_RESET then .closed else (d.received pkt).1.tcb.state := by
  rw [exec_recv pkt src (by rcases hst with h | h | h <;> rw [h] <;> simp)]
  split_ifs
  · exact tcpFree_state _
  · rfl

theorem received_of_not_acceptable (hrst : pkt.control.rst = false) (hsyn : pkt.control.syn = false)
    (h : ¬ Acceptable d pkt) : (d.received pkt).1.tcb.state = d.tcb.state ∧
      (d.received pkt).2 = OK := by
  obtain ⟨hack', hrst', -⟩ := d.tcb.rcv.tcpRecvValid_header pkt
  have hsyn' := d.tcb.rcv.tcpRecvValid_syn hsyn
  have hnot : (d.tcb.rcv.tcpRecvValid pkt).2 = true → pkt.control.ack = true → False :=
    fun hv ha => h ⟨hv, ha⟩
  have hrcv : (d.readOpts pkt).tcb.rcv = d.tcb.rcv := rfl
  unfold received tcpRecvOther
  dsimp only
  rw [hrcv]
  generalize d.tcb.rcv.tcpRecvValid pkt = v at hack' hrst' hsyn' hnot
  rw [hrst] at hrst'
  rw [hrst', hsyn']
  by_cases hv : v.2 = false
  · rw [if_pos hv]
    exact ⟨(outputs_tcpSendAck _).state, rfl⟩
  · have hack : v.1.control.ack = false := by
      rw [hack']
      exact Bool.eq_false_of_not_eq_true (hnot (by simpa using hv))
    rw [if_neg hv, hack]
    exact ⟨rfl, rfl⟩

theorem received_of_acceptable (hrst : pkt.control.rst = false) (hsyn : pkt.control.syn = false)
    (h : Acceptable d pkt) :
    d.received pkt =
      match (d.readOpts pkt).recvAckState (d.tcb.rcv.tcpRecvValid pkt).1 with
      | (d, some result) => (d, result)
      | (d', none) => d'.tcpRecvData (d.tcb.rcv.tcpRecvValid pkt).1 := by
  obtain ⟨hack', hrst', -⟩ := d.tcb.rcv.tcpRecvValid_header pkt
  have hsyn' := d.tcb.rcv.tcpRecvValid_syn hsyn
  have hrcv : (d.readOpts pkt).tcb.rcv = d.tcb.rcv := rfl
  have hv := h.valid
  unfold received tcpRecvOther
  dsimp only
  rw [hrcv]
  rw [hrst] at hrst'
  rw [h.ack] at hack'
  rw [hrst', hsyn', hack']
  refine (if_neg (by simp [hv])).trans ((if_neg (by simp)).trans ((if_neg (by simp)).trans ?_))
  exact if_neg (by simp)

end Device

section

/-- The options of a segment have nothing to do with the edge. -/
theorem ackedEdge_tcpRecvOpts (d : Device) (pkt : TcpPkt) (acknum : Nat) :
    (d.readOpts pkt).tcb.snd.ackedEdge acknum = d.tcb.snd.ackedEdge acknum ∧
      (d.readOpts pkt).tcb.snd.sndfin = d.tcb.snd.sndfin ∧
      (d.readOpts pkt).tcb.snd.snduna = d.tcb.snd.snduna := by
  have hbooks : (d.readOpts pkt).tcb.snd.books = _ :=
    (still_tcpRecvOpts (P := fun _ => False) d.waitMutex pkt).books
  generalize d.readOpts pkt = d₁ at hbooks
  obtain ⟨-, huna, hnxt, hfin, -⟩ := Books.mk.inj hbooks
  refine ⟨?_, hfin, huna⟩
  rw [Send.ackedEdge, Send.ackedEdge, huna, hnxt]
  rfl

/-- **FINWT1 and CLOSING** go on when the edge has reached the FIN. -/
theorem received_of_waiting (hst : d.tcb.state = .finwt1 ∨ d.tcb.state = .closing)
    (hrst : pkt.control.rst = false) (hsyn : pkt.control.syn = false) (h : Acceptable d pkt) :
    (d.received pkt).2 = OK ∧
      (d.received pkt).1.tcb.snd.snduna = d.tcb.snd.ackedEdge pkt.acknum ∧
      (seqlte d.tcb.snd.sndfin (d.tcb.snd.ackedEdge pkt.acknum) →
        (d.received pkt).1.tcb.state = .finwt2) ∧
      (¬ seqlte d.tcb.snd.sndfin (d.tcb.snd.ackedEdge pkt.acknum) →
        (d.tcb.state = .finwt1 → (d.received pkt).1.tcb.state ≠ .finwt2) ∧
        (d.tcb.state = .closing → (d.received pkt).1.tcb.state = .closing)) := by
  obtain ⟨hedge, hfin, -⟩ := ackedEdge_tcpRecvOpts d pkt pkt.acknum
  obtain ⟨-, -, hacknum⟩ := d.tcb.rcv.tcpRecvValid_header pkt
  have hst₁ : (d.readOpts pkt).tcb.state = d.tcb.state := rfl
  rw [received_of_acceptable hrst hsyn h]
  generalize d.readOpts pkt = d₁ at hedge hfin hst₁
  generalize (d.tcb.rcv.tcpRecvValid pkt).1 = pkt' at hacknum
  obtain ⟨huna₂, hfin₂⟩ := d₁.edge_tcpRecvAck pkt'
  have hst₂ := (d₁.quiet_tcpRecvAck pkt').state
  rw [hacknum, hedge] at huna₂
  rw [hfin] at hfin₂
  rw [hst₁] at hst₂
  unfold recvAckState
  generalize d₁.tcpRecvAck pkt' = d₂ at huna₂ hfin₂ hst₂
  rw [← hfin₂, ← huna₂]
  -- the acknowledgement moves the state, or it does not, and the data does not move it any further
  have hmoved : ∀ d₃ : Device, SameEdge d₂ d₃ → d₃.tcb.state = .finwt2 →
      (d₃.tcpRecvData pkt').1.tcb.snd.snduna = d₂.tcb.snd.snduna ∧
        (d₃.tcpRecvData pkt').1.tcb.state = .finwt2 := by
    intro d₃ hs hd₃
    obtain ⟨hedge₃, -, hkeep⟩ := d₃.tcpRecvData_spec pkt'
    exact ⟨hedge₃.snduna.trans hs.snduna, (hkeep (.inl hd₃)).trans hd₃⟩
  obtain ⟨hedge₂, hone, hkeep⟩ := d₂.tcpRecvData_spec pkt'
  rcases hst with hd | hd
  · rw [hst₁, hd]
    by_cases hpast : seqlte d₂.tcb.snd.sndfin d₂.tcb.snd.snduna
    · rw [if_pos hpast]
      obtain ⟨huna₃, hst₃⟩ := hmoved (d₂.signalOpenclose.setState .finwt2) ⟨rfl, rfl⟩ rfl
      exact ⟨rfl, huna₃, fun _ => hst₃, fun hn => absurd hpast hn⟩
    · rw [if_neg hpast]
      refine ⟨rfl, hedge₂.snduna, fun hn => absurd hn hpast, fun _ => ⟨fun _ => ?_, by simp⟩⟩
      exact hone (hst₂.trans hd)
  · rw [hst₁, hd]
    dsimp only
    by_cases hpast : seqlte d₂.tcb.snd.sndfin d₂.tcb.snd.snduna
    · rw [if_pos hpast]
      obtain ⟨huna₃, hst₃⟩ := hmoved
        ((d₂.signalOpenclose.setState .finwt2).tcpTimerSched TCP_TWOMSL .timewt).1 ⟨rfl, rfl⟩ rfl
      exact ⟨rfl, huna₃, fun _ => hst₃, fun hn => absurd hpast hn⟩
    · rw [if_neg hpast]
      refine ⟨rfl, hedge₂.snduna, fun hn => absurd hn hpast, fun _ => ⟨by simp, fun _ => ?_⟩⟩
      exact (hkeep (.inr (.inl (hst₂.trans hd)))).trans (hst₂.trans hd)

/-- **LASTACK** goes on when the edge had reached the FIN before the segment. -/
theorem received_of_lastack (hst : d.tcb.state = .lastack) (hrst : pkt.control.rst = false)
    (hsyn : pkt.control.syn = false) (h : Acceptable d pkt) :
    (d.received pkt).1.tcb.snd.snduna = d.tcb.snd.snduna ∧
      (seqlte d.tcb.snd.sndfin d.tcb.snd.snduna → (d.received pkt).2 = TCP_ERR_RESET) ∧
      (¬ seqlte d.tcb.snd.sndfin d.tcb.snd.snduna →
        (d.received pkt).2 = OK ∧ (d.received pkt).1.tcb.state = .lastack) := by
  obtain ⟨-, hfin, huna⟩ := ackedEdge_tcpRecvOpts d pkt pkt.acknum
  have hst₁ : (d.readOpts pkt).tcb.state = d.tcb.state := rfl
  rw [received_of_acceptable hrst hsyn h]
  generalize d.readOpts pkt = d₁ at hfin huna hst₁
  generalize (d.tcb.rcv.tcpRecvValid pkt).1 = pkt'
  obtain ⟨hedge, -, hkeep⟩ := d₁.tcpRecvData_spec pkt'
  unfold recvAckState
  rw [hst₁, hst]
  dsimp only
  rw [hfin, huna]
  by_cases hpast : seqlte d.tcb.snd.sndfin d.tcb.snd.snduna
  · rw [if_pos hpast]
    exact ⟨huna, fun _ => rfl, fun hn => absurd hpast hn⟩
  · rw [if_neg hpast]
    refine ⟨hedge.snduna.trans huna, fun hn => absurd hn hpast, fun _ => ⟨rfl, ?_⟩⟩
    exact (hkeep (.inr (.inr (hst₁.trans hst)))).trans (hst₁.trans hst)

/-- When a close goes on. -/
theorem progress_iff (src : NetAddr) (hrst : pkt.control.rst = false)
    (hsyn : pkt.control.syn = false) (h : Acceptable d pkt) :
    (d.tcb.state = .finwt1 ∨ d.tcb.state = .closing → (Progress d (d.exec (.recv pkt src)) ↔
        seqlte d.tcb.snd.sndfin (d.tcb.snd.ackedEdge pkt.acknum))) ∧
      (d.tcb.state = .lastack → (Progress d (d.exec (.recv pkt src)) ↔
        seqlte d.tcb.snd.sndfin d.tcb.snd.snduna)) := by
  constructor
  · intro hst
    obtain ⟨hok, -, hgo, hstay⟩ := received_of_waiting hst hrst hsyn h
    have hexec := exec_recv_state pkt src (hst.imp id .inl)
    rw [hok, if_neg (show OK ≠ TCP_ERR_RESET by decide)] at hexec
    unfold Progress
    rw [hexec]
    rcases hst with hst | hst
    · rw [hst]
      exact ⟨fun hp => not_not.mp fun hn => (hstay hn).1 hst hp, hgo⟩
    · rw [hst]
      refine ⟨fun hp => not_not.mp fun hn => hp ((hstay hn).2 hst), fun hp => ?_⟩
      rw [hgo hp]
      simp
  · intro hst
    obtain ⟨-, hgo, hstay⟩ := received_of_lastack hst hrst hsyn h
    have hexec := exec_recv_state pkt src (.inr (.inr hst))
    unfold Progress
    rw [hexec, hst]
    by_cases hp : seqlte d.tcb.snd.sndfin d.tcb.snd.snduna
    · rw [if_pos (hgo hp)]
      exact iff_of_true rfl hp
    · obtain ⟨hok, hlast⟩ := hstay hp
      rw [hok, if_neg (show OK ≠ TCP_ERR_RESET by decide), hlast]
      exact iff_of_false (by simp) hp

/-- **The acknowledgement of the FIN.** For a segment without RST and SYN, in a state in which a
close waits, the close goes on as it should if and only if the segment is clear or is not
acceptable. -/
theorem fin_acknowledged_iff (src : NetAddr)
    (hst : d.tcb.state = .finwt1 ∨ d.tcb.state = .closing ∨ d.tcb.state = .lastack)
    (hfin : d.tcb.snd.sndfin < 2 ^ 32) (huna : d.tcb.snd.snduna < 2 ^ 32)
    (hacknum : pkt.acknum < 2 ^ 32) (hrst : pkt.control.rst = false)
    (hsyn : pkt.control.syn = false) :
    FinFirst d pkt src ↔ (Acceptable d pkt → Clear d pkt) := by
  by_cases hacc : Acceptable d pkt
  swap
  · refine iff_of_true ⟨fun hp => ?_, fun ha => absurd ha hacc⟩ fun ha => absurd ha hacc
    obtain ⟨hsame, hok⟩ := received_of_not_acceptable hrst hsyn hacc
    have hexec := exec_recv_state pkt src hst
    rw [hok, if_neg (show OK ≠ TCP_ERR_RESET by decide), hsame] at hexec
    unfold Progress at hp
    rw [hexec] at hp
    rcases hst with h | h | h <;> simp [h] at hp
  rw [forall_prop_of_true hacc]
  obtain ⟨hwaiting, hlast⟩ := progress_iff src hrst hsyn hacc
  have hedge : d.tcb.snd.ackedEdge pkt.acknum < 2 ^ 32 := by
    unfold Send.ackedEdge
    split_ifs
    · exact hacknum
    · exact huna
  have hwait : d.tcb.state = .finwt1 ∨ d.tcb.state = .closing →
      (FinFirst d pkt src ↔ d.tcb.snd.ackedEdge pkt.acknum ≠ d.tcb.snd.sndfin) := by
    intro hst
    have hreceived := (received_of_waiting hst hrst hsyn hacc).2.1
    have hiff := hwaiting hst
    constructor
    · intro hf heq
      have hlt := hf.only (hiff.mpr ((seqlte_iff_lt_or_eq hfin hedge).mpr (.inr heq.symm)))
      rw [hreceived, heq] at hlt
      exact not_seqlt_self _ hlt
    · refine fun hne => ⟨fun hp => ?_, fun _ hlt hle heq => ?_⟩
      · rw [hreceived]
        exact ((seqlte_iff_lt_or_eq hfin hedge).mp (hiff.mp hp)).resolve_right (Ne.symm hne)
      · refine hiff.mpr ((seqlte_iff_lt_or_eq hfin hedge).mpr (.inl ?_))
        rw [Send.ackedEdge, if_pos ⟨hlt, hle⟩, heq]
        exact seqlt_succ _
  unfold Clear
  rcases hst with h | h | h
  · rw [h]
    exact hwait (.inl h)
  · rw [h]
    exact hwait (.inr h)
  · have hreceived := (received_of_lastack h hrst hsyn hacc).1
    have hiff := hlast h
    rw [seqlte_iff_lt_or_eq hfin huna] at hiff
    rw [h]
    constructor
    · intro hf
      have hne : d.tcb.snd.snduna ≠ d.tcb.snd.sndfin := by
        intro heq
        have hlt := hf.only (hiff.mpr (.inr heq.symm))
        rw [hreceived, heq] at hlt
        exact not_seqlt_self _ hlt
      refine ⟨hne, or_iff_not_imp_right.mpr fun hn => ?_⟩
      obtain ⟨hlt, hle, heq⟩ := not_not.mp hn
      exact (hiff.mp (hf.does hacc hlt hle heq)).resolve_right (Ne.symm hne)
    · rintro ⟨hne, hclear⟩
      refine ⟨fun hp => ?_, fun _ hlt hle heq => ?_⟩
      · rw [hreceived]
        exact (hiff.mp hp).resolve_right (Ne.symm hne)
      · exact hiff.mpr (.inl (hclear.resolve_right fun hn => hn ⟨hlt, hle, heq⟩))

end

/-- A connection that has written three octets and has been closed: the FIN has the number 1908. -/
def closing : Device :=
  tcpMachine.after unopened (handshake 1905 ++ [.write [10, 20, 30], .close])

/-- The acknowledgement of the FIN takes it into FINWT2. -/
theorem fin_acknowledged_iff_session :
    closing.tcb.state = .finwt1 ∧
      FinFirst closing (emptySegment 5001 1909 1000 { ack := true }) ⟨1, []⟩ := by
  have hclear : Clear closing (emptySegment 5001 1909 1000 { ack := true }) := by
    have hst : closing.tcb.state = .finwt1 := by decide
    unfold Clear
    rw [hst]
    decide
  exact ⟨by decide, (fin_acknowledged_iff _ (by decide) (by decide)
    (by decide) (by decide) rfl rfl).mpr fun _ => hclear⟩

/-- A connection that has written three octets and has been closed after the other side has: the FIN
has the number 1908. -/
def closingLast : Device :=
  tcpMachine.after unopened
    (handshake 1905 ++ [.write [10, 20, 30], segmentIn 1905 { ack := true, fin := true }, .close])

/-- **The close goes on too early and too late.** In FINWT1 the acknowledgement of the three octets
before the FIN leads to FINWT2. In LASTACK the acknowledgement of the FIN is not noticed. -/
theorem fin_acknowledged_early_late :
    ((∃ calls, tcpMachine.Run unopened calls closing) ∧
      closing.tcb.state = .finwt1 ∧ closing.tcb.snd.sndfin = 1908 ∧
      (closing.exec (segmentIn 1908 { ack := true })).tcb.state = .finwt2 ∧
      (closing.exec (segmentIn 1908 { ack := true })).tcb.snd.snduna = 1908 ∧
      ¬ FinFirst closing (emptySegment 5001 1908 1000 { ack := true }) ⟨1, []⟩) ∧
    (∃ calls, tcpMachine.Run unopened calls closingLast) ∧
      closingLast.tcb.state = .lastack ∧ closingLast.tcb.snd.sndfin = 1908 ∧
      (closingLast.exec (.recv (emptySegment 5002 1909 1000 { ack := true }) ⟨1, []⟩)).tcb.state =
        .lastack ∧
      ¬ FinFirst closingLast (emptySegment 5002 1909 1000 { ack := true }) ⟨1, []⟩ := by
  have hst : closing.tcb.state = .finwt1 := by decide
  have hst' : closingLast.tcb.state = .lastack := by decide
  refine ⟨⟨⟨_, Machine.run_after⟩, hst, by decide, by decide,
    by decide, fun h => ?_⟩, ⟨_, Machine.run_after⟩, hst',
    by decide, by decide, fun h => ?_⟩
  · have hgo : Progress closing
        (closing.exec (.recv (emptySegment 5001 1908 1000 { ack := true }) ⟨1, []⟩)) := by
      unfold Progress
      rw [hst]
      decide
    exact absurd (h.only hgo) (by decide)
  · have hgo := h.does ⟨by decide, rfl⟩ (by decide) (by decide)
      (by decide)
    unfold Progress at hgo
    rw [hst'] at hgo
    exact absurd hgo (by decide)

end Xinu.Tcp
