import Xinu.Tcp.Calm
import Xinu.Tcp.Sender

/-!
# The congestion window

The congestion window grows with the acknowledgements and falls to one segment when something is
sent again. The size of a segment is what the other side has asked for in an option, so whether the
window stays positive depends on the options that come in. Nothing but the arrival of a segment and
the timer touches these variables once a connection is set up.

## Main results

* `congestion_positive`: the window is positive in every state of a connection
* `tcpSendData_limit_iff`: when the amount in flight respects both windows
-/

namespace Xinu.Tcp

set_option maxRecDepth 8000

variable {d : Device} {hi lo : Nat}

/-! ## What changes them -/

/-- The largest congestion window: the square of the largest segment, and one more. -/
def CWN_MAX : Nat := 65535 ^ 2 + 1

/-- The variables of the congestion control are positive, and do not wrap. -/
structure Congestion.Positive (c : Congestion) : Prop where
  sndmss_pos : 0 < c.sndmss
  sndmss_lt : c.sndmss < 2 ^ 16
  sndcwn_pos : 0 < c.sndcwn
  sndcwn_le : c.sndcwn ≤ CWN_MAX
  sndsst_le : c.sndsst ≤ CWN_MAX / 2

/-- An acknowledgement: slow start, or the increase by a share of a segment. -/
def Congestion.grow (c : Congestion) : Congestion :=
  { c with
    sndcwn :=
      if c.sndcwn < c.sndsst then add32 c.sndcwn c.sndmss
      else add32 c.sndcwn (c.sndmss * c.sndmss % 2 ^ 32 / c.sndcwn) }

/-- The increase does not pass the largest window. -/
theorem add_div_le {m c : Nat} (hm : m < 2 ^ 16) (hc : 0 < c) (hle : c ≤ CWN_MAX) :
    c + m * m / c ≤ CWN_MAX := by
  have hsq : m * m ≤ 65535 ^ 2 := by
    have := Nat.mul_le_mul (Nat.le_of_lt_succ hm) (Nat.le_of_lt_succ hm)
    omega
  rcases lt_or_ge (m * m) c with hlt | hge
  · rw [Nat.div_eq_of_lt hlt]
    omega
  · -- both the window and the share are between one and the square
    have hdiv : m * m / c * c ≤ m * m := Nat.div_mul_le_self _ _
    have hpos : 0 < m * m / c := Nat.div_pos hge hc
    generalize m * m / c = q at hdiv hpos ⊢
    have hprod : c + q ≤ q * c + 1 := by
      obtain ⟨a, rfl⟩ := Nat.exists_eq_succ_of_ne_zero hc.ne'
      obtain ⟨b, rfl⟩ := Nat.exists_eq_succ_of_ne_zero hpos.ne'
      rw [Nat.succ_mul, Nat.mul_succ]
      omega
    unfold CWN_MAX
    omega

theorem Congestion.Positive.grow {c : Congestion} (h : c.Positive) : c.grow.Positive := by
  have hmax : CWN_MAX + 2 ^ 16 < 2 ^ 32 := by decide
  have h₁ := h.sndmss_lt
  have h₂ := h.sndcwn_le
  have h₃ := h.sndcwn_pos
  have hsq : c.sndmss * c.sndmss % 2 ^ 32 = c.sndmss * c.sndmss := by
    refine Nat.mod_eq_of_lt ?_
    have := Nat.mul_le_mul (Nat.le_of_lt_succ h₁) (Nat.le_of_lt_succ h₁)
    omega
  have hshare := add_div_le h₁ h₃ h₂
  have hsst := h.sndsst_le
  have hwindow : 0 < c.grow.sndcwn ∧ c.grow.sndcwn ≤ CWN_MAX := by
    unfold Congestion.grow
    dsimp only
    split_ifs with hslow
    · rw [add32_eq]
      unfold CWN_MAX at *
      omega
    · rw [hsq, add32_eq]
      exact ⟨Nat.add_pos_left h₃ _, hshare⟩
  exact ⟨h.sndmss_pos, h₁, hwindow.1, hwindow.2, hsst⟩

/-- A retransmission: the window is one segment, and the threshold half of what was in use. -/
theorem Send.backOff_positive {s : Send} (first : Bool)
    (h : (Congestion.mk s.sndmss s.sndcwn s.sndsst).Positive) :
    (Congestion.mk (s.backOff first).sndmss (s.backOff first).sndcwn
      (s.backOff first).sndsst).Positive := by
  have h₁ := h.sndmss_lt
  have h₂ := h.sndcwn_le
  have h₃ := h.sndsst_le
  have hmax : 2 ^ 16 ≤ CWN_MAX / 2 := by decide
  dsimp only at h₁ h₂ h₃
  refine ⟨h.sndmss_pos, h₁, h.sndmss_pos, ?_, ?_⟩
  · change s.sndmss ≤ CWN_MAX
    omega
  · unfold backOff
    dsimp only
    split_ifs <;> omega

/-! ## Segments -/

/-- A connection whose variables are positive, or none. -/
def Device.Connected (d : Device) : Prop := d.tcb.state = .closed ∨ d.congestion.Positive

/-- The mutex is left alone, and the variables stay positive. -/
structure Tame (d d' : Device) : Prop where
  mutex : d'.tcb.mutex = d.tcb.mutex
  positive : d.congestion.Positive → d'.congestion.Positive

/-- The mutex is released `k` times, and a connection is left with positive variables or closed. -/
structure Releases (k : Int) (d d' : Device) : Prop where
  mutex : d'.tcb.mutex = d.tcb.mutex + k
  connected : d.Connected → d'.Connected

section Relations

variable {d' d'' : Device} {j k : Int}

namespace Tame

theorem refl (d : Device) : Tame d d := ⟨rfl, id⟩

theorem trans (h : Tame d d') (h' : Tame d' d'') : Tame d d'' :=
  ⟨h'.mutex.trans h.mutex, h'.positive ∘ h.positive⟩

theorem ite {c : Prop} {_ : Decidable c} (h : Tame d d') (h' : Tame d d'') :
    Tame d (if c then d' else d'') := by
  split_ifs
  · exact h
  · exact h'

theorem releases (h : Tame d d') (hst : d.tcb.state = .closed → d'.tcb.state = .closed) :
    Releases 1 d d'.signalMutex :=
  ⟨congrArg (· + 1) h.mutex, Or.imp hst h.positive⟩

theorem tcpFree (h : Tame d d') : Releases 1 d d'.tcpFree.1 := by
  refine ⟨?_, fun _ => .inl d'.tcpFree_state⟩
  rw [← h.mutex]
  unfold Device.tcpFree
  split_ifs <;> rfl

end Tame

theorem Held.tame (h : Held d d') : Tame d d' := by
  refine ⟨h.mutex, fun hpos => ?_⟩
  rw [h.congestion]
  exact hpos

theorem Calm.tame (h : Calm d d') : Tame d d' := h.held.tame

theorem Releases.trans (h : Releases j d d') (h' : Releases k d' d'') : Releases (j + k) d d'' :=
  ⟨by rw [h'.mutex, h.mutex, Int.add_assoc], h'.connected ∘ h.connected⟩

end Relations

namespace Device

variable (d : Device)

theorem tame_tcpRecvRtt : Tame d d.tcpRecvRtt := by
  have hgrow : d.tcpRecvRtt.tcb.mutex = d.tcb.mutex ∧
      d.tcpRecvRtt.congestion = d.congestion.grow := by
    unfold tcpRecvRtt
    dsimp only
    split_ifs <;> exact ⟨rfl, rfl⟩
  refine ⟨hgrow.1, fun h => ?_⟩
  rw [hgrow.2]
  exact h.grow

theorem tame_acknowledge (acknum : Nat) : Tame d (d.acknowledge acknum) := by
  have hedge : ∀ e : Device, Tame e (e.modSnd fun s =>
      { s with snduna := acknum, rxtcount := 0 }) :=
    fun _ => ⟨rfl, id⟩
  refine Tame.trans ?_ (calm_snddata _ true).tame
  refine Tame.trans ?_ (.ite (held_tcpTimerSched ..).tame (.refl _))
  refine Tame.trans ?_ (tame_tcpRecvRtt _)
  refine Tame.trans ?_ (hedge _)
  exact .ite ⟨rfl, id⟩ ⟨rfl, id⟩

theorem tame_tcpRecvAck (pkt : TcpPkt) : Tame d (d.tcpRecvAck pkt) := by
  refine Tame.trans ?_ (.ite (calm_sndack _ true).tame (.refl _))
  refine Tame.trans ?_ (held_updateWindow _ pkt).tame
  exact .ite (d.tame_acknowledge _) (.refl d)

theorem tame_recvAckState (pkt : TcpPkt) : Tame d (d.recvAckState pkt).1 := by
  have hack := d.tame_tcpRecvAck pkt
  unfold recvAckState
  cases d.tcb.state with
  | synrecv =>
    dsimp only
    split_ifs
    · have hset : Tame d (d.setState .estab).signalOpenclose := ⟨rfl, id⟩
      exact hset.trans (tame_tcpRecvAck _ pkt)
    · exact ⟨rfl, id⟩
  | closewt | estab => exact hack
  | finwt1 | closing =>
    dsimp only
    split_ifs
    · exact hack.trans ⟨rfl, id⟩
    · exact hack
  | finwt2 => exact .ite (hack.trans ⟨rfl, id⟩) hack
  | lastack =>
    dsimp only
    split_ifs <;> exact ⟨rfl, id⟩
  | closed | listen | synsent | timewt => exact ⟨rfl, id⟩

theorem tame_tcpRecvOther (pkt : TcpPkt) : Tame d (d.tcpRecvOther pkt).1 := by
  unfold tcpRecvOther
  dsimp only
  generalize d.tcb.rcv.tcpRecvValid pkt = v
  split_ifs
  · exact .refl d
  · exact d.calm_tcpSendAck.tame
  · exact ⟨rfl, id⟩
  · exact ⟨rfl, id⟩
  · exact .refl d
  · exact ⟨rfl, id⟩
  · exact .refl d
  · have hack := d.tame_recvAckState v.1
    generalize d.recvAckState v.1 = r at hack
    obtain ⟨e, _ | result⟩ := r
    · exact hack.trans (e.held_tcpRecvData v.1).tame
    · exact hack

end Device

/-! ## The options -/

/-- The options of the segment ask for segments of size 0: the last maximum segment size in them is
the length of the header. -/
def TcpPkt.ZeroMss (pkt : TcpPkt) : Prop := (Send.tcpRecvOpts { sndmss := 1 } pkt).sndmss = 0
deriving Decidable

/-- The options set the size to a value of their own, or leave it. -/
theorem optsLoop_cases (octet : Nat → UInt8) (endopt n : Nat) : ∀ i,
    (∃ m < 2 ^ 16, ∀ mss, optsLoop octet endopt n i mss = m) ∨
      ∀ mss, optsLoop octet endopt n i mss = mss := by
  induction n with
  | zero => exact fun i => .inr fun _ => rfl
  | succ n ih =>
    intro i
    unfold optsLoop
    split_ifs with hgo hmss
    · rcases ih (i + 4) with ⟨m, hm, heq⟩ | heq
      · exact .inl ⟨m, hm, fun mss => heq _⟩
      · exact .inl ⟨_, Nat.mod_lt _ (by decide), fun mss => heq _⟩
    · exact ih (i + 1)
    · exact .inr fun _ => rfl

theorem Send.tcpRecvOpts_cases (pkt : TcpPkt) :
    (∃ m < 2 ^ 16, (m = 0 ↔ pkt.ZeroMss) ∧ ∀ s : Send, s.tcpRecvOpts pkt = { s with sndmss := m }) ∨
      ¬ pkt.ZeroMss ∧ ∀ s : Send, s.tcpRecvOpts pkt = s := by
  unfold TcpPkt.ZeroMss tcpRecvOpts
  by_cases hend : offset2octets pkt.offset = TCP_HDR_LEN
  · simp only [if_pos hend]
    exact .inr ⟨one_ne_zero, fun _ => trivial⟩
  · simp only [if_neg hend]
    rcases optsLoop_cases pkt.octet (offset2octets pkt.offset)
        (offset2octets pkt.offset) TCP_HDR_LEN
      with ⟨m, hm, heq⟩ | heq
    · refine .inl ⟨m, hm, ?_, fun s => ?_⟩
      · rw [heq]
      · rw [heq]
    · refine .inr ⟨?_, fun s => ?_⟩
      · rw [heq]
        exact one_ne_zero
      · rw [heq]

/-! ## Sections -/

namespace Device

variable (d : Device)

/-- **A segment.** Its options have to leave a size that is positive. -/
theorem releases_tcpRecv (pkt : TcpPkt) (src : NetAddr) :
    (d.tcpRecv pkt src).1.tcb.mutex = d.tcb.mutex + 1 ∧
      (¬ pkt.ZeroMss → d.Connected → (d.tcpRecv pkt src).1.Connected) := by
  unfold tcpRecv
  by_cases hclosed : d.tcb.state = .closed
  · rw [if_pos hclosed]
    exact ⟨rfl, fun _ _ => .inl hclosed⟩
  rw [if_neg hclosed]
  have hopts : ¬ pkt.ZeroMss → d.congestion.Positive →
      (d.modSnd fun s => s.tcpRecvOpts pkt).congestion.Positive := by
    intro hopt hpos
    rcases Send.tcpRecvOpts_cases pkt with ⟨m, hm, hzero, heq⟩ | ⟨-, heq⟩
    · have hm' : m ≠ 0 := mt hzero.mp hopt
      unfold modSnd congestion
      dsimp only
      rw [heq]
      exact ⟨Nat.pos_of_ne_zero hm', hm, hpos.sndcwn_pos, hpos.sndcwn_le, hpos.sndsst_le⟩
    · unfold modSnd congestion
      dsimp only
      rw [heq]
      exact hpos
  have hmutex : (d.modSnd fun s => s.tcpRecvOpts pkt).tcb.mutex = d.tcb.mutex := rfl
  generalize d.modSnd (fun s => s.tcpRecvOpts pkt) = e at hopts hmutex
  have hrest : ∀ r : Device × Int, Tame e r.1 →
      (if r.2 = TCP_ERR_RESET then r.1.tcpFree else (r.1.signalMutex, r.2)).1.tcb.mutex =
          e.tcb.mutex + 1 ∧
        (e.congestion.Positive →
          (if r.2 = TCP_ERR_RESET then r.1.tcpFree else (r.1.signalMutex, r.2)).1.Connected) := by
    intro r hr
    split_ifs
    · exact ⟨hr.tcpFree.mutex, fun _ => .inl r.1.tcpFree_state⟩
    · exact ⟨congrArg (· + 1) hr.mutex, fun hpos => .inr (hr.positive hpos)⟩
  rw [← hmutex]
  refine (hrest _ ?_).imp id fun h hopt hd => h (hopts hopt (hd.resolve_left hclosed))
  -- the ways to process the segment
  split
  · exact .refl e
  · exact (held_tcpRecvListen ..).tame
  · exact (held_tcpRecvSynsent ..).tame
  · exact tame_tcpRecvOther ..

theorem releases_retransmit (first : Bool) : Releases 1 d (d.retransmit first).1 := by
  have hback : ∀ e : Device, Tame e (e.modSnd fun s => s.backOff first) :=
    fun _ => ⟨rfl, Send.backOff_positive first⟩
  unfold retransmit
  dsimp only
  split_ifs
  · exact Tame.releases ((held_tcpTimerSched ..).tame.trans (calm_tcpSend ..).tame)
      fun h => (calm_tcpSend ..).state.trans h
  · exact Tame.releases (((held_tcpTimerSched ..).tame.trans (calm_tcpSend ..).tame).trans
      (hback _))
      fun h => (calm_tcpSend ..).state.trans h

theorem releases_tcpTimerTrigger (type : EvtType) : Releases 1 d (d.tcpTimerTrigger type).1 := by
  cases type with
  | timewt => exact (Tame.refl d).tcpFree
  | rxt =>
    change Releases 1 d d.tcpSendRxt.1
    unfold tcpSendRxt
    dsimp only
    split_ifs
    · exact (Tame.refl d).releases id
    · exact Tame.tcpFree ⟨rfl, id⟩
    · have h := releases_retransmit (d.modSnd fun s => { s with rxtcount := s.rxtcount + 1 })
        (decide (d.tcb.snd.rxtcount = 0))
      exact ⟨h.mutex, h.connected⟩
  | persist =>
    change Releases 1 d d.tcpSendPersist.1
    unfold tcpSendPersist
    split_ifs
    · exact Tame.releases ⟨rfl, id⟩ id
    · refine Tame.releases (Tame.trans ?_ (calm_tcpSend ..).tame) fun h =>
        (calm_tcpSend ..).state.trans h
      exact ⟨rfl, id⟩

theorem releases_openWith (a : OpenArgs) (localip : NetAddr) :
    Releases 1 d (d.openWith a localip).1 := by
  have hinit : (Congestion.mk TCP_INIT_MSS TCP_INIT_MSS TCP_MAX_WND).Positive :=
    ⟨by decide, by decide, by decide, by decide, by decide⟩
  -- whatever `tcpSetup` returns
  have hrest : ∀ r : Device × Int, r.1.tcb.mutex = d.tcb.mutex → r.1.congestion.Positive →
      Releases 1 d (if r.2 = SYSERR then (r.1.tcpFree.1, SYSERR)
        else if a.mode = 0 then ((r.1.setState .listen).signalMutex.waitOpenclose, OK)
        else if a.mode = 1 then
          if r.1.tcpOpenActive.2 = SYSERR then (r.1.tcpOpenActive.1.tcpFree.1, SYSERR)
          else (r.1.tcpOpenActive.1.signalMutex.waitOpenclose, OK)
        else (r.1.tcpFree.1, SYSERR)).1 := by
    intro r hr hpos
    have hset : Tame d r.1 := ⟨hr, fun _ => hpos⟩
    have hactive := r.1.held_tcpOpenActive.tame
    split_ifs
    · exact hset.tcpFree
    · exact ⟨congrArg (· + 1) hr, fun _ => .inr hpos⟩
    · exact (hset.trans hactive).tcpFree
    · exact ⟨congrArg (· + 1) (hactive.mutex.trans hr), fun _ => .inr (hactive.positive hpos)⟩
    · exact hset.tcpFree
  exact hrest _ rfl hinit

theorem releases_tcpOpen (a : OpenArgs) : Releases 1 d (d.tcpOpen a).1 := by
  unfold tcpOpen
  dsimp only
  split_ifs
  · exact ⟨rfl, id⟩
  · cases a.localip with
    | none => exact ⟨rfl, id⟩
    | some localip =>
      have h := releases_openWith { d with tcb := { d.tcb with devstate := true } } a localip
      exact ⟨h.mutex, h.connected⟩

theorem releases_closeSend : Releases 1 d d.closeSend.1 := by
  have hdata : Tame d (if d.tcb.snd.sndflg.snddata = true then d.tcpSendData.1 else d) :=
    .ite d.held_tcpSendData.tame (.refl d)
  exact ⟨congrArg (· + 1) hdata.mutex, Or.imp (outputs_closeSend d).state.trans hdata.positive⟩

theorem releases_tcpClose :
    Releases (if d.tcb.state = .synsent ∨ d.tcb.state = .listen then 2 else 1) d d.tcpClose.1 := by
  -- the connection goes on in another state
  have hgoes : ∀ e : Device, Tame d e → d.tcb.state ≠ .closed → Releases 1 d e.closeSend.1 := by
    intro e he hst
    refine ⟨e.releases_closeSend.mutex.trans (by rw [he.mutex]), fun h => ?_⟩
    exact e.releases_closeSend.connected (.inr (he.positive (h.resolve_left hst)))
  unfold tcpClose
  cases hst : d.tcb.state with
  | closed => exact ⟨rfl, id⟩
  | synsent =>
    have hfree := (d.calm_releaseWriters.trans (calm_releaseReaders _)).tame.tcpFree
    exact hfree.trans (releases_closeSend _)
  | listen => exact d.calm_releaseReaders.tame.tcpFree.trans (releases_closeSend _)
  | synrecv =>
    rw [if_neg (by decide)]
    dsimp only
    split
    · exact hgoes _ ⟨rfl, id⟩ (by simp [hst])
    · exact hgoes _ ⟨rfl, id⟩ (by simp [hst])
  | estab | closewt => exact hgoes _ ⟨rfl, id⟩ (by simp [hst])
  | finwt1 | finwt2 | closing | lastack | timewt => exact ⟨rfl, id⟩

/-- The check of `tcpWrite` gives the mutex back where it fails. -/
theorem releases_writeStateCheck :
    (d.writeStateCheck = (d, OK) ∧ d.tcb.state ≠ .closed) ∨
      d.writeStateCheck.2 ≠ OK ∧ Releases 1 d d.writeStateCheck.1 := by
  by_cases hst : d.tcb.state = .listen
  · refine .inr ?_
    have hne : d.tcb.state ≠ .closed := by simp [hst]
    have hnospec : TCP_ERR_NOSPEC ≠ OK := by decide
    have hactive : Tame d (d.setState .synsent).tcpOpenActive.1 :=
      (d.held_setState .synsent).tame.trans (held_tcpOpenActive _).tame
    unfold writeStateCheck
    rw [hst]
    dsimp only
    split_ifs
    · exact ⟨(by decide : SYSERR ≠ OK), hactive.releases fun h => absurd h hne⟩
    · exact ⟨hnospec, (hactive.trans (held_tcpSendSyn _).tame).releases fun h => absurd h hne⟩
    · exact ⟨hnospec, hactive.releases fun h => absurd h hne⟩
    · exact ⟨hnospec, (Tame.refl d).releases id⟩
  · refine (writeStateCheck_cases hst).imp id ?_
    rintro ⟨err, herr, hcheck⟩
    rw [hcheck]
    exact ⟨herr, (Tame.refl d).releases id⟩

theorem releases_tcpWriteRound (buffer : List UInt8) : Releases 1 d (d.tcpWriteRound buffer).1 := by
  unfold tcpWriteRound
  rcases d.releases_writeStateCheck with ⟨hcheck, hst⟩ | ⟨herr, hrel⟩
  · rw [hcheck, if_neg (not_not.mpr rfl)]
    -- the loop only touches the buffer
    have hloop : Tame d { (d.modSnd fun _ => (d.tcb.snd.writeLoop buffer).1) with
        hist := { d.hist with
          written := d.hist.written ++ buffer.take (d.tcb.snd.writeLoop buffer).2 } } := by
      refine ⟨rfl, fun hpos => ?_⟩
      rw [Send.writeLoop_eq]
      exact hpos
    have hsend : ∀ e : Device, Tame d e → Releases 1 d
        (if e.tcb.state = .estab ∨ e.tcb.state = .closewt then e.tcpSendData.1
          else e).signalMutex :=
      fun e he => Tame.releases (he.trans (.ite e.held_tcpSendData.tame (.refl e)))
        fun h => absurd h hst
    exact hsend _ (.ite (hloop.trans (calm_signalWriters ..).tame) hloop)
  · rw [if_pos herr]
    exact ⟨hrel.mutex, hrel.connected⟩

theorem releases_tcpReadCheck : Releases 1 d d.tcpReadCheck.1 := by
  rw [tcpReadCheck_fst]
  exact (Tame.refl d).releases id

theorem releases_tcpReadRound (len : Nat) : Releases 1 d (d.tcpReadRound len).1 := by
  obtain ⟨e, he, hround⟩ := d.calm_tcpReadRound len
  rw [hround]
  exact he.tame.releases he.state.trans

end Device

/-- A segment that comes in has no option that makes the maximum segment size zero. -/
def Call.MssPositive : Call → Prop
  | .recv pkt _ => ¬ pkt.ZeroMss
  | _ => True

instance : ∀ c : Call, Decidable c.MssPositive := by
  rintro ⟨⟩ <;> unfold Call.MssPositive <;> infer_instance

namespace Device

/-- One step keeps the congestion variables of a connection positive. -/
theorem connected_exec (h : d.Connected) (c : Call) (hc : c.MssPositive) :
    (d.exec c).Connected := by
  -- to take the mutex changes neither the state nor the send variables
  have hw : d.waitMutex.Connected := h
  cases c with
  | «open» args => exact (releases_tcpOpen _ args).connected hw
  | close => exact (releases_tcpClose _).connected hw
  | writeCheck =>
    change d.waitMutex.writeStateCheck.1.Connected
    rcases d.waitMutex.releases_writeStateCheck with ⟨hcheck, -⟩ | ⟨-, hrel⟩
    · rw [hcheck]
      exact hw
    · exact hrel.connected hw
  | write buffer => exact (releases_tcpWriteRound _ buffer).connected hw
  | readCheck => exact (releases_tcpReadCheck _).connected hw
  | read len => exact (releases_tcpReadRound _ len).connected hw
  | recv pkt src => exact (releases_tcpRecv _ pkt src).2 hc hw
  | expire =>
    exact expire_rule h fun type =>
      (releases_tcpTimerTrigger _ type).connected h
  | writeWait | readWait | elapse => exact h

end Device

/-- The device, where no segment that comes in makes the maximum segment size zero. -/
def mssMachine : Machine Device Call := tcpMachine.restrict fun _ c => c.MssPositive

instance (d : Device) (c : Call) : Decidable (mssMachine.enabled d c) :=
  inferInstanceAs (Decidable (_ ∧ _))

/-- **The congestion variables stay positive.** In every run from the closed device in which no
segment has an option that makes the maximum segment size zero, `sndmss` and `sndcwn` are positive
from `tcpSetup` on. So nothing is divided by zero where `tcpRecvRtt` increases the congestion
window, and what `tcpSendRxt` sends again of pending data is not empty. -/
theorem congestion_positive {minor nextseq : Nat}
    {net : List Sending} {calls : List Call} {d : Device}
    (r : mssMachine.Run (Device.closed minor net nextseq) calls d) (hst : d.tcb.state ≠ .closed) :
    0 < d.tcb.snd.sndmss ∧ 0 < d.tcb.snd.sndcwn ∧
      ∀ pending, 0 < pending → 0 < min pending d.tcb.snd.sndmss := by
  have hstep : ∀ d c, d.Connected → mssMachine.enabled d c → (mssMachine.next d c).Connected :=
    fun d c h he => Device.connected_exec h c he.2
  have hpos := (r.invariant hstep (.inl rfl)).resolve_left hst
  exact ⟨hpos.sndmss_pos, hpos.sndcwn_pos, fun _ hp => lt_min hp hpos.sndmss_pos⟩

/-- A segment behind the SYN of the other side, with an option that gives the maximum segment size
in two octets. -/
def mssIn (acknum window : Nat) (control : Control) (high low : UInt8) : Call :=
  .recv { emptySegment 5001 acknum window control with
    offset := 0x60
    tcplen := 24
    octet := fun i => if i = 20 then 2 else if i = 21 then 4 else if i = 22 then high
      else if i = 23 then low else 0 } ⟨1, []⟩

/-- A segment is sent again, after an option for a size of 5120 octets. -/
theorem congestion_positive_session :
    ∃ d, mssMachine.Run unopened (handshake 1905 ++ [.write [10, 20, 30],
        mssIn 1905 1000 { ack := true } 0x00 0x14, .elapse 500, .expire]) d ∧
      d.tcb.state = .estab ∧ d.tcb.snd.sndmss = 5100 ∧ d.tcb.snd.sndcwn = 5100 ∧
      0 < d.tcb.snd.sndmss ∧ 0 < d.tcb.snd.sndcwn := by
  have r : mssMachine.Run unopened (handshake 1905 ++ [.write [10, 20, 30],
      mssIn 1905 1000 { ack := true } 0x00 0x14, .elapse 500, .expire]) _ :=
    Machine.run_after
  have h := congestion_positive r (by decide)
  exact ⟨_, r, by decide, by decide, by decide, h.1, h.2.1⟩

/-- **A segment can make the congestion window zero.** The octets of the size are read in the wrong
order, and the size of the header is taken off: the option for a size of 5120 octets gives segments
of size 0. With the next timeout the congestion window is 0 too, and nothing is sent again of the
three octets that are pending. -/
theorem congestion_zero :
    ∃ d, tcpMachine.Run unopened (handshake 1905 ++ [.write [10, 20, 30],
        mssIn 1905 1000 { ack := true } 0x14 0x00, .elapse 500, .expire]) d ∧
      d.tcb.state = .estab ∧ d.tcb.snd.sndmss = 0 ∧ d.tcb.snd.sndcwn = 0 ∧
      tcpSeqdiff d.tcb.snd.sndnxt d.tcb.snd.snduna = 3 ∧
      (d.hist.sent.map fun seg => (seg.seqnum, seg.data)).getLast? = some (1905, []) := by
  refine ⟨_, Machine.run_after, by decide⟩

/-! ## The two windows -/

/-- `tcpSendData` gets to the point where it sends. -/
structure Send.Transmits (s : Send) : Prop where
  sndmss : s.sndmss ≠ 0
  fin : ¬ (s.sndflg.fin = true ∧ seqlt s.sndfin s.sndnxt)
  quiet : ¬ (0 < s.rxtcount ∨ s.sndflg.persist = true)
  sndwnd : s.sndwnd ≠ 0
  space : ¬ seqlte (seqadd s.snduna s.sndwnd) s.sndnxt
  data : s.pending ≠ s.wndused

namespace Device

/-- The loop of `tcpSendData` changes `sndnxt` only, by the amount that it has sent. -/
theorem snd_sendLoop (E : Exact lo hi) (n wndused tosend sent : Nat)
    (hhi : d.tcb.snd.sndnxt + tosend ≤ hi) :
    ∃ x, (sendLoop n wndused tosend sent d).1.tcb.snd = { d.tcb.snd with sndnxt := x } ∧
      x + (sendLoop n wndused tosend sent d).2.2.1 = d.tcb.snd.sndnxt + tosend := by
  induction n generalizing d wndused tosend sent with
  | zero => exact ⟨_, rfl, rfl⟩
  | succ n ih =>
    rw [sendLoop]
    dsimp only
    by_cases hmore : d.tcb.snd.sndmss < tosend
    · rw [if_pos hmore]
      have hsnd := d.snd_tcpSend { ack := true } d.tcb.snd.sndnxt d.tcb.rcv.rcvnxt
        ((d.tcb.snd.ostart + wndused) % TCP_OBLEN) d.tcb.snd.sndmss
      generalize (d.tcpSend { ack := true } d.tcb.snd.sndnxt d.tcb.rcv.rcvnxt
        ((d.tcb.snd.ostart + wndused) % TCP_OBLEN) d.tcb.snd.sndmss).1 = e at hsnd
      have hnext : (e.modSnd fun s => { s with sndnxt := seqadd s.sndnxt s.sndmss }).tcb.snd =
          { d.tcb.snd with sndnxt := d.tcb.snd.sndnxt + d.tcb.snd.sndmss } := by
        unfold modSnd
        dsimp only
        rw [hsnd, E.seqadd_eq]
      generalize e.modSnd (fun s => { s with sndnxt := seqadd s.sndnxt s.sndmss }) = e' at hnext
      have hsndnxt : e'.tcb.snd.sndnxt = d.tcb.snd.sndnxt + d.tcb.snd.sndmss := by rw [hnext]
      obtain ⟨x, hx, hsum⟩ := ih (add32 wndused d.tcb.snd.sndmss) (tosend - d.tcb.snd.sndmss)
        (add32 sent d.tcb.snd.sndmss) (d := e') (by omega)
      refine ⟨x, by rw [hx, hnext], by rw [hsum]; omega⟩
    · rw [if_neg hmore]
      exact ⟨_, rfl, rfl⟩

/-- What is sent is in flight. -/
theorem sndnxt_transmit (E : Exact lo hi) (ctrl : Control) (wndused tosend : Nat)
    (hhi : d.tcb.snd.sndnxt + tosend ≤ hi) :
    (d.transmit ctrl wndused tosend).1.tcb.snd.sndnxt = d.tcb.snd.sndnxt + tosend ∧
      (d.transmit ctrl wndused tosend).1.tcb.snd.snduna = d.tcb.snd.snduna := by
  obtain ⟨x, hx, hsum⟩ := snd_sendLoop E tosend wndused tosend 0 hhi
  unfold transmit
  dsimp only
  generalize sendLoop tosend wndused tosend 0 d = r at hx hsum
  have hsnd := r.1.snd_tcpSend ctrl r.1.tcb.snd.sndnxt r.1.tcb.rcv.rcvnxt
    ((r.1.tcb.snd.ostart + r.2.1) % TCP_OBLEN) r.2.2.1
  generalize (r.1.tcpSend ctrl r.1.tcb.snd.sndnxt r.1.tcb.rcv.rcvnxt
    ((r.1.tcb.snd.ostart + r.2.1) % TCP_OBLEN) r.2.2.1).1 = e at hsnd
  have hnext : (e.modSnd fun s => { s with sndnxt := seqadd s.sndnxt r.2.2.1 }).tcb.snd =
      { d.tcb.snd with sndnxt := d.tcb.snd.sndnxt + tosend } := by
    unfold modSnd
    rw [hsnd, hx]
    dsimp only
    rw [E.seqadd_eq, hsum]
  generalize e.modSnd (fun s => { s with sndnxt := seqadd s.sndnxt r.2.2.1 }) = e' at hnext
  -- the timer and the flags are all that is left to change
  have hrest : e'.tcb.snd.sndnxt = d.tcb.snd.sndnxt + tosend ∧
      e'.tcb.snd.snduna = d.tcb.snd.snduna := by
    rw [hnext]
    exact ⟨rfl, rfl⟩
  by_cases hremain : e'.tcpTimerRemain .rxt ≤ 0
  · rw [if_pos hremain]
    split_ifs <;> exact hrest
  · rw [if_neg hremain]
    split_ifs <;> exact hrest

/-- Where nothing is sent, the sequence numbers stay. -/
theorem sndnxt_of_not_transmits (h : ¬ d.tcb.snd.Transmits) :
    d.tcpSendData.1.tcb.snd.wndused = d.tcb.snd.wndused := by
  unfold tcpSendData
  by_cases hmss : d.tcb.snd.sndmss = 0
  · rw [if_pos hmss]
  rw [if_neg hmss]
  by_cases hfin : d.tcb.snd.sndflg.fin = true ∧ seqlt d.tcb.snd.sndfin d.tcb.snd.sndnxt
  · rw [if_pos hfin]
  rw [if_neg hfin]
  by_cases hquiet : 0 < d.tcb.snd.rxtcount ∨ d.tcb.snd.sndflg.persist = true
  · rw [if_pos hquiet]
  rw [if_neg hquiet]
  by_cases hwnd : d.tcb.snd.sndwnd = 0
  · rw [if_pos hwnd]
    rfl
  rw [if_neg hwnd]
  by_cases hspace : seqlte (seqadd d.tcb.snd.snduna d.tcb.snd.sndwnd) d.tcb.snd.sndnxt
  · rw [if_pos hspace]
  by_cases hdata : d.tcb.snd.pending = d.tcb.snd.wndused
  · rw [if_pos hdata]
    split_ifs <;> rfl
  exact absurd ⟨hmss, hfin, hquiet, hwnd, hspace, hdata⟩ h

theorem tcpSendData_of_transmits (h : d.tcb.snd.Transmits) :
    d.tcpSendData = (d.noteTosend ⟨d.tcb.snd.pending, d.tcb.snd.wndused, d.tcb.snd.tosend⟩).transmit
      { ack := true,
        fin := d.tcb.snd.sndflg.fin && decide (d.tcb.snd.pending ≤ d.tcb.snd.sndwnd) }
      d.tcb.snd.wndused d.tcb.snd.tosend := by
  unfold tcpSendData
  rw [if_neg h.sndmss, if_neg h.fin, if_neg h.quiet, if_neg h.sndwnd, if_neg h.space, if_neg h.data]

end Device

/-- The sequence numbers of the sender lie where the helpers are exact, and what is in flight is
pending. -/
structure Send.InRange (lo hi : Nat) (s : Send) : Prop where
  lower : lo ≤ s.snduna
  ordered : s.snduna ≤ s.sndnxt
  upper : s.sndnxt ≤ hi
  window : s.snduna + s.sndwnd ≤ hi
  buffer : s.snduna + s.pending ≤ hi
  inflight : s.sndnxt ≤ s.snduna + s.pending

/-- What is sent fills the window of the other side, or empties the buffer. -/
theorem Send.wndused_add_tosend {s : Send} (E : Exact lo hi) (h : s.InRange lo hi)
    (ht : s.Transmits) :
    s.wndused + s.tosend = min s.pending s.sndwnd ∧ 0 < s.tosend ∧
      s.sndnxt + s.tosend ≤ hi ∧ s.wndused = s.sndnxt - s.snduna := by
  have hused : s.wndused = s.sndnxt - s.snduna := E.tcpSeqdiff_eq h.upper h.lower h.ordered
  have hspace : s.sndnxt < s.snduna + s.sndwnd := by
    have := ht.space
    rw [E.seqadd_eq h.window, E.seqlte_iff (by have := h.lower; omega) h.window
      (h.lower.trans h.ordered) h.upper] at this
    omega
  have hlt := E.lt h.window
  have hdata := ht.data
  obtain ⟨_, hord, _, hwin, hbuf, hfl⟩ := h
  unfold tosend
  split_ifs with hmore
  · rw [sub32_eq]
    omega
  · rw [sub32_eq]
    omega

/-- **The congestion window is not a limit.** After `tcpSendData` what is in flight exceeds both
what was in flight before and the lesser of the two windows, unless the lesser of what is pending
and of the other side's window is within the congestion window by itself. -/
theorem tcpSendData_limit_iff {lo hi : Nat} {d : Device} (E : Exact lo hi)
    (h : d.tcb.snd.InRange lo hi) :
    d.tcpSendData.1.tcb.snd.wndused ≤
        max d.tcb.snd.wndused (min d.tcb.snd.sndwnd d.tcb.snd.sndcwn) ↔
      (d.tcb.snd.Transmits → min d.tcb.snd.pending d.tcb.snd.sndwnd ≤ d.tcb.snd.sndcwn) := by
  by_cases ht : d.tcb.snd.Transmits
  · obtain ⟨hsum, hpos, hhi, hused⟩ := Send.wndused_add_tosend E h ht
    obtain ⟨hnxt, huna⟩ := Device.sndnxt_transmit
      (d := d.noteTosend ⟨d.tcb.snd.pending, d.tcb.snd.wndused, d.tcb.snd.tosend⟩) E
      { ack := true,
        fin := d.tcb.snd.sndflg.fin && decide (d.tcb.snd.pending ≤ d.tcb.snd.sndwnd) }
      d.tcb.snd.wndused d.tcb.snd.tosend hhi
    rw [← Device.tcpSendData_of_transmits ht] at hnxt huna
    have hafter : d.tcpSendData.1.tcb.snd.wndused = min d.tcb.snd.pending d.tcb.snd.sndwnd := by
      have hord := h.ordered
      have hlow := h.lower
      unfold Send.wndused
      rw [hnxt, huna]
      change tcpSeqdiff (d.tcb.snd.sndnxt + d.tcb.snd.tosend) d.tcb.snd.snduna = _
      rw [E.tcpSeqdiff_eq hhi hlow]
      omega
    constructor
    · intro hle _
      omega
    · intro hle
      have := hle ht
      omega
  · rw [Device.sndnxt_of_not_transmits ht]
    exact ⟨fun _ htr => absurd htr ht, fun _ => le_max_left _ _⟩

instance (lo hi : Nat) (s : Send) : Decidable (s.InRange lo hi) :=
  decidable_of_iff (lo ≤ s.snduna ∧ s.snduna ≤ s.sndnxt ∧ s.sndnxt ≤ hi ∧
    s.snduna + s.sndwnd ≤ hi ∧ s.snduna + s.pending ≤ hi ∧ s.sndnxt ≤ s.snduna + s.pending)
    ⟨fun ⟨a, b, c, d, e, f⟩ => ⟨a, b, c, d, e, f⟩, fun ⟨a, b, c, d, e, f⟩ => ⟨a, b, c, d, e, f⟩⟩

/-- The calls that open a connection to a side with a window of 8000 octets. -/
def wideHandshake : List Call :=
  [.open (passive 0 none), synIn, .recv (emptySegment 5001 1905 8000 { ack := true }) ⟨1, []⟩]

/-- Three octets in the buffer of an open connection are within both windows. -/
theorem tcpSendData_limit_session :
    ((tcpMachine.after unopened wideHandshake).modSnd
        fun s => (s.writeLoop [10, 20, 30]).1).tcpSendData.1.tcb.snd.wndused ≤
      max 0 (min 8000 2920) := by
  have h := (tcpSendData_limit_iff (by decide : Exact 1000 100000)
    (d := (tcpMachine.after unopened wideHandshake).modSnd fun s => (s.writeLoop [10, 20, 30]).1)
    (by decide)).mpr fun _ => by decide
  exact h

/-- **The congestion window is exceeded**: with the first call of `tcpWrite` 3000 octets are sent
into a window of 8000, while the congestion window is at 2920. -/
theorem tcpSendData_beyond_cwn :
    ∃ d d', tcpMachine.Run unopened wideHandshake d ∧ d.tcb.state = .estab ∧
      tcpMachine.Run d [.write (List.replicate 3000 0)] d' ∧
      d.tcb.snd.wndused = 0 ∧ d'.tcb.snd.wndused = 3000 ∧
      d.tcb.snd.sndcwn = 2920 ∧ d'.tcb.snd.sndcwn = 2920 ∧
      max d.tcb.snd.wndused (min d.tcb.snd.sndwnd d.tcb.snd.sndcwn) < d'.tcb.snd.wndused := by
  refine ⟨_, _, Machine.run_after, by decide,
    Machine.run_after,
    by decide⟩

end Xinu.Tcp
