import Xinu.Tcp.Account

/-!
# A synchronized connection

From the state ESTAB on, the accounts of the sender hold in every state of the connection, and every
segment carries the stream, until the connection is freed. The mark `n` counts the segments sent
before.

## Main results

* `Streaming.recv`, `Streaming.write`, `Streaming.close`, `Streaming.expire`: every step keeps it
-/

namespace Xinu.Tcp

open List Device

variable {A hi lo n p : Nat} {d d' : Device} {pkt : TcpPkt} {st : TcpState}

/-- Whether the FIN has been requested, in a synchronized state. -/
def TcpState.stage : TcpState → Option Bool
  | .estab | .closewt => some false
  | .finwt1 | .finwt2 | .closing | .lastack | .timewt => some true
  | .closed | .listen | .synsent | .synrecv => none

/-- The sequence number of the first octet of the stream. -/
def Device.base (d : Device) : Nat := d.tcb.snd.iss + d.tcb.snd.sndflg.syn.toNat

/-- The window is a 16-bit word, and no computation of the history was off. -/
structure Healthy (d : Device) : Prop where
  sndwnd : d.tcb.snd.sndwnd < 2 ^ 16
  tosends : ∀ x ∈ d.hist.tosends, x.Fair
  acks : ∀ x ∈ d.hist.acks, x.amt ≤ x.ocount

/-- A synchronized connection with its accounts. The sequence numbers of the stream are within a
range in which the helpers are exact, and every segment from the mark on carries the stream. -/
structure Streaming (lo hi n base p A : Nat) (d : Device) : Prop where
  stage : d.tcb.state.stage = some d.tcb.snd.sndflg.fin
  start : d.base = base
  account : Account d.hist.written base p A d.tcb.snd.books
  lower : lo ≤ base
  upper : base + d.hist.written.length + 1 + 2 ^ 16 ≤ hi
  healthy : Healthy d
  mark : n ≤ d.hist.sent.length
  sent : ∀ seg ∈ d.hist.sent.drop n, Carries base d.hist.written d.tcb.snd.sndflg.fin seg

/-- A closed device. A SYN may have been sent without a timer for it. -/
structure Idle (d : Device) : Prop where
  state : d.tcb.state = .closed
  inflight : d.tcb.snd.sndnxt = d.tcb.snd.snduna ∨
    d.tcb.snd.sndflg.syn = true ∧ d.tcb.snd.snduna = d.tcb.snd.iss ∧
      d.tcb.snd.sndnxt = d.tcb.snd.snduna + 1
  ocount : d.tcb.snd.ocount = 0
  healthy : Healthy d

/-- A connection that has been freed. -/
structure Ended (n base : Nat) (d : Device) : Prop where
  idle : Idle d
  sent : n ≤ d.hist.sent.length ∧ ∀ seg ∈ d.hist.sent.drop n, Carries base d.hist.written true seg

/-- A connection that is synchronized or has been freed. -/
def Connected (lo hi n base p : Nat) (d : Device) : Prop :=
  (∃ A, Streaming lo hi n base p A d) ∨ Ended n base d

/-- A segment with a window of 16 bits whose acknowledgement, if it has one, is in the range. -/
structure TcpPkt.Inside (lo hi : Nat) (pkt : TcpPkt) : Prop where
  window : pkt.window < 2 ^ 16
  acknum : pkt.control.ack = true → lo ≤ pkt.acknum ∧ pkt.acknum ≤ hi

theorem TcpPkt.Inside.tcpRecvValid (h : pkt.Inside lo hi) (r : Recv) :
    (r.tcpRecvValid pkt).1.Inside lo hi := by
  unfold Recv.tcpRecvValid
  dsimp only
  split_ifs
  · exact ⟨h.window, h.acknum⟩
  · exact h

/-- A segment keeps its acknowledgement and its RST bit. -/
theorem Recv.tcpRecvValid_header (r : Recv) (pkt : TcpPkt) :
    (r.tcpRecvValid pkt).1.control.ack = pkt.control.ack ∧
      (r.tcpRecvValid pkt).1.control.rst = pkt.control.rst ∧
      (r.tcpRecvValid pkt).1.acknum = pkt.acknum := by
  unfold Recv.tcpRecvValid
  dsimp only
  split_ifs
  · exact ⟨rfl, rfl, rfl⟩
  · exact ⟨rfl, rfl, rfl⟩

variable {W : List UInt8} {seg : Segment}

theorem Carries.weaken {base : Nat} {fin : Bool}
    (h : Carries base W fin seg) : Carries base W true seg :=
  ⟨h.1, fun hf => ⟨rfl, (h.2 hf).2⟩⟩

/-- More octets at the end of the stream, before there is a request for the FIN. -/
theorem Carries.append {base : Nat} (h : Carries base W false seg)
    (V : List UInt8) : Carries base (W ++ V) false seg := by
  refine ⟨fun hne => ⟨(h.1 hne).1, ?_⟩, fun hf => absurd (h.2 hf).1 (by simp)⟩
  have hpre := (h.1 hne).2
  have hlt : seg.seqnum - base ≤ W.length := by
    by_contra hgt
    rw [drop_eq_nil_of_le (by omega)] at hpre
    exact hne (prefix_nil.mp hpre)
  rw [drop_append_of_le_length hlt]
  exact hpre.trans (prefix_append _ _)

/-- An ACK carries the stream, as it has no data. -/
theorem carries_ack {base : Nat} {fin : Bool}
    (h : seg.control = { ack := true } ∧ seg.data = []) : Carries base W fin seg :=
  ⟨fun hne => absurd h.2 hne, fun hf => absurd hf (by rw [h.1]; simp)⟩

/-- The segments from a mark on, when some have been added. -/
theorem forall_drop_append {P : Segment → Prop} {l l' new : List Segment}
    (hl : l' = l ++ new) (hn : n ≤ l.length) (h : ∀ x ∈ l.drop n, P x) (hnew : ∀ x ∈ new, P x) :
    ∀ x ∈ l'.drop n, P x := by
  intro x hx
  rw [hl, drop_append_of_le_length hn] at hx
  rcases mem_append.mp hx with hx | hx
  · exact h x hx
  · exact hnew x hx

theorem Healthy.sends {P : Segment → Prop} (h : Healthy d) (hs : Sends P d d') : Healthy d' := by
  obtain ⟨new, hnew, hfair⟩ := hs.tosends
  refine ⟨by rw [hs.sndwnd]; exact h.sndwnd, ?_, by rw [hs.acks]; exact h.acks⟩
  rw [hnew]
  exact forall_mem_append.mpr ⟨h.tosends, hfair⟩

theorem Device.tcpFree_hist (d : Device) : d.tcpFree.1.hist = d.hist := by
  unfold tcpFree
  split_ifs <;> rfl

/-- **`tcpFree`** leaves a closed device. -/
theorem Healthy.tcpFree (h : Healthy d) (hst : d.tcb.state ≠ .closed) : Idle d.tcpFree.1 := by
  unfold Device.tcpFree
  rw [if_neg hst]
  exact ⟨rfl, .inl rfl, rfl, ⟨Nat.two_pow_pos 16, h.tosends, h.acks⟩⟩

namespace Streaming

variable {base : Nat}

theorem syn_acked (h : Streaming lo hi n base p A d) :
    ¬ (d.tcb.snd.sndflg.syn = true ∧ d.tcb.snd.snduna = d.tcb.snd.iss) := by
  rintro ⟨hsyn, huna⟩
  have hstart := h.start
  rw [Device.base, hsyn, Bool.toNat_true] at hstart
  have := h.account.una
  change d.tcb.snd.snduna = _ ∨ _ ∧ _ ∧ d.tcb.snd.snduna = _ at this
  omega

/-! ## Sending -/

section

variable (h : Streaming lo hi n base p A d)
include h

/-- **What sends nothing but the stream** keeps it. -/
theorem sends (hs : Sends (Carries base d.hist.written d.tcb.snd.sndflg.fin) d d')
    (haccount : Account d.hist.written base p A d'.tcb.snd.books) :
      Streaming lo hi n base p A d' := by
  obtain ⟨hiss, -, -, -, hsyn, hfin, -⟩ := Books.mk.inj hs.books
  obtain ⟨new, hnew, hP⟩ := hs.sent
  refine ⟨?_, ?_, ?_, h.lower, ?_, h.healthy.sends hs, ?_, ?_⟩
  · rw [hs.state, hfin]
    exact h.stage
  · rw [Device.base, hiss, hsyn]
    exact h.start
  · rw [hs.written]
    exact haccount
  · rw [hs.written]
    exact h.upper
  · rw [hnew, length_append]
    exact h.mark.trans (Nat.le_add_right _ _)
  · rw [hs.written, hfin]
    exact forall_drop_append hnew h.mark h.sent hP

theorem still (hs : Still (Carries base d.hist.written d.tcb.snd.sndflg.fin) d d') :
    Streaming lo hi n base p A d' :=
  h.sends hs.sends (hs.books.symm ▸ h.account)

/-- **`tcpSendData`.** -/
theorem tcpSendData (E : Exact lo hi) : Streaming lo hi n base p A d.tcpSendData.1 := by
  obtain ⟨haccount, hs⟩ := h.account.tcpSendData E h.lower h.upper h.healthy.sndwnd
  exact h.sends hs haccount

theorem tcpSendAck : Streaming lo hi n base p A d.tcpSendAck.1 :=
  h.still (d.still_tcpSendAck.mono fun _ => carries_ack)

theorem respond (E : Exact lo hi) : Streaming lo hi n base p A d.respond := by
  unfold Device.respond
  dsimp only
  have h' : Streaming lo hi n base p A
      (if d.tcb.snd.sndflg.snddata = true then d.tcpSendData.1 else d) := by
    split_ifs
    · exact h.tcpSendData E
    · exact h
  generalize (if d.tcb.snd.sndflg.snddata = true then d.tcpSendData.1 else d) = d₁ at h'
  split_ifs
  · exact h'.tcpSendAck
  · exact h'

theorem setState
    (hst : st.stage = d.tcb.state.stage) : Streaming lo hi n base p A (d.setState st) :=
  ⟨hst.trans h.stage, h.start, h.account, h.lower, h.upper,
    ⟨h.healthy.sndwnd, h.healthy.tosends, h.healthy.acks⟩, h.mark, h.sent⟩

end

/-! ## The end of the connection -/

theorem tcpFree (h : Streaming lo hi n base p A d) : Ended n base d.tcpFree.1 := by
  have hne : d.tcb.state ≠ .closed := fun hst => by
    have := h.stage
    rw [hst] at this
    simp [TcpState.stage] at this
  refine ⟨h.healthy.tcpFree hne, ?_⟩
  rw [d.tcpFree_hist]
  exact ⟨h.mark, fun seg hseg => (h.sent seg hseg).weaken⟩

theorem ends (h : Streaming lo hi n base p A d)
    (he : Ends (Carries base d.hist.written d.tcb.snd.sndflg.fin) d d') : Ended n base d' := by
  obtain ⟨d₁, hs, rfl⟩ := he
  exact (h.still hs).tcpFree

end Streaming

namespace Streaming

variable {base : Nat}

/-- **A timer event.** -/
theorem expire (h : Streaming lo hi n base p A d) (E : Exact lo hi) :
    Streaming lo hi n base p A d.expire ∨ Ended n base d.expire := by
  have htake : Streaming lo hi n base p A { d with timer := d.timer.take.1 } :=
    h.still (.of_hist rfl rfl rfl rfl rfl)
  refine expire_rule (Q := fun d => Streaming lo hi n base p A d ∨ Ended n base d) (Or.inl htake)
    fun type => ?_
  have hwait := htake.still (still_waitMutex _)
  have hupper := hwait.upper
  cases type with
  | timewt => exact .inr hwait.tcpFree
  | rxt =>
    exact (hwait.account.tcpSendRxt E hwait.lower (by omega) hwait.syn_acked).imp hwait.still
      hwait.ends
  | persist => exact .inl (hwait.still hwait.account.tcpSendPersist)

/-! ## Segments that come in -/

section

variable (h : Streaming lo hi n base p A d)
include h

theorem acknowledge (E : Exact lo hi) {a : Nat}
    (ha : d.tcb.snd.snduna < a) (ha' : a ≤ d.tcb.snd.sndnxt) :
    Streaming lo hi n base p (A + d.tcb.snd.ackedAmount a) (d.acknowledge a) := by
  have hupper := h.upper
  obtain ⟨hamt, haccount⟩ := h.account.acknowledge E h.lower (by omega) h.syn_acked ha ha'
  refine .still ?_ (d.still_acknowledge a)
  refine ⟨h.stage, h.start, haccount, h.lower, h.upper,
    ⟨h.healthy.sndwnd, h.healthy.tosends, ?_⟩, h.mark, h.sent⟩
  intro x hx
  rcases mem_append.mp hx with hx | hx
  · exact h.healthy.acks x hx
  · rw [mem_singleton.mp hx]
    exact hamt

theorem updateWindow (hwnd : pkt.window < 2 ^ 16) :
    Streaming lo hi n base p A (d.updateWindow pkt) := by
  obtain ⟨hbooks, hhist, hsndwnd⟩ := d.updateWindow_spec pkt
  have hstate := (d.quiet_updateWindow pkt).state
  generalize d.updateWindow pkt = d' at hbooks hhist hsndwnd hstate
  obtain ⟨hiss, -, -, -, hsyn, hfin, -⟩ := Books.mk.inj hbooks
  refine ⟨?_, ?_, ?_, h.lower, ?_, ⟨?_, ?_, ?_⟩, ?_, ?_⟩
  · rw [hstate, hfin]
    exact h.stage
  · rw [Device.base, hiss, hsyn]
    exact h.start
  · rw [hhist, hbooks]
    exact h.account
  · rw [hhist]
    exact h.upper
  · rcases hsndwnd with hsndwnd | hsndwnd
    · rw [hsndwnd]
      exact h.healthy.sndwnd
    · rw [hsndwnd]
      exact hwnd
  · rw [hhist]
    exact h.healthy.tosends
  · rw [hhist]
    exact h.healthy.acks
  · rw [hhist]
    exact h.mark
  · rw [hhist, hfin]
    exact h.sent

theorem afterAck (hp : pkt.Inside lo hi) :
    Streaming lo hi n base p A
      (if seqlt (d.updateWindow pkt).tcb.snd.sndnxt pkt.acknum then
        (d.updateWindow pkt).modFlg fun f => { f with sndack := true }
      else d.updateWindow pkt) := by
  refine (h.updateWindow hp.window).still (.ite ?_ (.refl _))
  exact still_modFlg _ fun _ => ⟨rfl, rfl, rfl⟩

/-- The sequence numbers of a connection are within the range. -/
theorem numbers :
    lo ≤ d.tcb.snd.snduna ∧ d.tcb.snd.snduna ≤ hi ∧ lo ≤ d.tcb.snd.sndnxt ∧
      d.tcb.snd.sndnxt ≤ hi := by
  have hupper := h.upper
  have hlower := h.lower
  have hnxt_le : d.tcb.snd.sndnxt ≤ _ := h.account.nxt_le
  have huna_le : d.tcb.snd.snduna ≤ d.tcb.snd.sndnxt := h.account.una_le
  have huna := h.account.una
  have hle := Bool.toNat_le d.tcb.snd.books.fin
  change d.tcb.snd.snduna = _ ∨ _ ∧ _ ∧ d.tcb.snd.snduna = _ at huna
  omega

/-- **An acknowledgement.** -/
theorem tcpRecvAck (E : Exact lo hi) (hp : pkt.Inside lo hi)
    (hack : pkt.control.ack = true) : ∃ A', Streaming lo hi n base p A' (d.tcpRecvAck pkt) := by
  obtain ⟨hlo, hhi⟩ := hp.acknum hack
  obtain ⟨hlo₁, hhi₁, hlo₂, hhi₂⟩ := h.numbers
  have hnew : ∃ A', Streaming lo hi n base p A'
      (if seqlt d.tcb.snd.snduna pkt.acknum ∧ seqlte pkt.acknum d.tcb.snd.sndnxt then
        d.acknowledge pkt.acknum else d) := by
    split_ifs with hin
    · rw [E.seqlt_iff hlo₁ hhi₁ hlo hhi, E.seqlte_iff hlo hhi hlo₂ hhi₂] at hin
      exact ⟨_, h.acknowledge E hin.1 hin.2⟩
    · exact ⟨A, h⟩
  obtain ⟨A', h'⟩ := hnew
  exact ⟨A', h'.afterAck hp⟩

/-- The stage of the state, where the state is known. -/
theorem stage_of (hst : d.tcb.state = st) : st.stage = some d.tcb.snd.sndflg.fin := hst ▸ h.stage

theorem setState_of {st' : TcpState} (hst : d.tcb.state = st)
    (hstage : st'.stage = st.stage) : Streaming lo hi n base p A (d.setState st') :=
  h.setState (by rw [hst, hstage])

theorem processFin : Streaming lo hi n base p A d.processFin := by
  obtain ⟨k, hk⟩ := d.released_readers
  unfold Device.processFin
  rw [hk]
  dsimp only
  have h₁ : Streaming lo hi n base p A (d.signalReaders k) := h.still (still_signalReaders ..)
  generalize d.signalReaders k = d₁ at h₁
  refine .still ?_ (still_modSnd _ (fun _ => rfl) (fun _ => rfl) fun _ => rfl)
  have hnext : Streaming lo hi n base p A (d₁.modRcv fun r =>
      { r with rcvnxt := seqadd r.rcvnxt 1 }) :=
    h₁.still (still_modRcv ..)
  have hagain : ∀ d₂, Streaming lo hi n base p A d₂ → Streaming lo hi n base p A
      ((d₂.tcpTimerPurge none).1.tcpTimerSched TCP_TWOMSL .timewt).1 := fun d₂ h₂ =>
    h₂.still ((still_tcpTimerPurge ..).trans (still_tcpTimerSched ..))
  cases hst : d₁.tcb.state with
  | synrecv => exact absurd (h₁.stage_of hst) (by simp [TcpState.stage])
  | estab => exact hnext.setState_of hst rfl
  | finwt1 =>
    split_ifs
    · refine .setState_of (hnext.still ?_) hst rfl
      exact (still_tcpTimerSched ..).trans (still_tcpTimerPurge ..)
    · exact hnext.setState_of hst rfl
  | finwt2 => exact hagain _ hnext
  | timewt => exact hagain _ h₁
  | closed | listen | synsent | closewt | closing | lastack => exact h₁

theorem recvFin (seqnum seglen : Nat) : Streaming lo hi n base p A (d.recvFin seqnum seglen) := by
  unfold Device.recvFin
  dsimp only
  split_ifs
  · exact h.processFin
  · exact h
  · exact (h.still (still_modRcv ..)).processFin
  · exact h.still (still_modRcv ..)

theorem tcpRecvData (E : Exact lo hi) (pkt : TcpPkt) :
    Streaming lo hi n base p A (d.tcpRecvData pkt).1 := by
  have htext := h.still (d.still_recvText pkt)
  refine .respond ?_ E
  split_ifs
  · exact htext.recvFin _ _
  · exact htext

section

variable (E : Exact lo hi) (hp : pkt.Inside lo hi)
include E hp

/-- **The ACK bit**, in each of the synchronized states. -/
theorem recvAckState
    (hack : pkt.control.ack = true) : ∃ A', Streaming lo hi n base p A' (d.recvAckState pkt).1 := by
  obtain ⟨A', h'⟩ := h.tcpRecvAck E hp hack
  have hstate := (d.quiet_tcpRecvAck pkt).state
  generalize hd' : d.tcpRecvAck pkt = d' at h' hstate
  have hopen : ∀ A d, Streaming lo hi n base p A d → Streaming lo hi n base p A d.signalOpenclose :=
    fun A d h => h.still (still_signalOpenclose d)
  unfold Device.recvAckState
  rw [hd']
  cases hst : d.tcb.state with
  | closed | listen | synsent | synrecv => exact absurd (h.stage_of hst) (by simp [TcpState.stage])
  | estab | closewt => exact ⟨A', h'⟩
  | finwt1 =>
    dsimp only
    split_ifs
    · exact ⟨A', (hopen _ _ h').setState_of (hstate.trans hst) rfl⟩
    · exact ⟨A', h'⟩
  | finwt2 => exact ⟨A', h'.still (.ite (still_signalOpenclose d') (.refl d'))⟩
  | closing =>
    dsimp only
    split_ifs
    · refine ⟨A', .still ?_ (still_tcpTimerSched ..)⟩
      exact (hopen _ _ h').setState_of (hstate.trans hst) rfl
    · exact ⟨A', h'⟩
  | lastack =>
    dsimp only
    split_ifs
    · exact ⟨A, hopen _ _ h⟩
    · exact ⟨A, h⟩
  | timewt =>
    exact ⟨A, h.still ((still_tcpTimerPurge ..).trans (still_tcpTimerSched ..))⟩

theorem tcpRecvOther : ∃ A', Streaming lo hi n base p A' (d.tcpRecvOther pkt).1 := by
  have hp' := hp.tcpRecvValid d.tcb.rcv
  unfold Device.tcpRecvOther
  dsimp only
  generalize d.tcb.rcv.tcpRecvValid pkt = v at hp'
  split_ifs with hbad hrst hrst hsynrecv hpassive hsyn hack
  · exact ⟨A, h⟩
  · exact ⟨A, h.tcpSendAck⟩
  · exact absurd (h.stage_of hsynrecv) (by simp [TcpState.stage])
  · exact absurd (h.stage_of hsynrecv) (by simp [TcpState.stage])
  · exact ⟨A, h⟩
  · refine ⟨A, h.still ?_⟩
    dsimp only
    exact still_modFlg d fun _ => ⟨rfl, rfl, rfl⟩
  · exact ⟨A, h⟩
  · obtain ⟨A', h'⟩ := h.recvAckState E hp' (by simpa using hack)
    generalize d.recvAckState v.1 = r at h'
    obtain ⟨d', result⟩ := r
    cases result with
    | some result => exact ⟨A', h'⟩
    | none => exact ⟨A', h'.tcpRecvData E v.1⟩

/-- **A segment comes in.** -/
theorem recv (src : NetAddr) : Connected lo hi n base p (d.exec (.recv pkt src)) := by
  have hopts : Streaming lo hi n base p A (d.readOpts pkt) :=
    (h.still (still_waitMutex d)).still (still_tcpRecvOpts ..)
  obtain ⟨A', hother⟩ := hopts.tcpRecvOther E hp
  change Connected lo hi n base p (d.waitMutex.tcpRecv pkt src).1
  have hstage : d.waitMutex.tcb.state.stage = some d.tcb.snd.sndflg.fin := h.stage
  unfold tcpRecv
  cases hst : d.waitMutex.tcb.state with
  | closed | listen | synsent | synrecv =>
    rw [hst] at hstage
    simp [TcpState.stage] at hstage
  | estab | finwt1 | finwt2 | closewt | closing | lastack | timewt =>
    rw [if_neg (by simp)]
    have hst' : (d.readOpts pkt).tcb.state = d.waitMutex.tcb.state := rfl
    dsimp only
    rw [hst', hst]
    split_ifs
    · exact .inr hother.tcpFree
    · exact .inl ⟨A', hother.still (still_signalMutex _)⟩

end

end

/-! ## Calls -/

section

variable (h : Streaming lo hi n base p A d)
include h

theorem afterWrite (E : Exact lo hi) : Streaming lo hi n base p A d.afterWrite := by
  refine .still ?_ (still_signalMutex _)
  have h' : Streaming lo hi n base p A
      (if d.tcb.snd.ocount < TCP_OBLEN then d.signalWriters 1 else d) :=
    h.still (.ite (still_signalWriters ..) (.refl d))
  generalize (if d.tcb.snd.ocount < TCP_OBLEN then d.signalWriters 1 else d) = d₁ at h'
  split_ifs
  · exact h'.tcpSendData E
  · exact h'

/-- **A round of `tcpWrite`.** -/
theorem write (E : Exact lo hi) (buffer : List UInt8)
    (hroom : base + (d.hist.written.length + buffer.length) + 1 + 2 ^ 16 ≤ hi) :
    Streaming lo hi n base p A (d.exec (.write buffer)) := by
  have hwait := h.still (still_waitMutex d)
  change base + (d.waitMutex.hist.written.length + buffer.length) + 1 + 2 ^ 16 ≤ hi at hroom
  change Streaming lo hi n base p A (d.waitMutex.tcpWriteRound buffer).1
  generalize d.waitMutex = d at hwait hroom
  cases hf : d.tcb.snd.sndflg.fin with
  | true =>
    have hcheck : d.writeStateCheck = (d.signalMutex, TCP_ERR_CLOSING) := by
      have hstage := hwait.stage
      unfold writeStateCheck
      cases hst : d.tcb.state <;> simp_all [TcpState.stage]
    unfold tcpWriteRound
    rw [hcheck]
    exact hwait.still ((still_signalMutex d).trans (still_signalWriters ..))
  | false =>
    have hcheck : d.writeStateCheck = (d, OK) := by
      have hstage := hwait.stage
      unfold writeStateCheck
      cases hst : d.tcb.state <;> simp_all [TcpState.stage]
    rw [tcpWriteRound_of_check hcheck]
    refine .afterWrite ?_ E
    have hlen := length_take_le' (d.tcb.snd.writeLoop buffer).2 buffer
    have heq := d.tcb.snd.writeLoop_eq buffer
    have hflg : (d.tcb.snd.writeLoop buffer).1.sndflg = d.tcb.snd.sndflg := by rw [heq]
    have hiss : (d.tcb.snd.writeLoop buffer).1.iss = d.tcb.snd.iss := by rw [heq]
    have hwnd : (d.tcb.snd.writeLoop buffer).1.sndwnd = d.tcb.snd.sndwnd := by rw [heq]
    refine ⟨?_, ?_, hwait.account.writeLoop hf buffer, hwait.lower, ?_,
      ⟨?_, hwait.healthy.tosends, hwait.healthy.acks⟩, hwait.mark, ?_⟩
    · change d.tcb.state.stage = some (d.tcb.snd.writeLoop buffer).1.sndflg.fin
      rw [hflg]
      exact hwait.stage
    · change (d.tcb.snd.writeLoop buffer).1.iss +
        (d.tcb.snd.writeLoop buffer).1.sndflg.syn.toNat = _
      rw [hiss, hflg]
      exact hwait.start
    · change base + (d.hist.written ++ buffer.take (d.tcb.snd.writeLoop buffer).2).length + 1 +
        2 ^ 16 ≤ hi
      rw [length_append]
      omega
    · change (d.tcb.snd.writeLoop buffer).1.sndwnd < _
      rw [hwnd]
      exact hwait.healthy.sndwnd
    · intro seg hseg
      change Carries base (d.hist.written ++ buffer.take (d.tcb.snd.writeLoop buffer).2)
        (d.tcb.snd.writeLoop buffer).1.sndflg.fin seg
      have hseg' := hwait.sent seg hseg
      rw [hf] at hseg'
      rw [hflg, hf]
      exact hseg'.append _

/-- **`tcpClose`.** -/
theorem close (E : Exact lo hi) : Streaming lo hi n base p A (d.exec .close) := by
  have hwait := h.still (still_waitMutex d)
  change Streaming lo hi n base p A d.waitMutex.tcpClose.1
  generalize d.waitMutex = d at hwait
  have hupper := hwait.upper
  have hsend : ∀ d, Streaming lo hi n base p A d → Streaming lo hi n base p A d.closeSend.1 := by
    intro d h
    refine .still ?_ ((still_signalMutex _).trans (still_waitOpenclose _))
    split_ifs
    · exact h.tcpSendData E
    · exact h
  -- the stream ends here, and the flag goes up
  have hfin : ∀ st, st.stage = some true → d.tcb.snd.sndflg.fin = false →
      Streaming lo hi n base p A
        ((d.requestFin.modFlg fun f => { f with snddata := true }).setState st) := by
    intro st hst hf
    refine ⟨hst, hwait.start, hwait.account.requestFin E (by omega) hf, hwait.lower, hwait.upper,
      ⟨hwait.healthy.sndwnd, hwait.healthy.tosends, hwait.healthy.acks⟩, hwait.mark, ?_⟩
    intro seg hseg
    exact (hwait.sent seg hseg).weaken
  unfold tcpClose
  cases hst : d.tcb.state with
  | closed | listen | synsent | synrecv =>
    exact absurd (hwait.stage_of hst) (by simp [TcpState.stage])
  | estab | closewt =>
    have hf : some false = some d.tcb.snd.sndflg.fin := hwait.stage_of hst
    exact hsend _ (hfin _ rfl (Option.some.inj hf).symm)
  | finwt1 | finwt2 | closing | lastack | timewt => exact hwait.still (still_signalMutex d)

/-- **Every step of a synchronized connection.** -/
theorem step (E : Exact lo hi) (c : Call) (hp : ∀ pkt src, c = .recv pkt src → pkt.Inside lo hi)
    (hroom : ∀ buffer, c = .write buffer →
      base + (d.hist.written.length + buffer.length) + 1 + 2 ^ 16 ≤ hi) :
    Connected lo hi n base p (d.exec c) := by
  have hwait := h.still (still_waitMutex d)
  have hne : ∀ st : TcpState, st.stage = none → d.waitMutex.tcb.state ≠ st := by
    intro st hst hd
    have hstage := h.stage_of hd
    rw [hst] at hstage
    exact absurd hstage (by simp)
  have hstill : ∀ d', Still (Carries base d.hist.written d.tcb.snd.sndflg.fin) d.waitMutex d' →
      Connected lo hi n base p d' := fun d' hs => .inl ⟨A, hwait.still hs⟩
  cases c with
  | «open» args => exact hstill _ (still_tcpOpen (hne _ rfl) (hne _ rfl) args)
  | close => exact .inl ⟨A, h.close E⟩
  | writeCheck =>
    exact hstill _ ((still_writeStateCheck (hne _ rfl)).trans (still_signalMutex _))
  | writeWait => exact .inl ⟨A, h.still (still_signalWriters ..)⟩
  | write buffer => exact .inl ⟨A, h.write E buffer (hroom buffer rfl)⟩
  | readCheck => exact hstill _ (still_tcpReadCheck _)
  | readWait => exact .inl ⟨A, h.still (still_signalReaders ..)⟩
  | read len => exact hstill _ (still_tcpReadRound _ len)
  | recv pkt src => exact h.recv E (hp pkt src rfl) src
  | expire => exact (h.expire E).imp (fun h' => ⟨A, h'⟩) id
  | elapse time => exact .inl ⟨A, h.still (.of_hist rfl rfl rfl rfl rfl)⟩

end

end Streaming

end Xinu.Tcp
