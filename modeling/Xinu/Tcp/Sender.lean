import Xinu.Tcp.Opening

/-!
# The sender over whole runs

The send buffer and the sequence numbers agree in every run from a closed device whose steps are
careful, and from ESTAB on every segment carries the stream that `tcpWrite` was given. Without the
condition neither holds: one segment is enough to shift the two accounts by one.

## Main results

* `send_buffer_correspondence`: the accounts agree in every run of careful steps
* `retransmission_consistent`: from ESTAB on every segment carries the stream
* `read_is_written`: another device reads what was written
-/

namespace Xinu.Tcp

open Machine

variable {base hi lo p : Nat}

instance (lo hi : Nat) (pkt : TcpPkt) : Decidable (pkt.Inside lo hi) :=
  decidable_of_iff
    (pkt.window < 2 ^ 16 ∧ (pkt.control.ack = true → lo ≤ pkt.acknum ∧ pkt.acknum ≤ hi))
    ⟨fun h => ⟨h.1, h.2⟩, fun h => ⟨h.window, h.acknum⟩⟩

instance (lo hi : Nat) (d : Device) : ∀ c : Call, Decidable (InRange lo hi d c) := by
  rintro ⟨⟩ <;> unfold InRange <;> infer_instance

instance (d : Device) : ∀ c : Call, Decidable (Careful d c) := by
  rintro ⟨⟩ <;> unfold Careful <;> infer_instance

/-- A device whose steps are careful, with sequence numbers where the helpers are exact. -/
def sendMachine (lo hi : Nat) : Machine Device Call :=
  tcpMachine.restrict fun d c => InRange lo hi d c ∧ Careful d c

/-- A connection until it is freed, with sequence numbers where the helpers are exact. -/
def streamMachine (lo hi : Nat) : Machine Device Call :=
  tcpMachine.restrict fun d c => InRange lo hi d c ∧ d.tcb.state ≠ .closed

instance (lo hi : Nat) (d : Device) (c : Call) : Decidable ((sendMachine lo hi).enabled d c) :=
  inferInstanceAs (Decidable (_ ∧ _ ∧ _))

instance (lo hi : Nat) (d : Device) (c : Call) : Decidable ((streamMachine lo hi).enabled d c) :=
  inferInstanceAs (Decidable (_ ∧ _ ∧ _))

/-! ## The send buffer -/

/-- The send buffer and the sequence numbers agree: what has been sent and not acknowledged is in
the buffer, the SYN and the FIN apart, no ACK has taken more out of the buffer than was in it, and
no computation of the amount to send has gone below zero or beyond what was left to send. -/
structure SendSound (d : Device) : Prop where
  ordered : d.tcb.snd.snduna ≤ d.tcb.snd.sndnxt
  inflight : d.tcb.snd.sndnxt - d.tcb.snd.snduna ≤ d.tcb.snd.ocount +
    (if d.tcb.snd.sndflg.syn = true ∧ d.tcb.snd.snduna = d.tcb.snd.iss then 1 else 0) +
    (if d.tcb.snd.sndflg.fin = true ∧ d.tcb.snd.sndfin < d.tcb.snd.sndnxt then 1 else 0)
  acks : ∀ x ∈ d.hist.acks, x.amt ≤ x.ocount
  tosends : ∀ x ∈ d.hist.tosends, x.wndused ≤ x.pending ∧ x.tosend ≤ x.pending - x.wndused

variable {d : Device}

theorem Streaming.sound {n A : Nat} (h : Streaming lo hi n base p A d) : SendSound d := by
  have huna_le : d.tcb.snd.snduna ≤ d.tcb.snd.sndnxt := h.account.una_le
  have hnxt_le : d.tcb.snd.sndnxt ≤ base + d.hist.written.length + d.tcb.snd.sndflg.fin.toNat :=
    h.account.nxt_le
  have htotal : A + d.tcb.snd.ocount = d.hist.written.length := h.account.total
  have hle := Bool.toNat_le d.tcb.snd.sndflg.fin
  have huna := h.account.una
  change d.tcb.snd.snduna = _ ∨ _ ∧ _ ∧ d.tcb.snd.snduna = _ at huna
  refine ⟨huna_le, ?_, h.healthy.acks, h.healthy.tosends⟩
  rw [if_neg h.syn_acked]
  split_ifs with hsent
  · omega
  · cases hf : d.tcb.snd.sndflg.fin with
    | false =>
      rw [hf, Bool.toNat_false] at hnxt_le
      omega
    | true =>
      -- a FIN that has not been sent takes no sequence number
      have hsndfin : d.tcb.snd.sndfin = base + d.hist.written.length := h.account.sndfin hf
      have : ¬ d.tcb.snd.sndfin < d.tcb.snd.sndnxt := fun hlt => hsent ⟨hf, hlt⟩
      omega

theorem Fresh.sound (h : Fresh lo hi p d) : SendSound d := by
  have hnxt := h.nxt
  rw [Device.base] at hnxt
  refine ⟨by rw [hnxt, h.una]; exact Nat.le_add_right _ _, ?_, h.healthy.acks, h.healthy.tosends⟩
  rw [hnxt, h.una]
  cases d.tcb.snd.sndflg.syn with
  | false => simp
  | true =>
    rw [if_pos ⟨rfl, rfl⟩, Bool.toNat_true]
    omega

theorem Idle.sound (h : Idle d) : SendSound d := by
  rcases h.inflight with hnxt | ⟨hsyn, huna, hnxt⟩
  · exact ⟨hnxt.ge, by rw [hnxt]; omega, h.healthy.acks, h.healthy.tosends⟩
  · refine ⟨by omega, ?_, h.healthy.acks, h.healthy.tosends⟩
    rw [hnxt, if_pos ⟨hsyn, huna⟩]
    omega

theorem Accounted.sound (h : Accounted lo hi d) : SendSound d := by
  rcases h with (⟨p, h⟩ | ⟨n, base, p, A, h⟩) | h
  · exact h.fresh.sound
  · exact h.sound
  · exact h.sound

theorem accounted_closed (lo hi minor : Nat) (net : List Sending) (nextseq : Nat) :
    Accounted lo hi (Device.closed minor net nextseq) :=
  .inr ⟨rfl, .inl rfl, rfl, ⟨Nat.two_pow_pos 16, by simp [Device.closed], by simp [Device.closed]⟩⟩

theorem accounted_run {minor nextseq : Nat} {net : List Sending} {calls : List Call}
    (E : Exact lo hi)
    (r : (sendMachine lo hi).Run (Device.closed minor net nextseq) calls d) :
      Accounted lo hi d := by
  have hstep : ∀ d c, Accounted lo hi d → (sendMachine lo hi).enabled d c →
      Accounted lo hi ((sendMachine lo hi).next d c) := fun d c h he => h.step E c he.2.1 he.2.2
  exact r.invariant hstep (accounted_closed lo hi minor net nextseq)

/-- **The send buffer agrees with the sequence numbers** in every run of careful steps. -/
theorem send_buffer_correspondence {lo hi minor nextseq : Nat} {net : List Sending}
    {calls : List Call} {d : Device} (E : Exact lo hi)
    (r : (sendMachine lo hi).Run (Device.closed minor net nextseq) calls d) : SendSound d :=
  (accounted_run E r).sound

/-! ### Connections -/

/-- A passive open on port 80, for the given partner. -/
def passive (remotept : Nat) (remoteip : Option NetAddr) : OpenArgs where
  localip := some ⟨1, []⟩
  remoteip := remoteip
  localpt := 80
  remotept := remotept
  mode := 0
  port := 0
  clktime := 0
  sems := true

/-- A segment without data. -/
def emptySegment (seqnum acknum window : Nat) (control : Control) : TcpPkt where
  srcpt := 7
  seqnum := seqnum
  acknum := acknum
  offset := 0x50
  control := control
  window := window
  tcplen := 20
  octet := fun _ => 0

/-- A device whose first connection has the initial sequence number 1904. -/
def unopened : Device := Device.closed 0 [] 1000

/-- The SYN of the other side, with the sequence number 5000. -/
def synIn : Call := .recv (emptySegment 5000 0 1000 { syn := true }) ⟨1, []⟩

/-- A segment of the other side behind its SYN. -/
def segmentIn (acknum : Nat) (control : Control) : Call :=
  .recv (emptySegment 5001 acknum 1000 control) ⟨1, []⟩

/-- A connection is opened, written to and closed. -/
theorem send_buffer_correspondence_session :
    ∃ d, (sendMachine 1000 100000).Run unopened
        [.open (passive 0 none), synIn, segmentIn 1905 { ack := true }, .write [10, 20, 30],
          segmentIn 1908 { ack := true }, .close, segmentIn 1909 { ack := true }] d ∧
      SendSound d ∧ d.tcb.state = .finwt2 := by
  have r : (sendMachine 1000 100000).Run unopened
      [.open (passive 0 none), synIn, segmentIn 1905 { ack := true }, .write [10, 20, 30],
        segmentIn 1908 { ack := true }, .close, segmentIn 1909 { ack := true }] _ :=
    run_after
  exact ⟨_, r, send_buffer_correspondence (by decide) r, by decide⟩

/-- **The accounts come apart** when the connection is closed before its SYN is acknowledged, when a
segment acknowledges the sequence number before the SYN, when a RST takes the connection back to
LISTEN, and when `tcpWrite` makes the connection an active one. In the first two an ACK takes
`2 ^ 32 - 1` octets out of an empty buffer, in the others two sequence numbers are in flight with
nothing but a SYN. -/
theorem send_accounts_shifted :
    (∃ d, tcpMachine.Run unopened [.open (passive 0 none), synIn, .close,
        segmentIn 1905 { ack := true }] d ∧ ⟨0, 2 ^ 32 - 1⟩ ∈ d.hist.acks ∧ ¬ SendSound d) ∧
      (∃ d, tcpMachine.Run unopened [.open (passive 0 none), synIn, segmentIn 1904 { ack := true },
        .close, segmentIn 1905 { ack := true }] d ∧
        ⟨0, 2 ^ 32 - 1⟩ ∈ d.hist.acks ∧ ¬ SendSound d) ∧
      (∃ d, tcpMachine.Run unopened [.open (passive 0 none), synIn, segmentIn 0 { rst := true },
        synIn] d ∧ d.tcb.snd.sndnxt = d.tcb.snd.snduna + 2 ∧ ¬ SendSound d) ∧
      ∃ d, tcpMachine.Run unopened [.open (passive 7 (some ⟨1, []⟩)), .writeCheck] d ∧
        d.tcb.snd.sndnxt = d.tcb.snd.snduna + 2 ∧ ¬ SendSound d := by
  have hacks : ∀ d : Device, (⟨0, 2 ^ 32 - 1⟩ : Acked) ∈ d.hist.acks → ¬ SendSound d :=
    fun d hmem hs => absurd (hs.acks _ hmem) (by decide)
  have hflight : ∀ d : Device, d.tcb.snd.sndnxt = d.tcb.snd.snduna + 2 → d.tcb.snd.ocount = 0 →
      d.tcb.snd.sndflg.fin = false → ¬ SendSound d := by
    intro d hnxt hcount hfin hs
    have := hs.inflight
    split_ifs at this <;> simp_all
  refine ⟨⟨_, run_after, ?_⟩, ⟨_, run_after, ?_⟩, ⟨_, run_after, ?_⟩, ⟨_, run_after, ?_⟩⟩
  · have hmem : (⟨0, 2 ^ 32 - 1⟩ : Acked) ∈
        (tcpMachine.after unopened [.open (passive 0 none), synIn,
      .close, segmentIn 1905 { ack := true }]).hist.acks := by decide
    exact ⟨hmem, hacks _ hmem⟩
  · have hmem : (⟨0, 2 ^ 32 - 1⟩ : Acked) ∈
        (tcpMachine.after unopened [.open (passive 0 none), synIn,
      segmentIn 1904 { ack := true }, .close, segmentIn 1905 { ack := true }]).hist.acks := by
      decide
    exact ⟨hmem, hacks _ hmem⟩
  · have hnxt : (tcpMachine.after unopened [.open (passive 0 none), synIn,
        segmentIn 0 { rst := true }, synIn]).tcb.snd.sndnxt =
      (tcpMachine.after unopened [.open (passive 0 none), synIn,
        segmentIn 0 { rst := true }, synIn]).tcb.snd.snduna + 2 := by decide
    exact ⟨hnxt, hflight _ hnxt (by decide) (by decide)⟩
  · have hnxt : (tcpMachine.after unopened [.open (passive 7 (some ⟨1, []⟩)),
        .writeCheck]).tcb.snd.sndnxt =
      (tcpMachine.after unopened [.open (passive 7 (some ⟨1, []⟩)),
        .writeCheck]).tcb.snd.snduna + 2 := by decide
    exact ⟨hnxt, hflight _ hnxt (by decide) (by decide)⟩

/-! ## Retransmission -/

/-- The segments carry the stream `W` whose first octet has the sequence number `first`: each octet
of a segment is the one that belongs to its number, two segments that cover one number carry the
same octet there, and a FIN stands behind the last octet of the stream. -/
structure Transmits (first : Nat) (W : List UInt8) (l : List Segment) : Prop where
  octets : ∀ seg ∈ l, ∀ i < seg.data.length,
    first ≤ seg.seqnum + i ∧ seg.data[i]? = W[seg.seqnum + i - first]?
  agree : ∀ seg ∈ l, ∀ seg' ∈ l, ∀ i < seg.data.length, ∀ j < seg'.data.length,
    seg.seqnum + i = seg'.seqnum + j → seg.data[i]? = seg'.data[j]?
  fin : ∀ seg ∈ l, seg.control.fin = true → seg.seqnum + seg.data.length = first + W.length

theorem Carries.getElem? {W : List UInt8} {fin : Bool} {seg : Segment}
    (h : Carries base W fin seg) {i : Nat} (hi : i < seg.data.length) :
    base ≤ seg.seqnum + i ∧ seg.data[i]? = W[seg.seqnum + i - base]? := by
  obtain ⟨hle, hpre⟩ := h.1 (List.ne_nil_of_length_pos (by omega))
  refine ⟨by omega, ?_⟩
  obtain ⟨rest, hrest⟩ := hpre
  rw [← List.getElem?_append_left hi, hrest, List.getElem?_drop]
  congr 1
  omega

theorem transmits_of_carries {first : Nat} {W : List UInt8} {l : List Segment}
    (h : ∀ seg ∈ l, Carries first W true seg) : Transmits first W l := by
  refine ⟨fun seg hseg i hi => (h seg hseg).getElem? hi, ?_, fun seg hseg hf =>
    ((h seg hseg).2 hf).2⟩
  intro seg hseg seg' hseg' i hi j hj heq
  rw [((h seg hseg).getElem? hi).2, ((h seg' hseg').getElem? hj).2, heq]

/-- The segments sent from now on. -/
theorem Streaming.remark {n A : Nat} (h : Streaming lo hi n base p A d) :
    Streaming lo hi d.hist.sent.length base p A d :=
  ⟨h.stage, h.start, h.account, h.lower, h.upper, h.healthy, le_rfl, by simp⟩

/-- **Retransmissions are consistent.** Let a connection have come to ESTAB by careful steps, with
its SYN sent. From there on, whatever is done with it, every segment carries the octets of the
stream that belong to its sequence numbers, until the connection is freed. -/
theorem retransmission_consistent {lo hi minor nextseq : Nat} {net : List Sending}
    {calls₁ calls₂ : List Call} {d₁ d₂ : Device} (E : Exact lo hi)
    (r₁ : (sendMachine lo hi).Run (Device.closed minor net nextseq) calls₁ d₁)
    (hst : d₁.tcb.state = .estab) (hsyn : d₁.tcb.snd.sndflg.syn = true)
    (r₂ : (streamMachine lo hi).Run d₁ calls₂ d₂) :
    Transmits (d₁.tcb.snd.iss + 1) d₂.hist.written (d₂.hist.sent.drop d₁.hist.sent.length) := by
  obtain ⟨p, A, h₁⟩ : ∃ p A, Streaming lo hi d₁.hist.sent.length (d₁.tcb.snd.iss + 1) p A d₁ := by
    rcases accounted_run E r₁ with (⟨p, h⟩ | ⟨n, base, p, A, h⟩) | h
    · exact absurd h.state (by rw [hst]; simp)
    · have hstart := h.start
      rw [Device.base, hsyn, Bool.toNat_true] at hstart
      rw [hstart]
      exact ⟨p, A, h.remark⟩
    · exact absurd h.state (by rw [hst]; simp)
  have hstep : ∀ d c, Connected lo hi d₁.hist.sent.length (d₁.tcb.snd.iss + 1) p d →
      (streamMachine lo hi).enabled d c →
      Connected lo hi d₁.hist.sent.length (d₁.tcb.snd.iss + 1) p
        ((streamMachine lo hi).next d c) := by
    intro d c h he
    rcases h with ⟨A, h⟩ | h
    · refine h.step E c ?_ ?_
      · rintro pkt src rfl
        exact he.2.1
      · rintro buffer rfl
        exact h.room_of_inRange he.2.1
    · exact absurd h.idle.state he.2.2
  rcases r₂.invariant hstep (.inl ⟨A, h₁⟩) with ⟨A', h₂⟩ | h₂
  · exact transmits_of_carries fun seg hseg => (h₂.sent seg hseg).weaken
  · exact transmits_of_carries h₂.sent.2

/-- A connection is opened for a partner that acknowledges the given number. -/
def handshake (acknum : Nat) : List Call :=
  [.open (passive 0 none), synIn, segmentIn acknum { ack := true }]

/-- Three octets are sent, the first is acknowledged, and the timer sends the others again. -/
theorem retransmission_consistent_session :
    ∃ d₁ d₂, (sendMachine 1000 100000).Run unopened (handshake 1905) d₁ ∧
      (streamMachine 1000 100000).Run d₁ [.write [10, 20, 30], segmentIn 1906 { ack := true },
        .elapse 500, .expire] d₂ ∧
      Transmits (d₁.tcb.snd.iss + 1) d₂.hist.written (d₂.hist.sent.drop d₁.hist.sent.length) ∧
      ((d₂.hist.sent.drop d₁.hist.sent.length).map fun seg => (seg.seqnum, seg.data)) =
        [(1905, [10, 20, 30]), (1906, [20, 30])] := by
  have r₁ : (sendMachine 1000 100000).Run unopened (handshake 1905) _ :=
    run_after
  have r₂ : (streamMachine 1000 100000).Run
      ((sendMachine 1000 100000).after unopened (handshake 1905))
      [.write [10, 20, 30], segmentIn 1906 { ack := true }, .elapse 500, .expire] _ :=
    run_after
  exact ⟨_, _, r₁, r₂, retransmission_consistent (by decide) r₁ (by decide) (by decide) r₂,
    by decide⟩

/-- **The stream is shifted** when the connection comes to ESTAB by a segment that acknowledges the
sequence number before the SYN: the first octet of the stream is left out. -/
theorem retransmission_shifted :
    ∃ d₁ d₂, tcpMachine.Run unopened (handshake 1904) d₁ ∧ d₁.tcb.state = .estab ∧
      tcpMachine.Run d₁ [.write [10, 20, 30]] d₂ ∧ d₂.hist.written = [10, 20, 30] ∧
      ((d₂.hist.sent.drop d₁.hist.sent.length).map fun seg => (seg.seqnum, seg.data)) =
        [(d₁.tcb.snd.iss + 1, [20, 30])] ∧
      ¬ Transmits (d₁.tcb.snd.iss + 1) d₂.hist.written
        (d₂.hist.sent.drop d₁.hist.sent.length) := by
  have hwritten : (tcpMachine.after (tcpMachine.after unopened (handshake 1904))
      [.write [10, 20, 30]]).hist.written = [10, 20, 30] := by decide
  have hsent : (((tcpMachine.after (tcpMachine.after unopened (handshake 1904))
      [.write [10, 20, 30]]).hist.sent.drop
        (tcpMachine.after unopened (handshake 1904)).hist.sent.length).map
          fun seg => (seg.seqnum, seg.data)) =
      [((tcpMachine.after unopened (handshake 1904)).tcb.snd.iss + 1, [20, 30])] := by decide
  refine ⟨_, _, run_after, by decide, run_after,
    hwritten, hsent, fun h => ?_⟩
  -- the first octet of the segment would be the first octet of the stream
  rw [hwritten] at h
  obtain ⟨seg, hl, hseg⟩ := List.map_eq_singleton_iff.mp hsent
  obtain ⟨hseq, hdata⟩ := Prod.mk.inj hseg
  have hfirst := (h.octets seg (by rw [hl]; exact List.mem_singleton_self seg) 0
      (by rw [hdata]; simp)).2
  rw [hseq, hdata, Nat.add_zero, Nat.sub_self] at hfirst
  exact absurd hfirst (by decide)

/-! ## Both ends -/

/-- A receiver in ESTAB, of packets that have the data of one of the segments `l`, or no data and a
number up to `last`. -/
def linkMachine (l : List Segment) (lo last : Nat) : Machine Device Call :=
  tcpMachine.restrict fun d c =>
    d.tcb.state = .estab ∧ ∀ pkt src, c = .recv pkt src → pkt.WellFormed ∧
      if pkt.length = 0 then lo ≤ pkt.seqnum ∧ pkt.seqnum ≤ last
      else ∃ seg ∈ l, seg.seqnum = pkt.seqnum ∧ seg.data = (List.range pkt.length).map pkt.data

theorem agrees_of_link {W : List UInt8} {l : List Segment} {c : Call} (hlo : lo ≤ base)
    (hl : ∀ seg ∈ l, Carries base W true seg)
    (h : (linkMachine l lo (base + W.length)).enabled d c) : c.Agrees W base lo := by
  cases c with
  | recv pkt src =>
    obtain ⟨hform, hfrom⟩ := h.2.2 pkt src rfl
    split_ifs at hfrom with h0
    · exact ⟨hform, hfrom.1, by omega, fun i hi => by omega⟩
    · obtain ⟨seg, hseg, hseq, hdata⟩ := hfrom
      have hlen : seg.data.length = pkt.length := by simp [hdata]
      obtain ⟨hle, hpre⟩ := (hl seg hseg).1 (List.ne_nil_of_length_pos (by omega))
      have hlast := hpre.length_le
      rw [List.length_drop] at hlast
      refine ⟨hform, by omega, by omega, fun i hi _ => ?_⟩
      rw [octetAt, List.getD_eq_getElem?_getD, ← hseq, ← ((hl seg hseg).getElem? (hlen ▸ hi)).2]
      simp [hdata, hi]
  | _ => trivial

theorem Streaming.carries_run {n A : Nat} {d' : Device} {calls : List Call} (E : Exact lo hi)
    (h : Streaming lo hi n base p A d) (r : (streamMachine lo hi).Run d calls d') :
    ∀ seg ∈ d'.hist.sent.drop n, Carries base d'.hist.written true seg := by
  have h' : Connected lo hi n base p d' := by
    refine r.invariant (fun d c h he => ?_) (.inl ⟨A, h⟩)
    rcases h with ⟨A, h⟩ | h
    · refine h.step E c (by rintro pkt src rfl; exact he.2.1) ?_
      rintro buffer rfl
      exact h.room_of_inRange he.2.1
    · exact absurd h.idle.state he.2.2
  rcases h' with ⟨A, h⟩ | h
  · exact fun seg hseg => (h.sent seg hseg).weaken
  · exact h.sent.2

/-- **What is read is what was written.** Let a connection have come to ESTAB by careful steps and
go on in any way, and let another device be established for its stream. Whatever the network loses,
repeats and reorders of its segments, and whatever is done with the other device in ESTAB, what it
has handed to its readers and holds for them is the beginning of what was written. -/
theorem read_is_written {lo hi minor nextseq : Nat} {net : List Sending}
    {calls₁ calls₂ calls : List Call} {d₁ d₂ b₀ b : Device} (E : Exact lo hi)
    (r₁ : (sendMachine lo hi).Run (Device.closed minor net nextseq) calls₁ d₁)
    (hst : d₁.tcb.state = .estab) (hsyn : d₁.tcb.snd.sndflg.syn = true)
    (r₂ : (streamMachine lo hi).Run d₁ calls₂ d₂) (h₀ : Established b₀)
    (hbase : b₀.tcb.rcv.rcvnxt = d₁.tcb.snd.iss + 1)
    (hhi : b₀.tcb.rcv.rcvnxt + d₂.hist.written.length + TCP_IBLEN ≤ hi)
    (r : (linkMachine (d₂.hist.sent.drop d₁.hist.sent.length) lo
      (b₀.tcb.rcv.rcvnxt + d₂.hist.written.length)).Run b₀ calls b) (hb : b.tcb.state = .estab) :
    b.hist.delivered ++ b.tcb.rcv.unread <+: d₂.hist.written := by
  rcases accounted_run E r₁ with (⟨p, h⟩ | ⟨n, base, p, A, h⟩) | h
  · exact absurd h.state (by rw [hst]; simp)
  · have hstart := h.start
    rw [Device.base, hsyn, Bool.toNat_true, ← hbase] at hstart
    subst hstart
    have hsent := h.remark.carries_run E r₂
    obtain ⟨R, N, -, hreas, hd⟩ := r.invariant (fun d c hd he =>
      hd.step ⟨E, h.lower, hhi⟩ he.2.1 c (agrees_of_link h.lower hsent he)) h₀.receiving hb
    rw [(hreas.sound hd).stream]
    exact List.take_prefix _ _
  · exact absurd h.state (by rw [hst]; simp)

/-- A connection that has come to ESTAB. -/
def opened : Device := (sendMachine 900 100000).after (Device.closed 0 [] 96) (handshake 1001)

/-- Six octets are written, by two calls. -/
def sixWritten : Device := (streamMachine 900 100000).after opened
    [.write [1, 2, 3], .write [4, 5, 6]]

/-- The two segments come in in the wrong order, the second of them twice, and four octets are
read. -/
theorem read_is_written_reordered : ∃ b : Device, sixWritten.hist.written = [1, 2, 3, 4, 5, 6] ∧
    b.hist.delivered = [1, 2, 3, 4] ∧ b.tcb.rcv.unread = [5, 6] ∧
    b.hist.delivered ++ b.tcb.rcv.unread <+: sixWritten.hist.written := by
  have r₁ : (sendMachine 900 100000).Run (Device.closed 0 [] 96) (handshake 1001) opened :=
    run_after
  have r₂ : (streamMachine 900 100000).Run opened [.write [1, 2, 3], .write [4, 5, 6]] sixWritten :=
    run_after
  have h₀ : Established established :=
    ⟨rfl, by decide, rfl, rfl, fun _ _ => rfl, by decide, by decide, rfl⟩
  have r : (linkMachine (sixWritten.hist.sent.drop opened.hist.sent.length) 900 1007).Run
      established [.recv (threeOctets 1004 4) ⟨0, []⟩, .recv (threeOctets 1001 1) ⟨0, []⟩,
        .recv (threeOctets 1004 4) ⟨0, []⟩, .read 4] _ :=
    run_after ⟨⟨by decide, by decide, by rintro _ _ ⟨⟩; decide⟩,
      ⟨by decide, by decide, by rintro _ _ ⟨⟩; decide⟩,
      ⟨by decide, by decide, by rintro _ _ ⟨⟩; decide⟩,
      ⟨by decide, by decide, nofun⟩, trivial⟩
  exact ⟨_, by decide, by decide, by decide, read_is_written (by decide) r₁ (by decide) (by decide)
    r₂ h₀ (by decide) (by decide) r (by decide)⟩

end Xinu.Tcp
