import EdgeVision.Gateway.History
import EdgeVision.Verify.ConnectionTable
import EdgeVision.Verify.Refinement
import EdgeVision.Verify.Removal

/-!
# Connections and their numbers

What the steps of the two threads do to the history of the connections, and the facts about single
blocks that the invariants over whole histories rest on: a producer's stream and what has been taken
off it (`Producing`), what the epoll thread has at hand, and which connections there are (`Known`).
-/

namespace EdgeVision

open Lib

/-! ## A stream and what has been taken off it -/

/-- A stream that starts with a request holds no frame. -/
theorem drain_request {l : Bytes} (h : getRequest <+: l) : framer.drain l = ⟨[], l, true⟩ := by
  have hlen : 4 ≤ l.length := h.length_le
  have htake : l.take 4 = getRequest := (List.prefix_iff_eq_take.mp h).symm
  have hnone : admittedSize l = none := by
    rw [← admittedSize_take, htake]
    decide
  exact Deframer.drain_refuse (framer_next_invalid ⟨hlen, hnone⟩)

theorem drain_short {l : Bytes} (h : l.length < 4) : framer.drain l = ⟨[], l, false⟩ :=
  Deframer.drain_wait (Intake.framer_next_short h)

/-- The frames `taken` have been taken off a producer's stream, and `buffer` is left of it. -/
structure Producing (stream : Bytes) (taken : List Bytes) (buffer : Bytes) : Prop where
  long : probeBytes ≤ stream.length
  notRequest : ¬ getRequest <+: stream
  drained : framer.drain stream = ⟨taken ++ (framer.drain buffer).items,
    (framer.drain buffer).rest, (framer.drain buffer).refused⟩

namespace Producing

variable {stream buffer : Bytes} {taken : List Bytes} (h : Producing stream taken buffer)
include h

/-- More input, behind a buffer that waits for it. -/
theorem read (hwait : framer.next buffer = .wait) (data : Bytes) :
    Producing (stream ++ data) taken (buffer ++ data) := by
  have hdrained := h.drained
  rw [Deframer.drain_wait hwait, List.append_nil] at hdrained
  refine ⟨?_, ?_, ?_⟩
  · exact Nat.le_trans h.long (by simp)
  · intro hget
    exact h.notRequest (List.prefix_of_prefix_length_le hget (List.prefix_append _ _) h.long)
  · have haccepted : (framer.drain stream).refused = false := by rw [hdrained]
    rw [Deframer.drain_append haccepted, hdrained]

/-- The frames in the buffer are taken off. -/
theorem take (haccepted : (framer.drain buffer).refused = false) :
    Producing stream (taken ++ (framer.drain buffer).items) (framer.drain buffer).rest := by
  refine ⟨h.long, h.notRequest, ?_⟩
  rw [Deframer.drain_wait (Deframer.next_rest_of_accepted haccepted), h.drained, haccepted]
  simp

end Producing

/-- A first chunk is all that has been read, and nothing is taken off it. -/
theorem Producing.first {stream : Bytes} (hlong : probeBytes ≤ stream.length)
    (hget : ¬ getRequest <+: stream) : Producing stream [] stream :=
  ⟨hlong, hget, rfl⟩

/-! ## What the epoll thread has at hand -/

namespace EpollPc

/-- The descriptor whose read is being handled. -/
def target : EpollPc → Option Fd
  | .lookViewers fd _ _ => some fd
  | .lookProducers fd _ _ => some fd
  | .probe fd _ _ => some fd
  | .reassemble fd _ _ => some fd
  | _ => none

/-- Its bytes that no table holds yet. -/
def buffer : EpollPc → Bytes
  | .lookViewers _ buffer _ => buffer
  | .lookProducers _ buffer _ => buffer
  | .probe _ buffer _ => buffer
  | .reassemble _ data _ => data
  | _ => []

/-- The bytes of a descriptor that are read and in no table. -/
def unentered (pc : EpollPc) (fd : Fd) : Bytes := if pc.target = some fd then pc.buffer else []

/-- The descriptor that has just been accepted. -/
def newcomer : EpollPc → Option Fd
  | .accepted fd => some fd
  | _ => none

/-- The descriptor that has asked to be a viewer and has no seat yet. -/
def guest : EpollPc → Option Fd
  | .bootstrap fd => some fd
  | .join viewer => some viewer.fd
  | _ => none

/-- The descriptor that is being removed. -/
def removed : EpollPc → Option Fd
  | .removing r _ _ => some r.fd
  | _ => none

/-- No read is being handled and no connection enters the tables. -/
structure Clear (pc : EpollPc) : Prop where
  target : pc.target = none
  newcomer : pc.newcomer = none
  guest : pc.guest = none

theorem Clear.unentered {pc : EpollPc} (h : pc.Clear) (fd : Fd) : pc.unentered fd = [] := by
  rw [EpollPc.unentered, h.target]
  rfl

theorem removeDead_clear (frames : List Bytes) (dead : List (Fd × Option Conn)) :
    (removeDead frames dead).Clear := by
  cases dead <;> exact ⟨rfl, rfl, rfl⟩

@[simp] theorem removeDead_upcoming (frames : List Bytes) (dead : List (Fd × Option Conn)) :
    (removeDead frames dead).upcoming = frames := by
  cases dead <;> rfl

end EpollPc

namespace Removal

variable (r : Removal) (g : TcpServer) (dead : List (Fd × Option Conn)) (frames : List Bytes)

theorem epollAfter_clear : (r.epollAfter g dead frames).Clear := by
  unfold epollAfter
  split
  · exact ⟨rfl, rfl, rfl⟩
  · exact EpollPc.removeDead_clear frames dead

@[simp] theorem epollAfter_upcoming : (r.epollAfter g dead frames).upcoming = frames := by
  unfold epollAfter
  split
  · rfl
  · simp

end Removal

/-! ## Numbers and connections -/

/-- The history knows the connections that there are, and nothing of those to come. -/
structure Known (s : System) (h : History) : Prop where
  number : ∀ fd c, s.owner fd = some c → h.number c = some fd
  numbered : ∀ c fd, h.number c = some fd → c < s.nextConn
  source : ∀ c, h.source = some c → c < s.nextConn
  fresh : ∀ c, s.nextConn ≤ c → h.rx c = [] ∧ h.tx c = [] ∧ h.framesFrom c = []

theorem History.framesFrom_log (h : History) (frame : Bytes) (c : Conn) :
    ({ h with log := h.log ++ [(h.source, frame)] } : History).framesFrom c =
      h.framesFrom c ++ if h.source = some c then [frame] else [] := by
  by_cases hc : h.source = some c <;> simp [framesFrom, hc]

theorem History.taken_congr (h : History) {pc pc' : EpollPc} (hupcoming : pc'.upcoming = pc.upcoming)
    (c : Conn) : h.taken pc' c = h.taken pc c := by
  simp only [taken, hupcoming]

/-- Most blocks of the epoll thread write no history. -/
theorem History.record_epoll {s : System} (h : History)
    (hpc : ∀ frame frames, s.epoll ≠ .frames (frame :: frames)) : h.record s .epoll = h := by
  simp only [record]

namespace Known

variable {s t : System} {h : History} (hk : Known s h)
include hk

/-- Two numbers belong to different connections. -/
theorem inj {fd fd' : Fd} {c : Conn} (hfd : s.owner fd = some c) (hfd' : s.owner fd' = some c) :
    fd = fd' :=
  Option.some.inj ((hk.number fd c hfd).symm.trans (hk.number fd' c hfd'))

theorem lt {fd : Fd} {c : Conn} (hfd : s.owner fd = some c) : c < s.nextConn :=
  hk.numbered c fd (hk.number fd c hfd)

/-- A step that opens nothing and writes no history. -/
theorem keep (howner : ∀ fd c, t.owner fd = some c → s.owner fd = some c)
    (hnext : t.nextConn = s.nextConn) : Known t h :=
  ⟨fun fd c hc => hk.number fd c (howner fd c hc), hnext ▸ hk.numbered, hnext ▸ hk.source,
    hnext ▸ hk.fresh⟩

theorem accept {fd : Fd} {pc : EpollPc} :
    Known { s with
      gateway := s.gateway.openSocket fd s.nextConn
      nextConn := s.nextConn + 1
      epoll := pc } (h.record s (.accept fd)) := by
  refine ⟨fun fd' c hc => ?_, fun c fd' hc => ?_, fun c hc => ?_, fun c hc => ?_⟩
  · simp only [System.owner, TcpServer.openSocket, Std.TreeMap.getElem?_insert,
      Nat.compare_eq_eq] at hc
    simp only [History.record]
    split at hc
    · rename_i hfd
      rw [if_pos (Option.some.inj hc).symm, hfd]
    · rw [if_neg (Nat.ne_of_lt (hk.lt hc))]
      exact hk.number fd' c hc
  · simp only [History.record] at hc
    split at hc
    · simp_all
    · exact Nat.lt_succ_of_lt (hk.numbered c fd' hc)
  · exact Nat.lt_succ_of_lt (hk.source c hc)
  · exact hk.fresh c (Nat.le_of_succ_le hc)

theorem hear {fd : Fd} {buffer : Bytes} (howner : t.owner = s.owner)
    (hnext : t.nextConn = s.nextConn) : Known t (h.hear (s.owner fd) buffer) := by
  refine ⟨fun fd' c hc => hk.number fd' c (howner ▸ hc), hnext ▸ hk.numbered, fun c hc => ?_,
    fun c hc => ?_⟩
  · rw [hnext]
    exact hk.lt hc
  · rw [hnext] at hc
    obtain ⟨hrx, htx, hframes⟩ := hk.fresh c hc
    refine ⟨?_, htx, hframes⟩
    have hne : s.owner fd ≠ some c := fun heq => Nat.not_lt.mpr hc (hk.lt heq)
    simp only [History.hear, hne, if_false]
    exact hrx

theorem log {frame : Bytes} (howner : t.owner = s.owner) (hnext : t.nextConn = s.nextConn) :
    Known t { h with log := h.log ++ [(h.source, frame)] } := by
  refine ⟨fun fd c hc => hk.number fd c (howner ▸ hc), hnext ▸ hk.numbered, hnext ▸ hk.source,
    fun c hc => ?_⟩
  rw [hnext] at hc
  obtain ⟨hrx, htx, hframes⟩ := hk.fresh c hc
  have hne : h.source ≠ some c := fun heq => Nat.not_lt.mpr hc (hk.source c heq)
  exact ⟨hrx, htx, by rw [h.framesFrom_log, hframes, if_neg hne]; rfl⟩

theorem round {outcomes : Fd → List SendOutcome} (howner : t.owner = s.owner)
    (hnext : t.nextConn = s.nextConn) : Known t (h.record s (.round outcomes)) := by
  refine ⟨fun fd c hc => hk.number fd c (howner ▸ hc), hnext ▸ hk.numbered, hnext ▸ hk.source,
    fun c hc => ?_⟩
  rw [hnext] at hc
  obtain ⟨hrx, htx, hframes⟩ := hk.fresh c hc
  refine ⟨hrx, ?_, hframes⟩
  have hnone : h.number c = none := by
    cases hn : h.number c with
    | none => rfl
    | some fd => exact absurd (hk.numbered c fd hn) (Nat.not_lt.mpr hc)
  simp [History.record, History.accepted, hnone, htx]

/-- **Every step keeps the history's knowledge of the connections.** -/
theorem step {a : Label} (ht : System.Transition s a t) : Known t (h.record s a) := by
  have hsame : ∀ fd c, s.owner fd = some c → s.owner fd = some c := fun _ _ hc => hc
  have hidle : (∀ frame frames, s.epoll ≠ .frames (frame :: frames)) → h.record s .epoll = h :=
    h.record_epoll
  have hadvance : ∀ (r : Removal) fd c, (r.advance s.gateway).2.sockets[fd]? = some c →
      s.owner fd = some c := fun r fd c hc => Removal.advance_sockets hc
  cases ht with
  | wait hpc hbatch hreports => exact hk.keep hsame rfl
  | listen hpc hbatch => exact hk.keep hsame rfl
  | hangUp hpc hbatch => exact hk.keep hsame rfl
  | readable hpc hbatch => exact hk.keep hsame rfl
  | accept hpc hclosed => exact hk.accept
  | acceptNone hpc => exact hk.keep hsame rfl
  | @read fd result hpc hanswer =>
    cases result with
    | bytes buffer =>
      have hrecord : h.record s (.read (.bytes buffer)) = h.hear (s.owner fd) buffer := by
        simp only [History.record, hpc]
      rw [hrecord]
      exact hk.hear rfl rfl
    | _ => exact hk.keep hsame rfl
  | @cacheConfig frame frames hpc =>
    have hrecord : h.record s .epoll = { h with log := h.log ++ [(h.source, frame)] } := by
      simp only [History.record, hpc]
    rw [hrecord]
    exact hk.log rfl rfl
  | round hpc => exact hk.round rfl rfl
  | senderRemoval hpc => exact hk.keep (hadvance _) rfl
  | epollRemoval hpc =>
    rw [hidle (by simp [hpc])]
    exact hk.keep (hadvance _) rfl
  | _ hpc =>
    rw [hidle (by simp [hpc])]
    exact hk.keep hsame rfl

end Known

/-- The probe block, with what it has decided on. -/
theorem System.probe_cases {s t : System} {fd : Fd} {buffer : Bytes} {conn : Option Conn}
    (hpc : s.epoll = .probe fd buffer conn) (hstep : s.step .epoll = some t) :
    let probe := (s.gateway.pendingProbe[fd]?).getD [] ++ buffer
    (probe.length < probeBytes ∧ t = { s with
      gateway := { s.gateway with pendingProbe := s.gateway.pendingProbe.insert fd probe }
      epoll := .idle }) ∨
    (getRequest <+: probe ∧ t = { s with
      gateway := { s.gateway with pendingProbe := s.gateway.pendingProbe.erase fd }
      epoll := .bootstrap fd }) ∨
    (probeBytes ≤ probe.length ∧ ¬ getRequest <+: probe ∧ t = { s with
      gateway := { s.gateway with
        pendingProbe := s.gateway.pendingProbe.erase fd
        producers := s.gateway.producers.insert fd ⟨[]⟩ }
      epoll := .reassemble fd probe conn }) := by
  intro probe
  have hget : getRequest <+: probe ↔ probe.take 4 = getRequest :=
    List.prefix_iff_eq_take.trans eq_comm
  simp only [step, epollStep, hpc, TcpServer.probeBlock, Option.some.injEq] at hstep
  by_cases hlong : probeBytes ≤ probe.length
  · rw [if_pos hlong] at hstep
    by_cases hrequest : probe.take 4 = getRequest
    · rw [if_pos hrequest] at hstep
      exact .inr (.inl ⟨hget.mpr hrequest, hstep.symm⟩)
    · rw [if_neg hrequest] at hstep
      have hne : probe.isEmpty = false := by
        rw [List.isEmpty_eq_false_iff, ← List.length_pos_iff]
        exact Nat.lt_of_lt_of_le (by decide) hlong
      simp only at hstep
      rw [hne] at hstep
      exact .inr (.inr ⟨hlong, fun h => hrequest (hget.mp h), hstep.symm⟩)
  · rw [if_neg hlong] at hstep
    exact .inl ⟨Nat.lt_of_not_le hlong, hstep.symm⟩

/-- The reassembly block as a drain. -/
theorem TcpServer.reassembleBlock_eq {g : TcpServer} {fd : Fd} {state : ProducerState}
    (hstate : g.producers[fd]? = some state) (data : Bytes) :
    let drained := framer.drain (state.recvBuffer ++ data)
    let recvBuffer := if drained.refused then [] else drained.rest
    g.reassembleBlock fd data = (⟨drained.items, drained.rest, drained.refused⟩,
      { g with producers := g.producers.insert fd ⟨recvBuffer⟩ }) := by
  simp only [reassembleBlock, hstate, Option.getD_some, reassemble_eq]

namespace Removal

variable {r : Removal} {g : TcpServer}

/-- A removal makes no producer, and its second block leaves none under its number. -/
theorem advance_producers {fd : Fd} {state : ProducerState}
    (h : (r.advance g).2.producers[fd]? = some state) :
    g.producers[fd]? = some state ∧ (∀ shouldClose, r.stage = .tables shouldClose → r.fd ≠ fd) := by
  unfold advance at h
  split at h
  · exact ⟨h, fun _ hstage => by simp_all⟩
  · simp only [TcpServer.eraseTables, Std.TreeMap.getElem?_erase, Nat.compare_eq_eq] at h
    split at h
    · cases h
    · exact ⟨h, fun _ _ => ‹_›⟩
  · exact ⟨h, fun _ hstage => by simp_all⟩

theorem advance_pendingProbe {fd : Fd} {probe : Bytes}
    (h : (r.advance g).2.pendingProbe[fd]? = some probe) : g.pendingProbe[fd]? = some probe := by
  unfold advance at h
  split at h
  · exact h
  · simp only [TcpServer.eraseTables, Std.TreeMap.getElem?_erase] at h
    split at h
    · cases h
    · exact h
  · exact h

theorem contains_of_advance (r : Removal) {fd : Fd}
    (h : (r.advance g).2.viewers.contains fd = true) : g.viewers.contains fd = true := by
  simp only [ViewerTable.contains, Option.isSome_iff_exists] at h ⊢
  obtain ⟨v, hv⟩ := h
  exact ⟨v, (advance_viewers hv).1⟩

/-- After the first block of a removal there is a second. -/
theorem advance_viewers_some (h : r.stage = .viewers) :
    ∃ r', (r.advance g).1 = some r' ∧ r'.fd = r.fd := by
  simp only [advance, h]
  exact ⟨_, rfl, rfl⟩

end Removal

end EdgeVision
