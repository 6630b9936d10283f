import EdgeVision.Verify.Relay

/-!
# What the viewers get

The other side of the relay. Every frame handed on comes whole out of the bytes of some connection
(`Attributed`), and what a viewer's socket has accepted is, at any time and also after the viewer is
gone, the beginning of an opening made from the frames before its join and of frames handed on after
it, in order, each at most once and none in part but the last (`viewers_served`). `Delivers` is the
invariant: it keeps every viewer in the table at the end of a run of its stream that has sent just
what its socket accepted.
-/

namespace EdgeVision

open Lib

/-! ## A stream and its socket -/

/-- The `send`s of a round are events of the stream, and its wire grows by what they achieve. -/
theorem Stream.sendRound_wire (st : Stream) (outcomes : List SendOutcome) :
    ∃ st', Reaches step anyStep st st' ∧ st'.viewer = (st.viewer.sendRound outcomes).1 ∧
      st'.handled = st.handled ∧ st'.wire = st.wire ++ st.viewer.roundBytes outcomes := by
  induction outcomes generalizing st with
  | nil => exact ⟨st, Reaches.refl st, rfl, rfl, (List.append_nil _).symm⟩
  | cons outcome outcomes ih =>
    have hsent : ∃ st', Reaches step anyStep st st' ∧
        st'.viewer = (st.viewer.sendOnce outcome).1 ∧ st'.handled = st.handled ∧
        st'.wire = st.wire ++ (st.viewer.sendOnce outcome).2.1 :=
      ⟨_, (Reaches.refl st).tail (a := .send outcome) trivial rfl, rfl, rfl, rfl⟩
    obtain ⟨st', hst', hviewer, hhandled, hwire⟩ := hsent
    rcases h : st.viewer.sendOnce outcome with ⟨v, accepted, exit⟩
    rw [h] at hviewer hwire
    cases exit with
    | again =>
      obtain ⟨st'', hst'', hviewer', hhandled', hwire'⟩ := ih st'
      refine ⟨st'', hst'.trans hst'', ?_, hhandled'.trans hhandled, ?_⟩
      · rw [hviewer', hviewer]
        simp only [Viewer.sendRound, h]
      · rw [hwire', hwire, hviewer]
        simp only [Viewer.roundBytes, h, List.append_assoc]
    | stop =>
      exact ⟨st', hst', by simp only [Viewer.sendRound, h, hviewer], hhandled,
        by simp only [Viewer.roundBytes, h, hwire]⟩
    | dead =>
      exact ⟨st', hst', by simp only [Viewer.sendRound, h, hviewer], hhandled,
        by simp only [Viewer.roundBytes, h, hwire]⟩

/-- What a socket has accepted when the frames `done` have been broadcast: the beginning of an
opening made from the frames before the join and of frames from after it. -/
def Served (done : List Bytes) (wire : Bytes) : Prop :=
  ∃ before after later kept : List Bytes, done = before ++ after ++ later ∧
    kept.Sublist (Viewer.openingChunks (configOf before) (keyFrameOf before) ++ after) ∧
    wire <+: kept.flatten

namespace Served

variable {done : List Bytes} {wire : Bytes}

theorem nothing (done : List Bytes) : Served done [] :=
  ⟨[], done, [], [], (List.append_nil _).symm, List.nil_sublist _, List.nil_prefix⟩

/-- Later frames change nothing about what has been sent. -/
theorem append (h : Served done wire) (frames : List Bytes) : Served (done ++ frames) wire := by
  obtain ⟨before, after, later, kept, rfl, hkept, hwire⟩ := h
  exact ⟨before, after, later ++ frames, kept, by simp, hkept, hwire⟩

end Served

/-- When the frames `done` have been broadcast, `v` is at the end of a run of its stream that has
sent `wire`. -/
def Watching (done : List Bytes) (fd : Fd) (v : Viewer) (wire : Bytes) : Prop :=
  ∃ (before : List Bytes) (g : TcpServer) (st : Stream), done = before ++ st.handled ∧
    g.bootstrapConfig = configOf before ∧ g.bootstrapFrame = keyFrameOf before ∧
    Reaches Stream.step anyStep (Stream.start g fd) st ∧ st.viewer = v ∧ st.wire = wire

namespace Watching

variable {done : List Bytes} {fd : Fd} {v : Viewer} {wire : Bytes}

theorem made {g : TcpServer} (hconfig : g.bootstrapConfig = configOf done)
    (hframe : g.bootstrapFrame = keyFrameOf done) : Watching done fd (g.makeViewer fd) [] :=
  ⟨done, g, Stream.start g fd, (List.append_nil done).symm, hconfig, hframe, Reaches.refl _, rfl,
    rfl⟩

theorem queueFrame (h : Watching done fd v wire) {frame : Bytes} (hframe : frame ≠ []) :
    Watching (done ++ [frame]) fd (v.queueFrame frame) wire := by
  obtain ⟨before, g, st, rfl, hconfig, hkey, hst, rfl, rfl⟩ := h
  have hqueued := hst.tail (a := .frame ⟨frame, hframe⟩) trivial rfl
  exact ⟨before, g, _, List.append_assoc _ _ _, hconfig, hkey, hqueued, rfl, rfl⟩

theorem sendRound (h : Watching done fd v wire) (outcomes : List SendOutcome) :
    Watching done fd (v.sendRound outcomes).1 (wire ++ v.roundBytes outcomes) := by
  obtain ⟨before, g, st, rfl, hconfig, hkey, hst, rfl, rfl⟩ := h
  obtain ⟨st', hst', hviewer, hhandled, hwire⟩ := st.sendRound_wire outcomes
  exact ⟨before, g, st', by rw [hhandled], hconfig, hkey, hst.trans hst', hviewer, hwire⟩

/-- The run of the stream accounts for every byte. -/
theorem served (h : Watching done fd v wire) : Served done wire := by
  obtain ⟨before, g, st, rfl, hconfig, hkey, hst, rfl, rfl⟩ := h
  have hintact := Stream.intact_of_reaches hst
  have hsublist := hintact.sublist
  rw [Stream.opening, hconfig, hkey] at hsublist
  exact ⟨before, st.handled, [], st.kept, (List.append_nil _).symm, hsublist, hintact.wire_prefix⟩

end Watching

/-! ## Frames and where they come from -/

/-- Every frame handed on or on the way was brought by a read from some connection. -/
structure Attributed (s : System) (h : History) : Prop where
  source : s.epoll.upcoming ≠ [] → h.source ≠ none
  log : ∀ p ∈ h.log, p.1 ≠ none

namespace Attributed

variable {s t : System} {h : History} (hs : Attributed s h)
include hs

theorem keep (hupcoming : t.epoll.upcoming ≠ [] → s.epoll.upcoming ≠ []) : Attributed t h :=
  ⟨fun ht => hs.source (hupcoming ht), hs.log⟩

theorem step (htabled : s.Tabled) (hh : Heard s h) {a : Label} (hopen : System.ConnectionOpen s a)
    (ht : System.Transition s a t) : Attributed t (h.record s a) := by
  have hidle : (∀ frame frames, s.epoll ≠ .frames (frame :: frames)) → h.record s .epoll = h :=
    h.record_epoll
  cases ht with
  | wait hpc hbatch hreports => exact hs.keep id
  | listen hpc hbatch => exact hs.keep (by simp [EpollPc.upcoming])
  | hangUp hpc hbatch => exact hs.keep (by simp [EpollPc.upcoming])
  | readable hpc hbatch => exact hs.keep (by simp [EpollPc.upcoming])
  | accept hpc hclosed => exact ⟨by simp [EpollPc.upcoming], hs.log⟩
  | acceptNone hpc => exact hs.keep (by simp [EpollPc.upcoming])
  | @read fd result hpc hanswer =>
    cases result with
    | bytes buffer =>
      refine ⟨by simp [EpollPc.upcoming, System.afterRead], ?_⟩
      simp only [History.record, hpc]
      exact hs.log
    | _ => exact hs.keep (by simp [EpollPc.upcoming, System.afterRead])
  | @ready fd data conn hpc hvalid =>
    rw [hidle (by simp [hpc])]
    obtain ⟨-, state, -, hall⟩ := hh.heldBuffer hpc htabled hopen
    have hisOpen := (hopen fd (by rw [hpc]; rfl)).1
    rw [Std.TreeMap.contains_eq_isSome_getElem?, Option.isSome_iff_exists] at hisOpen
    obtain ⟨c, hc⟩ := hisOpen
    exact ⟨fun _ => by simp [(hall c hc).1], hs.log⟩
  | @cacheConfig frame frames hpc =>
    have hsource : h.source ≠ none := hs.source (by simp [hpc, EpollPc.upcoming])
    have hrecord : h.record s .epoll = { h with log := h.log ++ [(h.source, frame)] } := by
      simp only [History.record, hpc]
    rw [hrecord]
    refine ⟨fun _ => hsource, fun p hp => ?_⟩
    rcases List.mem_append.mp hp with hp | hp
    · exact hs.log p hp
    · rw [List.mem_singleton.mp hp]
      exact hsource
  | @queueFrame frame frames hpc =>
    rw [hidle (by simp [hpc])]
    refine hs.keep fun ht => ?_
    rw [EpollPc.removeDead_upcoming] at ht
    rwa [hpc]
  | @epollRemoval r dead frames hpc =>
    rw [hidle (by simp [hpc])]
    refine hs.keep fun ht => ?_
    rw [Removal.epollAfter_upcoming] at ht
    rwa [hpc]
  | round hpc => exact ⟨hs.source, hs.log⟩
  | senderRemoval hpc => exact hs.keep id
  | cacheIdr hpc =>
    rw [hidle (by simp [hpc])]
    exact hs.keep (by rw [hpc]; exact id)
  | _ hpc =>
    rw [hidle (by simp [hpc])]
    exact hs.keep (by simp [EpollPc.upcoming])

end Attributed

/-! ## The invariant -/

/-- A descriptor that is no viewer's and not being closed was neither before the block of a removal,
if it is still open. -/
theorem Removal.silent {r : Removal} {g : TcpServer} {fd : Fd} {c : Conn}
    (hopen : (r.advance g).2.sockets[fd]? = some c)
    (hviewer : (r.advance g).2.viewers.contains fd = false)
    (hclosing : (if r.closesNext g then some r.fd else none) ≠ some fd) :
    g.viewers.contains fd = false ∧ (if r.closes then some r.fd else none) ≠ some fd := by
  by_cases hfd : r.fd = fd
  · subst hfd
    have hnot : r.closesNext g = false := by
      cases hnext : r.closesNext g with
      | true => simp [hnext] at hclosing
      | false => rfl
    rw [r.closesNext_eq] at hnot
    cases hstage : r.stage with
    | viewers =>
      rw [hstage] at hnot
      exact ⟨hnot, by simp [closes, hstage]⟩
    | tables shouldClose =>
      simp only [hstage, Bool.or_eq_false_iff] at hnot
      simp only [advance, hstage, TcpServer.eraseTables] at hviewer
      exact ⟨hviewer, by simp [closes, hstage, hnot.1]⟩
    | close => simp [advance, hstage, TcpServer.closeSocket] at hopen
  · have hsame := congrArg Standing.viewer (r.advance_standing_ne g hfd false false false)
    simp only [TcpServer.standing] at hsame
    refine ⟨hsame ▸ hviewer, ?_⟩
    split <;> simp [hfd]

/-- What the sockets have accepted against the frames broadcast so far. -/
structure Delivers (s : System) (h : History) (done : List Bytes) : Prop where
  streaming : s.Streaming done
  /-- Nothing is sent to a connection before it is a viewer. -/
  silent : ∀ fd c, s.owner fd = some c → s.gateway.viewers.contains fd = false →
    s.epoll.closing ≠ some fd → s.sender.closing ≠ some fd → h.tx c = []
  watching : ∀ fd c v, s.owner fd = some c → s.gateway.viewers.find? fd = some v →
    Watching done fd v (h.tx c)
  joining : ∀ v, s.epoll = .join v → Watching done v.fd v []
  served : ∀ c, Served done (h.tx c)

/-- The frames broadcast are the frames handled that are not pending. -/
theorem System.Streaming.same {s t : System} {done done' more : List Bytes} (h : s.Streaming done)
    (h' : t.Streaming done') (hhandled : t.gateway.handled = s.gateway.handled ++ more)
    (hpending : t.epoll.pending = s.epoll.pending ++ more) : done' = done := by
  have heq := h'.handled
  rw [hhandled, h.handled, hpending, List.append_assoc] at heq
  exact (List.append_cancel_right heq).symm

namespace Delivers

variable {s t : System} {h h' : History} {done : List Bytes} (hd : Delivers s h done)
include hd

/-- A step that seats no viewer, closes none without notice and sends nothing. -/
theorem keep (hstreaming : t.Streaming done) (htx : h'.tx = h.tx)
    (howner : ∀ fd c, t.owner fd = some c → s.owner fd = some c)
    (hviewers : ∀ fd v, t.gateway.viewers.find? fd = some v →
      s.gateway.viewers.find? fd = some v)
    (hsilent : ∀ fd c, t.owner fd = some c → t.gateway.viewers.contains fd = false →
      t.epoll.closing ≠ some fd → t.sender.closing ≠ some fd →
        s.gateway.viewers.contains fd = false ∧ s.epoll.closing ≠ some fd ∧
          s.sender.closing ≠ some fd)
    (hjoining : ∀ v, t.epoll = .join v → Watching done v.fd v []) : Delivers t h' done := by
  refine ⟨hstreaming, fun fd c hc hv he hs => ?_, fun fd c v hc hv => ?_, hjoining, htx ▸ hd.served⟩
  · obtain ⟨hv, he, hs⟩ := hsilent fd c hc hv he hs
    rw [htx]
    exact hd.silent fd c (howner fd c hc) hv he hs
  · rw [htx]
    exact hd.watching fd c v (howner fd c hc) (hviewers fd v hv)

/-- A step of the epoll thread that leaves sockets and viewers alone. -/
theorem move {g : TcpServer} {pc : EpollPc} {batch : List Event} (htx : h'.tx = h.tx)
    (hstreaming : System.Streaming { s with gateway := g, epoll := pc, batch := batch } done)
    (hsockets : g.sockets = s.gateway.sockets) (hviewers : g.viewers = s.gateway.viewers)
    (hclosing : s.epoll.closing = none) (hjoining : ∀ v, pc = .join v → Watching done v.fd v []) :
    Delivers { s with gateway := g, epoll := pc, batch := batch } h' done := by
  refine hd.keep hstreaming htx (fun fd c hc => ?_) (fun fd v hv => hviewers ▸ hv)
    (fun fd c _ hv _ hs => ⟨hviewers ▸ hv, by simp [hclosing], hs⟩) hjoining
  simp only [System.owner, hsockets] at hc
  exact hc

theorem accept (hk : Known s h) (htabled : s.Tabled) {fd : Fd} (hpc : s.epoll = .accepting)
    (hclosed : s.gateway.sockets.contains fd = false)
    (hstreaming : System.Streaming { s with
      gateway := s.gateway.openSocket fd s.nextConn
      nextConn := s.nextConn + 1
      epoll := .accepted fd } done) :
    Delivers { s with
      gateway := s.gateway.openSocket fd s.nextConn
      nextConn := s.nextConn + 1
      epoll := .accepted fd } (h.record s (.accept fd)) done := by
  have hlife := Standing.eq_closed (htabled.lawful fd) hclosed
  have hviewer : s.gateway.viewers.contains fd = false := congrArg Standing.viewer hlife
  have hnow : ∀ fd' c, (s.gateway.openSocket fd s.nextConn).sockets[fd']? = some c →
      (fd = fd' ∧ h.tx c = []) ∨ s.owner fd' = some c := by
    intro fd' c hc
    simp only [TcpServer.openSocket, Std.TreeMap.getElem?_insert, Nat.compare_eq_eq] at hc
    split at hc
    · exact .inl ⟨‹_›, (hk.fresh c (Nat.le_of_eq (Option.some.inj hc))).2.1⟩
    · exact .inr hc
  refine ⟨hstreaming, fun fd' c hc hv _ hs => ?_, fun fd' c v hc hv => ?_, by simp, hd.served⟩
  · rcases hnow fd' c hc with ⟨-, htx⟩ | hc
    · exact htx
    · exact hd.silent fd' c hc hv (by simp [hpc, EpollPc.closing]) hs
  · rcases hnow fd' c hc with ⟨rfl, -⟩ | hc
    · rw [ViewerTable.contains, show s.gateway.viewers.find? fd = some v from hv] at hviewer
      cases hviewer
    · exact hd.watching fd' c v hc hv

/-- The guest takes a seat: nothing has been sent to its connection. -/
theorem join (htabled : s.Tabled) {viewer : Viewer} (hpc : s.epoll = .join viewer)
    (hstreaming : System.Streaming { s with gateway := s.gateway.seat viewer, epoll := .idle }
      done) : Delivers { s with gateway := s.gateway.seat viewer, epoll := .idle } h done := by
  have hlife := Standing.eq_inHand (htabled.lawful viewer.fd)
    (by simp [System.standing, TcpServer.standing, hpc, EpollPc.inHand])
  simp only [System.standing, TcpServer.standing, Life.standing, Standing.mk.injEq,
    beq_eq_false_iff_ne] at hlife
  obtain ⟨hviewer, -, -, -, hepoll, hsender, -⟩ := hlife
  refine ⟨hstreaming, fun fd c hc hv _ hs => ?_, fun fd c v hc hv => ?_, by simp, hd.served⟩
  · refine hd.silent fd c hc ?_ (by simp [hpc, EpollPc.closing]) hs
    simp only [TcpServer.seat, ViewerTable.contains_insert, Bool.or_eq_false_iff] at hv
    exact hv.2
  · simp only [TcpServer.seat, ViewerTable.find?_insert] at hv
    split at hv
    · rename_i hfd
      cases hv
      subst hfd
      rw [hd.silent viewer.fd c hc hviewer hepoll hsender]
      exact hd.joining viewer hpc
    · exact hd.watching fd c v hc hv

theorem queueFrame {frame : Bytes} {frames : List Bytes} (hpc : s.epoll = .queueFrame frame frames)
    (hframe : frame ≠ []) {dead : List (Fd × Option Conn)} :
    Delivers { s with
      gateway := (s.gateway.broadcast frame).2
      epoll := .removeDead frames dead } h (done ++ [frame]) := by
  have hquiet := EpollPc.removeDead_quiet frames dead
  refine ⟨hd.streaming.queueFrame hpc hframe rfl hquiet, fun fd c hc hv _ hs => ?_,
    fun fd c v hc hv => ?_, fun v hv => absurd hv ((EpollPc.of_quiet hquiet).2.2 v),
    fun c => (hd.served c).append [frame]⟩
  · refine hd.silent fd c hc ?_ (by simp [hpc, EpollPc.closing]) hs
    simpa [TcpServer.broadcast] using hv
  · simp only [TcpServer.broadcast, ViewerTable.find?_update, Option.map_eq_some_iff] at hv
    obtain ⟨w, hw, rfl⟩ := hv
    exact (hd.watching fd c w hc hw).queueFrame hframe

/-- A round: the socket of a viewer's connection accepts what its `send`s achieve. -/
theorem round (hk : Known s h) {outcomes : Fd → List SendOutcome} (hpc : s.sender = .idle)
    (hstreaming : System.Streaming { s with
      gateway := (s.gateway.senderRound outcomes).2
      sender := .removeDead ((s.gateway.senderRound outcomes).1.map fun fd => (fd, s.owner fd))
      failedConn := fun fd =>
        if fd ∈ (s.gateway.senderRound outcomes).1 then s.owner fd else s.failedConn fd } done) :
    Delivers { s with
      gateway := (s.gateway.senderRound outcomes).2
      sender := .removeDead ((s.gateway.senderRound outcomes).1.map fun fd => (fd, s.owner fd))
      failedConn := fun fd =>
        if fd ∈ (s.gateway.senderRound outcomes).1 then s.owner fd else s.failedConn fd }
      (h.record s (.round outcomes)) done := by
  have hviewer : ∀ fd c v, s.owner fd = some c → s.gateway.viewers.find? fd = some v →
      h.accepted s outcomes c = v.roundBytes (s.gateway.answers outcomes fd) := by
    intro fd c v hc hv
    simp only [History.accepted, hk.number fd c hc, hc, if_true, hv]
  have hidle : s.sender.closing = none := by rw [hpc]; rfl
  refine ⟨hstreaming, fun fd c hc hv he _ => ?_, fun fd c v hc hv => ?_, hd.joining, fun c => ?_⟩
  · have hcontains : s.gateway.viewers.contains fd = false := by
      simpa [TcpServer.senderRound] using hv
    have hnone : s.gateway.viewers.find? fd = none := by
      simpa [ViewerTable.contains] using hcontains
    have htx := hd.silent fd c hc hcontains he (by simp [hidle])
    have hc' : s.owner fd = some c := hc
    simp [History.record, History.accepted, htx, hk.number fd c hc', hc', hnone]
  · simp only [TcpServer.senderRound, ViewerTable.find?_update, Option.map_eq_some_iff] at hv
    obtain ⟨w, hw, rfl⟩ := hv
    have hround := (hd.watching fd c w hc hw).sendRound (s.gateway.answers outcomes w.fd)
    simp only [History.record]
    rw [hviewer fd c w hc hw, ← s.gateway.viewers.keyed hw]
    rw [s.gateway.viewers.keyed hw] at hround ⊢
    exact hround
  · simp only [History.record]
    cases hn : h.number c with
    | none => simpa [History.accepted, hn] using hd.served c
    | some fd =>
      by_cases hc : s.owner fd = some c
      · cases hv : s.gateway.viewers.find? fd with
        | none => simpa [History.accepted, hn, hv] using hd.served c
        | some v =>
          rw [hviewer fd c v hc hv]
          exact ((hd.watching fd c v hc hv).sendRound _).served
      · simpa [History.accepted, hn, hc] using hd.served c

/-- A block of the epoll thread's removal. -/
theorem epollRemoval {r : Removal} {dead : List (Fd × Option Conn)} {frames : List Bytes}
    (hpc : s.epoll = .removing r dead frames)
    (hstreaming : System.Streaming { s with
      gateway := (r.advance s.gateway).2
      epoll := r.epollAfter s.gateway dead frames } done) :
    Delivers { s with
      gateway := (r.advance s.gateway).2
      epoll := r.epollAfter s.gateway dead frames } h done := by
  refine hd.keep hstreaming rfl (fun _ _ hc => Removal.advance_sockets hc)
    (fun _ _ hv => (Removal.advance_viewers hv).1) (fun fd c hc hv he hs => ?_) fun v hv =>
      absurd hv ((EpollPc.of_quiet (r.epollAfter_quiet _ _ _)).2.2 v)
  simp only [Removal.epollAfter_closing] at he
  obtain ⟨hold, hcloses⟩ := Removal.silent hc hv he
  exact ⟨hold, by simpa [hpc, EpollPc.closing] using hcloses, hs⟩

/-- A block of the sender thread's removal. -/
theorem senderRemoval {r : Removal} {dead : List (Fd × Option Conn)}
    (hpc : s.sender = .removing r dead)
    (hstreaming : System.Streaming { s with
      gateway := (r.advance s.gateway).2
      sender := r.senderAfter s.gateway dead } done) :
    Delivers { s with
      gateway := (r.advance s.gateway).2
      sender := r.senderAfter s.gateway dead } h done := by
  refine hd.keep hstreaming rfl (fun _ _ hc => Removal.advance_sockets hc)
    (fun _ _ hv => (Removal.advance_viewers hv).1) (fun fd c hc hv he hs => ?_) hd.joining
  simp only [Removal.senderAfter_closing] at hs
  obtain ⟨hold, hcloses⟩ := Removal.silent hc hv hs
  exact ⟨hold, he, by simpa [hpc, SenderPc.closing] using hcloses⟩

/-- **Every step keeps the sockets in line with the frames broadcast.** -/
theorem step (hk : Known s h) (htabled : s.Tabled) (hb : s.Bounded) {a : Label}
    (ht : System.Transition s a t) : ∃ done', Delivers t (h.record s a) done' := by
  obtain ⟨done', hstreaming⟩ := hd.streaming.step hb ht
  have hidle : (∀ frame frames, s.epoll ≠ .frames (frame :: frames)) → h.record s .epoll = h :=
    h.record_epoll
  -- all steps but the broadcast leave the frames broadcast as they are
  have hsame : ∀ more, t.gateway.handled = s.gateway.handled ++ more →
      t.epoll.pending = s.epoll.pending ++ more → t.Streaming done := fun more hhandled hpending =>
    hd.streaming.same hstreaming hhandled hpending ▸ hstreaming
  cases ht with
  | wait hpc hbatch hreports =>
    exact ⟨done, hd.keep (hsame [] (by simp) (by simp)) rfl (fun _ _ hc => hc) (fun _ _ hv => hv)
      (fun _ _ _ hv he hs => ⟨hv, he, hs⟩) hd.joining⟩
  | listen hpc hbatch =>
    exact ⟨done, hd.move rfl (hsame [] (by simp) (by simp [hpc, EpollPc.pending])) rfl rfl
      (by rw [hpc]; rfl) (by simp)⟩
  | hangUp hpc hbatch =>
    exact ⟨done, hd.move rfl (hsame [] (by simp) (by simp [hpc, EpollPc.pending])) rfl rfl
      (by rw [hpc]; rfl) (by simp)⟩
  | readable hpc hbatch =>
    exact ⟨done, hd.move rfl (hsame [] (by simp) (by simp [hpc, EpollPc.pending])) rfl rfl
      (by rw [hpc]; rfl) (by simp)⟩
  | accept hpc hclosed =>
    exact ⟨done, hd.accept hk htabled hpc hclosed
      (hsame [] (by simp [TcpServer.openSocket]) (by simp [hpc, EpollPc.pending]))⟩
  | acceptNone hpc =>
    exact ⟨done, hd.move rfl (hsame [] (by simp) (by simp [hpc, EpollPc.pending])) rfl rfl
      (by rw [hpc]; rfl) (by simp)⟩
  | @read fd result hpc hanswer =>
    have hpending : (s.afterRead fd result).pending = [] ∧ ∀ v, s.afterRead fd result ≠ .join v := by
      cases result <;> simp [System.afterRead, EpollPc.pending]
    have htx : (h.record s (.read result)).tx = h.tx := by
      cases result <;> simp only [History.record, hpc]
      rfl
    have hsent := hsame [] (by simp) (by rw [hpc]; exact hpending.1)
    exact ⟨done, hd.move htx hsent rfl rfl (by rw [hpc]; rfl)
      fun v hv => absurd hv (hpending.2 v)⟩
  | bootstrap hpc =>
    rw [hidle (by simp [hpc])]
    have ht := hsame [] (by simp) (by simp [hpc, EpollPc.pending])
    have hhandled : s.gateway.handled = done := by
      rw [hd.streaming.handled, hpc]
      exact List.append_nil done
    have hkeyFrame : s.gateway.bootstrapFrame = keyFrameOf done := by
      rw [hd.streaming.keyFrame, hpc]
      simp [EpollPc.cached]
    refine ⟨done, hd.move rfl ht rfl rfl (by rw [hpc]; rfl) ?_⟩
    rintro v hv
    cases hv
    exact Watching.made (hhandled ▸ hd.streaming.config) hkeyFrame
  | join hpc =>
    rw [hidle (by simp [hpc])]
    exact ⟨done, hd.join htabled hpc
      (hsame [] (by simp [TcpServer.seat]) (by simp [hpc, EpollPc.pending]))⟩
  | @cacheConfig frame frames hpc =>
    have hrecord : h.record s .epoll = { h with log := h.log ++ [(h.source, frame)] } := by
      simp only [History.record, hpc]
    rw [hrecord]
    exact ⟨done, hd.move rfl (hsame [frame] rfl (by simp [hpc, EpollPc.pending])) rfl rfl
      (by rw [hpc]; rfl) (by simp)⟩
  | @queueFrame frame frames hpc =>
    rw [hidle (by simp [hpc])]
    have hvalid : ValidFrame frame := hb.inFlight frame (by rw [hpc]; exact List.mem_cons_self)
    exact ⟨done ++ [frame], hd.queueFrame hpc (List.length_pos_iff.mp hvalid.1)⟩
  | @epollRemoval r dead frames hpc =>
    rw [hidle (by simp [hpc])]
    have hpending := (EpollPc.of_quiet (r.epollAfter_quiet s.gateway dead frames)).1
    refine ⟨done, hd.epollRemoval hpc (hsame [] ?_ ?_)⟩
    · rw [List.append_nil]
      exact (r.advance_leaves s.gateway).handled
    · rw [hpc]
      exact hpending
  | round hpc =>
    exact ⟨done, hd.round hk hpc (hsame [] (by simp [TcpServer.senderRound]) (by simp))⟩
  | @senderRemoval r dead hpc =>
    refine ⟨done, hd.senderRemoval hpc (hsame [] ?_ (by simp))⟩
    rw [List.append_nil]
    exact (r.advance_leaves s.gateway).handled
  | @invalid fd data conn hpc hinvalid =>
    rw [hidle (by simp [hpc])]
    exact ⟨done, hd.move rfl (hsame [] (by simp [TcpServer.reassembleBlock])
      (by simp [hpc, EpollPc.pending])) rfl rfl (by rw [hpc]; rfl) (by simp)⟩
  | @ready fd data conn hpc hvalid =>
    rw [hidle (by simp [hpc])]
    exact ⟨done, hd.move rfl (hsame [] (by simp [TcpServer.reassembleBlock])
      (by simp [hpc, EpollPc.pending])) rfl rfl (by rw [hpc]; rfl) (by simp)⟩
  | accepted hpc | isViewer hpc | notViewer hpc | isProducer hpc | notProducer hpc | undecided hpc
  | becomeViewer hpc | becomeProducer hpc | framesDone hpc | cacheIdr hpc =>
    rw [hidle (by simp [hpc])]
    exact ⟨done, hd.move rfl (hsame [] (by simp [TcpServer.startProbe, TcpServer.cacheIdr])
      (by simp [hpc, EpollPc.pending])) rfl rfl (by rw [hpc]; rfl) (by simp)⟩

end Delivers

/-! ## Every reachable state -/

namespace Relay

variable {r : Relay}

/-- The invariants of both sides. -/
structure Delivering (r : Relay) : Prop where
  hearing : r.Hearing
  attributed : Attributed r.system r.history
  delivers : ∃ done, Delivers r.system r.history done

theorem initial_delivering : initial.Delivering := by
  refine ⟨initial_hearing, ⟨fun hup => absurd rfl hup, fun p hp => by cases hp⟩, [], ?_⟩
  refine ⟨System.initial_streaming, fun _ _ _ _ _ _ => rfl, fun fd c v hc _ => ?_,
    (fun v hv => by cases hv), fun _ => Served.nothing []⟩
  simp [initial, System.owner, System.initial, TcpServer.initial] at hc

theorem Delivering.step {r' : Relay} {a : Label} (h : r.Delivering) (hopen : r.ConnectionOpen a)
    (hstep : r.step a = some r') : r'.Delivering := by
  obtain ⟨t, ht, rfl⟩ := Option.map_eq_some_iff.mp hstep
  have htransition := System.transition_of_step ht
  obtain ⟨done, hdelivers⟩ := h.delivers
  exact ⟨h.hearing.step hopen hstep,
    h.attributed.step h.hearing.tabled h.hearing.heard hopen htransition,
    hdelivers.step h.hearing.known h.hearing.tabled h.hearing.bounded htransition⟩

theorem delivering_of_reaches (h : Reaches step ConnectionOpen initial r) : r.Delivering :=
  h.invariant initial_delivering fun _ _ _ hr hopen hstep => hr.step hopen hstep

/-- A frame handed on comes whole out of some connection's bytes. -/
theorem Delivering.frame_heard (h : r.Delivering) {frame : Bytes}
    (hframe : frame ∈ r.system.gateway.handled) :
    ∃ c, frame ∈ (framer.drain (r.history.rx c)).items := by
  rw [h.hearing.heard.handled] at hframe
  obtain ⟨p, hp, rfl⟩ := List.mem_map.mp hframe
  obtain ⟨c, hc⟩ := Option.ne_none_iff_exists'.mp (h.attributed.log p hp)
  refine ⟨c, (h.hearing.frames_prefix c).mem ?_⟩
  exact List.mem_map.mpr ⟨p, List.mem_filter.mpr ⟨hp, by simp [hc]⟩, rfl⟩

/-- **What the viewers get**: in every run in which the epoll thread enters read bytes only for a
connection that is open and not being closed by the sender, and for every connection that there ever
was, the bytes that its socket has accepted begin with an opening made from the frames handed on
before it joined, go on with frames handed on later, in order, none twice, and stop in at most one of
them; and every frame handed on comes whole out of the bytes of some connection. -/
theorem viewers_served (h : Reaches step ConnectionOpen initial r) (c : Conn) :
    (∃ before after later kept : List Bytes,
      r.system.gateway.handled = before ++ after ++ later ∧
      kept.Sublist (Viewer.openingChunks (configOf before) (keyFrameOf before) ++ after) ∧
      r.history.tx c <+: kept.flatten) ∧
    ∀ frame ∈ r.system.gateway.handled, ∃ c', frame ∈ (framer.drain (r.history.rx c')).items := by
  have hdelivering := delivering_of_reaches h
  obtain ⟨done, hdelivers⟩ := hdelivering.delivers
  refine ⟨?_, fun frame hframe => hdelivering.frame_heard hframe⟩
  rw [hdelivers.streaming.handled]
  exact (hdelivers.served c).append _

/-- A viewer that joins before a camera's frame and is sent the header and the frame. -/
theorem viewers_served_frame : ∃ r : Relay, Reaches step ConnectionOpen initial r ∧
    r.history.tx 0 = Viewer.httpHeader ++ [0xAA] ∧
    (∃ before after later kept : List Bytes,
      r.system.gateway.handled = before ++ after ++ later ∧
      kept.Sublist (Viewer.openingChunks (configOf before) (keyFrameOf before) ++ after) ∧
      r.history.tx 0 <+: kept.flatten) ∧
    ∀ frame ∈ r.system.gateway.handled, ∃ c', frame ∈ (framer.drain (r.history.rx c')).items := by
  have hrun : (runLabels step ConnectionOpen initial
      (System.joinLabels 7 ++ cameraLabels 8 [0, 0, 0, 1, 0xAA] ++ [.epoll, .epoll, .epoll, .epoll,
        .round fun _ => [.accepts 4096, .accepts 4096]])).map (fun r => r.history.tx 0) =
      some (Viewer.httpHeader ++ [0xAA]) := by
    decide +kernel
  obtain ⟨r, hr, htx⟩ := Reaches.exists_of_runLabels hrun
  exact ⟨r, hr, htx, viewers_served hr 0⟩

end Relay

end EdgeVision
