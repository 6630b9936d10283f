import EdgeVision.Verify.Connections

/-!
# What the gateway makes of each connection's bytes

Many cameras and viewers at once, both threads interleaved. As long as the epoll thread enters what
it has read only for a connection that is open and not being closed (`ConnectionOpen`), the frames
handed on from a connection are those its own bytes decompose into, from the first one on and in
order (`frames_of_connection`). Between two events the tables show of every connection exactly what
its bytes decompose to (`connections_shown`), and what is handed on from a camera are its packets
(`cameras_relayed`).

`Heard` is the invariant. For a producer it says that the frames taken off, together with those in
the bytes that are held or just read, are the frames of everything read (`Producing`).
-/

namespace EdgeVision

open Lib

/-! ## The invariant -/

/-- What the tables and the epoll thread hold under a number, against the bytes of the connection
that it belongs to. -/
structure Hears (s : System) (h : History) (fd : Fd) (c : Conn) : Prop where
  /-- A read is handled for the connection that it was made from. -/
  target : s.epoll.target = some fd → h.source = some c
  newcomer : s.epoll.newcomer = some fd → h.rx c = []
  probing : ∀ probe, s.gateway.pendingProbe[fd]? = some probe →
    h.rx c = probe ++ s.epoll.unentered fd ∧ h.taken s.epoll c = []
  producing : ∀ state, s.gateway.producers[fd]? = some state → s.epoll.removed ≠ some fd →
    Producing (h.rx c) (h.taken s.epoll c) (state.recvBuffer ++ s.epoll.unentered fd)
  guest : s.epoll.guest = some fd → getRequest <+: h.rx c
  watching : s.gateway.viewers.contains fd = true → getRequest <+: h.rx c

structure Heard (s : System) (h : History) : Prop where
  hears : ∀ fd c, s.owner fd = some c → Hears s h fd c
  taken : ∀ c, h.taken s.epoll c <+: (framer.drain (h.rx c)).items
  handled : s.gateway.handled = h.log.map Prod.snd

/-- A step that leaves a number alone: no new entry under it, no read of it taken up, and nothing
written about its connection. An entry whose bytes are no longer at hand must be gone. -/
theorem Hears.keep {s t : System} {h h' : History} {fd : Fd} {c : Conn} (hears : Hears s h fd c)
    (hrx : h'.rx c = h.rx c) (htaken : h'.taken t.epoll c = h.taken s.epoll c)
    (htarget : t.epoll.target = some fd → s.epoll.target = some fd ∧ h'.source = h.source)
    (hnewcomer : t.epoll.newcomer = some fd → s.epoll.newcomer = some fd)
    (hprobe : ∀ probe, t.gateway.pendingProbe[fd]? = some probe →
      s.gateway.pendingProbe[fd]? = some probe ∧ t.epoll.unentered fd = s.epoll.unentered fd)
    (hproducers : ∀ state, t.gateway.producers[fd]? = some state → t.epoll.removed ≠ some fd →
      s.gateway.producers[fd]? = some state ∧ s.epoll.removed ≠ some fd ∧
        t.epoll.unentered fd = s.epoll.unentered fd)
    (hguest : t.epoll.guest = some fd → s.epoll.guest = some fd)
    (hviewers : t.gateway.viewers.contains fd = true → s.gateway.viewers.contains fd = true) :
    Hears t h' fd c := by
  refine ⟨?_, ?_, ?_, ?_, ?_, ?_⟩
  · intro hfd
    obtain ⟨hfd, hsource⟩ := htarget hfd
    exact hsource.trans (hears.target hfd)
  · exact fun hfd => hrx.trans (hears.newcomer (hnewcomer hfd))
  · intro probe hp
    obtain ⟨hp, hunentered⟩ := hprobe probe hp
    rw [hrx, htaken, hunentered]
    exact hears.probing probe hp
  · intro state hp hremoved
    obtain ⟨hp, hremoved, hunentered⟩ := hproducers state hp hremoved
    rw [hrx, htaken, hunentered]
    exact hears.producing state hp hremoved
  · exact fun hfd => hrx ▸ hears.guest (hguest hfd)
  · exact fun hv => hrx ▸ hears.watching (hviewers hv)

/-- Under a number in no table there is nothing to keep but the connection's first bytes. -/
theorem Hears.of_none {s : System} {h : History} {fd : Fd} {c : Conn}
    (hprobe : s.gateway.pendingProbe.contains fd = false)
    (hproducers : s.gateway.producers.contains fd = false)
    (hviewers : s.gateway.viewers.contains fd = false) (htarget : s.epoll.target ≠ some fd)
    (hnewcomer : s.epoll.newcomer = some fd → h.rx c = [])
    (hguest : s.epoll.guest = some fd → getRequest <+: h.rx c) : Hears s h fd c := by
  rw [Std.TreeMap.contains_eq_isSome_getElem?] at hprobe hproducers
  refine ⟨fun hfd => absurd hfd htarget, hnewcomer, fun probe hp => ?_, fun state hp => ?_, hguest,
    fun hv => ?_⟩
  · rw [hp] at hprobe
    cases hprobe
  · rw [hp] at hproducers
    cases hproducers
  · rw [hv] at hviewers
    cases hviewers

namespace Heard

variable {s t : System} {h : History} (hh : Heard s h)
include hh

/-- A step that leaves all numbers alone. -/
theorem keep (howner : ∀ fd c, t.owner fd = some c → s.owner fd = some c)
    (htarget : ∀ fd, t.epoll.target = some fd → s.epoll.target = some fd)
    (hnewcomer : ∀ fd, t.epoll.newcomer = some fd → s.epoll.newcomer = some fd)
    (hprobe : ∀ (fd : Fd) probe, t.gateway.pendingProbe[fd]? = some probe →
      s.gateway.pendingProbe[fd]? = some probe ∧ t.epoll.unentered fd = s.epoll.unentered fd)
    (hproducers : ∀ (fd : Fd) state, t.gateway.producers[fd]? = some state →
      t.epoll.removed ≠ some fd → s.gateway.producers[fd]? = some state ∧
        s.epoll.removed ≠ some fd ∧ t.epoll.unentered fd = s.epoll.unentered fd)
    (hguest : ∀ fd, t.epoll.guest = some fd → s.epoll.guest = some fd)
    (hviewers : ∀ fd, t.gateway.viewers.contains fd = true →
      s.gateway.viewers.contains fd = true)
    (hupcoming : t.epoll.upcoming = s.epoll.upcoming)
    (hhandled : t.gateway.handled = s.gateway.handled) : Heard t h := by
  have htaken := h.taken_congr hupcoming
  refine ⟨fun fd c hc => ?_, fun c => htaken c ▸ hh.taken c, hhandled.trans hh.handled⟩
  exact (hh.hears fd c (howner fd c hc)).keep rfl (htaken c) (fun hfd => ⟨htarget fd hfd, rfl⟩)
    (hnewcomer fd) (hprobe fd) (hproducers fd) (hguest fd) (hviewers fd)

/-- A step of the epoll thread that leaves the gateway alone and the bytes at hand as they are. -/
theorem move {pc pc' : EpollPc} {batch : List Event} (hpc : s.epoll = pc)
    (htarget : pc'.target = pc.target) (hbuffer : pc'.buffer = pc.buffer)
    (hremoved : pc.removed = none) (hnewcomer : pc'.newcomer = none)
    (hguest : ∀ fd, pc'.guest = some fd → pc.guest = some fd)
    (hupcoming : pc'.upcoming = pc.upcoming) :
    Heard { s with epoll := pc', batch := batch } h := by
  subst hpc
  have hunentered : ∀ fd, pc'.unentered fd = s.epoll.unentered fd := fun fd => by
    simp only [EpollPc.unentered, htarget, hbuffer]
  apply hh.keep (t := { s with epoll := pc', batch := batch }) (fun _ _ hc => hc)
    (fun fd hfd => htarget ▸ hfd) (fun fd hfd => ?_) (fun fd _ hp => ⟨hp, hunentered fd⟩)
    (fun fd _ hp _ => ⟨hp, by simp [hremoved], hunentered fd⟩) hguest (fun _ hv => hv) hupcoming rfl
  simp only [hnewcomer] at hfd
  cases hfd

/-- A step that adds no entry and leaves the epoll thread with nothing at hand, as it was before. -/
theorem settle (htarget : s.epoll.target = none) (hclear : t.epoll.Clear)
    (howner : ∀ fd c, t.owner fd = some c → s.owner fd = some c)
    (hprobe : ∀ (fd : Fd) probe, t.gateway.pendingProbe[fd]? = some probe →
      s.gateway.pendingProbe[fd]? = some probe)
    (hproducers : ∀ (fd : Fd) state, t.gateway.producers[fd]? = some state →
      t.epoll.removed ≠ some fd → s.gateway.producers[fd]? = some state ∧
        s.epoll.removed ≠ some fd)
    (hviewers : ∀ fd, t.gateway.viewers.contains fd = true →
      s.gateway.viewers.contains fd = true)
    (hupcoming : t.epoll.upcoming = s.epoll.upcoming)
    (hhandled : t.gateway.handled = s.gateway.handled) : Heard t h := by
  have hunentered : ∀ fd, t.epoll.unentered fd = s.epoll.unentered fd := fun fd => by
    rw [hclear.unentered, EpollPc.unentered, htarget]
    rfl
  refine hh.keep howner (fun fd hfd => ?_) (fun fd hfd => ?_)
    (fun fd probe hp => ⟨hprobe fd probe hp, hunentered fd⟩)
    (fun fd state hp hremoved => ?_) (fun fd hfd => ?_) hviewers hupcoming hhandled
  · simp [hclear.target] at hfd
  · simp [hclear.newcomer] at hfd
  · obtain ⟨hold, hkept⟩ := hproducers fd state hp hremoved
    exact ⟨hold, hkept, hunentered fd⟩
  · simp [hclear.guest] at hfd

/-- A block of the epoll thread on the one descriptor that it has at hand. -/
theorem block (fd : Fd) {g : TcpServer} {pc : EpollPc} (hremoved : s.epoll.removed = none)
    (hfrom : ∀ fd', s.epoll.target = some fd' → fd = fd')
    (hto : ∀ fd', pc.target = some fd' ∨ pc.newcomer = some fd' ∨ pc.guest = some fd' → fd = fd')
    (hprobe : ∀ fd', fd ≠ fd' → g.pendingProbe[fd']? = s.gateway.pendingProbe[fd']?)
    (hproducers : ∀ fd', fd ≠ fd' → g.producers[fd']? = s.gateway.producers[fd']?)
    (hviewers : ∀ fd', fd ≠ fd' → g.viewers.contains fd' = s.gateway.viewers.contains fd')
    (hsockets : g.sockets = s.gateway.sockets) (hhandled : g.handled = s.gateway.handled)
    (htaken : ∀ c, s.owner fd ≠ some c → h.taken pc c = h.taken s.epoll c)
    (hhere : ∀ c, s.owner fd = some c → Hears { s with gateway := g, epoll := pc } h fd c ∧
      h.taken pc c <+: (framer.drain (h.rx c)).items) (hk : Known s h) :
    Heard { s with gateway := g, epoll := pc } h := by
  have howner : ∀ fd' c, g.sockets[fd']? = some c → s.owner fd' = some c := by
    intro fd' c hc
    rwa [hsockets] at hc
  refine ⟨fun fd' c hc => ?_, fun c => ?_, hhandled.trans hh.handled⟩
  · by_cases hfd : fd = fd'
    · subst hfd
      exact (hhere c (howner fd c hc)).1
    · have hunentered : pc.unentered fd' = s.epoll.unentered fd' := by
        rw [EpollPc.unentered, EpollPc.unentered, if_neg fun heq => hfd (hto fd' (.inl heq)),
          if_neg fun heq => hfd (hfrom fd' heq)]
      have hother : s.owner fd ≠ some c := fun heq => hfd (hk.inj heq (howner fd' c hc))
      refine (hh.hears fd' c (howner fd' c hc)).keep rfl (htaken c hother)
        (fun heq => absurd (hto fd' (.inl heq)) hfd)
        (fun heq => absurd (hto fd' (.inr (.inl heq))) hfd)
        (fun probe hp => ⟨(hprobe fd' hfd).symm.trans hp, hunentered⟩)
        (fun state hp _ => ⟨(hproducers fd' hfd).symm.trans hp, by simp [hremoved], hunentered⟩)
        (fun heq => absurd (hto fd' (.inr (.inr heq))) hfd)
        (fun hv => (hviewers fd' hfd).symm.trans hv)
  · by_cases hc : s.owner fd = some c
    · exact (hhere c hc).2
    · exact htaken c hc ▸ hh.taken c

/-- Nothing has been read from a newcomer. -/
theorem accept (hk : Known s h) (htabled : s.Tabled) {fd : Fd} (hpc : s.epoll = .accepting)
    (hclosed : s.gateway.sockets.contains fd = false) :
    Heard { s with
      gateway := s.gateway.openSocket fd s.nextConn
      nextConn := s.nextConn + 1
      epoll := .accepted fd } (h.record s (.accept fd)) := by
  have hlife := Standing.eq_closed (htabled.lawful fd) hclosed
  simp only [System.standing, TcpServer.standing, Life.standing, Standing.mk.injEq] at hlife
  obtain ⟨hviewer, hproducer, hprobe, -⟩ := hlife
  have htaken : ∀ c, (h.record s (.accept fd)).taken (.accepted fd) c = h.taken s.epoll c := by
    intro c
    rw [hpc]
    rfl
  refine ⟨fun fd' c hc => ?_, fun c => htaken c ▸ hh.taken c, hh.handled⟩
  simp only [System.owner, TcpServer.openSocket, Std.TreeMap.getElem?_insert,
    Nat.compare_eq_eq] at hc
  split at hc
  · rename_i hfd
    subst hfd
    have hfresh := (hk.fresh c (Nat.le_of_eq (Option.some.inj hc))).1
    exact Hears.of_none hprobe hproducer hviewer (by simp [EpollPc.target]) (fun _ => hfresh)
      (by simp [EpollPc.guest])
  · rename_i hfd
    have hidle : s.epoll.unentered fd' = [] ∧ s.epoll.removed = none := by rw [hpc]; exact ⟨rfl, rfl⟩
    refine (hh.hears fd' c hc).keep rfl (htaken c) (by simp [EpollPc.target])
      (by simp [EpollPc.newcomer, hfd]) (fun _ hp => ⟨hp, ?_⟩) (fun _ hp _ => ⟨hp, ?_, ?_⟩)
      (by simp [EpollPc.guest]) (fun hv => hv)
    · exact hidle.1.symm
    · simp [hidle.2]
    · exact hidle.1.symm

/-- The newcomer's probe is empty, as are the bytes read from it. -/
theorem startProbe (hk : Known s h) {fd : Fd} (hpc : s.epoll = .accepted fd) :
    Heard { s with gateway := s.gateway.startProbe fd, epoll := .accepting } h := by
  have htaken : ∀ c, h.taken .accepting c = h.taken s.epoll c := h.taken_congr (by rw [hpc]; rfl)
  have hidle : s.epoll.unentered fd = [] ∧ s.epoll.removed = none := by rw [hpc]; exact ⟨rfl, rfl⟩
  refine hh.block fd hidle.2 (by simp [hpc, EpollPc.target])
    (by simp [EpollPc.target, EpollPc.newcomer, EpollPc.guest]) (fun fd' hfd => ?_)
    (fun _ _ => rfl) (fun _ _ => rfl) rfl rfl (fun c _ => htaken c)
    (fun c hc => ⟨?_, htaken c ▸ hh.taken c⟩) hk
  · simp [TcpServer.startProbe, Std.TreeMap.getElem?_insert, hfd]
  · have hears := hh.hears fd c hc
    have hrx : h.rx c = [] := hears.newcomer (by rw [hpc]; rfl)
    refine ⟨by simp [EpollPc.target], by simp [EpollPc.newcomer], fun probe hp => ?_,
      fun state hp _ => ?_, by simp [EpollPc.guest], hears.watching⟩
    · simp only [TcpServer.startProbe, Std.TreeMap.getElem?_insert_self, Option.some.injEq] at hp
      have hnone := hh.taken c
      rw [hrx, drain_short (by decide), ← htaken, List.prefix_nil] at hnone
      exact ⟨by rw [hrx, ← hp]; rfl, hnone⟩
    · have := hears.producing state hp (by simp [hidle.2])
      rwa [hidle.1, ← htaken] at this

/-- A read puts the bytes behind those that are held. -/
theorem read (hk : Known s h) (hb : s.Bounded) {fd : Fd} {buffer : Bytes}
    (hpc : s.epoll = .reading fd) :
    Heard { s with epoll := .lookViewers fd buffer (s.owner fd) }
      (h.hear (s.owner fd) buffer) := by
  have htaken : ∀ c, (h.hear (s.owner fd) buffer).taken (.lookViewers fd buffer (s.owner fd)) c =
      h.taken s.epoll c := by
    intro c
    rw [hpc]
    simp only [History.taken, EpollPc.upcoming, ite_self]
    rfl
  have hidle : ∀ fd', s.epoll.unentered fd' = [] ∧ s.epoll.removed = none := fun fd' => by
    rw [hpc]; exact ⟨rfl, rfl⟩
  refine ⟨fun fd' c hc => ?_, fun c => ?_, hh.handled⟩
  · have hears := hh.hears fd' c hc
    by_cases hfd : fd = fd'
    · subst hfd
      have howner : s.owner fd = some c := hc
      have hrx : (h.hear (s.owner fd) buffer).rx c = h.rx c ++ buffer := by
        simp only [History.hear, howner, if_true]
      have hnow : (EpollPc.lookViewers fd buffer (s.owner fd)).unentered fd = buffer := by
        simp [EpollPc.unentered, EpollPc.target, EpollPc.buffer]
      refine ⟨fun _ => howner, by simp [EpollPc.newcomer], fun probe hp => ?_,
        fun state hp _ => ?_, by simp [EpollPc.guest], fun hv => ?_⟩
      · obtain ⟨hold, hnone⟩ := hears.probing probe hp
        rw [(hidle fd).1, List.append_nil] at hold
        rw [hrx, hold, htaken]
        simp only [hnow]
        exact ⟨trivial, hnone⟩
      · have hproducing := hears.producing state hp (by simp [(hidle fd).2])
        rw [(hidle fd).1, List.append_nil] at hproducing
        rw [hrx, htaken]
        simp only [hnow]
        exact hproducing.read (hb.gateway.recv fd state hp) buffer
      · rw [hrx]
        exact (hears.watching hv).trans (List.prefix_append _ _)
    · have hrx : (h.hear (s.owner fd) buffer).rx c = h.rx c := by
        have hne : s.owner fd ≠ some c := fun heq => hfd (hk.inj heq hc)
        simp only [History.hear, hne, if_false]
      have hnow : (EpollPc.lookViewers fd buffer (s.owner fd)).unentered fd' =
          s.epoll.unentered fd' := by
        rw [(hidle fd').1]
        simp [EpollPc.unentered, EpollPc.target, hfd]
      exact hears.keep hrx (htaken c) (by simp [EpollPc.target, hfd]) (by simp [EpollPc.newcomer])
        (fun _ hp => ⟨hp, hnow⟩) (fun _ hp _ => ⟨hp, by simp [(hidle fd').2], hnow⟩)
        (by simp [EpollPc.guest]) (fun hv => hv)
  · rw [htaken]
    refine (hh.taken c).trans ?_
    simp only [History.hear]
    split
    · exact Deframer.items_prefix _ _
    · exact List.prefix_refl _

/-- A viewer's bytes are dropped. -/
theorem isViewer (htabled : s.Tabled) {fd : Fd} {buffer : Bytes} {conn : Option Conn}
    (hpc : s.epoll = .lookViewers fd buffer conn) (hfound : s.gateway.viewers.contains fd = true) :
    Heard { s with epoll := .idle } h := by
  obtain ⟨life, hlife⟩ := Standing.exists_life (htabled.lawful fd)
  simp only [System.standing, TcpServer.standing, hfound] at hlife
  have hnone : s.gateway.producers.contains fd = false ∧
      s.gateway.pendingProbe.contains fd = false := by
    cases life <;> simp_all [Life.standing]
  simp only [Std.TreeMap.contains_eq_isSome_getElem?] at hnone
  have hother : ∀ fd', fd ≠ fd' → EpollPc.idle.unentered fd' = s.epoll.unentered fd' := by
    intro fd' hfd
    rw [hpc]
    simp [EpollPc.unentered, EpollPc.target, hfd]
  apply hh.keep (t := { s with epoll := .idle }) (fun _ _ hc => hc) (by simp [EpollPc.target])
    (by simp [EpollPc.newcomer]) (fun fd' probe hp => ⟨hp, hother fd' ?_⟩)
    (fun fd' state hp _ => ⟨hp, by simp [hpc, EpollPc.removed], hother fd' ?_⟩)
    (by simp [EpollPc.guest]) (fun _ hv => hv) (by rw [hpc]; rfl) rfl
  · rintro rfl
    rw [hp] at hnone
    cases hnone.2
  · rintro rfl
    rw [hp] at hnone
    cases hnone.1

section Probe

variable {fd : Fd} {buffer held : Bytes} {conn : Option Conn}
  (hpc : s.epoll = .probe fd buffer conn)
include hpc

/-- Where the probe block is taken, what is held and what was read is all that came. -/
theorem heldProbe (htabled : s.Tabled) (hopen : System.ConnectionOpen s .epoll) :
    s.gateway.viewers.contains fd = false ∧ s.gateway.producers.contains fd = false ∧
      ∃ held, s.gateway.pendingProbe[fd]? = some held ∧ ∀ c, s.owner fd = some c →
        h.rx c = held ++ buffer ∧ h.taken s.epoll c = [] := by
  have hlife := htabled.probing hpc hopen
  simp only [System.standing, TcpServer.standing, Life.standing, Standing.mk.injEq] at hlife
  obtain ⟨hviewer, hproducer, hprobe, -⟩ := hlife
  rw [Std.TreeMap.contains_eq_isSome_getElem?, Option.isSome_iff_exists] at hprobe
  obtain ⟨held, hheld⟩ := hprobe
  refine ⟨hviewer, hproducer, held, hheld, fun c hc => ?_⟩
  have hnow : s.epoll.unentered fd = buffer := by
    simp [hpc, EpollPc.unentered, EpollPc.target, EpollPc.buffer]
  have := (hh.hears fd c hc).probing held hheld
  rwa [hnow] at this

/-- More bytes for the probe. -/
theorem undecided (hk : Known s h) (hproducer : s.gateway.producers.contains fd = false)
    (hall : ∀ c, s.owner fd = some c → h.rx c = held ++ buffer ∧ h.taken s.epoll c = []) :
    Heard { s with
      gateway := { s.gateway with
        pendingProbe := s.gateway.pendingProbe.insert fd (held ++ buffer) }
      epoll := .idle } h := by
  have htaken : ∀ c, h.taken .idle c = h.taken s.epoll c := h.taken_congr (by rw [hpc]; rfl)
  refine hh.block fd (by rw [hpc]; rfl) (by simp [hpc, EpollPc.target])
    (by simp [EpollPc.target, EpollPc.newcomer, EpollPc.guest])
    (fun fd' hfd => by simp [Std.TreeMap.getElem?_insert, hfd]) (fun _ _ => rfl) (fun _ _ => rfl)
    rfl rfl (fun c _ => htaken c) (fun c hc => ⟨?_, htaken c ▸ hh.taken c⟩) hk
  obtain ⟨hrx, hnone⟩ := hall c hc
  refine ⟨by simp [EpollPc.target], by simp [EpollPc.newcomer], fun probe hp => ?_,
    fun state hp _ => ?_, by simp [EpollPc.guest], (hh.hears fd c hc).watching⟩
  · simp only [Std.TreeMap.getElem?_insert_self, Option.some.injEq] at hp
    rw [← hp, htaken, hrx]
    exact ⟨(List.append_nil _).symm, hnone⟩
  · rw [Std.TreeMap.contains_eq_isSome_getElem?] at hproducer
    rw [show s.gateway.producers[fd]? = some state from hp] at hproducer
    cases hproducer

/-- The connection has sent a request. -/
theorem becomeViewer (hk : Known s h) (hviewer : s.gateway.viewers.contains fd = false)
    (hproducer : s.gateway.producers.contains fd = false)
    (hall : ∀ c, s.owner fd = some c → h.rx c = held ++ buffer ∧ h.taken s.epoll c = [])
    (hget : getRequest <+: held ++ buffer) :
    Heard { s with
      gateway := { s.gateway with pendingProbe := s.gateway.pendingProbe.erase fd }
      epoll := .bootstrap fd } h := by
  have htaken : ∀ c, h.taken (.bootstrap fd) c = h.taken s.epoll c :=
    h.taken_congr (by rw [hpc]; rfl)
  refine hh.block fd (by rw [hpc]; rfl) (by simp [hpc, EpollPc.target])
    (by simp [EpollPc.target, EpollPc.newcomer, EpollPc.guest])
    (fun fd' hfd => by simp [Std.TreeMap.getElem?_erase, hfd]) (fun _ _ => rfl) (fun _ _ => rfl)
    rfl rfl (fun c _ => htaken c) (fun c hc => ⟨?_, htaken c ▸ hh.taken c⟩) hk
  have hrequest : getRequest <+: h.rx c := (hall c hc).1 ▸ hget
  exact Hears.of_none (by simp) hproducer hviewer (by simp [EpollPc.target])
    (by simp [EpollPc.newcomer]) fun _ => hrequest

/-- The connection has sent something else: all of it goes to the reassembly loop. -/
theorem becomeProducer (hk : Known s h)
    (hall : ∀ c, s.owner fd = some c → h.rx c = held ++ buffer ∧ h.taken s.epoll c = [])
    (hlong : probeBytes ≤ (held ++ buffer).length) (hget : ¬ getRequest <+: held ++ buffer) :
    Heard { s with
      gateway := { s.gateway with
        pendingProbe := s.gateway.pendingProbe.erase fd
        producers := s.gateway.producers.insert fd ⟨[]⟩ }
      epoll := .reassemble fd (held ++ buffer) conn } h := by
  have htaken : ∀ c, h.taken (.reassemble fd (held ++ buffer) conn) c = h.taken s.epoll c :=
    h.taken_congr (by rw [hpc]; rfl)
  refine hh.block fd (by rw [hpc]; rfl) (by simp [hpc, EpollPc.target])
    (by simp [EpollPc.target, EpollPc.newcomer, EpollPc.guest])
    (fun fd' hfd => by simp [Std.TreeMap.getElem?_erase, hfd])
    (fun fd' hfd => by simp [Std.TreeMap.getElem?_insert, hfd]) (fun _ _ => rfl)
    rfl rfl (fun c _ => htaken c) (fun c hc => ⟨?_, htaken c ▸ hh.taken c⟩) hk
  obtain ⟨hrx, hnone⟩ := hall c hc
  refine ⟨fun _ => (hh.hears fd c hc).target (by rw [hpc]; rfl), by simp [EpollPc.newcomer],
    fun probe hp => by simp at hp, fun state hp _ => ?_, by simp [EpollPc.guest],
    (hh.hears fd c hc).watching⟩
  simp only [Std.TreeMap.getElem?_insert_self, Option.some.injEq] at hp
  rw [← hp, htaken, hrx, hnone]
  simp only [EpollPc.unentered, EpollPc.target, EpollPc.buffer, if_true, List.nil_append]
  exact Producing.first hlong hget

theorem probeStep (hk : Known s h) (htabled : s.Tabled) (hopen : System.ConnectionOpen s .epoll)
    (hstep : s.step .epoll = some t) : Heard t h := by
  obtain ⟨hviewer, hproducer, held, hheld, hall⟩ := hh.heldProbe hpc htabled hopen
  have hcases := System.probe_cases hpc hstep
  simp only [hheld, Option.getD_some] at hcases
  rcases hcases with ⟨-, rfl⟩ | ⟨hget, rfl⟩ | ⟨hlong, hget, rfl⟩
  · exact hh.undecided hpc hk hproducer hall
  · exact hh.becomeViewer hpc hk hviewer hproducer hall hget
  · exact hh.becomeProducer hpc hk hall hlong hget

end Probe

section Reassembly

variable {fd : Fd} {data : Bytes} {conn : Option Conn}
  (hpc : s.epoll = .reassemble fd data conn)
include hpc

/-- Where the reassembly block is taken, the buffer and the bytes behind it continue what has been
taken off. -/
theorem heldBuffer (htabled : s.Tabled) (hopen : System.ConnectionOpen s .epoll) :
    s.gateway.pendingProbe.contains fd = false ∧
      ∃ state, s.gateway.producers[fd]? = some state ∧ ∀ c, s.owner fd = some c →
        h.source = some c ∧ Producing (h.rx c) (h.framesFrom c) (state.recvBuffer ++ data) := by
  have hlife := htabled.producing hpc hopen
  simp only [System.standing, TcpServer.standing, Life.standing, Standing.mk.injEq] at hlife
  obtain ⟨-, hproducer, hprobe, -⟩ := hlife
  rw [Std.TreeMap.contains_eq_isSome_getElem?, Option.isSome_iff_exists] at hproducer
  obtain ⟨state, hstate⟩ := hproducer
  refine ⟨hprobe, state, hstate, fun c hc => ⟨(hh.hears fd c hc).target (by rw [hpc]; rfl), ?_⟩⟩
  have hnow : s.epoll.unentered fd = data := by
    simp [hpc, EpollPc.unentered, EpollPc.target, EpollPc.buffer]
  have htaken : h.taken s.epoll c = h.framesFrom c := by simp [History.taken, hpc, EpollPc.upcoming]
  have := (hh.hears fd c hc).producing state hstate (by simp [hpc, EpollPc.removed])
  rwa [hnow, htaken] at this

/-- The stream is refused: the connection is about to be removed. -/
theorem invalid (hk : Known s h) (htabled : s.Tabled) (hopen : System.ConnectionOpen s .epoll) :
    Heard { s with
      gateway := (s.gateway.reassembleBlock fd data).2
      epoll := .removing (.call (fd, conn)) [] [] } h := by
  obtain ⟨hprobe, state, hstate, -⟩ := hh.heldBuffer hpc htabled hopen
  have htaken : ∀ c, h.taken (.removing (.call (fd, conn)) [] []) c = h.taken s.epoll c :=
    h.taken_congr (by rw [hpc]; rfl)
  rw [TcpServer.reassembleBlock_eq hstate]
  refine hh.block fd (by rw [hpc]; rfl) (by simp [hpc, EpollPc.target])
    (by simp [EpollPc.target, EpollPc.newcomer, EpollPc.guest]) (fun _ _ => rfl)
    (fun fd' hfd => by simp [Std.TreeMap.getElem?_insert, hfd]) (fun _ _ => rfl)
    rfl rfl (fun c _ => htaken c) (fun c hc => ⟨?_, htaken c ▸ hh.taken c⟩) hk
  refine ⟨by simp [EpollPc.target], by simp [EpollPc.newcomer], fun probe hp => ?_,
    fun state hp hremoved => absurd rfl hremoved, by simp [EpollPc.guest],
    (hh.hears fd c hc).watching⟩
  rw [Std.TreeMap.contains_eq_isSome_getElem?] at hprobe
  rw [show s.gateway.pendingProbe[fd]? = some probe from hp] at hprobe
  cases hprobe

/-- The frames in the buffer are taken off, and are on the way for this connection only. -/
theorem ready (hk : Known s h) (htabled : s.Tabled) (hopen : System.ConnectionOpen s .epoll)
    (hvalid : (s.gateway.reassembleBlock fd data).1.invalidStream = false) :
    Heard { s with
      gateway := (s.gateway.reassembleBlock fd data).2
      epoll := .frames (s.gateway.reassembleBlock fd data).1.readyFrames } h := by
  obtain ⟨hprobe, state, hstate, hall⟩ := hh.heldBuffer hpc htabled hopen
  obtain ⟨conn₀, hconn₀⟩ : ∃ c, s.owner fd = some c := by
    have := (hopen fd (by rw [hpc]; rfl)).1
    rwa [Std.TreeMap.contains_eq_isSome_getElem?, Option.isSome_iff_exists] at this
  have hsource : h.source = some conn₀ := (hall conn₀ hconn₀).1
  rw [TcpServer.reassembleBlock_eq hstate] at hvalid ⊢
  simp only at hvalid ⊢
  have htaken : ∀ c, s.owner fd = some c →
      h.taken (.frames (framer.drain (state.recvBuffer ++ data)).items) c =
        h.framesFrom c ++ (framer.drain (state.recvBuffer ++ data)).items := by
    intro c hc
    simp only [History.taken, (hall c hc).1, if_true, EpollPc.upcoming]
  refine hh.block fd (by rw [hpc]; rfl) (by simp [hpc, EpollPc.target])
    (by simp [EpollPc.target, EpollPc.newcomer, EpollPc.guest]) (fun _ _ => rfl)
    (fun fd' hfd => by simp [Std.TreeMap.getElem?_insert, hfd]) (fun _ _ => rfl)
    rfl rfl (fun c hc => ?_) (fun c hc => ?_) hk
  · have hne : h.source ≠ some c := fun heq => hc (by rw [hconn₀, ← hsource, heq])
    simp only [History.taken, if_neg hne]
  · have hproducing := (hall c hc).2
    rw [htaken c hc]
    constructor
    · refine ⟨by simp [EpollPc.target], by simp [EpollPc.newcomer], fun probe hp => ?_,
        fun state' hp _ => ?_, by simp [EpollPc.guest], (hh.hears fd c hc).watching⟩
      · rw [Std.TreeMap.contains_eq_isSome_getElem?] at hprobe
        rw [show s.gateway.pendingProbe[fd]? = some probe from hp] at hprobe
        cases hprobe
      · simp only [Std.TreeMap.getElem?_insert_self, Option.some.injEq, hvalid, Bool.false_eq_true,
          if_false] at hp
        rw [← hp, htaken c hc]
        simpa [EpollPc.unentered, EpollPc.target] using hproducing.take hvalid
    · rw [hproducing.drained]

end Reassembly

/-- The guest takes a seat. -/
theorem join (hk : Known s h) {viewer : Viewer} (hpc : s.epoll = .join viewer) :
    Heard { s with gateway := s.gateway.seat viewer, epoll := .idle } h := by
  have htaken : ∀ c, h.taken .idle c = h.taken s.epoll c := h.taken_congr (by rw [hpc]; rfl)
  have hidle : s.epoll.unentered viewer.fd = [] ∧ s.epoll.removed = none := by
    rw [hpc]; exact ⟨rfl, rfl⟩
  refine hh.block viewer.fd hidle.2 (by simp [hpc, EpollPc.target])
    (by simp [EpollPc.target, EpollPc.newcomer, EpollPc.guest]) (fun _ _ => rfl) (fun _ _ => rfl)
    (fun fd' hfd => by simp [TcpServer.seat, hfd]) rfl rfl (fun c _ => htaken c)
    (fun c hc => ⟨?_, htaken c ▸ hh.taken c⟩) hk
  have hears := hh.hears viewer.fd c hc
  refine ⟨by simp [EpollPc.target], by simp [EpollPc.newcomer], fun probe hp => ?_,
    fun state hp _ => ?_, by simp [EpollPc.guest], fun _ => hears.guest (by rw [hpc]; rfl)⟩
  · have := hears.probing probe hp
    rwa [hidle.1, ← htaken] at this
  · have := hears.producing state hp (by simp [hidle.2])
    rwa [hidle.1, ← htaken] at this

/-- `handleCompleteFrame` is called with the next frame on the way. -/
theorem cacheConfig {frame : Bytes} {frames : List Bytes}
    (hpc : s.epoll = .frames (frame :: frames)) :
    Heard { s with gateway := s.gateway.cacheConfig frame, epoll := .cacheIdr frame frames }
      { h with log := h.log ++ [(h.source, frame)] } := by
  have htaken : ∀ c, ({ h with log := h.log ++ [(h.source, frame)] } : History).taken
      (.cacheIdr frame frames) c = h.taken s.epoll c := by
    intro c
    rw [hpc]
    simp only [History.taken, h.framesFrom_log, EpollPc.upcoming]
    by_cases hc : h.source = some c <;> simp [hc]
  refine ⟨fun fd c hc => ?_, fun c => htaken c ▸ hh.taken c, ?_⟩
  · refine (hh.hears fd c hc).keep rfl (htaken c) (by simp [EpollPc.target])
      (by simp [EpollPc.newcomer]) (fun _ hp => ⟨hp, by rw [hpc]; rfl⟩)
      (fun _ hp _ => ⟨hp, by simp [hpc, EpollPc.removed], by rw [hpc]; rfl⟩)
      (by simp [EpollPc.guest]) (fun hv => hv)
  · simp [TcpServer.cacheConfig, hh.handled]

/-- A block of the epoll thread's removal. A producer under its number is past caring about until
its entry is gone. -/
theorem epollRemoval (htabled : s.Tabled) {r : Removal} {dead : List (Fd × Option Conn)}
    {frames : List Bytes} (hpc : s.epoll = .removing r dead frames) :
    Heard { s with
      gateway := (r.advance s.gateway).2
      epoll := r.epollAfter s.gateway dead frames } h := by
  refine hh.settle (by rw [hpc]; rfl) (r.epollAfter_clear s.gateway dead frames)
    (fun _ _ hc => Removal.advance_sockets hc) (fun _ _ hp => Removal.advance_pendingProbe hp)
    (fun fd state hp hremoved => ?_) (fun fd hv => r.contains_of_advance hv)
    (by rw [hpc]; exact r.epollAfter_upcoming s.gateway dead frames)
    (r.advance_leaves s.gateway).handled
  -- the entry of a producer that is being removed is there at the first block only
  obtain ⟨hold, hne⟩ := Removal.advance_producers hp
  refine ⟨hold, ?_⟩
  rw [hpc]
  intro heq
  have hfd : r.fd = fd := Option.some.inj heq
  cases hstage : r.stage with
  | viewers =>
    obtain ⟨r', hr', hfd'⟩ := Removal.advance_viewers_some (g := s.gateway) hstage
    apply hremoved
    simp only [Removal.epollAfter, hr', EpollPc.removed, hfd', hfd]
  | tables shouldClose => exact hne shouldClose hstage hfd
  | close =>
    obtain ⟨life, hlife⟩ := Standing.exists_life (htabled.lawful fd)
    have hcloses : r.closes = true := by simp [Removal.closes, hstage]
    have hproducer : s.gateway.producers.contains fd = true := by
      rw [Std.TreeMap.contains_eq_isSome_getElem?, hold]
      rfl
    simp only [System.standing, TcpServer.standing, hpc, EpollPc.closing, hcloses, if_true, hfd,
      hproducer] at hlife
    cases life <;> simp [Life.standing] at hlife

/-- A block of the sender thread's removal. -/
theorem senderRemoval {r : Removal} {pc : SenderPc} :
    Heard { s with gateway := (r.advance s.gateway).2, sender := pc } h := by
  apply hh.keep (t := { s with gateway := (r.advance s.gateway).2, sender := pc })
    (fun _ _ hc => Removal.advance_sockets hc) (fun _ hfd => hfd) (fun _ hfd => hfd)
    (fun fd probe hp => ⟨Removal.advance_pendingProbe hp, rfl⟩)
    (fun fd state hp hremoved => ⟨(Removal.advance_producers hp).1, hremoved, rfl⟩)
    (fun _ hfd => hfd) (fun fd hv => r.contains_of_advance hv) rfl
    (r.advance_leaves s.gateway).handled

/-- A round of the sender writes about what is sent only. -/
theorem round {outcomes : Fd → List SendOutcome} {pc : SenderPc} {failed : Fd → Option Conn} :
    Heard { s with
      gateway := (s.gateway.senderRound outcomes).2
      sender := pc
      failedConn := failed } (h.record s (.round outcomes)) := by
  refine ⟨fun fd c hc => ?_, hh.taken, hh.handled⟩
  refine (hh.hears fd c hc).keep rfl rfl (fun hfd => ⟨hfd, rfl⟩) (fun hfd => hfd)
    (fun _ hp => ⟨hp, rfl⟩) (fun _ hp hremoved => ⟨hp, hremoved, rfl⟩) (fun hfd => hfd)
    (fun hv => ?_)
  simpa [TcpServer.senderRound] using hv

/-- **Every step keeps what is held of each connection in line with its bytes.** -/
theorem step (hk : Known s h) (htabled : s.Tabled) (hb : s.Bounded) {a : Label}
    (hopen : System.ConnectionOpen s a) (hstep : s.step a = some t) : Heard t (h.record s a) := by
  have hidle : (∀ frame frames, s.epoll ≠ .frames (frame :: frames)) → h.record s .epoll = h :=
    h.record_epoll
  cases System.transition_of_step hstep with
  | wait hpc hbatch hreports =>
    exact hh.keep (fun _ _ hc => hc) (fun _ hfd => hfd) (fun _ hfd => hfd)
      (fun _ _ hp => ⟨hp, rfl⟩) (fun _ _ hp hremoved => ⟨hp, hremoved, rfl⟩) (fun _ hfd => hfd)
      (fun _ hv => hv) rfl rfl
  | listen hpc hbatch => exact hh.move hpc rfl rfl rfl rfl (by simp [EpollPc.guest]) rfl
  | hangUp hpc hbatch => exact hh.move hpc rfl rfl rfl rfl (by simp [EpollPc.guest]) rfl
  | readable hpc hbatch => exact hh.move hpc rfl rfl rfl rfl (by simp [EpollPc.guest]) rfl
  | accept hpc hclosed => exact hh.accept hk htabled hpc hclosed
  | acceptNone hpc => exact hh.move hpc rfl rfl rfl rfl (by simp [EpollPc.guest]) rfl
  | @read fd result hpc hanswer =>
    cases result with
    | bytes buffer =>
      have hrecord : h.record s (.read (.bytes buffer)) = h.hear (s.owner fd) buffer := by
        simp only [History.record, hpc]
      rw [hrecord]
      exact hh.read hk hb hpc
    | _ => exact hh.move hpc rfl rfl rfl rfl (by simp [EpollPc.guest, System.afterRead]) rfl
  | accepted hpc =>
    rw [hidle (by simp [hpc])]
    exact hh.startProbe hk hpc
  | isViewer hpc hfound =>
    rw [hidle (by simp [hpc])]
    exact hh.isViewer htabled hpc hfound
  | undecided hpc hprobe hshort =>
    rw [hidle (by simp [hpc])]
    exact hh.probeStep hpc hk htabled hopen hstep
  | becomeViewer hpc =>
    rw [hidle (by simp [hpc])]
    exact hh.probeStep hpc hk htabled hopen hstep
  | becomeProducer hpc =>
    rw [hidle (by simp [hpc])]
    exact hh.probeStep hpc hk htabled hopen hstep
  | invalid hpc hinvalid =>
    rw [hidle (by simp [hpc])]
    exact hh.invalid hpc hk htabled hopen
  | ready hpc hvalid =>
    rw [hidle (by simp [hpc])]
    exact hh.ready hpc hk htabled hopen hvalid
  | join hpc =>
    rw [hidle (by simp [hpc])]
    exact hh.join hk hpc
  | @cacheConfig frame frames hpc =>
    have hrecord : h.record s .epoll = { h with log := h.log ++ [(h.source, frame)] } := by
      simp only [History.record, hpc]
    rw [hrecord]
    exact hh.cacheConfig hpc
  | @queueFrame frame frames hpc =>
    rw [hidle (by simp [hpc])]
    refine hh.settle (by rw [hpc]; rfl) (EpollPc.removeDead_clear frames _) (fun _ _ hc => hc)
      (fun _ _ hp => hp) (fun _ _ hp _ => ⟨hp, by simp [hpc, EpollPc.removed]⟩) (fun fd hv => ?_)
      (by rw [hpc]; exact EpollPc.removeDead_upcoming frames _) rfl
    simpa [TcpServer.broadcast] using hv
  | epollRemoval hpc =>
    rw [hidle (by simp [hpc])]
    exact hh.epollRemoval htabled hpc
  | round hpc => exact hh.round
  | senderRemoval hpc => exact hh.senderRemoval
  | cacheIdr hpc =>
    rw [hidle (by simp [hpc])]
    exact hh.settle (by rw [hpc]; rfl) ⟨rfl, rfl, rfl⟩ (fun _ _ hc => hc) (fun _ _ hp => hp)
      (fun _ _ hp _ => ⟨hp, by simp [hpc, EpollPc.removed]⟩) (fun _ hv => hv) (by rw [hpc]; rfl) rfl
  | bootstrap hpc =>
    rw [hidle (by simp [hpc])]
    exact hh.move hpc rfl rfl rfl rfl (fun _ hfd => hfd) rfl
  | framesDone hpc | notViewer hpc | isProducer hpc | notProducer hpc =>
    rw [hidle (by simp [hpc])]
    exact hh.move hpc rfl rfl rfl rfl (by simp [EpollPc.guest]) rfl

end Heard

/-! ## Every reachable state -/

/-- What the tables show of a connection from which `stream` has been read. -/
def Intake.ofStream (stream : Bytes) : Intake :=
  if stream.length < probeBytes then probing stream
  else if stream.take 4 = getRequest then watching
  else producing (framer.drain stream).rest

namespace Relay

variable {r : Relay}

def ConnectionOpen (r : Relay) (a : Label) : Prop := System.ConnectionOpen r.system a

instance (r : Relay) (a : Label) : Decidable (r.ConnectionOpen a) :=
  inferInstanceAs (Decidable (System.ConnectionOpen r.system a))

/-- The invariants of the input side. -/
structure Hearing (r : Relay) : Prop where
  tabled : r.system.Tabled
  bounded : r.system.Bounded
  known : Known r.system r.history
  heard : Heard r.system r.history

theorem initial_hearing : initial.Hearing := by
  have hnone : ∀ fd c, System.initial.owner fd ≠ some c := by
    intro fd c
    simp [System.owner, System.initial, TcpServer.initial]
  refine ⟨System.initial_tabled, System.initial_bounded, ⟨?_, ?_, ?_, ?_⟩, ?_, ?_, rfl⟩
  · exact fun fd c hc => absurd hc (hnone fd c)
  · intro c fd hc
    cases hc
  · intro c hc
    cases hc
  · exact fun c _ => ⟨rfl, rfl, rfl⟩
  · exact fun fd c hc => absurd hc (hnone fd c)
  · intro c
    have hdrain : framer.drain ([] : Bytes) = ⟨[], [], false⟩ := drain_short (by decide)
    simp only [initial, History.initial, hdrain]
    exact List.prefix_refl _

theorem Hearing.step {r' : Relay} {a : Label} (h : r.Hearing) (hopen : r.ConnectionOpen a)
    (hstep : r.step a = some r') : r'.Hearing := by
  obtain ⟨t, ht, rfl⟩ := Option.map_eq_some_iff.mp hstep
  have htransition := System.transition_of_step ht
  exact ⟨h.tabled.step hopen htransition, h.bounded.step htransition, h.known.step htransition,
    h.heard.step h.known h.tabled h.bounded hopen ht⟩

theorem hearing_of_reaches (h : Reaches step ConnectionOpen initial r) : r.Hearing :=
  h.invariant initial_hearing fun _ _ _ hr hopen hstep => hr.step hopen hstep

/-- The frames handed on from a connection are, from the first one on, those that its own bytes
decompose into. -/
theorem Hearing.frames_prefix (h : r.Hearing) (c : Conn) :
    r.history.framesFrom c <+: (framer.drain (r.history.rx c)).items :=
  (List.prefix_append _ _).trans (h.heard.taken c)

/-- **Between two events the tables show what each connection's bytes decompose to**, and all its
frames are handed on. -/
theorem Hearing.shown (h : r.Hearing) (hepoll : r.system.epoll = .idle) {fd : Fd} {c : Conn}
    (howner : r.system.owner fd = some c) (hsender : r.system.sender.closing ≠ some fd) :
    r.system.gateway.Shows fd c (.ofStream (r.history.rx c)) ∧
      r.history.framesFrom c = (framer.drain (r.history.rx c)).items := by
  have hears := h.heard.hears fd c howner
  have hunentered : r.system.epoll.unentered fd = [] := by rw [hepoll]; rfl
  have htaken : r.history.taken r.system.epoll c = r.history.framesFrom c := by
    simp [History.taken, hepoll, EpollPc.upcoming]
  have hisOpen : r.system.gateway.sockets.contains fd = true := by
    rw [Std.TreeMap.contains_eq_isSome_getElem?, show r.system.gateway.sockets[fd]? = some c from
      howner]
    rfl
  have hlife := Standing.eq_table (h.tabled.lawful fd) hisOpen
    (by simp [System.standing, TcpServer.standing, hepoll, EpollPc.closing])
    (by simpa [System.standing, TcpServer.standing] using hsender)
    (by simp [System.standing, TcpServer.standing, hepoll, EpollPc.inHand])
  simp only [System.standing, TcpServer.standing, Life.standing, Standing.mk.injEq] at hlife
  rcases hlife with ⟨hviewer, hproducer, hprobe, -⟩ | ⟨hviewer, hproducer, hprobe, -⟩ |
    ⟨hviewer, hproducer, hprobe, -⟩
  · -- a viewer
    have hget := hears.watching hviewer
    have hlong : ¬ (r.history.rx c).length < probeBytes := Nat.not_lt.mpr hget.length_le
    have htake : (r.history.rx c).take 4 = getRequest := (List.prefix_iff_eq_take.mp hget).symm
    have hnone := h.frames_prefix c
    rw [drain_request hget, List.prefix_nil] at hnone
    refine ⟨?_, by rw [hnone, drain_request hget]⟩
    obtain ⟨v, hv⟩ := Option.isSome_iff_exists.mp hviewer
    simp only [Intake.ofStream, hlong, if_false, htake, if_true, TcpServer.Shows]
    refine ⟨v, ?_⟩
    simp only [Std.TreeMap.contains_eq_isSome_getElem?, Option.isSome_eq_false_iff,
      Option.isNone_iff_eq_none] at hproducer hprobe
    rw [TcpServer.entry, hv, hproducer, hprobe, show r.system.gateway.sockets[fd]? = some c from
      howner]
  · -- a producer
    rw [Std.TreeMap.contains_eq_isSome_getElem?, Option.isSome_iff_exists] at hproducer
    obtain ⟨state, hstate⟩ := hproducer
    have hproducing := hears.producing state hstate (by simp [hepoll, EpollPc.removed])
    rw [hunentered, List.append_nil, htaken] at hproducing
    have hwait := Deframer.drain_wait (h.bounded.gateway.recv fd state hstate)
    have hdrained := hproducing.drained
    rw [hwait, List.append_nil] at hdrained
    have hlong : ¬ (r.history.rx c).length < probeBytes := Nat.not_lt.mpr hproducing.long
    have htake : (r.history.rx c).take 4 ≠ getRequest := fun heq =>
      hproducing.notRequest (heq ▸ List.take_prefix 4 _)
    refine ⟨?_, by rw [hdrained]⟩
    simp only [Intake.ofStream, hlong, if_false, htake, TcpServer.Shows, hdrained]
    simp only [ViewerTable.contains, Std.TreeMap.contains_eq_isSome_getElem?,
      Option.isSome_eq_false_iff, Option.isNone_iff_eq_none] at hviewer hprobe
    rw [TcpServer.entry, hviewer, hstate, hprobe, show r.system.gateway.sockets[fd]? = some c from
      howner]
  · -- still probed
    rw [Std.TreeMap.contains_eq_isSome_getElem?, Option.isSome_iff_exists] at hprobe
    obtain ⟨probe, hprobe⟩ := hprobe
    obtain ⟨hrx, hnone⟩ := hears.probing probe hprobe
    rw [hunentered, List.append_nil] at hrx
    rw [htaken] at hnone
    have hshort := h.bounded.gateway.probe fd probe hprobe
    rw [hrx, hnone, drain_short hshort]
    refine ⟨?_, rfl⟩
    simp only [Intake.ofStream, hshort, if_true, TcpServer.Shows]
    simp only [ViewerTable.contains, Std.TreeMap.contains_eq_isSome_getElem?,
      Option.isSome_eq_false_iff, Option.isNone_iff_eq_none] at hviewer hproducer
    rw [TcpServer.entry, hviewer, hproducer, hprobe, show r.system.gateway.sockets[fd]? = some c from
      howner]

/-- **The tables show what each connection's bytes decompose to**, between two events and outside
the sender's closing of the connection, in every run in which the epoll thread enters read bytes
only for a connection that is open and not being closed by the sender: nothing is lost, mixed up with
another connection's bytes or handed on twice, whatever the two threads, the other connections and
the kernel's cuts do. -/
theorem connections_shown (h : Reaches step ConnectionOpen initial r)
    (hepoll : r.system.epoll = .idle) {fd : Fd} {c : Conn} (howner : r.system.owner fd = some c)
    (hsender : r.system.sender.closing ≠ some fd) :
    r.system.gateway.Shows fd c (.ofStream (r.history.rx c)) ∧
      r.history.framesFrom c = (framer.drain (r.history.rx c)).items :=
  (hearing_of_reaches h).shown hepoll howner hsender

/-- What a camera sends: the steps that accept `fd` and read its first bytes. -/
def cameraLabels (fd : Fd) (buffer : Bytes) : List Label :=
  [.wait [.listen], .event, .accept fd, .epoll, .acceptNone, .wait [.readable fd], .event,
    .read (.bytes buffer), .epoll, .epoll, .epoll, .epoll]

/-- Camera 7 sends a frame and the first byte of the next prefix. -/
theorem connections_shown_camera : ∃ r : Relay, Reaches step ConnectionOpen initial r ∧
    r.history.rx 0 = [0, 0, 0, 1, 0xAA, 0] ∧
    r.system.gateway.Shows 7 0 (.ofStream (r.history.rx 0)) ∧
    r.history.framesFrom 0 = (framer.drain (r.history.rx 0)).items := by
  have hrun : (runLabels step ConnectionOpen initial
      (cameraLabels 7 [0, 0, 0, 1, 0xAA, 0] ++ [.epoll, .epoll, .epoll, .epoll])).map
        (fun r => (r.system.epoll, r.system.owner 7, r.system.sender, r.history.rx 0)) =
      some (.idle, some 0, .idle, [0, 0, 0, 1, 0xAA, 0]) := by
    decide +kernel
  obtain ⟨r, hr, heq⟩ := Reaches.exists_of_runLabels hrun
  simp only [Prod.mk.injEq] at heq
  obtain ⟨hepoll, howner, hsender, hrx⟩ := heq
  obtain ⟨hshows, hframes⟩ := connections_shown hr hepoll howner (by rw [hsender]; decide)
  exact ⟨r, hr, hrx, hshows, hframes⟩

/-- **What is handed on from a camera are its packets**: in every such run, the frames handed on
from a connection whose bytes are the first bytes of framed packets are the first of these packets,
in order; between two events, while the connection is open and not being closed by the sender, all
that have come in whole. The frames of all connections together are those that `handleCompleteFrame`
was called with. -/
theorem cameras_relayed (h : Reaches step ConnectionOpen initial r) {c : Conn}
    {packets : List Bytes} (hsize : ∀ p ∈ packets, ValidFrame p)
    (hwire : r.history.rx c <+: packets.flatMap framed) :
    r.history.framesFrom c <+: packets ∧
    r.history.framesFrom c <+: packetsWithin (r.history.rx c).length packets ∧
    (r.system.epoll = .idle → ∀ fd, r.system.owner fd = some c →
      r.system.sender.closing ≠ some fd →
        r.history.framesFrom c = packetsWithin (r.history.rx c).length packets) ∧
    r.system.gateway.handled = r.history.log.map Prod.snd := by
  have hhearing := hearing_of_reaches h
  have hitems : (framer.drain (r.history.rx c)).items =
      packetsWithin (r.history.rx c).length packets := by
    conv_lhs => rw [List.prefix_iff_eq_take.mp hwire]
    exact (drain_take hsize _).1
  have hframes := hhearing.frames_prefix c
  rw [hitems] at hframes
  refine ⟨hframes.trans (packetsWithin_prefix_self _ _), hframes, fun hepoll fd howner hsender => ?_,
    hhearing.heard.handled⟩
  rw [(hhearing.shown hepoll howner hsender).2, hitems]

/-- Two cameras, read from in turns: the second one's prefix is cut. -/
theorem cameras_relayed_two : ∃ r : Relay, Reaches step ConnectionOpen initial r ∧
    r.system.gateway.handled = [[0xAA], [0xCC]] ∧
    r.history.framesFrom 1 <+: [[0xCC], [0xDD]] ∧
    r.history.framesFrom 1 <+: packetsWithin (r.history.rx 1).length [[0xCC], [0xDD]] ∧
    (r.system.epoll = .idle → ∀ fd, r.system.owner fd = some 1 →
      r.system.sender.closing ≠ some fd →
        r.history.framesFrom 1 = packetsWithin (r.history.rx 1).length [[0xCC], [0xDD]]) ∧
    r.system.gateway.handled = r.history.log.map Prod.snd := by
  have hrun : (runLabels step ConnectionOpen initial
      (cameraLabels 8 [0, 0, 0, 1, 0xAA] ++ [.epoll, .epoll, .epoll, .epoll] ++
        cameraLabels 7 [0, 0, 0, 1] ++ [.epoll, .wait [.readable 8, .readable 7], .event,
          .read (.bytes [0, 0]), .epoll, .epoll, .epoll, .epoll, .event, .read (.bytes [0xCC]),
          .epoll, .epoll, .epoll, .epoll, .epoll, .epoll, .epoll])).map
        (fun r => (r.system.gateway.handled, r.history.rx 1)) =
      some ([[0xAA], [0xCC]], [0, 0, 0, 1, 0xCC]) := by
    decide +kernel
  obtain ⟨r, hr, heq⟩ := Reaches.exists_of_runLabels hrun
  obtain ⟨hhandled, hrx⟩ := Prod.mk.inj heq
  have hwire : r.history.rx 1 <+: [[0xCC], [0xDD]].flatMap framed := by
    rw [hrx]
    exact ⟨[0, 0, 0, 1, 0xDD], by decide⟩
  exact ⟨r, hr, hhandled, cameras_relayed hr (by decide) hwire⟩

end Relay

end EdgeVision
