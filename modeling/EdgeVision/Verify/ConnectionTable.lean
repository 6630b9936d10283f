import EdgeVision.Gateway.Threads

/-!
# The connection tables

Every descriptor is in one stage of its life (`Life`): closed, in one of the three tables, being
closed by one of the threads, or in the hands of the epoll thread on its way into a table. The
steps of the two threads take a descriptor from one stage to another, as long as the epoll thread
enters a connection into a table only while its descriptor is open and not being closed by the
sender (`ConnectionOpen`). Between two events and two rounds only the first two kinds of stages are
left, which is the consistency of the tables (`tables_consistent`). Without the condition the epoll
thread leaves an entry for a closed descriptor behind (`entry_for_closed_descriptor`).
-/

namespace EdgeVision

open Lib

/-! ## The life of a descriptor -/

/-- What the tables, the kernel and the two threads have on one descriptor. -/
structure Standing where
  viewer : Bool
  producer : Bool
  probing : Bool
  isOpen : Bool
  epollCloses : Bool
  senderCloses : Bool
  inHand : Bool
  deriving DecidableEq, Repr

/-- The stages of a descriptor's life. -/
inductive Life where
  | closed
  | inHand
  | probing
  | producing
  | watching
  | epollCloses
  | senderCloses
  deriving DecidableEq, Repr

def Life.standing : Life → Standing
  | closed => ⟨false, false, false, false, false, false, false⟩
  | inHand => ⟨false, false, false, true, false, false, true⟩
  | probing => ⟨false, false, true, true, false, false, false⟩
  | producing => ⟨false, true, false, true, false, false, false⟩
  | watching => ⟨true, false, false, true, false, false, false⟩
  | epollCloses => ⟨false, false, false, true, true, false, false⟩
  | senderCloses => ⟨false, false, false, true, false, true, false⟩

/-- The descriptor is in one of the stages. -/
def Standing.Lawful (d : Standing) : Prop :=
  d ∈ [Life.closed, .inHand, .probing, .producing, .watching, .epollCloses, .senderCloses].map
    Life.standing

instance (d : Standing) : Decidable d.Lawful := inferInstanceAs (Decidable (_ ∈ _))

theorem Life.lawful (life : Life) : life.standing.Lawful := by
  cases life <;> decide

namespace Standing

variable {d : Standing} (h : d.Lawful)
include h

/-- A descriptor is in some stage. -/
theorem exists_life : ∃ life : Life, d = life.standing := by
  obtain ⟨life, -, hlife⟩ := List.mem_map.mp h
  exact ⟨life, hlife.symm⟩

theorem eq_closed (hopen : d.isOpen = false) : d = Life.closed.standing := by
  obtain ⟨life, rfl⟩ := exists_life h
  cases life <;> first | rfl | cases hopen

theorem eq_inHand (hhand : d.inHand = true) : d = Life.inHand.standing := by
  obtain ⟨life, rfl⟩ := exists_life h
  cases life <;> first | rfl | cases hhand

/-- An open descriptor that no thread holds or closes is in one of the tables. -/
theorem eq_table (hopen : d.isOpen = true) (hepoll : d.epollCloses = false)
    (hsender : d.senderCloses = false) (hhand : d.inHand = false) :
    d = Life.watching.standing ∨ d = Life.producing.standing ∨ d = Life.probing.standing := by
  obtain ⟨life, rfl⟩ := exists_life h
  revert hopen hepoll hsender hhand
  cases life <;> decide

end Standing

/-- The descriptor that the epoll thread has found an entry of and will close. -/
def EpollPc.closing : EpollPc → Option Fd
  | .removing r _ _ => if r.closes then some r.fd else none
  | _ => none

/-- The descriptor that the epoll thread is about to enter into a table for the first time, or has
taken out of one to enter into another. -/
def EpollPc.inHand : EpollPc → Option Fd
  | .accepted fd => some fd
  | .bootstrap fd => some fd
  | .join viewer => some viewer.fd
  | _ => none

/-- The descriptor whose bytes the next block of the epoll thread puts into a table. -/
def EpollPc.enters : EpollPc → Option Fd
  | .probe fd _ _ => some fd
  | .reassemble fd _ _ => some fd
  | _ => none

def SenderPc.closing : SenderPc → Option Fd
  | .removing r _ => if r.closes then some r.fd else none
  | .idle => none

@[simp] theorem EpollPc.closing_removeDead (frames : List Bytes) (dead : List (Fd × Option Conn)) :
    (EpollPc.removeDead frames dead).closing = none := by
  cases dead <;> rfl

@[simp] theorem EpollPc.inHand_removeDead (frames : List Bytes) (dead : List (Fd × Option Conn)) :
    (EpollPc.removeDead frames dead).inHand = none := by
  cases dead <;> rfl

@[simp] theorem SenderPc.closing_removeDead (dead : List (Fd × Option Conn)) :
    (SenderPc.removeDead dead).closing = none := by
  cases dead <;> rfl

namespace TcpServer

/-- The part of a standing that the gateway's state decides. -/
def standing (g : TcpServer) (fd : Fd) (epollCloses senderCloses inHand : Bool) : Standing :=
  ⟨g.viewers.contains fd, g.producers.contains fd, g.pendingProbe.contains fd,
    g.sockets.contains fd, epollCloses, senderCloses, inHand⟩

/-- The tables are disjoint, every key is an open descriptor, and every open descriptor is a key. -/
def Consistent (g : TcpServer) : Prop :=
  ∀ fd, (g.viewers.contains fd && g.producers.contains fd) = false ∧
    (g.viewers.contains fd && g.pendingProbe.contains fd) = false ∧
    (g.producers.contains fd && g.pendingProbe.contains fd) = false ∧
    g.sockets.contains fd =
      (g.viewers.contains fd || g.producers.contains fd || g.pendingProbe.contains fd)

end TcpServer

namespace System

variable {s t : System}

def standing (s : System) (fd : Fd) : Standing :=
  s.gateway.standing fd (s.epoll.closing == some fd) (s.sender.closing == some fd)
    (s.epoll.inHand == some fd)

/-- What the epoll thread knows from the lookups that it has done. -/
def Looked (g : TcpServer) : EpollPc → Prop
  | .lookProducers fd _ _ => g.viewers.contains fd = false
  | .probe fd _ _ => g.viewers.contains fd = false ∧ g.producers.contains fd = false
  | .reassemble fd _ _ => g.viewers.contains fd = false ∧ g.pendingProbe.contains fd = false
  | _ => True

/-- A removal, by whichever thread, adds no entry. -/
theorem Looked.advance {g : TcpServer} {pc : EpollPc} (h : Looked g pc) (r : Removal) :
    Looked (r.advance g).2 pc := by
  have hviewers : ∀ fd, g.viewers.contains fd = false →
      (r.advance g).2.viewers.contains fd = false := by
    intro fd hfd
    cases hstage : r.stage <;>
      simp [Removal.advance, hstage, TcpServer.eraseViewer, TcpServer.eraseTables,
        TcpServer.closeSocket, hfd]
  have hproducers : ∀ fd, g.producers.contains fd = false →
      (r.advance g).2.producers.contains fd = false := by
    intro fd hfd
    cases hstage : r.stage <;>
      simp [Removal.advance, hstage, TcpServer.eraseViewer, TcpServer.eraseTables,
        TcpServer.closeSocket, Std.TreeMap.contains_erase, hfd]
  have hprobe : ∀ fd, g.pendingProbe.contains fd = false →
      (r.advance g).2.pendingProbe.contains fd = false := by
    intro fd hfd
    cases hstage : r.stage <;>
      simp [Removal.advance, hstage, TcpServer.eraseViewer, TcpServer.eraseTables,
        TcpServer.closeSocket, Std.TreeMap.contains_erase, hfd]
  cases pc with
  | lookProducers fd => exact hviewers fd h
  | probe fd => exact ⟨hviewers fd h.1, hproducers fd h.2⟩
  | reassemble fd => exact ⟨hviewers fd h.1, hprobe fd h.2⟩
  | _ => trivial

structure Tabled (s : System) : Prop where
  lawful : ∀ fd, (s.standing fd).Lawful
  looked : Looked s.gateway s.epoll

/-- When the epoll thread enters what it has read from a connection into a table, the descriptor is
open and the sender is not closing it. -/
def ConnectionOpen (s : System) : Label → Prop
  | .epoll => ∀ fd ∈ s.epoll.enters,
      s.gateway.sockets.contains fd = true ∧ s.sender.closing ≠ some fd
  | _ => True

instance (s : System) : ∀ a, Decidable (ConnectionOpen s a)
  | .epoll => inferInstanceAs (Decidable (∀ fd ∈ s.epoll.enters, _ ∧ _))
  | .wait _ | .event | .accept _ | .acceptNone | .read _ | .round _ | .sender => .isTrue trivial

end System

/-! ## The blocks of a removal -/

namespace Removal

variable (r : Removal) (g : TcpServer)

/-- Whether the call, after its next block, is on its way to close the descriptor. -/
def closesNext : Bool := ((r.advance g).1.map closes).getD false

/-- A removal touches one descriptor. -/
theorem advance_standing_ne {fd : Fd} (h : r.fd ≠ fd) (a b c : Bool) :
    (r.advance g).2.standing fd a b c = g.standing fd a b c := by
  unfold advance
  split <;>
    simp [TcpServer.standing, TcpServer.eraseViewer, TcpServer.eraseTables, TcpServer.closeSocket,
      Std.TreeMap.contains_erase, h]

/-- What a block of a removal makes of the standing of its descriptor. -/
theorem advance_standing (a b c : Bool) :
    (r.advance g).2.standing r.fd a b c = match r.stage with
      | .viewers => { g.standing r.fd a b c with viewer := false }
      | .tables _ => { g.standing r.fd a b c with producer := false, probing := false }
      | .close => { g.standing r.fd a b c with isOpen := false } := by
  cases hstage : r.stage <;>
    simp [advance, hstage, TcpServer.standing, TcpServer.eraseViewer, TcpServer.eraseTables,
      TcpServer.closeSocket, Std.TreeMap.contains_erase]

theorem closesNext_eq : r.closesNext g = match r.stage with
    | .viewers => g.viewers.contains r.fd
    | .tables shouldClose =>
      shouldClose || (g.producers.contains r.fd || g.pendingProbe.contains r.fd)
    | .close => false := by
  cases hstage : r.stage with
  | viewers => simp [closesNext, advance, hstage, closes, TcpServer.eraseViewer]
  | tables shouldClose =>
    have key : ∀ found : Bool, (Option.map closes
        (if found = true then some { r with stage := .close } else none)).getD false = found := by
      intro found
      cases found <;> rfl
    simp only [closesNext, advance, hstage, TcpServer.eraseTables]
    exact key _
  | close => simp [closesNext, advance, hstage]

variable (dead : List (Fd × Option Conn)) (frames : List Bytes)

theorem epollAfter_closing :
    (r.epollAfter g dead frames).closing = if r.closesNext g then some r.fd else none := by
  unfold epollAfter closesNext
  cases hnext : (r.advance g).1 with
  | none => simp
  | some r' => simp [EpollPc.closing, (advance_same hnext).1]

@[simp] theorem epollAfter_inHand : (r.epollAfter g dead frames).inHand = none := by
  unfold epollAfter
  split
  · rfl
  · simp

theorem senderAfter_closing :
    (r.senderAfter g dead).closing = if r.closesNext g then some r.fd else none := by
  unfold senderAfter closesNext
  cases hnext : (r.advance g).1 with
  | none => simp
  | some r' => simp [SenderPc.closing, (advance_same hnext).1]

/-- **A block of a removal by the epoll thread** takes its descriptor to the next stage. -/
theorem epoll_lawful {b c : Bool} (h : (g.standing r.fd r.closes b c).Lawful) :
    ((r.advance g).2.standing r.fd (r.closesNext g) b c).Lawful := by
  rw [advance_standing, closesNext_eq]
  unfold closes at h
  cases hstage : r.stage <;> simp only [hstage, TcpServer.standing] at h ⊢ <;>
    clear hstage <;> revert h <;>
    generalize g.viewers.contains r.fd = v <;> generalize g.producers.contains r.fd = p <;>
    generalize g.pendingProbe.contains r.fd = q <;> generalize g.sockets.contains r.fd = o
  · revert v p q o b c
    decide
  · rename_i shouldClose
    revert v p q o b c shouldClose
    decide
  · revert v p q o b c
    decide

/-- **A block of a removal by the sender thread** takes its descriptor to the next stage. -/
theorem sender_lawful {a c : Bool} (h : (g.standing r.fd a r.closes c).Lawful) :
    ((r.advance g).2.standing r.fd a (r.closesNext g) c).Lawful := by
  rw [advance_standing, closesNext_eq]
  unfold closes at h
  cases hstage : r.stage <;> simp only [hstage, TcpServer.standing] at h ⊢ <;>
    clear hstage <;> revert h <;>
    generalize g.viewers.contains r.fd = v <;> generalize g.producers.contains r.fd = p <;>
    generalize g.pendingProbe.contains r.fd = q <;> generalize g.sockets.contains r.fd = o
  · revert v p q o a c
    decide
  · rename_i shouldClose
    revert v p q o a c shouldClose
    decide
  · revert v p q o a c
    decide

end Removal

namespace System

variable {s t : System}

/-! ## Every step keeps the descriptors in their stages -/

namespace Tabled

variable (h : s.Tabled)
include h

/-- A step that changes no standing. -/
theorem of_standing (hstanding : ∀ fd, t.standing fd = s.standing fd)
    (hlooked : Looked t.gateway t.epoll) : t.Tabled :=
  ⟨fun fd => hstanding fd ▸ h.lawful fd, hlooked⟩

/-- A step that takes one descriptor to another stage. -/
theorem of_life (fd : Fd) (life : Life) (hother : ∀ fd', fd ≠ fd' → t.standing fd' = s.standing fd')
    (hlife : t.standing fd = life.standing) (hlooked : Looked t.gateway t.epoll) : t.Tabled := by
  refine ⟨fun fd' => ?_, hlooked⟩
  by_cases hfd : fd = fd'
  · rw [← hfd, hlife]
    exact life.lawful
  · rw [hother fd' hfd]
    exact h.lawful fd'

/-- A step of the epoll thread that leaves the gateway alone and has no descriptor in hand before or
after. -/
theorem move {pc pc' : EpollPc} {batch : List Event} (hpc : s.epoll = pc)
    (hclosing : pc'.closing = pc.closing) (hinHand : pc'.inHand = pc.inHand)
    (hlooked : Looked s.gateway pc') : Tabled { s with epoll := pc', batch := batch } :=
  h.of_standing (fun fd => by simp only [standing, hpc, hclosing, hinHand]) hlooked

theorem accept {fd : Fd} {conn next : Conn} (hpc : s.epoll = .accepting)
    (hclosed : s.gateway.sockets.contains fd = false) :
    Tabled { s with
      gateway := s.gateway.openSocket fd conn
      nextConn := next
      epoll := .accepted fd } := by
  have hlife := Standing.eq_closed (h.lawful fd) hclosed
  simp only [standing, TcpServer.standing, Life.standing, Standing.mk.injEq] at hlife
  obtain ⟨hv, hp, hq, -, hepoll, hsender, -⟩ := hlife
  refine h.of_life fd .inHand (fun fd' hne => ?_) ?_ trivial
  · simp [standing, TcpServer.standing, TcpServer.openSocket, hpc, EpollPc.closing,
      EpollPc.inHand, Std.TreeMap.contains_insert, hne]
  · simp [standing, TcpServer.standing, TcpServer.openSocket, Life.standing, EpollPc.closing,
      EpollPc.inHand, hv, hp, hq, hsender]

/-- The newcomer's probe entry. -/
theorem startProbe {fd : Fd} (hpc : s.epoll = .accepted fd) :
    Tabled { s with gateway := s.gateway.startProbe fd, epoll := .accepting } := by
  have hhand : (s.standing fd).inHand = true := by simp [standing, TcpServer.standing, hpc,
    EpollPc.inHand]
  have hlife := Standing.eq_inHand (h.lawful fd) hhand
  simp only [standing, TcpServer.standing, Life.standing, Standing.mk.injEq] at hlife
  obtain ⟨hv, hp, -, hopen, -, hsender, -⟩ := hlife
  refine h.of_life fd .probing (fun fd' hne => ?_) ?_ trivial
  · simp [standing, TcpServer.standing, TcpServer.startProbe, hpc, EpollPc.closing,
      EpollPc.inHand, Std.TreeMap.contains_insert, hne]
  · simp [standing, TcpServer.standing, TcpServer.startProbe, Life.standing, EpollPc.closing,
      EpollPc.inHand, hv, hp, hopen, hsender]

/-- The viewer's seat. -/
theorem join {viewer : Viewer} (hpc : s.epoll = .join viewer) :
    Tabled { s with gateway := s.gateway.seat viewer, epoll := .idle } := by
  have hhand : (s.standing viewer.fd).inHand = true := by
    simp [standing, TcpServer.standing, hpc, EpollPc.inHand]
  have hlife := Standing.eq_inHand (h.lawful viewer.fd) hhand
  simp only [standing, TcpServer.standing, Life.standing, Standing.mk.injEq] at hlife
  obtain ⟨-, hp, hq, hopen, -, hsender, -⟩ := hlife
  refine h.of_life viewer.fd .watching (fun fd' hne => ?_) ?_ trivial
  · simp [standing, TcpServer.standing, TcpServer.seat, hpc, EpollPc.closing, EpollPc.inHand, hne]
  · simp [standing, TcpServer.standing, TcpServer.seat, Life.standing, EpollPc.closing,
      EpollPc.inHand, hp, hq, hopen, hsender]

/-- Where the epoll thread reads from an open descriptor that it has not found as a viewer or a
producer, the descriptor is being probed. -/
theorem probing {fd : Fd} {buffer : Bytes} {conn : Option Conn}
    (hpc : s.epoll = .probe fd buffer conn) (hopen : ConnectionOpen s .epoll) :
    s.standing fd = Life.probing.standing := by
  have hlooked := h.looked
  have hopen := hopen fd (by rw [hpc]; rfl)
  simp only [Looked, hpc] at hlooked
  rcases Standing.eq_table (h.lawful fd) hopen.1 (by simp [standing, TcpServer.standing, hpc,
    EpollPc.closing]) (by simpa [standing, TcpServer.standing] using hopen.2)
    (by simp [standing, TcpServer.standing, hpc, EpollPc.inHand]) with hlife | hlife | hlife
  · have := congrArg Standing.viewer hlife
    simp [standing, TcpServer.standing, Life.standing, hlooked.1] at this
  · have := congrArg Standing.producer hlife
    simp [standing, TcpServer.standing, Life.standing, hlooked.2] at this
  · exact hlife

/-- Where the epoll thread is about to reassemble, the descriptor is a producer's. -/
theorem producing {fd : Fd} {data : Bytes} {conn : Option Conn}
    (hpc : s.epoll = .reassemble fd data conn) (hopen : ConnectionOpen s .epoll) :
    s.standing fd = Life.producing.standing := by
  have hlooked := h.looked
  have hopen := hopen fd (by rw [hpc]; rfl)
  simp only [Looked, hpc] at hlooked
  rcases Standing.eq_table (h.lawful fd) hopen.1 (by simp [standing, TcpServer.standing, hpc,
    EpollPc.closing]) (by simpa [standing, TcpServer.standing] using hopen.2)
    (by simp [standing, TcpServer.standing, hpc, EpollPc.inHand]) with hlife | hlife | hlife
  · have := congrArg Standing.viewer hlife
    simp [standing, TcpServer.standing, Life.standing, hlooked.1] at this
  · exact hlife
  · have := congrArg Standing.probing hlife
    simp [standing, TcpServer.standing, Life.standing, hlooked.2] at this

/-- The probe block: more bytes for the probe, or the descriptor leaves `pending_probe`, into the
hands of the epoll thread or among the producers. -/
theorem probeStep {fd : Fd} {buffer : Bytes} {conn : Option Conn} {g : TcpServer} {pc : EpollPc}
    (hpc : s.epoll = .probe fd buffer conn) (hopen : ConnectionOpen s .epoll) (life : Life)
    (hviewers : g.viewers = s.gateway.viewers) (hsockets : g.sockets = s.gateway.sockets)
    (hother : ∀ fd', fd ≠ fd' → g.producers.contains fd' = s.gateway.producers.contains fd' ∧
      g.pendingProbe.contains fd' = s.gateway.pendingProbe.contains fd')
    (hclosing : pc.closing = none) (hinHand : ∀ fd', pc.inHand = some fd' → fd = fd')
    (hlife : ⟨false, g.producers.contains fd, g.pendingProbe.contains fd, true, false, false,
      pc.inHand == some fd⟩ = life.standing) (hlooked : Looked g pc) :
    Tabled { s with gateway := g, epoll := pc } := by
  have hnow := h.probing hpc hopen
  simp only [standing, TcpServer.standing, Life.standing, Standing.mk.injEq] at hnow
  obtain ⟨hv, -, -, ho, -, hsender, -⟩ := hnow
  have hclosing' : s.epoll.closing = none := by rw [hpc]; rfl
  have hinHand' : s.epoll.inHand = none := by rw [hpc]; rfl
  refine h.of_life fd life (fun fd' hne => ?_) ?_ hlooked
  · obtain ⟨hp, hq⟩ := hother fd' hne
    have hhand : (pc.inHand == some fd') = false := by
      rw [beq_eq_false_iff_ne]
      exact fun heq => hne (hinHand fd' heq)
    simp [standing, TcpServer.standing, hviewers, hsockets, hp, hq, hclosing, hclosing', hhand,
      hinHand']
  · rw [← hlife]
    simp [standing, TcpServer.standing, hviewers, hsockets, hv, ho, hclosing, hsender]

/-- The reassembly block: a producer stays a producer. -/
theorem reassembleStep {fd : Fd} {data : Bytes} {conn : Option Conn} {pc : EpollPc}
    (hpc : s.epoll = .reassemble fd data conn) (hopen : ConnectionOpen s .epoll)
    (hclosing : pc.closing = none) (hinHand : pc.inHand = none)
    (hlooked : ∀ g, Looked g pc) :
    Tabled { s with gateway := (s.gateway.reassembleBlock fd data).2, epoll := pc } := by
  have hnow := h.producing hpc hopen
  simp only [standing, TcpServer.standing, Life.standing, Standing.mk.injEq] at hnow
  obtain ⟨-, hp, -, -, -, -, -⟩ := hnow
  have hclosing' : s.epoll.closing = none := by rw [hpc]; rfl
  have hinHand' : s.epoll.inHand = none := by rw [hpc]; rfl
  refine h.of_standing (fun fd' => ?_) (hlooked _)
  by_cases hfd : fd = fd'
  · subst hfd
    simp [standing, TcpServer.standing, TcpServer.reassembleBlock, hclosing, hclosing', hinHand,
      hinHand', hp]
  · simp [standing, TcpServer.standing, TcpServer.reassembleBlock, hclosing, hclosing', hinHand,
      hinHand', Std.TreeMap.contains_insert, hfd]

/-- A block of the epoll thread's removal. -/
theorem epollRemoval {r : Removal} {dead : List (Fd × Option Conn)} {frames : List Bytes}
    (hpc : s.epoll = .removing r dead frames) :
    Tabled { s with
      gateway := (r.advance s.gateway).2
      epoll := r.epollAfter s.gateway dead frames } := by
  have hlooked : ∀ g, Looked g (r.epollAfter s.gateway dead frames) := by
    intro g
    unfold Removal.epollAfter
    split
    · trivial
    · cases dead <;> trivial
  refine ⟨fun fd => ?_, hlooked _⟩
  have hlawful := h.lawful fd
  simp only [standing, hpc, EpollPc.closing, EpollPc.inHand] at hlawful
  simp only [standing, Removal.epollAfter_closing, Removal.epollAfter_inHand]
  by_cases hfd : r.fd = fd
  · subst hfd
    have hb : ∀ b : Bool, ((if b then some r.fd else none) == some r.fd) = b := by simp
    rw [hb] at hlawful ⊢
    exact r.epoll_lawful s.gateway hlawful
  · have hb : ∀ b : Bool, ((if b then some r.fd else none) == some fd) = false := by simp [hfd]
    rw [hb] at hlawful ⊢
    rwa [r.advance_standing_ne s.gateway hfd]

/-- A block of the sender's removal. -/
theorem senderRemoval {r : Removal} {dead : List (Fd × Option Conn)}
    (hpc : s.sender = .removing r dead) :
    Tabled { s with
      gateway := (r.advance s.gateway).2
      sender := r.senderAfter s.gateway dead } := by
  refine ⟨fun fd => ?_, ?_⟩
  · have hlawful := h.lawful fd
    simp only [standing, hpc, SenderPc.closing] at hlawful
    simp only [standing, Removal.senderAfter_closing]
    by_cases hfd : r.fd = fd
    · subst hfd
      have hb : ∀ b : Bool, ((if b then some r.fd else none) == some r.fd) = b := by simp
      rw [hb] at hlawful ⊢
      exact r.sender_lawful s.gateway hlawful
    · have hb : ∀ b : Bool, ((if b then some r.fd else none) == some fd) = false := by simp [hfd]
      rw [hb] at hlawful ⊢
      rwa [r.advance_standing_ne s.gateway hfd]
  · exact h.looked.advance r

/-- **Every step that enters read bytes only for an open connection keeps the descriptors in their
stages.** -/
theorem step {a : Label} (hopen : ConnectionOpen s a) (ht : Transition s a t) : t.Tabled := by
  have hlooked := h.looked
  cases ht with
  | wait hpc hbatch hreports => exact h.of_standing (fun _ => rfl) hlooked
  | listen hpc hbatch => exact h.move hpc rfl rfl trivial
  | hangUp hpc hbatch => exact h.move hpc rfl rfl trivial
  | readable hpc hbatch => exact h.move hpc rfl rfl trivial
  | accept hpc hclosed => exact h.accept hpc hclosed
  | acceptNone hpc => exact h.move hpc rfl rfl trivial
  | @read fd result hpc hanswer =>
    cases result <;> exact h.move hpc rfl rfl trivial
  | accepted hpc => exact h.startProbe hpc
  | isViewer hpc hfound => exact h.move hpc rfl rfl trivial
  | notViewer hpc hfound => exact h.move hpc rfl rfl hfound
  | @isProducer fd buffer conn hpc hfound =>
    rw [hpc] at hlooked
    -- a producer is in no other table
    have hprobe : s.gateway.pendingProbe.contains fd = false := by
      obtain ⟨life, hlife⟩ := Standing.exists_life (h.lawful fd)
      simp only [standing, TcpServer.standing, hfound] at hlife
      cases life <;> simp_all [Life.standing]
    exact h.move hpc rfl rfl ⟨hlooked, hprobe⟩
  | notProducer hpc hfound =>
    rw [hpc] at hlooked
    exact h.move hpc rfl rfl ⟨hlooked, hfound⟩
  | @undecided fd buffer probe conn hpc hprobe hshort =>
    have hnow := congrArg Standing.producer (h.probing hpc hopen)
    refine h.probeStep hpc hopen .probing rfl rfl (fun fd' hne => ?_) rfl (by simp [EpollPc.inHand])
      ?_ trivial
    · simp [Std.TreeMap.contains_insert, hne]
    · have hp : s.gateway.producers.contains fd = false := hnow
      simp [Life.standing, EpollPc.inHand, hp]
  | @becomeViewer fd buffer conn hpc =>
    have hnow := congrArg Standing.producer (h.probing hpc hopen)
    refine h.probeStep hpc hopen .inHand rfl rfl (fun fd' hne => ?_) rfl (by simp [EpollPc.inHand])
      ?_ trivial
    · simp [Std.TreeMap.contains_erase, hne]
    · have hp : s.gateway.producers.contains fd = false := hnow
      simp [Life.standing, EpollPc.inHand, hp]
  | @becomeProducer fd buffer probe conn hpc =>
    have hnow := congrArg Standing.viewer (h.probing hpc hopen)
    have hv : s.gateway.viewers.contains fd = false := hnow
    refine h.probeStep hpc hopen .producing rfl rfl (fun fd' hne => ?_) rfl
      (by simp [EpollPc.inHand]) ?_ ⟨hv, by simp⟩
    · simp [Std.TreeMap.contains_erase, Std.TreeMap.contains_insert, hne]
    · simp [Life.standing, EpollPc.inHand]
  | invalid hpc hinvalid => exact h.reassembleStep hpc hopen rfl rfl fun _ => trivial
  | ready hpc hvalid => exact h.reassembleStep hpc hopen rfl rfl fun _ => trivial
  | bootstrap hpc => exact h.move hpc rfl rfl trivial
  | join hpc => exact h.join hpc
  | framesDone hpc => exact h.move hpc rfl rfl trivial
  | cacheConfig hpc =>
    refine h.of_standing (fun fd => ?_) trivial
    simp only [standing, hpc]
    rfl
  | cacheIdr hpc =>
    refine h.of_standing (fun fd => ?_) trivial
    simp only [standing, hpc]
    rfl
  | queueFrame hpc =>
    refine h.of_standing (fun fd => ?_) ?_
    · simp only [standing, hpc, EpollPc.closing_removeDead, EpollPc.inHand_removeDead]
      simp [TcpServer.standing, TcpServer.broadcast, EpollPc.closing, EpollPc.inHand]
    · simp only [EpollPc.removeDead]
      split <;> trivial
  | epollRemoval hpc => exact h.epollRemoval hpc
  | round hpc =>
    refine ⟨fun fd => ?_, ?_⟩
    · have hlawful := h.lawful fd
      simp only [standing, hpc, SenderPc.closing] at hlawful
      simp only [standing, SenderPc.closing_removeDead]
      simpa [TcpServer.standing, TcpServer.senderRound] using hlawful
    · cases hcase : s.epoll <;> simp_all [Looked, TcpServer.senderRound]
  | senderRemoval hpc => exact h.senderRemoval hpc

end Tabled

theorem initial_tabled : initial.Tabled := by
  refine ⟨fun fd => ?_, trivial⟩
  have hnext : initial.standing fd = Life.closed.standing := by
    simp [standing, TcpServer.standing, initial, TcpServer.initial, ViewerTable.contains,
      Life.standing, EpollPc.closing, SenderPc.closing, EpollPc.inHand]
  rw [hnext]
  exact Life.lawful _

/-- **The connection tables are consistent** between two events and two rounds, in every run in
which the epoll thread enters read bytes only for a connection that is open and not being closed. -/
theorem tables_consistent (h : Reaches step ConnectionOpen initial s) (hepoll : s.epoll = .idle)
    (hsender : s.sender = .idle) : s.gateway.Consistent := by
  have htabled : s.Tabled :=
    h.invariant initial_tabled fun _ _ _ hs hopen hstep => hs.step hopen (transition_of_step hstep)
  intro fd
  obtain ⟨life, hlife⟩ := Standing.exists_life (htabled.lawful fd)
  simp only [standing, hepoll, hsender, EpollPc.closing, SenderPc.closing, EpollPc.inHand,
    TcpServer.standing] at hlife
  cases life <;> simp only [Life.standing, Standing.mk.injEq] at hlife <;>
    obtain ⟨hv, hp, hq, ho, hepoll', hsender', hhand'⟩ := hlife <;>
    simp_all only [Option.none_beq_some, Bool.and_false, Bool.false_and, Bool.or_false,
      Bool.false_or, reduceCtorEq, and_self]

theorem tables_consistent_after_join : ∃ s : System, s.gateway.Consistent ∧
    s.gateway.viewers.contains 7 = true := by
  have hrun : (runLabels step ConnectionOpen initial (joinLabels 7)).map
      (fun s => (s.epoll, s.sender, s.gateway.viewers.contains 7)) = some (.idle, .idle, true) := by
    decide +kernel
  obtain ⟨s, hs, heq⟩ := Reaches.exists_of_runLabels hrun
  simp only [Prod.mk.injEq] at heq
  exact ⟨s, tables_consistent hs heq.1 heq.2.1, heq.2.2⟩

/-- The epoll thread reads a byte from viewer 7; before it looks the viewer up, a `send` to it fails
and the sender removes and closes it. The byte then opens a probe for a closed descriptor. -/
theorem entry_for_closed_descriptor : ∃ s : System, Reaches step anyStep initial s ∧
    s.epoll = .idle ∧ s.sender = .idle ∧ s.gateway.pendingProbe.contains 7 = true ∧
    s.gateway.sockets.contains 7 = false ∧ ¬ s.gateway.Consistent := by
  have hrun : (runLabels step anyStep initial (joinLabels 7 ++
      [.wait [.readable 7], .event, .read (.bytes [0x58]), .round fun _ => [.fails .other],
        .sender, .sender, .sender, .epoll, .epoll, .epoll])).map
        (fun s => (s.epoll, s.sender, s.gateway.pendingProbe.contains 7,
          s.gateway.sockets.contains 7)) =
      some (.idle, .idle, true, false) := by
    decide +kernel
  obtain ⟨s, hs, heq⟩ := Reaches.exists_of_runLabels hrun
  simp only [Prod.mk.injEq] at heq
  obtain ⟨hepoll, hsender, hprobe, hclosed⟩ := heq
  refine ⟨s, hs, hepoll, hsender, hprobe, hclosed, fun hconsistent => ?_⟩
  have := (hconsistent 7).2.2.2
  rw [hprobe, hclosed, Bool.or_true] at this
  cases this

end System

end EdgeVision
