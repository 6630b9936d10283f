import EdgeVision.Gateway.Threads

/-!
# Whose connection a removal closes

A removal is decided in one critical section and carried out in others, by a bare descriptor number.
Every decision that is still open is a claim on a number (`claims`). As long as `accept` returns no
number with a claim on it, a claim is on the connection that it was made for, or on none
(`Owned`), and every removal erases and closes that connection only (`removes_own`). Without that
condition the sender closes a connection that was accepted meanwhile (`removal_hits_newcomer`).
-/

namespace EdgeVision

open Lib

/-! ## Claims -/

/-- The removals that the epoll thread may still carry out, with the connections they are for. -/
def EpollPc.claims : EpollPc → List (Fd × Option Conn)
  | .lookViewers fd _ conn => [(fd, conn)]
  | .lookProducers fd _ conn => [(fd, conn)]
  | .probe fd _ conn => [(fd, conn)]
  | .reassemble fd _ conn => [(fd, conn)]
  | .removing r dead _ => (r.fd, r.cause) :: dead
  | _ => []

def SenderPc.claims : SenderPc → List (Fd × Option Conn)
  | .idle => []
  | .removing r dead => (r.fd, r.cause) :: dead

/-- The sender's removals that have not passed the block on `viewers`. -/
def SenderPc.unerased : SenderPc → List (Fd × Option Conn)
  | .idle => []
  | .removing r dead => if r.stage = .viewers then (r.fd, r.cause) :: dead else dead

def Event.claim? : Event → Option (Fd × Option Conn)
  | hangUp fd conn => some (fd, some conn)
  | _ => none

@[simp] theorem EpollPc.claims_removeDead (frames : List Bytes) (dead : List (Fd × Option Conn)) :
    (EpollPc.removeDead frames dead).claims = dead := by
  cases dead <;> rfl

@[simp] theorem SenderPc.claims_removeDead (dead : List (Fd × Option Conn)) :
    (SenderPc.removeDead dead).claims = dead := by
  cases dead <;> rfl

@[simp] theorem SenderPc.unerased_removeDead (dead : List (Fd × Option Conn)) :
    (SenderPc.removeDead dead).unerased = dead := by
  cases dead <;> rfl

theorem SenderPc.unerased_subset (pc : SenderPc) : pc.unerased ⊆ pc.claims := by
  cases pc with
  | idle => exact List.Subset.refl _
  | removing r dead =>
    simp only [unerased, claims]
    split
    · exact List.Subset.refl _
    · exact List.subset_cons_self _ _

/-! ## The blocks of a removal -/

namespace Removal

variable {r r' : Removal} {g : TcpServer}

/-- A removal opens nothing. -/
theorem advance_sockets {fd : Fd} {c : Conn} (h : (r.advance g).2.sockets[fd]? = some c) :
    g.sockets[fd]? = some c := by
  unfold advance at h
  split at h
  · exact h
  · exact h
  · simp only [TcpServer.closeSocket, Std.TreeMap.getElem?_erase] at h
    split at h
    · cases h
    · exact h

/-- A removal seats nobody, and its first block leaves no viewer under its number. -/
theorem advance_viewers {fd : Fd} {v : Viewer} (h : (r.advance g).2.viewers.find? fd = some v) :
    g.viewers.find? fd = some v ∧ (r.stage = .viewers → r.fd ≠ fd) := by
  unfold advance at h
  split at h
  · simp only [TcpServer.eraseViewer, ViewerTable.find?_erase] at h
    split at h
    · cases h
    · exact ⟨h, fun _ => ‹_›⟩
  · exact ⟨h, fun hstage => by simp_all⟩
  · exact ⟨h, fun hstage => by simp_all⟩

/-- Whatever block the sender's removal takes, the removals behind it stay unerased. -/
theorem senderAfter_unerased (dead : List (Fd × Option Conn)) :
    (senderAfter r g dead).unerased = dead := by
  unfold senderAfter
  split
  · rename_i r' h
    simp only [SenderPc.unerased, (advance_same h).2.2, if_false]
  · simp

theorem senderAfter_claims (dead : List (Fd × Option Conn)) :
    (senderAfter r g dead).claims ⊆ (r.fd, r.cause) :: dead := by
  unfold senderAfter
  split
  · rename_i r' h
    obtain ⟨hfd, hcause, -⟩ := advance_same h
    simp [SenderPc.claims, hfd, hcause]
  · simp

end Removal

namespace System

variable {s t : System}

/-- Every removal that a thread or a reported hang-up may still carry out. -/
def claims (s : System) : List (Fd × Option Conn) :=
  s.epoll.claims ++ s.sender.claims ++ s.batch.filterMap Event.claim?

/-- The number belongs to the connection that the claim is for, or to none. -/
def Current (s : System) (p : Fd × Option Conn) : Prop :=
  ∀ c, s.gateway.sockets[p.1]? = some c → p.2 = some c

/-- A viewer whose `send` has failed and that is still in the table. -/
def Inactive (s : System) (v : Viewer) : Prop :=
  s.gateway.viewers.find? v.fd = some v ∧ v.active = false

structure Owned (s : System) : Prop where
  current : ∀ p ∈ s.claims, s.Current p
  inactive : ∀ v, s.Inactive v → (v.fd, s.failedConn v.fd) ∈ s.sender.unerased
  joining : ∀ v, s.epoll = .join v → v.active = true

theorem mem_claims {p : Fd × Option Conn} : p ∈ s.claims ↔
    p ∈ s.epoll.claims ∨ p ∈ s.sender.claims ∨ p ∈ s.batch.filterMap Event.claim? := by
  simp [claims]

/-- `accept` returns a number on which no removal has a claim. -/
def NumberFree (s : System) : Label → Prop
  | .accept fd => ∀ p ∈ s.claims, p.1 ≠ fd
  | _ => True

instance (s : System) : ∀ a, Decidable (s.NumberFree a)
  | .accept fd => inferInstanceAs (Decidable (∀ p ∈ s.claims, p.1 ≠ fd))
  | .wait _ | .event | .acceptNone | .read _ | .epoll | .round _ | .sender => .isTrue trivial

namespace Owned

variable (h : s.Owned)
include h

theorem current_epoll : ∀ p ∈ s.epoll.claims, s.Current p :=
  fun p hp => h.current p (mem_claims.mpr (.inl hp))

/-- A block of the epoll thread keeps what it must when it opens no socket, seats no inactive viewer
and makes only claims that are current. -/
theorem block {g : TcpServer} {pc : EpollPc} {batch : List Event}
    (hsockets : ∀ (fd : Fd) (c : Conn), g.sockets[fd]? = some c →
      s.gateway.sockets[fd]? = some c)
    (hviewers : ∀ (fd : Fd) (v : Viewer), g.viewers.find? fd = some v → v.active = false →
      s.gateway.viewers.find? fd = some v)
    (hclaims : ∀ p ∈ pc.claims, s.Current p) (hbatch : ∀ e ∈ batch, e ∈ s.batch)
    (hjoin : ∀ v, pc = .join v → v.active = true) :
    Owned { s with gateway := g, epoll := pc, batch := batch } := by
  refine ⟨?_, fun v hv => h.inactive v ⟨hviewers v.fd v hv.1 hv.2, hv.2⟩, hjoin⟩
  intro p hp c hc
  have hcurrent : s.Current p := by
    rcases mem_claims.mp hp with hp | hp | hp
    · exact hclaims p hp
    · exact h.current p (mem_claims.mpr (.inr (.inl hp)))
    · obtain ⟨e, he, hclaim⟩ := List.mem_filterMap.mp hp
      exact h.current p
        (mem_claims.mpr (.inr (.inr (List.mem_filterMap.mpr ⟨e, hbatch e he, hclaim⟩))))
  exact hcurrent c (hsockets p.1 c hc)

/-- A step of the epoll thread that leaves the gateway alone. -/
theorem move {pc : EpollPc} {batch : List Event} (hclaims : ∀ p ∈ pc.claims, s.Current p)
    (hbatch : ∀ e ∈ batch, e ∈ s.batch) (hjoin : ∀ v, pc = .join v → v.active = true) :
    Owned { s with epoll := pc, batch := batch } :=
  h.block (fun _ _ hc => hc) (fun _ _ hv _ => hv) hclaims hbatch hjoin

/-- The kernel reports hang-ups of the connections behind the numbers. -/
theorem wait {events : List Event} (hreports : s.Reports events) :
    Owned { s with batch := events } := by
  refine ⟨?_, h.inactive, h.joining⟩
  intro p hp
  rcases mem_claims.mp hp with hp | hp | hp
  · exact h.current_epoll p hp
  · exact h.current p (mem_claims.mpr (.inr (.inl hp)))
  · obtain ⟨e, he, hclaim⟩ := List.mem_filterMap.mp hp
    have hopen := hreports.2.2 e he
    cases e with
    | listen => cases hclaim
    | readable fd => cases hclaim
    | hangUp fd conn =>
      cases hclaim
      intro c hc
      simp only [Event.isOpen, beq_iff_eq] at hopen
      exact hopen.symm.trans hc

/-- A number without claims goes to the newcomer. -/
theorem accept {fd : Fd} (hfree : ∀ p ∈ s.claims, p.1 ≠ fd) :
    Owned { s with
      gateway := s.gateway.openSocket fd s.nextConn
      nextConn := s.nextConn + 1
      epoll := .accepted fd } := by
  refine ⟨?_, h.inactive, by simp⟩
  intro p hp c hc
  have hold : p ∈ s.claims := by
    rw [mem_claims] at hp ⊢
    exact hp.imp (fun hp => by simp [EpollPc.claims] at hp) id
  have hne : fd ≠ p.1 := (hfree p hold).symm
  simp only [TcpServer.openSocket, Std.TreeMap.getElem?_insert, Nat.compare_eq_eq, hne,
    if_false] at hc
  exact h.current p hold c hc

/-- A broadcast finds dead only viewers whose removal the sender still owes. -/
theorem broadcast (frame : Bytes) (frames : List Bytes) :
    Owned { s with
      gateway := (s.gateway.broadcast frame).2
      epoll := .removeDead frames
        ((s.gateway.broadcast frame).1.map fun fd => (fd, s.failedConn fd)) } := by
  have hsockets : ∀ (fd : Fd) (c : Conn), (s.gateway.broadcast frame).2.sockets[fd]? = some c →
      s.gateway.sockets[fd]? = some c := fun _ _ hc => hc
  apply h.block hsockets
  · intro fd v hv hinactive
    simp only [TcpServer.broadcast, ViewerTable.find?_update, Option.map_eq_some_iff] at hv
    obtain ⟨w, hw, rfl⟩ := hv
    rw [Viewer.queueFrame_active] at hinactive
    rwa [Viewer.queueFrame, hinactive]
  · intro p hp
    rw [EpollPc.claims_removeDead] at hp
    obtain ⟨fd, hfd, rfl⟩ := List.mem_map.mp hp
    simp only [TcpServer.broadcast, List.mem_map, List.mem_filter, ViewerTable.mem_toList,
      Bool.not_eq_true'] at hfd
    obtain ⟨v, hv, rfl⟩ := hfd
    exact h.current _ (mem_claims.mpr (.inr (.inl (s.sender.unerased_subset (h.inactive v hv)))))
  · exact fun e he => he
  · intro v hv
    cases hdead : (s.gateway.broadcast frame).1.map fun fd => (fd, s.failedConn fd) <;>
      simp [hdead, EpollPc.removeDead] at hv

/-- A block of the epoll thread's removal. -/
theorem epollRemoval {r : Removal} {dead : List (Fd × Option Conn)} {frames : List Bytes}
    (hpc : s.epoll = .removing r dead frames) :
    Owned { s with
      gateway := (r.advance s.gateway).2
      epoll := r.epollAfter s.gateway dead frames } := by
  have hclaims : ∀ p ∈ (r.fd, r.cause) :: dead, s.Current p := by
    have := h.current_epoll
    rwa [hpc] at this
  apply h.block (fun _ _ hc => Removal.advance_sockets hc)
    (fun _ _ hv _ => (Removal.advance_viewers hv).1)
  · intro p hp
    unfold Removal.epollAfter at hp
    split at hp
    · rename_i r' hr'
      obtain ⟨hfd, hcause, -⟩ := Removal.advance_same hr'
      rw [EpollPc.claims, hfd, hcause] at hp
      exact hclaims p hp
    · rw [EpollPc.claims_removeDead] at hp
      exact hclaims p (List.mem_cons_of_mem _ hp)
  · exact fun e he => he
  · intro v hv
    unfold Removal.epollAfter at hv
    split at hv
    · cases hv
    · cases dead <;> cases hv

/-- A round of the sender: the viewers it gives up are those whose removal it now owes. -/
theorem round {outcomes : Fd → List SendOutcome} (hpc : s.sender = .idle) :
    Owned { s with
      gateway := (s.gateway.senderRound outcomes).2
      sender := .removeDead ((s.gateway.senderRound outcomes).1.map fun fd => (fd, s.owner fd))
      failedConn := fun fd =>
        if fd ∈ (s.gateway.senderRound outcomes).1 then s.owner fd else s.failedConn fd } := by
  refine ⟨?_, ?_, h.joining⟩
  · intro p hp
    rcases mem_claims.mp hp with hp | hp | hp
    · exact h.current_epoll p hp
    · simp only [SenderPc.claims_removeDead, List.mem_map] at hp
      obtain ⟨fd, -, rfl⟩ := hp
      exact fun c hc => hc
    · exact h.current p (mem_claims.mpr (.inr (.inr hp)))
  · rintro v ⟨hv, hinactive⟩
    simp only [TcpServer.senderRound, ViewerTable.find?_update, Option.map_eq_some_iff] at hv
    obtain ⟨w, hw, rfl⟩ := hv
    have hfd : w.fd = (w.sendRound (s.gateway.answers outcomes w.fd)).1.fd := by simp
    rw [← hfd] at hw
    have hactive : w.active = true := by
      by_contra hne
      rw [Bool.not_eq_true] at hne
      have := h.inactive w ⟨hw, hne⟩
      rw [hpc] at this
      cases this
    have hdead : w.fd ∈ (s.gateway.senderRound outcomes).1 := by
      have hround := w.sendRound_active (s.gateway.answers outcomes w.fd)
      refine List.mem_map.mpr ⟨w, List.mem_filter.mpr ⟨s.gateway.viewers.mem_toList.mpr hw, ?_⟩,
        rfl⟩
      split at hround
      · assumption
      · rw [hinactive, hactive] at hround
        cases hround
    rw [SenderPc.unerased_removeDead, ← hfd]
    simp only [hdead, if_true]
    exact List.mem_map.mpr ⟨w.fd, hdead, rfl⟩

/-- A block of the sender's removal. -/
theorem senderRemoval {r : Removal} {dead : List (Fd × Option Conn)}
    (hpc : s.sender = .removing r dead) :
    Owned { s with
      gateway := (r.advance s.gateway).2
      sender := r.senderAfter s.gateway dead } := by
  refine ⟨?_, ?_, h.joining⟩
  · intro p hp c hc
    have hold : p ∈ s.claims := by
      rw [mem_claims] at hp ⊢
      rcases hp with hp | hp | hp
      · exact .inl hp
      · rw [hpc]
        exact .inr (.inl (Removal.senderAfter_claims dead hp))
      · exact .inr (.inr hp)
    exact h.current p hold c (Removal.advance_sockets hc)
  · rintro v ⟨hv, hinactive⟩
    obtain ⟨hv, herased⟩ := Removal.advance_viewers hv
    have howed := h.inactive v ⟨hv, hinactive⟩
    rw [hpc, SenderPc.unerased] at howed
    simp only [Removal.senderAfter_unerased]
    split at howed
    · rename_i hstage
      rcases List.mem_cons.mp howed with heq | hmem
      · exact absurd (congrArg Prod.fst heq).symm (herased hstage)
      · exact hmem
    · exact howed

/-- **Every step whose number is free keeps the claims with their connections.** -/
theorem step {a : Label} (hfree : NumberFree s a) (ht : Transition s a t) : t.Owned := by
  have hsame : ∀ e ∈ s.batch, e ∈ s.batch := fun _ he => he
  have hkept : ∀ (fd : Fd) (c : Conn), s.gateway.sockets[fd]? = some c →
      s.gateway.sockets[fd]? = some c := fun _ _ hc => hc
  have hseated : ∀ (fd : Fd) (v : Viewer), s.gateway.viewers.find? fd = some v →
      v.active = false → s.gateway.viewers.find? fd = some v := fun _ _ hv _ => hv
  have hepoll := h.current_epoll
  cases ht with
  | wait hpc hbatch hreports => exact h.wait hreports
  | listen hpc hbatch => exact h.move (by simp [EpollPc.claims]) (by simp_all) (by simp)
  | hangUp hpc hbatch =>
    refine h.move ?_ (by simp_all) (by simp)
    intro p hp
    refine h.current p (mem_claims.mpr (.inr (.inr ?_)))
    rw [hbatch, List.filterMap_cons]
    exact List.mem_cons.mpr (.inl (List.mem_singleton.mp hp))
  | readable hpc hbatch => exact h.move (by simp [EpollPc.claims]) (by simp_all) (by simp)
  | accept hpc hclosed => exact h.accept hfree
  | acceptNone hpc => exact h.move (by simp [EpollPc.claims]) hsame (by simp)
  | @read fd result hpc hanswer =>
    -- a removal that this read decides on is for the connection it read from
    refine h.move ?_ hsame ?_
    · cases result <;> simp [afterRead, EpollPc.claims, Removal.call, Current, owner]
    · cases result <;> simp [afterRead]
  | accepted hpc => exact h.block hkept hseated (by simp [EpollPc.claims]) hsame (by simp)
  | isViewer hpc hfound => exact h.move (by simp [EpollPc.claims]) hsame (by simp)
  | notViewer hpc hfound =>
    exact h.move (by rwa [hpc] at hepoll) hsame (by simp)
  | isProducer hpc hfound =>
    exact h.move (by rwa [hpc] at hepoll) hsame (by simp)
  | notProducer hpc hfound =>
    exact h.move (by rwa [hpc] at hepoll) hsame (by simp)
  | undecided hpc hprobe hshort =>
    exact h.block hkept hseated (by simp [EpollPc.claims]) hsame (by simp)
  | becomeViewer hpc => exact h.block hkept hseated (by simp [EpollPc.claims]) hsame (by simp)
  | becomeProducer hpc => exact h.block hkept hseated (by rwa [hpc] at hepoll) hsame (by simp)
  | invalid hpc hinvalid => exact h.block hkept hseated (by rwa [hpc] at hepoll) hsame (by simp)
  | ready hpc hvalid => exact h.block hkept hseated (by simp [EpollPc.claims]) hsame (by simp)
  | bootstrap hpc =>
    refine h.move (by simp [EpollPc.claims]) hsame ?_
    rintro v hv
    cases hv
    rfl
  | @join viewer hpc =>
    refine h.block hkept ?_ (by simp [EpollPc.claims]) hsame (by simp)
    intro fd v hv hinactive
    simp only [TcpServer.seat, ViewerTable.find?_insert] at hv
    split at hv
    · cases hv
      rw [h.joining viewer hpc] at hinactive
      cases hinactive
    · exact hv
  | framesDone hpc => exact h.move (by simp [EpollPc.claims]) hsame (by simp)
  | cacheConfig hpc => exact h.block hkept hseated (by simp [EpollPc.claims]) hsame (by simp)
  | cacheIdr hpc => exact h.block hkept hseated (by simp [EpollPc.claims]) hsame (by simp)
  | queueFrame hpc => exact h.broadcast _ _
  | epollRemoval hpc => exact h.epollRemoval hpc
  | round hpc => exact h.round hpc
  | senderRemoval hpc => exact h.senderRemoval hpc

end Owned

theorem initial_owned : initial.Owned := by
  refine ⟨?_, ?_, by simp [initial]⟩
  · intro p hp
    simp [claims, initial, EpollPc.claims, SenderPc.claims] at hp
  · rintro v ⟨hv, -⟩
    simp [initial, TcpServer.initial] at hv

/-! ## Removals reach their own connection only -/

/-- A thread is in a call of `removeViewer`. -/
def Removing (s : System) (r : Removal) : Prop :=
  (∃ dead frames, s.epoll = .removing r dead frames) ∨ ∃ dead, s.sender = .removing r dead

/-- Whenever the next block of a removal erases an entry or closes a descriptor, the number belongs
to the connection that the removal is for, or to none. -/
def RemovesOwn (s : System) : Prop :=
  ∀ r, s.Removing r → r.touches s.gateway = true → ∀ c, s.owner r.fd = some c → r.cause = some c

/-- **Only the failed connection is closed** in every run in which no number is handed out again
while a removal or a reported hang-up of it is outstanding. -/
theorem removes_own (h : Reaches step NumberFree initial s) : s.RemovesOwn := by
  have howned : s.Owned :=
    h.invariant initial_owned fun _ _ _ hs hfree hstep => hs.step hfree (transition_of_step hstep)
  rintro r hr -
  apply howned.current (r.fd, r.cause)
  rw [mem_claims]
  rcases hr with ⟨dead, frames, hpc⟩ | ⟨dead, hpc⟩
  · rw [hpc]
    exact .inl (by simp [EpollPc.claims])
  · rw [hpc]
    exact .inr (.inl (by simp [SenderPc.claims]))

/-- A hang-up of a viewer, about to close its connection. -/
theorem removes_own_hang_up : ∃ s : System, s.RemovesOwn ∧
    s.epoll = .removing ⟨7, some 0, .close⟩ [] [] ∧ s.owner 7 = some 0 := by
  have hrun : (runLabels step NumberFree initial
      (joinLabels 7 ++ [.wait [.hangUp 7 0], .event, .epoll, .epoll])).map
        (fun s => (s.epoll, s.owner 7)) =
      some (.removing ⟨7, some 0, .close⟩ [] [], some 0) := by
    decide +kernel
  obtain ⟨s, hs, heq⟩ := Reaches.exists_of_runLabels hrun
  obtain ⟨hpc, howner⟩ := Prod.mk.inj heq
  exact ⟨s, removes_own hs, hpc, howner⟩

/-- A `send` to viewer 7 fails; before the sender removes it, the epoll thread handles its hang-up,
closes it and accepts the next connection under the same number. The sender then closes that one. -/
theorem removal_hits_newcomer : ∃ s : System, Reaches step anyStep initial s ∧
    s.sender = .removing ⟨7, some 0, .close⟩ [] ∧ s.owner 7 = some 1 ∧
    (s.step .sender).map (fun t => t.owner 7) = some none ∧ ¬ s.RemovesOwn := by
  have hrun : (runLabels step anyStep initial (joinLabels 7 ++
      [.round fun _ => [.fails .other], .wait [.hangUp 7 0], .event, .epoll, .epoll, .epoll,
        .epoll, .wait [.listen], .event, .accept 7, .epoll, .sender, .sender])).map
        (fun s => (s.sender, s.owner 7, (s.step .sender).map fun t => t.owner 7)) =
      some (.removing ⟨7, some 0, .close⟩ [], some 1, some none) := by
    decide +kernel
  obtain ⟨s, hs, heq⟩ := Reaches.exists_of_runLabels hrun
  simp only [Prod.mk.injEq] at heq
  obtain ⟨hpc, howner, hclosed⟩ := heq
  refine ⟨s, hs, hpc, howner, hclosed, fun hown => ?_⟩
  have hsocket : s.gateway.sockets[7]? = some 1 := howner
  have htouches : (Removal.mk 7 (some 0) .close).touches s.gateway = true := by
    simp [Removal.touches, Std.TreeMap.contains_eq_isSome_getElem?, hsocket]
  have := hown _ (.inr ⟨[], hpc⟩) htouches 1 howner
  cases this

end System

end EdgeVision
