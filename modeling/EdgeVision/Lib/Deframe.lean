import Mathlib.Data.List.Basic

/-!
# Cutting a byte stream into frames

A stream receiver looks at the front of its buffer and either needs more input, refuses the stream
or takes one item off (`Next`). A `Deframer` is such a look that does not change its mind when more
input arrives. `drain` takes items until the look stops; `feed` is the receiver that is given the
stream in pieces, keeps what is left of the buffer between them, and hands on the items of a piece
only when the piece leaves the stream acceptable.

The results compare a receiver fed in pieces with one look at the whole stream: on an acceptable
stream the cut makes no difference (`feed_of_accepted`), and on a refused one the items handed on
are those of the pieces before the one that completes the refusal (`feed_of_refused`).
`lengthPrefixed` builds the deframer of a fixed-size header that announces the size of its body.
-/

namespace EdgeVision.Lib

variable {β α : Type}

/-- What one look at the front of the buffer says. An item comes with the number of elements it
takes off the buffer. -/
inductive Next (α : Type) where
  | wait
  | refuse
  | item (a : α) (n : Nat)

/-- A look at the front of a buffer that further input does not overturn. -/
structure Deframer (β α : Type) where
  next : List β → Next α
  item_size : ∀ {l a n}, next l = .item a n → 0 < n ∧ n ≤ l.length
  item_append : ∀ {l a n} (m : List β), next l = .item a n → next (l ++ m) = .item a n
  refuse_append : ∀ {l} (m : List β), next l = .refuse → next (l ++ m) = .refuse

/-- The items taken off a buffer, what is left of it, and whether the rest was refused. -/
structure Drained (β α : Type) where
  items : List α
  rest : List β
  refused : Bool
  deriving DecidableEq

namespace Deframer

variable (d : Deframer β α)

/-- Take items off the buffer until it is refused or needs more input. -/
def drain (l : List β) : Drained β α :=
  match _h : d.next l with
  | .wait => ⟨[], l, false⟩
  | .refuse => ⟨[], l, true⟩
  | .item a n =>
    let r := drain (l.drop n)
    ⟨a :: r.items, r.rest, r.refused⟩
termination_by l.length
decreasing_by
  obtain ⟨hpos, hle⟩ := d.item_size _h
  simp only [List.length_drop]
  omega

variable {d}

theorem drain_wait {l : List β} (h : d.next l = .wait) : d.drain l = ⟨[], l, false⟩ := by
  rw [drain]
  split <;> simp_all

theorem drain_refuse {l : List β} (h : d.next l = .refuse) : d.drain l = ⟨[], l, true⟩ := by
  rw [drain]
  split <;> simp_all

theorem drain_item {l : List β} {a : α} {n : Nat} (h : d.next l = .item a n) :
    d.drain l = ⟨a :: (d.drain (l.drop n)).items, (d.drain (l.drop n)).rest,
      (d.drain (l.drop n)).refused⟩ := by
  rw [drain]
  split <;> simp_all

variable (d) in
/-- Induction on the items a buffer starts with. -/
theorem drain_induction {P : List β → Prop} (hwait : ∀ l, d.next l = .wait → P l)
    (hrefuse : ∀ l, d.next l = .refuse → P l)
    (hitem : ∀ l a n, d.next l = .item a n → P (l.drop n) → P l) (l : List β) : P l := by
  induction hl : l.length using Nat.strongRecOn generalizing l with
  | _ k ih =>
    cases h : d.next l with
    | wait => exact hwait l h
    | refuse => exact hrefuse l h
    | item a n =>
      obtain ⟨hpos, hle⟩ := d.item_size h
      exact hitem l a n h (ih (l.drop n).length (by simp only [List.length_drop]; omega) _ rfl)

/-- The look at what an acceptable drain leaves asks for more input. -/
theorem next_rest_of_accepted {l : List β} (h : (d.drain l).refused = false) :
    d.next (d.drain l).rest = .wait := by
  induction l using d.drain_induction with
  | hwait l hn => rw [drain_wait hn]; exact hn
  | hrefuse l hn => rw [drain_refuse hn] at h; cases h
  | hitem l a n hn ih =>
    rw [drain_item hn] at h ⊢
    exact ih h

/-- The look at what a refused drain leaves is the refusal. -/
theorem next_rest_of_refused {l : List β} (h : (d.drain l).refused = true) :
    d.next (d.drain l).rest = .refuse := by
  induction l using d.drain_induction with
  | hwait l hn => rw [drain_wait hn] at h; cases h
  | hrefuse l hn => rw [drain_refuse hn]; exact hn
  | hitem l a n hn ih =>
    rw [drain_item hn] at h ⊢
    exact ih h

/-- **Draining in two steps.** The drain of an acceptable buffer goes on with the input that
follows it from where it stopped. -/
theorem drain_append {l : List β} (h : (d.drain l).refused = false) (m : List β) :
    d.drain (l ++ m) =
      ⟨(d.drain l).items ++ (d.drain ((d.drain l).rest ++ m)).items,
        (d.drain ((d.drain l).rest ++ m)).rest, (d.drain ((d.drain l).rest ++ m)).refused⟩ := by
  induction l using d.drain_induction with
  | hwait l hn => rw [drain_wait hn]; rfl
  | hrefuse l hn => rw [drain_refuse hn] at h; cases h
  | hitem l a n hn ih =>
    have hle := (d.item_size hn).2
    have hdrop : (l ++ m).drop n = l.drop n ++ m := List.drop_append_of_le_length hle
    rw [drain_item hn] at h
    rw [drain_item (d.item_append m hn), hdrop, ih h, drain_item hn]
    simp

/-- A refused buffer stays refused, with the same items, whatever follows. -/
theorem drain_append_of_refused {l : List β} (h : (d.drain l).refused = true) (m : List β) :
    d.drain (l ++ m) = ⟨(d.drain l).items, (d.drain l).rest ++ m, true⟩ := by
  induction l using d.drain_induction with
  | hwait l hn => rw [drain_wait hn] at h; cases h
  | hrefuse l hn => rw [drain_refuse hn, drain_refuse (d.refuse_append m hn)]
  | hitem l a n hn ih =>
    have hle := (d.item_size hn).2
    have hdrop : (l ++ m).drop n = l.drop n ++ m := List.drop_append_of_le_length hle
    rw [drain_item hn] at h
    rw [drain_item (d.item_append m hn), hdrop, ih h, drain_item hn]

/-- Input that follows takes no item back. -/
theorem items_prefix (l m : List β) : (d.drain l).items <+: (d.drain (l ++ m)).items := by
  cases h : (d.drain l).refused with
  | true =>
    have hitems := congrArg Drained.items (drain_append_of_refused h m)
    exact hitems ▸ List.prefix_refl _
  | false =>
    rw [drain_append h]
    exact List.prefix_append _ _

/-! ## A receiver fed in pieces -/

variable (d) in
/-- One piece of input. `none` is a receiver that has refused its stream; a piece that completes a
refusal hands nothing on. -/
def absorb : Option (List β) → List β → Option (List β) × List α
  | none, _ => (none, [])
  | some buffer, piece =>
    let r := d.drain (buffer ++ piece)
    if r.refused then (none, []) else (some r.rest, r.items)

variable (d) in
/-- All pieces in order, with the items handed on. -/
def feed : Option (List β) → List (List β) → Option (List β) × List α
  | b, [] => (b, [])
  | b, piece :: pieces =>
    let r := d.absorb b piece
    let t := feed r.1 pieces
    (t.1, r.2 ++ t.2)

@[simp] theorem feed_none (pieces : List (List β)) : d.feed none pieces = (none, []) := by
  induction pieces with
  | nil => rfl
  | cons piece pieces ih => simp [feed, absorb, ih]

/-- **On an acceptable stream the cut makes no difference**: the receiver ends with what one drain
of the whole stream leaves, and has handed on the items of that drain. -/
theorem feed_of_accepted {buffer : List β} (hb : d.next buffer = .wait) (pieces : List (List β))
    (h : (d.drain (buffer ++ pieces.flatten)).refused = false) :
    d.feed (some buffer) pieces =
      (some (d.drain (buffer ++ pieces.flatten)).rest,
        (d.drain (buffer ++ pieces.flatten)).items) := by
  induction pieces generalizing buffer with
  | nil => simp [feed, drain_wait hb]
  | cons piece pieces ih =>
    rw [List.flatten_cons, ← List.append_assoc] at h ⊢
    have hpiece : (d.drain (buffer ++ piece)).refused = false := by
      by_contra hne
      rw [Bool.not_eq_false] at hne
      rw [drain_append_of_refused hne] at h
      cases h
    have happ := drain_append hpiece pieces.flatten
    rw [happ] at h
    have hrec := ih (next_rest_of_accepted hpiece) h
    simp only [feed, absorb, hpiece, Bool.false_eq_true, if_false]
    rw [hrec, happ]

theorem feed_append (b : Option (List β)) (ps qs : List (List β)) :
    d.feed b (ps ++ qs) =
      ((d.feed (d.feed b ps).1 qs).1, (d.feed b ps).2 ++ (d.feed (d.feed b ps).1 qs).2) := by
  induction ps generalizing b with
  | nil => simp [feed]
  | cons p ps ih => simp [feed, ih]

/-- **On a refused stream the items handed on are those of the pieces before the refusal**: the
items that the refused piece itself completes are lost. -/
theorem feed_of_refused {buffer : List β} (hb : d.next buffer = .wait) {before : List (List β)}
    {piece : List β} (after : List (List β))
    (hbefore : (d.drain (buffer ++ before.flatten)).refused = false)
    (hpiece : (d.drain (buffer ++ before.flatten ++ piece)).refused = true) :
    d.feed (some buffer) (before ++ piece :: after) =
      (none, (d.drain (buffer ++ before.flatten)).items) := by
  have hrest : (d.drain ((d.drain (buffer ++ before.flatten)).rest ++ piece)).refused = true := by
    rw [drain_append hbefore] at hpiece
    exact hpiece
  rw [feed_append, feed_of_accepted hb before hbefore]
  simp only [feed, absorb, hrest, if_true, feed_none, List.append_nil]

/-! ## A header that announces the size of its body -/

section LengthPrefixed

variable (size : Nat) (hsize : 0 < size) (bodyLength : List β → Option Nat)

/-- The look at the front of a buffer of header-and-body frames. `bodyLength` reads a header of
`size` elements; `none` refuses it. -/
def lookPrefixed (l : List β) : Next (List β) :=
  if l.length < size then .wait
  else match bodyLength (l.take size) with
    | none => .refuse
    | some n => if l.length < size + n then .wait else .item ((l.take (size + n)).drop size) (size + n)

variable {size bodyLength}

theorem lookPrefixed_item {l : List β} {a : List β} {n : Nat}
    (h : lookPrefixed size bodyLength l = .item a n) :
    size ≤ n ∧ n ≤ l.length ∧ bodyLength (l.take size) = some (n - size) ∧
      a = (l.take n).drop size := by
  unfold lookPrefixed at h
  split at h
  · cases h
  · split at h
    · cases h
    · rename_i k hk
      split at h
      · cases h
      · cases h
        refine ⟨by omega, by omega, ?_, rfl⟩
        rw [hk, Nat.add_sub_cancel_left]

theorem lookPrefixed_refuse {l : List β} (h : lookPrefixed size bodyLength l = .refuse) :
    size ≤ l.length ∧ bodyLength (l.take size) = none := by
  unfold lookPrefixed at h
  split at h
  · cases h
  · split at h
    · rename_i hk
      exact ⟨by omega, hk⟩
    · split at h <;> cases h

theorem lookPrefixed_wait_iff {l : List β} : lookPrefixed size bodyLength l = .wait ↔
    l.length < size ∨ ∃ n, bodyLength (l.take size) = some n ∧ l.length < size + n := by
  unfold lookPrefixed
  split
  · simp_all
  · rename_i hlen
    cases hb : bodyLength (l.take size) with
    | none => simp [hlen]
    | some n => by_cases hn : l.length < size + n <;> simp [hlen, hn]

variable (size bodyLength)

/-- The deframer of header-and-body frames. -/
def lengthPrefixed : Deframer β (List β) where
  next := lookPrefixed size bodyLength
  item_size h := by
    obtain ⟨hle, hlen, -, -⟩ := lookPrefixed_item h
    exact ⟨by omega, hlen⟩
  item_append {l a n} m h := by
    obtain ⟨hle, hlen, hbody, rfl⟩ := lookPrefixed_item h
    have htake : (l ++ m).take size = l.take size := List.take_append_of_le_length (by omega)
    have hshort : ¬ (l ++ m).length < size := by simp only [List.length_append]; omega
    have hn : size + (n - size) = n := by omega
    have hwhole : ¬ (l ++ m).length < n := by simp only [List.length_append]; omega
    simp only [lookPrefixed, hshort, if_false, htake, hbody, hn, hwhole]
    rw [List.take_append_of_le_length hlen]
  refuse_append {l} m h := by
    obtain ⟨hlen, hbody⟩ := lookPrefixed_refuse h
    have htake : (l ++ m).take size = l.take size := List.take_append_of_le_length (by omega)
    have hshort : ¬ (l ++ m).length < size := by simp only [List.length_append]; omega
    simp only [lookPrefixed, hshort, if_false, htake, hbody]

variable {size bodyLength}

/-- A buffer that starts with a whole frame gives that frame. -/
theorem next_frame {header body : List β} (rest : List β) (hheader : header.length = size)
    (hbody : bodyLength header = some body.length) :
    (lengthPrefixed size hsize bodyLength).next (header ++ body ++ rest) =
      .item body (header ++ body).length := by
  have htake : (header ++ body ++ rest).take size = header := by
    rw [List.append_assoc, ← hheader, List.take_left]
  have hshort : ¬ (header ++ body ++ rest).length < size := by
    simp only [List.length_append]; omega
  have hwhole : ¬ (header ++ body ++ rest).length < (header ++ body).length := by
    simp only [List.length_append]; omega
  have hlen : size + body.length = (header ++ body).length := by
    simp only [List.length_append]; omega
  show lookPrefixed size bodyLength _ = _
  simp only [lookPrefixed, hshort, if_false, htake, hbody, hlen, hwhole]
  rw [List.take_left, ← hheader, List.drop_left]

/-- Whole frames at the front of a buffer are its first items. -/
theorem drain_frame {header body : List β} (rest : List β) (hheader : header.length = size)
    (hbody : bodyLength header = some body.length) :
    let d := lengthPrefixed size hsize bodyLength
    d.drain (header ++ body ++ rest) =
      ⟨body :: (d.drain rest).items, (d.drain rest).rest, (d.drain rest).refused⟩ := by
  intro d
  rw [drain_item (next_frame hsize rest hheader hbody), List.drop_left]

end LengthPrefixed

end Deframer

end EdgeVision.Lib
