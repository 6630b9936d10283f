import Mathlib.Data.List.Flatten
import Mathlib.Data.List.Infix
import EdgeVision.Gateway.AnnexB

/-!
# What the Annex B scanners see

Both scanning loops walk over the same pieces of a buffer, each a start code, a header byte and the
bytes up to the next start code (`pieces`): `containsNalType` looks at the headers
(`containsNalType_iff`) and `extractBootstrapConfig` concatenates the pieces of the three
configuration types (`extractBootstrapConfig_eq`). What the loops do on a class of buffers is then
a matter of its pieces. Those of a well-formed access unit are its NAL units (`pieces_flatMap`),
and putting pieces of any buffer together again gives pieces with the same headers
(`headers_glued`), so that a configuration contains what it was extracted for.
-/

namespace EdgeVision

/-! ## The next start code -/

/-- The start code at the head of a buffer, by the two tests of the loop. -/
def codeAt : Bytes → Option Nat
  | b₀ :: b₁ :: b₂ :: b₃ :: _ =>
    if b₀ = 0 ∧ b₁ = 0 ∧ b₂ = 1 then some 3
    else if b₀ = 0 ∧ b₁ = 0 ∧ b₂ = 0 ∧ b₃ = 1 then some 4
    else none
  | _ => none

/-- How many bytes stand before the first start code, and the length of its prefix. -/
def nextCode : Bytes → Option (Nat × Nat)
  | [] => none
  | b :: l =>
    match codeAt (b :: l) with
    | some prefixLen => some (0, prefixLen)
    | none => (nextCode l).map fun c => (c.1 + 1, c.2)

theorem nextCode_of_codeAt {l : Bytes} {n : Nat} (h : codeAt l = some n) :
    nextCode l = some (0, n) := by
  cases l with
  | nil => cases h
  | cons b l => simp only [nextCode, h]

theorem nextCode_cons {b : UInt8} {l : Bytes} (h : codeAt (b :: l) = none) :
    nextCode (b :: l) = (nextCode l).map fun c => (c.1 + 1, c.2) := by
  simp only [nextCode, h]

theorem findStartCodeLoop_eq (l : Bytes) (i : Nat) :
    findStartCodeLoop l i = (nextCode l).map fun c => (i + c.1, c.2) := by
  fun_induction findStartCodeLoop l i with
  | case1 b₀ b₁ b₂ b₃ rest i h => rw [nextCode_of_codeAt (n := 3) (by simp [codeAt, h])]; rfl
  | case2 b₀ b₁ b₂ b₃ rest i h₃ h₄ =>
    rw [nextCode_of_codeAt (n := 4) (by simp [codeAt, h₄])]
    rfl
  | case3 b₀ b₁ b₂ b₃ rest i h₃ h₄ ih =>
    rw [nextCode_cons (by simp only [codeAt, h₃, h₄, if_false]), ih, Option.map_map]
    congr 1
    funext c
    simp only [Function.comp_apply, Prod.mk.injEq, and_true]
    omega
  | case4 l i h =>
    -- a buffer of fewer than four bytes holds no start code
    rcases l with _ | ⟨b₀, _ | ⟨b₁, _ | ⟨b₂, _ | ⟨b₃, rest⟩⟩⟩⟩
    · rfl
    · rfl
    · rfl
    · rfl
    · exact absurd rfl (h b₀ b₁ b₂ b₃ rest)

theorem findStartCode_eq (data : Bytes) (start : Nat) :
    findStartCode data start = (nextCode (data.drop start)).map fun c => (start + c.1, c.2) :=
  findStartCodeLoop_eq _ _

/-- The two start codes. -/
def IsStartCode (code : Bytes) : Prop := code = [0, 0, 1] ∨ code = [0, 0, 0, 1]

/-- No three bytes of the buffer are `00 00 01`. -/
def NoCode (l : Bytes) : Prop := ¬ [0, 0, 1] <:+: l

theorem NoCode.tail {b : UInt8} {l : Bytes} (h : NoCode (b :: l)) : NoCode l :=
  fun hl => h (hl.trans (List.suffix_cons b l).isInfix)

theorem noCode_nil : NoCode [] := by simp [NoCode]

/-- What is found at the head of a buffer is one of the two codes. -/
theorem codeAt_some {l : Bytes} {n : Nat} (h : codeAt l = some n) :
    ∃ code rest, l = code ++ rest ∧ code.length = n ∧ IsStartCode code := by
  match l, h with
  | b₀ :: b₁ :: b₂ :: b₃ :: rest, h =>
    simp only [codeAt] at h
    split at h
    · rename_i hcode
      cases h
      obtain ⟨rfl, rfl, rfl⟩ := hcode
      exact ⟨[0, 0, 1], b₃ :: rest, rfl, rfl, .inl rfl⟩
    · split at h
      · rename_i hcode
        cases h
        obtain ⟨rfl, rfl, rfl, rfl⟩ := hcode
        exact ⟨[0, 0, 0, 1], rest, rfl, rfl, .inr rfl⟩
      · cases h

/-- A start code with a byte behind it is found where it stands. -/
theorem codeAt_code {code : Bytes} (h : IsStartCode code) (header : UInt8) (rest : Bytes) :
    codeAt (code ++ header :: rest) = some code.length := by
  rcases h with rfl | rfl <;> simp [codeAt]

/-- The head of a buffer that holds no `00 00 01` is no start code. -/
theorem codeAt_of_noCode {l : Bytes} (h : NoCode l) : codeAt l = none := by
  cases hcode : codeAt l with
  | none => rfl
  | some n =>
    obtain ⟨code, rest, rfl, -, rfl | rfl⟩ := codeAt_some hcode
    · exact absurd (List.prefix_append [0, 0, 1] rest).isInfix h
    · exact absurd ⟨[0], rest, rfl⟩ h

theorem nextCode_of_noCode {l : Bytes} (h : NoCode l) : nextCode l = none := by
  induction l with
  | nil => rfl
  | cons b l ih => rw [nextCode_cons (codeAt_of_noCode h), ih h.tail]; rfl

/-- **The first start code of a buffer**: the bytes before it, the code, the bytes behind it. -/
theorem nextCode_some {l : Bytes} {gap n : Nat} (h : nextCode l = some (gap, n)) :
    ∃ before code rest, l = before ++ (code ++ rest) ∧ before.length = gap ∧ code.length = n ∧
      IsStartCode code ∧ NoCode before := by
  induction l generalizing gap with
  | nil => cases h
  | cons b l ih =>
    cases hcode : codeAt (b :: l) with
    | some k =>
      rw [nextCode_of_codeAt hcode] at h
      cases h
      obtain ⟨code, rest, hl, hn, hstart⟩ := codeAt_some hcode
      exact ⟨[], code, rest, hl, rfl, hn, hstart, noCode_nil⟩
    | none =>
      rw [nextCode_cons hcode, Option.map_eq_some_iff] at h
      obtain ⟨⟨gap', n'⟩, hnext, heq⟩ := h
      cases heq
      obtain ⟨before, code, rest, rfl, hgap, hn, hstart, hfree⟩ := ih hnext
      refine ⟨b :: before, code, rest, rfl, by rw [List.length_cons, hgap], hn, hstart, ?_⟩
      intro hin
      rcases List.infix_cons_iff.mp hin with hpre | hin
      · -- a code at the head would have been found, for the code behind it supplies a fourth byte
        obtain ⟨t, ht⟩ := hpre
        have hne : t ++ (code ++ rest) ≠ [] := by
          rcases hstart with rfl | rfl <;> simp
        obtain ⟨x, t', hx⟩ := List.exists_cons_of_ne_nil hne
        rw [← List.cons_append, ← ht, List.append_assoc, hx, codeAt_code (.inl rfl)] at hcode
        cases hcode
      · exact hfree hin

/-! ## The pieces of a buffer -/

/-- A start code, the header byte behind it, and the bytes up to the next start code. -/
structure NalPiece where
  code : Bytes
  header : UInt8
  body : Bytes
  deriving DecidableEq, Repr

def NalPiece.bytes (p : NalPiece) : Bytes := p.code ++ p.header :: p.body

/-- The number of bytes before the next start code, or to the end. -/
def gap (l : Bytes) : Nat :=
  match nextCode l with
  | none => l.length
  | some (n, _) => n

/-- The pieces of a buffer in order. The search for the next one starts behind the header byte. -/
def pieces (l : Bytes) : List NalPiece :=
  match nextCode l with
  | none => []
  | some (n, prefixLen) =>
    match _h : l.drop (n + prefixLen) with
    | [] => []
    | header :: tail => ⟨(l.drop n).take prefixLen, header, tail.take (gap tail)⟩ :: pieces tail
termination_by l.length
decreasing_by
  have := congrArg List.length _h
  simp only [List.length_drop, List.length_cons] at this
  omega

theorem pieces_of_none {l : Bytes} (h : nextCode l = none) : pieces l = [] := by
  rw [pieces]
  simp only [h]

/-- A search that passes `before` and `code` makes a piece of what follows. -/
theorem pieces_cons {before code tail : Bytes} {header : UInt8}
    (h : nextCode (before ++ (code ++ header :: tail)) = some (before.length, code.length)) :
    pieces (before ++ (code ++ header :: tail)) =
      ⟨code, header, tail.take (gap tail)⟩ :: pieces tail := by
  have hdrop : (before ++ (code ++ header :: tail)).drop (before.length + code.length) =
      header :: tail := by
    rw [← List.drop_drop, List.drop_left, List.drop_left]
  rw [pieces]
  simp only [h]
  rw [List.drop_left, List.take_left]
  split
  · rename_i hnil
    rw [hdrop] at hnil
    cases hnil
  · rename_i hcons
    rw [hdrop] at hcons
    cases hcons
    rfl

/-- Induction on the pieces of a buffer: it has no start code, or only one at its very end, or it
starts with a piece. -/
theorem pieces_induction {P : Bytes → Prop} (hnone : ∀ l, nextCode l = none → P l)
    (hend : ∀ before code, IsStartCode code → NoCode before →
      nextCode (before ++ code) = some (before.length, code.length) → P (before ++ code))
    (hpiece : ∀ before code header tail, IsStartCode code → NoCode before →
      nextCode (before ++ (code ++ header :: tail)) = some (before.length, code.length) →
      P tail → P (before ++ (code ++ header :: tail))) (l : Bytes) : P l := by
  induction hl : l.length using Nat.strongRecOn generalizing l with
  | _ k ih =>
    cases hnext : nextCode l with
    | none => exact hnone l hnext
    | some c =>
      obtain ⟨n, m⟩ := c
      obtain ⟨before, code, rest, rfl, rfl, rfl, hstart, hfree⟩ := nextCode_some hnext
      cases rest with
      | nil =>
        rw [List.append_nil] at hnext ⊢
        exact hend before code hstart hfree hnext
      | cons header tail =>
        refine hpiece before code header tail hstart hfree hnext (ih tail.length ?_ tail rfl)
        simp only [← hl, List.length_append, List.length_cons]
        omega

theorem pieces_end {before code : Bytes}
    (h : nextCode (before ++ code) = some (before.length, code.length)) :
    pieces (before ++ code) = [] := by
  rw [pieces]
  simp only [h]
  split
  · rfl
  · rename_i hcons
    rw [← List.length_append, List.drop_length] at hcons
    cases hcons

/-! ## The two loops over the pieces -/

section Loops

variable {data before code tail : Bytes} {header : UInt8} {offset : Nat}

/-- A search from `offset` on that passes `before` and `code`. -/
theorem findStartCode_at {rest : Bytes} (hdata : data.drop offset = before ++ (code ++ rest))
    (hnext : nextCode (before ++ (code ++ rest)) = some (before.length, code.length)) :
    findStartCode data offset = some (offset + before.length, code.length) ∧
      data[offset + before.length + code.length]? = rest.head? ∧
      data.drop (offset + before.length + code.length + 1) = rest.tail := by
  have hrest : data.drop (offset + before.length + code.length) = rest := by
    rw [Nat.add_assoc, ← List.drop_drop, hdata, ← List.drop_drop, List.drop_left, List.drop_left]
  refine ⟨by rw [findStartCode_eq, hdata, hnext]; rfl, ?_, ?_⟩
  · rw [← List.head?_drop, hrest]
  · rw [← List.drop_drop, hrest, List.drop_one]

theorem findStartCode_none (h : nextCode (data.drop offset) = none) :
    findStartCode data offset = none := by
  rw [findStartCode_eq, h]
  rfl

theorem containsNalTypeFrom_eq (data : Bytes) (type : UInt8) (offset : Nat) :
    containsNalTypeFrom data type offset =
      (pieces (data.drop offset)).any fun p => nalType p.header == type := by
  generalize hl : data.drop offset = l
  induction l using pieces_induction generalizing offset with
  | hnone l h =>
    rw [pieces_of_none h, containsNalTypeFrom, findStartCode_none (hl ▸ h)]
    rfl
  | hend before code hstart hfree h =>
    obtain ⟨hfind, hhead, htail⟩ := @findStartCode_at data before code offset []
      (by rw [hl, List.append_nil]) (by rw [List.append_nil]; exact h)
    have hover : findStartCode data (offset + before.length + code.length + 1) = none :=
      findStartCode_none (by rw [htail]; rfl)
    rw [pieces_end h, containsNalTypeFrom, hfind]
    simp only [hhead, List.head?_nil, List.any_nil]
    rw [containsNalTypeFrom, hover]
  | hpiece before code header tail hstart hfree h ih =>
    obtain ⟨hfind, hhead, htail⟩ := findStartCode_at hl h
    rw [pieces_cons h, containsNalTypeFrom, hfind]
    simp only [hhead, List.head?_cons, List.any_cons, ih _ htail]
    by_cases htype : nalType header = type <;> simp [htype]

/-- **`containsNalType` looks at the headers of the pieces.** -/
theorem containsNalType_iff (data : Bytes) (type : UInt8) :
    containsNalType data type = true ↔ ∃ p ∈ pieces data, nalType p.header = type := by
  simp [containsNalType, containsNalTypeFrom_eq]

/-- One pass through the loop: the piece ends where the search behind the header byte stops. -/
theorem extractBootstrapConfigFrom_step {start prefixLen : Nat}
    (hfind : findStartCode data offset = some (start, prefixLen))
    (hhead : data[start + prefixLen]? = some header)
    (htail : data.drop (start + prefixLen + 1) = tail) :
    extractBootstrapConfigFrom data offset =
      (if isConfigType (nalType header) then
        (data.take (start + prefixLen + 1 + gap tail)).drop start else []) ++
      extractBootstrapConfigFrom data (start + prefixLen + 1) := by
  have hsearch := findStartCode_eq data (start + prefixLen + 1)
  rw [htail] at hsearch
  have hlen : tail.length = data.length - (start + prefixLen + 1) := by
    rw [← htail, List.length_drop]
  have hlt := (List.getElem?_eq_some_iff.mp hhead).1
  have hgap : gap tail = match nextCode tail with | none => tail.length | some (n, _) => n := rfl
  rw [extractBootstrapConfigFrom, hfind]
  simp only [hhead]
  cases hnext : nextCode tail with
  | none =>
    rw [hnext, Option.map_none] at hsearch
    simp only [hnext] at hgap
    have hend : start + prefixLen + 1 + gap tail = data.length := by omega
    simp only [hsearch, hend]
  | some c =>
    rw [hnext, Option.map_some] at hsearch
    simp only [hnext] at hgap
    simp only [hsearch, hgap]

theorem extractBootstrapConfigFrom_eq (data : Bytes) (offset : Nat) :
    extractBootstrapConfigFrom data offset =
      ((pieces (data.drop offset)).filter fun p => isConfigType (nalType p.header)).flatMap
        NalPiece.bytes := by
  generalize hl : data.drop offset = l
  induction l using pieces_induction generalizing offset with
  | hnone l h =>
    rw [pieces_of_none h, extractBootstrapConfigFrom, findStartCode_none (hl ▸ h)]
    rfl
  | hend before code hstart hfree h =>
    obtain ⟨hfind, hhead, htail⟩ := @findStartCode_at data before code offset []
      (by rw [hl, List.append_nil]) (by rw [List.append_nil]; exact h)
    rw [pieces_end h, extractBootstrapConfigFrom, hfind]
    simp only [hhead, List.head?_nil, List.filter_nil, List.flatMap_nil]
  | hpiece before code header tail hstart hfree h ih =>
    obtain ⟨hfind, hhead, htail⟩ := findStartCode_at hl h
    have hpiece : (data.take (offset + before.length + code.length + 1 + gap tail)).drop
        (offset + before.length) = NalPiece.bytes ⟨code, header, tail.take (gap tail)⟩ := by
      rw [Nat.add_assoc, Nat.add_assoc, ← List.take_drop, ← List.drop_drop, hl, List.drop_left,
        NalPiece.bytes, List.take_length_add_append, Nat.add_comm 1, List.take_succ_cons]
    rw [List.tail_cons] at htail
    rw [pieces_cons h, extractBootstrapConfigFrom_step hfind hhead htail, hpiece, ih _ htail,
      List.filter_cons]
    by_cases htype : isConfigType (nalType header) = true <;> simp [htype]

/-- **`extractBootstrapConfig` concatenates the pieces of the configuration types.** -/
theorem extractBootstrapConfig_eq (data : Bytes) :
    extractBootstrapConfig data =
      ((pieces data).filter fun p => isConfigType (nalType p.header)).flatMap NalPiece.bytes := by
  rw [extractBootstrapConfig, extractBootstrapConfigFrom_eq, List.drop_zero]

end Loops

/-- The pieces do not overlap: together they are no longer than what lies behind the first gap. -/
theorem length_pieces_le (l : Bytes) :
    gap l + ((pieces l).flatMap NalPiece.bytes).length ≤ l.length := by
  induction l using pieces_induction with
  | hnone l h => simp [pieces_of_none h, gap, h]
  | hend before code hstart hfree h => simp [pieces_end h, gap, h]
  | hpiece before code header tail hstart hfree h ih =>
    have hgap : gap (before ++ (code ++ header :: tail)) = before.length := by simp only [gap, h]
    have htake := List.length_take_le (gap tail) tail
    rw [hgap, pieces_cons h, List.flatMap_cons]
    simp only [NalPiece.bytes, List.length_append, List.length_cons] at ih ⊢
    omega

/-- A configuration is no longer than the frame it comes from. -/
theorem length_extractBootstrapConfig_le (data : Bytes) :
    (extractBootstrapConfig data).length ≤ data.length := by
  rw [extractBootstrapConfig_eq]
  have hsub : (((pieces data).filter fun p => isConfigType (nalType p.header)).flatMap
      NalPiece.bytes).Sublist ((pieces data).flatMap NalPiece.bytes) :=
    List.filter_sublist.flatMap _
  have := hsub.length_le
  have := length_pieces_le data
  omega

/-! ## Pieces put together -/

/-- A start code behind bytes that hold none is found, with its header byte, though a zero at the
end of these bytes may be taken into the code. -/
theorem nextCode_append {before code : Bytes} (hfree : NoCode before) (hstart : IsStartCode code)
    (header : UInt8) (rest : Bytes) :
    ∃ n m, nextCode (before ++ (code ++ header :: rest)) = some (n, m) ∧
      n + m = before.length + code.length ∧
      (before.getLast? ≠ some 0 → n = before.length) := by
  induction before with
  | nil => exact ⟨0, code.length, nextCode_of_codeAt (codeAt_code hstart header rest), by simp⟩
  | cons b l ih =>
    obtain ⟨n, m, hnext, hsum, hexact⟩ := ih hfree.tail
    cases hcode : codeAt (b :: l ++ (code ++ header :: rest)) with
    | none =>
      refine ⟨n + 1, m, ?_, by simp only [List.length_cons]; omega, ?_⟩
      · rw [List.cons_append] at hcode ⊢
        rw [nextCode_cons hcode, hnext]
        rfl
      · intro hlast
        cases l with
        | nil => rw [hexact (by simp)]; rfl
        | cons c l => rw [hexact (by simpa using hlast)]; rfl
    | some k =>
      -- only a zero right before a short code makes a code that starts earlier
      refine ⟨0, k, nextCode_of_codeAt hcode, ?_⟩
      match l with
      | [] => rcases hstart with rfl | rfl <;> simp_all [codeAt]
      | [_] => rcases hstart with rfl | rfl <;> simp_all [codeAt]
      | [_, _] => rcases hstart with rfl | rfl <;> simp_all [codeAt, NoCode]
      | c :: d :: e :: l =>
        have hsame : codeAt (b :: c :: d :: e :: l ++ (code ++ header :: rest)) =
            codeAt (b :: c :: d :: e :: l) := rfl
        rw [hsame, codeAt_of_noCode hfree] at hcode
        cases hcode

/-- A list of pieces that can stand one behind the other: a piece that has others behind it holds no
`00 00 01` after its header byte. -/
structure Glued (ps : List NalPiece) : Prop where
  code : ∀ p ∈ ps, IsStartCode p.code
  closed : ∀ p ∈ ps, nextCode p.body = none
  inner : ps.Pairwise fun p _ => NoCode p.body

theorem Glued.sublist {ps qs : List NalPiece} (h : Glued qs) (hsub : ps.Sublist qs) : Glued ps :=
  ⟨fun p hp => h.code p (hsub.mem hp), fun p hp => h.closed p (hsub.mem hp), h.inner.sublist hsub⟩

theorem Glued.tail {p : NalPiece} {ps : List NalPiece} (h : Glued (p :: ps)) : Glued ps :=
  h.sublist (List.sublist_cons_self p ps)

/-- What stands before the first start code of a buffer holds none, also at its very end. -/
theorem nextCode_take_gap (l : Bytes) : nextCode (l.take (gap l)) = none := by
  cases h : nextCode l with
  | none => simp only [gap, h, List.take_length]
  | some c =>
    obtain ⟨before, code, rest, rfl, hgap, -, -, hfree⟩ := nextCode_some h
    simp only [gap, h, ← hgap, List.take_left, nextCode_of_noCode hfree]

/-- The pieces of a buffer can stand as they are. -/
theorem glued_pieces (l : Bytes) : Glued (pieces l) := by
  induction l using pieces_induction with
  | hnone l h => rw [pieces_of_none h]; exact ⟨by simp, by simp, .nil⟩
  | hend before code hstart hfree h => rw [pieces_end h]; exact ⟨by simp, by simp, .nil⟩
  | hpiece before code header tail hstart hfree h ih =>
    rw [pieces_cons h]
    refine ⟨?_, ?_, List.pairwise_cons.mpr ⟨?_, ih.inner⟩⟩
    · simpa using ⟨hstart, ih.code⟩
    · simpa using ⟨nextCode_take_gap tail, ih.closed⟩
    · intro q hq
      cases hnext : nextCode tail with
      | none => rw [pieces_of_none hnext] at hq; cases hq
      | some c =>
        obtain ⟨before', code', rest, rfl, hgap, -, -, hfree'⟩ := nextCode_some hnext
        simpa only [gap, hnext, ← hgap, List.take_left] using hfree'

theorem Glued.noCode_body {p : NalPiece} {ps : List NalPiece} (h : Glued (p :: ps))
    (hne : ps ≠ []) : NoCode p.body := by
  obtain ⟨q, ps, rfl⟩ := List.exists_cons_of_ne_nil hne
  exact (List.pairwise_cons.mp h.inner).1 q List.mem_cons_self

/-- The first code found in pieces put together may start a byte early, but it ends where the header
byte of the first piece stands. -/
theorem nextCode_glued {p : NalPiece} {ps : List NalPiece} (h : Glued (p :: ps)) {before : Bytes}
    (hfree : NoCode before) :
    ∃ before' code', before ++ (p :: ps).flatMap NalPiece.bytes =
        before' ++ (code' ++ p.header :: (p.body ++ ps.flatMap NalPiece.bytes)) ∧
      nextCode (before' ++ (code' ++ p.header :: (p.body ++ ps.flatMap NalPiece.bytes))) =
        some (before'.length, code'.length) := by
  obtain ⟨n, m, hnext, hsum, -⟩ := nextCode_append hfree (h.code p List.mem_cons_self) p.header
    (p.body ++ ps.flatMap NalPiece.bytes)
  have hbytes : before ++ (p :: ps).flatMap NalPiece.bytes =
      before ++ (p.code ++ p.header :: (p.body ++ ps.flatMap NalPiece.bytes)) := by
    simp [NalPiece.bytes]
  obtain ⟨before', code', rest, hsplit, rfl, rfl, -, -⟩ := nextCode_some hnext
  have hends : rest = p.header :: (p.body ++ ps.flatMap NalPiece.bytes) := by
    rw [← List.append_assoc, ← List.append_assoc before'] at hsplit
    exact ((List.append_inj' hsplit (by
      have := congrArg List.length hsplit
      simp only [List.length_append] at this hsum ⊢
      omega)).2).symm
  rw [hsplit, hends] at hnext
  exact ⟨before', code', by rw [hbytes, hsplit, hends], hnext⟩

/-- **Putting pieces together keeps their headers.** -/
theorem headers_glued {ps : List NalPiece} (h : Glued ps) {before : Bytes}
    (hclosed : nextCode before = none) (hinner : ps ≠ [] → NoCode before) :
    (pieces (before ++ ps.flatMap NalPiece.bytes)).map NalPiece.header =
      ps.map NalPiece.header := by
  induction ps generalizing before with
  | nil => simp [pieces_of_none hclosed]
  | cons p ps ih =>
    obtain ⟨before', code', hsplit, hnext⟩ := nextCode_glued h (hinner (by simp))
    rw [hsplit, pieces_cons hnext, List.map_cons, List.map_cons,
      ih h.tail (h.closed p (by simp)) h.noCode_body]

/-- **A configuration contains what it was extracted for**: the NAL types found in it are those of
the frame that are configuration types. -/
theorem containsNalType_extractBootstrapConfig (data : Bytes) (type : UInt8) :
    containsNalType (extractBootstrapConfig data) type =
      (isConfigType type && containsNalType data type) := by
  have hglued := (glued_pieces data).sublist
    (List.filter_sublist (p := fun p => isConfigType (nalType p.header)))
  have hheaders := @headers_glued _ hglued [] rfl fun _ => noCode_nil
  rw [List.nil_append, ← extractBootstrapConfig_eq] at hheaders
  have hmem : ∀ ps : List NalPiece, (∃ p ∈ ps, nalType p.header = type) ↔
      ∃ header ∈ ps.map NalPiece.header, nalType header = type := by simp
  rw [Bool.eq_iff_iff, Bool.and_eq_true, containsNalType_iff, containsNalType_iff, hmem, hheaders,
    ← hmem]
  constructor
  · rintro ⟨p, hp, rfl⟩
    rw [List.mem_filter] at hp
    exact ⟨hp.2, p, hp.1, rfl⟩
  · rintro ⟨hconfig, p, hp, rfl⟩
    exact ⟨p, List.mem_filter.mpr ⟨hp, hconfig⟩, rfl⟩

/-! ## Well-formed access units -/

theorem isConfigType_iff (type : UInt8) : isConfigType type = true ↔ type ∈ [6, 7, 8] := by
  simp only [isConfigType, Bool.or_eq_true, beq_iff_eq, List.mem_cons, List.not_mem_nil, or_false]
  tauto

inductive StartCode where
  | three
  | four
  deriving DecidableEq, Repr

def StartCode.bytes : StartCode → Bytes
  | three => [0, 0, 1]
  | four => [0, 0, 0, 1]

/-- A NAL unit with the start code in front of it. -/
structure NalUnit where
  startCode : StartCode
  nal : Bytes
  nonempty : nal ≠ []
  noCode : ¬ [0, 0, 1] <:+: nal
  noTrailingZero : nal.getLast? ≠ some 0

namespace NalUnit

def bytes (u : NalUnit) : Bytes := u.startCode.bytes ++ u.nal

def header (u : NalUnit) : UInt8 := u.nal.head u.nonempty

def toPiece (u : NalUnit) : NalPiece := ⟨u.startCode.bytes, u.header, u.nal.tail⟩

theorem bytes_toPiece (u : NalUnit) : u.toPiece.bytes = u.bytes := by
  rw [NalPiece.bytes, bytes, toPiece, header, List.cons_head_tail]

theorem noCode_body (u : NalUnit) : NoCode u.toPiece.body :=
  fun h => u.noCode (h.trans (List.tail_suffix u.nal).isInfix)

theorem body_getLast (u : NalUnit) : u.toPiece.body.getLast? ≠ some 0 := by
  intro h
  have hcons : u.nal = u.header :: u.nal.tail := (List.cons_head_tail u.nonempty).symm
  apply u.noTrailingZero
  rw [hcons]
  cases htail : u.nal.tail with
  | nil => simp [toPiece, htail] at h
  | cons b l =>
    rw [List.getLast?_cons_cons, ← htail]
    exact h

end NalUnit

theorem isStartCode_bytes (c : StartCode) : IsStartCode c.bytes := by
  cases c
  · exact .inl rfl
  · exact .inr rfl

/-- The pieces of an access unit, behind bytes that cannot be taken for a start code, are its NAL
units. -/
theorem pieces_flatMap {us : List NalUnit} {before : Bytes} (hfree : NoCode before)
    (hlast : before.getLast? ≠ some 0) :
    gap (before ++ us.flatMap NalUnit.bytes) = before.length ∧
      pieces (before ++ us.flatMap NalUnit.bytes) = us.map NalUnit.toPiece := by
  induction us generalizing before with
  | nil =>
    have hnone := nextCode_of_noCode hfree
    simp [gap, hnone, pieces_of_none hnone]
  | cons u us ih =>
    have hbytes : before ++ (u :: us).flatMap NalUnit.bytes =
        before ++ (u.startCode.bytes ++
          u.header :: (u.toPiece.body ++ us.flatMap NalUnit.bytes)) := by
      rw [List.flatMap_cons, ← u.bytes_toPiece, NalPiece.bytes]
      simp [NalUnit.toPiece]
    obtain ⟨n, m, hnext, hsum, hexact⟩ := nextCode_append hfree (isStartCode_bytes u.startCode)
      u.header (u.toPiece.body ++ us.flatMap NalUnit.bytes)
    obtain rfl := hexact hlast
    obtain rfl : m = u.startCode.bytes.length := by omega
    obtain ⟨hgap, hpieces⟩ := ih u.noCode_body u.body_getLast
    rw [hbytes]
    refine ⟨by simp only [gap, hnext], ?_⟩
    rw [pieces_cons hnext, hgap, hpieces, List.take_left]
    rfl

/-- **Annex B scanning is exact on well-formed access units.** -/
theorem annexB_scan_exact (us : List NalUnit) (type : UInt8) :
    let data := us.flatMap NalUnit.bytes
    (containsNalType data type = true ↔ ∃ u ∈ us, nalType u.header = type) ∧
    extractBootstrapConfig data =
      (us.filter fun u => nalType u.header ∈ [6, 7, 8]).flatMap NalUnit.bytes := by
  intro data
  have hpieces : pieces data = us.map NalUnit.toPiece :=
    (@pieces_flatMap us [] noCode_nil (by simp)).2
  have hconfig : ∀ t : UInt8, isConfigType t = decide (t ∈ [6, 7, 8]) := fun t => by
    rw [Bool.eq_iff_iff, isConfigType_iff, decide_eq_true_eq]
  rw [containsNalType_iff, extractBootstrapConfig_eq, hpieces, List.filter_map, List.flatMap_map]
  refine ⟨by simp [NalUnit.toPiece], ?_⟩
  simp only [Function.comp_def, hconfig, NalUnit.bytes_toPiece]
  rfl

end EdgeVision
