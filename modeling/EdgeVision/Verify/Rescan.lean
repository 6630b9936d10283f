import EdgeVision.Lib.Slices
import EdgeVision.Verify.NalScan

/-!
# Scanning a configuration again

The pieces of a buffer lie one behind the other, so those that `extractBootstrapConfig` keeps are
slices of the buffer in order (`cut_pieces`). Put together they are scanned into pieces with the
same headers, which cover the whole configuration (`pieces_glued_cover`): though a zero may move
from the end of one piece into the start code of the next, nothing is lost and nothing found that
was not there (`bootstrap_rescan`).
-/

namespace EdgeVision

open Lib

theorem gap_of_nextCode {l : Bytes} {n m : Nat} (h : nextCode l = some (n, m)) : gap l = n := by
  simp only [gap, h]

/-- The pieces of a buffer are cut out of what lies behind the first gap. -/
theorem cut_pieces (l : Bytes) : Cut (l.drop (gap l)) ((pieces l).map NalPiece.bytes) := by
  induction l using pieces_induction with
  | hnone l h =>
    rw [pieces_of_none h]
    exact .nil _
  | hend before code hstart hfree h =>
    rw [pieces_end h]
    exact .nil _
  | hpiece before code header tail hstart hfree h ih =>
    rw [gap_of_nextCode h, List.drop_left, pieces_cons h]
    have hpiece : code ++ header :: tail = [] ++
        (NalPiece.bytes ⟨code, header, tail.take (gap tail)⟩ ++ tail.drop (gap tail)) := by
      rw [NalPiece.bytes, List.nil_append, List.append_assoc, List.cons_append,
        List.take_append_drop]
    rw [hpiece, List.map_cons]
    exact .cons [] _ ih

/-- Pieces put together are covered by the pieces found in them, behind the first gap. -/
theorem pieces_glued_cover {ps : List NalPiece} (h : Glued ps) {before : Bytes}
    (hclosed : nextCode before = none) (hinner : ps ≠ [] → NoCode before) :
    (pieces (before ++ ps.flatMap NalPiece.bytes)).flatMap NalPiece.bytes =
      (before ++ ps.flatMap NalPiece.bytes).drop (gap (before ++ ps.flatMap NalPiece.bytes)) := by
  induction ps generalizing before with
  | nil => simp [pieces_of_none hclosed, gap, hclosed]
  | cons p ps ih =>
    obtain ⟨before', code', hsplit, hnext⟩ := nextCode_glued h (hinner (by simp))
    rw [hsplit, gap_of_nextCode hnext, List.drop_left, pieces_cons hnext, List.flatMap_cons,
      ih h.tail (h.closed p (by simp)) h.noCode_body, NalPiece.bytes, List.append_assoc,
      List.cons_append, List.take_append_drop]

/-- Two pieces with three-byte codes, the first one ending in a zero. -/
example : (pieces [0, 0, 1, 0x67, 9, 0, 0, 0, 1, 0x68]).map NalPiece.code =
    [[0, 0, 1], [0, 0, 0, 1]] := by decide +kernel

theorem gap_flatMap {ps : List NalPiece} (h : Glued ps) : gap (ps.flatMap NalPiece.bytes) = 0 := by
  cases ps with
  | nil => rfl
  | cons p ps =>
    rw [List.flatMap_cons, NalPiece.bytes, List.append_assoc, List.cons_append]
    exact gap_of_nextCode (nextCode_of_codeAt (codeAt_code (h.code p List.mem_cons_self) _ _))

/-- The pieces of a buffer that go into the configuration. -/
def configPieces (data : Bytes) : List NalPiece :=
  (pieces data).filter fun p => isConfigType (nalType p.header)

theorem glued_configPieces (data : Bytes) : Glued (configPieces data) :=
  (glued_pieces data).sublist List.filter_sublist

theorem extractBootstrapConfig_eq_configPieces (data : Bytes) :
    extractBootstrapConfig data = (configPieces data).flatMap NalPiece.bytes :=
  extractBootstrapConfig_eq data

/-- All pieces of a configuration are of a configuration type. -/
theorem configPieces_extractBootstrapConfig (data : Bytes) :
    configPieces (extractBootstrapConfig data) = pieces (extractBootstrapConfig data) := by
  have hheaders := @headers_glued _ (glued_configPieces data) [] rfl fun _ => noCode_nil
  rw [List.nil_append, ← extractBootstrapConfig_eq_configPieces] at hheaders
  refine List.filter_eq_self.mpr fun p hp => ?_
  have hmem : p.header ∈ (configPieces data).map NalPiece.header :=
    hheaders ▸ List.mem_map_of_mem hp
  obtain ⟨q, hq, hsame⟩ := List.mem_map.mp hmem
  rw [← hsame]
  exact (List.mem_filter.mp hq).2

theorem extractBootstrapConfig_idem (data : Bytes) :
    extractBootstrapConfig (extractBootstrapConfig data) = extractBootstrapConfig data := by
  have hcover := @pieces_glued_cover _ (glued_configPieces data) [] rfl fun _ => noCode_nil
  rw [List.nil_append, gap_flatMap (glued_configPieces data), List.drop_zero,
    ← extractBootstrapConfig_eq_configPieces] at hcover
  rw [extractBootstrapConfig_eq_configPieces, configPieces_extractBootstrapConfig, hcover]

/-- The configuration is put together from slices in order. -/
theorem extractBootstrapConfig_slices (data : Bytes) :
    ∃ slices, InOrder data.length slices ∧
      slices.map (slice data) = (configPieces data).map NalPiece.bytes := by
  have hsub : ((configPieces data).map NalPiece.bytes).Sublist
      ((pieces data).map NalPiece.bytes) := List.filter_sublist.map _
  have hcut := ((cut_pieces data).sublist hsub).append_left (data.take (gap data))
  rw [List.take_append_drop] at hcut
  obtain ⟨slices, hslices, hparts⟩ := hcut.inOrder
  exact ⟨slices, hslices, hparts.symm⟩

/-- **The two scanners agree on any bytes.** A configuration has the NAL types of its frame that are
configuration types and no others, extracting from it again changes nothing, and it is put together
from slices of the frame in order, each a start code, a header of a configuration type and a body. -/
theorem bootstrap_rescan (data : Bytes) (type : UInt8) :
    (containsNalType (extractBootstrapConfig data) type = true ↔
      type ∈ [6, 7, 8] ∧ containsNalType data type = true) ∧
    extractBootstrapConfig (extractBootstrapConfig data) = extractBootstrapConfig data ∧
    ∃ slices, InOrder data.length slices ∧
      extractBootstrapConfig data = slices.flatMap (slice data) ∧
      ∀ s ∈ slices, ∃ code header body, slice data s = code ++ header :: body ∧
        IsStartCode code ∧ nalType header ∈ [6, 7, 8] := by
  refine ⟨?_, extractBootstrapConfig_idem data, ?_⟩
  · rw [containsNalType_extractBootstrapConfig, Bool.and_eq_true, isConfigType_iff]
  · obtain ⟨slices, hslices, hparts⟩ := extractBootstrapConfig_slices data
    refine ⟨slices, hslices, ?_, fun s hs => ?_⟩
    · rw [List.flatMap_def, hparts, ← List.flatMap_def, extractBootstrapConfig_eq_configPieces]
    · have hmem : slice data s ∈ (configPieces data).map NalPiece.bytes :=
        hparts ▸ List.mem_map_of_mem hs
      obtain ⟨p, hp, hbytes⟩ := List.mem_map.mp hmem
      exact ⟨p.code, p.header, p.body, hbytes.symm, (glued_configPieces data).code p hp,
        (isConfigType_iff _).mp (List.mem_filter.mp hp).2⟩

end EdgeVision
