import EdgeVision.Lib.LineLog
import EdgeVision.Metrics.MetricsWriter
import EdgeVision.Verify.EventJson

/-!
# The log files are read back

Both loggers write a record as one line through the buffer of a file stream and flush it before the
next one, and open their file to append to it. Whenever the process ends, and however often it is
started again on the same files, a reader that takes the lines that are JSON gets the records back in
order, but for one at most for each write that was interrupted (`event_log_read_back`,
`metrics_log_read_back`). Strings are characters, that is, valid UTF-8 in the file; numbers are read
back as the stream has printed them, with six significant digits; and the stream itself does not fail.
-/

namespace EdgeVision

open Lib Json

/-! ## A line of metrics -/

namespace MetricsWriter

open EventLogger

theorem plain_timestamp : "timestamp".toList.all isPlain = true := by decide

/-- The members for a snapshot. -/
def snapshotParts (snapshot : MetricsSnapshot) : List Part :=
  [⟨"timestamp", '"' :: formatUnixMicros snapshot.timestampUs.toNat ++ ['"'],
      .string (formatUnixMicros snapshot.timestampUs.toNat), plain_timestamp⟩,
    numberPart "capture_fps" (printFloat (.fin snapshot.captureFps)) (by decide),
    numberPart "encode_fps" (printFloat (.fin snapshot.encodeFps)) (by decide),
    numberPart "ai_fps" (printFloat (.fin snapshot.aiFps)) (by decide),
    numberPart "average_encode_ms" (printFloat (.fin snapshot.averageEncodeMs)) (by decide),
    numberPart "average_inference_ms" (printFloat (.fin snapshot.averageInferenceMs)) (by decide),
    numberPart "cpu_percent" (printFloat (.fin snapshot.cpuPercent)) (by decide),
    numberPart "rss_mb" (printFloat (.fin snapshot.rssMb)) (by decide),
    numberPart "bytes_sent" (IStream.decimal snapshot.bytesSent.toNat) (by decide),
    numberPart "events_written" (IStream.decimal snapshot.eventsWritten.toNat) (by decide),
    numberPart "encode_queue_drops" (IStream.decimal snapshot.encodeQueueDrops.toNat) (by decide),
    numberPart "ai_queue_drops" (IStream.decimal snapshot.aiQueueDrops.toNat) (by decide)]

/-- What a line is to say. -/
def snapshotJson (snapshot : MetricsSnapshot) : Json :=
  .object
    [("timestamp".toList, .string (formatUnixMicros snapshot.timestampUs.toNat)),
      ("capture_fps".toList, .number (printFloat (.fin snapshot.captureFps))),
      ("encode_fps".toList, .number (printFloat (.fin snapshot.encodeFps))),
      ("ai_fps".toList, .number (printFloat (.fin snapshot.aiFps))),
      ("average_encode_ms".toList, .number (printFloat (.fin snapshot.averageEncodeMs))),
      ("average_inference_ms".toList, .number (printFloat (.fin snapshot.averageInferenceMs))),
      ("cpu_percent".toList, .number (printFloat (.fin snapshot.cpuPercent))),
      ("rss_mb".toList, .number (printFloat (.fin snapshot.rssMb))),
      ("bytes_sent".toList, .number (IStream.decimal snapshot.bytesSent.toNat)),
      ("events_written".toList, .number (IStream.decimal snapshot.eventsWritten.toNat)),
      ("encode_queue_drops".toList, .number (IStream.decimal snapshot.encodeQueueDrops.toNat)),
      ("ai_queue_drops".toList, .number (IStream.decimal snapshot.aiQueueDrops.toNat))]

/-- The line of a snapshot, without its end. -/
def snapshotLine (snapshot : MetricsSnapshot) : List Char :=
  Part.objectText (snapshotParts snapshot)

/-- A number with its key in front of it. -/
theorem bytes_number (opening key : String) (text : List Char) (more : Bytes)
    (hkey : key.toList.all isPlain = true)
    (h : opening.toList = '"' :: key.toList ++ ['"', ':']) :
    bytes opening ++ (utf8 text ++ more) = utf8 (numberPart key text hkey).memberText ++ more := by
  rw [bytes, h, ← List.append_assoc, ← Utf8.append, Part.memberText]
  simp only [numberPart, List.append_assoc, List.cons_append, List.nil_append]

theorem snapshotText_eq_line (snapshot : MetricsSnapshot) :
    snapshotText snapshot = utf8 (snapshotLine snapshot) ++ [10] := by
  have htimestamp (text : List Char) (json : Json) (more : Bytes) :
      bytes "\"timestamp\":\"" ++ (utf8 text ++ (bytes "\"," ++ more)) =
        utf8 (Part.memberText ⟨"timestamp", '"' :: text ++ ['"'], json, plain_timestamp⟩) ++
          (bytes "," ++ more) := by
    have hopening : "\"timestamp\":\"".toList = '"' :: "timestamp".toList ++ ['"', ':', '"'] := by
      decide
    rw [bytes, bytes, bytes, hopening, Part.memberText]
    simp only [← List.append_assoc, ← Utf8.append]
    simp
  have hopen : bytes "\x7b" = utf8 ['{'] := rfl
  have hcomma : bytes "," = utf8 [','] := rfl
  have hclose : bytes "\x7d\n" = utf8 ['}'] ++ [10] := rfl
  unfold snapshotText
  simp only [List.append_assoc]
  rw [htimestamp _ (.string (formatUnixMicros snapshot.timestampUs.toNat)),
    bytes_number "\"capture_fps\":" "capture_fps" _ _ (by decide) (by decide),
    bytes_number "\"encode_fps\":" "encode_fps" _ _ (by decide) (by decide),
    bytes_number "\"ai_fps\":" "ai_fps" _ _ (by decide) (by decide),
    bytes_number "\"average_encode_ms\":" "average_encode_ms" _ _ (by decide) (by decide),
    bytes_number "\"average_inference_ms\":" "average_inference_ms" _ _ (by decide) (by decide),
    bytes_number "\"cpu_percent\":" "cpu_percent" _ _ (by decide) (by decide),
    bytes_number "\"rss_mb\":" "rss_mb" _ _ (by decide) (by decide),
    bytes_number "\"bytes_sent\":" "bytes_sent" _ _ (by decide) (by decide),
    bytes_number "\"events_written\":" "events_written" _ _ (by decide) (by decide),
    bytes_number "\"encode_queue_drops\":" "encode_queue_drops" _ _ (by decide) (by decide),
    bytes_number "\"ai_queue_drops\":" "ai_queue_drops" _ _ (by decide) (by decide),
    hopen, hcomma, hclose]
  simp -implicitDefEqProofs only [snapshotLine, snapshotParts, Part.objectText, commaJoin,
    List.map_cons, List.map_nil, List.flatMap_cons, List.flatMap_nil, ← List.append_assoc,
    ← Utf8.append]
  simp -implicitDefEqProofs only [List.append_assoc, List.cons_append, List.nil_append,
    List.append_nil]

theorem newline_notMem_snapshotLine (snapshot : MetricsSnapshot) :
    '\n' ∉ snapshotLine snapshot := by
  apply Part.newline_notMem_objectText
  simp only [snapshotParts, numberPart, List.forall_mem_cons, List.not_mem_nil, false_implies,
    implies_true, and_true]
  have htimestamp := newline_notMem_of_plain (plain_formatUnixMicros snapshot.timestampUs.toNat)
  have hfloat (q : Rat) : '\n' ∉ printFloat (.fin q) := newline_notMem_printFloat ⟨q, rfl⟩
  exact ⟨newline_notMem_between (by decide) (by decide) htimestamp, hfloat _, hfloat _, hfloat _,
    hfloat _, hfloat _, hfloat _, hfloat _, newline_notMem_decimal _, newline_notMem_decimal _,
    newline_notMem_decimal _, newline_notMem_decimal _⟩

theorem reads_snapshotParts (snapshot : MetricsSnapshot) (depth : Nat) :
    ∀ part ∈ snapshotParts snapshot, Reads (value (depth + 1)) part.text part.json := by
  simp only [snapshotParts, numberPart, List.forall_mem_cons, List.not_mem_nil, false_implies,
    implies_true, and_true]
  have hfloat (q : Rat) :
      Reads (value (depth + 1)) (printFloat (.fin q)) (.number (printFloat (.fin q))) :=
    reads_printFloat ⟨q, rfl⟩ depth
  exact ⟨reads_string (spells_self (plain_formatUnixMicros _)), hfloat _, hfloat _, hfloat _,
    hfloat _, hfloat _, hfloat _, hfloat _, reads_decimal _ _, reads_decimal _ _,
    reads_decimal _ _, reads_decimal _ _⟩

theorem parse_snapshotLine (snapshot : MetricsSnapshot) :
    parse (snapshotLine snapshot) = some (snapshotJson snapshot) := by
  have hlength : 3 ≤ (snapshotLine snapshot).length := Part.length_objectText _ _
  obtain ⟨depth, hdepth⟩ := Nat.exists_eq_add_of_le' hlength
  have hreads := Part.reads_objectText (reads_snapshotParts snapshot (depth + 2))
  apply parse_of_reads
  rw [hdepth]
  exact hreads

/-! ## The metrics log -/

/-- A write that comes to its end is one of the logger. -/
theorem write_through {s t : LineLog UInt8 MetricsSnapshot} {snapshot : MetricsSnapshot}
    (hopen : s.isOpen = true) (hcurrent : s.current = none)
    (hrun : Reaches (LineLog.step snapshotText) LineLog.within (s.write snapshotText snapshot) t)
    (hend : t.current = none) : (write ⟨some s.file⟩ snapshot).stream = some t.file := by
  rw [LineLog.write_through hopen hcurrent hrun hend]
  rfl

/-- **The metrics log is read back.** -/
theorem metrics_log_read_back {s : LineLog UInt8 MetricsSnapshot}
    (h : Reaches (LineLog.step snapshotText) (LineLog.writes fun _ => True) .initial s) :
    s.ReadBack 10 snapshotText (fun _ => True) parseUtf8 snapshotJson := by
  have htext (snapshot : MetricsSnapshot) (_ : True) :
      snapshotText snapshot = utf8 (snapshotLine snapshot) ++ [10] := snapshotText_eq_line snapshot
  have hline (snapshot : MetricsSnapshot) (_ : True) : 10 ∉ utf8 (snapshotLine snapshot) :=
    Utf8.notMem (by decide : '\n'.toNat < 128) (newline_notMem_snapshotLine snapshot)
  have hparse (snapshot : MetricsSnapshot) (_ : True) :
      parseUtf8 (utf8 (snapshotLine snapshot)) = some (snapshotJson snapshot) :=
    (parseUtf8_utf8 _).trans (parse_snapshotLine snapshot)
  exact LineLog.readBack htext hline hparse h

/-- A process that ends with half a line in the file, and one that goes on behind it. -/
theorem metrics_log_read_back_torn :
    ∃ s, Reaches (LineLog.step snapshotText) (LineLog.writes fun _ => True) .initial s ∧
      (s.written.length, s.interrupted) = (2, 1) ∧
        s.ReadBack 10 snapshotText (fun _ => True) parseUtf8 snapshotJson := by
  let snapshot : MetricsSnapshot := ⟨0, 30, 29, 10, 5 / 2, 12, 150, 64, 1000, 3, 0, 1⟩
  let labels : List (LogLabel MetricsSnapshot) :=
    [.restart true, .write snapshot, .put 1000, .spill 40, .restart true, .write snapshot,
      .put 500, .spill 1000, .flush, .write snapshot, .put 1000, .flush]
  have hrun : (runLabels (LineLog.step snapshotText) (LineLog.writes fun _ => True) .initial
      labels).map (fun s => (s.written.length, s.interrupted)) = some (2, 1) := by
    decide +kernel
  obtain ⟨s, hreach, hseen⟩ := Reaches.exists_of_runLabels hrun
  exact ⟨s, hreach, hseen, metrics_log_read_back hreach⟩

end MetricsWriter

/-! ## The event log -/

namespace EventLogger

/-- A result that its line can say: numbers that are finite, and strings (of valid UTF-8, as every
`String` is) without control characters that `escapeJson` does not know. -/
def Sayable (result : EventResult) : Prop :=
  result.Finite ∧ ∀ s ∈ result.strings, Clean s.toList

/-- A write that comes to its end is one of the logger. -/
theorem write_through {s t : LineLog UInt8 EventResult} {result : EventResult}
    (hopen : s.isOpen = true) (hcurrent : s.current = none)
    (hrun : Reaches (LineLog.step eventText) LineLog.within (s.write eventText result) t)
    (hend : t.current = none) : (write ⟨some s.file⟩ result).stream = some t.file := by
  rw [LineLog.write_through hopen hcurrent hrun hend]
  rfl

theorem newline_notMem_of_sayable {result : EventResult} (h : Sayable result) :
    10 ∉ utf8 (eventLine result) :=
  Utf8.notMem (by decide : '\n'.toNat < 128) (newline_notMem_eventLine h.1)

theorem parseUtf8_of_sayable {result : EventResult} (h : Sayable result) :
    parseUtf8 (utf8 (eventLine result)) = some (eventJson result) :=
  (parseUtf8_utf8 _).trans ((parse_eventLine_iff h.1).mpr h.2)

/-- **The event log is read back.** -/
theorem event_log_read_back {s : LineLog UInt8 EventResult}
    (h : Reaches (LineLog.step eventText) (LineLog.writes Sayable) .initial s) :
    s.ReadBack 10 eventText Sayable parseUtf8 eventJson :=
  LineLog.readBack (fun result _ => eventText_eq_line result)
    (fun _ hsayable => newline_notMem_of_sayable hsayable)
    (fun _ hsayable => parseUtf8_of_sayable hsayable) h

instance (x : ExtRat) : Decidable x.IsFinite :=
  match x with
  | .fin q => .isTrue ⟨q, rfl⟩
  | .inf _ => .isFalse fun ⟨_, h⟩ => nomatch h
  | .nan => .isFalse fun ⟨_, h⟩ => nomatch h

theorem finite_iff (det : Detection) : det.Finite ↔
    det.score.IsFinite ∧ det.x1.IsFinite ∧ det.y1.IsFinite ∧ det.x2.IsFinite ∧ det.y2.IsFinite :=
  ⟨fun ⟨hscore, hx1, hy1, hx2, hy2⟩ => ⟨hscore, hx1, hy1, hx2, hy2⟩,
    fun ⟨hscore, hx1, hy1, hx2, hy2⟩ => ⟨hscore, hx1, hy1, hx2, hy2⟩⟩

instance : DecidablePred Detection.Finite := fun det => decidable_of_iff' _ (finite_iff det)

theorem sayable_iff (result : EventResult) : Sayable result ↔
    (result.preprocessMs.IsFinite ∧ result.inferenceMs.IsFinite ∧ result.postprocessMs.IsFinite ∧
      ∀ det ∈ result.detections, det.Finite) ∧ ∀ s ∈ result.strings, Clean s.toList :=
  ⟨fun ⟨⟨hpre, hinfer, hpost, hdets⟩, hclean⟩ => ⟨⟨hpre, hinfer, hpost, hdets⟩, hclean⟩,
    fun ⟨⟨hpre, hinfer, hpost, hdets⟩, hclean⟩ => ⟨⟨hpre, hinfer, hpost, hdets⟩, hclean⟩⟩

instance : DecidablePred Sayable := fun result => decidable_of_iff' _ (sayable_iff result)

/-- The process ends between the last byte of a line and its end of line. -/
theorem event_log_read_back_torn :
    ∃ s, Reaches (LineLog.step eventText) (LineLog.writes Sayable) .initial s ∧
      (s.written.length, s.interrupted) = (2, 1) ∧
        s.ReadBack 10 eventText Sayable parseUtf8 eventJson := by
  let labels : List (LogLabel EventResult) :=
    [.restart true, .write quotedResult, .put 1000, .spill ((eventText quotedResult).length - 1),
      .restart true, .write quotedResult, .put 1000, .flush, .write quotedResult, .put 1000, .flush]
  have hrun : (runLabels (LineLog.step eventText) (LineLog.writes Sayable) .initial labels).map
      (fun s => (s.written.length, s.interrupted)) = some (2, 1) := by
    decide +kernel
  obtain ⟨s, hreach, hseen⟩ := Reaches.exists_of_runLabels hrun
  exact ⟨s, hreach, hseen, event_log_read_back hreach⟩

end EventLogger

end EdgeVision
