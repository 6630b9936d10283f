import EdgeVision.Ai.Labels
import EdgeVision.Event.EventLogger

/-!
# Do the events read back?

`escapeJson` knows five escapes. The other control characters go into the file as they are, where
JSON has no place for them: a string survives exactly if it has none of these, and a line of the log
is a JSON object with the strings of its result exactly if all of them are such strings
(`event_strings_iff`). Everything else in a line is well formed for any result with finite numbers.
-/

namespace EdgeVision

open Lib Json

/-- No control characters but the three that `escapeJson` knows. -/
def Clean (chars : List Char) : Prop :=
  ∀ c ∈ chars, 32 ≤ c.toNat ∨ c = '\n' ∨ c = '\r' ∨ c = '\t'

instance (chars : List Char) : Decidable (Clean chars) :=
  decidable_of_iff ((chars.all fun c => 32 ≤ c.toNat ∨ c = '\n' ∨ c = '\r' ∨ c = '\t') = true)
    (by simp [Clean])

/-! ## The escapes, on characters -/

namespace EventLogger

def escapeChar (c : Char) : List Char :=
  if c = '\\' then ['\\', '\\']
  else if c = '"' then ['\\', '"']
  else if c = '\n' then ['\\', 'n']
  else if c = '\r' then ['\\', 'r']
  else if c = '\t' then ['\\', 't']
  else [c]

def escapeChars (chars : List Char) : List Char := chars.flatMap escapeChar

/-- The characters that have an escape. -/
def escapedChars : List Char := ['\\', '"', '\n', '\r', '\t']

theorem escapeChar_of_notMem {c : Char} (h : c ∉ escapedChars) : escapeChar c = [c] := by
  simp only [escapedChars, List.mem_cons, List.not_mem_nil, or_false, not_or] at h
  obtain ⟨hslash, hquote, hn, hr, ht⟩ := h
  rw [escapeChar, if_neg hslash, if_neg hquote, if_neg hn, if_neg hr, if_neg ht]

theorem escapeByte_of_ne {b : UInt8} (h : ∀ d ∈ escapedChars, b ≠ UInt8.ofNat d.toNat) :
    escapeByte b = [b] := by
  have hslash : b ≠ 92 := h '\\' (by decide)
  have hquote : b ≠ 34 := h '"' (by decide)
  have hn : b ≠ 10 := h '\n' (by decide)
  have hr : b ≠ 13 := h '\r' (by decide)
  have ht : b ≠ 9 := h '\t' (by decide)
  rw [escapeByte, if_neg hslash, if_neg hquote, if_neg hn, if_neg hr, if_neg ht]

theorem toNat_of_mem_escaped {d : Char} (h : d ∈ escapedChars) : d.toNat < 128 := by
  simp only [escapedChars, List.mem_cons, List.not_mem_nil, or_false] at h
  rcases h with rfl | rfl | rfl | rfl | rfl <;> decide

theorem escapeByte_of_lt {c : Char} (hc : c.toNat < 128) :
    escapeByte (UInt8.ofNat c.toNat) = utf8 (escapeChar c) := by
  by_cases hmem : c ∈ escapedChars
  · simp only [escapedChars, List.mem_cons, List.not_mem_nil, or_false] at hmem
    rcases hmem with rfl | rfl | rfl | rfl | rfl <;> rfl
  · have hne : ∀ d ∈ escapedChars, UInt8.ofNat c.toNat ≠ UInt8.ofNat d.toNat := by
      intro d hd heq
      have hvalue := congrArg UInt8.toNat heq
      rw [UInt8.toNat_ofNat_of_lt' (hc.trans (by decide)),
        UInt8.toNat_ofNat_of_lt' ((toNat_of_mem_escaped hd).trans (by decide))] at hvalue
      exact hmem (Char.toNat_inj.mp hvalue ▸ hd)
    rw [escapeChar_of_notMem hmem, escapeByte_of_ne hne, Utf8.cons, Utf8.encode_of_lt hc]
    rfl

/-- **On characters**: the bytes that are escaped are those of ASCII characters. -/
theorem escapeJson_utf8 (chars : List Char) :
    escapeJson (utf8 chars) = utf8 (escapeChars chars) := by
  apply Utf8.flatMap_utf8
  · intro c hc
    exact escapeByte_of_lt hc
  · intro c hc
    exact escapeChar_of_notMem fun hmem => absurd (toNat_of_mem_escaped hmem) (by omega)
  · intro b hb
    refine escapeByte_of_ne fun d hd heq => ?_
    have hlow := toNat_of_mem_escaped hd
    rw [heq, UInt8.toNat_ofNat_of_lt' (hlow.trans (by decide))] at hb
    omega

theorem spells_escapeChar {c : Char} (hc : 32 ≤ c.toNat ∨ c = '\n' ∨ c = '\r' ∨ c = '\t') :
    Spells (escapeChar c) [c] := by
  by_cases hmem : c ∈ escapedChars
  · simp only [escapedChars, List.mem_cons, List.not_mem_nil, or_false] at hmem
    rcases hmem with rfl | rfl | rfl | rfl | rfl <;> exact .escaped rfl .nil
  · rw [escapeChar_of_notMem hmem]
    simp only [escapedChars, List.mem_cons, List.not_mem_nil, or_false, not_or] at hmem
    obtain ⟨hslash, hquote, hn, hr, ht⟩ := hmem
    exact .plain hquote hslash (hc.resolve_right (by simp [hn, hr, ht])) .nil

/-- Clean strings are spelled out. -/
theorem spells_escapeChars {chars : List Char} (h : Clean chars) :
    Spells (escapeChars chars) chars := by
  induction chars with
  | nil => exact .nil
  | cons c chars ih =>
    have hrest := ih fun d hd => h d (List.mem_cons_of_mem c hd)
    exact (spells_escapeChar (h c List.mem_cons_self)).append hrest

/-- Others put a character into the text that JSON does not allow. -/
theorem clean_of_allowed {chars : List Char} (h : ∀ c ∈ escapeChars chars, Allowed c) :
    Clean chars := by
  intro c hc
  by_cases hmem : c ∈ escapedChars
  · simp only [escapedChars, List.mem_cons, List.not_mem_nil, or_false] at hmem
    rcases hmem with rfl | rfl | rfl | rfl | rfl <;> decide
  · have hkept : c ∈ escapeChars chars := by
      refine List.mem_flatMap.mpr ⟨c, hc, ?_⟩
      rw [escapeChar_of_notMem hmem]
      exact List.mem_singleton_self c
    rcases h c hkept with hprint | hspace
    · exact .inl hprint
    · simp only [isSpace, Bool.or_eq_true, beq_iff_eq] at hspace
      rcases hspace with ((rfl | rfl) | rfl) | rfl <;> decide

/-! ## A string by itself -/

def literal (chars : List Char) : List Char := '"' :: escapeChars chars ++ ['"']

theorem bytes_literal (s : String) :
    bytes "\"" ++ escapeJson (bytes s) ++ bytes "\"" = utf8 (literal s.toList) := by
  rw [bytes, bytes, escapeJson_utf8, literal, Utf8.append, Utf8.cons]
  rfl

theorem parse_literal_iff (s : String) :
    parseUtf8 (bytes "\"" ++ escapeJson (bytes s) ++ bytes "\"") = some (.string s.toList) ↔
      Clean s.toList := by
  rw [bytes_literal, parseUtf8_utf8]
  constructor
  · intro h
    have hallowed := allowed_of_parse h
    exact clean_of_allowed fun c hc => hallowed c (by simp [literal, hc])
  · intro h
    exact parse_of_reads (reads_string (spells_escapeChars h))

/-! ## The parts of a line -/

/-- A member of an object: a key that needs no escapes, the text of the value, and the value. -/
structure Part where
  key : String
  text : List Char
  json : Json
  key_plain : key.toList.all isPlain = true

namespace Part

def memberText (part : Part) : List Char := '"' :: part.key.toList ++ '"' :: ':' :: part.text

def objectText (parts : List Part) : List Char := '{' :: commaJoin (parts.map memberText) ++ ['}']

def objectJson (parts : List Part) : Json :=
  .object (parts.map fun part => (part.key.toList, part.json))

end Part

def numberPart (key : String) (text : List Char) (h : key.toList.all isPlain = true) : Part :=
  ⟨key, text, .number text, h⟩

def stringPart (key s : String) (h : key.toList.all isPlain = true) : Part :=
  ⟨key, literal s.toList, .string s.toList, h⟩

/-- The members for a detection. -/
def detectionParts (det : Detection) : List Part :=
  [numberPart "class_id" (IStream.decimal det.classId) (by decide),
    stringPart "label" det.label (by decide),
    numberPart "score" (printFloat det.score) (by decide),
    numberPart "x1" (printFloat det.x1) (by decide),
    numberPart "y1" (printFloat det.y1) (by decide),
    numberPart "x2" (printFloat det.x2) (by decide),
    numberPart "y2" (printFloat det.y2) (by decide)]

def detectionsChars (detections : List Detection) : List Char :=
  commaJoin (detections.map fun det => Part.objectText (detectionParts det))

/-- The members for a result. -/
def eventParts (result : EventResult) : List Part :=
  [⟨"timestamp", '"' :: formatUnixMicros result.captureTimeUs ++ ['"'],
      .string (formatUnixMicros result.captureTimeUs), by decide⟩,
    numberPart "frame_sequence" (IStream.decimal result.frameSequence) (by decide),
    stringPart "backend" result.backend (by decide),
    numberPart "preprocess_ms" (printFloat result.preprocessMs) (by decide),
    numberPart "inference_ms" (printFloat result.inferenceMs) (by decide),
    numberPart "postprocess_ms" (printFloat result.postprocessMs) (by decide),
    stringPart "note" result.note (by decide),
    ⟨"detections", '[' :: detectionsChars result.detections ++ [']'],
      .array (result.detections.map fun det => Part.objectJson (detectionParts det)), by decide⟩]

theorem utf8_flatMap {α : Type} (f : α → List Char) (l : List α) :
    utf8 (l.flatMap f) = l.flatMap fun a => utf8 (f a) := by
  rw [utf8, List.flatMap_assoc]
  rfl

theorem detectionText_eq (det : Detection) :
    detectionText det = utf8 (Part.objectText (detectionParts det)) := by
  unfold detectionText
  simp only [bytes, escapeJson_utf8, ← Utf8.append]
  apply congrArg utf8
  simp -implicitDefEqProofs only [detectionParts, numberPart, stringPart, Part.objectText,
    Part.memberText, commaJoin, literal, List.map_cons, List.map_nil, List.flatMap_cons,
    List.flatMap_nil, String.reduceToList, List.append_assoc, List.cons_append, List.nil_append,
    List.append_nil]

theorem detectionsText_eq (detections : List Detection) :
    detectionsText detections = utf8 (detectionsChars detections) := by
  cases detections with
  | nil => rfl
  | cons det detections =>
    have hmore : (detections.mapIdx fun i det => (if i + 1 ≠ 0 then bytes "," else []) ++
        detectionText det) =
          detections.map fun det => utf8 (',' :: Part.objectText (detectionParts det)) := by
      rw [List.mapIdx_eq_iff]
      intro i
      rw [List.getElem?_map]
      refine congrArg (Option.map · detections[i]?) (funext fun det => ?_)
      rw [if_pos (Nat.succ_ne_zero i), detectionText_eq, Utf8.cons]
      rfl
    rw [detectionsText, detectionsChars, List.map_cons, commaJoin, Utf8.append, List.mapIdx_cons,
      List.flatten_cons, hmore, ← List.flatMap_def, List.flatMap_map, utf8_flatMap,
      if_neg (by simp), List.nil_append, detectionText_eq]

theorem eventText_eq (result : EventResult) :
    eventText result = utf8 (Part.objectText (eventParts result) ++ ['\n']) := by
  unfold eventText
  simp only [bytes, escapeJson_utf8, detectionsText_eq, ← Utf8.append]
  apply congrArg utf8
  simp -implicitDefEqProofs only [eventParts, numberPart, stringPart, Part.objectText,
    Part.memberText, commaJoin, literal, List.map_cons, List.map_nil, List.flatMap_cons,
    List.flatMap_nil, String.reduceToList, List.append_assoc, List.cons_append, List.nil_append,
    List.append_nil]

/-! ## The parts read back -/

namespace Part

theorem mem_objectText {parts : List Part} {text : List Char} (htext : text ∈ parts.map Part.text)
    {c : Char} (hc : c ∈ text) : c ∈ objectText parts := by
  obtain ⟨part, hpart, rfl⟩ := List.mem_map.mp htext
  have hmember : c ∈ part.memberText := by simp [memberText, hc]
  have hjoin := mem_commaJoin (List.mem_map_of_mem hpart) hmember
  simp [objectText, hjoin]

theorem newline_notMem_key (part : Part) : '\n' ∉ part.key.toList := by
  intro h
  have hplain := List.all_eq_true.mp part.key_plain _ h
  exact absurd hplain (by decide)

theorem newline_notMem_objectText {parts : List Part} (h : ∀ part ∈ parts, '\n' ∉ part.text) :
    '\n' ∉ objectText parts := by
  intro hmem
  have hjoin : '\n' ∈ commaJoin (parts.map memberText) := by simpa [objectText] using hmem
  rcases mem_of_mem_commaJoin hjoin with hcomma | ⟨text, htext, hc⟩
  · exact absurd hcomma (by decide)
  · obtain ⟨part, hpart, rfl⟩ := List.mem_map.mp htext
    have hparts : '\n' ∈ part.key.toList ∨ '\n' ∈ part.text := by simpa [memberText] using hc
    exact hparts.elim part.newline_notMem_key (h part hpart)

/-- An object with a member has room for the levels of a result. -/
theorem length_objectText (part : Part) (parts : List Part) :
    3 ≤ (objectText (part :: parts)).length := by
  simp [objectText, commaJoin, memberText]
  omega

theorem reads_objectText {depth : Nat} {parts : List Part}
    (h : ∀ part ∈ parts, Reads (value depth) part.text part.json) :
    Reads (value (depth + 1)) (objectText parts) (objectJson parts) := by
  have hmembers : ∀ i ∈ parts.map fun part => (part.memberText, part.key.toList, part.json),
      Reads (member (value depth)) i.1 i.2 ∧ Begins '}' i.1 := by
    intro i hi
    obtain ⟨part, hpart, rfl⟩ := List.mem_map.mp hi
    exact ⟨reads_member (spells_self part.key_plain) (h part hpart), '"', _, rfl, rfl, by decide⟩
  have hobject := reads_object hmembers
  simp only [List.map_map, Function.comp_def] at hobject
  exact hobject

end Part

/-! ## The values -/

theorem isPlain_of_isNumberChar {c : Char} (h : isNumberChar c = true) : isPlain c = true := by
  have hquote : c ≠ '"' := by
    rintro rfl
    exact absurd h (by decide)
  have hslash : c ≠ '\\' := by
    rintro rfl
    exact absurd h (by decide)
  have hprint : 32 ≤ c.toNat := by
    rcases allowed_of_isNumberChar h with hprint | hspace
    · exact hprint
    · simp only [isSpace, Bool.or_eq_true, beq_iff_eq] at hspace
      rcases hspace with ((rfl | rfl) | rfl) | rfl <;> exact absurd h (by decide)
  simp [isPlain, hquote, hslash, hprint]

theorem newline_notMem_of_plain {text : List Char} (h : text.all isPlain = true) :
    '\n' ∉ text := fun hmem => absurd (List.all_eq_true.mp h _ hmem) (by decide)

theorem plain_of_numberText {text : List Char} (h : NumberText text) : text.all isPlain = true :=
  List.all_eq_true.mpr fun c hc => isPlain_of_isNumberChar (h.chars c hc)

theorem plain_padded (width n : Nat) : (padded width n).all isPlain = true := by
  rw [padded, List.all_append, Bool.and_eq_true]
  constructor
  · refine List.all_eq_true.mpr fun c hc => ?_
    rw [List.eq_of_mem_replicate hc]
    rfl
  · refine List.all_eq_true.mpr fun c hc => ?_
    exact isPlain_of_isNumberChar (isNumberChar_of_isDigit (IStream.isDigit_of_mem_digits hc))

theorem plain_cons {c : Char} {text : List Char} (hc : isPlain c = true)
    (h : text.all isPlain = true) : (c :: text).all isPlain = true := by
  rw [List.all_cons, hc, h, Bool.and_true]

theorem plain_append {text more : List Char} (h : text.all isPlain = true)
    (hmore : more.all isPlain = true) : (text ++ more).all isPlain = true := by
  rw [List.all_append, h, hmore, Bool.and_true]

theorem plain_putTime (tm : Tm) : (putTime tm).all isPlain = true := by
  have hdate := plain_append (plain_append (plain_append
    (plain_of_numberText (numberText_decimal tm.year))
    (plain_cons (c := '-') rfl (plain_padded 2 tm.month)))
    (plain_cons (c := '-') rfl (plain_padded 2 tm.day)))
    (plain_cons (c := 'T') rfl (plain_padded 2 tm.hour))
  exact plain_append (plain_append hdate (plain_cons rfl (plain_padded 2 tm.minute)))
    (plain_cons rfl (plain_padded 2 tm.second))

theorem plain_formatUnixMicros (micros : Nat) : (formatUnixMicros micros).all isPlain = true := by
  rw [formatUnixMicros]
  exact plain_append (plain_append (plain_putTime _) (plain_cons rfl (plain_padded 6 _))) rfl

theorem numberText_printFloat {x : ExtRat} (h : ∃ q, x = .fin q) : NumberText (printFloat x) := by
  obtain ⟨q, rfl⟩ := h
  exact numberText_formatGeneral q

theorem newline_notMem_between {a b : Char} {text : List Char} (ha : '\n' ≠ a) (hb : '\n' ≠ b)
    (h : '\n' ∉ text) : '\n' ∉ a :: text ++ [b] := by
  simp [ha, hb, h]

theorem newline_notMem_literal (chars : List Char) : '\n' ∉ literal chars := by
  intro h
  have hmem : '\n' ∈ escapeChars chars := by simpa [literal] using h
  obtain ⟨c, -, hc⟩ := List.mem_flatMap.mp hmem
  by_cases hescaped : c ∈ escapedChars
  · simp only [escapedChars, List.mem_cons, List.not_mem_nil, or_false] at hescaped
    rcases hescaped with rfl | rfl | rfl | rfl | rfl <;> exact absurd hc (by decide)
  · rw [escapeChar_of_notMem hescaped] at hc
    obtain rfl := List.mem_singleton.mp hc
    exact hescaped (by decide)

end EventLogger

/-! ## A whole line -/

/-- A number that is neither an infinity nor a NaN. -/
def Lib.ExtRat.IsFinite (x : ExtRat) : Prop := ∃ q, x = .fin q

structure Detection.Finite (det : Detection) : Prop where
  score : det.score.IsFinite
  x1 : det.x1.IsFinite
  y1 : det.y1.IsFinite
  x2 : det.x2.IsFinite
  y2 : det.y2.IsFinite

structure EventResult.Finite (result : EventResult) : Prop where
  preprocessMs : result.preprocessMs.IsFinite
  inferenceMs : result.inferenceMs.IsFinite
  postprocessMs : result.postprocessMs.IsFinite
  detections : ∀ det ∈ result.detections, det.Finite

/-- The strings that a line carries. -/
def EventResult.strings (result : EventResult) : List String :=
  result.backend :: result.note :: result.detections.map Detection.label

namespace EventLogger

def detectionJson (det : Detection) : Json :=
  .object
    [("class_id".toList, .number (IStream.decimal det.classId)),
      ("label".toList, .string det.label.toList),
      ("score".toList, .number (printFloat det.score)),
      ("x1".toList, .number (printFloat det.x1)),
      ("y1".toList, .number (printFloat det.y1)),
      ("x2".toList, .number (printFloat det.x2)),
      ("y2".toList, .number (printFloat det.y2))]

/-- What a line is to say. -/
def eventJson (result : EventResult) : Json :=
  .object
    [("timestamp".toList, .string (formatUnixMicros result.captureTimeUs)),
      ("frame_sequence".toList, .number (IStream.decimal result.frameSequence)),
      ("backend".toList, .string result.backend.toList),
      ("preprocess_ms".toList, .number (printFloat result.preprocessMs)),
      ("inference_ms".toList, .number (printFloat result.inferenceMs)),
      ("postprocess_ms".toList, .number (printFloat result.postprocessMs)),
      ("note".toList, .string result.note.toList),
      ("detections".toList, .array (result.detections.map detectionJson))]

/-- The line of a result, without its end. -/
def eventLine (result : EventResult) : List Char := Part.objectText (eventParts result)

theorem reads_literal {s : String} (h : Clean s.toList) (depth : Nat) :
    Reads (value (depth + 1)) (literal s.toList) (.string s.toList) :=
  reads_string (spells_escapeChars h)

theorem reads_printFloat {x : ExtRat} (h : x.IsFinite) (depth : Nat) :
    Reads (value (depth + 1)) (printFloat x) (.number (printFloat x)) :=
  reads_number (numberText_printFloat h)

theorem reads_decimal (n : Int) (depth : Nat) :
    Reads (value (depth + 1)) (IStream.decimal n) (.number (IStream.decimal n)) :=
  reads_number (numberText_decimal n)

theorem reads_detectionParts {det : Detection} (hfinite : det.Finite)
    (hclean : Clean det.label.toList) (depth : Nat) :
    ∀ part ∈ detectionParts det, Reads (value (depth + 1)) part.text part.json := by
  simp only [detectionParts, List.forall_mem_cons, List.not_mem_nil, false_implies, implies_true,
    and_true]
  exact ⟨reads_decimal _ _, reads_literal hclean _, reads_printFloat hfinite.score _,
    reads_printFloat hfinite.x1 _, reads_printFloat hfinite.y1 _, reads_printFloat hfinite.x2 _,
    reads_printFloat hfinite.y2 _⟩

theorem reads_detections {detections : List Detection} (hfinite : ∀ det ∈ detections, det.Finite)
    (hclean : ∀ det ∈ detections, Clean det.label.toList) (depth : Nat) :
    Reads (value (depth + 3)) ('[' :: detectionsChars detections ++ [']'])
      (.array (detections.map fun det => Part.objectJson (detectionParts det))) := by
  have hitems : ∀ i ∈ detections.map fun det =>
      (Part.objectText (detectionParts det), Part.objectJson (detectionParts det)),
      Reads (value (depth + 2)) i.1 i.2 ∧ Begins ']' i.1 := by
    intro i hi
    obtain ⟨det, hdet, rfl⟩ := List.mem_map.mp hi
    exact ⟨Part.reads_objectText (reads_detectionParts (hfinite det hdet) (hclean det hdet) depth),
      '{', _, rfl, rfl, by decide⟩
  have harray := reads_array hitems
  simp only [List.map_map, Function.comp_def] at harray
  exact harray

theorem reads_eventParts {result : EventResult} (hfinite : result.Finite)
    (hclean : ∀ s ∈ result.strings, Clean s.toList) (depth : Nat) :
    ∀ part ∈ eventParts result, Reads (value (depth + 3)) part.text part.json := by
  simp only [EventResult.strings, List.forall_mem_cons, List.forall_mem_map] at hclean
  obtain ⟨hbackend, hnote, hlabels⟩ := hclean
  simp only [eventParts, List.forall_mem_cons, List.not_mem_nil, false_implies, implies_true,
    and_true]
  exact ⟨reads_string (spells_self (plain_formatUnixMicros _)), reads_decimal _ _,
    reads_literal hbackend _, reads_printFloat hfinite.preprocessMs _,
    reads_printFloat hfinite.inferenceMs _, reads_printFloat hfinite.postprocessMs _,
    reads_literal hnote _, reads_detections hfinite.detections hlabels depth⟩

theorem newline_notMem_printFloat {x : ExtRat} (h : x.IsFinite) : '\n' ∉ printFloat x :=
  newline_notMem_of_plain (plain_of_numberText (numberText_printFloat h))

theorem newline_notMem_decimal (n : Int) : '\n' ∉ IStream.decimal n :=
  newline_notMem_of_plain (plain_of_numberText (numberText_decimal n))

theorem newline_notMem_detectionParts {det : Detection} (hfinite : det.Finite) :
    ∀ part ∈ detectionParts det, '\n' ∉ part.text := by
  simp only [detectionParts, List.forall_mem_cons, List.not_mem_nil, false_implies, implies_true,
    and_true]
  exact ⟨newline_notMem_decimal _, newline_notMem_literal _,
    newline_notMem_printFloat hfinite.score, newline_notMem_printFloat hfinite.x1,
    newline_notMem_printFloat hfinite.y1, newline_notMem_printFloat hfinite.x2,
    newline_notMem_printFloat hfinite.y2⟩

theorem newline_notMem_detectionsChars {detections : List Detection}
    (hfinite : ∀ det ∈ detections, det.Finite) : '\n' ∉ detectionsChars detections := by
  intro h
  rcases mem_of_mem_commaJoin h with hcomma | ⟨text, htext, hc⟩
  · exact absurd hcomma (by decide)
  · obtain ⟨det, hdet, rfl⟩ := List.mem_map.mp htext
    exact Part.newline_notMem_objectText (newline_notMem_detectionParts (hfinite det hdet)) hc

theorem newline_notMem_eventLine {result : EventResult} (hfinite : result.Finite) :
    '\n' ∉ eventLine result := by
  apply Part.newline_notMem_objectText
  simp only [eventParts, List.forall_mem_cons, List.not_mem_nil, false_implies, implies_true,
    and_true]
  have htimestamp := newline_notMem_of_plain (plain_formatUnixMicros result.captureTimeUs)
  have hdetections := newline_notMem_detectionsChars hfinite.detections
  exact ⟨newline_notMem_between (by decide) (by decide) htimestamp, newline_notMem_decimal _,
    newline_notMem_literal _, newline_notMem_printFloat hfinite.preprocessMs,
    newline_notMem_printFloat hfinite.inferenceMs, newline_notMem_printFloat hfinite.postprocessMs,
    newline_notMem_literal _, newline_notMem_between (by decide) (by decide) hdetections⟩

theorem mem_eventLine {result : EventResult} {s : String} (hs : s ∈ result.strings) {c : Char}
    (hc : c ∈ escapeChars s.toList) : c ∈ eventLine result := by
  have hliteral : c ∈ literal s.toList := by simp [literal, hc]
  simp only [EventResult.strings, List.mem_cons] at hs
  rcases hs with rfl | rfl | hlabel
  · have hpart : literal result.backend.toList ∈ (eventParts result).map Part.text := by
      simp only [eventParts, stringPart, List.map_cons, List.mem_cons, true_or, or_true]
    exact Part.mem_objectText hpart hliteral
  · have hpart : literal result.note.toList ∈ (eventParts result).map Part.text := by
      simp only [eventParts, stringPart, List.map_cons, List.mem_cons, true_or, or_true]
    exact Part.mem_objectText hpart hliteral
  · obtain ⟨det, hdet, rfl⟩ := List.mem_map.mp hlabel
    have hlabel : literal det.label.toList ∈ (detectionParts det).map Part.text := by
      simp only [detectionParts, stringPart, List.map_cons, List.mem_cons, true_or, or_true]
    have hchars : c ∈ detectionsChars result.detections :=
      mem_commaJoin (List.mem_map_of_mem hdet) (Part.mem_objectText hlabel hliteral)
    have hpart : '[' :: detectionsChars result.detections ++ [']'] ∈
        (eventParts result).map Part.text := by
      simp only [eventParts, stringPart, List.map_cons, List.mem_cons, true_or, or_true]
    exact Part.mem_objectText hpart (List.mem_append_left _ (List.mem_cons_of_mem _ hchars))

theorem parse_eventLine_iff {result : EventResult} (hfinite : result.Finite) :
    parse (eventLine result) = some (eventJson result) ↔
      ∀ s ∈ result.strings, Clean s.toList := by
  constructor
  · intro h s hs
    have hallowed := allowed_of_parse h
    exact clean_of_allowed fun c hc => hallowed c (mem_eventLine hs hc)
  · intro hclean
    have hlength : 3 ≤ (eventLine result).length := Part.length_objectText _ _
    obtain ⟨depth, hdepth⟩ := Nat.exists_eq_add_of_le' hlength
    have hreads := Part.reads_objectText (reads_eventParts hfinite hclean depth)
    apply parse_of_reads
    rw [hdepth]
    exact hreads

theorem eventText_eq_line (result : EventResult) :
    eventText result = utf8 (eventLine result) ++ [10] := by
  rw [eventText_eq, Utf8.append]
  rfl

/-- **Which strings survive**: exactly those without control characters that `escapeJson` does not
know; and a result gives a line of JSON with its strings exactly if they all are such. -/
theorem event_strings_iff (s : String) (logger : EventLogger) (written : Bytes)
    (result : EventResult) :
    (parseUtf8 (bytes "\"" ++ escapeJson (bytes s) ++ bytes "\"") = some (.string s.toList) ↔
      Clean s.toList) ∧
    (logger.stream = some written → result.Finite →
      ((∃ line, (logger.write result).stream = some (written ++ (line ++ [10])) ∧ 10 ∉ line ∧
        parseUtf8 line = some (eventJson result)) ↔ ∀ s ∈ result.strings, Clean s.toList)) := by
  refine ⟨parse_literal_iff s, ?_⟩
  intro hstream hfinite
  have hwrite : (logger.write result).stream =
      some (written ++ (utf8 (eventLine result) ++ [10])) := by
    rw [write, hstream, Option.map_some, eventText_eq_line]
  rw [← parse_eventLine_iff hfinite, ← parseUtf8_utf8]
  constructor
  · rintro ⟨line, hline, -, hparse⟩
    rw [hwrite, Option.some_inj, List.append_cancel_left_eq, List.append_cancel_right_eq] at hline
    rw [hline]
    exact hparse
  · intro hparse
    exact ⟨utf8 (eventLine result), hwrite,
      Utf8.notMem (by decide : '\n'.toNat < 128) (newline_notMem_eventLine hfinite), hparse⟩

/-- Quotes, backslashes and an end of line in a label and a note. -/
def quotedResult : EventResult where
  valid := true
  frameSequence := 7
  captureTimeUs := 0
  backend := "rknn"
  note := "C:\\\"models\"\n"
  detections := [⟨0, "per\\\\\"son\"", .fin (1 / 2), .fin 0, .fin 0, .fin 8, .fin 8⟩]
  preprocessMs := .fin 1
  inferenceMs := .fin (25 / 2)
  postprocessMs := .fin 0

theorem event_strings_quoted :
    ∃ line, (write ⟨some []⟩ quotedResult).stream = some ([] ++ (line ++ [10])) ∧ 10 ∉ line ∧
      parseUtf8 line = some (eventJson quotedResult) := by
  refine ((event_strings_iff "" ⟨some []⟩ [] quotedResult).2 rfl
    ⟨⟨1, rfl⟩, ⟨25 / 2, rfl⟩, ⟨0, rfl⟩, ?_⟩).mpr ?_
  · refine List.forall_mem_singleton.mpr ?_
    exact ⟨⟨1 / 2, rfl⟩, ⟨0, rfl⟩, ⟨0, rfl⟩, ⟨8, rfl⟩, ⟨8, rfl⟩⟩
  · refine List.forall_mem_cons.mpr ⟨by decide, List.forall_mem_cons.mpr ⟨by decide, ?_⟩⟩
    exact List.forall_mem_singleton.mpr (by decide)

/-- A control character of a label file comes into the log as it is. -/
theorem control_character_not_escaped :
    "per\x01son".toList ∈ loadLabels "per\x01son\n".toList ∧
      ¬ ∀ s : String, parseUtf8 (bytes "\"" ++ escapeJson (bytes s) ++ bytes "\"") =
        some (.string s.toList) := by
  constructor
  · decide
  · intro h
    have hclean := (parse_literal_iff "per\x01son").mp (h "per\x01son")
    exact absurd hclean (by decide)

end EventLogger

/-- Labels have no other control characters than their file. -/
theorem clean_loadLabels {text label : List Char} (h : Clean text)
    (hlabel : label ∈ loadLabels text) : Clean label := fun c hc => h c (mem_of_mem_loadLabels hlabel c hc)

end EdgeVision
