import EdgeVision.Stream.Wire

/-!
# Looking for NAL units in a frame

`findStartCode`, `containsNalType` and `extractBootstrapConfig` of the gateway. The index loop of
`findStartCode` runs over the suffix that starts at its index: `i + 3 < data.size()` holds exactly
when that suffix has four elements.
-/

namespace EdgeVision

/-- The loop of `findStartCode` over the suffix `data.drop i`, with the index it stands at. -/
def findStartCodeLoop : Bytes → Nat → Option (Nat × Nat)
  | b₀ :: b₁ :: b₂ :: b₃ :: rest, i =>
    if b₀ = 0 ∧ b₁ = 0 ∧ b₂ = 1 then some (i, 3)
    else if b₀ = 0 ∧ b₁ = 0 ∧ b₂ = 0 ∧ b₃ = 1 then some (i, 4)
    else findStartCodeLoop (b₁ :: b₂ :: b₃ :: rest) (i + 1)
  | _, _ => none

/-- The next start code at or after `start` and the length of its prefix; `none` is
`std::string::npos`. -/
def findStartCode (data : Bytes) (start : Nat) : Option (Nat × Nat) :=
  findStartCodeLoop (data.drop start) start

/-- `data[nal_index] & 0x1F`. -/
def nalType (header : UInt8) : UInt8 := header &&& 0x1F

/-- A start code leaves room for its first three bytes and one more. -/
theorem findStartCodeLoop_bound {l : Bytes} {i start prefixLen : Nat}
    (h : findStartCodeLoop l i = some (start, prefixLen)) :
    i ≤ start ∧ start + 3 < i + l.length ∧ (prefixLen = 3 ∨ prefixLen = 4) := by
  fun_induction findStartCodeLoop l i with
  | case1 b₀ b₁ b₂ b₃ rest i _ =>
    cases h
    refine ⟨Nat.le_refl _, ?_, by decide⟩
    simp only [List.length_cons]
    omega
  | case2 b₀ b₁ b₂ b₃ rest i _ _ =>
    cases h
    refine ⟨Nat.le_refl _, ?_, by decide⟩
    simp only [List.length_cons]
    omega
  | case3 b₀ b₁ b₂ b₃ rest i _ _ ih =>
    have := ih h
    simp only [List.length_cons] at this ⊢
    omega
  | case4 => cases h

theorem findStartCode_bound {data : Bytes} {offset start prefixLen : Nat}
    (h : findStartCode data offset = some (start, prefixLen)) :
    offset ≤ start ∧ start + 3 < data.length ∧ (prefixLen = 3 ∨ prefixLen = 4) := by
  have hb := findStartCodeLoop_bound h
  simp only [List.length_drop] at hb
  omega

/-- The `while (true)` loop of `containsNalType`, from `offset` on. -/
def containsNalTypeFrom (data : Bytes) (type : UInt8) (offset : Nat) : Bool :=
  match _h : findStartCode data offset with
  | none => false
  | some (start, prefixLen) =>
    let nalIndex := start + prefixLen
    match data[nalIndex]? with
    | some header =>
      if nalType header = type then true else containsNalTypeFrom data type (nalIndex + 1)
    | none => containsNalTypeFrom data type (nalIndex + 1)
termination_by data.length - offset
decreasing_by
  · have := findStartCode_bound _h
    omega
  · have := findStartCode_bound _h
    omega

def containsNalType (data : Bytes) (type : UInt8) : Bool := containsNalTypeFrom data type 0

/-- SPS, PPS and SEI. -/
def isConfigType (type : UInt8) : Bool := type == 7 || type == 8 || type == 6

/-- The `while (true)` loop of `extractBootstrapConfig`, from `offset` on. -/
def extractBootstrapConfigFrom (data : Bytes) (offset : Nat) : Bytes :=
  match _h : findStartCode data offset with
  | none => []
  | some (start, prefixLen) =>
    let nalIndex := start + prefixLen
    match data[nalIndex]? with
    | none => []
    | some header =>
      let nalEnd := match findStartCode data (nalIndex + 1) with
        | none => data.length
        | some (nextStart, _) => nextStart
      let piece := if isConfigType (nalType header) then (data.take nalEnd).drop start else []
      piece ++ extractBootstrapConfigFrom data (nalIndex + 1)
termination_by data.length - offset
decreasing_by
  have := findStartCode_bound _h
  omega

def extractBootstrapConfig (data : Bytes) : Bytes := extractBootstrapConfigFrom data 0

end EdgeVision
