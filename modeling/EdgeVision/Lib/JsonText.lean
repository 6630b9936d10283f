import EdgeVision.Lib.Json

/-!
# Writing JSON

What a reader makes of texts without white space between their parts: strings spelled character by
character, numbers by the parts of their grammar, arrays and objects with their parts between
commas. Each is read whole in front of anything that does not go on with a number.
-/

namespace EdgeVision.Lib.Json

/-- The text does not go on with a number. -/
def Ends (text : List Char) : Prop := ∀ c ∈ text.head?, isNumberChar c = false

def Reads {α : Type} (item : Reader α) (text : List Char) (read : α) : Prop :=
  ∀ rest, Ends rest → item (text ++ rest) = some (read, rest)

/-- The text of a string, character by character. -/
inductive Spells : List Char → List Char → Prop where
  | nil : Spells [] []
  | plain {c : Char} {text chars : List Char} (hquote : c ≠ '"') (hslash : c ≠ '\\')
      (hprint : 32 ≤ c.toNat) (h : Spells text chars) : Spells (c :: text) (c :: chars)
  | escaped {c d : Char} {text chars : List Char} (hescape : simpleEscape c = some d)
      (h : Spells text chars) : Spells ('\\' :: c :: text) (d :: chars)

theorem Spells.append {text chars more chars' : List Char} (h : Spells text chars)
    (hmore : Spells more chars') : Spells (text ++ more) (chars ++ chars') := by
  induction h with
  | nil => exact hmore
  | plain hquote hslash hprint _ ih => exact .plain hquote hslash hprint ih
  | escaped hescape _ ih => exact .escaped hescape ih

/-- The characters that need no escapes. -/
def isPlain (c : Char) : Bool := c != '"' && c != '\\' && decide (32 ≤ c.toNat)

theorem spells_self {text : List Char} (h : text.all isPlain = true) : Spells text text := by
  induction text with
  | nil => exact .nil
  | cons c text ih =>
    simp only [List.all_cons, isPlain, Bool.and_eq_true, bne_iff_ne, decide_eq_true_eq] at h
    exact .plain h.1.1.1 h.1.1.2 h.1.2 (ih h.2)

theorem stringBody_of_spells {text chars : List Char} (h : Spells text chars) {n : Nat}
    (hn : text.length < n) (rest : List Char) :
    stringBody n (text ++ '"' :: rest) = some (chars, rest) := by
  induction h generalizing n with
  | nil =>
    obtain ⟨n, rfl⟩ := Nat.exists_eq_succ_of_ne_zero (by omega : n ≠ 0)
    rfl
  | @plain c text chars hquote hslash hprint _ ih =>
    rw [List.length_cons] at hn
    obtain ⟨n, rfl⟩ := Nat.exists_eq_succ_of_ne_zero (by omega : n ≠ 0)
    have hchar : stringChar (c :: (text ++ '"' :: rest)) = some (c, text ++ '"' :: rest) := by
      rw [stringChar, if_neg hslash, if_neg (by omega)]
    rw [List.cons_append, stringBody, if_neg (by simpa using hquote), hchar, Option.bind_some,
      ih (by omega), Option.map_some]
  | @escaped c d text chars hescape _ ih =>
    rw [List.length_cons, List.length_cons] at hn
    obtain ⟨n, rfl⟩ := Nat.exists_eq_succ_of_ne_zero (by omega : n ≠ 0)
    have hchar : stringChar ('\\' :: c :: (text ++ '"' :: rest)) = some (d, text ++ '"' :: rest) := by
      rw [stringChar, if_pos rfl, escape, hescape]
    rw [List.cons_append, List.cons_append, stringBody, if_neg (by simp), hchar, Option.bind_some,
      ih (by omega), Option.map_some]

theorem reads_quoted {text chars : List Char} (h : Spells text chars) :
    Reads quoted ('"' :: text ++ ['"']) chars := by
  intro rest _
  have hbody : stringBody (text ++ '"' :: rest).length (text ++ '"' :: rest) = some (chars, rest) :=
    stringBody_of_spells h (by simp) rest
  simpa [quoted] using hbody

theorem skipSpace_cons {c : Char} (h : isSpace c = false) (rest : List Char) :
    skipSpace (c :: rest) = c :: rest := by
  rw [skipSpace, List.dropWhile_cons, if_neg (by simp [h])]

/-- The texts with commas between them. -/
def commaJoin : List (List Char) → List Char
  | [] => []
  | text :: texts => text ++ texts.flatMap fun text => ',' :: text

theorem mem_of_mem_commaJoin {texts : List (List Char)} {c : Char} (h : c ∈ commaJoin texts) :
    c = ',' ∨ ∃ text ∈ texts, c ∈ text := by
  cases texts with
  | nil => cases h
  | cons first texts =>
    rcases List.mem_append.mp h with h | h
    · exact .inr ⟨first, List.mem_cons_self, h⟩
    · obtain ⟨text, htext, hc⟩ := List.mem_flatMap.mp h
      rcases List.mem_cons.mp hc with rfl | hc
      · exact .inl rfl
      · exact .inr ⟨text, List.mem_cons_of_mem first htext, hc⟩

theorem mem_commaJoin {texts : List (List Char)} {text : List Char} (htext : text ∈ texts) {c : Char}
    (hc : c ∈ text) : c ∈ commaJoin texts := by
  cases texts with
  | nil => cases htext
  | cons first texts =>
    rcases List.mem_cons.mp htext with rfl | htext
    · exact List.mem_append_left _ hc
    · exact List.mem_append_right _
        (List.mem_flatMap.mpr ⟨text, htext, List.mem_cons_of_mem ',' hc⟩)

section

variable {α : Type} {item : Reader α} {close : Char}

/-- A character that closes a list. -/
structure Closes (close : Char) : Prop where
  not_comma : close ≠ ','
  not_space : isSpace close = false
  not_number : isNumberChar close = false

theorem elements_reads (hclose : Closes close) {items : List (List Char × α)}
    (hitems : ∀ i ∈ items, Reads item i.1 i.2) {first : List Char × α}
    (hfirst : Reads item first.1 first.2) {n : Nat} (hn : items.length < n) (rest : List Char) :
    elements item close n
        (first.1 ++ (items.map Prod.fst).flatMap (fun text => ',' :: text) ++ close :: rest) =
      some (first.2 :: items.map Prod.snd, rest) := by
  induction items generalizing first n with
  | nil =>
    obtain ⟨n, rfl⟩ := Nat.exists_eq_succ_of_ne_zero (by omega : n ≠ 0)
    have hends : Ends (close :: rest) := by
      rintro c ⟨⟩
      exact hclose.not_number
    simp only [List.map_nil, List.flatMap_nil, List.append_nil]
    rw [elements, hfirst _ hends, Option.bind_some, skipSpace_cons hclose.not_space]
    simp only [hclose.not_comma, if_false, if_true]
  | cons next items ih =>
    rw [List.length_cons] at hn
    obtain ⟨n, rfl⟩ := Nat.exists_eq_succ_of_ne_zero (by omega : n ≠ 0)
    have hmore := ih (fun i hi => hitems i (List.mem_cons_of_mem next hi))
      (hitems next List.mem_cons_self) (by omega : items.length < n)
    simp only [List.map_cons, List.flatMap_cons, List.append_assoc, List.cons_append] at hmore ⊢
    have hends : Ends (',' :: (next.1 ++
        ((items.map Prod.fst).flatMap (fun text => ',' :: text) ++ close :: rest))) := by
      rintro c ⟨⟩
      decide
    rw [elements, hfirst _ hends, Option.bind_some, skipSpace_cons rfl]
    simp only [if_true, hmore, Option.map_some]

/-- The text does not begin with white space or the closing bracket. -/
def Begins (close : Char) (text : List Char) : Prop :=
  ∃ c more, text = c :: more ∧ isSpace c = false ∧ c ≠ close

theorem list_reads (hclose : Closes close) {items : List (List Char × α)}
    (hitems : ∀ i ∈ items, Reads item i.1 i.2 ∧ Begins close i.1) (rest : List Char) :
    list item close (commaJoin (items.map Prod.fst) ++ close :: rest) =
      some (items.map Prod.snd, rest) := by
  cases items with
  | nil =>
    rw [list]
    simp only [List.map_nil, commaJoin, List.nil_append, skipSpace_cons hclose.not_space, if_true]
  | cons first items =>
    obtain ⟨hfirst, c, more, hc, hspace, hne⟩ := hitems first List.mem_cons_self
    have hlen : items.length <
        (first.1 ++ (items.map Prod.fst).flatMap (fun text => ',' :: text) ++ close :: rest).length := by
      have hcommas : items.length ≤
          ((items.map Prod.fst).flatMap fun text => ',' :: text).length := by
        induction items with
        | nil => exact Nat.zero_le _
        | cons i items ih =>
          have hrest := ih fun j hj => hitems j (by
            rcases List.mem_cons.mp hj with rfl | hj
            · exact List.mem_cons_self
            · exact List.mem_cons_of_mem _ (List.mem_cons_of_mem _ hj))
          simp only [List.map_cons, List.flatMap_cons, List.length_append, List.length_cons] at hrest ⊢
          omega
      simp only [List.length_append, List.length_cons]
      omega
    have helements := elements_reads hclose
      (fun i hi => (hitems i (List.mem_cons_of_mem first hi)).1) hfirst hlen rest
    rw [list, List.map_cons, commaJoin, List.map_cons]
    generalize htext : first.1 ++ (items.map Prod.fst).flatMap (fun text => ',' :: text) ++
      close :: rest = text at helements
    have hskip : skipSpace text = text := by
      rw [← htext, hc]
      exact skipSpace_cons hspace _
    rw [hskip]
    rw [hc] at htext
    cases htext
    simp only [List.cons_append, if_neg hne] at helements ⊢
    exact helements

end

section

variable {item : Reader Json} {depth : Nat}

theorem reads_member {key chars text : List Char} {read : Json} (hkey : Spells key chars)
    (htext : Reads item text read) :
    Reads (member item) ('"' :: key ++ '"' :: ':' :: text) (chars, read) := by
  intro rest hrest
  have hquoted := reads_quoted hkey (':' :: (text ++ rest)) (by
    rintro c ⟨⟩
    decide)
  have hskip : skipSpace ('"' :: key ++ '"' :: ':' :: text ++ rest) =
      '"' :: key ++ ['"'] ++ ':' :: (text ++ rest) := by
    rw [List.cons_append, List.cons_append, skipSpace_cons rfl]
    simp
  rw [member, hskip, hquoted, Option.bind_some, skipSpace_cons rfl]
  simp only [if_true, htext rest hrest, Option.map_some]

theorem value_succ {c : Char} (hspace : isSpace c = false) (rest : List Char) :
    value (depth + 1) (c :: rest) =
      if c = '"' then (quoted (c :: rest)).map fun s => (.string s.1, s.2)
      else if c = '[' then (list (value depth) ']' rest).map fun l => (.array l.1, l.2)
      else if c = '{' then (list (member (value depth)) '}' rest).map fun l => (.object l.1, l.2)
      else scalar (c :: rest) := by
  rw [value, skipSpace_cons hspace]

theorem reads_string {text chars : List Char} (h : Spells text chars) :
    Reads (value (depth + 1)) ('"' :: text ++ ['"']) (.string chars) := by
  intro rest hrest
  have hquoted := reads_quoted h rest hrest
  simp only [List.cons_append] at hquoted ⊢
  rw [value_succ rfl, if_pos rfl, hquoted, Option.map_some]

theorem closes_bracket : Closes ']' := ⟨by decide, rfl, rfl⟩

theorem closes_brace : Closes '}' := ⟨by decide, rfl, rfl⟩

theorem reads_array {items : List (List Char × Json)}
    (hitems : ∀ i ∈ items, Reads (value depth) i.1 i.2 ∧ Begins ']' i.1) :
    Reads (value (depth + 1)) ('[' :: commaJoin (items.map Prod.fst) ++ [']'])
      (.array (items.map Prod.snd)) := by
  intro rest _
  have hlist := list_reads closes_bracket hitems rest
  rw [List.append_assoc, List.cons_append, value_succ rfl, if_neg (by decide), if_pos rfl]
  simp only [List.singleton_append, hlist, Option.map_some]

theorem reads_object {items : List (List Char × List Char × Json)}
    (hitems : ∀ i ∈ items, Reads (member (value depth)) i.1 i.2 ∧ Begins '}' i.1) :
    Reads (value (depth + 1)) ('{' :: commaJoin (items.map Prod.fst) ++ ['}'])
      (.object (items.map Prod.snd)) := by
  intro rest _
  have hlist := list_reads closes_brace hitems rest
  rw [List.append_assoc, List.cons_append, value_succ rfl, if_neg (by decide),
    if_neg (by decide), if_pos rfl]
  simp only [List.singleton_append, hlist, Option.map_some]

/-- A number, all of it. -/
structure NumberText (text : List Char) : Prop where
  number : isNumber text = true
  chars : ∀ c ∈ text, isNumberChar c = true

/-- A number begins with a minus or a digit. -/
theorem NumberText.begins {text : List Char} (h : NumberText text) :
    ∃ c more, text = c :: more ∧ (c = '-' ∨ c.isDigit = true) := by
  cases text with
  | nil => exact absurd h.number (by decide)
  | cons c more =>
    refine ⟨c, more, rfl, ?_⟩
    by_contra hnot
    obtain ⟨hminus, hdigit⟩ := not_or.mp hnot
    have hdrop : dropMinus (c :: more) = c :: more := by
      unfold dropMinus
      split
      · rename_i heq
        exact absurd (List.cons.inj heq).1 hminus
      · rfl
    have hnumber := h.number
    rw [isNumber, hdrop, List.takeWhile_cons, if_neg hdigit] at hnumber
    cases hnumber

theorem name_of_ne (word : List Char) {d : Char} (json : Json) {c : Char} (h : d ≠ c)
    (more : List Char) : name (d :: word) json (c :: more) = none := by
  simp [name, List.isPrefixOf, h]

theorem reads_number {text : List Char} (h : NumberText text) :
    Reads (value (depth + 1)) text (.number text) := by
  intro rest hrest
  obtain ⟨c, more, htext, hc⟩ := h.begins
  have htake : (text ++ rest).takeWhile isNumberChar = text := by
    rw [List.takeWhile_append_of_pos h.chars]
    cases rest with
    | nil => simp
    | cons d rest => simp [hrest d rfl]
  have hdrop : (text ++ rest).dropWhile isNumberChar = rest := by
    rw [List.dropWhile_append_of_pos h.chars]
    cases rest with
    | nil => simp
    | cons d rest => simp [hrest d rfl]
  have hnumber : numberText (text ++ rest) = some (.number text, rest) := by
    rw [numberText, htake, hdrop, if_pos h.number]
  -- no other value begins with a minus or a digit
  have hne (d : Char) (hd : (d == '-' || d.isDigit) = false) : d ≠ c := by
    rintro rfl
    simp only [Bool.or_eq_false_iff, beq_eq_false_iff_ne] at hd
    rcases hc with hc | hc
    · exact hd.1 hc
    · rw [hd.2] at hc
      cases hc
  have hspace : isSpace c = false := by
    simp only [isSpace, Bool.or_eq_false_iff, beq_eq_false_iff_ne]
    exact ⟨⟨⟨(hne ' ' rfl).symm, (hne '\t' rfl).symm⟩,
      (hne '\n' rfl).symm⟩, (hne '\r' rfl).symm⟩
  rw [htext, List.cons_append] at hnumber ⊢
  rw [value_succ hspace, if_neg (hne '"' rfl).symm,
    if_neg (hne '[' rfl).symm, if_neg (hne '{' rfl).symm, scalar]
  have hnull := name_of_ne "ull".toList .null (hne 'n' rfl) (more ++ rest)
  have htrue := name_of_ne "rue".toList (.bool true) (hne 't' rfl)
    (more ++ rest)
  have hfalse := name_of_ne "alse".toList (.bool false) (hne 'f' rfl)
    (more ++ rest)
  exact (congrArg₂ Option.or hnull (congrArg₂ Option.or htrue
    (congrArg₂ Option.or hfalse rfl))).trans hnumber

/-- A text that a value reader takes whole. -/
theorem parse_of_reads {text : List Char} {read : Json}
    (h : Reads (value (text.length + 1)) text read) : parse text = some read := by
  have hwhole := h [] (by
    rintro c ⟨⟩)
  rw [List.append_nil] at hwhole
  rw [parse, hwhole]
  rfl

end

/-! ## The parts of a number -/

theorem isDigits_iff {text : List Char} :
    isDigits text = true ↔ text ≠ [] ∧ ∀ c ∈ text, c.isDigit = true := by
  simp [isDigits]

/-- The text does not go on with a digit. -/
def EndsDigits (text : List Char) : Prop := ∀ c ∈ text.head?, c.isDigit = false

theorem takeWhile_isDigit {digits rest : List Char} (h : ∀ c ∈ digits, c.isDigit = true)
    (hrest : EndsDigits rest) :
    (digits ++ rest).takeWhile Char.isDigit = digits ∧
      (digits ++ rest).dropWhile Char.isDigit = rest := by
  rw [List.takeWhile_append_of_pos h, List.dropWhile_append_of_pos h]
  cases rest with
  | nil => simp
  | cons c rest => simp [hrest c rfl]

/-- Nothing, or a point and digits. -/
def FractionText (text : List Char) : Prop :=
  text = [] ∨ ∃ digits, text = '.' :: digits ∧ isDigits digits = true

/-- Nothing, or an exponent with its sign. -/
def ExponentText (text : List Char) : Prop :=
  text = [] ∨ ∃ sign digits, text = 'e' :: sign :: digits ∧ (sign = '+' ∨ sign = '-') ∧
    isDigits digits = true

theorem ExponentText.isExponent {text : List Char} (h : ExponentText text) :
    isExponent text = true := by
  rcases h with rfl | ⟨sign, digits, rfl, rfl | rfl, hdigits⟩
  · rfl
  · exact hdigits
  · exact hdigits

theorem ExponentText.endsDigits {text : List Char} (h : ExponentText text) : EndsDigits text := by
  rcases h with rfl | ⟨sign, digits, rfl, -⟩
  · rintro c ⟨⟩
  · rintro c ⟨⟩
    rfl

theorem isFraction_append {frac exp : List Char} (hfrac : FractionText frac)
    (hexp : ExponentText exp) : isFraction (frac ++ exp) = true ∧ EndsDigits (frac ++ exp) := by
  rcases hfrac with rfl | ⟨digits, rfl, hdigits⟩
  · refine ⟨?_, hexp.endsDigits⟩
    have hexponent := hexp.isExponent
    rcases hexp with rfl | ⟨sign, digits, rfl, -⟩
    · rfl
    · exact hexponent
  · obtain ⟨hne, hall⟩ := isDigits_iff.mp hdigits
    obtain ⟨htake, hdrop⟩ := takeWhile_isDigit hall hexp.endsDigits
    constructor
    · rw [List.cons_append, isFraction, htake, hdrop, hexp.isExponent]
      simp [hne]
    · rintro c ⟨⟩
      rfl

theorem isNumberChar_of_isDigit {c : Char} (h : c.isDigit = true) : isNumberChar c = true := by
  simp [isNumberChar, h]

/-- **A number** by its parts. -/
theorem numberText_of_parts {sign int frac exp : List Char} (hsign : sign = [] ∨ sign = ['-'])
    (hint : isInt int = true) (hfrac : FractionText frac) (hexp : ExponentText exp) :
    NumberText (sign ++ (int ++ (frac ++ exp))) := by
  have hdigits : isDigits int = true := by
    unfold isInt at hint
    exact (Bool.and_eq_true_iff.mp hint).1
  obtain ⟨hne, hall⟩ := isDigits_iff.mp hdigits
  obtain ⟨hfraction, hends⟩ := isFraction_append hfrac hexp
  constructor
  · have hdrop : dropMinus (sign ++ (int ++ (frac ++ exp))) = int ++ (frac ++ exp) := by
      rcases hsign with rfl | rfl
      · obtain ⟨c, more, rfl⟩ := List.exists_cons_of_ne_nil hne
        have hc := hall c List.mem_cons_self
        simp only [List.nil_append, List.cons_append]
        unfold dropMinus
        split
        · rename_i heq
          rw [(List.cons.inj heq).1] at hc
          cases hc
        · rfl
      · rfl
    obtain ⟨htake, hdropDigits⟩ := takeWhile_isDigit hall hends
    rw [isNumber, hdrop, htake, hdropDigits, hint, hfraction]
    rfl
  · have hdigit {digits : List Char} (h : isDigits digits = true) :
        ∀ c ∈ digits, isNumberChar c = true :=
      fun c hc => isNumberChar_of_isDigit ((isDigits_iff.mp h).2 c hc)
    have hsignChars : ∀ c ∈ sign, isNumberChar c = true := by
      rcases hsign with rfl | rfl
      · simp
      · simp [isNumberChar]
    have hfracChars : ∀ c ∈ frac, isNumberChar c = true := by
      rcases hfrac with rfl | ⟨digits, rfl, h⟩
      · simp
      · exact List.forall_mem_cons.mpr ⟨rfl, hdigit h⟩
    have hexpChars : ∀ c ∈ exp, isNumberChar c = true := by
      rcases hexp with rfl | ⟨sign, digits, rfl, rfl | rfl, h⟩
      · simp
      · exact List.forall_mem_cons.mpr ⟨rfl, List.forall_mem_cons.mpr ⟨rfl, hdigit h⟩⟩
      · exact List.forall_mem_cons.mpr ⟨rfl, List.forall_mem_cons.mpr ⟨rfl, hdigit h⟩⟩
    simp only [List.forall_mem_append]
    exact ⟨hsignChars, hdigit hdigits, hfracChars, hexpChars⟩

end EdgeVision.Lib.Json
