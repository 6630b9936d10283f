import EdgeVision.Lib.Utf8
import Mathlib.Data.List.TakeWhile

/-!
# JSON texts

A reader of JSON texts by RFC 8259, over the characters of a text. A reader of a part takes what it
needs from the front and leaves the rest. A number is kept as it is written. Of the escapes of a
string those for surrogates have to come in pairs, since no character is read from a lone one.
-/

namespace EdgeVision.Lib

inductive Json where
  | null
  | bool (value : Bool)
  | number (text : List Char)
  | string (chars : List Char)
  | array (elements : List Json)
  | object (members : List (List Char × Json))

namespace Json

/-- What is read, and the characters left. -/
abbrev Reader (α : Type) := List Char → Option (α × List Char)

def isSpace (c : Char) : Bool := c == ' ' || c == '\t' || c == '\n' || c == '\r'

def skipSpace (text : List Char) : List Char := text.dropWhile isSpace

/-! ## Strings -/

def hexDigit (c : Char) : Option Nat :=
  if c.isDigit then some (c.toNat - 48)
  else if 97 ≤ c.toNat ∧ c.toNat ≤ 102 then some (c.toNat - 87)
  else if 65 ≤ c.toNat ∧ c.toNat ≤ 70 then some (c.toNat - 55)
  else none

def hexDigits : Reader Nat
  | a :: b :: c :: d :: rest => do
    let a ← hexDigit a
    let b ← hexDigit b
    let c ← hexDigit c
    let d ← hexDigit d
    some (((a * 16 + b) * 16 + c) * 16 + d, rest)
  | _ => none

/-- The character of a `\u` escape, from its digits on. -/
def unicode : Reader Char := fun text =>
  (hexDigits text).bind fun high =>
    if 0xD800 ≤ high.1 ∧ high.1 < 0xDC00 then
      match high.2 with
      | '\\' :: 'u' :: rest =>
        (hexDigits rest).bind fun low =>
          if 0xDC00 ≤ low.1 ∧ low.1 < 0xE000 then
            some (Char.ofNat (0x10000 + (high.1 - 0xD800) * 0x400 + (low.1 - 0xDC00)), low.2)
          else none
      | _ => none
    else if 0xDC00 ≤ high.1 ∧ high.1 < 0xE000 then none
    else some (Char.ofNat high.1, high.2)

/-- The character that a letter behind a backslash stands for. -/
def simpleEscape (c : Char) : Option Char :=
  if c = '"' ∨ c = '\\' ∨ c = '/' then some c
  else if c = 'b' then some '\x08'
  else if c = 'f' then some '\x0c'
  else if c = 'n' then some '\n'
  else if c = 'r' then some '\r'
  else if c = 't' then some '\t'
  else none

def escape : Reader Char
  | [] => none
  | c :: rest =>
    match simpleEscape c with
    | some d => some (d, rest)
    | none => if c = 'u' then unicode rest else none

/-- One character of a string. -/
def stringChar : Reader Char
  | [] => none
  | c :: rest =>
    if c = '\\' then escape rest else if c.toNat < 32 then none else some (c, rest)

/-- The characters of a string and its closing quote, at most `n` in all. -/
def stringBody : Nat → Reader (List Char)
  | 0, _ => none
  | n + 1, text =>
    if text.head? = some '"' then some ([], text.tail)
    else (stringChar text).bind fun c => (stringBody n c.2).map fun s => (c.1 :: s.1, s.2)

def quoted : Reader (List Char)
  | [] => none
  | c :: rest => if c = '"' then stringBody rest.length rest else none

/-! ## Numbers and names -/

def isDigits (text : List Char) : Bool := !text.isEmpty && text.all Char.isDigit

/-- Digits without a leading zero. -/
def isInt (text : List Char) : Bool :=
  isDigits text && (text.head? != some '0' || text.length == 1)

def dropSign : List Char → List Char
  | '+' :: rest => rest
  | '-' :: rest => rest
  | text => text

def isExponent : List Char → Bool
  | [] => true
  | c :: rest => (c == 'e' || c == 'E') && isDigits (dropSign rest)

def isFraction : List Char → Bool
  | '.' :: rest =>
    !(rest.takeWhile Char.isDigit).isEmpty && isExponent (rest.dropWhile Char.isDigit)
  | text => isExponent text

def dropMinus : List Char → List Char
  | '-' :: rest => rest
  | text => text

def isNumber (text : List Char) : Bool :=
  isInt ((dropMinus text).takeWhile Char.isDigit) &&
    isFraction ((dropMinus text).dropWhile Char.isDigit)

/-- The characters that numbers consist of. -/
def isNumberChar (c : Char) : Bool :=
  c.isDigit || c == '+' || c == '-' || c == '.' || c == 'e' || c == 'E'

def name (text : List Char) (value : Json) : Reader Json := fun input =>
  if text.isPrefixOf input then some (value, input.drop text.length) else none

def numberText : Reader Json := fun text =>
  if isNumber (text.takeWhile isNumberChar) then
    some (.number (text.takeWhile isNumberChar), text.dropWhile isNumberChar)
  else none

def scalar : Reader Json := fun text =>
  (name "null".toList .null text).or <| (name "true".toList (.bool true) text).or <|
    (name "false".toList (.bool false) text).or (numberText text)

/-! ## Arrays, objects and values -/

section

variable {α : Type}

/-- At most `n` elements, one at least, and the closing bracket. -/
def elements (item : Reader α) (close : Char) : Nat → Reader (List α)
  | 0, _ => none
  | n + 1, text =>
    (item text).bind fun first =>
      match skipSpace first.2 with
      | [] => none
      | c :: rest =>
        if c = ',' then (elements item close n rest).map fun more => (first.1 :: more.1, more.2)
        else if c = close then some ([first.1], rest)
        else none

/-- What stands behind an opening bracket. -/
def list (item : Reader α) (close : Char) : Reader (List α) := fun text =>
  match skipSpace text with
  | [] => none
  | c :: rest => if c = close then some ([], rest) else elements item close text.length text

def member (item : Reader α) : Reader (List Char × α) := fun text =>
  (quoted (skipSpace text)).bind fun key =>
    match skipSpace key.2 with
    | [] => none
    | c :: rest => if c = ':' then (item rest).map fun value => ((key.1, value.1), value.2) else none

end

/-- A value with at most `depth` levels. -/
def value : Nat → Reader Json
  | 0, _ => none
  | depth + 1, text =>
    match skipSpace text with
    | [] => none
    | c :: rest =>
      if c = '"' then (quoted (c :: rest)).map fun s => (.string s.1, s.2)
      else if c = '[' then (list (value depth) ']' rest).map fun l => (.array l.1, l.2)
      else if c = '{' then (list (member (value depth)) '}' rest).map fun l => (.object l.1, l.2)
      else scalar (c :: rest)

/-- The value of a whole text. -/
def parse (text : List Char) : Option Json :=
  (value (text.length + 1) text).bind fun read =>
    if (skipSpace read.2).isEmpty then some read.1 else none

/-- The value of a text in UTF-8. -/
def parseUtf8 (bytes : List UInt8) : Option Json := (decodeUtf8 bytes).bind parse

theorem parseUtf8_utf8 (text : List Char) : parseUtf8 (utf8 text) = parse text := by
  rw [parseUtf8, Utf8.decode, Option.bind_some]

/-! ## What a text may hold

A reader takes only characters from the blank on and white space. -/

def Allowed (c : Char) : Prop := 32 ≤ c.toNat ∨ isSpace c = true

/-- The text goes on as the rest, behind allowed characters. -/
def Consumes (text rest : List Char) : Prop := ∃ used, text = used ++ rest ∧ ∀ c ∈ used, Allowed c

namespace Consumes

theorem refl (text : List Char) : Consumes text text := ⟨[], rfl, by simp⟩

theorem trans {text more rest : List Char} (h : Consumes text more) (hmore : Consumes more rest) :
    Consumes text rest := by
  obtain ⟨used, rfl, hused⟩ := h
  obtain ⟨used', rfl, hused'⟩ := hmore
  refine ⟨used ++ used', (List.append_assoc _ _ _).symm, fun c hc => ?_⟩
  exact (List.mem_append.mp hc).elim (hused c) (hused' c)

theorem cons {c : Char} {text rest : List Char} (hc : Allowed c) (h : Consumes text rest) :
    Consumes (c :: text) rest := by
  obtain ⟨used, rfl, hused⟩ := h
  refine ⟨c :: used, rfl, fun d hd => ?_⟩
  rcases List.mem_cons.mp hd with rfl | hd
  · exact hc
  · exact hused d hd

theorem skip (text : List Char) : Consumes text (skipSpace text) := by
  refine ⟨text.takeWhile isSpace, List.takeWhile_append_dropWhile.symm, fun c hc => .inr ?_⟩
  exact List.mem_takeWhile_imp hc

end Consumes

/-- Whatever a reader reads, it has consumed. -/
def Reader.Sound {α : Type} (item : Reader α) : Prop :=
  ∀ text read rest, item text = some (read, rest) → Consumes text rest

theorem allowed_of_hexDigit {c : Char} {n : Nat} (h : hexDigit c = some n) : Allowed c := by
  unfold hexDigit at h
  split at h
  · rename_i hdigit
    have hrange : 48 ≤ c.toNat ∧ c.toNat ≤ 57 := by
      simpa [Char.isDigit, UInt32.le_iff_toNat_le] using hdigit
    exact .inl (by omega)
  · split at h
    · exact .inl (by omega)
    · split at h
      · exact .inl (by omega)
      · cases h

theorem sound_hexDigits : Reader.Sound hexDigits := by
  intro text read rest h
  unfold hexDigits at h
  split at h
  · simp only [Option.bind_eq_bind, Option.bind_eq_some_iff, Option.some.injEq, Prod.mk.injEq] at h
    obtain ⟨a, ha, b, hb, c, hc, d, hd, -, rfl⟩ := h
    exact .cons (allowed_of_hexDigit ha) (.cons (allowed_of_hexDigit hb)
      (.cons (allowed_of_hexDigit hc) (.cons (allowed_of_hexDigit hd) (.refl _))))
  · cases h

theorem sound_unicode : Reader.Sound unicode := by
  intro text read rest h
  obtain ⟨high, hhigh, h⟩ := Option.bind_eq_some_iff.mp h
  have hfirst := sound_hexDigits text high.1 high.2 hhigh
  apply hfirst.trans
  split at h
  · split at h
    · rename_i more hmore
      obtain ⟨low, hlow, h⟩ := Option.bind_eq_some_iff.mp h
      split at h
      · simp only [Option.some.injEq, Prod.mk.injEq] at h
        rw [hmore, ← h.2]
        exact .cons (.inl (by decide)) (.cons (.inl (by decide))
          (sound_hexDigits more low.1 low.2 hlow))
      · cases h
    · cases h
  · split at h
    · cases h
    · simp only [Option.some.injEq, Prod.mk.injEq] at h
      rw [← h.2]
      exact .refl _

theorem allowed_of_simpleEscape {c d : Char} (h : simpleEscape c = some d) : Allowed c := by
  have hletter : c = '"' ∨ c = '\\' ∨ c = '/' ∨ c = 'b' ∨ c = 'f' ∨ c = 'n' ∨ c = 'r' ∨ c = 't' := by
    unfold simpleEscape at h
    grind
  rcases hletter with rfl | rfl | rfl | rfl | rfl | rfl | rfl | rfl <;> exact .inl (by decide)

theorem sound_stringChar : Reader.Sound stringChar := by
  intro text read rest h
  unfold stringChar at h
  split at h
  · cases h
  · rename_i c more
    split at h
    · rename_i hc
      subst hc
      refine .cons (.inl (by decide)) ?_
      unfold escape at h
      split at h
      · cases h
      · rename_i e more
        split at h
        · rename_i d hsimple
          cases h
          exact .cons (allowed_of_simpleEscape hsimple) (.refl _)
        · split at h
          · rename_i hu
            subst hu
            exact .cons (.inl (by decide)) (sound_unicode more read rest h)
          · cases h
    · split at h
      · cases h
      · rename_i hge
        cases h
        exact .cons (.inl (by omega)) (.refl _)

theorem sound_stringBody (n : Nat) : Reader.Sound (stringBody n) := by
  induction n with
  | zero =>
    intro text read rest h
    cases h
  | succ n ih =>
    intro text read rest h
    unfold stringBody at h
    split at h
    · rename_i hquote
      cases h
      cases text with
      | nil => cases hquote
      | cons c text =>
        cases hquote
        exact .cons (.inl (by decide)) (.refl _)
    · obtain ⟨c, hc, h⟩ := Option.bind_eq_some_iff.mp h
      obtain ⟨more, hmore, h⟩ := Option.map_eq_some_iff.mp h
      cases h
      exact (sound_stringChar text c.1 c.2 hc).trans (ih c.2 more.1 more.2 hmore)

theorem sound_quoted : Reader.Sound quoted := by
  intro text read rest h
  unfold quoted at h
  split at h
  · cases h
  · split at h
    · rename_i hc
      subst hc
      exact .cons (.inl (by decide)) (sound_stringBody _ _ _ _ h)
    · cases h

theorem allowed_of_isNumberChar {c : Char} (h : isNumberChar c = true) : Allowed c := by
  simp only [isNumberChar, Bool.or_eq_true, beq_iff_eq] at h
  rcases h with ((((h | rfl) | rfl) | rfl) | rfl) | rfl
  · have hrange : 48 ≤ c.toNat ∧ c.toNat ≤ 57 := by
      simpa [Char.isDigit, UInt32.le_iff_toNat_le] using h
    exact .inl (by omega)
  all_goals exact .inl (by decide)

theorem sound_name {text : List Char} (htext : ∀ c ∈ text, Allowed c) (value : Json) :
    Reader.Sound (name text value) := by
  intro input read rest h
  unfold name at h
  split at h
  · rename_i hprefix
    cases h
    obtain ⟨more, rfl⟩ := List.isPrefixOf_iff_prefix.mp hprefix
    exact ⟨text, by simp, htext⟩
  · cases h

theorem sound_numberText : Reader.Sound numberText := by
  intro text read rest h
  unfold numberText at h
  split at h
  · cases h
    exact ⟨text.takeWhile isNumberChar, List.takeWhile_append_dropWhile.symm,
      fun c hc => allowed_of_isNumberChar (List.mem_takeWhile_imp hc)⟩
  · cases h

theorem allowed_of_all {text : List Char} (h : (text.all fun c => 32 ≤ c.toNat) = true) :
    ∀ c ∈ text, Allowed c := fun c hc => .inl (by simpa using List.all_eq_true.mp h c hc)

theorem sound_scalar : Reader.Sound scalar := by
  intro text read rest h
  unfold scalar at h
  rcases Option.or_eq_some_iff.mp h with h | ⟨-, h⟩
  · exact sound_name (allowed_of_all (by decide)) _ _ _ _ h
  · rcases Option.or_eq_some_iff.mp h with h | ⟨-, h⟩
    · exact sound_name (allowed_of_all (by decide)) _ _ _ _ h
    · rcases Option.or_eq_some_iff.mp h with h | ⟨-, h⟩
      · exact sound_name (allowed_of_all (by decide)) _ _ _ _ h
      · exact sound_numberText text read rest h

section

variable {α : Type} {item : Reader α} {close : Char}

theorem sound_elements (hitem : item.Sound) (hclose : Allowed close) (n : Nat) :
    Reader.Sound (elements item close n) := by
  induction n with
  | zero =>
    intro text read rest h
    cases h
  | succ n ih =>
    intro text read rest h
    obtain ⟨first, hfirst, h⟩ := Option.bind_eq_some_iff.mp h
    refine (hitem text first.1 first.2 hfirst).trans ((Consumes.skip first.2).trans ?_)
    split at h
    · cases h
    · rename_i c more hmore
      rw [hmore]
      split at h
      · rename_i hc
        subst hc
        obtain ⟨others, hothers, h⟩ := Option.map_eq_some_iff.mp h
        cases h
        exact .cons (.inl (by decide)) (ih more others.1 others.2 hothers)
      · split at h
        · rename_i hc
          cases h
          exact .cons (hc ▸ hclose) (.refl _)
        · cases h

theorem sound_list (hitem : item.Sound) (hclose : Allowed close) :
    Reader.Sound (list item close) := by
  intro text read rest h
  unfold list at h
  split at h
  · cases h
  · rename_i c more hmore
    split at h
    · rename_i hc
      cases h
      refine (Consumes.skip text).trans ?_
      rw [hmore]
      exact .cons (hc ▸ hclose) (.refl _)
    · exact sound_elements hitem hclose _ text read rest h

theorem sound_member (hitem : item.Sound) : Reader.Sound (member item) := by
  intro text read rest h
  obtain ⟨key, hkey, h⟩ := Option.bind_eq_some_iff.mp h
  refine (Consumes.skip text).trans ((sound_quoted _ key.1 key.2 hkey).trans
    ((Consumes.skip key.2).trans ?_))
  split at h
  · cases h
  · rename_i c more hmore
    rw [hmore]
    split at h
    · rename_i hc
      subst hc
      obtain ⟨value, hvalue, h⟩ := Option.map_eq_some_iff.mp h
      cases h
      exact .cons (.inl (by decide)) (hitem more value.1 value.2 hvalue)
    · cases h

end

theorem sound_value (depth : Nat) : Reader.Sound (value depth) := by
  induction depth with
  | zero =>
    intro text read rest h
    cases h
  | succ depth ih =>
    intro text read rest h
    unfold value at h
    refine (Consumes.skip text).trans ?_
    split at h
    · cases h
    · rename_i c more hmore
      rw [hmore]
      split at h
      · obtain ⟨chars, hchars, h⟩ := Option.map_eq_some_iff.mp h
        cases h
        exact sound_quoted _ chars.1 chars.2 hchars
      · split at h
        · rename_i hc
          subst hc
          obtain ⟨l, hl, h⟩ := Option.map_eq_some_iff.mp h
          cases h
          exact .cons (.inl (by decide)) (sound_list ih (.inl (by decide)) more l.1 l.2 hl)
        · split at h
          · rename_i hc
            subst hc
            obtain ⟨l, hl, h⟩ := Option.map_eq_some_iff.mp h
            cases h
            exact .cons (.inl (by decide))
              (sound_list (sound_member ih) (.inl (by decide)) more l.1 l.2 hl)
          · exact sound_scalar _ read rest h

/-- **No other control characters**: a JSON text has none but white space. -/
theorem allowed_of_parse {text : List Char} {json : Json} (h : parse text = some json) :
    ∀ c ∈ text, Allowed c := by
  obtain ⟨read, hread, h⟩ := Option.bind_eq_some_iff.mp h
  split at h
  · rename_i hrest
    obtain ⟨used, hused, hallowed⟩ := (sound_value _ text read.1 read.2 hread).trans
      (Consumes.skip read.2)
    rw [List.isEmpty_iff.mp hrest, List.append_nil] at hused
    rw [hused]
    exact hallowed
  · cases h

end Json

end EdgeVision.Lib
