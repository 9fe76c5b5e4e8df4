import ViewBuilder.Json.Number

/-!
# Tokens of a JSON text

The characters of a JSON text are grouped into brackets, marks, strings, numbers and names.
A string may be in order as a token and still name no text: an escape for half of a surrogate
pair stands for no character.
-/

namespace ViewBuilder.Json

inductive Token where
  | openArray
  | closeArray
  | openObject
  | closeObject
  | comma
  | colon
  | null
  | bool (b : Bool)
  | number (written : Number.Written)
  | string (text : Option Text)

namespace Token

/-! ## Strings -/

/-- What one escape or plain character of a string stands for. -/
inductive CodeUnit where
  | char (c : Char)
  | leading (bits : Nat)
  | trailing (bits : Nat)

def CodeUnit.ofCode (code : Nat) : CodeUnit :=
  if 0xD800 ≤ code ∧ code < 0xDC00 then .leading (code - 0xD800)
  else if 0xDC00 ≤ code ∧ code < 0xE000 then .trailing (code - 0xDC00)
  else .char (Char.ofNat code)

/-- A character behind a backslash, except `u`. -/
def escaped? : Char → Option Char
  | '"' => some '"'
  | '\\' => some '\\'
  | '/' => some '/'
  | 'b' => some '\x08'
  | 'f' => some '\x0c'
  | 'n' => some '\n'
  | 'r' => some '\r'
  | 't' => some '\t'
  | _ => none

/-- The units of a string up to its closing quote, and what is behind that. -/
def stringBody : Text → Option (List CodeUnit × Text)
  | [] => none
  | '"' :: rest => some ([], rest)
  | '\\' :: 'u' :: a :: b :: c :: d :: rest =>
    match Text.hexValue? a, Text.hexValue? b, Text.hexValue? c, Text.hexValue? d,
        stringBody rest with
    | some a, some b, some c, some d, some (units, rest) =>
      some (.ofCode (((a * 16 + b) * 16 + c) * 16 + d) :: units, rest)
    | _, _, _, _, _ => none
  | '\\' :: e :: rest =>
    match escaped? e, stringBody rest with
    | some c, some (units, rest) => some (.char c :: units, rest)
    | _, _ => none
  | c :: rest =>
    if c.toNat < 0x20 then none
    else (stringBody rest).map fun (units, rest) => (.char c :: units, rest)

/-- The text of a list of units; a leading unit needs a trailing one right behind it. -/
def textOf? : List CodeUnit → Option Text
  | [] => some []
  | .char c :: rest => (textOf? rest).map (c :: ·)
  | .leading high :: .trailing low :: rest =>
    (textOf? rest).map (Char.ofNat (0x10000 + high * 0x400 + low) :: ·)
  | _ => none

theorem length_of_stringBody {t rest : Text} {units : List CodeUnit}
    (h : stringBody t = some (units, rest)) : rest.length < t.length := by
  fun_induction stringBody t generalizing units rest with
  | case1 => simp at h
  | case2 => simp_all
  | case3 =>
    rename_i ih
    have := ih ‹_›
    simp only [Option.some.injEq, Prod.mk.injEq] at h
    simp [← h.2]
    omega
  | case4 => simp at h
  | case5 =>
    rename_i ih
    have := ih ‹_›
    simp only [Option.some.injEq, Prod.mk.injEq] at h
    simp [← h.2]
    omega
  | case6 => simp at h
  | case7 => simp at h
  | case8 c t _ _ _ _ ih =>
    simp only [Option.map_eq_some_iff, Prod.mk.injEq] at h
    obtain ⟨⟨units', rest'⟩, ht, -, rfl⟩ := h
    have := ih ht
    simp
    omega

/-! ## The whole text -/

/-- The characters between tokens. -/
def isGap (c : Char) : Bool := c = ' ' || c = '\t' || c = '\n' || c = '\r'

def isNumberPart (c : Char) : Bool :=
  c.isDigit || c = '-' || c = '+' || c = '.' || c = 'e' || c = 'E'

def mark? : Char → Option Token
  | '[' => some .openArray
  | ']' => some .closeArray
  | '{' => some .openObject
  | '}' => some .closeObject
  | ',' => some .comma
  | ':' => some .colon
  | _ => none

def name? (t : Text) : Option Token :=
  if t = "null".toList then some .null
  else if t = "true".toList then some (.bool true)
  else if t = "false".toList then some (.bool false)
  else none

/-- The first token of a text that starts with `c`, and what is behind it. -/
def first? (c : Char) (rest : Text) : Option (Token × Text) :=
  match mark? c with
  | some token => some (token, rest)
  | none =>
    if c = '"' then (stringBody rest).map fun (units, rest) => (.string (textOf? units), rest)
    else if c.isAlpha then
      (name? (c :: rest.takeWhile Char.isAlpha)).map fun token =>
        (token, rest.dropWhile Char.isAlpha)
    else
      (Number.written? (c :: rest.takeWhile isNumberPart)).map fun written =>
        (.number written, rest.dropWhile isNumberPart)

theorem length_dropWhile_le (p : Char → Bool) (t : Text) : (t.dropWhile p).length ≤ t.length :=
  (List.dropWhile_sublist p).length_le

theorem length_of_first? {c : Char} {t rest : Text} {token : Token}
    (h : first? c t = some (token, rest)) : rest.length ≤ t.length := by
  unfold first? at h
  split at h
  · simp only [Option.some.injEq, Prod.mk.injEq] at h
    simp [h.2]
  · split at h
    · simp only [Option.map_eq_some_iff, Prod.mk.injEq] at h
      obtain ⟨⟨units, r⟩, hr, -, rfl⟩ := h
      exact Nat.le_of_lt (length_of_stringBody hr)
    · split at h <;>
      · simp only [Option.map_eq_some_iff, Prod.mk.injEq] at h
        obtain ⟨_, _, -, rfl⟩ := h
        exact length_dropWhile_le _ _

/-- The tokens of a text, if all of it falls into tokens and gaps. -/
def all? : Text → Option (List Token)
  | [] => some []
  | c :: rest =>
    if isGap c then all? rest
    else
      match _found : first? c rest with
      | none => none
      | some (token, rest) => (all? rest).map (token :: ·)
termination_by t => t.length
decreasing_by
  · simp
  · have := length_of_first? ‹_›
    simp
    omega

end Token

end ViewBuilder.Json
