import ViewBuilder.Text

/-!
# Quoted text in TOML

Double quotes allow escapes and single quotes do not. Either comes on one line, or between triple
quotes on any number of lines. A line break right behind triple quotes does not count.
-/

namespace ViewBuilder.Toml

def isGap (c : Char) : Bool := c = ' ' || c = '\t'

/-- The characters that may stand nowhere; line breaks are looked at before. -/
def isControl (c : Char) : Bool := (c.toNat < 0x20 && c ≠ '\t') || c.toNat = 0x7F

/-- The rest behind a line break. -/
def afterBreak? : Text → Option Text
  | '\n' :: rest => some rest
  | '\r' :: '\n' :: rest => some rest
  | _ => none

namespace Quoted

structure Style where
  mark : Char
  escapes : Bool
  multiline : Bool

/-! ## Escapes -/

/-- A character by the hexadecimal digits of its code point. -/
def hexChar? (count : Nat) (t : Text) : Option (Char × Text) :=
  if t.length < count then none
  else
    match (t.take count).mapM Text.hexValue? with
    | none => none
    | some digits =>
      let code := digits.foldl (fun code digit => 16 * code + digit) 0
      if code.isValidChar then some (Char.ofNat code, t.drop count) else none

/-- What stands behind a backslash. -/
def escape? : Text → Option (Char × Text)
  | '"' :: rest => some ('"', rest)
  | '\\' :: rest => some ('\\', rest)
  | 'b' :: rest => some ('\x08', rest)
  | 'e' :: rest => some ('\x1b', rest)
  | 'f' :: rest => some ('\x0c', rest)
  | 'n' :: rest => some ('\n', rest)
  | 'r' :: rest => some ('\r', rest)
  | 't' :: rest => some ('\t', rest)
  | 'x' :: rest => hexChar? 2 rest
  | 'u' :: rest => hexChar? 4 rest
  | 'U' :: rest => hexChar? 8 rest
  | _ => none

theorem length_of_hexChar? {count : Nat} {t rest : Text} {c : Char}
    (h : hexChar? count t = some (c, rest)) : rest.length ≤ t.length := by
  unfold hexChar? at h
  split at h
  · simp at h
  · split at h
    · simp at h
    · dsimp only at h
      split at h
      · simp only [Option.some.injEq, Prod.mk.injEq] at h
        simp [← h.2]
      · simp at h

theorem length_of_escape? {t rest : Text} {c : Char} (h : escape? t = some (c, rest)) :
    rest.length ≤ t.length := by
  unfold escape? at h
  split at h <;> try
    simp only [Option.some.injEq, Prod.mk.injEq] at h
    simp [← h.2]
  all_goals first | exact Nat.le_succ_of_le (length_of_hexChar? h) | simp at h

/-! ## Lines that go on -/

/-- The rest behind gaps and line breaks. -/
def afterFiller : Text → Text
  | '\n' :: rest => afterFiller rest
  | '\r' :: '\n' :: rest => afterFiller rest
  | c :: rest => if isGap c then afterFiller rest else c :: rest
  | [] => []

theorem length_afterFiller_le (t : Text) : (afterFiller t).length ≤ t.length := by
  fun_induction afterFiller t <;> grind

/-- A backslash at the end of a line takes the break away, and all that is blank behind it. -/
def continued? (style : Style) (t : Text) : Option Text :=
  if style.multiline && (afterBreak? (t.dropWhile isGap)).isSome then some (afterFiller t)
  else none

theorem length_of_continued? {style : Style} {t rest : Text}
    (h : continued? style t = some rest) : rest.length ≤ t.length := by
  unfold continued? at h
  split at h
  · simp only [Option.some.injEq] at h
    exact h ▸ length_afterFiller_le t
  · simp at h

/-! ## Bodies -/

/-- What a body starts with: some of its text, or the last of its text and the closing quotes. -/
inductive Piece where
  | more (t rest : Text)
  | last (t rest : Text)

/-- A run of quotes that closes; its first quote is left out of the count. Two more close, and up
to two before those are text. -/
def tripleEnd? (mark : Char) (t : Text) : Option Piece :=
  let run := t.takeWhile (· = mark)
  if run.length ≤ 4 then some (.last (run.drop 2) (t.dropWhile (· = mark))) else none

/-- What stands behind a backslash: a line that goes on, or an escaped character. -/
def afterBackslash? (style : Style) (t : Text) : Option Piece :=
  match continued? style t with
  | some rest => some (.more [] rest)
  | none => (escape? t).map fun (c, rest) => .more [c] rest

def piece? (style : Style) : Text → Option Piece
  | [] => none
  | c :: rest =>
    if c = style.mark then
      if !style.multiline then some (.last [] rest)
      else if (Text.afterLead? [c, c] rest).isSome then tripleEnd? c rest
      else some (.more [c] rest)
    else if c = '\\' && style.escapes then afterBackslash? style rest
    else if c = '\n' || (c = '\r' && rest.head? = some '\n') then
      if style.multiline then some (.more [c] rest) else none
    else if isControl c then none
    else some (.more [c] rest)

theorem length_of_afterBackslash? {style : Style} {t part rest : Text}
    (h : afterBackslash? style t = some (.more part rest)) : rest.length ≤ t.length := by
  unfold afterBackslash? at h
  split at h
  · rename_i hc
    cases h
    exact length_of_continued? hc
  · simp only [Option.map_eq_some_iff] at h
    obtain ⟨⟨c, r⟩, he, h⟩ := h
    cases h
    exact length_of_escape? he

theorem length_of_piece? {style : Style} {t part rest : Text}
    (h : piece? style t = some (.more part rest)) : rest.length < t.length := by
  cases t with
  | nil => simp [piece?] at h
  | cons c t =>
    grind [piece?, tripleEnd?, → length_of_afterBackslash?]

/-- The text of a body up to its closing quotes, and what is behind them. -/
def body? (style : Style) (t : Text) : Option (Text × Text) :=
  match _piece : piece? style t with
  | none => none
  | some (.last part rest) => some (part, rest)
  | some (.more part rest) => (body? style rest).map fun (t, rest) => (part ++ t, rest)
termination_by t.length
decreasing_by exact length_of_piece? ‹_›

/-! ## Whole strings -/

def singleLine? (mark : Char) (t : Text) : Option (Text × Text) :=
  body? ⟨mark, mark = '"', false⟩ t

def multiline? (mark : Char) (t : Text) : Option (Text × Text) :=
  body? ⟨mark, mark = '"', true⟩ ((afterBreak? t).getD t)

/-- A string that starts with a quote; `rest` is what follows that. -/
def text? (mark : Char) (rest : Text) : Option (Text × Text) :=
  match Text.afterLead? [mark, mark] rest with
  | some rest => multiline? mark rest
  | none => singleLine? mark rest

end Quoted

end ViewBuilder.Toml
