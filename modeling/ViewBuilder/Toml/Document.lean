import ViewBuilder.Toml.Quoted
import ViewBuilder.Toml.Word

/-!
# TOML texts

A text is a list of lines: headers in brackets and keys with values. Line breaks and comments may
stand around the items of an array, and around the keys and values of a table in braces, so such a
line can take up several lines of the text. A text with any fault has no value at all.
-/

namespace ViewBuilder.Toml

/-! ## Between values -/

def skipGaps (t : Text) : Text := t.dropWhile isGap

/-- Skips gaps, line breaks and comments; none for a comment with a control character. -/
def skipFiller? (inComment : Bool) : Text → Option Text
  | [] => some []
  | '\n' :: rest => skipFiller? false rest
  | '\r' :: '\n' :: rest => skipFiller? false rest
  | c :: rest =>
    if inComment then if isControl c then none else skipFiller? true rest
    else if c = '#' then skipFiller? true rest
    else if isGap c then skipFiller? false rest
    else some (c :: rest)

/-- The rest behind the end of a line, before which only a comment may stand. -/
def endLine? (inComment : Bool) : Text → Option Text
  | [] => some []
  | '\n' :: rest => some rest
  | '\r' :: '\n' :: rest => some rest
  | c :: rest =>
    if inComment then if isControl c then none else endLine? true rest
    else if c = '#' then endLine? true rest
    else if isGap c then endLine? false rest
    else none

/-! ## Keys -/

def isBare (c : Char) : Bool := c.isAlphanum || c = '_' || c = '-'

def simpleKey? : Text → Option (Text × Text)
  | '"' :: rest => Quoted.singleLine? '"' rest
  | '\'' :: rest => Quoted.singleLine? '\'' rest
  | t =>
    let bare := t.takeWhile isBare
    if bare.isEmpty then none else some (bare, t.dropWhile isBare)

/-- How many parts a key may have. -/
def maxParts : Nat := 80

/-- The parts of a key with dots, at most the given number of them. All stand on one line. -/
def parts? : Nat → Text → Option (List Text × Text)
  | 0, _ => none
  | room + 1, t =>
    match simpleKey? (skipGaps t) with
    | none => none
    | some (part, rest) =>
      match skipGaps rest with
      | '.' :: rest => (parts? room rest).map fun (parts, rest) => (part :: parts, rest)
      | rest => some ([part], rest)

def key? (t : Text) : Option (List Text × Text) := parts? maxParts t

/-- The key of a field in braces, up to the value that it is for. Unlike that of a line it may
have line breaks and comments on both sides of its equals sign. -/
def fieldKey? (t : Text) : Option (List Text × Text) :=
  match key? t with
  | none => none
  | some (path, rest) =>
    match skipFiller? false rest with
    | some ('=' :: rest) => (skipFiller? false rest).map fun rest => (path, rest)
    | _ => none

/-! ## Values -/

/-- How deep brackets and braces may nest. -/
def maxDepth : Nat := 80

mutual

/-- The value that a text starts with. The fuel is spent one by one, never more than two for a
character, and the depth one for each bracket that is open. -/
def value? : Nat → Nat → Text → Option (Toml × Text)
  | 0, _, _ => none
  | fuel + 1, depth, t =>
    match t with
    | '"' :: rest => (Quoted.text? '"' rest).map fun (t, rest) => (.string t, rest)
    | '\'' :: rest => (Quoted.text? '\'' rest).map fun (t, rest) => (.string t, rest)
    | '[' :: rest =>
      if depth = 0 then none
      else (items? fuel (depth - 1) rest).map fun (items, rest) => (.array items, rest)
    | '{' :: rest =>
      if depth = 0 then none
      else (fields? fuel (depth - 1) [] rest).map fun (fields, rest) =>
        (.table .inline fields, rest)
    | t => Word.first? t

/-- The items of an array up to its closing bracket. -/
def items? : Nat → Nat → Text → Option (List Toml × Text)
  | 0, _, _ => none
  | fuel + 1, depth, t =>
    match skipFiller? false t with
    | none => none
    | some (']' :: rest) => some ([], rest)
    | some t =>
      match value? fuel depth t with
      | none => none
      | some (item, rest) =>
        match skipFiller? false rest with
        | some (',' :: rest) =>
          (items? fuel depth rest).map fun (items, rest) => (item :: items, rest)
        | some (']' :: rest) => some ([item], rest)
        | _ => none

/-- The fields of a table up to its closing brace, with those that came before. -/
def fields? : Nat → Nat → Fields → Text → Option (Fields × Text)
  | 0, _, _, _ => none
  | fuel + 1, depth, done, t =>
    match skipFiller? false t with
    | none => none
    | some ('}' :: rest) => some (done, rest)
    | some t =>
      match fieldKey? t with
      | some (path, rest) =>
        match value? fuel depth rest with
        | none => none
        | some (value, rest) =>
          match insert value path done, skipFiller? false rest with
          | some done, some (',' :: rest) => fields? fuel depth done rest
          | some done, some ('}' :: rest) => some (done, rest)
          | _, _ => none
      | none => none

end

/-! ## Lines -/

def header? (t : Text) : Option (Line × Text) :=
  match t with
  | '[' :: t =>
    match key? t with
    | some (path, ']' :: ']' :: rest) => some (.item path, rest)
    | _ => none
  | t =>
    match key? t with
    | some (path, ']' :: rest) => some (.table path, rest)
    | _ => none

def entry? (t : Text) : Option (Line × Text) :=
  match key? t with
  | some (path, '=' :: rest) =>
    (value? (2 * rest.length + 2) maxDepth (skipGaps rest)).map fun (value, rest) =>
      (.entry path value, rest)
  | _ => none

def line? : Text → Option (Line × Text)
  | '[' :: rest => header? rest
  | t => entry? t

def lines? : Nat → Text → Option (List Line)
  | 0, _ => none
  | fuel + 1, t =>
    match skipFiller? false t with
    | none => none
    | some [] => some []
    | some t =>
      match line? t with
      | none => none
      | some (line, rest) =>
        match endLine? false rest with
        | none => none
        | some rest => (lines? fuel rest).map (line :: ·)

/-- The top table of a text. A byte order mark at the start does not count. -/
def parse? (t : Text) : Option Fields :=
  let t := if t.head? = some '\ufeff' then t.drop 1 else t
  (lines? (t.length + 1) t).bind ofLines?

end ViewBuilder.Toml
