import Mathlib.Logic.Function.Basic
import Plang.Basic.SourceManager

/-!
# Message catalogues

A catalogue is read line by line from the text of a `.po` file.  What is read of an entry is pending
until the entry is flushed; a file can be refused when its header is.  The English messages are
given by their spellings.
-/

namespace Plang

namespace Catalog

/-- Without the blanks in front. -/
def lstrip (text : Text) : Text := text.dropWhile fun c => c == ' ' || c == '\t'

/-- A text starts with a word as a whole keyword. -/
def keyword (text word : Text) : Bool :=
  word.isPrefixOf text &&
    match (text.drop word.length).head? with
    | none => true
    | some c => c == ' ' || c == '\t' || c == '"'

/-- The text behind an opening quote, as far as it can be read, and whether it is well formed. -/
def quotedFrom : Text → Text × Bool
  | [] => ([], false)
  | '"' :: rest =>
      -- Only a comment may follow.
      ([], match (lstrip rest).head? with
        | none => true
        | some c => c == '#')
  | '\\' :: 'n' :: rest => ('\n' :: (quotedFrom rest).1, (quotedFrom rest).2)
  | '\\' :: 't' :: rest => ('\t' :: (quotedFrom rest).1, (quotedFrom rest).2)
  | '\\' :: '"' :: rest => ('"' :: (quotedFrom rest).1, (quotedFrom rest).2)
  | '\\' :: '\\' :: rest => ('\\' :: (quotedFrom rest).1, (quotedFrom rest).2)
  | '\\' :: _ => ([], false)
  | c :: rest =>
      if c.toNat < 0x20 || c.toNat == 0x7F then ([], false)
      else (c :: (quotedFrom rest).1, (quotedFrom rest).2)

/-- The quoted string of a line. -/
def quoted (line : Text) : Text × Bool :=
  match line.dropWhile (· != '"') with
  | [] => ([], false)
  | _ :: rest => quotedFrom rest

/-- A sequence of bytes is well-formed UTF-8. -/
def validUtf8 (text : Text) : Bool :=
  match text with
  | [] => true
  | c :: rest =>
      let C := c.toNat
      -- How many bytes follow, what the first one says, and the least value for so many.
      let lead : Option (Nat × Nat × Nat) :=
        if C < 0x80 then some (0, C, 0)
        else if 0xC0 ≤ C ∧ C ≤ 0xDF then some (1, C % 0x20, 0x80)
        else if 0xE0 ≤ C ∧ C ≤ 0xEF then some (2, C % 0x10, 0x800)
        else if 0xF0 ≤ C ∧ C ≤ 0xF7 then some (3, C % 0x08, 0x10000)
        else none
      match lead with
      | none => false
      | some (0, _, _) => validUtf8 rest
      | some (N, Cp, Min) =>
          if rest.length < N then false
          else if !(rest.take N).all (fun tail => tail.toNat / 64 == 2) then false
          else
            let Cp := (rest.take N).foldl (fun Cp tail => Cp * 64 + tail.toNat % 64) Cp
            if Cp < Min ∨ 0xD800 ≤ Cp ∧ Cp ≤ 0xDFFF ∨ 0x10FFFF < Cp then false
            else validUtf8 (rest.drop N)
termination_by text.length
decreasing_by all_goals simp only [List.length_cons, List.length_drop]; omega

/-- The placeholders of a message, a bit for each. -/
def placeholderMask : Text → Nat
  | '%' :: c :: rest =>
      if c.isDigit then (1 <<< (c.toNat - '0'.toNat)) ||| placeholderMask rest
      else placeholderMask (c :: rest)
  | _ :: rest => placeholderMask rest
  | [] => 0

def PoDiagPrefix : Text := "diag/".toList
def PoTokenPrefix : Text := "token/".toList
def PoLabelPrefix : Text := "label/".toList

/-- The report of a load. -/
structure CatalogReport where
  Loaded : Nat := 0
  Fuzzy : Nat := 0
  Untranslated : Nat := 0
  Unknown : Nat := 0
  Malformed : Nat := 0
  /-- Not empty when the file was refused. -/
  FatalReason : Text := []
  deriving DecidableEq

/-- One entry as it is read. -/
structure Pending where
  Ctxt : Text := []
  Id : Text := []
  Str : Text := []
  HasCtxt : Bool := false
  HasStr : Bool := false
  Fuzzy : Bool := false
  Bad : Bool := false
  deriving DecidableEq

/-- The field that a quoted line continues. -/
inductive Field where
  | None | Ctxt | Id | Str
  deriving DecidableEq

/-- A load under way. -/
structure Reading where
  R : CatalogReport := {}
  Built : Text → Option Text
  P : Pending := {}
  Cur : Field := .None
  PendingFuzzy : Bool := false
  SawHeader : Bool := false

/-- A line, by what the reader does about it. -/
inductive Line where
  | blank
  | obsolete
  | fuzzyFlag
  | comment
  | msgctxt (text : Text × Bool)
  | plural
  | msgid (text : Text × Bool)
  | msgstr (text : Text × Bool)
  | quoted (text : Text × Bool)
  | other
  deriving DecidableEq

/-- The text behind the first occurrence of a word. -/
def behindFirst (word : Text) : Text → Option Text
  | [] => if word.isEmpty then some [] else none
  | c :: rest =>
      if word.isPrefixOf (c :: rest) then some ((c :: rest).drop word.length)
      else behindFirst word rest

/-- The kind of a line. -/
def lineOf (raw : Text) : Line :=
  let raw := if raw.getLast? == some '\r' then raw.dropLast else raw
  let line := lstrip raw
  if line.isEmpty then .blank
  else if line.head? == some '#' then
    if (line.drop 1).head? == some '~' then .obsolete
    else if (line.drop 1).head? == some ',' && (behindFirst "fuzzy".toList line).isSome then
      .fuzzyFlag
    else .comment
  else if keyword line "msgctxt".toList then .msgctxt (quoted line)
  else if keyword line "msgid_plural".toList || "msgstr[".toList.isPrefixOf line then .plural
  else if keyword line "msgid".toList then .msgid (quoted line)
  else if keyword line "msgstr".toList then .msgstr (quoted line)
  else if line.head? == some '"' then .quoted (quoted line)
  else .other

/-- A field of the header. -/
def headerField (header key : Text) : Text :=
  match (splitAt '\n' header).find? fun line =>
      decide (key.length < line.length) && key.isPrefixOf line with
  | none => []
  | some line => lstrip (line.drop key.length)

/-- A number that stays at the largest one. -/
def abiNumber : Nat → Text → Nat
  | V, [] => V
  | V, Ch :: rest =>
      if !Ch.isDigit then V
      else
        let Digit := Ch.toNat - '0'.toNat
        if (18446744073709551615 - Digit) / 10 < V then 18446744073709551615
        else abiNumber (V * 10 + Digit) rest

def CatalogAbi : Nat := 1

/-- Why a header refuses the file. -/
def headerRefusal (header : Text) : Option Text :=
  let charset := (behindFirst "charset=".toList (headerField header "Content-Type:".toList)).map
    fun set => toLower (set.reverse.dropWhile fun c => c == ' ' || c == '\n').reverse
  let V := abiNumber 0 (headerField header "X-Plang-Catalog-ABI:".toList)
  match charset.filter fun set =>
      !(["utf-8", "utf8", "ascii", "us-ascii"].contains (String.ofList set)) with
  | some set =>
      some ("catalog charset '".toList ++ set ++
        "' is not UTF-8, and plang cannot transcode".toList)
  | none =>
      if CatalogAbi < V then
        some ("catalog needs a newer plang (ABI ".toList ++ (toString V).toList ++ ")".toList)
      else none

section Load

-- The English messages by their spellings, and whether fuzzy entries are honoured.
variable (formats : Text → Option Text) (HonourFuzzy : Bool)

/-- The entry's context is known, and its message if it has one: store the translation, or count why
not. -/
def storeTranslation (s : Reading) (known : Option Text) : Reading :=
  let R := s.R
  let reset := { s with P := {}, Cur := .None }
  if s.P.Str.isEmpty then { reset with R := { R with Untranslated := R.Untranslated + 1 } }
  else if s.P.Fuzzy && !HonourFuzzy then { reset with R := { R with Fuzzy := R.Fuzzy + 1 } }
  else if !validUtf8 s.P.Str then { reset with R := { R with Malformed := R.Malformed + 1 } }
  else if known.any fun format => placeholderMask s.P.Str != placeholderMask format then
    { reset with R := { R with Malformed := R.Malformed + 1 } }
  else
    { reset with
      Built := Function.update s.Built s.P.Ctxt (some s.P.Str)
      R := { R with Loaded := R.Loaded + 1 } }

/-- The entry is complete. -/
def flush (s : Reading) : Except CatalogReport Reading :=
  let R := s.R
  let reset := { s with P := {}, Cur := .None }
  if !s.P.HasCtxt then
    if !s.P.HasStr then .ok reset
    else if !s.P.Id.isEmpty || s.SawHeader then
      .ok { reset with R := { R with Unknown := R.Unknown + 1 } }
    else
      match headerRefusal s.P.Str with
      | some reason => .error { R with FatalReason := reason }
      | none => .ok { reset with SawHeader := true }
  else if s.P.Bad then .ok { reset with R := { R with Malformed := R.Malformed + 1 } }
  else if !s.P.HasStr then .ok { reset with R := { R with Malformed := R.Malformed + 1 } }
  else if PoDiagPrefix.isPrefixOf s.P.Ctxt then
    match formats (s.P.Ctxt.drop PoDiagPrefix.length) with
    | none => .ok { reset with R := { R with Unknown := R.Unknown + 1 } }
    | some format => .ok (storeTranslation HonourFuzzy s (some format))
  else if !PoTokenPrefix.isPrefixOf s.P.Ctxt && !PoLabelPrefix.isPrefixOf s.P.Ctxt then
    .ok { reset with R := { R with Unknown := R.Unknown + 1 } }
  else .ok (storeTranslation HonourFuzzy s none)

/-- An entry begins: it takes the flag that waits. -/
def beginEntry (s : Reading) : Reading :=
  { s with P := { s.P with Fuzzy := s.PendingFuzzy }, PendingFuzzy := false }

/-- A string that was read for a field: when it is malformed, the entry is. -/
def taken (s : Reading) (text : Text × Bool) (field : Field) : Reading :=
  let P := match field with
    | .Ctxt => { s.P with Ctxt := s.P.Ctxt ++ text.1 }
    | .Id => { s.P with Id := s.P.Id ++ text.1 }
    | .Str => { s.P with Str := s.P.Str ++ text.1 }
    | .None => s.P
  if text.2 then { s with P := P, Cur := field }
  else { s with P := { P with Bad := true }, Cur := .None }

/-- Read one line. -/
def readLine (s : Reading) : Line → Except CatalogReport Reading
  | .blank => flush formats HonourFuzzy s
  | .obsolete => flush formats HonourFuzzy s
  | .fuzzyFlag => .ok { s with PendingFuzzy := true }
  | .comment => .ok s
  | .msgctxt text => do
      let s := beginEntry (← flush formats HonourFuzzy s)
      return taken { s with P := { s.P with HasCtxt := true } } text .Ctxt
  | .plural => .ok { s with P := { s.P with Bad := true }, Cur := .None }
  | .msgid text => do
      let s ← if s.Cur = .Str then beginEntry <$> flush formats HonourFuzzy s else pure s
      return taken s text .Id
  | .msgstr text => .ok (taken { s with P := { s.P with HasStr := true } } text .Str)
  | .quoted text =>
      match s.Cur with
      | .None => .ok { s with P := { s.P with Bad := true } }
      | field => .ok (taken s text field)
  | .other => .ok { s with P := { s.P with Bad := true } }

/-- The lines of a text. -/
def linesOf (text : Text) : List Line :=
  (splitAt '\n' (SourceManager.dropByteOrderMark text)).map lineOf

end Load

end Catalog

open Catalog

/-- The translations, by context. -/
structure MessageCatalog where
  Entries : Text → Option Text := fun _ => none
  HonourFuzzy : Bool := false

/-- Read a text; a refused one changes nothing. -/
def MessageCatalog.loadText (catalog : MessageCatalog) (formats : Text → Option Text) (text : Text)
    (Merge : Bool) : CatalogReport × MessageCatalog :=
  let start : Reading := { Built := if Merge then catalog.Entries else fun _ => none }
  match (linesOf text).foldlM (readLine formats catalog.HonourFuzzy) start >>=
      flush formats catalog.HonourFuzzy with
  | .error R => (R, catalog)
  | .ok s => (s.R, { catalog with Entries := s.Built })

/-- Turn the honouring of fuzzy entries on or off. -/
def MessageCatalog.setHonorFuzzy (catalog : MessageCatalog) (Honor : Bool) : MessageCatalog :=
  { catalog with HonourFuzzy := Honor }

/-- Forget every translation. -/
def MessageCatalog.clear (catalog : MessageCatalog) : MessageCatalog :=
  { catalog with Entries := fun _ => none }

end Plang
