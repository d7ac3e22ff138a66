import Plang.Basic.SwitchTable

/-!
# Dialects and language options
-/

namespace Plang

/-- The dialects of `Dialects.def`. -/
inductive Standard where
  | ISO7185 | ISO10206 | FPC | Delphi | Turbo
  deriving DecidableEq, Repr

/-- The options the front end hands on, as far as scanning and checking read them. -/
structure LangOptions where
  /-- Active language standard. -/
  std : Standard := .ISO7185
  /-- Emit index and subrange checks. -/
  rangeChecks : Bool := true
  /-- Check every I/O operation at once. -/
  ioChecks : Bool := true
  /-- Where `{$I file}` is looked for after the usual places. -/
  includeSearchPaths : List Text := []
  /-- Symbols defined on the command line. -/
  defines : List Text := []

namespace LangOptions

/-- The active dialect is Turbo Pascal. -/
def turbo (opts : LangOptions) : Bool := opts.std == .Turbo

/-- The active dialect is Extended Pascal. -/
def extendedPascal (opts : LangOptions) : Bool := opts.std == .ISO10206

/-- The dialects with underscores in identifiers. -/
def underscoreIdentifiers (opts : LangOptions) : Bool :=
  opts.std == .ISO10206 || opts.std == .Turbo

/-- The switches before any directive. -/
def defaultSwitches (opts : LangOptions) : CompilerState :=
  (CompilerState.turboDefaults.set .RangeChecks opts.rangeChecks).set .IOChecks opts.ioChecks

end LangOptions

end Plang
