import Plang.Basic.SourceManager

/-!
# The scanner's diagnostics

The entries of `DiagnosticLexKinds.def`, with their severities and texts.
-/

namespace Plang

/-- How bad a diagnostic is. -/
inductive DiagSeverity where
  | Info | Warning | Error
  deriving DecidableEq, Repr

/-- The diagnostics the scanner reports. -/
inductive DiagID where
  | err_file_not_found | err_source_too_large
  | err_unterminated_comment | err_comment_delim_mismatch
  | err_nondecimal_base_range | err_nondecimal_no_digits | err_nondecimal_bad_digit
  | err_nondecimal_literal_out_of_range
  | err_unterminated_string | err_unexpected_char
  | err_hex_literal_no_digits | err_hex_literal_out_of_range
  | err_control_code_no_digits | err_control_code_out_of_range
  | err_ep_underscore_in_identifier | err_ep_underscore_placement
  | note_directive_message | note_directive_info | note_directive_note
  | warn_directive_hint | warn_directive_warning | err_directive_error | err_directive_fatal
  | warn_directive_unknown | warn_directive_ignored
  | err_directive_expects_symbol | err_directive_no_matching_ifdef
  | err_directive_else_already_seen | err_directive_unterminated_conditional
  | err_directive_ifopt_bad_switch
  | err_directive_include_expects_filename | err_directive_include_not_found
  | err_directive_include_cycle
  deriving DecidableEq, Repr

/-- The severity a diagnostic is reported at. -/
def DiagID.severity : DiagID → DiagSeverity
  | note_directive_message | note_directive_info | note_directive_note => .Info
  | warn_directive_hint | warn_directive_warning | warn_directive_unknown
  | warn_directive_ignored => .Warning
  | _ => .Error

/-- One reported diagnostic: where, which, and what stands for `%0` and `%1`. -/
structure Diag where
  /-- The reported position. -/
  loc : Nat
  /-- The entry of the table. -/
  id : DiagID
  /-- The arguments of the message. -/
  args : List Text := []
  deriving DecidableEq

end Plang
