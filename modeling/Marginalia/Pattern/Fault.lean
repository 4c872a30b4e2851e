import Marginalia.Text.Digit
import Marginalia.Text.Quoted

/-!
# Faults in pattern texts

Why a text is not a pattern, and where.  Positions count characters from zero; when the text has
several lines, the message also gives the line and the column, both from one.  Some faults show only
when the whole text has been read, and have no position.  Texts that ask for too much are refused.

## Main definitions

* `Pattern.FaultReason` — what is wrong.
* `Pattern.Refusal` — what is asked for in vain.
* `Pattern.Fault` — what is wrong, and where.
* `Pattern.Fault.message` — the wording.
-/

namespace Marginalia.Pattern

/-- What is wrong with a pattern text. -/
inductive FaultReason where
  | unclosedGroup
  | unbalancedParenthesis
  | nothingToRepeat
  | multipleRepeat
  | unclosedSet
  | escapeAtEnd
  | badEscape (escape : String)
  | incompleteEscape (escape : String)
  | octalOutOfRange (escape : String)
  | leastAboveMost
  | badRange (lo hi : String)
  | unexpectedEnd
  | unknownExtension (extension : String)
  | unclosedRemark
  | missingName
  | unclosedName (closer : String)
  | badName (name : String)
  | repeatedName (name : String) (number earlier : Nat)
  | unknownName (name : String)
  | unknownNumber (number : Nat)
  | openGroup
  /-- A look back refers to a group of its own. -/
  | groupOfLookBack
  /-- A condition asks for group zero. -/
  | groupZero
  | thirdBranch
  | missingBrace
  | missingCharacterName
  | unknownCharacter (name : String)
  | unknownFlag
  | missingFlag
  | missingFlagEnd
  | missingColon
  | localeFlag
  | alphabetFlags
  | alphabetOff
  | wholeFlagOn
  | wholeFlagOff
  | flagOnAndOff
  /-- Flags for the whole pattern do not stand at its start. -/
  | lateFlags
  /-- A look back has no fixed width. -/
  | varyingWidth
  /-- A look back is too wide. -/
  | excessiveWidth
  /-- A template has a repetition, of the given kind. -/
  | repeatInTemplate (kind : String)
deriving Repr, DecidableEq

/-- The wording of a reason. -/
def FaultReason.message : FaultReason → String
  | .unclosedGroup => "missing ), unterminated subpattern"
  | .unbalancedParenthesis => "unbalanced parenthesis"
  | .nothingToRepeat => "nothing to repeat"
  | .multipleRepeat => "multiple repeat"
  | .unclosedSet => "unterminated character set"
  | .escapeAtEnd => "bad escape (end of pattern)"
  | .badEscape escape => "bad escape " ++ escape
  | .incompleteEscape escape => "incomplete escape " ++ escape
  | .octalOutOfRange escape => "octal escape value " ++ escape ++ " outside of range 0-0o377"
  | .leastAboveMost => "min repeat greater than max repeat"
  | .badRange lo hi => "bad character range " ++ lo ++ "-" ++ hi
  | .unexpectedEnd => "unexpected end of pattern"
  | .unknownExtension extension => "unknown extension ?" ++ extension
  | .unclosedRemark => "missing ), unterminated comment"
  | .missingName => "missing group name"
  | .unclosedName closer => "missing " ++ closer ++ ", unterminated name"
  | .badName name => "bad character in group name " ++ Text.quoted name
  | .repeatedName name number earlier =>
    "redefinition of group name " ++ Text.quoted name ++ " as group " ++ toString number ++
      "; was group " ++ toString earlier
  | .unknownName name => "unknown group name " ++ Text.quoted name
  | .unknownNumber number => "invalid group reference " ++ toString number
  | .openGroup => "cannot refer to an open group"
  | .groupOfLookBack => "cannot refer to group defined in the same lookbehind subpattern"
  | .groupZero => "bad group number"
  | .thirdBranch => "conditional backref with more than two branches"
  | .missingBrace => "missing \x7b"
  | .missingCharacterName => "missing character name"
  | .unknownCharacter name => "undefined character name " ++ Text.quoted name
  | .unknownFlag => "unknown flag"
  | .missingFlag => "missing flag"
  | .missingFlagEnd => "missing -, : or )"
  | .missingColon => "missing :"
  | .localeFlag => "bad inline flags: cannot use 'L' flag with a str pattern"
  | .alphabetFlags => "bad inline flags: flags 'a', 'u' and 'L' are incompatible"
  | .alphabetOff => "bad inline flags: cannot turn off flags 'a', 'u' and 'L'"
  | .wholeFlagOn => "bad inline flags: cannot turn on global flag"
  | .wholeFlagOff => "bad inline flags: cannot turn off global flag"
  | .flagOnAndOff => "bad inline flags: flag turned on and off"
  | .lateFlags => "global flags not at the start of the expression"
  | .varyingWidth => "look-behind requires fixed-width pattern"
  | .excessiveWidth => "looks too much behind"
  | .repeatInTemplate kind => "internal: unsupported template operator " ++ kind

/-- What a pattern asks for in vain. -/
inductive Refusal where
  /-- Too many rounds. -/
  | rounds
  /-- A number with too many digits. -/
  | digits (count : Nat)
  /-- Two alphabets at once. -/
  | alphabets
deriving Repr, DecidableEq

/-- The wording of a refusal. -/
def Refusal.message : Refusal → String
  | .rounds => "the repetition number is too large"
  | .digits count =>
    "Exceeds the limit (" ++ toString Text.digitLimit ++
      " digits) for integer string conversion: value has " ++ toString count ++
      " digits; use sys.set_int_max_str_digits() to increase the limit"
  | .alphabets => "ASCII and UNICODE flags are incompatible"

/-- Why a text is not a pattern. -/
inductive Fault where
  /-- The text is ill-formed at a position. -/
  | at (reason : FaultReason) (position : Nat)
  /-- The text is ill-formed as a whole. -/
  | overall (reason : FaultReason)
  | refused (refusal : Refusal)
deriving Repr, DecidableEq

/-- The line and the column of a position, both from one. -/
def lineAndColumn (text : List Char) (position : Nat) : Nat × Nat :=
  let before := text.take position
  (before.count '\n' + 1, (before.reverse.takeWhile (· != '\n')).length + 1)

/-- The wording of a fault in a text. -/
def Fault.message (text : List Char) : Fault → String
  | .at reason position =>
    let place := reason.message ++ " at position " ++ toString position
    if text.contains '\n' then
      let (line, column) := lineAndColumn text position
      place ++ " (line " ++ toString line ++ ", column " ++ toString column ++ ")"
    else place
  | .overall reason => reason.message
  | .refused refusal => refusal.message

end Marginalia.Pattern
