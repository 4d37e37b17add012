/-
# What can be wrong with a YAML text

Every reason for which a text is no YAML stream, or a document holds no value,
with its wording.  A fault ends the stream it occurs in.
-/

namespace ReleaseLint
namespace Yaml

/-- Why a YAML text or one of its documents is refused. -/
inductive Fault where
  | controlCharacter
  | strayCharacter (c : Char)
  | missingColon
  | misplaced (what : String)
  | directive
  | anchorName
  | tagText
  | blockHeader
  | tabIndent
  | indicatorInText
  | endInText
  | escape
  | expected (what : String)
  | directiveClash
  | unknownHandle
  | unknownAnchor
  | duplicateKey
  | integerRange
  | badTagged
  | tooDeep
  | tooManyAliases
  | severalDocuments
  | shape (wanted : String)
  | tooLong
deriving DecidableEq, Repr, Inhabited

/-- The wording of a fault. -/
def Fault.message : Fault → String
  | controlCharacter => "control characters are not allowed"
  | strayCharacter c => s!"found character {c} that cannot start any token"
  | missingColon => "while scanning a simple key, could not find expected ':'"
  | misplaced what => s!"{what} are not allowed in this context"
  | directive => "while scanning a directive, found an unknown or malformed directive"
  | anchorName => "did not find expected alphabetic or numeric character"
  | tagText => "while scanning a tag, did not find expected tag"
  | blockHeader => "while scanning a block scalar, found an unexpected header"
  | tabIndent => "found a tab character that violates indentation"
  | indicatorInText => "while scanning a quoted scalar, found unexpected document indicator"
  | endInText => "while scanning a quoted scalar, found unexpected end of stream"
  | escape => "while parsing a quoted scalar, found unknown escape character"
  | expected what => s!"did not find expected {what}"
  | directiveClash => "found a duplicate or incompatible directive"
  | unknownHandle => "while parsing a node, found undefined tag handle"
  | unknownAnchor => "unknown anchor"
  | duplicateKey => "duplicate entry in a mapping"
  | integerRange => "integer out of range"
  | badTagged => "invalid value for its tag"
  | tooDeep => "recursion limit exceeded"
  | tooManyAliases => "repetition limit exceeded"
  | severalDocuments => "deserializing from YAML containing more than one document is not supported"
  | shape wanted => s!"invalid type: expected {wanted}"
  | tooLong => "text too long"

end Yaml
end ReleaseLint
