/-!
# Faults of YAML texts

Why a text is not YAML, or not YAML that can be read as one document.
-/

namespace ScriptLint.Yaml

inductive Fault where
  | controlCharacter
  | missingColon
  | misplacedEntry
  | misplacedKey
  | misplacedValue
  | unknownCharacter
  | badDirective
  | badVersion
  | duplicateDirective
  | badAnchor
  | badTag
  | unknownTagHandle
  | badBlockHeader
  | tabIndentation
  | unterminatedQuote
  | documentMarkInQuote
  | badEscape
  | colonInFlowScalar
  | missingDocumentStart
  | missingEntry
  | missingKey
  | missingContent
  | missingFlowEnd
  | unknownAlias
  | severalDocuments
  | nestingTooDeep
  /-- The document is YAML, but not of the form that is asked for. -/
  | unexpectedForm
  deriving DecidableEq

def Fault.message : Fault → String
  | controlCharacter => "control characters are not allowed"
  | missingColon => "could not find expected ':'"
  | misplacedEntry => "block sequence entries are not allowed in this context"
  | misplacedKey => "mapping keys are not allowed in this context"
  | misplacedValue => "mapping values are not allowed in this context"
  | unknownCharacter => "found character that cannot start any token"
  | badDirective => "found a malformed directive"
  | badVersion => "found incompatible YAML document"
  | duplicateDirective => "found duplicate directive"
  | badAnchor => "did not find expected alphabetic or numeric character"
  | badTag => "found a malformed tag"
  | unknownTagHandle => "found undefined tag handle"
  | badBlockHeader => "found a malformed block scalar header"
  | tabIndentation => "found a tab character that violates indentation"
  | unterminatedQuote => "found unexpected end of stream"
  | documentMarkInQuote => "found unexpected document indicator"
  | badEscape => "found a malformed escape sequence"
  | colonInFlowScalar => "found unexpected ':'"
  | missingDocumentStart => "did not find expected <document start>"
  | missingEntry => "did not find expected '-' indicator"
  | missingKey => "did not find expected key"
  | missingContent => "did not find expected node content"
  | missingFlowEnd => "did not find expected ',' or closing bracket"
  | unknownAlias => "unknown anchor"
  | severalDocuments => "deserializing from YAML containing more than one document is not supported"
  | nestingTooDeep => "recursion limit exceeded"
  | unexpectedForm => "invalid type or value"

end ScriptLint.Yaml
