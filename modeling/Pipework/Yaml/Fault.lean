/-!
# Faults of YAML documents

Why a text is no YAML document, or not one of the wanted shape. The wording is
in `Fault.message`.
-/

namespace Pipework.Yaml

/-- What is wrong with a document. -/
inductive Fault where
  | forbiddenCharacter
  | badDirective
  | badVersion
  | repeatedDirective
  | badAnchor
  | badTag
  | undefinedTag
  | unknownAnchor
  | badBlockHeader
  | tabIndentation
  | unterminatedText
  | badEscape
  | documentMarkInText
  | missingColon
  | misplacedItem
  | misplacedKey
  | misplacedValue
  | unexpectedColon
  | unexpectedCharacter
  | missingNode
  | missingItem
  | missingKey
  | missingSeparator
  | missingDocumentStart
  | severalDocuments
  | wrongType (expected : String)
  | unknownVariant (name : String)
  | missingField (name : String)
  | repeatedField (name : String)
  | numberTooLarge
  | tooDeep
  | tooManyAliases
  deriving DecidableEq, Repr

namespace Fault

def message : Fault → String
  | .forbiddenCharacter => "control characters are not allowed"
  | .badDirective => "a directive is not well formed"
  | .badVersion => "found incompatible YAML document"
  | .repeatedDirective => "found duplicate directive"
  | .badAnchor => "did not find expected alphabetic or numeric character"
  | .badTag => "a tag is not well formed"
  | .undefinedTag => "found undefined tag handle"
  | .unknownAnchor => "unknown anchor"
  | .badBlockHeader => "did not find expected comment or line break"
  | .tabIndentation => "found a tab character that violates indentation"
  | .unterminatedText => "found unexpected end of stream"
  | .badEscape => "found unknown escape character"
  | .documentMarkInText => "found unexpected document indicator"
  | .missingColon => "could not find expected ':'"
  | .misplacedItem => "block sequence entries are not allowed in this context"
  | .misplacedKey => "mapping keys are not allowed in this context"
  | .misplacedValue => "mapping values are not allowed in this context"
  | .unexpectedColon => "found unexpected ':'"
  | .unexpectedCharacter => "found character that cannot start any token"
  | .missingNode => "did not find expected node content"
  | .missingItem => "did not find expected '-' indicator"
  | .missingKey => "did not find expected key"
  | .missingSeparator => "did not find expected ',' or closing bracket"
  | .missingDocumentStart => "did not find expected <document start>"
  | .severalDocuments => "deserializing from YAML containing more than one document is not supported"
  | .wrongType expected => "invalid type: expected " ++ expected
  | .unknownVariant name => "unknown variant \x60" ++ name ++ "\x60"
  | .missingField name => "missing field \x60" ++ name ++ "\x60"
  | .repeatedField name => "duplicate field \x60" ++ name ++ "\x60"
  | .numberTooLarge => "number out of range"
  | .tooDeep => "recursion limit exceeded"
  | .tooManyAliases => "repetition limit exceeded"

end Fault

end Pipework.Yaml
