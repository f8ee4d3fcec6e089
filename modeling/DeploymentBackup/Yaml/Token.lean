namespace DeploymentBackup.Yaml

/-!
# Tokens

The tokens of a YAML text. Indentation has become explicit: a block collection is opened by
a token of its own and closed by `blockEnd`, so what follows does not count columns.

* `Style` — how a scalar is written.
* `Token` — one token.
* `Fault` — why a text is not a document.
-/

/-- How a scalar is written. -/
inductive Style
  | plain
  | single
  | double
  | literal
  | folded
deriving DecidableEq, Repr

/-- One token of a YAML text. -/
inductive Token
  /-- The directive that declares the version. -/
  | version (major minor : Nat)
  /-- The directive that declares a handle for tags that start with `stem`. -/
  | tagHandle (handle stem : String)
  | documentStart
  | documentEnd
  | streamEnd
  | blockSequence
  | blockMapping
  | blockEnd
  | openSequence
  | closeSequence
  | openMapping
  | closeMapping
  /-- The dash before an item of a block sequence. -/
  | item
  /-- The comma between entries of a flow collection. -/
  | comma
  | key
  | value
  | alias (name : String)
  | anchor (name : String)
  | tag (handle suffix : String)
  | scalar (style : Style) (text : String)
deriving DecidableEq, Repr

/-- Why a text is not a document of the expected shape. -/
inductive Fault
  /-- A character that no document may hold. -/
  | control
  /-- A character that starts no token. -/
  | unexpectedCharacter
  /-- A tab stands where indentation is counted. -/
  | tabIndentation
  /-- A key has no value. -/
  | missingColon
  /-- An entry of a block collection starts where none may start. -/
  | misplacedEntry
  | unclosedQuote
  | unknownEscape
  /-- A document mark inside a quoted scalar. -/
  | markInQuote
  | badBlockHeader
  | badDirective
  | badAnchor
  | badTag
  | undefinedHandle
  | undefinedAlias
  /-- A token that does not fit the collection around it. -/
  | unexpectedToken
  /-- A second document follows. -/
  | severalDocuments
  /-- A value is not of the expected kind. -/
  | wrongKind (expected : String)
  | duplicateField (name : String)
  | missingField (name : String)
deriving DecidableEq, Repr

/-- The text of a fault. -/
def Fault.message : Fault → String
  | .control => "control characters are not allowed"
  | .unexpectedCharacter => "found character that cannot start any token"
  | .tabIndentation => "found a tab character where indentation is expected"
  | .missingColon => "could not find expected ':'"
  | .misplacedEntry => "block collection entries are not allowed in this context"
  | .unclosedQuote => "found unexpected end of stream in a quoted scalar"
  | .unknownEscape => "found unknown escape character"
  | .markInQuote => "found unexpected document indicator"
  | .badBlockHeader => "malformed header of a block scalar"
  | .badDirective => "malformed directive"
  | .badAnchor => "malformed anchor or alias"
  | .badTag => "malformed tag"
  | .undefinedHandle => "found undefined tag handle"
  | .undefinedAlias => "unknown anchor"
  | .unexpectedToken => "did not find expected node content"
  | .severalDocuments =>
    "deserializing from YAML containing more than one document is not supported"
  | .wrongKind expected => "invalid type: expected " ++ expected
  | .duplicateField name => "duplicate field: " ++ name
  | .missingField name => "missing field: " ++ name

end DeploymentBackup.Yaml
