import DeploymentBackup.Text.Hex
import DeploymentBackup.Text.Utf8
import DeploymentBackup.Yaml.Character
import DeploymentBackup.Yaml.Token

namespace DeploymentBackup.Yaml

/-!
# Anchors, tags and directives

Each reader takes the text from its indicator on and gives the token with the text behind.

* `readAnchor` — the name of an anchor or an alias.
* `readTag` — a tag: a handle and a suffix, or a whole tag between angle brackets.
* `readDirective` — the line of a directive.
-/

/-! ### Anchors -/

/-- An indicator that may follow the name of an anchor without a blank. -/
def isAnchorEnd (c : Char) : Bool :=
  "?:,]\x7d%@\x60".toList.contains c

/-- The name behind the indicator of an anchor or an alias, and the text behind it. -/
def readAnchor (cs : List Char) : Except Fault (String × List Char) :=
  let name := cs.takeWhile isNameChar
  let rest := cs.dropWhile isNameChar
  if name.isEmpty then .error .badAnchor
  else if atGap rest || rest.head?.any isAnchorEnd then .ok (String.ofList name, rest)
  else .error .badAnchor

/-! ### Tags -/

/-- The characters of a tag; the last three only between angle brackets. -/
def isTagChar (verbatim : Bool) (c : Char) : Bool :=
  isNameChar c || ";/?:@&=+$.!~*'()%".toList.contains c ||
    (verbatim && (c = ',' || c = '[' || c = ']'))

/-- How many bytes a character has whose first byte is `b`. -/
def octetWidth? (b : Nat) : Option Nat :=
  if b < 0x80 then some 1
  else if b / 0x20 = 0x6 then some 2
  else if b / 0x10 = 0xE then some 3
  else if b / 0x08 = 0x1E then some 4
  else none

/-- One percent escape. -/
def octet? : List Char → Option (Nat × List Char)
  | '%' :: high :: low :: rest => do
    let high ← Text.hexValue? high
    let low ← Text.hexValue? low
    return (high * 16 + low, rest)
  | _ => none

/-- The further octets of an escaped character. -/
def moreOctets? : Nat → List Char → Option (List Nat × List Char)
  | 0, rest => some ([], rest)
  | n + 1, cs =>
    match octet? cs with
    | some (b, rest) =>
      if b / 0x40 = 2 then (moreOctets? n rest).map fun (bs, rest) => (b :: bs, rest) else none
    | none => none

/-- The octets of one escaped character. -/
def octets? (cs : List Char) : Option (List Nat × List Char) :=
  match octet? cs with
  | some (b, rest) =>
    match octetWidth? b with
    | some width => (moreOctets? (width - 1) rest).map fun (bs, rest) => (b :: bs, rest)
    | none => none
  | none => none

/-- The text of the octets of an escaped character. -/
def octetText (octets : List Nat) : List Char :=
  Text.decodeLossyChars (octets.map Nat.toUInt8)

/-- The characters of a tag at the front, escapes resolved; `fuel` bounds their number. -/
def tagText (verbatim : Bool) : (fuel : Nat) → List Char → Except Fault (List Char × List Char)
  | 0, cs => .ok ([], cs)
  | _, [] => .ok ([], [])
  | fuel + 1, c :: rest =>
    if ! isTagChar verbatim c then .ok ([], c :: rest)
    else if c = '%' then
      match octets? (c :: rest) with
      | none => .error .badTag
      | some (octets, rest) =>
        (tagText verbatim fuel rest).map fun (text, rest) => (octetText octets ++ text, rest)
    else (tagText verbatim fuel rest).map fun (text, rest) => (c :: text, rest)

/-- The characters of a tag at the front, cut at an escaped NUL. -/
def readTagText (verbatim : Bool) (cs : List Char) : Except Fault (List Char × List Char) :=
  (tagText verbatim cs.length cs).map fun (text, rest) => (text.takeWhile (· ≠ '\x00'), rest)

/-- A handle at the front: an exclamation mark, name characters, and perhaps a second mark. -/
def handleOf (cs : List Char) : List Char × List Char :=
  let name := cs.tail.takeWhile isNameChar
  match cs.tail.dropWhile isNameChar with
  | '!' :: rest => ('!' :: name ++ ['!'], rest)
  | rest => ('!' :: name, rest)

/-- The handle and suffix of a tag, from its exclamation mark on. A tag with one mark has
    the handle `!`; the mark alone has no handle. -/
def tagParts (cs : List Char) : Except Fault (List Char × List Char × List Char) :=
  match cs with
  | '!' :: '<' :: rest =>
    match readTagText true rest with
    | .ok (suffix, '>' :: after) =>
      if rest.head? = some '>' then .error .badTag else .ok ([], suffix, after)
    | .ok _ => .error .badTag
    | .error fault => .error fault
  | cs =>
    let (handle, rest) := handleOf cs
    match readTagText false rest with
    | .error fault => .error fault
    | .ok (suffix, after) =>
      if handle.length ≥ 2 && handle.getLast? = some '!' then
        if after.length = rest.length then .error .badTag else .ok (handle, suffix, after)
      else
        let suffix := handle.drop 1 ++ suffix
        if suffix.isEmpty then .ok ([], ['!'], after) else .ok (['!'], suffix, after)

/-- A tag at the front. A blank follows it or, in a flow collection, a comma. -/
def readTag (flow : Bool) (cs : List Char) : Except Fault (Token × List Char) :=
  match tagParts cs with
  | .error fault => .error fault
  | .ok (handle, suffix, rest) =>
    if atGap rest || (flow && rest.head? = some ',') then
      .ok (.tag (String.ofList handle) (String.ofList suffix), rest)
    else .error .badTag

/-! ### Directives -/

/-- A number of at most nine digits. -/
def versionNumber? (cs : List Char) : Option (Nat × List Char) :=
  let digits := cs.takeWhile Char.isDigit
  if digits.isEmpty || digits.length > 9 then none
  else some (digits.foldl (fun n c => n * 10 + (c.toNat - '0'.toNat)) 0, cs.dropWhile Char.isDigit)

/-- The value of the version directive. -/
def versionValue? (cs : List Char) : Option (Token × List Char) := do
  let (major, rest) ← versionNumber? cs
  match rest with
  | '.' :: rest => (versionNumber? rest).map fun (minor, rest) => (.version major minor, rest)
  | _ => none

/-- The value of the directive that declares a handle. -/
def tagHandleValue (cs : List Char) : Except Fault (Token × List Char) :=
  if cs.head? ≠ some '!' then .error .badDirective
  else
    let (handle, rest) := handleOf cs
    if handle.length ≥ 2 && handle.getLast? ≠ some '!' then .error .badDirective
    else if ! rest.head?.any isSpace then .error .badDirective
    else
      let rest := rest.dropWhile isSpace
      match readTagText true rest with
      | .error fault => .error fault
      | .ok (stem, after) =>
        if after.length = rest.length || ! atGap after then .error .badDirective
        else .ok (.tagHandle (String.ofList handle) (String.ofList stem), after)

/-- The directive at the front, from its percent sign on, and the text behind its line. -/
def readDirective (cs : List Char) : Except Fault (Token × List Char) :=
  let name := cs.tail.takeWhile isNameChar
  let rest := cs.tail.dropWhile isNameChar
  if name.isEmpty || ! atGap rest then .error .badDirective
  else
    let argument := rest.dropWhile isSpace
    let directive :=
      if name = "YAML".toList then
        match versionValue? argument with
        | some directive => .ok directive
        | none => .error .badDirective
      else if name = "TAG".toList then tagHandleValue argument
      else .error .badDirective
    match directive with
    | .error fault => .error fault
    | .ok (token, rest) =>
      let rest := rest.dropWhile isSpace
      let rest := if rest.head? = some '#' then rest.dropWhile (! isBreak ·) else rest
      match rest with
      | [] => .ok (token, [])
      | _ =>
        match lineBreak? rest with
        | some (_, rest) => .ok (token, rest)
        | none => .error .badDirective

end DeploymentBackup.Yaml
