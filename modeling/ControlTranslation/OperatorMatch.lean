import ControlTranslation.SecRule

/-!
# Operators as match values

An operator and its argument become the values of one condition, together with
the flags the condition is labelled by.  The regex operator goes through the
translator; when the values are too many, one exact producer grammar, the
generalized JNDI family in its raw, percent-encoded and hexadecimal branches,
is recognised by its text and compacted instead.
-/

namespace ModSecurity

open PyText

/-- What an operator's argument becomes: globs, how they compare, and what was lost on the way. -/
structure Match where
  values : List Str
  wildcard : Bool
  caseInsensitive : Bool
  lossy : Bool
  narrowed : Bool := false
  limitations : List Str := []
  transportFormsExplicit : Bool := false
  deriving DecidableEq, Repr

/-- The part of an authority made of host labels. -/
def jndiLabel : Str :=
  "(?:[A-Za-z0-9](?:[A-Za-z0-9-]\x7b0,61\x7d[A-Za-z0-9])?".toList ++
    "(?:\\.[A-Za-z0-9](?:[A-Za-z0-9-]\x7b0,61\x7d[A-Za-z0-9])?)\x7b0,10\x7d".toList

/-- An authority as it stands in a raw branch. -/
def jndiRawAuthority : Str :=
  jndiLabel ++
    "|(?:[0-9]\x7b1,3\x7d\\.)\x7b3\x7d[0-9]\x7b1,3\x7d|\\[[0-9A-Fa-f:]\x7b2,39\x7d\\])".toList

/-- An authority as it stands in a percent-encoded branch. -/
def jndiUrlAuthority : Str :=
  jndiLabel ++
    ("|(?:[0-9]\x7b1,3\x7d\\.)\x7b3\x7d[0-9]\x7b1,3\x7d|" ++
      "%5B(?:[0-9A-Fa-f]|%3A)\x7b2,39\x7d%5D)").toList

/-- The hex of a letter or a digit. -/
def jndiHexAlnum : Str := "(?:3[0-9]|4[1-9A-F]|5[0-9A]|6[1-9A-F]|7[0-9A])".toList

/-- The hex of a byte a resource may hold. -/
def jndiHexResourceByte : Str :=
  ("(?:0[0-8EeFf]|1[0-9A-Fa-f]|2[1345689A-Fa-f]|" ++
    "3[0-9A-Ba-bDdFf]|[4-6][0-9A-Fa-f]|7[0-9A-Ca-cE-Ff]|" ++
    "[89A-Fa-f][0-9A-Fa-f])").toList

/-- The raw branch, all of it but its carriers. -/
def jndiRawBranch : Str :=
  "\\$\\\x7bjndi:(?:ldap|rmi)://".toList ++ jndiRawAuthority ++
    "(?::[0-9]\x7b1,5\x7d)?/[^\\s\"'<>\x7d]\x7b0,512\x7d\\\x7d".toList

/-- The percent-encoded branch. -/
def jndiUrlBranch : Str :=
  "%24%7Bjndi%3A(?:ldap|rmi)%3A%2F%2F".toList ++ jndiUrlAuthority ++
    "(?:%3A[0-9]\x7b1,5\x7d)?%2F(?:[A-Za-z0-9._~-]|%".toList ++ jndiHexResourceByte ++
    ")\x7b0,512\x7d%7D".toList

/-- One host label of the hexadecimal branch. -/
def jndiHexLabel : Str :=
  jndiHexAlnum ++ "(?:(?:".toList ++ jndiHexAlnum ++ "|2[Dd])\x7b0,61\x7d".toList ++
    jndiHexAlnum

/-- The branch written in hex. -/
def jndiHexBranch : Str :=
  "247b6a6e64693a(?:6c646170|726d69)3a2f2f(?:".toList ++ jndiHexLabel ++
    ")?(?:2[Ee]".toList ++ jndiHexLabel ++
    (")?)\x7b0,10\x7d|(?:3[0-9])\x7b1,3\x7d(?:2[Ee](?:3[0-9])\x7b1,3\x7d)\x7b3\x7d" ++
      "|5[Bb](?:(?:3[0-9]|4[1-6]|6[1-6]|3[Aa]))\x7b2,39\x7d5[Dd])" ++
      "(?:3[Aa](?:3[0-9])\x7b1,5\x7d)?2[Ff](?:").toList ++
    jndiHexResourceByte ++ ")\x7b0,512\x7d7d".toList

/-- The three ways a lookup is written. -/
inductive Representation
  | raw
  | url
  | hex
  deriving DecidableEq, Repr

/-- The branches the compaction knows. -/
def expectedBranches : List (Representation × Str) :=
  [(.raw, jndiRawBranch), (.url, jndiUrlBranch), (.hex, jndiHexBranch)]

/-- The scanner of `_top_level_group_branches`; `current` is the branch read so
far, in reverse. -/
structure BranchScan where
  branches : List Str
  current : Str
  depth : Nat
  inClass : Bool
  escaped : Bool

/-- One character of the scan for top-level alternatives. -/
def scanBranch (s : BranchScan) (c : Char) : Attempt BranchScan :=
  let next := { s with current := c :: s.current }
  if s.escaped then .ok { next with escaped := false }
  else if c = '\\' then .ok { next with escaped := true }
  else if s.inClass then .ok (if c = ']' then { next with inClass := false } else next)
  else if c = '[' then .ok { next with inClass := true }
  else if c = '(' then
    if 16 < s.depth + 1 then .error "structured JNDI regex nesting is too deep"
    else .ok { next with depth := s.depth + 1 }
  else if c = ')' then
    if s.depth = 0 then .error "unbalanced structured JNDI regex"
    else .ok { next with depth := s.depth - 1 }
  else if c = '|' ∧ s.depth = 0 then
    if 3 < s.branches.length + 1 then .error "structured JNDI regex has too many branches"
    else .ok { s with branches := s.branches ++ [s.current.reverse], current := [] }
  else .ok next

/-- `_top_level_group_branches`. -/
def topLevelGroupBranches (source : Str) : Attempt (List Str) :=
  if maxRegexLength < source.length ∨ "(?:".toList.isPrefixOf source = false ∨
      source.getLast? ≠ some ')' then
    .error "structured JNDI regex must be one bounded noncapturing group"
  else
    match (source.drop 3).dropLast.foldlM scanBranch ⟨[], [], 0, false, false⟩ with
    | .error e => .error e
    | .ok s =>
        let branches := s.branches ++ [s.current.reverse]
        if s.escaped ∨ s.inClass ∨ s.depth ≠ 0 then .error "unbalanced structured JNDI regex"
        else if branches.length ≠ 3 ∨ branches.contains [] then
          .error "structured JNDI regex must have exactly three branches"
        else .ok branches

/-- A character a carrier prefix may have. -/
def isCarrierChar (c : Char) : Bool := c.isAlphanum || c ∈ "_.~-".toList

/-- `_JNDI_LITERAL_CARRIER`: a bounded name and an equals sign, plain or encoded. -/
def isLiteralCarrier (carrier : Str) : Bool :=
  let name := carrier.takeWhile isCarrierChar
  1 ≤ name.length && name.length ≤ 64 &&
    ["=".toList, "%3D".toList, "%3d".toList].contains (carrier.dropWhile isCarrierChar)

/-- `bytes.fromhex` on text that is all digits. -/
def fromHex : Str → List Nat
  | high :: low :: rest => (16 * hexValue high + hexValue low) :: fromHex rest
  | _ => []

/-- `_validate_jndi_carrier`. -/
def validateJndiCarrier (carrier : Str) (representation : Representation) :
    Attempt Unit :=
  if carrier = [] then .ok ()
  else if representation ≠ .hex then
    if isLiteralCarrier carrier then .ok ()
    else .error "unsupported structured JNDI carrier"
  else if carrier.all isHexDigit = false ∨ carrier.length % 2 = 1 ∨ carrier.length < 4 ∨
      130 < carrier.length then
    .error "unsupported hex structured JNDI carrier"
  else
    let decoded := fromHex carrier
    if decoded.all (· < 128) = false then .error "invalid hex structured JNDI carrier"
    else
      let name := decoded.dropLast.map Char.ofNat
      if decoded.getLast? = some '='.toNat ∧ 1 ≤ name.length ∧ name.length ≤ 64 ∧
          name.all isCarrierChar then .ok ()
      else .error "unsupported decoded hex structured JNDI carrier"

/-- The branches found, each with the prefix that carries it. -/
abbrev Carriers := List (Representation × Str)

/-- One branch: exactly one known body ends it, and what precedes is its carrier. -/
def readBranch (carriers : Carriers) (branch : Str) : Attempt Carriers :=
  match expectedBranches.filter fun e => e.2.isSuffixOf branch with
  | [(representation, body)] =>
      if carriers.any (·.1 = representation) then
        .error "duplicate structured JNDI representation branch"
      else
        let carrier := branch.take (branch.length - body.length)
        (validateJndiCarrier carrier representation).map fun _ =>
          carriers ++ [(representation, carrier)]
  | _ => .error "unknown or mixed structured JNDI branch"

/-- The carrier of a representation. -/
def carrierOf (carriers : Carriers) (representation : Representation) : Str :=
  ((carriers.find? (·.1 = representation)).map (·.2)).getD []

/-- The three wildcard values of one protocol. -/
def compactValues (carriers : Carriers) (protocol : Str) : List Str :=
  ["*".toList ++ carrierOf carriers .raw ++ "$\x7bjndi:".toList ++ protocol ++
      "://?*/*\x7d*".toList,
    "*".toList ++ carrierOf carriers .url ++ "%24%7Bjndi%3A".toList ++ protocol ++
      "%3A%2F%2F?*%2F*%7D*".toList,
    "*".toList ++ carrierOf carriers .hex ++ "247b6a6e64693a".toList ++
      encodeHex protocol ++ "3a2f2f??*2f*7d*".toList]

/-- The notes a compacted translation carries. -/
def compactedLimitations : List Str :=
  [("The exact Defense Generation raw, percent-encoded, and UTF-8 hex " ++
      "JNDI branches were compacted after bounded regex expansion exceeded " ++
      "the Akamai value limit; representation framing, any validated " ++
      "carrier prefix, and explicit ldap/rmi alternatives are preserved.").toList,
    ("The compacted Akamai wildcards require a nonempty authority but " ++
      "broaden DG's hostname, IPv4, IPv6, port, resource-character, and " ++
      "length grammar. Percent and hex wildcards do not enforce byte " ++
      "validity. Operator review of collateral impact is required.").toList]

/-- `_compact_structured_jndi_regex`. -/
def compactStructuredJndiRegex (source : Str) : Attempt Match :=
  match topLevelGroupBranches source with
  | .error e => .error e
  | .ok branches =>
      match branches.foldlM readBranch [] with
      | .error e => .error e
      | .ok carriers =>
          if (expectedBranches.all fun e => carriers.any (·.1 = e.1)) = false then
            .error "structured JNDI regex requires raw, URL, and hex branches"
          else
            let values := unique
              (compactValues carriers "ldap".toList ++ compactValues carriers "rmi".toList)
            if maxValues < values.length then
              .error "compacted structured JNDI values exceed value limit"
            else
              .ok { values := values, wildcard := true, caseInsensitive := false,
                    lossy := true, limitations := compactedLimitations,
                    transportFormsExplicit := true }

/-- The text on which the regex operator falls back to the compaction. -/
def tooManyValues : String := "regex expands to too many values"

/-- `@rx`. -/
def regexMatch (t : CharTables) (argument : Str) : Attempt Match :=
  match translate t argument with
  | .ok r =>
      .ok { values := r.values, wildcard := r.wildcard,
            caseInsensitive := r.caseInsensitive, lossy := r.lossy, narrowed := r.narrowed }
  | .error e => if e ≠ tooManyValues then .error e else compactStructuredJndiRegex argument

/-- A match of one value built around a literal, which must not be empty. -/
def literalMatch (before after : Str) (wildcard : Bool) (argument : Str) : Attempt Match :=
  if argument = [] then .error "empty operator argument"
  else .ok { values := [before ++ argument ++ after], wildcard := wildcard,
             caseInsensitive := false, lossy := false }

/-- A match of exact members. -/
def memberMatch (emptyText : String) (members : List Str) : Attempt Match :=
  if members = [] then .error emptyText
  else .ok { values := members, wildcard := false, caseInsensitive := false, lossy := false }

/-- The addresses of an `@ipMatch` argument, between commas and white space. -/
def splitAddresses (argument : Str) : List Str :=
  ((argument.splitOnP fun c => c == ',' || isSpace c).filter
    fun item => strip item ≠ []).map strip

/-- `@pm`. -/
def phraseMatch (argument : Str) : Attempt Match :=
  let members := unique (splitWhitespace argument)
  if members = [] then .error "empty @pm list"
  else if maxValues < members.length then .error "@pm list is too large"
  else .ok { values := members.map fun item => '*' :: item ++ ['*'], wildcard := true,
             caseInsensitive := true, lossy := false }

/-- `_operator_match`. -/
def operatorMatch (t : CharTables) (rule : SecRule) : Attempt Match :=
  if rule.operator = "rx".toList then regexMatch t rule.argument
  else if rule.operator = "contains".toList then literalMatch ['*'] ['*'] true rule.argument
  else if rule.operator = "beginsWith".toList then literalMatch [] ['*'] true rule.argument
  else if rule.operator = "endsWith".toList then literalMatch ['*'] [] true rule.argument
  else if rule.operator = "streq".toList ∨ rule.operator = "eq".toList then
    literalMatch [] [] false rule.argument
  else if rule.operator = "within".toList then
    memberMatch "empty @within list" (unique (splitWhitespace rule.argument))
  else if rule.operator = "pm".toList then phraseMatch rule.argument
  else if rule.operator = "ipMatch".toList then
    memberMatch "empty @ipMatch list" (unique (splitAddresses rule.argument))
  else .error ("unsupported ModSecurity operator: @" ++ String.ofList rule.operator)

end ModSecurity
