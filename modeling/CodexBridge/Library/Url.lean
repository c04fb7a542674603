import CodexBridge.Library.Json

/-! # Splitting URLs

`urlsplit` and `urlunsplit` on texts, with the parts of the network location. What they ask of
other libraries is a parameter.
-/

namespace Url

abbrev Text := List Char

structure Unicode where
  /-- `ip_address(text)` is an address of version 6. -/
  isIpv6 : Text → Bool
  /-- `unicodedata.normalize("NFKC", text)`. -/
  nfkc : Text → Text
  lower : Text → Text

/-- `text.partition(c)`; there is no second part where `c` does not occur. -/
def partitionAt (c : Char) (text : Text) : Text × Option Text :=
  match text.dropWhile (· ≠ c) with
  | [] => (text, none)
  | _ :: after => (text.takeWhile (· ≠ c), some after)

def afterLast (c : Char) (text : Text) : Text := (text.reverse.takeWhile (· ≠ c)).reverse

structure SplitResult where
  scheme : Text
  netloc : Text
  path : Text
  query : Text
  fragment : Text

/-! ## Checks of the network location -/

def isFutureAddress (host : Text) : Bool :=
  match host with
  | 'v' :: rest =>
    let digits := rest.takeWhile fun c =>
      c.isDigit || ('a' ≤ c && c ≤ 'f') || ('A' ≤ c && c ≤ 'F')
    match rest.drop digits.length with
    | '.' :: _ :: _ => !digits.isEmpty
    | _ => false
  | _ => false

section

variable (unicode : Unicode)

def checkBracketedHost (host : Text) : Bool :=
  if host.head? = some 'v' then isFutureAddress host else unicode.isIpv6 host

def checkBracketedNetloc (netloc : Text) : Bool :=
  let hostAndPort := afterLast '@' netloc
  match partitionAt '[' hostAndPort with
  | (before, some bracketed) =>
    let parts := partitionAt ']' bracketed
    before.isEmpty && ((parts.2.getD []).isEmpty || (parts.2.getD []).head? = some ':') &&
      checkBracketedHost unicode parts.1
  | (_, none) => checkBracketedHost unicode (partitionAt ':' hostAndPort).1

def checkNetloc (netloc : Text) : Bool :=
  netloc.all (·.toNat < 128) ||
    let n := netloc.filter fun c => c ∉ ['@', ':', '#', '?']
    let n' := unicode.nfkc n
    n' = n || ! ['/', '?', '#', '@', ':'].any fun c => n'.contains c

def isSchemeChar (c : Char) : Bool := c.isAlphanum || c ∈ ['+', '-', '.']

def splitScheme (url : Text) : Text × Text :=
  match partitionAt ':' url with
  | (c :: rest, some after) =>
    if c.isAlpha && (c :: rest).all isSchemeChar then ((c :: rest).map Char.toLower, after)
    else ([], url)
  | _ => ([], url)

def isDelimiter (c : Char) : Bool := c ∈ ['/', '?', '#']

/-- `_splitnetloc`, where the rest of a URL begins with two slashes. -/
def splitNetloc : Text → Text × Text
  | '/' :: '/' :: rest => (rest.takeWhile (!isDelimiter ·), rest.dropWhile (!isDelimiter ·))
  | url => ([], url)

/-- The part before the first `c` and the part after it, empty where there is none. -/
def splitOnce (c : Char) (text : Text) : Text × Text :=
  let parts := partitionAt c text
  (parts.1, parts.2.getD [])

/-- `urlsplit`; there is no result where it raises `ValueError`. -/
def urlsplit (value : Text) : Option SplitResult :=
  let url := (value.dropWhile (·.toNat ≤ 32)).filter (· ∉ ['\t', '\r', '\n'])
  let (scheme, url) := splitScheme url
  let (netloc, url) := splitNetloc url
  let (url, fragment) := splitOnce '#' url
  let (path, query) := splitOnce '?' url
  if netloc.contains '[' != netloc.contains ']' then none
  else if netloc.contains '[' && !checkBracketedNetloc unicode netloc then none
  else if !checkNetloc unicode netloc then none
  else some ⟨scheme, netloc, path, query, fragment⟩

namespace SplitResult

def hasUser (r : SplitResult) : Bool := r.netloc.contains '@'

def hostInfo (r : SplitResult) : Text × Text :=
  let info := afterLast '@' r.netloc
  match partitionAt '[' info with
  | (_, some bracketed) =>
    let parts := partitionAt ']' bracketed
    (parts.1, (partitionAt ':' (parts.2.getD [])).2.getD [])
  | (_, none) =>
    let parts := partitionAt ':' info
    (parts.1, parts.2.getD [])

/-- `hostname`, empty for `None`. -/
def hostname (r : SplitResult) : Text :=
  match partitionAt '%' r.hostInfo.1 with
  | (host, some zone) => unicode.lower host ++ '%' :: zone
  | (host, none) => unicode.lower host

/-- `port`; there is no result where it raises `ValueError`. -/
def port (r : SplitResult) : Option (Option Nat) :=
  let digits := r.hostInfo.2
  if digits.isEmpty then some none
  else if digits.all Char.isDigit then
    let port := digits.foldl (fun n c => 10 * n + (c.toNat - 48)) 0
    if port ≤ 65535 then some (some port) else none
  else none

end SplitResult

end

def usesNetloc : List String :=
  ["", "ftp", "http", "gopher", "nntp", "telnet", "imap", "wais", "file", "mms", "https", "shttp",
    "snews", "prospero", "rtsp", "rtsps", "rtspu", "rsync", "svn", "svn+ssh", "sftp", "nfs", "git",
    "git+ssh", "ws", "wss"]

def joinNetloc (scheme netloc path : Text) : Text :=
  if !netloc.isEmpty then
    "//".toList ++ netloc ++ if path.isEmpty || path.head? = some '/' then path else '/' :: path
  else if "//".toList.isPrefixOf path then "//".toList ++ path
  else if !scheme.isEmpty && usesNetloc.contains (String.ofList scheme) &&
      (path.isEmpty || path.head? = some '/') then "//".toList ++ path
  else path

def urlunsplit (parts : SplitResult) : Text :=
  let url := joinNetloc parts.scheme parts.netloc parts.path
  let url := if parts.scheme.isEmpty then url else parts.scheme ++ ':' :: url
  let url := if parts.query.isEmpty then url else url ++ '?' :: parts.query
  if parts.fragment.isEmpty then url else url ++ '#' :: parts.fragment

end Url
