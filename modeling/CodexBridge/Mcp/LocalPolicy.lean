import CodexBridge.Library.Url
import Mathlib.Data.List.Nodup
import Mathlib.Algebra.GroupWithZero.Nat

/-! # The destination policy of relayed MCP servers

A relayed server has a URL in a canonical form and the addresses that its host name was approved
with. A local server is on a private network, any other has a public name and public addresses.
-/

namespace CodexBridge.Mcp

open Url

/-! ## Addresses -/

/-- `IPv4Address` or `IPv6Address`, without a scope. -/
structure Address where
  version6 : Bool
  value : Nat
deriving DecidableEq

/-- What the policy uses of the standard library. -/
structure Network where
  unicode : Unicode
  /-- `ipaddress.ip_address`; there is no result where it raises `ValueError`. -/
  parse : Text → Option Address
  text : Address → Text
  isGlobal : Address → Bool

/-- `address in network`, of the networks in `_NETWORKS`. -/
def Address.isPrivate (a : Address) : Bool :=
  if a.version6 then a.value / 2 ^ 121 = 0xfc / 2
  else a.value / 2 ^ 24 = 10 || a.value / 2 ^ 20 = 0xac1 || a.value / 2 ^ 16 = 0xc0a8

def supervisorIp : Address := ⟨false, 0xac1e2002⟩

/-- `ipv4_mapped is not None`. -/
def Address.isMapped (a : Address) : Bool := a.version6 && a.value / 2 ^ 32 = 0xffff

def Address.isMulticast (a : Address) : Bool :=
  if a.version6 then a.value / 2 ^ 120 = 0xff else a.value / 2 ^ 28 = 0xe

/-- `dict.fromkeys(values)`. -/
def fromKeys {α : Type} [DecidableEq α] : List α → List α
  | [] => []
  | a :: rest => a :: (fromKeys rest).filter (· ≠ a)

section

variable (network : Network)

/-- `private_address`; there is no result where it raises `LocalMcpError`. -/
def privateAddress (value : Text) : Option Text :=
  if value.contains '%' then none
  else
    (network.parse value).bind fun address =>
      if address = supervisorIp || address.isMapped || !address.isPrivate then none
      else some (network.text address)

/-- An address of `checked_addresses` for a server that is not local. -/
def publicAddress (value : Text) : Option Text :=
  if value.contains '%' then none
  else
    (network.parse value).bind fun address =>
      if !network.isGlobal address || address.isMulticast || address.isMapped then none
      else some (network.text address)

def checkedAddress (isLocal : Bool) (value : Text) : Option Text :=
  if isLocal then privateAddress network value else publicAddress network value

def checkedAddresses (isLocal : Bool) (answers : List Text) : Option (List Text) :=
  if 1 ≤ answers.length ∧ answers.length ≤ 16 then
    (answers.mapM (checkedAddress network isLocal)).map fromKeys
  else none

/-- `_RESERVED`. -/
def reservedHosts : List Text :=
  ["localhost", "localhost.localdomain", "supervisor", "hassio", "supervisor.local.hass.io",
    "metadata.google.internal"].map String.toList

def localSuffixes : List Text :=
  [".local", ".internal", ".home.arpa", ".lan", ".test", ".invalid"].map String.toList

/-- `host.endswith(suffix)`. -/
def endsWith (suffix host : Text) : Bool := suffix.reverse.isPrefixOf host.reverse

def isLabelChar (c : Char) : Bool := c.isDigit || ('a' ≤ c && c ≤ 'z')

/-- `_LABEL`. -/
def isLabel (label : Text) : Bool :=
  decide (1 ≤ label.length) && decide (label.length ≤ 63) &&
    (label.all fun c => isLabelChar c || c = '-') &&
    label.head?.all isLabelChar && label.getLast?.all isLabelChar

def isPlainUrl (value : String) : Bool :=
  value ≠ "" && PyText.strip value = value && decide (value.length ≤ 2048) &&
    !value.toList.contains '\\' &&
    (value.toList.all fun c => decide (32 < c.toNat) && c.toNat ≠ 127) &&
    decide (PyText.utf8Length value ≤ 2048)

/-- `(parsed.hostname or "").lower().rstrip(".")`. -/
def hostOf (parsed : SplitResult) : Text :=
  ((network.unicode.lower (parsed.hostname network.unicode)).reverse.dropWhile (· = '.')).reverse

/-- The tests of the parts of a URL. -/
def isAllowed (parsed : SplitResult) (host : Text) (port : Option Nat) (isLocal : Bool) : Bool :=
  (parsed.scheme = "http".toList || parsed.scheme = "https".toList) && !host.isEmpty &&
    host.all (·.toNat < 128) && !parsed.hasUser && parsed.query.isEmpty &&
    parsed.fragment.isEmpty && !parsed.netloc.contains '%' && host ∉ reservedHosts &&
    !endsWith ".localhost".toList host && port ≠ some 0 &&
    (isLocal || (parsed.scheme = "https".toList && host.contains '.' &&
      !localSuffixes.any (endsWith · host)))

def authorityOf (host : Text) (isLocal : Bool) : Option Text :=
  match network.parse host with
  | none =>
    if host.length ≤ 253 ∧ (host.splitOn '.').all isLabel then some host else none
  | some _ =>
    if isLocal then
      (privateAddress network host).map fun address =>
        if address.contains ':' then '[' :: address ++ [']'] else address
    else none

def portText (port : Option Nat) : Text := (port.map fun p => ':' :: (toString p).toList).getD []

def canonicalLocalUrl (isLocal : Bool) : Json → Option String
  | .str value =>
    if isPlainUrl value then
      (urlsplit network.unicode value.toList).bind fun parsed =>
        (parsed.port).bind fun port =>
          let host := hostOf network parsed
          if isAllowed parsed host port isLocal then
            (authorityOf network host isLocal).map fun authority =>
              String.ofList (urlunsplit ⟨parsed.scheme, authority ++ portText port,
                if parsed.path.isEmpty then ['/'] else parsed.path, [], []⟩)
          else none
    else none
  | _ => none

structure Network.Lawful : Prop where
  parse_text : ∀ value address, network.parse value = some address →
    network.parse (network.text address) = some address
  text_scope : ∀ value address, network.parse value = some address → '%' ∉ value →
    '%' ∉ network.text address

variable {network}

theorem privateAddress_again (h : network.Lawful) {value address : Text}
    (hvalue : privateAddress network value = some address) :
    privateAddress network address = some address := by
  unfold privateAddress at hvalue
  obtain ⟨hscope, hvalue⟩ := Option.ite_none_left_eq_some.mp hvalue
  obtain ⟨found, hparse, hvalue⟩ := Option.bind_eq_some_iff.mp hvalue
  obtain ⟨hok, hvalue⟩ := Option.ite_none_left_eq_some.mp hvalue
  cases hvalue
  have hplain : '%' ∉ network.text found := h.text_scope value found hparse (by simpa using hscope)
  unfold privateAddress
  rw [if_neg (by simpa using hplain), h.parse_text value found hparse, Option.bind_some, if_neg hok]

theorem publicAddress_again (h : network.Lawful) {value address : Text}
    (hvalue : publicAddress network value = some address) :
    publicAddress network address = some address := by
  unfold publicAddress at hvalue
  obtain ⟨hscope, hvalue⟩ := Option.ite_none_left_eq_some.mp hvalue
  obtain ⟨found, hparse, hvalue⟩ := Option.bind_eq_some_iff.mp hvalue
  obtain ⟨hok, hvalue⟩ := Option.ite_none_left_eq_some.mp hvalue
  cases hvalue
  have hplain : '%' ∉ network.text found := h.text_scope value found hparse (by simpa using hscope)
  unfold publicAddress
  rw [if_neg (by simpa using hplain), h.parse_text value found hparse, Option.bind_some, if_neg hok]

theorem checkedAddress_again (h : network.Lawful) {isLocal : Bool} {value address : Text}
    (hvalue : checkedAddress network isLocal value = some address) :
    checkedAddress network isLocal address = some address := by
  cases isLocal with
  | true => exact privateAddress_again h hvalue
  | false => exact publicAddress_again h hvalue

section

variable {α : Type} [DecidableEq α]

theorem mem_fromKeys {xs : List α} {a : α} : a ∈ fromKeys xs ↔ a ∈ xs := by
  induction xs with
  | nil => exact Iff.rfl
  | cons x rest ih =>
    by_cases hx : a = x
    · simp [fromKeys, hx]
    · simp [fromKeys, hx, ih]

theorem nodup_fromKeys (xs : List α) : (fromKeys xs).Nodup := by
  induction xs with
  | nil => exact List.nodup_nil
  | cons x rest ih =>
    apply List.nodup_cons.mpr
    exact ⟨by simp, ih.filter _⟩

theorem fromKeys_of_nodup {xs : List α} (h : xs.Nodup) : fromKeys xs = xs := by
  induction xs with
  | nil => rfl
  | cons x rest ih =>
    obtain ⟨hx, hrest⟩ := List.nodup_cons.mp h
    rw [fromKeys, ih hrest, List.filter_eq_self.mpr]
    intro a ha
    have hne : a ≠ x := fun heq => hx (heq ▸ ha)
    simpa using hne

theorem length_fromKeys_le (xs : List α) : (fromKeys xs).length ≤ xs.length := by
  induction xs with
  | nil => exact Nat.le_refl 0
  | cons x rest ih =>
    have hfilter := List.length_filter_le (fun a => decide (a ≠ x)) (fromKeys rest)
    rw [fromKeys, List.length_cons, List.length_cons]
    omega

end

theorem mapM_of_mem {α : Type} {f : α → Option α} {xs : List α} (h : ∀ x ∈ xs, f x = some x) :
    xs.mapM f = some xs := by
  have hmap := @Json.mapM_map_some α α id f xs h
  rwa [List.map_id] at hmap

theorem mem_of_mapM {α β : Type} {f : α → Option β} {xs : List α} {ys : List β}
    (h : xs.mapM f = some ys) {y : β} (hy : y ∈ ys) : ∃ x ∈ xs, f x = some y := by
  induction xs generalizing ys with
  | nil =>
    cases h
    exact absurd hy List.not_mem_nil
  | cons x rest ih =>
    rw [List.mapM_cons] at h
    obtain ⟨first, hfirst, h⟩ := Option.bind_eq_some_iff.mp h
    obtain ⟨others, hothers, h⟩ := Option.bind_eq_some_iff.mp h
    cases h
    rcases List.mem_cons.mp hy with rfl | hy
    · exact ⟨x, List.mem_cons_self, hfirst⟩
    · obtain ⟨z, hz, hzy⟩ := ih hothers hy
      exact ⟨z, List.mem_cons_of_mem x hz, hzy⟩

theorem checkedAddresses_again (h : network.Lawful) {isLocal : Bool} {answers checked : List Text}
    (hchecked : checkedAddresses network isLocal answers = some checked) :
    checkedAddresses network isLocal checked = some checked := by
  unfold checkedAddresses at hchecked
  obtain ⟨hlength, hchecked⟩ := Option.ite_none_right_eq_some.mp hchecked
  obtain ⟨found, hfound, rfl⟩ := Option.map_eq_some_iff.mp hchecked
  have hcount := Json.length_mapM hfound
  have hle := length_fromKeys_le found
  have hpos : 1 ≤ (fromKeys found).length := by
    cases found with
    | nil => simp at hcount; omega
    | cons x rest => simp [fromKeys]
  have hagain : (fromKeys found).mapM (checkedAddress network isLocal) = some (fromKeys found) := by
    apply mapM_of_mem
    intro address haddress
    obtain ⟨value, _, hvalue⟩ := mem_of_mapM hfound (mem_fromKeys.mp haddress)
    exact checkedAddress_again h hvalue
  unfold checkedAddresses
  rw [if_pos ⟨hpos, by omega⟩, hagain, Option.map_some, fromKeys_of_nodup (nodup_fromKeys found)]

end

end CodexBridge.Mcp
