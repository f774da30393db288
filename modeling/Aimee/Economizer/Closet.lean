-- SUMMARY: The Coordinate Closet: the scan for identifiers, the redaction of secrets, and the bounded rendering.
import Aimee.Economizer.Json
import Mathlib.Data.List.Sort

/-!
# Coordinate Closet

`closet.go`. Identifiers of a text that is about to leave the prompt are nominated into a set and
carried forward verbatim. A matcher says how many bytes it takes at the front of a text, zero for
none.
-/

namespace Economizer

/-- The trust boundary a coordinate came from. -/
inductive Lane where
  | agent
  | user
  deriving DecidableEq

inductive CoordKind where
  | uuid
  | sha
  | path
  | kv
  | ref
  | handle
  deriving DecidableEq

/-- Where a coordinate came from; an unknown number is -1. -/
structure Provenance where
  lane : Lane
  turnId : ℤ
  toolCallId : ℤ
  resultIndex : ℤ
  deriving DecidableEq

def defaultProvenance : Provenance where
  lane := .agent
  turnId := -1
  toolCallId := -1
  resultIndex := -1

structure CoordEntry where
  value : Text
  label : Text
  kind : CoordKind
  prov : Provenance
  firstOffset : ℕ
  deriving DecidableEq

structure ClosetConfig where
  enabled : Bool
  budgetBytes : ℤ
  maxRatioPct : ℤ
  denylist : Text

def closetDefaultBudgetBytes : ℕ := 2048

def closetDefaultMaxRatioPct : ℕ := 100

/-- Whether everything that was nominated fit. -/
inductive EvictResult where
  | none
  | fail
  deriving DecidableEq

/-- A setting, or its default when it is not positive. -/
def settingOr (v : ℤ) (default : ℕ) : ℕ := if v ≤ 0 then default else v.toNat

/-! ## Characters -/

def aLower (c : UInt8) : UInt8 := if 65 ≤ c && c ≤ 90 then c + 32 else c

def aAlpha (c : UInt8) : Bool := 97 ≤ c && c ≤ 122 || 65 ≤ c && c ≤ 90

def aDigit (c : UInt8) : Bool := 48 ≤ c && c ≤ 57

def aAlnum (c : UInt8) : Bool := aAlpha c || aDigit c

def isHex (c : UInt8) : Bool := aDigit c || 97 ≤ c && c ≤ 102 || 65 ≤ c && c ≤ 70

def asciiLower (s : Text) : Text := s.map aLower

/-- A text contains another. -/
def containsText (hay needle : Text) : Bool := hay.tails.any needle.isPrefixOf

def ciContains (hay needle : Text) : Bool :=
  if hay = [] ∨ needle = [] then false else containsText (asciiLower hay) (asciiLower needle)

/-- A byte that cannot stand in an identifier. -/
def isIdentBoundary (c : UInt8) : Bool := !(aAlnum c || c = 95 || c = 45 || c = 46 || c = 47 || c = 58)

/-- A token goes on with more identifier text. -/
def tokenContinues (c : UInt8) : Bool := aAlnum c || c = 95 || c = 45

/-! ## Matchers -/

/-- Groups of hexadecimal digits with hyphens between them; what is behind them is left. -/
def matchHexGroups : List ℕ → Text → Option Text
  | [], s => some s
  | g :: gs, s =>
    if (s.take g).length ≠ g ∨ !(s.take g).all isHex then none
    else if gs = [] then some (s.drop g)
    else match s.drop g with
    | 45 :: rest => matchHexGroups gs rest
    | _ => none

def matchUUID (s : Text) : ℕ :=
  match matchHexGroups [8, 4, 4, 4, 12] s with
  | some rest => if rest.head?.any tokenContinues then 0 else 36
  | none => 0

/-- `handle:<id>` and `memory:<id>`, with the label. -/
def matchHandle (s : Text) : ℕ × Text :=
  let attempt (label : String) : Option (ℕ × Text) :=
    let lead := utf8 (label ++ ":")
    let id := (s.drop lead.length).takeWhile fun c => aAlnum c || c = 95 || c = 45
    if lead.isPrefixOf s && id ≠ [] then some (lead.length + id.length, utf8 label) else none
  ((attempt "handle").orElse fun _ => attempt "memory").getD (0, [])

/-- A text without its trailing dots. -/
def trimDots (s : Text) : Text := (s.reverse.dropWhile (· = 46)).reverse

/-- A `key=value` with a digit in the value: the length of the match, the label and the value. -/
def matchKV (s : Text) : ℕ × Text × Text :=
  let key := s.takeWhile fun c => aAlnum c || c = 95
  if !s.head?.any (fun c => aAlpha c || c = 95) then (0, [], [])
  else match s.drop key.length with
  | 61 :: rest =>
    let value := rest.takeWhile fun c => aAlnum c || c = 46 || c = 45 || c = 58 || c = 95
    if !value.any aDigit then (0, [], [])
    else (key.length + 1 + value.length, asciiLower key, trimDots value)
  | _ => (0, [], [])

/-- An absolute or a repository-relative path. A bare path needs a letter, and a dot in its last
    segment or a second slash. -/
def matchPath (s : Text) : ℕ :=
  let anchored := (utf8 "/").isPrefixOf s || (utf8 "./").isPrefixOf s || (utf8 "../").isPrefixOf s
  let run := s.takeWhile fun c => aAlnum c || c = 47 || c = 46 || c = 95 || c = 45
  let slashes := run.count 47
  let path := trimDots run
  let dotInFinal := (path.reverse.takeWhile (· ≠ 47)).contains 46
  if slashes < 1 ∨ run.length < 3 then 0
  else if !anchored && (!run.any aAlpha || !dotInFinal && slashes < 2) then 0
  else path.length

/-- A run of 7 to 64 hexadecimal digits with a letter among them. -/
def matchSHA (s : Text) : ℕ :=
  let run := (s.take 65).takeWhile isHex
  if run.length < 7 ∨ 64 < run.length ∨ !run.any (fun c => !aDigit c) then 0
  else if (s.drop run.length).head?.any tokenContinues then 0
  else run.length

/-- `#` and digits. -/
def matchRef (s : Text) : ℕ :=
  match s with
  | 35 :: rest =>
    let digits := rest.takeWhile aDigit
    if digits = [] then 0 else 1 + digits.length
  | _ => 0

/-! ## Nomination -/

abbrev CoordSet := List CoordEntry

/-- Deduplicated by lane and value, the earliest kept. -/
def CoordSet.add (set : CoordSet) (value label : Text) (kind : CoordKind) (prov : Provenance)
    (offset : ℕ) : CoordSet :=
  if value = [] ∨ set.any (fun e => e.prov.lane = prov.lane && e.value = value) then set
  else set ++ [{ value := value, label := label, kind := kind, prov := prov, firstOffset := offset }]

/-- The coordinate at the front of a text, by the priority of the matchers: its length, value,
    label and kind. -/
def coordAt (p : Text) : Option (ℕ × Text × Text × CoordKind) :=
  let m := matchUUID p
  if 0 < m then some (m, p.take m, utf8 "uuid", .uuid) else
  let (m, label) := matchHandle p
  if 0 < m then some (m, p.take m, label, .handle) else
  let (m, label, value) := matchKV p
  if 0 < m then some (m, value, label, .kv) else
  let m := matchPath p
  if 0 < m then some (m, p.take m, utf8 "path", .path) else
  let m := matchSHA p
  if 0 < m then some (m, p.take m, utf8 "sha", .sha) else
  let m := matchRef p
  if 0 < m then some (m, p.take m, utf8 "ref", .ref) else none

/-- The scan: bytes of a match are skipped, and a match starts only at an identifier boundary. -/
def nominateFrom (prov : Provenance) : Text → (skip : ℕ) → (boundary : Bool) → (offset : ℕ) →
    CoordSet → CoordSet
  | [], _, _, _, set => set
  | c :: rest, skip + 1, _, offset, set =>
    nominateFrom prov rest skip (isIdentBoundary c) (offset + 1) set
  | c :: rest, 0, false, offset, set =>
    nominateFrom prov rest 0 (isIdentBoundary c) (offset + 1) set
  | c :: rest, 0, true, offset, set =>
    match coordAt (c :: rest) with
    | some (m, value, label, kind) =>
      nominateFrom prov rest (m - 1) (isIdentBoundary c) (offset + 1)
        (set.add value label kind prov offset)
    | none => nominateFrom prov rest 0 (isIdentBoundary c) (offset + 1) set

def nominateInto (raw : Text) (prov : Provenance) (set : CoordSet) : CoordSet :=
  nominateFrom prov raw 0 true 0 set

/-! ## Secrets -/

def labelIsSensitive (label : Text) : Bool :=
  ["secret", "password", "passwd", "token", "apikey", "api_key", "api-key", "authorization", "credential",
    "private_key", "session_token"].any fun n => ciContains label (utf8 n)

/-- The words of a list separated by commas and blanks. -/
def denyWords (denylist : Text) : List Text :=
  (denylist.splitOnP fun c => c = 44 || c = 32 || c = 9).filter (· ≠ [])

def isSecret (value extraDenylist : Text) : Bool :=
  if value = [] then false else
  ["ghp_", "gho_", "ghs_", "ghu_", "github_pat_", "sk-", "xoxb-", "xoxp-", "xoxa-", "xapp-", "AKIA", "ASIA",
      "AIza", "ya29.", "npm_", "glpat-", "eyJ", "-----BEGIN"].any (fun p => (utf8 p).isPrefixOf value) ||
    ["id_rsa", "id_ed25519", "id_ecdsa", ".pem", "/.ssh/", ".env", "credentials"].any
      (fun p => ciContains value (utf8 p)) ||
    (denyWords extraDenylist).any (ciContains value ·)

/-! ## Rendering -/

def closetLine (e : CoordEntry) (denylist : Text) : Text :=
  let suffix := if e.prov.lane = .user then utf8 " (untrusted)" else []
  let shown := if isSecret e.value denylist || labelIsSensitive e.label
    then utf8 "[redacted:" ++ e.label ++ utf8 "]" else e.value
  utf8 "  " ++ shown ++ utf8 " ⟦" ++ e.label ++ utf8 "⟧" ++ suffix ++ utf8 "\n"

def closetHeader : Text := utf8 "Coordinate Closet (conserved from folded turns):\n"

def closetHeaderPartial : Text :=
  utf8 "Coordinate Closet (partial — some identifiers omitted, raise budget):\n"

def closetDivider : Text := utf8 "  -- user-supplied (untrusted) --\n"

def closetTruncNote : Text := utf8 "  [...additional identifiers omitted...]\n"

/-- The total order of the rendering. -/
def entryLess (x y : CoordEntry) : Bool :=
  if x.prov.lane ≠ y.prov.lane then x.prov.lane = .agent
  else if x.label ≠ y.label then x.label < y.label
  else if x.firstOffset ≠ y.firstOffset then x.firstOffset < y.firstOffset
  else if x.prov.turnId ≠ y.prov.turnId then x.prov.turnId < y.prov.turnId
  else if x.prov.toolCallId ≠ y.prov.toolCallId then x.prov.toolCallId < y.prov.toolCallId
  else if x.prov.resultIndex ≠ y.prov.resultIndex then x.prov.resultIndex < y.prov.resultIndex
  else x.value < y.value

def sortEntries (set : CoordSet) : List CoordEntry :=
  set.insertionSort fun x y => !entryLess y x

/-- The divider that comes before the first entry of a user. -/
def dividerBefore (e : CoordEntry) (userDiv : Bool) : Text :=
  if e.prov.lane = .user ∧ !userDiv then closetDivider else []

/-- How many entries fit under the cap, room for the truncation note always being kept. -/
def fitEntries (denylist : Text) (cap : ℕ) : List CoordEntry → (total : ℕ) → (userDiv : Bool) → ℕ
  | [], _, _ => 0
  | e :: rest, total, userDiv =>
    let add := (dividerBefore e userDiv).length + (closetLine e denylist).length
    if cap < total + add + closetTruncNote.length + 1 then 0
    else 1 + fitEntries denylist cap rest (total + add) (userDiv || e.prov.lane = .user)

def renderEntries (denylist : Text) : List CoordEntry → (userDiv : Bool) → Text
  | [], _ => []
  | e :: rest, userDiv =>
    dividerBefore e userDiv ++ closetLine e denylist ++
      renderEntries denylist rest (userDiv || e.prov.lane = .user)

def renderCloset (set : CoordSet) (cfg : ClosetConfig) (rawLen : ℕ) : Text × EvictResult :=
  if set = [] ∨ !cfg.enabled then ([], .none) else
  let budget := settingOr cfg.budgetBytes closetDefaultBudgetBytes
  let ratio := settingOr cfg.maxRatioPct closetDefaultMaxRatioPct
  let ratioCap := if ratio < 100 then rawLen * ratio / 100 else rawLen
  let sorted := sortEntries set
  let fit := fitEntries cfg.denylist (min budget ratioCap) sorted closetHeaderPartial.length false
  if fit = 0 then ([], .fail)
  else if fit < sorted.length then
    (closetHeaderPartial ++ renderEntries cfg.denylist (sorted.take fit) false ++ closetTruncNote, .fail)
  else (closetHeader ++ renderEntries cfg.denylist sorted false, .none)

end Economizer
