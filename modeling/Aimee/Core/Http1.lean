-- SUMMARY: The HTTP/1 response reader: what it returns depends on the bytes alone, not on how they arrive.
import Aimee.Lib.Doubles

/-!
# HTTP/1 responses

`aimee_core_http1_response_read` of `http1.c`. Sizes are 64-bit: a computation that would wrap is a
fault of its own, to be told apart from a refusal, and so is a loop that runs out of fuel. Memory is
never short, and the connection ends when its bytes are used up.
-/

namespace Http1

open Doubles (IsDigit digitsValue)

abbrev Bytes := List UInt8

inductive Fault where
  | wraps | refused
  deriving DecidableEq

abbrev Checked := Except Fault

def sizeMax : ℕ := 2 ^ 64 - 1

def add (a b : ℕ) : Checked ℕ := if sizeMax < a + b then .error .wraps else .ok (a + b)

def sub (a b : ℕ) : Checked ℕ := if a < b then .error .wraps else .ok (a - b)

def mul (a b : ℕ) : Checked ℕ := if sizeMax < a * b then .error .wraps else .ok (a * b)

section

variable {α β : Type}

@[simp]
theorem ok_bind (a : α) (f : α → Checked β) : ((.ok a : Checked α) >>= f) = f a := rfl

end

/-! ## The header block -/

def crlf : Bytes := [13, 10]

def isBlank (c : UInt8) : Bool := c = 32 ∨ c = 9

/-- `strstr` for a pattern without NUL, in a buffer that its NUL ends. -/
def strstr (pat : Bytes) : Bytes → Option ℕ
  | [] => none
  | c :: rest =>
    if pat.isPrefixOf (c :: rest) then some 0 else if c = 0 then none else (strstr pat rest).map (· + 1)

/-- `ascii_equal_ci`, with the length compared first. The token is in lower case. -/
def equalCi (s : Bytes) (token : String) : Bool := s.map (fun c => if 65 ≤ c ∧ c ≤ 90 then c + 32 else c) = ascii token

def headerToken (value : Bytes) (token : String) : Bool :=
  (value.splitOn 44).any fun item => equalCi ((item.dropWhile isBlank).rdropWhile isBlank) token

structure Response where
  data : Bytes
  headerLength : ℕ
  contentLength : ℕ
  hasContentLength : Bool
  connectionClose : Bool
  status : ℕ
  transferChunked : Bool
  deriving DecidableEq

/-- The digits of a Content-Length. -/
def parseSize : Bytes → ℕ → Checked ℕ
  | [], parsed => .ok parsed
  | c :: rest, parsed =>
    if c < 48 ∨ 57 < c then .error .refused
    else do
      let room ← sub sizeMax (c.toNat - 48)
      if room / 10 < parsed then .error .refused
      else parseSize rest (← add (← mul parsed 10) (c.toNat - 48))

/-- One line of the header block, without its line end. -/
def headerField (allowChunked : Bool) (line : Bytes) (seen : Bool) (r : Response) : Checked (Bool × Response) :=
  let name := line.takeWhile (· ≠ 58)
  let rest := line.drop (name.length + 1)
  let value := rest.dropWhile isBlank
  if name.length = line.length ∨ name = [] ∨ (name.any fun c => c ≤ 32 ∨ 127 ≤ c) ∨
      (rest.any fun c => (c < 32 ∧ c ≠ 9) ∨ c = 127) then .error .refused
  else if equalCi name "transfer-encoding" ∧ (¬allowChunked ∨ r.transferChunked ∨ ¬equalCi value "chunked") then
    .error .refused
  else
    let r := { r with
      transferChunked := r.transferChunked || equalCi name "transfer-encoding"
      connectionClose := r.connectionClose || (equalCi name "connection" && headerToken value "close") }
    if equalCi name "content-length" then
      if seen ∨ value = [] then .error .refused
      else (parseSize value 0).map fun parsed => (true, { r with contentLength := parsed, hasContentLength := true })
    else .ok (seen, r)

/-- The lines that start in the next `left` bytes. No line is shorter than its line end. -/
def headerLines (allowChunked : Bool) : ℕ → Bytes → ℕ → Bool → Response → Checked Response
  | 0, _, _, _, r => .ok r
  | fuel + 1, line, left, seen, r =>
    if left = 0 then .ok r
    else
      match strstr crlf line with
      | none => .error .refused
      | some next =>
        if left < next ∨ next = 0 ∨ (line.take 1).any isBlank then .error .refused
        else do
          let (seen, r) ← headerField allowChunked (line.take next) seen r
          headerLines allowChunked fuel (line.drop (next + 2)) (left - (next + 2)) seen r

/-- The bytes `HTTP/1.`, a digit, a blank and a status from 100 to 599. -/
def statusLine (start : Bytes) : Bool :=
  (ascii "HTTP/1.").isPrefixOf start && ((start.drop 7).zip [(48, 57), (32, 32), (49, 53), (48, 57), (48, 57)]).all
    fun (c, low, high) => low ≤ c ∧ c ≤ high

/-- `aimee_core_http1_headers_parse`. -/
def headersParse (allowChunked : Bool) (headerLength : ℕ) (data : Bytes) : Checked Response := do
  let headersEnd ← sub headerLength 2
  match strstr crlf data with
  | none => .error .refused
  | some lineEnd =>
    if headersEnd ≤ lineEnd ∨ lineEnd < 12 ∨ ¬statusLine (data.take 12) then .error .refused
    else do
      let digit (i : ℕ) : ℕ := ((data.take 12).getD i 48).toNat - 48
      let r ← headerLines allowChunked headersEnd (data.drop (lineEnd + 2)) (headersEnd - (lineEnd + 2)) false
        ⟨[], headerLength, 0, false, false, digit 9 * 100 + digit 10 * 10 + digit 11, false⟩
      if r.transferChunked ∧ r.hasContentLength then .error .refused else .ok r

/-! ## The reader -/

structure Limits where
  headerMax : ℕ
  responseMax : ℕ
  requireContentLength : Bool
  fits : responseMax ≤ sizeMax

structure Reader where
  buffer : Bytes
  capacity : ℕ
  expected : ℕ
  response : Response

def growTo (maximum required : ℕ) : ℕ → ℕ → Checked ℕ
  | 0, _ => .error .wraps
  | fuel + 1, capacity =>
    if required ≤ capacity then .ok capacity
    else do
      let top ← add maximum 1
      if top / 2 < capacity then .ok top else growTo maximum required fuel (← mul capacity 2)

def bufferGrow (capacity required maximum : ℕ) : Checked ℕ := do
  if (← add maximum 1) < required then .error .refused else growTo maximum required (required + 1) capacity

/-- One read of at most `wanted` bytes, from what the connection still delivers. -/
def receive (wanted : ℕ) : List Bytes → Bytes × List Bytes
  | [] => ([], [])
  | chunk :: rest => if chunk.length ≤ wanted then (chunk, rest) else (chunk.take wanted, chunk.drop wanted :: rest)

/-- What is done with the buffer until the end of the header block is in it. -/
def inspect (lim : Limits) (s : Reader) : Checked Reader :=
  if s.response.headerLength ≠ 0 then .ok s
  else
    match strstr (crlf ++ crlf) s.buffer with
    | none => if lim.headerMax ≤ s.buffer.length then .error .refused else .ok s
    | some i => do
      let headerLength ← add i 4
      if lim.headerMax < headerLength then .error .refused
      else
        let r ← headersParse false headerLength s.buffer
        if lim.requireContentLength ∧ ¬r.hasContentLength then .error .refused
        else if r.hasContentLength then do
          let room ← sub lim.responseMax headerLength
          if room < r.contentLength then .error .refused
          else
            let expected ← add headerLength r.contentLength
            if expected < s.buffer.length then .error .refused else .ok { s with expected, response := r }
        else .ok { s with response := r }

def finish (s : Reader) : Checked Response :=
  if s.response.headerLength = 0 then .error .refused
  else do
    let expected ←
      if s.response.hasContentLength then add s.response.headerLength s.response.contentLength else .ok s.buffer.length
    if s.buffer.length ≠ expected then .error .refused else .ok { s.response with data := s.buffer }

/-- The bytes to ask for before the limit is applied. -/
def wantedBytes (s : Reader) : Checked ℕ :=
  if s.response.hasContentLength then sub s.expected s.buffer.length else .ok 4096

def readLoop (lim : Limits) : ℕ → Reader → List Bytes → Checked Response
  | 0, _, _ => .error .wraps
  | fuel + 1, s, chunks =>
    if s.response.hasContentLength ∧ s.buffer.length = s.expected then finish s
    else if lim.responseMax ≤ s.buffer.length then .error .refused
    else do
      let wanted := min (← wantedBytes s) (← sub lim.responseMax s.buffer.length)
      let capacity ← bufferGrow s.capacity (← add (← add s.buffer.length wanted) 1) lim.responseMax
      let (received, chunks) := receive wanted chunks
      if received = [] then finish s
      else readLoop lim fuel (← inspect lim { s with buffer := s.buffer ++ received, capacity }) chunks

def startCapacity (lim : Limits) : Checked ℕ := if lim.responseMax < 8191 then add lim.responseMax 1 else .ok 8192

/-- `aimee_core_http1_response_read` on a connection that delivers the chunks one after the other. -/
def responseRead (lim : Limits) (chunks : List Bytes) : Checked Response :=
  if lim.headerMax < 16 ∨ lim.responseMax < lim.headerMax ∨ lim.responseMax = sizeMax then .error .refused
  else do
    readLoop lim (chunks.flatten.length + 1) ⟨[], ← startCapacity lim, 0, ⟨[], 0, 0, false, false, 0, false⟩⟩ chunks

/-! ## Cut buffers -/

section Scan

variable {pat s t : Bytes} {i n : ℕ}

theorem strstr_le (h : strstr pat s = some i) : i + pat.length ≤ s.length := by
  induction s generalizing i with
  | nil => cases h
  | cons c rest ih =>
    rw [strstr] at h
    split_ifs at h with hpat hc
    · cases h
      rw [Nat.zero_add]
      exact (List.isPrefixOf_iff_prefix.mp hpat).length_le
    · obtain ⟨j, hj, rfl⟩ := Option.map_eq_some_iff.mp h
      have hle := ih hj
      rw [List.length_cons]
      omega

/-- Whether a pattern is found does not depend on what follows it. -/
theorem strstr_append_iff (hpat : pat ≠ []) :
    strstr pat (s ++ t) = some i ∧ i + pat.length ≤ s.length ↔ strstr pat s = some i := by
  induction s generalizing i with
  | nil =>
    have hpos := List.length_pos_iff.mpr hpat
    exact iff_of_false (fun h => by have := h.2; rw [List.length_nil] at this; omega) nofun
  | cons c rest ih =>
    rw [List.cons_append, strstr, strstr, List.length_cons]
    by_cases hfits : pat.length ≤ rest.length + 1
    · have hsame : pat.isPrefixOf (c :: (rest ++ t)) = pat.isPrefixOf (c :: rest) := by
        rw [Bool.eq_iff_iff, List.isPrefixOf_iff_prefix, List.isPrefixOf_iff_prefix]
        exact ⟨fun h => List.prefix_of_prefix_length_le h (List.prefix_append _ _) hfits, fun h =>
          h.trans (List.prefix_append _ _)⟩
      rw [hsame]
      split_ifs
      · simp only [Option.some.injEq]
        omega
      · simp
      · simp only [Option.map_eq_some_iff, ← ih]
        constructor
        · rintro ⟨⟨j, hj, rfl⟩, hle⟩
          exact ⟨j, ⟨hj, by omega⟩, rfl⟩
        · rintro ⟨j, ⟨hj, hle⟩, rfl⟩
          exact ⟨⟨j, hj, rfl⟩, by omega⟩
    · refine iff_of_false (fun h => hfits (by omega)) fun h => ?_
      have hle : i + pat.length ≤ (c :: rest).length := strstr_le (by rw [strstr]; exact h)
      rw [List.length_cons] at hle
      omega

end Scan

section Parse

variable {chunked : Bool} {data line t : Bytes} {fuel left headerLength i : ℕ} {seen : Bool} {r r' : Response}

theorem crlf_ne_nil : crlf ≠ [] := by decide

/-- The lines of a header block do not depend on what follows the block. -/
theorem headerLines_append (h : left = 0 ∨ left + 2 ≤ line.length) :
    headerLines chunked fuel (line ++ t) left seen r = headerLines chunked fuel line left seen r := by
  induction fuel generalizing line left seen r with
  | zero => rfl
  | succ fuel ih =>
    rw [headerLines, headerLines]
    split_ifs with hleft
    · rfl
    cases hscan : strstr crlf line with
    | none =>
      cases hscan' : strstr crlf (line ++ t) with
      | none => rfl
      | some next =>
        -- a line end behind the buffer is behind the block
        have hout : left < next := by
          by_contra hin
          rw [(strstr_append_iff crlf_ne_nil).mp ⟨hscan', by change next + 2 ≤ _; omega⟩] at hscan
          cases hscan
        exact if_pos (.inl hout)
    | some next =>
      obtain ⟨hscan', hle⟩ := (strstr_append_iff (t := t) crlf_ne_nil).mpr hscan
      change next + 2 ≤ line.length at hle
      rw [hscan']
      dsimp only
      rw [List.take_append_of_le_length (by omega), List.take_append_of_le_length (by omega),
        List.drop_append_of_le_length hle]
      split_ifs
      · rfl
      · refine bind_congr fun x => ih ?_
        rw [List.length_drop]
        omega

theorem headersParse_append (hle : headerLength ≤ data.length) :
    headersParse chunked headerLength (data ++ t) = headersParse chunked headerLength data := by
  rw [headersParse, headersParse, sub]
  split_ifs with hsub
  · rfl
  rw [ok_bind, ok_bind]
  cases hscan : strstr crlf data with
  | none =>
    cases hscan' : strstr crlf (data ++ t) with
    | none => rfl
    | some lineEnd =>
      refine if_pos (.inl ?_)
      by_contra hin
      rw [(strstr_append_iff crlf_ne_nil).mp ⟨hscan', by change lineEnd + 2 ≤ _; omega⟩] at hscan
      cases hscan
  | some lineEnd =>
    obtain ⟨hscan', hend⟩ := (strstr_append_iff (t := t) crlf_ne_nil).mpr hscan
    change lineEnd + 2 ≤ data.length at hend
    rw [hscan']
    dsimp only
    by_cases hshort : lineEnd < 12
    · rw [if_pos (.inr (.inl hshort)), if_pos (.inr (.inl hshort))]
    rw [List.take_append_of_le_length (by omega), List.drop_append_of_le_length hend]
    split_ifs
    · rfl
    · rw [headerLines_append]
      rw [List.length_drop]
      omega

/-! ## The fields -/

/-- A Content-Length is its decimal value, or refused. -/
theorem parseSize_cases (digits : Bytes) (parsed : ℕ) : parseSize digits parsed = .error .refused ∨
    (∀ c ∈ digits, IsDigit c) ∧
      parseSize digits parsed = .ok (digits.foldl (fun n d => n * 10 + (d.toNat - 48)) parsed) := by
  induction digits generalizing parsed with
  | nil => exact .inr ⟨nofun, rfl⟩
  | cons c rest ih =>
    rw [parseSize]
    split_ifs with hdigit
    · exact .inl rfl
    rw [not_or, UInt8.not_lt, UInt8.not_lt] at hdigit
    have hc : c.toNat ≤ 57 := UInt8.le_iff_toNat_le.mp hdigit.2
    rw [sub, if_neg (by rw [sizeMax]; omega), ok_bind]
    split_ifs with hroom
    · exact .inl rfl
    have hfits : parsed * 10 + (c.toNat - 48) ≤ sizeMax := by
      rw [sizeMax] at *
      omega
    rw [mul, if_neg (by omega), ok_bind, add, if_neg (by omega)]
    rcases ih (parsed * 10 + (c.toNat - 48)) with hrefused | ⟨hall, hok⟩
    · exact .inl hrefused
    · exact .inr ⟨List.forall_mem_cons.mpr ⟨hdigit, hall⟩, hok⟩

/-- The value of a line that is a Content-Length field. -/
def lengthValue (line : Bytes) : Option Bytes :=
  if equalCi (line.takeWhile (· ≠ 58)) "content-length" then
    some ((line.drop ((line.takeWhile (· ≠ 58)).length + 1)).dropWhile isBlank)
  else none

/-- The lines that start in the next `left` bytes, each up to its line end. -/
def linesIn : ℕ → Bytes → ℕ → List Bytes
  | 0, _, _ => []
  | fuel + 1, line, left =>
    if left = 0 then []
    else
      match strstr crlf line with
      | none => []
      | some next => line.take next :: linesIn fuel (line.drop (next + 2)) (left - (next + 2))

/-- The lines behind the status line of a header block. -/
def fieldLines (data : Bytes) (headerLength : ℕ) : List Bytes :=
  match strstr crlf data with
  | none => []
  | some lineEnd => linesIn (headerLength - 2) (data.drop (lineEnd + 2)) (headerLength - 2 - (lineEnd + 2))

/-- What lines with these Content-Length values make of a response. -/
structure Reads (values : List Bytes) (seen : Bool) (r r' : Response) : Prop where
  headerLength : r'.headerLength = r.headerLength
  none : values = [] → r'.hasContentLength = r.hasContentLength ∧ r'.contentLength = r.contentLength
  one : values ≠ [] → seen = false ∧ ∃ value, values = [value] ∧ value ≠ [] ∧ (∀ c ∈ value, IsDigit c) ∧
    r'.hasContentLength = true ∧ r'.contentLength = digitsValue value

theorem Reads.append {vs ws : List Bytes} {seen' : Bool} {r'' : Response} (h : Reads vs seen r r')
    (h' : Reads ws seen' r' r'')
    (hseen : seen' = false → seen = false ∧ vs = []) : Reads (vs ++ ws) seen r r'' := by
  refine ⟨h'.headerLength.trans h.headerLength, fun hnil => ?_, fun hne => ?_⟩
  · obtain ⟨rfl, rfl⟩ := List.append_eq_nil_iff.mp hnil
    exact ⟨(h'.none rfl).1.trans (h.none rfl).1, (h'.none rfl).2.trans (h.none rfl).2⟩
  · by_cases hws : ws = []
    · subst hws
      rw [List.append_nil] at hne ⊢
      obtain ⟨hfirst, value, hvs, hvalue, hdigits, hhas, hlength⟩ := h.one hne
      exact ⟨hfirst, value, hvs, hvalue, hdigits, (h'.none rfl).1.trans hhas, (h'.none rfl).2.trans hlength⟩
    · obtain ⟨hfirst, hone⟩ := h'.one hws
      obtain ⟨hfirst, rfl⟩ := hseen hfirst
      exact ⟨hfirst, hone⟩

theorem headerField_cases (chunked : Bool) (line : Bytes) (seen : Bool) (r : Response) :
    headerField chunked line seen r = .error .refused ∨ ∃ seen' r', headerField chunked line seen r = .ok (seen', r') ∧
      Reads (lengthValue line).toList seen r r' ∧ (seen' = false → seen = false ∧ (lengthValue line).toList = []) := by
  rw [headerField]
  split
  · exact .inl rfl
  split
  · exact .inl rfl
  split
  · next hname =>
    have hvalue : lengthValue line =
      some ((line.drop ((line.takeWhile (· ≠ 58)).length + 1)).dropWhile isBlank) := if_pos hname
    rw [hvalue]
    split
    · exact .inl rfl
    · next hfirst =>
      rw [not_or, Bool.not_eq_true] at hfirst
      rcases parseSize_cases ((line.drop ((line.takeWhile (· ≠ 58)).length + 1)).dropWhile isBlank) 0 with
        hrefused | ⟨hdigits, hok⟩
      · exact .inl (by rw [hrefused]; rfl)
      · rw [hok]
        refine .inr ⟨true, _, rfl, ?_, nofun⟩
        exact ⟨rfl, nofun, fun _ => ⟨hfirst.1, _, rfl, hfirst.2, hdigits, rfl, rfl⟩⟩
  · next hname =>
    have hvalue : lengthValue line = none := if_neg hname
    rw [hvalue]
    refine .inr ⟨seen, _, rfl, ?_, fun h => ⟨h, rfl⟩⟩
    exact ⟨rfl, fun _ => ⟨rfl, rfl⟩, fun h => absurd rfl h⟩

theorem headerLines_cases (chunked : Bool) (fuel : ℕ) (line : Bytes) (left : ℕ) (seen : Bool) (r : Response) :
    headerLines chunked fuel line left seen r = .error .refused ∨
      ∃ r', headerLines chunked fuel line left seen r = .ok r' ∧
      Reads ((linesIn fuel line left).filterMap lengthValue) seen r r' := by
  induction fuel generalizing line left seen r with
  | zero => exact .inr ⟨r, rfl, rfl, fun _ => ⟨rfl, rfl⟩, fun h => absurd rfl h⟩
  | succ fuel ih =>
    rw [headerLines, linesIn]
    split_ifs with hleft
    · exact .inr ⟨r, rfl, rfl, fun _ => ⟨rfl, rfl⟩, fun h => absurd rfl h⟩
    cases strstr crlf line with
    | none => exact .inl rfl
    | some next =>
      dsimp only
      split_ifs
      · exact .inl rfl
      rcases headerField_cases chunked (line.take next) seen r with hrefused | ⟨seen', r₁, hok, hreads, hseen⟩
      · exact .inl (by rw [hrefused]; rfl)
      rcases ih (line.drop (next + 2)) (left - (next + 2)) seen' r₁ with hrefused | ⟨r', hlines, hreads'⟩
      · exact .inl (by rw [hok]; exact hrefused)
      · refine .inr ⟨r', by rw [hok]; exact hlines, ?_⟩
        have hvalues : (line.take next :: linesIn fuel (line.drop (next + 2)) (left - (next + 2))).filterMap
            lengthValue =
            (lengthValue (line.take next)).toList ++
              (linesIn fuel (line.drop (next + 2)) (left - (next + 2))).filterMap lengthValue := by
          rw [List.filterMap_cons]
          cases lengthValue (line.take next) <;> rfl
        rw [hvalues]
        exact hreads.append hreads' hseen

/-- The response has the Content-Length of the one such field of its header block, or there is none. -/
structure Declared (data : Bytes) (r : Response) : Prop where
  none : r.hasContentLength = false → (fieldLines data r.headerLength).filterMap lengthValue = []
  one : r.hasContentLength = true → ∃ value, (fieldLines data r.headerLength).filterMap lengthValue = [value] ∧
    value ≠ [] ∧ (∀ c ∈ value, IsDigit c) ∧ r.contentLength = digitsValue value

theorem headersParse_cases (chunked : Bool) (data : Bytes) (h : 2 ≤ headerLength) :
    headersParse chunked headerLength data = .error .refused ∨
      ∃ r, headersParse chunked headerLength data = .ok r ∧ r.headerLength = headerLength ∧ Declared data r := by
  rw [headersParse, sub, if_neg (by omega), ok_bind]
  cases hscan : strstr crlf data with
  | none => exact .inl rfl
  | some lineEnd =>
    dsimp only
    split_ifs
    · exact .inl rfl
    generalize hstart : (⟨[], headerLength, 0, false, false, _, false⟩ : Response) = start
    rcases headerLines_cases chunked (headerLength - 2) (data.drop (lineEnd + 2))
      (headerLength - 2 - (lineEnd + 2)) false start with
      hrefused | ⟨r, hok, hreads⟩
    · exact .inl (by rw [hrefused]; rfl)
    rw [hok, ok_bind]
    split_ifs
    · exact .inl rfl
    have hlength : r.headerLength = headerLength := by rw [hreads.headerLength, ← hstart]
    have hlines : fieldLines data r.headerLength = linesIn (headerLength - 2) (data.drop (lineEnd + 2))
      (headerLength - 2 - (lineEnd + 2)) := by
      rw [fieldLines, hscan, hlength]
    refine .inr ⟨r, rfl, hlength, ⟨fun hhas => ?_, fun hhas => ?_⟩⟩
    · rw [hlines]
      by_contra hne
      obtain ⟨-, -, -, -, -, htrue, -⟩ := hreads.one hne
      rw [hhas] at htrue
      cases htrue
    · rw [hlines]
      obtain ⟨-, value, hvalues, hvalue, hdigits, -, hlength⟩ := hreads.one fun hnil => by
        rw [(hreads.none hnil).1, ← hstart] at hhas
        cases hhas
      exact ⟨value, hvalues, hvalue, hdigits, hlength⟩

end Parse

/-! ## The reader as a function of the bytes -/

/-- The parsed response of bytes that are complete. -/
def accept (lim : Limits) (bytes : Bytes) (r : Response) : Checked Response :=
  if r.hasContentLength then
    if r.contentLength ≤ lim.responseMax - r.headerLength ∧ bytes.length = r.headerLength + r.contentLength then
      .ok { r with data := bytes }
    else .error .refused
  else if lim.requireContentLength ∨ lim.responseMax ≤ bytes.length then .error .refused
  else .ok { r with data := bytes }

/-- What the bytes of a response are read as. -/
def outcome (lim : Limits) (bytes : Bytes) : Checked Response :=
  match strstr (crlf ++ crlf) bytes with
  | none => .error .refused
  | some i => if lim.headerMax < i + 4 then .error .refused else headersParse false (i + 4) bytes >>= accept lim bytes

/-- Where the declared Content-Length ends. -/
def declaredEnd (bytes : Bytes) : Option ℕ :=
  (strstr (crlf ++ crlf) bytes).bind fun i =>
    match headersParse false (i + 4) bytes with
    | .ok r => if r.hasContentLength then some (r.headerLength + r.contentLength) else none
    | .error _ => none

def NoExcess (bytes : Bytes) : Prop := ∀ n ∈ declaredEnd bytes, bytes.length ≤ n

/-- The header block is not complete yet. -/
structure Waiting (lim : Limits) (s : Reader) : Prop where
  headerLength : s.response.headerLength = 0
  hasContentLength : s.response.hasContentLength = false
  missing : strstr (crlf ++ crlf) s.buffer = none
  within : s.buffer.length < lim.headerMax

/-- The header block was parsed, and the limits leave room for what it declares. -/
structure Ready (lim : Limits) (s : Reader) : Prop where
  found : ∃ i, strstr (crlf ++ crlf) s.buffer = some i ∧ s.response.headerLength = i + 4
  within : s.response.headerLength ≤ lim.headerMax
  parsed : headersParse false s.response.headerLength s.buffer = .ok s.response
  required : lim.requireContentLength = true → s.response.hasContentLength = true
  expected : s.response.hasContentLength = true → s.response.contentLength ≤ lim.responseMax - s.response.headerLength ∧
    s.expected = s.response.headerLength + s.response.contentLength ∧ s.buffer.length ≤ s.expected

section Reader

variable {lim : Limits} {s : Reader} {chunks : List Bytes} {i : ℕ}

theorem outcome_of_found (h : strstr (crlf ++ crlf) s.buffer = some i) (t : Bytes) : outcome lim (s.buffer ++ t) =
    if lim.headerMax < i + 4 then .error .refused else headersParse false (i + 4) s.buffer >>=
      accept lim (s.buffer ++ t) := by
  obtain ⟨hfound, hle⟩ := (strstr_append_iff (t := t) (by decide)).mpr h
  change i + 4 ≤ s.buffer.length at hle
  rw [outcome, hfound]
  dsimp only
  rw [headersParse_append hle]

theorem outcome_of_ready (h : Ready lim s) (t : Bytes) :
    outcome lim (s.buffer ++ t) = accept lim (s.buffer ++ t) s.response := by
  obtain ⟨i, hfound, hlength⟩ := h.found
  have hparsed := h.parsed
  have hwithin := h.within
  rw [hlength] at hparsed hwithin
  rw [outcome_of_found hfound, if_neg (Nat.not_lt.mpr hwithin), hparsed, ok_bind]

theorem outcome_of_missing (hmissing : strstr (crlf ++ crlf) s.buffer = none)
    (hlong : lim.headerMax ≤ s.buffer.length) (t : Bytes) :
    outcome lim (s.buffer ++ t) = .error .refused := by
  rw [outcome]
  cases hfound : strstr (crlf ++ crlf) (s.buffer ++ t) with
  | none => rfl
  | some i =>
    refine if_pos ?_
    by_contra hin
    rw [(strstr_append_iff (by decide)).mp ⟨hfound, by change i + 4 ≤ _; omega⟩] at hmissing
    cases hmissing

theorem growTo_spec {maximum required : ℕ} (hmax : maximum < sizeMax) (fuel capacity : ℕ) (hpos : 0 < capacity)
    (hle : capacity ≤ maximum + 1) (hfuel : required ≤ capacity + fuel) :
    ∃ c, growTo maximum required (fuel + 1) capacity = .ok c ∧ 0 < c ∧ c ≤ maximum + 1 := by
  induction fuel generalizing capacity with
  | zero => exact ⟨capacity, if_pos hfuel, hpos, hle⟩
  | succ fuel ih =>
    rw [growTo]
    split
    · exact ⟨capacity, rfl, hpos, hle⟩
    rw [add, if_neg (by omega), ok_bind]
    split
    · exact ⟨maximum + 1, rfl, by omega, le_rfl⟩
    · next hhalf =>
      rw [mul, if_neg (by omega)]
      exact ih (capacity * 2) (by omega) (by omega) (by omega)

theorem bufferGrow_spec {maximum required capacity : ℕ} (hmax : maximum < sizeMax) (hrequired : required ≤ maximum + 1)
    (hpos : 0 < capacity) (hle : capacity ≤ maximum + 1) :
    ∃ c, bufferGrow capacity required maximum = .ok c ∧ 0 < c ∧ c ≤ maximum + 1 := by
  obtain ⟨c, hgrown, hc⟩ := growTo_spec hmax required capacity hpos hle (Nat.le_add_left _ _)
  rw [bufferGrow, add, if_neg (by omega), ok_bind, if_neg (by omega)]
  exact ⟨c, hgrown, hc⟩

theorem receive_spec {wanted : ℕ} (hwanted : 0 < wanted) (hchunks : ∀ c ∈ chunks, c ≠ []) :
    (receive wanted chunks).1 ++ (receive wanted chunks).2.flatten = chunks.flatten ∧
      (receive wanted chunks).1.length ≤ wanted ∧
      (∀ c ∈ (receive wanted chunks).2, c ≠ []) ∧ ((receive wanted chunks).1 = [] → chunks = []) := by
  cases chunks with
  | nil => simp [receive]
  | cons chunk rest =>
    obtain ⟨hchunk, hrest⟩ := List.forall_mem_cons.mp hchunks
    rw [receive]
    split
    · next hshort => exact ⟨rfl, hshort, hrest, fun hnil => absurd hnil hchunk⟩
    · next hlong =>
      refine ⟨?_, List.length_take_le _ _, List.forall_mem_cons.mpr ⟨fun hnil => ?_, hrest⟩, fun hnil => ?_⟩
      · rw [List.flatten_cons, List.flatten_cons, ← List.append_assoc, List.take_append_drop]
      · exact hlong (List.drop_eq_nil_iff.mp hnil)
      · exact absurd ((List.take_eq_nil_iff.mp hnil).resolve_left hwanted.ne') hchunk

/-- What the arrival of bytes makes of a reader that waits for the end of the header block. -/
theorem inspect_cases (hlength : s.response.headerLength = 0) (hhas : s.response.hasContentLength = false)
    (hlim : lim.headerMax ≤ lim.responseMax) (hmax : lim.responseMax < sizeMax)
    (hsize : s.buffer.length ≤ lim.responseMax) :
    (inspect lim s = .error .refused ∧ ∀ t, outcome lim (s.buffer ++ t) = .error .refused) ∨
      ∃ s', inspect lim s = .ok s' ∧ s'.buffer = s.buffer ∧ s'.capacity = s.capacity ∧
        (Waiting lim s' ∨ Ready lim s') := by
  rw [inspect, if_neg (not_not.mpr hlength)]
  cases hfound : strstr (crlf ++ crlf) s.buffer with
  | none =>
    dsimp only
    split
    · next hlong => exact .inl ⟨rfl, fun t => outcome_of_missing hfound hlong t⟩
    · next hlong => exact .inr ⟨s, rfl, rfl, rfl, .inl ⟨hlength, hhas, hfound, by omega⟩⟩
  | some i =>
    have hle : i + 4 ≤ s.buffer.length := strstr_le hfound
    dsimp only
    rw [add, if_neg (by omega), ok_bind]
    split
    · next hlong => exact .inl ⟨rfl, fun t => by rw [outcome_of_found hfound, if_pos hlong]⟩
    next hwithin =>
    rcases headersParse_cases false s.buffer (show 2 ≤ i + 4 by omega) with hrefused | ⟨r, hparsed, hheader, -⟩
    · exact .inl ⟨by rw [hrefused]; rfl, fun t => by rw [outcome_of_found hfound, if_neg hwithin, hrefused]; rfl⟩
    have houtcome (t : Bytes) : outcome lim (s.buffer ++ t) = accept lim (s.buffer ++ t) r := by
      rw [outcome_of_found hfound, if_neg hwithin, hparsed, ok_bind]
    have hbound : r.headerLength ≤ lim.headerMax := by omega
    have hready : headersParse false r.headerLength s.buffer = .ok r := by rw [hheader, hparsed]
    rw [hparsed, ok_bind]
    split
    · next hrequired => exact .inl ⟨rfl, fun t => by
        rw [houtcome, accept, if_neg hrequired.2, if_pos (.inl hrequired.1)]⟩
    next hrequired =>
    rw [not_and, not_not] at hrequired
    split
    · next hhas =>
      rw [sub, if_neg (by omega), ok_bind]
      split
      · next hroom => exact .inl ⟨rfl, fun t => by rw [houtcome, accept, if_pos hhas, if_neg fun h => by omega]⟩
      next hroom =>
      rw [add, if_neg (by omega), ok_bind]
      split
      · next hexcess =>
        refine .inl ⟨rfl, fun t => ?_⟩
        rw [houtcome, accept, if_pos hhas, if_neg fun h => ?_]
        rw [List.length_append] at h
        omega
      · next hfits =>
        refine .inr ⟨_, rfl, rfl, rfl, .inr ⟨⟨i, hfound, hheader⟩, hbound, hready, hrequired, fun _ => ?_⟩⟩
        rw [hheader]
        exact ⟨Nat.not_lt.mp hroom, rfl, Nat.not_lt.mp hfits⟩
    · next hhas =>
      exact .inr ⟨_, rfl, rfl, rfl, .inr ⟨⟨i, hfound, hheader⟩, hbound, hready, hrequired, fun h => absurd h hhas⟩⟩

/-- What holds of a reader between two reads. -/
structure Sound (lim : Limits) (s : Reader) : Prop where
  phase : Waiting lim s ∨ Ready lim s
  size : s.buffer.length ≤ lim.responseMax
  positive : 0 < s.capacity
  capacity : s.capacity ≤ lim.responseMax + 1

theorem ready_of_declared (hs : Waiting lim s ∨ Ready lim s) (h : s.response.hasContentLength = true) : Ready lim s :=
  hs.resolve_left fun hwaiting => Bool.false_ne_true (hwaiting.hasContentLength.symm.trans h)

theorem flatten_eq_nil (hready : Ready lim s)
    (hdone : s.response.hasContentLength = true ∧ s.buffer.length = s.expected)
    (hbytes : NoExcess (s.buffer ++ chunks.flatten)) : chunks.flatten = [] := by
  obtain ⟨i, hfound, hlength⟩ := hready.found
  obtain ⟨hfound', hle⟩ := (strstr_append_iff (t := chunks.flatten) (by decide)).mpr hfound
  have hparsed : headersParse false (i + 4) (s.buffer ++ chunks.flatten) = .ok s.response :=
    (headersParse_append hle).trans (hlength ▸ hready.parsed)
  have hend : declaredEnd (s.buffer ++ chunks.flatten) = some (s.response.headerLength + s.response.contentLength) := by
    rw [declaredEnd, hfound', Option.bind_some, hparsed]
    exact if_pos hdone.1
  have hle' := hbytes _ hend
  obtain ⟨-, hexpected, -⟩ := hready.expected hdone.1
  rw [List.length_append] at hle'
  exact List.length_eq_zero_iff.mp (by omega)

theorem Ready.append (h : Ready lim s) {t : Bytes} (capacity : ℕ)
    (ht : s.response.hasContentLength = true → s.buffer.length + t.length ≤ s.expected) :
    Ready lim { s with buffer := s.buffer ++ t, capacity } := by
  obtain ⟨i, hfound, hlength⟩ := h.found
  obtain ⟨hfound', hle⟩ := (strstr_append_iff (t := t) (by decide)).mpr hfound
  refine ⟨⟨i, hfound', hlength⟩, h.within, ?_, h.required, fun hhas => ?_⟩
  · exact (headersParse_append (hlength ▸ hle)).trans h.parsed
  · obtain ⟨hroom, hexpected, -⟩ := h.expected hhas
    refine ⟨hroom, hexpected, ?_⟩
    rw [List.length_append]
    exact ht hhas

section

variable (hs : Waiting lim s ∨ Ready lim s)
include hs

theorem finish_eq (hlim : lim.headerMax ≤ lim.responseMax) (hmax : lim.responseMax < sizeMax)
    (hsize : s.response.hasContentLength = false → s.buffer.length < lim.responseMax) :
    finish s = outcome lim (s.buffer ++ []) := by
  rw [finish]
  rcases hs with hwaiting | hready
  · rw [if_pos hwaiting.headerLength, List.append_nil, outcome, hwaiting.missing]
  · have hwithin := hready.within
    obtain ⟨i, -, hlength⟩ := hready.found
    rw [outcome_of_ready hready, List.append_nil, accept, if_neg (by omega)]
    by_cases hhas : s.response.hasContentLength = true
    · obtain ⟨hroom, -⟩ := hready.expected hhas
      rw [if_pos hhas, if_pos hhas, add, if_neg (by omega)]
      simp [hroom]
    · have hopen : ¬(lim.requireContentLength = true ∨ lim.responseMax ≤ s.buffer.length) :=
        not_or.mpr ⟨fun hrequired =>
          hhas (hready.required hrequired), Nat.not_le.mpr (hsize (Bool.eq_false_of_not_eq_true hhas))⟩
      rw [if_neg hhas, if_neg hhas, if_neg hopen]
      exact if_neg (not_not.mpr rfl)

/-- A read keeps the reader sound, or the bytes are refused. -/
theorem inspect_step (hlim : lim.headerMax ≤ lim.responseMax) (hmax : lim.responseMax < sizeMax)
    (received : Bytes) (capacity : ℕ) (hsize : s.buffer.length + received.length ≤ lim.responseMax)
    (hexpected : s.response.hasContentLength = true → s.buffer.length + received.length ≤ s.expected) :
    (inspect lim { s with buffer := s.buffer ++ received, capacity } = .error .refused ∧
      ∀ t, outcome lim (s.buffer ++ received ++ t) = .error .refused) ∨
    ∃ s', inspect lim { s with buffer := s.buffer ++ received, capacity } = .ok s' ∧ s'.buffer = s.buffer ++ received ∧
      s'.capacity = capacity ∧ (Waiting lim s' ∨ Ready lim s') := by
  rcases hs with hwaiting | hready
  · refine inspect_cases (s := { s with buffer := s.buffer ++ received, capacity }) hwaiting.headerLength
      hwaiting.hasContentLength hlim hmax ?_
    rw [List.length_append]
    exact hsize
  · obtain ⟨i, -, hlength⟩ := hready.found
    refine .inr ⟨_, if_pos ?_, rfl, rfl, .inr (hready.append capacity hexpected)⟩
    change s.response.headerLength ≠ 0
    omega

/-- A reader whose bytes are not complete asks for more, and for none that are not declared. -/
theorem wantedBytes_spec
    (hopen : ¬(s.response.hasContentLength = true ∧ s.buffer.length = s.expected)) :
      ∃ wanted, wantedBytes s = .ok wanted ∧
      0 < wanted ∧ (s.response.hasContentLength = true → s.buffer.length + wanted ≤ s.expected) := by
  rw [wantedBytes]
  split
  · next hhas =>
    obtain ⟨-, -, hle⟩ := (ready_of_declared hs hhas).expected hhas
    have hne : s.buffer.length ≠ s.expected := fun h => hopen ⟨hhas, h⟩
    exact ⟨s.expected - s.buffer.length, if_neg (by omega), by omega, fun _ => by omega⟩
  · next hhas => exact ⟨4096, rfl, by omega, fun h => absurd h hhas⟩

/-- With the limit reached before its bytes are complete a response is refused. -/
theorem outcome_of_long (hlim : lim.headerMax ≤ lim.responseMax)
    (hopen : ¬(s.response.hasContentLength = true ∧ s.buffer.length = s.expected))
    (hlong : lim.responseMax ≤ s.buffer.length)
    (t : Bytes) : outcome lim (s.buffer ++ t) = .error .refused := by
  rcases hs with hwaiting | hready
  · have := hwaiting.within
    omega
  rw [outcome_of_ready hready, accept]
  split
  · next hhas =>
    obtain ⟨hroom, hexpected, hle⟩ := hready.expected hhas
    have hwithin := hready.within
    exact absurd ⟨hhas, by omega⟩ hopen
  · rw [if_pos]
    exact .inr (by rw [List.length_append]; omega)

end

/-- What is read is what the bytes make, however they arrive. -/
theorem readLoop_eq (hlim : lim.headerMax ≤ lim.responseMax) (hmax : lim.responseMax < sizeMax) (fuel : ℕ)
    (hs : Sound lim s)
    (hbytes : NoExcess (s.buffer ++ chunks.flatten)) (hchunks : ∀ c ∈ chunks, c ≠ [])
    (hfuel : chunks.flatten.length < fuel) :
    readLoop lim fuel s chunks = outcome lim (s.buffer ++ chunks.flatten) := by
  induction fuel generalizing s chunks with
  | zero => omega
  | succ fuel ih =>
    rw [readLoop]
    split
    · next hdone =>
      rw [flatten_eq_nil (ready_of_declared hs.phase hdone.1) hdone hbytes]
      exact finish_eq hs.phase hlim hmax fun hhas => absurd (hdone.1.symm.trans hhas) Bool.true_eq_false.mp
    next hopen =>
    split
    · next hlong => exact (outcome_of_long hs.phase hlim hopen hlong _).symm
    next hshort =>
    obtain ⟨missing, hmissing, hpos, hwithin⟩ := wantedBytes_spec hs.phase hopen
    have hwanted : 0 < min missing (lim.responseMax - s.buffer.length) := by omega
    rw [hmissing, ok_bind, sub, if_neg (by omega), ok_bind]
    dsimp only
    rw [add, if_neg (by omega), ok_bind, add, if_neg (by omega), ok_bind]
    obtain ⟨capacity, hgrown, hcapacity, hcapacity'⟩ := bufferGrow_spec hmax
      (show s.buffer.length + min missing (lim.responseMax - s.buffer.length) + 1 ≤ lim.responseMax + 1 by omega)
      hs.positive hs.capacity
    rw [hgrown, ok_bind]
    obtain ⟨hflatten, hreceived, hrest, hlast⟩ := receive_spec hwanted hchunks
    generalize receive (min missing (lim.responseMax - s.buffer.length)) chunks = delivery at *
    obtain ⟨received, rest⟩ := delivery
    dsimp only at *
    split
    · next hnil =>
      rw [hlast hnil]
      exact finish_eq hs.phase hlim hmax fun _ => by omega
    next hnil =>
    have hlength : received.length + rest.flatten.length = chunks.flatten.length := by
      rw [← hflatten, List.length_append]
    have hsome := List.length_pos_iff.mpr hnil
    rw [← hflatten, ← List.append_assoc] at hbytes ⊢
    rcases inspect_step hs.phase hlim hmax received capacity (by omega) fun hhas => by have := hwithin hhas; omega with
      ⟨hrefused, hall⟩ | ⟨s', hok, hbuffer, hcap, hphase⟩
    · rw [hrefused, hall]
      rfl
    · rw [hok, ← hbuffer]
      rw [← hbuffer] at hbytes
      refine ih ⟨hphase, ?_, hcap ▸ hcapacity, hcap ▸ hcapacity'⟩ hbytes hrest (by omega)
      rw [hbuffer, List.length_append]
      omega

theorem outcome_cases (lim : Limits) (hlim : lim.headerMax ≤ lim.responseMax) (bytes : Bytes) :
    outcome lim bytes = .error .refused ∨ ∃ r, outcome lim bytes = .ok r ∧ r.data = bytes ∧
      (∃ i, strstr (crlf ++ crlf) r.data = some i ∧ r.headerLength = i + 4) ∧
        (r.hasContentLength = true → r.data.length = r.headerLength + r.contentLength) ∧
          r.headerLength ≤ lim.headerMax ∧
          r.data.length ≤ lim.responseMax ∧ Declared r.data r := by
  rw [outcome]
  cases hfound : strstr (crlf ++ crlf) bytes with
  | none => exact .inl rfl
  | some i =>
    dsimp only
    split
    · exact .inl rfl
    next hwithin =>
    rcases headersParse_cases false bytes (show 2 ≤ i + 4 by omega) with hrefused | ⟨r, hparsed, hlength, hdeclared⟩
    · exact .inl (by rw [hrefused]; rfl)
    have hdeclared' : Declared bytes { r with data := bytes } := ⟨hdeclared.none, hdeclared.one⟩
    rw [hparsed, ok_bind, accept]
    split
    · split
      · next hcomplete =>
        exact .inr ⟨_, rfl, rfl, ⟨i, hfound, hlength⟩, fun _ => hcomplete.2, by dsimp only; omega, by dsimp only; omega,
          hdeclared'⟩
      · exact .inl rfl
    · next hhas =>
      split
      · exact .inl rfl
      · next hopen =>
        exact .inr ⟨_, rfl, rfl, ⟨i, hfound, hlength⟩, fun h =>
          absurd h hhas, by dsimp only; omega, by dsimp only; omega, hdeclared'⟩

theorem responseRead_eq (hchunks : ∀ c ∈ chunks, c ≠ []) (hbytes : NoExcess chunks.flatten) : responseRead lim chunks =
    if lim.headerMax < 16 ∨ lim.responseMax < lim.headerMax ∨ lim.responseMax = sizeMax then .error .refused
    else outcome lim chunks.flatten := by
  have hfits := lim.fits
  rw [responseRead]
  split
  · rfl
  next hvalid =>
  obtain ⟨capacity, hcapacity, hpos, hle⟩ : ∃ capacity, startCapacity lim = .ok capacity ∧ 0 < capacity ∧
    capacity ≤ lim.responseMax + 1 := by
    rw [startCapacity]
    split
    · exact ⟨lim.responseMax + 1, if_neg (by omega), by omega, le_rfl⟩
    · exact ⟨8192, rfl, by omega, by omega⟩
  rw [hcapacity]
  refine readLoop_eq (by omega) (by omega) _ ⟨.inl ⟨rfl, rfl, rfl, ?_⟩, Nat.zero_le _, hpos, hle⟩ hbytes
    hchunks (Nat.lt_succ_self _)
  change 0 < lim.headerMax
  omega

end Reader

/-- A response is read from its bytes, not from their arrival. -/
theorem responseRead_flatten (lim : Limits) {chunks chunks' : List Bytes} (hchunks : ∀ c ∈ chunks, c ≠ [])
    (hchunks' : ∀ c ∈ chunks', c ≠ []) (hsame : chunks.flatten = chunks'.flatten) (hbytes : NoExcess chunks.flatten) :
    responseRead lim chunks = responseRead lim chunks' ∧ responseRead lim chunks ≠ .error .wraps ∧
      ∀ r, responseRead lim chunks = .ok r → r.data = chunks.flatten ∧
        (∃ i, strstr (crlf ++ crlf) r.data = some i ∧ r.headerLength = i + 4) ∧
        (r.hasContentLength = true → r.data.length = r.headerLength + r.contentLength) ∧
          r.headerLength ≤ lim.headerMax ∧
        r.data.length ≤ lim.responseMax ∧ Declared r.data r := by
  rw [responseRead_eq hchunks hbytes, responseRead_eq hchunks' (hsame ▸ hbytes), hsame]
  split
  · exact ⟨rfl, nofun, nofun⟩
  next hvalid =>
  refine ⟨rfl, ?_⟩
  rcases outcome_cases lim (by omega) chunks'.flatten with hrefused | ⟨r, hok, hfacts⟩
  · rw [hrefused]
    exact ⟨nofun, nofun⟩
  · rw [hok]
    refine ⟨nofun, fun r' hr' => ?_⟩
    cases hr'
    exact hfacts

/-- A response of three bytes, cut behind and within its header block. -/
theorem responseRead_flatten_ok :
    let bytes := ascii "HTTP/1.1 200 OK\r\nContent-Length: 3\r\n\r\nabc"
    responseRead ⟨64, 64, true, by decide⟩ [bytes.take 38, bytes.drop 38] =
        responseRead ⟨64, 64, true, by decide⟩ [bytes.take 20, bytes.drop 20] ∧
      (responseRead ⟨64, 64, true, by decide⟩ [bytes]).map (fun r => (r.status, r.headerLength, r.contentLength)) =
        .ok (200, 38, 3) := by
  refine ⟨(responseRead_flatten _ ?_ ?_ ?_ ?_).1, ?_⟩
  · decide
  · decide
  · decide
  · unfold NoExcess
    decide
  · decide

end Http1
