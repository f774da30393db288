-- SUMMARY: Condensed tool output: the line filters of the command families, the spill store, and the entry point.
import Aimee.Economizer.Recognize
import Aimee.Lib.Elision

/-!
# Condensation of tool output

`condense_family.go` and `condense_apply.go`. The output of a test runner or of a compiler is cut
down to its signal lines; the full output is written to the spill store first, and the condensed
text ends with a reference to it.
-/

namespace Economizer

open Wire (decimal)

def tcCeiling : ℕ := 2 * 1024 * 1024

def tcSpillMaxBytes : ℕ := 64 * 1024 * 1024

/-! ## The line filter -/

/-- The lines of a text; a newline at its end makes an empty line. -/
def splitLines (s : Text) : List Text := s.splitOn 10

def joinLines (lines : List Text) : Text := [(10 : UInt8)].intercalate lines

def lineHasAny (line : Text) (sigs : List Text) : Bool :=
  sigs.any fun s => containsText (asciiLower line) (asciiLower s)

def elisionMarker (n : ℕ) : Text := utf8 "... " ++ decimal n ++ utf8 " lines elided ..."

/-- What a family passes to the filter. -/
structure TCFamily where
  name : Text
  failSigs : List Text
  keepSigs : List Text
  requireFailNonzero : Bool
  head : ℕ
  tail : ℕ
  ctxBefore : ℕ
  ctxAfter : ℕ

def tcFamilyTestRunner : TCFamily where
  name := utf8 "test"
  failSigs := ["fail", "error", "panic", "assert", "traceback", "exception", "not ok", "✗", "✖", "✘"].map utf8
  keepSigs := ["test result", "result:", "====", "collected", "summary", "warning", "warnings"].map utf8
  requireFailNonzero := true
  head := 2
  tail := 6
  ctxBefore := 3
  ctxAfter := 8

def tcFamilyDiagnostics : TCFamily where
  name := utf8 "diag"
  failSigs :=
    ["error", "undefined", "cannot", "expected", "fatal", "panicked", "no such", "not found", "not a type",
      "not a package", "imported and", "declared but not used", "multiple definition", "relocation", "unresolved",
      "syntaxerror", "typeerror"].map utf8
  keepSigs :=
    ["warning", "warn:", "note:", "help:", "-->", "error[", "::error", "::warning", "===="].map utf8
  requireFailNonzero := true
  head := 2
  tail := 4
  ctxBefore := 0
  ctxAfter := 0

/-- The marks of one line, the lines around a failure included. -/
def markLine (fam : TCFamily) (n : ℕ) (keep : List Bool) (i : ℕ) (line : Text) : List Bool :=
  let keep := if i < fam.head ∨ n ≤ i + fam.tail ∨ lineHasAny line fam.keepSigs then keep.set i true else keep
  if lineHasAny line fam.failSigs then Elision.mark keep (i - fam.ctxBefore) (min (i + fam.ctxAfter) (n - 1)) else keep

/-- Which lines are kept. -/
def keepMask (fam : TCFamily) (lines : List Text) : List Bool :=
  lines.zipIdx.foldl (fun keep p => markLine fam lines.length keep p.2 p.1) (List.replicate lines.length false)

/-- A command that failed and shows no failure line is left as it is. -/
def tcSignalFilter (fam : TCFamily) (exitCode : ℤ) (raw : Text) : Option Text :=
  let lines := splitLines raw
  let anyFail := lines.any fun line => lineHasAny line fam.failSigs
  if fam.requireFailNonzero ∧ exitCode ≠ 0 ∧ !anyFail then none
  else some (joinLines (Elision.collapse elisionMarker (lines.zip (keepMask fam lines)) 0))

/-! ## References -/

def fnvMix (h : UInt64) (s : Text) : UInt64 := s.foldl (fun h c => (h ^^^ c.toUInt64) * 1099511628211) h

def hexByte (n : ℕ) : UInt8 := if n % 16 < 10 then UInt8.ofNat (48 + n % 16) else UInt8.ofNat (87 + n % 16)

/-- `%016x`. -/
def hex16 (h : UInt64) : Text := (List.range 16).map fun i => hexByte (h.toNat / 16 ^ (15 - i))

/-- FNV-1a over the command line, a NUL and the output. -/
def tcHashRef (seed content : Text) : Text :=
  let h := fnvMix 1469598103934665603 seed
  utf8 "tc-" ++ hex16 (fnvMix (h * 1099511628211) content)

def tcRefValid (ref : Text) : Bool :=
  let h := ref.drop 3
  (utf8 "tc-").isPrefixOf ref && h.length = 16 && h.all fun c => 48 ≤ c && c ≤ 57 || 97 ≤ c && c ≤ 102

/-! ## The spill store -/

/-- A directory entry; what is no regular file has no content here. -/
structure SpillFile where
  name : Text
  content : Text
  mtime : ℤ
  regular : Bool
  deriving DecidableEq

abbrev SpillDir := List SpillFile

def SpillDir.file (dir : SpillDir) (name : Text) : Option SpillFile := dir.find? (·.name = name)

def SpillDir.remove (dir : SpillDir) (name : Text) : SpillDir := dir.filter (·.name ≠ name)

/-- A regular file in the place of what had its name. -/
def SpillDir.put (dir : SpillDir) (name content : Text) (mtime : ℤ) : SpillDir :=
  { name := name, content := content, mtime := mtime, regular := true } :: dir.remove name

/-- What the operating system answers to the calls on the spill directory. -/
structure SpillOs where
  pid : ℕ
  now : ℤ
  lists : Bool
  stats : Text → Bool
  removes : Text → Bool
  opensTemp : Bool
  /-- A write that fails may have put some of its bytes into the file. -/
  shortWrite : Option ℕ
  syncs : Bool
  closes : Bool
  renames : Bool

def outSuffix : Text := utf8 ".out"

/-- Oldest files first, until the rest is within the budget; a file that cannot be removed stays. -/
def evictOldest (os : SpillOs) (budget : ℕ) : List SpillFile → (total : ℕ) → SpillDir → SpillDir
  | [], _, dir => dir
  | f :: files, total, dir =>
    if total ≤ budget then dir
    else if os.removes f.name then evictOldest os budget files (total - f.content.length) (dir.remove f.name)
    else evictOldest os budget files total dir

def tcSpillEvict (os : SpillOs) (dir : SpillDir) (budget : ℕ) : SpillDir :=
  let files := dir.filter fun f => outSuffix.isSuffixOf f.name && os.stats f.name && f.regular
  let total := (files.map fun f => f.content.length).sum
  if !os.lists || total ≤ budget then dir
  else evictOldest os budget (files.mergeSort fun a b => a.mtime ≤ b.mtime) total dir

/-- A temporary file that is dropped; it stays where it cannot be removed. -/
def dropTemp (os : SpillOs) (dir : SpillDir) (tmp : Text) : SpillDir := if os.removes tmp then dir.remove tmp else dir

/-- Whether the rename landed, and the directory after it. -/
def tcSpillWrite (os : SpillOs) (dir : SpillDir) (ref content : Text) : Bool × SpillDir :=
  let tmp := ref ++ utf8 "." ++ decimal os.pid ++ utf8 ".tmp"
  if !os.opensTemp then (false, dir)
  else match os.shortWrite with
  | some k => (false, dropTemp os (dir.put tmp (content.take k) os.now) tmp)
  | none =>
    let written := dir.put tmp content os.now
    if !os.syncs || !os.closes || !os.renames then (false, dropTemp os written tmp)
    else (true, (written.remove tmp).put (ref ++ outSuffix) content os.now)

/-! ## The entry points -/

def tcIsTestInvocation (r : TCRecoResult) : Bool :=
  oneOf ["pytest", "jest", "vitest", "mocha", "ctest"] r.cmd ||
    oneOf ["cargo", "go", "npm", "yarn", "pnpm", "mvn", "gradle", "dotnet"] r.cmd && r.sub = utf8 "test"

def tcIsDiagnosticsInvocation (r : TCRecoResult) : Bool :=
  oneOf ["tsc", "eslint", "ruff", "mypy", "flake8", "gcc", "g++", "cc", "clang", "clang++", "rustc", "cmake"] r.cmd ||
    oneOf ["cargo"] r.cmd && oneOf ["build", "check", "clippy"] r.sub ||
    oneOf ["go"] r.cmd && oneOf ["build", "vet"] r.sub ||
    oneOf ["dotnet"] r.cmd && oneOf ["build"] r.sub ||
    oneOf ["npm", "yarn", "pnpm"] r.cmd && oneOf ["build", "lint"] r.sub

/-- The family whose filter runs on the output of a command. -/
def tcFamily (r : TCRecoResult) : Option TCFamily :=
  if tcIsTestInvocation r then some tcFamilyTestRunner
  else if tcIsDiagnosticsInvocation r then some tcFamilyDiagnostics
  else none

structure TCStats where
  rawBytes : ℕ
  finalBytes : ℕ
  recognized : Bool
  spilled : Bool
  family : Text
  spillRef : Text
  deriving DecidableEq

/-- The cumulative counters; the savings are computed from them. -/
structure TCTotals where
  recognized : ℕ
  applied : ℕ
  appliedRaw : ℕ
  appliedFinal : ℕ
  familyTest : ℕ
  familyDiag : ℕ
  recovered : ℕ
  recoveredBytes : ℕ
  deriving DecidableEq

structure TCState where
  dir : SpillDir
  totals : TCTotals
  deriving DecidableEq

/-- The line that is added to a condensed text. -/
def recoveryPointer (rawLen : ℕ) (ref : Text) : Text :=
  utf8 "[output condensed by aimee — " ++ decimal rawLen ++
    utf8 " bytes total; retrieve the full, unfiltered output with the tool_output_get tool, ref \"" ++ ref ++
    utf8 "\", if you need a passing case or elided detail]"

/-- The condensed text, or nothing where the output is to be used as it is. -/
def tcApply (os : SpillOs) (cmdline : Text) (exitCode : ℤ) (raw spillDir : Text) (st : TCState) :
    Option Text × TCStats × TCState :=
  let stats : TCStats :=
    { rawBytes := raw.length, finalBytes := raw.length, recognized := false, spilled := false,
      family := [], spillRef := [] }
  if raw = [] ∨ tcCeiling < raw.length then (none, stats, st)
  else
    let reco := tcRecognize cmdline
    let stats := { stats with recognized := reco.outcome = .recognized }
    if reco.outcome ≠ .recognized then (none, stats, st)
    else
      let totals := { st.totals with recognized := st.totals.recognized + 1 }
      match (tcFamily reco).bind fun fam => (tcSignalFilter fam exitCode raw).map fun cond => (fam, cond) with
      | none => (none, stats, { st with totals := totals })
      | some (fam, cond) =>
        -- the shrink has to be worth the way back
        if raw.length < cond.length + 200 ∨ raw.length * 85 < cond.length * 100 then
          (none, stats, { st with totals := totals })
        else if spillDir = [] then (none, stats, { st with totals := totals })
        else
          let ref := tcHashRef cmdline raw
          match tcSpillWrite os (tcSpillEvict os st.dir tcSpillMaxBytes) ref raw with
          | (false, dir) => (none, stats, { dir := dir, totals := totals })
          | (true, dir) =>
            let final := cond ++ utf8 "\n" ++ recoveryPointer raw.length ref
            let totals :=
              { totals with
                applied := totals.applied + 1
                appliedRaw := totals.appliedRaw + raw.length
                appliedFinal := totals.appliedFinal + final.length
                familyTest := if fam.name = utf8 "test" then totals.familyTest + 1 else totals.familyTest
                familyDiag := if fam.name = utf8 "diag" then totals.familyDiag + 1 else totals.familyDiag }
            (some final,
              { stats with finalBytes := final.length, spilled := true, family := fam.name, spillRef := ref },
              { dir := dir, totals := totals })

/-- The full output behind a reference. `opens` says whether the file could be opened and read. -/
def tcRecall (opens : Bool) (spillDir ref : Text) (st : TCState) : Option Text × TCState :=
  if spillDir = [] ∨ !tcRefValid ref then (none, st)
  else match st.dir.file (ref ++ outSuffix) with
  | none => (none, st)
  | some f =>
    if !opens || !f.regular || tcCeiling < f.content.length then (none, st)
    else
      (some f.content,
        { st with
          totals :=
            { st.totals with
              recovered := st.totals.recovered + 1, recoveredBytes := st.totals.recoveredBytes + f.content.length } })

end Economizer
