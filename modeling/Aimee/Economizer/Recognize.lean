-- SUMMARY: Which command a shell line runs: tokens, wrappers in front of the command, and the guard against paths.
import Aimee.Economizer.Closet

/-!
# Command recognition

`condense_recognize.go`. A line is read only as far as one command can be seen in it; what is
compound or ambiguous stays unrecognized, and a command behind a path or an interpreter is opaque.
-/

namespace Economizer

def tcMaxTok : ℕ := 24

inductive TCOutcome where
  | unrecognized
  | opaqueCommand
  | recognized
  deriving DecidableEq

structure TCRecoResult where
  outcome : TCOutcome
  cmd : Text
  sub : Text
  deriving DecidableEq

/-! ## Tokens -/

/-- A blank, `|`, `;`, `&`, `<`, `>` or a newline ends a word that is not quoted. -/
def endsWord (c : UInt8) : Bool := [32, 9, 124, 59, 38, 60, 62, 10].contains c

/-- The word at the front of a line, without its quotes, and what is behind it. A quote that is open
    takes everything up to its like, or to the end. -/
def tcWord : (quote : Option UInt8) → Text → Text × Text
  | _, [] => ([], [])
  | some q, c :: rest =>
    if c = q then tcWord none rest
    else
      let (tok, behind) := tcWord (some q) rest
      (c :: tok, behind)
  | none, c :: rest =>
    if endsWord c then ([], c :: rest)
    else if c = 39 ∨ c = 34 then tcWord (some c) rest
    else
      let (tok, behind) := tcWord none rest
      (c :: tok, behind)

/-- The loop over the words; each of its rounds takes at least one byte. -/
def tcTokenizeFrom : (rounds : ℕ) → (toks : List Text) → Text → Option (List Text)
  | 0, toks, _ => some toks
  | rounds + 1, toks, s =>
    match s.dropWhile fun c => c = 32 || c = 9 with
    | [] => some toks
    | c :: rest =>
      -- a compound operator or a substitution
      if [124, 59, 38, 10, 96].contains c then none
      else if c = 36 ∧ rest.head? = some 40 then none
      -- a redirect ends the command
      else if c = 60 ∨ c = 62 then some toks
      else if tcMaxTok ≤ toks.length then some toks
      else
        let (tok, behind) := tcWord none (c :: rest)
        tcTokenizeFrom rounds (toks ++ [tok]) behind

def tcTokenize (s : Text) : Option (List Text) := tcTokenizeFrom (s.length + 1) [] s

/-! ## What stands in front of the command -/

def tcBase (p : Text) : Text := (p.reverse.takeWhile (· ≠ 47)).reverse

/-- One of the words of a list. -/
def oneOf (words : List String) (t : Text) : Bool := (words.map utf8).contains t

def tcWrapperSkip (t : Text) (next : Option Text) : ℕ :=
  if oneOf ["time", "nice", "nohup", "stdbuf", "npx"] t then 1
  else if oneOf ["uv", "poetry", "pipenv"] t && next = some (utf8 "run") then 2
  else if oneOf ["bun"] t && next = some (utf8 "x") then 2
  else if oneOf ["pnpm", "npm", "yarn"] t && next = some (utf8 "exec") then 2
  else 0

def tcIsVarAssign (t : Text) : Bool :=
  let name := t.takeWhile (· ≠ 61)
  t.contains 61 && name ≠ [] && t.head? ≠ some 45 && !t.contains 47 && name.all fun c => aAlnum c || c = 95

/-- A word that starts with a hyphen. -/
def isDashed (t : Text) : Bool := t.head? = some 45

/-- An option of `sudo` that takes the word behind it. -/
def takesArg (o : Text) : Bool :=
  match o with
  | [_, c] => (utf8 "ugpCrtTURhDP").contains c
  | _ => false

/-- The words behind the options of `sudo`. -/
def afterSudoOptions : List Text → List Text
  | [] => []
  | [o] => if isDashed o then [] else [o]
  | o :: v :: rest =>
    if !isDashed o then o :: v :: rest
    else if takesArg o then afterSudoOptions rest
    else afterSudoOptions (v :: rest)

/-- The words from the inner command on. -/
def tcUnwrap : (guard : ℕ) → List Text → List Text
  | 0, toks => toks
  | _ + 1, [] => []
  | guard + 1, t :: rest =>
    if tcIsVarAssign t then tcUnwrap guard rest
    else if tcBase t = utf8 "env" then tcUnwrap guard (rest.dropWhile tcIsVarAssign)
    else if tcBase t = utf8 "sudo" then tcUnwrap guard (afterSudoOptions rest)
    else
      let skip := tcWrapperSkip (tcBase t) rest.head?
      if 0 < skip then tcUnwrap guard ((t :: rest).drop skip) else t :: rest

/-! ## The command -/

def tcKnownCmds : List String :=
  ["git", "cargo", "go", "pytest", "jest", "vitest", "mocha", "ctest", "mvn", "gradle", "dotnet", "tsc", "eslint",
    "ruff", "mypy", "flake8", "rustc", "gcc", "g++", "cc", "clang", "clang++", "ls", "grep", "rg", "find", "npm",
    "yarn", "pnpm", "pip", "pip3", "cmake"]

def tcSubcommandCmds : List String := ["git", "cargo", "go", "dotnet", "npm", "yarn", "pnpm", "pip", "pip3"]

/-- A word that can be a subcommand: no option, path or assignment. -/
def isBareWord (t : Text) : Bool := !isDashed t && !t.contains 47 && !t.contains 61

def tcRecognize (cmdline : Text) : TCRecoResult :=
  match (tcTokenize cmdline).map (tcUnwrap tcMaxTok) with
  | none | some [] => { outcome := .unrecognized, cmd := [], sub := [] }
  | some (t :: rest) =>
    let cmd := tcBase t
    if oneOf ["xargs", "make", "bash", "sh", "zsh"] cmd then { outcome := .opaqueCommand, cmd := cmd, sub := [] }
    -- a path that ends in a known name is not that command
    else if t.head? = some 46 ∨ t.contains 47 then { outcome := .opaqueCommand, cmd := cmd, sub := [] }
    else if !oneOf tcKnownCmds cmd then { outcome := .unrecognized, cmd := cmd, sub := [] }
    else if !oneOf tcSubcommandCmds cmd then { outcome := .recognized, cmd := cmd, sub := [] }
    else { outcome := .recognized, cmd := cmd, sub := (rest.find? isBareWord).getD [] }

end Economizer
