-- SUMMARY: The removal of tools by index paths: refused as a whole, or exact up to the namespaces it empties, with the tool choice kept or relaxed.
import Mathlib.Data.Rat.Floor
import Aimee.Lib.Grove

/-!
# Tool paths

`aimee_ir_remove_tool_paths` of `aimee_ir.c`. A path is a list of indices into the catalog as the
module saw it. The whole patch is checked first; the tools are then removed one after the other,
and a path that no longer led to a tool would be read out of bounds.
-/

namespace Ir.ToolPaths

open Grove (erase without Before)

inductive ToolKind where
  | function | namespace | hosted
  deriving DecidableEq

/-- A tool without its children; `rest` is what the removal does not look at. -/
structure ToolData (α : Type) where
  name : Option String
  kind : ToolKind
  rest : α
  deriving DecidableEq

/-- The tools of a catalog, each with its children. -/
abbrev Tools (α : Type) := Grove (ToolData α)

inductive ToolChoice where
  | unset | auto | none | any | tool
  deriving DecidableEq

structure Request (α β : Type) where
  tools : Tools α
  toolChoice : ToolChoice
  toolChoiceName : Option String
  hasParallelToolCalls : Bool
  mutated : Bool
  rest : β
  deriving DecidableEq

/-- An item of a path: a number with the value of its double, or anything else. -/
inductive Index where
  | number (valuedouble : ℚ)
  | other

inductive Path where
  | array (items : List Index)
  | other

def maxBlocks : ℕ := 4096

variable {α β : Type}

/-! ## The check of a patch -/

/-- `valueint`: the double cut down to an `int`. -/
def valueint (v : ℚ) : ℤ :=
  if 2 ^ 31 - 1 ≤ v then 2 ^ 31 - 1 else if v ≤ -2 ^ 31 then -2 ^ 31 else v.num.tdiv v.den

def readIndex (count : ℕ) : Index → Option ℕ
  | .number v => if v < 0 ∨ count ≤ v ∨ v ≠ valueint v then none else some (valueint v).toNat
  | .other => none

/-- The way of a path through the catalog: every index but the last is one of a namespace. -/
def readPath : Tools α → List Index → Option (List ℕ)
  | _, [] => some []
  | tools, index :: rest => do
    let i ← readIndex tools.length index
    let tool ← tools.get? i
    if rest ≠ [] ∧ tool.1.kind ≠ .namespace then none
    else
      let p ← readPath tool.2 rest
      some (i :: p)

/-- The comparison with the path before, which has to be behind. -/
def descends : List ℕ → List ℕ → Bool
  | left :: previous, right :: path =>
    if left < right then false else if right < left then true else descends previous path
  | _, _ => false

def validPaths (tools : Tools α) : Option (List ℕ) → List Path → Option (List (List ℕ))
  | _, [] => some []
  | _, .other :: _ => none
  | previous, .array items :: paths =>
    if items.length < 1 ∨ 16 < items.length then none
    else do
      let path ← readPath tools items
      if previous.all (descends · path) then
        let rest ← validPaths tools (some path) paths
        some (path :: rest)
      else none

/-- The paths of a valid patch, as they are read again by the removal. -/
def toolPathsValid (tools : Tools α) : Option (List Path) → Option (List (List ℕ))
  | none => none
  | some paths => if maxBlocks < paths.length then none else validPaths tools none paths

/-! ## The removal -/

def Request.relaxed (r : Request α β) : Request α β := { r with toolChoice := .auto, toolChoiceName := none }

def relaxTool (tool : ToolData α) (r : Request α β) : Request α β :=
  if r.toolChoice = .tool ∧ r.toolChoiceName.isSome ∧ tool.name = r.toolChoiceName then r.relaxed else r

/-- `relax_removed_tool_choice`, on the children of a tool. -/
def relaxChildren : Tools α → Request α β → Request α β
  | .nil, r => r
  | .cons tool children rest, r => relaxChildren rest (relaxChildren children (relaxTool tool r))

def relaxRemovedToolChoice (tool : ToolData α × Tools α) (r : Request α β) : Request α β :=
  relaxChildren tool.2 (relaxTool tool.1 r)

/-- `prune_empty_tool_namespaces`, from the last tool to the first. -/
def prune : Tools α → Tools α
  | .nil => .nil
  | .cons tool children rest =>
    let rest := prune rest
    if tool.kind = .namespace then
      match prune children with
      | .nil => rest
      | children => .cons tool children rest
    else .cons tool children rest

/-- The loop over the paths; `none` is a read out of bounds. -/
def removePaths : List (List ℕ) → Request α β → Option (Request α β)
  | [], r => some r
  | [] :: _, _ => none
  | (i :: p) :: paths, r => do
    let (tool, tools) ← r.tools.erase i p
    removePaths paths { relaxRemovedToolChoice tool r with tools := tools }

/-- What follows a removal. -/
def Request.settle (r : Request α β) : Request α β :=
  let r := { r with tools := prune r.tools, mutated := true }
  if r.tools.length = 0 then
    { r with toolChoice := .unset, toolChoiceName := none, hasParallelToolCalls := false }
  else r

/-- The number of removed tools, or -1. -/
def removeToolPaths (r : Request α β) (paths : Option (List Path)) : Option (ℤ × Request α β) :=
  match toolPathsValid r.tools paths with
  | none => some (-1, r)
  | some paths => do
    let r' ← removePaths paths r
    some (paths.length, if paths = [] then r' else r'.settle)

/-! ## Valid patches -/

variable {r r' : Request α β} {tools tools' : Tools α} {t : ToolData α × Tools α} {i : ℕ} {p : List ℕ}
  {paths : List (List ℕ)}
  {items : List Index} {name : String}

theorem before_of_descends : ∀ {previous path : List ℕ}, descends previous path = true → Before path previous
  | [], _, h => by simp [descends] at h
  | _ :: _, [], h => by simp [descends] at h
  | left :: previous, right :: path, h => by
    rw [descends] at h
    split_ifs at h with hlt hgt
    · exact .inl hgt
    · exact .inr ⟨by omega, before_of_descends h⟩

/-- The path leads to a tool. -/
def Leads (tools : Tools α) (path : List ℕ) : Prop := ∃ i p, path = i :: p ∧ (tools.erase i p).isSome

theorem leads_of_readPath {path : List ℕ} (hne : items ≠ []) (h : readPath tools items = some path) :
    Leads tools path := by
  induction items generalizing tools path with
  | nil => exact absurd rfl hne
  | cons index rest ih =>
    obtain ⟨i, -, h⟩ := Option.bind_eq_some_iff.mp h
    obtain ⟨tool, htool, h⟩ := Option.bind_eq_some_iff.mp h
    split_ifs at h
    obtain ⟨p, hp, hpath⟩ := Option.bind_eq_some_iff.mp h
    refine ⟨i, p, (Option.some.inj hpath).symm, ?_⟩
    by_cases hrest : rest = []
    · subst hrest
      obtain rfl := Option.some.inj hp
      rw [Grove.isSome_erase_nil, htool]
      rfl
    · obtain ⟨j, q, rfl, hq⟩ := ih hrest hp
      rw [Grove.isSome_erase_cons htool]
      exact hq

theorem validPaths_spec {previous : Option (List ℕ)} {patch : List Path}
    (h : validPaths tools previous patch = some paths) :
    (∀ path ∈ paths, Leads tools path) ∧ paths.Pairwise (fun path later => Before later path) ∧
      ∀ path ∈ previous, ∀ later ∈ paths, Before later path := by
  induction patch generalizing previous paths with
  | nil =>
    obtain rfl := Option.some.inj h
    simp
  | cons item patch ih =>
    cases item with
    | other => cases h
    | array items =>
      rw [validPaths] at h
      split_ifs at h with hlength
      obtain ⟨path, hpath, h⟩ := Option.bind_eq_some_iff.mp h
      split_ifs at h with hdescends
      obtain ⟨rest, hrest, hpaths⟩ := Option.bind_eq_some_iff.mp h
      obtain rfl := Option.some.inj hpaths
      obtain ⟨hleads, hpairwise, hbefore⟩ := ih hrest
      have hne : items ≠ [] := fun hnil => hlength (.inl (by simp [hnil]))
      refine ⟨List.forall_mem_cons.mpr ⟨leads_of_readPath hne hpath, hleads⟩,
        List.pairwise_cons.mpr ⟨hbefore path rfl, hpairwise⟩, fun before hmem => ?_⟩
      obtain rfl := Option.mem_def.mp hmem
      have hfirst : Before path before := before_of_descends (by simpa using hdescends)
      exact List.forall_mem_cons.mpr ⟨hfirst, fun later hlater => (hbefore path rfl later hlater).trans hfirst⟩

/-! ## The tool choice -/

/-- A tool that is no namespace has the name. -/
def Calls (name : String) : Tools α → Prop
  | .nil => False
  | .cons tool children rest => tool.kind ≠ .namespace ∧ tool.name = some name ∨ Calls name children ∨ Calls name rest

/-- The choice names a tool of the catalog, or it has been relaxed. -/
def Follows (name : String) (r : Request α β) : Prop :=
  r.toolChoice = .tool ∧ r.toolChoiceName = some name ∧ Calls name r.tools ∨
    (r.toolChoice = .auto ∨ r.toolChoice = .unset) ∧ r.toolChoiceName = none

theorem relaxTool_cases (tool : ToolData α) (r : Request α β) :
    relaxTool tool r = r ∨ relaxTool tool r = r.relaxed := by
  rw [relaxTool]
  split_ifs
  · exact .inr rfl
  · exact .inl rfl

theorem relaxChildren_cases (tools : Tools α) (r : Request α β) : relaxChildren tools r = r ∨
    relaxChildren tools r = r.relaxed := by
  induction tools generalizing r with
  | nil => exact .inl rfl
  | cons tool children rest ihChildren ihRest =>
    have hstep : ∀ {x y : Request α β}, y = x ∨ y = x.relaxed → x = r ∨ x = r.relaxed → y = r ∨ y = r.relaxed := by
      rintro x y (rfl | rfl) (rfl | rfl)
      exacts [.inl rfl, .inr rfl, .inr rfl, .inr rfl]
    exact hstep (ihRest _) (hstep (ihChildren _) (relaxTool_cases tool r))

theorem relaxRemovedToolChoice_cases (t : ToolData α × Tools α) (r : Request α β) :
    relaxRemovedToolChoice t r = r ∨ relaxRemovedToolChoice t r = r.relaxed := by
  rw [relaxRemovedToolChoice]
  rcases relaxChildren_cases t.2 (relaxTool t.1 r) with h | h <;> rcases relaxTool_cases t.1 r with
    h' | h' <;> rw [h, h']
  exacts [.inl rfl, .inr rfl, .inr rfl, .inr rfl]

theorem relaxChildren_relaxed (tools : Tools α) (r : Request α β) : relaxChildren tools r.relaxed = r.relaxed := by
  rcases relaxChildren_cases tools r.relaxed with h | h
  · exact h
  · rw [h]
    rfl

theorem relaxChildren_of_calls (hchoice : r.toolChoice = .tool) (hname : r.toolChoiceName = some name)
    (h : Calls name tools) :
    relaxChildren tools r = r.relaxed := by
  induction tools generalizing r with
  | nil => exact h.elim
  | cons tool children rest ihChildren ihRest =>
    rw [relaxChildren]
    rcases relaxTool_cases tool r with htool | htool
    · rw [htool]
      rcases h with ⟨-, hcalled⟩ | h | h
      · -- the tool itself is named
        have hrelaxed : relaxTool tool r = r.relaxed := if_pos ⟨hchoice, by simp [hname], by rw [hcalled, hname]⟩
        have hself : r = r.relaxed := htool.symm.trans hrelaxed
        rw [hself, relaxChildren_relaxed, relaxChildren_relaxed]
        rfl
      · rw [ihChildren hchoice hname h, relaxChildren_relaxed]
      · rcases relaxChildren_cases children r with hchildren | hchildren
        · rw [hchildren, ihRest hchoice hname h]
        · rw [hchildren, relaxChildren_relaxed]
    · rw [htool, relaxChildren_relaxed, relaxChildren_relaxed]

theorem calls_of_erase (h : tools.erase i p = some (t, tools')) (hcalls : Calls name tools) :
    Calls name tools' ∨ Calls name (.cons t.1 t.2 .nil) := by
  induction tools generalizing i p tools' with
  | nil => cases h
  | cons tool children rest ihChildren ihRest =>
    cases i with
    | zero =>
      cases p with
      | nil =>
        obtain ⟨rfl, rfl⟩ := Prod.mk.inj (Option.some.inj h)
        rcases hcalls with htool | hchildren | hrest
        exacts [.inr (.inl htool), .inr (.inr (.inl hchildren)), .inl hrest]
      | cons j p =>
        obtain ⟨⟨t', children'⟩, hchildren, hx⟩ := Option.map_eq_some_iff.mp h
        obtain ⟨rfl, rfl⟩ := Prod.mk.inj hx
        rcases hcalls with htool | hcalls | hrest
        · exact .inl (.inl htool)
        · exact (ihChildren hchildren hcalls).imp (fun h => .inr (.inl h)) id
        · exact .inl (.inr (.inr hrest))
    | succ i =>
      obtain ⟨⟨t', rest'⟩, hrest, hx⟩ := Option.map_eq_some_iff.mp h
      obtain ⟨rfl, rfl⟩ := Prod.mk.inj hx
      rcases hcalls with htool | hchildren | hcalls
      · exact .inl (.inl htool)
      · exact .inl (.inr (.inl hchildren))
      · exact (ihRest hrest hcalls).imp (fun h => .inr (.inr h)) id

theorem calls_prune (h : Calls name tools) : Calls name (prune tools) := by
  induction tools with
  | nil => exact h
  | cons tool children rest ihChildren ihRest =>
    rw [prune]
    by_cases hkind : tool.kind = .namespace
    · rw [if_pos hkind]
      rcases h with ⟨hother, -⟩ | h | h
      · exact absurd hkind hother
      · cases hprune : prune children with
        | nil => exact (hprune ▸ ihChildren h : Calls name Grove.nil).elim
        | cons => exact .inr (.inl (hprune ▸ ihChildren h))
      · cases prune children with
        | nil => exact ihRest h
        | cons => exact .inr (.inr (ihRest h))
    · rw [if_neg hkind]
      exact h.imp id (Or.imp id ihRest)

/-! ## The removal -/

theorem follows_erase (herase : r.tools.erase i p = some (t, tools')) (h : Follows name r) :
    Follows name { relaxRemovedToolChoice t r with tools := tools' } := by
  rcases relaxRemovedToolChoice_cases t r with hrelax | hrelax
  · rw [hrelax]
    rcases h with ⟨hchoice, hname, hcalls⟩ | h
    · refine .inl ⟨hchoice, hname, (calls_of_erase herase hcalls).resolve_right fun hremoved => ?_⟩
      have hrelaxed := relaxChildren_of_calls hchoice hname hremoved
      rw [relaxRemovedToolChoice] at hrelax
      rw [relaxChildren, hrelax] at hrelaxed
      exact absurd (hchoice.symm.trans (congrArg Request.toolChoice hrelaxed)) nofun
    · exact .inr h
  · rw [hrelax]
    exact .inr ⟨.inl rfl, rfl⟩

/-- The removal of descending paths reads nothing out of bounds and removes what the paths led to at first. -/
theorem removePaths_spec (hleads : ∀ path ∈ paths, Leads r.tools path)
    (hpairwise : paths.Pairwise fun path later => Before later path) :
    ∃ r', removePaths paths r = some r' ∧ r'.tools = without paths r.tools ∧ r'.rest = r.rest ∧
      r'.hasParallelToolCalls = r.hasParallelToolCalls ∧ (paths = [] → r' = r) ∧ ∀ name, Follows name r →
        Follows name r' := by
  induction paths generalizing r with
  | nil => exact ⟨r, rfl, (Grove.without_nil _).symm, rfl, rfl, fun _ => rfl, fun _ h => h⟩
  | cons path paths ih =>
    obtain ⟨i, p, rfl, hsome⟩ := hleads path List.mem_cons_self
    obtain ⟨⟨tool, tools⟩, herase⟩ := Option.isSome_iff_exists.mp hsome
    rw [List.pairwise_cons] at hpairwise
    have hrest : (relaxRemovedToolChoice tool r).rest = r.rest ∧
        (relaxRemovedToolChoice tool r).hasParallelToolCalls = r.hasParallelToolCalls := by
      rcases relaxRemovedToolChoice_cases tool r with h | h <;> rw [h] <;> exact ⟨rfl, rfl⟩
    have hleads' : ∀ later ∈ paths, Leads tools later := by
      intro later hlater
      obtain ⟨j, q, rfl, hq⟩ := hleads later (List.mem_cons_of_mem _ hlater)
      exact ⟨j, q, rfl, Grove.isSome_erase herase hq (hpairwise.1 _ hlater)⟩
    obtain ⟨r', hremove, htools, hr, hparallel, -, hfollows⟩ :=
      ih (r := { relaxRemovedToolChoice tool r with tools := tools }) hleads' hpairwise.2
    refine ⟨r', ?_, ?_, hr.trans hrest.1, hparallel.trans hrest.2, nofun, fun name h =>
      hfollows name (follows_erase herase h)⟩
    · rw [removePaths, herase]
      exact hremove
    · rw [htools]
      exact (Grove.without_cons herase hpairwise.1).symm

theorem settle_spec (r : Request α β) :
    r.settle.tools = prune r.tools ∧ r.settle.rest = r.rest ∧ r.settle.mutated = true ∧
    ∀ name, Follows name r → Follows name r.settle := by
  rw [Request.settle]
  split_ifs with hempty
  · exact ⟨rfl, rfl, rfl, fun _ _ => .inr ⟨.inr rfl, rfl⟩⟩
  · exact ⟨rfl, rfl, rfl, fun _ h => h.imp (fun ⟨h, hname, hcalls⟩ => ⟨h, hname, calls_prune hcalls⟩) id⟩

/-- A patch is refused and leaves the request as it is, or the catalog loses exactly the tools that the
    original indices address and the namespaces that are then empty, and the choice follows. -/
theorem removeToolPaths_exact (r : Request α β) (patch : Option (List Path)) :
    removeToolPaths r patch = some (-1, r) ∨
      ∃ paths r', toolPathsValid r.tools patch = some paths ∧ removeToolPaths r patch = some ((paths.length : ℤ), r') ∧
        (paths = [] → r' = r) ∧ (paths ≠ [] → r'.tools = prune (without paths r.tools)) ∧ r'.rest = r.rest ∧
        ∀ name, r.toolChoice = .tool → r.toolChoiceName = some name → Calls name r.tools →
          r'.toolChoice = .tool ∧ r'.toolChoiceName = some name ∧ Calls name r'.tools ∨
            (r'.toolChoice = .auto ∨ r'.toolChoice = .unset) ∧ r'.toolChoiceName = none := by
  cases hvalid : toolPathsValid r.tools patch with
  | none => exact .inl (by rw [removeToolPaths, hvalid])
  | some paths =>
    have hspec : (∀ path ∈ paths, Leads r.tools path) ∧ paths.Pairwise (fun path later => Before later path) := by
      cases patch with
      | none => cases hvalid
      | some items =>
        rw [toolPathsValid] at hvalid
        split_ifs at hvalid
        exact ⟨(validPaths_spec hvalid).1, (validPaths_spec hvalid).2.1⟩
    obtain ⟨r', hremove, htools, hrest, -, hsame, hfollows⟩ := removePaths_spec hspec.1 hspec.2
    obtain ⟨hsettled, hsettledRest, -, hsettledFollows⟩ := settle_spec r'
    refine .inr ⟨paths, if paths = [] then r' else r'.settle, rfl, ?_, ?_, ?_, ?_, ?_⟩
    · rw [removeToolPaths, hvalid]
      simp only [hremove, Option.bind_eq_bind, Option.bind_some]
    · intro hnil
      rw [if_pos hnil, hsame hnil]
    · intro hne
      rw [if_neg hne, hsettled, htools]
    · split_ifs
      · exact hrest
      · exact hsettledRest.trans hrest
    · intro name hchoice hname hcalls
      have hstart : Follows name r := .inl ⟨hchoice, hname, hcalls⟩
      split_ifs
      · exact hfollows name hstart
      · exact hsettledFollows name (hfollows name hstart)

/-! ## A namespace that is emptied -/

def sampleTool (name : String) (kind : ToolKind) : ToolData Unit := ⟨some name, kind, ()⟩

/-- A namespace with one function, and a function beside it. -/
def sampleRequest : Request Unit Unit where
  tools := .cons (sampleTool "files" .namespace)
    (.cons (sampleTool "read" .function) .nil .nil) (.cons (sampleTool "run" .function) .nil .nil)
  toolChoice := .tool
  toolChoiceName := some "run"
  hasParallelToolCalls := false
  mutated := false
  rest := ()

/-- The path of the function leads through the namespace, and the namespace goes with it. -/
theorem removeToolPaths_emptied :
    (removeToolPaths sampleRequest (some [.array [.number 0, .number 0]])).map (fun x => (x.1, x.2.tools)) =
      some (1, .cons (sampleTool "run" .function) .nil .nil) ∧
    without [[0, 0]] sampleRequest.tools ≠ .cons (sampleTool "run" .function) .nil .nil := by
  decide +kernel

end Ir.ToolPaths
