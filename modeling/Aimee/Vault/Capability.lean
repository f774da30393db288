-- SUMMARY: The file of server-write grants: line scanning, rewrites, and the set it stands for while it is read in full.
import Aimee.Lib.Bytes
import Mathlib.Data.List.Induction

/-!
# Server-write grants

`vault_capability.c`. The file has one principal a line, and each change rewrites all of it from a read. A
lock is held over both. `Fate` says how the calls of the system went; the path is a fixed one, and
`cap_write_atomic` leaves the file as it was or puts the new one in its place.
-/

namespace VaultCapability

def newline : UInt8 := 10
def carriageReturn : UInt8 := 13

/-- `principal_valid`, of a principal that is not NULL. -/
def principalValid (p : CString) : Bool :=
  p ≠ .empty && p.val.length < 160 && !p.val.contains newline && !p.val.contains carriageReturn

/-- How `cap_read` goes on a file that exists. It fails where the file is not opened, its size not told or the
    buffer not allocated, and is short where `fread` returns less than the size. -/
inductive ReadFate where
  | whole
  | fails
  | short (n : ℕ)
  deriving DecidableEq

/-- `cap_path`, `cap_read`, the buffer of the new content, and `cap_write_atomic`. -/
structure Fate where
  path : Bool
  read : ReadFate
  alloc : Bool
  write : Bool

abbrev File := Option (List UInt8)

def capRead (fate : ReadFate) : File → Option CString
  | none => none
  | some bytes =>
    match fate with
    | .whole => some (.ofBytes bytes)
    | .fails => none
    | .short n => some (.ofBytes (bytes.take n))

/-- The lines the scans go through. Nothing behind a last newline is a line. -/
def lines : List UInt8 → List (List UInt8)
  | [] => []
  | b :: bs =>
    if b = newline then [] :: lines bs
    else
      match lines bs with
      | [] => [[b]]
      | l :: ls => (b :: l) :: ls

def lineMatch (buf : Option CString) (p : CString) : Bool :=
  match buf with
  | none => false
  | some buf => (lines buf.val).contains p.val

/-- The content with one line more. -/
def granted (buf : List UInt8) (p : CString) : List UInt8 :=
  buf ++ (if buf ≠ [] ∧ buf.getLast? ≠ some newline then [newline] else []) ++ p.val ++ [newline]

/-- The content without the lines of the principal, and without empty ones. -/
def revoked (buf : List UInt8) (p : CString) : List UInt8 :=
  ((lines buf).filter fun l => l ≠ p.val ∧ l ≠ []).flatMap fun l => l ++ [newline]

/-- `cap_write_atomic` of a content that was allocated. -/
def rewrite (fate : Fate) (content : List UInt8) (file : File) : Bool × File :=
  if fate.alloc ∧ fate.write then (true, some content) else (false, file)

/-- `vault_capability_grant` and `vault_capability_revoke`: whether they return 0, and the file. -/
def grant (fate : Fate) (p : CString) (file : File) : Bool × File :=
  if !principalValid p || !fate.path then (false, file)
  else
    let buf := capRead fate.read file
    if lineMatch buf p then (true, file)
    else rewrite fate (granted (buf.getD .empty).val p) file

def revoke (fate : Fate) (p : CString) (file : File) : Bool × File :=
  if !principalValid p || !fate.path then (false, file)
  else
    let buf := capRead fate.read file
    if !lineMatch buf p then (true, file)
    else rewrite fate (revoked (buf.getD .empty).val p) file

/-- `vault_capability_has`, from a file that is read in full. -/
def has (p : CString) (file : File) : Bool := principalValid p && lineMatch (capRead .whole file) p

inductive Op where
  | grant
  | revoke
  deriving DecidableEq

structure Step where
  op : Op
  principal : CString
  fate : Fate

def step (s : Step) (file : File) : Bool × File :=
  match s.op with
  | .grant => grant s.fate s.principal file
  | .revoke => revoke s.fate s.principal file

/-- The file after the steps, from none. -/
def run (steps : List Step) : File := steps.foldl (fun file s => (step s file).2) none

/-- The last step on the principal that returned 0. -/
def lastOp (p : CString) (steps : List Step) : Option Op :=
  (steps.foldl (fun (last : Option Op × File) s =>
    (if s.principal = p ∧ (step s last.2).1 then some s.op else last.1, (step s last.2).2)) (none, none)).1

/-! ## Lines -/

section

variable {bs cs : List UInt8} {p q : CString}

theorem lines_ne_nil (hbs : bs ≠ []) : lines bs ≠ [] := by
  cases bs with
  | nil => exact absurd rfl hbs
  | cons b bs =>
    rw [lines]
    split
    · exact List.cons_ne_nil _ _
    · split
      · exact List.cons_ne_nil _ _
      · exact List.cons_ne_nil _ _

theorem lines_append_newline (hbs : bs = [] ∨ bs.getLast? = some newline) :
    lines (bs ++ cs) = lines bs ++ lines cs := by
  induction bs with
  | nil => rfl
  | cons b bs ih =>
    have hlast : bs = [] → b = newline := by
      rintro rfl
      simpa using hbs
    have hrest : bs = [] ∨ bs.getLast? = some newline := by
      cases bs with
      | nil => exact .inl rfl
      | cons b' bs => exact .inr (by simpa using hbs)
    rw [List.cons_append, lines, lines, ih hrest]
    by_cases hb : b = newline
    · simp [hb]
    · simp only [hb, if_false]
      cases hlines : lines bs with
      | cons l ls => rfl
      | nil => exact absurd (hlast (by_contra fun hne => lines_ne_nil hne hlines)) hb

theorem lines_closed {l : List UInt8} (hl : newline ∉ l) : lines (l ++ newline :: cs) = l :: lines cs := by
  induction l with
  | nil => simp [lines]
  | cons b l ih =>
    obtain ⟨hb, hl⟩ := not_or.mp (mt List.mem_cons.mpr hl)
    rw [List.cons_append, lines, if_neg (Ne.symm hb), ih hl]

theorem newline_not_mem_lines {l : List UInt8} (h : l ∈ lines bs) : newline ∉ l := by
  induction bs generalizing l with
  | nil => cases h
  | cons b bs ih =>
    rw [lines] at h
    split at h
    case isTrue =>
      rcases List.mem_cons.mp h with rfl | h
      · exact List.not_mem_nil
      · exact ih h
    case isFalse hb =>
      split at h
      case h_1 =>
        obtain rfl := List.mem_singleton.mp h
        simpa using Ne.symm hb
      case h_2 l' ls heq =>
        have hl' : newline ∉ l' := ih (by rw [heq]; exact List.mem_cons_self)
        rcases List.mem_cons.mp h with rfl | h
        · exact fun hmem => (List.mem_cons.mp hmem).elim (fun heq => hb heq.symm) hl'
        · exact ih (by rw [heq]; exact List.mem_cons_of_mem _ h)

theorem lines_flatMap {ls : List (List UInt8)} (h : ∀ l ∈ ls, newline ∉ l) :
    lines (ls.flatMap fun l => l ++ [newline]) = ls := by
  induction ls with
  | nil => rfl
  | cons l ls ih =>
    obtain ⟨hl, hls⟩ := List.forall_mem_cons.mp h
    rw [List.flatMap_cons, List.append_assoc, List.singleton_append, lines_closed hl, ih hls]

theorem newline_not_mem_of_valid (h : principalValid p) : newline ∉ p.val := by
  simp only [principalValid, Bool.and_eq_true, Bool.not_eq_true'] at h
  exact fun hmem => Bool.false_ne_true (h.1.2.symm.trans (List.contains_iff_mem.mpr hmem))

theorem ne_nil_of_valid (h : principalValid p) : p.val ≠ [] := by
  simp only [principalValid, Bool.and_eq_true, decide_eq_true_eq] at h
  exact fun hnil => h.1.1.1 (Subtype.ext hnil)

/-- Closing a last line that is open does not change the lines. -/
theorem lines_separated (hne : bs ≠ []) (hlast : bs.getLast? ≠ some newline) :
    lines (bs ++ newline :: cs) = lines bs ++ lines cs := by
  induction bs with
  | nil => exact absurd rfl hne
  | cons b bs ih =>
    cases bs with
    | nil =>
      have hb : b ≠ newline := by simpa using hlast
      simp [lines, hb]
    | cons b' bs =>
      have hrest := ih (List.cons_ne_nil b' bs) (by simpa using hlast)
      rw [List.cons_append, lines, hrest]
      rw [lines.eq_def (b :: b' :: bs)]
      by_cases hb : b = newline
      · simp [hb]
      · simp only [hb, if_false]
        cases hlines : lines (b' :: bs) with
        | cons l ls => rfl
        | nil => exact absurd hlines (lines_ne_nil (List.cons_ne_nil b' bs))

theorem lines_granted (buf : List UInt8) (hp : principalValid p) : lines (granted buf p) = lines buf ++ [p.val] := by
  have hline : lines (p.val ++ [newline]) = [p.val] := lines_closed (newline_not_mem_of_valid hp)
  rw [granted, List.append_assoc, List.append_assoc]
  split
  case isTrue h => rw [List.singleton_append, lines_separated h.1 h.2, hline]
  case isFalse h =>
    have hclosed : buf = [] ∨ buf.getLast? = some newline := by
      by_contra hopen
      exact h (not_or.mp hopen)
    rw [List.nil_append, lines_append_newline hclosed, hline]

theorem lines_revoked (buf : List UInt8) (p : CString) :
    lines (revoked buf p) = (lines buf).filter fun l => l ≠ p.val ∧ l ≠ [] := by
  refine lines_flatMap fun l hl => ?_
  exact newline_not_mem_lines (List.mem_filter.mp hl).1

end

/-! ## One step -/

section

variable {file : File} {p q : CString} {s : Step} {pre : List Step}

/-- The grants that a read in full finds. -/
def grants (file : File) : List (List UInt8) := lines ((capRead .whole file).getD .empty).val

@[simp] theorem grants_none : grants none = [] := rfl

theorem grants_written {content : List UInt8} (h : (0 : UInt8) ∉ content) : grants (some content) = lines content := by
  simp [grants, capRead, CString.ofBytes_of_not_mem h]

theorem lineMatch_eq (file : File) (p : CString) :
    lineMatch (capRead .whole file) p = decide (p.val ∈ grants file) := by
  cases file with
  | none => rfl
  | some bytes => exact List.contains_eq_mem _ _

theorem has_eq (hp : principalValid p) (file : File) : has p file = decide (p.val ∈ grants file) := by
  rw [has, hp, Bool.true_and, lineMatch_eq]

/-- The step does not misread a file that exists. -/
def Reads (s : Step) (file : File) : Prop := file = none ∨ s.fate.read = .whole

theorem Reads.capRead_eq (h : Reads s file) : capRead s.fate.read file = capRead .whole file := by
  rcases h with rfl | h
  · rfl
  · rw [h]

theorem not_mem_granted (buf p : CString) : (0 : UInt8) ∉ granted buf.val p := by
  have hsep : (0 : UInt8) ∉ (if buf.val ≠ [] ∧ buf.val.getLast? ≠ some newline then [newline] else []) := by
    split
    · simp [newline]
    · exact List.not_mem_nil
  simp only [granted, List.mem_append, not_or]
  exact ⟨⟨⟨buf.property, hsep⟩, p.property⟩, by simp [newline]⟩

theorem mem_of_mem_lines {bs l : List UInt8} {b : UInt8} (hl : l ∈ lines bs) (hb : b ∈ l) : b ∈ bs := by
  induction bs generalizing l with
  | nil => cases hl
  | cons c bs ih =>
    rw [lines] at hl
    split at hl
    · rcases List.mem_cons.mp hl with rfl | hl
      · cases hb
      · exact List.mem_cons_of_mem _ (ih hl hb)
    · split at hl
      case h_1 =>
        obtain rfl := List.mem_singleton.mp hl
        obtain rfl := List.mem_singleton.mp hb
        exact List.mem_cons_self
      case h_2 l' ls heq =>
        rcases List.mem_cons.mp hl with rfl | hl
        · rcases List.mem_cons.mp hb with rfl | hb
          · exact List.mem_cons_self
          · exact List.mem_cons_of_mem _ (ih (heq ▸ List.mem_cons_self) hb)
        · exact List.mem_cons_of_mem _ (ih (heq ▸ List.mem_cons_of_mem _ hl) hb)

theorem not_mem_revoked (buf p : CString) : (0 : UInt8) ∉ revoked buf.val p := by
  intro hmem
  obtain ⟨l, hl, hb⟩ := List.mem_flatMap.mp hmem
  rcases List.mem_append.mp hb with hb | hb
  · exact buf.property (mem_of_mem_lines (List.mem_filter.mp hl).1 hb)
  · simp [newline] at hb

theorem grants_grant (hp : principalValid p) (fate : Fate) (hread : capRead fate.read file = capRead .whole file) :
    (grant fate p file).2 = file ∧ ((grant fate p file).1 → p.val ∈ grants file)
      ∨ (grant fate p file).1 = true ∧ grants (grant fate p file).2 = grants file ++ [p.val] := by
  unfold grant
  rw [hread, hp]
  simp only [Bool.not_true, Bool.false_or, rewrite, lineMatch_eq]
  split
  · exact .inl ⟨rfl, fun h => nomatch h⟩
  · split
    case isTrue hmem => exact .inl ⟨rfl, fun _ => of_decide_eq_true hmem⟩
    case isFalse =>
      split
      · refine .inr ⟨rfl, ?_⟩
        rw [grants_written (not_mem_granted _ p), lines_granted _ hp, grants]
      · exact .inl ⟨rfl, fun h => nomatch h⟩

theorem grants_revoke (hp : principalValid p) (fate : Fate) (hread : capRead fate.read file = capRead .whole file) :
    (revoke fate p file).2 = file ∧ ((revoke fate p file).1 → p.val ∉ grants file)
      ∨ (revoke fate p file).1 = true ∧ grants (revoke fate p file).2 = (grants file).filter fun l =>
        l ≠ p.val ∧ l ≠ [] := by
  unfold revoke
  rw [hread, hp]
  simp only [Bool.not_true, Bool.false_or, rewrite, lineMatch_eq]
  split
  · exact .inl ⟨rfl, fun h => nomatch h⟩
  · split
    case isTrue hmem => exact .inl ⟨rfl, fun _ => by simpa using hmem⟩
    case isFalse =>
      split
      · refine .inr ⟨rfl, ?_⟩
        rw [grants_written (not_mem_revoked _ p), lines_revoked, grants]
      · exact .inl ⟨rfl, fun h => nomatch h⟩

/-- A step that returns 0 settles its principal, and no step settles another. -/
theorem has_step (hs : principalValid s.principal) (hq : principalValid q) (hread : Reads s file) :
    has q (step s file).2 = if s.principal = q ∧ (step s file).1 then decide (s.op = .grant) else has q file := by
  have hne : q.val ≠ [] := ne_nil_of_valid hq
  have hval : q.val = s.principal.val ↔ s.principal = q := by rw [eq_comm, Subtype.ext_iff]
  simp only [has_eq hq, step]
  cases hop : s.op with
  | grant =>
    rcases grants_grant hs s.fate hread.capRead_eq with ⟨hfile, hmem⟩ | ⟨hok, hgrants⟩
    · simp only [hfile, decide_true]
      split
      case isTrue h => exact decide_eq_true (h.1 ▸ hmem h.2)
      case isFalse => rfl
    · simp only [hok, hgrants, List.mem_append, List.mem_singleton, hval, and_true, decide_true]
      split
      case isTrue h => simp [h]
      case isFalse h => simp [h]
  | revoke =>
    rcases grants_revoke hs s.fate hread.capRead_eq with ⟨hfile, hmem⟩ | ⟨hok, hgrants⟩
    · simp only [hfile]
      split
      case isTrue h => simpa using h.1 ▸ hmem h.2
      case isFalse => rfl
    · simp only [hok, hgrants, List.mem_filter, ne_eq, hval, and_true]
      split
      case isTrue h => simp [h]
      case isFalse h => simp [h, hne]

end

/-! ## Runs -/

section

variable {steps pre : List Step} {s : Step} {p q : CString}

theorem run_snoc (pre : List Step) (s : Step) : run (pre ++ [s]) = (step s (run pre)).2 := by
  rw [run, List.foldl_append]
  rfl

theorem lastOp_file (p : CString) (steps : List Step) :
    (steps.foldl (fun (last : Option Op × File) s =>
      (if s.principal = p ∧ (step s last.2).1 then some s.op else last.1, (step s last.2).2))
        (none, none)).2 = run steps := by
  induction steps using List.reverseRecOn with
  | nil => rfl
  | append_singleton pre s ih =>
    rw [List.foldl_append, run_snoc, ← ih]
    rfl

theorem lastOp_snoc (p : CString) (pre : List Step) (s : Step) :
    lastOp p (pre ++ [s]) = if s.principal = p ∧ (step s (run pre)).1 then some s.op else lastOp p pre := by
  rw [lastOp, List.foldl_append, ← lastOp_file p pre]
  rfl

/-- Steps on valid principals, none of which misreads a file that exists. -/
def Sound (steps : List Step) : Prop := ∀ pre s post, steps = pre ++ s :: post →
    principalValid s.principal ∧ Reads s (run pre)

theorem Sound.init (h : Sound (pre ++ [s])) : Sound pre := fun pre' s' post heq =>
  h pre' s' (post ++ [s]) (by rw [heq, List.append_assoc, List.cons_append])

/-- The file is the set that the steps make, and a step on one principal leaves every other one as it was. -/
def IsSet (steps : List Step) : Prop :=
  (∀ p, principalValid p → (has p (run steps) = true ↔ lastOp p steps = some .grant))
    ∧ ∀ pre s post, steps = pre ++ s :: post → ∀ q, q ≠ s.principal → has q (run (pre ++ [s])) = has q (run pre)

theorem isSet_of_sound (hsound : Sound steps) : IsSet steps := by
  constructor
  · intro p hp
    induction steps using List.reverseRecOn with
    | nil => simp [has_eq hp, run, lastOp]
    | append_singleton pre s ih =>
      obtain ⟨hvalid, hread⟩ := hsound pre s [] rfl
      rw [run_snoc, lastOp_snoc, has_step hvalid hp hread]
      split
      · simp
      · exact ih hsound.init
  · intro pre s post heq q hq
    obtain ⟨hvalid, hread⟩ := hsound pre s post heq
    rw [run_snoc]
    cases hqv : principalValid q with
    | false => simp [has, hqv]
    | true => rw [has_step hvalid hqv hread, if_neg fun h => hq h.1.symm]

def sampleGrant (p : String) (read : ReadFate) : Step := ⟨.grant, .ofAscii p, ⟨true, read, true, true⟩⟩

/-- Two grants, and the first of them revoked. -/
def sampleGrants : List Step :=
  [sampleGrant "uid:1000" .whole, sampleGrant "uid:1001" .whole, { sampleGrant "uid:1000" .whole with op := .revoke }]

theorem isSet_sampleGrants : IsSet sampleGrants := by
  refine isSet_of_sound fun pre s post heq => ?_
  have hmem : s ∈ sampleGrants := by
    rw [heq]
    exact List.mem_append_cons_self
  simp only [sampleGrants, List.mem_cons, List.not_mem_nil, or_false] at hmem
  rcases hmem with rfl | rfl | rfl <;> exact ⟨by decide, .inr rfl⟩

/-- A file that cannot be read is taken for none, and the grants in it are lost to the next. -/
theorem not_isSet_unread :
    ¬∀ steps : List Step, (∀ s ∈ steps, principalValid s.principal) → IsSet steps := by
  intro h
  have hset := h [sampleGrant "uid:1000" .whole, sampleGrant "uid:1001" .fails] (by decide)
  have hlost := hset.2 [sampleGrant "uid:1000" .whole] (sampleGrant "uid:1001" .fails) [] rfl
    (.ofAscii "uid:1000") (by decide)
  revert hlost
  decide

end

end VaultCapability
