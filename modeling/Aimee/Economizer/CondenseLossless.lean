-- SUMMARY: A condensed output is shorter, keeps every signal line, counts what it leaves out, and can be taken back.
import Aimee.Economizer.Condense
import Aimee.Lib.Lines

/-!
# Lossless on demand

What a condensed text owes to the output it stands for. The filter is seen as a mask over the lines;
its text is what the mask keeps, with one marker for each maximal run between, and the store holds
the whole output under the reference at its end.
-/

namespace Economizer

open Wire (decimal)

variable {fam : TCFamily} {lines : List Text} {raw : Text}

/-! ## Lines -/

/-- The text is one line. -/
def OneLine (s : Text) : Prop := (10 : UInt8) ∉ s

instance (s : Text) : Decidable (OneLine s) := inferInstanceAs (Decidable ((10 : UInt8) ∉ s))

variable {s line cond ref : Text}

theorem OneLine.append {t : Text} (hs : OneLine s) (ht : OneLine t) : OneLine (s ++ t) := by
  intro h
  rcases List.mem_append.mp h with h | h
  · exact hs h
  · exact ht h

theorem oneLine_decimal (n : ℕ) : OneLine (decimal n) := by
  intro h
  have hdigit := Wire.mem_decimal h
  exact absurd hdigit.1 (by decide)

theorem oneLine_of_mem_splitLines (h : line ∈ splitLines s) : OneLine line := Lines.notMem_of_mem_splitOn h

theorem splitLines_joinLines (hne : lines ≠ []) (h : ∀ l ∈ lines, OneLine l) : splitLines (joinLines lines) = lines :=
  List.splitOn_intercalate 10 h hne

theorem joinLines_concat (hne : lines ≠ []) (l : Text) : joinLines (lines ++ [l]) = joinLines lines ++ 10 :: l := by
  induction lines with
  | nil => contradiction
  | cons a lines ih =>
    cases lines with
    | nil => simp [joinLines, List.intercalate_cons_cons]
    | cons b lines =>
      have ih := ih (List.cons_ne_nil b lines)
      simp only [joinLines, List.cons_append, List.intercalate_cons_cons] at ih ⊢
      rw [ih, ← List.append_assoc]

/-! ## The mask -/

/-- A line is kept for itself: it stands at an end, or holds a keep signal. -/
def KeptAlone (fam : TCFamily) (n i : ℕ) (line : Text) : Prop :=
  i < fam.head ∨ n ≤ i + fam.tail ∨ lineHasAny line fam.keepSigs = true

/-- Line `j` is near line `i`. -/
def Near (fam : TCFamily) (i j : ℕ) : Prop := i ≤ j + fam.ctxBefore ∧ j ≤ i + fam.ctxAfter

/-- What line `i` has to say about line `j`. -/
def Keeps (fam : TCFamily) (n i : ℕ) (line : Text) (j : ℕ) : Prop :=
  KeptAlone fam n i line ∧ i = j ∨ lineHasAny line fam.failSigs = true ∧ Near fam i j

theorem length_markLine (n : ℕ) (keep : List Bool) (i : ℕ) (line : Text) :
    (markLine fam n keep i line).length = keep.length := by
  rw [markLine]
  split_ifs <;> simp

variable {j n : ℕ}

theorem getElem?_markLine {keep : List Bool} {i : ℕ} (hn : keep.length = n) (hi : i < n)
    (hj : j < n) :
    (markLine fam n keep i line)[j]? = some true ↔ Keeps fam n i line j ∨ keep[j]? = some true := by
  have halone : (if i < fam.head ∨ n ≤ i + fam.tail ∨ lineHasAny line fam.keepSigs = true then keep.set i true
      else keep)[j]? = some true ↔ KeptAlone fam n i line ∧ i = j ∨ keep[j]? = some true := by
    rw [KeptAlone]
    by_cases h : i < fam.head ∨ n ≤ i + fam.tail ∨ lineHasAny line fam.keepSigs = true
    · rw [if_pos h]
      by_cases hij : i = j
      · subst hij
        simp [h, hn, hi]
      · simp [hij]
    · simp [h]
  rw [markLine, Keeps, or_assoc]
  by_cases hfail : lineHasAny line fam.failSigs = true
  · have hlen : (if i < fam.head ∨ n ≤ i + fam.tail ∨ lineHasAny line fam.keepSigs = true then keep.set i true
        else keep).length = n := by split_ifs <;> simp [hn]
    have hnear : i - fam.ctxBefore ≤ j ∧ j ≤ min (i + fam.ctxAfter) (n - 1) ↔ Near fam i j := by
      rw [Near]
      omega
    rw [if_pos hfail, Elision.getElem?_mark (by omega), hnear, halone]
    simp only [hfail, true_and]
    exact or_left_comm
  · rw [if_neg hfail, halone]
    simp [hfail]

/-- A line is kept for itself, or near a failure. -/
theorem getElem?_keepMask (hj : j < lines.length) :
    (keepMask fam lines).length = lines.length ∧
      ((keepMask fam lines)[j]? = some true ↔
        ∃ i line, lines[i]? = some line ∧ Keeps fam lines.length i line j) := by
  -- over the lines that have been looked at
  have hfold : ∀ (ps : List (Text × ℕ)) (keep : List Bool), keep.length = lines.length →
      (∀ p ∈ ps, p.2 < lines.length) →
      (ps.foldl (fun keep p => markLine fam lines.length keep p.2 p.1) keep).length = lines.length ∧
        ((ps.foldl (fun keep p => markLine fam lines.length keep p.2 p.1) keep)[j]? = some true ↔
          (∃ p ∈ ps, Keeps fam lines.length p.2 p.1 j) ∨ keep[j]? = some true) := by
    intro ps
    induction ps with
    | nil => exact fun keep hkeep _ => ⟨hkeep, by simp⟩
    | cons p ps ih =>
      intro keep hkeep hps
      obtain ⟨hp, hrest⟩ := List.forall_mem_cons.mp hps
      have ih := ih (markLine fam lines.length keep p.2 p.1) (by rw [length_markLine, hkeep]) hrest
      refine ⟨ih.1, ih.2.trans ?_⟩
      simp only [List.mem_cons, exists_eq_or_imp]
      rw [getElem?_markLine hkeep hp hj, or_assoc, or_left_comm]
  have hall := hfold lines.zipIdx (List.replicate lines.length false) List.length_replicate fun p hp => by
    simpa using List.snd_lt_of_mem_zipIdx hp
  refine ⟨hall.1, hall.2.trans ?_⟩
  rw [List.getElem?_replicate, if_pos hj]
  constructor
  · rintro (⟨⟨line, i⟩, hmem, hkept⟩ | hfalse)
    · exact ⟨i, line, List.mem_zipIdx_iff_getElem?.mp hmem, hkept⟩
    · exact absurd hfalse (by decide)
  · rintro ⟨i, line, hmem, hkept⟩
    exact .inl ⟨(line, i), List.mem_zipIdx_iff_getElem?.mpr hmem, hkept⟩

theorem length_keepMask (fam : TCFamily) (lines : List Text) : (keepMask fam lines).length = lines.length := by
  cases lines with
  | nil => rfl
  | cons l rest =>
    have hpos : 0 < (l :: rest).length := Nat.succ_pos _
    exact (getElem?_keepMask hpos).1

/-! ## What has to stay -/

/-- Line `j` holds a signal of the family, or stands in the window of a line with one of the signals
    that bring their context. -/
def needed (around : List Text) (fam : TCFamily) (lines : List Text) (j : ℕ) : Bool :=
  lines[j]?.any (fun line => lineHasAny line (fam.failSigs ++ fam.keepSigs)) ||
    lines.zipIdx.any fun p => lineHasAny p.1 around && p.2 ≤ j + fam.ctxBefore && j ≤ p.2 + fam.ctxAfter

def neededMask (around : List Text) (fam : TCFamily) (lines : List Text) : List Bool :=
  (List.range lines.length).map (needed around fam lines)

/-- The lines of an output that have to stay, in their order. -/
def neededLines (around : List Text) (fam : TCFamily) (raw : Text) : List Text :=
  Elision.picked (neededMask around fam (splitLines raw)) (splitLines raw)

theorem lineHasAny_append (line : Text) (a b : List Text) :
    lineHasAny line (a ++ b) = (lineHasAny line a || lineHasAny line b) := List.any_append

theorem keepMask_of_needed (hj : j < lines.length) (h : needed fam.failSigs fam lines j = true) :
    (keepMask fam lines)[j]? = some true := by
  refine (getElem?_keepMask hj).2.mpr ?_
  rw [needed, Bool.or_eq_true, Option.any_eq_true, List.any_eq_true] at h
  rcases h with ⟨line, hline, hsig⟩ | ⟨⟨line, i⟩, hmem, hnear⟩
  · refine ⟨j, line, hline, ?_⟩
    rw [lineHasAny_append, Bool.or_eq_true] at hsig
    rcases hsig with hfail | hkeep
    · exact .inr ⟨hfail, by rw [Near]; omega⟩
    · exact .inl ⟨.inr (.inr hkeep), rfl⟩
  · simp only [Bool.and_eq_true, decide_eq_true_eq] at hnear
    exact ⟨i, line, List.mem_zipIdx_iff_getElem?.mp hmem, .inr ⟨hnear.1.1, hnear.1.2, hnear.2⟩⟩

theorem neededMask_le (h : (neededMask fam.failSigs fam lines)[j]? = some true) :
    (keepMask fam lines)[j]? = some true := by
  rw [neededMask, List.getElem?_map, Option.map_eq_some_iff] at h
  obtain ⟨i, hi, hneeded⟩ := h
  obtain ⟨hlt, rfl⟩ := List.getElem?_eq_some_iff.mp hi
  rw [List.getElem_range] at hneeded
  exact keepMask_of_needed (by simpa using hlt) hneeded

/-! ## The filter -/

/-- The pieces of an output. -/
def outputPieces (fam : TCFamily) (lines : List Text) : List (Elision.Piece Text) :=
  Elision.cut (lines.zip (keepMask fam lines)) []

/-- The lines of a condensed output. -/
def shownLines (fam : TCFamily) (lines : List Text) : List Text :=
  (outputPieces fam lines).map (Elision.Piece.shown elisionMarker)

theorem cuts_outputPieces (fam : TCFamily) (lines : List Text) :
    Elision.Cuts (keepMask fam lines) lines (outputPieces fam lines) :=
  Elision.cuts_cut (length_keepMask fam lines)

theorem shownLines_ne_nil (h : lines ≠ []) : shownLines fam lines ≠ [] := by
  intro hnil
  have hpieces := (cuts_outputPieces fam lines).items_eq
  rw [List.map_eq_nil_iff.mp hnil] at hpieces
  exact h hpieces.symm

theorem oneLine_elisionMarker (n : ℕ) : OneLine (elisionMarker n) :=
  OneLine.append (.append (by decide) (oneLine_decimal n)) (by decide)

theorem oneLine_of_mem_shownLines {l : Text} (hlines : ∀ l ∈ lines, OneLine l)
    (h : l ∈ shownLines fam lines) : OneLine l := by
  obtain ⟨piece, hpiece, rfl⟩ := List.mem_map.mp h
  cases piece with
  | kept line =>
    have hmem : line ∈ (outputPieces fam lines).flatMap Elision.Piece.items :=
      List.mem_flatMap.mpr ⟨.kept line, hpiece, List.mem_singleton_self line⟩
    rw [(cuts_outputPieces fam lines).items_eq] at hmem
    exact hlines line hmem
  | elided run => exact oneLine_elisionMarker run.length

theorem tcSignalFilter_eq_some {exitCode : ℤ} (h : tcSignalFilter fam exitCode raw = some cond) :
    ¬ (fam.requireFailNonzero = true ∧ exitCode ≠ 0 ∧ ∀ l ∈ splitLines raw, lineHasAny l fam.failSigs = false) ∧
      cond = joinLines (shownLines fam (splitLines raw)) := by
  simp only [tcSignalFilter] at h
  split_ifs at h with hdeclined
  refine ⟨fun hquiet => hdeclined ⟨hquiet.1, hquiet.2.1, ?_⟩, ?_⟩
  · rw [Bool.not_eq_true', List.any_eq_false]
    exact fun l hl => by rw [hquiet.2.2 l hl]; exact Bool.false_ne_true
  · rw [shownLines, outputPieces, ← Elision.collapse_eq]
    exact (Option.some.inj h).symm

/-! ## References and the line that holds one -/

theorem hexByte_range (n : ℕ) :
    (48 ≤ hexByte n ∧ hexByte n ≤ 57 ∨ 97 ≤ hexByte n ∧ hexByte n ≤ 102) ∧ hexByte n ≠ 10 := by
  have h : ∀ k < 16, (48 ≤ hexByte k ∧ hexByte k ≤ 57 ∨ 97 ≤ hexByte k ∧ hexByte k ≤ 102) ∧ hexByte k ≠ 10 := by decide
  have hmod : hexByte n = hexByte (n % 16) := by rw [hexByte, hexByte, Nat.mod_mod]
  rw [hmod]
  exact h _ (Nat.mod_lt n (by decide))

theorem tcHashRef_eq (seed content : Text) : ∃ h, tcHashRef seed content = utf8 "tc-" ++ hex16 h := ⟨_, rfl⟩

theorem length_tcHashRef (seed content : Text) : (tcHashRef seed content).length = 19 := by
  rfl

/-- A reference that is handed out is one that a recall accepts. -/
theorem tcRefValid_tcHashRef (seed content : Text) : tcRefValid (tcHashRef seed content) = true := by
  obtain ⟨h, heq⟩ := tcHashRef_eq seed content
  have hdrop : (utf8 "tc-" ++ hex16 h).drop 3 = hex16 h := rfl
  have hall : (hex16 h).all (fun c => 48 ≤ c && c ≤ 57 || 97 ≤ c && c ≤ 102) = true := by
    rw [List.all_eq_true]
    intro c hc
    obtain ⟨i, -, rfl⟩ := List.mem_map.mp hc
    simpa using (hexByte_range (h.toNat / 16 ^ (15 - i))).1
  rw [tcRefValid, heq, hdrop]
  simp only [hall, Bool.and_true, Bool.and_eq_true, decide_eq_true_eq]
  refine ⟨List.isPrefixOf_iff_prefix.mpr (List.prefix_append _ _), ?_⟩
  rw [hex16, List.length_map, List.length_range]

theorem oneLine_tcHashRef (seed content : Text) : OneLine (tcHashRef seed content) := by
  refine OneLine.append (by decide) fun hmem => ?_
  obtain ⟨i, -, hi⟩ := List.mem_map.mp hmem
  exact (hexByte_range _).2 hi

theorem oneLine_recoveryPointer (n : ℕ) (h : OneLine ref) : OneLine (recoveryPointer n ref) := by
  refine .append (.append (.append (.append ?_ (oneLine_decimal n)) ?_) h) ?_ <;> decide

theorem length_decimal_le (h : n < 10 ^ 7) : (decimal n).length ≤ 7 := by
  rw [decimal, List.length_map]
  exact (Nat.length_toDigits_le_iff (by decide) (by decide)).mpr h

/-- What is added to a condensed output is less than what the gate has made sure of. -/
theorem length_recoveryPointer_lt (hn : n ≤ tcCeiling) (href : ref.length = 19) :
    (recoveryPointer n ref).length + 1 < 200 := by
  have hdigits := length_decimal_le (n := n) (by rw [tcCeiling] at hn; omega)
  have hlead : (utf8 "[output condensed by aimee — ").length = 31 := by decide
  have hmid : (utf8 " bytes total; retrieve the full, unfiltered output with the tool_output_get tool, ref \"").length =
    87 := by decide
  have hend : (utf8 "\", if you need a passing case or elided detail]").length = 47 := by decide
  rw [recoveryPointer, List.length_append, List.length_append, List.length_append, List.length_append, hlead, hmid,
    hend, href]
  omega

/-! ## The spill store -/

variable {os : SpillOs} {cmdline spillDir body : Text} {exitCode : ℤ} {st st' : TCState} {stats : TCStats}

theorem file_put (dir : SpillDir) (name content : Text) (mtime : ℤ) :
    (dir.put name content mtime).file name =
      some { name := name, content := content, mtime := mtime, regular := true } := by
  rw [SpillDir.file, SpillDir.put, List.find?_cons, decide_eq_true rfl]

/-- A write that has landed leaves the content under its reference, whatever was there before. -/
theorem file_tcSpillWrite {dir dir' : SpillDir} {content : Text}
    (h : tcSpillWrite os dir ref content = (true, dir')) :
    dir'.file (ref ++ outSuffix) =
      some { name := ref ++ outSuffix, content := content, mtime := os.now, regular := true } := by
  simp only [tcSpillWrite] at h
  by_cases hopen : (!os.opensTemp) = true
  · rw [if_pos hopen] at h
    cases h
  rw [if_neg hopen] at h
  cases hshort : os.shortWrite with
  | some k =>
    rw [hshort] at h
    cases h
  | none =>
    simp only [hshort] at h
    by_cases hlost : (!os.syncs || !os.closes || !os.renames) = true
    · rw [if_pos hlost] at h
      cases h
    · rw [if_neg hlost] at h
      rw [← (Prod.mk.inj h).2]
      exact file_put _ _ _ _

/-- What a recall gives back is what stands under the reference. -/
theorem tcRecall_eq {f : SpillFile} (hdir : spillDir ≠ []) (href : tcRefValid ref = true)
    (hfile : st.dir.file (ref ++ outSuffix) = some f) (hregular : f.regular = true)
    (hlen : f.content.length ≤ tcCeiling) : (tcRecall true spillDir ref st).1 = some f.content := by
  rw [tcRecall, if_neg (by simp [hdir, href]), hfile]
  dsimp only
  rw [if_neg (by simp [hregular, hlen])]

/-! ## The entry point -/

/-- What is known when an output was condensed. -/
structure Applied (os : SpillOs) (cmdline : Text) (exitCode : ℤ) (raw spillDir : Text) (body : Text) (stats : TCStats)
    (st' : TCState) (fam : TCFamily) (cond : Text) : Prop where
  chosen : tcFamily (tcRecognize cmdline) = some fam
  filtered : tcSignalFilter fam exitCode raw = some cond
  within : raw.length ≤ tcCeiling
  gain : cond.length + 200 ≤ raw.length
  store : spillDir ≠ []
  final : body = cond ++ utf8 "\n" ++ recoveryPointer raw.length (tcHashRef cmdline raw)
  ref : stats.spillRef = tcHashRef cmdline raw
  family : stats.family = fam.name
  written : st'.dir.file (stats.spillRef ++ outSuffix) =
    some { name := stats.spillRef ++ outSuffix, content := raw, mtime := os.now, regular := true }

theorem applied_of_tcApply (h : tcApply os cmdline exitCode raw spillDir st = (some body, stats, st')) :
    ∃ fam cond, Applied os cmdline exitCode raw spillDir body stats st' fam cond := by
  simp only [tcApply] at h
  by_cases hsize : raw = [] ∨ tcCeiling < raw.length
  · rw [if_pos hsize] at h
    cases h
  by_cases hreco : (tcRecognize cmdline).outcome ≠ .recognized
  · rw [if_neg hsize, if_pos hreco] at h
    cases h
  rw [if_neg hsize, if_neg hreco] at h
  rw [not_or, not_lt] at hsize
  cases hfilter : (tcFamily (tcRecognize cmdline)).bind fun fam =>
      (tcSignalFilter fam exitCode raw).map fun cond => (fam, cond) with
  | none =>
    rw [hfilter] at h
    cases h
  | some p =>
    obtain ⟨fam, hfam, hmap⟩ := Option.bind_eq_some_iff.mp hfilter
    obtain ⟨cond, hcond, rfl⟩ := Option.map_eq_some_iff.mp hmap
    simp only [hfilter] at h
    by_cases hgain : raw.length < cond.length + 200 ∨ raw.length * 85 < cond.length * 100
    · rw [if_pos hgain] at h
      cases h
    by_cases hdir : spillDir = []
    · rw [if_neg hgain, if_pos hdir] at h
      cases h
    rw [if_neg hgain, if_neg hdir] at h
    cases hwrite : tcSpillWrite os (tcSpillEvict os st.dir tcSpillMaxBytes) (tcHashRef cmdline raw) raw with
    | mk landed dir =>
      cases landed with
      | false =>
        simp only [hwrite] at h
        cases h
      | true =>
        simp only [hwrite, Prod.mk.injEq, Option.some.injEq] at h
        obtain ⟨rfl, rfl, rfl⟩ := h
        exact ⟨fam, cond, hfam, hcond, hsize.2, by omega, hdir, rfl, rfl, rfl, file_tcSpillWrite hwrite⟩

theorem requireFailNonzero_tcFamily {r : TCRecoResult} (h : tcFamily r = some fam) : fam.requireFailNonzero = true := by
  rw [tcFamily] at h
  split_ifs at h <;> cases h <;> rfl

/-- What a condensed text owes to the output it stands for. -/
structure Lossless (around : List Text) (fam : TCFamily) (raw ref body : Text) : Prop where
  /-- It is shorter. -/
  shorter : body.length < raw.length
  /-- The lines that have to stay are lines of it, in their order. -/
  verbatim : (neededLines around fam raw).Sublist (splitLines body)
  /-- Its lines are kept lines and markers of maximal runs, and last the way back; a line that has to
      stay is in no run. -/
  markers : ∃ mask pieces, Elision.Cuts mask (splitLines raw) pieces ∧
    (∀ j < (splitLines raw).length, needed around fam (splitLines raw) j = true → mask[j]? = some true) ∧
    splitLines body = pieces.map (Elision.Piece.shown elisionMarker) ++ [recoveryPointer raw.length ref]

section

variable (h : Applied os cmdline exitCode raw spillDir body stats st' fam cond)
include h

theorem Applied.splitLines_body :
    splitLines body = shownLines fam (splitLines raw) ++ [recoveryPointer raw.length stats.spillRef] := by
  have hlines : ∀ l ∈ splitLines raw, OneLine l := fun l => oneLine_of_mem_splitLines
  have hne : shownLines fam (splitLines raw) ≠ [] := shownLines_ne_nil (List.splitOn_ne_nil 10 raw)
  have hbody : body = joinLines (shownLines fam (splitLines raw) ++ [recoveryPointer raw.length stats.spillRef]) := by
    rw [joinLines_concat hne, ← (tcSignalFilter_eq_some h.filtered).2, h.final, h.ref, List.append_assoc]
    rfl
  rw [hbody]
  refine splitLines_joinLines (by simp) fun l hl => ?_
  rcases List.mem_append.mp hl with hl | hl
  · exact oneLine_of_mem_shownLines hlines hl
  · rw [List.mem_singleton.mp hl, h.ref]
    exact oneLine_recoveryPointer _ (oneLine_tcHashRef _ _)

theorem Applied.lossless :
    Lossless fam.failSigs fam raw stats.spillRef body where
  shorter := by
    have hpointer := length_recoveryPointer_lt h.within (length_tcHashRef cmdline raw)
    have hgain := h.gain
    have hnl : (utf8 "\n").length = 1 := rfl
    rw [h.final, List.length_append, List.length_append]
    omega
  verbatim := by
    rw [h.splitLines_body]
    have hmask : (neededMask fam.failSigs fam (splitLines raw)).length = (keepMask fam (splitLines raw)).length := by
      rw [length_keepMask, neededMask, List.length_map, List.length_range]
    have hkept : (neededLines fam.failSigs fam raw).Sublist
        (Elision.picked (keepMask fam (splitLines raw)) (splitLines raw)) :=
      Elision.picked_sublist hmask fun _ => neededMask_le
    exact (hkept.trans (cuts_outputPieces fam _).picked_sublist).trans (List.sublist_append_left _ _)
  markers := ⟨keepMask fam (splitLines raw), outputPieces fam (splitLines raw), cuts_outputPieces fam _,
    fun _ hj hneeded => keepMask_of_needed hj hneeded, h.splitLines_body⟩

theorem Applied.fails :
    exitCode = 0 ∨ ∃ l ∈ splitLines raw, lineHasAny l fam.failSigs = true := by
  by_contra hquiet
  rw [not_or] at hquiet
  refine (tcSignalFilter_eq_some h.filtered).1 ⟨requireFailNonzero_tcFamily h.chosen, hquiet.1, fun l hl => ?_⟩
  exact Bool.eq_false_iff.mpr fun hfail => hquiet.2 ⟨l, hl, hfail⟩

theorem Applied.recall :
    (tcRecall true spillDir stats.spillRef st').1 = some raw := by
  have hvalid : tcRefValid stats.spillRef = true := by
    rw [h.ref]
    exact tcRefValid_tcHashRef _ _
  rw [tcRecall_eq h.store hvalid h.written rfl h.within]

end

/-- A condensed output is shorter than the raw one and keeps its signal lines and the windows around
    failures; its markers are exact; the raw output is what its reference gives back; and an exit code
    other than zero without a failure line is not condensed. -/
theorem tcApply_lossless (h : tcApply os cmdline exitCode raw spillDir st = (some body, stats, st')) :
    ∃ fam, tcFamily (tcRecognize cmdline) = some fam ∧ stats.family = fam.name ∧
      Lossless fam.failSigs fam raw stats.spillRef body ∧
      (tcRecall true spillDir stats.spillRef st').1 = some raw ∧
      (exitCode = 0 ∨ ∃ l ∈ splitLines raw, lineHasAny l fam.failSigs = true) := by
  obtain ⟨fam, cond, happlied⟩ := applied_of_tcApply h
  exact ⟨fam, happlied.chosen, happlied.family, happlied.lossless, happlied.recall, happlied.fails⟩

/-! ## A failed test run -/

def sampleOs : SpillOs where
  pid := 7
  now := 0
  lists := true
  stats _ := true
  removes _ := true
  opensTemp := true
  shortWrite := none
  syncs := true
  closes := true
  renames := true

def sampleLong : Text := List.replicate 230 120

/-- A long line between a warning and the window of a failure. -/
def sampleOutput : Text :=
  joinLines [utf8 "a", utf8 "b", utf8 "1 warning", sampleLong, utf8 "c", utf8 "d", utf8 "e", utf8 "FAIL t", utf8 "f",
    utf8 "done"]

def emptyStore : TCState where
  dir := []
  totals :=
    { recognized := 0, applied := 0, appliedRaw := 0, appliedFinal := 0, familyTest := 0,
      familyDiag := 0, recovered := 0
      recoveredBytes := 0 }

def sampleRun : Option Text × TCStats × TCState :=
  tcApply sampleOs (utf8 "pytest -q") 1 sampleOutput (utf8 "/s") emptyStore

def sampleBody : Text := sampleRun.1.getD []

theorem sampleBody_eq : sampleRun.1 = some sampleBody := by
  have hsome : sampleRun.1.isSome = true := by decide +kernel
  rw [sampleBody]
  cases h : sampleRun.1 with
  | none => rw [h] at hsome; cases hsome
  | some body => rfl

theorem sampleRun_eq : tcApply sampleOs (utf8 "pytest -q") 1 sampleOutput (utf8 "/s") emptyStore =
    (some sampleBody, sampleRun.2.1, sampleRun.2.2) := by
  rw [← sampleBody_eq, ← sampleRun]

theorem tcFamily_sample : tcFamily (tcRecognize (utf8 "pytest -q")) = some tcFamilyTestRunner := rfl

theorem tcApply_lossless_sample : ∃ fam, tcFamily (tcRecognize (utf8 "pytest -q")) = some fam ∧
    sampleRun.2.1.family = fam.name ∧ Lossless fam.failSigs fam sampleOutput sampleRun.2.1.spillRef sampleBody ∧
    (tcRecall true (utf8 "/s") sampleRun.2.1.spillRef sampleRun.2.2).1 = some sampleOutput ∧
    ((1 : ℤ) = 0 ∨ ∃ l ∈ splitLines sampleOutput, lineHasAny l fam.failSigs = true) :=
  tcApply_lossless sampleRun_eq

theorem sampleLong_notMem_sampleBody : sampleLong ∉ splitLines sampleBody := by
  obtain ⟨fam, cond, happlied⟩ := applied_of_tcApply sampleRun_eq
  have hfam : tcFamilyTestRunner = fam := Option.some.inj (tcFamily_sample.symm.trans happlied.chosen)
  rw [happlied.splitLines_body, ← hfam, List.mem_append, List.mem_singleton, not_or]
  refine ⟨by decide +kernel, fun heq => ?_⟩
  have hpointer := length_recoveryPointer_lt happlied.within (length_tcHashRef (utf8 "pytest -q") sampleOutput)
  rw [← happlied.ref, ← heq, sampleLong, List.length_replicate] at hpointer
  omega

/-- The lines around a line with a keep signal alone are not kept. -/
theorem not_tcApply_lossless_around_keep :
    ¬ ∀ (os : SpillOs) (cmdline : Text) (exitCode : ℤ) (raw spillDir : Text) (st st' : TCState) (body : Text)
      (stats : TCStats), tcApply os cmdline exitCode raw spillDir st = (some body, stats, st') →
      ∃ fam, tcFamily (tcRecognize cmdline) = some fam ∧
        Lossless (fam.failSigs ++ fam.keepSigs) fam raw stats.spillRef body := by
  intro hall
  obtain ⟨fam, hfam, hlossless⟩ := hall _ _ _ _ _ _ _ _ _ sampleRun_eq
  have htest : tcFamilyTestRunner = fam := Option.some.inj (tcFamily_sample.symm.trans hfam)
  rw [← htest] at hlossless
  have hneeded : sampleLong ∈ neededLines (tcFamilyTestRunner.failSigs ++ tcFamilyTestRunner.keepSigs)
      tcFamilyTestRunner
      sampleOutput := by decide +kernel
  exact sampleLong_notMem_sampleBody (hlossless.verbatim.mem hneeded)

end Economizer
