import Exchange.Journal.Reading

/-!
# Comparing two journals

`verify_against` reads two files in step.  That a reader has nothing more to return may mean that
its file has ended, that it breaks off in the middle of a record, or that there is no such file.

**`verifyAgainst_eq_true_iff`** — the verdict depends on the complete records alone.

**`verifyAgainst_exact_iff`** — so it is the right one unless these agree and one of the files is
missing or has something else after them.
-/

namespace Exchange

open Loop

/-- The complete records of a file.  A file that is not there has none. -/
def fileFrames (content : Option (List UInt8)) : List journalFraming.Frame :=
  content.elim [] fun bs => (journalFraming.split bs).1

lemma length_fileFrames_le (content : Option (List UInt8)) :
    (fileFrames content).length ≤ (content.getD []).length := by
  cases content with
  | none => exact Nat.le_refl 0
  | some bs => exact journalFraming.length_split_le bs

/-- The file is there and consists of complete records. -/
def Whole (content : Option (List UInt8)) : Prop :=
  ∃ bs, content = some bs ∧ (journalFraming.split bs).2 = []

/-- The payload is not empty and has the checksum that its header gives. -/
def Intact (table : CrcTable) (x : JournalHeader × List UInt8) : Prop :=
  x.2 ≠ [] ∧ computeChecksum table x.2 = x.1.checksum

/-- Two records that may differ in their timestamps and reserved bytes only. -/
structure SameRecord (table : CrcTable) (x y : JournalHeader × List UInt8) : Prop where
  intact_left : Intact table x
  intact_right : Intact table y
  sequence_eq : x.1.sequence = y.1.sequence
  eventType_eq : x.1.eventType = y.1.eventType
  payloadSize_eq : x.1.payloadSize = y.1.payloadSize
  checksum_eq : x.1.checksum = y.1.checksum
  payload_eq : x.2 = y.2

/-- As many records in both, and each the same as its counterpart. -/
def RecordsAgree (table : CrcTable) (a b : Option (List UInt8)) : Prop :=
  List.Forall₂ (fun f g => SameRecord table (record f) (record g)) (fileFrames a) (fileFrames b)

namespace JournalReader

variable {r : JournalReader} {f : journalFraming.Frame} {fs : List journalFraming.Frame}

/-- What the reader is still going to return. -/
def Yields (r : JournalReader) (fs : List journalFraming.Frame) : Prop :=
  Ended r ∧ fs = [] ∨ ∃ bs, r.file.Reads bs ∧ (journalFraming.split bs).1 = fs

lemma Yields.readNext_nil (h : Yields r []) : ∃ r', r.readNext = (none, r') ∧ Yields r' [] := by
  obtain ⟨hended, -⟩ | ⟨bs, hreads, hsplit⟩ := h
  · exact ⟨r, hended.readNext, .inl ⟨hended, rfl⟩⟩
  · cases hnext : journalFraming.next bs with
    | none =>
        obtain ⟨r', hread, hended, -⟩ := next_none hreads hnext
        exact ⟨r', hread, .inl ⟨hended, rfl⟩⟩
    | some found =>
        obtain rfl := Framing.next_eq_some_iff.mp hnext
        rw [Framing.split_append] at hsplit
        cases hsplit

lemma Yields.readNext_cons (h : Yields r (f :: fs)) :
    ∃ r', r.readNext = (some (record f), r') ∧ Yields r' fs ∧
      ∀ table, r'.verifyChecksum table = verifies table (record f) := by
  obtain ⟨-, hnil⟩ | ⟨bs, hreads, hsplit⟩ := h
  · cases hnil
  · cases hnext : journalFraming.next bs with
    | none =>
        rw [Framing.split_of_none hnext] at hsplit
        cases hsplit
    | some found =>
        obtain ⟨r', hread, hrest, hvalid, hlast⟩ := next_some hreads hnext
        obtain rfl := Framing.next_eq_some_iff.mp hnext
        rw [Framing.split_append, List.cons.injEq] at hsplit
        obtain ⟨rfl, rfl⟩ := hsplit
        exact ⟨r', hread, .inr ⟨_, hrest, rfl⟩, fun _ => verifyChecksum_of_valid hvalid hlast⟩

lemma yields_construct (content : Option (List UInt8)) :
    Yields (construct content) (fileFrames content) := by
  cases content with
  | none => exact .inl ⟨rfl, rfl⟩
  | some bs => exact .inr ⟨bs, reads_construct bs, rfl⟩

lemma yields_reset (r : JournalReader) : Yields r.reset (fileFrames r.file.content) := by
  cases hcontent : r.file.content with
  | none =>
      refine .inl ⟨?_, rfl⟩
      show r.file.content.isNone = true
      rw [hcontent]
      rfl
  | some bs => exact .inr ⟨bs, reads_reset hcontent, rfl⟩

lemma verifies_iff {table : CrcTable} {x : JournalHeader × List UInt8} :
    verifies table x = true ↔ Intact table x := by
  rw [verifies, Bool.and_eq_true, Bool.not_eq_true', List.isEmpty_eq_false_iff, beq_iff_eq, Intact]

end JournalReader

namespace ReplayHarness

open JournalReader

variable (table : CrcTable) {c : Comparison} {f g : journalFraming.Frame}
  {fs gs : List journalFraming.Frame}

/-- A round in which neither reader returns a record. -/
lemma compareStep_nil_nil (hfs : c.reader.Yields []) (hgs : c.expected.Yields []) :
    ∃ c' : Comparison, compareStep table c = .done c' ∧ c'.verdict = true := by
  obtain ⟨r, hread, -⟩ := hfs.readNext_nil
  obtain ⟨e, hread', -⟩ := hgs.readNext_nil
  refine ⟨⟨r, e, true⟩, ?_, rfl⟩
  rw [compareStep, hread, hread']

/-- A round in which the second reader alone returns one. -/
lemma compareStep_nil_cons (hfs : c.reader.Yields []) (hgs : c.expected.Yields (g :: gs)) :
    ∃ c' : Comparison, compareStep table c = .done c' ∧ c'.verdict = false := by
  obtain ⟨r, hread, -⟩ := hfs.readNext_nil
  obtain ⟨e, hread', -⟩ := hgs.readNext_cons
  refine ⟨⟨r, e, false⟩, ?_, rfl⟩
  rw [compareStep, hread, hread']

/-- A round in which the first reader alone returns one. -/
lemma compareStep_cons_nil (hfs : c.reader.Yields (f :: fs)) (hgs : c.expected.Yields []) :
    ∃ c' : Comparison, compareStep table c = .done c' ∧ c'.verdict = false := by
  obtain ⟨r, hread, -⟩ := hfs.readNext_cons
  obtain ⟨e, hread', -⟩ := hgs.readNext_nil
  refine ⟨⟨r, e, false⟩, ?_, rfl⟩
  rw [compareStep, hread, hread']

/-- A round in which both readers return a record. -/
lemma compareStep_cons_cons (hfs : c.reader.Yields (f :: fs)) (hgs : c.expected.Yields (g :: gs)) :
    (SameRecord table (record f) (record g) ∧ ∃ c' : Comparison,
        compareStep table c = .yield c' ∧ c'.reader.Yields fs ∧ c'.expected.Yields gs) ∨
      (¬ SameRecord table (record f) (record g) ∧ ∃ c' : Comparison,
        compareStep table c = .done c' ∧ c'.verdict = false) := by
  obtain ⟨r, hread, hfs', hverify⟩ := hfs.readNext_cons
  obtain ⟨e, hread', hgs', hverify'⟩ := hgs.readNext_cons
  rw [compareStep, hread, hread']
  simp only [hverify, hverify']
  split_ifs with hbroken hheader hpayload
  · refine .inr ⟨fun hsame => ?_, _, rfl, rfl⟩
    rw [verifies_iff.mpr hsame.intact_left, verifies_iff.mpr hsame.intact_right] at hbroken
    exact absurd hbroken (by decide)
  · refine .inr ⟨fun hsame => ?_, _, rfl, rfl⟩
    obtain h | h | h | h := hheader
    · exact h hsame.sequence_eq
    · exact h hsame.eventType_eq
    · exact h hsame.payloadSize_eq
    · exact h hsame.checksum_eq
  · exact .inr ⟨fun hsame => hpayload hsame.payload_eq, _, rfl, rfl⟩
  · rw [Bool.or_eq_true, Bool.not_eq_true', Bool.not_eq_true', not_or, Bool.not_eq_false,
      Bool.not_eq_false, verifies_iff, verifies_iff] at hbroken
    simp only [not_or, not_not] at hheader hpayload
    obtain ⟨hsequence, htype, hsize, hchecksum⟩ := hheader
    exact .inl ⟨⟨hbroken.1, hbroken.2, hsequence, htype, hsize, hchecksum, hpayload⟩, _, rfl,
      hfs', hgs'⟩

/-- **The loop ends**, with the verdict whether the records agree. -/
lemma compare_run (hfs : c.reader.Yields fs) (hgs : c.expected.Yields gs) {n : Nat}
    (hn : fs.length < n) :
    Exits (compareStep table) c (run (compareStep table) n c) ∧
      ((run (compareStep table) n c).verdict = true ↔
        List.Forall₂ (fun f g => SameRecord table (record f) (record g)) fs gs) := by
  induction n generalizing c fs gs with
  | zero => exact absurd hn (Nat.not_lt_zero _)
  | succ n ih =>
      cases fs with
      | nil =>
          cases gs with
          | nil =>
              obtain ⟨c', hstep, hverdict⟩ := compareStep_nil_nil table hfs hgs
              rw [run_succ_done hstep, hverdict]
              exact ⟨.done hstep, iff_of_true rfl .nil⟩
          | cons g gs =>
              obtain ⟨c', hstep, hverdict⟩ := compareStep_nil_cons table hfs hgs
              rw [run_succ_done hstep, hverdict]
              exact ⟨.done hstep, iff_of_false Bool.false_ne_true nofun⟩
      | cons f fs =>
          cases gs with
          | nil =>
              obtain ⟨c', hstep, hverdict⟩ := compareStep_cons_nil table hfs hgs
              rw [run_succ_done hstep, hverdict]
              exact ⟨.done hstep, iff_of_false Bool.false_ne_true nofun⟩
          | cons g gs =>
              rw [List.forall₂_cons]
              obtain ⟨hsame, c', hstep, hfs', hgs'⟩ | ⟨hdiffer, c', hstep, hverdict⟩ :=
                compareStep_cons_cons table hfs hgs
              · obtain ⟨hexits, hverdict⟩ := ih hfs' hgs' (Nat.lt_of_succ_lt_succ hn)
                rw [run_succ_yield hstep, hverdict, and_iff_right hsame]
                exact ⟨.yield hstep hexits, Iff.rfl⟩
              · rw [run_succ_done hstep, hverdict]
                exact ⟨.done hstep, iff_of_false Bool.false_ne_true fun h => hdiffer h.1⟩

variable (h : ReplayHarness) (r : JournalReader) (expected : Option (List UInt8))

/-- The comparison as it starts, with `r` in the harness. -/
def comparisonStart : Comparison := { reader := r.reset, expected := .construct expected }

/-- **`verify_against` ends, and tells whether the complete records agree.** -/
theorem verifyAgainst_eq_true_iff :
    Exits (compareStep table) (comparisonStart r expected)
        (run (compareStep table) (compareFuel (comparisonStart r expected))
          (comparisonStart r expected)) ∧
      ((verifyAgainst { h with reader := some r } table expected).1 = true ↔
        RecordsAgree table r.file.content expected) := by
  have hlength : (comparisonStart r expected).reader.file.rest.length
      = (r.file.content.getD []).length := rfl
  refine compare_run table (yields_reset r) (yields_construct expected) ?_
  rw [compareFuel, hlength]
  exact Nat.lt_succ_of_le (length_fileFrames_le _)

/-- **When the comparison is exact.** -/
theorem verifyAgainst_exact_iff :
    ((verifyAgainst { h with reader := some r } initCrc32Table expected).1 = true ↔
        Whole r.file.content ∧ Whole expected ∧
          RecordsAgree initCrc32Table r.file.content expected) ↔
      (Whole r.file.content ∧ Whole expected) ∨
        ¬ RecordsAgree initCrc32Table r.file.content expected := by
  rw [(verifyAgainst_eq_true_iff initCrc32Table h r expected).2]
  tauto

/-- A file of one byte passes for an empty journal. -/
theorem part_of_header_passes :
    (verifyAgainst (loadJournal {} (some [])) initCrc32Table (some [0])).1 = true ∧
      ¬ ((verifyAgainst (loadJournal {} (some [])) initCrc32Table (some [0])).1 = true ↔
        Whole (some []) ∧ Whole (some [0]) ∧
          RecordsAgree initCrc32Table (some []) (some [0])) := by
  have hpasses : (verifyAgainst (loadJournal {} (some [])) initCrc32Table (some [0])).1 = true := by
    decide +kernel
  refine ⟨hpasses, fun hexact => ?_⟩
  obtain ⟨-, ⟨bs, hbs, hrest⟩, -⟩ := hexact.mp hpasses
  cases hbs
  rw [Framing.split_of_none (Framing.next_eq_none_iff.mpr (.inl (by decide)))] at hrest
  cases hrest

end ReplayHarness

end Exchange
