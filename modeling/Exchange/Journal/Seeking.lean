import Exchange.Journal.Compare

/-!
# Seeking in a journal

`seek_to_sequence` reads from the beginning until it has read a record with the number it looks for
or a greater one, and steps back over that record, whose length it has from the header.

* `returned` — what a call of `read_next` returns, by its place in a row of them;
* `Seeks` — what a seek is for, in terms of a reader that has just been opened;
* **`seekToSequence_exact`** — this is what it does, whatever was done with the reader before.
-/

namespace Exchange

open Loop

lemma InputFile.Reads.seekBack_advance {f : InputFile} {bs : List UInt8} (h : f.Reads bs)
    (n : Nat) : (f.advance n).seekBack n = f := by
  have hopen : f.content.isNone = false := by
    rw [← Option.not_isSome, h.isOpen]
    rfl
  obtain ⟨content, pos, eof, fail⟩ := f
  obtain rfl : eof = false := h.eof_eq
  obtain rfl : fail = false := h.fail_eq
  have hback : ¬ (content.isNone = true ∨ pos + n < n) := by
    rintro (hnone | hlt)
    · exact Bool.false_ne_true (hopen.symm.trans hnone)
    · exact absurd hlt (Nat.not_lt.mpr (Nat.le_add_left n pos))
  simp only [InputFile.advance, InputFile.seekBack, if_neg hback, Nat.add_sub_cancel,
    Bool.false_eq_true, if_false]

namespace JournalReader

/-- What `read_next` returns after `k` calls of it. -/
def returned (k : Nat) (r : JournalReader) : Option (JournalHeader × List UInt8) :=
  (afterReads k r).readNext.1

/-- `fresh` has just been opened.  `found` is what the seek has returned, and `r` is the reader
after it: it reads on from the first record with the number `seq` or a greater one. -/
structure Seeks (seq : UInt64) (fresh : JournalReader) (found : Bool) (r : JournalReader) :
    Prop where
  found_iff : found = true ↔ ∃ k x, fresh.returned k = some x ∧ seq ≤ x.1.sequence
  reads_on : found = true → ∃ n x, fresh.returned n = some x ∧ seq ≤ x.1.sequence ∧
    (∀ m < n, ∀ y, fresh.returned m = some y → y.1.sequence < seq) ∧
    ∀ k, r.returned k = fresh.returned (n + k)
  content_eq : r.file.content = fresh.file.content

variable {r : JournalReader} {seq : UInt64} {f : journalFraming.Frame}
  {fs : List journalFraming.Frame}

lemma Yields.returned_eq (h : Yields r fs) (k : Nat) : r.returned k = fs[k]?.map record := by
  induction k generalizing r fs with
  | zero =>
      cases fs with
      | nil =>
          obtain ⟨r', hread, -⟩ := h.readNext_nil
          rw [returned, afterReads, hread]
          rfl
      | cons f fs =>
          obtain ⟨r', hread, -⟩ := h.readNext_cons
          rw [returned, afterReads, hread]
          rfl
  | succ k ih =>
      show r.readNext.2.returned k = _
      cases fs with
      | nil =>
          obtain ⟨r', hread, hyields⟩ := h.readNext_nil
          rw [hread, ih hyields]
          rfl
      | cons f fs =>
          obtain ⟨r', hread, hyields, -⟩ := h.readNext_cons
          rw [hread, ih hyields, List.getElem?_cons_succ]

/-! ## The loop -/

/-- The number of a record is `seq` or greater. -/
def reaches (seq : UInt64) (f : journalFraming.Frame) : Bool := seq ≤ (record f).1.sequence

/-- The place of the first such record. -/
def seekIndex (seq : UInt64) (fs : List journalFraming.Frame) : Nat := fs.findIdx (reaches seq)

lemma seekStep_nil (seq : UInt64) (h : Yields r []) :
    ∃ r', seekStep seq (false, r) = .done (false, r') := by
  obtain ⟨r', hread, -⟩ := h.readNext_nil
  exact ⟨r', by rw [seekStep, hread]⟩

/-- A round that steps over a record. -/
lemma seekStep_over (h : Yields r (f :: fs)) (hf : reaches seq f = false) :
    ∃ r', seekStep seq (false, r) = .yield (false, r') ∧ Yields r' fs := by
  obtain ⟨r', hread, hyields, -⟩ := h.readNext_cons
  refine ⟨r', ?_, hyields⟩
  rw [seekStep, hread]
  exact if_neg (of_decide_eq_false hf)

/-- The round that finds the record, and steps back to its beginning. -/
lemma seekStep_found (h : Yields r (f :: fs)) (hf : reaches seq f = true) :
    ∃ r', seekStep seq (false, r) = .done (true, r') ∧ Yields r' (f :: fs) := by
  obtain ⟨-, hnil⟩ | ⟨bs, hreads, hsplit⟩ := h
  · cases hnil
  · cases hnext : journalFraming.next bs with
    | none =>
        rw [Framing.split_of_none hnext] at hsplit
        cases hsplit
    | some found =>
        obtain ⟨g, rest⟩ := found
        obtain rfl := Framing.next_eq_some_iff.mp hnext
        have hsplit' := hsplit
        rw [Framing.split_append, List.cons.injEq] at hsplit'
        obtain ⟨rfl, -⟩ := hsplit'
        refine ⟨{ file := r.file
                  lastHeader := (record g).1
                  lastPayload := (record g).2
                  lastValid := true }, ?_, .inr ⟨_, hreads, hsplit⟩⟩
        rw [seekStep, readNext_bytes hreads]
        simp only
        rw [← length_bytes, hreads.seekBack_advance]
        exact if_pos (of_decide_eq_true hf)

/-- **The loop ends**, and where it finds a record, that is what is read next. -/
lemma seek_run (seq : UInt64) (h : Yields r fs) {n : Nat} (hn : fs.length < n) :
    Exits (seekStep seq) (false, r) (run (seekStep seq) n (false, r)) ∧
      ((run (seekStep seq) n (false, r)).1 = true ↔ seekIndex seq fs < fs.length) ∧
      (seekIndex seq fs < fs.length →
        Yields (run (seekStep seq) n (false, r)).2 (fs.drop (seekIndex seq fs))) := by
  induction n generalizing r fs with
  | zero => exact absurd hn (Nat.not_lt_zero _)
  | succ n ih =>
      cases fs with
      | nil =>
          obtain ⟨r', hstep⟩ := seekStep_nil seq h
          rw [run_succ_done hstep]
          exact ⟨.done hstep, iff_of_false Bool.false_ne_true (Nat.not_lt_zero _),
            fun hlt => absurd hlt (Nat.not_lt_zero _)⟩
      | cons f fs =>
          rw [seekIndex, List.findIdx_cons]
          cases hf : reaches seq f with
          | true =>
              obtain ⟨r', hstep, hyields⟩ := seekStep_found h hf
              rw [run_succ_done hstep]
              exact ⟨.done hstep, iff_of_true rfl (Nat.zero_lt_succ _), fun _ => hyields⟩
          | false =>
              obtain ⟨r', hstep, hyields⟩ := seekStep_over h hf
              obtain ⟨hexits, hfound, hrest⟩ := ih hyields (Nat.lt_of_succ_lt_succ hn)
              rw [run_succ_yield hstep]
              refine ⟨.yield hstep hexits, hfound.trans ?_, fun hlt => ?_⟩
              · exact Nat.succ_lt_succ_iff.symm
              · exact hrest (Nat.lt_of_succ_lt_succ hlt)

lemma content_seekBack (f : InputFile) (n : Nat) : (f.seekBack n).content = f.content := by
  rw [InputFile.seekBack]
  split_ifs <;> rfl

/-- No round changes the file. -/
lemma content_seekStep {s t : Bool × JournalReader}
    (hstep : seekStep seq s = .done t ∨ seekStep seq s = .yield t) :
    t.2.file.content = s.2.file.content := by
  have hread := content_readNext s.2
  rw [seekStep] at hstep
  generalize s.2.readNext = read at hread hstep
  obtain ⟨found, r'⟩ := read
  cases found with
  | none =>
      obtain hstep | hstep := hstep <;> cases hstep
      exact hread
  | some x =>
      simp only at hstep
      split_ifs at hstep
      · obtain hstep | hstep := hstep <;> cases hstep
        exact (content_seekBack _ _).trans hread
      · obtain hstep | hstep := hstep <;> cases hstep
        exact hread

lemma content_seekToSequence (r : JournalReader) (seq : UInt64) :
    (r.seekToSequence seq).2.file.content = r.file.content := by
  let I : Bool × JournalReader → Prop := fun s => s.2.file.content = r.file.content
  have hkept : I (r.seekToSequence seq) :=
    run_invariant (fun _ _ hs hstep => (content_seekStep (.inr hstep)).trans hs)
      (fun _ _ hs hstep => (content_seekStep (.inl hstep)).trans hs) _ (rfl : I (false, r.reset))
  exact hkept

/-- **A seek finds the first record**, in whatever state the reader is. -/
theorem seekToSequence_exact (r : JournalReader) (seq : UInt64) :
    Exits (seekStep seq) (false, r.reset) (r.seekToSequence seq) ∧
      Seeks seq (construct r.file.content) (r.seekToSequence seq).1 (r.seekToSequence seq).2 := by
  have hfuel : (fileFrames r.file.content).length < r.reset.file.rest.length + 1 :=
    Nat.lt_succ_of_le (length_fileFrames_le r.file.content)
  obtain ⟨hexits, hfound, hrest⟩ := seek_run seq (yields_reset r) hfuel
  have hfresh := (yields_construct r.file.content).returned_eq
  generalize fileFrames r.file.content = fs at hfound hrest hfresh
  refine ⟨hexits, hfound.trans ?_, fun htrue => ?_, content_seekToSequence r seq⟩
  · rw [seekIndex, List.findIdx_lt_length]
    constructor
    · rintro ⟨f, hf, hreaches⟩
      obtain ⟨k, hk⟩ := List.mem_iff_getElem?.mp hf
      exact ⟨k, record f, by rw [hfresh, hk]; rfl, of_decide_eq_true hreaches⟩
    · rintro ⟨k, x, hx, hle⟩
      rw [hfresh, Option.map_eq_some_iff] at hx
      obtain ⟨f, hf, rfl⟩ := hx
      exact ⟨f, List.mem_of_getElem? hf, decide_eq_true hle⟩
  · have hlt : seekIndex seq fs < fs.length := hfound.mp htrue
    refine ⟨seekIndex seq fs, record fs[seekIndex seq fs], ?_, ?_, fun m hm y hy => ?_,
      fun k => ?_⟩
    · rw [hfresh, List.getElem?_eq_getElem hlt]
      rfl
    · exact of_decide_eq_true (List.findIdx_getElem (w := hlt))
    · rw [hfresh, List.getElem?_eq_getElem (Nat.lt_trans hm hlt)] at hy
      cases hy
      exact UInt64.not_le.mp (of_decide_eq_false (List.not_of_lt_findIdx hm))
    · have hk := (hrest hlt).returned_eq k
      rw [List.getElem?_drop, ← hfresh] at hk
      exact hk

end JournalReader

end Exchange
