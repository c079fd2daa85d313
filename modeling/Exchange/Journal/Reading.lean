import Exchange.Journal.Model

/-!
# What a reader reads

A journal is a stream of frames: a header of 32 bytes and the payload whose size it gives.  A reader
returns the frames from where it stands until what is left begins with none, and after that nothing.

* `Reads.next_some`, `Reads.next_none`, `Ended.readNext` — one call of `read_next`;
* **`Reads.readMany`** — any number of calls;
* **`Reads.replay`** — `replay_all` ends, and has delivered what was read.
-/

namespace Exchange

/-- The frames of a journal. -/
def journalFraming : Framing UInt8 where
  headerLength := 32
  headerLength_pos := by decide
  payloadLength := fun header => (JournalHeader.ofBytes header).payloadSize.toNat

/-- What `read_next` makes of a frame. -/
def record (f : journalFraming.Frame) : JournalHeader × List UInt8 :=
  (.ofBytes f.header, f.payload)

namespace InputFile

variable {f : InputFile} {n : Nat} {bs xs rest : List UInt8}

/-- The file is open, and the bytes `bs` are left to read. -/
structure Reads (f : InputFile) (bs : List UInt8) : Prop where
  isOpen : f.content.isSome = true
  eof_eq : f.eof = false
  fail_eq : f.fail = false
  rest_eq : f.rest = bs

/-- The test that `read_next` makes first. -/
lemma Reads.usable (h : f.Reads bs) : (f.fail || f.content.isNone) = false := by
  rw [h.fail_eq, Bool.false_or, ← Option.not_isSome, h.isOpen]
  rfl

def advance (f : InputFile) (n : Nat) : InputFile := { f with pos := f.pos + n }

lemma advance_add (f : InputFile) (m n : Nat) : f.advance (m + n) = (f.advance m).advance n := by
  rw [advance, advance, advance, Nat.add_assoc]

lemma rest_advance (f : InputFile) (n : Nat) : (f.advance n).rest = f.rest.drop n := by
  rw [rest, rest, advance, List.drop_drop]

lemma Reads.advance (h : f.Reads (xs ++ rest)) (hn : xs.length = n) : (f.advance n).Reads rest where
  isOpen := h.isOpen
  eof_eq := h.eof_eq
  fail_eq := h.fail_eq
  rest_eq := by rw [rest_advance, h.rest_eq, List.drop_left' hn]

/-- A read that gets what it asks for. -/
lemma Reads.read (h : f.Reads (xs ++ rest)) (hn : xs.length = n) :
    f.read n = (xs, f.advance n) := by
  have htake : f.rest.take n = xs := by rw [h.rest_eq, List.take_left' hn]
  have hgood : ¬ (f.eof || f.fail) = true := by
    rw [h.eof_eq, h.fail_eq]
    exact Bool.false_ne_true
  rw [InputFile.read, if_neg hgood]
  simp only [htake, hn, Nat.lt_irrefl, if_false]
  rfl

/-- A read that is cut short. -/
lemma Reads.read_of_lt (h : f.Reads bs) (hn : bs.length < n) : (f.read n).2.fail = true := by
  have htake : f.rest.take n = bs := by
    rw [h.rest_eq, List.take_of_length_le (Nat.le_of_lt hn)]
  simp only [InputFile.read, h.eof_eq, h.fail_eq, Bool.or_self, Bool.false_eq_true, if_false,
    htake, hn, if_true]

end InputFile

namespace JournalReader

/-- Nothing more can be read. -/
def Ended (r : JournalReader) : Prop := r.file.fail = true

variable {r : JournalReader} {bs rest : List UInt8} {f : journalFraming.Frame}

lemma Ended.readNext (h : Ended r) : r.readNext = (none, r) := by
  rw [JournalReader.readNext, h]
  rfl

lemma readNext_of_short (h : r.file.Reads bs) (hheader : (r.file.read 32).2.fail = true) :
    r.readNext = (none, { r with file := (r.file.read 32).2, lastValid := false }) := by
  rw [JournalReader.readNext, h.usable]
  simp only [hheader, Bool.true_or, if_true, Bool.false_eq_true, if_false]

/-- What a call comes to that has read a header. -/
lemma readNext_of_header {header : List UInt8} (h : r.file.Reads (header ++ rest))
    (hlength : header.length = 32) :
    r.readNext =
      let size := (JournalHeader.ofBytes header).payloadSize
      let (payload, file) := (r.file.advance 32).read size.toNat
      if file.fail || UInt32.ofNat payload.length ≠ size then
        (none, { r with file := file, lastValid := false })
      else
        (some (.ofBytes header, payload),
          { file := file
            lastHeader := .ofBytes header
            lastPayload := payload
            lastValid := true }) := by
  have hgood : ((r.file.advance 32).fail || decide (header.length ≠ 32)) = false := by
    rw [(h.advance hlength).fail_eq, hlength]
    rfl
  rw [JournalReader.readNext, h.usable]
  simp only [h.read hlength, hgood, Bool.false_eq_true, if_false]

lemma length_bytes (f : journalFraming.Frame) :
    f.bytes.length = 32 + (record f).1.payloadSize.toNat := by
  rw [Framing.Frame.bytes, List.length_append, f.header_length, f.payload_length]
  rfl

/-- The reader moves on by the length of the frame. -/
lemma readNext_bytes (h : r.file.Reads (f.bytes ++ rest)) :
    r.readNext = (some (record f),
      { file := r.file.advance f.bytes.length
        lastHeader := (record f).1
        lastPayload := (record f).2
        lastValid := true }) := by
  have hbytes : f.bytes ++ rest = f.header ++ (f.payload ++ rest) := List.append_assoc _ _ _
  rw [hbytes] at h
  have hlength : f.payload.length = (JournalHeader.ofBytes f.header).payloadSize.toNat :=
    f.payload_length
  have hheader : f.header.length = 32 := f.header_length
  have hrest := h.advance hheader
  have hgood : (((r.file.advance 32).advance
      (JournalHeader.ofBytes f.header).payloadSize.toNat).fail ||
        decide (UInt32.ofNat f.payload.length ≠
          (JournalHeader.ofBytes f.header).payloadSize)) = false := by
    rw [(hrest.advance hlength).fail_eq, hlength, UInt32.ofNat_toNat]
    simp
  rw [readNext_of_header h hheader, length_bytes, InputFile.advance_add]
  simp only [hrest.read hlength, hgood, Bool.false_eq_true, if_false]
  rfl

/-- **A frame is a record.** -/
theorem next_some (h : r.file.Reads bs) (hnext : journalFraming.next bs = some (f, rest)) :
    ∃ r', r.readNext = (some (record f), r') ∧ r'.file.Reads rest ∧ r'.lastValid = true ∧
      (r'.lastHeader, r'.lastPayload) = record f := by
  obtain rfl := Framing.next_eq_some_iff.mp hnext
  exact ⟨_, readNext_bytes h, h.advance rfl, rfl, rfl⟩

/-- **Where there is no frame, the reader has ended.** -/
theorem next_none (h : r.file.Reads bs) (hnext : journalFraming.next bs = none) :
    ∃ r', r.readNext = (none, r') ∧ Ended r' ∧ r'.lastValid = false := by
  rcases Nat.lt_or_ge bs.length 32 with hheader | hheader
  · have hfail := h.read_of_lt hheader
    exact ⟨_, readNext_of_short h hfail, hfail, rfl⟩
  · have hlength : (bs.take 32).length = 32 := List.length_take_of_le hheader
    have hshort : (bs.drop 32).length
        < (JournalHeader.ofBytes (bs.take 32)).payloadSize.toNat :=
      (Framing.next_eq_none_iff.mp hnext).resolve_left (Nat.not_lt.mpr hheader)
    rw [← List.take_append_drop 32 bs] at h
    have hfail := (h.advance hlength).read_of_lt hshort
    refine ⟨⟨_, r.lastHeader, r.lastPayload, false⟩, ?_, hfail, rfl⟩
    rw [readNext_of_header h hlength]
    simp only [hfail, Bool.true_or, if_true]

/-! ## Many calls -/

/-- What `k` calls of `read_next` return, each with what `verify_checksum` says after it. -/
def readMany (table : CrcTable) : Nat → JournalReader →
    List (Option (JournalHeader × List UInt8) × Bool)
  | 0, _ => []
  | k + 1, r =>
      (r.readNext.1, r.readNext.2.verifyChecksum table) :: readMany table k r.readNext.2

/-- The reader after `k` calls of `read_next`. -/
def afterReads : Nat → JournalReader → JournalReader
  | 0, r => r
  | k + 1, r => afterReads k r.readNext.2

/-- The payload is there, and has the checksum that its header gives. -/
def verifies (table : CrcTable) (x : JournalHeader × List UInt8) : Bool :=
  !x.2.isEmpty && computeChecksum table x.2 == x.1.checksum

lemma verifyChecksum_of_valid {table : CrcTable} {x : JournalHeader × List UInt8}
    (hvalid : r.lastValid = true) (hlast : (r.lastHeader, r.lastPayload) = x) :
    r.verifyChecksum table = verifies table x := by
  subst hlast
  rw [verifyChecksum, verifies, hvalid]
  cases r.lastPayload.isEmpty <;> rfl

lemma verifyChecksum_of_invalid {table : CrcTable} (hvalid : r.lastValid = false) :
    r.verifyChecksum table = false := by
  rw [verifyChecksum, hvalid]
  rfl

lemma Ended.readMany {table : CrcTable} (h : Ended r) (hvalid : r.lastValid = false) (k : Nat) :
    readMany table k r = List.replicate k (none, false) := by
  induction k with
  | zero => rfl
  | succ k ih =>
      rw [JournalReader.readMany, h.readNext, verifyChecksum_of_invalid hvalid, ih,
        List.replicate_succ]

/-- **A reader returns the frames, and then nothing.** -/
theorem readMany_eq (table : CrcTable) (h : r.file.Reads bs) (k : Nat) :
    readMany table k r
      = ((journalFraming.split bs).1.take k).map
          (fun f => (some (record f), verifies table (record f)))
        ++ List.replicate (k - (journalFraming.split bs).1.length) (none, false) := by
  induction k generalizing r bs with
  | zero => simp [readMany]
  | succ k ih =>
      cases hnext : journalFraming.next bs with
      | none =>
          obtain ⟨r', hread, hended, hvalid⟩ := next_none h hnext
          rw [readMany, hread, Framing.split_of_none hnext, hended.readMany hvalid,
            verifyChecksum_of_invalid hvalid]
          rfl
      | some found =>
          obtain ⟨f, rest⟩ := found
          obtain ⟨r', hread, hrest, hvalid, hlast⟩ := next_some h hnext
          obtain rfl := Framing.next_eq_some_iff.mp hnext
          rw [readMany, hread, Framing.split_append, ih hrest, verifyChecksum_of_valid hvalid hlast,
            List.length_cons, Nat.add_sub_add_right]
          rfl

/-! ## Starting over -/

/-- A reader never changes its file. -/
lemma content_readNext (r : JournalReader) : r.readNext.2.file.content = r.file.content := by
  have hread : ∀ (f : InputFile) (n : Nat), (f.read n).2.content = f.content := by
    intro f n
    simp only [InputFile.read]
    split_ifs <;> rfl
  simp only [readNext]
  split_ifs
  · rfl
  · exact hread _ _
  · exact (hread _ _).trans (hread _ _)
  · exact (hread _ _).trans (hread _ _)

lemma content_afterReads (k : Nat) (r : JournalReader) :
    (afterReads k r).file.content = r.file.content := by
  induction k generalizing r with
  | zero => rfl
  | succ k ih => rw [afterReads, ih, content_readNext]

/-- A reader that has been reset stands at the beginning, whatever was the matter with it. -/
lemma reads_reset {content : List UInt8} (h : r.file.content = some content) :
    r.reset.file.Reads content where
  isOpen := Option.isSome_iff_exists.mpr ⟨content, h⟩
  eof_eq := rfl
  fail_eq := by
    show r.file.content.isNone = false
    rw [h]
    rfl
  rest_eq := by
    show (r.file.content.getD []).drop 0 = content
    rw [h]
    rfl

lemma reads_construct (content : List UInt8) :
    (construct (some content)).file.Reads content := ⟨rfl, rfl, rfl, rfl⟩

end JournalReader

/-! ## Replay -/

namespace ReplayHarness

open Loop

variable {h : ReplayHarness} {r : JournalReader} {bs : List UInt8}

/-- What the callbacks get for frames. -/
def deliverAll (h : ReplayHarness) (fs : List journalFraming.Frame) : List Delivery :=
  fs.flatMap fun f => h.deliver (record f).1 (record f).2

/-- **`replay_all` ends** where the frames end, and has delivered each of them once. -/
theorem replay (hr : h.reader = some r) (hreads : r.file.Reads bs) {n : Nat}
    (hn : (journalFraming.split bs).1.length < n) :
    Exits replayStep h (run replayStep n h) ∧
      (run replayStep n h).deliveries
        = h.deliveries ++ h.deliverAll (journalFraming.split bs).1 := by
  induction n generalizing h r bs with
  | zero => exact absurd hn (Nat.not_lt_zero _)
  | succ n ih =>
      cases hnext : journalFraming.next bs with
      | none =>
          obtain ⟨r', hread, -, -⟩ := JournalReader.next_none hreads hnext
          have hstep : replayStep h = .done { h with reader := some r' } := by
            rw [replayStep, step, hr]
            simp only [hread]
          rw [run_succ_done hstep, Framing.split_of_none hnext]
          exact ⟨.done hstep, (List.append_nil _).symm⟩
      | some found =>
          obtain ⟨f, rest⟩ := found
          obtain ⟨r', hread, hrest, -, -⟩ := JournalReader.next_some hreads hnext
          obtain rfl := Framing.next_eq_some_iff.mp hnext
          have hstep : replayStep h = .yield { h with
              reader := some r'
              currentSeq := (record f).1.sequence
              deliveries := h.deliveries ++ h.deliver (record f).1 (record f).2 } := by
            rw [replayStep, step, hr]
            simp only [hread]
          rw [Framing.split_append, List.length_cons] at hn
          obtain ⟨hexits, hdelivered⟩ := ih (h := { h with
            reader := some r'
            currentSeq := (record f).1.sequence
            deliveries := h.deliveries ++ h.deliver (record f).1 (record f).2 }) rfl hrest
            (Nat.lt_of_succ_lt_succ hn)
          rw [run_succ_yield hstep, Framing.split_append]
          exact ⟨.yield hstep hexits, by rw [hdelivered, List.append_assoc]; rfl⟩

/-- A journal that has just been loaded. -/
theorem replayAll_loadJournal (h : ReplayHarness) (content : List UInt8) :
    Exits replayStep (h.loadJournal (some content)) (h.loadJournal (some content)).replayAll ∧
      (h.loadJournal (some content)).replayAll.deliveries
        = h.deliveries ++ h.deliverAll (journalFraming.split content).1 :=
  replay rfl (JournalReader.reads_construct content)
    (Nat.lt_succ_of_le (journalFraming.length_split_le content))

end ReplayHarness

end Exchange
