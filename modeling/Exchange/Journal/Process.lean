import Exchange.Core.Run
import Exchange.Journal.Compare
import Exchange.Journal.Writing

/-!
# The table of a process

Writer and reader share one table, but only the constructor of `EventJournal` fills it in.  A
process that has not constructed one computes with zeros, and gets the same checksum for every
record.

**`records_verify_iff`** — the records of a journal all verify if and only if the process constructs
an `EventJournal` before it reads, or those read before that have this checksum by chance.
-/

namespace Exchange

/-! ## The process -/

/-- `crc32_table` and `crc32_initialized`. -/
structure CrcState where
  table : CrcTable := zeroCrc32Table
  initialized : Bool := false

/-- `init_crc32_table()`. -/
def CrcState.init (s : CrcState) : CrcState :=
  if s.initialized then s else { table := initCrc32Table, initialized := true }

/-- A process that reads a journal. -/
structure ReadingProcess where
  crc : CrcState := {}
  reader : JournalReader

inductive ProcessStep
  /-- of whatever file -/
  | constructJournal
  | readNext
deriving DecidableEq, Repr

namespace ReadingProcess

variable (p : ReadingProcess)

def step (p : ReadingProcess) : ProcessStep → ReadingProcess
  | .constructJournal => { p with crc := p.crc.init }
  | .readNext => { p with reader := p.reader.readNext.2 }

/-- What `verify_checksum` says after a `read_next` that has returned true. -/
def verdict (p : ReadingProcess) : ProcessStep → Option Bool
  | .constructJournal => none
  | .readNext =>
      p.reader.readNext.1.map fun _ => p.reader.readNext.2.verifyChecksum p.crc.table

/-- The verdicts of a process that opens a file and takes some steps. -/
def verdicts (content : List UInt8) (steps : List ProcessStep) : List (Option Bool) :=
  Run.outputs step verdict { reader := .construct (some content) } steps

/-- How often the process reads before it constructs a journal. -/
def earlyReads (steps : List ProcessStep) : Nat := (steps.takeWhile (· = .readNext)).length

end ReadingProcess

/-! ## Checksums from a table of zeros -/

lemma crcByte_zero (crc : UInt32) (b : UInt8) : crcByte zeroCrc32Table crc b = crc >>> 8 := by
  have hget : ∀ i : Fin 256, zeroCrc32Table.get i = 0 := by
    intro i
    exact Vector.getElem_replicate i.isLt
  rw [crcByte, hget, UInt32.zero_xor]

lemma foldl_crcByte_zero (bs : List UInt8) : bs.foldl (crcByte zeroCrc32Table) 0 = 0 := by
  induction bs with
  | nil => rfl
  | cons b bs ih => rw [List.foldl_cons, crcByte_zero, UInt32.zero_shiftRight, ih]

/-- Four bytes push out all there is. -/
theorem computeChecksum_zero {bs : List UInt8} (h : 4 ≤ bs.length) :
    computeChecksum zeroCrc32Table bs = 0xFFFFFFFF := by
  obtain ⟨b₀, b₁, b₂, b₃, rest, rfl⟩ : ∃ b₀ b₁ b₂ b₃ rest, bs = b₀ :: b₁ :: b₂ :: b₃ :: rest := by
    match bs, h with
    | b₀ :: b₁ :: b₂ :: b₃ :: rest, _ => exact ⟨b₀, b₁, b₂, b₃, rest, rfl⟩
  have hout : (0xFFFFFFFF : UInt32) >>> 8 >>> 8 >>> 8 >>> 8 = 0 := by decide
  rw [computeChecksum]
  simp only [List.foldl_cons, crcByte_zero]
  rw [hout, foldl_crcByte_zero]
  rfl

/-! ## What a process sees -/

namespace ReadingProcess

open JournalReader EventJournal

variable {p : ReadingProcess} {fs : List journalFraming.Frame}

lemma verdict_readNext_nil (h : p.reader.Yields []) :
    p.verdict .readNext = none ∧ (p.step .readNext).reader.Yields [] := by
  obtain ⟨r', hread, hyields⟩ := h.readNext_nil
  rw [verdict, step, hread]
  exact ⟨rfl, hyields⟩

lemma verdict_readNext_cons {f : journalFraming.Frame} (h : p.reader.Yields (f :: fs)) :
    p.verdict .readNext = some (verifies p.crc.table (record f)) ∧
      (p.step .readNext).reader.Yields fs := by
  obtain ⟨r', hread, hyields, hverify⟩ := h.readNext_cons
  rw [verdict, step, hread]
  exact ⟨congrArg some (hverify _), hyields⟩

/-- Once the table has been filled in, records verify that verify at all. -/
lemma no_refusal_of_table (hcrc : p.crc = { table := initCrc32Table, initialized := true })
    (hreader : p.reader.Yields fs) (hfs : ∀ f ∈ fs, verifies initCrc32Table (record f) = true)
    (steps : List ProcessStep) : some false ∉ Run.outputs step verdict p steps := by
  induction steps generalizing p fs with
  | nil => exact List.not_mem_nil
  | cons s steps ih =>
      rw [Run.outputs, List.mem_cons, not_or]
      cases s with
      | constructJournal =>
          have hinit : p.crc.init = { table := initCrc32Table, initialized := true } := by
            rw [hcrc]
            rfl
          exact ⟨Option.some_ne_none false, ih (p := p.step .constructJournal) hinit hreader hfs⟩
      | readNext =>
          cases fs with
          | nil =>
              obtain ⟨hnone, hyields⟩ := verdict_readNext_nil hreader
              rw [hnone]
              exact ⟨Option.some_ne_none false, ih (p := p.step .readNext) hcrc hyields hfs⟩
          | cons f fs =>
              obtain ⟨hverdict, hyields⟩ := verdict_readNext_cons hreader
              rw [hverdict, hcrc, hfs f List.mem_cons_self]
              exact ⟨by decide, ih (p := p.step .readNext) hcrc hyields fun g hg =>
                hfs g (List.mem_cons_of_mem f hg)⟩

/-- Until then, only those verify that have the checksum every record gets. -/
lemma verifies_zero_iff {f : journalFraming.Frame}
    (hf : verifies initCrc32Table (record f) = true) (hlong : 4 ≤ f.payload.length) :
    verifies zeroCrc32Table (record f) = true ↔ (record f).1.checksum = 0xFFFFFFFF := by
  have hne : (record f).2 ≠ [] := (verifies_iff.mp hf).1
  have hzero : computeChecksum zeroCrc32Table (record f).2 = 0xFFFFFFFF :=
    computeChecksum_zero hlong
  rw [verifies_iff, Intact, hzero]
  exact ⟨fun h => h.2.symm, fun h => ⟨hne, h.symm⟩⟩

lemma no_refusal_iff (hcrc : p.crc = {}) (hreader : p.reader.Yields fs)
    (hfs : ∀ f ∈ fs, verifies initCrc32Table (record f) = true ∧ 4 ≤ f.payload.length)
    (steps : List ProcessStep) :
    some false ∉ Run.outputs step verdict p steps ↔
      ∀ f ∈ fs.take (earlyReads steps), (record f).1.checksum = 0xFFFFFFFF := by
  induction steps generalizing p fs with
  | nil => simp [Run.outputs, earlyReads]
  | cons s steps ih =>
      rw [Run.outputs, List.mem_cons, not_or]
      cases s with
      | constructJournal =>
          have hinit : p.crc.init = { table := initCrc32Table, initialized := true } := by
            rw [hcrc]
            rfl
          exact iff_of_true ⟨Option.some_ne_none false,
            no_refusal_of_table (p := p.step .constructJournal) hinit hreader
              (fun f hf => (hfs f hf).1) steps⟩ (by simp [earlyReads])
      | readNext =>
          have hearly : earlyReads (.readNext :: steps) = earlyReads steps + 1 := by
            simp [earlyReads]
          rw [hearly]
          cases fs with
          | nil =>
              obtain ⟨hnone, hyields⟩ := verdict_readNext_nil hreader
              rw [hnone, ih (p := p.step .readNext) hcrc hyields hfs]
              simp
          | cons f fs =>
              obtain ⟨hverdict, hyields⟩ := verdict_readNext_cons hreader
              obtain ⟨hf, hlong⟩ := hfs f List.mem_cons_self
              have hzero : p.crc.table = zeroCrc32Table := by rw [hcrc]
              have hsome : (¬ some false = p.verdict .readNext) ↔
                  (record f).1.checksum = 0xFFFFFFFF := by
                rw [hverdict, hzero, ← verifies_zero_iff hf hlong]
                cases verifies zeroCrc32Table (record f) <;> decide
              rw [hsome, List.take_succ_cons, List.forall_mem_cons,
                ih (p := p.step .readNext) hcrc hyields fun g hg =>
                  hfs g (List.mem_cons_of_mem f hg)]

/-- **When all records verify.** -/
theorem records_verify_iff (sessions : List (List LogCall)) (steps : List ProcessStep) :
    some false ∉ verdicts (fileAfter sessions) steps ↔
      ∀ f ∈ (written sessions).take (earlyReads steps), (record f).1.checksum = 0xFFFFFFFF := by
  have hreader : (construct (some (fileAfter sessions))).Yields (written sessions) := by
    refine .inr ⟨_, reads_construct _, ?_⟩
    rw [fileAfter_eq, Framing.split_joined]
  refine no_refusal_iff rfl hreader (fun f hf => ?_) steps
  obtain ⟨c, sequence, rfl⟩ := mem_written hf
  refine ⟨?_, ?_⟩
  · rw [LogCall.record_frame]
    exact c.verifies_logged sequence
  · show 4 ≤ c.payload.length
    rw [c.length_payload]
    cases c
    · exact (by decide : 4 ≤ (48 : UInt32).toNat)
    · exact (by decide : 4 ≤ (56 : UInt32).toNat)

/-- A process that only reads refuses an order that has been logged. -/
theorem reader_alone_refuses :
    ¬ some false ∉ verdicts (fileAfter [[.order
        { id := 7, price := 5, quantity := 3, side := .Buy, symbol := .ofChars [65] } .OrderNew 0
        ⟨.replicate 4 0, .replicate 4 0⟩]]) [.readNext] := by
  decide +kernel

end ReadingProcess

end Exchange
