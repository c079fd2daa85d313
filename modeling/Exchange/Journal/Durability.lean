import Exchange.Journal.RoundTrip

/-!
# What survives a crash

`file_` is a buffered stream: what `log_order` and `log_trade` write stays with the process until
the stream hands it on, which it may do at any time, and has to do in `flush`, `sync` and `close`.
When the process dies, the file is left with what has been handed on, which may end in the middle of
a record.  After `close` the calls write nothing, but they still count.

**`Writer.flushed_survive`** — whenever the process dies, also in the middle of a call, every record
that was logged before a flush is read again, whatever is appended to the file later; and the reads
of the file that is left return the first of the records logged, as many as there are complete.
-/

namespace Exchange

/-- `content` of the journal is what the stream has been given, of which the first `handed` bytes
have left the process. -/
structure Writer where
  journal : EventJournal
  handed : Nat
  isOpen : Bool

/-- What is done with a journal; `handOn` is what the stream does by itself. -/
inductive JournalStep
  | log (c : LogCall)
  | handOn (n : Nat)
  | flush
  | sync
  | close

namespace Writer

def construct (content : List UInt8) : Writer where
  journal := .construct content
  handed := content.length
  isOpen := true

variable (w : Writer)

/-- `log_order` and `log_trade`.  A stream that is not open takes nothing. -/
def log (c : LogCall) : Writer :=
  if w.isOpen then { w with journal := w.journal.log c }
  else { w with journal := { w.journal.log c with content := w.journal.content } }

def handOn (n : Nat) : Writer :=
  { w with handed := min (w.handed + n) w.journal.content.length }

def flush : Writer := { w with handed := w.journal.content.length }

/-- `sync`, where it is not compiled for Windows. -/
def sync : Writer := w.flush

def close : Writer := if w.isOpen then { w.flush with isOpen := false } else w

def step : JournalStep → Writer
  | .log c => w.log c
  | .handOn n => w.handOn n
  | .flush => w.flush
  | .sync => w.sync
  | .close => w.close

def run (steps : List JournalStep) : Writer := steps.foldl step w

/-- What the file holds after the process has died, in the middle of the call `unfinished` if there
is one, and when up to `n` bytes more had been handed on. -/
def crash (unfinished : Option LogCall) (n : Nat) : List UInt8 :=
  (unfinished.elim w w.log).journal.content.take (w.handed + n)

end Writer

namespace JournalStep

def event? : JournalStep → Option LogCall
  | .log c => some c
  | _ => none

def isClose : JournalStep → Bool
  | .close => true
  | _ => false

/-- The stream has to hand on what it has. -/
def Flushes : JournalStep → Prop
  | .flush | .sync | .close => True
  | .log _ | .handOn _ => False

/-- The events logged. -/
def logged (steps : List JournalStep) : List LogCall := steps.filterMap event?

/-- The events logged before the journal is closed. -/
def taken : List JournalStep → List LogCall
  | [] => []
  | step :: steps => if step.isClose then [] else step.event?.toList ++ taken steps

def closed (steps : List JournalStep) : Bool := steps.any isClose

lemma closed_concat (steps : List JournalStep) (step : JournalStep) :
    closed (steps ++ [step]) = (closed steps || step.isClose) := by
  simp [closed]

lemma logged_concat (steps : List JournalStep) (step : JournalStep) :
    logged (steps ++ [step]) = logged steps ++ step.event?.toList := by
  rw [logged, List.filterMap_append, ← logged]
  cases step <;> rfl

lemma taken_append (steps steps' : List JournalStep) :
    taken (steps ++ steps') = taken steps ++ if closed steps then [] else taken steps' := by
  induction steps with
  | nil => rfl
  | cons step steps ih =>
      rw [List.cons_append, taken, taken, closed, List.any_cons, ← closed]
      cases step.isClose with
      | true => rfl
      | false =>
          simp only [Bool.false_eq_true, if_false, Bool.false_or]
          rw [ih, List.append_assoc]

lemma taken_singleton (step : JournalStep) : taken [step] = step.event?.toList := by
  cases step <;> rfl

lemma taken_concat_of_open {steps : List JournalStep} (h : closed steps = false)
    (step : JournalStep) : taken (steps ++ [step]) = taken steps ++ step.event?.toList := by
  rw [taken_append, h, taken_singleton]
  rfl

lemma taken_concat_of_closed {steps : List JournalStep} (h : closed steps = true)
    (step : JournalStep) : taken (steps ++ [step]) = taken steps := by
  rw [taken_append, h]
  exact List.append_nil _

/-- Until it is closed, the journal takes every event. -/
lemma taken_eq_logged {steps : List JournalStep} (h : closed steps = false) :
    taken steps = logged steps := by
  induction steps using List.reverseRecOn with
  | nil => rfl
  | append_singleton steps step ih =>
      rw [closed_concat, Bool.or_eq_false_iff] at h
      rw [taken_concat_of_open h.1, logged_concat, ih h.1]

end JournalStep

namespace Writer

open EventJournal JournalStep

/-! ## What a journal has been given -/

/-- A journal opened on a file with `content`, after some steps. -/
structure Wrote (content : List UInt8) (steps : List JournalStep) (w : Writer) : Prop where
  content_eq : w.journal.content = content ++ Framing.joined (frames (taken steps))
  sequence_eq : w.journal.sequence = UInt64.ofNat (logged steps).length
  size_eq : w.journal.size = UInt64.ofNat ((logged steps).map LogCall.recordSize).sum
  isOpen_eq : w.isOpen = !closed steps
  handed_le : w.handed ≤ w.journal.content.length
  handed_of_closed : w.isOpen = false → w.handed = w.journal.content.length

variable {content : List UInt8} {steps : List JournalStep} {w : Writer}

lemma wrote_construct (content : List UInt8) : Wrote content [] (construct content) where
  content_eq := (List.append_nil _).symm
  sequence_eq := rfl
  size_eq := rfl
  isOpen_eq := rfl
  handed_le := Nat.le_refl _
  handed_of_closed := fun _ => rfl

lemma joined_frames_concat (calls : List LogCall) (c : LogCall) :
    Framing.joined (frames (calls ++ [c]))
      = Framing.joined (frames calls) ++ (c.frame (UInt64.ofNat calls.length)).bytes := by
  rw [frames_concat, Framing.joined_append, Framing.joined_cons]
  exact congrArg _ (List.append_nil _)

lemma Wrote.log (h : Wrote content steps w) (c : LogCall) :
    Wrote content (steps ++ [.log c]) (w.log c) := by
  have hlogged : logged (steps ++ [.log c]) = logged steps ++ [c] := logged_concat steps (.log c)
  have hclosed : closed (steps ++ [.log c]) = closed steps := by
    rw [closed_concat]
    exact Bool.or_false _
  have hsequence : w.journal.sequence + 1 = UInt64.ofNat (logged (steps ++ [.log c])).length := by
    rw [h.sequence_eq, hlogged, List.length_append, UInt64.ofNat_add]
    rfl
  have hsize : w.journal.fileSize + UInt64.ofNat c.recordSize
      = UInt64.ofNat ((logged (steps ++ [.log c])).map LogCall.recordSize).sum := by
    rw [← EventJournal.size, h.size_eq, hlogged, List.map_append, List.sum_append,
      UInt64.ofNat_add]
    simp
  rw [Writer.log]
  cases hopen : w.isOpen with
  | true =>
      have hfresh : closed steps = false := by
        rw [← Bool.not_eq_true', ← h.isOpen_eq, hopen]
      have htaken : taken (steps ++ [.log c]) = taken steps ++ [c] :=
        taken_concat_of_open hfresh (.log c)
      have hlength : w.journal.sequence = UInt64.ofNat (taken steps).length := by
        rw [h.sequence_eq, taken_eq_logged hfresh]
      rw [if_pos rfl, log_eq]
      refine ⟨?_, hsequence, ?_, by rw [hclosed, hfresh]; rfl, ?_, fun hclose => by cases hclose⟩
      · rw [htaken, joined_frames_concat, ← hlength, ← List.append_assoc, ← h.content_eq]
      · rw [← hsize, ← LogCall.length_frame c w.journal.sequence]
        rfl
      · rw [List.length_append]
        exact Nat.le_add_right_of_le h.handed_le
  | false =>
      have hdone : closed steps = true := by
        rw [← Bool.not_eq_false', ← h.isOpen_eq, hopen]
      rw [if_neg Bool.false_ne_true, log_eq]
      refine ⟨?_, hsequence, ?_, by rw [hclosed, hdone]; rfl, h.handed_le,
        fun _ => h.handed_of_closed hopen⟩
      · rw [taken_concat_of_closed hdone]
        exact h.content_eq
      · rw [← hsize, ← LogCall.length_frame c w.journal.sequence]
        rfl

/-- The other steps write nothing. -/
lemma Wrote.silent {w' : Writer} {step : JournalStep} (h : Wrote content steps w)
    (hevent : step.event? = none) (hjournal : w'.journal = w.journal)
    (hopen : w'.isOpen = (w.isOpen && !step.isClose))
    (hhanded : w'.handed ≤ w.journal.content.length)
    (hrest : w'.isOpen = false → w'.handed = w.journal.content.length) :
    Wrote content (steps ++ [step]) w' := by
  have htaken : taken (steps ++ [step]) = taken steps := by
    cases hclosed : closed steps with
    | true => exact taken_concat_of_closed hclosed step
    | false =>
        rw [taken_concat_of_open hclosed, hevent]
        exact List.append_nil _
  have hlogged : logged (steps ++ [step]) = logged steps := by
    rw [logged_concat, hevent]
    exact List.append_nil _
  constructor
  · rw [hjournal, htaken]
    exact h.content_eq
  · rw [hjournal, hlogged]
    exact h.sequence_eq
  · rw [hjournal, hlogged]
    exact h.size_eq
  · rw [hopen, h.isOpen_eq, closed_concat, Bool.not_or]
  · rw [hjournal]
    exact hhanded
  · rw [hjournal]
    exact hrest

lemma Wrote.step (h : Wrote content steps w) (step : JournalStep) :
    Wrote content (steps ++ [step]) (w.step step) := by
  cases step with
  | log c => exact h.log c
  | handOn n =>
      refine h.silent rfl rfl (Bool.and_true _).symm (Nat.min_le_right _ _) fun hopen => ?_
      exact Nat.min_eq_right (Nat.le_add_right_of_le (Nat.le_of_eq (h.handed_of_closed hopen).symm))
  | flush => exact h.silent rfl rfl (Bool.and_true _).symm (Nat.le_refl _) fun _ => rfl
  | sync => exact h.silent rfl rfl (Bool.and_true _).symm (Nat.le_refl _) fun _ => rfl
  | close =>
      rw [Writer.step, close]
      cases hopen : w.isOpen with
      | true => exact h.silent rfl rfl (by rw [hopen]; rfl) (Nat.le_refl _) fun _ => rfl
      | false =>
          exact h.silent rfl rfl (by rw [if_neg Bool.false_ne_true, hopen]; rfl) h.handed_le
            h.handed_of_closed

lemma run_append (w : Writer) (steps steps' : List JournalStep) :
    w.run (steps ++ steps') = (w.run steps).run steps' :=
  List.foldl_append

/-- **What a journal has been given**, and what its counters say, after any steps. -/
theorem wrote_run (content : List UInt8) (steps : List JournalStep) :
    Wrote content steps ((construct content).run steps) := by
  induction steps using List.reverseRecOn with
  | nil => exact wrote_construct content
  | append_singleton steps step ih =>
      rw [run_append]
      exact ih.step step

/-! ## What has left the process -/

/-- No step takes back what has been handed on. -/
lemma handed_le_step (hhanded : w.handed ≤ w.journal.content.length) (step : JournalStep) :
    w.handed ≤ (w.step step).handed := by
  cases step with
  | log c =>
      rw [step, log]
      split_ifs <;> exact Nat.le_refl _
  | handOn n => exact Nat.le_min.mpr ⟨Nat.le_add_right _ _, hhanded⟩
  | flush => exact hhanded
  | sync => exact hhanded
  | close =>
      rw [step, close]
      split_ifs
      · exact hhanded
      · exact Nat.le_refl _

lemma handed_le_run (h : Wrote content steps w) (steps' : List JournalStep) :
    w.handed ≤ (w.run steps').handed := by
  induction steps' generalizing steps w with
  | nil => exact Nat.le_refl _
  | cons step steps' ih => exact Nat.le_trans (handed_le_step h.handed_le step) (ih (h.step step))

/-- A flush hands on all there is. -/
lemma handed_of_flushes {step : JournalStep} (hstep : step.Flushes) (h : Wrote content steps w) :
    (content ++ Framing.joined (frames (taken steps))).length ≤ (w.step step).handed := by
  rw [← h.content_eq]
  cases step with
  | log c => exact hstep.elim
  | handOn n => exact hstep.elim
  | flush => exact Nat.le_refl _
  | sync => exact Nat.le_refl _
  | close =>
      rw [Writer.step, close]
      cases hopen : w.isOpen with
      | true => exact Nat.le_refl _
      | false => exact Nat.le_of_eq (h.handed_of_closed hopen).symm

/-! ## What is left -/

/-- The steps of a process that dies, with the call it dies in. -/
def dying (steps : List JournalStep) (unfinished : Option LogCall) : List JournalStep :=
  steps ++ unfinished.toList.map .log

/-- What a dying process leaves is the beginning of what it has written. -/
lemma crash_eq (content : List UInt8) (steps : List JournalStep) (unfinished : Option LogCall)
    (n : Nat) :
    ((construct content).run steps).crash unfinished n
      = (content ++ Framing.joined (frames (taken (dying steps unfinished)))).take
          (((construct content).run steps).handed + n) := by
  have hrun := wrote_run content steps
  cases unfinished with
  | none =>
      rw [crash, dying, Option.toList_none, List.map_nil, List.append_nil, ← hrun.content_eq]
      rfl
  | some c =>
      rw [crash, dying, Option.toList_some, List.map_singleton, ← (hrun.log c).content_eq]
      rfl

lemma frames_mono {calls calls' : List LogCall} (h : calls <+: calls') :
    frames calls <+: frames calls' := by
  obtain ⟨more, rfl⟩ := h
  rw [frames, frames, List.mapIdx_append]
  exact List.prefix_append _ _

lemma taken_prefix_dying (before steps : List JournalStep) (unfinished : Option LogCall) :
    taken before <+: taken (dying (before ++ steps) unfinished) := by
  rw [dying, List.append_assoc, taken_append]
  exact List.prefix_append _ _

/-- The bytes handed on reach beyond what was logged before a flush. -/
lemma flushed_le_handed (content : List UInt8) (before after : List JournalStep)
    {step : JournalStep} (hstep : step.Flushes) :
    (content ++ Framing.joined (frames (taken before))).length
      ≤ ((construct content).run (before ++ step :: after)).handed := by
  have hbefore := wrote_run content before
  rw [run_append]
  exact Nat.le_trans (handed_of_flushes hstep hbefore) (handed_le_run (hbefore.step step) after)

/-- Frames whose bytes are left are read, and what is logged verifies. -/
lemma readMany_joined_append {safe : List journalFraming.Frame} (rest : List UInt8)
    (hlogged : ∀ f ∈ safe, ∃ (c : LogCall) (sequence : UInt64), f = c.frame sequence) :
    JournalReader.readMany initCrc32Table safe.length
        (.construct (some (Framing.joined safe ++ rest)))
      = safe.map fun f => (some (record f), true) := by
  rw [JournalReader.readMany_eq initCrc32Table (JournalReader.reads_construct _),
    Framing.split_joined_append, List.take_left, List.length_append,
    Nat.sub_eq_zero_of_le (Nat.le_add_right _ _), List.replicate_zero, List.append_nil]
  refine List.map_congr_left fun f hf => ?_
  obtain ⟨c, sequence, rfl⟩ := hlogged f hf
  rw [LogCall.record_frame, LogCall.verifies_logged]

/-- **What was flushed survives.**  A journal is opened on a file that some sessions have written,
and the process dies after any steps, or in the middle of a call; `safe` are the records of the
earlier sessions and those logged before some flush, as far as the journal was open.  They are read
again, and verify, whatever is appended later.  Of the file as it is left, the reads return `safe`, perhaps some more of the
records logged after the flush, in order, and nothing else. -/
theorem flushed_survive (sessions : List (List LogCall)) (before after : List JournalStep)
    (step : JournalStep) (hstep : step.Flushes) (unfinished : Option LogCall) (n : Nat) :
    let steps := before ++ step :: after
    let left := ((construct (fileAfter sessions)).run steps).crash unfinished n
    let safe := written sessions ++ frames (taken before)
    (∀ later, JournalReader.readMany initCrc32Table safe.length (.construct (some (left ++ later)))
        = safe.map fun f => (some (record f), true)) ∧
      ∃ complete, safe <+: complete ∧
        complete <+: written sessions ++ frames (taken (dying steps unfinished)) ∧
        ∀ table k, (JournalReader.readMany table k (.construct (some left))).map Prod.fst
          = (complete.take k).map (fun f => some (record f))
            ++ List.replicate (k - complete.length) none := by
  intro steps left safe
  let all := written sessions ++ frames (taken (dying steps unfinished))
  let handed := ((construct (fileAfter sessions)).run steps).handed + n
  have hall : safe <+: all := (List.prefix_append_right_inj _).mpr
    (frames_mono (taken_prefix_dying before (step :: after) unfinished))
  have hleft : left = (Framing.joined all).take handed := by
    rw [Framing.joined_append, ← fileAfter_eq]
    exact crash_eq _ steps unfinished n
  have hhanded : (Framing.joined safe).length ≤ handed := by
    rw [Framing.joined_append, ← fileAfter_eq]
    exact Nat.le_add_right_of_le (flushed_le_handed _ before after hstep)
  obtain ⟨more, hmore⟩ := hall
  have hsafe : left = Framing.joined safe ++ (Framing.joined more).take
      (handed - (Framing.joined safe).length) := by
    rw [hleft, ← hmore, Framing.joined_append, List.take_append,
      List.take_of_length_le hhanded]
  have hlogged : ∀ f ∈ safe, ∃ (c : LogCall) (sequence : UInt64), f = c.frame sequence := by
    intro f hf
    rcases List.mem_append.mp hf with hold | hnew
    · exact mem_written hold
    · have hmem : f ∈ written [taken before] := by simpa [written] using hnew
      exact mem_written hmem
  refine ⟨fun later => ?_, Framing.within handed all, ?_, Framing.within_prefix _ _,
    fun table k => ?_⟩
  · rw [hsafe, List.append_assoc]
    exact readMany_joined_append _ hlogged
  · rw [← Framing.split_take, ← hleft, hsafe, Framing.split_joined_append]
    exact List.prefix_append _ _
  · rw [JournalReader.readMany_eq table (JournalReader.reads_construct _), hleft,
      Framing.split_take, List.map_append, List.map_map, List.map_replicate]
    rfl

/-- The records of `sampleCalls`, as two sessions log them. -/
def sampleSafe : List journalFraming.Frame :=
  written [sampleCalls] ++ frames (taken (sampleCalls.map .log))

theorem flushed_survive_sample :
    JournalReader.readMany initCrc32Table sampleSafe.length (.construct (some
        (((construct (fileAfter [sampleCalls])).run (sampleCalls.map .log
          ++ .flush :: (sampleCalls.map .log ++ [.handOn 40]))).crash none 0 ++ [1, 2])))
      = sampleSafe.map fun f => (some (record f), true) := by
  have hsurvive := flushed_survive [sampleCalls] (sampleCalls.map .log)
    (sampleCalls.map .log ++ [.handOn 40]) .flush trivial none 0
  exact hsurvive.1 [1, 2]

/-- Four records and 40 bytes of the next one are left. -/
example : (((construct (fileAfter [sampleCalls])).run (sampleCalls.map .log
    ++ .flush :: (sampleCalls.map .log ++ [.handOn 40]))).crash none 0).length = 376 := by
  decide +kernel

end Writer

end Exchange
