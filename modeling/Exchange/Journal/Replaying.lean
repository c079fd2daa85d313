import Exchange.Journal.Compare
import Exchange.Journal.Writing

/-!
# Replaying a damaged journal

`step` hands a record to its callback without asking `verify_checksum` about it, and `replay_until`
and `replay_all` are loops of `step`.

`WatchedHarness` keeps the record of each invocation next to it; `watched_run` says that nothing
else is different.  `reached` is what the calls read, as a function of the records in the file.

**`invocations_run`** — a callback is invoked once for each of these that it takes.

**`replayed_intact_iff`** — so what callbacks get has the checksum of its header if and only if that
is so of all the records reached that have a callback.
-/

namespace Exchange

open Loop

/-- A call that replays. -/
inductive ReplayCall
  | step
  | replayUntil (seq : UInt64)
  | replayAll

namespace ReplayHarness

def call (h : ReplayHarness) : ReplayCall → ReplayHarness
  | .step => h.step.2
  | .replayUntil seq => h.replayUntil seq
  | .replayAll => h.replayAll

variable (h : ReplayHarness)

/-- The record that `step` is going to read. -/
def nextRecord : Option (JournalHeader × List UInt8) := h.reader.bind fun r => r.readNext.1

/-- There is a callback for the type of the record, and the payload is long enough. -/
def HasCallback (x : JournalHeader × List UInt8) : Prop :=
  (x.1.eventType = .OrderNew ∨ x.1.eventType = .OrderCancel ∨ x.1.eventType = .OrderReplace) ∧
      h.onOrder = true ∧ 48 ≤ x.2.length ∨
    x.1.eventType = .Trade ∧ h.onTrade = true ∧ 56 ≤ x.2.length

lemma deliver_ne_nil_iff (x : JournalHeader × List UInt8) :
    h.deliver x.1 x.2 ≠ [] ↔ h.HasCallback x := by
  rw [deliver, HasCallback]
  split_ifs with horder hcallback htrade hcallback
  · exact iff_of_true (List.cons_ne_nil _ _) (.inl ⟨horder, hcallback⟩)
  · refine iff_of_false (fun hne => hne rfl) ?_
    rintro (⟨-, hcallback'⟩ | ⟨htrade, -⟩)
    · exact hcallback hcallback'
    · rw [htrade] at horder
      exact absurd horder (by decide)
  · exact iff_of_true (List.cons_ne_nil _ _) (.inr ⟨htrade, hcallback⟩)
  · refine iff_of_false (fun hne => hne rfl) ?_
    rintro (⟨horder', -⟩ | ⟨-, hcallback'⟩)
    · exact horder horder'
    · exact hcallback hcallback'
  · refine iff_of_false (fun hne => hne rfl) ?_
    rintro (⟨horder', -⟩ | ⟨htrade', -⟩)
    · exact horder horder'
    · exact htrade htrade'

lemma deliveries_step :
    h.step.2.deliveries = h.deliveries ++ h.nextRecord.elim [] fun x => h.deliver x.1 x.2 := by
  rw [step, nextRecord]
  cases h.reader with
  | none => exact (List.append_nil _).symm
  | some r =>
      rw [Option.bind_some]
      cases hread : r.readNext with
      | mk found r' =>
          simp only [hread]
          cases found with
          | none => exact (List.append_nil _).symm
          | some x => rfl

end ReplayHarness

/-! ## The record of each invocation -/

/-- An invocation, and the record it is made for. -/
structure Invocation where
  header : JournalHeader
  payload : List UInt8
  delivery : Delivery
deriving DecidableEq, Repr

namespace Invocation

/-- The payload has the checksum that the header gives. -/
def Intact (i : Invocation) : Prop := computeChecksum initCrc32Table i.payload = i.header.checksum

instance (i : Invocation) : Decidable i.Intact := inferInstanceAs (Decidable (_ = _))

end Invocation

/-- `invocations` is ghost state: nothing reads it. -/
structure WatchedHarness where
  harness : ReplayHarness
  invocations : List Invocation := []

namespace WatchedHarness

/-- The invocations for a record. -/
def invoked (h : ReplayHarness) (x : JournalHeader × List UInt8) : List Invocation :=
  (h.deliver x.1 x.2).map fun d => ⟨x.1, x.2, d⟩

variable (w : WatchedHarness)

def step : Bool × WatchedHarness :=
  (w.harness.step.1,
    { harness := w.harness.step.2
      invocations := w.invocations ++ w.harness.nextRecord.elim [] (invoked w.harness) })

/-- A round of `while (more && step())`. -/
def round (more : Bool) : ForInStep WatchedHarness :=
  if more then
    match w.step with
    | (true, w) => .yield w
    | (false, w) => .done w
  else .done w

/-- The loop of `replay_all` goes on as long as there are records, that of `replay_until` until one
of them has the number. -/
def more (target : Option UInt64) : Bool := target.elim true fun seq => w.harness.currentSeq < seq

def loopRound (target : Option UInt64) (w : WatchedHarness) : ForInStep WatchedHarness :=
  w.round (w.more target)

def replay (target : Option UInt64) : WatchedHarness :=
  run (loopRound target) w.harness.replayFuel w

def call : ReplayCall → WatchedHarness
  | .step => w.step.2
  | .replayUntil seq => w.replay (some seq)
  | .replayAll => w.replay none

/-- `w` is the harness `h`, and what it has seen are the deliveries since `start`. -/
structure Watches (start : List Delivery) (w : WatchedHarness) (h : ReplayHarness) : Prop where
  harness_eq : w.harness = h
  deliveries_eq : h.deliveries = start ++ w.invocations.map Invocation.delivery

variable {w} {start : List Delivery} {h : ReplayHarness}

lemma Watches.step (hw : Watches start w h) : Watches start w.step.2 h.step.2 := by
  obtain ⟨rfl, hdeliveries⟩ := hw
  refine ⟨rfl, ?_⟩
  rw [ReplayHarness.deliveries_step, hdeliveries, List.append_assoc]
  show _ = start ++ (w.invocations ++ _).map _
  rw [List.map_append]
  cases w.harness.nextRecord with
  | none => rfl
  | some x =>
      show _ ++ (_ ++ w.harness.deliver x.1 x.2) = _ ++ (_ ++ (invoked w.harness x).map _)
      rw [invoked, List.map_map]
      exact congrArg (fun l => _ ++ (_ ++ l)) (List.map_id _).symm

/-- A round of a loop of the harness. -/
lemma Watches.round (hw : Watches start w h) :
    InStep (Watches start) (w.round true) h.replayStep := by
  have hstep := hw.step
  have hsame : w.step.1 = h.step.1 := by
    rw [← hw.harness_eq]
    rfl
  rw [WatchedHarness.round, if_pos rfl, ReplayHarness.replayStep]
  generalize w.step = found at hstep hsame
  generalize h.step = found' at hstep hsame
  obtain ⟨ok, w'⟩ := found
  obtain ⟨ok', h'⟩ := found'
  obtain rfl : ok = ok' := hsame
  cases ok with
  | true => exact .yield hstep
  | false => exact .done hstep

/-- **Watching changes nothing.** -/
theorem Watches.call (hw : Watches start w h) (c : ReplayCall) :
    Watches start (w.call c) (h.call c) := by
  have hfuel : w.harness.replayFuel = h.replayFuel := by rw [hw.harness_eq]
  cases c with
  | step => exact hw.step
  | replayAll =>
      show Watches start (w.replay none) h.replayAll
      rw [replay, ReplayHarness.replayAll, hfuel]
      exact run_inStep (fun _ _ hw => hw.round) _ hw
  | replayUntil seq =>
      show Watches start (w.replay (some seq)) (h.replayUntil seq)
      rw [replay, ReplayHarness.replayUntil, hfuel]
      refine run_inStep (fun w h hw => ?_) _ hw
      have hmore : w.more (some seq) = decide (h.currentSeq < seq) := by
        rw [← hw.harness_eq]
        rfl
      rw [loopRound, hmore, ReplayHarness.untilStep]
      by_cases hlt : h.currentSeq < seq
      · rw [if_pos hlt, decide_eq_true hlt]
        exact hw.round
      · rw [if_neg hlt, decide_eq_false hlt]
        exact .done hw

/-- A run of calls on a harness that has loaded a file. -/
def runLoaded (h : ReplayHarness) (content : Option (List UInt8)) (calls : List ReplayCall) :
    WatchedHarness :=
  calls.foldl call { harness := h.loadJournal content }

theorem watched_run (h : ReplayHarness) (content : Option (List UInt8)) (calls : List ReplayCall) :
    (runLoaded h content calls).harness = calls.foldl ReplayHarness.call (h.loadJournal content) ∧
      (calls.foldl ReplayHarness.call (h.loadJournal content)).deliveries
        = h.deliveries ++ (runLoaded h content calls).invocations.map Invocation.delivery := by
  have hrun : ∀ (calls : List ReplayCall) (w : WatchedHarness) (g : ReplayHarness),
      Watches h.deliveries w g →
        Watches h.deliveries (calls.foldl call w) (calls.foldl ReplayHarness.call g) := by
    intro calls
    induction calls with
    | nil => exact fun _ _ hw => hw
    | cons c calls ih => exact fun w g hw => ih _ _ (hw.call c)
  have hend := hrun calls { harness := h.loadJournal content } (h.loadJournal content)
    ⟨rfl, (List.append_nil _).symm⟩
  exact ⟨hend.harness_eq, hend.deliveries_eq⟩

/-! ## What is read -/

/-- `w` is going to read the frames `fs`, and the last number it has read is `seq`. -/
structure At (h : ReplayHarness) (seq : UInt64) (fs : List journalFraming.Frame)
    (w : WatchedHarness) : Prop where
  reads : ∃ r, w.harness.reader = some r ∧ r.Yields fs
  currentSeq_eq : w.harness.currentSeq = seq
  onOrder_eq : w.harness.onOrder = h.onOrder
  onTrade_eq : w.harness.onTrade = h.onTrade

end WatchedHarness

/-- What a loop that goes on until it has read the number `target` reads of the frames `fs`. -/
def readUntil (target : UInt64) : UInt64 → List journalFraming.Frame → List journalFraming.Frame
  | _, [] => []
  | seq, f :: fs =>
      if seq < target then f :: readUntil target (record f).1.sequence fs else []

/-- What a call reads. -/
def ReplayCall.reads (seq : UInt64) (fs : List journalFraming.Frame) :
    ReplayCall → List journalFraming.Frame
  | .step => fs.take 1
  | .replayUntil target => readUntil target seq fs
  | .replayAll => fs

/-- The number of the last of these records, or the one before them. -/
def lastSequence (seq : UInt64) (fs : List journalFraming.Frame) : UInt64 :=
  fs.foldl (fun _ f => (record f).1.sequence) seq

/-- What the calls of a run read, one after the other. -/
def reached : List ReplayCall → UInt64 → List journalFraming.Frame → List journalFraming.Frame
  | [], _, _ => []
  | c :: calls, seq, fs =>
      c.reads seq fs ++
        reached calls (lastSequence seq (c.reads seq fs)) (fs.drop (c.reads seq fs).length)

namespace WatchedHarness

variable {h : ReplayHarness} {w : WatchedHarness} {seq : UInt64} {f : journalFraming.Frame}
  {fs : List journalFraming.Frame}

lemma invoked_congr (hw : At h seq fs w) (x : JournalHeader × List UInt8) :
    invoked w.harness x = invoked h x := by
  rw [invoked, invoked, ReplayHarness.deliver, ReplayHarness.deliver, hw.onOrder_eq, hw.onTrade_eq]

lemma step_nil (hw : At h seq [] w) :
    ∃ w', w.step = (false, w') ∧ At h seq [] w' ∧ w'.invocations = w.invocations := by
  obtain ⟨r, hr, hyields⟩ := hw.reads
  obtain ⟨r', hread, hyields'⟩ := hyields.readNext_nil
  refine ⟨⟨{ w.harness with reader := some r' }, w.invocations⟩, ?_,
    ⟨⟨r', rfl, hyields'⟩, hw.currentSeq_eq, hw.onOrder_eq, hw.onTrade_eq⟩, rfl⟩
  simp only [step, ReplayHarness.step, ReplayHarness.nextRecord, hr, Option.bind_some, hread,
    Option.elim_none, List.append_nil]

lemma step_cons (hw : At h seq (f :: fs) w) :
    ∃ w', w.step = (true, w') ∧ At h (record f).1.sequence fs w' ∧
      w'.invocations = w.invocations ++ invoked h (record f) := by
  obtain ⟨r, hr, hyields⟩ := hw.reads
  obtain ⟨r', hread, hyields', -⟩ := hyields.readNext_cons
  refine ⟨⟨{ w.harness with
      reader := some r'
      currentSeq := (record f).1.sequence
      deliveries := w.harness.deliveries ++ w.harness.deliver (record f).1 (record f).2 },
    w.invocations ++ invoked h (record f)⟩, ?_,
    ⟨⟨r', rfl, hyields'⟩, rfl, hw.onOrder_eq, hw.onTrade_eq⟩, rfl⟩
  simp only [step, ReplayHarness.step, ReplayHarness.nextRecord, hr, Option.bind_some, hread,
    Option.elim_some, invoked_congr hw]

/-- What a loop reads; all of the frames if it has no target. -/
def loopReads (target : Option UInt64) (seq : UInt64) (fs : List journalFraming.Frame) :
    List journalFraming.Frame :=
  target.elim fs fun target => readUntil target seq fs

/-- `w'` has read the frames `got` after `w`, and `fs` were left before. -/
structure HasRead (h : ReplayHarness) (seq : UInt64) (got fs : List journalFraming.Frame)
    (w w' : WatchedHarness) : Prop where
  stands : At h (lastSequence seq got) (fs.drop got.length) w'
  invocations_eq : w'.invocations = w.invocations ++ got.flatMap fun f => invoked h (record f)

lemma HasRead.none (hw : At h seq fs w) : HasRead h seq [] fs w w :=
  ⟨hw, (List.append_nil _).symm⟩

lemma HasRead.cons {got : List journalFraming.Frame} {w' w'' : WatchedHarness}
    (hinvoked : w'.invocations = w.invocations ++ invoked h (record f))
    (hread : HasRead h (record f).1.sequence got fs w' w'') :
    HasRead h seq (f :: got) (f :: fs) w w'' where
  stands := hread.stands
  invocations_eq := by
    rw [hread.invocations_eq, hinvoked, List.append_assoc, List.flatMap_cons]

/-- **A loop ends**, and has read what it should. -/
lemma replay_run (target : Option UInt64) (hw : At h seq fs w) {n : Nat} (hn : fs.length < n) :
    Exits (loopRound target) w (run (loopRound target) n w) ∧
      HasRead h seq (loopReads target seq fs) fs w
        (run (loopRound target) n w) := by
  have hmore : ∀ {w seq fs}, At h seq fs w →
      w.more target = target.elim true fun target => decide (seq < target) := by
    intro w seq fs hw
    rw [more, hw.currentSeq_eq]
  induction n generalizing w seq fs with
  | zero => exact absurd hn (Nat.not_lt_zero _)
  | succ n ih =>
      cases hgo : w.more target with
      | false =>
          -- the number has been read before
          have hstep : loopRound target w = .done w := by rw [loopRound, hgo]; rfl
          have hnone : loopReads target seq fs = [] := by
            rw [hmore hw] at hgo
            cases target with
            | none => cases hgo
            | some target =>
                have hle : ¬ seq < target := of_decide_eq_false hgo
                cases fs with
                | nil => rfl
                | cons f fs => exact if_neg hle
          rw [run_succ_done hstep, hnone]
          exact ⟨.done hstep, .none hw⟩
      | true =>
          cases fs with
          | nil =>
              obtain ⟨w', hread, hw', hsame⟩ := step_nil hw
              have hstep : loopRound target w = .done w' := by
                rw [loopRound, hgo, round, if_pos rfl, hread]
              have hnone : loopReads target seq [] = [] := by cases target <;> rfl
              rw [run_succ_done hstep, hnone]
              exact ⟨.done hstep, hw', by rw [hsame]; exact (List.append_nil _).symm⟩
          | cons f fs =>
              obtain ⟨w', hread, hw', hinvoked⟩ := step_cons hw
              have hstep : loopRound target w = .yield w' := by
                rw [loopRound, hgo, round, if_pos rfl, hread]
              have hcons : loopReads target seq (f :: fs)
                  = f :: loopReads target (record f).1.sequence fs := by
                rw [hmore hw] at hgo
                cases target with
                | none => rfl
                | some target => exact if_pos (of_decide_eq_true hgo)
              obtain ⟨hexits, hrest⟩ := ih hw' (Nat.lt_of_succ_lt_succ hn)
              rw [run_succ_yield hstep, hcons]
              exact ⟨.yield hstep hexits, .cons hinvoked hrest⟩

lemma At.length_lt (hw : At h seq fs w) : fs.length < w.harness.replayFuel := by
  obtain ⟨r, hr, hyields⟩ := hw.reads
  rw [ReplayHarness.replayFuel, hr]
  refine Nat.lt_succ_of_le ?_
  obtain ⟨-, rfl⟩ | ⟨bs, hreads, rfl⟩ := hyields
  · exact Nat.zero_le _
  · show _ ≤ r.file.rest.length
    rw [hreads.rest_eq]
    exact journalFraming.length_split_le bs

/-- The step lemma. -/
lemma call_reads (hw : At h seq fs w) (c : ReplayCall) :
    HasRead h seq (c.reads seq fs) fs w (w.call c) := by
  cases c with
  | replayAll => exact (replay_run none hw hw.length_lt).2
  | replayUntil target => exact (replay_run (some target) hw hw.length_lt).2
  | step =>
      cases fs with
      | nil =>
          obtain ⟨w', hread, hw', hsame⟩ := step_nil hw
          rw [call, hread]
          exact ⟨hw', by rw [hsame]; exact (List.append_nil _).symm⟩
      | cons f fs =>
          obtain ⟨w', hread, hw', hinvoked⟩ := step_cons hw
          rw [call, hread]
          exact .cons hinvoked (.none hw')

lemma HasRead.trans {got got' : List journalFraming.Frame} {w' w'' : WatchedHarness}
    (hread : HasRead h seq got fs w w')
    (hread' : HasRead h (lastSequence seq got) got' (fs.drop got.length) w' w'') :
    HasRead h seq (got ++ got') fs w w'' where
  stands := by
    have hstands := hread'.stands
    rwa [lastSequence, lastSequence, ← List.foldl_append, List.drop_drop, ← List.length_append]
      at hstands
  invocations_eq := by
    rw [hread'.invocations_eq, hread.invocations_eq, List.flatMap_append, List.append_assoc]

/-- The run lemma. -/
lemma run_reads (hw : At h seq fs w) (calls : List ReplayCall) :
    HasRead h seq (reached calls seq fs) fs w (calls.foldl call w) := by
  induction calls generalizing w seq fs with
  | nil => exact .none hw
  | cons c calls ih =>
      have hread := call_reads hw c
      exact hread.trans (ih hread.stands)

lemma at_loadJournal (h : ReplayHarness) (content : Option (List UInt8)) :
    At h 0 (fileFrames content) { harness := h.loadJournal content } :=
  ⟨⟨_, rfl, JournalReader.yields_construct content⟩, rfl, rfl, rfl⟩

/-- **What the callbacks get in a run.** -/
theorem invocations_run (h : ReplayHarness) (content : Option (List UInt8))
    (calls : List ReplayCall) :
    (runLoaded h content calls).invocations
      = (reached calls 0 (fileFrames content)).flatMap fun f => invoked h (record f) :=
  (run_reads (at_loadJournal h content) calls).invocations_eq

/-- **When no corrupt payload is replayed.** -/
theorem replayed_intact_iff (h : ReplayHarness) (content : Option (List UInt8))
    (calls : List ReplayCall) :
    (∀ i ∈ (runLoaded h content calls).invocations, i.Intact) ↔
      ∀ f ∈ reached calls 0 (fileFrames content), h.HasCallback (record f) →
        computeChecksum initCrc32Table f.payload = (record f).1.checksum := by
  rw [invocations_run]
  constructor
  · intro hintact f hf hcallback
    obtain ⟨d, hd⟩ := List.exists_mem_of_ne_nil _ ((h.deliver_ne_nil_iff (record f)).mpr hcallback)
    exact hintact ⟨_, _, d⟩ (List.mem_flatMap.mpr ⟨f, hf, List.mem_map_of_mem hd⟩)
  · intro hintact i hi
    obtain ⟨f, hf, hi⟩ := List.mem_flatMap.mp hi
    obtain ⟨d, hd, rfl⟩ := List.mem_map.mp hi
    exact hintact f hf ((h.deliver_ne_nil_iff (record f)).mp (List.ne_nil_of_mem hd))

/-- A journal of one order, of which a byte has changed. -/
def damagedJournal : List UInt8 :=
  (EventJournal.session [] [.order
    { id := 7, price := 5, quantity := 3, side := .Buy, symbol := .ofChars [65] } .OrderNew 0
    ⟨.replicate 4 0, .replicate 4 0⟩]).content.set 32 8

/-- The order is replayed with another id. -/
theorem damaged_order_replayed :
    ¬ ∀ i ∈ (runLoaded { onOrder := true } (some damagedJournal) [.step]).invocations,
      i.Intact := by
  decide +kernel

end WatchedHarness

end Exchange
