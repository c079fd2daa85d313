import Exchange.Journal.Replaying

/-!
# Where a replay stops

The loop of `replay_until` goes on while the number of the last record is less than the target.  A
harness that has read nothing says that this number is 0, and so does one that has read the first
record of a journal: the target 0 is met before anything is read.

* `Numbered` — records with the numbers `0, 1, 2, …`, as a session writes them;
* `readCount` — how many of them have been read for a target;
* **`replayUntil_iff`** — after targets that do not decrease, callbacks have got what the last of
  them asks for, unless it is 0 and there is a callback for the first record.
-/

namespace Exchange

open Loop

/-- Records that have the numbers `0, 1, 2, …`. -/
structure Numbered (fs : List journalFraming.Frame) : Prop where
  sequence_eq : ∀ i (hi : i < fs.length), (record fs[i]).1.sequence = UInt64.ofNat i
  length_le : fs.length ≤ 2 ^ 64

/-- The records up to a number. -/
def upTo (target : UInt64) (fs : List journalFraming.Frame) : List journalFraming.Frame :=
  fs.filter fun f => (record f).1.sequence ≤ target

/-- How many records have been read if nothing had been read before. -/
def readCount (target : UInt64) : Nat := if target = 0 then 0 else target.toNat + 1

/-- How many records have been read if there were `p` before. -/
def position (p : Nat) (target : UInt64) : Nat := max p (readCount target)

variable {fs : List journalFraming.Frame} {target last : UInt64} {targets : List UInt64}
  {p q : Nat}

lemma readCount_le_succ (target : UInt64) : readCount target ≤ target.toNat + 1 := by
  rw [readCount]
  split_ifs
  · exact Nat.zero_le _
  · exact Nat.le_refl _

lemma readCount_le_readCount (h : target ≤ last) : readCount target ≤ readCount last := by
  rw [readCount]
  split_ifs with hzero
  · exact Nat.zero_le _
  · have hlast : last ≠ 0 := by
      rintro rfl
      exact hzero (UInt64.le_zero_iff.mp h)
    rw [readCount, if_neg hlast]
    exact Nat.succ_le_succ h

/-- The number before `p` is less than the target. -/
lemma Numbered.lt_iff (h : Numbered fs) (hp : p ≤ fs.length) :
    UInt64.ofNat (p - 1) < target ↔ p < readCount target := by
  have hle := h.length_le
  have hsmall : p - 1 < 2 ^ 64 := by omega
  rw [UInt64.lt_iff_toNat_lt, UInt64.toNat_ofNat_of_lt' hsmall, readCount]
  split_ifs with hzero
  · rw [hzero]
    exact iff_of_false (Nat.not_lt_zero _) (Nat.not_lt_zero _)
  · have hpos : target.toNat ≠ 0 := fun htoNat => hzero (UInt64.toNat_inj.mp htoNat)
    omega

/-! ## One call -/

/-- What is read by a loop that starts after `p` records. -/
lemma Numbered.readUntil_eq (h : Numbered fs) (target : UInt64) (hp : p ≤ fs.length) :
    readUntil target (UInt64.ofNat (p - 1)) (fs.drop p)
      = (fs.drop p).take (readCount target - p) := by
  obtain ⟨left, hleft⟩ : ∃ left, left = fs.length - p := ⟨_, rfl⟩
  induction left generalizing p with
  | zero =>
      rw [List.drop_eq_nil_iff.mpr (by omega), List.take_nil]
      rfl
  | succ left ih =>
      have hlt : p < fs.length := by omega
      have hrest := ih (p := p + 1) hlt (by omega)
      rw [Nat.add_sub_cancel, ← h.sequence_eq p hlt] at hrest
      rw [List.drop_eq_getElem_cons hlt, readUntil]
      by_cases hmore : p < readCount target
      · -- one more record is read
        have hsucc : readCount target - p = readCount target - (p + 1) + 1 := by omega
        rw [if_pos ((h.lt_iff hp).mpr hmore), hrest, hsucc, List.take_succ_cons]
      · rw [if_neg fun hlt => hmore ((h.lt_iff hp).mp hlt),
          Nat.sub_eq_zero_of_le (Nat.not_lt.mp hmore), List.take_zero]

/-- The last number, after `q` records. -/
lemma Numbered.lastSequence_eq (h : Numbered fs) (hpq : p ≤ q) (hq : q ≤ fs.length) :
    lastSequence (UInt64.ofNat (p - 1)) ((fs.drop p).take (q - p)) = UInt64.ofNat (q - 1) := by
  induction q, hpq using Nat.le_induction with
  | base =>
      rw [Nat.sub_self, List.take_zero]
      rfl
  | succ q hpq ih =>
      have hlt : q - p < (fs.drop p).length := by
        rw [List.length_drop]
        omega
      rw [Nat.succ_sub hpq, List.take_succ_eq_append_getElem hlt, lastSequence, List.foldl_append,
        List.getElem_drop]
      simp only [List.foldl_cons, List.foldl_nil, Nat.add_sub_cancel' hpq]
      exact h.sequence_eq q hq

/-! ## Many calls -/

lemma foldl_position_le {bound : Nat} (hp : p ≤ bound)
    (htargets : ∀ target ∈ targets, readCount target ≤ bound) :
    targets.foldl position p ≤ bound := by
  induction targets generalizing p with
  | nil => exact hp
  | cons target targets ih =>
      rw [List.forall_mem_cons] at htargets
      exact ih (Nat.max_le.mpr ⟨hp, htargets.1⟩) htargets.2

lemma le_foldl_position (p : Nat) (targets : List UInt64) : p ≤ targets.foldl position p := by
  induction targets generalizing p with
  | nil => exact Nat.le_refl p
  | cons target targets ih => exact Nat.le_trans (Nat.le_max_left _ _) (ih _)

/-- What is read by calls that start after `p` records. -/
lemma Numbered.reached_eq (h : Numbered fs) (hp : p ≤ fs.length)
    (htargets : ∀ target ∈ targets, readCount target ≤ fs.length) :
    reached (targets.map .replayUntil) (UInt64.ofNat (p - 1)) (fs.drop p)
      = (fs.drop p).take (targets.foldl position p - p) := by
  induction targets generalizing p with
  | nil =>
      rw [List.foldl_nil, Nat.sub_self, List.take_zero]
      rfl
  | cons target targets ih =>
      rw [List.forall_mem_cons] at htargets
      have hle : p ≤ position p target := Nat.le_max_left _ _
      have hposition : position p target ≤ fs.length := Nat.max_le.mpr ⟨hp, htargets.1⟩
      have hsub : readCount target - p = position p target - p := by
        rw [position]
        omega
      have hreads : ReplayCall.reads (UInt64.ofNat (p - 1)) (fs.drop p) (.replayUntil target)
          = (fs.drop p).take (position p target - p) := by
        rw [← hsub]
        exact h.readUntil_eq target hp
      have hlength :
          ((fs.drop p).take (position p target - p)).length = position p target - p := by
        rw [List.length_take, List.length_drop]
        omega
      rw [List.map_cons, reached, hreads, h.lastSequence_eq hle hposition, hlength,
        List.drop_drop, Nat.add_sub_cancel' hle, ih hposition htargets.2, List.foldl_cons]
      have hend := le_foldl_position (position p target) targets
      generalize targets.foldl position (position p target) = r at hend
      have hsplit : r - p = (position p target - p) + (r - position p target) := by omega
      rw [hsplit, List.take_add, List.drop_drop, Nat.add_sub_cancel' hle]

/-- The last of targets that do not decrease is the one that counts. -/
lemma foldl_position_sorted (hsorted : (targets ++ [last]).Pairwise (· ≤ ·)) :
    (targets ++ [last]).foldl position 0 = readCount last := by
  rw [List.pairwise_append] at hsorted
  have hle : targets.foldl position 0 ≤ readCount last :=
    foldl_position_le (Nat.zero_le _) fun target htarget =>
      readCount_le_readCount (hsorted.2.2 target htarget last (List.mem_singleton.mpr rfl))
  rw [List.foldl_append]
  exact Nat.max_eq_right hle

lemma Numbered.sequence_le_iff (h : Numbered fs) {i : Nat} (hi : i < fs.length) :
    (record fs[i]).1.sequence ≤ last ↔ i ≤ last.toNat := by
  have hsmall : i < 2 ^ 64 := Nat.lt_of_lt_of_le hi h.length_le
  rw [h.sequence_eq i hi, UInt64.le_iff_toNat_le, UInt64.toNat_ofNat_of_lt' hsmall]

lemma Numbered.upTo_eq (h : Numbered fs) : upTo last fs = fs.take (last.toNat + 1) := by
  have hhead : ∀ f ∈ fs.take (last.toNat + 1), (record f).1.sequence ≤ last := by
    intro f hf
    obtain ⟨i, hi, rfl⟩ := List.mem_take_iff_getElem.mp hf
    exact (h.sequence_le_iff (by omega)).mpr (by omega)
  have htail : ∀ f ∈ fs.drop (last.toNat + 1), ¬ (record f).1.sequence ≤ last := by
    intro f hf hle
    obtain ⟨i, hi, rfl⟩ := List.mem_drop_iff_getElem.mp hf
    have hindex := (h.sequence_le_iff (by omega)).mp hle
    omega
  conv_lhs => rw [← List.take_append_drop (last.toNat + 1) fs]
  rw [upTo, List.filter_append, List.filter_eq_self.mpr, List.filter_eq_nil_iff.mpr,
    List.append_nil]
  · exact fun f hf hle => htail f hf (of_decide_eq_true hle)
  · exact fun f hf => decide_eq_true (hhead f hf)

lemma numbered_frames {calls : List LogCall} (h : calls.length ≤ 2 ^ 64) :
    Numbered (EventJournal.frames calls) where
  sequence_eq := by
    intro i hi
    simp only [EventJournal.frames, List.getElem_mapIdx, LogCall.record_frame]
    rfl
  length_le := by rwa [EventJournal.length_frames]

/-! ## A journal of one session -/

namespace WatchedHarness

/-- Load a file, and call `replay_until` for each of the targets. -/
def replayedUntil (h : ReplayHarness) (content : List UInt8) (targets : List UInt64) :
    WatchedHarness :=
  runLoaded h (some content) (targets.map .replayUntil)

/-- The callbacks have got the records up to `target`, each once and in order. -/
structure ReplayedUpTo (h : ReplayHarness) (fs : List journalFraming.Frame) (target : UInt64)
    (w : WatchedHarness) : Prop where
  invocations_eq : w.invocations = (upTo target fs).flatMap fun f => invoked h (record f)
  currentSeq_eq : w.harness.currentSeq = target

variable {h : ReplayHarness} {calls : List LogCall}

/-- Every call ends. -/
lemma replayedUntil_exits (h : ReplayHarness) (content : List UInt8) (before : List UInt64)
    (target : UInt64) :
    Exits (loopRound (some target)) (replayedUntil h content before)
      (replayedUntil h content (before ++ [target])) := by
  have hstands := (run_reads (at_loadJournal h (some content)) (before.map .replayUntil)).stands
  have hlast : replayedUntil h content (before ++ [target])
      = (replayedUntil h content before).replay (some target) := by
    rw [replayedUntil, runLoaded, List.map_append, List.foldl_append]
    rfl
  rw [hlast]
  exact (replay_run (some target) hstands hstands.length_lt).1

/-- What a run has read, and the number that the harness gives. -/
lemma replayedUntil_eq (h : ReplayHarness) (hcalls : calls.length ≤ 2 ^ 64)
    (hsorted : (targets ++ [last]).Pairwise (· ≤ ·)) (hlast : last.toNat < calls.length) :
    (replayedUntil h (EventJournal.session [] calls).content (targets ++ [last])).invocations
        = ((EventJournal.frames calls).take (readCount last)).flatMap
            (fun f => invoked h (record f)) ∧
      (replayedUntil h (EventJournal.session [] calls).content
        (targets ++ [last])).harness.currentSeq = last := by
  have hnumbered := numbered_frames hcalls
  have hcount : ∀ target ∈ targets ++ [last],
      readCount target ≤ (EventJournal.frames calls).length := by
    intro target htarget
    have hle : readCount target ≤ readCount last := by
      rcases List.mem_append.mp htarget with hbefore | hself
      · exact readCount_le_readCount
          ((List.pairwise_append.mp hsorted).2.2 target hbefore last (List.mem_singleton_self last))
      · rw [List.mem_singleton.mp hself]
    have hsucc := readCount_le_succ last
    rw [EventJournal.length_frames]
    omega
  have hall : fileFrames (some (EventJournal.session [] calls).content)
      = EventJournal.frames calls := congrArg Prod.fst (EventJournal.split_session calls)
  have hreached : reached ((targets ++ [last]).map .replayUntil) 0 (EventJournal.frames calls)
      = (EventJournal.frames calls).take (readCount last) := by
    have hreached := hnumbered.reached_eq (Nat.zero_le _) hcount
    rwa [foldl_position_sorted hsorted] at hreached
  have hread := run_reads (at_loadJournal h (some (EventJournal.session [] calls).content))
    ((targets ++ [last]).map .replayUntil)
  rw [hall, hreached] at hread
  refine ⟨hread.invocations_eq, hread.stands.currentSeq_eq.trans ?_⟩
  have hsequence := hnumbered.lastSequence_eq (Nat.zero_le (readCount last))
    (hcount last (List.mem_append_right _ (List.mem_singleton_self last)))
  refine hsequence.trans ?_
  rw [readCount]
  split_ifs with hzero
  · exact hzero.symm
  · exact UInt64.ofNat_toNat

lemma invoked_eq_nil_iff (h : ReplayHarness) (x : JournalHeader × List UInt8) :
    invoked h x = [] ↔ ¬ h.HasCallback x := by
  rw [invoked, List.map_eq_nil_iff, ← h.deliver_ne_nil_iff, not_not]

/-- **When a replay stops at the right record.** -/
theorem replayUntil_iff (h : ReplayHarness) (calls : List LogCall) (targets : List UInt64)
    (last : UInt64) (hcalls : calls.length ≤ 2 ^ 64)
    (hsorted : (targets ++ [last]).Pairwise (· ≤ ·)) (hlast : last.toNat < calls.length) :
    (∀ before target after, targets ++ [last] = before ++ target :: after →
      Exits (loopRound (some target))
        (replayedUntil h (EventJournal.session [] calls).content before)
        (replayedUntil h (EventJournal.session [] calls).content (before ++ [target]))) ∧
    (ReplayedUpTo h (EventJournal.frames calls) last
        (replayedUntil h (EventJournal.session [] calls).content (targets ++ [last])) ↔
      last ≠ 0 ∨ ∀ c ∈ calls.head?, ¬ h.HasCallback (c.header 0, c.payload)) := by
  obtain ⟨hinvocations, hcurrent⟩ := replayedUntil_eq h hcalls hsorted hlast
  refine ⟨fun before target _ _ => replayedUntil_exits h _ before target, ?_⟩
  have hiff : ReplayedUpTo h (EventJournal.frames calls) last
      (replayedUntil h (EventJournal.session [] calls).content (targets ++ [last])) ↔
      ((EventJournal.frames calls).take (readCount last)).flatMap (fun f => invoked h (record f))
        = ((EventJournal.frames calls).take (last.toNat + 1)).flatMap
            fun f => invoked h (record f) := by
    rw [← hinvocations, ← (numbered_frames hcalls).upTo_eq]
    exact ⟨fun hup => hup.invocations_eq, fun heq => ⟨heq, hcurrent⟩⟩
  rw [hiff, readCount]
  split_ifs with hzero
  · -- nothing has been read, and the first record should have been
    subst hzero
    cases calls with
    | nil => exact absurd hlast (Nat.not_lt_zero _)
    | cons c calls =>
        have hfirst : (EventJournal.frames (c :: calls)).take ((0 : UInt64).toNat + 1)
            = [c.frame 0] := by
          rw [EventJournal.frames, List.mapIdx_cons]
          rfl
        rw [hfirst, List.take_zero, List.flatMap_nil, List.flatMap_singleton, eq_comm,
          LogCall.record_frame, invoked_eq_nil_iff]
        simp
  · exact iff_of_true rfl (.inl hzero)

def twoOrders : List LogCall :=
  [.order { id := 7, price := 100, quantity := 3, side := .Buy, symbol := .ofChars [65] }
      .OrderNew 1 ⟨.replicate 4 0, .replicate 4 0⟩,
    .order { id := 8, price := 100, quantity := 3, side := .Sell, symbol := .ofChars [65] }
      .OrderNew 2 ⟨.replicate 4 0, .replicate 4 0⟩]

/-- The target 0 and then the target 1. -/
theorem both_orders_replayed :
    ReplayedUpTo { onOrder := true } (EventJournal.frames twoOrders) 1
      (replayedUntil { onOrder := true } (EventJournal.session [] twoOrders).content [0, 1]) :=
  (replayUntil_iff { onOrder := true } twoOrders [0] 1 (by decide) (by decide)
    (by decide)).2.mpr (.inl (by decide))

/-- The record with the number 0 is not replayed by `replay_until(0)`. -/
theorem first_record_withheld :
    (replayedUntil { onOrder := true } (EventJournal.session [] twoOrders).content
        [0]).harness.deliveries = [] ∧
      ¬ ReplayedUpTo { onOrder := true } (EventJournal.frames twoOrders) 0
        (replayedUntil { onOrder := true } (EventJournal.session [] twoOrders).content [0]) := by
  refine ⟨by decide +kernel, fun hup => ?_⟩
  exact absurd hup.invocations_eq (by decide +kernel)

end WatchedHarness

end Exchange
