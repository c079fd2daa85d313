import Exchange.Journal.Compare
import Exchange.Journal.Writing
import Mathlib.Data.List.Forall2

/-!
# Two journals of the same events

`log_order` and `log_trade` write their records as they lie in memory, and take the checksum over
all of it.  What the compiler puts between the fields is never assigned, so it is part of a record
without being part of the event.

**`journals_agree_iff`** — two journals of the same events verify against each other if and only if
the bytes between the fields happened to be the same in both.
-/

namespace Exchange

open EventJournal

/-- What is logged, less the time of day and what lies between the fields. -/
inductive LoggedEvent
  | order (order : Order) (type : EventType)
  | trade (trade : Trade)
deriving DecidableEq

namespace LogCall

def event : LogCall → LoggedEvent
  | .order o type _ _ => .order o type
  | .trade t _ _ => .trade t

/-- The bytes between the fields. -/
def padding : LogCall → List UInt8
  | .order _ _ _ padding => padding.beforePrice.toList ++ padding.beforeTimestamp.toList
  | .trade _ _ padding => padding.beforeBuyOrderId.toList

variable {c c' : LogCall}

/-- A payload is the event and the bytes between its fields. -/
lemma payload_eq_iff (h : c.event = c'.event) :
    c.payload = c'.payload ↔ c.padding = c'.padding := by
  cases c with
  | order o type now padding =>
      cases c' with
      | trade => cases h
      | order o' type' now' padding' =>
          cases h
          have hprice : padding.beforePrice.toList.length = padding'.beforePrice.toList.length := by
            rw [Vector.length_toList, Vector.length_toList]
          simp only [payload, LogCall.padding, JournalOrder.bytes, List.append_cancel_left_eq]
          constructor
          · intro hbytes
            obtain ⟨hfirst, hrest⟩ := List.append_inj hbytes hprice
            rw [List.append_cancel_left_eq, List.append_cancel_left_eq,
              List.append_cancel_right_eq] at hrest
            rw [hfirst, hrest]
          · intro hbytes
            obtain ⟨hfirst, hrest⟩ := List.append_inj hbytes hprice
            rw [hfirst, hrest]
  | trade t now padding =>
      cases c' with
      | order => cases h
      | trade t' now' padding' =>
          cases h
          simp only [payload, LogCall.padding, JournalTrade.bytes, List.append_cancel_left_eq,
            List.append_cancel_right_eq]

lemma payloadSize_eq (h : c.event = c'.event) : c.payloadSize = c'.payloadSize := by
  cases c <;> cases c' <;> first | rfl | cases h

lemma type_eq (h : c.event = c'.event) : c.type = c'.type := by
  cases c <;> cases c' <;> cases h <;> rfl

/-- Two records with the same number. -/
lemma sameRecord_iff (h : c.event = c'.event) (sequence : UInt64) :
    SameRecord initCrc32Table (record (c.frame sequence)) (record (c'.frame sequence)) ↔
      c.padding = c'.padding := by
  rw [record_frame, record_frame]
  constructor
  · intro hsame
    exact (payload_eq_iff h).mp hsame.payload_eq
  · intro hpadding
    have hpayload := (payload_eq_iff h).mpr hpadding
    exact
      { intact_left := JournalReader.verifies_iff.mp (c.verifies_logged sequence)
        intact_right := JournalReader.verifies_iff.mp (c'.verifies_logged sequence)
        sequence_eq := rfl
        eventType_eq := type_eq h
        payloadSize_eq := payloadSize_eq h
        checksum_eq := congrArg (computeChecksum initCrc32Table) hpayload
        payload_eq := hpayload }

end LogCall

/-- Payloads and checksums are equal, record by record. -/
def SamePayloads (a b : List UInt8) : Prop :=
  List.Forall₂ (fun f g => (record f).2 = (record g).2 ∧
    (record f).1.checksum = (record g).1.checksum) (fileFrames (some a)) (fileFrames (some b))

lemma forall₂_mapIdx {α β γ δ : Type} {S T : α → β → Prop} {R : γ → δ → Prop} {xs : List α}
    {ys : List β} (h : List.Forall₂ S xs ys) {f : Nat → α → γ} {g : Nat → β → δ}
    (hR : ∀ i x y, S x y → (R (f i x) (g i y) ↔ T x y)) :
    List.Forall₂ R (xs.mapIdx f) (ys.mapIdx g) ↔ List.Forall₂ T xs ys := by
  induction h generalizing f g with
  | nil => exact iff_of_true .nil .nil
  | cons hxy _ ih =>
      rw [List.mapIdx_cons, List.mapIdx_cons, List.forall₂_cons, List.forall₂_cons,
        hR 0 _ _ hxy, ih fun i x y h => hR (i + 1) x y h]

lemma map_eq_map_iff_forall₂ {α β : Type} (g : α → β) (xs ys : List α) :
    xs.map g = ys.map g ↔ List.Forall₂ (fun x y => g x = g y) xs ys := by
  rw [← List.forall₂_eq_eq_eq, List.forall₂_map_left_iff, List.forall₂_map_right_iff]

section TwoJournals

variable {calls calls' : List LogCall}

lemma fileFrames_session (calls : List LogCall) :
    fileFrames (some (session [] calls).content) = frames calls :=
  congrArg Prod.fst (split_session calls)

/-- What holds of two journals of the same events record by record. -/
lemma forall₂_frames (h : calls.map LogCall.event = calls'.map LogCall.event)
    {R : journalFraming.Frame → journalFraming.Frame → Prop}
    (hR : ∀ (sequence : UInt64) (c c' : LogCall), c.event = c'.event →
      (R (c.frame sequence) (c'.frame sequence) ↔ c.padding = c'.padding)) :
    List.Forall₂ R (fileFrames (some (session [] calls).content))
        (fileFrames (some (session [] calls').content)) ↔
      calls.map LogCall.padding = calls'.map LogCall.padding := by
  rw [map_eq_map_iff_forall₂] at h ⊢
  rw [fileFrames_session, fileFrames_session, frames, frames,
    forall₂_mapIdx h fun i c c' => hR (UInt64.ofNat i) c c']

/-- **When journals of the same events agree.** -/
theorem journals_agree_iff (h : calls.map LogCall.event = calls'.map LogCall.event)
    (harness : ReplayHarness) :
    (SamePayloads (session [] calls).content (session [] calls').content ∧
        ((harness.loadJournal (some (session [] calls).content)).verifyAgainst initCrc32Table
          (some (session [] calls').content)).1 = true) ↔
      calls.map LogCall.padding = calls'.map LogCall.padding := by
  have hpayloads : SamePayloads (session [] calls).content (session [] calls').content ↔
      calls.map LogCall.padding = calls'.map LogCall.padding := by
    refine forall₂_frames h fun sequence c c' hc => ?_
    rw [LogCall.record_frame, LogCall.record_frame, ← LogCall.payload_eq_iff hc]
    exact and_iff_left_of_imp fun hpayload => congrArg (computeChecksum initCrc32Table) hpayload
  have hverdict := (ReplayHarness.verifyAgainst_eq_true_iff initCrc32Table
    (harness.loadJournal (some (session [] calls).content))
    (.construct (some (session [] calls).content)) (some (session [] calls').content)).2
  have hrecords : RecordsAgree initCrc32Table (some (session [] calls).content)
      (some (session [] calls').content) ↔
        calls.map LogCall.padding = calls'.map LogCall.padding :=
    forall₂_frames h fun sequence c c' hc => LogCall.sameRecord_iff hc sequence
  rw [hpayloads]
  exact and_iff_left_of_imp fun hpadding => hverdict.mpr (hrecords.mpr hpadding)

end TwoJournals

/-- An order, logged where the stack held `byte`. -/
def loggedOver (byte : UInt8) : List LogCall :=
  [.order { id := 7, price := 5, quantity := 3, side := .Buy, symbol := .ofChars [65] } .OrderNew 0
    ⟨.replicate 4 byte, .replicate 4 0⟩]

/-- A trade, logged at some time. -/
def loggedAt (now : Timestamp) : List LogCall :=
  [.trade
    { seqNum := 1
      symbol := .ofChars [65]
      price := 5
      quantity := 3
      buyOrderId := 8
      sellOrderId := 7
      timestamp := 2
      aggressorSide := .Sell } now ⟨.replicate 4 7⟩]

/-- The time of day does not matter. -/
theorem journals_agree_later :
    SamePayloads (session [] (loggedAt 3)).content (session [] (loggedAt 9)).content := by
  have hevents : (loggedAt 3).map LogCall.event = (loggedAt 9).map LogCall.event := by decide
  exact ((journals_agree_iff hevents {}).mpr (by decide)).1

/-- What was on the stack tells two journals of the same event apart. -/
theorem stack_tells_journals_apart :
    (loggedOver 0).map LogCall.event = (loggedOver 1).map LogCall.event ∧
      ¬ (SamePayloads (session [] (loggedOver 0)).content (session [] (loggedOver 1)).content ∧
        ((ReplayHarness.loadJournal {} (some (session [] (loggedOver 0)).content)).verifyAgainst
          initCrc32Table (some (session [] (loggedOver 1)).content)).1 = true) := by
  have hverdict : ((ReplayHarness.loadJournal {}
      (some (session [] (loggedOver 0)).content)).verifyAgainst initCrc32Table
        (some (session [] (loggedOver 1)).content)).1 = false := by
    decide +kernel
  refine ⟨by decide, fun h => ?_⟩
  rw [hverdict] at h
  cases h.2

end Exchange
