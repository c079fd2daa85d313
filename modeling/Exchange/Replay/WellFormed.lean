import Exchange.Core.Run
import Exchange.Replay.Model
import Mathlib.Data.List.Induction

/-!
# Well-formed command streams

A stream of commands is well formed if every `ADD` names an id that is not live, and every `CANCEL`
and every `REPLACE` one that is live and was added with the same side and price.

An update looks into the dictionary before it adds.  A snapshot does not; and the dictionary goes by
the price as a string, the id by the fixed-point price.

* **`wellFormed_parseFeed_iff`** — the stream of a feed is well formed just if these two never
  matter: whatever is added, no price shown on its side at the time is the same in fixed point.
-/

namespace Exchange.ParseFeed

open Function (update)
open Run (Admitted run)

/-! ## Streams -/

/-- The live ids, with the side and the price they were added with. -/
abbrev Live := Nat → Option (Side × Nat)

def liveAfter (live : Live) (cmd : Command) : Live :=
  match cmd.type with
  | .ADD => update live cmd.orderId (some (cmd.side, cmd.price))
  | .CANCEL => update live cmd.orderId none
  | .REPLACE => live

def Accepts (live : Live) (cmd : Command) : Prop :=
  match cmd.type with
  | .ADD => live cmd.orderId = none
  | .CANCEL | .REPLACE => live cmd.orderId = some (cmd.side, cmd.price)

instance (live : Live) (cmd : Command) : Decidable (Accepts live cmd) :=
  match cmd with
  | ⟨.ADD, _, oid, _, _⟩ => inferInstanceAs (Decidable (live oid = none))
  | ⟨.CANCEL, side, oid, price, _⟩ | ⟨.REPLACE, side, oid, price, _⟩ =>
      inferInstanceAs (Decidable (live oid = some (side, price)))

def WellFormed (cmds : List Command) : Prop := Admitted liveAfter Accepts (fun _ => none) cmds

instance (cmds : List Command) : Decidable (WellFormed cmds) :=
  inferInstanceAs (Decidable (Admitted liveAfter Accepts (fun _ => none) cmds))

/-! ## Feeds, entry by entry -/

/-- An entry of a feed, with the list it stands in. -/
structure Item where
  inSnapshot : Bool
  side : Side
  entry : Entry
deriving DecidableEq, Repr

def items : Message → List Item
  | .status => []
  | .array payload =>
      if payload.as.isSome || payload.bs.isSome then
        (payload.as.getD []).map (⟨true, .Sell, ·⟩) ++ (payload.bs.getD []).map (⟨true, .Buy, ·⟩)
      else if payload.a.isSome || payload.b.isSome then
        (payload.a.getD []).map (⟨false, .Sell, ·⟩) ++ (payload.b.getD []).map (⟨false, .Buy, ·⟩)
      else []

variable (c : Conversion)

/-- The price level is there after the entry. -/
def Item.shows (i : Item) : Bool := i.inSnapshot || c.sizeToQty i.entry.sizeStr ≠ 0

/-- The price is shown on the side, by the last entry for it. -/
def shown (before : List Item) (side : Side) (priceStr : String) : Bool :=
  (before.reverse.find? fun i => i.side = side ∧ i.entry.priceStr = priceStr).any (·.shows c)

/-- Whatever is added, no price shown on its side is the same in fixed point. -/
def Distinct (its : List Item) : Prop :=
  ∀ before i after, its = before ++ i :: after →
    (i.inSnapshot ∨ i.shows c ∧ ¬ shown c before i.side i.entry.priceStr) →
      ∀ priceStr, shown c before i.side priceStr →
        c.priceToFixed priceStr ≠ c.priceToFixed i.entry.priceStr

/-- One round of the inner loops. -/
def entryStep (s : FeedState) (i : Item) : FeedState :=
  if i.inSnapshot then snapshotEntry c i.side s i.entry else updateEntry c i.side s i.entry

lemma foldl_entryStep_map (inSnapshot : Bool) (side : Side) (es : List Entry) (s : FeedState) :
    (es.map (⟨inSnapshot, side, ·⟩)).foldl (entryStep c) s
      = es.foldl (if inSnapshot then snapshotEntry c side else updateEntry c side) s := by
  rw [List.foldl_map]
  cases inSnapshot <;> rfl

lemma message_eq (s : FeedState) (m : Message) :
    message c s m = (items m).foldl (entryStep c) s := by
  cases m with
  | status => rfl
  | array payload =>
      rw [message, items]
      split_ifs
      · rw [List.foldl_append, foldl_entryStep_map, foldl_entryStep_map]
        rfl
      · rw [List.foldl_append, foldl_entryStep_map, foldl_entryStep_map]
        rfl
      · rfl

lemma parseFeed_eq (feed : List Message) :
    parseFeed c feed = ((feed.flatMap items).foldl (entryStep c) {}).commands := by
  have hfold : ∀ s, feed.foldl (message c) s = (feed.flatMap items).foldl (entryStep c) s := by
    induction feed with
    | nil => exact fun _ => rfl
    | cons m feed ih =>
        intro s
        rw [List.foldl_cons, ih, message_eq, List.flatMap_cons, List.foldl_append]
  rw [parseFeed, hfold]

/-! ## Ids -/

variable {c : Conversion}

lemma makeOrderId_eq (side : Side) {p : Nat} (hp : p < 2 ^ 60) :
    makeOrderId side p = sideCode side * 2 ^ 60 + p := by
  have hmask : p &&& 0x0FFFFFFFFFFFFFFF = p := by
    rw [show 0x0FFFFFFFFFFFFFFF = 2 ^ 60 - 1 from rfl, Nat.and_two_pow_sub_one_eq_mod,
      Nat.mod_eq_of_lt hp]
  rw [makeOrderId, hmask, ← Nat.shiftLeft_add_eq_or_of_lt hp, Nat.shiftLeft_eq]

/-- An id says the side and the price. -/
lemma makeOrderId_inj {side side' : Side} {p p' : Nat} (hp : p < 2 ^ 60) (hp' : p' < 2 ^ 60) :
    makeOrderId side p = makeOrderId side' p' ↔ side = side' ∧ p = p' := by
  rw [makeOrderId_eq side hp, makeOrderId_eq side' hp']
  constructor
  · intro heq
    cases side <;> cases side' <;> simp only [sideCode, true_and, reduceCtorEq] at heq ⊢ <;> omega
  · rintro ⟨rfl, rfl⟩
    rfl

/-! ## One entry -/

section Step

variable {s : FeedState} {i : Item} {books : Books} {live : Live} {side : Side}
  {priceStr : String} {oid : Nat}

lemma Books.set_apply (books : Books) (side side' : Side) (priceStr priceStr' : String)
    (oid : Option Nat) : books.set side priceStr oid side' priceStr'
      = if side = side' ∧ priceStr = priceStr' then oid else books side' priceStr' := by
  by_cases hside : side = side'
  · subst hside
    rw [Books.set, Function.update_self, Function.update_apply]
    simp only [true_and, eq_comm]
  · rw [Books.set, Function.update_of_ne (Ne.symm hside), if_neg fun h => hside h.1]

/-- The entry adds a price level. -/
def Item.adds (c : Conversion) (books : Books) (i : Item) : Prop :=
  i.inSnapshot ∨ i.shows c ∧ (books i.side i.entry.priceStr).isNone

/-- The id of the price level that an entry is about. -/
def Item.orderId (c : Conversion) (i : Item) : Nat :=
  makeOrderId i.side (c.priceToFixed i.entry.priceStr)

/-- The command that an entry makes, and the dictionaries after it. -/
lemma entryStep_cases (c : Conversion) (s : FeedState) (i : Item) :
    (i.adds c s.books ∧ i.shows c = true ∧ entryStep c s i =
      ⟨s.books.set i.side i.entry.priceStr (some (i.orderId c)),
        s.commands ++ [⟨.ADD, i.side, i.orderId c, c.priceToFixed i.entry.priceStr,
          c.sizeToQty i.entry.sizeStr⟩]⟩) ∨
    (¬ i.adds c s.books ∧ i.shows c = true ∧ ∃ oid, s.books i.side i.entry.priceStr = some oid ∧
      entryStep c s i = ⟨s.books, s.commands ++ [⟨.REPLACE, i.side, oid,
        c.priceToFixed i.entry.priceStr, c.sizeToQty i.entry.sizeStr⟩]⟩) ∨
    (¬ i.adds c s.books ∧ i.shows c = false ∧ ∃ oid, s.books i.side i.entry.priceStr = some oid ∧
      entryStep c s i = ⟨s.books.set i.side i.entry.priceStr none,
        s.commands ++ [⟨.CANCEL, i.side, oid, c.priceToFixed i.entry.priceStr, 0⟩]⟩) ∨
    (¬ i.adds c s.books ∧ i.shows c = false ∧ s.books i.side i.entry.priceStr = none ∧
      entryStep c s i = s) := by
  obtain ⟨inSnapshot, side, entry⟩ := i
  cases inSnapshot with
  | true => exact Or.inl ⟨Or.inl rfl, rfl, rfl⟩
  | false =>
      have hadds : Item.adds c s.books ⟨false, side, entry⟩ ↔
          c.sizeToQty entry.sizeStr ≠ 0 ∧ s.books side entry.priceStr = none := by
        simp [Item.adds, Item.shows]
      have hshows : Item.shows c ⟨false, side, entry⟩ = decide (c.sizeToQty entry.sizeStr ≠ 0) :=
        Bool.false_or _
      have hstep : entryStep c s ⟨false, side, entry⟩ = updateEntry c side s entry := rfl
      rw [hadds, hshows, hstep, updateEntry]
      by_cases hqty : c.sizeToQty entry.sizeStr = 0 <;> cases hbook : s.books side entry.priceStr
      · right; right; right
        simp [hqty]
      · right; right; left
        simp [hqty]
      · left
        simp [hqty, Item.orderId]
      · right; left
        simp [hqty]

/-! ## The dictionaries and the live ids -/

/-- The ids that are live after the commands. -/
def liveOf (cmds : List Command) : Live := run liveAfter (fun _ => none) cmds

lemma wellFormed_concat (cmds : List Command) (cmd : Command) :
    WellFormed (cmds ++ [cmd]) ↔ WellFormed cmds ∧ Accepts (liveOf cmds) cmd := by
  rw [WellFormed, Run.admitted_append]
  exact and_congr_right fun _ => and_iff_left trivial

lemma liveOf_concat (cmds : List Command) (cmd : Command) :
    liveOf (cmds ++ [cmd]) = liveAfter (liveOf cmds) cmd := Run.run_append _ _ _

/-- The live ids are those of the price levels shown, no two of which have the same id. -/
structure Tracks (c : Conversion) (books : Books) (live : Live) : Prop where
  named : ∀ side priceStr oid, books side priceStr = some oid →
    oid = makeOrderId side (c.priceToFixed priceStr)
  distinct : ∀ side priceStr priceStr', (books side priceStr).isSome →
    (books side priceStr').isSome → c.priceToFixed priceStr = c.priceToFixed priceStr' →
    priceStr = priceStr'
  live_iff : ∀ oid side price, live oid = some (side, price) ↔
    ∃ priceStr, books side priceStr = some oid ∧ c.priceToFixed priceStr = price

/-- What makes an entry safe. -/
def Safe (c : Conversion) (s : FeedState) (i : Item) : Prop :=
  i.adds c s.books → ∀ priceStr, (s.books i.side priceStr).isSome →
    c.priceToFixed priceStr ≠ c.priceToFixed i.entry.priceStr

/-- A safe entry keeps the stream well formed. -/
def Good (c : Conversion) (s : FeedState) : Prop :=
  WellFormed s.commands ∧ Tracks c s.books (liveOf s.commands)

lemma Tracks.empty (c : Conversion) : Tracks c (fun _ _ => none) (fun _ => none) where
  named := nofun
  distinct _ _ _ h := nomatch h
  live_iff := by simp

lemma Tracks.add (h : Tracks c books live) (hsafe : ∀ priceStr', (books side priceStr').isSome →
      c.priceToFixed priceStr' ≠ c.priceToFixed priceStr) :
    Tracks c (books.set side priceStr (some (makeOrderId side (c.priceToFixed priceStr))))
      (update live (makeOrderId side (c.priceToFixed priceStr))
        (some (side, c.priceToFixed priceStr))) where
  named side' priceStr' oid hbook := by
    rw [Books.set_apply] at hbook
    split_ifs at hbook with hnew
    · obtain ⟨rfl, rfl⟩ := hnew
      exact (Option.some.inj hbook).symm
    · exact h.named side' priceStr' oid hbook
  distinct side' priceStr₁ priceStr₂ h₁ h₂ hprice := by
    rw [Books.set_apply] at h₁ h₂
    split_ifs at h₁ h₂ with hnew₁ hnew₂ hnew₂
    · exact hnew₁.2.symm.trans hnew₂.2
    · obtain ⟨rfl, rfl⟩ := hnew₁
      exact absurd hprice.symm (hsafe priceStr₂ h₂)
    · obtain ⟨rfl, rfl⟩ := hnew₂
      exact absurd hprice (hsafe priceStr₁ h₁)
    · exact h.distinct side' priceStr₁ priceStr₂ h₁ h₂ hprice
  live_iff oid side' price := by
    by_cases hoid : oid = makeOrderId side (c.priceToFixed priceStr)
    · rw [hoid, Function.update_self]
      constructor
      · rintro ⟨⟩
        exact ⟨priceStr, by rw [Books.set_apply, if_pos ⟨rfl, rfl⟩], rfl⟩
      · rintro ⟨priceStr', hbook, rfl⟩
        rw [Books.set_apply] at hbook
        split_ifs at hbook with hnew
        · obtain ⟨rfl, rfl⟩ := hnew
          rfl
        · -- No other price level has the new id.
          obtain ⟨rfl, hprice⟩ := (makeOrderId_inj (c.price_lt _) (c.price_lt _)).mp
            (h.named side' priceStr' _ hbook)
          exact absurd hprice.symm (hsafe priceStr' (Option.isSome_of_eq_some hbook))
    · rw [Function.update_of_ne hoid, h.live_iff]
      refine exists_congr fun priceStr' => and_congr_left fun _ => ?_
      rw [Books.set_apply]
      split_ifs with hnew
      · obtain ⟨rfl, rfl⟩ := hnew
        refine iff_of_false (fun hbook => ?_) fun heq => hoid (Option.some.inj heq).symm
        exact hsafe priceStr (Option.isSome_of_eq_some hbook) rfl
      · exact Iff.rfl

lemma Tracks.cancel (h : Tracks c books live) (hshown : books side priceStr = some oid) :
    Tracks c (books.set side priceStr none) (update live oid none) where
  named side' priceStr' oid' hbook := by
    rw [Books.set_apply] at hbook
    split_ifs at hbook
    exact h.named side' priceStr' oid' hbook
  distinct side' priceStr₁ priceStr₂ h₁ h₂ hprice := by
    rw [Books.set_apply] at h₁ h₂
    split_ifs at h₁ h₂
    · exact nomatch h₁
    · exact nomatch h₁
    · exact nomatch h₂
    · exact h.distinct side' priceStr₁ priceStr₂ h₁ h₂ hprice
  live_iff oid' side' price := by
    by_cases hoid : oid' = oid
    · rw [hoid, Function.update_self]
      refine iff_of_false nofun ?_
      rintro ⟨priceStr', hbook, -⟩
      rw [Books.set_apply] at hbook
      split_ifs at hbook with hgone
      -- Only the price level that is gone had the id.
      have hid := (h.named side priceStr oid hshown).symm.trans (h.named side' priceStr' oid hbook)
      obtain ⟨rfl, hprice⟩ := (makeOrderId_inj (c.price_lt _) (c.price_lt _)).mp hid
      exact hgone ⟨rfl, h.distinct side priceStr priceStr' (Option.isSome_of_eq_some hshown)
        (Option.isSome_of_eq_some hbook) hprice⟩
    · rw [Function.update_of_ne hoid, h.live_iff]
      refine exists_congr fun priceStr' => and_congr_left fun _ => ?_
      rw [Books.set_apply]
      split_ifs with hgone
      · obtain ⟨rfl, rfl⟩ := hgone
        refine iff_of_false (fun hbook => hoid ?_) nofun
        exact Option.some.inj (hbook.symm.trans hshown)
      · exact Iff.rfl

/-- The id of a price level that is shown is live. -/
lemma Tracks.live_of_shown (h : Tracks c books live) (hshown : books side priceStr = some oid) :
    live oid = some (side, c.priceToFixed priceStr) :=
  (h.live_iff _ _ _).mpr ⟨priceStr, hshown, rfl⟩

lemma Good.step (h : Good c s) (hsafe : Safe c s i) : Good c (entryStep c s i) := by
  obtain ⟨hwf, htracks⟩ := h
  obtain ⟨hadds, -, hstep⟩ | ⟨-, -, oid, hshown, hstep⟩ | ⟨-, -, oid, hshown, hstep⟩ |
    ⟨-, -, -, hstep⟩ := entryStep_cases c s i
  · have hnew : liveOf s.commands (i.orderId c) = none := by
      cases hlive : liveOf s.commands (i.orderId c) with
      | none => rfl
      | some level =>
          obtain ⟨side, price⟩ := level
          obtain ⟨priceStr, hbook, rfl⟩ := (htracks.live_iff _ _ _).mp hlive
          obtain ⟨rfl, hprice⟩ := (makeOrderId_inj (c.price_lt _) (c.price_lt _)).mp
            (htracks.named _ _ _ hbook)
          exact absurd hprice.symm (hsafe hadds priceStr (Option.isSome_of_eq_some hbook))
    rw [hstep, Good, wellFormed_concat, liveOf_concat]
    exact ⟨⟨hwf, hnew⟩, htracks.add (hsafe hadds)⟩
  · rw [hstep, Good, wellFormed_concat, liveOf_concat]
    exact ⟨⟨hwf, htracks.live_of_shown hshown⟩, htracks⟩
  · rw [hstep, Good, wellFormed_concat, liveOf_concat]
    exact ⟨⟨hwf, htracks.live_of_shown hshown⟩, htracks.cancel hshown⟩
  · rw [hstep]
    exact ⟨hwf, htracks⟩

/-- An entry that is not safe adds an id that is live. -/
lemma Good.not_wellFormed (h : Good c s) (hsafe : ¬ Safe c s i) :
    ¬ WellFormed (entryStep c s i).commands := by
  rw [Safe, Classical.not_imp] at hsafe
  obtain ⟨hadds, hsame⟩ := hsafe
  obtain ⟨priceStr, hshown, hprice⟩ : ∃ priceStr, (s.books i.side priceStr).isSome ∧
      c.priceToFixed priceStr = c.priceToFixed i.entry.priceStr := by
    simpa using hsame
  obtain ⟨oid, hbook⟩ := Option.isSome_iff_exists.mp hshown
  obtain ⟨-, -, hstep⟩ | ⟨hno, -⟩ | ⟨hno, -⟩ | ⟨hno, -⟩ := entryStep_cases c s i
  · have hlive := h.2.live_of_shown hbook
    rw [h.2.named _ _ _ hbook, hprice] at hlive
    rw [hstep, wellFormed_concat]
    rintro ⟨-, hnone⟩
    exact absurd (hnone.symm.trans hlive) nofun
  · exact absurd hadds hno
  · exact absurd hadds hno
  · exact absurd hadds hno

/-- A stream that is not well formed stays so. -/
lemma wellFormed_of_step (h : WellFormed (entryStep c s i).commands) : WellFormed s.commands := by
  obtain ⟨-, -, hstep⟩ | ⟨-, -, _, -, hstep⟩ | ⟨-, -, _, -, hstep⟩ | ⟨-, -, -, hstep⟩ :=
    entryStep_cases c s i
  · rw [hstep, wellFormed_concat] at h
    exact h.1
  · rw [hstep, wellFormed_concat] at h
    exact h.1
  · rw [hstep, wellFormed_concat] at h
    exact h.1
  · rwa [hstep] at h

/-- A price is shown after an entry for it just if the entry shows it. -/
lemma isSome_books_step (s : FeedState) (i : Item) (side : Side) (priceStr : String) :
    ((entryStep c s i).books side priceStr).isSome
      = if i.side = side ∧ i.entry.priceStr = priceStr then i.shows c
        else (s.books side priceStr).isSome := by
  obtain ⟨-, hshows, hstep⟩ | ⟨-, hshows, oid, hshown, hstep⟩ | ⟨-, hshows, oid, -, hstep⟩ |
    ⟨-, hshows, hshown, hstep⟩ := entryStep_cases c s i
  · simp only [hstep, hshows, Books.set_apply]
    split_ifs <;> rfl
  · rw [hstep, hshows]
    split_ifs with hlast
    · rw [← hlast.1, ← hlast.2, hshown]
      rfl
    · rfl
  · simp only [hstep, hshows, Books.set_apply]
    split_ifs <;> rfl
  · rw [hstep, hshows]
    split_ifs with hlast
    · rw [← hlast.1, ← hlast.2, hshown]
      rfl
    · rfl

end Step

/-! ## Feeds -/

lemma shown_concat (before : List Item) (i : Item) (side : Side) (priceStr : String) :
    shown c (before ++ [i]) side priceStr
      = if i.side = side ∧ i.entry.priceStr = priceStr then i.shows c
        else shown c before side priceStr := by
  rw [shown, List.reverse_append, List.reverse_singleton, List.singleton_append, List.find?_cons]
  by_cases hlast : i.side = side ∧ i.entry.priceStr = priceStr
  · rw [decide_eq_true hlast, if_pos hlast]
    rfl
  · rw [decide_eq_false hlast, if_neg hlast]
    rfl

/-- What the dictionaries show. -/
lemma isSome_books (before : List Item) (side : Side) (priceStr : String) :
    ((run (entryStep c) {} before).books side priceStr).isSome = shown c before side priceStr := by
  induction before using List.reverseRecOn with
  | nil => rfl
  | append_singleton before i ih =>
      rw [Run.run_append, shown_concat, ← ih]
      exact isSome_books_step _ i side priceStr

/-- **When the stream of a feed is well formed.** -/
theorem wellFormed_parseFeed_iff (c : Conversion) (feed : List Message) :
    WellFormed (parseFeed c feed) ↔ Distinct c (feed.flatMap items) := by
  have hstart : Good c {} := ⟨trivial, .empty c⟩
  have hend : WellFormed (parseFeed c feed) ↔
      Run.Throughout (entryStep c) (fun s => WellFormed s.commands) {} (feed.flatMap items) := by
    rw [parseFeed_eq, Run.throughout_iff_end fun _ _ => wellFormed_of_step]
    rfl
  rw [hend, Run.throughout_iff_admitted (I := Good c) (fun _ h => h.1)
    (fun _ _ h hsafe => h.step hsafe) (fun _ _ h hsafe => h.not_wellFormed hsafe) hstart,
    Run.admitted_iff_forall_split]
  refine forall_congr' fun before => forall_congr' fun i => forall_congr' fun after =>
    imp_congr_right fun _ => ?_
  have hadds : Item.adds c (run (entryStep c) {} before).books i ↔
      i.inSnapshot ∨ i.shows c ∧ ¬ shown c before i.side i.entry.priceStr := by
    rw [Item.adds, ← isSome_books, Bool.not_eq_true, Option.isSome_eq_false_iff]
  simp only [Safe, hadds, isSome_books]

end Exchange.ParseFeed
