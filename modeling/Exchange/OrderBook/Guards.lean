import Exchange.OrderBook.Calls

/-!
# Conditions on adds and replaces in place

A replace to another price is a cancel and an add, so a condition on what is added (`okAdd`) and one
on what is replaced in place (`okInPlace`) make a condition on every call, `Guarded`.

`Guards` says that such a condition *decides* a property: the calls that satisfy it keep an
invariant with the property, and an add or a replace in place that does not breaks the property at
once.  Then a run has the property throughout exactly if all its calls are guarded
(**`Guards.throughout_iff`**).
-/

namespace Exchange.OrderBook

open Std (ExtTreeMap)

/-- A replace of the order `existing` takes the same-price branch. -/
def ReplacesInPlace (s : Store) (existing : Order) (newPrice : Price) : Prop :=
  existing.price = newPrice ∧ existing.price ∈ s.levels existing.side

instance (s : Store) (existing : Order) (newPrice : Price) :
    Decidable (ReplacesInPlace s existing newPrice) :=
  inferInstanceAs (Decidable (_ ∧ _))

def Guarded (okAdd : OrderBook → Order → Prop) (okInPlace : Order → Quantity → Prop)
    (b : OrderBook) : Op → Prop
  | .add order => okAdd b order
  | .replace _ id newPrice newQty =>
      ∀ existing, b.store.orders[id]? = some existing →
        if ReplacesInPlace b.store existing newPrice then okInPlace existing newQty
        else okAdd (b.cancelOrder id).2 (replacement existing id newPrice newQty)
  | .cancel _ => True
  | .flush => True

/-- Of the calls that satisfy `pre`, the guarded ones keep `I`, and the others break `P`. -/
structure Guards (pre : OrderBook → Op → Prop) (okAdd : OrderBook → Order → Prop)
    (okInPlace : Order → Quantity → Prop) (I P : OrderBook → Prop) : Prop where
  holds : ∀ {b : OrderBook}, I b → P b
  add : ∀ {b : OrderBook} {order : Order}, I b → pre b (.add order) → okAdd b order →
    I (b.addOrder order).2
  add_breaks : ∀ {b : OrderBook} {order : Order}, I b → pre b (.add order) → ¬ okAdd b order →
    ¬ P (b.addOrder order).2
  cancel : ∀ {b : OrderBook} (id : OrderId), I b → I (b.cancelOrder id).2
  flush : ∀ {b : OrderBook}, I b → I b.flushTrades
  inPlace : ∀ {b : OrderBook} {uninit : OrderResult} {id : OrderId} {newPrice : Price}
    {newQty : Quantity} {existing : Order} {level : PriceLevel}, I b →
    pre b (.replace uninit id newPrice newQty) → InPlace b.store id newPrice existing level →
    okInPlace existing newQty →
    I { b with store := amend b.store id existing level newQty }.maybeEmitBbo
  inPlace_breaks : ∀ {b : OrderBook} {uninit : OrderResult} {id : OrderId} {newPrice : Price}
    {newQty : Quantity} {existing : Order} {level : PriceLevel}, I b →
    pre b (.replace uninit id newPrice newQty) → InPlace b.store id newPrice existing level →
    ¬ okInPlace existing newQty →
    ¬ P { b with store := amend b.store id existing level newQty }.maybeEmitBbo
  moved : ∀ {b : OrderBook} {uninit : OrderResult} {id : OrderId} {newPrice : Price}
    {newQty : Quantity} {existing : Order}, pre b (.replace uninit id newPrice newQty) →
    b.store.orders[id]? = some existing →
    pre (b.cancelOrder id).2 (.add (replacement existing id newPrice newQty))

/-! ## The branch of a replace -/

lemma InPlace.replacesInPlace {s : Store} {id : OrderId} {newPrice : Price} {existing : Order}
    {level : PriceLevel} (h : InPlace s id newPrice existing level) :
    ReplacesInPlace s existing newPrice :=
  ⟨h.price_eq, KeyList.mem_iff_exists_getElem?.mpr ⟨level, h.level_eq⟩⟩

lemma ReplacesInPlace.inPlace {s : Store} {id : OrderId} {newPrice : Price} {existing : Order}
    (h : ReplacesInPlace s existing newPrice) (ho : s.orders[id]? = some existing) :
    ∃ level, InPlace s id newPrice existing level := by
  obtain ⟨level, hl⟩ := KeyList.mem_iff_exists_getElem?.mp h.2
  exact ⟨level, ho, h.1, hl⟩

lemma level_eq_none_of_not_replacesInPlace {s : Store} {newPrice : Price} {existing : Order}
    (h : ¬ ReplacesInPlace s existing newPrice) (hprice : existing.price = newPrice) :
    (s.levels existing.side)[existing.price]? = none := by
  rw [← Option.not_isSome_iff_eq_none, ← ExtTreeMap.mem_iff_isSome_getElem?]
  exact fun hmem => h ⟨hprice, hmem⟩

/-- A replace, by its branch. -/
theorem apply_replace (b : OrderBook) (uninit : OrderResult) (id : OrderId) (newPrice : Price)
    (newQty : Quantity) {existing : Order} (ho : b.store.orders[id]? = some existing) :
    (∃ level, InPlace b.store id newPrice existing level ∧
      apply b (.replace uninit id newPrice newQty)
        = { b with store := amend b.store id existing level newQty }.maybeEmitBbo) ∨
      (¬ ReplacesInPlace b.store existing newPrice ∧
        apply b (.replace uninit id newPrice newQty)
          = ((b.cancelOrder id).2.addOrder (replacement existing id newPrice newQty)).2) := by
  by_cases hat : ReplacesInPlace b.store existing newPrice
  · obtain ⟨level, hin⟩ := hat.inPlace ho
    exact Or.inl ⟨level, hin, by rw [apply, replaceOrder_of_inPlace hin]⟩
  · exact Or.inr ⟨hat, by
      rw [apply, replaceOrder_of_moved ho (level_eq_none_of_not_replacesInPlace hat)]⟩

namespace Guards

variable {pre : OrderBook → Op → Prop} {okAdd : OrderBook → Order → Prop}
  {okInPlace : Order → Quantity → Prop} {I P : OrderBook → Prop} {b : OrderBook}

/-- Guarded calls keep the invariant. -/
theorem step (h : Guards pre okAdd okInPlace I P) {op : Op} (hb : I b) (hpre : pre b op)
    (hop : Guarded okAdd okInPlace b op) : I (apply b op) := by
  cases op with
  | add order => exact h.add hb hpre hop
  | cancel id => exact h.cancel id hb
  | flush => exact h.flush hb
  | replace uninit id newPrice newQty =>
      cases ho : b.store.orders[id]? with
      | none =>
          rw [apply, replaceOrder_of_none ho]
          exact hb
      | some existing =>
          have hop := hop existing ho
          rcases apply_replace b uninit id newPrice newQty ho with
            ⟨level, hin, heq⟩ | ⟨hmoved, heq⟩
          · rw [if_pos hin.replacesInPlace] at hop
            rw [heq]
            exact h.inPlace hb hpre hin hop
          · rw [if_neg hmoved] at hop
            rw [heq]
            exact h.add (h.cancel id hb) (h.moved hpre ho) hop

/-- The other calls break the property. -/
theorem breaks (h : Guards pre okAdd okInPlace I P) {op : Op} (hb : I b) (hpre : pre b op)
    (hop : ¬ Guarded okAdd okInPlace b op) : ¬ P (apply b op) := by
  cases op with
  | add order => exact h.add_breaks hb hpre hop
  | cancel id => exact absurd trivial hop
  | flush => exact absurd trivial hop
  | replace uninit id newPrice newQty =>
      simp only [Guarded, not_forall] at hop
      obtain ⟨existing, ho, hop⟩ := hop
      rcases apply_replace b uninit id newPrice newQty ho with ⟨level, hin, heq⟩ | ⟨hmoved, heq⟩
      · rw [if_pos hin.replacesInPlace] at hop
        rw [heq]
        exact h.inPlace_breaks hb hpre hin hop
      · rw [if_neg hmoved] at hop
        rw [heq]
        exact h.add_breaks (h.cancel id hb) (h.moved hpre ho) hop

/-- **A run has the property throughout exactly if all its calls are guarded.** -/
theorem throughout_iff (h : Guards pre okAdd okInPlace I P) {ops : List Op}
    (hops : Run.Admitted apply pre b ops) (hb : I b) :
    Run.Throughout apply P b ops ↔ Run.Admitted apply (Guarded okAdd okInPlace) b ops :=
  hops.throughout_iff (I := I) (fun _ hb => h.holds hb) (fun _ _ hb hpre hop => h.step hb hpre hop)
    (fun _ _ hb hpre hop => h.breaks hb hpre hop) hb

end Guards

end Exchange.OrderBook
