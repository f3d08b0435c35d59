import Dexdo.Oracle.Count

namespace Dexdo

/-- The price lies between the bounds of outcome `k`, with zero and infinity at the ends. -/
def InRange (bounds : List ℕ) (price k : ℕ) : Prop :=
  k ≤ bounds.length ∧ (0 < k → bounds.getD (k - 1) 0 ≤ price) ∧
    (k < bounds.length → price < bounds.getD k 0)

namespace OracleEventList

variable {bounds : List ℕ} {price price' k : ℕ}

theorem outcomeOf_le : outcomeOf price bounds ≤ bounds.length := by
  induction bounds with
  | nil => exact Nat.le_refl 0
  | cons b bounds ih =>
    rw [outcomeOf, List.length_cons]
    split_ifs
    · exact Nat.zero_le _
    · exact Nat.succ_le_succ ih

theorem outcomeOf_bounds : (∀ i < outcomeOf price bounds, bounds.getD i 0 ≤ price) ∧
    (outcomeOf price bounds < bounds.length →
      price < bounds.getD (outcomeOf price bounds) 0) := by
  induction bounds with
  | nil => exact ⟨fun i hi => absurd hi (Nat.not_lt_zero i), fun h => absurd h (Nat.lt_irrefl 0)⟩
  | cons b bounds ih =>
    rw [outcomeOf]
    split_ifs with hb
    · exact ⟨fun i hi => absurd hi (Nat.not_lt_zero i), fun _ => hb⟩
    · refine ⟨?_, ?_⟩
      · intro i hi
        cases i with
        | zero => exact Nat.le_of_not_lt hb
        | succ i => exact ih.1 i (Nat.lt_of_succ_lt_succ hi)
      · intro h
        exact ih.2 (Nat.lt_of_succ_lt_succ h)

theorem outcomeOf_mono (h : price ≤ price') : outcomeOf price bounds ≤ outcomeOf price' bounds := by
  induction bounds with
  | nil => exact Nat.le_refl 0
  | cons b bounds ih =>
    rw [outcomeOf, outcomeOf]
    split_ifs with h1 h2
    · exact Nat.le_refl 0
    · exact Nat.zero_le _
    · omega
    · exact Nat.succ_le_succ ih

theorem BoundsAccepted.le (hb : BoundsAccepted bounds) {i j : ℕ} (hij : i ≤ j)
    (hj : j < bounds.length) : bounds.getD i 0 ≤ bounds.getD j 0 := by
  induction j, hij using Nat.le_induction with
  | base => exact Nat.le_refl _
  | succ j hij ih =>
    have h1 := hb.increasing (j + 1) hj (Nat.le_add_left 1 j)
    rw [Nat.add_sub_cancel] at h1
    exact (ih (Nat.lt_of_succ_lt hj)).trans h1.le

theorem outcomeOf_inRange : InRange bounds price (outcomeOf price bounds) :=
  ⟨outcomeOf_le, fun h => outcomeOf_bounds.1 _ (Nat.sub_lt h Nat.one_pos), outcomeOf_bounds.2⟩

theorem BoundsAccepted.unique (hb : BoundsAccepted bounds) (hk : InRange bounds price k) :
    k = outcomeOf price bounds := by
  obtain ⟨h1, h2, h3⟩ := hk
  have hspec : (∀ i < outcomeOf price bounds, bounds.getD i 0 ≤ price) ∧
      (outcomeOf price bounds < bounds.length →
        price < bounds.getD (outcomeOf price bounds) 0) := outcomeOf_bounds
  obtain ⟨h4, h5⟩ := hspec
  rcases Nat.lt_trichotomy k (outcomeOf price bounds) with h | h | h
  · have h6 := h4 k h
    have h7 := h3 (h.trans_le outcomeOf_le)
    omega
  · exact h
  · have h6 := h5 (h.trans_le h1)
    have h7 := h2 (Nat.zero_lt_of_lt h)
    have h8 := hb.le (Nat.le_sub_one_of_lt h)
      (Nat.lt_of_lt_of_le (Nat.sub_lt (Nat.zero_lt_of_lt h) Nat.one_pos) h1)
    omega

/-- Every price is mapped to the one range it lies in, and a higher price to no lower one. -/
def MapsPrices (s : OracleEventList) (e : ℕ) (bounds : List ℕ) : Prop :=
  ∀ price, (∀ k, InRange bounds price k ↔ k = s.priceToOutcome e price) ∧
    ∀ price', price ≤ price' → s.priceToOutcome e price ≤ s.priceToOutcome e price'

theorem BoundsAccepted.mapsPrices {s : OracleEventList} {e : ℕ} {range : RangeData}
    (hb : BoundsAccepted range.bounds) (hr : s.rangeData.lookup e = some range) :
    s.MapsPrices e range.bounds := by
  have hmap : ∀ price, s.priceToOutcome e price = outcomeOf price range.bounds := by
    intro price
    rw [priceToOutcome, hr]
    rfl
  intro price
  refine ⟨?_, ?_⟩
  · intro k
    rw [hmap]
    constructor
    · exact hb.unique
    · rintro rfl
      exact outcomeOf_inRange
  · intro price' hp
    rw [hmap, hmap]
    exact outcomeOf_mono hp

/-- Range data of a list: the bounds were accepted and match the labels, and the list is the
trusted address of the event. -/
structure RangeHeld (s : OracleEventList) (e : ℕ) (range : RangeData) : Prop where
  accepted : BoundsAccepted range.bounds
  event : ∃ info, s.events.lookup e = some info ∧
    info.outcomeNames.entries.length = range.bounds.length + 1 ∧ info.trustAddr = some s.address

/-- Every event is kept under its hash, and range data belong to an event. -/
structure Filed (s : OracleEventList) : Prop where
  key : ∀ e info, s.events.lookup e = some info → info.eventId = e
  range : ∀ e range, s.rangeData.lookup e = some range → s.RangeHeld e range

variable {s t : OracleEventList} {caller : Caller} {now : ℕ} {call : ListCall}

theorem addRangeEvent_mapsPrices {n d : String} {f t' : ℕ} {o : Mapping ℕ String} {ob : Addr}
    (h : s.addRangeEvent caller now n f t' d bounds o ob = some t) :
    t.MapsPrices (eventIdOf n t' d o) bounds := by
  simp only [addRangeEvent, bind_iff, pure_iff] at h
  obtain ⟨-, -, hl, h0, hi, -, -, -, -, rfl⟩ := h
  have hb : BoundsAccepted (RangeData.mk bounds ob).bounds := ⟨hl.1, hl.2, h0, hi⟩
  exact hb.mapsPrices (AList.lookup_insert s.rangeData)

theorem Filed.congr (h : s.Filed) (he : t.events = s.events) (hr : t.rangeData = s.rangeData)
    (ha : t.address = s.address) : t.Filed := by
  refine ⟨?_, ?_⟩
  · rw [he]
    exact h.key
  · intro e range hx
    rw [hr] at hx
    obtain ⟨h1, info, h2, h3⟩ := h.range e range hx
    exact ⟨h1, info, he ▸ h2, ha ▸ h3⟩

theorem Filed.count (h : s.Filed) {e c : ℕ} {info : EventInfo}
    (hi : s.events.lookup e = some info)
    (he : t.events = AList.insert e { info with count := c } s.events)
    (hr : t.rangeData = s.rangeData) (ha : t.address = s.address) : t.Filed := by
  refine ⟨?_, ?_⟩
  · intro x info' hx
    rw [he] at hx
    by_cases hxe : x = e
    · rw [hxe, AList.lookup_insert] at hx
      rw [← Option.some.inj hx, hxe]
      exact h.key e info hi
    · rw [AList.lookup_insert_ne hxe] at hx
      exact h.key x info' hx
  · intro x range hx
    rw [hr] at hx
    obtain ⟨h1, info', h2, h3⟩ := h.range x range hx
    by_cases hxe : x = e
    · subst hxe
      rw [hi] at h2
      rw [← Option.some.inj h2] at h3
      exact ⟨h1, { info with count := c }, by rw [he, AList.lookup_insert], by rw [ha]; exact h3⟩
    · exact ⟨h1, info', by rw [he, AList.lookup_insert_ne hxe]; exact h2, by rw [ha]; exact h3⟩

theorem Filed.addInfo (h : s.Filed) {info : EventInfo} (hf : s.Fresh now info) :
    (s.addInfo info).Filed := by
  refine ⟨?_, ?_⟩
  · intro x info' hx
    change AList.lookup x (AList.insert info.eventId info s.events) = some info' at hx
    by_cases hxe : x = info.eventId
    · rw [hxe, AList.lookup_insert] at hx
      rw [← Option.some.inj hx, hxe]
    · rw [AList.lookup_insert_ne hxe] at hx
      exact h.key x info' hx
  · intro x range hx
    obtain ⟨h1, info', h2, h3⟩ := h.range x range hx
    have hxe : x ≠ info.eventId := by
      intro hxe
      rw [hxe, hf.absent] at h2
      cases h2
    refine ⟨h1, info', ?_, h3⟩
    change AList.lookup x (AList.insert info.eventId info s.events) = some info'
    rw [AList.lookup_insert_ne hxe]
    exact h2

theorem Filed.addRange (h : s.Filed) {info : EventInfo} {range : RangeData}
    (hf : s.Fresh now info) (hb : BoundsAccepted range.bounds)
    (hn : info.outcomeNames.entries.length = range.bounds.length + 1)
    (ht : info.trustAddr = some s.address) :
    ((s.addInfo info).addRange info.eventId range).Filed := by
  have h0 := h.addInfo hf
  refine ⟨h0.key, ?_⟩
  intro x range' hx
  change AList.lookup x (AList.insert info.eventId range s.rangeData) = some range' at hx
  by_cases hxe : x = info.eventId
  · subst hxe
    rw [AList.lookup_insert] at hx
    cases hx
    exact ⟨hb, info, AList.lookup_insert s.events, hn, ht⟩
  · rw [AList.lookup_insert_ne hxe] at hx
    obtain ⟨h1, info', h2, h3⟩ := h0.range x range' hx
    exact ⟨h1, info', h2, h3⟩

theorem Filed.dropEvent (h : s.Filed) (e : ℕ) : (s.dropEvent e).Filed := by
  have hne : ∀ {β : Type} {m : Mapping ℕ β} {x : ℕ} {v : β},
      AList.lookup x (AList.erase e m) = some v → x ≠ e ∧ m.lookup x = some v := by
    intro β m x v hx
    by_cases hxe : x = e
    · rw [hxe, AList.lookup_erase] at hx
      cases hx
    · rw [AList.lookup_erase_ne hxe] at hx
      exact ⟨hxe, hx⟩
  refine ⟨?_, ?_⟩
  · intro x info hx
    exact h.key x info (hne hx).2
  · intro x range hx
    obtain ⟨hxe, hx⟩ := hne hx
    obtain ⟨h1, info, h2, h3⟩ := h.range x range hx
    refine ⟨h1, info, ?_, h3⟩
    change AList.lookup x (AList.erase e s.events) = some info
    rw [AList.lookup_erase_ne hxe]
    exact h2

theorem Filed.release (h : s.Filed) (hc : s.Counted) {a : Addr} {e : ℕ}
    (ha : s.pmpConfirmed.lookup a = some e) : (s.release a e).Filed := by
  obtain ⟨-, h2, h3, -⟩ := release_fields s a e
  have hpos := hc.pos ha
  have hi : s.events.lookup e = some (s.events.read e) := by
    apply lookup_of_has
    cases hx : s.events.lookup e with
    | none =>
      rw [Mapping.read, hx] at hpos
      exact absurd hpos (Nat.lt_irrefl 0)
    | some =>
      rw [Mapping.has, hx]
      rfl
  refine h.count (c := (s.events.read e).count - 1) hi ?_ h2 h3
  unfold OracleEventList.release
  dsimp only
  rw [if_pos hpos]

theorem Filed.effect (h : s.Filed) (hc : s.Counted) (he : s.Effect caller now call t) :
    t.Filed := by
  cases he with
  | kept => exact h
  | rejected => exact h.congr rfl rfl rfl
  | added info hcall hf => exact (h.addInfo hf).congr rfl rfl rfl
  | addedRange info range hcall hf hb hn ht => exact (h.addRange hf hb hn ht).congr rfl rfl rfl
  | confirmed m shell info t hcall he hm hr =>
    obtain ⟨h1, -, h3, h4, -⟩ := recordConfirmation_fields hr
    exact h.count he h1 h3 h4
  | asked => exact h.congr rfl rfl rfl
  | answered => exact h.congr rfl rfl rfl
  | cancelled m e hcall hm =>
    obtain ⟨m', hp, rfl⟩ := hc.mark _ _ hm
    cases hp
    exact h.release hc hm
  | bounced a e hcall hm => exact h.release hc hm
  | deleted e => exact h.dropEvent e

theorem effect_address (he : s.Effect caller now call t) : t.address = s.address := by
  cases he with
  | confirmed m shell info t hcall he hm hr => exact (recordConfirmation_fields hr).2.2.2.1
  | cancelled => exact (release_fields s _ _).2.2.1
  | bounced => exact (release_fields s _ _).2.2.1
  | _ => rfl

end OracleEventList

theorem eventId_inj {info info' : EventInfo} (h : info.eventId = info'.eventId) :
    info.deadline = info'.deadline ∧
      info.outcomeNames.entries.length = info'.outcomeNames.entries.length := by
  have h1 := Encodable.encode_injective h
  obtain ⟨-, h2⟩ := Prod.mk.inj h1
  obtain ⟨h3, h4⟩ := Prod.mk.inj h2
  obtain ⟨-, h5⟩ := Prod.mk.inj h4
  refine ⟨h3, ?_⟩
  have h6 := congrArg List.length h5
  simpa [outcomeLabels] using h6

end Dexdo
