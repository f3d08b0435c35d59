import Dexdo.Oracle.List

namespace Dexdo

/-- Key under which an event is kept. -/
def EventInfo.eventId (info : EventInfo) : ℕ :=
  eventIdOf info.eventName info.deadline info.describe info.outcomeNames

namespace OracleEventList

def addInfo (s : OracleEventList) (info : EventInfo) : OracleEventList :=
  { s with events := AList.insert info.eventId info s.events }

def addRange (s : OracleEventList) (eventId : ℕ) (range : RangeData) : OracleEventList :=
  { s with rangeData := AList.insert eventId range s.rangeData }

def dropEvent (s : OracleEventList) (eventId : ℕ) : OracleEventList :=
  { s with
    events := AList.erase eventId s.events
    rangeData := AList.erase eventId s.rangeData }

/-- Checks of `addRangeEvent` on the bounds. -/
structure BoundsAccepted (bounds : List ℕ) : Prop where
  nonempty : 1 ≤ bounds.length
  bounded : bounds.length < 19
  first : 0 < bounds.getD 0 0
  increasing : ∀ i < bounds.length, 1 ≤ i → bounds.getD (i - 1) 0 < bounds.getD i 0

/-- A new event, as both ways of adding one record it. -/
structure Fresh (s : OracleEventList) (now : ℕ) (info : EventInfo) : Prop where
  deadline : now < info.deadline
  count : info.count = 0
  size : 2 ≤ info.outcomeNames.entries.length
  absent : s.events.lookup info.eventId = none

/-- The PMP whose mark a call takes away. -/
def released? : Caller → ListCall → Option Addr
  | .internal a, .cancelEvent market => if a = .pmp market then some a else none
  | .internal a, .onBounce => some a
  | _, _ => none

/-- Everything a transaction of a list can do. -/
inductive Effect (s : OracleEventList) (caller : Caller) (now : ℕ) (call : ListCall) :
    OracleEventList → Prop
  | kept (hcall : ∀ a ∈ released? caller call, s.pmpConfirmed.lookup a = none) :
      Effect s caller now call s
  | rejected (m : MarketId) (shell : ℕ) (hcall : released? caller call = none) :
      Effect s caller now call (s.act (.rejectEvent m shell))
  | added (info : EventInfo) (hcall : released? caller call = none) (hf : s.Fresh now info) :
      Effect s caller now call ((s.addInfo info).emit
        (.eventAdded info.eventId info.eventName info.oracleFee info.deadline))
  | addedRange (info : EventInfo) (range : RangeData) (hcall : released? caller call = none)
      (hf : s.Fresh now info)
      (hb : BoundsAccepted range.bounds)
      (hn : info.outcomeNames.entries.length = range.bounds.length + 1)
      (ht : info.trustAddr = some s.address) :
      Effect s caller now call ((((s.addInfo info).addRange info.eventId range).emit
        (.eventAdded info.eventId info.eventName info.oracleFee info.deadline)).emit
        (.rangeEventAdded info.eventId range.ob range.bounds))
  | confirmed (m : MarketId) (shell : ℕ) (info : EventInfo) (t : OracleEventList)
      (hcall : call = .confirmEvent m shell)
      (he : s.events.lookup m.eventId = some info)
      (hm : s.pmpConfirmed.lookup (.pmp m) = none)
      (h : s.recordConfirmation m shell info = some t) : Effect s caller now call t
  | asked (e h k : ℕ) (range : RangeData) (info : EventInfo) (hcall : released? caller call = none)
      (hr : s.rangeData.lookup e = some range) (he : s.events.lookup e = some info)
      (hd : info.deadline ≤ now) :
      Effect s caller now call (s.act (.requestWeeklyMedian range.ob e h k))
  | answered (e h k price : ℕ) (range : RangeData) (hcall : call = .onWeeklyMedian e h k price)
      (hr : s.rangeData.lookup e = some range) (hs : caller.isSender range.ob = true) :
      Effect s caller now call (s.act (.submitResolve ⟨e, h, k⟩ (outcomeOf price range.bounds)))
  | cancelled (m : MarketId) (e : ℕ) (hcall : released? caller call = some (.pmp m))
      (hm : s.pmpConfirmed.lookup (.pmp m) = some e) :
      Effect s caller now call (s.release (.pmp m) m.eventId)
  | bounced (a : Addr) (e : ℕ) (hcall : released? caller call = some a)
      (hm : s.pmpConfirmed.lookup a = some e) : Effect s caller now call (s.release a e)
  | deleted (e : ℕ) (hcall : call = .deleteEvent e) (hc : (s.events.read e).count = 0)
      (hd : (s.events.read e).deadline < now) : Effect s caller now call (s.dropEvent e)

variable {s t : OracleEventList} {caller : Caller} {now : ℕ} {call : ListCall}

theorem lookup_of_has {κ β : Type} [DecidableEq κ] [Inhabited β] {m : Mapping κ β} {k : κ}
    (h : m.has k = true) : m.lookup k = some (m.read k) := by
  obtain ⟨v, hv⟩ := Option.isSome_iff_exists.mp h
  rw [Mapping.read, hv]
  rfl

theorem lookup_of_not_has {κ β : Type} [DecidableEq κ] {m : Mapping κ β} {k : κ}
    (h : ¬ m.has k = true) : m.lookup k = none := by
  simpa [Mapping.has] using h

theorem addEvent_effect {n d : String} {f t' : ℕ} {o : Mapping ℕ String} {a : Option Addr}
    (hcall : released? caller call = none) (h : s.addEvent caller now n f t' d o a = some t) :
    s.Effect caller now call t := by
  simp only [addEvent, bind_iff, pure_iff] at h
  obtain ⟨-, hd, h2, -, -, hf, rfl⟩ := h
  exact .added ⟨n, f, t', o, d, 0, a⟩ hcall ⟨hd, rfl, h2, lookup_of_not_has hf⟩

theorem addRangeEvent_effect {n d : String} {f t' : ℕ} {b : List ℕ} {o : Mapping ℕ String}
    {ob : Addr} (hcall : released? caller call = none)
    (h : s.addRangeEvent caller now n f t' d b o ob = some t) : s.Effect caller now call t := by
  simp only [addRangeEvent, bind_iff, pure_iff] at h
  obtain ⟨-, hd, hl, h0, hi, hn, -, -, hf, rfl⟩ := h
  refine .addedRange ⟨n, f, t', o, d, 0, some s.address⟩ ⟨b, ob⟩ hcall ?_
    ⟨hl.1, hl.2, h0, hi⟩ hn rfl
  have hgap : MIN_RESULT_GAP = 120 := rfl
  exact ⟨by dsimp only; omega, rfl, by dsimp only; omega, lookup_of_not_has hf⟩

theorem confirmEvent_effect {m : MarketId} {shell : ℕ}
    (h : s.confirmEvent caller now m shell = some t) :
    s.Effect caller now (.confirmEvent m shell) t := by
  simp only [confirmEvent, bind_iff, pure_iff] at h
  obtain ⟨-, h⟩ := h
  have hnone : released? caller (.confirmEvent m shell) = none := by cases caller <;> rfl
  by_cases he : s.events.has m.eventId = true
  · rw [if_neg (not_not_intro he)] at h
    generalize (if s.rangeData.has m.eventId = true then now + MIN_RESULT_GAP else now) = d at h
    split_ifs at h with hx hm
    · cases h
      exact .rejected m shell hnone
    · cases h
      exact .kept fun a ha => by rw [hnone] at ha; cases ha
    · exact .confirmed m shell _ t rfl (lookup_of_has he) (lookup_of_not_has hm) h
  · rw [if_pos he] at h
    cases h
    exact .rejected m shell hnone

theorem exec_effect (h : s.exec caller now call = some t) : s.Effect caller now call t := by
  cases call with
  | addEvent => exact addEvent_effect (by cases caller <;> rfl) h
  | addRangeEvent => exact addRangeEvent_effect (by cases caller <;> rfl) h
  | confirmEvent => exact confirmEvent_effect h
  | resolveRange e x k =>
    simp only [exec, resolveRange, bind_iff, pure_iff] at h
    obtain ⟨-, range, hr, info, he, hd, -, rfl⟩ := h
    exact .asked e x k range info (by cases caller <;> rfl) hr he hd
  | onWeeklyMedian e x k price =>
    simp only [exec, onWeeklyMedian, bind_iff, pure_iff] at h
    obtain ⟨range, hr, hs, rfl⟩ := h
    have hp : s.priceToOutcome e price = outcomeOf price range.bounds := by
      rw [priceToOutcome, hr]
      rfl
    rw [hp]
    exact .answered e x k price range rfl hr hs
  | cancelEvent m =>
    simp only [exec, cancelEvent, bind_iff, pure_iff] at h
    obtain ⟨hs, rfl⟩ := h
    have hcall : released? caller (.cancelEvent m) = some (.pmp m) := by
      cases caller with
      | internal => simpa [released?, Caller.isSender] using hs
      | external => cases hs
    split_ifs with hm
    · obtain ⟨e, he⟩ := Option.isSome_iff_exists.mp hm
      exact .cancelled m e hcall he
    · refine .kept ?_
      intro a ha
      rw [hcall] at ha
      cases ha
      exact lookup_of_not_has hm
  | onBounce =>
    cases caller with
    | external => cases h
    | internal a =>
      rw [exec, onBounce] at h
      cases hm : s.pmpConfirmed.lookup a with
      | some e =>
        rw [hm] at h
        cases h
        exact .bounced a e rfl hm
      | none =>
        rw [hm] at h
        cases h
        refine .kept ?_
        intro b hb
        cases hb
        exact hm
  | deleteEvent e =>
    simp only [exec, deleteEvent, bind_iff, pure_iff] at h
    obtain ⟨-, rfl⟩ := h
    split_ifs with hc
    · exact .deleted e rfl hc.1 hc.2
    · refine .kept ?_
      intro a ha
      have hnone : released? caller (.deleteEvent e) = none := by cases caller <;> rfl
      rw [hnone] at ha
      cases ha

theorem step_effect (h : s.step caller now call = some t) : s.begin.Effect caller now call t :=
  exec_effect h

/-- The count of every event is the number of PMPs marked for it, each under its own event. -/
structure Counted (s : OracleEventList) : Prop where
  count : ∀ e, (s.events.read e).count = s.pmpConfirmed.tally e
  mark : ∀ a e, s.pmpConfirmed.lookup a = some e → ∃ m, a = .pmp m ∧ m.eventId = e

theorem Counted.congr (h : s.Counted) (he : t.events = s.events)
    (hm : t.pmpConfirmed = s.pmpConfirmed) : t.Counted := by
  refine ⟨?_, ?_⟩
  · rw [he, hm]
    exact h.count
  · rw [hm]
    exact h.mark

theorem init_counted {a : Addr} {k : ℕ} (h : init a k = some s) : s.Counted := by
  simp only [init, bind_iff, pure_iff] at h
  obtain ⟨-, rfl⟩ := h
  refine ⟨fun e => rfl, ?_⟩
  intro a e he
  cases he

theorem Counted.tally_absent (h : s.Counted) {e : ℕ} (he : s.events.lookup e = none) :
    s.pmpConfirmed.tally e = 0 := by
  rw [← h.count e, Mapping.read, he]
  rfl

theorem Counted.addInfo (h : s.Counted) {info : EventInfo} (hf : s.Fresh now info) :
    (s.addInfo info).Counted := by
  refine ⟨?_, h.mark⟩
  intro e
  change (Mapping.read (AList.insert info.eventId info s.events) e).count = _
  rw [Mapping.read_insert]
  split_ifs with he
  · rw [he, hf.count]
    exact (h.tally_absent hf.absent).symm
  · exact h.count e

theorem recordConfirmation_fields {m : MarketId} {shell : ℕ} {info : EventInfo}
    (h : s.recordConfirmation m shell info = some t) :
    t.events = AList.insert m.eventId { info with count := info.count + 1 } s.events ∧
      t.pmpConfirmed = AList.insert (.pmp m) m.eventId s.pmpConfirmed ∧
      t.rangeData = s.rangeData ∧ t.address = s.address ∧
      t.actions = s.actions ++ [.transfer shell, .approveEvent m s.oraclePubkey info.outcomeNames
        info.describe info.eventName info.trustAddr] ++
        (if s.rangeData.has m.eventId then [.submitSetTimings m info.deadline] else []) ++
        [.event (.eventConfirmed m.eventId (.pmp m))] := by
  simp only [recordConfirmation, bind_iff, pure_iff] at h
  obtain ⟨count, hc, rfl⟩ := h
  have hc : info.count + 1 = count := by
    unfold add128 at hc
    split_ifs at hc
    exact Option.some.inj hc
  rw [← hc]
  by_cases hr : s.rangeData.has m.eventId = true <;> simp [emit, act, hr]

theorem Counted.confirmed (h : s.Counted) {m : MarketId} {shell : ℕ} {info : EventInfo}
    (he : s.events.lookup m.eventId = some info) (hm : s.pmpConfirmed.lookup (.pmp m) = none)
    (hr : s.recordConfirmation m shell info = some t) : t.Counted := by
  obtain ⟨h1, h2, -, -, -⟩ := recordConfirmation_fields hr
  refine ⟨?_, ?_⟩
  · intro e
    have hc := h.count e
    rw [h1, h2, Mapping.read_insert, Mapping.tally_insert _ hm]
    by_cases hx : e = m.eventId
    · subst hx
      rw [Mapping.read, he] at hc
      rw [if_pos rfl, if_pos rfl]
      exact congrArg (· + 1) hc
    · rw [if_neg hx, if_neg (Ne.symm hx)]
      exact hc
  · intro a e ha
    rw [h2] at ha
    by_cases hx : a = .pmp m
    · subst hx
      rw [AList.lookup_insert] at ha
      exact ⟨m, rfl, Option.some.inj ha⟩
    · rw [AList.lookup_insert_ne hx] at ha
      exact h.mark a e ha

theorem Counted.pos (h : s.Counted) {a : Addr} {e : ℕ} (ha : s.pmpConfirmed.lookup a = some e) :
    0 < (s.events.read e).count := by
  rw [h.count e]
  exact Mapping.tally_pos ha

theorem release_fields (s : OracleEventList) (a : Addr) (e : ℕ) :
    (s.release a e).pmpConfirmed = AList.erase a s.pmpConfirmed ∧
      (s.release a e).rangeData = s.rangeData ∧ (s.release a e).address = s.address ∧
      (s.release a e).actions = s.actions := by
  unfold release
  dsimp only
  split_ifs <;> exact ⟨rfl, rfl, rfl, rfl⟩

theorem Counted.release (h : s.Counted) {a : Addr} {e : ℕ}
    (ha : s.pmpConfirmed.lookup a = some e) : (s.release a e).Counted := by
  have hpos := h.pos ha
  have h1 : (s.release a e).events = AList.insert e
      { s.events.read e with count := (s.events.read e).count - 1 } s.events := by
    unfold OracleEventList.release
    dsimp only
    rw [if_pos hpos]
  have h2 := (release_fields s a e).1
  refine ⟨?_, ?_⟩
  · intro x
    have hx := h.count x
    have ht := s.pmpConfirmed.tally_erase a x
    rw [ha] at ht
    rw [h1, h2, Mapping.read_insert]
    by_cases hxe : x = e
    · subst hxe
      rw [if_pos rfl] at ht ⊢
      dsimp only
      omega
    · rw [if_neg hxe]
      rw [if_neg (fun hs => hxe (Option.some.inj hs).symm)] at ht
      omega
  · intro b x hb
    rw [h2] at hb
    by_cases hba : b = a
    · rw [hba, AList.lookup_erase] at hb
      cases hb
    · rw [AList.lookup_erase_ne hba] at hb
      exact h.mark b x hb

theorem Counted.dropEvent (h : s.Counted) {e : ℕ} (hc : (s.events.read e).count = 0) :
    (s.dropEvent e).Counted := by
  refine ⟨?_, h.mark⟩
  intro x
  change (Mapping.read (AList.erase e s.events) x).count = _
  by_cases hx : x = e
  · rw [hx, Mapping.read_erase_self]
    exact hc.symm.trans (h.count e)
  · rw [Mapping.read_erase_of_ne _ hx]
    exact h.count x

theorem Counted.effect (h : s.Counted) (he : s.Effect caller now call t) : t.Counted := by
  cases he with
  | kept => exact h
  | rejected => exact h.congr rfl rfl
  | added info hcall hf => exact (h.addInfo hf).congr rfl rfl
  | addedRange info range hcall hf => exact (h.addInfo hf).congr rfl rfl
  | confirmed m shell info t hcall he hm hr => exact h.confirmed he hm hr
  | asked => exact h.congr rfl rfl
  | answered => exact h.congr rfl rfl
  | cancelled m e hcall hm =>
    obtain ⟨m', hp, rfl⟩ := h.mark _ _ hm
    cases hp
    exact h.release hm
  | bounced a e hcall hm => exact h.release hm
  | deleted e hcall hc => exact h.dropEvent hc

def marked (s : OracleEventList) (m : MarketId) : Bool := s.pmpConfirmed.has (.pmp m)

/-- Approvals sent to a PMP. -/
def approvals (s : OracleEventList) (m : MarketId) : ℕ :=
  s.actions.countP fun
    | .approveEvent m' .. => decide (m' = m)
    | _ => false

theorem marked_erase (m : MarketId) {a : Addr} (h : t.pmpConfirmed = AList.erase a s.pmpConfirmed) :
    t.marked m = if a = .pmp m then false else s.marked m := by
  rw [marked, marked, h, Mapping.has, Mapping.has]
  split_ifs with ha
  · rw [ha, AList.lookup_erase]
    rfl
  · rw [AList.lookup_erase_ne (Ne.symm ha)]

/-- A mark comes with one approval and goes with a release. -/
theorem Effect.marks (h : s.Effect caller now call t) (ha : s.actions = []) (m : MarketId) :
    if released? caller call = some (.pmp m) then t.marked m = false ∧ t.approvals m = 0
    else t.approvals m + (s.marked m).toNat = (t.marked m).toNat := by
  have hnone : s.approvals m = 0 := by simp [approvals, ha]
  cases h with
  | kept hcall =>
    split_ifs with hr
    · refine ⟨?_, hnone⟩
      rw [marked, Mapping.has, hcall _ hr]
      rfl
    · rw [hnone, Nat.zero_add]
  | rejected m' shell hcall => simp [hcall, approvals, act, ha, marked]
  | added info hcall => simp [hcall, approvals, emit, act, ha, marked, OracleEventList.addInfo]
  | addedRange info range hcall =>
    simp [hcall, approvals, emit, act, ha, marked, OracleEventList.addInfo, addRange]
  | confirmed m' shell info t hcall he hm hr =>
    obtain ⟨-, h2, -, -, h5⟩ := recordConfirmation_fields hr
    have hnone : released? caller call = none := by rw [hcall]; cases caller <;> rfl
    rw [hnone, if_neg nofun]
    by_cases hx : m' = m
    · subst hx
      have h6 : s.marked m' = false := by rw [marked, Mapping.has, hm]; rfl
      have h7 : t.marked m' = true := by rw [marked, Mapping.has, h2, AList.lookup_insert]; rfl
      rw [approvals, h5, h6, h7, ha]
      by_cases hy : s.rangeData.has m'.eventId = true <;> simp [hy]
    · have h7 : t.marked m = s.marked m := by
        have hne : Addr.pmp m ≠ .pmp m' := fun h => hx (Addr.pmp.inj h).symm
        rw [marked, marked, Mapping.has, h2, AList.lookup_insert_ne hne]
        rfl
      rw [approvals, h5, h7, ha]
      by_cases hy : s.rangeData.has m'.eventId = true <;> simp [hy, hx]
  | asked e x k range info hcall => simp [hcall, approvals, act, ha, marked]
  | answered e x k price range hcall =>
    have hnone : released? caller call = none := by rw [hcall]; cases caller <;> rfl
    simp [hnone, approvals, act, ha, marked]
  | cancelled m' e hcall =>
    obtain ⟨h1, -, -, h4⟩ := release_fields s (.pmp m') m'.eventId
    rw [marked_erase m h1, approvals, h4, ha, hcall]
    by_cases hx : m' = m <;> simp [hx]
  | bounced a e hcall =>
    obtain ⟨h1, -, -, h4⟩ := release_fields s a e
    rw [marked_erase m h1, approvals, h4, ha, hcall]
    by_cases hx : a = .pmp m <;> simp [hx]
  | deleted e hcall =>
    have hnone : released? caller call = none := by rw [hcall]; cases caller <;> rfl
    simp [hnone, approvals, ha, marked, OracleEventList.dropEvent]

theorem Counted.step (h : s.Counted) (hs : s.step caller now call = some t) : t.Counted :=
  (h.congr (t := s.begin) rfl rfl).effect (step_effect hs)

end OracleEventList

end Dexdo
