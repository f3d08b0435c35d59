import Dexdo.Oracle.Confirmations
import Dexdo.Oracle.Range
import Dexdo.PMP.Quorum

namespace Dexdo

def Addr.isBook : Addr → Bool
  | .inferenceBook _ _ _ => true
  | _ => false

namespace PMP

/-- Lists a PMP was deployed with. -/
def oracleLists (p : PMP) : List Addr := p.oracleEventsConfirmed.map Prod.fst

variable {p q : PMP} {i : Input}

theorem mem_oracleLists {b : Bool} {a : Addr} (h : p.standing.confirmed? a = some b) :
    a ∈ p.oracleLists := by
  obtain ⟨e, he, -⟩ := Option.map_eq_some_iff.mp h
  have h1 : e.1 = a := by simpa using List.find?_some he
  exact List.mem_map.mpr ⟨e, List.mem_of_find?_eq_some he, h1⟩

theorem step_oracleLists (h : p.step i = some q) : q.oracleLists = p.oracleLists := by
  obtain ⟨-, hs⟩ := step_standing h
  change q.standing.keys = Standing.keys { p.standing with cancels := [] }
  generalize q.standing = c at hs
  cases hs with
  | winds h => exact h.keys
  | approved => exact Standing.keys_confirm _ _
  | mismatched => rfl
  | duplicate => exact Standing.keys_confirm _ _
  | retried => rfl

theorem winds_address {b c : Standing} (h : b.Winds c) :
    c.oracleEventsAddress = b.oracleEventsAddress ∧ c.numOutcomes = b.numOutcomes := by
  have hr : ∀ d : Standing, d.release.oracleEventsAddress = d.oracleEventsAddress ∧
      d.release.numOutcomes = d.numOutcomes := by
    intro d
    unfold Standing.release
    split_ifs <;> exact ⟨rfl, rfl⟩
  induction h with
  | refl => exact ⟨rfl, rfl⟩
  | cancel _ ih => exact ⟨(hr _).1.trans ih.1, (hr _).2.trans ih.2⟩
  | finish _ ih => exact ⟨(hr _).1.trans ih.1, (hr _).2.trans ih.2⟩

theorem step_address (h : p.step i = some q) {a : Addr} {k : ℕ}
    (ha : q.oracleEventsAddress a = some k) : p.oracleEventsAddress a = some k ∨
      (i.sender ∈ p.oracleLists ∧ ∃ k n, i.call = .approveEvent k n (some a)) := by
  obtain ⟨-, hs⟩ := step_standing h
  have ha : q.standing.oracleEventsAddress a = some k := ha
  generalize q.standing = c at hs ha
  cases hs with
  | winds h => exact .inl ((congrFun (winds_address h).1 a).symm.trans ha)
  | approved hcall hc hf =>
    dsimp only at ha
    split_ifs at ha with hx
    · exact .inr ⟨mem_oracleLists hf, _, _, by rw [hcall, hx]⟩
    · exact .inl ha
  | mismatched => exact .inl ha
  | duplicate => exact .inl ha
  | retried => exact .inl ha

theorem step_numOutcomes (h : p.step i = some q) : q.numOutcomes = p.numOutcomes ∨
    (i.sender ∈ p.oracleLists ∧ ∃ k tr, i.call = .approveEvent k q.numOutcomes tr) := by
  obtain ⟨-, hs⟩ := step_standing h
  change q.standing.numOutcomes = p.standing.numOutcomes ∨
    (_ ∧ ∃ k tr, i.call = .approveEvent k q.standing.numOutcomes tr)
  generalize q.standing = c at hs
  cases hs with
  | winds h => exact .inl (winds_address h).2
  | approved hcall hc hf hm =>
    rcases hm with rfl | rfl
    · exact .inl rfl
    · exact .inr ⟨mem_oracleLists hf, _, _, hcall⟩
  | mismatched hcall hc hf => exact .inr ⟨mem_oracleLists hf, _, _, hcall⟩
  | duplicate hcall hc hf hm =>
    rcases hm with rfl | rfl
    · exact .inl rfl
    · exact .inr ⟨mem_oracleLists hf, _, _, hcall⟩
  | retried => exact .inl rfl

theorem step_resolvedOutcome (h : p.step i = some q) : q.resolvedOutcome = p.resolvedOutcome ∨
    ∃ caller k pk, i.call = .submitResolve caller k ∧ q.resolvedOutcome = some k ∧
      p.getOraclePubkey caller = some pk := by
  have hb := step_ballot h
  change q.ballot.resolvedOutcome = p.ballot.resolvedOutcome ∨
    ∃ caller k pk, i.call = .submitResolve caller k ∧ q.ballot.resolvedOutcome = some k ∧ _
  generalize q.ballot = b at hb
  cases hb with
  | decided caller m x pk st v hv hp =>
    cases m with
    | timings => exact .inl rfl
    | cancel => exact .inl rfl
    | resolve =>
      have hcall : i.call = .submitResolve caller x := by
        cases hi : i.call <;> simp [PmpCall.vote?, hi] at hv
        rw [hv.1, hv.2]
      exact .inr ⟨caller, x, pk, hcall, rfl, (p.getOraclePubkey_ballot caller).trans hp⟩
  | _ => exact .inl rfl

theorem step_pubkeys (h : p.step i = some q) {pk : ℕ} (hp : pk ∈ p.oracleEventsPubkeys) :
    pk ∈ q.oracleEventsPubkeys := by
  have hb := step_ballot h
  have hp : pk ∈ p.ballot.oracleEventsPubkeys := hp
  change pk ∈ q.ballot.oracleEventsPubkeys
  generalize q.ballot = b at hb
  cases hb with
  | register => exact List.mem_cons_of_mem _ hp
  | decided caller m => cases m <;> exact hp
  | _ => exact hp

end PMP

namespace Net

/-- List `a` holds event `e`, if at all, as a range event priced by an order book. -/
def rangeOnly (n : Net) (a : Addr) (e : ℕ) : Bool :=
  (n.lists a).elim true fun s =>
    !s.events.has e || (s.rangeData.lookup e).elim false fun r => r.ob.isBook

/-- It does so all along the run. -/
def Ranged (tr : List (NetEvent × Net)) (a : Addr) (e : ℕ) : Prop :=
  ∀ x ∈ tr, x.2.rangeOnly a e = true

/-- At an instant of the run not before the deadline of the event, the weekly median of the book
was `price`. -/
def MedianSeen (t₀ : ℕ) (tr : List (NetEvent × Net)) (ob : Addr) (e price : ℕ) : Prop :=
  ∃ tr₁ n₁ b, tr₁ <+: tr ∧ Run step (genesis t₀) tr₁ n₁ ∧ n₁.books ob = some b ∧
    b.weeklyMedian n₁.now = some price ∧
      ∀ info : EventInfo, info.eventId = e → info.deadline ≤ n₁.now

/-- Outcome `k` is the one list `a` maps such a median to. -/
def SettledBy (t₀ : ℕ) (tr : List (NetEvent × Net)) (a : Addr) (e k : ℕ) : Prop :=
  ∃ tr₁ n₁ s range price, tr₁ <+: tr ∧ Run step (genesis t₀) tr₁ n₁ ∧ n₁.lists a = some s ∧
    s.rangeData.lookup e = some range ∧ MedianSeen t₀ tr range.ob e price ∧
      k = s.priceToOutcome e price

/-- An oracle of the PMP voted for outcome `k` by a message signed with its key. -/
def VotedByKey (tr : List (NetEvent × Net)) (m : MarketId) (p : PMP) (k : ℕ) : Prop :=
  ∃ sender pk, pk ∈ p.oracleEventsPubkeys ∧
    NetEvent.callPMP m sender (.submitResolve (.external pk) k) ∈ tr.map Prod.fst

variable {t₀ : ℕ} {tr : List (NetEvent × Net)} {n n' : Net} {a b ob : Addr} {m : MarketId}
  {e k price : ℕ} {x : NetEvent × Net}

theorem Ranged.before (h : Ranged (tr ++ [x]) a e) : Ranged tr a e :=
  fun y hy => h y (List.mem_append_left [x] hy)

theorem Ranged.last (h : Ranged (tr ++ [x]) a e) : x.2.rangeOnly a e = true :=
  h x (List.mem_append_right tr List.mem_cons_self)

theorem MedianSeen.after (h : MedianSeen t₀ tr ob e price) : MedianSeen t₀ (tr ++ [x]) ob e price := by
  obtain ⟨tr₁, n₁, b, hp, h⟩ := h
  exact ⟨tr₁, n₁, b, hp.trans (List.prefix_append tr [x]), h⟩

theorem SettledBy.after (h : SettledBy t₀ tr a e k) : SettledBy t₀ (tr ++ [x]) a e k := by
  obtain ⟨tr₁, n₁, s, range, price, hp, h1, h2, h3, h4, h5⟩ := h
  exact ⟨tr₁, n₁, s, range, price, hp.trans (List.prefix_append tr [x]), h1, h2, h3, h4.after, h5⟩

theorem range_of_rangeOnly {s : OracleEventList} (hs : n.lists a = some s)
    (he : s.events.has e = true) (h : n.rangeOnly a e = true) :
    ∃ range, s.rangeData.lookup e = some range ∧ range.ob.isBook = true := by
  rw [rangeOnly, hs] at h
  cases hr : s.rangeData.lookup e with
  | none => simp [he, hr] at h
  | some range => exact ⟨range, rfl, by simpa [he, hr] using h⟩

/-- What the letters of an oracle market attest. -/
structure Genuine (t₀ : ℕ) (tr : List (NetEvent × Net)) (now : ℕ) (l : Letter) : Prop where
  approval : ∀ m k names d nm trust, l.returned = false → l.dest = .pmp m →
    l.body = .approveEvent k names d nm trust →
      (∃ info : EventInfo, info.eventId = m.eventId ∧ info.outcomeNames = names) ∧
        (Ranged tr l.src m.eventId → trust = some l.src)
  request : ∀ e h k, l.returned = false → l.body = .requestWeeklyMedian e h k →
    ∀ info : EventInfo, info.eventId = e → info.deadline ≤ now
  answer : ∀ e h k price, l.returned = false → l.body = .onWeeklyMedian e h k price →
    MedianSeen t₀ tr l.src e price
  vote : ∀ m k, l.returned = false → l.dest = .pmp m → l.body = .submitResolve k →
    Ranged tr l.src m.eventId → SettledBy t₀ tr l.src m.eventId k

theorem Genuine.after {now now' : ℕ} {l : Letter} (h : Genuine t₀ tr now l) (hn : now ≤ now') :
    Genuine t₀ (tr ++ [x]) now' l where
  approval := fun m k names d nm trust hr hd hb =>
    ⟨(h.approval m k names d nm trust hr hd hb).1, fun hx =>
      (h.approval m k names d nm trust hr hd hb).2 hx.before⟩
  request := fun e y k hr hb info hi => (h.request e y k hr hb info hi).trans hn
  answer := fun e y k price hr hb => (h.answer e y k price hr hb).after
  vote := fun m k hr hd hb hx => (h.vote m k hr hd hb hx.before).after

/-- What a PMP owes to its lists. -/
structure Traced (t₀ : ℕ) (tr : List (NetEvent × Net)) (m : MarketId) (p : PMP) : Prop where
  lists : ∀ a ∈ p.oracleLists, a.hosted = true
  outcomes : p.numOutcomes = 0 ∨ ∃ info : EventInfo, info.eventId = m.eventId ∧
    p.numOutcomes = info.outcomeNames.entries.length
  trusted : (∀ a ∈ p.oracleLists, Ranged tr a m.eventId) → ∀ a k,
    p.oracleEventsAddress a = some k → a ∈ p.oracleLists
  resolved : (∀ a ∈ p.oracleLists, Ranged tr a m.eventId) → ∀ k, p.resolvedOutcome = some k →
    (∃ a ∈ p.oracleLists, SettledBy t₀ tr a m.eventId k) ∨ VotedByKey tr m p k

theorem VotedByKey.after {p q : PMP} (h : VotedByKey tr m p k)
    (hq : ∀ pk ∈ p.oracleEventsPubkeys, pk ∈ q.oracleEventsPubkeys) :
    VotedByKey (tr ++ [x]) m q k := by
  obtain ⟨y, pk, hp, hy⟩ := h
  refine ⟨y, pk, hq pk hp, ?_⟩
  rw [List.map_append]
  exact List.mem_append_left _ hy

theorem Traced.after {p : PMP} (h : Traced t₀ tr m p) : Traced t₀ (tr ++ [x]) m p where
  lists := h.lists
  outcomes := h.outcomes
  trusted := fun hx => h.trusted fun a ha => (hx a ha).before
  resolved := by
    intro hx k hk
    rcases h.resolved (fun a ha => (hx a ha).before) k hk with ⟨a, ha, hs⟩ | hv
    · exact .inl ⟨a, ha, hs.after⟩
    · exact .inr (hv.after fun _ => id)

/-- What the network keeps about its range markets. -/
structure Attested (t₀ : ℕ) (tr : List (NetEvent × Net)) (n : Net) : Prop where
  filed : ∀ a s, n.lists a = some s → s.Filed ∧ s.address = a
  mail : ∀ l ∈ n.mail, Genuine t₀ tr n.now l
  pmps : ∀ m p, n.pmps m = some p → Traced t₀ tr m p

/-- The letters of a list: an approval of a range event names the list itself as the trusted
address, and a vote is the outcome of a median the list was given. -/
theorem list_letters {s t : OracleEventList} {caller : Caller} {call : ListCall} {n₁ : Net}
    (hr : Run step (genesis t₀) tr n₁) (hl : n₁.lists b = some s) (hf : s.Filed)
    (hb : s.address = b) (ht : s.step caller n₁.now call = some t)
    (hx : x.2.lists b = some t)
    (hans : ∀ e h k price, call = .onWeeklyMedian e h k price → ∀ ob, ob.isBook = true →
      caller.isSender ob = true → MedianSeen t₀ tr ob e price) :
    ∀ l ∈ t.actions.filterMap (ListAction.letter? b), Genuine t₀ (tr ++ [x]) n₁.now l := by
  intro l hl'
  obtain ⟨y, hy, hyl⟩ := List.mem_filterMap.mp hl'
  have hkey := hf.key
  cases OracleEventList.step_effect ht with
  | kept => cases hy
  | rejected =>
    rw [List.mem_singleton.mp hy] at hyl
    cases hyl
    exact ⟨(by intros; contradiction), (by intros; contradiction), (by intros; contradiction), (by intros; contradiction)⟩
  | added =>
    rw [List.mem_singleton.mp hy] at hyl
    cases hyl
  | addedRange =>
    rcases List.mem_cons.mp hy with rfl | hy
    · cases hyl
    · rw [List.mem_singleton.mp hy] at hyl
      cases hyl
  | confirmed m shell info t hcall he hm hrec =>
    obtain ⟨h1, -, h3, -, h5⟩ := OracleEventList.recordConfirmation_fields hrec
    rw [h5] at hy
    simp only [List.append_assoc, List.mem_append, List.mem_cons, List.not_mem_nil, or_false] at hy
    rcases hy with hy | (rfl | rfl) | hy | rfl
    · cases hy
    · cases hyl
    · cases hyl
      refine ⟨?_, (by intros; contradiction), (by intros; contradiction), (by intros; contradiction)⟩
      intro m' k names d nm trust _ hd hbody
      cases hd
      cases hbody
      refine ⟨⟨info, hkey _ _ he, rfl⟩, ?_⟩
      intro hrange
      have hhas : t.events.has m.eventId = true := by
        rw [h1, Mapping.has, AList.lookup_insert]
        rfl
      obtain ⟨range, hrg, -⟩ := range_of_rangeOnly hx hhas hrange.last
      rw [h3] at hrg
      obtain ⟨-, info', he', -, htr⟩ := hf.range _ range hrg
      have hii : info = info' := Option.some.inj (he.symm.trans he')
      rw [hii, htr, hb]
    · split_ifs at hy
      · rw [List.mem_singleton.mp hy] at hyl
        cases hyl
        exact ⟨(by intros; contradiction), (by intros; contradiction), (by intros; contradiction), (by intros; contradiction)⟩
      · cases hy
    · cases hyl
  | asked e h k range info hcall hrg he hd =>
    rw [List.mem_singleton.mp hy] at hyl
    cases hyl
    refine ⟨(by intros; contradiction), ?_, (by intros; contradiction), (by intros; contradiction)⟩
    intro e' h' k' _ hbody info' hi
    cases hbody
    have h1 := eventId_inj (hi.trans (hkey _ _ he).symm)
    rw [h1.1]
    exact hd
  | answered e h k price range hcall hrg hs =>
    rw [List.mem_singleton.mp hy] at hyl
    cases hyl
    refine ⟨(by intros; contradiction), (by intros; contradiction), (by intros; contradiction), ?_⟩
    intro m' k' _ hd hbody hrange
    cases hd
    cases hbody
    obtain ⟨-, info, he, -⟩ := hf.range _ range hrg
    have hhas : (s.begin.act (.submitResolve ⟨e, h, k⟩ (OracleEventList.outcomeOf price
        range.bounds))).events.has e = true := by
      change s.events.has e = true
      rw [Mapping.has, he]
      rfl
    obtain ⟨range', hrg', hbook⟩ := range_of_rangeOnly hx hhas hrange.last
    have hrr : range = range' := Option.some.inj (hrg.symm.trans hrg')
    rw [← hrr] at hbook
    refine ⟨tr, n₁, s, range, price, List.prefix_append tr [x], hr, hl, hrg,
      (hans e h k price hcall range.ob hbook hs).after, ?_⟩
    rw [OracleEventList.priceToOutcome]
    change _ = OracleEventList.outcomeOf price ((s.rangeData.lookup e).elim [] RangeData.bounds)
    have hrg : s.rangeData.lookup e = some range := hrg
    rw [hrg]
    rfl
  | cancelled =>
    rw [(OracleEventList.release_fields _ _ _).2.2.2] at hy
    cases hy
  | bounced =>
    rw [(OracleEventList.release_fields _ _ _).2.2.2] at hy
    cases hy
  | deleted => cases hy

/-- What a PMP is told by its lists, and who votes. -/
structure Told (t₀ : ℕ) (tr : List (NetEvent × Net)) (ev : NetEvent) (m : MarketId)
    (i : PMP.Input) : Prop where
  approval : ∀ k n trust, i.call = .approveEvent k n trust → i.sender.hosted = true →
    (∃ info : EventInfo, info.eventId = m.eventId ∧ n = info.outcomeNames.entries.length) ∧
      (Ranged tr i.sender m.eventId → trust = some i.sender)
  vote : ∀ a k, i.call = .submitResolve (.internal a) k → a.hosted = true →
    Ranged tr a m.eventId → SettledBy t₀ tr a m.eventId k
  key : ∀ pk k, i.call = .submitResolve (.external pk) k →
    ev = .callPMP m i.sender (.submitResolve (.external pk) k)

theorem Traced.step {p q : PMP} {i : PMP.Input} (h : Traced t₀ tr m p) (hq : p.step i = some q)
    (hi : Told t₀ tr x.1 m i) : Traced t₀ (tr ++ [x]) m q := by
  have hlists := PMP.step_oracleLists hq
  refine ⟨?_, ?_, ?_, ?_⟩
  · rw [hlists]
    exact h.lists
  · rcases PMP.step_numOutcomes hq with h1 | ⟨hs, k, trust, hcall⟩
    · rw [h1]
      exact h.outcomes
    · exact .inr (hi.approval k _ trust hcall (h.lists _ hs)).1
  · rw [hlists]
    intro hx a k ha
    have hx : ∀ a ∈ p.oracleLists, Ranged tr a m.eventId := fun a ha => (hx a ha).before
    rcases PMP.step_address hq ha with h1 | ⟨hs, k', n, hcall⟩
    · exact h.trusted hx a k h1
    · have h2 := (hi.approval k' n (some a) hcall (h.lists _ hs)).2 (hx _ hs)
      rw [Option.some.inj h2]
      exact hs
  · rw [hlists]
    intro hx k hk
    have hx : ∀ a ∈ p.oracleLists, Ranged tr a m.eventId := fun a ha => (hx a ha).before
    rcases PMP.step_resolvedOutcome hq with h1 | ⟨caller, k', pk, hcall, h1, hp⟩
    · rcases h.resolved hx k (h1.symm.trans hk) with ⟨a, ha, hs⟩ | hv
      · exact .inl ⟨a, ha, hs.after⟩
      · exact .inr (hv.after fun pk => PMP.step_pubkeys hq)
    · have hkk : k' = k := Option.some.inj (h1.symm.trans hk)
      subst hkk
      cases caller with
      | internal a =>
        have ha := h.trusted hx a pk hp
        exact .inl ⟨a, ha, (hi.vote a k' hcall (h.lists a ha) (hx a ha)).after⟩
      | external pk' =>
        have hmem : pk' ∈ p.oracleEventsPubkeys := by
          rw [PMP.getOraclePubkey] at hp
          split_ifs at hp with hm
          exact hm
        refine .inr ⟨i.sender, pk', PMP.step_pubkeys hq hmem, ?_⟩
        rw [List.map_append, ← hi.key pk' k' hcall]
        exact List.mem_append_right _ List.mem_cons_self

theorem init_traced (m : MarketId) (h : ℕ) (l : List ListFee) (st : List ℕ) :
    Traced t₀ tr m (.init m h (l.map ListFee.address) st) where
  lists := by
    intro a ha
    obtain ⟨c, hc, rfl⟩ := List.mem_map.mp ha
    obtain ⟨b, hb, rfl⟩ := List.mem_map.mp hc
    obtain ⟨f, -, rfl⟩ := List.mem_map.mp (List.mem_dedup.mp hb)
    rfl
  outcomes := .inl rfl
  trusted := fun _ a k ha => by cases ha
  resolved := fun _ k hk => by cases hk

theorem Attested.after (h : Attested t₀ tr n) : Attested t₀ (tr ++ [x]) n where
  filed := h.filed
  mail := fun l hl => (h.mail l hl).after (Nat.le_refl _)
  pmps := fun m p hp => (h.pmps m p hp).after

theorem Attested.post (h : Attested t₀ tr n) {l : List Letter}
    (hl : ∀ y ∈ l, Genuine t₀ tr n.now y) : Attested t₀ tr (n.post l) where
  filed := h.filed
  mail := by
    intro y hy
    rcases List.mem_append.mp hy with hy | hy
    · exact h.mail y hy
    · exact hl y hy
  pmps := h.pmps

theorem Attested.take (h : Attested t₀ tr n) (i : ℕ) : Attested t₀ tr (n.take i) where
  filed := h.filed
  mail := fun l hl => h.mail l (List.mem_of_mem_eraseIdx hl)
  pmps := h.pmps

theorem Attested.setList (h : Attested t₀ tr n) {s : OracleEventList} (hs : s.Filed)
    (ha : s.address = a) : Attested t₀ tr (n.setList a s) where
  filed := by
    intro c t ht
    unfold Net.setList at ht
    dsimp only at ht
    rw [Function.update_apply] at ht
    split_ifs at ht with hc
    · rw [← Option.some.inj ht, hc]
      exact ⟨hs, ha⟩
    · exact h.filed c t ht
  mail := h.mail
  pmps := h.pmps

theorem Attested.setPMP (h : Attested t₀ tr n) {p : PMP} (hp : Traced t₀ tr m p) :
    Attested t₀ tr (n.setPMP m p) where
  filed := h.filed
  mail := h.mail
  pmps := by
    intro m' q hq
    unfold Net.setPMP at hq
    dsimp only at hq
    rw [Function.update_apply] at hq
    split_ifs at hq with hm
    · rw [← Option.some.inj hq, hm]
      exact hp
    · exact h.pmps m' q hq

theorem Attested.execList {n₁ : Net} {caller : Caller} {call : ListCall} (h : Attested t₀ tr n)
    (hn : n.Sound) (hr : Run Net.step (genesis t₀) tr n₁) (hnow : n₁.now = n.now)
    (hlists : n₁.lists = n.lists) (he : n.execList b caller call = some x.2)
    (hans : ∀ e h k price, call = .onWeeklyMedian e h k price → ∀ ob, ob.isBook = true →
      caller.isSender ob = true → MedianSeen t₀ tr ob e price) :
    Attested t₀ (tr ++ [x]) x.2 := by
  obtain ⟨s, t, hs, ht, hx⟩ := execList_some he
  obtain ⟨hf, hb⟩ := h.filed b s hs
  have hc := hn.lists b s hs
  have hbegin : s.begin.Filed := hf.congr rfl rfl rfl
  have hct : s.begin.Counted := hc.congr rfl rfl
  have heff := OracleEventList.step_effect ht
  have hxl : x.2.lists b = some t := by
    rw [hx]
    exact Function.update_self b (some t) n.lists
  have hl := list_letters (x := x) hr (hlists ▸ hs) hf hb (hnow ▸ ht) hxl hans
  rw [hx]
  refine (h.after.setList (hbegin.effect hct heff)
    ((OracleEventList.effect_address heff).trans hb)).post ?_
  intro y hy
  have := hl y hy
  rw [hnow] at this
  exact this

theorem Attested.execPMP {sender : Addr} {call : PmpCall} (h : Attested t₀ tr n)
    (he : n.execPMP m sender call = some x.2) (hi : Told t₀ tr x.1 m ⟨sender, n.now, call⟩) :
    Attested t₀ (tr ++ [x]) x.2 := by
  obtain ⟨p, q, hp, hq, hx⟩ := execPMP_some he
  rw [hx]
  refine (h.after.setPMP ((h.pmps m p hp).step hq hi)).post ?_
  intro y hy
  obtain ⟨act, -, hy⟩ := List.mem_filterMap.mp hy
  cases act <;> cases hy
  exact ⟨nofun, nofun, nofun, nofun⟩

theorem told_of_letter {l : Letter} {call : PmpCall} {ev : NetEvent} {now : ℕ}
    (hl : Genuine t₀ tr now l) (hd : l.dest = .pmp m) (hc : l.pmpCall? = some call) :
    Told t₀ tr ev m ⟨l.src, now, call⟩ := by
  unfold Letter.pmpCall? at hc
  by_cases hret : l.returned = true
  · rw [if_pos hret] at hc
    cases hc
    exact ⟨nofun, nofun, nofun⟩
  · rw [if_neg hret] at hc
    have hret : l.returned = false := by simpa using hret
    cases hb : l.body <;> rw [hb] at hc <;> cases hc
    · exact ⟨nofun, nofun, nofun⟩
    · rename_i k names d nm trust
      obtain ⟨⟨info, hid, hn⟩, htr⟩ := hl.approval m k names d nm trust hret hd hb
      refine ⟨?_, nofun, nofun⟩
      intro k' n' trust' hcall _
      cases hcall
      exact ⟨⟨info, hid, by rw [hn]⟩, htr⟩
    · exact ⟨nofun, nofun, nofun⟩
    · rename_i k
      refine ⟨nofun, ?_, nofun⟩
      intro a k' hcall _ hx
      cases hcall
      exact hl.vote m k hret hd hb hx

theorem told_of_outside {sender : Addr} {call : PmpCall} {now : ℕ} (hs : sender.hosted = false)
    (hc : call.outside = true) :
    Told t₀ tr (.callPMP m sender call) m ⟨sender, now, call⟩ where
  approval := by
    intro k n trust _ hh
    rw [hs] at hh
    cases hh
  vote := by
    intro a k hcall ha
    have hcall : call = .submitResolve (.internal a) k := hcall
    rw [hcall] at hc
    simp [PmpCall.outside, Caller.outside, ha] at hc
  key := fun pk k hcall => congrArg (NetEvent.callPMP m sender) hcall

theorem bounced_genuine {l : Letter} {now : ℕ} : ∀ y ∈ l.bounced, Genuine t₀ tr now y := by
  intro y hy
  unfold Letter.bounced at hy
  split_ifs at hy
  · rw [List.mem_singleton.mp hy]
    exact ⟨(by intros; contradiction), (by intros; contradiction), (by intros; contradiction), (by intros; contradiction)⟩
  · cases hy

theorem Attested.receive {n₁ : Net} {l : Letter} (h : Attested t₀ tr n) (hn : n.Sound)
    (hr : Run Net.step (genesis t₀) tr n₁) (hnow : n₁.now = n.now) (hlists : n₁.lists = n.lists)
    (hbooks : n₁.books = n.books) (hl : Genuine t₀ tr n.now l) (he : n.Received l x.2) :
    Attested t₀ (tr ++ [x]) x.2 := by
  cases he with
  | list y z call hd hc he =>
    refine h.execList hn hr hnow hlists he ?_
    intro e w k price hcall ob hbook hs
    have hsrc : l.src = ob := by simpa [Caller.isSender] using hs
    rw [← hsrc]
    unfold Letter.listCall? at hc
    by_cases hret : l.returned = true
    · rw [if_pos hret] at hc
      rw [← Option.some.inj hc] at hcall
      cases hcall
    · rw [if_neg hret, hcall] at hc
      have hret : l.returned = false := by simpa using hret
      have hb : l.body = .onWeeklyMedian e w k price := by
        cases hb : l.body <;> rw [hb] at hc <;> cases hc
        rfl
      exact hl.answer e w k price hret hb
  | pmp m call hd hc he => exact h.execPMP he (told_of_letter hl hd hc)
  | book c d y e z k hd hb hret he =>
    obtain ⟨s, price, hs, hp, hx⟩ := requestWeeklyMedian_some he
    rw [hx]
    refine h.after.post ?_
    intro w hw
    rw [List.mem_singleton.mp hw]
    refine ⟨(by intros; contradiction), (by intros; contradiction), ?_, (by intros; contradiction)⟩
    intro e' h' k' price' _ hbody
    cases hbody
    refine ⟨tr, n₁, s, List.prefix_append tr [x], hr, hbooks ▸ hs, hnow ▸ hp, ?_⟩
    intro info hi
    rw [hnow]
    exact hl.request e z k hret hb info hi

theorem init_filed {s : OracleEventList} (h : OracleEventList.init a k = some s) :
    s.Filed ∧ s.address = a := by
  simp only [OracleEventList.init, bind_iff, pure_iff] at h
  obtain ⟨-, rfl⟩ := h
  refine ⟨⟨?_, ?_⟩, rfl⟩
  · intro e info he
    cases he
  · intro e range he
    cases he

theorem Attested.step {ev : NetEvent} (h : Attested t₀ tr n)
    (hr : Run Net.step (genesis t₀) tr n) (hs : n.step ev = some n') :
    Attested t₀ (tr ++ [(ev, n')]) n' := by
  have hn := run_sound hr
  cases ev with
  | tick =>
    cases hs
    exact ⟨h.filed, fun l hl => (h.mail l hl).after (Nat.le_add_right _ _), h.after.pmps⟩
  | deployList =>
    simp only [Net.step, bind_iff, pure_iff] at hs
    obtain ⟨-, s, hi, rfl⟩ := hs
    obtain ⟨hf, ha⟩ := init_filed hi
    exact h.after.setList hf ha
  | deployPMP m y l st =>
    obtain ⟨-, rfl⟩ := deployPMP_some hs
    refine (h.after.setPMP (init_traced m y l st)).post ?_
    intro w hw
    obtain ⟨f, -, rfl⟩ := List.mem_map.mp hw
    exact ⟨(by intros; contradiction), (by intros; contradiction), (by intros; contradiction), (by intros; contradiction)⟩
  | deployBook =>
    simp only [Net.step, bind_iff, pure_iff] at hs
    obtain ⟨-, rfl⟩ := hs
    exact ⟨h.filed, h.after.mail, h.after.pmps⟩
  | report =>
    simp only [Net.step, bind_iff, pure_iff] at hs
    obtain ⟨s, -, rfl⟩ := hs
    exact ⟨h.filed, h.after.mail, h.after.pmps⟩
  | callList b caller call =>
    simp only [Net.step, bind_iff] at hs
    obtain ⟨ho, he⟩ := hs
    refine h.execList (x := (NetEvent.callList b caller call, n')) hn hr rfl rfl he ?_
    intro e w k price _ ob hbook hsend
    cases caller with
    | external => cases hsend
    | internal c =>
      have hc : c = ob := by simpa [Caller.isSender] using hsend
      rw [hc] at ho
      cases ob <;> cases hbook
      cases ho
  | callPMP m y call =>
    simp only [Net.step, bind_iff] at hs
    obtain ⟨hy, hc, he⟩ := hs
    exact h.execPMP (x := (NetEvent.callPMP m y call, n')) he (told_of_outside hy hc)
  | deliver i =>
    simp only [Net.step, bind_iff, pure_iff] at hs
    obtain ⟨l, hl, hs⟩ := hs
    have hg := h.mail l (List.mem_of_getElem? hl)
    cases hx : (n.take i).receive l with
    | none =>
      rw [hx] at hs
      rw [← hs]
      exact (h.after.take i).post bounced_genuine
    | some n'' =>
      rw [hx] at hs
      have hs : n'' = n' := hs
      subst hs
      exact (h.take i).receive (x := (NetEvent.deliver i, n'')) (hn.take i) hr rfl rfl rfl hg
        (receive_some hx)
  | abort i =>
    simp only [Net.step, bind_iff, pure_iff] at hs
    obtain ⟨l, -, rfl⟩ := hs
    exact (h.after.take i).post bounced_genuine

theorem run_attested (h : Run step (genesis t₀) tr n) : Attested t₀ tr n := by
  refine h.invariant (Attested t₀) ?_ fun tr n ev n' hr ha hs => ha.step hr hs
  refine ⟨?_, ?_, ?_⟩
  · intro a s hs
    cases hs
  · intro l hl
    cases hl
  · intro m p hp
    cases hp

/-- What the range markets of a run rely on: the bounds a list accepts map every price to the one
range it lies in, in order, and to an outcome of every market of the event; and an outcome of a
market whose lists all hold the event as a range event is the one of a weekly median of the book,
taken at or after the deadline, unless an oracle voted for it with its own key. -/
theorem range_settles_by_median (h : Run step (genesis t₀) tr n) :
    (∀ (s t : OracleEventList) caller now eventName oracleFee deadline describe bounds outcomeNames
      ob, s.addRangeEvent caller now eventName oracleFee deadline describe bounds outcomeNames ob =
        some t → t.MapsPrices (eventIdOf eventName deadline describe outcomeNames) bounds) ∧
      (∀ a s e range, n.lists a = some s → s.rangeData.lookup e = some range →
        s.MapsPrices e range.bounds ∧ ∀ m p price, m.eventId = e → n.pmps m = some p →
          p.numOutcomes ≠ 0 → s.priceToOutcome e price < p.numOutcomes) ∧
      ∀ m p k, n.pmps m = some p → (∀ a ∈ p.oracleLists, Ranged tr a m.eventId) →
        p.resolvedOutcome = some k →
          (∃ a ∈ p.oracleLists, SettledBy t₀ tr a m.eventId k) ∨ VotedByKey tr m p k := by
  have ha := run_attested h
  refine ⟨?_, ?_, fun m p k hp hx => (ha.pmps m p hp).resolved hx k⟩
  · intro s t caller now nm fee dl d bounds names ob hs
    exact OracleEventList.addRangeEvent_mapsPrices hs
  intro a s e range hs hr
  obtain ⟨hb, info, he, hn, -⟩ := (ha.filed a s hs).1.range e range hr
  refine ⟨hb.mapsPrices hr, ?_⟩
  intro m p price hm hp hne
  rcases (ha.pmps m p hp).outcomes with h0 | ⟨info', hi, hnum⟩
  · exact absurd h0 hne
  · have h1 := eventId_inj (hi.trans (hm.trans ((ha.filed a s hs).1.key e info he).symm))
    rw [OracleEventList.priceToOutcome, hr, hnum, h1.2, hn]
    exact Nat.lt_succ_of_le OracleEventList.outcomeOf_le

instance (tr : List (NetEvent × Net)) (a : Addr) (e : ℕ) : Decidable (Ranged tr a e) :=
  inferInstanceAs (Decidable (∀ x ∈ tr, x.2.rangeOnly a e = true))

/-- A book that traded at 50, and a range event with the one bound 100 that it prices. -/
def pricedId : ℕ := eventIdOf "" 120 "" coinNames

def pricedMarket : MarketId := ⟨pricedId, 9, 1⟩

def priced : List NetEvent :=
  [.deployList 1 0 5, .deployBook 1 2 3,
    .report (.inferenceBook 1 2 3) (.deal 8 9) 8 9 50 4,
    .callList (.oracleEventList 1 0) (.external 5)
      (.addRangeEvent "" 0 120 "" [100] coinNames (.inferenceBook 1 2 3)),
    .deployPMP pricedMarket 7 [⟨1, 0, 0⟩] [30, 50], .deliver 0, .deliver 0, .deliver 0, .tick 130]

/-- The list asks the book, and its vote settles the market. -/
def byMedian : List NetEvent :=
  priced ++ [.callList (.oracleEventList 1 0) (.external 5) (.resolveRange pricedId 9 1),
    .deliver 0, .deliver 0, .deliver 0]

/-- The oracle votes with its key instead. -/
def byKey : List NetEvent :=
  priced ++ [.callPMP pricedMarket (.ext 0) (.submitResolve (.external 5) 1)]

theorem byMedian_deployed : ((coinEnd byMedian).pmps pricedMarket).isSome = true := by
  decide +kernel

/-- The market at the end of that run. -/
def settledPMP : PMP := ((coinEnd byMedian).pmps pricedMarket).get byMedian_deployed

theorem range_settles_by_median_sample :
    (∃ a ∈ settledPMP.oracleLists, SettledBy 0 (coinTrace byMedian) a pricedId 0) ∨
      VotedByKey (coinTrace byMedian) pricedMarket settledPMP 0 :=
  (range_settles_by_median (coin_run byMedian)).2.2 pricedMarket settledPMP 0
    (Option.some_get byMedian_deployed).symm (by decide +kernel) (by decide +kernel)

/-- By a vote with the key the market is resolved to an outcome that no median of the run is
mapped to. -/
theorem range_settles_by_median_gap :
    (coinTrace byKey).length = byKey.length ∧
      ((coinEnd byKey).pmps pricedMarket).map (fun p => (p.resolvedOutcome, p.oracleLists)) =
        some (some 1, [.oracleEventList 1 0]) ∧
      Ranged (coinTrace byKey) (.oracleEventList 1 0) pricedId ∧
      (∀ x ∈ coinTrace byKey, ∀ b ∈ x.2.books (.inferenceBook 1 2 3),
        ∀ price ∈ b.weeklyMedian x.2.now, price = 50) ∧
      OracleEventList.outcomeOf 50 [100] = 0 := by
  refine ⟨by decide +kernel, by decide +kernel, by decide +kernel, by decide +kernel, rfl⟩

end Net

end Dexdo
