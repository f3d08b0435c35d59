import Dexdo.OrderBook.Answers

namespace Dexdo

/-- Note and nonce of every accepted call of a run; the index is its number. -/
def acceptedCalls (tr : List (Call × OrderBook)) : List (ℕ × ℕ) := tr.filterMap fun x => x.1.accepted?

/-- Callbacks sent on account of call `b`. -/
def causedBy (b : ℕ) (os : List Out) : List Out := os.filter fun o => decide (o.cause = some b)

/-- Call `b` with note and nonce `c` has been acknowledged once, after everything else it caused. -/
def Acknowledged (c : ℕ × ℕ) (b : ℕ) (os : List Out) : Prop :=
  ∃ pre, (∀ o ∈ pre, o.cb.isAck = false) ∧
    causedBy b os = pre ++ [⟨c.1, .onBatchComplete c.2, 0, some b⟩]

/-- Call `b` has entries in the queue `L` and no acknowledgement, or none and exactly one. -/
inductive AckState (c : ℕ × ℕ) (b : ℕ) (L : List QueueEntry) (os : List Out) : Prop
  | queued (e : QueueEntry) (he : e ∈ L) (hb : e.batch = b)
      (hn : ∀ o ∈ causedBy b os, o.cb.isAck = false)
  | acked (hL : ∀ e ∈ L, e.batch ≠ b) (ha : Acknowledged c b os)

/-- Entries stand in call order and exactly the last of each call is marked. -/
def Grouped : List QueueEntry → Prop
  | [] => True
  | e :: es => (∀ x ∈ es, e.batch ≤ x.batch) ∧ (e.isBatchEnd = true ↔ ∀ x ∈ es, x.batch ≠ e.batch) ∧
    Grouped es

theorem causedBy_append (b : ℕ) (os os' : List Out) :
    causedBy b (os ++ os') = causedBy b os ++ causedBy b os' := List.filter_append ..

theorem causedBy_eq_nil {b : ℕ} {os : List Out} (h : ∀ o ∈ os, o.cause ≠ some b) :
    causedBy b os = [] := by
  rw [causedBy, List.filter_eq_nil_iff]
  intro o ho
  simpa using h o ho

theorem causedBy_eq_self {b : ℕ} {os : List Out} (h : ∀ o ∈ os, o.cause = some b) :
    causedBy b os = os := by
  rw [causedBy, List.filter_eq_self]
  intro o ho
  simpa using h o ho

variable {c : ℕ × ℕ} {b : ℕ} {L : List QueueEntry} {os os' : List Out}

theorem AckState.other (h : AckState c b L os) (ho : ∀ o ∈ os', o.cause ≠ some b) :
    AckState c b L (os ++ os') := by
  have hc : causedBy b (os ++ os') = causedBy b os := by
    rw [causedBy_append, causedBy_eq_nil ho, List.append_nil]
  cases h with
  | queued e he hb hn => exact .queued e he hb (hc ▸ hn)
  | acked hL ha => exact .acked hL (by rw [Acknowledged, hc]; exact ha)

theorem AckState.of_queue {L' : List QueueEntry} (h : AckState c b L os)
    (hL : ∀ e, e.batch = b → (e ∈ L' ↔ e ∈ L)) : AckState c b L' os := by
  cases h with
  | queued e he hb hn => exact .queued e ((hL e hb).mpr he) hb hn
  | acked hn ha => exact .acked (fun e he hb => hn e ((hL e hb).mp he) hb) ha

theorem Grouped.append {es : List QueueEntry} (h : Grouped L) (hlt : ∀ e ∈ L, e.batch < b)
    (hes : Grouped es) (hb : ∀ e ∈ es, e.batch = b) : Grouped (L ++ es) := by
  induction L with
  | nil => exact hes
  | cons e L ih =>
    obtain ⟨h1, h2, h3⟩ := h
    have he := hlt e (by simp)
    refine ⟨fun x hx => ?_, ?_, ih h3 fun x hx => hlt x (by simp [hx])⟩
    · rcases List.mem_append.mp hx with hx | hx
      · exact h1 x hx
      · rw [hb x hx]
        exact he.le
    · rw [h2]
      constructor
      · intro hx x hm
        rcases List.mem_append.mp hm with hm | hm
        · exact hx x hm
        · rw [hb x hm]
          omega
      · exact fun hx x hm => hx x (List.mem_append_left _ hm)

namespace OrderBook

theorem closeLast_grouped {es : List QueueEntry}
    (h : ∀ e ∈ es, e.batch = b ∧ e.isBatchEnd = false) : Grouped (closeLast es) := by
  rcases List.eq_nil_or_concat' es with rfl | ⟨es, e, rfl⟩
  · trivial
  · rw [closeLast_concat]
    induction es with
    | nil => exact ⟨by simp, by simp, trivial⟩
    | cons x es ih =>
      have hx := h x (by simp)
      have hrest : ∀ y ∈ es ++ [{ e with isBatchEnd := true }], y.batch = b := by
        intro y hy
        rcases List.mem_append.mp hy with hy | hy
        · exact (h y (by simp [hy])).1
        · rw [List.mem_singleton.mp hy]
          exact (h e (by simp)).1
      refine ⟨fun y hy => by rw [hx.1, hrest y hy], ?_, ih fun y hy => h y ?_⟩
      · rw [hx.2]
        refine ⟨fun hf => absurd hf (by simp), fun hn => ?_⟩
        exact absurd (hrest { e with isBatchEnd := true } (by simp))
          (hx.1 ▸ hn { e with isBatchEnd := true } (by simp))
      · simp only [List.cons_append, List.mem_cons]
        exact .inr hy

variable {s t u v : OrderBook}

/-- A pass over the head keeps every call's state. -/
theorem HeadPass.ackState {e : QueueEntry} {rest : List QueueEntry} {stay : Option QueueEntry}
    (h : HeadPass s t e rest stay os') (hg : Grouped (e :: rest))
    (hc : e.batch = b → c = (e.depositHash, e.opNonce)) (ha : AckState c b s.toQueue.list os) :
    AckState c b t.toQueue.list
      (os ++ (os' ++ if stay = none ∧ e.isBatchEnd then [ackOut e] else [])) := by
  rw [h.before] at ha
  rw [h.after]
  by_cases hb : e.batch = b
  · have hself : causedBy b os' = os' :=
      causedBy_eq_self fun o ho => by rw [(h.cause o ho).1, hb]
    have hopen : ∀ o ∈ causedBy b (os ++ os'), o.cb.isAck = false := by
      rw [causedBy_append, hself]
      intro o ho
      rcases List.mem_append.mp ho with ho | ho
      · cases ha with
        | queued _ _ _ hn => exact hn o ho
        | acked hL => exact absurd hb (hL e (by simp))
      · exact (h.cause o ho).2
    rw [← List.append_assoc]
    cases stay with
    | some e' =>
      rw [if_neg (by simp), List.append_nil]
      exact .queued e' (by simp) ((h.same e' rfl).1.trans hb) hopen
    | none =>
      by_cases hend : e.isBatchEnd = true
      · have hrest := hg.2.1.mp hend
        rw [if_pos ⟨rfl, hend⟩]
        refine .acked (by simpa [hb] using hrest) ⟨_, hopen, ?_⟩
        have hself : causedBy b [ackOut e] = [ackOut e] := causedBy_eq_self (by simp [ackOut, hb])
        rw [causedBy_append, hself, ackOut, hc hb, hb]
      · have hex : ∃ x ∈ rest, x.batch = e.batch := by
          by_contra hno
          exact hend (hg.2.1.mpr fun x hx hxb => hno ⟨x, hx, hxb⟩)
        obtain ⟨x, hx, hxb⟩ := hex
        rw [if_neg (by simp [hend]), List.append_nil]
        exact .queued x (by simpa using hx) (hxb.trans hb) hopen
  · have hmem : ∀ x : QueueEntry, x.batch = b → (x ∈ stay.toList ++ rest ↔ x ∈ e :: rest) := by
      intro x hx
      rw [List.mem_append, List.mem_cons]
      refine or_congr ⟨fun hm => ?_, fun hm => ?_⟩ Iff.rfl
      · rw [Option.mem_toList] at hm
        exact absurd ((h.same x hm).1.symm.trans hx) hb
      · exact absurd (hm ▸ hx) hb
    refine (ha.of_queue hmem).other fun o ho => ?_
    rcases List.mem_append.mp ho with ho | ho
    · rw [(h.cause o ho).1]
      simpa using hb
    · split_ifs at ho
      · rw [List.mem_singleton.mp ho]
        simpa [ackOut] using hb
      · simp at ho

/-- The queue holds the entries of known calls, in order. -/
structure QueueFiled (calls : List (ℕ × ℕ)) (L : List QueueEntry) : Prop where
  grouped : Grouped L
  known : ∀ e ∈ L, calls[e.batch]? = some (e.depositHash, e.opNonce)

theorem QueueFiled.batch_lt {calls : List (ℕ × ℕ)} (h : QueueFiled calls L) {e : QueueEntry}
    (he : e ∈ L) : e.batch < calls.length :=
  (List.getElem?_eq_some_iff.mp (h.known e he)).1

theorem HeadPass.filed {e : QueueEntry} {rest : List QueueEntry} {stay : Option QueueEntry}
    {calls : List (ℕ × ℕ)} (h : HeadPass s t e rest stay os') (hf : QueueFiled calls (e :: rest)) :
    QueueFiled calls (stay.toList ++ rest) := by
  obtain ⟨⟨h1, h2, h3⟩, hk⟩ := hf
  cases stay with
  | none => exact ⟨h3, fun x hx => hk x (List.mem_cons_of_mem _ (by simpa using hx))⟩
  | some e' =>
    obtain ⟨e1, e2, e3, e4, -⟩ := h.same e' rfl
    refine ⟨⟨by simpa [e1] using h1, by simpa [e1, e2] using h2, h3⟩, fun x hx => ?_⟩
    rcases List.mem_cons.mp (show x ∈ e' :: rest from hx) with rfl | hx
    · rw [e1, e3, e4]
      exact hk e (by simp)
    · exact hk x (by simp [hx])

/-- The pass part of a call keeps the queue filed and every call's state. -/
theorem pass_acks {calls : List (ℕ × ℕ)} (hf : QueueFiled calls u.toQueue.list)
    (h : SameStore u v ∧ v.outs = u.outs ∧ v.feeTotal = u.feeTotal ∨
      ∃ e rest stay os, HeadPass u v e rest stay os) :
    ∃ os', v.outs = u.outs ++ os' ∧ QueueFiled calls v.toQueue.list ∧
      (∀ e ∈ v.toQueue.list, ∃ e' ∈ u.toQueue.list, e'.batch = e.batch) ∧
      (∀ o ∈ os', ∃ e ∈ u.toQueue.list, o.cause = some e.batch) ∧
      ∀ b c os, calls[b]? = some c → AckState c b u.toQueue.list os →
        AckState c b v.toQueue.list (os ++ os') := by
  obtain ⟨h1, h2, -⟩ | ⟨e, rest, stay, os', h⟩ := h
  · have hq : v.toQueue.list = u.toQueue.list := by rw [h1]
    refine ⟨[], by simp [h2], hq ▸ hf, fun e he => ⟨e, hq ▸ he, rfl⟩, by simp,
      fun b c os _ ha => ?_⟩
    rw [hq, List.append_nil]
    exact ha
  · have hf' : QueueFiled calls (e :: rest) := h.before ▸ hf
    refine ⟨_, by rw [h.outs, List.append_assoc], h.after ▸ h.filed hf', fun x hx => ?_,
      fun o ho => ?_, fun b c os hb ha => h.ackState hf'.grouped (fun he => ?_) ha⟩
    · rw [h.after] at hx
      rw [h.before]
      rcases List.mem_append.mp hx with hx | hx
      · exact ⟨e, by simp, (h.same x (Option.mem_toList.mp hx)).1.symm⟩
      · exact ⟨x, by simp [hx], rfl⟩
    · refine ⟨e, by simp [h.before], ?_⟩
      rcases List.mem_append.mp ho with ho | ho
      · exact (h.cause o ho).1
      · split_ifs at ho
        · rw [List.mem_singleton.mp ho]
          rfl
        · simp at ho
    · subst he
      exact Option.some.inj (hb.symm.trans (hf'.known e (by simp)))

/-- Between calls every accepted call is queued and unacknowledged, or acknowledged once. -/
structure Filed (calls : List (ℕ × ℕ)) (os : List Out) (s : OrderBook) : Prop where
  count : s.batches = calls.length
  queue : QueueFiled calls s.toQueue.list
  caused : ∀ o ∈ os, ∀ b, o.cause = some b → b < calls.length
  acks : ∀ b c, calls[b]? = some c → AckState c b s.toQueue.list os

variable {calls : List (ℕ × ℕ)}

theorem EntryOf.close {h o : ℕ} {es : List QueueEntry} (he : ∀ e ∈ es, EntryOf h o b e) :
    ∀ e ∈ closeLast es, e.batch = b ∧ e.depositHash = h ∧ e.opNonce = o := by
  rcases List.eq_nil_or_concat' es with rfl | ⟨es, e, rfl⟩
  · simp [closeLast]
  · rw [closeLast_concat]
    intro x hx
    rcases List.mem_append.mp hx with hx | hx
    · have := he x (by simp [hx])
      exact ⟨this.batch, this.owner, this.opNonce⟩
    · have := he e (by simp)
      rw [List.mem_singleton.mp hx]
      exact ⟨this.batch, this.owner, this.opNonce⟩

section Accept

variable {h o k : ℕ} {X : Multiset Item} {es : List QueueEntry}

theorem Accepts.queueFiled (ha : Accepts h o X k s es u v t) (hf : Filed calls os s) :
    QueueFiled (calls ++ [(h, o)]) u.toQueue.list := by
  have hclose := EntryOf.close ha.entries
  rw [ha.list]
  refine ⟨hf.queue.grouped.append (b := s.batches) (fun e he => hf.count ▸ hf.queue.batch_lt he)
    (closeLast_grouped fun e he => ⟨(ha.entries e he).batch, (ha.entries e he).open_⟩)
    fun e he => (hclose e he).1, ?_⟩
  intro e he
  rcases List.mem_append.mp he with he | he
  · rw [List.getElem?_append_left (hf.queue.batch_lt he), hf.queue.known e he]
  · obtain ⟨e1, e2, e3⟩ := hclose e he
    simp [e1, e2, e3, hf.count]

theorem Accepts.earlier (ha : Accepts h o X k s es u v t) (hf : Filed calls os s)
    (hb : calls[b]? = some c) (hc : ∀ x ∈ os', x.cause = some s.batches) :
    AckState c b u.toQueue.list (os ++ os') := by
  have hlt := (List.getElem?_eq_some_iff.mp hb).1
  rw [← hf.count] at hlt
  refine ((hf.acks b c hb).of_queue fun e he => ?_).other fun x hx => ?_
  · rw [ha.list, List.mem_append]
    refine ⟨fun hm => hm.resolve_right fun hm => ?_, .inl⟩
    rw [(EntryOf.close ha.entries e hm).1] at he
    omega
  · rw [hc x hx]
    simpa using hlt.ne'

theorem Filed.unused (hf : Filed calls os s) : causedBy s.batches os = [] := by
  apply causedBy_eq_nil
  intro x hx hxb
  have := hf.caused x hx _ hxb
  rw [hf.count] at this
  exact lt_irrefl _ this

theorem Accepts.filed (ha : Accepts h o X k s es u v t) (h0 : s.actions = [])
    (hf : Filed calls os s) : Filed (calls ++ [(h, o)]) (os ++ t.outs) t := by
  have hq := ha.queueFiled hf
  have hlen : (calls ++ [(h, o)]).length = s.batches + 1 := by simp [hf.count]
  obtain ⟨os1, ho1, -, hc1, -⟩ := ha.sends
  obtain ⟨os2, ho2, hq2, hv, hc2, hpass⟩ := pass_acks hq ha.pass
  have hs0 : s.outs = [] := by simp [OrderBook.outs, h0]
  have htl : t.toQueue.list = v.toQueue.list := by rw [ha.same]
  have hto : os ++ t.outs = os ++ os1 ++ os2 ++ (if es = [] then
      [⟨h, .onBatchComplete o, 0, some s.batches⟩] else []) := by
    rw [ha.outs, ho2, ho1, hs0, List.nil_append]
    simp only [List.append_assoc]
  have hack : ∀ x ∈ (if es = [] then [⟨h, .onBatchComplete o, 0, some s.batches⟩] else [] :
      List Out), x.cause = some s.batches := by
    intro x hx
    split_ifs at hx
    · rw [List.mem_singleton.mp hx]
    · simp at hx
  refine ⟨?_, htl ▸ hq2, ?_, ?_⟩
  · rw [(ha.kept.trans ha.same.kept).batches, ha.counts.2.1, hlen]
  · rw [hto, hlen]
    intro x hx b hb
    have hnew : x.cause = some s.batches → b < s.batches + 1 := by
      intro hx
      rw [hx] at hb
      cases hb
      exact Nat.lt_succ_self _
    simp only [List.mem_append] at hx
    rcases hx with ((hx | hx) | hx) | hx
    · exact (hf.count ▸ hf.caused x hx b hb).trans_le (Nat.le_succ _)
    · exact hnew (hc1 x hx).1
    · obtain ⟨e, he, hxe⟩ := hc2 x hx
      rw [hxe] at hb
      rw [← Option.some.inj hb, ← hlen]
      exact hq.batch_lt he
    · exact hnew (hack x hx)
  · intro b c hb
    rw [htl, hto]
    have hlt := (List.getElem?_eq_some_iff.mp hb).1
    rw [hlen] at hlt
    rcases Nat.lt_succ_iff_lt_or_eq.mp hlt with hlt | rfl
    · have hb0 : calls[b]? = some c := by
        rwa [List.getElem?_append_left (hf.count ▸ hlt)] at hb
      have hu := ha.earlier hf hb0 fun x hx => (hc1 x hx).1
      refine (hpass b c _ hb hu).other fun x hx => ?_
      rw [hack x hx]
      simpa using hlt.ne'
    · obtain rfl : (h, o) = c := by simpa [hf.count] using hb
      have hopen : causedBy s.batches (os ++ os1) = os1 := by
        rw [causedBy_append, hf.unused, causedBy_eq_self fun x hx => (hc1 x hx).1,
          List.nil_append]
      rcases List.eq_nil_or_concat' es with rfl | ⟨es', e, rfl⟩
      · have hul : ∀ e ∈ u.toQueue.list, e.batch ≠ s.batches := by
          intro e he
          rw [ha.list, closeLast, List.append_nil] at he
          exact (hf.count ▸ hf.queue.batch_lt he).ne
        refine .acked (fun e he heb => ?_) ⟨os1, fun x hx => (hc1 x hx).2, ?_⟩
        · obtain ⟨e', he', hee⟩ := hv e he
          exact hul e' he' (hee.trans heb)
        · have hos2 : causedBy s.batches os2 = [] := by
            apply causedBy_eq_nil
            intro x hx hxb
            obtain ⟨e, he, hxe⟩ := hc2 x hx
            exact hul e he (Option.some.inj (hxe.symm.trans hxb))
          rw [if_pos rfl, causedBy_append, causedBy_append, hopen, hos2, List.append_nil,
            causedBy_eq_self (by simp)]
      · have hmem : ({ e with isBatchEnd := true } : QueueEntry) ∈ u.toQueue.list := by
          rw [ha.list, closeLast_concat]
          simp
        have hu : AckState (h, o) s.batches u.toQueue.list (os ++ os1) :=
          .queued _ hmem (ha.entries e (by simp)).batch fun x hx => (hc1 x (hopen ▸ hx)).2
        rw [if_neg (by simp), List.append_nil]
        exact hpass _ _ _ hb hu

end Accept

/-- A transaction keeps every accepted call filed. -/
theorem Filed.step {d : Call} (hs : s.Ok) (h : s.step d = some t) (hf : Filed calls os s) :
    Filed (calls ++ d.accepted?.toList) (os ++ t.outs) t := by
  have hf' : Filed calls os s.begin := ⟨hf.count, hf.queue, hf.caused, hf.acks⟩
  obtain ⟨hh, o, es, u, v, hd, -, ha⟩ | ⟨rfl, rfl⟩ | ⟨⟨hd, -⟩, -, -, hq⟩ := step_cases hs h
  · rw [hd]
    exact ha.filed rfl hf'
  · obtain ⟨-, hk, hp⟩ := processHeadCore_spec (begin_ok hs)
    obtain ⟨os', ho, hq, -, hc, hpass⟩ := pass_acks hf'.queue hp
    rw [show Call.processHead.accepted?.toList = [] from rfl, List.append_nil, ho,
      show s.begin.outs = [] from rfl, List.nil_append]
    refine ⟨hk.batches.trans hf'.count, hq, fun x hx b hb => ?_, fun b c hb =>
      hpass b c os hb (hf'.acks b c hb)⟩
    rcases List.mem_append.mp hx with hx | hx
    · exact hf.caused x hx b hb
    · obtain ⟨e, he, hxe⟩ := hc x hx
      rw [hxe] at hb
      cases hb
      exact hf'.queue.batch_lt he
  · have hql : t.toQueue.list = s.begin.toQueue.list := congrArg Queue.list hq.queue
    rw [hd, Option.toList_none, List.append_nil]
    refine ⟨hq.batches.trans hf'.count, hql ▸ hf'.queue, fun x hx b hb => ?_, fun b c hb => ?_⟩
    · rcases List.mem_append.mp hx with hx | hx
      · exact hf.caused x hx b hb
      · rw [hq.cause x hx] at hb
        simp at hb
    · rw [hql]
      refine (hf'.acks b c hb).other fun x hx => ?_
      rw [hq.cause x hx]
      simp

end OrderBook

end Dexdo
