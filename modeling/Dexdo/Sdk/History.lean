import Dexdo.Lib.Keyset

namespace Dexdo.Sdk

variable {κ β : Type}

/-- An event of an account; `data` is what its body decodes to, if it does. -/
structure Event (κ β : Type) where
  chainOrder : κ
  createdAt : ℕ
  data : Option β

/-- A decoded event. Its chain order is a history variable: it tells events apart. -/
structure NoteEvent (κ β : Type) where
  pnAddress : List Char
  createdAt : ℕ
  data : β
  chainOrder : κ
  deriving DecidableEq

def decodeEventToNoteEvent (pnAddress : List Char) (event : Event κ β) : Option (NoteEvent κ β) :=
  event.data.map fun data => ⟨pnAddress, event.createdAt, data, event.chainOrder⟩

structure PageInfo (κ : Type) where
  endCursor : Option κ
  hasNextPage : Bool

structure NotesHistoryPage (κ β : Type) where
  events : List (NoteEvent κ β)
  pageInfo : PageInfo κ

/-- A page of the gateway. -/
structure GqlEvents (κ β : Type) where
  edges : List (Event κ β)
  startCursor : Option κ
  hasPreviousPage : Bool

/-- The last `n` of a list. -/
def latest {α : Type} (n : ℕ) (l : List α) : List α := l.drop (l.length - n)

variable [LinearOrder κ]

/-- What the chain recorded for each account, in chain order. -/
structure History (κ β : Type) [LinearOrder κ] where
  events : List Char → List (Event κ β)
  ordered : ∀ pnAddress, (events pnAddress).Pairwise fun a b => a.chainOrder < b.chainOrder

namespace History

variable (h : History κ β)

/-- The events of a note in front of the cursor. -/
def before (pnAddress : List Char) (cursor : Option κ) : List (Event κ β) :=
  (h.events pnAddress).filter (Keyset.pastDesc Event.chainOrder cursor)

/-- The gateway's answer: the `last` latest events of the account before the cursor. -/
def query (pnAddress : List Char) (last : ℕ) (cursor : Option κ) : GqlEvents κ β :=
  let found := h.before pnAddress cursor
  let edges := latest last found
  ⟨edges, edges.head?.map Event.chainOrder, decide (last < found.length)⟩

/-- One round of the loop over the notes. -/
def readNote (limit : ℕ) (cursor : Option κ) (acc : List (NoteEvent κ β) × PageInfo κ)
    (pnAddress : List Char) : List (NoteEvent κ β) × PageInfo κ :=
  let answer := h.query pnAddress limit cursor
  (acc.1 ++ answer.edges.filterMap (decodeEventToNoteEvent pnAddress),
    if answer.hasPreviousPage then ⟨answer.startCursor, true⟩ else acc.2)

def getNotesHistory (pnAddresses : List (List Char)) (limit : ℕ) (cursor : Option κ) :
    NotesHistoryPage κ β :=
  let read := pnAddresses.foldl (h.readNote limit cursor) ([], ⟨none, false⟩)
  ⟨(Keyset.orderByDesc NoteEvent.createdAt read.1).take limit, read.2⟩

/-- The pages from a cursor on, read until one says that no more follow. -/
def readPages (pnAddresses : List (List Char)) (limit : ℕ) :
    ℕ → Option κ → Option (List (List (NoteEvent κ β)))
  | 0, _ => none
  | fuel + 1, cursor =>
    let page := h.getNotesHistory pnAddresses limit cursor
    if page.pageInfo.hasNextPage then
      (readPages pnAddresses limit fuel page.pageInfo.endCursor).map (page.events :: ·)
    else some [page.events]

/-- The decodable events of the notes in front of the cursor. -/
def decodable (pnAddresses : List (List Char)) (cursor : Option κ) : List (NoteEvent κ β) :=
  pnAddresses.flatMap fun pn => (h.before pn cursor).filterMap (decodeEventToNoteEvent pn)

def NewestFirst (l : List (NoteEvent κ β)) : Prop := l.Pairwise fun a b => b.createdAt ≤ a.createdAt

/-- Every decodable event is delivered exactly once, newest first. -/
def Delivers (pnAddresses : List (List Char)) (limit : ℕ) (cursor : Option κ) : Prop :=
  ∃ fuel pages, h.readPages pnAddresses limit fuel cursor = some pages ∧
    pages.flatten.Perm (h.decodable pnAddresses cursor) ∧ NewestFirst pages.flatten

/-- Where the last listed note with more than `limit` events in front of the cursor has the
`limit`-th latest of them. -/
def cut (pnAddresses : List (List Char)) (limit : ℕ) (cursor : Option κ) : Option κ :=
  ((pnAddresses.filter fun pn => limit < (h.before pn cursor).length).getLast?).bind fun pn =>
    (latest limit (h.before pn cursor)).head?.map Event.chainOrder

/-- A cursor and the cuts that follow from it. -/
inductive Cuts (pnAddresses : List (List Char)) (limit : ℕ) : Option κ → List (Option κ) → Prop
  | last {cursor : Option κ} : h.cut pnAddresses limit cursor = none →
      Cuts pnAddresses limit cursor [cursor]
  | more {cursor : Option κ} {c : κ} {l : List (Option κ)} :
      h.cut pnAddresses limit cursor = some c → Cuts pnAddresses limit (some c) l →
      Cuts pnAddresses limit cursor (cursor :: l)

/-- The decodable ones among the `limit` latest events of each note in front of a cut. -/
def near (pnAddresses : List (List Char)) (limit : ℕ) (cursor : Option κ) :
    List (NoteEvent κ β) :=
  pnAddresses.flatMap fun pn =>
    (latest limit (h.before pn cursor)).filterMap (decodeEventToNoteEvent pn)

/-- Of a note listed earlier, or an earlier event of the same note. -/
def Listed (pnAddresses : List (List Char)) (x y : NoteEvent κ β) : Prop :=
  pnAddresses.idxOf x.pnAddress < pnAddresses.idxOf y.pnAddress ∨
    x.pnAddress = y.pnAddress ∧ x.chainOrder < y.chainOrder

instance (pnAddresses : List (List Char)) (x y : NoteEvent κ β) :
    Decidable (Listed pnAddresses x y) :=
  inferInstanceAs (Decidable (_ ∨ _ ∧ _))

/-- Created later, or at the same time and listed earlier. -/
def Ahead (pnAddresses : List (List Char)) (x y : NoteEvent κ β) : Prop :=
  y.createdAt < x.createdAt ∨ y.createdAt = x.createdAt ∧ Listed pnAddresses x y

instance (pnAddresses : List (List Char)) (x y : NoteEvent κ β) :
    Decidable (Ahead pnAddresses x y) :=
  inferInstanceAs (Decidable (_ ∨ _ ∧ _))

/-- At the cut the event is near, and fewer than `limit` near events are ahead of it. -/
def Stands (pnAddresses : List (List Char)) (limit : ℕ) (cursor : Option κ)
    (x : NoteEvent κ β) : Prop :=
  x ∈ h.near pnAddresses limit cursor ∧
    (h.near pnAddresses limit cursor).countP (fun y => Ahead pnAddresses y x) < limit

/-- Each decodable event stands at one of the cuts and at no other, and none stands at a later cut
than an event created before it. -/
def FallsIntoCuts (pnAddresses : List (List Char)) (limit : ℕ) (cursor : Option κ) : Prop :=
  ∃ cuts, h.Cuts pnAddresses limit cursor cuts ∧
    (∀ x ∈ h.decodable pnAddresses cursor, ∃ c ∈ cuts, h.Stands pnAddresses limit c x) ∧
    cuts.Pairwise fun c c' => ∀ x, h.Stands pnAddresses limit c x →
      ¬ h.Stands pnAddresses limit c' x ∧
        ∀ y, h.Stands pnAddresses limit c' y → y.createdAt ≤ x.createdAt

section Pages

variable {h} {pns : List (List Char)} {limit : ℕ} {cursor : Option κ} {start : κ}

theorem fold_events (acc : List (NoteEvent κ β) × PageInfo κ) :
    (pns.foldl (h.readNote limit cursor) acc).1 = acc.1 ++ h.near pns limit cursor := by
  induction pns generalizing acc with
  | nil => simp [near]
  | cons pn pns ih =>
    rw [List.foldl_cons, ih]
    simp only [near, readNote, query, List.flatMap_cons, List.append_assoc]

theorem page_events : (h.getNotesHistory pns limit cursor).events =
    (Keyset.orderByDesc NoteEvent.createdAt (h.near pns limit cursor)).take limit := by
  unfold getNotesHistory
  dsimp only
  rw [fold_events, List.nil_append]

omit [LinearOrder κ] in
theorem latest_head {α : Type} {n : ℕ} {l : List α} (hpos : 0 < n) (hlong : n < l.length) :
    ∃ a, (latest n l).head? = some a := by
  refine Option.isSome_iff_exists.mp (List.isSome_head?.mpr fun hnil => ?_)
  have hlen := congrArg List.length hnil
  rw [latest, List.length_drop, List.length_nil] at hlen
  omega

/-- The next cursor is the cut, and there is a next page as long as there is one. -/
theorem page_info (hpos : 0 < limit) : (h.getNotesHistory pns limit cursor).pageInfo =
    ⟨h.cut pns limit cursor, (h.cut pns limit cursor).isSome⟩ := by
  unfold getNotesHistory cut
  dsimp only
  induction pns using List.reverseRecOn with
  | nil => rfl
  | append_singleton pns pn ih =>
    rw [List.foldl_append, List.foldl_cons, List.foldl_nil, List.filter_append]
    by_cases hlong : limit < (h.before pn cursor).length
    · obtain ⟨e, he⟩ := latest_head hpos hlong
      simp [readNote, query, hlong, he]
    · simp [readNote, query, hlong, ih]

theorem readPages_cuts (hpos : 0 < limit) {fuel : ℕ} {pages : List (List (NoteEvent κ β))}
    (hread : h.readPages pns limit fuel cursor = some pages) :
    ∃ cuts, h.Cuts pns limit cursor cuts ∧
      pages = cuts.map fun c => (h.getNotesHistory pns limit c).events := by
  induction fuel generalizing cursor pages with
  | zero => cases hread
  | succ fuel ih =>
    rw [readPages, page_info hpos] at hread
    dsimp only at hread
    cases hcut : h.cut pns limit cursor with
    | none =>
      rw [hcut] at hread
      exact ⟨_, .last hcut, (Option.some.inj hread).symm⟩
    | some =>
      rw [hcut] at hread
      obtain ⟨rest, hrest, rfl⟩ := Option.map_eq_some_iff.mp hread
      obtain ⟨cuts, hcuts, rfl⟩ := ih hrest
      exact ⟨_, .more hcut hcuts, rfl⟩

theorem Cuts.read (hpos : 0 < limit) {cuts : List (Option κ)} (hc : h.Cuts pns limit cursor cuts) :
    h.readPages pns limit cuts.length cursor =
      some (cuts.map fun c => (h.getNotesHistory pns limit c).events) := by
  induction hc with
  | last hcut => simp [readPages, page_info hpos, hcut]
  | more hcut _ ih => simp [readPages, page_info hpos, hcut, ih]

theorem cut_spec (hcut : h.cut pns limit cursor = some start) :
    ∃ pn ∈ pns, ∃ e ∈ h.before pn cursor, e.chainOrder = start := by
  obtain ⟨pn, hpn, hstart⟩ := Option.bind_eq_some_iff.mp hcut
  obtain ⟨e, he, rfl⟩ := Option.map_eq_some_iff.mp hstart
  exact ⟨pn, List.mem_of_mem_filter (List.mem_of_getLast? hpn), e,
    List.mem_of_mem_drop (List.mem_of_head? he), rfl⟩

theorem mem_before {pn : List Char} {e : Event κ β} : e ∈ h.before pn cursor ↔
    e ∈ h.events pn ∧ ∀ c, cursor = some c → e.chainOrder < c := by
  unfold before Keyset.pastDesc
  rw [List.mem_filter]
  cases cursor <;> simp

/-- What lies in front of an event lies in front of the cursor the event is in front of. -/
theorem before_start (hlt : ∀ c, cursor = some c → start < c) (pn : List Char) :
    h.before pn (some start) = (h.before pn cursor).filter fun e => e.chainOrder < start := by
  unfold before
  rw [List.filter_filter]
  refine List.filter_congr fun e _ => ?_
  cases cursor with
  | none => simp [Keyset.pastDesc]
  | some c => simpa [Keyset.pastDesc] using fun he => lt_trans he (hlt c rfl)

/-- Reading comes to an end: every page has fewer events in front of it. -/
theorem exists_cuts (h : History κ β) (pns : List (List Char)) (limit : ℕ) : ∀ {n : ℕ} {cursor : Option κ},
    (pns.map fun pn => (h.before pn cursor).length).sum ≤ n → ∃ cuts, h.Cuts pns limit cursor cuts := by
  intro n
  induction n with
  | zero =>
    intro cursor hn
    cases hcut : h.cut pns limit cursor with
    | none => exact ⟨_, .last hcut⟩
    | some start =>
      obtain ⟨pn, hpn, e, he, -⟩ := cut_spec hcut
      have hle := List.single_le_sum (fun _ _ => Nat.zero_le _) _ (List.mem_map_of_mem
        (f := fun pn => (h.before pn cursor).length) hpn)
      have := List.length_pos_of_mem he
      omega
  | succ n ih =>
    intro cursor hn
    cases hcut : h.cut pns limit cursor with
    | none => exact ⟨_, .last hcut⟩
    | some start =>
      obtain ⟨pn, hpn, e, he, hes⟩ := cut_spec hcut
      have hlt : ∀ c, cursor = some c → start < c := hes ▸ (mem_before.mp he).2
      have hless : (pns.map fun pn => (h.before pn (some start)).length).sum <
          (pns.map fun pn => (h.before pn cursor).length).sum := by
        refine List.sum_lt_sum _ _ (fun m _ => ?_) ⟨pn, hpn, ?_⟩
        · rw [before_start hlt]
          exact List.length_filter_le _ _
        · rw [before_start hlt]
          exact List.length_filter_lt_length_iff_exists.mpr ⟨e, he, by simp [hes]⟩
      obtain ⟨cuts, hcuts⟩ := @ih (some start) (by omega)
      exact ⟨_, .more hcut hcuts⟩

end Pages

section Ranks

variable {h} {pns : List (List Char)} {limit : ℕ} {cursor : Option κ}

omit [LinearOrder κ] in
theorem mem_decoded {pn : List Char} {l : List (Event κ β)} {x : NoteEvent κ β} :
    x ∈ l.filterMap (decodeEventToNoteEvent pn) ↔
      x.pnAddress = pn ∧ ⟨x.chainOrder, x.createdAt, some x.data⟩ ∈ l := by
  simp only [List.mem_filterMap, decodeEventToNoteEvent, Option.map_eq_some_iff]
  constructor
  · rintro ⟨⟨k, t, d⟩, he, a, hd, rfl⟩
    obtain rfl : d = some a := hd
    exact ⟨rfl, he⟩
  · rintro ⟨rfl, he⟩
    exact ⟨_, he, x.data, rfl, rfl⟩

theorem Ahead.asymm {x y : NoteEvent κ β} (hxy : Ahead pns x y) : ¬ Ahead pns y x := by
  rintro (hlt | ⟨heq, hyx⟩)
  · rcases hxy with hlt' | ⟨heq', -⟩ <;> omega
  · rcases hxy with hlt' | ⟨-, hxy⟩
    · omega
    · rcases hxy with hi | ⟨hp, hc⟩ <;> rcases hyx with hi' | ⟨hp', hc'⟩
      · omega
      · rw [hp'] at hi
        exact lt_irrefl _ hi
      · rw [hp] at hi'
        exact lt_irrefl _ hi'
      · exact lt_asymm hc hc'

/-- Lists in chain order, note after note, are in the order of the listing. -/
theorem listed_flatMap (hpns : pns.Nodup) {f : List Char → List (Event κ β)}
    (hf : ∀ pn, (f pn).Pairwise fun a b => a.chainOrder < b.chainOrder) :
    (pns.flatMap fun pn => (f pn).filterMap (decodeEventToNoteEvent pn)).Pairwise (Listed pns) := by
  refine List.pairwise_flatMap.mpr ⟨fun pn _ => ?_, ?_⟩
  · refine List.Pairwise.filterMap _ (fun a b hab x hx y hy => ?_) (hf pn)
    obtain ⟨hxp, hx⟩ := mem_decoded.mp (List.mem_filterMap.mpr ⟨a, List.mem_singleton_self a, hx⟩)
    obtain ⟨hyp, hy⟩ := mem_decoded.mp (List.mem_filterMap.mpr ⟨b, List.mem_singleton_self b, hy⟩)
    rw [← List.mem_singleton.mp hx, ← List.mem_singleton.mp hy] at hab
    exact .inr ⟨hxp.trans hyp.symm, hab⟩
  · have hidx : pns.Pairwise fun a b => pns.idxOf a < pns.idxOf b := by
      refine List.pairwise_iff_getElem.mpr fun i j hi hj hij => ?_
      rwa [hpns.idxOf_getElem i hi, hpns.idxOf_getElem j hj]
    refine hidx.imp fun hlt x hx y hy => .inl ?_
    rwa [(mem_decoded.mp hx).1, (mem_decoded.mp hy).1]

theorem near_listed (hpns : pns.Nodup) : (h.near pns limit cursor).Pairwise (Listed pns) :=
  listed_flatMap hpns fun pn => ((h.ordered pn).filter _).drop

theorem page_ahead (hpns : pns.Nodup) : (Keyset.orderByDesc NoteEvent.createdAt
    (h.near pns limit cursor)).Pairwise (Ahead pns) :=
  Keyset.orderByDesc_stable (near_listed hpns)

/-- The events of a page are those that stand at its cursor. -/
theorem mem_page (hpns : pns.Nodup) {x : NoteEvent κ β} :
    x ∈ (h.getNotesHistory pns limit cursor).events ↔ h.Stands pns limit cursor x := by
  have hperm := Keyset.orderByDesc_perm NoteEvent.createdAt (h.near pns limit cursor)
  rw [page_events, Keyset.mem_take_iff (fun _ _ h => h.asymm) (page_ahead hpns), hperm.mem_iff,
    hperm.countP_eq]
  rfl

theorem page_sorted : NewestFirst (h.getNotesHistory pns limit cursor).events := by
  rw [page_events]
  exact (Keyset.orderByDesc_le _ _).take

theorem page_nodup (hpns : pns.Nodup) : (h.getNotesHistory pns limit cursor).events.Nodup := by
  rw [page_events]
  refine List.Pairwise.imp ?_ (page_ahead hpns).take
  rintro a b hab rfl
  exact hab.asymm hab

theorem decodable_nodup (hpns : pns.Nodup) : (h.decodable pns cursor).Nodup := by
  refine (listed_flatMap hpns fun pn => (h.ordered pn).filter _).imp fun {a b} hab => ?_
  rintro rfl
  rcases hab with hab | ⟨-, hab⟩ <;> exact lt_irrefl _ hab

theorem near_decodable {x : NoteEvent κ β} (hx : x ∈ h.near pns limit cursor) :
    x ∈ h.decodable pns cursor := by
  obtain ⟨pn, hpn, hx⟩ := List.mem_flatMap.mp hx
  obtain ⟨hxp, hx⟩ := mem_decoded.mp hx
  exact List.mem_flatMap.mpr ⟨pn, hpn, mem_decoded.mpr ⟨hxp, List.mem_of_mem_drop hx⟩⟩

theorem cut_lt {start : κ} (hcut : h.cut pns limit cursor = some start) :
    ∀ c, cursor = some c → start < c := by
  obtain ⟨pn, -, e, he, rfl⟩ := cut_spec hcut
  exact (mem_before.mp he).2

/-- The events in front of a cut are in front of the cursor it follows from. -/
theorem Cuts.decodable {cuts : List (Option κ)} (hc : h.Cuts pns limit cursor cuts) {c : Option κ}
    (hmem : c ∈ cuts) {x : NoteEvent κ β} (hx : x ∈ h.decodable pns c) :
    x ∈ h.decodable pns cursor := by
  induction hc with
  | last => rwa [← List.mem_singleton.mp hmem]
  | more hcut _ ih =>
    rcases List.mem_cons.mp hmem with rfl | hmem
    · exact hx
    · obtain ⟨pn, hpn, hx⟩ := List.mem_flatMap.mp (ih hmem)
      obtain ⟨hxp, hx⟩ := mem_decoded.mp hx
      rw [before_start (cut_lt hcut)] at hx
      exact List.mem_flatMap.mpr ⟨pn, hpn, mem_decoded.mpr ⟨hxp, List.mem_of_mem_filter hx⟩⟩

/-- Pages deliver exactly what falls into cuts. -/
theorem delivers_iff (hpos : 0 < limit) (hpns : pns.Nodup) :
    h.Delivers pns limit cursor ↔ h.FallsIntoCuts pns limit cursor := by
  have hcuts {cuts : List (Option κ)} (hc : h.Cuts pns limit cursor cuts) :
      (cuts.map fun c => (h.getNotesHistory pns limit c).events).flatten.Perm
          (h.decodable pns cursor) ∧
        NewestFirst (cuts.map fun c => (h.getNotesHistory pns limit c).events).flatten ↔
      (∀ x ∈ h.decodable pns cursor, ∃ c ∈ cuts, h.Stands pns limit c x) ∧
        cuts.Pairwise fun c c' => ∀ x, h.Stands pns limit c x → ¬ h.Stands pns limit c' x ∧
          ∀ y, h.Stands pns limit c' y → y.createdAt ≤ x.createdAt := by
    have hpages : ∀ l ∈ cuts.map fun c => (h.getNotesHistory pns limit c).events,
        l.Pairwise fun a b => b.createdAt ≤ a.createdAt :=
      List.forall_mem_map.mpr fun c _ => page_sorted
    rw [Keyset.flatten_perm_iff (decodable_nodup hpns) (fun c _ => page_nodup hpns)
        fun c hmem x hx => hc.decodable hmem (near_decodable ((mem_page hpns).mp hx).1),
      NewestFirst, List.pairwise_flatten, List.pairwise_map, and_iff_right hpages, and_assoc,
      ← List.pairwise_and_iff]
    simp only [mem_page hpns, ← forall_and]
  constructor
  · rintro ⟨fuel, pages, hread, hdelivered⟩
    obtain ⟨cuts, hc, rfl⟩ := readPages_cuts hpos hread
    exact ⟨cuts, hc, (hcuts hc).mp hdelivered⟩
  · rintro ⟨cuts, hc, hstand⟩
    exact ⟨_, _, hc.read hpos, (hcuts hc).mpr hstand⟩

end Ranks

section OneNote

variable {h : History κ β} {pn : List Char} {limit : ℕ} {cursor : Option κ}

/-- A page of a single note shows all that is near. -/
theorem page_perm : ((h.getNotesHistory [pn] limit cursor).events).Perm (h.near [pn] limit cursor) := by
  have hlen : (h.near [pn] limit cursor).length ≤ limit := by
    simp only [near, List.flatMap_singleton]
    refine (List.length_filterMap_le _ _).trans ?_
    rw [latest, List.length_drop]
    omega
  have hperm := Keyset.orderByDesc_perm NoteEvent.createdAt (h.near [pn] limit cursor)
  rw [page_events, List.take_of_length_le (hperm.length_eq.trans_le hlen)]
  exact hperm

/-- The history of a single note falls into its last events and those in front of the cut. -/
theorem decodable_cut {start : κ} (hcut : h.cut [pn] limit cursor = some start) :
    h.before pn cursor = h.before pn (some start) ++ latest limit (h.before pn cursor) := by
  have hlt := cut_lt hcut
  obtain ⟨m, hm, hstart⟩ := Option.bind_eq_some_iff.mp hcut
  obtain rfl : m = pn := List.mem_singleton.mp (List.mem_of_mem_filter (List.mem_of_getLast? hm))
  obtain ⟨first, hfirst, rfl⟩ := Option.map_eq_some_iff.mp hstart
  obtain ⟨tail, htail⟩ := List.head?_eq_some_iff.mp hfirst
  obtain ⟨older, hsplit⟩ : ∃ older, h.before m cursor = older ++ latest limit (h.before m cursor) :=
    ⟨_, (List.take_append_drop _ _).symm⟩
  have hord := (h.ordered m).filter (Keyset.pastDesc Event.chainOrder cursor)
  change (h.before m cursor).Pairwise _ at hord
  rw [hsplit, htail] at hord
  obtain ⟨-, hlate, hcross⟩ := List.pairwise_append.mp hord
  have hfront : (older.filter fun e => e.chainOrder < first.chainOrder) = older :=
    List.filter_eq_self.mpr fun e he => by simpa using hcross e he first List.mem_cons_self
  have hback : ((first :: tail).filter fun e => e.chainOrder < first.chainOrder) = [] := by
    refine List.filter_eq_nil_iff.mpr fun e he => ?_
    rcases List.mem_cons.mp he with rfl | he
    · simp
    · simpa using ((List.pairwise_cons.mp hlate).1 e he).le
  have holder : h.before m (some first.chainOrder) = older := by
    rw [before_start hlt, hsplit, htail, List.filter_append, hfront, hback, List.append_nil]
  rw [holder]
  exact hsplit

/-- A single note is delivered, where no event of it was created before one in front of it. -/
theorem one_note (hpos : 0 < limit)
    (hcreated : (h.events pn).Pairwise fun a b => a.createdAt ≤ b.createdAt)
    {cuts : List (Option κ)} (hc : h.Cuts [pn] limit cursor cuts) : h.Delivers [pn] limit cursor := by
  refine ⟨_, _, hc.read hpos, ?_⟩
  induction hc with
  | @last cursor hcut =>
    have hall : latest limit (h.before pn cursor) = h.before pn cursor := by
      by_cases hlong : limit < (h.before pn cursor).length
      · obtain ⟨e, he⟩ := latest_head hpos hlong
        simp [cut, hlong, he] at hcut
      · rw [latest, Nat.sub_eq_zero_of_le (not_lt.mp hlong), List.drop_zero]
    have hperm : (h.getNotesHistory [pn] limit cursor).events.Perm (h.near [pn] limit cursor) :=
      page_perm
    rw [near, List.flatMap_singleton, hall] at hperm
    rw [List.map_singleton, List.flatten_singleton, decodable, List.flatMap_singleton]
    exact ⟨hperm, page_sorted⟩
  | @more cursor start cuts hcut _ ih =>
    have hperm : (h.getNotesHistory [pn] limit cursor).events.Perm (h.near [pn] limit cursor) :=
      page_perm
    rw [near, List.flatMap_singleton] at hperm
    rw [decodable, List.flatMap_singleton] at ih
    rw [List.map_cons, List.flatten_cons, decodable, List.flatMap_singleton, decodable_cut hcut,
      List.filterMap_append]
    refine ⟨(hperm.append ih.1).trans List.perm_append_comm, List.pairwise_append.mpr
      ⟨page_sorted, ih.2, fun x hx y hy => ?_⟩⟩
    have hx := (mem_decoded.mp (hperm.mem_iff.mp hx)).2
    have hy := (mem_decoded.mp (ih.1.mem_iff.mp hy)).2
    have hbefore := hcreated.filter (Keyset.pastDesc Event.chainOrder cursor)
    change (h.before pn cursor).Pairwise _ at hbefore
    rw [decodable_cut hcut] at hbefore
    exact (List.pairwise_append.mp hbefore).2.2 _ hy _ hx

end OneNote

end History

/-- Reading note histories page by page comes to an end, and it delivers every decodable event
exactly once and newest first exactly where the histories fall into cuts. That of a single note whose
events were created in chain order always does. -/
theorem history_delivered (h : History κ β) (limit : ℕ) (hpos : 0 < limit) (pns : List (List Char))
    (hpns : pns.Nodup) :
    (∃ fuel pages, h.readPages pns limit fuel none = some pages) ∧
    (h.Delivers pns limit none ↔ h.FallsIntoCuts pns limit none) ∧
    ∀ pn, pns = [pn] → ((h.events pn).Pairwise fun a b => a.createdAt ≤ b.createdAt) →
      h.FallsIntoCuts pns limit none := by
  obtain ⟨cuts, hcuts⟩ : ∃ cuts, h.Cuts pns limit none cuts := h.exists_cuts pns limit le_rfl
  refine ⟨⟨_, _, hcuts.read hpos⟩, History.delivers_iff hpos hpns, ?_⟩
  rintro pn rfl hcreated
  exact (History.delivers_iff hpos hpns).mp (History.one_note hpos hcreated hcuts)

/-- A note with two events, and one with an event between them. -/
def sampleHistory : History ℕ Unit where
  events pn := if pn = ['a'] then [⟨1, 1, some ()⟩, ⟨3, 3, some ()⟩]
    else if pn = ['b'] then [⟨2, 2, some ()⟩] else []
  ordered pn := by split_ifs <;> decide

theorem history_delivered_sample : sampleHistory.Delivers [['a']] 1 none := by
  have hall := history_delivered sampleHistory 1 (by decide) [['a']] (by decide)
  exact hall.2.1.mpr (hall.2.2 ['a'] rfl (by decide))

/-- Two notes read one event a time: the first event of the one is lost behind that of the other. -/
theorem history_lost : ¬ sampleHistory.Delivers [['a'], ['b']] 1 none := by
  rintro ⟨fuel, pages, hread, hperm, -⟩
  match fuel with
  | 0 => cases hread
  | 1 => cases hread
  | fuel + 2 =>
    have hpages : sampleHistory.readPages [['a'], ['b']] 1 (fuel + 2) none =
        some [[⟨['a'], 3, (), 3⟩], [⟨['b'], 2, (), 2⟩]] := rfl
    rw [hpages] at hread
    rw [← Option.some.inj hread] at hperm
    exact absurd hperm.length_eq (by decide)

end Dexdo.Sdk
