import Mathlib.Data.Int.ConditionallyCompleteOrder
import VcsClient.Lib.Spells
import VcsClient.Voice.RxIdle

/-!
# The reception log

`rxService` reports a transmission once nothing of it has arrived for
`historyIdle`. `Recording` adds the reported events to the reception of a run.
Per sender and frequency the packets that reached the stream are cut into
spells (`Lib.Spells`): the reported events are the closed spells and the open
transmission of the stream is the running one (`Recorded`).
-/

namespace VcsClient.Voice

open VcsClient.Lib

structure Recording where
  reception : Reception
  history : List RxEvent

namespace Rx

/-- The transmission of a stream that has not been reported yet. -/
def openTransmission (rx : Rx) (key : StreamKey) : Option RxEvent :=
  (rx.streams.lookup key).bind fun st =>
    if st.ended then none else some ⟨key.sender, key.freq, st.started, st.lastSeen⟩

def reports (rx : Rx) : RxOp → List RxEvent
  | .rxService o turns now => (rx.rxService o turns now).1
  | _ => []

end Rx

def RxEvent.key (ev : RxEvent) : StreamKey := ⟨ev.sender, ev.freq⟩

/-- The arrival lies between the event's start and end. -/
def RxEvent.Holds (ev : RxEvent) (at_ : ℤ) : Prop := ev.start ≤ at_ ∧ at_ ≤ ev.end_

instance (ev : RxEvent) : DecidablePred ev.Holds := fun at_ =>
  inferInstanceAs (Decidable (ev.start ≤ at_ ∧ at_ ≤ ev.end_))

namespace Recording

def init (self : UUID) (jitterTarget jitterMax historyIdle clock : ℤ) : Recording :=
  ⟨.init self jitterTarget jitterMax historyIdle clock, []⟩

def step (p : Recording) (op : RxOp) : Option Recording :=
  (p.reception.step op).map fun q => ⟨q, p.history ++ p.reception.rx.reports op⟩

/-- When the packets of a stream arrived, in order. -/
def arrivals (p : Recording) (key : StreamKey) : List ℤ :=
  (p.reception.log.filter (·.key = key)).map (·.at_)

/-- The rows of the log about a sender on a frequency, in report order. -/
def rows (p : Recording) (key : StreamKey) : List RxEvent := p.history.filter (·.key = key)

/-- The rows and, last, the transmission still open. -/
def transmissions (p : Recording) (key : StreamKey) : List RxEvent :=
  p.rows key ++ (p.reception.rx.openTransmission key).toList

end Recording

def rowOf (key : StreamKey) (spell : List ℤ) : RxEvent :=
  ⟨key.sender, key.freq, spell.head?.getD 0, spell.getLast?.getD 0⟩

/-! ## What the operations do to the open transmissions -/

namespace Rx

variable {rx : Rx} {key : StreamKey} {at_ : ℤ}

/-- Every stream is filed under its own key. -/
def Keyed (rx : Rx) : Prop := ∀ key st, rx.streams.lookup key = some st → st.key = key

@[simp] theorem deliver_key (it : ℕ → IterOrder UInt32) (st : RxStream) (pkt : Packet) (at_ : ℤ) :
    (deliver it st pkt at_).2.key = st.key := rfl

/-- A datagram leaves everything as it is, or its arrival joins or starts the
transmission of its stream. -/
theorem rxVoice_transmission (it : ℕ → IterOrder UInt32) (decoder : Bool) (pkt : Packet)
    (at_ : ℤ) (hk : rx.Keyed) :
    (routed pkt at_ (rx.rxVoice it decoder pkt at_).1 = [] ∧
      (rx.rxVoice it decoder pkt at_).2 = rx) ∨
    ∃ accepted, routed pkt at_ (rx.rxVoice it decoder pkt at_).1 =
        [⟨pkt.streamKey, at_, accepted⟩] ∧
      (rx.rxVoice it decoder pkt at_).2.Keyed ∧
      (rx.rxVoice it decoder pkt at_).2.historyIdle = rx.historyIdle ∧
      ∀ key, (rx.rxVoice it decoder pkt at_).2.openTransmission key =
        if key = pkt.streamKey then
          some ⟨key.sender, key.freq, ((rx.openTransmission key).map (·.start)).getD at_, at_⟩
        else rx.openTransmission key := by
  rcases rxVoice_cases it decoder rx pkt at_ with
    ⟨outcome, he, hnil⟩ | ⟨st, streams, hst, hother, he⟩
  · exact .inl ⟨by rw [he]; exact hnil, by rw [he]⟩
  · refine .inr ⟨(deliver it st pkt at_).1, ?_, ?_, by rw [he], fun key => ?_⟩
    · rw [he]
      cases (deliver it st pkt at_).1 <;> rfl
    · rw [he]
      intro key st' hl
      by_cases hkey : key = pkt.streamKey
      · subst hkey
        rw [AList.lookup_insert, Option.some.injEq] at hl
        subst hl
        rcases hst with hst | ⟨-, rfl⟩
        · exact hk _ st hst
        · rfl
      · rw [AList.lookup_insert_ne hkey, hother key hkey] at hl
        exact hk key st' hl
    · rw [he]
      by_cases hkey : key = pkt.streamKey
      · subst hkey
        simp only [openTransmission, AList.lookup_insert, Option.bind_some, deliver, if_true,
          Bool.false_eq_true, if_false, Option.some.injEq, RxEvent.mk.injEq, true_and, and_true]
        rcases hst with hst | ⟨hst, rfl⟩
        · rw [hst]
          cases hended : st.ended <;> simp [hended]
        · simp [hst, newStream]
      · simp only [openTransmission, AList.lookup_insert_ne hkey, hother key hkey, hkey, if_false]

/-- What `serve` reports of a stream, and whether it leaves it open. -/
theorem serve_ended (turns : List (IterOrder UInt32)) (now idle : ℤ) (st : RxStream) :
    (serve turns now idle st).1 =
        (if !st.ended ∧ 0 < idle ∧ idle ≤ now - st.lastSeen then
          some ⟨st.key.sender, st.key.freq, st.started, st.lastSeen⟩ else none) ∧
      (serve turns now idle st).2.ended =
        (st.ended || decide (0 < idle ∧ idle ≤ now - st.lastSeen)) ∧
      (serve turns now idle st).2.started = st.started := by
  unfold serve
  by_cases h : (!st.ended) = true ∧ 0 < idle ∧ idle ≤ now - st.lastSeen
  · obtain ⟨hended, hpos, hle⟩ := h
    rw [Bool.not_eq_true'] at hended
    have : ¬ now - st.lastSeen < idle := by omega
    simp [endTransmission, hended, hpos, hle, this]
  · have : (st.ended || decide (0 < idle ∧ idle ≤ now - st.lastSeen)) = st.ended := by
      cases hended : st.ended <;> simp_all
    simp only [h, if_false, this, and_self]

/-- What a service reports of a stream: its open transmission, once idle. -/
theorem reports_rxService (o : IterOrder StreamKey) (turns : StreamKey → List (IterOrder UInt32))
    (hk : rx.Keyed) (hidle : 0 < rx.historyIdle) (key : StreamKey) (now : ℤ) :
    (rx.rxService o turns now).1.filter (·.key = key) =
      ((rx.openTransmission key).filter fun ev =>
        decide (rx.historyIdle ≤ now - ev.end_)).toList := by
  have hone : ∀ key, ((rx.streams.lookup key).bind fun st =>
      (serve (turns key) now rx.historyIdle st).1) =
      (rx.openTransmission key).filter fun ev => decide (rx.historyIdle ≤ now - ev.end_) := by
    intro key
    cases hl : rx.streams.lookup key with
    | none => simp [openTransmission, hl]
    | some st =>
      simp only [openTransmission, hl, Option.bind_some, (serve_ended _ _ _ st).1, hk key st hl]
      cases st.ended <;> simp [hidle, Option.filter]
  simp only [rxService, hone]
  have hnd : (o.order rx.streams.keys).Nodup := (o.perm _).nodup_iff.2 rx.streams.keys_nodup
  refine filter_filterMap_tag (fun k ev hev => ?_) hnd fun hkey => ?_
  · obtain ⟨hopen, -⟩ := Option.filter_eq_some_iff.1 hev
    simp only [openTransmission, Option.bind_eq_some_iff] at hopen
    obtain ⟨st, -, hev⟩ := hopen
    cases hended : st.ended <;> simp only [hended, if_true, if_false, Bool.false_eq_true,
      reduceCtorEq, Option.some.injEq] at hev
    subst hev
    rfl
  · have hkey' : rx.streams.lookup key = none :=
      AList.lookup_eq_none.2 fun hm => hkey ((o.perm _).symm.subset (AList.mem_keys.2 hm))
    simp [openTransmission, hkey']

theorem openTransmission_rxService (o : IterOrder StreamKey)
    (turns : StreamKey → List (IterOrder UInt32)) (hidle : 0 < rx.historyIdle)
    (hlt : rx.historyIdle < rxIdleTimeout) (key : StreamKey) (now : ℤ) :
    (rx.rxService o turns now).2.openTransmission key =
      (rx.openTransmission key).filter fun ev => decide (now - ev.end_ < rx.historyIdle) := by
  unfold openTransmission
  rw [lookup_rxService]
  cases hl : rx.streams.lookup key with
  | none => rfl
  | some st =>
    obtain ⟨-, hended, hstarted⟩ := serve_ended (turns key) now rx.historyIdle st
    by_cases hreap : rxIdleTimeout ≤ now - st.lastSeen
    · have : ¬ now - st.lastSeen < rx.historyIdle := by omega
      cases hst : st.ended <;> simp [hreap, hst, this, Option.filter]
    · simp only [Option.any_some, hreap, decide_false, Bool.false_eq_true, if_false,
        Option.map_some, Option.bind_some, hended, serve_lastSeen, hstarted]
      by_cases hdone : rx.historyIdle ≤ now - st.lastSeen
      · have : ¬ now - st.lastSeen < rx.historyIdle := by omega
        cases st.ended <;> simp [hidle, hdone, this, Option.filter]
      · have : now - st.lastSeen < rx.historyIdle := by omega
        cases st.ended <;> simp [hdone, this, Option.filter]

theorem keyed_rxService (o : IterOrder StreamKey) (turns : StreamKey → List (IterOrder UInt32))
    (hk : rx.Keyed) (now : ℤ) : (rx.rxService o turns now).2.Keyed := by
  intro key st hl
  rw [lookup_rxService] at hl
  split at hl
  · cases hl
  · obtain ⟨st₀, hl₀, rfl⟩ := Option.map_eq_some_iff.1 hl
    rw [← hk key st₀ hl₀]
    simp only [serve, endTransmission]
    split
    · split <;> rfl
    · rfl

theorem historyIdle_rxService (o : IterOrder StreamKey)
    (turns : StreamKey → List (IterOrder UInt32)) (rx : Rx) (now : ℤ) :
    (rx.rxService o turns now).2.historyIdle = rx.historyIdle := by
  have hfold : ∀ (idle : List StreamKey) (rx : Rx),
      (idle.foldl (fun rx key => rx.reap key now) rx).historyIdle = rx.historyIdle := by
    intro idle
    induction idle with
    | nil => intro rx; rfl
    | cons k idle ih =>
      intro rx
      rw [List.foldl_cons, ih]
      unfold reap
      split
      · rfl
      · split <;> rfl
  exact hfold _ _

end Rx

/-- The history is the log of the received packets, cut into spells. -/
structure Recorded (p : Recording) : Prop where
  keyed : p.reception.rx.Keyed
  cut : ∀ key, ∃ s : Spells ℤ,
    s.Cut p.reception.rx.historyIdle (p.arrivals key) p.reception.clock ∧
    p.rows key = s.closed.map (rowOf key) ∧
    p.reception.rx.openTransmission key =
      if s.running.isEmpty then none else some (rowOf key s.running)

namespace Recorded

theorem init (self : UUID) (jitterTarget jitterMax historyIdle clock : ℤ) :
    Recorded (.init self jitterTarget jitterMax historyIdle clock) where
  keyed := fun key st hl => by simp [Recording.init, Reception.init, Rx.init] at hl
  cut := fun key => ⟨.empty, .empty _ _, rfl, rfl⟩

theorem rowOf_arrive (key : StreamKey) (spell : List ℤ) (at_ : ℤ) :
    rowOf key (spell ++ [at_]) =
      ⟨key.sender, key.freq, (spell.head?).getD at_, at_⟩ := by
  have hhead : (spell ++ [at_]).head? = some (spell.head?.getD at_) := by cases spell <;> rfl
  simp only [rowOf, hhead, List.getLast?_concat, Option.getD_some]

theorem rxVoice {p : Recording} (h : Recorded p) (it : ℕ → IterOrder UInt32) (decoder : Bool)
    (pkt : Packet) {at_ : ℤ} (hle : p.reception.clock ≤ at_) :
    Recorded ⟨⟨(p.reception.rx.rxVoice it decoder pkt at_).2, at_,
      p.reception.log ++ routed pkt at_ (p.reception.rx.rxVoice it decoder pkt at_).1⟩,
      p.history⟩ := by
  rcases Rx.rxVoice_transmission it decoder pkt at_ h.keyed with
    ⟨hnil, hrx⟩ | ⟨accepted, hrouted, hkeyed, hidle, hopen⟩
  · rw [hnil, hrx, List.append_nil]
    refine ⟨h.keyed, fun key => ?_⟩
    obtain ⟨s, hcut, hrows, hrun⟩ := h.cut key
    exact ⟨s, hcut.wait hle, hrows, hrun⟩
  · rw [hrouted]
    refine ⟨hkeyed, fun key => ?_⟩
    obtain ⟨s, hcut, hrows, hrun⟩ := h.cut key
    simp only [Recording.arrivals, Recording.rows, hidle, hopen, List.filter_append,
      List.map_append] at *
    by_cases hkey : key = pkt.streamKey
    · subst hkey
      refine ⟨s.arrive at_, ?_, hrows, ?_⟩
      · simpa using hcut.arrive hle
      · have hne : ¬ (s.arrive at_).running.isEmpty := by simp [Spells.arrive]
        rw [if_pos rfl, if_neg hne, hrun, Option.some.injEq]
        simp only [Spells.arrive, rowOf_arrive]
        cases s.running <;> simp [rowOf]
    · refine ⟨s, ?_, hrows, ?_⟩
      · simpa [Ne.symm hkey] using hcut.wait hle
      · rw [if_neg hkey, hrun]

theorem rxService {p : Recording} (h : Recorded p) (o : IterOrder StreamKey)
    (turns : StreamKey → List (IterOrder UInt32)) {now : ℤ} (hle : p.reception.clock ≤ now)
    (hidle : 0 < p.reception.rx.historyIdle) (hlt : p.reception.rx.historyIdle < rxIdleTimeout) :
    Recorded ⟨⟨(p.reception.rx.rxService o turns now).2, now, p.reception.log⟩,
      p.history ++ (p.reception.rx.rxService o turns now).1⟩ := by
  refine ⟨Rx.keyed_rxService o turns h.keyed now, fun key => ?_⟩
  obtain ⟨s, hcut, hrows, hrun⟩ := h.cut key
  simp only [Recording.arrivals, Recording.rows, Rx.historyIdle_rxService, List.filter_append,
    Rx.reports_rxService o turns h.keyed hidle, Rx.openTransmission_rxService o turns hidle hlt,
    hrun] at *
  cases hr : s.running with
  | nil =>
    refine ⟨s, hcut.wait hle, ?_, ?_⟩
    · simpa [hr] using hrows
    · simp [hr]
  | cons t ts =>
    have hmem : s.running ∈ s.all := by simp [Spells.mem_all, hr]
    obtain ⟨last, hlast⟩ : ∃ last, last ∈ (t :: ts).getLast? :=
      ⟨_, List.getLast?_eq_some_getLast (by simp)⟩
    have hend : (rowOf key (t :: ts)).end_ = last := by
      rw [rowOf, Option.mem_def.1 hlast, Option.getD_some]
    simp only [List.isEmpty_cons, Bool.false_eq_true, if_false, Option.filter, hend]
    by_cases hdone : p.reception.rx.historyIdle ≤ now - last
    · have hopen : ¬ now - last < p.reception.rx.historyIdle := by omega
      have hclose : s.Cut p.reception.rx.historyIdle (p.arrivals key) p.reception.clock := hcut
      refine ⟨s.close, hcut.close hle (fun u hu => ?_), ?_, ?_⟩
      · have := hcut.le_last hmem hu (hr ▸ hlast)
        omega
      · simp [hrows, hdone, Spells.close, Spells.all, hr]
      · simp [hopen, Spells.close]
    · have hopen : now - last < p.reception.rx.historyIdle := by omega
      exact ⟨s, hcut.wait hle, by simp [hrows, hdone], by simp [hr, hopen]⟩

theorem step {p p' : Recording} {op : RxOp} (h : Recorded p)
    (hidle : 0 < p.reception.rx.historyIdle) (hlt : p.reception.rx.historyIdle < rxIdleTimeout)
    (hs : p.step op = some p') :
    Recorded p' ∧ p'.reception.rx.historyIdle = p.reception.rx.historyIdle := by
  obtain ⟨q, hq, rfl⟩ := Option.map_eq_some_iff.1 hs
  cases op with
  | setRXContext accept global test =>
    cases hq
    refine ⟨⟨h.keyed, fun key => ?_⟩, rfl⟩
    obtain ⟨s, hcut, hrows, hrun⟩ := h.cut key
    exact ⟨s, hcut, by simpa [Recording.rows, Rx.reports] using hrows, hrun⟩
  | rxVoice it decoder pkt at_ =>
    simp only [Reception.step] at hq
    split at hq
    · cases hq
    · cases hq
      refine ⟨by simpa [Rx.reports] using h.rxVoice it decoder pkt (by omega), ?_⟩
      rcases Rx.rxVoice_transmission it decoder pkt at_ h.keyed with
        ⟨-, hrx⟩ | ⟨-, -, -, hidle', -⟩
      · simp only [hrx]
      · exact hidle'
  | rxService o turns now =>
    simp only [Reception.step] at hq
    split at hq
    · cases hq
    · cases hq
      exact ⟨h.rxService o turns (by omega) hidle hlt, Rx.historyIdle_rxService o turns _ now⟩

end Recorded

/-- What the log says of a sender on a frequency is what was received: the
transmissions, reported and open, are the arrivals in order, each with its
first and last as start and end (`ends`), they do not overlap and are listed in
order (`disjoint`), each arrival falls in exactly one (`once`), and arrivals
closer than `historyIdle` fall in the same (`together`). -/
structure Truthful (p : Recording) (key : StreamKey) : Prop where
  ends : ∃ spells : List (List ℤ), spells.flatten = p.arrivals key ∧
    List.Forall₂ (fun ev spell => ev.key = key ∧ spell.head? = some ev.start ∧
      spell.getLast? = some ev.end_) (p.transmissions key) spells
  disjoint : (p.transmissions key).Pairwise fun ev ev' => ev.end_ < ev'.start
  once : ∀ at_ ∈ p.arrivals key, (p.transmissions key).countP (·.Holds at_) = 1
  together : ∀ i (hi : i + 1 < (p.arrivals key).length),
    (p.arrivals key)[i + 1] - (p.arrivals key)[i] < p.reception.rx.historyIdle →
    ∀ ev ∈ p.transmissions key, ev.Holds (p.arrivals key)[i] ↔ ev.Holds (p.arrivals key)[i + 1]

theorem rowOf_ends (key : StreamKey) {spell : List ℤ} (hne : spell ≠ []) :
    spell.head? = some (rowOf key spell).start ∧ spell.getLast? = some (rowOf key spell).end_ := by
  simp [rowOf, List.head?_eq_some_head hne, List.getLast?_eq_some_getLast hne]

theorem rowOf_holds {key : StreamKey} {spell : List ℤ} (hne : spell ≠ []) (at_ : ℤ) :
    (rowOf key spell).Holds at_ ↔ Spells.Covers spell at_ :=
  (Spells.covers_iff (rowOf_ends key hne).1 (rowOf_ends key hne).2).symm

theorem Recorded.truthful {p : Recording} (h : Recorded p)
    (hidle : 0 < p.reception.rx.historyIdle) (key : StreamKey) : Truthful p key := by
  obtain ⟨s, hcut, hrows, hrun⟩ := h.cut key
  have htrans : p.transmissions key = s.all.map (rowOf key) := by
    unfold Recording.transmissions Spells.all
    rw [hrows, hrun, List.map_append]
    cases s.running <;> rfl
  have hne := hcut.nonempty_all
  refine ⟨⟨s.all, hcut.all_flatten, ?_⟩, ?_, fun at_ hat => ?_, fun i hi hgap ev hev => ?_⟩
  · rw [htrans, List.forall₂_map_left_iff, List.forall₂_same]
    exact fun g hg => ⟨rfl, rowOf_ends _ (hne g hg)⟩
  · rw [htrans, List.pairwise_map]
    refine hcut.apart.imp_of_mem fun {g g'} hg hg' hapart => ?_
    have := hapart _ (List.mem_of_getLast? (rowOf_ends key (hne g hg)).2) _
      (List.mem_of_mem_head? (rowOf_ends key (hne g' hg')).1)
    omega
  · obtain ⟨before, g, after, hall, hcov, hother⟩ := hcut.covered_once hidle hat
    have hmem : ∀ g' ∈ before ++ after, g' ∈ s.all := by
      intro g' hg'
      rw [hall]
      rcases List.mem_append.1 hg' with hg' | hg'
      · exact List.mem_append_left _ hg'
      · exact List.mem_append_right _ (List.mem_cons_of_mem _ hg')
    have hnone : ∀ gs : List (List ℤ), (∀ g' ∈ gs, g' ∈ before ++ after) →
        (gs.map (rowOf key)).countP (·.Holds at_) = 0 := by
      intro gs hgs
      rw [List.countP_map, List.countP_eq_zero]
      intro g' hg'
      have := hother g' (hgs g' hg')
      simpa [rowOf_holds (hne g' (hmem g' (hgs g' hg')))] using this
    have hg : g ∈ s.all := by simp [hall]
    rw [htrans, hall, List.map_append, List.map_cons, List.countP_append, List.countP_cons,
      hnone before fun g' hg' => List.mem_append_left _ hg',
      hnone after fun g' hg' => List.mem_append_right _ hg']
    simp [rowOf_holds (hne g hg), hcov]
  · rw [htrans] at hev
    obtain ⟨g, hg, rfl⟩ := List.mem_map.1 hev
    rw [rowOf_holds (hne g hg), rowOf_holds (hne g hg)]
    have hle := List.pairwise_iff_getElem.1 hcut.sorted i (i + 1) (by omega) hi (by omega)
    exact hcut.together hidle (List.getElem_mem _) (List.getElem_mem _) hle hgap hg

theorem Rx.mem_rxVoice {rx : Rx} {key : StreamKey} (it : ℕ → IterOrder UInt32) (decoder : Bool)
    (pkt : Packet) (at_ : ℤ) (hkey : key ∈ rx.streams) :
    key ∈ (rx.rxVoice it decoder pkt at_).2.streams := by
  rcases rxVoice_cases it decoder rx pkt at_ with ⟨outcome, he, -⟩ | ⟨st, streams, -, hother, he⟩
  · rwa [he]
  · rw [he]
    simp only
    by_cases hk : key = pkt.streamKey
    · exact AList.mem_insert _ |>.2 (.inl hk)
    · rw [← AList.lookup_isSome, AList.lookup_insert_ne hk, hother key hk, AList.lookup_isSome]
      exact hkey

theorem Recorded.removed {p p' : Recording} {op : RxOp} {key : StreamKey} (h : Recorded p)
    (hidle : 0 < p.reception.rx.historyIdle) (hlt : p.reception.rx.historyIdle < rxIdleTimeout)
    (hs : p.step op = some p') (hmem : key ∈ p.reception.rx.streams)
    (hgone : key ∉ p'.reception.rx.streams) : p'.rows key = p.transmissions key := by
  obtain ⟨q, hq, rfl⟩ := Option.map_eq_some_iff.1 hs
  cases op with
  | setRXContext accept global test => cases hq; exact absurd hmem hgone
  | rxVoice it decoder pkt at_ =>
    simp only [Reception.step] at hq
    split at hq
    · cases hq
    · cases hq
      exact absurd (Rx.mem_rxVoice it decoder pkt at_ hmem) hgone
  | rxService o turns now =>
    simp only [Reception.step] at hq
    split at hq
    · cases hq
    · cases hq
      obtain ⟨st, hl⟩ := Option.isSome_iff_exists.1 (AList.lookup_isSome.2 hmem)
      have hreap : rxIdleTimeout ≤ now - st.lastSeen := by
        by_contra hno
        refine hgone (AList.lookup_isSome.1 ?_)
        rw [Rx.lookup_rxService, hl]
        simp [hno]
      have hdone : p.reception.rx.historyIdle ≤ now - st.lastSeen := by omega
      simp only [Recording.rows, Recording.transmissions, Rx.reports, List.filter_append,
        Rx.reports_rxService o turns h.keyed hidle, Rx.openTransmission, hl, Option.bind_some]
      cases st.ended <;> simp [Option.filter, hdone]

/-- **The reception log tells what was received**, and a stream is removed only
by an operation that reports what it had still open. -/
theorem history_truthful (self : UUID) (jitterTarget jitterMax historyIdle clock : ℤ)
    (hidle : 0 < historyIdle) (hlt : historyIdle < rxIdleTimeout) (ops : List RxOp) (p : Recording)
    (hrun : exec Recording.step (.init self jitterTarget jitterMax historyIdle clock) ops = some p)
    (key : StreamKey) :
    Truthful p key ∧
    ∀ op p', p.step op = some p' → key ∈ p.reception.rx.streams →
      key ∉ p'.reception.rx.streams → p'.rows key = p.transmissions key := by
  have hinv : Recorded p ∧ p.reception.rx.historyIdle = historyIdle :=
    exec_invariant (I := fun p => Recorded p ∧ p.reception.rx.historyIdle = historyIdle)
      (fun _ _ _ ⟨h, he⟩ _ hs =>
        have hstep := h.step (by omega) (by omega) hs
        ⟨hstep.1, hstep.2.trans he⟩)
      ⟨.init self jitterTarget jitterMax historyIdle clock, rfl⟩ (Meets.trivial ..) hrun
  obtain ⟨h, he⟩ := hinv
  exact ⟨h.truthful (by omega) key, fun op p' => h.removed (by omega) (by omega)⟩

section Examples

/-- Two transmissions of the talker on 30 MHz, the second still open. -/
def twoSpells : List RxOp :=
  [.setRXContext [30000] [] [], .rxVoice (always stored) true (voicePacket 1000) 0,
    .rxVoice (always stored) true (voicePacket 1001) (ms 20),
    .rxService (.stored StreamKey) (fun _ => [stored]) (ms 700),
    .rxVoice (always stored) true (voicePacket 1002) (ms 900)]

theorem history_truthful_two :
    ∃ p, exec Recording.step (.init .nil (ms 60) (ms 500) (ms 500) 0) twoSpells = some p ∧
      (p.rows (voicePacket 0).streamKey).map (fun ev => (ev.start, ev.end_)) = [(0, ms 20)] ∧
      Truthful p (voicePacket 0).streamKey :=
  ⟨_, rfl, by decide, (history_truthful .nil (ms 60) (ms 500) (ms 500) 0 (by decide) (by decide)
    twoSpells _ rfl (voicePacket 0).streamKey).1⟩

end Examples

end VcsClient.Voice
