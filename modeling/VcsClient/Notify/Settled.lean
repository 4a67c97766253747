import VcsClient.Notify.Sections

/-!
# Where a key settles

One caller raises and resolves a key through the coalescer while rows are
dismissed and window timers fire. A call takes effect when it is recorded in an
open window or applied at once, and what it asked for then lies in the window,
with the goroutine that closed the window, or on the list. `Settling` is this
invariant, with the order of the calls: what is on the list is older than what
a closed window still has to apply, that is older than what an open window
holds, and that is older than the call being made.

A call applied at once (no window is open) while a closed window still has an
older change to apply breaks the order. Dismissing the row between the two is
what lets it happen, and then the older change comes last
(`settled_on_an_older_call`). In runs without such a call every key settles on
what its last call asked for (`settles`).
-/

namespace VcsClient.Notify

open VcsClient.Lib

variable {δ : Type*}

/-! ## A goroutine and a key -/

/-- What a goroutine has to do with a key: nothing, a call it is making, such a
call that found no window and is to be applied at once, such a call applied and
about to open a window, or a closed window's change it is to apply. -/
inductive View where
  | idle
  | calling (stamp : ℕ)
  | leading (stamp : ℕ)
  | led
  | holding (gen : ℕ) (c : Change) (stamp : ℕ)
  deriving DecidableEq

/-- The goroutine is making a call of the key. -/
def View.busy : View → Bool
  | .calling _ | .leading _ | .led => true
  | _ => false

/-- The goroutine is making a call that found no window. -/
def View.leads : View → Bool
  | .leading _ | .led => true
  | _ => false

def Pc.view (k : Key) : Pc → View
  | .coalesce key _ _ stamp => if key = k then .calling stamp else .idle
  | .commit op stamp .ret => if op.on k then .calling stamp else .idle
  | .commit _ stamp (.lead key _ _) => if key = k then .leading stamp else .idle
  | .commit op stamp (.trail key gen _) =>
    match op.change? with
    | some (_, c) => if key = k then .holding gen c stamp else .idle
    | none => .idle
  | .publish _ _ (.lead key _ _) | .sound _ (.lead key _ _) | .arm key _ _ =>
    if key = k then .led else .idle
  | _ => .idle

/-- The view of a goroutine that may be gone. -/
def viewOf (k : Key) (pc : Option Pc) : View := (pc.map (Pc.view k)).getD .idle

namespace System

def view (s : System δ) (k : Key) (g : ℕ) : View := viewOf k (s.threads.lookup g)

theorem view_of_lookup {s : System δ} {k : Key} {g : ℕ} {pc : Pc}
    (h : s.threads.lookup g = some pc) : s.view k g = pc.view k := by
  simp [view, viewOf, h]

theorem view_goto (s : System δ) (k : Key) (g g' : ℕ) (pc : Option Pc) :
    (s.goto g pc).view k g' = if g' = g then viewOf k pc else s.view k g' := by
  unfold view
  rw [goto_lookup]
  split <;> rfl

/-- The numbers of the calls of a key whose changes are on the list, in the
order they got there. -/
def applied (s : System δ) (k : Key) : List ℕ :=
  (s.history.filter fun r => r.op.on k).map (·.stamp)

/-- A goroutine holds the change of a closed window, from the call `stamp`. -/
def Held (s : System δ) (k : Key) (c : Change) (stamp : ℕ) : Prop :=
  ∃ g gen, s.view k g = .holding gen c stamp

/-- The places a call of a key passes: applied, held by a closed window, pending
in an open one, being made, and yet to be made. -/
def At (s : System δ) (k : Key) : ℕ → ℕ → Prop
  | 0, stamp => stamp ∈ s.applied k
  | 1, stamp => ∃ c, s.Held k c stamp
  | 2, stamp => ∃ p, s.n.pending.lookup k = some p ∧ p.apply ≠ none ∧ p.stamp = stamp
  | 3, stamp => ∃ g, s.view k g = .calling stamp ∨ s.view k g = .leading stamp
  | 4, stamp => s.calls < stamp
  | _, _ => False

/-- The key's window, if one is open, holds no change. -/
def NonePending (s : System δ) (k : Key) : Prop :=
  ∀ p, s.n.pending.lookup k = some p → p.apply = none

/-- What the last call asked for is pending, or held, or on the list. -/
def Due (sha256 : List UInt8 → δ) (s : System δ) (k : Key) (c : Change) : Prop :=
  (∃ p, s.n.pending.lookup k = some p ∧ p.apply = some c) ∨
    s.NonePending k ∧ ((∃ stamp, s.Held k c stamp) ∨
      (∀ c' stamp, ¬s.Held k c' stamp) ∧ s.n.Shows sha256 k c)

/-- The calls of a key, made by goroutine `caller`, are in order, and the last
of them is accounted for. -/
structure Settling (sha256 : List UInt8 → δ) (k : Key) (caller : ℕ) (s : System δ) : Prop where
  caller : ∀ g, (s.view k g).busy = true → g = caller
  lead : ∀ g, (s.view k g).leads = true → s.n.pending.lookup k = none
  led : ∀ g, s.view k g = .led → ∀ c stamp, ¬s.Held k c stamp
  own : ∀ g gen c stamp, s.view k g = .holding gen c stamp →
    ∀ p, s.n.pending.lookup k = some p → p.gen = gen
  one : ∀ g g' gen gen' c c' st st', s.view k g = .holding gen c st →
    s.view k g' = .holding gen' c' st' → g = g'
  sorted : (s.applied k).Pairwise (· < ·)
  order : ∀ i j a b, i < j → s.At k i a → s.At k j b → a < b
  due : ∀ c, s.asked k = some c → s.Due sha256 k c

theorem init_settling (sha256 : List UInt8 → δ) (k : Key) (caller : ℕ) (cap now : ℤ) :
    (init δ cap now).Settling sha256 k caller := by
  have hview : ∀ g, (init δ cap now).view k g = .idle := fun g => by simp [view, viewOf, init]
  have hheld : ∀ c stamp, ¬(init δ cap now).Held k c stamp := by
    rintro c stamp ⟨g, gen, h⟩
    rw [hview] at h
    cases h
  refine ⟨fun g hg => ?_, fun g hg => ?_, fun g _ => hheld, fun g gen c stamp hg => ?_,
    fun g g' gen gen' c c' st st' hg => ?_, .nil, fun i j a b hij ha hb => ?_, fun c h => by cases h⟩
  · rw [hview] at hg
    cases hg
  · rw [hview] at hg
    cases hg
  · rw [hview] at hg
    cases hg
  · rw [hview] at hg
    cases hg
  · have hat : ∀ i a, (init δ cap now).At k i a → i = 4 := by
      intro i a ha
      obtain _ | _ | _ | _ | _ | i := i
      · simp [At, applied, init] at ha
      · obtain ⟨c, hc⟩ := ha
        exact absurd hc (hheld c a)
      · simp [At, init, Notifier.new] at ha
      · simp [At, hview] at ha
      · rfl
      · exact ha.elim
    have hi := hat i a ha
    have hj := hat j b hb
    omega

variable {sha256 : List UInt8 → δ} {k : Key} {caller : ℕ} {s t : System δ}

/-- Calls stay in order when the places of the new state were places of the old
one, in the same order. -/
theorem Settling.shift (hs : s.Settling sha256 k caller) (o : ℕ → ℕ)
    (hat : ∀ i a, t.At k i a → s.At k (o i) a)
    (ho : ∀ i j a b, i < j → t.At k i a → t.At k j b → o i < o j) :
    ∀ i j a b, i < j → t.At k i a → t.At k j b → a < b :=
  fun i j a b hij ha hb => hs.order _ _ a b (ho i j a b hij ha hb) (hat i a ha) (hat j b hb)

theorem applied_congr (h : t.history = s.history) : t.applied k = s.applied k := by
  simp [applied, h]

/-! ## Steps that are not about the key -/

/-- The step spares the key: its calls, its window but for closing it, what it
asked for unless that is dropped, and every goroutine but for one that is done
with its call. -/
structure Frame (sha256 : List UInt8 → δ) (k : Key) (s t : System δ) : Prop where
  pending : ∀ p, t.n.pending.lookup k = some p → ∃ p', s.n.pending.lookup k = some p' ∧
    p'.gen = p.gen ∧ p'.apply = p.apply ∧ p'.stamp = p.stamp
  asked : ∀ c, t.asked k = some c → s.asked k = some c ∧
    (s.n.Shows sha256 k c → t.n.Shows sha256 k c) ∧
    ∀ p', s.n.pending.lookup k = some p' → p'.apply ≠ none →
      ∃ p, t.n.pending.lookup k = some p ∧ p.apply = p'.apply
  applied : t.applied k = s.applied k
  calls : s.calls ≤ t.calls
  view : ∀ g, t.view k g = s.view k g ∨ t.view k g = .idle ∧ (s.view k g).busy = true

theorem Frame.held (h : s.Frame sha256 k t) (c : Change) (st : ℕ) :
    t.Held k c st ↔ s.Held k c st := by
  have hview := h.view
  constructor
  · rintro ⟨g, gen, hg⟩
    refine ⟨g, gen, ?_⟩
    rcases hview g with he | ⟨he, -⟩
    · exact he ▸ hg
    · rw [he] at hg
      cases hg
  · rintro ⟨g, gen, hg⟩
    refine ⟨g, gen, ?_⟩
    rcases hview g with he | ⟨-, he⟩
    · exact he.trans hg
    · rw [hg] at he
      cases he

/-- **A step that spares the key** keeps its calls in order and accounted for. -/
theorem Frame.settling (h : s.Frame sha256 k t) (hs : s.Settling sha256 k caller) :
    t.Settling sha256 k caller := by
  have hview := h.view
  have hback : ∀ g, t.view k g ≠ .idle → s.view k g = t.view k g := by
    intro g hg
    rcases hview g with he | ⟨he, -⟩
    · exact he.symm
    · exact absurd he hg
  refine ⟨fun g hg => ?_, fun g hg => ?_, fun g hg c st => ?_, fun g gen c st hg p hp => ?_,
    fun g g' gen gen' c c' st st' hg hg' => ?_, h.applied ▸ hs.sorted, ?_, fun c hc => ?_⟩
  · have he := hback g fun he => by simp [he, View.busy] at hg
    exact hs.caller g (he ▸ hg)
  · have he := hback g fun he => by simp [he, View.leads] at hg
    have hnone := hs.lead g (he ▸ hg)
    cases hp : t.n.pending.lookup k with
    | none => rfl
    | some p =>
      obtain ⟨p', hp', -⟩ := h.pending p hp
      rw [hnone] at hp'
      cases hp'
  · rw [h.held]
    exact hs.led g (by rw [hback g (by simp [hg]), hg]) c st
  · obtain ⟨p', hp', hgen, -⟩ := h.pending p hp
    exact hgen.symm.trans (hs.own g gen c st (by rw [hback g (by simp [hg]), hg]) p' hp')
  · exact hs.one g g' gen gen' c c' st st' (by rw [hback g (by simp [hg]), hg])
      (by rw [hback g' (by simp [hg']), hg'])
  · refine hs.shift id (fun i a ha => ?_) fun i j _ _ hij _ _ => hij
    match i, ha with
    | 0, ha => exact (h.applied ▸ ha : a ∈ s.applied k)
    | 1, ⟨c, ha⟩ => exact ⟨c, (h.held c a).1 ha⟩
    | 2, ⟨p, hp, hne, hst⟩ =>
      obtain ⟨p', hp', -, happly, hstamp⟩ := h.pending p hp
      exact ⟨p', hp', happly ▸ hne, hstamp.trans hst⟩
    | 3, ⟨g, ha⟩ =>
      have he := hback g fun he => by simp [he] at ha
      exact ⟨g, he ▸ ha⟩
    | 4, ha => exact lt_of_le_of_lt h.calls ha
  · obtain ⟨hasked, hshows, hkeep⟩ := h.asked c hc
    rcases hs.due c hasked with ⟨p', hp', happly⟩ | ⟨hnopend, hrest⟩
    · obtain ⟨p, hp, he⟩ := hkeep p' hp' (by simp [happly])
      exact .inl ⟨p, hp, he.trans happly⟩
    · refine .inr ⟨fun p hp => ?_, ?_⟩
      · obtain ⟨p', hp', -, happly, -⟩ := h.pending p hp
        exact happly ▸ hnopend p' hp'
      · simp only [h.held]
        exact hrest.imp id fun ⟨hnohold, hsh⟩ => ⟨hnohold, hshows hsh⟩

/-! ## Steps of the key -/

/-- Goroutine `g` goes from the view it has to `v`, every other stays. -/
def Moves (k : Key) (g : ℕ) (v : View) (s t : System δ) : Prop :=
  ∀ g', t.view k g' = if g' = g then v else s.view k g'

theorem Moves.self {g : ℕ} {v : View} (h : Moves k g v s t) : t.view k g = v := by
  rw [h g, if_pos rfl]

theorem Moves.other {g g' : ℕ} {v : View} (h : Moves k g v s t) (hne : g' ≠ g) :
    t.view k g' = s.view k g' := by
  rw [h g', if_neg hne]

/-- A goroutine that held nothing and holds nothing: what is held stays. -/
theorem Moves.held {g : ℕ} {v : View} (h : Moves k g v s t)
    (hs : ∀ gen c st, s.view k g ≠ .holding gen c st) (hv : ∀ gen c st, v ≠ .holding gen c st)
    (c : Change) (st : ℕ) : t.Held k c st ↔ s.Held k c st := by
  constructor
  · rintro ⟨g', gen, hg'⟩
    by_cases he : g' = g
    · rw [he, h.self] at hg'
      exact absurd hg' (hv gen c st)
    · exact ⟨g', gen, h.other he ▸ hg'⟩
  · rintro ⟨g', gen, hg'⟩
    by_cases he : g' = g
    · exact absurd (he ▸ hg') (hs gen c st)
    · exact ⟨g', gen, (h.other he).trans hg'⟩

theorem Settling.alone (hs : s.Settling sha256 k caller) {g g' : ℕ}
    (hg : (s.view k g).busy = true) (hne : g' ≠ g) : (s.view k g').busy = false := by
  by_contra hc
  exact hne ((hs.caller g' (by simpa using hc)).trans (hs.caller g hg).symm)

theorem Settling.call (hs : s.Settling sha256 k caller) {g : ℕ} (hg : g = caller)
    (hidle : s.view k g = .idle) (hm : Moves k g (.calling (s.calls + 1)) s t) (hn : t.n = s.n)
    (hhistory : t.history = s.history) (hasked : t.asked = s.asked)
    (hcalls : t.calls = s.calls + 1) : t.Settling sha256 k caller := by
  have hheld := hm.held (by simp [hidle]) (by simp)
  have hquiet : ∀ g', (s.view k g').busy = false := by
    intro g'
    by_contra hc
    have := hs.caller g' (by simpa using hc)
    rw [this, ← hg, hidle] at hc
    exact hc rfl
  have hback : ∀ i a, i < 3 → t.At k i a → s.At k i a := by
    intro i a hi ha
    match i, ha with
    | 0, ha => exact (applied_congr hhistory ▸ ha : a ∈ s.applied k)
    | 1, ⟨c, ha⟩ => exact ⟨c, (hheld c a).1 ha⟩
    | 2, ⟨p, hp, hrest⟩ => exact ⟨p, hn ▸ hp, hrest⟩
  have hnow : ∀ a, t.At k 3 a → a = s.calls + 1 := by
    rintro a ⟨g', ha⟩
    by_cases he : g' = g
    · rw [he, hm.self] at ha
      rcases ha with ha | ha <;> cases ha
      rfl
    · have := hquiet g'
      rw [hm.other he] at ha
      rcases ha with ha | ha <;> rw [ha] at this <;> cases this
  refine ⟨fun g' hg' => ?_, fun g' hg' => ?_, fun g' hg' c st => ?_, fun g' gen c st hg' => ?_,
    fun g' g'' gen gen' c c' st st' hg' hg'' => ?_, applied_congr hhistory ▸ hs.sorted,
    fun i j a b hij ha hb => ?_, fun c hc => ?_⟩
  · by_cases he : g' = g
    · exact he.trans hg
    · exact hs.caller g' (hm.other he ▸ hg')
  · by_cases he : g' = g
    · rw [he, hm.self] at hg'
      cases hg'
    · exact hn ▸ hs.lead g' (hm.other he ▸ hg')
  · by_cases he : g' = g
    · rw [he, hm.self] at hg'
      cases hg'
    · rw [hheld]
      exact hs.led g' (hm.other he ▸ hg') c st
  · by_cases he : g' = g
    · rw [he, hm.self] at hg'
      cases hg'
    · exact hn ▸ hs.own g' gen c st (hm.other he ▸ hg')
  · by_cases he : g' = g
    · rw [he, hm.self] at hg'
      cases hg'
    · by_cases he' : g'' = g
      · rw [he', hm.self] at hg''
        cases hg''
      · exact hs.one g' g'' gen gen' c c' st st' (hm.other he ▸ hg') (hm.other he' ▸ hg'')
  · have hnew : ∀ a, i < 3 → t.At k i a → a < s.calls + 1 := fun a hi ha =>
      hs.order i 4 a _ (by omega) (hback i a hi ha) (Nat.lt_succ_self _)
    match j, hb, hij with
    | 0, _, hij => omega
    | 1, hb, hij => exact hs.order i 1 a b hij (hback i a (by omega) ha) (hback 1 b (by omega) hb)
    | 2, hb, hij => exact hs.order i 2 a b hij (hback i a (by omega) ha) (hback 2 b (by omega) hb)
    | 3, hb, hij =>
      rw [hnow b hb]
      exact hnew a (by omega) ha
    | 4, hb, hij =>
      have hb : t.calls < b := hb
      rcases Nat.lt_or_ge i 3 with hi | hi
      · have := hnew a hi ha
        omega
      · obtain rfl : i = 3 := by omega
        have := hnow a ha
        omega
    | j + 5, hb, _ => exact hb.elim
  · rcases hs.due c (hasked ▸ hc) with hp | ⟨hnopend, hrest⟩
    · exact .inl (hn ▸ hp)
    · refine .inr ⟨fun p hp => hnopend p (hn ▸ hp), ?_⟩
      simp only [hheld, hn]
      exact hrest

/-- A step of the goroutine that makes the call, by which nothing reaches the
list: the order of the places is all there is to show. -/
theorem Settling.advance (hs : s.Settling sha256 k caller) {g : ℕ} {v : View}
    (hbusy : (s.view k g).busy = true) (hm : Moves k g v s t) (hv : ∀ gen c st, v ≠ .holding gen c st)
    (hled : v ≠ .led)
    (hlead : v.leads = true → t.n.pending.lookup k = none)
    (hpending : ∀ c stamp, s.Held k c stamp → ∀ p, t.n.pending.lookup k = some p →
      ∃ p', s.n.pending.lookup k = some p' ∧ p'.gen = p.gen)
    (happlied : t.applied k = s.applied k) (o : ℕ → ℕ)
    (hat : ∀ i a, t.At k i a → s.At k (o i) a)
    (ho : ∀ i j a b, i < j → t.At k i a → t.At k j b → o i < o j)
    (hdue : ∀ c, t.asked k = some c → t.Due sha256 k c) : t.Settling sha256 k caller := by
  have hheld := hm.held (fun gen c st he => by rw [he] at hbusy; cases hbusy) hv
  have hquiet : ∀ g', g' ≠ g → (t.view k g').busy = false := fun g' he =>
    hm.other he ▸ hs.alone hbusy he
  refine ⟨fun g' hg' => ?_, fun g' hg' => ?_, fun g' hg' c st => ?_, fun g' gen c st hg' p hp => ?_,
    fun g' g'' gen gen' c c' st st' hg' hg'' => ?_, happlied ▸ hs.sorted, hs.shift o hat ho, hdue⟩
  · by_cases he : g' = g
    · exact he ▸ hs.caller g hbusy
    · rw [hquiet g' he] at hg'
      cases hg'
  · by_cases he : g' = g
    · exact hlead (by rw [he, hm.self] at hg'; exact hg')
    · have := hquiet g' he
      cases hview : t.view k g' with
      | leading | led | calling => rw [hview] at this; cases this
      | idle | holding => rw [hview] at hg'; cases hg'
  · by_cases he : g' = g
    · exact absurd (by rw [← hm.self, ← he, hg']) hled
    · have := hquiet g' he
      rw [hg'] at this
      cases this
  · have hold : s.view k g' = .holding gen c st := by
      by_cases he : g' = g
      · rw [he, hm.self] at hg'
        exact absurd hg' (hv gen c st)
      · exact hm.other he ▸ hg'
    obtain ⟨p', hp', hgen⟩ := hpending c st ⟨g', gen, hold⟩ p hp
    exact hgen.symm.trans (hs.own g' gen c st hold p' hp')
  · have hold : ∀ g' gen c st, t.view k g' = .holding gen c st →
        s.view k g' = .holding gen c st := by
      intro g' gen c st hg'
      by_cases he : g' = g
      · rw [he, hm.self] at hg'
        exact absurd hg' (hv gen c st)
      · exact hm.other he ▸ hg'
    exact hs.one g' g'' gen gen' c c' st st' (hold _ _ _ _ hg') (hold _ _ _ _ hg'')

theorem Settling.leadEdge (hs : s.Settling sha256 k caller) {g st : ℕ}
    (hg : s.view k g = .calling st) (hm : Moves k g (.leading st) s t)
    (hnone : s.n.pending.lookup k = none) (hn : t.n = s.n) (hhistory : t.history = s.history)
    (hasked : t.asked = s.asked) (hcalls : t.calls = s.calls) : t.Settling sha256 k caller := by
  have hheld := hm.held (by simp [hg]) (by simp)
  refine hs.advance (by simp [hg, View.busy]) hm (by simp) (by simp) (fun _ => hn ▸ hnone)
    (fun _ _ _ p hp => ⟨p, hn ▸ hp, rfl⟩) (applied_congr hhistory) id (fun i a ha => ?_)
    (fun i j _ _ hij _ _ => hij) fun c hc => ?_
  · match i, ha with
    | 0, ha => exact (applied_congr hhistory ▸ ha : a ∈ s.applied k)
    | 1, ⟨c, ha⟩ => exact ⟨c, (hheld c a).1 ha⟩
    | 2, ⟨p, hp, hrest⟩ => exact ⟨p, hn ▸ hp, hrest⟩
    | 3, ⟨g', ha⟩ =>
      by_cases he : g' = g
      · rw [he, hm.self] at ha
        exact ⟨g, .inl (by simpa [hg] using ha)⟩
      · exact ⟨g', hm.other he ▸ ha⟩
    | 4, ha => exact (hcalls ▸ ha : s.calls < a)
  · rcases hs.due c (hasked ▸ hc) with hp | ⟨hnopend, hrest⟩
    · exact .inl (hn ▸ hp)
    · refine .inr ⟨fun p hp => hnopend p (hn ▸ hp), ?_⟩
      simp only [hheld, hn]
      exact hrest

/-- A call finds an open window and becomes what it holds. -/
theorem Settling.record (hs : s.Settling sha256 k caller) {g st : ℕ} {c : Change}
    {p : PendingChange} (hg : s.view k g = .calling st) (hm : Moves k g .idle s t)
    (hp : s.n.pending.lookup k = some p)
    (hpending : t.n.pending.lookup k = some { p with apply := some c, stamp := st })
    (hhistory : t.history = s.history) (hasked : t.asked k = some c) (hcalls : t.calls = s.calls) :
    t.Settling sha256 k caller := by
  have hheld := hm.held (by simp [hg]) (by simp)
  have hbusy : (s.view k g).busy = true := by simp [hg, View.busy]
  have hnocall : ∀ a, ¬t.At k 3 a := by
    rintro a ⟨g', ha⟩
    by_cases he : g' = g
    · rw [he, hm.self] at ha
      simp at ha
    · have := hs.alone hbusy he
      rw [hm.other he] at ha
      rcases ha with ha | ha <;> rw [ha] at this <;> cases this
  refine hs.advance hbusy hm (by simp) (by simp) (by simp [View.leads]) (fun _ _ _ q hq => ?_)
    (applied_congr hhistory) (fun i => if i = 2 then 3 else i) (fun i a ha => ?_)
    (fun i j a b hij ha hb => ?_) fun c' hc' => ?_
  · rw [hpending] at hq
    cases hq
    exact ⟨p, hp, rfl⟩
  · match i, ha with
    | 0, ha => exact (applied_congr hhistory ▸ ha : a ∈ s.applied k)
    | 1, ⟨c, ha⟩ => exact ⟨c, (hheld c a).1 ha⟩
    | 2, ⟨q, hq, _, hstamp⟩ =>
      rw [hpending] at hq
      cases hq
      exact ⟨g, .inl (hg.trans (congrArg _ hstamp))⟩
    | 3, ha => exact absurd ha (hnocall a)
    | 4, ha => exact (hcalls ▸ ha : s.calls < a)
  · have : j ≠ 3 := by
      rintro rfl
      exact hnocall b hb
    split <;> split <;> omega
  · rw [hasked] at hc'
    cases hc'
    exact .inl ⟨_, hpending, rfl⟩

/-- The leading edge is done: it opens a window that holds nothing yet, or leaves
the key without one. -/
theorem Settling.opened (hs : s.Settling sha256 k caller) {g : ℕ} (hg : s.view k g = .led)
    (hm : Moves k g .idle s t) (happly : t.NonePending k)
    (hshows : ∀ c, s.n.Shows sha256 k c → t.n.Shows sha256 k c)
    (hhistory : t.history = s.history) (hasked : t.asked = s.asked) (hcalls : t.calls = s.calls) :
    t.Settling sha256 k caller := by
  have hheld := hm.held (by simp [hg]) (by simp)
  have hbusy : (s.view k g).busy = true := by simp [hg, View.busy]
  have hnone := hs.lead g (by simp [hg, View.leads])
  refine hs.advance hbusy hm (by simp) (by simp) (by simp [View.leads])
    (fun c st hc => absurd hc (hs.led g hg c st)) (applied_congr hhistory) id (fun i a ha => ?_)
    (fun i j _ _ hij _ _ => hij) fun c hc => ?_
  · match i, ha with
    | 0, ha => exact (applied_congr hhistory ▸ ha : a ∈ s.applied k)
    | 1, ⟨c, ha⟩ => exact ⟨c, (hheld c a).1 ha⟩
    | 2, ⟨p, hp, hne, _⟩ => exact absurd (happly p hp) hne
    | 3, ⟨g', ha⟩ =>
      by_cases he : g' = g
      · rw [he, hm.self] at ha
        simp at ha
      · exact ⟨g', hm.other he ▸ ha⟩
    | 4, ha => exact (hcalls ▸ ha : s.calls < a)
  · refine .inr ⟨happly, ?_⟩
    simp only [hheld]
    rcases hs.due c (hasked ▸ hc) with ⟨p, hp, -⟩ | ⟨-, hrest⟩
    · rw [hnone] at hp
      cases hp
    · exact hrest.imp id fun ⟨hnohold, hsh⟩ => ⟨hnohold, hshows c hsh⟩

/-- A change of the key reaches the list: its number goes behind those before. -/
theorem Settling.append (hs : s.Settling sha256 k caller) {st : ℕ}
    (happ : t.applied k = s.applied k ++ [st]) (hold : ∀ a ∈ s.applied k, a < st)
    (hrest : ∀ j b, 0 < j → t.At k j b → s.At k j b ∧ st < b) :
    (t.applied k).Pairwise (· < ·) ∧
      ∀ i j a b, i < j → t.At k i a → t.At k j b → a < b := by
  refine ⟨?_, fun i j a b hij ha hb => ?_⟩
  · rw [happ]
    refine List.pairwise_append.2 ⟨hs.sorted, List.pairwise_singleton _ _, fun a ha b hb => ?_⟩
    rw [List.mem_singleton.1 hb]
    exact hold a ha
  · obtain ⟨hb', hlt⟩ := hrest j b (by omega) hb
    rcases Nat.eq_zero_or_pos i with rfl | hi
    · have ha : a ∈ t.applied k := ha
      rw [happ] at ha
      rcases List.mem_append.1 ha with ha | ha
      · exact hs.order 0 j a b hij ha hb'
      · rw [List.mem_singleton.1 ha]
        exact hlt
    · exact hs.order i j a b hij (hrest i a hi ha).1 hb'

theorem applied_append {r : Record} (hhistory : t.history = s.history ++ [r])
    (hr : r.op.on k = true) : t.applied k = s.applied k ++ [r.stamp] := by
  simp [applied, hhistory, hr]

/-- **A call is applied at once**, with no older change of the key in any window. -/
theorem Settling.direct (hs : s.Settling sha256 k caller) {g st : ℕ} {c : Change} {v : View}
    (hg : s.view k g = .calling st ∨ s.view k g = .leading st) (hm : Moves k g v s t)
    (hv : v = .idle ∨ v = .led ∧ s.view k g = .leading st)
    (hnohold : ∀ c' st', ¬s.Held k c' st') (hnopend : s.NonePending k)
    (hpending : t.n.pending = s.n.pending) (happ : t.applied k = s.applied k ++ [st])
    (hasked : t.asked k = some c) (hshows : t.n.Shows sha256 k c) (hcalls : t.calls = s.calls) :
    t.Settling sha256 k caller := by
  have hheld := hm.held (by rcases hg with hg | hg <;> simp [hg])
    (by rcases hv with rfl | ⟨rfl, -⟩ <;> simp)
  have hbusy : (s.view k g).busy = true := by rcases hg with hg | hg <;> simp [hg, View.busy]
  have hquiet : ∀ g', g' ≠ g → (t.view k g').busy = false := fun g' he =>
    hm.other he ▸ hs.alone hbusy he
  have hcall : s.At k 3 st := ⟨g, hg⟩
  have hrest : ∀ j b, 0 < j → t.At k j b → s.At k j b ∧ st < b := by
    intro j b hj hb
    match j, hb, hj with
    | 1, ⟨c', hb⟩, _ => exact absurd ((hheld c' b).1 hb) (hnohold c' b)
    | 2, ⟨p, hp, hne, _⟩, _ => exact absurd (hnopend p (hpending ▸ hp)) hne
    | 3, ⟨g', hb⟩, _ =>
      by_cases he : g' = g
      · rw [he, hm.self] at hb
        rcases hv with rfl | ⟨rfl, -⟩ <;> simp at hb
      · have := hquiet g' he
        rcases hb with hb | hb <;> rw [hb] at this <;> cases this
    | 4, hb, _ =>
      have hb : s.At k 4 b := (hcalls ▸ hb : s.calls < b)
      exact ⟨hb, hs.order 3 4 st b (by omega) hcall hb⟩
    | j + 5, hb, _ => exact hb.elim
  obtain ⟨hsorted, horder⟩ := hs.append happ
    (fun a ha => hs.order 0 3 a st (by omega) ha hcall) hrest
  refine ⟨fun g' hg' => ?_, fun g' hg' => ?_, fun g' _ c' st' => ?_, fun g' gen c' st' hg' => ?_,
    fun g' g'' gen gen' c' c'' st' st'' hg' => ?_, hsorted, horder, fun c' hc' => ?_⟩
  · by_cases he : g' = g
    · exact he ▸ hs.caller g hbusy
    · rw [hquiet g' he] at hg'
      cases hg'
  · rw [hpending]
    by_cases he : g' = g
    · rw [he, hm.self] at hg'
      rcases hv with rfl | ⟨-, hg⟩
      · cases hg'
      · exact hs.lead g (by simp [hg, View.leads])
    · have := hquiet g' he
      cases hview : t.view k g' with
      | leading | led | calling => rw [hview] at this; cases this
      | idle | holding => rw [hview] at hg'; cases hg'
  · rw [hheld]
    exact hnohold c' st'
  · exact absurd ((hheld c' st').1 ⟨g', gen, hg'⟩) (hnohold c' st')
  · exact absurd ((hheld c' st').1 ⟨g', gen, hg'⟩) (hnohold c' st')
  · rw [hasked] at hc'
    cases hc'
    refine .inr ⟨fun p hp => hnopend p (hpending ▸ hp), .inr ⟨fun c' st' => ?_, hshows⟩⟩
    rw [hheld]
    exact hnohold c' st'

/-- A window closes and its goroutine takes the change it holds. -/
theorem Settling.take (hs : s.Settling sha256 k caller) {g : ℕ} {c : Change} {p : PendingChange}
    (hnohold : ∀ c' st, ¬s.Held k c' st) (hm : Moves k g (.holding p.gen c p.stamp) s t)
    (hp : s.n.pending.lookup k = some p)
    (happly : p.apply = some c)
    (hpending : t.n.pending.lookup k = some { p with apply := none })
    (hhistory : t.history = s.history) (hasked : t.asked = s.asked) (hcalls : t.calls = s.calls) :
    t.Settling sha256 k caller := by
  have hheld : ∀ c' st, t.Held k c' st ↔ c' = c ∧ st = p.stamp := by
    intro c' st
    constructor
    · rintro ⟨g', gen, hg'⟩
      by_cases he : g' = g
      · rw [he, hm.self] at hg'
        cases hg'
        exact ⟨rfl, rfl⟩
      · exact absurd ⟨g', gen, hm.other he ▸ hg'⟩ (hnohold c' st)
    · rintro ⟨rfl, rfl⟩
      exact ⟨g, p.gen, hm.self⟩
  have hback : ∀ g', (t.view k g').busy = true → s.view k g' = t.view k g' := by
    intro g' hg'
    by_cases he : g' = g
    · rw [he, hm.self] at hg'
      cases hg'
    · exact (hm.other he).symm
  have hnolead : ∀ g', (t.view k g').leads = true → False := by
    intro g' hg'
    have hb : (t.view k g').busy = true := by
      cases hview : t.view k g' <;> simp_all [View.busy, View.leads]
    have := hs.lead g' (hback g' hb ▸ hg')
    rw [hp] at this
    cases this
  refine ⟨fun g' hg' => hs.caller g' (hback g' hg' ▸ hg'), fun g' hg' => (hnolead g' hg').elim,
    fun g' hg' => (hnolead g' (by simp [hg', View.leads])).elim, fun g' gen c' st hg' q hq => ?_,
    fun g' g'' gen gen' c' c'' st st' hg' hg'' => ?_, applied_congr hhistory ▸ hs.sorted, ?_,
    fun c' hc' => ?_⟩
  · rw [hpending] at hq
    cases hq
    by_cases he : g' = g
    · rw [he, hm.self] at hg'
      cases hg'
      rfl
    · exact absurd ⟨g', gen, hm.other he ▸ hg'⟩ (hnohold c' st)
  · have honly : ∀ g' gen c' st, t.view k g' = .holding gen c' st → g' = g := by
      intro g' gen c' st hg'
      by_contra he
      exact hnohold c' st ⟨g', gen, hm.other he ▸ hg'⟩
    exact (honly _ _ _ _ hg').trans (honly _ _ _ _ hg'').symm
  · have hnopend : ∀ b, ¬t.At k 2 b := by
      rintro b ⟨q, hq, hne, -⟩
      rw [hpending] at hq
      cases hq
      exact hne rfl
    refine hs.shift (fun i => if i = 1 then 2 else i) (fun i a ha => ?_) fun i j a b hij ha hb => ?_
    · match i, ha with
      | 0, ha => exact (applied_congr hhistory ▸ ha : a ∈ s.applied k)
      | 1, ⟨c', ha⟩ => exact ⟨p, hp, by simp [happly], ((hheld c' a).1 ha).2.symm⟩
      | 2, ha => exact absurd ha (hnopend a)
      | 3, ⟨g', ha⟩ =>
        have hb : (t.view k g').busy = true := by rcases ha with ha | ha <;> simp [ha, View.busy]
        exact ⟨g', hback g' hb ▸ ha⟩
      | 4, ha => exact (hcalls ▸ ha : s.calls < a)
    · have : j ≠ 2 := by
        rintro rfl
        exact hnopend b hb
      split <;> split <;> omega
  · refine .inr ⟨fun q hq => ?_, .inl ?_⟩
    · rw [hpending] at hq
      cases hq
      rfl
    · rcases hs.due c' (hasked ▸ hc') with ⟨q, hq, hqc⟩ | ⟨hnopend, -⟩
      · cases hp.symm.trans hq
        rw [happly] at hqc
        cases hqc
        exact ⟨p.stamp, (hheld c p.stamp).2 ⟨rfl, rfl⟩⟩
      · rw [hnopend p hp] at happly
        cases happly

theorem Settling.apply (hs : s.Settling sha256 k caller) {g gen st : ℕ} {c : Change}
    (hg : s.view k g = .holding gen c st) (hm : Moves k g .idle s t)
    (hpending : t.n.pending = s.n.pending) (happ : t.applied k = s.applied k ++ [st])
    (hasked : ∀ c', t.asked k = some c' → s.asked k = some c')
    (hshows : t.n.Shows sha256 k c) (hcalls : t.calls = s.calls) : t.Settling sha256 k caller := by
  have hnohold : ∀ c' st', ¬t.Held k c' st' := by
    rintro c' st' ⟨g', gen', hg'⟩
    by_cases he : g' = g
    · rw [he, hm.self] at hg'
      cases hg'
    · exact he (hs.one g' g _ _ _ _ _ _ (hm.other he ▸ hg') hg)
  have hback : ∀ g', t.view k g' ≠ .idle → s.view k g' = t.view k g' := by
    intro g' hg'
    by_cases he : g' = g
    · rw [he, hm.self] at hg'
      exact absurd rfl hg'
    · exact (hm.other he).symm
  have hplace : s.At k 1 st := ⟨c, g, gen, hg⟩
  have hrest : ∀ j b, 0 < j → t.At k j b → s.At k j b ∧ st < b := by
    intro j b hj hb
    match j, hb, hj with
    | 1, ⟨c', hb⟩, _ => exact absurd hb (hnohold c' b)
    | 2, ⟨p, hp, hrest⟩, _ =>
      have hb : s.At k 2 b := ⟨p, hpending ▸ hp, hrest⟩
      exact ⟨hb, hs.order 1 2 st b (by omega) hplace hb⟩
    | 3, ⟨g', hb⟩, _ =>
      have hb : s.At k 3 b := ⟨g', hback g' (by rcases hb with hb | hb <;> simp [hb]) ▸ hb⟩
      exact ⟨hb, hs.order 1 3 st b (by omega) hplace hb⟩
    | 4, hb, _ =>
      have hb : s.At k 4 b := (hcalls ▸ hb : s.calls < b)
      exact ⟨hb, hs.order 1 4 st b (by omega) hplace hb⟩
    | j + 5, hb, _ => exact hb.elim
  obtain ⟨hsorted, horder⟩ := hs.append happ
    (fun a ha => hs.order 0 1 a st (by omega) ha hplace) hrest
  refine ⟨fun g' hg' => ?_, fun g' hg' => ?_, fun g' hg' c' st' => hnohold c' st',
    fun g' gen' c' st' hg' => absurd ⟨g', gen', hg'⟩ (hnohold c' st'),
    fun g' g'' gen' gen'' c' c'' st' st'' hg' => absurd ⟨g', gen', hg'⟩ (hnohold c' st'),
    hsorted, horder, fun c' hc' => ?_⟩
  · exact hs.caller g' (hback g' (fun he => by simp [he, View.busy] at hg') ▸ hg')
  · exact hpending ▸ hs.lead g' (hback g' (fun he => by simp [he, View.leads] at hg') ▸ hg')
  · rcases hs.due c' (hasked c' hc') with hp | ⟨hnopend, ⟨st', g', gen', hg'⟩ | ⟨hno, -⟩⟩
    · exact .inl (hpending ▸ hp)
    · obtain rfl := hs.one g g' _ _ _ _ _ _ hg hg'
      rw [hg] at hg'
      cases hg'
      exact .inr ⟨fun p hp => hnopend p (hpending ▸ hp), .inr ⟨hnohold, hshows⟩⟩
    · exact absurd ⟨g, gen, hg⟩ (hno c st)

end System

end VcsClient.Notify
