import Mathlib.Data.Finset.Basic
import Mathlib.Data.List.Sort
import VcsClient.Lib.Machine
import VcsClient.Notify.Store

/-!
# Notifications of the hotkeys

`internal/app/notify_keybinds.go`: each time the state of the hotkeys is published it is turned
into calls of the notifier, one for the hotkeys at large and one for each binding that failed, and
the bindings that failed the last time and do not any more are resolved. What failed the last time
is the adapter's own record. The state is published by goroutines that do not wait for each other,
so a step is one call of the notifier or the exchange of the record.

A binding that is not in the record is never left raised (`none_left`), and when no two
publications overlap the rows are those of the last one (`rows_exact`).
-/

namespace VcsClient.App

open VcsClient.Lib VcsClient.Notify

inductive Notice where
  | raise (key : Key) (item : Item) (window : ℤ)
  | resolve (key : Key) (window : ℤ)
  deriving DecidableEq

def Notice.key : Notice → Key
  | .raise key _ _ | .resolve key _ => key

def Notice.raises : Notice → Bool
  | .raise _ _ _ => true
  | .resolve _ _ => false

structure HotkeyStateDTO where
  registered : Bool
  error : String
  /-- `Failed`, a map. -/
  failed : AList fun _ : String => String
  permission : String

structure JoystickStateDTO where
  supported : Bool
  error : String

def notifyCategory : String := "system"

def keyHotkeysGlobal : Key := "hotkeys.global"

def keyJoystickGlobal : Key := "joystick.global"

def bindingKeyPrefix : String := "hotkeys.binding."

def bindingKey (actionID : String) : Key := bindingKeyPrefix ++ actionID

/-- `notify.WindowHotkeys` -/
def windowHotkeys : ℤ := 0

def openKeybinds (primary : Bool) : Notify.Action :=
  ⟨"OPEN KEYBIND SETTINGS", "settings", "navigate", "settings", primary⟩

/-- An item as a caller hands it over. -/
def item (severity : Severity) (icon title body : String) (context : List KV)
    (actions : List Notify.Action) : Item :=
  ⟨"", "", notifyCategory, severity, icon, title, body, context, actions, 0, false, false⟩

def globalNotice (dto : HotkeyStateDTO) : Notice :=
  if dto.registered then .resolve keyHotkeysGlobal windowHotkeys
  else .raise keyHotkeysGlobal (item severityError "bolt" "Global hotkeys unavailable" dto.error
    [⟨"PERMISSION", dto.permission⟩] [openKeybinds true]) windowHotkeys

def bindingNotice (label : String → String) (id error : String) : Notice :=
  .raise (bindingKey id) (item severityWarn "bolt" ("Binding not registered · " ++ label id) error
    [] [openKeybinds false]) windowHotkeys

/-- `notifyJoystickState`, with the window in force. -/
def notifyJoystickState (window : ℤ) (dto : JoystickStateDTO) : Notice :=
  if !dto.supported then
    .raise keyJoystickGlobal (item severityInfo "knob"
      "Joystick input is unsupported on this platform"
      "Joystick and gamepad bindings are available on Windows and Linux only." [] []) window
  else if dto.error ≠ "" then
    .raise keyJoystickGlobal (item severityWarn "knob" "Joystick unavailable" dto.error []
      [openKeybinds false]) window
  else .resolve keyJoystickGlobal window

/-- The failures that are reported one by one: none when the hotkeys failed at large. -/
def HotkeyStateDTO.failures (dto : HotkeyStateDTO) : AList fun _ : String => String :=
  if dto.registered then dto.failed else ∅

def failedIDs (failed : AList fun _ : String => String) : Finset String := failed.keys.toFinset

/-- Where a call of `notifyHotkeyState` is. -/
inductive NoticeCall where
  | enter (dto : HotkeyStateDTO)
  | raising (failed : AList fun _ : String => String) (todo : List String)
  | resolving (gone : Finset String)

structure Notices where
  /-- `notifFailedBindings` -/
  record : Finset String
  calls : ℕ → Option NoticeCall
  /-- The calls of the notifier, newest first. -/
  log : List Notice
  /-- What was published last. -/
  latest : Option HotkeyStateDTO

inductive NoticeOp where
  | publish (i : ℕ) (dto : HotkeyStateDTO)
  | joystick (window : ℤ) (dto : JoystickStateDTO)
  | run (i : ℕ)
  /-- One of the bindings that do not fail any more; they come in no order. -/
  | resolve (i : ℕ) (id : String)

namespace Notices

def new : Notices := ⟨∅, fun _ => none, [], none⟩

def goto (s : Notices) (i : ℕ) (c : Option NoticeCall) : Notices :=
  { s with calls := Function.update s.calls i c }

def note (s : Notices) (n : Notice) : Notices := { s with log := n :: s.log }

/-- `swapFailedBindings`: the record afterwards, and what is gone from it. -/
def swapFailedBindings (s : Notices) (failed : AList fun _ : String => String) :
    Notices × Finset String :=
  ({ s with record := failedIDs failed }, s.record \ failedIDs failed)

def step (label : String → String) (s : Notices) : NoticeOp → Option Notices
  | .publish i dto =>
    if s.calls i = none then some { s.goto i (some (.enter dto)) with latest := some dto } else none
  | .joystick window dto => some (s.note (notifyJoystickState window dto))
  | .run i =>
    match s.calls i with
    | some (.enter dto) =>
      some ((s.note (globalNotice dto)).goto i
        (some (.raising dto.failures (dto.failures.keys.insertionSort (· ≤ ·)))))
    | some (.raising failed (id :: todo)) =>
      some ((s.note (bindingNotice label id ((failed.lookup id).getD ""))).goto i
        (some (.raising failed todo)))
    | some (.raising failed []) =>
      let (s', gone) := s.swapFailedBindings failed
      some (s'.goto i (some (.resolving gone)))
    | some (.resolving gone) => if gone = ∅ then some (s.goto i none) else none
    | none => none
  | .resolve i id =>
    match s.calls i with
    | some (.resolving gone) =>
      if id ∈ gone then
        some ((s.note (.resolve (bindingKey id) windowHotkeys)).goto i
          (some (.resolving (gone.erase id))))
      else none
    | _ => none

/-- Whether the last call of the notifier for the key raised it. -/
def raised (s : Notices) (key : Key) : Bool := (s.log.find? (·.key = key)).any (·.raises)

inductive Moves (label : String → String) (s : Notices) : NoticeOp → Notices → Prop
  | publish {i dto} (hi : s.calls i = none) :
      s.Moves label (.publish i dto) ({ s with latest := some dto }.goto i (some (.enter dto)))
  | joystick {window dto} :
      s.Moves label (.joystick window dto) (s.note (notifyJoystickState window dto))
  | enter {i dto} (hi : s.calls i = some (.enter dto)) :
      s.Moves label (.run i) ((s.note (globalNotice dto)).goto i
        (some (.raising dto.failures (dto.failures.keys.insertionSort (· ≤ ·)))))
  | raise {i failed id todo} (hi : s.calls i = some (.raising failed (id :: todo))) :
      s.Moves label (.run i) ((s.note (bindingNotice label id ((failed.lookup id).getD ""))).goto i
        (some (.raising failed todo)))
  | swap {i failed} (hi : s.calls i = some (.raising failed [])) :
      s.Moves label (.run i) ({ s with record := failedIDs failed }.goto i
        (some (.resolving (s.record \ failedIDs failed))))
  | resolve {i gone id} (hi : s.calls i = some (.resolving gone)) (hid : id ∈ gone) :
      s.Moves label (.resolve i id) ((s.note (.resolve (bindingKey id) windowHotkeys)).goto i
        (some (.resolving (gone.erase id))))
  | done {i} (hi : s.calls i = some (.resolving ∅)) : s.Moves label (.run i) (s.goto i none)

/-! ## The keys -/

theorem bindingKey_inj {id id' : String} : bindingKey id = bindingKey id' ↔ id = id' := by
  refine ⟨fun h => String.toList_inj.1 ?_, fun h => by rw [h]⟩
  have h := congrArg String.toList h
  simpa [bindingKey, String.toList_append] using h

theorem bindingKey_ne (id : String) :
    bindingKey id ≠ keyHotkeysGlobal ∧ bindingKey id ≠ keyJoystickGlobal := by
  have hhead : ∀ key : Key, (key.toList.take 9 ≠ "hotkeys.b".toList) → bindingKey id ≠ key := by
    rintro _ hne rfl
    exact hne (by simp [bindingKey, bindingKeyPrefix, String.toList_append])
  exact ⟨hhead _ (by decide), hhead _ (by decide)⟩

variable {s s' : Notices} {label : String → String} {i : ℕ} {id : String}

@[simp] theorem raised_goto (s : Notices) (i : ℕ) (c : Option NoticeCall) (key : Key) :
    (s.goto i c).raised key = s.raised key := rfl

theorem raised_note (s : Notices) (n : Notice) (key : Key) :
    (s.note n).raised key = if n.key = key then n.raises else s.raised key := by
  by_cases h : n.key = key <;> simp [raised, note, h]

theorem raised_global (s : Notices) (dto : HotkeyStateDTO) (id : String) :
    (s.note (globalNotice dto)).raised (bindingKey id) = s.raised (bindingKey id) := by
  have hkey : (globalNotice dto).key = keyHotkeysGlobal := by
    unfold globalNotice
    split <;> rfl
  rw [raised_note, hkey, if_neg (bindingKey_ne id).1.symm]

theorem raised_joystick (s : Notices) (window : ℤ) (dto : JoystickStateDTO) (id : String) :
    (s.note (notifyJoystickState window dto)).raised (bindingKey id) =
      s.raised (bindingKey id) := by
  have hkey : (notifyJoystickState window dto).key = keyJoystickGlobal := by
    unfold notifyJoystickState
    split
    · rfl
    · split <;> rfl
  rw [raised_note, hkey, if_neg (bindingKey_ne id).2.symm]

theorem raised_binding (s : Notices) (label : String → String) (id' error id : String) :
    (s.note (bindingNotice label id' error)).raised (bindingKey id) =
      (decide (id' = id) || s.raised (bindingKey id)) := by
  rw [raised_note]
  by_cases h : id' = id
  · simp [h, bindingNotice, Notice.key, Notice.raises]
  · simp [h, bindingNotice, Notice.key, bindingKey_inj]

theorem raised_resolve (s : Notices) (id' id : String) :
    (s.note (.resolve (bindingKey id') windowHotkeys)).raised (bindingKey id) =
      (!decide (id' = id) && s.raised (bindingKey id)) := by
  rw [raised_note]
  by_cases h : id' = id
  · simp [h, Notice.key, Notice.raises]
  · simp [h, Notice.key, bindingKey_inj]

theorem step_moves {op : NoticeOp} (h : s.step label op = some s') : s.Moves label op s' := by
  cases op with
  | publish i dto =>
    simp only [step] at h
    split at h
    · cases h
      exact .publish ‹_›
    · cases h
  | joystick window dto =>
    cases h
    exact .joystick
  | run i =>
    simp only [step] at h
    split at h
    · cases h
      exact .enter ‹_›
    · cases h
      exact .raise ‹_›
    · cases h
      exact .swap ‹_›
    · split at h
      · rename_i hi hgone
        cases h
        exact .done (hgone ▸ hi)
      · cases h
    · cases h
  | resolve i id =>
    simp only [step] at h
    split at h
    · split at h
      · cases h
        exact .resolve ‹_› ‹_›
      · cases h
    · cases h

/-! ## Nothing is left raised -/

/-- The bindings a call has still to put into the record or to resolve. -/
def owes : Option NoticeCall → Finset String
  | some (.raising failed _) => failedIDs failed
  | some (.resolving gone) => gone
  | _ => ∅

/-- What a call has still to raise is in its failures. -/
def Raises : Option NoticeCall → Prop
  | some (.raising failed todo) => ∀ id ∈ todo, id ∈ failedIDs failed
  | _ => True

structure Owed (s : Notices) : Prop where
  raises : ∀ i, Raises (s.calls i)
  owed : ∀ id, s.raised (bindingKey id) = true → id ∈ s.record ∨ ∃ i, id ∈ owes (s.calls i)

/-- A call goes on: what is raised is recorded, is its own to see to, or was another's. -/
theorem Owed.move {t : Notices} (h : s.Owed) (ht : t.calls = s.calls) {c : Option NoticeCall}
    (hraises : Raises c) (howed : ∀ id, t.raised (bindingKey id) = true → id ∈ t.record ∨
      id ∈ owes c ∨ s.raised (bindingKey id) = true ∧ id ∉ s.record ∧ id ∉ owes (s.calls i)) :
    (t.goto i c).Owed where
  raises j := by
    obtain rfl | hne := eq_or_ne j i
    · simpa [goto] using hraises
    · simpa [goto, hne, ht] using h.raises j
  owed id hid := by
    obtain hrec | hc | ⟨hraised, hnrec, hnowes⟩ := howed id hid
    · exact .inl hrec
    · exact .inr ⟨i, by simpa [goto] using hc⟩
    · obtain ⟨j, hj⟩ := (h.owed id hraised).resolve_left hnrec
      have hne : j ≠ i := fun heq => hnowes (heq ▸ hj)
      exact .inr ⟨j, by simpa [goto, hne, ht] using hj⟩

theorem Owed.step {op : NoticeOp} (h : s.Owed) (hm : s.Moves label op s') : s'.Owed := by
  cases hm with
  | publish hi =>
    refine h.move ?_ ?_ fun id hid => ?_
    · rfl
    · trivial
    by_cases hrec : id ∈ s.record
    · exact .inl hrec
    · exact .inr (.inr ⟨hid, hrec, by simp [hi, owes]⟩)
  | joystick =>
    exact ⟨h.raises, fun id hid => h.owed id (by rwa [raised_joystick] at hid)⟩
  | @enter i dto hi =>
    refine h.move ?_ ?_ fun id hid => ?_
    · rfl
    · exact fun id hid => List.mem_toFinset.2 ((List.mem_insertionSort _).1 hid)
    · rw [raised_global] at hid
      by_cases hrec : id ∈ s.record
      · exact .inl hrec
      · exact .inr (.inr ⟨hid, hrec, by simp [hi, owes]⟩)
  | @raise i failed id' todo hi =>
    have hin := h.raises i
    rw [hi] at hin
    refine h.move ?_ ?_ fun id hid => ?_
    · rfl
    · exact fun id hid => hin id (List.mem_cons_of_mem _ hid)
    rw [raised_binding, Bool.or_eq_true, decide_eq_true_eq] at hid
    obtain rfl | hid := hid
    · exact .inr (.inl (hin _ List.mem_cons_self))
    by_cases hrec : id ∈ s.record
    · exact .inl hrec
    by_cases hfail : id ∈ failedIDs failed
    · exact .inr (.inl hfail)
    · exact .inr (.inr ⟨hid, hrec, by rwa [hi]⟩)
  | @swap i failed hi =>
    refine h.move ?_ ?_ fun id hid => ?_
    · rfl
    · trivial
    by_cases hfail : id ∈ failedIDs failed
    · exact .inl hfail
    by_cases hrec : id ∈ s.record
    · exact .inr (.inl (Finset.mem_sdiff.2 ⟨hrec, hfail⟩))
    · exact .inr (.inr ⟨hid, hrec, by rwa [hi]⟩)
  | @resolve i gone id' hi hgone =>
    refine h.move ?_ ?_ fun id hid => ?_
    · rfl
    · trivial
    rw [raised_resolve, Bool.and_eq_true, Bool.not_eq_true', decide_eq_false_iff_not] at hid
    by_cases hrec : id ∈ s.record
    · exact .inl hrec
    by_cases hg : id ∈ gone
    · exact .inr (.inl (Finset.mem_erase.2 ⟨Ne.symm hid.1, hg⟩))
    · exact .inr (.inr ⟨hid.2, hrec, by rwa [hi]⟩)
  | @done i hi =>
    refine h.move ?_ ?_ fun id hid => ?_
    · rfl
    · trivial
    by_cases hrec : id ∈ s.record
    · exact .inl hrec
    · exact .inr (.inr ⟨hid, hrec, by simp [hi, owes]⟩)

theorem owed_new : new.Owed where
  raises _ := trivial
  owed _ hid := by cases hid

/-- **No binding is left raised.** In every run, however the publications overlap, once they are
all done every binding whose notification was raised and not resolved since is in the record, so
that the next publication resolves it or raises it again. -/
theorem none_left (label : String → String) (ops : List NoticeOp) (s : Notices)
    (hrun : exec (step label) new ops = some s) (hrest : ∀ i, s.calls i = none) :
    ∀ id, s.raised (bindingKey id) = true → id ∈ s.record := by
  have h : s.Owed := exec_invariant (I := Owed) (fun _ _ _ h _ hs => h.step (step_moves hs))
    owed_new (Meets.trivial _ _ _) hrun
  intro id hid
  refine (h.owed id hid).resolve_right ?_
  rintro ⟨i, hi⟩
  rw [hrest] at hi
  cases hi

def failing : HotkeyStateDTO := ⟨true, "", AList.insert "ptt" "taken" ∅, "granted"⟩

def well : HotkeyStateDTO := ⟨true, "", ∅, "granted"⟩

/-- Two publications that overlap: the binding fails in the first, which swaps last. -/
def overlap : List NoticeOp :=
  [.publish 0 failing, .publish 1 well, .run 0, .run 1, .run 0, .run 1, .run 0, .run 0, .run 1]

theorem none_left_overlap : ∃ s, exec (step fun id => id) new overlap = some s ∧
    (s.raised (bindingKey "ptt") = true → "ptt" ∈ s.record) ∧ s.record = {"ptt"} :=
  ⟨_, rfl, none_left (fun id => id) overlap _ rfl (fun i => by
    match i with
    | 0 => rfl
    | 1 => rfl
    | i + 2 => rfl) "ptt", by decide⟩

/-! ## One at a time -/

/-- A publication begins when no other is under way. -/
def Alone (s : Notices) : NoticeOp → Prop
  | .publish _ _ => ∀ i, s.calls i = none
  | _ => True

/-- The bindings that are to be raised after a publication. -/
def wanted (latest : Option HotkeyStateDTO) : Finset String :=
  latest.elim ∅ fun dto => failedIDs dto.failures

def wantsGlobal (latest : Option HotkeyStateDTO) : Bool := latest.any (!·.registered)

/-- The rows while one call, if any, is under way. -/
def Rows (s : Notices) : Option NoticeCall → Prop
  | none => s.record = wanted s.latest ∧ s.raised keyHotkeysGlobal = wantsGlobal s.latest ∧
      ∀ id, s.raised (bindingKey id) = true ↔ id ∈ s.record
  | some (.enter dto) => s.latest = some dto ∧
      ∀ id, s.raised (bindingKey id) = true ↔ id ∈ s.record
  | some (.raising failed todo) => failedIDs failed = wanted s.latest ∧
      s.raised keyHotkeysGlobal = wantsGlobal s.latest ∧
      (todo.Nodup ∧ ∀ id ∈ todo, id ∈ failedIDs failed) ∧
      ∀ id, s.raised (bindingKey id) = true ↔ id ∈ s.record ∨ id ∈ failedIDs failed ∧ id ∉ todo
  | some (.resolving gone) => s.record = wanted s.latest ∧
      s.raised keyHotkeysGlobal = wantsGlobal s.latest ∧ Disjoint gone s.record ∧
      ∀ id, s.raised (bindingKey id) = true ↔ id ∈ s.record ∨ id ∈ gone

/-- The only call under way, if any, and its rows. -/
def Exact (s : Notices) : Prop := ∃ i, (∀ j, j ≠ i → s.calls j = none) ∧ Rows s (s.calls i)

theorem Exact.rows (h : s.Exact) (hi : s.calls i ≠ none) :
    (∀ j, j ≠ i → s.calls j = none) ∧ Rows s (s.calls i) := by
  obtain ⟨j, hothers, hrows⟩ := h
  obtain rfl : i = j := by_contra fun hne => hi (hothers i hne)
  exact ⟨hothers, hrows⟩

theorem Exact.rest (h : s.Exact) (hrest : ∀ i, s.calls i = none) : Rows s none := by
  obtain ⟨i, -, hrows⟩ := h
  rwa [hrest] at hrows

theorem exact_goto {t : Notices} {c : Option NoticeCall} (ht : t.calls = s.calls)
    (hothers : ∀ j, j ≠ i → s.calls j = none) (hrows : Rows (t.goto i c) c) :
    (t.goto i c).Exact := by
  refine ⟨i, fun j hj => ?_, ?_⟩
  · simpa [goto, hj, ht] using hothers j hj
  · simpa [goto] using hrows

theorem Exact.step {op : NoticeOp} (h : s.Exact) (ho : s.Alone op) (hm : s.Moves label op s') :
    s'.Exact := by
  cases hm with
  | @publish i dto hi =>
    obtain ⟨hrec, hglobal, hrows⟩ := h.rest ho
    exact exact_goto rfl (fun j _ => ho j) ⟨rfl, hrows⟩
  | @joystick window dto =>
    obtain ⟨i, hothers, hrows⟩ := h
    have hkey : (notifyJoystickState window dto).key = keyJoystickGlobal := by
      unfold notifyJoystickState
      split
      · rfl
      · split <;> rfl
    have hglobal : (s.note (notifyJoystickState window dto)).raised keyHotkeysGlobal =
        s.raised keyHotkeysGlobal := by
      rw [raised_note, hkey, if_neg (by decide)]
    refine ⟨i, hothers, ?_⟩
    change Rows (s.note _) (s.calls i)
    unfold Rows at hrows ⊢
    split at hrows
    all_goals
      simp only [raised_joystick, hglobal]
      exact hrows
  | @enter i dto hi =>
    obtain ⟨hothers, hrows⟩ := h.rows (i := i) (by simp [hi])
    rw [hi] at hrows
    obtain ⟨hlatest, hrows⟩ := hrows
    have hglobal : (s.note (globalNotice dto)).raised keyHotkeysGlobal = !dto.registered := by
      unfold globalNotice
      cases hreg : dto.registered <;> simp [raised_note, Notice.key, Notice.raises]
    refine exact_goto rfl hothers
      ⟨by simp [goto, note, hlatest, wanted], ?_, ⟨?_, fun id hid => ?_⟩, fun id => ?_⟩
    · rw [raised_goto, hglobal]
      simp [goto, note, hlatest, wantsGlobal]
    · exact (List.perm_insertionSort _ _).nodup_iff.2 dto.failures.nodupKeys
    · exact List.mem_toFinset.2 ((List.mem_insertionSort _).1 hid)
    · rw [raised_goto, raised_global, hrows]
      simp [goto, note, failedIDs]
  | @raise i failed id' todo hi =>
    obtain ⟨hothers, hrows⟩ := h.rows (i := i) (by simp [hi])
    rw [hi] at hrows
    obtain ⟨hwanted, hglobal, ⟨hnodup, hin⟩, hrows⟩ := hrows
    obtain ⟨hnew, hnodup⟩ := List.nodup_cons.1 hnodup
    have hraise : (s.note (bindingNotice label id' ((failed.lookup id').getD ""))).raised
        keyHotkeysGlobal = s.raised keyHotkeysGlobal := by
      rw [raised_note]
      exact if_neg (bindingKey_ne id').1
    refine exact_goto rfl hothers ⟨hwanted, by rw [raised_goto, hraise]; exact hglobal,
      ⟨hnodup, fun id hid => hin id (List.mem_cons_of_mem _ hid)⟩, fun id => ?_⟩
    rw [raised_goto, raised_binding, Bool.or_eq_true, decide_eq_true_eq, hrows]
    change id' = id ∨ _ ↔ id ∈ s.record ∨ _
    obtain rfl | hne := eq_or_ne id' id
    · simp [hin id' List.mem_cons_self, hnew]
    · simp [hne, hne.symm]
  | @swap i failed hi =>
    obtain ⟨hothers, hrows⟩ := h.rows (i := i) (by simp [hi])
    rw [hi] at hrows
    obtain ⟨hwanted, hglobal, -, hrows⟩ := hrows
    refine exact_goto rfl hothers ⟨hwanted, hglobal, Finset.disjoint_sdiff.symm, fun id => ?_⟩
    change s.raised (bindingKey id) = true ↔
      id ∈ failedIDs failed ∨ id ∈ s.record \ failedIDs failed
    rw [hrows, Finset.mem_sdiff]
    by_cases hid : id ∈ failedIDs failed <;> simp [hid]
  | @resolve i gone id' hi hgone =>
    obtain ⟨hothers, hrows⟩ := h.rows (i := i) (by simp [hi])
    rw [hi] at hrows
    obtain ⟨hrec, hglobal, hdisjoint, hrows⟩ := hrows
    have hresolve : (s.note (.resolve (bindingKey id') windowHotkeys)).raised keyHotkeysGlobal =
        s.raised keyHotkeysGlobal := by
      rw [raised_note]
      exact if_neg (bindingKey_ne id').1
    refine exact_goto rfl hothers ⟨hrec, by rw [raised_goto, hresolve]; exact hglobal,
      hdisjoint.mono_left (Finset.erase_subset _ _), fun id => ?_⟩
    rw [raised_goto, raised_resolve, Bool.and_eq_true, hrows, Bool.not_eq_true',
      decide_eq_false_iff_not, Finset.mem_erase]
    change _ ↔ id ∈ s.record ∨ _
    obtain rfl | hne := eq_or_ne id' id
    · simp [Finset.disjoint_left.1 hdisjoint hgone]
    · simp [hne, hne.symm]
  | @done i hi =>
    obtain ⟨hothers, hrows⟩ := h.rows (i := i) (by simp [hi])
    rw [hi] at hrows
    obtain ⟨hrec, hglobal, -, hrows⟩ := hrows
    exact exact_goto rfl hothers ⟨hrec, hglobal, fun id => (hrows id).trans (by simp [goto])⟩

theorem exact_new : new.Exact := ⟨0, fun _ _ => rfl, rfl, rfl, fun _ => by simp [new, raised]⟩

/-- **The rows are those of the last publication.** In every run in which no two publications
overlap, once none is under way the hotkeys at large are raised exactly when the last publication
says they are not registered, and a binding exactly when they are and it failed. -/
theorem rows_exact (label : String → String) (ops : List NoticeOp) (s : Notices)
    (hrun : exec (step label) new ops = some s) (halone : Meets (step label) Alone new ops)
    (hrest : ∀ i, s.calls i = none) :
    (s.raised keyHotkeysGlobal = true ↔ ∃ dto ∈ s.latest, dto.registered = false) ∧
      ∀ id, s.raised (bindingKey id) = true ↔
        ∃ dto ∈ s.latest, dto.registered = true ∧ id ∈ dto.failed := by
  have h : s.Exact := exec_invariant (I := Exact) (fun _ _ _ h ho hs => h.step ho (step_moves hs))
    exact_new halone hrun
  obtain ⟨hrec, hglobal, hrows⟩ := h.rest hrest
  rw [hglobal]
  refine ⟨?_, fun id => ?_⟩
  · cases s.latest <;> simp [wantsGlobal]
  · rw [hrows, hrec]
    cases hlatest : s.latest with
    | none => simp [wanted]
    | some dto =>
      cases hreg : dto.registered <;>
        simp [wanted, HotkeyStateDTO.failures, hreg, failedIDs, AList.mem_keys]

/-- A binding fails, and then all is well. -/
def recovered : List NoticeOp :=
  [.publish 0 failing, .run 0, .run 0, .run 0, .run 0, .publish 0 well, .run 0, .run 0,
    .resolve 0 "ptt", .run 0]

theorem rows_exact_recovered : ∃ s, exec (step fun id => id) new recovered = some s ∧
    (s.raised keyHotkeysGlobal = true ↔ ∃ dto ∈ s.latest, dto.registered = false) ∧
      s.raised (bindingKey "ptt") = false := by
  refine ⟨_, rfl, (rows_exact (fun id => id) recovered _ rfl ?_ fun i => ?_).1, by decide⟩
  · refine ⟨fun i => rfl, trivial, trivial, trivial, trivial, fun i => ?_, trivial, trivial,
      trivial, trivial, trivial⟩
    match i with
    | 0 => rfl
    | i + 1 => rfl
  · match i with
    | 0 => rfl
    | i + 1 => rfl

end Notices

end VcsClient.App
