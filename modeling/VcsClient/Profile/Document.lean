import Mathlib.Data.UInt
import VcsClient.Config.Config
import VcsClient.Lib.Firsts
import VcsClient.Lib.Text

/-!
# Profile documents

`Document` of `internal/profile/profile.go`, with `Validate` and `Reconcile`. Where the
radios have different ids, a reconciled layout has one block for each of them: the blocks
that survive, in their order, and new ones after them (`reconciled`).

A time is a value of an arbitrary type.
-/

namespace VcsClient.Profile

open VcsClient.Lib

variable {T : Type*}

structure Radio where
  id : UInt32
  name : String
  frequencyKHz : UInt32
  enabled : Bool
  isIntercom : Bool
  deriving DecidableEq

structure WindowSize where
  w : ℤ
  h : ℤ
  deriving DecidableEq

structure Block where
  radioID : UInt32
  variant : String
  deriving DecidableEq

structure Layout where
  window : WindowSize
  blocks : List Block
  deriving DecidableEq

structure Document (T : Type*) where
  schemaVersion : ℤ
  name : String
  description : String
  author : String
  createdAt : T
  modifiedAt : T
  radios : List Radio
  layout : Layout
  deriving DecidableEq

def schemaVersion : ℤ := 1

def maxFrequencyKHz : UInt32 := 2 ^ 24 - 1

def defaultWindowW : ℤ := 540

def defaultWindowH : ℤ := 720

def defaultVariant : String := "vertical"

/-! ## Validate -/

inductive ValidateError where
  /-- `ErrSchemaTooNew` -/
  | schemaTooNew (version : ℤ)
  | emptyName
  | duplicateID (id : UInt32) (prev name : String)
  | frequency (name : String) (khz : UInt32)
  deriving DecidableEq

/-- The loop of `Validate`; `seen` has the names of the radios before. -/
def validateRadios : List Radio → AList (fun _ : UInt32 => String) → Option ValidateError
  | [], _ => none
  | r :: radios, seen =>
    match seen.lookup r.id with
    | some prev => some (.duplicateID r.id prev r.name)
    | none =>
      if r.frequencyKHz = 0 ∨ r.frequencyKHz > maxFrequencyKHz then
        some (.frequency r.name r.frequencyKHz)
      else validateRadios radios (seen.insert r.id r.name)

/-- `Validate`; `none` is no error. -/
def Document.validate (d : Document T) : Option ValidateError :=
  if d.schemaVersion > Profile.schemaVersion then some (.schemaTooNew d.schemaVersion)
  else if isBlank d.name.toList then some .emptyName
  else validateRadios d.radios ∅

theorem nodup_of_validateRadios {radios : List Radio} {seen : AList fun _ : UInt32 => String}
    (h : validateRadios radios seen = none) :
    (radios.map Radio.id).Nodup ∧ ∀ id ∈ radios.map Radio.id, id ∉ seen := by
  induction radios generalizing seen with
  | nil => exact ⟨List.nodup_nil, nofun⟩
  | cons r radios ih =>
    unfold validateRadios at h
    split at h
    · cases h
    · next hlookup =>
      split_ifs at h
      obtain ⟨hnodup, hseen⟩ := ih h
      refine ⟨List.nodup_cons.2 ⟨fun hm => ?_, hnodup⟩, fun id hid => ?_⟩
      · exact hseen r.id hm (AList.mem_insert _ |>.2 (.inl rfl))
      · obtain rfl | hid := List.mem_cons.1 hid
        · exact AList.lookup_eq_none.1 hlookup
        · exact fun hm => hseen id hid (AList.mem_insert _ |>.2 (.inr hm))

/-- **A document that passes** has radios of different ids. -/
theorem Document.nodup_of_validate {d : Document T} (h : d.validate = none) :
    (d.radios.map Radio.id).Nodup := by
  unfold validate at h
  split_ifs at h
  exact (nodup_of_validateRadios h).1

/-! ## Reconcile -/

def Block.fill (b : Block) : Block :=
  { b with variant := if b.variant = "" then defaultVariant else b.variant }

/-- The first loop of `Reconcile`. -/
def keptBlocks (known : List UInt32) : List Block → List UInt32 → List Block
  | [], _ => []
  | b :: blocks, have_ =>
    -- an orphan, or a second block for one radio
    if b.radioID ∉ known ∨ b.radioID ∈ have_ then keptBlocks known blocks have_
    else b.fill :: keptBlocks known blocks (b.radioID :: have_)

/-- `Reconcile`. -/
def Document.reconcile (d : Document T) : Document T :=
  let kept := keptBlocks (d.radios.map Radio.id) d.layout.blocks []
  let missing := d.radios.filter fun r => r.id ∉ kept.map Block.radioID
  { d with layout :=
      { window :=
          { w := if d.layout.window.w ≤ 0 then defaultWindowW else d.layout.window.w
            h := if d.layout.window.h ≤ 0 then defaultWindowH else d.layout.window.h }
        blocks := kept ++ missing.map fun r => ⟨r.id, defaultVariant⟩ } }

/-- The blocks that survive: the first one of each radio. -/
def Document.surviving (d : Document T) : List Block :=
  firsts Block.radioID (d.layout.blocks.filter fun b => b.radioID ∈ d.radios.map Radio.id) []

/-- The radios that no block is of. -/
def Document.unplaced (d : Document T) : List Radio :=
  d.radios.filter fun r => r.id ∉ d.layout.blocks.map Block.radioID

/-- **What `Reconcile` makes of a document.** -/
structure Reconciled (d : Document T) : Prop where
  /-- nothing but the layout changes -/
  frame : d.reconcile = { d with layout := d.reconcile.layout }
  one : (d.reconcile.layout.blocks.map Block.radioID).Perm (d.radios.map Radio.id)
  variant : ∀ b ∈ d.reconcile.layout.blocks, b.variant ≠ ""
  /-- the surviving blocks, then the new ones -/
  order : d.reconcile.layout.blocks =
    d.surviving.map Block.fill ++ d.unplaced.map fun r => ⟨r.id, defaultVariant⟩
  survives : d.surviving.Sublist d.layout.blocks ∧
    ∀ b ∈ d.surviving, d.layout.blocks.find? (fun b' => b'.radioID = b.radioID) = some b
  idempotent : d.reconcile.reconcile = d.reconcile

@[simp] theorem Block.radioID_fill (b : Block) : b.fill.radioID = b.radioID := rfl

theorem Block.variant_fill (b : Block) : b.fill.variant ≠ "" := by
  unfold fill
  dsimp only
  split
  · decide
  · assumption

theorem Block.fill_of_ne {b : Block} (h : b.variant ≠ "") : b.fill = b := by
  unfold fill
  rw [if_neg h]

theorem keptBlocks_eq (known : List UInt32) (blocks : List Block) (have_ : List UInt32) :
    keptBlocks known blocks have_ =
      (firsts Block.radioID (blocks.filter fun b => b.radioID ∈ known) have_).map Block.fill := by
  induction blocks generalizing have_ with
  | nil => rfl
  | cons b blocks ih =>
    unfold keptBlocks
    by_cases hknown : b.radioID ∈ known
    · rw [List.filter_cons_of_pos (by simpa using hknown), firsts]
      by_cases hhave : b.radioID ∈ have_
      · rw [if_pos (.inr hhave), if_pos hhave, ih]
      · rw [if_neg (by simp [hknown, hhave]), if_neg hhave, ih, List.map_cons]
    · rw [if_pos (.inl hknown), List.filter_cons_of_neg (by simpa using hknown), ih]

section Spec

variable {d : Document T}

theorem mem_surviving {id : UInt32} : id ∈ d.surviving.map Block.radioID ↔
    id ∈ d.radios.map Radio.id ∧ id ∈ d.layout.blocks.map Block.radioID := by
  unfold Document.surviving
  rw [mem_map_firsts]
  simp only [List.mem_map, List.mem_filter, decide_eq_true_iff]
  constructor
  · rintro ⟨⟨b, ⟨hb, hknown⟩, rfl⟩, -⟩
    exact ⟨hknown, b, hb, rfl⟩
  · rintro ⟨hknown, b, hb, rfl⟩
    exact ⟨⟨b, ⟨hb, hknown⟩, rfl⟩, List.not_mem_nil⟩

theorem blocks_reconcile (d : Document T) : d.reconcile.layout.blocks =
    d.surviving.map Block.fill ++ d.unplaced.map fun r => ⟨r.id, defaultVariant⟩ := by
  have hkept : keptBlocks (d.radios.map Radio.id) d.layout.blocks [] =
      d.surviving.map Block.fill := keptBlocks_eq _ _ _
  have hids : (d.surviving.map Block.fill).map Block.radioID = d.surviving.map Block.radioID := by
    rw [List.map_map]
    rfl
  show keptBlocks _ _ _ ++ List.map _ (List.filter _ _) = _
  rw [hkept, hids]
  congr 2
  refine List.filter_congr fun r hr => ?_
  have hid : r.id ∈ d.radios.map Radio.id := List.mem_map_of_mem hr
  rw [decide_eq_decide, mem_surviving]
  simp [hid]

theorem radioIDs_reconcile (d : Document T) : d.reconcile.layout.blocks.map Block.radioID =
    d.surviving.map Block.radioID ++ d.unplaced.map Radio.id := by
  rw [blocks_reconcile, List.map_append, List.map_map, List.map_map]
  rfl

theorem radioIDs_reconcile_perm (h : (d.radios.map Radio.id).Nodup) :
    (d.reconcile.layout.blocks.map Block.radioID).Perm (d.radios.map Radio.id) := by
  rw [radioIDs_reconcile]
  have hsurviving : (d.surviving.map Block.radioID).Nodup := nodup_map_firsts _ _ _
  have hunplaced : (d.unplaced.map Radio.id).Nodup :=
    h.sublist (List.filter_sublist.map Radio.id)
  have hmem : ∀ id, id ∈ d.unplaced.map Radio.id ↔
      id ∈ d.radios.map Radio.id ∧ id ∉ d.layout.blocks.map Block.radioID := by
    intro id
    unfold Document.unplaced
    simp only [List.mem_map, List.mem_filter, decide_eq_true_iff]
    constructor
    · rintro ⟨r, ⟨hr, hno⟩, rfl⟩
      exact ⟨⟨r, hr, rfl⟩, hno⟩
    · rintro ⟨⟨r, hr, rfl⟩, hno⟩
      exact ⟨r, ⟨hr, hno⟩, rfl⟩
  refine (List.perm_ext_iff_of_nodup (hsurviving.append hunplaced ?_) h).2 fun id => ?_
  · intro id hs hu
    exact ((hmem id).1 hu).2 (mem_surviving.1 hs).2
  · rw [List.mem_append, mem_surviving, hmem, ← and_or_left]
    exact and_iff_left (Classical.em _)

theorem variant_reconcile : ∀ b ∈ d.reconcile.layout.blocks, b.variant ≠ "" := by
  intro b hb
  rw [blocks_reconcile] at hb
  obtain hb | hb := List.mem_append.1 hb
  · obtain ⟨b, -, rfl⟩ := List.mem_map.1 hb
    exact b.variant_fill
  · obtain ⟨r, -, rfl⟩ := List.mem_map.1 hb
    exact (by decide : defaultVariant ≠ "")

/-- A layout with one block for each radio, all with a variant, is left. -/
theorem blocks_reconcile_eq_self (h : (d.radios.map Radio.id).Nodup)
    (hperm : (d.layout.blocks.map Block.radioID).Perm (d.radios.map Radio.id))
    (hvariant : ∀ b ∈ d.layout.blocks, b.variant ≠ "") :
    d.reconcile.layout.blocks = d.layout.blocks := by
  have hfilter : (d.layout.blocks.filter fun b => b.radioID ∈ d.radios.map Radio.id) =
      d.layout.blocks :=
    List.filter_eq_self.2 fun b hb =>
      decide_eq_true (hperm.mem_iff.1 (List.mem_map_of_mem (f := Block.radioID) hb))
  have hsurviving : d.surviving = d.layout.blocks := by
    unfold Document.surviving
    rw [hfilter]
    exact firsts_eq_self (hperm.nodup_iff.2 h) fun _ _ => List.not_mem_nil
  have hunplaced : d.unplaced = [] :=
    List.filter_eq_nil_iff.2 fun r hr => by
      rw [decide_eq_true_iff, not_not]
      exact hperm.mem_iff.2 (List.mem_map_of_mem hr)
  rw [blocks_reconcile, hsurviving, hunplaced, List.map_nil, List.append_nil]
  exact List.map_congr_left (fun b hb => Block.fill_of_ne (hvariant b hb)) |>.trans (List.map_id _)

theorem window_reconcile_reconcile (d : Document T) :
    d.reconcile.reconcile.layout.window = d.reconcile.layout.window := by
  have hfix : ∀ x dflt : ℤ, 0 < dflt →
      (if (if x ≤ 0 then dflt else x) ≤ 0 then dflt else if x ≤ 0 then dflt else x) =
        if x ≤ 0 then dflt else x := by
    intro x dflt hpos
    split_ifs <;> omega
  exact congrArg₂ WindowSize.mk (hfix _ _ (by decide)) (hfix _ _ (by decide))

/-- **`Reconcile`**, of a document whose radios have different ids. -/
theorem reconciled (d : Document T) (h : (d.radios.map Radio.id).Nodup) : Reconciled d where
  frame := rfl
  one := radioIDs_reconcile_perm h
  variant := variant_reconcile
  order := blocks_reconcile d
  survives := by
    refine ⟨(firsts_sublist _ _ _).trans List.filter_sublist, fun b hb => ?_⟩
    have hknown : b.radioID ∈ d.radios.map Radio.id :=
      (mem_surviving.1 (List.mem_map_of_mem (f := Block.radioID) hb)).1
    have hfind := find?_of_mem_firsts hb
    have hsame : (fun b' : Block => decide (decide (b'.radioID ∈ d.radios.map Radio.id) = true ∧
        decide (b'.radioID = b.radioID) = true)) = fun b' => decide (b'.radioID = b.radioID) := by
      funext b'
      by_cases he : b'.radioID = b.radioID
      · simp [he, hknown]
      · simp [he]
    rw [List.find?_filter, hsame] at hfind
    exact hfind
  idempotent := by
    have hblocks : d.reconcile.reconcile.layout.blocks = d.reconcile.layout.blocks :=
      blocks_reconcile_eq_self h (radioIDs_reconcile_perm h) variant_reconcile
    have hlayout : d.reconcile.reconcile.layout = d.reconcile.layout :=
      congrArg₂ Layout.mk (window_reconcile_reconcile d) hblocks
    show { d.reconcile with layout := d.reconcile.reconcile.layout } = d.reconcile
    rw [hlayout]

end Spec

end VcsClient.Profile
