import VcsClient.Lib.Fields
import VcsClient.App.HoldMap

/-!
# The radio signature

`radioSignature` (`settings.go`) writes the local radios without escaping their names, and
the refresh of the keybinds is skipped when it has not changed. Of radios whose names do not
read like the end of one radio and the start of the next it tells the per-radio actions and
their labels; of any other radios it does not.
-/

namespace VcsClient.App

open VcsClient.Lib

/-- `keybinds.RadioRef`. -/
structure RadioRef where
  id : UInt32
  name : String
  deriving DecidableEq

def RadioRef.digits (r : RadioRef) : String := toString r.id.toNat

def radioSignature (refs : List RadioRef) : String :=
  refs.foldl (fun b r => b ++ (r.digits ++ ":" ++ r.name ++ "|")) ""

/-- An action with what the panel shows of it. -/
structure LabelledAction where
  action : Action
  label : String

/-- The label of a radio, `R%02d · %s`. -/
def RadioRef.label (r : RadioRef) : String :=
  "R" ++ (if r.id < 10 then "0" ++ r.digits else r.digits) ++ " · " ++ r.name

/-- `PerRadioActions`, with the labels. -/
def labelledActions (refs : List RadioRef) : List LabelledAction :=
  refs.flatMap fun r =>
    [⟨⟨"radio." ++ r.digits ++ ".ptt", .hold⟩, r.label ++ " (PTT)"⟩,
      ⟨⟨"radio." ++ r.digits ++ ".select", .press⟩, r.label ++ " (Select)"⟩]

theorem labelledActions_length (refs : List RadioRef) :
    (labelledActions refs).length = 2 * refs.length := by
  induction refs with
  | nil => rfl
  | cons r refs ih =>
    have hcons : labelledActions (r :: refs) = labelledActions [r] ++ labelledActions refs := by
      simp [labelledActions]
    rw [hcons, List.length_append, ih, List.length_cons]
    simp only [labelledActions, List.flatMap_cons, List.flatMap_nil, List.append_nil,
      List.length_cons, List.length_nil]
    omega

/-! ## What the signature tells -/

/-- A number as the signature prints it. -/
def IsID (h : List Char) : Prop := ∃ id : UInt32, h = Nat.toDigits 10 id.toNat

/-- The name does not read like the end of one radio and the start of the next. -/
def RadioRef.Plain (r : RadioRef) : Prop := PlainBody ':' '|' IsID r.name.toList

/-- The radio as the signature writes it. -/
def RadioRef.fields (r : RadioRef) : List Char × List Char :=
  (Nat.toDigits 10 r.id.toNat, r.name.toList)

theorem isID_free {h : List Char} (hh : IsID h) : ':' ∉ h ∧ '|' ∉ h := by
  obtain ⟨id, rfl⟩ := hh
  have hdigit : ∀ c ∈ Nat.toDigits 10 id.toNat, c.isDigit = true := fun c hc =>
    Nat.isDigit_of_mem_toDigits (by omega) (Nat.le_refl 10) hc
  exact ⟨fun hc => absurd (hdigit _ hc) (by decide), fun hc => absurd (hdigit _ hc) (by decide)⟩

theorem toDigits_inj {a b : UInt32} (h : Nat.toDigits 10 a.toNat = Nat.toDigits 10 b.toNat) :
    a = b := by
  have := congrArg (Nat.ofDigitChars 10 · 0) h
  exact UInt32.toNat_inj.1 (by simpa [Nat.ofDigitChars_toDigits] using this)

theorem RadioRef.fields_inj {r r' : RadioRef} (h : r.fields = r'.fields) : r = r' := by
  obtain ⟨id, name⟩ := r
  obtain ⟨id', name'⟩ := r'
  obtain ⟨hid, hname⟩ := Prod.mk.inj h
  cases toDigits_inj hid
  cases String.toList_inj.1 hname
  rfl

theorem RadioRef.digits_toList (r : RadioRef) : r.digits.toList = Nat.toDigits 10 r.id.toNat := by
  simp [RadioRef.digits]

theorem radioSignature_toList (refs : List RadioRef) :
    (radioSignature refs).toList = render ':' '|' (refs.map RadioRef.fields) := by
  have hfold : ∀ (b : String), (refs.foldl (fun b r => b ++ (r.digits ++ ":" ++ r.name ++ "|"))
      b).toList = b.toList ++ render ':' '|' (refs.map RadioRef.fields) := by
    induction refs with
    | nil => simp [render]
    | cons r refs ih =>
      intro b
      rw [List.foldl_cons, ih, List.map_cons, render_cons]
      simp [RadioRef.fields, RadioRef.digits_toList]
  rw [radioSignature, hfold]
  rfl

/-- Every list of fields with numbers for heads is one of radios. -/
theorem exists_fields {es : List (List Char × List Char)} (hes : ∀ e ∈ es, IsID e.1) :
    ∃ refs : List RadioRef, refs.map RadioRef.fields = es := by
  induction es with
  | nil => exact ⟨[], rfl⟩
  | cons e es ih =>
    obtain ⟨refs, hrefs⟩ := ih fun x hx => hes x (List.mem_cons_of_mem _ hx)
    obtain ⟨id, hid⟩ := hes e List.mem_cons_self
    refine ⟨⟨id, String.ofList e.2⟩ :: refs, ?_⟩
    rw [List.map_cons, hrefs]
    exact congrArg (· :: es) (Prod.ext hid.symm (String.toList_ofList))

/-- **Plain radios with one signature are the same radios.** -/
theorem radioSignature_inj {refs refs' : List RadioRef} (h : ∀ r ∈ refs, r.Plain)
    (h' : ∀ r ∈ refs', r.Plain) (hsig : radioSignature refs = radioSignature refs') :
    refs = refs' := by
  have hrender := congrArg String.toList hsig
  rw [radioSignature_toList, radioSignature_toList] at hrender
  have hheads : ∀ refs : List RadioRef, ∀ e ∈ refs.map RadioRef.fields, IsID e.1 := by
    intro refs e he
    obtain ⟨r, -, rfl⟩ := List.mem_map.1 he
    exact ⟨r.id, rfl⟩
  have hplain : ∀ refs : List RadioRef, (∀ r ∈ refs, r.Plain) →
      ∀ e ∈ refs.map RadioRef.fields, PlainBody ':' '|' IsID e.2 := by
    intro refs h e he
    obtain ⟨r, hr, rfl⟩ := List.mem_map.1 he
    exact h r hr
  exact List.map_injective_iff.2 (fun _ _ => RadioRef.fields_inj)
    (render_inj (by decide) (fun _ => isID_free) (hheads refs) (hheads refs') (hplain refs h)
      (hplain refs' h') hrender)

/-- **When the signature tells the actions**: of the radio sets with plain names, all with
the signature of this one have its per-radio actions and labels, if and only if its own
names are plain. -/
theorem signature_tells (refs : List RadioRef) :
    (∀ refs' : List RadioRef, (∀ r ∈ refs', r.Plain) →
        radioSignature refs' = radioSignature refs → labelledActions refs' = labelledActions refs) ↔
      ∀ r ∈ refs, r.Plain := by
  constructor
  · intro h
    by_contra hno
    simp only [not_forall] at hno
    obtain ⟨r, hr, hno⟩ := hno
    obtain ⟨es, hes, hplain, hrender, -, hmore⟩ :=
      @exists_plain _ ':' '|' IsID (refs.map RadioRef.fields)
        fun e he => by
          obtain ⟨r, -, rfl⟩ := List.mem_map.1 he
          exact ⟨r.id, rfl⟩
    obtain ⟨refs', rfl⟩ := exists_fields hes
    have hsig : radioSignature refs' = radioSignature refs :=
      String.toList_inj.1 (by rw [radioSignature_toList, radioSignature_toList, hrender])
    have hlen := congrArg List.length (h refs' (fun r hr => hplain _ (List.mem_map_of_mem hr)) hsig)
    have hlonger := hmore ⟨r.fields, List.mem_map_of_mem hr, hno⟩
    rw [List.length_map, List.length_map] at hlonger
    rw [labelledActions_length, labelledActions_length] at hlen
    omega
  · intro h refs' h' hsig
    rw [radioSignature_inj h' h hsig]

end VcsClient.App
