import VcsClient.App.PersistCfg
import VcsClient.Profile.Store

/-!
# Loading and saving profiles

`LoadProfile`, `SaveProfile` and `profileDirty` of `internal/app/profiles.go`, each run to
its end before the next. The live radios and layout are those of the configuration; a load
writes them in one transaction (`CfgTxn.applyProfile`). Right after a load or a save that
succeeds the live state is what the file has (`profiles_reconciled`).
-/

namespace VcsClient.App

open VcsClient.Lib VcsClient.Profile

variable {T β : Type*}

/-! ## Configuration and document -/

def profileRadiosToConfig (radios : List Profile.Radio) : List Config.Radio :=
  radios.map fun r => ⟨r.id, r.name, r.frequencyKHz, r.enabled, r.isIntercom⟩

def configRadiosToProfile (radios : List Config.Radio) : List Profile.Radio :=
  radios.map fun r => ⟨r.id, r.name, r.frequencyKHz, r.enabled, r.isIntercom⟩

def profileLayoutToConfig (l : Layout) : Config.CommsLayout :=
  ⟨l.window.w, l.window.h, l.blocks.map fun b => ⟨b.radioID, b.variant⟩⟩

def configLayoutToProfile (l : Config.CommsLayout) : Layout :=
  ⟨⟨l.windowW, l.windowH⟩, l.blocks.map fun b => ⟨b.radioID, b.variant⟩⟩

def appliedDocument (d : Profile.Document T) : Config.Document :=
  ⟨profileRadiosToConfig d.radios, profileLayoutToConfig d.layout⟩

theorem configRadiosToProfile_profileRadiosToConfig (radios : List Profile.Radio) :
    configRadiosToProfile (profileRadiosToConfig radios) = radios := by
  simp [configRadiosToProfile, profileRadiosToConfig, Function.comp_def]

theorem configLayoutToProfile_profileLayoutToConfig (l : Layout) :
    configLayoutToProfile (profileLayoutToConfig l) = l := by
  simp [configLayoutToProfile, profileLayoutToConfig, Function.comp_def]

/-! ## The operations -/

/-- The settings backend, if there is one, and the files. -/
structure Profiles (β : Type*) where
  settings : Option Config
  files : Files β

inductive ProfileError where
  | read (err : ReadError)
  | write (err : WriteError)
  /-- `apply profile` -/
  | apply
  /-- no active profile to save -/
  | noActive

namespace Profiles

variable {s s' : Profiles β} {decode : β → Option (Profile.Document T)}
  {encode : Profile.Document T → Option β} {path : String} {saves : Bool} {io : WriteIo} {now : T}

/-- The live radios and layout in a document that has nothing else. -/
def liveDocument [Inhabited T] (cfg : Config) : Profile.Document T :=
  ⟨0, "", "", "", default, default, configRadiosToProfile cfg.radios,
    configLayoutToProfile cfg.commsLayout⟩

/-- `captureProfile`; the times are left for the caller. -/
def captureProfile [Inhabited T] (s : Profiles β) (name desc : String) : Profile.Document T :=
  match s.settings with
  | none => ⟨schemaVersion, name, desc, "", default, default, [], ⟨⟨0, 0⟩, []⟩⟩
  | some cfg =>
    Profile.Document.reconcile
      ⟨schemaVersion, name, desc, "", default, default, configRadiosToProfile cfg.radios,
        configLayoutToProfile cfg.commsLayout⟩

/-- `applyProfile`, where the save succeeds or fails. -/
def applyProfile (s : Profiles β) (d : Profile.Document T) (path : String) (saves : Bool) :
    Except ProfileError (Profiles β) :=
  match s.settings with
  | none => .ok s
  | some cfg =>
    if saves then
      let d := d.reconcile
      .ok { s with settings := some ((CfgTxn.applyProfile (appliedDocument d) path).mutate cfg) }
    else .error .apply

/-- `LoadProfile`. -/
def loadProfile (decode : β → Option (Profile.Document T)) (s : Profiles β) (path : String)
    (saves : Bool) : Except ProfileError (Profiles β) :=
  match read decode s.files path with
  | .error err => .error (.read err)
  | .ok d => s.applyProfile d path saves

/-- `SaveProfile`, at a time. -/
def saveProfile [Inhabited T] (encode : Profile.Document T → Option β)
    (decode : β → Option (Profile.Document T)) (s : Profiles β) (io : WriteIo) (now : T) :
    Except ProfileError (Profiles β) :=
  match s.settings with
  | none => .ok s
  | some cfg =>
    if isBlank cfg.activeProfile.toList then .error .noActive
    else
      match read decode s.files cfg.activeProfile with
      | .error err => .error (.read err)
      | .ok prev =>
        let captured : Profile.Document T := s.captureProfile prev.name prev.description
        let d := { captured with
          author := prev.author
          createdAt := prev.createdAt
          modifiedAt := now }
        match write encode io s.files cfg.activeProfile d with
        | (.error err, _) => .error (.write err)
        | (.ok (), files) => .ok { s with files := files }

/-- `profileDirty`. -/
def profileDirty [Inhabited T] (decode : β → Option (Profile.Document T)) (s : Profiles β) :
    Bool :=
  match s.settings with
  | none => false
  | some cfg =>
    if isBlank cfg.activeProfile.toList then false
    else
      match read decode s.files cfg.activeProfile with
      | .error _ => true
      | .ok saved =>
        let cur : Profile.Document T := (liveDocument cfg).reconcile
        !decide (cur.radios = saved.radios) || !decide (cur.layout = saved.layout)

/-- A backend whose reconciled live state is what the active file has is not dirty. -/
theorem profileDirty_eq_false [Inhabited T] {cfg : Config} {saved : Profile.Document T}
    (hs : s.settings = some cfg) (hread : read decode s.files cfg.activeProfile = .ok saved)
    (hradios : configRadiosToProfile cfg.radios = saved.radios)
    (hlayout : (liveDocument cfg : Profile.Document T).reconcile.layout = saved.layout) :
    s.profileDirty decode = false := by
  have hcur : ((liveDocument cfg : Profile.Document T).reconcile).radios = saved.radios := hradios
  unfold profileDirty
  rw [hs]
  dsimp only
  rw [hread]
  dsimp only
  rw [hcur, hlayout]
  simp

theorem captureProfile_live [Inhabited T] {cfg : Config} (hs : s.settings = some cfg)
    (name desc : String) :
    (s.captureProfile name desc : Profile.Document T).radios =
        (liveDocument cfg : Profile.Document T).radios ∧
      (s.captureProfile name desc : Profile.Document T).layout =
        (liveDocument cfg : Profile.Document T).reconcile.layout := by
  unfold captureProfile
  rw [hs]
  exact ⟨rfl, layout_reconcile _ _ rfl rfl⟩

theorem profileDirty_of_none [Inhabited T] (hs : s.settings = none) :
    s.profileDirty decode = false := by
  unfold profileDirty
  rw [hs]

/-- **After a load.** -/
theorem profileDirty_loadProfile [Inhabited T] (h : s.loadProfile decode path saves = .ok s') :
    s'.profileDirty decode = false := by
  unfold loadProfile at h
  cases hread : read decode s.files path with
  | error err =>
    rw [hread] at h
    cases h
  | ok d =>
    rw [hread] at h
    dsimp only at h
    unfold applyProfile at h
    cases hs : s.settings with
    | none =>
      rw [hs] at h
      cases h
      exact profileDirty_of_none hs
    | some cfg =>
      rw [hs] at h
      cases saves with
      | false => cases h
      | true =>
        cases h
        -- what is read is reconciled, so that applying it changes nothing in it
        obtain ⟨-, hrec⟩ := read_ok hread
        have hradios : configRadiosToProfile (appliedDocument d.reconcile).radios = d.radios :=
          configRadiosToProfile_profileRadiosToConfig d.radios
        have hlayout : configLayoutToProfile (appliedDocument d.reconcile).layout = d.layout := by
          rw [hrec]
          exact configLayoutToProfile_profileLayoutToConfig d.layout
        refine profileDirty_eq_false rfl hread hradios ?_
        rw [layout_reconcile _ d hradios hlayout, hrec]

/-- **After a save.** -/
theorem profileDirty_saveProfile [Inhabited T]
    (hcodec : ∀ d b, encode d = some b → decode b = some d)
    (h : s.saveProfile encode decode io now = .ok s') : s'.profileDirty decode = false := by
  unfold saveProfile at h
  cases hs : s.settings with
  | none =>
    rw [hs] at h
    cases h
    exact profileDirty_of_none hs
  | some cfg =>
    rw [hs] at h
    dsimp only at h
    split at h
    · cases h
    · cases hread : read decode s.files cfg.activeProfile with
      | error err =>
        rw [hread] at h
        cases h
      | ok prev =>
        rw [hread] at h
        dsimp only at h
        split at h
        · cases h
        · next files hwrite =>
          cases h
          have hok := congrArg Prod.fst hwrite
          have hread' := read_write hcodec hok
          rw [congrArg Prod.snd hwrite] at hread'
          obtain ⟨hvalid, -⟩ := write_ok hok
          have hnodup := Document.nodup_of_validate hvalid
          obtain ⟨hradios, hlayout⟩ := captureProfile_live (T := T) hs prev.name prev.description
          -- the captured layout is reconciled already
          have hidem : (liveDocument cfg : Profile.Document T).reconcile.reconcile =
              (liveDocument cfg).reconcile := (reconciled _ (hradios ▸ hnodup)).idempotent
          refine profileDirty_eq_false rfl hread' hradios.symm (Eq.symm ?_)
          exact (layout_reconcile _ (liveDocument cfg).reconcile hradios hlayout).trans
            (congrArg Profile.Document.layout hidem)

end Profiles

/-- **Profiles are reconciled**, and a profile that has just been loaded or saved is not
dirty. -/
theorem profiles_reconciled [Inhabited T] (encode : Profile.Document T → Option β)
    (decode : β → Option (Profile.Document T))
    (hcodec : ∀ d b, encode d = some b → decode b = some d) :
    (∀ d : Profile.Document T, (d.radios.map Profile.Radio.id).Nodup → Reconciled d) ∧
      (∀ io files path d, (write encode io files path d).1 = .ok () →
        read decode (write encode io files path d).2 path = .ok d.reconcile) ∧
      ∀ s s' : Profiles β,
        (∀ path saves, s.loadProfile decode path saves = .ok s' →
          s'.profileDirty decode = false) ∧
        ∀ io now, s.saveProfile encode decode io now = .ok s' →
          s'.profileDirty decode = false :=
  ⟨fun d h => reconciled d h, fun _ _ _ _ h => read_write hcodec h, fun _ _ =>
    ⟨fun _ _ h => Profiles.profileDirty_loadProfile h,
      fun _ _ h => Profiles.profileDirty_saveProfile hcodec h⟩⟩

/-- A document with an orphan block and a radio that has no block. -/
def flightProfile : Profile.Document String :=
  ⟨1, "Flight", "", "", "2026-01-02T03:04:05Z", "2026-01-02T03:04:05Z",
    [⟨1, "VHF", 251000, true, false⟩], ⟨⟨0, 0⟩, [⟨7, "vertical"⟩]⟩⟩

def flightText : String :=
  "\x7b\n  \"schema_version\": 1,\n  \"name\": \"Flight\",\n" ++
    "  \"created_at\": \"2026-01-02T03:04:05Z\",\n" ++
    "  \"modified_at\": \"2026-01-02T03:04:05Z\",\n  \"radios\": [\n    \x7b\n" ++
    "      \"id\": 1,\n      \"name\": \"VHF\",\n      \"frequency_khz\": 251000,\n" ++
    "      \"enabled\": true,\n      \"is_intercom\": false\n    \x7d\n  ],\n" ++
    "  \"layout\": \x7b\n    \"window\": \x7b\n      \"w\": 540,\n      \"h\": 720\n" ++
    "    \x7d,\n    \"blocks\": [\n      \x7b\n        \"radio_id\": 1,\n" ++
    "        \"variant\": \"vertical\"\n      \x7d\n    ]\n  \x7d\n\x7d"

theorem profiles_reconciled_flight :
    read (fun b => if b = flightText then some flightProfile.reconcile else none)
        (write (fun d => if d = flightProfile.reconcile then some flightText else none)
          ⟨true, true, true⟩ (fun _ => none) "flight.vcs.json" flightProfile).2
        "flight.vcs.json" =
      .ok flightProfile.reconcile := by
  refine (profiles_reconciled
    (fun d => if d = flightProfile.reconcile then some flightText else none)
    (fun b => if b = flightText then some flightProfile.reconcile else none) ?_).2.1
      ⟨true, true, true⟩ (fun _ => none) "flight.vcs.json" flightProfile (by decide +kernel)
  intro d b h
  split_ifs at h with hd
  cases h
  rw [if_pos rfl, hd]

end VcsClient.App
