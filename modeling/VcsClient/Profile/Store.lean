import VcsClient.Profile.Document

/-!
# Reading and writing profiles

`Read` and `Write` of `internal/profile/store.go`, over files and their contents. The codec
of a document, `Encode` and `Decode`, is a parameter. What is written is read back as the
reconciled document (`read_write`).
-/

namespace VcsClient.Profile

variable {T β : Type*}

/-- The files that can be read. -/
abbrev Files (β : Type*) := String → Option β

inductive ReadError where
  /-- `read profile …` -/
  | file
  /-- `parse profile` -/
  | decode
  | invalid (err : ValidateError)
  deriving DecidableEq

/-- `Read`. -/
def read (decode : β → Option (Document T)) (files : Files β) (path : String) :
    Except ReadError (Document T) :=
  match files path with
  | none => .error .file
  | some b =>
    match decode b with
    | none => .error .decode
    | some d =>
      match d.validate with
      | some err => .error (.invalid err)
      | none => .ok d.reconcile

inductive WriteError where
  | invalid (err : ValidateError)
  /-- `marshal profile` -/
  | encode
  /-- `create profiles dir …` -/
  | mkdir
  /-- `write profile …` -/
  | write
  /-- `rename profile …` -/
  | rename
  deriving DecidableEq

/-- What the file system lets a write do. -/
structure WriteIo where
  mkdir : Bool
  write : Bool
  rename : Bool

def Files.set (files : Files β) (path : String) (b : Option β) : Files β :=
  fun p => if p = path then b else files p

/-- `Write`, and the files afterwards. -/
def write (encode : Document T → Option β) (io : WriteIo) (files : Files β) (path : String)
    (d : Document T) : Except WriteError Unit × Files β :=
  match d.validate with
  | some err => (.error (.invalid err), files)
  | none =>
    match encode d.reconcile with
    | none => (.error .encode, files)
    | some b =>
      let tmp := path ++ ".tmp"
      if io.mkdir = false then (.error .mkdir, files)
      else if io.write = false then (.error .write, files.set tmp none)
      else if io.rename = false then (.error .rename, files.set tmp none)
      else (.ok (), (files.set tmp none).set path (some b))

variable {decode : β → Option (Document T)} {encode : Document T → Option β} {io : WriteIo}
  {files : Files β} {path : String} {d : Document T}

theorem validate_reconcile (d : Document T) : d.reconcile.validate = d.validate := rfl

/-- The layout of a reconciled document is a matter of its radios and its layout. -/
theorem layout_reconcile (d d' : Document T) (hradios : d.radios = d'.radios)
    (hlayout : d.layout = d'.layout) : d.reconcile.layout = d'.reconcile.layout := by
  unfold Document.reconcile
  rw [hradios, hlayout]

theorem read_ok (h : read decode files path = .ok d) :
    (d.radios.map Radio.id).Nodup ∧ d.reconcile = d := by
  unfold read at h
  split at h
  · cases h
  · split at h
    · cases h
    · next d' _ =>
      split at h
      · cases h
      · next hvalid =>
        cases h
        have hnodup := Document.nodup_of_validate hvalid
        exact ⟨hnodup, (reconciled d' hnodup).idempotent⟩

/-- A write that succeeds is of a document that passes, and leaves it in the file. -/
theorem write_ok (h : (write encode io files path d).1 = .ok ()) :
    d.validate = none ∧ ∃ b, encode d.reconcile = some b ∧
      (write encode io files path d).2 path = some b := by
  unfold write at h ⊢
  cases hvalid : d.validate with
  | some err =>
    rw [hvalid] at h
    cases h
  | none =>
    rw [hvalid] at h
    cases hencode : encode d.reconcile with
    | none =>
      rw [hencode] at h
      cases h
    | some b =>
      rw [hencode] at h
      refine ⟨rfl, b, rfl, ?_⟩
      dsimp only at h ⊢
      split_ifs at h ⊢
      exact if_pos rfl

/-- **A written profile is read as its reconciliation.** -/
theorem read_write (hcodec : ∀ d b, encode d = some b → decode b = some d)
    (h : (write encode io files path d).1 = .ok ()) :
    read decode (write encode io files path d).2 path = .ok d.reconcile := by
  obtain ⟨hvalid, b, hencode, hfile⟩ := write_ok h
  have hidem := (reconciled d (Document.nodup_of_validate hvalid)).idempotent
  unfold read
  rw [hfile]
  dsimp only
  rw [hcodec _ _ hencode]
  dsimp only
  rw [validate_reconcile, hvalid]
  dsimp only
  rw [hidem]

end VcsClient.Profile
