import VcsClient.Lib.Machine
import VcsClient.Lib.Text

/-!
# Comma-separated values

`csv.Writer` of the standard library, with a comma and without `UseCRLF`, and a reader of RFC 4180
that goes over the text once. The reader takes what was written apart again (`read_write`), whatever
the fields hold.
-/

namespace VcsClient.Lib.Csv

def special : List Char := [',', '"', '\n', '\r']

/-- `fieldNeedsQuotes` -/
def fieldNeedsQuotes : List Char → Bool
  | [] => false
  | c :: cs => (c :: cs = ['\\', '.'] : Bool) || (c :: cs).any (· ∈ special) || isSpace c

def escape (field : List Char) : List Char :=
  field.flatMap fun c => if c = '"' then ['"', '"'] else [c]

def writeField (field : List Char) : List Char :=
  if fieldNeedsQuotes field then '"' :: escape field ++ ['"'] else field

/-- `Write`: the fields with a comma between them, and a newline. -/
def writeRecord (fields : List (List Char)) : List Char :=
  [','].intercalate (fields.map writeField) ++ ['\n']

def write (records : List (List (List Char))) : List Char := records.flatMap writeRecord

/-! ## The reader -/

/-- Where the reader is in a field. -/
inductive At where
  | start
  | plain
  | quoted
  /-- After a quote within quotes. -/
  | quote
  /-- After a carriage return outside quotes. -/
  | cr
  deriving DecidableEq

structure Reader where
  at_ : At
  field : List Char
  fields : List (List Char)
  records : List (List (List Char))

namespace Reader

def init : Reader := ⟨.start, [], [], []⟩

def push (r : Reader) (a : At) (c : Char) : Reader :=
  { r with at_ := a, field := r.field ++ [c] }

def endField (r : Reader) : Reader :=
  { r with at_ := .start, field := [], fields := r.fields ++ [r.field] }

def endRecord (r : Reader) : Reader :=
  ⟨.start, [], [], r.records ++ [r.fields ++ [r.field]]⟩

/-- After a field that is not quoted, or a closing quote. -/
def separator (r : Reader) (c : Char) : Option Reader :=
  if c = ',' then some r.endField
  else if c = '\n' then some r.endRecord
  else if c = '\r' then some { r with at_ := .cr }
  else none

def next (r : Reader) (c : Char) : Option Reader :=
  match r.at_ with
  | .start => if c = '"' then some { r with at_ := .quoted } else
      if c ∈ special then r.separator c else some (r.push .plain c)
  | .plain => if c ∈ special then r.separator c else some (r.push .plain c)
  | .quoted => if c = '"' then some { r with at_ := .quote } else some (r.push .quoted c)
  | .quote => if c = '"' then some (r.push .quoted c) else r.separator c
  | .cr => if c = '\n' then some r.endRecord else none

end Reader

/-- The records of a text that ends with a newline. -/
def read (text : List Char) : Option (List (List (List Char))) :=
  match exec Reader.next .init text with
  | some ⟨.start, [], [], records⟩ => some records
  | _ => none

/-! ## Reading what was written -/

namespace Reader

variable {r : Reader} {c : Char}

theorem exec_escape (h : r.at_ = .quoted) (s : List Char) :
    exec next r (escape s) = some { r with field := r.field ++ s } := by
  induction s generalizing r with
  | nil => simp [escape]
  | cons c s ih =>
    have hcons : escape (c :: s) = (if c = '"' then ['"', '"'] else [c]) ++ escape s := rfl
    rw [hcons, exec_append]
    refine ⟨r.push .quoted c, ?_, ?_⟩
    · split
      · rename_i hc
        subst hc
        simp [exec, next, h, push]
      · rename_i hc
        simp [exec, next, h, hc]
    · rw [ih rfl]
      simp [push, h]

theorem exec_plain (h : r.at_ = .plain) {s : List Char} (hs : ∀ c ∈ s, c ∉ special) :
    exec next r s = some { r with field := r.field ++ s } := by
  induction s generalizing r with
  | nil => simp
  | cons c s ih =>
    rw [exec_cons]
    refine ⟨r.push .plain c, ?_, ?_⟩
    · simp only [next, h]
      rw [if_neg (hs c List.mem_cons_self)]
    · rw [ih rfl fun c' hc' => hs c' (List.mem_cons_of_mem c hc')]
      simp [push, h]

theorem next_separator (hq : r.at_ ≠ .quoted) (hcr : r.at_ ≠ .cr) (hc : c = ',' ∨ c = '\n') :
    next r c = r.separator c := by
  have hspecial : c ∈ special := by
    obtain rfl | rfl := hc <;> decide
  have hquote : c ≠ '"' := by
    obtain rfl | rfl := hc <;> decide
  unfold next
  split
  · rw [if_neg hquote, if_pos hspecial]
  · rw [if_pos hspecial]
  · exact absurd ‹_› hq
  · rw [if_neg hquote]
  · exact absurd ‹_› hcr

/-- A field that was written has been read when its separator comes. -/
theorem exec_writeField (f : List Char) (fields : List (List Char))
    (records : List (List (List Char))) : ∃ a, a ≠ .quoted ∧ a ≠ .cr ∧
      exec next ⟨.start, [], fields, records⟩ (writeField f) = some ⟨a, f, fields, records⟩ := by
  cases f with
  | nil => exact ⟨.start, by decide, by decide, rfl⟩
  | cons b f =>
    rw [writeField]
    split
    · refine ⟨.quote, by decide, by decide, ?_⟩
      have hopen : next ⟨.start, [], fields, records⟩ '"' =
          some ⟨.quoted, [], fields, records⟩ := rfl
      rw [List.cons_append, exec_cons]
      refine ⟨_, hopen, ?_⟩
      rw [exec_append]
      exact ⟨_, exec_escape rfl _, rfl⟩
    · rename_i hneeds
      refine ⟨.plain, by decide, by decide, ?_⟩
      have hplain : ∀ c ∈ b :: f, c ∉ special := by
        simp only [fieldNeedsQuotes, Bool.or_eq_true, not_or, List.any_eq_true, decide_eq_true_eq,
          not_exists, not_and] at hneeds
        exact hneeds.1.2
      have hb := hplain b List.mem_cons_self
      have hquote : b ≠ '"' := by
        rintro rfl
        exact hb (by decide)
      rw [exec_cons]
      refine ⟨_, (if_neg hquote).trans (if_neg hb), ?_⟩
      exact exec_plain rfl fun c hc => hplain c (List.mem_cons_of_mem b hc)

theorem exec_writeRecord {fs : List (List Char)} (hfs : fs ≠ []) (fields : List (List Char))
    (records : List (List (List Char))) :
    exec next ⟨.start, [], fields, records⟩ (writeRecord fs) =
      some ⟨.start, [], [], records ++ [fields ++ fs]⟩ := by
  induction fs generalizing fields with
  | nil => exact absurd rfl hfs
  | cons f fs ih =>
    obtain ⟨a, hq, hcr, hfield⟩ := exec_writeField f fields records
    cases fs with
    | nil =>
      have hrecord : writeRecord [f] = writeField f ++ ['\n'] := by
        simp [writeRecord, List.intercalate]
      rw [hrecord, exec_append]
      refine ⟨_, hfield, exec_cons.2 ⟨_, next_separator hq hcr (.inr rfl), rfl⟩⟩
    | cons f' fs =>
      have hrecord : writeRecord (f :: f' :: fs) =
          writeField f ++ (',' :: writeRecord (f' :: fs)) := by
        simp [writeRecord, List.intercalate]
      rw [hrecord, exec_append]
      refine ⟨_, hfield, exec_cons.2 ⟨_, next_separator hq hcr (.inl rfl), ?_⟩⟩
      have hrest := ih (by simp) (fields ++ [f])
      rw [List.append_assoc] at hrest
      exact hrest

end Reader

/-- **What was written is read back**, when no record is without fields. -/
theorem read_write {records : List (List (List Char))} (h : ∀ r ∈ records, r ≠ []) :
    read (write records) = some records := by
  have hexec : ∀ done, exec Reader.next ⟨.start, [], [], done⟩ (write records) =
      some ⟨.start, [], [], done ++ records⟩ := by
    induction records with
    | nil => intro done; simp [write]
    | cons r records ih =>
      intro done
      rw [write, List.flatMap_cons, exec_append]
      refine ⟨_, Reader.exec_writeRecord (h r List.mem_cons_self) [] done, ?_⟩
      have hrest := ih (fun r' hr' => h r' (List.mem_cons_of_mem r hr')) (done ++ [r])
      rw [List.append_assoc] at hrest
      exact hrest
  rw [read, Reader.init, hexec []]
  rfl

end VcsClient.Lib.Csv
