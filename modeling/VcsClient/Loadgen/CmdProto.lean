import Mathlib.Data.List.TakeWhile
import VcsClient.Lib.Json
import VcsClient.Lib.Lists
import VcsClient.Lib.Text

/-!
# Commands

`ParseCommand` of `internal/loadgen/cmdproto.go`: a decoder reads one JSON value off the
line, the value is decoded into a command without unknown fields, and what the decoder has
not read must hold no more. Then the values are checked, and the fields that are set are
counted.

`More` asks for another element of an array or an object, so it also says no before a
closing bracket or brace; `parse_exact` is about lines where none follows the value.
-/

namespace VcsClient.Loadgen

open VcsClient.Lib

/-! ## `encoding/json` -/

/-- How deep a value may nest. -/
def maxNestingDepth : ℕ := 10000

/-- A value at the front of the line, and what is not read yet. -/
def readValue (line : List UInt8) : Option (Json × List UInt8) :=
  Json.scanValue maxNestingDepth (Json.skipSpace line)

/-- A rune as a field name is compared: the letters of ASCII in upper case, and the two
others that fold to one of them. -/
def foldRune (c : Char) : Char :=
  if 'a' ≤ c ∧ c ≤ 'z' then Char.ofNat (c.toNat - 32)
  else if c.toNat = 0x17F then 'S'
  else if c.toNat = 0x212A then 'K'
  else c

def foldName (s : List Char) : List Char := s.map foldRune

/-- The field of a key: that of the same name, or else of the same folded name. -/
def fieldOf {F : Type} (fields : List (String × F)) (key : List Char) : Option F :=
  match fields.find? fun f => f.1.toList = key with
  | some f => some f.2
  | none => (fields.find? fun f => foldName f.1.toList = foldName key).map (·.2)

def isClose (c : UInt8) : Bool := c = 93 || c = 125

/-- `Decoder.More`, with `rest` not read yet. -/
def more (rest : List UInt8) : Bool :=
  match Json.skipSpace rest with
  | [] => false
  | c :: _ => !isClose c

/-! ## The command -/

structure BurstCmd where
  add : ℤ
  inFlight : ℤ
  talker : List Char
  deriving DecidableEq

structure Command where
  setN : Option ℤ
  hold : Option ℚ
  report : Option (List Char)
  quit : Bool
  burst : Option BurstCmd
  deriving DecidableEq

inductive CommandField where
  | setN
  | hold
  | report
  | quit
  | burst
  deriving DecidableEq

def commandFields : List (String × CommandField) :=
  [("set_n", .setN), ("hold", .hold), ("report", .report), ("quit", .quit), ("burst", .burst)]

inductive BurstField where
  | add
  | inFlight
  | talker

def burstFields : List (String × BurstField) :=
  [("add", .add), ("in_flight", .inFlight), ("talker", .talker)]

def maxMaxInFlight : ℤ := 16

def rampTalkerSilent : List Char := "silent".toList

def rampTalkerLive : List Char := "live".toList

/-- A member of the burst's object; `null` leaves a field as it is. -/
def BurstCmd.decodeField (b : BurstCmd) : BurstField → Json → Option BurstCmd
  | _, .null => some b
  | .add, .number s => (atoi s).map fun n => { b with add := n }
  | .inFlight, .number s => (atoi s).map fun n => { b with inFlight := n }
  | .talker, .string s => some { b with talker := s }
  | _, _ => none

def BurstCmd.decodeMember (b : BurstCmd) (e : List Char × Json) : Option BurstCmd :=
  (fieldOf burstFields e.1).bind fun f => b.decodeField f e.2

def BurstCmd.zero : BurstCmd := ⟨0, 0, []⟩

/-- A member of the command's object; `null` clears a pointer, and an object is decoded
into the burst that is there. -/
def Command.decodeField (c : Command) : CommandField → Json → Option Command
  | .setN, .null => some { c with setN := none }
  | .setN, .number s => (atoi s).map fun n => { c with setN := some n }
  | .hold, .null => some { c with hold := none }
  | .hold, .number s => (Json.parseFloat s).map fun x => { c with hold := some x }
  | .report, .null => some { c with report := none }
  | .report, .string s => some { c with report := some s }
  | .quit, .null => some c
  | .quit, .bool b => some { c with quit := b }
  | .burst, .null => some { c with burst := none }
  | .burst, .object fields =>
    (fields.foldlM BurstCmd.decodeMember (c.burst.getD .zero)).map fun b =>
      { c with burst := some b }
  | _, _ => none

def Command.decodeMember (c : Command) (e : List Char × Json) : Option Command :=
  (fieldOf commandFields e.1).bind fun f => c.decodeField f e.2

def Command.zero : Command := ⟨none, none, none, false, none⟩

/-- `Decode` into a `Command`, of a value. -/
def decodeCommand : Json → Option Command
  | .null => some .zero
  | .object fields => fields.foldlM Command.decodeMember .zero
  | _ => none

/-- What `ParseCommand` says is wrong. -/
inductive CommandErr where
  | decode
  | trailing
  | setN (n : ℤ)
  | hold (x : ℚ)
  | burstAdd (n : ℤ)
  | burstInFlight (n : ℤ)
  | burstTalker (s : List Char)
  | fields (set : ℕ)
  deriving DecidableEq

def BurstCmd.check (b : BurstCmd) : Option CommandErr :=
  if b.add < 1 then some (.burstAdd b.add)
  else if b.inFlight < 1 ∨ b.inFlight > maxMaxInFlight then some (.burstInFlight b.inFlight)
  else if b.talker ≠ rampTalkerSilent ∧ b.talker ≠ rampTalkerLive then
    some (.burstTalker b.talker)
  else none

/-- The first value that is out of range. -/
def Command.check (c : Command) : Option CommandErr :=
  ((c.setN.bind fun n => if n < 1 then some (.setN n) else none).or
    (c.hold.bind fun x => if ¬ 0 < x then some (.hold x) else none)).or
    (c.burst.bind BurstCmd.check)

def Command.set (c : Command) : ℕ :=
  c.setN.isSome.toNat + c.hold.isSome.toNat + c.report.isSome.toNat + c.quit.toNat +
    c.burst.isSome.toNat

def parseCommand (line : List UInt8) : Except CommandErr Command :=
  match readValue line with
  | none => .error .decode
  | some (v, rest) =>
    match decodeCommand v with
    | none => .error .decode
    | some c =>
      if more rest then .error .trailing
      else
        match c.check with
        | some e => .error e
        | none => if c.set ≠ 1 then .error (.fields c.set) else .ok c

/-! ## What follows the value -/

/-- After white space at most, a closing bracket or brace is next. -/
def Stray (rest : List UInt8) : Prop := ∃ c t, Json.skipSpace rest = c :: t ∧ isClose c = true

theorem more_eq_false_iff {rest : List UInt8} :
    more rest = false ↔ (∀ c ∈ rest, Json.isSpace c = true) ∨ Stray rest := by
  unfold more Stray
  cases h : Json.skipSpace rest with
  | nil =>
    have hall : ∀ c ∈ rest, Json.isSpace c = true := List.dropWhile_eq_nil_iff.1 h
    exact ⟨fun _ => .inl hall, fun _ => rfl⟩
  | cons c t =>
    have hnot : ¬ ∀ c ∈ rest, Json.isSpace c = true := fun hall => by
      rw [Json.skipSpace, List.dropWhile_eq_nil_iff.2 hall] at h
      cases h
    simp [hnot]

/-! ## Known fields -/

/-- Every key is that of a field, in an object for the burst as well. -/
def OnlyKnown (fields : List (List Char × Json)) : Prop :=
  ∀ e ∈ fields, ∃ f, fieldOf commandFields e.1 = some f ∧
    ∀ inner, f = .burst → e.2 = .object inner →
      ∀ e' ∈ inner, (fieldOf burstFields e'.1).isSome

theorem Command.known_of_decodeField {c c' : Command} {inner : List (List Char × Json)}
    (h : c.decodeField .burst (.object inner) = some c') :
    ∀ e ∈ inner, (fieldOf burstFields e.1).isSome := by
  obtain ⟨b, hb, -⟩ := Option.map_eq_some_iff.1 h
  intro e he
  obtain ⟨b₀, b₁, hstep⟩ := foldlM_some_mem hb he
  obtain ⟨f, hf, -⟩ := Option.bind_eq_some_iff.1 hstep
  exact Option.isSome_of_mem hf

/-- **What decodes** has known fields only. -/
theorem onlyKnown_of_decode {fields : List (List Char × Json)} {c : Command}
    (h : decodeCommand (.object fields) = some c) : OnlyKnown fields := by
  intro e he
  obtain ⟨c₀, c₁, hstep⟩ := foldlM_some_mem h he
  obtain ⟨f, hf, hfield⟩ := Option.bind_eq_some_iff.1 hstep
  refine ⟨f, hf, fun inner hburst hobj => ?_⟩
  rw [hburst, hobj] at hfield
  exact Command.known_of_decodeField hfield

/-! ## Values in range -/

def BurstCmd.InRange (b : BurstCmd) : Prop :=
  1 ≤ b.add ∧ (1 ≤ b.inFlight ∧ b.inFlight ≤ maxMaxInFlight) ∧
    (b.talker = rampTalkerSilent ∨ b.talker = rampTalkerLive)

structure Command.InRange (c : Command) : Prop where
  setN : ∀ n, c.setN = some n → 1 ≤ n
  hold : ∀ x, c.hold = some x → 0 < x
  burst : ∀ b, c.burst = some b → b.InRange

theorem BurstCmd.check_eq_none_iff {b : BurstCmd} : b.check = none ↔ b.InRange := by
  unfold BurstCmd.check BurstCmd.InRange
  split_ifs with hadd hflight htalker
  · simp only [false_iff]
    omega
  · simp only [false_iff]
    omega
  · simp only [false_iff]
    tauto
  · simp only [true_iff]
    exact ⟨by omega, by omega, by tauto⟩

theorem Command.check_eq_none_iff {c : Command} : c.check = none ↔ c.InRange := by
  have hsetN : (c.setN.bind fun n => if n < 1 then some (CommandErr.setN n) else none) = none ↔
      ∀ n, c.setN = some n → 1 ≤ n := by
    rw [Option.bind_eq_none_iff]
    refine forall₂_congr fun n _ => ?_
    split_ifs <;> simp <;> omega
  have hhold : (c.hold.bind fun x => if ¬ 0 < x then some (CommandErr.hold x) else none) = none ↔
      ∀ x, c.hold = some x → 0 < x := by
    rw [Option.bind_eq_none_iff]
    refine forall₂_congr fun x _ => ?_
    split_ifs with hx <;> simp [hx]
  have hburst : c.burst.bind BurstCmd.check = none ↔ ∀ b, c.burst = some b → b.InRange := by
    rw [Option.bind_eq_none_iff]
    exact forall₂_congr fun b _ => BurstCmd.check_eq_none_iff
  unfold Command.check
  rw [Option.or_eq_none_iff, Option.or_eq_none_iff, hsetN, hhold, hburst]
  exact ⟨fun ⟨⟨hn, hx⟩, hb⟩ => ⟨hn, hx, hb⟩, fun h => ⟨⟨h.setN, h.hold⟩, h.burst⟩⟩

/-! ## The lines that are accepted -/

/-- One object with known fields, of which one is set when decoded, and then white space. -/
def IsCommand (line : List UInt8) (c : Command) : Prop :=
  ∃ text fields rest, line = text ++ rest ∧ readValue line = some (.object fields, rest) ∧
    (∀ b ∈ rest, Json.isSpace b = true) ∧ OnlyKnown fields ∧
    decodeCommand (.object fields) = some c ∧ c.set = 1

theorem readValue_suffix {line rest : List UInt8} {v : Json}
    (h : readValue line = some (v, rest)) : rest <:+ line :=
  (Json.scanValue_suffix h).trans (Json.skipSpace_suffix line)

/-- A command with a field set was decoded from an object. -/
theorem object_of_decode {v : Json} {c : Command} (h : decodeCommand v = some c)
    (hset : c.set = 1) : ∃ fields, v = .object fields := by
  cases v with
  | object fields => exact ⟨fields, rfl⟩
  | null =>
    cases h
    exact absurd hset (by decide)
  | _ => cases h

theorem parseCommand_eq_ok_iff {line : List UInt8} {c : Command} :
    parseCommand line = .ok c ↔ ∃ v rest, readValue line = some (v, rest) ∧
      decodeCommand v = some c ∧ more rest = false ∧ c.check = none ∧ c.set = 1 := by
  constructor
  · intro h
    unfold parseCommand at h
    split at h
    · cases h
    next v rest hread =>
    split at h
    · cases h
    next c' hdecode =>
    split at h
    · cases h
    next hmore =>
    split at h
    · cases h
    next hcheck =>
    split at h
    · cases h
    next hset =>
    cases h
    exact ⟨v, rest, hread, hdecode, Bool.eq_false_iff.2 hmore, hcheck, not_not.1 hset⟩
  · rintro ⟨v, rest, hread, hdecode, hmore, hcheck, hset⟩
    simp [parseCommand, hread, hdecode, hmore, hcheck, hset]

/-- What decodes to one set field, with white space after it, is such a line. -/
theorem isCommand_of_decode {line : List UInt8} {c : Command}
    (h : ((readValue line).bind fun p =>
      if p.2.all Json.isSpace then decodeCommand p.1 else none) = some c)
    (hset : c.set = 1) : IsCommand line c := by
  obtain ⟨⟨v, rest⟩, hread, h⟩ := Option.bind_eq_some_iff.1 h
  split at h
  · next hspace =>
    obtain ⟨fields, rfl⟩ := object_of_decode h hset
    obtain ⟨text, hline⟩ := readValue_suffix hread
    exact ⟨text, fields, rest, hline.symm, hread, List.all_eq_true.1 hspace,
      onlyKnown_of_decode h, h, hset⟩
  · cases h

/-- **Exactly the lines** that are one command in range are accepted, where no closing
bracket or brace follows the value. -/
theorem parse_exact (line : List UInt8) (c : Command)
    (hrest : ∀ v rest, readValue line = some (v, rest) → ¬ Stray rest) :
    parseCommand line = .ok c ↔ IsCommand line c ∧ c.InRange := by
  rw [parseCommand_eq_ok_iff]
  constructor
  · rintro ⟨v, rest, hread, hdecode, hmore, hcheck, hset⟩
    have hspace := (more_eq_false_iff.1 hmore).resolve_right (hrest v rest hread)
    have hcommand : IsCommand line c := by
      refine isCommand_of_decode ?_ hset
      rw [hread, Option.bind_some, if_pos (List.all_eq_true.2 hspace), hdecode]
    exact ⟨hcommand, Command.check_eq_none_iff.1 hcheck⟩
  · rintro ⟨⟨-, fields, rest, -, hread, hspace, -, hdecode, hset⟩, hrange⟩
    exact ⟨.object fields, rest, hread, hdecode, more_eq_false_iff.2 (.inl hspace),
      Command.check_eq_none_iff.2 hrange, hset⟩

def quitLine : List UInt8 := utf8 "\x7b\"quit\": true\x7d\n".toList

theorem parse_exact_quit :
    parseCommand quitLine = .ok ⟨none, none, none, true, none⟩ ↔
      IsCommand quitLine ⟨none, none, none, true, none⟩ ∧
        Command.InRange ⟨none, none, none, true, none⟩ := by
  refine parse_exact quitLine _ fun v rest h => ?_
  have hleft : (readValue quitLine).map (·.2) = some [10] := by decide +kernel
  rw [h] at hleft
  cases hleft
  rintro ⟨c, t, hskip, -⟩
  cases hskip

def zeroLine : List UInt8 := utf8 "\x7b\"set_n\":0\x7d".toList

def strayLine : List UInt8 := utf8 "\x7b\"quit\":true\x7d\x7d".toList

/-- One object with one field set is refused, for its value; and a brace after the object
is not seen. -/
theorem one_field_refused :
    IsCommand zeroLine ⟨some 0, none, none, false, none⟩ ∧
      parseCommand zeroLine = .error (.setN 0) ∧
      parseCommand strayLine = .ok ⟨none, none, none, true, none⟩ ∧
      ¬ ∃ c, IsCommand strayLine c := by
  refine ⟨isCommand_of_decode (by decide +kernel) rfl, by decide +kernel, by decide +kernel, ?_⟩
  rintro ⟨c, text, fields, rest, -, hread, hspace, -⟩
  have hleft : (readValue strayLine).map (·.2) = some [125] := by decide +kernel
  rw [hread] at hleft
  cases hleft
  exact absurd (hspace 125 List.mem_cons_self) (by decide)

end VcsClient.Loadgen
